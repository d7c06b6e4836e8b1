/-
# What a site operation leaves alone

An update or deletion of one site is meant to touch nothing of another site
that has a web server: neither its three files nor its lines in the hosts file.
Files go by the pattern `name.*`, so a name that continues another one behind a
dot is at risk on the same server; lines go by hostname, so a line is at risk
if an expression built from the hostnames of the first site finds it. A step
that avoids both leaves the other site alone, in every reachable state.
-/

import WampManager.HostsLines
import WampManager.Lib.Transition
import WampManager.SitePaths

namespace WampManager

namespace Site

open Hosts (linesFor matchesLine AddMisses)

/-! ## Names of sites -/

/-- The name of a site that is there. -/
def nameAt (db : Database) (id : ℤ) : Option Text := (db.sites.find? id).map SiteRow.name

/-- Names are domains and no two sites share one. -/
structure NamesApart (db : Database) : Prop where
  domain : ∀ id name, nameAt db id = some name → matchesDomain name = true
  distinct : ∀ id id' name, nameAt db id = some name → nameAt db id' = some name → id = id'

/-- Requests whose new name passes the validation of `SiteController::doAdd`. -/
def AcceptedRequest (db : Database) : Request → Prop
  | .create name _ _ _ _ _ => doAddAccepts db name = true
  | .update siteId name _ _ _ _ _ => nameAt db siteId = some name ∨ doAddAccepts db name = true
  | _ => True

/-- Where names are distinct, a name that is not in use belongs to no site. -/
theorem nameAt_ne_of_accepted {db : Database} (h : NamesApart db) {name : Text}
    (haccepts : doAddAccepts db name = true) :
    matchesDomain name = true ∧ ∀ id, nameAt db id ≠ some name := by
  simp only [doAddAccepts, Bool.and_eq_true] at haccepts
  obtain ⟨⟨-, hdomain⟩, hfree⟩ := haccepts
  refine ⟨hdomain, fun id hid => ?_⟩
  obtain ⟨site, hfind, hname⟩ := Option.map_eq_some_iff.mp hid
  set used := db.sites.rows.filter fun row => row.2.name == name with hused
  have hmem : (id, site) ∈ used :=
    List.mem_filter.mpr ⟨Table.find?_eq_some.mp hfind, by simpa using hname⟩
  -- all rows with the name are the one row, so exactly one is counted
  have hsame : ∀ row ∈ used, row = (id, site) := by
    rintro ⟨id', site'⟩ hrow
    obtain ⟨hrow, hname'⟩ := List.mem_filter.mp hrow
    have hid' : nameAt db id' = some name := by
      rw [nameAt, Table.find?_eq_some.mpr hrow]
      simpa using hname'
    obtain rfl := h.distinct id' id name hid' hid
    rw [Table.eq_of_mem hrow (Table.find?_eq_some.mp hfind)]
  have hnodup : used.Nodup := (List.Nodup.of_map _ db.sites.nodup).filter _
  have hone : used = [(id, site)] := by
    rw [List.eq_replicate_of_mem hsame] at hnodup hmem ⊢
    have hle : used.length ≤ 1 := List.nodup_replicate.mp hnodup
    have hpos : used.length ≠ 0 := by
      intro hzero
      rw [hzero] at hmem
      exact List.not_mem_nil hmem
    rw [show used.length = 1 by omega]
    rfl
  have hexists : siteExists db name = true := by
    rw [siteExists, ← hused, hone]
    rfl
  rw [hexists] at hfree
  cases hfree

/-- Giving one site a free or its own name keeps names apart. -/
theorem NamesApart.assign {db db' : Database} (h : NamesApart db) (siteId : ℤ) (name : Text)
    (hname : ∀ id, nameAt db' id = if id = siteId then some name else nameAt db id)
    (hfree : nameAt db siteId = some name ∨
      (matchesDomain name = true ∧ ∀ id, nameAt db id ≠ some name)) : NamesApart db' := by
  have hself : ∀ id, nameAt db id = some name → id = siteId := by
    intro id hid
    rcases hfree with hown | ⟨-, hfree⟩
    · exact h.distinct id siteId name hid hown
    · exact absurd hid (hfree id)
  have hdomain : matchesDomain name = true := by
    rcases hfree with hown | ⟨hdomain, -⟩
    · exact h.domain siteId name hown
    · exact hdomain
  constructor
  · intro id other hid
    rw [hname] at hid
    by_cases heq : id = siteId
    · rw [if_pos heq, Option.some.injEq] at hid
      rw [← hid]
      exact hdomain
    · rw [if_neg heq] at hid
      exact h.domain id other hid
  · intro id id' other hid hid'
    rw [hname] at hid hid'
    by_cases heq : id = siteId
    · by_cases heq' : id' = siteId
      · rw [heq, heq']
      · rw [if_pos heq, Option.some.injEq] at hid
        rw [if_neg heq', ← hid] at hid'
        exact absurd (hself id' hid') heq'
    · by_cases heq' : id' = siteId
      · rw [if_pos heq', Option.some.injEq] at hid'
        rw [if_neg heq, ← hid'] at hid
        exact absurd (hself id hid) heq
      · rw [if_neg heq] at hid
        rw [if_neg heq'] at hid'
        exact h.distinct id id' other hid hid'

/-- Dropping sites keeps names apart. -/
theorem NamesApart.drop {db db' : Database} (h : NamesApart db)
    (hname : ∀ id name, nameAt db' id = some name → nameAt db id = some name) :
    NamesApart db' :=
  ⟨fun id name hid => h.domain id name (hname id name hid),
    fun id id' name hid hid' => h.distinct id id' name (hname id name hid) (hname id' name hid')⟩

variable {env : Env} {w w' : World}

theorem namesApart_step {request : Request} (h : NamesApart w.db)
    (haccepted : AcceptedRequest w.db request) (hstep : Step env w request w') :
    NamesApart w'.db := by
  obtain ⟨haddressed, hdone⟩ := hstep
  cases request with
  | create name aliases root httpd php ca =>
      obtain ⟨-, rfl⟩ := create_done hdone
      rw [db_settle]
      refine h.assign w.db.sites.nextId name ?_
        (.inr (nameAt_ne_of_accepted h haccepted))
      intro id
      rw [nameAt, nameAt, createRows, insertAliases, Table.find?_insert]
      by_cases hid : id = w.db.sites.nextId <;> simp [hid]
  | update siteId name aliases root httpd php ca =>
      obtain rfl := update_done hdone
      rw [db_settle, db_leave]
      refine h.assign siteId name ?_
        (haccepted.imp_right (nameAt_ne_of_accepted h))
      intro id
      rw [nameAt, nameAt, updateRows, replaceAliases, insertAliases, Table.find?_update]
      by_cases hid : id = siteId
      · subst hid
        cases hfind : w.db.sites.find? id with
        | none => exact absurd haddressed (Table.find?_eq_none.mp hfind)
        | some site => simp
      · cases w.db.sites.find? id <;> simp [hid]
  | delete siteId =>
      obtain rfl := delete_done hdone
      refine h.drop fun id name hid => ?_
      rw [nameAt, deleteRows, Table.find?_delete_key] at hid
      by_cases hgone : id = siteId
      · simp [hgone] at hid
      · rwa [if_neg hgone] at hid
  | uninstall instanceId removable =>
      obtain rfl := Outcome.done.inj hdone
      refine h.drop fun id name hid => ?_
      have hfind : (uninstallServer env instanceId removable w).db.sites.find? id =
          (w.db.sites.find? id).map fun site =>
            if site.httpdInstanceId == some instanceId then
              { site with httpdInstanceId := none } else site := Table.find?_update _ _ _ _
      rw [nameAt, hfind] at hid
      rw [nameAt]
      cases hsite : w.db.sites.find? id with
      | none => simp [hsite] at hid
      | some site =>
          rw [hsite] at hid
          by_cases hserver : site.httpdInstanceId = some instanceId <;>
            simpa [hserver] using hid

/-- Stored instance names stay proper: sites do not touch them, an uninstall
only removes one. -/
theorem instancesNamed_step {request : Request} (h : InstancesNamed w.db)
    (hstep : Step env w request w') : InstancesNamed w'.db := by
  obtain ⟨-, hdone⟩ := hstep
  cases request with
  | create name aliases root httpd php ca =>
      obtain ⟨-, rfl⟩ := create_done hdone
      rw [db_settle]
      exact h
  | update siteId name aliases root httpd php ca =>
      obtain rfl := update_done hdone
      rw [db_settle, db_leave]
      exact h
  | delete siteId =>
      obtain rfl := delete_done hdone
      exact h
  | uninstall instanceId removable =>
      obtain rfl := Outcome.done.inj hdone
      exact fun id row hrow => h id row (List.mem_filter.mp hrow).1

/-! ## The files of another site -/

/-- The path of a file of a site on its server. -/
def sitePathOf (env : Env) (db : Database) (site : SiteRow) (ext : Text) : Text :=
  confPath env db site.httpdInstanceId ++ '\\' :: (site.name ++ ext)

theorem domain_chars {name : Text} (h : matchesDomain name = true) :
    ∀ c ∈ name, isDomainChar c = true ∨ c = '\n' := by
  intro c hc
  simp only [matchesDomain, Bool.and_eq_true, List.all_eq_true] at h
  by_cases hlast : name.getLast? = some '\n'
  · rw [if_pos hlast] at h
    have hsplit := List.dropLast_append_getLast? '\n' hlast
    rw [← hsplit, List.mem_append] at hc
    rcases hc with hc | hc
    · exact .inl (h.2 c hc)
    · exact .inr (List.mem_singleton.mp hc)
  · rw [if_neg hlast] at h
    exact .inl (h.2 c hc)

theorem isDomainChar_spec {c : Char} (h : isDomainChar c = true ∨ c = '\n') :
    FilePath.isSep c = false ∧ (c ≠ '*' ∧ c ≠ '?' ∧ c ≠ '[') ∧ c.toLower = c := by
  have hforeign : ∀ d ∈ ['/', '\\', '*', '?', '['], isDomainChar d = false ∧ d ≠ '\n' := by decide
  have hne : ∀ d ∈ ['/', '\\', '*', '?', '['], c ≠ d := by
    rintro d hd rfl
    obtain ⟨hchar, hfeed⟩ := hforeign c hd
    rcases h with h | h
    · rw [hchar] at h
      cases h
    · exact hfeed h
  refine ⟨?_, ⟨hne _ (by decide), hne _ (by decide), hne _ (by decide)⟩, ?_⟩
  · simp [FilePath.isSep, hne '/' (by decide), hne '\\' (by decide)]
  · rcases h with h | rfl
    · simp only [isDomainChar, Bool.or_eq_true, beq_iff_eq] at h
      rcases h with ((h | h) | rfl) | rfl
      · exact Text.toLower_eq_self (.inl h)
      · exact Text.toLower_eq_self (.inr h)
      · rfl
      · rfl
    · rfl

theorem sep_of_domain {name : Text} (h : matchesDomain name = true) :
    ∀ c ∈ name, FilePath.isSep c = false :=
  fun c hc => (isDomainChar_spec (domain_chars h c hc)).1

theorem lower_domain {name : Text} (h : matchesDomain name = true) :
    Text.lower name = name := by
  rw [Text.lower, List.map_congr_left (g := id), List.map_id]
  exact fun c hc => (isDomainChar_spec (domain_chars h c hc)).2.2

theorem literal_domain {name : Text} (h : matchesDomain name = true) : Glob.Literal name :=
  fun c hc => (isDomainChar_spec (domain_chars h c hc)).2.1

/-- A dotted prefix of a name with an extension is a dotted prefix of the name,
or the name itself. -/
theorem dot_prefix_of_extension {name other rest : Text} (hrest : '.' ∉ rest)
    (h : name ++ ['.'] <+: other ++ '.' :: rest) : name ++ ['.'] <+: other ∨ name = other := by
  rcases List.prefix_or_prefix_of_prefix h (List.prefix_append other ('.' :: rest)) with hle | hle
  · exact .inl hle
  · rcases List.prefix_concat_iff.mp hle with rfl | ⟨more, rfl⟩
    · exact .inl (List.prefix_refl _)
    · rw [List.append_assoc, List.prefix_append_right_inj] at h
      cases more with
      | nil => exact .inr (List.append_nil other)
      | cons c more =>
          have hmem : '.' ∈ rest := by
            have hmore : more ++ ['.'] <+: rest := (List.cons_prefix_cons.mp h).2
            exact hmore.sublist.mem (List.mem_append_right _ (List.mem_singleton_self _))
          exact absurd hmem hrest

variable {site other : SiteRow} {ext : Text}

theorem key_sitePathOf (env : Env) (db : Database) (hother : matchesDomain other.name = true)
    (hext : ext ∈ extensions) :
    Drive.key (sitePathOf env db other ext) =
      dirKey env db other.httpdInstanceId ++ [other.name ++ ext] := by
  obtain ⟨hsep, hlength, hlower, -⟩ := extensions_spec hext
  rw [sitePathOf, key_file (fileName_append (sep_of_domain hother) hsep hlength)]
  rw [Text.lower, List.map_append, ← Text.lower, ← Text.lower, lower_domain hother, hlower]

/-- Making the files of one site writes no file of another name. -/
theorem fileAt_make {siteId : ℤ} {v : World} (db : Database)
    (hv : getById v.db siteId = site) (hsite : matchesDomain site.name = true)
    (hother : matchesDomain other.name = true) (hext : ext ∈ extensions)
    (hne : site.name ≠ other.name) :
    (make env siteId v).disk.tree.fileAt (Drive.key (sitePathOf env db other ext)) =
      v.disk.tree.fileAt (Drive.key (sitePathOf env db other ext)) := by
  have hdiff : ∀ ext' ∈ extensions, Drive.key (sitePathOf env db other ext) ≠
      dirKey env v.db site.httpdInstanceId ++ [Text.lower (site.name ++ ext')] := by
    intro ext' hext' heq
    obtain ⟨-, -, hlower, -⟩ := extensions_spec hext'
    rw [key_sitePathOf env db hother hext, Text.lower, List.map_append, ← Text.lower,
      ← Text.lower, lower_domain hsite, hlower] at heq
    have hlast : other.name ++ ext = site.name ++ ext' := by
      have hboth := congrArg List.getLast? heq
      simpa using hboth
    exact hne (append_extension_inj hext hext' hlast).symm
  obtain ⟨keyPath, crtPath, vhostPath, text, hdisk, hkey, hcrt, hvhost, -⟩ :=
    disk_make env hv fun ext' hext' =>
      fileName_append (sep_of_domain hsite) (extensions_spec hext').1 (extensions_spec hext').2.1
  rw [hdisk, Drive.fileAt_put_of_ne, Drive.fileAt_put_of_ne, Drive.fileAt_put_of_ne]
  · rw [hkey]
    exact hdiff _ (by decide)
  · rw [hcrt]
    exact hdiff _ (by decide)
  · rw [hvhost]
    exact hdiff _ (by decide)

/-- On its own server the first site's name is not continued by the other's. -/
def SparesFiles (site other : SiteRow) : Prop :=
  site.httpdInstanceId = other.httpdInstanceId → ¬ site.name ++ ['.'] <+: other.name

instance (site other : SiteRow) : Decidable (SparesFiles site other) :=
  inferInstanceAs (Decidable (_ → _))

/-- A deletion pattern whose name is not continued by the other name spares the
files of the other site. -/
theorem fileAt_del_configs {db : Database} (d : Drive) (hnamed : InstancesNamed db)
    (hsite : matchesDomain site.name = true) (hother : matchesDomain other.name = true)
    (hext : ext ∈ extensions) (hne : site.name ≠ other.name) {server : ℤ}
    (hserver : other.httpdInstanceId = some server)
    (hinstance : instanceName db (some server) ≠ []) (hspares : SparesFiles site other) :
    (d.del (configs env db site)).tree.fileAt (Drive.key (sitePathOf env db other ext)) =
      d.tree.fileAt (Drive.key (sitePathOf env db other ext)) := by
  rw [Drive.fileAt_del]
  cases hfile : d.tree.fileAt (Drive.key (sitePathOf env db other ext)) with
  | none => rfl
  | some file =>
      have hmiss : Drive.globMatches (configs env db site)
          (Drive.key (sitePathOf env db other ext)) file = false := by
        rw [← Bool.not_eq_true, globMatches_configs (sep_of_domain hsite),
          Glob.matchSegment_dot_star (literal_domain hsite)]
        rintro ⟨-, hdir, hbegin⟩
        rw [key_sitePathOf env db hother hext, List.dropLast_concat, hserver] at hdir
        have hsame := server_of_matchPath hnamed hinstance hdir
        obtain ⟨-, -, -, rest, hrest, hnodot⟩ := extensions_spec hext
        -- the name on the disk is the other site's file name up to capitals
        have hspelled := d.spelled_key _ _ hfile
        rw [key_sitePathOf env db hother hext, List.getLast?_concat, Option.some.injEq] at hspelled
        have hfolded : site.name ++ ['.'] <+: other.name ++ '.' :: rest := by
          rw [← hrest, hspelled]
          have hmap := hbegin.map Char.toLower
          have hself : (site.name ++ ['.']).map Char.toLower = site.name ++ ['.'] := by
            rw [List.map_append, ← Text.lower, lower_domain hsite]
            rfl
          rwa [hself] at hmap
        rcases dot_prefix_of_extension hnodot hfolded with hcontinues | heq
        · exact hspares (hsame.trans hserver.symm) hcontinues
        · exact hne heq
      simp [Option.filter, hmiss]

/-! ## The frame -/

/-- The site a request updates or deletes. -/
def subject : Request → Option ℤ
  | .update siteId _ _ _ _ _ _ => some siteId
  | .delete siteId => some siteId
  | _ => none

/-- No expression for one of some hostnames finds a line that names the given one. -/
def Misses (env : Env) (w : World) (hostname : Text) (others : List Text) : Prop :=
  ∀ other ∈ others, ∀ l ∈ linesFor hostname w.hosts, matchesLine env.preg other l = false

instance (env : Env) (w : World) (hostname : Text) (others : List Text) :
    Decidable (Misses env w hostname others) :=
  inferInstanceAs (Decidable (∀ other ∈ others, _))

/-- The requests that leave a site alone. -/
def SparesSite (env : Env) (w : World) (otherId : ℤ) : Request → Prop
  | .update siteId name aliases _ httpd _ _ =>
      let new := name :: (stringToCleanAliasArray aliases).map (hostnameOf name)
      (∀ h ∈ hostnames w.db otherId, Misses env w h (hostnames w.db siteId) ∧
        (httpd ≠ none → Misses env w h new ∧
          ∀ g ∈ new, AddMisses h (hostInterface w.db httpd) g)) ∧
        (Leaves (getById w.db siteId) httpd →
          SparesFiles (getById w.db siteId) (getById w.db otherId))
  | .delete siteId =>
      (∀ h ∈ hostnames w.db otherId, Misses env w h (hostnames w.db siteId)) ∧
        SparesFiles (getById w.db siteId) (getById w.db otherId)
  | _ => True

/-- The files of a site and its lines are what they were. -/
def Untouched (env : Env) (w w' : World) (otherId : ℤ) : Prop :=
  (∀ ext ∈ extensions, w'.disk.get (sitePathOf env w.db (getById w.db otherId) ext) =
    w.disk.get (sitePathOf env w.db (getById w.db otherId) ext)) ∧
  ∀ h ∈ hostnames w.db otherId, linesFor h w'.hosts = linesFor h w.hosts

theorem nameAt_of_mem {db : Database} {id : ℤ} (h : id ∈ db.sites.rows.map Prod.fst) :
    nameAt db id = some (getById db id).name := by
  rw [nameAt, getById]
  cases hfind : db.sites.find? id with
  | none => exact absurd h (Table.find?_eq_none.mp hfind)
  | some site => rfl

theorem untouched_update {siteId otherId server : ℤ} {name aliases root : Text}
    {httpd php : Option ℤ} {ca : Certificate} (hapart : NamesApart w.db)
    (hnamed : InstancesNamed w.db)
    (haccepted : AcceptedRequest w.db (.update siteId name aliases root httpd php ca))
    (hsiteId : siteId ∈ w.db.sites.rows.map Prod.fst)
    (hotherId : otherId ∈ w.db.sites.rows.map Prod.fst) (hne : otherId ≠ siteId)
    (hserver : (getById w.db otherId).httpdInstanceId = some server)
    (hinstance : instanceName w.db (some server) ≠ [])
    (hspares : SparesSite env w otherId (.update siteId name aliases root httpd php ca))
    (hstep : update env siteId name aliases root httpd php ca w = .done w') :
    Untouched env w w' otherId := by
  obtain rfl := update_done hstep
  obtain ⟨hlines, hfiles⟩ := hspares
  set row : SiteRow := ⟨name, ca.key, ca.crt, Text.rtrimChar '\\' (rootOf env name root),
    httpd, php⟩ with hrow
  set db := updateRows siteId row (stringToCleanAliasArray aliases) w.db with hdb
  set u : World := { (makeRoot env name root w).editHosts
    (Hosts.removeAll env.preg (hostnames w.db siteId)) with db := db } with hu
  have hsite : getById db siteId = row := by
    rw [hdb, getById_updateRows _ _ _ _ _ hsiteId, if_pos rfl]
  have hhosts : u.hosts = removedHosts env w.db siteId w.hosts := by
    simp only [hu, World.editHosts, hosts_makeRoot]
    rfl
  constructor
  · intro ext hext
    have hotherName := nameAt_of_mem hotherId
    have hsiteName := nameAt_of_mem hsiteId
    have hotherDomain := hapart.domain _ _ hotherName
    -- the old and the new name both differ from the other site's
    have hold : (getById w.db siteId).name ≠ (getById w.db otherId).name := fun heq =>
      hne (hapart.distinct otherId siteId _ hotherName (heq ▸ hsiteName))
    have hnew : matchesDomain name = true ∧ name ≠ (getById w.db otherId).name := by
      rcases haccepted with hown | hfree
      · have heq : name = (getById w.db siteId).name :=
          Option.some.inj (hown.symm.trans hsiteName)
        exact ⟨hapart.domain _ _ hown, heq ▸ hold⟩
      · obtain ⟨hdomain, hfree⟩ := nameAt_ne_of_accepted hapart hfree
        exact ⟨hdomain, fun heq => hfree otherId (heq ▸ hotherName)⟩
    apply Drive.get_congr
    have hroot : u.disk.tree.fileAt (Drive.key (sitePathOf env w.db (getById w.db otherId) ext)) =
        w.disk.tree.fileAt (Drive.key (sitePathOf env w.db (getById w.db otherId) ext)) := by
      simp only [hu, World.editHosts, makeRoot]
      split
      · exact Drive.fileAt_mkdir _ _
      · rfl
    have hleave : (leave env (getById w.db siteId) httpd u).disk.tree.fileAt
          (Drive.key (sitePathOf env w.db (getById w.db otherId) ext)) =
        u.disk.tree.fileAt (Drive.key (sitePathOf env w.db (getById w.db otherId) ext)) := by
      unfold leave
      split
      · next hleaves =>
          exact fileAt_del_configs u.disk hnamed (hapart.domain _ _ hsiteName) hotherDomain
            hext hold hserver hinstance (hfiles hleaves)
      · rfl
    unfold settle
    split
    · rw [hleave, hroot]
    · have hleft : getById (leave env (getById w.db siteId) httpd u).db siteId = row := by
        rw [db_leave]
        exact hsite
      rw [fileAt_make w.db hleft hnew.1 hotherDomain hext hnew.2, hleave, hroot]
  · intro h hh
    obtain ⟨hremoves, hadds⟩ := hlines h hh
    have hremoved : linesFor h (removedHosts env w.db siteId w.hosts) = linesFor h w.hosts :=
      Hosts.linesFor_removeAll hremoves
    rw [hosts_settle, hosts_leave, db_leave, hhosts]
    by_cases hnone : httpd = none
    · rw [if_pos hnone, hremoved]
    · obtain ⟨hmiss, hadd⟩ := hadds hnone
      have hhostnames : hostnames db siteId =
          name :: (stringToCleanAliasArray aliases).map (hostnameOf name) := by
        rw [hostnames, hsite, hdb, aliasesOf_updateRows, if_pos rfl]
      have hinterface : hostInterface db httpd = hostInterface w.db httpd := rfl
      rw [if_neg hnone, addedHosts, hhostnames, hsite, hinterface, Hosts.linesFor_addAll _ hadd,
        hremoved]
      rw [hremoved]
      exact hmiss

theorem untouched_delete {siteId otherId server : ℤ} (hapart : NamesApart w.db)
    (hnamed : InstancesNamed w.db)
    (hsiteId : siteId ∈ w.db.sites.rows.map Prod.fst)
    (hotherId : otherId ∈ w.db.sites.rows.map Prod.fst) (hne : otherId ≠ siteId)
    (hserver : (getById w.db otherId).httpdInstanceId = some server)
    (hinstance : instanceName w.db (some server) ≠ [])
    (hspares : SparesSite env w otherId (.delete siteId))
    (hstep : delete env siteId w = .done w') : Untouched env w w' otherId := by
  obtain rfl := delete_done hstep
  obtain ⟨hlines, hfiles⟩ := hspares
  have hotherName := nameAt_of_mem hotherId
  have hsiteName := nameAt_of_mem hsiteId
  have hold : (getById w.db siteId).name ≠ (getById w.db otherId).name := fun heq =>
    hne (hapart.distinct otherId siteId _ hotherName (heq ▸ hsiteName))
  constructor
  · intro ext hext
    apply Drive.get_congr
    exact fileAt_del_configs _ hnamed (hapart.domain _ _ hsiteName)
      (hapart.domain _ _ hotherName) hext hold hserver hinstance hfiles
  · exact fun h hh => Hosts.linesFor_removeAll (hlines h hh)

/-- In every state that accepted requests reach from no sites, an update or a
deletion of one site that spares another site with a web server leaves the
files and the hosts lines of that site as they were. -/
theorem site_operation_frame (env : Env) {w₀ w w' : World} {requests : List Request}
    (hstart : NoSites w₀.db) (hnamed : InstancesNamed w₀.db)
    (run : Transition.Run (Transition.Guarded
      (fun w request => AcceptedRequest w.db request) (Step env)) w₀ requests w)
    {request : Request} {siteId otherId server : ℤ} {other : SiteRow} {row : InstanceRow}
    (hsubject : subject request = some siteId) (haccepted : AcceptedRequest w.db request)
    (hstep : Step env w request w') (hother : (otherId, other) ∈ w.db.sites.rows)
    (hne : otherId ≠ siteId) (hserver : other.httpdInstanceId = some server)
    (hrow : (server, row) ∈ w.db.instances.rows) (hname : row.name ≠ none)
    (hspares : SparesSite env w otherId request) : Untouched env w w' otherId := by
  have hempty : NamesApart w₀.db := by
    have hnone : ∀ id, nameAt w₀.db id = none := by
      intro id
      rw [nameAt, Option.map_eq_none_iff, Table.find?_eq_none, hstart.1]
      exact List.not_mem_nil
    exact ⟨fun id name hid => by simp [hnone] at hid, fun id _ name hid => by simp [hnone] at hid⟩
  have hapart := run.invariant (fun v => NamesApart v.db) hempty
    fun s a t h hstep => namesApart_step h hstep.1 hstep.2
  have hnamed' := run.invariant (fun v => InstancesNamed v.db) hnamed
    fun s a t h hstep => instancesNamed_step h hstep.2
  have hotherId : otherId ∈ w.db.sites.rows.map Prod.fst := List.mem_map.mpr ⟨_, hother, rfl⟩
  have hserver' : (getById w.db otherId).httpdInstanceId = some server := by
    rw [getById, Table.find?_eq_some.mpr hother]
    exact hserver
  have hinstance := instanceName_ne_nil hnamed' hrow hname
  obtain ⟨haddressed, hdone⟩ := hstep
  cases request with
  | create => cases hsubject
  | update siteId' name aliases root httpd php ca =>
      obtain rfl := Option.some.inj hsubject
      exact untouched_update hapart hnamed' haccepted haddressed hotherId hne hserver' hinstance
        hspares hdone
  | delete siteId' =>
      obtain rfl := Option.some.inj hsubject
      exact untouched_delete hapart hnamed' haddressed hotherId hne hserver' hinstance hspares
        hdone
  | uninstall => cases hsubject

/-- One of two unrelated sites is renamed and moved; the other is left alone. -/
theorem site_operation_frame_moved :
    let w₁ := (handle sampleEnv (sampleCreate "a" "www" (some 1)) sampleWorld).world
    let w₂ := (handle sampleEnv (sampleCreate "b" "www" (some 1)) w₁).world
    Untouched sampleEnv w₂ (handle sampleEnv (sampleUpdate 1 "c" "x" (some 2)) w₂).world 2 := by
  intro w₁ w₂
  have run : Transition.Run (Transition.Guarded
      (fun w request => AcceptedRequest w.db request) (Step sampleEnv)) sampleWorld
      [sampleCreate "a" "www" (some 1), sampleCreate "b" "www" (some 1)] w₂ :=
    .snoc (.snoc (.nil _) ⟨(by decide : doAddAccepts _ _ = true), trivial, rfl⟩)
      ⟨(by decide : doAddAccepts _ _ = true), trivial, rfl⟩
  have hmiss : ∀ h ∈ hostnames w₂.db 2,
      Misses sampleEnv w₂ h (hostnames w₂.db 1) ∧
        Misses sampleEnv w₂ h ["c".toList, "x.c".toList] ∧
          ∀ g ∈ ["c".toList, "x.c".toList],
            AddMisses h (hostInterface w₂.db (some 2)) g := by decide
  have hspares : SparesSite sampleEnv w₂ 2 (sampleUpdate 1 "c" "x" (some 2)) :=
    ⟨fun h hh => ⟨(hmiss h hh).1, fun _ => (hmiss h hh).2⟩, fun _ => by decide⟩
  have haccepted : AcceptedRequest w₂.db (sampleUpdate 1 "c" "x" (some 2)) :=
    Or.inr (by decide)
  exact site_operation_frame sampleEnv ⟨rfl, rfl⟩ instancesNamed_sample run rfl haccepted
    ⟨by decide, rfl⟩
    (List.mem_cons_of_mem _ (List.mem_singleton_self _)) (by decide) rfl List.mem_cons_self
    (by decide) hspares

/-- Deleting `a` takes the files of `a.b` on the same server with it. -/
theorem site_operation_frame_fails :
    ¬ ∀ (env : Env) (w₀ w w' : World) (requests : List Request),
      NoSites w₀.db → InstancesNamed w₀.db →
      Transition.Run (Transition.Guarded
        (fun w request => AcceptedRequest w.db request) (Step env)) w₀ requests w →
      ∀ request siteId otherId server other row, subject request = some siteId →
        AcceptedRequest w.db request → Step env w request w' →
        (otherId, other) ∈ w.db.sites.rows → otherId ≠ siteId →
        other.httpdInstanceId = some server → (server, row) ∈ w.db.instances.rows →
        row.name ≠ none → Untouched env w w' otherId := by
  intro hclaim
  let w₁ := (handle sampleEnv (sampleCreate "a" "" (some 1)) sampleWorld).world
  let w₂ := (handle sampleEnv (sampleCreate "a.b" "" (some 1)) w₁).world
  let w₃ := (handle sampleEnv (.delete 1) w₂).world
  have run : Transition.Run (Transition.Guarded
      (fun w request => AcceptedRequest w.db request) (Step sampleEnv)) sampleWorld
      [sampleCreate "a" "" (some 1), sampleCreate "a.b" "" (some 1)] w₂ :=
    .snoc (.snoc (.nil _) ⟨(by decide : doAddAccepts _ _ = true), trivial, rfl⟩)
      ⟨(by decide : doAddAccepts _ _ = true), trivial, rfl⟩
  obtain ⟨hfiles, -⟩ := hclaim sampleEnv sampleWorld w₂ w₃ _ ⟨rfl, rfl⟩ instancesNamed_sample run (.delete 1)
    1 2 1 _ _ rfl trivial ⟨by decide, rfl⟩
    (List.mem_cons_of_mem _ (List.mem_singleton_self _)) (by decide) rfl List.mem_cons_self
    (by decide)
  have hvhost := hfiles ".vhost".toList List.mem_cons_self
  exact absurd hvhost (by decide)

end Site

end WampManager
