/-
# The hosts file against the site table

The hosts file is meant to name a hostname exactly if some site with a web
server has it. Every operation edits only the lines of its own site, so two
things can break the correspondence: a hostname that two sites share, whose one
line goes with the first of them, and the uninstall of a web server, which
takes the server away from its sites and leaves their lines behind. A run whose
steps avoid both, and whose addresses and names make proper lines, keeps it.
-/

import WampManager.HostsLines
import WampManager.Lib.Transition
import WampManager.SiteSteps

namespace WampManager

namespace Site

open Hosts (Names Written HostToken isHostChar IsAddress)

/-- Some site with a web server has the hostname. -/
def Owned (db : Database) (hostname : Text) : Prop :=
  ∃ id site, (id, site) ∈ db.sites.rows ∧ site.httpdInstanceId ≠ none ∧
    hostname ∈ hostnames db id

/-- Some other site with a web server has the hostname. -/
def OwnedElsewhere (db : Database) (siteId : ℤ) (hostname : Text) : Prop :=
  ∃ id site, (id, site) ∈ db.sites.rows ∧ id ≠ siteId ∧ site.httpdInstanceId ≠ none ∧
    hostname ∈ hostnames db id

/-- The names and aliases the correspondence is about. -/
def Spelled (name aliases : Text) : Prop :=
  (∀ c ∈ name, isHostChar c) ∧ name ≠ "localhost".toList ∧
    ∀ a ∈ stringToCleanAliasArray aliases, ∀ c ∈ a, isHostChar c

instance (name aliases : Text) : Decidable (Spelled name aliases) :=
  inferInstanceAs (Decidable (_ ∧ _ ∧ _))

/-- The requests the correspondence is about. -/
def SpelledRequest : Request → Prop
  | .create name aliases _ _ _ _ => Spelled name aliases
  | .update _ name aliases _ _ _ _ => Spelled name aliases
  | _ => True

/-- The steps that keep the correspondence. -/
def KeepsHosts (db : Database) : Request → Prop
  | .create _ _ _ httpd _ _ => httpd ≠ none → IsAddress (hostInterface db httpd)
  | .update siteId name aliases _ httpd _ _ =>
      (httpd ≠ none → name ≠ [] ∧ IsAddress (hostInterface db httpd)) ∧
        ∀ h ∈ hostnames db siteId, OwnedElsewhere db siteId h →
          httpd ≠ none ∧
            h ∈ name :: (stringToCleanAliasArray aliases).map (hostnameOf name)
  | .delete siteId => ∀ h ∈ hostnames db siteId, ¬ OwnedElsewhere db siteId h
  | .uninstall instanceId _ => ∀ id site, (id, site) ∈ db.sites.rows →
      site.httpdInstanceId = some instanceId → ∀ h ∈ hostnames db id,
        ∃ id' site', (id', site') ∈ db.sites.rows ∧ site'.httpdInstanceId ≠ none ∧
          site'.httpdInstanceId ≠ some instanceId ∧ h ∈ hostnames db id'

/-! ## Owners -/

theorem owned_iff {db : Database} {hostname : Text} :
    Owned db hostname ↔
      ∃ id, (getById db id).httpdInstanceId ≠ none ∧ hostname ∈ hostnames db id := by
  constructor
  · rintro ⟨id, site, hrow, hserver, hmem⟩
    exact ⟨id, (exists_row_iff (· ≠ none) (fun h => h rfl)).mp ⟨site, hrow, hserver⟩, hmem⟩
  · rintro ⟨id, hserver, hmem⟩
    obtain ⟨site, hrow, hserver⟩ := (exists_row_iff (· ≠ none) (fun h => h rfl)).mpr hserver
    exact ⟨id, site, hrow, hserver, hmem⟩

theorem ownedElsewhere_iff {db : Database} {siteId : ℤ} {hostname : Text} :
    OwnedElsewhere db siteId hostname ↔
      ∃ id, id ≠ siteId ∧ (getById db id).httpdInstanceId ≠ none ∧
        hostname ∈ hostnames db id := by
  constructor
  · rintro ⟨id, site, hrow, hne, hserver, hmem⟩
    exact ⟨id, hne, (exists_row_iff (· ≠ none) (fun h => h rfl)).mp ⟨site, hrow, hserver⟩, hmem⟩
  · rintro ⟨id, hne, hserver, hmem⟩
    obtain ⟨site, hrow, hserver⟩ := (exists_row_iff (· ≠ none) (fun h => h rfl)).mpr hserver
    exact ⟨id, site, hrow, hne, hserver, hmem⟩

/-- The owner is one given site or another one. -/
theorem owned_iff_elsewhere (db : Database) (siteId : ℤ) {hostname : Text} :
    Owned db hostname ↔ OwnedElsewhere db siteId hostname ∨
      ((getById db siteId).httpdInstanceId ≠ none ∧ hostname ∈ hostnames db siteId) := by
  rw [owned_iff, ownedElsewhere_iff]
  constructor
  · rintro ⟨id, hserver, hmem⟩
    by_cases hid : id = siteId
    · exact .inr (hid ▸ ⟨hserver, hmem⟩)
    · exact .inl ⟨id, hid, hserver, hmem⟩
  · rintro (⟨id, -, hserver, hmem⟩ | ⟨hserver, hmem⟩)
    · exact ⟨id, hserver, hmem⟩
    · exact ⟨siteId, hserver, hmem⟩

/-- Other owners depend on the rows of other sites only. -/
theorem ownedElsewhere_congr {db db' : Database} {siteId : ℤ} {hostname : Text}
    (hsites : ∀ id ≠ siteId, getById db' id = getById db id)
    (haliases : ∀ id ≠ siteId, aliasesOf db' id = aliasesOf db id) :
    OwnedElsewhere db' siteId hostname ↔ OwnedElsewhere db siteId hostname := by
  simp only [ownedElsewhere_iff]
  refine exists_congr fun id => and_congr_right fun hid => ?_
  rw [hostnames, hostnames, hsites id hid, haliases id hid]

/-! ## The invariant -/

/-- All names and aliases in the tables are spelled with hostname characters. -/
def RowsSpelled (db : Database) : Prop :=
  ∀ id, (∀ c ∈ (getById db id).name, isHostChar c) ∧
    ∀ a ∈ aliasesOf db id, ∀ c ∈ a, isHostChar c

/-- The correspondence for one hostname, with what the next edit needs. -/
structure Mirrors (hostname : Text) (w : World) : Prop where
  spelled : RowsSpelled w.db
  written : Written hostname w.hosts
  token : Names hostname w.hosts → HostToken hostname
  mirror : Names hostname w.hosts ↔ Owned w.db hostname

theorem isHostChar_hostnames {name : Text} {aliases : List Text}
    (hname : ∀ c ∈ name, isHostChar c) (haliases : ∀ a ∈ aliases, ∀ c ∈ a, isHostChar c) :
    ∀ h ∈ name :: aliases.map (hostnameOf name), ∀ c ∈ h, isHostChar c := by
  intro h hh c hc
  rcases List.mem_cons.mp hh with rfl | hh
  · exact hname c hc
  · obtain ⟨a, ha, rfl⟩ := List.mem_map.mp hh
    rcases List.mem_append.mp hc with hc | hc
    · exact haliases a ha c hc
    · rcases List.mem_cons.mp hc with rfl | hc
      · rfl
      · exact hname c hc

theorem hostnames_spelled {db : Database} (h : RowsSpelled db) (id : ℤ) :
    ∀ t ∈ hostnames db id, ∀ c ∈ t, isHostChar c :=
  isHostChar_hostnames (h id).1 (h id).2

/-- The hostnames of a properly named site can be added. -/
theorem hostnames_addable {name : Text} {aliases : List Text} (hne : name ≠ [])
    (hlocal : name ≠ "localhost".toList)
    (hchars : ∀ h ∈ name :: aliases.map (hostnameOf name), ∀ c ∈ h, isHostChar c) :
    ∀ h ∈ name :: aliases.map (hostnameOf name),
      HostToken h ∧ h ≠ "localhost".toList := by
  intro h hh
  refine ⟨⟨?_, hchars h hh⟩, ?_⟩
  · rcases List.mem_cons.mp hh with rfl | hh
    · exact hne
    · obtain ⟨a, -, rfl⟩ := List.mem_map.mp hh
      simp [hostnameOf]
  · rcases List.mem_cons.mp hh with rfl | hh
    · exact hlocal
    · obtain ⟨a, -, rfl⟩ := List.mem_map.mp hh
      intro heq
      have hdot : '.' ∈ "localhost".toList := heq ▸ (by simp [hostnameOf])
      revert hdot
      decide

variable {env : Env} {hostname : Text} {w w' : World}

/-- Removing the hostnames of a site takes away these names. -/
theorem names_removedHosts (env : Env) (h : Mirrors hostname w) (siteId : ℤ) :
    (Names hostname (removedHosts env w.db siteId w.hosts) ↔
      Names hostname w.hosts ∧ hostname ∉ hostnames w.db siteId) ∧
    Written hostname (removedHosts env w.db siteId w.hosts) :=
  Hosts.names_removeAll
    (fun o ho c hc =>
      (Hosts.isHostChar_spec (hostnames_spelled h.spelled siteId o ho c hc)).2.2.2.2)
    h.token h.written

/-- Adding the hostnames of a site adds these names. -/
theorem names_addedHosts {db : Database} {siteId : ℤ} {file : Text}
    (haddress : IsAddress (hostInterface db (getById db siteId).httpdInstanceId))
    (haddable : ∀ h ∈ hostnames db siteId, HostToken h ∧ h ≠ "localhost".toList)
    (htoken : Names hostname file → HostToken hostname) (hwritten : Written hostname file) :
    (Names hostname (addedHosts env db siteId file) ↔
      Names hostname file ∨ hostname ∈ hostnames db siteId) ∧
    Written hostname (addedHosts env db siteId file) :=
  Hosts.names_addAll haddress haddable htoken hwritten

/-- Making the files of a site completes the correspondence when its hostnames
are the only ones that may be missing. -/
theorem mirrors_settle {u : World} {siteId : ℤ} {httpd : Option ℤ}
    (hspelled : RowsSpelled u.db) (hserver : (getById u.db siteId).httpdInstanceId = httpd)
    (hlocal : (getById u.db siteId).name ≠ "localhost".toList)
    (hadd : httpd ≠ none →
      (getById u.db siteId).name ≠ [] ∧ IsAddress (hostInterface u.db httpd))
    (hwritten : Written hostname u.hosts) (htoken : Names hostname u.hosts → HostToken hostname)
    (hmirror : (Names hostname u.hosts ∨ (httpd ≠ none ∧ hostname ∈ hostnames u.db siteId)) ↔
      Owned u.db hostname) :
    Mirrors hostname (settle env siteId httpd u) := by
  have hdb := db_settle env siteId httpd u
  have hhosts := hosts_settle env siteId httpd u
  by_cases hnone : httpd = none
  · rw [if_pos hnone] at hhosts
    refine ⟨hdb ▸ hspelled, hhosts ▸ hwritten, hhosts ▸ htoken, ?_⟩
    rw [hdb, hhosts, ← hmirror]
    simp [hnone]
  · obtain ⟨hne, haddress⟩ := hadd hnone
    rw [if_neg hnone] at hhosts
    have haddable : ∀ h ∈ hostnames u.db siteId, HostToken h ∧ h ≠ "localhost".toList :=
      hostnames_addable hne hlocal (hostnames_spelled hspelled siteId)
    obtain ⟨hnames, hwritten'⟩ :=
      names_addedHosts (by rwa [hserver]) haddable htoken hwritten
    refine ⟨hdb ▸ hspelled, hhosts ▸ hwritten', ?_, ?_⟩
    · rw [hhosts, hnames]
      rintro (hold | hnew)
      · exact htoken hold
      · exact (haddable hostname hnew).1
    · rw [hdb, hhosts, hnames, ← hmirror]
      simp [hnone]

/-! ## One lemma for each request -/

theorem mirrors_create {name aliases root : Text} {httpd php : Option ℤ} {ca : Certificate}
    (h : Mirrors hostname w) (hspelled : Spelled name aliases)
    (hkeeps : KeepsHosts w.db (.create name aliases root httpd php ca))
    (hstep : create env name aliases root httpd php ca w = .done w') :
    Mirrors hostname w' := by
  obtain ⟨hne, rfl⟩ := create_done hstep
  set siteId := w.db.sites.nextId with hsiteId
  set row : SiteRow := ⟨name, ca.key, ca.crt, rootOf env name root, httpd, php⟩ with hrow
  set db := createRows row (stringToCleanAliasArray aliases) w.db with hdb
  have hsite : getById db siteId = row := by
    rw [hdb, getById_createRows, if_pos rfl]
  have hnew : (getById w.db siteId).httpdInstanceId = none := by
    rw [getById, Table.find?_nextId]
    rfl
  have hothers : ∀ id ≠ siteId, getById db id = getById w.db id := fun id hid => by
    rw [hdb, getById_createRows, if_neg hid]
  have hotherAliases : ∀ id ≠ siteId, aliasesOf db id = aliasesOf w.db id := fun id hid => by
    rw [hdb, aliasesOf_createRows, if_neg hid]
  have hrows : RowsSpelled db := by
    intro id
    by_cases hid : id = siteId
    · rw [hid, hsite, hdb, aliasesOf_createRows, if_pos rfl]
      refine ⟨hspelled.1, fun a ha => ?_⟩
      rcases List.mem_append.mp ha with ha | ha
      · exact (h.spelled siteId).2 a ha
      · exact hspelled.2.2 a ha
    · rw [hothers id hid, hotherAliases id hid]
      exact h.spelled id
  have howned : Owned db hostname ↔
      Owned w.db hostname ∨ (httpd ≠ none ∧ hostname ∈ hostnames db siteId) := by
    rw [owned_iff_elsewhere db siteId, ownedElsewhere_congr hothers hotherAliases, hsite,
      owned_iff_elsewhere w.db siteId, hnew]
    simp [hrow]
  apply mirrors_settle hrows (by rw [hsite]) (by rw [hsite]; exact hspelled.2.1)
  · intro hserver
    rw [hsite]
    exact ⟨hne, hkeeps hserver⟩
  · simpa only [hosts_makeRoot] using h.written
  · simpa only [hosts_makeRoot] using h.token
  · simp only [hosts_makeRoot]
    rw [howned, h.mirror]

theorem mirrors_update {siteId : ℤ} {name aliases root : Text} {httpd php : Option ℤ}
    {ca : Certificate} (h : Mirrors hostname w) (hspelled : Spelled name aliases)
    (hsiteId : siteId ∈ w.db.sites.rows.map Prod.fst)
    (hkeeps : KeepsHosts w.db (.update siteId name aliases root httpd php ca))
    (hstep : update env siteId name aliases root httpd php ca w = .done w') :
    Mirrors hostname w' := by
  obtain rfl := update_done hstep
  set row : SiteRow := ⟨name, ca.key, ca.crt, Text.rtrimChar '\\' (rootOf env name root),
    httpd, php⟩ with hrow
  set db := updateRows siteId row (stringToCleanAliasArray aliases) w.db with hdb
  have hsite : getById db siteId = row := by
    rw [hdb, getById_updateRows _ _ _ _ _ hsiteId, if_pos rfl]
  have hothers : ∀ id ≠ siteId, getById db id = getById w.db id := fun id hid => by
    rw [hdb, getById_updateRows _ _ _ _ _ hsiteId, if_neg hid]
  have haliases : aliasesOf db siteId = stringToCleanAliasArray aliases := by
    rw [hdb, aliasesOf_updateRows, if_pos rfl]
  have hotherAliases : ∀ id ≠ siteId, aliasesOf db id = aliasesOf w.db id := fun id hid => by
    rw [hdb, aliasesOf_updateRows, if_neg hid]
  have hhostnames : hostnames db siteId =
      name :: (stringToCleanAliasArray aliases).map (hostnameOf name) := by
    rw [hostnames, hsite, haliases]
  have hrows : RowsSpelled db := by
    intro id
    by_cases hid : id = siteId
    · rw [hid, hsite, haliases]
      exact ⟨hspelled.1, hspelled.2.2⟩
    · rw [hothers id hid, hotherAliases id hid]
      exact h.spelled id
  obtain ⟨hnames, hwritten⟩ := names_removedHosts env h siteId
  have hhosts : (leave env (getById w.db siteId) httpd
      { (makeRoot env name root w).editHosts
          (Hosts.removeAll env.preg (hostnames w.db siteId)) with db := db }).hosts =
      removedHosts env w.db siteId w.hosts := by
    rw [hosts_leave]
    simp only [World.editHosts, hosts_makeRoot]
    rfl
  obtain ⟨hadd, hshared⟩ := hkeeps
  have howned : Owned db hostname ↔ OwnedElsewhere w.db siteId hostname ∨
      (httpd ≠ none ∧ hostname ∈ hostnames db siteId) := by
    rw [owned_iff_elsewhere db siteId, ownedElsewhere_congr hothers hotherAliases, hsite]
  apply mirrors_settle (by rwa [db_leave]) (by rw [db_leave, hsite])
    (by rw [db_leave, hsite]; exact hspelled.2.1)
  · intro hserver
    rw [db_leave, hsite]
    exact hadd hserver
  · rwa [hhosts]
  · rw [hhosts, hnames]
    exact fun hold => h.token hold.1
  · rw [db_leave, hhosts, hnames, howned, h.mirror, owned_iff_elsewhere w.db siteId]
    -- a hostname of the site that another site has too must come back
    have hback : hostname ∈ hostnames w.db siteId → OwnedElsewhere w.db siteId hostname →
        httpd ≠ none ∧ hostname ∈ hostnames db siteId := by
      intro hmem helse
      rw [hhostnames]
      exact hshared hostname hmem helse
    constructor
    · rintro (⟨helse | ⟨-, hmem⟩, hgone⟩ | hnew)
      · exact .inl helse
      · exact absurd hmem hgone
      · exact .inr hnew
    · rintro (helse | hnew)
      · by_cases hmem : hostname ∈ hostnames w.db siteId
        · exact .inr (hback hmem helse)
        · exact .inl ⟨.inl helse, hmem⟩
      · exact .inr hnew

theorem mirrors_delete {siteId : ℤ} (h : Mirrors hostname w)
    (hkeeps : KeepsHosts w.db (.delete siteId)) (hstep : delete env siteId w = .done w') :
    Mirrors hostname w' := by
  obtain rfl := delete_done hstep
  obtain ⟨hnames, hwritten⟩ := names_removedHosts env h siteId
  have hsite : getById (deleteRows siteId w.db) siteId = missing := by
    rw [getById_deleteRows, if_pos rfl]
  have hothers : ∀ id ≠ siteId, getById (deleteRows siteId w.db) id = getById w.db id :=
    fun id hid => by rw [getById_deleteRows, if_neg hid]
  have hotherAliases : ∀ id ≠ siteId,
      aliasesOf (deleteRows siteId w.db) id = aliasesOf w.db id :=
    fun id hid => by rw [aliasesOf_deleteRows, if_neg hid]
  refine ⟨?_, hwritten, fun hold => h.token (hnames.mp hold).1, ?_⟩
  · intro id
    by_cases hid : id = siteId
    · rw [hid, hsite, aliasesOf_deleteRows, if_pos rfl]
      simp [missing]
    · rw [hothers id hid, hotherAliases id hid]
      exact h.spelled id
  · have howned : Owned (deleteRows siteId w.db) hostname ↔
        OwnedElsewhere w.db siteId hostname := by
      rw [owned_iff_elsewhere _ siteId, ownedElsewhere_congr hothers hotherAliases, hsite]
      simp [missing]
    refine hnames.trans ?_
    rw [howned, h.mirror, owned_iff_elsewhere w.db siteId]
    have hunshared : hostname ∈ hostnames w.db siteId →
        ¬ OwnedElsewhere w.db siteId hostname := hkeeps hostname
    constructor
    · rintro ⟨helse | ⟨-, hmem⟩, hgone⟩
      · exact helse
      · exact absurd hmem hgone
    · exact fun helse => ⟨.inl helse, fun hmem => hunshared hmem helse⟩

/-- A site after its web server was uninstalled. -/
theorem getById_uninstall (env : Env) (instanceId : ℤ) (removable : Bool) (w : World)
    (id : ℤ) :
    getById (uninstallServer env instanceId removable w).db id =
      if (getById w.db id).httpdInstanceId = some instanceId then
        { getById w.db id with httpdInstanceId := none }
      else getById w.db id := by
  have hfind : (uninstallServer env instanceId removable w).db.sites.find? id =
      (w.db.sites.find? id).map fun site =>
        if site.httpdInstanceId == some instanceId then
          { site with httpdInstanceId := none } else site := Table.find?_update _ _ _ _
  unfold getById
  rw [hfind]
  cases w.db.sites.find? id with
  | none => rfl
  | some site =>
      by_cases hserver : site.httpdInstanceId = some instanceId <;> simp [hserver]

theorem mirrors_uninstall {instanceId : ℤ} {removable : Bool} (h : Mirrors hostname w)
    (hkeeps : KeepsHosts w.db (.uninstall instanceId removable)) :
    Mirrors hostname (uninstallServer env instanceId removable w) := by
  set w' := uninstallServer env instanceId removable w with hw'
  have hsite : ∀ id, (getById w'.db id).name = (getById w.db id).name ∧
      ((getById w'.db id).httpdInstanceId ≠ none ↔
        (getById w.db id).httpdInstanceId ≠ none ∧
          (getById w.db id).httpdInstanceId ≠ some instanceId) := by
    intro id
    rw [hw', getById_uninstall]
    by_cases hserver : (getById w.db id).httpdInstanceId = some instanceId <;> simp [hserver]
  have hhostnames : ∀ id, hostnames w'.db id = hostnames w.db id := by
    intro id
    have haliases : aliasesOf w'.db id = aliasesOf w.db id := rfl
    rw [hostnames, hostnames, (hsite id).1, haliases]
  refine ⟨?_, h.written, h.token, ?_⟩
  · intro id
    rw [(hsite id).1]
    exact h.spelled id
  · refine h.mirror.trans ?_
    rw [owned_iff, owned_iff]
    constructor
    · rintro ⟨id, hserver, hmem⟩
      by_cases hgone : (getById w.db id).httpdInstanceId = some instanceId
      · obtain ⟨site, hrow, hon⟩ := (exists_row_iff (· = some instanceId) nofun).mpr hgone
        obtain ⟨id', site', hrow', hassigned, helse, hmem'⟩ :=
          hkeeps id site hrow hon hostname hmem
        have hboth := (exists_row_iff (fun s => s ≠ none ∧ s ≠ some instanceId)
          (fun hc => hc.1 rfl)).mp ⟨site', hrow', hassigned, helse⟩
        exact ⟨id', (hsite id').2.mpr hboth, by rwa [hhostnames]⟩
      · exact ⟨id, (hsite id).2.mpr ⟨hserver, hgone⟩, by rwa [hhostnames]⟩
    · rintro ⟨id, hserver, hmem⟩
      exact ⟨id, ((hsite id).2.mp hserver).1, by rwa [← hhostnames]⟩

/-! ## Runs -/

/-- One step keeps the correspondence. -/
theorem mirrors_step {request : Request} (h : Mirrors hostname w)
    (hspelled : SpelledRequest request) (hkeeps : KeepsHosts w.db request)
    (hstep : Step env w request w') : Mirrors hostname w' := by
  obtain ⟨haddressed, hdone⟩ := hstep
  cases request with
  | create name aliases root httpd php ca => exact mirrors_create h hspelled hkeeps hdone
  | update siteId name aliases root httpd php ca =>
      exact mirrors_update h hspelled haddressed hkeeps hdone
  | delete siteId => exact mirrors_delete h hkeeps hdone
  | uninstall instanceId removable =>
      obtain rfl := Outcome.done.inj hdone
      exact mirrors_uninstall h hkeeps

/-- In every run from no sites whose steps all keep the correspondence, the
hosts file names a hostname that was not there at first exactly if some site
with a web server has it. -/
theorem hosts_mirror_sites (env : Env) {w₀ w : World} {requests : List Request}
    (hstart : NoSites w₀.db)
    (run : Transition.Run (Transition.Guarded
      (fun w request => SpelledRequest request ∧ KeepsHosts w.db request) (Step env))
      w₀ requests w)
    (hostname : Text) (hfresh : ¬ Names hostname w₀.hosts) :
    Names hostname w.hosts ↔ Owned w.db hostname := by
  have hempty : Mirrors hostname w₀ := by
    have hnone : ∀ id, getById w₀.db id = missing := by
      intro id
      have hfind : w₀.db.sites.find? id = none := by
        rw [Table.find?_eq_none, hstart.1]
        exact List.not_mem_nil
      rw [getById, hfind]
      rfl
    refine ⟨?_, fun l hl hname => absurd ⟨l, hl, hname⟩ hfresh, fun h => absurd h hfresh, ?_⟩
    · intro id
      rw [hnone, aliasesOf, hstart.2]
      simp [missing]
    · refine iff_of_false hfresh ?_
      rintro ⟨id, site, hrow, -⟩
      rw [hstart.1] at hrow
      exact List.not_mem_nil hrow
  have hrun := run.invariant (Mirrors hostname) hempty
    fun s a t h hstep => mirrors_step h hstep.1.1 hstep.1.2 hstep.2
  exact hrun.mirror

/-- A site is created, then renamed and moved to the other server. -/
theorem hosts_mirror_sites_moved :
    let w₁ := (handle sampleEnv (sampleCreate "a" "www" (some 1)) sampleWorld).world
    let w₂ := (handle sampleEnv (sampleUpdate 1 "c" "www, *" (some 2)) w₁).world
    Names "www.c".toList w₂.hosts ↔ Owned w₂.db "www.c".toList := by
  intro w₁ w₂
  have hcreate : KeepsHosts sampleWorld.db (sampleCreate "a" "www" (some 1)) :=
    fun _ => by decide
  have hupdate : KeepsHosts w₁.db (sampleUpdate 1 "c" "www, *" (some 2)) := by
    refine ⟨fun _ => by decide, ?_⟩
    rintro h - ⟨id, site, hrow, hne, -⟩
    have honly : ∀ row ∈ w₁.db.sites.rows, row.1 = 1 := by decide
    exact absurd (honly _ hrow) hne
  have run : Transition.Run (Transition.Guarded
      (fun w request => SpelledRequest request ∧ KeepsHosts w.db request) (Step sampleEnv))
      sampleWorld [sampleCreate "a" "www" (some 1), sampleUpdate 1 "c" "www, *" (some 2)] w₂ :=
    .snoc (.snoc (.nil _) ⟨⟨(by decide : Spelled _ _), hcreate⟩, trivial, rfl⟩)
      ⟨⟨(by decide : Spelled _ _), hupdate⟩, by decide, rfl⟩
  exact hosts_mirror_sites sampleEnv ⟨rfl, rfl⟩ run "www.c".toList (by decide)

/-- A site is created and its server uninstalled: its line stays. -/
theorem hosts_mirror_fails :
    ¬ ∀ (env : Env) (w₀ w : World) (requests : List Request), NoSites w₀.db →
      Transition.Run (Transition.Guarded (fun _ request => SpelledRequest request) (Step env))
        w₀ requests w →
      ∀ hostname, ¬ Names hostname w₀.hosts →
        (Names hostname w.hosts ↔ Owned w.db hostname) := by
  intro hclaim
  let create := sampleCreate "a" "" (some 1)
  let w₁ := (handle sampleEnv create sampleWorld).world
  let w₂ := (handle sampleEnv (.uninstall 1 true) w₁).world
  have run : Transition.Run (Transition.Guarded
      (fun _ request => SpelledRequest request) (Step sampleEnv)) sampleWorld
      [create, .uninstall 1 true] w₂ :=
    .snoc (.snoc (.nil _) ⟨(by decide : Spelled _ _), trivial, rfl⟩) ⟨trivial, trivial, rfl⟩
  have hnames : Names "a".toList w₂.hosts := by decide
  obtain ⟨id, site, hrow, hserver, -⟩ :=
    (hclaim sampleEnv sampleWorld w₂ _ ⟨rfl, rfl⟩ run "a".toList (by decide)).mp hnames
  have hnone : ∀ row ∈ w₂.db.sites.rows, row.2.httpdInstanceId = none := by decide
  exact hserver (hnone _ hrow)

end Site

end WampManager
