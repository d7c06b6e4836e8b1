/-
# Requests for a site that is not there

Neither an edit nor a deletion looks whether the row was found. The empty name
that is read instead goes into the expression for the hosts file, the posted
aliases go into the alias table under a key that no site has, and the pattern
and the path of the configuration files lose their names. What such a request
changes is told here exactly, and with it when every alias keeps its site.
-/

import WampManager.HostsEdits
import WampManager.SiteController
import WampManager.SiteEffects

namespace WampManager

namespace SiteController

open Site (aliasesOf getById hostnames missing stringToCleanAliasArray IsVhost Unchanged)

/-- No alias row names the key. -/
def NoAliases (db : Database) (siteId : ℤ) : Prop :=
  ∀ id row, (id, row) ∈ db.aliases.rows → row.siteId ≠ siteId

/-- No line has an address followed by white space and another white space or
the end: the expression for the empty hostname finds nothing. -/
def NoWideLine (file : Text) : Prop :=
  ∀ l ∈ Text.entries file, Hosts.literalMatch [] l = false

/-- The pattern for the files of a nameless site on no server. -/
def strayPattern (env : Env) (db : Database) : Text := Site.configs env db missing

/-- The pattern finds no virtual host file. -/
def SparesVhosts (env : Env) (w : World) : Prop :=
  ∀ key file, IsVhost key → w.disk.tree.fileAt key = some file →
    Drive.globMatches (strayPattern env w.db) key file = false

/-- The path of the virtual host of a nameless site on no server. -/
def strayPath (env : Env) : Text := env.binPath ++ "\\\\conf\\vhosts\\.vhost".toList

/-- The text of that virtual host. -/
def strayText (env : Env) : Text :=
  let slashed := FilePath.slash (env.binPath ++ "\\\\conf\\vhosts/".toList) '/'
  Site.Vhost.nginx ⟨[], [], [], [], [], [], slashed ++ ".key".toList,
    slashed ++ ".crt".toList⟩ []

/-- An edit that assigns a server finds no directory for that file, or finds the
file with its text already there. -/
def NoStray (env : Env) (form : Form) (w : World) : Prop :=
  selected form.httpdInstanceId ≠ none →
    (Site.makeRoot env form.name form.documentRoot w).disk.tree.Writable
      (Drive.key (strayPath env)) → w.disk.get (strayPath env) = some (strayText env)

/-! ## The tables -/

section Missing

variable {env : Env} {w : World} {siteId : ℤ} (hmissing : siteId ∉ w.db.sites.rows.map Prod.fst)
include hmissing

theorem getById_of_missing : getById w.db siteId = missing := by
  rw [getById, Table.find?_eq_none.mpr hmissing]
  rfl

omit hmissing in
theorem aliasesOf_of_noAliases {db : Database} (h : NoAliases db siteId) :
    aliasesOf db siteId = [] := by
  rw [aliasesOf, List.map_eq_nil_iff, List.filter_eq_nil_iff]
  rintro ⟨id, row⟩ hrow
  simpa using h id row hrow

theorem hostnames_of_missing (h : NoAliases w.db siteId) : hostnames w.db siteId = [[]] := by
  rw [hostnames, getById_of_missing hmissing, aliasesOf_of_noAliases h]
  rfl

omit hmissing in
/-- Deleting the aliases of a key changes nothing exactly if there are none. -/
theorem filter_aliases_eq_iff {db : Database} :
    (db.aliases.delete fun _ a => a.siteId == siteId).rows = db.aliases.rows ↔
      NoAliases db siteId := by
  rw [Table.rows_delete, List.filter_eq_self]
  constructor
  · intro h id row hrow
    simpa using h (id, row) hrow
  · rintro h ⟨id, row⟩ hrow
    simpa using h id row hrow

theorem rows_updateRows_of_missing (row : SiteRow) (aliases : List Text) :
    (Site.updateRows siteId row aliases w.db).sites.rows = w.db.sites.rows := by
  show (w.db.sites.update (fun id _ => id == siteId) fun _ => row).rows = _
  have hsame : ∀ row' ∈ w.db.sites.rows,
      (if (row'.1 == siteId) = true then (row'.1, row) else row') = row' := by
    intro row' hrow
    have hne : row'.1 ≠ siteId := by
      rintro rfl
      exact hmissing (List.mem_map.mpr ⟨_, hrow, rfl⟩)
    simp [hne]
  rw [Table.rows_update, List.map_congr_left hsame, List.map_id']

omit hmissing in
/-- Replacing the aliases of a key changes nothing exactly if there are none and
none are put in: a row put in has a fresh key. -/
theorem aliases_updateRows_eq_iff {db : Database} (row : SiteRow) (aliases : List Text) :
    (Site.updateRows siteId row aliases db).aliases.rows = db.aliases.rows ↔
      NoAliases db siteId ∧ aliases = [] := by
  obtain ⟨extra, hrows, hvalues, hfresh⟩ := Table.rows_foldl_insert (AliasRow.mk siteId) aliases
    (db.aliases.delete fun _ a => a.siteId == siteId)
  have hupdate : (Site.updateRows siteId row aliases db).aliases.rows =
      (db.aliases.delete fun _ a => a.siteId == siteId).rows ++ extra := hrows
  have hnil : extra = [] ↔ aliases = [] := by
    rw [← List.map_eq_nil_iff (f := Prod.snd), hvalues, List.map_eq_nil_iff]
  rw [hupdate]
  constructor
  · intro h
    have hextra : extra = [] := by
      rw [List.eq_nil_iff_forall_not_mem]
      intro r hr
      have hold : r ∈ db.aliases.rows := h ▸ List.mem_append_right _ hr
      have hle := db.aliases.le_seq r hold
      have hlt : db.aliases.seq < r.1 := hfresh r hr
      omega
    rw [hextra, List.append_nil] at h
    exact ⟨filter_aliases_eq_iff.mp h, hnil.mp hextra⟩
  · rintro ⟨hnone, hempty⟩
    rw [hnil.mpr hempty, List.append_nil, filter_aliases_eq_iff.mpr hnone]

end Missing

/-! ## The hosts file -/

/-- Removing the empty hostname changes no line exactly if none is wide. -/
theorem lines_removed_iff {preg : Text → Text → Bool} {file : Text} :
    Text.entries (Hosts.removed preg [] file) = Text.entries file ↔ NoWideLine file :=
  Hosts.entries_removed_eq_iff (by simp [Hosts.Plain])

/-- Adding the empty hostname for the empty address adds no line. -/
theorem lines_added (preg : Text → Text → Bool) (file : Text) :
    Text.entries (Hosts.added preg [] [] (Hosts.removed preg [] file)) =
      Text.entries (Hosts.removed preg [] file) := by
  have hplain : Hosts.Plain [] := by simp [Hosts.Plain]
  have hblank : Text.entries ([] ++ '\t' :: []) = [] := by decide
  rw [Hosts.entries_added_eq (by decide), hblank, List.append_nil,
    Hosts.entries_removed hplain, Hosts.entries_removed hplain, List.filter_filter]
  simp

/-! ## The two requests -/

section Edit

variable {env : Env} {w : World} {siteId : ℤ} {form : Form} {ca : Option Certificate}

/-- An edit of a site that is not there makes the files of a nameless site. -/
theorem world_doEdit_of_missing (hmissing : siteId ∉ w.db.sites.rows.map Prod.fst) :
    (doEdit env siteId form ca w).world =
      Site.settle env siteId (selected form.httpdInstanceId)
        (Site.updatedRows env siteId form.name form.aliases form.documentRoot
          (selected form.httpdInstanceId) (selected form.phpInstanceId) ca w) := by
  have hstays : ¬ Site.Leaves (getById w.db siteId) (selected form.httpdInstanceId) := by
    rw [getById_of_missing hmissing]
    exact fun hleaves => hleaves.1 rfl
  rw [doEdit, Site.world_update, if_neg fun h => hstays h.1, Site.leave, if_neg hstays]

/-- No server has no endpoint. -/
theorem endpoint_none (db : Database) : Site.endpoint db none = none := by
  rw [Site.endpoint, Option.map_eq_none_iff, List.find?_eq_none]
  intro row _
  simp

theorem portOf_none (db : Database) (type : Text) : Site.portOf db none type = [] := by
  have hfind : (db.endpoints.rows.find? fun row =>
      some row.2.instanceId == none && row.2.type == some type) = none := by
    rw [List.find?_eq_none]
    intro row _
    simp
  rw [Site.portOf, hfind]
  rfl

/-- The virtual host of a nameless site on no server has a fixed text. -/
theorem madeText_of_missing {db : Database} (hsite : getById db siteId = missing)
    (haliases : aliasesOf db siteId = []) : Site.madeText env db siteId = strayText env := by
  simp [Site.madeText, Site.vhostText, Site.vhostOf, hsite, haliases, missing, strayText,
    Site.httpdType, Site.interfaceOf, endpoint_none, portOf_none, Site.confPath,
    Site.instanceName]

/-- Making the files of a nameless site on no server changes the one virtual
host it writes. -/
theorem vhosts_stray_iff {u : World} (hsite : getById u.db siteId = missing)
    (haliases : aliasesOf u.db siteId = []) {httpd : Option ℤ} :
    (∀ key, IsVhost key →
        (Site.settle env siteId httpd u).disk.tree.fileAt key = u.disk.tree.fileAt key) ↔
      (httpd ≠ none → u.disk.tree.Writable (Drive.key (strayPath env)) →
        u.disk.get (strayPath env) = some (strayText env)) := by
  have hpath : Site.vhostPath env u.db siteId = strayPath env := by
    rw [Site.vhostPath, hsite]
    simp [missing, strayPath, Site.confPath, Site.instanceName]
  rw [Site.vhosts_settle_iff, hpath, madeText_of_missing hsite haliases]

/-- Making the files of a nameless site on no server adds no hosts line. -/
theorem lines_settle {u : World} {file : Text} (hsite : getById u.db siteId = missing)
    (haliases : aliasesOf u.db siteId = []) (hhosts : u.hosts = Hosts.removed env.preg [] file)
    (httpd : Option ℤ) :
    Text.entries (Site.settle env siteId httpd u).hosts =
      Text.entries (Hosts.removed env.preg [] file) := by
  have hinterface : Site.hostInterface u.db none = [] := by
    rw [Site.hostInterface, Site.interfaceOf, endpoint_none]
    rfl
  have hnames : hostnames u.db siteId = [[]] := by
    rw [hostnames, hsite, haliases]
    rfl
  have hadded : Site.addedHosts env u.db siteId u.hosts =
      Hosts.added env.preg [] [] (Hosts.removed env.preg [] file) := by
    have hserver : (getById u.db siteId).httpdInstanceId = none := by rw [hsite]; rfl
    rw [Site.addedHosts, hserver, hinterface, hnames, hhosts]
    rfl
  rw [Site.hosts_settle]
  split
  · rw [hhosts]
  · rw [hadded, lines_added]

/-- The rows an edit leaves when there is no site. -/
theorem rows_updatedRows (env : Env) (hmissing : siteId ∉ w.db.sites.rows.map Prod.fst)
    (name aliases root : Text) (httpd php : Option ℤ) (ca : Option Certificate) :
    (Site.updatedRows env siteId name aliases root httpd php ca w).db.sites.rows =
        w.db.sites.rows ∧
      ((Site.updatedRows env siteId name aliases root httpd php ca w).db.aliases.rows =
          w.db.aliases.rows ↔
        NoAliases w.db siteId ∧ stringToCleanAliasArray aliases = []) :=
  ⟨rows_updateRows_of_missing hmissing _ _, aliases_updateRows_eq_iff _ _⟩

/-- What else an edit leaves when there is no site and no alias. -/
theorem rest_updatedRows (env : Env) (hmissing : siteId ∉ w.db.sites.rows.map Prod.fst)
    (name : Text) {aliases : Text} (root : Text) (httpd php : Option ℤ) (ca : Option Certificate)
    (hnone : NoAliases w.db siteId)
    (hempty : stringToCleanAliasArray aliases = []) :
    getById (Site.updatedRows env siteId name aliases root httpd php ca w).db siteId =
        missing ∧
      aliasesOf (Site.updatedRows env siteId name aliases root httpd php ca w).db siteId =
        [] ∧
      (Site.updatedRows env siteId name aliases root httpd php ca w).hosts =
        Hosts.removed env.preg [] w.hosts := by
  refine ⟨?_, ?_, ?_⟩
  · apply getById_of_missing
    rwa [(rows_updatedRows env hmissing name aliases root httpd php ca).1]
  · have haliases := Site.aliasesOf_updateRows siteId
      (Site.updatedRow env siteId name root httpd php ca w.db)
      (stringToCleanAliasArray aliases) w.db siteId
    rw [if_pos rfl, hempty] at haliases
    rw [Site.updatedRows, hempty]
    exact haliases
  · rw [Site.updatedRows, hostnames_of_missing hmissing hnone]
    simp only [World.editHosts, Site.hosts_makeRoot]
    rfl

/-- An edit of a site that is not there changes nothing exactly if its key has
no aliases and none are posted, no hosts line is wide and no nameless virtual
host is written. -/
theorem unchanged_doEdit_iff (hmissing : siteId ∉ w.db.sites.rows.map Prod.fst) :
    Unchanged w (doEdit env siteId form ca w).world ↔
      NoAliases w.db siteId ∧ stringToCleanAliasArray form.aliases = [] ∧
        NoWideLine w.hosts ∧ NoStray env form w := by
  rw [world_doEdit_of_missing hmissing]
  obtain ⟨hsites, haliasRows⟩ := rows_updatedRows env hmissing form.name form.aliases
    form.documentRoot (selected form.httpdInstanceId) (selected form.phpInstanceId) ca
  have hrest := @rest_updatedRows w siteId env hmissing form.name form.aliases form.documentRoot
    (selected form.httpdInstanceId) (selected form.phpInstanceId) ca
  have htree : (Site.updatedRows env siteId form.name form.aliases form.documentRoot
      (selected form.httpdInstanceId) (selected form.phpInstanceId) ca w).disk.tree =
        (Site.makeRoot env form.name form.documentRoot w).disk.tree := rfl
  generalize Site.updatedRows env siteId form.name form.aliases form.documentRoot
    (selected form.httpdInstanceId) (selected form.phpInstanceId) ca w = u at *
  have hdisk : ∀ key, u.disk.tree.fileAt key = w.disk.tree.fileAt key := fun key => by
    rw [htree]
    exact Site.fileAt_makeRoot w form.name form.documentRoot key
  have hget : u.disk.get (strayPath env) = w.disk.get (strayPath env) :=
    Drive.get_congr (hdisk _)
  have hdb := Site.db_settle env siteId (selected form.httpdInstanceId) u
  constructor
  · rintro ⟨-, haliases, hlines, hvhosts⟩
    rw [hdb] at haliases
    obtain ⟨hnone, hempty⟩ := haliasRows.mp haliases
    obtain ⟨hsite, hnames, hhosts⟩ := hrest hnone hempty
    rw [lines_settle hsite hnames hhosts, lines_removed_iff] at hlines
    simp only [← hdisk] at hvhosts
    rw [vhosts_stray_iff hsite hnames, hget, htree] at hvhosts
    exact ⟨hnone, hempty, hlines, hvhosts⟩
  · rintro ⟨hnone, hempty, hwide, hstray⟩
    obtain ⟨hsite, hnames, hhosts⟩ := hrest hnone hempty
    refine ⟨by rw [hdb, hsites], by rw [hdb]; exact haliasRows.mpr ⟨hnone, hempty⟩, ?_, ?_⟩
    · rw [lines_settle hsite hnames hhosts]
      exact lines_removed_iff.mpr hwide
    · simp only [← hdisk]
      rw [vhosts_stray_iff hsite hnames, hget, htree]
      exact hstray

end Edit

/-- A deletion of a site that is not there changes nothing exactly if its key
has no aliases, no hosts line is wide and the pattern finds no virtual host. -/
theorem unchanged_delete_iff {env : Env} {w : World} {siteId : ℤ}
    (hmissing : siteId ∉ w.db.sites.rows.map Prod.fst) :
    Unchanged w (delete env siteId w).world ↔
      NoAliases w.db siteId ∧ NoWideLine w.hosts ∧ SparesVhosts env w := by
  have hworld : (delete env siteId w).world =
      { Site.clearedFiles env siteId w with db := Site.deleteRows siteId w.db } := by
    rw [delete, Site.world_delete, getById_of_missing hmissing, if_pos (by simp [missing,
      Site.Restartable])]
  have hsites : (Site.deleteRows siteId w.db).sites.rows = w.db.sites.rows := by
    show (w.db.sites.delete fun id _ => id == siteId).rows = _
    rw [Table.rows_delete, List.filter_eq_self]
    intro row hrow
    have hne : row.1 ≠ siteId := by
      rintro rfl
      exact hmissing (List.mem_map.mpr ⟨_, hrow, rfl⟩)
    simpa using hne
  have haliases : (Site.deleteRows siteId w.db).aliases.rows = w.db.aliases.rows ↔
      NoAliases w.db siteId := filter_aliases_eq_iff
  have hdisk : (Site.clearedFiles env siteId w).disk = w.disk.del (strayPattern env w.db) := by
    rw [Site.clearedFiles, getById_of_missing hmissing]
    rfl
  have hhosts : NoAliases w.db siteId →
      (Site.clearedFiles env siteId w).hosts = Hosts.removed env.preg [] w.hosts := by
    intro hnone
    rw [Site.clearedFiles, hostnames_of_missing hmissing hnone]
    rfl
  rw [hworld]
  constructor
  · rintro ⟨-, hrows, hlines, hvhosts⟩
    have hnone := haliases.mp hrows
    simp only [hhosts hnone] at hlines
    simp only [hdisk] at hvhosts
    exact ⟨hnone, lines_removed_iff.mp hlines, Site.vhosts_del_iff.mp hvhosts⟩
  · rintro ⟨hnone, hwide, hspares⟩
    refine ⟨hsites, haliases.mpr hnone, ?_, ?_⟩
    · simpa only [hhosts hnone] using lines_removed_iff.mpr hwide
    · simpa only [hdisk] using Site.vhosts_del_iff.mpr hspares

/-! ## Aliases over a whole run -/

/-- Every alias row belongs to a site that is there. -/
def AliasesAttached (db : Database) : Prop :=
  ∀ id row, (id, row) ∈ db.aliases.rows → row.siteId ∈ db.sites.rows.map Prod.fst

/-- One of the requests for sites, or any other request of the manager: none of
them adds or removes a site or writes an alias. -/
def AnyStep (env : Env) (w : World) (request : Option Request) (w' : World) : Prop :=
  match request with
  | some request => Step env w request w'
  | none => w'.db.sites.rows.map Prod.fst = w.db.sites.rows.map Prod.fst ∧
      w'.db.aliases.rows = w.db.aliases.rows

/-- A creation whose row is refused posts no alias, and neither does an edit of a
site that is not there. -/
def KeepsAliases (db : Database) : Option Request → Prop
  | some (.doAdd form none) => Site.doAddAccepts db (Text.lower form.name) = true →
      stringToCleanAliasArray (Text.lower form.aliases) = []
  | some (.doEdit siteId form _) =>
      siteId ∈ db.sites.rows.map Prod.fst ∨ stringToCleanAliasArray form.aliases = []
  | _ => True

theorem attached_createRows {db : Database} (h : AliasesAttached db) (row : SiteRow)
    (aliases : List Text) : AliasesAttached (Site.createRows row aliases db) := by
  obtain ⟨extra, hrows, hvalues, -⟩ :=
    Table.rows_foldl_insert (AliasRow.mk db.sites.nextId) aliases db.aliases
  have haliases : (Site.createRows row aliases db).aliases.rows = db.aliases.rows ++ extra :=
    hrows
  intro id alias' hmem
  change _ ∈ (db.sites.insert row).rows.map Prod.fst
  rw [haliases] at hmem
  rw [Table.rows_insert, List.map_append, List.mem_append]
  rcases List.mem_append.mp hmem with hold | hnew
  · exact .inl (h id alias' hold)
  · have hvalue : alias' ∈ aliases.map (AliasRow.mk db.sites.nextId) :=
      hvalues ▸ List.mem_map.mpr ⟨_, hnew, rfl⟩
    obtain ⟨a, -, rfl⟩ := List.mem_map.mp hvalue
    exact .inr (by simp)

theorem attached_updateRows {db : Database} (h : AliasesAttached db) {siteId : ℤ}
    (row : SiteRow) {aliases : List Text}
    (hkeeps : siteId ∈ db.sites.rows.map Prod.fst ∨ aliases = []) :
    AliasesAttached (Site.updateRows siteId row aliases db) := by
  obtain ⟨extra, hrows, hvalues, -⟩ := Table.rows_foldl_insert (AliasRow.mk siteId) aliases
    (db.aliases.delete fun _ a => a.siteId == siteId)
  have hkeys : (Site.updateRows siteId row aliases db).sites.rows.map Prod.fst =
      db.sites.rows.map Prod.fst := by
    show (db.sites.update _ _).rows.map Prod.fst = _
    rw [Table.rows_update, List.map_map]
    apply List.map_congr_left
    intro row' _
    by_cases hrow : row'.1 = siteId <;> simp [hrow]
  have haliases : (Site.updateRows siteId row aliases db).aliases.rows =
      (db.aliases.delete fun _ a => a.siteId == siteId).rows ++ extra := hrows
  intro id alias' hmem
  rw [haliases] at hmem
  rw [hkeys]
  rcases List.mem_append.mp hmem with hold | hnew
  · exact h id alias' (List.mem_filter.mp hold).1
  · have hvalue : alias' ∈ aliases.map (AliasRow.mk siteId) :=
      hvalues ▸ List.mem_map.mpr ⟨_, hnew, rfl⟩
    obtain ⟨a, ha, rfl⟩ := List.mem_map.mp hvalue
    apply hkeeps.resolve_right
    rintro rfl
    exact List.not_mem_nil ha

theorem attached_deleteRows {db : Database} (h : AliasesAttached db) (siteId : ℤ) :
    AliasesAttached (Site.deleteRows siteId db) := by
  intro id alias' hmem
  obtain ⟨hold, hother⟩ := List.mem_filter.mp hmem
  obtain ⟨⟨key, site⟩, hsite, hkey⟩ := List.mem_map.mp (h id alias' hold)
  refine List.mem_map.mpr ⟨(key, site), List.mem_filter.mpr ⟨hsite, ?_⟩, hkey⟩
  simp only at hkey
  simpa [hkey] using hother

theorem attached_step {env : Env} {w w' : World} {request : Option Request}
    (h : AliasesAttached w.db) (hkeeps : KeepsAliases w.db request)
    (hstep : AnyStep env w request w') : AliasesAttached w'.db := by
  cases request with
  | none =>
      obtain ⟨hkeys, hrows⟩ := hstep
      intro id row hrow
      rw [hkeys]
      exact h id row (hrows ▸ hrow)
  | some request =>
      obtain rfl := hstep
      cases request with
      | doAdd form ca =>
          show AliasesAttached (doAdd env form ca w).world.db
          rw [db_doAdd]
          split
          next haccepts =>
            cases ca with
            | none =>
                rw [Site.createdTables, hkeeps haccepts]
                exact h
            | some ca => exact attached_createRows h _ _
          next => exact h
      | doEdit siteId form ca =>
          show AliasesAttached (doEdit env siteId form ca w).world.db
          rw [doEdit, Site.db_update]
          exact attached_updateRows h _ hkeeps
      | delete siteId =>
          show AliasesAttached (delete env siteId w).world.db
          rw [delete, Site.db_delete]
          split
          · exact attached_deleteRows h siteId
          · exact h

/-- When requests for a site that is not there change nothing, and when every
alias keeps its site. -/
theorem missing_site_requests (env : Env) :
    (∀ (w : World) (siteId : ℤ), siteId ∉ w.db.sites.rows.map Prod.fst →
      (∀ form ca, Unchanged w (doEdit env siteId form ca w).world ↔
        NoAliases w.db siteId ∧ stringToCleanAliasArray form.aliases = [] ∧
          NoWideLine w.hosts ∧ NoStray env form w) ∧
      (Unchanged w (delete env siteId w).world ↔
        NoAliases w.db siteId ∧ NoWideLine w.hosts ∧ SparesVhosts env w)) ∧
    ∀ (w₀ w : World) (requests : List (Option Request)), AliasesAttached w₀.db →
      Transition.Run (Transition.Guarded (fun w request => KeepsAliases w.db request)
        (AnyStep env)) w₀ requests w →
      AliasesAttached w.db :=
  ⟨fun _ _ hmissing => ⟨fun _ _ => unchanged_doEdit_iff hmissing, unchanged_delete_iff hmissing⟩,
    fun _ _ _ hstart run => run.invariant (fun w => AliasesAttached w.db) hstart
      fun _ _ _ h hstep => attached_step h hstep.1 hstep.2⟩

/-- An edit of a missing site without aliases and server changes nothing, and no
alias comes loose by it. -/
theorem missing_site_requests_sample :
    let form := sampleForm "a" "" (-1) (-1)
    let w := (doEdit Site.sampleEnv 7 form sampleCertificate Site.sampleWorld).world
    Unchanged Site.sampleWorld w ∧ AliasesAttached w.db := by
  intro form w
  have hnone : NoAliases Site.sampleWorld.db 7 := by
    intro id row hrow
    cases hrow
  have hstart : AliasesAttached Site.sampleWorld.db := by
    intro id row hrow
    cases hrow
  have hwide : NoWideLine Site.sampleWorld.hosts := by
    show ∀ l ∈ Text.entries Site.sampleWorld.hosts, _
    decide
  have hempty : stringToCleanAliasArray form.aliases = [] := by decide
  have run : Transition.Run (Transition.Guarded (fun w request => KeepsAliases w.db request)
      (AnyStep Site.sampleEnv)) Site.sampleWorld [some (.doEdit 7 form sampleCertificate)] w :=
    .snoc (.nil _) ⟨.inr hempty, rfl⟩
  exact ⟨(((missing_site_requests Site.sampleEnv).1 Site.sampleWorld 7 (by decide)).1 form
    sampleCertificate).mpr ⟨hnone, hempty, hwide, fun hserver => absurd rfl hserver⟩,
    (missing_site_requests Site.sampleEnv).2 _ _ _ hstart run⟩

/-- An edit of a missing site puts the posted aliases into the alias table. -/
theorem missing_site_requests_fail :
    ¬ ∀ (env : Env) (w : World) (siteId : ℤ) (form : Form) (ca : Option Certificate),
      siteId ∉ w.db.sites.rows.map Prod.fst →
        Unchanged w (doEdit env siteId form ca w).world := by
  intro hclaim
  have hsame := (hclaim Site.sampleEnv Site.sampleWorld 7 (sampleForm "a" "www" (-1) (-1))
    sampleCertificate (by decide)).aliases
  have hlength := congrArg List.length hsame
  revert hlength
  decide

end SiteController

end WampManager
