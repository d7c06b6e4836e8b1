/-
# Site requests that end at a restart

Files, hosts lines and rows are written before a server is restarted, and a
restart that fails ends the request. At the restart of the new server all is
written, so nothing is half done. At the restart of the old one a site that
moves has lost its old lines and files without having the new ones, and a site
that is deleted has lost its files and still has its rows; these requests stop
cleanly only where there was nothing to take away or nothing left to make.
-/

import WampManager.MissingSite
import WampManager.SiteEffects

namespace WampManager

namespace SiteController

open Site (getById hostnames stringToCleanAliasArray Unchanged IsVhost Leaves)

/-- The world in which the files of the updated site are to be made. -/
def withdrawn (env : Env) (siteId : ℤ) (form : Form) (ca : Option Certificate) (w : World) :
    World :=
  Site.leave env (getById w.db siteId) (selected form.httpdInstanceId)
    (Site.updatedRows env siteId form.name form.aliases form.documentRoot
      (selected form.httpdInstanceId) (selected form.phpInstanceId) ca w)

/-- The world with the rows of the new site. -/
def inserted (env : Env) (form : Form) (ca : Option Certificate) (w : World) : World :=
  Site.createdRows env (Text.lower form.name) (Text.lower form.aliases) form.documentRoot
    (selected form.httpdInstanceId) (selected form.phpInstanceId) ca w

/-- The world after a request all of whose restarts succeed. -/
def completed (env : Env) : Request → World → World
  | .doAdd form ca, w =>
      if Site.doAddAccepts w.db (Text.lower form.name) then
        Site.settle env (Site.createdId ca w.db) (selected form.httpdInstanceId)
          (inserted env form ca w)
      else w
  | .doEdit siteId form ca, w =>
      Site.settle env siteId (selected form.httpdInstanceId) (withdrawn env siteId form ca w)
  | .delete siteId, w =>
      { Site.clearedFiles env siteId w with db := Site.deleteRows siteId w.db }

/-- The world in which a request restarts the server that its site leaves. -/
def atOldServer (env : Env) : Request → World → Option World
  | .doAdd _ _, _ => none
  | .doEdit siteId form ca, w =>
      if Leaves (getById w.db siteId) (selected form.httpdInstanceId) then
        some (withdrawn env siteId form ca w)
      else none
  | .delete siteId, w =>
      if (getById w.db siteId).httpdInstanceId = none then none
      else some (Site.clearedFiles env siteId w)

/-- The world in which a request restarts the server its site is assigned to. -/
def atNewServer (env : Env) : Request → World → Option World
  | .delete _, _ => none
  | .doAdd form ca, w =>
      if Site.doAddAccepts w.db (Text.lower form.name) ∧ selected form.httpdInstanceId ≠ none
        then some (completed env (.doAdd form ca) w)
      else none
  | .doEdit siteId form ca, w =>
      if selected form.httpdInstanceId = none then none
      else some (completed env (.doEdit siteId form ca) w)

/-- A world is as before the request or as after a successful one. -/
def AllOrNothing (env : Env) (request : Request) (w w' : World) : Prop :=
  Unchanged w w' ∨ Unchanged (completed env request w) w'

/-- The site moves to no server, or its hosts lines stand at the end of the file
already and its virtual host has its text already or cannot be written. -/
def NothingToMake (env : Env) (siteId : ℤ) (httpd : Option ℤ) (u : World) : Prop :=
  httpd ≠ none →
    Text.entries (Site.addedHosts env u.db siteId u.hosts) = Text.entries u.hosts ∧
      (u.disk.tree.Writable (Drive.key (Site.vhostPath env u.db siteId)) →
        u.disk.get (Site.vhostPath env u.db siteId) = some (Site.madeText env u.db siteId))

/-- The expressions for the hostnames of a site find no hosts line, and the
pattern for its files finds no virtual host. -/
def NothingToClear (env : Env) (siteId : ℤ) (w : World) : Prop :=
  (∀ l ∈ Text.entries w.hosts, ∀ hostname ∈ hostnames w.db siteId,
    Hosts.matchesLine env.preg hostname l = false) ∧
  ∀ key file, IsVhost key → w.disk.tree.fileAt key = some file →
    Drive.globMatches (Site.configs env w.db (getById w.db siteId)) key file = false

/-- The row is refused, the site has no aliases and gets none, and there is nothing to
clear. -/
def NothingToChange (env : Env) (siteId : ℤ) (form : Form) (ca : Option Certificate)
    (w : World) : Prop :=
  ca = none ∧ NoAliases w.db siteId ∧ stringToCleanAliasArray form.aliases = [] ∧
    NothingToClear env siteId w

/-- The requests that can stop at the restart of the old server. -/
def StopsCleanly (env : Env) (w : World) : Request → Prop
  | .doAdd _ _ => True
  | .doEdit siteId form ca =>
      NothingToChange env siteId form ca w ∨
        NothingToMake env siteId (selected form.httpdInstanceId) (withdrawn env siteId form ca w)
  | .delete siteId => NothingToClear env siteId w

variable {env : Env} {w w' : World}

/-- A request that ends early was refused or ends at one of its restarts. -/
theorem aborted_cases {request : Request} (h : handle env request w = .aborted w') :
    w' = w ∨ atOldServer env request w = some w' ∨ atNewServer env request w = some w' := by
  cases request with
  | doAdd form ca =>
      change doAdd env form ca w = .aborted w' at h
      unfold doAdd at h
      by_cases haccepts : Site.doAddAccepts w.db (Text.lower form.name)
      · simp only [if_pos haccepts] at h
        have hworld := congrArg Outcome.world h
        rw [Site.world_create] at hworld
        split at hworld
        · exact .inl hworld.symm
        · next hname =>
            have hserver : selected form.httpdInstanceId ≠ none := by
              intro hnone
              rw [Site.create, if_neg hname, hnone] at h
              cases ca <;> cases h
            refine .inr (.inr ?_)
            rw [atNewServer, if_pos ⟨haccepts, hserver⟩, completed, if_pos haccepts]
            exact congrArg some hworld
      · rw [if_neg haccepts] at h
        exact .inl (Outcome.aborted.inj h).symm
  | doEdit siteId form ca =>
      change Site.update env siteId form.name form.aliases form.documentRoot
        (selected form.httpdInstanceId) (selected form.phpInstanceId) ca w = .aborted w' at h
      rw [Site.update_eq] at h
      split at h
      · next hearly =>
          refine .inr (.inl ?_)
          rw [atOldServer, if_pos hearly.1]
          exact congrArg some (Outcome.aborted.inj h)
      · rw [Site.publish_eq] at h
        split at h
        · cases h
        · next hcannot =>
            refine .inr (.inr ?_)
            rw [atNewServer, if_neg]
            · exact congrArg some (Outcome.aborted.inj h)
            · intro hnone
              exact hcannot (by simp [Site.Restartable, hnone])
  | delete siteId =>
      change Site.delete env siteId w = .aborted w' at h
      rw [Site.delete_eq] at h
      split at h
      · cases h
      · next hcannot =>
          refine .inr (.inl ?_)
          rw [atOldServer, if_neg]
          · exact congrArg some (Outcome.aborted.inj h)
          · intro hnone
            exact hcannot (by simp [Site.Restartable, hnone])

/-- Once the restart of the new server is due, everything is written. -/
theorem allOrNothing_atNewServer {request : Request}
    (h : atNewServer env request w = some w') : AllOrNothing env request w w' := by
  have hsame : w' = completed env request w := by
    cases request with
    | doAdd form ca =>
        simp only [atNewServer] at h
        split at h
        · exact (Option.some.inj h).symm
        · cases h
    | doEdit siteId form ca =>
        simp only [atNewServer] at h
        split at h
        · cases h
        · exact (Option.some.inj h).symm
    | delete siteId => cases h
  rw [hsame]
  exact .inr (Unchanged.refl _)

/-- A site that leaves a server has a row. -/
theorem mem_of_server {siteId : ℤ} (h : (getById w.db siteId).httpdInstanceId ≠ none) :
    siteId ∈ w.db.sites.rows.map Prod.fst := by
  by_contra hmissing
  rw [getById, Table.find?_eq_none.mpr hmissing] at h
  exact h rfl

/-- The tables of a site that has moved away. -/
theorem db_withdrawn {siteId : ℤ} {form : Form} {ca : Option Certificate} :
    (withdrawn env siteId form ca w).db = Site.updateRows siteId
      (Site.updatedRow env siteId form.name form.documentRoot (selected form.httpdInstanceId)
        (selected form.phpInstanceId) ca w.db) (stringToCleanAliasArray form.aliases) w.db := by
  rw [withdrawn, Site.db_leave]
  rfl

/-- The row of a site that moves is another one from then on, unless it is refused. -/
theorem not_unchanged_withdrawn {siteId : ℤ} {form : Form} {ca : Certificate}
    (hleaves : Leaves (getById w.db siteId) (selected form.httpdInstanceId)) :
    ¬ Unchanged w (withdrawn env siteId form (some ca) w) := by
  intro hsame
  have hsites := hsame.sites
  rw [db_withdrawn] at hsites
  have hrow := Site.getById_updateRows siteId
    (Site.updatedRow env siteId form.name form.documentRoot (selected form.httpdInstanceId)
      (selected form.phpInstanceId) (some ca) w.db)
    (stringToCleanAliasArray form.aliases) w.db siteId (mem_of_server hleaves.1)
  rw [if_pos rfl, getById, Table.find?, hsites, ← Table.find?, ← getById] at hrow
  exact hleaves.2 (by rw [hrow]; rfl)

/-- A site whose row is refused has moved away unchanged exactly if there was nothing to
change. -/
theorem unchanged_withdrawn_iff {siteId : ℤ} {form : Form}
    (hleaves : Leaves (getById w.db siteId) (selected form.httpdInstanceId)) :
    Unchanged w (withdrawn env siteId form none w) ↔ NothingToChange env siteId form none w := by
  have hhosts : (withdrawn env siteId form none w).hosts =
      Site.removedHosts env w.db siteId w.hosts := by
    rw [withdrawn, Site.hosts_leave, Site.updatedRows, World.editHosts, Site.hosts_makeRoot]
    rfl
  have hdisk : (withdrawn env siteId form none w).disk =
      (Site.makeRoot env form.name form.documentRoot w).disk.del
        (Site.configs env w.db (getById w.db siteId)) := by
    rw [withdrawn, Site.leave, if_pos hleaves]
    rfl
  have hmade := @Site.fileAt_makeRoot env w form.name form.documentRoot
  have hvhosts : (∀ key, IsVhost key → (withdrawn env siteId form none w).disk.tree.fileAt key =
        w.disk.tree.fileAt key) ↔
      ∀ key file, IsVhost key → w.disk.tree.fileAt key = some file →
        Drive.globMatches (Site.configs env w.db (getById w.db siteId)) key file = false := by
    simp only [hdisk, ← hmade]
    exact Site.vhosts_del_iff
  have hsites : (withdrawn env siteId form none w).db.sites.rows = w.db.sites.rows := by
    rw [db_withdrawn, Site.updatedRow, ← Site.replaceAliases_eq]
    rfl
  have haliases : (withdrawn env siteId form none w).db.aliases.rows = w.db.aliases.rows ↔
      NoAliases w.db siteId ∧ stringToCleanAliasArray form.aliases = [] := by
    rw [db_withdrawn]
    exact aliases_updateRows_eq_iff _ _
  unfold NothingToChange NothingToClear
  rw [← hvhosts, ← Site.lines_removedHosts_iff, ← hhosts]
  constructor
  · intro h
    obtain ⟨hnone, hempty⟩ := haliases.mp h.aliases
    exact ⟨rfl, hnone, hempty, h.lines, h.vhosts⟩
  · rintro ⟨-, hnone, hempty, hlines, hfiles⟩
    exact ⟨hsites, haliases.mpr ⟨hnone, hempty⟩, hlines, hfiles⟩

/-- At the restart of the old server an update is done exactly if nothing is
left to make, or there was nothing to change. -/
theorem allOrNothing_doEdit_iff {siteId : ℤ} {form : Form} {ca : Option Certificate}
    (hleaves : Leaves (getById w.db siteId) (selected form.httpdInstanceId)) :
    AllOrNothing env (.doEdit siteId form ca) w (withdrawn env siteId form ca w) ↔
      StopsCleanly env w (.doEdit siteId form ca) := by
  have hbefore : Unchanged w (withdrawn env siteId form ca w) ↔
      NothingToChange env siteId form ca w := by
    cases ca with
    | none => exact unchanged_withdrawn_iff hleaves
    | some ca =>
        exact iff_of_false (not_unchanged_withdrawn hleaves) fun h => absurd h.1 (by simp)
  rw [AllOrNothing, StopsCleanly, completed, hbefore]
  refine or_congr_right ?_
  generalize withdrawn env siteId form ca w = u
  have hdb := Site.db_settle env siteId (selected form.httpdInstanceId) u
  have hhosts := Site.hosts_settle env siteId (selected form.httpdInstanceId) u
  have hvhosts := Site.vhosts_settle_iff env siteId (selected form.httpdInstanceId) u
  unfold NothingToMake
  constructor
  · intro h hserver
    rw [if_neg hserver] at hhosts
    refine ⟨?_, hvhosts.mp (fun key hkey => (h.vhosts key hkey).symm) hserver⟩
    rw [← hhosts]
    exact h.lines.symm
  · intro h
    refine ⟨by rw [hdb], by rw [hdb], ?_, fun key hkey =>
      (hvhosts.mpr (fun hserver => (h hserver).2) key hkey).symm⟩
    rw [hhosts]
    split
    · rfl
    · next hserver => exact (h hserver).1.symm

/-- At the restart of its server a deletion has done nothing exactly if there
was nothing to clear. -/
theorem allOrNothing_delete_iff {siteId : ℤ}
    (hserver : (getById w.db siteId).httpdInstanceId ≠ none) :
    AllOrNothing env (.delete siteId) w (Site.clearedFiles env siteId w) ↔
      StopsCleanly env w (.delete siteId) := by
  have hdb : (Site.clearedFiles env siteId w).db = w.db := rfl
  have hdone : ¬ Unchanged (completed env (.delete siteId) w) (Site.clearedFiles env siteId w) := by
    intro hsame
    have hsites := hsame.sites
    obtain ⟨row, hrow, hkey⟩ := List.mem_map.mp (mem_of_server hserver)
    rw [hdb] at hsites
    rw [hsites] at hrow
    have hother := (List.mem_filter.mp hrow).2
    simp [hkey] at hother
  rw [AllOrNothing, or_iff_left hdone, StopsCleanly, NothingToClear,
    ← Site.lines_removedHosts_iff, ← Site.vhosts_del_iff]
  constructor
  · intro h
    exact ⟨h.lines, h.vhosts⟩
  · rintro ⟨hlines, hvhosts⟩
    exact ⟨rfl, rfl, hlines, hvhosts⟩

/-- Where a site request ends early, and when it then is as if it had not begun
or as if it had succeeded: always at the restart of the new server; at that of
the old one only if it stops cleanly. -/
theorem site_requests_atomic (env : Env) (w : World) (request : Request) :
    (∀ w', handle env request w = .aborted w' → w' = w ∨
      atOldServer env request w = some w' ∨ atNewServer env request w = some w') ∧
    (∀ w', atNewServer env request w = some w' → AllOrNothing env request w w') ∧
    ∀ w', atOldServer env request w = some w' →
      (AllOrNothing env request w w' ↔ StopsCleanly env w request) := by
  refine ⟨fun w' => aborted_cases, fun w' => allOrNothing_atNewServer, fun w' h => ?_⟩
  cases request with
  | doAdd form ca => cases h
  | doEdit siteId form ca =>
      simp only [atOldServer] at h
      split at h
      · next hleaves =>
          rw [← Option.some.inj h]
          exact allOrNothing_doEdit_iff hleaves
      · cases h
  | delete siteId =>
      simp only [atOldServer] at h
      split at h
      · cases h
      · next hserver =>
          rw [← Option.some.inj h]
          exact allOrNothing_delete_iff hserver

/-! ## Runs on fixed inputs -/

/-- The deployment after its packages are gone: no server can be restarted. -/
def sampleUnjoined : World :=
  { Site.sampleWorld with db := { Site.sampleWorld.db with packages := .empty } }

/-- A site that is taken off its server stops cleanly when that server cannot be
restarted. -/
theorem site_requests_atomic_unassigned :
    let w := (handle Site.sampleEnv (.doAdd (sampleForm "a" "" 1 (-1)) sampleCertificate)
      sampleUnjoined).world
    let edit := Request.doEdit 1 (sampleForm "a" "" (-1) (-1)) sampleCertificate
    AllOrNothing Site.sampleEnv edit w (handle Site.sampleEnv edit w).world := by
  intro w edit
  have hold : atOldServer Site.sampleEnv edit w =
      some (handle Site.sampleEnv edit w).world := rfl
  exact ((site_requests_atomic Site.sampleEnv w edit).2.2 _ hold).mpr
    (.inr fun hserver => absurd rfl hserver)

/-- A deletion that cannot restart the server keeps the rows of the site but not
its hosts line. -/
theorem site_requests_atomic_fail :
    ¬ ∀ (env : Env) (w₀ w w' : World) (requests : List Request) (request : Request),
      Site.NoSites w₀.db → Transition.Run (Step env) w₀ requests w →
      handle env request w = .aborted w' → AllOrNothing env request w w' := by
  intro hclaim
  let add := Request.doAdd (sampleForm "a" "" 1 (-1)) sampleCertificate
  let w := (handle Site.sampleEnv add sampleUnjoined).world
  let w' := Site.clearedFiles Site.sampleEnv 1 w
  have run : Transition.Run (Step Site.sampleEnv) sampleUnjoined [add] w :=
    .snoc (.nil _) rfl
  have haborted : handle Site.sampleEnv (.delete 1) w = .aborted w' := rfl
  rcases hclaim Site.sampleEnv sampleUnjoined w w' _ _ ⟨rfl, rfl⟩ run haborted with hbefore | hafter
  · have hlength := congrArg List.length hbefore.lines
    revert hlength
    decide
  · have hlength := congrArg List.length hafter.sites
    revert hlength
    decide

end SiteController

end WampManager
