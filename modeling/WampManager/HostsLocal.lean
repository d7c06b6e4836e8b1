/-
# The line for localhost

`Hosts::add` writes no line for `localhost`, because the system has one of its own.
`Hosts::remove` makes no such exception, and the domain pattern of the site form
accepts the name. A line of the hosts file that maps `localhost` lasts as long as
no request has a hostname whose expression finds it.
-/

import WampManager.SiteController
import WampManager.SiteFrame

namespace WampManager

namespace Hosts

variable {preg : Text → Text → Bool} {hostname : Text}

/-- A hostname that `add` refuses to write. -/
def Refuses (preg : Text → Text → Bool) (hostname : Text) : Prop :=
  ∀ address data, add preg address hostname data = data

theorem refuses_iff : Refuses preg hostname ↔ hostname = "localhost".toList := by
  constructor
  · intro h
    by_contra hne
    have hnil := h [] []
    rw [add, if_neg hne] at hnil
    exact List.append_ne_nil_of_right_ne_nil _ (List.cons_ne_nil _ _) hnil
  · rintro rfl address data
    exact if_pos rfl

/-- A line of the file that is still among the lines is saved. -/
theorem mem_linesFor_save {file l : Text} {data : List Text} (hl : l ∈ linesFor hostname file)
    (hmem : l ∈ data) : l ∈ linesFor hostname (save data) := by
  obtain ⟨hentry, hmentions⟩ := List.mem_filter.mp hl
  obtain ⟨hline, hne⟩ := List.mem_filter.mp hentry
  refine List.mem_filter.mpr ⟨?_, hmentions⟩
  rw [save, get, Text.entries_trim, Text.entries_joinLines, List.mem_flatMap]
  refine ⟨l, hmem, ?_⟩
  rw [Text.entries_of_mem_lines hline, List.mem_filter]
  exact ⟨List.mem_singleton_self l, hne⟩

theorem mem_load {file l : Text} (hl : l ∈ linesFor hostname file) : l ∈ load file :=
  (List.mem_filter.mp (List.mem_filter.mp hl).1).1

theorem mem_addAll_of_missed {l address : Text} {others : List Text} {data : List Text} (hmem : l ∈ data)
    (hmiss : ∀ other ∈ others, other ≠ "localhost".toList → matchesLine preg other l = false) :
    l ∈ addAll preg address others data := by
  induction others generalizing data with
  | nil => exact hmem
  | cons other others ih =>
      have hkept : l ∈ add preg address other data := by
        unfold add
        by_cases hlocal : other = "localhost".toList
        · rwa [if_pos hlocal]
        · have hother := hmiss other List.mem_cons_self hlocal
          rw [if_neg hlocal]
          exact List.mem_append_left _ (List.mem_filter.mpr ⟨hmem, by simp [hother]⟩)
      exact ih hkept fun o ho => hmiss o (List.mem_cons_of_mem other ho)

end Hosts

namespace SiteController

open Hosts (Refuses linesFor matchesLine)
open Site (Misses hostnames createdRows updatedRows)

variable {env : Env} {w w' : World} {hostname l : Text}

/-- The hostnames whose lines `_make` replaces; `localhost` has none. -/
def made (db : Database) (siteId : ℤ) (httpd : Option ℤ) : List Text :=
  if httpd = none then [] else (hostnames db siteId).filter (· ≠ "localhost".toList)

/-- The hostnames whose lines a request removes. A creation whose row is refused edits
those of the key 0, an update whose row is refused the old ones again. -/
def edited (env : Env) (w : World) : Request → List Text
  | .doAdd form ca =>
      if Site.doAddAccepts w.db (Text.lower form.name) then
        made (createdRows env (Text.lower form.name) (Text.lower form.aliases) form.documentRoot
          (selected form.httpdInstanceId) (selected form.phpInstanceId) ca w).db
          (Site.createdId ca w.db) (selected form.httpdInstanceId)
      else []
  | .doEdit siteId form ca =>
      hostnames w.db siteId ++
        made (updatedRows env siteId form.name form.aliases form.documentRoot
          (selected form.httpdInstanceId) (selected form.phpInstanceId) ca w).db
          siteId (selected form.httpdInstanceId)
  | .delete siteId => hostnames w.db siteId

/-- The hosts lines of a site are made. -/
theorem mem_settle {siteId : ℤ} {httpd : Option ℤ} (hl : l ∈ linesFor hostname w.hosts)
    (hmiss : ∀ other ∈ made w.db siteId httpd, matchesLine env.preg other l = false) :
    l ∈ linesFor hostname (Site.settle env siteId httpd w).hosts := by
  rw [Site.hosts_settle]
  split
  · exact hl
  · next hassigned =>
      apply Hosts.mem_linesFor_save hl
      apply Hosts.mem_addAll_of_missed (Hosts.mem_load hl)
      intro other hother hlocal
      apply hmiss
      rw [made, if_neg hassigned]
      exact List.mem_filter.mpr ⟨hother, decide_eq_true hlocal⟩

/-- The hosts lines of a site are removed. -/
theorem mem_removedHosts {siteId : ℤ} {db : Database} {file : Text}
    (hl : l ∈ linesFor hostname file)
    (hmiss : ∀ other ∈ hostnames db siteId, matchesLine env.preg other l = false) :
    l ∈ linesFor hostname (Site.removedHosts env db siteId file) :=
  Hosts.mem_linesFor_save hl (Hosts.mem_removeAll.mpr ⟨Hosts.mem_load hl, hmiss⟩)

/-- A request keeps a line that none of its expressions finds, however it ends. -/
theorem mem_step {request : Request} (hl : l ∈ linesFor hostname w.hosts)
    (hmiss : ∀ other ∈ edited env w request, matchesLine env.preg other l = false)
    (hstep : Step env w request w') : l ∈ linesFor hostname w'.hosts := by
  subst hstep
  cases request with
  | doAdd form ca =>
      show l ∈ linesFor hostname (doAdd env form ca w).world.hosts
      unfold doAdd
      rw [edited] at hmiss
      by_cases haccepts : Site.doAddAccepts w.db (Text.lower form.name)
      · rw [if_pos haccepts] at hmiss
        simp only [if_pos haccepts, Site.world_create]
        split
        · exact hl
        · refine mem_settle ?_ hmiss
          rwa [createdRows, Site.hosts_makeRoot]
      · rw [if_neg haccepts]
        exact hl
  | doEdit siteId form ca =>
      show l ∈ linesFor hostname (doEdit env siteId form ca w).world.hosts
      have hrows : l ∈ linesFor hostname (updatedRows env siteId form.name form.aliases
          form.documentRoot (selected form.httpdInstanceId) (selected form.phpInstanceId) ca
          w).hosts := by
        rw [updatedRows, World.editHosts, Site.hosts_makeRoot]
        exact mem_removedHosts hl fun other hother => hmiss other (List.mem_append_left _ hother)
      rw [doEdit, Site.world_update]
      split
      · rwa [Site.hosts_leave]
      · apply mem_settle
        · rwa [Site.hosts_leave]
        · rw [Site.db_leave]
          exact fun other hother => hmiss other (List.mem_append_right _ hother)
  | delete siteId =>
      show l ∈ linesFor hostname (Site.delete env siteId w).world.hosts
      have hcleared := mem_removedHosts hl hmiss
      rw [Site.world_delete]
      split <;> exact hcleared

/-- Every line that maps a hostname which `Hosts::add` refuses to write is still there
after every run of site requests of which none has a hostname whose expression finds
such a line. -/
theorem refused_lines_survive (env : Env) {hostname : Text}
    (hrefuses : Refuses env.preg hostname) {w₀ w : World} {requests : List Request}
    (run : Transition.Run (Transition.Guarded
      (fun w request => Misses env w₀ hostname (edited env w request)) (Step env))
      w₀ requests w) :
    linesFor hostname w₀.hosts ⊆ linesFor hostname w.hosts := by
  obtain rfl := Hosts.refuses_iff.mp hrefuses
  intro l hl
  exact run.invariant (fun w => l ∈ linesFor "localhost".toList w.hosts) hl
    fun w request w' h hstep => mem_step h (fun other hother => hstep.1 other hother l hl) hstep.2

/-- A site on a server is renamed and deleted. -/
theorem refused_lines_survive_renamed :
    let add := Request.doAdd (sampleForm "a" "www" 1 (-1)) sampleCertificate
    let edit := Request.doEdit 1 (sampleForm "b.local" "" 1 (-1)) sampleCertificate
    let w₁ := (handle Site.sampleEnv add Site.sampleWorld).world
    let w₂ := (handle Site.sampleEnv edit w₁).world
    let w₃ := (handle Site.sampleEnv (.delete 1) w₂).world
    "127.0.0.1\tlocalhost".toList ∈ linesFor "localhost".toList w₃.hosts := by
  intro add edit w₁ w₂ w₃
  have hadd : Misses Site.sampleEnv Site.sampleWorld "localhost".toList
      (edited Site.sampleEnv Site.sampleWorld add) := by decide
  have hedit : Misses Site.sampleEnv Site.sampleWorld "localhost".toList
      (edited Site.sampleEnv w₁ edit) := by decide
  have hdelete : Misses Site.sampleEnv Site.sampleWorld "localhost".toList
      (edited Site.sampleEnv w₂ (.delete 1)) := by decide
  have run : Transition.Run (Transition.Guarded (fun w request =>
      Misses Site.sampleEnv Site.sampleWorld "localhost".toList (edited Site.sampleEnv w request))
      (Step Site.sampleEnv)) Site.sampleWorld [add, edit, .delete 1] w₃ :=
    .snoc (.snoc (.snoc (.nil _) ⟨hadd, rfl⟩) ⟨hedit, rfl⟩) ⟨hdelete, rfl⟩
  have hlines : "127.0.0.1\tlocalhost".toList ∈
      linesFor "localhost".toList Site.sampleWorld.hosts := by decide
  exact refused_lines_survive Site.sampleEnv (Hosts.refuses_iff.mpr rfl) run hlines

/-- A site named `localhost` is added and deleted, and the line of the system with it. -/
theorem localhost_removed :
    ¬ ∀ (env : Env) (w₀ w : World) (requests : List Request),
      Transition.Run (Step env) w₀ requests w →
        linesFor "localhost".toList w₀.hosts ⊆ linesFor "localhost".toList w.hosts := by
  intro hclaim
  let add := Request.doAdd (sampleForm "localhost" "" (-1) (-1)) sampleCertificate
  let w₁ := (handle Site.sampleEnv add Site.sampleWorld).world
  let w₂ := (handle Site.sampleEnv (.delete 1) w₁).world
  have run : Transition.Run (Step Site.sampleEnv) Site.sampleWorld [add, .delete 1] w₂ :=
    .snoc (.snoc (.nil _) rfl) rfl
  have hlines : "127.0.0.1\tlocalhost".toList ∈
      linesFor "localhost".toList Site.sampleWorld.hosts := by decide
  have hgone : "127.0.0.1\tlocalhost".toList ∉ linesFor "localhost".toList w₂.hosts := by decide
  exact hgone (hclaim Site.sampleEnv Site.sampleWorld w₂ _ run hlines)

end SiteController

end WampManager
