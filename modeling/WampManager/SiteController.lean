/-
# Posted site forms

`doAdd` folds name and aliases to small letters, asks for a domain that is not in
use and creates the site; `doEdit` passes on what was posted; `delete` passes on
the key in the address. The name column is what the other classes take for
granted: names are domains and no two sites share one. `doAdd` alone keeps it so,
but for a line feed that the end anchor of the domain pattern lets through.
-/

import WampManager.Lib.Transition
import WampManager.SiteOutcomes

namespace WampManager

namespace SiteController

open Site (isDomainChar matchesDomain doAddAccepts siteExists)

/-- The fields of the site form. The two selects post the key of an instance
or -1. -/
structure Form where
  name : Text
  aliases : Text
  documentRoot : Text
  httpdInstanceId : ℤ
  phpInstanceId : ℤ

/-- The value of a select: -1 stands for nothing. -/
def selected (posted : ℤ) : Option ℤ := if posted = -1 then none else some posted

/-- `SiteController::doAdd`. A form that is not accepted ends the request. -/
def doAdd (env : Env) (form : Form) (ca : Option Certificate) (w : World) : Outcome :=
  let name := Text.lower form.name
  let aliases := Text.lower form.aliases
  if doAddAccepts w.db name then
    Site.create env name aliases form.documentRoot (selected form.httpdInstanceId)
      (selected form.phpInstanceId) ca w
  else .aborted w

/-- `SiteController::doEdit`. -/
def doEdit (env : Env) (siteId : ℤ) (form : Form) (ca : Option Certificate) (w : World) : Outcome :=
  Site.update env siteId form.name form.aliases form.documentRoot
    (selected form.httpdInstanceId) (selected form.phpInstanceId) ca w

/-- `SiteController::delete`. -/
def delete (env : Env) (siteId : ℤ) (w : World) : Outcome := Site.delete env siteId w

/-- The requests that write sites, with what the certificate authority makes for
them. -/
inductive Request
  | doAdd (form : Form) (ca : Option Certificate)
  | doEdit (siteId : ℤ) (form : Form) (ca : Option Certificate)
  | delete (siteId : ℤ)

/-- What a request does. -/
def handle (env : Env) : Request → World → Outcome
  | .doAdd form ca, w => doAdd env form ca w
  | .doEdit siteId form ca, w => doEdit env siteId form ca w
  | .delete siteId, w => delete env siteId w

/-- A request, however it ends. -/
def Step (env : Env) (w : World) (request : Request) (w' : World) : Prop :=
  w' = (handle env request w).world

/-- A form for runs on fixed inputs. -/
def sampleForm (name aliases : String) (httpd php : ℤ) : Form :=
  ⟨name.toList, aliases.toList, "C:\\www".toList, httpd, php⟩

/-- What the certificate authority hands out in such runs. -/
def sampleCertificate : Option Certificate := some ⟨"key".toList, "crt".toList⟩

/-- The tables after `doAdd`: one more site if the form was accepted. -/
theorem db_doAdd (env : Env) (form : Form) (ca : Option Certificate) (w : World) :
    (doAdd env form ca w).world.db =
      if doAddAccepts w.db (Text.lower form.name) then
        Site.createdTables env (Text.lower form.name) (Text.lower form.aliases)
          form.documentRoot (selected form.httpdInstanceId) (selected form.phpInstanceId) ca
          w.db
      else w.db := by
  unfold doAdd
  by_cases haccepts : doAddAccepts w.db (Text.lower form.name)
  · have hname : ¬ (Text.lower form.name = [] ∨ Text.lower form.name = ['0']) := by
      simp only [doAddAccepts, Bool.and_eq_true, Bool.not_eq_true', Bool.or_eq_false_iff,
        List.isEmpty_eq_false_iff, beq_eq_false_iff_ne] at haccepts
      exact not_or.mpr haccepts.1.1
    simp only [if_pos haccepts, Site.db_create, if_neg hname]
  · rw [if_neg haccepts, if_neg haccepts]
    rfl

/-! ## The name column -/

/-- A nonempty name of small letters, digits, dots and hyphens. -/
def IsDomain (name : Text) : Prop := name ≠ [] ∧ ∀ c ∈ name, isDomainChar c = true

instance (name : Text) : Decidable (IsDomain name) := inferInstanceAs (Decidable (_ ∧ _))

/-- Names are domains, and a name is the name of one site only. -/
structure NamesValid (db : Database) : Prop where
  domain : ∀ id site, (id, site) ∈ db.sites.rows → IsDomain site.name
  unique : ∀ id site id' site', (id, site) ∈ db.sites.rows → (id', site') ∈ db.sites.rows →
    site.name = site'.name → id = id'

/-- The steps that keep the name column valid: no key is made for them, or an added
name does not end in a line feed, and a name posted for a site that is there is a
domain that no other site has. -/
def KeepsNames (db : Database) : Request → Prop
  | .doAdd form ca => ca ≠ none → form.name.getLast? ≠ some '\n'
  | .doEdit siteId form ca => ca ≠ none → siteId ∈ db.sites.rows.map Prod.fst →
      IsDomain form.name ∧
        ∀ id site, (id, site) ∈ db.sites.rows → site.name = form.name → id = siteId
  | .delete _ => True

/-- The pattern accepts a domain, with a line feed behind it or not. -/
theorem matchesDomain_iff {name : Text} :
    matchesDomain name = true ↔
      IsDomain (if name.getLast? = some '\n' then name.dropLast else name) := by
  simp [matchesDomain, IsDomain]

/-- A name of some row is found in the counted rows. -/
theorem siteExists_iff {db : Database} (h : NamesValid db) (name : Text) :
    siteExists db name = true ↔ ∃ id site, (id, site) ∈ db.sites.rows ∧ site.name = name := by
  have hrows : db.sites.rows.Nodup := List.Nodup.of_map Prod.fst db.sites.nodup
  have hnames : (db.sites.rows.map fun row => row.2.name).Nodup := by
    apply List.Nodup.map_on _ hrows
    rintro ⟨id, site⟩ hsite ⟨id', site'⟩ hsite' hname
    obtain rfl := h.unique id site id' site' hsite hsite' hname
    rw [Table.eq_of_mem hsite hsite']
  have hcount : (db.sites.rows.filter fun row => row.2.name == name).length =
      (db.sites.rows.map fun row => row.2.name).count name := by
    rw [List.count_eq_countP, List.countP_map, List.countP_eq_length_filter]
    rfl
  rw [siteExists, hcount, beq_iff_eq]
  constructor
  · intro hone
    have hmem : name ∈ db.sites.rows.map fun row => row.2.name := by
      rw [← List.one_le_count_iff, hone]
    obtain ⟨⟨id, site⟩, hrow, hname⟩ := List.mem_map.mp hmem
    exact ⟨id, site, hrow, hname⟩
  · rintro ⟨id, site, hrow, rfl⟩
    exact List.count_eq_one_of_mem hnames (List.mem_map.mpr ⟨(id, site), hrow, rfl⟩)

/-- A row after an update is the new one under its key, or an old one under another. -/
theorem mem_sites_updateRows {db : Database} {siteId id : ℤ} {row site : SiteRow}
    {aliases : List Text} (h : (id, site) ∈ (Site.updateRows siteId row aliases db).sites.rows) :
    (id = siteId ∧ site = row ∧ siteId ∈ db.sites.rows.map Prod.fst) ∨
      (id ≠ siteId ∧ (id, site) ∈ db.sites.rows) := by
  obtain ⟨⟨key, old⟩, hold, heq⟩ := List.mem_map.mp h
  by_cases hkey : key = siteId
  · obtain ⟨rfl, rfl⟩ := Prod.mk.inj ((if_pos (beq_iff_eq.mpr hkey)).symm.trans heq)
    exact .inl ⟨hkey, rfl, hkey ▸ List.mem_map.mpr ⟨(key, old), hold, rfl⟩⟩
  · obtain ⟨rfl, rfl⟩ := Prod.mk.inj ((if_neg (by simpa using hkey)).symm.trans heq)
    exact .inr ⟨hkey, hold⟩

section Steps

variable {db : Database} (h : NamesValid db)
include h

theorem namesValid_createRows {row : SiteRow} (aliases : List Text) (hdomain : IsDomain row.name)
    (hfree : siteExists db row.name = false) : NamesValid (Site.createRows row aliases db) := by
  have hrows : (Site.createRows row aliases db).sites.rows =
      db.sites.rows ++ [(db.sites.nextId, row)] := rfl
  have hnew : ∀ id site, (id, site) ∈ db.sites.rows → site.name ≠ row.name := by
    intro id site hrow hname
    rw [(siteExists_iff h row.name).mpr ⟨id, site, hrow, hname⟩] at hfree
    cases hfree
  constructor
  · intro id site hmem
    rw [hrows, List.mem_append, List.mem_singleton] at hmem
    rcases hmem with hold | heq
    · exact h.domain id site hold
    · obtain ⟨-, rfl⟩ := Prod.mk.inj heq
      exact hdomain
  · intro id site id' site' hmem hmem' hname
    rw [hrows, List.mem_append, List.mem_singleton] at hmem hmem'
    rcases hmem with hold | heq
    · rcases hmem' with hold' | heq'
      · exact h.unique id site id' site' hold hold' hname
      · obtain ⟨rfl, rfl⟩ := Prod.mk.inj heq'
        exact absurd hname (hnew id site hold)
    · obtain ⟨rfl, rfl⟩ := Prod.mk.inj heq
      rcases hmem' with hold' | heq'
      · exact absurd hname.symm (hnew id' site' hold')
      · exact (Prod.mk.inj heq').1.symm

theorem namesValid_updateRows {siteId : ℤ} {row : SiteRow} (aliases : List Text)
    (hkeeps : siteId ∈ db.sites.rows.map Prod.fst → IsDomain row.name ∧
      ∀ id site, (id, site) ∈ db.sites.rows → site.name = row.name → id = siteId) :
    NamesValid (Site.updateRows siteId row aliases db) := by
  constructor
  · intro id site hmem
    rcases mem_sites_updateRows hmem with ⟨-, rfl, hthere⟩ | ⟨-, hold⟩
    · exact (hkeeps hthere).1
    · exact h.domain id site hold
  · intro id site id' site' hmem hmem' hname
    rcases mem_sites_updateRows hmem with ⟨rfl, rfl, hthere⟩ | ⟨hne, hold⟩
    · rcases mem_sites_updateRows hmem' with ⟨rfl, -, -⟩ | ⟨-, hold'⟩
      · rfl
      · exact ((hkeeps hthere).2 id' site' hold' hname.symm).symm
    · rcases mem_sites_updateRows hmem' with ⟨rfl, rfl, hthere⟩ | ⟨-, hold'⟩
      · exact (hkeeps hthere).2 id site hold hname
      · exact h.unique id site id' site' hold hold' hname

theorem namesValid_deleteRows (siteId : ℤ) : NamesValid (Site.deleteRows siteId db) := by
  have hrows : ∀ id site, (id, site) ∈ (Site.deleteRows siteId db).sites.rows →
      (id, site) ∈ db.sites.rows := fun id site hmem => (List.mem_filter.mp hmem).1
  exact ⟨fun id site hmem => h.domain id site (hrows id site hmem),
    fun id site id' site' hmem hmem' =>
      h.unique id site id' site' (hrows id site hmem) (hrows id' site' hmem')⟩

end Steps

/-- Names are read off the site table alone. -/
theorem NamesValid.congr {db db' : Database} (h : NamesValid db)
    (hsites : db'.sites = db.sites) : NamesValid db' :=
  ⟨fun id site hrow => h.domain id site (hsites ▸ hrow),
    fun id site id' site' hrow hrow' =>
      h.unique id site id' site' (hsites ▸ hrow) (hsites ▸ hrow')⟩

/-- What one request preserves. -/
theorem namesValid_step {env : Env} {w w' : World} {request : Request}
    (h : NamesValid w.db) (hkeeps : KeepsNames w.db request) (hstep : Step env w request w') :
    NamesValid w'.db := by
  subst hstep
  cases request with
  | doAdd form ca =>
      show NamesValid (doAdd env form ca w).world.db
      rw [db_doAdd]
      split
      next haccepts =>
        simp only [doAddAccepts, Bool.and_eq_true, Bool.not_eq_true'] at haccepts
        obtain ⟨⟨-, hmatch⟩, hfree⟩ := haccepts
        cases ca with
        | none => exact h.congr rfl
        | some ca =>
            have hlast := Text.getLast?_lower_ne_newline (hkeeps (by simp))
            rw [matchesDomain_iff, if_neg hlast] at hmatch
            exact namesValid_createRows h _ hmatch hfree
      next => exact h
  | doEdit siteId form ca =>
      show NamesValid (doEdit env siteId form ca w).world.db
      cases ca with
      | none =>
          rw [doEdit, Site.db_update_refused]
          exact h.congr rfl
      | some ca =>
          rw [doEdit, Site.db_update]
          exact namesValid_updateRows h _ (hkeeps (by simp))
  | delete siteId =>
      show NamesValid (Site.delete env siteId w).world.db
      rw [Site.db_delete]
      split
      · exact namesValid_deleteRows h siteId
      · exact h

/-- Names stay valid in every run whose steps keep them, and then `Site::exists`
answers what it is asked. -/
theorem site_names_valid (env : Env) {w₀ w : World} {requests : List Request}
    (hstart : NamesValid w₀.db)
    (run : Transition.Run (Transition.Guarded
      (fun w request => KeepsNames w.db request) (Step env)) w₀ requests w) :
    NamesValid w.db ∧ ∀ name, siteExists w.db name = true ↔
      ∃ id site, (id, site) ∈ w.db.sites.rows ∧ site.name = name := by
  have hvalid : NamesValid w.db :=
    run.invariant (fun w => NamesValid w.db) hstart
      fun _ _ _ h hstep => namesValid_step h hstep.1 hstep.2
  exact ⟨hvalid, siteExists_iff hvalid⟩

/-- A site is added in capitals and then renamed; its new name is found. -/
theorem site_names_valid_renamed :
    let add := Request.doAdd (sampleForm "A.Local" "" 1 (-1)) sampleCertificate
    let edit := Request.doEdit 1 (sampleForm "b.local" "www" 1 (-1)) sampleCertificate
    let w₁ := (handle Site.sampleEnv add Site.sampleWorld).world
    let w₂ := (handle Site.sampleEnv edit w₁).world
    siteExists w₂.db "b.local".toList = true := by
  intro add edit w₁ w₂
  have hstart : NamesValid Site.sampleWorld.db := by
    constructor
    · intro id site hrow
      cases hrow
    · intro id site id' site' hrow
      cases hrow
  have hadd : KeepsNames Site.sampleWorld.db add := by
    intro _
    decide
  have hedit : KeepsNames w₁.db edit := by
    have hkeys : ∀ row ∈ w₁.db.sites.rows, row.1 = 1 := by decide
    exact fun _ _ => ⟨by decide, fun id site hrow _ => hkeys _ hrow⟩
  have run : Transition.Run (Transition.Guarded
      (fun w request => KeepsNames w.db request) (Step Site.sampleEnv))
      Site.sampleWorld [add, edit] w₂ :=
    .snoc (.snoc (.nil _) ⟨hadd, rfl⟩) ⟨hedit, rfl⟩
  apply ((site_names_valid Site.sampleEnv hstart run).2 "b.local".toList).mpr
  have hrow : ∃ row ∈ w₂.db.sites.rows, row.2.name = "b.local".toList := by decide
  obtain ⟨⟨id, site⟩, hmem, hname⟩ := hrow
  exact ⟨id, site, hmem, hname⟩

/-- An edit stores whatever name was posted. -/
theorem site_names_fail :
    ¬ ∀ (env : Env) (w₀ w : World) (requests : List Request), Site.NoSites w₀.db →
      Transition.Run (Step env) w₀ requests w → NamesValid w.db := by
  intro hclaim
  let add := Request.doAdd (sampleForm "a" "" 1 (-1)) sampleCertificate
  let edit := Request.doEdit 1 (sampleForm "B C" "" 1 (-1)) sampleCertificate
  let w₁ := (handle Site.sampleEnv add Site.sampleWorld).world
  let w₂ := (handle Site.sampleEnv edit w₁).world
  have run : Transition.Run (Step Site.sampleEnv) Site.sampleWorld [add, edit] w₂ :=
    .snoc (.snoc (.nil _) rfl) rfl
  have hvalid := hclaim Site.sampleEnv Site.sampleWorld w₂ _ ⟨rfl, rfl⟩ run
  have hrow : ∃ row ∈ w₂.db.sites.rows, ¬ IsDomain row.2.name := by decide
  obtain ⟨⟨id, site⟩, hmem, hname⟩ := hrow
  exact hname (hvalid.domain id site hmem)

end SiteController

end WampManager
