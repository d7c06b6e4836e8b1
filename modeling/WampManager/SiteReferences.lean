/-
# The instances that sites refer to

A site names the web server and the PHP version it uses by the keys of their
instances. The keys come out of a form that an earlier request rendered; an
uninstall takes a web server off its sites and refuses a PHP version in use, and
looks at neither for the other class files. A request keeps every reference
valid exactly if it posts keys of instances that are there, or uninstalls what
no site goes on referring to.
-/

import WampManager.SiteController
import WampManager.WholeInstances

namespace WampManager

namespace SiteReferences

open Instance (GoesThrough releaseSites clearsPhpSites PhpInUse Refused)
open Site (doAddAccepts)
open SiteController (selected)

/-- The requests that write sites or instances. -/
inductive Request
  | site (request : SiteController.Request)
  | instances (request : Instance.Request)

/-- A request, however it ends. -/
def Step (env : Env) (sqlite : Sqlite) (m : Machine) : Request → Machine → Prop
  | .site request, m' =>
      m' = { m with toWorld := (SiteController.handle env request m.toWorld).world }
  | .instances request, m' => Instance.Step env sqlite m request m'

/-- A reference is null or the key of an instance. -/
def Valid (instances : Table InstanceRow) (reference : Option ℤ) : Prop :=
  ∀ instanceId ∈ reference, instanceId ∈ instances.rows.map Prod.fst

/-- The references of one site. -/
structure ValidSite (instances : Table InstanceRow) (site : SiteRow) : Prop where
  httpd : Valid instances site.httpdInstanceId
  php : Valid instances site.phpInstanceId

/-- The references of every site. -/
def AllValid (db : Database) : Prop :=
  ∀ id site, (id, site) ∈ db.sites.rows → ValidSite db.instances site

/-- What a form posts for the two references. -/
structure ValidForm (instances : Table InstanceRow) (form : SiteController.Form) : Prop where
  httpd : Valid instances (selected form.httpdInstanceId)
  php : Valid instances (selected form.phpInstanceId)

/-- A request keeps the references: what it stores is valid, where a key was made for
its row, or what it uninstalls is a web server, or no server of a site, and no PHP
version of a site. -/
def Keeps (m : Machine) : Request → Prop
  | .site (.doAdd form ca) => ca ≠ none →
      doAddAccepts m.db (Text.lower form.name) = true → ValidForm m.db.instances form
  | .site (.doEdit siteId form ca) => ca ≠ none →
      siteId ∈ m.db.sites.rows.map Prod.fst → ValidForm m.db.instances form
  | .site (.delete _) => True
  | .instances (.install _ _) => True
  | .instances (.uninstall request) =>
      ∀ classFile, GoesThrough request.found request.instanceId request.packageId classFile m →
        ∀ id site, (id, site) ∈ m.db.sites.rows →
          (classFile.isHttpd = true ∨ site.httpdInstanceId ≠ some request.instanceId) ∧
            site.phpInstanceId ≠ some request.instanceId

variable {env : Env} {sqlite : Sqlite} {m m' : Machine} {db : Database}
  {instances : Table InstanceRow}

/-! ## References and tables -/

/-- More instances leave the references valid. -/
theorem ValidSite.insert {site : SiteRow} (h : ValidSite instances site)
    {instances' : Table InstanceRow}
    (hkeys : ∀ key ∈ instances.rows.map Prod.fst, key ∈ instances'.rows.map Prod.fst) :
    ValidSite instances' site :=
  ⟨fun key hkey => hkeys key (h.httpd key hkey), fun key hkey => hkeys key (h.php key hkey)⟩

/-- Without one of the instances a reference stays valid if it is to another one. -/
theorem valid_delete_iff {reference : Option ℤ} (h : Valid instances reference)
    (instanceId : ℤ) :
    Valid (instances.delete fun id _ => id == instanceId) reference ↔
      reference ≠ some instanceId := by
  have hkeys : ∀ key, key ∈ (instances.delete fun id _ => id == instanceId).rows.map Prod.fst ↔
      key ∈ instances.rows.map Prod.fst ∧ key ≠ instanceId := by
    intro key
    simp only [Table.rows_delete, List.mem_map, List.mem_filter]
    constructor
    · rintro ⟨row, ⟨hrow, hne⟩, rfl⟩
      exact ⟨⟨row, hrow, rfl⟩, by simpa using hne⟩
    · rintro ⟨⟨row, hrow, rfl⟩, hne⟩
      exact ⟨row, ⟨hrow, by simpa using hne⟩, rfl⟩
  constructor
  · rintro hvalid rfl
    exact ((hkeys instanceId).mp (hvalid instanceId rfl)).2 rfl
  · intro hne key hkey
    refine (hkeys key).mpr ⟨h key hkey, ?_⟩
    rintro rfl
    exact hne hkey

/-- New sites are valid if their references are. -/
theorem allValid_createRows_iff (h : AllValid db) (row : SiteRow) (aliases : List Text) :
    AllValid (Site.createRows row aliases db) ↔ ValidSite db.instances row := by
  have hrows : (Site.createRows row aliases db).sites.rows =
      db.sites.rows ++ [(db.sites.nextId, row)] := rfl
  constructor
  · intro hall
    exact hall db.sites.nextId row
      (hrows ▸ List.mem_append_right _ (List.mem_singleton_self _))
  · intro hrow id site hmem
    rcases List.mem_append.mp (hrows ▸ hmem) with hold | hnew
    · exact h id site hold
    · obtain ⟨-, rfl⟩ := Prod.mk.inj (List.mem_singleton.mp hnew)
      exact hrow

/-- An edited site is valid if its new references are. -/
theorem allValid_updateRows_iff (h : AllValid db) (siteId : ℤ) (row : SiteRow)
    (aliases : List Text) :
    AllValid (Site.updateRows siteId row aliases db) ↔
      (siteId ∈ db.sites.rows.map Prod.fst → ValidSite db.instances row) := by
  constructor
  · intro hall hsite
    obtain ⟨⟨id, old⟩, hrow, rfl⟩ := List.mem_map.mp hsite
    apply hall id row
    exact List.mem_map.mpr ⟨(id, old), hrow, by simp⟩
  · intro hrow id site hmem
    obtain ⟨⟨key, old⟩, hold, heq⟩ := List.mem_map.mp hmem
    by_cases hkey : key = siteId
    · obtain ⟨-, rfl⟩ := Prod.mk.inj ((if_pos (beq_iff_eq.mpr hkey)).symm.trans heq)
      exact hrow (hkey ▸ List.mem_map_of_mem hold)
    · obtain ⟨rfl, rfl⟩ := Prod.mk.inj ((if_neg (by simpa using hkey)).symm.trans heq)
      exact h key old hold

/-! ## The sites after an uninstall -/

/-- What becomes of a site when an instance is taken off. -/
def releaseSite (classFile : ClassFile) (instanceId : ℤ) (site : SiteRow) : SiteRow :=
  if classFile.isHttpd = true ∧ site.httpdInstanceId = some instanceId then
    { site with httpdInstanceId := none }
  else if clearsPhpSites classFile = true ∧ site.phpInstanceId = some instanceId then
    { site with phpInstanceId := none }
  else site

theorem not_clearsPhpSites {classFile : ClassFile} (h : classFile.isHttpd = true) :
    clearsPhpSites classFile = false := by
  revert h
  cases classFile <;> decide

theorem isPhp_of_clears {classFile : ClassFile} (h : clearsPhpSites classFile = true) :
    classFile.isPhp = true := by
  revert h
  cases classFile <;> decide

theorem rows_releaseSites (classFile : ClassFile) (instanceId : ℤ) (db : Database) :
    (releaseSites classFile instanceId db).sites.rows =
      db.sites.rows.map fun row => (row.1, releaseSite classFile instanceId row.2) := by
  have hpair : ∀ row : ℤ × SiteRow, (row.1, row.2) = row := fun _ => rfl
  unfold releaseSites
  by_cases hhttpd : classFile.isHttpd = true
  · rw [if_pos hhttpd]
    apply List.map_congr_left
    intro row _
    simp [releaseSite, hhttpd, not_clearsPhpSites hhttpd]
    split <;> rfl
  · rw [if_neg hhttpd]
    by_cases hphp : clearsPhpSites classFile = true
    · rw [if_pos hphp]
      apply List.map_congr_left
      intro row _
      simp [releaseSite, hhttpd, hphp]
      split <;> rfl
    · rw [if_neg hphp]
      simp [releaseSite, hhttpd, hphp]

/-- A site without the PHP version that goes stays valid exactly if the instance
is a web server or not its own. -/
theorem validSite_release_iff {site : SiteRow} {classFile : ClassFile} {instanceId : ℤ}
    (h : ValidSite instances site)
    (hphp : classFile.isPhp = true → site.phpInstanceId ≠ some instanceId) :
    ValidSite (instances.delete fun id _ => id == instanceId)
        (releaseSite classFile instanceId site) ↔
      (classFile.isHttpd = true ∨ site.httpdInstanceId ≠ some instanceId) ∧
        site.phpInstanceId ≠ some instanceId := by
  have hparts : ∀ {s : SiteRow}, ValidSite instances s →
      (ValidSite (instances.delete fun id _ => id == instanceId) s ↔
        s.httpdInstanceId ≠ some instanceId ∧ s.phpInstanceId ≠ some instanceId) := by
    intro s hs
    rw [← valid_delete_iff hs.httpd instanceId, ← valid_delete_iff hs.php instanceId]
    exact ⟨fun hvalid => ⟨hvalid.httpd, hvalid.php⟩, fun hvalid => ⟨hvalid.1, hvalid.2⟩⟩
  have hcleared : ¬ (clearsPhpSites classFile = true ∧ site.phpInstanceId = some instanceId) := by
    rintro ⟨hclears, hsame⟩
    exact hphp (isPhp_of_clears hclears) hsame
  unfold releaseSite
  by_cases hhttpd : classFile.isHttpd = true ∧ site.httpdInstanceId = some instanceId
  · have hreleased : ValidSite instances { site with httpdInstanceId := none } :=
      ⟨fun key hkey => absurd hkey (by simp), h.php⟩
    rw [if_pos hhttpd, hparts hreleased]
    simp [hhttpd.1]
  · rw [if_neg hhttpd, if_neg hcleared, hparts h]
    have hown : (classFile.isHttpd = true ∨ site.httpdInstanceId ≠ some instanceId) ↔
        site.httpdInstanceId ≠ some instanceId := by
      constructor
      · rintro (hclass | hne) heq
        · exact hhttpd ⟨hclass, heq⟩
        · exact hne heq
      · exact .inr
    rw [hown]

/-! ## Runs -/

/-- Instances that are added leave the references valid. -/
theorem AllValid.mono (h : AllValid db) {db' : Database} (hsites : db'.sites = db.sites)
    (hinstances : ∀ row ∈ db.instances.rows, row ∈ db'.instances.rows) : AllValid db' := by
  intro id site hrow
  rw [hsites] at hrow
  apply (h id site hrow).insert
  intro key hkey
  obtain ⟨row, hold, rfl⟩ := List.mem_map.mp hkey
  exact List.mem_map_of_mem (hinstances row hold)

theorem allValid_namedRows (h : AllValid m.db) (package : PackageInfo) :
    AllValid (Instance.namedRows sqlite package m) := by
  apply h.mono
  · rfl
  · intro row hrow
    rw [Instance.rows_namedRows]
    exact List.mem_append_left _ hrow

/-- What an uninstall leaves is valid exactly if what it does to each row is. -/
theorem allValid_removed_iff (found : Instance.Found) (package : PackageInfo)
    (classFile : ClassFile) (instanceId : ℤ) (cs : List Command) :
    AllValid (Instance.removed env found (Instance.initVars env instanceId package) classFile
        instanceId cs m).db ↔
      ∀ id site, (id, site) ∈ m.db.sites.rows →
        ValidSite (m.db.instances.delete fun id _ => id == instanceId)
          (releaseSite classFile instanceId site) := by
  obtain ⟨conf, hdb⟩ := Instance.db_removed env found (Instance.initVars env instanceId package)
    classFile instanceId cs m
  rw [hdb]
  constructor
  · intro hall id site hrow
    apply hall id
    show _ ∈ (releaseSites classFile instanceId m.db).sites.rows
    rw [rows_releaseSites]
    exact List.mem_map.mpr ⟨(id, site), hrow, rfl⟩
  · intro hall id site hrow
    have hmem : (id, site) ∈ (releaseSites classFile instanceId m.db).sites.rows := hrow
    rw [rows_releaseSites] at hmem
    obtain ⟨⟨key, old⟩, hold, heq⟩ := List.mem_map.mp hmem
    obtain ⟨rfl, rfl⟩ := Prod.mk.inj heq
    exact hall key old hold

theorem allValid_instances_iff (h : AllValid m.db) {request : Instance.Request}
    (hstep : Instance.Step env sqlite m request m') :
    AllValid m'.db ↔ Keeps m (.instances request) := by
  cases Instance.leaves_of_step hstep with
  | same session cs hnone =>
      refine ⟨fun _ => ?_, fun _ => h⟩
      cases request with
      | install found packageId => exact trivial
      | uninstall request => exact fun classFile hthrough => absurd hthrough (hnone classFile)
  | registered =>
      have hnamed : ∀ package, AllValid (Instance.namedRows sqlite package m) :=
        allValid_namedRows h
      exact ⟨fun _ => trivial, fun _ => (hnamed _).mono rfl fun _ hrow => hrow⟩
  | @removed request classFile package cs hthrough =>
      have hphp : ∀ id site, (id, site) ∈ m.db.sites.rows → classFile.isPhp = true →
          site.phpInstanceId ≠ some request.instanceId := by
        intro id site hrow hclass hsame
        exact hthrough.2.1 (.inr ⟨hclass, id, site, hrow, hsame⟩)
      rw [allValid_removed_iff]
      constructor
      · intro hall c hc id site hrow
        obtain rfl : c = classFile := Option.some.inj (hc.1.symm.trans hthrough.1)
        exact (validSite_release_iff (h id site hrow) (hphp id site hrow)).mp (hall id site hrow)
      · intro hkeeps id site hrow
        exact (validSite_release_iff (h id site hrow) (hphp id site hrow)).mpr
          (hkeeps classFile hthrough id site hrow)

theorem allValid_site_iff (h : AllValid m.db) {request : SiteController.Request}
    (hstep : Step env sqlite m (.site request) m') :
    AllValid m'.db ↔ Keeps m (.site request) := by
  obtain rfl := hstep
  cases request with
  | doAdd form ca =>
      show AllValid (SiteController.doAdd env form ca m.toWorld).world.db ↔ _
      rw [SiteController.db_doAdd]
      split
      next haccepts =>
        cases ca with
        | none => exact ⟨fun _ hcertified => absurd rfl hcertified, fun _ => h⟩
        | some ca =>
            rw [Site.createdTables, allValid_createRows_iff h]
            constructor
            · exact fun hrow _ _ => ⟨hrow.httpd, hrow.php⟩
            · intro hform
              have hvalid := hform (by simp) haccepts
              exact ⟨hvalid.httpd, hvalid.php⟩
      next hrejects => exact ⟨fun _ _ haccepts => absurd haccepts hrejects, fun _ => h⟩
  | doEdit siteId form ca =>
      show AllValid (SiteController.doEdit env siteId form ca m.toWorld).world.db ↔ _
      cases ca with
      | none =>
          rw [SiteController.doEdit, Site.db_update_refused]
          exact ⟨fun _ hcertified => absurd rfl hcertified, fun _ => h⟩
      | some ca =>
          rw [SiteController.doEdit, Site.db_update, allValid_updateRows_iff h]
          constructor
          · intro hrow _ hthere
            exact ⟨(hrow hthere).httpd, (hrow hthere).php⟩
          · intro hform hthere
            have hvalid := hform (by simp) hthere
            exact ⟨hvalid.httpd, hvalid.php⟩
  | delete siteId =>
      show AllValid (Site.delete env siteId m.toWorld).world.db ↔ True
      rw [Site.db_delete, iff_true]
      split
      · exact fun id site hrow => h id site (List.mem_filter.mp hrow).1
      · exact h

/-- A request keeps the references valid exactly if it meets its condition. -/
theorem allValid_step_iff (h : AllValid m.db) {request : Request}
    (hstep : Step env sqlite m request m') : AllValid m'.db ↔ Keeps m request := by
  cases request with
  | site request => exact allValid_site_iff h hstep
  | instances request => exact allValid_instances_iff h hstep

/-- References are valid in every state that requests lead to which keep them, and
there the next request leaves them valid exactly if it keeps them. -/
theorem site_references_valid (env : Env) (sqlite : Sqlite) {m₀ : Machine}
    (hstart : AllValid m₀.db) {requests : List Request} {m : Machine}
    (run : Transition.Run (Transition.Guarded Keeps (Step env sqlite)) m₀ requests m) :
    AllValid m.db ∧
      ∀ request m', Step env sqlite m request m' → (AllValid m'.db ↔ Keeps m request) :=
  run.invariant_iff (fun m => AllValid m.db) hstart
    fun _ _ _ h hstep => allValid_step_iff h hstep

/-- The site of the small deployment refers to its Apache and its PHP version. -/
theorem allValid_sampleMachine : AllValid Instance.sampleMachine.db := by
  intro id site hrow
  obtain ⟨-, rfl⟩ := Prod.mk.inj (List.mem_singleton.mp hrow)
  constructor
  · show ∀ instanceId ∈ some (1 : ℤ), _
    decide
  · show ∀ instanceId ∈ some (3 : ℤ), _
    decide

/-- The uninstall of an instance, posted from its page. -/
def sampleUninstall (instanceId : ℤ) : Request :=
  .instances (.uninstall ⟨⟨true, true, true, true⟩, instanceId, 0⟩)

/-- The web server of a site goes, and the site refers to none. -/
theorem site_references_valid_apache :
    AllValid (Instance.controlUninstall Site.sampleEnv ⟨true, true, true, true⟩ 1 0
      Instance.sampleMachine).state.db := by
  have hkeeps : Keeps Instance.sampleMachine (sampleUninstall 1) := by
    intro classFile hthrough id site hrow
    have hclass : Instance.Runs Instance.sampleMachine.db 1 0 .apache := by decide
    obtain rfl : classFile = .apache := Option.some.inj (hthrough.1.symm.trans hclass)
    obtain ⟨-, rfl⟩ := Prod.mk.inj (List.mem_singleton.mp hrow)
    decide
  exact (site_references_valid Site.sampleEnv Instance.sampleSqlite allValid_sampleMachine
    (.snoc (.nil _) ⟨hkeeps, rfl⟩)).1

/-- A form that was opened before an uninstall posts the key of the instance that
went. -/
theorem stale_form_dangles :
    ¬ ∀ requests m, Transition.Run (Step Site.sampleEnv Instance.sampleSqlite)
      Instance.sampleMachine requests m → AllValid m.db := by
  intro hclaim
  let form := SiteController.sampleForm "b" "" 2 (-1)
  let m₁ := (Instance.controlUninstall Site.sampleEnv ⟨true, true, true, true⟩ 2 0
    Instance.sampleMachine).state
  have hgone : Step Site.sampleEnv Instance.sampleSqlite Instance.sampleMachine
      (sampleUninstall 2) m₁ := rfl
  have hposted : Step Site.sampleEnv Instance.sampleSqlite m₁
      (.site (.doAdd form SiteController.sampleCertificate))
      { m₁ with toWorld :=
          (SiteController.doAdd Site.sampleEnv form SiteController.sampleCertificate
            m₁.toWorld).world } := rfl
  have hrow : ∃ row ∈ (SiteController.doAdd Site.sampleEnv form
      SiteController.sampleCertificate m₁.toWorld).world.db.sites.rows,
        row.2.httpdInstanceId = some 2 := by
    rw [SiteController.db_doAdd]
    decide
  obtain ⟨⟨id, site⟩, hmem, hserver⟩ := hrow
  have hthere := (hclaim _ _ (.snoc (.snoc (.nil _) hgone) hposted) id site hmem).httpd 2 hserver
  revert hthere
  show 2 ∉ (SiteController.doAdd Site.sampleEnv form
      SiteController.sampleCertificate m₁.toWorld).world.db.instances.rows.map Prod.fst
  rw [SiteController.db_doAdd]
  decide

end SiteReferences

end WampManager
