/-
# Instances that were installed to the end

`Package::getInstances` lists an instance as soon as its row is there. An
instance is whole if its row has a name, its package was unpacked and all the
endpoints of its class file are registered. An install that gets no download has
not begun, and one that fails while it sets up a database has registered its
endpoints. What the unpacking makes of the archive nobody looks at: it returns also
if the archive cannot be opened, and the install goes on to an instance without files.
-/

import WampManager.Install

namespace WampManager

/-- `Package::getInstances`: the rows of the instances that have a package. -/
def Package.getInstances (db : Database) : List (ℤ × InstanceRow) :=
  db.instances.rows.filter fun row => (Package.getById db row.2.packageId).isSome

namespace Instance

/-- The package that was unpacked into a directory could be opened, and each of its files
is at its place there. -/
def FilesThere (m : Machine) (path : Text) : Prop :=
  ∃ entries, m.unpacked path = some (.opened entries) ∧
    UnzipMe.AllPlaced path 1 entries m.files

/-- An instance with a name, its files and its endpoints. -/
structure Whole (env : Env) (m : Machine) (instanceId : ℤ) (row : InstanceRow) : Prop where
  named : row.name ≠ none
  unpacked : ∀ name ∈ row.name, FilesThere m (env.binPath ++ '\\' :: name)
  endpoints : ∀ package ∈ Package.getById m.db row.packageId,
    ∀ classFile ∈ package.classFile, ∀ spec ∈ classFile.endpoints,
      ∃ key endpoint, (key, endpoint) ∈ m.db.endpoints.rows ∧
        endpoint.instanceId = instanceId ∧ endpoint.proto = spec.proto ∧
        endpoint.type = spec.type

/-- What installs and uninstalls keep: rows are named after their key and some
package, and endpoints belong to keys that were handed out. -/
structure Sound (m : Machine) : Prop where
  named : ∀ instanceId row, (instanceId, row) ∈ m.db.instances.rows →
    ∃ package, row.name = some (nameOf instanceId package)
  owned : ∀ key endpoint, (key, endpoint) ∈ m.db.endpoints.rows →
    endpoint.instanceId ≤ m.db.instances.seq

/-- A name that is one segment of a path. -/
def OneSegment (name : Text) : Prop := ∀ c ∈ name, FilePath.isSep c = false

instance (name : Text) : Decidable (OneSegment name) :=
  inferInstanceAs (Decidable (∀ c ∈ name, _))

/-- The requests that install and uninstall. -/
inductive Request
  | install (found : InstallFound) (packageId : ℤ)
  | uninstall (request : UninstallRequest)

/-- What a request does. -/
def handle (env : Env) (sqlite : Sqlite) : Request → Machine → Course Machine
  | .install found packageId, m => packageInstall env sqlite found packageId m
  | .uninstall request, m =>
      controlUninstall env request.found request.instanceId request.packageId m

/-- A request, however it ends. -/
def Step (env : Env) (sqlite : Sqlite) (m : Machine) (request : Request) (m' : Machine) : Prop :=
  m' = (handle env sqlite request m).state

/-- The request leaves instances whole: an install unpacks its package without a loss,
and the directory it installs to, or that it removes, is beside the others. -/
def Keeps (env : Env) (m : Machine) : Request → Prop
  | .install found packageId => found.downloads = true →
      ∀ package ∈ Package.getById m.db packageId, ∀ classFile ∈ package.classFile,
        classFile.isApp = false →
          OneSegment (nameOf m.db.instances.nextId (some package)) ∧
            UnzipMe.Unzips found.archive (newPath env package m) 1 m.files
  | .uninstall request => ∀ package ∈ controlPackage m.db request.instanceId request.packageId,
      OneSegment (nameOf request.instanceId (some package))

variable {env : Env} {sqlite : Sqlite} {m m' : Machine}

/-- Packages are joined by the package and the vendor table alone. -/
theorem getById_congr {db db' : Database} (hpackages : db'.packages = db.packages)
    (hvendors : db'.vendors = db.vendors) (packageId : ℤ) :
    Package.getById db' packageId = Package.getById db packageId := by
  unfold Package.getById Package.vendorOf
  rw [hpackages, hvendors]

theorem getById_id {db : Database} {package : PackageInfo} {packageId : ℤ}
    (h : Package.getById db packageId = some package) : package.id = packageId := by
  simp only [Package.getById, Option.bind_eq_bind, Option.bind_eq_some_iff,
    Option.pure_def, Option.some.injEq] at h
  obtain ⟨_, -, _, -, rfl⟩ := h
  rfl

/-! ## The rows of a new instance -/

/-- The row of a new instance once it is named. -/
def newRow (sqlite : Sqlite) (package : PackageInfo) (m : Machine) : InstanceRow where
  packageId := package.id
  label := sqlite.asInteger ((m.session.pdata.getD []).value "label".toList)
  name := some (nameOf m.db.instances.nextId (some package))

theorem rows_namedRows (sqlite : Sqlite) (package : PackageInfo) (m : Machine) :
    (namedRows sqlite package m).instances.rows =
      m.db.instances.rows ++ [(m.db.instances.nextId, newRow sqlite package m)] :=
  Table.rows_update_insert _ _ _

/-- The endpoints of a new instance stand behind the old ones. -/
theorem rows_registeredRows (sqlite : Sqlite) (package : PackageInfo) (classFile : ClassFile)
    (m : Machine) :
    ∃ extra, (registeredRows sqlite package classFile m).endpoints.rows =
      m.db.endpoints.rows ++ extra ∧
      extra.map Prod.snd = classFile.endpoints.map
        (endpointRow sqlite (m.session.pdata.getD []) m.db.instances.nextId) := by
  obtain ⟨extra, hrows, hvalues, -⟩ := Table.rows_foldl_insert
    (endpointRow sqlite (m.session.pdata.getD []) m.db.instances.nextId) classFile.endpoints
      (namedRows sqlite package m).endpoints
  exact ⟨extra, hrows, hvalues⟩

/-! ## What a request leaves -/

/-- A request comes to change the instances, with the class file that it runs. -/
def Acts (m : Machine) : Request → ClassFile → Prop
  | .install found packageId, classFile =>
      found.downloads = true ∧ classFile ∈ classFileOf m.db packageId ∧ classFile.isApp = false
  | .uninstall request, classFile =>
      GoesThrough request.found request.instanceId request.packageId classFile m

/-- The machines that a request can leave: with the instances as they are, with a new one,
or without one. -/
inductive Leaves (env : Env) (sqlite : Sqlite) (m : Machine) : Request → Machine → Prop
  | same {request : Request} (session : Session) (cs : List Command)
      (hnone : ∀ classFile, ¬ Acts m request classFile) :
      Leaves env sqlite m request { m with session := session, commands := cs }
  | registered {found : InstallFound} {packageId : ℤ} {package : PackageInfo}
      {classFile : ClassFile} (cs : List Command)
      (hacts : Acts m (.install found packageId) classFile)
      (hpackage : Package.getById m.db packageId = some package)
      (hclass : package.classFile = some classFile) :
      Leaves env sqlite m (.install found packageId)
        (installed env sqlite found package classFile cs m)
  | removed {request : UninstallRequest} {classFile : ClassFile} (package : PackageInfo)
      (cs : List Command) (hacts : Acts m (.uninstall request) classFile)
      (hpackage : controlPackage m.db request.instanceId request.packageId = some package) :
      Leaves env sqlite m (.uninstall request)
        (removed env request.found (initVars env request.instanceId package) classFile
          request.instanceId cs m)

theorem leaves_of_step {request : Request} (hstep : Step env sqlite m request m') :
    Leaves env sqlite m request m' := by
  obtain rfl := hstep
  cases request with
  | install found packageId =>
      show Leaves env sqlite m _ (packageInstall env sqlite found packageId m).state
      rcases packageInstall_cases env sqlite found packageId m with
        ⟨package, classFile, hpackage, hclass, happ, hruns⟩ | ⟨happs, hsame⟩
      · have hruns' : classFile ∈ classFileOf m.db packageId := by
          rw [classFileOf, hpackage]
          exact hclass
        rw [hruns]
        rcases installServer_cases env sqlite found package classFile m with
          ⟨hno, hdone⟩ | ⟨hdownloads, cs, hdone⟩
        · rw [hdone]
          refine .same m.session m.commands fun c hacts => ?_
          rw [hacts.1] at hno
          cases hno
        · rw [hdone]
          exact .registered cs ⟨hdownloads, hruns', happ⟩ hpackage hclass
      · rw [hsame]
        refine .same m.session m.commands fun c hacts => ?_
        have happ := happs c hacts.2.1
        rw [hacts.2.2] at happ
        cases happ
  | uninstall request =>
      show Leaves env sqlite m _
        (controlUninstall env request.found request.instanceId request.packageId m).state
      rcases controlUninstall_spec env request.found request.instanceId request.packageId m with
        ⟨hnone, session, cs, -, hsame⟩ | ⟨classFile, package, cs, hthrough, hpackage, hdone⟩
      · rw [hsame]
        exact .same session cs hnone
      · rw [hdone]
        exact .removed package cs hthrough hpackage

/-! ## Sound machines -/

theorem sound_installed (h : Sound m) (found : InstallFound) (package : PackageInfo)
    (classFile : ClassFile) (cs : List Command) :
    Sound (installed env sqlite found package classFile cs m) := by
  obtain ⟨extra, hrows, hvalues⟩ := rows_registeredRows sqlite package classFile m
  constructor
  · intro instanceId row hrow
    have hmem : (instanceId, row) ∈ (namedRows sqlite package m).instances.rows := hrow
    rw [rows_namedRows] at hmem
    rcases List.mem_append.mp hmem with hold | hnew
    · exact h.named instanceId row hold
    · obtain ⟨rfl, rfl⟩ := Prod.mk.inj (List.mem_singleton.mp hnew)
      exact ⟨some package, rfl⟩
  · intro key endpoint hrow
    show endpoint.instanceId ≤ m.db.instances.seq + 1
    rcases List.mem_append.mp (hrows ▸ hrow) with hold | hnew
    · have hle := h.owned key endpoint hold
      omega
    · have hmem : endpoint ∈ extra.map Prod.snd := List.mem_map.mpr ⟨_, hnew, rfl⟩
      rw [hvalues] at hmem
      obtain ⟨spec, -, rfl⟩ := List.mem_map.mp hmem
      exact le_refl _

theorem sound_step (h : Sound m) {request : Request} (hstep : Step env sqlite m request m') :
    Sound m' := by
  cases leaves_of_step hstep with
  | same session cs => exact ⟨h.named, h.owned⟩
  | registered => exact sound_installed h _ _ _ _
  | @removed request classFile package cs =>
      obtain ⟨conf, hdb⟩ := db_removed env request.found
        (initVars env request.instanceId package) classFile request.instanceId cs m
      constructor
      · intro instanceId row hrow
        rw [hdb] at hrow
        exact h.named instanceId row (List.mem_filter.mp hrow).1
      · intro key endpoint hrow
        rw [hdb] at hrow ⊢
        exact h.owned key endpoint (List.mem_filter.mp hrow).1

/-- An instance stays whole where its directory and its endpoints stay. -/
theorem Whole.mono {instanceId : ℤ} {row : InstanceRow} (h : Whole env m instanceId row)
    (hpackages : m'.db.packages = m.db.packages) (hvendors : m'.db.vendors = m.db.vendors)
    (hunpacked : ∀ name ∈ row.name, FilesThere m (env.binPath ++ '\\' :: name) →
      FilesThere m' (env.binPath ++ '\\' :: name))
    (hendpoints : ∀ key endpoint, (key, endpoint) ∈ m.db.endpoints.rows →
      endpoint.instanceId = instanceId → (key, endpoint) ∈ m'.db.endpoints.rows) :
    Whole env m' instanceId row := by
  constructor
  · exact h.named
  · intro name hname
    exact hunpacked name hname (h.unpacked name hname)
  · intro package hpackage classFile hclass spec hspec
    rw [getById_congr hpackages hvendors] at hpackage
    obtain ⟨key, endpoint, hrow, howner, hrest⟩ :=
      h.endpoints package hpackage classFile hclass spec hspec
    exact ⟨key, endpoint, hendpoints key endpoint hrow howner, howner, hrest⟩

/-- The files of an instance stay where nothing happens to its directory. -/
theorem FilesThere.mono {i : ℤ} {p : Option PackageInfo}
    (h : FilesThere m (env.binPath ++ '\\' :: nameOf i p))
    (hunpacked : m'.unpacked (env.binPath ++ '\\' :: nameOf i p) =
      m.unpacked (env.binPath ++ '\\' :: nameOf i p))
    (hfiles : ∀ place, Drive.key (env.binPath ++ '\\' :: nameOf i p) <+: place →
      m'.files.fileAt place = m.files.fileAt place) :
    FilesThere m' (env.binPath ++ '\\' :: nameOf i p) := by
  obtain ⟨entries, hopened, hplaced⟩ := h
  refine ⟨entries, hunpacked.trans hopened, fun e he hfile => ?_⟩
  rw [hfiles _ (UnzipMe.dest_isPrefix_target hfile.1)]
  exact hplaced e he hfile

theorem mem_getInstances {db : Database} {instanceId : ℤ} {row : InstanceRow} :
    (instanceId, row) ∈ Package.getInstances db ↔
      (instanceId, row) ∈ db.instances.rows ∧ (Package.getById db row.packageId).isSome := by
  rw [Package.getInstances, List.mem_filter]

end Instance

end WampManager
