/-
# Installed instances and the store

The name of an instance is stored by its install and computed anew, from the
current package, by every command. A sync replaces all packages and vendors by
those of the payload. An instance keeps its name, and with it its directory and
its service, exactly if the payload goes on listing its package with a vendor of
its own, under the same title, version and architecture.
-/

import WampManager.StoreAtomic
import WampManager.WholeInstances

namespace WampManager

namespace StoreInstances

open Instance (nameOf)
open Update (Payload payload? Skipped sync)

universe u

variable {ρ : Type u}

/-- A row of a payload. -/
def lookup (rows : List (ℤ × ρ)) (id : ℤ) : Option ρ := (rows.find? (·.1 == id)).map Prod.snd

/-- The vendor of a package in a payload. -/
def vendorIn (payload : Payload) (row : PackageRow) : Option VendorRow :=
  match row.vendorId with
  | .int id => lookup payload.vendors id
  | _ => none

/-- The package of a payload, joined with its vendor. -/
def joined (payload : Payload) (packageId : ℤ) : Option PackageInfo := do
  let row ← lookup payload.packages packageId
  let vendor ← vendorIn payload row
  return ⟨packageId, row, vendor.title, vendor.description⟩

/-- Every instance has its package, and its name is the one that is computed. -/
def Addressable (db : Database) : Prop :=
  ∀ instanceId row, (instanceId, row) ∈ db.instances.rows →
    ∃ package, Package.getById db row.packageId = some package ∧
      row.name = some (nameOf instanceId (some package))

/-- A payload lists the packages of all instances, and they give the same names. -/
def KeepsNames (payload : Payload) (db : Database) : Prop :=
  ∀ instanceId row, (instanceId, row) ∈ db.instances.rows →
    ∃ package, joined payload row.packageId = some package ∧
      nameOf instanceId (some package) =
        nameOf instanceId (Package.getById db row.packageId)

/-- The requests that write instances, or sync with a payload. -/
inductive Request
  | sync (reply : Option Text)
  | instances (request : Instance.Request)

/-- A request, however it ends. The store replies with valid payloads. -/
def Step (env : Env) (engine : Engine) (m : Machine) : Request → Machine → Prop
  | .sync reply, m' => (payload? engine reply).isSome ∧
      m' = { m with db := (sync engine reply m.db).db }
  | .instances request, m' => Instance.Step env engine.sqlite m request m'

/-- A payload that is taken over keeps the names of the instances. -/
def Keeps (engine : Engine) (m : Machine) : Request → Prop
  | .sync reply => ¬ Skipped reply m.db →
      ∀ payload ∈ payload? engine reply, KeepsNames payload m.db
  | .instances _ => True

variable {env : Env} {engine : Engine} {m m' : Machine} {db db' : Database}

theorem keepsNames_iff {payload : Payload} :
    KeepsNames payload db ↔ ∀ row ∈ db.instances.rows,
      (joined payload row.2.packageId).map (fun package => nameOf row.1 (some package)) =
        some (nameOf row.1 (Package.getById db row.2.packageId)) := by
  simp only [KeepsNames, Prod.forall, Option.map_eq_some_iff]

instance (payload : Payload) (db : Database) : Decidable (KeepsNames payload db) :=
  decidable_of_iff' _ keepsNames_iff

instance (engine : Engine) (m : Machine) : (request : Request) →
    Decidable (Keeps engine m request)
  | .sync reply => inferInstanceAs (Decidable (¬ Skipped reply m.db →
      ∀ payload ∈ payload? engine reply, KeepsNames payload m.db))
  | .instances _ => .isTrue trivial

/-! ## Addresses after each request -/

/-- The tables of a payload join as the payload does. -/
theorem getById_of_rows {payload : Payload} (hvendors : db.vendors.rows = payload.vendors)
    (hpackages : db.packages.rows = payload.packages) (packageId : ℤ) :
    Package.getById db packageId = joined payload packageId := by
  have hvendor : ∀ row, Package.vendorOf db row = vendorIn payload row := by
    intro row
    unfold Package.vendorOf vendorIn Table.find?
    rw [hvendors]
    rfl
  have hrow : db.packages.find? packageId = lookup payload.packages packageId := by
    rw [Table.find?, hpackages]
    rfl
  unfold Package.getById joined
  rw [hrow]
  simp only [hvendor]

theorem instances_sync (engine : Engine) (reply : Option Text) (db : Database) :
    (sync engine reply db).db.instances = db.instances := by
  have hpackages : ∀ json d, (Update.replacePackages engine json d).db.instances =
      d.instances := by
    intro json d
    unfold Update.replacePackages Update.setHash
    split
    · rfl
    · split <;> rfl
  unfold sync Update.replaceTables
  simp only
  split
  · rfl
  · split
    · rfl
    · split
      · rfl
      · exact hpackages _ _

/-- A payload that is taken over leaves the instances addressable exactly if it
keeps their names. -/
theorem addressable_sync_iff (h : Addressable db) {reply : Option Text} {payload : Payload}
    (hpayload : payload? engine reply = some payload) (hgoing : ¬ Skipped reply db) :
    Addressable (sync engine reply db).db ↔ KeepsNames payload db := by
  obtain ⟨hvendors, hpackages, -⟩ := Update.sync_of_payload hpayload hgoing
  unfold Addressable KeepsNames
  rw [instances_sync]
  refine forall_congr' fun instanceId => forall_congr' fun row => forall_congr' fun hrow => ?_
  obtain ⟨old, hold, hname⟩ := h instanceId row hrow
  rw [getById_of_rows hvendors hpackages, hold, hname]
  constructor
  · rintro ⟨package, hpackage, hsame⟩
    exact ⟨package, hpackage, (Option.some.inj hsame).symm⟩
  · rintro ⟨package, hpackage, hsame⟩
    exact ⟨package, hpackage, by rw [hsame]⟩

/-- Instances stay addressable where they are kept and the packages are. -/
theorem Addressable.mono (h : Addressable db) (hpackages : db'.packages = db.packages)
    (hvendors : db'.vendors = db.vendors)
    (hrows : ∀ row ∈ db'.instances.rows, row ∈ db.instances.rows) : Addressable db' := by
  intro instanceId row hrow
  rw [Instance.getById_congr hpackages hvendors]
  exact h instanceId row (hrows _ hrow)

/-- A new instance has the name that is computed for it. -/
theorem addressable_namedRows (h : Addressable m.db) (sqlite : Sqlite) {package : PackageInfo}
    (hpackage : Package.getById m.db package.id = some package) :
    Addressable (Instance.namedRows sqlite package m) := by
  have hget : ∀ id, Package.getById (Instance.namedRows sqlite package m) id =
      Package.getById m.db id := Instance.getById_congr rfl rfl
  intro instanceId row hrow
  rw [hget]
  rw [Instance.rows_namedRows] at hrow
  rcases List.mem_append.mp hrow with hold | hnew
  · exact h instanceId row hold
  · obtain ⟨rfl, rfl⟩ := Prod.mk.inj (List.mem_singleton.mp hnew)
    exact ⟨package, hpackage, rfl⟩

theorem addressable_instances (h : Addressable m.db) {request : Instance.Request}
    (hstep : Instance.Step env engine.sqlite m request m') : Addressable m'.db := by
  cases Instance.leaves_of_step hstep with
  | same session cs => exact h
  | registered cs _ hpackage =>
      rw [← Instance.getById_id hpackage] at hpackage
      exact (addressable_namedRows h engine.sqlite hpackage).mono rfl rfl fun _ hrow => hrow
  | @removed request classFile package cs =>
      obtain ⟨conf, hdb⟩ := Instance.db_removed env request.found
        (Instance.initVars env request.instanceId package) classFile request.instanceId cs m
      rw [hdb]
      exact h.mono rfl rfl fun row hrow => (List.mem_filter.mp hrow).1

/-! ## Runs -/

theorem addressable_step_iff (h : Addressable m.db) {request : Request}
    (hstep : Step env engine m request m') : Addressable m'.db ↔ Keeps engine m request := by
  cases request with
  | sync reply =>
      obtain ⟨hvalid, rfl⟩ := hstep
      obtain ⟨payload, hpayload⟩ := Option.isSome_iff_exists.mp hvalid
      show Addressable (sync engine reply m.db).db ↔ _
      by_cases hskipped : Skipped reply m.db
      · rw [Update.db_sync_of_skipped hskipped]
        exact ⟨fun _ hgoing => absurd hskipped hgoing, fun _ => h⟩
      · rw [addressable_sync_iff h hpayload hskipped]
        constructor
        · intro hkeeps _ other hother
          rw [hpayload] at hother
          exact Option.some.inj hother ▸ hkeeps
        · intro hkeeps
          exact hkeeps hskipped payload hpayload
  | instances request => exact ⟨fun _ => trivial, fun _ => addressable_instances h hstep⟩

/-- Over runs of installs, uninstalls and syncs whose payloads keep the names of
what is installed, every instance has its package, is listed, and has the name
that every command computes; and a payload that does not keep them takes that
away. -/
theorem instances_stay_addressable (env : Env) (engine : Engine) {m₀ m : Machine}
    (hstart : Addressable m₀.db) {requests : List Request}
    (run : Transition.Run (Transition.Guarded (Keeps engine) (Step env engine))
      m₀ requests m) :
    (∀ instanceId row, (instanceId, row) ∈ m.db.instances.rows →
      (instanceId, row) ∈ Package.getInstances m.db ∧
      ∃ package, Package.getByInstanceId m.db instanceId = some package ∧
        row.name = some (Instance.setInstanceVars env.binPath instanceId (some package)).name) ∧
    ∀ request m', Step env engine m request m' →
      (Addressable m'.db ↔ Keeps engine m request) := by
  obtain ⟨haddressable, hnext⟩ := run.invariant_iff (fun m => Addressable m.db) hstart
    fun _ _ _ h hstep => addressable_step_iff h hstep
  refine ⟨?_, hnext⟩
  intro instanceId row hrow
  obtain ⟨package, hpackage, hname⟩ := haddressable instanceId row hrow
  refine ⟨Instance.mem_getInstances.mpr ⟨hrow, by rw [hpackage]; rfl⟩, package, ?_, hname⟩
  have hfound : m.db.instances.find? instanceId = some row := Table.find?_eq_some.mpr hrow
  simp [Package.getByInstanceId, hfound, hpackage]

/-! ## Fixed inputs -/

/-- A reply that lists these packages of one vendor. -/
def sampleReply (packages : Text) : Option Text :=
  some ("\x7b\"store\":\x7b\"vendor\":[\x7b\"id\":1,\"title\":\"apache\"\x7d],\"package\":[".toList ++
    packages ++ "]\x7d,\"hash\":\"b\"\x7d".toList)

/-- The package of the small deployment, in this version. -/
def samplePackage (version : Text) : Text :=
  "\x7b\"id\":1,\"version\":\"".toList ++ version ++
    "\",\"class_file\":\"apache.php\",\"arch\":\"x64\",\"vendor_id\":1\x7d".toList

theorem addressable_freshMachine : Addressable Instance.freshMachine.db :=
  fun _ _ hrow => absurd hrow List.not_mem_nil

/-- The small deployment with its web server installed. -/
def installedMachine : Machine :=
  (Instance.packageInstall Site.sampleEnv Update.sampleEngine.sqlite Instance.allGood 1
    Instance.freshMachine).state

/-- That machine after a sync. -/
def syncedMachine (version : Text) : Machine :=
  { installedMachine with
    db := (sync Update.sampleEngine (sampleReply (samplePackage version)) installedMachine.db).db }

theorem step_installedMachine : Step Site.sampleEnv Update.sampleEngine Instance.freshMachine
    (.instances (.install Instance.allGood 1)) installedMachine := rfl

/-- A payload that lists the installed package again keeps the instance listed. -/
theorem instances_stay_addressable_same_version :
    (1, ⟨1, .text "Web".toList, some "1-apache_2.4_x64".toList⟩) ∈
      Package.getInstances (syncedMachine "2.4".toList).db := by
  let request : Request := .sync (sampleReply (samplePackage "2.4".toList))
  have hsync : Step Site.sampleEnv Update.sampleEngine installedMachine request
      (syncedMachine "2.4".toList) := ⟨by decide +kernel, rfl⟩
  have hkeeps : Keeps Update.sampleEngine installedMachine request := by decide +kernel
  have hinstall : Keeps Update.sampleEngine Instance.freshMachine
      (.instances (.install Instance.allGood 1)) := trivial
  have hrows : (syncedMachine "2.4".toList).db.instances = installedMachine.db.instances :=
    instances_sync Update.sampleEngine (sampleReply (samplePackage "2.4".toList)) installedMachine.db
  apply ((instances_stay_addressable Site.sampleEnv Update.sampleEngine addressable_freshMachine
    (.snoc (.snoc (.nil _) ⟨hinstall, step_installedMachine⟩) ⟨hkeeps, hsync⟩)).1 _ _ _).1
  rw [hrows]
  exact List.mem_cons_self

/-- A new version under the same id separates the instance from its directory. -/
theorem update_renames_instance :
    ¬ ∀ requests m, Transition.Run (Step Site.sampleEnv Update.sampleEngine)
      Instance.freshMachine requests m → Addressable m.db := by
  intro hclaim
  let request : Request := .sync (sampleReply (samplePackage "2.6".toList))
  have hsync : Step Site.sampleEnv Update.sampleEngine installedMachine request
      (syncedMachine "2.6".toList) := ⟨by decide +kernel, rfl⟩
  have haddressable : Addressable installedMachine.db :=
    (addressable_step_iff addressable_freshMachine step_installedMachine).mpr trivial
  have hkeeps : ¬ Keeps Update.sampleEngine installedMachine request := by decide +kernel
  apply hkeeps
  apply (addressable_step_iff haddressable hsync).mp
  exact hclaim _ _ (.snoc (.snoc (.nil _) step_installedMachine) hsync)

end StoreInstances

end WampManager
