/-
# The command line defaults

The settings page chooses the PHP, MySQL and PostgreSQL instance for the command
line: it stores the key and points a junction into the directory of the instance.
Nothing keeps the two in step afterwards but the uninstall of a PHP version,
which clears both; the class files of the database servers leave theirs behind.
-/

import WampManager.SiteController
import WampManager.WholeInstances

namespace WampManager

namespace Settings

open Instance (GoesThrough clearPhpDefault phpDefault phpJunction release releaseSites)
open Loose (looseEq)
open SiteController (selected)

/-- The defaults of the command line. -/
inductive Cli
  | php | mysql | pgsql
  deriving DecidableEq

namespace Cli

/-- The row of `conf` with the key of the instance. -/
def confName : Cli → Text
  | .php => phpDefault
  | .mysql => "mysql_default_instance_id".toList
  | .pgsql => "pgsql_default_instance_id".toList

/-- The junction. -/
def junction (env : Env) : Cli → Text
  | .php => phpJunction env
  | .mysql => env.binPath ++ "\\.mysql".toList
  | .pgsql => env.binPath ++ "\\.pgsql".toList

/-- Where in the directory of the instance the junction points. -/
def inside : Cli → Text
  | .php => []
  | .mysql | .pgsql => "\\bin".toList

end Cli

/-- The posted settings. The selects post the key of an instance or -1. -/
structure Form where
  proxyEnable : Bool
  proxyHost : Text
  proxyPort : Text
  proxyAuth : Bool
  proxyUser : Text
  proxyPass : Text
  editorPath : Text
  phpInstanceId : ℤ
  mysqlInstanceId : ℤ
  pgsqlInstanceId : ℤ

/-- The instance that is chosen for a default. -/
def Form.chosen (form : Form) : Cli → Option ℤ
  | .php => selected form.phpInstanceId
  | .mysql => selected form.mysqlInstanceId
  | .pgsql => selected form.pgsqlInstanceId

/-- What is stored for a choice. -/
def stored : Option ℤ → SqlValue
  | none => .null
  | some instanceId => .text (decimal instanceId)

/-- A checked box. -/
def checked (box : Bool) : SqlValue := .text (if box then "true".toList else "false".toList)

/-- Where the junction for an instance points. -/
def target (env : Env) (cli : Cli) (name : Text) : Text :=
  env.binPath ++ '\\' :: name ++ cli.inside

/-- Remove the junction of a default. -/
def unlink (env : Env) (cli : Cli) (m : Machine) : Machine := m.removeJunction (cli.junction env)

/-- Create the junction of a default, unless it is disabled. -/
def link (env : Env) (form : Form) (cli : Cli) (m : Machine) : Machine :=
  match form.chosen cli with
  | none => m
  | some instanceId =>
      m.createJunction (cli.junction env)
        (target env cli (Site.instanceName m.db (some instanceId)))

/-- The settings that are no defaults. -/
def saveOther (form : Form) (db : Database) : Database :=
  ((((((db.set "proxy_enable".toList (checked form.proxyEnable)).set
    "proxy_host".toList (.text form.proxyHost)).set
    "proxy_port".toList (.text form.proxyPort)).set
    "proxy_auth".toList (checked form.proxyAuth)).set
    "proxy_user".toList (.text form.proxyUser)).set
    "proxy_pass".toList (.text form.proxyPass)).set
    "editor_path".toList (.text form.editorPath)

/-- Store the three choices. -/
def saveDefaults (form : Form) (db : Database) : Database :=
  ((db.set Cli.php.confName (stored (form.chosen .php))).set
    Cli.mysql.confName (stored (form.chosen .mysql))).set
    Cli.pgsql.confName (stored (form.chosen .pgsql))

/-- `SettingsController::save`. -/
def save (env : Env) (form : Form) (m : Machine) : Machine :=
  let m : Machine := { m with db := saveOther form m.db }
  let m := unlink env .pgsql (unlink env .mysql (unlink env .php m))
  let m := link env form .pgsql (link env form .mysql (link env form .php m))
  { m with db := saveDefaults form m.db }

/-- The requests that write defaults or instances. -/
inductive Request
  | save (form : Form)
  | instances (request : Instance.Request)

/-- A request, however it ends. -/
def Step (env : Env) (sqlite : Sqlite) (m : Machine) : Request → Machine → Prop
  | .save form, m' => m' = save env form m
  | .instances request, m' => Instance.Step env sqlite m request m'

/-! ## Defaults that do not dangle -/

/-- The stored value and the junction agree on no instance or on one that is
there. -/
def Settled (env : Env) (cli : Cli) (m : Machine) : Prop :=
  m.db.get cli.confName = some .null ∧ m.junctions (cli.junction env) = none ∨
  ∃ instanceId row name, m.db.get cli.confName = some (.text (decimal instanceId)) ∧
    (instanceId, row) ∈ m.db.instances.rows ∧ row.name = some name ∧
    m.junctions (cli.junction env) = some (target env cli name)

/-- All three are settled. -/
def AllSettled (env : Env) (m : Machine) : Prop := ∀ cli, Settled env cli m

/-- A choice that can be linked: an instance with a name that the command line
passes on as one argument. -/
def Linkable (env : Env) (cli : Cli) (instances : Table InstanceRow) (instanceId : ℤ) : Prop :=
  ∃ row name, (instanceId, row) ∈ instances.rows ∧ row.name = some name ∧
    isArgument (target env cli name) = true

/-- A request keeps the defaults: it saves what can be linked, or it uninstalls no
default but that of a PHP version. -/
def Keeps (env : Env) (m : Machine) : Request → Prop
  | .save form => ∀ cli, ∀ instanceId ∈ form.chosen cli,
      Linkable env cli m.db.instances instanceId
  | .instances (.install _ _) => True
  | .instances (.uninstall request) =>
      ∀ classFile, GoesThrough request.found request.instanceId request.packageId classFile m →
        ∀ cli, m.db.get (Cli.confName cli) = some (.text (decimal request.instanceId)) →
          cli = .php ∧ classFile.isPhp = true

/-- The junctions can be named on a command line. -/
def Deployed (env : Env) : Prop := ∀ cli, isArgument (Cli.junction env cli) = true

variable {env : Env} {sqlite : Sqlite} {m m' : Machine} {form : Form}

/-! ## What `save` leaves -/

theorem confName_injective {cli other : Cli} (h : cli.confName = other.confName) :
    cli = other := by
  revert h
  cases cli <;> cases other <;> decide

theorem junction_injective {cli other : Cli} (h : cli.junction env = other.junction env) :
    cli = other := by
  have hleaf : ∀ c : Cli, c.junction env = env.binPath ++ (match c with
      | .php => "\\.php".toList
      | .mysql => "\\.mysql".toList
      | .pgsql => "\\.pgsql".toList) := by
    intro c
    cases c <;> rfl
  rw [hleaf, hleaf] at h
  have hsame := List.append_cancel_left h
  revert hsame
  cases cli <;> cases other <;> decide

@[simp]
theorem db_unlink (cli : Cli) (m : Machine) : (unlink env cli m).db = m.db := by
  unfold unlink Machine.removeJunction
  split <;> rfl

@[simp]
theorem db_link (cli : Cli) (m : Machine) : (link env form cli m).db = m.db := by
  unfold link Machine.createJunction
  split
  · rfl
  · split <;> rfl

theorem junctions_unlink (hdeployed : Deployed env) (cli other : Cli) (m : Machine) :
    (unlink env cli m).junctions (other.junction env) =
      if other = cli then none else m.junctions (other.junction env) := by
  unfold unlink Machine.removeJunction
  rw [if_pos (hdeployed cli)]
  by_cases hsame : other = cli
  · simp [hsame]
  · have hne : other.junction env ≠ cli.junction env := fun h => hsame (junction_injective h)
    simp [hsame, hne]

/-- The junction that `link` creates where there is none. -/
def linked (env : Env) (form : Form) (cli : Cli) (db : Database) : Option Text :=
  (form.chosen cli).bind fun instanceId =>
    let path := target env cli (Site.instanceName db (some instanceId))
    if isArgument path then some path else none

theorem junctions_link (hdeployed : Deployed env) (cli other : Cli) (m : Machine)
    (hfree : m.junctions (cli.junction env) = none) :
    (link env form cli m).junctions (other.junction env) =
      if other = cli then linked env form cli m.db else m.junctions (other.junction env) := by
  unfold link linked
  cases hchosen : form.chosen cli with
  | none =>
      by_cases hsame : other = cli
      · simp [hsame, hfree]
      · simp [hsame]
  | some instanceId =>
      simp only [Option.bind_some, Machine.createJunction, hdeployed cli, hfree]
      by_cases hargument : isArgument
          (target env cli (Site.instanceName m.db (some instanceId))) = true
      · by_cases hsame : other = cli
        · simp [hsame, hargument]
        · have hne : other.junction env ≠ cli.junction env :=
            fun h => hsame (junction_injective h)
          simp [hsame, hargument, hne]
      · by_cases hsame : other = cli
        · simp [hsame, hargument, hfree]
        · simp [hsame, hargument]

/-- The old junctions go, and the new choices are linked. -/
theorem junctions_save (hdeployed : Deployed env) (cli : Cli) (m : Machine) :
    (save env form m).junctions (cli.junction env) = linked env form cli m.db := by
  have hfree : ∀ (other : Cli) (u : Machine),
      (unlink env .pgsql (unlink env .mysql (unlink env .php u))).junctions
        (other.junction env) = none := by
    intro other u
    rw [junctions_unlink hdeployed, junctions_unlink hdeployed, junctions_unlink hdeployed]
    cases other <;> rfl
  show (link env form .pgsql (link env form .mysql (link env form .php
    (unlink env .pgsql (unlink env .mysql (unlink env .php _)))))).junctions _ = _
  rw [junctions_link hdeployed, junctions_link hdeployed, junctions_link hdeployed]
  · cases cli <;> simp <;> rfl
  · exact hfree .php _
  · rw [junctions_link hdeployed _ _ _ (hfree .php _)]
    exact hfree .mysql _
  · rw [junctions_link hdeployed, junctions_link hdeployed _ _ _ (hfree .php _)]
    · exact hfree .pgsql _
    · rw [junctions_link hdeployed _ _ _ (hfree .php _)]
      exact hfree .mysql _

/-- A row that is there holds what was chosen. -/
theorem get_save (cli : Cli) (m : Machine) :
    (save env form m).db.get cli.confName =
      (m.db.get cli.confName).map fun _ => stored (form.chosen cli) := by
  have hdb : (save env form m).db = saveDefaults form (saveOther form m.db) := by
    show saveDefaults form (link env form .pgsql _).db = _
    simp
  have hother : (saveOther form m.db).get cli.confName = m.db.get cli.confName := by
    unfold saveOther
    iterate 7 rw [Database.get_set_of_ne _ _ (by cases cli <;> decide)]
  rw [hdb, ← hother]
  unfold saveDefaults
  cases cli with
  | php =>
      rw [Database.get_set_of_ne _ _ (by decide), Database.get_set_of_ne _ _ (by decide),
        Database.get_set_self]
  | mysql =>
      rw [Database.get_set_of_ne _ _ (by decide), Database.get_set_self,
        Database.get_set_of_ne _ _ (by decide)]
  | pgsql =>
      rw [Database.get_set_self, Database.get_set_of_ne _ _ (by decide),
        Database.get_set_of_ne _ _ (by decide)]

theorem instanceName_of_mem {db : Database} {instanceId : ℤ} {row : InstanceRow} {name : Text}
    (hrow : (instanceId, row) ∈ db.instances.rows) (hname : row.name = some name) :
    Site.instanceName db (some instanceId) = name := by
  have hfound : db.instances.find? instanceId = some row := Table.find?_eq_some.mpr hrow
  simp [Site.instanceName, hfound, hname]

/-- A default is settled after a save exactly if its choice can be linked. -/
theorem settled_save_iff (hdeployed : Deployed env) {cli : Cli} (h : Settled env cli m) :
    Settled env cli (save env form m) ↔
      ∀ instanceId ∈ form.chosen cli, Linkable env cli m.db.instances instanceId := by
  have hthere : (save env form m).db.get cli.confName = some (stored (form.chosen cli)) := by
    rw [get_save]
    rcases h with ⟨hvalue, -⟩ | ⟨_, _, _, hvalue, -⟩
    · rw [hvalue]
      rfl
    · rw [hvalue]
      rfl
  have hrows : (save env form m).db.instances = m.db.instances := by
    show (link env form .pgsql _).db.instances = _
    simp
    rfl
  unfold Settled
  rw [hthere, hrows, junctions_save hdeployed]
  unfold linked
  cases form.chosen cli with
  | none => simp [stored]
  | some instanceId =>
      simp only [Option.bind_some]
      constructor
      · rintro (⟨hnull, -⟩ | ⟨key, row, name, hvalue, hrow, hname, hlink⟩)
        · exact absurd (Option.some.inj hnull) SqlValue.noConfusion
        · have hkey : instanceId = key :=
            decimal_injective (SqlValue.text.inj (Option.some.inj hvalue))
          subst hkey
          rw [instanceName_of_mem hrow hname] at hlink
          intro other hother
          obtain rfl := Option.some.inj hother
          refine ⟨row, name, hrow, hname, ?_⟩
          by_contra hargument
          rw [if_neg hargument] at hlink
          cases hlink
      · intro hlinkable
        obtain ⟨row, name, hrow, hname, hargument⟩ := hlinkable instanceId rfl
        refine .inr ⟨instanceId, row, name, rfl, hrow, hname, ?_⟩
        rw [instanceName_of_mem hrow hname, if_pos hargument]

/-! ## What installs and uninstalls leave -/

/-- More instances leave a default settled. -/
theorem Settled.insert {cli : Cli} (h : Settled env cli m)
    (hconf : m'.db.conf = m.db.conf) (hjunctions : m'.junctions = m.junctions)
    (hrows : ∀ row ∈ m.db.instances.rows, row ∈ m'.db.instances.rows) :
    Settled env cli m' := by
  have hget : m'.db.get cli.confName = m.db.get cli.confName := by
    unfold Database.get
    rw [hconf]
  unfold Settled
  rw [hget, hjunctions]
  rcases h with hnull | ⟨instanceId, row, name, hvalue, hrow, hrest⟩
  · exact .inl hnull
  · exact .inr ⟨instanceId, row, name, hvalue, hrows _ hrow, hrest⟩

section Removed

variable {found : Instance.Found} {vars : InstanceVars} {classFile : ClassFile}
  {instanceId : ℤ} {cs : List Command}

/-- The uninstall unassigns the default PHP version. -/
def ClearsDefault (classFile : ClassFile) (instanceId : ℤ) (db : Database) : Prop :=
  classFile.isPhp = true ∧
    looseEq (Update.getScalar db phpDefault) (.text (decimal instanceId)) = true

theorem release_of_clears (hdeployed : Deployed env)
    (h : ClearsDefault classFile instanceId m.db) :
    release env classFile instanceId m =
      { m with
        db := (releaseSites classFile instanceId m.db).set phpDefault .null
        junctions := fun path =>
          if path = phpJunction env then none else m.junctions path } := by
  have hscalar : Update.getScalar (releaseSites classFile instanceId m.db) phpDefault =
      Update.getScalar m.db phpDefault := by
    rw [Instance.releaseSites_eq]
    rfl
  have hargument : isArgument (phpJunction env) = true := hdeployed .php
  unfold release clearPhpDefault Machine.removeJunction
  simp only [hscalar]
  rw [if_pos h.1, if_pos h.2, if_pos hargument]

theorem release_of_not_clears (h : ¬ ClearsDefault classFile instanceId m.db) :
    release env classFile instanceId m =
      { m with db := releaseSites classFile instanceId m.db } := by
  have hscalar : Update.getScalar (releaseSites classFile instanceId m.db) phpDefault =
      Update.getScalar m.db phpDefault := by
    rw [Instance.releaseSites_eq]
    rfl
  unfold release clearPhpDefault
  simp only [hscalar]
  split
  next hphp => exact if_neg fun hequal => h ⟨hphp, hequal⟩
  next => rfl

/-- A default is settled after an uninstall exactly if it was another instance, or
the PHP version that the class file takes back. -/
theorem settled_removed_iff (hdeployed : Deployed env) {cli : Cli} (h : Settled env cli m) :
    Settled env cli (Instance.removed env found vars classFile instanceId cs m) ↔
      (m.db.get cli.confName = some (.text (decimal instanceId)) →
        cli = .php ∧ classFile.isPhp = true) := by
  have hrows : (Instance.removed env found vars classFile instanceId cs m).db.instances.rows =
      m.db.instances.rows.filter fun row => !(row.1 == instanceId) := by
    obtain ⟨conf, hdb⟩ := Instance.db_removed env found vars classFile instanceId cs m
    rw [hdb]
    rfl
  have hgone : ∀ key row, (key, row) ∈
      (Instance.removed env found vars classFile instanceId cs m).db.instances.rows ↔
        (key, row) ∈ m.db.instances.rows ∧ key ≠ instanceId := by
    intro key row
    rw [hrows, List.mem_filter]
    simp
  have hget : ∀ name, (releaseSites classFile instanceId m.db).get name = m.db.get name := by
    intro name
    rw [Instance.releaseSites_eq]
    rfl
  by_cases hclears : ClearsDefault classFile instanceId m.db ∧ cli = .php
  · obtain ⟨hclears, rfl⟩ := hclears
    have hrelease := @release_of_clears env (Instance.after cs m) classFile instanceId
      hdeployed hclears
    constructor
    · exact fun _ _ => ⟨rfl, hclears.1⟩
    · intro _
      left
      constructor
      · show (release env classFile instanceId (Instance.after cs m)).db.get phpDefault = _
        rw [hrelease, Database.get_set_self]
        show ((releaseSites classFile instanceId m.db).get phpDefault).map _ = _
        rw [hget]
        rcases h with ⟨hvalue, -⟩ | ⟨_, _, _, hvalue, -⟩
        · rw [show m.db.get phpDefault = _ from hvalue]
          rfl
        · rw [show m.db.get phpDefault = _ from hvalue]
          rfl
      · show (release env classFile instanceId (Instance.after cs m)).junctions _ = none
        rw [hrelease]
        exact if_pos rfl
  · have hvalue : (Instance.removed env found vars classFile instanceId cs m).db.get
        cli.confName = m.db.get cli.confName := by
      show (release env classFile instanceId (Instance.after cs m)).db.get cli.confName = _
      by_cases hphp : ClearsDefault classFile instanceId m.db
      · rw [@release_of_clears env (Instance.after cs m) classFile instanceId hdeployed hphp]
        have hname : cli.confName ≠ phpDefault :=
          fun heq => hclears ⟨hphp, @confName_injective cli .php heq⟩
        exact (Database.get_set_of_ne _ _ hname).trans (hget _)
      · rw [@release_of_not_clears env (Instance.after cs m) classFile instanceId hphp]
        exact hget _
    have hjunction : (Instance.removed env found vars classFile instanceId cs m).junctions
        (cli.junction env) = m.junctions (cli.junction env) := by
      show (release env classFile instanceId (Instance.after cs m)).junctions _ = _
      by_cases hphp : ClearsDefault classFile instanceId m.db
      · rw [@release_of_clears env (Instance.after cs m) classFile instanceId hdeployed hphp]
        exact if_neg fun heq => hclears ⟨hphp, @junction_injective env cli .php heq⟩
      · rw [@release_of_not_clears env (Instance.after cs m) classFile instanceId hphp]
        rfl
    unfold Settled
    rw [hvalue, hjunction]
    constructor
    · rintro (⟨hnull, -⟩ | ⟨key, row, name, hkey, hrow, -⟩) hdefault
      · rw [hnull] at hdefault
        exact absurd (Option.some.inj hdefault) SqlValue.noConfusion
      · rw [hkey] at hdefault
        have hsame := decimal_injective (SqlValue.text.inj (Option.some.inj hdefault))
        exact absurd hsame ((hgone key row).mp hrow).2
    · intro hother
      rcases h with hnull | ⟨key, row, name, hkey, hrow, hrest⟩
      · exact .inl hnull
      · refine .inr ⟨key, row, name, hkey, (hgone key row).mpr ⟨hrow, ?_⟩, hrest⟩
        rintro rfl
        obtain ⟨rfl, hphp⟩ := hother hkey
        apply hclears
        refine ⟨⟨hphp, ?_⟩, rfl⟩
        have hscalar : Update.getScalar m.db phpDefault = .text (decimal key) := by
          unfold Update.getScalar
          rw [show m.db.get phpDefault = _ from hkey]
          rfl
        rw [hscalar]
        exact Loose.textEq_self _

end Removed

/-! ## Runs -/

theorem allSettled_instances_iff (hdeployed : Deployed env) (h : AllSettled env m)
    {request : Instance.Request} (hstep : Instance.Step env sqlite m request m') :
    AllSettled env m' ↔ Keeps env m (.instances request) := by
  have hinserted : ∀ package : PackageInfo, ∀ row ∈ m.db.instances.rows,
      row ∈ (Instance.namedRows sqlite package m).instances.rows := by
    intro package row hrow
    rw [Instance.rows_namedRows]
    exact List.mem_append_left _ hrow
  cases Instance.leaves_of_step hstep with
  | same session cs hnone =>
      refine ⟨fun _ => ?_, fun _ => h⟩
      cases request with
      | install found packageId => exact trivial
      | uninstall request => exact fun classFile hthrough => absurd hthrough (hnone classFile)
  | registered => exact ⟨fun _ => trivial, fun _ cli => (h cli).insert rfl rfl (hinserted _)⟩
  | @removed request classFile package cs hthrough =>
      constructor
      · intro hsettled c hc cli
        obtain rfl : c = classFile := Option.some.inj (hc.1.symm.trans hthrough.1)
        exact (settled_removed_iff hdeployed (h cli)).mp (hsettled cli)
      · intro hkeeps cli
        exact (settled_removed_iff hdeployed (h cli)).mpr (hkeeps classFile hthrough cli)

/-- A request leaves the defaults settled exactly if it keeps them. -/
theorem allSettled_step_iff (hdeployed : Deployed env) (h : AllSettled env m)
    {request : Request} (hstep : Step env sqlite m request m') :
    AllSettled env m' ↔ Keeps env m request := by
  cases request with
  | save form =>
      obtain rfl := hstep
      exact forall_congr' fun cli => settled_save_iff hdeployed (h cli)
  | instances request => exact allSettled_instances_iff hdeployed h hstep

/-- The defaults are settled in every state that requests lead to which keep them,
and there the next request leaves them settled exactly if it keeps them. -/
theorem defaults_settled (sqlite : Sqlite) (hdeployed : Deployed env) {m₀ m : Machine}
    (hstart : AllSettled env m₀) {requests : List Request}
    (run : Transition.Run (Transition.Guarded (Keeps env) (Step env sqlite)) m₀ requests m) :
    AllSettled env m ∧
      ∀ request m', Step env sqlite m request m' → (AllSettled env m' ↔ Keeps env m request) :=
  run.invariant_iff (AllSettled env) hstart
    fun _ _ _ h hstep => allSettled_step_iff hdeployed h hstep

/-! ## Runs on fixed inputs -/

/-- The small deployment with a MySQL instance and no defaults. -/
def sampleMachine : Machine :=
  let text (s : String) : SqlValue := .text s.toList
  let db := Instance.sampleDatabase
  { Instance.sampleMachine with
    db := { db with
      vendors := db.vendors.insert ⟨text "mysql", .null, text "mysql", .null⟩
      packages := db.packages.insert
        ⟨text "5.7", text "mysql.php", text "mysqld.exe", .null, .null, text "x64", .null,
          .null, .int 4, .int 0⟩
      instances := db.instances.insert ⟨4, .null, some "4-mysql_5.7_x64".toList⟩
      conf := [(Cli.php.confName, .null), (Cli.mysql.confName, .null),
        (Cli.pgsql.confName, .null)] } }

/-- Settings that choose a PHP and a MySQL instance. -/
def sampleForm : Form where
  proxyEnable := false
  proxyHost := []
  proxyPort := []
  proxyAuth := false
  proxyUser := []
  proxyPass := []
  editorPath := []
  phpInstanceId := 3
  mysqlInstanceId := 4
  pgsqlInstanceId := -1

theorem deployed_sampleEnv : Deployed Site.sampleEnv := by
  intro cli
  cases cli <;> decide

theorem allSettled_sampleMachine : AllSettled Site.sampleEnv sampleMachine := by
  intro cli
  left
  cases cli
  · exact ⟨by decide, rfl⟩
  · exact ⟨by decide, rfl⟩
  · exact ⟨by decide, rfl⟩

theorem keeps_sampleForm : Keeps Site.sampleEnv sampleMachine (.save sampleForm) := by
  intro cli instanceId hchosen
  cases cli with
  | php =>
      obtain rfl := Option.some.inj hchosen
      exact ⟨⟨3, .null, some "3-php_8.1.2_x64".toList⟩, _, by decide, rfl, by decide⟩
  | mysql =>
      obtain rfl := Option.some.inj hchosen
      exact ⟨⟨4, .null, some "4-mysql_5.7_x64".toList⟩, _, by decide, rfl, by decide⟩
  | pgsql => cases hchosen

/-- Two instances that are there are chosen. -/
theorem defaults_settled_chosen :
    AllSettled Site.sampleEnv (save Site.sampleEnv sampleForm sampleMachine) :=
  (defaults_settled Instance.sampleSqlite deployed_sampleEnv allSettled_sampleMachine
    (.snoc (.nil _) ⟨keeps_sampleForm, rfl⟩)).1

/-- The MySQL instance that was chosen is uninstalled, and its key and its junction
stay. -/
theorem mysql_default_dangles :
    ¬ ∀ requests m, Transition.Run (Step Site.sampleEnv Instance.sampleSqlite) sampleMachine
      requests m → AllSettled Site.sampleEnv m := by
  intro hclaim
  let request : Instance.UninstallRequest := ⟨⟨true, true, true, true⟩, 4, 0⟩
  let m₁ := save Site.sampleEnv sampleForm sampleMachine
  have hsaved : Step Site.sampleEnv Instance.sampleSqlite sampleMachine (.save sampleForm) m₁ :=
    rfl
  have hgone : Step Site.sampleEnv Instance.sampleSqlite m₁ (.instances (.uninstall request))
      (Instance.controlUninstall Site.sampleEnv request.found 4 0 m₁).state := rfl
  have hsettled : AllSettled Site.sampleEnv m₁ :=
    (allSettled_step_iff deployed_sampleEnv allSettled_sampleMachine hsaved).mpr keeps_sampleForm
  have hkeeps := (allSettled_step_iff deployed_sampleEnv hsettled hgone).mp
    (hclaim _ _ (.snoc (.snoc (.nil _) hsaved) hgone))
  have hthrough : GoesThrough request.found 4 0 .mysql m₁ := by decide +kernel
  have hdefault : m₁.db.get Cli.mysql.confName = some (.text (decimal 4)) := by
    rw [get_save]
    rfl
  obtain ⟨hcli, -⟩ := hkeeps .mysql hthrough .mysql hdefault
  cases hcli

end Settings

end WampManager
