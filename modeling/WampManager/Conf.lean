/-
# Reading the conf table back

The conf table is meant as a map from names to values. Its writers are updates,
which do not create rows, and the developer mode is switched off by deleting its
row. The table reads as the map as long as every write finds its row.
-/

import Mathlib.Logic.Function.Basic
import WampManager.Settings

namespace WampManager

namespace Conf

open Settings (Form checked stored)

/-! ## Writers -/

/-- The row of the developer mode. -/
def devName : Text := "dev".toList

/-- A call of `set`, or `DevController::toggle`. -/
inductive Call
  | set (name : Text) (value : SqlValue)
  | toggle

/-- The row that a call writes. -/
def Call.name : Call → Text
  | .set name _ => name
  | .toggle => devName

/-- The value of a read is not false. -/
def on (value : Option SqlValue) : Bool := value.any fun value => Loose.truthy value.toText

/-- What the driver stores for `true`. -/
def yes : SqlValue := (SqlValue.int 1).asText

/-- `DELETE FROM conf WHERE name=?`. -/
def delete (db : Database) (name : Text) : Database :=
  { db with conf := db.conf.filter fun row => row.1 ≠ name }

/-- `DevController::toggle`. -/
def toggle (db : Database) : Database :=
  if on (db.get devName) then delete db devName else db.set devName yes

def step (db : Database) : Call → Database
  | .set name value => db.set name value
  | .toggle => toggle db

def run (db : Database) (calls : List Call) : Database := calls.foldl step db

/-- The calls of `SettingsController::save`. `DevController::version` and the uninstall of a PHP
version are single calls of `set`. -/
def saveCalls (form : Form) : List Call :=
  [.set "proxy_enable".toList (checked form.proxyEnable),
    .set "proxy_host".toList (.text form.proxyHost),
    .set "proxy_port".toList (.text form.proxyPort),
    .set "proxy_auth".toList (checked form.proxyAuth),
    .set "proxy_user".toList (.text form.proxyUser),
    .set "proxy_pass".toList (.text form.proxyPass),
    .set "editor_path".toList (.text form.editorPath),
    .set (Settings.Cli.confName .php) (stored (form.chosen .php)),
    .set (Settings.Cli.confName .mysql) (stored (form.chosen .mysql)),
    .set (Settings.Cli.confName .pgsql) (stored (form.chosen .pgsql))]

/-! ## The table as a map -/

/-- What was written last for each name. -/
abbrev Memory := Text → Option SqlValue

def Memory.step (memory : Memory) : Call → Memory
  | .set name value => Function.update memory name (some value)
  | .toggle => Function.update memory devName (if on (memory devName) then none else some yes)

def Memory.run (memory : Memory) (calls : List Call) : Memory := calls.foldl Memory.step memory

/-- After every call the table reads as what was written last, and every toggle switches. -/
structure ReadsBack (db : Database) (calls : List Call) : Prop where
  value : ∀ front, front <+: calls → (run db front).get = Memory.run db.get front
  switches : ∀ front, front ++ [.toggle] <+: calls →
    on ((run db (front ++ [.toggle])).get devName) = !on ((run db front).get devName)

/-- Every call finds the row that it writes. -/
def FindsRows : Database → List Call → Prop
  | _, [] => True
  | db, call :: calls => (db.get call.name).isSome = true ∧ FindsRows (step db call) calls

variable {db : Database}

/-- A save is its calls, but for the junctions. -/
theorem db_save (env : Env) (form : Form) (m : Machine) :
    (Settings.save env form m).db = run m.db (saveCalls form) := by
  show Settings.saveDefaults form (Settings.link env form .pgsql _).db = _
  rw [Settings.db_link, Settings.db_link, Settings.db_link, Settings.db_unlink,
    Settings.db_unlink, Settings.db_unlink]
  rfl

/-! ## One call -/

theorem get_delete (db : Database) (name : Text) :
    (delete db name).get = Function.update db.get name none := by
  funext other
  unfold delete Database.get
  induction db.conf with
  | nil => by_cases h : other = name <;> simp [h]
  | cons row conf ih =>
      by_cases hrow : row.1 = name
      · rw [List.filter_cons_of_neg (by simpa using hrow), ih]
        by_cases h : other = name
        · simp [h]
        · have hne : (row.1 == other) = false :=
            beq_eq_false_iff_ne.mpr fun heq => h (heq.symm.trans hrow)
          rw [Function.update_of_ne h, Function.update_of_ne h, List.find?_cons, hne]
      · rw [List.filter_cons_of_pos (by simpa using hrow), List.find?_cons]
        by_cases h : row.1 = other
        · have hne : other ≠ name := fun heq => hrow (h.trans heq)
          rw [Function.update_of_ne hne, List.find?_cons, beq_iff_eq.mpr h]
        · have hne : (row.1 == other) = false := beq_eq_false_iff_ne.mpr h
          rw [hne, ih]
          by_cases heq : other = name
          · rw [heq, Function.update_self, Function.update_self]
          · rw [Function.update_of_ne heq, Function.update_of_ne heq, List.find?_cons, hne]

/-- A write is read back exactly if its row is there. -/
theorem get_set_eq_iff (name : Text) (value : SqlValue) :
    (db.set name value).get = Function.update db.get name (some value) ↔
      (db.get name).isSome = true := by
  constructor
  · intro h
    have hself := congrFun h name
    rw [Database.get_set_self, Function.update_self] at hself
    cases hget : db.get name with
    | none =>
        rw [hget] at hself
        cases hself
    | some _ => rfl
  · intro h
    funext other
    by_cases heq : other = name
    · obtain ⟨old, hold⟩ := Option.isSome_iff_exists.mp h
      rw [heq, Database.get_set_self, Function.update_self, hold, Option.map_some]
    · rw [Database.get_set_of_ne _ _ heq, Function.update_of_ne heq]

theorem isSome_of_on {value : Option SqlValue} (h : on value = true) : value.isSome = true := by
  cases value with
  | none => cases h
  | some _ => rfl

theorem get_step_eq_iff (call : Call) :
    (step db call).get = Memory.step db.get call ↔ (db.get call.name).isSome = true := by
  cases call with
  | set name value => exact get_set_eq_iff name value
  | toggle =>
      show (toggle db).get = Function.update db.get devName _ ↔ _
      unfold toggle
      cases h : on (db.get devName) with
      | true => exact iff_of_true (get_delete db devName) (isSome_of_on h)
      | false => exact get_set_eq_iff devName yes

theorem on_toggle (h : (db.get devName).isSome = true) :
    on ((toggle db).get devName) = !on (db.get devName) := by
  have hget := congrFun ((get_step_eq_iff .toggle).mpr h) devName
  rw [Memory.step, Function.update_self] at hget
  show on ((step db .toggle).get devName) = _
  rw [hget]
  cases on (db.get devName) <;> rfl

/-! ## Runs -/

theorem readsBack_cons_iff {call : Call} {calls : List Call} :
    ReadsBack db (call :: calls) ↔
      (db.get call.name).isSome = true ∧ ReadsBack (step db call) calls := by
  constructor
  · intro h
    have hfirst : (step db call).get = Memory.step db.get call :=
      h.value [call] (List.cons_prefix_cons.mpr ⟨rfl, List.nil_prefix⟩)
    refine ⟨(get_step_eq_iff call).mp hfirst, fun front hfront => ?_, fun front hfront => ?_⟩
    · have hvalue := h.value (call :: front) (List.cons_prefix_cons.mpr ⟨rfl, hfront⟩)
      rw [hfirst]
      exact hvalue
    · exact h.switches (call :: front) (List.cons_prefix_cons.mpr ⟨rfl, hfront⟩)
  · rintro ⟨hrow, h⟩
    have hfirst := (get_step_eq_iff call).mpr hrow
    refine ⟨fun front hfront => ?_, fun front hfront => ?_⟩
    · cases front with
      | nil => rfl
      | cons first front =>
          obtain ⟨rfl, hrest⟩ := List.cons_prefix_cons.mp hfront
          have hvalue := h.value front hrest
          rw [hfirst] at hvalue
          exact hvalue
    · cases front with
      | nil =>
          obtain ⟨rfl, -⟩ := List.cons_prefix_cons.mp hfront
          exact on_toggle hrow
      | cons first front =>
          obtain ⟨rfl, hrest⟩ := List.cons_prefix_cons.mp hfront
          exact h.switches front hrest

/-- The table reads back what was written exactly in the runs whose calls all find their rows. -/
theorem readsBack_iff_findsRows (calls : List Call) : ReadsBack db calls ↔ FindsRows db calls := by
  induction calls generalizing db with
  | nil =>
      refine iff_of_true ⟨fun front hfront => ?_, fun front hfront => ?_⟩ trivial
      · rw [List.prefix_nil.mp hfront]
        rfl
      · simp at hfront
  | cons call calls ih => rw [readsBack_cons_iff, ih, FindsRows]

theorem isSome_get_set (name other : Text) (value : SqlValue) :
    ((db.set name value).get other).isSome = (db.get other).isSome := by
  by_cases h : other = name
  · rw [h, Database.get_set_self, Option.isSome_map]
  · rw [Database.get_set_of_ne _ _ h]

/-- Writes alone need the rows that they began with. -/
theorem findsRows_sets_iff (writes : List (Text × SqlValue)) :
    FindsRows db (writes.map fun write => .set write.1 write.2) ↔
      ∀ write ∈ writes, (db.get write.1).isSome = true := by
  induction writes generalizing db with
  | nil => simp [FindsRows]
  | cons write writes ih =>
      rw [List.forall_mem_cons, List.map_cons, FindsRows, ih]
      refine and_congr_right fun _ => forall₂_congr fun other _ => ?_
      rw [step, isSome_get_set]

/-- The bundled table has no row for the developer mode, so it is never switched on. -/
theorem developer_mode_stays_off : ¬ ReadsBack
    { Database.empty with conf := [("version".toList, .text "3.2.0".toList)] } [.toggle] := by
  intro h
  exact absurd (h.switches [] (List.prefix_refl _)) (by decide +kernel)

end Conf

end WampManager
