/-
# Names that a directory can hold

Windows keeps some names for devices, some characters for itself and drops dots and
blanks behind a name, and the runtime refuses a name that it would change. A
directory is created with its ancestors as far as their names can be held.
-/

import WampManager.Lib.FilePath

namespace FilePath

/-- Characters that no name has. -/
def reservedChars : List Char := "<>:\"/\\|?*".toList

/-- The names of devices. -/
def devices : List Text :=
  ["con", "prn", "aux", "nul", "com1", "com2", "com3", "com4", "com5", "com6", "com7", "com8",
    "com9", "lpt1", "lpt2", "lpt3", "lpt4", "lpt5", "lpt6", "lpt7", "lpt8", "lpt9"].map
      String.toList

/-- A name stands for a device, whatever extension follows it. -/
def isDevice (s : Text) : Bool :=
  (Text.lower ((s.takeWhile (· ≠ '.')).rdropWhile (· == ' '))) ∈ devices

/-- The length of a name in the units that are counted. -/
def units (s : Text) : ℕ := s.length + s.countP fun c => 65536 ≤ c.toNat

/-- A name that a directory can hold. -/
def Holdable (s : Text) : Prop :=
  s ≠ [] ∧ units s ≤ 255 ∧ (∀ c ∈ s, 32 ≤ c.toNat ∧ c ∉ reservedChars) ∧
    s.getLast? ≠ some '.' ∧ s.getLast? ≠ some ' ' ∧ isDevice s = false

instance (s : Text) : Decidable (Holdable s) := inferInstanceAs (Decidable (_ ∧ _))

/-- A path as far as its names can be held. -/
def held (p : FilePath) : FilePath := p.takeWhile fun s => decide (Holdable s)

/-- The same behind a volume. -/
def heldFrom : FilePath → FilePath
  | [] => []
  | s :: p => if isVolume s then s :: held p else held (s :: p)

theorem held_eq_self_iff {p : FilePath} : held p = p ↔ ∀ s ∈ p, Holdable s := by
  rw [held, List.takeWhile_eq_self_iff]
  simp

end FilePath
