/-
# Sizes below a directory

A disk on which files have sizes. What lies below a directory lies in it or deeper,
and the sizes below it are the sizes in it and the deeper ones.
-/

import Mathlib.Algebra.BigOperators.Group.List.Basic
import Mathlib.Algebra.GroupWithZero.Nat
import WampManager.Lib.Listing

/-- A disk with the sizes of its files. -/
structure Volume extends Listing where
  /-- The size of the file with a folded path, if there is one. -/
  fileSize : FilePath → Option ℕ
  /-- What something lies in is no file. -/
  holders : ∀ p ∈ paths, fileSize (p.dropLast.map Text.lower) = none
  /-- Only a volume has a name that ends in a colon. -/
  volumes : ∀ p ∈ paths, ∀ s ∈ p.tail, FilePath.isVolume s = false

namespace Volume

/-! ## Definitions -/

variable (disk : Volume)

/-- The size of the file at a path; whatever is no file has none. -/
def size (p : FilePath) : ℕ := (disk.fileSize (p.map Text.lower)).getD 0

/-- Is there a file at a path? -/
def isFile (p : FilePath) : Bool := disk.present p && (disk.fileSize (p.map Text.lower)).isSome

/-- Is there a directory at a path? -/
def isDir (p : FilePath) : Bool := disk.present p && (disk.fileSize (p.map Text.lower)).isNone

/-- Does a path lie below a directory, at any depth? -/
def below (dir p : FilePath) : Bool :=
  decide (dir.length < p.length) && (dir.map Text.lower).isPrefixOf (p.map Text.lower)

/-- The sizes of the files in a directory. -/
def directSize (dir : FilePath) : ℕ :=
  ((disk.entries dir).map fun name => disk.size (dir ++ [name])).sum

/-- The sizes of the files below a directory. -/
def treeSize (dir : FilePath) : ℕ := ((disk.paths.filter (below dir)).map disk.size).sum

/-- The sizes of the files below the directories in a directory. -/
def deepSize (dir : FilePath) : ℕ :=
  ((disk.paths.filter fun p => below dir p.dropLast).map disk.size).sum

/-! ## Below a directory -/

variable {disk}

theorem below_iff {dir p : FilePath} :
    below dir p = true ↔ dir.length < p.length ∧ dir.map Text.lower <+: p.map Text.lower := by
  rw [below, Bool.and_eq_true, decide_eq_true_iff, List.isPrefixOf_iff_prefix]

theorem length_eq_of_folded {p q : FilePath} (h : p.map Text.lower = q.map Text.lower) :
    p.length = q.length := by
  simpa using congrArg List.length h

/-- What is below a directory is in it or below something in it, and not both. -/
theorem below_concat (dir init : FilePath) (name : Text) :
    below dir (init ++ [name]) = true ↔
      init.map Text.lower = dir.map Text.lower ∨ below dir init = true := by
  rw [below_iff, below_iff, List.map_append, List.length_append]
  constructor
  · rintro ⟨hlength, hbegin⟩
    have hinit : dir.map Text.lower <+: init.map Text.lower :=
      List.prefix_of_prefix_length_le hbegin (List.prefix_append _ _) (by
        simpa using Nat.le_of_lt_succ hlength)
    by_cases hsame : dir.length < init.length
    · exact .inr ⟨hsame, hinit⟩
    · refine .inl (hinit.eq_of_length_le ?_).symm
      simpa using hsame
  · rintro (hsame | ⟨hlength, hbegin⟩)
    · exact ⟨by simp [length_eq_of_folded hsame], hsame ▸ List.prefix_append _ _⟩
    · exact ⟨by simp; omega, hbegin.trans (List.prefix_append _ _)⟩

theorem not_below_of_same {dir p : FilePath} (h : p.map Text.lower = dir.map Text.lower) :
    below dir p = false := by
  have hlength := length_eq_of_folded h
  rw [← Bool.not_eq_true, below_iff]
  omega

theorem below_of_below_concat {dir p : FilePath} {name : Text}
    (h : below (dir ++ [name]) p = true) : below dir p = true := by
  obtain ⟨hlength, hbegin⟩ := below_iff.mp h
  rw [List.map_append] at hbegin
  rw [List.length_append, List.length_singleton] at hlength
  exact below_iff.mpr ⟨by omega, (List.prefix_append _ _).trans hbegin⟩

/-- The names in a directory are the last steps of paths below it. -/
theorem exists_of_mem_entries {dir : FilePath} {name : Text} (h : name ∈ disk.entries dir) :
    ∃ init, init ++ [name] ∈ disk.paths ∧ init.length = dir.length ∧
      below dir (init ++ [name]) = true := by
  obtain ⟨p, hp, hdir, hlast⟩ := Listing.mem_entries.mp h
  obtain ⟨init, rfl⟩ := List.getLast?_eq_some_iff.mp hlast
  rw [List.dropLast_concat] at hdir
  exact ⟨init, hp, length_eq_of_folded hdir, (below_concat dir init name).mpr (.inl hdir)⟩

/-- Only files have a size. -/
theorem size_of_not_isFile {p : FilePath} (h : disk.present p = true)
    (hfile : disk.isFile p = false) : disk.size p = 0 := by
  unfold isFile at hfile
  rw [h, Bool.true_and, Option.isSome_eq_false_iff, Option.isNone_iff_eq_none] at hfile
  rw [size, hfile, Option.getD_none]

/-- A name in a directory, put behind its path text. -/
theorem place_entry (cwd : FilePath) {directory name : Text} (hne : directory ≠ [])
    (h : name ∈ disk.entries (Listing.place cwd directory)) :
    Listing.place cwd (directory ++ '/' :: name) = Listing.place cwd directory ++ [name] := by
  obtain ⟨init, hp, hlength, -⟩ := exists_of_mem_entries h
  obtain ⟨hname, hordinary, hsep⟩ := disk.named _ hp name (by simp)
  refine Listing.place_append_name cwd hne hname hsep hordinary fun hvolume => ?_
  cases init with
  | nil => exact List.length_eq_zero_iff.mp hlength.symm
  | cons s init =>
      have hnot := disk.volumes _ hp name (by simp)
      rw [hvolume] at hnot
      cases hnot

/-! ## The sizes -/

/-- The sizes below a directory are those in it and the deeper ones. -/
theorem treeSize_eq (disk : Volume) (dir : FilePath) :
    disk.treeSize dir = disk.directSize dir + disk.deepSize dir := by
  unfold treeSize directSize deepSize Listing.entries
  induction disk.paths with
  | nil => rfl
  | cons p paths ih =>
      rcases List.eq_nil_or_concat p with rfl | ⟨init, name, rfl⟩
      · have hroot : below dir [] = false := by simp [below]
        simpa [hroot] using ih
      · have hbelow := below_concat dir init name
        by_cases hsame : init.map Text.lower = dir.map Text.lower
        · have hnot := not_below_of_same hsame
          have hsize : disk.size (init ++ [name]) = disk.size (dir ++ [name]) := by
            rw [size, size, List.map_append, List.map_append, hsame]
          simp [hsame, hnot, hbelow.mpr (.inl hsame), ih, hsize, Nat.add_assoc]
        · by_cases hdeep : below dir init = true
          · simp [hsame, hdeep, hbelow.mpr (.inr hdeep), ih, Nat.add_left_comm]
          · have hnot : below dir (init ++ [name]) = false := by
              rw [← Bool.not_eq_true, hbelow]
              exact fun hor => hor.elim hsame hdeep
            simp [hsame, hdeep, hnot, ih]

/-- Nothing lies deeper exactly if all deeper files are empty. -/
theorem deepSize_eq_zero_iff {dir : FilePath} :
    disk.deepSize dir = 0 ↔ ∀ p ∈ disk.paths, below dir p.dropLast = true → disk.size p = 0 := by
  rw [deepSize, List.sum_eq_zero_iff_forall_eq_nat]
  simp only [List.forall_mem_map, List.mem_filter, and_imp]

end Volume
