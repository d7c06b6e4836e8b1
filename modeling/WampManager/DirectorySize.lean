/-
# The size of a directory

The size of a directory is added up from what a pattern finds in it: a file counts with
its size, and for a directory the function calls itself. What the call returns is not
added, so the answer is about the files that lie in the directory itself. Integers have
32 bits: a file from 2 GiB on counts with what is left of its size, and a sum beyond the
integers goes on as a double, which is exact up to 2^53.
-/

import WampManager.Lib.Volume

namespace WampManager

namespace Util

/-! ## Numbers -/

/-- The double next to a whole number; halfway between two it is the even one. -/
def toDouble (n : ℤ) : ℤ :=
  let shift := n.natAbs.log2 - 52
  let kept := n.natAbs / 2 ^ shift
  let lost := n.natAbs % 2 ^ shift
  let kept := if 2 ^ shift < 2 * lost ∨ 2 * lost = 2 ^ shift ∧ kept % 2 = 1 then kept + 1 else kept
  n.sign * (kept * 2 ^ shift)

/-- Up to 2^53 every whole number is a double. -/
theorem toDouble_eq_self {n : ℤ} (h : n.natAbs ≤ 2 ^ 53) : toDouble n = n := by
  by_cases hlarge : n.natAbs = 2 ^ 53
  · have hshift : n.natAbs.log2 - 52 = 1 := by rw [hlarge]; rfl
    have hkept : toDouble n = n.sign * ((2 ^ 52 : ℕ) * 2 ^ 1 : ℕ) := by
      simp only [toDouble, hlarge]
      rfl
    rw [hkept, show (2 ^ 52 : ℕ) * 2 ^ 1 = n.natAbs by omega, Int.sign_mul_natAbs]
  · have hlog : n.natAbs.log2 - 52 = 0 := by
      by_cases hzero : n.natAbs = 0
      · rw [hzero]
        rfl
      · have hlt := (Nat.log2_lt hzero).mpr (show n.natAbs < 2 ^ 53 by omega)
        omega
    have hkept : toDouble n = n.sign * n.natAbs := by
      simp [toDouble, hlog, Nat.mod_one]
    rw [hkept, Int.sign_mul_natAbs]

variable (disk : Volume) (cwd : FilePath)

/-- `filesize($path)` with integers of 32 bits. -/
def filesize (p : FilePath) : ℤ := (disk.size p : ℤ).bmod (2 ^ 32)

/-! ## The calls -/

/-- `glob($directory.'/*')`. Where the directory has no pattern characters, each path is
the directory as it is written with a name behind. -/
def globIn (directory : Text) : List Text :=
  (disk.glob cwd (directory ++ "/*".toList)).map fun p =>
    directory ++ '/' :: p.getLast?.getD []

/-- `is_file($path) && $size += filesize($path)`. -/
def addFile (size : ℤ) (place : FilePath) : ℤ :=
  if disk.isFile place then toDouble (size + filesize disk place) else size

/-- The body of the loop, with the function that it calls for a directory. -/
def addPath (call : Text → Option ℤ) (size : ℤ) (path : Text) : Option ℤ :=
  let place := Listing.place cwd path
  let size := addFile disk size place
  -- the size of a directory is asked for and not added
  if disk.isDir place then (call path).map fun _ => size else some size

/-- `Util::get_dir_size`. The fuel bounds the depth of the calls; without it there is no
answer. -/
def getDirSize : ℕ → Text → Option ℤ
  | 0, _ => none
  | fuel + 1, directory =>
      (globIn disk cwd directory).foldlM (addPath disk cwd (getDirSize fuel)) 0

/-- A directory below which no name begins with a dot, and without pattern characters in
its path and in the names. -/
structure PlainTree (directory : Text) : Prop where
  given : directory ≠ []
  literal : Glob.Literal directory
  names : ∀ p ∈ disk.paths, Volume.below (Listing.place cwd directory) p = true →
    ∀ name ∈ p.drop (Listing.place cwd directory).length,
      name.head? ≠ some '.' ∧ Glob.Literal name

instance (directory : Text) : Decidable (PlainTree disk cwd directory) :=
  decidable_of_iff (directory ≠ [] ∧ Glob.Literal directory ∧
      ∀ p ∈ disk.paths, Volume.below (Listing.place cwd directory) p = true →
        ∀ name ∈ p.drop (Listing.place cwd directory).length,
          name.head? ≠ some '.' ∧ Glob.Literal name)
    ⟨fun ⟨hgiven, hliteral, hnames⟩ => ⟨hgiven, hliteral, hnames⟩,
      fun h => ⟨h.given, h.literal, h.names⟩⟩

/-- The calls end and the answer is the size of all files below the directory. -/
def SumsTree (directory : Text) : Prop :=
  ∃ enough, ∀ fuel ≥ enough, getDirSize disk cwd fuel directory =
    some (disk.treeSize (Listing.place cwd directory) : ℤ)

/-- Every file in the directory is smaller than 2 GiB, and the deeper files are empty. -/
structure CountedWhole (dir : FilePath) : Prop where
  small : ∀ name ∈ disk.entries dir, disk.size (dir ++ [name]) < 2 ^ 31
  empty : ∀ p ∈ disk.paths, Volume.below dir p.dropLast = true → disk.size p = 0

instance (dir : FilePath) : Decidable (CountedWhole disk dir) :=
  decidable_of_iff ((∀ name ∈ disk.entries dir, disk.size (dir ++ [name]) < 2 ^ 31) ∧
      ∀ p ∈ disk.paths, Volume.below dir p.dropLast = true → disk.size p = 0)
    ⟨fun ⟨hsmall, hempty⟩ => ⟨hsmall, hempty⟩, fun h => ⟨h.small, h.empty⟩⟩

variable {disk cwd}

/-! ## One directory -/

theorem PlainTree.of_mem_entries {directory name : Text} (h : PlainTree disk cwd directory)
    (hname : name ∈ disk.entries (Listing.place cwd directory)) :
    name.head? ≠ some '.' ∧ Glob.Literal name := by
  obtain ⟨init, hp, hlength, hbelow⟩ := Volume.exists_of_mem_entries hname
  exact h.names _ hp hbelow name (by simp [← hlength])

/-- In a plain tree everything is found, directory by directory. -/
theorem globIn_of_plainTree {directory : Text} (h : PlainTree disk cwd directory) :
    globIn disk cwd directory =
      (disk.entries (Listing.place cwd directory)).map fun name => directory ++ '/' :: name := by
  have hdots : ∀ name ∈ disk.entries (Listing.place cwd directory),
      decide (name.head? ≠ some '.') = true := fun name hname =>
    decide_eq_true (h.of_mem_entries hname).1
  have hglob := Listing.glob_append_star disk.toListing cwd h.given h.literal
  rw [List.filter_eq_self.mpr hdots] at hglob
  change (disk.glob cwd (directory ++ ['/', '*'])).map _ = _
  rw [hglob, List.map_map]
  exact List.map_congr_left fun name _ => by simp

/-- The directories in a plain tree are plain trees. -/
theorem PlainTree.entry {directory name : Text} (h : PlainTree disk cwd directory)
    (hname : name ∈ disk.entries (Listing.place cwd directory)) :
    PlainTree disk cwd (directory ++ '/' :: name) := by
  refine ⟨by simp, ?_, ?_⟩
  · intro c hc
    rcases List.mem_append.mp hc with hc | hc
    · exact h.literal c hc
    · rcases List.mem_cons.mp hc with rfl | hc
      · decide
      · exact (h.of_mem_entries hname).2 c hc
  · rw [Volume.place_entry cwd h.given hname]
    intro p hp hdeeper s hs
    refine h.names p hp (Volume.below_of_below_concat hdeeper) s ?_
    rw [List.length_append, List.length_singleton, ← List.drop_drop] at hs
    exact List.mem_of_mem_drop hs

/-- A loop whose steps all succeed. -/
theorem foldlM_some {α β : Type} {f : β → α → Option β} {g : β → α → β} {xs : List α}
    (h : ∀ x ∈ xs, ∀ b, f b x = some (g b x)) (b : β) : xs.foldlM f b = some (xs.foldl g b) := by
  induction xs generalizing b with
  | nil => rfl
  | cons x xs ih =>
      rw [List.foldlM_cons, h x List.mem_cons_self b, List.foldl_cons]
      exact ih (fun y hy => h y (List.mem_cons_of_mem x hy)) (g b x)

/-- With fuel for the depth of the tree the calls end, and the answer is about the files
in the directory itself. -/
theorem getDirSize_eq {fuel : ℕ} {directory : Text} (h : PlainTree disk cwd directory)
    (hfuel : 0 < fuel)
    (hdepth : ∀ p ∈ disk.paths, Volume.below (Listing.place cwd directory) p = true →
      p.length < (Listing.place cwd directory).length + fuel) :
    getDirSize disk cwd fuel directory =
      some ((disk.entries (Listing.place cwd directory)).foldl
        (fun size name => addFile disk size (Listing.place cwd directory ++ [name])) 0) := by
  induction fuel generalizing directory with
  | zero => cases hfuel
  | succ fuel ih =>
      have hstep : ∀ name ∈ disk.entries (Listing.place cwd directory), ∀ size,
          addPath disk cwd (getDirSize disk cwd fuel) size (directory ++ '/' :: name) =
            some (addFile disk size (Listing.place cwd directory ++ [name])) := by
        intro name hname size
        have hplace := Volume.place_entry cwd h.given hname
        obtain ⟨init, hp, hlength, hbelow⟩ := Volume.exists_of_mem_entries hname
        -- the name lies deeper than the directory, so fuel is left for a call
        have hshort := hdepth _ hp hbelow
        rw [List.length_append, List.length_singleton] at hshort
        have hcall := ih (h.entry hname) (by omega) fun p hp' hdeeper => by
          rw [hplace] at hdeeper ⊢
          have hbound := hdepth p hp' (Volume.below_of_below_concat hdeeper)
          rw [List.length_append, List.length_singleton]
          omega
        simp only [addPath, hplace, hcall, Option.map_some, ite_self]
      rw [getDirSize, globIn_of_plainTree h, List.foldlM_map, foldlM_some hstep]

/-- The longest path on a disk bounds the depth of the calls. -/
theorem exists_depth (disk : Volume) : ∃ depth, ∀ p ∈ disk.paths, p.length < depth := by
  induction disk.paths with
  | nil => exact ⟨0, fun p hp => absurd hp List.not_mem_nil⟩
  | cons q paths ih =>
      obtain ⟨depth, hdepth⟩ := ih
      refine ⟨max depth (q.length + 1), fun p hp => ?_⟩
      rcases List.mem_cons.mp hp with rfl | hp
      · omega
      · have hbound := hdepth p hp
        omega

/-- The calls end, always with what is added up for the directory itself. -/
theorem exists_getDirSize_eq {directory : Text} (h : PlainTree disk cwd directory) :
    ∃ enough, ∀ fuel ≥ enough, getDirSize disk cwd fuel directory =
      some ((disk.entries (Listing.place cwd directory)).foldl
        (fun size name => addFile disk size (Listing.place cwd directory ++ [name])) 0) := by
  obtain ⟨depth, hdepth⟩ := exists_depth disk
  refine ⟨depth + 1, fun fuel hfuel => getDirSize_eq h (by omega) fun p hp _ => ?_⟩
  have hbound := hdepth p hp
  omega

/-! ## The sum -/

theorem natAbs_filesize_le (disk : Volume) (p : FilePath) :
    (filesize disk p).natAbs ≤ disk.size p := by
  unfold filesize
  rw [Int.bmod_def]
  split <;> omega

/-- What a file counts too little. -/
def missing (disk : Volume) (p : FilePath) : ℕ := ((disk.size p : ℤ) - filesize disk p).toNat

theorem filesize_add_missing (disk : Volume) (p : FilePath) :
    filesize disk p + missing disk p = disk.size p := by
  have hle := natAbs_filesize_le disk p
  unfold missing
  omega

/-- A file counts whole if it is smaller than 2 GiB. -/
theorem missing_eq_zero_iff (p : FilePath) : missing disk p = 0 ↔ disk.size p < 2 ^ 31 := by
  unfold missing filesize
  rw [Int.bmod_def]
  split <;> omega

theorem addFile_eq {size : ℤ} {p : FilePath} (h : disk.present p = true)
    (hbound : size.natAbs + disk.size p ≤ 2 ^ 53) :
    addFile disk size p = size + filesize disk p := by
  have hle := natAbs_filesize_le disk p
  unfold addFile
  split
  · exact toDouble_eq_self (by omega)
  · rename_i hfile
    rw [Volume.size_of_not_isFile h ((Bool.not_eq_true _).mp hfile)] at hle
    omega

/-- As long as no sum passes 2^53, nothing is rounded. -/
theorem foldl_addFile {dir : FilePath} {names : List Text}
    (h : ∀ name ∈ names, disk.present (dir ++ [name]) = true) (size : ℤ)
    (hbound : size.natAbs + (names.map fun name => disk.size (dir ++ [name])).sum ≤ 2 ^ 53) :
    names.foldl (fun size name => addFile disk size (dir ++ [name])) size +
        (names.map fun name => missing disk (dir ++ [name])).sum =
      size + (names.map fun name => disk.size (dir ++ [name])).sum := by
  induction names generalizing size with
  | nil => simp only [List.foldl_nil, List.map_nil, List.sum_nil]
  | cons name names ih =>
      rw [List.map_cons, List.sum_cons] at hbound
      have hle := natAbs_filesize_le disk (dir ++ [name])
      have hwhole := filesize_add_missing disk (dir ++ [name])
      have hrest := ih (fun n hn => h n (List.mem_cons_of_mem name hn))
        (size + filesize disk (dir ++ [name])) (by omega)
      rw [List.foldl_cons, addFile_eq (h name List.mem_cons_self) (by omega), List.map_cons,
        List.map_cons, List.sum_cons, List.sum_cons]
      omega

/-- The answer is the size of the whole tree exactly if the files in the directory are
smaller than 2 GiB and the files below the directories in it are empty. -/
theorem sumsTree_iff {directory : Text} (h : PlainTree disk cwd directory)
    (hfit : disk.treeSize (Listing.place cwd directory) ≤ 2 ^ 53) :
    SumsTree disk cwd directory ↔ CountedWhole disk (Listing.place cwd directory) := by
  obtain ⟨enough, henough⟩ := exists_getDirSize_eq h
  have htree := disk.treeSize_eq (Listing.place cwd directory)
  have hsum := @foldl_addFile disk (Listing.place cwd directory) _
    (fun name hname => Listing.present_of_mem_entries hname) 0 (by
      change 0 + disk.directSize _ ≤ _
      omega)
  change _ = 0 + (disk.directSize (Listing.place cwd directory) : ℤ) at hsum
  set answer := (disk.entries (Listing.place cwd directory)).foldl
    (fun size name => addFile disk size (Listing.place cwd directory ++ [name])) 0
  have hanswer : SumsTree disk cwd directory ↔
      answer = disk.treeSize (Listing.place cwd directory) := by
    constructor
    · rintro ⟨enough', hsums⟩
      have hdirect := henough (max enough enough') (le_max_left _ _)
      rw [hsums _ (le_max_right _ _)] at hdirect
      exact (Option.some.inj hdirect).symm
    · intro hsame
      exact ⟨enough, fun fuel hfuel => hsame ▸ henough fuel hfuel⟩
  have hmissing : ((disk.entries (Listing.place cwd directory)).map fun name =>
      missing disk (Listing.place cwd directory ++ [name])).sum = 0 ↔
        ∀ name ∈ disk.entries (Listing.place cwd directory),
          disk.size (Listing.place cwd directory ++ [name]) < 2 ^ 31 := by
    rw [List.sum_eq_zero_iff_forall_eq_nat]
    simp only [List.forall_mem_map, missing_eq_zero_iff]
  calc SumsTree disk cwd directory
      ↔ answer = disk.treeSize (Listing.place cwd directory) := hanswer
    _ ↔ ((disk.entries (Listing.place cwd directory)).map fun name =>
          missing disk (Listing.place cwd directory ++ [name])).sum = 0 ∧
        disk.deepSize (Listing.place cwd directory) = 0 := by omega
    _ ↔ CountedWhole disk (Listing.place cwd directory) := by
        rw [hmissing, Volume.deepSize_eq_zero_iff]
        exact ⟨fun ⟨hsmall, hempty⟩ => ⟨hsmall, hempty⟩, fun h => ⟨h.small, h.empty⟩⟩

/-- A page of 5 bytes with a picture of 7 bytes in a directory beside it, and a page of 9
bytes with an empty file in a directory beside it. -/
def gallery : Volume where
  paths := [["C:".toList], ["C:".toList, "www".toList],
    ["C:".toList, "www".toList, "index.php".toList],
    ["C:".toList, "www".toList, "img".toList],
    ["C:".toList, "www".toList, "img".toList, "logo.png".toList],
    ["C:".toList, "docs".toList], ["C:".toList, "docs".toList, "index.html".toList],
    ["C:".toList, "docs".toList, "cache".toList],
    ["C:".toList, "docs".toList, "cache".toList, "empty.txt".toList]]
  named := by decide
  parents := by decide
  fileSize := fun p =>
    if p = ["c:".toList, "www".toList, "index.php".toList] then some 5
    else if p = ["c:".toList, "www".toList, "img".toList, "logo.png".toList] then some 7
    else if p = ["c:".toList, "docs".toList, "index.html".toList] then some 9
    else if p = ["c:".toList, "docs".toList, "cache".toList, "empty.txt".toList] then some 0
    else none
  holders := by decide
  volumes := by decide

/-- The deeper file of the second page is empty. -/
theorem gallery_docs_sums : SumsTree gallery ["C:".toList] "C:\\docs".toList :=
  (sumsTree_iff (by decide) (by decide)).mpr (by decide)

/-- The picture is missing from the size of the directory above. -/
theorem logo_not_counted :
    ¬ ∀ disk cwd directory, PlainTree disk cwd directory → SumsTree disk cwd directory := by
  intro hsums
  have hplain : PlainTree gallery ["C:".toList] "C:\\www".toList := by decide
  obtain ⟨enough, henough⟩ := exists_getDirSize_eq hplain
  obtain ⟨enough', hsum⟩ := hsums _ _ _ hplain
  have hdirect := henough (max enough enough') (le_max_left _ _)
  rw [hsum _ (le_max_right _ _)] at hdirect
  exact absurd (Option.some.inj hdirect) (by decide)

end Util

end WampManager
