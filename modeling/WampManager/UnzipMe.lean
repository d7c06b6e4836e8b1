/-
# Unpacking an archive

`UnzipMe::unzip` extracts entry after entry into a temporary directory and
moves each to the destination, with its first path segments stripped. Target
directories are created for directory entries only, an entry that cannot be
extracted or moved is not noticed, and the temporary directory is deleted at the
end, so a file whose directory comes later or not at all is lost, and so is one
whose name Windows cannot hold or takes for another. What must hold of the archive
and of the destination for nothing to be lost is worked out here.
-/

import WampManager.Lib.Drive
import WampManager.Lib.FileName

namespace WampManager

namespace UnzipMe

universe u

variable {κ : Type u}

/-- An entry of an archive. Names never climb. -/
structure Entry (κ : Type u) where
  name : Text
  content : κ
  noClimb : ['.', '.'] ∉ FilePath.segments name

/-- What `ZipArchive::open` makes of a file. -/
inductive Archive (κ : Type u)
  | opened (entries : List (Entry κ))
  | failed (code : ℤ) (nonzero : code ≠ 0)

/-- The value `ZipArchive::open` returns, with true as one. -/
def Archive.openResult : Archive κ → ℤ
  | .opened _ => 1
  | .failed code _ => code

/-- The entries that `numFiles` counts. -/
def Archive.entries : Archive κ → List (Entry κ)
  | .opened entries => entries
  | .failed _ _ => []

/-- The constructor: it throws if the result counts as false. -/
def construct (archive : Archive κ) : Except Text (List (Entry κ)) :=
  if archive.openResult = 0 then .error "Whitney Houston, we have a problem...".toList
  else .ok archive.entries

/-- The segments `explode` gives. -/
def explode (name : Text) : List Text := name.splitOn '/'

/-- The name without its first segments. -/
def stripped (strip : ℕ) (name : Text) : Text :=
  ['/'].intercalate ((explode name).drop strip)

/-- A directory entry ends in a slash. -/
def Entry.isDirectory (e : Entry κ) : Bool := e.name = [] || e.name.getLast? = some '/'

/-- Windows takes a name that ends in either slash for a directory. -/
def Entry.asDirectory (e : Entry κ) : Bool :=
  e.name = [] || e.name.getLast?.any FilePath.isSep

/-- Is an entry extracted at all? -/
def Extracted (strip : ℕ) (e : Entry κ) : Prop := strip < (explode e.name).length

instance (strip : ℕ) (e : Entry κ) : Decidable (Extracted strip e) :=
  inferInstanceAs (Decidable (_ < _))

/-- The temporary directory, as a tree of its own, and the disk. -/
structure Work (κ : Type u) where
  tmp : FileTree κ
  disk : FileTree κ

/-- `extractTo` for one entry: the directories on its way, as far as their names can
be held, and the file, if its name can. -/
def extractTo (e : Entry κ) (tmp : FileTree κ) : FileTree κ :=
  let path := Drive.key e.name
  if e.asDirectory then tmp.mkdirs (FilePath.held path)
  else
    let tmp := tmp.mkdirs (FilePath.held path.dropLast)
    if FilePath.held path = path then tmp.write path e.content else tmp

/-- `rename` from the temporary directory to the disk. Where nothing is yet, a name
that cannot be held is refused. -/
def rename (p q : FilePath) (w : Work κ) : Work κ :=
  if FilePath.heldFrom q = q ∨ (w.disk.node q).isSome then
    let (tmp, disk) := w.disk.rename w.tmp p q
    ⟨tmp, disk⟩
  else w

/-- One round of the loop. -/
def place (dest : Text) (strip : ℕ) (w : Work κ) (e : Entry κ) : Work κ :=
  if (explode e.name).length ≤ strip then w
  else
    let stripped := stripped strip e.name
    let w := { w with tmp := extractTo e w.tmp }
    let dir := dest ++ '\\' :: FilePath.dirname stripped
    let file := FilePath.basename stripped
    let w :=
      if stripped.getLast? = some '/' then
        { w with
          disk := w.disk.mkdirs (FilePath.heldFrom (Drive.key (dest ++ '\\' :: stripped))) }
      else w
    if file.length ≠ 0 then rename (Drive.key e.name) (Drive.key (dir ++ '\\' :: file)) w
    else w

/-- The destination is created if it is not there. -/
def prepare (dest : Text) (disk : FileTree κ) : FileTree κ :=
  if disk.isDir (Drive.key dest) then disk
  else disk.mkdirs (FilePath.heldFrom (Drive.key dest))

/-- The rounds of the loop. -/
def rounds (dest : Text) (strip : ℕ) (entries : List (Entry κ)) (disk : FileTree κ) : Work κ :=
  entries.foldl (place dest strip) ⟨.empty, disk⟩

/-- `unzip`, without a match filter; cleaning up leaves the disk. -/
def unzip (archive : Archive κ) (dest : Text) (strip : ℕ) (disk : FileTree κ) :
    Except Text (FileTree κ) :=
  (construct archive).map fun entries => (rounds dest strip entries (prepare dest disk)).disk

/-! ## What should come out -/

/-- Where an entry belongs. -/
def target (dest : Text) (strip : ℕ) (e : Entry κ) : FilePath :=
  Drive.key (dest ++ '\\' :: stripped strip e.name)

/-- A file entry that is extracted. -/
def IsFile (strip : ℕ) (e : Entry κ) : Prop := Extracted strip e ∧ e.isDirectory = false

/-- A directory entry with something left behind the stripped segments. -/
def Makes (strip : ℕ) (e : Entry κ) : Prop :=
  Extracted strip e ∧ (stripped strip e.name).getLast? = some '/'

instance (strip : ℕ) (e : Entry κ) : Decidable (IsFile strip e) :=
  inferInstanceAs (Decidable (_ ∧ _))

instance (strip : ℕ) (e : Entry κ) : Decidable (Makes strip e) :=
  inferInstanceAs (Decidable (_ ∧ _))

/-- Every file is at its place. -/
def AllPlaced (dest : Text) (strip : ℕ) (entries : List (Entry κ)) (disk : FileTree κ) : Prop :=
  ∀ e ∈ entries, IsFile strip e → disk.fileAt (target dest strip e) = some e.content

theorem stripped_zero (name : Text) : stripped 0 name = name := by
  rw [stripped, List.drop_zero, explode, List.intercalate_splitOn]

/-- Stripping cuts segments off the front, each with its slash. -/
theorem stripped_spec {strip : ℕ} {name : Text} (h : strip < (explode name).length) :
    ∃ front, front ++ stripped strip name = name ∧
      (front = [] ∨ front.getLast? = some '/') := by
  induction strip generalizing name with
  | zero => exact ⟨[], stripped_zero name, .inl rfl⟩
  | succ strip ih =>
      have hslash : '/' ∈ name := by
        by_contra hnone
        rw [explode, List.splitOn_eq_singleton hnone, List.length_singleton] at h
        omega
      obtain ⟨first, back, rfl, hfirst⟩ := List.eq_append_cons_of_mem hslash
      have hexplode : explode (first ++ '/' :: back) = first :: explode back := by
        rw [explode, List.splitOn_append_cons_self_of_not_mem hfirst, explode]
      rw [hexplode, List.length_cons] at h
      obtain ⟨front, hfront, hend⟩ := ih (Nat.lt_of_succ_lt_succ h)
      have hback : stripped (strip + 1) (first ++ '/' :: back) = stripped strip back := by
        rw [stripped, hexplode, List.drop_succ_cons, stripped]
      refine ⟨first ++ '/' :: front, by rw [hback, List.append_assoc, List.cons_append, hfront],
        .inr ?_⟩
      rcases hend with rfl | hend
      · simp
      · simp [List.getLast?_cons, hend]

section

variable {dest : Text} {strip : ℕ} {e : Entry κ} {w : Work κ}

theorem segments_stripped_subset (h : Extracted strip e) :
    FilePath.segments (stripped strip e.name) ⊆ FilePath.segments e.name := by
  obtain ⟨front, hfront, hend⟩ := stripped_spec h
  rcases hend with rfl | hend
  · rw [List.nil_append] at hfront
    rw [hfront]
    exact fun s hs => hs
  · obtain ⟨init, rfl⟩ := List.getLast?_eq_some_iff.mp hend
    have hsegments : FilePath.segments e.name =
        FilePath.segments init ++ FilePath.segments (stripped strip e.name) := by
      conv => lhs; rw [← hfront]
      rw [List.append_assoc, List.singleton_append, FilePath.segments_append_sep _ _ (by decide)]
    rw [hsegments]
    exact List.subset_append_right _ _

/-- An entry belongs at or below the destination. -/
theorem dest_isPrefix_target (h : Extracted strip e) : Drive.key dest <+: target dest strip e := by
  rw [target, Drive.key, Drive.key, FilePath.resolve_append_sep _ _ (by decide)]
  refine (FilePath.isPrefix_foldl_push (fun hup => e.noClimb ?_) _).map _
  exact segments_stripped_subset h hup

/-- A stripped path ends as the name does, unless nothing is left. -/
theorem getLast?_stripped (h : Extracted strip e) (hne : stripped strip e.name ≠ []) :
    (stripped strip e.name).getLast? = e.name.getLast? := by
  obtain ⟨front, hfront, -⟩ := stripped_spec h
  conv => rhs; rw [← hfront]
  rw [List.getLast?_append, List.getLast?_eq_some_getLast hne]
  rfl

/-- Nothing is left of a directory only. -/
theorem stripped_ne_nil (h : IsFile strip e) : stripped strip e.name ≠ [] := by
  intro hnil
  obtain ⟨front, hfront, hend⟩ := stripped_spec h.1
  have hdir := h.2
  rw [hnil, List.append_nil] at hfront
  rw [hfront] at hend
  rcases hend with hend | hend <;> simp [Entry.isDirectory, hend] at hdir

theorem not_makes_of_isFile (h : IsFile strip e) : ¬ Makes strip e := by
  intro hmakes
  have hdir := h.2
  have hlast := hmakes.2
  rw [getLast?_stripped h.1 (stripped_ne_nil h)] at hlast
  simp [Entry.isDirectory, hlast] at hdir

theorem asDirectory_of_isDirectory (h : e.isDirectory) : e.asDirectory := by
  have hcases : e.name = [] ∨ e.name.getLast? = some '/' := by simpa [Entry.isDirectory] using h
  rcases hcases with hname | hslash
  · simp [Entry.asDirectory, hname]
  · simp [Entry.asDirectory, hslash, FilePath.isSep]

/-- A file has a last component, unless Windows takes it for a directory. -/
theorem basename_ne_nil (h : IsFile strip e) (hname : e.asDirectory = false) :
    FilePath.basename (stripped strip e.name) ≠ [] := by
  have hne := stripped_ne_nil h
  have hsplit := List.dropLast_append_getLast hne
  have hlast := getLast?_stripped h.1 hne
  rw [List.getLast?_eq_some_getLast hne] at hlast
  have hsep : FilePath.isSep ((stripped strip e.name).getLast hne) = false := by
    rw [← Bool.not_eq_true]
    intro hend
    simp [Entry.asDirectory, ← hlast, hend] at hname
  rw [← hsplit, FilePath.basename_append _ (by simp) (by simpa using hsep)]
  simp

/-- The place that the move aims at is where the entry belongs. -/
theorem key_dirname_basename (dest : Text) (h : FilePath.basename (stripped strip e.name) ≠ []) :
    Drive.key (dest ++ '\\' :: FilePath.dirname (stripped strip e.name) ++
      '\\' :: FilePath.basename (stripped strip e.name)) = target dest strip e := by
  rw [Drive.key, FilePath.resolve_dirname_basename _ (by decide) h]
  rfl

/-! ## One round -/

theorem place_of_not_extracted (h : ¬ Extracted strip e) : place dest strip w e = w := by
  rw [place, if_pos (Nat.le_of_not_lt h)]

/-- A file is extracted and moved to its place, if it has a last component. -/
theorem place_of_isFile (h : IsFile strip e) :
    let extracted : Work κ := { w with tmp := extractTo e w.tmp }
    (e.asDirectory = true ∧ place dest strip w e = extracted) ∨
      place dest strip w e = rename (Drive.key e.name) (target dest strip e) extracted := by
  have hkind : (stripped strip e.name).getLast? ≠ some '/' := fun hlast =>
    not_makes_of_isFile h ⟨h.1, hlast⟩
  by_cases hname : FilePath.basename (stripped strip e.name) = []
  · left
    constructor
    · by_contra hdir
      exact basename_ne_nil h (by simpa using hdir) hname
    · simp [place, Nat.not_le.mpr h.1, hkind, hname]
  · right
    have hkey := key_dirname_basename dest hname
    have hlength : (FilePath.basename (stripped strip e.name)).length ≠ 0 :=
      fun hzero => hname (List.length_eq_zero_iff.mp hzero)
    simp only [place, if_neg (Nat.not_le.mpr h.1), if_neg hkind, if_pos hlength, hkey]

/-- Of a directory with nothing left only the extraction remains. -/
theorem place_of_not_makes (h : Extracted strip e) (hdir : e.isDirectory)
    (hmakes : ¬ Makes strip e) :
    place dest strip w e = { w with tmp := extractTo e w.tmp } := by
  have hnil : stripped strip e.name = [] := by
    by_contra hne
    have hlast := getLast?_stripped h hne
    have hcases : e.name = [] ∨ e.name.getLast? = some '/' := by
      simpa [Entry.isDirectory] using hdir
    rcases hcases with hname | hslash
    · have hnone : e.name.getLast? = none := by rw [hname, List.getLast?_nil]
      exact hne (List.getLast?_eq_none_iff.mp (hlast.trans hnone))
    · exact hmakes ⟨h, hlast.trans hslash⟩
  have hbase : FilePath.basename ([] : Text) = [] := rfl
  simp [place, Nat.not_le.mpr h, hnil, hbase]

/-- A directory is created at its place, and what lies at its name is moved there. -/
theorem place_of_makes (h : Makes strip e) :
    let made : Work κ :=
      ⟨extractTo e w.tmp, w.disk.mkdirs (FilePath.heldFrom (target dest strip e))⟩
    place dest strip w e = made ∨
      place dest strip w e = rename (Drive.key e.name) (target dest strip e) made := by
  by_cases hname : FilePath.basename (stripped strip e.name) = []
  · left
    simp [place, Nat.not_le.mpr h.1, h.2, hname, target]
  · right
    have hkey := key_dirname_basename dest hname
    have hlength : (FilePath.basename (stripped strip e.name)).length ≠ 0 :=
      fun hzero => hname (List.length_eq_zero_iff.mp hzero)
    simp only [place, if_neg (Nat.not_le.mpr h.1), if_pos h.2, if_pos hlength, hkey]
    rfl

end

/-! ## When nothing is lost -/

/-- The directory that extracting an entry makes below the temporary directory. -/
def made (e : Entry κ) : FilePath :=
  FilePath.held (if e.asDirectory then Drive.key e.name else (Drive.key e.name).dropLast)

/-- Windows takes the name for a file and can hold it. -/
def Named (e : Entry κ) : Prop :=
  e.asDirectory = false ∧ FilePath.held (Drive.key e.name) = Drive.key e.name

instance (e : Entry κ) : Decidable (Named e) := inferInstanceAs (Decidable (_ ∧ _))

/-- A file can be put at its place behind the entries before it. -/
structure Placeable (dest : Text) (strip : ℕ) (disk : FileTree κ) (before : List (Entry κ))
    (e : Entry κ) : Prop where
  /-- It can be extracted under its name. -/
  named : Named e
  /-- No entry before it needs a directory under its name. -/
  clear : Drive.key e.name ≠ [] ∧
    ∀ d ∈ before, Extracted strip d → ¬ Drive.key e.name <+: made d
  /-- Its place can be held, or is there. -/
  allowed : FilePath.heldFrom (target dest strip e) = target dest strip e ∨
    disk.node (target dest strip e) ≠ none
  /-- Its place is no directory and has not become one. -/
  free : disk.node (target dest strip e) ≠ some .dir ∧
    (disk.node (target dest strip e) = none → ∀ d ∈ before, Makes strip d →
      ¬ target dest strip e <+: FilePath.heldFrom (target dest strip d))
  /-- The directory around its place was there or came before it. -/
  parent : disk.node (target dest strip e).dropLast = some .dir ∨
    ∃ d ∈ before, Makes strip d ∧
      (target dest strip e).dropLast <+: FilePath.heldFrom (target dest strip d)
  /-- No file lies in the way there. -/
  unblocked : ∀ r, r <+: (target dest strip e).dropLast → disk.fileAt r = none ∧
    ∀ f ∈ before, IsFile strip f → target dest strip f ≠ r

/-- A file with its content is at the place already, or a file before it has that
place. -/
def AtPlace (dest : Text) (strip : ℕ) (disk : FileTree κ) (before : List (Entry κ))
    (e : Entry κ) : Prop :=
  disk.fileAt (target dest strip e) = some e.content ∨
    ∃ f ∈ before, IsFile strip f ∧ target dest strip f = target dest strip e

/-- Every file is at its place already or can be put there when its turn comes. -/
def InOrder (dest : Text) (strip : ℕ) (disk : FileTree κ) (entries : List (Entry κ)) : Prop :=
  ∀ before e after, entries = before ++ e :: after → IsFile strip e →
    AtPlace dest strip disk before e ∨ Placeable dest strip disk before e

/-- Files that Windows puts at one place have one content. -/
def Agree (dest : Text) (strip : ℕ) (entries : List (Entry κ)) : Prop :=
  ∀ d ∈ entries, ∀ e ∈ entries, IsFile strip d → IsFile strip e →
    target dest strip d = target dest strip e → d.content = e.content

/-- What holds after the files of a list of entries were all placed. -/
structure Unpacked (dest : Text) (strip : ℕ) (disk : FileTree κ) (entries : List (Entry κ))
    (w : Work κ) : Prop where
  /-- The temporary directory holds the directories of the entries. -/
  tmpDir : ∀ q, w.tmp.node q = some .dir ↔
    q = [] ∨ ∃ d ∈ entries, Extracted strip d ∧ q <+: made d
  /-- It holds no files. -/
  tmpFile : ∀ q, w.tmp.fileAt q = none
  /-- Every file is at its place. -/
  placed : AllPlaced dest strip entries w.disk
  /-- Other files are as they were. -/
  kept : ∀ q, (∀ f ∈ entries, IsFile strip f → target dest strip f ≠ q) →
    w.disk.fileAt q = disk.fileAt q
  /-- Directories were there or were made where no file is in the way. -/
  dirs : ∀ q, w.disk.node q = some .dir ↔ disk.node q = some .dir ∨
    ((∃ d ∈ entries, Makes strip d ∧ q <+: FilePath.heldFrom (target dest strip d)) ∧
      ∀ r, r <+: q → w.disk.fileAt r = none)

section

variable {dest : Text} {strip : ℕ} {disk : FileTree κ} {entries : List (Entry κ)}
  {e : Entry κ} {w : Work κ}

/-- Creating a directory among no files makes exactly its path. -/
theorem node_mkdirs_eq_dir_of_no_files {tmp : FileTree κ} (hfile : ∀ q, tmp.fileAt q = none)
    (p q : FilePath) : (tmp.mkdirs p).node q = some .dir ↔ tmp.node q = some .dir ∨ q <+: p := by
  rw [FileTree.node_mkdirs_eq_dir]
  simp [hfile]

/-- Extraction into a directory without files adds exactly the entry's directory. -/
theorem node_extractTo_eq_dir {tmp : FileTree κ} (hfile : ∀ q, tmp.fileAt q = none) (q : FilePath) :
    (extractTo e tmp).node q = some .dir ↔ tmp.node q = some .dir ∨ q <+: made e := by
  have hmkdirs := node_mkdirs_eq_dir_of_no_files hfile
  unfold extractTo made
  cases e.asDirectory with
  | true => exact hmkdirs _ _
  | false =>
      simp only [Bool.false_eq_true, if_false]
      split
      · rw [← FileTree.isDir_iff, FileTree.isDir_write, FileTree.isDir_iff]
        exact hmkdirs _ _
      · exact hmkdirs _ _

/-- A file is extracted where no directory is. -/
theorem fileAt_extractTo_self {tmp : FileTree κ} (hfile : ∀ q, tmp.fileAt q = none)
    (hnamed : Named e) (hdir : tmp.node (Drive.key e.name) ≠ some .dir) :
    (extractTo e tmp).fileAt (Drive.key e.name) = some e.content := by
  have hne : Drive.key e.name ≠ [] := fun hnil => hdir (hnil ▸ tmp.root_dir)
  have hmkdirs := node_mkdirs_eq_dir_of_no_files hfile
  have hparent : FilePath.held (Drive.key e.name).dropLast = (Drive.key e.name).dropLast := by
    rw [FilePath.held_eq_self_iff]
    exact fun s hs => FilePath.held_eq_self_iff.mp hnamed.2 s (List.dropLast_subset _ hs)
  have hlonger : ¬ Drive.key e.name <+: (Drive.key e.name).dropLast := by
    intro hbegin
    have hle := hbegin.length_le
    have hpos := List.length_pos_of_ne_nil hne
    rw [List.length_dropLast] at hle
    omega
  simp only [extractTo, hnamed.1, Bool.false_eq_true, if_false, if_pos hnamed.2, hparent]
  apply FileTree.fileAt_write_self
  refine ⟨hne, (hmkdirs _ _).mpr (.inr (List.prefix_refl _)), fun hnew => ?_⟩
  exact ((hmkdirs _ _).mp hnew).elim hdir hlonger

/-- Extraction adds a file at most at the entry's name. -/
theorem fileAt_extractTo_of_ne (tmp : FileTree κ) {q : FilePath} (hq : q ≠ Drive.key e.name) :
    (extractTo e tmp).fileAt q = tmp.fileAt q := by
  unfold extractTo
  simp only
  split
  · exact tmp.fileAt_mkdirs _ _
  · split
    · rw [FileTree.fileAt_write_of_ne _ hq, FileTree.fileAt_mkdirs]
    · exact tmp.fileAt_mkdirs _ _

/-- A name that is refused or stands for a directory leaves no file. -/
theorem fileAt_extractTo_of_stuck {tmp : FileTree κ} (hfile : ∀ q, tmp.fileAt q = none)
    (hstuck : ¬ Named e ∨ tmp.node (Drive.key e.name) = some .dir) (q : FilePath) :
    (extractTo e tmp).fileAt q = none := by
  by_cases hq : q = Drive.key e.name
  · subst hq
    unfold extractTo
    simp only
    split
    · rw [FileTree.fileAt_mkdirs, hfile]
    · next hname =>
        split
        · next hheld =>
            have hdir := hstuck.resolve_left (not_not_intro ⟨by simpa using hname, hheld⟩)
            rw [FileTree.write_of_not_writable]
            · rw [FileTree.fileAt_mkdirs, hfile]
            · intro hwritable
              exact hwritable.2.2 ((node_mkdirs_eq_dir_of_no_files hfile _ _).mpr (.inl hdir))
        · rw [FileTree.fileAt_mkdirs, hfile]
  · rw [fileAt_extractTo_of_ne _ hq, hfile]

namespace Unpacked

variable (h : Unpacked dest strip disk entries w)

include h

/-- The directories after extracting one more entry. -/
theorem tmpDir_extractTo (hx : Extracted strip e) (q : FilePath) :
    (extractTo e w.tmp).node q = some .dir ↔
      q = [] ∨ ∃ d ∈ entries ++ [e], Extracted strip d ∧ q <+: made d := by
  rw [node_extractTo_eq_dir h.tmpFile, h.tmpDir]
  simp [or_and_right, exists_or, hx, or_assoc]

/-- A skipped entry changes nothing. -/
theorem skip (hx : ¬ Extracted strip e) :
    Unpacked dest strip disk (entries ++ [e]) (place dest strip w e) := by
  have hfile : ¬ IsFile strip e := fun hf => hx hf.1
  have hmakes : ¬ Makes strip e := fun hm => hx hm.1
  rw [place_of_not_extracted hx]
  constructor
  · intro q
    simpa [or_and_right, exists_or, hx] using h.tmpDir q
  · exact h.tmpFile
  · intro f hf hff
    rcases List.mem_append.mp hf with hf | hf
    · exact h.placed f hf hff
    · exact absurd (List.mem_singleton.mp hf ▸ hff) hfile
  · intro q hq
    exact h.kept q fun f hf => hq f (List.mem_append_left _ hf)
  · intro q
    simpa [or_and_right, exists_or, hmakes] using h.dirs q

/-- A directory that was just attempted is not moved to its place. -/
theorem rename_directory {made : Work κ}
    (hmade : made = ⟨extractTo e w.tmp, w.disk.mkdirs (FilePath.heldFrom (target dest strip e))⟩)
    (hdir : e.isDirectory) : rename (Drive.key e.name) (target dest strip e) made = made := by
  subst hmade
  have hunnamed : ¬ Named e := fun hnamed =>
    absurd hnamed.1 (by simp [asDirectory_of_isDirectory hdir])
  have hnofile := fileAt_extractTo_of_stuck h.tmpFile (.inl hunnamed) (Drive.key e.name)
  unfold rename
  split
  · next hallowed =>
      unfold FileTree.rename
      cases hnode : (extractTo e w.tmp).node (Drive.key e.name) with
      | none => rfl
      | some node =>
          cases node with
          | file content =>
              rw [FileTree.fileAt, hnode] at hnofile
              cases hnofile
          | dir =>
              have hvacant : ¬ (w.disk.mkdirs (FilePath.heldFrom (target dest strip e))).Vacant
                  (target dest strip e) := by
                intro hvacant
                rcases hallowed with hheld | hthere
                · rw [hheld] at hvacant
                  exact FileTree.not_vacant_mkdirs _ _ hvacant
                · rw [hvacant.2.2] at hthere
                  cases hthere
              simp only [dif_neg hvacant]
  · rfl

/-- A directory entry creates its directory and moves nothing. -/
theorem directory (hx : Extracted strip e) (hdir : e.isDirectory) :
    Unpacked dest strip disk (entries ++ [e]) (place dest strip w e) := by
  have hfile : ¬ IsFile strip e := fun hf => absurd hf.2 (by simp [hdir])
  have hrun : place dest strip w e = ⟨extractTo e w.tmp,
      if Makes strip e then w.disk.mkdirs (FilePath.heldFrom (target dest strip e))
      else w.disk⟩ := by
    by_cases hmakes : Makes strip e
    · rw [if_pos hmakes]
      rcases @place_of_makes κ dest strip e w hmakes with hplace | hplace
      · exact hplace
      · exact hplace.trans (h.rename_directory rfl hdir)
    · rw [if_neg hmakes]
      exact place_of_not_makes hx hdir hmakes
  have hfiles : ∀ q, (place dest strip w e).disk.fileAt q = w.disk.fileAt q := by
    intro q
    rw [hrun]
    by_cases hmakes : Makes strip e <;> simp [hmakes]
  constructor
  · intro q
    rw [hrun]
    exact h.tmpDir_extractTo hx q
  · intro q
    rw [hrun]
    exact fileAt_extractTo_of_stuck h.tmpFile
      (.inl fun hnamed => absurd hnamed.1 (by simp [asDirectory_of_isDirectory hdir])) q
  · intro f hf hff
    rcases List.mem_append.mp hf with hf | hf
    · rw [hfiles]
      exact h.placed f hf hff
    · exact absurd (List.mem_singleton.mp hf ▸ hff) hfile
  · intro q hq
    rw [hfiles]
    exact h.kept q fun f hf => hq f (List.mem_append_left _ hf)
  · intro q
    simp only [hfiles]
    rw [hrun]
    by_cases hmakes : Makes strip e
    · simp only [if_pos hmakes, FileTree.node_mkdirs_eq_dir, h.dirs]
      simp [or_and_right, exists_or, hmakes, or_assoc]
    · simpa [hmakes, or_and_right, exists_or] using h.dirs q

/-- No directory stands in the way of extracting a file exactly if it is clear. -/
theorem clear_iff : (Drive.key e.name ≠ [] ∧
      ∀ d ∈ entries, Extracted strip d → ¬ Drive.key e.name <+: made d) ↔
    w.tmp.node (Drive.key e.name) ≠ some .dir := by
  rw [ne_eq, ne_eq, h.tmpDir]
  simp

/-- A file in the clear is moved to its place if it can be written there. -/
theorem place_clear (hf : IsFile strip e) (hnamed : Named e)
    (hclear : w.tmp.node (Drive.key e.name) ≠ some .dir) :
    place dest strip w e =
      if (FilePath.heldFrom (target dest strip e) = target dest strip e ∨
          (w.disk.node (target dest strip e)).isSome) ∧
          w.disk.Writable (target dest strip e) then
        ⟨(extractTo e w.tmp).removeFiles fun r _ => r == Drive.key e.name,
          w.disk.write (target dest strip e) e.content⟩
      else ⟨extractTo e w.tmp, w.disk⟩ := by
  have hnode := FileTree.fileAt_eq_some _ |>.mp (fileAt_extractTo_self h.tmpFile hnamed hclear)
  have hplace := (@place_of_isFile κ dest strip e w hf).resolve_left fun hdir => by
    simp [hnamed.1] at hdir
  rw [hplace, rename]
  by_cases hallowed : FilePath.heldFrom (target dest strip e) = target dest strip e ∨
      (w.disk.node (target dest strip e)).isSome
  · by_cases hwritable : w.disk.Writable (target dest strip e) <;>
      simp [hallowed, FileTree.rename, hnode, hwritable]
  · rw [if_neg hallowed, if_neg fun hboth => hallowed hboth.1]

/-- In place of a file that is not extracted a directory is moved, if anything. -/
theorem place_stuck (hf : IsFile strip e)
    (hstuck : ¬ Named e ∨ w.tmp.node (Drive.key e.name) = some .dir) :
    place dest strip w e = ⟨extractTo e w.tmp, w.disk⟩ ∨
      ((place dest strip w e).disk.fileAt (target dest strip e) = none ∧
        w.disk.node (target dest strip e) = none) := by
  have hnofile := fileAt_extractTo_of_stuck h.tmpFile hstuck (Drive.key e.name)
  rcases @place_of_isFile κ dest strip e w hf with ⟨-, hplace⟩ | hplace
  · exact .inl hplace
  · rw [hplace, rename]
    split
    · unfold FileTree.rename
      cases hnode : (extractTo e w.tmp).node (Drive.key e.name) with
      | none => exact .inl rfl
      | some node =>
          cases node with
          | file content =>
              rw [FileTree.fileAt, hnode] at hnofile
              cases hnofile
          | dir =>
              by_cases hvacant : w.disk.Vacant (target dest strip e)
              · right
                simp [hvacant, FileTree.fileAt, hvacant.2.2]
              · left
                simp [hvacant]
    · exact .inl rfl

/-- There is no file at a place exactly if there was none before and none was unpacked. -/
theorem fileAt_eq_none_iff (r : FilePath) :
    w.disk.fileAt r = none ↔
      disk.fileAt r = none ∧ ∀ f ∈ entries, IsFile strip f → target dest strip f ≠ r := by
  constructor
  · intro hnone
    have hother : ∀ f ∈ entries, IsFile strip f → target dest strip f ≠ r := by
      rintro f hf hff rfl
      rw [h.placed f hf hff] at hnone
      cases hnone
    exact ⟨by rw [← h.kept r hother, hnone], hother⟩
  · rintro ⟨hnone, hother⟩
    rw [h.kept r hother, hnone]

/-- A place that is no directory holds the file it held before, or nothing. -/
theorem isSome_node_iff {r : FilePath} (hsame : w.disk.fileAt r = disk.fileAt r)
    (hnot : w.disk.node r ≠ some .dir) :
    (w.disk.node r).isSome ↔ disk.node r ≠ none ∧ disk.node r ≠ some .dir := by
  have hold : disk.node r ≠ some .dir := fun hdir => hnot ((h.dirs _).mpr (.inl hdir))
  cases hnode : w.disk.node r with
  | none =>
      cases hbefore : disk.node r with
      | none => simp
      | some node =>
          cases node with
          | dir => exact absurd hbefore hold
          | file content => simp [FileTree.fileAt, hnode, hbefore] at hsame
  | some node =>
      cases node with
      | dir => exact absurd hnode hnot
      | file content =>
          have hfile : disk.fileAt r = some content := by
            rw [← hsame, FileTree.fileAt, hnode]
          simp [(disk.fileAt_eq_some).mp hfile]

section Fresh

variable (hfresh : ∀ f ∈ entries, IsFile strip f → target dest strip f ≠ target dest strip e)
include hfresh

/-- What can be placed can be written. -/
theorem writable_of_placeable (hplace : Placeable dest strip disk entries e) :
    w.disk.Writable (target dest strip e) := by
  have hsame := h.kept _ hfresh
  refine ⟨?_, ?_, ?_⟩
  · rintro hnil
    exact hplace.free.1 (hnil ▸ disk.root_dir)
  · rw [h.dirs]
    rcases hplace.parent with hdir | hmade
    · exact .inl hdir
    · exact .inr ⟨hmade, fun r hr => (h.fileAt_eq_none_iff r).mpr (hplace.unblocked r hr)⟩
  · rw [ne_eq, h.dirs]
    rintro (hdir | ⟨⟨d, hd, hmakes, hbegin⟩, hfree⟩)
    · exact hplace.free.1 hdir
    · have hnone : disk.node (target dest strip e) = none := by
        have hfile := hsame ▸ hfree _ (List.prefix_refl _)
        cases hnode : disk.node (target dest strip e) with
        | none => rfl
        | some node =>
            cases node with
            | dir => exact absurd hnode hplace.free.1
            | file content =>
                rw [FileTree.fileAt, hnode] at hfile
                cases hfile
      exact hplace.free.2 hnone d hd hmakes hbegin

/-- What can be written can be placed. -/
theorem placeable_of_writable (hnamed : Named e) (hclear : w.tmp.node (Drive.key e.name) ≠ some .dir)
    (hallowed : FilePath.heldFrom (target dest strip e) = target dest strip e ∨
      (w.disk.node (target dest strip e)).isSome)
    (hwritable : w.disk.Writable (target dest strip e)) :
    Placeable dest strip disk entries e := by
  have hsame := h.kept _ hfresh
  obtain ⟨-, hparent, hnot⟩ := hwritable
  have habove : ∀ r, r <+: (target dest strip e).dropLast → w.disk.fileAt r = none := fun r hr =>
    w.disk.fileAt_eq_none_of_dir hparent hr
  rw [h.isSome_node_iff hsame hnot] at hallowed
  constructor
  · exact hnamed
  · exact h.clear_iff.mpr hclear
  · exact hallowed.imp_right And.left
  · constructor
    · exact fun hdir => hnot ((h.dirs _).mpr (.inl hdir))
    · intro hnone d hd hmakes hbegin
      apply hnot
      rw [h.dirs]
      refine .inr ⟨⟨d, hd, hmakes, hbegin⟩, fun r hr => ?_⟩
      by_cases hrt : r = target dest strip e
      · rw [hrt, hsame, FileTree.fileAt, hnone]
      · apply habove
        obtain ⟨init, last, hsplit⟩ := (List.eq_nil_or_concat (target dest strip e)).resolve_left
          fun hnil => hnot (hnil ▸ w.disk.root_dir)
        rw [hsplit, List.concat_eq_append] at hr hrt ⊢
        rw [List.dropLast_concat]
        exact (List.prefix_concat_iff.mp hr).resolve_left hrt
  · exact ((h.dirs _).mp hparent).imp_right And.left
  · exact fun r hr => (h.fileAt_eq_none_iff r).mp (habove r hr)

/-- A file can be written to its place exactly if it is free, in a directory, and
nothing lies in the way. -/
theorem placeable_iff :
    Placeable dest strip disk entries e ↔
      (Named e ∧ w.tmp.node (Drive.key e.name) ≠ some .dir) ∧
        (FilePath.heldFrom (target dest strip e) = target dest strip e ∨
          (w.disk.node (target dest strip e)).isSome) ∧
        w.disk.Writable (target dest strip e) := by
  constructor
  · intro hplace
    have hwritable := h.writable_of_placeable hfresh hplace
    refine ⟨⟨hplace.named, h.clear_iff.mp hplace.clear⟩, ?_, hwritable⟩
    rw [h.isSome_node_iff (h.kept _ hfresh) hwritable.2.2]
    exact hplace.allowed.imp_right fun hnode => ⟨hnode, hplace.free.1⟩
  · rintro ⟨⟨hnamed, hclear⟩, hallowed, hwritable⟩
    exact h.placeable_of_writable hfresh hnamed hclear hallowed hwritable

end Fresh

/-- A file that finds its content at its place leaves it there. -/
theorem file_stuck (hf : IsFile strip e)
    (hstuck : ¬ Named e ∨ w.tmp.node (Drive.key e.name) = some .dir)
    (hthere : w.disk.fileAt (target dest strip e) = some e.content) :
    Unpacked dest strip disk (entries ++ [e]) (place dest strip w e) := by
  have hmakes : ¬ Makes strip e := not_makes_of_isFile hf
  have hplace : place dest strip w e = ⟨extractTo e w.tmp, w.disk⟩ := by
    refine (h.place_stuck hf hstuck).resolve_right fun hmoved => ?_
    rw [FileTree.fileAt, hmoved.2] at hthere
    cases hthere
  rw [hplace]
  constructor
  · exact h.tmpDir_extractTo hf.1
  · exact fileAt_extractTo_of_stuck h.tmpFile hstuck
  · intro f hmem hff
    rcases List.mem_append.mp hmem with hmem | hmem
    · exact h.placed f hmem hff
    · rw [List.mem_singleton.mp hmem]
      exact hthere
  · exact fun q hq => h.kept q fun f hmem => hq f (List.mem_append_left _ hmem)
  · intro q
    simpa [or_and_right, exists_or, hmakes] using h.dirs q

/-- A file that is extracted and can be written to its place ends up there. -/
theorem file_written (hf : IsFile strip e) (hnamed : Named e)
    (hclear : w.tmp.node (Drive.key e.name) ≠ some .dir)
    (hallowed : FilePath.heldFrom (target dest strip e) = target dest strip e ∨
      (w.disk.node (target dest strip e)).isSome)
    (hwritable : w.disk.Writable (target dest strip e))
    (hagree : ∀ f ∈ entries, IsFile strip f → target dest strip f = target dest strip e →
      f.content = e.content) :
    Unpacked dest strip disk (entries ++ [e]) (place dest strip w e) := by
  have hmakes : ¬ Makes strip e := not_makes_of_isFile hf
  have hself := w.disk.fileAt_write_self hwritable e.content
  rw [h.place_clear hf hnamed hclear, if_pos ⟨hallowed, hwritable⟩]
  constructor
  · intro q
    rw [← FileTree.isDir_iff, FileTree.isDir_removeFiles, FileTree.isDir_iff]
    exact h.tmpDir_extractTo hf.1 q
  · intro q
    rw [FileTree.fileAt_removeFiles]
    by_cases hq : q = Drive.key e.name
    · simp [hq]
    · rw [fileAt_extractTo_of_ne _ hq, h.tmpFile, Option.filter_none]
  · intro f hmem hff
    rcases List.mem_append.mp hmem with hmem | hmem
    · by_cases hsame : target dest strip f = target dest strip e
      · rw [hsame, hself, hagree f hmem hff hsame]
      · rw [w.disk.fileAt_write_of_ne hsame]
        exact h.placed f hmem hff
    · rw [List.mem_singleton.mp hmem]
      exact hself
  · intro q hq
    have hqt : q ≠ target dest strip e := (hq e (by simp) hf).symm
    rw [w.disk.fileAt_write_of_ne hqt]
    exact h.kept q fun f hmem => hq f (List.mem_append_left _ hmem)
  · intro q
    have hdir : (w.disk.write (target dest strip e) e.content).node q = some .dir ↔
        w.disk.node q = some .dir := by
      rw [← FileTree.isDir_iff, FileTree.isDir_write, FileTree.isDir_iff]
    constructor
    · intro hnew
      refine ((h.dirs q).mp (hdir.mp hnew)).imp_right fun hold => ⟨?_, fun r hr =>
        FileTree.fileAt_eq_none_of_dir _ hnew hr⟩
      obtain ⟨d, hd, hd'⟩ := hold.1
      exact ⟨d, List.mem_append_left _ hd, hd'⟩
    · rintro (hold | ⟨⟨d, hd, hd'⟩, hfree⟩)
      · exact hdir.mpr ((h.dirs q).mpr (.inl hold))
      · have hd : d ∈ entries := by
          rcases List.mem_append.mp hd with hd | hd
          · exact hd
          · exact absurd (List.mem_singleton.mp hd ▸ hd'.1) hmakes
        refine hdir.mpr ((h.dirs q).mpr (.inr ⟨⟨d, hd, hd'⟩, fun r hr => ?_⟩))
        have hnone := hfree r hr
        have hrt : r ≠ target dest strip e := by
          rintro rfl
          rw [hself] at hnone
          cases hnone
        rwa [w.disk.fileAt_write_of_ne hrt] at hnone

/-- A file that is at its place already or can be put there ends up there. -/
theorem file (hf : IsFile strip e)
    (hagree : ∀ f ∈ entries, IsFile strip f → target dest strip f = target dest strip e →
      f.content = e.content)
    (hok : AtPlace dest strip disk entries e ∨ Placeable dest strip disk entries e) :
    Unpacked dest strip disk (entries ++ [e]) (place dest strip w e) := by
  by_cases hthere : w.disk.fileAt (target dest strip e) = some e.content
  · by_cases hstuck : ¬ Named e ∨ w.tmp.node (Drive.key e.name) = some .dir
    · exact h.file_stuck hf hstuck hthere
    · push Not at hstuck
      have hnode := (w.disk.fileAt_eq_some).mp hthere
      exact h.file_written hf hstuck.1 hstuck.2 (.inr (by rw [hnode]; rfl))
        (w.disk.writable_of_file hthere) hagree
  · -- no file before has this place, so what was there from the start is still there
    have hfresh : ∀ f ∈ entries, IsFile strip f →
        target dest strip f ≠ target dest strip e := by
      intro f hmem hff hsame
      apply hthere
      rw [← hsame, h.placed f hmem hff, hagree f hmem hff hsame]
    have hplace : Placeable dest strip disk entries e := by
      refine hok.resolve_left ?_
      rintro (hcontent | ⟨f, hmem, hff, hsame⟩)
      · exact hthere ((h.kept _ hfresh).trans hcontent)
      · exact hfresh f hmem hff hsame
    obtain ⟨⟨hnamed, hclear⟩, hallowed, hwritable⟩ := (h.placeable_iff hfresh).mp hplace
    exact h.file_written hf hnamed hclear hallowed hwritable hagree

/-- A file that is not at its place and cannot be put there is missing afterwards. -/
theorem missing (hf : IsFile strip e) (hother : ¬ AtPlace dest strip disk entries e)
    (hnot : ¬ Placeable dest strip disk entries e) :
    (place dest strip w e).disk.fileAt (target dest strip e) ≠ some e.content := by
  have hfresh : ∀ f ∈ entries, IsFile strip f → target dest strip f ≠ target dest strip e :=
    fun f hmem hff hsame => hother (.inr ⟨f, hmem, hff, hsame⟩)
  have hsame : w.disk.fileAt (target dest strip e) ≠ some e.content := by
    rw [h.kept _ hfresh]
    exact fun hcontent => hother (.inl hcontent)
  by_cases hstuck : ¬ Named e ∨ w.tmp.node (Drive.key e.name) = some .dir
  · rcases h.place_stuck hf hstuck with hplace | ⟨hnone, -⟩
    · rw [hplace]
      exact hsame
    · simp [hnone]
  · push Not at hstuck
    rw [h.place_clear hf hstuck.1 hstuck.2, if_neg]
    · exact hsame
    · exact fun hboth => hnot ((h.placeable_iff hfresh).mpr ⟨hstuck, hboth⟩)

end Unpacked

theorem Agree.mono (h : Agree dest strip entries) {fewer : List (Entry κ)}
    (hsubset : fewer ⊆ entries) : Agree dest strip fewer :=
  fun d hd e he => h d (hsubset hd) e (hsubset he)

/-- The constructor throws at no result of opening: error codes count as true. -/
theorem construct_eq_ok (archive : Archive κ) : construct archive = .ok archive.entries := by
  cases archive with
  | opened entries => rfl
  | failed code nonzero => exact if_neg nonzero

theorem unzip_eq_ok (archive : Archive κ) (dest : Text) (strip : ℕ) (disk : FileTree κ) :
    unzip archive dest strip disk =
      .ok (rounds dest strip archive.entries (prepare dest disk)).disk := by
  rw [unzip, construct_eq_ok]
  rfl

end

/-- The archive opens, its files are in order and share no place with others. -/
def Unzips (archive : Archive κ) (dest : Text) (strip : ℕ) (disk : FileTree κ) : Prop :=
  ∃ entries, archive = .opened entries ∧ InOrder dest strip (prepare dest disk) entries ∧
    Agree dest strip entries

end UnzipMe

end WampManager
