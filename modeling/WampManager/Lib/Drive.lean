/-
# A case-folding disk

Path texts are followed lexically and names are compared without regard to
capitals, but a file keeps the name it was created under. Deleting by pattern
compares the pattern with that name, capitals included, while the directory of
the pattern is followed like any other path.
-/

import WampManager.Lib.FileTree
import WampManager.Lib.Glob

/-- A file with the name it was created under. -/
structure StoredFile where
  spelled : Text
  content : Text
  deriving DecidableEq

/-- A disk: every file lies under its own name, folded. -/
structure Drive where
  tree : FileTree StoredFile
  spelled_key : ∀ key file, tree.fileAt key = some file →
    key.getLast? = some (Text.lower file.spelled)

namespace Drive

/-- A disk with nothing on it. -/
def empty : Drive where
  tree := .empty
  spelled_key := by
    intro k file hfile
    rw [FileTree.fileAt_eq_some] at hfile
    by_cases hk : k = [] <;> simp [FileTree.empty, hk] at hfile

variable (d : Drive)

/-- Where a path text leads. -/
def key (path : Text) : FilePath := (FilePath.resolve path).map Text.lower

/-- The last segment of a path text as it is spelled. -/
def nameOf (path : Text) : Text := (FilePath.resolve path).getLast?.getD []

/-- Is there a directory? -/
def isDir (path : Text) : Bool := d.tree.isDir (key path)

/-- The content of a file. -/
def get (path : Text) : Option Text := (d.tree.fileAt (key path)).map StoredFile.content

/-- The file that writing to a path leaves there: an existing name is kept. -/
def stored (path content : Text) : StoredFile :=
  match d.tree.fileAt (key path) with
  | some old => ⟨old.spelled, content⟩
  | none => ⟨nameOf path, content⟩

@[simp]
theorem content_stored (path content : Text) : (d.stored path content).content = content := by
  unfold stored
  split <;> rfl

private theorem getLast?_key {path : Text} (h : key path ≠ []) :
    (key path).getLast? = some (Text.lower (nameOf path)) := by
  unfold key nameOf at *
  rw [List.getLast?_map]
  cases hlast : (FilePath.resolve path).getLast? with
  | none => simp [List.getLast?_eq_none_iff.mp hlast] at h
  | some s => rfl

/-- Write a file; without its directory nothing happens. -/
def put (path content : Text) : Drive where
  tree := d.tree.write (key path) (d.stored path content)
  spelled_key := by
    intro k file hfile
    by_cases hk : k = key path
    · subst hk
      by_cases hwritable : d.tree.Writable (key path)
      · rw [d.tree.fileAt_write_self hwritable, Option.some.injEq] at hfile
        subst hfile
        unfold stored
        cases hold : d.tree.fileAt (key path) with
        | none => exact getLast?_key hwritable.1
        | some old => exact d.spelled_key _ old hold
      · rw [d.tree.write_of_not_writable hwritable] at hfile
        exact d.spelled_key _ _ hfile
    · rw [d.tree.fileAt_write_of_ne hk] at hfile
      exact d.spelled_key _ _ hfile

/-- Create one directory. -/
def mkdir (path : Text) : Drive where
  tree := d.tree.mkdir (key path)
  spelled_key := by
    intro k file hfile
    rw [FileTree.fileAt_mkdir] at hfile
    exact d.spelled_key k file hfile

/-- Create a directory with its missing ancestors. -/
def mkdirs (path : Text) : Drive where
  tree := d.tree.mkdirs (key path)
  spelled_key := by
    intro k file hfile
    rw [FileTree.fileAt_mkdirs] at hfile
    exact d.spelled_key k file hfile

/-- Does a pattern find a file? -/
def globMatches (pattern : Text) (k : FilePath) (file : StoredFile) : Bool :=
  !Glob.crosses pattern &&
    (Glob.matchPath (key pattern).dropLast k.dropLast &&
      Glob.matchSegment (nameOf pattern) file.spelled)

/-- Delete the files a pattern finds. -/
def del (pattern : Text) : Drive where
  tree := d.tree.removeFiles (globMatches pattern)
  spelled_key := by
    intro k file hfile
    rw [FileTree.fileAt_removeFiles] at hfile
    exact d.spelled_key k file (Option.filter_eq_some_iff.mp hfile).1

/-- Delete a directory with everything below it. -/
def deltree (path : Text) : Drive where
  tree := d.tree.removeTree (key path)
  spelled_key := by
    intro k file hfile
    rw [FileTree.fileAt_eq_some] at hfile
    apply d.spelled_key k file
    rw [FileTree.fileAt_eq_some, ← hfile]
    by_cases hk : key path <+: k ∧ key path ≠ []
    · simp [FileTree.removeTree, hk] at hfile
    · simp [FileTree.removeTree, hk]

/-! ## What the operations leave of a file -/

variable {d}

theorem get_congr {e : Drive} {path : Text}
    (h : e.tree.fileAt (key path) = d.tree.fileAt (key path)) : e.get path = d.get path := by
  rw [get, h, get]

theorem fileAt_put_of_ne {k : FilePath} {path : Text} (hk : k ≠ key path) (content : Text) :
    (d.put path content).tree.fileAt k = d.tree.fileAt k :=
  d.tree.fileAt_write_of_ne hk _

theorem fileAt_put_self {path : Text} (h : d.tree.Writable (key path)) (content : Text) :
    (d.put path content).tree.fileAt (key path) = some (d.stored path content) :=
  d.tree.fileAt_write_self h _

theorem put_of_not_writable {path : Text} (h : ¬ d.tree.Writable (key path)) (content : Text) :
    (d.put path content).tree = d.tree :=
  d.tree.write_of_not_writable h _

/-- Writing changes a file unless it cannot be written or has the content already. -/
theorem fileAt_put_self_eq_iff {path content : Text} :
    (d.put path content).tree.fileAt (key path) = d.tree.fileAt (key path) ↔
      (d.tree.Writable (key path) → d.get path = some content) := by
  by_cases hwritable : d.tree.Writable (key path)
  · rw [fileAt_put_self hwritable, get, stored]
    cases hold : d.tree.fileAt (key path) with
    | none => simp [hwritable]
    | some old =>
        obtain ⟨spelled, before⟩ := old
        simp [hwritable, eq_comm]
  · rw [put_of_not_writable hwritable]
    simp [hwritable]

theorem isDir_put (k : FilePath) (path content : Text) :
    (d.put path content).tree.isDir k = d.tree.isDir k :=
  d.tree.isDir_write _ _ _

theorem writable_put (k : FilePath) (path content : Text) :
    (d.put path content).tree.Writable k ↔ d.tree.Writable k := by
  simp only [FileTree.Writable, ne_eq, ← FileTree.isDir_iff, isDir_put]

theorem isDir_del (k : FilePath) (pattern : Text) :
    (d.del pattern).tree.isDir k = d.tree.isDir k :=
  d.tree.isDir_removeFiles _ _

theorem isDir_mkdir_of_ne {k : FilePath} {path : Text} (hk : k ≠ key path) :
    (d.mkdir path).tree.isDir k = d.tree.isDir k := by
  have hnode : (d.mkdir path).tree.node k = d.tree.node k := d.tree.node_mkdir_of_ne hk
  rw [FileTree.isDir, hnode, FileTree.isDir]

theorem fileAt_mkdir (k : FilePath) (path : Text) :
    (d.mkdir path).tree.fileAt k = d.tree.fileAt k :=
  d.tree.fileAt_mkdir _ _

theorem fileAt_del (k : FilePath) (pattern : Text) :
    (d.del pattern).tree.fileAt k =
      (d.tree.fileAt k).filter fun file => !globMatches pattern k file :=
  d.tree.fileAt_removeFiles _ _

/-! ## A disk with one file -/

/-- The disk with nothing but one file and its directories. -/
def only (path content : Text) : Drive :=
  Drive.put
    { tree := FileTree.empty.mkdirs (key path).dropLast
      spelled_key := by
        intro k file hfile
        rw [FileTree.fileAt_mkdirs] at hfile
        exact empty.spelled_key k file hfile }
    path content

theorem get_only {path : Text} (h : key path ≠ []) (content : Text) :
    (only path content).get path = some content := by
  have hblocked : (FileTree.empty : FileTree StoredFile).blocked (key path).dropLast = false := by
    rw [← Bool.not_eq_true, FileTree.blocked_iff]
    rintro ⟨q, file, -, hfile⟩
    by_cases hq : q = [] <;> simp [FileTree.empty, hq] at hfile
  have hlonger : ¬ key path <+: (key path).dropLast := by
    intro hbegin
    have hle := hbegin.length_le
    have hpos := List.length_pos_of_ne_nil h
    rw [List.length_dropLast] at hle
    omega
  have hwritable : ((FileTree.empty : FileTree StoredFile).mkdirs
      (key path).dropLast).Writable (key path) := by
    refine ⟨h, ?_, ?_⟩
    · rw [FileTree.node_mkdirs_of_not_blocked _ hblocked, if_pos (List.prefix_refl _)]
    · rw [FileTree.node_mkdirs_of_not_blocked _ hblocked, if_neg hlonger]
      simp [FileTree.empty, h]
  rw [get, only, fileAt_put_self hwritable, Option.map_some, content_stored]

theorem fileAt_only_of_ne {path : Text} {k : FilePath} (hk : k ≠ key path) (content : Text) :
    (only path content).tree.fileAt k = none := by
  rw [only, fileAt_put_of_ne hk, FileTree.fileAt_mkdirs]
  by_cases hnil : k = [] <;> simp [FileTree.fileAt, FileTree.empty, hnil]

end Drive
