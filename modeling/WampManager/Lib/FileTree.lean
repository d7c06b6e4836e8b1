/-
# File trees

A file tree gives every path a directory, a file or nothing. The root is a
directory and whatever exists lies in a directory; both facts travel with the
tree. The operations are those of a file system that reports failure by doing
nothing: creating a directory with or without its ancestors, writing a file
into an existing directory, removing the files that meet a condition, and
removing a whole directory. What a file holds is a parameter.
-/

import Mathlib.Data.List.Infix
import Mathlib.Logic.Function.Basic
import WampManager.Lib.FilePath

universe u

/-- What a path of a file tree can hold. -/
inductive Node (κ : Type u)
  | dir
  | file (content : κ)
  deriving DecidableEq

/-- A file system content that is closed under taking parents. -/
@[ext]
structure FileTree (κ : Type u) where
  /-- The node at a path, if any. -/
  node : FilePath → Option (Node κ)
  /-- The root is a directory. -/
  root_dir : node [] = some .dir
  /-- Whatever exists lies in a directory. -/
  parent_dir : ∀ p s, (node (p ++ [s])).isSome → node p = some .dir

namespace FileTree

variable {κ : Type u} (t : FileTree κ)

/-- Nothing but the root. -/
def empty : FileTree κ where
  node := fun p => if p = [] then some .dir else none
  root_dir := rfl
  parent_dir := by
    intro p s hchild
    simp at hchild

/-- Is there a directory at a path? -/
def isDir (p : FilePath) : Bool :=
  match t.node p with
  | some .dir => true
  | _ => false

/-- The file at a path, if there is one. -/
def fileAt (p : FilePath) : Option κ :=
  match t.node p with
  | some (.file content) => some content
  | _ => none

/-- Does a file lie at a path or at one of its ancestors? -/
def blocked (p : FilePath) : Bool :=
  p.inits.any fun q => match t.node q with
    | some (.file _) => true
    | _ => false

theorem isDir_iff {p : FilePath} : t.isDir p = true ↔ t.node p = some .dir := by
  unfold isDir
  cases t.node p with
  | none => simp
  | some node => cases node <;> simp

theorem fileAt_eq_some {p : FilePath} {content : κ} :
    t.fileAt p = some content ↔ t.node p = some (.file content) := by
  unfold fileAt
  cases t.node p with
  | none => simp
  | some node => cases node <;> simp

/-- Every ancestor of something that exists is a directory. -/
theorem dir_of_prefix {p q : FilePath} (hq : (t.node q).isSome) (hp : p <+: q) (hne : p ≠ q) :
    t.node p = some .dir := by
  obtain ⟨rest, rfl⟩ := hp
  induction rest using List.reverseRecOn with
  | nil => simp at hne
  | append_singleton rest s ih =>
      rw [← List.append_assoc] at hq
      have hparent := t.parent_dir _ _ hq
      by_cases hrest : rest = []
      · simpa [hrest] using hparent
      · exact ih (by simp [hparent]) (by simpa using hrest)

theorem blocked_iff {p : FilePath} :
    t.blocked p = true ↔ ∃ q content, q <+: p ∧ t.node q = some (.file content) := by
  simp only [blocked, List.any_eq_true, List.mem_inits]
  constructor
  · rintro ⟨q, hq, hfile⟩
    cases hnode : t.node q with
    | none => simp [hnode] at hfile
    | some node =>
        cases node with
        | dir => simp [hnode] at hfile
        | file content => exact ⟨q, content, hq, hnode⟩
  · rintro ⟨q, content, hq, hnode⟩
    exact ⟨q, hq, by simp [hnode]⟩

/-- Create a directory and its missing ancestors, unless a file is in the way. -/
def mkdirs (p : FilePath) : FileTree κ :=
  if hblocked : t.blocked p then t
  else
    { node := fun q => if q <+: p then some .dir else t.node q
      root_dir := by simp
      parent_dir := by
        intro q s hchild
        by_cases hq : q <+: p
        · simp [hq]
        · have hqs : ¬ q ++ [s] <+: p := fun h => hq ((List.prefix_append q [s]).trans h)
          rw [if_neg hqs] at hchild
          rw [if_neg hq]
          exact t.parent_dir q s hchild }

/-- Create one directory in an existing one, unless something is there. -/
def mkdir (p : FilePath) : FileTree κ :=
  if t.isDir p.dropLast ∧ t.node p = none then t.mkdirs p else t

/-- Remove the files that meet a condition. -/
def removeFiles (condition : FilePath → κ → Bool) : FileTree κ where
  node := fun p => match t.node p with
    | some (.file content) => if condition p content then none else some (.file content)
    | other => other
  root_dir := by simp [t.root_dir]
  parent_dir := by
    intro p s hchild
    have hsome : (t.node (p ++ [s])).isSome := by
      cases hnode : t.node (p ++ [s]) with
      | none => simp [hnode] at hchild
      | some node => rfl
    simp [t.parent_dir p s hsome]

/-- Remove a directory with everything below it; the root stays. -/
def removeTree (p : FilePath) : FileTree κ where
  node := fun q => if p <+: q ∧ p ≠ [] then none else t.node q
  root_dir := by
    rw [if_neg (fun h => h.2 (List.prefix_nil.mp h.1)), t.root_dir]
  parent_dir := by
    intro q s hchild
    by_cases hq : p <+: q ++ [s] ∧ p ≠ []
    · simp [hq] at hchild
    · rw [if_neg hq] at hchild
      have hparent : ¬ (p <+: q ∧ p ≠ []) := fun h =>
        hq ⟨h.1.trans (List.prefix_append q [s]), h.2⟩
      rw [if_neg hparent]
      exact t.parent_dir q s hchild

/-- A file can be written where the parent is a directory and the path is not. -/
def Writable (p : FilePath) : Prop :=
  p ≠ [] ∧ t.node p.dropLast = some .dir ∧ t.node p ≠ some .dir

instance (p : FilePath) : Decidable (t.Writable p) :=
  decidable_of_iff (p ≠ [] ∧ t.isDir p.dropLast = true ∧ ¬ t.isDir p = true) (by
    rw [t.isDir_iff, t.isDir_iff]
    rfl)

/-- Put a file at a path, if it can be written there. -/
def write (p : FilePath) (content : κ) : FileTree κ :=
  if h : t.Writable p then
    { node := Function.update t.node p (some (.file content))
      root_dir := by rw [Function.update_of_ne h.1.symm, t.root_dir]
      parent_dir := by
        intro q s hchild
        by_cases hqs : q ++ [s] = p
        · have hq : p.dropLast = q := by simp [← hqs]
          have hqp : q ≠ p := by simp [← hqs]
          rw [Function.update_of_ne hqp, ← hq]
          exact h.2.1
        · rw [Function.update_of_ne hqs] at hchild
          have hq := t.parent_dir q s hchild
          have hqp : q ≠ p := by
            rintro rfl
            exact h.2.2 hq
          rw [Function.update_of_ne hqp, hq] }
  else t

/-! ## Creating directories -/

theorem node_mkdirs_of_not_blocked {p : FilePath} (h : t.blocked p = false) (q : FilePath) :
    (t.mkdirs p).node q = if q <+: p then some .dir else t.node q := by
  rw [mkdirs, dif_neg (by simp [h])]

theorem mkdirs_of_blocked {p : FilePath} (h : t.blocked p = true) : t.mkdirs p = t := by
  rw [mkdirs, dif_pos h]

/-- Creating directories changes nothing that exists. -/
theorem node_mkdirs_of_isSome {p q : FilePath} (h : (t.node q).isSome) :
    (t.mkdirs p).node q = t.node q := by
  cases hb : t.blocked p with
  | true => rw [t.mkdirs_of_blocked hb]
  | false =>
      rw [t.node_mkdirs_of_not_blocked hb]
      by_cases hq : q <+: p
      · rw [if_pos hq]
        cases hnode : t.node q with
        | none => simp [hnode] at h
        | some node =>
            cases node with
            | dir => rfl
            | file content =>
                have : t.blocked p = true := t.blocked_iff.mpr ⟨q, content, hq, hnode⟩
                rw [hb] at this
                cases this
      · rw [if_neg hq]

/-- Creating directories makes nothing off their path. -/
theorem node_mkdirs_of_not_prefix {p q : FilePath} (h : ¬ q <+: p) :
    (t.mkdirs p).node q = t.node q := by
  cases hb : t.blocked p with
  | true => rw [t.mkdirs_of_blocked hb]
  | false => rw [t.node_mkdirs_of_not_blocked hb, if_neg h]

/-- Creating directories makes no file. -/
theorem node_mkdirs_eq_file {p q : FilePath} {content : κ} :
    (t.mkdirs p).node q = some (.file content) ↔ t.node q = some (.file content) := by
  constructor
  · intro h
    cases hb : t.blocked p with
    | true => rwa [t.mkdirs_of_blocked hb] at h
    | false =>
        rw [t.node_mkdirs_of_not_blocked hb] at h
        by_cases hq : q <+: p
        · rw [if_pos hq] at h
          cases h
        · rwa [if_neg hq] at h
  · intro h
    rw [t.node_mkdirs_of_isSome (by simp [h]), h]

/-- After an attempt to create a directory, either something is at the path or
its parent is no directory. -/
theorem mkdirs_spec {p : FilePath} (hp : p ≠ []) :
    ((t.mkdirs p).node p).isSome ∨ (t.mkdirs p).node p.dropLast ≠ some .dir := by
  cases hb : t.blocked p with
  | false =>
      left
      rw [t.node_mkdirs_of_not_blocked hb, if_pos (List.prefix_refl p)]
      rfl
  | true =>
      rw [t.mkdirs_of_blocked hb]
      obtain ⟨q, content, hq, hfile⟩ := t.blocked_iff.mp hb
      by_cases hqp : q = p
      · left
        simp [← hqp, hfile]
      · right
        intro hparent
        have hsplit := List.dropLast_append_getLast hp
        have hq' : q <+: p.dropLast := by
          rw [← hsplit] at hq
          rcases List.prefix_concat_iff.mp (by simpa using hq) with heq | hq
          · exact absurd (by rw [heq, ← List.concat_eq_append]; simpa using hsplit) hqp
          · exact hq
        by_cases hqd : q = p.dropLast
        · rw [hqd, hparent] at hfile
          cases hfile
        · rw [t.dir_of_prefix (by simp [hparent]) hq' hqd] at hfile
          cases hfile

/-- The directories after an attempt to create one: those before, and those on
the way if no file lies at or above them. -/
theorem node_mkdirs_eq_dir {p q : FilePath} :
    (t.mkdirs p).node q = some .dir ↔
      t.node q = some .dir ∨ (q <+: p ∧ ∀ r, r <+: q → t.fileAt r = none) := by
  cases hb : t.blocked p with
  | false =>
      rw [t.node_mkdirs_of_not_blocked hb]
      by_cases hq : q <+: p
      · have hfree : ∀ r, r <+: q → t.fileAt r = none := by
          intro r hr
          by_contra hfile
          obtain ⟨content, hcontent⟩ := Option.ne_none_iff_exists'.mp hfile
          have hblocked := t.blocked_iff.mpr
            ⟨r, content, hr.trans hq, t.fileAt_eq_some.mp hcontent⟩
          rw [hb] at hblocked
          cases hblocked
        simpa [hq] using .inr hfree
      · simp [hq]
  | true =>
      rw [t.mkdirs_of_blocked hb]
      constructor
      · exact .inl
      · rintro (hdir | ⟨hq, hfree⟩)
        · exact hdir
        · obtain ⟨r, content, hr, hfile⟩ := t.blocked_iff.mp hb
          have hnot : ¬ r <+: q := by
            intro hrq
            have hnone := hfree r hrq
            rw [t.fileAt_eq_some.mpr hfile] at hnone
            cases hnone
          -- the file lies strictly below, so its ancestor is a directory already
          have hqr : q <+: r := (List.prefix_or_prefix_of_prefix hq hr).resolve_right hnot
          exact t.dir_of_prefix (by simp [hfile]) hqr fun heq => hnot (heq ▸ List.prefix_refl _)

theorem fileAt_eq_none_of_dir {p r : FilePath} (h : t.node p = some .dir) (hr : r <+: p) :
    t.fileAt r = none := by
  have hdir : t.node r = some .dir := by
    by_cases hrp : r = p
    · rw [hrp, h]
    · exact t.dir_of_prefix (by simp [h]) hr hrp
  rw [fileAt, hdir]

/-! ## Writing files -/

theorem node_write_of_writable {p : FilePath} (h : t.Writable p) (content : κ) :
    (t.write p content).node = Function.update t.node p (some (.file content)) := by
  rw [write, dif_pos h]

theorem write_of_not_writable {p : FilePath} (h : ¬ t.Writable p) (content : κ) :
    t.write p content = t := by
  rw [write, dif_neg h]

/-- Writing one file leaves every other path alone. -/
theorem node_write_of_ne {p q : FilePath} (hq : q ≠ p) (content : κ) :
    (t.write p content).node q = t.node q := by
  by_cases h : t.Writable p
  · rw [t.node_write_of_writable h, Function.update_of_ne hq]
  · rw [t.write_of_not_writable h]

theorem fileAt_write_of_ne {p q : FilePath} (hq : q ≠ p) (content : κ) :
    (t.write p content).fileAt q = t.fileAt q := by
  rw [fileAt, t.node_write_of_ne hq, fileAt]

theorem fileAt_write_self {p : FilePath} (h : t.Writable p) (content : κ) :
    (t.write p content).fileAt p = some content := by
  rw [fileAt_eq_some, t.node_write_of_writable h, Function.update_self]

/-! ## What the operations leave of the files and directories -/

@[simp]
theorem fileAt_mkdirs (p q : FilePath) : (t.mkdirs p).fileAt q = t.fileAt q := by
  apply Option.ext
  intro content
  rw [fileAt_eq_some, fileAt_eq_some, node_mkdirs_eq_file]

@[simp]
theorem fileAt_mkdir (p q : FilePath) : (t.mkdir p).fileAt q = t.fileAt q := by
  unfold mkdir
  split
  · exact t.fileAt_mkdirs p q
  · rfl

theorem fileAt_removeFiles (condition : FilePath → κ → Bool) (p : FilePath) :
    (t.removeFiles condition).fileAt p =
      (t.fileAt p).filter fun content => !condition p content := by
  cases hnode : t.node p with
  | none => simp [fileAt, removeFiles, hnode]
  | some node =>
      cases node with
      | dir => simp [fileAt, removeFiles, hnode]
      | file content =>
          by_cases hc : condition p content <;>
            simp [fileAt, removeFiles, hnode, Option.filter, hc]

@[simp]
theorem isDir_removeFiles (condition : FilePath → κ → Bool) (p : FilePath) :
    (t.removeFiles condition).isDir p = t.isDir p := by
  cases hnode : t.node p with
  | none => simp [isDir, removeFiles, hnode]
  | some node =>
      cases node with
      | dir => simp [isDir, removeFiles, hnode]
      | file content =>
          by_cases hc : condition p content <;> simp [isDir, removeFiles, hnode, hc]

@[simp]
theorem isDir_write (p q : FilePath) (content : κ) :
    (t.write p content).isDir q = t.isDir q := by
  by_cases h : t.Writable p
  · by_cases hq : q = p
    · subst hq
      have hnew : (t.write q content).isDir q = false := by
        rw [isDir, t.node_write_of_writable h, Function.update_self]
      have hold : t.isDir q = false := by
        rw [← Bool.not_eq_true, isDir_iff]
        exact h.2.2
      rw [hnew, hold]
    · rw [isDir, t.node_write_of_ne hq, isDir]
  · rw [t.write_of_not_writable h]

/-- Creating one directory changes no other path. -/
theorem node_mkdir_of_ne {p q : FilePath} (hq : q ≠ p) : (t.mkdir p).node q = t.node q := by
  unfold mkdir
  split
  · next h =>
      have hparent : t.node p.dropLast = some .dir := t.isDir_iff.mp h.1
      by_cases hbegin : q <+: p
      · have hq' : (t.node q).isSome := by
          rcases List.eq_nil_or_concat p with rfl | ⟨init, last, rfl⟩
          · exact absurd (List.prefix_nil.mp hbegin) hq
          · rw [List.concat_eq_append, List.dropLast_concat] at hparent
            rw [List.concat_eq_append, List.prefix_concat_iff] at hbegin
            rcases hbegin with heq | hinit
            · exact absurd (by simpa using heq) hq
            · by_cases hqi : q = init
              · simp [hqi, hparent]
              · simp [t.dir_of_prefix (by simp [hparent]) hinit hqi]
        exact t.node_mkdirs_of_isSome hq'
      · exact t.node_mkdirs_of_not_prefix hbegin
  · rfl

/-! ## Moving between trees -/

/-- The part of a tree below a directory. -/
def subtree (p : FilePath) : FileTree κ :=
  if h : t.isDir p then
    { node := fun q => t.node (p ++ q)
      root_dir := by rw [List.append_nil, t.isDir_iff.mp h]
      parent_dir := by
        intro q s hchild
        rw [← List.append_assoc] at hchild
        exact t.parent_dir (p ++ q) s hchild }
  else empty

/-- A tree fits where nothing is yet, into an existing directory. -/
def Vacant (p : FilePath) : Prop :=
  p ≠ [] ∧ t.node p.dropLast = some .dir ∧ t.node p = none

/-- Put a tree at a vacant path. -/
def graft (p : FilePath) (sub : FileTree κ) (h : t.Vacant p) : FileTree κ where
  node := fun q => if p <+: q then sub.node (q.drop p.length) else t.node q
  root_dir := by
    rw [if_neg fun hp => h.1 (List.prefix_nil.mp hp), t.root_dir]
  parent_dir := by
    intro q s hchild
    by_cases hq : p <+: q
    · have hqs : p <+: q ++ [s] := hq.trans (List.prefix_append q [s])
      rw [if_pos hqs, List.drop_append_of_le_length hq.length_le] at hchild
      rw [if_pos hq]
      exact sub.parent_dir _ s hchild
    · rw [if_neg hq]
      by_cases hqs : p <+: q ++ [s]
      · have hp : p = q ++ [s] := (List.prefix_concat_iff.mp hqs).resolve_right hq
        rw [← h.2.1, hp, List.dropLast_concat]
      · rw [if_neg hqs] at hchild
        exact t.parent_dir q s hchild

instance (p : FilePath) : Decidable (t.Vacant p) :=
  decidable_of_iff (p ≠ [] ∧ t.isDir p.dropLast = true ∧ (t.node p).isNone = true) (by
    rw [t.isDir_iff, Option.isNone_iff_eq_none]
    rfl)

@[simp]
theorem node_graft_self (p : FilePath) (sub : FileTree κ) (h : t.Vacant p) :
    (t.graft p sub h).node p = some .dir := by
  simp [graft, sub.root_dir]

/-- Where a directory was just attempted nothing fits any more. -/
theorem not_vacant_mkdirs (p : FilePath) : ¬ (t.mkdirs p).Vacant p := by
  rintro ⟨hne, hparent, hnone⟩
  rcases t.mkdirs_spec hne with hsome | hno
  · rw [hnone] at hsome
    cases hsome
  · exact hno hparent

/-- Move what lies at a path of one tree to a path of another: a file goes
wherever a file can be written, a directory only where nothing is. -/
def rename (source : FileTree κ) (p q : FilePath) : FileTree κ × FileTree κ :=
  match source.node p with
  | some (.file content) =>
      if t.Writable q then (source.removeFiles fun r _ => r == p, t.write q content)
      else (source, t)
  | some .dir =>
      if h : t.Vacant q then (source.removeTree p, t.graft q (source.subtree p) h)
      else (source, t)
  | none => (source, t)

/-- A file can be written over. -/
theorem writable_of_file {p : FilePath} {content : κ} (h : t.fileAt p = some content) :
    t.Writable p := by
  have hnode := t.fileAt_eq_some.mp h
  have hne : p ≠ [] := by
    rintro rfl
    rw [t.root_dir] at hnode
    cases hnode
  have hsplit := List.dropLast_append_getLast hne
  refine ⟨hne, ?_, by simp [hnode]⟩
  apply t.parent_dir p.dropLast (p.getLast hne)
  rw [hsplit, hnode]
  rfl

end FileTree
