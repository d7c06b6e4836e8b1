/-
# Finding by pattern

A disk as the list of the paths on it, spelled as they were created. A pattern is
followed one segment at a time: a segment without pattern characters is a step
that the system takes, capitals aside, and any other segment is compared with
the names that the directory reached so far is read with, capitals included.
Reading a directory yields itself and its parent first, except at the root of a
volume.
-/

import WampManager.Lib.Glob

namespace Glob

/-- Does a segment hold a pattern? An opening bracket that is never closed is an
ordinary character. -/
def isPattern : Text → Bool
  | [] => false
  | c :: rest => c == '*' || c == '?' || (c == '[' && (bracket rest).isSome) || isPattern rest

theorem isPattern_of_literal {t : Text} (ht : Literal t) : isPattern t = false := by
  induction t with
  | nil => rfl
  | cons c t ih =>
      obtain ⟨hstar, hany, hbracket⟩ := ht c List.mem_cons_self
      simp [isPattern, hstar, hany, hbracket, ih fun d hd => ht d (List.mem_cons_of_mem _ hd)]

/-- A star alone matches every name that does not begin with a dot. -/
theorem matchSegment_star (name : Text) :
    matchSegment ['*'] name = true ↔ name.head? ≠ some '.' := by
  have hany : name.tails.any (matchItems []) = true :=
    List.any_eq_true.mpr ⟨[], by simp [List.mem_tails], rfl⟩
  have hitems : matchItems (compileFrom 0 ['*']) name = true := hany
  simp [matchSegment, hitems]

end Glob

/-- The paths on a disk. -/
structure Listing where
  paths : List FilePath
  /-- No name is a step of its own. -/
  named : ∀ p ∈ paths, ∀ s ∈ p, s ≠ [] ∧ FilePath.Ordinary s ∧ ∀ c ∈ s, FilePath.isSep c = false
  /-- Whatever is there lies in something that is there. -/
  parents : ∀ p ∈ paths, p.dropLast = [] ∨
    ∃ q ∈ paths, q.map Text.lower = p.dropLast.map Text.lower

namespace Listing

open FilePath (segments push follow isSep isVolume)

variable (disk : Listing)

/-- The names in a directory, as they were created. -/
def entries (dir : FilePath) : List Text :=
  disk.paths.filterMap fun p =>
    if p.dropLast.map Text.lower = dir.map Text.lower then p.getLast? else none

/-- Is there anything at a path? -/
def present (p : FilePath) : Bool :=
  disk.paths.any fun q => q.map Text.lower == p.map Text.lower

/-- What reading a directory yields. -/
def readdir (dir : FilePath) : List Text :=
  if dir.length ≤ 1 then disk.entries dir else ['.'] :: ['.', '.'] :: disk.entries dir

/-- Where the segments of a pattern lead from a directory. -/
def walk : List Text → FilePath → List FilePath
  | [], dir => [dir]
  | s :: ss, dir =>
      if Glob.isPattern s then
        ((disk.readdir dir).filter (Glob.matchSegment s)).flatMap fun name =>
          walk ss (push dir name)
      else walk ss (push dir s)

/-- Where a path text starts from, in a current directory. -/
def origin (cwd : FilePath) (t : Text) : FilePath :=
  match segments t with
  | [] => cwd.take 1
  | s :: _ =>
      if isVolume s then []
      else if t.head?.any isSep then cwd.take 1
      else cwd

/-- `glob`: the paths that a pattern finds. -/
def glob (cwd : FilePath) (pattern : Text) : List FilePath :=
  if Glob.crosses pattern then []
  else (disk.walk (segments pattern) (origin cwd pattern)).filter disk.present

/-- The directory that a path text names. -/
def place (cwd : FilePath) (t : Text) : FilePath := follow (origin cwd t) t

/-! ## Reading -/

variable {disk}

theorem mem_entries {dir : FilePath} {name : Text} :
    name ∈ disk.entries dir ↔ ∃ p ∈ disk.paths,
      p.dropLast.map Text.lower = dir.map Text.lower ∧ p.getLast? = some name := by
  simp only [entries, List.mem_filterMap, Option.ite_none_right_eq_some]

theorem named_of_mem_entries {dir : FilePath} {name : Text} (h : name ∈ disk.entries dir) :
    name ≠ [] ∧ FilePath.Ordinary name := by
  obtain ⟨p, hp, -, hlast⟩ := mem_entries.mp h
  obtain ⟨hne, hordinary, -⟩ := disk.named p hp name (List.mem_of_getLast? hlast)
  exact ⟨hne, hordinary⟩

theorem push_of_mem_entries {dir : FilePath} {name : Text} (h : name ∈ disk.entries dir) :
    push dir name = dir ++ [name] := by
  obtain ⟨hself, hparent⟩ := (named_of_mem_entries h).2
  rw [push, if_neg hself, if_neg hparent]

/-- What a directory lists is there. -/
theorem present_of_mem_entries {dir : FilePath} {name : Text} (h : name ∈ disk.entries dir) :
    disk.present (dir ++ [name]) = true := by
  obtain ⟨p, hp, hdir, hlast⟩ := mem_entries.mp h
  rw [present, List.any_eq_true]
  refine ⟨p, hp, beq_iff_eq.mpr ?_⟩
  have hne : p ≠ [] := by
    rintro rfl
    cases hlast
  rw [← List.dropLast_append_getLast hne, List.map_append, hdir, List.map_append]
  rw [List.getLast?_eq_some_getLast hne, Option.some.injEq] at hlast
  rw [hlast]

/-- A star skips the directory itself, its parent and the names with a dot in front. -/
theorem filter_readdir_star (disk : Listing) (dir : FilePath) :
    (disk.readdir dir).filter (Glob.matchSegment ['*']) =
      (disk.entries dir).filter fun name => name.head? ≠ some '.' := by
  have hmatch : Glob.matchSegment ['*'] = fun name => decide (name.head? ≠ some '.') :=
    funext fun name => by
      rw [Bool.eq_iff_iff, Glob.matchSegment_star, decide_eq_true_iff]
  rw [hmatch, readdir]
  split
  · rfl
  · rfl

/-! ## Following a pattern -/

theorem walk_append (ss ss' : List Text) (dir : FilePath) :
    disk.walk (ss ++ ss') dir = (disk.walk ss dir).flatMap (disk.walk ss') := by
  induction ss generalizing dir with
  | nil => simp [walk]
  | cons s ss ih =>
      rw [List.cons_append, walk, walk]
      by_cases hpattern : Glob.isPattern s
      · rw [if_pos hpattern, if_pos hpattern, List.flatMap_assoc]
        exact List.flatMap_congr fun name _ => ih _
      · rw [if_neg hpattern, if_neg hpattern, ih]

/-- Without pattern characters there is one way to go. -/
theorem walk_of_not_pattern {ss : List Text} (h : ∀ s ∈ ss, Glob.isPattern s = false)
    (dir : FilePath) : disk.walk ss dir = [ss.foldl push dir] := by
  induction ss generalizing dir with
  | nil => rfl
  | cons s ss ih =>
      obtain ⟨hs, hss⟩ := List.forall_mem_cons.mp h
      rw [walk, if_neg (by simp [hs]), ih hss, List.foldl_cons]

theorem walk_star (dir : FilePath) :
    disk.walk [['*']] dir =
      ((disk.readdir dir).filter (Glob.matchSegment ['*'])).map (push dir) := by
  have hpattern : Glob.isPattern ['*'] = true := rfl
  rw [walk, if_pos hpattern, List.map_eq_flatMap]
  rfl

/-- A text without segments begins with a separator. -/
theorem head?_of_segments_nil {t : Text} (hne : t ≠ []) (h : segments t = []) :
    t.head?.any isSep = true := by
  cases t with
  | nil => exact absurd rfl hne
  | cons c t =>
      by_contra hc
      have hflat := FilePath.flatten_segments (c :: t)
      rw [h] at hflat
      simp at hc hflat
      simp [hc] at hflat

/-- What stands behind a directory starts where the directory does, unless only
separators stand in front of a volume. -/
theorem origin_append (cwd : FilePath) {dir t : Text} (hne : dir ≠ [])
    (ht : segments dir = [] → ∀ s ∈ (segments t).head?, isVolume s = false) :
    origin cwd (dir ++ '/' :: t) = origin cwd dir := by
  have hhead : (dir ++ '/' :: t).head? = dir.head? := by
    cases dir with
    | nil => exact absurd rfl hne
    | cons c dir => rfl
  rw [origin, origin, FilePath.segments_append_sep dir t rfl, hhead]
  cases hs : segments dir with
  | cons s ss => rfl
  | nil =>
      have hsep := head?_of_segments_nil hne hs
      cases ht' : segments t with
      | nil => rfl
      | cons s ss =>
          have hvolume := ht hs s (by simp [ht'])
          simp [hsep, hvolume]

/-- A star behind a directory starts where the directory does. -/
theorem origin_append_star (cwd : FilePath) {dir : Text} (h : dir ≠ []) :
    origin cwd (dir ++ ['/', '*']) = origin cwd dir :=
  origin_append cwd h fun _ => by decide

/-- A name behind a directory is the next step. -/
theorem place_append_name (cwd : FilePath) {dir name : Text} (hne : dir ≠ []) (hname : name ≠ [])
    (hsep : ∀ c ∈ name, isSep c = false) (hordinary : FilePath.Ordinary name)
    (hvolume : isVolume name = true → place cwd dir = []) :
    place cwd (dir ++ '/' :: name) = place cwd dir ++ [name] := by
  have hlast : segments name = [name] := FilePath.segments_of_no_sep hname hsep
  have hsegments : segments (dir ++ '/' :: name) = segments dir ++ [name] := by
    rw [FilePath.segments_append_sep _ _ rfl, hlast]
  have hpush : ∀ p : FilePath, push p name = p ++ [name] := fun p => by
    rw [push, if_neg hordinary.1, if_neg hordinary.2]
  rw [place, follow, hsegments, List.foldl_append, List.foldl_cons, List.foldl_nil, hpush]
  by_cases hroot : segments dir = [] ∧ isVolume name = true
  · -- the volume itself is named
    have horigin : origin cwd (dir ++ '/' :: name) = [] := by
      rw [origin, hsegments, hroot.1]
      simp [hroot.2]
    rw [horigin, hvolume hroot.2, hroot.1]
    rfl
  · have horigin : origin cwd (dir ++ '/' :: name) = origin cwd dir := by
      refine origin_append cwd hne fun hs s hm => ?_
      rw [hlast, List.head?_cons, Option.mem_some_iff] at hm
      simpa [← hm] using fun hv => hroot ⟨hs, hv⟩
    rw [horigin, place, follow]

/-- Behind a directory without pattern characters a star finds what it lists, but for
the names with a dot in front. -/
theorem glob_append_star (disk : Listing) (cwd : FilePath) {dir : Text} (hne : dir ≠ [])
    (hliteral : Glob.Literal dir) :
    disk.glob cwd (dir ++ ['/', '*']) =
      ((disk.entries (place cwd dir)).filter fun name => name.head? ≠ some '.').map
        fun name => place cwd dir ++ [name] := by
  have hsegments : segments (dir ++ ['/', '*']) = segments dir ++ [['*']] :=
    FilePath.segments_append_sep dir ['*'] rfl
  have hplain : ∀ s ∈ segments dir, Glob.isPattern s = false := fun s hs =>
    Glob.isPattern_of_literal fun c hc => hliteral c (FilePath.mem_of_mem_segments hs c hc)
  have hcrosses : Glob.crosses (dir ++ ['/', '*']) = false := by
    rw [Glob.crosses_append_star, Glob.crosses_of_literal hliteral]
  rw [glob, hcrosses, if_neg Bool.false_ne_true, hsegments, origin_append_star cwd hne,
    walk_append, walk_of_not_pattern hplain, List.flatMap_singleton, walk_star,
    filter_readdir_star]
  have hpush : ∀ name ∈ (disk.entries (place cwd dir)).filter fun name => name.head? ≠ some '.',
      push (place cwd dir) name = place cwd dir ++ [name] := fun name hname =>
    push_of_mem_entries (List.mem_of_mem_filter hname)
  rw [← follow, ← place, List.map_congr_left hpush, List.filter_eq_self]
  intro p hp
  obtain ⟨name, hname, rfl⟩ := List.mem_map.mp hp
  exact present_of_mem_entries (List.mem_of_mem_filter hname)

end Listing
