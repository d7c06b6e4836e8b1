/-
# Where unpacking reaches

The names of an archive are arbitrary texts. `unzip` splits them at forward
slashes alone, drops the first parts and hands what is left to `mkdir` and, taken
apart by `dirname` and `basename`, to `rename`; nobody looks at `..`. What is
worked out here is which names stay at or below the destination.
-/

import WampManager.UnzipMe

namespace WampManager

namespace UnzipMe

/-- The options of `unzip`. A pattern is given by the names it matches. -/
structure Options where
  strip : ℕ
  isMatch : List (Text → Bool)
  matchExcludes : Bool

/-- Does a name pass the filters? -/
def Options.passes (o : Options) (name : Text) : Bool :=
  if o.isMatch = [] then true
  else if o.matchExcludes then !o.isMatch.any (· name)
  else o.isMatch.any (· name)

/-- Is an entry extracted, and its target computed? -/
def Options.Takes (o : Options) (name : Text) : Prop :=
  o.passes name = true ∧ o.strip < (explode name).length

instance (o : Options) (name : Text) : Decidable (o.Takes name) :=
  inferInstanceAs (Decidable (_ ∧ _))

/-- What one round of the loop passes to `mkdir` and to `rename` as a target. -/
def targets (o : Options) (dest : Text) (name : Text) : List Text :=
  if o.passes name = false then []
  else if (explode name).length ≤ o.strip then []
  else
    let stripped := stripped o.strip name
    let dir := dest ++ '\\' :: FilePath.driveDirname stripped
    let file := FilePath.driveBasename stripped
    (if stripped.getLast? = some '/' then [dest ++ '\\' :: stripped] else []) ++
      (if file.length ≠ 0 then [dir ++ '\\' :: file] else [])

/-- What `unzip` passes to `mkdir` and to `rename` as a target. -/
def allTargets (o : Options) (dest : Text) (d : Drive) (names : List Text) : List Text :=
  (if d.isDir dest then [] else [dest]) ++ names.flatMap (targets o dest)

/-- Nothing outside of the destination is made or moved to. -/
def Confined (o : Options) (dest : Text) (d : Drive) (names : List Text) : Prop :=
  ∀ p ∈ allTargets o dest d names, FilePath.Inside (Drive.key dest) (Drive.key p)

instance (o : Options) (dest : Text) (d : Drive) (names : List Text) :
    Decidable (Confined o dest d names) :=
  inferInstanceAs (Decidable (∀ p ∈ _, _))

/-- The segments of what is left of a name return to the destination: read as one
path if it ends in a slash, and read as directory and file if it has a file. -/
structure Stays (dest stripped : Text) : Prop where
  directory : stripped.getLast? = some '/' →
    FilePath.Returns (FilePath.resolve dest) (FilePath.segments stripped)
  file : FilePath.driveBasename stripped ≠ [] →
    FilePath.Returns (FilePath.resolve dest)
      (FilePath.segments (FilePath.driveDirname stripped) ++
        FilePath.segments (FilePath.driveBasename stripped))

section

variable {o : Options} {dest name : Text}

theorem inside_append_sep (path : Text) :
    FilePath.Inside (Drive.key dest) (Drive.key (dest ++ '\\' :: path)) ↔
      FilePath.Returns (FilePath.resolve dest) (FilePath.segments path) := by
  rw [Drive.key, Drive.key, FilePath.resolve_append_sep _ _ (by decide)]
  exact FilePath.inside_foldl_push _ _

/-- Without colons the directory and the file of a name are followed as the name is. -/
theorem stays_iff {t : Text} (hcolon : ':' ∉ t) :
    Stays dest t ↔ FilePath.Returns (FilePath.resolve dest) (FilePath.segments t) := by
  have hbase := FilePath.driveBasename_eq hcolon
  have hdir := FilePath.driveDirname_eq hcolon
  have hfile : FilePath.basename t ≠ [] →
      (FilePath.Returns (FilePath.resolve dest) (FilePath.segments (FilePath.driveDirname t) ++
        FilePath.segments (FilePath.driveBasename t)) ↔
          FilePath.Returns (FilePath.resolve dest) (FilePath.segments t)) := by
    intro hne
    rw [← inside_append_sep t, Drive.key, Drive.key,
      ← FilePath.resolve_dirname_basename dest (by decide) hne, List.append_assoc,
      List.cons_append, FilePath.resolve_append_sep _ _ (by decide),
      FilePath.segments_append_sep _ _ (by decide), hdir, hbase, FilePath.inside_foldl_push]
  constructor
  · intro hstays
    by_cases hne : FilePath.basename t = []
    · rw [FilePath.segments_eq_nil hne]
      simp [FilePath.Returns, FilePath.walk]
    · exact (hfile hne).mp (hstays.file (hbase ▸ hne))
  · intro hreturns
    exact ⟨fun _ => hreturns, fun hne => (hfile (hbase ▸ hne)).mpr hreturns⟩

/-- One round stays inside exactly if what is left of the name does. -/
theorem targets_inside_iff :
    (∀ p ∈ targets o dest name, FilePath.Inside (Drive.key dest) (Drive.key p)) ↔
      (o.Takes name → Stays dest (stripped o.strip name)) := by
  have hjoin : ∀ dir file : Text, dest ++ '\\' :: dir ++ '\\' :: file =
      dest ++ '\\' :: (dir ++ '\\' :: file) := fun dir file => by simp
  by_cases htakes : o.Takes name
  · have hlength : ¬ (explode name).length ≤ o.strip := Nat.not_le.mpr htakes.2
    have hfile : FilePath.Inside (Drive.key dest) (Drive.key
        (dest ++ '\\' :: FilePath.driveDirname (stripped o.strip name) ++
          '\\' :: FilePath.driveBasename (stripped o.strip name))) ↔
        FilePath.Returns (FilePath.resolve dest)
          (FilePath.segments (FilePath.driveDirname (stripped o.strip name)) ++
            FilePath.segments (FilePath.driveBasename (stripped o.strip name))) := by
      rw [hjoin, inside_append_sep, FilePath.segments_append_sep _ _ (by decide)]
    have hmem : ∀ p, p ∈ targets o dest name ↔
        (stripped o.strip name).getLast? = some '/' ∧
            p = dest ++ '\\' :: stripped o.strip name ∨
          FilePath.driveBasename (stripped o.strip name) ≠ [] ∧
            p = dest ++ '\\' :: FilePath.driveDirname (stripped o.strip name) ++
              '\\' :: FilePath.driveBasename (stripped o.strip name) := by
      intro p
      simp only [targets, htakes.1, hlength, Bool.true_eq_false, if_false, List.mem_append,
        List.mem_ite_nil_right, List.mem_singleton, ne_eq, List.length_eq_zero_iff]
    simp only [hmem]
    constructor
    · intro hall _
      constructor
      · exact fun hlast => (inside_append_sep _).mp (hall _ (.inl ⟨hlast, rfl⟩))
      · exact fun hbase => hfile.mp (hall _ (.inr ⟨hbase, rfl⟩))
    · rintro hstays p (⟨hlast, rfl⟩ | ⟨hbase, rfl⟩)
      · exact (inside_append_sep _).mpr ((hstays htakes).directory hlast)
      · exact hfile.mpr ((hstays htakes).file hbase)
  · have hnone : targets o dest name = [] := by
      by_cases hpasses : o.passes name = true
      · have hlength : (explode name).length ≤ o.strip := Nat.not_lt.mp fun hlt =>
          htakes ⟨hpasses, hlt⟩
        simp [targets, hlength]
      · simp [targets, hpasses]
    simp [hnone, htakes]

end

/-- Unpacking stays at or below its destination exactly if every name that it
takes does: what the name climbs out of the destination it enters again. -/
theorem unzip_confined (o : Options) (dest : Text) (d : Drive) (names : List Text) :
    Confined o dest d names ↔
      ∀ name ∈ names, o.Takes name → Stays dest (stripped o.strip name) := by
  have hdest : ∀ p ∈ (if d.isDir dest then [] else [dest]),
      FilePath.Inside (Drive.key dest) (Drive.key p) := by
    intro p hp
    rw [List.mem_ite_nil_left, List.mem_singleton] at hp
    rw [hp.2]
    exact List.prefix_rfl
  rw [Confined, allTargets]
  constructor
  · intro hall name hname
    refine targets_inside_iff.mp fun p hp => hall p (List.mem_append_right _ ?_)
    exact List.mem_flatMap.mpr ⟨name, hname, hp⟩
  · intro hstays p hp
    rcases List.mem_append.mp hp with hp | hp
    · exact hdest p hp
    · obtain ⟨name, hname, hp⟩ := List.mem_flatMap.mp hp
      exact targets_inside_iff.mpr (hstays name hname) p hp

/-- A name that climbs right behind the part that is dropped. -/
theorem unzip_escapes :
    ¬ ∀ (o : Options) (dest : Text) (d : Drive) (names : List Text),
      Confined o dest d names := by
  intro hall
  have hinside := hall ⟨1, [], true⟩ "C:\\a".toList .empty ["top/../x".toList]
  exact absurd hinside (by decide)

end UnzipMe

end WampManager
