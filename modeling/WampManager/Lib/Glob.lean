/-
# Glob patterns

A pattern is matched one path segment at a time: `*` stands for any run of
characters, `?` for one character, a bracket expression for one character of a
set, and every other character for itself. A name that begins with a dot is
matched only by a pattern segment that begins with a dot. There is no escape
character, as on systems whose separator is the backslash.

Brackets are paired before the pattern is cut into segments. The end of an expression
that goes on behind a separator then stands in a later segment by itself, where no
character of a name is like it, and the pattern finds nothing.
-/

import Mathlib.Data.List.Infix
import WampManager.Lib.FilePath

namespace Glob

/-- One item of a compiled pattern segment. -/
inductive Item
  | star
  | one (accepts : Char → Bool)

/-- The item that accepts one given character. -/
def Item.lit (c : Char) : Item := .one (· == c)

/-- The ranges listed between brackets; a single character is its own range. -/
def ranges : Text → List (Char × Char)
  | [] => []
  | low :: '-' :: high :: rest => (low, high) :: ranges rest
  | c :: rest => (c, c) :: ranges rest

/-- The bracket expression that starts behind an opening bracket, with the
number of characters it takes; none if it is never closed. The first character
is a member even when it is a closing bracket. -/
def bracket (rest : Text) : Option ((Char → Bool) × ℕ) :=
  let negated := rest.head? == some '!'
  match if negated then rest.tail else rest with
  | [] => none
  | first :: more =>
      if ']' ∈ more then
        let body := first :: more.takeWhile (· != ']')
        some (fun c => (ranges body).any (fun r => r.1 ≤ c && c ≤ r.2) != negated,
          (if negated then 1 else 0) + body.length + 1)
      else none

/-- Compile a segment; the counter skips the inside of a bracket expression. -/
def compileFrom : ℕ → Text → List Item
  | _, [] => []
  | skip + 1, _ :: rest => compileFrom skip rest
  | 0, c :: rest =>
      if c = '*' then .star :: compileFrom 0 rest
      else if c = '?' then .one (fun _ => true) :: compileFrom 0 rest
      else if c = '[' then
        match bracket rest with
        | some (accepts, size) => .one accepts :: compileFrom size rest
        | none => .lit c :: compileFrom 0 rest
      else .lit c :: compileFrom 0 rest

/-- Does a bracket expression of a pattern go on behind a separator? The counter skips the
inside of an expression that does not. -/
def crossesFrom : ℕ → Text → Bool
  | _, [] => false
  | skip + 1, _ :: rest => crossesFrom skip rest
  | 0, c :: rest =>
      if c = '[' then
        match bracket rest with
        | some (_, size) => (rest.take size).any FilePath.isSep || crossesFrom size rest
        | none => crossesFrom 0 rest
      else crossesFrom 0 rest

/-- The same of a whole pattern. -/
def crosses (pattern : Text) : Bool := crossesFrom 0 pattern

/-- Match a compiled segment against a whole name. -/
def matchItems : List Item → Text → Bool
  | [], name => name.isEmpty
  | .star :: items, name => name.tails.any (matchItems items)
  | .one _ :: _, [] => false
  | .one accepts :: items, c :: name => accepts c && matchItems items name

/-- Does a pattern segment match a name? -/
def matchSegment (pattern name : Text) : Bool :=
  (name.head? != some '.' || pattern.head? == some '.') &&
    matchItems (compileFrom 0 pattern) name

/-- Does a pattern match a path, segment by segment? -/
def matchPath : FilePath → FilePath → Bool
  | [], [] => true
  | pattern :: patterns, name :: names => matchSegment pattern name && matchPath patterns names
  | _, _ => false

/-- A text without pattern characters. -/
def Literal (t : Text) : Prop := ∀ c ∈ t, c ≠ '*' ∧ c ≠ '?' ∧ c ≠ '['

instance (t : Text) : Decidable (Literal t) := inferInstanceAs (Decidable (∀ c ∈ t, _))

/-! ## Literal segments -/

theorem compileFrom_literal_append {t : Text} (ht : Literal t) (rest : Text) :
    compileFrom 0 (t ++ rest) = t.map Item.lit ++ compileFrom 0 rest := by
  induction t with
  | nil => rfl
  | cons c t ih =>
      obtain ⟨hstar, hany, hbracket⟩ := ht c List.mem_cons_self
      rw [List.cons_append, compileFrom, if_neg hstar, if_neg hany, if_neg hbracket,
        ih fun d hd => ht d (List.mem_cons_of_mem _ hd)]
      rfl

theorem matchItems_lit_append (t : Text) (items : List Item) (name : Text) :
    matchItems (t.map Item.lit ++ items) name = true ↔
      ∃ rest, name = t ++ rest ∧ matchItems items rest = true := by
  induction t generalizing name with
  | nil => simp
  | cons c t ih =>
      cases name with
      | nil => simp [matchItems, Item.lit]
      | cons d name =>
          have hstep : matchItems ((c :: t).map Item.lit ++ items) (d :: name) =
              ((d == c) && matchItems (t.map Item.lit ++ items) name) := rfl
          rw [hstep, Bool.and_eq_true, ih, beq_iff_eq]
          constructor
          · rintro ⟨rfl, rest, rfl, hrest⟩
            exact ⟨rest, rfl, hrest⟩
          · rintro ⟨rest, heq, hrest⟩
            obtain ⟨rfl, rfl⟩ := List.cons.inj heq
            exact ⟨rfl, rest, rfl, hrest⟩

theorem matchItems_literal {t : Text} (ht : Literal t) (name : Text) :
    matchItems (compileFrom 0 t) name = true ↔ name = t := by
  have h := matchItems_lit_append t [] name
  rw [List.append_nil] at h
  have hcompile := compileFrom_literal_append ht []
  rw [List.append_nil] at hcompile
  rw [hcompile, compileFrom, List.append_nil, h]
  simp [matchItems]

/-- A literal segment matches only itself. -/
theorem matchSegment_literal {t : Text} (ht : Literal t) (name : Text) :
    matchSegment t name = true ↔ name = t := by
  rw [matchSegment, Bool.and_eq_true, matchItems_literal ht]
  constructor
  · exact fun h => h.2
  · rintro rfl
    refine ⟨?_, rfl⟩
    by_cases hdot : name.head? = some '.' <;> simp [hdot]

/-- A star in front of a literal text matches exactly the names that end in it, without
those that begin with a dot. -/
theorem matchSegment_star_append {t : Text} (ht : Literal t) (name : Text) :
    matchSegment ('*' :: t) name = true ↔ t <:+ name ∧ name.head? ≠ some '.' := by
  have hitems : matchItems (compileFrom 0 ('*' :: t)) name = true ↔ t <:+ name := by
    have hstar : compileFrom 0 ('*' :: t) = .star :: compileFrom 0 t := rfl
    rw [hstar, matchItems, List.any_eq_true]
    apply Iff.intro
    · intro ⟨u, hu, hmatch⟩
      rw [← (matchItems_literal ht u).mp hmatch]
      exact (List.mem_tails _ _).mp hu
    · intro hends
      exact ⟨t, (List.mem_tails _ _).mpr hends, (matchItems_literal ht t).mpr rfl⟩
  rw [matchSegment, Bool.and_eq_true, hitems, and_comm]
  simp

/-- A literal name followed by `.*` matches exactly the names that extend it by
a dot. -/
theorem matchSegment_dot_star {t : Text} (ht : Literal t) (name : Text) :
    matchSegment (t ++ ['.', '*']) name = true ↔ t ++ ['.'] <+: name := by
  have hdotted : Literal (t ++ ['.']) := by
    intro c hc
    rcases List.mem_append.mp hc with hc | hc
    · exact ht c hc
    · rw [List.mem_singleton.mp hc]
      decide
  have hitems : matchItems (compileFrom 0 (t ++ ['.', '*'])) name = true ↔
      t ++ ['.'] <+: name := by
    rw [show t ++ ['.', '*'] = (t ++ ['.']) ++ ['*'] by simp,
      compileFrom_literal_append hdotted, matchItems_lit_append]
    constructor
    · rintro ⟨rest, rfl, -⟩
      exact List.prefix_append _ _
    · rintro ⟨rest, rfl⟩
      refine ⟨rest, rfl, ?_⟩
      simp only [compileFrom, if_true, matchItems, List.any_eq_true, List.mem_tails]
      exact ⟨[], List.nil_suffix, rfl⟩
  rw [matchSegment, Bool.and_eq_true, hitems]
  refine ⟨fun h => h.2, fun h => ⟨?_, h⟩⟩
  obtain ⟨rest, rfl⟩ := h
  cases t with
  | nil => rfl
  | cons c t =>
      by_cases hdot : c = '.' <;> simp [hdot]

/-! ## Brackets and separators -/

theorem crosses_append {t : Text} (ht : Literal t) (rest : Text) :
    crosses (t ++ rest) = crosses rest := by
  induction t with
  | nil => rfl
  | cons c t ih =>
      obtain ⟨-, -, hbracket⟩ := ht c List.mem_cons_self
      have htail := ih fun d hd => ht d (List.mem_cons_of_mem _ hd)
      rw [List.cons_append, crosses, crossesFrom, if_neg hbracket]
      exact htail

theorem crosses_of_literal {t : Text} (ht : Literal t) : crosses t = false := by
  have h := crosses_append ht []
  rwa [List.append_nil] at h

theorem crossesFrom_of_no_sep {t : Text} (h : ∀ c ∈ t, FilePath.isSep c = false) (skip : ℕ) :
    crossesFrom skip t = false := by
  induction t generalizing skip with
  | nil => rfl
  | cons c t ih =>
      have htail := ih fun d hd => h d (List.mem_cons_of_mem _ hd)
      cases skip with
      | succ skip => exact htail skip
      | zero =>
          rw [crossesFrom]
          split
          · split
            · next size _ =>
                have hnone : (t.take size).any FilePath.isSep = false := by
                  rw [List.any_eq_false]
                  intro d hd
                  simp [h d (List.mem_cons_of_mem _ (List.mem_of_mem_take hd))]
                rw [hnone, htail size]
                rfl
            · exact htail 0
          · exact htail 0

/-- What stands behind a pattern without a closing bracket closes nothing. -/
theorem bracket_append {rest more : Text} (hmore : ']' ∉ more) (h : rest ≠ [])
    (hsign : rest ≠ ['!']) : bracket (rest ++ more) = bracket rest := by
  obtain ⟨c, rest, rfl⟩ := List.exists_cons_of_ne_nil h
  have htake : ∀ t : Text, ']' ∈ t →
      (t ++ more).takeWhile (· != ']') = t.takeWhile (· != ']') := by
    intro t ht
    obtain ⟨front, back, rfl, hfront⟩ := List.eq_append_cons_of_mem ht
    have hclear : ∀ d ∈ front, (d != ']') = true := by
      intro d hd
      simp only [bne_iff_ne, ne_eq]
      rintro rfl
      exact hfront hd
    rw [List.append_assoc, List.takeWhile_append_of_pos hclear,
      List.takeWhile_append_of_pos hclear, List.cons_append]
    simp
  by_cases hc : c = '!'
  · subst hc
    obtain ⟨first, rest, rfl⟩ := List.exists_cons_of_ne_nil (by simpa using hsign : rest ≠ [])
    by_cases hclosed : ']' ∈ rest
    · simp [bracket, hclosed, htake rest hclosed]
    · simp [bracket, hclosed, hmore]
  · by_cases hclosed : ']' ∈ rest
    · simp [bracket, hc, hclosed, htake rest hclosed]
    · simp [bracket, hc, hclosed, hmore]

theorem bracket_size_le {rest : Text} {accepts : Char → Bool} {size : ℕ}
    (h : bracket rest = some (accepts, size)) : size ≤ rest.length := by
  have hbody : ∀ t : Text, ']' ∈ t → (t.takeWhile (· != ']')).length < t.length := by
    intro t ht
    obtain ⟨front, back, rfl, -⟩ := List.eq_append_cons_of_mem ht
    have hle := (List.takeWhile_prefix (l := front ++ ']' :: back) (· != ']')).length_le
    refine lt_of_le_of_ne hle fun heq => ?_
    have hall := List.takeWhile_eq_self_iff.mp
      ((List.takeWhile_prefix _).eq_of_length heq) ']' (by simp)
    simp at hall
  unfold bracket at h
  by_cases hsign : rest.head? = some '!'
  · obtain ⟨back, rfl⟩ := List.head?_eq_some_iff.mp hsign
    cases back with
    | nil => simp at h
    | cons first more =>
        by_cases hclosed : ']' ∈ more
        · have hlt := hbody more hclosed
          simp [hclosed] at h
          simp only [List.length_cons]
          omega
        · simp [hclosed] at h
  · cases rest with
    | nil => simp at h
    | cons first more =>
        have hfirst : first ≠ '!' := by simpa using hsign
        by_cases hclosed : ']' ∈ more
        · have hlt := hbody more hclosed
          simp [hclosed, hfirst] at h
          simp only [List.length_cons]
          omega
        · simp [hclosed, hfirst] at h

/-- A star behind a directory crosses what the directory crosses. -/
theorem crosses_append_star (dir : Text) : crosses (dir ++ ['/', '*']) = crosses dir := by
  have hall : ∀ (t : Text) (skip : ℕ),
      crossesFrom skip (t ++ ['/', '*']) = crossesFrom skip t := by
    intro t
    induction t with
    | nil =>
        intro skip
        rcases skip with - | - | skip <;> rfl
    | cons c t ih =>
        intro skip
        cases skip with
        | succ skip => exact ih skip
        | zero =>
            rw [List.cons_append, crossesFrom, crossesFrom]
            by_cases hc : c = '['
            · rw [if_pos hc, if_pos hc]
              by_cases hshort : t = [] ∨ t = ['!']
              · rcases hshort with rfl | rfl <;> rfl
              · push Not at hshort
                rw [bracket_append (by decide) hshort.1 hshort.2]
                cases hbracket : bracket t with
                | none => exact ih 0
                | some found =>
                    have hsize := bracket_size_le hbracket
                    simp only [List.take_append_of_le_length hsize, ih]
            · rw [if_neg hc, if_neg hc, ih]
  exact hall dir 0

/-- A directory without pattern characters in front of a name crosses nothing. -/
theorem crosses_name {dir name : Text} (hdir : Literal dir)
    (hname : ∀ c ∈ name, FilePath.isSep c = false) : crosses (dir ++ '\\' :: name) = false := by
  have hsep : Literal (dir ++ ['\\']) := by
    intro c hc
    rcases List.mem_append.mp hc with hc | hc
    · exact hdir c hc
    · rw [List.mem_singleton.mp hc]
      decide
  rw [List.append_cons, crosses_append hsep]
  exact crossesFrom_of_no_sep hname 0

/-! ## Paths -/

/-- A literal path matches only itself. -/
theorem matchPath_literal {dir : FilePath} (hdir : ∀ s ∈ dir, Literal s) (p : FilePath) :
    matchPath dir p = true ↔ p = dir := by
  induction dir generalizing p with
  | nil => cases p <;> simp [matchPath]
  | cons s dir ih =>
      cases p with
      | nil => simp [matchPath]
      | cons name names =>
          rw [matchPath, Bool.and_eq_true, matchSegment_literal (hdir s List.mem_cons_self),
            ih fun r hr => hdir r (List.mem_cons_of_mem _ hr), List.cons.injEq]

/-- A literal beginning that two paths share decides nothing. -/
theorem matchPath_literal_append {front : FilePath} (hfront : ∀ s ∈ front, Literal s)
    (patterns names : FilePath) :
    matchPath (front ++ patterns) (front ++ names) = matchPath patterns names := by
  induction front with
  | nil => rfl
  | cons s front ih =>
      have hself := (matchSegment_literal (hfront s List.mem_cons_self) s).mpr rfl
      rw [List.cons_append, List.cons_append, matchPath, hself, Bool.true_and]
      exact ih fun r hr => hfront r (List.mem_cons_of_mem s hr)

/-- What matches behind two equally long beginnings. -/
theorem matchPath_of_append {front front' patterns names : FilePath}
    (hlength : front.length = front'.length)
    (h : matchPath (front ++ patterns) (front' ++ names) = true) :
    matchPath patterns names = true := by
  induction front generalizing front' with
  | nil =>
      rw [List.length_nil] at hlength
      rwa [List.eq_nil_of_length_eq_zero hlength.symm] at h
  | cons s front ih =>
      cases front' with
      | nil => simp at hlength
      | cons s' front' =>
          rw [List.cons_append, List.cons_append, matchPath, Bool.and_eq_true] at h
          exact ih (by simpa using hlength) h.2

end Glob
