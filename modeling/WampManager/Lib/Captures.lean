/-
# Patterns with captures

The patterns of a table of routes: fixed characters, and groups that read one or more
characters of a class. A match covers the whole text, but for a line feed at its end. A
group takes as many characters as it can and gives some back if the rest of the pattern
does not match. Where a character that a group does not read stands behind it, a text has
one match at most, and the patterns alone tell whether they have texts in common.
-/

import Mathlib.Data.List.Rotate
import WampManager.Lib.Text

namespace Captures

/-- The characters of a group: `\d`, `\w` or `.`. -/
inductive Kind
  | digit | word | any
  deriving DecidableEq

def Kind.accepts : Kind → Char → Bool
  | digit, c => c.isDigit
  | word, c => c.isAlphanum || c == '_'
  | any, c => c != '\n'

inductive Piece
  | lit (c : Char)
  | group (kind : Kind)
  deriving DecidableEq

abbrev Pattern := List Piece

/-- Read a pattern; none if it has signs of another kind. -/
def read : Text → Option Pattern
  | '(' :: '\\' :: 'd' :: '+' :: ')' :: t => (read t).map (.group .digit :: ·)
  | '(' :: '\\' :: 'w' :: '+' :: ')' :: t => (read t).map (.group .word :: ·)
  | '(' :: '.' :: '+' :: ')' :: t => (read t).map (.group .any :: ·)
  | c :: t =>
      if c ∈ "\\^$.[|()?*+\x7b\x00".toList then none else (read t).map (.lit c :: ·)
  | [] => some []

/-- A group gives characters back as long as the rest does not match. -/
def giveBack (rest : Text → Option (List Text)) (t : Text) : ℕ → Option (List Text)
  | 0 => none
  | n + 1 =>
      match rest (t.drop (n + 1)) with
      | some found => some (t.take (n + 1) :: found)
      | none => giveBack rest t n

/-- What the groups read in a match between `^` and `$`. -/
def capture : Pattern → Text → Option (List Text)
  | [], t => if t = [] ∨ t = ['\n'] then some [] else none
  | .lit _ :: _, [] => none
  | .lit c :: p, d :: t => if c = d then capture p t else none
  | .group kind :: p, t => giveBack (capture p) t (t.takeWhile kind.accepts).length

/-! ## Filled patterns -/

/-- A pattern with a text in each group. -/
inductive Filled : Pattern → List Text → Text → Prop
  | nil : Filled [] [] []
  | lit {c : Char} {p : Pattern} {args : List Text} {t : Text} :
      Filled p args t → Filled (.lit c :: p) args (c :: t)
  | group {kind : Kind} {p : Pattern} {w : Text} {args : List Text} {t : Text} :
      w ≠ [] → (∀ c ∈ w, kind.accepts c = true) → Filled p args t →
        Filled (.group kind :: p) (w :: args) (w ++ t)

variable {p q : Pattern} {kind : Kind} {args args' : List Text} {t : Text}

theorem giveBack_eq_some {rest : Text → Option (List Text)} {n : ℕ} {found : List Text}
    (h : giveBack rest t n = some found) :
    ∃ k tail, 0 < k ∧ k ≤ n ∧ found = t.take k :: tail ∧ rest (t.drop k) = some tail := by
  induction n with
  | zero => cases h
  | succ n ih =>
      rw [giveBack] at h
      cases hrest : rest (t.drop (n + 1)) with
      | some tail =>
          rw [hrest] at h
          exact ⟨n + 1, tail, n.succ_pos, le_rfl, (Option.some.inj h).symm, hrest⟩
      | none =>
          rw [hrest] at h
          obtain ⟨k, tail, hpos, hle, hfound, htail⟩ := ih h
          exact ⟨k, tail, hpos, by omega, hfound, htail⟩

theorem giveBack_isSome {rest : Text → Option (List Text)} {n k : ℕ} (hpos : 0 < k)
    (hle : k ≤ n) (h : (rest (t.drop k)).isSome) : (giveBack rest t n).isSome := by
  induction n with
  | zero => omega
  | succ n ih =>
      rw [giveBack]
      cases hrest : rest (t.drop (n + 1)) with
      | some tail => rfl
      | none =>
          apply ih
          have hne : k ≠ n + 1 := by
            intro heq
            rw [heq, hrest] at h
            cases h
          omega

theorem take_accepted {accepts : Char → Bool} {k : ℕ} (h : k ≤ (t.takeWhile accepts).length) :
    ∀ c ∈ t.take k, accepts c = true := by
  intro c hc
  have hbegins : t.take k <+: t.takeWhile accepts :=
    List.prefix_of_prefix_length_le ( List.take_prefix k t) ( List.takeWhile_prefix _)
      (by rw [List.length_take]; omega)
  exact List.mem_takeWhile_imp (hbegins.subset hc)

/-- A match fills the pattern, up to a line feed. -/
theorem filled_of_capture (h : capture p t = some args) :
    ∃ u, Filled p args u ∧ (t = u ∨ t = u ++ ['\n']) := by
  induction p generalizing t args with
  | nil =>
      obtain ⟨ht, hargs⟩ := Option.ite_none_right_eq_some.mp h
      rw [← Option.some.inj hargs]
      exact ⟨[], .nil, by simpa using ht⟩
  | cons piece p ih =>
      cases piece with
      | lit c =>
          cases t with
          | nil => cases h
          | cons d t =>
              obtain ⟨rfl, htail⟩ := Option.ite_none_right_eq_some.mp h
              obtain ⟨u, hfilled, ht⟩ := ih htail
              exact ⟨c :: u, .lit hfilled, by simpa using ht⟩
      | group kind =>
          obtain ⟨k, tail, hpos, hle, rfl, htail⟩ := giveBack_eq_some h
          obtain ⟨u, hfilled, ht⟩ := ih htail
          have hlength := ( List.takeWhile_prefix (l := t) kind.accepts).length_le
          have hne : t.take k ≠ [] := by
            intro hnil
            have := congrArg List.length hnil
            rw [List.length_take, List.length_nil] at this
            omega
          have hsplit := List.take_append_drop k t
          apply Exists.intro (t.take k ++ u)
          apply And.intro (.group hne (take_accepted hle) hfilled)
          rw [List.append_assoc]
          rcases ht with ht | ht <;> rw [ht] at hsplit
          · exact .inl hsplit.symm
          · exact .inr hsplit.symm

/-- A filled pattern is matched. -/
theorem capture_isSome (h : Filled p args t) : (capture p t).isSome := by
  induction h with
  | nil => rfl
  | lit _ ih => simpa [capture] using ih
  | group hne hw _ ih =>
      rename_i kind p w args t hfilled
      apply giveBack_isSome (List.length_pos_of_ne_nil hne)
      · rw [List.takeWhile_append_of_pos hw, List.length_append]
        omega
      · rwa [List.drop_left]

/-! ## Texts with one match -/

/-- Where the group can not go on. -/
def stops (kind : Kind) : Pattern → Bool
  | [] => true
  | .lit c :: _ => !kind.accepts c
  | .group _ :: _ => false

/-- No group can go on behind its text. -/
def guarded : Pattern → Bool
  | [] => true
  | .lit _ :: p => guarded p
  | .group kind :: p => stops kind p && guarded p

theorem Filled.of_lit {c : Char} (h : Filled (.lit c :: p) args t) :
    ∃ u, t = c :: u ∧ Filled p args u := by
  cases h with
  | lit h => exact ⟨_, rfl, h⟩

/-- A group reads something. -/
theorem Filled.head_group (h : Filled (.group kind :: p) args t) :
    ∃ c u, t = c :: u ∧ kind.accepts c = true := by
  cases h with
  | group hne hw hfilled =>
      rename_i w args t
      cases w with
      | nil => exact absurd rfl hne
      | cons c w => exact ⟨c, w ++ t, rfl, hw c List.mem_cons_self⟩

/-- A group in front goes no further. -/
theorem Filled.not_read (h : Filled p args t) (hp : stops kind p = true) :
    t.takeWhile kind.accepts = [] ∧ t.dropWhile kind.accepts = t := by
  cases p with
  | nil =>
      cases h
      exact ⟨rfl, rfl⟩
  | cons piece p =>
      cases piece with
      | lit c =>
          obtain ⟨u, rfl, -⟩ := h.of_lit
          have hc : kind.accepts c = false := by simpa [stops] using hp
          simp [hc]
      | group => cases hp

/-- A group reads up to the first character that it does not accept. -/
theorem Filled.run (h : Filled (.group kind :: p) args t) (hp : stops kind p = true) :
    ∃ tail, args = t.takeWhile kind.accepts :: tail ∧
      Filled p tail (t.dropWhile kind.accepts) := by
  cases h with
  | group hne hw hfilled =>
      obtain ⟨htake, hdrop⟩ := hfilled.not_read hp
      rw [List.takeWhile_append_of_pos hw, List.dropWhile_append_of_pos hw, htake, hdrop,
        List.append_nil]
      exact ⟨_, rfl, hfilled⟩

theorem Filled.unique (h : Filled p args t) (h' : Filled p args' t) (hp : guarded p = true) :
    args = args' := by
  induction p generalizing args args' t with
  | nil =>
      cases h
      cases h'
      rfl
  | cons piece p ih =>
      cases piece with
      | lit c =>
          cases h with
          | lit h =>
              cases h' with
              | lit h' => exact ih h h' hp
      | group kind =>
          obtain ⟨hstops, hp⟩ := (Bool.and_eq_true _ _).mp hp
          obtain ⟨tail, rfl, htail⟩ := h.run hstops
          obtain ⟨tail', rfl, htail'⟩ := h'.run hstops
          rw [ih htail htail' hp]

/-- Without line feeds, the captures are the texts that fill the pattern. -/
theorem capture_eq_some_iff (hp : guarded p = true) (ht : '\n' ∉ t) :
    capture p t = some args ↔ Filled p args t := by
  have hsound {found : List Text} (h : capture p t = some found) : Filled p found t := by
    obtain ⟨u, hfilled, rfl | rfl⟩ := filled_of_capture h
    · exact hfilled
    · exact absurd (by simp) ht
  apply Iff.intro hsound
  intro h
  obtain ⟨found, hfound⟩ := Option.isSome_iff_exists.mp (capture_isSome h)
  rw [hfound, (hsound hfound).unique h hp]

/-- Fixed characters are read as they are. -/
theorem filled_lits_append {w : Text} :
    Filled (w.map .lit ++ p) args t ↔ ∃ u, t = w ++ u ∧ Filled p args u := by
  induction w generalizing t with
  | nil => simp
  | cons c w ih =>
      rw [List.map_cons, List.cons_append]
      apply Iff.intro
      · intro h
        obtain ⟨u, rfl, htail⟩ := h.of_lit
        obtain ⟨v, rfl, hrest⟩ := ih.mp htail
        exact ⟨v, rfl, hrest⟩
      · intro h
        obtain ⟨v, rfl, h⟩ := h
        exact .lit (ih.mpr ⟨v, rfl, h⟩)

theorem filled_group :
    Filled (.group kind :: p) args t ↔ ∃ w tail u, args = w :: tail ∧ t = w ++ u ∧ w ≠ [] ∧
      (∀ c ∈ w, kind.accepts c = true) ∧ Filled p tail u := by
  apply Iff.intro
  · intro h
    cases h with
    | group hne hw h => exact ⟨_, _, _, rfl, rfl, hne, hw, h⟩
  · intro h
    obtain ⟨w, tail, u, rfl, rfl, hne, hw, h⟩ := h
    exact .group hne hw h

theorem filled_nil : Filled [] args t ↔ args = [] ∧ t = [] := by
  apply Iff.intro
  · intro h
    cases h
    exact ⟨rfl, rfl⟩
  · intro h
    rw [h.1, h.2]
    exact .nil

/-- The characters of a filled pattern are fixed ones and those of the groups. -/
theorem Filled.forall_mem (h : Filled p args t) {P : Char → Prop}
    (hp : ∀ c, .lit c ∈ p → P c) (hargs : ∀ w ∈ args, ∀ c ∈ w, P c) : ∀ c ∈ t, P c := by
  induction h with
  | nil => exact fun c hc => absurd hc List.not_mem_nil
  | lit _ ih =>
      intro c hc
      rcases List.mem_cons.mp hc with rfl | hc
      · exact hp c List.mem_cons_self
      · exact ih (fun c hc => hp c (List.mem_cons_of_mem _ hc)) hargs c hc
  | group _ _ _ ih =>
      intro c hc
      rcases List.mem_append.mp hc with hc | hc
      · exact hargs _ List.mem_cons_self c hc
      · exact ih (fun c hc => hp c (List.mem_cons_of_mem _ hc))
          (fun w hw => hargs w (List.mem_cons_of_mem _ hw)) c hc

/-- Every group has a text of its kind. -/
theorem Filled.args_accepted (h : Filled p args t) : ∀ w ∈ args, w ≠ [] ∧
    ∃ kind, .group kind ∈ p ∧ ∀ c ∈ w, kind.accepts c = true := by
  induction h with
  | nil => exact fun w hw => absurd hw List.not_mem_nil
  | lit _ ih =>
      intro w hw
      obtain ⟨hne, kind, hkind, hall⟩ := ih w hw
      exact ⟨hne, kind, List.mem_cons_of_mem _ hkind, hall⟩
  | group hne hw _ ih =>
      intro v hv
      rcases List.mem_cons.mp hv with rfl | hv
      · exact ⟨hne, _, List.mem_cons_self, hw⟩
      · obtain ⟨hne, kind, hkind, hall⟩ := ih v hv
        exact ⟨hne, kind, List.mem_cons_of_mem _ hkind, hall⟩

/-! ## Patterns without common texts -/

/-- A character that a group reads. -/
def Piece.isRead (kind : Kind) : Piece → Bool
  | .lit c => kind.accepts c
  | .group _ => false

/-- What a pattern has behind the characters that a group reads. -/
abbrev behind (kind : Kind) (p : Pattern) : Pattern := p.dropWhile (Piece.isRead kind)

/-- Two patterns with no text in common, as far as a number of comparisons shows. -/
def apartFrom : ℕ → Pattern → Pattern → Bool
  | 0, _, _ => false
  | _ + 1, [], [] => false
  | _ + 1, [], _ :: _ => true
  | _ + 1, _ :: _, [] => true
  | n + 1, .lit c :: p, .lit d :: q => c != d || apartFrom n p q
  | n + 1, .group kind :: p, .group other :: q => kind == other && apartFrom n p q
  | n + 1, .group kind :: p, .lit d :: q =>
      !kind.accepts d || stops kind (behind kind q) && apartFrom n p (behind kind q)
  | n + 1, .lit c :: p, .group kind :: q =>
      !kind.accepts c || stops kind (behind kind p) && apartFrom n (behind kind p) q

/-- Two patterns with no text in common. -/
def apart (p q : Pattern) : Bool := apartFrom (p.length + q.length) p q

theorem guarded_behind (kind : Kind) (hp : guarded p = true) :
    guarded (behind kind p) = true := by
  induction p with
  | nil => rfl
  | cons piece p ih =>
      by_cases hread : piece.isRead kind = true
      · rw [behind, List.dropWhile_cons_of_pos hread]
        cases piece with
        | lit c => exact ih hp
        | group other => cases hread
      · rwa [behind, List.dropWhile_cons_of_neg hread]

/-- The characters that a group reads are read from the text too. -/
theorem Filled.drop_read (h : Filled p args t) (hp : stops kind (behind kind p) = true) :
    Filled (behind kind p) args (t.dropWhile kind.accepts) := by
  induction h with
  | nil => exact .nil
  | lit h ih =>
      rename_i c p args t
      by_cases hc : kind.accepts c = true
      · have hread : Piece.isRead kind (.lit c) = true := hc
        rw [behind, List.dropWhile_cons_of_pos hread] at hp ⊢
        rw [List.dropWhile_cons_of_pos hc]
        exact ih hp
      · have hread : ¬ Piece.isRead kind (.lit c) = true := hc
        rw [behind, List.dropWhile_cons_of_neg hread]
        rw [List.dropWhile_cons_of_neg hc]
        exact .lit h
  | group => cases hp

/-- A group and fixed characters in front of one text. -/
theorem Filled.common {c : Char} (h : Filled (.group kind :: p) args t)
    (h' : Filled (.lit c :: q) args' t) (hp : stops kind p = true) :
    kind.accepts c = true ∧ (stops kind (behind kind q) = true →
      ∃ tail tail' u, Filled p tail u ∧ Filled (behind kind q) tail' u) := by
  obtain ⟨u, rfl, hq'⟩ := h'.of_lit
  obtain ⟨d, _, heq, hd⟩ := h.head_group
  have hc : kind.accepts c = true := (List.cons.inj heq).1 ▸ hd
  obtain ⟨tail, -, htail⟩ := h.run hp
  rw [List.dropWhile_cons_of_pos hc] at htail
  exact ⟨hc, fun hq => ⟨tail, args', _, htail, hq'.drop_read hq⟩⟩

theorem not_filled_of_apartFrom {n : ℕ} (h : apartFrom n p q = true) (hp : guarded p = true)
    (hq : guarded q = true) (hfirst : Filled p args t) : ¬ Filled q args' t := by
  intro hsecond
  fun_induction apartFrom n p q generalizing args args' t with
  | case1 => cases h
  | case2 => cases h
  | case3 n piece q =>
      cases hfirst
      cases piece with
      | lit c =>
          obtain ⟨_, hnil, -⟩ := hsecond.of_lit
          cases hnil
      | group kind =>
          obtain ⟨_, _, hnil, -⟩ := hsecond.head_group
          cases hnil
  | case4 n piece p =>
      cases hsecond
      cases piece with
      | lit c =>
          obtain ⟨_, hnil, -⟩ := hfirst.of_lit
          cases hnil
      | group kind =>
          obtain ⟨_, _, hnil, -⟩ := hfirst.head_group
          cases hnil
  | case5 n c p d q ih =>
      obtain ⟨u, rfl, hp'⟩ := hfirst.of_lit
      obtain ⟨_, heq, hq'⟩ := hsecond.of_lit
      obtain ⟨rfl, rfl⟩ := List.cons.inj heq
      have hrest : apartFrom n p q = true := by simpa using h
      exact ih hrest hp hq hp' hq'
  | case6 n kind p other q ih =>
      obtain ⟨hkind, hrest⟩ := (Bool.and_eq_true _ _).mp h
      obtain rfl := eq_of_beq hkind
      obtain ⟨hstops, hp⟩ := (Bool.and_eq_true _ _).mp hp
      obtain ⟨hstops', hq⟩ := (Bool.and_eq_true _ _).mp hq
      obtain ⟨tail, -, htail⟩ := hfirst.run hstops
      obtain ⟨tail', -, htail'⟩ := hsecond.run hstops'
      exact ih hrest hp hq htail htail'
  | case7 n kind p d q ih =>
      obtain ⟨hstops, hp⟩ := (Bool.and_eq_true _ _).mp hp
      obtain ⟨hd, hcommon⟩ := hfirst.common hsecond hstops
      obtain ⟨hbehind, hrest⟩ : stops kind (behind kind q) = true ∧
          apartFrom n p (behind kind q) = true := by simpa [hd] using h
      obtain ⟨tail, tail', u, htail, htail'⟩ := hcommon hbehind
      exact ih hrest hp (guarded_behind kind hq) htail htail'
  | case8 n c p kind q ih =>
      obtain ⟨hstops, hq⟩ := (Bool.and_eq_true _ _).mp hq
      obtain ⟨hc, hcommon⟩ := hsecond.common hfirst hstops
      obtain ⟨hbehind, hrest⟩ : stops kind (behind kind p) = true ∧
          apartFrom n (behind kind p) q = true := by simpa [hc] using h
      obtain ⟨tail, tail', u, htail, htail'⟩ := hcommon hbehind
      exact ih hrest (guarded_behind kind hp) hq htail' htail

/-- Patterns that are apart match no text both. -/
theorem not_filled_of_apart (h : apart p q = true) (hp : guarded p = true)
    (hq : guarded q = true) (hfirst : Filled p args t) : ¬ Filled q args' t :=
  not_filled_of_apartFrom h hp hq hfirst

/-- A fixed segment is told from a number, a word takes every letter. -/
example : (do return apart (← read "/b/(\\d+)".toList) (← read "/b/clear".toList)) = some true ∧
    (do return apart (← read "/b/(\\w+)".toList) (← read "/b/clear".toList)) = some false := by
  decide +kernel

/-! ## The first match of a table -/

variable {α : Type*} {l : List α} {test : α → Bool} {a : α}

/-- The entry of a table that is taken is the one that stands in front of all others that
pass the test. -/
theorem find?_eq_some_of_first (hl : l.Nodup) (ha : a ∈ l) (htest : test a = true)
    (hfirst : ∀ b ∈ l, test b = true → b ≠ a → [a, b].Sublist l) : l.find? test = some a := by
  cases hfind : l.find? test with
  | none => exact absurd htest (List.find?_eq_none.mp hfind a ha)
  | some b =>
      obtain ⟨hb, front, back, rfl, hfront⟩ := List.find?_eq_some_iff_append.mp hfind
      by_contra hne
      have hba : b ≠ a := fun heq => hne (congrArg some heq)
      have hafront : a ∉ front := by
        intro hmem
        have := hfront a hmem
        simp [htest] at this
      obtain ⟨before, after, hsplit, hbefore, hafter⟩ :=
        List.sublist_append_iff.mp (hfirst b (by simp) hb hba)
      cases before with
      | cons c before =>
          obtain ⟨rfl, -⟩ := List.cons.inj hsplit
          exact hafront (hbefore.subset List.mem_cons_self)
      | nil =>
          obtain rfl : [a, b] = after := hsplit
          have hback : [a, b].Sublist back := by
            cases hafter with
            | cons _ h => exact h
            | cons_cons _ h => exact absurd rfl hba
          have hnodup := (List.nodup_append.mp hl).2.1
          exact (List.nodup_cons.mp hnodup).1 (hback.subset (by simp))

/-- A relation of every entry to those behind it. -/
theorem rel_of_sublist {R : α → α → Prop} {b : α} (h : l.Pairwise R)
    (hab : [a, b].Sublist l) : R a b :=
  List.pairwise_pair.mp (h.sublist hab)

/-- Of two entries of a table one stands in front. -/
theorem sublist_or_sublist {b : α} (ha : a ∈ l) (hb : b ∈ l) (hne : a ≠ b) :
    [a, b].Sublist l ∨ [b, a].Sublist l := by
  induction l with
  | nil => cases ha
  | cons c l ih =>
      rcases List.mem_cons.mp ha with rfl | ha'
      · exact .inl ((List.singleton_sublist.mpr ((List.mem_cons.mp hb).resolve_left
          hne.symm)).cons_cons a)
      · rcases List.mem_cons.mp hb with rfl | hb'
        · exact .inr ((List.singleton_sublist.mpr ha').cons_cons b)
        · exact (ih ha' hb').imp (·.cons c) (·.cons c)

end Captures
