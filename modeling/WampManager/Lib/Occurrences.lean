/-
# Occurrences of a text in another

A searched text that does not overlap itself occurs in another text at places that lie
apart from each other. Between them lie the pieces of the text, and replacing all
occurrences, or the first one, is to put the pieces together with something else between
them.
-/

import WampManager.Lib.Text

namespace Text

/-! ## Definitions -/

/-- At how many places a text occurs. -/
def occurrences (search : Text) : Text → ℕ
  | [] => 0
  | c :: t => (if search.isPrefixOf (c :: t) then 1 else 0) + occurrences search t

/-- `explode`: the pieces between the occurrences, found from the left. The counter skips
the rest of an occurrence. -/
def explodeFrom (search : Text) : ℕ → Text → List Text
  | _, [] => [[]]
  | skip + 1, _ :: t => explodeFrom search skip t
  | 0, c :: t =>
      if search ≠ [] ∧ search.isPrefixOf (c :: t) then
        [] :: explodeFrom search (search.length - 1) t
      else (explodeFrom search 0 t).modifyHead (c :: ·)

def explode (search t : Text) : List Text := explodeFrom search 0 t

/-- Replace the first occurrence. -/
def replaceFirst (search replacement : Text) : Text → Text
  | [] => []
  | c :: t =>
      if search.isPrefixOf (c :: t) then replacement ++ (c :: t).drop search.length
      else c :: replaceFirst search replacement t

/-- No text begins inside another one and goes on as that does, or beyond it. -/
def Clear (first second : Text) : Prop :=
  ∀ k < first.length, (0 < k ∨ first ≠ second) →
    ¬ first.drop k <+: second ∧ ¬ second <+: first.drop k

instance (first second : Text) : Decidable (Clear first second) :=
  inferInstanceAs (Decidable (∀ k < _, _ → _ ∧ _))

/-! ## Searching for any text -/

variable {search replacement : Text}

theorem infix_iff_occurrences_pos (hne : search ≠ []) (t : Text) :
    search <:+: t ↔ 0 < occurrences search t := by
  induction t with
  | nil => simp [occurrences, hne]
  | cons c t ih =>
      rw [List.infix_cons_iff, ih, occurrences, ← List.isPrefixOf_iff_prefix]
      split
      · next h => exact iff_of_true (.inl h) (by omega)
      · next h => simp [h]

theorem occurrences_of_absent (hne : search ≠ []) {t : Text} (h : ¬ search <:+: t) :
    occurrences search t = 0 := by
  rw [infix_iff_occurrences_pos hne] at h
  omega

/-- Two texts behind each other hold the occurrences of both. -/
theorem occurrences_add_le (search s t : Text) :
    occurrences search s + occurrences search t ≤ occurrences search (s ++ t) := by
  induction s with
  | nil => simp [occurrences]
  | cons c s ih =>
      have hbegin : search.isPrefixOf (c :: s) = true → search.isPrefixOf (c :: (s ++ t)) = true := by
        rw [List.isPrefixOf_iff_prefix, List.isPrefixOf_iff_prefix]
        exact fun h => h.trans (List.prefix_append (c :: s) t)
      rw [List.cons_append, occurrences, occurrences]
      by_cases h : search.isPrefixOf (c :: s) = true
      · rw [if_pos h, if_pos (hbegin h)]
        omega
      · rw [if_neg h]
        omega

/-- Nothing is found where nothing begins. -/
theorem occurrences_append_of_clear {s t : Text}
    (h : ∀ k < s.length, ¬ search <+: s.drop k ++ t) :
    occurrences search (s ++ t) = occurrences search t := by
  induction s with
  | nil => rfl
  | cons c s ih =>
      have hhead : ¬ search.isPrefixOf (c :: (s ++ t)) = true := by
        rw [List.isPrefixOf_iff_prefix]
        exact h 0 (by simp)
      rw [List.cons_append, occurrences, if_neg hhead, zero_add, ih]
      intro k hk
      have hk' := h (k + 1) (by simpa using hk)
      rwa [List.drop_succ_cons] at hk'

theorem explodeFrom_skip (search : Text) (n : ℕ) (t : Text) :
    explodeFrom search n t = explodeFrom search 0 (t.drop n) := by
  induction t generalizing n with
  | nil => cases n <;> rfl
  | cons c t ih =>
      cases n with
      | zero => rfl
      | succ n => exact ih n

theorem replaceFrom_skip (search replacement : Text) (n : ℕ) (t : Text) :
    replaceFrom search replacement n t = replaceFrom search replacement 0 (t.drop n) := by
  induction t generalizing n with
  | nil => cases n <;> rfl
  | cons c t ih =>
      cases n with
      | zero => rfl
      | succ n => exact ih n

theorem strReplace_of_prefix (hne : search ≠ []) (replacement : Text) {t : Text}
    (h : search <+: t) :
    strReplace search replacement t =
      replacement ++ strReplace search replacement (t.drop search.length) := by
  obtain ⟨c, rest, hcons⟩ := List.exists_cons_of_ne_nil hne
  obtain ⟨b, rfl⟩ := h
  have hhere : search.isPrefixOf (c :: (rest ++ b)) = true := by
    rw [List.isPrefixOf_iff_prefix, hcons]
    exact List.prefix_append (c :: rest) b
  rw [List.drop_left]
  unfold strReplace
  rw [hcons, List.cons_append, replaceFrom, ← hcons, if_pos ⟨hne, hhere⟩, replaceFrom_skip]
  simp [hcons]

theorem strReplace_cons (replacement : Text) {c : Char} {t : Text} (h : ¬ search <+: c :: t) :
    strReplace search replacement (c :: t) = c :: strReplace search replacement t := by
  unfold strReplace
  rw [replaceFrom, if_neg fun hc => h (List.isPrefixOf_iff_prefix.mp hc.2)]

/-- A text ends before a character that it does not hold. -/
theorem prefix_of_prefix_append_cons {c : Char} (hc : c ∉ search) {a b : Text}
    (h : search <+: a ++ c :: b) : search <+: a := by
  rcases List.prefix_or_prefix_of_prefix h (List.prefix_append a (c :: b)) with hshort | ⟨u, rfl⟩
  · exact hshort
  · cases u with
    | nil => simp
    | cons d u =>
        have hhead := (List.cons_prefix_cons.mp ((List.prefix_append_right_inj a).mp h)).1
        exact absurd (hhead ▸ List.mem_append_right a List.mem_cons_self) hc

/-- A text is replaced on both sides of a character that it does not hold. -/
theorem strReplace_append_cons (hne : search ≠ []) {c : Char} (hc : c ∉ search)
    (replacement a b : Text) :
    strReplace search replacement (a ++ c :: b) =
      strReplace search replacement a ++ c :: strReplace search replacement b := by
  have hhead : ∀ b, ¬ search <+: c :: b := by
    intro b hbegin
    obtain ⟨d, rest, rfl⟩ := List.exists_cons_of_ne_nil hne
    exact hc ((List.cons_prefix_cons.mp hbegin).1 ▸ List.mem_cons_self)
  induction hlength : a.length using Nat.strong_induction_on generalizing a with
  | _ n ih =>
      cases a with
      | nil => exact strReplace_cons replacement (hhead b)
      | cons d a =>
          subst hlength
          by_cases hbegin : search <+: d :: a
          · obtain ⟨a', ha'⟩ := hbegin
            have hpos := List.length_pos_of_ne_nil hne
            have hshort : a'.length < (d :: a).length := by
              rw [← ha', List.length_append]
              omega
            have hrest := ih a'.length hshort a' rfl
            rw [← ha', List.append_assoc, strReplace_of_prefix hne _ (List.prefix_append _ _),
              strReplace_of_prefix hne _ (List.prefix_append _ _), List.drop_left, List.drop_left,
              hrest, List.append_assoc]
          · have hlong : ¬ search <+: d :: (a ++ c :: b) := fun hlong =>
              hbegin (prefix_of_prefix_append_cons hc (a := d :: a) hlong)
            rw [List.cons_append, strReplace_cons _ hlong, strReplace_cons _ hbegin,
              ih a.length (by simp) a rfl, List.cons_append]

theorem mem_strReplace {c : Char} {t : Text} (h : c ∈ strReplace search replacement t) :
    c ∈ replacement ∨ c ∈ t := by
  have hfrom : ∀ (t : Text) (n : ℕ), c ∈ replaceFrom search replacement n t →
      c ∈ replacement ∨ c ∈ t := by
    intro t
    induction t with
    | nil => exact fun n hc => .inr (by cases n <;> exact hc)
    | cons d t ih =>
        intro n hc
        cases n with
        | succ n => exact (ih n hc).imp_right (List.mem_cons_of_mem d)
        | zero =>
            rw [replaceFrom] at hc
            split at hc
            · rcases List.mem_append.mp hc with hc | hc
              · exact .inl hc
              · exact (ih _ hc).imp_right (List.mem_cons_of_mem d)
            · rcases List.mem_cons.mp hc with rfl | hc
              · exact .inr List.mem_cons_self
              · exact (ih 0 hc).imp_right (List.mem_cons_of_mem d)
  exact hfrom t 0 h

/-- Cutting a text out changes a text exactly if it occurs. -/
theorem strReplace_nil_eq_self_iff (hne : search ≠ []) {t : Text} :
    strReplace search [] t = t ↔ ¬ search <:+: t := by
  refine ⟨fun hsame hinside => ?_, strReplace_of_absent⟩
  have hcut := countP_strReplace_nil (fun _ => true) hne hinside
  have hpos := List.length_pos_of_ne_nil hne
  rw [hsame, List.countP_true] at hcut
  omega

theorem explode_ne_nil (search t : Text) : explode search t ≠ [] := by
  have hfrom : ∀ (t : Text) (n : ℕ), explodeFrom search n t ≠ [] := by
    intro t
    induction t with
    | nil => exact fun n => by cases n <;> exact List.cons_ne_nil _ _
    | cons c t ih =>
        intro n
        cases n with
        | zero =>
            rw [explodeFrom]
            split
            · exact List.cons_ne_nil _ _
            · simpa using ih 0
        | succ n => exact ih n
  exact hfrom t 0

theorem explode_of_absent {t : Text} (h : ¬ search <:+: t) : explode search t = [t] := by
  unfold explode
  induction t with
  | nil => rfl
  | cons c t ih =>
      have hhead : ¬ search.isPrefixOf (c :: t) = true := fun hp =>
        h (List.isPrefixOf_iff_prefix.mp hp).isInfix
      rw [explodeFrom, if_neg fun hc => hhead hc.2,
        ih fun hinner => h (hinner.trans (List.suffix_cons c t).isInfix)]
      rfl

/-- What begins with a character that a text does not hold is not made by putting that text
in front. -/
theorem not_infix_append_of_head {c : Char} {t u : Text} (hc : search.head? = some c) (hu : c ∉ u)
    (h : ¬ search <:+: t) : ¬ search <:+: u ++ t := by
  induction u with
  | nil => exact h
  | cons d u ih =>
      rw [List.cons_append, List.infix_cons_iff, not_or]
      refine ⟨fun hbegin => ?_, ih fun hm => hu (List.mem_cons_of_mem d hm)⟩
      cases search with
      | nil => cases hc
      | cons e search =>
          obtain rfl := Option.some.inj hc
          exact hu ((List.cons_prefix_cons.mp hbegin).1 ▸ List.mem_cons_self)

/-! ## Texts that do not overlap -/

variable {first second : Text}

/-- Inside an occurrence of the one text the other does not begin. -/
theorem Clear.not_prefix_inside (h : Clear first second) {k : ℕ} (hk : k < first.length)
    (hne : 0 < k ∨ first ≠ second) (t : Text) : ¬ second <+: first.drop k ++ t := by
  intro hbegin
  obtain ⟨hshort, hlong⟩ := h k hk hne
  rcases List.prefix_or_prefix_of_prefix hbegin (List.prefix_append (first.drop k) t) with h' | h'
  · exact hlong h'
  · exact hshort h'

/-- In front of an occurrence of the second text the first one ends before that. -/
theorem Clear.prefix_of_prefix_append (h : Clear first second) {x t : Text} (hx : x ≠ [])
    (hbegin : first <+: x ++ (second ++ t)) : first <+: x := by
  by_cases hlong : first.length ≤ x.length
  · exact List.prefix_of_prefix_length_le hbegin (List.prefix_append x _) hlong
  · obtain ⟨u, hu⟩ := hbegin
    have hrest : first.drop x.length <+: second ++ t := by
      have hdrop := congrArg (List.drop x.length) hu
      rw [List.drop_left, List.drop_append_of_le_length (by omega)] at hdrop
      exact ⟨u, hdrop⟩
    obtain ⟨hshort, hcover⟩ :=
      h _ (Nat.lt_of_not_le hlong) (.inl (List.length_pos_of_ne_nil hx))
    rcases List.prefix_or_prefix_of_prefix hrest (List.prefix_append second t) with h' | h'
    · exact absurd h' hshort
    · exact absurd h' hcover

theorem Clear.not_prefix_before (h : Clear first second) {a : Text} (ha : ¬ first <:+: a)
    (t : Text) {k : ℕ} (hk : k < a.length) : ¬ first <+: a.drop k ++ (second ++ t) := by
  intro hbegin
  have hne : a.drop k ≠ [] := List.ne_nil_of_length_pos (by rw [List.length_drop]; omega)
  exact ha ((h.prefix_of_prefix_append hne hbegin).isInfix.trans (List.drop_suffix k a).isInfix)

/-- Behind a text without occurrence, an occurrence is the only one that begins before
its end. -/
theorem Clear.eq_or_infix (h : Clear search search) {a b front back : Text}
    (ha : ¬ search <:+: a) (heq : a ++ (search ++ b) = front ++ (search ++ back)) :
    front = a ∧ back = b ∨ search <:+: b := by
  rcases List.append_eq_append_iff.mp heq with ⟨u, rfl, hrest⟩ | ⟨u, rfl, hrest⟩
  · by_cases hu : u = []
    · subst hu
      exact .inl ⟨List.append_nil a, (List.append_cancel_left hrest).symm⟩
    · right
      by_cases hshort : u.length < search.length
      · have hbegin : search <+: search.drop u.length ++ b := by
          rw [← List.drop_append_of_le_length hshort.le, hrest, List.drop_left]
          exact List.prefix_append search back
        have hpos := List.length_pos_of_ne_nil hu
        exact absurd hbegin (h.not_prefix_inside hshort (.inl hpos) b)
      · have hdrop := congrArg (List.drop search.length) hrest
        rw [List.drop_left, List.drop_append_of_le_length (Nat.le_of_not_lt hshort)] at hdrop
        exact ⟨u.drop search.length, back, by rw [hdrop, List.append_assoc]⟩
  · by_cases hu : u = []
    · subst hu
      exact .inl ⟨(List.append_nil front).symm, List.append_cancel_left hrest⟩
    · have hbegin : search <+: u := h.prefix_of_prefix_append hu ⟨back, hrest⟩
      exact absurd (hbegin.isInfix.trans (List.suffix_append front u).isInfix) ha

theorem Clear.append_right (h : Clear first second) (hne : first ≠ second) (t : Text) :
    Clear first (second ++ t) := by
  intro k hk _
  obtain ⟨hshort, hlong⟩ := h k hk (.inr hne)
  refine ⟨fun hbegin => ?_, fun hbegin => hlong ((List.prefix_append second t).trans hbegin)⟩
  rcases List.prefix_or_prefix_of_prefix hbegin (List.prefix_append second t) with h' | h'
  · exact hshort h'
  · exact hlong h'

/-- A text that does not have the first character of another one. -/
theorem clear_of_head {c : Char} (hc : second.head? = some c) (hfirst : c ∉ first) :
    Clear first second := by
  obtain ⟨rest, rfl⟩ := List.head?_eq_some_iff.mp hc
  have hdrop : ∀ k, c ∉ first.drop k := fun k hm => hfirst (List.mem_of_mem_drop hm)
  intro k hk _
  refine ⟨fun hbegin => ?_, fun hbegin => hdrop k (hbegin.subset List.mem_cons_self)⟩
  obtain ⟨d, t, hcons⟩ := List.exists_cons_of_ne_nil (l := first.drop k) fun hnil => by
    rw [List.drop_eq_nil_iff] at hnil
    omega
  rw [hcons, List.cons_prefix_cons] at hbegin
  exact hdrop k (by rw [hcons, hbegin.1]; exact List.mem_cons_self)

/-- A text that has its first character nowhere else does not overlap itself. -/
theorem clear_cons_self {c : Char} {t : Text} (h : c ∉ t) : Clear (c :: t) (c :: t) := by
  intro k hk hpos
  cases k with
  | zero => simp at hpos
  | succ k =>
      have hclear : Clear t (c :: t) := clear_of_head rfl h
      exact hclear k (by simpa using hk) (.inr (List.cons_ne_self c t).symm)

/-- An occurrence of another text adds nothing to the occurrences on both sides. -/
theorem occurrences_append_other (h : Clear first second) (h' : Clear second first)
    (hne : second ≠ first) (a b : Text) :
    occurrences first (a ++ (second ++ b)) = occurrences first a + occurrences first b := by
  induction a with
  | nil =>
      rw [List.nil_append, occurrences, zero_add]
      exact occurrences_append_of_clear fun k hk => h'.not_prefix_inside hk (.inr hne) b
  | cons c a ih =>
      have hhead : first.isPrefixOf (c :: (a ++ (second ++ b))) = first.isPrefixOf (c :: a) := by
        rw [Bool.eq_iff_iff, List.isPrefixOf_iff_prefix, List.isPrefixOf_iff_prefix]
        exact ⟨fun hp => h.prefix_of_prefix_append (List.cons_ne_nil c a) hp,
          fun hp => hp.trans (List.prefix_append (c :: a) _)⟩
      rw [List.cons_append, occurrences, occurrences, ih, hhead, Nat.add_assoc]

/-! ## Searching for a text that does not overlap itself -/

/-- Every text is a piece without occurrence, or such a piece, an occurrence and a rest. -/
theorem occurrence_cases (hne : search ≠ []) (t : Text) :
    ¬ search <:+: t ∨ ∃ a b, t = a ++ (search ++ b) ∧
      (∀ k < a.length, ¬ search <+: a.drop k ++ (search ++ b)) := by
  induction t with
  | nil => exact .inl fun h => hne (List.infix_nil.mp h)
  | cons c t ih =>
      by_cases hhere : search <+: c :: t
      · obtain ⟨b, hb⟩ := hhere
        exact .inr ⟨[], b, hb.symm, fun k hk => absurd hk (Nat.not_lt_zero k)⟩
      · rcases ih with hnone | ⟨a, b, rfl, hfirst⟩
        · refine .inl fun h => ?_
          exact (List.infix_cons_iff.mp h).elim hhere hnone
        · refine .inr ⟨c :: a, b, rfl, fun k hk => ?_⟩
          cases k with
          | zero => exact hhere
          | succ k => exact hfirst k (by simpa using hk)

/-- Induction over the occurrences from the left. -/
theorem occurrence_induction {motive : Text → Prop} (hne : search ≠ [])
    (none : ∀ t, ¬ search <:+: t → motive t)
    (some : ∀ a b, ¬ search <:+: a → motive b → motive (a ++ (search ++ b))) (t : Text) :
    motive t := by
  induction hlength : t.length using Nat.strong_induction_on generalizing t with
  | _ n ih =>
      rcases occurrence_cases hne t with hnone | ⟨a, b, rfl, hfirst⟩
      · exact none t hnone
      · refine some a b (fun hinside => ?_) (ih b.length ?_ b rfl)
        · obtain ⟨front, back, rfl⟩ := hinside
          have hpos := List.length_pos_of_ne_nil hne
          refine hfirst front.length (by simp; omega) ?_
          rw [List.append_assoc front, List.drop_left, List.append_assoc]
          exact List.prefix_append _ _
        · have hpos := List.length_pos_of_ne_nil hne
          simp only [List.length_append] at hlength
          omega

section Single

variable (hne : search ≠ []) (hclear : Clear search search)
include hclear hne

theorem occurrences_append {a : Text} (ha : ¬ search <:+: a) (b : Text) :
    occurrences search (a ++ (search ++ b)) = occurrences search b + 1 := by
  obtain ⟨c, rest, hcons⟩ := List.exists_cons_of_ne_nil hne
  have hhere : search.isPrefixOf (c :: (rest ++ b)) = true := by
    rw [List.isPrefixOf_iff_prefix, hcons]
    exact List.prefix_append (c :: rest) b
  have hinside : occurrences search (rest ++ b) = occurrences search b := by
    apply occurrences_append_of_clear
    intro k hk
    have h := hclear.not_prefix_inside (k := k + 1) (by simpa [hcons] using hk) (.inl (by omega)) b
    rwa [hcons, List.drop_succ_cons, ← hcons] at h
  rw [occurrences_append_of_clear fun k hk => hclear.not_prefix_before ha b hk, hcons,
    List.cons_append, occurrences, ← hcons, if_pos hhere, hinside, add_comm]

theorem explode_append {a : Text} (ha : ¬ search <:+: a) (b : Text) :
    explode search (a ++ (search ++ b)) = a :: explode search b := by
  have hfirst : ∀ k < a.length, ¬ search <+: a.drop k ++ (search ++ b) :=
    fun k hk => hclear.not_prefix_before ha b hk
  clear ha
  unfold explode
  induction a with
  | nil =>
      obtain ⟨c, rest, hcons⟩ := List.exists_cons_of_ne_nil hne
      have hhere : search.isPrefixOf (c :: (rest ++ b)) = true := by
        rw [List.isPrefixOf_iff_prefix, hcons]
        exact List.prefix_append (c :: rest) b
      rw [List.nil_append, hcons, List.cons_append, explodeFrom, ← hcons, if_pos ⟨hne, hhere⟩,
        explodeFrom_skip]
      simp [hcons]
  | cons c a ih =>
      have hhead : ¬ search.isPrefixOf (c :: (a ++ (search ++ b))) = true := by
        rw [List.isPrefixOf_iff_prefix]
        exact hfirst 0 (by simp)
      rw [List.cons_append, explodeFrom, if_neg fun h => hhead h.2,
        ih fun k hk => hfirst (k + 1) (by simpa using hk)]
      rfl

theorem strReplace_append {a : Text} (ha : ¬ search <:+: a) (replacement b : Text) :
    strReplace search replacement (a ++ (search ++ b)) =
      a ++ (replacement ++ strReplace search replacement b) := by
  have hfirst : ∀ k < a.length, ¬ search <+: a.drop k ++ (search ++ b) :=
    fun k hk => hclear.not_prefix_before ha b hk
  clear ha
  induction a with
  | nil =>
      rw [List.nil_append, strReplace_of_prefix hne _ (List.prefix_append search b), List.drop_left]
      rfl
  | cons c a ih =>
      have hhead : ¬ search <+: c :: (a ++ (search ++ b)) := hfirst 0 (by simp)
      rw [List.cons_append, strReplace_cons _ hhead,
        ih fun k hk => hfirst (k + 1) (by simpa using hk)]
      rfl

/-- Cutting a text out loses no character that it does not hold. -/
theorem count_strReplace_nil {c : Char} (hc : c ∉ search) (t : Text) :
    (strReplace search [] t).count c = t.count c := by
  induction t using occurrence_induction hne with
  | none t hnone => rw [strReplace_of_absent hnone]
  | some a b ha ih =>
      rw [strReplace_append hne hclear ha, List.nil_append, List.count_append, List.count_append,
        List.count_append, ih, List.count_eq_zero_of_not_mem hc, zero_add]

theorem replaceFirst_append {a : Text} (ha : ¬ search <:+: a) (replacement b : Text) :
    replaceFirst search replacement (a ++ (search ++ b)) = a ++ (replacement ++ b) := by
  have hfirst : ∀ k < a.length, ¬ search <+: a.drop k ++ (search ++ b) :=
    fun k hk => hclear.not_prefix_before ha b hk
  clear ha
  induction a with
  | nil =>
      obtain ⟨c, rest, hcons⟩ := List.exists_cons_of_ne_nil hne
      have hhere : search.isPrefixOf (c :: (rest ++ b)) = true := by
        rw [List.isPrefixOf_iff_prefix, hcons]
        exact List.prefix_append (c :: rest) b
      rw [List.nil_append, hcons, List.cons_append, replaceFirst, ← hcons, if_pos hhere]
      simp [hcons]
  | cons c a ih =>
      have hhead : ¬ search.isPrefixOf (c :: (a ++ (search ++ b))) = true := by
        rw [List.isPrefixOf_iff_prefix]
        exact hfirst 0 (by simp)
      rw [List.cons_append, replaceFirst, if_neg hhead,
        ih fun k hk => hfirst (k + 1) (by simpa using hk)]
      rfl

/-- The pieces with the occurrences between them are the text. -/
theorem intercalate_explode (t : Text) : search.intercalate (explode search t) = t := by
  induction t using occurrence_induction hne with
  | none t hnone =>
      rw [explode_of_absent hnone, List.intercalate_singleton]
  | some a b ha ih =>
      obtain ⟨p, ps, hcons⟩ := List.exists_cons_of_ne_nil (explode_ne_nil search b)
      rw [explode_append hne hclear ha, hcons, List.intercalate_cons_cons, ← hcons, ih,
        List.append_assoc]

theorem length_explode (t : Text) : (explode search t).length = occurrences search t + 1 := by
  induction t using occurrence_induction hne with
  | none t hnone =>
      rw [explode_of_absent hnone, occurrences_of_absent hne hnone]
      rfl
  | some a b ha ih =>
      rw [explode_append hne hclear ha, occurrences_append hne hclear ha, List.length_cons, ih]

/-- What replacing the first occurrence leaves of the others. -/
theorem occurrences_replaceFirst (replacement : Text) {t : Text} (h : search <:+: t) :
    occurrences search t + occurrences search replacement ≤
        occurrences search (replaceFirst search replacement t) + 1 ∧
      (replaceFirst search replacement t).length + search.length =
        t.length + replacement.length := by
  induction t using occurrence_induction hne with
  | none t hnone => exact absurd h hnone
  | some a b ha =>
      rw [replaceFirst_append hne hclear ha, occurrences_append hne hclear ha]
      have houter := occurrences_add_le search a (replacement ++ b)
      have hinner := occurrences_add_le search replacement b
      simp only [List.length_append]
      omega

end Single

end Text
