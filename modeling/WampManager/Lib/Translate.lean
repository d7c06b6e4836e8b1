/-
# Replacing several texts at once

Replacing several texts one after another sees what the earlier replacements have put
in. Replacing them at once does not. If the searched texts do not overlap each other,
the two agree exactly if no replacement makes a text that is searched later, with what
is around it; what is lost to a text that is made and replaced does not come back, as
long as some weight of the characters grows with every replacement.
-/

import Mathlib.Algebra.Order.Ring.Int
import Mathlib.Data.List.Find
import Mathlib.Data.List.Nodup
import Mathlib.Tactic.Linarith
import Mathlib.Tactic.Ring
import WampManager.Lib.Occurrences

namespace Text

/-! ## Definitions -/

/-- Replace several texts at once, from the left. The counter skips the rest of what was
just replaced. -/
def translateFrom (pairs : List (Text × Text)) : ℕ → Text → Text
  | _, [] => []
  | skip + 1, _ :: t => translateFrom pairs skip t
  | 0, c :: t =>
      match pairs.find? fun p => p.1.isPrefixOf (c :: t) with
      | some p => p.2 ++ translateFrom pairs (p.1.length - 1) t
      | none => c :: translateFrom pairs 0 t

def translate (pairs : List (Text × Text)) (t : Text) : Text := translateFrom pairs 0 t

/-- Replace several texts one after another. -/
def replaceAll (pairs : List (Text × Text)) (t : Text) : Text :=
  pairs.foldl (fun t p => strReplace p.1 p.2 t) t

/-- The searched texts are not empty, and they do not overlap. -/
structure Markers (pairs : List (Text × Text)) : Prop where
  nonempty : ∀ p ∈ pairs, p.1 ≠ []
  clear : ∀ p ∈ pairs, ∀ q ∈ pairs, Clear p.1 q.1
  nodup : (pairs.map Prod.fst).Nodup

/-- No replacement makes a text that is searched later, unless that is replaced by
itself. -/
def Undisturbed (pairs : List (Text × Text)) (t : Text) : Prop :=
  ∀ front p back, pairs = front ++ p :: back →
    p.2 = p.1 ∨ occurrences p.1 (translate front t) = occurrences p.1 t

/-- The sum of the weights of the characters. -/
def weight (w : Char → ℤ) (t : Text) : ℤ := (t.map w).sum

/-! ## Translating -/

variable {pairs : List (Text × Text)} {m v : Text}

theorem translateFrom_skip (pairs : List (Text × Text)) (n : ℕ) (t : Text) :
    translateFrom pairs n t = translateFrom pairs 0 (t.drop n) := by
  induction t generalizing n with
  | nil => cases n <;> rfl
  | cons c t ih =>
      cases n with
      | zero => rfl
      | succ n => exact ih n

theorem translate_nil_pairs (t : Text) : translate [] t = t := by
  unfold translate
  induction t with
  | nil => rfl
  | cons c t ih => rw [translateFrom, List.find?_nil, ih]

/-- Where nothing that is searched begins, nothing changes. -/
theorem translate_append_of_miss {s b : Text}
    (h : ∀ k < s.length, ∀ p ∈ pairs, ¬ p.1 <+: s.drop k ++ b) :
    translate pairs (s ++ b) = s ++ translate pairs b := by
  induction s with
  | nil => rfl
  | cons c s ih =>
      have hnone : (pairs.find? fun p => p.1.isPrefixOf (c :: (s ++ b))) = none := by
        rw [List.find?_eq_none]
        intro p hp
        rw [List.isPrefixOf_iff_prefix]
        exact h 0 (by simp) p hp
      have hrest := ih fun k hk p hp => h (k + 1) (by simpa using hk) p hp
      unfold translate at hrest ⊢
      rw [List.cons_append, translateFrom, hnone, hrest]
      rfl

/-- A text behind which something stands that is not overlapped is translated by itself. -/
theorem translate_append_clear (h : ∀ p ∈ pairs, Clear p.1 m) (hne : ∀ p ∈ pairs, p.1 ≠ [])
    (a b : Text) :
    translate pairs (a ++ (m ++ b)) = translate pairs a ++ translate pairs (m ++ b) := by
  induction hlength : a.length using Nat.strong_induction_on generalizing a with
  | _ n ih =>
      cases a with
      | nil => rfl
      | cons c a =>
          subst hlength
          have hsame : (pairs.find? fun p => p.1.isPrefixOf (c :: (a ++ (m ++ b)))) =
              pairs.find? fun p => p.1.isPrefixOf (c :: a) := by
            refine List.find?_congr fun p hp => ?_
            rw [Bool.eq_iff_iff, List.isPrefixOf_iff_prefix, List.isPrefixOf_iff_prefix]
            exact ⟨fun hbegin => (h p hp).prefix_of_prefix_append (List.cons_ne_nil c a) hbegin,
              fun hbegin => hbegin.trans (List.prefix_append (c :: a) _)⟩
          unfold translate at ih ⊢
          rw [List.cons_append, translateFrom, hsame, translateFrom]
          cases hfind : pairs.find? fun p => p.1.isPrefixOf (c :: a) with
          | some p =>
              have hbegin := List.find?_some hfind
              rw [List.isPrefixOf_iff_prefix] at hbegin
              have hle : p.1.length ≤ a.length + 1 := hbegin.length_le
              have hshort : p.1.length - 1 ≤ a.length := by omega
              have hpos := List.length_pos_of_ne_nil (hne p (List.mem_of_find?_eq_some hfind))
              change p.2 ++ translateFrom pairs (p.1.length - 1) (a ++ (m ++ b)) =
                (p.2 ++ translateFrom pairs (p.1.length - 1) a) ++ translateFrom pairs 0 (m ++ b)
              have hdrop : (a.drop (p.1.length - 1)).length < (c :: a).length := by
                rw [List.length_drop, List.length_cons]
                omega
              rw [translateFrom_skip, List.drop_append_of_le_length hshort, ih _ hdrop _ rfl,
                ← translateFrom_skip, List.append_assoc]
          | none =>
              change c :: translateFrom pairs 0 (a ++ (m ++ b)) =
                (c :: translateFrom pairs 0 a) ++ translateFrom pairs 0 (m ++ b)
              rw [ih a.length (by simp) a rfl, List.cons_append]

/-- Another text is kept. -/
theorem translate_append_other (h : ∀ p ∈ pairs, Clear p.1 m) (h' : ∀ p ∈ pairs, Clear m p.1)
    (hne : ∀ p ∈ pairs, p.1 ≠ []) (hother : ∀ p ∈ pairs, m ≠ p.1) (a b : Text) :
    translate pairs (a ++ (m ++ b)) = translate pairs a ++ (m ++ translate pairs b) := by
  rw [translate_append_clear h hne, translate_append_of_miss]
  exact fun k hk p hp => (h' p hp).not_prefix_inside hk (.inr (hother p hp)) b

/-- A text that is searched is replaced. -/
theorem Markers.translate_append (h : Markers pairs) (hmem : (m, v) ∈ pairs) (a b : Text) :
    translate pairs (a ++ (m ++ b)) = translate pairs a ++ (v ++ translate pairs b) := by
  have hne : m ≠ [] := h.nonempty _ hmem
  rw [translate_append_clear (fun p hp => h.clear p hp _ hmem) h.nonempty]
  congr 1
  obtain ⟨c, rest, rfl⟩ := List.exists_cons_of_ne_nil hne
  have hfind : (pairs.find? fun p => p.1.isPrefixOf (c :: (rest ++ b))) = some (c :: rest, v) := by
    cases hfound : pairs.find? fun p => p.1.isPrefixOf (c :: (rest ++ b)) with
    | none =>
        rw [List.find?_eq_none] at hfound
        refine absurd (hfound _ hmem) (not_not.mpr ?_)
        rw [List.isPrefixOf_iff_prefix]
        exact List.prefix_append (c :: rest) b
    | some q =>
        have hq := List.mem_of_find?_eq_some hfound
        have hbegin := List.find?_some hfound
        rw [List.isPrefixOf_iff_prefix] at hbegin
        have hsame : q.1 = c :: rest := by
          by_contra hdiffer
          obtain ⟨hshort, hlong⟩ := h.clear _ hmem q hq 0 (by simp) (.inr (Ne.symm hdiffer))
          rcases List.prefix_or_prefix_of_prefix hbegin (List.prefix_append (c :: rest) b) with
            h' | h'
          · exact hlong h'
          · exact hshort h'
        rw [List.inj_on_of_nodup_map h.nodup hq hmem hsame]
  unfold translate
  rw [List.cons_append, translateFrom, hfind]
  change v ++ translateFrom pairs ((c :: rest).length - 1) (rest ++ b) = _
  rw [translateFrom_skip]
  simp

/-- A text that does not occur is not replaced. -/
theorem translate_concat_of_absent {t : Text} (h : ¬ m <:+: t) :
    translate (pairs ++ [(m, v)]) t = translate pairs t := by
  have hfrom : ∀ (t : Text) (n : ℕ), ¬ m <:+: t →
      translateFrom (pairs ++ [(m, v)]) n t = translateFrom pairs n t := by
    intro t
    induction t with
    | nil => exact fun n _ => by cases n <;> rfl
    | cons c t ih =>
        intro n hnone
        have hrest : ¬ m <:+: t := fun hinner => hnone (hinner.trans (List.suffix_cons c t).isInfix)
        cases n with
        | succ n => exact ih n hrest
        | zero =>
            have hhead : m.isPrefixOf (c :: t) = false := by
              rw [← Bool.not_eq_true, List.isPrefixOf_iff_prefix]
              exact fun hbegin => hnone hbegin.isInfix
            have hfind : ((pairs ++ [(m, v)]).find? fun p => p.1.isPrefixOf (c :: t)) =
                pairs.find? fun p => p.1.isPrefixOf (c :: t) := by
              rw [List.find?_append, List.find?_cons, hhead]
              simp
            rw [translateFrom, hfind, translateFrom]
            cases pairs.find? fun p => p.1.isPrefixOf (c :: t) with
            | some p => exact congrArg (p.2 ++ ·) (ih _ hrest)
            | none => exact congrArg (c :: ·) (ih 0 hrest)
  exact hfrom t 0 h

/-! ## One replacement more -/

theorem weight_append (w : Char → ℤ) (s t : Text) : weight w (s ++ t) = weight w s + weight w t := by
  rw [weight, List.map_append, List.sum_append]
  rfl

section Replace

variable (hne : m ≠ []) (hclear : Clear m m)
include hclear hne

theorem strReplace_self (t : Text) : strReplace m m t = t := by
  induction t using occurrence_induction hne with
  | none t hnone => exact strReplace_of_absent hnone
  | some a b ha ih => rw [strReplace_append hne hclear ha, ih]

theorem weight_strReplace (w : Char → ℤ) (v t : Text) :
    weight w (strReplace m v t) =
      weight w t + occurrences m t * (weight w v - weight w m) := by
  induction t using occurrence_induction hne with
  | none t hnone =>
      rw [strReplace_of_absent hnone, occurrences_of_absent hne hnone]
      simp
  | some a b ha ih =>
      rw [strReplace_append hne hclear ha, occurrences_append hne hclear ha]
      simp only [weight_append, ih]
      push_cast
      ring

/-- Replacing another text does not take occurrences away. -/
theorem occurrences_le_strReplace {other : Text} (h : Clear other m) (h' : Clear m other)
    (hdiffer : m ≠ other) (v t : Text) :
    occurrences other t ≤ occurrences other (strReplace m v t) := by
  induction t using occurrence_induction hne with
  | none t hnone => rw [strReplace_of_absent hnone]
  | some a b ha ih =>
      rw [strReplace_append hne hclear ha, occurrences_append_other h h' hdiffer]
      have houter := occurrences_add_le other a (v ++ strReplace m v b)
      have hinner := occurrences_add_le other v (strReplace m v b)
      omega

end Replace

section Concat

variable (h : Markers (pairs ++ [(m, v)]))
include h

theorem Markers.of_concat : Markers pairs where
  nonempty := fun p hp => h.nonempty p (List.mem_append_left _ hp)
  clear := fun p hp q hq => h.clear p (List.mem_append_left _ hp) q (List.mem_append_left _ hq)
  nodup := by
    have hnodup := h.nodup
    rw [List.map_append] at hnodup
    exact (List.nodup_append.mp hnodup).1

theorem Markers.last_ne_nil : m ≠ [] := h.nonempty (m, v) (by simp)

theorem Markers.last_clear : Clear m m := h.clear (m, v) (by simp) (m, v) (by simp)

theorem Markers.last_ne : ∀ p ∈ pairs, m ≠ p.1 := by
  have hnodup := h.nodup
  rw [List.map_append, List.nodup_append] at hnodup
  intro p hp heq
  exact hnodup.2.2 p.1 (List.mem_map_of_mem hp) m (by simp) heq.symm

/-- The other texts keep the last one. -/
theorem Markers.translate_append_last (a b : Text) :
    translate pairs (a ++ (m ++ b)) = translate pairs a ++ (m ++ translate pairs b) :=
  translate_append_other (fun p hp => h.clear p (by simp [hp]) (m, v) (by simp))
    (fun p hp => h.clear (m, v) (by simp) p (by simp [hp])) h.of_concat.nonempty h.last_ne a b

theorem Markers.occurrences_le_translate (t : Text) :
    occurrences m t ≤ occurrences m (translate pairs t) := by
  induction t using occurrence_induction h.last_ne_nil with
  | none t hnone => simp [occurrences_of_absent h.last_ne_nil hnone]
  | some a b ha ih =>
      have hplace := occurrences_append h.last_ne_nil h.last_clear (a := [])
        (fun hheld => h.last_ne_nil (List.infix_nil.mp hheld)) (translate pairs b)
      rw [List.nil_append] at hplace
      have hle := occurrences_add_le m (translate pairs a) (m ++ translate pairs b)
      rw [h.translate_append_last, occurrences_append h.last_ne_nil h.last_clear ha]
      omega

theorem Markers.weight_translate (w : Char → ℤ) (t : Text) :
    weight w (translate (pairs ++ [(m, v)]) t) =
      weight w (translate pairs t) + occurrences m t * (weight w v - weight w m) := by
  induction t using occurrence_induction h.last_ne_nil with
  | none t hnone =>
      rw [translate_concat_of_absent hnone, occurrences_of_absent h.last_ne_nil hnone]
      simp
  | some a b ha ih =>
      rw [h.translate_append (m := m) (v := v) (by simp), h.translate_append_last,
        occurrences_append h.last_ne_nil h.last_clear ha, translate_concat_of_absent ha]
      simp only [weight_append, ih]
      push_cast
      ring

/-- If the last text is not made by the others, it can be replaced behind them. -/
theorem Markers.translate_concat {t : Text}
    (hsame : occurrences m (translate pairs t) = occurrences m t) :
    strReplace m v (translate pairs t) = translate (pairs ++ [(m, v)]) t := by
  induction t using occurrence_induction h.last_ne_nil with
  | none t hnone =>
      rw [occurrences_of_absent h.last_ne_nil hnone] at hsame
      have hnone' : ¬ m <:+: translate pairs t := by
        rw [infix_iff_occurrences_pos h.last_ne_nil, hsame]
        exact lt_irrefl 0
      rw [strReplace_of_absent hnone', translate_concat_of_absent hnone]
  | some a b ha ih =>
      have hplace := occurrences_append h.last_ne_nil h.last_clear (a := [])
        (fun hheld => h.last_ne_nil (List.infix_nil.mp hheld)) (translate pairs b)
      rw [List.nil_append] at hplace
      have hle := occurrences_add_le m (translate pairs a) (m ++ translate pairs b)
      have hmore := h.occurrences_le_translate b
      rw [h.translate_append_last, occurrences_append h.last_ne_nil h.last_clear ha] at hsame
      have ha' : ¬ m <:+: translate pairs a := by
        rw [infix_iff_occurrences_pos h.last_ne_nil]
        omega
      rw [h.translate_append_last, strReplace_append h.last_ne_nil h.last_clear ha',
        h.translate_append (m := m) (v := v) (by simp), translate_concat_of_absent ha,
        ih (by omega)]

/-- A text that is replaced by itself need not be replaced. -/
theorem Markers.translate_concat_self (heq : v = m) (t : Text) :
    translate (pairs ++ [(m, v)]) t = translate pairs t := by
  induction t using occurrence_induction h.last_ne_nil with
  | none t hnone => exact translate_concat_of_absent hnone
  | some a b ha ih =>
      rw [h.translate_append (m := m) (v := v) (by simp), h.translate_append_last,
        translate_concat_of_absent ha, ih, heq]

end Concat

/-! ## Replacing one after another -/

theorem replaceAll_concat (pairs : List (Text × Text)) (m v t : Text) :
    replaceAll (pairs ++ [(m, v)]) t = strReplace m v (replaceAll pairs t) := by
  rw [replaceAll, List.foldl_append]
  rfl

/-- The last text occurs as often as before, or more. -/
theorem Markers.occurrences_le_replaceAll {other : Text × Text} (h : Markers (pairs ++ [other]))
    (t : Text) : occurrences other.1 t ≤ occurrences other.1 (replaceAll pairs t) := by
  obtain ⟨m, v⟩ := other
  have hclear := fun p (hp : p ∈ pairs) => h.clear p (by simp [hp]) (m, v) (by simp)
  have hclear' := fun p (hp : p ∈ pairs) => h.clear (m, v) (by simp) p (by simp [hp])
  have hself := fun p (hp : p ∈ pairs) => h.clear p (by simp [hp]) p (by simp [hp])
  have hne := h.of_concat.nonempty
  have hdiffer := h.last_ne
  clear h
  induction pairs generalizing t with
  | nil => exact le_refl _
  | cons p pairs ih =>
      have hp : p ∈ p :: pairs := List.mem_cons_self
      refine (occurrences_le_strReplace (hne p hp) (hself p hp) (hclear' p hp) (hclear p hp)
        (hdiffer p hp).symm p.2 t).trans (ih (strReplace p.1 p.2 t) (fun q hq => ?_)
          (fun q hq => ?_) (fun q hq => ?_) (fun q hq => ?_) fun q hq => ?_)
      · exact hclear q (List.mem_cons_of_mem p hq)
      · exact hclear' q (List.mem_cons_of_mem p hq)
      · exact hself q (List.mem_cons_of_mem p hq)
      · exact hne q (List.mem_cons_of_mem p hq)
      · exact hdiffer q (List.mem_cons_of_mem p hq)

theorem undisturbed_concat {t : Text} : Undisturbed (pairs ++ [(m, v)]) t ↔
    Undisturbed pairs t ∧ (v = m ∨ occurrences m (translate pairs t) = occurrences m t) := by
  constructor
  · intro h
    refine ⟨fun front p back hsplit => ?_, h pairs (m, v) [] rfl⟩
    exact h front p (back ++ [(m, v)]) (by rw [hsplit]; simp)
  · rintro ⟨hpairs, hlast⟩ front p back hsplit
    rcases List.eq_nil_or_concat' back with rfl | ⟨back, q, rfl⟩
    · obtain ⟨rfl, hp⟩ := List.append_inj' hsplit rfl
      obtain rfl : (m, v) = p := by simpa using hp
      exact hlast
    · have hsplit' : pairs ++ [(m, v)] = (front ++ p :: back) ++ [q] := by rw [hsplit]; simp
      exact hpairs front p back (List.append_inj' hsplit' rfl).1

theorem Markers.replaceAll_eq_translate (h : Markers pairs) {t : Text} (ht : Undisturbed pairs t) :
    replaceAll pairs t = translate pairs t := by
  induction pairs using List.reverseRecOn with
  | nil => rw [translate_nil_pairs]; rfl
  | append_singleton pairs p ih =>
      obtain ⟨m, v⟩ := p
      obtain ⟨hpairs, hlast⟩ := undisturbed_concat.mp ht
      rw [replaceAll_concat, ih h.of_concat hpairs]
      rcases hlast with heq | hsame
      · have hv : v = m := heq
        rw [h.translate_concat_self hv, hv, strReplace_self h.last_ne_nil h.last_clear]
      · exact h.translate_concat hsame

/-- A replacement that is disturbed gains weight, and no later one loses it. -/
theorem Markers.weight_replaceAll (h : Markers pairs) (w : Char → ℤ)
    (hw : ∀ p ∈ pairs.tail, p.2 = p.1 ∨ weight w p.1 < weight w p.2) (t : Text) :
    weight w (translate pairs t) ≤ weight w (replaceAll pairs t) ∧
      (weight w (replaceAll pairs t) = weight w (translate pairs t) → Undisturbed pairs t) := by
  induction pairs using List.reverseRecOn with
  | nil =>
      rw [translate_nil_pairs]
      exact ⟨le_refl _, fun _ front p back hsplit => by simp at hsplit⟩
  | append_singleton pairs p ih =>
      obtain ⟨m, v⟩ := p
      have hmore := h.occurrences_le_replaceAll t
      rw [replaceAll_concat, weight_strReplace h.last_ne_nil h.last_clear, h.weight_translate,
        undisturbed_concat]
      by_cases hfirst : pairs = []
      · subst hfirst
        rw [translate_nil_pairs]
        refine ⟨le_refl _, fun _ => ⟨fun front p back hsplit => by simp at hsplit, .inr rfl⟩⟩
      · obtain ⟨hle, heq⟩ := ih h.of_concat fun q hq => hw q (by
          obtain ⟨p, ps, rfl⟩ := List.exists_cons_of_ne_nil hfirst
          exact List.mem_append_left _ hq)
        have hlast := hw (m, v) (by
          obtain ⟨p, ps, rfl⟩ := List.exists_cons_of_ne_nil hfirst
          simp)
        rcases hlast with hv | hgrows
        · obtain rfl : v = m := hv
          rw [sub_self, mul_zero, mul_zero, add_zero, add_zero]
          exact ⟨hle, fun hsame => ⟨heq hsame, .inl rfl⟩⟩
        · have hgrows' : 0 < weight w v - weight w m := sub_pos.mpr hgrows
          have hcast : (occurrences m t : ℤ) ≤ occurrences m (replaceAll pairs t) := by
            exact_mod_cast hmore
          have hgain := mul_le_mul_of_nonneg_right hcast hgrows'.le
          refine ⟨by linarith, fun hsame => ?_⟩
          have hundisturbed : Undisturbed pairs t := heq (by linarith)
          have hcount : (occurrences m (replaceAll pairs t) : ℤ) = occurrences m t :=
            mul_right_cancel₀ hgrows'.ne' (by linarith)
          rw [h.of_concat.replaceAll_eq_translate hundisturbed] at hcount
          exact ⟨hundisturbed, .inr (by exact_mod_cast hcount)⟩

/-- Replacing one after another is replacing at once exactly if no replacement makes a
text that is searched later. -/
theorem Markers.replaceAll_eq_translate_iff (h : Markers pairs) (w : Char → ℤ)
    (hw : ∀ p ∈ pairs.tail, p.2 = p.1 ∨ weight w p.1 < weight w p.2) (t : Text) :
    replaceAll pairs t = translate pairs t ↔ Undisturbed pairs t :=
  ⟨fun heq => (h.weight_replaceAll w hw t).2 (by rw [heq]), h.replaceAll_eq_translate⟩

/-! ## Two replacements -/

/-- Two different texts that do not overlap each other. -/
structure Apart (first second : Text) : Prop where
  ne : first ≠ second
  clear : Clear first second
  clear' : Clear second first

section Pair

variable {m v : Text} (hne : m ≠ []) (hclear : Clear m m)
include hclear hne

theorem markers_singleton : Markers [(m, v)] where
  nonempty := fun p hp => List.mem_singleton.mp hp ▸ hne
  clear := fun p hp q hq => by
    rw [List.mem_singleton.mp hp, List.mem_singleton.mp hq]
    exact hclear
  nodup := List.nodup_singleton _

theorem strReplace_eq_translate (t : Text) : strReplace m v t = translate [(m, v)] t := by
  apply (markers_singleton hne hclear).replaceAll_eq_translate
  intro front p back hsplit
  rcases List.append_eq_singleton_iff.mp hsplit.symm with ⟨rfl, hp⟩ | ⟨-, hp⟩
  · obtain ⟨rfl, rfl⟩ := List.cons.inj hp
    exact .inr (by rw [translate_nil_pairs])
  · cases hp

theorem strReplace_append_self (a b : Text) :
    strReplace m v (a ++ (m ++ b)) = strReplace m v a ++ (v ++ strReplace m v b) := by
  simp only [strReplace_eq_translate hne hclear]
  exact (markers_singleton hne hclear).translate_append (List.mem_singleton.mpr rfl) a b

theorem strReplace_append_other {o : Text} (h : Apart m o) (a b : Text) :
    strReplace m v (a ++ (o ++ b)) = strReplace m v a ++ (o ++ strReplace m v b) := by
  simp only [strReplace_eq_translate hne hclear]
  refine translate_append_other (fun p hp => ?_) (fun p hp => ?_) (fun p hp => ?_)
    (fun p hp => ?_) a b <;> obtain rfl := List.mem_singleton.mp hp
  · exact h.clear
  · exact h.clear'
  · exact hne
  · exact h.ne.symm

end Pair

/-- Texts that stay apart, also from what is put in for the other one, can be replaced in
either order. -/
theorem strReplace_comm {m v o w : Text} (hm : m ≠ []) (ho : o ≠ []) (hmm : Clear m m)
    (hoo : Clear o o) (hmo : Apart m o) (hmw : Apart m w) (hov : Apart o v) (t : Text) :
    strReplace m v (strReplace o w t) = strReplace o w (strReplace m v t) := by
  have hnone : ∀ a : Text, ¬ o <:+: a → strReplace o w (strReplace m v a) = strReplace m v a := by
    intro a ha
    induction a using occurrence_induction hm with
    | none a hwithout =>
        rw [strReplace_of_absent hwithout, strReplace_of_absent ha]
    | some x y hx ih =>
        have hleft : ¬ o <:+: x := fun hin => ha (hin.trans (List.prefix_append x _).isInfix)
        have hright : ¬ o <:+: y := fun hin =>
          ha (hin.trans ((List.suffix_append m y).trans (List.suffix_append x _)).isInfix)
        rw [strReplace_append hm hmm hx, strReplace_append_other ho hoo hov, ih hright,
          strReplace_of_absent hleft]
  induction t using occurrence_induction ho with
  | none t ht => rw [strReplace_of_absent ht, hnone t ht]
  | some a b ha ih =>
      rw [strReplace_append ho hoo ha, strReplace_append_other hm hmm hmw, ih,
        strReplace_append_other hm hmm hmo, strReplace_append_self ho hoo, hnone a ha]

end Text
