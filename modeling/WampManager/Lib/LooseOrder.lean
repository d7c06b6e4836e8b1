/-
# Loose order of texts

Sorting without flags compares texts as `<=>` does: two numeric texts by their numbers,
all others by their characters. Numbers that overflow the machine integers and cannot be
told apart as doubles are compared by their characters too.
-/

import WampManager.Lib.Loose

namespace Loose

/-- The order of two numbers; an overflown integer lies beyond every machine integer. -/
def Number.compare : Number → Number → Ordering
  | .long m, .long n => Ord.compare m n
  | .long _, .double _ (some .above) => .lt
  | .long _, .double _ (some .below) => .gt
  | .long m, .double e none => ((Float.Model.ofInt m).compare e).getD .eq
  | .double _ (some .above), .long _ => .gt
  | .double _ (some .below), .long _ => .lt
  | .double d none, .long n => (d.compare (Float.Model.ofInt n)).getD .eq
  | .double d _, .double e _ => (d.compare e).getD .eq

/-- The order of two texts by their characters. -/
def charCompare (s t : Text) : Ordering := compareOfLessAndEq s t

/-- `<=>` on two texts. -/
def textCompare (s t : Text) : Ordering :=
  match number? s, number? t with
  | some m, some n => if m.indistinct n then charCompare s t else m.compare n
  | _, _ => charCompare s t

/-- The number that a text begins with; without one it is zero. -/
def toNumber (t : Text) : Number := (t.inits.reverse.findSome? number?).getD (.long 0)

/-- `<=>` on a text and an integer. -/
def compareInt (t : Text) (n : ℤ) : Ordering := (toNumber t).compare (.long n)

/-- `==` on a text and an integer. -/
def eqInt (t : Text) (n : ℤ) : Bool := (toNumber t).eq (.long n)

example : eqInt "-1abc".toList (-1) = true := by decide

theorem charCompare_self (t : Text) : charCompare t t = .eq := by
  rw [charCompare, compareOfLessAndEq, if_neg (List.lt_irrefl t), if_pos rfl]

theorem Number.compare_self (n : Number) : n.compare n = .eq := by
  cases n with
  | long n =>
      show compareOfLessAndEq n n = .eq
      rw [compareOfLessAndEq, if_neg (Int.lt_irrefl n), if_pos rfl]
  | double d overflow =>
      have hself : (d.compare d).getD .eq = .eq := by
        by_cases hnan : d.unpack = .notANumber
        · have hnone : d.compare d = none := by
            rw [Float.Model.compare, hnan]
            rfl
          rw [hnone]
          rfl
        · have hsome : d.compare d = some .eq := Loose.compare_self hnan
          rw [hsome]
          rfl
      cases overflow with
      | none => exact hself
      | some side => cases side <;> exact hself

theorem textCompare_self (t : Text) : textCompare t t = .eq := by
  unfold textCompare
  cases number? t with
  | none => exact charCompare_self t
  | some n =>
      show (if n.indistinct n then charCompare t t else n.compare n) = .eq
      rw [charCompare_self, Number.compare_self, ite_self]

/-! ## Digits -/

/-- Digits are a number, leading zeros or not. -/
theorem number?_digits {t : Text} (hne : t ≠ []) (h : ∀ c ∈ t, c.isDigit = true)
    (hsmall : value t < 2 ^ 31) : number? t = some (.long (value t)) := by
  have hspace : t.dropWhile isSpace = t := by
    cases t with
    | nil => rfl
    | cons c t => rw [List.dropWhile_cons_of_neg (not_isSpace_of_isDigit (h c List.mem_cons_self))]
  have hsign : sign t = (false, t) := by
    unfold sign
    split
    · exact absurd (h '-' List.mem_cons_self) (by decide)
    · exact absurd (h '+' List.mem_cons_self) (by decide)
    · rfl
  have hspan : t.span Char.isDigit = (t, []) := by
    rw [List.span_eq_takeWhile_dropWhile, List.takeWhile_eq_self_iff.mpr h,
      List.dropWhile_eq_nil_iff.mpr h]
  have hfits : fits false (value t) = true := by simpa [fits] using hsmall
  simp only [number?, hspace, hsign, hspan, hfits]
  simp [hne]

/-- Digits that fit the machine integers are compared by value. -/
theorem textCompare_digits {s t : Text} (hs : s ≠ []) (ht : t ≠ [])
    (hsdigits : ∀ c ∈ s, c.isDigit = true) (htdigits : ∀ c ∈ t, c.isDigit = true)
    (hssmall : value s < 2 ^ 31) (htsmall : value t < 2 ^ 31) :
    textCompare s t = compare (value s) (value t) := by
  have hcompare : (Number.long (value s)).compare (.long (value t)) =
      compare (value s : ℤ) (value t : ℤ) := rfl
  have hcast : compare (value s : ℤ) (value t : ℤ) = compare (value s) (value t) := by
    show compareOfLessAndEq (value s : ℤ) (value t : ℤ) = compareOfLessAndEq (value s) (value t)
    simp only [compareOfLessAndEq, Int.ofNat_lt, Int.ofNat_inj]
  rw [textCompare, number?_digits hs hsdigits hssmall, number?_digits ht htdigits htsmall]
  show (if (Number.long (value s)).indistinct (.long (value t)) then _ else _) = _
  rw [if_neg (by simp [Number.indistinct]), hcompare, hcast]

/-- The value of digits one behind the other. -/
theorem value_append (s t : Text) : value (s ++ t) = 10 ^ t.length * value s + value t := by
  rw [value, Nat.ofDigitChars_append, Nat.ofDigitChars_eq_ofDigitChars_zero]
  rfl

theorem value_lt {t : Text} (h : ∀ c ∈ t, c.isDigit = true) : value t < 10 ^ t.length := by
  induction t with
  | nil => decide
  | cons c t ih =>
      obtain ⟨hc, ht⟩ := List.forall_mem_cons.mp h
      have hrest := ih ht
      have hdigit : value [c] ≤ 9 := by
        have hle : c.toNat ≤ 57 := by
          have hrange := hc
          simp only [Char.isDigit, Bool.and_eq_true, decide_eq_true_eq] at hrange
          exact UInt32.le_iff_toNat_le.mp hrange.2
        show 10 * 0 + (c.toNat - 48) ≤ 9
        omega
      have happend := value_append [c] t
      rw [List.singleton_append] at happend
      rw [happend, List.length_cons, pow_succ]
      have hmul : 10 ^ t.length * value [c] ≤ 10 ^ t.length * 9 := Nat.mul_le_mul_left _ hdigit
      omega

theorem value_cons (c : Char) (t : Text) :
    value (c :: t) = 10 ^ t.length * (c.toNat - 48) + value t := by
  have hdigit : value [c] = c.toNat - 48 := by
    show 10 * 0 + (c.toNat - 48) = c.toNat - 48
    omega
  rw [← List.singleton_append, value_append, hdigit]

/-- Without its last digits a number is divided by a power of ten. -/
theorem value_take {t : Text} (h : ∀ c ∈ t, c.isDigit = true) (k : ℕ) :
    value (t.take k) = value t / 10 ^ (t.length - k) := by
  have hvalue := value_append (t.take k) (t.drop k)
  have hsmall := value_lt fun c hc => h c (List.mem_of_mem_drop (i := k) hc)
  rw [List.take_append_drop, List.length_drop] at hvalue
  rw [List.length_drop] at hsmall
  rw [hvalue, Nat.mul_add_div (Nat.pow_pos (by decide)), Nat.div_eq_of_lt hsmall, Nat.add_zero]

/-- Numbers of one length are in the alphabet as they are by value, whatever stands behind
them. -/
theorem append_lt_append_iff {s t : Text} (hs : ∀ c ∈ s, c.isDigit = true)
    (ht : ∀ c ∈ t, c.isDigit = true) (hlength : s.length = t.length) (rest : Text) :
    s ++ rest < t ++ rest ↔ value s < value t := by
  induction s generalizing t with
  | nil =>
      rw [List.length_eq_zero_iff.mp hlength.symm]
      simp
  | cons c s ih =>
      cases t with
      | nil => simp at hlength
      | cons d t =>
          obtain ⟨hc, hs⟩ := List.forall_mem_cons.mp hs
          obtain ⟨hd, ht⟩ := List.forall_mem_cons.mp ht
          have hlength := Nat.succ.inj hlength
          have hbehind := ih hs ht hlength
          have hssmall := value_lt hs
          have htsmall := value_lt ht
          have hrange : ∀ c : Char, c.isDigit = true → 48 ≤ c.toNat := by
            intro c hc
            simp only [Char.isDigit, Bool.and_eq_true, decide_eq_true_eq] at hc
            exact UInt32.le_iff_toNat_le.mp hc.1
          have hc := hrange c hc
          have hd := hrange d hd
          rw [List.cons_append, List.cons_append, List.cons_lt_cons_iff, hbehind, value_cons,
            value_cons, ← hlength]
          rw [← hlength] at htsmall
          rcases lt_trichotomy c.toNat d.toNat with h | h | h
          · have hmul := Nat.mul_le_mul_left (10 ^ s.length)
              (show c.toNat - 48 + 1 ≤ d.toNat - 48 by omega)
            have hlt : c < d := h
            simp only [hlt, true_or, true_iff]
            rw [Nat.mul_add, Nat.mul_one] at hmul
            omega
          · obtain rfl : c = d := Char.toNat_inj.mp h
            simp
          · have hmul := Nat.mul_le_mul_left (10 ^ s.length)
              (show d.toNat - 48 + 1 ≤ c.toNat - 48 by omega)
            have hge : ¬ c < d := fun hlt => absurd (show c.toNat < d.toNat from hlt) (by omega)
            have hne : c ≠ d := fun heq => absurd (congrArg Char.toNat heq) (by omega)
            simp only [hge, hne, false_and, or_self, false_iff]
            rw [Nat.mul_add, Nat.mul_one] at hmul
            omega

end Loose
