/-
# Whole numbers as doubles

Two decimal numerals are loosely equal only if they are the same numeral, as long as
neither has leading zeros. Numerals that fit the machine integers are compared as
these. The others become doubles: below 2^53 each has a double of its own, and doubles
of numerals from 2^53 on say too little, so that the texts decide.
-/

import WampManager.Lib.Loose

namespace Loose

open Float.Model (UnpackedFloat Format)
open Float.Model.UnpackedFloat (ExtendedMantissa Accuracy)

section Rounding

/-! ## Rounding a whole number -/

/-- Shifting a mantissa divides it. -/
theorem repeat_mantissa (em : ExtendedMantissa) (k : ℕ) :
    (k.repeat ExtendedMantissa.shiftRightOne em).mantissa = em.mantissa / 2 ^ k := by
  induction k with
  | zero => exact (Nat.div_one _).symm
  | succ k ih =>
      show (k.repeat ExtendedMantissa.shiftRightOne em).mantissa / 2 = _
      rw [ih, Nat.div_div_eq_div_mul, pow_succ]

/-- Zeros are shifted out without a trace. -/
theorem repeat_exact (m k : ℕ) :
    k.repeat ExtendedMantissa.shiftRightOne ⟨m * 2 ^ k, false, false⟩ = ⟨m, false, false⟩ := by
  induction k generalizing m with
  | zero => rw [pow_zero, mul_one]; rfl
  | succ k ih =>
      show (k.repeat ExtendedMantissa.shiftRightOne _).shiftRightOne = _
      rw [pow_succ', ← mul_assoc, ih]
      show (⟨m * 2 / 2, m * 2 % 2 != 0, false || false⟩ : ExtendedMantissa) = _
      rw [Nat.mul_div_cancel m (by decide), Nat.mul_mod_left]
      rfl

theorem roundedMantissa_le (em : ExtendedMantissa) :
    em.mantissa ≤ em.roundedMantissa ∧ em.roundedMantissa ≤ em.mantissa + 1 := by
  obtain ⟨m, round, sticky⟩ := em
  cases round <;> cases sticky
  · exact ⟨le_refl m, Nat.le_succ m⟩
  · exact ⟨le_refl m, Nat.le_succ m⟩
  · show m ≤ m + m % 2 ∧ m + m % 2 ≤ m + 1
    omega
  · exact ⟨Nat.le_succ m, le_refl (m + 1)⟩

/-- The shift that rounding makes. -/
def shiftAmount (m : ℕ) (e : ℤ) : ℕ :=
  (Format.binary64.targetExponent (Float.Model.totalExponent m e) - e).toNat

theorem shiftAmount_eq {m : ℕ} {e : ℤ} (he : -1074 ≤ e) : shiftAmount m e = m.log2 - 52 := by
  have htarget : Format.binary64.targetExponent (Float.Model.totalExponent m e) =
      max ((m.log2 : ℤ) + 1 + e - 53) (-1074) := rfl
  rw [shiftAmount, htarget]
  omega

/-- Rounding of an exact number shifts it twice, with the rounded mantissa in between. -/
theorem roundWithAccuracy_exact {m r first second a : ℕ} {e e₁ : ℤ} (hfirst : shiftAmount m e = first)
    (hr : (first.repeat ExtendedMantissa.shiftRightOne ⟨m, false, false⟩).roundedMantissa = r)
    (he₁ : e + first = e₁) (hsecond : shiftAmount r e₁ = second)
    (ha : (second.repeat ExtendedMantissa.shiftRightOne ⟨r, false, false⟩).mantissa = a) :
    UnpackedFloat.roundWithAccuracy Format.binary64 .positive m e .exact =
      if h : a = 0 then .zero .positive
      else .finite .positive a (e₁ + second) (Nat.pos_of_ne_zero h) := by
  subst hfirst hr he₁ hsecond ha
  rfl

theorem log2_eq {n k : ℕ} (hle : 2 ^ k ≤ n) (hlt : n < 2 ^ (k + 1)) : n.log2 = k := by
  have hne : n ≠ 0 := by
    rintro rfl
    exact absurd hle (Nat.not_le.mpr (Nat.two_pow_pos k))
  have hlow := (Nat.le_log2 hne).mpr hle
  have hhigh := (Nat.log2_lt hne).mpr hlt
  omega

theorem mul_finite {m₁ m₂ : ℕ} {e₁ e₂ : ℤ} (h₁ : 0 < m₁) (h₂ : 0 < m₂) :
    UnpackedFloat.mul Format.binary64 (.finite .positive m₁ e₁ h₁) (.finite .positive m₂ e₂ h₂) =
      UnpackedFloat.roundWithAccuracy Format.binary64 .positive (m₁ * m₂) (e₁ + e₂) .exact := rfl

/-- A whole number is rounded with 53 zeros behind its binary digits. -/
theorem ofScientific_whole {n : ℕ} (hn : n ≠ 0) :
    UnpackedFloat.ofScientific Format.binary64 n 0 =
      UnpackedFloat.roundWithAccuracy Format.binary64 .positive (n * 2 ^ 53) (-53) .exact := by
  have hsmall : ¬ (0 : ℤ) < -((2 ^ Format.binary64.exponentBits : ℤ) + n.log2) := by
    have hbits : (2 ^ Format.binary64.exponentBits : ℤ) = 2048 := rfl
    rw [hbits]
    omega
  delta UnpackedFloat.ofScientific
  rw [dif_neg hn, if_neg (by decide), if_neg hsmall, if_pos (by decide), mul_finite,
    Nat.shiftLeft_eq, Int.toNat_zero, pow_zero, mul_one]
  rfl

/-- What rounding makes of a whole number: the mantissa has 53 bits, and below 2^53
nothing is lost. -/
theorem exists_ofScientific {n : ℕ} (hn : n ≠ 0) :
    ∃ m e, ∃ hm : 0 < m,
      UnpackedFloat.ofScientific Format.binary64 n 0 = .finite .positive m e hm ∧
        m.log2 = 52 ∧ (n.log2 : ℤ) - 52 ≤ e ∧
        (n < 2 ^ 53 → m = n * 2 ^ (52 - n.log2) ∧ e = n.log2 - 52) := by
  have hself := Nat.log2_self_le hn
  have hlt : n < 2 ^ (n.log2 + 1) := Nat.lt_log2_self
  have hlog : (n * 2 ^ 53).log2 = n.log2 + 53 := by
    apply log2_eq
    · rw [pow_add]
      exact Nat.mul_le_mul_right _ hself
    · rw [show n.log2 + 53 + 1 = (n.log2 + 1) + 53 by omega, pow_add]
      exact Nat.mul_lt_mul_of_pos_right hlt (Nat.two_pow_pos 53)
  have hshift : shiftAmount (n * 2 ^ 53) (-53) = n.log2 + 1 := by
    rw [shiftAmount_eq (by decide), hlog]
    rfl
  set first := (n.log2 + 1).repeat ExtendedMantissa.shiftRightOne ⟨n * 2 ^ 53, false, false⟩
    with hfirst
  have hmantissa : first.mantissa = n * 2 ^ 53 / 2 ^ (n.log2 + 1) := repeat_mantissa _ _
  have hlow : 2 ^ 52 ≤ first.mantissa := by
    rw [hmantissa, Nat.le_div_iff_mul_le (Nat.two_pow_pos _), ← pow_add,
      show 52 + (n.log2 + 1) = n.log2 + 53 by omega, pow_add]
    exact Nat.mul_le_mul_right _ hself
  have hhigh : first.mantissa < 2 ^ 53 := by
    rw [hmantissa, Nat.div_lt_iff_lt_mul (Nat.two_pow_pos _), mul_comm]
    exact Nat.mul_lt_mul_of_pos_left hlt (Nat.two_pow_pos 53)
  obtain ⟨hle, hge⟩ := roundedMantissa_le first
  set r := first.roundedMantissa with hr
  have hexponent : (-53 : ℤ) + ((n.log2 + 1 : ℕ) : ℤ) = n.log2 - 52 := by omega
  have hsecond : shiftAmount r ((n.log2 : ℤ) - 52) = r.log2 - 52 := shiftAmount_eq (by omega)
  rw [ofScientific_whole hn,
    roundWithAccuracy_exact hshift hr.symm hexponent hsecond (repeat_mantissa _ _)]
  have hexact : n < 2 ^ 53 → r = n * 2 ^ (52 - n.log2) := by
    intro hn53
    have hlog52 : n.log2 < 53 := (Nat.log2_lt hn).mpr hn53
    have hzeros : n * 2 ^ 53 = n * 2 ^ (52 - n.log2) * 2 ^ (n.log2 + 1) := by
      rw [mul_assoc, ← pow_add, show 52 - n.log2 + (n.log2 + 1) = 53 by omega]
    rw [hr, hfirst, hzeros, repeat_exact]
    rfl
  rcases Nat.lt_or_eq_of_le (show r ≤ 2 ^ 53 by omega) with hsmall | hlarge
  · have hrlog : r.log2 = 52 := log2_eq (by omega) hsmall
    have hdiv : r / 2 ^ (r.log2 - 52) = r := by rw [hrlog, Nat.sub_self, pow_zero, Nat.div_one]
    have hne : ¬ r / 2 ^ (r.log2 - 52) = 0 := by omega
    refine ⟨_, _, Nat.pos_of_ne_zero hne, dif_neg hne, ?_, ?_, fun h => ⟨?_, ?_⟩⟩
    · rw [hdiv, hrlog]
    · omega
    · rw [hdiv, hexact h]
    · omega
  · have hdiv : r / 2 ^ (r.log2 - 52) = 2 ^ 52 := by rw [hlarge]; decide
    have hne : ¬ r / 2 ^ (r.log2 - 52) = 0 := by omega
    refine ⟨_, _, Nat.pos_of_ne_zero hne, dif_neg hne, ?_, ?_, fun h => absurd (hexact h) ?_⟩
    · rw [hdiv]
      decide
    · omega
    · have hlog52 : n.log2 < 53 := (Nat.log2_lt hn).mpr h
      have hbound : n * 2 ^ (52 - n.log2) < 2 ^ (n.log2 + 1) * 2 ^ (52 - n.log2) :=
        Nat.mul_lt_mul_of_pos_right hlt (Nat.two_pow_pos _)
      rw [← pow_add, show n.log2 + 1 + (52 - n.log2) = 53 by omega] at hbound
      omega

end Rounding

/-! ## Packing -/

section Packing

open Float.Model.UnpackedFloat (Sign unpackSign packComponents)

theorem unpackSign_packComponents {s : Sign} {e : BitVec 11} {m : BitVec 52} :
    unpackSign (packComponents Format.binary64 s e m) = s.toBitVec := by
  change (s.toBitVec ++ e ++ m).extractLsb' 63 1 = s.toBitVec
  rw [BitVec.extractLsb'_append_eq_of_le (by decide), BitVec.extractLsb'_append_eq_of_le (by decide)]
  exact BitVec.extractLsb'_eq_self

/-- Bits whose exponent is neither extreme read as a number. -/
theorem unpack_of_parts {b : BitVec 64} {e : BitVec 11} {m : BitVec 52}
    (he : @UnpackedFloat.unpackExponent Format.binary64 b = e)
    (hm : @UnpackedFloat.unpackMantissa Format.binary64 b = m)
    (hs : @unpackSign Format.binary64 b = Sign.positive.toBitVec)
    (hfull : e ≠ -1#11) (hsmall : e ≠ 0#11) (hpos : 0 < (1#1 ++ m).toNat) :
    UnpackedFloat.unpack Format.binary64 b =
      .finite .positive (1#1 ++ m).toNat ((e.toNat : ℤ) - 1075) hpos := by
  subst he hm
  delta UnpackedFloat.unpack
  dsimp only
  rw [if_neg hfull, if_neg hsmall, hs]
  rfl

/-- All ones and no mantissa read as infinity. -/
theorem unpack_of_full {b : BitVec 64}
    (he : @UnpackedFloat.unpackExponent Format.binary64 b = -1#11)
    (hm : @UnpackedFloat.unpackMantissa Format.binary64 b = 0#52)
    (hs : @unpackSign Format.binary64 b = Sign.positive.toBitVec) :
    UnpackedFloat.unpack Format.binary64 b = .infinity .positive := by
  delta UnpackedFloat.unpack
  dsimp only
  rw [if_pos he, if_pos hm, hs]
  rfl

/-- A number with 53 bits whose exponent is in range is packed without loss, and one
beyond becomes infinite. -/
theorem unpack_pack {m : ℕ} {e : ℤ} (hm : 0 < m) (hlog : m.log2 = 52) (he : -1074 ≤ e) :
    (Float.Model.pack (.finite .positive m e hm)).unpack =
      if e ≤ 971 then .finite .positive m e hm else .infinity .positive := by
  show UnpackedFloat.unpack Format.binary64
    (UnpackedFloat.pack Format.binary64 (.finite .positive m e hm)) = _
  have hbiased : ((e + 1075).toNat : ℤ) = e + 1075 := Int.toNat_of_nonneg (by omega)
  have hpack : UnpackedFloat.pack Format.binary64 (.finite .positive m e hm) =
      if 2 ^ 11 ≤ (e + 1075).toNat + 1 then
        packComponents Format.binary64 .positive (-1#11) 0#52
      else packComponents Format.binary64 .positive (BitVec.ofNat 11 (e + 1075).toNat)
        (BitVec.ofNat 52 m) := by
    delta UnpackedFloat.pack
    dsimp only
    have hbits : m.log2 + 1 = Format.binary64.mantissaBits := by rw [hlog]; rfl
    have hsum : (e + Format.binary64.exponentBias + Format.binary64.mantissaBitsWithoutImplicit) =
        e + 1075 := by
      show e + ((1023 : ℕ) : ℤ) + ((52 : ℕ) : ℤ) = _
      omega
    rw [hsum, if_pos hbits]
    rfl
  rw [hpack]
  by_cases hfit : e ≤ 971
  · have hne : m ≠ 0 := Nat.pos_iff_ne_zero.mp hm
    have hlow := (Nat.le_log2 hne).mp hlog.ge
    have hhigh := (Nat.log2_lt hne).mp (show m.log2 < 53 by omega)
    have hexponent : (BitVec.ofNat 11 (e + 1075).toNat).toNat = (e + 1075).toNat := by
      rw [BitVec.toNat_ofNat, Nat.mod_eq_of_lt (by omega)]
    have hbits : (BitVec.ofNat 52 m).toNat = m - 2 ^ 52 := by
      rw [BitVec.toNat_ofNat]
      omega
    have hmantissa : (1#1 ++ BitVec.ofNat 52 m).toNat = m := by
      rw [BitVec.toNat_append, ← Nat.shiftLeft_add_eq_or_of_lt (BitVec.isLt _), hbits,
        Nat.shiftLeft_eq]
      show 1 * 2 ^ 52 + (m - 2 ^ 52) = m
      omega
    have hfull : BitVec.ofNat 11 (e + 1075).toNat ≠ -1#11 := by
      intro heq
      have hvalue := congrArg BitVec.toNat heq
      have hmax : (-1#11 : BitVec 11).toNat = 2047 := by decide
      omega
    have hsmall : BitVec.ofNat 11 (e + 1075).toNat ≠ 0#11 := by
      intro heq
      have hvalue := congrArg BitVec.toNat heq
      have hzero : (0#11 : BitVec 11).toNat = 0 := rfl
      omega
    have hfinite : ∀ {m' : ℕ} {e' : ℤ} (hm' : 0 < m'), m' = m → e' = e →
        UnpackedFloat.finite .positive m' e' hm' = .finite .positive m e hm := by
      rintro _ _ _ rfl rfl
      rfl
    rw [if_neg (by omega), if_pos hfit, unpack_of_parts
      UnpackedFloat.unpackExponent_packComponents UnpackedFloat.unpackMantissa_packComponents
      unpackSign_packComponents hfull hsmall (by rw [hmantissa]; exact hm)]
    exact hfinite _ hmantissa (by omega)
  · rw [if_pos (by omega), if_neg hfit]
    exact unpack_of_full UnpackedFloat.unpackExponent_packComponents
      UnpackedFloat.unpackMantissa_packComponents unpackSign_packComponents

end Packing

/-! ## Numerals -/

/-- What a whole number becomes: beyond the range it is infinite. -/
theorem exists_unpack {n : ℕ} (hn : n ≠ 0) :
    ∃ m e, ∃ hm : 0 < m, m.log2 = 52 ∧ (n.log2 : ℤ) - 52 ≤ e ∧
      (n < 2 ^ 53 → m = n * 2 ^ (52 - n.log2) ∧ e = n.log2 - 52) ∧
      (Float.Model.ofScientific n 0).unpack =
        if e ≤ 971 then .finite .positive m e hm else .infinity .positive := by
  obtain ⟨m, e, hm, hround, hlog, he, hexact⟩ := exists_ofScientific hn
  refine ⟨m, e, hm, hlog, he, hexact, ?_⟩
  rw [← unpack_pack hm hlog (by omega), ← hround]
  rfl

theorem unpack_maxExact :
    (Float.Model.ofNat (2 ^ 53 - 1)).unpack = .finite .positive (2 ^ 53 - 1) 0 (by decide) := by
  rfl

/-- Whole numbers below 2^53 are told apart from all others, and of the rest the
doubles say too little. -/
theorem beq_ofScientific {m n : ℕ} (hm : m ≠ 0) (hn : n ≠ 0) (hne : m ≠ n)
    (h : (Float.Model.ofScientific m 0).beq (Float.Model.ofScientific n 0) = true) :
    (Float.Model.ofScientific m 0).isInf = true ∨
      (Float.Model.ofNat (2 ^ 53 - 1)).lt (Float.Model.ofScientific m 0).abs = true := by
  obtain ⟨a, e, ha, halog, hae, haexact, haunpack⟩ := exists_unpack hm
  obtain ⟨b, e', hb, -, hbe, hbexact, hbunpack⟩ := exists_unpack hn
  by_cases hfit : e ≤ 971
  · rw [if_pos hfit] at haunpack
    have hcompare : (Float.Model.ofScientific m 0).unpack.compare
        (Float.Model.ofScientific n 0).unpack = some .eq := by
      have hbeq : ((Float.Model.ofScientific m 0).unpack.compare
        (Float.Model.ofScientific n 0).unpack == some .eq) = true := h
      exact eq_of_beq hbeq
    rw [haunpack, hbunpack] at hcompare
    by_cases hfit' : e' ≤ 971
    · rw [if_pos hfit'] at hcompare
      have hthen : (compare e e').then (compare a b) = .eq := Option.some.inj hcompare
      obtain ⟨he, hab⟩ := Ordering.then_eq_eq.mp hthen
      obtain rfl := Int.compare_eq_eq.mp he
      obtain rfl := Nat.compare_eq_eq.mp hab
      by_cases hexact : n < 2 ^ 53
      · obtain ⟨hmantissa', hlog'⟩ := hbexact hexact
        have hnlog : n.log2 < 53 := (Nat.log2_lt hn).mpr hexact
        obtain ⟨hmantissa, hlog⟩ := haexact ((Nat.log2_lt hm).mp (by omega))
        have hsame : m.log2 = n.log2 := by omega
        rw [hmantissa, hsame] at hmantissa'
        exact absurd (Nat.eq_of_mul_eq_mul_right (Nat.two_pow_pos _) hmantissa') hne
      · right
        have hlog : 53 ≤ n.log2 := (Nat.le_log2 hn).mpr (by omega)
        have habs : (Float.Model.ofScientific m 0).abs.unpack = .finite .positive a e ha := by
          show (Float.Model.pack (Float.Model.ofScientific m 0).unpack.abs).unpack = _
          rw [haunpack]
          exact (unpack_pack ha halog (by omega)).trans (if_pos hfit)
        show (Float.Model.ofNat (2 ^ 53 - 1)).unpack.lt (Float.Model.ofScientific m 0).abs.unpack = true
        rw [habs, unpack_maxExact]
        have hless : compare 0 e = .lt := Int.compare_eq_lt.mpr (by omega)
        show (some ((compare 0 e).then (compare (2 ^ 53 - 1) a)) == some .lt) = true
        rw [hless]
        rfl
    · rw [if_neg hfit'] at hcompare
      cases hcompare
  · rw [if_neg hfit] at haunpack
    left
    show (Float.Model.ofScientific m 0).unpack.isInf = true
    rw [haunpack]
    rfl

/-- A decimal numeral beyond the machine integers is a double. -/
theorem number?_toDigits_large {n : ℕ} (h : 2 ^ 31 ≤ n) :
    number? (Nat.toDigits 10 n) = some (.double (Float.Model.ofScientific n 0) (some .above)) := by
  have hne : Nat.toDigits 10 n ≠ [] := Nat.toDigits_ne_nil
  have hfits : fits false n = false := by simpa [fits] using h
  simp only [number?, sign_toDigits, span_toDigits, value_toDigits, hfits]
  simp [hne, exponent?, value_toDigits]

/-- Numerals are loosely equal only if they are equal. -/
theorem textEq_toDigits (m n : ℕ) :
    textEq (Nat.toDigits 10 m) (Nat.toDigits 10 n) = decide (m = n) := by
  by_cases heq : m = n
  · subst heq
    rw [textEq_self, decide_eq_true rfl]
  · have hdigits : (Nat.toDigits 10 m == Nat.toDigits 10 n) = false := by
      rw [beq_eq_false_iff_ne]
      intro hsame
      exact heq (by rw [← value_toDigits m, ← value_toDigits n, hsame])
    rw [decide_eq_false heq, textEq]
    by_cases hm : m < 2 ^ 31 <;> by_cases hn : n < 2 ^ 31
    · rw [number?_toDigits hm, number?_toDigits hn]
      have hcast : (m : ℤ) ≠ n := fun h => heq (Int.ofNat.inj h)
      simpa [Number.indistinct, Number.eq] using hcast
    · rw [number?_toDigits hm, number?_toDigits_large (Nat.le_of_not_lt hn)]
      rfl
    · rw [number?_toDigits_large (Nat.le_of_not_lt hm), number?_toDigits hn]
      rfl
    · rw [number?_toDigits_large (Nat.le_of_not_lt hm), number?_toDigits_large (Nat.le_of_not_lt hn)]
      simp only [Number.indistinct, Number.eq, hdigits]
      cases hbeq : (Float.Model.ofScientific m 0).beq (Float.Model.ofScientific n 0) with
      | false => rfl
      | true =>
          have hlittle : ((Float.Model.ofScientific m 0).isInf ||
              ((some Side.above).isSome && some Side.above == some Side.above &&
                (Float.Model.ofNat (2 ^ 53 - 1)).lt (Float.Model.ofScientific m 0).abs)) = true := by
            rcases beq_ofScientific (by omega) (by omega) heq hbeq with hinf | hlt
            · rw [hinf]
              rfl
            · rw [hlt, Bool.or_eq_true]
              exact .inr rfl
          rw [hlittle]
          rfl

end Loose
