/-
# Loose comparison of scalars

A scripting language that compares with `==` converts first. Two texts that
both read as numbers are compared as numbers, so two different texts can be
equal; a text and a truth value are compared as truth values; nothing equals
the empty text. The rules are those of a build with machine integers of 32
bits: an integer literal beyond them becomes a double, and two doubles that are
too large to tell their literals apart hand the decision back to the texts.
-/

import Mathlib.Data.List.TakeDrop
import WampManager.Lib.Text

namespace Loose

/-- The side on which an integer literal leaves the machine integers. -/
inductive Side
  | above
  | below
  deriving DecidableEq

/-- What a numeric text denotes. -/
inductive Number
  | long (n : ℤ)
  | double (value : Float.Model) (overflow : Option Side)

/-! ## Reading a number -/

/-- Blanks in front of a number are skipped. -/
def isSpace (c : Char) : Bool :=
  c == ' ' || c == '\t' || c == '\n' || c == '\r' || c == '\x0b' || c == '\x0c'

/-- Split off a sign; is it a minus? -/
def sign : Text → Bool × Text
  | '-' :: rest => (true, rest)
  | '+' :: rest => (false, rest)
  | rest => (false, rest)

/-- The value of a run of digits. -/
def value (digits : Text) : ℕ := Nat.ofDigitChars 10 digits 0

/-- The digits without leading zeros. -/
def significant (digits : Text) : Text := digits.dropWhile (· == '0')

/-- The exponent that the rest of a literal is, if it is one; huge exponents
are all read as one bound. -/
def exponent? : Text → Option ℤ
  | [] => some 0
  | c :: rest =>
      let (negative, digits) := sign rest
      if (c = 'e' ∨ c = 'E') ∧ digits ≠ [] ∧ digits.all Char.isDigit then
        let n : ℕ :=
          if 8 < (significant digits).length ∨ 19999 < value digits then 19999
          else value digits
        some (if negative then -(n : ℤ) else n)
      else none

/-- Does an integer fit into 32 bits? -/
def fits (negative : Bool) (n : ℕ) : Bool := n < 2 ^ 31 || (n == 2 ^ 31 && negative)

/-- The number a whole text denotes; blanks at the end are not allowed. -/
def number? (t : Text) : Option Number :=
  let (negative, unsigned) := sign (t.dropWhile isSpace)
  let (whole, rest) := unsigned.span Char.isDigit
  if whole ≠ [] ∧ rest = [] ∧ fits negative (value whole) then
    some (.long (if negative then -(value whole : ℤ) else value whole))
  else
    let (fraction, tail) := match rest with
      | '.' :: rest => rest.span Char.isDigit
      | rest => ([], rest)
    if whole = [] ∧ fraction = [] then none
    else (exponent? tail).map fun e =>
      let magnitude := Float.Model.ofScientific (value (whole ++ fraction)) (e - fraction.length)
      let overflow := if rest = [] ∨ 10 < (significant whole).length then
        some (if negative then Side.below else .above) else none
      .double (if negative then magnitude.neg else magnitude) overflow

/-- Is the text a number? -/
def isNumeric (t : Text) : Bool := (number? t).isSome

/-- The integer that a number is, if it is one. -/
def Number.whole? : Number → Option ℤ
  | .long n => some n
  | .double d _ =>
      let n := d.unpack.toInt 0 0
      if d.beq (Float.Model.ofInt n) then some n else none

theorem not_isSpace_of_isDigit {c : Char} (h : c.isDigit) : ¬ isSpace c := by
  intro hspace
  simp only [isSpace, Bool.or_eq_true, beq_iff_eq] at hspace
  rcases hspace with ((((rfl | rfl) | rfl) | rfl) | rfl) | rfl <;> exact absurd h (by decide)

/-- A numeral has no sign and no blanks in front. -/
theorem sign_toDigits (n : ℕ) :
    sign ((Nat.toDigits 10 n).dropWhile isSpace) = (false, Nat.toDigits 10 n) := by
  obtain ⟨c, rest, hcons⟩ := List.exists_cons_of_ne_nil (Nat.toDigits_ne_nil (n := n) (b := 10))
  have hc : c.isDigit :=
    Nat.isDigit_of_mem_toDigits (b := 10) (n := n) (by decide) (by decide) (by simp [hcons])
  rw [hcons, List.dropWhile_cons_of_neg (not_isSpace_of_isDigit hc)]
  unfold sign
  split
  · next heq => exact absurd ((List.cons.inj heq).1 ▸ hc) (by decide)
  · next heq => exact absurd ((List.cons.inj heq).1 ▸ hc) (by decide)
  · rfl

/-- It is digits throughout. -/
theorem span_toDigits (n : ℕ) :
    (Nat.toDigits 10 n).span Char.isDigit = (Nat.toDigits 10 n, []) := by
  have hdigit : ∀ c ∈ Nat.toDigits 10 n, c.isDigit := fun c hc =>
    Nat.isDigit_of_mem_toDigits (by decide) (by decide) hc
  rw [List.span_eq_takeWhile_dropWhile, List.takeWhile_eq_self_iff.mpr hdigit,
    List.dropWhile_eq_nil_iff.mpr hdigit]

theorem value_toDigits (n : ℕ) : value (Nat.toDigits 10 n) = n := Nat.ofDigitChars_ten_toDigits

/-- Decimal digits are a number. -/
theorem number?_toDigits {n : ℕ} (h : n < 2 ^ 31) :
    number? (Nat.toDigits 10 n) = some (.long n) := by
  have hne : Nat.toDigits 10 n ≠ [] := Nat.toDigits_ne_nil
  have hfits : fits false n = true := by simpa [fits] using h
  simp only [number?, sign_toDigits, span_toDigits, value_toDigits, hfits]
  simp [hne]

/-! ## The characters of a number -/

/-- The characters that a number can have. -/
def isNumberChar (c : Char) : Bool := isSpace c || c.isDigit || c ∈ ['+', '-', '.', 'e', 'E']

theorem exists_sign (t : Text) : ∃ s, t = s ++ (sign t).2 ∧ ∀ c ∈ s, isNumberChar c = true := by
  unfold sign
  split
  · exact ⟨['-'], rfl, by decide⟩
  · exact ⟨['+'], rfl, by decide⟩
  · exact ⟨[], rfl, fun c hc => absurd hc List.not_mem_nil⟩

theorem isNumberChar_of_isDigit {c : Char} (h : c.isDigit = true) : isNumberChar c = true := by
  simp [isNumberChar, h]

theorem isNumberChar_of_exponent? {t : Text} {e : ℤ} (h : exponent? t = some e) :
    ∀ c ∈ t, isNumberChar c = true := by
  cases t with
  | nil => exact fun c hc => absurd hc List.not_mem_nil
  | cons d rest =>
      obtain ⟨s, hrest, hs⟩ := exists_sign rest
      simp only [exponent?] at h
      split at h
      · next hexponent =>
          obtain ⟨hd, -, hdigits⟩ := hexponent
          refine List.forall_mem_cons.mpr ⟨by rcases hd with rfl | rfl <;> decide, fun c hc => ?_⟩
          rw [hrest] at hc
          rcases List.mem_append.mp hc with hc | hc
          · exact hs c hc
          · exact isNumberChar_of_isDigit (List.all_eq_true.mp hdigits c hc)
      · cases h

/-- A number has only such characters, and a digit. -/
theorem chars_of_isNumeric {t : Text} (h : isNumeric t = true) :
    (∀ c ∈ t, isNumberChar c = true) ∧ ∃ c ∈ t, c.isDigit = true := by
  obtain ⟨n, hn⟩ := Option.isSome_iff_exists.mp h
  obtain ⟨s, hsign, hs⟩ := exists_sign (t.dropWhile isSpace)
  have hblanks : ∀ c ∈ t.takeWhile isSpace, isNumberChar c = true := by
    intro c hc
    simp [isNumberChar, List.mem_takeWhile_imp hc]
  have ht : t = t.takeWhile isSpace ++ (s ++ (sign (t.dropWhile isSpace)).2) := by
    rw [← hsign, List.takeWhile_append_dropWhile]
  have hdigits : ∀ u : Text, ∀ c ∈ u.takeWhile Char.isDigit, c.isDigit = true :=
    fun u c hc => List.mem_takeWhile_imp hc
  -- what stands behind the sign has to be looked at
  suffices hunsigned : (∀ c ∈ (sign (t.dropWhile isSpace)).2, isNumberChar c = true) ∧
      ∃ c ∈ (sign (t.dropWhile isSpace)).2, c.isDigit = true by
    obtain ⟨c, hc, hdigit⟩ := hunsigned.2
    rw [ht]
    refine ⟨fun c hc => ?_, c, by simp [hc], hdigit⟩
    rcases List.mem_append.mp hc with hc | hc
    · exact hblanks c hc
    · exact (List.mem_append.mp hc).elim (hs c) (hunsigned.1 c)
  unfold number? at hn
  generalize sign (t.dropWhile isSpace) = signed at hn
  obtain ⟨negative, unsigned⟩ := signed
  simp only [List.span_eq_takeWhile_dropWhile] at hn ⊢
  have hcut : unsigned = unsigned.takeWhile Char.isDigit ++ unsigned.dropWhile Char.isDigit :=
    List.takeWhile_append_dropWhile.symm
  have hwhole := hdigits unsigned
  generalize unsigned.takeWhile Char.isDigit = whole at hn hcut hwhole
  generalize unsigned.dropWhile Char.isDigit = rest at hn hcut
  subst hcut
  have hchars : ∀ {fraction tail : Text} {e : ℤ}, (∀ c ∈ fraction, c.isDigit = true) →
      exponent? tail = some e → ∀ c ∈ fraction ++ tail, isNumberChar c = true := by
    intro fraction tail e hfraction he c hc
    exact (List.mem_append.mp hc).elim (fun hc => isNumberChar_of_isDigit (hfraction c hc))
      (isNumberChar_of_exponent? he c)
  split at hn
  · next hint =>
      obtain ⟨hne, rfl, -⟩ := hint
      obtain ⟨c, tail, rfl⟩ := List.exists_cons_of_ne_nil hne
      rw [List.append_nil]
      exact ⟨fun d hd => isNumberChar_of_isDigit (hwhole d hd), c, List.mem_cons_self,
        hwhole c List.mem_cons_self⟩
  · split at hn
    · next rest _ =>
        split at hn
        · cases hn
        · next hsome =>
            obtain ⟨e, he, -⟩ := Option.map_eq_some_iff.mp hn
            have hrest : rest = rest.takeWhile Char.isDigit ++ rest.dropWhile Char.isDigit :=
              List.takeWhile_append_dropWhile.symm
            have hfraction := hdigits rest
            generalize rest.takeWhile Char.isDigit = fraction at hsome hrest hfraction
            generalize rest.dropWhile Char.isDigit = tail at he hrest
            subst hrest
            refine ⟨fun c hc => ?_, ?_⟩
            · rcases List.mem_append.mp hc with hc | hc
              · exact isNumberChar_of_isDigit (hwhole c hc)
              · rcases List.mem_cons.mp hc with rfl | hc
                · decide
                · exact hchars hfraction he c hc
            · cases whole with
              | cons c whole => exact ⟨c, by simp, hwhole c List.mem_cons_self⟩
              | nil =>
                  cases fraction with
                  | nil => exact absurd ⟨rfl, rfl⟩ hsome
                  | cons c fraction => exact ⟨c, by simp, hfraction c List.mem_cons_self⟩
    · split at hn
      · cases hn
      · next hsome =>
          obtain ⟨e, he, -⟩ := Option.map_eq_some_iff.mp hn
          refine ⟨hchars hwhole he, ?_⟩
          cases whole with
          | cons c whole => exact ⟨c, by simp, hwhole c List.mem_cons_self⟩
          | nil => exact absurd ⟨rfl, rfl⟩ hsome

/-! ## Comparing -/

/-- Equality of the numbers; an overflown integer equals no machine integer. -/
def Number.eq : Number → Number → Bool
  | .long m, .long n => m == n
  | .long m, .double e overflow => overflow.isNone && (Float.Model.ofInt m).beq e
  | .double d overflow, .long n => overflow.isNone && d.beq (Float.Model.ofInt n)
  | .double d _, .double e _ => d.beq e

/-- Two doubles that say too little about their literals: both infinite, or
both from integers that overflow on one side and beyond exact doubles. -/
def Number.indistinct : Number → Number → Bool
  | .double d first, .double e second =>
      d.beq e && (d.isInf ||
        (first.isSome && first == second && (Float.Model.ofNat (2 ^ 53 - 1)).lt d.abs))
  | _, _ => false

/-- `==` on two texts. -/
def textEq (s t : Text) : Bool :=
  match number? s, number? t with
  | some m, some n => if m.indistinct n then s == t else m.eq n
  | _, _ => s == t

/-- The empty text equals itself only. -/
theorem textEq_nil (t : Text) : textEq t [] = (t == []) := by
  unfold textEq
  cases number? t <;> rfl

/-- The values that are compared. -/
inductive Scalar
  | null
  | bool (b : Bool)
  | text (t : Text)
  deriving DecidableEq

/-- The truth value of a text. -/
def truthy (t : Text) : Bool := t != [] && t != ['0']

/-- `==`. -/
def looseEq : Scalar → Scalar → Bool
  | .null, .null => true
  | .null, .bool b => !b
  | .null, .text t => t.isEmpty
  | .bool b, .null => !b
  | .bool b, .bool c => b == c
  | .bool b, .text t => b == truthy t
  | .text s, .null => s.isEmpty
  | .text s, .bool c => truthy s == c
  | .text s, .text t => textEq s t

/-- Two different texts that denote one number. -/
def Confused (s t : Text) : Prop :=
  s ≠ t ∧ ∃ m n, number? s = some m ∧ number? t = some n ∧
    m.indistinct n = false ∧ m.eq n = true

/-- What loose equality lets through beyond equality. -/
theorem textEq_and_ne_iff (s t : Text) : textEq s t = true ∧ s ≠ t ↔ Confused s t := by
  unfold textEq Confused
  cases hs : number? s with
  | none => simp
  | some m =>
      cases ht : number? t with
      | none => simp
      | some n =>
          cases hin : m.indistinct n with
          | true => simp [hin]
          | false => simp [hin, and_comm]

/-- Infinite and huge literals are not confused, powers of zero are. -/
example : textEq "0e12".toList "0e345".toList = true ∧
    textEq "1e400".toList "1e500".toList = false ∧
    textEq "10000000000000000000000".toList "10000000000000000000001".toList = false ∧
    textEq "1e3".toList " 1000.0".toList = true := by decide +kernel

/-! ## Texts equal themselves -/

section Doubles

open Float.Model (UnpackedFloat Format)

/-- Bits are no NaN if a full exponent comes with an empty mantissa. -/
theorem unpack_ne_nan {b : BitVec Format.binary64.numBits}
    (h : UnpackedFloat.unpackExponent b = -1#_ → UnpackedFloat.unpackMantissa b = 0#_) :
    UnpackedFloat.unpack Format.binary64 b ≠ .notANumber := by
  delta UnpackedFloat.unpack
  dsimp only
  by_cases hfull : UnpackedFloat.unpackExponent b = -1#_
  · rw [if_pos hfull, if_pos (h hfull)]
    intro heq
    cases heq
  · rw [if_neg hfull]
    by_cases hsmall : UnpackedFloat.unpackExponent b = 0#_
    · rw [if_pos hsmall]
      by_cases hzero : UnpackedFloat.unpackMantissa b = 0#_
      · rw [dif_pos hzero]
        intro heq
        cases heq
      · rw [dif_neg hzero]
        intro heq
        cases heq
    · rw [if_neg hsmall]
      intro heq
      cases heq

/-- What is no NaN is none after packing. -/
theorem unpack_pack_ne_nan {f : UnpackedFloat} (h : f ≠ .notANumber) :
    (Float.Model.pack f).unpack ≠ .notANumber := by
  have hbits : ∀ {s : Float.Model.UnpackedFloat.Sign} {e : BitVec 11} {m : BitVec 52},
      (e = -1#11 → m = 0#52) → UnpackedFloat.unpack Format.binary64
        (UnpackedFloat.packComponents Format.binary64 s e m) ≠ .notANumber := by
    intro s e m hm
    apply unpack_ne_nan
    rw [UnpackedFloat.unpackExponent_packComponents, UnpackedFloat.unpackMantissa_packComponents]
    exact hm
  show UnpackedFloat.unpack Format.binary64 (UnpackedFloat.pack Format.binary64 f) ≠ _
  cases f with
  | notANumber => exact absurd rfl h
  | infinity s => exact hbits fun _ => rfl
  | zero s => exact hbits fun _ => rfl
  | finite s m e hm =>
      delta UnpackedFloat.pack
      dsimp only
      split
      · exact hbits fun _ => rfl
      · next hsmall =>
        split
        · apply hbits
          intro he
          have hvalue := congrArg BitVec.toNat he
          rw [BitVec.toNat_ofNat, Nat.mod_eq_of_lt (by omega)] at hvalue
          have hmax : (-1#11 : BitVec 11).toNat = 2047 := by decide
          omega
        · exact hbits fun he => absurd he (by decide)

theorem compare_self {f : UnpackedFloat} (h : f ≠ .notANumber) : f.compare f = some .eq := by
  cases f with
  | notANumber => exact absurd rfl h
  | infinity s => cases s <;> rfl
  | zero s => rfl
  | finite s m e hm =>
      have hsame : (compare e e).then (compare m m) = .eq := by simp
      cases s with
      | negative => exact congrArg (fun o : Ordering => some o.swap) hsame
      | positive => exact congrArg some hsame

theorem roundWithAccuracy_ne_nan {s : Float.Model.UnpackedFloat.Sign} {m : ℕ} {e : ℤ}
    {a : UnpackedFloat.Accuracy} :
    UnpackedFloat.roundWithAccuracy Format.binary64 s m e a ≠ .notANumber := by
  delta UnpackedFloat.roundWithAccuracy
  intro heq
  rcases dite_eq_iff.mp heq with ⟨_, hzero⟩ | ⟨_, hfinite⟩
  · cases hzero
  · cases hfinite

/-- A literal denotes no NaN. -/
theorem ofScientific_ne_nan (m : ℕ) (e : ℤ) :
    (Float.Model.ofScientific m e).unpack ≠ .notANumber := by
  apply unpack_pack_ne_nan
  delta UnpackedFloat.ofScientific
  intro heq
  rcases dite_eq_iff.mp heq with ⟨_, hzero⟩ | ⟨_, hlarge⟩
  · cases hzero
  rcases ite_eq_iff.mp hlarge with ⟨_, hinfinity⟩ | ⟨_, hsmall⟩
  · cases hinfinity
  rcases ite_eq_iff.mp hsmall with ⟨_, hzero⟩ | ⟨_, hrounded⟩
  · cases hzero
  rcases ite_eq_iff.mp hrounded with ⟨_, hmul⟩ | ⟨_, hdiv⟩
  · exact roundWithAccuracy_ne_nan hmul
  · exact roundWithAccuracy_ne_nan hdiv

theorem neg_ne_nan {d : Float.Model} (h : d.unpack ≠ .notANumber) :
    d.neg.unpack ≠ .notANumber := by
  apply unpack_pack_ne_nan
  revert h
  cases d.unpack with
  | notANumber => exact fun h => absurd rfl h
  | infinity s | zero s =>
      intro _ heq
      cases heq
  | finite s m e hm =>
      intro _ heq
      cases heq

end Doubles

/-- What a text denotes equals itself. -/
theorem number?_eq_self {t : Text} {n : Number} (h : number? t = some n) : n.eq n = true := by
  have hdouble : ∀ {negative : Bool} {m : ℕ} {e : ℤ} {overflow : Option Side},
      (Number.double (if negative then (Float.Model.ofScientific m e).neg
        else Float.Model.ofScientific m e) overflow).eq
      (.double (if negative then (Float.Model.ofScientific m e).neg
        else Float.Model.ofScientific m e) overflow) = true := by
    intro negative m e overflow
    have hself : ∀ {d : Float.Model}, d.unpack ≠ .notANumber → d.beq d = true := by
      intro d hd
      show (d.unpack.compare d.unpack == some .eq) = true
      rw [compare_self hd]
      rfl
    apply hself
    split
    · exact neg_ne_nan (ofScientific_ne_nan m e)
    · exact ofScientific_ne_nan m e
  unfold number? at h
  simp only at h
  split at h
  · obtain rfl := Option.some.inj h
    exact beq_self_eq_true _
  · split at h
    all_goals
      split at h
      · cases h
      · obtain ⟨e, -, rfl⟩ := Option.map_eq_some_iff.mp h
        exact hdouble

/-- A text equals itself. -/
theorem textEq_self (t : Text) : textEq t t = true := by
  unfold textEq
  cases h : number? t with
  | none => simp
  | some n => simp [number?_eq_self h]

end Loose
