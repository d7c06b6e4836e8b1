/-
# Base64

The encoder writes four characters for three bytes and pads the last group. The decoder
is the lenient one: characters outside the alphabet, the padding among them, count for
nothing, and bits that make no byte at the end are dropped.
-/

import Mathlib.Data.List.Basic
import WampManager.Lib.Text

namespace Base64

/-- The characters by their values. -/
def alphabet : Text := "ABCDEFGHIJKLMNOPQRSTUVWXYZabcdefghijklmnopqrstuvwxyz0123456789+/".toList

/-- The character of six bits. -/
def digit (n : ℕ) : Char := alphabet.getD n '='

/-- The six bits of a character. -/
def sextet (c : Char) : Option ℕ := alphabet.idxOf? c

/-- The groups of a list of bytes. -/
def encode : List UInt8 → Text
  | a :: b :: c :: rest =>
      digit (a.toNat / 4) :: digit (a.toNat % 4 * 16 + b.toNat / 16) ::
        digit (b.toNat % 16 * 4 + c.toNat / 64) :: digit (c.toNat % 64) :: encode rest
  | [a, b] =>
      [digit (a.toNat / 4), digit (a.toNat % 4 * 16 + b.toNat / 16), digit (b.toNat % 16 * 4), '=']
  | [a] => [digit (a.toNat / 4), digit (a.toNat % 4 * 16), '=', '=']
  | [] => []

/-- The bytes of a list of sextets. -/
def bytes : List ℕ → List UInt8
  | a :: b :: c :: d :: rest =>
      UInt8.ofNat (a * 4 + b / 16) :: UInt8.ofNat (b % 16 * 16 + c / 4) ::
        UInt8.ofNat (c % 4 * 64 + d) :: bytes rest
  | [a, b, c] => [UInt8.ofNat (a * 4 + b / 16), UInt8.ofNat (b % 16 * 16 + c / 4)]
  | [a, b] => [UInt8.ofNat (a * 4 + b / 16)]
  | _ => []

/-- The bytes of a text. -/
def decode (t : Text) : List UInt8 := bytes (t.filterMap sextet)

theorem sextet_digit {n : ℕ} (h : n < 64) : sextet (digit n) = some n := by
  have hall : ∀ m < 64, sextet (digit m) = some m := by decide +kernel
  exact hall n h

theorem sextet_pad : sextet '=' = none := by decide +kernel

theorem digit_mem {n : ℕ} (h : n < 64) : digit n ∈ alphabet := by
  have hall : ∀ m < 64, digit m ∈ alphabet := by decide +kernel
  exact hall n h

theorem ofNat_eq {n : ℕ} {b : UInt8} (h : n = b.toNat) : UInt8.ofNat n = b := by
  rw [h, UInt8.ofNat_toNat]

/-- Decoding gives back what was encoded. -/
theorem decode_encode (bs : List UInt8) : decode (encode bs) = bs := by
  fun_induction encode bs with
  | case1 a b c rest ih =>
      have ha := a.toNat_lt
      have hb := b.toNat_lt
      have hc := c.toNat_lt
      rw [decode, List.filterMap_cons_some (sextet_digit (by omega)),
        List.filterMap_cons_some (sextet_digit (by omega)),
        List.filterMap_cons_some (sextet_digit (by omega)),
        List.filterMap_cons_some (sextet_digit (by omega)), bytes, ofNat_eq (b := a) (by omega),
        ofNat_eq (b := b) (by omega), ofNat_eq (b := c) (by omega)]
      exact congrArg (a :: b :: c :: ·) ih
  | case2 a b =>
      have ha := a.toNat_lt
      have hb := b.toNat_lt
      rw [decode, List.filterMap_cons_some (sextet_digit (by omega)),
        List.filterMap_cons_some (sextet_digit (by omega)),
        List.filterMap_cons_some (sextet_digit (by omega)),
        List.filterMap_cons_none sextet_pad, List.filterMap_nil, bytes,
        ofNat_eq (b := a) (by omega), ofNat_eq (b := b) (by omega)]
  | case3 a =>
      have ha := a.toNat_lt
      rw [decode, List.filterMap_cons_some (sextet_digit (by omega)),
        List.filterMap_cons_some (sextet_digit (by omega)),
        List.filterMap_cons_none sextet_pad, List.filterMap_cons_none sextet_pad,
        List.filterMap_nil, bytes, ofNat_eq (b := a) (by omega)]
  | case4 => rfl

/-- The characters of a code. -/
theorem mem_encode {bs : List UInt8} {c : Char} (h : c ∈ encode bs) : c ∈ alphabet ∨ c = '=' := by
  fun_induction encode bs with
  | case1 a b d rest ih =>
      have ha := a.toNat_lt
      have hb := b.toNat_lt
      have hd := d.toNat_lt
      simp only [List.mem_cons] at h
      rcases h with rfl | rfl | rfl | rfl | h
      · exact .inl (digit_mem (by omega))
      · exact .inl (digit_mem (by omega))
      · exact .inl (digit_mem (by omega))
      · exact .inl (digit_mem (by omega))
      · exact ih h
  | case2 a b =>
      have ha := a.toNat_lt
      have hb := b.toNat_lt
      simp only [List.mem_cons, List.not_mem_nil, or_false] at h
      rcases h with rfl | rfl | rfl | rfl
      · exact .inl (digit_mem (by omega))
      · exact .inl (digit_mem (by omega))
      · exact .inl (digit_mem (by omega))
      · exact .inr rfl
  | case3 a =>
      have ha := a.toNat_lt
      simp only [List.mem_cons, List.not_mem_nil, or_false] at h
      rcases h with rfl | rfl | rfl | rfl
      · exact .inl (digit_mem (by omega))
      · exact .inl (digit_mem (by omega))
      · exact .inr rfl
      · exact .inr rfl
  | case4 => cases h

theorem encode_ne_nil {bs : List UInt8} (h : bs ≠ []) : encode bs ≠ [] := by
  intro hnil
  have hdecode := decode_encode bs
  rw [hnil] at hdecode
  exact h hdecode.symm

end Base64
