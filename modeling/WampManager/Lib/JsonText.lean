/-
# Writing JSON

The encoder of the scripting language, for texts and for flat records of them. All
that is not plain is escaped: the quote, the backslash, the slash, control
characters, and whatever lies beyond the first 128 characters, in two units where
one does not hold it. So no encoded value breaks the line it stands on, and the
decoder reads it back.
-/

import Mathlib.Data.List.Basic
import Mathlib.Tactic.IntervalCases
import Mathlib.Tactic.NormNum
import WampManager.Lib.Json

namespace Json

/-- Four hexadecimal digits. -/
def unitDigits (n : ℕ) : Text :=
  [(n / 4096 % 16).digitChar, (n / 256 % 16).digitChar, (n / 16 % 16).digitChar,
    (n % 16).digitChar]

/-- A code unit. -/
def unitText (n : ℕ) : Text := '\\' :: 'u' :: unitDigits n

/-- The letter of a short escape. -/
def shortEscape : Char → Option Char
  | '"' => some '"'
  | '\\' => some '\\'
  | '/' => some '/'
  | '\x08' => some 'b'
  | '\x0c' => some 'f'
  | '\n' => some 'n'
  | '\r' => some 'r'
  | '\t' => some 't'
  | _ => none

/-- The code units of a character. -/
def units (c : Char) : List ℕ :=
  if c.toNat < 0x10000 then [c.toNat]
  else [0xD800 + (c.toNat - 0x10000) / 0x400, 0xDC00 + (c.toNat - 0x10000) % 0x400]

/-- The characters that stand for themselves. -/
def isPlainChar (c : Char) : Bool := 32 ≤ c.toNat && c.toNat < 128

/-- A character in a string. -/
def charText (c : Char) : Text :=
  match shortEscape c with
  | some letter => ['\\', letter]
  | none => if isPlainChar c then [c] else (units c).flatMap unitText

/-- `json_encode` of a text. -/
def stringText (t : Text) : Text := '"' :: (t.flatMap charText ++ ['"'])

/-! ## Reading a character back -/

theorem hexDigit_digitChar {n : ℕ} (h : n < 16) : hexDigit n.digitChar = some n := by
  interval_cases n <;> decide

theorem codeUnit_unitDigits {n : ℕ} (h : n < 0x10000) :
    codeUnit (n / 4096 % 16).digitChar (n / 256 % 16).digitChar (n / 16 % 16).digitChar
      (n % 16).digitChar = some n := by
  have hsum : ((n / 4096 % 16 * 16 + n / 256 % 16) * 16 + n / 16 % 16) * 16 + n % 16 = n := by
    omega
  have hmod : ∀ m : ℕ, hexDigit (m % 16).digitChar = some (m % 16) := fun m =>
    hexDigit_digitChar (Nat.mod_lt m (by norm_num))
  simp [codeUnit, hmod, hsum]

theorem stringBody_unitText {n : ℕ} (h : n < 0x10000) (rest : Text) :
    stringBody (unitText n ++ rest) =
      (stringBody rest).map fun (body, rest) => (.inr n :: body, rest) := by
  have hunit := codeUnit_unitDigits h
  simp only [unitText, unitDigits, List.cons_append, List.nil_append]
  rw [stringBody, hunit]
  cases stringBody rest with
  | none => rfl
  | some read => rfl

/-- The tokens of a character. -/
def charTokens (c : Char) : List (Char ⊕ ℕ) :=
  if (shortEscape c).isSome || isPlainChar c then [.inl c] else (units c).map .inr

theorem escape_of_shortEscape {c letter : Char} (h : shortEscape c = some letter) :
    escape letter = some c ∧ letter ≠ 'u' := by
  unfold shortEscape at h
  split at h <;> cases h <;> simp [escape]

theorem stringBody_escape {c letter : Char} (h : escape letter = some c) (hu : letter ≠ 'u')
    (rest : Text) :
    stringBody ('\\' :: letter :: rest) =
      (stringBody rest).map fun (body, rest) => (.inl c :: body, rest) := by
  rw [stringBody.eq_3 _ _ (by
    intro a b c' d tail hletter
    exact absurd hletter hu), h]
  cases stringBody rest with
  | none => rfl
  | some read => rfl

theorem stringBody_plain {c : Char} (hc : shortEscape c = none) (hplain : isPlainChar c = true)
    (rest : Text) :
    stringBody (c :: rest) =
      (stringBody rest).map fun (body, rest) => (.inl c :: body, rest) := by
  have hquote : c ≠ '"' := by
    intro h
    simp [h, shortEscape] at hc
  have hslash : c ≠ '\\' := by
    intro h
    simp [h, shortEscape] at hc
  have hlow : ¬ c.toNat < 32 := by
    simp only [isPlainChar, Bool.and_eq_true, decide_eq_true_eq] at hplain
    omega
  rw [stringBody.eq_4 _ _ hquote
    (fun _ _ _ _ _ h => absurd h hslash) (fun _ _ h => absurd h hslash), if_neg hlow]

/-- A character is no surrogate. -/
theorem toNat_range (c : Char) : c.toNat < 0xD800 ∨ 0xDFFF < c.toNat ∧ c.toNat < 0x110000 :=
  c.valid

theorem units_lt {c : Char} {n : ℕ} (h : n ∈ units c) : n < 0x10000 := by
  have hc := toNat_range c
  unfold units at h
  split at h
  · simp only [List.mem_singleton] at h
    omega
  · simp only [List.mem_cons, List.not_mem_nil, or_false] at h
    omega

theorem stringBody_charText (c : Char) (rest : Text) :
    stringBody (charText c ++ rest) =
      (stringBody rest).map fun (body, rest) => (charTokens c ++ body, rest) := by
  cases hc : shortEscape c with
  | some letter =>
      obtain ⟨hletter, hu⟩ := escape_of_shortEscape hc
      simpa [charText, charTokens, hc] using stringBody_escape hletter hu rest
  | none =>
      by_cases hplain : isPlainChar c = true
      · simpa [charText, charTokens, hc, hplain] using stringBody_plain hc hplain rest
      · have hunits : ∀ ns : List ℕ, (∀ n ∈ ns, n < 0x10000) →
            stringBody (ns.flatMap unitText ++ rest) =
              (stringBody rest).map fun (body, rest) => (ns.map .inr ++ body, rest) := by
          intro ns hns
          induction ns with
          | nil => simp
          | cons n ns ih =>
              rw [List.flatMap_cons, List.append_assoc,
                stringBody_unitText (hns n (by simp)), ih fun m hm => hns m (by simp [hm])]
              simp [Function.comp_def]
        simpa [charText, charTokens, hc, hplain] using hunits (units c) fun n hn => units_lt hn

/-- A unit that is no surrogate stands for its character, whatever follows. -/
theorem joinUnits_unit {c : Char} (hc : c.toNat < 0x10000) (tokens : List (Char ⊕ ℕ)) :
    joinUnits (.inr c.toNat :: tokens) = (joinUnits tokens).map (c :: ·) := by
  have hrange := toNat_range c
  have hhigh : ¬ (0xD800 ≤ c.toNat ∧ c.toNat < 0xDC00) := by omega
  have hlow : ¬ (0xDC00 ≤ c.toNat ∧ c.toNat < 0xE000) := by omega
  have hnone : ¬ (0xD800 ≤ c.toNat ∧ c.toNat < 0xE000) := by omega
  cases tokens with
  | nil => simp [joinUnits, hnone, Char.ofNat_toNat]
  | cons token tokens =>
      cases token with
      | inl _ => simp [joinUnits, hnone, Char.ofNat_toNat]
      | inr _ => rw [joinUnits, if_neg hhigh, if_neg hlow, Char.ofNat_toNat]

theorem joinUnits_pair {c : Char} (hc : ¬ c.toNat < 0x10000) (tokens : List (Char ⊕ ℕ)) :
    joinUnits (.inr (0xD800 + (c.toNat - 0x10000) / 0x400) ::
        .inr (0xDC00 + (c.toNat - 0x10000) % 0x400) :: tokens) =
      (joinUnits tokens).map (c :: ·) := by
  have hrange := toNat_range c
  have hhigh : 0xD800 ≤ 0xD800 + (c.toNat - 0x10000) / 0x400 ∧
      0xD800 + (c.toNat - 0x10000) / 0x400 < 0xDC00 := by omega
  have hlow : 0xDC00 ≤ 0xDC00 + (c.toNat - 0x10000) % 0x400 ∧
      0xDC00 + (c.toNat - 0x10000) % 0x400 < 0xE000 := by omega
  have hsum : 0x10000 + (0xD800 + (c.toNat - 0x10000) / 0x400 - 0xD800) * 0x400 +
      (0xDC00 + (c.toNat - 0x10000) % 0x400 - 0xDC00) = c.toNat := by omega
  rw [joinUnits, if_pos hhigh, if_pos hlow, hsum, Char.ofNat_toNat]

theorem joinUnits_charTokens (c : Char) (tokens : List (Char ⊕ ℕ)) :
    joinUnits (charTokens c ++ tokens) = (joinUnits tokens).map (c :: ·) := by
  unfold charTokens
  split
  · rfl
  · unfold units
    split
    case isTrue hc => exact joinUnits_unit hc tokens
    case isFalse hc => exact joinUnits_pair hc tokens

/-! ## Texts -/

theorem stringBody_flatMap (t rest : Text) :
    stringBody (t.flatMap charText ++ '"' :: rest) = some (t.flatMap charTokens, rest) := by
  induction t with
  | nil => rfl
  | cons c t ih =>
      rw [List.flatMap_cons, List.append_assoc, stringBody_charText, ih, Option.map_some,
        List.flatMap_cons]

theorem joinUnits_flatMap (t : Text) : joinUnits (t.flatMap charTokens) = some t := by
  induction t with
  | nil => rfl
  | cons c t ih => rw [List.flatMap_cons, joinUnits_charTokens, ih, Option.map_some]

/-- A text is read back from what it is written as. -/
theorem stringToken_flatMap (t rest : Text) :
    stringToken (t.flatMap charText ++ '"' :: rest) = some (t, rest) := by
  have hbody := stringBody_flatMap t rest
  have hjoin := joinUnits_flatMap t
  simp [stringToken, hbody, hjoin]

theorem value_stringText (fuel depth : ℕ) (t rest : Text) :
    value (fuel + 1) depth (stringText t ++ rest) = some (.string t, rest) := by
  have hskip : skip (stringText t ++ rest) = stringText t ++ rest := rfl
  have htoken := stringToken_flatMap t rest
  rw [value, hskip]
  simp [stringText, htoken]

/-- What a text is written with are characters of the first 128, none of them a
control character. -/
theorem isPlainChar_of_mem_charText {c d : Char} (h : d ∈ charText c) : isPlainChar d = true := by
  have hdigit : ∀ n : ℕ, isPlainChar (n % 16).digitChar = true := by
    intro n
    have hn : n % 16 < 16 := Nat.mod_lt n (by norm_num)
    generalize n % 16 = m at hn
    interval_cases m <;> decide
  unfold charText at h
  split at h
  case h_1 letter hletter =>
    have hletter' : isPlainChar letter = true := by
      unfold shortEscape at hletter
      split at hletter <;> cases hletter <;> decide
    simp only [List.mem_cons, List.not_mem_nil, or_false] at h
    rcases h with rfl | rfl
    · decide
    · exact hletter'
  case h_2 =>
    split at h
    case isTrue hplain =>
      rw [List.mem_singleton.mp h]
      exact hplain
    case isFalse =>
      simp only [List.mem_flatMap, unitText, unitDigits, List.mem_cons, List.not_mem_nil,
        or_false] at h
      obtain ⟨n, -, rfl | rfl | rfl | rfl | rfl | rfl⟩ := h
      · decide
      · decide
      all_goals exact hdigit _

theorem isPlainChar_of_mem_stringText {t : Text} {d : Char} (h : d ∈ stringText t) :
    isPlainChar d = true := by
  simp only [stringText, List.mem_cons, List.mem_append, List.mem_flatMap, List.not_mem_nil,
    or_false] at h
  rcases h with rfl | ⟨c, -, hd⟩ | rfl
  · decide
  · exact isPlainChar_of_mem_charText hd
  · decide

theorem newline_not_mem_stringText (t : Text) : '\n' ∉ stringText t := by
  intro h
  exact absurd (isPlainChar_of_mem_stringText h) (by decide)

/-! ## Flat records -/

/-- What a flat record holds under a name. -/
inductive Field
  | bool (b : Bool)
  | text (t : Text)

/-- The value of a field. -/
def Field.json : Field → Json
  | .bool b => .bool b
  | .text t => .string t

/-- A field as it is written. -/
def Field.encoded : Field → Text
  | .bool true => "true".toList
  | .bool false => "false".toList
  | .text t => stringText t

/-- The members of a record up to its end, a first one and more. -/
def membersText (name : Text) (field : Field) : List (Text × Field) → Text
  | [] => stringText name ++ ':' :: (field.encoded ++ ['\x7d'])
  | (next, field') :: more =>
      stringText name ++ ':' :: (field.encoded ++ ',' :: membersText next field' more)

/-- `json_encode` of a record: without members it is an empty list. -/
def recordText : List (Text × Field) → Text
  | [] => "[]".toList
  | (name, field) :: more => '\x7b' :: membersText name field more

theorem value_encoded (fuel depth : ℕ) (field : Field) (rest : Text) :
    value (fuel + 1) depth (field.encoded ++ rest) = some (field.json, rest) := by
  cases field with
  | bool b => cases b <;> simp [value, Field.encoded, Field.json, skip, word?]
  | text t => exact value_stringText fuel depth t rest

theorem setMember_of_not_mem {name : Text} {members : List (Text × Json)}
    (h : name ∉ members.map Prod.fst) (json : Json) :
    setMember name json members = members ++ [(name, json)] :=
  if_neg h

/-- One member is read; what follows it decides how to go on. -/
theorem members_cons {name : Text} (hname : name.head? ≠ some '\x00') (fuel depth : ℕ)
    (field : Field) (c : Char) (hc : c = ',' ∨ c = '\x7d') (rest : Text)
    (seen : List (Text × Json)) :
    members (fuel + 2) depth (stringText name ++ ':' :: (field.encoded ++ c :: rest)) seen =
      if c = ',' then members (fuel + 1) depth rest (setMember name field.json seen)
      else some (setMember name field.json seen, rest) := by
  have htoken := stringToken_flatMap name (':' :: (field.encoded ++ c :: rest))
  have hvalue := value_encoded fuel depth field (c :: rest)
  rw [members]
  rcases hc with rfl | rfl <;> simp [stringText, skip, htoken, hname, hvalue]

theorem members_membersText (fuel depth : ℕ) (name : Text) (field : Field)
    (more : List (Text × Field)) (rest : Text) (seen : List (Text × Json))
    (hfuel : more.length + 1 < fuel)
    (hzero : ∀ n ∈ (name, field) :: more, n.1.head? ≠ some '\x00')
    (hnodup : (seen.map Prod.fst ++ ((name, field) :: more).map Prod.fst).Nodup) :
    members fuel depth (membersText name field more ++ rest) seen =
      some (seen ++ ((name, field) :: more).map fun m => (m.1, m.2.json), rest) := by
  induction more generalizing fuel name field seen with
  | nil =>
      obtain ⟨fuel, rfl⟩ : ∃ n, fuel = n + 2 := ⟨fuel - 2, by simp at hfuel; omega⟩
      have hnew : name ∉ seen.map Prod.fst := fun h =>
        (List.nodup_append.mp hnodup).2.2 _ h _ (by simp) rfl
      have hstep := members_cons (hzero (name, field) (by simp)) fuel depth field '\x7d'
        (.inr rfl) rest seen
      rw [setMember_of_not_mem hnew] at hstep
      simpa [membersText] using hstep
  | cons next more ih =>
      obtain ⟨fuel, rfl⟩ : ∃ n, fuel = n + 2 := ⟨fuel - 2, by simp at hfuel; omega⟩
      have hnew : name ∉ seen.map Prod.fst := fun h =>
        (List.nodup_append.mp hnodup).2.2 _ h _ (by simp) rfl
      have hrest := ih (fuel + 1) next.1 next.2 (seen ++ [(name, field.json)])
        (by simp at hfuel ⊢; omega) (fun n hn => hzero n (List.mem_cons_of_mem _ hn))
        (by simpa using hnodup)
      have hstep := members_cons (hzero (name, field) (by simp)) fuel depth field ','
        (.inl rfl) (membersText next.1 next.2 more ++ rest) seen
      rw [setMember_of_not_mem hnew, if_pos rfl, hrest] at hstep
      simpa [membersText] using hstep

/-- A record is read back from what it is written as. -/
theorem value_recordText {fuel depth : ℕ} {name : Text} {field : Field}
    {more : List (Text × Field)} (hfuel : more.length + 2 < fuel) (hdepth : depth ≠ 0)
    (hzero : ∀ n ∈ (name, field) :: more, n.1.head? ≠ some '\x00')
    (hnodup : (((name, field) :: more).map Prod.fst).Nodup) (rest : Text) :
    value fuel depth (recordText ((name, field) :: more) ++ rest) =
      some (.object (((name, field) :: more).map fun m => (m.1, m.2.json)), rest) := by
  obtain ⟨fuel, rfl⟩ : ∃ n, fuel = n + 1 := ⟨fuel - 1, by omega⟩
  have hmembers := members_membersText fuel (depth - 1) name field more rest [] (by omega) hzero
    (by simpa using hnodup)
  have hquote : ∃ front, membersText name field more = '"' :: front := by
    cases more <;> exact ⟨_, rfl⟩
  obtain ⟨front, hfront⟩ := hquote
  rw [hfront] at hmembers
  simp only [List.cons_append] at hmembers
  simp [value, recordText, skip, hfront, hdepth, hmembers]

end Json
