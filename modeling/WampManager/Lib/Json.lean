/-
# JSON

The decoder of the scripting language: strict syntax, one value and nothing but
blanks around it, nesting up to a bound. Objects keep their members in the order
of first appearance, and a later member with the same name replaces the value of
the earlier one. Numbers stay literals here. Reading a property of anything that
has no such property gives null, and so does decoding a text that is no JSON.
-/

import WampManager.Lib.Text

/-- A decoded value. -/
inductive Json
  | null
  | bool (b : Bool)
  | number (literal : Text)
  | string (t : Text)
  | array (items : List Json)
  | object (members : List (Text × Json))

namespace Json

/-! ## Tokens -/

/-- Skip blanks. -/
def skip (t : Text) : Text :=
  t.dropWhile fun c => c == ' ' || c == '\t' || c == '\n' || c == '\r'

/-- The value of a hexadecimal digit. -/
def hexDigit (c : Char) : Option ℕ :=
  if c.isDigit then some (c.toNat - 48)
  else if 'a' ≤ c ∧ c ≤ 'f' then some (c.toNat - 87)
  else if 'A' ≤ c ∧ c ≤ 'F' then some (c.toNat - 55)
  else none

/-- The code unit of four hexadecimal digits. -/
def codeUnit (a b c d : Char) : Option ℕ := do
  let a ← hexDigit a
  let b ← hexDigit b
  let c ← hexDigit c
  let d ← hexDigit d
  return ((a * 16 + b) * 16 + c) * 16 + d

/-- A short escape. -/
def escape : Char → Option Char
  | '"' => some '"'
  | '\\' => some '\\'
  | '/' => some '/'
  | 'b' => some '\x08'
  | 'f' => some '\x0c'
  | 'n' => some '\n'
  | 'r' => some '\r'
  | 't' => some '\t'
  | _ => none

/-- The body of a string up to the closing quote: characters and code units. -/
def stringBody : Text → Option (List (Char ⊕ ℕ) × Text)
  | '"' :: rest => some ([], rest)
  | '\\' :: 'u' :: a :: b :: c :: d :: rest => do
      let unit ← codeUnit a b c d
      let (body, rest) ← stringBody rest
      return (.inr unit :: body, rest)
  | '\\' :: c :: rest => do
      let c ← escape c
      let (body, rest) ← stringBody rest
      return (.inl c :: body, rest)
  | c :: rest =>
      if c.toNat < 32 then none
      else (stringBody rest).map fun (body, rest) => (.inl c :: body, rest)
  | [] => none

/-- Put surrogate pairs together; a surrogate on its own is refused. -/
def joinUnits : List (Char ⊕ ℕ) → Option Text
  | [] => some []
  | .inl c :: rest => (joinUnits rest).map (c :: ·)
  | .inr high :: .inr low :: rest =>
      if 0xD800 ≤ high ∧ high < 0xDC00 then
        if 0xDC00 ≤ low ∧ low < 0xE000 then
          (joinUnits rest).map
            (Char.ofNat (0x10000 + (high - 0xD800) * 0x400 + (low - 0xDC00)) :: ·)
        else none
      else if 0xDC00 ≤ high ∧ high < 0xE000 then none
      else (joinUnits (.inr low :: rest)).map (Char.ofNat high :: ·)
  | .inr unit :: rest =>
      if 0xD800 ≤ unit ∧ unit < 0xE000 then none
      else (joinUnits rest).map (Char.ofNat unit :: ·)

/-- A string behind its opening quote. -/
def stringToken (t : Text) : Option (Text × Text) := do
  let (body, rest) ← stringBody t
  let s ← joinUnits body
  return (s, rest)

/-- The longest number at the front of a text. -/
def numberToken (t : Text) : Option (Text × Text) :=
  let (sign, t) := match t with
    | '-' :: rest => (['-'], rest)
    | rest => ([], rest)
  let (whole, t) := match t with
    | '0' :: rest => (['0'], rest)
    | rest => rest.span Char.isDigit
  if whole = [] then none
  else
    let (fraction, t) := match t with
      | '.' :: rest =>
          let (digits, tail) := rest.span Char.isDigit
          if digits = [] then ([], t) else ('.' :: digits, tail)
      | _ => ([], t)
    let (exponent, t) := match t with
      | e :: rest =>
          if e = 'e' ∨ e = 'E' then
            let (sign, rest) := match rest with
              | '-' :: rest => (['-'], rest)
              | '+' :: rest => (['+'], rest)
              | _ => ([], rest)
            let (digits, tail) := rest.span Char.isDigit
            if digits = [] then ([], t) else (e :: sign ++ digits, tail)
          else ([], t)
      | [] => ([], t)
    some (sign ++ whole ++ fraction ++ exponent, t)

/-! ## Values -/

/-- Set a property: a known one keeps its position. -/
def setMember (name : Text) (value : Json) (members : List (Text × Json)) :
    List (Text × Json) :=
  if name ∈ members.map Prod.fst then
    members.map fun member => if member.1 = name then (name, value) else member
  else members ++ [(name, value)]

/-- The words that are values. -/
def word? (t : Text) : Option (Json × Text) :=
  if "null".toList.isPrefixOf t then some (.null, t.drop 4)
  else if "true".toList.isPrefixOf t then some (.bool true, t.drop 4)
  else if "false".toList.isPrefixOf t then some (.bool false, t.drop 5)
  else none

mutual

/-- A value at the front of a text, nested no deeper than a bound. -/
def value : ℕ → ℕ → Text → Option (Json × Text)
  | 0, _, _ => none
  | fuel + 1, depth, t =>
      let t := skip t
      let rest := t.tail
      match t.head? with
      | some '"' => (stringToken rest).map fun (s, rest) => (.string s, rest)
      | some '[' =>
          if depth = 0 then none
          else if (skip rest).head? = some ']' then some (.array [], (skip rest).tail)
          else (elements fuel (depth - 1) rest).map fun (items, rest) => (.array items, rest)
      | some '\x7b' =>
          if depth = 0 then none
          else if (skip rest).head? = some '\x7d' then some (.object [], (skip rest).tail)
          else (members fuel (depth - 1) rest []).map fun (ms, rest) => (.object ms, rest)
      | _ =>
          (word? t).orElse fun _ =>
            (numberToken t).map fun (literal, rest) => (.number literal, rest)

/-- The items of a list up to its end. -/
def elements : ℕ → ℕ → Text → Option (List Json × Text)
  | 0, _, _ => none
  | fuel + 1, depth, t =>
      (value fuel depth t).bind fun (item, rest) =>
        let rest := skip rest
        match rest.head? with
        | some ',' =>
            (elements fuel depth rest.tail).map fun (items, rest) => (item :: items, rest)
        | some ']' => some ([item], rest.tail)
        | _ => none

/-- The members of an object up to its end; no name starts with a zero character. -/
def members : ℕ → ℕ → Text → List (Text × Json) → Option (List (Text × Json) × Text)
  | 0, _, _, _ => none
  | fuel + 1, depth, t, seen =>
      let t := skip t
      if t.head? = some '"' then
        (stringToken t.tail).bind fun (name, rest) =>
          let rest := skip rest
          if name.head? = some '\x00' ∨ rest.head? ≠ some ':' then none
          else
            (value fuel depth rest.tail).bind fun (item, rest) =>
              let rest := skip rest
              let seen := setMember name item seen
              match rest.head? with
              | some ',' => members fuel depth rest.tail seen
              | some '\x7d' => some (seen, rest.tail)
              | _ => none
      else none

end

/-- `json_decode`. -/
def decode (t : Text) : Json :=
  match value (2 * t.length + 2) 512 t with
  | some (json, rest) => if skip rest = [] then json else .null
  | none => .null

/-- Read a property. -/
def get (name : String) : Json → Json
  | .object members => ((members.find? (·.1 == name.toList)).map Prod.snd).getD .null
  | _ => .null

/-- The values of a list or an object; nothing else has any. -/
def values? : Json → Option (List Json)
  | .array items => some items
  | .object members => some (members.map Prod.snd)
  | _ => none

/-- Lists nest. -/
example : decode "[1,[]]".toList = .array [.number ['1'], .array []] := by rfl

end Json
