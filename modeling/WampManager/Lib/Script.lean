/-
# Statements of a script

What one program prints for another one to run: calls with at most one literal as
argument, a quoted text that is assigned to a variable, and statements both sides
know word for word. The reader takes a text apart from front to back and refuses
it whole if some statement is none of these. Written and read statements agree.
-/

import Mathlib.Data.List.Basic
import WampManager.Lib.JsonText

namespace Script

/-- A statement. -/
inductive Statement
  | call (function : Text) (argument : Option Json)
  | assign (target : Text) (value : Text)
  | known (text : Text)

/-- The characters of the name of a function or variable. -/
def isWordChar (c : Char) : Bool := c.isAlphanum || c == '_' || c == '.'

/-- The characters a quoted text may have without an escape. -/
def isQuotedChar (c : Char) : Bool := c != '\x27' && c != '\\' && c != '\n' && c != '\r'

/-- The statement at the front of a text. -/
def statement (t : Text) : Option (Statement × Text) :=
  let word := t.takeWhile isWordChar
  let rest := t.dropWhile isWordChar
  if word = [] then none
  else if "();".toList.isPrefixOf rest then some (.call word none, rest.drop 3)
  else if "(".toList.isPrefixOf rest then
    (Json.value (2 * rest.length + 2) 512 rest.tail).bind fun (argument, rest) =>
      if ");".toList.isPrefixOf rest then some (.call word (some argument), rest.drop 2)
      else none
  else if " = '".toList.isPrefixOf rest then
    let value := (rest.drop 4).takeWhile isQuotedChar
    let rest := (rest.drop 4).dropWhile isQuotedChar
    if "';".toList.isPrefixOf rest then some (.assign word value, rest.drop 2) else none
  else none

section Reading

/- The statements that are known word for word. -/
variable (known : List Text)

/-- The statements of a text, up to a number of them. -/
def statements : ℕ → Text → Option (List Statement)
  | 0, t => if Json.skip t = [] then some [] else none
  | n + 1, t =>
      if Json.skip t = [] then some []
      else
        match known.find? (·.isPrefixOf (Json.skip t)) with
        | some text =>
            (statements n ((Json.skip t).drop text.length)).map (.known text :: ·)
        | none =>
            (statement (Json.skip t)).bind fun (first, rest) =>
              (statements n rest).map (first :: ·)

/-- The statements of a text. -/
def read (t : Text) : Option (List Statement) := statements known t.length t

end Reading

/-! ## Writing -/

/-- A text that is read as a value, wherever it stands, and closes no call. -/
structure Encodes (text : Text) (json : Json) : Prop where
  head : ∃ c, text.head? = some c ∧ c ≠ ')'
  value_eq : ∀ (fuel : ℕ) (rest : Text), 2 * text.length + 2 ≤ fuel →
    Json.value fuel 512 (text ++ rest) = some (json, rest)

theorem encodes_stringText (t : Text) : Encodes (Json.stringText t) (.string t) where
  head := ⟨'"', rfl, by decide⟩
  value_eq fuel rest hfuel := by
    obtain ⟨fuel, rfl⟩ : ∃ n, fuel = n + 1 := ⟨fuel - 1, by omega⟩
    exact Json.value_stringText fuel 512 t rest

theorem length_membersText (name : Text) (field : Json.Field)
    (more : List (Text × Json.Field)) :
    more.length ≤ (Json.membersText name field more).length := by
  induction more generalizing name field with
  | nil => simp
  | cons next more ih =>
      have hnext := ih next.1 next.2
      simp only [Json.membersText, List.length_append, List.length_cons]
      omega

theorem encodes_recordText {name : Text} {field : Json.Field}
    {more : List (Text × Json.Field)}
    (hzero : ∀ n ∈ (name, field) :: more, n.1.head? ≠ some '\x00')
    (hnodup : (((name, field) :: more).map Prod.fst).Nodup) :
    Encodes (Json.recordText ((name, field) :: more))
      (.object (((name, field) :: more).map fun m => (m.1, m.2.json))) where
  head := ⟨'\x7b', rfl, by decide⟩
  value_eq fuel rest hfuel := by
    have hlength := length_membersText name field more
    apply Json.value_recordText
    · simp only [Json.recordText, List.length_cons] at hfuel
      omega
    · decide
    · exact hzero
    · exact hnodup

/-- A name of a function or variable. -/
def IsWord (word : Text) : Prop := word ≠ [] ∧ ∀ c ∈ word, isWordChar c = true

instance (word : Text) : Decidable (IsWord word) := inferInstanceAs (Decidable (_ ∧ _))

theorem IsWord.head {word : Text} (h : IsWord word) :
    ∃ c, word.head? = some c ∧ isWordChar c = true := by
  cases word with
  | nil => exact absurd rfl h.1
  | cons c word => exact ⟨c, rfl, h.2 c (by simp)⟩

theorem takeWhile_word {word : Text} (h : IsWord word) {c : Char} (hc : isWordChar c = false)
    (rest : Text) :
    (word ++ c :: rest).takeWhile isWordChar = word ∧
      (word ++ c :: rest).dropWhile isWordChar = c :: rest := by
  have hword := h.2
  apply And.intro
  · rw [List.takeWhile_append_of_pos hword]
    simp [hc]
  · rw [List.dropWhile_append_of_pos hword]
    simp [hc]

/-- A call without argument. -/
theorem statement_call {word : Text} (h : IsWord word) (rest : Text) :
    statement (word ++ '(' :: ')' :: ';' :: rest) = some (.call word none, rest) := by
  have hword := takeWhile_word h (c := '(') (by decide) (')' :: ';' :: rest)
  simp [statement, hword, h.1]

/-- A call with a value. -/
theorem statement_call_argument {word text : Text} {json : Json} (h : IsWord word)
    (htext : Encodes text json) (rest : Text) :
    statement (word ++ '(' :: (text ++ ')' :: ';' :: rest)) =
      some (.call word (some json), rest) := by
  have hword := takeWhile_word h (c := '(') (by decide) (text ++ ')' :: ';' :: rest)
  have hvalue := htext.value_eq (2 * (text.length + (rest.length + 1 + 1) + 1) + 2)
    (')' :: ';' :: rest) (by omega)
  have hopen : ¬ [')', ';'].isPrefixOf (text ++ ')' :: ';' :: rest) = true := by
    obtain ⟨c, hhead, hc⟩ := htext.head
    obtain ⟨tail, rfl⟩ := List.head?_eq_some_iff.mp hhead
    intro hbegins
    simp only [List.cons_append, List.isPrefixOf_cons_cons, Bool.and_eq_true, beq_iff_eq] at hbegins
    exact hc hbegins.1.symm
  simp [statement, hword, h.1, hvalue, hopen]

/-- An assignment. -/
theorem statement_assign {target value : Text} (h : IsWord target)
    (hvalue : ∀ c ∈ value, isQuotedChar c = true) (rest : Text) :
    statement (target ++ (" = '".toList ++ (value ++ '\x27' :: ';' :: rest))) =
      some (.assign target value, rest) := by
  have hword := takeWhile_word h (c := ' ') (by decide)
    ("= '".toList ++ (value ++ '\x27' :: ';' :: rest))
  have htake : (value ++ '\x27' :: ';' :: rest).takeWhile isQuotedChar = value := by
    rw [List.takeWhile_append_of_pos hvalue]
    simp [isQuotedChar]
  have hdrop : (value ++ '\x27' :: ';' :: rest).dropWhile isQuotedChar =
      '\x27' :: ';' :: rest := by
    rw [List.dropWhile_append_of_pos hvalue]
    simp [isQuotedChar]
  simp at hword
  simp [statement, hword, h.1, htake, hdrop]

/-! ## Reading what is written -/

variable {known : List Text}

theorem skip_blanks {blanks : Text} (h : ∀ c ∈ blanks, c = '\t' ∨ c = '\n') (t : Text) :
    Json.skip (blanks ++ t) = Json.skip t := by
  apply List.dropWhile_append_of_pos
  intro c hc
  rcases h c hc with rfl | rfl <;> decide

theorem statements_blanks {blanks : Text} (h : ∀ c ∈ blanks, c = '\t' ∨ c = '\n') (n : ℕ)
    (t : Text) : statements known n (blanks ++ t) = statements known n t := by
  cases n <;> rw [statements, statements, skip_blanks h]

theorem statements_nil (n : ℕ) : statements known n [] = some [] := by
  cases n <;> rfl

/-- A text that starts with a statement, not with a blank. -/
theorem statements_cons {t : Text} {c : Char} (hhead : t.head? = some c)
    (hc : isWordChar c = true) (hknown : ∀ k ∈ known, ¬ k <+: t) {first : Statement} {rest : Text}
    (hfirst : statement t = some (first, rest)) (n : ℕ) :
    statements known (n + 1) t = (statements known n rest).map (first :: ·) := by
  obtain ⟨tail, rfl⟩ := List.head?_eq_some_iff.mp hhead
  have hskip : Json.skip (c :: tail) = c :: tail := by
    apply List.dropWhile_cons_of_neg
    intro hblank
    simp only [Bool.or_eq_true, beq_iff_eq] at hblank
    rcases hblank with ((rfl | rfl) | rfl) | rfl <;> cases hc
  have hfind : known.find? (·.isPrefixOf (c :: tail)) = none := by
    apply List.find?_eq_none.mpr
    intro k hk
    rw [List.isPrefixOf_iff_prefix]
    exact hknown k hk
  rw [statements, hskip, if_neg (by simp), hfind, hfirst, Option.bind_some]

/-- A text that starts with a known statement. -/
theorem statements_known {text : Text} {c : Char} (hhead : text.head? = some c)
    (hc : isWordChar c = true) (htext : known = [text]) (n : ℕ) (rest : Text) :
    statements known (n + 1) (text ++ rest) =
      (statements known n rest).map (.known text :: ·) := by
  obtain ⟨tail, rfl⟩ := List.head?_eq_some_iff.mp hhead
  have hskip : Json.skip (c :: (tail ++ rest)) = c :: (tail ++ rest) := by
    apply List.dropWhile_cons_of_neg
    intro hblank
    simp only [Bool.or_eq_true, beq_iff_eq] at hblank
    rcases hblank with ((rfl | rfl) | rfl) | rfl <;> cases hc
  have hfind : known.find? (·.isPrefixOf (c :: (tail ++ rest))) = some (c :: tail) := by
    rw [htext]
    simp
  rw [List.cons_append, statements, hskip, if_neg (by simp), hfind]
  simp

/-- A text that is read as a statement, wherever it stands. -/
def Prints (known : List Text) (text : Text) (first : Statement) : Prop :=
  ∀ (n : ℕ) (rest : Text),
    statements known (n + 1) (text ++ rest) = (statements known n rest).map (first :: ·)

theorem prints_known {text : Text} {c : Char} (hhead : text.head? = some c)
    (hc : isWordChar c = true) : Prints [text] text (.known text) :=
  fun n rest => statements_known hhead hc rfl n rest

/-- A statement that starts with a word and is none of the known ones. -/
theorem prints_of_statement {word tail : Text} {first : Statement} (hword : IsWord word)
    (hknown : ∀ k ∈ known, ∀ rest, ¬ k <+: word ++ tail ++ rest)
    (hfirst : ∀ rest, statement (word ++ tail ++ rest) = some (first, rest)) :
    Prints known (word ++ tail) first := by
  intro n rest
  obtain ⟨c, hhead, hc⟩ := hword.head
  apply statements_cons (c := c)
  · obtain ⟨word, rfl⟩ := List.head?_eq_some_iff.mp hhead
    rfl
  · exact hc
  · exact fun k hk => hknown k hk rest
  · exact hfirst rest

/-- The text of a call. -/
def callText (word argument : Text) : Text := word ++ '(' :: (argument ++ ");".toList)

/-- The text of an assignment. -/
def assignText (target value : Text) : Text :=
  target ++ (" = '".toList ++ (value ++ "';".toList))

theorem prints_call {word : Text} (hword : IsWord word)
    (hknown : ∀ k ∈ known, ∀ rest, ¬ k <+: callText word [] ++ rest) :
    Prints known (callText word []) (.call word none) :=
  prints_of_statement hword hknown fun rest => by
    simpa using statement_call hword rest

theorem prints_call_argument {word text : Text} {json : Json} (hword : IsWord word)
    (htext : Encodes text json) (hknown : ∀ k ∈ known, ∀ rest, ¬ k <+: callText word text ++ rest) :
    Prints known (callText word text) (.call word (some json)) :=
  prints_of_statement hword hknown fun rest => by
    simpa using statement_call_argument hword htext rest

theorem prints_assign {target value : Text} (htarget : IsWord target)
    (hvalue : ∀ c ∈ value, isQuotedChar c = true)
    (hknown : ∀ k ∈ known, ∀ rest, ¬ k <+: assignText target value ++ rest) :
    Prints known (assignText target value) (.assign target value) :=
  prints_of_statement htarget hknown fun rest => by
    simpa using statement_assign htarget hvalue rest

/-- Statements one after the other, with blanks around each of them. -/
theorem statements_flatMap {before after : Text} (hbefore : ∀ c ∈ before, c = '\t' ∨ c = '\n')
    (hafter : ∀ c ∈ after, c = '\t' ∨ c = '\n') {α : Type} (text : α → Text)
    (first : α → Statement) (items : List α)
    (hprints : ∀ a ∈ items, Prints known (text a) (first a)) (n : ℕ) (rest : Text) :
    statements known (n + items.length)
        (items.flatMap (fun a => before ++ text a ++ after) ++ rest) =
      (statements known n rest).map (items.map first ++ ·) := by
  induction items with
  | nil => simp
  | cons a items ih =>
      have htail := ih fun b hb => hprints b (by simp [hb])
      have hfirst := hprints a (by simp) (n + items.length)
        (after ++ (items.flatMap (fun a => before ++ text a ++ after) ++ rest))
      rw [statements_blanks hafter, htail] at hfirst
      have hsplit : (a :: items).flatMap (fun a => before ++ text a ++ after) ++ rest =
          before ++ (text a ++
            (after ++ (items.flatMap (fun a => before ++ text a ++ after) ++ rest))) := by
        simp
      rw [hsplit, List.length_cons, ← Nat.add_assoc, statements_blanks hbefore, hfirst]
      simp [Function.comp_def]

end Script
