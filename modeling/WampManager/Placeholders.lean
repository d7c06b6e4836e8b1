/-
# Placeholders and parameters

A statement is a text with question marks and a list of values. Before it is
prepared, each question mark is replaced by a named parameter, or by several if
the value is an array; afterwards the values are bound to the names. The two loops
count on their own, and the first one looks for the leftmost question mark of a
text that it has already written parameters into.
-/

import Mathlib.Data.List.Nodup
import WampManager.Lib.Text

namespace WampManager

namespace Query

/-- A value that can be bound. A floating-point number is kept as the text it
prints as. -/
inductive Value
  | int (n : ℤ)
  | bool (b : Bool)
  | null
  | float (digits : Text)
  | string (t : Text)
  deriving DecidableEq

/-- An argument of a query: a value or an array of them. -/
inductive Arg
  | scalar (v : Value)
  | array (vs : List Value)

/-- The values of an argument, one after another. -/
def Arg.values : Arg → List Value
  | .scalar v => [v]
  | .array vs => vs

/-- The types a value can be bound with. -/
inductive ParamType
  | int
  | bool
  | null
  | str
  deriving DecidableEq

/-- The type `_bind` picks for a value. -/
def Value.paramType : Value → ParamType
  | .int _ => .int
  | .bool _ => .bool
  | .null => .null
  | .float _ => .str
  | .string _ => .str

/-- One call of `bindValue`. -/
structure Binding where
  param : Text
  value : Value
  type : ParamType
  deriving DecidableEq

/-- `':c' . $c`. -/
def param (c : ℕ) : Text := ":c".toList ++ Nat.toDigits 10 c

/-! ## The two loops -/

/-- `trim($str, ',')`. -/
def trimCommas (t : Text) : Text := (t.dropWhile (· == ',')).rdropWhile (· == ',')

/-- `$str` and the counter after the parameters of an argument were written. -/
def paramsOf : Arg → ℕ → Text × ℕ
  | .array vs, c => vs.foldl (fun (str, c) _ => (str ++ param c ++ [','], c + 1)) ([], c)
  | .scalar _, c => (param c, c + 1)

/-- Put a text in the place of the leftmost question mark. If there is none, its
place is false, which counts as 0. -/
def replaceFirst (sql str : Text) : Text :=
  let place := (sql.idxOf? '?').getD 0
  sql.take place ++ str ++ sql.drop (place + 1)

/-- The text after one pass of the first loop, and the counter. -/
def expandStep (state : Text × ℕ) (v : Arg) : Text × ℕ :=
  let (str, c) := paramsOf v state.2
  (replaceFirst state.1 (trimCommas str), c)

/-- The text that is prepared. -/
def expand (sql : Text) (vals : List Arg) : Text := (vals.foldl expandStep (sql, 0)).1

/-- `_bind`. -/
def bind (c : ℕ) (v : Value) : Binding := ⟨param c, v, v.paramType⟩

/-- The calls of `_bind` for an argument, and the counter behind them. -/
def bindStep (state : List Binding × ℕ) : Arg → List Binding × ℕ
  | .array vs => vs.foldl (fun (bound, c) v => (bound ++ [bind c v], c + 1)) state
  | .scalar v => (state.1 ++ [bind state.2 v], state.2 + 1)

/-- What the second loop binds, in the order of the calls. -/
def bindings (vals : List Arg) : List Binding := (vals.foldl bindStep ([], 0)).1

/-- A prepared statement with what is bound to it. -/
structure Statement where
  text : Text
  bound : List Binding
  deriving DecidableEq

/-- `Database::_prepare`. A text that the driver cannot prepare makes no statement
to bind anything to. -/
def prepare (driver : Text → Bool) (sql : Text) (vals : List Arg) : Option Statement :=
  let text := expand sql vals
  if driver text then some ⟨text, bindings vals⟩ else none

example :
    prepare (fun _ => true) "a=? AND b IN (?) AND c=?".toList
      [.scalar (.int 7), .array [.null, .string "?".toList], .scalar (.bool true)] =
    some ⟨"a=:c0 AND b IN (:c1,:c2) AND c=:c3".toList,
      [⟨":c0".toList, .int 7, .int⟩, ⟨":c1".toList, .null, .null⟩,
        ⟨":c2".toList, .string "?".toList, .str⟩, ⟨":c3".toList, .bool true, .bool⟩]⟩ := by
  decide

/-! ## What the loops are for -/

/-- Replace the question marks of a text one by one. -/
def fill : Text → List Text → Text
  | [], _ => []
  | c :: sql, [] => c :: sql
  | c :: sql, str :: strs => if c = '?' then str ++ fill sql strs else c :: fill sql (str :: strs)

/-- The parameters of each argument, numbered through from a first number. -/
def groups : ℕ → List Arg → List (List Text)
  | _, [] => []
  | c, v :: vs => (List.range' c v.values.length).map param :: groups (c + v.values.length) vs

/-- Parameters with commas between them. -/
def commaList (params : List Text) : Text := [','].intercalate params

section Lemmas

variable {sql str : Text} {c : ℕ}

theorem param_injective : Function.Injective param := by
  intro c d h
  have hdigits : Nat.toDigits 10 c = Nat.toDigits 10 d := List.append_cancel_left h
  rw [← Nat.ofDigitChars_ten_toDigits (n := c), hdigits, Nat.ofDigitChars_ten_toDigits]

/-- A parameter is written with a colon, a letter and digits. -/
theorem mem_param {d : Char} (h : d ∈ param c) : d = ':' ∨ d = 'c' ∨ d.isDigit = true := by
  rcases List.mem_append.mp h with h | h
  · simpa [or_assoc] using Or.inl h
  · exact .inr (.inr (Nat.isDigit_of_mem_toDigits (by decide) (by decide) h))

theorem comma_not_mem_param : ',' ∉ param c := fun h => by
  simpa using mem_param h

theorem question_not_mem_param : '?' ∉ param c := fun h => by
  simpa using mem_param h

theorem commaList_cons_cons (c d : ℕ) (cs : List ℕ) :
    commaList ((c :: d :: cs).map param) =
      param c ++ ',' :: commaList ((d :: cs).map param) := by
  simp [commaList, List.intercalate_cons_cons]

theorem question_not_mem_commaList (cs : List ℕ) : '?' ∉ commaList (cs.map param) := by
  induction cs with
  | nil => exact List.not_mem_nil
  | cons c cs ih =>
      cases cs with
      | nil => simpa [commaList] using question_not_mem_param
      | cons d cs =>
          rw [commaList_cons_cons, List.mem_append, List.mem_cons]
          rintro (h | h | h)
          · exact question_not_mem_param h
          · cases h
          · exact ih h

/-- Parameters with a comma behind each are the comma list and one more comma. -/
theorem flatMap_comma (c : ℕ) (cs : List ℕ) :
    ((c :: cs).map param).flatMap (· ++ [',']) = commaList ((c :: cs).map param) ++ [','] := by
  induction cs generalizing c with
  | nil => simp [commaList]
  | cons d cs ih =>
      rw [commaList_cons_cons, List.append_assoc, List.cons_append, ← ih]
      simp

/-- A comma list begins and ends with a parameter. -/
theorem commaList_ends (c : ℕ) (cs : List ℕ) :
    (∃ rest, commaList ((c :: cs).map param) = param c ++ rest) ∧
      ∃ front d, commaList ((c :: cs).map param) = front ++ param d := by
  induction cs generalizing c with
  | nil =>
      have hone : commaList ([c].map param) = param c := by simp [commaList]
      exact ⟨⟨[], by rw [hone, List.append_nil]⟩, [], c, by rw [hone, List.nil_append]⟩
  | cons d cs ih =>
      obtain ⟨-, front, e, hback⟩ := ih d
      rw [commaList_cons_cons]
      exact ⟨⟨_, rfl⟩, param c ++ ',' :: front, e, by rw [hback]; simp⟩

/-- Trimming takes the commas behind a comma list away. -/
theorem trimCommas_commaList (c : ℕ) (cs : List ℕ) :
    trimCommas (commaList ((c :: cs).map param)) = commaList ((c :: cs).map param) ∧
      trimCommas (commaList ((c :: cs).map param) ++ [',']) =
        commaList ((c :: cs).map param) := by
  obtain ⟨⟨rest, hfront⟩, front, d, hback⟩ := commaList_ends c cs
  have hleft : ∀ t : Text, (commaList ((c :: cs).map param) ++ t).dropWhile (· == ',') =
      commaList ((c :: cs).map param) ++ t := by
    intro t
    rw [hfront]
    rfl
  have hright : (commaList ((c :: cs).map param)).rdropWhile (· == ',') =
      commaList ((c :: cs).map param) := by
    rw [List.rdropWhile_eq_self_iff]
    intro hne hlast
    have hmem : ',' ∈ param d := by
      have hd : param d ≠ [] := List.cons_ne_nil _ _
      simp only [hback, List.getLast_append_of_ne_nil _ hd, beq_iff_eq] at hlast
      exact hlast ▸ List.getLast_mem hd
    exact comma_not_mem_param hmem
  unfold trimCommas
  constructor
  · rw [← List.append_nil (commaList _), hleft, List.append_nil, hright]
  · rw [hleft, List.rdropWhile_concat_pos _ _ ',' (by decide), hright]

/-- The text and the counter that an argument leaves. -/
theorem paramsOf_eq (v : Arg) (c : ℕ) :
    trimCommas (paramsOf v c).1 = commaList ((List.range' c v.values.length).map param) ∧
      (paramsOf v c).2 = c + v.values.length := by
  have hfold : ∀ (vs : List Value) (str : Text) (c : ℕ),
      vs.foldl (fun (state : Text × ℕ) _ => (state.1 ++ param state.2 ++ [','], state.2 + 1))
          (str, c) =
        (str ++ ((List.range' c vs.length).map param).flatMap (· ++ [',']), c + vs.length) := by
    intro vs
    induction vs with
    | nil => simp
    | cons v vs ih =>
        intro str c
        rw [List.foldl_cons, ih, List.length_cons, List.range'_succ]
        simp [Nat.add_comm, Nat.add_left_comm]
  cases v with
  | scalar v =>
      have hone : commaList ([c].map param) = param c := by simp [commaList]
      have htrim := (trimCommas_commaList c []).1
      rw [hone] at htrim
      exact ⟨htrim.trans hone.symm, rfl⟩
  | array vs =>
      have hvs := hfold vs [] c
      rw [List.nil_append] at hvs
      refine ⟨?_, congrArg Prod.snd hvs⟩
      have htext : (paramsOf (.array vs) c).1 =
          ((List.range' c vs.length).map param).flatMap (· ++ [',']) := congrArg Prod.fst hvs
      rw [htext, Arg.values]
      cases vs with
      | nil => rfl
      | cons v vs =>
          rw [List.length_cons, List.range'_succ, flatMap_comma]
          exact (trimCommas_commaList c _).2

/-- Behind a text without question marks the leftmost one is found and filled. -/
theorem replaceFirst_append (done rest str : Text) (hdone : '?' ∉ done) :
    replaceFirst (done ++ '?' :: rest) str = done ++ str ++ rest := by
  have hplace : (done ++ '?' :: rest).idxOf? '?' = some done.length := by
    rw [List.idxOf?_eq_some_iff]
    refine ⟨by simp, by simp, ?_⟩
    intro j hj heq
    rw [List.getElem_append_left hj] at heq
    exact hdone (heq ▸ List.getElem_mem hj)
  simp [replaceFirst, hplace]

theorem fill_of_not_mem {front : Text} (hfront : '?' ∉ front) (rest : Text) (strs : List Text) :
    fill (front ++ rest) strs = front ++ fill rest strs := by
  induction front with
  | nil => rfl
  | cons c front ih =>
      have hc : c ≠ '?' := fun heq => hfront (heq ▸ List.mem_cons_self)
      have htail := ih fun hmem => hfront (List.mem_cons_of_mem c hmem)
      cases strs with
      | nil =>
          have hnil : ∀ t : Text, fill t [] = t := fun t => by cases t <;> rfl
          rw [hnil, hnil]
      | cons str strs => rw [List.cons_append, fill, if_neg hc, htail, List.cons_append]

/-- One value after the other fills one question mark after the other: whatever is in
front of the leftmost one stays. -/
theorem foldl_expandStep (vals : List Arg) (done rest : Text) (c : ℕ) (hdone : '?' ∉ done)
    (hcount : rest.count '?' = vals.length) :
    (vals.foldl expandStep (done ++ rest, c)).1 =
      done ++ fill rest ((groups c vals).map commaList) := by
  induction vals generalizing done rest c with
  | nil =>
      have hnil : fill rest [] = rest := by cases rest <;> rfl
      simp [groups, hnil]
  | cons v vals ih =>
      have hmem : '?' ∈ rest := List.count_pos_iff.mp (by simp [hcount])
      obtain ⟨front, back, rfl, hfront⟩ := List.eq_append_cons_of_mem hmem
      obtain ⟨htext, hcounter⟩ := paramsOf_eq v c
      have hstep : expandStep (done ++ (front ++ '?' :: back), c) v =
          (done ++ front ++ commaList ((List.range' c v.values.length).map param) ++ back,
            c + v.values.length) := by
        have hfirst := replaceFirst_append (done ++ front) back (trimCommas (paramsOf v c).1)
          (by simp [hdone, hfront])
        rw [List.append_assoc, htext] at hfirst
        simp only [expandStep, hcounter, htext, hfirst]
      have hback : back.count '?' = vals.length := by
        have hnone : front.count '?' = 0 := List.count_eq_zero.mpr hfront
        simpa [hnone] using hcount
      have hdone' : '?' ∉ done ++ front ++
          commaList ((List.range' c v.values.length).map param) := by
        simp [hdone, hfront, question_not_mem_commaList]
      rw [List.foldl_cons, hstep, ih _ _ _ hdone' hback, fill_of_not_mem hfront, groups, List.map_cons,
        fill, if_pos rfl]
      simp only [List.append_assoc]

/-- The groups together are the parameters in a row. -/
theorem flatten_groups (vals : List Arg) (c : ℕ) :
    (groups c vals).flatten = (List.range' c (vals.flatMap Arg.values).length).map param := by
  induction vals generalizing c with
  | nil => rfl
  | cons v vals ih =>
      rw [groups, List.flatten_cons, ih, List.flatMap_cons, List.length_append,
        ← List.range'_append_1, List.map_append]

theorem length_groups (vals : List Arg) (c : ℕ) :
    (groups c vals).map List.length = vals.map fun v => v.values.length := by
  induction vals generalizing c with
  | nil => rfl
  | cons v vals ih => simp [groups, ih]

/-- The second loop numbers the values through. -/
theorem foldl_bindStep (vals : List Arg) (bound : List Binding) (c : ℕ) :
    (vals.foldl bindStep (bound, c)).1 =
      bound ++ ((vals.flatMap Arg.values).zipIdx c).map fun v => bind v.2 v.1 := by
  have hfold : ∀ (vs : List Value) (bound : List Binding) (c : ℕ),
      vs.foldl (fun (state : List Binding × ℕ) v => (state.1 ++ [bind state.2 v], state.2 + 1))
          (bound, c) =
        (bound ++ (vs.zipIdx c).map fun v => bind v.2 v.1, c + vs.length) := by
    intro vs
    induction vs with
    | nil => simp
    | cons v vs ih =>
        intro bound c
        rw [List.foldl_cons, ih, List.zipIdx_cons, List.length_cons]
        simp [Nat.add_comm, Nat.add_left_comm]
  have hstep : ∀ (v : Arg) (bound : List Binding) (c : ℕ), bindStep (bound, c) v =
      (bound ++ (v.values.zipIdx c).map fun v => bind v.2 v.1, c + v.values.length) := by
    intro v bound c
    cases v with
    | scalar v => rfl
    | array vs => exact hfold vs bound c
  induction vals generalizing bound c with
  | nil => simp
  | cons v vals ih =>
      rw [List.foldl_cons, hstep, ih, List.flatMap_cons, List.zipIdx_append]
      simp

end Lemmas

/-- With a value for every question mark, each is replaced by the parameters of its
value: one for a scalar, a comma list for an array. The parameters are `:c0`, `:c1`
and so on without repetition. If the driver accepts the text, there is a statement with
this text, and each parameter is bound in it once, to the value at its place. -/
theorem prepare_expands (driver : Text → Bool) (sql : Text) (vals : List Arg)
    (hcount : sql.count '?' = vals.length) :
    let values := vals.flatMap Arg.values
    let params := (List.range values.length).map param
    expand sql vals = fill sql ((groups 0 vals).map commaList) ∧
      (groups 0 vals).map List.length = vals.map (fun v => v.values.length) ∧
      (groups 0 vals).flatten = params ∧ params.Nodup ∧
      prepare driver sql vals =
        if driver (expand sql vals) then
          some ⟨expand sql vals,
            List.zipWith (fun param v => ⟨param, v, v.paramType⟩) params values⟩
        else none := by
  intro values params
  have hparams : (groups 0 vals).flatten = params := by
    rw [flatten_groups, ← List.range_eq_range']
  have hbound : bindings vals =
      List.zipWith (fun param v => ⟨param, v, v.paramType⟩) params values := by
    rw [bindings, foldl_bindStep, List.nil_append, List.zipIdx_eq_zip_range',
      ← List.range_eq_range', List.map_zip_eq_zipWith, List.zipWith_comm, List.zipWith_map_left]
    rfl
  refine ⟨?_, length_groups vals 0, hparams, List.Nodup.map param_injective List.nodup_range,
    ?_⟩
  · exact foldl_expandStep vals [] sql 0 List.not_mem_nil hcount
  · rw [prepare, hbound]

/-- Three arguments, one of them an array, and one without values. -/
theorem prepare_expands_sample :
    prepare (fun _ => true) "a=? AND b IN (?) AND c IN (?)".toList
        [.scalar (.int 7), .array [.null, .string "x".toList], .array []] =
      some ⟨"a=:c0 AND b IN (:c1,:c2) AND c IN ()".toList,
        [⟨":c0".toList, .int 7, .int⟩, ⟨":c1".toList, .null, .null⟩,
          ⟨":c2".toList, .string "x".toList, .str⟩]⟩ := by
  obtain ⟨hexpand, -, -, -, hprepare⟩ := prepare_expands (fun _ => true)
    "a=? AND b IN (?) AND c IN (?)".toList
    [.scalar (.int 7), .array [.null, .string "x".toList], .array []] (by decide)
  rw [hprepare, hexpand]
  decide

end Query

end WampManager
