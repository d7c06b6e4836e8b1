/-
# Handing a path to the helper

The PATH that is set stands in a command line without quotes. The command interpreter reads
the line, the runtime of the helper cuts it into arguments at blanks, and the helper puts
these together again with one blank behind each. What arrives is the text that was meant
only if it has single blanks between its words and nothing that either of them reads as
a sign.
-/

import WampManager.Deltree
import WampManager.Lib.Argv
import WampManager.Site

namespace WampManager

namespace PathSet

/-! ## The helper -/

/-- What the helper strips from the ends of a text. -/
def isWhite (c : Char) : Bool :=
  ('\t' ≤ c && c ≤ '\r') || ('\u2000' ≤ c && c ≤ '\u200a') ||
    c ∈ [' ', '\u0085', '\u00a0', '\u1680', '\u180e', '\u2028', '\u2029', '\u202f', '\u205f',
      '\u3000']

/-- `Trim`. -/
def trim (t : Text) : Text := (t.dropWhile isWhite).rdropWhile isWhite

/-- `getArguments`: each argument with a blank behind it. -/
def getArguments (args : List Text) : Text := args.flatMap (· ++ [' '])

/-! ## The line -/

/-- The command interpreter: its variables, and what a line leaves of the PATH that is more
than one command, is redirected or runs something else. -/
structure Interpreter where
  vars : Text → Option Text
  others : Text → Text → Text

/-- The interpreter takes lines of so many characters. -/
def maxLine : ℕ := 8191

/-- `WAMP_PATH.'\\Wamp.NET.exe'` -/
def program (env : Env) : Text := env.wampPath ++ "\\Wamp.NET.exe".toList

/-- `WAMP_PATH.'\\Wamp.NET.exe --path-set '.$path` -/
def line (env : Env) (path : Text) : Text := program env ++ " --path-set ".toList ++ path

/-- The PATH after the line was run, from the one before. -/
def pathSet (sh : Interpreter) (env : Env) (path old : Text) : Text :=
  let expanded := Cmd.expand sh.vars (line env path)
  if maxLine < (line env path).length ∨ maxLine < expanded.length then old
  else
    match Cmd.cut expanded with
    | [.word tail] =>
        match Argv.split tail with
        | exe :: option :: args =>
            if exe = program env ∧ option = "--path-set".toList then trim (getArguments args)
            else sh.others expanded old
        | _ => sh.others expanded old
    | _ => sh.others expanded old

/-- An installation whose helper the interpreter finds: its path is one word. -/
structure Installed (env : Env) : Prop where
  start : ∀ c ∈ env.wampPath.head?, isWhite c = false
  plain : ∀ c ∈ env.wampPath, Cmd.isPlain Util.separates c = true
  no_switch : '/' ∉ env.wampPath
  no_percent : '%' ∉ env.wampPath

instance (env : Env) : Decidable (Installed env) :=
  decidable_of_iff ((∀ c ∈ env.wampPath.head?, isWhite c = false) ∧
      (∀ c ∈ env.wampPath, Cmd.isPlain Util.separates c = true) ∧
      '/' ∉ env.wampPath ∧ '%' ∉ env.wampPath)
    ⟨fun ⟨hstart, hplain, hswitch, hpercent⟩ => ⟨hstart, hplain, hswitch, hpercent⟩,
      fun h => ⟨h.start, h.plain, h.no_switch, h.no_percent⟩⟩

/-- A text that the interpreter hands on as it is. -/
structure Bare (path : Text) : Prop where
  plain : ∀ c ∈ path, Cmd.isSpecial c = false
  no_return : '\r' ∉ path
  no_variable : Cmd.namesVariable path = false

instance (path : Text) : Decidable (Bare path) :=
  decidable_of_iff ((∀ c ∈ path, Cmd.isSpecial c = false) ∧ '\r' ∉ path ∧
      Cmd.namesVariable path = false)
    ⟨fun ⟨hplain, hreturn, hvariable⟩ => ⟨hplain, hreturn, hvariable⟩,
      fun h => ⟨h.plain, h.no_return, h.no_variable⟩⟩

/-- Words with single blanks between them. -/
structure Tidy (t : Text) : Prop where
  tabs : '\t' ∉ t
  blanks : ¬ [' ', ' '] <:+: t
  start : ∀ c ∈ t.head?, isWhite c = false
  last : ∀ c ∈ t.getLast?, isWhite c = false

/-! ## Weights -/

/-- The number of characters; a tab counts twice, as a blank takes its place. -/
def weight (t : Text) : ℕ := (t.map fun c => if c = '\t' then 2 else 1).sum

@[simp] theorem weight_nil : weight [] = 0 := rfl

@[simp] theorem weight_cons (c : Char) (t : Text) :
    weight (c :: t) = (if c = '\t' then 2 else 1) + weight t := by
  rw [weight, List.map_cons, List.sum_cons, weight]

@[simp] theorem weight_append (s t : Text) : weight (s ++ t) = weight s + weight t := by
  rw [weight, List.map_append, List.sum_append, weight, weight]

/-- Whatever is left out weighs something. -/
theorem weight_sublist {s t : Text} (h : s.Sublist t) :
    weight s + t.length ≤ weight t + s.length := by
  induction h with
  | slnil => exact le_rfl
  | cons c _ ih =>
      rw [weight_cons, List.length_cons]
      split <;> omega
  | cons_cons c _ ih =>
      rw [weight_cons, weight_cons, List.length_cons, List.length_cons]
      omega

theorem eq_of_weight_le {s t : Text} (h : s.Sublist t) (hle : weight t ≤ weight s) : s = t := by
  have hweight := weight_sublist h
  exact h.eq_of_length_le (by omega)

/-! ## Pieces between blanks -/

/-- The pieces between blanks weigh what the text does, but for the tabs. -/
theorem weight_splitOnP (t : Text) :
    ((t.splitOnP Argv.isBlank).map (weight · + 1)).sum + t.count '\t' = weight t + 1 := by
  induction t with
  | nil => rfl
  | cons c t ih =>
      have hne := List.splitOnP_ne_nil Argv.isBlank t
      rw [List.splitOnP_cons_eq_if_modifyHead, List.count_cons, weight_cons]
      by_cases hblank : Argv.isBlank c = true
      · rw [if_pos hblank, List.map_cons, List.sum_cons, weight_nil]
        by_cases htab : c = '\t'
        · simp only [htab, beq_self_eq_true, if_true]
          omega
        · simp only [htab, beq_iff_eq, if_false]
          omega
      · have htab : c ≠ '\t' := by
          rintro rfl
          exact hblank rfl
        rw [if_neg hblank]
        generalize t.splitOnP Argv.isBlank = pieces at ih hne
        cases pieces with
        | nil => exact absurd rfl hne
        | cons p ps =>
            simp only [List.modifyHead_cons, List.map_cons, List.sum_cons, weight_cons, htab,
              beq_iff_eq, if_false] at ih ⊢
            omega

/-- An empty piece weighs as much as the blank behind it. -/
theorem weight_filter (ps : List Text) :
    ((ps.filter (· ≠ [])).map (weight · + 1)).sum + ps.count [] = (ps.map (weight · + 1)).sum := by
  induction ps with
  | nil => rfl
  | cons p ps ih =>
      cases p with
      | nil =>
          rw [List.filter_cons_of_neg (by simp), List.count_cons_self, List.map_cons, List.sum_cons,
            weight_nil]
          omega
      | cons c p =>
          simp only [ne_eq, reduceCtorEq, not_false_eq_true, decide_true, List.filter_cons_of_pos,
            List.map_cons, List.sum_cons, List.count_cons_of_ne] at ih ⊢
          omega

theorem weight_getArguments (args : List Text) :
    weight (getArguments args) = (args.map (weight · + 1)).sum := by
  induction args with
  | nil => rfl
  | cons arg args ih =>
      rw [getArguments, List.flatMap_cons, weight_append, ← getArguments, ih, weight_append,
        List.map_cons, List.sum_cons]
      rfl

theorem getArguments_eq {args : List Text} (h : args ≠ []) :
    getArguments args = [' '].intercalate args ++ [' '] := by
  induction args with
  | nil => exact absurd rfl h
  | cons arg args ih =>
      rw [getArguments, List.flatMap_cons, ← getArguments]
      cases args with
      | nil => simp [getArguments]
      | cons arg' args =>
          rw [ih (List.cons_ne_nil _ _), List.intercalate_cons_cons]
          simp

/-! ## Trimming -/

theorem trim_sublist (t : Text) : (trim t).Sublist t :=
  (List.rdropWhile_prefix _ _).sublist.trans (List.dropWhile_sublist _)

/-- A blank at the end is stripped. -/
theorem trim_append_blank (t : Text) : trim (t ++ [' ']) = trim t := by
  have hwhite : isWhite ' ' = true := by decide
  unfold trim
  by_cases hall : ∀ d ∈ t, isWhite d = true
  · have hleft : t.dropWhile isWhite = [] := List.dropWhile_eq_nil_iff.mpr hall
    have hboth : (t ++ [' ']).dropWhile isWhite = [] :=
      List.dropWhile_eq_nil_iff.mpr (List.forall_mem_append.mpr
        ⟨hall, fun d hd => List.mem_singleton.mp hd ▸ hwhite⟩)
    rw [hleft, hboth]
  · have hne : (t.dropWhile isWhite).isEmpty = false := by
      rw [List.isEmpty_eq_false_iff]
      exact fun hnil => hall (List.dropWhile_eq_nil_iff.mp hnil)
    rw [List.dropWhile_append, if_neg (by simp [hne]), List.rdropWhile_concat, if_pos hwhite]

theorem dropWhile_eq_self_iff {t : Text} :
    t.dropWhile isWhite = t ↔ ∀ c ∈ t.head?, isWhite c = false := by
  cases t with
  | nil => simp
  | cons d t =>
      have hlength := (List.dropWhile_sublist isWhite (l := t)).length_le
      by_cases hwhite : isWhite d = true
      · have hne : t.dropWhile isWhite ≠ d :: t := fun heq => by
          rw [heq, List.length_cons] at hlength
          omega
        simp [hwhite, hne]
      · simp [hwhite]

/-- Nothing is stripped exactly where both ends are something else. -/
theorem trim_eq_self_iff {t : Text} : trim t = t ↔
    (∀ c ∈ t.head?, isWhite c = false) ∧ ∀ c ∈ t.getLast?, isWhite c = false := by
  have hlast : t.rdropWhile isWhite = t ↔ ∀ c ∈ t.getLast?, isWhite c = false := by
    rcases List.eq_nil_or_concat t with rfl | ⟨init, c, rfl⟩
    · simp
    · rw [List.rdropWhile_eq_self_iff]
      simp
  rw [← dropWhile_eq_self_iff, ← hlast]
  constructor
  · intro h
    have hlength := (List.rdropWhile_prefix isWhite (t.dropWhile isWhite)).length_le
    have hfirst : t.dropWhile isWhite = t :=
      (List.dropWhile_sublist _).eq_of_length_le (by rwa [← trim, h] at hlength)
    exact ⟨hfirst, by rwa [trim, hfirst] at h⟩
  · rintro ⟨hfirst, hsecond⟩
    rw [trim, hfirst, hsecond]

/-! ## What arrives -/

/-- What the helper makes of the arguments behind its option. -/
def passed (t : Text) : Text := trim (getArguments (Argv.split t))

theorem splitOnP_of_no_tab {t : Text} (h : '\t' ∉ t) : t.splitOnP Argv.isBlank = t.splitOn ' ' := by
  induction t with
  | nil => rfl
  | cons c t ih =>
      obtain ⟨hc, ht⟩ := not_or.mp (List.mem_cons.not.mp h)
      have hsame : Argv.isBlank c = (c == ' ') := by simp [Argv.isBlank, Ne.symm hc]
      rw [List.splitOnP_cons_eq_if_modifyHead, ih ht, List.splitOn_cons_eq_if_modifyHead, hsame]

/-- Where no piece is empty the text is put together again. -/
theorem getArguments_split {t : Text} (h : '"' ∉ t) (htab : '\t' ∉ t)
    (hempty : [] ∉ t.splitOn ' ') : getArguments (Argv.split t) = t ++ [' '] := by
  have hall : (t.splitOn ' ').filter (· ≠ []) = t.splitOn ' ' :=
    List.filter_eq_self.mpr fun p hp => decide_eq_true fun hnil => hempty (hnil ▸ hp)
  rw [Argv.split_of_no_quote h, splitOnP_of_no_tab htab, hall,
    getArguments_eq (List.splitOn_ne_nil ' ' t), List.intercalate_splitOn]

/-- A piece is empty only at an end or between two blanks in a row. -/
theorem nil_mem_splitOn_iff {t : Text} : [] ∈ t.splitOn ' ' ↔
    t = [] ∨ t.head? = some ' ' ∨ t.getLast? = some ' ' ∨ [' ', ' '] <:+: t := by
  constructor
  · intro h
    induction hn : t.length using Nat.strong_induction_on generalizing t with
    | _ n ih =>
        by_cases hmem : ' ' ∈ t
        · obtain ⟨word, rest, rfl, hword⟩ := List.eq_append_cons_of_mem hmem
          rw [List.splitOn_append_cons_self_of_not_mem hword, List.mem_cons] at h
          rcases h with rfl | h
          · exact .inr (.inl rfl)
          · rcases ih rest.length (by simp [← hn]; omega) h rfl with rfl | hhead | hlast | hblanks
            · exact .inr (.inr (.inl (by simp)))
            · obtain ⟨rest, rfl⟩ := List.head?_eq_some_iff.mp hhead
              exact .inr (.inr (.inr ⟨word, rest, by simp⟩))
            · obtain ⟨init, rfl⟩ := List.getLast?_eq_some_iff.mp hlast
              refine .inr (.inr (.inl (List.getLast?_eq_some_iff.mpr ⟨word ++ ' ' :: init, ?_⟩)))
              rw [List.append_assoc, List.cons_append]
            · exact .inr (.inr (.inr (hblanks.trans
                ((List.suffix_cons _ _).trans (List.suffix_append _ _)).isInfix)))
        · rw [List.splitOn_eq_singleton hmem, List.mem_singleton] at h
          exact .inl h.symm
  · rintro (rfl | hhead | hlast | ⟨front, back, rfl⟩)
    · exact List.mem_singleton.mpr rfl
    · obtain ⟨rest, rfl⟩ := List.head?_eq_some_iff.mp hhead
      exact List.mem_append_left _ (List.mem_singleton.mpr rfl)
    · obtain ⟨init, rfl⟩ := List.getLast?_eq_some_iff.mp hlast
      rw [List.splitOn_append_cons_self]
      exact List.mem_append_right _ (List.mem_singleton.mpr rfl)
    · rw [List.append_assoc, List.cons_append, List.splitOn_append_cons_self]
      exact List.mem_append_right _ List.mem_cons_self

/-- A tidy text arrives as it is. -/
theorem passed_of_tidy {t : Text} (hne : t ≠ []) (hquote : '"' ∉ t) (h : Tidy t) :
    passed t = t := by
  have hwhite : isWhite ' ' = true := by decide
  have hempty : [] ∉ t.splitOn ' ' := by
    rw [nil_mem_splitOn_iff]
    rintro (hnil | hhead | hlast | hblanks)
    · exact hne hnil
    · exact absurd (h.start ' ' hhead) (by simp [hwhite])
    · exact absurd (h.last ' ' hlast) (by simp [hwhite])
    · exact h.blanks hblanks
  rw [passed, getArguments_split hquote h.tabs hempty, trim_append_blank]
  exact trim_eq_self_iff.mpr ⟨h.start, h.last⟩

/-- No other text arrives without losing something. -/
theorem tidy_of_weight_le {t : Text} (hne : t ≠ []) (hquote : '"' ∉ t)
    (hle : weight t ≤ weight (passed t)) : Tidy t := by
  have hpieces := weight_splitOnP t
  have hwords := weight_filter (t.splitOnP Argv.isBlank)
  have hargs := weight_getArguments (Argv.split t)
  rw [Argv.split_of_no_quote hquote] at hargs
  set args := (t.splitOnP Argv.isBlank).filter (· ≠ []) with hdef
  have hpassed : passed t = trim (getArguments args) := by
    rw [passed, Argv.split_of_no_quote hquote]
  have hsome : args ≠ [] := by
    intro hnil
    have hnone : passed t = [] := by
      rw [hpassed, hnil]
      rfl
    rw [hnone, weight_nil] at hle
    exact hne (eq_of_weight_le (List.nil_sublist t) hle).symm
  set joined := [' '].intercalate args
  have hjoined : getArguments args = joined ++ [' '] := getArguments_eq hsome
  have htrim : passed t = trim joined := by rw [hpassed, hjoined, trim_append_blank]
  have hshort := weight_sublist (trim_sublist joined)
  have hlength := (trim_sublist joined).length_le
  rw [hjoined, weight_append] at hargs
  change weight joined + 1 = _ at hargs
  rw [htrim] at hle
  have htab : '\t' ∉ t := List.count_eq_zero.mp (by omega)
  have hempty : [] ∉ t.splitOn ' ' := by
    rw [← splitOnP_of_no_tab htab]
    exact List.count_eq_zero.mp (by omega)
  have htogether : joined ++ [' '] = t ++ [' '] := by
    rw [← hjoined, ← getArguments_split hquote htab hempty, Argv.split_of_no_quote hquote]
  have hsame : joined = t := List.append_cancel_right htogether
  have hends : trim t = t := hsame ▸ eq_of_weight_le (trim_sublist joined) (by omega)
  obtain ⟨hstart, hlast⟩ := trim_eq_self_iff.mp hends
  exact ⟨htab, fun hblanks => hempty (nil_mem_splitOn_iff.mpr (.inr (.inr (.inr hblanks)))),
    hstart, hlast⟩

/-! ## Running the line -/

variable {env : Env} {path old : Text}

theorem plain_program (h : Installed env) : ∀ c ∈ program env, Cmd.isSpecial c = false := by
  have hname : ∀ c ∈ "\\Wamp.NET.exe".toList, Cmd.isSpecial c = false := by decide
  exact List.forall_mem_append.mpr ⟨fun c hc => (Cmd.isPlain_iff.mp (h.plain c hc)).1, hname⟩

/-- The program and the option are read as two arguments. -/
theorem split_line (h : Installed env) (path : Text) :
    Argv.split (line env path) = program env :: "--path-set".toList :: Argv.split path := by
  have hliteral : ∀ c ∈ program env, Argv.isLiteral false c = true := by
    have hname : ∀ c ∈ "\\Wamp.NET.exe".toList, Argv.isLiteral false c = true := by decide
    refine List.forall_mem_append.mpr ⟨fun c hc => ?_, hname⟩
    obtain ⟨hspecial, hseparates⟩ := Cmd.isPlain_iff.mp (h.plain c hc)
    have hquote : c ≠ '"' := by
      rintro rfl
      cases hspecial
    have hblank : c ∉ [' ', '\t'] := by
      intro hmem
      simp only [List.mem_cons, List.not_mem_nil, or_false] at hmem
      rcases hmem with rfl | rfl <;> cases hseparates
    simp only [Argv.isLiteral, bne_iff_ne.mpr hquote, decide_eq_true hblank, Bool.or_true,
      Bool.and_self]
  have hlast : (program env).getLast? ≠ some '\\' := by
    have hname : "\\Wamp.NET.exe".toList.getLast? = some 'e' := by decide
    rw [program, List.getLast?_append, hname, Option.some_or]
    decide
  have hne : program env ≠ [] := List.append_ne_nil_of_right_ne_nil _ (by decide)
  have hprogram : Argv.reader.advance .fresh (program env) =
      ([], ⟨false, 0, some (program env)⟩) := Argv.advance_literal hliteral hne hlast 0 none
  have hoption : Argv.reader.advance ⟨false, 0, some (program env)⟩ " --path-set ".toList =
      ([program env, "--path-set".toList], .fresh) := by
    simp [Transducer.advance, Argv.reader, Argv.State.flush, Argv.State.text, Argv.State.fresh]
  have hadvance : Argv.reader.advance .fresh (program env ++ " --path-set ".toList) =
      ([program env, "--path-set".toList], .fresh) := by
    rw [Transducer.advance_append, hprogram, hoption, List.nil_append]
  have hrun := Transducer.run_append_of_advance _ hadvance path
  rw [Argv.split, line, hrun]
  rfl

/-- A line without signs is run as it is written. -/
theorem pathSet_of_bare (sh : Interpreter) (h : Installed env) {front path : Text}
    (hpercent : '%' ∉ front) (hplain : ∀ c ∈ front, Cmd.isSpecial c = false) (hbare : Bare path)
    (old : Text) :
    pathSet sh env (front ++ path) old =
      if maxLine < (line env (front ++ path)).length then old else passed (front ++ path) := by
  have hexpand : Cmd.expand sh.vars (line env (front ++ path)) = line env (front ++ path) := by
    have hstart : '%' ∉ program env ++ " --path-set ".toList ++ front := by
      have hname : '%' ∉ "\\Wamp.NET.exe".toList ∧ '%' ∉ " --path-set ".toList := by decide
      simp only [program, List.mem_append, not_or]
      exact ⟨⟨⟨h.no_percent, hname.1⟩, hname.2⟩, hpercent⟩
    rw [line, ← List.append_assoc, Cmd.expand_append hstart,
      Cmd.expand_of_not_namesVariable _ hbare.no_variable]
  have hspecial : ∀ c ∈ line env (front ++ path), Cmd.isSpecial c = false := by
    have hoption : ∀ c ∈ " --path-set ".toList, Cmd.isSpecial c = false := by decide
    simp only [line, List.forall_mem_append]
    exact ⟨⟨plain_program h, hoption⟩, hplain, hbare.plain⟩
  have hcut : Cmd.cut (line env (front ++ path)) = [.word (line env (front ++ path))] := by
    have hadvance := Cmd.advance_cutter_plain hspecial none
    have hne : line env (front ++ path) ≠ [] := by simp [line]
    rw [if_neg hne] at hadvance
    have hrun := Transducer.run_append_of_advance _ hadvance []
    rw [List.append_nil] at hrun
    exact hrun
  unfold pathSet
  simp only [hexpand, hcut, split_line h, or_self, and_self, if_true]
  rfl

end PathSet

end WampManager
