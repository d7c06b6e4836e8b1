/-
# Command lines

The command interpreter first puts the values of variables in, then reads the
line from left to right. Quotes group, a caret takes the next character as it
is, `&` and `|` start another command, `<` and `>` redirect, and what separates
words is a parameter: a command of the interpreter itself separates at more
characters than a program does.
-/

import WampManager.Lib.Text
import WampManager.Lib.Transducer

namespace Cmd

/-! ## Variables -/

/-- Put the values of variables in; the counter skips a name that was replaced.
A name without a value stays as it is. -/
def expandFrom (vars : Text → Option Text) : ℕ → Text → Text
  | _, [] => []
  | skip + 1, _ :: rest => expandFrom vars skip rest
  | 0, c :: rest =>
      let name := rest.takeWhile (· ≠ '%')
      if c = '%' ∧ name ≠ [] ∧ '%' ∈ rest then
        match vars name with
        | some value => value ++ expandFrom vars (name.length + 1) rest
        | none => c :: expandFrom vars 0 rest
      else c :: expandFrom vars 0 rest

/-- Put the values of variables in. -/
def expand (vars : Text → Option Text) (t : Text) : Text := expandFrom vars 0 t

/-- Does a text name a variable between percent signs? -/
def namesVariable : Text → Bool
  | [] => false
  | c :: rest =>
      (c == '%' && rest.takeWhile (· ≠ '%') != [] && '%' ∈ rest) || namesVariable rest

/-! ## Words -/

/-- What a line is read into. -/
inductive Token
  | word (t : Text)
  /-- A sign, with the digit that stands directly in front of it. -/
  | redirect (sign : Char) (handle : Option Char)
  | next
  deriving DecidableEq

/-- How the next character is read. -/
inductive Mode
  | plain
  | quoted
  | escaped
  /-- Directly behind a redirection. -/
  | behind
  | ended
  deriving DecidableEq

/-- The reader with the word it is in. -/
structure State where
  mode : Mode
  held : Option Text
  deriving DecidableEq

namespace State

/-- Between words. -/
def fresh : State := ⟨.plain, none⟩

/-- Extend the word. -/
def add (s : State) (mode : Mode) (t : Text) : State := ⟨mode, some (s.held.getD [] ++ t)⟩

/-- The word that ends here. -/
def flush (s : State) : List Token := (s.held.map Token.word).toList

/-- The word and the handle in front of a redirection. -/
def redirect (s : State) (sign : Char) : List Token :=
  match s.held with
  | some [d] => if d.isDigit then [.redirect sign (some d)] else [.word [d], .redirect sign none]
  | _ => s.flush ++ [.redirect sign none]

end State

variable (separates : Char → Bool)

/-- The reader of a line. -/
def reader : Transducer State Char Token where
  step s c :=
    match s.mode with
    | .ended => ([], s)
    | .escaped => ([], s.add .plain [c])
    | .quoted =>
        if c = '\n' ∨ c = '\x00' then (s.flush, ⟨.ended, none⟩)
        else if c = '"' then ([], s.add .plain [])
        else ([], s.add .quoted [c])
    | .plain | .behind =>
        if c = '\n' ∨ c = '\x00' then (s.flush, ⟨.ended, none⟩)
        else if c = '"' then ([], s.add .quoted [])
        else if c = '^' then ([], ⟨.escaped, s.held⟩)
        else if c = '&' ∧ s.mode = .behind then ([], s.add .plain [c])
        else if c = '&' ∨ c = '|' then (s.flush ++ [.next], .fresh)
        else if c = '<' ∨ c = '>' then (s.redirect c, ⟨.behind, none⟩)
        else if separates c then (s.flush, .fresh)
        else ([], s.add .plain [c])
  finish s := s.flush

/-- Read a line. -/
def read (t : Text) : List Token := (reader separates).run .fresh t

/-- A character that a word holds without quotes. -/
def isPlain (c : Char) : Bool := c ∉ "\"^&|<>\n\x00".toList && !separates c

/-- A character that means something even inside a word. -/
def isSpecial (c : Char) : Bool := c ∈ "\"^&|<>\n\x00".toList

/-- A character that does nothing but separate words. -/
def isBlank (c : Char) : Bool := !isSpecial c && separates c

/-! ## Commands -/

/-- A command with the files it is redirected to. -/
structure Command where
  words : List Text
  redirects : List (Char × Option Char × Text)
  deriving DecidableEq

namespace Command

/-- Put a word in front. -/
def word (t : Text) (c : Command) : Command := { c with words := t :: c.words }

/-- Put a redirection in front. -/
def redirect (sign : Char) (handle : Option Char) (t : Text) (c : Command) : Command :=
  { c with redirects := (sign, handle, t) :: c.redirects }

end Command

/-- The commands of a line. -/
def commands : List Token → List Command
  | [] => [⟨[], []⟩]
  | .word t :: ts => (commands ts).modifyHead (Command.word t)
  | .redirect sign handle :: .word t :: ts =>
      (commands ts).modifyHead (Command.redirect sign handle t)
  | .redirect _ _ :: ts => commands ts
  | .next :: ts => ⟨[], []⟩ :: commands ts

/-! ## Texts without variables -/

theorem expandFrom_of_not_namesVariable (vars : Text → Option Text) {t : Text}
    (h : namesVariable t = false) : expandFrom vars 0 t = t := by
  induction t with
  | nil => rfl
  | cons c t ih =>
      rw [namesVariable, Bool.or_eq_false_iff] at h
      have hnone : ¬ (c = '%' ∧ t.takeWhile (· ≠ '%') ≠ [] ∧ '%' ∈ t) := by
        rintro ⟨rfl, hname, hmem⟩
        have hfirst := h.1
        rw [bne_iff_ne.mpr hname, decide_eq_true hmem] at hfirst
        cases hfirst
      rw [expandFrom, if_neg hnone, ih h.2]

theorem expand_of_not_namesVariable (vars : Text → Option Text) {t : Text}
    (h : namesVariable t = false) : expand vars t = t :=
  expandFrom_of_not_namesVariable vars h

/-- Behind the last percent sign no variable is named. -/
theorem namesVariable_append {s : Text} (h : '%' ∉ s) (t : Text) :
    namesVariable (t ++ s) = namesVariable t := by
  have hnone : ∀ u : Text, '%' ∉ u → namesVariable u = false := by
    intro u hu
    induction u with
    | nil => rfl
    | cons c u ih =>
        obtain ⟨hc, hrest⟩ := not_or.mp (List.mem_cons.not.mp hu)
        rw [namesVariable, ih hrest, beq_eq_false_iff_ne.mpr (Ne.symm hc)]
        rfl
  induction t with
  | nil => exact hnone s h
  | cons c t ih =>
      rw [List.cons_append, namesVariable, namesVariable, ih]
      by_cases hmem : '%' ∈ t
      · have htake : (t ++ s).takeWhile (· ≠ '%') = t.takeWhile (· ≠ '%') := by
          rw [List.takeWhile_append, if_neg]
          intro hlength
          have hall := (List.takeWhile_prefix (· ≠ '%') (l := t)).eq_of_length hlength
          have hpercent := List.mem_takeWhile_imp (hall.symm ▸ hmem)
          simp at hpercent
        rw [htake]
        simp [hmem]
      · simp [hmem, h]

/-- In front of the first percent sign nothing is replaced. -/
theorem expand_append {t : Text} (h : '%' ∉ t) (vars : Text → Option Text) (rest : Text) :
    expand vars (t ++ rest) = t ++ expand vars rest := by
  induction t with
  | nil => rfl
  | cons c t ih =>
      obtain ⟨hc, ht⟩ := not_or.mp (List.mem_cons.not.mp h)
      have hnone : ¬ (c = '%' ∧ (t ++ rest).takeWhile (· ≠ '%') ≠ [] ∧ '%' ∈ t ++ rest) :=
        fun hall => hc hall.1.symm
      rw [List.cons_append, expand, expandFrom, if_neg hnone]
      exact congrArg (c :: ·) (ih ht)

/-- Empty values make a text no longer. -/
theorem length_expandFrom_le (skip : ℕ) (t : Text) :
    (expandFrom (fun _ => some []) skip t).length ≤ t.length := by
  induction t generalizing skip with
  | nil => simp [expandFrom]
  | cons c t ih =>
      cases skip with
      | succ skip => exact (ih skip).trans (Nat.le_succ _)
      | zero =>
          rw [expandFrom]
          split
          · exact (ih _).trans (Nat.le_succ _)
          · exact Nat.succ_le_succ (ih 0)

/-- Where a variable is named they make it shorter. -/
theorem length_expand_lt {t : Text} (h : namesVariable t = true) :
    (expand (fun _ => some []) t).length < t.length := by
  induction t with
  | nil => cases h
  | cons c t ih =>
      rw [expand, expandFrom]
      split
      · exact Nat.lt_succ_of_le (length_expandFrom_le _ t)
      · next hnone =>
          rw [namesVariable, Bool.or_eq_true] at h
          refine Nat.succ_lt_succ (ih (h.resolve_left fun hall => hnone ?_))
          simpa [and_assoc] using hall

/-! ## Reading -/

/-- The characters of a word. -/
def Token.weight : Token → ℕ
  | .word t => t.length
  | _ => 0

/-- The characters that the reader holds. -/
def State.weight (s : State) : ℕ := (s.held.getD []).length

theorem State.weight_flush (s : State) : (s.flush.map Token.weight).sum = s.weight := by
  obtain ⟨mode, held⟩ := s
  cases held <;> simp [State.flush, State.weight, Token.weight]

theorem State.weight_redirect_le (s : State) (sign : Char) :
    ((s.redirect sign).map Token.weight).sum ≤ s.weight := by
  obtain ⟨mode, held⟩ := s
  unfold State.redirect
  split
  · next d heq =>
      obtain rfl : held = some [d] := heq
      by_cases hd : d.isDigit <;> simp [hd, Token.weight, State.weight]
  · rw [List.map_append, List.sum_append, State.weight_flush]
    simp [Token.weight]

theorem State.weight_add (s : State) (mode : Mode) (t : Text) :
    (s.add mode t).weight = s.weight + t.length := by
  simp [State.add, State.weight]

variable {separates}

/-- A step writes and holds at most one character more than before. -/
theorem weight_step_le (s : State) (c : Char) :
    ((((reader separates).step s c).1).map Token.weight).sum +
      ((reader separates).step s c).2.weight ≤ s.weight + 1 := by
  have hnone : ∀ mode, State.weight ⟨mode, none⟩ = 0 := fun _ => rfl
  have hflush := s.weight_flush
  have hredirect := s.weight_redirect_le c
  have hfresh : State.weight .fresh = 0 := rfl
  have hadd := fun mode t => s.weight_add mode t
  have hheld : ∀ mode, State.weight ⟨mode, s.held⟩ = s.weight := fun _ => rfl
  simp only [reader]
  split
  · simp
  · simp [hadd]
  · split_ifs <;> simp [hadd, hnone, hflush]
  all_goals
    split_ifs <;> simp [hadd, hnone, hflush, hfresh, hheld, Token.weight]
    omega

/-- Outside quotes a character that is not plain is not written. -/
theorem weight_step_le_of_not_isPlain (held : Option Text) {c : Char}
    (h : isPlain separates c = false) :
    ((((reader separates).step ⟨.plain, held⟩ c).1).map Token.weight).sum +
      ((reader separates).step ⟨.plain, held⟩ c).2.weight ≤ State.weight ⟨.plain, held⟩ := by
  have hnone : ∀ mode, State.weight ⟨mode, none⟩ = 0 := fun _ => rfl
  have hflush := State.weight_flush ⟨.plain, held⟩
  have hredirect := State.weight_redirect_le ⟨.plain, held⟩ c
  have hfresh : State.weight .fresh = 0 := rfl
  have hadd := fun mode t => State.weight_add ⟨.plain, held⟩ mode t
  have hheld : ∀ mode, State.weight ⟨mode, held⟩ = State.weight ⟨.plain, held⟩ := fun _ => rfl
  simp only [reader]
  split_ifs with hend hquote hcaret hbehind hnext hsign hseparates
  · simp [hnone, hflush]
  · simp [hadd]
  · simp [hheld]
  · exact absurd hbehind.2 (by simp)
  · simp [hflush, hfresh, Token.weight]
  · simpa [hnone] using hredirect
  · simp [hflush, hfresh]
  · simp only [isPlain, Bool.and_eq_false_iff, decide_eq_false_iff_not, not_not,
      Bool.not_eq_false'] at h
    simp [not_or] at hend hnext hsign
    simp_all

variable (separates) in
theorem weight_run_le (s : State) (t : Text) :
    (((reader separates).run s t).map Token.weight).sum ≤ s.weight + t.length := by
  have hrun := Transducer.weight_run_le (M := reader separates) Token.weight (fun _ => 1)
    State.weight weight_step_le (fun s => (State.weight_flush s).le) s t
  simpa using hrun

theorem isPlain_iff {c : Char} :
    isPlain separates c = true ↔ isSpecial c = false ∧ separates c = false := by
  simp [isPlain, isSpecial]

/-- A plain character goes into the word. -/
theorem step_plain {c : Char} (h : isPlain separates c = true) (held : Option Text) :
    (reader separates).step ⟨.plain, held⟩ c = ([], State.add ⟨.plain, held⟩ .plain [c]) := by
  simp only [isPlain, Bool.and_eq_true, decide_eq_true_eq, String.reduceToList,
    List.mem_cons, List.not_mem_nil, or_false, not_or, Bool.not_eq_true'] at h
  simp [reader, h]

/-- Plain characters go into the word. -/
theorem run_plain {p : Text} (h : ∀ c ∈ p, isPlain separates c = true) (held : Option Text)
    (rest : Text) :
    (reader separates).run ⟨.plain, held⟩ (p ++ rest) =
      (reader separates).run ⟨.plain, if p = [] then held else some (held.getD [] ++ p)⟩
        rest := by
  induction p generalizing held with
  | nil => rfl
  | cons c p ih =>
      obtain ⟨hc, hp⟩ := List.forall_mem_cons.mp h
      rw [List.cons_append, Transducer.run, step_plain hc, List.nil_append, State.add, ih hp]
      by_cases hnil : p = [] <;> simp [hnil]

/-! ## Whole words -/

/-- A text that begins and ends between words is read as these tokens. -/
def Reads (separates : Char → Bool) (t : Text) (ts : List Token) : Prop :=
  (reader separates).advance .fresh t = (ts, .fresh)

theorem Reads.append {s t : Text} {ts us : List Token} (hs : Reads separates s ts)
    (ht : Reads separates t us) : Reads separates (s ++ t) (ts ++ us) := by
  rw [Reads, Transducer.advance_append, hs, ht]

theorem Reads.run {t : Text} {ts : List Token} (h : Reads separates t ts) (rest : Text) :
    (reader separates).run .fresh (t ++ rest) = ts ++ (reader separates).run .fresh rest :=
  Transducer.run_append_of_advance _ h rest

theorem State.flush_mk (mode : Mode) (held : Option Text) :
    State.flush ⟨mode, held⟩ = held.toList.map Token.word := by
  cases held <;> rfl

theorem step_separating {c : Char} (h : isBlank separates c = true) (held : Option Text) :
    (reader separates).step ⟨.plain, held⟩ c = (State.flush ⟨.plain, held⟩, .fresh) := by
  simp only [isBlank, isSpecial, Bool.and_eq_true, Bool.not_eq_true', decide_eq_false_iff_not,
    String.reduceToList, List.mem_cons, List.not_mem_nil, or_false, not_or] at h
  simp [reader, h]

theorem advance_plain {p : Text} (h : ∀ c ∈ p, isPlain separates c = true)
    (held : Option Text) :
    (reader separates).advance ⟨.plain, held⟩ p =
      ([], ⟨.plain, if p = [] then held else some (held.getD [] ++ p)⟩) := by
  induction p generalizing held with
  | nil => rfl
  | cons c p ih =>
      obtain ⟨hc, hp⟩ := List.forall_mem_cons.mp h
      rw [Transducer.advance, step_plain hc, State.add, ih hp]
      by_cases hnil : p = [] <;> simp [hnil]

variable (separates) in
theorem advance_quoted {t : Text} (h : ∀ c ∈ t, c ∉ "\"\n\x00".toList) (w : Text) :
    (reader separates).advance ⟨.quoted, some w⟩ t = ([], ⟨.quoted, some (w ++ t)⟩) := by
  induction t generalizing w with
  | nil => rw [List.append_nil]; rfl
  | cons c t ih =>
      obtain ⟨hc, ht⟩ := List.forall_mem_cons.mp h
      have hstep : (reader separates).step ⟨.quoted, some w⟩ c =
          ([], ⟨.quoted, some (w ++ [c])⟩) := by
        simp only [String.reduceToList, List.mem_cons, List.not_mem_nil, or_false, not_or] at hc
        simp [reader, hc, State.add]
      rw [Transducer.advance, hstep, ih ht, List.append_assoc, List.singleton_append]
      rfl

/-- Plain characters up to a blank are a word. -/
theorem reads_word {p : Text} (hp : ∀ c ∈ p, isPlain separates c = true) (hne : p ≠ [])
    {c : Char} (hc : isBlank separates c = true) : Reads separates (p ++ [c]) [.word p] := by
  rw [Reads, Transducer.advance_append, State.fresh, advance_plain hp, if_neg hne,
    Transducer.advance, step_separating hc]
  rfl

/-- Quotes hold a word together. -/
theorem reads_quoted {t : Text} (ht : ∀ c ∈ t, c ∉ "\"\n\x00".toList) {c : Char}
    (hc : isBlank separates c = true) : Reads separates ('"' :: t ++ ['"', c]) [.word t] := by
  have hopen : (reader separates).step .fresh '"' = ([], ⟨.quoted, some []⟩) := rfl
  have hclose : (reader separates).advance ⟨.quoted, some t⟩ ['"', c] =
      ([.word t], .fresh) := by
    have hquote : (reader separates).step ⟨.quoted, some t⟩ '"' = ([], ⟨.plain, some t⟩) := by
      simp [reader, State.add]
    rw [Transducer.advance, hquote, Transducer.advance, step_separating hc]
    rfl
  have hbody := advance_quoted separates ht []
  rw [List.nil_append] at hbody
  rw [Reads, List.cons_append, Transducer.advance, hopen, Transducer.advance_append, hbody,
    hclose]
  rfl

/-- A text of words with blanks between them is read as words that are made of its
characters, and there is one if not all of it are blanks. -/
theorem exists_words {t : Text}
    (h : ∀ c ∈ t, isPlain separates c = true ∨ isBlank separates c = true) {c : Char}
    (hc : isBlank separates c = true) (held : Option Text) :
    ∃ ws : List Text,
      (reader separates).advance ⟨.plain, held⟩ (t ++ [c]) = (ws.map .word, .fresh) ∧
      (reader separates).run ⟨.plain, held⟩ t = ws.map .word ∧
      (∀ w ∈ ws, ∀ d ∈ w, d ∈ held.getD [] ∨ d ∈ t) ∧
      ((held ≠ none ∨ ∃ d ∈ t, isPlain separates d = true) → ws ≠ []) := by
  induction t generalizing held with
  | nil =>
      refine ⟨held.toList, ?_, State.flush_mk .plain held, ?_, ?_⟩
      · rw [List.nil_append, Transducer.advance, step_separating hc, State.flush_mk]
        exact Prod.ext (List.append_nil _) rfl
      · intro w hw d hd
        obtain rfl := Option.mem_toList.mp hw
        exact .inl hd
      · rintro (hsome | ⟨d, hd, -⟩)
        · simpa using hsome
        · cases hd
  | cons d t ih =>
      obtain ⟨hd, ht⟩ := List.forall_mem_cons.mp h
      rcases hd with hplain | hblank
      · obtain ⟨ws, hadvance, hrun, hmem, hne⟩ := ih ht (some (held.getD [] ++ [d]))
        refine ⟨ws, ?_, ?_, ?_, fun _ => hne (.inl (by simp))⟩
        · rw [List.cons_append, Transducer.advance, step_plain hplain, State.add, hadvance]
          rfl
        · rw [Transducer.run, step_plain hplain, State.add, hrun]
          rfl
        · intro w hw e he
          rcases hmem w hw e he with hheld | hin
          · rcases List.mem_append.mp hheld with hheld | hlast
            · exact .inl hheld
            · exact .inr (List.mem_cons.mpr (.inl (List.mem_singleton.mp hlast)))
          · exact .inr (List.mem_cons_of_mem d hin)
      · obtain ⟨ws, hadvance, hrun, hmem, hne⟩ := ih ht none
        refine ⟨held.toList ++ ws, ?_, ?_, ?_, ?_⟩
        · rw [List.cons_append, Transducer.advance, step_separating hblank, State.fresh,
            hadvance, State.flush_mk, List.map_append]
          rfl
        · rw [Transducer.run, step_separating hblank, State.fresh, hrun, State.flush_mk,
            List.map_append]
        · intro w hw e he
          rcases List.mem_append.mp hw with hw | hw
          · obtain rfl := Option.mem_toList.mp hw
            exact .inl he
          · exact .inr (List.mem_cons_of_mem d ((hmem w hw e he).resolve_left List.not_mem_nil))
        · rintro (hsome | ⟨e, he, hplain⟩)
          · cases held with
            | none => exact absurd rfl hsome
            | some w => exact List.cons_ne_nil w _
          · rcases List.mem_cons.mp he with rfl | he
            · rw [isBlank, Bool.and_eq_true] at hblank
              rw [isPlain, hblank.2, Bool.not_true, Bool.and_false] at hplain
              cases hplain
            · exact List.append_ne_nil_of_right_ne_nil _ (hne (.inr ⟨e, he, hplain⟩))

/-- Without a quote or the end of the line nothing is read as quoted. -/
theorem step_outside {s : State} (hs : s.mode ≠ .quoted ∧ s.mode ≠ .ended) {c : Char}
    (hc : c ∉ "\"\n\x00".toList) :
    ((reader separates).step s c).2.mode ≠ .quoted ∧
      ((reader separates).step s c).2.mode ≠ .ended := by
  simp only [String.reduceToList, List.mem_cons, List.not_mem_nil, or_false, not_or] at hc
  simp only [reader]
  split
  · next hmode => exact absurd hmode hs.2
  · exact ⟨by simp [State.add], by simp [State.add]⟩
  · next hmode => exact absurd hmode hs.1
  all_goals
    rw [if_neg (by simp [hc]), if_neg hc.1]
    split_ifs <;> simp [State.add, State.fresh]

variable (separates) in
theorem advance_outside {t : Text} (ht : ∀ c ∈ t, c ∉ "\"\n\x00".toList) {s : State}
    (hs : s.mode ≠ .quoted ∧ s.mode ≠ .ended) :
    ((reader separates).advance s t).2.mode ≠ .quoted ∧
      ((reader separates).advance s t).2.mode ≠ .ended := by
  induction t generalizing s with
  | nil => exact hs
  | cons c t ih =>
      obtain ⟨hc, ht⟩ := List.forall_mem_cons.mp ht
      exact ih ht (step_outside hs hc)

/-- Only a caret escapes. -/
theorem eq_of_step_escaped {s : State} {c : Char}
    (h : ((reader separates).step s c).2.mode = .escaped) : c = '^' := by
  by_contra hc
  revert h
  simp only [reader]
  split
  · next hmode => simp [hmode]
  · simp [State.add]
  · split_ifs <;> simp [State.add]
  all_goals
    split_ifs <;> simp_all [State.add, State.fresh]

theorem getLast?_of_advance_escaped {t : Text} {s : State} (hs : s.mode ≠ .escaped)
    (h : ((reader separates).advance s t).2.mode = .escaped) : t.getLast? = some '^' := by
  induction t using List.reverseRecOn with
  | nil => exact absurd h hs
  | append_singleton t c _ =>
      rw [Transducer.advance_append] at h
      rw [List.getLast?_concat, eq_of_step_escaped h]

/-- What is not all plain loses a character. -/
theorem weight_run_lt {t : Text} (h : ∃ c ∈ t, isPlain separates c = false)
    (held : Option Text) :
    (((reader separates).run ⟨.plain, held⟩ t).map Token.weight).sum <
      State.weight ⟨.plain, held⟩ + t.length := by
  induction t generalizing held with
  | nil => simp at h
  | cons c t ih =>
      by_cases hc : isPlain separates c = true
      · have hrest : ∃ d ∈ t, isPlain separates d = false := by
          obtain ⟨d, hd, hplain⟩ := h
          rcases List.mem_cons.mp hd with rfl | hd
          · rw [hc] at hplain
            cases hplain
          · exact ⟨d, hd, hplain⟩
        have hone : (reader separates).run ⟨.plain, held⟩ (c :: t) =
            (reader separates).run ⟨.plain, some (held.getD [] ++ [c])⟩ t := by
          have hrun := run_plain (p := [c]) (by simpa using hc) held t
          simpa using hrun
        have hlt := ih hrest (some (held.getD [] ++ [c]))
        rw [hone]
        simp only [State.weight, Option.getD_some, List.length_append, List.length_cons,
          List.length_nil] at hlt ⊢
        omega
      · have hstep := weight_step_le_of_not_isPlain held (Bool.eq_false_iff.mpr hc)
        have hrest := weight_run_le separates ((reader separates).step ⟨.plain, held⟩ c).2 t
        rw [Transducer.run, List.map_append, List.sum_append, List.length_cons]
        omega

/-! ## What commands hold -/

/-- The characters of the words of a command. -/
def Command.weight (c : Command) : ℕ := (c.words.map List.length).sum

/-- Words in front of the first sign are the first words of the first command. -/
theorem commands_words (ws : List Text) (ts : List Token) :
    commands (ws.map .word ++ ts) =
      (commands ts).modifyHead fun c => { c with words := ws ++ c.words } := by
  induction ws with
  | nil =>
      rw [List.map_nil, List.nil_append]
      cases commands ts <;> rfl
  | cons w ws ih =>
      rw [List.map_cons, List.cons_append, commands, ih]
      cases commands ts <;> rfl

theorem commands_ne_nil (ts : List Token) : commands ts ≠ [] := by
  induction ts using commands.induct <;> simp_all [commands]

/-- The words of the first command. -/
def headWords (ts : List Token) : List Text := ((commands ts).head?.map Command.words).getD []

theorem headWords_word (t : Text) (ts : List Token) :
    headWords (.word t :: ts) = t :: headWords ts := by
  obtain ⟨c, cs, hcs⟩ := List.exists_cons_of_ne_nil (commands_ne_nil ts)
  rw [headWords, headWords, commands, hcs]
  rfl

/-- The words of commands are words of the line. -/
theorem word_mem_of_mem_commands {ts : List Token} {c : Command} (hc : c ∈ commands ts)
    {w : Text} (hw : w ∈ c.words) : .word w ∈ ts := by
  induction ts using commands.induct generalizing c with
  | case1 =>
      obtain rfl := List.mem_singleton.mp hc
      cases hw
  | case2 t ts ih =>
      rw [commands] at hc
      cases hcs : commands ts with
      | nil =>
          rw [hcs] at hc
          cases hc
      | cons d ds =>
          rw [hcs, List.modifyHead_cons] at hc
          rcases List.mem_cons.mp hc with rfl | hc
          · rcases List.mem_cons.mp hw with rfl | hw
            · exact List.mem_cons_self
            · exact List.mem_cons_of_mem _ (ih (hcs ▸ List.mem_cons_self) hw)
          · exact List.mem_cons_of_mem _ (ih (hcs ▸ List.mem_cons_of_mem d hc) hw)
  | case3 sign handle t ts ih =>
      rw [commands] at hc
      cases hcs : commands ts with
      | nil =>
          rw [hcs] at hc
          cases hc
      | cons d ds =>
          rw [hcs, List.modifyHead_cons] at hc
          refine List.mem_cons_of_mem _ (List.mem_cons_of_mem _ ?_)
          rcases List.mem_cons.mp hc with rfl | hc
          · have hd : d ∈ commands ts := hcs ▸ List.mem_cons_self
            exact ih hd hw
          · exact ih (hcs ▸ List.mem_cons_of_mem d hc) hw
  | case4 sign handle ts hword ih =>
      rw [commands] at hc
      · exact List.mem_cons_of_mem _ (ih hc hw)
      · exact hword
  | case5 ts ih =>
      rcases List.mem_cons.mp hc with rfl | hc
      · cases hw
      · exact List.mem_cons_of_mem _ (ih hc hw)

/-- They come from the words in front of a sign or from those behind it. -/
theorem word_mem_or_of_mem_headWords {ts : List Token} (hts : ∀ t ∈ ts.head?, ∀ w, t ≠ .word w)
    {w : Text} {us : List Token} (h : w ∈ headWords (us ++ ts)) :
    .word w ∈ us ∨ w ∈ headWords ts := by
  induction us using commands.induct with
  | case1 => exact .inr h
  | case2 t us ih =>
      rw [List.cons_append, headWords_word] at h
      rcases List.mem_cons.mp h with rfl | h
      · exact .inl List.mem_cons_self
      · exact (ih h).imp_left (List.mem_cons_of_mem _)
  | case3 sign handle t us ih =>
      have hsame : headWords (.redirect sign handle :: .word t :: us ++ ts) =
          headWords (us ++ ts) := by
        simp only [headWords, List.cons_append, commands]
        cases commands (us ++ ts) <;> rfl
      rw [hsame] at h
      exact (ih h).imp_left fun hin => List.mem_cons_of_mem _ (List.mem_cons_of_mem _ hin)
  | case4 sign handle us hword ih =>
      have hsame : headWords (.redirect sign handle :: us ++ ts) = headWords (us ++ ts) := by
        rw [headWords, List.cons_append, commands]
        · rfl
        · intro t vs heq
          cases us with
          | nil =>
              rw [List.nil_append] at heq
              exact hts (.word t) (by rw [heq]; rfl) t rfl
          | cons u us => exact hword t us (by rw [(List.cons.inj heq).1])
      rw [hsame] at h
      exact (ih h).imp_left (List.mem_cons_of_mem _)
  | case5 us ih => cases h

theorem weight_modifyHead_word_le (t : Text) (cs : List Command) :
    (((cs.modifyHead (Command.word t))).map Command.weight).sum ≤
      t.length + (cs.map Command.weight).sum := by
  cases cs with
  | nil => simp
  | cons c cs => simp [Command.weight, Command.word, Nat.add_assoc]

theorem weight_commands_le (ts : List Token) :
    ((commands ts).map Command.weight).sum ≤ (ts.map Token.weight).sum := by
  induction ts using commands.induct with
  | case1 => simp [commands, Command.weight]
  | case2 t ts ih =>
      have hle := weight_modifyHead_word_le t (commands ts)
      simp only [commands, List.map_cons, List.sum_cons, Token.weight]
      omega
  | case3 sign handle t ts ih =>
      have hsame : ((commands ts).modifyHead (Command.redirect sign handle t)).map
          Command.weight = (commands ts).map Command.weight := by
        cases commands ts <;> rfl
      simp only [commands, hsame, List.map_cons, List.sum_cons, Token.weight]
      omega
  | case4 sign handle ts hword ih =>
      rw [commands]
      · simpa [Token.weight] using ih
      · exact hword
  | case5 ts ih => simpa [commands, Command.weight, Token.weight] using ih

end Cmd
