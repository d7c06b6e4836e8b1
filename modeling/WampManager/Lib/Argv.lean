/-
# Arguments of a program

The command interpreter cuts a line at its operators and gives a program its part of
the line as it stands, with the quotes. The runtime of the program splits that part at
blanks: quotes group, and in front of a quote two backslashes are one and a single
backslash makes the quote a character. A text that is handed through both is written
in pieces, some of them in quotes that are escaped.
-/

import WampManager.Lib.CmdLine

namespace Cmd

/-! ## Cutting a line -/

/-- The part that is being read becomes longer by a character. Quotes are kept, and so
is the digit in front of a redirection. -/
def cutter : Transducer State Char Token where
  step s c :=
    match s.mode with
    | .ended => ([], s)
    | .escaped => ([], s.add .plain [c])
    | .quoted =>
        if c = '\n' ∨ c = '\x00' then (s.flush, ⟨.ended, none⟩)
        else if c = '"' then ([], s.add .plain [c])
        else ([], s.add .quoted [c])
    | .plain | .behind =>
        if c = '\n' ∨ c = '\x00' then (s.flush, ⟨.ended, none⟩)
        else if c = '"' then ([], s.add .quoted [c])
        else if c = '^' then ([], ⟨.escaped, s.held⟩)
        else if c = '&' ∧ s.mode = .behind then ([], s.add .plain [c])
        else if c = '&' ∨ c = '|' then (s.flush ++ [.next], .fresh)
        else if c = '<' ∨ c = '>' then (s.flush ++ [.redirect c none], ⟨.behind, none⟩)
        else ([], s.add .plain [c])
  finish s := s.flush

/-- Cut a line at its operators. -/
def cut (t : Text) : List Token := cutter.run .fresh t

/-- Outside quotes a part goes on up to the next special character. -/
theorem advance_cutter_plain {t : Text} (h : ∀ c ∈ t, isSpecial c = false)
    (held : Option Text) :
    cutter.advance ⟨.plain, held⟩ t =
      ([], ⟨.plain, if t = [] then held else some (held.getD [] ++ t)⟩) := by
  induction t generalizing held with
  | nil => rfl
  | cons c t ih =>
      obtain ⟨hc, ht⟩ := List.forall_mem_cons.mp h
      have hstep : cutter.step ⟨.plain, held⟩ c =
          ([], ⟨.plain, some (held.getD [] ++ [c])⟩) := by
        simp only [isSpecial, String.reduceToList, List.mem_cons, List.not_mem_nil, or_false,
          decide_eq_false_iff_not, not_or] at hc
        simp [cutter, hc, State.add]
      rw [Transducer.advance, hstep, ih ht]
      by_cases hnil : t = [] <;> simp [hnil]

/-- In quotes it goes on up to a quote or the end of the line. -/
theorem advance_cutter_quoted {t : Text} (h : ∀ c ∈ t, c ∉ "\"\n\x00".toList) (w : Text) :
    cutter.advance ⟨.quoted, some w⟩ t = ([], ⟨.quoted, some (w ++ t)⟩) := by
  induction t generalizing w with
  | nil => rw [List.append_nil]; rfl
  | cons c t ih =>
      obtain ⟨hc, ht⟩ := List.forall_mem_cons.mp h
      have hstep : cutter.step ⟨.quoted, some w⟩ c = ([], ⟨.quoted, some (w ++ [c])⟩) := by
        simp only [String.reduceToList, List.mem_cons, List.not_mem_nil, or_false,
          not_or] at hc
        simp [cutter, hc, State.add]
      rw [Transducer.advance, hstep, ih ht, List.append_assoc, List.singleton_append]
      rfl

/-! ## Carets -/

/-- The characters of a word that satisfy a condition. -/
def Token.count (p : Char → Bool) : Token → ℕ
  | .word t => t.countP p
  | _ => 0

/-- The same for the word that is being read. -/
def State.count (p : Char → Bool) (s : State) : ℕ := (s.held.getD []).countP p

theorem State.count_flush (p : Char → Bool) (s : State) :
    (s.flush.map (Token.count p)).sum = s.count p := by
  obtain ⟨mode, held⟩ := s
  cases held <;> simp [State.flush, State.count, Token.count]

theorem State.count_add (p : Char → Bool) (s : State) (mode : Mode) (t : Text) :
    (s.add mode t).count p = s.count p + t.countP p := by
  simp [State.add, State.count]

/-- What is cut has no more carets than the line. -/
theorem count_cut_le (t : Text) :
    ((cut t).map (Token.count (· == '^'))).sum ≤ t.count '^' := by
  have hrun := Transducer.weight_run_le_count (M := cutter) (Token.count (· == '^'))
    (State.count (· == '^')) '^'
    (fun s c => by
      have hflush := s.count_flush (· == '^')
      have hadd := fun mode t => s.count_add (· == '^') mode t
      have hnone : ∀ mode, State.count (· == '^') ⟨mode, none⟩ = 0 := fun _ => rfl
      have hheld : ∀ mode, State.count (· == '^') ⟨mode, s.held⟩ = s.count (· == '^') :=
        fun _ => rfl
      have hfresh : State.count (· == '^') .fresh = 0 := rfl
      simp only [cutter]
      split
      all_goals
        split_ifs <;>
          simp_all [Token.count])
    (fun s => (s.count_flush _).le) .fresh t
  have hfresh : State.count (· == '^') .fresh = 0 := rfl
  rwa [hfresh, Nat.zero_add] at hrun

/-- A character that a word holds only behind a caret, or a caret. -/
def isSign (c : Char) : Bool := c ∈ "\"^\n\x00".toList

theorem State.count_redirect_le (p : Char → Bool) (s : State) (sign : Char) :
    ((s.redirect sign).map (Token.count p)).sum ≤ s.count p := by
  obtain ⟨mode, held⟩ := s
  unfold State.redirect
  split
  · next d heq =>
      obtain rfl : held = some [d] := heq
      by_cases hd : d.isDigit <;> simp [hd, Token.count, State.count]
  · rw [List.map_append, List.sum_append, State.count_flush]
    simp [Token.count]

/-- The signs that the reader holds; behind a caret there may be one more. -/
def State.signs (s : State) : ℕ := s.count isSign + if s.mode = .escaped then 1 else 0

/-- A step writes and holds no more signs than before, but one for a caret. -/
theorem signs_step_le {separates : Char → Bool} (s : State) (c : Char) :
    ((((reader separates).step s c).1).map (Token.count isSign)).sum +
      ((reader separates).step s c).2.signs ≤ s.signs + if c = '^' then 1 else 0 := by
  have hflush := s.count_flush isSign
  have hredirect := s.count_redirect_le isSign c
  have hnone : ∀ mode, State.count isSign ⟨mode, none⟩ = 0 := fun _ => rfl
  have hheld : ∀ mode, State.count isSign ⟨mode, s.held⟩ = s.count isSign := fun _ => rfl
  have hadd := fun mode t => s.count_add isSign mode t
  have hmode : ∀ mode t, (s.add mode t).mode = mode := fun _ _ => rfl
  have hfresh : State.signs .fresh = 0 := rfl
  have hone : [c].countP isSign ≤ 1 := List.countP_le_length
  have hzero : c ≠ '"' → c ≠ '^' → ¬ (c = '\n' ∨ c = '\x00') → [c].countP isSign = 0 := by
    intro hquote hcaret hend
    rw [not_or] at hend
    simp [isSign, hquote, hcaret, hend]
  simp only [reader]
  split
  · exact (Nat.zero_add _).le.trans (Nat.le_add_right _ _)
  · next hescaped =>
      simp only [State.signs, hadd, hmode, hescaped, List.map_nil, List.sum_nil, reduceCtorEq,
        if_false, if_true]
      omega
  · split_ifs <;> simp_all [State.signs]
  all_goals
    split_ifs <;> simp_all [State.signs, Token.count]

/-- The signs in the words of a line are no more than the carets in it, as each of them
but a caret in quotes takes a caret. -/
theorem count_read_le (separates : Char → Bool) (t : Text) :
    ((read separates t).map (Token.count isSign)).sum ≤ t.count '^' := by
  have hrun := Transducer.weight_run_le_count (M := reader separates) (Token.count isSign)
    State.signs '^' signs_step_le
    (fun s => (s.count_flush isSign).le.trans (Nat.le_add_right _ _)) .fresh t
  have hfresh : State.signs .fresh = 0 := rfl
  rwa [hfresh, Nat.zero_add] at hrun

theorem countP_isSign_le_of_mem_read {separates : Char → Bool} {w t : Text}
    (h : .word w ∈ read separates t) : w.countP isSign ≤ t.count '^' := by
  have hsum := count_read_le separates t
  obtain ⟨front, back, heq⟩ := List.append_of_mem h
  rw [heq, List.map_append, List.sum_append, List.map_cons, List.sum_cons, Token.count] at hsum
  omega

theorem not_mem_of_not_isSpecial {c : Char} (h : isSpecial c = false) :
    c ∉ "\"\n\x00".toList := by
  intro hmem
  simp only [String.reduceToList, List.mem_cons, List.not_mem_nil, or_false] at hmem
  rcases hmem with rfl | rfl | rfl <;> cases h

/-- A text whose signs are no more than its carets has no other signs. -/
theorem not_mem_of_countP_isSign_le {t : Text} (h : t.countP isSign ≤ t.count '^') :
    ∀ c ∈ t, c ∉ "\"\n\x00".toList := by
  intro c hc hmem
  obtain ⟨front, back, rfl⟩ := List.append_of_mem hc
  have hle : ∀ u : Text, u.count '^' ≤ u.countP isSign := by
    intro u
    refine List.countP_mono_left fun d _ hd => ?_
    rw [beq_iff_eq.mp hd]
    decide
  have hsign : isSign c = true ∧ c ≠ '^' := by
    simp only [String.reduceToList, List.mem_cons, List.not_mem_nil, or_false] at hmem
    rcases hmem with rfl | rfl | rfl <;> decide
  rw [List.countP_append, List.countP_cons_of_pos hsign.1, List.count_append,
    List.count_cons_of_ne hsign.2] at h
  have hfront := hle front
  have hback := hle back
  omega

end Cmd

namespace Argv

/-! ## Splitting into arguments -/

/-- The argument that is being read. Backslashes wait for what is behind them. -/
structure State where
  quoted : Bool
  slashes : ℕ
  held : Option Text

namespace State

/-- Between arguments. -/
def fresh : State := ⟨false, 0, none⟩

/-- The argument with so many backslashes behind it. -/
def text (s : State) (slashes : ℕ) : Text := s.held.getD [] ++ List.replicate slashes '\\'

/-- The argument that ends here. -/
def flush (s : State) : List Text :=
  if s.held.isNone && s.slashes == 0 then [] else [s.text s.slashes]

end State

/-- The reader of arguments. -/
def reader : Transducer State Char Text where
  step s c :=
    if c = '\\' then ([], { s with slashes := s.slashes + 1 })
    else if c = '"' then
      if s.slashes % 2 = 1 then ([], ⟨s.quoted, 0, some (s.text (s.slashes / 2) ++ [c])⟩)
      else ([], ⟨!s.quoted, 0, some (s.text (s.slashes / 2))⟩)
    else if (c = ' ' ∨ c = '\t') ∧ s.quoted = false then (s.flush, .fresh)
    else ([], ⟨s.quoted, 0, some (s.text s.slashes ++ [c])⟩)
  finish s := s.flush

/-- The arguments of a program. -/
def split (t : Text) : List Text := reader.run .fresh t

/-- A character that an argument holds as it is. -/
def isLiteral (quoted : Bool) (c : Char) : Bool := c != '"' && (quoted || c ∉ [' ', '\t'])

/-- Such characters go into the argument, and backslashes do where another one of them
is the last. -/
theorem advance_literal {q : Bool} {t : Text} (h : ∀ c ∈ t, isLiteral q c = true)
    (hne : t ≠ []) (hlast : t.getLast? ≠ some '\\') (n : ℕ) (held : Option Text) :
    reader.advance ⟨q, n, held⟩ t =
      ([], ⟨q, 0, some (held.getD [] ++ List.replicate n '\\' ++ t)⟩) := by
  induction t generalizing n held with
  | nil => exact absurd rfl hne
  | cons c t ih =>
      obtain ⟨hc, ht⟩ := List.forall_mem_cons.mp h
      rw [isLiteral, Bool.and_eq_true, bne_iff_ne, Bool.or_eq_true, decide_eq_true_eq] at hc
      have hblank : ¬ ((c = ' ' ∨ c = '\t') ∧ q = false) := by
        rintro ⟨hblank, rfl⟩
        rcases hc.2 with hq | hc
        · cases hq
        · simp [hblank] at hc
      by_cases hslash : c = '\\'
      · subst hslash
        have hstep : reader.step ⟨q, n, held⟩ '\\' = ([], ⟨q, n + 1, held⟩) := rfl
        cases t with
        | nil => exact absurd rfl hlast
        | cons d t =>
            rw [Transducer.advance, hstep, ih ht (List.cons_ne_nil d t)
              (by rwa [List.getLast?_cons_cons] at hlast)]
            simp [List.replicate_succ']
      · have hstep : reader.step ⟨q, n, held⟩ c =
            ([], ⟨q, 0, some (held.getD [] ++ List.replicate n '\\' ++ [c])⟩) := by
          simp only [reader, if_neg hslash, if_neg hc.1, if_neg hblank, State.text]
        cases t with
        | nil => rw [Transducer.advance, hstep]; rfl
        | cons d t =>
            rw [Transducer.advance, hstep, ih ht (List.cons_ne_nil d t)
              (by rwa [List.getLast?_cons_cons] at hlast)]
            simp

/-- Where arguments are separated. -/
def isBlank (c : Char) : Bool := c == ' ' || c == '\t'

/-- An argument without characters is written only for a pair of quotes. -/
theorem State.flush_of_held {n : ℕ} {held : Option Text} (h : held ≠ some []) :
    State.flush ⟨false, n, held⟩ = [State.text ⟨false, n, held⟩ n].filter (· ≠ []) := by
  cases held with
  | none => cases n <;> simp [State.flush, State.text, List.replicate_succ]
  | some w =>
      have hne : w ≠ [] := fun hnil => h (congrArg some hnil)
      simp [State.flush, State.text, hne]

/-- Without quotes the argument that is being read goes on up to the next blank. -/
theorem run_of_no_quote {t : Text} (h : '"' ∉ t) {n : ℕ} {held : Option Text}
    (hheld : held ≠ some [])
    (hplain : ∀ c ∈ State.text ⟨false, n, held⟩ n, isBlank c = false) :
    reader.run ⟨false, n, held⟩ t =
      ((State.text ⟨false, n, held⟩ n ++ t).splitOnP isBlank).filter (· ≠ []) := by
  induction t generalizing n held with
  | nil =>
      rw [List.append_nil, List.splitOnP_eq_singleton hplain, ← State.flush_of_held hheld]
      rfl
  | cons c t ih =>
      obtain ⟨hc, ht⟩ := not_or.mp (List.mem_cons.not.mp h)
      -- a character that is no blank goes into the argument
      have hword : ∀ n' held', held' ≠ some [] → isBlank c = false →
          State.text ⟨false, n', held'⟩ n' = State.text ⟨false, n, held⟩ n ++ [c] →
          reader.step ⟨false, n, held⟩ c = ([], ⟨false, n', held'⟩) →
          reader.run ⟨false, n, held⟩ (c :: t) =
            ((State.text ⟨false, n, held⟩ n ++ c :: t).splitOnP isBlank).filter (· ≠ []) := by
        intro n' held' hheld' hblank htext hstep
        have hplain' : ∀ d ∈ State.text ⟨false, n', held'⟩ n', isBlank d = false := by
          rw [htext]
          exact List.forall_mem_append.mpr ⟨hplain, fun d hd => List.mem_singleton.mp hd ▸ hblank⟩
        rw [Transducer.run, hstep, List.nil_append, ih ht hheld' hplain', htext,
          List.append_assoc]
        rfl
      by_cases hslash : c = '\\'
      · subst hslash
        exact hword (n + 1) held hheld (by decide) (by simp [State.text, List.replicate_succ']) rfl
      · by_cases hblank : isBlank c = true
        · have hstep : reader.step ⟨false, n, held⟩ c =
              (State.flush ⟨false, n, held⟩, .fresh) := by
            have hor : c = ' ' ∨ c = '\t' := by simpa [isBlank] using hblank
            simp [reader, hslash, Ne.symm hc, hor]
          have hrest : reader.run .fresh t = (t.splitOnP isBlank).filter (· ≠ []) :=
            ih ht (Option.some_ne_none _).symm fun _ hmem => absurd hmem List.not_mem_nil
          rw [Transducer.run, hstep, hrest, List.splitOnP_append_cons _ _ hblank,
            List.filter_append, List.splitOnP_eq_singleton hplain, ← State.flush_of_held hheld]
        · have hnot : ¬ (c = ' ' ∨ c = '\t') := by simpa [isBlank] using hblank
          refine hword 0 (some (State.text ⟨false, n, held⟩ n ++ [c])) (by simp)
            ((Bool.not_eq_true _).mp hblank) (by simp [State.text]) ?_
          simp [reader, hslash, Ne.symm hc, hnot]

/-- Without quotes the arguments are what stands between blanks. -/
theorem split_of_no_quote {t : Text} (h : '"' ∉ t) :
    split t = (t.splitOnP isBlank).filter (· ≠ []) :=
  run_of_no_quote h (Option.some_ne_none _).symm fun _ hmem => absurd hmem List.not_mem_nil

/-- No sign but a quote or a backslash is written or lost. -/
theorem count_split_le (t : Text) :
    ((split t).map (List.count '^')).sum ≤ t.count '^' := by
  have hflush : ∀ s : State, (s.flush.map (List.count '^')).sum ≤
      (s.held.getD []).count '^' := by
    intro s
    unfold State.flush
    split
    · simp
    · simp [State.text, List.count_replicate]
  have hrun := Transducer.weight_run_le_count (M := reader) (List.count '^')
    (fun s => (s.held.getD []).count '^') '^'
    (fun s c => by
      have hs := hflush s
      simp only [reader]
      split_ifs <;>
        simp_all [State.text, State.fresh, List.count_replicate]) hflush .fresh t
  have hfresh : (State.fresh.held.getD []).count '^' = 0 := rfl
  rwa [hfresh, Nat.zero_add] at hrun

end Argv

/-! ## Pieces -/

/-- A piece of a text that is handed through quotes. -/
inductive Piece
  | text (t : Text)
  | quoted (t : Text)

namespace Piece

/-- The text of a piece. -/
def content : Piece → Text
  | .text t => t
  | .quoted t => t

/-- What is written. -/
def source : Piece → Text
  | .text t => t
  | .quoted t => "\\\"".toList ++ t ++ "\\\"".toList

/-- What is meant. -/
def meant : Piece → Text
  | .text t => t
  | .quoted t => '"' :: t ++ ['"']

/-- A piece that is handed through as it is meant. -/
structure Safe (p : Piece) : Prop where
  plain : ∀ c ∈ p.content, Cmd.isSpecial c = false
  last : p.content.getLast? ≠ some '\\'

instance (p : Piece) : Decidable p.Safe :=
  decidable_of_iff ((∀ c ∈ p.content, Cmd.isSpecial c = false) ∧ p.content.getLast? ≠ some '\\')
    ⟨fun ⟨hplain, hlast⟩ => ⟨hplain, hlast⟩, fun h => ⟨h.plain, h.last⟩⟩

/-- In quotes a safe piece goes through the interpreter unchanged. -/
theorem Safe.advance_cutter {p : Piece} (h : p.Safe) (w : Text) :
    Cmd.cutter.advance ⟨.quoted, some w⟩ p.source = ([], ⟨.quoted, some (w ++ p.source)⟩) := by
  cases p with
  | text t => exact Cmd.advance_cutter_quoted (fun c hc => Cmd.not_mem_of_not_isSpecial
      (h.plain c hc)) w
  | quoted t =>
      have hopen : Cmd.cutter.advance ⟨.quoted, some w⟩ "\\\"".toList =
          ([], ⟨.plain, some (w ++ "\\\"".toList)⟩) := by
        simp [Transducer.advance, Cmd.cutter, Cmd.State.add]
      have hclose : ∀ v, Cmd.cutter.advance ⟨.plain, some v⟩ "\\\"".toList =
          ([], ⟨.quoted, some (v ++ "\\\"".toList)⟩) := by
        intro v
        simp [Transducer.advance, Cmd.cutter, Cmd.State.add]
      have hbody : ∀ v, Cmd.cutter.advance ⟨.plain, some v⟩ t =
          ([], ⟨.plain, some (v ++ t)⟩) := by
        intro v
        have hplain : ∀ c ∈ t, Cmd.isSpecial c = false := h.plain
        rw [Cmd.advance_cutter_plain hplain]
        by_cases hnil : t = [] <;> simp [hnil]
      simp only [source, Transducer.advance_append, hopen, hbody, hclose, List.append_nil,
        List.append_assoc]

/-- The program finds what is meant. -/
theorem Safe.advance_reader {p : Piece} (h : p.Safe) (w : Text) :
    Argv.reader.advance ⟨true, 0, some w⟩ p.source = ([], ⟨true, 0, some (w ++ p.meant)⟩) := by
  have hcontent : ∀ w, Argv.reader.advance ⟨true, 0, some w⟩ p.content =
      ([], ⟨true, 0, some (w ++ p.content)⟩) := by
    intro w
    have hliteral : ∀ c ∈ p.content, Argv.isLiteral true c = true := by
      intro c hc
      have hquote : c ≠ '"' := by
        rintro rfl
        cases h.plain '"' hc
      simp [Argv.isLiteral, hquote]
    by_cases hne : p.content = []
    · rw [hne, List.append_nil]
      rfl
    · rw [Argv.advance_literal hliteral hne h.last]
      simp
  have hquote : ∀ w, Argv.reader.advance ⟨true, 0, some w⟩ "\\\"".toList =
      ([], ⟨true, 0, some (w ++ ['"'])⟩) := by
    intro w
    simp [Transducer.advance, Argv.reader, Argv.State.text]
  cases p with
  | text t => exact hcontent w
  | quoted t =>
      have hbody := hcontent (w ++ ['"'])
      simp only [content] at hbody
      simp only [source, meant, Transducer.advance_append, hquote, hbody, List.nil_append,
        List.append_assoc, List.cons_append]

theorem Safe.not_mem_source {p : Piece} (h : p.Safe) : '^' ∉ p.source := by
  have hcontent : '^' ∉ p.content := fun hmem => nomatch h.plain '^' hmem
  cases p with
  | text t => exact hcontent
  | quoted t =>
      simp only [source, List.mem_append, not_or]
      exact ⟨⟨by decide, hcontent⟩, by decide⟩

/-- The same for pieces one behind the other. -/
theorem advance_cutter {ps : List Piece} (h : ∀ p ∈ ps, p.Safe) (w : Text) :
    Cmd.cutter.advance ⟨.quoted, some w⟩ (ps.flatMap source) =
      ([], ⟨.quoted, some (w ++ ps.flatMap source)⟩) := by
  induction ps generalizing w with
  | nil => rw [List.flatMap_nil, List.append_nil]; rfl
  | cons p ps ih =>
      obtain ⟨hp, hps⟩ := List.forall_mem_cons.mp h
      rw [List.flatMap_cons, Transducer.advance_append, hp.advance_cutter, ih hps,
        List.append_assoc]
      rfl

theorem advance_reader {ps : List Piece} (h : ∀ p ∈ ps, p.Safe) (w : Text) :
    Argv.reader.advance ⟨true, 0, some w⟩ (ps.flatMap source) =
      ([], ⟨true, 0, some (w ++ ps.flatMap meant)⟩) := by
  induction ps generalizing w with
  | nil => rw [List.flatMap_nil, List.flatMap_nil, List.append_nil]; rfl
  | cons p ps ih =>
      obtain ⟨hp, hps⟩ := List.forall_mem_cons.mp h
      rw [List.flatMap_cons, List.flatMap_cons, Transducer.advance_append, hp.advance_reader,
        ih hps, List.append_assoc]
      rfl

end Piece
