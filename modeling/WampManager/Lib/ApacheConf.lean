/-
# Reading Apache configuration

A configuration is read line by line: a backslash at the end of a line joins the next
one to it, and each line that is neither blank nor a comment is a directive with its
arguments. In quotation marks a backslash takes along a mark or a backslash behind it;
without them two backslashes say one. The module says which lines read back as the
directives they are, and that a list of lines does exactly if each of them does.
-/

import Mathlib.Algebra.Order.BigOperators.Group.List
import Mathlib.Algebra.Order.Group.Nat
import Mathlib.Data.List.Chain
import WampManager.Lib.Text
import WampManager.Lib.Transducer

namespace ApacheConf

/-! ## Words -/

/-- White space. -/
def isSpace (c : Char) : Bool :=
  c == ' ' || c == '\t' || c == '\n' || c == '\x0b' || c == '\x0c' || c == '\r'

/-- What a word without quotation marks says. -/
def unescape : Text → Text
  | [] => []
  | [c] => [c]
  | c :: d :: t =>
      if c = '\\' ∧ d = '\\' then '\\' :: unescape t else c :: unescape (d :: t)

/-- Where reading stands: between words, in a word as it is written, in quotation marks
with what was said there, or behind a backslash in them. -/
inductive State
  | gap
  | word (raw : Text)
  | quoted (quote : Char) (said : Text)
  | slash (quote : Char) (said : Text)

/-- The reader of words; a quoted word that is never closed ends with the line. -/
def reader : Transducer State Char Text where
  step
    | .gap, c =>
        ([], if isSpace c then .gap else if c = '"' ∨ c = '\'' then .quoted c [] else .word [c])
    | .word raw, c => if isSpace c then ([unescape raw], .gap) else ([], .word (raw ++ [c]))
    | .quoted quote said, c =>
        if c = quote then ([said], .gap)
        else ([], if c = '\\' then .slash quote said else .quoted quote (said ++ [c]))
    | .slash quote said, c =>
        ([], .quoted quote (said ++ if c = quote ∨ c = '\\' then [c] else ['\\', c]))
  finish
    | .gap => []
    | .word raw => [unescape raw]
    | .quoted _ said => [said]
    | .slash _ said => [said ++ ['\\']]

/-- The words of a text. -/
def words (t : Text) : List Text := reader.run .gap t

/-! ## Lines -/

/-- A directive, or the head or end of a section without its brackets at the right. -/
structure Statement where
  name : Text
  arguments : List Text
  deriving DecidableEq

/-- The line without white space around it. -/
def trim (l : Text) : Text := (l.dropWhile isSpace).rdropWhile isSpace

/-- What is read of a line: nothing of a comment, and of the head of a section what
stands before the last bracket. -/
def directive (l : Text) : Text :=
  if l.head? = some '#' then []
  else if l.head? = some '<' then (l.rdropWhile (· ≠ '>')).dropLast
  else l

/-- The statement of a line. -/
def statementOf (l : Text) : Option Statement :=
  match words (directive (trim l)) with
  | [] => none
  | name :: arguments => some ⟨name, arguments⟩

/-- A backslash stands at the end of the line. -/
def continued (l : Text) : Bool :=
  l.getLast? == some '\\' || (l.getLast? == some '\r' && l.dropLast.getLast? == some '\\')

/-- A continued line and the one behind it. -/
def joined (l next : Text) : Text :=
  (if l.getLast? = some '\r' then l.dropLast.dropLast else l.dropLast) ++ next

/-- The lines once continued ones are joined. -/
def logical : Text → List Text → List Text
  | l, [] => [l]
  | l, next :: ls => if continued l then logical (joined l next) ls else l :: logical next ls

/-- The statements of a list of lines. -/
def readLines : List Text → List Statement
  | [] => []
  | l :: ls => (logical l ls).filterMap statementOf

/-- The statements of a configuration. -/
def read (t : Text) : List Statement := readLines (t.splitOn '\n')

/-! ## Lines one by one -/

/-- A line makes a statement by itself. -/
def Says (l : Text) (s : Statement) : Prop := continued l = false ∧ statementOf l = some s

instance (l : Text) (s : Statement) : Decidable (Says l s) :=
  inferInstanceAs (Decidable (_ ∧ _))

/-- The lines that are not empty. -/
def full (ls : List Text) : ℕ := ls.countP (· ≠ [])

theorem full_cons {l : Text} (hl : l ≠ []) (ls : List Text) : full (l :: ls) = full ls + 1 :=
  List.countP_cons_of_pos (decide_eq_true hl)

theorem full_blank (ls : List Text) : full ([] :: ls) = full ls :=
  List.countP_cons_of_neg (by simp)

theorem full_append (ls ls' : List Text) : full (ls ++ ls') = full ls + full ls' :=
  List.countP_append

theorem full_map_fst {lines : List (Text × Statement)} (h : ∀ l ∈ lines, l.1 ≠ []) :
    full (lines.map Prod.fst) = lines.length := by
  rw [full, List.countP_eq_length.mpr, List.length_map]
  simpa using h

theorem length_filterMap_logical_le (l : Text) (ls : List Text) :
    ((logical l ls).filterMap statementOf).length ≤ (if l = [] then 0 else 1) + full ls := by
  induction ls generalizing l with
  | nil =>
      split_ifs with hl
      · subst hl
        exact le_rfl
      · exact List.length_filterMap_le _ _
  | cons next ls ih =>
      rw [logical]
      by_cases hcontinued : continued l = true
      · have hl : l ≠ [] := by
          rintro rfl
          cases hcontinued
        have hjoined := ih (joined l next)
        have hone : (if joined l next = [] then 0 else 1) ≤ 1 := by
          split_ifs <;> omega
        have hfull : full ls ≤ full (next :: ls) :=
          (List.sublist_cons_self next ls).countP_le
        rw [if_pos hcontinued, if_neg hl]
        omega
      · have hfull : full (next :: ls) = (if next = [] then 0 else 1) + full ls := by
          split_ifs with hnext
          · rw [hnext, full_blank, Nat.zero_add]
          · rw [full_cons hnext, Nat.add_comm]
        have hfirst : ([l].filterMap statementOf).length ≤ if l = [] then 0 else 1 := by
          split_ifs with hl
          · subst hl
            exact le_rfl
          · exact List.length_filterMap_le _ _
        have hrest := ih next
        rw [if_neg hcontinued, ← List.singleton_append, List.filterMap_append,
          List.length_append, hfull]
        omega

theorem length_readLines_le (ls : List Text) : (readLines ls).length ≤ full ls := by
  cases ls with
  | nil => exact le_rfl
  | cons l ls =>
      have hle := length_filterMap_logical_le l ls
      rw [readLines]
      split_ifs at hle with hl
      · rw [hl, full_blank]
        rw [hl] at hle
        omega
      · rw [full_cons hl]
        omega

/-- A line that makes a statement by itself. -/
theorem readLines_cons {l : Text} {s : Statement} (h : Says l s) (next : Text) (ls : List Text) :
    readLines (l :: next :: ls) = s :: readLines (next :: ls) := by
  rw [readLines, logical, if_neg (by simp [h.1]), List.filterMap_cons, h.2]
  rfl

/-- An empty line makes none. -/
theorem readLines_blank (next : Text) (ls : List Text) :
    readLines ([] :: next :: ls) = readLines (next :: ls) := rfl

/-- In front of lines that make a statement each, a line makes its own by itself: had it
been joined to the next one, a statement would be missing. -/
theorem readLines_cons_iff {l next : Text} {ls : List Text} {s : Statement}
    {rest : List Statement} (hnext : next ≠ []) (hrest : rest.length = full (next :: ls)) :
    readLines (l :: next :: ls) = s :: rest ↔ Says l s ∧ readLines (next :: ls) = rest := by
  have hfull := full_cons hnext ls
  have hlines : continued l = false → readLines (l :: next :: ls) =
      (statementOf l).toList ++ readLines (next :: ls) := by
    intro hcontinued
    rw [readLines, logical, if_neg (by simp [hcontinued]), List.filterMap_cons]
    cases statementOf l <;> rfl
  constructor
  · intro h
    have hcontinued : continued l = false := by
      by_contra hjoin
      have hle := length_filterMap_logical_le (joined l next) ls
      rw [readLines, logical, if_pos (by simpa using hjoin)] at h
      rw [h, List.length_cons, hrest, hfull] at hle
      split_ifs at hle <;> omega
    rw [hlines hcontinued] at h
    cases hstatement : statementOf l with
    | none =>
        have hle := length_readLines_le (next :: ls)
        rw [hstatement, Option.toList_none, List.nil_append] at h
        rw [h, List.length_cons, hrest] at hle
        omega
    | some s' =>
        rw [hstatement, Option.toList_some, List.singleton_append] at h
        obtain ⟨rfl, hlast⟩ := List.cons.inj h
        exact ⟨⟨hcontinued, hstatement⟩, hlast⟩
  · rintro ⟨hmeant, rfl⟩
    exact readLines_cons hmeant next ls

/-- Lines in front of others read as they are meant exactly if each of them does. -/
theorem readLines_append_iff {lines : List (Text × Statement)} (hlines : ∀ l ∈ lines, l.1 ≠ [])
    {next : Text} {ls : List Text} {rest : List Statement} (hnext : next ≠ [])
    (hrest : rest.length = full (next :: ls)) :
    readLines (lines.map Prod.fst ++ next :: ls) = lines.map Prod.snd ++ rest ↔
      (∀ l ∈ lines, Says l.1 l.2) ∧ readLines (next :: ls) = rest := by
  induction lines with
  | nil => simp
  | cons l lines ih =>
      have htail : ∀ l' ∈ lines, l'.1 ≠ [] := fun l' hl' => hlines l' (List.mem_cons_of_mem l hl')
      have hlength : (lines.map Prod.snd ++ rest).length =
          full (lines.map Prod.fst ++ next :: ls) := by
        rw [full_append, full_map_fst htail, List.length_append, List.length_map, hrest]
      have hmore : ∃ first more, lines.map Prod.fst ++ next :: ls = first :: more ∧ first ≠ [] := by
        cases lines with
        | nil => exact ⟨next, ls, rfl, hnext⟩
        | cons l' lines => exact ⟨l'.1, _, rfl, htail l' List.mem_cons_self⟩
      obtain ⟨first, more, heq, hfirst⟩ := hmore
      rw [heq] at hlength ih
      rw [List.map_cons, List.map_cons, List.cons_append, List.cons_append, heq,
        readLines_cons_iff hfirst hlength, ih htail, List.forall_mem_cons, and_assoc]

/-! ## What words hold -/

/-- What a state holds of a word. -/
def State.held : State → Text
  | .gap => []
  | .word raw => raw
  | .quoted _ said => said
  | .slash _ said => said ++ ['\\']

/-- No two backslashes stand side by side. -/
abbrev Unpaired (t : Text) : Prop := t.IsChain fun c d => ¬ (c = '\\' ∧ d = '\\')

theorem length_unescape_le (t : Text) : (unescape t).length ≤ t.length := by
  induction t using unescape.induct with
  | case1 => exact le_rfl
  | case2 c => exact le_rfl
  | case3 c d t h ih =>
      rw [unescape, if_pos h]
      simp only [List.length_cons]
      omega
  | case4 c d t h ih =>
      rw [unescape, if_neg h]
      simpa using ih

theorem count_unescape_le {c : Char} (hc : c ≠ '\\') (t : Text) :
    (unescape t).count c ≤ t.count c := by
  induction t using unescape.induct with
  | case1 => exact le_rfl
  | case2 d => exact le_rfl
  | case3 d e t h ih =>
      rw [unescape, if_pos h, h.1, h.2, List.count_cons_of_ne hc.symm,
        List.count_cons_of_ne hc.symm, List.count_cons_of_ne hc.symm]
      exact ih
  | case4 d e t h ih =>
      rw [unescape, if_neg h, List.count_cons, List.count_cons]
      exact Nat.add_le_add_right ih _

theorem unpaired_cons_cons {c d : Char} {t : Text} :
    Unpaired (c :: d :: t) ↔ ¬ (c = '\\' ∧ d = '\\') ∧ Unpaired (d :: t) :=
  List.isChain_cons_cons

/-- Without marks a text says itself exactly if its backslashes stand apart. -/
theorem unescape_eq_iff (t : Text) : unescape t = t ↔ Unpaired t := by
  induction t using unescape.induct with
  | case1 => simp [unescape]
  | case2 c => simp [unescape]
  | case3 c d t h ih =>
      have hlength := length_unescape_le t
      rw [unescape, if_pos h, unpaired_cons_cons]
      constructor
      · intro heq
        have htotal := congrArg List.length heq
        simp only [List.length_cons] at htotal
        omega
      · exact fun hchain => absurd h hchain.1
  | case4 c d t h ih =>
      rw [unescape, if_neg h, unpaired_cons_cons, List.cons_inj_right]
      exact ⟨fun heq => ⟨h, ih.mp heq⟩, fun hchain => ih.mpr hchain.2⟩

/-- A step writes no more than it reads and held. -/
theorem length_step (s : State) (c : Char) :
    ((reader.step s c).1.map fun w => w.length + 1).sum + ((reader.step s c).2.held.length + 1) ≤
      s.held.length + 1 + 1 := by
  cases s with
  | gap =>
      change 0 + (State.held (if isSpace c then .gap else
        if c = '"' ∨ c = '\'' then .quoted c [] else .word [c])).length + 1 ≤ _
      split_ifs <;> simp [State.held]
  | word raw =>
      have hlength := length_unescape_le raw
      simp only [reader]
      split_ifs <;> simp [State.held, hlength]
  | quoted quote said =>
      simp only [reader]
      split_ifs <;> simp [State.held]
  | slash quote said =>
      simp only [reader]
      split_ifs <;> simp [State.held]

/-- Words take up no more than was read, with one character between any two. -/
theorem length_run_le (s : State) (t : Text) :
    ((reader.run s t).map fun w => w.length + 1).sum ≤ s.held.length + 1 + t.length := by
  have hfinish : ∀ s, ((reader.finish s).map fun w => w.length + 1).sum ≤ s.held.length + 1 := by
    intro s
    cases s with
    | gap => exact Nat.zero_le _
    | word raw => simpa [reader, State.held] using length_unescape_le raw
    | quoted quote said => exact le_rfl
    | slash quote said => exact le_rfl
  have hrun := Transducer.weight_run_le (fun w : Text => w.length + 1) (fun _ : Char => 1)
    (fun s : State => s.held.length + 1) length_step hfinish s t
  simpa using hrun

/-- A step writes the line feeds it reads or held, or holds them. -/
theorem newlines_step (s : State) (c : Char) :
    ((reader.step s c).1.map (List.count '\n')).sum + (reader.step s c).2.held.count '\n' ≤
      s.held.count '\n' + if c = '\n' then 1 else 0 := by
  cases s with
  | gap =>
      simp only [reader]
      split_ifs <;> simp_all [State.held]
  | word raw =>
      have hcount := count_unescape_le (c := '\n') (by decide) raw
      simp only [reader]
      split_ifs
      all_goals simp_all [State.held]
      omega
  | quoted quote said =>
      simp only [reader]
      split_ifs <;> simp_all [State.held]
  | slash quote said =>
      simp only [reader]
      split_ifs <;> simp_all [State.held]

/-- The words of a line hold no line feed. -/
theorem not_mem_newline_of_mem_words {t w : Text} (ht : '\n' ∉ t) (hw : w ∈ words t) :
    '\n' ∉ w := by
  have hfinish : ∀ s : State,
      ((reader.finish s).map (List.count '\n')).sum ≤ s.held.count '\n' := by
    intro s
    cases s with
    | gap => exact le_rfl
    | word raw => simpa [reader, State.held] using count_unescape_le (c := '\n') (by decide) raw
    | quoted quote said => exact le_rfl
    | slash quote said => exact le_rfl
  have hrun := Transducer.weight_run_le_count (List.count '\n')
    (fun s : State => s.held.count '\n') '\n' newlines_step hfinish .gap t
  have hle := List.single_le_sum (fun n _ => Nat.zero_le n) _
    (List.mem_map_of_mem (f := List.count '\n') hw)
  have hzero : (List.count '\n' t) = 0 := List.count_eq_zero.mpr ht
  rw [hzero] at hrun
  exact List.count_eq_zero.mp (Nat.le_zero.mp (hle.trans hrun))

/-- Joining lines adds nothing to them. -/
theorem not_mem_newline_of_mem_logical {l : Text} {ls : List Text} (hl : '\n' ∉ l)
    (hls : ∀ x ∈ ls, '\n' ∉ x) : ∀ x ∈ logical l ls, '\n' ∉ x := by
  induction ls generalizing l with
  | nil => simpa [logical] using hl
  | cons next ls ih =>
      obtain ⟨hnext, hrest⟩ := List.forall_mem_cons.mp hls
      rw [logical]
      split_ifs
      · refine ih ?_ hrest
        have hdrop : ∀ t : Text, t <+: l → '\n' ∉ t := fun t ht hmem => hl (ht.sublist.mem hmem)
        rw [joined, List.mem_append, not_or]
        refine ⟨?_, hnext⟩
        split_ifs
        · exact hdrop _ ((List.dropLast_prefix _).trans (List.dropLast_prefix l))
        · exact hdrop _ (List.dropLast_prefix l)
      · exact List.forall_mem_cons.mpr ⟨hl, ih hnext hrest⟩

/-- The arguments that are read hold no line feed. -/
theorem not_mem_newline_of_mem_read {t a : Text} {s : Statement} (hs : s ∈ read t)
    (ha : a ∈ s.arguments) : '\n' ∉ a := by
  obtain ⟨l, ls, hlines⟩ := List.exists_cons_of_ne_nil (List.splitOn_ne_nil '\n' t)
  have hsplit : ∀ x ∈ l :: ls, '\n' ∉ x := fun x hx =>
    Text.not_mem_of_mem_splitOn (hlines ▸ hx)
  rw [read, hlines, readLines, List.mem_filterMap] at hs
  obtain ⟨x, hx, hstatement⟩ := hs
  have hline := not_mem_newline_of_mem_logical (hsplit l List.mem_cons_self)
    (fun y hy => hsplit y (List.mem_cons_of_mem l hy)) x hx
  have hdirective : '\n' ∉ directive (trim x) := by
    have htrim : trim x <:+: x :=
      (List.rdropWhile_prefix _ _).isInfix.trans (List.dropWhile_suffix _).isInfix
    intro hmem
    apply hline
    apply htrim.sublist.mem
    unfold directive at hmem
    split_ifs at hmem
    · cases hmem
    · exact (List.rdropWhile_prefix _ _).sublist.mem ((List.dropLast_prefix _).sublist.mem hmem)
    · exact hmem
  unfold statementOf at hstatement
  cases hwords : words (directive (trim x)) with
  | nil =>
      rw [hwords] at hstatement
      cases hstatement
  | cons name arguments =>
      rw [hwords] at hstatement
      obtain rfl := Option.some.inj hstatement
      exact not_mem_newline_of_mem_words hdirective (hwords ▸ List.mem_cons_of_mem name ha)

/-! ## Arguments -/

/-- A text that is one word without marks and says itself. -/
structure Plain (t : Text) : Prop where
  nonempty : t ≠ []
  unspaced : ∀ c ∈ t, isSpace c = false
  unquoted : ∀ c ∈ t.head?, c ≠ '"' ∧ c ≠ '\''
  unpaired : Unpaired t

/-- A text that says itself in quotation marks. -/
structure Quotable (t : Text) : Prop where
  unmarked : '"' ∉ t
  unpaired : Unpaired t
  open_ended : t.getLast? ≠ some '\\'

/-- A word goes on to the end or to white space. -/
theorem run_word {t : Text} (ht : ∀ c ∈ t, isSpace c = false) (raw : Text) :
    reader.advance (.word raw) t = ([], .word (raw ++ t)) := by
  induction t generalizing raw with
  | nil => simp [Transducer.advance]
  | cons c t ih =>
      obtain ⟨hc, hrest⟩ := List.forall_mem_cons.mp ht
      have hstep : reader.step (.word raw) c = ([], .word (raw ++ [c])) := by
        simp [reader, hc]
      rw [Transducer.advance, hstep, ih hrest, List.append_assoc]
      rfl

/-- The first character of a word without marks. -/
theorem step_gap_word {c : Char} (hspace : isSpace c = false) (hquote : c ≠ '"' ∧ c ≠ '\'') :
    reader.step .gap c = ([], .word [c]) := by
  simp [reader, hspace, hquote]

/-- A plain text is read as a word. -/
theorem advance_of_plain {t : Text} (h : Plain t) : reader.advance .gap t = ([], .word t) := by
  cases t with
  | nil => exact absurd rfl h.nonempty
  | cons c t =>
      obtain ⟨hc, hrest⟩ := List.forall_mem_cons.mp h.unspaced
      rw [Transducer.advance, step_gap_word hc (h.unquoted c rfl), run_word hrest]
      rfl

/-- A word that says all there is goes on to the end. -/
theorem unspaced_of_run_word {raw t : Text} (h : reader.run (.word raw) t = [raw ++ t]) :
    (∀ c ∈ t, isSpace c = false) ∧ unescape (raw ++ t) = raw ++ t := by
  induction t generalizing raw with
  | nil =>
      rw [List.append_nil] at h ⊢
      exact ⟨by simp, List.singleton_inj.mp h⟩
  | cons c t ih =>
      rw [Transducer.run] at h
      by_cases hspace : isSpace c = true
      · have hstep : reader.step (.word raw) c = ([unescape raw], .gap) := by
          simp [reader, hspace]
        rw [hstep, List.singleton_append] at h
        have hlength := length_unescape_le raw
        rw [(List.cons.inj h).1, List.length_append, List.length_cons] at hlength
        omega
      · have hstep : reader.step (.word raw) c = ([], .word (raw ++ [c])) := by
          simp [reader, hspace]
        have hnext : reader.run (.word (raw ++ [c])) t = [raw ++ [c] ++ t] := by
          rw [List.append_assoc]
          rwa [hstep] at h
        obtain ⟨hrest, hself⟩ := ih hnext
        rw [List.append_assoc] at hself
        exact ⟨List.forall_mem_cons.mpr ⟨by simpa using hspace, hrest⟩, hself⟩

/-- A text is read as itself exactly if it is plain. -/
theorem words_eq_self_iff (t : Text) : words t = [t] ↔ Plain t := by
  constructor
  · intro h
    cases t with
    | nil => cases h
    | cons c t =>
        have hshort : ∀ s : State, s.held = [] → reader.run s t ≠ [c :: t] := by
          intro s hs heq
          have hle := length_run_le s t
          rw [heq, hs] at hle
          simp only [List.map_cons, List.map_nil, List.sum_cons, List.sum_nil,
            List.length_cons, List.length_nil] at hle
          omega
        rw [words, Transducer.run] at h
        have hspace : isSpace c = false := by
          rw [← Bool.not_eq_true]
          intro hspace
          refine hshort .gap rfl ?_
          simpa [reader, hspace] using h
        have hquote : c ≠ '"' ∧ c ≠ '\'' := by
          rw [← not_or]
          intro hquote
          refine hshort (.quoted c []) rfl ?_
          simpa [reader, hspace, hquote] using h
        rw [step_gap_word hspace hquote, List.nil_append] at h
        have hword : reader.run (.word [c]) t = [[c] ++ t] := h
        obtain ⟨hrest, hself⟩ := unspaced_of_run_word hword
        refine ⟨List.cons_ne_nil c t, List.forall_mem_cons.mpr ⟨hspace, hrest⟩, ?_,
          (unescape_eq_iff _).mp hself⟩
        intro d hd
        obtain rfl := Option.some.inj hd
        exact hquote
  · intro h
    have hrun := reader.run_append_of_advance (advance_of_plain h) []
    rw [List.append_nil] at hrun
    rw [words, hrun, List.nil_append]
    exact congrArg ([·]) ((unescape_eq_iff t).mpr h.unpaired)

/-! ## Quotation marks -/

theorem quotable_nil : Quotable [] := ⟨by simp, by simp, by simp⟩

theorem quotable_cons {c : Char} {t : Text} :
    Quotable (c :: t) ↔ c ≠ '"' ∧ (c = '\\' → ∃ d ∈ t.head?, d ≠ '\\') ∧ Quotable t := by
  cases t with
  | nil =>
      constructor
      · rintro ⟨hmark, -, hlast⟩
        exact ⟨fun heq => hmark (heq ▸ List.mem_cons_self), fun heq => absurd (heq ▸ rfl) hlast,
          quotable_nil⟩
      · rintro ⟨hmark, hlast, -⟩
        refine ⟨?_, List.isChain_singleton c, ?_⟩
        · simpa using hmark.symm
        · intro heq
          obtain ⟨d, hd, -⟩ := hlast (Option.some.inj heq)
          cases hd
  | cons d t =>
      constructor
      · rintro ⟨hmark, hpair, hlast⟩
        obtain ⟨hfirst, hrest⟩ := unpaired_cons_cons.mp hpair
        exact ⟨fun heq => hmark (heq ▸ List.mem_cons_self),
          fun hc => ⟨d, rfl, fun hd => hfirst ⟨hc, hd⟩⟩,
          fun hmem => hmark (List.mem_cons_of_mem c hmem), hrest, hlast⟩
      · rintro ⟨hmark, hfirst, hrest⟩
        refine ⟨?_, unpaired_cons_cons.mpr ⟨?_, hrest.unpaired⟩, hrest.open_ended⟩
        · rw [List.mem_cons, not_or]
          exact ⟨hmark.symm, hrest.unmarked⟩
        · rintro ⟨hc, hd⟩
          obtain ⟨e, he, hne⟩ := hfirst hc
          exact hne (Option.some.inj he ▸ hd)

/-- Where no backslash stands, only the marks matter. -/
theorem quotable_append_iff {s : Text} (hs : '\\' ∉ s) (t : Text) :
    Quotable (s ++ t) ↔ '"' ∉ s ∧ Quotable t := by
  induction s with
  | nil => simp
  | cons c s ih =>
      have hc : c ≠ '\\' := fun heq => hs (heq ▸ List.mem_cons_self)
      have hrest : Quotable (s ++ t) ↔ '"' ∉ s ∧ Quotable t :=
        ih fun hmem => hs (List.mem_cons_of_mem c hmem)
      rw [List.cons_append, quotable_cons, hrest, List.mem_cons, not_or, and_assoc]
      constructor
      · rintro ⟨hmark, -, hboth⟩
        exact ⟨hmark.symm, hboth⟩
      · rintro ⟨hmark, hboth⟩
        exact ⟨Ne.symm hmark, fun heq => absurd heq hc, hboth⟩

theorem quotable_iff_of_not_mem {t : Text} (ht : '\\' ∉ t) : Quotable t ↔ '"' ∉ t := by
  have happend := quotable_append_iff ht []
  rwa [List.append_nil, and_iff_left quotable_nil] at happend

/-- What stands behind a text keeps a backslash from its end. -/
theorem quotable_append_cons_iff {c : Char} (hc : c ≠ '\\') {t u : Text}
    (hu : Quotable (c :: u)) : Quotable (t ++ c :: u) ↔ '"' ∉ t ∧ Unpaired t := by
  constructor
  · intro hboth
    exact ⟨fun hmem => hboth.unmarked (List.mem_append_left _ hmem),
      (List.isChain_append.mp hboth.unpaired).1⟩
  · rintro ⟨hmark, hpaired⟩
    refine ⟨fun hmem => (List.mem_append.mp hmem).elim hmark hu.unmarked, ?_, ?_⟩
    · refine List.isChain_append.mpr ⟨hpaired, hu.unpaired, ?_⟩
      rintro d - e he ⟨-, rfl⟩
      exact hc (Option.some.inj he)
    · rw [List.getLast?_append_of_ne_nil _ (List.cons_ne_nil c u)]
      exact hu.open_ended

/-- A backslash in quotation marks that takes nothing along is said. -/
theorem run_slash {quote d : Char} (hd : d ≠ quote ∧ d ≠ '\\') (said t : Text) :
    reader.run (.slash quote said) (d :: t) =
      reader.run (.quoted quote (said ++ ['\\'])) (d :: t) := by
  have hslash : reader.step (.slash quote said) d = ([], .quoted quote (said ++ ['\\', d])) := by
    simp [reader, hd]
  have hquoted : reader.step (.quoted quote (said ++ ['\\'])) d =
      ([], .quoted quote (said ++ ['\\', d])) := by
    simp [reader, hd]
  rw [Transducer.run, Transducer.run, hslash, hquoted]

theorem run_quoted_backslash (said t : Text) :
    reader.run (.quoted '"' said) ('\\' :: t) = reader.run (.slash '"' said) t := rfl

theorem run_quoted_cons {c : Char} (hc : c ≠ '"' ∧ c ≠ '\\') (said t : Text) :
    reader.run (.quoted '"' said) (c :: t) = reader.run (.quoted '"' (said ++ [c])) t := by
  have hstep : reader.step (.quoted '"' said) c = ([], .quoted '"' (said ++ [c])) := by
    simp [reader, hc]
  rw [Transducer.run, hstep]
  rfl

/-- A quotable text is said up to its closing mark. -/
theorem run_quoted {t : Text} (h : Quotable t) (said rest : Text) :
    reader.run (.quoted '"' said) (t ++ '"' :: rest) = (said ++ t) :: words rest := by
  induction t generalizing said with
  | nil =>
      rw [List.append_nil]
      rfl
  | cons c t ih =>
      obtain ⟨hmark, hfirst, hrest⟩ := quotable_cons.mp h
      by_cases hc : c = '\\'
      · obtain ⟨d, hd, hne⟩ := hfirst hc
        obtain ⟨t', rfl⟩ := List.head?_eq_some_iff.mp hd
        have hsecond := (quotable_cons.mp hrest).1
        have hfrom := ih hrest (said ++ ['\\'])
        rw [List.append_assoc] at hfrom
        rw [hc, List.cons_append, run_quoted_backslash, List.cons_append,
          run_slash ⟨hsecond, hne⟩]
        exact hfrom
      · rw [List.cons_append, run_quoted_cons ⟨hmark, hc⟩, ih hrest, List.append_assoc]
        rfl

/-- What is read is no quoted text of a given length: the first word is shorter, or the
mark behind the text belongs to it. -/
def Misread (t : Text) (length : ℕ) (rest : Text) (out : List Text) : Prop :=
  (∃ w more, out = w :: more ∧ w.length < length) ∨
    ∃ t' said, t = t' ++ ['\\'] ∧ out = reader.run (.quoted '"' (said ++ ['"'])) rest

theorem Misread.mono {t rest : Text} {length length' : ℕ} {out : List Text}
    (h : Misread t length rest out) (front : Text) (hlength : length ≤ length') :
    Misread (front ++ t) length' rest out := by
  rcases h with ⟨w, more, hout, hshort⟩ | ⟨t', said, rfl, hout⟩
  · exact .inl ⟨w, more, hout, hshort.trans_le hlength⟩
  · exact .inr ⟨front ++ t', said, (List.append_assoc front t' _).symm, hout⟩

/-- A text in quotation marks is quotable or misread. -/
theorem quotable_or_misread (t said rest : Text) :
    Quotable t ∨ Misread t (said.length + t.length) rest
      (reader.run (.quoted '"' said) (t ++ '"' :: rest)) := by
  induction hn : t.length using Nat.strong_induction_on generalizing t said with
  | _ n ih =>
      cases t with
      | nil => exact .inl quotable_nil
      | cons c t =>
          rw [List.length_cons] at hn
          by_cases hmark : c = '"'
          · subst hmark
            exact .inr (.inl ⟨said, words (t ++ '"' :: rest), rfl, by omega⟩)
          by_cases hc : c = '\\'
          · subst hc
            cases t with
            | nil => exact .inr (.inr ⟨[], said, rfl, rfl⟩)
            | cons d t =>
                rw [List.length_cons] at hn
                by_cases hd : d = '"' ∨ d = '\\'
                · have hstep : reader.run (.quoted '"' said) ('\\' :: d :: t ++ '"' :: rest) =
                      reader.run (.quoted '"' (said ++ [d])) (t ++ '"' :: rest) := by
                    rw [List.cons_append, run_quoted_backslash, List.cons_append, Transducer.run]
                    simp [reader, hd]
                  have hlength : (said ++ [d]).length = said.length + 1 := by simp
                  rw [hstep]
                  rcases ih t.length (by omega) t (said ++ [d]) rfl with hrest | hrest
                  · refine .inr (.inl ⟨_, _, run_quoted hrest _ rest, ?_⟩)
                    rw [List.length_append, hlength]
                    omega
                  · exact .inr (hrest.mono ['\\', d] (by omega))
                · rw [not_or] at hd
                  have hstep : reader.run (.quoted '"' said) ('\\' :: d :: t ++ '"' :: rest) =
                      reader.run (.quoted '"' (said ++ ['\\'])) (d :: t ++ '"' :: rest) := by
                    rw [List.cons_append, run_quoted_backslash]
                    exact run_slash hd said _
                  have hlength : (said ++ ['\\']).length = said.length + 1 := by simp
                  rw [hstep]
                  rcases ih (t.length + 1) (by omega) (d :: t) (said ++ ['\\']) rfl with
                    hrest | hrest
                  · exact .inl (quotable_cons.mpr ⟨by decide, fun _ => ⟨d, rfl, hd.2⟩, hrest⟩)
                  · exact .inr (hrest.mono ['\\'] (by omega))
          · have hlength : (said ++ [c]).length = said.length + 1 := by simp
            rw [List.cons_append, run_quoted_cons ⟨hmark, hc⟩]
            rcases ih t.length (by omega) t (said ++ [c]) rfl with hrest | hrest
            · exact .inl (quotable_cons.mpr ⟨hmark, fun heq => absurd heq hc, hrest⟩)
            · exact .inr (hrest.mono [c] (by omega))

/-- A text in quotation marks that ends in no backslash reads back exactly if it is
quotable. -/
theorem words_quoted_append_iff {t : Text} (hlast : t.getLast? ≠ some '\\') (rest : Text) :
    words ('"' :: t ++ '"' :: rest) = t :: words rest ↔ Quotable t := by
  have hopen : words ('"' :: t ++ '"' :: rest) =
      reader.run (.quoted '"' []) (t ++ '"' :: rest) := rfl
  rw [hopen]
  constructor
  · intro h
    rcases quotable_or_misread t [] rest with hquotable | ⟨w, more, hout, hshort⟩ | hends
    · exact hquotable
    · rw [h] at hout
      rw [← (List.cons.inj hout).1, List.length_nil] at hshort
      omega
    · obtain ⟨t', said, rfl, -⟩ := hends
      simp at hlast
  · exact fun h => run_quoted h [] rest

/-- A text in quotation marks at the end of a line reads back, up to characters that look
the same, exactly if it is quotable. -/
theorem words_quoted_iff {f : Char → Char} (hf : f '"' ≠ f '\\') {t w : Text}
    (hsame : w.map f = t.map f) :
    words ('"' :: t ++ ['"']) = [w] ↔ w = t ∧ Quotable t := by
  have hopen : words ('"' :: t ++ ['"']) = reader.run (.quoted '"' []) (t ++ ['"']) := rfl
  rw [hopen]
  constructor
  · intro h
    rcases quotable_or_misread t [] [] with hquotable | ⟨w', more, hout, hshort⟩ | hends
    · have hrun := run_quoted hquotable [] []
      rw [h] at hrun
      exact ⟨(List.cons.inj hrun).1, hquotable⟩
    · rw [h] at hout
      have hlength := congrArg List.length hsame
      rw [List.length_map, List.length_map] at hlength
      rw [← (List.cons.inj hout).1, List.length_nil] at hshort
      omega
    · obtain ⟨t', said, rfl, hout⟩ := hends
      rw [h] at hout
      obtain ⟨rfl, -⟩ := List.cons.inj hout
      have hlast := congrArg List.getLast? hsame
      simp only [List.map_append, List.map_cons, List.map_nil, List.getLast?_concat,
        Option.some.injEq] at hlast
      exact absurd hlast hf
  · rintro ⟨rfl, hquotable⟩
    exact run_quoted hquotable [] []

/-! ## Directives -/

instance (t : Text) : Decidable (Plain t) :=
  -- not the instance that goes through all characters
  letI : Decidable (∀ c ∈ t.head?, c ≠ '"' ∧ c ≠ '\'') := Option.decidableForallMem t.head?
  decidable_of_iff (t ≠ [] ∧ (∀ c ∈ t, isSpace c = false) ∧
      (∀ c ∈ t.head?, c ≠ '"' ∧ c ≠ '\'') ∧ Unpaired t)
    ⟨fun h => ⟨h.1, h.2.1, h.2.2.1, h.2.2.2⟩, fun h => ⟨h.1, h.2, h.3, h.4⟩⟩

/-- A line indented by tabs. -/
def indent (tabs : ℕ) (t : Text) : Text := List.replicate tabs '\t' ++ t

/-- Where a line may end so that it neither goes on nor is trimmed. -/
def Closed (t : Text) : Prop := ∃ c ∈ t.getLast?, isSpace c = false ∧ c ≠ '\\'

theorem Closed.append {t : Text} (h : Closed t) (s : Text) : Closed (s ++ t) := by
  obtain ⟨c, hc, hrest⟩ := h
  refine ⟨c, ?_, hrest⟩
  rw [Option.mem_def] at hc ⊢
  rw [List.getLast?_append, hc]
  rfl

theorem Closed.not_continued {t : Text} (h : Closed t) : continued t = false := by
  obtain ⟨c, hc, hspace, hslash⟩ := h
  have hreturn : c ≠ '\r' := by
    rintro rfl
    cases hspace
  rw [Option.mem_def] at hc
  simp [continued, hc, hslash, hreturn]

theorem dropWhile_indent (tabs : ℕ) {c : Char} (hc : isSpace c = false) (t : Text) :
    (indent tabs (c :: t)).dropWhile isSpace = c :: t := by
  have htabs : ∀ d ∈ List.replicate tabs '\t', isSpace d = true := by
    intro d hd
    rw [(List.mem_replicate.mp hd).2]
    rfl
  rw [indent, List.dropWhile_append_of_pos htabs, List.dropWhile_cons_of_neg (by simp [hc])]

theorem rdropWhile_of_closed {t : Text} (h : Closed t) : t.rdropWhile isSpace = t := by
  obtain ⟨c, hc, hspace, -⟩ := h
  rw [Option.mem_def] at hc
  rw [List.rdropWhile_eq_self_iff]
  intro hne
  rw [List.getLast?_eq_some_getLast hne, Option.some.injEq] at hc
  rw [hc, hspace]
  exact Bool.false_ne_true

theorem words_name_append {name : Text} (hname : Plain name) (tail : Text) :
    words (name ++ ' ' :: tail) = name :: words tail := by
  have hself := (unescape_eq_iff name).mpr hname.unpaired
  have hrun := reader.run_append_of_advance (advance_of_plain hname) (' ' :: tail)
  rw [words, hrun, List.nil_append, Transducer.run]
  have hstep : reader.step (.word name) ' ' = ([unescape name], .gap) := rfl
  rw [hstep, hself]
  rfl

variable {tabs : ℕ} {name tail : Text}

/-- A directive whose last argument ends in no backslash. -/
theorem says_directive_iff (hname : Plain name) (hhead : name.head? ≠ some '#')
    (hsection : name.head? ≠ some '<') (htail : Closed tail) {arguments : List Text} :
    Says (indent tabs (name ++ ' ' :: tail)) ⟨name, arguments⟩ ↔ words tail = arguments := by
  have hclosed : Closed (name ++ ' ' :: tail) := by
    have hcons : name ++ ' ' :: tail = (name ++ [' ']) ++ tail := by simp
    rw [hcons]
    exact htail.append _
  obtain ⟨c, rest, hcons⟩ := List.exists_cons_of_ne_nil hname.nonempty
  have hspace : isSpace c = false := hname.unspaced c (hcons ▸ List.mem_cons_self)
  have htrim : trim (indent tabs (name ++ ' ' :: tail)) = name ++ ' ' :: tail := by
    rw [trim, hcons, List.cons_append, dropWhile_indent tabs hspace, ← List.cons_append, ← hcons,
      rdropWhile_of_closed hclosed]
  have hfirst : (name ++ ' ' :: tail).head? = name.head? := by
    rw [hcons]
    rfl
  have hdirective : directive (name ++ ' ' :: tail) = name ++ ' ' :: tail := by
    rw [directive, hfirst, if_neg hhead, if_neg hsection]
  have hcontinued : continued (indent tabs (name ++ ' ' :: tail)) = false :=
    (hclosed.append _).not_continued
  rw [Says, hcontinued, statementOf, htrim, hdirective, words_name_append hname]
  simp

/-- The head of a section. -/
theorem says_section_iff (hname : Plain name) (hsection : name.head? = some '<')
    {arguments : List Text} :
    Says (indent tabs (name ++ ' ' :: tail ++ ['>'])) ⟨name, arguments⟩ ↔
      words tail = arguments := by
  have hclosed : Closed (name ++ ' ' :: tail ++ ['>']) :=
    Closed.append ⟨'>', rfl, by decide⟩ _
  obtain ⟨rest, hcons⟩ := List.head?_eq_some_iff.mp hsection
  have htrim : trim (indent tabs (name ++ ' ' :: tail ++ ['>'])) = name ++ ' ' :: tail ++ ['>'] := by
    rw [trim, hcons, List.cons_append, List.cons_append, dropWhile_indent tabs (by rfl),
      ← List.cons_append, ← List.cons_append, ← hcons, rdropWhile_of_closed hclosed]
  have hfirst : (name ++ ' ' :: tail ++ ['>']).head? = some '<' := by
    rw [hcons]
    rfl
  have hdirective : directive (name ++ ' ' :: tail ++ ['>']) = name ++ ' ' :: tail := by
    rw [directive, hfirst, if_neg (by decide), if_pos rfl,
      List.rdropWhile_concat_neg _ _ _ (by decide), List.dropLast_concat]
  have hcontinued : continued (indent tabs (name ++ ' ' :: tail ++ ['>'])) = false :=
    (hclosed.append _).not_continued
  rw [Says, hcontinued, statementOf, htrim, hdirective, words_name_append hname]
  simp

/-- A directive with one word, at whose end the line ends. -/
theorem says_word_iff (hname : Plain name) (hhead : name.head? ≠ some '#')
    (hsection : name.head? ≠ some '<') {w : Text} :
    Says (indent tabs (name ++ ' ' :: w)) ⟨name, [w]⟩ ↔ Plain w ∧ w.getLast? ≠ some '\\' := by
  constructor
  · rintro ⟨hcontinued, hstatement⟩
    obtain ⟨c, rest, hcons⟩ := List.exists_cons_of_ne_nil hname.nonempty
    have hspace : isSpace c = false := hname.unspaced c (hcons ▸ List.mem_cons_self)
    have htrim : trim (indent tabs (name ++ ' ' :: w)) =
        (name ++ ' ' :: w).rdropWhile isSpace := by
      rw [trim, hcons, List.cons_append, dropWhile_indent tabs hspace]
    obtain ⟨cut, hcut⟩ := List.rdropWhile_prefix isSpace (name ++ ' ' :: w)
    rw [statementOf, htrim] at hstatement
    generalize (name ++ ' ' :: w).rdropWhile isSpace = x at hcut hstatement
    have hne : x ≠ [] := by
      rintro rfl
      cases hstatement
    have hfirst : x.head? = name.head? := by
      rw [← List.head?_append_of_ne_nil x hne, hcut, List.head?_append_of_ne_nil _ hname.nonempty]
    have hdirective : directive x = x := by
      rw [directive, hfirst, if_neg hhead, if_neg hsection]
    have hwords : words x = [name, w] := by
      rw [hdirective] at hstatement
      cases hx : words x with
      | nil =>
          rw [hx] at hstatement
          cases hstatement
      | cons first arguments =>
          rw [hx] at hstatement
          obtain ⟨rfl, rfl⟩ := Statement.mk.inj (Option.some.inj hstatement)
          rfl
    -- both words and the blank take up the whole line, so that nothing was trimmed
    have hlength := length_run_le .gap x
    have htotal := congrArg List.length hcut
    rw [words] at hwords
    rw [hwords] at hlength
    simp only [List.map_cons, List.map_nil, List.sum_cons, List.sum_nil, State.held,
      List.length_nil, List.length_append, List.length_cons] at hlength htotal
    obtain rfl : cut = [] := List.length_eq_zero_iff.mp (by omega)
    rw [List.append_nil] at hcut
    rw [hcut] at hwords
    have hself : words w = [w] := by
      have hboth := words_name_append hname w
      rw [words, hwords] at hboth
      exact (List.cons.inj hboth).2.symm
    have hplain := (words_eq_self_iff w).mp hself
    refine ⟨hplain, fun hlast => ?_⟩
    have hend : (indent tabs (name ++ ' ' :: w)).getLast? = some '\\' := by
      have hcons' : indent tabs (name ++ ' ' :: w) = indent tabs (name ++ [' ']) ++ w := by
        simp [indent]
      rw [hcons', List.getLast?_append, hlast]
      rfl
    simp [continued, hend] at hcontinued
  · rintro ⟨hplain, hlast⟩
    have hclosed : Closed w := by
      have hsome := List.getLast?_eq_some_getLast hplain.nonempty
      refine ⟨_, hsome, hplain.unspaced _ (List.getLast_mem hplain.nonempty), fun heq => ?_⟩
      exact hlast (hsome.trans (congrArg some heq))
    rw [says_directive_iff hname hhead hsection hclosed]
    exact (words_eq_self_iff w).mpr hplain

end ApacheConf
