/-
# Captured mail

PHP hands every mail to `sendmail.php`, which reads the message line by line from
its standard input, trims each line and writes the lines into a file of the mail
folder. Nothing but the clock in milliseconds names the file, and any number of
processes may deliver at once. Trimming is meant for the line terminators, but it
takes the white space that a line begins or ends with as well.
-/

import Mathlib.Algebra.Order.Round
import Mathlib.Data.List.Pairwise
import Mathlib.Data.Rat.Floor
import WampManager.Database
import WampManager.Lib.Transition

namespace WampManager

namespace Sendmail

/-! ## Reading a message -/

/-- Split off the first line with its line feed; without one, all there is. -/
def firstLine : Text → Text × Text
  | [] => ([], [])
  | c :: rest =>
      if c = '\n' then (['\n'], rest)
      else
        let (line, rest) := firstLine rest
        (c :: line, rest)

/-- Standard input: what is left of it, and whether its end was found. -/
structure Input where
  rest : Text
  eof : Bool

/-- `fgets`; at the end there is no line, which reads as the empty text. Behind a
last line feed the end is found at once if the stream reads ahead, by the next call
otherwise. -/
def fgets (ahead : Bool) (stdin : Input) : Text × Input :=
  let (line, rest) := firstLine stdin.rest
  (line, ⟨rest, rest.isEmpty && (ahead || line.getLast? != some '\n')⟩)

theorem firstLine_of_not_mem {t : Text} (h : '\n' ∉ t) : firstLine t = (t, []) := by
  induction t with
  | nil => rfl
  | cons c t ih =>
      have hc : c ≠ '\n' := fun heq => h (heq ▸ List.mem_cons_self)
      rw [firstLine, if_neg hc, ih fun hmem => h (List.mem_cons_of_mem c hmem)]

theorem firstLine_append {line : Text} (h : '\n' ∉ line) (rest : Text) :
    firstLine (line ++ '\n' :: rest) = (line ++ ['\n'], rest) := by
  induction line with
  | nil => rfl
  | cons c line ih =>
      have hc : c ≠ '\n' := fun heq => h (heq ▸ List.mem_cons_self)
      rw [List.cons_append, firstLine, if_neg hc, ih fun hmem => h (List.mem_cons_of_mem c hmem)]
      rfl

theorem length_firstLine (t : Text) : (firstLine t).2.length ≤ t.length - 1 := by
  by_cases h : '\n' ∈ t
  · obtain ⟨line, rest, rfl, hline⟩ := List.eq_append_cons_of_mem h
    rw [firstLine_append hline]
    simp
  · rw [firstLine_of_not_mem h]
    exact Nat.zero_le _

theorem fgets_shorter (ahead : Bool) {stdin : Input} (h : stdin.eof = false) :
    (fgets ahead stdin).2.rest.length + (if (fgets ahead stdin).2.eof then 0 else 1) <
      stdin.rest.length + if stdin.eof then 0 else 1 := by
  have hshorter := length_firstLine stdin.rest
  rw [h]
  show (firstLine stdin.rest).2.length + _ < stdin.rest.length + 1
  cases hrest : stdin.rest with
  | nil =>
      have heof : (fgets ahead stdin).2.eof = true := by simp [fgets, hrest, firstLine]
      simp [heof, firstLine]
  | cons c rest =>
      rw [hrest, List.length_cons] at hshorter
      rw [List.length_cons]
      split <;> omega

/-- `while (!feof($stdin)) $output .= trim(fgets($stdin))."\n"`. -/
def readAll (ahead : Bool) (stdin : Input) (output : Text) : Text :=
  if _h : stdin.eof = true then output
  else
    readAll ahead (fgets ahead stdin).2
      (output ++ Text.trim (fgets ahead stdin).1 ++ ['\n'])
termination_by stdin.rest.length + if stdin.eof then 0 else 1
decreasing_by exact fgets_shorter ahead (Bool.eq_false_iff.mpr _h)

/-- The content of the file that `sendmail.php` writes for a message. -/
def content (ahead : Bool) (message : Text) : Text := readAll ahead ⟨message, false⟩ []

/-- The lines that are read; whether the empty one behind a last line feed is among
them depends on the stream. -/
def linesRead (ahead : Bool) (message : Text) : List Text :=
  if ahead = true ∧ message.getLast? = some '\n' then (message.splitOn '\n').dropLast
  else message.splitOn '\n'

theorem linesRead_append (ahead : Bool) {line : Text} (h : '\n' ∉ line) (rest : Text) :
    linesRead ahead (line ++ '\n' :: rest) =
      if rest.isEmpty && ahead then [line] else line :: linesRead ahead rest := by
  have hsplit : (line ++ '\n' :: rest).splitOn '\n' = line :: rest.splitOn '\n' :=
    List.splitOn_append_cons_self_of_not_mem h rest
  unfold linesRead
  rw [hsplit]
  cases rest with
  | nil => cases ahead <;> simp
  | cons c rest =>
      have hlast : (line ++ '\n' :: c :: rest).getLast? = (c :: rest).getLast? := by
        rw [List.getLast?_append_cons, List.getLast?_cons_cons]
      have hne := List.splitOn_ne_nil '\n' (c :: rest)
      rw [hlast, List.dropLast_cons_of_ne_nil hne]
      split <;> simp

/-- The loop writes the trimmed lines. -/
theorem content_eq (ahead : Bool) (message : Text) :
    content ahead message = Text.unlines ((linesRead ahead message).map Text.trim) := by
  have hloop : ∀ (n : ℕ) (t output : Text), t.length = n →
      readAll ahead ⟨t, false⟩ output =
        output ++ Text.unlines ((linesRead ahead t).map Text.trim) := by
    intro n
    induction n using Nat.strong_induction_on with
    | _ n ih =>
        intro t output hn
        rw [readAll, dif_neg Bool.false_ne_true]
        by_cases hmem : '\n' ∈ t
        · obtain ⟨line, rest, rfl, hline⟩ := List.eq_append_cons_of_mem hmem
          have hfgets : fgets ahead ⟨line ++ '\n' :: rest, false⟩ =
              (line ++ ['\n'], ⟨rest, rest.isEmpty && ahead⟩) := by
            simp [fgets, firstLine_append hline]
          rw [hfgets, linesRead_append ahead hline]
          simp only [Text.trim_append_singleton (c := '\n') (by decide) line]
          by_cases hend : (rest.isEmpty && ahead) = true
          · rw [readAll, dif_pos hend, if_pos hend]
            simp [Text.unlines]
          · rw [Bool.eq_false_iff.mpr hend, if_neg Bool.false_ne_true,
              ih rest.length (by simp [← hn]; omega) rest _ rfl]
            simp [Text.unlines]
        · have hfgets : fgets ahead ⟨t, false⟩ = (t, ⟨[], true⟩) := by
            have hlast : t.getLast? ≠ some '\n' := fun hl => hmem (List.mem_of_getLast? hl)
            simp [fgets, firstLine_of_not_mem hmem, hlast]
          have hread : linesRead ahead t = [t] := by
            have hlast : t.getLast? ≠ some '\n' := fun hl => hmem (List.mem_of_getLast? hl)
            rw [linesRead, if_neg fun h => hlast h.2, List.splitOn_eq_singleton hmem]
          rw [hfgets, readAll, dif_pos rfl, hread]
          simp [Text.unlines]
  exact hloop message.length message [] rfl

/-! ## What a message says -/

/-- A carriage return at the end of a line belongs to its terminator. -/
def dropReturn (line : Text) : Text := if line.getLast? = some '\r' then line.dropLast else line

/-- The lines of a message without their terminators. -/
def lines (message : Text) : List Text := (message.splitOn '\n').map dropReturn

/-- A line of white space. -/
def blank (line : Text) : Bool := line.all Char.isWhitespace

/-- The lines of a message up to the last one that is not blank. -/
def body (message : Text) : List Text := (lines message).rdropWhile blank

/-- A line neither begins nor ends with a blank, a tab, a vertical tab, a carriage
return or a zero. -/
def Flush (line : Text) : Prop :=
  (∀ c ∈ line.head?, Text.isTrimChar c = false) ∧ ∀ c ∈ line.getLast?, Text.isTrimChar c = false

instance (line : Text) : Decidable (Flush line) := inferInstanceAs (Decidable (_ ∧ _))

theorem flush_iff {line : Text} : Flush line ↔ Text.trim line = line := by
  constructor
  · exact fun h => Text.trim_of_no_ends h.1 h.2
  · intro h
    have hleft : line.dropWhile Text.isTrimChar = line := by
      apply (List.dropWhile_sublist _).eq_of_length_le
      have hlength := (List.rdropWhile_prefix Text.isTrimChar
        (line.dropWhile Text.isTrimChar)).length_le
      rwa [← Text.trim, h] at hlength
    have hright : line.rdropWhile Text.isTrimChar = line := by
      rw [Text.trim, hleft] at h
      exact h
    constructor
    · intro c hc
      have hhead := List.head?_dropWhile_not Text.isTrimChar line
      rw [hleft, Option.mem_def.mp hc] at hhead
      simpa using hhead
    · intro c hc
      rw [List.rdropWhile_eq_self_iff] at hright
      have hne : line ≠ [] := by
        rintro rfl
        cases hc
      have hlast : line.getLast hne = c := by
        simpa [List.getLast?_eq_some_getLast hne] using hc
      exact Bool.eq_false_iff.mpr (hlast ▸ hright hne)

theorem trim_dropReturn (line : Text) : Text.trim (dropReturn line) = Text.trim line := by
  unfold dropReturn
  split
  · next hlast =>
      have hsplit := List.dropLast_append_getLast? '\r' hlast
      nth_rewrite 2 [← hsplit]
      rw [Text.trim_append_singleton (by decide)]
  · rfl

theorem dropReturn_trim (line : Text) : dropReturn (Text.trim line) = Text.trim line := by
  have hflush : Flush (Text.trim line) := flush_iff.mpr (Text.trim_trim line)
  refine if_neg fun hlast => ?_
  exact absurd (hflush.2 '\r' hlast) (by decide)

theorem blank_trim {line : Text} (h : blank line = true) : blank (Text.trim line) = true :=
  List.all_eq_true.mpr fun c hc => List.all_eq_true.mp h c (Text.mem_of_mem_trim hc)

theorem rdropWhile_append_of_pos {α : Type} {p : α → Bool} (as : List α) {bs : List α}
    (h : ∀ b ∈ bs, p b = true) : (as ++ bs).rdropWhile p = as.rdropWhile p := by
  rw [List.rdropWhile, List.reverse_append,
    List.dropWhile_append_of_pos fun b hb => h b (List.mem_reverse.mp hb), List.rdropWhile]

/-- The body of what is written has the lines of the message, trimmed. -/
theorem body_content (ahead : Bool) (message : Text) :
    body (content ahead message) = ((lines message).map Text.trim).rdropWhile blank := by
  have hread : ((linesRead ahead message).map Text.trim).rdropWhile blank =
      ((message.splitOn '\n').map Text.trim).rdropWhile blank := by
    unfold linesRead
    split
    · next hend =>
        have hsplit : message.splitOn '\n' = message.dropLast.splitOn '\n' ++ [[]] := by
          nth_rewrite 1 [← List.dropLast_append_getLast? '\n' hend.2]
          rw [List.splitOn_append_cons_self]
          rfl
        rw [hsplit, List.dropLast_concat, List.map_append]
        exact (rdropWhile_append_of_pos _ (by decide)).symm
    · rfl
  have hsubset : ∀ line ∈ (linesRead ahead message).map Text.trim, '\n' ∉ line := by
    intro line hline
    apply Text.not_mem_newline_of_mem_lines (t := message)
    obtain ⟨raw, hraw, rfl⟩ := List.mem_map.mp hline
    refine List.mem_map_of_mem ?_
    unfold linesRead at hraw
    split at hraw
    · exact (List.dropLast_sublist _).mem hraw
    · exact hraw
  have hwritten : lines (content ahead message) =
      (linesRead ahead message).map Text.trim ++ [[]] := by
    have hsplit := Text.splitOn_unlines_append hsubset []
    rw [List.append_nil] at hsplit
    rw [lines, content_eq, hsplit, List.map_append, List.map_map]
    congr 1
    exact List.map_congr_left fun line _ => dropReturn_trim line
  have htrim : (lines message).map Text.trim = (message.splitOn '\n').map Text.trim := by
    rw [lines, List.map_map]
    exact List.map_congr_left fun line _ => trim_dropReturn line
  rw [body, hwritten, rdropWhile_append_of_pos _ (by decide), hread, htrim]

/-- Mapped and unmapped elements are the same up to a tail exactly if no element in
front of the tail is changed. -/
theorem rdropWhile_map_eq_iff {α : Type} {p : α → Bool} {f : α → α}
    (hp : ∀ a, p a = true → p (f a) = true) (as : List α) :
    (as.map f).rdropWhile p = as.rdropWhile p ↔ ∀ a ∈ as.rdropWhile p, f a = a := by
  have htail : (as.map f).rdropWhile p = ((as.rdropWhile p).map f).rdropWhile p := by
    nth_rewrite 1 [← List.rdropWhile_append_rtakeWhile (p := p) (l := as)]
    rw [List.map_append]
    apply rdropWhile_append_of_pos
    intro b hb
    obtain ⟨a, ha, rfl⟩ := List.mem_map.mp hb
    exact hp a (List.mem_rtakeWhile_imp ha)
  rw [htail]
  constructor
  · intro h
    have hall : (as.rdropWhile p).map f = as.rdropWhile p := by
      have hstart := List.rdropWhile_prefix p ((as.rdropWhile p).map f)
      rw [h] at hstart
      exact (hstart.eq_of_length (List.length_map f).symm).symm
    exact List.map_inj_left.mp (hall.trans (List.map_id' _).symm)
  · intro h
    rw [List.map_congr_left h, List.map_id', List.rdropWhile_idempotent]

/-- A message is written as it is, up to terminators and blank lines at the end,
exactly if each line of its body is flush. -/
theorem content_keeps_lines (ahead : Bool) (message : Text) :
    body (content ahead message) = body message ↔ ∀ line ∈ body message, Flush line := by
  rw [body_content, body, rdropWhile_map_eq_iff (p := blank) fun _ hblank => blank_trim hblank]
  exact forall₂_congr fun line _ => flush_iff.symm

/-- A folded header loses the blank in front of its second line. -/
theorem content_unfolds :
    ¬ ∀ (ahead : Bool) (message : Text), body (content ahead message) = body message := by
  intro hclaim
  have hfolded := hclaim false "To: a,\r\n b\r\n".toList
  rw [body_content] at hfolded
  revert hfolded
  decide

/-! ## Delivering -/

/-- The name of a file written at a time, `round(microtime(true)*1000).".eml"`; the
time is what `microtime(true)*1000` is, and halves are rounded up. -/
def fileName (time : ℚ) : Text := decimal (round time) ++ ".eml".toList

/-- An invocation that has read its message and the clock. -/
structure Delivery where
  time : ℚ
  content : Text

/-- The mail folder and the invocations so far, in the order in which they read the
clock; some of them have written their files. -/
structure Host where
  clock : ℚ
  deliveries : List Delivery
  written : List ℕ
  mail : Text → Option Text

/-- A host on which nothing has been delivered. -/
def Host.fresh (clock : ℚ) (mail : Text → Option Text) : Host := ⟨clock, [], [], mail⟩

/-- What an invocation does: it reads its message and then the clock, and later it
writes its file. -/
inductive Event
  | read (ahead : Bool) (message : Text) (time : ℚ)
  | write (i : ℕ)

/-- `file_put_contents`. -/
def put (mail : Text → Option Text) (delivery : Delivery) : Text → Option Text :=
  Function.update mail (fileName delivery.time) (some delivery.content)

/-- The events of all processes, in any order; the clock does not go back, and every
invocation writes once. -/
def Step (host : Host) : Event → Host → Prop
  | .read ahead message time, host' => host.clock ≤ time ∧
      host' = { host with
        clock := time
        deliveries := host.deliveries ++ [⟨time, content ahead message⟩] }
  | .write i, host' => ∃ delivery, host.deliveries[i]? = some delivery ∧ i ∉ host.written ∧
      host' = { host with
        written := i :: host.written
        mail := put host.mail delivery }

/-- The times at which the invocations read the clock. -/
def times (events : List Event) : List ℚ :=
  events.filterMap fun
    | .read _ _ time => some time
    | .write _ => none

/-- Each time is in a later millisecond than the one before it. -/
def Apart (times : List ℚ) : Prop := (times.map round).IsChain (· < ·)

instance (times : List ℚ) : Decidable (Apart times) := inferInstanceAs (Decidable (List.IsChain _ _))

theorem round_le_round {time time' : ℚ} (h : time ≤ time') : round time ≤ round time' := by
  rw [round_eq, round_eq]
  exact Int.floor_mono (by linarith)

end Sendmail

end WampManager
