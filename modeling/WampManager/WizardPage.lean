/-
# The page that runs an installation

The wizard page requests an installation and evaluates its output line by line
while it comes in. Every progress event splits the whole text received so far and
goes on at a counter, up to the last line, which may still be incomplete. The
counter moves behind a line only after its evaluation has returned: an exception
ends the event, and the next event starts at that line again.
-/

import Mathlib.Data.List.Basic
import WampManager.Lib.Text

namespace WampManager

namespace WizardPage

universe u

variable {σ : Type u}

/-- The page while the output comes in: what the evaluated lines have made of it,
the counter, and which lines were handed to `eval`, with their places. -/
structure Page (σ : Type u) where
  state : σ
  currentLine : ℕ
  evaluated : List (Text × ℕ)

/-- The page before the first event. -/
def Page.fresh (state : σ) : Page σ := ⟨state, 0, []⟩

/-- The lines of a text with a line feed behind them. -/
def terminated (response : Text) : List Text := (response.splitOn '\n').dropLast

section Handler

/- `eval`: what a line makes of the page, and whether it throws. The lines leave the
two variables of the handler alone. -/
variable (eval : σ → Text → σ × Bool)

/-- The `while` loop over the lines from the counter on. -/
def evalFrom : List Text → Page σ → Page σ
  | [], page => page
  | line :: lines, page =>
      let (state, throws) := eval page.state line
      let evaluated := page.evaluated ++ [(line, page.currentLine)]
      if throws then ⟨state, page.currentLine, evaluated⟩
      else evalFrom lines ⟨state, page.currentLine + 1, evaluated⟩

/-- `onprogress`. -/
def onprogress (page : Page σ) (response : Text) : Page σ :=
  evalFrom eval ((terminated response).drop page.currentLine) page

/-- The page after several events. -/
def hermione (page : Page σ) (responses : List Text) : Page σ :=
  responses.foldl (onprogress eval) page

/-- What lines make of the page, evaluated one after the other. -/
def stateAfter (state : σ) (lines : List Text) : σ :=
  lines.foldl (fun state line => (eval state line).1) state

/-- Evaluated one after the other, no line throws. -/
def Quiet (state : σ) : List Text → Prop
  | [] => True
  | line :: lines => (eval state line).2 = false ∧ Quiet (eval state line).1 lines

instance decidableQuiet (state : σ) (lines : List Text) : Decidable (Quiet eval state lines) :=
  match lines with
  | [] => isTrue trivial
  | line :: lines =>
      have := decidableQuiet (eval state line).1 lines
      inferInstanceAs (Decidable (_ ∧ _))

/-- No line throws, but for the last one if only the last event brings it. -/
def Undisturbed (state : σ) (responses : List Text) (response : Text) : Prop :=
  Quiet eval state (terminated response) ∨
    Quiet eval state (terminated response).dropLast ∧
      ∀ earlier ∈ responses, (terminated earlier).length < (terminated response).length

instance (state : σ) (responses : List Text) (response : Text) :
    Decidable (Undisturbed eval state responses response) :=
  inferInstanceAs (Decidable (_ ∨ _))

end Handler

variable {eval : σ → Text → σ × Bool} {state : σ}

/-! ## Lines of a growing text -/

theorem terminated_unlines (lines : List Text) (h : ∀ l ∈ lines, '\n' ∉ l) (rest : Text) :
    terminated (Text.unlines lines ++ rest) = lines ++ terminated rest := by
  rw [terminated, Text.splitOn_unlines_append h,
    List.dropLast_append_of_ne_nil (List.splitOn_ne_nil _ _), terminated]

/-- A text is its complete lines and an incomplete one. -/
theorem unlines_terminated (response : Text) :
    ∃ rest, '\n' ∉ rest ∧ (∀ l ∈ terminated response, '\n' ∉ l) ∧
      response = Text.unlines (terminated response) ++ rest := by
  induction hn : response.length using Nat.strong_induction_on generalizing response with
  | _ n ih =>
      by_cases hmem : '\n' ∈ response
      · obtain ⟨line, back, rfl, hline⟩ := List.eq_append_cons_of_mem hmem
        obtain ⟨rest, hrest, hlines, hback⟩ := ih back.length (by simp [← hn]; omega) back rfl
        have hterminated : terminated (line ++ '\n' :: back) = line :: terminated back := by
          have h := terminated_unlines [line] (by simpa using hline) back
          simpa [Text.unlines] using h
        refine ⟨rest, hrest, ?_, ?_⟩
        · rw [hterminated]
          simpa [hline] using hlines
        · rw [hterminated]
          nth_rewrite 1 [hback]
          simp [Text.unlines]
      · have hnone : terminated response = [] := by
          rw [terminated, List.splitOn_eq_singleton hmem, List.dropLast_singleton]
        exact ⟨response, hmem, by simp [hnone], by simp [hnone, Text.unlines]⟩

/-- A longer text has the complete lines of a shorter one, and goes on. -/
theorem terminated_grows {earlier response : Text} (h : earlier <+: response) :
    terminated earlier <+: terminated response := by
  obtain ⟨more, rfl⟩ := h
  obtain ⟨rest, -, hlines, hsplit⟩ := unlines_terminated earlier
  have hmore : terminated (earlier ++ more) = terminated earlier ++ terminated (rest ++ more) := by
    nth_rewrite 1 [hsplit]
    rw [List.append_assoc, terminated_unlines _ hlines]
  exact ⟨_, hmore.symm⟩

/-! ## One event -/

theorem quiet_append (state : σ) (front back : List Text) :
    Quiet eval state (front ++ back) ↔
      Quiet eval state front ∧ Quiet eval (stateAfter eval state front) back := by
  induction front generalizing state with
  | nil => simp [Quiet, stateAfter]
  | cons line front ih =>
      rw [List.cons_append, Quiet, ih, Quiet, and_assoc]
      rfl

theorem Quiet.mono {front lines : List Text} (h : Quiet eval state lines) (hfront : front <+: lines) :
    Quiet eval state front := by
  obtain ⟨back, rfl⟩ := hfront
  exact ((quiet_append state front back).mp h).1

/-- Lines of which none throws are evaluated once each. -/
theorem evalFrom_of_quiet (lines : List Text) (page : Page σ)
    (h : Quiet eval page.state lines) :
    evalFrom eval lines page =
      ⟨stateAfter eval page.state lines, page.currentLine + lines.length,
        page.evaluated ++ lines.zipIdx page.currentLine⟩ := by
  induction lines generalizing page with
  | nil => simp [evalFrom, stateAfter]
  | cons line lines ih =>
      have hrest := ih ⟨(eval page.state line).1, page.currentLine + 1,
        page.evaluated ++ [(line, page.currentLine)]⟩ h.2
      simp only [evalFrom, h.1, Bool.false_eq_true, if_false, hrest]
      simp [stateAfter, Nat.add_assoc, Nat.add_comm 1]

/-- A line that throws is the last one of the event, and the counter stays at it. -/
theorem evalFrom_of_throws (front back : List Text) (line : Text) (page : Page σ)
    (h : Quiet eval page.state front)
    (hthrows : (eval (stateAfter eval page.state front) line).2 = true) :
    evalFrom eval (front ++ line :: back) page =
      ⟨stateAfter eval page.state (front ++ [line]), page.currentLine + front.length,
        page.evaluated ++ (front ++ [line]).zipIdx page.currentLine⟩ := by
  induction front generalizing page with
  | nil => simp_all [evalFrom, stateAfter]
  | cons first front ih =>
      have hrest := ih ⟨(eval page.state first).1, page.currentLine + 1,
        page.evaluated ++ [(first, page.currentLine)]⟩ h.2 hthrows
      simp only [List.cons_append, evalFrom, h.1, Bool.false_eq_true, if_false, hrest]
      simp [stateAfter, Nat.add_assoc, Nat.add_comm 1]

/-- Where not all lines are quiet there is a first one that throws. -/
theorem exists_throws {lines : List Text} (h : ¬ Quiet eval state lines) :
    ∃ front line back, lines = front ++ line :: back ∧ Quiet eval state front ∧
      (eval (stateAfter eval state front) line).2 = true := by
  induction lines generalizing state with
  | nil => exact absurd trivial h
  | cons line lines ih =>
      by_cases hline : (eval state line).2 = false
      · obtain ⟨front, next, back, rfl, hquiet, hthrows⟩ := ih fun hrest => h ⟨hline, hrest⟩
        exact ⟨line :: front, next, back, rfl, ⟨hline, hquiet⟩, hthrows⟩
      · exact ⟨[], line, lines, rfl, trivial, by simpa [stateAfter] using hline⟩

/-- Nothing that was evaluated is undone. -/
theorem evaluated_grows (lines : List Text) (page : Page σ) :
    page.evaluated <+: (evalFrom eval lines page).evaluated := by
  induction lines generalizing page with
  | nil => exact List.prefix_rfl
  | cons line lines ih =>
      simp only [evalFrom]
      split
      · exact List.prefix_append _ _
      · exact (List.prefix_append _ _).trans (ih ⟨(eval page.state line).1, page.currentLine + 1,
          page.evaluated ++ [(line, page.currentLine)]⟩)

/-! ## Events one after another -/

/-- The page after some lines were evaluated once each. -/
def reached (eval : σ → Text → σ × Bool) (state : σ) (done : List Text) : Page σ :=
  ⟨stateAfter eval state done, done.length, done.zipIdx⟩

/-- The page after a line behind these threw. -/
def stuck (eval : σ → Text → σ × Bool) (state : σ) (done : List Text) (line : Text) : Page σ :=
  ⟨stateAfter eval state (done ++ [line]), done.length, (done ++ [line]).zipIdx⟩

section Events

variable {done : List Text} {response : Text}

theorem onprogress_of_quiet (hdone : done <+: terminated response)
    (h : Quiet eval state (terminated response)) :
    onprogress eval (reached eval state done) response =
      reached eval state (terminated response) := by
  obtain ⟨more, hmore⟩ := hdone
  rw [← hmore] at h ⊢
  have hdrop : (done ++ more).drop (reached eval state done).currentLine = more :=
    List.drop_left
  rw [onprogress, ← hmore, hdrop, evalFrom_of_quiet _ _ ((quiet_append state done more).mp h).2]
  simp [reached, stateAfter, List.zipIdx_append]

/-- The first line that throws in an event. -/
theorem onprogress_of_throws (hdone : done <+: terminated response)
    (hquiet : Quiet eval state done) (h : ¬ Quiet eval state (terminated response)) :
    ∃ front line, done <+: front ∧ front ++ [line] <+: terminated response ∧
      Quiet eval state front ∧ (eval (stateAfter eval state front) line).2 = true ∧
      onprogress eval (reached eval state done) response = stuck eval state front line := by
  obtain ⟨more, hmore⟩ := hdone
  rw [← hmore] at h ⊢
  obtain ⟨front, line, back, rfl, hfront, hthrows⟩ :=
    exists_throws fun hrest => h ((quiet_append state done more).mpr ⟨hquiet, hrest⟩)
  refine ⟨done ++ front, line, List.prefix_append _ _, ⟨back, by simp⟩,
    (quiet_append state done front).mpr ⟨hquiet, hfront⟩, ?_, ?_⟩
  · simpa [stateAfter] using hthrows
  · have hdrop : (done ++ (front ++ line :: back)).drop (reached eval state done).currentLine =
        front ++ line :: back := List.drop_left
    rw [onprogress, ← hmore, hdrop, evalFrom_of_throws _ _ _ _ hfront hthrows]
    simp [reached, stuck, stateAfter, List.zipIdx_append]

/-- The next event hands the line that threw to `eval` again. -/
theorem evaluated_again (eval : σ → Text → σ × Bool) (state : σ) {line : Text}
    (h : done ++ [line] <+: terminated response) :
    (done ++ [line]).zipIdx ++ [(line, done.length)] <+:
      (onprogress eval (stuck eval state done line) response).evaluated := by
  obtain ⟨more, hmore⟩ := h
  have hdrop : (terminated response).drop (stuck eval state done line).currentLine =
      line :: more := by
    rw [← hmore, List.append_assoc]
    exact List.drop_left
  rw [onprogress, hdrop]
  simp only [evalFrom]
  split
  · exact List.prefix_rfl
  · exact evaluated_grows more ⟨_, done.length + 1, (done ++ [line]).zipIdx ++ [(line, done.length)]⟩

theorem evaluated_hermione (eval : σ → Text → σ × Bool) (responses : List Text) (page : Page σ) :
    page.evaluated <+: (hermione eval page responses).evaluated := by
  induction responses generalizing page with
  | nil => exact List.prefix_rfl
  | cons response responses ih => exact (evaluated_grows _ _).trans (ih _)

/-- A line evaluated twice is not a line evaluated once. -/
theorem not_twice {line : Text} {lines : List Text} :
    ¬ (done ++ [line]).zipIdx ++ [(line, done.length)] <+: lines.zipIdx := by
  intro h
  have hplaces : ((done ++ [line]).zipIdx ++ [(line, done.length)]).map Prod.snd <+:
      lines.zipIdx.map Prod.snd := h.map Prod.snd
  have hnodup : (lines.zipIdx.map Prod.snd).Nodup := by
    rw [List.zipIdx_map_snd]
    exact List.nodup_range'
  have htwice := hnodup.sublist hplaces.sublist
  rw [List.map_append, List.zipIdx_map_snd, List.nodup_append] at htwice
  exact htwice.2.2 done.length (by simp) done.length (by simp) rfl

/-- A shorter beginning does not need the last line. -/
theorem prefix_dropLast {front lines : List Text} (h : front <+: lines)
    (hshorter : front.length < lines.length) : front <+: lines.dropLast := by
  have hne : lines ≠ [] := List.length_pos_iff.mp (Nat.zero_lt_of_lt hshorter)
  rw [← List.dropLast_append_getLast hne, List.prefix_concat_iff] at h
  rcases h with heq | h
  · rw [List.dropLast_append_getLast hne] at heq
    exact absurd (congrArg List.length heq) (Nat.ne_of_lt hshorter)
  · exact h

/-- The one event that is left brings the last lines. -/
theorem evaluated_last_iff (hdone : done <+: terminated response) (hquiet : Quiet eval state done) :
    (onprogress eval (reached eval state done) response).evaluated =
        (terminated response).zipIdx ↔
      Quiet eval state (terminated response) ∨
        Quiet eval state (terminated response).dropLast := by
  by_cases hall : Quiet eval state (terminated response)
  · rw [onprogress_of_quiet hdone hall]
    exact ⟨fun _ => .inl hall, fun _ => rfl⟩
  · obtain ⟨front, line, -, hstart, hfront, hthrows, hstuck⟩ :=
      onprogress_of_throws hdone hquiet hall
    rw [hstuck]
    constructor
    · intro heq
      have hlines : front ++ [line] = terminated response := by
        have hfst := congrArg (List.map Prod.fst) heq
        simpa [stuck, List.zipIdx_map_fst] using hfst
      exact .inr (by rwa [← hlines, List.dropLast_concat])
    · intro hdropped
      by_cases hlength : (front ++ [line]).length < (terminated response).length
      · have hquiet' := (hdropped.resolve_left hall).mono (prefix_dropLast hstart hlength)
        have hline := ((quiet_append state front [line]).mp hquiet').2.1
        rw [hthrows] at hline
        cases hline
      · rw [← hstart.eq_of_length_le (Nat.le_of_not_lt hlength)]
        rfl

/-- From quiet lines on, every line is evaluated once exactly if the events are
undisturbed. -/
theorem evaluated_iff (done : List Text) (earlier : List Text)
    (hgrows : (earlier ++ [response]).Pairwise (· <+: ·))
    (hdone : ∀ event ∈ earlier ++ [response], done <+: terminated event)
    (hquiet : Quiet eval state done) :
    (hermione eval (reached eval state done) (earlier ++ [response])).evaluated =
        (terminated response).zipIdx ↔
      Undisturbed eval state earlier response := by
  induction earlier generalizing done with
  | nil =>
      have hlast := evaluated_last_iff (hdone response (by simp)) hquiet
      simpa [Undisturbed, hermione] using hlast
  | cons event earlier ih =>
      rw [List.cons_append, List.pairwise_cons] at hgrows
      have hlonger : terminated event <+: terminated response :=
        terminated_grows (hgrows.1 response (by simp))
      have hevent := hdone event (by simp)
      rw [List.cons_append, hermione, List.foldl_cons, ← hermione]
      by_cases hall : Quiet eval state (terminated event)
      · rw [onprogress_of_quiet hevent hall,
          ih _ hgrows.2 (fun next hnext => terminated_grows (hgrows.1 next hnext)) hall]
        refine or_congr_right' fun hloud => and_congr_right fun _ => ?_
        have hshorter : (terminated event).length < (terminated response).length := by
          by_contra hlength
          rw [hlonger.eq_of_length_le (Nat.le_of_not_lt hlength)] at hall
          exact hloud hall
        simp [hshorter]
      · obtain ⟨front, line, -, hstart, -, -, hstuck⟩ :=
          onprogress_of_throws hevent hquiet hall
        have hnever : ¬ Undisturbed eval state (event :: earlier) response := by
          rintro (hloud | ⟨hloud, hlengths⟩)
          · exact hall (hloud.mono hlonger)
          · exact hall (hloud.mono (prefix_dropLast hlonger (hlengths event (by simp))))
        rw [hstuck]
        refine iff_of_false ?_ hnever
        obtain ⟨next, rest, hrest⟩ := List.exists_cons_of_ne_nil
          (List.append_ne_nil_of_right_ne_nil earlier (List.cons_ne_nil response []))
        have hnext : front ++ [line] <+: terminated next :=
          hstart.trans (terminated_grows (hgrows.1 next (by simp [hrest])))
        rw [hrest, hermione, List.foldl_cons, ← hermione]
        intro heq
        have htwice := (evaluated_again eval state hnext).trans (evaluated_hermione eval rest _)
        rw [heq] at htwice
        exact not_twice htwice

end Events

/-- For growing texts that end in the whole response, every complete line of it is
evaluated exactly once and in order if and only if, evaluated one after the other,
no line throws but possibly the last one, and that one only in the last event. -/
theorem evaluates_each_line (eval : σ → Text → σ × Bool) (state : σ) (earlier : List Text)
    (response : Text) (hgrows : (earlier ++ [response]).Pairwise (· <+: ·)) :
    (hermione eval (.fresh state) (earlier ++ [response])).evaluated =
        (terminated response).zipIdx ↔
      Undisturbed eval state earlier response :=
  evaluated_iff [] earlier hgrows (fun _ _ => List.nil_prefix) trivial

/-- A page that counts its lines, on which markup is no script. -/
def sampleEval (count : ℕ) (line : Text) : ℕ × Bool := (count + 1, line.head? == some '<')

/-- Three lines in four pieces, cut within a line and behind one. -/
theorem evaluates_each_line_sample :
    (hermione sampleEval (.fresh 0)
      (["init".toList, "init();
add".toList, "init();
add();
".toList] ++
        ["init();
add();
<br>
".toList])).evaluated =
      [("init();".toList, 0), ("add();".toList, 1), ("<br>".toList, 2)] :=
  (evaluates_each_line sampleEval 0
    ["init".toList, "init();
add".toList, "init();
add();
".toList]
    "init();
add();
<br>
".toList (by decide)).mpr (by decide)

/-- A warning in front of a command: each event evaluates the warning, none the
command. -/
theorem warning_blocks_page :
    ¬ ∀ (eval : ℕ → Text → ℕ × Bool) (state : ℕ) (earlier : List Text) (response : Text),
      (earlier ++ [response]).Pairwise (· <+: ·) →
        (hermione eval (.fresh state) (earlier ++ [response])).evaluated =
          (terminated response).zipIdx := by
  intro hclaim
  have hfails := hclaim sampleEval 0 ["<br>
".toList] "<br>
add();
".toList (by decide)
  revert hfails
  decide

end WizardPage

end WampManager
