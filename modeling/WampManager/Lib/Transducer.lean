/-
# Transducers

A transducer reads a list from left to right, one element a step, and writes a list
while it does; at the end of its input it writes what it still holds. Readers of
words and tokens are transducers. Two rules cover what is needed of them: what is
written weighs no more than what was read, and where one symbol is written for
one mark only, the output is cut at the symbol exactly where the input is cut at a
mark.
-/

import Mathlib.Algebra.BigOperators.Group.List.Basic
import Mathlib.Algebra.GroupWithZero.Nat
import Mathlib.Data.List.Basic

universe u v w

/-- One step for each element read, and what is written at the end. -/
structure Transducer (σ : Type u) (α : Type v) (β : Type w) where
  step : σ → α → List β × σ
  finish : σ → List β

namespace Transducer

variable {σ : Type u} {α : Type v} {β : Type w} (M : Transducer σ α β)

/-- All that is written. -/
def run : σ → List α → List β
  | s, [] => M.finish s
  | s, a :: as => (M.step s a).1 ++ run (M.step s a).2 as

/-- What is written before the end of the input, and the state reached. -/
def advance : σ → List α → List β × σ
  | s, [] => ([], s)
  | s, a :: as =>
      ((M.step s a).1 ++ (advance (M.step s a).2 as).1, (advance (M.step s a).2 as).2)

theorem run_append (s : σ) (as bs : List α) :
    M.run s (as ++ bs) = (M.advance s as).1 ++ M.run (M.advance s as).2 bs := by
  induction as generalizing s with
  | nil => rfl
  | cons a as ih =>
      rw [List.cons_append, run, ih, advance, List.append_assoc]

theorem advance_append (s : σ) (as bs : List α) :
    M.advance s (as ++ bs) = ((M.advance s as).1 ++ (M.advance (M.advance s as).2 bs).1,
      (M.advance (M.advance s as).2 bs).2) := by
  induction as generalizing s with
  | nil => rfl
  | cons a as ih =>
      rw [List.cons_append, advance, ih, advance, List.append_assoc]

/-- The input up to a point from which reading starts afresh. -/
theorem run_append_of_advance {s s' : σ} {as : List α} {out : List β}
    (h : M.advance s as = (out, s')) (bs : List α) :
    M.run s (as ++ bs) = out ++ M.run s' bs := by
  rw [run_append, h]

/-! ## Weights -/

section

variable {M} (weight : β → ℕ) (cost : α → ℕ) (potential : σ → ℕ)

/-- What is written weighs no more than the input costs, if this holds for each
step, with what the states hold counted in. -/
theorem weight_run_le
    (hstep : ∀ s a, ((M.step s a).1.map weight).sum + potential (M.step s a).2 ≤
      potential s + cost a)
    (hfinish : ∀ s, ((M.finish s).map weight).sum ≤ potential s) (s : σ) (as : List α) :
    ((M.run s as).map weight).sum ≤ potential s + (as.map cost).sum := by
  induction as generalizing s with
  | nil => simpa [run] using hfinish s
  | cons a as ih =>
      have hfirst := hstep s a
      have hrest := ih (M.step s a).2
      rw [run, List.map_append, List.sum_append, List.map_cons, List.sum_cons]
      omega

/-- The same where all elements but one are free. -/
theorem weight_run_le_count [DecidableEq α] (mark : α)
    (hstep : ∀ s a, ((M.step s a).1.map weight).sum + potential (M.step s a).2 ≤
      potential s + if a = mark then 1 else 0)
    (hfinish : ∀ s, ((M.finish s).map weight).sum ≤ potential s) (s : σ) (as : List α) :
    ((M.run s as).map weight).sum ≤ potential s + as.count mark := by
  have hcount : (as.map fun a => if a = mark then 1 else 0).sum = as.count mark := by
    induction as with
    | nil => rfl
    | cons a as ih =>
        rw [List.map_cons, List.sum_cons, ih, List.count_cons, Nat.add_comm]
        simp
  rw [← hcount]
  exact weight_run_le weight _ potential hstep hfinish s as

end

/-! ## Marks -/

/-- A symbol that is written for one mark only, as the last of a step, and behind
which reading starts afresh. -/
structure Marks (mark : α) (symbol : β) (fresh : σ) : Prop where
  step : ∀ s a, symbol ∈ (M.step s a).1 → a = mark ∧ (M.step s a).2 = fresh ∧
    ∃ out, (M.step s a).1 = out ++ [symbol] ∧ symbol ∉ out
  finish : ∀ s, symbol ∉ M.finish s

variable {M} {mark : α} {symbol : β} {fresh : σ}

/-- The first list that ends in the symbol and holds it nowhere else. -/
private theorem append_inj_of_not_mem {out rest first second : List β} (hout : symbol ∉ out)
    (h : out ++ symbol :: rest = first ++ symbol :: second) :
    (first = out ∧ second = rest) ∨
      ∃ more, first = out ++ symbol :: more ∧ rest = more ++ symbol :: second := by
  rcases List.append_eq_append_iff.mp h with ⟨more, rfl, heq⟩ | ⟨more, rfl, heq⟩
  · cases more with
    | nil => exact .inl ⟨List.append_nil out, (List.cons.inj heq).2.symm⟩
    | cons b more =>
        obtain ⟨rfl, hrest⟩ := List.cons.inj heq
        exact .inr ⟨more, rfl, hrest⟩
  · cases more with
    | nil => exact .inl ⟨(List.append_nil first).symm, (List.cons.inj heq).2⟩
    | cons b more =>
        obtain ⟨rfl, -⟩ := List.cons.inj heq
        exact absurd (List.mem_append_right first List.mem_cons_self) hout

/-- Where the symbol stands in the output, the mark stands in the input. -/
theorem Marks.exists_of_run_eq (hmarks : M.Marks mark symbol fresh) {s : σ} {as : List α}
    {first second : List β} (h : M.run s as = first ++ symbol :: second) :
    ∃ front back, as = front ++ mark :: back ∧
      M.advance s (front ++ [mark]) = (first ++ [symbol], fresh) ∧
      M.run fresh back = second := by
  induction as generalizing s first with
  | nil =>
      have hmem : symbol ∈ M.finish s := by
        rw [show M.finish s = first ++ symbol :: second from h]
        exact List.mem_append_right first List.mem_cons_self
      exact absurd hmem (hmarks.finish s)
  | cons a as ih =>
      rw [run] at h
      by_cases hmem : symbol ∈ (M.step s a).1
      · obtain ⟨rfl, hfresh, out, hout, hnot⟩ := hmarks.step s a hmem
        rw [hout, hfresh, List.append_assoc, List.singleton_append] at h
        rcases append_inj_of_not_mem hnot h with ⟨rfl, rfl⟩ | ⟨more, rfl, hrest⟩
        · refine ⟨[], as, rfl, ?_, rfl⟩
          rw [List.nil_append, advance, hout, hfresh]
          exact congrArg (·, fresh) (List.append_nil _)
        · obtain ⟨front, back, rfl, hadvance, hback⟩ := ih hrest
          refine ⟨a :: front, back, rfl, ?_, hback⟩
          rw [List.cons_append, advance, hfresh, hadvance, hout]
          simp
      · have hlonger : ∃ more, first = (M.step s a).1 ++ more ∧
            M.run (M.step s a).2 as = more ++ symbol :: second := by
          rcases List.append_eq_append_iff.mp h with ⟨more, rfl, heq⟩ | ⟨more, hout, heq⟩
          · exact ⟨more, rfl, heq⟩
          · cases more with
            | nil => exact ⟨[], by simpa using hout.symm, by simpa using heq.symm⟩
            | cons b more =>
                obtain ⟨rfl, -⟩ := List.cons.inj heq
                rw [hout] at hmem
                exact absurd (List.mem_append_right first List.mem_cons_self) hmem
        obtain ⟨more, rfl, hrest⟩ := hlonger
        obtain ⟨front, back, rfl, hadvance, hback⟩ := ih hrest
        refine ⟨a :: front, back, rfl, ?_, hback⟩
        rw [List.cons_append, advance, hadvance, List.append_assoc]

end Transducer
