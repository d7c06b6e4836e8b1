/-
# Runs of a transition system

A system is a step relation between states, labelled by the request that makes
the step. A run is a list of labels together with the states before and after.
Two rules cover the development: an invariant that every step keeps holds after
every run, and where a side condition decides whether a step keeps it, it holds
after every run of the guarded system, and there the condition decides for the
next step.
-/

import Mathlib.Data.List.Basic

namespace Transition

universe u v

variable {σ : Type u} {α : Type v}

/-- `Run step s labels t`: the labels lead from `s` to `t`, one step each. -/
inductive Run (step : σ → α → σ → Prop) : σ → List α → σ → Prop
  | nil (s : σ) : Run step s [] s
  | snoc {s t u : σ} {labels : List α} {a : α} :
      Run step s labels t → step t a u → Run step s (labels ++ [a]) u

/-- The steps that meet a condition on the state before and the label. -/
def Guarded (guard : σ → α → Prop) (step : σ → α → σ → Prop) : σ → α → σ → Prop :=
  fun s a t => guard s a ∧ step s a t

variable {step : σ → α → σ → Prop} {s t : σ} {labels : List α}

/-- The invariant rule: what holds at the start and survives every step holds
after every run. -/
theorem Run.invariant (inv : σ → Prop) (run : Run step s labels t) (start : inv s)
    (keeps : ∀ s a t, inv s → step s a t → inv t) : inv t := by
  induction run with
  | nil => exact start
  | snoc _ hstep ih => exact keeps _ _ _ ih hstep

/-- The rule for a condition under which, and only under which, a step keeps the
invariant. -/
theorem Run.invariant_iff {guard : σ → α → Prop} (inv : σ → Prop)
    (run : Run (Guarded guard step) s labels t) (start : inv s)
    (keeps_iff : ∀ s a t, inv s → step s a t → (inv t ↔ guard s a)) :
    inv t ∧ ∀ a u, step t a u → (inv u ↔ guard t a) := by
  have hreached : inv t :=
    run.invariant inv start fun s a t h hstep => (keeps_iff s a t h hstep.2).mpr hstep.1
  exact ⟨hreached, fun a u hstep => keeps_iff t a u hreached hstep⟩

end Transition
