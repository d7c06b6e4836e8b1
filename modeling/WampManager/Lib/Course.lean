/-
# Requests that may end early

A request is a sequence of statements, any of which may end it: by leaving the
program, by an exception or by a fatal error. The state at that point stays.
Statements are composed by `bind`.
-/

universe u

/-- A request after one of its statements: going on, or ended there. -/
inductive Course (σ : Type u)
  | next (s : σ)
  | stop (s : σ)

namespace Course

variable {σ : Type u}

/-- The state a request leaves, however it ends. -/
def state : Course σ → σ
  | .next s => s
  | .stop s => s

/-- Go on after a statement that returned. -/
def bind : Course σ → (σ → Course σ) → Course σ
  | .next s, f => f s
  | .stop s, _ => .stop s

@[simp]
theorem bind_next (s : σ) (f : σ → Course σ) : (next s).bind f = f s := rfl

@[simp]
theorem bind_stop (s : σ) (f : σ → Course σ) : (stop s).bind f = .stop s := rfl

end Course
