import Mathlib.Logic.Basic

/-!
# Imperative code that throws

`Exec σ ε α` is a computation over a mutable state `σ` that returns an `α` or throws an `ε`.
As in the imperative languages it stands for, a throw does not undo the writes made before it:
the final state comes with either outcome. `exec` runs a computation; the `exec_*` equations
below run one construct each, and are all a proof needs to step through a program.
-/

namespace Exec

/-- Code over the state `σ` that may throw `ε`; a throw keeps the state it happened in. -/
abbrev Prog (σ ε : Type) : Type → Type := ExceptT ε (StateM σ)

variable {σ ε α β : Type}

/-- The outcome and the final state of `x` started in `s`. -/
def exec (x : Prog σ ε α) (s : σ) : Except ε α × σ := x s

@[simp] theorem exec_pure (a : α) (s : σ) : exec (pure a : Prog σ ε α) s = (.ok a, s) := rfl

@[simp] theorem exec_get (s : σ) : exec (get : Prog σ ε σ) s = (.ok s, s) := rfl

/-- Sequencing runs the continuation from the state the first part left, or stops at its throw. -/
theorem exec_bind (x : Prog σ ε α) (f : α → Prog σ ε β) (s : σ) :
    exec (x >>= f) s =
      match exec x s with
      | (.ok a, s') => exec (f a) s'
      | (.error e, s') => (.error e, s') := by
  show (ExceptT.bindCont f (x s).1) (x s).2 = _
  unfold exec
  cases x s with
  | mk outcome s' => cases outcome <;> rfl

theorem exec_bind_ok {x : Prog σ ε α} {f : α → Prog σ ε β} {s s' : σ} {a : α}
    (h : exec x s = (.ok a, s')) : exec (x >>= f) s = exec (f a) s' := by
  rw [exec_bind, h]

theorem exec_bind_error {x : Prog σ ε α} {f : α → Prog σ ε β} {s s' : σ} {e : ε}
    (h : exec x s = (.error e, s')) : exec (x >>= f) s = (.error e, s') := by
  rw [exec_bind, h]

/-- `try`: a body that returns is the result, a throw runs the handler in the state it left. -/
theorem exec_tryCatch (x : Prog σ ε α) (handler : ε → Prog σ ε α) (s : σ) :
    exec (tryCatch x handler) s =
      match exec x s with
      | (.ok a, s') => (.ok a, s')
      | (.error e, s') => exec (handler e) s' := by
  show (match (x s).1 with
    | .ok a => (pure (.ok a) : StateM σ (Except ε α))
    | .error e => handler e) (x s).2 = _
  unfold exec
  cases x s with
  | mk outcome s' => cases outcome <;> rfl

end Exec
