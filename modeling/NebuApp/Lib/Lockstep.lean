import NebuApp.Lib.Loop

/-!
# Programs in lockstep

Two programs over different states, and with different exceptions, that return the same or both
throw: `Alike E R` relates their results, `R` the states behind what they return and `E` what they
throw. Programs made of parts that are alike are alike, and so are loops whose rounds are.
-/

namespace Exec

variable {σ τ ε ε' α β : Type} {E : ε × σ → ε' × τ → Prop} {R R' : σ → τ → Prop}

/-- Both return the same, or both throw. -/
inductive Alike (E : ε × σ → ε' × τ → Prop) (R : σ → τ → Prop) {α : Type} :
    Except ε α × σ → Except ε' α × τ → Prop where
  | returns {a : α} {s : σ} {t : τ} (h : R s t) : Alike E R (.ok a, s) (.ok a, t)
  | throws {e : ε} {e' : ε'} {s : σ} {t : τ} (h : E (e, s) (e', t)) :
      Alike E R (.error e, s) (.error e', t)

theorem Alike.bind {x : Prog σ ε α} {y : Prog τ ε' α} {f : α → Prog σ ε β} {g : α → Prog τ ε' β}
    {s : σ} {t : τ} (hx : Alike E R (exec x s) (exec y t))
    (hf : ∀ a s t, R s t → Alike E R' (exec (f a) s) (exec (g a) t)) :
    Alike E R' (exec (x >>= f) s) (exec (y >>= g) t) := by
  generalize hp : exec x s = p at hx
  generalize hq : exec y t = q at hx
  cases hx with
  | returns h =>
    rw [exec_bind_ok hp, exec_bind_ok hq]
    exact hf _ _ _ h
  | throws h =>
    rw [exec_bind_error hp, exec_bind_error hq]
    exact .throws h

theorem Alike.and_eq {p : Except ε α × σ} {q : Except ε' α × τ} (h : Alike E R p q) :
    Alike E (fun s t => R s t ∧ t = q.2) p q := by
  cases h with
  | returns h => exact .returns ⟨h, rfl⟩
  | throws h => exact .throws h

/-- **The rule of two loops.** If the flags agree and the rounds are alike, so are the loops.
Induction on the fuel. -/
theorem Alike.loopUntil {stop : σ → Bool} {stop' : τ → Bool} {body : Nat → Prog σ ε Unit}
    {body' : Nat → Prog τ ε' Unit} {R : Nat → σ → τ → Prop}
    (hstop : ∀ k s t, R k s t → stop s = stop' t)
    (hbody : ∀ k s t, R k s t → Alike E (R (k + 1)) (exec (body k) s) (exec (body' k) t))
    (fuel : Nat) : ∀ k s t, R k s t →
      Alike E (fun s t => ∃ k, R k s t) (exec (Exec.loopUntil stop body fuel k) s)
        (exec (Exec.loopUntil stop' body' fuel k) t) := by
  induction fuel with
  | zero => exact fun k s t h => .returns ⟨k, h⟩
  | succ fuel ih =>
    intro k s t h
    have hflag := hstop k s t h
    rw [Exec.loopUntil, Exec.loopUntil, exec_bind_ok (exec_get s), exec_bind_ok (exec_get t), hflag]
    -- the flags agree, so that both loops end here or neither does
    cases stop' t with
    | true => exact .returns ⟨k, h⟩
    | false => exact (hbody k s t h).bind fun _ s' t' h' => ih (k + 1) s' t' h'

end Exec
