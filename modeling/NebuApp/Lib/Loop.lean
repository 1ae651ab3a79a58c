import NebuApp.Lib.Exec

/-!
# Loops that a flag of the state ends

`loopUntil stop body` tests a flag before each round and never within one, so a round that raises
it is finished first. `afterRounds` is the state after so many rounds, whatever the flag says; the
lemmas about `exec` say how far the loop follows it. `afterRounds_invariant` and
`loopUntil_invariant` are the rules for what every round keeps.
-/

namespace Exec

variable {σ ε : Type}

/-- `while (!stop) body`, for at most `fuel` evaluations of the condition, its rounds numbered from
`k` on. The result tells whether the loop ended. -/
def loopUntil (stop : σ → Bool) (body : Nat → Prog σ ε Unit) : Nat → Nat → Prog σ ε Bool
  | 0, _ => pure false
  | fuel + 1, k => do
    if stop (← get) then
      pure true
    else
      body k
      loopUntil stop body fuel (k + 1)

/-- The state after `k` rounds. -/
def afterRounds (body : Nat → Prog σ ε Unit) (s : σ) : Nat → σ
  | 0 => s
  | k + 1 => (exec (body k) (afterRounds body s k)).2

/-- A round that returns. -/
def Returns (body : Nat → Prog σ ε Unit) (s : σ) (k : Nat) : Prop :=
  exec (body k) (afterRounds body s k) = (.ok (), afterRounds body s (k + 1))

/-- **Invariants of rounds.** If every round returns from the states of an invariant and keeps it,
every round returns and the invariant holds after each. -/
theorem afterRounds_invariant {body : Nat → Prog σ ε Unit} {I : σ → Prop}
    (hbody : ∀ k s, I s → ∃ s', exec (body k) s = (.ok (), s') ∧ I s')
    {s : σ} (hs : I s) (k : Nat) :
    I (afterRounds body s k) ∧ Returns body s k := by
  have hround : ∀ k, I (afterRounds body s k) →
      Returns body s k ∧ I (afterRounds body s (k + 1)) := by
    intro k hk
    obtain ⟨s', hexec, hs'⟩ := hbody k _ hk
    have hnext : afterRounds body s (k + 1) = s' := by rw [afterRounds, hexec]
    rw [Returns, hnext]
    exact ⟨hexec, hs'⟩
  have hall : I (afterRounds body s k) := by
    induction k with
    | zero => exact hs
    | succ k ih => exact (hround k ih).2
  exact ⟨hall, (hround k hall).1⟩

section Loop

variable {stop : σ → Bool} {body : Nat → Prog σ ε Unit} {s : σ}

theorem exec_loopUntil_stop (h : stop s = true) (fuel k : Nat) :
    exec (loopUntil stop body (fuel + 1) k) s = (.ok true, s) := by
  rw [loopUntil, exec_bind_ok (exec_get s), if_pos h]
  rfl

theorem exec_loopUntil_step {s' : σ} {k : Nat} (h : stop s = false)
    (hbody : exec (body k) s = (.ok (), s')) {fuel : Nat} :
    exec (loopUntil stop body (fuel + 1) k) s = exec (loopUntil stop body fuel (k + 1)) s' := by
  rw [loopUntil, exec_bind_ok (exec_get s), if_neg (by simp [h]), exec_bind_ok hbody]

theorem exec_loopUntil_throw {s' : σ} {e : ε} {k : Nat} (h : stop s = false)
    (hbody : exec (body k) s = (.error e, s')) {fuel : Nat} :
    exec (loopUntil stop body (fuel + 1) k) s = (.error e, s') := by
  rw [loopUntil, exec_bind_ok (exec_get s), if_neg (by simp [h]), exec_bind_error hbody]

/-- **The rule of the loop.** What every round keeps, whether it returns or throws, holds when the
loop stops, at whatever point. Induction on the fuel. -/
theorem loopUntil_invariant {I : σ → Prop}
    (hbody : ∀ k s, I s → I (exec (body k) s).2) (fuel : Nat) :
    ∀ (k : Nat) (s : σ), I s → I (exec (loopUntil stop body fuel k) s).2 := by
  induction fuel with
  | zero => exact fun k s hs => hs
  | succ fuel ih =>
    intro k s hs
    cases h : stop s with
    | true =>
      rw [exec_loopUntil_stop h]
      exact hs
    | false =>
      have hround := hbody k s hs
      rcases hexec : exec (body k) s with ⟨e | _, s'⟩
      · rw [exec_loopUntil_throw h hexec]
        rwa [hexec] at hround
      · rw [exec_loopUntil_step h hexec]
        rw [hexec] at hround
        exact ih (k + 1) s' hround

theorem returns_succ {n : Nat} (hbody : ∀ j < n, Returns body s j) {s' : σ}
    (hexec : exec (body n) (afterRounds body s n) = (.ok (), s')) :
    afterRounds body s (n + 1) = s' ∧ ∀ j < n + 1, Returns body s j := by
  have hnext : afterRounds body s (n + 1) = s' := by rw [afterRounds, hexec]
  refine ⟨hnext, fun j hj => ?_⟩
  rcases Nat.lt_succ_iff_lt_or_eq.mp hj with hj | rfl
  · exact hbody j hj
  · rw [Returns, hexec, hnext]

/-- While rounds return and leave the flag down, the loop does nothing but rounds. Induction on
their number. -/
theorem exec_loopUntil_first {n : Nat} (hbody : ∀ j < n, Returns body s j)
    (hrun : ∀ j < n, stop (afterRounds body s j) = false) (fuel : Nat) :
    exec (loopUntil stop body (n + fuel) 0) s =
      exec (loopUntil stop body fuel n) (afterRounds body s n) := by
  induction n generalizing fuel with
  | zero =>
    rw [Nat.zero_add]
    rfl
  | succ n ih =>
    rw [show n + 1 + fuel = n + (fuel + 1) by omega,
      ih (fun j hj => hbody j (by omega)) (fun j hj => hrun j (by omega)) (fuel + 1)]
    exact exec_loopUntil_step (hrun n (by omega)) (hbody n (by omega))

/-- **The loop ends after the round that raises the flag**, with enough fuel. -/
theorem exec_loopUntil_ends {n fuel : Nat} (hbody : ∀ j < n, Returns body s j)
    (hstop : stop (afterRounds body s n) = true)
    (hrun : ∀ j < n, stop (afterRounds body s j) = false) (hfuel : n < fuel) :
    exec (loopUntil stop body fuel 0) s = (.ok true, afterRounds body s n) := by
  obtain ⟨rest, rfl⟩ : ∃ rest, fuel = n + (rest + 1) := ⟨fuel - n - 1, by omega⟩
  rw [exec_loopUntil_first hbody hrun (rest + 1)]
  exact exec_loopUntil_stop hstop rest n

/-- **The loop ends with the round that throws**, if none before it raises the flag. -/
theorem exec_loopUntil_throws {n fuel : Nat} (hbody : ∀ j < n, Returns body s j)
    (hrun : ∀ j ≤ n, stop (afterRounds body s j) = false) {e : ε} {s' : σ}
    (hthrow : exec (body n) (afterRounds body s n) = (.error e, s')) (hfuel : n < fuel) :
    exec (loopUntil stop body fuel 0) s = (.error e, s') := by
  obtain ⟨rest, rfl⟩ : ∃ rest, fuel = n + (rest + 1) := ⟨fuel - n - 1, by omega⟩
  rw [exec_loopUntil_first hbody (fun j hj => hrun j (by omega)) (rest + 1)]
  exact exec_loopUntil_throw (hrun n (Nat.le_refl n)) hthrow

/-- **Why a loop throws.** If it does, one of its rounds does, and the rounds before that return
and leave the flag down. Induction on the fuel. -/
theorem exec_loopUntil_error {e : ε} {s' : σ} (fuel : Nat) : ∀ {n : Nat},
    (∀ j < n, Returns body s j) → (∀ j < n, stop (afterRounds body s j) = false) →
    exec (loopUntil stop body fuel n) (afterRounds body s n) = (.error e, s') →
    ∃ k, n ≤ k ∧ k < n + fuel ∧ (∀ j < k, Returns body s j) ∧
      (∀ j ≤ k, stop (afterRounds body s j) = false) ∧
      exec (body k) (afterRounds body s k) = (.error e, s') := by
  induction fuel with
  | zero =>
    intro n _ _ h
    cases h
  | succ fuel ih =>
    intro n hbody hrun h
    cases hstop : stop (afterRounds body s n) with
    | true =>
      rw [exec_loopUntil_stop hstop] at h
      cases h
    | false =>
      have hrun' : ∀ j ≤ n, stop (afterRounds body s j) = false := by
        intro j hj
        rcases Nat.lt_or_eq_of_le hj with hj | rfl
        · exact hrun j hj
        · exact hstop
      rcases hexec : exec (body n) (afterRounds body s n) with ⟨e' | u, s₁⟩
      · rw [exec_loopUntil_throw hstop hexec] at h
        obtain ⟨rfl, rfl⟩ : e' = e ∧ s₁ = s' := by simpa using h
        exact ⟨n, Nat.le_refl n, by omega, hbody, hrun', hexec⟩
      · obtain ⟨hnext, hreturns⟩ := returns_succ hbody hexec
        rw [exec_loopUntil_step hstop hexec, ← hnext] at h
        obtain ⟨k, hle, hlt, hk⟩ := ih hreturns (fun j hj => hrun' j (by omega)) h
        exact ⟨k, by omega, by omega, hk⟩

/-- **What a loop that returns has done**: rounds that return, up to the one that raises the flag or
to the end of the fuel. Induction on the fuel. -/
theorem exec_loopUntil_ok {ended : Bool} {s' : σ} (fuel : Nat) : ∀ {n : Nat},
    (∀ j < n, Returns body s j) → (∀ j < n, stop (afterRounds body s j) = false) →
    exec (loopUntil stop body fuel n) (afterRounds body s n) = (.ok ended, s') →
    ∃ k ≤ n + fuel, (∀ j < k, Returns body s j) ∧ (∀ j < k, stop (afterRounds body s j) = false) ∧
      s' = afterRounds body s k ∧
      if ended then k < n + fuel ∧ stop (afterRounds body s k) = true else k = n + fuel := by
  induction fuel with
  | zero =>
    intro n hbody hrun h
    cases h
    exact ⟨n, Nat.le_refl n, hbody, hrun, rfl, rfl⟩
  | succ fuel ih =>
    intro n hbody hrun h
    cases hstop : stop (afterRounds body s n) with
    | true =>
      rw [exec_loopUntil_stop hstop] at h
      cases h
      exact ⟨n, by omega, hbody, hrun, rfl, by omega, hstop⟩
    | false =>
      rcases hexec : exec (body n) (afterRounds body s n) with ⟨e | _, s₁⟩
      · rw [exec_loopUntil_throw hstop hexec] at h
        cases h
      · obtain ⟨hnext, hreturns⟩ := returns_succ hbody hexec
        rw [exec_loopUntil_step hstop hexec, ← hnext] at h
        have hrun' : ∀ j < n + 1, stop (afterRounds body s j) = false := by
          intro j hj
          rcases Nat.lt_succ_iff_lt_or_eq.mp hj with hj | rfl
          · exact hrun j hj
          · exact hstop
        obtain ⟨k, hle, hk⟩ := ih hreturns hrun' h
        rw [show n + 1 + fuel = n + (fuel + 1) by omega] at hle hk
        exact ⟨k, hle, hk⟩

/-- While nothing raises the flag, the loop makes as many rounds as it is given fuel. -/
theorem exec_loopUntil_runs {fuel : Nat} (hbody : ∀ j < fuel, Returns body s j)
    (hrun : ∀ j < fuel, stop (afterRounds body s j) = false) :
    exec (loopUntil stop body fuel 0) s = (.ok false, afterRounds body s fuel) := by
  have hrounds := exec_loopUntil_first hbody hrun 0
  rw [Nat.add_zero] at hrounds
  rw [hrounds]
  rfl

end Loop

end Exec
