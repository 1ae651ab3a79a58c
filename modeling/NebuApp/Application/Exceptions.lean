import NebuApp.Application.Rounds
import NebuApp.VM.Exceptions

/-!
# What ends the main loop

Besides `shutdown`, only an exception ends the loop, and only one that `refreshVMList` lets through:
that of a handler told of a removal. It goes through `mainLoop` in the middle of a round, behind the
hooks `preLoop` and `preRefreshVMs`. Handlers that throw from other callbacks end nothing.
-/

namespace NebuApp

open Exec

/-- The refresh of the `k`-th round of a run from `s` meets a handler that throws from a removal. -/
def RoundThrows (envs : Nat → RoundEnv) (s : AppState) (k : Nat) : Prop :=
  RemovalThrows (roundManager envs s k) (envs k).refresh

/-- **A round that is cut short.** But for the calls of `shutdown`, its events are the steps up to
the refresh of the virtual machines, and what this did until it threw. -/
def InterruptedRound (env : RoundEnv) (m : VMManager) (t : List AppEvent) : Prop :=
  t.filter (!·.isShutdown) =
    stepsBefore.map .called ++ (m.refresh env.refresh).2.trace.map .vm

/-- A round whose refresh throws is cut short, and leaves the managers in order. -/
theorem AppState.Ready.exec_round_throw {s : AppState} (hs : s.Ready) {env : RoundEnv}
    {abort : Abort} (hrefresh : (s.app.vmManager.refresh env.refresh).1 = .error abort) :
    ∃ s' t, exec (Application.round env) s = (.error (.vmManager abort), s') ∧
      s'.trace = s.trace ++ t ∧ InterruptedRound env s.app.vmManager t ∧
      s'.app.vmManager.WellKept := by
  refine ⟨_, stepsBefore.flatMap env.stepTrace ++
    env.deliveries 0 (s.app.vmManager.refresh env.refresh).2.trace,
    Application.exec_round_throw env s hrefresh, ?_, ?_, (refresh_sound hs.kept env.refresh).1⟩
  · simp [AppState.vmsRefreshed, AppState.called, AppState.happen, stepsBefore]
  · rw [InterruptedRound, List.filter_append, RoundEnv.filter_stepTraces,
      RoundEnv.filter_deliveries]

theorem refreshReturns_of_not_throws {envs : Nat → RoundEnv} {s : AppState} (hs : s.Ready) {n : Nat}
    (h : ∀ k < n, ¬ RoundThrows envs s k) : ∀ k < n, RefreshReturns envs s k :=
  refreshReturns_of_kept hs n fun k hk hkept => (refresh_outcome hkept _).1 (h k hk)

section Loop

variable {envs : Nat → RoundEnv} {s : AppState} (hs : s.Ready) (hnew : s.trace = [])
include hs hnew

/-- What the round does in which a handler throws from a removal. -/
theorem round_throws {n : Nat} (hround : ∀ k < n, RefreshReturns envs s k)
    (hthrow : RoundThrows envs s n) :
    ∃ ex s' t, exec (Application.round (envs n)) (stateAfter envs s n) =
        (.error (.vmManager (.serverException ex)), s') ∧
      EndsThrowing (roundManager envs s n) (envs n).refresh ex ∧
      s'.trace = (List.range n).flatMap (roundTrace envs s) ++ t ∧
      InterruptedRound (envs n) (roundManager envs s n) t ∧ s'.app.vmManager.WellKept := by
  have hready := (ready_below hs hround (Nat.le_refl n)).1
  obtain ⟨ex, ids, hrefresh, hends, -⟩ := (refresh_outcome hready.kept (envs n).refresh).2 hthrow
  obtain ⟨s', t, hexec, htrace, hround', hkept⟩ := hready.exec_round_throw hrefresh
  rw [trace_below hs hround hnew (Nat.le_refl n)] at htrace
  exact ⟨ex, s', t, hexec, hends, htrace, hround', hkept⟩

/-- The first round in which a handler throws from a removal ends the loop, if nobody has called
`shutdown` before that round. -/
theorem mainLoop_throws {k fuel : Nat} (hk : k < fuel) (hthrow : RoundThrows envs s k)
    (hbefore : ∀ j < k, ¬ RoundThrows envs s j ∧ .shutdown ∉ roundTrace envs s j) :
    ∃ ex s', exec (Application.mainLoop envs fuel) s =
        (.error (.vmManager (.serverException ex)), s') ∧
      EndsThrowing (roundManager envs s k) (envs k).refresh ex := by
  have hround := refreshReturns_of_not_throws hs fun j hj => (hbefore j hj).1
  obtain ⟨ex, s', t, hexec, hends, -⟩ := round_throws hs hnew hround hthrow
  refine ⟨ex, s', ?_, hends⟩
  rw [Application.mainLoop]
  exact exec_bind_error (exec_loopUntil_throws (fun j hj => returns_below hs hround hj)
    (stopLoop_of_none hs hround hnew (Nat.le_refl k) fun j hj => (hbefore j hj).2) hexec hk)

omit hs hnew in
theorem loopUntil_of_mainLoop_error {fuel : Nat} {abort : AppAbort} {s' : AppState}
    (h : exec (Application.mainLoop envs fuel) s = (.error abort, s')) :
    exec (loopUntil (·.app.stopLoop) (fun k => Application.round (envs k)) fuel 0) s =
      (.error abort, s') := by
  rw [Application.mainLoop, exec_bind] at h
  rcases hloop : exec (loopUntil (·.app.stopLoop) (fun k => Application.round (envs k)) fuel 0) s
    with ⟨e | ended, s₁⟩
  · rw [hloop] at h
    cases h
    exact hloop
  · rw [hloop] at h
    cases ended <;> cases h

omit hnew in
theorem refreshReturns_of_returns {n : Nat}
    (h : ∀ k < n, Returns (fun k => Application.round (envs k)) s k) :
    ∀ k < n, RefreshReturns envs s k := by
  refine refreshReturns_of_kept hs n fun k hk _ => ?_
  cases hrefresh : ((roundManager envs s k).refresh (envs k).refresh).1 with
  | ok succes => exact ⟨succes, hrefresh⟩
  | error abort =>
    have hthrow := Application.exec_round_throw (envs k) (stateAfter envs s k) hrefresh
    have hreturn := h k hk
    rw [Returns, hthrow] at hreturn
    cases hreturn

/-- **Why the main loop throws**, and how far it has come. -/
theorem mainLoop_throws_inv {fuel : Nat} {abort : AppAbort} {s' : AppState}
    (h : exec (Application.mainLoop envs fuel) s = (.error abort, s')) :
    ∃ k < fuel, ∃ ex t, abort = .vmManager (.serverException ex) ∧ RoundThrows envs s k ∧
      EndsThrowing (roundManager envs s k) (envs k).refresh ex ∧
      (∀ j < k, ¬ RoundThrows envs s j ∧ .shutdown ∉ roundTrace envs s j ∧
        CompleteRound (envs j) (roundManager envs s j) (roundTrace envs s j)) ∧
      s'.trace = (List.range k).flatMap (roundTrace envs s) ++ t ∧
      InterruptedRound (envs k) (roundManager envs s k) t ∧ s'.app.vmManager.WellKept := by
  obtain ⟨k, -, hk, hreturns, hflag, hexec⟩ :=
    exec_loopUntil_error fuel (fun j hj => absurd hj (Nat.not_lt_zero j))
      (fun j hj => absurd hj (Nat.not_lt_zero j)) (loopUntil_of_mainLoop_error h)
  rw [Nat.zero_add] at hk
  have hround := refreshReturns_of_returns hs hreturns
  have hready := ready_below hs hround (Nat.le_refl k)
  -- a round whose refresh returns is completed
  have hthrow : RoundThrows envs s k := by
    by_contra hnot
    obtain ⟨succes, hrefresh⟩ := (refresh_outcome hready.1.kept (envs k).refresh).1 hnot
    obtain ⟨i, hexec'⟩ := hready.1.exec_round hrefresh
    rw [hexec'] at hexec
    cases hexec
  obtain ⟨ex, s₁, t, hexec', hends, htrace, hcut, hkept⟩ := round_throws hs hnew hround hthrow
  obtain ⟨rfl, rfl⟩ : abort = .vmManager (.serverException ex) ∧ s' = s₁ := by
    rw [hexec'] at hexec
    cases hexec
    exact ⟨rfl, rfl⟩
  refine ⟨k, hk, ex, t, rfl, hthrow, hends, fun j hj => ⟨fun hj' => ?_, fun hdown => ?_, ?_⟩,
    htrace, hcut, hkept⟩
  · obtain ⟨ex', ids, hrefresh, -⟩ := (refresh_outcome
      (ready_below hs hround (Nat.le_of_lt hj)).1.kept (envs j).refresh).2 hj'
    obtain ⟨succes, hreturn⟩ := hround j hj
    cases hrefresh.symm.trans hreturn
  · have hup := (stopLoop_below hs hround hnew (Nat.le_refl k)).mpr ⟨j, hj, hdown⟩
    rw [hflag k (Nat.le_refl k)] at hup
    cases hup
  · exact (roundTrace_below hs hround hj).1

end Loop

end NebuApp
