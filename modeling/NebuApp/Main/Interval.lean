import NebuApp.Application.Interval
import NebuApp.Main.Program

/-!
# What the program sleeps

Each complete round of `main` ends with one sleep, and no other event of a run is one. How many
rounds a run completes, its end tells (`RoundsMade`). How long a sleep is follows from what the
option `app.interval` resolves to at that moment: from everything the hooks, the command line, and
the steps of the rounds so far have done to the configuration (`main_sleeps`).
-/

namespace NebuApp

open Exec Flags

/-- The seconds an event sleeps. -/
def AppEvent.seconds? : AppEvent → Option UInt32
  | slept seconds => some seconds
  | _ => none

/-- What the steps of a round do to the configuration. -/
def RoundEnv.configOps (env : RoundEnv) : List Configuration.Op :=
  (stepsBefore ++ stepsBehind).flatMap env.configures

/-- What the `k`-th round and the rounds before it do to the configuration until the `k`-th sleeps.
A round that sleeps has asked for the global object. -/
def configOpsUpTo (envs : Nat → RoundEnv) (k : Nat) : List Configuration.Op :=
  ((List.range k).flatMap fun j => (envs j).configOps ++ [.getGlobalConfiguration]) ++
    (envs k).configOps

/-! ## Events without a sleep -/

theorem filterMap_seconds_filter (t : List AppEvent) :
    (t.filter (!·.isShutdown)).filterMap AppEvent.seconds? = t.filterMap AppEvent.seconds? := by
  rw [List.filterMap_filter]
  refine List.filterMap_congr fun event _ => ?_
  cases event <;> rfl

theorem InterruptedRound.seconds {env : RoundEnv} {m : VMManager} {t : List AppEvent}
    (h : InterruptedRound env m t) : t.filterMap AppEvent.seconds? = [] := by
  rw [← filterMap_seconds_filter, h, List.filterMap_append, List.filterMap_map, List.filterMap_map]
  simp [AppEvent.seconds?, Function.comp_def]

theorem RoundEnv.events_seconds (env : RoundEnv) (m : VMManager) :
    (env.events m).filterMap AppEvent.seconds? = [] := by
  rw [← filterMap_seconds_filter, filter_events]
  simp [AppEvent.seconds?, Function.comp_def, List.filterMap_map]

/-! ## Complete rounds -/

section Below

variable {envs : Nat → RoundEnv} {s : AppState} (hs : s.Ready) {n : Nat}
  (hround : ∀ k < n, RefreshReturns envs s k)
include hs hround

theorem slept_below {k : Nat} (hk : k < n) :
    ∃ i, ((envs k).configured (stateAfter envs s k).statics).global.getOptionInt
        CONFIG_APP_INTERVAL (envs k).result = .ok i ∧
      stateAfter envs s (k + 1) = (stateAfter envs s k).rounded (envs k) i ∧
      (roundTrace envs s k).filterMap AppEvent.seconds? = [i.toUInt32] := by
  have hready := (ready_below hs hround (Nat.le_of_lt hk)).1
  have hprovides : ((envs k).configured (stateAfter envs s k).statics).Provides
      CONFIG_APP_INTERVAL := Configuration.foldl_perform_provides _ hready.provides
  obtain ⟨i, hread⟩ := hprovides.getOptionInt (envs k).result
  obtain ⟨succes, hrefresh⟩ := hround k hk
  have hnext : stateAfter envs s (k + 1) = (stateAfter envs s k).rounded (envs k) i := by
    rw [stateAfter, afterRounds, Application.exec_round (envs k) _ hrefresh hread]
  refine ⟨i, hread, hnext, ?_⟩
  rw [roundTrace, hnext, AppState.rounded, AppState.happen_trace, List.drop_left,
    List.filterMap_append, RoundEnv.events_seconds]
  rfl

/-- What complete rounds have done to the configuration. Induction on the rounds. -/
theorem statics_below {k : Nat} (hk : k ≤ n) :
    (stateAfter envs s k).statics =
      ((List.range k).flatMap fun j => (envs j).configOps ++ [.getGlobalConfiguration]).foldl
        Configuration.Op.perform s.statics := by
  induction k with
  | zero => rfl
  | succ k ih =>
    obtain ⟨i, -, hnext, -⟩ := slept_below hs hround (show k < n from hk)
    rw [hnext, List.range_succ, List.flatMap_append, List.foldl_append, ← ih (Nat.le_of_lt hk)]
    simp [AppState.rounded, RoundEnv.configured, RoundEnv.configOps]

end Below

/-! ## The loop -/

/-- How many complete rounds a run of the loop makes, how it ends, and which events it has behind
them: it finds its flag up for the first time, or goes on, or is in a round that throws. -/
inductive RoundsMade (envs : Nat → RoundEnv) (s : AppState) (fuel : Nat) :
    Nat → Except AppAbort (Option Int32) → List AppEvent → Prop where
  | stopped {n : Nat} (hn : n < fuel) (hrun : ∀ k < n, (stateAfter envs s k).app.stopLoop = false)
      (hstop : (stateAfter envs s n).app.stopLoop = true) :
      RoundsMade envs s fuel n (.ok (some 0)) []
  | goesOn (hrun : ∀ k < fuel, (stateAfter envs s k).app.stopLoop = false) :
      RoundsMade envs s fuel fuel (.ok none) []
  | throws {n : Nat} {abort : AppAbort} {t : List AppEvent} (hn : n < fuel)
      (hrun : ∀ k ≤ n, (stateAfter envs s k).app.stopLoop = false)
      (hcut : InterruptedRound (envs n) (roundManager envs s n) t) :
      RoundsMade envs s fuel n (.error abort) t

theorem RoundsMade.seconds {envs : Nat → RoundEnv} {s : AppState} {fuel n : Nat}
    {result : Except AppAbort (Option Int32)} {rest : List AppEvent}
    (h : RoundsMade envs s fuel n result rest) : rest.filterMap AppEvent.seconds? = [] := by
  cases h with
  | stopped hn hrun hstop => rfl
  | goesOn hrun => rfl
  | throws hn hrun hcut => exact hcut.seconds

/-- A run of the loop that found its flag up or spent its fuel. -/
theorem exec_mainLoop_of_ok {envs : Nat → RoundEnv} {s s' : AppState} {fuel : Nat} {ended : Bool}
    (h : exec (loopUntil (·.app.stopLoop) (fun k => Application.round (envs k)) fuel 0) s =
      (.ok ended, s')) :
    exec (Application.mainLoop envs fuel) s = (.ok (if ended then some 0 else none), s') := by
  rw [Application.mainLoop, exec_bind_ok h]
  cases ended <;> rfl

/-- **The rounds of the loop.** However a run of it ends, its events are those of its complete
rounds, one after the other, and those of the round that throws. -/
theorem mainLoop_made {envs : Nat → RoundEnv} {s : AppState} (hs : s.Ready)
    (hnew : s.trace = []) (fuel : Nat) :
    ∃ n rest, RoundsMade envs s fuel n (exec (Application.mainLoop envs fuel) s).1 rest ∧
      (∀ k < n, RefreshReturns envs s k) ∧
      (exec (Application.mainLoop envs fuel) s).2.trace =
        (List.range n).flatMap (roundTrace envs s) ++ rest := by
  rcases hloop : exec (loopUntil (·.app.stopLoop) (fun k => Application.round (envs k)) fuel 0) s
    with ⟨abort | ended, s'⟩
  · have hexec : exec (Application.mainLoop envs fuel) s = (.error abort, s') := by
      rw [Application.mainLoop, exec_bind_error hloop]
    obtain ⟨n, hn, ex, t, -, -, -, hbefore, htrace, hcut, -⟩ := mainLoop_throws_inv hs hnew hexec
    have hround := refreshReturns_of_not_throws hs fun k hk => (hbefore k hk).1
    have hrun := stopLoop_of_none hs hround hnew (Nat.le_refl n) fun k hk => (hbefore k hk).2.1
    rw [hexec]
    exact ⟨n, t, .throws hn hrun hcut, hround, htrace⟩
  · obtain ⟨n, hn, hreturns, hrun, hstate, hended⟩ :=
      exec_loopUntil_ok fuel (fun j hj => absurd hj (Nat.not_lt_zero j))
        (fun j hj => absurd hj (Nat.not_lt_zero j)) hloop
    have hround := refreshReturns_of_returns hs hreturns
    rw [exec_mainLoop_of_ok hloop]
    refine ⟨n, [], ?_, hround, ?_⟩
    · cases ended with
      | true =>
        obtain ⟨hn, hstop⟩ := hended
        exact .stopped (by omega) hrun hstop
      | false =>
        obtain rfl : n = fuel := Eq.trans hended (Nat.zero_add fuel)
        exact .goesOn hrun
    · rw [List.append_nil, ← trace_below hs hround hnew (Nat.le_refl n), hstate]

/-! ## `main` -/

/-- The operations resolve the option to `value`, and to nothing else. -/
def Configuration.ResolvesTo (ops : List Op) (option value : String) : Prop :=
  Resolves ops option (some value) ∧ ∀ value?, Resolves ops option value? → value? = some value

/-- A round reads what the option resolves to, given all operations before. -/
theorem read_resolves {configOps : List Configuration.Op} {envs : Nat → RoundEnv} {s : AppState}
    (hs : s.Ready) (hstatics : s.statics = Configuration.runOps configOps) {n : Nat}
    (hround : ∀ k < n, RefreshReturns envs s k) {k : Nat} (hk : k < n)
    (hcount : ∀ op ∈ configOps ++ configOpsUpTo envs k, op.Countable) {i : Int32}
    (hread : ((envs k).configured (stateAfter envs s k).statics).global.getOptionInt
      CONFIG_APP_INTERVAL (envs k).result = .ok i) :
    ∃ value,
      Configuration.ResolvesTo (configOps ++ configOpsUpTo envs k) CONFIG_APP_INTERVAL value ∧
      i = (Configuration.extractInt value.toList).getD (envs k).result := by
  have hconfigured : (envs k).configured (stateAfter envs s k).statics =
      Configuration.runOps (configOps ++ configOpsUpTo envs k) := by
    rw [RoundEnv.configured, statics_below hs hround (Nat.le_of_lt hk), hstatics,
      Configuration.runOps, Configuration.runOps, configOpsUpTo, List.foldl_append,
      List.foldl_append]
    rfl
  rw [hconfigured] at hread
  obtain ⟨value?, h⟩ :=
    Configuration.exists_resolves (configOps ++ configOpsUpTo envs k) CONFIG_APP_INTERVAL
  have hlookup := Configuration.lookup_global hcount h
  cases value? with
  | none =>
    rw [Configuration.getOptionInt_of_error (Configuration.getOption_eq_error_iff.mpr hlookup)]
      at hread
    cases hread
  | some value =>
    rw [Configuration.getOptionInt_of_ok (Configuration.getOption_eq_ok_iff.mpr hlookup)] at hread
    cases hread
    exact ⟨value, ⟨h, fun value? h' => (Configuration.lookup_global hcount h').symm.trans hlookup⟩,
      rfl⟩

/-- What holds of the operations of every step, and of the reading of the interval. -/
theorem forall_configOpsUpTo {P : Configuration.Op → Prop} {envs : Nat → RoundEnv}
    (hread : P .getGlobalConfiguration) (hsteps : ∀ k step, ∀ op ∈ (envs k).configures step, P op)
    (k : Nat) : ∀ op ∈ configOpsUpTo envs k, P op := by
  have hround : ∀ j, ∀ op ∈ (envs j).configOps, P op := by
    intro j op hop
    obtain ⟨step, -, hop⟩ := List.mem_flatMap.mp hop
    exact hsteps j step op hop
  intro op hop
  rcases List.mem_append.mp hop with hbefore | hlast
  · obtain ⟨j, -, hop⟩ := List.mem_flatMap.mp hbefore
    rcases List.mem_append.mp hop with hop | hlast
    · exact hround j op hop
    · rwa [List.mem_singleton.mp hlast]
  · exact hround k op hlast

/-- A complete round, with the one sleep it ends with: the integer that the string begins with to
which the option resolves, or what the variable held, taken for an `unsigned int`. -/
structure SleepsResolved (configOps : List Configuration.Op) (envs : Nat → RoundEnv) (s : AppState)
    (k : Nat) (seconds : UInt32) : Prop where
  complete : CompleteRound (envs k) (roundManager envs s k) (roundTrace envs s k)
  slept : (roundTrace envs s k).filterMap AppEvent.seconds? = [seconds]
  resolves : ∃ value,
    Configuration.ResolvesTo (configOps ++ configOpsUpTo envs k) CONFIG_APP_INTERVAL value ∧
      seconds = ((Configuration.extractInt value.toList).getD (envs k).result).toUInt32

theorem sleepsResolved_below {configOps : List Configuration.Op}
    (hcount : ∀ op ∈ configOps, op.Countable) {envs : Nat → RoundEnv}
    (hcount' : ∀ k step, ∀ op ∈ (envs k).configures step, op.Countable) {s : AppState}
    (hs : s.Ready) (hstatics : s.statics = Configuration.runOps configOps) {n : Nat}
    (hround : ∀ k < n, RefreshReturns envs s k) {k : Nat} (hk : k < n) :
    ∃ seconds, SleepsResolved configOps envs s k seconds := by
  obtain ⟨i, hread, -, hslept⟩ := slept_below hs hround hk
  have hall : ∀ op ∈ configOps ++ configOpsUpTo envs k, op.Countable := by
    intro op hop
    rcases List.mem_append.mp hop with hop | hop
    · exact hcount op hop
    · exact forall_configOpsUpTo trivial hcount' k op hop
  obtain ⟨value, hvalue, rfl⟩ := read_resolves hs hstatics hround hk hall hread
  exact ⟨_, (roundTrace_below hs hround hk).1, hslept, value, hvalue, rfl⟩

/-- The sleeps of the complete rounds, in order. -/
theorem seconds_flatMap {configOps : List Configuration.Op} {envs : Nat → RoundEnv} {s : AppState}
    {seconds : Nat → UInt32} {n : Nat}
    (h : ∀ k < n, SleepsResolved configOps envs s k (seconds k)) :
    ((List.range n).flatMap (roundTrace envs s)).filterMap AppEvent.seconds? =
      (List.range n).map seconds := by
  rw [List.filterMap_flatMap, List.map_eq_flatMap]
  exact List.flatMap_congr fun k hk => (h k (List.mem_range.mp hk)).slept

/-- A run of `main` that reaches the loop is one of the loop. -/
theorem exec_mainLoop_of_main (code : HookCode) {order : List Getter}
    (horder : order.Perm [.daemonManager, .topologyManager, .vmManager]) {argc : Int32}
    {argv : Nat → String} {daemons : Daemons} {envs : Nat → RoundEnv} {fuel : Nat}
    {result : Except AppAbort (Option Int32)} {s' : AppState}
    (h : main code order argc argv daemons envs fuel = .ok (result, s')) :
    exec (Application.mainLoop envs fuel)
      (code.entered order (Configuration.mainArguments argc argv)) = (result, s') := by
  rw [main_eq code horder argc argv daemons envs fuel] at h
  cases habort : code.abort? order (Configuration.mainArguments argc argv) with
  | some abort =>
    rw [habort] at h
    cases h
  | none =>
    simp only [habort, Except.ok.injEq] at h
    rw [← h]
    -- the loop returns 0 if it returns anything, and so does `main`
    rcases hloop : exec (loopUntil (·.app.stopLoop) (fun k => Application.round (envs k)) fuel 0)
      (code.entered order (Configuration.mainArguments argc argv)) with ⟨abort | ended, s₁⟩
    · have hexec : exec (Application.mainLoop envs fuel)
          (code.entered order (Configuration.mainArguments argc argv)) = (.error abort, s₁) := by
        rw [Application.mainLoop, exec_bind_error hloop]
      rw [exec_bind_error hexec, hexec]
    · rw [exec_bind_ok (exec_mainLoop_of_ok hloop), exec_mainLoop_of_ok hloop]
      cases ended <;> rfl

/-- The rounds of a run of `main`, from whatever the hooks leave the loop. -/
theorem main_made (code : HookCode) {order : List Getter} {args : List String}
    (envs : Nat → RoundEnv) (fuel : Nat) :
    let s := code.entered order args
    ∃ n rest, RoundsMade envs s fuel n (exec (Application.mainLoop envs fuel) s).1 rest ∧
      (n = 0 ∨ s.Ready ∧ ∀ k < n, RefreshReturns envs s k) ∧
      (exec (Application.mainLoop envs fuel) s).2.trace =
        (List.range n).flatMap (roundTrace envs s) ++ rest := by
  intro s
  cases hdown : code.setApplication.any HookOp.isShutdown with
  | false =>
    obtain ⟨hs, hnew⟩ := @HookCode.entered_ready code order args hdown
    obtain ⟨n, rest, hmade, hround, htrace⟩ := mainLoop_made hs hnew fuel
    exact ⟨n, rest, hmade, Or.inr ⟨hs, hround⟩, htrace⟩
  | true =>
    -- the loop is entered with its flag up
    have hstop : s.app.stopLoop = true := by
      simp only [s, HookCode.entered, hdown, if_true]
      rfl
    have hnew : s.trace = [] := by
      simp only [s, HookCode.entered, hdown, if_true]
      rfl
    have hnone : ∀ k < 0, (stateAfter envs s k).app.stopLoop = false :=
      fun k hk => absurd hk (Nat.not_lt_zero k)
    cases fuel with
    | zero => exact ⟨0, [], .goesOn hnone, Or.inl rfl, hnew⟩
    | succ fuel =>
      rw [mainLoop_down hstop]
      exact ⟨0, [], .stopped (Nat.succ_pos fuel) hnone hstop, Or.inl rfl, hnew⟩

theorem HookCode.entered_statics (code : HookCode) (order : List Getter) (args : List String) :
    (code.entered order args).statics =
      Configuration.runOps ((code.ops order args).flatMap HookOp.configOps) := by
  rw [HookCode.entered]
  cases code.setApplication.any HookOp.isShutdown <;> rfl

end NebuApp
