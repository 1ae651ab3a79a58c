import NebuApp.Application.Model
import NebuApp.VM.Phases

/-!
# The rounds of the main loop

`exec_round` gives a round in closed form: its events (`RoundEnv.events`) and the state it leaves
(`AppState.rounded`). The only things that could stop a round short are an abort of the refresh
and a missing `app.interval`; neither occurs while the callbacks return. `mainLoop` tests the flag
between rounds only, so a run is a sequence of complete rounds up to the first one in which
somebody calls `shutdown`.
-/

namespace NebuApp

open Exec

/-! ## Events -/

/-- The call of `shutdown`. -/
def AppEvent.isShutdown : AppEvent → Bool
  | shutdown => true
  | _ => false

theorem AppEvent.any_isShutdown {t : List AppEvent} :
    t.any AppEvent.isShutdown = true ↔ .shutdown ∈ t := by
  rw [List.any_eq_true]
  constructor
  · rintro ⟨event, hmem, hevent⟩
    cases event with
    | shutdown => exact hmem
    | called step | vm entry | slept seconds => cases hevent
  · exact fun h => ⟨.shutdown, h, rfl⟩

/-- The event of a `shutdown` that code outside the framework may call. -/
def shutdownTrace (shutsDown : Bool) : List AppEvent := if shutsDown then [.shutdown] else []

/-- The steps up to the refresh of the virtual machines. -/
def stepsBefore : List AppStep := [.preLoop, .preRefreshVMs, .refreshVMList]

/-- The steps behind the refresh of the virtual machines. -/
def stepsBehind : List AppStep :=
  [.postRefreshVMs, .preRefreshTopology, .refreshTopology, .postRefreshTopology,
    .preRefreshDaemons, .refreshDaemons, .postRefreshDaemons,
    .preDeployDaemons, .deployDaemons, .postDeployDaemons, .postLoop]

namespace RoundEnv

variable (env : RoundEnv)

/-- The events of a call of code outside the framework. -/
def stepTrace (step : AppStep) : List AppEvent :=
  .called step :: shutdownTrace (env.shutsDown step)

/-- The events of a refresh, from place `i` of its trace on. -/
def deliveries : Nat → List Entry → List AppEvent
  | _, [] => []
  | i, entry :: rest =>
    (.vm entry :: shutdownTrace (entry.notification?.isSome && env.callbackShutsDown i)) ++
      deliveries (i + 1) rest

/-- The events of a round before it sleeps. -/
def events (m : VMManager) : List AppEvent :=
  stepsBefore.flatMap env.stepTrace ++
    (env.deliveries 0 (m.refresh env.refresh).2.trace ++ stepsBehind.flatMap env.stepTrace)

/-- The static members of `Configuration` after the steps of a round. -/
def configured (statics : Configuration.Statics) : Configuration.Statics :=
  ((stepsBefore ++ stepsBehind).flatMap env.configures).foldl Configuration.Op.perform statics

end RoundEnv

/-! ## States -/

namespace AppState

/-- The state after the events `t`. -/
def happen (s : AppState) (t : List AppEvent) : AppState :=
  { s with
    app := { s.app with stopLoop := s.app.stopLoop || t.any AppEvent.isShutdown }
    trace := s.trace ++ t }

/-- The state after a call of code outside the framework. -/
def called (s : AppState) (env : RoundEnv) (step : AppStep) : AppState :=
  happen { s with statics := (env.configures step).foldl Configuration.Op.perform s.statics }
    (env.stepTrace step)

/-- The state after the refresh of the virtual machines. -/
def vmsRefreshed (s : AppState) (env : RoundEnv) : AppState :=
  let s' := s.called env .refreshVMList
  let r := (s.app.vmManager.refresh env.refresh).2
  happen { s' with app := { s'.app with vmManager := r.mgr } } (env.deliveries 0 r.trace)

/-- The state after the refresh of the topology. -/
def topologyRefreshed (s : AppState) (env : RoundEnv) : AppState :=
  let s' := s.called env .refreshTopology
  { s' with app := { s'.app with
    topologyManager := (s.app.topologyManager.refreshTopology env.topology).2 } }

/-- The state after a round that reads the interval `i`. -/
def rounded (s : AppState) (env : RoundEnv) (i : Int32) : AppState :=
  happen
    { s with
      app := { s.app with
        vmManager := (s.app.vmManager.refresh env.refresh).2.mgr
        topologyManager := (s.app.topologyManager.refreshTopology env.topology).2 }
      statics := Configuration.Op.perform (env.configured s.statics) .getGlobalConfiguration }
    (env.events s.app.vmManager ++ [.slept i.toUInt32])

@[simp] theorem happen_trace (s : AppState) (t : List AppEvent) :
    (s.happen t).trace = s.trace ++ t := rfl

@[simp] theorem happen_statics (s : AppState) (t : List AppEvent) :
    (s.happen t).statics = s.statics := rfl

@[simp] theorem happen_vmManager (s : AppState) (t : List AppEvent) :
    (s.happen t).app.vmManager = s.app.vmManager := rfl

theorem happen_happen (s : AppState) (t t' : List AppEvent) :
    (s.happen t).happen t' = s.happen (t ++ t') := by
  simp [happen, Bool.or_assoc]

end AppState

/-! ## The steps -/

namespace Application

section Steps

variable (env : RoundEnv) (s : AppState)

theorem exec_mayShutDown (shutsDown : Bool) :
    exec (mayShutDown shutsDown) s = (.ok (), s.happen (shutdownTrace shutsDown)) := by
  cases shutsDown with
  | true =>
    show (Except.ok (), _) = _
    simp [AppState.happen, shutdownTrace, AppEvent.isShutdown, Application.shutdown]
  | false =>
    show (Except.ok (), s) = _
    simp [AppState.happen, shutdownTrace]

theorem exec_note {event : AppEvent} (h : event.isShutdown = false) :
    exec (note event) s = (.ok (), s.happen [event]) := by
  show (Except.ok (), _) = _
  simp [AppState.happen, h]

theorem exec_call (step : AppStep) : exec (call env step) s = (.ok (), s.called env step) := by
  rw [call, exec_bind_ok (exec_note s rfl)]
  refine (exec_bind_ok rfl).trans ((exec_mayShutDown _ _).trans ?_)
  simp [AppState.called, AppState.happen, RoundEnv.stepTrace, AppEvent.isShutdown]

theorem exec_callback (i : Nat) (entry : Entry) :
    exec (callback env i entry) s = (.ok (), s.happen (shutdownTrace
      (entry.notification?.isSome && env.callbackShutsDown i))) := by
  unfold callback Entry.notification?
  cases entry.action with
  | notified slot call => exact exec_mayShutDown s _
  | fetched _ _ | recorded _ | overwrote _ _ | nullInserted _ => exact exec_mayShutDown s false

/-- The callbacks of a refresh change nothing but the flag. Induction on the trace. -/
theorem exec_deliver (entries : List Entry) : ∀ (i : Nat) (s : AppState),
    exec (deliver env i entries) s = (.ok (), s.happen (env.deliveries i entries)) := by
  induction entries with
  | nil =>
    intro i s
    rw [deliver, exec_pure]
    simp [RoundEnv.deliveries, AppState.happen]
  | cons entry rest ih =>
    intro i s
    rw [deliver, exec_bind_ok (exec_note s rfl), exec_bind_ok (exec_callback env _ i entry), ih,
      AppState.happen_happen, AppState.happen_happen]
    rfl

/-- A refresh and the callbacks it makes, also where one of them throws. -/
theorem exec_refreshVMList {outcome : Except Abort Bool}
    (h : (s.app.vmManager.refresh env.refresh).1 = outcome) :
    exec (refreshVMList env) s =
      ((outcome.mapError AppAbort.vmManager).map fun _ => (), s.vmsRefreshed env) := by
  rw [refreshVMList, exec_bind_ok (exec_call env s _), exec_bind_ok (exec_get _)]
  refine (exec_bind_ok rfl).trans ((exec_bind_ok (exec_deliver env _ 0 _)).trans ?_)
  show exec (liftAbort (s.app.vmManager.refresh env.refresh).1) _ = _
  rw [h]
  cases outcome <;> rfl

theorem exec_refreshTopology :
    exec (refreshTopology env) s = (.ok (), s.topologyRefreshed env) := by
  rw [refreshTopology, exec_bind_ok (exec_call env s _)]
  rfl

theorem exec_sleepInterval {i : Int32}
    (h : s.statics.global.getOptionInt CONFIG_APP_INTERVAL env.result = .ok i) :
    exec (sleepInterval env) s = (.ok (), AppState.happen
      { s with statics := Configuration.Op.perform s.statics .getGlobalConfiguration }
      [.slept i.toUInt32]) := by
  rw [sleepInterval, exec_bind_ok (exec_get s), Configuration.run_CONFIG_GETINT_global, h]
  refine (exec_bind_ok rfl).trans ?_
  exact exec_note _ rfl

theorem exec_round_throw {abort : Abort}
    (hrefresh : (s.app.vmManager.refresh env.refresh).1 = .error abort) :
    exec (round env) s = (.error (.vmManager abort),
      ((s.called env .preLoop).called env .preRefreshVMs).vmsRefreshed env) := by
  have hthrow := exec_refreshVMList env ((s.called env .preLoop).called env .preRefreshVMs) hrefresh
  rw [round, exec_bind_ok (exec_call env _ _), exec_bind_ok (exec_call env _ _),
    exec_bind_error hthrow]

/-- **A round in closed form.** -/
theorem exec_round {succes : Bool} (hrefresh : (s.app.vmManager.refresh env.refresh).1 = .ok succes)
    {i : Int32} (hread : (env.configured s.statics).global.getOptionInt CONFIG_APP_INTERVAL
      env.result = .ok i) :
    exec (round env) s = (.ok (), s.rounded env i) := by
  have hreturn :=
    exec_refreshVMList env ((s.called env .preLoop).called env .preRefreshVMs) hrefresh
  rw [round, exec_bind_ok (exec_call env _ _), exec_bind_ok (exec_call env _ _),
    exec_bind_ok (a := ()) hreturn, exec_bind_ok (exec_call env _ _),
    exec_bind_ok (exec_call env _ _), exec_bind_ok (exec_refreshTopology env _),
    exec_bind_ok (exec_call env _ _), exec_bind_ok (exec_call env _ _),
    exec_bind_ok (exec_call env _ _), exec_bind_ok (exec_call env _ _),
    exec_bind_ok (exec_call env _ _), exec_bind_ok (exec_call env _ _),
    exec_bind_ok (exec_call env _ _), exec_bind_ok (exec_call env _ _)]
  -- what is left is to put the nested states together
  refine (exec_sleepInterval env _ (Eq.trans ?_ hread)).trans (congrArg (Prod.mk _) ?_)
  · simp [AppState.called, AppState.topologyRefreshed, AppState.vmsRefreshed, RoundEnv.configured,
      stepsBefore, stepsBehind]
  · simp [AppState.called, AppState.topologyRefreshed, AppState.vmsRefreshed, AppState.rounded,
      AppState.happen, RoundEnv.configured, RoundEnv.events, stepsBefore, stepsBehind,
      Bool.or_assoc]

/-- `mainLoop` leaves the state its loop leaves, however that ends. -/
theorem exec_mainLoop_state (envs : Nat → RoundEnv) (fuel : Nat) :
    (exec (mainLoop envs fuel) s).2 =
      (exec (loopUntil (·.app.stopLoop) (fun k => round (envs k)) fuel 0) s).2 := by
  rw [mainLoop, exec_bind]
  rcases exec (loopUntil _ _ fuel 0) s with ⟨e | ended, s'⟩
  · rfl
  · cases ended <;> rfl

end Steps

end Application

/-! ## What a round looks like -/

/-- Somebody calls `shutdown` in a round that meets the virtual machine manager `m`. -/
def RoundEnv.CallsShutdown (env : RoundEnv) (m : VMManager) : Prop :=
  (∃ step, env.shutsDown step = true) ∨
    ∃ i entry, (m.refresh env.refresh).2.trace[i]? = some entry ∧
      entry.notification?.isSome = true ∧ env.callbackShutsDown i = true

/-- **A complete round**, from the virtual machine manager `m`. But for the calls of `shutdown`,
its events are every step once, in order, with what the refresh did right behind its call, and at
the end the sleep. The refresh notifies of additions, then of changes, then of removals. -/
structure CompleteRound (env : RoundEnv) (m : VMManager) (t : List AppEvent) : Prop where
  steps : ∃ seconds, t.filter (!·.isShutdown) =
    stepsBefore.map .called ++ (m.refresh env.refresh).2.trace.map .vm ++
      stepsBehind.map .called ++ [.slept seconds]
  phases : (notifications (m.refresh env.refresh).2.trace).Pairwise
    fun call call' => call.phase ≤ call'.phase
  shutdown_iff : .shutdown ∈ t ↔ env.CallsShutdown m

namespace RoundEnv

variable (env : RoundEnv)

theorem filter_shutdownTrace (shutsDown : Bool) :
    (shutdownTrace shutsDown).filter (!·.isShutdown) = [] := by
  cases shutsDown <;> rfl

theorem mem_shutdownTrace {shutsDown : Bool} :
    .shutdown ∈ shutdownTrace shutsDown ↔ shutsDown = true := by
  cases shutsDown <;> simp [shutdownTrace]

theorem filter_stepTraces (steps : List AppStep) :
    (steps.flatMap env.stepTrace).filter (!·.isShutdown) = steps.map .called := by
  induction steps with
  | nil => rfl
  | cons step rest ih =>
    rw [List.flatMap_cons, List.filter_append, ih, stepTrace,
      List.filter_cons_of_pos (by rfl), filter_shutdownTrace]
    rfl

theorem mem_stepTraces {steps : List AppStep} :
    .shutdown ∈ steps.flatMap env.stepTrace ↔ ∃ step ∈ steps, env.shutsDown step = true := by
  simp [stepTrace, mem_shutdownTrace]

theorem filter_deliveries (entries : List Entry) :
    ∀ i, (env.deliveries i entries).filter (!·.isShutdown) = entries.map .vm := by
  induction entries with
  | nil => exact fun _ => rfl
  | cons entry rest ih =>
    intro i
    rw [deliveries, List.filter_append, ih, List.filter_cons_of_pos (by rfl),
      filter_shutdownTrace]
    rfl

/-- A callback calls `shutdown`. Induction on the trace of the refresh. -/
theorem mem_deliveries {entries : List Entry} : ∀ {i : Nat},
    .shutdown ∈ env.deliveries i entries ↔ ∃ j entry, entries[j]? = some entry ∧
      entry.notification?.isSome = true ∧ env.callbackShutsDown (i + j) = true := by
  induction entries with
  | nil => simp [deliveries]
  | cons entry rest ih =>
    intro i
    rw [deliveries, List.mem_append, ih, List.mem_cons, mem_shutdownTrace, Bool.and_eq_true]
    constructor
    · rintro ((h | ⟨hcall, hdown⟩) | ⟨j, entry', hentry, hcall, hdown⟩)
      · cases h
      · exact ⟨0, entry, rfl, hcall, hdown⟩
      · exact ⟨j + 1, entry', hentry, hcall, by rwa [show i + (j + 1) = i + 1 + j by omega]⟩
    · rintro ⟨j, entry', hentry, hcall, hdown⟩
      cases j with
      | zero =>
        cases hentry
        exact Or.inl (Or.inr ⟨hcall, hdown⟩)
      | succ j =>
        exact Or.inr ⟨j, entry', hentry, hcall, by rwa [show i + 1 + j = i + (j + 1) by omega]⟩

/-- But for the calls of `shutdown`, the events of a round are its steps and its refresh. -/
theorem filter_events (m : VMManager) :
    (env.events m).filter (!·.isShutdown) = stepsBefore.map .called ++
      ((m.refresh env.refresh).2.trace.map .vm ++ stepsBehind.map .called) := by
  rw [events, List.filter_append, List.filter_append, filter_stepTraces, filter_stepTraces,
    filter_deliveries]

/-- **The events of a round make a complete round.** -/
theorem events_completeRound {m : VMManager} (hm : m.WellKept) (seconds : UInt32) :
    CompleteRound env m (env.events m ++ [.slept seconds]) := by
  refine ⟨⟨seconds, ?_⟩, refresh_phases hm env.refresh, ?_⟩
  · rw [List.filter_append, filter_events]
    simp [AppEvent.isShutdown]
  · have hslept : .shutdown ∉ [AppEvent.slept seconds] := by simp
    rw [events, List.mem_append, List.mem_append, List.mem_append, mem_stepTraces,
      mem_stepTraces, mem_deliveries]
    simp only [hslept, or_false, Nat.zero_add]
    constructor
    · rintro (⟨step, -, h⟩ | h | ⟨step, -, h⟩)
      · exact Or.inl ⟨step, h⟩
      · exact Or.inr h
      · exact Or.inl ⟨step, h⟩
    · rintro (⟨step, h⟩ | h)
      · have hstep : step ∈ stepsBefore ∨ step ∈ stepsBehind := by cases step <;> decide
        rcases hstep with hstep | hstep
        · exact Or.inl ⟨step, hstep, h⟩
        · exact Or.inr (Or.inr ⟨step, hstep, h⟩)
      · exact Or.inr (Or.inl h)

end RoundEnv

/-! ## Runs of the loop -/

/-- The state after `k` rounds from `s`. -/
abbrev stateAfter (envs : Nat → RoundEnv) (s : AppState) (k : Nat) : AppState :=
  afterRounds (fun k => Application.round (envs k)) s k

/-- What the `k`-th round of a run from `s` adds to the trace. -/
def roundTrace (envs : Nat → RoundEnv) (s : AppState) (k : Nat) : List AppEvent :=
  (stateAfter envs s (k + 1)).trace.drop (stateAfter envs s k).trace.length

/-- The virtual machine manager the `k`-th round of a run from `s` meets. -/
def roundManager (envs : Nat → RoundEnv) (s : AppState) (k : Nat) : VMManager :=
  (stateAfter envs s k).app.vmManager

/-- An application before its loop: constructed over a virtual machine manager that had seen
`before`, and has seen `after` since. -/
def AppState.start (daemonManager : Ref) (topologyManager : TopologyManager)
    (before after : List Op) (configOps : List Configuration.Op) : AppState :=
  let app := Application.create daemonManager topologyManager (runOps before).mgr
  let vmManager := (after.foldl Op.perform ⟨app.vmManager, []⟩).mgr
  ⟨{ app with vmManager := vmManager }, Configuration.runOps configOps, []⟩

/-- What holds between the rounds: the managers are in order, `app.interval` can be read, and the
flag tells whether anybody has called `shutdown`. -/
structure AppState.Ready (s : AppState) : Prop where
  kept : s.app.vmManager.WellKept
  provides : s.statics.Provides CONFIG_APP_INTERVAL
  flag : s.app.stopLoop = s.trace.any AppEvent.isShutdown

namespace AppState

theorem Ready.rounded {s : AppState} (hs : s.Ready) (env : RoundEnv) (i : Int32) :
    (s.rounded env i).Ready where
  kept := (refresh_sound hs.kept env.refresh).1
  provides := Configuration.perform_provides _
    (Configuration.foldl_perform_provides _ hs.provides)
  flag := by
    rw [AppState.rounded, happen_trace, List.any_append, ← hs.flag]
    rfl

/-- **A round from a state that is ready**, and whose refresh returns, returns. -/
theorem Ready.exec_round {s : AppState} (hs : s.Ready) {env : RoundEnv} {succes : Bool}
    (hrefresh : (s.app.vmManager.refresh env.refresh).1 = .ok succes) :
    ∃ i, exec (Application.round env) s = (.ok (), s.rounded env i) := by
  have hprovides : (env.configured s.statics).Provides CONFIG_APP_INTERVAL :=
    Configuration.foldl_perform_provides _ hs.provides
  obtain ⟨i, hread⟩ := hprovides.getOptionInt env.result
  exact ⟨i, Application.exec_round env s hrefresh hread⟩

theorem create_sound (daemonManager : Ref) (before : List Op) :
    RefreshState.Sound ⟨(runOps before).mgr.registerVMEventHandler daemonManager, []⟩ :=
  ⟨(runOps_sound before).1.registerVMEventHandler daemonManager, fun e he => by cases he⟩

theorem start_ready (daemonManager : Ref) (topologyManager : TopologyManager)
    (before after : List Op) (configOps : List Configuration.Op) :
    (start daemonManager topologyManager before after configOps).Ready where
  kept := (foldl_perform_sound after (create_sound daemonManager before)).1.1
  provides := Configuration.foldl_perform_provides _ Configuration.initial_provides_interval
  flag := rfl

/-- The daemon manager is registered, in the slot behind the handlers registered before it. -/
theorem start_registered (daemonManager : Ref) (topologyManager : TopologyManager)
    (before after : List Op) (configOps : List Configuration.Op) :
    (start daemonManager topologyManager before after configOps).app.vmManager.vmEventHandlers[
      (runOps before).mgr.vmEventHandlers.length]? = some daemonManager := by
  obtain ⟨later, hslots⟩ := (foldl_perform_sound after (create_sound daemonManager before)).2
  rw [start, Application.create, ← hslots]
  simp [VMManager.registerVMEventHandler]

end AppState

/-- The refresh of the `k`-th round of a run from `s` returns. -/
def RefreshReturns (envs : Nat → RoundEnv) (s : AppState) (k : Nat) : Prop :=
  ∃ succes, ((roundManager envs s k).refresh (envs k).refresh).1 = .ok succes

section Below

variable {envs : Nat → RoundEnv} {s : AppState} (hs : s.Ready) {n : Nat}
  (hround : ∀ k < n, RefreshReturns envs s k)
include hs hround

theorem ready_below {k : Nat} (hk : k ≤ n) :
    (stateAfter envs s k).Ready ∧
      (roundManager envs s k).vmEventHandlers = s.app.vmManager.vmEventHandlers := by
  induction k with
  | zero => exact ⟨hs, rfl⟩
  | succ k ih =>
    obtain ⟨hready, hslots⟩ := ih (by omega)
    obtain ⟨succes, hrefresh⟩ := hround k (by omega)
    obtain ⟨i, hexec⟩ := hready.exec_round hrefresh
    have hnext : stateAfter envs s (k + 1) = (stateAfter envs s k).rounded (envs k) i := by
      rw [stateAfter, afterRounds, hexec]
    rw [roundManager, hnext]
    exact ⟨hready.rounded (envs k) i, (refresh_handlers hready.kept (envs k).refresh).trans hslots⟩

theorem round_below {k : Nat} (hk : k < n) :
    ∃ i, exec (Application.round (envs k)) (stateAfter envs s k) =
        (.ok (), (stateAfter envs s k).rounded (envs k) i) ∧
      stateAfter envs s (k + 1) = (stateAfter envs s k).rounded (envs k) i := by
  obtain ⟨succes, hrefresh⟩ := hround k hk
  obtain ⟨i, hexec⟩ := (ready_below hs hround (Nat.le_of_lt hk)).1.exec_round hrefresh
  exact ⟨i, hexec, by rw [stateAfter, afterRounds, hexec]⟩

theorem returns_below {k : Nat} (hk : k < n) :
    Returns (fun k => Application.round (envs k)) s k := by
  obtain ⟨i, hexec, hnext⟩ := round_below hs hround hk
  exact hexec.trans (congrArg (Prod.mk _) hnext.symm)

/-- **The trace grows by a complete round.** -/
theorem roundTrace_below {k : Nat} (hk : k < n) :
    CompleteRound (envs k) (roundManager envs s k) (roundTrace envs s k) ∧
      (stateAfter envs s (k + 1)).trace = (stateAfter envs s k).trace ++ roundTrace envs s k := by
  obtain ⟨i, -, hnext⟩ := round_below hs hround hk
  have htrace : (stateAfter envs s (k + 1)).trace = (stateAfter envs s k).trace ++
      ((envs k).events (roundManager envs s k) ++ [.slept i.toUInt32]) := by
    rw [hnext]
    rfl
  have hevents : roundTrace envs s k =
      (envs k).events (roundManager envs s k) ++ [.slept i.toUInt32] := by
    rw [roundTrace, htrace, List.drop_left]
  have hkept := (ready_below hs hround (Nat.le_of_lt hk)).1.kept
  rw [htrace, hevents]
  exact ⟨(envs k).events_completeRound hkept i.toUInt32, rfl⟩

variable (hnew : s.trace = [])
include hnew

theorem trace_below {k : Nat} (hk : k ≤ n) :
    (stateAfter envs s k).trace = (List.range k).flatMap (roundTrace envs s) := by
  induction k with
  | zero => exact hnew
  | succ k ih =>
    rw [(roundTrace_below hs hround (by omega)).2, ih (by omega), List.range_succ,
      List.flatMap_append]
    simp

/-- The flag is up exactly after a round in which somebody called `shutdown`. -/
theorem stopLoop_below {k : Nat} (hk : k ≤ n) :
    (stateAfter envs s k).app.stopLoop = true ↔ ∃ j < k, .shutdown ∈ roundTrace envs s j := by
  rw [(ready_below hs hround hk).1.flag, AppEvent.any_isShutdown,
    trace_below hs hround hnew hk]
  simp

theorem stopLoop_of_none {k : Nat} (hk : k ≤ n)
    (hnone : ∀ j < k, .shutdown ∉ roundTrace envs s j) :
    ∀ j ≤ k, (stateAfter envs s j).app.stopLoop = false := by
  intro j hj
  rw [← Bool.not_eq_true, stopLoop_below hs hround hnew (by omega)]
  rintro ⟨j', hj', hmem⟩
  exact hnone j' (by omega) hmem

end Below

section Loop

variable {envs : Nat → RoundEnv} {s : AppState} (hs : s.Ready)
include hs

/-- Refreshes that return from managers in order all return, since each leaves one. Induction on
the rounds. -/
theorem refreshReturns_of_kept (n : Nat)
    (h : ∀ k < n, (roundManager envs s k).WellKept → RefreshReturns envs s k) :
    ∀ k < n, RefreshReturns envs s k := by
  induction n with
  | zero => exact fun k hk => absurd hk (Nat.not_lt_zero k)
  | succ n ih =>
    have hbelow := ih fun k hk => h k (by omega)
    intro k hk
    rcases Nat.lt_succ_iff_lt_or_eq.mp hk with hk | rfl
    · exact hbelow k hk
    · exact h k (Nat.lt_succ_self k) (ready_below hs hbelow (Nat.le_refl k)).1.kept

variable (hnew : s.trace = [])
include hnew

/-- The loop ends after the first round in which somebody calls `shutdown`. -/
theorem mainLoop_ends_below {k fuel : Nat} (hround : ∀ j < k + 1, RefreshReturns envs s j)
    (hdown : .shutdown ∈ roundTrace envs s k)
    (hfirst : ∀ j < k, .shutdown ∉ roundTrace envs s j) (hfuel : k + 1 < fuel) :
    exec (Application.mainLoop envs fuel) s = (.ok (some 0), stateAfter envs s (k + 1)) := by
  have hstop := (stopLoop_below hs hround hnew (Nat.le_refl _)).mpr ⟨k, by omega, hdown⟩
  have hrun : ∀ j < k + 1, (stateAfter envs s j).app.stopLoop = false :=
    fun j hj => stopLoop_of_none hs hround hnew (Nat.le_succ k) hfirst j (by omega)
  rw [Application.mainLoop, exec_bind_ok (exec_loopUntil_ends
    (fun j hj => returns_below hs hround hj) hstop hrun hfuel)]
  rfl

theorem mainLoop_runs_below {fuel : Nat} (hround : ∀ j < fuel, RefreshReturns envs s j)
    (hnone : ∀ j < fuel, .shutdown ∉ roundTrace envs s j) :
    exec (Application.mainLoop envs fuel) s = (.ok none, stateAfter envs s fuel) := by
  have hrun : ∀ j < fuel, (stateAfter envs s j).app.stopLoop = false :=
    fun j hj => stopLoop_of_none hs hround hnew (Nat.le_refl fuel) hnone j (by omega)
  rw [Application.mainLoop, exec_bind_ok (exec_loopUntil_runs
    (fun j hj => returns_below hs hround hj) hrun)]
  rfl

end Loop

section Runs

variable {envs : Nat → RoundEnv} (hret : ∀ k, (envs k).refresh.HandlersReturn) {s : AppState}
  (hs : s.Ready)
include hret hs

theorem refreshReturns_of_handlersReturn (n : Nat) : ∀ k < n, RefreshReturns envs s k :=
  refreshReturns_of_kept hs n fun k _ hkept => refresh_returns hkept (hret k)

/-- Every round returns and leaves a state that is ready, with the same handlers. -/
theorem stateAfter_ready (k : Nat) :
    ((stateAfter envs s k).Ready ∧
      (roundManager envs s k).vmEventHandlers = s.app.vmManager.vmEventHandlers) ∧
    Returns (fun k => Application.round (envs k)) s k :=
  have hround := refreshReturns_of_handlersReturn hret hs (k + 1)
  ⟨ready_below hs hround (Nat.le_succ k), returns_below hs hround (Nat.lt_succ_self k)⟩

/-- The trace grows by a complete round. -/
theorem roundTrace_spec (k : Nat) :
    CompleteRound (envs k) (roundManager envs s k) (roundTrace envs s k) ∧
      (stateAfter envs s (k + 1)).trace = (stateAfter envs s k).trace ++ roundTrace envs s k :=
  roundTrace_below hs (refreshReturns_of_handlersReturn hret hs (k + 1)) (Nat.lt_succ_self k)

variable (hnew : s.trace = [])
include hnew

theorem trace_stateAfter (n : Nat) :
    (stateAfter envs s n).trace = (List.range n).flatMap (roundTrace envs s) :=
  trace_below hs (refreshReturns_of_handlersReturn hret hs n) hnew (Nat.le_refl n)

/-- The loop ends after the first round in which somebody calls `shutdown`. -/
theorem mainLoop_ends {k fuel : Nat} (hdown : .shutdown ∈ roundTrace envs s k)
    (hfirst : ∀ j < k, .shutdown ∉ roundTrace envs s j) (hfuel : k + 1 < fuel) :
    exec (Application.mainLoop envs fuel) s = (.ok (some 0), stateAfter envs s (k + 1)) :=
  mainLoop_ends_below hs hnew (refreshReturns_of_handlersReturn hret hs (k + 1)) hdown hfirst hfuel

theorem mainLoop_runs {fuel : Nat} (hnone : ∀ j < fuel, .shutdown ∉ roundTrace envs s j) :
    exec (Application.mainLoop envs fuel) s = (.ok none, stateAfter envs s fuel) :=
  mainLoop_runs_below hs hnew (refreshReturns_of_handlersReturn hret hs fuel) hnone

end Runs

/-- **Round discipline of the main loop.** Whatever the middleware answers, and whoever calls
`shutdown` when: every round is complete and the daemon manager is told of what its refresh
notifies; a loop that is entered after `shutdown` makes no round; one in which `shutdown` is first
called in round `k` (from 0) returns 0 behind that round; and until then it makes one round after
the other. -/
theorem mainLoop_rounds (daemonManager : Ref) (topologyManager : TopologyManager)
    (before after : List Op) (configOps : List Configuration.Op) (envs : Nat → RoundEnv)
    (hret : ∀ k, (envs k).refresh.HandlersReturn) :
    let s := AppState.start daemonManager topologyManager before after configOps
    let down := { s with app := s.app.shutdown }
    (∀ k, CompleteRound (envs k) (roundManager envs s k) (roundTrace envs s k) ∧
      (roundManager envs s k).vmEventHandlers[(runOps before).mgr.vmEventHandlers.length]? =
        some daemonManager) ∧
    (∀ fuel, exec (Application.mainLoop envs (fuel + 1)) down = (.ok (some 0), down)) ∧
    (∀ k, .shutdown ∈ roundTrace envs s k → (∀ j < k, .shutdown ∉ roundTrace envs s j) →
      ∀ fuel, k + 1 < fuel →
        ∃ s', exec (Application.mainLoop envs fuel) s = (.ok (some 0), s') ∧
          s'.trace = (List.range (k + 1)).flatMap (roundTrace envs s)) ∧
    ∀ fuel, (∀ j < fuel, .shutdown ∉ roundTrace envs s j) →
      ∃ s', exec (Application.mainLoop envs fuel) s = (.ok none, s') ∧
        s'.trace = (List.range fuel).flatMap (roundTrace envs s) := by
  intro s down
  have hs : s.Ready := AppState.start_ready daemonManager topologyManager before after configOps
  refine ⟨fun k => ⟨(roundTrace_spec hret hs k).1, ?_⟩, fun fuel => ?_,
    fun k hdown hfirst fuel hfuel => ?_, fun fuel hnone => ?_⟩
  · rw [(stateAfter_ready hret hs k).1.2]
    exact AppState.start_registered daemonManager topologyManager before after configOps
  · have hloop : exec
        (loopUntil (·.app.stopLoop) (fun k => Application.round (envs k)) (fuel + 1) 0)
        down = (.ok true, down) := exec_loopUntil_stop rfl fuel 0
    rw [Application.mainLoop, exec_bind_ok hloop]
    rfl
  · exact ⟨_, mainLoop_ends hret hs rfl hdown hfirst hfuel, trace_stateAfter hret hs rfl (k + 1)⟩
  · exact ⟨_, mainLoop_runs hret hs rfl hnone, trace_stateAfter hret hs rfl fuel⟩

/-- The second round's `postRefreshVMs` calls `shutdown`, while the topology cannot be refreshed. -/
theorem mainLoop_rounds_twice :
    let envs : Nat → RoundEnv := fun k =>
      { refresh := .uniform ["vmA"] .on
        topology := .error ⟨"unreachable"⟩
        shutsDown := fun step => k = 1 ∧ step = .postRefreshVMs
        callbackShutsDown := fun _ => false
        configures := fun _ => []
        result := 0 }
    let s := AppState.start 7 .init [] [] []
    ∃ s', exec (Application.mainLoop envs 3) s = (.ok (some 0), s') ∧
      s'.trace = roundTrace envs s 0 ++ roundTrace envs s 1 := by
  intro envs s
  have h := mainLoop_rounds 7 .init [] [] [] envs fun _ => RefreshEnv.uniform_handlersReturn _ _
  have hdown : .shutdown ∈ roundTrace envs s 1 :=
    (h.1 1).1.shutdown_iff.mpr (Or.inl ⟨.postRefreshVMs, rfl⟩)
  have hfirst : ∀ j < 1, .shutdown ∉ roundTrace envs s j := by
    intro j hj hmem
    obtain rfl : j = 0 := by omega
    rcases (h.1 0).1.shutdown_iff.mp hmem with ⟨step, hstep⟩ | ⟨i, entry, -, -, hcall⟩
    · simp [envs] at hstep
    · cases hcall
  obtain ⟨s', hexec, htrace⟩ := h.2.2.1 1 hdown hfirst 3 (by omega)
  exact ⟨s', hexec, by rw [htrace]; simp [List.range_succ, s]⟩

end NebuApp
