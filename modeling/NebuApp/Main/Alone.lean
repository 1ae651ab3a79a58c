import NebuApp.Application.Interval
import NebuApp.Lib.Lockstep
import NebuApp.Main.Whole

/-!
# The loop on its own

`Application.mainLoop` has the managers in the application, as values, and lets code outside the
framework do no more than use the configuration and call `shutdown`. Such a loop is one over shared
objects whose steps perform just these operations: the two run in lockstep (`alike_round`), so that
`main` and `Loop.run` come to the same end (`main_is_run`).
-/

namespace NebuApp

open Exec Flags

/-- The exceptions of a loop, as exceptions of the program. -/
def MainAbort.of : AppAbort → MainAbort
  | .vmManager abort => .vmManager abort
  | .option error => .option error

/-- The operations of code that uses the configuration and calls `shutdown`, or does not. -/
def plainOps (configures : List Configuration.Op) (shutsDown : Bool) : List HookOp :=
  configures.map .configure ++ if shutsDown then [.shutdown] else []

/-- A round of the loop on its own, entered with a virtual machine manager: what happens in the
refresh of the topology is done before it, and what callbacks do, with all of their refresh. -/
def RoundEnv.loopEnv (env : RoundEnv) (m : VMManager) : LoopEnv where
  refresh := env.refresh
  topology := env.topology
  performs
    | .preRefreshTopology =>
      plainOps (env.configures .preRefreshTopology) (env.shutsDown .preRefreshTopology) ++
        plainOps (env.configures .refreshTopology) (env.shutsDown .refreshTopology)
    | step => plainOps (env.configures step) (env.shutsDown step)
  callbacks := plainOps (env.configures .refreshVMList) (env.shutsDown .refreshVMList ||
    (env.deliveries 0 (m.refresh env.refresh).2.trace).any AppEvent.isShutdown)
  callbacks_aside := by
    intro op hop
    rcases List.mem_append.mp hop with hop | hop
    · obtain ⟨configOp, -, rfl⟩ := List.mem_map.mp hop
      rfl
    · split at hop
      · rw [List.mem_singleton.mp hop]
        rfl
      · cases hop
  result := env.result

/-- The program has the application that a loop on its own has. -/
structure MainState.Shows (s : MainState) (t : AppState) : Prop where
  application : s.application = some Lazy.only
  applications : s.applications = .alloc .empty
    ⟨t.app.stopLoop, t.app.daemonManager, Lazy.only, Lazy.only, true⟩
  topologyManager : ∃ request, s.topologyManager = .ofOption (some (request, t.app.topologyManager))
  vmManager : ∃ request, s.vmManager = .ofOption (some (request, t.app.vmManager))
  statics : s.statics = t.statics

/-- The same exception, from states of which one shows the other. -/
def SameAbort (p : MainAbort × MainState) (q : AppAbort × AppState) : Prop :=
  p.1 = .of q.1 ∧ p.2.Shows q.2

/-- What code outside the framework leaves, in terms of events. -/
theorem MainState.Shows.happened {s : MainState} {t : AppState} {shutsDown : Bool}
    {statics : Configuration.Statics}
    (h : s.Shows { t with
      app := { t.app with stopLoop := t.app.stopLoop || shutsDown }
      statics := statics }) {events : List AppEvent}
    (hevents : events.any AppEvent.isShutdown = shutsDown) :
    s.Shows (AppState.happen { t with statics := statics } events) := by
  subst hevents
  exact ⟨h.application, h.applications, h.topologyManager, h.vmManager, h.statics⟩

theorem any_stepTrace (env : RoundEnv) (step : AppStep) :
    (env.stepTrace step).any AppEvent.isShutdown = env.shutsDown step := by
  cases hdown : env.shutsDown step <;>
    simp [RoundEnv.stepTrace, shutdownTrace, hdown, AppEvent.isShutdown]

section Steps

variable {s : MainState} {t : AppState} (h : s.Shows t)
include h

/-- The state behind operations on the configuration and `shutdown`. -/
theorem exec_plainOps (configures : List Configuration.Op) (shutsDown : Bool) :
    ∃ s', exec (performAll (plainOps configures shutsDown)) s = (.ok (), s') ∧
      s'.Shows { t with
        app := { t.app with stopLoop := t.app.stopLoop || shutsDown }
        statics := configures.foldl Configuration.Op.perform t.statics } := by
  obtain ⟨happlication, happlications, htopology, hvms, hstatics⟩ := h
  induction configures generalizing s t with
  | nil =>
    cases shutsDown with
    | false =>
      exact ⟨s, rfl, happlication, by rw [happlications, Bool.or_false], htopology, hvms, hstatics⟩
    | true =>
      refine ⟨{ s with applications := s.applications.modify Lazy.only fun application =>
        { application with stopLoop := true } }, ?_, happlication, ?_, htopology, hvms, hstatics⟩
      · obtain ⟨_, _, _, _, _, _, _, _⟩ := s
        cases happlication
        rfl
      · show s.applications.modify _ _ = _
        rw [happlications, Bool.or_true]
        rfl
  | cons op rest ih =>
    obtain ⟨s', hexec, hshows⟩ := ih (s := { s with statics := op.perform s.statics })
      (t := { t with statics := op.perform t.statics }) happlication happlications htopology hvms
      (congrArg (Configuration.Op.perform · op) hstatics)
    exact ⟨s', (exec_bind_ok rfl).trans hexec, hshows⟩

theorem exec_call_shows (env : RoundEnv) (step : AppStep) :
    ∃ s', exec (performAll (plainOps (env.configures step) (env.shutsDown step))) s = (.ok (), s') ∧
      s'.Shows (t.called env step) := by
  obtain ⟨s', hexec, hshows⟩ := exec_plainOps h (env.configures step) (env.shutsDown step)
  exact ⟨s', hexec, hshows.happened (any_stepTrace env step)⟩

theorem alike_call (env : RoundEnv) (step : AppStep) :
    Alike SameAbort MainState.Shows
      (exec (performAll (plainOps (env.configures step) (env.shutsDown step))) s)
      (exec (Application.call env step) t) := by
  obtain ⟨s', hexec, hshows⟩ := exec_call_shows h env step
  rw [hexec, Application.exec_call]
  exact .returns hshows

theorem exec_getApplication_shows : exec (Loop.getApplication Lazy.only) s =
    (.ok ⟨t.app.stopLoop, t.app.daemonManager, Lazy.only, Lazy.only, true⟩, s) := by
  rw [Loop.getApplication, exec_bind_ok (exec_get s), h.applications]
  rfl

theorem exec_callHook_shows (env : LoopEnv) (step : AppStep) :
    exec (Loop.callHook Lazy.only env step) s = exec (performAll (env.performs step)) s := by
  rw [Loop.callHook, exec_bind_ok (exec_getApplication_shows h)]
  rfl

theorem alike_refreshVMList (env : RoundEnv) :
    Alike SameAbort MainState.Shows
      (exec (Loop.refreshVMList Lazy.only (env.loopEnv t.app.vmManager)) s)
      (exec (Application.refreshVMList env) t) := by
  let refreshed := (t.app.vmManager.refresh env.refresh).2
  obtain ⟨s₁, hexec, h₁⟩ := exec_plainOps h (env.configures .refreshVMList)
    (env.shutsDown .refreshVMList || (env.deliveries 0 refreshed.trace).any AppEvent.isShutdown)
  obtain ⟨request, hmanager⟩ := h₁.vmManager
  let s₂ : MainState := { s₁ with vmManager := .ofOption (some (request, refreshed.mgr)) }
  -- the loop on its own notes the step and its callbacks one after the other
  have hshows : s₂.Shows (t.vmsRefreshed env) := by
    have hevents : (env.stepTrace .refreshVMList ++ env.deliveries 0 refreshed.trace).any
        AppEvent.isShutdown = _ := List.any_append
    rw [any_stepTrace] at hevents
    have h₂ := h₁.happened hevents
    rw [← AppState.happen_happen] at h₂
    exact ⟨h₂.application, h₂.applications, h₂.topologyManager, ⟨request, rfl⟩, h₂.statics⟩
  have hloop : exec (Loop.refreshVMList Lazy.only (env.loopEnv t.app.vmManager)) s =
      exec (liftError .vmManager (t.app.vmManager.refresh env.refresh).1 >>=
        fun _ => pure ()) s₂ := by
    rw [Loop.refreshVMList, exec_bind_ok (exec_getApplication_shows h)]
    refine (exec_bind_ok hexec).trans ?_
    rw [exec_bind_ok (exec_onObject hmanager _)]
    rfl
  rw [hloop, Application.exec_refreshVMList env t rfl]
  cases (t.app.vmManager.refresh env.refresh).1 with
  | ok succes => exact .returns hshows
  | error abort => exact .throws ⟨rfl, hshows⟩

theorem alike_refreshTopology (env : RoundEnv) (loopEnv : LoopEnv)
    (htopology : loopEnv.topology = env.topology) {t' : AppState}
    (ht : t = t'.called env .refreshTopology) :
    Alike SameAbort MainState.Shows (exec (Loop.refreshTopology Lazy.only loopEnv) s)
      (exec (Application.refreshTopology env) t') := by
  subst ht
  obtain ⟨request, hmanager⟩ := h.topologyManager
  rw [Loop.refreshTopology, exec_bind_ok (exec_getApplication_shows h),
    exec_bind_ok (exec_onObject hmanager _), htopology, Application.exec_refreshTopology]
  exact .returns ⟨h.application, h.applications, ⟨request, rfl⟩, h.vmManager, h.statics⟩

theorem alike_sleepInterval (env : RoundEnv) (loopEnv : LoopEnv)
    (hresult : loopEnv.result = env.result) :
    Alike SameAbort MainState.Shows (exec (Loop.sleepInterval loopEnv) s)
      (exec (Application.sleepInterval env) t) := by
  rw [Loop.sleepInterval, exec_bind_ok (exec_liftStatics _ s), Application.sleepInterval,
    exec_bind_ok (exec_get t), hresult, h.statics]
  have hstatics : ∀ statics, MainState.Shows { s with statics := statics }
      { t with statics := statics } := fun statics =>
    ⟨h.application, h.applications, h.topologyManager, h.vmManager, rfl⟩
  rcases hread : (Configuration.CONFIG_GETINT CONFIG_APP_INTERVAL env.result).run t.statics with
    ⟨error | seconds, statics⟩
  · exact .throws ⟨rfl, hstatics statics⟩
  · have hshows := hstatics statics
    exact .returns ⟨hshows.application, hshows.applications, hshows.topologyManager,
      hshows.vmManager, hshows.statics⟩

/-- **A round**, in lockstep. -/
theorem alike_round (env : RoundEnv) :
    Alike SameAbort MainState.Shows
      (exec (Loop.round Lazy.only (env.loopEnv t.app.vmManager)) s)
      (exec (Application.round env) t) := by
  let loopEnv := env.loopEnv t.app.vmManager
  have hhook : ∀ (step : AppStep), loopEnv.performs step =
      plainOps (env.configures step) (env.shutsDown step) → ∀ {s' : MainState} {t' : AppState},
        s'.Shows t' → Alike SameAbort MainState.Shows
          (exec (Loop.callHook Lazy.only loopEnv step) s')
          (exec (Application.call env step) t') := by
    intro step hstep s' t' h'
    rw [exec_callHook_shows h', hstep]
    exact alike_call h' env step
  -- up to the refresh, the virtual machine manager is the one the round is entered with
  obtain ⟨s₁, hexec₁, h₁⟩ := exec_call_shows h env .preLoop
  obtain ⟨s₂, hexec₂, h₂⟩ := exec_call_shows h₁ env .preRefreshVMs
  have hbegin : exec (Loop.round Lazy.only loopEnv) s =
      exec (Loop.refreshVMList Lazy.only loopEnv >>= fun _ => _) s₂ :=
    (exec_bind_ok ((exec_callHook_shows h loopEnv .preLoop).trans hexec₁)).trans
      (exec_bind_ok ((exec_callHook_shows h₁ loopEnv .preRefreshVMs).trans hexec₂))
  rw [hbegin, Application.round, exec_bind_ok (Application.exec_call env t _),
    exec_bind_ok (Application.exec_call env _ _)]
  refine (alike_refreshVMList h₂ env).bind fun _ s₃ t₃ h₃ => ?_
  refine (hhook .postRefreshVMs rfl h₃).bind fun _ s₄ t₄ h₄ => ?_
  -- what happens in the refresh of the topology belongs to the hook before it on one side
  have htopology : Alike SameAbort (fun s t => s.Shows (t.called env .refreshTopology))
      (exec (Loop.callHook Lazy.only loopEnv .preRefreshTopology) s₄)
      (exec (Application.call env .preRefreshTopology) t₄) := by
    obtain ⟨s', hexec, h'⟩ := exec_call_shows h₄ env .preRefreshTopology
    obtain ⟨s'', hexec', h''⟩ := exec_call_shows h' env .refreshTopology
    have hboth : exec (performAll (loopEnv.performs .preRefreshTopology)) s₄ = (.ok (), s'') := by
      have hsplit : performAll (loopEnv.performs .preRefreshTopology) = (do
          performAll (plainOps (env.configures .preRefreshTopology)
            (env.shutsDown .preRefreshTopology))
          performAll (plainOps (env.configures .refreshTopology)
            (env.shutsDown .refreshTopology))) :=
        List.forM_append
      rw [hsplit, exec_bind_ok hexec, hexec']
    rw [exec_callHook_shows h₄, hboth, Application.exec_call]
    exact .returns h''
  refine htopology.bind fun _ s₅ t₅ h₅ => ?_
  refine (alike_refreshTopology h₅ env loopEnv rfl rfl).bind fun _ s₆ t₆ h₆ => ?_
  refine (hhook .postRefreshTopology rfl h₆).bind fun _ s₇ t₇ h₇ => ?_
  refine (hhook .preRefreshDaemons rfl h₇).bind fun _ s₈ t₈ h₈ => ?_
  refine (alike_call h₈ env .refreshDaemons).bind fun _ s₉ t₉ h₉ => ?_
  refine (hhook .postRefreshDaemons rfl h₉).bind fun _ s₁₀ t₁₀ h₁₀ => ?_
  refine (hhook .preDeployDaemons rfl h₁₀).bind fun _ s₁₁ t₁₁ h₁₁ => ?_
  refine (alike_call h₁₁ env .deployDaemons).bind fun _ s₁₂ t₁₂ h₁₂ => ?_
  refine (hhook .postDeployDaemons rfl h₁₂).bind fun _ s₁₃ t₁₃ h₁₃ => ?_
  refine (hhook .postLoop rfl h₁₃).bind fun _ s₁₄ t₁₄ h₁₄ => ?_
  exact alike_sleepInterval h₁₄ env loopEnv rfl

end Steps

/-- **The loop.** Its rounds are entered with the managers that the loop on its own has then. -/
theorem alike_mainLoop {s : MainState} {t : AppState} (h : s.Shows t) (envs : Nat → RoundEnv)
    (fuel : Nat) :
    Alike SameAbort MainState.Shows
      (exec (Loop.mainLoop Lazy.only (fun k => (envs k).loopEnv
        (roundManager envs t k)) fuel) s)
      (exec (Application.mainLoop envs fuel) t) := by
  let envs' := fun k => (envs k).loopEnv (roundManager envs t k)
  have hloops : Alike SameAbort (fun s' t' => ∃ k, s'.Shows t' ∧ t' = stateAfter envs t k)
      (exec (loopUntil (Loop.stopLoop Lazy.only)
        (fun k => Loop.round Lazy.only (envs' k)) fuel 0) s)
      (exec (loopUntil (fun t : AppState => t.app.stopLoop)
        (fun k => Application.round (envs k)) fuel 0) t) := by
    -- rounds are numbered on both sides, so round `k` is entered in the state behind `k` rounds
    refine Alike.loopUntil (fun k s' t' h' => ?_) (fun k s' t' h' => ?_) fuel 0 s t ⟨h, rfl⟩
    · rw [Loop.stopLoop, h'.1.applications]
      rfl
    · obtain ⟨hshows, rfl⟩ := h'
      exact (alike_round hshows (envs k)).and_eq
  refine hloops.bind fun ended s' t' h' => ?_
  obtain ⟨k, hshows, -⟩ := h'
  cases ended <;> exact .returns hshows

theorem MainState.Looping.shows {daemons : Daemons} {daemonManager : Ref} {done : List HookOp}
    {s : MainState} (h : s.Looping daemons daemonManager done) {t : AppState}
    (ht : s.appState? Lazy.only = some t) : s.Shows t := by
  obtain ⟨topologyRequest, -, htopology⟩ := h.topologyManager_eq
  obtain ⟨vmRequest, -, hvms⟩ := h.vmManager_eq
  rw [MainState.appState?, h.applications, htopology, hvms] at ht
  cases ht
  exact ⟨h.application, h.applications, ⟨_, htopology⟩, ⟨_, hvms⟩, rfl⟩

/-- **The loop on its own is the loop of the program.** Let hooks, callbacks and the daemon manager
only use the configuration and call `shutdown` once the loop is entered. Then the loop over shared
objects, in which they perform just these operations, comes to the end that `main` comes to: it
returns the same, or throws the same exception, with the same application, managers and static
members of `Configuration`. -/
theorem main_is_run (code : HookCode) {order : List Getter}
    (horder : order.Perm [.daemonManager, .topologyManager, .vmManager]) (argc : Int32)
    (argv : Nat → String) (daemons : Daemons) (envs : Nat → RoundEnv) (fuel : Nat) :
    let entered := code.entered order (Configuration.mainArguments argc argv)
    let envs' := fun k => (envs k).loopEnv (roundManager envs entered k)
    let ended := exec (Loop.run code order argc argv envs' fuel) (.initial daemons)
    (∀ abort, main code order argc argv daemons envs fuel = .error abort →
      ended.1 = .error abort) ∧
    ∀ result t, main code order argc argv daemons envs fuel = .ok (result, t) →
      ended.1 = result.mapError .of ∧ ended.2.Shows t := by
  intro entered envs' ended
  rw [main_eq code horder argc argv daemons envs fuel]
  cases habort : code.abort? order (Configuration.mainArguments argc argv) with
  | some abort =>
    obtain ⟨s, hstart⟩ := start_throws code horder argc argv daemons habort
    have hended : ended = (.error abort, s) := exec_bind_error hstart
    rw [hended]
    constructor
    · intro abort' hmain
      cases hmain
      rfl
    · intro result t hmain
      cases hmain
  | none =>
    obtain ⟨s, hstart, hlooping, hentered⟩ := start_looping code horder argc argv daemons habort
    -- the program enters its loop in a state that shows `entered`, where the other loop starts
    have hloops := alike_mainLoop (hlooping.shows hentered) envs fuel
    have hends : Alike SameAbort MainState.Shows ended
        (exec (do return (← Application.mainLoop envs fuel).map fun _ => (0 : Int32)) entered) := by
      have hended : ended = exec (do
          return (← Loop.mainLoop Lazy.only envs' fuel).map fun _ => (0 : Int32)) s :=
        exec_bind_ok hstart
      rw [hended]
      exact hloops.bind fun status s' t' h' => .returns h'
    refine ⟨fun abort hmain => (by cases hmain), fun result t hmain => ?_⟩
    rw [Except.ok.injEq] at hmain
    rw [hmain] at hends
    generalize ended = p at hends
    cases hends with
    | returns h' => exact ⟨rfl, h'⟩
    | throws h' => exact ⟨congrArg Except.error h'.1, h'.2⟩

/-- Callbacks and the hook `preLoop` use the configuration, and the third round shuts down. -/
theorem main_is_run_third :
    let code : HookCode :=
      { registerConfigurationOptions := []
        prepareLogging := []
        initialise := [.configure (.setOption CONFIG_NEBU_URL "http://nebu")]
        getDaemonManager := [.getDaemonCollection]
        daemonManager := 7
        setApplication := [] }
    let order : List Getter := [.vmManager, .topologyManager, .daemonManager]
    let envs : Nat → RoundEnv := fun k => { RoundEnv.quiet with
      refresh := .uniform ["vmA", "vmB"] .on
      configures := fun step => if step = .preLoop ∨ step = .refreshVMList then
        [.setOption CONFIG_APP_INTERVAL "5"] else []
      callbackShutsDown := fun _ => k = 2 }
    ∀ argv daemons fuel,
      let entered := code.entered order (Configuration.mainArguments 1 argv)
      let envs' := fun k => (envs k).loopEnv (roundManager envs entered k)
      let ended := exec (Loop.run code order 1 argv envs' fuel) (.initial daemons)
      ∃ result t, main code order 1 argv daemons envs fuel = .ok (result, t) ∧
        ended.1 = result.mapError .of ∧ ended.2.Shows t := by
  intro code order envs argv daemons fuel
  have horder : order.Perm [.daemonManager, .topologyManager, .vmManager] := by decide
  have hmain : main code order 1 argv daemons envs fuel = .ok (exec _
      (code.entered order (Configuration.mainArguments 1 argv))) :=
    (main_eq code horder 1 argv daemons envs fuel).trans
      (by rw [show code.abort? order (Configuration.mainArguments 1 argv) = none from rfl])
  exact ⟨_, _, hmain, (main_is_run code horder 1 argv daemons envs fuel).2 _ _ hmain⟩

end NebuApp
