import NebuApp.Application.Managers
import NebuApp.Main.Interval
import NebuApp.VM.Precedence

/-!
# What the daemon manager has been told

To the virtual machine manager a run of the loop is a sequence of refreshes, also if an exception
ends it (`mainLoop_performs`). So the daemon manager, which the constructor of the application
registers, has been told of exactly what is tracked at the end of the program, however that ends and
whoever throws, as long as the handlers that hooks registered before it return
(`main_tells_daemonManager`).
-/

namespace NebuApp

open Exec Mirror

/-! ## The loop as operations -/

/-- What the virtual machine manager is and has done. -/
def AppState.vmState (s : AppState) : RefreshState := ⟨s.app.vmManager, vmEntries s.trace⟩

/-- A round refreshes the virtual machine manager once, whether it returns or throws. -/
theorem Application.round_performs (env : RoundEnv) {s : AppState}
    (hs : s.statics.Provides CONFIG_APP_INTERVAL) :
    (exec (Application.round env) s).2.statics.Provides CONFIG_APP_INTERVAL ∧
      (exec (Application.round env) s).2.vmState =
        (Op.refreshVMList env.refresh).perform s.vmState := by
  cases hrefresh : (s.app.vmManager.refresh env.refresh).1 with
  | ok succes =>
    have hprovides : (env.configured s.statics).Provides CONFIG_APP_INTERVAL :=
      Configuration.foldl_perform_provides _ hs
    obtain ⟨i, hread⟩ := hprovides.getOptionInt env.result
    rw [Application.exec_round env s hrefresh hread]
    refine ⟨Configuration.perform_provides _ hprovides, ?_⟩
    rw [AppState.vmState, AppState.vmEntries_rounded]
    rfl
  | error abort =>
    rw [Application.exec_round_throw env s hrefresh]
    refine ⟨Configuration.foldl_perform_provides _ (Configuration.foldl_perform_provides _
      (Configuration.foldl_perform_provides _ hs)), ?_⟩
    have hentries : vmEntries
        (((s.called env .preLoop).called env .preRefreshVMs).vmsRefreshed env).trace =
          vmEntries s.trace ++ (s.app.vmManager.refresh env.refresh).2.trace := by
      simp [AppState.vmsRefreshed, AppState.called, vmEntries_stepTrace, vmEntries_deliveries]
    rw [AppState.vmState, hentries]
    rfl

/-- **To the virtual machine manager, a run of the loop is a run of refreshes**, however it ends. -/
theorem mainLoop_performs (envs : Nat → RoundEnv) {s : AppState}
    (hs : s.statics.Provides CONFIG_APP_INTERVAL) (fuel : Nat) :
    ∃ ops : List Op, (∀ op ∈ ops, ∃ k, op = .refreshVMList (envs k).refresh) ∧
      (exec (Application.mainLoop envs fuel) s).2.vmState = ops.foldl Op.perform s.vmState := by
  rw [Application.exec_mainLoop_state]
  let Performed : AppState → Prop := fun s' => s'.statics.Provides CONFIG_APP_INTERVAL ∧
    ∃ ops : List Op, (∀ op ∈ ops, ∃ k, op = .refreshVMList (envs k).refresh) ∧
      s'.vmState = ops.foldl Op.perform s.vmState
  have hend : Performed (exec (loopUntil (·.app.stopLoop) (fun k => Application.round (envs k))
      fuel 0) s).2 := loopUntil_invariant ?_ fuel 0 s ⟨hs, [], by simp, rfl⟩
  · exact hend.2
  · rintro k s' ⟨hs', ops, hops, hstate⟩
    obtain ⟨hprovides, hround⟩ := Application.round_performs (envs k) hs'
    refine ⟨hprovides, ops ++ [.refreshVMList (envs k).refresh], fun op hop => ?_, ?_⟩
    · rcases List.mem_append.mp hop with hop | hop
      · exact hops op hop
      · exact ⟨k, List.mem_singleton.mp hop⟩
    · rw [hround, hstate, List.foldl_append]
      rfl

/-! ## The start -/

theorem HookCode.vmManager_entered (code : HookCode) (order : List Getter) (args : List String) :
    (code.entered order args).vmState = ⟨(runOps ((code.opsBefore order args).filterMap
      HookOp.vmOp? ++ .registerVMEventHandler code.daemonManager ::
        code.setApplication.filterMap HookOp.vmOp?)).mgr, []⟩ := by
  rw [← AppState.start_vmManager _ (runRefreshes ((code.ops order args).filterMap HookOp.answer?))
    _ _ ((code.ops order args).flatMap HookOp.configOps), entered]
  cases code.setApplication.any HookOp.isShutdown <;> rfl

theorem HookCode.provides_entered (code : HookCode) (order : List Getter) (args : List String) :
    (code.entered order args).statics.Provides CONFIG_APP_INTERVAL := by
  have hstart := (AppState.start_ready code.daemonManager
    (runRefreshes ((code.ops order args).filterMap HookOp.answer?))
    ((code.opsBefore order args).filterMap HookOp.vmOp?)
    (code.setApplication.filterMap HookOp.vmOp?)
    ((code.ops order args).flatMap HookOp.configOps)).provides
  rw [entered]
  cases code.setApplication.any HookOp.isShutdown <;> exact hstart

/-- **The daemon manager has been told of what is tracked.** In every run of `main` that reaches the
loop, however it ends and whichever callbacks throw: if the handlers that hooks registered before
the daemon manager return, and each VM is returned with the UUID it is asked for by, the events it
has received, in the hooks and in the loop, replayed over the statuses at its registration, are the
statuses the program leaves. -/
theorem main_tells_daemonManager (code : HookCode) {order : List Getter}
    (horder : order.Perm [.daemonManager, .topologyManager, .vmManager]) (argc : Int32)
    (argv : Nat → String) (daemons : Daemons) (envs : Nat → RoundEnv)
    (hown : ∀ op ∈ (code.ops order (Configuration.mainArguments argc argv)).filterMap HookOp.vmOp?,
      op.Meets RefreshEnv.HonestUUIDs) (hown' : ∀ k, (envs k).refresh.HonestUUIDs) {fuel : Nat}
    {result : Except AppAbort (Option Int32)} {s' : AppState}
    (h : main code order argc argv daemons envs fuel = .ok (result, s')) :
    let before := (code.opsBefore order (Configuration.mainArguments argc argv)).filterMap
      HookOp.vmOp?
    let after := code.setApplication.filterMap HookOp.vmOp?
    let start := (runOps before).mgr
    let slot := start.vmEventHandlers.length
    let hooks := runOps (before ++ .registerVMEventHandler code.daemonManager :: after)
    (∀ op ∈ after, op.Meets (RefreshEnv.ReturnBefore slot)) →
      (∀ k, (envs k).refresh.ReturnBefore slot) →
        s'.app.vmManager.vmEventHandlers[slot]? = some code.daemonManager ∧
        replay start.statuses (eventsTo slot (hooks.trace ++ vmEntries s'.trace)) =
          s'.app.vmManager.statuses := by
  intro before after start slot hooks hret hret'
  obtain ⟨ops, hops, hloop⟩ := mainLoop_performs envs
    (code.provides_entered order (Configuration.mainArguments argc argv)) fuel
  rw [exec_mainLoop_of_main code horder h, code.vmManager_entered order] at hloop
  -- the hooks and the loop are one run of the virtual machine manager
  have hrun : runOps (before ++ .registerVMEventHandler code.daemonManager :: (after ++ ops)) =
      ⟨s'.app.vmManager, hooks.trace ++ vmEntries s'.trace⟩ := by
    have hassoc : before ++ .registerVMEventHandler code.daemonManager :: (after ++ ops) =
        (before ++ .registerVMEventHandler code.daemonManager :: after) ++ ops := by simp
    rw [hassoc, runOps_append, ← hloop]
    rfl
  have hownAll : ∀ op ∈ before ++ (after ++ ops), op.Meets RefreshEnv.HonestUUIDs := by
    rw [code.vmOps_ops, List.forall_mem_append, List.forall_mem_cons] at hown
    rw [List.forall_mem_append, List.forall_mem_append]
    refine ⟨hown.1, hown.2.2, fun op hop => ?_⟩
    obtain ⟨k, rfl⟩ := hops op hop
    exact hown' k
  have hretAll : ∀ op ∈ after ++ ops, op.Meets (RefreshEnv.ReturnBefore slot) := by
    intro op hop
    rcases List.mem_append.mp hop with hop | hop
    · exact hret op hop
    · obtain ⟨k, rfl⟩ := hops op hop
      exact hret' k
  have hhandler := runOps_heard_handler code.daemonManager hownAll hretAll
  have hstatuses := runOps_heard_statuses code.daemonManager hownAll hretAll
  rw [hrun] at hhandler hstatuses
  exact ⟨hhandler, hstatuses⟩

/-- A hook registers a handler that throws behind the daemon manager, which ends the program in the
second round: the first of two removals. -/
theorem main_tells_daemonManager_removal :
    let code : HookCode :=
      { registerConfigurationOptions := []
        prepareLogging := []
        initialise := [.onVMManager (.registerVMEventHandler 6)]
        getDaemonManager := []
        daemonManager := 7
        setApplication := [.onVMManager (.registerVMEventHandler 8)] }
    let order : List Getter := [.vmManager, .topologyManager, .daemonManager]
    let envs : Nat → RoundEnv := fun k => { RoundEnv.quiet with
      refresh := { RefreshEnv.uniform (if k = 0 then ["vmA", "vmB"] else []) .on with
        callback := fun _ slot _ => if slot = 2 then .error ⟨"handler"⟩ else .ok () } }
    ∀ daemons argv, ∃ result s', main code order 1 argv daemons envs 2 = .ok (result, s') ∧
      s'.app.vmManager.vmEventHandlers[1]? = some 7 ∧
      replay VMManager.init.statuses (eventsTo 1 (vmEntries s'.trace)) =
        s'.app.vmManager.statuses := by
  intro code order envs daemons argv
  have horder : order.Perm [.daemonManager, .topologyManager, .vmManager] := by decide
  have hmain : main code order 1 argv daemons envs 2 = .ok (exec _
      (code.entered order (Configuration.mainArguments 1 argv))) :=
    (main_eq code horder 1 argv daemons envs 2).trans
      (by rw [show code.abort? order (Configuration.mainArguments 1 argv) = none from rfl])
  have hown : ∀ op ∈ (code.ops order (Configuration.mainArguments 1 argv)).filterMap HookOp.vmOp?,
      op.Meets RefreshEnv.HonestUUIDs := by
    show ∀ op ∈ [Op.registerVMEventHandler 6, .registerVMEventHandler 7, .registerVMEventHandler 8],
      op.Meets RefreshEnv.HonestUUIDs
    simp [Op.Meets]
  have hown' : ∀ k, (envs k).refresh.HonestUUIDs := fun k =>
    RefreshEnv.uniform_honestUUIDs (if k = 0 then ["vmA", "vmB"] else []) .on
  have hret : ∀ k, (envs k).refresh.ReturnBefore 1 := by
    intro k count i call hi
    exact if_neg (by omega)
  exact ⟨_, _, hmain, main_tells_daemonManager code horder 1 argv daemons envs hown hown' hmain
    (by simp [code, HookOp.vmOp?, Op.Meets]) hret⟩

end NebuApp
