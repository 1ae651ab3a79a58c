import NebuApp.Application.Exceptions
import NebuApp.Main.Startup

/-!
# What `main` amounts to

Whatever the hooks do, `main` enters its loop in a state that `AppState.start` describes
(`main_eq`). What the hooks and the application share by then, and what the requests of the managers
were made of, says `start_shares`. How the program ends says `main_outcome`.
-/

namespace NebuApp

open Exec Flags

/-! ## The state the loop is entered in -/

namespace HookCode

variable (code : HookCode) (order : List Getter) (args : List String)

/-- All operations up to the loop. -/
def ops : List HookOp :=
  code.opsBefore order args ++ .onVMManager (.registerVMEventHandler code.daemonManager) ::
    code.setApplication

/-- No operation throws. Up to the hook `setApplication` there is no application to shut down. -/
def Succeeds : Prop :=
  Succeed none [] (code.opsBefore order args) ∧
    Succeed (some Lazy.only) (code.opsBefore order args ++
      [.onVMManager (.registerVMEventHandler code.daemonManager)]) code.setApplication

/-- What the first operation throws that does. -/
def abort? : Option MainAbort :=
  (firstAbort none [] (code.opsBefore order args)).or
    (firstAbort (some Lazy.only) (code.opsBefore order args ++
      [.onVMManager (.registerVMEventHandler code.daemonManager)]) code.setApplication)

theorem abort?_eq_none_iff : code.abort? order args = none ↔ code.Succeeds order args := by
  rw [abort?, Option.or_eq_none_iff, firstAbort_eq_none_iff, firstAbort_eq_none_iff, Succeeds]

/-- The state the loop is entered in. -/
def entered : AppState :=
  let s := AppState.start code.daemonManager
    (runRefreshes ((code.ops order args).filterMap HookOp.answer?))
    ((code.opsBefore order args).filterMap HookOp.vmOp?)
    (code.setApplication.filterMap HookOp.vmOp?) ((code.ops order args).flatMap HookOp.configOps)
  if code.setApplication.any HookOp.isShutdown then { s with app := s.app.shutdown } else s

/-- The constructor registers the daemon manager between the hooks. -/
theorem vmOps_ops : (code.ops order args).filterMap HookOp.vmOp? =
    (code.opsBefore order args).filterMap HookOp.vmOp? ++
      .registerVMEventHandler code.daemonManager :: code.setApplication.filterMap HookOp.vmOp? := by
  rw [ops, List.filterMap_append]
  rfl

variable {order} (horder : order.Perm [.daemonManager, .topologyManager, .vmManager])
include horder

theorem asks_opsBefore {asks : HookOp → Bool} (getter : Getter) {op : HookOp}
    (hop : op ∈ code.opsOf getter) (hasks : asks op = true) :
    ∃ op ∈ code.opsBefore order args, asks op = true := by
  refine ⟨op, List.mem_append_right _ (List.mem_flatMap.mpr ⟨getter, ?_, hop⟩), hasks⟩
  rw [horder.mem_iff]
  cases getter <;> simp

theorem valueOf_order :
    (fun getter => if getter ∈ order then code.valueOf getter else 0) = code.valueOf := by
  funext getter
  refine if_pos ?_
  rw [horder.mem_iff]
  cases getter <;> simp

theorem managers_ops :
    (∃ request, topologyManagerAfter (code.ops order args) =
      some (request, runRefreshes ((code.ops order args).filterMap HookOp.answer?))) ∧
    ∃ request, vmManagerAfter (code.ops order args) =
      some (request, (runOps ((code.ops order args).filterMap HookOp.vmOp?)).mgr) := by
  obtain ⟨topologyOp, htopologyOp, hasksTopology⟩ : ∃ op ∈ code.opsBefore order args,
      op.asksTopologyManager = true :=
    code.asks_opsBefore args horder .topologyManager (List.mem_singleton_self _) rfl
  obtain ⟨vmOp, hvmOp, hasksVMs⟩ : ∃ op ∈ code.opsBefore order args, op.asksVMManager = true :=
    code.asks_opsBefore args horder .vmManager (List.mem_singleton_self _) rfl
  exact ⟨managerAfter_of_asks _ ⟨topologyOp, List.mem_append_left _ htopologyOp, hasksTopology⟩,
    managerAfter_of_asks _ ⟨vmOp, List.mem_append_left _ hvmOp, hasksVMs⟩⟩

theorem appState?_entered {daemons : Daemons} {s : MainState}
    (hreflects : s.Reflects daemons (code.ops order args))
    (happlications : s.applications = .alloc .empty ⟨code.setApplication.any HookOp.isShutdown,
      code.daemonManager, Lazy.only, Lazy.only, true⟩) :
    s.appState? Lazy.only = some (code.entered order args) := by
  obtain ⟨⟨topologyRequest, htopology⟩, ⟨vmRequest, hvms⟩⟩ := code.managers_ops args horder
  rw [code.vmOps_ops, ← AppState.start_vmManager _ (runRefreshes ((code.ops order args).filterMap
    HookOp.answer?)) _ _ ((code.ops order args).flatMap HookOp.configOps)] at hvms
  have hstatics : s.statics =
      Configuration.runOps ((code.ops order args).flatMap HookOp.configOps) :=
    hreflects.statics
  rw [MainState.appState?, happlications, hreflects.topologyManager, hreflects.vmManager, htopology,
    hvms, hstatics, entered]
  cases code.setApplication.any HookOp.isShutdown <;> rfl

/-- **The start of the program**, with the state it leaves and the calls it has made. -/
theorem exec_start (daemons : Daemons) (argc : Int32) (argv : Nat → String)
    {segs : List (Segment String)} (hsegs : Parses
      (staticsAfter code.registerConfigurationOptions).IsFlag
      (Configuration.mainArguments argc argv) segs) :
    let args := Configuration.mainArguments argc argv
    (code.abort? order args = none → ∃ s,
      exec (start code order argc argv) (.initial daemons) = (.ok Lazy.only, s) ∧
        s.Reflects daemons (code.ops order args) ∧
        s.applications = .alloc .empty ⟨code.setApplication.any HookOp.isShutdown,
          code.daemonManager, Lazy.only, Lazy.only, true⟩ ∧
        s.application = some Lazy.only ∧
        s.calls = hookCalls (argv 0) (positionals segs) order ++ [.setApplication Lazy.only]) ∧
    (∀ abort, code.abort? order args = some abort →
      ∃ s, exec (start code order argc argv) (.initial daemons) = (.error abort, s)) := by
  intro args
  have hbefore := performs_before daemons code order argc argv hsegs
  rw [code.valueOf_order horder] at hbefore
  -- in any order, the getter has been called by the time the constructor runs
  have hasked : ∃ op ∈ code.opsBefore order args, op.asksVMManager = true :=
    code.asks_opsBefore args horder .vmManager (List.mem_singleton_self _) rfl
  rw [start_eq, abort?]
  cases hops : firstAbort none [] (code.opsBefore order args) with
  | none =>
    obtain ⟨s₁, hexec, hs₁⟩ := hbefore.returns hops
    obtain ⟨hreturns, hthrows⟩ := exec_behind hs₁ hasked code
    rw [Option.none_or]
    refine ⟨fun hnone => ?_, fun abort hsome => ?_⟩
    · obtain ⟨s₂, hexec₂, hrest⟩ := hreturns hnone
      exact ⟨s₂, (exec_bind_ok hexec).trans hexec₂, hrest⟩
    · obtain ⟨s₂, hexec₂⟩ := hthrows abort hsome
      exact ⟨s₂, (exec_bind_ok hexec).trans hexec₂⟩
  | some abort =>
    refine ⟨nofun, fun abort' hsome => ?_⟩
    cases hsome
    obtain ⟨s₁, hexec⟩ := hbefore.throws abort hops
    exact ⟨s₁, exec_bind_error hexec⟩

omit horder in
theorem entered_ready (hdown : code.setApplication.any HookOp.isShutdown = false) :
    (code.entered order args).Ready ∧ (code.entered order args).trace = [] := by
  rw [entered, hdown]
  exact ⟨AppState.start_ready _ _ _ _ _, rfl⟩

end HookCode

/-- Nobody calls `shutdown` in a round, and no handler throws from a removal. -/
def QuietRound (envs : Nat → RoundEnv) (s : AppState) (k : Nat) : Prop :=
  ¬ RoundThrows envs s k ∧ .shutdown ∉ roundTrace envs s k

theorem mainLoop_down {s : AppState} (h : s.app.stopLoop = true) (envs : Nat → RoundEnv)
    (fuel : Nat) : exec (Application.mainLoop envs (fuel + 1)) s = (.ok (some 0), s) := by
  have hloop : exec (loopUntil (fun s : AppState => s.app.stopLoop)
      (fun k => Application.round (envs k)) (fuel + 1) 0) s = (.ok true, s) := by
    apply exec_loopUntil_stop
    exact h
  rw [Application.mainLoop, exec_bind_ok hloop]
  rfl

/-! ## `main` -/

section Main

variable (code : HookCode) {order : List Getter}
  (horder : order.Perm [.daemonManager, .topologyManager, .vmManager]) (argc : Int32)
  (argv : Nat → String) (daemons : Daemons) (envs : Nat → RoundEnv)
include horder

/-- `main` is its loop, entered in `code.entered`, unless a hook throws. -/
theorem main_eq (fuel : Nat) :
    let args := Configuration.mainArguments argc argv
    main code order argc argv daemons envs fuel = match code.abort? order args with
      | some abort => .error abort
      | none => .ok (exec (do return (← Application.mainLoop envs fuel).map fun _ => 0)
          (code.entered order args)) := by
  intro args
  obtain ⟨segs, hsegs⟩ :=
    exists_parses (staticsAfter code.registerConfigurationOptions).IsFlag args
  obtain ⟨hreturns, hthrows⟩ := code.exec_start horder daemons argc argv hsegs
  cases habort : code.abort? order args with
  | none =>
    obtain ⟨s, hexec, hreflects, happlications, -⟩ := hreturns habort
    have happ := code.appState?_entered args horder hreflects happlications
    simp only [main, hexec, happ]
  | some abort =>
    obtain ⟨s, hexec⟩ := hthrows abort habort
    simp only [main, hexec]

end Main

/-- A request made of what is configured when the first of the operations asks for its manager. -/
def MadeOf (asks : HookOp → Bool) (ops : List HookOp) (request : AppRequest) : Prop :=
  ∃ pre op post, ops = pre ++ op :: post ∧ asks op = true ∧ (∀ op' ∈ pre, asks op' = false) ∧
    ∀ value?,
      (Configuration.Resolves (pre.flatMap HookOp.configOps) CONFIG_NEBU_URL value? →
        value? = some request.nebuURL) ∧
      (Configuration.Resolves (pre.flatMap HookOp.configOps) CONFIG_APP_UUID value? →
        value? = some request.appUUID)

theorem Configuration.Resolves.eq_value {done : List HookOp} {option : String}
    {value? : Option String} (h : Resolves (done.flatMap HookOp.configOps) option value?)
    (hcount : ∀ op ∈ done.flatMap HookOp.configOps, op.Countable)
    (hprovides : Statics.initial.Provides option) :
    value? = some ((staticsAfter done).value option) := by
  obtain ⟨value, hvalue⟩ :=
    Option.isSome_iff_exists.mp (AList.lookup_isSome.mpr (staticsAfter_provides hprovides done).2)
  have hlookup : (staticsAfter done).global.options.lookup option = value? := lookup_global hcount h
  rw [Statics.value, ← hlookup, hvalue]
  rfl

theorem managerAfter_madeOf {α : Type} {asks : HookOp → Bool} {value : List HookOp → α}
    {done : List HookOp} {manager : AppRequest × α}
    (h : managerAfter asks value done = some manager)
    (hcount : ∀ op ∈ done.flatMap HookOp.configOps, op.Countable) : MadeOf asks done manager.1 := by
  obtain ⟨request, hfirst, rfl⟩ := Option.map_eq_some_iff.mp h
  obtain ⟨pre, op, post, rfl, hasks, hnone, rfl⟩ := firstRequest_eq_some hfirst
  have hpre : ∀ op ∈ pre.flatMap HookOp.configOps, op.Countable := fun op hop =>
    hcount op (by rw [List.flatMap_append]; exact List.mem_append_left _ hop)
  exact ⟨pre, op, post, rfl, hasks, hnone, fun value? =>
    ⟨fun hresolves => hresolves.eq_value hpre Configuration.initial_provides_url,
      fun hresolves => hresolves.eq_value hpre Configuration.initial_provides_uuid⟩⟩

/-- **The hooks and the application share one object of each manager.** When `main` enters its
loop, each hook has been called once, in order, `initialise` with what the command line parser has
left of the arguments; the application the hooks were given holds the daemon manager they provide,
and the managers they get when they ask. The request of a manager is made of what was configured
when the first operation of a hook, or `main`, asked for it; no option set later changes it. The
vectors of arguments that hooks have parsed are shorter than 2^32. -/
theorem start_shares (code : HookCode) {order : List Getter}
    (horder : order.Perm [.daemonManager, .topologyManager, .vmManager]) (argc : Int32)
    (argv : Nat → String) (daemons : Daemons) {segs : List (Segment String)}
    (hsegs : Parses (staticsAfter code.registerConfigurationOptions).IsFlag
      (Configuration.mainArguments argc argv) segs)
    (hcount : ∀ op ∈ (code.ops order (Configuration.mainArguments argc argv)).flatMap
      HookOp.configOps, op.Countable) {application : Ref} {s : MainState}
    (h : exec (start code order argc argv) (.initial daemons) = (.ok application, s)) :
    let ops := code.ops order (Configuration.mainArguments argc argv)
    s.calls = hookCalls (argv 0) (positionals segs) order ++ [.setApplication application] ∧
    s.application = some application ∧
    ∃ topologyManager vmManager, s.topologyManager = .ofOption (some topologyManager) ∧
      s.vmManager = .ofOption (some vmManager) ∧
      MadeOf HookOp.asksTopologyManager ops topologyManager.1 ∧
      MadeOf HookOp.asksVMManager ops vmManager.1 ∧
      s.applications.get? application = some ⟨code.setApplication.any HookOp.isShutdown,
        code.daemonManager, Lazy.only, Lazy.only, true⟩ := by
  intro ops
  obtain ⟨hreturns, hthrows⟩ := code.exec_start horder daemons argc argv hsegs
  cases habort : code.abort? order (Configuration.mainArguments argc argv) with
  | some abort =>
    obtain ⟨s', hexec⟩ := hthrows abort habort
    cases h.symm.trans hexec
  | none =>
    obtain ⟨s', hexec, hreflects, happlications, happlication, hcalls⟩ := hreturns habort
    cases h.symm.trans hexec
    obtain ⟨⟨topologyRequest, htopology⟩, ⟨vmRequest, hvms⟩⟩ :=
      code.managers_ops (Configuration.mainArguments argc argv) horder
    refine ⟨hcalls, happlication, _, _, ?_, ?_, managerAfter_madeOf htopology hcount,
      managerAfter_madeOf hvms hcount, by rw [happlications]; rfl⟩
    · rw [hreflects.topologyManager, htopology]
    · rw [hreflects.vmManager, hvms]

/-- The virtual machine manager is asked for before the command line is parsed. -/
theorem start_shares_early :
    let code : HookCode :=
      { registerConfigurationOptions := [.getVMManager]
        prepareLogging := []
        initialise := []
        getDaemonManager := []
        daemonManager := 7
        setApplication := [] }
    let argv : Nat → String := fun i => ["app", "--nebu", "http://nebu"].getD i ""
    let order : List Getter := [.vmManager, .topologyManager, .daemonManager]
    ∀ daemons, ∃ s vmManager, exec (start code order 3 argv) (.initial daemons) =
      (.ok Lazy.only, s) ∧
      s.vmManager = .ofOption (some vmManager) ∧ vmManager.1.nebuURL = "http://localhost:8080" := by
  intro code argv order daemons
  have hsegs : Parses (staticsAfter code.registerConfigurationOptions).IsFlag
      (Configuration.mainArguments 3 argv) [.assignment "--nebu" "http://nebu"] :=
    .assignment (by decide) .nil
  have habort : code.abort? order (Configuration.mainArguments 3 argv) = none := rfl
  obtain ⟨s, hexec, -⟩ := (code.exec_start (by decide) daemons 3 argv hsegs).1 habort
  have hcount : ∀ op ∈ (code.ops order (Configuration.mainArguments 3 argv)).flatMap
      HookOp.configOps, op.Countable := by
    simp [code, order, HookCode.ops, HookCode.opsBefore, HookCode.opsInitialise, HookCode.opsOf,
      HookOp.configOps, Configuration.Op.Countable, Configuration.length_mainArguments_lt]
  obtain ⟨-, -, topologyManager, vmManager, -, hvms, -, hmade, -⟩ :=
    start_shares code (by decide) 3 argv daemons hsegs hcount hexec
  obtain ⟨pre, op, post, hsplit, -, hnone, hrequest⟩ := hmade
  refine ⟨s, vmManager, hexec, hvms, ?_⟩
  cases pre with
  | nil =>
    have hvalue := (hrequest _).1 (.untouched (by simp) (by simp))
    exact Option.some.inj (hvalue.symm.trans rfl)
  | cons op' pre =>
    obtain rfl : HookOp.getVMManager = op' := (List.cons.inj hsplit).1
    cases hnone _ List.mem_cons_self

end NebuApp
