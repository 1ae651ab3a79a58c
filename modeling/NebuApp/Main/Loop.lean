import NebuApp.Main.Program

/-!
# The loop over shared objects

In the loop as modelled so far, what is not the framework's own code only uses the configuration and
calls `shutdown`. But hooks, callbacks and the daemon manager can reach as much there as before the
loop: they may add daemons, register handlers, have the managers refreshed, or throw. Here they
perform operations on the objects that `main` has set up, and so does the `Application`, through the
pointers it was constructed with. A round then performs the operations of its steps, one after the
other, or these up to the first that throws (`does_round`).
-/

namespace NebuApp

open Exec Flags

/-! ## The loop -/

/-- Operations that leave the virtual machine manager alone, and do not throw in the loop. -/
def HookOp.isAside : HookOp → Bool
  | onVMManager _ | raise _ => false
  | _ => true

/-- What happens in a round. The code of the application is what it performs. -/
structure LoopEnv where
  /-- What the refresh of the virtual machines meets. -/
  refresh : RefreshEnv
  /-- `appPhysRequest->getPhysicalTopology()`. -/
  topology : Except NebuServerException (Option Topology)
  /-- The code of a hook, or of the daemon manager. -/
  performs : AppStep → List HookOp
  /-- The code of the callbacks of the refresh. It does not change the virtual machine manager, and
  the refresh changes nothing else, so that it does not matter that it is performed ahead. What it
  throws is part of what the refresh meets. -/
  callbacks : List HookOp
  callbacks_aside : ∀ op ∈ callbacks, op.isAside = true
  /-- What the variable in `getOptionInt` holds before the extraction. -/
  result : Int32

namespace Loop

variable (application : Ref) (env : LoopEnv)

/-- The `Application` whose code runs. -/
def getApplication : MainProg ApplicationObject := do
  match (← get).applications.get? application with
  | some object => pure object
  | none => throw .nullDereference

/-- `this->applicationHooks->…()`. -/
def callHook (step : AppStep) : MainProg Unit := do
  if (← getApplication application).applicationHooks then
    performAll (env.performs step)
  else
    throw .nullDereference

/-- Call a member function on the object behind a pointer. -/
def onObject {α β : Type} (member : MainState → Lazy α) (assign : Lazy α → MainState → MainState)
    (object : Ref) (f : α → β × α) : MainProg β := do
  match (member (← get)).objects.get? object with
  | none => throw .nullDereference
  | some a =>
    modify fun s => assign ((member s).modify object fun _ => (f a).2) s
    pure (f a).1

/-- `this->vmManager->refreshVMList()`. -/
def refreshVMList : MainProg Unit := do
  let object ← getApplication application
  performAll env.callbacks
  let outcome ← onObject (·.vmManager) (fun l s => { s with vmManager := l }) object.vmManager
    fun manager =>
      let (outcome, refreshed) := manager.2.refresh env.refresh
      (outcome, manager.1, refreshed.mgr)
  let _ ← liftError .vmManager outcome

/-- `this->topologyManager->refreshTopology()`. -/
def refreshTopology : MainProg Unit := do
  let object ← getApplication application
  let _ ← onObject (·.topologyManager) (fun l s => { s with topologyManager := l })
    object.topologyManager fun manager =>
      let (succes, refreshed) := manager.2.refreshTopology env.topology
      (succes, manager.1, refreshed)

/-- `sleep(CONFIG_GETINT(CONFIG_APP_INTERVAL))`, but for the time that passes. -/
def sleepInterval : MainProg Unit := do
  let seconds ← liftStatics (Configuration.CONFIG_GETINT CONFIG_APP_INTERVAL env.result)
  let _ ← liftError .option seconds

/-- The body of the loop of `Application::mainLoop`. -/
def round : MainProg Unit := do
  callHook application env .preLoop
  callHook application env .preRefreshVMs
  refreshVMList application env
  callHook application env .postRefreshVMs
  callHook application env .preRefreshTopology
  refreshTopology application env
  callHook application env .postRefreshTopology
  callHook application env .preRefreshDaemons
  performAll (env.performs .refreshDaemons)
  callHook application env .postRefreshDaemons
  callHook application env .preDeployDaemons
  performAll (env.performs .deployDaemons)
  callHook application env .postDeployDaemons
  callHook application env .postLoop
  sleepInterval env

/-- `this->stopLoop`. -/
def stopLoop (s : MainState) : Bool := (s.applications.get? application).any (·.stopLoop)

/-- `Application::mainLoop`, for at most `fuel` evaluations of the condition of its loop. -/
def mainLoop (envs : Nat → LoopEnv) (fuel : Nat) : MainProg (Option Int32) := do
  if ← loopUntil (stopLoop application) (fun k => round application (envs k)) fuel 0 then
    pure (some 0)
  else
    pure none

/-- `main`. -/
def run (code : HookCode) (order : List Getter) (argc : Int32) (argv : Nat → String)
    (envs : Nat → LoopEnv) (fuel : Nat) : MainProg (Option Int32) := do
  let application ← start code order argc argv
  return (← mainLoop application envs fuel).map fun _ => 0

end Loop

/-! ## Operations -/

/-- The operations of a round. To read the interval asks for the global `Configuration`. -/
def LoopEnv.ops (env : LoopEnv) : List HookOp :=
  env.performs .preLoop ++ (env.performs .preRefreshVMs ++
    ((env.callbacks ++ [.onVMManager (.refreshVMList env.refresh)]) ++
    (env.performs .postRefreshVMs ++ (env.performs .preRefreshTopology ++
    (.refreshTopology env.topology :: (env.performs .postRefreshTopology ++
    (env.performs .preRefreshDaemons ++ (env.performs .refreshDaemons ++
    (env.performs .postRefreshDaemons ++ (env.performs .preDeployDaemons ++
    (env.performs .deployDaemons ++ (env.performs .postDeployDaemons ++
    (env.performs .postLoop ++ [.configure .getGlobalConfiguration])))))))))))))

/-- The operations of the first `k` rounds. -/
def opsUpTo (envs : Nat → LoopEnv) (k : Nat) : List HookOp :=
  (List.range k).flatMap fun j => (envs j).ops

theorem opsUpTo_succ (envs : Nat → LoopEnv) (k : Nat) :
    opsUpTo envs (k + 1) = opsUpTo envs k ++ (envs k).ops := by
  rw [opsUpTo, List.range_succ, List.flatMap_append, List.flatMap_singleton]
  rfl

/-- A state of the loop: the managers are there, and the flag is up iff `shutdown` was called. -/
structure MainState.Looping (daemons : Daemons) (daemonManager : Ref) (done : List HookOp)
    (s : MainState) : Prop where
  reflects : s.Reflects daemons done
  application : s.application = some Lazy.only
  applications : s.applications = .alloc .empty
    ⟨done.any HookOp.isShutdown, daemonManager, Lazy.only, Lazy.only, true⟩
  topologyManager : ∃ op ∈ done, op.asksTopologyManager = true
  vmManager : ∃ op ∈ done, op.asksVMManager = true

/-- Code of the loop performs `ops` behind `done`, or these up to the first that throws, and throws
what this does. -/
inductive Does (daemons : Daemons) (daemonManager : Ref) (done ops : List HookOp) :
    Except MainAbort Unit × MainState → Prop where
  | returns {s : MainState} (hnone : firstAbort (some Lazy.only) done ops = none)
      (h : s.Looping daemons daemonManager (done ++ ops)) :
      Does daemons daemonManager done ops (.ok (), s)
  | throws {abort : MainAbort} {s : MainState}
      (hsome : firstAbort (some Lazy.only) done ops = some abort)
      (h : s.Looping daemons daemonManager (done ++ upToAbort (some Lazy.only) done ops)) :
      Does daemons daemonManager done ops (.error abort, s)

theorem exec_onObject {α β : Type} {member : MainState → Lazy α}
    {assign : Lazy α → MainState → MainState} {s : MainState} {a : α}
    (h : member s = .ofOption (some a)) (f : α → β × α) :
    exec (Loop.onObject member assign Lazy.only f) s =
      (.ok (f a).1, assign (.ofOption (some (f a).2)) s) := by
  rw [Loop.onObject, exec_bind_ok (exec_get s), h]
  simp only [Lazy.get?_ofOption]
  refine (exec_bind_ok rfl).trans ?_
  simp only [h, Lazy.modify_ofOption]
  rfl

/-- A manager that has been asked for has the request of the first who asked. -/
theorem managerAfter_asked {α : Type} {asks : HookOp → Bool} (value : List HookOp → α)
    {done : List HookOp} (h : ∃ op ∈ done, asks op = true) :
    ∃ request, firstRequest asks done = some request ∧
      managerAfter asks value done = some (request, value done) := by
  obtain ⟨request, hmanager⟩ := managerAfter_of_asks value h
  obtain ⟨request', hrequest, heq⟩ := Option.map_eq_some_iff.mp hmanager
  exact ⟨request, by rw [hrequest, (Prod.mk.inj heq).1], hmanager⟩

section Does

variable {daemons : Daemons} {daemonManager : Ref} {done : List HookOp} {s : MainState}

theorem Does.bind {x y : MainProg Unit} {ops ops' : List HookOp}
    (hx : Does daemons daemonManager done ops (exec x s))
    (hy : ∀ s', s'.Looping daemons daemonManager (done ++ ops) →
      Does daemons daemonManager (done ++ ops) ops' (exec y s')) :
    Does daemons daemonManager done (ops ++ ops') (exec (x >>= fun _ => y) s) := by
  generalize hexec : exec x s = result at hx
  cases hx with
  | @returns s₁ hnone h₁ =>
    have hy' := hy s₁ h₁
    rw [exec_bind_ok hexec]
    generalize exec y s₁ = result at hy'
    cases hy' with
    | returns hnone' h₂ =>
      rw [List.append_assoc] at h₂
      exact .returns (by rw [firstAbort_append, hnone, hnone']; rfl) h₂
    | throws hsome h₂ =>
      rw [List.append_assoc, ← upToAbort_append_of_none ops' hnone] at h₂
      exact .throws (by rw [firstAbort_append, hnone, hsome]; rfl) h₂
  | throws hsome h₁ =>
    -- nothing behind it is performed
    rw [exec_bind_error hexec]
    rw [← upToAbort_append_of_some ops' hsome] at h₁
    exact .throws (by rw [firstAbort_append, hsome]; rfl) h₁

variable (h : s.Looping daemons daemonManager done)
include h

/-- What an operation leaves that leaves what the sequence says. -/
theorem MainState.Looping.snoc {op : HookOp} {s' : MainState}
    (hreflects : s'.Reflects daemons (done ++ [op]))
    (happlication : s'.application = s.application)
    (happlications : s'.applications = op.applicationsAfter s.application s.applications) :
    s'.Looping daemons daemonManager (done ++ [op]) := by
  obtain ⟨op₁, hop₁, hasks₁⟩ := h.topologyManager
  obtain ⟨op₂, hop₂, hasks₂⟩ := h.vmManager
  refine ⟨hreflects, happlication.trans h.application, ?_,
    ⟨op₁, List.mem_append_left _ hop₁, hasks₁⟩, ⟨op₂, List.mem_append_left _ hop₂, hasks₂⟩⟩
  have hstop := applications_setApplication [op]
    ⟨done.any HookOp.isShutdown, daemonManager, Lazy.only, Lazy.only, true⟩
  rw [happlications, h.application, h.applications, List.any_append]
  exact hstop

/-- One operation. In the loop there is an application to shut down, so that only the virtual
machine manager throws, which has been refreshed by then. -/
theorem does_code (op : HookOp) : Does daemons daemonManager done [op] (exec op.code s) := by
  have hfirst : firstAbort (some Lazy.only) done [op] = op.abort? (some Lazy.only) done := by
    rw [firstAbort, firstAbort, Option.or_none]
  cases habort : op.abort? (some Lazy.only) done with
  | none =>
    obtain ⟨s', hexec, hreflects, happlication, -, happlications⟩ :=
      (exec_code h.reflects op).1 (by rw [h.application, habort])
    rw [hexec]
    exact .returns (hfirst.trans habort) (h.snoc hreflects happlication happlications)
  | some abort =>
    cases op with
    | onVMManager op =>
      have hexec := exec_onVMManager h.reflects op
      cases houtcome : HookOp.outcome (runOps (done.filterMap HookOp.vmOp?)).mgr op with
      | ok u => simp [HookOp.abort?, houtcome] at habort
      | error abort' =>
        simp only [HookOp.abort?, houtcome, Option.some.injEq] at habort
        rw [houtcome] at hexec
        rw [hexec, Except.mapError, habort]
        -- what the refresh has tracked and announced up to the exception stays
        refine .throws (hfirst.trans ?_) ?_
        · simp only [HookOp.abort?, houtcome, habort]
        · rw [upToAbort_singleton]
          refine h.snoc ?_ rfl rfl
          refine h.reflects.of_asksVMManager rfl ?_
          rw [List.filterMap_append, runOps_append]
          rfl
    | raise what =>
      cases habort
      refine .throws (hfirst.trans rfl) ?_
      rw [upToAbort_singleton]
      exact h.snoc (h.reflects.of_asksNothing rfl rfl rfl ⟨rfl, rfl, rfl, rfl⟩ rfl) rfl rfl
    | shutdown => simp [HookOp.abort?] at habort
    | _ => cases habort

theorem does_performAll (ops : List HookOp) :
    Does daemons daemonManager done ops (exec (performAll ops) s) := by
  induction ops generalizing done s with
  | nil => exact .returns rfl (by rwa [List.append_nil])
  | cons op rest ih =>
    exact Does.bind (y := performAll rest) (does_code h op) fun s' h' => ih h'

theorem exec_getApplication : exec (Loop.getApplication Lazy.only) s = (.ok
    ⟨done.any HookOp.isShutdown, daemonManager, Lazy.only, Lazy.only, true⟩, s) := by
  rw [Loop.getApplication, exec_bind_ok (exec_get s), h.applications]
  rfl

theorem does_callHook (env : LoopEnv) (step : AppStep) :
    Does daemons daemonManager done (env.performs step)
      (exec (Loop.callHook Lazy.only env step) s) := by
  rw [Loop.callHook, exec_bind_ok (exec_getApplication h)]
  exact does_performAll h (env.performs step)

/-- The virtual machine manager that the getter returns is the one of the application. -/
theorem MainState.Looping.vmManager_eq : ∃ request,
    firstRequest HookOp.asksVMManager done = some request ∧
      s.vmManager = .ofOption (some (request, (runOps (done.filterMap HookOp.vmOp?)).mgr)) := by
  obtain ⟨request, hrequest, hmanager⟩ := managerAfter_asked
    (fun done => (runOps (done.filterMap HookOp.vmOp?)).mgr) h.vmManager
  exact ⟨request, hrequest, h.reflects.vmManager.trans (congrArg _ hmanager)⟩

theorem MainState.Looping.topologyManager_eq : ∃ request,
    firstRequest HookOp.asksTopologyManager done = some request ∧
      s.topologyManager = .ofOption
        (some (request, runRefreshes (done.filterMap HookOp.answer?))) := by
  obtain ⟨request, hrequest, hmanager⟩ := managerAfter_asked
    (fun done => runRefreshes (done.filterMap HookOp.answer?)) h.topologyManager
  exact ⟨request, hrequest, h.reflects.topologyManager.trans (congrArg _ hmanager)⟩

theorem MainState.Looping.touched_statics : (staticsAfter done).touched = s.statics := by
  obtain ⟨op, hop, hasks⟩ := h.vmManager
  rw [h.reflects.statics]
  exact touched_staticsAfter ⟨op, hop, by cases op <;> first | rfl | cases hasks⟩

/-- A refresh of the application is one of `getVMManager()`. -/
theorem looping_vmsRefreshed (env : RefreshEnv) :
    let manager := (runOps (done.filterMap HookOp.vmOp?)).mgr
    ∃ s', exec (Loop.onObject (·.vmManager) (fun l s => { s with vmManager := l }) Lazy.only
        fun manager : AppRequest × VMManager =>
          ((manager.2.refresh env).1, manager.1, (manager.2.refresh env).2.mgr)) s =
        (.ok (manager.refresh env).1, s') ∧
      s'.Looping daemons daemonManager (done ++ [.onVMManager (.refreshVMList env)]) := by
  intro manager
  obtain ⟨request, hrequest, hmanager⟩ := h.vmManager_eq
  refine ⟨{ s with vmManager := .ofOption (some (request, (manager.refresh env).2.mgr)) }, ?_,
    h.snoc ?_ rfl rfl⟩
  · exact exec_onObject hmanager _
  · have hnext : (runOps ((done ++ [HookOp.onVMManager (.refreshVMList env)]).filterMap
        HookOp.vmOp?)).mgr = (manager.refresh env).2.mgr := by
      rw [List.filterMap_append, runOps_append]
      rfl
    have hreflects := h.reflects.of_asksVMManager rfl hnext
    rw [hrequest, h.touched_statics] at hreflects
    exact hreflects

/-- The refresh, once its callbacks are done with. -/
theorem does_refresh (env : RefreshEnv) :
    Does daemons daemonManager done [.onVMManager (.refreshVMList env)]
      (exec (do
        let outcome ← Loop.onObject (·.vmManager) (fun l s => { s with vmManager := l }) Lazy.only
          fun manager : AppRequest × VMManager =>
            ((manager.2.refresh env).1, manager.1, (manager.2.refresh env).2.mgr)
        let _ ← liftError .vmManager outcome) s) := by
  obtain ⟨s₁, hexec, h₁⟩ := looping_vmsRefreshed h env
  rw [exec_bind_ok hexec]
  let op : HookOp := .onVMManager (.refreshVMList env)
  cases houtcome : ((runOps (done.filterMap HookOp.vmOp?)).mgr.refresh env).1 with
  | ok succes =>
    have habort : op.abort? (some Lazy.only) done = none := by
      rw [HookOp.abort?, HookOp.outcome, houtcome]
      rfl
    exact .returns (by rw [firstAbort, habort]; rfl) h₁
  | error abort =>
    have habort : op.abort? (some Lazy.only) done = some (.vmManager abort) := by
      rw [HookOp.abort?, HookOp.outcome, houtcome]
      rfl
    exact .throws (by rw [firstAbort, habort]; rfl) (by rwa [upToAbort_singleton])

theorem does_refreshVMList (env : LoopEnv) :
    Does daemons daemonManager done (env.callbacks ++ [.onVMManager (.refreshVMList env.refresh)])
      (exec (Loop.refreshVMList Lazy.only env) s) := by
  rw [Loop.refreshVMList, exec_bind_ok (exec_getApplication h)]
  exact (does_performAll h env.callbacks).bind fun s₁ h₁ => does_refresh h₁ env.refresh

theorem does_refreshTopology (env : LoopEnv) :
    Does daemons daemonManager done [.refreshTopology env.topology]
      (exec (Loop.refreshTopology Lazy.only env) s) := by
  obtain ⟨request, hrequest, hmanager⟩ := h.topologyManager_eq
  let manager := runRefreshes (done.filterMap HookOp.answer?)
  let refreshed : Lazy (AppRequest × TopologyManager) :=
    .ofOption (some (request, (manager.refreshTopology env.topology).2))
  have hexec : exec (Loop.refreshTopology Lazy.only env) s =
      (.ok (), { s with topologyManager := refreshed }) := by
    rw [Loop.refreshTopology, exec_bind_ok (exec_getApplication h),
      exec_bind_ok (exec_onObject hmanager _)]
    rfl
  rw [hexec]
  refine .returns rfl (h.snoc ?_ rfl rfl)
  have hnext : runRefreshes ((done ++ [HookOp.refreshTopology env.topology]).filterMap
      HookOp.answer?) = (manager.refreshTopology env.topology).2 := by
    rw [List.filterMap_append, runRefreshes, List.foldl_append]
    rfl
  have hreflects := h.reflects.of_asksTopologyManager rfl hnext
  rw [hrequest, h.touched_statics] at hreflects
  exact hreflects

theorem does_sleepInterval (env : LoopEnv) :
    Does daemons daemonManager done [.configure .getGlobalConfiguration]
      (exec (Loop.sleepInterval env) s) := by
  -- the default of the interval has been there from the beginning, so that this does not throw
  have hprovides : s.statics.Provides CONFIG_APP_INTERVAL := by
    rw [h.reflects.statics]
    exact staticsAfter_provides Configuration.initial_provides_interval done
  obtain ⟨i, hread⟩ := hprovides.getOptionInt env.result
  have hexec : exec (Loop.sleepInterval env) s = (.ok (), { s with
      statics := Configuration.Op.perform s.statics .getGlobalConfiguration }) := by
    rw [Loop.sleepInterval, exec_bind_ok (exec_liftStatics _ s),
      Configuration.run_CONFIG_GETINT_global, hread]
    rfl
  rw [hexec]
  exact .returns rfl (h.snoc (h.reflects.of_asksNothing rfl rfl rfl ⟨rfl, rfl, rfl, rfl⟩ rfl)
    rfl rfl)

/-- **A round** performs its operations. -/
theorem does_round (env : LoopEnv) :
    Does daemons daemonManager done env.ops (exec (Loop.round Lazy.only env) s) := by
  have hhook : ∀ (step : AppStep) {done' : List HookOp} {s' : MainState},
      s'.Looping daemons daemonManager done' → Does daemons daemonManager done' (env.performs step)
        (exec (Loop.callHook Lazy.only env step) s') :=
    fun step _ _ h' => does_callHook h' env step
  refine (hhook .preLoop h).bind fun s₁ h₁ => ?_
  refine (hhook .preRefreshVMs h₁).bind fun s₂ h₂ => ?_
  refine (does_refreshVMList h₂ env).bind fun s₃ h₃ => ?_
  refine (hhook .postRefreshVMs h₃).bind fun s₄ h₄ => ?_
  refine (hhook .preRefreshTopology h₄).bind fun s₅ h₅ => ?_
  refine (does_refreshTopology h₅ env).bind fun s₆ h₆ => ?_
  refine (hhook .postRefreshTopology h₆).bind fun s₇ h₇ => ?_
  refine (hhook .preRefreshDaemons h₇).bind fun s₈ h₈ => ?_
  refine (does_performAll h₈ (env.performs .refreshDaemons)).bind fun s₉ h₉ => ?_
  refine (hhook .postRefreshDaemons h₉).bind fun s₁₀ h₁₀ => ?_
  refine (hhook .preDeployDaemons h₁₀).bind fun s₁₁ h₁₁ => ?_
  refine (does_performAll h₁₁ (env.performs .deployDaemons)).bind fun s₁₂ h₁₂ => ?_
  refine (hhook .postDeployDaemons h₁₂).bind fun s₁₃ h₁₃ => ?_
  refine (hhook .postLoop h₁₃).bind fun s₁₄ h₁₄ => ?_
  exact does_sleepInterval h₁₄ env

/-! ## The loop -/

theorem MainState.Looping.stopLoop_eq : Loop.stopLoop Lazy.only s = done.any HookOp.isShutdown := by
  rw [Loop.stopLoop, h.applications]
  rfl

/-- Rounds that return perform all their operations. Induction on their number. -/
theorem looping_afterRounds (envs : Nat → LoopEnv) {k : Nat}
    (hret : ∀ j < k, Returns (fun j => Loop.round Lazy.only (envs j)) s j) :
    (afterRounds (fun j => Loop.round Lazy.only (envs j)) s k).Looping daemons daemonManager
        (done ++ opsUpTo envs k) ∧
      firstAbort (some Lazy.only) done (opsUpTo envs k) = none := by
  induction k with
  | zero => exact ⟨by simpa [opsUpTo, afterRounds] using h, rfl⟩
  | succ k ih =>
    obtain ⟨hlooping, hnone⟩ := ih fun j hj => hret j (Nat.lt_succ_of_lt hj)
    have hround := does_round hlooping (envs k)
    rw [hret k (Nat.lt_succ_self k)] at hround
    cases hround with
    | returns hnone' h' =>
      rw [opsUpTo_succ, firstAbort_append, hnone, hnone', ← List.append_assoc]
      exact ⟨h', rfl⟩

end Does

end NebuApp
