import NebuApp.Application.Rounds
import NebuApp.VM.Reconciliation
import NebuApp.VM.Callbacks
import NebuApp.Topology.Queries

/-!
# What a round finds in the managers

The loop uses its managers by whole refreshes and by nothing else, so to them a run of the loop is a
sequence of operations (`refreshOps`, `topologyAnswers`), and what holds of them on their own holds
in a running application. `round_eq_steps` cuts a round at any of its steps: whatever is called
behind the refreshes finds the virtual machines and the topology as these have left them.
-/

namespace NebuApp

open Exec Mirror Reconcile

/-! ## The managers of a run -/

/-- The entry of the virtual machine manager's trace that an event delivers. -/
def AppEvent.entry? : AppEvent → Option Entry
  | vm entry => some entry
  | _ => none

/-- What the virtual machine manager did in the events `t`. -/
def vmEntries (t : List AppEvent) : List Entry := t.filterMap AppEvent.entry?

@[simp] theorem vmEntries_append (t t' : List AppEvent) :
    vmEntries (t ++ t') = vmEntries t ++ vmEntries t' := List.filterMap_append

theorem vmEntries_shutdownTrace (shutsDown : Bool) : vmEntries (shutdownTrace shutsDown) = [] := by
  cases shutsDown <;> rfl

theorem vmEntries_stepTrace (env : RoundEnv) (step : AppStep) :
    vmEntries (env.stepTrace step) = [] :=
  vmEntries_shutdownTrace _

theorem vmEntries_deliveries (env : RoundEnv) (entries : List Entry) :
    ∀ i, vmEntries (env.deliveries i entries) = entries := by
  induction entries with
  | nil => exact fun _ => rfl
  | cons entry rest ih =>
    intro i
    rw [RoundEnv.deliveries, vmEntries_append, ih]
    show (entry :: vmEntries (shutdownTrace _)) ++ rest = _
    rw [vmEntries_shutdownTrace]
    rfl

theorem vmEntries_events (env : RoundEnv) (m : VMManager) :
    vmEntries (env.events m) = (m.refresh env.refresh).2.trace := by
  have hsteps : ∀ steps : List AppStep, vmEntries (steps.flatMap env.stepTrace) = [] := by
    intro steps
    rw [vmEntries, List.filterMap_flatMap]
    exact List.flatMap_eq_nil_iff.mpr fun step _ => vmEntries_stepTrace env step
  rw [RoundEnv.events, vmEntries_append, vmEntries_append, hsteps, hsteps, vmEntries_deliveries,
    List.nil_append, List.append_nil]

theorem AppState.vmEntries_rounded (s : AppState) (env : RoundEnv) (i : Int32) :
    vmEntries (s.rounded env i).trace =
      vmEntries s.trace ++ (s.app.vmManager.refresh env.refresh).2.trace := by
  have hslept : vmEntries [.slept i.toUInt32] = [] := rfl
  rw [AppState.rounded, AppState.happen_trace, vmEntries_append, vmEntries_append,
    vmEntries_events, hslept, List.append_nil]

/-- The operations of the first `k` rounds on the virtual machine manager. -/
def refreshOps (envs : Nat → RoundEnv) (k : Nat) : List Op :=
  (List.range k).map fun j => .refreshVMList (envs j).refresh

/-- What the first `k` rounds are told of the topology. -/
def topologyAnswers (envs : Nat → RoundEnv) (k : Nat) :
    List (Except NebuServerException (Option Topology)) :=
  (List.range k).map fun j => (envs j).topology

/-! ## A round, step by step -/

namespace Application

/-- The call of a step, with what the loop does at it. -/
def perform (env : RoundEnv) : AppStep → AppProg Unit
  | .refreshVMList => refreshVMList env
  | .refreshTopology => refreshTopology env
  | step => call env step

/-- A round performs its steps one after the other, and sleeps. -/
theorem round_eq_steps (env : RoundEnv) :
    round env =
      forM (stepsBefore ++ stepsBehind) (perform env) >>= fun _ => sleepInterval env := by
  simp [round, stepsBefore, stepsBehind, perform]

end Application

/-- To refresh the topology twice with one answer is to refresh it once. -/
theorem TopologyManager.refreshTopology_twice (m : TopologyManager)
    (answer : Except NebuServerException (Option Topology)) :
    ((m.refreshTopology answer).2.refreshTopology answer).2 = (m.refreshTopology answer).2 := by
  rcases answer with ex | _ | t <;> rfl

namespace Application

section Steps

variable (env : RoundEnv)

/-- A step other than the refresh of the virtual machines leaves these alone, and one other than
the refresh of the topology leaves that alone. -/
theorem exec_perform {step : AppStep} (hstep : step ≠ .refreshVMList) (s : AppState) :
    ∃ s', exec (perform env step) s = (.ok (), s') ∧
      s'.app.vmManager = s.app.vmManager ∧ vmEntries s'.trace = vmEntries s.trace ∧
      s'.app.topologyManager = if step = .refreshTopology then
        (s.app.topologyManager.refreshTopology env.topology).2 else s.app.topologyManager := by
  have hentries : vmEntries (s.called env step).trace = vmEntries s.trace := by
    rw [AppState.called, AppState.happen_trace, vmEntries_append, vmEntries_stepTrace,
      List.append_nil]
  cases step with
  | refreshVMList => exact absurd rfl hstep
  | refreshTopology => exact ⟨_, exec_refreshTopology env s, rfl, hentries, rfl⟩
  | _ => exact ⟨_, exec_call env s _, rfl, hentries, rfl⟩

/-- The same of several steps. Induction on these. -/
theorem exec_steps {steps : List AppStep} (hsteps : .refreshVMList ∉ steps) (s : AppState) :
    ∃ s', exec (forM steps (perform env)) s = (.ok (), s') ∧
      s'.app.vmManager = s.app.vmManager ∧ vmEntries s'.trace = vmEntries s.trace ∧
      s'.app.topologyManager = if .refreshTopology ∈ steps then
        (s.app.topologyManager.refreshTopology env.topology).2 else s.app.topologyManager := by
  induction steps generalizing s with
  | nil => exact ⟨s, rfl, rfl, rfl, rfl⟩
  | cons step rest ih =>
    rw [List.mem_cons, not_or] at hsteps
    obtain ⟨s₁, hexec₁, hvms₁, hentries₁, htopology₁⟩ :=
      exec_perform env (fun h => hsteps.1 h.symm) s
    obtain ⟨s₂, hexec₂, hvms₂, hentries₂, htopology₂⟩ := ih hsteps.2 s₁
    refine ⟨s₂, ?_, hvms₂.trans hvms₁, hentries₂.trans hentries₁, ?_⟩
    · rw [List.forM_cons, exec_bind_ok hexec₁, hexec₂]
    · rw [htopology₂, htopology₁]
      by_cases hstep : step = .refreshTopology
      · subst hstep
        simp [TopologyManager.refreshTopology_twice]
      · have hne : AppStep.refreshTopology ≠ step := fun h => hstep h.symm
        simp [hstep, hne]

/-- **The managers in the middle of a round**, at any place behind the refresh of the virtual
machines. -/
theorem exec_upTo {pre : List AppStep} (hpre : .refreshVMList ∉ pre) {s : AppState} {succes : Bool}
    (hrefresh : (s.app.vmManager.refresh env.refresh).1 = .ok succes) :
    ∃ s', exec (forM (stepsBefore ++ pre) (perform env)) s = (.ok (), s') ∧
      s'.app.vmManager = (s.app.vmManager.refresh env.refresh).2.mgr ∧
      vmEntries s'.trace = vmEntries s.trace ++ (s.app.vmManager.refresh env.refresh).2.trace ∧
      s'.app.topologyManager = if .refreshTopology ∈ pre then
        (s.app.topologyManager.refreshTopology env.topology).2 else s.app.topologyManager := by
  let s₁ := ((s.called env .preLoop).called env .preRefreshVMs).vmsRefreshed env
  have hbefore : exec (forM stepsBefore (perform env)) s = (.ok (), s₁) := by
    have hreturn :=
      exec_refreshVMList env ((s.called env .preLoop).called env .preRefreshVMs) hrefresh
    refine (exec_bind_ok (exec_call env s .preLoop)).trans ?_
    refine (exec_bind_ok (exec_call env _ .preRefreshVMs)).trans ?_
    exact exec_bind_ok (a := ()) hreturn
  have hentries : vmEntries s₁.trace =
      vmEntries s.trace ++ (s.app.vmManager.refresh env.refresh).2.trace := by
    simp [s₁, AppState.vmsRefreshed, AppState.called, vmEntries_stepTrace, vmEntries_deliveries]
  obtain ⟨s₂, hexec, hvms, hentries', htopology⟩ := exec_steps env hpre s₁
  refine ⟨s₂, ?_, hvms, hentries'.trans hentries, htopology⟩
  rw [List.forM_append, exec_bind_ok hbefore, hexec]

end Steps

end Application

/-! ## The managers between the rounds -/

section Below

variable {envs : Nat → RoundEnv} {s : AppState} (hs : s.Ready) {n : Nat}
  (hround : ∀ k < n, RefreshReturns envs s k)
include hs hround

/-- **The loop is a run of the virtual machine manager**, round by round. -/
theorem vmManager_below {k : Nat} (hk : k ≤ n) :
    (refreshOps envs k).foldl Op.perform ⟨s.app.vmManager, vmEntries s.trace⟩ =
      ⟨roundManager envs s k, vmEntries (stateAfter envs s k).trace⟩ := by
  induction k with
  | zero => rfl
  | succ k ih =>
    obtain ⟨i, -, hnext⟩ := round_below hs hround hk
    rw [refreshOps, List.range_succ, List.map_append, List.foldl_append, ← refreshOps,
      ih (by omega), roundManager, roundManager, hnext, AppState.vmEntries_rounded]
    rfl

theorem topologyManager_below {k : Nat} (hk : k ≤ n) :
    (stateAfter envs s k).app.topologyManager = (topologyAnswers envs k).foldl
      (fun m answer => (m.refreshTopology answer).2) s.app.topologyManager := by
  induction k with
  | zero => rfl
  | succ k ih =>
    obtain ⟨i, -, hnext⟩ := round_below hs hround hk
    rw [topologyAnswers, List.range_succ, List.map_append, List.foldl_append, ← topologyAnswers,
      ← ih (by omega), hnext]
    rfl

end Below

/-! ## The managers of an application -/

section Start

variable (daemonManager : Ref) (topologyManager : TopologyManager) (before after : List Op)
  (configOps : List Configuration.Op)

/-- The virtual machine manager of an application before its loop has seen `before`, the
registration of the daemon manager, and `after`. -/
theorem AppState.start_vmManager :
    (start daemonManager topologyManager before after configOps).app.vmManager =
      (runOps (before ++ .registerVMEventHandler daemonManager :: after)).mgr := by
  rw [runOps_append, List.foldl_cons]
  rfl

/-- **A run of the loop is a run of its virtual machine manager.** -/
theorem AppState.runOps_rounds {envs : Nat → RoundEnv} {k : Nat}
    (hround : ∀ j < k, RefreshReturns envs
      (start daemonManager topologyManager before after configOps) j) :
    let s := start daemonManager topologyManager before after configOps
    runOps (before ++ .registerVMEventHandler daemonManager :: (after ++ refreshOps envs k)) =
      ⟨roundManager envs s k,
        (runOps (before ++ .registerVMEventHandler daemonManager :: after)).trace ++
          vmEntries (stateAfter envs s k).trace⟩ := by
  intro s
  have hs : s.Ready := start_ready daemonManager topologyManager before after configOps
  have hrun := vmManager_below hs hround (Nat.le_refl k)
  have hassoc : before ++ .registerVMEventHandler daemonManager :: (after ++ refreshOps envs k) =
      (before ++ .registerVMEventHandler daemonManager :: after) ++ refreshOps envs k := by simp
  rw [hassoc, runOps_append,
    ← start_vmManager daemonManager topologyManager before after configOps]
  exact congrArg (fun r : RefreshState => (⟨r.mgr, _ ++ r.trace⟩ : RefreshState)) hrun

theorem AppState.start_topologyManager
    {answers : List (Except NebuServerException (Option Topology))}
    {envs : Nat → RoundEnv} {k : Nat} (hround : ∀ j < k, RefreshReturns envs
      (start daemonManager (runRefreshes answers) before after configOps) j) :
    let s := start daemonManager (runRefreshes answers) before after configOps
    (stateAfter envs s k).app.topologyManager =
      runRefreshes (answers ++ topologyAnswers envs k) := by
  intro s
  have hs : s.Ready := start_ready daemonManager (runRefreshes answers) before after configOps
  rw [topologyManager_below hs hround (Nat.le_refl k), runRefreshes, List.foldl_append]
  rfl

end Start

/-- **The managers at a step** behind the refresh of the virtual machines are those of the end of
the round, but for the topology if its refresh is still to come. -/
theorem managers_at_step {daemonManager : Ref}
    {answers : List (Except NebuServerException (Option Topology))} {before after : List Op}
    {configOps : List Configuration.Op} {envs : Nat → RoundEnv} {k : Nat}
    {pre post : List AppStep} {step : AppStep} (hsplit : stepsBehind = pre ++ step :: post) :
    let s := AppState.start daemonManager (runRefreshes answers) before after configOps
    (∀ j < k + 1, RefreshReturns envs s j) →
    ∃ now, exec (forM (stepsBefore ++ pre) (Application.perform (envs k))) (stateAfter envs s k) =
        (.ok (), now) ∧
      now.app.vmManager = ((roundManager envs s k).refresh (envs k).refresh).2.mgr ∧
      now.app.vmManager = roundManager envs s (k + 1) ∧
      vmEntries now.trace = vmEntries (stateAfter envs s (k + 1)).trace ∧
      now.app.topologyManager.physicalRoot = some (TopologyManager.lastAccepted (answers ++
        topologyAnswers envs (if .refreshTopology ∈ pre then k + 1 else k))) := by
  intro s hround
  have hs : s.Ready :=
    AppState.start_ready daemonManager (runRefreshes answers) before after configOps
  -- nothing in between refreshes the virtual machines again
  have hpre : .refreshVMList ∉ pre := by
    intro hmem
    have : AppStep.refreshVMList ∈ stepsBehind := by
      rw [hsplit]
      exact List.mem_append_left _ hmem
    exact absurd this (by decide)
  obtain ⟨succes, hrefresh⟩ := hround k (Nat.lt_succ_self k)
  obtain ⟨now, hexec, hvms, hentries, htopology⟩ := Application.exec_upTo (envs k) hpre hrefresh
  obtain ⟨i, -, hnext⟩ := round_below hs hround (Nat.lt_succ_self k)
  refine ⟨now, hexec, hvms, ?_, ?_, ?_⟩
  · rw [hvms, roundManager, hnext]
    rfl
  · rw [hentries, hnext, AppState.vmEntries_rounded]
  · have hroot : ∀ j ≤ k + 1, (stateAfter envs s j).app.topologyManager =
        runRefreshes (answers ++ topologyAnswers envs j) := fun j hj =>
      AppState.start_topologyManager daemonManager before after configOps
        fun j' hj' => hround j' (by omega)
    rw [← TopologyManager.runRefreshes_root, htopology]
    split
    next => rw [← hroot (k + 1) (Nat.le_refl _), hnext]; rfl
    next => rw [← hroot k (Nat.le_succ k)]

/-- **Whatever the loop calls behind its refreshes finds them done.** Let UUIDs be honest and
handlers return, before the loop and in all rounds. A step behind the refresh of the virtual
machines, as `deployDaemons` is, is called in a state in which the daemon manager has been told what
is tracked: its events so far, replayed, are the statuses of `vmList`. These are the statuses before
the round reconciled with the answers of this round, if the ids could be listed, and stay what they
are until the round ends. If the refresh of the topology is behind as well, the root is the last
tree accepted up to this round. -/
theorem steps_find_refreshed (daemonManager : Ref)
    (answers : List (Except NebuServerException (Option Topology))) (before after : List Op)
    (configOps : List Configuration.Op) (envs : Nat → RoundEnv)
    (hops : ∀ op ∈ before ++ after, op.Meets RefreshEnv.HandlersReturn ∧
      op.Meets RefreshEnv.HonestUUIDs)
    (henvs : ∀ k, (envs k).refresh.HandlersReturn ∧ (envs k).refresh.HonestUUIDs) :
    let s := AppState.start daemonManager (runRefreshes answers) before after configOps
    let registered := (runOps before).mgr
    let earlier := (runOps (before ++ .registerVMEventHandler daemonManager :: after)).trace
    ∀ k pre step post, stepsBehind = pre ++ step :: post →
      ∃ now, exec (forM (stepsBefore ++ pre) (Application.perform (envs k)))
          (stateAfter envs s k) = (.ok (), now) ∧
        exec (Application.round (envs k)) (stateAfter envs s k) =
          exec (forM (step :: post) (Application.perform (envs k)) >>= fun _ =>
            Application.sleepInterval (envs k)) now ∧
        replay registered.statuses (eventsTo registered.vmEventHandlers.length
          (earlier ++ vmEntries now.trace)) = now.app.vmManager.statuses ∧
        (∀ ids, (envs k).refresh.getVirtualMachineIDs = .ok ids →
          now.app.vmManager.statuses = reconcile ids (roundManager envs s k).statuses
            (statusFetches ((roundManager envs s k).refresh (envs k).refresh).2.trace)) ∧
        (∀ ex, (envs k).refresh.getVirtualMachineIDs = .error ex →
          now.app.vmManager = roundManager envs s k) ∧
        now.app.vmManager = roundManager envs s (k + 1) ∧
        now.app.topologyManager.physicalRoot = some (TopologyManager.lastAccepted (answers ++
          topologyAnswers envs (if .refreshTopology ∈ pre then k + 1 else k))) := by
  intro s registered earlier k pre step post hsplit
  have hs : s.Ready :=
    AppState.start_ready daemonManager (runRefreshes answers) before after configOps
  have hround : ∀ j < k + 1, RefreshReturns envs s j :=
    refreshReturns_of_handlersReturn (fun j => (henvs j).1) hs (k + 1)
  have hkept := (ready_below hs hround (Nat.le_succ k)).1.kept
  obtain ⟨now, hexec, hvms, hvms', hentries', hroot⟩ := managers_at_step hsplit hround
  refine ⟨now, hexec, ?_, ?_, fun ids hids => ?_, fun ex hex => ?_, hvms', hroot⟩
  · rw [Application.round_eq_steps, hsplit, ← List.append_assoc, List.forM_append, bind_assoc,
      exec_bind_ok hexec]
  · have hmeets : ∀ op ∈ before ++ (after ++ refreshOps envs (k + 1)),
        op.Meets RefreshEnv.HandlersReturn ∧ op.Meets RefreshEnv.HonestUUIDs := by
      intro op hop
      rw [← List.append_assoc, List.mem_append] at hop
      rcases hop with hop | hop
      · exact hops op hop
      · obtain ⟨j, -, rfl⟩ := List.mem_map.mp hop
        exact henvs j
    -- the run up to the end of this round, since nothing is told behind the refresh
    have hreplay := runOps_replay daemonManager (fun op h => (hmeets op h).1)
      fun op h => (hmeets op h).2
    rw [AppState.runOps_rounds daemonManager (runRefreshes answers) before after configOps hround]
      at hreplay
    rw [hentries', hvms']
    exact hreplay
  · rw [hvms]
    exact statuses_refresh hkept (henvs k).1 (henvs k).2 hids
  · rw [hvms]
    exact congrArg (·.2.mgr) (refresh_of_error hex)

/-- The second call of `deployDaemons`, with one VM and no topology. -/
theorem steps_find_refreshed_deploy :
    let envs : Nat → RoundEnv := fun _ =>
      { refresh := .uniform ["vmA"] .on
        topology := .error ⟨"unreachable"⟩
        shutsDown := fun _ => false
        callbackShutsDown := fun _ => false
        configures := fun _ => []
        result := 0 }
    let s := AppState.start 7 (runRefreshes []) [] [] []
    ∃ now, exec (Application.round (envs 1)) (stateAfter envs s 1) =
        exec (forM [.deployDaemons, .postDeployDaemons, .postLoop] (Application.perform (envs 1))
          >>= fun _ => Application.sleepInterval (envs 1)) now ∧
      replay VMManager.init.statuses (eventsTo 0 (vmEntries now.trace)) =
        now.app.vmManager.statuses := by
  intro envs s
  obtain ⟨now, -, hround, htold, -⟩ := steps_find_refreshed 7 [] [] [] [] envs (by simp)
    (fun _ => ⟨RefreshEnv.uniform_handlersReturn _ _, RefreshEnv.uniform_honestUUIDs _ _⟩)
    1 (stepsBehind.take 8) .deployDaemons [.postDeployDaemons, .postLoop] rfl
  exact ⟨now, hround, htold⟩

end NebuApp
