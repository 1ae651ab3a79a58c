import NebuApp.VM.Passes
import NebuApp.Lib.Mirror

/-!
# Runs of the manager as sequences of steps

When no handler throws, whatever a manager does is a sequence of five kinds of `Step`: an id is
fetched, a new VM is recorded and announced, a status is overwritten and announced, a VM is
dropped and announced, a handler is registered. `refresh_steps` and `runOps_steps` show that the
refreshes of the source and their runs are such sequences, so what every step preserves holds of
every run.
-/

namespace NebuApp

open Exec

/-! ## Assumptions on the environment -/

/-- `getVirtualMachine(id)` returns a VM whose UUID is `id`. -/
def RefreshEnv.HonestUUIDs (env : RefreshEnv) : Prop :=
  ∀ id n vm, env.getVirtualMachine id n = .ok vm → vm.uuid = id

/-- Every handler returns normally from every callback. -/
def RefreshEnv.HandlersReturn (env : RefreshEnv) : Prop :=
  ∀ count slot call, env.callback count slot call = .ok ()

/-- A middleware that lists `ids` and reports every VM with `status`, and handlers that return. -/
def RefreshEnv.uniform (ids : List String) (status : VMStatus) : RefreshEnv where
  getVirtualMachineIDs := .ok ids
  getVirtualMachine id _ := .ok ⟨id, "host-" ++ id, "h1", "s1", status⟩
  callback _ _ _ := .ok ()
  iteration := .stored _

theorem RefreshEnv.uniform_handlersReturn (ids : List String) (status : VMStatus) :
    (uniform ids status).HandlersReturn := fun _ _ _ => rfl

theorem RefreshEnv.uniform_honestUUIDs (ids : List String) (status : VMStatus) :
    (uniform ids status).HonestUUIDs := by
  intro id n vm h
  cases h
  rfl

/-- The refreshes of a run all meet `P`. -/
def Op.Meets (P : RefreshEnv → Prop) : Op → Prop
  | registerVMEventHandler _ => True
  | refreshVMList env => P env

/-! ## Notifications that reach every handler -/

/-- One call to each registered handler. -/
def allCalls (m : VMManager) (call : Notification) : List Entry :=
  (List.range m.vmEventHandlers.length).map fun slot => ⟨m, .notified slot call⟩

theorem mem_allCalls {m : VMManager} {call : Notification} {e : Entry} :
    e ∈ allCalls m call ↔
      ∃ slot < m.vmEventHandlers.length, e = ⟨m, .notified slot call⟩ := by
  simp [allCalls, eq_comm]

section Returning

variable {env : RefreshEnv} (hret : env.HandlersReturn)
include hret

theorem callsOutcome_of_return (count : Nat) (call : Notification) (hs : List Ref) :
    ∀ slot, callsOutcome env count call slot hs = .ok () := by
  induction hs with
  | nil => intro slot; rfl
  | cons h rest ih =>
    intro slot
    rw [callsOutcome, hret count slot call]
    exact ih (slot + 1)

theorem calls_of_return (count : Nat) (m : VMManager) (call : Notification) (hs : List Ref) :
    ∀ slot, calls env count m call slot hs =
      (List.range' slot hs.length).map fun i => ⟨m, .notified i call⟩ := by
  induction hs with
  | nil => intro slot; rfl
  | cons h rest ih =>
    intro slot
    rw [calls, hret count slot call]
    simp only [ih, List.length_cons, List.range'_succ, List.map_cons]

/-- A notification calls every registered handler. -/
theorem calls_eq_allCalls (count : Nat) (m : VMManager) (call : Notification) :
    calls env count m call 0 m.vmEventHandlers = allCalls m call := by
  rw [calls_of_return hret, allCalls, List.range_eq_range']

end Returning

/-! ## Steps -/

/-- One step of a manager whose handlers return normally: the manager before it, what it leaves
in the trace, and the manager after it. -/
inductive Step : VMManager → List Entry → VMManager → Prop where
  | fetched (m : VMManager) (id : String) (answer : Answer) :
      Step m [⟨m, .fetched id answer⟩] m
  | recorded {m : VMManager} {vm : VirtualMachine} (hnew : m.getVM vm.uuid = none) :
      Step m (⟨m.recordVM vm, .recorded (some m.heap.next)⟩ ::
        allCalls (m.recordVM vm) (.newVMAdded (some m.heap.next))) (m.recordVM vm)
  | overwrote {m : VMManager} {u : String} {r : Ref} {old : VirtualMachine} {status : VMStatus}
      (hvm : m.getVM u = some r) (hold : m.heap.get? r = some old) (hne : old.status ≠ status) :
      Step m (⟨m.overwriteStatus r status, .overwrote (some r) status⟩ ::
        allCalls (m.overwriteStatus r status) (.existingVMChanged (some r) status.event))
        (m.overwriteStatus r status)
  | removed {m : VMManager} {u : String} {r : Ref} (hvm : m.getVM u = some r) :
      Step m (allCalls (m.eraseVM u) (.oldVMRemoved (some r))) (m.eraseVM u)
  | registered (m : VMManager) (h : Ref) : Step m [] (m.registerVMEventHandler h)

/-- A sequence of steps. -/
inductive Steps : VMManager → List Entry → VMManager → Prop where
  | refl (m : VMManager) : Steps m [] m
  | tail {m m' m'' : VMManager} {t t' : List Entry} (hs : Steps m t m') (h : Step m' t' m'') :
      Steps m (t ++ t') m''

theorem Steps.single {m m' : VMManager} {t : List Entry} (h : Step m t m') : Steps m t m' := by
  simpa using Steps.tail (.refl m) h

theorem Steps.trans {m m' m'' : VMManager} {t t' : List Entry} (h : Steps m t m')
    (h' : Steps m' t' m'') : Steps m (t ++ t') m'' := by
  induction h' with
  | refl => simpa using h
  | tail _ hstep ih => rw [← List.append_assoc]; exact .tail ih hstep

theorem Step.wellKept {m m' : VMManager} {t : List Entry} (h : Step m t m')
    (hm : m.WellKept) : m'.WellKept := by
  cases h with
  | fetched id answer => exact hm
  | recorded hnew => exact hm.recordVM _
  | overwrote hvm hold hne => exact hm.overwriteStatus _ _
  | removed hvm => exact hm.eraseVM _
  | registered h => exact hm.registerVMEventHandler h

theorem Steps.wellKept {m m' : VMManager} {t : List Entry} (h : Steps m t m')
    (hm : m.WellKept) : m'.WellKept := by
  induction h with
  | refl => exact hm
  | tail _ hstep ih => exact hstep.wellKept ih

/-! ## The refresh takes steps -/

section Refresh

variable {env : RefreshEnv} (hret : env.HandlersReturn)
include hret

/-- A turn is a fetch, followed by the write its answer calls for. -/
theorem turn_steps (hown : env.HonestUUIDs) {s : RefreshState} (hs : s.mgr.WellKept)
    (id : String) :
    ∃ t, Steps s.mgr t (turn env id s).2.mgr ∧ (turn env id s).2.trace = s.trace ++ t := by
  refine ⟨_, ?_, rfl⟩
  simp only [turn, turnTrace, VMManager.absorb]
  cases hw : s.mgr.writeFor id (s.nextAnswer env id) with
  | none => exact .single (.fetched _ _ _)
  | some w =>
    simp only [calls_eq_allCalls hret]
    refine Steps.trans (t := [_]) (.single (.fetched _ _ _)) (.single ?_)
    rcases VMManager.writeFor_cases hw with
      ⟨vm, hans, hnone, rfl⟩ | ⟨vm, r, old, hans, hl, hr, hne, rfl⟩
    · have huuid : vm.uuid = id := hown _ _ _ hans
      exact .recorded (by rw [huuid]; exact hs.lookup_none_iff.mp hnone)
    · exact .overwrote (VMManager.lookup_eq_some_iff.mp hl) hr hne

theorem turns_steps (hown : env.HonestUUIDs) (ids : List String) {s : RefreshState}
    (hs : s.mgr.WellKept) :
    ∃ t, Steps s.mgr t (turns env ids s).2.mgr ∧ (turns env ids s).2.trace = s.trace ++ t := by
  induction ids generalizing s with
  | nil => exact ⟨[], .refl _, by simp [turns]⟩
  | cons id rest ih =>
    obtain ⟨t, hsteps, htrace⟩ := turn_steps hret hown hs id
    obtain ⟨t', hsteps', htrace'⟩ := ih (turn_wellKept hs id)
    refine ⟨t ++ t', hsteps.trans hsteps', ?_⟩
    rw [turns, htrace', htrace, List.append_assoc]

theorem removeTurn_of_unlisted {ids : List String} {u : String} (hu : u ∉ ids) (vm : Ptr)
    (s : RefreshState) :
    removeTurn env ids vm u s = (.ok (), ⟨s.mgr.eraseVM u,
      s.trace ++ allCalls (s.mgr.eraseVM u) (.oldVMRemoved vm)⟩) := by
  rw [removeTurn, if_pos hu]
  simp only [callsOutcome_of_return hret]
  rw [← calls_eq_allCalls hret (fetches s.trace).length]
  rfl

omit hret in
/-- The VMs still to be visited have other UUIDs, so their entries outlive the removal. -/
theorem getVM_of_rest {m : VMManager} {vms : List (Ptr × String)} {u : String}
    (hu : u ∉ vms.map Prod.snd)
    (hvms : ∀ vm' u', (vm', u') ∈ vms → ∃ r, vm' = some r ∧ m.getVM u' = some r) :
    ∀ vm' u', (vm', u') ∈ vms → ∃ r, vm' = some r ∧ (m.eraseVM u).getVM u' = some r := by
  intro vm' u' hmem
  obtain ⟨r, hr, hget⟩ := hvms vm' u' hmem
  have hne : u' ≠ u := by
    rintro rfl
    exact hu (List.mem_map.mpr ⟨_, hmem, rfl⟩)
  exact ⟨r, hr, by rw [VMManager.getVM_eraseVM, if_neg hne, hget]⟩

/-- The removal pass drops tracked VMs one by one and ends normally. -/
theorem removeTurns_steps (ids : List String) {vms : List (Ptr × String)} {s : RefreshState}
    (hnodup : (vms.map Prod.snd).Nodup)
    (hvms : ∀ vm u, (vm, u) ∈ vms → ∃ r, vm = some r ∧ s.mgr.getVM u = some r) :
    (removeTurns env ids vms s).1 = .ok () ∧
      ∃ t, Steps s.mgr t (removeTurns env ids vms s).2.mgr ∧
        (removeTurns env ids vms s).2.trace = s.trace ++ t := by
  induction vms generalizing s with
  | nil => exact ⟨rfl, [], .refl _, by simp [removeTurns]⟩
  | cons e rest ih =>
    obtain ⟨vm, u⟩ := e
    obtain ⟨r, rfl, hr⟩ := hvms vm u (by simp)
    rw [List.map_cons, List.nodup_cons] at hnodup
    have hvms' := fun vm' u' (hmem : (vm', u') ∈ rest) => hvms vm' u' (by simp [hmem])
    by_cases hu : u ∉ ids
    · obtain ⟨hok, t, hsteps, htrace⟩ := ih (s := ⟨s.mgr.eraseVM u, _⟩) hnodup.2
        (getVM_of_rest hnodup.1 hvms')
      rw [removeTurns, removeTurn_of_unlisted hret hu]
      refine ⟨hok, _, Steps.trans (.single (.removed hr)) hsteps, ?_⟩
      rw [htrace, List.append_assoc]
    · rw [removeTurns, removeTurn_of_listed env (not_not.mp hu)]
      exact ih hnodup.2 hvms'

end Refresh

/-- The VMs visited by `removeVMs` are the tracked ones, each once. -/
theorem knownVMs_spec (o : IterationOrder (Σ _ : String, Ptr)) {m : VMManager}
    (hm : m.WellKept) :
    ((knownVMs o m).map Prod.snd).Nodup ∧
      (∀ vm u, (vm, u) ∈ knownVMs o m ↔ ∃ r, vm = some r ∧ m.getVM u = some r) := by
  constructor
  · have hnodup := UnorderedMap.nodup_keys_iterate o m.vmList
    simpa [knownVMs, Function.comp_def] using hnodup
  · intro vm u
    have hmem : (vm, u) ∈ knownVMs o m ↔ m.vmList.lookup u = some vm := by
      rw [← UnorderedMap.mem_iterate (o := o), knownVMs, List.mem_map]
      constructor
      · rintro ⟨⟨u', vm'⟩, he, heq⟩
        cases heq
        exact he
      · intro he
        exact ⟨⟨u, vm⟩, he, rfl⟩
    rw [hmem]
    constructor
    · intro hl
      obtain ⟨r, v, rfl, -, -⟩ := hm.own u vm hl
      exact ⟨r, rfl, VMManager.lookup_eq_some_iff.mp hl⟩
    · rintro ⟨r, rfl, hget⟩
      exact VMManager.lookup_eq_some_iff.mpr hget

/-- **A refresh takes steps.** With handlers that return and honest UUIDs, a refresh from a
well-kept manager is a sequence of steps whose trace is the trace of the refresh. -/
theorem refresh_steps {m : VMManager} (hm : m.WellKept) {env : RefreshEnv}
    (hret : env.HandlersReturn) (hown : env.HonestUUIDs) :
    Steps m (m.refresh env).2.trace (m.refresh env).2.mgr := by
  cases hids : env.getVirtualMachineIDs with
  | error ex =>
    rw [refresh_of_error hids]
    exact .refl m
  | ok ids =>
    rw [refresh_of_ok hm hids]
    have hs : (⟨m, []⟩ : RefreshState).mgr.WellKept := hm
    obtain ⟨t, hsteps, htrace⟩ :=
      turns_steps hret hown (fetchOrder env ids ⟨m, []⟩) hs
    have hkept := turns_wellKept env (fetchOrder env ids ⟨m, []⟩) hs
    obtain ⟨hnodup, hmem⟩ := knownVMs_spec env.iteration hkept
    obtain ⟨-, t', hsteps', htrace'⟩ :=
      removeTurns_steps hret ids hnodup fun vm u h => (hmem vm u).mp h
    have hall := hsteps.trans hsteps'
    rw [htrace, List.nil_append] at htrace'
    simpa only [VMManager.fetchAll, htrace'] using hall

/-- **A run takes steps.** -/
theorem foldl_perform_steps {ops : List Op} {s : RefreshState} (hs : s.mgr.WellKept)
    (hret : ∀ op ∈ ops, op.Meets RefreshEnv.HandlersReturn)
    (hown : ∀ op ∈ ops, op.Meets RefreshEnv.HonestUUIDs) :
    ∃ t, Steps s.mgr t (ops.foldl Op.perform s).mgr ∧
      (ops.foldl Op.perform s).trace = s.trace ++ t := by
  induction ops generalizing s with
  | nil => exact ⟨[], .refl _, by simp⟩
  | cons op rest ih =>
    have hstep : ∃ t, Steps s.mgr t (op.perform s).mgr ∧ (op.perform s).trace = s.trace ++ t := by
      cases op with
      | registerVMEventHandler h => exact ⟨[], .single (.registered _ h), by simp [Op.perform]⟩
      | refreshVMList env =>
        have hret' : env.HandlersReturn := hret (.refreshVMList env) List.mem_cons_self
        have hown' : env.HonestUUIDs := hown (.refreshVMList env) List.mem_cons_self
        exact ⟨_, refresh_steps hs hret' hown', rfl⟩
    obtain ⟨t, hsteps, htrace⟩ := hstep
    obtain ⟨t', hsteps', htrace'⟩ := ih (hsteps.wellKept hs) (fun o ho => hret o (by simp [ho]))
      (fun o ho => hown o (by simp [ho]))
    refine ⟨t ++ t', hsteps.trans hsteps', ?_⟩
    rw [List.foldl_cons, htrace', htrace, List.append_assoc]

end NebuApp
