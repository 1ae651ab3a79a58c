import NebuApp.VM.Announcements
import NebuApp.VM.Exceptions
import Mathlib.Data.List.Induction

/-!
# What the handlers cannot influence

The manager calls its handlers in the middle of its passes, but what it tracks and what it asks the
middleware for does not depend on them: not on who is registered, nor on which of them throw from
`newVMAdded` or `existingVMChanged`. A run is compared with the run of a manager nobody listens to
(`refresh_unheard`); what is left of a run then is `Op.unheard?`.
-/

namespace NebuApp

open Exec

namespace VMManager

/-- The manager without its handlers. -/
def unheard (m : VMManager) : VMManager := { m with vmEventHandlers := [] }

@[simp] theorem unheard_vmList (m : VMManager) : m.unheard.vmList = m.vmList := rfl

@[simp] theorem unheard_heap (m : VMManager) : m.unheard.heap = m.heap := rfl

@[simp] theorem unheard_eraseVM (m : VMManager) (u : String) :
    (m.eraseVM u).unheard = m.unheard.eraseVM u := rfl

@[simp] theorem unheard_registerVMEventHandler (m : VMManager) (h : Ref) :
    (m.registerVMEventHandler h).unheard = m.unheard := rfl

theorem WellKept.unheard {m : VMManager} (hm : m.WellKept) : m.unheard.WellKept := ⟨hm.own⟩

/-- What an answer writes does not depend on the handlers. -/
theorem unheard_absorb (m : VMManager) (f : String × Answer) :
    (m.absorb f).unheard = m.unheard.absorb f := by
  obtain ⟨id, answer⟩ := f
  cases answer with
  | error ex => rfl
  | ok vm =>
    cases hlookup : m.vmList.lookup id with
    | none =>
      rw [absorb, absorb, writeFor_unknown hlookup, writeFor_unknown (m := m.unheard) hlookup]
      rfl
    | some p =>
      have hlookup' : m.unheard.vmList.lookup id = some p := hlookup
      cases p with
      | none => simp [absorb, writeFor, hlookup]
      | some r =>
        cases hold : m.heap.get? r with
        | none => simp [absorb, writeFor, hlookup, hold]
        | some old =>
          have hold' : m.unheard.heap.get? r = some old := hold
          rw [absorb, absorb, writeFor_known hlookup hold, writeFor_known hlookup' hold']
          by_cases hne : old.status ≠ vm.status
          · rw [if_pos hne, if_pos hne]
            rfl
          · rw [if_neg hne, if_neg hne]

end VMManager

/-- The same middleware, with handlers that return. -/
def RefreshEnv.unheard (env : RefreshEnv) : RefreshEnv :=
  { env with callback := fun _ _ _ => .ok () }

theorem RefreshEnv.unheard_handlersReturn (env : RefreshEnv) : env.unheard.HandlersReturn :=
  fun _ _ _ => rfl

/-! ## The passes -/

/-- The state `s'` is what `s` would be if nobody listened. -/
structure SameUnheard (s s' : RefreshState) : Prop where
  mgr : s.mgr.unheard = s'.mgr
  fetches : fetches s.trace = fetches s'.trace

theorem SameUnheard.vmList {s s' : RefreshState} (h : SameUnheard s s') :
    s.mgr.vmList = s'.mgr.vmList := by
  rw [← h.mgr, VMManager.unheard_vmList]

theorem SameUnheard.heap {s s' : RefreshState} (h : SameUnheard s s') :
    s.mgr.heap = s'.mgr.heap := by
  rw [← h.mgr, VMManager.unheard_heap]

theorem removeTurn_of_return {env : RefreshEnv} (hret : env.HandlersReturn) (ids : List String)
    (vm : Ptr) (u : String) (s : RefreshState) : (removeTurn env ids vm u s).1 = .ok () := by
  by_cases hu : u ∈ ids
  · rw [removeTurn_of_listed env hu]
  · rw [removeTurn_of_unlisted hret hu]

section Passes

variable {env : RefreshEnv} {s s' : RefreshState} (h : SameUnheard s s')
include h

theorem turn_unheard (id : String) :
    SameUnheard (turn env id s).2 (turn env.unheard id s').2 := by
  have hanswer : s.nextAnswer env id = s'.nextAnswer env.unheard id := by
    rw [nextAnswer_eq, nextAnswer_eq, fetchedIds, h.fetches]
    rfl
  constructor
  · show (s.mgr.absorb _).unheard = s'.mgr.absorb _
    rw [VMManager.unheard_absorb, h.mgr, hanswer]
  · rw [fetches_turn, fetches_turn, h.fetches, hanswer]

theorem turn_true_unheard {id : String} (htrue : (turn env id s).1 = true) :
    (turn env.unheard id s').1 = true := by
  have hanswer : s.nextAnswer env id = s'.nextAnswer env.unheard id := by
    rw [nextAnswer_eq, nextAnswer_eq, fetchedIds, h.fetches]
    rfl
  rw [turn, turnFlag, Bool.and_eq_true] at htrue
  rw [turn, turnFlag, ← hanswer, htrue.1, Bool.true_and]
  split
  next => rfl
  next w hw =>
    rw [callsOutcome_of_return env.unheard_handlersReturn]
    rfl

/-- The turns of the fetching passes. Induction on the ids. -/
theorem turns_unheard (ids : List String) :
    SameUnheard (turns env ids s).2 (turns env.unheard ids s').2 ∧
      ((turns env ids s).1 = true → (turns env.unheard ids s').1 = true) := by
  induction ids generalizing s s' with
  | nil => exact ⟨h, id⟩
  | cons id rest ih =>
    obtain ⟨hsame, htrue⟩ := ih (turn_unheard h id)
    refine ⟨hsame, fun hall => ?_⟩
    rw [turns, Bool.and_eq_true] at hall ⊢
    exact ⟨turn_true_unheard h hall.1, htrue hall.2⟩

theorem splitIds_unheard (ids : List String) :
    splitIds env ids s = splitIds env.unheard ids s' := by
  induction ids generalizing s s' with
  | nil => rfl
  | cons id rest ih =>
    rw [splitIds, splitIds, h.vmList, ih h, ih (turn_unheard h id)]

/-- A VM that is not listed is dropped, whatever its announcement comes to. -/
theorem removeTurn_unheard (ids : List String) (vm : Ptr) (u : String) :
    SameUnheard (removeTurn env ids vm u s).2 (removeTurn env.unheard ids vm u s').2 := by
  by_cases hu : u ∈ ids
  · rw [removeTurn_of_listed env hu, removeTurn_of_listed env.unheard hu]
    exact h
  · rw [removeTurn, removeTurn, if_pos hu, if_pos hu]
    refine ⟨congrArg (fun m => VMManager.eraseVM m u) h.mgr, ?_⟩
    rw [fetches_append, fetches_append, fetches_calls, fetches_calls, h.fetches]

/-- Where no handler stops it, the last pass drops the same VMs. Induction on the VMs. -/
theorem removeTurns_unheard {ids : List String} {vms : List (Ptr × String)}
    (hok : (removeTurns env ids vms s).1 = .ok ()) :
    SameUnheard (removeTurns env ids vms s).2 (removeTurns env.unheard ids vms s').2 := by
  induction vms generalizing s s' with
  | nil => exact h
  | cons e rest ih =>
    obtain ⟨vm, u⟩ := e
    have hturn : SameUnheard (removeTurn env ids vm u s).2 (removeTurn env.unheard ids vm u s').2 :=
      removeTurn_unheard h ids vm u
    have hquiet := removeTurn_of_return env.unheard_handlersReturn ids vm u s'
    rw [removeTurns] at hok ⊢
    rw [removeTurns]
    rcases hres : removeTurn env ids vm u s with ⟨ex | _, s₁⟩
    · rw [hres] at hok
      cases hok
    · rcases hres' : removeTurn env.unheard ids vm u s' with ⟨ex | _, s₁'⟩
      · rw [hres'] at hquiet
        cases hquiet
      · rw [hres] at hok hturn
        rw [hres'] at hturn
        exact ih hturn hok

end Passes

/-! ## A refresh -/

/-- **A refresh that nobody listens to.** A refresh that returns makes the same fetches, and leaves
the same VMs tracked, as one without any handlers; and if it reports success, so does that one. -/
theorem refresh_unheard {m : VMManager} (hm : m.WellKept) {env : RefreshEnv} {succes : Bool}
    (hreturn : (m.refresh env).1 = .ok succes) :
    SameUnheard (m.refresh env).2 (m.unheard.refresh env.unheard).2 ∧
      (succes = true → (m.unheard.refresh env.unheard).1 = .ok true) := by
  cases hids : env.getVirtualMachineIDs with
  | error ex =>
    have hids' : env.unheard.getVirtualMachineIDs = .error ex := hids
    rw [refresh_of_error hids] at hreturn ⊢
    cases hreturn
    rw [refresh_of_error hids']
    exact ⟨⟨rfl, rfl⟩, nofun⟩
  | ok ids =>
    have hids' : env.unheard.getVirtualMachineIDs = .ok ids := hids
    have hnew : SameUnheard ⟨m, []⟩ ⟨m.unheard, []⟩ := ⟨rfl, rfl⟩
    -- the same ids are new, so that the fetches come in the same order
    have horder : fetchOrder env ids ⟨m, []⟩ = fetchOrder env.unheard ids ⟨m.unheard, []⟩ := by
      rw [fetchOrder, fetchOrder, splitIds_unheard hnew ids]
    obtain ⟨hfetched, hflag⟩ : SameUnheard (m.fetchAll env ids).2
          (m.unheard.fetchAll env.unheard ids).2 ∧
        ((m.fetchAll env ids).1 = true → (m.unheard.fetchAll env.unheard ids).1 = true) := by
      rw [VMManager.fetchAll, VMManager.fetchAll, ← horder]
      exact turns_unheard hnew _
    -- the same pointers are tracked, so that the copy for the removals is the same
    have hknown : knownVMs env.iteration (m.fetchAll env ids).2.mgr =
        knownVMs env.unheard.iteration (m.unheard.fetchAll env.unheard ids).2.mgr := by
      rw [knownVMs, knownVMs, hfetched.vmList]
      rfl
    let vms := knownVMs env.iteration (m.fetchAll env ids).2.mgr
    have heq : m.refresh env = (abortOf ((removeTurns env ids vms (m.fetchAll env ids).2).1.map
        fun _ => (m.fetchAll env ids).1), (removeTurns env ids vms (m.fetchAll env ids).2).2) :=
      refresh_of_ok hm hids
    have heq' := refresh_of_ok hm.unheard hids'
    simp only [← hknown] at heq'
    have hquiet := (removeTurns_getVM env.unheard_handlersReturn ids vms
      (m.unheard.fetchAll env.unheard ids).2 "").1
    rw [heq] at hreturn ⊢
    rw [heq', hquiet]
    cases hok : (removeTurns env ids vms (m.fetchAll env ids).2).1 with
    | error ex =>
      rw [hok] at hreturn
      cases hreturn
    | ok _ =>
      rw [hok] at hreturn
      refine ⟨removeTurns_unheard hfetched hok, ?_⟩
      rintro rfl
      exact congrArg Except.ok (hflag (Except.ok.inj hreturn))

/-! ## Runs -/

/-- What is left of an operation when nobody listens. -/
def Op.unheard? : Op → Option Op
  | registerVMEventHandler _ => none
  | refreshVMList env => some (.refreshVMList env.unheard)

/-- No refresh of the run is ended by a handler. -/
def RefreshesReturn (ops : List Op) : Prop :=
  ∀ before env after, ops = before ++ .refreshVMList env :: after →
    ¬ RemovalThrows (runOps before).mgr env

theorem RefreshesReturn.concat {ops : List Op} (h : RefreshesReturn ops) {op : Op}
    (hop : ∀ env, op = .refreshVMList env → ¬ RemovalThrows (runOps ops).mgr env) :
    RefreshesReturn (ops ++ [op]) := by
  intro before env after hsplit
  rcases List.eq_nil_or_concat after with rfl | ⟨after, last, rfl⟩
  · obtain ⟨rfl, hlast⟩ := List.append_inj' hsplit rfl
    exact hop env (List.cons.inj hlast).1
  · have hlast : ops ++ [op] = (before ++ .refreshVMList env :: after) ++ [last] := by
      rw [hsplit]
      simp
    exact h before env after (List.append_inj' hlast rfl).1

/-- So it is if every handler returns from every removal. -/
theorem refreshesReturn_of_removals {ops : List Op}
    (h : ∀ op ∈ ops, op.Meets fun env => ∀ n slot vm,
      (env.callback n slot (.oldVMRemoved vm)).isOk = true) : RefreshesReturn ops := by
  rintro before env after rfl ⟨ids, u, r, slot, -, -, -, -, hthrow⟩
  have hreturn := h (.refreshVMList env) (by simp) ids.length slot (some r)
  rw [hthrow] at hreturn
  cases hreturn

/-- A run, and the run of its refreshes without handlers. Induction on the last operation. -/
theorem runOps_unheard (ops : List Op) (hreturn : RefreshesReturn ops) :
    SameUnheard (runOps ops) (runOps (ops.filterMap Op.unheard?)) := by
  induction ops using List.reverseRecOn with
  | nil => exact ⟨rfl, rfl⟩
  | append_singleton ops op ih =>
    obtain ⟨hmgr, hfetches⟩ := ih fun before env after hsplit =>
      hreturn before env (after ++ [op]) (by rw [hsplit]; simp)
    rw [List.filterMap_append, runOps_concat]
    cases op with
    | registerVMEventHandler eventHandler =>
      rw [show [Op.registerVMEventHandler eventHandler].filterMap Op.unheard? = [] from rfl,
        List.append_nil]
      exact ⟨hmgr, hfetches⟩
    | refreshVMList env =>
      obtain ⟨succes, hsucces⟩ :=
        (refresh_outcome (runOps_sound ops).1 env).1 (hreturn ops env [] rfl)
      obtain ⟨⟨hmgr', hfetches'⟩, -⟩ := refresh_unheard (runOps_sound ops).1 hsucces
      rw [show [Op.refreshVMList env].filterMap Op.unheard? = [.refreshVMList env.unheard] from rfl,
        runOps_concat]
      rw [hmgr] at hmgr' hfetches'
      refine ⟨hmgr', ?_⟩
      show fetches ((runOps ops).trace ++ _) =
        fetches ((runOps (ops.filterMap Op.unheard?)).trace ++ _)
      rw [fetches_append, fetches_append, hfetches, hfetches']

/-- **Handlers influence nothing that is tracked**, if they leave the VM objects and the manager
alone: a callback returns or throws. Take two runs that get the same answers from the middleware,
refresh for refresh. Whoever is registered in them, and at whatever moment, and whichever handlers
throw from `newVMAdded` and `existingVMChanged`: as long as no refresh is ended by a handler, both
runs make the same fetches and track the same objects with the same contents. -/
theorem handlers_influence_nothing (ops ops' : List Op)
    (hsame : ops.filterMap Op.unheard? = ops'.filterMap Op.unheard?)
    (hreturn : RefreshesReturn ops) (hreturn' : RefreshesReturn ops') :
    (runOps ops).mgr.vmList = (runOps ops').mgr.vmList ∧
      (runOps ops).mgr.heap = (runOps ops').mgr.heap ∧
      fetches (runOps ops).trace = fetches (runOps ops').trace := by
  have h := runOps_unheard ops hreturn
  have h' := runOps_unheard ops' hreturn'
  rw [← hsame] at h'
  exact ⟨h.vmList.trans h'.vmList.symm, h.heap.trans h'.heap.symm, h.fetches.trans h'.fetches.symm⟩

/-- A handler that throws when it is told of a new VM, and nobody in its place. -/
theorem handlers_influence_nothing_throwing :
    let env := RefreshEnv.uniform ["vmA", "vmB"] .on
    let throwing : RefreshEnv := { env with
      callback := fun _ _ call =>
        if call = .newVMAdded (some 0) then .error ⟨"handler"⟩ else .ok () }
    (runOps [.registerVMEventHandler 7, .refreshVMList throwing]).mgr.vmList =
      (runOps [.refreshVMList env]).mgr.vmList := by
  intro env throwing
  exact (handlers_influence_nothing [.registerVMEventHandler 7, .refreshVMList throwing]
    [.refreshVMList env] rfl
    (refreshesReturn_of_removals (by simp [Op.Meets, throwing, Except.isOk, Except.toBool]))
    (refreshesReturn_of_removals (by simp [Op.Meets, env, RefreshEnv.uniform, Except.isOk,
      Except.toBool]))).1

end NebuApp
