import NebuApp.VM.Influence
import NebuApp.VM.Reconciliation

/-!
# What a record is made of

Whatever a run has been, the record of a VM is told by what the middleware has returned of it since
it was last missing from a list (`returnedSince`): the first VM returned gives the name and the
place, the last one the status (`recordOf`). Neither the other VMs nor the handlers have a part in
it.
-/

namespace NebuApp

/-- What a refresh adds to what the middleware has returned of `u`: a list without `u` starts over,
a list that does not arrive leaves all as it is. -/
def RefreshEnv.returnedAfter (env : RefreshEnv) (u : String) (returned : List VirtualMachine) :
    List VirtualMachine :=
  match env.getVirtualMachineIDs with
  | .error _ => returned
  | .ok ids =>
    if u ∈ ids then
      returned ++ ((List.range (ids.count u)).map (env.getVirtualMachine u)).filterMap
        Except.toOption
    else []

/-- The VMs returned for `u` since it was last missing from a list. -/
def returnedSince (u : String) (ops : List Op) : List VirtualMachine :=
  ops.foldl (fun returned op =>
    match op with
    | .registerVMEventHandler _ => returned
    | .refreshVMList env => env.returnedAfter u returned) []

/-- The record these VMs leave: the first of them, with the status of the last. -/
def recordOf : List VirtualMachine → Option VirtualMachine
  | [] => none
  | first :: rest => some (first.setStatus ((first :: rest).getLast (by simp)).status)

@[simp] theorem recordOf_nil : recordOf [] = none := rfl

theorem recordOf_snoc (returned : List VirtualMachine) (vm : VirtualMachine) :
    recordOf (returned ++ [vm]) = absorbRecord (recordOf returned) (.ok vm) := by
  cases returned with
  | nil => rfl
  | cons first rest => simp [recordOf, absorbRecord, VirtualMachine.setStatus]

/-- Answers that failed leave no trace in a record. Induction on the answers. -/
theorem foldl_absorbRecord_recordOf (answers : List Answer) (returned : List VirtualMachine) :
    answers.foldl absorbRecord (recordOf returned) =
      recordOf (returned ++ answers.filterMap Except.toOption) := by
  induction answers generalizing returned with
  | nil => rw [List.filterMap_nil, List.append_nil]; rfl
  | cons answer rest ih =>
    cases answer with
    | error ex => exact ih returned
    | ok vm =>
      rw [List.foldl_cons, ← recordOf_snoc, ih, List.append_assoc]
      rfl

/-- A refresh makes of a record what it adds to what has been returned. -/
theorem record?_refresh_recordOf {m : VMManager} (hm : m.WellKept) {env : RefreshEnv}
    (hret : env.HandlersReturn) (hown : env.HonestUUIDs) {u : String}
    {returned : List VirtualMachine} (hrec : m.record? u = recordOf returned) :
    (m.refresh env).2.mgr.record? u = recordOf (env.returnedAfter u returned) := by
  cases hids : env.getVirtualMachineIDs with
  | error ex =>
    rw [refresh_of_error hids, RefreshEnv.returnedAfter, hids]
    exact hrec
  | ok ids =>
    rw [record?_refresh hm hret hown hids, RefreshEnv.returnedAfter, hids]
    by_cases hu : u ∈ ids
    · simp only [if_pos hu, answersFor_refresh hm hret hids, hrec, foldl_absorbRecord_recordOf]
    · simp only [if_neg hu, recordOf_nil]

/-- Handlers have no part in what is returned. -/
theorem returnedSince_unheard (u : String) (ops : List Op) :
    returnedSince u (ops.filterMap Op.unheard?) = returnedSince u ops := by
  induction ops using List.reverseRecOn with
  | nil => rfl
  | append_singleton ops op ih =>
    rw [List.filterMap_append, returnedSince, List.foldl_append, ← returnedSince, ih, returnedSince,
      returnedSince, List.foldl_append]
    cases op <;> rfl

/-- The record of a VM in a run without handlers. Induction on the last operation. -/
theorem record?_runOps_unheard {ops : List Op} (hown : ∀ op ∈ ops, op.Meets RefreshEnv.HonestUUIDs)
    (u : String) :
    (runOps (ops.filterMap Op.unheard?)).mgr.record? u = recordOf (returnedSince u ops) := by
  induction ops using List.reverseRecOn with
  | nil => rfl
  | append_singleton ops op ih =>
    have hrec := ih fun op hop => hown op (List.mem_append_left _ hop)
    have hlast : op.Meets RefreshEnv.HonestUUIDs := hown op (by simp)
    rw [List.filterMap_append, returnedSince, List.foldl_append, ← returnedSince]
    cases op with
    | registerVMEventHandler eventHandler =>
      rw [show [Op.registerVMEventHandler eventHandler].filterMap Op.unheard? = [] from rfl,
        List.append_nil]
      exact hrec
    | refreshVMList env =>
      rw [show [Op.refreshVMList env].filterMap Op.unheard? = [.refreshVMList env.unheard] from rfl,
        runOps_concat]
      exact record?_refresh_recordOf (runOps_sound (ops.filterMap Op.unheard?)).1
        env.unheard_handlersReturn hlast hrec

/-- **What a record is made of.** In every run with a middleware that answers a fetch of `u` with
the VM `u`, and in which no refresh is ended by a handler: a VM is on record if and only if the
middleware has returned it since it was last missing from a list that arrived. The record has the
name and the place of the first VM returned since then, and the status of the last. Handlers leave
the VM objects and the manager alone: a callback returns or throws. -/
theorem record?_eq_recordOf (ops : List Op) (hown : ∀ op ∈ ops, op.Meets RefreshEnv.HonestUUIDs)
    (hreturn : RefreshesReturn ops) (u : String) :
    (runOps ops).mgr.record? u = recordOf (returnedSince u ops) := by
  have h := runOps_unheard ops hreturn
  rw [← record?_runOps_unheard hown u, VMManager.record?, VMManager.record?, VMManager.getVM,
    VMManager.getVM, VMManager.hasVM, VMManager.hasVM, h.vmList, h.heap]

/-- A handler throws when it is told of a VM, which by the next refresh has moved and been switched
off. -/
theorem record?_eq_recordOf_moved :
    let env : RefreshEnv := { RefreshEnv.placed "h1" with
      callback := fun _ _ call =>
        if call = .newVMAdded (some 0) then .error ⟨"handler"⟩ else .ok () }
    let moved : RefreshEnv := { RefreshEnv.placed "h2" with
      getVirtualMachine := fun id _ => .ok ⟨id, "web", "h2", "s1", .off⟩ }
    (runOps [.registerVMEventHandler 7, .refreshVMList env,
        .refreshVMList moved]).mgr.record? "vmA" =
      some ⟨"vmA", "web", "h1", "s1", .off⟩ := by
  intro env moved
  have hown : ∀ op ∈ [Op.registerVMEventHandler 7, .refreshVMList env, .refreshVMList moved],
      op.Meets RefreshEnv.HonestUUIDs := by
    have hmoved : moved.HonestUUIDs := by
      intro id n vm hvm
      cases hvm
      rfl
    have hfound : env.HonestUUIDs := RefreshEnv.placed_honestUUIDs "h1"
    simp [Op.Meets, hfound, hmoved]
  have hreturn : RefreshesReturn [.registerVMEventHandler 7, .refreshVMList env,
      .refreshVMList moved] :=
    refreshesReturn_of_removals (by
      simp [Op.Meets, env, moved, RefreshEnv.placed, RefreshEnv.uniform, Except.isOk,
        Except.toBool])
  exact record?_eq_recordOf [.registerVMEventHandler 7, .refreshVMList env, .refreshVMList moved]
    hown hreturn "vmA"

end NebuApp
