import NebuApp.Lib.Exec
import NebuApp.Lib.Store
import NebuApp.Lib.Unordered
import Mathlib.Data.Finset.Dedup

/-!
# The virtual machine manager

`VMManager` (`vmManager.h`, `vmManager.cpp`) and `VMEventHandler` (`vmEventHandler.h`). A
`shared_ptr<VirtualMachine>` is a `Ptr` into the manager's `heap`, so aliasing and in-place
mutation are those of the source; `make_shared` allocates, `->` dereferences and a null
dereference aborts. `vmList` is the `unordered_map` from UUID to pointer.

What the program does not decide during one `refreshVMList` is gathered in a `RefreshEnv`: the
answers of the middleware, the outcome of every handler callback, and the order in which
`vmList` is iterated. Each `refreshVMList` also leaves a trace of its fetches, of its writes to
the tracked VMs and of the callbacks it made, each with the manager as it was at that moment.

Logging is left out: no log call has an effect on the manager.
-/

namespace NebuApp

open Exec

/-! ## Data of libnebu-common -/

/-- `nebu::common::VMStatus`. -/
inductive VMStatus where
  | on
  | off
  | unknown
  deriving DecidableEq, Repr

/-- `nebu::common::VirtualMachine`, with the fields the framework reads. -/
structure VirtualMachine where
  uuid : String
  hostname : String
  physicalHostID : String
  physicalStoreID : String
  status : VMStatus
  deriving DecidableEq, Repr

/-- `VirtualMachine::setStatus`. -/
def VirtualMachine.setStatus (vm : VirtualMachine) (status : VMStatus) : VirtualMachine :=
  { vm with status := status }

/-- `nebu::common::NebuServerException`. -/
structure NebuServerException where
  what : String
  deriving DecidableEq, Repr

/-! ## Events -/

/-- `VMEvent`. -/
inductive VMEvent where
  | poweredOn
  | poweredOff
  | unknown
  deriving DecidableEq, Repr

/-- The event announcing a status, the `switch` of `VMManager::updateVM`. -/
def VMStatus.event : VMStatus → VMEvent
  | .on => .poweredOn
  | .off => .poweredOff
  | .unknown => .unknown

/-- A call of one of the hooks of `VMEventHandler`, with its arguments. -/
inductive Notification where
  | newVMAdded (vm : Ptr)
  | existingVMChanged (vm : Ptr) (event : VMEvent)
  | oldVMRemoved (vm : Ptr)
  deriving DecidableEq, Repr

/-- The VM a notification is about. -/
def Notification.vm : Notification → Ptr
  | newVMAdded vm => vm
  | existingVMChanged vm _ => vm
  | oldVMRemoved vm => vm

/-- What `getVirtualMachine` comes back with. -/
abbrev Answer := Except NebuServerException VirtualMachine

/-- `unordered_map<string, shared_ptr<VirtualMachine>>`. -/
abbrev VMList := UnorderedMap String Ptr

/-- `VMManager` with the objects its pointers refer to. The handlers are an opaque list. -/
structure VMManager where
  heap : Store VirtualMachine
  vmEventHandlers : List Ref
  vmList : VMList

/-- `VMManager::VMManager`. -/
def VMManager.init : VMManager := ⟨Store.empty, [], ∅⟩

/-! ## Queries -/

namespace VMManager

/-- `VMManager::hasVM`: `vmList.count(uuid) > 0`. -/
def hasVM (m : VMManager) (uuid : String) : Bool := decide (uuid ∈ m.vmList)

/-- `VMManager::getVM`: the stored pointer, or a null pointer. -/
def getVM (m : VMManager) (uuid : String) : Ptr :=
  if m.hasVM uuid then (m.vmList.lookup uuid).join else none

/-- `VMManager::getVMs`: the stored pointers in the order `vmList` is iterated. -/
def getVMs (o : IterationOrder (Σ _ : String, Ptr)) (m : VMManager) : List Ptr :=
  (m.vmList.iterate o).map Sigma.snd

/-- `VMManager::registerVMEventHandler`. -/
def registerVMEventHandler (m : VMManager) (eventHandler : Ref) : VMManager :=
  { m with vmEventHandlers := m.vmEventHandlers ++ [eventHandler] }

end VMManager

/-! ## The state of a refresh -/

/-- What a refresh does that can be seen or told from outside. -/
inductive Action where
  /-- `getVirtualMachine(id)` was called and came back with `answer`. -/
  | fetched (id : String) (answer : Answer)
  /-- `vmList` was pointed at `vm` under the UUID of `vm`. -/
  | recorded (vm : Ptr)
  /-- The status of `vm` was overwritten. -/
  | overwrote (vm : Ptr) (status : VMStatus)
  /-- `vmList[id]` found no entry and inserted a null one. -/
  | nullInserted (id : String)
  /-- The `slot`-th registered handler was called. -/
  | notified (slot : Nat) (call : Notification)
  deriving DecidableEq

/-- An action and the manager at the moment of it. -/
structure Entry where
  mgr : VMManager
  action : Action

/-- The manager in the middle of a refresh, and the trace of the refresh so far. -/
structure RefreshState where
  mgr : VMManager
  trace : List Entry

/-- Why a refresh stops short. `NebuServerException` is the one exception the source catches. -/
inductive Abort where
  | serverException (ex : NebuServerException)
  | nullDereference
  deriving DecidableEq, Repr

/-- What the world outside decides during one refresh. -/
structure RefreshEnv where
  /-- `appVirtRequest->getVirtualMachineIDs()`. -/
  getVirtualMachineIDs : Except NebuServerException (List String)
  /-- `appVirtRequest->getVirtualMachine(id)`, for each earlier call about `id` counted. -/
  getVirtualMachine : String → Nat → Answer
  /-- How a callback ends, given the number of fetches made so far and the handler's slot. -/
  callback : Nat → Nat → Notification → Except NebuServerException Unit
  /-- The order `vmList` is iterated in. -/
  iteration : IterationOrder (Σ _ : String, Ptr)

/-- Code of the manager. -/
abbrev VMProg := Prog RefreshState Abort

/-- The answer a trace entry reports for `id`, if it is a fetch of `id`. -/
def Entry.answerFor? (id : String) (e : Entry) : Option Answer :=
  match e.action with
  | .fetched id' answer => if id' = id then some answer else none
  | _ => none

/-- The answers the fetches of `id` received, in order. -/
def answersFor (id : String) (trace : List Entry) : List Answer :=
  trace.filterMap (Entry.answerFor? id)

/-- The fetch a trace entry reports, if it is one. -/
def Entry.fetch? (e : Entry) : Option (String × Answer) :=
  match e.action with
  | .fetched id answer => some (id, answer)
  | _ => none

/-- The fetches of a trace, in order. -/
def fetches (trace : List Entry) : List (String × Answer) := trace.filterMap Entry.fetch?

/-! ## Primitive operations -/

/-- Note an action in the trace. -/
def emit (action : Action) : VMProg Unit :=
  modify fun s => { s with trace := s.trace ++ [⟨s.mgr, action⟩] }

/-- `*vm`. -/
def deref (vm : Ptr) : VMProg VirtualMachine := do
  match (← get).mgr.heap.deref? vm with
  | some v => pure v
  | none => throw .nullDereference

/-- `make_shared<VirtualMachine>(vm)`. -/
def makeShared (vm : VirtualMachine) : VMProg Ptr := do
  let s ← get
  modify fun s => { s with mgr := { s.mgr with heap := s.mgr.heap.alloc vm } }
  pure (some s.mgr.heap.next)

/-- `vm->setStatus(status)`. -/
def setStatus (vm : Ptr) (status : VMStatus) : VMProg Unit := do
  match vm with
  | some r =>
    modify fun s => { s with mgr := { s.mgr with
      heap := s.mgr.heap.modify r (·.setStatus status) } }
  | none => throw .nullDereference

/-- `this->vmList[uuid] = vm`. -/
def vmListAssign (uuid : String) (vm : Ptr) : VMProg Unit :=
  modify fun s => { s with mgr := { s.mgr with vmList := s.mgr.vmList.insert uuid vm } }

/-- `this->vmList[id]` as a value: an absent key is first given a null pointer. -/
def vmListIndex (id : String) : VMProg Ptr := do
  match (← get).mgr.vmList.lookup id with
  | some vm => pure vm
  | none =>
    vmListAssign id none
    emit (.nullInserted id)
    pure none

/-- `this->vmList.erase(uuid)`. -/
def vmListErase (uuid : String) : VMProg Unit :=
  modify fun s => { s with mgr := { s.mgr with vmList := s.mgr.vmList.erase uuid } }

/-- Return the value of an outcome of code outside the manager, or throw its exception. -/
def liftOutcome {α : Type} : Except NebuServerException α → VMProg α
  | .ok a => pure a
  | .error ex => throw (.serverException ex)

/-- `catch (NebuServerException &ex)`: nothing else is caught. -/
def catchServerException {α : Type} (body : VMProg α) (handler : VMProg α) : VMProg α :=
  tryCatch body fun
    | .serverException _ => handler
    | .nullDereference => throw .nullDereference

/-- `this->appVirtRequest->getVirtualMachine(id)`. -/
def getVirtualMachine (env : RefreshEnv) (id : String) : VMProg VirtualMachine := do
  let answer := env.getVirtualMachine id (answersFor id (← get).trace).length
  emit (.fetched id answer)
  liftOutcome answer

/-- `ev->get()->…(…)` on the handler in `slot`. -/
def callEventHandler (env : RefreshEnv) (call : Notification) (slot : Nat) : VMProg Unit := do
  emit (.notified slot call)
  liftOutcome (env.callback (fetches (← get).trace).length slot call)

/-- The body of `FOREACH_EVENTHANDLER` from `slot` on. -/
def forEachEventHandlerFrom (env : RefreshEnv) (call : Notification) :
    Nat → List Ref → VMProg Unit
  | _, [] => pure ()
  | slot, _ :: rest => do
    callEventHandler env call slot
    forEachEventHandlerFrom env call (slot + 1) rest

/-- `FOREACH_EVENTHANDLER(ev) { ev->get()->…(…); }`. -/
def forEachEventHandler (env : RefreshEnv) (call : Notification) : VMProg Unit := do
  forEachEventHandlerFrom env call 0 (← get).mgr.vmEventHandlers

/-! ## `addVM`, `updateVM`, `removeVM`

What a notification does is a parameter of the code that makes it: `forEachEventHandler`, unless
callbacks may register handlers. -/

section Passes

variable (notify : Notification → VMProg Unit) (env : RefreshEnv)

/-- `VMManager::addVM`. -/
def addVM (vm : Ptr) : VMProg Unit := do
  let v ← deref vm
  -- under the UUID of the object, which need not be the one that was asked for
  vmListAssign v.uuid vm
  emit (.recorded vm)
  notify (.newVMAdded vm)

/-- `VMManager::updateVM`. -/
def updateVM (vm : Ptr) (updated : VirtualMachine) : VMProg Unit := do
  if (← deref vm).status ≠ updated.status then
    setStatus vm updated.status
    emit (.overwrote vm updated.status)
    -- of `updated` only the status is taken over, and the `switch` is on the object
    let event := (← deref vm).status.event
    notify (.existingVMChanged vm event)

/-- `VMManager::removeVM`. -/
def removeVM (vm : Ptr) : VMProg Unit := do
  let v ← deref vm
  vmListErase v.uuid
  -- handlers are told when the entry is gone
  notify (.oldVMRemoved vm)

/-! ## The three passes of a refresh -/

/-- The `try` block of `addNewVMs`; `false` when `NebuServerException` was caught. -/
def addNewVM (id : String) : VMProg Bool :=
  catchServerException
    (do
      let newVM ← makeShared (← getVirtualMachine env id)
      addVM notify newVM
      pure true)
    (pure false)

/-- The loop of `addNewVMs` over the vector, with the iterator as the index `it`. `erase(it)`
moves the elements behind `it` one place forward and leaves `it` where it is, on the next
element. By the standard it also invalidates `it`, which the source goes on to use: the index is
what becomes of this in a library that does not check its iterators, and one that does may abort.
Returns the flag and the vector as the loop leaves it. -/
def addNewVMsLoop (retrievedVMIds : List String) (it : Nat) (succes : Bool) :
    VMProg (Bool × List String) := do
  if h : it < retrievedVMIds.length then
    if (← get).mgr.vmList.lookup retrievedVMIds[it] = none then
      -- erased also if the fetch failed, so that `updateVMs` does not ask again
      let ok ← addNewVM notify env retrievedVMIds[it]
      addNewVMsLoop (retrievedVMIds.eraseIdx it) it (succes && ok)
    else
      addNewVMsLoop retrievedVMIds (it + 1) succes
  else
    pure (succes, retrievedVMIds)
termination_by retrievedVMIds.length - it
decreasing_by
  · have := List.length_eraseIdx_of_lt h
    omega
  · omega

/-- `VMManager::addNewVMs`. -/
def addNewVMs (retrievedVMIds : List String) : VMProg (Bool × List String) :=
  addNewVMsLoop notify env retrievedVMIds 0 true

/-- The body of the loop of `updateVMs`; `false` when `NebuServerException` was caught. -/
def updateListedVM (id : String) : VMProg Bool := do
  -- the index stands before the `try` block
  let vm ← vmListIndex id
  catchServerException
    (do
      let updatedVM ← getVirtualMachine env id
      if (← deref vm).status ≠ updatedVM.status then
        updateVM notify vm updatedVM
      pure true)
    (pure false)

/-- The loop of `updateVMs`. -/
def updateVMsLoop : List String → Bool → VMProg Bool
  | [], succes => pure succes
  | id :: rest, succes => do
    let ok ← updateListedVM notify env id
    updateVMsLoop rest (succes && ok)

/-- `VMManager::updateVMs`. -/
def updateVMs (filteredVMIds : List String) : VMProg Bool :=
  updateVMsLoop notify env filteredVMIds true

/-- The loop of `removeVMs`. -/
def removeVMsLoop (vmIDSet : Finset String) : List Ptr → VMProg Unit
  | [] => pure ()
  | vm :: rest => do
    if (← deref vm).uuid ∉ vmIDSet then
      removeVM notify vm
    removeVMsLoop vmIDSet rest

/-- `VMManager::removeVMs`. -/
def removeVMs (retrievedVMIds : List String) : VMProg Unit := do
  -- a copy, which `removeVM` does not change under the loop
  let knownVMs := (← get).mgr.getVMs env.iteration
  removeVMsLoop notify retrievedVMIds.toFinset knownVMs

/-- `VMManager::refreshVMList`. -/
def refreshVMList : VMProg Bool := do
  match env.getVirtualMachineIDs with
  -- without a list nothing is removed
  | .error _ => pure false
  | .ok vmIDs =>
    let (added, vmIDsFiltered) ← addNewVMs notify env vmIDs
    let updated ← updateVMs notify env vmIDsFiltered
    -- by the whole list: the filtered one lacks what was just added
    removeVMs notify env vmIDs
    pure (added && updated)

end Passes

/-! ## Runs -/

/-- One refresh of a manager: its outcome, the manager it leaves and its trace. -/
def VMManager.refresh (m : VMManager) (env : RefreshEnv) : Except Abort Bool × RefreshState :=
  exec (refreshVMList (forEachEventHandler env) env) ⟨m, []⟩

/-- An operation on the manager between which nothing else happens to it. -/
inductive Op where
  | registerVMEventHandler (eventHandler : Ref)
  | refreshVMList (env : RefreshEnv)

/-- Perform one operation on the manager and extend the trace of the run. -/
def Op.perform (s : RefreshState) : Op → RefreshState
  | registerVMEventHandler eventHandler =>
    { s with mgr := s.mgr.registerVMEventHandler eventHandler }
  | refreshVMList env =>
    let s' := (s.mgr.refresh env).2
    ⟨s'.mgr, s.trace ++ s'.trace⟩

/-- Perform a sequence of operations on a new manager. -/
def runOps (ops : List Op) : RefreshState := ops.foldl Op.perform ⟨.init, []⟩

end NebuApp
