import NebuApp.VM.Model

/-!
# One turn of a refresh

Whichever pass reaches an id, the refresh does the same with it: fetch it, and if the answer
says something new, write that to the manager and call the handlers. `turn` states this without
control flow. `exec_addNewVM` and `exec_updateListedVM` show that the `try` blocks of the two
passes compute it, whatever the middleware answers and whichever callback throws.

`WellKept` is the representation invariant of `vmList`: every entry points at an allocated VM
and is stored under that VM's own UUID.
-/

namespace NebuApp

open Exec

/-! ## The representation invariant -/

/-- Every entry of `vmList` is a non-null pointer stored under the UUID of the VM behind it. -/
structure VMManager.WellKept (m : VMManager) : Prop where
  own : ∀ u p, m.vmList.lookup u = some p →
    ∃ r vm, p = some r ∧ m.heap.get? r = some vm ∧ vm.uuid = u

namespace VMManager

theorem wellKept_init : init.WellKept := ⟨fun u p h => by simp [init] at h⟩

/-- The VM the manager holds under `uuid`. -/
def record? (m : VMManager) (uuid : String) : Option VirtualMachine :=
  m.heap.deref? (m.getVM uuid)

theorem getVM_eq (m : VMManager) (u : String) : m.getVM u = (m.vmList.lookup u).join := by
  unfold getVM hasVM
  split
  next => rfl
  next h =>
    have hnone : m.vmList.lookup u = none := AList.lookup_eq_none.mpr (by simpa using h)
    simp [hnone]

/-- `getVM` answers with a VM exactly when `vmList` points at one. -/
theorem lookup_eq_some_iff {m : VMManager} {u : String} {r : Ref} :
    m.vmList.lookup u = some (some r) ↔ m.getVM u = some r := by
  rw [getVM_eq]
  cases h : m.vmList.lookup u with
  | none => simp
  | some p => simp

theorem WellKept.lookup_none_iff {m : VMManager} (hm : m.WellKept) {u : String} :
    m.vmList.lookup u = none ↔ m.getVM u = none := by
  rw [getVM_eq]
  cases h : m.vmList.lookup u with
  | none => simp
  | some p =>
    obtain ⟨r, vm, rfl, -, -⟩ := hm.own u p h
    simp

theorem WellKept.record?_of_lookup {m : VMManager} (hm : m.WellKept) {u : String} {p : Ptr}
    (h : m.vmList.lookup u = some p) :
    ∃ r vm, p = some r ∧ m.heap.get? r = some vm ∧ vm.uuid = u ∧ m.record? u = some vm := by
  obtain ⟨r, vm, rfl, hr, hu⟩ := hm.own u p h
  refine ⟨r, vm, rfl, hr, hu, ?_⟩
  rw [record?, lookup_eq_some_iff.mp h]
  exact hr

theorem WellKept.record?_eq_none_iff {m : VMManager} (hm : m.WellKept) {u : String} :
    m.record? u = none ↔ m.vmList.lookup u = none := by
  constructor
  · intro h
    cases hl : m.vmList.lookup u with
    | none => rfl
    | some p =>
      obtain ⟨r, vm, -, -, -, hrec⟩ := hm.record?_of_lookup hl
      rw [h] at hrec
      cases hrec
  · intro h
    rw [record?, hm.lookup_none_iff.mp h]
    rfl

/-! ## What an answer writes -/

/-- Point `vmList` at a freshly allocated copy of `vm`. -/
def recordVM (m : VMManager) (vm : VirtualMachine) : VMManager :=
  { m with heap := m.heap.alloc vm, vmList := m.vmList.insert vm.uuid (some m.heap.next) }

/-- Overwrite the status of the VM behind `r`. -/
def overwriteStatus (m : VMManager) (r : Ref) (status : VMStatus) : VMManager :=
  { m with heap := m.heap.modify r (·.setStatus status) }

/-- Drop the entry of `uuid`. -/
def eraseVM (m : VMManager) (uuid : String) : VMManager :=
  { m with vmList := m.vmList.erase uuid }

theorem getVM_recordVM (m : VMManager) (vm : VirtualMachine) (u : String) :
    (m.recordVM vm).getVM u = if u = vm.uuid then some m.heap.next else m.getVM u := by
  rw [getVM_eq, getVM_eq, VMManager.recordVM, UnorderedMap.lookup_insert]
  split <;> rfl

theorem getVM_overwriteStatus (m : VMManager) (r : Ref) (st : VMStatus) (u : String) :
    (m.overwriteStatus r st).getVM u = m.getVM u := by
  rw [getVM_eq, getVM_eq, VMManager.overwriteStatus]

theorem getVM_eraseVM (m : VMManager) (u u' : String) :
    (m.eraseVM u').getVM u = if u = u' then none else m.getVM u := by
  rw [getVM_eq, getVM_eq, VMManager.eraseVM, UnorderedMap.lookup_erase]
  split <;> rfl

theorem WellKept.recordVM {m : VMManager} (hm : m.WellKept) (vm : VirtualMachine) :
    (m.recordVM vm).WellKept := by
  refine ⟨fun u p h => ?_⟩
  simp only [VMManager.recordVM] at h ⊢
  rw [UnorderedMap.lookup_insert] at h
  split at h
  next hu =>
    cases h
    exact ⟨_, vm, rfl, Store.get?_alloc_next _ _, hu.symm⟩
  next hu =>
    obtain ⟨r, old, rfl, hr, hown⟩ := hm.own u p h
    exact ⟨r, old, rfl, Store.get?_alloc_of_some hr vm, hown⟩

theorem WellKept.overwriteStatus {m : VMManager} (hm : m.WellKept) (r : Ref) (st : VMStatus) :
    (m.overwriteStatus r st).WellKept := by
  refine ⟨fun u p h => ?_⟩
  obtain ⟨r', vm, rfl, hr', hown⟩ := hm.own u p h
  by_cases hrr : r = r'
  · exact ⟨r', vm.setStatus st, rfl,
      by simp [VMManager.overwriteStatus, hrr, hr'], hown⟩
  · exact ⟨r', vm, rfl, by simp [VMManager.overwriteStatus, Store.get?_modify_ne hrr, hr'], hown⟩

theorem WellKept.eraseVM {m : VMManager} (hm : m.WellKept) (u : String) :
    (m.eraseVM u).WellKept := by
  refine ⟨fun u' p h => ?_⟩
  simp only [VMManager.eraseVM] at h ⊢
  rw [UnorderedMap.lookup_erase] at h
  split at h
  next => cases h
  next => exact hm.own u' p h

theorem WellKept.registerVMEventHandler {m : VMManager} (hm : m.WellKept) (h : Ref) :
    (m.registerVMEventHandler h).WellKept := ⟨hm.own⟩

/-- A write to the tracked VMs: the manager after it, the action it is, and the notification
that follows it. -/
structure Write where
  mgr : VMManager
  action : Action
  call : Notification

/-- What the answer to a fetch of `id` writes: an unknown id is recorded, a known one has its
status overwritten when it differs. -/
def writeFor (m : VMManager) (id : String) : Answer → Option Write
  | .error _ => none
  | .ok vm =>
    match m.vmList.lookup id with
    | none =>
      let p := some m.heap.next
      some ⟨m.recordVM vm, .recorded p, .newVMAdded p⟩
    | some p =>
      match p, m.heap.deref? p with
      | some r, some old =>
        if old.status ≠ vm.status then
          some ⟨m.overwriteStatus r vm.status, .overwrote p vm.status,
            .existingVMChanged p vm.status.event⟩
        else none
      | _, _ => none

/-- The manager after an answer to a fetch of `id`. -/
def absorb (m : VMManager) (fetch : String × Answer) : VMManager :=
  match m.writeFor fetch.1 fetch.2 with
  | none => m
  | some w => w.mgr

theorem writeFor_error (m : VMManager) (id : String) (ex : NebuServerException) :
    m.writeFor id (.error ex) = none := rfl

theorem writeFor_unknown {m : VMManager} {id : String} (h : m.vmList.lookup id = none)
    (vm : VirtualMachine) :
    m.writeFor id (.ok vm) = some ⟨m.recordVM vm, .recorded (some m.heap.next),
      .newVMAdded (some m.heap.next)⟩ := by
  simp [writeFor, h]

theorem writeFor_known {m : VMManager} {id : String} {r : Ref} {old : VirtualMachine}
    (h : m.vmList.lookup id = some (some r)) (hr : m.heap.get? r = some old)
    (vm : VirtualMachine) :
    m.writeFor id (.ok vm) =
      if old.status ≠ vm.status then
        some ⟨m.overwriteStatus r vm.status, .overwrote (some r) vm.status,
          .existingVMChanged (some r) vm.status.event⟩
      else none := by
  simp [writeFor, h, hr]

/-- **What a write can be.** Every write is the recording of an unknown id or a change of status
of a known one. -/
theorem writeFor_cases {m : VMManager} {id : String} {answer : Answer} {w : Write}
    (h : m.writeFor id answer = some w) :
    (∃ vm, answer = .ok vm ∧ m.vmList.lookup id = none ∧
      w = ⟨m.recordVM vm, .recorded (some m.heap.next), .newVMAdded (some m.heap.next)⟩) ∨
    (∃ vm r old, answer = .ok vm ∧ m.vmList.lookup id = some (some r) ∧
      m.heap.get? r = some old ∧ old.status ≠ vm.status ∧
      w = ⟨m.overwriteStatus r vm.status, .overwrote (some r) vm.status,
        .existingVMChanged (some r) vm.status.event⟩) := by
  cases answer with
  | error ex => cases h
  | ok vm =>
    cases hl : m.vmList.lookup id with
    | none =>
      rw [writeFor_unknown hl] at h
      exact Or.inl ⟨vm, rfl, rfl, (Option.some.inj h).symm⟩
    | some p =>
      simp only [writeFor, hl] at h
      split at h
      next r old hr =>
        split at h
        next hne => exact Or.inr ⟨vm, r, old, rfl, rfl, hr, hne, (Option.some.inj h).symm⟩
        next => cases h
      next => cases h

theorem writeFor_handlers {m : VMManager} {id : String} {answer : Answer} {w : Write}
    (h : m.writeFor id answer = some w) : w.mgr.vmEventHandlers = m.vmEventHandlers := by
  rcases writeFor_cases h with ⟨vm, -, -, rfl⟩ | ⟨vm, r, old, -, -, -, -, rfl⟩ <;> rfl

@[simp] theorem absorb_handlers (m : VMManager) (f : String × Answer) :
    (m.absorb f).vmEventHandlers = m.vmEventHandlers := by
  unfold absorb
  split
  next => rfl
  next w hw => exact writeFor_handlers hw

theorem WellKept.absorb {m : VMManager} (hm : m.WellKept) (f : String × Answer) :
    (m.absorb f).WellKept := by
  unfold VMManager.absorb
  split
  next => exact hm
  next w hw =>
    rcases writeFor_cases hw with ⟨vm, -, -, rfl⟩ | ⟨vm, r, old, -, -, -, -, rfl⟩
    · exact hm.recordVM vm
    · exact hm.overwriteStatus r vm.status

/-- No answer makes the manager forget an id. -/
theorem mem_absorb {m : VMManager} {u : String} (h : u ∈ m.vmList) (f : String × Answer) :
    u ∈ (m.absorb f).vmList := by
  unfold absorb
  split
  next => exact h
  next w hw =>
    rcases writeFor_cases hw with ⟨vm, -, -, rfl⟩ | ⟨vm, r, old, -, -, -, -, rfl⟩
    · exact (AList.mem_insert _).mpr (Or.inr h)
    · exact h

end VMManager

/-! ## The callbacks of one notification -/

/-- The calls a notification makes from `slot` on: one to each handler in turn, up to the first
that throws. `count` is the number of fetches made so far. -/
def calls (env : RefreshEnv) (count : Nat) (m : VMManager) (call : Notification) :
    Nat → List Ref → List Entry
  | _, [] => []
  | slot, _ :: rest =>
    ⟨m, .notified slot call⟩ ::
      match env.callback count slot call with
      | .ok _ => calls env count m call (slot + 1) rest
      | .error _ => []

theorem calls_cons (env : RefreshEnv) (count : Nat) (m : VMManager) (call : Notification)
    (slot : Nat) (h : Ref) (rest : List Ref) :
    calls env count m call slot (h :: rest) = ⟨m, .notified slot call⟩ ::
      if (env.callback count slot call).isOk then calls env count m call (slot + 1) rest
      else [] := by
  rw [calls]
  cases env.callback count slot call <;> rfl

/-- Every call of a notification is that notification, made while the manager stands still. -/
theorem mem_calls {env : RefreshEnv} {count : Nat} {m : VMManager} {call : Notification}
    {slot : Nat} {hs : List Ref} {e : Entry} (h : e ∈ calls env count m call slot hs) :
    ∃ slot', e = ⟨m, .notified slot' call⟩ := by
  induction hs generalizing slot with
  | nil => cases h
  | cons handler rest ih =>
    rw [calls_cons] at h
    rcases List.mem_cons.mp h with rfl | h
    · exact ⟨slot, rfl⟩
    · split at h
      next => exact ih h
      next => cases h

/-- How a notification ends: normally, or with the first exception of a handler. -/
def callsOutcome (env : RefreshEnv) (count : Nat) (call : Notification) :
    Nat → List Ref → Except NebuServerException Unit
  | _, [] => .ok ()
  | slot, _ :: rest =>
    match env.callback count slot call with
    | .ok _ => callsOutcome env count call (slot + 1) rest
    | .error ex => .error ex

/-- The exception of an outcome as the reason of an abort. -/
def abortOf {α : Type} (outcome : Except NebuServerException α) : Except Abort α :=
  outcome.mapError .serverException

/-! ## Running the primitive operations -/

/-- The state with `t` noted in the trace. -/
def RefreshState.note (s : RefreshState) (t : List Entry) : RefreshState :=
  ⟨s.mgr, s.trace ++ t⟩

@[simp] theorem RefreshState.note_mgr (s : RefreshState) (t : List Entry) :
    (s.note t).mgr = s.mgr := rfl

@[simp] theorem RefreshState.note_trace (s : RefreshState) (t : List Entry) :
    (s.note t).trace = s.trace ++ t := rfl

@[simp] theorem RefreshState.note_nil (s : RefreshState) : s.note [] = s := by
  simp [RefreshState.note]

@[simp] theorem RefreshState.note_note (s : RefreshState) (t t' : List Entry) :
    (s.note t).note t' = s.note (t ++ t') := by
  simp [RefreshState.note]

section Exec

theorem fetches_append (t t' : List Entry) : fetches (t ++ t') = fetches t ++ fetches t' :=
  List.filterMap_append

variable (s : RefreshState)

@[simp] theorem exec_emit (action : Action) :
    exec (emit action) s = (.ok (), s.note [⟨s.mgr, action⟩]) := rfl

@[simp] theorem exec_liftOutcome {α : Type} (outcome : Except NebuServerException α) :
    exec (liftOutcome outcome) s = (abortOf outcome, s) := by
  cases outcome <;> rfl

theorem exec_deref {p : Ptr} {vm : VirtualMachine} (h : s.mgr.heap.deref? p = some vm) :
    exec (deref p) s = (.ok vm, s) := by
  rw [deref, exec_bind_ok (exec_get s), h]
  rfl

theorem exec_getVirtualMachine (env : RefreshEnv) (id : String) :
    exec (getVirtualMachine env id) s =
      let answer := env.getVirtualMachine id (answersFor id s.trace).length
      (abortOf answer, s.note [⟨s.mgr, .fetched id answer⟩]) := by
  rw [getVirtualMachine, exec_bind_ok (exec_get s), exec_bind_ok (exec_emit s _)]
  exact exec_liftOutcome _ _

/-- `FOREACH_EVENTHANDLER` makes the calls of `calls`, changes nothing else, and ends as
`callsOutcome` says. Induction on the remaining handlers. -/
theorem exec_forEachEventHandlerFrom (env : RefreshEnv) (call : Notification) (hs : List Ref) :
    ∀ (slot : Nat) (s : RefreshState),
      exec (forEachEventHandlerFrom env call slot hs) s =
        (abortOf (callsOutcome env (fetches s.trace).length call slot hs),
          s.note (calls env (fetches s.trace).length s.mgr call slot hs)) := by
  induction hs with
  | nil =>
    intro slot s
    simp [forEachEventHandlerFrom, callsOutcome, calls, abortOf, Except.mapError]
  | cons h rest ih =>
    intro slot s
    -- the call is logged before the handler runs, and is no fetch
    have hcount : (fetches (s.note [⟨s.mgr, .notified slot call⟩]).trace).length
        = (fetches s.trace).length := by
      simp [fetches, Entry.fetch?]
    have hcall : exec (callEventHandler env call slot) s =
        (abortOf (env.callback (fetches s.trace).length slot call),
          s.note [⟨s.mgr, .notified slot call⟩]) := by
      rw [callEventHandler, exec_bind_ok (exec_emit s _), exec_bind_ok (exec_get _), hcount]
      exact exec_liftOutcome _ _
    rw [forEachEventHandlerFrom, callsOutcome, calls]
    cases hcb : env.callback (fetches s.trace).length slot call with
    | ok u =>
      rw [hcb] at hcall
      rw [exec_bind_ok (a := ()) hcall, ih, hcount]
      simp
    | error ex =>
      rw [hcb] at hcall
      rw [exec_bind_error (e := .serverException ex) hcall]
      simp [abortOf, Except.mapError]

theorem exec_forEachEventHandler (env : RefreshEnv) (call : Notification) :
    exec (forEachEventHandler env call) s =
      (abortOf (callsOutcome env (fetches s.trace).length call 0 s.mgr.vmEventHandlers),
        s.note (calls env (fetches s.trace).length s.mgr call 0 s.mgr.vmEventHandlers)) := by
  rw [forEachEventHandler, exec_bind_ok (exec_get s)]
  exact exec_forEachEventHandlerFrom env call _ 0 s

/-! ## The turn of an id -/

/-- The trace of a turn: the fetch, then, if the answer writes something, the write and the
calls announcing it. `count` is the number of fetches made before. -/
def turnTrace (env : RefreshEnv) (count : Nat) (m : VMManager) (id : String) (answer : Answer) :
    List Entry :=
  ⟨m, .fetched id answer⟩ ::
    match m.writeFor id answer with
    | none => []
    | some w =>
      ⟨w.mgr, w.action⟩ :: calls env (count + 1) w.mgr w.call 0 w.mgr.vmEventHandlers

/-- Whether a turn ends without an exception. -/
def turnFlag (env : RefreshEnv) (count : Nat) (m : VMManager) (id : String) (answer : Answer) :
    Bool :=
  answer.isOk &&
    match m.writeFor id answer with
    | none => true
    | some w => (callsOutcome env (count + 1) w.call 0 w.mgr.vmEventHandlers).isOk

/-- The answer the next fetch of `id` receives. -/
def RefreshState.nextAnswer (env : RefreshEnv) (s : RefreshState) (id : String) : Answer :=
  env.getVirtualMachine id (answersFor id s.trace).length

/-- The turn of `id`: whether it ended without an exception, and the state after it. -/
def turn (env : RefreshEnv) (id : String) (s : RefreshState) : Bool × RefreshState :=
  let answer := s.nextAnswer env id
  let count := (fetches s.trace).length
  (turnFlag env count s.mgr id answer,
    ⟨s.mgr.absorb (id, answer), s.trace ++ turnTrace env count s.mgr id answer⟩)

theorem fetches_fetched_length (m : VMManager) (id : String) (answer : Answer) :
    (fetches (s.trace ++ [⟨m, .fetched id answer⟩])).length = (fetches s.trace).length + 1 := by
  simp [fetches, Entry.fetch?]

theorem fetches_write_length (t : List Entry) {m : VMManager} {id : String} {answer : Answer}
    {w : VMManager.Write} (h : m.writeFor id answer = some w) :
    fetches (t ++ [⟨w.mgr, w.action⟩]) = fetches t := by
  rcases VMManager.writeFor_cases h with ⟨vm, -, -, rfl⟩ | ⟨vm, r, old, -, -, -, -, rfl⟩ <;>
    simp [fetches, Entry.fetch?]

/-- A `try` block whose body ends as code outside the manager made it end: the exception, if
any, is caught, and only the flag tells. -/
theorem exec_catchServerException {body : VMProg Bool} {s s' : RefreshState}
    {o : Except NebuServerException Unit}
    (h : exec body s = (abortOf (o.map fun _ => true), s')) :
    exec (catchServerException body (pure false)) s = (.ok o.isOk, s') := by
  rw [catchServerException, exec_tryCatch, h]
  cases o <;> rfl

theorem exec_then_true {x : VMProg Unit} {s s' : RefreshState}
    {o : Except NebuServerException Unit} (h : exec x s = (abortOf o, s')) :
    exec (do x; pure true) s = (abortOf (o.map fun _ => true), s') := by
  cases o with
  | ok u => exact exec_bind_ok h
  | error ex => exact exec_bind_error h

theorem exec_announce (env : RefreshEnv) {m : VMManager} {id : String} {answer : Answer}
    {w : VMManager.Write} (h : m.writeFor id answer = some w) :
    exec (do emit w.action; forEachEventHandler env w.call) ⟨w.mgr, s.trace⟩ =
      (abortOf (callsOutcome env (fetches s.trace).length w.call 0 w.mgr.vmEventHandlers),
        ⟨w.mgr, s.trace ++ ⟨w.mgr, w.action⟩ ::
          calls env (fetches s.trace).length w.mgr w.call 0 w.mgr.vmEventHandlers⟩) := by
  rw [exec_bind_ok (exec_emit _ _), exec_forEachEventHandler]
  simp only [RefreshState.note_mgr, RefreshState.note_trace, fetches_write_length _ h]
  simp [RefreshState.note]

/-- `addVM` on a VM that was just allocated is the write of a new VM. -/
theorem exec_addVM (env : RefreshEnv) (vm : VirtualMachine) :
    exec (addVM (forEachEventHandler env) (some s.mgr.heap.next))
        ⟨{ s.mgr with heap := s.mgr.heap.alloc vm }, s.trace⟩ =
      exec (do
        emit (.recorded (some s.mgr.heap.next))
        forEachEventHandler env (.newVMAdded (some s.mgr.heap.next)))
        ⟨s.mgr.recordVM vm, s.trace⟩ := by
  have hderef : exec (deref (some s.mgr.heap.next))
      ⟨{ s.mgr with heap := s.mgr.heap.alloc vm }, s.trace⟩ = (.ok vm, _) :=
    exec_deref _ (Store.get?_alloc_next _ _)
  rw [addVM]
  exact (exec_bind_ok hderef).trans (exec_bind_ok rfl)

theorem exec_setStatus (r : Ref) (status : VMStatus) :
    exec (setStatus (some r) status) s = (.ok (), ⟨s.mgr.overwriteStatus r status, s.trace⟩) := rfl

/-- `updateVM` with another status is the write of that status. -/
theorem exec_updateVM (env : RefreshEnv) {r : Ref} {old vm : VirtualMachine}
    (hr : s.mgr.heap.get? r = some old) (hne : old.status ≠ vm.status) :
    exec (updateVM (forEachEventHandler env) (some r) vm) s =
      exec (do
        emit (.overwrote (some r) vm.status)
        forEachEventHandler env (.existingVMChanged (some r) vm.status.event))
        ⟨s.mgr.overwriteStatus r vm.status, s.trace⟩ := by
  -- the status is read back for the event
  have hread : exec (deref (some r)) (⟨s.mgr.overwriteStatus r vm.status, s.trace ++
      [⟨s.mgr.overwriteStatus r vm.status, .overwrote (some r) vm.status⟩]⟩ : RefreshState)
      = (.ok (old.setStatus vm.status), _) := exec_deref _ (by
    simp [VMManager.overwriteStatus, hr])
  have hderef : exec (deref (some r)) s = (.ok old, s) := exec_deref s hr
  rw [updateVM, exec_bind_ok hderef, if_pos hne]
  rw [exec_bind_ok (exec_setStatus _ _ _), exec_bind_ok (exec_emit _ _),
    exec_bind_ok (exec_emit _ _)]
  exact (exec_bind_ok hread).trans rfl

/-- The `try` block of `addNewVMs` on an unknown id is the turn of that id. -/
theorem exec_addNewVM (env : RefreshEnv) {id : String} (h : s.mgr.vmList.lookup id = none) :
    exec (addNewVM (forEachEventHandler env) env id) s =
      (.ok (turn env id s).1, (turn env id s).2) := by
  have hget := exec_getVirtualMachine s env id
  rw [turn]
  simp only [RefreshState.nextAnswer] at hget ⊢
  cases hans : env.getVirtualMachine id (answersFor id s.trace).length with
  | error ex =>
    rw [hans] at hget
    rw [addNewVM, exec_catchServerException (o := .error ex) (exec_bind_error hget)]
    simp [turnFlag, turnTrace, VMManager.absorb, VMManager.writeFor_error, RefreshState.note,
      Except.isOk, Except.toBool]
  | ok vm =>
    rw [hans] at hget
    have hw := VMManager.writeFor_unknown h vm
    let s₁ := s.note [⟨s.mgr, .fetched id (.ok vm)⟩]
    -- fetch and allocate, then all is up to `addVM`
    have hbody := (exec_addVM s₁ env vm).trans (exec_announce s₁ env hw)
    rw [addNewVM, exec_catchServerException
      ((exec_bind_ok hget).trans ((exec_bind_ok rfl).trans (exec_then_true hbody)))]
    simp [turnFlag, turnTrace, VMManager.absorb, hw, s₁, fetches_fetched_length, Except.isOk,
      Except.toBool]

theorem exec_vmListIndex {id : String} {p : Ptr} (h : s.mgr.vmList.lookup id = some p) :
    exec (vmListIndex id) s = (.ok p, s) := by
  rw [vmListIndex, exec_bind_ok (exec_get s), h]
  rfl

/-- The body of the loop of `updateVMs` on a known id is the turn of that id. -/
theorem exec_updateListedVM (env : RefreshEnv) {id : String} (hm : s.mgr.WellKept)
    (h : id ∈ s.mgr.vmList) :
    exec (updateListedVM (forEachEventHandler env) env id) s =
      (.ok (turn env id s).1, (turn env id s).2) := by
  obtain ⟨p, hp⟩ := Option.isSome_iff_exists.mp (AList.lookup_isSome.mpr h)
  obtain ⟨r, old, rfl, hr, -⟩ := hm.own id p hp
  have hget := exec_getVirtualMachine s env id
  rw [turn, updateListedVM, exec_bind_ok (exec_vmListIndex s hp)]
  simp only [RefreshState.nextAnswer] at hget ⊢
  cases hans : env.getVirtualMachine id (answersFor id s.trace).length with
  | error ex =>
    rw [hans] at hget
    rw [exec_catchServerException (o := .error ex) (exec_bind_error hget)]
    simp [turnFlag, turnTrace, VMManager.absorb, VMManager.writeFor_error, RefreshState.note,
      Except.isOk, Except.toBool]
  | ok vm =>
    rw [hans] at hget
    have hw := VMManager.writeFor_known hp hr vm
    let s₁ := s.note [⟨s.mgr, .fetched id (.ok vm)⟩]
    have hderef : exec (deref (some r)) s₁ = (.ok old, s₁) := exec_deref s₁ hr
    -- the loop compares the statuses, and `updateVM` compares them again
    by_cases hne : old.status ≠ vm.status
    · rw [if_pos hne] at hw
      have hbody := (exec_updateVM s₁ env hr hne).trans (exec_announce s₁ env hw)
      have htry : exec (do
            let updatedVM ← getVirtualMachine env id
            if (← deref (some r)).status ≠ updatedVM.status then
              updateVM (forEachEventHandler env) (some r) updatedVM
            pure true) s =
          exec (do updateVM (forEachEventHandler env) (some r) vm; pure true) s₁ := by
        rw [exec_bind_ok (a := vm) hget, exec_bind_ok hderef, if_pos hne]
      rw [exec_catchServerException (htry.trans (exec_then_true hbody))]
      simp [turnFlag, turnTrace, VMManager.absorb, hw, s₁, fetches_fetched_length, Except.isOk,
        Except.toBool]
    · rw [if_neg hne] at hw
      have htry : exec (do
            let updatedVM ← getVirtualMachine env id
            if (← deref (some r)).status ≠ updatedVM.status then
              updateVM (forEachEventHandler env) (some r) updatedVM
            pure true) s = (abortOf ((Except.ok ()).map fun _ => true), s₁) := by
        rw [exec_bind_ok (a := vm) hget, exec_bind_ok hderef, if_neg hne]
        rfl
      rw [exec_catchServerException htry]
      simp [turnFlag, turnTrace, VMManager.absorb, hw, s₁, RefreshState.note, Except.isOk,
        Except.toBool]

end Exec

end NebuApp
