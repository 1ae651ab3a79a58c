import NebuApp.VM.Steps

/-!
# The event stream of a handler

What a handler is told is a stream of changes of the tracked VMs. `Entry.change?` reads one
callback as a change of the table from UUID to the tracked object and its status, and
`step_mirror` shows that each step tells every handler exactly what it does to that table.
-/

namespace NebuApp

open Mirror

/-- The status a `VMEvent` names. -/
def VMEvent.status : VMEvent → VMStatus
  | .poweredOn => .on
  | .poweredOff => .off
  | .unknown => .unknown

@[simp] theorem VMStatus.status_event (s : VMStatus) : s.event.status = s := by cases s <;> rfl

/-! ## The table a handler watches -/

namespace VMManager

/-- The tracked objects and their statuses, by UUID. -/
def view (m : VMManager) (u : String) : Option (Ref × VMStatus) :=
  (m.getVM u).bind fun r => (m.heap.get? r).map fun vm => (r, vm.status)

/-- The uuid → status contents of `vmList`. -/
def statuses (m : VMManager) (u : String) : Option VMStatus :=
  (m.record? u).map (·.status)

theorem statuses_eq_view (m : VMManager) : m.statuses = fun u => (m.view u).map Prod.snd := by
  funext u
  unfold statuses record? view
  cases m.getVM u with
  | none => rfl
  | some r => simp [Store.deref?, Function.comp_def]

theorem statuses_eraseVM (m : VMManager) (u u' : String) :
    (m.eraseVM u').statuses u = if u = u' then none else m.statuses u := by
  rw [statuses, record?, getVM_eraseVM]
  split <;> rfl

theorem WellKept.getVM_spec {m : VMManager} (hm : m.WellKept) {u : String} {r : Ref}
    (h : m.getVM u = some r) :
    ∃ vm, m.heap.get? r = some vm ∧ vm.uuid = u ∧ m.view u = some (r, vm.status) := by
  obtain ⟨r', vm, hr', hvm, hu⟩ := hm.own u (some r) (lookup_eq_some_iff.mpr h)
  cases hr'
  exact ⟨vm, hvm, hu, by simp [view, h, hvm]⟩

theorem WellKept.view_eq_none_iff {m : VMManager} (hm : m.WellKept) {u : String} :
    m.view u = none ↔ m.getVM u = none := by
  cases h : m.getVM u with
  | none => simp [view, h]
  | some r =>
    obtain ⟨vm, -, -, hview⟩ := hm.getVM_spec h
    simp [hview]

theorem WellKept.view_recordVM {m : VMManager} (hm : m.WellKept) (vm : VirtualMachine) :
    (m.recordVM vm).view = Function.update m.view vm.uuid (some (m.heap.next, vm.status)) := by
  funext u
  rw [Function.update_apply, view, getVM_recordVM]
  split
  next => simp [VMManager.recordVM]
  next =>
    rw [view]
    cases hget : m.getVM u with
    | none => rfl
    | some r =>
      obtain ⟨old, hold, -⟩ := hm.getVM_spec hget
      simp [VMManager.recordVM, hold, Store.get?_alloc_of_some hold]

/-- No two keys point at the same object: it has one UUID. -/
theorem WellKept.getVM_inj {m : VMManager} (hm : m.WellKept) {u u' : String} {r : Ref}
    (h : m.getVM u = some r) (h' : m.getVM u' = some r) : u = u' := by
  obtain ⟨vm, hvm, hu, -⟩ := hm.getVM_spec h
  obtain ⟨vm', hvm', hu', -⟩ := hm.getVM_spec h'
  rw [hvm] at hvm'
  cases hvm'
  exact hu.symm.trans hu'

/-- Overwriting the status of a tracked VM sets its key and, as no other key points at the same
object, nothing else. -/
theorem WellKept.view_overwriteStatus {m : VMManager} (hm : m.WellKept) {u : String} {r : Ref}
    (hvm : m.getVM u = some r) (st : VMStatus) :
    (m.overwriteStatus r st).view = Function.update m.view u (some (r, st)) := by
  obtain ⟨old, hold, -, -⟩ := hm.getVM_spec hvm
  funext u'
  rw [Function.update_apply, view, getVM_overwriteStatus]
  split
  next h =>
    subst h
    simp [VMManager.overwriteStatus, hvm, hold, VirtualMachine.setStatus]
  next h =>
    rw [view]
    cases hget : m.getVM u' with
    | none => rfl
    | some r' =>
      have hne : r ≠ r' := by
        rintro rfl
        exact h (hm.getVM_inj hget hvm)
      simp [VMManager.overwriteStatus, Store.get?_modify_ne hne]

theorem view_eraseVM (m : VMManager) (u : String) :
    (m.eraseVM u).view = Function.update m.view u none := by
  funext u'
  rw [Function.update_apply, view, getVM_eraseVM]
  split <;> rfl

end VMManager

/-! ## Callbacks as changes -/

/-- The change a notification tells, given the objects at the time of the call. -/
def Notification.change? (m : VMManager) (call : Notification) :
    Option (Change String (Ref × VMStatus)) :=
  call.vm.bind fun r => (m.heap.get? r).map fun vm =>
    match call with
    | .newVMAdded _ => .added vm.uuid (r, vm.status)
    | .existingVMChanged _ event => .changed vm.uuid (r, event.status)
    | .oldVMRemoved _ => .removed vm.uuid (r, vm.status)

/-- The change a trace entry tells the handler in `slot`, if it is a call of that handler. -/
def Entry.change? (slot : Nat) (e : Entry) : Option (Change String (Ref × VMStatus)) :=
  match e.action with
  | .notified slot' call => if slot' = slot then call.change? e.mgr else none
  | _ => none

/-- The changes a trace tells the handler in `slot`. -/
def changesTo (slot : Nat) (trace : List Entry) : List (Change String (Ref × VMStatus)) :=
  trace.filterMap (Entry.change? slot)

/-- The events a trace delivers to the handler in `slot`: a VM added with its status at the call,
a VM whose status changed to the one its `VMEvent` names, a VM removed. -/
def eventsTo (slot : Nat) (trace : List Entry) : List (Change String VMStatus) :=
  (changesTo slot trace).map (Change.map Prod.snd)

theorem changesTo_append (slot : Nat) (t t' : List Entry) :
    changesTo slot (t ++ t') = changesTo slot t ++ changesTo slot t' :=
  List.filterMap_append

/-- A notification of all handlers tells each of them its one change. -/
theorem changesTo_allCalls {m : VMManager} {slot : Nat} (h : slot < m.vmEventHandlers.length)
    (call : Notification) : changesTo slot (allCalls m call) = (call.change? m).toList := by
  -- among the calls numbered below `n`, at most the one numbered `slot` is read
  have key : ∀ n, (List.range n).filterMap
      (fun i => if i = slot then call.change? m else none)
      = if slot < n then (call.change? m).toList else [] := by
    intro n
    induction n with
    | zero => rfl
    | succ n ih =>
      rw [List.range_succ, List.filterMap_append, ih]
      by_cases hn : n = slot
      · subst hn
        cases call.change? m <;> simp
      · have hiff : slot < n + 1 ↔ slot < n := by omega
        simp [hn, hiff]
  rw [changesTo, allCalls, List.filterMap_map]
  exact (key _).trans (if_pos h)

theorem changesTo_allCalls_of_le {m : VMManager} {slot : Nat}
    (h : m.vmEventHandlers.length ≤ slot) (call : Notification) :
    changesTo slot (allCalls m call) = [] := by
  rw [changesTo, List.filterMap_eq_nil_iff]
  intro e he
  obtain ⟨slot', hlt, rfl⟩ := mem_allCalls.mp he
  simp only [Entry.change?, if_neg (show ¬ slot' = slot by omega)]

/-! ## The mirror -/

/-- A change of status: the same object, another status. -/
def StatusChange (old new : Ref × VMStatus) : Prop := old.1 = new.1 ∧ old.2 ≠ new.2

section Told

variable {m : VMManager} {slot : Nat} (hslot : slot < m.vmEventHandlers.length)
include hslot

theorem changesTo_recorded (vm : VirtualMachine) :
    changesTo slot (⟨m.recordVM vm, .recorded (some m.heap.next)⟩ ::
        allCalls (m.recordVM vm) (.newVMAdded (some m.heap.next)))
      = [.added vm.uuid (m.heap.next, vm.status)] := by
  refine (changesTo_allCalls (m := m.recordVM vm) hslot _).trans ?_
  simp [Notification.change?, Notification.vm, VMManager.recordVM]

theorem changesTo_overwrote {r : Ref} {old : VirtualMachine} (hold : m.heap.get? r = some old)
    (st : VMStatus) :
    changesTo slot (⟨m.overwriteStatus r st, .overwrote (some r) st⟩ ::
        allCalls (m.overwriteStatus r st) (.existingVMChanged (some r) st.event))
      = [.changed old.uuid (r, st)] := by
  refine (changesTo_allCalls (m := m.overwriteStatus r st) hslot _).trans ?_
  simp [Notification.change?, Notification.vm, VMManager.overwriteStatus, hold,
    VirtualMachine.setStatus]

theorem changesTo_removed {r : Ref} {old : VirtualMachine} (hold : m.heap.get? r = some old)
    (u : String) :
    changesTo slot (allCalls (m.eraseVM u) (.oldVMRemoved (some r)))
      = [.removed old.uuid (r, old.status)] := by
  refine (changesTo_allCalls (m := m.eraseVM u) hslot _).trans ?_
  simp [Notification.change?, Notification.vm, VMManager.eraseVM, hold]

end Told

/-- **Each step tells what it does.** -/
theorem step_mirror {m m' : VMManager} {t : List Entry} (h : Step m t m') (hm : m.WellKept)
    {slot : Nat} (hslot : slot < m.vmEventHandlers.length) :
    replay m.view (changesTo slot t) = m'.view ∧
      WellFormed StatusChange m.view (changesTo slot t) := by
  cases h with
  | fetched id answer => exact ⟨rfl, trivial⟩
  | registered h => exact ⟨rfl, trivial⟩
  | @recorded vm hnew =>
    rw [changesTo_recorded hslot, hm.view_recordVM]
    exact ⟨rfl, hm.view_eq_none_iff.mpr hnew, trivial⟩
  | @overwrote u r old st hvm hold hne =>
    obtain ⟨old', hold', hown, hview⟩ := hm.getVM_spec hvm
    obtain rfl : old = old' := Option.some.inj (hold.symm.trans hold')
    rw [changesTo_overwrote hslot hold, hown, hm.view_overwriteStatus hvm]
    exact ⟨rfl, ⟨_, hview, rfl, hne⟩, trivial⟩
  | @removed u r hvm =>
    obtain ⟨old, hold, hown, hview⟩ := hm.getVM_spec hvm
    rw [changesTo_removed hslot hold, hown, VMManager.view_eraseVM]
    exact ⟨rfl, hview, trivial⟩

theorem Steps.handlers_grow {m m' : VMManager} {t : List Entry} (h : Steps m t m') :
    m.vmEventHandlers <+: m'.vmEventHandlers := by
  induction h with
  | refl => exact List.prefix_rfl
  | tail _ hstep ih =>
    refine ih.trans ?_
    cases hstep with
    | registered h => exact List.prefix_append _ _
    | _ => exact List.prefix_rfl

/-- **The mirror over a run.** A handler registered before the run is told what the run does to
the tracked VMs, and every change it is told of fits the changes before it. -/
theorem steps_mirror {m m' : VMManager} {t : List Entry} (h : Steps m t m') (hm : m.WellKept)
    {slot : Nat} (hslot : slot < m.vmEventHandlers.length) :
    replay m.view (changesTo slot t) = m'.view ∧
      WellFormed StatusChange m.view (changesTo slot t) := by
  induction h with
  | refl => exact ⟨rfl, trivial⟩
  | tail hs hstep ih =>
    obtain ⟨hreplay, hwf⟩ := ih
    have hslot' := Nat.lt_of_lt_of_le hslot hs.handlers_grow.length_le
    obtain ⟨hreplay', hwf'⟩ := step_mirror hstep (hs.wellKept hm) hslot'
    rw [changesTo_append, replay_append, wellFormed_append, hreplay]
    exact ⟨hreplay', hwf, hwf'⟩

/-- A run that ends with `slot` or fewer handlers has told the handler in `slot` nothing. -/
theorem changesTo_eq_nil_of_steps {m m' : VMManager} {t : List Entry} (h : Steps m t m')
    {slot : Nat} (hslot : m'.vmEventHandlers.length ≤ slot) : changesTo slot t = [] := by
  induction h with
  | refl => rfl
  | tail _ hstep ih =>
    rw [changesTo_append, ih (Nat.le_trans (Steps.single hstep).handlers_grow.length_le hslot),
      List.nil_append]
    cases hstep with
    | fetched id answer => rfl
    | registered h => rfl
    | recorded hnew => exact changesTo_allCalls_of_le hslot _
    | overwrote hvm hold hne => exact changesTo_allCalls_of_le hslot _
    | removed hvm => exact changesTo_allCalls_of_le hslot _

theorem runOps_steps {ops : List Op} (hret : ∀ op ∈ ops, op.Meets RefreshEnv.HandlersReturn)
    (hown : ∀ op ∈ ops, op.Meets RefreshEnv.HonestUUIDs) :
    Steps .init (runOps ops).trace (runOps ops).mgr := by
  obtain ⟨t, hsteps, htrace⟩ :=
    foldl_perform_steps (s := ⟨.init, []⟩) VMManager.wellKept_init hret hown
  rw [List.nil_append] at htrace
  rw [runOps, htrace]
  exact hsteps

/-- **The event stream mirrors the VM list.** For a handler registered anywhere in a run, the
events it has received so far, replayed over the statuses at its registration, are the statuses
now; and the events about each UUID are well formed: a VM is added only while untracked, changed
only while tracked and only to another status, and removed only while tracked. -/
theorem events_mirror_vmList (before after : List Op) (eventHandler : Ref)
    (hret : ∀ op ∈ before ++ after, op.Meets RefreshEnv.HandlersReturn)
    (hown : ∀ op ∈ before ++ after, op.Meets RefreshEnv.HonestUUIDs) :
    let start := (runOps before).mgr
    let final := runOps (before ++ .registerVMEventHandler eventHandler :: after)
    let slot := start.vmEventHandlers.length
    let events := eventsTo slot final.trace
    final.mgr.vmEventHandlers[slot]? = some eventHandler ∧
      replay start.statuses events = final.mgr.statuses ∧
      ∀ u, WellFormed (· ≠ ·) start.statuses (events.filter fun c => c.key = u) := by
  intro start final slot events
  have hpre := runOps_steps (fun op h => hret op (List.mem_append_left _ h))
    fun op h => hown op (List.mem_append_left _ h)
  have hstart : start.WellKept := hpre.wellKept VMManager.wellKept_init
  -- the run after the registration
  obtain ⟨t, hsteps, htrace⟩ := foldl_perform_steps
    (s := ⟨start.registerVMEventHandler eventHandler, (runOps before).trace⟩)
    (hstart.registerVMEventHandler eventHandler)
    (fun op h => hret op (List.mem_append_right _ h))
    fun op h => hown op (List.mem_append_right _ h)
  have hfinal : final = after.foldl Op.perform
      ⟨start.registerVMEventHandler eventHandler, (runOps before).trace⟩ := by
    simp only [final, runOps, List.foldl_append, List.foldl_cons]
    rfl
  rw [← hfinal] at hsteps htrace
  have hslot : slot < (start.registerVMEventHandler eventHandler).vmEventHandlers.length := by
    simp [VMManager.registerVMEventHandler, slot]
  obtain ⟨hreplay, hwf⟩ := steps_mirror hsteps (hstart.registerVMEventHandler eventHandler)
    hslot
  -- nothing was delivered to the slot before it existed
  have hevents : changesTo slot final.trace = changesTo slot t := by
    rw [htrace, changesTo_append, changesTo_eq_nil_of_steps hpre (Nat.le_refl _), List.nil_append]
  have hview : (start.registerVMEventHandler eventHandler).view = start.view := rfl
  rw [hview] at hreplay hwf
  refine ⟨?_, ?_, fun u => ?_⟩
  · obtain ⟨rest, hrest⟩ := hsteps.handlers_grow
    rw [← hrest]
    simp [VMManager.registerVMEventHandler, slot]
  · rw [VMManager.statuses_eq_view, VMManager.statuses_eq_view, ← hreplay, ← replay_map]
    simp only [events, eventsTo, hevents]
  · refine WellFormed.filter_key rfl ?_
    rw [VMManager.statuses_eq_view]
    simp only [events, eventsTo, hevents]
    exact hwf.map fun a b h => h.2

/-- A handler registered after a first refresh, followed by a refresh that changes, adds and
removes a VM. -/
theorem events_mirror_vmList_uniform :
    let before : List Op := [.refreshVMList (.uniform ["vmA", "vmB"] .off)]
    let start := (runOps before).mgr
    let final := runOps (before ++ .registerVMEventHandler 7 ::
      [.refreshVMList (.uniform ["vmB", "vmC", "vmB"] .on)])
    let events := eventsTo start.vmEventHandlers.length final.trace
    replay start.statuses events = final.mgr.statuses ∧
      ∀ u, WellFormed (· ≠ ·) start.statuses (events.filter fun c => c.key = u) := by
  have h := events_mirror_vmList [.refreshVMList (.uniform ["vmA", "vmB"] .off)]
    [.refreshVMList (.uniform ["vmB", "vmC", "vmB"] .on)] 7
    (by simp [Op.Meets, RefreshEnv.uniform_handlersReturn])
    (by simp [Op.Meets, RefreshEnv.uniform_honestUUIDs])
  exact h.2

end NebuApp
