import NebuApp.VM.Reconciliation
import NebuApp.Daemon.Model
import Mathlib.Data.List.TakeWhile

/-!
# One object for a VM's tracked life

What becomes of the object tracked under one UUID is decided step by step: `step_at` says what a
step can do to it and whom it tells, `step_status` what it leaves as its last recorded status, and
`step_retired` that an object no UUID points at is never written again. A notification in the
trace of a run is located in the step that gave it by `Steps.split`, and what follows that step is
a run of its own.
-/

namespace NebuApp

/-! ## Notifications about a UUID -/

/-- The UUID a trace entry notifies a handler about, and the notification. -/
def Entry.notice? (e : Entry) : Option (String × Notification) :=
  match e.action with
  | .notified _ call => (e.mgr.heap.deref? call.vm).map fun vm => (vm.uuid, call)
  | _ => none

/-- The entry tells a handler that `u` was removed. -/
def Entry.removes (u : String) (e : Entry) : Bool :=
  match e.notice? with
  | some (u', .oldVMRemoved _) => u' = u
  | _ => false

/-- The entry tells a handler that `u` was added, with an object other than `p`. -/
def Entry.addsOther (u : String) (p : Ptr) (e : Entry) : Bool :=
  match e.notice? with
  | some (u', .newVMAdded p') => u' = u ∧ p' ≠ p
  | _ => false

/-- An entry that tells of `u` only its addition as `p` removes nothing and adds nothing else. -/
theorem Entry.removes_of_added {u : String} {p : Ptr} {x : Entry}
    (h : ∀ call, x.notice? = some (u, call) → call = .newVMAdded p) : x.removes u = false := by
  unfold removes
  split
  next u' q hnotice =>
    refine decide_eq_false fun hu => ?_
    subst hu
    cases h _ hnotice
  next => rfl

theorem Entry.addsOther_of_added {u : String} {p : Ptr} {x : Entry}
    (h : ∀ call, x.notice? = some (u, call) → call = .newVMAdded p) : x.addsOther u p = false := by
  unfold addsOther
  split
  next u' q hnotice =>
    refine decide_eq_false fun ⟨hu, hne⟩ => ?_
    subst hu
    cases h _ hnotice
    exact hne rfl
  next => rfl

theorem notice?_of_mem_allCalls {m : VMManager} {call : Notification} {r : Ref}
    {vm : VirtualMachine} (hcall : call.vm = some r) (hr : m.heap.get? r = some vm) {x : Entry}
    (hx : x ∈ allCalls m call) : x.notice? = some (vm.uuid, call) := by
  obtain ⟨slot, -, rfl⟩ := mem_allCalls.mp hx
  simp [Entry.notice?, hcall, hr]

theorem exists_mem_allCalls {m : VMManager} (h : 0 < m.vmEventHandlers.length)
    (call : Notification) : ∃ x, x ∈ allCalls m call :=
  ⟨_, mem_allCalls.mpr ⟨0, h, rfl⟩⟩

/-! ## What a step does to the object under a UUID -/

/-- What a step can do to the object tracked under `u`, and what it tells of `u`. -/
inductive StepAt (u : String) (m : VMManager) (t : List Entry) (m' : VMManager) : Prop where
  | kept (hget : m'.getVM u = m.getVM u)
      (hnotice : ∀ x ∈ t, ∀ call, x.notice? = some (u, call) →
        ∃ r event, m.getVM u = some r ∧ call = .existingVMChanged (some r) event)
  | added (hnone : m.getVM u = none) (hget : m'.getVM u = some m.heap.next)
      (hnotice : ∀ x ∈ t, ∀ call, x.notice? = some (u, call) →
        call = .newVMAdded (some m.heap.next))
      (htold : 0 < m.vmEventHandlers.length →
        ∃ x ∈ t, x.notice? = some (u, .newVMAdded (some m.heap.next)))
  | removed (r : Ref) (hsome : m.getVM u = some r) (hget : m'.getVM u = none)
      (hnotice : ∀ x ∈ t, x.notice? = some (u, .oldVMRemoved (some r)))
      (htold : 0 < m.vmEventHandlers.length → t ≠ [])

/-- **A step, seen from one UUID.** -/
theorem step_at {m m' : VMManager} {t : List Entry} (h : Step m t m') (hm : m.WellKept)
    (u : String) : StepAt u m t m' := by
  cases h with
  | fetched id answer =>
    refine .kept rfl fun x hx call hcall => ?_
    rw [List.mem_singleton.mp hx] at hcall
    cases hcall
  | registered h => exact .kept rfl fun x hx => by cases hx
  | @recorded vm hnew =>
    have hnotice : ∀ x ∈ allCalls (m.recordVM vm) (.newVMAdded (some m.heap.next)),
        x.notice? = some (vm.uuid, .newVMAdded (some m.heap.next)) := fun x hx =>
      notice?_of_mem_allCalls rfl (Store.get?_alloc_next m.heap vm) hx
    by_cases hu : vm.uuid = u
    · subst hu
      refine .added hnew (by rw [VMManager.getVM_recordVM, if_pos rfl]) ?_ fun hlen => ?_
      · intro x hx call hcall
        rcases List.mem_cons.mp hx with rfl | hx
        · cases hcall
        · rw [hnotice x hx] at hcall
          cases hcall
          rfl
      · obtain ⟨x, hx⟩ := exists_mem_allCalls (m := m.recordVM vm) hlen _
        exact ⟨x, List.mem_cons_of_mem _ hx, hnotice x hx⟩
    · refine .kept (by rw [VMManager.getVM_recordVM, if_neg (Ne.symm hu)]) ?_
      intro x hx call hcall
      rcases List.mem_cons.mp hx with rfl | hx
      · cases hcall
      · rw [hnotice x hx] at hcall
        cases hcall
        exact absurd rfl hu
  | @overwrote u' r old st hvm hold hne =>
    obtain ⟨old', hold', huuid, -⟩ := hm.getVM_spec hvm
    obtain rfl : old = old' := Option.some.inj (hold.symm.trans hold')
    have hr : (m.overwriteStatus r st).heap.get? r = some (old.setStatus st) := by
      simp [VMManager.overwriteStatus, hold]
    refine .kept (VMManager.getVM_overwriteStatus m r st u) fun x hx call hcall => ?_
    rcases List.mem_cons.mp hx with rfl | hx
    · cases hcall
    · rw [notice?_of_mem_allCalls rfl hr hx] at hcall
      cases hcall
      -- the written object keeps its UUID, which is the key it is tracked under
      have hkey : (old.setStatus st).uuid = u' := huuid
      exact ⟨r, st.event, by rw [hkey]; exact hvm, rfl⟩
  | @removed u' r hvm =>
    obtain ⟨old, hold, huuid, -⟩ := hm.getVM_spec hvm
    have hnotice : ∀ x ∈ allCalls (m.eraseVM u') (.oldVMRemoved (some r)),
        x.notice? = some (u', .oldVMRemoved (some r)) := by
      intro x hx
      rw [notice?_of_mem_allCalls (m := m.eraseVM u') rfl hold hx, huuid]
    by_cases hu : u = u'
    · subst hu
      refine .removed r hvm (by rw [VMManager.getVM_eraseVM, if_pos rfl]) hnotice fun hlen => ?_
      obtain ⟨x, hx⟩ := exists_mem_allCalls (m := m.eraseVM u) hlen (.oldVMRemoved (some r))
      exact List.ne_nil_of_mem hx
    · refine .kept (by rw [VMManager.getVM_eraseVM, if_neg hu]) fun x hx call hcall => ?_
      rw [hnotice x hx] at hcall
      cases hcall
      exact absurd rfl hu

/-- The entries of a step show the manager as the step leaves it, and there is a notice only if
there is a handler to give it to. -/
theorem Step.entry_mgr {m m' : VMManager} {t : List Entry} (h : Step m t m') {x : Entry}
    (hx : x ∈ t) : x.mgr = m' ∧ (x.notice? ≠ none → 0 < m'.vmEventHandlers.length) := by
  have hcalls : ∀ {m : VMManager} {call : Notification} {x : Entry}, x ∈ allCalls m call →
      x.mgr = m ∧ (x.notice? ≠ none → 0 < m.vmEventHandlers.length) := by
    intro m call x hx
    obtain ⟨slot, hslot, rfl⟩ := mem_allCalls.mp hx
    exact ⟨rfl, fun _ => by omega⟩
  cases h with
  | fetched id answer =>
    rw [List.mem_singleton.mp hx]
    exact ⟨rfl, fun h => absurd rfl h⟩
  | registered h => cases hx
  | recorded hnew =>
    rcases List.mem_cons.mp hx with rfl | hx
    · exact ⟨rfl, fun h => absurd rfl h⟩
    · exact hcalls hx
  | overwrote hvm hold hne =>
    rcases List.mem_cons.mp hx with rfl | hx
    · exact ⟨rfl, fun h => absurd rfl h⟩
    · exact hcalls hx
  | removed hvm => exact hcalls hx

theorem Steps.entry_wellKept {m m' : VMManager} {t : List Entry} (h : Steps m t m')
    (hm : m.WellKept) {x : Entry} (hx : x ∈ t) : x.mgr.WellKept := by
  induction h with
  | refl => cases hx
  | tail hs hstep ih =>
    rcases List.mem_append.mp hx with hx | hx
    · exact ih hx
    · rw [(hstep.entry_mgr hx).1]
      exact hstep.wellKept (hs.wellKept hm)

/-- A run cut at an entry: the run before the step the entry is from, that step, the run after. -/
theorem Steps.split {m m' : VMManager} {t pre rest : List Entry} {e : Entry} (h : Steps m t m')
    (ht : t = pre ++ e :: rest) :
    ∃ m₁ m₂ t₁ s s' t₂, Steps m t₁ m₁ ∧ Step m₁ (s ++ e :: s') m₂ ∧ Steps m₂ t₂ m' ∧
      pre = t₁ ++ s ∧ rest = s' ++ t₂ := by
  induction h generalizing rest with
  | refl => simp at ht
  | @tail m' m'' t t' hs hstep ih =>
    rcases List.append_eq_append_iff.mp ht with ⟨s, rfl, rfl⟩ | ⟨b, rfl, hb⟩
    · exact ⟨m', m'', t, s, rest, [], hs, hstep, .refl _, rfl, by simp⟩
    · cases b with
      | nil =>
        rw [List.nil_append] at hb
        exact ⟨m', m'', pre, [], rest, [], by simpa using hs, by simpa [hb] using hstep, .refl _,
          by simp, by simp⟩
      | cons e' b =>
        rw [List.cons_append, List.cons.injEq] at hb
        obtain ⟨rfl, rfl⟩ := hb
        obtain ⟨m₁, m₂, t₁, s, s', t₂, h₁, h₂, h₃, rfl, rfl⟩ := ih rfl
        exact ⟨m₁, m₂, t₁, s, s', t₂ ++ t', h₁, h₂, .tail h₃ hstep, rfl, by simp⟩

/-! ## The life of a tracked object -/

/-- Reading on over an append: either the first list is read to its end, or the second is not
reached. -/
theorem takeWhile_append_cases {α : Type} (p : α → Bool) (l l' : List α) :
    (l.takeWhile p = l ∧ (l ++ l').takeWhile p = l ++ l'.takeWhile p) ∨
      ((l ++ l').takeWhile p = l.takeWhile p ∧ (l ++ l').takeWhile p ≠ l ++ l') := by
  rw [List.takeWhile_append]
  split
  next hlen => exact Or.inl ⟨(List.takeWhile_sublist p).eq_of_length hlen, rfl⟩
  next hlen =>
    refine Or.inr ⟨rfl, fun heq => hlen ?_⟩
    have hle := (List.takeWhile_sublist (l := l) p).length_le
    have := congrArg List.length heq
    rw [List.length_append] at this
    omega

section Life

variable {m m' : VMManager} {t : List Entry} (h : Steps m t m') (hm : m.WellKept) {u : String}
  {r : Ref} (hvm : m.getVM u = some r) (hlen : 0 < m.vmEventHandlers.length)
include h hm hvm hlen

/-- Until a handler is told of the removal of `u`, its object is the one it was. -/
theorem steps_tracked :
    (∀ x ∈ t.takeWhile (!Entry.removes u ·), x.mgr.getVM u = some r) ∧
      (t.takeWhile (!Entry.removes u ·) = t → m'.getVM u = some r) := by
  induction h with
  | refl => exact ⟨fun x hx => (by cases hx), fun _ => hvm⟩
  | @tail m' m'' t t' hs hstep ih =>
    obtain ⟨hbefore, hafter⟩ := ih
    rcases takeWhile_append_cases (!Entry.removes u ·) t t' with ⟨hall, heq⟩ | ⟨heq, hne⟩
    · rw [heq, List.append_cancel_left_eq]
      have hlen' := Nat.lt_of_lt_of_le hlen hs.handlers_grow.length_le
      have hget := hafter hall
      rw [hall] at hbefore
      cases step_at hstep (hs.wellKept hm) u with
      | kept hkept hnotice =>
        refine ⟨fun x hx => ?_, fun _ => hkept.trans hget⟩
        rcases List.mem_append.mp hx with hx | hx
        · exact hbefore x hx
        · rw [(hstep.entry_mgr (List.takeWhile_subset _ hx)).1, hkept, hget]
      | added hnone _ _ _ => rw [hnone] at hget; cases hget
      | removed r' hsome hnone hnotice htold =>
        -- the step begins with the removal, unless nobody is there to be told
        obtain ⟨x, t'', rfl⟩ := List.exists_cons_of_ne_nil (htold hlen')
        have hremoves : x.removes u = true := by
          rw [Entry.removes, hnotice x List.mem_cons_self]
          exact decide_eq_true rfl
        rw [List.takeWhile_cons_of_neg (by simp [hremoves]), List.append_nil]
        exact ⟨hbefore, fun heq => by cases heq⟩
    · rw [heq]
      exact ⟨hbefore, fun h => absurd (heq.trans h) hne⟩

/-- Until a handler is told of another object under `u`, whatever is told of `u` carries the
object it had. -/
theorem steps_carried :
    (∀ x ∈ t.takeWhile (!Entry.addsOther u (some r) ·), ∀ call, x.notice? = some (u, call) →
        call.vm = some r) ∧
      (t.takeWhile (!Entry.addsOther u (some r) ·) = t →
        m'.getVM u = some r ∨ m'.getVM u = none) := by
  induction h with
  | refl => exact ⟨fun x hx => (by cases hx), fun _ => Or.inl hvm⟩
  | @tail m' m'' t t' hs hstep ih =>
    obtain ⟨hbefore, hafter⟩ := ih
    rcases takeWhile_append_cases (!Entry.addsOther u (some r) ·) t t' with
      ⟨hall, heq⟩ | ⟨heq, hne⟩
    · rw [heq, List.append_cancel_left_eq]
      have hlen' := Nat.lt_of_lt_of_le hlen hs.handlers_grow.length_le
      have hget := hafter hall
      rw [hall] at hbefore
      -- a notice of the step that is no announcement of another object carries `r`
      suffices hstep' : (∀ x ∈ t', ∀ call, x.notice? = some (u, call) →
            x.addsOther u (some r) = false → call.vm = some r) ∧
          ((∀ x ∈ t', x.addsOther u (some r) = false) →
            m''.getVM u = some r ∨ m''.getVM u = none) by
        refine ⟨fun x hx call hcall => ?_, fun heq => hstep'.2 fun x hx => ?_⟩
        · rcases List.mem_append.mp hx with hx | hx
          · exact hbefore x hx call hcall
          · exact hstep'.1 x (List.takeWhile_subset _ hx) call hcall
              (by simpa using List.mem_takeWhile_imp hx)
        · simpa using List.takeWhile_eq_self_iff.mp heq x hx
      cases step_at hstep (hs.wellKept hm) u with
      | kept hkept hnotice =>
        refine ⟨fun x hx call hcall _ => ?_, fun _ => by rw [hkept]; exact hget⟩
        obtain ⟨r', event, hr', rfl⟩ := hnotice x hx call hcall
        rcases hget with hget | hget
        · exact hr'.symm.trans hget
        · rw [hget] at hr'
          cases hr'
      | added hnone hsome hnotice htold =>
        have hsame : ∀ x : Entry, x.notice? = some (u, .newVMAdded (some m'.heap.next)) →
            x.addsOther u (some r) = false → some m'.heap.next = some r := by
          intro x hx hother
          simpa [Entry.addsOther, hx] using hother
        refine ⟨fun x hx call hcall hother => ?_, fun hother => ?_⟩
        · obtain rfl := hnotice x hx call hcall
          exact hsame x hcall hother
        · obtain ⟨x, hx, hcall⟩ := htold hlen'
          exact Or.inl (hsome.trans (hsame x hcall (hother x hx)))
      | removed r' hsome hnone hnotice _ =>
        refine ⟨fun x hx call hcall _ => ?_, fun _ => Or.inr hnone⟩
        rw [hnotice x hx] at hcall
        cases hcall
        rcases hget with hget | hget
        · exact hsome.symm.trans hget
        · rw [hget] at hsome
          cases hsome
    · rw [heq]
      exact ⟨hbefore, fun h => absurd (heq.trans h) hne⟩

end Life

/-! ## The status last recorded -/

/-- The status a trace entry records for `u`, if it is a write to the VM of `u`. -/
def Entry.statusRecorded? (u : String) (e : Entry) : Option VMStatus :=
  match e.action with
  | .recorded vm =>
    (e.mgr.heap.deref? vm).bind fun v => if v.uuid = u then some v.status else none
  | .overwrote vm status =>
    (e.mgr.heap.deref? vm).bind fun v => if v.uuid = u then some status else none
  | _ => none

/-- The status a trace last records for `u`. -/
def lastRecorded (u : String) (trace : List Entry) : Option VMStatus :=
  (trace.filterMap (Entry.statusRecorded? u)).getLast?

theorem lastRecorded_append (u : String) (t t' : List Entry) :
    lastRecorded u (t ++ t') = (lastRecorded u t').or (lastRecorded u t) := by
  rw [lastRecorded, List.filterMap_append, List.getLast?_append]
  rfl

theorem lastRecorded_eq_none {u : String} {t : List Entry}
    (h : ∀ x ∈ t, x.statusRecorded? u = none) : lastRecorded u t = none := by
  rw [lastRecorded, List.filterMap_eq_nil_iff.mpr h]
  rfl

/-- After a write and some of the calls announcing it, the write is the last record. -/
theorem lastRecorded_write {u : String} {w : Entry} {m : VMManager} {call : Notification}
    {l : List Entry} (hl : l <+: w :: allCalls m call) (hne : l ≠ []) :
    lastRecorded u l = w.statusRecorded? u := by
  obtain ⟨x, l', rfl⟩ := List.exists_cons_of_ne_nil hne
  obtain ⟨rfl, hl'⟩ := List.cons_prefix_cons.mp hl
  have hcalls : lastRecorded u l' = none := by
    refine lastRecorded_eq_none fun y hy => ?_
    obtain ⟨slot, -, rfl⟩ := mem_allCalls.mp (hl'.subset hy)
    rfl
  rw [← List.singleton_append, lastRecorded_append, hcalls, Option.none_or, lastRecorded]
  cases hx : x.statusRecorded? u <;> simp [hx]

/-- **What a step records.** The status held after a step is the one the step has recorded so far
or, if it has recorded none, the one before. -/
theorem step_status {m m' : VMManager} {t : List Entry} (h : Step m t m') (hm : m.WellKept)
    {l : List Entry} (hl : l <+: t) (hne : t ≠ [] → l ≠ []) {u : String}
    (hsome : m'.statuses u ≠ none) :
    m'.statuses u = (lastRecorded u l).or (m.statuses u) := by
  cases h with
  | fetched id answer =>
    rw [lastRecorded_eq_none fun x hx => by rw [List.mem_singleton.mp (hl.subset hx)]; rfl]
    rfl
  | registered h =>
    rw [List.prefix_nil.mp hl]
    rfl
  | @recorded vm hnew =>
    have hwrite : (⟨m.recordVM vm, .recorded (some m.heap.next)⟩ : Entry).statusRecorded? u =
        if vm.uuid = u then some vm.status else none := by
      simp [Entry.statusRecorded?, VMManager.recordVM]
    rw [lastRecorded_write hl (hne (List.cons_ne_nil _ _)), hwrite, VMManager.statuses,
      hm.record?_recordVM, VMManager.statuses]
    by_cases hu : u = vm.uuid
    · rw [if_pos hu, if_pos hu.symm]
      rfl
    · rw [if_neg hu, if_neg (Ne.symm hu)]
      rfl
  | @overwrote u' r old st hvm hold hst =>
    obtain ⟨old', hold', huuid, -⟩ := hm.getVM_spec hvm
    obtain rfl : old = old' := Option.some.inj (hold.symm.trans hold')
    have hwrite : (⟨m.overwriteStatus r st, .overwrote (some r) st⟩ : Entry).statusRecorded? u =
        if u' = u then some st else none := by
      simp [Entry.statusRecorded?, VMManager.overwriteStatus, hold, VirtualMachine.setStatus, huuid]
    rw [lastRecorded_write hl (hne (List.cons_ne_nil _ _)), hwrite, VMManager.statuses,
      hm.record?_overwriteStatus hvm, VMManager.statuses]
    by_cases hu : u = u'
    · subst hu
      rw [if_pos rfl, if_pos rfl, VMManager.record?, hvm, Store.deref?_some, hold]
      rfl
    · rw [if_neg hu, if_neg (Ne.symm hu)]
      rfl
  | @removed u' r hvm =>
    rw [lastRecorded_eq_none fun x hx => by
      obtain ⟨slot, -, rfl⟩ := mem_allCalls.mp (hl.subset hx)
      rfl]
    -- the status of `u` survives, so another UUID was dropped
    rw [VMManager.statuses_eraseVM] at hsome ⊢
    by_cases hu : u = u'
    · rw [if_pos hu] at hsome
      exact absurd rfl hsome
    · rw [if_neg hu]
      rfl

/-- From a manager that does not hold `u`, the status held under `u` is the one last recorded. -/
theorem steps_status {m₀ m : VMManager} {t : List Entry} (h : Steps m₀ t m) (hm : m₀.WellKept)
    {u : String} (hnone : m₀.statuses u = none) (hsome : m.statuses u ≠ none) :
    m.statuses u = lastRecorded u t := by
  induction h with
  | refl => exact absurd hnone hsome
  | @tail m' m'' t t' hs hstep ih =>
    have hstatus := step_status hstep (hs.wellKept hm) List.prefix_rfl id hsome
    rw [lastRecorded_append, hstatus]
    by_cases hbefore : m'.statuses u = none
    · rw [hstatus, hbefore, Option.or_none] at hsome
      obtain ⟨st, hst⟩ := Option.ne_none_iff_exists'.mp hsome
      rw [hbefore, hst]
      rfl
    · rw [ih hbefore]

theorem steps_status_at {m : VMManager} {pre post : List Entry} {x : Entry}
    (h : Steps .init (pre ++ x :: post) m) {u : String} (hsome : x.mgr.statuses u ≠ none) :
    x.mgr.statuses u = lastRecorded u (pre ++ [x]) := by
  obtain ⟨m₁, m₂, t₁, s, s', t₂, h₁, hstep, -, rfl, -⟩ := h.split rfl
  have hmgr : x.mgr = m₂ := (hstep.entry_mgr (by simp)).1
  rw [hmgr] at hsome ⊢
  have hl : s ++ [x] <+: s ++ x :: s' := ⟨s', by simp⟩
  have hstatus := step_status hstep (h₁.wellKept VMManager.wellKept_init) hl (by simp) hsome
  rw [List.append_assoc, lastRecorded_append, hstatus]
  by_cases hbefore : m₁.statuses u = none
  · rw [hstatus, hbefore, Option.or_none] at hsome
    obtain ⟨st, hst⟩ := Option.ne_none_iff_exists'.mp hsome
    rw [hbefore, hst]
    rfl
  · rw [steps_status h₁ VMManager.wellKept_init rfl hbefore]

/-! ## After the removal -/

/-- An object that no UUID points at is neither written nor announced, and stays so. -/
theorem step_retired {m m' : VMManager} {t : List Entry} (h : Step m t m') {r : Ref}
    (hfree : ∀ u, m.getVM u ≠ some r) {vm : VirtualMachine} (hr : m.heap.get? r = some vm) :
    (∀ u, m'.getVM u ≠ some r) ∧ m'.heap.get? r = some vm ∧
      ∀ x ∈ t, ∀ u p, x.notice? = some (u, .newVMAdded p) → p ≠ some r := by
  -- only the notices of a recorded VM are additions
  have hcalls : ∀ {m : VMManager} {call : Notification} {x : Entry} {u : String} {p : Ptr},
      x ∈ allCalls m call → x.notice? = some (u, .newVMAdded p) → call = .newVMAdded p := by
    intro m call x u p hx hnotice
    obtain ⟨slot, -, rfl⟩ := mem_allCalls.mp hx
    obtain ⟨v, -, heq⟩ := Option.map_eq_some_iff.mp hnotice
    cases heq
    rfl
  cases h with
  | fetched id answer =>
    refine ⟨hfree, hr, fun x hx u p hnotice => ?_⟩
    rw [List.mem_singleton.mp hx] at hnotice
    cases hnotice
  | registered h => exact ⟨hfree, hr, fun x hx => by cases hx⟩
  | @recorded v hnew =>
    have hne : r ≠ m.heap.next := Store.ne_next_of_some hr
    refine ⟨fun u hget => ?_, Store.get?_alloc_of_some hr v, fun x hx u p hnotice heq => ?_⟩
    · rw [VMManager.getVM_recordVM] at hget
      split at hget
      next => exact hne (Option.some.inj hget).symm
      next => exact hfree u hget
    · rcases List.mem_cons.mp hx with rfl | hx
      · cases hnotice
      · cases hcalls hx hnotice
        exact hne (Option.some.inj heq).symm
  | @overwrote u' r' old st hvm hold hst =>
    have hne : r' ≠ r := by
      rintro rfl
      exact hfree u' hvm
    refine ⟨fun u hget => hfree u (by rwa [VMManager.getVM_overwriteStatus] at hget),
      (Store.get?_modify_ne hne m.heap _).trans hr, fun x hx u p hnotice => ?_⟩
    rcases List.mem_cons.mp hx with rfl | hx
    · cases hnotice
    · cases hcalls hx hnotice
  | @removed u' r' hvm =>
    refine ⟨fun u hget => ?_, hr, fun x hx u p hnotice => ?_⟩
    · rw [VMManager.getVM_eraseVM] at hget
      split at hget
      next => cases hget
      next => exact hfree u hget
    · cases hcalls hx hnotice

theorem steps_retired {m m' : VMManager} {t : List Entry} (h : Steps m t m') {r : Ref}
    (hfree : ∀ u, m.getVM u ≠ some r) {vm : VirtualMachine} (hr : m.heap.get? r = some vm) :
    (∀ u, m'.getVM u ≠ some r) ∧ m'.heap.get? r = some vm ∧
      ∀ x ∈ t, x.mgr.heap.get? r = some vm ∧
        ∀ u p, x.notice? = some (u, .newVMAdded p) → p ≠ some r := by
  induction h with
  | refl => exact ⟨hfree, hr, fun x hx => by cases hx⟩
  | tail hs hstep ih =>
    obtain ⟨hfree', hr', hall⟩ := ih
    obtain ⟨hfree'', hr'', hnew⟩ := step_retired hstep hfree' hr'
    refine ⟨hfree'', hr'', fun x hx => ?_⟩
    rcases List.mem_append.mp hx with hx | hx
    · exact hall x hx
    · exact ⟨by rw [(hstep.entry_mgr hx).1, hr''], hnew x hx⟩

/-! ## From the announcement to the removal -/

/-- What `rest`, the trace behind the announcement `e` of the object `p` under `u`, owes to it.
`pre` is the trace before `e`, and the trace up to the removal of `u` is
`rest.takeWhile (!Entry.removes u ·)`. -/
structure OneObject (final : RefreshState) (pre : List Entry) (e : Entry) (rest : List Entry)
    (u : String) (p : Ptr) : Prop where
  /-- `getVM(u)` is `p` until the removal. -/
  held : ∀ x ∈ e :: rest.takeWhile (!Entry.removes u ·), x.mgr.getVM u = p
  held_now : rest.takeWhile (!Entry.removes u ·) = rest → final.mgr.getVM u = p
  /-- Every notification about `u` carries `p`, until `u` is announced with another object. -/
  carried : ∀ x ∈ rest.takeWhile (!Entry.addsOther u p ·), ∀ call,
    x.notice? = some (u, call) → call.vm = p
  /-- The status read through `p` is the one last recorded for `u`. -/
  status : ∀ mid x post, e :: rest.takeWhile (!Entry.removes u ·) = mid ++ x :: post →
    (x.mgr.heap.deref? p).map (·.status) = lastRecorded u (pre ++ mid ++ [x])
  status_now : rest.takeWhile (!Entry.removes u ·) = rest →
    (final.mgr.heap.deref? p).map (·.status) = lastRecorded u final.trace
  /-- A daemon built on `p` sees the status the manager holds. -/
  daemon : ∀ type, ∀ x ∈ e :: rest.takeWhile (!Entry.removes u ·),
    (x.mgr.heap.deref? (Daemon.create p type).getHostVM).map (·.status) = x.mgr.statuses u
  daemon_now : ∀ type, rest.takeWhile (!Entry.removes u ·) = rest →
    (final.mgr.heap.deref? (Daemon.create p type).getHostVM).map (·.status) = final.mgr.statuses u

/-- What the trace behind the removal `x` of the object `p` owes to it: `p` is never written and
never announced again. -/
structure Retired (final : RefreshState) (x : Entry) (post : List Entry) (p : Ptr) : Prop where
  unchanged : ∀ y ∈ post, y.mgr.heap.deref? p = x.mgr.heap.deref? p
  unchanged_now : final.mgr.heap.deref? p = x.mgr.heap.deref? p
  fresh : ∀ y ∈ post, ∀ u q, y.notice? = some (u, .newVMAdded q) → q ≠ p

theorem VMManager.statuses_of_getVM {m : VMManager} {u : String} {p : Ptr} (h : m.getVM u = p) :
    (m.heap.deref? p).map (·.status) = m.statuses u := by
  rw [statuses, record?, h]

theorem VMManager.WellKept.statuses_ne_none {m : VMManager} (hm : m.WellKept) {u : String}
    {r : Ref} (h : m.getVM u = some r) : m.statuses u ≠ none := by
  obtain ⟨vm, hvm, -, -⟩ := hm.getVM_spec h
  rw [← statuses_of_getVM h, Store.deref?_some, hvm]
  exact Option.some_ne_none _

theorem Steps.split_added {m₀ m : VMManager} (hm : m₀.WellKept) {pre rest : List Entry}
    {e : Entry} {u : String} {p : Ptr} (h : Steps m₀ (pre ++ e :: rest) m)
    (he : e.notice? = some (u, .newVMAdded p)) :
    ∃ r s' t₂, p = some r ∧ rest = s' ++ t₂ ∧ Steps e.mgr t₂ m ∧ e.mgr.WellKept ∧
      e.mgr.getVM u = some r ∧ 0 < e.mgr.vmEventHandlers.length ∧
      ∀ x ∈ s', x.mgr = e.mgr ∧ ∀ call, x.notice? = some (u, call) → call = .newVMAdded p := by
  obtain ⟨m₁, m₂, t₁, s, s', t₂, h₁, hstep, h₂, rfl, rfl⟩ := h.split rfl
  have hm₁ := h₁.wellKept hm
  have hmem : e ∈ s ++ e :: s' := by simp
  obtain ⟨rfl, hlen⟩ := hstep.entry_mgr hmem
  have hlen := hlen (by rw [he]; exact Option.some_ne_none _)
  cases step_at hstep hm₁ u with
  | kept _ hnotice =>
    obtain ⟨r, event, -, hcall⟩ := hnotice e hmem _ he
    cases hcall
  | added _ hget hnotice _ =>
    cases hnotice e hmem _ he
    refine ⟨_, s', t₂, rfl, rfl, h₂, hstep.wellKept hm₁, hget, hlen, fun x hx => ?_⟩
    have hx' : x ∈ s ++ e :: s' := by simp [hx]
    exact ⟨(hstep.entry_mgr hx').1, hnotice x hx'⟩
  | removed r _ _ hnotice _ =>
    rw [hnotice e hmem] at he
    cases he

theorem Steps.split_removed {m₀ m : VMManager} (hm : m₀.WellKept) {pre rest : List Entry}
    {e : Entry} {u : String} {p : Ptr} (h : Steps m₀ (pre ++ e :: rest) m)
    (he : e.notice? = some (u, .oldVMRemoved p)) :
    ∃ r vm s' t₂, p = some r ∧ rest = s' ++ t₂ ∧ Steps e.mgr t₂ m ∧
      (∀ u', e.mgr.getVM u' ≠ some r) ∧ e.mgr.heap.get? r = some vm ∧
      ∀ x ∈ s', x.mgr = e.mgr ∧ ∀ v q, x.notice? ≠ some (v, .newVMAdded q) := by
  obtain ⟨m₁, m₂, t₁, s, s', t₂, h₁, hstep, h₂, rfl, rfl⟩ := h.split rfl
  have hm₁ := h₁.wellKept hm
  have hmem : e ∈ s ++ e :: s' := by simp
  obtain ⟨hmgr, -⟩ := hstep.entry_mgr hmem
  cases step_at hstep hm₁ u with
  | kept _ hnotice =>
    obtain ⟨r, event, -, hcall⟩ := hnotice e hmem _ he
    cases hcall
  | added _ _ hnotice _ => cases hnotice e hmem _ he
  | removed r hsome hget hnotice _ =>
    rw [hnotice e hmem] at he
    cases he
    -- the object behind `r` at the entry, which the notice has read
    obtain ⟨vm, hvm⟩ : ∃ vm, e.mgr.heap.get? r = some vm := by
      have hn := hnotice e hmem
      unfold Entry.notice? at hn
      split at hn
      next slot call _ =>
        obtain ⟨vm, hvm, heq⟩ := Option.map_eq_some_iff.mp hn
        cases heq
        exact ⟨vm, hvm⟩
      next => cases hn
    rw [hmgr] at hvm ⊢
    refine ⟨r, vm, s', t₂, rfl, rfl, h₂, fun u' hget' => ?_, hvm, fun x hx => ?_⟩
    · -- an object tracked after the removal was tracked before it, and under `u`
      cases step_at hstep hm₁ u' with
      | kept hkept _ =>
        have heq := hm₁.getVM_inj (hkept.symm.trans hget') hsome
        subst heq
        rw [hget] at hget'
        cases hget'
      | added hnone hget'' _ _ =>
        obtain ⟨old, hold, -, -⟩ := hm₁.getVM_spec hsome
        rw [hget''] at hget'
        exact Store.ne_next_of_some hold (Option.some.inj hget').symm
      | removed _ _ hnone' _ _ =>
        rw [hnone'] at hget'
        cases hget'
    · have hx' : x ∈ s ++ e :: s' := by simp [hx]
      refine ⟨(hstep.entry_mgr hx').1, fun v q hnew => ?_⟩
      rw [hnotice x hx'] at hnew
      cases hnew

/-- Behind the announcement of an object, everything is as `OneObject` says. -/
theorem oneObject_of_added {final : RefreshState} (h : Steps .init final.trace final.mgr)
    {pre rest : List Entry} {e : Entry} {u : String} {p : Ptr}
    (htrace : final.trace = pre ++ e :: rest) (he : e.notice? = some (u, .newVMAdded p)) :
    OneObject final pre e rest u p := by
  rw [htrace] at h
  -- `s'` is the rest of the step of `e`, the other handlers being told of the same addition, and
  -- `t₂` the steps behind it, which start with the object on record
  obtain ⟨r, s', t₂, rfl, rfl, h₂, hkept, hget, hlen, hs'⟩ :=
    h.split_added VMManager.wellKept_init he
  obtain ⟨hheld, hheldNow⟩ := steps_tracked h₂ hkept hget hlen
  -- the announcements to the other handlers are no removals, and announce no other object
  have hlife : (s' ++ t₂).takeWhile (!Entry.removes u ·) =
      s' ++ t₂.takeWhile (!Entry.removes u ·) :=
    List.takeWhile_append_of_pos fun x hx => by rw [Entry.removes_of_added (hs' x hx).2]; rfl
  have hother : (s' ++ t₂).takeWhile (!Entry.addsOther u (some r) ·) =
      s' ++ t₂.takeWhile (!Entry.addsOther u (some r) ·) :=
    List.takeWhile_append_of_pos fun x hx => by rw [Entry.addsOther_of_added (hs' x hx).2]; rfl
  -- the manager stands still while `s'` is told
  have hheldAll : ∀ x ∈ e :: (s' ++ t₂).takeWhile (!Entry.removes u ·),
      x.mgr.getVM u = some r := by
    intro x hx
    rw [hlife] at hx
    rcases List.mem_cons.mp hx with rfl | hx
    · exact hget
    rcases List.mem_append.mp hx with hx | hx
    · rw [(hs' x hx).1, hget]
    · exact hheld x hx
  have hnow : (s' ++ t₂).takeWhile (!Entry.removes u ·) = s' ++ t₂ →
      final.mgr.getVM u = some r := by
    intro hall
    rw [hlife, List.append_cancel_left_eq] at hall
    exact hheldNow hall
  -- a daemon sees by its pointer what `getVM` finds
  refine ⟨hheldAll, hnow, fun x hx call hcall => ?_, fun mid x post hmid => ?_, fun hall => ?_,
    fun type x hx => VMManager.statuses_of_getVM (hheldAll x hx),
    fun type hall => VMManager.statuses_of_getVM (hnow hall)⟩
  · -- `carried` goes on behind the removal, up to another object
    rw [hother] at hx
    rcases List.mem_append.mp hx with hx | hx
    · rw [(hs' x hx).2 call hcall]
      rfl
    · exact (steps_carried h₂ hkept hget hlen).1 x hx call hcall
  · have hx : x.mgr.getVM u = some r := hheldAll x (by rw [hmid]; simp)
    -- put the part behind the removal back, to have the whole trace
    have hrest : e :: (s' ++ t₂) =
        (mid ++ x :: post) ++ (s' ++ t₂).dropWhile (!Entry.removes u ·) := by
      rw [← hmid, List.cons_append, List.takeWhile_append_dropWhile]
    have hwhole : pre ++ e :: (s' ++ t₂) = (pre ++ mid) ++ x ::
        (post ++ (s' ++ t₂).dropWhile (!Entry.removes u ·)) := by
      rw [hrest]
      simp
    rw [hwhole] at h
    have hkeptx := h.entry_wellKept VMManager.wellKept_init (x := x) (by simp)
    rw [VMManager.statuses_of_getVM hx]
    exact steps_status_at h (hkeptx.statuses_ne_none hx)
  · -- not removed yet: the whole trace is the life of the object so far
    have hvm := hnow hall
    rw [VMManager.statuses_of_getVM hvm, htrace]
    exact steps_status h VMManager.wellKept_init rfl
      ((h.wellKept VMManager.wellKept_init).statuses_ne_none hvm)

/-- Behind the removal of an object, everything is as `Retired` says. -/
theorem retired_of_removed {final : RefreshState} (h : Steps .init final.trace final.mgr)
    {pre post : List Entry} {x : Entry} {u : String} {p : Ptr}
    (htrace : final.trace = pre ++ x :: post) (hx : x.notice? = some (u, .oldVMRemoved p)) :
    Retired final x post p := by
  rw [htrace] at h
  obtain ⟨r, vm, s', t₂, rfl, rfl, h₂, hfree, hr, hs'⟩ :=
    h.split_removed VMManager.wellKept_init hx
  obtain ⟨-, hnow, hall⟩ := steps_retired h₂ hfree hr
  refine ⟨fun y hy => ?_, hnow.trans hr.symm, fun y hy v q hnew => ?_⟩
  · rcases List.mem_append.mp hy with hy | hy
    · rw [(hs' y hy).1]
    · exact (hall y hy).1.trans hr.symm
  · rcases List.mem_append.mp hy with hy | hy
    · exact absurd hnew ((hs' y hy).2 v q)
    · exact (hall y hy).2 v q hnew

/-- **A tracked VM is one object for its whole tracked life.** In any run with honest UUIDs and
returning handlers, what follows the announcement of an object keeps to that object until the
removal, and what follows the removal leaves the object alone. -/
theorem tracked_vm_is_one_object (ops : List Op)
    (hret : ∀ op ∈ ops, op.Meets RefreshEnv.HandlersReturn)
    (hown : ∀ op ∈ ops, op.Meets RefreshEnv.HonestUUIDs) :
    let final := runOps ops
    (∀ pre e rest u p, final.trace = pre ++ e :: rest → e.notice? = some (u, .newVMAdded p) →
      OneObject final pre e rest u p) ∧
    (∀ pre x post u p, final.trace = pre ++ x :: post → x.notice? = some (u, .oldVMRemoved p) →
      Retired final x post p) := by
  intro final
  have hsteps : Steps .init final.trace final.mgr := runOps_steps hret hown
  constructor
  · intro pre e rest u p htrace he
    exact oneObject_of_added hsteps htrace he
  · intro pre x post u p htrace hx
    exact retired_of_removed hsteps htrace hx

/-- A VM is switched off, cannot be fetched, is removed, and comes back as another object. -/
theorem tracked_vm_is_one_object_returning :
    let unreachable : RefreshEnv := { RefreshEnv.uniform ["vmA"] .on with
      getVirtualMachine := fun _ _ => .error ⟨"timeout"⟩ }
    let final := runOps [.registerVMEventHandler 7, .refreshVMList (.uniform ["vmA"] .on),
      .refreshVMList (.uniform ["vmA"] .off), .refreshVMList unreachable,
      .refreshVMList (.uniform [] .on), .refreshVMList (.uniform ["vmA"] .on)]
    final.trace.filterMap Entry.notice? = [("vmA", .newVMAdded (some 0)),
      ("vmA", .existingVMChanged (some 0) .poweredOff), ("vmA", .oldVMRemoved (some 0)),
      ("vmA", .newVMAdded (some 1))] ∧
    (∃ pre e rest, final.trace = pre ++ e :: rest ∧
      e.notice? = some ("vmA", .newVMAdded (some 0)) ∧
        OneObject final pre e rest "vmA" (some 0)) ∧
    (∃ pre x post, final.trace = pre ++ x :: post ∧
      x.notice? = some ("vmA", .oldVMRemoved (some 0)) ∧ Retired final x post (some 0)) ∧
    ∃ pre e rest, final.trace = pre ++ e :: rest ∧
      e.notice? = some ("vmA", .newVMAdded (some 1)) ∧
        OneObject final pre e rest "vmA" (some 1) := by
  intro unreachable final
  have hnotices : final.trace.filterMap Entry.notice? = [("vmA", .newVMAdded (some 0)),
      ("vmA", .existingVMChanged (some 0) .poweredOff), ("vmA", .oldVMRemoved (some 0)),
      ("vmA", .newVMAdded (some 1))] := by
    simp only [final, runOps_inTurns]
    decide
  have hret : unreachable.HandlersReturn := fun _ _ _ => rfl
  have hown : unreachable.HonestUUIDs := fun id n vm h => by cases h
  obtain ⟨hadded, hremoved⟩ := tracked_vm_is_one_object
    [.registerVMEventHandler 7, .refreshVMList (.uniform ["vmA"] .on),
      .refreshVMList (.uniform ["vmA"] .off), .refreshVMList unreachable,
      .refreshVMList (.uniform [] .on), .refreshVMList (.uniform ["vmA"] .on)]
    (by simp [Op.Meets, RefreshEnv.uniform_handlersReturn, hret])
    (by simp [Op.Meets, RefreshEnv.uniform_honestUUIDs, hown])
  -- where an event of the list stands in the trace
  have hsplit : ∀ notice ∈ final.trace.filterMap Entry.notice?,
      ∃ pre e rest, final.trace = pre ++ e :: rest ∧ e.notice? = some notice := by
    intro notice hnotice
    obtain ⟨e, he, heq⟩ := List.mem_filterMap.mp hnotice
    obtain ⟨pre, rest, htrace⟩ := List.append_of_mem he
    exact ⟨pre, e, rest, htrace, heq⟩
  rw [hnotices] at hsplit
  refine ⟨hnotices, ?_, ?_, ?_⟩
  · obtain ⟨pre, e, rest, htrace, he⟩ := hsplit ("vmA", .newVMAdded (some 0)) (by simp)
    exact ⟨pre, e, rest, htrace, he, hadded _ _ _ _ _ htrace he⟩
  · obtain ⟨pre, x, post, htrace, hx⟩ := hsplit ("vmA", .oldVMRemoved (some 0)) (by simp)
    exact ⟨pre, x, post, htrace, hx, hremoved _ _ _ _ _ htrace hx⟩
  · obtain ⟨pre, e, rest, htrace, he⟩ := hsplit ("vmA", .newVMAdded (some 1)) (by simp)
    exact ⟨pre, e, rest, htrace, he, hadded _ _ _ _ _ htrace he⟩

end NebuApp
