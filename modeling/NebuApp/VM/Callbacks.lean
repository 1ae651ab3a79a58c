import NebuApp.VM.Announcements
import NebuApp.VM.Identity

/-!
# What a handler finds when it is called

A handler may ask the manager from within a callback, and whatever it throws leaves the manager as
it is at that moment. `Steps.split` locates the callback in the step it belongs to:
the handlers in the slots up to the one that is called have been told of everything the manager
holds, the handlers behind it of everything but the change that is being announced.
-/

namespace NebuApp

open Mirror

/-! ## The calls of one step -/

/-- The entry is a call of a handler. -/
def Entry.isCall (e : Entry) : Bool :=
  match e.action with
  | .notified _ _ => true
  | _ => false

/-- The calls of the handlers in the first `n` slots. -/
def firstCalls (m : VMManager) (call : Notification) (n : Nat) : List Entry :=
  (List.range n).map fun slot => ⟨m, .notified slot call⟩

theorem allCalls_eq_firstCalls (m : VMManager) (call : Notification) :
    allCalls m call = firstCalls m call m.vmEventHandlers.length := rfl

theorem firstCalls_succ (m : VMManager) (call : Notification) (n : Nat) :
    firstCalls m call (n + 1) = firstCalls m call n ++ [⟨m, .notified n call⟩] := by
  simp [firstCalls, List.range_succ]

theorem firstCalls_split {m : VMManager} {call : Notification} {n : Nat} {s s' : List Entry}
    {e : Entry} (h : firstCalls m call n = s ++ e :: s') :
    s.length < n ∧ s = firstCalls m call s.length ∧ e = ⟨m, .notified s.length call⟩ := by
  have hlen : n = s.length + (s'.length + 1) := by
    simpa [firstCalls] using congrArg List.length h
  have hlt : s.length < n := by omega
  have htake := congrArg (List.take (s.length + 1)) h
  have hleft : (firstCalls m call n).take (s.length + 1) = firstCalls m call (s.length + 1) := by
    rw [firstCalls, ← List.map_take, List.take_range, Nat.min_eq_left (by omega)]
    rfl
  have hright : (s ++ e :: s').take (s.length + 1) = s ++ [e] := by
    rw [List.take_append]
    simp
  rw [hleft, hright, firstCalls_succ] at htake
  obtain ⟨hs, he⟩ := List.append_inj' htake rfl
  exact ⟨hlt, hs.symm, (List.cons.inj he).1.symm⟩

/-- The first calls of a notification, read by somebody who looks at one slot only. Induction on
their number. -/
theorem filterMap_firstCalls {β : Type} {f : Entry → Option β} (slot : Nat) {m : VMManager}
    {call : Notification} (hother : ∀ i, i ≠ slot → f ⟨m, .notified i call⟩ = none) (n : Nat) :
    (firstCalls m call n).filterMap f =
      if slot < n then (f ⟨m, .notified slot call⟩).toList else [] := by
  induction n with
  | zero => rfl
  | succ n ih =>
    rw [firstCalls_succ, List.filterMap_append, ih]
    by_cases hn : n = slot
    · subst hn
      cases hf : f ⟨m, .notified n call⟩ <;> simp [hf]
    · have hiff : slot < n + 1 ↔ slot < n := by omega
      simp [hother n hn, hiff]

/-- The first calls tell the handlers they reach, and no other. -/
theorem changesTo_firstCalls (slot : Nat) (m : VMManager) (call : Notification) (n : Nat) :
    changesTo slot (firstCalls m call n) = if slot < n then (call.change? m).toList else [] := by
  refine (filterMap_firstCalls slot (fun i hi => ?_) n).trans ?_
  · simp [Entry.change?, hi]
  · simp [Entry.change?]

theorem toldTo_firstCalls (slot : Nat) (m : VMManager) (call : Notification) (n : Nat) :
    toldTo slot (firstCalls m call n) = if slot < n then [call] else [] := by
  refine (filterMap_firstCalls slot (fun i hi => ?_) n).trans ?_
  · simp [Entry.toldTo?, hi]
  · simp [Entry.toldTo?]

/-- What no call is, tells nobody anything. -/
theorem told_of_no_call (slot : Nat) {t : List Entry} (h : ∀ e ∈ t, e.isCall = false) :
    changesTo slot t = [] ∧ toldTo slot t = [] := by
  refine ⟨List.filterMap_eq_nil_iff.mpr fun e he => ?_,
    List.filterMap_eq_nil_iff.mpr fun e he => ?_⟩
  all_goals
    have hcall := h e he
    unfold Entry.isCall at hcall
    first
    | unfold Entry.change?
    | unfold Entry.toldTo?
    split
    next slot' call haction => simp [haction] at hcall
    next => rfl

/-- **A step announces at most one thing**, to all handlers, after all it writes. -/
theorem Step.announces {m m' : VMManager} {t : List Entry} (h : Step m t m') (hm : m.WellKept) :
    (∀ e ∈ t, e.isCall = false) ∨ ∃ written call c, t = written ++ allCalls m' call ∧
      (∀ e ∈ written, e.isCall = false) ∧ call.change? m' = some c := by
  have hquiet : ∀ {e : Entry}, e.isCall = false → ∀ x ∈ [e], x.isCall = false := by
    intro e he x hx
    rwa [List.mem_singleton.mp hx]
  cases h with
  | fetched id answer => exact Or.inl (hquiet rfl)
  | registered h => exact Or.inl fun e he => by cases he
  | @recorded vm hnew =>
    refine Or.inr ⟨_, _, .added vm.uuid (m.heap.next, vm.status), rfl, hquiet rfl, ?_⟩
    simp [Notification.change?, Notification.vm, VMManager.recordVM]
  | @overwrote u r old st hvm hold hne =>
    refine Or.inr ⟨_, _, .changed old.uuid (r, st), rfl, hquiet rfl, ?_⟩
    simp [Notification.change?, Notification.vm, VMManager.overwriteStatus, hold,
      VirtualMachine.setStatus]
  | @removed u r hvm =>
    obtain ⟨old, hold, -, -⟩ := hm.getVM_spec hvm
    refine Or.inr ⟨[], _, .removed old.uuid (r, old.status), rfl, fun e he => (by cases he), ?_⟩
    simp [Notification.change?, Notification.vm, VMManager.eraseVM, hold]

theorem Step.split_call {m m' : VMManager} {s s' : List Entry} {e : Entry}
    (h : Step m (s ++ e :: s') m') (hm : m.WellKept) {slot : Nat} {call : Notification}
    (he : e.action = .notified slot call) :
    ∃ written c, s = written ++ firstCalls m' call slot ∧ (∀ x ∈ written, x.isCall = false) ∧
      e = ⟨m', .notified slot call⟩ ∧ call.change? m' = some c ∧
      s ++ e :: s' = written ++ allCalls m' call := by
  have hcall : e.isCall = true := by simp [Entry.isCall, he]
  rcases h.announces hm with hquiet | ⟨written, call', c, ht, hquiet, hc⟩
  · exact absurd hcall (by simp [hquiet e (by simp)])
  · obtain ⟨s₁, rfl, hcalls⟩ : ∃ s₁, s = written ++ s₁ ∧ allCalls m' call' = s₁ ++ e :: s' := by
      rcases List.append_eq_append_iff.mp ht with ⟨b, rfl, hb⟩ | ⟨s₁, hs, hcalls⟩
      · -- the call is none of the writes
        cases b with
        | nil => exact ⟨[], by simp, by simpa using hb.symm⟩
        | cons e' b =>
          obtain rfl : e = e' := (List.cons.inj hb).1
          exact absurd hcall (by simp [hquiet e (by simp)])
      · exact ⟨s₁, hs, hcalls⟩
    obtain ⟨-, hs₁, rfl⟩ := firstCalls_split hcalls
    cases he
    exact ⟨written, c, by rw [← hs₁], hquiet, rfl, hc, ht⟩

/-! ## Inside a run -/

/-- Every entry of a run has the handlers that its end has, or some of the first of them. -/
theorem Steps.entry_handlers {m m' : VMManager} {t : List Entry} (h : Steps m t m') {e : Entry}
    (he : e ∈ t) : e.mgr.vmEventHandlers <+: m'.vmEventHandlers := by
  obtain ⟨pre, rest, ht⟩ := List.append_of_mem he
  obtain ⟨m₁, m₂, t₁, s, s', t₂, -, hstep, h₂, -, -⟩ := h.split ht
  rw [(hstep.entry_mgr (x := e) (by simp)).1]
  exact h₂.handlers_grow

/-- **A callback of a run.** From a well-kept manager, the handlers up to the called one have been
told what the manager holds, and the others all of it but the change that is announced. -/
theorem steps_call {m m' : VMManager} {t pre rest : List Entry} {e : Entry} (h : Steps m t m')
    (hm : m.WellKept) (ht : t = pre ++ e :: rest) {called : Nat} {call : Notification}
    (he : e.action = .notified called call) {slot : Nat} (hslot : slot < m.vmEventHandlers.length) :
    (slot ≤ called → replay m.view (changesTo slot (pre ++ [e])) = e.mgr.view) ∧
      (called < slot → ∃ c, call.change? e.mgr = some c ∧
        replay m.view (changesTo slot pre ++ [c]) = e.mgr.view) := by
  obtain ⟨m₁, m₂, t₁, s, s', t₂, h₁, hstep, -, rfl, -⟩ := h.split ht
  obtain ⟨hreplay, -⟩ := steps_mirror h₁ hm hslot
  have hslot₁ := Nat.lt_of_lt_of_le hslot h₁.handlers_grow.length_le
  obtain ⟨hreplay', -⟩ := step_mirror hstep (h₁.wellKept hm) hslot₁
  have hslot₂ := Nat.lt_of_lt_of_le hslot₁ (Steps.single hstep).handlers_grow.length_le
  obtain ⟨written, c, rfl, hquiet, rfl, hc, hall⟩ := hstep.split_call (h₁.wellKept hm) he
  rw [hall, changesTo_append, (told_of_no_call slot hquiet).1, List.nil_append,
    changesTo_allCalls hslot₂, hc] at hreplay'
  -- what the run has told the slot when it has made so many of the calls
  have hfirst : ∀ n, changesTo slot (t₁ ++ (written ++ firstCalls m₂ call n)) =
      changesTo slot t₁ ++ if slot < n then [c] else [] := by
    intro n
    rw [changesTo_append, changesTo_append, (told_of_no_call slot hquiet).1, List.nil_append,
      changesTo_firstCalls, hc]
    rfl
  refine ⟨fun hle => ?_, fun hlt => ⟨c, hc, ?_⟩⟩
  · rw [List.append_assoc, List.append_assoc, ← firstCalls_succ, hfirst, if_pos (by omega),
      replay_append, hreplay]
    exact hreplay'
  · rw [hfirst, if_neg (by omega), List.append_nil, replay_append, hreplay]
    exact hreplay'

/-! ## All handlers hear the same -/

/-- The calls of a trace make up whole notifications, each of which goes to all the handlers there
are, in the order they were registered in. -/
def Broadcasts (t : List Entry) : Prop :=
  ∃ bs : List (VMManager × Notification),
    t.filter Entry.isCall = bs.flatMap fun b => allCalls b.1 b.2

/-- A step announces to all handlers what it announces to one. -/
theorem Step.broadcasts {m m' : VMManager} {t : List Entry} (h : Step m t m') (hm : m.WellKept) :
    Broadcasts t ∧ ∃ calls, ∀ slot,
      toldTo slot t = if slot < m'.vmEventHandlers.length then calls else [] := by
  rcases h.announces hm with hquiet | ⟨written, call, c, rfl, hquiet, -⟩
  · refine ⟨⟨[], ?_⟩, [], fun slot => ?_⟩
    · rw [List.flatMap_nil, List.filter_eq_nil_iff]
      simpa using hquiet
    · rw [(told_of_no_call slot hquiet).2, ite_self]
  · refine ⟨⟨[(m', call)], ?_⟩, [call], fun slot => ?_⟩
    · have hnone : written.filter Entry.isCall = [] := by
        rw [List.filter_eq_nil_iff]
        simpa using hquiet
      rw [List.filter_append, hnone, List.nil_append, List.flatMap_singleton,
        List.filter_eq_self]
      intro e he
      obtain ⟨i, -, rfl⟩ := mem_allCalls.mp he
      rfl
    · rw [toldTo_append, (told_of_no_call slot hquiet).2, List.nil_append,
        allCalls_eq_firstCalls, toldTo_firstCalls]

/-- A run tells the handlers it finds registered all the same, and those it has not registered by
its end nothing. -/
theorem Steps.broadcasts {m m' : VMManager} {t : List Entry} (h : Steps m t m')
    (hm : m.WellKept) :
    Broadcasts t ∧ (∃ calls, ∀ slot < m.vmEventHandlers.length, toldTo slot t = calls) ∧
      ∀ slot, m'.vmEventHandlers.length ≤ slot → toldTo slot t = [] := by
  induction h with
  | refl => exact ⟨⟨[], rfl⟩, ⟨[], fun slot _ => rfl⟩, fun slot _ => rfl⟩
  | tail hs hstep ih =>
    obtain ⟨⟨bs, hbs⟩, ⟨calls, hcalls⟩, hnone⟩ := ih
    obtain ⟨⟨bs', hbs'⟩, calls', hcalls'⟩ := hstep.broadcasts (hs.wellKept hm)
    have hgrow := hs.handlers_grow.length_le
    have hgrow' := (Steps.single hstep).handlers_grow.length_le
    refine ⟨⟨bs ++ bs', by rw [List.filter_append, hbs, hbs', List.flatMap_append]⟩,
      ⟨calls ++ calls', fun slot hslot => ?_⟩, fun slot hslot => ?_⟩
    · rw [toldTo_append, hcalls slot hslot, hcalls', if_pos (by omega)]
    · rw [toldTo_append, hnone slot (by omega), hcalls', if_neg (by omega), List.nil_append]

/-! ## Runs -/

section Runs

variable {before after : List Op} (eventHandler : Ref)
  (hret : ∀ op ∈ before ++ after, op.Meets RefreshEnv.HandlersReturn)
  (hown : ∀ op ∈ before ++ after, op.Meets RefreshEnv.HonestUUIDs)
include hret hown

/-- A run around the registration of a handler: the steps before it and the steps behind it. -/
theorem runOps_registered :
    let start := (runOps before).mgr
    let final := runOps (before ++ .registerVMEventHandler eventHandler :: after)
    start.WellKept ∧ Steps .init (runOps before).trace start ∧
      ∃ t, Steps (start.registerVMEventHandler eventHandler) t final.mgr ∧
        final.trace = (runOps before).trace ++ t := by
  intro start final
  have hpre := runOps_steps (fun op h => hret op (List.mem_append_left _ h))
    fun op h => hown op (List.mem_append_left _ h)
  have hstart : start.WellKept := hpre.wellKept VMManager.wellKept_init
  obtain ⟨t, hsteps, htrace⟩ := foldl_perform_steps
    (s := ⟨start.registerVMEventHandler eventHandler, (runOps before).trace⟩)
    (hstart.registerVMEventHandler eventHandler)
    (fun op h => hret op (List.mem_append_right _ h))
    fun op h => hown op (List.mem_append_right _ h)
  have hfinal : final = after.foldl Op.perform
      ⟨start.registerVMEventHandler eventHandler, (runOps before).trace⟩ := by
    simp only [final, runOps, List.foldl_append, List.foldl_cons]
    rfl
  rw [← hfinal] at hsteps htrace
  exact ⟨hstart, hpre, t, hsteps, htrace⟩

omit eventHandler in
/-- Nothing was delivered to a slot before it existed. -/
theorem changesTo_behind (t : List Entry) :
    changesTo (runOps before).mgr.vmEventHandlers.length ((runOps before).trace ++ t) =
      changesTo (runOps before).mgr.vmEventHandlers.length t := by
  have hpre := (runOps_registered 0 hret hown).2.1
  rw [changesTo_append, changesTo_eq_nil_of_steps hpre (Nat.le_refl _), List.nil_append]

/-- The events of a run, replayed by the handler, are the statuses at its end. -/
theorem runOps_replay :
    let start := (runOps before).mgr
    let final := runOps (before ++ .registerVMEventHandler eventHandler :: after)
    replay start.statuses (eventsTo start.vmEventHandlers.length final.trace) =
      final.mgr.statuses := by
  intro start final
  obtain ⟨hstart, -, t, hsteps, htrace⟩ := runOps_registered eventHandler hret hown
  have hslot : start.vmEventHandlers.length <
      (start.registerVMEventHandler eventHandler).vmEventHandlers.length := by
    simp [VMManager.registerVMEventHandler]
  obtain ⟨hreplay, -⟩ :=
    steps_mirror hsteps (hstart.registerVMEventHandler eventHandler) hslot
  have hview : (start.registerVMEventHandler eventHandler).view = start.view := rfl
  rw [hview] at hreplay
  rw [VMManager.statuses_eq_view, VMManager.statuses_eq_view, ← hreplay, ← replay_map, eventsTo,
    htrace, changesTo_behind hret hown]

/-- A callback of the run that finds the handler registered belongs to the run behind its
registration. -/
theorem runOps_call_behind {pre rest : List Entry} {e : Entry}
    (htrace : (runOps (before ++ .registerVMEventHandler eventHandler :: after)).trace =
      pre ++ e :: rest)
    (hslot : (runOps before).mgr.vmEventHandlers.length < e.mgr.vmEventHandlers.length) :
    ∃ pre' t, pre = (runOps before).trace ++ pre' ∧ t = pre' ++ e :: rest ∧
      Steps ((runOps before).mgr.registerVMEventHandler eventHandler) t
        (runOps (before ++ .registerVMEventHandler eventHandler :: after)).mgr := by
  obtain ⟨-, hpre, t, hsteps, hwhole⟩ := runOps_registered eventHandler hret hown
  have hbehind : e ∉ (runOps before).trace := by
    intro he
    have hle := (hpre.entry_handlers he).length_le
    omega
  rcases List.append_eq_append_iff.mp (hwhole.symm.trans htrace) with
    ⟨pre', hpre', ht⟩ | ⟨b, hb, ht⟩
  · exact ⟨pre', t, hpre', ht, hsteps⟩
  · cases b with
    | nil => exact ⟨[], t, by simpa using hb.symm, by simpa using ht.symm, hsteps⟩
    | cons e' b =>
      obtain rfl : e = e' := (List.cons.inj ht).1
      exact absurd (by rw [hb]; simp) hbehind

end Runs

/-- **Whoever is called finds what he was told.** At every callback of a run, the statuses that a
handler has replayed from its events are those `vmList` has at that moment, if the handler is the
one that is called or one registered before it; if it is one registered behind, the two differ by
just the change that is being announced. -/
theorem callback_finds_what_was_told (before after : List Op) (eventHandler : Ref)
    (hret : ∀ op ∈ before ++ after, op.Meets RefreshEnv.HandlersReturn)
    (hown : ∀ op ∈ before ++ after, op.Meets RefreshEnv.HonestUUIDs) :
    let start := (runOps before).mgr
    let final := runOps (before ++ .registerVMEventHandler eventHandler :: after)
    let slot := start.vmEventHandlers.length
    ∀ pre e rest called call, final.trace = pre ++ e :: rest →
      e.action = .notified called call → slot < e.mgr.vmEventHandlers.length →
      (slot ≤ called → replay start.statuses (eventsTo slot (pre ++ [e])) = e.mgr.statuses) ∧
      (called < slot → ∃ c, call.change? e.mgr = some c ∧
        replay start.statuses (eventsTo slot pre ++ [c.map Prod.snd]) = e.mgr.statuses) := by
  intro start final slot pre e rest called call htrace he hslot
  obtain ⟨hstart, -⟩ := runOps_registered eventHandler hret hown
  obtain ⟨pre', t, rfl, ht, hsteps⟩ := runOps_call_behind eventHandler hret hown htrace hslot
  have hlt : slot < (start.registerVMEventHandler eventHandler).vmEventHandlers.length := by
    simp [VMManager.registerVMEventHandler, slot]
  obtain ⟨htold, hbehind⟩ :=
    steps_call hsteps (hstart.registerVMEventHandler eventHandler) ht he hlt
  have hnone := changesTo_behind hret hown
  have hview : (start.registerVMEventHandler eventHandler).view = start.view := rfl
  rw [hview] at htold hbehind
  refine ⟨fun hle => ?_, fun hgt => ?_⟩
  · rw [VMManager.statuses_eq_view, VMManager.statuses_eq_view, ← htold hle, ← replay_map,
      eventsTo, List.append_assoc, hnone]
  · obtain ⟨c, hc, hreplay⟩ := hbehind hgt
    refine ⟨c, hc, ?_⟩
    rw [VMManager.statuses_eq_view, VMManager.statuses_eq_view, ← hreplay, ← replay_map, eventsTo,
      hnone, List.map_append]
    rfl

/-- The second of two handlers, while the first and then itself is called for a new VM. -/
theorem callback_finds_what_was_told_new :
    let final := runOps [.registerVMEventHandler 1, .registerVMEventHandler 2,
      .refreshVMList (.uniform ["vmA"] .on)]
    ∃ pre m, final.trace = pre ++ [⟨m, .notified 0 (.newVMAdded (some 0))⟩,
        ⟨m, .notified 1 (.newVMAdded (some 0))⟩] ∧
      replay VMManager.init.statuses (eventsTo 1 pre ++ [.added "vmA" .on]) = m.statuses ∧
      replay VMManager.init.statuses (eventsTo 1 final.trace) = m.statuses := by
  intro final
  have h := callback_finds_what_was_told [.registerVMEventHandler 1]
    [.refreshVMList (.uniform ["vmA"] .on)] 2
    (by simp [Op.Meets, RefreshEnv.uniform_handlersReturn])
    (by simp [Op.Meets, RefreshEnv.uniform_honestUUIDs])
  let m₀ := (VMManager.init.registerVMEventHandler 1).registerVMEventHandler 2
  let vm : VirtualMachine := ⟨"vmA", "host-" ++ "vmA", "h1", "s1", .on⟩
  have hkept : m₀.WellKept :=
    (VMManager.wellKept_init.registerVMEventHandler 1).registerVMEventHandler 2
  have htrace : final.trace = (m₀.refresh (.uniform ["vmA"] .on)).2.trace := rfl
  rw [refresh_of_ok hkept rfl] at htrace
  -- a fetch, a write and a call of either handler
  let pre : List Entry :=
    [⟨m₀, .fetched "vmA" (.ok vm)⟩, ⟨m₀.recordVM vm, .recorded (some 0)⟩]
  let first : Entry := ⟨m₀.recordVM vm, .notified 0 (.newVMAdded (some 0))⟩
  let second : Entry := ⟨m₀.recordVM vm, .notified 1 (.newVMAdded (some 0))⟩
  have hsplit : final.trace = pre ++ [first, second] := htrace
  obtain ⟨c, hc, hlag⟩ := (h pre first [second] 0 _ hsplit rfl (by decide)).2 (by decide)
  cases hc
  have htold := (h (pre ++ [first]) second [] 1 _ hsplit rfl (by decide)).1 (by decide)
  refine ⟨pre, m₀.recordVM vm, hsplit, hlag, ?_⟩
  rw [hsplit]
  exact htold

/-- **All handlers hear the same**, if UUIDs are honest and they return. Every notification of a run
goes to all the handlers registered by then, in the order they were registered in, before the next
one begins; so a handler is told just what any handler registered earlier is told from then on. -/
theorem handlers_hear_the_same (before after : List Op) (eventHandler : Ref)
    (hret : ∀ op ∈ before ++ after, op.Meets RefreshEnv.HandlersReturn)
    (hown : ∀ op ∈ before ++ after, op.Meets RefreshEnv.HonestUUIDs) :
    let start := (runOps before).mgr
    let final := runOps (before ++ .registerVMEventHandler eventHandler :: after)
    let slot := start.vmEventHandlers.length
    Broadcasts final.trace ∧ ∀ earlier < slot,
      toldTo slot final.trace = toldTo earlier (final.trace.drop (runOps before).trace.length) := by
  intro start final slot
  obtain ⟨hstart, hpre, t, hsteps, htrace⟩ :=
    runOps_registered eventHandler hret hown
  have hlen : (start.registerVMEventHandler eventHandler).vmEventHandlers.length = slot + 1 := by
    simp [VMManager.registerVMEventHandler, slot]
  obtain ⟨⟨bs, hbs⟩, -, hnone⟩ := hpre.broadcasts VMManager.wellKept_init
  obtain ⟨⟨bs', hbs'⟩, ⟨calls, hcalls⟩, -⟩ :=
    hsteps.broadcasts (hstart.registerVMEventHandler eventHandler)
  rw [hlen] at hcalls
  refine ⟨⟨bs ++ bs', ?_⟩, fun earlier hearlier => ?_⟩
  · rw [htrace, List.filter_append, hbs, hbs', List.flatMap_append]
  · -- the slot was not called before it existed
    rw [htrace, List.drop_left, toldTo_append, hnone slot (Nat.le_refl _), List.nil_append,
      hcalls slot (by omega), hcalls earlier (by omega)]

/-- A handler that is registered between two refreshes, and one that was there before. -/
theorem handlers_hear_the_same_later :
    let before : List Op := [.registerVMEventHandler 1, .refreshVMList (.uniform ["vmA"] .on)]
    let final := runOps (before ++ .registerVMEventHandler 2 ::
      [.refreshVMList (.uniform ["vmB"] .off)])
    Broadcasts final.trace ∧
      toldTo 1 final.trace = toldTo 0 (final.trace.drop (runOps before).trace.length) := by
  intro before final
  have h := handlers_hear_the_same
    [.registerVMEventHandler 1, .refreshVMList (.uniform ["vmA"] .on)]
    [.refreshVMList (.uniform ["vmB"] .off)] 2
    (by simp [Op.Meets, RefreshEnv.uniform_handlersReturn])
    (by simp [Op.Meets, RefreshEnv.uniform_honestUUIDs])
  have hslot : (runOps before).mgr.vmEventHandlers.length = 1 := congrArg List.length
    (refresh_handlers (VMManager.wellKept_init.registerVMEventHandler 1) _)
  have hsame := h.2 0 (by rw [hslot]; decide)
  rw [hslot] at hsame
  exact ⟨h.1, hsame⟩

end NebuApp
