import NebuApp.VM.Events
import NebuApp.VM.Influence

/-!
# Handlers behind handlers that return

A notification goes to the handlers in the order of their registration and ends with the first that
throws. So a handler misses something only through those registered before it. If they return, its
events mirror the tracked VMs, as they do when all handlers return, whatever it throws itself and
those behind it, and also in a refresh that this ends (`mirror_behind_returning`).
-/

namespace NebuApp

open Exec Mirror

/-- The handlers in front of `slot` return from every callback. -/
def RefreshEnv.ReturnBefore (slot : Nat) (env : RefreshEnv) : Prop :=
  ∀ count i call, i < slot → env.callback count i call = .ok ()

/-- A handler hears nothing, or all in front of it return. -/
def RefreshEnv.Undisturbed (slot : Nat) (m : VMManager) (env : RefreshEnv) : Prop :=
  m.vmEventHandlers.length ≤ slot ∨ env.ReturnBefore slot

theorem RefreshEnv.unheard_undisturbed (slot : Nat) (m : VMManager) (env : RefreshEnv) :
    env.unheard.Undisturbed slot m := Or.inr fun _ _ _ _ => rfl

/-! ## One notification -/

/-- What the calls of one notification tell, in terms of the calls. -/
theorem changesTo_of_mgr {slot : Nat} {m : VMManager} {t : List Entry} (h : ∀ e ∈ t, e.mgr = m) :
    changesTo slot t = (toldTo slot t).filterMap (·.change? m) := by
  rw [changesTo, toldTo, List.filterMap_filterMap]
  refine List.filterMap_congr fun e he => ?_
  unfold Entry.change? Entry.toldTo?
  rw [h e he]
  cases e.action with
  | notified slot' call =>
    by_cases hslot : slot' = slot
    · simp [hslot]
    · simp [hslot]
  | fetched _ _ | recorded _ | overwrote _ _ | nullInserted _ => rfl

/-- **One notification tells a handler what it tells all**, if those in front of it return. -/
theorem changesTo_calls {slot : Nat} {m : VMManager} {env : RefreshEnv}
    (h : env.Undisturbed slot m) (count : Nat) (call : Notification) :
    changesTo slot (calls env count m call 0 m.vmEventHandlers) =
      changesTo slot (allCalls m call) := by
  have hmgr : ∀ e ∈ calls env count m call 0 m.vmEventHandlers, e.mgr = m := by
    intro e he
    obtain ⟨slot', rfl⟩ := mem_calls he
    rfl
  rw [changesTo_of_mgr hmgr, toldTo_calls]
  by_cases hslot : slot < m.vmEventHandlers.length
  · have hreturn : handlersReturn env count call 0 slot = true := by
      rcases h with hle | hreturn
      · omega
      · refine List.all_eq_true.mpr fun i hi => ?_
        have hlt : i < slot := by simpa using hi
        rw [hreturn count i call hlt]
        rfl
    rw [if_pos ⟨Nat.zero_le _, by omega, hreturn⟩, changesTo_allCalls hslot]
    cases hchange : call.change? m <;> simp [hchange]
  · rw [if_neg (by omega), changesTo_allCalls_of_le (Nat.le_of_not_lt hslot)]
    rfl

/-! ## What a handler hears of the passes -/

/-- The handler in `slot` hears of the trace `t` what it would hear of steps from `m` to `m'` in
which all handlers return. -/
def Heard (slot : Nat) (m : VMManager) (t : List Entry) (m' : VMManager) : Prop :=
  ∃ t', Steps m t' m' ∧ changesTo slot t = changesTo slot t'

theorem Heard.refl (slot : Nat) (m : VMManager) : Heard slot m [] m := ⟨[], .refl m, rfl⟩

theorem Heard.trans {slot : Nat} {m m' m'' : VMManager} {t t' : List Entry} (h : Heard slot m t m')
    (h' : Heard slot m' t' m'') : Heard slot m (t ++ t') m'' := by
  obtain ⟨u, hsteps, hu⟩ := h
  obtain ⟨u', hsteps', hu'⟩ := h'
  exact ⟨u ++ u', hsteps.trans hsteps', by rw [changesTo_append, changesTo_append, hu, hu']⟩

section Refresh

variable {slot : Nat} {env : RefreshEnv}

theorem turn_heard (hown : env.HonestUUIDs) {s : RefreshState} (hs : s.mgr.WellKept)
    (hquiet : env.Undisturbed slot s.mgr) (id : String) :
    ∃ t, Heard slot s.mgr t (turn env id s).2.mgr ∧ (turn env id s).2.trace = s.trace ++ t := by
  refine ⟨_, ?_, rfl⟩
  obtain ⟨t', hsteps, htrace⟩ := turn_steps env.unheard_handlersReturn
    (show env.unheard.HonestUUIDs from hown) hs id
  refine ⟨t', hsteps, ?_⟩
  rw [← List.append_cancel_left htrace]
  show changesTo slot (turnTrace env _ _ id (s.nextAnswer env id)) =
    changesTo slot (turnTrace env.unheard _ _ id (s.nextAnswer env id))
  unfold turnTrace
  cases hw : s.mgr.writeFor id (s.nextAnswer env id) with
  | none => rfl
  | some w =>
    have hquiet' : env.Undisturbed slot w.mgr := by
      rwa [RefreshEnv.Undisturbed, VMManager.writeFor_handlers hw]
    have hsplit : ∀ calls : List Entry,
        changesTo slot (⟨s.mgr, .fetched id (s.nextAnswer env id)⟩ :: ⟨w.mgr, w.action⟩ :: calls) =
          changesTo slot [⟨s.mgr, .fetched id (s.nextAnswer env id)⟩, ⟨w.mgr, w.action⟩] ++
            changesTo slot calls := fun calls => changesTo_append slot [_, _] calls
    show changesTo slot (_ :: _ :: _) = changesTo slot (_ :: _ :: _)
    rw [hsplit (calls env _ _ _ _ _), hsplit (calls env.unheard _ _ _ _ _), changesTo_calls hquiet',
      changesTo_calls (env.unheard_undisturbed slot w.mgr)]

theorem turns_heard (hown : env.HonestUUIDs) (ids : List String) {s : RefreshState}
    (hs : s.mgr.WellKept) (hquiet : env.Undisturbed slot s.mgr) :
    ∃ t, Heard slot s.mgr t (turns env ids s).2.mgr ∧ (turns env ids s).2.trace = s.trace ++ t := by
  induction ids generalizing s with
  | nil => exact ⟨[], .refl _ _, by simp [turns]⟩
  | cons id rest ih =>
    obtain ⟨t, hheard, htrace⟩ := turn_heard hown hs hquiet id
    have hquiet' : env.Undisturbed slot (turn env id s).2.mgr := by
      rwa [RefreshEnv.Undisturbed, turn_mgr, VMManager.absorb_handlers]
    obtain ⟨t', hheard', htrace'⟩ := ih (turn_wellKept hs id) hquiet'
    refine ⟨t ++ t', hheard.trans hheard', ?_⟩
    rw [turns, htrace', htrace, List.append_assoc]

/-- The removal pass is heard as if all handlers returned, as far as it comes. Induction on the
VMs. -/
theorem removeTurns_heard (ids : List String) {vms : List (Ptr × String)} {s : RefreshState}
    (hquiet : env.Undisturbed slot s.mgr) (hnodup : (vms.map Prod.snd).Nodup)
    (hvms : ∀ vm u, (vm, u) ∈ vms → ∃ r, vm = some r ∧ s.mgr.getVM u = some r) :
    ∃ t, Heard slot s.mgr t (removeTurns env ids vms s).2.mgr ∧
      (removeTurns env ids vms s).2.trace = s.trace ++ t := by
  induction vms generalizing s with
  | nil => exact ⟨[], .refl _ _, by simp [removeTurns]⟩
  | cons e rest ih =>
    obtain ⟨vm, u⟩ := e
    obtain ⟨r, rfl, hr⟩ := hvms vm u (by simp)
    rw [List.map_cons, List.nodup_cons] at hnodup
    have hvms' := fun vm' u' (hmem : (vm', u') ∈ rest) => hvms vm' u' (by simp [hmem])
    by_cases hu : u ∉ ids
    · -- the VM is dropped before anybody is told
      let dropped : RefreshState := ⟨s.mgr.eraseVM u, s.trace ++
        calls env (fetches s.trace).length (s.mgr.eraseVM u) (.oldVMRemoved (some r)) 0
          s.mgr.vmEventHandlers⟩
      have hdrop : Heard slot s.mgr (calls env (fetches s.trace).length (s.mgr.eraseVM u)
          (.oldVMRemoved (some r)) 0 s.mgr.vmEventHandlers) (s.mgr.eraseVM u) :=
        ⟨_, .single (.removed hr), changesTo_calls (m := s.mgr.eraseVM u) hquiet _ _⟩
      have hturn : removeTurn env ids (some r) u s = (callsOutcome env (fetches s.trace).length
          (.oldVMRemoved (some r)) 0 s.mgr.vmEventHandlers, dropped) := by
        rw [removeTurn, if_pos hu]
      rw [removeTurns, hturn]
      cases callsOutcome env (fetches s.trace).length (.oldVMRemoved (some r)) 0
          s.mgr.vmEventHandlers with
      | error ex => exact ⟨_, hdrop, rfl⟩
      | ok _ =>
        obtain ⟨t, hheard, htrace⟩ := ih (s := dropped) hquiet hnodup.2
          (getVM_of_rest hnodup.1 hvms')
        exact ⟨_, hdrop.trans hheard, by rw [htrace, List.append_assoc]⟩
    · rw [removeTurns, removeTurn_of_listed env (not_not.mp hu)]
      exact ih hquiet hnodup.2 hvms'

/-- **A refresh is heard as if all handlers returned**, also if it is ended by one. -/
theorem refresh_heard {m : VMManager} (hm : m.WellKept) (hown : env.HonestUUIDs)
    (hquiet : env.Undisturbed slot m) :
    Heard slot m (m.refresh env).2.trace (m.refresh env).2.mgr := by
  cases hids : env.getVirtualMachineIDs with
  | error ex =>
    rw [refresh_of_error hids]
    exact .refl slot m
  | ok ids =>
    rw [refresh_of_ok hm hids]
    have hs : (⟨m, []⟩ : RefreshState).mgr.WellKept := hm
    obtain ⟨t, hheard, htrace⟩ :=
      turns_heard hown (fetchOrder env ids ⟨m, []⟩) hs hquiet
    have hkept := turns_wellKept env (fetchOrder env ids ⟨m, []⟩) hs
    have hquiet' : env.Undisturbed slot (turns env (fetchOrder env ids ⟨m, []⟩) ⟨m, []⟩).2.mgr := by
      rwa [RefreshEnv.Undisturbed, turns_handlers]
    obtain ⟨hnodup, hmem⟩ := knownVMs_spec env.iteration hkept
    obtain ⟨t', hheard', htrace'⟩ :=
      removeTurns_heard ids hquiet' hnodup fun vm u h => (hmem vm u).mp h
    have hall := hheard.trans hheard'
    rw [htrace, List.nil_append] at htrace'
    simpa only [VMManager.fetchAll, htrace'] using hall

end Refresh

/-! ## Runs -/

/-- A slot beyond the handlers hears nothing. Induction on the operations. -/
theorem changesTo_runOps_of_le {slot : Nat} (ops : List Op)
    (hown : ∀ op ∈ ops, op.Meets RefreshEnv.HonestUUIDs)
    (hslot : (runOps ops).mgr.vmEventHandlers.length ≤ slot) :
    changesTo slot (runOps ops).trace = [] := by
  induction ops using List.reverseRecOn with
  | nil => rfl
  | append_singleton ops op ih =>
    have hown' := fun op' h => hown op' (List.mem_append_left _ h)
    rw [runOps_concat] at hslot ⊢
    cases op with
    | registerVMEventHandler eventHandler =>
      refine ih hown' (Nat.le_trans ?_ hslot)
      simp [Op.perform, VMManager.registerVMEventHandler]
    | refreshVMList env =>
      have hkept := (runOps_sound ops).1
      have hhandlers := refresh_handlers hkept env
      have hbefore : (runOps ops).mgr.vmEventHandlers.length ≤ slot := by
        rw [← hhandlers]
        exact hslot
      obtain ⟨t, hsteps, ht⟩ := refresh_heard hkept
        (hown (.refreshVMList env) (by simp)) (Or.inl hbefore)
      show changesTo slot ((runOps ops).trace ++ _) = []
      rw [changesTo_append, ih hown' hbefore, ht, changesTo_eq_nil_of_steps hsteps hslot]
      rfl

/-- What a handler hears of operations behind its registration. -/
theorem foldl_perform_heard {slot : Nat} {ops : List Op} {s : RefreshState} (hs : s.mgr.WellKept)
    (hown : ∀ op ∈ ops, op.Meets RefreshEnv.HonestUUIDs)
    (hret : ∀ op ∈ ops, op.Meets (RefreshEnv.ReturnBefore slot)) :
    ∃ t, Heard slot s.mgr t (ops.foldl Op.perform s).mgr ∧
      (ops.foldl Op.perform s).trace = s.trace ++ t := by
  induction ops generalizing s with
  | nil => exact ⟨[], .refl _ _, by simp⟩
  | cons op rest ih =>
    have hstep : ∃ t, Heard slot s.mgr t (op.perform s).mgr ∧
        (op.perform s).trace = s.trace ++ t := by
      cases op with
      | registerVMEventHandler h =>
        exact ⟨[], ⟨[], .single (.registered _ h), rfl⟩, by simp [Op.perform]⟩
      | refreshVMList env =>
        have hown' : env.HonestUUIDs := hown (.refreshVMList env) List.mem_cons_self
        have hret' : env.ReturnBefore slot := hret (.refreshVMList env) List.mem_cons_self
        exact ⟨_, refresh_heard hs hown' (Or.inr hret'), rfl⟩
    obtain ⟨t, hheard, htrace⟩ := hstep
    obtain ⟨t', hheard', htrace'⟩ := ih (hheard.choose_spec.1.wellKept hs)
      (fun o ho => hown o (by simp [ho])) (fun o ho => hret o (by simp [ho]))
    -- an operation that a handler further behind has ended is heard as if nobody had thrown
    refine ⟨t ++ t', hheard.trans hheard', ?_⟩
    rw [List.foldl_cons, htrace', htrace, List.append_assoc]

section Registered

variable {before after : List Op} (eventHandler : Ref)
  (hown : ∀ op ∈ before ++ after, op.Meets RefreshEnv.HonestUUIDs)
  (hret : ∀ op ∈ after,
    op.Meets (RefreshEnv.ReturnBefore (runOps before).mgr.vmEventHandlers.length))
include hown hret

/-- What a handler hears is heard of steps in which all handlers return. -/
theorem runOps_heard :
    let start := (runOps before).mgr
    let final := runOps (before ++ .registerVMEventHandler eventHandler :: after)
    ∃ t, Steps (start.registerVMEventHandler eventHandler) t final.mgr ∧
      changesTo start.vmEventHandlers.length final.trace =
        changesTo start.vmEventHandlers.length t := by
  intro start final
  have hstart : start.WellKept := (runOps_sound before).1
  obtain ⟨t, ⟨t', hsteps, ht⟩, htrace⟩ := foldl_perform_heard
    (s := ⟨start.registerVMEventHandler eventHandler, (runOps before).trace⟩)
    (hstart.registerVMEventHandler eventHandler)
    (fun op h => hown op (List.mem_append_right _ h)) hret
  have hfinal : final = after.foldl Op.perform
      ⟨start.registerVMEventHandler eventHandler, (runOps before).trace⟩ := by
    simp only [final, runOps, List.foldl_append, List.foldl_cons]
    rfl
  rw [← hfinal] at hsteps htrace
  -- what was told before belongs to the slots in front
  have hbefore : changesTo start.vmEventHandlers.length (runOps before).trace = [] :=
    changesTo_runOps_of_le before (fun op h => hown op (List.mem_append_left _ h)) (Nat.le_refl _)
  refine ⟨t', hsteps, ?_⟩
  rw [htrace, changesTo_append, hbefore, List.nil_append, ht]

/-- The mirror of a handler behind handlers that return. -/
theorem runOps_heard_mirror :
    let start := (runOps before).mgr
    let final := runOps (before ++ .registerVMEventHandler eventHandler :: after)
    let changes := changesTo start.vmEventHandlers.length final.trace
    replay start.view changes = final.mgr.view ∧ WellFormed StatusChange start.view changes := by
  intro start final changes
  have hstart : start.WellKept := (runOps_sound before).1
  obtain ⟨t, hsteps, ht⟩ := runOps_heard eventHandler hown hret
  have hslot : start.vmEventHandlers.length <
      (start.registerVMEventHandler eventHandler).vmEventHandlers.length := by
    simp [VMManager.registerVMEventHandler]
  -- in these steps everybody returns, so that whoever is called behind makes no difference
  have hmirror := steps_mirror hsteps (hstart.registerVMEventHandler eventHandler) hslot
  rw [← ht] at hmirror
  exact hmirror

theorem runOps_heard_statuses :
    let start := (runOps before).mgr
    let final := runOps (before ++ .registerVMEventHandler eventHandler :: after)
    replay start.statuses (eventsTo start.vmEventHandlers.length final.trace) =
      final.mgr.statuses := by
  intro start final
  rw [VMManager.statuses_eq_view, VMManager.statuses_eq_view,
    ← (runOps_heard_mirror eventHandler hown hret).1, ← replay_map]
  rfl

theorem runOps_heard_handler :
    (runOps (before ++ .registerVMEventHandler eventHandler :: after)).mgr.vmEventHandlers[
      (runOps before).mgr.vmEventHandlers.length]? = some eventHandler := by
  obtain ⟨t, hsteps, -⟩ := runOps_heard eventHandler hown hret
  obtain ⟨rest, hrest⟩ := hsteps.handlers_grow
  rw [← hrest]
  simp [VMManager.registerVMEventHandler]

end Registered

/-- **A handler depends on those registered before it, and on no others.** In every run, whoever
throws from whatever callback and whichever refreshes this ends: as long as the handlers registered
before it return, and each VM is returned with the UUID it is asked for by, the events a handler has
received so far, replayed over the statuses at its registration, are the statuses now, and the
events about each UUID are well formed. -/
theorem mirror_behind_returning (before after : List Op) (eventHandler : Ref)
    (hown : ∀ op ∈ before ++ after, op.Meets RefreshEnv.HonestUUIDs) :
    let start := (runOps before).mgr
    let final := runOps (before ++ .registerVMEventHandler eventHandler :: after)
    let slot := start.vmEventHandlers.length
    let events := eventsTo slot final.trace
    (∀ op ∈ after, op.Meets (RefreshEnv.ReturnBefore slot)) →
      final.mgr.vmEventHandlers[slot]? = some eventHandler ∧
      replay start.statuses events = final.mgr.statuses ∧
      ∀ u, WellFormed (· ≠ ·) start.statuses (events.filter fun c => c.key = u) := by
  intro start final slot events hret
  refine ⟨runOps_heard_handler eventHandler hown hret, runOps_heard_statuses eventHandler hown hret,
    fun u => WellFormed.filter_key rfl ?_⟩
  -- a mirror of the records, of which a change is one of the status, is one of the statuses
  rw [VMManager.statuses_eq_view]
  exact (runOps_heard_mirror eventHandler hown hret).2.map fun a b h => h.2

/-- The handler registered second throws from everything; the first removal of the second refresh
ends it. -/
theorem mirror_behind_returning_throwing :
    let throwing : List String → RefreshEnv := fun ids => { RefreshEnv.uniform ids .on with
      callback := fun _ slot _ => if slot = 1 then .error ⟨"handler"⟩ else .ok () }
    let after : List Op := [.registerVMEventHandler 8, .refreshVMList (throwing ["vmA", "vmB"]),
      .refreshVMList (throwing [])]
    let final := runOps (.registerVMEventHandler 7 :: after)
    replay VMManager.init.statuses (eventsTo 0 final.trace) = final.mgr.statuses := by
  intro throwing after final
  have hown : ∀ op ∈ [] ++ after, op.Meets RefreshEnv.HonestUUIDs := by
    have hthrowing : ∀ ids, (throwing ids).HonestUUIDs := fun ids =>
      RefreshEnv.uniform_honestUUIDs ids .on
    simp [after, Op.Meets, hthrowing]
  have hret : ∀ op ∈ after, op.Meets (RefreshEnv.ReturnBefore 0) := by
    have hthrowing : ∀ ids, (throwing ids).ReturnBefore 0 := fun ids count i call hi =>
      absurd hi (Nat.not_lt_zero i)
    simp [after, Op.Meets, hthrowing]
  exact (mirror_behind_returning [] after 7 hown hret).2.1

end NebuApp
