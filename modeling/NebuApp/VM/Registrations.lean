import NebuApp.VM.Events
import NebuApp.VM.Reentrant
import Mathlib.Logic.Relation
import Mathlib.Data.List.InsertIdx

/-!
# Handlers registered from inside a callback

When callbacks may register handlers, a refresh is still a sequence of fetches and of writes with
their notifications, each going round the handlers there are by its end (`refresh_steps`). So the
events of every handler mirror the tracked VMs, from whatever moment it was registered at. One
registered by a callback is first told of the change that callback was told of, which it finds done
already (`registered_by_callback`).
-/

namespace NebuApp

open Exec Mirror

theorem VMManager.WellKept.registerAll {m : VMManager} (hm : m.WellKept)
    (eventHandlers : List Ref) :
    (m.registerAll eventHandlers).WellKept := ⟨hm.own⟩

namespace Reentrant

/-! ## What a notification tells -/

section Notified

variable {registered : Nat → List Ref} {call : Notification} {slot : Nat} {m m' : VMManager}
  {t : List Entry}

/-- A notification changes nothing but the list of handlers, at its end. -/
theorem Notified.registerAll (h : Notified registered call slot m t m') :
    ∃ eventHandlers, m' = m.registerAll eventHandlers := by
  induction h with
  | @done slot m hslot => exact ⟨[], by simp [VMManager.registerAll]⟩
  | @called slot m m' t hslot h ih =>
    obtain ⟨eventHandlers, rfl⟩ := ih
    exact ⟨registered slot ++ eventHandlers, by simp [VMManager.registerAll]⟩

theorem Notified.length_le (h : Notified registered call slot m t m') :
    m.vmEventHandlers.length ≤ m'.vmEventHandlers.length := by
  obtain ⟨eventHandlers, rfl⟩ := h.registerAll
  simp [VMManager.registerAll]

/-- It tells its change to each handler from `slot` on, and to no other. -/
theorem Notified.changesTo (h : Notified registered call slot m t m') (k : Nat) :
    NebuApp.changesTo k t =
      if slot ≤ k ∧ k < m'.vmEventHandlers.length then (call.change? m).toList else [] := by
  induction h with
  | @done slot m hslot =>
    rw [if_neg (by omega)]
    rfl
  | @called slot m m' t hslot h ih =>
    have hchange : call.change? (m.registerAll (registered slot)) = call.change? m := rfl
    have hlen : slot < m'.vmEventHandlers.length :=
      Nat.lt_of_lt_of_le hslot (Nat.le_trans (by simp [VMManager.registerAll]) h.length_le)
    have hcons : NebuApp.changesTo k (⟨m, .notified slot call⟩ :: t) =
        (if slot = k then (call.change? m).toList else []) ++ NebuApp.changesTo k t := by
      rw [← List.singleton_append, changesTo_append]
      congr 1
      by_cases hk : slot = k
      · cases hc : call.change? m <;> simp [NebuApp.changesTo, Entry.change?, hk, hc]
      · simp [NebuApp.changesTo, Entry.change?, hk]
    rw [hcons, ih, hchange]
    by_cases hk : slot = k
    · subst hk
      rw [if_pos rfl, if_neg (by omega), if_pos ⟨Nat.le_refl _, hlen⟩, List.append_nil]
    · rw [if_neg hk, List.nil_append]
      exact if_congr (by omega) rfl rfl

theorem Notified.fetches (h : Notified registered call slot m t m') : NebuApp.fetches t = [] := by
  induction h with
  | done hslot => rfl
  | called hslot h ih => exact ih

/-- **Inside a notification**: at a call, the handlers there are begin with those at its start, and
what its callback registers is behind them when the notification goes on. -/
theorem Notified.split (h : Notified registered call slot m t m')
    {pre rest : List Entry} {e : Entry} (ht : t = pre ++ e :: rest) :
    ∃ eventHandlers i, e = ⟨m.registerAll eventHandlers, .notified i call⟩ ∧
      i < e.mgr.vmEventHandlers.length ∧
      Notified registered call (i + 1) (e.mgr.registerAll (registered i)) rest m' ∧
      ∀ k, e.mgr.vmEventHandlers.length ≤ k → NebuApp.changesTo k pre = [] := by
  induction h generalizing pre with
  | done hslot => simp at ht
  | @called slot m m' t hslot h ih =>
    cases pre with
    | nil =>
      obtain ⟨rfl, rfl⟩ := List.cons_eq_cons.mp ht
      exact ⟨[], slot, by simp [VMManager.registerAll], hslot, h, fun k hk => rfl⟩
    | cons x pre =>
      obtain ⟨rfl, htail⟩ := List.cons_eq_cons.mp ht
      obtain ⟨eventHandlers, i, rfl, hi, hrest, hpre⟩ := ih htail
      refine ⟨registered slot ++ eventHandlers, i, by simp [VMManager.registerAll], hi, hrest,
        fun k hk => ?_⟩
      have hne : slot ≠ k := by
        simp only [VMManager.registerAll, List.length_append] at hk
        omega
      rw [← List.singleton_append, changesTo_append, hpre k hk]
      simp [NebuApp.changesTo, Entry.change?, hne]

end Notified

/-! ## Steps -/

/-- A write to the tracked VMs, and the notification that follows it. -/
inductive Change : VMManager → VMManager → Notification → Prop where
  | recorded {m : VMManager} {vm : VirtualMachine} (hnew : m.getVM vm.uuid = none) :
      Change m (m.recordVM vm) (.newVMAdded (some m.heap.next))
  | overwrote {m : VMManager} {u : String} {r : Ref} {old : VirtualMachine} {status : VMStatus}
      (hvm : m.getVM u = some r) (hold : m.heap.get? r = some old) (hne : old.status ≠ status) :
      Change m (m.overwriteStatus r status) (.existingVMChanged (some r) status.event)
  | removed {m : VMManager} {u : String} {r : Ref} (hvm : m.getVM u = some r) :
      Change m (m.eraseVM u) (.oldVMRemoved (some r))

theorem Change.wellKept {m w : VMManager} {call : Notification} (h : Change m w call)
    (hm : m.WellKept) : w.WellKept := by
  cases h with
  | recorded hnew => exact hm.recordVM _
  | overwrote hvm hold hne => exact hm.overwriteStatus _ _
  | removed hvm => exact hm.eraseVM _

theorem Change.handlers {m w : VMManager} {call : Notification} (h : Change m w call) :
    w.vmEventHandlers = m.vmEventHandlers := by
  cases h <;> rfl

/-- A notification tells what the write has done. -/
theorem Change.told {m w : VMManager} {call : Notification} (h : Change m w call)
    (hm : m.WellKept) :
    ∃ c, call.change? w = some c ∧ apply m.view c = w.view ∧ Fits StatusChange m.view c := by
  cases h with
  | @recorded vm hnew =>
    refine ⟨.added vm.uuid (m.heap.next, vm.status), ?_, (hm.view_recordVM vm).symm,
      hm.view_eq_none_iff.mpr hnew⟩
    simp [Notification.change?, Notification.vm, VMManager.recordVM]
  | @overwrote u r old status hvm hold hne =>
    obtain ⟨old', hold', hown, hview⟩ := hm.getVM_spec hvm
    obtain rfl : old = old' := Option.some.inj (hold.symm.trans hold')
    refine ⟨.changed u (r, status), ?_, (hm.view_overwriteStatus hvm status).symm, _, hview, rfl,
      hne⟩
    simp [Notification.change?, Notification.vm, VMManager.overwriteStatus, hold,
      VirtualMachine.setStatus, hown]
  | @removed u r hvm =>
    obtain ⟨old, hold, hown, hview⟩ := hm.getVM_spec hvm
    refine ⟨.removed u (r, old.status), ?_, (VMManager.view_eraseVM m u).symm, hview⟩
    simp [Notification.change?, Notification.vm, VMManager.eraseVM, hold, hown]

/-- The entry of a write. -/
def IsWrite (e : Entry) : Prop :=
  (∃ vm, e.action = .recorded vm) ∨ ∃ vm status, e.action = .overwrote vm status

/-- No handler is told of a write, and nothing fetched, before the notification. -/
theorem told_of_writes {writes : List Entry} (h : ∀ e ∈ writes, IsWrite e) :
    (∀ k, changesTo k writes = []) ∧ fetches writes = [] := by
  constructor
  · refine fun k => List.filterMap_eq_nil_iff.mpr fun e he => ?_
    rcases h e he with ⟨vm, haction⟩ | ⟨vm, status, haction⟩ <;> simp [Entry.change?, haction]
  · refine List.filterMap_eq_nil_iff.mpr fun e he => ?_
    rcases h e he with ⟨vm, haction⟩ | ⟨vm, status, haction⟩ <;> simp [Entry.fetch?, haction]

/-- One step of a refresh. -/
inductive Step (env : Env) : RefreshState → RefreshState → Prop where
  | fetched (s : RefreshState) (id : String) (answer : Answer) :
      Step env s ⟨s.mgr, s.trace ++ [⟨s.mgr, .fetched id answer⟩]⟩
  | changed {s : RefreshState} {w m' : VMManager} {call : Notification} {writes t : List Entry}
      (h : Change s.mgr w call) (hwrites : ∀ e ∈ writes, IsWrite e)
      (hn : Notified (env.registeredBy (fetches s.trace).length call) call 0 w t m') :
      Step env s ⟨m', s.trace ++ (writes ++ t)⟩

/-- A sequence of steps. -/
abbrev Steps (env : Env) : RefreshState → RefreshState → Prop := Relation.ReflTransGen (Step env)

theorem Step.wellKept {env : Env} {s s' : RefreshState} (h : Step env s s')
    (hs : s.mgr.WellKept) : s'.mgr.WellKept := by
  cases h with
  | fetched id answer => exact hs
  | changed h hwrites hn =>
    obtain ⟨eventHandlers, rfl⟩ := hn.registerAll
    exact (h.wellKept hs).registerAll eventHandlers

theorem Steps.wellKept {env : Env} {s s' : RefreshState} (h : Steps env s s')
    (hs : s.mgr.WellKept) : s'.mgr.WellKept := by
  induction h with
  | refl => exact hs
  | tail _ hstep ih => exact hstep.wellKept ih

/-! ## The refresh takes steps -/

section Exec

variable {env : Env} (hret : env.toRefreshEnv.HandlersReturn)
include hret

theorem exec_notify {s : RefreshState} {w : VMManager} {call : Notification} (writes : List Entry)
    (h : Change s.mgr w call) (hwrites : ∀ e ∈ writes, IsWrite e) :
    ∃ s', exec (forEachEventHandler env call) ⟨w, s.trace ++ writes⟩ = (.ok (), s') ∧
      Step env s s' ∧ s'.mgr.vmList = w.vmList := by
  obtain ⟨t, m', hexec, hnotified⟩ :=
    exec_forEachEventHandler hret call ⟨w, s.trace ++ writes⟩
  have hlist : m'.vmList = w.vmList := by
    obtain ⟨eventHandlers, rfl⟩ := hnotified.registerAll
    rfl
  rw [fetches_append, (told_of_writes hwrites).2, List.append_nil] at hnotified
  exact ⟨_, hexec, by rw [List.append_assoc]; exact .changed h hwrites hnotified, hlist⟩

/-- A pass that returns, in steps, and leaves what is known known. -/
def FetchesOn (env : Env) {α : Type} (x : VMProg α) (s : RefreshState)
    (P : α → RefreshState → Prop) :
    Prop :=
  ∃ a s', exec x s = (.ok a, s') ∧ Steps env s s' ∧ (∀ u ∈ s.mgr.vmList, u ∈ s'.mgr.vmList) ∧ P a s'

omit hret in
theorem exec_fetch {s : RefreshState} {id : String} {answer : Answer}
    (hans : env.getVirtualMachine id (answersFor id s.trace).length = answer) :
    exec (getVirtualMachine env.toRefreshEnv id) s =
      (abortOf answer, ⟨s.mgr, s.trace ++ [⟨s.mgr, .fetched id answer⟩]⟩) := by
  rw [exec_getVirtualMachine, hans]
  rfl

omit hret in
theorem exec_caught {s : RefreshState} {id : String} {ex : NebuServerException}
    (hans : env.getVirtualMachine id (answersFor id s.trace).length = .error ex)
    (f : VirtualMachine → VMProg Bool) :
    FetchesOn env
      (catchServerException (getVirtualMachine env.toRefreshEnv id >>= f) (pure false)) s
      fun _ _ => True := by
  exact ⟨_, _, exec_catchServerException (o := .error ex) (exec_bind_error (exec_fetch hans)),
    .single (.fetched s id (.error ex)), fun u hu => hu, trivial⟩

theorem exec_addNewVM (hown : env.toRefreshEnv.HonestUUIDs) {s : RefreshState}
    (hs : s.mgr.WellKept) {id : String} (hnone : s.mgr.vmList.lookup id = none) :
    FetchesOn env (addNewVM (forEachEventHandler env) env.toRefreshEnv id) s fun _ _ => True := by
  cases hans : env.getVirtualMachine id (answersFor id s.trace).length with
  | error ex => exact exec_caught hans _
  | ok vm =>
    let s₁ : RefreshState := ⟨s.mgr, s.trace ++ [⟨s.mgr, .fetched id (.ok vm)⟩]⟩
    let p : Ptr := some s.mgr.heap.next
    have hnew : s.mgr.getVM vm.uuid = none := by
      rw [hown id _ vm hans]
      exact hs.lookup_none_iff.mp hnone
    obtain ⟨s', hexec, hstep, hlist⟩ := exec_notify hret (s := s₁)
      [⟨s.mgr.recordVM vm, .recorded p⟩] (.recorded hnew) (by simp [IsWrite])
    have hderef : exec (deref p) ⟨{ s.mgr with heap := s.mgr.heap.alloc vm }, s₁.trace⟩ =
        (.ok vm, _) := exec_deref _ (Store.get?_alloc_next s.mgr.heap vm)
    have hadd : exec (addVM (forEachEventHandler env) p)
        ⟨{ s.mgr with heap := s.mgr.heap.alloc vm }, s₁.trace⟩ = (.ok (), s') :=
      (exec_bind_ok hderef).trans ((exec_bind_ok rfl).trans ((exec_bind_ok rfl).trans hexec))
    refine ⟨true, s', ?_, .head (.fetched s id (.ok vm)) (.single hstep), fun u hu => ?_, trivial⟩
    · exact exec_catchServerException (o := .ok ())
        ((exec_bind_ok (exec_fetch hans)).trans ((exec_bind_ok rfl).trans (exec_bind_ok hadd)))
    · rw [hlist]
      exact (AList.mem_insert _).mpr (Or.inr hu)

theorem exec_updateListedVM {s : RefreshState} (hs : s.mgr.WellKept) {id : String}
    (hknown : id ∈ s.mgr.vmList) :
    FetchesOn env (updateListedVM (forEachEventHandler env) env.toRefreshEnv id) s
      fun _ _ => True := by
  obtain ⟨p, hp⟩ := Option.isSome_iff_exists.mp (AList.lookup_isSome.mpr hknown)
  obtain ⟨r, old, rfl, hr, -⟩ := hs.own id p hp
  rw [updateListedVM, FetchesOn]
  simp only [exec_bind_ok (exec_vmListIndex s hp)]
  cases hans : env.getVirtualMachine id (answersFor id s.trace).length with
  | error ex => exact exec_caught hans _
  | ok vm =>
    let s₁ : RefreshState := ⟨s.mgr, s.trace ++ [⟨s.mgr, .fetched id (.ok vm)⟩]⟩
    have hderef : exec (deref (some r)) s₁ = (.ok old, s₁) := exec_deref s₁ hr
    by_cases hne : old.status ≠ vm.status
    · let m := s.mgr.overwriteStatus r vm.status
      obtain ⟨s', hexec, hstep, hlist⟩ := exec_notify hret (s := s₁)
        [⟨m, .overwrote (some r) vm.status⟩]
        (.overwrote (VMManager.lookup_eq_some_iff.mp hp) hr hne) (by simp [IsWrite])
      -- the status is read back for the event
      have hread : exec (deref (some r))
          (⟨m, s₁.trace ++ [⟨m, .overwrote (some r) vm.status⟩]⟩ : RefreshState) =
            (.ok (old.setStatus vm.status), _) := exec_deref _ (by
        simp [m, VMManager.overwriteStatus, hr])
      have hupdate : exec (updateVM (forEachEventHandler env) (some r) vm) s₁ = (.ok (), s') := by
        rw [updateVM, exec_bind_ok hderef, if_pos hne, exec_bind_ok (exec_setStatus _ _ _),
          exec_bind_ok (exec_emit _ _)]
        exact (exec_bind_ok hread).trans hexec
      refine ⟨true, s', ?_, .head (.fetched s id (.ok vm)) (.single hstep), fun u hu => ?_, trivial⟩
      · refine exec_catchServerException (o := .ok ()) ((exec_bind_ok (exec_fetch hans)).trans ?_)
        rw [exec_bind_ok hderef, if_pos hne]
        exact exec_bind_ok hupdate
      · rw [hlist]
        exact hu
    · refine ⟨true, s₁, ?_, .single (.fetched s id (.ok vm)), fun u hu => hu, trivial⟩
      refine exec_catchServerException (o := .ok ()) ((exec_bind_ok (exec_fetch hans)).trans ?_)
      rw [exec_bind_ok hderef, if_neg hne]
      rfl

/-- The erasing loop: what it leaves in the vector is known by its end. -/
theorem exec_addNewVMsLoop (hown : env.toRefreshEnv.HonestUUIDs) (ids : List String) (it : Nat)
    (succes : Bool) : ∀ s : RefreshState, s.mgr.WellKept → (∀ u ∈ ids.take it, u ∈ s.mgr.vmList) →
      FetchesOn env (addNewVMsLoop (forEachEventHandler env) env.toRefreshEnv ids it succes) s
        fun res s' => ∀ u ∈ res.2, u ∈ s'.mgr.vmList := by
  induction ids, it, succes using addNewVMsLoop.induct with
  | case1 ids it succes h ih₁ ih₂ =>
    intro s hs hbefore
    rw [addNewVMsLoop, dif_pos h, FetchesOn]
    simp only [exec_bind_ok (exec_get s)]
    by_cases hnone : s.mgr.vmList.lookup ids[it] = none
    · rw [if_pos hnone]
      obtain ⟨ok, s₁, hexec, hsteps, hkeeps, -⟩ := exec_addNewVM hret hown hs hnone
      have hbefore' : ∀ u ∈ (ids.eraseIdx it).take it, u ∈ s₁.mgr.vmList := by
        rw [List.take_eraseIdx_eq_take_of_le _ _ _ (Nat.le_refl it)]
        exact fun u hu => hkeeps u (hbefore u hu)
      obtain ⟨res, s₂, hexec', hsteps', hkeeps', hres⟩ :=
        ih₁ ok s₁ (Steps.wellKept hsteps hs) hbefore'
      exact ⟨res, s₂, (exec_bind_ok hexec).trans hexec', hsteps.trans hsteps',
        fun u hu => hkeeps' u (hkeeps u hu), hres⟩
    · rw [if_neg hnone]
      refine ih₂ s hs fun u hu => ?_
      rw [List.take_succ_eq_append_getElem h, List.mem_append, List.mem_singleton] at hu
      rcases hu with hu | rfl
      · exact hbefore u hu
      · exact AList.lookup_isSome.mp (Option.ne_none_iff_isSome.mp hnone)
  | case2 ids it succes h =>
    intro s hs hbefore
    rw [addNewVMsLoop, dif_neg h]
    rw [List.take_of_length_le (Nat.le_of_not_lt h)] at hbefore
    exact ⟨_, s, rfl, .refl, fun u hu => hu, hbefore⟩

theorem exec_updateVMsLoop (ids : List String) : ∀ (succes : Bool) (s : RefreshState),
    s.mgr.WellKept → (∀ id ∈ ids, id ∈ s.mgr.vmList) →
      FetchesOn env (updateVMsLoop (forEachEventHandler env) env.toRefreshEnv ids succes) s
        fun _ _ => True := by
  induction ids with
  | nil => exact fun succes s _ _ => ⟨succes, s, rfl, .refl, fun u hu => hu, trivial⟩
  | cons id rest ih =>
    intro succes s hs hknown
    obtain ⟨ok, s₁, hexec, hsteps, hkeeps, -⟩ :=
      exec_updateListedVM hret hs (hknown id List.mem_cons_self)
    obtain ⟨res, s₂, hexec', hsteps', hkeeps', -⟩ := ih (succes && ok) s₁
      (Steps.wellKept hsteps hs) fun u hu => hkeeps u (hknown u (List.mem_cons_of_mem _ hu))
    exact ⟨res, s₂, (exec_bind_ok hexec).trans hexec', hsteps.trans hsteps',
      fun u hu => hkeeps' u (hkeeps u hu), trivial⟩

theorem exec_removeVMsLoop (ids : Finset String) (vms : List (Ptr × String)) :
    ∀ s : RefreshState, s.mgr.WellKept → (vms.map Prod.snd).Nodup →
      (∀ vm u, (vm, u) ∈ vms → ∃ r, vm = some r ∧ s.mgr.getVM u = some r) →
      ∃ s', exec (removeVMsLoop (forEachEventHandler env) ids (vms.map Prod.fst)) s = (.ok (), s') ∧
        Steps env s s' := by
  induction vms with
  | nil => exact fun s _ _ _ => ⟨s, rfl, .refl⟩
  | cons x rest ih =>
    obtain ⟨vm, u⟩ := x
    intro s hs hnodup hvms
    obtain ⟨r, rfl, hr⟩ := hvms vm u List.mem_cons_self
    obtain ⟨v, hv, rfl, -⟩ := hs.getVM_spec hr
    rw [List.map_cons, List.nodup_cons] at hnodup
    have hvms' := fun vm' u' (hmem : (vm', u') ∈ rest) => hvms vm' u' (List.mem_cons_of_mem _ hmem)
    have hderef : exec (deref (some r)) s = (.ok v, s) := exec_deref s hv
    rw [List.map_cons, removeVMsLoop]
    simp only [exec_bind_ok hderef]
    by_cases hlisted : v.uuid ∉ ids
    · rw [if_pos hlisted]
      obtain ⟨s₁, hexec, hstep, hlist⟩ := exec_notify hret (s := s) [] (.removed hr)
        (fun e he => by cases he)
      rw [List.append_nil] at hexec
      have hremove : exec (removeVM (forEachEventHandler env) (some r)) s = (.ok (), s₁) :=
        (exec_bind_ok hderef).trans ((exec_bind_ok rfl).trans hexec)
      have hgetVM : ∀ u', s₁.mgr.getVM u' = (s.mgr.eraseVM v.uuid).getVM u' := fun u' => by
        rw [VMManager.getVM_eq, VMManager.getVM_eq, hlist]
      obtain ⟨s₂, hexec', hsteps⟩ := ih s₁ (hstep.wellKept hs) hnodup.2 fun vm' u' hmem => by
        rw [hgetVM]
        exact getVM_of_rest hnodup.1 hvms' vm' u' hmem
      exact ⟨s₂, (exec_bind_ok hremove).trans hexec', .head hstep hsteps⟩
    · rw [if_neg hlisted]
      exact ih s hs hnodup.2 hvms'

/-- **A refresh takes steps**, whomever its callbacks register. -/
theorem refresh_steps (hown : env.toRefreshEnv.HonestUUIDs) {m : VMManager} (hm : m.WellKept) :
    Steps env ⟨m, []⟩ (m.refreshReentrant env).2 := by
  rw [VMManager.refreshReentrant, refreshVMList]
  cases hids : env.getVirtualMachineIDs with
  | error ex => exact .refl
  | ok ids =>
    obtain ⟨⟨added, left⟩, s₁, hadd, hsteps₁, -, hleft⟩ :=
      exec_addNewVMsLoop hret hown ids 0 true ⟨m, []⟩ hm (by simp)
    have hs₁ := Steps.wellKept hsteps₁ hm
    obtain ⟨updated, s₂, hupdate, hsteps₂, -, -⟩ := exec_updateVMsLoop hret left true s₁ hs₁ hleft
    have hs₂ := Steps.wellKept hsteps₂ hs₁
    obtain ⟨hnodup, hmem⟩ := knownVMs_spec env.iteration hs₂
    obtain ⟨s₃, hremove, hsteps₃⟩ := exec_removeVMsLoop hret ids.toFinset
      (knownVMs env.iteration s₂.mgr) s₂ hs₂ hnodup fun vm u h => (hmem vm u).mp h
    have hknown : (knownVMs env.iteration s₂.mgr).map Prod.fst = s₂.mgr.getVMs env.iteration := by
      simp [VMManager.getVMs, knownVMs, Function.comp_def]
    rw [hknown] at hremove
    have hall : exec (removeVMs (forEachEventHandler env) env.toRefreshEnv ids) s₂ = (.ok (), s₃) :=
      (exec_bind_ok (exec_get s₂)).trans hremove
    simp only [addNewVMs, updateVMs, exec_bind_ok hadd, exec_bind_ok hupdate, exec_bind_ok hall]
    exact hsteps₁.trans (hsteps₂.trans hsteps₃)

end Exec

/-! ## What handlers are told -/

/-- From `s` to `s'`, the handlers there are at `s` are told what happens to the tracked VMs, and
nobody is who is not there at `s'`. -/
def Tells (s s' : RefreshState) : Prop :=
  ∃ t, s'.trace = s.trace ++ t ∧ s.mgr.vmEventHandlers <+: s'.mgr.vmEventHandlers ∧
    (∀ k < s.mgr.vmEventHandlers.length, replay s.mgr.view (changesTo k t) = s'.mgr.view ∧
      WellFormed StatusChange s.mgr.view (changesTo k t)) ∧
    ∀ k, s'.mgr.vmEventHandlers.length ≤ k → changesTo k t = []

theorem Tells.refl (s : RefreshState) : Tells s s :=
  ⟨[], by simp, List.prefix_rfl, fun k hk => ⟨rfl, trivial⟩, fun k hk => rfl⟩

theorem Tells.trans {s s' s'' : RefreshState} (h : Tells s s') (h' : Tells s' s'') :
    Tells s s'' := by
  obtain ⟨t, htrace, hgrow, htold, hnobody⟩ := h
  obtain ⟨t', htrace', hgrow', htold', hnobody'⟩ := h'
  refine ⟨t ++ t', by rw [htrace', htrace, List.append_assoc], hgrow.trans hgrow', fun k hk => ?_,
    fun k hk => ?_⟩
  · obtain ⟨hreplay, hwf⟩ := htold k hk
    obtain ⟨hreplay', hwf'⟩ := htold' k (Nat.lt_of_lt_of_le hk hgrow.length_le)
    rw [changesTo_append, replay_append, wellFormed_append, hreplay]
    exact ⟨hreplay', hwf, hwf'⟩
  · rw [changesTo_append, hnobody' k hk, hnobody k (Nat.le_trans hgrow'.length_le hk)]
    rfl

theorem Tells.prepend {s s' : RefreshState} (h : Tells s s') (pre : List Entry) :
    Tells ⟨s.mgr, pre ++ s.trace⟩ ⟨s'.mgr, pre ++ s'.trace⟩ := by
  obtain ⟨t, htrace, htold⟩ := h
  exact ⟨t, by rw [htrace, List.append_assoc], htold⟩

/-- **A step tells what it does**, to all there are by its end. -/
theorem Step.tells {env : Env} {s s' : RefreshState} (h : Step env s s') (hs : s.mgr.WellKept) :
    Tells s s' := by
  cases h with
  | fetched id answer =>
    exact ⟨_, rfl, List.prefix_rfl, fun k hk => ⟨rfl, trivial⟩, fun k hk => rfl⟩
  | @changed w m' call writes t h hwrites hn =>
    obtain ⟨c, hc, happly, hfits⟩ := h.told hs
    have hgrow : s.mgr.vmEventHandlers <+: m'.vmEventHandlers := by
      obtain ⟨eventHandlers, rfl⟩ := hn.registerAll
      rw [← h.handlers]
      exact List.prefix_append _ _
    have hview : m'.view = w.view := by
      obtain ⟨eventHandlers, rfl⟩ := hn.registerAll
      rfl
    refine ⟨_, rfl, hgrow, fun k hk => ?_, fun k hk => ?_⟩
    · rw [changesTo_append, (told_of_writes hwrites).1, List.nil_append, hn.changesTo,
        if_pos ⟨Nat.zero_le k, Nat.lt_of_lt_of_le hk hgrow.length_le⟩, hc, hview, ← happly]
      exact ⟨rfl, hfits, trivial⟩
    · rw [changesTo_append, (told_of_writes hwrites).1, List.nil_append, hn.changesTo,
        if_neg fun h' => Nat.not_lt.mpr hk h'.2]

theorem Steps.tells {env : Env} {s s' : RefreshState} (h : Steps env s s') (hs : s.mgr.WellKept) :
    Tells s s' := by
  induction h with
  | refl => exact .refl s
  | tail hsteps hstep ih => exact ih.trans (hstep.tells (Steps.wellKept hsteps hs))

section Runs

variable {ops : List Op} (hown : ∀ op ∈ ops, op.Meets RefreshEnv.HonestUUIDs)
  (hret : ∀ op ∈ ops, op.Meets RefreshEnv.HandlersReturn)
include hown hret

/-- A run tells what it does. Induction on the operations. -/
theorem foldl_perform_tells {s : RefreshState} (hs : s.mgr.WellKept) :
    (ops.foldl Op.perform s).mgr.WellKept ∧ Tells s (ops.foldl Op.perform s) := by
  induction ops generalizing s with
  | nil => exact ⟨hs, .refl s⟩
  | cons op rest ih =>
    have hstep : (op.perform s).mgr.WellKept ∧ Tells s (op.perform s) := by
      cases op with
      | registerVMEventHandler h =>
        exact ⟨hs.registerVMEventHandler h, [], by simp [Op.perform], List.prefix_append _ _,
          fun k hk => ⟨rfl, trivial⟩, fun k hk => rfl⟩
      | refreshVMList env =>
        have hsteps := refresh_steps (hret (.refreshVMList env) List.mem_cons_self)
          (hown (.refreshVMList env) List.mem_cons_self) hs
        have htells := (Steps.tells hsteps hs).prepend s.trace
        rw [List.append_nil] at htells
        have hkept : (s.mgr.refreshReentrant env).2.mgr.WellKept := Steps.wellKept hsteps hs
        exact ⟨hkept, htells⟩
    obtain ⟨hkept, htells⟩ := ih (fun o ho => hown o (List.mem_cons_of_mem _ ho))
      (fun o ho => hret o (List.mem_cons_of_mem _ ho)) hstep.1
    exact ⟨hkept, hstep.2.trans htells⟩

theorem runOps_tells : (runOps ops).mgr.WellKept ∧ Tells ⟨.init, []⟩ (runOps ops) :=
  foldl_perform_tells hown hret VMManager.wellKept_init

theorem changesTo_runOps {k : Nat} (hk : (runOps ops).mgr.vmEventHandlers.length ≤ k) :
    changesTo k (runOps ops).trace = [] := by
  obtain ⟨-, t, htrace, -, -, hnobody⟩ := runOps_tells hown hret
  rw [htrace]
  exact hnobody k hk

end Runs

/-- A handler is told what happens behind its registration: `s` is the state then. -/
theorem Tells.statuses {s s' : RefreshState} (h : Tells s s') {k : Nat}
    (hk : k < s.mgr.vmEventHandlers.length) {t : List Entry} (ht : s'.trace = s.trace ++ t) :
    replay s.mgr.statuses (eventsTo k t) = s'.mgr.statuses ∧
      ∀ u, WellFormed (· ≠ ·) s.mgr.statuses ((eventsTo k t).filter fun c => c.key = u) := by
  obtain ⟨t', htrace, -, htold, -⟩ := h
  obtain rfl : t' = t := List.append_cancel_left (htrace.symm.trans ht)
  obtain ⟨hreplay, hwf⟩ := htold k hk
  refine ⟨?_, fun u => WellFormed.filter_key rfl ?_⟩
  · rw [VMManager.statuses_eq_view, VMManager.statuses_eq_view, ← hreplay, ← replay_map]
    rfl
  · rw [VMManager.statuses_eq_view]
    exact hwf.map fun a b h => h.2

theorem eventsTo_append (k : Nat) (t t' : List Entry) :
    eventsTo k (t ++ t') = eventsTo k t ++ eventsTo k t' := by
  rw [eventsTo, changesTo_append, List.map_append]
  rfl

theorem runOps_append (ops ops' : List Op) :
    runOps (ops ++ ops') = ops'.foldl Op.perform (runOps ops) := List.foldl_append

/-- **The mirror, whomever callbacks register.** With honest UUIDs and handlers that return, a
handler registered between the refreshes of a run mirrors the tracked VMs, as if no callback
registered others. -/
theorem mirror_reentrant (before after : List Op) (eventHandler : Ref)
    (hown : ∀ op ∈ before ++ after, op.Meets RefreshEnv.HonestUUIDs)
    (hret : ∀ op ∈ before ++ after, op.Meets RefreshEnv.HandlersReturn) :
    let start := (runOps before).mgr
    let final := runOps (before ++ .registerVMEventHandler eventHandler :: after)
    let slot := start.vmEventHandlers.length
    let events := eventsTo slot final.trace
    final.mgr.vmEventHandlers[slot]? = some eventHandler ∧
      replay start.statuses events = final.mgr.statuses ∧
      ∀ u, WellFormed (· ≠ ·) start.statuses (events.filter fun c => c.key = u) := by
  intro start final slot events
  have hown₁ := fun op h => hown op (List.mem_append_left after h)
  have hret₁ := fun op h => hret op (List.mem_append_left after h)
  have hown₂ := fun op h => hown op (List.mem_append_right before h)
  have hret₂ := fun op h => hret op (List.mem_append_right before h)
  obtain ⟨hkept, -⟩ := runOps_tells hown₁ hret₁
  let registered : RefreshState :=
    ⟨start.registerVMEventHandler eventHandler, (runOps before).trace⟩
  have hfinal : final = after.foldl Op.perform registered := runOps_append before _
  obtain ⟨-, htells⟩ := foldl_perform_tells hown₂ hret₂
    (s := registered) (hkept.registerVMEventHandler eventHandler)
  rw [← hfinal] at htells
  have hslot : slot < registered.mgr.vmEventHandlers.length := by
    simp [registered, VMManager.registerVMEventHandler, slot]
  have hstatuses := fun t => htells.statuses (t := t) hslot
  obtain ⟨t, htrace, ⟨others, hothers⟩, -, -⟩ := htells
  -- nothing was told to the slot while nobody was in it
  have hevents : events = eventsTo slot t := by
    show eventsTo slot final.trace = _
    rw [htrace, eventsTo_append, eventsTo, changesTo_runOps hown₁ hret₁ (Nat.le_refl _)]
    rfl
  obtain ⟨hreplay, hwf⟩ := hstatuses t htrace
  refine ⟨?_, hevents ▸ hreplay, hevents ▸ hwf⟩
  rw [← hothers]
  simp [registered, VMManager.registerVMEventHandler, slot]

/-- A handler 7 registers another when it is told of a VM, and 9 comes after them. -/
theorem mirror_reentrant_registering :
    let env : List String → Env := fun ids =>
      { RefreshEnv.uniform ids .on with registers := fun _ _ => [(0, 8)] }
    let before : List Op := [.registerVMEventHandler 7, .refreshVMList (env ["vmA"])]
    let start := (runOps before).mgr
    let final := runOps (before ++ [.registerVMEventHandler 9, .refreshVMList (env ["vmB"])])
    replay start.statuses (eventsTo start.vmEventHandlers.length final.trace) =
      final.mgr.statuses := by
  intro env before start final
  exact (mirror_reentrant before [.refreshVMList (env ["vmB"])] 9
    (by simp [before, Op.Meets, env, RefreshEnv.uniform_honestUUIDs])
    (by simp [before, Op.Meets, env, RefreshEnv.uniform_handlersReturn])).2.1

/-! ## Inside a callback -/

theorem Step.trace {env : Env} {s s' : RefreshState} (h : Step env s s') :
    ∃ t, s'.trace = s.trace ++ t := by
  cases h with
  | fetched id answer => exact ⟨_, rfl⟩
  | changed h hwrites hn => exact ⟨_, rfl⟩

/-- The step an entry is of. Induction on the steps: it is of the last one, or of one before. -/
theorem Steps.at_entry {env : Env} {m : VMManager} {s : RefreshState} (h : Steps env ⟨m, []⟩ s)
    {pre rest : List Entry} {e : Entry} (ht : s.trace = pre ++ e :: rest) :
    ∃ s₁ s₂ b rest₁ rest₂, Steps env ⟨m, []⟩ s₁ ∧ Step env s₁ s₂ ∧ Steps env s₂ s ∧
      pre = s₁.trace ++ b ∧ s₂.trace = s₁.trace ++ (b ++ e :: rest₁) ∧
      rest = rest₁ ++ rest₂ ∧ s.trace = s₂.trace ++ rest₂ := by
  induction h generalizing rest with
  | refl => simp at ht
  | @tail s₁ s₂ hsteps hstep ih =>
    obtain ⟨t, htrace⟩ := hstep.trace
    have hsplit := htrace.symm.trans ht
    rcases List.append_eq_append_iff.mp hsplit with ⟨b, hb, ht'⟩ | ⟨b, hb, hrest⟩
    · exact ⟨s₁, s₂, b, rest, [], hsteps, hstep, .refl, hb, by rw [htrace, ht'], by simp, by simp⟩
    · cases b with
      | nil =>
        have hb' : pre = s₁.trace ++ [] := by rw [hb, List.append_nil, List.append_nil]
        exact ⟨s₁, s₂, [], rest, [], hsteps, hstep, .refl, hb',
          by rw [htrace, List.nil_append, hrest, List.nil_append], by simp, by simp⟩
      | cons x b =>
        obtain ⟨rfl, htail⟩ := List.cons_eq_cons.mp hrest
        obtain ⟨s₃, s₄, b', rest₁, rest₂, h₁, h₂, h₃, hpre, hmid, hrest', hend⟩ := ih hb
        exact ⟨s₃, s₄, b', rest₁, rest₂ ++ t, h₁, h₂, h₃.tail hstep, hpre, hmid,
          by rw [show rest = b ++ t from htail, hrest', List.append_assoc],
          by rw [htrace, hend, List.append_assoc]⟩

/-- The call an entry is, in its step: what there is before it and behind it. -/
theorem Step.at_call {env : Env} {s s' : RefreshState} (h : Step env s s') (hs : s.mgr.WellKept)
    {b rest : List Entry} {e : Entry} (ht : s'.trace = s.trace ++ (b ++ e :: rest)) {i : Nat}
    {call : Notification} (he : e.action = .notified i call) :
    fetches b = [] ∧ i < e.mgr.vmEventHandlers.length ∧
      s.mgr.vmEventHandlers.length ≤ e.mgr.vmEventHandlers.length ∧
      (∀ k, e.mgr.vmEventHandlers.length ≤ k → changesTo k b = []) ∧
      Notified (env.registeredBy (fetches s.trace).length call) call (i + 1)
        (e.mgr.registerAll (env.registeredBy (fetches s.trace).length call i)) rest s'.mgr ∧
      ∃ c, call.change? e.mgr = some c ∧ apply e.mgr.view c = e.mgr.view := by
  cases h with
  | fetched id answer =>
    have hone := List.append_cancel_left ht
    cases b with
    | nil =>
      obtain ⟨rfl, -⟩ := List.cons_eq_cons.mp hone
      cases he
    | cons x b => simp at hone
  | @changed w m' call' writes t h hwrites hn =>
    have hsplit : writes ++ t = b ++ e :: rest := List.append_cancel_left ht
    -- the entry is behind the write
    obtain ⟨b', rfl, ht'⟩ : ∃ b', b = writes ++ b' ∧ t = b' ++ e :: rest := by
      rcases List.append_eq_append_iff.mp hsplit with ⟨b', hb, ht'⟩ | ⟨b', hb, hrest⟩
      · exact ⟨b', hb, ht'⟩
      · cases b' with
        | nil => exact ⟨[], by simp [hb], by simpa using hrest.symm⟩
        | cons x b' =>
          obtain ⟨rfl, -⟩ := List.cons_eq_cons.mp hrest
          have hwrite := hwrites e (by simp [hb])
          simp [IsWrite, he] at hwrite
    have hnone := hn.fetches
    obtain ⟨eventHandlers, i', rfl, hi, hrest, hpre⟩ := hn.split ht'
    cases he
    obtain ⟨c, hc, happly, -⟩ := h.told hs
    refine ⟨?_, hi, ?_, fun k hk => ?_, hrest, c, hc, ?_⟩
    · rw [ht', fetches_append] at hnone
      rw [fetches_append, (told_of_writes hwrites).2, (List.append_eq_nil_iff.mp hnone).1]
      rfl
    · rw [← h.handlers]
      simp [VMManager.registerAll]
    · rw [changesTo_append, (told_of_writes hwrites).1, hpre k hk]
      rfl
    · show apply w.view c = w.view
      rw [← happly, apply_apply]

/-- **What a handler hears of the refresh in which a callback registers it**: first of the change
the callback was told of, then of what follows. -/
theorem refresh_registered {env : Env} (hown : env.toRefreshEnv.HonestUUIDs)
    (hret : env.toRefreshEnv.HandlersReturn) {m : VMManager} (hm : m.WellKept)
    {pre rest : List Entry} {e : Entry}
    (ht : (m.refreshReentrant env).2.trace = pre ++ e :: rest) {i : Nat} {call : Notification}
    (he : e.action = .notified i call) {j : Nat} {eventHandler : Ref}
    (hj : (env.registeredBy (fetches pre).length call i)[j]? = some eventHandler) :
    let k := e.mgr.vmEventHandlers.length + j
    (m.refreshReentrant env).2.mgr.vmEventHandlers[k]? = some eventHandler ∧
      m.vmEventHandlers.length ≤ k ∧
      ∃ c s t, call.change? e.mgr = some c ∧ apply e.mgr.view c = e.mgr.view ∧
        changesTo k (m.refreshReentrant env).2.trace = c :: changesTo k t ∧
        s.mgr.view = e.mgr.view ∧ k < s.mgr.vmEventHandlers.length ∧
        (m.refreshReentrant env).2.trace = s.trace ++ t ∧ Tells s (m.refreshReentrant env).2 := by
  intro k
  have hsteps := refresh_steps hret hown hm
  -- the step of the call, with the steps before and behind it
  obtain ⟨s₁, s₂, b, rest₁, rest₂, h₁, hstep, h₂, rfl, hmid, rfl, hend⟩ := hsteps.at_entry ht
  have hs₁ := Steps.wellKept h₁ hm
  obtain ⟨hb, hi, hgrow, hbefore, hnotified, c, hc, happly⟩ := hstep.at_call hs₁ hmid he
  rw [fetches_append, hb, List.append_nil] at hj
  obtain ⟨others, hothers⟩ := hnotified.registerAll
  have hlt : j < (env.registeredBy (fetches s₁.trace).length call i).length :=
    (List.getElem?_eq_some_iff.mp hj).1
  -- pushed back behind those there at the call, before others are
  have hslot : s₂.mgr.vmEventHandlers[k]? = some eventHandler := by
    rw [hothers, VMManager.registerAll, VMManager.registerAll, List.append_assoc,
      List.getElem?_append_right (Nat.le_add_right _ _), Nat.add_sub_cancel_left,
      List.getElem?_append_left hlt, hj]
  have hk : k < s₂.mgr.vmEventHandlers.length := (List.getElem?_eq_some_iff.mp hslot).1
  obtain ⟨t₁, htrace₁, ⟨more, hmore⟩, -, hnobody⟩ := Steps.tells h₁ hm
  have htells := Steps.tells h₂ (hstep.wellKept hs₁)
  have hgrow₂ := htells
  obtain ⟨-, -, ⟨later, hlater⟩, -, -⟩ := hgrow₂
  have hfirst : changesTo k s₁.trace = [] := by
    rw [htrace₁]
    exact hnobody k (by omega)
  have hview : s₂.mgr.view = e.mgr.view := by
    rw [hothers]
    rfl
  refine ⟨?_, ?_, c, s₂, rest₂, hc, happly, ?_, hview, hk, hend, htells⟩
  · rw [← hlater, List.getElem?_append_left hk, hslot]
  · have hlen : m.vmEventHandlers.length ≤ s₁.mgr.vmEventHandlers.length := by
      rw [← hmore]
      simp
    omega
  · have hcall : changesTo k [e] = [] := by
      simp [changesTo, Entry.change?, he, show i ≠ k by omega]
    have hsplit : s₂.trace = s₁.trace ++ (b ++ ([e] ++ rest₁)) := hmid
    -- the notification comes to the new slot in the end
    have hthis : changesTo k rest₁ = [c] := by
      have hchange : call.change? (e.mgr.registerAll
        (env.registeredBy (fetches s₁.trace).length call i)) = call.change? e.mgr := rfl
      rw [hnotified.changesTo, if_pos ⟨by omega, hk⟩, hchange, hc]
      rfl
    rw [hend, hsplit, changesTo_append, changesTo_append, changesTo_append, changesTo_append,
      hfirst, hbefore k (Nat.le_add_right _ _), hcall, hthis]
    rfl

/-- **A handler registered by a callback.** In every run with honest UUIDs and handlers that return,
a handler that is registered while another is told of a change is told of this change first, in the
same notification. It finds the change done already; told of it again, or not, it mirrors the
tracked VMs from its registration on, and what it is told of behind it is well formed. -/
theorem registered_by_callback (before after : List Op) (env : Env)
    (hown : ∀ op ∈ before ++ .refreshVMList env :: after, op.Meets RefreshEnv.HonestUUIDs)
    (hret : ∀ op ∈ before ++ .refreshVMList env :: after, op.Meets RefreshEnv.HandlersReturn) :
    let final := runOps (before ++ .refreshVMList env :: after)
    ∀ pre e rest i call, ((runOps before).mgr.refreshReentrant env).2.trace = pre ++ e :: rest →
      e.action = .notified i call →
      ∀ j eventHandler, (env.registeredBy (fetches pre).length call i)[j]? = some eventHandler →
        let slot := e.mgr.vmEventHandlers.length + j
        final.mgr.vmEventHandlers[slot]? = some eventHandler ∧
        ∃ c events, call.change? e.mgr = some c ∧
          eventsTo slot final.trace = c.map Prod.snd :: events ∧
          replay e.mgr.statuses events = final.mgr.statuses ∧
          replay e.mgr.statuses (eventsTo slot final.trace) = final.mgr.statuses ∧
          ∀ u, WellFormed (· ≠ ·) e.mgr.statuses (events.filter fun c => c.key = u) := by
  intro final pre e rest i call ht he j eventHandler hj slot
  have hown₁ := fun op h => hown op (List.mem_append_left (.refreshVMList env :: after) h)
  have hret₁ := fun op h => hret op (List.mem_append_left (.refreshVMList env :: after) h)
  have hkept := (runOps_tells hown₁ hret₁).1
  obtain ⟨hslot, hlen, c, s, t, hc, happly, hchanges, hview, hk, htrace, htells⟩ :=
    refresh_registered (hown (.refreshVMList env) (by simp)) (hret (.refreshVMList env) (by simp))
      hkept ht he hj
  -- from the end of the step of the call to the end of the run
  let refreshed : RefreshState := Op.perform (runOps before) (.refreshVMList env)
  have hone : ∀ op ∈ [Op.refreshVMList env], op ∈ before ++ .refreshVMList env :: after := by simp
  have hrefreshed : refreshed.mgr.WellKept :=
    (foldl_perform_tells (fun op h => hown op (hone op h)) (fun op h => hret op (hone op h))
      hkept).1
  have hfinal : final = after.foldl Op.perform refreshed := runOps_append before _
  have hlater : Tells refreshed final := hfinal ▸ (foldl_perform_tells
    (fun op h => hown op (by simp [h])) (fun op h => hret op (by simp [h])) hrefreshed).2
  let called : RefreshState := ⟨s.mgr, (runOps before).trace ++ s.trace⟩
  have hrest : Tells called final := (htells.prepend (runOps before).trace).trans hlater
  obtain ⟨t', htrace', hgrow', -, -⟩ := hlater
  have hbehind : final.trace = called.trace ++ (t ++ t') := by
    show _ = ((runOps before).trace ++ s.trace) ++ (t ++ t')
    rw [htrace', show refreshed.trace = (runOps before).trace ++ (s.trace ++ t) from
      congrArg _ htrace]
    simp
  obtain ⟨hreplay, hwf⟩ := hrest.statuses hk hbehind
  have hstatuses : s.mgr.statuses = e.mgr.statuses := by
    rw [VMManager.statuses_eq_view, VMManager.statuses_eq_view, hview]
  rw [show called.mgr.statuses = e.mgr.statuses from hstatuses] at hreplay hwf
  have hevents : eventsTo slot final.trace = c.map Prod.snd :: eventsTo slot (t ++ t') := by
    have hbefore : eventsTo slot (runOps before).trace = [] := by
      rw [eventsTo, changesTo_runOps hown₁ hret₁ hlen]
      rfl
    have hduring : eventsTo slot ((runOps before).mgr.refreshReentrant env).2.trace =
        c.map Prod.snd :: eventsTo slot t := by
      rw [eventsTo, hchanges]
      rfl
    rw [htrace', show refreshed.trace = (runOps before).trace ++
      ((runOps before).mgr.refreshReentrant env).2.trace from rfl, eventsTo_append, eventsTo_append,
      hbefore, hduring, eventsTo_append]
    rfl
  -- told again of what is done, it builds the same table
  have htwice : apply e.mgr.statuses (c.map Prod.snd) = e.mgr.statuses := by
    rw [VMManager.statuses_eq_view]
    exact (apply_map Prod.snd e.mgr.view c).trans (by rw [happly])
  refine ⟨?_, c, _, hc, hevents, hreplay, ?_, hwf⟩
  · obtain ⟨others, hothers⟩ := hgrow'
    have hthere : slot < refreshed.mgr.vmEventHandlers.length :=
      (List.getElem?_eq_some_iff.mp hslot).1
    rw [← hothers, List.getElem?_append_left hthere]
    exact hslot
  · rw [hevents, replay_cons, htwice, hreplay]

/-- The daemon manager registers a handler when it is told of its first VM, which is then gone. -/
theorem registered_by_callback_first :
    let env : Env := { RefreshEnv.uniform ["vmA"] .on with registers := fun _ _ => [(0, 8)] }
    let gone : Env := { RefreshEnv.uniform [] .on with registers := fun _ _ => [] }
    let final := runOps [.registerVMEventHandler 7, .refreshVMList env, .refreshVMList gone]
    final.mgr.vmEventHandlers[1]? = some 8 ∧ ∃ events,
      eventsTo 1 final.trace = .added "vmA" .on :: events ∧
        replay (fun u => if u = "vmA" then some .on else none) events = final.mgr.statuses := by
  intro env gone final
  let m₀ := VMManager.init.registerVMEventHandler 7
  let vm : VirtualMachine := ⟨"vmA", "host-" ++ "vmA", "h1", "s1", .on⟩
  let m₁ := m₀.recordVM vm
  -- `addNewVMsLoop` does not reduce, so its one turn is unfolded by hand
  have hfirst : exec (addNewVM (forEachEventHandler env) env.toRefreshEnv "vmA") ⟨m₀, []⟩ =
      (.ok true, ⟨m₁.registerAll [8], [⟨m₀, .fetched "vmA" (.ok vm)⟩, ⟨m₁, .recorded (some 0)⟩,
        ⟨m₁, .notified 0 (.newVMAdded (some 0))⟩,
        ⟨m₁.registerAll [8], .notified 1 (.newVMAdded (some 0))⟩]⟩) := by
    rfl
  have hadd : exec (addNewVMs (forEachEventHandler env) env.toRefreshEnv ["vmA"]) ⟨m₀, []⟩ =
      (.ok (true, []), (exec (addNewVM (forEachEventHandler env) env.toRefreshEnv "vmA")
        ⟨m₀, []⟩).2) := by
    rw [addNewVMs, addNewVMsLoop, dif_pos (by decide), exec_bind_ok (exec_get _)]
    refine (exec_bind_ok hfirst).trans ?_
    rw [addNewVMsLoop, dif_neg (by decide), hfirst]
    rfl
  have htrace : (m₀.refreshReentrant env).2.trace =
      [⟨m₀, .fetched "vmA" (.ok vm)⟩, ⟨m₁, .recorded (some 0)⟩] ++
        ⟨m₁, .notified 0 (.newVMAdded (some 0))⟩ ::
          [⟨m₁.registerAll [8], .notified 1 (.newVMAdded (some 0))⟩] := by
    have hids : env.getVirtualMachineIDs = .ok ["vmA"] := rfl
    rw [VMManager.refreshReentrant, refreshVMList, hids]
    simp only [exec_bind_ok hadd, hfirst]
    rfl
  obtain ⟨hslot, c, events, hc, hevents, hreplay, -⟩ := registered_by_callback
    [.registerVMEventHandler 7] [.refreshVMList gone] env
    (by simp [Op.Meets, env, gone, RefreshEnv.uniform_honestUUIDs])
    (by simp [Op.Meets, env, gone, RefreshEnv.uniform_handlersReturn])
    _ _ _ _ _ htrace rfl 0 8 rfl
  cases hc
  have htable : m₁.statuses = fun u => if u = "vmA" then some .on else none := by
    have hempty : m₀.view = fun _ => none := rfl
    rw [VMManager.statuses_eq_view,
      (VMManager.wellKept_init.registerVMEventHandler 7).view_recordVM vm, hempty]
    funext u
    rw [Function.update_apply, apply_ite (Option.map Prod.snd)]
    rfl
  exact ⟨hslot, events, hevents, htable ▸ hreplay⟩

end Reentrant

end NebuApp
