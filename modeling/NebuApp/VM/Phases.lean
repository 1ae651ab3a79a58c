import NebuApp.VM.Refresh

/-!
# The order of the notifications of a refresh

A refresh announces new VMs while it walks the ids it does not know, changed ones while it walks
the others, and removed ones last. `Notification.phase` numbers the three kinds in this order, and
`refresh_phases` shows that the notifications of every refresh, to all handlers together, come in
it, whatever the middleware answers and whichever handlers throw.
-/

namespace NebuApp

/-- The pass of a refresh a notification belongs to. -/
def Notification.phase : Notification → Nat
  | newVMAdded _ => 0
  | existingVMChanged _ _ => 1
  | oldVMRemoved _ => 2

/-- The notification a trace entry gives, to whichever handler. -/
def Entry.notification? (e : Entry) : Option Notification :=
  match e.action with
  | .notified _ call => some call
  | _ => none

/-- The notifications of a trace, to all handlers, in order. -/
def notifications (trace : List Entry) : List Notification :=
  trace.filterMap Entry.notification?

theorem notifications_append (t t' : List Entry) :
    notifications (t ++ t') = notifications t ++ notifications t' :=
  List.filterMap_append

theorem eq_of_mem_notifications_calls {env : RefreshEnv} {count : Nat} {m : VMManager}
    {call : Notification} {slot : Nat} {hs : List Ref} {c : Notification}
    (h : c ∈ notifications (calls env count m call slot hs)) : c = call := by
  obtain ⟨e, he, hc⟩ := List.mem_filterMap.mp h
  obtain ⟨slot', rfl⟩ := mem_calls he
  exact (Option.some.inj hc).symm

/-! ## What each pass announces -/

/-- The state `s'` continues the trace of `s` with notifications of one phase. -/
def Continues (phase : Nat) (s s' : RefreshState) : Prop :=
  ∃ t, s'.trace = s.trace ++ t ∧ ∀ c ∈ notifications t, c.phase = phase

theorem Continues.refl (phase : Nat) (s : RefreshState) : Continues phase s s :=
  ⟨[], by simp, fun c h => by cases h⟩

theorem Continues.trans {phase : Nat} {s s' s'' : RefreshState} (h : Continues phase s s')
    (h' : Continues phase s' s'') : Continues phase s s'' := by
  obtain ⟨t, htrace, hall⟩ := h
  obtain ⟨t', htrace', hall'⟩ := h'
  refine ⟨t ++ t', by rw [htrace', htrace, List.append_assoc], fun c hc => ?_⟩
  rw [notifications_append] at hc
  rcases List.mem_append.mp hc with hc | hc
  · exact hall c hc
  · exact hall' c hc

/-- The turn of an unknown id announces nothing but an addition, that of a known one nothing but a
change. -/
theorem turn_continues (env : RefreshEnv) (id : String) (s : RefreshState) :
    Continues (if s.mgr.vmList.lookup id = none then 0 else 1) s (turn env id s).2 := by
  refine ⟨_, rfl, fun c hc => ?_⟩
  unfold turnTrace at hc
  cases hw : s.mgr.writeFor id (s.nextAnswer env id) with
  | none =>
    rw [hw] at hc
    cases hc
  | some w =>
    have hcalls : c ∈ notifications (calls env ((fetches s.trace).length + 1) w.mgr w.call 0
        w.mgr.vmEventHandlers) := by
      rw [hw] at hc
      rcases VMManager.writeFor_cases hw with ⟨vm, -, -, rfl⟩ | ⟨vm, r, old, -, -, -, -, rfl⟩ <;>
        exact hc
    rw [eq_of_mem_notifications_calls hcalls]
    rcases VMManager.writeFor_cases hw with
      ⟨vm, -, hnone, rfl⟩ | ⟨vm, r, old, -, hsome, -, -, rfl⟩
    · rw [if_pos hnone]
      rfl
    · rw [hsome]
      rfl

/-- `addNewVMs` announces additions. Induction along the split it computes. -/
theorem addNewVMs_continues (env : RefreshEnv) (ids : List String) (s : RefreshState) :
    Continues 0 s (turns env (splitIds env ids s).1 s).2 := by
  induction ids generalizing s with
  | nil => exact .refl 0 s
  | cons id rest ih =>
    rw [splitIds]
    split
    next hnone =>
      have hturn := turn_continues env id s
      rw [if_pos hnone] at hturn
      exact hturn.trans (ih _)
    next => exact ih s

/-- `updateVMs` announces changes: the ids left to it stay known. -/
theorem updateVMs_continues (env : RefreshEnv) {ids : List String} {s : RefreshState}
    (hknown : ∀ id ∈ ids, id ∈ s.mgr.vmList) : Continues 1 s (turns env ids s).2 := by
  induction ids generalizing s with
  | nil => exact .refl 1 s
  | cons id rest ih =>
    have hturn := turn_continues env id s
    rw [if_neg (by rw [AList.lookup_eq_none]; exact not_not.mpr (hknown id List.mem_cons_self))]
      at hturn
    exact hturn.trans (ih fun u hu => mem_turn (hknown u (List.mem_cons_of_mem _ hu)) id)

/-- `removeVMs` announces removals, also when a handler stops it. -/
theorem removeVMs_continues (env : RefreshEnv) (ids : List String) (vms : List (Ptr × String))
    (s : RefreshState) : Continues 2 s (removeTurns env ids vms s).2 := by
  refine removeTurns_rule (.refl 2) .trans (fun vm u s => ⟨_, rfl, fun c hc => ?_⟩) ids vms s
  rw [eq_of_mem_notifications_calls hc]
  rfl

/-! ## The whole refresh -/

/-- **The notifications of a refresh come in phases**: additions before changes, changes before
removals. -/
theorem refresh_phases {m : VMManager} (hm : m.WellKept) (env : RefreshEnv) :
    (notifications (m.refresh env).2.trace).Pairwise fun c c' => c.phase ≤ c'.phase := by
  cases hids : env.getVirtualMachineIDs with
  | error ex =>
    rw [refresh_of_error hids]
    exact .nil
  | ok ids =>
    rw [refresh_of_ok hm hids, VMManager.fetchAll, fetchOrder, turns_append]
    obtain ⟨added, hadded, hall₀⟩ := addNewVMs_continues env ids ⟨m, []⟩
    -- the first pass drops nothing
    have hknown : ∀ u ∈ (splitIds env ids ⟨m, []⟩).2,
        u ∈ (turns env (splitIds env ids ⟨m, []⟩).1 ⟨m, []⟩).2.mgr.vmList :=
      fun u hu => mem_of_mem_splitIds hu
    obtain ⟨changed, hchanged, hall₁⟩ := updateVMs_continues env hknown
    obtain ⟨removed, hremoved, hall₂⟩ := removeVMs_continues env ids
      (knownVMs env.iteration _) _
    rw [hremoved, hchanged, hadded, List.nil_append, notifications_append, notifications_append]
    have hsame : ∀ {phase : Nat} {t : List Entry}, (∀ c ∈ notifications t, c.phase = phase) →
        (notifications t).Pairwise fun c c' => c.phase ≤ c'.phase := by
      intro phase t hall
      refine List.pairwise_iff_forall_sublist.mpr fun {c c'} hsub => ?_
      rw [hall c (hsub.subset (by simp)), hall c' (hsub.subset (by simp))]
    refine List.pairwise_append.mpr ⟨List.pairwise_append.mpr ⟨hsame hall₀, hsame hall₁, ?_⟩,
      hsame hall₂, ?_⟩
    · intro c hc c' hc'
      rw [hall₀ c hc, hall₁ c' hc']
      omega
    · intro c hc c' hc'
      rw [hall₂ c' hc']
      rcases List.mem_append.mp hc with hc | hc
      · rw [hall₀ c hc]
        omega
      · rw [hall₁ c hc]
        omega

end NebuApp
