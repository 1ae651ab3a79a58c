import NebuApp.VM.Refresh

/-!
# Handlers that end a refresh

`addNewVMs` and `updateVMs` notify the handlers inside a `try` block, `removeVMs` does not. So a
handler that throws from `newVMAdded` or `existingVMChanged` ends nothing, and one that throws from
`oldVMRemoved` ends the refresh, after all of its fetches and with the entry already erased. Its
exception is what the refresh throws (`refresh_throws_iff`).
-/

namespace NebuApp

/-- A notification fails exactly when one of the handlers throws. -/
theorem callsOutcome_error_iff {env : RefreshEnv} {count : Nat} {call : Notification}
    {hs : List Ref} : ∀ {slot : Nat}, (∃ ex, callsOutcome env count call slot hs = .error ex) ↔
      ∃ i, slot ≤ i ∧ i < slot + hs.length ∧ (env.callback count i call).isOk = false := by
  induction hs with
  | nil =>
    intro slot
    constructor
    · rintro ⟨ex, h⟩
      cases h
    · rintro ⟨i, hle, hlt, -⟩
      rw [List.length_nil] at hlt
      omega
  | cons h rest ih =>
    intro slot
    rw [callsOutcome]
    cases hcallback : env.callback count slot call with
    | error ex =>
      refine ⟨fun _ => ⟨slot, Nat.le_refl _, ?_, by rw [hcallback]; rfl⟩, fun _ => ⟨ex, rfl⟩⟩
      rw [List.length_cons]
      omega
    | ok u =>
      -- the first handler returns, so it is another one that throws
      refine ih.trans ?_
      constructor
      · rintro ⟨i, hle, hlt, hthrow⟩
        refine ⟨i, by omega, ?_, hthrow⟩
        rw [List.length_cons]
        omega
      · rintro ⟨i, hle, hlt, hthrow⟩
        have hne : i ≠ slot := by
          rintro rfl
          rw [hcallback] at hthrow
          cases hthrow
        rw [List.length_cons] at hlt
        exact ⟨i, by omega, by omega, hthrow⟩

/-- A notification that fails ends with the call to the handler whose exception it lets through. -/
theorem calls_of_error {env : RefreshEnv} {count : Nat} {m : VMManager} {call : Notification}
    {hs : List Ref} {ex : NebuServerException} {slot : Nat}
    (h : callsOutcome env count call slot hs = .error ex) :
    ∃ earlier i, calls env count m call slot hs = earlier ++ [⟨m, .notified i call⟩] ∧
      env.callback count i call = .error ex := by
  induction hs generalizing slot with
  | nil => cases h
  | cons handler rest ih =>
    rw [callsOutcome] at h
    rw [calls]
    cases hcallback : env.callback count slot call with
    | ok u =>
      simp only [hcallback] at h
      obtain ⟨earlier, i, hcalls, hthrow⟩ := ih h
      exact ⟨⟨m, .notified slot call⟩ :: earlier, i, by rw [hcalls]; rfl, hthrow⟩
    | error ex' =>
      simp only [hcallback] at h
      cases h
      exact ⟨[], slot, rfl, hcallback⟩

/-- The VM at `vm` is not listed, and one of the handlers throws when its removal is announced. -/
def RemovalFails (env : RefreshEnv) (ids : List String) (s : RefreshState) (vm : Ptr × String) :
    Prop :=
  vm.2 ∉ ids ∧ ∃ slot < s.mgr.vmEventHandlers.length,
    (env.callback (fetches s.trace).length slot (.oldVMRemoved vm.1)).isOk = false

theorem removeTurn_error_iff {env : RefreshEnv} {ids : List String} {vm : Ptr} {u : String}
    {s : RefreshState} :
    (∃ ex, (removeTurn env ids vm u s).1 = .error ex) ↔ RemovalFails env ids s (vm, u) := by
  unfold removeTurn RemovalFails
  by_cases hu : u ∉ ids
  · rw [if_pos hu]
    refine callsOutcome_error_iff.trans ?_
    simp [hu]
  · rw [if_neg hu]
    simp [hu]

/-- A removal neither fetches nor registers, so it decides nothing about the removals behind it. -/
theorem removalFails_removeTurn (env : RefreshEnv) (ids : List String) (vm : Ptr) (u : String)
    (s : RefreshState) :
    RemovalFails env ids (removeTurn env ids vm u s).2 = RemovalFails env ids s := by
  funext vm'
  unfold removeTurn
  split
  next => rw [RemovalFails, RemovalFails, fetches_append, fetches_calls, List.append_nil]; rfl
  next => rfl

/-- **The removal pass fails exactly when one of its removals does.** Induction on the VMs still to
be visited. -/
theorem removeTurns_error_iff {env : RefreshEnv} {ids : List String} {vms : List (Ptr × String)}
    {s : RefreshState} :
    (∃ ex, (removeTurns env ids vms s).1 = .error ex) ↔ ∃ vm ∈ vms, RemovalFails env ids s vm := by
  induction vms generalizing s with
  | nil => simp [removeTurns]
  | cons e rest ih =>
    obtain ⟨vm, u⟩ := e
    have hrest := removalFails_removeTurn env ids vm u s
    rw [List.exists_mem_cons_iff, ← removeTurn_error_iff, removeTurns]
    rcases hres : removeTurn env ids vm u s with ⟨ex | _, s'⟩
    · simp
    · rw [hres] at hrest
      rw [ih, hrest]
      simp

/-- A removal pass that fails ends with the call to the handler whose exception it lets through.
Induction on the VMs still to be visited. -/
theorem removeTurns_of_error {env : RefreshEnv} {ids : List String} {vms : List (Ptr × String)}
    {s : RefreshState} {ex : NebuServerException}
    (h : (removeTurns env ids vms s).1 = .error ex) :
    ∃ earlier m slot, ∃ vm ∈ vms, (removeTurns env ids vms s).2.trace =
        earlier ++ [⟨m, .notified slot (.oldVMRemoved vm.1)⟩] ∧
      env.callback (fetches s.trace).length slot (.oldVMRemoved vm.1) = .error ex := by
  induction vms generalizing s with
  | nil => cases h
  | cons e rest ih =>
    obtain ⟨vm, u⟩ := e
    rw [removeTurns] at h ⊢
    by_cases hu : u ∉ ids
    · rw [removeTurn, if_pos hu] at h ⊢
      cases houtcome : callsOutcome env (fetches s.trace).length (.oldVMRemoved vm) 0
        s.mgr.vmEventHandlers with
      | error ex' =>
        simp only [houtcome] at h ⊢
        cases h
        obtain ⟨earlier, slot, hcalls, hthrow⟩ := calls_of_error (m := s.mgr.eraseVM u) houtcome
        refine ⟨s.trace ++ earlier, s.mgr.eraseVM u, slot, (vm, u), List.mem_cons_self, ?_, hthrow⟩
        rw [hcalls, List.append_assoc]
      | ok u' =>
        -- the calls of this removal are no fetches
        simp only [houtcome] at h ⊢
        obtain ⟨earlier, m, slot, vm', hmem, htrace, hthrow⟩ := ih h
        rw [fetches_append, fetches_calls, List.append_nil] at hthrow
        exact ⟨earlier, m, slot, vm', List.mem_cons_of_mem _ hmem, htrace, hthrow⟩
    · rw [removeTurn, if_neg hu] at h ⊢
      obtain ⟨earlier, m, slot, vm', hmem, htrace, hthrow⟩ := ih h
      exact ⟨earlier, m, slot, vm', List.mem_cons_of_mem _ hmem, htrace, hthrow⟩

/-! ## The whole refresh -/

/-- The refresh obtains a list of ids, and when all of them have been fetched it tracks a VM that is
not listed and from whose removal one of the handlers throws. -/
def RemovalThrows (m : VMManager) (env : RefreshEnv) : Prop :=
  ∃ ids u r slot, env.getVirtualMachineIDs = .ok ids ∧
    (m.fetchAll env ids).2.mgr.getVM u = some r ∧ u ∉ ids ∧
    slot < m.vmEventHandlers.length ∧
    (env.callback ids.length slot (.oldVMRemoved (some r))).isOk = false

/-- The fetches of the two passes, whatever the handlers do. -/
theorem fetches_fetchAll (m : VMManager) (env : RefreshEnv) (ids : List String) :
    ((fetches (m.fetchAll env ids).2.trace).map Prod.fst).Perm ids := by
  obtain ⟨fs, hfetch, hids, -⟩ := turns_spec env (fetchOrder env ids ⟨m, []⟩) ⟨m, []⟩
  have hfetches : fetches (m.fetchAll env ids).2.trace = fs := hfetch
  rw [hfetches, hids]
  exact splitIds_perm env ids ⟨m, []⟩

theorem length_fetches_fetchAll (m : VMManager) (env : RefreshEnv) (ids : List String) :
    (fetches (m.fetchAll env ids).2.trace).length = ids.length := by
  simpa using (fetches_fetchAll m env ids).length_eq

theorem fetchAll_wellKept {m : VMManager} (hm : m.WellKept) (env : RefreshEnv)
    (ids : List String) : (m.fetchAll env ids).2.mgr.WellKept :=
  turns_wellKept env (fetchOrder env ids ⟨m, []⟩) (s := ⟨m, []⟩) hm

theorem removalThrows_iff {m : VMManager} (hm : m.WellKept) {env : RefreshEnv} {ids : List String}
    (hids : env.getVirtualMachineIDs = .ok ids) :
    RemovalThrows m env ↔ ∃ vm ∈ knownVMs env.iteration (m.fetchAll env ids).2.mgr,
      RemovalFails env ids (m.fetchAll env ids).2 vm := by
  have hslots : (m.fetchAll env ids).2.mgr.vmEventHandlers = m.vmEventHandlers :=
    turns_handlers env (fetchOrder env ids ⟨m, []⟩) ⟨m, []⟩
  obtain ⟨-, hknown⟩ := knownVMs_spec env.iteration (fetchAll_wellKept hm env ids)
  unfold RemovalThrows RemovalFails
  rw [hslots, length_fetches_fetchAll]
  constructor
  · rintro ⟨ids', u, r, slot, hids', hget, hu, hslot, hthrow⟩
    obtain rfl : ids = ids' := Except.ok.inj (hids.symm.trans hids')
    exact ⟨(some r, u), (hknown _ _).mpr ⟨r, rfl, hget⟩, hu, slot, hslot, hthrow⟩
  · rintro ⟨⟨vm, u⟩, hmem, hu, slot, hslot, hthrow⟩
    obtain ⟨r, rfl, hget⟩ := (hknown vm u).mp hmem
    exact ⟨ids, u, r, slot, hids, hget, hu, hslot, hthrow⟩

/-- The refresh ends by telling a handler of a removal, and the handler throws `ex`. -/
def EndsThrowing (m : VMManager) (env : RefreshEnv) (ex : NebuServerException) : Prop :=
  ∃ ids earlier manager slot r, env.getVirtualMachineIDs = .ok ids ∧
    (m.refresh env).2.trace = earlier ++ [⟨manager, .notified slot (.oldVMRemoved (some r))⟩] ∧
    env.callback ids.length slot (.oldVMRemoved (some r)) = .error ex

theorem EndsThrowing.unique {m : VMManager} {env : RefreshEnv} {ex ex' : NebuServerException}
    (h : EndsThrowing m env ex) (h' : EndsThrowing m env ex') : ex = ex' := by
  obtain ⟨ids, earlier, manager, slot, r, hids, htrace, hthrow⟩ := h
  obtain ⟨ids', earlier', manager', slot', r', hids', htrace', hthrow'⟩ := h'
  obtain rfl : ids = ids' := Except.ok.inj (hids.symm.trans hids')
  obtain ⟨-, hlast⟩ := List.append_inj' (htrace.symm.trans htrace') rfl
  obtain ⟨-, rfl, rfl⟩ : manager = manager' ∧ slot = slot' ∧ r = r' := by simpa using hlast
  exact Except.error.inj (hthrow.symm.trans hthrow')

theorem endsThrowing_of_error {m : VMManager} (hm : m.WellKept) {env : RefreshEnv}
    {ids : List String} (hids : env.getVirtualMachineIDs = .ok ids) {ex : NebuServerException}
    (h : (removeTurns env ids (knownVMs env.iteration (m.fetchAll env ids).2.mgr)
      (m.fetchAll env ids).2).1 = .error ex) : EndsThrowing m env ex := by
  obtain ⟨earlier, manager, slot, ⟨vm, u⟩, hmem, htrace, hthrow⟩ := removeTurns_of_error h
  obtain ⟨r, rfl, -⟩ :=
    ((knownVMs_spec env.iteration (fetchAll_wellKept hm env ids)).2 vm u).mp hmem
  rw [length_fetches_fetchAll] at hthrow
  exact ⟨ids, earlier, manager, slot, r, hids, by rw [refresh_of_ok hm hids]; exact htrace, hthrow⟩

/-- **When a refresh throws.** A refresh of a well-kept manager ends with an exception exactly when
a handler throws from a removal; the exception is that of the handler called last, and every listed
id has been fetched by then. -/
theorem refresh_outcome {m : VMManager} (hm : m.WellKept) (env : RefreshEnv) :
    (¬ RemovalThrows m env → ∃ succes, (m.refresh env).1 = .ok succes) ∧
      (RemovalThrows m env → ∃ ex ids, (m.refresh env).1 = .error (.serverException ex) ∧
        EndsThrowing m env ex ∧ env.getVirtualMachineIDs = .ok ids ∧
        ((fetches (m.refresh env).2.trace).map Prod.fst).Perm ids) := by
  cases hids : env.getVirtualMachineIDs with
  | error ex =>
    refine ⟨fun _ => ⟨false, by rw [refresh_of_error hids]⟩, ?_⟩
    rintro ⟨ids, u, r, slot, hids', -⟩
    rw [hids] at hids'
    cases hids'
  | ok ids =>
    have hfetches := (removeTurns_frame env ids
      (knownVMs env.iteration (m.fetchAll env ids).2.mgr) (m.fetchAll env ids).2).2.2.1
    rw [removalThrows_iff hm hids, ← removeTurns_error_iff, refresh_of_ok hm hids]
    simp only [hfetches]
    cases houtcome : (removeTurns env ids (knownVMs env.iteration (m.fetchAll env ids).2.mgr)
      (m.fetchAll env ids).2).1 with
    | error ex => exact ⟨fun h => absurd ⟨ex, rfl⟩ h, fun _ => ⟨ex, ids, rfl,
        endsThrowing_of_error hm hids houtcome, rfl, fetches_fetchAll m env ids⟩⟩
    | ok u =>
      refine ⟨fun _ => ⟨_, rfl⟩, ?_⟩
      rintro ⟨ex, h⟩
      cases h

/-- **What a refresh throws**: what the handler throws from the removal it is told of last. -/
theorem refresh_throws_iff {m : VMManager} (hm : m.WellKept) {env : RefreshEnv}
    {ex : NebuServerException} :
    (m.refresh env).1 = .error (.serverException ex) ↔
      RemovalThrows m env ∧ EndsThrowing m env ex := by
  obtain ⟨hreturns, hthrows⟩ := refresh_outcome hm env
  constructor
  · intro h
    have hthrow : RemovalThrows m env := by
      by_contra hnot
      obtain ⟨succes, hreturn⟩ := hreturns hnot
      cases h.symm.trans hreturn
    obtain ⟨ex', ids, hrefresh, hends, -⟩ := hthrows hthrow
    obtain rfl : ex' = ex := Abort.serverException.inj (Except.error.inj (hrefresh.symm.trans h))
    exact ⟨hthrow, hends⟩
  · rintro ⟨hthrow, hends⟩
    obtain ⟨ex', ids, hrefresh, hends', -⟩ := hthrows hthrow
    rw [hrefresh, hends.unique hends']

end NebuApp
