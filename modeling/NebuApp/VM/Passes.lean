import NebuApp.VM.Turn

/-!
# The passes of a refresh as sequences of turns

`addNewVMs` walks the vector of listed ids while erasing from it, `updateVMs` walks what is left
of it. `splitIds` is the split the first pass computes: the ids that are unknown when the
iterator reaches them, and the ids it leaves behind. `exec_fetchPasses` shows that the two passes
together take one turn for each listed id, first those of the one group and then those of the
other, so the erasure skips no id and repeats none (`splitIds_perm`).
-/

namespace NebuApp

open Exec

/-- The turns of a list of ids, one after the other. -/
def turns (env : RefreshEnv) : List String → RefreshState → Bool × RefreshState
  | [], s => (true, s)
  | id :: rest, s =>
    ((turn env id s).1 && (turns env rest (turn env id s).2).1,
      (turns env rest (turn env id s).2).2)

/-- The ids `addNewVMs` takes a turn for, and the ids it leaves in the vector. -/
def splitIds (env : RefreshEnv) : List String → RefreshState → List String × List String
  | [], _ => ([], [])
  | id :: rest, s =>
    if s.mgr.vmList.lookup id = none then
      let split := splitIds env rest (turn env id s).2
      (id :: split.1, split.2)
    else
      let split := splitIds env rest s
      (split.1, id :: split.2)

/-- The order in which a refresh fetches the listed ids. -/
def fetchOrder (env : RefreshEnv) (ids : List String) (s : RefreshState) : List String :=
  (splitIds env ids s).1 ++ (splitIds env ids s).2

section Turns

variable (env : RefreshEnv)

theorem turns_append (ids ids' : List String) (s : RefreshState) :
    turns env (ids ++ ids') s =
      ((turns env ids s).1 && (turns env ids' (turns env ids s).2).1,
        (turns env ids' (turns env ids s).2).2) := by
  induction ids generalizing s with
  | nil => simp [turns]
  | cons id rest ih => simp [turns, ih, Bool.and_assoc]

/-- Every listed id is in exactly one of the two groups, as often as it is listed. -/
theorem splitIds_perm (ids : List String) (s : RefreshState) :
    (fetchOrder env ids s).Perm ids := by
  unfold fetchOrder
  induction ids generalizing s with
  | nil => exact .nil
  | cons id rest ih =>
    rw [splitIds]
    split
    next => exact (ih _).cons id
    next => exact List.perm_middle.trans ((ih s).cons id)

variable {env}

theorem turn_wellKept {s : RefreshState} (hs : s.mgr.WellKept) (id : String) :
    (turn env id s).2.mgr.WellKept :=
  hs.absorb _

theorem mem_turn {s : RefreshState} {u : String} (h : u ∈ s.mgr.vmList) (id : String) :
    u ∈ (turn env id s).2.mgr.vmList :=
  VMManager.mem_absorb h _

/-- **The rule of turns.** What every turn keeps from its state to the next, a sequence of turns
keeps. -/
theorem turns_rule {P : RefreshState → RefreshState → Prop} (hrefl : ∀ s, P s s)
    (htrans : ∀ {s s' s''}, P s s' → P s' s'' → P s s'')
    (hturn : ∀ id s, P s (turn env id s).2) (ids : List String) (s : RefreshState) :
    P s (turns env ids s).2 := by
  induction ids generalizing s with
  | nil => exact hrefl s
  | cons id rest ih => exact htrans (hturn id s) (ih _)

theorem turns_wellKept (env : RefreshEnv) (ids : List String) {s : RefreshState}
    (hs : s.mgr.WellKept) : (turns env ids s).2.mgr.WellKept :=
  turns_rule (P := fun s s' => s.mgr.WellKept → s'.mgr.WellKept) (fun _ => id)
    (fun h h' => h' ∘ h) (fun id _ hs => turn_wellKept hs id) ids s hs

@[simp] theorem turns_handlers (env : RefreshEnv) (ids : List String) (s : RefreshState) :
    (turns env ids s).2.mgr.vmEventHandlers = s.mgr.vmEventHandlers :=
  turns_rule (P := fun s s' => s'.mgr.vmEventHandlers = s.mgr.vmEventHandlers) (fun _ => rfl)
    (fun h h' => h'.trans h) (fun _ _ => VMManager.absorb_handlers _ _) ids s

theorem mem_turns {ids : List String} {s : RefreshState} {u : String} (h : u ∈ s.mgr.vmList) :
    u ∈ (turns env ids s).2.mgr.vmList :=
  turns_rule (P := fun s s' => u ∈ s.mgr.vmList → u ∈ s'.mgr.vmList) (fun _ => id)
    (fun h h' => h' ∘ h) (fun id _ h => mem_turn h id) ids s h

/-- The ids left for `updateVMs` are known when that pass begins. -/
theorem mem_of_mem_splitIds {ids : List String} {s : RefreshState} {u : String}
    (h : u ∈ (splitIds env ids s).2) :
    u ∈ (turns env (splitIds env ids s).1 s).2.mgr.vmList := by
  induction ids generalizing s with
  | nil => cases h
  | cons id rest ih =>
    rw [splitIds] at h ⊢
    split at h
    next hnone =>
      rw [if_pos hnone]
      exact ih h
    next hsome =>
      rw [if_neg hsome]
      rcases List.mem_cons.mp h with rfl | hrest
      · exact mem_turns (AList.lookup_isSome.mp (Option.ne_none_iff_isSome.mp hsome))
      · exact ih hrest

end Turns

/-! ## The loops -/

/-- The erasing loop, from an iterator behind `kept`: it takes the turns of the first group of
`splitIds`, keeps the second, and leaves `kept` alone. Induction on the ids not yet reached. -/
theorem exec_addNewVMsLoop (env : RefreshEnv) (ids : List String) :
    ∀ (kept : List String) (succes : Bool) (s : RefreshState),
      exec (addNewVMsLoop (forEachEventHandler env) env (kept ++ ids) kept.length succes) s =
        (.ok (succes && (turns env (splitIds env ids s).1 s).1,
            kept ++ (splitIds env ids s).2),
          (turns env (splitIds env ids s).1 s).2) := by
  induction ids with
  | nil =>
    intro kept succes s
    rw [addNewVMsLoop, dif_neg (by simp)]
    simp [splitIds, turns]
  | cons id rest ih =>
    intro kept succes s
    have hlt : kept.length < (kept ++ id :: rest).length := by simp
    have hat : (kept ++ id :: rest)[kept.length] = id := by simp
    rw [addNewVMsLoop, dif_pos hlt, exec_bind_ok (exec_get s), hat, splitIds]
    by_cases hnone : s.mgr.vmList.lookup id = none
    · rw [if_pos hnone, if_pos hnone, exec_bind_ok (exec_addNewVM s env hnone)]
      -- the erased vector has the next id where the iterator stands
      have herase : (kept ++ id :: rest).eraseIdx kept.length = kept ++ rest := by
        simp [List.eraseIdx_append_of_length_le]
      rw [herase, ih]
      simp [turns, Bool.and_assoc]
    · rw [if_neg hnone, if_neg hnone]
      have hnext := ih (kept ++ [id]) succes s
      rw [List.append_assoc, List.singleton_append, List.length_append,
        List.length_singleton] at hnext
      rw [hnext]
      simp

/-- `addNewVMs` takes the turns of the unknown ids and leaves the others in the vector. -/
theorem exec_addNewVMs (env : RefreshEnv) (ids : List String) (s : RefreshState) :
    exec (addNewVMs (forEachEventHandler env) env ids) s =
      (.ok ((turns env (splitIds env ids s).1 s).1, (splitIds env ids s).2),
        (turns env (splitIds env ids s).1 s).2) := by
  have h := exec_addNewVMsLoop env ids [] true s
  simpa only [addNewVMs, List.nil_append, List.length_nil, Bool.true_and] using h

theorem exec_updateVMsLoop (env : RefreshEnv) (ids : List String) :
    ∀ (succes : Bool) (s : RefreshState), s.mgr.WellKept → (∀ id ∈ ids, id ∈ s.mgr.vmList) →
      exec (updateVMsLoop (forEachEventHandler env) env ids succes) s =
        (.ok (succes && (turns env ids s).1), (turns env ids s).2) := by
  induction ids with
  | nil => intro succes s _ _; simp [updateVMsLoop, turns]
  | cons id rest ih =>
    intro succes s hs hknown
    rw [updateVMsLoop, exec_bind_ok (exec_updateListedVM s env hs (hknown id (by simp)))]
    rw [ih _ _ (turn_wellKept hs id) fun u hu => mem_turn (hknown u (by simp [hu])) id]
    simp [turns, Bool.and_assoc]

theorem exec_updateVMs (env : RefreshEnv) {ids : List String} {s : RefreshState}
    (hs : s.mgr.WellKept) (hknown : ∀ id ∈ ids, id ∈ s.mgr.vmList) :
    exec (updateVMs (forEachEventHandler env) env ids) s =
      (.ok (turns env ids s).1, (turns env ids s).2) := by
  rw [updateVMs, exec_updateVMsLoop env ids true s hs hknown]
  simp

/-! ## The removal pass -/

/-- The turn of a VM in `removeVMs`: a VM whose UUID is not listed is dropped and announced. -/
def removeTurn (env : RefreshEnv) (ids : List String) (vm : Ptr) (uuid : String)
    (s : RefreshState) : Except NebuServerException Unit × RefreshState :=
  if uuid ∉ ids then
    let count := (fetches s.trace).length
    let hs := s.mgr.vmEventHandlers
    (callsOutcome env count (.oldVMRemoved vm) 0 hs,
      ⟨s.mgr.eraseVM uuid, s.trace ++ calls env count (s.mgr.eraseVM uuid) (.oldVMRemoved vm) 0 hs⟩)
  else (.ok (), s)

theorem removeTurn_of_listed (env : RefreshEnv) {ids : List String} {u : String} (hu : u ∈ ids)
    (vm : Ptr) (s : RefreshState) : removeTurn env ids vm u s = (.ok (), s) := by
  rw [removeTurn, if_neg (not_not.mpr hu)]

/-- The turns of a list of VMs in `removeVMs`, up to the first exception of a handler. -/
def removeTurns (env : RefreshEnv) (ids : List String) :
    List (Ptr × String) → RefreshState → Except NebuServerException Unit × RefreshState
  | [], s => (.ok (), s)
  | (vm, uuid) :: rest, s =>
    match removeTurn env ids vm uuid s with
    | (.ok _, s') => removeTurns env ids rest s'
    | (.error ex, s') => (.error ex, s')

/-- The tracked VMs with their UUIDs, in the order `removeVMs` visits them. -/
def knownVMs (o : IterationOrder (Σ _ : String, Ptr)) (m : VMManager) : List (Ptr × String) :=
  (m.vmList.iterate o).map fun e => (e.2, e.1)

/-- **The rule of the removal pass.** What every drop of a VM with its announcement keeps, the
pass keeps, also if a handler stops it. -/
theorem removeTurns_rule {env : RefreshEnv} {P : RefreshState → RefreshState → Prop}
    (hrefl : ∀ s, P s s) (htrans : ∀ {s s' s''}, P s s' → P s' s'' → P s s'')
    (hdrop : ∀ vm u s, P s ⟨s.mgr.eraseVM u, s.trace ++ calls env (fetches s.trace).length
      (s.mgr.eraseVM u) (.oldVMRemoved vm) 0 s.mgr.vmEventHandlers⟩)
    (ids : List String) (vms : List (Ptr × String)) (s : RefreshState) :
    P s (removeTurns env ids vms s).2 := by
  induction vms generalizing s with
  | nil => exact hrefl s
  | cons e rest ih =>
    obtain ⟨vm, u⟩ := e
    have hturn : P s (removeTurn env ids vm u s).2 := by
      unfold removeTurn
      split
      next => exact hdrop vm u s
      next => exact hrefl s
    rw [removeTurns]
    rcases hres : removeTurn env ids vm u s with ⟨ex | _, s'⟩
    · simpa only [hres] using hturn
    · rw [hres] at hturn
      exact htrans hturn (ih s')

theorem removeTurn_heap (env : RefreshEnv) (ids : List String) (vm : Ptr) (u : String)
    (s : RefreshState) : (removeTurn env ids vm u s).2.mgr.heap = s.mgr.heap := by
  unfold removeTurn
  split <;> rfl

theorem exec_removeVM (env : RefreshEnv) {vm : Ptr} {v : VirtualMachine} {s : RefreshState}
    (hv : s.mgr.heap.deref? vm = some v) :
    exec (removeVM (forEachEventHandler env) vm) s =
      (abortOf (callsOutcome env (fetches s.trace).length (.oldVMRemoved vm) 0
          s.mgr.vmEventHandlers),
        ⟨s.mgr.eraseVM v.uuid, s.trace ++ calls env (fetches s.trace).length (s.mgr.eraseVM v.uuid)
          (.oldVMRemoved vm) 0 s.mgr.vmEventHandlers⟩) := by
  rw [removeVM, exec_bind_ok (exec_deref s hv)]
  exact (exec_bind_ok rfl).trans (exec_forEachEventHandler _ env _)

/-- The body of the loop of `removeVMs`, before whatever follows it, is a `removeTurn`. -/
theorem exec_removeTurn_bind (env : RefreshEnv) (ids : List String) {vm : Ptr}
    {v : VirtualMachine} {s : RefreshState} (hv : s.mgr.heap.deref? vm = some v)
    (k : Unit → VMProg Unit) :
    exec (if v.uuid ∉ ids.toFinset then removeVM (forEachEventHandler env) vm >>= k else k ()) s =
      match removeTurn env ids vm v.uuid s with
      | (.ok _, s') => exec (k ()) s'
      | (.error ex, s') => (.error (.serverException ex), s') := by
  unfold removeTurn
  by_cases hu : v.uuid ∉ ids
  · rw [if_pos (by simpa using hu), if_pos hu, exec_bind, exec_removeVM env hv]
    simp only []
    generalize callsOutcome env (fetches s.trace).length (.oldVMRemoved vm) 0 _ = outcome
    cases outcome <;> rfl
  · rw [if_neg (by simpa using hu), if_neg hu]

/-- The loop of `removeVMs` over VMs whose UUIDs the heap confirms. -/
theorem exec_removeVMsLoop (env : RefreshEnv) (ids : List String) (vms : List (Ptr × String)) :
    ∀ s : RefreshState,
      (∀ vm u, (vm, u) ∈ vms → ∃ v, s.mgr.heap.deref? vm = some v ∧ v.uuid = u) →
      exec (removeVMsLoop (forEachEventHandler env) ids.toFinset (vms.map Prod.fst)) s =
        (abortOf (removeTurns env ids vms s).1, (removeTurns env ids vms s).2) := by
  induction vms with
  | nil => intro s _; rfl
  | cons e rest ih =>
    obtain ⟨vm, u⟩ := e
    intro s hvms
    obtain ⟨v, hv, rfl⟩ := hvms vm u (by simp)
    have hrest : ∀ vm' u', (vm', u') ∈ rest →
        ∃ v', (removeTurn env ids vm v.uuid s).2.mgr.heap.deref? vm' = some v' ∧ v'.uuid = u' := by
      intro vm' u' hmem
      rw [removeTurn_heap]
      exact hvms vm' u' (by simp [hmem])
    rw [List.map_cons, removeVMsLoop, exec_bind_ok (exec_deref s hv), removeTurns]
    refine (exec_removeTurn_bind env ids hv _).trans ?_
    rcases hturn : removeTurn env ids vm v.uuid s with ⟨ex | _, s'⟩
    · rfl
    · rw [hturn] at hrest
      exact ih s' hrest

theorem exec_removeVMs (env : RefreshEnv) (ids : List String) {s : RefreshState}
    (hs : s.mgr.WellKept) :
    exec (removeVMs (forEachEventHandler env) env ids) s =
      (abortOf (removeTurns env ids (knownVMs env.iteration s.mgr) s).1,
        (removeTurns env ids (knownVMs env.iteration s.mgr) s).2) := by
  have hloop := exec_removeVMsLoop env ids (knownVMs env.iteration s.mgr) s (by
    intro vm u hmem
    obtain ⟨e, he, heq⟩ := List.mem_map.mp hmem
    cases heq
    obtain ⟨r, v, hp, hr, hu⟩ := hs.own e.1 e.2 (UnorderedMap.mem_iterate.mp he)
    exact ⟨v, by rw [hp]; exact hr, hu⟩)
  rw [show (knownVMs env.iteration s.mgr).map Prod.fst = s.mgr.getVMs env.iteration by
    simp [VMManager.getVMs, knownVMs, Function.comp_def]] at hloop
  exact (exec_bind_ok (exec_get s)).trans hloop

/-! ## The whole refresh -/

/-- The state after the fetching passes, with the flag they leave. -/
def VMManager.fetchAll (m : VMManager) (env : RefreshEnv) (ids : List String) :
    Bool × RefreshState :=
  turns env (fetchOrder env ids ⟨m, []⟩) ⟨m, []⟩

/-- A refresh whose id list does not arrive does nothing and reports failure. -/
theorem refresh_of_error {m : VMManager} {env : RefreshEnv} {ex : NebuServerException}
    (h : env.getVirtualMachineIDs = .error ex) : m.refresh env = (.ok false, ⟨m, []⟩) := by
  rw [VMManager.refresh, refreshVMList, h]
  rfl

/-- **A refresh in closed form.** From a well-kept manager, a refresh that obtains the id list
takes one turn for each listed id and one for each VM then tracked; it stops short only if a
handler throws from `oldVMRemoved`. -/
theorem refresh_of_ok {m : VMManager} (hm : m.WellKept) {env : RefreshEnv} {ids : List String}
    (h : env.getVirtualMachineIDs = .ok ids) :
    m.refresh env =
      let fetched := m.fetchAll env ids
      let removed := removeTurns env ids (knownVMs env.iteration fetched.2.mgr) fetched.2
      (abortOf (removed.1.map fun _ => fetched.1), removed.2) := by
  have hs : (⟨m, []⟩ : RefreshState).mgr.WellKept := hm
  have hupd := exec_updateVMs env
    (turns_wellKept env (splitIds env ids ⟨m, []⟩).1 hs)
    fun u hu => mem_of_mem_splitIds hu
  have hrem := exec_removeVMs env ids
    (turns_wellKept env (fetchOrder env ids ⟨m, []⟩) hs)
  rw [VMManager.refresh, refreshVMList, h]
  refine (exec_bind_ok (exec_addNewVMs env ids _)).trans ?_
  refine (exec_bind_ok hupd).trans ?_
  rw [fetchOrder, turns_append] at hrem
  rw [exec_bind, hrem, VMManager.fetchAll, fetchOrder, turns_append]
  simp only []
  generalize removeTurns env ids _ _ = removed
  rcases removed with ⟨ex | _, s'⟩ <;> rfl

end NebuApp
