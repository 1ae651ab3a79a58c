import NebuApp.VM.Steps
import Mathlib.Data.List.Induction

/-!
# What a refresh does, whatever the middleware answers

The facts of this module assume nothing of the answers: `getVirtualMachine(id)` may fail or
return a VM with another UUID. `refresh_spec` gives the fetches of a refresh, the manager they
leave, and what is dropped from it; `Sound` is what holds of every entry of every trace.
-/

namespace NebuApp

open Exec

/-! ## Traces of turns -/

theorem fetches_calls (env : RefreshEnv) (count : Nat) (m : VMManager) (call : Notification)
    (hs : List Ref) (slot : Nat) : fetches (calls env count m call slot hs) = [] := by
  refine List.filterMap_eq_nil_iff.mpr fun e he => ?_
  obtain ⟨slot', rfl⟩ := mem_calls he
  rfl

theorem fetches_turnTrace (env : RefreshEnv) (count : Nat) (m : VMManager) (id : String)
    (answer : Answer) : fetches (turnTrace env count m id answer) = [(id, answer)] := by
  rw [turnTrace]
  cases hw : m.writeFor id answer with
  | none => rfl
  | some w =>
    have hwrite := fetches_write_length [⟨m, .fetched id answer⟩] hw
    have hcalls := fetches_calls env (count + 1) w.mgr w.call w.mgr.vmEventHandlers 0
    rw [show (⟨m, .fetched id answer⟩ : Entry) :: ⟨w.mgr, w.action⟩ ::
          calls env (count + 1) w.mgr w.call 0 w.mgr.vmEventHandlers
        = ([⟨m, .fetched id answer⟩] ++ [⟨w.mgr, w.action⟩]) ++
          calls env (count + 1) w.mgr w.call 0 w.mgr.vmEventHandlers from rfl,
      fetches_append, hwrite, hcalls]
    rfl

theorem answersFor_eq_fetches (u : String) (t : List Entry) :
    answersFor u t = (fetches t).filterMap fun f => if f.1 = u then some f.2 else none := by
  rw [answersFor, fetches, List.filterMap_filterMap]
  refine List.filterMap_congr fun e _ => ?_
  unfold Entry.answerFor? Entry.fetch?
  cases e.action <;> rfl

theorem fetches_turn (env : RefreshEnv) (id : String) (s : RefreshState) :
    fetches (turn env id s).2.trace = fetches s.trace ++ [(id, s.nextAnswer env id)] := by
  rw [turn, fetches_append, fetches_turnTrace]

theorem answersFor_turn (env : RefreshEnv) (u id : String) (s : RefreshState) :
    answersFor u (turn env id s).2.trace =
      answersFor u s.trace ++ if id = u then [s.nextAnswer env id] else [] := by
  rw [answersFor_eq_fetches, fetches_turn, List.filterMap_append, ← answersFor_eq_fetches]
  by_cases h : id = u <;> simp [h]

/-- **Turns in terms of their fetches.** One fetch for each id, in order, the manager is what the
answers make of it, and without throwing handlers the flag tells whether all of them succeeded. -/
theorem turns_spec (env : RefreshEnv) (ids : List String) (s : RefreshState) :
    ∃ fs : List (String × Answer),
      fetches (turns env ids s).2.trace = fetches s.trace ++ fs ∧
      fs.map Prod.fst = ids ∧
      (turns env ids s).2.mgr = fs.foldl VMManager.absorb s.mgr ∧
      (env.HandlersReturn → (turns env ids s).1 = fs.all (·.2.isOk)) ∧
      ∀ u, answersFor u (turns env ids s).2.trace = answersFor u s.trace ++
        (List.range (ids.count u)).map
          fun j => env.getVirtualMachine u ((answersFor u s.trace).length + j) := by
  induction ids generalizing s with
  | nil => exact ⟨[], by simp [turns], rfl, rfl, fun _ => rfl, fun u => by simp [turns]⟩
  | cons id rest ih =>
    obtain ⟨fs, hfetch, hids, hmgr, hflag, hans⟩ := ih (turn env id s).2
    refine ⟨(id, s.nextAnswer env id) :: fs, ?_, ?_, ?_, ?_, fun u => ?_⟩
    · rw [turns, hfetch, fetches_turn, List.append_assoc, List.singleton_append]
    · rw [List.map_cons, hids]
    · rw [turns, hmgr]
      rfl
    · intro hret
      rw [turns, hflag hret, List.all_cons, turn, turnFlag]
      cases s.mgr.writeFor id (s.nextAnswer env id) with
      | none => simp
      | some w => simp [callsOutcome_of_return hret, Except.isOk, Except.toBool]
    · rw [turns, hans u, answersFor_turn]
      by_cases h : id = u
      · subst h
        rw [if_pos rfl, List.count_cons_self, List.range_succ_eq_map, List.map_cons,
          List.append_assoc, List.length_append, List.length_singleton]
        simp [RefreshState.nextAnswer, Function.comp_def, Nat.add_assoc, Nat.add_comm 1]
      · rw [if_neg h, List.append_nil, List.count_cons_of_ne h]

/-! ## The removal pass -/

/-- Dropping VMs touches neither the objects nor the handlers, makes no fetch, and keeps the
representation invariant. -/
theorem removeTurns_frame (env : RefreshEnv) (ids : List String) (vms : List (Ptr × String))
    (s : RefreshState) :
    (removeTurns env ids vms s).2.mgr.heap = s.mgr.heap ∧
      (removeTurns env ids vms s).2.mgr.vmEventHandlers = s.mgr.vmEventHandlers ∧
      fetches (removeTurns env ids vms s).2.trace = fetches s.trace ∧
      (s.mgr.WellKept → (removeTurns env ids vms s).2.mgr.WellKept) := by
  refine removeTurns_rule (P := fun s s' => s'.mgr.heap = s.mgr.heap ∧
    s'.mgr.vmEventHandlers = s.mgr.vmEventHandlers ∧ fetches s'.trace = fetches s.trace ∧
    (s.mgr.WellKept → s'.mgr.WellKept)) (fun _ => ⟨rfl, rfl, rfl, id⟩) ?_ ?_ ids vms s
  · rintro s s' s'' ⟨hheap, hhs, hfs, hkept⟩ ⟨hheap', hhs', hfs', hkept'⟩
    exact ⟨hheap'.trans hheap, hhs'.trans hhs, hfs'.trans hfs, hkept' ∘ hkept⟩
  · exact fun vm u s =>
      ⟨rfl, rfl, by rw [fetches_append, fetches_calls, List.append_nil], fun h => h.eraseVM u⟩

/-- With handlers that return, exactly the visited VMs that are not listed lose their entry. -/
theorem removeTurns_getVM {env : RefreshEnv} (hret : env.HandlersReturn) (ids : List String)
    (vms : List (Ptr × String)) (s : RefreshState) (u : String) :
    (removeTurns env ids vms s).1 = .ok () ∧
      (removeTurns env ids vms s).2.mgr.getVM u =
        if u ∈ vms.map Prod.snd ∧ u ∉ ids then none else s.mgr.getVM u := by
  induction vms generalizing s with
  | nil => exact ⟨rfl, by simp [removeTurns]⟩
  | cons e rest ih =>
    obtain ⟨vm, u'⟩ := e
    by_cases hu' : u' ∈ ids
    · obtain ⟨hok, hget⟩ := ih s
      rw [removeTurns, removeTurn_of_listed env hu']
      refine ⟨hok, hget.trans ?_⟩
      rw [List.map_cons]
      by_cases huu : u = u'
      · subst huu
        simp [hu']
      · simp only [List.mem_cons, huu, false_or]
    · obtain ⟨hok, hget⟩ := ih ⟨s.mgr.eraseVM u',
        s.trace ++ allCalls (s.mgr.eraseVM u') (.oldVMRemoved vm)⟩
      rw [removeTurns, removeTurn_of_unlisted hret hu']
      refine ⟨hok, hget.trans ?_⟩
      rw [VMManager.getVM_eraseVM, List.map_cons]
      by_cases huu : u = u'
      · subst huu
        simp [hu']
      · simp only [List.mem_cons, huu, false_or, if_false]

/-! ## The whole refresh -/

/-- **A refresh in terms of its fetches.** With handlers that return, a refresh that obtains the
list `ids` ends normally; its fetches are those of the listed ids, each as often as listed, the
`j`-th about an id receiving the `j`-th answer for it; the objects are what the answers make of
them, and the entries are those the answers leave, restricted to the listed ids. -/
theorem refresh_spec {m : VMManager} (hm : m.WellKept) {env : RefreshEnv}
    (hret : env.HandlersReturn) {ids : List String} (hids : env.getVirtualMachineIDs = .ok ids) :
    ∃ fs : List (String × Answer),
      fetches (m.refresh env).2.trace = fs ∧
      (fs.map Prod.fst).Perm ids ∧
      (m.refresh env).1 = .ok (fs.all (·.2.isOk)) ∧
      (m.refresh env).2.mgr.heap = (fs.foldl VMManager.absorb m).heap ∧
      (∀ u, answersFor u (m.refresh env).2.trace =
        (List.range (ids.count u)).map (env.getVirtualMachine u)) ∧
      ∀ u, (m.refresh env).2.mgr.getVM u =
        if u ∈ ids then (fs.foldl VMManager.absorb m).getVM u else none := by
  have hs : (⟨m, []⟩ : RefreshState).mgr.WellKept := hm
  have hkept := turns_wellKept env (fetchOrder env ids ⟨m, []⟩) hs
  have hperm := splitIds_perm env ids ⟨m, []⟩
  obtain ⟨fs, hfetch, hfst, hmgr, hflag, hans⟩ :=
    turns_spec env (fetchOrder env ids ⟨m, []⟩) ⟨m, []⟩
  obtain ⟨-, hknown⟩ := knownVMs_spec env.iteration hkept
  obtain ⟨hheap, -, hfs, -⟩ := removeTurns_frame env ids
    (knownVMs env.iteration (m.fetchAll env ids).2.mgr) (m.fetchAll env ids).2
  have hget := removeTurns_getVM hret ids (knownVMs env.iteration (m.fetchAll env ids).2.mgr)
    (m.fetchAll env ids).2
  rw [refresh_of_ok hm hids]
  have hfetches : fetches (m.fetchAll env ids).2.trace = fs := by
    rw [VMManager.fetchAll, hfetch]
    rfl
  refine ⟨fs, hfs.trans hfetches, ?_, ?_, ?_, fun u => ?_, fun u => ?_⟩
  · rw [hfst]
    exact hperm
  · simp only [(hget "").1]
    rw [VMManager.fetchAll, hflag hret]
    rfl
  · rw [← hmgr]
    exact hheap
  · rw [answersFor_eq_fetches, hfs, ← answersFor_eq_fetches]
    refine (hans u).trans ?_
    simp [answersFor, hperm.count_eq u]
  · refine (hget u).2.trans ?_
    rw [show (m.fetchAll env ids).2.mgr = fs.foldl VMManager.absorb m from hmgr]
    by_cases hu : u ∈ ids
    · simp [hu]
    · rw [if_neg hu]
      split
      next => rfl
      next hnot =>
        -- a VM that is neither listed nor visited was not tracked
        cases hnone : (fs.foldl VMManager.absorb m).getVM u with
        | none => rfl
        | some r =>
          refine absurd ⟨?_, hu⟩ hnot
          rw [← hmgr] at hnone ⊢
          exact List.mem_map.mpr ⟨_, (hknown (some r) u).mpr ⟨r, rfl, hnone⟩, rfl⟩

theorem refresh_returns {m : VMManager} (hm : m.WellKept) {env : RefreshEnv}
    (hret : env.HandlersReturn) : ∃ succes, (m.refresh env).1 = .ok succes := by
  cases hids : env.getVirtualMachineIDs with
  | error ex => exact ⟨false, by rw [refresh_of_error hids]⟩
  | ok ids =>
    obtain ⟨fs, -, -, hresult, -⟩ := refresh_spec hm hret hids
    exact ⟨_, hresult⟩

/-! ## What holds throughout every run -/

/-- A trace entry in which the representation invariant holds and no null entry was inserted. -/
def Entry.Sound (e : Entry) : Prop := e.mgr.WellKept ∧ ∀ id, e.action ≠ .nullInserted id

theorem sound_calls {env : RefreshEnv} {count : Nat} {m : VMManager} (hm : m.WellKept)
    (call : Notification) (hs : List Ref) (slot : Nat) :
    ∀ e ∈ calls env count m call slot hs, e.Sound := by
  intro e he
  obtain ⟨slot', rfl⟩ := mem_calls he
  exact ⟨hm, fun _ => by simp⟩

theorem sound_turnTrace {env : RefreshEnv} {count : Nat} {m : VMManager} (hm : m.WellKept)
    (id : String) (answer : Answer) : ∀ e ∈ turnTrace env count m id answer, e.Sound := by
  intro e he
  rw [turnTrace] at he
  rcases List.mem_cons.mp he with rfl | he
  · exact ⟨hm, fun _ => by simp⟩
  · cases hw : m.writeFor id answer with
    | none => rw [hw] at he; cases he
    | some w =>
      have hkept : w.mgr.WellKept := by
        have habs := hm.absorb (id, answer)
        rwa [VMManager.absorb, hw] at habs
      rw [hw] at he
      rcases List.mem_cons.mp he with rfl | he
      · refine ⟨hkept, fun u => ?_⟩
        rcases VMManager.writeFor_cases hw with ⟨vm, -, -, rfl⟩ | ⟨vm, r, old, -, -, -, -, rfl⟩ <;>
          simp
      · exact sound_calls hkept _ _ _ e he

/-- The representation invariant holds now, and held whenever the trace was written. -/
def RefreshState.Sound (s : RefreshState) : Prop := s.mgr.WellKept ∧ ∀ e ∈ s.trace, e.Sound

theorem RefreshState.Sound.append {s : RefreshState} (hs : s.Sound) {m : VMManager}
    (hm : m.WellKept) {t : List Entry} (ht : ∀ e ∈ t, e.Sound) : Sound ⟨m, s.trace ++ t⟩ := by
  refine ⟨hm, fun e he => ?_⟩
  rcases List.mem_append.mp he with he | he
  · exact hs.2 e he
  · exact ht e he

theorem sound_turns {env : RefreshEnv} {ids : List String} {s : RefreshState} (hs : s.Sound) :
    (turns env ids s).2.Sound :=
  turns_rule (P := fun s s' => s.Sound → s'.Sound) (fun _ => id) (fun h h' => h' ∘ h)
    (fun id _ hs => hs.append (turn_wellKept hs.1 id) (sound_turnTrace hs.1 _ _)) ids s hs

theorem sound_removeTurns {env : RefreshEnv} {ids : List String} {vms : List (Ptr × String)}
    {s : RefreshState} (hs : s.Sound) : (removeTurns env ids vms s).2.Sound :=
  removeTurns_rule (P := fun s s' => s.Sound → s'.Sound) (fun _ => id) (fun h h' => h' ∘ h)
    (fun _ u _ hs => hs.append (hs.1.eraseVM u) (sound_calls (hs.1.eraseVM u) _ _ _)) ids vms s hs

/-- A refresh keeps the representation invariant at every moment, whatever the answers and
whichever handlers throw. -/
theorem refresh_sound {m : VMManager} (hm : m.WellKept) (env : RefreshEnv) :
    (m.refresh env).2.Sound := by
  have hs : (⟨m, []⟩ : RefreshState).Sound := ⟨hm, fun e he => by cases he⟩
  cases hids : env.getVirtualMachineIDs with
  | error ex =>
    rw [refresh_of_error hids]
    exact hs
  | ok ids =>
    rw [refresh_of_ok hm hids]
    exact sound_removeTurns (sound_turns hs)

theorem refresh_handlers {m : VMManager} (hm : m.WellKept) (env : RefreshEnv) :
    (m.refresh env).2.mgr.vmEventHandlers = m.vmEventHandlers := by
  cases hids : env.getVirtualMachineIDs with
  | error ex => rw [refresh_of_error hids]
  | ok ids =>
    rw [refresh_of_ok hm hids]
    refine (removeTurns_frame env ids _ _).2.1.trans ?_
    exact turns_handlers env (fetchOrder env ids ⟨m, []⟩) ⟨m, []⟩

/-- The invariant is kept by every sequence of operations, and the handlers stay in their slots. -/
theorem foldl_perform_sound (ops : List Op) {s : RefreshState} (hs : s.Sound) :
    (ops.foldl Op.perform s).Sound ∧
      s.mgr.vmEventHandlers <+: (ops.foldl Op.perform s).mgr.vmEventHandlers := by
  induction ops generalizing s with
  | nil => exact ⟨hs, List.prefix_rfl⟩
  | cons op rest ih =>
    have hop : (op.perform s).Sound ∧
        s.mgr.vmEventHandlers <+: (op.perform s).mgr.vmEventHandlers := by
      cases op with
      | registerVMEventHandler h =>
        exact ⟨⟨hs.1.registerVMEventHandler h, hs.2⟩, List.prefix_append _ [h]⟩
      | refreshVMList env =>
        obtain ⟨hkept, hsound⟩ := refresh_sound hs.1 env
        refine ⟨hs.append hkept hsound, [], ?_⟩
        rw [List.append_nil]
        exact (refresh_handlers hs.1 env).symm
    obtain ⟨hrest, hslots⟩ := ih hop.1
    exact ⟨hrest, hop.2.trans hslots⟩

/-- **The invariant of every run.** -/
theorem runOps_sound (ops : List Op) : (runOps ops).Sound :=
  (foldl_perform_sound ops ⟨VMManager.wellKept_init, fun e he => by cases he⟩).1

/-! ## The queries -/

/-- The queries of a manager agree on what is tracked, whatever order `vmList` is iterated in. -/
structure VMManager.QueriesAgree (m : VMManager) : Prop where
  hasVM_iff_getVM : ∀ u, m.hasVM u = true ↔ m.getVM u ≠ none
  getVM_iff_getVMs : ∀ u o, m.getVM u ≠ none ↔
    (m.getVMs o).countP (fun p => (m.heap.deref? p).map (·.uuid) = some u) = 1
  getVMs_tracked : ∀ o, ∀ p ∈ m.getVMs o, ∃ u r, p = some r ∧ m.getVM u = some r

theorem VMManager.WellKept.mem_iff_getVM {m : VMManager} (hm : m.WellKept) (u : String) :
    u ∈ m.vmList ↔ m.getVM u ≠ none := by
  rw [ne_eq, ← hm.lookup_none_iff, ← AList.lookup_isSome, Option.isSome_iff_ne_none]

theorem VMManager.WellKept.queriesAgree {m : VMManager} (hm : m.WellKept) : m.QueriesAgree := by
  refine ⟨fun u => ?_, fun u o => ?_, fun o p hp => ?_⟩
  · rw [← hm.mem_iff_getVM, hasVM, decide_eq_true_iff]
  · -- the UUID behind an entry is its key, and an iteration visits no key twice
    have hcount : (m.getVMs o).countP (fun p => (m.heap.deref? p).map (·.uuid) = some u)
        = ((m.vmList.iterate o).map Sigma.fst).count u := by
      rw [getVMs, List.countP_map, List.count_eq_countP, List.countP_map]
      refine List.countP_congr fun e he => ?_
      obtain ⟨r, vm, hp, hr, hu⟩ := hm.own e.1 e.2 (UnorderedMap.mem_iterate.mp he)
      simp [hp, hr, hu]
    have hmem : u ∈ (m.vmList.iterate o).map Sigma.fst ↔ u ∈ m.vmList := by
      rw [((UnorderedMap.iterate_perm o m.vmList).map Sigma.fst).mem_iff]
      rfl
    rw [hcount, (UnorderedMap.nodup_keys_iterate o m.vmList).count, ← hm.mem_iff_getVM, ← hmem]
    by_cases hu : u ∈ (m.vmList.iterate o).map Sigma.fst <;> simp [hu]
  · obtain ⟨e, he, rfl⟩ := List.mem_map.mp hp
    have hlookup : m.vmList.lookup e.1 = some e.2 := UnorderedMap.mem_iterate.mp he
    obtain ⟨r, vm, hr, -, -⟩ := hm.own e.1 e.2 hlookup
    rw [hr] at hlookup
    exact ⟨e.1, r, hr, lookup_eq_some_iff.mp hlookup⟩

theorem runOps_concat (ops : List Op) (op : Op) :
    runOps (ops ++ [op]) = op.perform (runOps ops) := by
  rw [runOps, List.foldl_append]
  rfl

/-- The trace so far does not matter to what operations do. -/
theorem foldl_perform_trace (ops : List Op) (m : VMManager) (t : List Entry) :
    ops.foldl Op.perform ⟨m, t⟩ = ⟨(ops.foldl Op.perform ⟨m, []⟩).mgr,
      t ++ (ops.foldl Op.perform ⟨m, []⟩).trace⟩ := by
  induction ops generalizing m t with
  | nil => simp
  | cons op rest ih =>
    cases op with
    | registerVMEventHandler eventHandler => exact ih _ t
    | refreshVMList env =>
      rw [List.foldl_cons, List.foldl_cons, Op.perform, Op.perform, ih, ih _ ([] ++ _)]
      simp

theorem runOps_append (ops ops' : List Op) :
    runOps (ops ++ ops') = ⟨(ops'.foldl Op.perform ⟨(runOps ops).mgr, []⟩).mgr,
      (runOps ops).trace ++ (ops'.foldl Op.perform ⟨(runOps ops).mgr, []⟩).trace⟩ := by
  rw [runOps, List.foldl_append]
  exact foldl_perform_trace ops' _ _

/-! ## Runs in turns -/

/-- What a refresh leaves, computed in turns. The recursions of this are structural, unlike that of
`addNewVMs`, so that it can be evaluated. -/
def VMManager.refreshInTurns (m : VMManager) (env : RefreshEnv) : RefreshState :=
  match env.getVirtualMachineIDs with
  | .error _ => ⟨m, []⟩
  | .ok ids =>
    let fetched := (m.fetchAll env ids).2
    (removeTurns env ids (knownVMs env.iteration fetched.mgr) fetched).2

theorem refresh_inTurns {m : VMManager} (hm : m.WellKept) (env : RefreshEnv) :
    (m.refresh env).2 = m.refreshInTurns env := by
  rw [VMManager.refreshInTurns]
  cases hids : env.getVirtualMachineIDs with
  | error ex => rw [refresh_of_error hids]
  | ok ids => rw [refresh_of_ok hm hids]

/-- What `Op.perform` leaves, computed in turns. -/
def Op.performInTurns (s : RefreshState) : Op → RefreshState
  | registerVMEventHandler eventHandler =>
    { s with mgr := s.mgr.registerVMEventHandler eventHandler }
  | refreshVMList env =>
    let s' := s.mgr.refreshInTurns env
    ⟨s'.mgr, s.trace ++ s'.trace⟩

/-- A run in turns is the run. Induction on the last operation. -/
theorem runOps_inTurns (ops : List Op) : runOps ops = ops.foldl Op.performInTurns ⟨.init, []⟩ := by
  induction ops using List.reverseRecOn with
  | nil => rfl
  | append_singleton ops op ih =>
    rw [runOps_concat, List.foldl_append, ← ih, List.foldl_cons, List.foldl_nil]
    cases op with
    | registerVMEventHandler eventHandler => rfl
    | refreshVMList env =>
      rw [Op.perform, Op.performInTurns, refresh_inTurns (runOps_sound ops).1 env]

/-- **`vmList` against an arbitrary middleware.** Whatever the middleware answers, at every moment
of a run whose handlers return every entry of `vmList` is a non-null pointer stored under its own
UUID and the queries agree; `operator[]` never inserts a null entry; every refresh ends normally,
so nothing dereferences null; and a refresh that obtained the list of ids leaves only listed keys.
-/
theorem vmList_wellKept (ops : List Op)
    (hret : ∀ op ∈ ops, op.Meets RefreshEnv.HandlersReturn) :
    ((runOps ops).mgr.WellKept ∧ (runOps ops).mgr.QueriesAgree) ∧
      (∀ e ∈ (runOps ops).trace, e.mgr.WellKept ∧ e.mgr.QueriesAgree ∧
        ∀ id, e.action ≠ .nullInserted id) ∧
      ∀ before env, before ++ [.refreshVMList env] <+: ops →
        (∃ succes, ((runOps before).mgr.refresh env).1 = .ok succes) ∧
          ∀ ids, env.getVirtualMachineIDs = .ok ids →
            ∀ u ∈ (runOps (before ++ [.refreshVMList env])).mgr.vmList, u ∈ ids := by
  obtain ⟨hkept, hsound⟩ := runOps_sound ops
  refine ⟨⟨hkept, hkept.queriesAgree⟩, fun e he => ?_, fun before env hpre => ?_⟩
  · obtain ⟨hm, hnull⟩ := hsound e he
    exact ⟨hm, hm.queriesAgree, hnull⟩
  · have henv : env.HandlersReturn := hret (.refreshVMList env) (hpre.subset (by simp))
    have hbefore := (runOps_sound before).1
    have hafter := (runOps_sound (before ++ [.refreshVMList env])).1
    rw [runOps_concat] at hafter ⊢
    refine ⟨refresh_returns hbefore henv, fun ids hids u hu => ?_⟩
    obtain ⟨fs, -, -, -, -, -, hget⟩ := refresh_spec hbefore henv hids
    by_contra hnot
    have hnone : (Op.perform (runOps before) (.refreshVMList env)).mgr.getVM u = none :=
      (hget u).trans (if_neg hnot)
    exact (hafter.mem_iff_getVM u).mp hu hnone

/-- A middleware that answers a fetch of `vmB` with `vmA`. -/
theorem vmList_wellKept_foreign :
    let env := { RefreshEnv.uniform ["vmA", "vmB"] .on with
      getVirtualMachine := fun _ _ => .ok ⟨"vmA", "web", "h1", "s1", .on⟩ }
    (runOps [.refreshVMList env, .refreshVMList env]).mgr.WellKept := by
  intro env
  have hret : ∀ op ∈ [Op.refreshVMList env, .refreshVMList env],
      op.Meets RefreshEnv.HandlersReturn := by
    simp [Op.Meets, RefreshEnv.HandlersReturn, env, RefreshEnv.uniform]
  exact (vmList_wellKept _ hret).1.1

/-! ## One fetch for each listing -/

/-- The two passes end normally and share the fetches of a refresh: what `addNewVMs` fetches and
what it leaves in the vector make up the list, `updateVMs` fetches what is left, in order, and
the flag of either pass tells whether all of its fetches succeeded. -/
def PassesShareFetches (m : VMManager) (env : RefreshEnv) (ids : List String) : Prop :=
  ∃ (left : List String) (added updated : List (String × Answer)) (s₁ s₂ : RefreshState),
    exec (addNewVMs (forEachEventHandler env) env ids) ⟨m, []⟩ =
      (.ok (added.all (·.2.isOk), left), s₁) ∧
    exec (updateVMs (forEachEventHandler env) env left) s₁ = (.ok (updated.all (·.2.isOk)), s₂) ∧
    fetches s₁.trace = added ∧ fetches s₂.trace = added ++ updated ∧
    (added.map Prod.fst ++ left).Perm ids ∧ updated.map Prod.fst = left ∧
    fetches (m.refresh env).2.trace = added ++ updated

theorem passesShareFetches {m : VMManager} (hm : m.WellKept) {env : RefreshEnv}
    (hret : env.HandlersReturn) {ids : List String} (hids : env.getVirtualMachineIDs = .ok ids) :
    PassesShareFetches m env ids := by
  have hs : (⟨m, []⟩ : RefreshState).mgr.WellKept := hm
  obtain ⟨added, hfetch, hfst, -, hflag, -⟩ := turns_spec env (splitIds env ids ⟨m, []⟩).1 ⟨m, []⟩
  have hkept := turns_wellKept env (splitIds env ids ⟨m, []⟩).1 hs
  have hadd := exec_addNewVMs env ids ⟨m, []⟩
  -- the update pass begins where the other ended
  obtain ⟨updated, hfetch', hfst', -, hflag', -⟩ :=
    turns_spec env (splitIds env ids ⟨m, []⟩).2 (turns env (splitIds env ids ⟨m, []⟩).1 ⟨m, []⟩).2
  have hupd := exec_updateVMs env hkept fun u hu => mem_of_mem_splitIds hu
  obtain ⟨-, -, hremove, -⟩ := removeTurns_frame env ids
    (knownVMs env.iteration (m.fetchAll env ids).2.mgr) (m.fetchAll env ids).2
  rw [hflag hret] at hadd
  rw [hflag' hret] at hupd
  have hadded : fetches (turns env (splitIds env ids ⟨m, []⟩).1 ⟨m, []⟩).2.trace = added := hfetch
  rw [hadded] at hfetch'
  refine ⟨_, added, updated, _, _, hadd, hupd, hadded, hfetch', ?_, hfst', ?_⟩
  · rw [hfst]
    exact splitIds_perm env ids ⟨m, []⟩
  · rw [refresh_of_ok hm hids]
    refine hremove.trans ?_
    rw [VMManager.fetchAll, fetchOrder, turns_append]
    exact hfetch'

/-- **Every listed id is fetched once per listing, and the result tells of every fetch.** From any
reachable manager and with any answers, the list of ids either does not arrive, and nothing is
fetched, or both passes end normally and the ids fetched are the listed ones, each as often as it
is listed: those that are unknown when `addNewVMs` reaches them by `addNewVMs`, the others, which
it leaves in the vector, by `updateVMs`. The refresh returns `true` exactly when the list and all
these fetches succeeded. -/
theorem refresh_fetches_every_listing (ops : List Op) (env : RefreshEnv)
    (hret : env.HandlersReturn) :
    let m := (runOps ops).mgr
    let after := m.refresh env
    (∀ ex, env.getVirtualMachineIDs = .error ex → after = (.ok false, ⟨m, []⟩)) ∧
      (∀ ids, env.getVirtualMachineIDs = .ok ids →
        ((fetches after.2.trace).map Prod.fst).Perm ids ∧
        (∀ u, answersFor u after.2.trace =
          (List.range (ids.count u)).map (env.getVirtualMachine u)) ∧
        PassesShareFetches m env ids) ∧
      (∃ succes, after.1 = .ok succes) ∧
      (after.1 = .ok true ↔ (∃ ids, env.getVirtualMachineIDs = .ok ids) ∧
        ∀ f ∈ fetches after.2.trace, f.2.isOk) := by
  intro m after
  have hm : m.WellKept := (runOps_sound ops).1
  cases hids : env.getVirtualMachineIDs with
  | error ex =>
    have hafter : after = (.ok false, ⟨m, []⟩) := refresh_of_error hids
    refine ⟨fun _ _ => hafter, fun ids h => (by cases h), ⟨false, by rw [hafter]⟩, ?_⟩
    rw [hafter]
    exact ⟨fun h => (by cases h), fun ⟨⟨ids, h⟩, _⟩ => (by cases h)⟩
  | ok ids =>
    obtain ⟨fs, hfs, hperm, hresult, -, hans, -⟩ := refresh_spec hm hret hids
    refine ⟨fun ex h => (by cases h), fun ids' h => ?_, ⟨_, hresult⟩, ?_⟩
    · cases h
      rw [← hfs] at hperm
      exact ⟨hperm, hans, passesShareFetches hm hret hids⟩
    · rw [show after.1 = _ from hresult, show fetches after.2.trace = fs from hfs,
        Except.ok.injEq, List.all_eq_true]
      exact ⟨fun h => ⟨⟨ids, rfl⟩, h⟩, fun h => h.2⟩

/-- A new VM and a known one, each listed twice, whose first fetches fail. -/
theorem refresh_fetches_every_listing_failing :
    let ops : List Op := [.refreshVMList (.uniform ["vmA"] .off)]
    let env := { RefreshEnv.uniform ["vmB", "vmA", "vmB", "vmA"] .on with
      getVirtualMachine := fun id n =>
        if n = 0 then .error ⟨"timeout"⟩ else .ok ⟨id, "web", "h1", "s1", .on⟩ }
    let after := (runOps ops).mgr.refresh env
    ((fetches after.2.trace).map Prod.fst).Perm ["vmB", "vmA", "vmB", "vmA"] ∧
      ∃ succes, after.1 = .ok succes := by
  intro ops env after
  have h := refresh_fetches_every_listing ops env fun _ _ _ => rfl
  exact ⟨(h.2.1 _ rfl).1, h.2.2.1⟩

end NebuApp
