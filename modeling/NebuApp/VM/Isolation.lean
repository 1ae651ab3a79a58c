import NebuApp.VM.Reconciliation

/-!
# A refresh, seen from one UUID

With honest UUIDs and handlers that return, what a refresh does to one UUID and what it tells of
it depends on the entry held under that UUID, on whether it is listed, and on the answers about
it. `eventsAbout_refresh` gives the events as those of `Lib.Reconcile`. Two refreshes that agree
in these data do the same to the UUID, whatever else is listed, fails or is tracked; and a refresh
that repeats the answers of the one before finds nothing to do.
-/

namespace NebuApp

open Mirror Reconcile

/-- The events a trace delivers to the handler in `slot` about `u`. -/
def eventsAbout (u : String) (slot : Nat) (trace : List Entry) : List (Change String VMStatus) :=
  (eventsTo slot trace).filter fun c => c.key = u

theorem eventsAbout_append (u : String) (slot : Nat) (t t' : List Entry) :
    eventsAbout u slot (t ++ t') = eventsAbout u slot t ++ eventsAbout u slot t' := by
  rw [eventsAbout, eventsTo, changesTo_append, List.map_append, List.filter_append]
  rfl

/-! ## One turn -/

theorem VMManager.statuses_of_lookup {m : VMManager} {u : String} {r : Ref}
    {vm : VirtualMachine} (hl : m.vmList.lookup u = some (some r))
    (hr : m.heap.get? r = some vm) : m.statuses u = some vm.status := by
  rw [statuses, record?, lookup_eq_some_iff.mp hl, Store.deref?_some, hr]
  rfl

/-- The status held after an answer is the one it reports or, if it reports none, the one before. -/
theorem VMManager.WellKept.statuses_absorb {m : VMManager} (hm : m.WellKept) {id : String}
    {answer : Answer} (hown : ∀ vm, answer = .ok vm → vm.uuid = id) (u : String) :
    (m.absorb (id, answer)).statuses u =
      if id = u then (reportedStatus answer).or (m.statuses u) else m.statuses u := by
  rw [statuses, hm.record?_absorb hown, statuses]
  split
  next =>
    have h := foldl_absorbRecord_status [answer] (m.record? u)
    rw [List.foldl_cons, List.foldl_nil] at h
    rw [h]
    cases answer <;> rfl
  next => rfl

/-- **When an answer writes nothing**: it failed, or it reports the status held. -/
theorem VMManager.WellKept.writeFor_eq_none_iff {m : VMManager} (hm : m.WellKept) {id : String}
    {answer : Answer} : m.writeFor id answer = none ↔
      ∀ st, reportedStatus answer = some st → m.statuses id = some st := by
  cases answer with
  | error ex => simp [writeFor_error, reportedStatus]
  | ok vm =>
    have hreported : reportedStatus (.ok vm) = some vm.status := rfl
    cases hl : m.vmList.lookup id with
    | none =>
      have hnone : m.statuses id = none := by
        rw [statuses, hm.record?_eq_none_iff.mpr hl]
        rfl
      simp [writeFor_unknown hl, hreported, hnone]
    | some p =>
      obtain ⟨r, old, rfl, hr, -⟩ := hm.own id p hl
      rw [writeFor_known hl hr, statuses_of_lookup hl hr, hreported]
      simp

/-- **What a turn tells.** The events of a turn are those of one fetch of its id. -/
theorem eventsTo_turnTrace {env : RefreshEnv} (hret : env.HandlersReturn) (count : Nat)
    {m : VMManager} (hm : m.WellKept) {id : String} {answer : Answer}
    (hown : ∀ vm, answer = .ok vm → vm.uuid = id) {slot : Nat}
    (hslot : slot < m.vmEventHandlers.length) :
    eventsTo slot (turnTrace env count m id answer) =
      tell id (m.statuses id) (reportedStatus answer) := by
  -- the fetch itself tells nothing
  have hfetch : ∀ t, eventsTo slot (⟨m, .fetched id answer⟩ :: t) = eventsTo slot t := by
    intro t
    rw [← List.singleton_append, eventsTo, changesTo_append]
    rfl
  rw [turnTrace, hfetch]
  cases hw : m.writeFor id answer with
  | none =>
    rw [tell_eq_nil (hm.writeFor_eq_none_iff.mp hw)]
    rfl
  | some w =>
    simp only [calls_eq_allCalls hret]
    rcases VMManager.writeFor_cases hw with
      ⟨vm, rfl, hl, rfl⟩ | ⟨vm, r, old, rfl, hl, hr, hne, rfl⟩
    · have hnone : m.statuses id = none := by
        rw [VMManager.statuses, hm.record?_eq_none_iff.mpr hl]
        rfl
      rw [eventsTo, changesTo_recorded hslot, hown vm rfl, hnone]
      rfl
    · obtain ⟨r', old', hr', hold', huuid⟩ := hm.own id (some r) hl
      cases hr'
      obtain rfl : old = old' := Option.some.inj (hr.symm.trans hold')
      rw [eventsTo, changesTo_overwrote hslot hr, huuid, VMManager.statuses_of_lookup hl hr]
      exact (if_neg hne).symm

/-! ## The passes -/

section Passes

variable {env : RefreshEnv} (hret : env.HandlersReturn) (hown : env.HonestUUIDs)
include hret hown

/-- **What the fetching passes tell of `u`** depends on the status held and the answers about `u`.
Induction on the ids still to be fetched. -/
theorem eventsAbout_turns (u : String) {slot : Nat} (ids : List String) {s : RefreshState}
    (hs : s.mgr.WellKept) (hslot : slot < s.mgr.vmEventHandlers.length) :
    eventsAbout u slot (turns env ids s).2.trace = eventsAbout u slot s.trace ++
      tellAll u (s.mgr.statuses u) ((List.range (ids.count u)).map fun j =>
        reportedStatus (env.getVirtualMachine u ((answersFor u s.trace).length + j))) := by
  induction ids generalizing s with
  | nil => simp [turns, tellAll]
  | cons id rest ih =>
    have hanswer : ∀ vm, s.nextAnswer env id = .ok vm → vm.uuid = id := fun vm h => hown _ _ _ h
    have htold : eventsAbout u slot (turn env id s).2.trace = eventsAbout u slot s.trace ++
        (tell id (s.mgr.statuses id) (reportedStatus (s.nextAnswer env id))).filter
          fun c => c.key = u := by
      rw [turn, eventsAbout_append]
      congr 1
      rw [eventsAbout, eventsTo_turnTrace hret _ hs hanswer hslot]
    have hstatus : (turn env id s).2.mgr.statuses u = if id = u
        then (reportedStatus (s.nextAnswer env id)).or (s.mgr.statuses u)
        else s.mgr.statuses u := hs.statuses_absorb hanswer u
    rw [turns, ih (turn_wellKept hs id) (by simpa [turn] using hslot), htold, hstatus,
      answersFor_turn]
    by_cases hu : id = u
    -- its own turn: all that is told is about `u`, and the next answer is the first of the rest
    · subst hu
      have hall : (tell id (s.mgr.statuses id) (reportedStatus (s.nextAnswer env id))).filter
          (fun c => c.key = id) = tell id (s.mgr.statuses id) _ :=
        List.filter_eq_self.mpr fun c hc => decide_eq_true (key_of_mem_tell hc)
      rw [if_pos rfl, if_pos rfl, hall, List.count_cons_self, List.range_succ_eq_map,
        List.map_cons, tellAll, List.append_assoc, List.length_append, List.length_singleton]
      simp [RefreshState.nextAnswer, Function.comp_def, Nat.add_assoc, Nat.add_comm 1]
    -- the turn of another VM tells nothing about `u`
    · have hnone : (tell id (s.mgr.statuses id) (reportedStatus (s.nextAnswer env id))).filter
          (fun c => c.key = u) = [] :=
        List.filter_eq_nil_iff.mpr fun c hc => by simpa [key_of_mem_tell hc] using hu
      rw [if_neg hu, if_neg hu, hnone, List.append_nil, List.append_nil,
        List.count_cons_of_ne hu]

omit hret in
theorem statuses_turns_of_not_mem {u : String} {ids : List String} (hu : u ∉ ids)
    {s : RefreshState} (hs : s.mgr.WellKept) :
    (turns env ids s).2.mgr.statuses u = s.mgr.statuses u := by
  induction ids generalizing s with
  | nil => rfl
  | cons id rest ih =>
    rw [List.mem_cons, not_or] at hu
    rw [turns, ih hu.2 (turn_wellKept hs id)]
    exact (hs.statuses_absorb (fun vm h => hown _ _ _ h) u).trans (if_neg (Ne.symm hu.1))

omit hown in
/-- **What the removal pass tells of `u`**: its removal, if it is visited and not listed. -/
theorem eventsAbout_removeTurns (u : String) {slot : Nat} (ids : List String)
    {vms : List (Ptr × String)} {s : RefreshState} (hs : s.mgr.WellKept)
    (hslot : slot < s.mgr.vmEventHandlers.length) (hnodup : (vms.map Prod.snd).Nodup)
    (hvms : ∀ vm u', (vm, u') ∈ vms → ∃ r, vm = some r ∧ s.mgr.getVM u' = some r) :
    eventsAbout u slot (removeTurns env ids vms s).2.trace = eventsAbout u slot s.trace ++
      if u ∈ vms.map Prod.snd ∧ u ∉ ids then (s.mgr.statuses u).toList.map (.removed u)
      else [] := by
  induction vms generalizing s with
  | nil => simp [removeTurns]
  | cons e rest ih =>
    obtain ⟨vm, u'⟩ := e
    obtain ⟨r, rfl, hr⟩ := hvms vm u' (by simp)
    rw [List.map_cons, List.nodup_cons] at hnodup
    have hvms' := fun vm' v (hmem : (vm', v) ∈ rest) => hvms vm' v (by simp [hmem])
    by_cases hu' : u' ∈ ids
    · rw [removeTurns, removeTurn_of_listed env hu', List.map_cons]
      refine (ih hs hslot hnodup.2 hvms').trans ?_
      by_cases hu : u = u'
      · subst hu
        simp [hu']
      · simp only [List.mem_cons, hu, false_or]
    · obtain ⟨old, hold, huuid, -⟩ := hs.getVM_spec hr
      -- the visited VM itself, then the others
      have htold : eventsAbout u slot (allCalls (s.mgr.eraseVM u') (.oldVMRemoved (some r))) =
          if u = u' then (s.mgr.statuses u).toList.map (.removed u) else [] := by
        have hstatus : s.mgr.statuses u' = some old.status :=
          VMManager.statuses_of_lookup (VMManager.lookup_eq_some_iff.mpr hr) hold
        rw [eventsAbout, eventsTo, changesTo_removed hslot hold, huuid]
        by_cases hu : u = u'
        · subst hu
          rw [if_pos rfl, hstatus]
          simp [Change.map, Change.key]
        · rw [if_neg hu]
          simp [Change.map, Change.key, Ne.symm hu]
      rw [removeTurns, removeTurn_of_unlisted hret hu', List.map_cons]
      refine (ih (s := ⟨s.mgr.eraseVM u', _⟩) (hs.eraseVM u') hslot hnodup.2
        (getVM_of_rest hnodup.1 hvms')).trans ?_
      rw [eventsAbout_append, htold, VMManager.statuses_eraseVM, List.append_assoc]
      by_cases hu : u = u'
      · subst hu
        simp [hu']
      · simp only [List.mem_cons, hu, false_or, if_false, List.nil_append]

end Passes

/-! ## The refresh -/

/-- The statuses the answers about `u` report in a refresh that lists it `n` times. -/
def RefreshEnv.reports (env : RefreshEnv) (u : String) (n : Nat) : List (Option VMStatus) :=
  (List.range n).map fun j => reportedStatus (env.getVirtualMachine u j)

/-- **What a refresh tells of one UUID** is what the reconciliation of its status tells. -/
theorem eventsAbout_refresh {m : VMManager} (hm : m.WellKept) {env : RefreshEnv}
    (hret : env.HandlersReturn) (hown : env.HonestUUIDs) {ids : List String}
    (hids : env.getVirtualMachineIDs = .ok ids) (u : String) {slot : Nat}
    (hslot : slot < m.vmEventHandlers.length) :
    eventsAbout u slot (m.refresh env).2.trace =
      tellKey u (u ∈ ids) (m.statuses u) (env.reports u (ids.count u)) := by
  have hs : (⟨m, []⟩ : RefreshState).mgr.WellKept := hm
  have hkept := turns_wellKept env (fetchOrder env ids ⟨m, []⟩) hs
  have hperm := splitIds_perm env ids ⟨m, []⟩
  obtain ⟨hnodup, hknown⟩ := knownVMs_spec env.iteration hkept
  have hfetched := eventsAbout_turns hret hown u (fetchOrder env ids ⟨m, []⟩) hs hslot
  have hslot' : slot <
      (turns env (fetchOrder env ids ⟨m, []⟩) ⟨m, []⟩).2.mgr.vmEventHandlers.length := by
    rw [turns_handlers]
    exact hslot
  have hremoved := eventsAbout_removeTurns hret u ids hkept hslot' hnodup
    fun vm u' h => (hknown vm u').mp h
  have hreports : ∀ n, (List.range n).map (fun j => reportedStatus (env.getVirtualMachine u
      ((answersFor u (⟨m, []⟩ : RefreshState).trace).length + j))) = env.reports u n := by
    intro n
    simp [RefreshEnv.reports, answersFor]
  rw [hreports, hperm.count_eq u] at hfetched
  rw [refresh_of_ok hm hids]
  refine hremoved.trans ?_
  rw [hfetched, show eventsAbout u slot (⟨m, []⟩ : RefreshState).trace = [] from rfl,
    List.nil_append]
  unfold tellKey
  by_cases hu : u ∈ ids
  · simp [hu]
  · have hstatus := statuses_turns_of_not_mem hown (mt hperm.mem_iff.mp hu) hs
    rw [hstatus, List.count_eq_zero.mpr hu]
    -- an unlisted VM is visited iff it is tracked
    have hvisited : (m.statuses u).isSome → u ∈ (knownVMs env.iteration
        (turns env (fetchOrder env ids ⟨m, []⟩) ⟨m, []⟩).2.mgr).map Prod.snd := by
      intro hsome
      rw [← hstatus, VMManager.statuses, Option.isSome_map, ← hkept.mem_iff_record?,
        hkept.mem_iff_getVM] at hsome
      obtain ⟨r, hr⟩ := Option.ne_none_iff_exists'.mp hsome
      exact List.mem_map.mpr ⟨_, (hknown (some r) u).mpr ⟨r, rfl, hr⟩, rfl⟩
    cases hm' : m.statuses u with
    | none => simp [hu, RefreshEnv.reports, tellAll]
    | some st => simp [hu, RefreshEnv.reports, tellAll, hvisited (by rw [hm']; rfl)]

/-- The status a refresh leaves under one UUID. -/
theorem statuses_refresh_apply {m : VMManager} (hm : m.WellKept) {env : RefreshEnv}
    (hret : env.HandlersReturn) (hown : env.HonestUUIDs) {ids : List String}
    (hids : env.getVirtualMachineIDs = .ok ids) (u : String) :
    (m.refresh env).2.mgr.statuses u = if u ∈ ids
      then ((env.reports u (ids.count u)).filterMap id).getLast?.or (m.statuses u) else none := by
  rw [statuses_refresh hm hret hown hids, reconcile_apply, lastValue, valuesOf_statusFetches,
    answersFor_refresh hm hret hids, RefreshEnv.reports, List.filterMap_map, List.filterMap_map]
  rfl

/-- A middleware whose answers about `u` do not change during a refresh. -/
theorem RefreshEnv.reports_eq_replicate {env : RefreshEnv} {u : String} {a : Option VMStatus}
    (h : ∀ j, reportedStatus (env.getVirtualMachine u j) = a) (n : Nat) :
    env.reports u n = List.replicate n a := by
  simp [reports, h]

theorem statuses_refresh_of_fixed {m : VMManager} (hm : m.WellKept) {env : RefreshEnv}
    (hret : env.HandlersReturn) (hown : env.HonestUUIDs) {ids : List String}
    (hids : env.getVirtualMachineIDs = .ok ids) {u : String} {a : Option VMStatus}
    (ha : ∀ j, reportedStatus (env.getVirtualMachine u j) = a) :
    (m.refresh env).2.mgr.statuses u = if u ∈ ids then a.or (m.statuses u) else none := by
  rw [statuses_refresh_apply hm hret hown hids, RefreshEnv.reports_eq_replicate ha]
  by_cases hu : u ∈ ids
  · obtain ⟨n, hn⟩ := Nat.exists_eq_succ_of_ne_zero (List.count_pos_iff.mpr hu).ne'
    have hlast : ((List.replicate (ids.count u) a).filterMap id).getLast? = a := by
      rw [hn, List.replicate_succ', List.filterMap_append, List.getLast?_append]
      cases a with
      | none => simp
      | some st => rfl
    rw [if_pos hu, if_pos hu, hlast]
  · rw [if_neg hu, if_neg hu]

theorem tellKey_of_fixed (u : String) (held a : Option VMStatus) (ids : List String) :
    tellKey u (u ∈ ids) held (List.replicate (ids.count u) a) =
      if u ∈ ids then tell u held a else held.toList.map (.removed u) := by
  unfold tellKey
  by_cases hu : u ∈ ids
  · obtain ⟨n, hn⟩ := Nat.exists_eq_succ_of_ne_zero (List.count_pos_iff.mpr hu).ne'
    simp only [hu, decide_true, if_true, hn]
    exact tellAll_replicate u held a n
  · simp [hu]

/-! ## Two refreshes and one UUID -/

/-- Two refreshes do the same to `u`: they leave the same entry under `u` and tell every handler
the same of it. -/
structure SameFor (u : String) (m : VMManager) (env : RefreshEnv) (m' : VMManager)
    (env' : RefreshEnv) : Prop where
  tracked : u ∈ (m.refresh env).2.mgr.vmList ↔ u ∈ (m'.refresh env').2.mgr.vmList
  status : (m.refresh env).2.mgr.statuses u = (m'.refresh env').2.mgr.statuses u
  events : ∀ slot < m.vmEventHandlers.length, ∀ slot' < m'.vmEventHandlers.length,
    eventsAbout u slot (m.refresh env).2.trace = eventsAbout u slot' (m'.refresh env').2.trace

section TwoRuns

variable {m m' : VMManager} (hm : m.WellKept) (hm' : m'.WellKept) {env env' : RefreshEnv}
  (hret : env.HandlersReturn) (hret' : env'.HandlersReturn) (hown : env.HonestUUIDs)
  (hown' : env'.HonestUUIDs) {ids ids' : List String}
  (hids : env.getVirtualMachineIDs = .ok ids) (hids' : env'.getVirtualMachineIDs = .ok ids')
include hm hm' hret hret' hown hown' hids hids'

/-- Two refreshes do the same to `u` when the status held, the presence in the list and what the
answers amount to are the same. -/
theorem sameFor_of_eq {u : String}
    (hstatus : (m.refresh env).2.mgr.statuses u = (m'.refresh env').2.mgr.statuses u)
    (htell : tellKey u (u ∈ ids) (m.statuses u) (env.reports u (ids.count u)) =
      tellKey u (u ∈ ids') (m'.statuses u) (env'.reports u (ids'.count u))) :
    SameFor u m env m' env' := by
  have hkept := (refresh_sound hm env).1
  have hkept' := (refresh_sound hm' env').1
  refine ⟨?_, hstatus, fun slot hslot slot' hslot' => ?_⟩
  · rw [VMManager.statuses, VMManager.statuses] at hstatus
    have hsome := congrArg Option.isSome hstatus
    rw [Option.isSome_map, Option.isSome_map] at hsome
    rw [hkept.mem_iff_record?, hkept'.mem_iff_record?, hsome]
  · rw [eventsAbout_refresh hm hret hown hids u hslot,
      eventsAbout_refresh hm' hret' hown' hids' u hslot', htell]

/-- Equal entries, equally many listings and equal answers. -/
theorem sameFor_of_reports {u : String} (hheld : m.statuses u = m'.statuses u)
    (hcount : ids.count u = ids'.count u)
    (hanswers : ∀ j < ids.count u, reportedStatus (env.getVirtualMachine u j) =
      reportedStatus (env'.getVirtualMachine u j)) : SameFor u m env m' env' := by
  have hmem : u ∈ ids ↔ u ∈ ids' := by
    rw [← List.count_pos_iff, ← List.count_pos_iff, hcount]
  have hreports : env.reports u (ids.count u) = env'.reports u (ids'.count u) := by
    rw [← hcount]
    exact List.map_congr_left fun j hj => hanswers j (List.mem_range.mp hj)
  refine sameFor_of_eq hm hm' hret hret' hown hown' hids hids' ?_ ?_
  · rw [statuses_refresh_apply hm hret hown hids, statuses_refresh_apply hm' hret' hown' hids',
      hreports, hheld]
    simp only [hmem]
  · rw [hreports, hheld]
    simp only [hmem]

/-- Equal entries, the same presence in the list and answers that depend on the id alone. -/
theorem sameFor_of_fixed {u : String} (hheld : m.statuses u = m'.statuses u)
    (hmem : u ∈ ids ↔ u ∈ ids') {a : Option VMStatus}
    (ha : ∀ j, reportedStatus (env.getVirtualMachine u j) = a)
    (ha' : ∀ j, reportedStatus (env'.getVirtualMachine u j) = a) : SameFor u m env m' env' := by
  refine sameFor_of_eq hm hm' hret hret' hown hown' hids hids' ?_ ?_
  · rw [statuses_refresh_of_fixed hm hret hown hids ha,
      statuses_refresh_of_fixed hm' hret' hown' hids' ha', hheld]
    simp only [hmem]
  · rw [RefreshEnv.reports_eq_replicate ha, RefreshEnv.reports_eq_replicate ha',
      tellKey_of_fixed, tellKey_of_fixed, hheld]
    simp only [hmem]

end TwoRuns

/-- **VMs are isolated from one another.** Take two reachable managers and two refreshes that
obtain their lists. Whatever else they list, in whatever order, and whatever else fails: they do
the same to `u` if its entry, the number of its listings and its successive answers are the same.
So a VM whose fetch fails does not affect another one; and when the answers about `u` depend on
nothing but `u`, it only matters whether `u` is listed. -/
theorem refresh_isolates_vms (ops ops' : List Op) (env env' : RefreshEnv) (ids ids' : List String)
    (hret : env.HandlersReturn) (hret' : env'.HandlersReturn) (hown : env.HonestUUIDs)
    (hown' : env'.HonestUUIDs) (hids : env.getVirtualMachineIDs = .ok ids)
    (hids' : env'.getVirtualMachineIDs = .ok ids') :
    let m := (runOps ops).mgr
    let m' := (runOps ops').mgr
    ∀ u, m.statuses u = m'.statuses u →
      (ids.count u = ids'.count u →
        (∀ j < ids.count u, reportedStatus (env.getVirtualMachine u j) =
          reportedStatus (env'.getVirtualMachine u j)) → SameFor u m env m' env') ∧
      (ids = ids' → ∀ v ≠ u, (∀ w ≠ v, env.getVirtualMachine w = env'.getVirtualMachine w) →
        SameFor u m env m' env') ∧
      ((u ∈ ids ↔ u ∈ ids') → ∀ a, (∀ j, reportedStatus (env.getVirtualMachine u j) = a) →
        (∀ j, reportedStatus (env'.getVirtualMachine u j) = a) → SameFor u m env m' env') := by
  intro m m' u hheld
  have hm : m.WellKept := (runOps_sound ops).1
  have hm' : m'.WellKept := (runOps_sound ops').1
  refine ⟨fun hcount hanswers => ?_, fun heq v hv hothers => ?_, fun hmem a ha ha' => ?_⟩
  · exact sameFor_of_reports hm hm' hret hret' hown hown' hids hids' hheld hcount hanswers
  · refine sameFor_of_reports hm hm' hret hret' hown hown' hids hids' hheld (by rw [heq]) ?_
    intro j _
    rw [hothers u (Ne.symm hv)]
  · exact sameFor_of_fixed hm hm' hret hret' hown hown' hids hids' hheld hmem ha ha'

/-- A middleware that fails every fetch of `failing` and reports the other VMs with `status`. -/
def RefreshEnv.uniformBut (failing : String) (ids : List String) (status : VMStatus) :
    RefreshEnv :=
  { uniform ids status with
    getVirtualMachine := fun id n =>
      if id = failing then .error ⟨"timeout"⟩ else (uniform ids status).getVirtualMachine id n }

theorem RefreshEnv.uniformBut_honestUUIDs (failing : String) (ids : List String)
    (status : VMStatus) : (uniformBut failing ids status).HonestUUIDs := by
  intro id n vm h
  by_cases hid : id = failing
  · simp [uniformBut, hid] at h
  · simp only [uniformBut, hid, if_false] at h
    exact uniform_honestUUIDs ids status id n vm h

theorem RefreshEnv.reportedStatus_uniformBut (failing : String) (ids : List String)
    (status : VMStatus) (id : String) (n : Nat) :
    reportedStatus ((uniformBut failing ids status).getVirtualMachine id n) =
      if id = failing then none else some status := by
  by_cases hid : id = failing
  · simp [uniformBut, hid, reportedStatus]
  · simp [uniformBut, hid, reportedStatus, uniform]

/-- Next to a VM whose fetches fail, and with other listings. -/
theorem refresh_isolates_vms_failing :
    let m := (runOps [.refreshVMList (.uniform ["vmB", "vmC"] .off)]).mgr
    SameFor "vmA" m (.uniform ["vmA", "vmB", "vmA"] .on)
      m (.uniformBut "vmC" ["vmC", "vmA", "vmC", "vmA"] .on) := by
  intro m
  exact (refresh_isolates_vms _ _ (.uniform ["vmA", "vmB", "vmA"] .on)
    (.uniformBut "vmC" ["vmC", "vmA", "vmC", "vmA"] .on) _ _
    (RefreshEnv.uniform_handlersReturn _ _) (fun _ _ _ => rfl)
    (RefreshEnv.uniform_honestUUIDs _ _) (RefreshEnv.uniformBut_honestUUIDs _ _ _) rfl rfl "vmA"
    rfl).1 rfl fun _ _ => rfl

/-! ## A refresh that finds nothing to do -/

/-- Turns whose answers write nothing leave the manager as it is and only fetch. -/
theorem turns_silent (env : RefreshEnv) (ids : List String) {s : RefreshState}
    (h : ∀ id ∈ ids, ∀ j, s.mgr.writeFor id (env.getVirtualMachine id j) = none) :
    (turns env ids s).2.mgr = s.mgr ∧
      ∃ t, (turns env ids s).2.trace = s.trace ++ t ∧
        ∀ e ∈ t, ∃ id answer, e.action = .fetched id answer := by
  induction ids generalizing s with
  | nil => exact ⟨rfl, [], by simp [turns], fun e he => by cases he⟩
  | cons id rest ih =>
    have hnone : s.mgr.writeFor id (s.nextAnswer env id) = none := h id List.mem_cons_self _
    have hmgr : (turn env id s).2.mgr = s.mgr := by
      simp only [turn, VMManager.absorb, hnone]
    have htrace : (turn env id s).2.trace =
        s.trace ++ [⟨s.mgr, .fetched id (s.nextAnswer env id)⟩] := by
      simp only [turn, turnTrace, hnone]
    obtain ⟨hmgr', t, htrace', hall⟩ := ih (s := (turn env id s).2) (by
      rw [hmgr]
      exact fun v hv => h v (List.mem_cons_of_mem _ hv))
    refine ⟨hmgr'.trans hmgr, ⟨s.mgr, .fetched id (s.nextAnswer env id)⟩ :: t, ?_,
      fun e he => ?_⟩
    · rw [turns, htrace', htrace, List.append_assoc, List.singleton_append]
    · rcases List.mem_cons.mp he with rfl | he
      · exact ⟨id, _, rfl⟩
      · exact hall e he

theorem removeTurns_of_listed (env : RefreshEnv) {ids : List String} {vms : List (Ptr × String)}
    (h : ∀ vm u, (vm, u) ∈ vms → u ∈ ids) (s : RefreshState) :
    removeTurns env ids vms s = (.ok (), s) := by
  induction vms with
  | nil => rfl
  | cons e rest ih =>
    obtain ⟨vm, u⟩ := e
    rw [removeTurns, removeTurn_of_listed env (h vm u List.mem_cons_self)]
    exact ih fun vm' u' hmem => h vm' u' (List.mem_cons_of_mem _ hmem)

/-- **A refresh that has nothing to do does nothing**: when only listed VMs are tracked and no
answer reports anything but the status held, the manager stays as it is and nobody is called. -/
theorem refresh_silent {m : VMManager} (hm : m.WellKept) {env : RefreshEnv} {ids : List String}
    (hids : env.getVirtualMachineIDs = .ok ids) (hlisted : ∀ u ∈ m.vmList, u ∈ ids)
    (hsame : ∀ u ∈ ids, ∀ j st,
      reportedStatus (env.getVirtualMachine u j) = some st → m.statuses u = some st) :
    (m.refresh env).2.mgr = m ∧
      ∀ e ∈ (m.refresh env).2.trace, ∃ id answer, e.action = .fetched id answer := by
  have hperm := splitIds_perm env ids ⟨m, []⟩
  obtain ⟨hmgr, t, htrace, hall⟩ := turns_silent env (fetchOrder env ids ⟨m, []⟩) (s := ⟨m, []⟩)
    fun u hu j => hm.writeFor_eq_none_iff.mpr fun st => hsame u (hperm.mem_iff.mp hu) j st
  have hfetched : (m.fetchAll env ids).2.mgr = m := hmgr
  obtain ⟨-, hknown⟩ := knownVMs_spec env.iteration hm
  have hvisited : ∀ vm u, (vm, u) ∈ knownVMs env.iteration m → u ∈ ids := by
    intro vm u hmem
    obtain ⟨r, -, hr⟩ := (hknown vm u).mp hmem
    exact hlisted u ((hm.mem_iff_getVM u).mpr (by rw [hr]; simp))
  have hremove := removeTurns_of_listed env hvisited (m.fetchAll env ids).2
  rw [refresh_of_ok hm hids]
  simp only [hfetched, hremove]
  refine ⟨trivial, fun e he => ?_⟩
  rw [show (m.fetchAll env ids).2.trace = t from htrace] at he
  exact hall e he

/-- The result of a refresh in which the success of a fetch depends on the id alone. -/
theorem refresh_result_of_fixed {m : VMManager} (hm : m.WellKept) {env : RefreshEnv}
    (hret : env.HandlersReturn) {ids : List String} (hids : env.getVirtualMachineIDs = .ok ids)
    {a : String → Option VMStatus}
    (ha : ∀ u ∈ ids, ∀ j, reportedStatus (env.getVirtualMachine u j) = a u) :
    (m.refresh env).1 = .ok (ids.all fun u => (a u).isSome) := by
  have hok : ∀ u ∈ ids, ∀ j, (env.getVirtualMachine u j).isOk = (a u).isSome := by
    intro u hu j
    rw [← ha u hu j]
    cases env.getVirtualMachine u j <;> rfl
  have htrue := refresh_eq_true_iff hm hret hids
  obtain ⟨fs, -, -, hresult, -⟩ := refresh_spec hm hret hids
  rw [hresult, Except.ok.injEq] at htrue ⊢
  rw [Bool.eq_iff_iff, htrue, List.all_eq_true]
  constructor
  · intro h u hu
    rw [← hok u hu 0]
    exact h u hu 0 (List.count_pos_iff.mpr hu)
  · intro h u hu j _
    rw [hok u hu j]
    exact h u hu

/-- **A second refresh is silent.** From any reachable manager, after a refresh in which every
listed id has one answer, a status or a failure, a refresh with the same ids in any order and the
same answers calls no handler, leaves the manager as it is and returns what the first returned. -/
theorem refresh_again_silent (ops : List Op) (env env' : RefreshEnv) (ids ids' : List String)
    (a : String → Option VMStatus) (hret : env.HandlersReturn) (hret' : env'.HandlersReturn)
    (hown : env.HonestUUIDs) (hids : env.getVirtualMachineIDs = .ok ids)
    (hids' : env'.getVirtualMachineIDs = .ok ids') (hperm : ids'.Perm ids)
    (ha : ∀ u ∈ ids, ∀ j, reportedStatus (env.getVirtualMachine u j) = a u)
    (ha' : ∀ u ∈ ids, ∀ j, reportedStatus (env'.getVirtualMachine u j) = a u) :
    let first := (runOps ops).mgr.refresh env
    let second := first.2.mgr.refresh env'
    (∀ e ∈ second.2.trace, ∀ slot call, e.action ≠ .notified slot call) ∧
      second.2.mgr = first.2.mgr ∧ second.1 = first.1 := by
  intro first second
  have hm := (runOps_sound ops).1
  have hkept : first.2.mgr.WellKept := (refresh_sound hm env).1
  have ha'' : ∀ u ∈ ids', ∀ j, reportedStatus (env'.getVirtualMachine u j) = a u :=
    fun u hu => ha' u (hperm.mem_iff.mp hu)
  -- what the first refresh left under a listed id, and that it left nothing else
  have hstatus : ∀ u, first.2.mgr.statuses u =
      if u ∈ ids then (a u).or ((runOps ops).mgr.statuses u) else none := by
    intro u
    by_cases hu : u ∈ ids
    · exact statuses_refresh_of_fixed hm hret hown hids (ha u hu)
    · rw [statuses_refresh_apply hm hret hown hids, if_neg hu, if_neg hu]
  obtain ⟨hmgr, hsilent⟩ := refresh_silent hkept hids'
    (fun u hu => by
      rw [hkept.mem_iff_record?, ← Option.isSome_map (f := (·.status))] at hu
      by_contra hnot
      have hnone := (hstatus u).trans (if_neg (mt hperm.mem_iff.mpr hnot))
      rw [VMManager.statuses] at hnone
      rw [hnone] at hu
      cases hu)
    (fun u hu j st hst => by
      rw [hstatus, if_pos (hperm.mem_iff.mp hu), ← ha'' u hu j, hst]
      rfl)
  refine ⟨fun e he slot call h => ?_, hmgr, ?_⟩
  · obtain ⟨id, answer, hfetched⟩ := hsilent e he
    rw [hfetched] at h
    cases h
  · have hfirst : first.1 = _ := refresh_result_of_fixed hm hret hids ha
    have hsecond : second.1 = _ := refresh_result_of_fixed hkept hret' hids' ha''
    rw [hfirst, hsecond, hperm.all_eq]

/-- A partly successful refresh that adds, changes and removes VMs, repeated in another order. -/
theorem refresh_again_silent_failing :
    let first := (runOps [.registerVMEventHandler 7,
      .refreshVMList (.uniform ["vmA", "vmD"] .off)]).mgr.refresh
        (.uniformBut "vmC" ["vmA", "vmC", "vmB", "vmA"] .on)
    let second := first.2.mgr.refresh (.uniformBut "vmC" ["vmB", "vmA", "vmA", "vmC"] .on)
    second.2.mgr = first.2.mgr ∧ second.1 = first.1 := by
  intro first second
  exact (refresh_again_silent [.registerVMEventHandler 7,
    .refreshVMList (.uniform ["vmA", "vmD"] .off)]
    (.uniformBut "vmC" ["vmA", "vmC", "vmB", "vmA"] .on)
    (.uniformBut "vmC" ["vmB", "vmA", "vmA", "vmC"] .on) _ _
    (fun id => if id = "vmC" then none else some .on) (fun _ _ _ => rfl) (fun _ _ _ => rfl)
    (RefreshEnv.uniformBut_honestUUIDs _ _ _) rfl rfl (by decide)
    (fun u _ j => RefreshEnv.reportedStatus_uniformBut _ _ _ u j)
    (fun u _ j => RefreshEnv.reportedStatus_uniformBut _ _ _ u j)).2

end NebuApp
