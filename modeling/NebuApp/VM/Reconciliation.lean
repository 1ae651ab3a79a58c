import NebuApp.VM.Events
import NebuApp.VM.Refresh
import NebuApp.Lib.Reconcile

/-!
# What a refresh leaves on record

With a middleware that answers a fetch of `id` with the VM `id`, the record a manager holds of a
VM evolves on its own: `absorbRecord` says what one answer makes of it, and `record?_refresh` what
a whole refresh does. Seen through its statuses a refresh is the reconciliation of `Lib.Reconcile`.
Seen through the other fields it is not: only a first record copies them.
-/

namespace NebuApp

open Reconcile

/-! ## One answer, one record -/

/-- What the answer to a fetch makes of the record held under the fetched id. -/
def absorbRecord (held : Option VirtualMachine) : Answer → Option VirtualMachine
  | .error _ => held
  | .ok vm =>
    match held with
    | none => some vm
    | some old => some (old.setStatus vm.status)

namespace VMManager

theorem WellKept.record?_recordVM {m : VMManager} (hm : m.WellKept) (vm : VirtualMachine)
    (u : String) :
    (m.recordVM vm).record? u = if u = vm.uuid then some vm else m.record? u := by
  rw [record?, getVM_recordVM]
  split
  next => exact Store.get?_alloc_next _ _
  next =>
    rw [record?]
    cases hget : m.getVM u with
    | none => rfl
    | some r =>
      obtain ⟨old, hold, -, -⟩ := hm.getVM_spec hget
      exact (Store.get?_alloc_of_some hold vm).trans hold.symm

theorem WellKept.record?_overwriteStatus {m : VMManager} (hm : m.WellKept) {u : String} {r : Ref}
    (hvm : m.getVM u = some r) (st : VMStatus) (u' : String) :
    (m.overwriteStatus r st).record? u' =
      if u' = u then (m.record? u').map (·.setStatus st) else m.record? u' := by
  rw [record?, getVM_overwriteStatus, record?]
  cases hget : m.getVM u' with
  | none => simp
  | some r' =>
    rw [Store.deref?_some, Store.deref?_some, VMManager.overwriteStatus, Store.get?_modify]
    -- the written object is that of `u` and of no other key
    have hiff : r = r' ↔ u' = u := by
      constructor
      · rintro rfl
        exact hm.getVM_inj hget hvm
      · rintro rfl
        exact Option.some.inj (hvm.symm.trans hget)
    simp only [hiff]

/-- **One answer changes one record**, as `absorbRecord` says. -/
theorem WellKept.record?_absorb {m : VMManager} (hm : m.WellKept) {id : String} {answer : Answer}
    (hown : ∀ vm, answer = .ok vm → vm.uuid = id) (u : String) :
    (m.absorb (id, answer)).record? u =
      if id = u then absorbRecord (m.record? u) answer else m.record? u := by
  cases answer with
  | error ex => simp [VMManager.absorb, writeFor_error, absorbRecord]
  | ok vm =>
    have huuid : vm.uuid = id := hown vm rfl
    cases hl : m.vmList.lookup id with
    | none =>
      have hnone : m.record? id = none := hm.record?_eq_none_iff.mpr hl
      rw [VMManager.absorb, writeFor_unknown hl, hm.record?_recordVM, huuid]
      by_cases hu : u = id
      · subst hu
        simp [hnone, absorbRecord]
      · rw [if_neg hu, if_neg (Ne.symm hu)]
    | some p =>
      obtain ⟨r, old, rfl, hr, -, hrec⟩ := hm.record?_of_lookup hl
      have hvm : m.getVM id = some r := lookup_eq_some_iff.mp hl
      rw [VMManager.absorb, writeFor_known hl hr]
      by_cases hst : old.status = vm.status
      · -- an equal status is not written, and writing it would change nothing
        rw [if_neg (not_not.mpr hst)]
        by_cases hu : id = u
        · subst hu
          rw [if_pos rfl, hrec, absorbRecord, ← hst]
          rfl
        · rw [if_neg hu]
      · rw [if_pos hst, hm.record?_overwriteStatus hvm]
        by_cases hu : u = id
        · subst hu
          simp [hrec, absorbRecord]
        · rw [if_neg hu, if_neg (Ne.symm hu)]

/-- The answers about `u` among a sequence of fetches, absorbed one after the other. -/
theorem WellKept.record?_absorbAll {m : VMManager} (hm : m.WellKept) {fs : List (String × Answer)}
    (hown : ∀ f ∈ fs, ∀ vm, f.2 = .ok vm → vm.uuid = f.1) (u : String) :
    (fs.foldl VMManager.absorb m).record? u =
      (fs.filterMap fun f => if f.1 = u then some f.2 else none).foldl absorbRecord
        (m.record? u) := by
  induction fs generalizing m with
  | nil => rfl
  | cons f rest ih =>
    rw [List.foldl_cons, ih (hm.absorb f) fun g hg => hown g (List.mem_cons_of_mem _ hg),
      hm.record?_absorb (hown f List.mem_cons_self)]
    by_cases hu : f.1 = u <;> simp [hu]

end VMManager

/-! ## Many answers, one record -/

theorem foldl_absorbRecord_isSome (answers : List Answer) (held : Option VirtualMachine) :
    (answers.foldl absorbRecord held).isSome ↔ held.isSome ∨ ∃ vm, .ok vm ∈ answers := by
  induction answers generalizing held with
  | nil => simp
  | cons answer rest ih =>
    rw [List.foldl_cons, ih]
    cases answer with
    | error ex => simp [absorbRecord]
    | ok vm => cases held <;> simp [absorbRecord]

/-- The status an answer reports, if it reports one. -/
def reportedStatus : Answer → Option VMStatus
  | .error _ => none
  | .ok vm => some vm.status

theorem foldl_absorbRecord_status (answers : List Answer) (held : Option VirtualMachine) :
    (answers.foldl absorbRecord held).map (·.status) =
      (answers.filterMap reportedStatus).getLast?.or (held.map (·.status)) := by
  induction answers generalizing held with
  | nil => rfl
  | cons answer rest ih =>
    rw [List.foldl_cons, ih]
    cases answer with
    | error ex => rfl
    | ok vm =>
      have hstatus : (absorbRecord held (.ok vm)).map (·.status) = some vm.status := by
        cases held <;> rfl
      rw [hstatus, List.filterMap_cons]
      show _ = (vm.status :: rest.filterMap reportedStatus).getLast?.or _
      rw [List.getLast?_cons]
      cases (rest.filterMap reportedStatus).getLast? <;> rfl

/-- When every answer succeeds, the record keeps everything but the status as it was, or as the
first answer had it, and takes the status of the last answer. -/
theorem foldl_absorbRecord_ok {f : Nat → Answer} {v : Nat → VirtualMachine} {n : Nat}
    (h : ∀ j < n + 1, f j = .ok (v j)) (held : Option VirtualMachine) :
    ((List.range (n + 1)).map f).foldl absorbRecord held =
      some ((held.getD (v 0)).setStatus (v n).status) := by
  induction n with
  | zero =>
    rw [show (List.range (0 + 1)).map f = [f 0] from rfl, List.foldl_cons, h 0 (by omega)]
    cases held <;> rfl
  | succ n ih =>
    rw [List.range_succ, List.map_append, List.foldl_append, ih fun j hj => h j (by omega)]
    show absorbRecord _ (f (n + 1)) = _
    rw [h (n + 1) (by omega)]
    rfl

/-! ## A refresh, record by record -/

/-- **A refresh, record by record.** A listed VM's record absorbs the answers about it, in order;
an unlisted VM's record goes. -/
theorem record?_refresh {m : VMManager} (hm : m.WellKept) {env : RefreshEnv}
    (hret : env.HandlersReturn) (hown : env.HonestUUIDs) {ids : List String}
    (hids : env.getVirtualMachineIDs = .ok ids) (u : String) :
    (m.refresh env).2.mgr.record? u =
      if u ∈ ids then (answersFor u (m.refresh env).2.trace).foldl absorbRecord (m.record? u)
      else none := by
  obtain ⟨fs, hfs, -, -, hheap, hans, hget⟩ := refresh_spec hm hret hids
  have hfsown : ∀ f ∈ fs, ∀ vm, f.2 = .ok vm → vm.uuid = f.1 := by
    intro f hf vm hvm
    -- the answer in `f` is one the middleware gave about `f.1`
    have hmem : f.2 ∈ answersFor f.1 (m.refresh env).2.trace := by
      rw [answersFor_eq_fetches, hfs]
      exact List.mem_filterMap.mpr ⟨f, hf, if_pos rfl⟩
    rw [hans] at hmem
    obtain ⟨j, -, hj⟩ := List.mem_map.mp hmem
    exact hown f.1 j vm (hj.trans hvm)
  have hrec := hm.record?_absorbAll hfsown u
  rw [VMManager.record?, hget u, hheap]
  by_cases hu : u ∈ ids
  · rw [if_pos hu, if_pos hu, answersFor_eq_fetches, hfs]
    exact hrec
  · rw [if_neg hu, if_neg hu]
    rfl

/-- The answers of a refresh about an id: as many as the id is listed, in order. -/
theorem answersFor_refresh {m : VMManager} (hm : m.WellKept) {env : RefreshEnv}
    (hret : env.HandlersReturn) {ids : List String} (hids : env.getVirtualMachineIDs = .ok ids)
    (u : String) : answersFor u (m.refresh env).2.trace =
      (List.range (ids.count u)).map (env.getVirtualMachine u) := by
  obtain ⟨fs, -, -, -, -, hans, -⟩ := refresh_spec hm hret hids
  exact hans u

/-- A refresh reports success when every fetch of a listed id succeeds. -/
theorem refresh_eq_true_iff {m : VMManager} (hm : m.WellKept) {env : RefreshEnv}
    (hret : env.HandlersReturn) {ids : List String} (hids : env.getVirtualMachineIDs = .ok ids) :
    (m.refresh env).1 = .ok true ↔
      ∀ u ∈ ids, ∀ j < ids.count u, (env.getVirtualMachine u j).isOk := by
  obtain ⟨fs, hfs, hperm, hresult, -, hans, -⟩ := refresh_spec hm hret hids
  -- `f` is a fetch of the refresh iff `f.2` is among the answers about `f.1`
  have hmem : ∀ f : String × Answer, f ∈ fs ↔ f.2 ∈ answersFor f.1 (m.refresh env).2.trace := by
    intro f
    rw [answersFor_eq_fetches, hfs, List.mem_filterMap]
    constructor
    · exact fun hf => ⟨f, hf, if_pos rfl⟩
    · rintro ⟨g, hg, heq⟩
      rw [Option.ite_none_right_eq_some] at heq
      rwa [show f = g from Prod.ext heq.1.symm (Option.some.inj heq.2).symm]
  rw [hresult, Except.ok.injEq, List.all_eq_true]
  constructor
  · intro hall u _ j hj
    refine hall (u, env.getVirtualMachine u j) ((hmem _).mpr ?_)
    rw [hans]
    exact List.mem_map.mpr ⟨j, List.mem_range.mpr hj, rfl⟩
  · intro hall f hf
    have hid : f.1 ∈ ids := hperm.mem_iff.mp (List.mem_map_of_mem hf)
    rw [hmem, hans] at hf
    obtain ⟨j, hj, heq⟩ := List.mem_map.mp hf
    rw [← heq]
    exact hall f.1 hid j (List.mem_range.mp hj)

/-! ## The statuses: a reconciliation -/

/-- The fetches of a trace, as fetches of statuses. -/
def statusFetches (trace : List Entry) : List (Fetch String VMStatus) :=
  (fetches trace).map fun f => (f.1, reportedStatus f.2)

theorem valuesOf_statusFetches (u : String) (trace : List Entry) :
    valuesOf u (statusFetches trace) = (answersFor u trace).filterMap reportedStatus := by
  rw [valuesOf, statusFetches, List.filterMap_map, answersFor_eq_fetches,
    List.filterMap_filterMap]
  refine List.filterMap_congr fun f _ => ?_
  by_cases hu : f.1 = u <;> simp [hu]

/-- **The refresh refines the reconciliation.** -/
theorem statuses_refresh {m : VMManager} (hm : m.WellKept) {env : RefreshEnv}
    (hret : env.HandlersReturn) (hown : env.HonestUUIDs) {ids : List String}
    (hids : env.getVirtualMachineIDs = .ok ids) :
    (m.refresh env).2.mgr.statuses =
      reconcile ids m.statuses (statusFetches (m.refresh env).2.trace) := by
  funext u
  rw [reconcile_apply, VMManager.statuses, record?_refresh hm hret hown hids]
  split
  next => rw [foldl_absorbRecord_status, lastValue, valuesOf_statusFetches, VMManager.statuses]
  next => rfl

theorem VMManager.WellKept.mem_iff_record? {m : VMManager} (hm : m.WellKept) (u : String) :
    u ∈ m.vmList ↔ (m.record? u).isSome := by
  rw [Option.isSome_iff_ne_none, ne_eq, hm.record?_eq_none_iff, ← AList.lookup_isSome,
    Option.isSome_iff_ne_none]

/-- **`refreshVMList` is its reference reconciliation.** From any reachable manager, a refresh
whose list of ids does not arrive changes nothing, calls nobody and returns `false`. Otherwise it
ends normally, fetches every id as often as it is listed, and leaves under `vmList` exactly the
listed ids that were known or of which a fetch succeeded, each with the status of its last
successful fetch or, without one, its old status. -/
theorem refreshVMList_eq_reconcile (ops : List Op) (env : RefreshEnv)
    (hret : env.HandlersReturn) (hown : env.HonestUUIDs) :
    let m := (runOps ops).mgr
    let after := m.refresh env
    (∀ ex, env.getVirtualMachineIDs = .error ex → after = (.ok false, ⟨m, []⟩)) ∧
      ∀ ids, env.getVirtualMachineIDs = .ok ids →
        (∃ succes, after.1 = .ok succes) ∧
        (∀ u, answersFor u after.2.trace =
          (List.range (ids.count u)).map (env.getVirtualMachine u)) ∧
        (∀ u, u ∈ after.2.mgr.vmList ↔
          u ∈ ids ∧ (u ∈ m.vmList ∨ ∃ vm, .ok vm ∈ answersFor u after.2.trace)) ∧
        (∀ u ∈ after.2.mgr.vmList, after.2.mgr.statuses u =
          (lastValue u (statusFetches after.2.trace)).or (m.statuses u)) ∧
        after.2.mgr.statuses = reconcile ids m.statuses (statusFetches after.2.trace) := by
  intro m after
  have hm : m.WellKept := (runOps_sound ops).1
  have hafter : after.2.mgr.WellKept := (refresh_sound hm env).1
  refine ⟨fun ex hex => refresh_of_error hex, fun ids hids => ?_⟩
  have hmem : ∀ u, u ∈ after.2.mgr.vmList ↔
      u ∈ ids ∧ (u ∈ m.vmList ∨ ∃ vm, .ok vm ∈ answersFor u after.2.trace) := by
    intro u
    rw [hafter.mem_iff_record?, record?_refresh hm hret hown hids, hm.mem_iff_record?]
    by_cases hu : u ∈ ids
    · rw [if_pos hu, foldl_absorbRecord_isSome]
      exact (and_iff_right hu).symm
    · simp [hu]
  have hstatuses := statuses_refresh hm hret hown hids
  refine ⟨?_, answersFor_refresh hm hret hids, hmem, fun u hu => ?_, hstatuses⟩
  · obtain ⟨fs, -, -, hresult, -⟩ := refresh_spec hm hret hids
    exact ⟨_, hresult⟩
  · rw [hstatuses, reconcile_apply, if_pos ((hmem u).mp hu).1]

/-- A known VM listed twice, with a change of status, next to a new VM and one that is gone. -/
theorem refreshVMList_eq_reconcile_uniform :
    let ops : List Op := [.refreshVMList (.uniform ["vmA", "vmB"] .off)]
    let after := (runOps ops).mgr.refresh (.uniform ["vmB", "vmC", "vmB"] .on)
    (∃ succes, after.1 = .ok succes) ∧ answersFor "vmB" after.2.trace =
      (List.range 2).map
        ((RefreshEnv.uniform ["vmB", "vmC", "vmB"] .on).getVirtualMachine "vmB") := by
  intro ops after
  have h := (refreshVMList_eq_reconcile ops (.uniform ["vmB", "vmC", "vmB"] .on)
    (RefreshEnv.uniform_handlersReturn _ _) (RefreshEnv.uniform_honestUUIDs _ _)).2
    ["vmB", "vmC", "vmB"] rfl
  exact ⟨h.1, h.2.1 "vmB"⟩

/-! ## The other fields -/

/-- Two VMs with the same name in the same place. -/
structure SamePlace (a b : VirtualMachine) : Prop where
  hostname : a.hostname = b.hostname
  physicalHostID : a.physicalHostID = b.physicalHostID
  physicalStoreID : a.physicalStoreID = b.physicalStoreID

/-- The last VM that `getVirtualMachine(id)` returned. -/
def lastReturned (id : String) (trace : List Entry) : Option VirtualMachine :=
  ((answersFor id trace).filterMap Except.toOption).getLast?

/-- A refresh that reports success leaves every listed VM on record as it was last returned. -/
def LeavesNoStaleRecord (m : VMManager) (env : RefreshEnv) : Prop :=
  (m.refresh env).1 = .ok true → ∀ ids, env.getVirtualMachineIDs = .ok ids → ∀ u ∈ ids,
    ∃ held vm, (m.refresh env).2.mgr.record? u = some held ∧
      lastReturned u (m.refresh env).2.trace = some vm ∧ SamePlace held vm ∧
      held.status = vm.status

/-- If every fetch succeeds, then the last answer about every listed id names and places the VM as
the record held does, or, if none is held, as the first answer does. -/
def StaysInPlace (m : VMManager) (env : RefreshEnv) : Prop :=
  ∀ ids, env.getVirtualMachineIDs = .ok ids →
    (∀ u ∈ ids, ∀ j < ids.count u, (env.getVirtualMachine u j).isOk) →
    ∀ u ∈ ids, ∀ first last, env.getVirtualMachine u 0 = .ok first →
      env.getVirtualMachine u (ids.count u - 1) = .ok last →
      SamePlace ((m.record? u).getD first) last

/-- The record of a listed VM after a refresh that reports success, and the VM last returned. -/
theorem refresh_success_record {m : VMManager} (hm : m.WellKept) {env : RefreshEnv}
    (hret : env.HandlersReturn) (hown : env.HonestUUIDs) {ids : List String}
    (hids : env.getVirtualMachineIDs = .ok ids) (htrue : (m.refresh env).1 = .ok true)
    {u : String} (hu : u ∈ ids) :
    ∃ first last, env.getVirtualMachine u 0 = .ok first ∧
      env.getVirtualMachine u (ids.count u - 1) = .ok last ∧
      lastReturned u (m.refresh env).2.trace = some last ∧
      (m.refresh env).2.mgr.record? u =
        some (((m.record? u).getD first).setStatus last.status) := by
  obtain ⟨n, hn⟩ : ∃ n, ids.count u = n + 1 :=
    ⟨ids.count u - 1, by have := List.count_pos_iff.mpr hu; omega⟩
  have hok := (refresh_eq_true_iff hm hret hids).mp htrue u hu
  rw [hn] at hok ⊢
  -- `v j` is the VM in the `j`-th answer
  have hall : ∀ j, ∃ vm, j < n + 1 → env.getVirtualMachine u j = .ok vm := by
    intro j
    cases hj : env.getVirtualMachine u j with
    | ok vm => exact ⟨vm, fun _ => rfl⟩
    | error ex =>
      refine ⟨⟨"", "", "", "", .unknown⟩, fun hlt => ?_⟩
      have := hok j hlt
      rw [hj] at this
      cases this
  choose v hv using hall
  refine ⟨v 0, v n, hv 0 (by omega), hv n (by omega), ?_, ?_⟩
  · rw [lastReturned, answersFor_refresh hm hret hids, hn, List.range_succ, List.map_append,
      List.filterMap_append, List.map_singleton, hv n (by omega)]
    exact List.getLast?_concat
  · rw [record?_refresh hm hret hown hids, if_pos hu, answersFor_refresh hm hret hids, hn]
    exact foldl_absorbRecord_ok hv _

/-- **When no record goes stale.** In any run, a refresh leaves no stale record exactly when the
VMs it fetches stay in place. -/
theorem noStaleRecord_iff (ops : List Op)
    (hret : ∀ op ∈ ops, op.Meets RefreshEnv.HandlersReturn)
    (hown : ∀ op ∈ ops, op.Meets RefreshEnv.HonestUUIDs) :
    ∀ before env, before ++ [.refreshVMList env] <+: ops →
      (LeavesNoStaleRecord (runOps before).mgr env ↔ StaysInPlace (runOps before).mgr env) := by
  intro before env hpre
  have hmem : Op.refreshVMList env ∈ ops := hpre.subset (by simp)
  have hret' : env.HandlersReturn := hret _ hmem
  have hown' : env.HonestUUIDs := hown _ hmem
  have hm := (runOps_sound before).1
  constructor
  · intro hfresh ids hids hok u hu first last hfirst hlast
    have htrue := (refresh_eq_true_iff hm hret' hids).mpr hok
    obtain ⟨held, vm, hheld, hvm, hplace, -⟩ := hfresh htrue ids hids u hu
    obtain ⟨first', last', hfirst', hlast', hvm', hrec⟩ :=
      refresh_success_record hm hret' hown' hids htrue hu
    obtain rfl : first = first' := Except.ok.inj (hfirst.symm.trans hfirst')
    obtain rfl : last = last' := Except.ok.inj (hlast.symm.trans hlast')
    obtain rfl : vm = last := Option.some.inj (hvm.symm.trans hvm')
    obtain rfl : held = _ := Option.some.inj (hheld.symm.trans hrec)
    -- overwriting the status moved nothing
    exact ⟨hplace.hostname, hplace.physicalHostID, hplace.physicalStoreID⟩
  · intro hstays htrue ids hids u hu
    have hok := (refresh_eq_true_iff hm hret' hids).mp htrue
    obtain ⟨first, last, hfirst, hlast, hvm, hrec⟩ :=
      refresh_success_record hm hret' hown' hids htrue hu
    have hplace := hstays ids hids hok u hu first last hfirst hlast
    exact ⟨_, last, hrec, hvm,
      ⟨hplace.hostname, hplace.physicalHostID, hplace.physicalStoreID⟩, rfl⟩

/-- A middleware that has one VM, running on `host`. -/
def RefreshEnv.placed (host : String) : RefreshEnv :=
  { uniform ["vmA"] .on with getVirtualMachine := fun id _ => .ok ⟨id, "web", host, "s1", .on⟩ }

theorem RefreshEnv.placed_handlersReturn (host : String) : (placed host).HandlersReturn :=
  fun _ _ _ => rfl

theorem RefreshEnv.placed_honestUUIDs (host : String) : (placed host).HonestUUIDs := by
  intro id n vm h
  cases h
  rfl

/-- A refresh that finds the VM reports success and leaves the record it found, or a fresh one. -/
theorem refresh_placed {m : VMManager} (hm : m.WellKept) (host : String) :
    let found : VirtualMachine := ⟨"vmA", "web", host, "s1", .on⟩
    let after := m.refresh (.placed host)
    after.1 = .ok true ∧ lastReturned "vmA" after.2.trace = some found ∧
      after.2.mgr.record? "vmA" = some (((m.record? "vmA").getD found).setStatus .on) := by
  intro found after
  have hids : (RefreshEnv.placed host).getVirtualMachineIDs = .ok ["vmA"] := rfl
  have hret := RefreshEnv.placed_handlersReturn host
  have htrue : after.1 = .ok true := by
    rw [refresh_eq_true_iff hm hret hids]
    exact fun u _ j _ => rfl
  obtain ⟨first, last, hfirst, hlast, hvm, hrec⟩ := refresh_success_record hm hret
    (RefreshEnv.placed_honestUUIDs host) hids htrue (List.mem_singleton.mpr rfl)
  cases hfirst
  cases hlast
  exact ⟨htrue, hvm, hrec⟩

/-- A VM that stays where it is. -/
theorem noStaleRecord_iff_placed :
    LeavesNoStaleRecord (runOps [.refreshVMList (.placed "h1")]).mgr (.placed "h1") := by
  have hiff := noStaleRecord_iff [.refreshVMList (.placed "h1"), .refreshVMList (.placed "h1")]
    (by simp [Op.Meets, RefreshEnv.placed_handlersReturn])
    (by simp [Op.Meets, RefreshEnv.placed_honestUUIDs])
    [.refreshVMList (.placed "h1")] (.placed "h1") (List.prefix_refl _)
  refine hiff.mpr fun ids hids _ u hu first last hfirst hlast => ?_
  cases hids
  obtain rfl := List.mem_singleton.mp hu
  cases hfirst
  cases hlast
  have hrec : (runOps [.refreshVMList (.placed "h1")]).mgr.record? "vmA" = some _ :=
    (refresh_placed VMManager.wellKept_init "h1").2.2
  rw [hrec]
  exact ⟨rfl, rfl, rfl⟩

/-- **A migrated VM goes stale.** A VM that is found on `h1` and, by the next refresh, on `h2`
with the same status: both refreshes report success, and the manager still has it on `h1`. -/
theorem staleRecord_of_migration :
    let m := (runOps [.refreshVMList (.placed "h1")]).mgr
    let env := RefreshEnv.placed "h2"
    (env.HandlersReturn ∧ env.HonestUUIDs) ∧ (m.refresh env).1 = .ok true ∧
      lastReturned "vmA" (m.refresh env).2.trace = some ⟨"vmA", "web", "h2", "s1", .on⟩ ∧
      (m.refresh env).2.mgr.record? "vmA" = some ⟨"vmA", "web", "h1", "s1", .on⟩ ∧
      ¬ LeavesNoStaleRecord m env := by
  intro m env
  have hm : m.WellKept := (runOps_sound [.refreshVMList (.placed "h1")]).1
  have hbefore : m.record? "vmA" = some ⟨"vmA", "web", "h1", "s1", .on⟩ :=
    (refresh_placed VMManager.wellKept_init "h1").2.2
  obtain ⟨htrue, hvm, hrec⟩ := refresh_placed hm "h2"
  rw [hbefore] at hrec
  refine ⟨⟨RefreshEnv.placed_handlersReturn _, RefreshEnv.placed_honestUUIDs _⟩, htrue, hvm, hrec,
    fun hfresh => ?_⟩
  obtain ⟨held, vm, hheld, hvm', hplace, -⟩ := hfresh htrue ["vmA"] rfl "vmA" (by simp)
  cases hheld.symm.trans hrec
  cases hvm'.symm.trans hvm
  exact absurd hplace.physicalHostID (by decide)

end NebuApp
