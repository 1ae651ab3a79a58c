import NebuApp.Daemon.Collection
import NebuApp.VM.Refresh

/-!
# What a daemon knows of its VM

A daemon holds the pointer it was constructed with, mostly one that `newVMAdded` gave out. The
manager makes an object of what it has just fetched, and then changes nothing of it but the status,
in whatever refresh and whoever throws (`refresh_goesOn`). So a daemon has the hostname its VM had
when it was announced (`daemon_keeps_hostname`), also behind a removal of the VM.
-/

namespace NebuApp

/-- `Daemon::getHostname`. There is none behind a pointer that cannot be dereferenced. -/
def Daemon.getHostname (d : Daemon) (heap : Store VirtualMachine) : Option String :=
  (heap.deref? d.getHostVM).map (·.hostname)

/-! ## Objects -/

/-- The same VM, in a status of its own. -/
def VirtualMachine.SameButStatus (vm vm' : VirtualMachine) : Prop :=
  ∃ status, vm' = vm.setStatus status

theorem VirtualMachine.SameButStatus.refl (vm : VirtualMachine) : vm.SameButStatus vm :=
  ⟨vm.status, rfl⟩

theorem VirtualMachine.SameButStatus.trans {vm vm' vm'' : VirtualMachine}
    (h : vm.SameButStatus vm') (h' : vm'.SameButStatus vm'') : vm.SameButStatus vm'' := by
  obtain ⟨status, rfl⟩ := h
  obtain ⟨status', rfl⟩ := h'
  exact ⟨status', rfl⟩

/-- The objects of a manager are those of another, at a later time. -/
def VMManager.ObjectsGrow (m m' : VMManager) : Prop :=
  m.heap.Grows VirtualMachine.SameButStatus m'.heap

namespace VMManager

theorem ObjectsGrow.refl (m : VMManager) : m.ObjectsGrow m :=
  Store.Grows.refl VirtualMachine.SameButStatus.refl m.heap

theorem ObjectsGrow.trans {m m' m'' : VMManager} (h : m.ObjectsGrow m') (h' : m'.ObjectsGrow m'') :
    m.ObjectsGrow m'' := Store.Grows.trans (fun h h' => h.trans h') h h'

theorem objectsGrow_writeFor {m : VMManager} {id : String} {answer : Answer} {w : Write}
    (h : m.writeFor id answer = some w) : m.ObjectsGrow w.mgr := by
  rcases writeFor_cases h with ⟨vm, -, -, rfl⟩ | ⟨vm, r, old, -, -, -, -, rfl⟩
  · exact Store.grows_alloc VirtualMachine.SameButStatus.refl m.heap vm
  · exact Store.grows_modify VirtualMachine.SameButStatus.refl m.heap r fun _ => ⟨vm.status, rfl⟩

end VMManager

/-! ## Traces -/

/-- A new VM is announced by an object that is what was fetched last. -/
def AnnouncesFetched (t : List Entry) : Prop :=
  ∀ pre e rest slot p, t = pre ++ e :: rest → e.action = .notified slot (.newVMAdded p) →
    ∃ id vm, (fetches pre).getLast? = some (id, .ok vm) ∧ e.mgr.heap.deref? p = some vm

theorem AnnouncesFetched.append {t t' : List Entry} (h : AnnouncesFetched t)
    (h' : AnnouncesFetched t') : AnnouncesFetched (t ++ t') := by
  intro pre e rest slot p hsplit he
  rcases List.append_eq_append_iff.mp hsplit with ⟨b, rfl, hb⟩ | ⟨b, hb, hrest⟩
  · -- the call is in the second part
    obtain ⟨id, vm, hlast, hobject⟩ := h' b e rest slot p hb he
    refine ⟨id, vm, ?_, hobject⟩
    rw [fetches_append, List.getLast?_append, hlast]
    rfl
  · cases b with
    | nil =>
      obtain ⟨id, vm, hlast, -⟩ := h' [] e rest slot p hrest.symm he
      cases hlast
    | cons x b =>
      obtain ⟨rfl, -⟩ := List.cons_eq_cons.mp hrest
      exact h pre e b slot p hb he

/-- The trace `t` leads from `m` to `m'`, and no object changes on the way but in its status. -/
structure Keeps (m : VMManager) (t : List Entry) (m' : VMManager) : Prop where
  objects : m.ObjectsGrow m'
  entries : ∀ e ∈ t, m.ObjectsGrow e.mgr ∧ e.mgr.ObjectsGrow m'
  ordered : t.Pairwise fun e e' => e.mgr.ObjectsGrow e'.mgr

theorem keeps_of_mgr {m m' : VMManager} {t : List Entry} (hm : m.ObjectsGrow m')
    (ht : ∀ e ∈ t, e.mgr = m') : Keeps m t m' where
  objects := hm
  entries := by
    intro e he
    rw [ht e he]
    exact ⟨hm, .refl m'⟩
  ordered := List.pairwise_of_forall_mem_list fun e he e' he' => by
    rw [ht e he, ht e' he']
    exact .refl m'

theorem Keeps.refl (m : VMManager) : Keeps m [] m := keeps_of_mgr (.refl m) nofun

theorem Keeps.trans {m m' m'' : VMManager} {t t' : List Entry} (h : Keeps m t m')
    (h' : Keeps m' t' m'') : Keeps m (t ++ t') m'' where
  objects := h.objects.trans h'.objects
  entries := by
    intro e he
    rcases List.mem_append.mp he with he | he
    · exact ⟨(h.entries e he).1, (h.entries e he).2.trans h'.objects⟩
    · exact ⟨h.objects.trans (h'.entries e he).1, (h'.entries e he).2⟩
  ordered := List.pairwise_append.mpr ⟨h.ordered, h'.ordered, fun e he e' he' =>
    (h.entries e he).2.trans (h'.entries e' he').1⟩

/-- The state `s'` goes on from `s`, keeps its objects, and announces what was fetched. -/
def RefreshState.GoesOn (s s' : RefreshState) : Prop :=
  ∃ t, s'.trace = s.trace ++ t ∧ Keeps s.mgr t s'.mgr ∧ AnnouncesFetched t

namespace RefreshState

theorem GoesOn.refl (s : RefreshState) : s.GoesOn s :=
  ⟨[], by simp, .refl s.mgr, fun pre e rest slot p hsplit => by simp at hsplit⟩

theorem GoesOn.trans {s s' s'' : RefreshState} (h : s.GoesOn s') (h' : s'.GoesOn s'') :
    s.GoesOn s'' := by
  obtain ⟨t, htrace, hkeeps, hfetched⟩ := h
  obtain ⟨t', htrace', hkeeps', hfetched'⟩ := h'
  exact ⟨t ++ t', by rw [htrace', htrace, List.append_assoc], hkeeps.trans hkeeps',
    hfetched.append hfetched'⟩

end RefreshState

/-! ## A refresh -/

/-- What the turn of `id` writes behind its fetch announces a new VM as it was fetched. -/
theorem deref?_of_writeFor {env : RefreshEnv} {count : Nat} {m : VMManager} {id : String}
    {answer : Answer} {w : VMManager.Write} (hw : m.writeFor id answer = some w) {e : Entry}
    (he : e ∈ (⟨w.mgr, w.action⟩ : Entry) :: calls env count w.mgr w.call 0 w.mgr.vmEventHandlers)
    {slot : Nat} {p : Ptr} (hnew : e.action = .notified slot (.newVMAdded p)) :
    ∃ vm, answer = .ok vm ∧ e.mgr.heap.deref? p = some vm := by
  rcases VMManager.writeFor_cases hw with ⟨vm, rfl, -, rfl⟩ | ⟨vm, r, old, -, -, -, -, rfl⟩
  · rcases List.mem_cons.mp he with rfl | he
    · cases hnew
    · obtain ⟨slot', rfl⟩ := mem_calls he
      cases hnew
      exact ⟨vm, rfl, Store.get?_alloc_next m.heap vm⟩
  · rcases List.mem_cons.mp he with rfl | he
    · cases hnew
    · obtain ⟨slot', rfl⟩ := mem_calls he
      cases hnew

theorem announcesFetched_turnTrace (env : RefreshEnv) (count : Nat) (m : VMManager) (id : String)
    (answer : Answer) : AnnouncesFetched (turnTrace env count m id answer) := by
  intro pre e rest slot p hsplit he
  have hfetches := fetches_turnTrace env count m id answer
  rw [hsplit, fetches_append] at hfetches
  rw [turnTrace] at hsplit
  cases pre with
  | nil =>
    obtain ⟨rfl, -⟩ := List.cons_eq_cons.mp hsplit
    cases he
  | cons x pre =>
    obtain ⟨rfl, hbehind⟩ := List.cons_eq_cons.mp hsplit
    have hmem : e ∈ pre ++ e :: rest := by simp
    -- the turn fetches once, and that is its first entry
    have hpre : fetches pre = [] := by
      have hone : (id, answer) :: (fetches pre ++ fetches (e :: rest)) = [(id, answer)] := hfetches
      exact (List.append_eq_nil_iff.mp (List.cons_eq_cons.mp hone).2).1
    cases hw : m.writeFor id answer with
    | none =>
      rw [hw] at hbehind
      rw [show pre ++ e :: rest = [] from hbehind.symm] at hmem
      cases hmem
    | some w =>
      rw [hw] at hbehind
      rw [show pre ++ e :: rest = _ from hbehind.symm] at hmem
      obtain ⟨vm, rfl, hobject⟩ := deref?_of_writeFor hw hmem he
      refine ⟨id, vm, ?_, hobject⟩
      show ((id, Except.ok vm) :: fetches pre).getLast? = _
      rw [hpre]
      rfl

theorem keeps_turnTrace (env : RefreshEnv) (count : Nat) (m : VMManager) (id : String)
    (answer : Answer) : Keeps m (turnTrace env count m id answer) (m.absorb (id, answer)) := by
  rw [turnTrace, ← List.singleton_append]
  have hfetch : Keeps m [⟨m, .fetched id answer⟩] m :=
    keeps_of_mgr (.refl m) fun e he => by rw [List.mem_singleton.mp he]
  refine hfetch.trans ?_
  rw [VMManager.absorb]
  cases hw : m.writeFor id answer with
  | none => exact .refl m
  | some w =>
    refine keeps_of_mgr (VMManager.objectsGrow_writeFor hw) fun e he => ?_
    rcases List.mem_cons.mp he with rfl | he
    · rfl
    · obtain ⟨slot, rfl⟩ := mem_calls he
      rfl

/-- **A refresh keeps its objects**, also if it is ended by a handler. -/
theorem refresh_goesOn {m : VMManager} (hm : m.WellKept) (env : RefreshEnv) :
    RefreshState.GoesOn ⟨m, []⟩ (m.refresh env).2 := by
  cases hids : env.getVirtualMachineIDs with
  | error ex =>
    rw [refresh_of_error hids]
    exact .refl _
  | ok ids =>
    rw [refresh_of_ok hm hids]
    refine RefreshState.GoesOn.trans
      (turns_rule .refl .trans (fun id s => ?_) (fetchOrder env ids ⟨m, []⟩) ⟨m, []⟩)
      (removeTurns_rule .refl .trans (fun vm u s => ?_) ids _ _)
    · exact ⟨_, rfl, keeps_turnTrace env _ s.mgr id _, announcesFetched_turnTrace env _ s.mgr id _⟩
    · refine ⟨_, rfl, keeps_of_mgr (.refl s.mgr) fun e he => ?_, ?_⟩
      · obtain ⟨slot, rfl⟩ := mem_calls he
        rfl
      · intro pre e rest slot p hsplit he
        have hmem : e ∈ pre ++ e :: rest := by simp
        rw [← hsplit] at hmem
        obtain ⟨slot', rfl⟩ := mem_calls hmem
        cases he

/-- A run keeps its objects. Induction on the operations. -/
theorem runOps_goesOn (ops : List Op) : RefreshState.GoesOn ⟨.init, []⟩ (runOps ops) := by
  induction ops using List.reverseRecOn with
  | nil => exact .refl _
  | append_singleton ops op ih =>
    rw [runOps_concat]
    refine ih.trans ?_
    cases op with
    | registerVMEventHandler eventHandler =>
      exact ⟨[], by simp [Op.perform], keeps_of_mgr (VMManager.ObjectsGrow.refl _) nofun,
        fun pre e rest slot p hsplit => by simp at hsplit⟩
    | refreshVMList env =>
      obtain ⟨t, htrace, hkeeps, hfetched⟩ := refresh_goesOn (runOps_sound ops).1 env
      rw [List.nil_append] at htrace
      exact ⟨t, congrArg _ htrace, hkeeps, hfetched⟩

/-! ## The daemons -/

/-- No call on a collection or a daemon gives a daemon another VM. Induction on the calls. -/
theorem getHostVM_runOps (objects : Daemons) (calls : List DaemonCollection.Op) (d : Ref) :
    ((DaemonCollection.runOps objects calls).objects d).getHostVM = (objects d).getHostVM := by
  induction calls using List.reverseRecOn with
  | nil => rfl
  | append_singleton calls op ih =>
    rw [DaemonCollection.runOps, List.foldl_append]
    refine Eq.trans ?_ ih
    cases op with
    | launch daemon success =>
      show (Daemons.launch _ daemon success d).getHostVM = _
      by_cases hd : d = daemon
      · rw [hd, Daemons.launch, Function.update_self]
        rfl
      · rw [Daemons.launch, Function.update_of_ne hd]
        rfl
    | addDaemon _ | getDaemons | getDaemonsForType _ | getUnlaunchedDaemonsForType _
    | getLaunchedDaemonsForType _ | getDaemonsFiltered _ => rfl

theorem VMManager.ObjectsGrow.hostname {m m' : VMManager} (h : m.ObjectsGrow m') {p : Ptr}
    {vm : VirtualMachine} (hp : m.heap.deref? p = some vm) :
    (∃ status, m'.heap.deref? p = some (vm.setStatus status)) ∧
      (m'.heap.deref? p).map (·.hostname) = some vm.hostname := by
  cases p with
  | none => cases hp
  | some r =>
    obtain ⟨vm', hr, status, rfl⟩ := h r vm hp
    rw [Store.deref?_some, hr]
    exact ⟨⟨status, rfl⟩, rfl⟩

/-- **A daemon keeps the hostname of its VM.** Whatever the middleware answers and whoever throws, a
daemon constructed on a VM that is announced has it for its host as it was just fetched, but for the
status, from then on: while the VM is tracked, also under another name, and when it has been
dropped. What is called on the collection and the daemons changes nothing of this. Handlers leave
the VM alone, and `launch()`, which a daemon overrides, both the VM and `hostVM`. -/
theorem daemon_keeps_hostname (ops : List Op) :
    let final := runOps ops
    ∀ pre e rest slot p, final.trace = pre ++ e :: rest →
      e.action = .notified slot (.newVMAdded p) →
      ∃ id vm, (fetches pre).getLast? = some (id, .ok vm) ∧
        ∀ (objects : Daemons) (d : Ref) (type : DaemonType), objects d = Daemon.create p type →
          ∀ calls, ∀ m ∈ (e :: rest).map Entry.mgr ++ [final.mgr],
            let daemon := (DaemonCollection.runOps objects calls).objects d
            (∃ status, m.heap.deref? daemon.getHostVM = some (vm.setStatus status)) ∧
              daemon.getHostname m.heap = some vm.hostname := by
  intro final pre e rest slot p hsplit he
  obtain ⟨t, htrace, hkeeps, hfetched⟩ := runOps_goesOn ops
  rw [List.nil_append] at htrace
  obtain ⟨id, vm, hlast, hobject⟩ := hfetched pre e rest slot p (htrace.symm.trans hsplit) he
  refine ⟨id, vm, hlast, ?_⟩
  intro objects d type hd calls m hm daemon
  have hhost : daemon.getHostVM = p := by
    rw [getHostVM_runOps, hd]
    rfl
  -- behind the announcement each manager of the run has the objects of that one
  have hgrow : e.mgr.ObjectsGrow m := by
    have hordered := hkeeps.ordered
    rw [← htrace, show (runOps ops).trace = _ from hsplit] at hordered
    have hlater := (List.pairwise_cons.mp (List.pairwise_append.mp hordered).2.1).1
    rcases List.mem_append.mp hm with hm | hm
    · obtain ⟨y, hy, rfl⟩ := List.mem_map.mp hm
      rcases List.mem_cons.mp hy with rfl | hy
      · exact .refl _
      · exact hlater y hy
    · rw [List.mem_singleton.mp hm]
      refine (hkeeps.entries e ?_).2
      rw [← htrace, show (runOps ops).trace = _ from hsplit]
      simp
  rw [Daemon.getHostname, hhost]
  exact hgrow.hostname hobject

/-- A daemon launched on a VM that is gone when the run ends. -/
theorem daemon_keeps_hostname_dropped :
    let ops : List Op := [.registerVMEventHandler 7, .refreshVMList (.uniform ["vmA"] .on),
      .refreshVMList (.uniform [] .on)]
    let daemons : Daemons := fun _ => Daemon.create (some 0) 4
    let world := DaemonCollection.runOps daemons [.addDaemon 0, .launch 0 true]
    (world.objects 0).getHostname (runOps ops).mgr.heap = some "host-vmA" := by
  intro ops daemons world
  let m₀ := VMManager.init.registerVMEventHandler 7
  let vm : VirtualMachine := ⟨"vmA", "host-" ++ "vmA", "h1", "s1", .on⟩
  have hkept : m₀.WellKept := VMManager.wellKept_init.registerVMEventHandler 7
  have hids : (RefreshEnv.uniform ["vmA"] .on).getVirtualMachineIDs = .ok ["vmA"] := rfl
  have hnoids : (RefreshEnv.uniform [] .on).getVirtualMachineIDs = .ok [] := rfl
  have hfirst : (m₀.refresh (.uniform ["vmA"] .on)).2 = ⟨m₀.recordVM vm,
      [⟨m₀, .fetched "vmA" (.ok vm)⟩, ⟨m₀.recordVM vm, .recorded (some 0)⟩,
        ⟨m₀.recordVM vm, .notified 0 (.newVMAdded (some 0))⟩]⟩ := by
    rw [refresh_of_ok hkept hids]
    rfl
  have hsecond : ((m₀.recordVM vm).refresh (.uniform [] .on)).2.trace =
      [⟨(m₀.recordVM vm).eraseVM "vmA", .notified 0 (.oldVMRemoved (some 0))⟩] := by
    rw [refresh_of_ok (hkept.recordVM vm) hnoids]
    rfl
  have htrace : (runOps ops).trace = [⟨m₀, .fetched "vmA" (.ok vm)⟩,
      ⟨m₀.recordVM vm, .recorded (some 0)⟩] ++
        ⟨m₀.recordVM vm, .notified 0 (.newVMAdded (some 0))⟩ ::
          [⟨(m₀.recordVM vm).eraseVM "vmA", .notified 0 (.oldVMRemoved (some 0))⟩] := by
    show (m₀.refresh (.uniform ["vmA"] .on)).2.trace ++
      ((m₀.refresh (.uniform ["vmA"] .on)).2.mgr.refresh (.uniform [] .on)).2.trace = _
    rw [hfirst, hsecond]
    rfl
  obtain ⟨id, vm', hlast, hkeeps⟩ := daemon_keeps_hostname ops _ _ _ _ _ htrace rfl
  cases hlast
  exact (hkeeps daemons 0 4 rfl [.addDaemon 0, .launch 0 true] _
    (List.mem_append_right _ (List.mem_singleton_self _))).2

end NebuApp
