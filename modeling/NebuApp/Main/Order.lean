import NebuApp.Main.Program

/-!
# The order of the arguments

The arguments of the constructor of the `Application` are calls of the getters and of the hook
`getDaemonManager`, which the compiler may have evaluated in any order. What this hook configures
counts for the request of a manager that nobody asks for before it. Nothing else depends on the
order (`main_order`).
-/

namespace NebuApp

open Exec Flags

/-! ## Getters -/

/-- What throws depends on what the virtual machine manager has been told. -/
theorem firstAbort_congr {application : Ptr} {done done' ops : List HookOp}
    (h : done.filterMap HookOp.vmOp? = done'.filterMap HookOp.vmOp?) :
    firstAbort application done ops = firstAbort application done' ops := by
  induction ops generalizing done done' with
  | nil => rfl
  | cons op rest ih =>
    have hop : op.abort? application done = op.abort? application done' := by
      cases op with
      | onVMManager op => simp only [HookOp.abort?, h]
      | _ => rfl
    rw [firstAbort, firstAbort, hop, ih]
    rw [List.filterMap_append, h, List.filterMap_append]

/-- A getter of a manager, called for nothing but its value. -/
def HookOp.IsGetter (op : HookOp) : Prop := op = .getTopologyManager ∨ op = .getVMManager

theorem firstAbort_getters {application : Ptr} {done ops : List HookOp}
    (h : ∀ op ∈ ops, op.IsGetter) : firstAbort application done ops = none := by
  rw [firstAbort_eq_none_iff]
  rintro pre op post rfl
  rcases h op (by simp) with rfl | rfl <;> exact id

theorem filterMap_getters {α : Type} {f : HookOp → Option α} {ops : List HookOp}
    (htopology : f .getTopologyManager = none) (hvms : f .getVMManager = none)
    (h : ∀ op ∈ ops, op.IsGetter) : ops.filterMap f = [] := by
  refine List.filterMap_eq_nil_iff.mpr fun op hop => ?_
  rcases h op hop with rfl | rfl
  · exact htopology
  · exact hvms

theorem staticsAfter_append (done ops : List HookOp) :
    staticsAfter (done ++ ops) =
      (ops.flatMap HookOp.configOps).foldl Configuration.Op.perform (staticsAfter done) := by
  rw [staticsAfter, List.flatMap_append, Configuration.runOps, List.foldl_append]
  rfl

/-- Once there is a global object, it stays, and getters of managers leave it as it is. -/
theorem staticsAfter_getters {done ops : List HookOp}
    (hdone : (staticsAfter done).globalConfiguration.isSome = true)
    (h : ∀ op ∈ ops, op.IsGetter) : staticsAfter (done ++ ops) = staticsAfter done := by
  induction ops generalizing done with
  | nil => rw [List.append_nil]
  | cons op rest ih =>
    have htouched : staticsAfter (done ++ [op]) = staticsAfter done := by
      rw [staticsAfter_snoc]
      rcases h op List.mem_cons_self with rfl | rfl <;>
        exact Configuration.touched_of_isSome hdone
    rw [show done ++ op :: rest = done ++ [op] ++ rest by simp,
      ih (by rwa [htouched]) fun op' hop' => h op' (List.mem_cons_of_mem _ hop'), htouched]

/-! ## Requests -/

/-- What comes behind the first operation that asks for a manager does not change its request. -/
theorem firstRequest_append_of_some {asks : HookOp → Bool} {done : List HookOp}
    {request : AppRequest} (h : firstRequest asks done = some request) (ops : List HookOp) :
    firstRequest asks (done ++ ops) = some request := by
  induction ops using List.reverseRecOn with
  | nil => rwa [List.append_nil]
  | append_singleton ops op ih => rw [← List.append_assoc, firstRequest_snoc, ih, Option.some_or]

theorem firstRequest_append_of_not {asks : HookOp → Bool} {done ops : List HookOp}
    (h : ∀ op ∈ ops, asks op = false) :
    firstRequest asks (done ++ ops) = firstRequest asks done := by
  induction ops using List.reverseRecOn with
  | nil => rw [List.append_nil]
  | append_singleton ops op ih =>
    rw [← List.append_assoc, firstRequest_snoc, h op (by simp),
      ih fun op' hop' => h op' (List.mem_append_left _ hop')]
    simp

/-- The request of a manager that is asked for behind the operations `done`, at the latest. -/
def requestBehind (asks : HookOp → Bool) (done : List HookOp) : AppRequest :=
  (firstRequest asks done).getD (.of (staticsAfter done))

section Getters

variable {asks : HookOp → Bool} {done ops : List HookOp}
  (hdone : (staticsAfter done).globalConfiguration.isSome = true)
include hdone

/-- Getters, one of which asks for the manager. Induction on the getters. -/
theorem firstRequest_getters (h : ∀ op ∈ ops, op.IsGetter) (hasks : ∃ op ∈ ops, asks op = true) :
    firstRequest asks (done ++ ops) = some (requestBehind asks done) := by
  induction ops generalizing done with
  | nil =>
    obtain ⟨op, hop, -⟩ := hasks
    cases hop
  | cons op rest ih =>
    have hsplit : done ++ op :: rest = done ++ [op] ++ rest := by simp
    have hfirst := firstRequest_snoc done op asks
    rw [hsplit]
    by_cases hop : asks op = true
    · rw [if_pos hop] at hfirst
      refine firstRequest_append_of_some (hfirst.trans ?_) rest
      rw [requestBehind]
      cases firstRequest asks done <;> rfl
    · -- this one leaves things as they are
      have hstatics : staticsAfter (done ++ [op]) = staticsAfter done :=
        staticsAfter_getters hdone fun op' hop' => h op' (by simp_all)
      rw [if_neg hop, Option.or_none] at hfirst
      rw [ih (by rwa [hstatics]) (fun op' hop' => h op' (List.mem_cons_of_mem _ hop')) ?_,
        requestBehind, requestBehind, hfirst, hstatics]
      obtain ⟨op', hop', hasks'⟩ := hasks
      rcases List.mem_cons.mp hop' with rfl | hop'
      · exact absurd hasks' hop
      · exact ⟨op', hop', hasks'⟩

/-- Getters of other managers may as well be left out. Induction on what follows them. -/
theorem firstRequest_omit (h : ∀ op ∈ ops, op.IsGetter ∧ asks op = false) (rest : List HookOp) :
    firstRequest asks (done ++ ops ++ rest) = firstRequest asks (done ++ rest) := by
  have hstatics : ∀ rest', staticsAfter (done ++ ops ++ rest') = staticsAfter (done ++ rest') := by
    intro rest'
    rw [staticsAfter_append, staticsAfter_getters hdone fun op hop => (h op hop).1,
      ← staticsAfter_append]
  induction rest using List.reverseRecOn with
  | nil =>
    rw [List.append_nil, List.append_nil, firstRequest_append_of_not fun op hop => (h op hop).2]
  | append_singleton rest op ih =>
    rw [← List.append_assoc, firstRequest_snoc, ih, hstatics, ← firstRequest_snoc,
      List.append_assoc]

end Getters

/-! ## Orders -/

namespace HookCode

variable (code : HookCode)

/-- Arguments without `getDaemonManager` only get managers. -/
theorem isGetter_flatMap {getters : List Getter} (hnot : .daemonManager ∉ getters) :
    ∀ op ∈ getters.flatMap code.opsOf, op.IsGetter := by
  intro op hop
  obtain ⟨getter, hgetter, hop⟩ := List.mem_flatMap.mp hop
  cases getter with
  | daemonManager => exact absurd hgetter hnot
  | topologyManager => exact Or.inl (List.mem_singleton.mp hop)
  | vmManager => exact Or.inr (List.mem_singleton.mp hop)

theorem opsBefore_split (ahead behind : List Getter) (args : List String) :
    code.opsBefore (ahead ++ .daemonManager :: behind) args = code.opsInitialise args ++
      ahead.flatMap code.opsOf ++ code.getDaemonManager ++ behind.flatMap code.opsOf := by
  rw [opsBefore, List.flatMap_append, List.flatMap_cons]
  simp only [← List.append_assoc]
  rfl

theorem opsBefore_daemonManager (args : List String) :
    code.opsBefore [.daemonManager] args = code.opsInitialise args ++ code.getDaemonManager := by
  simp [opsBefore, opsOf]

/-- The command line has been parsed, so that there is a global object. -/
theorem isSome_opsInitialise {args : List String} (hlen : args.length < UInt32.size) :
    (staticsAfter (code.opsInitialise args)).globalConfiguration.isSome = true := by
  obtain ⟨segs, hsegs⟩ :=
    exists_parses (staticsAfter code.registerConfigurationOptions).IsFlag args
  have hprovides := staticsAfter_provides Configuration.initial_provides_interval
    (code.registerConfigurationOptions ++ [.configure (.fromArguments args)])
  have hparsed : (staticsAfter (code.registerConfigurationOptions ++
      [.configure (.fromArguments args)])).globalConfiguration.isSome = true := by
    rw [staticsAfter_snoc]
    show (Configuration.Op.perform _ (.fromArguments args)).globalConfiguration.isSome = true
    rw [Configuration.perform_fromArguments hsegs hlen]
    rfl
  have hsplit : code.opsInitialise args = code.registerConfigurationOptions ++
      [.configure (.fromArguments args)] ++ (code.prepareLogging ++ code.initialise) := by
    simp [opsInitialise]
  rw [hsplit, staticsAfter_append]
  exact Configuration.foldl_perform_isSome _ hprovides hparsed

theorem isSome_append {args : List String} (hlen : args.length < UInt32.size) (ops : List HookOp) :
    (staticsAfter (code.opsInitialise args ++ ops)).globalConfiguration.isSome = true := by
  rw [staticsAfter_append]
  exact Configuration.foldl_perform_isSome _
    (staticsAfter_provides Configuration.initial_provides_interval _)
    (code.isSome_opsInitialise hlen)

/-- Getters that are called between `initialise` and `getDaemonManager` change no option. -/
theorem staticsAfter_ahead {args : List String} (hlen : args.length < UInt32.size)
    {getters : List HookOp} (h : ∀ op ∈ getters, op.IsGetter) (ops : List HookOp) :
    staticsAfter (code.opsInitialise args ++ getters ++ ops) =
      staticsAfter (code.opsInitialise args ++ ops) := by
  rw [staticsAfter_append, staticsAfter_getters (code.isSome_opsInitialise hlen) h,
    ← staticsAfter_append]

section Order

variable {order : List Getter}
  (horder : order.Perm [.daemonManager, .topologyManager, .vmManager])
include horder

omit code in
/-- The arguments evaluated ahead of `getDaemonManager`, and those behind it. -/
theorem exists_split : ∃ ahead behind, order = ahead ++ .daemonManager :: behind ∧
    .daemonManager ∉ ahead ∧ .daemonManager ∉ behind := by
  obtain ⟨ahead, behind, rfl⟩ :=
    List.append_of_mem (horder.mem_iff.mpr (by simp) : Getter.daemonManager ∈ order)
  have hnodup : (ahead ++ .daemonManager :: behind).Nodup := horder.nodup_iff.mpr (by decide)
  have honce := (List.nodup_cons.mp (List.nodup_middle.mp hnodup)).1
  exact ⟨ahead, behind, rfl, fun hmem => honce (List.mem_append_left _ hmem),
    fun hmem => honce (List.mem_append_right _ hmem)⟩

/-- What is done but for getting managers. -/
theorem filterMap_opsBefore {α : Type} {f : HookOp → Option α}
    (htopology : f .getTopologyManager = none) (hvms : f .getVMManager = none)
    (args : List String) :
    (code.opsBefore order args).filterMap f =
      (code.opsBefore [.daemonManager] args).filterMap f := by
  obtain ⟨ahead, behind, rfl, hahead, hbehind⟩ := exists_split horder
  rw [opsBefore_split, opsBefore_daemonManager]
  simp only [List.filterMap_append,
    filterMap_getters htopology hvms (code.isGetter_flatMap hahead),
    filterMap_getters htopology hvms (code.isGetter_flatMap hbehind), List.append_nil]

theorem filterMap_ops {α : Type} {f : HookOp → Option α}
    (htopology : f .getTopologyManager = none) (hvms : f .getVMManager = none)
    (args : List String) :
    (code.ops order args).filterMap f = (code.ops [.daemonManager] args).filterMap f := by
  rw [ops, ops, List.filterMap_append, List.filterMap_append,
    code.filterMap_opsBefore horder htopology hvms]

theorem staticsAfter_opsBefore {args : List String} (hlen : args.length < UInt32.size) :
    staticsAfter (code.opsBefore order args) =
      staticsAfter (code.opsBefore [.daemonManager] args) := by
  obtain ⟨ahead, behind, rfl, hahead, hbehind⟩ := exists_split horder
  rw [opsBefore_split, opsBefore_daemonManager,
    staticsAfter_getters (by rw [List.append_assoc]; exact code.isSome_append hlen _)
      (code.isGetter_flatMap hbehind),
    code.staticsAfter_ahead hlen (code.isGetter_flatMap hahead)]

theorem staticsAfter_ops {args : List String} (hlen : args.length < UInt32.size) :
    staticsAfter (code.ops order args) = staticsAfter (code.ops [.daemonManager] args) := by
  rw [ops, ops, staticsAfter_append, staticsAfter_append, code.staticsAfter_opsBefore horder hlen]

/-- What a hook throws does not depend on the order. -/
theorem abort?_order (args : List String) :
    code.abort? order args = code.abort? [.daemonManager] args := by
  have hvmOps := code.filterMap_opsBefore horder (f := HookOp.vmOp?) rfl rfl args
  have hbefore : firstAbort none [] (code.opsBefore order args) =
      firstAbort none [] (code.opsBefore [.daemonManager] args) := by
    obtain ⟨ahead, behind, rfl, hahead, hbehind⟩ := exists_split horder
    have hgetters := filterMap_getters (f := HookOp.vmOp?) rfl rfl (code.isGetter_flatMap hahead)
    have hdaemon : firstAbort none (code.opsInitialise args ++ ahead.flatMap code.opsOf)
        code.getDaemonManager = firstAbort none (code.opsInitialise args) code.getDaemonManager :=
      firstAbort_congr (by rw [List.filterMap_append, hgetters, List.append_nil])
    rw [opsBefore_split, opsBefore_daemonManager]
    simp only [firstAbort_append, List.nil_append, hdaemon,
      firstAbort_getters (code.isGetter_flatMap hahead),
      firstAbort_getters (code.isGetter_flatMap hbehind), Option.or_none]
  rw [abort?, abort?, hbefore]
  refine congrArg (Option.or _) (firstAbort_congr ?_)
  rw [List.filterMap_append, List.filterMap_append, hvmOps]

theorem entered_order {args : List String} (hlen : args.length < UInt32.size) :
    code.entered order args = code.entered [.daemonManager] args := by
  have hstatics : Configuration.runOps ((code.ops order args).flatMap HookOp.configOps) =
      Configuration.runOps ((code.ops [.daemonManager] args).flatMap HookOp.configOps) :=
    code.staticsAfter_ops horder hlen
  simp only [entered, AppState.start, hstatics,
    code.filterMap_ops horder (f := HookOp.answer?) rfl rfl,
    code.filterMap_opsBefore horder (f := HookOp.vmOp?) rfl rfl]

theorem call?_order : order.filterMap Getter.call? = [.getDaemonManager] :=
  List.perm_singleton.mp (horder.filterMap Getter.call?)

theorem collectionAfter_order (daemons : Daemons) (args : List String) :
    collectionAfter daemons (code.ops order args) =
        collectionAfter daemons (code.ops [.daemonManager] args) ∧
      daemonsAfter daemons (code.ops order args) =
        daemonsAfter daemons (code.ops [.daemonManager] args) := by
  have hdaemons : daemonsAfter daemons (code.ops order args) =
      daemonsAfter daemons (code.ops [.daemonManager] args) := by
    rw [daemonsAfter, daemonsAfter,
      code.filterMap_ops horder (f := HookOp.collectionOp?) rfl rfl]
  have hasks : (code.ops order args).any HookOp.asksDaemonCollection =
      (code.ops [.daemonManager] args).any HookOp.asksDaemonCollection := by
    have hgetters : ∀ {getters : List HookOp}, (∀ op ∈ getters, op.IsGetter) →
        getters.any HookOp.asksDaemonCollection = false := by
      intro getters h
      refine List.any_eq_false.mpr fun op hop => ?_
      rcases h op hop with rfl | rfl <;> exact Bool.false_ne_true
    obtain ⟨ahead, behind, rfl, hahead, hbehind⟩ := exists_split horder
    rw [ops, ops, opsBefore_split, opsBefore_daemonManager]
    simp only [List.any_append, hgetters (code.isGetter_flatMap hahead),
      hgetters (code.isGetter_flatMap hbehind), Bool.or_false]
  exact ⟨by rw [collectionAfter, collectionAfter, hasks, hdaemons], hdaemons⟩

end Order

/-! ## The requests -/

/-- What has been done when the argument is evaluated that gets a manager, but for what only gets
managers. -/
def opsAhead (order : List Getter) (args : List String) (getter : Getter) : List HookOp :=
  if getter ∈ order.takeWhile (· ≠ .daemonManager) then
    code.opsInitialise args
  else
    code.opsInitialise args ++ code.getDaemonManager

/-- What the argument that gets a manager does. -/
structure Gets (asks : HookOp → Bool) (getter : Getter) : Prop where
  own : ∃ op ∈ code.opsOf getter, asks op = true
  others : ∀ other ≠ getter, other ≠ .daemonManager → ∀ op ∈ code.opsOf other, asks op = false

theorem gets_topologyManager : code.Gets HookOp.asksTopologyManager .topologyManager where
  own := ⟨.getTopologyManager, List.mem_singleton_self _, rfl⟩
  others other hother hdaemon op hop := by
    cases other with
    | daemonManager => exact absurd rfl hdaemon
    | topologyManager => exact absurd rfl hother
    | vmManager => rw [List.mem_singleton.mp hop]; rfl

theorem gets_vmManager : code.Gets HookOp.asksVMManager .vmManager where
  own := ⟨.getVMManager, List.mem_singleton_self _, rfl⟩
  others other hother hdaemon op hop := by
    cases other with
    | daemonManager => exact absurd rfl hdaemon
    | topologyManager => rw [List.mem_singleton.mp hop]; rfl
    | vmManager => exact absurd rfl hother

/-- The request of a manager, once the arguments have been evaluated. -/
theorem firstRequest_opsBefore {order : List Getter}
    (horder : order.Perm [.daemonManager, .topologyManager, .vmManager]) {args : List String}
    (hlen : args.length < UInt32.size) {asks : HookOp → Bool} {getter : Getter}
    (hgetter : getter ≠ .daemonManager) (h : code.Gets asks getter) :
    firstRequest asks (code.opsBefore order args) =
      some (requestBehind asks (code.opsAhead order args getter)) := by
  obtain ⟨ahead, behind, rfl, hahead, hbehind⟩ := exists_split horder
  have htake : (ahead ++ .daemonManager :: behind).takeWhile (· ≠ .daemonManager) = ahead := by
    rw [List.takeWhile_append_of_pos]
    · simp
    · intro other hother
      simpa using fun heq : other = .daemonManager => hahead (heq ▸ hother)
  have hsome := code.isSome_opsInitialise hlen
  obtain ⟨op, hop, hasks⟩ := h.own
  rw [opsBefore_split, opsAhead, htake]
  by_cases hmem : getter ∈ ahead
  · -- it is gotten ahead of the hook, if not by the hooks before
    rw [if_pos hmem, List.append_assoc]
    exact firstRequest_append_of_some (firstRequest_getters hsome (code.isGetter_flatMap hahead)
      ⟨op, List.mem_flatMap.mpr ⟨getter, hmem, hop⟩, hasks⟩) _
  · have hother : ∀ op ∈ ahead.flatMap code.opsOf, op.IsGetter ∧ asks op = false := by
      intro op hop
      obtain ⟨other, hother, hop'⟩ := List.mem_flatMap.mp hop
      exact ⟨code.isGetter_flatMap hahead op hop, h.others other (fun heq => hmem (heq ▸ hother))
        (fun heq => hahead (heq ▸ hother)) op hop'⟩
    have hlast : getter ∈ behind := by
      have hall : getter ∈ ahead ++ .daemonManager :: behind := by
        rw [horder.mem_iff]
        cases getter <;> simp
      simpa [hmem, hgetter] using hall
    rw [if_neg hmem, firstRequest_getters _ (code.isGetter_flatMap hbehind)
      ⟨op, List.mem_flatMap.mpr ⟨getter, hlast, hop⟩, hasks⟩, requestBehind, requestBehind,
      firstRequest_omit hsome hother,
      code.staticsAfter_ahead hlen (code.isGetter_flatMap hahead)]
    rw [List.append_assoc]
    exact code.isSome_append hlen _

theorem managerAfter_ops {α : Type} {order : List Getter}
    (horder : order.Perm [.daemonManager, .topologyManager, .vmManager]) {args : List String}
    (hlen : args.length < UInt32.size) {asks : HookOp → Bool} {getter : Getter}
    (hgetter : getter ≠ .daemonManager) (h : code.Gets asks getter) (value : List HookOp → α) :
    managerAfter asks value (code.ops order args) =
      some (requestBehind asks (code.opsAhead order args getter), value (code.ops order args)) := by
  have hfirst := firstRequest_append_of_some (code.firstRequest_opsBefore horder hlen hgetter h)
    (.onVMManager (.registerVMEventHandler code.daemonManager) :: code.setApplication)
  exact congrArg (Option.map fun request => (request, value (code.ops order args))) hfirst

/-- The state the loop is entered in. All but the requests is that of the operations without what
only gets managers. -/
def started (daemons : Daemons) (command : String) (args arguments : List String)
    (topologyRequest vmRequest : AppRequest) : MainState :=
  let ops := code.ops [.daemonManager] args
  { daemonCollection := .ofOption (collectionAfter daemons ops)
    topologyManager :=
      .ofOption (some (topologyRequest, runRefreshes (ops.filterMap HookOp.answer?)))
    vmManager := .ofOption (some (vmRequest, (runOps (ops.filterMap HookOp.vmOp?)).mgr))
    application := some Lazy.only
    applications := .alloc .empty ⟨code.setApplication.any HookOp.isShutdown, code.daemonManager,
      Lazy.only, Lazy.only, true⟩
    statics := staticsAfter ops
    daemons := (daemonsAfter daemons ops).objects
    calls := hookCalls command arguments [.daemonManager] ++ [.setApplication Lazy.only] }

/-- The start of the program in any order. -/
theorem exec_start_started {order : List Getter}
    (horder : order.Perm [.daemonManager, .topologyManager, .vmManager]) (argc : Int32)
    (argv : Nat → String) (daemons : Daemons) {segs : List (Segment String)}
    (hsegs : Parses (staticsAfter code.registerConfigurationOptions).IsFlag
      (Configuration.mainArguments argc argv) segs)
    (hnone : code.abort? order (Configuration.mainArguments argc argv) = none) :
    let args := Configuration.mainArguments argc argv
    exec (start code order argc argv) (.initial daemons) = (.ok Lazy.only,
      code.started daemons (argv 0) args (positionals segs)
        (requestBehind HookOp.asksTopologyManager (code.opsAhead order args .topologyManager))
        (requestBehind HookOp.asksVMManager (code.opsAhead order args .vmManager))) := by
  intro args
  have hlen := Configuration.length_mainArguments_lt argc argv
  obtain ⟨s, hexec, hreflects, happlications, happlication, hcalls⟩ :=
    (code.exec_start horder daemons argc argv hsegs).1 hnone
  obtain ⟨hcollection, hdaemons⟩ := code.collectionAfter_order horder daemons args
  refine hexec.trans (congrArg (Prod.mk _) ?_)
  refine MainState.ext (hreflects.collection.trans (congrArg _ hcollection)) ?_ ?_ happlication
    happlications (hreflects.statics.trans (code.staticsAfter_ops horder hlen))
    (hreflects.daemons.trans (congrArg _ hdaemons)) ?_
  · rw [hreflects.topologyManager, topologyManagerAfter,
      code.managerAfter_ops horder hlen Getter.noConfusion code.gets_topologyManager,
      code.filterMap_ops horder rfl rfl]
    rfl
  · rw [hreflects.vmManager, vmManagerAfter,
      code.managerAfter_ops horder hlen Getter.noConfusion code.gets_vmManager,
      code.filterMap_ops horder rfl rfl]
    rfl
  · rw [hcalls, hookCalls, call?_order horder]
    rfl

end HookCode

end NebuApp
