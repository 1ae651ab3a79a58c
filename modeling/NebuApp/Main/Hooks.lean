import NebuApp.Main.Model
import NebuApp.VM.Exceptions

/-!
# What the hooks leave behind

The managers of `ApplicationHooks` are created when somebody first asks for them, with the options
the configuration has at that moment. So what a sequence of operations of the hooks leaves is told
by the sequence: `topologyManagerAfter`, `vmManagerAfter`, `collectionAfter`, `staticsAfter`. A
state that is as these say `Reflects` the sequence, and holds one object of each class at most.
-/

namespace NebuApp

open Exec

/-! ## The options of a request -/

namespace Configuration

theorem initial_provides_url : Statics.initial.Provides CONFIG_NEBU_URL := ⟨by decide, by decide⟩

theorem initial_provides_uuid : Statics.initial.Provides CONFIG_APP_UUID := ⟨by decide, by decide⟩

/-- The value of an option that is never missing. -/
def Statics.value (s : Statics) (option : String) : String :=
  (s.global.options.lookup option).getD ""

/-- The static members after they have been asked for the global object. -/
def Statics.touched (s : Statics) : Statics := Op.perform s .getGlobalConfiguration

theorem touched_eq (s : Statics) : s.touched = { s with globalConfiguration := some s.global } := by
  rw [Statics.touched, perform_touches (by exact trivial)]
  rfl

@[simp] theorem global_touched (s : Statics) : s.touched.global = s.global := by
  rw [touched_eq]
  rfl

@[simp] theorem value_touched (s : Statics) (option : String) :
    s.touched.value option = s.value option := by
  rw [Statics.value, global_touched]
  rfl

theorem touched_of_isSome {s : Statics} (h : s.globalConfiguration.isSome = true) :
    s.touched = s := by
  obtain ⟨c, flags, defaults⟩ := s
  cases c with
  | none => cases h
  | some c => rw [touched_eq, Statics.global_of_some rfl]

/-- Once there is a global object, there always is one. -/
theorem perform_isSome (op : Op) {s : Statics} {option : String} (hs : s.Provides option)
    (h : s.globalConfiguration.isSome = true) :
    (op.perform s).globalConfiguration.isSome = true := by
  by_cases htouch : op.Touches
  · rw [perform_touches htouch]
    rfl
  by_cases hreplace : op.Replaces
  · cases op with
    | fromArguments args =>
      obtain ⟨result, hrun, -⟩ :=
        run_loop_keeps (args.length + 1) args ⟨s.defaultValues⟩ 0 hs.1
      rw [perform_fromArguments_of_loop hrun]
      cases result with
      | none => exact h
      | some left => rfl
    | addCommandLineOption _ _ | addDefaultValue _ _ | getGlobalConfiguration | setOption _ _
    | readOption _ | assignOption _ _ => exact absurd hreplace id
  · rw [perform_passes htouch hreplace]
    exact h

theorem foldl_perform_isSome (ops : List Op) {s : Statics} {option : String}
    (hs : s.Provides option) (h : s.globalConfiguration.isSome = true) :
    (ops.foldl Op.perform s).globalConfiguration.isSome = true := by
  induction ops generalizing s with
  | nil => exact h
  | cons op rest ih => exact ih (perform_provides op hs) (perform_isSome op hs h)

end Configuration

/-- The request made in a state of the configuration. -/
def AppRequest.of (s : Configuration.Statics) : AppRequest :=
  ⟨s.value CONFIG_NEBU_URL, s.value CONFIG_APP_UUID⟩

section Request

variable {s : MainState}

theorem exec_liftStatics {α : Type} (code : Configuration.Code α) (s : MainState) :
    exec (liftStatics code) s = (.ok (code.run s.statics).1,
      { s with statics := (code.run s.statics).2 }) := by
  rw [liftStatics, exec_bind_ok (exec_get s)]
  rfl

theorem exec_CONFIG_GET {option : String} (h : s.statics.Provides option) :
    exec (CONFIG_GET option) s =
      (.ok (s.statics.value option), { s with statics := s.statics.touched }) := by
  obtain ⟨value, hvalue⟩ := Option.isSome_iff_exists.mp (AList.lookup_isSome.mpr h.2)
  have hrun : Configuration.getGlobalConfiguration.run s.statics =
      (s.statics.global, s.statics.touched) := by
    rw [Configuration.run_getGlobalConfiguration, Configuration.touched_eq]
  have hget : exec (liftStatics Configuration.getGlobalConfiguration) s =
      (.ok s.statics.global, { s with statics := s.statics.touched }) := by
    rw [exec_liftStatics, hrun]
  rw [CONFIG_GET, exec_bind_ok hget, Configuration.Statics.value, hvalue,
    Configuration.getOption_eq_ok_iff.mpr hvalue]
  rfl

/-- The URL is read first, so that the UUID is read from a global object that is there. -/
theorem exec_makeRequest (hurl : s.statics.Provides CONFIG_NEBU_URL)
    (huuid : s.statics.Provides CONFIG_APP_UUID) :
    exec makeRequest s = (.ok (.of s.statics), { s with statics := s.statics.touched }) := by
  have htwice : s.statics.touched.touched = s.statics.touched :=
    Configuration.touched_of_isSome (by rw [Configuration.touched_eq]; rfl)
  have huuid' : s.statics.touched.Provides CONFIG_APP_UUID :=
    Configuration.perform_provides _ huuid
  rw [makeRequest, exec_bind_ok (exec_CONFIG_GET hurl), exec_bind_ok (exec_CONFIG_GET huuid')]
  show (Except.ok (⟨_, s.statics.touched.value CONFIG_APP_UUID⟩ : AppRequest),
    { s with statics := s.statics.touched.touched }) = _
  rw [htwice, Configuration.value_touched]
  rfl

end Request

/-- A getter whose member is one object at most creates it if there is none. -/
theorem exec_getMember {α : Type} {member : MainState → Lazy α}
    {assign : Lazy α → MainState → MainState} {make : MainProg α} {s s' : MainState}
    {o : Option α} {a : α} (hmember : member s = .ofOption o)
    (hmake : exec make s = (.ok a, s')) (hkeeps : member s' = member s)
    (hassign : assign (member s) s = s) :
    exec (getMember member assign make) s =
      (.ok Lazy.only, assign (.ofOption (some (o.getD a))) (if o.isSome then s else s')) := by
  rw [getMember, exec_bind_ok (exec_get s), hmember, Lazy.pointer_ofOption]
  rw [hmember] at hassign hkeeps
  cases o with
  | some b =>
    show (Except.ok _, s) = _
    exact congrArg (Prod.mk _) hassign.symm
  | none =>
    rw [Option.map_none]
    refine (exec_bind_ok hmake).trans ?_
    show (Except.ok (member s').objects.next, assign ((member s').create a) s') = _
    rw [hkeeps]
    rfl

/-! ## What a sequence of operations leaves -/

namespace HookOp

/-- The operations on the configuration. A manager that is there already asks for nothing, and then
there is a global object already. -/
def configOps : HookOp → List Configuration.Op
  | configure op => [op]
  | getTopologyManager | refreshTopology _ | getVMManager | onVMManager _ =>
    [.getGlobalConfiguration]
  | getDaemonCollection | onDaemonCollection _ | shutdown | raise _ => []

def asksDaemonCollection : HookOp → Bool
  | getDaemonCollection | onDaemonCollection _ => true
  | _ => false

def asksTopologyManager : HookOp → Bool
  | getTopologyManager | refreshTopology _ => true
  | _ => false

def asksVMManager : HookOp → Bool
  | getVMManager | onVMManager _ => true
  | _ => false

def collectionOp? : HookOp → Option DaemonCollection.Op
  | onDaemonCollection op => some op
  | _ => none

def answer? : HookOp → Option (Except NebuServerException (Option Topology))
  | refreshTopology answer => some answer
  | _ => none

def vmOp? : HookOp → Option Op
  | onVMManager op => some op
  | _ => none

end HookOp

/-- The static members of `Configuration`. -/
def staticsAfter (done : List HookOp) : Configuration.Statics :=
  Configuration.runOps (done.flatMap HookOp.configOps)

/-- The request of a manager that the first of some operations asks for. -/
def firstRequest (asks : HookOp → Bool) (done : List HookOp) : Option AppRequest :=
  if done.any asks then some (.of (staticsAfter (done.takeWhile fun op => !asks op))) else none

/-- The daemon collection, and the daemons. -/
def daemonsAfter (daemons : Daemons) (done : List HookOp) : DaemonCollection.World :=
  DaemonCollection.runOps daemons (done.filterMap HookOp.collectionOp?)

def collectionAfter (daemons : Daemons) (done : List HookOp) : Option DaemonCollection :=
  if done.any HookOp.asksDaemonCollection then some (daemonsAfter daemons done).collection else none

/-- A manager that is what `value` says once it has been asked for. -/
def managerAfter {α : Type} (asks : HookOp → Bool) (value : List HookOp → α) (done : List HookOp) :
    Option (AppRequest × α) :=
  (firstRequest asks done).map fun request => (request, value done)

def topologyManagerAfter : List HookOp → Option (AppRequest × TopologyManager) :=
  managerAfter HookOp.asksTopologyManager fun done => runRefreshes (done.filterMap HookOp.answer?)

def vmManagerAfter : List HookOp → Option (AppRequest × VMManager) :=
  managerAfter HookOp.asksVMManager fun done => (runOps (done.filterMap HookOp.vmOp?)).mgr

/-- The state has what the operations `done` leave. -/
structure MainState.Reflects (daemons : Daemons) (done : List HookOp) (s : MainState) : Prop where
  collection : s.daemonCollection = .ofOption (collectionAfter daemons done)
  daemons : s.daemons = (daemonsAfter daemons done).objects
  topologyManager : s.topologyManager = .ofOption (topologyManagerAfter done)
  vmManager : s.vmManager = .ofOption (vmManagerAfter done)
  statics : s.statics = staticsAfter done

section Snoc

variable (done : List HookOp) (op : HookOp)

theorem staticsAfter_snoc :
    staticsAfter (done ++ [op]) =
      op.configOps.foldl Configuration.Op.perform (staticsAfter done) := by
  rw [staticsAfter, List.flatMap_append, Configuration.runOps, List.foldl_append,
    ← Configuration.runOps]
  simp [staticsAfter]

/-- The first operation that asks for a manager decides on its request. -/
theorem firstRequest_snoc (asks : HookOp → Bool) :
    firstRequest asks (done ++ [op]) = (firstRequest asks done).or
      (if asks op then some (.of (staticsAfter done)) else none) := by
  unfold firstRequest
  -- whoever asks first, `takeWhile` stops there
  by_cases hany : done.any asks = true
  · have hfirst : (done ++ [op]).takeWhile (fun op => !asks op) =
        done.takeWhile fun op => !asks op := by
      rw [List.takeWhile_append, if_neg]
      intro hlen
      obtain ⟨op', hmem, hasks⟩ := List.any_eq_true.mp hany
      have hself := (List.takeWhile_prefix (fun op => !asks op)).eq_of_length hlen
      have hnot := List.takeWhile_eq_self_iff.mp hself op' hmem
      simp [hasks] at hnot
    simp [hany, hfirst]
  · have hnone : ∀ op' ∈ done, (!asks op') = true := by
      intro op' hmem
      cases hasks : asks op' with
      | true => exact absurd (List.any_eq_true.mpr ⟨op', hmem, hasks⟩) hany
      | false => rfl
    rw [List.any_append, List.takeWhile_append_of_pos hnone]
    by_cases hop : asks op = true
    · simp [hany, hop]
    · simp [hany, hop]

theorem collectionAfter_snoc_of_not (daemons : Daemons) (hop : op.asksDaemonCollection = false) :
    collectionAfter daemons (done ++ [op]) = collectionAfter daemons done ∧
      daemonsAfter daemons (done ++ [op]) = daemonsAfter daemons done := by
  have hnone : op.collectionOp? = none := by
    cases op <;> first | rfl | cases hop
  have hdaemons : daemonsAfter daemons (done ++ [op]) = daemonsAfter daemons done := by
    rw [daemonsAfter, List.filterMap_append]
    simp [hnone, daemonsAfter]
  exact ⟨by rw [collectionAfter, hdaemons, List.any_append]; simp [hop, collectionAfter], hdaemons⟩

variable {done op}

theorem managerAfter_snoc_of_not {α : Type} {asks : HookOp → Bool} {value : List HookOp → α}
    (hop : asks op = false) (hvalue : value (done ++ [op]) = value done) :
    managerAfter asks value (done ++ [op]) = managerAfter asks value done := by
  rw [managerAfter, managerAfter, firstRequest_snoc, hop, hvalue]
  simp

theorem topologyManagerAfter_snoc_of_not (hop : op.asksTopologyManager = false) :
    topologyManagerAfter (done ++ [op]) = topologyManagerAfter done := by
  refine managerAfter_snoc_of_not hop ?_
  have hnone : op.answer? = none := by
    cases op <;> first | rfl | cases hop
  simp [hnone]

theorem vmManagerAfter_snoc_of_not (hop : op.asksVMManager = false) :
    vmManagerAfter (done ++ [op]) = vmManagerAfter done := by
  refine managerAfter_snoc_of_not hop ?_
  have hnone : op.vmOp? = none := by
    cases op <;> first | rfl | cases hop
  simp [hnone]

/-- An operation that asks for a manager finds the one there is, or has one created. -/
theorem managerAfter_snoc_of_asks {α : Type} {asks : HookOp → Bool} {value : List HookOp → α}
    (hop : asks op = true) :
    managerAfter asks value (done ++ [op]) = some
      (((firstRequest asks done).getD (.of (staticsAfter done))), value (done ++ [op])) := by
  rw [managerAfter, firstRequest_snoc, hop]
  cases firstRequest asks done <;> rfl

theorem firstRequest_eq_none_iff {asks : HookOp → Bool} :
    firstRequest asks done = none ↔ ∀ op ∈ done, asks op = false := by
  unfold firstRequest
  simp

theorem managerAfter_of_asks {α : Type} {asks : HookOp → Bool} (value : List HookOp → α)
    (h : ∃ op ∈ done, asks op = true) :
    ∃ request, managerAfter asks value done = some (request, value done) := by
  obtain ⟨op, hop, hasks⟩ := h
  cases hfirst : firstRequest asks done with
  | none =>
    rw [firstRequest_eq_none_iff.mp hfirst op hop] at hasks
    cases hasks
  | some request => exact ⟨request, by rw [managerAfter, hfirst]; rfl⟩

/-- The request is that of the first operation that asks. -/
theorem firstRequest_eq_some {asks : HookOp → Bool} {request : AppRequest}
    (h : firstRequest asks done = some request) :
    ∃ pre op post, done = pre ++ op :: post ∧ asks op = true ∧ (∀ op' ∈ pre, asks op' = false) ∧
      request = .of (staticsAfter pre) := by
  unfold firstRequest at h
  split at h
  next hany =>
    cases h
    have hsplit :
        done.takeWhile (fun op => !asks op) ++ done.dropWhile (fun op => !asks op) = done :=
      List.takeWhile_append_dropWhile
    have hpre : ∀ op' ∈ done.takeWhile (fun op => !asks op), asks op' = false := by
      intro op' hop'
      simpa using List.mem_takeWhile_imp hop'
    cases hdrop : done.dropWhile (fun op => !asks op) with
    | nil =>
      obtain ⟨op, hop, hasks⟩ := List.any_eq_true.mp hany
      rw [← hsplit, hdrop, List.append_nil] at hop
      rw [hpre op hop] at hasks
      cases hasks
    | cons op post =>
      have hasks : asks op = true := by
        have hhead := List.head?_dropWhile_not (fun op => !asks op) done
        rw [hdrop] at hhead
        simpa using hhead
      exact ⟨_, op, post, by rw [← hdrop, hsplit], hasks, hpre, rfl⟩
  next => cases h

theorem filterMap_of_firstRequest {α : Type} {asks : HookOp → Bool} {f : HookOp → Option α}
    (hf : ∀ op, asks op = false → f op = none) (h : firstRequest asks done = none) :
    done.filterMap f = [] :=
  List.filterMap_eq_nil_iff.mpr fun op hop => hf op (firstRequest_eq_none_iff.mp h op hop)

theorem managerAfter_getD {α : Type} {asks : HookOp → Bool} {value : List HookOp → α} {init : α}
    (hinit : firstRequest asks done = none → value done = init) (request : AppRequest) :
    (managerAfter asks value done).getD (request, init) =
      ((firstRequest asks done).getD request, value done) := by
  rw [managerAfter]
  cases hfirst : firstRequest asks done with
  | none => rw [hinit hfirst]; rfl
  | some r => rfl

/-- Whoever has asked for a manager has asked for the global object. -/
theorem touched_staticsAfter (h : ∃ op ∈ done, op.configOps = [.getGlobalConfiguration]) :
    (staticsAfter done).touched = staticsAfter done := by
  obtain ⟨op, hop, hconfig⟩ := h
  obtain ⟨pre, post, rfl⟩ := List.append_of_mem hop
  have hprovides : (staticsAfter (pre ++ [op])).Provides CONFIG_APP_INTERVAL :=
    Configuration.foldl_perform_provides _ Configuration.initial_provides_interval
  have htouched : (staticsAfter (pre ++ [op])).globalConfiguration.isSome = true := by
    rw [staticsAfter_snoc, hconfig]
    show (staticsAfter pre).touched.globalConfiguration.isSome = true
    rw [Configuration.touched_eq]
    rfl
  have hsplit : staticsAfter (pre ++ op :: post) =
      (post.flatMap HookOp.configOps).foldl Configuration.Op.perform
        (staticsAfter (pre ++ [op])) := by
    rw [staticsAfter, staticsAfter, Configuration.runOps, Configuration.runOps, ← List.foldl_append,
      ← List.flatMap_append, List.append_assoc]
    rfl
  rw [hsplit]
  exact Configuration.touched_of_isSome (Configuration.foldl_perform_isSome _ hprovides htouched)

end Snoc

/-! ## The getters, one call -/

theorem staticsAfter_provides {option : String}
    (h : Configuration.Statics.initial.Provides option) (done : List HookOp) :
    (staticsAfter done).Provides option :=
  Configuration.foldl_perform_provides _ h

namespace MainState.Reflects

variable {daemons : Daemons} {done : List HookOp} {s : MainState} (h : s.Reflects daemons done)
include h

/-- A manager is made of what is configured when it is first asked for. -/
theorem exec_makeRequest {α : Type} (init : α) :
    exec (do return (← makeRequest, init)) s =
      (.ok (.of (staticsAfter done), init), { s with statics := (staticsAfter done).touched }) := by
  have hprovides : ∀ option, Configuration.Statics.initial.Provides option →
      s.statics.Provides option := by
    intro option hoption
    rw [h.statics]
    exact staticsAfter_provides hoption done
  rw [exec_bind_ok (NebuApp.exec_makeRequest (hprovides _ Configuration.initial_provides_url)
    (hprovides _ Configuration.initial_provides_uuid)), h.statics]
  rfl

/-- A manager that has been asked for before has left the configuration as it would be left. -/
theorem statics_of_asked {α : Type} {asks : HookOp → Bool} {value : List HookOp → α}
    (hconfig : ∀ op, asks op = true → op.configOps = [.getGlobalConfiguration]) :
    (if (managerAfter asks value done).isSome then s
      else { s with statics := (staticsAfter done).touched }) =
      { s with statics := (staticsAfter done).touched } := by
  split
  next hsome =>
    have hasked : ∃ op ∈ done, op.configOps = [.getGlobalConfiguration] := by
      by_contra hnot
      rw [managerAfter, Option.isSome_map, firstRequest_eq_none_iff.mpr] at hsome
      · cases hsome
      · intro op hop
        rw [← Bool.not_eq_true]
        exact fun hasks => hnot ⟨op, hop, hconfig op hasks⟩
    rw [touched_staticsAfter hasked, ← h.statics]
  next => rfl

/-- `getDaemonCollection` in closed form. -/
theorem exec_getDaemonCollection :
    exec getDaemonCollection s = (.ok Lazy.only, { s with
      daemonCollection := .ofOption (some (daemonsAfter daemons done).collection) }) := by
  have hcollection : (collectionAfter daemons done).getD .init =
      (daemonsAfter daemons done).collection := by
    unfold collectionAfter
    split
    next => rfl
    next hnone =>
      -- nobody has asked for the collection, and so nobody has called it
      have hops : done.filterMap HookOp.collectionOp? = [] := by
        refine List.filterMap_eq_nil_iff.mpr fun op hop => ?_
        cases op with
        | onDaemonCollection op => exact absurd (List.any_eq_true.mpr ⟨_, hop, rfl⟩) hnone
        | _ => rfl
      rw [daemonsAfter, hops]
      rfl
  refine (exec_getMember h.collection (exec_pure DaemonCollection.init s) rfl rfl).trans ?_
  rw [hcollection, ite_self]

/-- `getTopologyManager` in closed form. -/
theorem exec_getTopologyManager :
    exec getTopologyManager s = (.ok Lazy.only, { s with
      topologyManager := .ofOption (some
        ((firstRequest HookOp.asksTopologyManager done).getD (.of (staticsAfter done)),
          runRefreshes (done.filterMap HookOp.answer?)))
      statics := (staticsAfter done).touched }) := by
  refine (exec_getMember h.topologyManager (h.exec_makeRequest TopologyManager.init) rfl rfl).trans
    ?_
  rw [topologyManagerAfter, managerAfter_getD, h.statics_of_asked]
  · intro op hasks
    cases op <;> first | rfl | cases hasks
  · intro hfirst
    rw [filterMap_of_firstRequest (fun op hasks => ?_) hfirst]
    · rfl
    · cases op <;> first | rfl | cases hasks

/-- `getVMManager` in closed form. -/
theorem exec_getVMManager :
    exec getVMManager s = (.ok Lazy.only, { s with
      vmManager := .ofOption (some
        ((firstRequest HookOp.asksVMManager done).getD (.of (staticsAfter done)),
          (runOps (done.filterMap HookOp.vmOp?)).mgr))
      statics := (staticsAfter done).touched }) := by
  refine (exec_getMember h.vmManager (h.exec_makeRequest VMManager.init) rfl rfl).trans ?_
  rw [vmManagerAfter, managerAfter_getD, h.statics_of_asked]
  · intro op hasks
    cases op <;> first | rfl | cases hasks
  · intro hfirst
    rw [filterMap_of_firstRequest (fun op hasks => ?_) hfirst]
    · rfl
    · cases op <;> first | rfl | cases hasks

/-! ### The state behind an operation -/

theorem of_asksDaemonCollection {op : HookOp} (hop : op.asksDaemonCollection = true)
    {w : DaemonCollection.World} (hw : daemonsAfter daemons (done ++ [op]) = w) :
    Reflects daemons (done ++ [op])
      { s with daemonCollection := .ofOption (some w.collection), daemons := w.objects } := by
  subst hw
  have htopology : op.asksTopologyManager = false := by
    cases op <;> first | rfl | cases hop
  have hvms : op.asksVMManager = false := by
    cases op <;> first | rfl | cases hop
  refine ⟨?_, rfl, ?_, ?_, ?_⟩
  · simp [collectionAfter, hop]
  · rw [topologyManagerAfter_snoc_of_not htopology]
    exact h.topologyManager
  · rw [vmManagerAfter_snoc_of_not hvms]
    exact h.vmManager
  · rw [staticsAfter_snoc]
    cases op <;> first | exact h.statics | cases hop

theorem of_asksTopologyManager {op : HookOp} (hop : op.asksTopologyManager = true)
    {m : TopologyManager} (hm : runRefreshes ((done ++ [op]).filterMap HookOp.answer?) = m) :
    Reflects daemons (done ++ [op]) { s with
      topologyManager := .ofOption (some
        ((firstRequest HookOp.asksTopologyManager done).getD (.of (staticsAfter done)), m))
      statics := (staticsAfter done).touched } := by
  subst hm
  have hcollection : op.asksDaemonCollection = false := by
    cases op <;> first | rfl | cases hop
  have hvms : op.asksVMManager = false := by
    cases op <;> first | rfl | cases hop
  obtain ⟨hcollection, hdaemons⟩ := collectionAfter_snoc_of_not done op daemons hcollection
  refine ⟨?_, ?_, ?_, ?_, ?_⟩
  · rw [hcollection]
    exact h.collection
  · rw [hdaemons]
    exact h.daemons
  · rw [topologyManagerAfter, managerAfter_snoc_of_asks hop]
  · rw [vmManagerAfter_snoc_of_not hvms]
    exact h.vmManager
  · rw [staticsAfter_snoc]
    cases op <;> first | rfl | cases hop

theorem of_asksVMManager {op : HookOp} (hop : op.asksVMManager = true)
    {m : VMManager} (hm : (runOps ((done ++ [op]).filterMap HookOp.vmOp?)).mgr = m) :
    Reflects daemons (done ++ [op]) { s with
      vmManager := .ofOption (some
        ((firstRequest HookOp.asksVMManager done).getD (.of (staticsAfter done)), m))
      statics := (staticsAfter done).touched } := by
  subst hm
  have hcollection : op.asksDaemonCollection = false := by
    cases op <;> first | rfl | cases hop
  have htopology : op.asksTopologyManager = false := by
    cases op <;> first | rfl | cases hop
  obtain ⟨hcollection, hdaemons⟩ := collectionAfter_snoc_of_not done op daemons hcollection
  refine ⟨?_, ?_, ?_, ?_, ?_⟩
  · rw [hcollection]
    exact h.collection
  · rw [hdaemons]
    exact h.daemons
  · rw [topologyManagerAfter_snoc_of_not htopology]
    exact h.topologyManager
  · rw [vmManagerAfter, managerAfter_snoc_of_asks hop]
  · rw [staticsAfter_snoc]
    cases op <;> first | rfl | cases hop

theorem of_asksNothing {op : HookOp} (hcollection : op.asksDaemonCollection = false)
    (htopology : op.asksTopologyManager = false) (hvms : op.asksVMManager = false) {s' : MainState}
    (hsame : s'.daemonCollection = s.daemonCollection ∧ s'.daemons = s.daemons ∧
      s'.topologyManager = s.topologyManager ∧ s'.vmManager = s.vmManager)
    (hstatics : s'.statics = op.configOps.foldl Configuration.Op.perform s.statics) :
    Reflects daemons (done ++ [op]) s' := by
  obtain ⟨hcollection, hdaemons⟩ := collectionAfter_snoc_of_not done op daemons hcollection
  refine ⟨?_, ?_, ?_, ?_, ?_⟩
  · rw [hsame.1, hcollection, h.collection]
  · rw [hsame.2.1, hdaemons, h.daemons]
  · rw [hsame.2.2.1, topologyManagerAfter_snoc_of_not htopology, h.topologyManager]
  · rw [hsame.2.2.2, vmManagerAfter_snoc_of_not hvms, h.vmManager]
  · rw [hstatics, staticsAfter_snoc, h.statics]

end MainState.Reflects

/-! ## Operations that end the program -/

/-- An operation behind `done` throws: it is a `throw`, it calls `shutdown` on an application that
is not there, or it has the virtual machines refreshed and a handler throws from a removal. -/
def HookOp.Fails (application : Ptr) (done : List HookOp) : HookOp → Prop
  | raise _ => True
  | shutdown => application = none
  | onVMManager (.refreshVMList env) =>
    RemovalThrows (runOps (done.filterMap HookOp.vmOp?)).mgr env
  | _ => False

/-- None of the operations `ops` behind `done` throws. -/
def Succeed (application : Ptr) (done ops : List HookOp) : Prop :=
  ∀ pre op post, ops = pre ++ op :: post → ¬ op.Fails application (done ++ pre)

theorem succeed_cons {application : Ptr} {done rest : List HookOp} {op : HookOp} :
    Succeed application done (op :: rest) ↔
      ¬ op.Fails application done ∧ Succeed application (done ++ [op]) rest := by
  constructor
  · intro h
    refine ⟨by simpa using h [] op rest rfl, fun pre op' post hsplit => ?_⟩
    rw [List.append_assoc]
    exact h (op :: pre) op' post (by rw [hsplit]; rfl)
  · rintro ⟨hop, hrest⟩ pre op' post hsplit
    cases pre with
    | nil =>
      cases hsplit
      simpa using hop
    | cons op₁ pre =>
      rw [List.cons_append, List.cons.injEq] at hsplit
      obtain ⟨rfl, hsplit⟩ := hsplit
      have := hrest pre op' post hsplit
      rwa [List.append_assoc] at this

/-- The exception of an operation behind `done`, if it throws. -/
def HookOp.abort? (application : Ptr) (done : List HookOp) : HookOp → Option MainAbort
  | raise what => some (.raised what)
  | shutdown => if application = none then some .nullDereference else none
  | onVMManager op =>
    match outcome (runOps (done.filterMap HookOp.vmOp?)).mgr op with
    | .ok _ => none
    | .error abort => some (.vmManager abort)
  | _ => none

/-- The first exception of the operations `ops` behind `done`. -/
def firstAbort (application : Ptr) : List HookOp → List HookOp → Option MainAbort
  | _, [] => none
  | done, op :: rest => (op.abort? application done).or (firstAbort application (done ++ [op]) rest)

/-- The operations that are performed of `ops` behind `done`: up to the first that throws, with
it. -/
def upToAbort (application : Ptr) : List HookOp → List HookOp → List HookOp
  | _, [] => []
  | done, op :: rest =>
    op :: if (op.abort? application done).isSome then []
      else upToAbort application (done ++ [op]) rest

theorem abort?_eq_none_iff {application : Ptr} {done : List HookOp} {op : HookOp} :
    op.abort? application done = none ↔ ¬ op.Fails application done := by
  cases op with
  | raise what => exact iff_of_false nofun fun hnot => hnot trivial
  | shutdown => cases application <;> simp [HookOp.abort?, HookOp.Fails]
  | onVMManager op =>
    cases op with
    | registerVMEventHandler eventHandler => exact iff_of_true rfl id
    | refreshVMList env =>
      have houtcome := refresh_outcome (runOps_sound (done.filterMap HookOp.vmOp?)).1 env
      rw [HookOp.abort?, HookOp.outcome, HookOp.Fails]
      by_cases hfails : RemovalThrows (runOps (done.filterMap HookOp.vmOp?)).mgr env
      · obtain ⟨ex, -, hex, -⟩ := houtcome.2 hfails
        simp [hex, hfails, Except.map]
      · obtain ⟨succes, hsucces⟩ := houtcome.1 hfails
        simp [hsucces, hfails, Except.map]
  | _ => exact iff_of_true rfl id

theorem firstAbort_eq_none_iff {application : Ptr} {done ops : List HookOp} :
    firstAbort application done ops = none ↔ Succeed application done ops := by
  induction ops generalizing done with
  | nil =>
    refine iff_of_true rfl fun pre op post hsplit => ?_
    cases pre <;> cases hsplit
  | cons op rest ih =>
    rw [firstAbort, Option.or_eq_none_iff, abort?_eq_none_iff, ih, succeed_cons]

theorem firstAbort_append {application : Ptr} {done ops ops' : List HookOp} :
    firstAbort application done (ops ++ ops') = (firstAbort application done ops).or
      (firstAbort application (done ++ ops) ops') := by
  induction ops generalizing done with
  | nil => rw [List.nil_append, List.append_nil, firstAbort, Option.none_or]
  | cons op rest ih =>
    rw [List.cons_append, firstAbort, ih, firstAbort, Option.or_assoc, List.append_assoc]
    rfl

theorem upToAbort_singleton (application : Ptr) (done : List HookOp) (op : HookOp) :
    upToAbort application done [op] = [op] := by
  rw [upToAbort]
  split <;> rfl

/-- Operations none of which throws are all performed, and what follows them is begun. -/
theorem upToAbort_append_of_none {application : Ptr} {done ops : List HookOp} (ops' : List HookOp)
    (h : firstAbort application done ops = none) :
    upToAbort application done (ops ++ ops') =
      ops ++ upToAbort application (done ++ ops) ops' := by
  induction ops generalizing done with
  | nil => rw [List.append_nil, List.nil_append, List.nil_append]
  | cons op rest ih =>
    rw [firstAbort, Option.or_eq_none_iff] at h
    rw [List.cons_append, upToAbort, h.1, ih h.2, List.append_assoc]
    rfl

/-- What follows an operation that throws is not performed. -/
theorem upToAbort_append_of_some {application : Ptr} {done ops : List HookOp} (ops' : List HookOp)
    {abort : MainAbort} (h : firstAbort application done ops = some abort) :
    upToAbort application done (ops ++ ops') = upToAbort application done ops := by
  induction ops generalizing done with
  | nil => cases h
  | cons op rest ih =>
    rw [List.cons_append, upToAbort, upToAbort]
    cases habort : op.abort? application done with
    | some abort' => rfl
    | none =>
      rw [firstAbort, habort, Option.none_or] at h
      rw [ih h]

theorem upToAbort_subset (application : Ptr) (done ops : List HookOp) :
    upToAbort application done ops ⊆ ops := by
  induction ops generalizing done with
  | nil => exact List.Subset.refl _
  | cons op rest ih =>
    rw [upToAbort]
    split
    next => exact List.cons_subset_cons op (List.nil_subset rest)
    next => exact List.cons_subset_cons op (ih (done ++ [op]))

/-- The applications after an operation: only `shutdown` changes one. -/
def HookOp.applicationsAfter (application : Ptr) (applications : Store ApplicationObject) :
    HookOp → Store ApplicationObject
  | shutdown => application.elim applications fun r =>
    applications.modify r fun object => { object with stopLoop := true }
  | _ => applications

/-- The code `x` returns `a` and does what the operation `op` does. -/
def Yields (daemons : Daemons) (done : List HookOp) (s : MainState) (op : HookOp) {α : Type}
    (x : MainProg α) (a : α) : Prop :=
  ∃ s', exec x s = (.ok a, s') ∧ s'.Reflects daemons (done ++ [op]) ∧
    s'.application = s.application ∧ s'.calls = s.calls ∧
    s'.applications = op.applicationsAfter s.application s.applications

/-- What an operation does that does not throw. -/
def HookOp.Returns (daemons : Daemons) (done : List HookOp) (s : MainState) (op : HookOp) : Prop :=
  Yields daemons done s op op.code ()

section Code

variable {daemons : Daemons} {done : List HookOp} {s : MainState} (h : s.Reflects daemons done)
include h

theorem returns_configure (op : Configuration.Op) :
    HookOp.Returns daemons done s (.configure op) :=
  ⟨_, rfl, h.of_asksNothing rfl rfl rfl ⟨rfl, rfl, rfl, rfl⟩ rfl, rfl, rfl, rfl⟩

theorem returns_getDaemonCollection : HookOp.Returns daemons done s .getDaemonCollection := by
  refine ⟨_, exec_bind_ok h.exec_getDaemonCollection, ?_, rfl, rfl, rfl⟩
  have hsame : daemonsAfter daemons (done ++ [.getDaemonCollection]) =
      ⟨(daemonsAfter daemons done).collection, s.daemons⟩ := by
    rw [h.daemons, daemonsAfter, List.filterMap_append]
    exact congrArg (DaemonCollection.runOps daemons) (List.append_nil _)
  exact h.of_asksDaemonCollection rfl hsame

theorem returns_onDaemonCollection (op : DaemonCollection.Op) :
    HookOp.Returns daemons done s (.onDaemonCollection op) := by
  refine ⟨_, (exec_bind_ok h.exec_getDaemonCollection).trans rfl, ?_, rfl, rfl, rfl⟩
  have hnext : daemonsAfter daemons (done ++ [.onDaemonCollection op]) =
      (op.perform ⟨(daemonsAfter daemons done).collection, s.daemons⟩).2 := by
    rw [h.daemons, daemonsAfter, List.filterMap_append, DaemonCollection.runOps, List.foldl_append]
    rfl
  exact h.of_asksDaemonCollection rfl hnext

theorem yields_getTopologyManager :
    Yields daemons done s .getTopologyManager getTopologyManager Lazy.only := by
  refine ⟨_, h.exec_getTopologyManager, h.of_asksTopologyManager rfl ?_, rfl, rfl, rfl⟩
  rw [List.filterMap_append]
  exact congrArg runRefreshes (List.append_nil _)

theorem yields_getVMManager : Yields daemons done s .getVMManager getVMManager Lazy.only := by
  refine ⟨_, h.exec_getVMManager, h.of_asksVMManager rfl ?_, rfl, rfl, rfl⟩
  rw [List.filterMap_append]
  exact congrArg (fun ops => (runOps ops).mgr) (List.append_nil _)

theorem returns_refreshTopology (answer : Except NebuServerException (Option Topology)) :
    HookOp.Returns daemons done s (.refreshTopology answer) := by
  refine ⟨_, (exec_bind_ok h.exec_getTopologyManager).trans rfl, ?_, rfl, rfl, rfl⟩
  refine h.of_asksTopologyManager rfl ?_
  rw [List.filterMap_append, runRefreshes, List.foldl_append]
  rfl

/-- A call on the virtual machine manager, also where it throws. -/
theorem exec_onVMManager (op : Op) :
    exec (HookOp.onVMManager op).code s =
      ((HookOp.outcome (runOps (done.filterMap HookOp.vmOp?)).mgr op).mapError .vmManager,
        { s with
          vmManager := .ofOption (some
            ((firstRequest HookOp.asksVMManager done).getD (.of (staticsAfter done)),
              (op.perform ⟨(runOps (done.filterMap HookOp.vmOp?)).mgr, []⟩).mgr))
          statics := (staticsAfter done).touched }) := by
  rw [HookOp.code, exec_bind_ok h.exec_getVMManager, exec_bind_ok (exec_get _)]
  simp only [Lazy.get?_ofOption]
  refine (exec_bind_ok rfl).trans ?_
  cases HookOp.outcome (runOps (done.filterMap HookOp.vmOp?)).mgr op <;> rfl

theorem returns_onVMManager {op : Op}
    (hop : HookOp.outcome (runOps (done.filterMap HookOp.vmOp?)).mgr op = .ok ()) :
    HookOp.Returns daemons done s (.onVMManager op) := by
  have hexec := exec_onVMManager h op
  rw [hop] at hexec
  refine ⟨_, hexec, h.of_asksVMManager rfl ?_, rfl, rfl, rfl⟩
  rw [List.filterMap_append, runOps_append]
  rfl

/-- **One operation of a hook** does what the sequence says, or it throws. -/
theorem exec_code (op : HookOp) :
    (op.abort? s.application done = none → op.Returns daemons done s) ∧
    (∀ abort, op.abort? s.application done = some abort →
      ∃ s', exec op.code s = (.error abort, s')) := by
  cases op with
  | configure op => exact ⟨fun _ => returns_configure h op, fun _ hnone => by cases hnone⟩
  | getDaemonCollection =>
    exact ⟨fun _ => returns_getDaemonCollection h, fun _ hnone => by cases hnone⟩
  | onDaemonCollection op =>
    exact ⟨fun _ => returns_onDaemonCollection h op, fun _ hnone => by cases hnone⟩
  | getTopologyManager =>
    obtain ⟨s', hexec, hrest⟩ := yields_getTopologyManager h
    exact ⟨fun _ => ⟨s', exec_bind_ok hexec, hrest⟩, fun _ hnone => by cases hnone⟩
  | refreshTopology answer =>
    exact ⟨fun _ => returns_refreshTopology h answer, fun _ hnone => by cases hnone⟩
  | getVMManager =>
    obtain ⟨s', hexec, hrest⟩ := yields_getVMManager h
    exact ⟨fun _ => ⟨s', exec_bind_ok hexec, hrest⟩, fun _ hnone => by cases hnone⟩
  | onVMManager op =>
    have hexec := exec_onVMManager h op
    rw [HookOp.abort?]
    cases houtcome : HookOp.outcome (runOps (done.filterMap HookOp.vmOp?)).mgr op with
    | ok u => exact ⟨fun _ => returns_onVMManager h houtcome, fun _ hnone => by cases hnone⟩
    | error abort =>
      rw [houtcome] at hexec
      refine ⟨nofun, fun abort' hsome => ?_⟩
      cases hsome
      exact ⟨_, hexec⟩
  | raise what =>
    refine ⟨nofun, fun abort hsome => ⟨s, ?_⟩⟩
    cases hsome
    rfl
  | shutdown =>
    cases happ : s.application with
    | none =>
      refine ⟨nofun, fun abort hsome => ⟨s, ?_⟩⟩
      cases hsome
      rw [HookOp.code, exec_bind_ok (exec_get s), happ]
      rfl
    | some r =>
      refine ⟨fun _ => ?_, fun _ hnone => by cases hnone⟩
      -- the flag of the one `Application` is raised, and nothing else is touched
      refine ⟨{ s with applications := HookOp.shutdown.applicationsAfter (some r) s.applications },
        ?_, h.of_asksNothing rfl rfl rfl ⟨rfl, rfl, rfl, rfl⟩ rfl, rfl, rfl, by rw [happ]⟩
      rw [HookOp.code, exec_bind_ok (exec_get s)]
      split
      next hnone =>
        rw [happ] at hnone
        cases hnone
      next r' hsome =>
        obtain rfl : r = r' := Option.some.inj (happ.symm.trans hsome)
        rfl

end Code

/-- **The code of a hook.** Either none of its operations throws, and it leaves what these say, or
it throws what the first of them does. Induction on the operations. -/
theorem exec_performAll {daemons : Daemons} {done : List HookOp} {s : MainState}
    (h : s.Reflects daemons done) (ops : List HookOp) :
    (firstAbort s.application done ops = none → ∃ s', exec (performAll ops) s = (.ok (), s') ∧
      s'.Reflects daemons (done ++ ops) ∧ s'.application = s.application ∧ s'.calls = s.calls ∧
      s'.applications =
        ops.foldl (fun objects op => op.applicationsAfter s.application objects) s.applications) ∧
    (∀ abort, firstAbort s.application done ops = some abort →
      ∃ s', exec (performAll ops) s = (.error abort, s')) := by
  induction ops generalizing done s with
  | nil => exact ⟨fun _ => ⟨s, rfl, by rwa [List.append_nil], rfl, rfl, rfl⟩, fun _ h => by cases h⟩
  | cons op rest ih =>
    obtain ⟨hreturns, hthrows⟩ := exec_code h op
    rw [firstAbort]
    cases habort : op.abort? s.application done with
    | some abort =>
      refine ⟨nofun, fun abort' hsome => ?_⟩
      cases hsome
      obtain ⟨s', hexec⟩ := hthrows abort habort
      exact ⟨s', exec_bind_error hexec⟩
    | none =>
      obtain ⟨s₁, hexec, hreflects, happlication, hcalls, happlications⟩ := hreturns habort
      -- no operation sets `application`, so that the rest finds the same
      obtain ⟨hrest, hrest'⟩ := ih hreflects
      rw [happlication] at hrest hrest'
      rw [Option.none_or]
      refine ⟨fun hnone => ?_, fun abort hsome => ?_⟩
      · obtain ⟨s₂, hexec₂, hreflects₂, happlication₂, hcalls₂, happlications₂⟩ := hrest hnone
        refine ⟨s₂, (exec_bind_ok hexec).trans hexec₂, ?_, happlication₂, hcalls₂.trans hcalls, ?_⟩
        · rwa [List.append_assoc] at hreflects₂
        · rw [happlications₂, happlications]
          rfl
      · obtain ⟨s₂, hexec₂⟩ := hrest' abort hsome
        exact ⟨s₂, (exec_bind_ok hexec).trans hexec₂⟩

end NebuApp
