import NebuApp.Main.Hooks
import NebuApp.Application.Managers

/-!
# From `main` to the loop

Everything `main` does before its loop is an operation on what the hooks share, so that it can be
read as one sequence of operations: `HookCode.opsBefore` up to the construction of the application
(`performs_before`), then the registration of the daemon manager and the hook `setApplication`
(`exec_behind`).
-/

namespace NebuApp

open Exec Flags

/-! ## One sequence of operations -/

/-- The operations of a getter. -/
def HookCode.opsOf (code : HookCode) : Getter → List HookOp
  | .daemonManager => code.getDaemonManager
  | .topologyManager => [.getTopologyManager]
  | .vmManager => [.getVMManager]

/-- What a getter returns. -/
def HookCode.valueOf (code : HookCode) : Getter → Ref
  | .daemonManager => code.daemonManager
  | .topologyManager | .vmManager => Lazy.only

/-- The call of a getter that the hooks have to provide. -/
def Getter.call? : Getter → Option HookCall
  | .daemonManager => some .getDaemonManager
  | .topologyManager | .vmManager => none

/-- The operations up to `initialise`. -/
def HookCode.opsInitialise (code : HookCode) (args : List String) : List HookOp :=
  code.registerConfigurationOptions ++ .configure (.fromArguments args) ::
    (code.prepareLogging ++ code.initialise)

/-- The operations up to the construction of the application. -/
def HookCode.opsBefore (code : HookCode) (order : List Getter) (args : List String) : List HookOp :=
  code.opsInitialise args ++ order.flatMap code.opsOf

/-- A state of `main` before it has an application: the operations `done`, and the calls made. -/
structure MainState.Before (daemons : Daemons) (done : List HookOp) (calls : List HookCall)
    (s : MainState) : Prop where
  reflects : s.Reflects daemons done
  application : s.application = none
  applications : s.applications = .empty
  calls : s.calls = calls

/-- Code before the construction of the application performs `ops` and comes back with `a`, or it
throws what the first of these throws. -/
structure Performs (daemons : Daemons) {α : Type} (result : Except MainAbort α × MainState)
    (done ops : List HookOp) (a : α) (calls : List HookCall) : Prop where
  returns : firstAbort none done ops = none →
    ∃ s, result = (.ok a, s) ∧ s.Before daemons (done ++ ops) calls
  throws : ∀ abort, firstAbort none done ops = some abort → ∃ s, result = (.error abort, s)

section Performs

variable {daemons : Daemons} {done : List HookOp} {calls : List HookCall} {s : MainState}
  (h : s.Before daemons done calls)

theorem Performs.bind {α β : Type} {x : MainProg α} {f : α → MainProg β} {ops ops' : List HookOp}
    {a : α} {b : β} {calls calls' : List HookCall}
    (hx : Performs daemons (exec x s) done ops a calls)
    (hf : ∀ s', s'.Before daemons (done ++ ops) calls →
      Performs daemons (exec (f a) s') (done ++ ops) ops' b calls') :
    Performs daemons (exec (x >>= f) s) done (ops ++ ops') b calls' := by
  constructor
  · intro hnone
    rw [firstAbort_append, Option.or_eq_none_iff] at hnone
    obtain ⟨s₁, hexec, hbefore⟩ := hx.returns hnone.1
    obtain ⟨s₂, hexec₂, hbefore₂⟩ := (hf s₁ hbefore).returns hnone.2
    rw [List.append_assoc] at hbefore₂
    exact ⟨s₂, (exec_bind_ok hexec).trans hexec₂, hbefore₂⟩
  · intro abort hsome
    rw [firstAbort_append] at hsome
    cases hops : firstAbort none done ops with
    | none =>
      rw [hops, Option.none_or] at hsome
      obtain ⟨s₁, hexec, hbefore⟩ := hx.returns hops
      obtain ⟨s₂, hexec₂⟩ := (hf s₁ hbefore).throws abort hsome
      exact ⟨s₂, (exec_bind_ok hexec).trans hexec₂⟩
    | some abort' =>
      rw [hops] at hsome
      cases hsome
      obtain ⟨s₁, hexec⟩ := hx.throws abort hops
      exact ⟨s₁, exec_bind_error hexec⟩

include h

theorem performs_pure {α : Type} (a : α) : Performs daemons (exec (pure a) s) done [] a calls :=
  ⟨fun _ => ⟨s, rfl, by rwa [List.append_nil]⟩, fun _ hsome => by cases hsome⟩

theorem performs_noteCall {β : Type} {f : MainProg β} {call : HookCall} {ops : List HookOp} {b : β}
    {calls' : List HookCall} (hf : ∀ s', s'.Before daemons done (calls ++ [call]) →
      Performs daemons (exec f s') done ops b calls') :
    Performs daemons (exec (noteCall call >>= fun _ => f) s) done ops b calls' := by
  obtain ⟨hcollection, hdaemons, htopology, hvms, hstatics⟩ := h.reflects
  exact hf { s with calls := s.calls ++ [call] }
    ⟨⟨hcollection, hdaemons, htopology, hvms, hstatics⟩, h.application, h.applications,
      by rw [← h.calls]⟩

theorem performs_performAll (ops : List HookOp) :
    Performs daemons (exec (performAll ops) s) done ops () calls := by
  obtain ⟨hreturns, hthrows⟩ := exec_performAll h.reflects ops
  rw [h.application] at hreturns hthrows
  refine ⟨fun hnone => ?_, hthrows⟩
  obtain ⟨s', hexec, hreflects, happlication, hcalls, happlications⟩ := hreturns hnone
  have hnone : ∀ (ops : List HookOp) objects,
      ops.foldl (fun objects op => HookOp.applicationsAfter none objects op) objects = objects := by
    intro ops
    induction ops with
    | nil => exact fun _ => rfl
    | cons op rest ih =>
      intro objects
      cases op <;> exact ih objects
  exact ⟨s', hexec, hreflects, happlication, by rw [happlications, hnone, h.applications],
    hcalls.trans h.calls⟩

theorem performs_of_yields {α : Type} {op : HookOp} {x : MainProg α} {a : α}
    (hx : Yields daemons done s op x a) (hop : ∀ done, op.abort? none done = none) :
    Performs daemons (exec x s) done [op] a calls := by
  have hnone : firstAbort none done [op] = none := by
    rw [firstAbort, hop, Option.none_or]
    rfl
  refine ⟨fun _ => ?_, fun abort hsome => by cases hnone.symm.trans hsome⟩
  obtain ⟨s', hexec, hreflects, happlication, hcalls, happlications⟩ := hx
  refine ⟨s', hexec, hreflects, happlication.trans h.application, ?_, hcalls.trans h.calls⟩
  rw [happlications, h.application, h.applications]
  cases op <;> rfl

/-- The command line is parsed with the flags registered so far. -/
theorem performs_parseArguments (argc : Int32) (argv : Nat → String)
    {segs : List (Segment String)} (hsegs : Parses (staticsAfter done).IsFlag
      (Configuration.mainArguments argc argv) segs) :
    Performs daemons (exec (parseArguments argc argv) s) done
      [.configure (.fromArguments (Configuration.mainArguments argc argv))] (positionals segs)
      calls := by
  have hlen := Configuration.length_mainArguments_lt argc argv
  rw [← h.reflects.statics] at hsegs
  have hrun := Configuration.run_fromArguments hsegs hlen (Nat.lt_succ_self _)
  have hperform := Configuration.perform_fromArguments hsegs hlen
  let statics := Configuration.Op.perform s.statics
    (.fromArguments (Configuration.mainArguments argc argv))
  have hlift : exec (liftStatics (Configuration.fromArguments
      ((Configuration.mainArguments argc argv).length + 1) (Configuration.mainArguments argc argv)))
      s = (.ok (some (positionals segs)), { s with statics := statics }) := by
    rw [exec_liftStatics, hrun, show statics = _ from hperform]
  refine performs_of_yields h ⟨_, (exec_bind_ok hlift).trans rfl, ?_, rfl, rfl, rfl⟩ fun _ => rfl
  exact h.reflects.of_asksNothing rfl rfl rfl ⟨rfl, rfl, rfl, rfl⟩ rfl

theorem performs_evaluate (code : HookCode) (getter : Getter) :
    Performs daemons (exec (code.evaluate getter) s) done (code.opsOf getter)
      (code.valueOf getter) (calls ++ getter.call?.toList) := by
  cases getter with
  | daemonManager =>
    refine performs_noteCall h fun s₁ h₁ => ?_
    have hcode := Performs.bind (f := fun _ => pure code.daemonManager)
      (performs_performAll h₁ code.getDaemonManager) fun s₂ h₂ => performs_pure h₂ _
    rwa [List.append_nil] at hcode
  | topologyManager =>
    have hyields := yields_getTopologyManager h.reflects
    rw [Getter.call?, Option.toList_none, List.append_nil]
    exact performs_of_yields h hyields fun _ => rfl
  | vmManager =>
    have hyields := yields_getVMManager h.reflects
    rw [Getter.call?, Option.toList_none, List.append_nil]
    exact performs_of_yields h hyields fun _ => rfl

end Performs

/-- **The arguments of the constructor**, in any order. Induction on the getters. -/
theorem performs_evaluateAll {daemons : Daemons} (code : HookCode) (order : List Getter)
    {done : List HookOp} {calls : List HookCall} {s : MainState} (h : s.Before daemons done calls)
    (values : Getter → Ref) :
    Performs daemons (exec (code.evaluateAll order values) s) done (order.flatMap code.opsOf)
      (fun getter => if getter ∈ order then code.valueOf getter else values getter)
      (calls ++ order.filterMap Getter.call?) := by
  induction order generalizing done calls s values with
  | nil =>
    rw [List.filterMap_nil, List.append_nil]
    exact performs_pure h _
  | cons getter rest ih =>
    have hcode : Performs daemons (exec (code.evaluate getter >>= fun value =>
        code.evaluateAll rest (Function.update values getter value)) s) _ _ _ _ :=
      Performs.bind (performs_evaluate h code getter) fun s₁ h₁ =>
        ih h₁ (Function.update values getter (code.valueOf getter))
    have hvalues : (fun g => if g ∈ getter :: rest then code.valueOf g else values g) =
        fun g => if g ∈ rest then code.valueOf g
          else Function.update values getter (code.valueOf getter) g := by
      funext g
      by_cases hg : g = getter
      · subst hg
        simp
      · simp [hg]
    have hcalls : calls ++ (getter :: rest).filterMap Getter.call? =
        calls ++ getter.call?.toList ++ rest.filterMap Getter.call? := by
      cases getter with
      | daemonManager => simp [Getter.call?]
      | topologyManager | vmManager => rw [List.filterMap_cons_none rfl]; simp [Getter.call?]
    rw [hvalues, hcalls]
    exact hcode

/-! ## The two halves of `main` -/

/-- `main` up to the construction of the application. -/
def HookCode.before (code : HookCode) (order : List Getter) (argc : Int32) (argv : Nat → String) :
    MainProg (Getter → Ref) := do
  noteCall .registerConfigurationOptions
  performAll code.registerConfigurationOptions
  let arguments ← parseArguments argc argv
  noteCall .prepareLogging
  performAll code.prepareLogging
  noteCall (.initialise (argv 0) arguments)
  performAll code.initialise
  code.evaluateAll order fun _ => 0

/-- `main` from the construction of the application to its loop. -/
def HookCode.behind (code : HookCode) (values : Getter → Ref) : MainProg Ref := do
  let application ←
    makeApplication (values .daemonManager) (values .topologyManager) (values .vmManager)
  setApplicationHooks application
  NebuApp.setApplication code application
  pure application

theorem start_eq (code : HookCode) (order : List Getter) (argc : Int32) (argv : Nat → String) :
    start code order argc argv = code.before order argc argv >>= code.behind := by
  simp only [start, HookCode.before, bind_assoc]
  rfl

/-- The calls on the hooks up to the construction of the application. -/
def hookCalls (command : String) (arguments : List String) (order : List Getter) : List HookCall :=
  [.registerConfigurationOptions, .prepareLogging, .initialise command arguments] ++
    order.filterMap Getter.call?

theorem before_initial (daemons : Daemons) : (MainState.initial daemons).Before daemons [] [] :=
  ⟨⟨rfl, rfl, rfl, rfl, rfl⟩, rfl, rfl, rfl⟩

theorem performs_before (daemons : Daemons) (code : HookCode) (order : List Getter) (argc : Int32)
    (argv : Nat → String) {segs : List (Segment String)}
    (hsegs : Parses (staticsAfter code.registerConfigurationOptions).IsFlag
      (Configuration.mainArguments argc argv) segs) :
    Performs daemons (exec (code.before order argc argv) (.initial daemons)) []
      (code.opsBefore order (Configuration.mainArguments argc argv))
      (fun getter => if getter ∈ order then code.valueOf getter else 0)
      (hookCalls (argv 0) (positionals segs) order) := by
  refine performs_noteCall (before_initial daemons) fun s₁ h₁ => ?_
  have hall : code.opsBefore order (Configuration.mainArguments argc argv) =
      code.registerConfigurationOptions ++
        ([.configure (.fromArguments (Configuration.mainArguments argc argv))] ++
          (code.prepareLogging ++ (code.initialise ++ order.flatMap code.opsOf))) := by
    simp [HookCode.opsBefore, HookCode.opsInitialise]
  rw [hall]
  refine Performs.bind (performs_performAll h₁ _) fun s₂ h₂ => ?_
  refine Performs.bind (performs_parseArguments h₂ argc argv hsegs) fun s₃ h₃ => ?_
  refine performs_noteCall h₃ fun s₄ h₄ => ?_
  refine Performs.bind (performs_performAll h₄ _) fun s₅ h₅ => ?_
  refine performs_noteCall h₅ fun s₆ h₆ => ?_
  refine Performs.bind (performs_performAll h₆ _) fun s₇ h₇ => ?_
  exact performs_evaluateAll code order h₇ fun _ => 0

/-- The operation calls `shutdown`. -/
def HookOp.isShutdown : HookOp → Bool
  | shutdown => true
  | _ => false

/-- The application behind the hook `setApplication`: the calls of `shutdown` add up to one. -/
theorem applications_setApplication (ops : List HookOp) (object : ApplicationObject) :
    ops.foldl (fun objects op => op.applicationsAfter (some Lazy.only) objects)
        (Store.alloc .empty object) =
      Store.alloc .empty
        { object with stopLoop := object.stopLoop || ops.any HookOp.isShutdown } := by
  induction ops generalizing object with
  | nil => simp
  | cons op rest ih =>
    rw [List.foldl_cons, List.any_cons]
    cases op with
    | shutdown =>
      refine (ih { object with stopLoop := true }).trans ?_
      simp [HookOp.isShutdown]
    | _ => exact ih object

/-- The constructor registers the daemon manager, as an operation of a hook would. -/
theorem reflects_registered {daemons : Daemons} {done : List HookOp} {s s' : MainState}
    (h : s.Reflects daemons done) (hasked : ∃ op ∈ done, op.asksVMManager = true)
    (daemonManager : Ref)
    (hsame : s'.daemonCollection = s.daemonCollection ∧ s'.daemons = s.daemons ∧
      s'.topologyManager = s.topologyManager ∧ s'.statics = s.statics)
    (hvms : s'.vmManager = s.vmManager.modify Lazy.only fun manager =>
      (manager.1, manager.2.registerVMEventHandler daemonManager)) :
    s'.Reflects daemons (done ++ [.onVMManager (.registerVMEventHandler daemonManager)]) := by
  obtain ⟨op, hop, hasks⟩ := hasked
  have hconfig : op.configOps = [.getGlobalConfiguration] := by
    cases op <;> first | rfl | cases hasks
  have hstatics := touched_staticsAfter ⟨op, hop, hconfig⟩
  have hmgr : (runOps
      ((done ++ [HookOp.onVMManager (.registerVMEventHandler daemonManager)]).filterMap
        HookOp.vmOp?)).mgr =
      (runOps (done.filterMap HookOp.vmOp?)).mgr.registerVMEventHandler daemonManager := by
    rw [List.filterMap_append, runOps_append]
    rfl
  obtain ⟨hcollection, hdaemons, htopology, hvms', hstatics'⟩ := h.of_asksVMManager rfl hmgr
  refine ⟨hsame.1.trans hcollection, hsame.2.1.trans hdaemons, hsame.2.2.1.trans htopology, ?_, ?_⟩
  · rw [hvms, h.vmManager, Lazy.modify_ofOption, ← hvms', vmManagerAfter, managerAfter]
    cases hfirst : firstRequest HookOp.asksVMManager done with
    | some request => rfl
    | none =>
      rw [firstRequest_eq_none_iff.mp hfirst op hop] at hasks
      cases hasks
  · rw [hsame.2.2.2, h.statics, ← hstatics', hstatics]

/-- The second half of `main`, once the hooks have been asked for both managers. -/
theorem exec_behind {daemons : Daemons} {done : List HookOp} {calls : List HookCall} {s : MainState}
    (h : s.Before daemons done calls) (hvms : ∃ op ∈ done, op.asksVMManager = true)
    (code : HookCode) :
    let abort? := firstAbort (some Lazy.only)
      (done ++ [.onVMManager (.registerVMEventHandler code.daemonManager)]) code.setApplication
    (abort? = none →
      ∃ s', exec (code.behind code.valueOf) s = (.ok Lazy.only, s') ∧
        s'.Reflects daemons (done ++ .onVMManager (.registerVMEventHandler code.daemonManager) ::
          code.setApplication) ∧
        s'.applications = .alloc .empty ⟨code.setApplication.any HookOp.isShutdown,
          code.daemonManager, Lazy.only, Lazy.only, true⟩ ∧
        s'.application = some Lazy.only ∧ s'.calls = calls ++ [.setApplication Lazy.only]) ∧
    (∀ abort, abort? = some abort →
      ∃ s', exec (code.behind code.valueOf) s = (.error abort, s')) := by
  intro abort?
  -- what the constructor and `setApplicationHooks` leave to the code of the last hook
  let s₁ : MainState := { s with
    vmManager := s.vmManager.modify Lazy.only fun manager =>
      (manager.1, manager.2.registerVMEventHandler code.daemonManager)
    applications := .alloc .empty ⟨false, code.daemonManager, Lazy.only, Lazy.only, true⟩
    calls := calls ++ [.setApplication Lazy.only]
    application := some Lazy.only }
  have hexec : exec (code.behind code.valueOf) s =
      exec (performAll code.setApplication >>= fun _ => pure Lazy.only) s₁ := by
    obtain ⟨-, -, happlications, hcalls⟩ := h
    obtain ⟨_, _, _, _, _, _, _, _⟩ := s
    cases happlications
    cases hcalls
    rfl
  have hreflects : s₁.Reflects daemons _ :=
    reflects_registered h.reflects hvms code.daemonManager ⟨rfl, rfl, rfl, rfl⟩ rfl
  obtain ⟨hreturns, hthrows⟩ := exec_performAll hreflects code.setApplication
  rw [hexec]
  refine ⟨fun hnone => ?_, fun abort hsome => ?_⟩
  · obtain ⟨s₂, hexec₂, hreflects₂, happlication₂, hcalls₂, happlications₂⟩ := hreturns hnone
    refine ⟨s₂, exec_bind_ok hexec₂, ?_, ?_, happlication₂, hcalls₂⟩
    · rwa [List.append_assoc] at hreflects₂
    · exact happlications₂.trans (applications_setApplication code.setApplication _)
  · obtain ⟨s₂, hexec₂⟩ := hthrows abort hsome
    exact ⟨s₂, exec_bind_error hexec₂⟩

end NebuApp
