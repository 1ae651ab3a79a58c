import NebuApp.Config.Runs
import NebuApp.Lib.Store

/-!
# Configurations behind pointers

`getGlobalConfiguration` hands out a `shared_ptr`, which code may keep. Until now the pointer to the
global object was modelled by the object. Here it is a pointer: code may go on using the object it
got after `fromArguments` has put another one in its place, make objects of its own, and set the
pointer to any of them. `global_by_value` says what the model without pointers then stands for,
`object_resolves` which value an option of any object has.
-/

namespace NebuApp

namespace Configuration

open Flags Search

/-- The static members, with the objects made. -/
structure Members where
  objects : Store Configuration
  globalConfiguration : Ptr
  commandLineOptions : UnorderedMap String String
  defaultValues : UnorderedMap String String

namespace Members

/-- The values the program starts with. -/
def initial : Members where
  objects := .empty
  globalConfiguration := none
  commandLineOptions := Statics.initial.commandLineOptions
  defaultValues := Statics.initial.defaultValues

/-- The static members, with the object in place of the pointer to it. -/
def statics (m : Members) : Statics :=
  ⟨m.objects.deref? m.globalConfiguration, m.commandLineOptions, m.defaultValues⟩

end Members

namespace Shared

/-! ## The class -/

/-- Code of the class, and of those who use it. -/
abbrev Code := StateM Members

/-- `make_shared<Configuration>()`. -/
def makeShared : Code Ref := do
  let m ← get
  set { m with objects := m.objects.alloc ⟨m.defaultValues⟩ }
  return m.objects.next

/-- `Configuration::setGlobalConfiguration`. -/
def setGlobalConfiguration (configuration : Ptr) : Code Unit :=
  modify fun m => { m with globalConfiguration := configuration }

/-- `Configuration::getGlobalConfiguration`. -/
def getGlobalConfiguration : Code Ref := do
  match (← get).globalConfiguration with
  | some configuration => return configuration
  | none =>
    let configuration ← makeShared
    setGlobalConfiguration (some configuration)
    return configuration

/-- A member function that changes the object it is called on. -/
def onObject (object : Ref) (f : Configuration → Configuration) : Code Unit :=
  modify fun m => { m with objects := m.objects.modify object f }

/-- `Configuration::addCommandLineOption`. -/
def addCommandLineOption (cmd optionName : String) : Code Unit :=
  modify fun m => { m with commandLineOptions := m.commandLineOptions.insert cmd optionName }

/-- `Configuration::addDefaultValue`. -/
def addDefaultValue (optionName defaultValue : String) : Code Unit :=
  modify fun m => { m with defaultValues := m.defaultValues.insert optionName defaultValue }

/-- `Configuration::commandLineOptions[arg]`. -/
def commandLineOption (arg : String) : Code String := do
  match (← get).commandLineOptions.lookup arg with
  | some option => return option
  | none =>
    addCommandLineOption arg ""
    return ""

/-- The loop of `fromArguments`, on the object behind `cfg`. -/
def fromArgumentsLoop : Nat → List String → Ref → UInt32 → Code (Option (List String))
  | 0, _, _, _ => return none
  | fuel + 1, args, cfg, index => do
    if h : index.toNat < args.length then
      let arg := args.get ⟨index.toNat, h⟩
      if arg ∈ (← get).commandLineOptions then
        let option ← commandLineOption arg
        let value := if h' : (index + 1).toNat < args.length then
          args.get ⟨(index + 1).toNat, h'⟩ else ""
        onObject cfg fun c => c.setOption option value
        let args := if (index + 1).toNat < args.length then
          erase args index.toNat 2 else erase args index.toNat 1
        fromArgumentsLoop fuel args cfg index
      else
        fromArgumentsLoop fuel args cfg (index + 1)
    else
      return some args

/-- `Configuration::fromArguments`: the vector it leaves, or `none` when `fuel` does not suffice. -/
def fromArguments (fuel : Nat) (args : List String) : Code (Option (List String)) := do
  let cfg ← makeShared
  match ← fromArgumentsLoop fuel args cfg 0 with
  | some args =>
    setGlobalConfiguration (some cfg)
    return some args
  | none => return none

/-! ## Operations -/

/-- What may change the options of an object. `readOption` and `assignOption` are the two uses of
`operator[]`. -/
inductive Access where
  | setOption (option value : String)
  | readOption (option : String)
  | assignOption (option value : String)

/-- The object behind an access. -/
def Access.run (c : Configuration) : Access → Configuration
  | setOption option value => c.setOption option value
  | readOption option => (c.index option).2
  | assignOption option value => (c.index option).2.setOption option value

/-- The access, as an operation on the global object. -/
def Access.op : Access → Configuration.Op
  | setOption option value => .setOption option value
  | readOption option => .readOption option
  | assignOption option value => .assignOption option value

/-- An operation of the program. A pointer that is kept is used by `onObject`, whatever object it
points to; `onGlobal` asks for the global object each time. -/
inductive Op where
  | addCommandLineOption (cmd optionName : String)
  | addDefaultValue (optionName defaultValue : String)
  | fromArguments (args : List String)
  | makeShared
  | getGlobalConfiguration
  | setGlobalConfiguration (configuration : Ptr)
  | onGlobal (access : Access)
  | onObject (object : Ref) (access : Access)

/-- The code of an operation. -/
def Op.code : Op → Code Unit
  | addCommandLineOption cmd optionName => Shared.addCommandLineOption cmd optionName
  | addDefaultValue optionName defaultValue => Shared.addDefaultValue optionName defaultValue
  | fromArguments args => do
    let _ ← Shared.fromArguments (args.length + 1) args
  | makeShared => do
    let _ ← Shared.makeShared
  | getGlobalConfiguration => do
    let _ ← Shared.getGlobalConfiguration
  | setGlobalConfiguration configuration => Shared.setGlobalConfiguration configuration
  | onGlobal access => do
    let object ← Shared.getGlobalConfiguration
    Shared.onObject object (access.run ·)
  | onObject object access => Shared.onObject object (access.run ·)

/-- The members after an operation. -/
def Op.perform (m : Members) (op : Op) : Members := (op.code.run m).2

/-- The members after a sequence of operations of the program. -/
def runOps (ops : List Op) : Members := ops.foldl Op.perform .initial

theorem runOps_concat (ops : List Op) (op : Op) :
    runOps (ops ++ [op]) = op.perform (runOps ops) := by
  rw [runOps, List.foldl_append]
  rfl

/-! ## What an operation does -/

end Shared

namespace Members

variable (m : Members)

/-- The object `getGlobalConfiguration` returns: the next one, if there is none. -/
def global : Ref := m.globalConfiguration.getD m.objects.next

/-- The members once the global object has been asked for. -/
def touched : Members :=
  match m.globalConfiguration with
  | some _ => m
  | none =>
    { m with
      objects := m.objects.alloc ⟨m.defaultValues⟩
      globalConfiguration := some m.objects.next }

/-- The members with an object changed. -/
def onObject (object : Ref) (f : Configuration → Configuration) : Members :=
  { m with objects := m.objects.modify object f }

theorem onObject_onObject (object : Ref) (f g : Configuration → Configuration) :
    (m.onObject object f).onObject object g = m.onObject object (g ∘ f) := by
  simp [onObject, Store.modify, List.modify_modify_eq]

theorem onObject_const {object : Ref} {c : Configuration} (h : m.objects.get? object = some c) :
    m.onObject object (fun _ => c) = m := by
  have hcells : m.objects.cells.modify object (fun _ => c) = m.objects.cells := by
    refine List.ext_getElem? fun i => ?_
    by_cases hi : object = i
    · rw [← hi, List.getElem?_modify_eq, show m.objects.cells[object]? = some c from h]
      rfl
    · exact List.getElem?_modify_ne _ _ hi
  rw [onObject, Store.modify, hcells]

end Members

namespace Shared

theorem run_getGlobalConfiguration (m : Members) :
    getGlobalConfiguration.run m = (m.global, m.touched) := by
  obtain ⟨objects, configuration, flags, defaults⟩ := m
  cases configuration <;> rfl

theorem perform_onGlobal (m : Members) (access : Access) :
    (Op.onGlobal access).perform m = m.touched.onObject m.global (access.run ·) := by
  simp only [Op.perform, Op.code, StateT.run_bind, run_getGlobalConfiguration]
  rfl

theorem perform_getGlobalConfiguration (m : Members) :
    Op.getGlobalConfiguration.perform m = m.touched := by
  simp only [Op.perform, Op.code, StateT.run_bind, run_getGlobalConfiguration]
  rfl

theorem run_eq_update (access : Access) (c : Configuration) :
    access.run c = access.op.update c := by
  cases access <;> rfl

/-! ## The command line -/

theorem run_commandLineOption {m : Members} {flag option : String}
    (hflag : m.commandLineOptions.lookup flag = some option) :
    (commandLineOption flag).run m = (option, m) := by
  simp only [commandLineOption, StateT.run_bind, StateT.run_get, pure_bind, hflag]
  rfl

/-- **The loop on an object follows the loop on its value.** It changes this object and nothing
else. Induction on the fuel. -/
theorem run_loop_object {s : Statics} (fuel : Nat) :
    ∀ (args : List String) (object : Ref) (c : Configuration) (index : UInt32) (m : Members),
      m.commandLineOptions = s.commandLineOptions → m.objects.get? object = some c →
        ∃ result c', (Configuration.fromArgumentsLoop fuel args c index).run s = (result, s) ∧
          (fromArgumentsLoop fuel args object index).run m =
            (result.map (·.1), m.onObject object fun _ => c') ∧
          ∀ left ∈ result, left.2 = c' := by
  induction fuel with
  | zero =>
    intro args object c index m _ hobject
    refine ⟨none, c, rfl, ?_, fun _ h => by cases h⟩
    rw [m.onObject_const hobject]
    rfl
  | succ fuel ih =>
    intro args object c index m hflags hobject
    by_cases hlt : index.toNat < args.length
    · by_cases hmem : args.get ⟨index.toNat, hlt⟩ ∈ s.commandLineOptions
      · obtain ⟨option, hlookup⟩ := Option.isSome_iff_exists.mp (AList.lookup_isSome.mpr hmem)
        -- a flag: both loops write its option, one of them in place
        let value := if h' : (index + 1).toNat < args.length then
          args.get ⟨(index + 1).toNat, h'⟩ else ""
        let left := if (index + 1).toNat < args.length then
          erase args index.toNat 2 else erase args index.toNat 1
        let m' := m.onObject object fun c => c.setOption option value
        have hobject' : m'.objects.get? object = some (c.setOption option value) := by
          simp [m', Members.onObject, hobject]
        obtain ⟨result, c', hvalue, hshared, hleft⟩ :=
          ih left object (c.setOption option value) index m' hflags hobject'
        refine ⟨result, c', ?_, ?_, hleft⟩
        · rw [Configuration.fromArgumentsLoop, dif_pos hlt]
          show (if _ ∈ s.commandLineOptions then _ else _ : Configuration.Code _).run s = _
          rw [if_pos hmem, StateT.run_bind, Configuration.run_commandLineOption hlookup]
          exact hvalue
        · rw [fromArgumentsLoop, dif_pos hlt]
          show (if _ ∈ m.commandLineOptions then _ else _ : Code _).run m = _
          rw [hflags, if_pos hmem, StateT.run_bind, run_commandLineOption (by rw [hflags, hlookup])]
          -- the later value overwrites the earlier one
          have hback : m'.onObject object (fun _ => c') = m.onObject object fun _ => c' :=
            m.onObject_onObject object _ _
          rw [← hback]
          exact hshared
      · obtain ⟨result, c', hvalue, hshared, hleft⟩ := ih args object c (index + 1) m hflags hobject
        refine ⟨result, c', ?_, ?_, hleft⟩
        · rw [Configuration.fromArgumentsLoop, dif_pos hlt]
          show (if _ ∈ s.commandLineOptions then _ else _ : Configuration.Code _).run s = _
          rw [if_neg hmem]
          exact hvalue
        · rw [fromArgumentsLoop, dif_pos hlt]
          show (if _ ∈ m.commandLineOptions then _ else _ : Code _).run m = _
          rw [hflags, if_neg hmem]
          exact hshared
    · refine ⟨some (args, c), c, ?_, ?_, fun left h => by cases h; rfl⟩
      · rw [Configuration.fromArgumentsLoop, dif_neg hlt]
        rfl
      · rw [fromArgumentsLoop, dif_neg hlt, m.onObject_const hobject]
        rfl

/-- `fromArguments` on objects and on values. Both put the same object in place of the global one,
if their loop ends. -/
theorem perform_fromArguments (m : Members) (args : List String) :
    ∃ (result : Option (List String × Configuration)) (c : Configuration),
      (∀ left ∈ result, left.2 = c) ∧
      (Configuration.fromArgumentsLoop (args.length + 1) args ⟨m.defaultValues⟩ 0).run m.statics =
        (result, m.statics) ∧
      (Op.fromArguments args).perform m =
        { m with
          objects := m.objects.alloc c
          globalConfiguration := if result.isSome then some m.objects.next else
            m.globalConfiguration } := by
  let made : Members := { m with objects := m.objects.alloc ⟨m.defaultValues⟩ }
  obtain ⟨result, c, hvalue, hloop, hleft⟩ :=
    run_loop_object (s := m.statics) (args.length + 1) args m.objects.next ⟨m.defaultValues⟩ 0 made
      rfl (m.objects.get?_alloc_next _)
  refine ⟨result, c, hleft, hvalue, ?_⟩
  have hmake : makeShared.run m = pure (m.objects.next, made) := rfl
  have hloop' : (fromArgumentsLoop (args.length + 1) args m.objects.next 0).run made =
      pure (result.map (·.1), { m with objects := m.objects.alloc c }) := by
    rw [hloop, Members.onObject, m.objects.modify_alloc_next]
    rfl
  simp only [Op.perform, Op.code, fromArguments, StateT.run_bind, hmake, pure_bind, hloop']
  cases result <;> rfl

/-! ## The global object by its value -/

/-- What an operation comes to for code that only ever asks for the global object. -/
inductive Seen where
  | onStatics (op : Configuration.Op)
  | setGlobalConfiguration (configuration : Option Configuration)

/-- The static members after it. -/
def Seen.perform (s : Statics) : Seen → Statics
  | onStatics op => op.perform s
  | setGlobalConfiguration configuration => { s with globalConfiguration := configuration }

/-- What is seen of an operation: of the accesses through a pointer those to the global object. -/
def Op.seen (m : Members) : Op → List Seen
  | addCommandLineOption cmd optionName => [.onStatics (.addCommandLineOption cmd optionName)]
  | addDefaultValue optionName defaultValue =>
    [.onStatics (.addDefaultValue optionName defaultValue)]
  | fromArguments args => [.onStatics (.fromArguments args)]
  | makeShared => []
  | getGlobalConfiguration => [.onStatics .getGlobalConfiguration]
  | setGlobalConfiguration configuration =>
    [.setGlobalConfiguration (m.objects.deref? configuration)]
  | onGlobal access => [.onStatics access.op]
  | onObject object access =>
    if m.globalConfiguration = some object then [.onStatics access.op] else []

/-- What is seen of a sequence of operations. -/
def seen : Members → List Op → List Seen
  | _, [] => []
  | m, op :: rest => op.seen m ++ seen (op.perform m) rest

/-- The program has the pointer the operation uses. -/
def Op.Held (m : Members) : Op → Prop
  | setGlobalConfiguration configuration => ∀ r ∈ configuration, (m.objects.get? r).isSome = true
  | onObject object _ => (m.objects.get? object).isSome = true
  | _ => True

/-- The program has each pointer when it uses it. -/
def PointersHeld : Members → List Op → Prop
  | _, [] => True
  | m, op :: rest => op.Held m ∧ PointersHeld (op.perform m) rest

end Shared

namespace Members

/-- The global pointer is null or points to an object. -/
def Sound (m : Members) : Prop := ∀ r ∈ m.globalConfiguration, (m.objects.get? r).isSome = true

variable {m : Members}

theorem globalConfiguration_touched (m : Members) :
    m.touched.globalConfiguration = some m.global := by
  obtain ⟨objects, configuration, flags, defaults⟩ := m
  cases configuration <;> rfl

/-- Once it has been asked for, the global object is the one of the value. -/
theorem Sound.get?_global (hm : m.Sound) :
    m.touched.objects.get? m.global = some m.statics.global := by
  obtain ⟨objects, configuration, flags, defaults⟩ := m
  cases configuration with
  | none => exact objects.get?_alloc_next _
  | some r =>
    obtain ⟨c, hc⟩ := Option.isSome_iff_exists.mp (hm r rfl)
    have hglobal : Statics.global ⟨objects.get? r, flags, defaults⟩ = c := Statics.global_of_some hc
    exact hc.trans (congrArg some hglobal.symm)

theorem Sound.statics_touched (hm : m.Sound) :
    m.touched.statics = { m.statics with globalConfiguration := some m.statics.global } := by
  have hglobal := hm.get?_global
  rw [statics, globalConfiguration_touched, Store.deref?_some, hglobal]
  obtain ⟨objects, configuration, flags, defaults⟩ := m
  cases configuration <;> rfl

theorem Sound.deref?_alloc (hm : m.Sound) (c : Configuration) :
    (m.objects.alloc c).deref? m.globalConfiguration = m.objects.deref? m.globalConfiguration := by
  obtain ⟨objects, configuration, flags, defaults⟩ := m
  cases configuration with
  | none => rfl
  | some r =>
    obtain ⟨c', hc'⟩ := Option.isSome_iff_exists.mp (hm r rfl)
    exact (Store.get?_alloc_of_some hc' c).trans hc'.symm

/-- A new object may become the global one. -/
theorem Sound.alloc (hm : m.Sound) (c : Configuration) {configuration : Ptr}
    (h : configuration = some m.objects.next ∨ configuration = m.globalConfiguration) :
    Sound { m with objects := m.objects.alloc c, globalConfiguration := configuration } := by
  rintro r hr
  show ((m.objects.alloc c).get? r).isSome = true
  rcases h with rfl | rfl
  · cases hr
    rw [Store.get?_alloc_next]
    rfl
  · obtain ⟨c', hc'⟩ := Option.isSome_iff_exists.mp (hm r hr)
    rw [Store.get?_alloc_of_some hc']
    rfl

theorem Sound.touched (hm : m.Sound) : m.touched.Sound := by
  obtain ⟨objects, configuration, flags, defaults⟩ := m
  cases configuration with
  | none => exact hm.alloc ⟨defaults⟩ (Or.inl rfl)
  | some r => exact hm

theorem Sound.onObject (hm : m.Sound) (object : Ref) (f : Configuration → Configuration) :
    (m.onObject object f).Sound := by
  intro r hr
  have h := hm r hr
  simp only [Members.onObject, Store.get?_modify]
  split
  · rwa [Option.isSome_map]
  · exact h

/-- Changing an object changes the global one if it is that. -/
theorem statics_onObject (m : Members) (object : Ref) (f : Configuration → Configuration) :
    (m.onObject object f).statics = if m.globalConfiguration = some object then
      { m.statics with globalConfiguration := m.statics.globalConfiguration.map f }
    else m.statics := by
  obtain ⟨objects, configuration, flags, defaults⟩ := m
  cases configuration with
  | none => rfl
  | some r =>
    simp only [statics, onObject, Store.deref?_some, Store.get?_modify, Option.some.injEq]
    by_cases h : object = r
    · simp [h]
    · simp [h, Ne.symm h]

end Members

namespace Shared

theorem Access.perform (access : Access) (s : Statics) :
    access.op.perform s = { s with globalConfiguration := some (access.run s.global) } := by
  have htouch : access.op.Touches := by cases access <;> trivial
  rw [perform_touches htouch, run_eq_update]

section Step

variable {m : Members} (hm : m.Sound)
include hm

/-- **One operation, by the value of the global object.** -/
theorem statics_perform (op : Op) :
    (op.perform m).statics = (op.seen m).foldl Seen.perform m.statics := by
  cases op with
  | addCommandLineOption cmd optionName => rfl
  | addDefaultValue optionName defaultValue => rfl
  | makeShared =>
    exact congrArg (fun c => (⟨c, m.commandLineOptions, m.defaultValues⟩ : Statics))
      (hm.deref?_alloc ⟨m.defaultValues⟩)
  | fromArguments args =>
    obtain ⟨result, c, hleft, hloop, hperform⟩ := perform_fromArguments m args
    show _ = (Configuration.Op.fromArguments args).perform m.statics
    rw [hperform, perform_fromArguments_of_loop hloop]
    cases result with
    | none =>
      exact congrArg (fun c => (⟨c, m.commandLineOptions, m.defaultValues⟩ : Statics))
        (hm.deref?_alloc c)
    | some left =>
      obtain rfl : left.2 = c := hleft left rfl
      exact congrArg (fun c => (⟨c, m.commandLineOptions, m.defaultValues⟩ : Statics))
        (m.objects.get?_alloc_next left.2)
  | getGlobalConfiguration =>
    have htouch : Configuration.Op.Touches .getGlobalConfiguration := trivial
    rw [perform_getGlobalConfiguration, hm.statics_touched]
    exact (perform_touches htouch m.statics).symm
  | setGlobalConfiguration configuration => rfl
  | onGlobal access =>
    rw [perform_onGlobal, Members.statics_onObject, if_pos m.globalConfiguration_touched,
      hm.statics_touched]
    exact (access.perform m.statics).symm
  | onObject object access =>
    show (m.onObject object (access.run ·)).statics = _
    rw [Members.statics_onObject, Op.seen]
    split
    -- the pointer is to the global object, which sees the access
    next hglobal =>
      obtain ⟨c, hc⟩ := Option.isSome_iff_exists.mp (hm object hglobal)
      have hvalue : m.statics.globalConfiguration = some c := by
        rw [Members.statics, hglobal, Store.deref?_some, hc]
      show _ = access.op.perform m.statics
      rw [access.perform, hvalue, Statics.global_of_some hvalue]
      rfl
    next => rfl

/-- The global pointer never dangles. -/
theorem perform_sound {op : Op} (hheld : op.Held m) : (op.perform m).Sound := by
  cases op with
  | addCommandLineOption cmd optionName => exact hm
  | addDefaultValue optionName defaultValue => exact hm
  | makeShared => exact hm.alloc ⟨m.defaultValues⟩ (Or.inr rfl)
  | fromArguments args =>
    obtain ⟨result, c, -, -, hperform⟩ := perform_fromArguments m args
    rw [hperform]
    cases result with
    | none => exact hm.alloc c (Or.inr rfl)
    | some left => exact hm.alloc c (Or.inl rfl)
  | getGlobalConfiguration =>
    rw [perform_getGlobalConfiguration]
    exact hm.touched
  | setGlobalConfiguration configuration => exact hheld
  | onGlobal access =>
    rw [perform_onGlobal]
    exact hm.touched.onObject _ _
  | onObject object access => exact hm.onObject _ _

/-- **A run, by the value of the global object.** Induction on the operations. -/
theorem statics_run {ops : List Op} (hheld : PointersHeld m ops) :
    (ops.foldl Op.perform m).statics = (seen m ops).foldl Seen.perform m.statics ∧
      (ops.foldl Op.perform m).Sound := by
  induction ops generalizing m with
  | nil => exact ⟨rfl, hm⟩
  | cons op rest ih =>
    obtain ⟨hfirst, hrest⟩ := hheld
    obtain ⟨hstatics, hsound⟩ := ih (perform_sound hm hfirst) hrest
    refine ⟨?_, hsound⟩
    rw [List.foldl_cons, hstatics, statics_perform hm op, seen, List.foldl_append]

end Step

/-- The operation on the static members, if nothing else has set the pointer. -/
def Seen.op? : Seen → Option Configuration.Op
  | onStatics op => some op
  | setGlobalConfiguration _ => none

/-- The program sets the pointer to the global object itself. -/
def Op.SetsGlobal : Op → Prop
  | setGlobalConfiguration _ => True
  | _ => False

/-- While the pointer is left to the class, all that is seen is operations on static members. -/
theorem foldl_seen {ops : List Op} (hops : ∀ op ∈ ops, ¬ op.SetsGlobal) (m : Members)
    (s : Statics) :
    (seen m ops).foldl Seen.perform s =
      ((seen m ops).filterMap Seen.op?).foldl Configuration.Op.perform s := by
  induction ops generalizing m s with
  | nil => rfl
  | cons op rest ih =>
    have hfirst : ∀ s, (op.seen m).foldl Seen.perform s =
        ((op.seen m).filterMap Seen.op?).foldl Configuration.Op.perform s := by
      intro s
      cases op with
      | setGlobalConfiguration configuration => exact absurd trivial (hops _ List.mem_cons_self)
      | onObject object access =>
        rw [Op.seen]
        split <;> rfl
      | addCommandLineOption _ _ | addDefaultValue _ _ | fromArguments _ | makeShared
      | getGlobalConfiguration | onGlobal _ => rfl
    rw [seen, List.foldl_append, hfirst, ih fun op' h => hops op' (List.mem_cons_of_mem _ h),
      List.filterMap_append, List.foldl_append]

/-- **The pointer to the global object may be taken for the object.** In every program that uses the
pointers it has, the static members are those that the operations come to which are seen by code
that only asks for the global object: accesses through a pointer that was kept are seen while it
points to the global object, and no others are. What `getGlobalConfiguration` points to is the
object of this reading. If the program leaves setting the pointer to the class, the static members
are those of a run without pointers. -/
theorem global_by_value (ops : List Op) (hheld : PointersHeld .initial ops) :
    let s := (seen .initial ops).foldl Seen.perform .initial
    (runOps ops).statics = s ∧
      (getGlobalConfiguration.run (runOps ops)).2.objects.get?
        (getGlobalConfiguration.run (runOps ops)).1 =
          some (Configuration.getGlobalConfiguration.run s).1 ∧
      ((∀ op ∈ ops, ¬ op.SetsGlobal) →
        s = Configuration.runOps ((seen .initial ops).filterMap Seen.op?)) := by
  intro s
  have hinitial : Members.initial.Sound := fun r hr => by cases hr
  obtain ⟨hstatics, hsound⟩ := statics_run hinitial hheld
  have hs : (runOps ops).statics = s := hstatics
  refine ⟨hs, ?_, fun hops => foldl_seen hops .initial .initial⟩
  rw [run_getGlobalConfiguration, Configuration.run_getGlobalConfiguration, ← hs]
  exact Members.Sound.get?_global hsound

/-- A pointer is taken before the command line is parsed, and used after that. -/
theorem global_by_value_stale :
    let ops : List Op := [.getGlobalConfiguration, .onObject 0 (.setOption CONFIG_APP_INTERVAL "5"),
      .fromArguments ["--app", "id"], .onObject 0 (.setOption CONFIG_APP_UUID "stale")]
    (runOps ops).statics = Configuration.runOps
      [.getGlobalConfiguration, .setOption CONFIG_APP_INTERVAL "5",
        .fromArguments ["--app", "id"]] := by
  intro ops
  have hheld : PointersHeld .initial ops := by
    exact ⟨trivial, rfl, trivial, rfl, trivial⟩
  obtain ⟨hvalue, -, hstatics⟩ := global_by_value ops hheld
  exact hvalue.trans ((hstatics (by simp [ops, Op.SetsGlobal])).trans rfl)

end Shared

end Configuration

end NebuApp
