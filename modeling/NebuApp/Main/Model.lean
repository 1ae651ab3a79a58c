import NebuApp.Application.Model
import NebuApp.Daemon.Model
import NebuApp.Lib.Lazy

/-!
# The start of the program

`main` (`main.cpp`) and the getters of `ApplicationHooks` (`applicationHooks.h`,
`applicationHooks.cpp`). The hooks that `main` calls are code of the application: a `HookCode` says
what each of them does with what it can reach, the static members of `Configuration`, its own
getters and the `application` member. The getters are those that `ApplicationHooks` provides, but
for `getDaemonManager`, which it does not. Unlike in `Application.mainLoop`, the managers are
objects behind pointers here, since the hooks and the `Application` share them.
-/

namespace NebuApp

open Exec

/-! ## Objects -/

/-- What `AppPhysRequest` and `AppVirtRequest` are made of: the URL of a `NebuClient`, and the UUID
of the application. -/
structure AppRequest where
  nebuURL : String
  appUUID : String
  deriving DecidableEq, Repr

/-- An `Application` with the pointers it holds. Of `applicationHooks` it is only told whether it
has been set. -/
structure ApplicationObject where
  stopLoop : Bool
  daemonManager : Ref
  topologyManager : Ref
  vmManager : Ref
  applicationHooks : Bool

/-- The calls `main` makes on the hooks before the loop. -/
inductive HookCall where
  | registerConfigurationOptions
  | prepareLogging
  | initialise (command : String) (arguments : List String)
  | getDaemonManager
  | setApplication (application : Ref)
  deriving DecidableEq, Repr

/-- The state of the program before its loop: the members of `ApplicationHooks` with the objects
behind them, the static members of `Configuration`, the daemons, and the calls made. -/
@[ext]
structure MainState where
  daemonCollection : Lazy DaemonCollection
  topologyManager : Lazy (AppRequest × TopologyManager)
  vmManager : Lazy (AppRequest × VMManager)
  application : Ptr
  applications : Store ApplicationObject
  statics : Configuration.Statics
  daemons : Daemons
  calls : List HookCall

/-- `ApplicationHooks::ApplicationHooks`, in a program that has done nothing else. -/
def MainState.initial (daemons : Daemons) : MainState where
  daemonCollection := .empty
  topologyManager := .empty
  vmManager := .empty
  application := none
  applications := .empty
  statics := .initial
  daemons := daemons
  calls := []

/-- Why the program ends without a return value. -/
inductive MainAbort where
  | option (error : Configuration.MapError)
  | vmManager (abort : Abort)
  | nullDereference
  /-- An exception of the application. -/
  | raised (what : String)
  /-- `fromArguments` does not return. -/
  | diverges
  deriving DecidableEq, Repr

/-- Code of the program. -/
abbrev MainProg := Prog MainState MainAbort

/-- Return the value of an outcome, or throw its error. -/
def liftError {α ε : Type} (abort : ε → MainAbort) : Except ε α → MainProg α
  | .ok a => pure a
  | .error e => throw (abort e)

/-- Run code of `Configuration`. -/
def liftStatics {α : Type} (code : Configuration.Code α) : MainProg α := do
  let (a, statics) := code.run (← get).statics
  modify fun s => { s with statics := statics }
  pure a

/-! ## The getters of `ApplicationHooks` -/

/-- `CONFIG_GET`. -/
def CONFIG_GET (option : String) : MainProg String := do
  let configuration ← liftStatics Configuration.getGlobalConfiguration
  liftError .option (configuration.getOption option)

/-- A getter that creates what its member does not point to yet. -/
def getMember {α : Type} (member : MainState → Lazy α) (assign : Lazy α → MainState → MainState)
    (make : MainProg α) : MainProg Ref := do
  match (member (← get)).pointer with
  | some object => pure object
  | none =>
    let a ← make
    let s ← get
    modify (assign ((member s).create a))
    pure (member s).objects.next

/-- `make_shared<NebuClient>(…)`, and the request made with it. -/
def makeRequest : MainProg AppRequest := do
  let nebuURL ← CONFIG_GET CONFIG_NEBU_URL
  let appUUID ← CONFIG_GET CONFIG_APP_UUID
  pure ⟨nebuURL, appUUID⟩

/-- `ApplicationHooks::getDaemonCollection`. -/
def getDaemonCollection : MainProg Ref :=
  getMember (·.daemonCollection) (fun l s => { s with daemonCollection := l }) (pure .init)

/-- `ApplicationHooks::getTopologyManager`. -/
def getTopologyManager : MainProg Ref :=
  getMember (·.topologyManager) (fun l s => { s with topologyManager := l }) do
    pure (← makeRequest, .init)

/-- `ApplicationHooks::getVMManager`. -/
def getVMManager : MainProg Ref :=
  getMember (·.vmManager) (fun l s => { s with vmManager := l }) do
    pure (← makeRequest, .init)

/-! ## What a hook does -/

/-- An operation of the code in a hook. -/
inductive HookOp where
  /-- An operation on the static members of `Configuration`. -/
  | configure (op : Configuration.Op)
  | getDaemonCollection
  | getTopologyManager
  | getVMManager
  /-- A call on `getDaemonCollection()`, or on a daemon. -/
  | onDaemonCollection (op : DaemonCollection.Op)
  /-- `getTopologyManager()->refreshTopology()`. -/
  | refreshTopology (answer : Except NebuServerException (Option Topology))
  /-- A call on `getVMManager()`. -/
  | onVMManager (op : Op)
  /-- `this->application->shutdown()`. -/
  | shutdown
  /-- `throw`, of an exception of the application. -/
  | raise (what : String)

namespace HookOp

/-- How an operation on a virtual machine manager ends. -/
def outcome (m : VMManager) : Op → Except Abort Unit
  | .registerVMEventHandler _ => .ok ()
  | .refreshVMList env => (m.refresh env).1.map fun _ => ()

/-- The code of an operation. -/
def code : HookOp → MainProg Unit
  | configure op => modify fun s => { s with statics := op.perform s.statics }
  | getDaemonCollection => do
    let _ ← NebuApp.getDaemonCollection
  | getTopologyManager => do
    let _ ← NebuApp.getTopologyManager
  | getVMManager => do
    let _ ← NebuApp.getVMManager
  | onDaemonCollection op => do
    let r ← NebuApp.getDaemonCollection
    modify fun s => { s with
      daemonCollection := s.daemonCollection.modify r fun c =>
        (op.perform ⟨c, s.daemons⟩).2.collection
      daemons := op.objectsAfter s.daemons }
  | refreshTopology answer => do
    let r ← NebuApp.getTopologyManager
    modify fun s => { s with topologyManager := s.topologyManager.modify r fun manager =>
      (manager.1, (manager.2.refreshTopology answer).2) }
  | onVMManager op => do
    let r ← NebuApp.getVMManager
    match (← get).vmManager.objects.get? r with
    | none => throw .nullDereference
    | some manager =>
      -- what it does before it throws stays
      modify fun s => { s with vmManager := s.vmManager.modify r fun manager =>
        (manager.1, (op.perform ⟨manager.2, []⟩).mgr) }
      liftError .vmManager (outcome manager.2 op)
  | shutdown => do
    match (← get).application with
    | none => throw .nullDereference
    | some r => modify fun s => { s with applications := s.applications.modify r fun application =>
        { application with stopLoop := true } }
  | raise what => throw (.raised what)

end HookOp

/-- The code of the application: what each hook does, and the daemon manager it provides. What
`prepareLogging` does to the logging is left out. -/
structure HookCode where
  registerConfigurationOptions : List HookOp
  prepareLogging : List HookOp
  initialise : List HookOp
  getDaemonManager : List HookOp
  daemonManager : Ref
  setApplication : List HookOp

/-! ## `main` -/

/-- Note a call on the hooks. -/
def noteCall (call : HookCall) : MainProg Unit :=
  modify fun s => { s with calls := s.calls ++ [call] }

/-- The code of a hook. -/
def performAll (ops : List HookOp) : MainProg Unit := forM ops HookOp.code

/-- `Configuration::fromArguments(arguments)` on the vector of the arguments behind the command. -/
def parseArguments (argc : Int32) (argv : Nat → String) : MainProg (List String) := do
  let arguments := Configuration.mainArguments argc argv
  match ← liftStatics (Configuration.fromArguments (arguments.length + 1) arguments) with
  | some arguments => pure arguments
  | none => throw .diverges

/-- The arguments of `make_shared<Application>(…)`, each a call of a getter. -/
inductive Getter where
  | daemonManager
  | topologyManager
  | vmManager
  deriving DecidableEq, Repr

/-- The value of an argument. -/
def HookCode.evaluate (code : HookCode) : Getter → MainProg Ref
  | .daemonManager => do
    noteCall .getDaemonManager
    performAll code.getDaemonManager
    pure code.daemonManager
  | .topologyManager => getTopologyManager
  | .vmManager => getVMManager

/-- The values of the arguments, which the compiler may have evaluated in any order. -/
def HookCode.evaluateAll (code : HookCode) : List Getter → (Getter → Ref) → MainProg (Getter → Ref)
  | [], values => pure values
  | getter :: rest, values => do
    let value ← code.evaluate getter
    evaluateAll code rest (Function.update values getter value)

/-- `make_shared<Application>(daemonManager, topologyManager, vmManager)`. -/
def makeApplication (daemonManager topologyManager vmManager : Ref) : MainProg Ref := do
  -- the body of the constructor, which does not touch the object
  modify fun s => { s with vmManager := s.vmManager.modify vmManager fun manager =>
    (manager.1, manager.2.registerVMEventHandler daemonManager) }
  let application := (← get).applications.next
  let object : ApplicationObject := ⟨false, daemonManager, topologyManager, vmManager, false⟩
  modify fun s => { s with applications := s.applications.alloc object }
  pure application

/-- `Application::setApplicationHooks`. -/
def setApplicationHooks (application : Ref) : MainProg Unit :=
  modify fun s => { s with applications := s.applications.modify application fun object =>
    { object with applicationHooks := true } }

/-- `ApplicationHooks::setApplication`, with what the application does behind it. -/
def setApplication (code : HookCode) (application : Ref) : MainProg Unit := do
  noteCall (.setApplication application)
  -- from here on a hook may call `shutdown`
  modify fun s => { s with application := some application }
  performAll code.setApplication

/-- `main` up to its loop. -/
def start (code : HookCode) (order : List Getter) (argc : Int32) (argv : Nat → String) :
    MainProg Ref := do
  noteCall .registerConfigurationOptions
  performAll code.registerConfigurationOptions
  let arguments ← parseArguments argc argv
  noteCall .prepareLogging
  performAll code.prepareLogging
  noteCall (.initialise (argv 0) arguments)
  performAll code.initialise
  let values ← code.evaluateAll order fun _ => 0
  let application ←
    makeApplication (values .daemonManager) (values .topologyManager) (values .vmManager)
  setApplicationHooks application
  setApplication code application
  pure application

/-- The application that enters its loop, with its managers. The loop follows `applicationHooks`. -/
def MainState.appState? (s : MainState) (application : Ref) : Option AppState := do
  let object ← s.applications.get? application
  let topologyManager ← s.topologyManager.objects.get? object.topologyManager
  let vmManager ← s.vmManager.objects.get? object.vmManager
  if object.applicationHooks then
    some ⟨⟨object.stopLoop, object.daemonManager, topologyManager.2, vmManager.2⟩, s.statics, []⟩
  else
    none

/-- `main`, for at most `fuel` evaluations of the condition of its loop. -/
def main (code : HookCode) (order : List Getter) (argc : Int32) (argv : Nat → String)
    (daemons : Daemons) (envs : Nat → RoundEnv) (fuel : Nat) :
    Except MainAbort (Except AppAbort (Option Int32) × AppState) :=
  match exec (start code order argc argv) (.initial daemons) with
  | (.error abort, _) => .error abort
  | (.ok application, s) =>
    match s.appState? application with
    | none => .error .nullDereference
    | some s => .ok (exec (do return (← Application.mainLoop envs fuel).map fun _ => 0) s)

end NebuApp
