import NebuApp.Config.Runs
import NebuApp.Lib.Loop
import NebuApp.Topology.Model

/-!
# The application

`Application` (`application.h`, `application.cpp`): the main loop over the managers. The hooks of
`ApplicationHooks` and the calls of the abstract `DaemonManager` are code of the application that
uses the framework: each is an event of the trace, and what else it does is up to a `RoundEnv`. It
may call `shutdown` and it may work on the configuration, but it leaves the managers alone. So may
the callbacks of the virtual machine manager; since no manager reads `stopLoop`, what they do is
replayed from the trace of the refresh.
-/

namespace NebuApp

open Exec

/-! ## The state of a run -/

/-- The calls `mainLoop` makes in a round: the hooks, and the work they surround. -/
inductive AppStep where
  | preLoop
  | preRefreshVMs
  | refreshVMList
  | postRefreshVMs
  | preRefreshTopology
  | refreshTopology
  | postRefreshTopology
  | preRefreshDaemons
  | refreshDaemons
  | postRefreshDaemons
  | preDeployDaemons
  | deployDaemons
  | postDeployDaemons
  | postLoop
  deriving DecidableEq, Repr

/-- What happens in a run of the loop. -/
inductive AppEvent where
  /-- A step was called. -/
  | called (step : AppStep)
  /-- The virtual machine manager did what the entry of its trace says. -/
  | vm (entry : Entry)
  /-- `shutdown` was called. -/
  | shutdown
  /-- `sleep` was called. -/
  | slept (seconds : UInt32)

/-- `Application`. The daemon manager is opaque. -/
structure Application where
  stopLoop : Bool
  daemonManager : Ref
  topologyManager : TopologyManager
  vmManager : VMManager

/-- `Application::Application`. -/
def Application.create (daemonManager : Ref) (topologyManager : TopologyManager)
    (vmManager : VMManager) : Application where
  stopLoop := false
  daemonManager := daemonManager
  topologyManager := topologyManager
  vmManager := vmManager.registerVMEventHandler daemonManager

/-- `Application::shutdown`. -/
def Application.shutdown (app : Application) : Application := { app with stopLoop := true }

/-- The application with the static members of `Configuration`, and the trace of the run. -/
structure AppState where
  app : Application
  statics : Configuration.Statics
  trace : List AppEvent

/-- Why a run of the loop stops short. -/
inductive AppAbort where
  | vmManager (abort : Abort)
  | option (error : Configuration.MapError)
  deriving DecidableEq, Repr

/-- Code of the application. -/
abbrev AppProg := Prog AppState AppAbort

/-- What the world outside does during one round. -/
structure RoundEnv where
  /-- What the refresh of the virtual machines meets. -/
  refresh : RefreshEnv
  /-- `appPhysRequest->getPhysicalTopology()`. -/
  topology : Except NebuServerException (Option Topology)
  /-- Whether a step calls `shutdown`. -/
  shutsDown : AppStep → Bool
  /-- Whether the callback at a place in the trace of the refresh calls `shutdown`. -/
  callbackShutsDown : Nat → Bool
  /-- The operations of a step, its callbacks included, on the configuration. -/
  configures : AppStep → List Configuration.Op
  /-- What the variable in `getOptionInt` holds before the extraction. -/
  result : Int32

namespace Application

/-! ## The steps of a round -/

/-- Note an event in the trace. -/
def note (event : AppEvent) : AppProg Unit :=
  modify fun s => { s with trace := s.trace ++ [event] }

/-- Code outside the framework that calls `shutdown`, or does not. -/
def mayShutDown (shutsDown : Bool) : AppProg Unit := do
  if shutsDown then
    modify fun s => { s with app := s.app.shutdown }
    note .shutdown

/-- A call of code outside the framework: `this->applicationHooks->…()`,
`this->daemonManager->…()`. -/
def call (env : RoundEnv) (step : AppStep) : AppProg Unit := do
  note (.called step)
  modify fun s => { s with statics :=
    (env.configures step).foldl Configuration.Op.perform s.statics }
  mayShutDown (env.shutsDown step)

/-- What is left to do of the entry at place `i` of the trace of a refresh: if it is a callback, it
may call `shutdown`. -/
def callback (env : RoundEnv) (i : Nat) (entry : Entry) : AppProg Unit :=
  match entry.action with
  | .notified _ _ => mayShutDown (env.callbackShutsDown i)
  | _ => pure ()

/-- What a refresh did and its callbacks do, from place `i` of its trace on. -/
def deliver (env : RoundEnv) : Nat → List Entry → AppProg Unit
  | _, [] => pure ()
  | i, entry :: rest => do
    note (.vm entry)
    callback env i entry
    deliver env (i + 1) rest

/-- An exception of the virtual machine manager goes through, its result is not looked at. -/
def liftAbort : Except Abort Bool → AppProg Unit
  | .ok _ => pure ()
  | .error abort => throw (.vmManager abort)

/-- `this->vmManager->refreshVMList()`. -/
def refreshVMList (env : RoundEnv) : AppProg Unit := do
  call env .refreshVMList
  let (outcome, refreshed) := (← get).app.vmManager.refresh env.refresh
  modify fun s => { s with app := { s.app with vmManager := refreshed.mgr } }
  -- what callbacks do is done in the middle of the refresh, but does not reach the manager
  deliver env 0 refreshed.trace
  liftAbort outcome

/-- `this->topologyManager->refreshTopology()`. -/
def refreshTopology (env : RoundEnv) : AppProg Unit := do
  call env .refreshTopology
  modify fun s => { s with app := { s.app with
    topologyManager := (s.app.topologyManager.refreshTopology env.topology).2 } }

/-- `sleep(CONFIG_GETINT(CONFIG_APP_INTERVAL))`: the parameter of `sleep` is an `unsigned int`. -/
def sleepInterval (env : RoundEnv) : AppProg Unit := do
  let (seconds, statics) :=
    (Configuration.CONFIG_GETINT CONFIG_APP_INTERVAL env.result).run (← get).statics
  modify fun s => { s with statics := statics }
  match seconds with
  | .ok seconds => note (.slept seconds.toUInt32)
  | .error error => throw (.option error)

/-! ## The loop -/

/-- The body of the loop of `Application::mainLoop`. -/
def round (env : RoundEnv) : AppProg Unit := do
  call env .preLoop
  call env .preRefreshVMs
  refreshVMList env
  call env .postRefreshVMs
  call env .preRefreshTopology
  refreshTopology env
  call env .postRefreshTopology
  call env .preRefreshDaemons
  call env .refreshDaemons
  call env .postRefreshDaemons
  call env .preDeployDaemons
  call env .deployDaemons
  call env .postDeployDaemons
  call env .postLoop
  sleepInterval env

/-- `Application::mainLoop`, for at most `fuel` evaluations of the condition of its loop: the exit
code, or `none` if the loop goes on. -/
def mainLoop (envs : Nat → RoundEnv) (fuel : Nat) : AppProg (Option Int32) := do
  if ← loopUntil (·.app.stopLoop) (fun k => round (envs k)) fuel 0 then
    pure (some 0)
  else
    pure none

end Application

end NebuApp
