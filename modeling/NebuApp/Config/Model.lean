import NebuApp.Lib.Unordered

/-!
# The configuration

`Configuration` (`configuration.h`, `configuration.cpp`) and the vector of arguments that `main`
(`main.cpp`) hands to it. The static members are the state of the code. Each `Configuration` is
only reached through the global pointer to it, so that the pointer is modelled by the object.
-/

namespace NebuApp

def CONFIG_APP_INTERVAL : String := "app.interval"

def CONFIG_APP_UUID : String := "app.uuid"

def CONFIG_NEBU_URL : String := "nebu.url"

/-- A `Configuration` object. -/
structure Configuration where
  options : UnorderedMap String String

namespace Configuration

/-- The static members of the class. -/
structure Statics where
  globalConfiguration : Option Configuration
  commandLineOptions : UnorderedMap String String
  defaultValues : UnorderedMap String String

/-- The values the program starts with. -/
def Statics.initial : Statics where
  globalConfiguration := none
  commandLineOptions :=
    [⟨"--interval", CONFIG_APP_INTERVAL⟩, ⟨"--app", CONFIG_APP_UUID⟩,
      ⟨"--nebu", CONFIG_NEBU_URL⟩].toAList
  defaultValues :=
    [⟨CONFIG_APP_INTERVAL, "60"⟩, ⟨CONFIG_APP_UUID, ""⟩,
      ⟨CONFIG_NEBU_URL, "http://localhost:8080"⟩].toAList

/-- What `map::at` throws on an absent key. -/
inductive MapError where
  | outOfRange
  deriving DecidableEq, Repr

/-- Code of the class. -/
abbrev Code := StateM Statics

/-- `Configuration::Configuration`. -/
def create : Code Configuration := do
  return ⟨(← get).defaultValues⟩

/-- `Configuration::setGlobalConfiguration`. -/
def setGlobalConfiguration (configuration : Configuration) : Code Unit :=
  modify fun s => { s with globalConfiguration := some configuration }

/-- `Configuration::getGlobalConfiguration`. -/
def getGlobalConfiguration : Code Configuration := do
  match (← get).globalConfiguration with
  | some configuration => return configuration
  | none =>
    let configuration ← create
    setGlobalConfiguration configuration
    return configuration

/-- `Configuration::getOption`. -/
def getOption (c : Configuration) (option : String) : Except MapError String :=
  match c.options.lookup option with
  | some value => .ok value
  | none => .error .outOfRange

/-- `Configuration::setOption`. -/
def setOption (c : Configuration) (option value : String) : Configuration :=
  ⟨c.options.insert option value⟩

/-- `Configuration::operator[]`, read: an absent option is first given the empty string. -/
def index (c : Configuration) (option : String) : String × Configuration :=
  match c.options.lookup option with
  | some value => (value, c)
  | none => ("", c.setOption option "")

/-- `Configuration::addCommandLineOption`. -/
def addCommandLineOption (cmd optionName : String) : Code Unit :=
  modify fun s => { s with commandLineOptions := s.commandLineOptions.insert cmd optionName }

/-- `Configuration::addDefaultValue`. -/
def addDefaultValue (optionName defaultValue : String) : Code Unit :=
  modify fun s => { s with defaultValues := s.defaultValues.insert optionName defaultValue }

/-! ## The arguments -/

/-- `Configuration::commandLineOptions[arg]`, which inserts what it does not find. -/
def commandLineOption (arg : String) : Code String := do
  match (← get).commandLineOptions.lookup arg with
  | some option => return option
  | none =>
    addCommandLineOption arg ""
    return ""

/-- `args.erase(args.begin() + index, args.begin() + index + n)`. -/
def erase (args : List String) (index n : Nat) : List String :=
  args.take index ++ args.drop (index + n)

/-- The loop of `fromArguments`, for at most `fuel` evaluations of its condition. `index` is an
`unsigned int`: `index + 1` wraps before it is compared with `args.size()`. -/
def fromArgumentsLoop : Nat → List String → Configuration → UInt32 →
    Code (Option (List String × Configuration))
  | 0, _, _, _ => return none
  | fuel + 1, args, cfg, index => do
    if h : index.toNat < args.length then
      let arg := args.get ⟨index.toNat, h⟩
      if arg ∈ (← get).commandLineOptions then
        let option ← commandLineOption arg
        -- a flag at the end sets its option to the empty string
        let value := if h' : (index + 1).toNat < args.length then
          args.get ⟨(index + 1).toNat, h'⟩ else ""
        let args := if (index + 1).toNat < args.length then
          erase args index.toNat 2 else erase args index.toNat 1
        -- `index` is on what followed the value, which may be a flag again
        fromArgumentsLoop fuel args (cfg.setOption option value) index
      else
        fromArgumentsLoop fuel args cfg (index + 1)
    else
      return some (args, cfg)

/-- `Configuration::fromArguments`, which changes `args` in place: the result is the vector it
leaves, or `none` when `fuel` does not suffice. -/
def fromArguments (fuel : Nat) (args : List String) : Code (Option (List String)) := do
  -- of the default values alone: what the global object has is not taken over
  let cfg ← create
  match ← fromArgumentsLoop fuel args cfg 0 with
  | some (args, cfg) =>
    setGlobalConfiguration cfg
    return some args
  | none => return none

/-- The vector `main` builds of its arguments and hands to `fromArguments`. -/
def mainArguments (argc : Int32) (argv : Nat → String) : List String :=
  (List.range' 1 (argc.toInt - 1).toNat).map argv

/-- `argc` is an `int`: the vector is shorter than an `unsigned int` can count. -/
theorem length_mainArguments_lt (argc : Int32) (argv : Nat → String) :
    (mainArguments argc argv).length < UInt32.size := by
  have hargc := argc.toInt_le
  rw [show Int32.maxValue.toInt = 2147483647 from rfl] at hargc
  rw [mainArguments, List.length_map, List.length_range', UInt32.size]
  omega

end Configuration

end NebuApp
