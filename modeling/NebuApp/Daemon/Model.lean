import NebuApp.Lib.Store
import NebuApp.Lib.Unordered
import Mathlib.Data.Finset.Sort

/-!
# Daemons and their collection

`Daemon` (`daemon.h`, `daemon.cpp`) and `DaemonCollection` (`daemonCollection.h`,
`daemonCollection.cpp`). A `shared_ptr<Daemon>` is a `Ref`; `std::set` compares such pointers by
address, so a set of daemons is a `Finset Ref`. The `std::map` of sets is keyed by `int`, to which
every operation casts the `unsigned int` it is given, and every access to it goes through
`operator[]`, which inserts what it does not find. The queries therefore run in a state monad.

`discoveryTime` is left out: no operation modelled here reads it.
-/

namespace NebuApp

/-- `typedef unsigned int DaemonType`. -/
abbrev DaemonType := UInt32

/-- `Daemon`. `getType` is the constant a subclass returns from it. -/
structure Daemon where
  hostVM : Ptr
  launched : Bool
  getType : DaemonType

namespace Daemon

/-- `Daemon::Daemon`, of a subclass whose `getType` returns `type`. -/
def create (hostVM : Ptr) (type : DaemonType) : Daemon := ⟨hostVM, false, type⟩

/-- `Daemon::getHostVM`. -/
def getHostVM (d : Daemon) : Ptr := d.hostVM

/-- `Daemon::hasLaunched`. -/
def hasLaunched (d : Daemon) : Bool := d.launched

end Daemon

/-- The `Daemon` objects, by address. -/
abbrev Daemons := Ref → Daemon

/-- A subclass's `launch()` on the daemon at `d`, which records whether it succeeded. -/
def Daemons.launch (objects : Daemons) (d : Ref) (success : Bool) : Daemons :=
  Function.update objects d { objects d with launched := success }

/-- `DaemonCollection`. -/
structure DaemonCollection where
  daemons : UnorderedMap Int32 (Finset Ref)

namespace DaemonCollection

/-- `DaemonCollection::DaemonCollection`. -/
def init : DaemonCollection := ⟨∅⟩

/-- Code of the collection. -/
abbrev Code := StateM DaemonCollection

/-- `this->daemons.find(itype) != this->daemons.end()`. -/
def contains (itype : Int32) : Code Bool := do
  return decide (itype ∈ (← get).daemons)

/-- `this->daemons[itype] = set`. -/
def assign (itype : Int32) (set : Finset Ref) : Code Unit :=
  modify fun c => ⟨c.daemons.insert itype set⟩

/-- `this->daemons[itype]` as a value: an absent key is first given an empty set. -/
def index (itype : Int32) : Code (Finset Ref) := do
  match (← get).daemons.lookup itype with
  | some set => pure set
  | none =>
    assign itype ∅
    pure ∅

/-- A loop over `this->daemons[itype]` that inserts the daemons `keep` accepts. The condition of
the loop indexes the map again before every iteration and at the end. -/
def collectWhere (itype : Int32) (keep : Ref → Bool) : List Ref → Finset Ref → Code (Finset Ref)
  | [], daemons => do
    let _ ← index itype
    pure daemons
  | d :: rest, daemons => do
    let _ ← index itype
    collectWhere itype keep rest (if keep d then insert d daemons else daemons)

/-- `DaemonCollection::getDaemons`. -/
def getDaemons : Code (Finset Ref) := do
  return (← get).daemons.entries.foldl (fun daemons typeSet => daemons ∪ typeSet.2) ∅

/-- `DaemonCollection::getDaemonsForType`. -/
def getDaemonsForType (type : DaemonType) : Code (Finset Ref) := do
  let itype := type.toInt32
  if ← contains itype then index itype else pure ∅

/-- The two queries that differ in the daemons they accept. -/
def getDaemonsForTypeWhere (keep : Ref → Bool) (type : DaemonType) : Code (Finset Ref) := do
  let itype := type.toInt32
  if ← contains itype then
    let set ← index itype
    collectWhere itype keep (set.sort (· ≤ ·)) ∅
  else
    pure ∅

/-- `DaemonCollection::getUnlaunchedDaemonsForType`. -/
def getUnlaunchedDaemonsForType (objects : Daemons) (type : DaemonType) : Code (Finset Ref) :=
  getDaemonsForTypeWhere (fun d => !(objects d).hasLaunched) type

/-- `DaemonCollection::getLaunchedDaemonsForType`. -/
def getLaunchedDaemonsForType (objects : Daemons) (type : DaemonType) : Code (Finset Ref) :=
  getDaemonsForTypeWhere (fun d => (objects d).hasLaunched) type

/-- `DaemonCollection::getDaemonsFiltered`. -/
def getDaemonsFiltered (includeInResults : Ref → Bool) : Code (Finset Ref) := do
  return (← get).daemons.entries.foldl (fun daemons typeSet =>
    (typeSet.2.sort (· ≤ ·)).foldl (fun daemons d =>
      if includeInResults d then insert d daemons else daemons) daemons) ∅

/-- `DaemonCollection::addDaemon`. -/
def addDaemon (objects : Daemons) (daemon : Ref) : Code Unit := do
  let itype := (objects daemon).getType.toInt32
  if !(← contains itype) then assign itype ∅
  assign itype (insert daemon (← index itype))

/-! ## Runs -/

/-- The collection and the daemons it points at. -/
structure World where
  collection : DaemonCollection
  objects : Daemons

/-- A call on the collection or on a daemon. -/
inductive Op where
  | addDaemon (daemon : Ref)
  | launch (daemon : Ref) (success : Bool)
  | getDaemons
  | getDaemonsForType (type : DaemonType)
  | getUnlaunchedDaemonsForType (type : DaemonType)
  | getLaunchedDaemonsForType (type : DaemonType)
  | getDaemonsFiltered (includeInResults : Ref → Bool)

/-- The code of a call, with its result where it has one. -/
def Op.code (objects : Daemons) : Op → Code (Option (Finset Ref))
  | addDaemon daemon => do DaemonCollection.addDaemon objects daemon; pure none
  | launch _ _ => pure none
  | getDaemons => return some (← DaemonCollection.getDaemons)
  | getDaemonsForType type => return some (← DaemonCollection.getDaemonsForType type)
  | getUnlaunchedDaemonsForType type =>
    return some (← DaemonCollection.getUnlaunchedDaemonsForType objects type)
  | getLaunchedDaemonsForType type =>
    return some (← DaemonCollection.getLaunchedDaemonsForType objects type)
  | getDaemonsFiltered p => return some (← DaemonCollection.getDaemonsFiltered p)

/-- The daemons after a call: only a launch touches one. -/
def Op.objectsAfter (objects : Daemons) : Op → Daemons
  | launch daemon success => objects.launch daemon success
  | _ => objects

/-- The result of a call and the world after it. -/
def Op.perform (w : World) (op : Op) : Option (Finset Ref) × World :=
  let res := (op.code w.objects).run w.collection
  (res.1, ⟨res.2, op.objectsAfter w.objects⟩)

/-- The world after a sequence of calls on a new collection. -/
def runOps (objects : Daemons) (ops : List Op) : World :=
  ops.foldl (fun w op => (op.perform w).2) ⟨init, objects⟩

end DaemonCollection

end NebuApp
