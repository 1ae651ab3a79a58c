import NebuApp.VM.Model
import NebuApp.Lib.Search

/-!
# The physical topology and its two readers

`TopologyManager` (`topologyManager.h`, `topologyManager.cpp`) and `TopologyWriter`
(`topologyWriter.h`, `topologyWriter.cpp`), over the tree of libnebu-common: a root holds data
centers, these hold racks, these hold hosts, each level in an `unordered_map`, and a rack or a host
points back at the node that holds it. Pointers are `Ptr`s into the stores of a `Topology`;
following a null pointer is a `Fault`. Every map is iterated in an order of its own, which an
`Orders` supplies.
-/

namespace NebuApp

open Search

/-! ## Nodes of libnebu-common -/

/-- `nebu::common::PhysicalHost`. -/
structure PhysicalHost where
  uuid : String
  parent : Ptr
  deriving DecidableEq, Repr

/-- `nebu::common::PhysicalRack`. -/
structure PhysicalRack where
  uuid : String
  parent : Ptr
  hosts : UnorderedMap String Ptr

/-- `nebu::common::PhysicalDataCenter`. -/
structure PhysicalDataCenter where
  uuid : String
  racks : UnorderedMap String Ptr

/-- `nebu::common::PhysicalRoot`. -/
structure PhysicalRoot where
  uuid : String
  dataCenters : UnorderedMap String Ptr

/-- A root with the nodes its pointers refer to. -/
structure Topology where
  root : PhysicalRoot
  dataCenters : Store PhysicalDataCenter
  racks : Store PhysicalRack
  hosts : Store PhysicalHost

/-- A root without children: `make_shared<PhysicalRoot>(uuid)`. -/
def Topology.childless (uuid : String) : Topology := ⟨⟨uuid, ∅⟩, .empty, .empty, .empty⟩

/-- The crash of following a null pointer. -/
inductive Fault where
  | nullDereference
  deriving DecidableEq, Repr

/-- The value of a pointer that is followed. -/
def follow {α : Type} (target : Option α) : Except Fault α :=
  match target with
  | some a => .ok a
  | none => .error .nullDereference

/-- The orders in which the maps of a topology are iterated. -/
structure Orders where
  dataCenters : IterationOrder (Σ _ : String, Ptr)
  racks : Ptr → IterationOrder (Σ _ : String, Ptr)
  hosts : Ptr → IterationOrder (Σ _ : String, Ptr)

/-- Every map is iterated as it is stored. -/
def Orders.stored : Orders := ⟨.stored _, fun _ => .stored _, fun _ => .stored _⟩

/-! ## `TopologyManager` -/

/-- `TopologyManager`. -/
structure TopologyManager where
  physicalRoot : Option Topology

namespace TopologyManager

/-- `TopologyManager::ID_UNKNOWN`. -/
def ID_UNKNOWN : String := ""

/-- `TopologyManager::TopologyManager`. -/
def init : TopologyManager := ⟨some (.childless ID_UNKNOWN)⟩

/-- `TopologyManager::refreshTopology`, given what `getPhysicalTopology` comes back with. -/
def refreshTopology (m : TopologyManager)
    (answer : Except NebuServerException (Option Topology)) : Bool × TopologyManager :=
  match answer with
  | .ok (some physicalRoot) => (true, { m with physicalRoot := some physicalRoot })
  -- the last tree that was accepted stays
  | .ok none => (false, m)
  | .error _ => (false, m)

/-- `TopologyManager::getRoot`. -/
def getRoot (m : TopologyManager) : Option Topology := m.physicalRoot

/-- `TopologyManager::findHost` on a rack. -/
def findHostInRack (t : Topology) (haystack : Ptr) (hostID : String) : Except Fault Ptr := do
  let hosts := (← follow (t.racks.deref? haystack)).hosts
  pure (hosts.lookup hostID).join

/-- `TopologyManager::findHost` on a data center. -/
def findHost (t : Topology) (o : Orders) (haystack : Ptr) (hostID : String) :
    Except Fault Ptr := do
  let racks := (← follow (t.dataCenters.deref? haystack)).racks
  firstFound (fun it => findHostInRack t it.2 hostID) (racks.iterate (o.racks haystack))

/-- `TopologyManager::findRack`. -/
def findRack (t : Topology) (haystack : Ptr) (rackID : String) : Except Fault Ptr := do
  let racks := (← follow (t.dataCenters.deref? haystack)).racks
  pure (racks.lookup rackID).join

/-- `TopologyManager::getHostByID`. -/
def getHostByID (m : TopologyManager) (o : Orders) (hostID : String) : Except Fault Ptr := do
  let t ← follow m.physicalRoot
  firstFound (fun it => findHost t o it.2 hostID) (t.root.dataCenters.iterate o.dataCenters)

/-- `TopologyManager::getRackByID`. -/
def getRackByID (m : TopologyManager) (o : Orders) (rackID : String) : Except Fault Ptr := do
  let t ← follow m.physicalRoot
  firstFound (fun it => findRack t it.2 rackID) (t.root.dataCenters.iterate o.dataCenters)

/-- `TopologyManager::getDataCenterByID`. -/
def getDataCenterByID (m : TopologyManager) (dataCenterID : String) : Except Fault Ptr := do
  let t ← follow m.physicalRoot
  pure (t.root.dataCenters.lookup dataCenterID).join

/-- `TopologyManager::getRackIDForHost`. -/
def getRackIDForHost (m : TopologyManager) (o : Orders) (hostID : String) :
    Except Fault String := do
  match ← m.getHostByID o hostID with
  | none => pure ID_UNKNOWN
  | some host =>
    let t ← follow m.physicalRoot
    let rack := (← follow (t.hosts.get? host)).parent
    pure (← follow (t.racks.deref? rack)).uuid

/-- `TopologyManager::getDataCenterIDForHost`. -/
def getDataCenterIDForHost (m : TopologyManager) (o : Orders) (hostID : String) :
    Except Fault String := do
  match ← m.getHostByID o hostID with
  | none => pure ID_UNKNOWN
  | some host =>
    let t ← follow m.physicalRoot
    let rack := (← follow (t.hosts.get? host)).parent
    let dataCenter := (← follow (t.racks.deref? rack)).parent
    pure (← follow (t.dataCenters.deref? dataCenter)).uuid

end TopologyManager

/-- The manager after a sequence of refreshes. -/
def runRefreshes (answers : List (Except NebuServerException (Option Topology))) :
    TopologyManager :=
  answers.foldl (fun m answer => (m.refreshTopology answer).2) .init

/-! ## `TopologyWriter` -/

/-- `createHostMap`. -/
def createHostMap (t : Topology) (o : Orders) : Except Fault (UnorderedMap String Ptr) :=
  (t.root.dataCenters.iterate o.dataCenters).foldlM (fun map dc => do
    let racks := (← follow (t.dataCenters.deref? dc.2)).racks
    (racks.iterate (o.racks dc.2)).foldlM (fun map rack => do
      let hosts := (← follow (t.racks.deref? rack.2)).hosts
      pure ((hosts.iterate (o.hosts rack.2)).foldl (fun map host => map.insert host.1 host.2) map))
      map) ∅

/-- `TopologyWriter`. -/
structure TopologyWriter where
  filename : String

/-- The contents of the files. -/
abbrev Files := String → Option String

namespace TopologyWriter

/-- `TopologyWriter::setFilename`. -/
def setFilename (w : TopologyWriter) (filename : String) : TopologyWriter :=
  { w with filename := filename }

/-- What the loop of `write` puts out for a VM. -/
def lineFor (t : Topology) (hostMap : UnorderedMap String Ptr) (vm : VirtualMachine) :
    Except Fault String := do
  match hostMap.lookup vm.physicalHostID with
  -- a host that is not in the tree, or in an older one only
  | none => pure ""
  | some p =>
    let host ← follow (t.hosts.deref? p)
    let rack ← follow (t.racks.deref? host.parent)
    let dc ← follow (t.dataCenters.deref? rack.parent)
    pure (vm.hostname ++ "\t/" ++ dc.uuid ++ "/" ++ rack.uuid ++ "/" ++ host.uuid ++ "\n")

/-- The loop of `write`, with what it has put out so far. -/
def writeLines (t : Topology) (heap : Store VirtualMachine) (hostMap : UnorderedMap String Ptr) :
    List Ptr → String → Except Fault String
  | [], output => pure output
  | vm :: rest, output => do
    let line ← lineFor t hostMap (← follow (heap.deref? vm))
    writeLines t heap hostMap rest (output ++ line)

/-- `TopologyWriter::write`. `opens` tells which files can be opened; opening one truncates it. -/
def write (w : TopologyWriter) (o : Orders) (heap : Store VirtualMachine) (opens : String → Bool)
    (files : Files) (topology : Option Topology) (vms : List Ptr) : Except Fault Files := do
  let t ← follow topology
  let hostMap ← createHostMap t o
  if opens w.filename then
    let output ← writeLines t heap hostMap vms ""
    pure (Function.update files w.filename (some output))
  else
    pure files

end TopologyWriter

end NebuApp
