import NebuApp.Topology.Model

/-!
# What the topology queries answer

A topology is described by who holds whom (`HasDataCenter`, `HasRack`, `HasHost`). `Keyed` is what
libnebu-common guarantees of its trees: children are keyed by their UUIDs and point back at their
container. On a keyed tree no query faults, and each finds the node with the given UUID wherever it
hangs, in whatever order the maps are iterated.
-/

namespace NebuApp

open Search

/-! ## Who holds whom -/

namespace Topology

/-- The root holds the data center `d`. -/
def HasDataCenter (t : Topology) (d : Ref) : Prop :=
  ∃ k, t.root.dataCenters.lookup k = some (some d)

/-- The data center `d` holds the rack `r`. -/
def DataCenterHolds (t : Topology) (d r : Ref) : Prop :=
  ∃ dc k, t.dataCenters.get? d = some dc ∧ dc.racks.lookup k = some (some r)

/-- The rack `r` holds the host `h`. -/
def RackHolds (t : Topology) (r h : Ref) : Prop :=
  ∃ rack k, t.racks.get? r = some rack ∧ rack.hosts.lookup k = some (some h)

/-- The rack `r` is in the tree. -/
def HasRack (t : Topology) (r : Ref) : Prop :=
  ∃ d, t.HasDataCenter d ∧ t.DataCenterHolds d r

/-- The host `h` is in the tree. -/
def HasHost (t : Topology) (h : Ref) : Prop :=
  ∃ r, t.HasRack r ∧ t.RackHolds r h

/-- The UUIDs behind the references. -/
def dataCenterUUID (t : Topology) (d : Ref) : Option String := (t.dataCenters.get? d).map (·.uuid)
def rackUUID (t : Topology) (r : Ref) : Option String := (t.racks.get? r).map (·.uuid)
def hostUUID (t : Topology) (h : Ref) : Option String := (t.hosts.get? h).map (·.uuid)

/-- The child maps are keyed by the UUIDs of the children, and each child's parent pointer is its
container. -/
structure Keyed (t : Topology) : Prop where
  dataCenter : ∀ k p, t.root.dataCenters.lookup k = some p →
    ∃ d dc, p = some d ∧ t.dataCenters.get? d = some dc ∧ dc.uuid = k
  rack : ∀ d dc, t.HasDataCenter d → t.dataCenters.get? d = some dc →
    ∀ k p, dc.racks.lookup k = some p →
      ∃ r rack, p = some r ∧ t.racks.get? r = some rack ∧ rack.uuid = k ∧ rack.parent = some d
  host : ∀ r rack, t.HasRack r → t.racks.get? r = some rack →
    ∀ k p, rack.hosts.lookup k = some p →
      ∃ h host, p = some h ∧ t.hosts.get? h = some host ∧ host.uuid = k ∧ host.parent = some r

/-- No two hosts of the tree have the same UUID. -/
def UniqueHosts (t : Topology) : Prop :=
  ∀ h h' u, t.HasHost h → t.HasHost h' → t.hostUUID h = some u → t.hostUUID h' = some u → h = h'

/-- No two racks of the tree have the same UUID. -/
def UniqueRacks (t : Topology) : Prop :=
  ∀ r r' u, t.HasRack r → t.HasRack r' → t.rackUUID r = some u → t.rackUUID r' = some u → r = r'

/-- No data center, rack or host of the tree has an empty UUID. -/
structure NonemptyUUIDs (t : Topology) : Prop where
  dataCenter : ∀ d, t.HasDataCenter d → t.dataCenterUUID d ≠ some ""
  rack : ∀ r, t.HasRack r → t.rackUUID r ≠ some ""
  host : ∀ h, t.HasHost h → t.hostUUID h ≠ some ""

/-- What is assumed of the trees of libnebu-common. Data centers are unique as they are keyed in
one map. -/
structure WellFormed (t : Topology) : Prop where
  keyed : t.Keyed
  uniqueRacks : t.UniqueRacks
  uniqueHosts : t.UniqueHosts
  nonempty : t.NonemptyUUIDs

theorem wellFormed_childless (uuid : String) : (childless uuid).WellFormed := by
  have hdc : ∀ d, ¬ (childless uuid).HasDataCenter d := by
    rintro d ⟨k, h⟩
    cases h
  have hrack : ∀ r, ¬ (childless uuid).HasRack r := fun r ⟨d, h, _⟩ => hdc d h
  have hhost : ∀ h, ¬ (childless uuid).HasHost h := fun h ⟨r, hr, _⟩ => hrack r hr
  exact ⟨⟨fun k p h => (by cases h), fun d _ h => absurd h (hdc d),
      fun r _ h => absurd h (hrack r)⟩,
    fun r _ _ h => absurd h (hrack r), fun h _ _ hh => absurd hh (hhost h),
    ⟨fun d h => absurd h (hdc d), fun r h => absurd h (hrack r), fun h hh => absurd hh (hhost h)⟩⟩

/-- A map with one entry. -/
def oneChild (k : String) (child : Ref) : UnorderedMap String Ptr :=
  (∅ : UnorderedMap String Ptr).insert k (some child)

theorem lookup_oneChild {k k' : String} {child : Ref} {p : Ptr} :
    (oneChild k child).lookup k' = some p ↔ k' = k ∧ p = some child := by
  rw [oneChild, UnorderedMap.lookup_insert]
  split
  next h => simp [h, eq_comm]
  next h => simp [h]

/-- A tree with one data center that holds one rack that holds one host. -/
def single (dcID rackID hostID : String) : Topology where
  root := ⟨"", oneChild dcID 0⟩
  dataCenters := ⟨[⟨dcID, oneChild rackID 0⟩]⟩
  racks := ⟨[⟨rackID, some 0, oneChild hostID 0⟩]⟩
  hosts := ⟨[⟨hostID, some 0⟩]⟩

/-- Every node of such a tree is the one at address 0. -/
theorem hasDataCenter_single {dcID rackID hostID : String} {d : Ref}
    (h : (single dcID rackID hostID).HasDataCenter d) : d = 0 := by
  obtain ⟨k, hl⟩ := h
  exact Option.some.inj (lookup_oneChild.mp hl).2

theorem hasRack_single {dcID rackID hostID : String} {r : Ref}
    (h : (single dcID rackID hostID).HasRack r) : r = 0 := by
  obtain ⟨d, hd, dc, k, hget, hl⟩ := h
  obtain rfl := hasDataCenter_single hd
  cases hget
  exact Option.some.inj (lookup_oneChild.mp hl).2

theorem hasHost_single {dcID rackID hostID : String} {h : Ref}
    (hh : (single dcID rackID hostID).HasHost h) : h = 0 := by
  obtain ⟨r, hr, rack, k, hget, hl⟩ := hh
  obtain rfl := hasRack_single hr
  cases hget
  exact Option.some.inj (lookup_oneChild.mp hl).2

/-- What can be checked of a tree node by node, also of nodes that hang nowhere. -/
structure Checked (t : Topology) : Prop where
  dataCenter : ∀ e ∈ t.root.dataCenters.entries,
    (e.2.bind t.dataCenters.get?).map (·.uuid) = some e.1
  rack : ∀ d < t.dataCenters.next, ∀ dc ∈ t.dataCenters.get? d, ∀ e ∈ dc.racks.entries,
    (e.2.bind t.racks.get?).map (fun rack => (rack.uuid, rack.parent)) = some (e.1, some d)
  host : ∀ r < t.racks.next, ∀ rack ∈ t.racks.get? r, ∀ e ∈ rack.hosts.entries,
    (e.2.bind t.hosts.get?).map (fun host => (host.uuid, host.parent)) = some (e.1, some r)
  uniqueRacks : (t.racks.cells.map (·.uuid)).Nodup
  uniqueHosts : (t.hosts.cells.map (·.uuid)).Nodup
  nonempty : "" ∉ t.dataCenters.cells.map (·.uuid) ++ t.racks.cells.map (·.uuid) ++
    t.hosts.cells.map (·.uuid)

theorem Checked.wellFormed {t : Topology} (h : t.Checked) : t.WellFormed := by
  have hnonempty := h.nonempty
  rw [List.mem_append, List.mem_append, not_or, not_or] at hnonempty
  obtain ⟨⟨hdc, hrack⟩, hhost⟩ := hnonempty
  refine ⟨⟨fun k p hl => ?_, fun d dc _ hget k p hl => ?_, fun r rack _ hget k p hl => ?_⟩,
    fun r r' u _ _ => Store.eq_of_nodup_map h.uniqueRacks,
    fun h' h'' u _ _ => Store.eq_of_nodup_map h.uniqueHosts,
    ⟨fun d _ hd => hdc (Store.mem_map_of_get? hd), fun r _ hr => hrack (Store.mem_map_of_get? hr),
      fun h' _ hh => hhost (Store.mem_map_of_get? hh)⟩⟩
  · obtain ⟨dc, hget, huuid⟩ := Option.map_eq_some_iff.mp
      (h.dataCenter ⟨k, p⟩ (AList.mem_lookup_iff.mp hl))
    obtain ⟨d, rfl, hget⟩ := Option.bind_eq_some_iff.mp hget
    exact ⟨d, dc, rfl, hget, huuid⟩
  · obtain ⟨rack, hget', heq⟩ := Option.map_eq_some_iff.mp
      (h.rack d (Store.lt_next_of_some hget) dc hget ⟨k, p⟩ (AList.mem_lookup_iff.mp hl))
    obtain ⟨r, rfl, hget'⟩ := Option.bind_eq_some_iff.mp hget'
    obtain ⟨huuid, hparent⟩ := Prod.mk.inj heq
    exact ⟨r, rack, rfl, hget', huuid, hparent⟩
  · obtain ⟨host, hget', heq⟩ := Option.map_eq_some_iff.mp
      (h.host r (Store.lt_next_of_some hget) rack hget ⟨k, p⟩ (AList.mem_lookup_iff.mp hl))
    obtain ⟨h', rfl, hget'⟩ := Option.bind_eq_some_iff.mp hget'
    obtain ⟨huuid, hparent⟩ := Prod.mk.inj heq
    exact ⟨h', host, rfl, hget', huuid, hparent⟩

theorem entries_oneChild (k : String) (child : Ref) :
    (oneChild k child).entries = [⟨k, some child⟩] := rfl

theorem wellFormed_single {dcID rackID hostID : String} (hdc : dcID ≠ "") (hrack : rackID ≠ "")
    (hhost : hostID ≠ "") : (single dcID rackID hostID).WellFormed := by
  refine Checked.wellFormed ⟨?_, ?_, ?_, by simp [single], by simp [single], ?_⟩
  · simp [single, entries_oneChild, Store.get?]
  · simp [single, entries_oneChild, Store.get?, Store.next]
  · simp [single, entries_oneChild, Store.get?, Store.next]
  · simp [single, hdc.symm, hrack.symm, hhost.symm]

/-- A tree with three data centers, one of them empty, and an empty rack. -/
def several : Topology where
  root := ⟨"", ((oneChild "dcA" 0).insert "dcB" (some 1)).insert "dcC" (some 2)⟩
  dataCenters := ⟨[⟨"dcA", (oneChild "rackAA" 0).insert "rackAB" (some 1)⟩,
    ⟨"dcB", ∅⟩, ⟨"dcC", oneChild "rackCA" 2⟩]⟩
  racks := ⟨[⟨"rackAA", some 0, (oneChild "hostAAA" 0).insert "hostAAB" (some 1)⟩,
    ⟨"rackAB", some 0, ∅⟩, ⟨"rackCA", some 2, oneChild "hostCAA" 2⟩]⟩
  hosts := ⟨[⟨"hostAAA", some 0⟩, ⟨"hostAAB", some 0⟩, ⟨"hostCAA", some 2⟩]⟩

theorem wellFormed_several : several.WellFormed :=
  Checked.wellFormed
    { dataCenter := by decide
      rack := by decide
      host := by decide
      uniqueRacks := by decide
      uniqueHosts := by decide
      nonempty := by decide }

/-! ## Walking a keyed tree -/

namespace Keyed

variable {t : Topology} (hk : t.Keyed)
include hk

theorem dataCenter_get {d : Ref} (h : t.HasDataCenter d) :
    ∃ dc, t.dataCenters.get? d = some dc ∧ t.root.dataCenters.lookup dc.uuid = some (some d) := by
  obtain ⟨k, hl⟩ := h
  obtain ⟨d', dc, heq, hget, huuid⟩ := hk.dataCenter k _ hl
  cases heq
  exact ⟨dc, hget, by rw [huuid]; exact hl⟩

theorem rack_get {d r : Ref} (h : t.HasDataCenter d) (hr : t.DataCenterHolds d r) :
    ∃ dc rack, t.dataCenters.get? d = some dc ∧ t.racks.get? r = some rack ∧
      dc.racks.lookup rack.uuid = some (some r) ∧ rack.parent = some d := by
  obtain ⟨dc, k, hdc, hl⟩ := hr
  obtain ⟨r', rack, heq, hget, huuid, hparent⟩ := hk.rack d dc h hdc k _ hl
  cases heq
  exact ⟨dc, rack, hdc, hget, by rw [huuid]; exact hl, hparent⟩

theorem host_get {r h : Ref} (hr : t.HasRack r) (hh : t.RackHolds r h) :
    ∃ rack host, t.racks.get? r = some rack ∧ t.hosts.get? h = some host ∧
      rack.hosts.lookup host.uuid = some (some h) ∧ host.parent = some r := by
  obtain ⟨rack, k, hrack, hl⟩ := hh
  obtain ⟨h', host, heq, hget, huuid, hparent⟩ := hk.host r rack hr hrack k _ hl
  cases heq
  exact ⟨rack, host, hrack, hget, by rw [huuid]; exact hl, hparent⟩

theorem lookup_dataCenters {k : String} {p : Ptr} :
    t.root.dataCenters.lookup k = some p ↔
      ∃ d, p = some d ∧ t.HasDataCenter d ∧ t.dataCenterUUID d = some k := by
  constructor
  · intro hl
    obtain ⟨d, dc, rfl, hget, huuid⟩ := hk.dataCenter k p hl
    exact ⟨d, rfl, ⟨k, hl⟩, by rw [dataCenterUUID, hget, ← huuid]; rfl⟩
  · rintro ⟨d, rfl, hd, huuid⟩
    obtain ⟨dc, hget, hl⟩ := hk.dataCenter_get hd
    rw [dataCenterUUID, hget] at huuid
    rwa [show dc.uuid = k from Option.some.inj huuid] at hl

theorem lookup_racks {d : Ref} {dc : PhysicalDataCenter} (hd : t.HasDataCenter d)
    (hdc : t.dataCenters.get? d = some dc) {k : String} {p : Ptr} :
    dc.racks.lookup k = some p ↔
      ∃ r, p = some r ∧ t.DataCenterHolds d r ∧ t.rackUUID r = some k := by
  constructor
  · intro hl
    obtain ⟨r, rack, rfl, hget, huuid, -⟩ := hk.rack d dc hd hdc k p hl
    exact ⟨r, rfl, ⟨dc, k, hdc, hl⟩, by rw [rackUUID, hget, ← huuid]; rfl⟩
  · rintro ⟨r, rfl, hr, huuid⟩
    obtain ⟨dc', rack, hdc', hget, hl, -⟩ := hk.rack_get hd hr
    obtain rfl : dc = dc' := Option.some.inj (hdc.symm.trans hdc')
    rw [rackUUID, hget] at huuid
    rwa [show rack.uuid = k from Option.some.inj huuid] at hl

theorem lookup_hosts {r : Ref} {rack : PhysicalRack} (hr : t.HasRack r)
    (hrack : t.racks.get? r = some rack) {k : String} {p : Ptr} :
    rack.hosts.lookup k = some p ↔
      ∃ h, p = some h ∧ t.RackHolds r h ∧ t.hostUUID h = some k := by
  constructor
  · intro hl
    obtain ⟨h, host, rfl, hget, huuid, -⟩ := hk.host r rack hr hrack k p hl
    exact ⟨h, rfl, ⟨rack, k, hrack, hl⟩, by rw [hostUUID, hget, ← huuid]; rfl⟩
  · rintro ⟨h, rfl, hh, huuid⟩
    obtain ⟨rack', host, hrack', hget, hl, -⟩ := hk.host_get hr hh
    obtain rfl : rack = rack' := Option.some.inj (hrack.symm.trans hrack')
    rw [hostUUID, hget] at huuid
    rwa [show host.uuid = k from Option.some.inj huuid] at hl

/-- Whatever an iteration of the data centers visits is one of them; and it visits each. -/
theorem mem_dataCenters {o : Orders} {it : Σ _ : String, Ptr}
    (h : it ∈ t.root.dataCenters.iterate o.dataCenters) :
    ∃ d dc, it.2 = some d ∧ t.HasDataCenter d ∧ t.dataCenters.get? d = some dc := by
  obtain ⟨d, hp, hd, -⟩ := hk.lookup_dataCenters.mp (UnorderedMap.mem_iterate.mp h)
  obtain ⟨dc, hget, -⟩ := hk.dataCenter_get hd
  exact ⟨d, dc, hp, hd, hget⟩

theorem exists_mem_dataCenters (o : Orders) {d : Ref} (hd : t.HasDataCenter d) :
    ∃ it ∈ t.root.dataCenters.iterate o.dataCenters, it.2 = some d := by
  obtain ⟨dc, -, hl⟩ := hk.dataCenter_get hd
  exact ⟨⟨dc.uuid, some d⟩, UnorderedMap.mem_iterate.mpr hl, rfl⟩

theorem mem_racks {o : Orders} {d : Ref} {dc : PhysicalDataCenter} (hd : t.HasDataCenter d)
    (hdc : t.dataCenters.get? d = some dc) {it : Σ _ : String, Ptr}
    (h : it ∈ dc.racks.iterate (o.racks (some d))) :
    ∃ r rack, it.2 = some r ∧ t.DataCenterHolds d r ∧ t.racks.get? r = some rack := by
  obtain ⟨r, hp, hr, -⟩ := (hk.lookup_racks hd hdc).mp (UnorderedMap.mem_iterate.mp h)
  obtain ⟨-, rack, -, hget, -, -⟩ := hk.rack_get hd hr
  exact ⟨r, rack, hp, hr, hget⟩

theorem exists_mem_racks (o : Orders) {d r : Ref} {dc : PhysicalDataCenter}
    (hd : t.HasDataCenter d) (hdc : t.dataCenters.get? d = some dc) (hr : t.DataCenterHolds d r) :
    ∃ it ∈ dc.racks.iterate (o.racks (some d)), it.2 = some r := by
  obtain ⟨dc', rack, hdc', -, hl, -⟩ := hk.rack_get hd hr
  obtain rfl : dc = dc' := Option.some.inj (hdc.symm.trans hdc')
  exact ⟨⟨rack.uuid, some r⟩, UnorderedMap.mem_iterate.mpr hl, rfl⟩

/-! ## The searches -/

theorem findHostInRack_finds {r : Ref} (hr : t.HasRack r) (hostID : String) :
    Finds (TopologyManager.findHostInRack t (some r) hostID) fun h =>
      t.RackHolds r h ∧ t.hostUUID h = some hostID := by
  obtain ⟨d, hd, hdr⟩ := hr
  obtain ⟨-, rack, -, hrack, -, -⟩ := hk.rack_get hd hdr
  rw [TopologyManager.findHostInRack, Store.deref?_some, hrack]
  exact lookup_finds fun p => hk.lookup_hosts ⟨d, hd, hdr⟩ hrack

theorem findRack_finds {d : Ref} (hd : t.HasDataCenter d) (rackID : String) :
    Finds (TopologyManager.findRack t (some d) rackID) fun r =>
      t.DataCenterHolds d r ∧ t.rackUUID r = some rackID := by
  obtain ⟨dc, hdc, -⟩ := hk.dataCenter_get hd
  rw [TopologyManager.findRack, Store.deref?_some, hdc]
  exact lookup_finds fun p => hk.lookup_racks hd hdc

theorem findHost_finds (hu : t.UniqueHosts) (o : Orders) {d : Ref} (hd : t.HasDataCenter d)
    (hostID : String) :
    Finds (TopologyManager.findHost t o (some d) hostID) fun h =>
      (∃ r, t.DataCenterHolds d r ∧ t.RackHolds r h) ∧ t.hostUUID h = some hostID := by
  obtain ⟨dc, hdc, -⟩ := hk.dataCenter_get hd
  have hloop : Finds (firstFound (fun it => TopologyManager.findHostInRack t it.2 hostID)
        (dc.racks.iterate (o.racks (some d))))
      fun h => ∃ r, t.DataCenterHolds d r ∧ t.RackHolds r h ∧ t.hostUUID h = some hostID := by
    refine firstFound_finds_targets (fun r hr => hk.exists_mem_racks o hd hdc hr)
      (fun it hit => ?_) ?_
    · obtain ⟨r, rack, hp, hr, -⟩ := hk.mem_racks hd hdc hit
      refine ⟨r, hp, hr, ?_⟩
      rw [hp]
      exact hk.findHostInRack_finds ⟨d, hd, hr⟩ hostID
    · rintro r r' h h' hr hr' ⟨hh, huuid⟩ ⟨hh', huuid'⟩
      exact hu h h' hostID ⟨r, ⟨d, hd, hr⟩, hh⟩ ⟨r', ⟨d, hd, hr'⟩, hh'⟩ huuid huuid'
  rw [TopologyManager.findHost, Store.deref?_some, hdc]
  refine hloop.congr fun h => ?_
  constructor
  · rintro ⟨r, hr, hh, huuid⟩
    exact ⟨⟨r, hr, hh⟩, huuid⟩
  · rintro ⟨⟨r, hr, hh⟩, huuid⟩
    exact ⟨r, hr, hh, huuid⟩

end Keyed

end Topology

/-! ## The queries of a manager -/

namespace TopologyManager

section Queries

variable {m : TopologyManager} {t : Topology} (hroot : m.physicalRoot = some t) (hk : t.Keyed)
include hroot hk

theorem getHostByID_finds (hu : t.UniqueHosts) (o : Orders) (hostID : String) :
    Finds (m.getHostByID o hostID) fun h => t.HasHost h ∧ t.hostUUID h = some hostID := by
  have hloop : Finds (firstFound (fun it => findHost t o it.2 hostID)
        (t.root.dataCenters.iterate o.dataCenters))
      fun h => ∃ d, t.HasDataCenter d ∧ (∃ r, t.DataCenterHolds d r ∧ t.RackHolds r h) ∧
        t.hostUUID h = some hostID := by
    refine firstFound_finds_targets (fun d hd => hk.exists_mem_dataCenters o hd)
      (fun it hit => ?_) ?_
    · obtain ⟨d, dc, hp, hd, -⟩ := hk.mem_dataCenters hit
      refine ⟨d, hp, hd, ?_⟩
      rw [hp]
      exact hk.findHost_finds hu o hd hostID
    · rintro d d' h h' hd hd' ⟨⟨r, hr, hh⟩, huuid⟩ ⟨⟨r', hr', hh'⟩, huuid'⟩
      exact hu h h' hostID ⟨r, ⟨d, hd, hr⟩, hh⟩ ⟨r', ⟨d', hd', hr'⟩, hh'⟩ huuid huuid'
  rw [getHostByID, hroot]
  refine hloop.congr fun h => ?_
  constructor
  · rintro ⟨d, hd, ⟨r, hr, hh⟩, huuid⟩
    exact ⟨⟨r, ⟨d, hd, hr⟩, hh⟩, huuid⟩
  · rintro ⟨⟨r, ⟨d, hd, hr⟩, hh⟩, huuid⟩
    exact ⟨d, hd, ⟨r, hr, hh⟩, huuid⟩

theorem getRackByID_finds (hu : t.UniqueRacks) (o : Orders) (rackID : String) :
    Finds (m.getRackByID o rackID) fun r => t.HasRack r ∧ t.rackUUID r = some rackID := by
  have hloop : Finds (firstFound (fun it => findRack t it.2 rackID)
        (t.root.dataCenters.iterate o.dataCenters))
      fun r => ∃ d, t.HasDataCenter d ∧ t.DataCenterHolds d r ∧ t.rackUUID r = some rackID := by
    refine firstFound_finds_targets (fun d hd => hk.exists_mem_dataCenters o hd)
      (fun it hit => ?_) ?_
    · obtain ⟨d, dc, hp, hd, -⟩ := hk.mem_dataCenters hit
      refine ⟨d, hp, hd, ?_⟩
      rw [hp]
      exact hk.findRack_finds hd rackID
    · rintro d d' r r' hd hd' ⟨hr, huuid⟩ ⟨hr', huuid'⟩
      exact hu r r' rackID ⟨d, hd, hr⟩ ⟨d', hd', hr'⟩ huuid huuid'
  rw [getRackByID, hroot]
  refine hloop.congr fun r => ?_
  constructor
  · rintro ⟨d, hd, hr, huuid⟩
    exact ⟨⟨d, hd, hr⟩, huuid⟩
  · rintro ⟨⟨d, hd, hr⟩, huuid⟩
    exact ⟨d, hd, hr, huuid⟩

theorem getDataCenterByID_finds (dataCenterID : String) :
    Finds (m.getDataCenterByID dataCenterID) fun d =>
      t.HasDataCenter d ∧ t.dataCenterUUID d = some dataCenterID := by
  rw [getDataCenterByID, hroot]
  exact lookup_finds fun p => hk.lookup_dataCenters

/-- **Where a host is.** For a host in the tree the two navigating queries name its rack and its
data center. -/
theorem idsForHost_of_held (hu : t.UniqueHosts) (o : Orders) {hostID : String} {d r h : Ref}
    (hd : t.HasDataCenter d) (hr : t.DataCenterHolds d r) (hh : t.RackHolds r h)
    (huuid : t.hostUUID h = some hostID) :
    ∃ rackID dcID, t.rackUUID r = some rackID ∧ t.dataCenterUUID d = some dcID ∧
      m.getRackIDForHost o hostID = .ok rackID ∧ m.getDataCenterIDForHost o hostID = .ok dcID := by
  have hfound := (getHostByID_finds hroot hk hu o hostID).eq_some ⟨⟨r, ⟨d, hd, hr⟩, hh⟩, huuid⟩
  obtain ⟨dc, rack, hdc, hrack, -, hparent⟩ := hk.rack_get hd hr
  obtain ⟨-, host, -, hhost, -, hup⟩ := hk.host_get ⟨d, hd, hr⟩ hh
  refine ⟨rack.uuid, dc.uuid, by simp [Topology.rackUUID, hrack],
    by simp [Topology.dataCenterUUID, hdc], ?_, ?_⟩
  · simp only [getRackIDForHost, hfound, hroot, follow, bind, Except.bind, hhost, hup,
      Store.deref?_some, hrack, pure, Except.pure]
  · simp only [getDataCenterIDForHost, hfound, hroot, follow, bind, Except.bind, hhost, hup,
      Store.deref?_some, hrack, hparent, hdc, pure, Except.pure]

/-- A host that is not in the tree has no location. -/
theorem idsForHost_of_absent (hu : t.UniqueHosts) (o : Orders) {hostID : String}
    (habsent : ∀ h, t.HasHost h → t.hostUUID h ≠ some hostID) :
    m.getRackIDForHost o hostID = .ok ID_UNKNOWN ∧
      m.getDataCenterIDForHost o hostID = .ok ID_UNKNOWN := by
  have hnone := (getHostByID_finds hroot hk hu o hostID).eq_none fun h hh => habsent h hh.1 hh.2
  rw [getRackIDForHost, getDataCenterIDForHost, hnone]
  exact ⟨rfl, rfl⟩

end Queries

/-! ## Runs of refreshes -/

/-- The tree an answer brings, if it brings one. -/
def accepted : Except NebuServerException (Option Topology) → Option Topology
  | .ok t => t
  | .error _ => none

/-- The last tree brought by a sequence of answers; the initial root before the first. -/
def lastAccepted (answers : List (Except NebuServerException (Option Topology))) : Topology :=
  (answers.filterMap accepted).getLast?.getD (.childless ID_UNKNOWN)

/-- A refresh replaces the root by the tree the answer brings, and reports whether it did. -/
theorem refreshTopology_eq (m : TopologyManager)
    (answer : Except NebuServerException (Option Topology)) :
    m.refreshTopology answer =
      ((accepted answer).isSome, ⟨(accepted answer).or m.physicalRoot⟩) := by
  rcases answer with ex | _ | t <;> rfl

/-- The root is never null: it is the last accepted tree. -/
theorem runRefreshes_root (answers : List (Except NebuServerException (Option Topology))) :
    (runRefreshes answers).physicalRoot = some (lastAccepted answers) := by
  suffices h : ∀ m : TopologyManager, ∀ t, m.physicalRoot = some t →
      (answers.foldl (fun m answer => (m.refreshTopology answer).2) m).physicalRoot =
        some ((answers.filterMap accepted).getLast?.getD t) from h .init _ rfl
  induction answers with
  | nil => exact fun m t hm => hm
  | cons answer rest ih =>
    intro m t hm
    rw [List.foldl_cons, refreshTopology_eq, List.filterMap_cons]
    cases haccepted : accepted answer with
    | none => exact ih _ t hm
    | some t' =>
      refine (ih _ t' rfl).trans ?_
      show _ = some ((t' :: rest.filterMap accepted).getLast?.getD t)
      rw [List.getLast?_cons]
      rfl

theorem lastAccepted_wellFormed
    {answers : List (Except NebuServerException (Option Topology))}
    (hwf : ∀ t, .ok (some t) ∈ answers → t.WellFormed) : (lastAccepted answers).WellFormed := by
  rw [lastAccepted]
  cases hlast : (answers.filterMap accepted).getLast? with
  | none => exact Topology.wellFormed_childless _
  | some t =>
    obtain ⟨answer, hmem, hbrings⟩ := List.mem_filterMap.mp (List.mem_of_getLast? hlast)
    rcases answer with ex | _ | t' <;> cases hbrings
    exact hwf t hmem

/-- **The topology queries are coherent**, with each other and with the last accepted tree. After
any sequence of refreshes that brings well-formed trees only, the root is the last tree brought;
each lookup finds the node with the given UUID at its level, or null; the rack and the data center
named for a host are those that hold it; and a failed refresh leaves the manager alone. -/
theorem queries_coherent (answers : List (Except NebuServerException (Option Topology)))
    (hwf : ∀ t, .ok (some t) ∈ answers → t.WellFormed) :
    let m := runRefreshes answers
    let t := lastAccepted answers
    m.physicalRoot = some t ∧
      (∀ answer, accepted answer = none → m.refreshTopology answer = (false, m)) ∧
      (∀ o id, Finds (m.getHostByID o id) fun h => t.HasHost h ∧ t.hostUUID h = some id) ∧
      (∀ o id, Finds (m.getRackByID o id) fun r => t.HasRack r ∧ t.rackUUID r = some id) ∧
      (∀ id, Finds (m.getDataCenterByID id) fun d =>
        t.HasDataCenter d ∧ t.dataCenterUUID d = some id) ∧
      (∀ o id d r h, t.HasDataCenter d → t.DataCenterHolds d r → t.RackHolds r h →
        t.hostUUID h = some id → ∃ rackID dcID,
          m.getRackIDForHost o id = .ok rackID ∧ m.getRackByID o rackID = .ok (some r) ∧
          m.getDataCenterIDForHost o id = .ok dcID ∧ m.getDataCenterByID dcID = .ok (some d)) ∧
      (∀ o id, (∀ h, t.HasHost h → t.hostUUID h ≠ some id) →
        m.getRackIDForHost o id = .ok ID_UNKNOWN ∧ m.getRackByID o ID_UNKNOWN = .ok none ∧
        m.getDataCenterIDForHost o id = .ok ID_UNKNOWN ∧
        m.getDataCenterByID ID_UNKNOWN = .ok none) := by
  intro m t
  have hroot : m.physicalRoot = some t := runRefreshes_root answers
  have ht : t.WellFormed := lastAccepted_wellFormed hwf
  have hhost := getHostByID_finds hroot ht.keyed ht.uniqueHosts
  have hrack := getRackByID_finds hroot ht.keyed ht.uniqueRacks
  have hdc := getDataCenterByID_finds hroot ht.keyed
  refine ⟨hroot, fun answer hnone => ?_, hhost, hrack, hdc, fun o id d r h hd hr hh huuid => ?_,
    fun o id habsent => ?_⟩
  · rw [refreshTopology_eq, hnone]
    rfl
  · obtain ⟨rackID, dcID, hrackID, hdcID, hq, hq'⟩ :=
      idsForHost_of_held hroot ht.keyed ht.uniqueHosts o hd hr hh huuid
    exact ⟨rackID, dcID, hq, (hrack o rackID).eq_some ⟨⟨d, hd, hr⟩, hrackID⟩, hq',
      (hdc dcID).eq_some ⟨hd, hdcID⟩⟩
  · -- no node has the UUID that stands for an unknown one
    obtain ⟨hq, hq'⟩ := idsForHost_of_absent hroot ht.keyed ht.uniqueHosts o habsent
    exact ⟨hq, (hrack o _).eq_none fun r hr => ht.nonempty.rack r hr.1 hr.2, hq',
      (hdc _).eq_none fun d hd => ht.nonempty.dataCenter d hd.1 hd.2⟩

/-- A tree that is replaced by one of several data centers, and two refreshes that fail. -/
theorem queries_coherent_several :
    let o := Orders.stored
    let m := runRefreshes [.ok (some (.single "dcB" "rackBA" "hostBAA")), .error ⟨"down"⟩,
      .ok (some .several), .ok none]
    m.physicalRoot = some .several ∧
      m.refreshTopology (.error ⟨"down"⟩) = (false, m) ∧
      (∃ rackID dcID, m.getRackIDForHost o "hostCAA" = .ok rackID ∧
        m.getRackByID o rackID = .ok (some 2) ∧ m.getDataCenterIDForHost o "hostCAA" = .ok dcID ∧
        m.getDataCenterByID dcID = .ok (some 2)) ∧
      m.getRackByID o "rackAB" = .ok (some 1) ∧ m.getDataCenterByID "dcB" = .ok (some 1) ∧
      m.getRackIDForHost o "hostBAA" = .ok TopologyManager.ID_UNKNOWN := by
  intro o m
  obtain ⟨hroot, hfail, -, hracks, hdcs, hheld, habsent⟩ := queries_coherent
    [.ok (some (.single "dcB" "rackBA" "hostBAA")), .error ⟨"down"⟩, .ok (some .several), .ok none]
    (by simp [Topology.wellFormed_several, Topology.wellFormed_single])
  have hdcA : Topology.several.HasDataCenter 0 := ⟨"dcA", rfl⟩
  have hdcB : Topology.several.HasDataCenter 1 := ⟨"dcB", rfl⟩
  have hdcC : Topology.several.HasDataCenter 2 := ⟨"dcC", rfl⟩
  refine ⟨hroot, hfail _ rfl, hheld o "hostCAA" 2 2 2 hdcC ⟨_, "rackCA", rfl, rfl⟩
    ⟨_, "hostCAA", rfl, rfl⟩ rfl,
    (hracks o "rackAB").eq_some ⟨⟨0, hdcA, _, "rackAB", rfl, rfl⟩, rfl⟩,
    (hdcs "dcB").eq_some ⟨hdcB, rfl⟩, (habsent o "hostBAA" fun h _ huuid => ?_).1⟩
  -- the host of the tree that was replaced is gone
  have hmem := Store.mem_map_of_get? huuid
  revert hmem
  decide

end TopologyManager

end NebuApp
