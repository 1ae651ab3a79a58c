import NebuApp.Topology.Queries

/-!
# The topology writer and the topology manager

`createHostMap` flattens a topology into one map and `write` climbs the parent pointers from the
hosts it finds there; the manager searches level by level. Where a VM is, `Places` says in terms of
who holds whom. On a keyed tree with unique hosts a VM has at most one `Placement`, the file holds
one line for each placement, and the manager's answers make up the same lines.
-/

namespace NebuApp

open Search

/-! ## The host map -/

/-- The entries of the hosts of a rack, and of the racks of a data center. -/
def Topology.hostEntries (t : Topology) (o : Orders) (rack : Ptr) : List (Σ _ : String, Ptr) :=
  ((t.racks.deref? rack).map fun rack' => rack'.hosts.iterate (o.hosts rack)).getD []

def Topology.rackEntries (t : Topology) (o : Orders) (dc : Ptr) : List (Σ _ : String, Ptr) :=
  ((t.dataCenters.deref? dc).map fun dc' =>
    (dc'.racks.iterate (o.racks dc)).flatMap fun rack => t.hostEntries o rack.2).getD []

namespace Topology.Keyed

variable {t : Topology} (hk : t.Keyed) (o : Orders)
include hk

theorem mem_hostEntries {r : Ref} (hr : t.HasRack r) (k : String) (p : Ptr) :
    ⟨k, p⟩ ∈ t.hostEntries o (some r) ↔
      ∃ h, p = some h ∧ t.RackHolds r h ∧ t.hostUUID h = some k := by
  obtain ⟨d, hd, hdr⟩ := hr
  obtain ⟨-, rack, -, hrack, -, -⟩ := hk.rack_get hd hdr
  rw [Topology.hostEntries, Store.deref?_some, hrack]
  show ⟨k, p⟩ ∈ rack.hosts.iterate (o.hosts (some r)) ↔ _
  rw [UnorderedMap.mem_iterate]
  exact hk.lookup_hosts ⟨d, hd, hdr⟩ hrack

theorem mem_rackEntries {d : Ref} (hd : t.HasDataCenter d) (k : String) (p : Ptr) :
    ⟨k, p⟩ ∈ t.rackEntries o (some d) ↔
      ∃ h, p = some h ∧ (∃ r, t.DataCenterHolds d r ∧ t.RackHolds r h) ∧
        t.hostUUID h = some k := by
  obtain ⟨dc, hdc, -⟩ := hk.dataCenter_get hd
  rw [Topology.rackEntries, Store.deref?_some, hdc]
  show (⟨k, p⟩ : Σ _ : String, Ptr) ∈ (dc.racks.iterate (o.racks (some d))).flatMap _ ↔ _
  rw [List.mem_flatMap]
  constructor
  · rintro ⟨it, hit, hmem⟩
    obtain ⟨r, rack, hp, hr, -⟩ := hk.mem_racks hd hdc hit
    rw [hp] at hmem
    obtain ⟨h, hph, hh, huuid⟩ := (hk.mem_hostEntries o ⟨d, hd, hr⟩ k p).mp hmem
    exact ⟨h, hph, ⟨r, hr, hh⟩, huuid⟩
  · rintro ⟨h, hph, ⟨r, hr, hh⟩, huuid⟩
    obtain ⟨it, hit, hp⟩ := hk.exists_mem_racks o hd hdc hr
    refine ⟨it, hit, ?_⟩
    rw [hp]
    exact (hk.mem_hostEntries o ⟨d, hd, hr⟩ k p).mpr ⟨h, hph, hh, huuid⟩

/-- `createHostMap` enters the hosts of all racks of all data centers, and faults nowhere. -/
theorem createHostMap_eq :
    createHostMap t o = .ok (insertAll ∅ ((t.root.dataCenters.iterate o.dataCenters).flatMap
      fun dc => t.rackEntries o dc.2)) := by
  refine foldlM_insertAll ∅ fun it hit map => ?_
  obtain ⟨d, dc, hp, hd, hdc⟩ := hk.mem_dataCenters hit
  have hracks : t.rackEntries o it.2 = (dc.racks.iterate (o.racks it.2)).flatMap
      fun rack => t.hostEntries o rack.2 := by
    rw [Topology.rackEntries, hp, Store.deref?_some, hdc]
    rfl
  have hfollow : follow (t.dataCenters.deref? it.2) = .ok dc := by
    rw [hp, Store.deref?_some, hdc]
    rfl
  rw [hracks, hfollow]
  refine foldlM_insertAll map fun rit hrit map' => ?_
  rw [hp] at hrit
  obtain ⟨r, rack, hrp, hr, hrack⟩ := hk.mem_racks hd hdc hrit
  rw [hrp, Topology.hostEntries, Store.deref?_some, hrack]
  rfl

/-- **The host map** holds the hosts of the tree under their UUIDs. -/
theorem createHostMap_spec (hu : t.UniqueHosts) :
    ∃ map, createHostMap t o = .ok map ∧
      ∀ k p, map.lookup k = some p ↔ ∃ h, p = some h ∧ t.HasHost h ∧ t.hostUUID h = some k := by
  have hmem : ∀ k p, ⟨k, p⟩ ∈ (t.root.dataCenters.iterate o.dataCenters).flatMap
        (fun dc => t.rackEntries o dc.2) ↔
      ∃ h, p = some h ∧ t.HasHost h ∧ t.hostUUID h = some k := by
    intro k p
    rw [List.mem_flatMap]
    constructor
    · rintro ⟨it, hit, hmem⟩
      obtain ⟨d, dc, hp, hd, -⟩ := hk.mem_dataCenters hit
      rw [hp] at hmem
      obtain ⟨h, hph, ⟨r, hr, hh⟩, huuid⟩ := (hk.mem_rackEntries o hd k p).mp hmem
      exact ⟨h, hph, ⟨r, ⟨d, hd, hr⟩, hh⟩, huuid⟩
    · rintro ⟨h, hph, ⟨r, ⟨d, hd, hr⟩, hh⟩, huuid⟩
      obtain ⟨it, hit, hp⟩ := hk.exists_mem_dataCenters o hd
      refine ⟨it, hit, ?_⟩
      rw [hp]
      exact (hk.mem_rackEntries o hd k p).mpr ⟨h, hph, ⟨r, hr, hh⟩, huuid⟩
  refine ⟨_, hk.createHostMap_eq o, fun k p => ?_⟩
  rw [lookup_insertAll ∅ (fun v v' hv hv' => ?_), hmem]
  · simp
  · -- unique hosts make the last writer of a key its only one
    obtain ⟨h, rfl, hh, huuid⟩ := (hmem k v).mp hv
    obtain ⟨h', rfl, hh', huuid'⟩ := (hmem k v').mp hv'
    rw [hu h h' k hh hh' huuid huuid']

end Topology.Keyed

/-! ## Placements -/

/-- Where a VM is, under its name. -/
structure Placement where
  hostname : String
  dataCenterUUID : String
  rackUUID : String
  hostUUID : String
  deriving DecidableEq, Repr

/-- The line of a placement. -/
def Placement.line (p : Placement) : String :=
  p.hostname ++ "\t/" ++ p.dataCenterUUID ++ "/" ++ p.rackUUID ++ "/" ++ p.hostUUID ++ "\n"

namespace Topology

/-- The host that the VM names is in the tree, in the rack and the data center of the placement. -/
structure Places (t : Topology) (vm : VirtualMachine) (p : Placement) : Prop where
  hostname : p.hostname = vm.hostname
  hostUUID : p.hostUUID = vm.physicalHostID
  held : ∃ d r h, t.HasDataCenter d ∧ t.DataCenterHolds d r ∧ t.RackHolds r h ∧
    t.dataCenterUUID d = some p.dataCenterUUID ∧ t.rackUUID r = some p.rackUUID ∧
    t.hostUUID h = some p.hostUUID

open Classical in
/-- The placement of a VM whose host is in the tree. -/
noncomputable def placement? (t : Topology) (vm : VirtualMachine) : Option Placement :=
  if h : ∃ p, t.Places vm p then some h.choose else none

/-- The placements of the VMs whose hosts are in the tree, in order. -/
noncomputable def placements (t : Topology) (vms : List VirtualMachine) : List Placement :=
  vms.filterMap t.placement?

theorem placements_cons_none {t : Topology} {vm : VirtualMachine} (h : t.placement? vm = none)
    (rest : List VirtualMachine) : t.placements (vm :: rest) = t.placements rest :=
  List.filterMap_cons_none h

theorem placements_cons_some {t : Topology} {vm : VirtualMachine} {p : Placement}
    (h : t.placement? vm = some p) (rest : List VirtualMachine) :
    t.placements (vm :: rest) = p :: t.placements rest :=
  List.filterMap_cons_some h

namespace Keyed

variable {t : Topology} (hk : t.Keyed)
include hk

/-- A VM is placed iff the host it names is in the tree. -/
theorem exists_places_iff {vm : VirtualMachine} :
    (∃ p, t.Places vm p) ↔ ∃ h, t.HasHost h ∧ t.hostUUID h = some vm.physicalHostID := by
  constructor
  · rintro ⟨p, -, hhost, d, r, h, hd, hr, hh, -, -, huuid⟩
    exact ⟨h, ⟨r, ⟨d, hd, hr⟩, hh⟩, by rw [huuid, hhost]⟩
  · rintro ⟨h, ⟨r, ⟨d, hd, hr⟩, hh⟩, huuid⟩
    obtain ⟨dc, rack, hdc, hrack, -, -⟩ := hk.rack_get hd hr
    exact ⟨⟨vm.hostname, dc.uuid, rack.uuid, vm.physicalHostID⟩, rfl, rfl, d, r, h, hd, hr, hh,
      by rw [dataCenterUUID, hdc]; rfl, by rw [rackUUID, hrack]; rfl, huuid⟩

theorem placement?_eq_none_iff {vm : VirtualMachine} :
    t.placement? vm = none ↔ ∀ h, t.HasHost h → t.hostUUID h ≠ some vm.physicalHostID := by
  unfold placement?
  split
  next hp =>
    obtain ⟨h, hh, huuid⟩ := hk.exists_places_iff.mp hp
    exact ⟨fun hnone => (by cases hnone), fun habsent => absurd huuid (habsent h hh)⟩
  next hp =>
    exact ⟨fun _ h hh huuid => hp (hk.exists_places_iff.mpr ⟨h, hh, huuid⟩), fun _ => rfl⟩

variable (hu : t.UniqueHosts)
include hu

/-- A VM has at most one placement: the host is the one of its UUID, and parent pointers leave no
choice above it. -/
theorem places_unique {vm : VirtualMachine} {p q : Placement} (hp : t.Places vm p)
    (hq : t.Places vm q) : p = q := by
  obtain ⟨hname, hhost, d, r, h, hd, hr, hh, hdu, hru, hhu⟩ := hp
  obtain ⟨hname', hhost', d', r', h', hd', hr', hh', hdu', hru', hhu'⟩ := hq
  have hsame : p.hostUUID = q.hostUUID := hhost.trans hhost'.symm
  rw [← hsame] at hhu'
  obtain rfl := hu h h' _ ⟨r, ⟨d, hd, hr⟩, hh⟩ ⟨r', ⟨d', hd', hr'⟩, hh'⟩ hhu hhu'
  obtain rfl : r = r' := by
    obtain ⟨-, host, -, hget, -, hup⟩ := hk.host_get ⟨d, hd, hr⟩ hh
    obtain ⟨-, host', -, hget', -, hup'⟩ := hk.host_get ⟨d', hd', hr'⟩ hh'
    obtain rfl : host = host' := Option.some.inj (hget.symm.trans hget')
    exact Option.some.inj (hup.symm.trans hup')
  obtain rfl : d = d' := by
    obtain ⟨-, rack, -, hget, -, hup⟩ := hk.rack_get hd hr
    obtain ⟨-, rack', -, hget', -, hup'⟩ := hk.rack_get hd' hr'
    obtain rfl : rack = rack' := Option.some.inj (hget.symm.trans hget')
    exact Option.some.inj (hup.symm.trans hup')
  obtain ⟨_, _, _, _⟩ := p
  obtain ⟨_, _, _, _⟩ := q
  cases hname.trans hname'.symm
  cases hsame
  cases hdu.symm.trans hdu'
  cases hru.symm.trans hru'
  rfl

theorem placement?_eq_some_iff {vm : VirtualMachine} {p : Placement} :
    t.placement? vm = some p ↔ t.Places vm p := by
  unfold placement?
  split
  next h =>
    rw [Option.some.injEq]
    constructor
    · rintro rfl
      exact h.choose_spec
    · exact fun hp => hk.places_unique hu h.choose_spec hp
  next h => exact ⟨fun hp => (by cases hp), fun hp => absurd ⟨p, hp⟩ h⟩

end Keyed

end Topology

/-! ## The lines -/

/-- The lines made of the manager's answers, for the VMs whose host the manager finds. -/
def TopologyManager.locationLines (m : TopologyManager) (o : Orders) :
    List VirtualMachine → Except Fault (List String)
  | [] => pure []
  | vm :: rest => do
    match ← m.getHostByID o vm.physicalHostID with
    | none => m.locationLines o rest
    | some _ =>
      let dcID ← m.getDataCenterIDForHost o vm.physicalHostID
      let rackID ← m.getRackIDForHost o vm.physicalHostID
      let lines ← m.locationLines o rest
      pure ((vm.hostname ++ "\t/" ++ dcID ++ "/" ++ rackID ++ "/" ++ vm.physicalHostID ++ "\n") ::
        lines)

section Lines

variable {t : Topology} (hk : t.Keyed) (hu : t.UniqueHosts)
include hk hu

/-- **The manager's answers are the placements.** -/
theorem TopologyManager.locationLines_eq {m : TopologyManager} (hroot : m.physicalRoot = some t)
    (o : Orders) (vs : List VirtualMachine) :
    m.locationLines o vs = .ok ((t.placements vs).map Placement.line) := by
  induction vs with
  | nil => rfl
  | cons v vs ih =>
    have hfinds := TopologyManager.getHostByID_finds hroot hk hu o v.physicalHostID
    rw [TopologyManager.locationLines, ih]
    cases hplace : t.placement? v with
    | none =>
      have habsent := hk.placement?_eq_none_iff.mp hplace
      rw [hfinds.eq_none fun h hh => habsent h hh.1 hh.2, Topology.placements_cons_none hplace]
      rfl
    | some p =>
      obtain ⟨hname, hhost, d, r, h, hd, hr, hh, hdu, hru, hhu⟩ :=
        (hk.placement?_eq_some_iff hu).mp hplace
      rw [hhost] at hhu
      obtain ⟨rackID, dcID, hrackID, hdcID, hq, hq'⟩ :=
        TopologyManager.idsForHost_of_held hroot hk hu o hd hr hh hhu
      obtain rfl := Option.some.inj (hrackID.symm.trans hru)
      obtain rfl := Option.some.inj (hdcID.symm.trans hdu)
      rw [hfinds.eq_some ⟨⟨r, ⟨d, hd, hr⟩, hh⟩, hhu⟩, Topology.placements_cons_some hplace,
        List.map_cons, Placement.line, hname, hhost]
      simp only [bind, Except.bind, hq, hq', pure, Except.pure]

namespace TopologyWriter

variable {hostMap : UnorderedMap String Ptr}
  (hmap : ∀ k p, hostMap.lookup k = some p ↔ ∃ h, p = some h ∧ t.HasHost h ∧ t.hostUUID h = some k)
include hmap

/-- What the writer puts out for a VM: the line of its placement, if it has one. -/
theorem lineFor_eq (v : VirtualMachine) :
    lineFor t hostMap v = .ok ((t.placement? v).elim "" Placement.line) := by
  cases hplace : t.placement? v with
  | none =>
    have habsent := hk.placement?_eq_none_iff.mp hplace
    have hnone : hostMap.lookup v.physicalHostID = none := by
      cases hl : hostMap.lookup v.physicalHostID with
      | none => rfl
      | some p =>
        obtain ⟨h, -, hh, huuid⟩ := (hmap _ p).mp hl
        exact absurd huuid (habsent h hh)
    rw [lineFor, hnone]
    rfl
  | some p =>
    obtain ⟨hname, hhost, d, r, h, hd, hr, hh, hdu, hru, hhu⟩ :=
      (hk.placement?_eq_some_iff hu).mp hplace
    have hl := (hmap v.physicalHostID (some h)).mpr
      ⟨h, rfl, ⟨r, ⟨d, hd, hr⟩, hh⟩, by rw [hhu, hhost]⟩
    -- the nodes the writer climbs through
    obtain ⟨dc, rack, hdc, hrack, -, hparent⟩ := hk.rack_get hd hr
    obtain ⟨-, host, -, hget, -, hup⟩ := hk.host_get ⟨d, hd, hr⟩ hh
    have hhostUUID : host.uuid = p.hostUUID := by simpa [Topology.hostUUID, hget] using hhu
    have hrackUUID : rack.uuid = p.rackUUID := by simpa [Topology.rackUUID, hrack] using hru
    have hdcUUID : dc.uuid = p.dataCenterUUID := by
      simpa [Topology.dataCenterUUID, hdc] using hdu
    simp only [lineFor, hl, Store.deref?_some, hget, hup, hrack, hparent, hdc, follow, bind,
      Except.bind, pure, Except.pure, hrackUUID, hdcUUID, hhostUUID, ← hname]
    rfl

theorem writeLines_eq (heap : Store VirtualMachine) {vs : List VirtualMachine} :
    ∀ (vms : List Ptr) (output : String), vms.map heap.deref? = vs.map some →
      writeLines t heap hostMap vms output =
        .ok (output ++ String.join ((t.placements vs).map Placement.line)) := by
  induction vs with
  | nil =>
    intro vms output hvms
    rw [List.map_nil, List.map_eq_nil_iff] at hvms
    subst hvms
    simp [writeLines, Topology.placements, pure, Except.pure]
  | cons v vs ih =>
    intro vms output hvms
    obtain ⟨vm, rest, rfl, hv, hrest⟩ := List.map_eq_cons_iff.mp hvms
    have hfollow : follow (heap.deref? vm) = .ok v := by rw [hv]; rfl
    have hstep : writeLines t heap hostMap (vm :: rest) output = writeLines t heap hostMap rest
        (output ++ (t.placement? v).elim "" Placement.line) := by
      simp only [writeLines, hfollow, lineFor_eq hk hu hmap v, bind, Except.bind]
    rw [hstep, ih rest _ hrest, String.append_assoc]
    cases hplace : t.placement? v with
    | none => rw [Topology.placements_cons_none hplace, Option.elim_none, String.empty_append]
    | some p =>
      rw [Topology.placements_cons_some hplace, List.map_cons, String.join_cons, Option.elim_some]

end TopologyWriter

end Lines

namespace TopologyWriter

/-- **What `write` leaves.** On a keyed tree with unique hosts, a writer whose file opens leaves in
it the lines of the placements; a writer whose file does not open leaves the files as they were. -/
theorem write_eq_placements {t : Topology} (hk : t.Keyed) (hu : t.UniqueHosts) (w : TopologyWriter)
    (o : Orders) (heap : Store VirtualMachine) (opens : String → Bool) (files : Files)
    {vms : List Ptr} {vs : List VirtualMachine} (hvms : vms.map heap.deref? = vs.map some) :
    w.write o heap opens files (some t) vms = .ok (if opens w.filename
      then Function.update files w.filename
        (some (String.join ((t.placements vs).map Placement.line)))
      else files) := by
  obtain ⟨map, hcreate, hmap⟩ := hk.createHostMap_spec o hu
  have hwrite := writeLines_eq hk hu hmap heap vms "" hvms
  rw [String.empty_append] at hwrite
  by_cases hopen : opens w.filename
  · simp only [write, follow, bind, Except.bind, hcreate, if_pos hopen, hwrite, pure, Except.pure]
  · simp only [write, follow, bind, Except.bind, hcreate, if_neg hopen, pure, Except.pure]

/-- **The writer and the manager agree on every VM's location.** On a keyed tree with unique hosts,
for any VMs and any orders of iteration, a writer whose file opens leaves in it exactly the lines
that the answers of a manager holding the tree make up, one for each VM whose host the manager
finds, in the order of the VMs; a writer whose file does not open leaves the files as they were. -/
theorem write_eq_locationLines {t : Topology} (hk : t.Keyed) (hu : t.UniqueHosts)
    {m : TopologyManager} (hroot : m.physicalRoot = some t) (w : TopologyWriter) (o o' : Orders)
    (heap : Store VirtualMachine) (opens : String → Bool) (files : Files) {vms : List Ptr}
    {vs : List VirtualMachine} (hvms : vms.map heap.deref? = vs.map some) :
    ∃ lines, m.locationLines o' vs = .ok lines ∧
      w.write o heap opens files (some t) vms = .ok (if opens w.filename
        then Function.update files w.filename (some (String.join lines)) else files) := by
  exact ⟨_, TopologyManager.locationLines_eq hk hu hroot o' vs,
    write_eq_placements hk hu w o heap opens files hvms⟩

/-- A VM on a host of the tree, listed twice, and a VM on an unknown host. -/
theorem write_eq_locationLines_single :
    let o := Orders.stored
    let t := Topology.single "dcA" "rackAA" "hostAAA"
    let vmA : VirtualMachine := ⟨"vmA", "web", "hostAAA", "s1", .on⟩
    let vmB : VirtualMachine := ⟨"vmB", "db", "hostZ", "s1", .on⟩
    ∃ lines, (TopologyManager.mk (some t)).locationLines o [vmA, vmB, vmA] = .ok lines ∧
      (TopologyWriter.mk "topology.data").write o ⟨[vmA, vmB]⟩ (fun _ => true) (fun _ => none)
        (some t) [some 0, some 1, some 0] =
          .ok (Function.update (fun _ => none) "topology.data" (some (String.join lines))) := by
  intro o t vmA vmB
  have ht : t.WellFormed := Topology.wellFormed_single (by decide) (by decide) (by decide)
  have hroot : (TopologyManager.mk (some t)).physicalRoot = some t := rfl
  exact write_eq_locationLines ht.keyed ht.uniqueHosts hroot ⟨"topology.data"⟩ o o ⟨[vmA, vmB]⟩
    (fun _ => true) (fun _ => none) rfl

end TopologyWriter

end NebuApp
