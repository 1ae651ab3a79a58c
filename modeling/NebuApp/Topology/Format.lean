import NebuApp.Lib.Delimited
import NebuApp.Topology.Writer

/-!
# The topology file can be read back

`write` puts out a line for each placement. Its fields are set apart by a tab and slashes and the
lines by newlines, none of which is quoted, so that the file is unambiguous only as long as these
characters do not occur in the names. If they do not, the file determines the placements.
-/

namespace NebuApp

open Delimited

/-- A hostname without tab and newline. -/
def PlainHostname (name : String) : Prop := '\t' ∉ name.toList ∧ '\n' ∉ name.toList

/-- A UUID without slash and newline. -/
def PlainUUID (uuid : String) : Prop := '/' ∉ uuid.toList ∧ '\n' ∉ uuid.toList

/-- The UUIDs of the data centers, racks and hosts of the tree are plain. -/
structure Topology.PlainUUIDs (t : Topology) : Prop where
  dataCenter : ∀ d u, t.HasDataCenter d → t.dataCenterUUID d = some u → PlainUUID u
  rack : ∀ r u, t.HasRack r → t.rackUUID r = some u → PlainUUID u
  host : ∀ h u, t.HasHost h → t.hostUUID h = some u → PlainUUID u

namespace Placement

/-- A placement all of whose names are plain. -/
structure Plain (p : Placement) : Prop where
  hostname : PlainHostname p.hostname
  dataCenterUUID : PlainUUID p.dataCenterUUID
  rackUUID : PlainUUID p.rackUUID
  hostUUID : PlainUUID p.hostUUID

/-- The characters of the line of a placement, without the newline. -/
def text (p : Placement) : List Char :=
  p.hostname.toList ++ '\t' :: '/' :: (p.dataCenterUUID.toList ++ '/' ::
    (p.rackUUID.toList ++ '/' :: p.hostUUID.toList))

theorem line_toList (p : Placement) : p.line.toList = p.text ++ ['\n'] := by
  simp [line, text]

theorem Plain.newline_not_mem {p : Placement} (hp : p.Plain) : '\n' ∉ p.text := by
  simp [text, hp.hostname.2, hp.dataCenterUUID.2, hp.rackUUID.2, hp.hostUUID.2]

/-- The fields of a plain placement can be told apart in its line. -/
theorem text_inj {p q : Placement} (hp : p.Plain) (hq : q.Plain) (h : p.text = q.text) : p = q := by
  obtain ⟨hname, h₁⟩ := append_cons_inj hp.hostname.1 hq.hostname.1 h
  obtain ⟨hdc, h₂⟩ := append_cons_inj hp.dataCenterUUID.1 hq.dataCenterUUID.1 (List.cons.inj h₁).2
  obtain ⟨hrack, hhost⟩ := append_cons_inj hp.rackUUID.1 hq.rackUUID.1 h₂
  obtain ⟨_, _, _, _⟩ := p
  obtain ⟨_, _, _, _⟩ := q
  rw [mk.injEq]
  exact ⟨String.toList_inj.mp hname, String.toList_inj.mp hdc, String.toList_inj.mp hrack,
    String.toList_inj.mp hhost⟩

/-- The lines of a sequence of placements, as terminated pieces. -/
theorem join_lines_toList (ps : List Placement) :
    (String.join (ps.map line)).toList = terminate '\n' (ps.map text) := by
  rw [String.toList_join, terminate, List.flatMap_map, List.flatMap_map]
  exact List.flatMap_congr fun p _ => line_toList p

/-- **Plain placements can be told apart in the file.** -/
theorem join_lines_inj {ps qs : List Placement} (hp : ∀ p ∈ ps, p.Plain) (hq : ∀ q ∈ qs, q.Plain)
    (h : String.join (ps.map line) = String.join (qs.map line)) : ps = qs := by
  have htexts : terminate '\n' (ps.map text) = terminate '\n' (qs.map text) := by
    rw [← join_lines_toList, ← join_lines_toList, h]
  exact terminate_map_inj (fun _ => Plain.newline_not_mem) (fun _ _ => text_inj) hp hq htexts

end Placement

/-- The placements of VMs with plain hostnames in a tree with plain UUIDs are plain. -/
theorem Topology.placements_plain {t : Topology} (hk : t.Keyed) (hu : t.UniqueHosts)
    (hplain : t.PlainUUIDs) {vs : List VirtualMachine}
    (hnames : ∀ v ∈ vs, PlainHostname v.hostname) :
    ∀ p ∈ t.placements vs, p.Plain := by
  intro p hp
  obtain ⟨v, hv, hplace⟩ := List.mem_filterMap.mp hp
  obtain ⟨hname, -, d, r, h, hd, hr, hh, hdu, hru, hhu⟩ := (hk.placement?_eq_some_iff hu).mp hplace
  refine ⟨?_, hplain.dataCenter d _ hd hdu, hplain.rack r _ ⟨d, hd, hr⟩ hru,
    hplain.host h _ ⟨r, ⟨d, hd, hr⟩, hh⟩ hhu⟩
  rw [hname]
  exact hnames v hv

namespace TopologyWriter

/-- **The topology file is unambiguous.** Two writers whose files open, given keyed trees with
unique hosts, plain UUIDs and VMs with plain hostnames, leave the same text exactly when the
placements of their VMs are the same, in the same order and as often. -/
theorem write_unambiguous {t t' : Topology} (hk : t.Keyed) (hk' : t'.Keyed) (hu : t.UniqueHosts)
    (hu' : t'.UniqueHosts) (hplain : t.PlainUUIDs) (hplain' : t'.PlainUUIDs)
    (w w' : TopologyWriter) (o o' : Orders) (heap heap' : Store VirtualMachine)
    (opens opens' : String → Bool) (files files' : Files) {vms vms' : List Ptr}
    {vs vs' : List VirtualMachine} (hvms : vms.map heap.deref? = vs.map some)
    (hvms' : vms'.map heap'.deref? = vs'.map some)
    (hnames : ∀ v ∈ vs, PlainHostname v.hostname) (hnames' : ∀ v ∈ vs', PlainHostname v.hostname)
    (hopen : opens w.filename) (hopen' : opens' w'.filename) :
    ∃ text text', w.write o heap opens files (some t) vms =
        .ok (Function.update files w.filename (some text)) ∧
      w'.write o' heap' opens' files' (some t') vms' =
        .ok (Function.update files' w'.filename (some text')) ∧
      (text = text' ↔ t.placements vs = t'.placements vs') := by
  have hwrite := write_eq_placements hk hu w o heap opens files hvms
  have hwrite' := write_eq_placements hk' hu' w' o' heap' opens' files' hvms'
  rw [if_pos hopen] at hwrite
  rw [if_pos hopen'] at hwrite'
  refine ⟨_, _, hwrite, hwrite', fun hsame => ?_, fun hsame => by rw [hsame]⟩
  exact Placement.join_lines_inj (t.placements_plain hk hu hplain hnames)
    (t'.placements_plain hk' hu' hplain' hnames') hsame

theorem plainUUIDs_single {dcID rackID hostID : String} (hdc : PlainUUID dcID)
    (hrack : PlainUUID rackID) (hhost : PlainUUID hostID) :
    (Topology.single dcID rackID hostID).PlainUUIDs := by
  refine ⟨fun d u hd huuid => ?_, fun r u hr huuid => ?_, fun h u hh huuid => ?_⟩
  · obtain rfl := Topology.hasDataCenter_single hd
    cases huuid
    exact hdc
  · obtain rfl := Topology.hasRack_single hr
    cases huuid
    exact hrack
  · obtain rfl := Topology.hasHost_single hh
    cases huuid
    exact hhost

/-- A VM listed twice, once with a nameless VM behind and once with one of an unknown host in
between. -/
theorem write_unambiguous_single :
    let t := Topology.single "dcA" "rackAA" "hostAAA"
    let vmA : VirtualMachine := ⟨"vmA", "web", "hostAAA", "s1", .on⟩
    let vmB : VirtualMachine := ⟨"vmB", "", "hostAAA", "s1", .on⟩
    let vmC : VirtualMachine := ⟨"vmC", "db", "hostZ", "s1", .on⟩
    ∃ text text', (TopologyWriter.mk "topology.data").write .stored ⟨[vmA, vmB, vmC]⟩
          (fun _ => true) (fun _ => none) (some t) [some 0, some 0, some 1] =
        .ok (Function.update (fun _ => none) "topology.data" (some text)) ∧
      (TopologyWriter.mk "other.data").write .stored ⟨[vmA, vmB, vmC]⟩
          (fun _ => true) (fun _ => none) (some t) [some 0, some 2, some 0] =
        .ok (Function.update (fun _ => none) "other.data" (some text')) ∧
      (text = text' ↔ t.placements [vmA, vmA, vmB] = t.placements [vmA, vmC, vmA]) := by
  intro t vmA vmB vmC
  have ht : t.WellFormed := Topology.wellFormed_single (by decide) (by decide) (by decide)
  have hplain : t.PlainUUIDs :=
    plainUUIDs_single (by simp [PlainUUID]) (by simp [PlainUUID]) (by simp [PlainUUID])
  exact write_unambiguous ht.keyed ht.keyed ht.uniqueHosts ht.uniqueHosts hplain hplain
    ⟨"topology.data"⟩ ⟨"other.data"⟩ .stored .stored _ _ _ _ _ _ rfl rfl
    (by simp [PlainHostname, vmA, vmB]) (by simp [PlainHostname, vmA, vmC]) rfl rfl

end TopologyWriter

end NebuApp
