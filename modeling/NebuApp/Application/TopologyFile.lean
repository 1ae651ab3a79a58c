import NebuApp.Application.Exceptions
import NebuApp.Application.Managers
import NebuApp.Topology.Writer
import NebuApp.VM.Records

/-!
# The topology file of a running application

An application that writes its topology, from `deployDaemons` say, hands `getRoot()` and `getVMs()`
to a `TopologyWriter`. By then both managers have been refreshed, so that the file is told by what
the middleware has returned: one line for each VM on record whose host is in the last tree accepted
(`topologyFile_of_step`). The host is the one the VM was first found on.
-/

namespace NebuApp

open Exec

namespace VMManager

/-- The VMs behind `getVMs()`: each VM on record once. -/
theorem WellKept.getVMs_records {m : VMManager} (hm : m.WellKept)
    (o : IterationOrder (Σ _ : String, Ptr)) :
    ∃ vs : List VirtualMachine, (m.getVMs o).map m.heap.deref? = vs.map some ∧
      (∀ v, v ∈ vs ↔ ∃ u, m.record? u = some v) ∧ (vs.map (·.uuid)).Nodup := by
  have hentry : ∀ e ∈ m.vmList.iterate o, ∃ v, m.heap.deref? e.2 = some v ∧ v.uuid = e.1 ∧
      m.record? e.1 = some v := by
    intro e he
    have hlookup := UnorderedMap.mem_iterate.mp he
    obtain ⟨r, v, hr, hv, hu⟩ := hm.own e.1 e.2 hlookup
    have hderef : m.heap.deref? e.2 = some v := by rw [hr]; exact hv
    have hget : m.getVM e.1 = e.2 := by rw [hr] at hlookup ⊢; exact lookup_eq_some_iff.mp hlookup
    exact ⟨v, hderef, hu, by rw [record?, hget, hderef]⟩
  refine ⟨(m.vmList.iterate o).filterMap fun e => m.record? e.1, ?_, fun v => ?_, ?_⟩
  · rw [List.map_filterMap_some_eq_filter_map_isSome, getVMs, List.map_map]
    have hmap : (m.vmList.iterate o).map (m.heap.deref? ∘ Sigma.snd) =
        (m.vmList.iterate o).map fun e => m.record? e.1 := by
      refine List.map_congr_left fun e he => ?_
      obtain ⟨v, hderef, -, hrec⟩ := hentry e he
      exact hderef.trans hrec.symm
    rw [hmap, List.filter_eq_self.mpr]
    intro record hrecord
    obtain ⟨e, he, rfl⟩ := List.mem_map.mp hrecord
    obtain ⟨v, -, -, hrec⟩ := hentry e he
    rw [hrec]
    rfl
  · rw [List.mem_filterMap]
    constructor
    · rintro ⟨e, -, hrec⟩
      exact ⟨e.1, hrec⟩
    · rintro ⟨u, hrec⟩
      -- what is on record is behind an entry
      cases hget : m.getVM u with
      | none =>
        rw [record?, hget] at hrec
        cases hrec
      | some r =>
        exact ⟨⟨u, some r⟩, UnorderedMap.mem_iterate.mpr (lookup_eq_some_iff.mpr hget), hrec⟩
  · have hkeys : ((m.vmList.iterate o).filterMap fun e => m.record? e.1).map (·.uuid) =
        (m.vmList.iterate o).map Sigma.fst := by
      rw [List.map_filterMap, ← List.filterMap_eq_map]
      refine List.filterMap_congr fun e he => ?_
      obtain ⟨v, -, hu, hrec⟩ := hentry e he
      rw [hrec, Option.map_some, hu]
      rfl
    rw [hkeys]
    exact UnorderedMap.nodup_keys_iterate o m.vmList

end VMManager

/-- Rounds in which no handler throws from a removal are refreshes that return. -/
theorem refreshesReturn_rounds {daemonManager : Ref} {topologyManager : TopologyManager}
    {before after : List Op} {configOps : List Configuration.Op} {envs : Nat → RoundEnv}
    (hearlier : RefreshesReturn (before ++ .registerVMEventHandler daemonManager :: after))
    {k : Nat} (hquiet : ∀ j < k, ¬ RoundThrows envs
      (AppState.start daemonManager topologyManager before after configOps) j) :
    RefreshesReturn
      (before ++ .registerVMEventHandler daemonManager :: (after ++ refreshOps envs k)) := by
  induction k with
  | zero => simpa [refreshOps] using hearlier
  | succ k ih =>
    have hs := AppState.start_ready daemonManager topologyManager before after configOps
    have hbelow : ∀ j < k, ¬ RoundThrows envs _ j := fun j hj => hquiet j (by omega)
    have hsplit : before ++ Op.registerVMEventHandler daemonManager ::
          (after ++ refreshOps envs (k + 1)) =
        before ++ .registerVMEventHandler daemonManager :: (after ++ refreshOps envs k) ++
          [.refreshVMList (envs k).refresh] := by
      simp [refreshOps, List.range_succ]
    rw [hsplit]
    refine (ih hbelow).concat fun env henv => ?_
    cases henv
    have hrun := AppState.runOps_rounds daemonManager topologyManager before after configOps
      (refreshReturns_of_not_throws hs hbelow)
    rw [hrun]
    exact hquiet k (Nat.lt_succ_self k)

/-- **The topology file of a running application.** Let UUIDs be honest, trees well formed, and no
handler end a refresh before the loop or up to this round. Let a step behind both refreshes of a
round write the topology: it writes on a tree that is there, the last one accepted up to this round,
and on VMs that are there, each on record once. The file it leaves, if it opens, has a line for each
of these whose host is in the tree, and no other; and which VMs these are, with their hostnames and
hosts, is told by what the middleware has returned of each since it was last missing from a list. -/
theorem topologyFile_of_step (daemonManager : Ref)
    (answers : List (Except NebuServerException (Option Topology))) (before after : List Op)
    (configOps : List Configuration.Op) (envs : Nat → RoundEnv)
    (hearlier : RefreshesReturn (before ++ .registerVMEventHandler daemonManager :: after))
    (hown : ∀ op ∈ before ++ after, op.Meets RefreshEnv.HonestUUIDs)
    (hown' : ∀ j, (envs j).refresh.HonestUUIDs)
    (htrees : ∀ t, .ok (some t) ∈ answers → t.WellFormed)
    (htrees' : ∀ j t, (envs j).topology = .ok (some t) → t.WellFormed) :
    let s := AppState.start daemonManager (runRefreshes answers) before after configOps
    ∀ k pre step post, stepsBehind = pre ++ step :: post → .refreshTopology ∈ pre →
      (∀ j ≤ k, ¬ RoundThrows envs s j) →
      let ops := before ++ .registerVMEventHandler daemonManager ::
        (after ++ refreshOps envs (k + 1))
      let tree := TopologyManager.lastAccepted (answers ++ topologyAnswers envs (k + 1))
      ∃ now, exec (forM (stepsBefore ++ pre) (Application.perform (envs k)))
          (stateAfter envs s k) = (.ok (), now) ∧
        ∀ iteration, ∃ vms : List VirtualMachine,
          (∀ vm, vm ∈ vms ↔ ∃ u, recordOf (returnedSince u ops) = some vm) ∧
          (vms.map (·.uuid)).Nodup ∧
          ∀ (w : TopologyWriter) o opens files,
            w.write o now.app.vmManager.heap opens files now.app.topologyManager.getRoot
                (now.app.vmManager.getVMs iteration) =
              .ok (if opens w.filename then Function.update files w.filename
                (some (String.join ((tree.placements vms).map Placement.line))) else files) := by
  intro s k pre step post hsplit htopology hquiet ops tree
  have hs : s.Ready :=
    AppState.start_ready daemonManager (runRefreshes answers) before after configOps
  have hround : ∀ j < k + 1, RefreshReturns envs s j :=
    refreshReturns_of_not_throws hs fun j hj => hquiet j (by omega)
  obtain ⟨now, hexec, -, hvms, -, hroot⟩ := managers_at_step hsplit hround
  -- the refreshes of the rounds go on where the operations before the loop have stopped
  have hmgr : (runOps ops).mgr = now.app.vmManager := by
    rw [hvms]
    exact congrArg RefreshState.mgr
      (AppState.runOps_rounds daemonManager (runRefreshes answers) before after configOps hround)
  have hkept : now.app.vmManager.WellKept := hmgr ▸ (runOps_sound ops).1
  -- the last tree accepted is one of those the middleware has answered
  have htree : tree.WellFormed := by
    refine TopologyManager.lastAccepted_wellFormed fun t ht => ?_
    rcases List.mem_append.mp ht with ht | ht
    · exact htrees t ht
    · obtain ⟨j, -, hj⟩ := List.mem_map.mp ht
      exact htrees' j t hj
  have hrecord : ∀ u, now.app.vmManager.record? u = recordOf (returnedSince u ops) := by
    intro u
    rw [← hmgr]
    refine record?_eq_recordOf ops (fun op hop => ?_)
      (refreshesReturn_rounds hearlier fun j hj => hquiet j (by omega)) u
    rcases List.mem_append.mp hop with hop | hop
    · exact hown op (List.mem_append_left _ hop)
    rcases List.mem_cons.mp hop with rfl | hop
    · exact trivial
    rcases List.mem_append.mp hop with hop | hop
    · exact hown op (List.mem_append_right _ hop)
    · obtain ⟨j, -, rfl⟩ := List.mem_map.mp hop
      exact hown' j
  refine ⟨now, hexec, fun iteration => ?_⟩
  obtain ⟨vms, hderef, hmem, hnodup⟩ := hkept.getVMs_records iteration
  refine ⟨vms, fun vm => ?_, hnodup, fun w o opens files => ?_⟩
  · simp only [hmem, hrecord]
  · rw [TopologyManager.getRoot, hroot, if_pos htopology]
    exact TopologyWriter.write_eq_placements htree.keyed htree.uniqueHosts w o _ opens files hderef

/-- The first round writes the topology from `deployDaemons`. -/
theorem topologyFile_of_step_deploy :
    let env : RoundEnv :=
      { refresh := .placed "hostAAA"
        topology := .ok (some (.single "dcA" "rackAA" "hostAAA"))
        shutsDown := fun _ => false
        callbackShutsDown := fun _ => false
        configures := fun _ => []
        result := 0 }
    let s := AppState.start 7 .init [] [] []
    ∃ now, exec (forM (stepsBefore ++ stepsBehind.takeWhile (· ≠ .deployDaemons))
        (Application.perform env)) s = (.ok (), now) ∧
      ∀ iteration, (TopologyWriter.mk "topology.data").write .stored now.app.vmManager.heap
          (fun _ => true) (fun _ => none) now.app.topologyManager.getRoot
          (now.app.vmManager.getVMs iteration) =
        .ok (Function.update (fun _ => none) "topology.data"
          (some "web\t/dcA/rackAA/hostAAA\n")) := by
  intro env s
  have ht : (Topology.single "dcA" "rackAA" "hostAAA").WellFormed :=
    Topology.wellFormed_single (by decide) (by decide) (by decide)
  obtain ⟨now, hexec, hfile⟩ := topologyFile_of_step 7 [] [] [] [] (fun _ => env)
    (refreshesReturn_of_removals (by simp [Op.Meets])) (by simp)
    (fun _ => RefreshEnv.placed_honestUUIDs "hostAAA") (by simp)
    (by
      rintro j t ht'
      cases ht'
      exact ht)
    0 (stepsBehind.takeWhile (· ≠ .deployDaemons)) .deployDaemons [.postDeployDaemons, .postLoop]
    (by decide) (by decide)
    (by
      rintro j - ⟨ids, u, r, slot, -, -, -, -, hthrow⟩
      cases hthrow)
  refine ⟨now, hexec, fun iteration => ?_⟩
  obtain ⟨vms, hmem, hnodup, hwrite⟩ := hfile iteration
  -- only one UUID has been returned
  have hvms : vms = [⟨"vmA", "web", "hostAAA", "s1", .on⟩] := by
    refine List.perm_singleton.mp
      ((List.perm_ext_iff_of_nodup (List.Nodup.of_map _ hnodup) (List.nodup_singleton _)).mpr
        fun vm => ?_)
    rw [hmem, List.mem_singleton]
    constructor
    · rintro ⟨u, hu⟩
      by_cases hu' : u = "vmA"
      · subst hu'
        cases hu
        rfl
      · have hnone : returnedSince u
            [.registerVMEventHandler 7, .refreshVMList (.placed "hostAAA")] = [] :=
          if_neg (by simpa using hu')
        have hu := (congrArg recordOf hnone).symm.trans hu
        cases hu
    · rintro rfl
      exact ⟨"vmA", rfl⟩
  have hplace : (Topology.single "dcA" "rackAA" "hostAAA").placement?
      ⟨"vmA", "web", "hostAAA", "s1", .on⟩ = some ⟨"web", "dcA", "rackAA", "hostAAA"⟩ := by
    rw [ht.keyed.placement?_eq_some_iff ht.uniqueHosts]
    have hchild : ∀ k, (Topology.oneChild k 0).lookup k = some (some 0) := fun k =>
      Topology.lookup_oneChild.mpr ⟨rfl, rfl⟩
    exact ⟨rfl, rfl, 0, 0, 0, ⟨"dcA", hchild _⟩, ⟨_, "rackAA", rfl, hchild _⟩,
      ⟨_, "hostAAA", rfl, hchild _⟩, rfl, rfl, rfl⟩
  have htree : TopologyManager.lastAccepted ([] ++ topologyAnswers (fun _ => env) (0 + 1)) =
      .single "dcA" "rackAA" "hostAAA" := rfl
  rw [hwrite, hvms, htree, Topology.placements_cons_some hplace]
  rfl

end NebuApp
