import NebuApp.Application.Managers
import NebuApp.Lib.Polling
import NebuApp.VM.Isolation

/-!
# When the middleware stops changing

Every round polls the middleware anew, and a poll may fail as a whole or for single virtual
machines. So what the loop tracks is right only eventually: once the middleware has settled, a UUID
is brought to its final status by the first round that learns it, is left alone by all others, and
its handlers are told of it once at most.
-/

namespace NebuApp

open Exec Mirror Reconcile

/-! ## One refresh -/

/-- What a refresh learns of `u`. -/
def RefreshEnv.poll (env : RefreshEnv) (u : String) : Poll VMStatus :=
  match env.getVirtualMachineIDs with
  | .error _ => none
  | .ok ids => some (decide (u ∈ ids), env.reports u (ids.count u))

/-- The middleware has settled on `target`: just its UUIDs are listed, and whatever is answered
about one of them is the status it has there. Any call may still fail. -/
def RefreshEnv.SettledOn (env : RefreshEnv) (target : String → Option VMStatus) : Prop :=
  (∀ ids, env.getVirtualMachineIDs = .ok ids → ∀ u, u ∈ ids ↔ (target u).isSome = true) ∧
    ∀ u, (target u).isSome = true →
      ∀ n vm, env.getVirtualMachine u n = .ok vm → target u = some vm.status

/-- A refresh learns about `u`: the ids are listed and, if `u` is among them, it is fetched. -/
def RefreshEnv.Learns (env : RefreshEnv) (u : String) : Prop :=
  ∃ ids, env.getVirtualMachineIDs = .ok ids ∧
    (u ∈ ids → ∃ n < ids.count u, ∃ vm, env.getVirtualMachine u n = .ok vm)

theorem mem_reports {env : RefreshEnv} {u : String} {n : Nat} {st : VMStatus} :
    some st ∈ env.reports u n ↔ ∃ j < n, ∃ vm, env.getVirtualMachine u j = .ok vm ∧
      vm.status = st := by
  rw [RefreshEnv.reports, List.mem_map]
  constructor
  · rintro ⟨j, hj, hst⟩
    cases hanswer : env.getVirtualMachine u j with
    | error ex =>
      rw [hanswer] at hst
      cases hst
    | ok vm =>
      rw [hanswer] at hst
      exact ⟨j, List.mem_range.mp hj, vm, hanswer, Option.some.inj hst⟩
  · rintro ⟨j, hj, vm, hanswer, rfl⟩
    exact ⟨j, List.mem_range.mpr hj, by rw [hanswer]; rfl⟩

theorem RefreshEnv.SettledOn.agrees {env : RefreshEnv} {target : String → Option VMStatus}
    (h : env.SettledOn target) (u : String) : (env.poll u).Agrees (target u) := by
  unfold poll
  cases hids : env.getVirtualMachineIDs with
  | error ex => trivial
  | ok ids =>
    have hlisted := h.1 ids hids u
    refine ⟨by rw [Bool.eq_iff_iff, decide_eq_true_iff, hlisted], fun st hst => ?_⟩
    obtain ⟨j, hj, vm, hanswer, rfl⟩ := mem_reports.mp hst
    exact h.2 u (hlisted.mp (List.count_pos_iff.mp (by omega))) j vm hanswer

theorem RefreshEnv.Learns.complete {env : RefreshEnv} {u : String} (h : env.Learns u) :
    (env.poll u).Complete := by
  obtain ⟨ids, hids, hfetched⟩ := h
  unfold poll
  rw [hids]
  intro hu
  obtain ⟨n, hn, vm, hanswer⟩ := hfetched (of_decide_eq_true hu)
  exact ⟨vm.status, mem_reports.mpr ⟨n, hn, vm, hanswer, rfl⟩⟩

section Refresh

variable {m : VMManager} (hm : m.WellKept) {env : RefreshEnv} (hret : env.HandlersReturn)
  (hown : env.HonestUUIDs) (u : String)
include hm hret hown

theorem statuses_poll : (m.refresh env).2.mgr.statuses u =
    heldAfter (m.statuses u) (env.poll u) := by
  unfold RefreshEnv.poll
  cases hids : env.getVirtualMachineIDs with
  | error ex => rw [refresh_of_error hids, heldAfter]
  | ok ids =>
    rw [statuses_refresh_apply hm hret hown hids, heldAfter]
    simp only [decide_eq_true_eq]

theorem eventsAbout_poll {slot : Nat} (hslot : slot < m.vmEventHandlers.length) :
    eventsAbout u slot (m.refresh env).2.trace = toldOf u (m.statuses u) (env.poll u) := by
  unfold RefreshEnv.poll
  cases hids : env.getVirtualMachineIDs with
  | error ex =>
    rw [refresh_of_error hids]
    rfl
  | ok ids => exact eventsAbout_refresh hm hret hown hids u hslot

end Refresh

/-- **The loop settles with the middleware.** Let the middleware settle by round `n`, whatever it
did before, and let any of its calls fail from then on, each VM being returned with the UUID it is
asked for by; handlers return in all rounds. At the start of every later round a UUID is what it was
in round `n`, with nothing told of it since and no round that has learnt about it; or it is what the
middleware has settled on, and every handler has been told of the change to this, if it is one, and
of nothing else. -/
theorem mainLoop_settles (daemonManager : Ref) (topologyManager : TopologyManager)
    (before after : List Op) (configOps : List Configuration.Op) (envs : Nat → RoundEnv)
    (hret : ∀ j, (envs j).refresh.HandlersReturn) (n : Nat) (target : String → Option VMStatus)
    (hsettled : ∀ j, n ≤ j →
      (envs j).refresh.HonestUUIDs ∧ (envs j).refresh.SettledOn target) :
    let s := AppState.start daemonManager topologyManager before after configOps
    let held := fun j => (roundManager envs s j).statuses
    let told := fun u slot j => eventsAbout u slot (vmEntries (stateAfter envs s j).trace)
    ∀ u slot, slot < s.app.vmManager.vmEventHandlers.length → ∀ j, n ≤ j →
      ((∀ i, n ≤ i → i < j → ¬ (envs i).refresh.Learns u) ∧
          held j u = held n u ∧ told u slot j = told u slot n) ∨
        (held j u = target u ∧
          told u slot j = told u slot n ++ settle u (held n u) (target u)) := by
  intro s held told u slot hslot j hj
  have hs : s.Ready := AppState.start_ready daemonManager topologyManager before after configOps
  have hround : ∀ j, (roundManager envs s j).WellKept ∧
      (roundManager envs s j).vmEventHandlers = s.app.vmManager.vmEventHandlers := fun j =>
    ⟨(stateAfter_ready hret hs j).1.1.kept, (stateAfter_ready hret hs j).1.2⟩
  have hnext : ∀ j, ∃ i, stateAfter envs s (j + 1) = (stateAfter envs s j).rounded (envs j) i := by
    intro j
    obtain ⟨i, -, hnext⟩ := round_below hs
      (refreshReturns_of_handlersReturn hret hs (j + 1)) (Nat.lt_succ_self j)
    exact ⟨i, hnext⟩
  -- from here on a round polls the middleware about each UUID, and it answers for `target` or fails
  have hheld : ∀ j, n ≤ j → held (j + 1) u = heldAfter (held j u) ((envs j).refresh.poll u) := by
    intro j hj
    obtain ⟨i, hi⟩ := hnext j
    rw [← statuses_poll (hround j).1 (hret j) (hsettled j hj).1]
    simp only [held, roundManager, hi]
    rfl
  have htold : ∀ j, n ≤ j → told u slot (j + 1) =
      told u slot j ++ toldOf u (held j u) ((envs j).refresh.poll u) := by
    intro j hj
    obtain ⟨i, hi⟩ := hnext j
    have hslot' : slot < (roundManager envs s j).vmEventHandlers.length := by
      rw [(hround j).2]
      exact hslot
    simp only [told]
    rw [hi, AppState.vmEntries_rounded, eventsAbout_append,
      ← eventsAbout_poll (hround j).1 (hret j) (hsettled j hj).1 u hslot']
    rfl
  rcases polls_settle (fun j => held j u) (told u slot)
    (fun j hj => (hsettled j hj).2.agrees u) hheld htold hj with ⟨hnone, hrest⟩ | hthere
  · exact Or.inl ⟨fun i hi hlt hlearns => hnone i hi hlt hlearns.complete, hrest⟩
  · exact Or.inr hthere

/-- The ids cannot be listed in the first round. -/
theorem mainLoop_settles_late :
    let envs : Nat → RoundEnv := fun j =>
      { refresh := { RefreshEnv.uniform ["vmA"] .on with
          getVirtualMachineIDs := if j = 0 then .error ⟨"down"⟩ else .ok ["vmA"] }
        topology := .error ⟨"unreachable"⟩
        shutsDown := fun _ => false
        callbackShutsDown := fun _ => false
        configures := fun _ => []
        result := 0 }
    let s := AppState.start 7 .init [] [] []
    (roundManager envs s 2).statuses "vmA" = some .on ∧
      eventsAbout "vmA" 0 (vmEntries (stateAfter envs s 2).trace) = [.added "vmA" .on] := by
  intro envs s
  have hsettled : ∀ j, 0 ≤ j → (envs j).refresh.HonestUUIDs ∧
      (envs j).refresh.SettledOn fun u => if u = "vmA" then some .on else none := by
    intro j _
    refine ⟨RefreshEnv.uniform_honestUUIDs ["vmA"] .on, fun ids hids u => ?_,
      fun u hu n vm hvm => ?_⟩
    · by_cases hj : j = 0
      · rw [hj] at hids
        cases hids
      · obtain rfl : ["vmA"] = ids := by simpa [envs, hj] using hids
        simp
    · cases hvm
      simpa using hu
  rcases mainLoop_settles 7 .init [] [] [] envs (fun _ _ _ _ => rfl) 0 _ hsettled "vmA" 0
    (by decide) 2 (by omega) with ⟨hnone, -⟩ | ⟨hheld, htold⟩
  · exact absurd ⟨["vmA"], rfl, fun _ => ⟨0, by decide, _, rfl⟩⟩ (hnone 1 (by omega) (by omega))
  · exact ⟨hheld, htold⟩

end NebuApp
