import NebuApp.Lib.Reconcile

/-!
# Polling a source that has settled

One key of a table over many reconciliations. A poll of a key fails, or it tells whether the key is
listed and what the fetches of it came back with. Once the source has settled on a value for the
key, or on none, each poll leaves the key alone or brings it to that value, and over all of them at
most one change is told, however many polls and fetches fail.
-/

namespace Reconcile

open Mirror

variable {κ ν : Type}

/-- What a poll learns of one key: nothing, or whether it is listed and what its fetches brought. -/
abbrev Poll (ν : Type) := Option (Bool × List (Option ν))

/-- The value held after a poll. -/
def heldAfter (held : Option ν) : Poll ν → Option ν
  | none => held
  | some (listed, fs) => if listed then (fs.filterMap id).getLast?.or held else none

/-- The poll does not contradict a source that has `target` under the key. -/
def Poll.Agrees (target : Option ν) : Poll ν → Prop
  | none => True
  | some (listed, fs) => listed = target.isSome ∧ ∀ v, some v ∈ fs → target = some v

/-- The poll comes back, and with a value if it lists the key. -/
def Poll.Complete : Poll ν → Prop
  | none => False
  | some (listed, fs) => listed = true → ∃ v, some v ∈ fs

/-- The last of some fetches none of which brings anything but `v`. -/
theorem getLast?_of_agree {v : ν} {fs : List (Option ν)} (h : ∀ w, some w ∈ fs → w = v) :
    (some v ∉ fs ∧ (fs.filterMap id).getLast? = none) ∨
      (some v ∈ fs ∧ (fs.filterMap id).getLast? = some v) := by
  cases hlast : (fs.filterMap id).getLast? with
  | none =>
    refine Or.inl ⟨fun hmem => ?_, rfl⟩
    rw [List.getLast?_eq_none_iff, List.filterMap_eq_nil_iff] at hlast
    cases hlast _ hmem
  | some w =>
    obtain ⟨f, hf, rfl⟩ := List.mem_filterMap.mp (List.mem_of_getLast? hlast)
    obtain rfl := h w hf
    exact Or.inr ⟨hf, rfl⟩

section Told

variable [DecidableEq ν]

/-- What is told of `k` in a poll. -/
def toldOf (k : κ) (held : Option ν) : Poll ν → List (Change κ ν)
  | none => []
  | some (listed, fs) => tellKey k listed held fs

/-- The change from the value held to the one settled on, if they differ. -/
def settle (k : κ) (held : Option ν) : Option ν → List (Change κ ν)
  | none => held.toList.map (.removed k)
  | some v => tell k held (some v)

theorem tell_self (k : κ) (v : ν) : tell k (some v) (some v) = [] :=
  tell_eq_nil fun _ hw => hw

theorem settle_self (k : κ) (target : Option ν) : settle k target target = [] := by
  cases target with
  | none => rfl
  | some v => exact tell_self k v

/-- Of fetches none of which brings anything but `v`, the first that brings it is told. -/
theorem tellAll_of_agree {k : κ} {v : ν} {fs : List (Option ν)} (h : ∀ w, some w ∈ fs → w = v)
    (held : Option ν) :
    tellAll k held fs = if some v ∈ fs then tell k held (some v) else [] := by
  induction fs generalizing held with
  | nil => rfl
  | cons f fs ih =>
    have hrest := ih fun w hw => h w (List.mem_cons_of_mem _ hw)
    rw [tellAll, hrest]
    cases f with
    | none => simp [tell]
    | some w =>
      obtain rfl := h w List.mem_cons_self
      simp [tell_self]

/-- **One poll of a settled source** leaves the key alone, or brings it to its value. -/
theorem poll_settles {target : Option ν} {p : Poll ν} (h : p.Agrees target) (k : κ)
    (held : Option ν) :
    (¬ p.Complete ∧ heldAfter held p = held ∧ toldOf k held p = []) ∨
      (heldAfter held p = target ∧ toldOf k held p = settle k held target) := by
  rcases p with _ | ⟨listed, fs⟩
  · exact Or.inl ⟨fun hc => hc, rfl, rfl⟩
  · obtain ⟨hlisted, hvalues⟩ := h
    cases target with
    | none =>
      rw [Option.isSome_none] at hlisted
      subst hlisted
      exact Or.inr ⟨rfl, rfl⟩
    | some v =>
      rw [Option.isSome_some] at hlisted
      subst hlisted
      have hagree : ∀ w, some w ∈ fs → w = v := fun w hw => (Option.some.inj (hvalues w hw)).symm
      have htold := tellAll_of_agree (k := k) hagree held
      rcases getLast?_of_agree hagree with ⟨hmem, hlast⟩ | ⟨hmem, hlast⟩
      · rw [if_neg hmem] at htold
        refine Or.inl ⟨fun hc => ?_, ?_, htold⟩
        · obtain ⟨w, hw⟩ := hc rfl
          obtain rfl := hagree w hw
          exact hmem hw
        · rw [heldAfter, if_pos rfl, hlast, Option.none_or]
      · rw [if_pos hmem] at htold
        refine Or.inr ⟨?_, htold⟩
        rw [heldAfter, if_pos rfl, hlast, Option.some_or]

/-- **Polls of a source that has settled by the `n`-th one.** Up to the first complete poll the
key may stay what it was, and nothing is told; then it has the value settled on, and the change to
this has been told, once. Induction on the polls. -/
theorem polls_settle {target : Option ν} {polls : Nat → Poll ν} {k : κ} (held : Nat → Option ν)
    (told : Nat → List (Change κ ν)) {n : Nat} (hagree : ∀ j, n ≤ j → (polls j).Agrees target)
    (hheld : ∀ j, n ≤ j → held (j + 1) = heldAfter (held j) (polls j))
    (htold : ∀ j, n ≤ j → told (j + 1) = told j ++ toldOf k (held j) (polls j)) {j : Nat}
    (hj : n ≤ j) :
    ((∀ i, n ≤ i → i < j → ¬ (polls i).Complete) ∧ held j = held n ∧ told j = told n) ∨
      (held j = target ∧ told j = told n ++ settle k (held n) target) := by
  induction hj with
  | refl => exact Or.inl ⟨fun i hi hlt => absurd hlt (by omega), rfl, rfl⟩
  | @step j hj ih =>
    rw [hheld j hj, htold j hj]
    rcases ih with ⟨hnone, hstay, hsilent⟩ | ⟨hthere, htold⟩
    · rw [hstay, hsilent]
      rcases poll_settles (hagree j hj) k (held n) with ⟨hnot, hstay', hsilent'⟩ | ⟨hthere, htold⟩
      · refine Or.inl ⟨fun i hi hlt => ?_, hstay', by rw [hsilent', List.append_nil]⟩
        rcases Nat.lt_succ_iff_lt_or_eq.mp hlt with hlt | rfl
        · exact hnone i hi hlt
        · exact hnot
      · exact Or.inr ⟨hthere, by rw [htold]⟩
    · rw [hthere, htold]
      refine Or.inr ?_
      rcases poll_settles (hagree j hj) k target with ⟨-, hstay, hsilent⟩ | ⟨hthere', htold'⟩
      · exact ⟨hstay, by rw [hsilent, List.append_nil]⟩
      · exact ⟨hthere', by rw [htold', settle_self, List.append_nil]⟩

end Told

end Reconcile
