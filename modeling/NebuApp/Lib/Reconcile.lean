import NebuApp.Lib.Mirror
import Mathlib.Logic.Function.Basic
import Mathlib.Data.List.Basic

/-!
# Reconciling a table with fetched answers

The purpose of a polling manager, without its loops: a table `κ → Option ν` is brought up to date
by a list of keys the source of truth still has and a list of fetches, each of which came back
with a value or failed. A successful fetch sets its key, a failed one sets nothing, and in the
end the keys that are no longer listed go.

An observer who is told of each change as it is made is told of one key what `tellKey` says, which
depends on nothing but the value held under that key and the fetches of it.
-/

namespace Reconcile

variable {κ ν : Type} [DecidableEq κ]

/-- One fetch: the key, and the value it came back with, if any. -/
abbrev Fetch (κ ν : Type) := κ × Option ν

/-- The table after one fetch. -/
def absorb (m : κ → Option ν) (f : Fetch κ ν) : κ → Option ν :=
  match f.2 with
  | none => m
  | some v => Function.update m f.1 (some v)

/-- The table after a sequence of fetches. -/
def absorbAll (m : κ → Option ν) (fs : List (Fetch κ ν)) : κ → Option ν := fs.foldl absorb m

/-- The values the successful fetches of `k` came back with, in order. -/
def valuesOf (k : κ) (fs : List (Fetch κ ν)) : List ν :=
  fs.filterMap fun f => if f.1 = k then f.2 else none

/-- The value of the last successful fetch of `k`. -/
def lastValue (k : κ) (fs : List (Fetch κ ν)) : Option ν := (valuesOf k fs).getLast?

/-- The table brought up to date: the listed keys, each with its last fetched value. -/
def reconcile (listed : List κ) (m : κ → Option ν) (fs : List (Fetch κ ν)) : κ → Option ν :=
  fun k => if k ∈ listed then absorbAll m fs k else none

theorem absorbAll_cons (m : κ → Option ν) (f : Fetch κ ν) (fs : List (Fetch κ ν)) :
    absorbAll m (f :: fs) = absorbAll (absorb m f) fs := rfl

theorem absorb_apply (m : κ → Option ν) (f : Fetch κ ν) (k : κ) :
    absorb m f k = if f.1 = k then f.2.or (m k) else m k := by
  obtain ⟨k', v⟩ := f
  cases v with
  | none => simp [absorb]
  | some v =>
    by_cases h : k' = k
    · subst h
      simp [absorb]
    · simp [absorb, h, Function.update_of_ne (Ne.symm h)]

theorem valuesOf_cons (k : κ) (f : Fetch κ ν) (fs : List (Fetch κ ν)) :
    valuesOf k (f :: fs) = (if f.1 = k then f.2 else none).toList ++ valuesOf k fs := by
  unfold valuesOf
  rw [List.filterMap_cons]
  split
  next h => rw [h]; rfl
  next v h => rw [h]; rfl

/-- **The table after the fetches, key by key**: the last fetched value, or the value before. -/
theorem absorbAll_apply (m : κ → Option ν) (fs : List (Fetch κ ν)) (k : κ) :
    absorbAll m fs k = (lastValue k fs).or (m k) := by
  induction fs generalizing m with
  | nil => rfl
  | cons f fs ih =>
    rw [absorbAll_cons, ih, absorb_apply, lastValue, lastValue, valuesOf_cons,
      List.getLast?_append]
    by_cases h : f.1 = k
    · cases hv : f.2 <;> simp [h]
    · simp [h]

theorem reconcile_apply (listed : List κ) (m : κ → Option ν) (fs : List (Fetch κ ν)) (k : κ) :
    reconcile listed m fs k = if k ∈ listed then (lastValue k fs).or (m k) else none := by
  rw [reconcile, absorbAll_apply]

/-! ## What is told of one key -/

section Tell

open Mirror

variable [DecidableEq ν]
omit [DecidableEq κ]

/-- What is told of `k` when one fetch of it comes back. -/
def tell (k : κ) (held : Option ν) : Option ν → List (Change κ ν)
  | none => []
  | some v =>
    match held with
    | none => [.added k v]
    | some old => if old = v then [] else [.changed k v]

/-- What is told of `k` over a sequence of fetches of it. -/
def tellAll (k : κ) : Option ν → List (Option ν) → List (Change κ ν)
  | _, [] => []
  | held, f :: fs => tell k held f ++ tellAll k (f.or held) fs

/-- What a reconciliation tells of `k`, given the value held and the fetches of `k`. -/
def tellKey (k : κ) (listed : Bool) (held : Option ν) (fs : List (Option ν)) :
    List (Change κ ν) :=
  if listed then tellAll k held fs else held.toList.map (.removed k)

theorem key_of_mem_tell {k : κ} {held f : Option ν} {c : Change κ ν} (h : c ∈ tell k held f) :
    c.key = k := by
  unfold tell at h
  split at h
  next => cases h
  next v =>
    split at h
    next =>
      rw [List.mem_singleton.mp h]
      rfl
    next old =>
      split at h
      next => cases h
      next =>
        rw [List.mem_singleton.mp h]
        rfl

theorem tell_eq_nil {k : κ} {held f : Option ν} (h : ∀ v, f = some v → held = some v) :
    tell k held f = [] := by
  cases f with
  | none => rfl
  | some v => simp [tell, h v rfl]

/-- Of fetches that all come back with the same, only the first can be told. -/
theorem tellAll_replicate (k : κ) (held f : Option ν) (n : Nat) :
    tellAll k held (List.replicate (n + 1) f) = tell k held f := by
  have hrest : ∀ n, tellAll k (f.or held) (List.replicate n f) = [] := by
    intro n
    induction n with
    | zero => rfl
    | succ n ih =>
      have hsame : f.or (f.or held) = f.or held := by cases f <;> rfl
      rw [List.replicate_succ, tellAll, hsame, ih, List.append_nil]
      exact tell_eq_nil fun v hv => by rw [hv]; rfl
  rw [List.replicate_succ, tellAll, hrest, List.append_nil]

end Tell

end Reconcile
