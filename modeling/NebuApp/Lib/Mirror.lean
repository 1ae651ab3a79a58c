import Mathlib.Logic.Function.Basic
import Mathlib.Data.List.Basic

/-!
# Tables watched through changes

An owner keeps a table `κ → Option ν` and tells its observers what it does to it: a key was
added with a value, the value of a key changed, a key was removed. `replay` is the table an
observer has built from the changes it was told, and `WellFormed R m cs` says that the changes
make sense from `m` on: only absent keys are added, only present ones change or are removed, a
change goes from the old value to an `R`-related new one, and a removal carries the value held.
-/

namespace Mirror

variable {κ ν μ : Type}

/-- One change of a table, as an observer is told of it. -/
inductive Change (κ ν : Type) where
  | added (k : κ) (v : ν)
  | changed (k : κ) (v : ν)
  | removed (k : κ) (v : ν)
  deriving DecidableEq, Repr

namespace Change

def key : Change κ ν → κ
  | added k _ | changed k _ | removed k _ => k

/-- The change as seen by an observer that only looks at `f` of each value. -/
def map (f : ν → μ) : Change κ ν → Change κ μ
  | added k v => added k (f v)
  | changed k v => changed k (f v)
  | removed k v => removed k (f v)

@[simp] theorem key_map (f : ν → μ) (c : Change κ ν) : (c.map f).key = c.key := by
  cases c <;> rfl

end Change

variable [DecidableEq κ]

/-- The table after a change. -/
def apply (m : κ → Option ν) : Change κ ν → κ → Option ν
  | .added k v => Function.update m k (some v)
  | .changed k v => Function.update m k (some v)
  | .removed k _ => Function.update m k none

/-- The table after a sequence of changes. -/
def replay (m : κ → Option ν) (cs : List (Change κ ν)) : κ → Option ν := cs.foldl apply m

/-- The change makes sense for the table. -/
def Fits (R : ν → ν → Prop) (m : κ → Option ν) : Change κ ν → Prop
  | .added k _ => m k = none
  | .changed k v => ∃ old, m k = some old ∧ R old v
  | .removed k v => m k = some v

/-- Every change makes sense for the table it meets. -/
def WellFormed (R : ν → ν → Prop) : (κ → Option ν) → List (Change κ ν) → Prop
  | _, [] => True
  | m, c :: cs => Fits R m c ∧ WellFormed R (apply m c) cs

@[simp] theorem replay_nil (m : κ → Option ν) : replay m [] = m := rfl

@[simp] theorem replay_cons (m : κ → Option ν) (c : Change κ ν) (cs : List (Change κ ν)) :
    replay m (c :: cs) = replay (apply m c) cs := rfl

theorem replay_append (m : κ → Option ν) (cs ds : List (Change κ ν)) :
    replay m (cs ++ ds) = replay (replay m cs) ds :=
  List.foldl_append

theorem wellFormed_append {R : ν → ν → Prop} {m : κ → Option ν} {cs ds : List (Change κ ν)} :
    WellFormed R m (cs ++ ds) ↔ WellFormed R m cs ∧ WellFormed R (replay m cs) ds := by
  induction cs generalizing m with
  | nil => simp [WellFormed]
  | cons c cs ih =>
    simp only [List.cons_append, WellFormed, replay_cons, ih]
    exact and_assoc.symm

theorem apply_of_ne {m : κ → Option ν} {c : Change κ ν} {k : κ} (h : c.key ≠ k) :
    apply m c k = m k := by
  cases c <;> exact Function.update_of_ne (Ne.symm h) _ _

/-- To be told of a change twice is to be told once. -/
theorem apply_apply (m : κ → Option ν) (c : Change κ ν) : apply (apply m c) c = apply m c := by
  cases c <;> exact Function.update_idem _ _ _

/-! ## Looking at part of a value -/

theorem apply_map (f : ν → μ) (m : κ → Option ν) (c : Change κ ν) :
    apply (fun k => (m k).map f) (c.map f) = fun k => (apply m c k).map f := by
  funext k
  by_cases h : k = c.key
  · subst h
    cases c <;> simp [apply, Change.map, Change.key]
  · rw [apply_of_ne (by simpa using Ne.symm h), apply_of_ne (Ne.symm h)]

/-- Forgetting part of the values commutes with replaying. -/
theorem replay_map (f : ν → μ) (m : κ → Option ν) (cs : List (Change κ ν)) :
    replay (fun k => (m k).map f) (cs.map (Change.map f)) = fun k => (replay m cs k).map f := by
  induction cs generalizing m with
  | nil => rfl
  | cons c cs ih => rw [List.map_cons, replay_cons, replay_cons, apply_map, ih]

theorem WellFormed.map {R : ν → ν → Prop} {S : μ → μ → Prop} {f : ν → μ}
    (hRS : ∀ a b, R a b → S (f a) (f b)) {m : κ → Option ν} {cs : List (Change κ ν)}
    (h : WellFormed R m cs) : WellFormed S (fun k => (m k).map f) (cs.map (Change.map f)) := by
  induction cs generalizing m with
  | nil => trivial
  | cons c cs ih =>
    obtain ⟨hfit, hrest⟩ := h
    refine ⟨?_, by rw [apply_map]; exact ih hrest⟩
    cases c with
    | added k v => simpa [Fits, Change.map] using hfit
    | changed k v =>
      obtain ⟨old, hold, hR⟩ := hfit
      exact ⟨f old, by simp [hold], hRS _ _ hR⟩
    | removed k v => simpa [Fits, Change.map] using congrArg (Option.map f) hfit

/-! ## Looking at one key -/

/-- Whether a sequence makes sense for the changes of one key depends on that key alone. -/
theorem WellFormed.filter_key {R : ν → ν → Prop} {m m' : κ → Option ν} {cs : List (Change κ ν)}
    {k : κ} (hm : m k = m' k) (h : WellFormed R m cs) :
    WellFormed R m' (cs.filter (fun c => c.key = k)) := by
  induction cs generalizing m m' with
  | nil => trivial
  | cons c cs ih =>
    obtain ⟨hfit, hrest⟩ := h
    by_cases hk : c.key = k
    · rw [List.filter_cons_of_pos (by simpa using hk)]
      subst hk
      refine ⟨?_, ih ?_ hrest⟩
      · cases c with
        | added _ _ => exact hm.symm.trans hfit
        | changed _ _ =>
          obtain ⟨old, hold, hR⟩ := hfit
          exact ⟨old, hm.symm.trans hold, hR⟩
        | removed _ _ => exact hm.symm.trans hfit
      · cases c <;> simp [apply, Change.key]
    · rw [List.filter_cons_of_neg (by simpa using hk)]
      exact ih ((apply_of_ne hk).trans hm) hrest

end Mirror
