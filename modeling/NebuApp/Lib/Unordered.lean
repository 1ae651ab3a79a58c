import Mathlib.Data.List.AList

/-!
# Unordered maps

An `UnorderedMap κ ν` is Mathlib's association list with distinct keys. The order its entries
are stored in carries no meaning: whoever iterates the map does so through an `IterationOrder`,
which may visit the entries in any order but visits each exactly once.
-/

/-- A finite map with distinct keys. -/
abbrev UnorderedMap (κ ν : Type) := AList (fun _ : κ => ν)

/-- A way of visiting the entries of a collection: any order, each entry once. -/
structure IterationOrder (α : Type) where
  order : List α → List α
  perm : ∀ l, (order l).Perm l

namespace IterationOrder

/-- Visiting the entries as they are stored. -/
def stored (α : Type) : IterationOrder α := ⟨fun l => l, fun l => .refl l⟩

end IterationOrder

namespace UnorderedMap

variable {κ ν : Type}

/-- The entries of the map in the order of one iteration. -/
def iterate (o : IterationOrder (Σ _ : κ, ν)) (m : UnorderedMap κ ν) : List (Σ _ : κ, ν) :=
  o.order m.entries

theorem iterate_perm (o : IterationOrder (Σ _ : κ, ν)) (m : UnorderedMap κ ν) :
    (m.iterate o).Perm m.entries :=
  o.perm m.entries

theorem nodup_keys_iterate (o : IterationOrder (Σ _ : κ, ν)) (m : UnorderedMap κ ν) :
    ((m.iterate o).map Sigma.fst).Nodup :=
  ((iterate_perm o m).map Sigma.fst).nodup_iff.mpr m.keys_nodup

variable [DecidableEq κ]

/-- An iteration visits exactly the entries a lookup finds. -/
theorem mem_iterate {o : IterationOrder (Σ _ : κ, ν)} {m : UnorderedMap κ ν} {k : κ} {v : ν} :
    ⟨k, v⟩ ∈ m.iterate o ↔ m.lookup k = some v := by
  rw [(iterate_perm o m).mem_iff]
  exact AList.mem_lookup_iff.symm

theorem lookup_insert (m : UnorderedMap κ ν) (k k' : κ) (v : ν) :
    (m.insert k v).lookup k' = if k' = k then some v else m.lookup k' := by
  split
  next h => rw [h, AList.lookup_insert]
  next h => exact AList.lookup_insert_ne h

theorem lookup_erase (m : UnorderedMap κ ν) (k k' : κ) :
    (m.erase k).lookup k' = if k' = k then none else m.lookup k' := by
  split
  next h => rw [h, AList.lookup_erase]
  next h => exact AList.lookup_erase_ne h

end UnorderedMap
