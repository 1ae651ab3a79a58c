import Mathlib.Data.List.Basic

/-!
# Objects behind references

A `Store α` holds the objects a program has allocated; a `Ref` names one of them for good, and
a `Ptr` is a reference that may be null. Cells are only ever appended or overwritten in place,
so a reference stays valid and distinct references never alias.
-/

/-- The name of an allocated object. -/
abbrev Ref := Nat

/-- A pointer: null, or a reference. -/
abbrev Ptr := Option Ref

/-- The allocated objects, in order of allocation. -/
structure Store (α : Type) where
  cells : List α

namespace Store

variable {α : Type}

/-- The store before any allocation. -/
def empty : Store α := ⟨[]⟩

/-- The object behind a reference. -/
def get? (s : Store α) (r : Ref) : Option α := s.cells[r]?

/-- The reference the next allocation returns. -/
def next (s : Store α) : Ref := s.cells.length

/-- Allocate `a` at `s.next`. -/
def alloc (s : Store α) (a : α) : Store α := ⟨s.cells ++ [a]⟩

/-- Apply `f` to the object behind `r`. -/
def modify (s : Store α) (r : Ref) (f : α → α) : Store α := ⟨s.cells.modify r f⟩

/-- The object behind a pointer; none behind the null pointer. -/
def deref? (s : Store α) (p : Ptr) : Option α := p.bind s.get?

@[simp] theorem deref?_none (s : Store α) : s.deref? none = none := rfl

@[simp] theorem deref?_some (s : Store α) (r : Ref) : s.deref? (some r) = s.get? r := rfl

@[simp] theorem get?_next (s : Store α) : s.get? s.next = none := by
  simp [get?, next]

@[simp] theorem get?_alloc_next (s : Store α) (a : α) : (s.alloc a).get? s.next = some a := by
  simp [get?, next, alloc]

theorem get?_alloc_of_some {s : Store α} {r : Ref} {b : α} (h : s.get? r = some b) (a : α) :
    (s.alloc a).get? r = some b := by
  have hlt : r < s.cells.length := (List.getElem?_eq_some_iff.mp h).1
  simpa [get?, alloc, List.getElem?_append_left hlt] using h

/-- What is allocated is what was, and the new object. -/
theorem get?_alloc (s : Store α) (a : α) (r : Ref) :
    (s.alloc a).get? r = if r = s.next then some a else s.get? r := by
  rcases Nat.lt_trichotomy r s.cells.length with h | rfl | h
  · simp [get?, alloc, next, List.getElem?_append_left h, Nat.ne_of_lt h]
  · simp [get?, alloc, next]
  · have hlen : (s.cells ++ [a]).length ≤ r := by
      rw [List.length_append]
      exact h
    have hne : r ≠ s.next := Nat.ne_of_gt h
    rw [if_neg hne, get?, get?, alloc, List.getElem?_eq_none hlen,
      List.getElem?_eq_none (Nat.le_of_lt h)]

theorem lt_next_of_some {s : Store α} {r : Ref} {a : α} (h : s.get? r = some a) : r < s.next :=
  (List.getElem?_eq_some_iff.mp h).1

theorem mem_map_of_get? {β : Type} {s : Store α} {f : α → β} {r : Ref} {b : β}
    (h : (s.get? r).map f = some b) : b ∈ s.cells.map f := by
  rw [get?, ← List.getElem?_map] at h
  exact List.mem_of_getElem? h

/-- Objects of which no two have the same value of `f` are the only ones with theirs. -/
theorem eq_of_nodup_map {β : Type} {s : Store α} {f : α → β} (h : (s.cells.map f).Nodup)
    {r r' : Ref} {b : β} (hr : (s.get? r).map f = some b) (hr' : (s.get? r').map f = some b) :
    r = r' := by
  rw [get?, ← List.getElem?_map] at hr hr'
  exact (List.getElem?_inj (List.getElem?_eq_some_iff.mp hr).1 h).mp (hr.trans hr'.symm)

/-- To change the object just allocated is to allocate another. -/
theorem modify_alloc_next (s : Store α) (a : α) (f : α → α) :
    (s.alloc a).modify s.next f = s.alloc (f a) := by
  simp [alloc, modify, next, List.modify_eq_take_drop]

theorem ne_next_of_some {s : Store α} {r : Ref} {b : α} (h : s.get? r = some b) : r ≠ s.next := by
  rintro rfl
  simp at h

@[simp] theorem get?_modify_self (s : Store α) (r : Ref) (f : α → α) :
    (s.modify r f).get? r = (s.get? r).map f := by
  simp [get?, modify]

theorem get?_modify_ne {r r' : Ref} (h : r ≠ r') (s : Store α) (f : α → α) :
    (s.modify r f).get? r' = s.get? r' := by
  simp [get?, modify, h]

theorem get?_modify (s : Store α) (r r' : Ref) (f : α → α) :
    (s.modify r f).get? r' = if r = r' then (s.get? r').map f else s.get? r' := by
  split
  next h => rw [← h, get?_modify_self]
  next h => exact get?_modify_ne h s f

/-! ## Objects over time -/

/-- Every object of `s` is there in `s'`, and `R` leads from what it was to what it is. -/
def Grows (R : α → α → Prop) (s s' : Store α) : Prop :=
  ∀ r a, s.get? r = some a → ∃ a', s'.get? r = some a' ∧ R a a'

section Grows

variable {R : α → α → Prop}

theorem Grows.refl (hrefl : ∀ a, R a a) (s : Store α) : s.Grows R s :=
  fun _ a hr => ⟨a, hr, hrefl a⟩

theorem Grows.trans (htrans : ∀ {a b c}, R a b → R b c → R a c) {s s' s'' : Store α}
    (h : s.Grows R s') (h' : s'.Grows R s'') : s.Grows R s'' := by
  intro r a hr
  obtain ⟨b, hb, hab⟩ := h r a hr
  obtain ⟨c, hc, hbc⟩ := h' r b hb
  exact ⟨c, hc, htrans hab hbc⟩

theorem grows_alloc (hrefl : ∀ a, R a a) (s : Store α) (a : α) : s.Grows R (s.alloc a) :=
  fun _ b hr => ⟨b, get?_alloc_of_some hr a, hrefl b⟩

theorem grows_modify (hrefl : ∀ a, R a a) (s : Store α) (r : Ref) {f : α → α}
    (hf : ∀ a, R a (f a)) : s.Grows R (s.modify r f) := by
  intro r' a hr'
  rw [get?_modify, hr']
  split
  · exact ⟨f a, rfl, hf a⟩
  · exact ⟨a, rfl, hrefl a⟩

end Grows

end Store
