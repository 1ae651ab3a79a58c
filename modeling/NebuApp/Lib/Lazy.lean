import NebuApp.Lib.Store

/-!
# Objects created on first use

A pointer that is null until somebody asks for what it points to: the first request creates an
object, and all others return it. As long as nothing else writes the pointer, there is one object at
most, so that the pointer and its objects stand for an `Option` (`Lazy.ofOption`).
-/

/-- A pointer, with the objects of the class it points to. -/
structure Lazy (α : Type) where
  pointer : Ptr
  objects : Store α

namespace Lazy

variable {α : Type}

/-- A null pointer, and no object. -/
def empty : Lazy α := ⟨none, .empty⟩

/-- Create an object and point to it. -/
def create (l : Lazy α) (a : α) : Lazy α := ⟨some l.objects.next, l.objects.alloc a⟩

/-- Change the object behind a reference. -/
def modify (l : Lazy α) (r : Ref) (f : α → α) : Lazy α :=
  { l with objects := l.objects.modify r f }

/-- The object pointed to. -/
def value? (l : Lazy α) : Option α := l.objects.deref? l.pointer

/-- At most one object, which the pointer points to if it is there. -/
def ofOption (o : Option α) : Lazy α := o.elim empty empty.create

/-- The reference to the only object. -/
def only : Ref := (empty : Lazy Unit).objects.next

@[simp] theorem pointer_ofOption (o : Option α) : (ofOption o).pointer = o.map fun _ => only := by
  cases o <;> rfl

@[simp] theorem value?_ofOption (o : Option α) : (ofOption o).value? = o := by
  cases o <;> rfl

@[simp] theorem create_ofOption_none (a : α) : (ofOption none).create a = ofOption (some a) := rfl

@[simp] theorem modify_ofOption (o : Option α) (f : α → α) :
    (ofOption o).modify only f = ofOption (o.map f) := by
  cases o <;> rfl

@[simp] theorem get?_ofOption (o : Option α) : (ofOption o).objects.get? only = o := by
  cases o <;> rfl

end Lazy
