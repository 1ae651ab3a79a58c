import Mathlib.Data.List.Basic

/-!
# Delimited text

Pieces of text written one behind the other can be told apart again when each is followed by a
delimiter that does not occur in it. `append_cons_inj` finds the end of the first piece, and
`terminate_map_inj` that of every one.
-/

namespace Delimited

variable {α : Type}

/-- Two texts that begin with pieces free of the delimiter behind them begin with the same piece
and go on with the same text. -/
theorem append_cons_inj {d : α} {a b x y : List α} (ha : d ∉ a) (hb : d ∉ b)
    (h : a ++ d :: x = b ++ d :: y) : a = b ∧ x = y := by
  -- one piece is at most as long as the other; were it shorter, the other would hold its delimiter
  rcases List.append_eq_append_iff.mp h with ⟨c, rfl, hc⟩ | ⟨c, rfl, hc⟩
  · cases c with
    | nil => exact ⟨by simp, by simpa using hc⟩
    | cons e c =>
      obtain ⟨rfl, -⟩ := List.cons.inj hc
      exact absurd (by simp) hb
  · cases c with
    | nil => exact ⟨by simp, by simpa using hc.symm⟩
    | cons e c =>
      obtain ⟨rfl, -⟩ := List.cons.inj hc
      exact absurd (by simp) ha

/-- A sequence of pieces, each with the delimiter behind it. -/
def terminate (d : α) (pieces : List (List α)) : List α := pieces.flatMap fun p => p ++ [d]

theorem terminate_cons (d : α) (p : List α) (ps : List (List α)) :
    terminate d (p :: ps) = p ++ d :: terminate d ps := by
  simp [terminate]

/-- **No two sequences are written alike**, if no item is written with the delimiter in it and no
two items are written alike. -/
theorem terminate_map_inj {β : Type} {d : α} {enc : β → List α} {P : β → Prop}
    (hfree : ∀ b, P b → d ∉ enc b) (hinj : ∀ b c, P b → P c → enc b = enc c → b = c)
    {bs cs : List β} (hb : ∀ b ∈ bs, P b) (hc : ∀ c ∈ cs, P c)
    (h : terminate d (bs.map enc) = terminate d (cs.map enc)) : bs = cs := by
  induction bs generalizing cs with
  | nil =>
    cases cs with
    | nil => rfl
    | cons c cs => rw [List.map_cons, terminate_cons] at h; simp [terminate] at h
  | cons b bs ih =>
    cases cs with
    | nil => rw [List.map_cons, terminate_cons] at h; simp [terminate] at h
    | cons c cs =>
      have hb' := hb b List.mem_cons_self
      have hc' := hc c List.mem_cons_self
      rw [List.map_cons, List.map_cons, terminate_cons, terminate_cons] at h
      obtain ⟨hhead, hrest⟩ := append_cons_inj (hfree b hb') (hfree c hc') h
      rw [hinj b c hb' hc' hhead, ih (fun b' h' => hb b' (List.mem_cons_of_mem _ h'))
        (fun c' h' => hc c' (List.mem_cons_of_mem _ h')) hrest]

end Delimited
