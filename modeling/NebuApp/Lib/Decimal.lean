import Mathlib.Data.List.TakeWhile

/-!
# Reading decimal integers

Formatted input of an integer skips blanks and reads a sign and the digits behind it, as far as
they go. `numeral` is what it reads and `Numeral.value` the integer that stands for. What follows
the digits is not looked at, and without digits the value is 0.
-/

namespace Decimal

/-- White space in the classic locale: the space, and tab to carriage return. -/
def isBlank (c : Char) : Bool := c = ' ' || ('\t' ≤ c && c ≤ '\r')

/-- The text behind its leading blanks. -/
def skipBlanks (cs : List Char) : List Char := cs.dropWhile isBlank

/-- The digits a text begins with. -/
def leadingDigits (cs : List Char) : List Char := cs.takeWhile Char.isDigit

/-- The number that digits stand for. -/
def digitsValue (ds : List Char) : Nat := ds.foldl (fun n c => 10 * n + (c.toNat - '0'.toNat)) 0

/-- A sign and digits. -/
structure Numeral where
  negative : Bool
  digits : List Char
  deriving DecidableEq, Repr

/-- The sign and the digits read from a text. -/
def numeral (cs : List Char) : Numeral :=
  match skipBlanks cs with
  | [] => ⟨false, []⟩
  | c :: rest => ⟨c = '-', leadingDigits (if c = '-' ∨ c = '+' then rest else c :: rest)⟩

/-- The integer a numeral stands for. -/
def Numeral.value (n : Numeral) : Int :=
  if n.negative then -(digitsValue n.digits : Int) else digitsValue n.digits

/-- A sign before digits that are not all zero. -/
def Numeral.isNegative (n : Numeral) : Bool := n.negative && n.digits.any (· ≠ '0')

theorem skipBlanks_eq_nil_iff {cs : List Char} :
    skipBlanks cs = [] ↔ ∀ c ∈ cs, isBlank c = true :=
  List.dropWhile_eq_nil_iff

theorem isDigit_of_mem_numeral {cs : List Char} {c : Char} (h : c ∈ (numeral cs).digits) :
    c.isDigit = true := by
  unfold numeral at h
  split at h
  next => cases h
  next => exact List.mem_takeWhile_imp h

theorem digit_eq_zero_iff {c : Char} (hc : c.isDigit = true) :
    c.toNat - '0'.toNat = 0 ↔ c = '0' := by
  have hle : '0'.toNat ≤ c.toNat := by
    simp only [Char.isDigit, Bool.and_eq_true, decide_eq_true_eq] at hc
    exact hc.1
  constructor
  · intro h
    exact Char.toNat_inj.mp (by omega)
  · rintro rfl
    rfl

/-- Only zeros stand for zero. Induction on the digits, with the number read so far. -/
theorem digitsValue_eq_zero_iff {ds : List Char} (hds : ∀ c ∈ ds, c.isDigit = true) :
    digitsValue ds = 0 ↔ ∀ c ∈ ds, c = '0' := by
  suffices h : ∀ n, ds.foldl (fun n c => 10 * n + (c.toNat - '0'.toNat)) n = 0 ↔
      n = 0 ∧ ∀ c ∈ ds, c = '0' by
    rw [digitsValue, h 0]
    simp
  induction ds with
  | nil => simp
  | cons d ds ih =>
    intro n
    have hsum : 10 * n + (d.toNat - '0'.toNat) = 0 ↔ n = 0 ∧ d.toNat - '0'.toNat = 0 := by
      omega
    rw [List.foldl_cons, ih (fun c hc => hds c (List.mem_cons_of_mem _ hc)), List.forall_mem_cons,
      hsum, digit_eq_zero_iff (hds d List.mem_cons_self), and_assoc]

/-- **When the integer read is negative.** -/
theorem value_neg_iff (cs : List Char) :
    (numeral cs).value < 0 ↔ (numeral cs).isNegative = true := by
  have hzero := digitsValue_eq_zero_iff fun c (hc : c ∈ (numeral cs).digits) =>
    isDigit_of_mem_numeral hc
  have hany : (numeral cs).digits.any (· ≠ '0') = true ↔ digitsValue (numeral cs).digits ≠ 0 := by
    rw [ne_eq, hzero, List.any_eq_true]
    simp
  rw [Numeral.isNegative, Bool.and_eq_true, hany, Numeral.value]
  cases hneg : (numeral cs).negative with
  | true =>
    rw [if_pos rfl]
    simp only [true_and]
    omega
  | false =>
    simp only [Bool.false_eq_true, false_and, if_false]
    exact iff_of_false (by omega) id

end Decimal
