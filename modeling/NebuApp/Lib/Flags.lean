import Mathlib.Data.List.Basic
import Mathlib.Logic.ExistsUnique

/-!
# Command lines of flags and values

A command line is a list of tokens, some of which are registered as flags. Read from the left, a
flag takes the next token as its value, whatever that token is; a flag at the very end has no
value; any other token stands for itself. `Parses` is this grammar. It reads every command line,
and in one way only (`existsUnique_parses`).
-/

namespace Flags

variable {τ : Type}

/-- A segment of a command line. -/
inductive Segment (τ : Type) where
  | assignment (flag value : τ)
  | bareFlag (flag : τ)
  | positional (token : τ)

namespace Segment

def positional? : Segment τ → Option τ
  | assignment _ _ => none
  | bareFlag _ => none
  | positional token => some token

/-- The flag and its value, for which `missing` stands in at the end of the line. -/
def assigned? (missing : τ) : Segment τ → Option (τ × τ)
  | assignment flag value => some (flag, value)
  | bareFlag flag => some (flag, missing)
  | positional _ => none

end Segment

/-- The tokens that are neither flags nor values. -/
def positionals (segs : List (Segment τ)) : List τ := segs.filterMap Segment.positional?

@[simp] theorem positionals_assignment (flag value : τ) (segs : List (Segment τ)) :
    positionals (.assignment flag value :: segs) = positionals segs := rfl

@[simp] theorem positionals_bareFlag (flag : τ) (segs : List (Segment τ)) :
    positionals (.bareFlag flag :: segs) = positionals segs := rfl

@[simp] theorem positionals_positional (token : τ) (segs : List (Segment τ)) :
    positionals (.positional token :: segs) = token :: positionals segs := rfl

/-- `Parses registered args segs`: the grammar reads `args` as the segments `segs`. -/
inductive Parses (registered : τ → Prop) : List τ → List (Segment τ) → Prop where
  | nil : Parses registered [] []
  | assignment {flag value : τ} {rest : List τ} {segs : List (Segment τ)}
      (hflag : registered flag) (hrest : Parses registered rest segs) :
      Parses registered (flag :: value :: rest) (.assignment flag value :: segs)
  | bareFlag {flag : τ} (hflag : registered flag) : Parses registered [flag] [.bareFlag flag]
  | positional {token : τ} {rest : List τ} {segs : List (Segment τ)}
      (htoken : ¬ registered token) (hrest : Parses registered rest segs) :
      Parses registered (token :: rest) (.positional token :: segs)

namespace Parses

variable {registered : τ → Prop} {args : List τ} {segs segs' : List (Segment τ)}

theorem unique (h : Parses registered args segs) (h' : Parses registered args segs') :
    segs' = segs := by
  induction h generalizing segs' with
  | nil => cases h'; rfl
  | assignment hflag _ ih =>
    cases h' with
    | assignment _ hrest' => rw [ih hrest']
    | positional htoken _ => exact absurd hflag htoken
  | bareFlag hflag =>
    cases h' with
    | bareFlag _ => rfl
    | positional htoken _ => exact absurd hflag htoken
  | positional htoken _ ih =>
    cases h' with
    | assignment hflag _ => exact absurd hflag htoken
    | bareFlag hflag => exact absurd hflag htoken
    | positional _ hrest' => rw [ih hrest']

/-- No flag is left over. -/
theorem not_registered (h : Parses registered args segs) {token : τ}
    (ht : token ∈ positionals segs) : ¬ registered token := by
  induction h with
  | nil => exact absurd ht List.not_mem_nil
  | assignment _ _ ih => exact ih ht
  | bareFlag _ => exact absurd ht List.not_mem_nil
  | positional htoken _ ih =>
    rw [positionals_positional] at ht
    rcases List.mem_cons.mp ht with rfl | ht
    · exact htoken
    · exact ih ht

end Parses

theorem exists_parses (registered : τ → Prop) :
    ∀ args : List τ, ∃ segs, Parses registered args segs
  | [] => ⟨[], .nil⟩
  | token :: rest => by
    by_cases hflag : registered token
    · cases rest with
      | nil => exact ⟨_, .bareFlag hflag⟩
      | cons value rest =>
        obtain ⟨segs, hsegs⟩ := exists_parses registered rest
        exact ⟨_, .assignment hflag hsegs⟩
    · obtain ⟨segs, hsegs⟩ := exists_parses registered rest
      exact ⟨_, .positional hflag hsegs⟩
termination_by args => args.length

/-- **The grammar is total and unambiguous.** -/
theorem existsUnique_parses (registered : τ → Prop) (args : List τ) :
    ∃! segs, Parses registered args segs := by
  obtain ⟨segs, hsegs⟩ := exists_parses registered args
  exact ⟨segs, hsegs, fun _ h' => hsegs.unique h'⟩

end Flags
