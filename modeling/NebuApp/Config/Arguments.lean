import NebuApp.Config.Model
import NebuApp.Lib.Flags
import NebuApp.Lib.Search

/-!
# Reading the command line

The loop of `fromArguments` erases flags and values from the vector it walks. Its invariant is a
split of the vector: what was kept, as long as `index` counts, and what is still to be read. Each
segment of the grammar is one iteration, so the run follows a derivation of the unread rest.
-/

namespace NebuApp

namespace Configuration

open Flags Search

/-- The entry a segment makes: the option its flag maps to, and its value. -/
def Statics.entry? (s : Statics) (seg : Segment String) : Option (Σ _ : String, String) := do
  let (flag, value) ← seg.assigned? ""
  let option ← s.commandLineOptions.lookup flag
  return ⟨option, value⟩

/-- The tokens `fromArguments` takes for flags. -/
def Statics.IsFlag (s : Statics) (token : String) : Prop := token ∈ s.commandLineOptions

instance (s : Statics) (token : String) : Decidable (s.IsFlag token) :=
  inferInstanceAs (Decidable (token ∈ s.commandLineOptions))

/-- A configuration after the entries of some segments. -/
def assign (s : Statics) (cfg : Configuration) (segs : List (Segment String)) : Configuration :=
  ⟨insertAll cfg.options (segs.filterMap s.entry?)⟩

theorem assign_cons_flag {s : Statics} {seg : Segment String} {flag value option : String}
    (cfg : Configuration) (segs : List (Segment String))
    (hseg : seg.assigned? "" = some (flag, value))
    (hflag : s.commandLineOptions.lookup flag = some option) :
    assign s cfg (seg :: segs) = assign s (cfg.setOption option value) segs := by
  have hentry : s.entry? seg = some ⟨option, value⟩ := by
    simp [Statics.entry?, hseg, hflag]
  rw [assign, List.filterMap_cons_some hentry]
  rfl

theorem assign_cons_positional (s : Statics) (cfg : Configuration) (token : String)
    (segs : List (Segment String)) :
    assign s cfg (.positional token :: segs) = assign s cfg segs := rfl

theorem Statics.IsFlag.lookup {s : Statics} {flag : String} (h : s.IsFlag flag) :
    ∃ option, s.commandLineOptions.lookup flag = some option :=
  Option.isSome_iff_exists.mp (AList.lookup_isSome.mpr h)

/-! ## One iteration -/

section Iteration

variable {s : Statics} {kept : List String} {index : UInt32} (cfg : Configuration) (fuel : Nat)

theorem erase_append (kept gone rest : List String) :
    erase (kept ++ (gone ++ rest)) kept.length gone.length = kept ++ rest := by
  rw [erase, List.take_left, ← List.append_assoc, ← List.length_append, List.drop_left]

theorem run_commandLineOption {flag option : String}
    (hflag : s.commandLineOptions.lookup flag = some option) :
    (commandLineOption flag).run s = (option, s) := by
  simp only [commandLineOption, StateT.run_bind, StateT.run_get, pure_bind, hflag]
  rfl

theorem run_loop_end {args : List String} (hindex : index.toNat = args.length) :
    (fromArgumentsLoop (fuel + 1) args cfg index).run s = (some (args, cfg), s) := by
  rw [fromArgumentsLoop, dif_neg (by omega)]
  rfl

theorem run_loop_positional {token : String} {rest : List String}
    (hindex : index.toNat = kept.length) (htoken : ¬ s.IsFlag token) :
    (fromArgumentsLoop (fuel + 1) (kept ++ token :: rest) cfg index).run s =
      (fromArgumentsLoop fuel (kept ++ token :: rest) cfg (index + 1)).run s := by
  have hlt : index.toNat < (kept ++ token :: rest).length := by
    rw [List.length_append, List.length_cons]
    omega
  have harg : (kept ++ token :: rest).get ⟨index.toNat, hlt⟩ = token := by
    simp [List.get_eq_getElem, hindex]
  rw [fromArgumentsLoop, dif_pos hlt, harg]
  show (if token ∈ s.commandLineOptions then _ else _ : Code _).run s = _
  rw [if_neg (show token ∉ s.commandLineOptions from htoken)]

theorem run_loop_flag {flag option : String} {rest : List String}
    (hindex : index.toNat = kept.length) (hflag : s.commandLineOptions.lookup flag = some option) :
    (fromArgumentsLoop (fuel + 1) (kept ++ flag :: rest) cfg index).run s =
      (fromArgumentsLoop fuel
        (if (index + 1).toNat < (kept ++ flag :: rest).length then
          erase (kept ++ flag :: rest) index.toNat 2
        else erase (kept ++ flag :: rest) index.toNat 1)
        (cfg.setOption option
          (if h' : (index + 1).toNat < (kept ++ flag :: rest).length then
            (kept ++ flag :: rest).get ⟨(index + 1).toNat, h'⟩ else ""))
        index).run s := by
  have hlt : index.toNat < (kept ++ flag :: rest).length := by
    rw [List.length_append, List.length_cons]
    omega
  have harg : (kept ++ flag :: rest).get ⟨index.toNat, hlt⟩ = flag := by
    simp [List.get_eq_getElem, hindex]
  have hmem : flag ∈ s.commandLineOptions :=
    AList.lookup_isSome.mp (by rw [hflag]; rfl)
  rw [fromArgumentsLoop, dif_pos hlt, harg]
  show (if flag ∈ s.commandLineOptions then _ else _ : Code _).run s = _
  rw [if_pos hmem, StateT.run_bind, run_commandLineOption hflag]
  rfl

end Iteration

/-! ## The loop -/

theorem toNat_succ {index : UInt32} (h : index.toNat + 1 < UInt32.size) :
    (index + 1).toNat = index.toNat + 1 := by
  rw [UInt32.toNat_add]
  exact Nat.mod_eq_of_lt h

/-- **The loop follows the grammar.** From the point where `kept` is what it kept and `todo` is
unread, it keeps the positionals of `todo` and stores the entries of its segments. -/
theorem run_loop {s : Statics} {todo : List String} {segs : List (Segment String)}
    (hsegs : Parses s.IsFlag todo segs) :
    ∀ (kept : List String) (index : UInt32) (cfg : Configuration) (fuel : Nat),
      index.toNat = kept.length → (kept ++ todo).length < UInt32.size → todo.length < fuel →
        (fromArgumentsLoop fuel (kept ++ todo) cfg index).run s =
          (some (kept ++ positionals segs, assign s cfg segs), s) := by
  induction hsegs with
  | nil =>
    intro kept index cfg fuel hindex _ hfuel
    obtain ⟨fuel, rfl⟩ : ∃ n, fuel = n + 1 := ⟨fuel - 1, by simp at hfuel; omega⟩
    rw [List.append_nil, run_loop_end cfg fuel hindex]
    rw [show positionals ([] : List (Segment String)) = [] from rfl, List.append_nil]
    rfl
  | @assignment flag value rest segs hflag _ ih =>
    intro kept index cfg fuel hindex hlen hfuel
    obtain ⟨option, hoption⟩ := hflag.lookup
    simp only [List.length_append, List.length_cons] at hlen hfuel
    obtain ⟨fuel, rfl⟩ : ∃ n, fuel = n + 1 := ⟨fuel - 1, by omega⟩
    have hnext : (index + 1).toNat = kept.length + 1 := by
      rw [toNat_succ (by omega), hindex]
    have hlt : (index + 1).toNat < (kept ++ flag :: value :: rest).length := by
      rw [hnext, List.length_append, List.length_cons, List.length_cons]
      omega
    have hvalue : (kept ++ flag :: value :: rest).get ⟨(index + 1).toNat, hlt⟩ = value := by
      simp [List.get_eq_getElem, hnext]
    -- the two tokens go, so that `index` is again where the rest begins
    have herase : erase (kept ++ flag :: value :: rest) index.toNat 2 = kept ++ rest := by
      rw [hindex]
      exact erase_append kept [flag, value] rest
    rw [run_loop_flag cfg fuel hindex hoption, if_pos hlt, dif_pos hlt, hvalue, herase,
      ih kept index (cfg.setOption option value) fuel hindex
        (by rw [List.length_append]; omega) (by omega),
      assign_cons_flag cfg segs rfl hoption, positionals_assignment]
  | @bareFlag flag hflag =>
    intro kept index cfg fuel hindex hlen hfuel
    obtain ⟨option, hoption⟩ := hflag.lookup
    simp only [List.length_append, List.length_cons, List.length_nil] at hlen hfuel
    obtain ⟨fuel, rfl⟩ : ∃ n, fuel = n + 2 := ⟨fuel - 2, by omega⟩
    have hnext : ¬ (index + 1).toNat < (kept ++ [flag]).length := by
      rw [toNat_succ (by omega), hindex, List.length_append, List.length_singleton]
      omega
    have herase : erase (kept ++ [flag]) index.toNat 1 = kept := by
      rw [hindex]
      simpa using erase_append kept [flag] []
    rw [run_loop_flag cfg (fuel + 1) hindex hoption, if_neg hnext, dif_neg hnext, herase,
      run_loop_end _ fuel hindex, assign_cons_flag cfg [] rfl hoption, positionals_bareFlag]
    rw [show positionals ([] : List (Segment String)) = [] from rfl, List.append_nil]
    rfl
  | @positional token rest segs htoken _ ih =>
    intro kept index cfg fuel hindex hlen hfuel
    simp only [List.length_append, List.length_cons] at hlen hfuel
    obtain ⟨fuel, rfl⟩ : ∃ n, fuel = n + 1 := ⟨fuel - 1, by omega⟩
    have hnext : (index + 1).toNat = (kept ++ [token]).length := by
      rw [toNat_succ (by omega), hindex, List.length_append, List.length_singleton]
    have hih := ih (kept ++ [token]) (index + 1) cfg fuel hnext
      (by simp only [List.length_append, List.length_singleton]; omega) (by omega)
    rw [List.append_assoc, List.singleton_append] at hih
    rw [run_loop_positional cfg fuel hindex htoken, hih, assign_cons_positional,
      positionals_positional, List.append_assoc, List.singleton_append]

/-- `fromArguments` returns: as many evaluations of the condition as tokens, and one, suffice. -/
theorem run_fromArguments {s : Statics} {args : List String} {segs : List (Segment String)}
    (hsegs : Parses s.IsFlag args segs) (hlen : args.length < UInt32.size) {fuel : Nat}
    (hfuel : args.length < fuel) :
    (fromArguments fuel args).run s =
      (some (positionals segs),
        { s with globalConfiguration := some (assign s ⟨s.defaultValues⟩ segs) }) := by
  have hloop := run_loop hsegs [] 0 ⟨s.defaultValues⟩ fuel rfl hlen hfuel
  rw [List.nil_append, List.nil_append] at hloop
  have hcreate : create.run s = (⟨s.defaultValues⟩, s) := rfl
  rw [fromArguments, StateT.run_bind, hcreate]
  refine (StateT.run_bind _ _ s).trans ?_
  rw [hloop]
  rfl

/-- **Command line parsing equals its grammar.** For every vector that `index` can count, as it can
every one of `main` (`length_mainArguments_lt`), `fromArguments` returns, with the positionals of
its only reading in `args` and a new global configuration of the entries of its segments over the
defaults. -/
theorem fromArguments_eq_grammar (s : Statics) (args : List String)
    (hlen : args.length < UInt32.size) :
    ∃ segs, (Parses s.IsFlag args segs ∧ ∀ segs', Parses s.IsFlag args segs' → segs' = segs) ∧
      (∀ token ∈ positionals segs, ¬ s.IsFlag token) ∧
      ∃ cfg : Configuration,
        (∀ fuel, args.length < fuel → (fromArguments fuel args).run s =
          (some (positionals segs), { s with globalConfiguration := some cfg })) ∧
        ∀ option, cfg.options.lookup option =
          (lastEntry option (segs.filterMap s.entry?)).or (s.defaultValues.lookup option) := by
  obtain ⟨segs, hsegs, huniq⟩ := existsUnique_parses s.IsFlag args
  refine ⟨segs, ⟨hsegs, huniq⟩, fun token ht => hsegs.not_registered ht,
    assign s ⟨s.defaultValues⟩ segs, fun fuel hfuel => run_fromArguments hsegs hlen hfuel, ?_⟩
  exact fun option => lookup_insertAll_last s.defaultValues (segs.filterMap s.entry?) option

/-- A repeated flag, a flag taken as a value, a token on its own and a flag at the end. -/
theorem fromArguments_eq_grammar_aliases :
    let args := ["--app", "--nebu", "run", "--interval", "5", "--interval"]
    args.length < UInt32.size ∧ ∃ segs,
      (Parses Statics.initial.IsFlag args segs ∧
        ∀ segs', Parses Statics.initial.IsFlag args segs' → segs' = segs) ∧
      (∀ token ∈ positionals segs, ¬ Statics.initial.IsFlag token) ∧
      ∃ cfg : Configuration,
        (∀ fuel, args.length < fuel → (fromArguments fuel args).run Statics.initial =
          (some (positionals segs), { Statics.initial with globalConfiguration := some cfg })) ∧
        ∀ option, cfg.options.lookup option =
          (lastEntry option (segs.filterMap Statics.initial.entry?)).or
            (Statics.initial.defaultValues.lookup option) :=
  ⟨by decide, fromArguments_eq_grammar Statics.initial _ (by decide)⟩

/-- What the code leaves of that command line, and stores of it. -/
example :
    let args := ["--app", "--nebu", "run", "--interval", "5", "--interval"]
    ((fromArguments 7 args).run Statics.initial).1 = some ["run"] ∧
      (((fromArguments 7 args).run Statics.initial).2.globalConfiguration.map fun cfg =>
        (cfg.getOption CONFIG_APP_UUID, cfg.getOption CONFIG_APP_INTERVAL)) =
      some (.ok "--nebu", .ok "") := by
  decide

end Configuration

end NebuApp
