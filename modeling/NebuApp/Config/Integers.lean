import NebuApp.Config.Arguments
import NebuApp.Lib.Decimal

/-!
# Options read as integers

`getOptionInt` declares an `int` without a value and extracts the option's string into it.
`operator>>` stores something whenever there is a character left that is not blank: the clamped
integer, or 0 if there is none. Where there is nothing but blanks it stores nothing, and the
function returns what the variable happened to hold. That content is an argument of the model.
-/

namespace NebuApp

namespace Configuration

open Decimal Flags Search

/-- `operator>>(int &)` on a stream that holds `cs`: what it stores, if it stores anything. -/
def extractInt (cs : List Char) : Option Int32 :=
  if skipBlanks cs = [] then none else some (Int32.ofIntClamp (numeral cs).value)

/-- `Configuration::getOptionInt`. `result` is what the variable holds before the extraction. -/
def getOptionInt (c : Configuration) (option : String) (result : Int32) :
    Except MapError Int32 := do
  let intAsString ← c.getOption option
  pure ((extractInt intAsString.toList).getD result)

/-- `CONFIG_GETINT`. -/
def CONFIG_GETINT (option : String) (result : Int32) : Code (Except MapError Int32) := do
  return (← getGlobalConfiguration).getOptionInt option result

/-! ## What the variable held -/

/-- A string with a character that is not blank. -/
def HasContent (value : String) : Prop := ∃ c ∈ value.toList, isBlank c = false

theorem skipBlanks_ne_nil_iff {value : String} :
    skipBlanks value.toList ≠ [] ↔ HasContent value := by
  rw [ne_eq, skipBlanks_eq_nil_iff, HasContent]
  simp

theorem getOptionInt_of_error {c : Configuration} {option : String} {e : MapError}
    (h : c.getOption option = .error e) (result : Int32) :
    c.getOptionInt option result = .error e := by
  rw [getOptionInt, h]
  rfl

theorem getOptionInt_of_ok {c : Configuration} {option value : String}
    (h : c.getOption option = .ok value) (result : Int32) :
    c.getOptionInt option result = .ok ((extractInt value.toList).getD result) := by
  rw [getOptionInt, h]
  rfl

/-- **When the content of the variable does not show**: the string has a character that is not
blank. -/
theorem getOptionInt_determined_iff {c : Configuration} {option value : String}
    (h : c.getOption option = .ok value) :
    (∀ result result', c.getOptionInt option result = c.getOptionInt option result') ↔
      HasContent value := by
  rw [← skipBlanks_ne_nil_iff]
  constructor
  · intro hsame hblank
    -- two contents that a blank string lets through
    have h01 := hsame 0 1
    rw [getOptionInt_of_ok h, getOptionInt_of_ok h, extractInt, if_pos hblank] at h01
    exact absurd h01 (by decide)
  · intro hcontent result result'
    rw [getOptionInt_of_ok h, getOptionInt_of_ok h, extractInt, if_neg hcontent]
    rfl

/-! ## After the arguments were read -/

/-- The string an option has once the segments of a command line were read: the last value given
by a flag that maps to it, or its default. -/
def Statics.effective? (s : Statics) (segs : List (Segment String)) (option : String) :
    Option String :=
  (lastEntry option (segs.filterMap s.entry?)).or (s.defaultValues.lookup option)

theorem getOption_eq_ok_iff {c : Configuration} {option value : String} :
    c.getOption option = .ok value ↔ c.options.lookup option = some value := by
  unfold getOption
  split
  next v h => simp [h]
  next h => simp [h]

theorem getOption_eq_error_iff {c : Configuration} {option : String} :
    c.getOption option = .error .outOfRange ↔ c.options.lookup option = none := by
  unfold getOption
  split
  next v h => simp [h]
  next h => simp [h]

theorem run_CONFIG_GETINT {s : Statics} {c : Configuration} (h : s.globalConfiguration = some c)
    (option : String) (result : Int32) :
    ((CONFIG_GETINT option result).run s) = (c.getOptionInt option result, s) := by
  simp only [CONFIG_GETINT, getGlobalConfiguration, StateT.run_bind, StateT.run_get, pure_bind, h]
  rfl

theorem fromArguments_effective {s : Statics} {args : List String} {segs : List (Segment String)}
    (hsegs : Parses s.IsFlag args segs) (hlen : args.length < UInt32.size) {fuel : Nat}
    (hfuel : args.length < fuel) :
    ∃ c : Configuration, ((fromArguments fuel args).run s).2 =
        { s with globalConfiguration := some c } ∧
      ∀ option, c.options.lookup option = s.effective? segs option := by
  rw [run_fromArguments hsegs hlen hfuel]
  exact ⟨_, rfl, fun option => lookup_insertAll_last s.defaultValues _ option⟩

/-- **When an integer option depends on its string alone.** For every stored string, `getOptionInt`
returns the same for all contents of its variable exactly when the string has a character that is
not blank. So what `CONFIG_GETINT` makes of a command line of less than 2^32 tokens is a function of
the command line and the defaults exactly when the option's effective string, if there is one, has
such a character. -/
theorem optionInt_determined_iff (option : String) :
    (∀ (c : Configuration) (value : String), c.getOption option = .ok value →
      ((∀ result result', c.getOptionInt option result = c.getOptionInt option result') ↔
        HasContent value)) ∧
    ∀ (s : Statics) (args : List String) (segs : List (Segment String)),
      args.length < UInt32.size → Parses s.IsFlag args segs → ∀ fuel, args.length < fuel →
        let s' := ((fromArguments fuel args).run s).2
        ((∀ result result', ((CONFIG_GETINT option result).run s').1 =
            ((CONFIG_GETINT option result').run s').1) ↔
          ∀ value, s.effective? segs option = some value → HasContent value) := by
  refine ⟨fun c value h => getOptionInt_determined_iff h, ?_⟩
  intro s args segs hlen hsegs fuel hfuel s'
  obtain ⟨c, hs', hc⟩ := fromArguments_effective hsegs hlen hfuel
  have hglobal : s'.globalConfiguration = some c := by
    show (((fromArguments fuel args).run s).2).globalConfiguration = some c
    rw [hs']
  simp only [run_CONFIG_GETINT hglobal, ← hc]
  cases hl : c.options.lookup option with
  | none =>
    have herror := getOption_eq_error_iff.mpr hl
    refine iff_of_true (fun result result' => ?_) (fun value h => by cases h)
    rw [getOptionInt_of_error herror, getOptionInt_of_error herror]
  | some value =>
    rw [getOptionInt_determined_iff (getOption_eq_ok_iff.mpr hl)]
    exact ⟨fun h value' heq => by cases heq; exact h, fun h => h value rfl⟩

/-- An interval given on the command line, and a flag at its end that maps to another option. -/
theorem optionInt_determined_iff_interval :
    let s' := ((fromArguments 4 ["--interval", " 15s", "--app"]).run Statics.initial).2
    ∀ result result', ((CONFIG_GETINT CONFIG_APP_INTERVAL result).run s').1 =
      ((CONFIG_GETINT CONFIG_APP_INTERVAL result').run s').1 := by
  have hsegs : Parses Statics.initial.IsFlag ["--interval", " 15s", "--app"]
      [.assignment "--interval" " 15s", .bareFlag "--app"] :=
    .assignment (by decide) (.bareFlag (by decide))
  refine ((optionInt_determined_iff CONFIG_APP_INTERVAL).2 Statics.initial _ _ (by decide) hsegs 4
    (by decide)).mpr fun value h => ?_
  rw [show value = " 15s" from (Option.some.inj h).symm]
  exact ⟨'1', by decide, rfl⟩

/-- **A bare `--interval` leaves the interval to chance.** The flag at the end of the command line
stores the empty string, and the interval that is read is what the variable held. -/
theorem interval_undetermined_of_bareFlag :
    let s' := ((fromArguments 2 ["--interval"]).run Statics.initial).2
    (getGlobalConfiguration.run s').1.getOption CONFIG_APP_INTERVAL = .ok "" ∧
      ((CONFIG_GETINT CONFIG_APP_INTERVAL 0).run s').1 = .ok 0 ∧
      ((CONFIG_GETINT CONFIG_APP_INTERVAL 86400).run s').1 = .ok 86400 ∧
      ¬ ∀ (c : Configuration) (option value : String), c.getOption option = .ok value →
        ∀ result result', c.getOptionInt option result = c.getOptionInt option result' := by
  intro s'
  have hempty : (getGlobalConfiguration.run s').1.getOption CONFIG_APP_INTERVAL = .ok "" := by
    decide
  refine ⟨hempty, by decide, by decide, fun hall => ?_⟩
  have h01 := hall _ _ _ hempty 0 1
  exact absurd h01 (by decide)

end Configuration

end NebuApp
