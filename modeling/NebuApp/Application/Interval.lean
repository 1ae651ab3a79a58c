import NebuApp.Application.Rounds

/-!
# The interval between rounds

`mainLoop` hands the `int` of `CONFIG_GETINT` to `sleep`, whose parameter is an `unsigned int`, and
nothing on the way from the command line checks its sign. Over whole runs, `sleep` gets the
configured number of seconds exactly if that number is not negative; a negative one wraps.
-/

namespace NebuApp

open Exec Decimal Flags

/-! ## The conversion -/

/-- An `int` survives its conversion to an `unsigned int` iff it is not negative. -/
theorem toUInt32_exact_iff (i : Int32) : (i.toUInt32.toNat : Int) = i.toInt ↔ 0 ≤ i.toInt := by
  constructor
  · intro h
    omega
  · intro h
    have hle : (0 : Int32) ≤ i := Int32.le_iff_toInt_le.mpr h
    rw [Int32.toNat_toUInt32_of_le hle]
    exact Int.toNat_of_nonneg h

theorem toInt_ofIntClamp_nonneg_iff (n : Int) : 0 ≤ (Int32.ofIntClamp n).toInt ↔ 0 ≤ n := by
  have hmin : Int32.minValue.toInt = -2147483648 := rfl
  have hmax : Int32.maxValue.toInt = 2147483647 := rfl
  unfold Int32.ofIntClamp
  split
  next hl =>
    split
    next hr =>
      have hself : (Int32.ofIntLE n hl hr).toInt = n := Int32.toInt_ofIntLE
      rw [hself]
    next hr => omega
  next hl => omega

/-- The seconds slept for the integer a text begins with are that integer, clamped to the range of
`int`, exactly if there is no minus sign before digits that are not all zero. -/
theorem clamped_exact_iff (cs : List Char) :
    ((Int32.ofIntClamp (numeral cs).value).toUInt32.toNat : Int) =
        (Int32.ofIntClamp (numeral cs).value).toInt ↔ (numeral cs).isNegative = false := by
  rw [toUInt32_exact_iff, toInt_ofIntClamp_nonneg_iff, ← Bool.not_eq_true, ← value_neg_iff]
  omega

/-! ## An option that is left alone -/

namespace Configuration

/-- There is a global object, and it gives the option this value. -/
def Statics.Holds (s : Statics) (option value : String) : Prop :=
  ∃ c, s.globalConfiguration = some c ∧ c.options.lookup option = some value

/-- The operation neither replaces the global object nor writes the option. -/
def Op.Leaves (option : String) (op : Op) : Prop :=
  ¬ op.Replaces ∧ op.write? option true = none

theorem perform_holds {op : Op} {s : Statics} {option value : String} (hop : op.Leaves option)
    (h : s.Holds option value) : (op.perform s).Holds option value := by
  obtain ⟨c, hc, hvalue⟩ := h
  by_cases htouch : op.Touches
  · refine ⟨op.update c, by rw [perform_touches htouch, Statics.global_of_some hc], ?_⟩
    rw [lookup_update, hvalue, Option.isSome_some, hop.2]
    rfl
  · exact ⟨c, by rw [perform_passes htouch hop.1, hc], hvalue⟩

theorem foldl_perform_holds {ops : List Op} {s : Statics} {option value : String}
    (hops : ∀ op ∈ ops, op.Leaves option) (h : s.Holds option value) :
    (ops.foldl Op.perform s).Holds option value := by
  induction ops generalizing s with
  | nil => exact h
  | cons op rest ih =>
    exact ih (fun op' h' => hops op' (List.mem_cons_of_mem _ h'))
      (perform_holds (hops op List.mem_cons_self) h)

/-- A string that begins with a decimal integer is read as that integer, whatever the variable
held. -/
theorem Statics.Holds.getOptionInt {s : Statics} {option value : String}
    (h : s.Holds option value) (hdigits : (numeral value.toList).digits ≠ []) (result : Int32) :
    s.global.getOptionInt option result =
      .ok (Int32.ofIntClamp (numeral value.toList).value) := by
  obtain ⟨c, hc, hvalue⟩ := h
  have hcontent : skipBlanks value.toList ≠ [] := by
    intro hblank
    exact hdigits (by rw [numeral, hblank])
  rw [Statics.global_of_some hc, getOptionInt_of_ok (getOption_eq_ok_iff.mpr hvalue), extractInt,
    if_neg hcontent]
  rfl

theorem fromArguments_holds {s : Statics} {args : List String} {segs : List (Segment String)}
    (hsegs : Parses s.IsFlag args segs) (hlen : args.length < UInt32.size)
    {option value : String} (hvalue : s.effective? segs option = some value) :
    ((fromArguments (args.length + 1) args).run s).2.Holds option value := by
  obtain ⟨c, hs', hc⟩ := fromArguments_effective hsegs hlen (Nat.lt_succ_self args.length)
  exact ⟨c, by rw [hs'], (hc option).trans hvalue⟩

end Configuration

/-! ## What a run sleeps -/

/-- The steps of a round leave the interval alone. -/
def RoundEnv.LeavesInterval (env : RoundEnv) : Prop :=
  ∀ step, ∀ op ∈ env.configures step, op.Leaves CONFIG_APP_INTERVAL

/-- What `sleep` is given in a run from `s`, as an integer, is the interval that was configured
when the loop began. -/
def SleepsInterval (envs : Nat → RoundEnv) (s : AppState) : Prop :=
  ∀ fuel seconds, .slept seconds ∈ (exec (Application.mainLoop envs fuel) s).2.trace →
    ∀ result i, s.statics.global.getOptionInt CONFIG_APP_INTERVAL result = .ok i →
      (seconds.toNat : Int) = i.toInt

/-- An application that begins its loop after the command line `args` was read. -/
def AppState.startWith (daemonManager : Ref) (topologyManager : TopologyManager)
    (before after : List Op) (statics : Configuration.Statics) (args : List String) : AppState :=
  { AppState.start daemonManager topologyManager before after [] with
    statics := ((Configuration.fromArguments (args.length + 1) args).run statics).2 }

/-- Between rounds, the interval has the string `value` and only the integer it begins with has
been slept. -/
structure AppState.Sleeping (value : String) (s : AppState) : Prop where
  kept : s.app.vmManager.WellKept
  holds : s.statics.Holds CONFIG_APP_INTERVAL value
  slept : ∀ seconds, .slept seconds ∈ s.trace →
    seconds = (Int32.ofIntClamp (numeral value.toList).value).toUInt32

namespace RoundEnv

variable (env : RoundEnv)

theorem slept_not_mem_stepTrace (step : AppStep) (seconds : UInt32) :
    .slept seconds ∉ env.stepTrace step := by
  simp [stepTrace, shutdownTrace]

theorem slept_not_mem_deliveries (i : Nat) (entries : List Entry) (seconds : UInt32) :
    .slept seconds ∉ env.deliveries i entries := by
  intro hmem
  have hfilter : AppEvent.slept seconds ∈ (env.deliveries i entries).filter (!·.isShutdown) :=
    List.mem_filter.mpr ⟨hmem, rfl⟩
  rw [filter_deliveries] at hfilter
  simp at hfilter

theorem slept_not_mem_events (m : VMManager) (seconds : UInt32) :
    .slept seconds ∉ env.events m := by
  simp [events, slept_not_mem_stepTrace, slept_not_mem_deliveries]

end RoundEnv

namespace AppState

variable {value : String} {s : AppState} {env : RoundEnv}

theorem Sleeping.called (hs : s.Sleeping value) (hleaves : env.LeavesInterval) (step : AppStep) :
    (s.called env step).Sleeping value where
  kept := hs.kept
  holds := Configuration.foldl_perform_holds (hleaves step) hs.holds
  slept := by
    intro seconds hmem
    rcases List.mem_append.mp hmem with hold | hnew
    · exact hs.slept seconds hold
    · exact absurd hnew (env.slept_not_mem_stepTrace step seconds)

theorem Sleeping.vmsRefreshed (hs : s.Sleeping value) (hleaves : env.LeavesInterval) :
    (s.vmsRefreshed env).Sleeping value where
  kept := (refresh_sound hs.kept env.refresh).1
  holds := (hs.called hleaves .refreshVMList).holds
  slept := by
    intro seconds hmem
    rcases List.mem_append.mp hmem with hold | hnew
    · exact (hs.called hleaves .refreshVMList).slept seconds hold
    · exact absurd hnew (env.slept_not_mem_deliveries _ _ seconds)

/-- The configuration still has the interval when it is read. -/
theorem Sleeping.configured (hs : s.Sleeping value) (hleaves : env.LeavesInterval) :
    (env.configured s.statics).Holds CONFIG_APP_INTERVAL value := by
  refine Configuration.foldl_perform_holds (fun op hop => ?_) hs.holds
  obtain ⟨step, -, hop⟩ := List.mem_flatMap.mp hop
  exact hleaves step op hop

theorem Sleeping.rounded (hs : s.Sleeping value) (hleaves : env.LeavesInterval) :
    (s.rounded env (Int32.ofIntClamp (numeral value.toList).value)).Sleeping value where
  kept := (refresh_sound hs.kept env.refresh).1
  holds := Configuration.perform_holds ⟨id, rfl⟩ (hs.configured hleaves)
  slept := by
    intro seconds hmem
    rcases List.mem_append.mp hmem with hold | hnew
    · exact hs.slept seconds hold
    · rcases List.mem_append.mp hnew with hevent | hlast
      · exact absurd hevent (env.slept_not_mem_events _ seconds)
      · simpa using hlast

end AppState

section Interval

variable {value : String} (hdigits : (numeral value.toList).digits ≠ [])
include hdigits

/-- A round whose refresh ends normally sleeps the interval. -/
theorem AppState.Sleeping.exec_round {s : AppState} (hs : s.Sleeping value) {env : RoundEnv}
    (hleaves : env.LeavesInterval) {succes : Bool}
    (hrefresh : (s.app.vmManager.refresh env.refresh).1 = .ok succes) :
    exec (Application.round env) s =
      (.ok (), s.rounded env (Int32.ofIntClamp (numeral value.toList).value)) :=
  Application.exec_round env s hrefresh
    ((hs.configured hleaves).getOptionInt hdigits env.result)

/-- **A round sleeps nothing but the interval**, also if a callback throws. -/
theorem AppState.Sleeping.round {s : AppState} (hs : s.Sleeping value) {env : RoundEnv}
    (hleaves : env.LeavesInterval) : (exec (Application.round env) s).2.Sleeping value := by
  cases hrefresh : (s.app.vmManager.refresh env.refresh).1 with
  | ok succes =>
    rw [hs.exec_round hdigits hleaves hrefresh]
    exact hs.rounded hleaves
  | error abort =>
    rw [Application.exec_round_throw env s hrefresh]
    exact ((hs.called hleaves _).called hleaves _).vmsRefreshed hleaves

/-- A run sleeps the interval and nothing else. -/
theorem slept_of_mainLoop {envs : Nat → RoundEnv} (hleaves : ∀ k, (envs k).LeavesInterval)
    {s : AppState} (hs : s.Sleeping value) (fuel : Nat) (seconds : UInt32)
    (hmem : .slept seconds ∈ (exec (Application.mainLoop envs fuel) s).2.trace) :
    seconds = (Int32.ofIntClamp (numeral value.toList).value).toUInt32 := by
  rw [Application.exec_mainLoop_state] at hmem
  have hend : AppState.Sleeping value (exec (loopUntil (·.app.stopLoop)
      (fun k => Application.round (envs k)) fuel 0) s).2 :=
    loopUntil_invariant (fun k s hs => hs.round hdigits (hleaves k)) fuel 0 s hs
  exact hend.slept seconds hmem

theorem mainLoop_sleeps {envs : Nat → RoundEnv} (hleaves : ∀ k, (envs k).LeavesInterval)
    (hret : (envs 0).refresh.HandlersReturn) {s : AppState} (hs : s.Sleeping value)
    (hdown : s.app.stopLoop = false) :
    .slept (Int32.ofIntClamp (numeral value.toList).value).toUInt32 ∈
      (exec (Application.mainLoop envs 1) s).2.trace := by
  obtain ⟨succes, hrefresh⟩ := refresh_returns hs.kept hret
  have hround := hs.exec_round hdigits (hleaves 0) hrefresh
  have hloop : exec (loopUntil (·.app.stopLoop) (fun k => Application.round (envs k)) 1 0) s =
      (.ok false, s.rounded (envs 0) (Int32.ofIntClamp (numeral value.toList).value)) :=
    exec_loopUntil_step (s := s) hdown hround
  rw [Application.exec_mainLoop_state, hloop]
  show _ ∈ s.trace ++ (_ ++ [_])
  simp

end Interval

theorem AppState.startWith_sleeping (daemonManager : Ref) (topologyManager : TopologyManager)
    (before after : List Op) {statics : Configuration.Statics} {args : List String}
    {segs : List (Segment String)} (hsegs : Parses statics.IsFlag args segs)
    (hlen : args.length < UInt32.size) {value : String}
    (hvalue : statics.effective? segs CONFIG_APP_INTERVAL = some value) :
    (startWith daemonManager topologyManager before after statics args).Sleeping value where
  kept := (start_ready daemonManager topologyManager before after []).kept
  holds := Configuration.fromArguments_holds hsegs hlen hvalue
  slept := fun _ h => by cases h

/-- Rounds in which nothing happens but the refreshes, and nobody calls `shutdown`. -/
def RoundEnv.quiet : RoundEnv where
  refresh := .uniform [] .on
  topology := .ok none
  shutsDown _ := false
  callbackShutsDown _ := false
  configures _ := []
  result := 0

theorem RoundEnv.quiet_handlersReturn : quiet.refresh.HandlersReturn :=
  RefreshEnv.uniform_handlersReturn _ _

theorem RoundEnv.quiet_leavesInterval : quiet.LeavesInterval := fun _ _ h => by cases h

/-- **When the waiting time is the configured one.** For every command line of less than 2^32 tokens
whose effective interval begins with a decimal integer: every run whose hooks leave the interval
alone sleeps the integer that `getOptionInt` reads, whatever else happens, exactly if the string has
no minus sign before digits that are not all zero. -/
theorem sleepsInterval_iff (daemonManager : Ref) (topologyManager : TopologyManager)
    (before after : List Op) (statics : Configuration.Statics) (args : List String)
    (segs : List (Segment String)) (hsegs : Parses statics.IsFlag args segs)
    (hlen : args.length < UInt32.size) (value : String)
    (hvalue : statics.effective? segs CONFIG_APP_INTERVAL = some value)
    (hdigits : (numeral value.toList).digits ≠ []) :
    (∀ envs : Nat → RoundEnv, (∀ k, (envs k).LeavesInterval) →
      SleepsInterval envs (.startWith daemonManager topologyManager before after statics args)) ↔
      (numeral value.toList).isNegative = false := by
  have hs := AppState.startWith_sleeping daemonManager topologyManager before after hsegs hlen
    hvalue
  rw [← clamped_exact_iff]
  constructor
  · intro hsleeps
    -- a run in which nothing else happens shows the conversion
    have hslept := mainLoop_sleeps hdigits (fun _ => RoundEnv.quiet_leavesInterval)
      RoundEnv.quiet_handlersReturn hs rfl
    exact hsleeps _ (fun _ => RoundEnv.quiet_leavesInterval) 1 _ hslept 0 _
      (hs.holds.getOptionInt hdigits 0)
  · intro hexact envs hleaves fuel seconds hmem result i hi
    rw [hs.holds.getOptionInt hdigits result] at hi
    cases hi
    rw [slept_of_mainLoop hdigits hleaves hs fuel seconds hmem]
    exact hexact

/-- The last of two intervals counts, and 90 seconds are slept for it. -/
theorem sleepsInterval_iff_ninety :
    SleepsInterval (fun _ => .quiet)
      (.startWith 7 .init [] [] .initial ["--interval", "-5", "--interval", "90s"]) := by
  have hsegs : Parses Configuration.Statics.initial.IsFlag
      ["--interval", "-5", "--interval", "90s"]
      [.assignment "--interval" "-5", .assignment "--interval" "90s"] :=
    .assignment (by decide) (.assignment (by decide) .nil)
  exact (sleepsInterval_iff 7 .init [] [] .initial _ _ hsegs (by decide) "90s" (by decide)
    (by decide)).mpr (by decide) _ fun _ => RoundEnv.quiet_leavesInterval

/-- **A negative interval wraps.** For `--interval -5`, `getOptionInt` reads -5 and the first round
sleeps 4294967291 seconds. -/
theorem interval_wraps_of_negative :
    let s := AppState.startWith 7 .init [] [] .initial ["--interval", "-5"]
    let envs : Nat → RoundEnv := fun _ => .quiet
    s.statics.global.getOptionInt CONFIG_APP_INTERVAL 0 = .ok (-5) ∧
      .slept 4294967291 ∈ (exec (Application.mainLoop envs 1) s).2.trace ∧
      ¬ SleepsInterval envs s := by
  intro s envs
  have hsegs : Parses Configuration.Statics.initial.IsFlag ["--interval", "-5"]
      [.assignment "--interval" "-5"] := .assignment (by decide) .nil
  have hs : s.Sleeping "-5" :=
    AppState.startWith_sleeping 7 .init [] [] hsegs (by decide) (by decide)
  have hread : s.statics.global.getOptionInt CONFIG_APP_INTERVAL 0 = .ok (-5) :=
    hs.holds.getOptionInt (by decide) 0
  have hslept : .slept 4294967291 ∈ (exec (Application.mainLoop envs 1) s).2.trace :=
    mainLoop_sleeps (by decide) (fun _ => RoundEnv.quiet_leavesInterval)
      RoundEnv.quiet_handlersReturn hs rfl
  refine ⟨hread, hslept, fun hsleeps => ?_⟩
  have hequal := hsleeps 1 _ hslept 0 _ hread
  exact absurd hequal (by decide)

end NebuApp
