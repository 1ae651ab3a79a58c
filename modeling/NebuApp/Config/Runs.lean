import NebuApp.Config.Integers
import Mathlib.Data.List.Induction

/-!
# The configuration over a whole run

The static maps and the lazily created global object of `Configuration`, over any sequence of
operations. The object takes a copy of the defaults when it is created: by `fromArguments`, which
replaces the object there was, or by whatever touches it first. From then on only writes to it
count. `Resolves` says of a sequence of operations which value an option has after it, and
`getOption_resolves` that this is the value the code finds.
-/

namespace NebuApp

namespace Configuration

open Flags Search

/-! ## Operations -/

/-- An operation on the class or on its global object. `readOption` and `assignOption` are the two
uses of `operator[]`. -/
inductive Op where
  | addCommandLineOption (cmd optionName : String)
  | addDefaultValue (optionName defaultValue : String)
  | fromArguments (args : List String)
  | getGlobalConfiguration
  | setOption (option value : String)
  | readOption (option : String)
  | assignOption (option value : String)

/-- Change the global object through the pointer that `getGlobalConfiguration` returns. -/
def onGlobal (f : Configuration → Configuration) : Code Unit := do
  setGlobalConfiguration (f (← getGlobalConfiguration))

/-- The code of an operation. -/
def Op.code : Op → Code Unit
  | addCommandLineOption cmd optionName => Configuration.addCommandLineOption cmd optionName
  | addDefaultValue optionName defaultValue =>
    Configuration.addDefaultValue optionName defaultValue
  | fromArguments args => do
    let _ ← Configuration.fromArguments (args.length + 1) args
  | getGlobalConfiguration => do
    let _ ← Configuration.getGlobalConfiguration
  | setOption option value => onGlobal fun c => c.setOption option value
  | readOption option => onGlobal fun c => (c.index option).2
  | assignOption option value => onGlobal fun c => (c.index option).2.setOption option value

/-- The statics after an operation. -/
def Op.perform (s : Statics) (op : Op) : Statics := (op.code.run s).2

/-- The statics after a sequence of operations of the program. -/
def runOps (ops : List Op) : Statics := ops.foldl Op.perform .initial

/-- `getGlobalConfiguration()->getOption(option)` after a sequence of operations. -/
def getOptionAfter (ops : List Op) (option : String) : Except MapError String :=
  (getGlobalConfiguration.run (runOps ops)).1.getOption option

/-! ## What a run has registered and written -/

/-- The default an operation registers. -/
def Op.default? : Op → Option (Σ _ : String, String)
  | addDefaultValue optionName defaultValue => some ⟨optionName, defaultValue⟩
  | _ => none

/-- The flag an operation registers. -/
def Op.flag? : Op → Option (Σ _ : String, String)
  | addCommandLineOption cmd optionName => some ⟨cmd, optionName⟩
  | _ => none

/-- The default last registered for an option. -/
def defaultOf (ops : List Op) (option : String) : Option String :=
  (lastEntry option (ops.filterMap Op.default?)).or (Statics.initial.defaultValues.lookup option)

/-- The option a flag was last mapped to. -/
def flagOf (ops : List Op) (cmd : String) : Option String :=
  (lastEntry cmd (ops.filterMap Op.flag?)).or (Statics.initial.commandLineOptions.lookup cmd)

/-- What the segments of a command line give an option, with the flags registered so far. -/
def flagValue (ops : List Op) (segs : List (Segment String)) (option : String) : Option String :=
  lastEntry option (segs.filterMap fun seg => do
    let (flag, value) ← seg.assigned? ""
    let option ← flagOf ops flag
    return ⟨option, value⟩)

/-- The value an operation on the global object writes to `option`. To read an absent option is to
write the empty string to it. -/
def Op.write? (option : String) (present : Bool) : Op → Option String
  | setOption option' value | assignOption option' value =>
    if option' = option then some value else none
  | readOption option' => if option' = option ∧ !present then some "" else none
  | _ => none

/-- The values a sequence of operations writes to `option`, in order. -/
def writesTo (option : String) : Bool → List Op → List String
  | _, [] => []
  | present, op :: rest =>
    match op.write? option present with
    | some value => value :: writesTo option true rest
    | none => writesTo option present rest

/-- The value of an option after a sequence of operations, given the one it had before. -/
def valueAfter (option : String) (before : Option String) (ops : List Op) : Option String :=
  (writesTo option before.isSome ops).getLast?.or before

/-- The operation replaces the global object. -/
def Op.Replaces : Op → Prop
  | fromArguments _ => True
  | _ => False

/-- The operation has the global object created if there is none. -/
def Op.Touches : Op → Prop
  | getGlobalConfiguration | setOption _ _ | readOption _ | assignOption _ _ => True
  | _ => False

/-- **Which value an option has.** The object in force was created by the last `fromArguments` or,
if there was none, by the operation that touched it first; if none did, it is only created when
the option is asked for. The value is the one last written to the option since then or, if none
was, the one its creation gave it: that of a flag, else the default registered at that moment. -/
inductive Resolves (ops : List Op) (option : String) : Option String → Prop where
  | fromArguments {before after : List Op} {args : List String} {segs : List (Segment String)}
      (hops : ops = before ++ .fromArguments args :: after) (hlast : ∀ op ∈ after, ¬ op.Replaces)
      (hsegs : Parses (fun token => (flagOf before token).isSome) args segs) :
      Resolves ops option
        (valueAfter option ((flagValue before segs option).or (defaultOf before option)) after)
  | lazily {before after : List Op} {op : Op} (hops : ops = before ++ op :: after)
      (hfirst : ∀ op' ∈ before, ¬ op'.Touches) (htouch : op.Touches)
      (hnone : ∀ op' ∈ ops, ¬ op'.Replaces) :
      Resolves ops option (valueAfter option (defaultOf before option) (op :: after))
  | untouched (htouch : ∀ op ∈ ops, ¬ op.Touches) (hnone : ∀ op ∈ ops, ¬ op.Replaces) :
      Resolves ops option (defaultOf ops option)

/-! ## What an operation does to the global object -/

/-- The global object, created if there is none. -/
def Statics.global (s : Statics) : Configuration := s.globalConfiguration.getD ⟨s.defaultValues⟩

theorem Statics.global_of_some {s : Statics} {c : Configuration}
    (h : s.globalConfiguration = some c) : s.global = c := by
  rw [Statics.global, h]
  rfl

theorem run_getGlobalConfiguration (s : Statics) :
    getGlobalConfiguration.run s =
      (s.global, { s with globalConfiguration := some s.global }) := by
  obtain ⟨c, flags, defaults⟩ := s
  cases c <;> rfl

/-- The global object after an operation that touches it. -/
def Op.update (c : Configuration) : Op → Configuration
  | setOption option value => c.setOption option value
  | readOption option => (c.index option).2
  | assignOption option value => (c.index option).2.setOption option value
  | _ => c

theorem run_onGlobal (f : Configuration → Configuration) (s : Statics) :
    ((onGlobal f).run s).2 = { s with globalConfiguration := some (f s.global) } := by
  simp only [onGlobal, StateT.run_bind, run_getGlobalConfiguration]
  rfl

theorem perform_touches {op : Op} (h : op.Touches) (s : Statics) :
    op.perform s = { s with globalConfiguration := some (op.update s.global) } := by
  cases op with
  | addCommandLineOption cmd optionName => exact absurd h id
  | addDefaultValue optionName defaultValue => exact absurd h id
  | fromArguments args => exact absurd h id
  | getGlobalConfiguration =>
    simp only [Op.perform, Op.code, StateT.run_bind, run_getGlobalConfiguration]
    rfl
  | setOption option value => exact run_onGlobal _ s
  | readOption option => exact run_onGlobal _ s
  | assignOption option value => exact run_onGlobal _ s

/-- An operation that neither touches nor replaces the global object leaves it alone. -/
theorem perform_passes {op : Op} (h : ¬ op.Touches) (h' : ¬ op.Replaces) (s : Statics) :
    (op.perform s).globalConfiguration = s.globalConfiguration := by
  cases op with
  | addCommandLineOption cmd optionName => rfl
  | addDefaultValue optionName defaultValue => rfl
  | fromArguments args => exact absurd trivial h'
  | getGlobalConfiguration | setOption _ _ | readOption _ | assignOption _ _ =>
    exact absurd trivial h

theorem update_of_not_touches {op : Op} (h : ¬ op.Touches) (c : Configuration) :
    op.update c = c := by
  cases op with
  | addCommandLineOption _ _ | addDefaultValue _ _ | fromArguments _ | getGlobalConfiguration => rfl
  | setOption _ _ | readOption _ | assignOption _ _ => exact absurd trivial h

theorem lookup_index (c : Configuration) (option option' : String) :
    (c.index option').2.options.lookup option =
      (if option' = option ∧ !(c.options.lookup option).isSome then some "" else none).or
        (c.options.lookup option) := by
  unfold index
  by_cases ho : option' = option
  · subst ho
    cases hl : c.options.lookup option' with
    | some value => simp [hl]
    | none => simp [setOption]
  · cases hl : c.options.lookup option' with
    | some value => simp [ho]
    | none => simp [ho, setOption, Ne.symm ho]

theorem lookup_update (op : Op) (c : Configuration) (option : String) :
    (op.update c).options.lookup option =
      (op.write? option (c.options.lookup option).isSome).or (c.options.lookup option) := by
  cases op with
  | addCommandLineOption _ _ | addDefaultValue _ _ | fromArguments _ | getGlobalConfiguration => rfl
  | setOption option' value =>
    rw [Op.update, setOption, UnorderedMap.lookup_insert, Op.write?]
    by_cases ho : option' = option
    · simp [ho]
    · simp [ho, Ne.symm ho]
  | readOption option' => exact lookup_index c option option'
  | assignOption option' value =>
    rw [Op.update, setOption, UnorderedMap.lookup_insert, lookup_index, Op.write?]
    by_cases ho : option' = option
    · simp [ho]
    · simp [ho, Ne.symm ho]

/-! ## The run since the object was created -/

theorem valueAfter_cons (option : String) (before : Option String) (op : Op) (rest : List Op) :
    valueAfter option before (op :: rest) =
      valueAfter option ((op.write? option before.isSome).or before) rest := by
  unfold valueAfter
  rw [writesTo]
  cases op.write? option before.isSome with
  | none => rfl
  | some value =>
    simp only [Option.some_or, Option.isSome_some, List.getLast?_cons]
    cases (writesTo option true rest).getLast? <;> rfl

/-- **From its creation on, only writes count.** Induction on the operations, none of which
replaces the object. -/
theorem run_since {s : Statics} {c : Configuration} (hs : s.globalConfiguration = some c)
    {ops : List Op} (hlast : ∀ op ∈ ops, ¬ op.Replaces) (option : String) :
    ∃ c', (ops.foldl Op.perform s).globalConfiguration = some c' ∧
      c'.options.lookup option = valueAfter option (c.options.lookup option) ops := by
  induction ops generalizing s c with
  | nil => exact ⟨c, hs, rfl⟩
  | cons op rest ih =>
    have hglobal : s.global = c := Statics.global_of_some hs
    have hstep : (op.perform s).globalConfiguration = some (op.update c) := by
      by_cases htouch : op.Touches
      · rw [perform_touches htouch, hglobal]
      · rw [perform_passes htouch (hlast op List.mem_cons_self), hs, update_of_not_touches htouch]
    obtain ⟨c', hc', hlookup⟩ := ih hstep fun op' h => hlast op' (List.mem_cons_of_mem _ h)
    refine ⟨c', hc', ?_⟩
    rw [hlookup, lookup_update, valueAfter_cons]

/-! ## What a run has registered -/

/-- The vectors that are parsed are ones `index` can count. -/
def Op.Countable : Op → Prop
  | fromArguments args => args.length < UInt32.size
  | _ => True

theorem perform_fromArguments {s : Statics} {args : List String} {segs : List (Segment String)}
    (hsegs : Parses s.IsFlag args segs) (hlen : args.length < UInt32.size) :
    (Op.fromArguments args).perform s =
      { s with globalConfiguration := some (assign s ⟨s.defaultValues⟩ segs) } := by
  have hrun := run_fromArguments hsegs hlen (Nat.lt_succ_self args.length)
  simp only [Op.perform, Op.code, StateT.run_bind, hrun]
  rfl

theorem perform_registers {op : Op} (hop : op.Countable) (s : Statics) :
    (op.perform s).defaultValues = insertAll s.defaultValues op.default?.toList ∧
      (op.perform s).commandLineOptions = insertAll s.commandLineOptions op.flag?.toList := by
  cases op with
  | addCommandLineOption cmd optionName => exact ⟨rfl, rfl⟩
  | addDefaultValue optionName defaultValue => exact ⟨rfl, rfl⟩
  | fromArguments args =>
    obtain ⟨segs, hsegs⟩ := exists_parses s.IsFlag args
    rw [perform_fromArguments hsegs hop]
    exact ⟨rfl, rfl⟩
  | getGlobalConfiguration | setOption _ _ | readOption _ | assignOption _ _ =>
    rw [perform_touches (by exact trivial)]
    exact ⟨rfl, rfl⟩

theorem run_registers {ops : List Op} (hops : ∀ op ∈ ops, op.Countable) (s : Statics) :
    (ops.foldl Op.perform s).defaultValues =
        insertAll s.defaultValues (ops.filterMap Op.default?) ∧
      (ops.foldl Op.perform s).commandLineOptions =
        insertAll s.commandLineOptions (ops.filterMap Op.flag?) := by
  induction ops generalizing s with
  | nil => exact ⟨rfl, rfl⟩
  | cons op rest ih =>
    obtain ⟨hdefaults, hflags⟩ := perform_registers (hops op List.mem_cons_self) s
    obtain ⟨hdefaults', hflags'⟩ :=
      ih (fun op' h => hops op' (List.mem_cons_of_mem _ h)) (op.perform s)
    have hcons : ∀ f : Op → Option (Σ _ : String, String),
        (op :: rest).filterMap f = (f op).toList ++ rest.filterMap f := by
      intro f
      cases h : f op <;> simp [h]
    rw [List.foldl_cons, hdefaults', hflags', hdefaults, hflags, hcons, hcons, insertAll_append,
      insertAll_append]
    exact ⟨rfl, rfl⟩

section Registered

variable {ops : List Op} (hops : ∀ op ∈ ops, op.Countable)
include hops

theorem lookup_defaultValues (option : String) :
    (runOps ops).defaultValues.lookup option = defaultOf ops option := by
  rw [runOps, (run_registers hops _).1, lookup_insertAll_last]
  rfl

theorem lookup_commandLineOptions (cmd : String) :
    (runOps ops).commandLineOptions.lookup cmd = flagOf ops cmd := by
  rw [runOps, (run_registers hops _).2, lookup_insertAll_last]
  rfl

theorem isFlag_runOps : (runOps ops).IsFlag = fun token => (flagOf ops token).isSome = true := by
  funext token
  rw [← lookup_commandLineOptions hops, AList.lookup_isSome]
  rfl

/-- What `fromArguments` gives an option, in terms of what was registered before it. -/
theorem effective_runOps (segs : List (Segment String)) (option : String) :
    (runOps ops).effective? segs option =
      (flagValue ops segs option).or (defaultOf ops option) := by
  have hentry : Statics.entry? (runOps ops) = fun seg => do
      let (flag, value) ← seg.assigned? ""
      let option ← flagOf ops flag
      return ⟨option, value⟩ := by
    funext seg
    unfold Statics.entry?
    simp only [lookup_commandLineOptions hops]
  rw [Statics.effective?, lookup_defaultValues hops, flagValue, hentry]

end Registered

/-! ## Resolution -/

/-- What the lookup of an option comes back with. -/
def found : Option String → Except MapError String
  | some value => .ok value
  | none => .error .outOfRange

theorem getOption_eq_found (c : Configuration) (option : String) :
    c.getOption option = found (c.options.lookup option) := by
  unfold getOption
  cases c.options.lookup option <;> rfl

/-- Every sequence of operations is of one of the three kinds. Induction on the last operation. -/
theorem exists_resolves (ops : List Op) (option : String) :
    ∃ value?, Resolves ops option value? := by
  induction ops using List.reverseRecOn with
  | nil => exact ⟨_, .untouched (fun _ h => by cases h) fun _ h => by cases h⟩
  | append_singleton ops op ih =>
    have hsnoc : ∀ {p : Op → Prop} {l : List Op}, (∀ op' ∈ l, ¬ p op') → ¬ p op →
        ∀ op' ∈ l ++ [op], ¬ p op' := by
      intro p l hl hop op' h
      rcases List.mem_append.mp h with h | h
      · exact hl op' h
      · rwa [List.mem_singleton.mp h]
    by_cases hreplace : op.Replaces
    · cases op with
      | fromArguments args =>
        obtain ⟨segs, hsegs⟩ := exists_parses (fun token => (flagOf ops token).isSome) args
        exact ⟨_, .fromArguments rfl (fun _ h => by cases h) hsegs⟩
      | addCommandLineOption _ _ | addDefaultValue _ _ | getGlobalConfiguration | setOption _ _
      | readOption _ | assignOption _ _ => exact absurd hreplace id
    · obtain ⟨_, h⟩ := ih
      cases h with
      | fromArguments hops hlast hsegs =>
        exact ⟨_, .fromArguments (by rw [hops, List.append_assoc]; rfl)
          (hsnoc hlast hreplace) hsegs⟩
      | lazily hops hfirst htouch hnone =>
        exact ⟨_, .lazily (by rw [hops, List.append_assoc]; rfl) hfirst htouch
          (hsnoc hnone hreplace)⟩
      | untouched htouch hnone =>
        by_cases hop : op.Touches
        · exact ⟨_, .lazily rfl htouch hop (hsnoc hnone hreplace)⟩
        · exact ⟨_, .untouched (hsnoc htouch hop) (hsnoc hnone hreplace)⟩

theorem run_untouched {ops : List Op} (htouch : ∀ op ∈ ops, ¬ op.Touches)
    (hnone : ∀ op ∈ ops, ¬ op.Replaces) (s : Statics) :
    (ops.foldl Op.perform s).globalConfiguration = s.globalConfiguration := by
  induction ops generalizing s with
  | nil => rfl
  | cons op rest ih =>
    rw [List.foldl_cons, ih (fun op' h => htouch op' (List.mem_cons_of_mem _ h))
      (fun op' h => hnone op' (List.mem_cons_of_mem _ h))]
    exact perform_passes (htouch op List.mem_cons_self) (hnone op List.mem_cons_self) s

/-- The global object after a sequence of operations gives an option the value that the sequence
resolves it to. -/
theorem lookup_global {ops : List Op} (hops : ∀ op ∈ ops, op.Countable) {option : String}
    {value? : Option String} (h : Resolves ops option value?) :
    (runOps ops).global.options.lookup option = value? := by
  cases h with
  | @fromArguments before after args segs hsplit hlast hsegs =>
    subst hsplit
    have hbefore : ∀ op ∈ before, op.Countable := fun op h => hops op (by simp [h])
    rw [← isFlag_runOps hbefore] at hsegs
    have hlen : args.length < UInt32.size := hops (.fromArguments args) (by simp)
    have hcreate : ((Op.fromArguments args).perform (runOps before)).globalConfiguration =
        some (assign (runOps before) ⟨(runOps before).defaultValues⟩ segs) := by
      rw [perform_fromArguments hsegs hlen]
    -- it has been changed in place since
    obtain ⟨c, hc, hlookup⟩ := run_since hcreate hlast option
    have hglobal : (runOps (before ++ .fromArguments args :: after)).global = c := by
      rw [runOps, List.foldl_append, List.foldl_cons]
      exact Statics.global_of_some hc
    rw [hglobal, hlookup, ← effective_runOps hbefore]
    exact congrArg (valueAfter option · after) (lookup_insertAll_last _ _ option)
  | @lazily before after op hsplit hfirst htouch hnone =>
    subst hsplit
    have hbefore : ∀ op ∈ before, op.Countable := fun op h => hops op (by simp [h])
    -- nobody has made an object, until `op` asks for one
    have hnull : (runOps before).globalConfiguration = none :=
      run_untouched hfirst (fun op' h => hnone op' (List.mem_append_left _ h)) .initial
    have hcreate : (op.perform (runOps before)).globalConfiguration =
        some (op.update ⟨(runOps before).defaultValues⟩) := by
      rw [perform_touches htouch, Statics.global, hnull]
      rfl
    have hlast : ∀ op' ∈ after, ¬ op'.Replaces := fun op' h => hnone op' (by simp [h])
    obtain ⟨c, hc, hlookup⟩ := run_since hcreate hlast option
    have hglobal : (runOps (before ++ op :: after)).global = c := by
      rw [runOps, List.foldl_append, List.foldl_cons]
      exact Statics.global_of_some hc
    rw [hglobal, hlookup, lookup_update, valueAfter_cons, lookup_defaultValues hbefore]
  | untouched htouch hnone =>
    rw [Statics.global, runOps, run_untouched htouch hnone]
    exact lookup_defaultValues hops option

/-- **Option resolution over whole runs.** After any sequence of operations whose vectors `index`
can count, an option resolves to something, and to nothing else than what `getOption` on the global
object finds: a value, or `out_of_range` if there is none. -/
theorem getOption_resolves (ops : List Op) (hops : ∀ op ∈ ops, op.Countable) (option : String) :
    (∃ value?, Resolves ops option value?) ∧
      ∀ value?, Resolves ops option value? → getOptionAfter ops option = found value? := by
  refine ⟨exists_resolves ops option, fun value? h => ?_⟩
  rw [getOptionAfter, run_getGlobalConfiguration, getOption_eq_found, lookup_global hops h]

/-- An option written on a lazily created object, which a later `fromArguments` discards, with a
default registered in between and an absent option that is read. -/
theorem getOption_resolves_discarded :
    let ops : List Op := [.setOption CONFIG_APP_INTERVAL "5", .addDefaultValue "log.level" "info",
      .fromArguments ["--app", "id"], .readOption "user"]
    getOptionAfter ops CONFIG_APP_INTERVAL = found (some "60") ∧
      getOptionAfter ops "log.level" = found (some "info") ∧
      getOptionAfter ops "user" = found (some "") ∧ getOptionAfter ops "none" = found none := by
  intro ops
  have hops : ∀ op ∈ ops, op.Countable := by
    simp [ops, Op.Countable, UInt32.size]
  have hsegs : Parses (fun token => (flagOf [.setOption CONFIG_APP_INTERVAL "5",
      .addDefaultValue "log.level" "info"] token).isSome) ["--app", "id"]
      [.assignment "--app" "id"] := .assignment (by decide) .nil
  have h := fun option => (getOption_resolves ops hops option).2 _
    (.fromArguments rfl (by simp [Op.Replaces]) hsegs)
  exact ⟨h CONFIG_APP_INTERVAL, h "log.level", h "user", h "none"⟩

/-! ## Options that are never missing -/

/-- The option has a default, and the global object has it. -/
def Statics.Provides (s : Statics) (option : String) : Prop :=
  option ∈ s.defaultValues ∧ option ∈ s.global.options

/-- The loop of `fromArguments` leaves the static members alone and removes no option, also where
`index` wraps. Induction on the fuel. -/
theorem run_loop_keeps {s : Statics} {option : String} (fuel : Nat) :
    ∀ (args : List String) (cfg : Configuration) (index : UInt32), option ∈ cfg.options →
      ∃ result, (fromArgumentsLoop fuel args cfg index).run s = (result, s) ∧
        ∀ left ∈ result, option ∈ left.2.options := by
  induction fuel with
  | zero => exact fun args cfg index _ => ⟨none, rfl, fun _ h => by cases h⟩
  | succ fuel ih =>
    intro args cfg index hoption
    by_cases hlt : index.toNat < args.length
    · obtain ⟨kept, token, rest, rfl, hindex⟩ : ∃ kept token rest,
          args = kept ++ token :: rest ∧ index.toNat = kept.length :=
        ⟨args.take index.toNat, args[index.toNat], args.drop (index.toNat + 1), by simp,
          by rw [List.length_take]; omega⟩
      by_cases hflag : s.IsFlag token
      · obtain ⟨option', hlookup⟩ := hflag.lookup
        rw [run_loop_flag cfg fuel hindex hlookup]
        exact ih _ _ _ ((AList.mem_insert _).mpr (Or.inr hoption))
      · rw [run_loop_positional cfg fuel hindex hflag]
        exact ih _ _ _ hoption
    · refine ⟨some (args, cfg), ?_, fun left h => ?_⟩
      · rw [fromArgumentsLoop, dif_neg hlt]
        rfl
      · cases h
        exact hoption

theorem mem_update (op : Op) {c : Configuration} {option : String} (h : option ∈ c.options) :
    option ∈ (op.update c).options := by
  rw [← AList.lookup_isSome] at h ⊢
  rw [lookup_update, Option.isSome_or, h, Bool.or_true]

/-- **No operation takes an option away** that has a default. -/
theorem perform_provides (op : Op) {s : Statics} {option : String} (h : s.Provides option) :
    (op.perform s).Provides option := by
  obtain ⟨hdefault, hglobal⟩ := h
  by_cases htouch : op.Touches
  · rw [perform_touches htouch]
    exact ⟨hdefault, mem_update op hglobal⟩
  cases op with
  | getGlobalConfiguration | setOption _ _ | readOption _ | assignOption _ _ =>
    exact absurd trivial htouch
  | addCommandLineOption cmd optionName => exact ⟨hdefault, hglobal⟩
  | addDefaultValue optionName defaultValue =>
    have hdefault' : option ∈ s.defaultValues.insert optionName defaultValue :=
      (AList.mem_insert _).mpr (Or.inr hdefault)
    refine ⟨hdefault', ?_⟩
    unfold Statics.global at hglobal ⊢
    show option ∈ (s.globalConfiguration.getD ⟨s.defaultValues.insert _ _⟩).options
    cases hc : s.globalConfiguration with
    | none => exact hdefault'
    | some c => rwa [hc] at hglobal
  | fromArguments args =>
    obtain ⟨result, hrun, hkeeps⟩ :=
      run_loop_keeps (args.length + 1) args ⟨s.defaultValues⟩ 0 hdefault
    have hcreate : create.run s = pure (⟨s.defaultValues⟩, s) := rfl
    have hloop : (fromArgumentsLoop (args.length + 1) args ⟨s.defaultValues⟩ 0).run s =
        pure (result, s) := hrun
    -- the object is replaced if the loop ends, and otherwise stays
    have hperform : (Op.fromArguments args).perform s =
        (result.elim s fun left => { s with globalConfiguration := some left.2 }) := by
      simp only [Op.perform, Op.code, fromArguments, StateT.run_bind, hcreate, pure_bind, hloop]
      cases result <;> rfl
    rw [hperform]
    cases result with
    | none => exact ⟨hdefault, hglobal⟩
    | some left => exact ⟨hdefault, hkeeps left rfl⟩

theorem foldl_perform_provides (ops : List Op) {s : Statics} {option : String}
    (h : s.Provides option) : (ops.foldl Op.perform s).Provides option := by
  induction ops generalizing s with
  | nil => exact h
  | cons op rest ih => exact ih (perform_provides op h)

/-- `CONFIG_GETINT` reads the global object, which is created if there is none. -/
theorem run_CONFIG_GETINT_global (option : String) (result : Int32) (s : Statics) :
    (CONFIG_GETINT option result).run s =
      (s.global.getOptionInt option result, Op.perform s .getGlobalConfiguration) := by
  rw [perform_touches (by exact trivial)]
  simp only [CONFIG_GETINT, StateT.run_bind, run_getGlobalConfiguration]
  rfl

theorem Statics.Provides.getOptionInt {s : Statics} {option : String} (h : s.Provides option)
    (result : Int32) : ∃ i, s.global.getOptionInt option result = .ok i := by
  obtain ⟨value, hvalue⟩ := Option.isSome_iff_exists.mp (AList.lookup_isSome.mpr h.2)
  exact ⟨_, getOptionInt_of_ok (getOption_eq_ok_iff.mpr hvalue) result⟩

/-- `fromArguments` in terms of its loop: if that ends, the object replaces the global one. -/
theorem perform_fromArguments_of_loop {s : Statics} {args : List String}
    {result : Option (List String × Configuration)}
    (h : (fromArgumentsLoop (args.length + 1) args ⟨s.defaultValues⟩ 0).run s = (result, s)) :
    (Op.fromArguments args).perform s =
      result.elim s fun left => { s with globalConfiguration := some left.2 } := by
  have hcreate : create.run s = pure (⟨s.defaultValues⟩, s) := rfl
  have hloop : (fromArgumentsLoop (args.length + 1) args ⟨s.defaultValues⟩ 0).run s =
      pure (result, s) := h
  simp only [Op.perform, Op.code, fromArguments, StateT.run_bind, hcreate, pure_bind, hloop]
  cases result <;> rfl

theorem initial_provides_interval : Statics.initial.Provides CONFIG_APP_INTERVAL :=
  ⟨by decide, by decide⟩

end Configuration

end NebuApp
