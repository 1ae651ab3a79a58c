import NebuApp.Config.Objects

/-!
# The history of a configuration object

An object of the class takes the defaults and, if it is made by `fromArguments`, the values of the
flags when it is made. From then on it is changed by nothing but accesses through a pointer to it,
and by those that ask for the global object while it is that one. `Resolves` says which value
an option has by this, and `object_resolves` that it has it, for all objects of all runs.
-/

namespace NebuApp

namespace Configuration

namespace Shared

open Flags Search

/-! ## What a history consists of -/

/-- What an operation registers. -/
def Op.registers? : Op → Option Configuration.Op
  | addCommandLineOption cmd optionName => some (.addCommandLineOption cmd optionName)
  | addDefaultValue optionName defaultValue => some (.addDefaultValue optionName defaultValue)
  | _ => none

/-- The registrations among some operations. -/
def registered (ops : List Op) : List Configuration.Op := ops.filterMap Op.registers?

/-- The accesses of an operation to an object. -/
def Op.accesses (object : Ref) (m : Members) : Op → List Configuration.Op
  | onGlobal access => if m.global = object then [access.op] else []
  | onObject object' access => if object' = object then [access.op] else []
  | _ => []

/-- The accesses of a run to an object, by whatever pointer. -/
def accesses (object : Ref) : Members → List Op → List Configuration.Op
  | _, [] => []
  | m, op :: rest => op.accesses object m ++ accesses object (op.perform m) rest

/-- The operation makes an object of the defaults. -/
def Op.Makes (m : Members) : Op → Prop
  | makeShared => True
  | getGlobalConfiguration | onGlobal _ => m.globalConfiguration = none
  | _ => False

/-- The vectors that are parsed are ones `index` can count. -/
def Op.Countable : Op → Prop
  | fromArguments args => args.length < UInt32.size
  | _ => True

/-- **Which value an option of an object has.** The value is the one last written to it through any
pointer to the object or, if none was, the one it was made with: that of a flag, if the object was
made by `fromArguments`, else the default registered at that moment. -/
inductive Resolves (ops : List Op) (object : Ref) (option : String) : Option String → Prop where
  | parsed {before after : List Op} {args : List String} {segs : List (Segment String)}
      (hops : ops = before ++ .fromArguments args :: after)
      (hobject : (runOps before).objects.next = object)
      (hsegs : Parses (fun token => (flagOf (registered before) token).isSome) args segs) :
      Resolves ops object option
        (valueAfter option ((flagValue (registered before) segs option).or
          (defaultOf (registered before) option))
          (accesses object (runOps (before ++ [.fromArguments args])) after))
  | made {before after : List Op} {op : Op} (hops : ops = before ++ op :: after)
      (hobject : (runOps before).objects.next = object) (hmakes : op.Makes (runOps before)) :
      Resolves ops object option (valueAfter option (defaultOf (registered before) option)
        (accesses object (runOps before) (op :: after)))

/-! ## The maps of defaults and flags -/

theorem maps_touched (m : Members) :
    m.touched.defaultValues = m.defaultValues ∧
      m.touched.commandLineOptions = m.commandLineOptions := by
  obtain ⟨objects, configuration, flags, defaults⟩ := m
  cases configuration <;> exact ⟨rfl, rfl⟩

/-- Nothing but a registration changes the static maps. -/
theorem maps_perform {op : Op} (h : op.registers? = none) (m : Members) :
    (op.perform m).defaultValues = m.defaultValues ∧
      (op.perform m).commandLineOptions = m.commandLineOptions := by
  cases op with
  | addCommandLineOption cmd optionName => cases h
  | addDefaultValue optionName defaultValue => cases h
  | fromArguments args =>
    obtain ⟨result, c, -, -, hperform⟩ := perform_fromArguments m args
    rw [hperform]
    exact ⟨rfl, rfl⟩
  | getGlobalConfiguration =>
    rw [perform_getGlobalConfiguration]
    exact maps_touched m
  | onGlobal access =>
    rw [perform_onGlobal]
    exact maps_touched m
  | makeShared | setGlobalConfiguration _ | onObject _ _ => exact ⟨rfl, rfl⟩

/-- The static maps of a run are those of its registrations. -/
theorem maps_runOps (ops : List Op) :
    (runOps ops).defaultValues = (Configuration.runOps (registered ops)).defaultValues ∧
      (runOps ops).commandLineOptions =
        (Configuration.runOps (registered ops)).commandLineOptions := by
  induction ops using List.reverseRecOn with
  | nil => exact ⟨rfl, rfl⟩
  | append_singleton ops op ih =>
    obtain ⟨hdefaults, hflags⟩ := ih
    rw [runOps_concat, registered, List.filterMap_append, ← registered, Configuration.runOps,
      List.foldl_append, ← Configuration.runOps]
    cases hop : op.registers? with
    | none =>
      obtain ⟨hdefaults', hflags'⟩ := maps_perform hop (runOps ops)
      rw [hdefaults', hflags', List.filterMap_cons_none hop]
      exact ⟨hdefaults, hflags⟩
    | some registration =>
      cases op with
      | addCommandLineOption cmd optionName =>
        refine ⟨hdefaults, ?_⟩
        show (runOps ops).commandLineOptions.insert cmd optionName =
          (Configuration.runOps (registered ops)).commandLineOptions.insert cmd optionName
        rw [hflags]
      | addDefaultValue optionName defaultValue =>
        refine ⟨?_, hflags⟩
        show (runOps ops).defaultValues.insert optionName defaultValue =
          (Configuration.runOps (registered ops)).defaultValues.insert optionName defaultValue
        rw [hdefaults]
      | fromArguments _ | makeShared | getGlobalConfiguration | setGlobalConfiguration _
      | onGlobal _ | onObject _ _ => cases hop

theorem runOps_append (ops rest : List Op) :
    runOps (ops ++ rest) = rest.foldl Op.perform (runOps ops) := List.foldl_append

theorem countable_registered (ops : List Op) : ∀ op ∈ registered ops, op.Countable := by
  intro op hop
  obtain ⟨op', -, hregisters⟩ := List.mem_filterMap.mp hop
  cases op' <;> cases hregisters <;> trivial

theorem lookup_defaultValues_runOps (ops : List Op) (option : String) :
    (runOps ops).defaultValues.lookup option = defaultOf (registered ops) option := by
  rw [(maps_runOps ops).1]
  exact lookup_defaultValues (countable_registered ops) option

theorem isFlag_statics (ops : List Op) :
    (runOps ops).statics.IsFlag = fun token => (flagOf (registered ops) token).isSome = true := by
  rw [← isFlag_runOps (countable_registered ops)]
  funext token
  show (token ∈ (runOps ops).commandLineOptions) = _
  rw [(maps_runOps ops).2]
  rfl

/-! ## What an operation does to an object -/

section Object

variable {m : Members} {object : Ref} {c : Configuration}

theorem get?_touched (h : m.objects.get? object = some c) :
    m.touched.objects.get? object = some c := by
  obtain ⟨objects, configuration, flags, defaults⟩ := m
  cases configuration with
  | none => exact Store.get?_alloc_of_some h _
  | some r => exact h

theorem get?_access (h : m.objects.get? object = some c) (object' : Ref) (access : Access) :
    (m.onObject object' (access.run ·)).objects.get? object =
      some ((if object' = object then [access.op] else []).foldl Configuration.Op.update c) := by
  rw [Members.onObject, Store.get?_modify, h]
  split
  · exact congrArg some (run_eq_update access c)
  · rfl

theorem get?_perform (op : Op) (h : m.objects.get? object = some c) :
    (op.perform m).objects.get? object =
      some ((op.accesses object m).foldl Configuration.Op.update c) := by
  cases op with
  | addCommandLineOption _ _ | addDefaultValue _ _ | setGlobalConfiguration _ => exact h
  | makeShared => exact Store.get?_alloc_of_some h _
  | fromArguments args =>
    obtain ⟨result, c', -, -, hperform⟩ := perform_fromArguments m args
    rw [hperform]
    exact Store.get?_alloc_of_some h c'
  | getGlobalConfiguration =>
    rw [perform_getGlobalConfiguration]
    exact get?_touched h
  | onGlobal access =>
    rw [perform_onGlobal]
    exact get?_access (get?_touched h) m.global access
  | onObject object' access => exact get?_access h object' access

/-- Induction on the operations. -/
theorem get?_run (ops : List Op) (h : m.objects.get? object = some c) :
    (ops.foldl Op.perform m).objects.get? object =
      some ((accesses object m ops).foldl Configuration.Op.update c) := by
  induction ops generalizing m c with
  | nil => exact h
  | cons op rest ih => rw [List.foldl_cons, ih (get?_perform op h), accesses, List.foldl_append]

theorem isSome_onObject (object' : Ref) (f : Configuration → Configuration) :
    ((m.onObject object' f).objects.get? object).isSome = (m.objects.get? object).isSome := by
  rw [Members.onObject, Store.get?_modify]
  split
  · exact Option.isSome_map
  · rfl

/-- **Objects are only made in these ways.** -/
theorem makes_of_new {op : Op} (hnone : (m.objects.get? object).isSome = false)
    (h : ((op.perform m).objects.get? object).isSome = true) :
    m.objects.next = object ∧ (op.Makes m ∨ ∃ args, op = .fromArguments args) := by
  have hmade : ∀ {c : Configuration}, ((m.objects.alloc c).get? object).isSome = true →
      m.objects.next = object := by
    intro c halloc
    rw [Store.get?_alloc] at halloc
    split at halloc
    next heq => exact heq.symm
    next => cases hnone.symm.trans halloc
  have htouched : (m.touched.objects.get? object).isSome = true →
      m.objects.next = object ∧ m.globalConfiguration = none := by
    obtain ⟨objects, configuration, flags, defaults⟩ := m
    cases configuration with
    | none => exact fun halloc => ⟨hmade halloc, rfl⟩
    | some r => exact fun hsome => by cases hnone.symm.trans hsome
  cases op with
  | addCommandLineOption _ _ | addDefaultValue _ _ | setGlobalConfiguration _ =>
    cases hnone.symm.trans h
  | makeShared => exact ⟨hmade h, Or.inl trivial⟩
  | fromArguments args =>
    obtain ⟨result, c', -, -, hperform⟩ := perform_fromArguments m args
    rw [hperform] at h
    exact ⟨hmade h, Or.inr ⟨args, rfl⟩⟩
  | getGlobalConfiguration =>
    rw [perform_getGlobalConfiguration] at h
    exact ⟨(htouched h).1, Or.inl (htouched h).2⟩
  | onGlobal access =>
    rw [perform_onGlobal, isSome_onObject] at h
    exact ⟨(htouched h).1, Or.inl (htouched h).2⟩
  | onObject object' access => cases hnone.symm.trans ((isSome_onObject object' _).symm.trans h)

theorem get?_makes {op : Op} (h : op.Makes m) :
    (op.perform m).objects.get? m.objects.next =
      some ((op.accesses m.objects.next m).foldl Configuration.Op.update ⟨m.defaultValues⟩) := by
  cases op with
  | makeShared => exact m.objects.get?_alloc_next _
  | getGlobalConfiguration =>
    obtain ⟨objects, configuration, flags, defaults⟩ := m
    cases h
    exact objects.get?_alloc_next _
  | onGlobal access =>
    rw [perform_onGlobal]
    obtain ⟨objects, configuration, flags, defaults⟩ := m
    cases h
    exact get?_access (objects.get?_alloc_next _) _ access
  | addCommandLineOption _ _ | addDefaultValue _ _ | fromArguments _ | setGlobalConfiguration _
  | onObject _ _ => exact absurd h id

theorem get?_fromArguments {args : List String} {segs : List (Segment String)}
    (hsegs : Parses m.statics.IsFlag args segs) (hlen : args.length < UInt32.size) :
    ((Op.fromArguments args).perform m).objects.get? m.objects.next =
      some (assign m.statics ⟨m.defaultValues⟩ segs) := by
  obtain ⟨result, c, hleft, hloop, hperform⟩ := perform_fromArguments m args
  have hrun := run_loop hsegs [] 0 ⟨m.defaultValues⟩ (args.length + 1) rfl hlen
    (Nat.lt_succ_self args.length)
  obtain rfl : result = some (positionals segs, assign m.statics ⟨m.defaultValues⟩ segs) :=
    congrArg Prod.fst (hloop.symm.trans hrun)
  rw [hperform, ← hleft _ rfl]
  exact m.objects.get?_alloc_next _

end Object

theorem lookup_foldl_update (c : Configuration) (ops : List Configuration.Op) (option : String) :
    (ops.foldl Configuration.Op.update c).options.lookup option =
      valueAfter option (c.options.lookup option) ops := by
  induction ops generalizing c with
  | nil => rfl
  | cons op rest ih => rw [List.foldl_cons, ih, lookup_update, valueAfter_cons]

/-! ## Histories -/

/-- Every object was made by some operation. Induction on the last one. -/
theorem exists_made {object : Ref} (ops : List Op)
    (h : ((runOps ops).objects.get? object).isSome = true) :
    ∃ before op after, ops = before ++ op :: after ∧ (runOps before).objects.next = object ∧
      (op.Makes (runOps before) ∨ ∃ args, op = .fromArguments args) := by
  induction ops using List.reverseRecOn with
  | nil => cases h
  | append_singleton ops op ih =>
    cases hold : ((runOps ops).objects.get? object).isSome with
    | true =>
      obtain ⟨before, op', after, rfl, hobject, hmakes⟩ := ih hold
      exact ⟨before, op', after ++ [op], by simp, hobject, hmakes⟩
    | false =>
      rw [runOps_concat] at h
      obtain ⟨hobject, hmakes⟩ := makes_of_new hold h
      exact ⟨ops, op, [], rfl, hobject, hmakes⟩

theorem exists_objectResolves {ops : List Op} {object : Ref}
    (h : ((runOps ops).objects.get? object).isSome = true) (option : String) :
    ∃ value?, Resolves ops object option value? := by
  obtain ⟨before, op, after, hops, hobject, hmakes | ⟨args, rfl⟩⟩ := exists_made ops h
  · exact ⟨_, .made hops hobject hmakes⟩
  · obtain ⟨segs, hsegs⟩ :=
      exists_parses (fun token => (flagOf (registered before) token).isSome) args
    exact ⟨_, .parsed hops hobject hsegs⟩

/-- What the command line gives an option of the object it makes. -/
theorem lookup_assign_runOps (ops : List Op) (segs : List (Segment String)) (option : String) :
    (assign (runOps ops).statics ⟨(runOps ops).defaultValues⟩ segs).options.lookup option =
      (flagValue (registered ops) segs option).or (defaultOf (registered ops) option) := by
  obtain ⟨hdefaults, hflags⟩ := maps_runOps ops
  rw [← effective_runOps (countable_registered ops), Members.statics, hdefaults, hflags]
  exact lookup_insertAll_last _ _ option

/-- **What the options of an object are made of.** After any sequence of operations whose vectors
`index` can count (they are shorter than 2^32), by whatever pointers, every option of every object
resolves to something, and to nothing else than what `getOption` finds through any pointer to it. -/
theorem object_resolves (ops : List Op) (hops : ∀ op ∈ ops, op.Countable) {object : Ref}
    {c : Configuration} (h : (runOps ops).objects.get? object = some c) (option : String) :
    (∃ value?, Resolves ops object option value?) ∧
      ∀ value?, Resolves ops object option value? → c.getOption option = found value? := by
  refine ⟨exists_objectResolves (by rw [h]; rfl) option, fun value? hresolves => ?_⟩
  rw [getOption_eq_found]
  refine congrArg found ?_
  cases hresolves with
  | @parsed before after args segs hsplit hobject hsegs =>
    subst hsplit hobject
    have hlen : args.length < UInt32.size := hops (.fromArguments args) (by simp)
    rw [← isFlag_statics] at hsegs
    have hmade := get?_fromArguments hsegs hlen
    rw [← runOps_concat] at hmade
    rw [List.append_cons, runOps_append, get?_run after hmade] at h
    rw [← Option.some.inj h, lookup_foldl_update, lookup_assign_runOps]
  | @made before after op hsplit hobject hmakes =>
    subst hsplit hobject
    rw [runOps_append, List.foldl_cons, get?_run after (get?_makes hmakes)] at h
    rw [← Option.some.inj h, ← List.foldl_append, lookup_foldl_update, lookup_defaultValues_runOps]
    rfl

/-- Two objects: the one used before the command line was parsed is set through a pointer that was
kept, the other one is the global object. -/
theorem object_resolves_kept :
    let ops : List Op := [.addDefaultValue "log.level" "info", .onGlobal (.setOption "user" "a"),
      .fromArguments ["--app", "id"], .onObject 0 (.setOption "user" "b"),
      .onGlobal (.assignOption "log.level" "warn")]
    ∃ kept global, (runOps ops).objects.get? 0 = some kept ∧
      (runOps ops).objects.get? 1 = some global ∧
      kept.getOption "user" = .ok "b" ∧ kept.getOption "log.level" = .ok "info" ∧
      global.getOption "user" = .error .outOfRange ∧ global.getOption "log.level" = .ok "warn" := by
  intro ops
  have hops : ∀ op ∈ ops, op.Countable := by simp [ops, Op.Countable, UInt32.size]
  obtain ⟨kept, hkept⟩ : ∃ c, (runOps ops).objects.get? 0 = some c := ⟨_, rfl⟩
  obtain ⟨global, hglobal⟩ : ∃ c, (runOps ops).objects.get? 1 = some c := ⟨_, rfl⟩
  have hsegs : Parses (fun token => (flagOf [.addDefaultValue "log.level" "info"] token).isSome)
      ["--app", "id"] [.assignment "--app" "id"] := .assignment (by decide) .nil
  have hresolves := fun option => (object_resolves ops hops hkept option).2 _
    (@Resolves.made ops 0 option [.addDefaultValue "log.level" "info"] _ _ rfl rfl rfl)
  have hresolves' := fun option => (object_resolves ops hops hglobal option).2 _
    (@Resolves.parsed ops 1 option [.addDefaultValue "log.level" "info",
      .onGlobal (.setOption "user" "a")] _ _ _ rfl rfl hsegs)
  exact ⟨kept, global, hkept, hglobal, hresolves "user", hresolves "log.level",
    hresolves' "user", hresolves' "log.level"⟩

end Shared

end Configuration

end NebuApp
