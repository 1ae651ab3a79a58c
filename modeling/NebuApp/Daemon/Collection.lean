import NebuApp.Daemon.Model
import NebuApp.Lib.Exec

/-!
# The daemon collection as an index

The buckets of a `DaemonCollection` are read off by `bucket`, which is empty where the map has no
entry. Every query leaves the map alone, since it only indexes keys it has found, and `addDaemon`
enlarges one bucket. So the bucket of a key always holds the daemons added whose type is cast to
that key (`Indexes`), and as the cast is injective on 32 bits each type has its own.
-/

namespace NebuApp

namespace DaemonCollection

/-- The daemons filed under a key. -/
def bucket (c : DaemonCollection) (itype : Int32) : Finset Ref := (c.daemons.lookup itype).getD ∅

theorem mem_foldl_insert (keep : Ref → Bool) (l : List Ref) (daemons : Finset Ref) (d : Ref) :
    d ∈ l.foldl (fun daemons d => if keep d then insert d daemons else daemons) daemons ↔
      d ∈ daemons ∨ d ∈ l ∧ keep d = true := by
  induction l generalizing daemons with
  | nil => simp
  | cons a rest ih =>
    rw [List.foldl_cons, ih, List.mem_cons]
    by_cases ha : keep a = true
    · rw [if_pos ha, Finset.mem_insert]
      constructor
      · rintro ((rfl | hd) | ⟨hd, hk⟩)
        · exact Or.inr ⟨Or.inl rfl, ha⟩
        · exact Or.inl hd
        · exact Or.inr ⟨Or.inr hd, hk⟩
      · rintro (hd | ⟨rfl | hd, hk⟩)
        · exact Or.inl (Or.inr hd)
        · exact Or.inl (Or.inl rfl)
        · exact Or.inr ⟨hd, hk⟩
    · rw [if_neg ha]
      constructor
      · rintro (hd | ⟨hd, hk⟩)
        · exact Or.inl hd
        · exact Or.inr ⟨Or.inr hd, hk⟩
      · rintro (hd | ⟨rfl | hd, hk⟩)
        · exact Or.inl hd
        · exact absurd hk ha
        · exact Or.inr ⟨hd, hk⟩

/-! ## Running the code -/

section Run

variable (c : DaemonCollection) (itype : Int32)

theorem run_contains : (contains itype).run c = (decide (itype ∈ c.daemons), c) := rfl

theorem run_index {set : Finset Ref} (h : c.daemons.lookup itype = some set) :
    (index itype).run c = (set, c) := by
  simp only [index, StateT.run_bind, StateT.run_get, pure_bind, h]
  rfl

variable {c itype} in
theorem mem_daemons_iff : itype ∈ c.daemons ↔ ∃ set, c.daemons.lookup itype = some set := by
  rw [← AList.lookup_isSome, Option.isSome_iff_exists]

/-- The loop over a bucket inserts what the filter accepts. Induction on the rest of the bucket. -/
theorem run_collectWhere {set : Finset Ref} (h : c.daemons.lookup itype = some set)
    (keep : Ref → Bool) (l : List Ref) (daemons : Finset Ref) :
    (collectWhere itype keep l daemons).run c =
      (l.foldl (fun daemons d => if keep d then insert d daemons else daemons) daemons, c) := by
  induction l generalizing daemons with
  | nil =>
    rw [collectWhere, StateT.run_bind, run_index c itype h]
    rfl
  | cons a rest ih =>
    rw [collectWhere, StateT.run_bind, run_index c itype h]
    exact ih _

end Run

/-! ## The queries -/

section Queries

variable (c : DaemonCollection)

theorem run_getDaemonsForType (type : DaemonType) :
    (getDaemonsForType type).run c = (c.bucket type.toInt32, c) := by
  rw [getDaemonsForType, StateT.run_bind, run_contains]
  by_cases h : type.toInt32 ∈ c.daemons
  · obtain ⟨set, hset⟩ := mem_daemons_iff.mp h
    show (if decide (type.toInt32 ∈ c.daemons) = true then index type.toInt32
      else pure ∅ : Code (Finset Ref)).run c = _
    rw [if_pos (decide_eq_true h), run_index c _ hset, bucket, hset]
    rfl
  · have hnone : c.daemons.lookup type.toInt32 = none := AList.lookup_eq_none.mpr h
    show (if decide (type.toInt32 ∈ c.daemons) = true then index type.toInt32
      else pure ∅ : Code (Finset Ref)).run c = _
    rw [if_neg (by simpa using h), bucket, hnone]
    rfl

theorem run_getDaemonsForTypeWhere (keep : Ref → Bool) (type : DaemonType) :
    (getDaemonsForTypeWhere keep type).run c =
      ((c.bucket type.toInt32).filter (keep · = true), c) := by
  rw [getDaemonsForTypeWhere, StateT.run_bind, run_contains]
  by_cases h : type.toInt32 ∈ c.daemons
  · obtain ⟨set, hset⟩ := mem_daemons_iff.mp h
    show (if decide (type.toInt32 ∈ c.daemons) = true
      then index type.toInt32 >>= fun set => collectWhere type.toInt32 keep (set.sort (· ≤ ·)) ∅
      else pure ∅ : Code (Finset Ref)).run c = _
    rw [if_pos (decide_eq_true h), StateT.run_bind, run_index c _ hset, bucket, hset]
    refine (run_collectWhere c type.toInt32 hset keep _ ∅).trans (Prod.ext ?_ rfl)
    refine Finset.ext fun d => (mem_foldl_insert keep _ ∅ d).trans ?_
    simp
  · have hnone : c.daemons.lookup type.toInt32 = none := AList.lookup_eq_none.mpr h
    show (if decide (type.toInt32 ∈ c.daemons) = true
      then index type.toInt32 >>= fun set => collectWhere type.toInt32 keep (set.sort (· ≤ ·)) ∅
      else pure ∅ : Code (Finset Ref)).run c = _
    rw [if_neg (by simpa using h), bucket, hnone]
    rfl

theorem mem_foldl_entries {f : Finset Ref → (Σ _ : Int32, Finset Ref) → Finset Ref}
    (keep : Ref → Prop) (hf : ∀ s e d, d ∈ f s e ↔ d ∈ s ∨ d ∈ e.2 ∧ keep d) (d : Ref) :
    d ∈ c.daemons.entries.foldl f ∅ ↔ ∃ itype, d ∈ c.bucket itype ∧ keep d := by
  have hgen : ∀ (l : List (Σ _ : Int32, Finset Ref)) (s : Finset Ref),
      d ∈ l.foldl f s ↔ d ∈ s ∨ ∃ e ∈ l, d ∈ e.2 ∧ keep d := by
    intro l
    induction l with
    | nil => intro s; simp
    | cons e rest ih =>
      intro s
      rw [List.foldl_cons, ih, hf, or_assoc]
      simp only [List.mem_cons, exists_eq_or_imp]
  rw [hgen, or_iff_right (Finset.notMem_empty d)]
  constructor
  · rintro ⟨e, he, hd, hk⟩
    have hlookup : c.daemons.lookup e.1 = some e.2 := AList.mem_lookup_iff.mpr he
    exact ⟨e.1, by rw [bucket, hlookup]; exact hd, hk⟩
  · rintro ⟨itype, hd, hk⟩
    rw [bucket] at hd
    cases hl : c.daemons.lookup itype with
    | none => rw [hl] at hd; exact absurd hd (Finset.notMem_empty d)
    | some set => rw [hl] at hd; exact ⟨⟨itype, set⟩, AList.mem_lookup_iff.mp hl, hd, hk⟩

theorem mem_getDaemons (d : Ref) :
    d ∈ (getDaemons.run c).1 ↔ ∃ itype, d ∈ c.bucket itype := by
  have hloop := mem_foldl_entries c (f := fun daemons typeSet => daemons ∪ typeSet.2)
    (fun _ => True) (fun s e d => by rw [Finset.mem_union, and_true]) d
  exact hloop.trans (by simp only [and_true])

theorem mem_getDaemonsFiltered (includeInResults : Ref → Bool) (d : Ref) :
    d ∈ ((getDaemonsFiltered includeInResults).run c).1 ↔
      ∃ itype, d ∈ c.bucket itype ∧ includeInResults d = true := by
  have hloop := mem_foldl_entries c (f := fun daemons typeSet =>
      (typeSet.2.sort (· ≤ ·)).foldl (fun daemons d =>
        if includeInResults d then insert d daemons else daemons) daemons)
    (includeInResults · = true) (fun s e d => by rw [mem_foldl_insert, Finset.mem_sort]) d
  exact hloop

end Queries

/-! ## The calls -/

theorem bucket_addDaemon (c : DaemonCollection) (objects : Daemons) (daemon : Ref)
    (itype : Int32) :
    ((addDaemon objects daemon).run c).2.bucket itype =
      if itype = (objects daemon).getType.toInt32 then insert daemon (c.bucket itype)
      else c.bucket itype := by
  have hins : ∀ (c : DaemonCollection) (set : Finset Ref),
      c.daemons.lookup (objects daemon).getType.toInt32 = some set →
      ((do assign (objects daemon).getType.toInt32
            (insert daemon (← index (objects daemon).getType.toInt32)) : Code Unit).run c).2 =
        ⟨c.daemons.insert (objects daemon).getType.toInt32 (insert daemon set)⟩ := by
    intro c set hset
    rw [StateT.run_bind, run_index c _ hset]
    rfl
  rw [addDaemon, StateT.run_bind, run_contains]
  by_cases h : (objects daemon).getType.toInt32 ∈ c.daemons
  · obtain ⟨set, hset⟩ := mem_daemons_iff.mp h
    have hrun := hins c set hset
    simp only [decide_eq_true h]
    refine (congrArg (bucket · itype) hrun).trans ?_
    rw [bucket, UnorderedMap.lookup_insert]
    split
    next heq => rw [bucket, heq, hset]; rfl
    next => rfl
  · -- an absent key is given an empty set first
    have hnone : c.daemons.lookup (objects daemon).getType.toInt32 = none :=
      AList.lookup_eq_none.mpr h
    have hrun := hins ⟨c.daemons.insert (objects daemon).getType.toInt32 ∅⟩ ∅
      (AList.lookup_insert c.daemons)
    simp only [decide_eq_false h]
    refine (congrArg (bucket · itype) hrun).trans ?_
    rw [bucket, UnorderedMap.lookup_insert, UnorderedMap.lookup_insert]
    split
    next heq => rw [bucket, heq, hnone]; rfl
    next => rfl

/-- The calls that only ask. -/
def Op.isQuery : Op → Bool
  | addDaemon _ | launch _ _ => false
  | _ => true

/-- **A query changes nothing.** -/
theorem Op.perform_query {op : Op} (h : op.isQuery = true) (w : World) : (op.perform w).2 = w := by
  -- the code of a query ends with the collection it began with
  have hcode : ((op.code w.objects).run w.collection).2 = w.collection := by
    cases op with
    | addDaemon d => cases h
    | launch d success => cases h
    | getDaemons => rfl
    | getDaemonsForType type =>
      exact congrArg Prod.snd (run_getDaemonsForType w.collection type)
    | getUnlaunchedDaemonsForType type =>
      exact congrArg Prod.snd (run_getDaemonsForTypeWhere w.collection _ type)
    | getLaunchedDaemonsForType type =>
      exact congrArg Prod.snd (run_getDaemonsForTypeWhere w.collection _ type)
    | getDaemonsFiltered p => rfl
  have hobjects : op.objectsAfter w.objects = w.objects := by
    cases op with
    | launch d success => cases h
    | _ => rfl
  simp only [Op.perform, hcode, hobjects]

/-! ## The invariant of a run -/

/-- The buckets hold exactly the added daemons, each under the cast of its type. -/
def Indexes (c : DaemonCollection) (objects : Daemons) (added : Ref → Prop) : Prop :=
  ∀ itype d, d ∈ c.bucket itype ↔ added d ∧ (objects d).getType.toInt32 = itype

theorem Indexes.addDaemon {c : DaemonCollection} {objects : Daemons} {added : Ref → Prop}
    (h : Indexes c objects added) (a : Ref) :
    Indexes ((DaemonCollection.addDaemon objects a).run c).2 objects
      (fun d => added d ∨ d = a) := by
  intro itype d
  rw [bucket_addDaemon]
  by_cases htype : itype = (objects a).getType.toInt32
  · rw [if_pos htype, Finset.mem_insert, h itype d]
    constructor
    · rintro (rfl | ⟨hd, ht⟩)
      · exact ⟨Or.inr rfl, htype.symm⟩
      · exact ⟨Or.inl hd, ht⟩
    · rintro ⟨hd | hd, ht⟩
      · exact Or.inr ⟨hd, ht⟩
      · exact Or.inl hd
  · rw [if_neg htype, h itype d]
    constructor
    · exact fun hd => ⟨Or.inl hd.1, hd.2⟩
    · rintro ⟨hd | rfl, ht⟩
      · exact ⟨hd, ht⟩
      · exact absurd ht.symm htype

theorem launch_getType (objects : Daemons) (a : Ref) (success : Bool) (d : Ref) :
    (objects.launch a success d).getType = (objects d).getType := by
  rw [Daemons.launch, Function.update_apply]
  split
  next heq => rw [heq]
  next => rfl

/-- A call keeps the index exact, and keeps the types. -/
theorem Op.perform_indexes {w : World} {added : Ref → Prop}
    (h : Indexes w.collection w.objects added) (op : Op) :
    Indexes (op.perform w).2.collection (op.perform w).2.objects
        (fun d => added d ∨ op = .addDaemon d) ∧
      ∀ d, ((op.perform w).2.objects d).getType = (w.objects d).getType := by
  by_cases hq : op.isQuery = true
  · rw [Op.perform_query hq]
    refine ⟨fun itype d => ?_, fun d => rfl⟩
    have hne : op ≠ .addDaemon d := by
      rintro rfl
      cases hq
    rw [h itype d]
    simp only [hne, or_false]
  · cases op with
    | addDaemon a =>
      refine ⟨fun itype d => (h.addDaemon a itype d).trans ?_, fun d => rfl⟩
      show (added d ∨ d = a) ∧ _ ↔ (added d ∨ Op.addDaemon a = .addDaemon d) ∧ _
      rw [Op.addDaemon.injEq, @eq_comm _ a d]
      rfl
    | launch a success =>
      refine ⟨fun itype d => ?_, launch_getType w.objects a success⟩
      show d ∈ w.collection.bucket itype ↔
        _ ∧ (w.objects.launch a success d).getType.toInt32 = itype
      rw [launch_getType, h itype d]
      simp only [reduceCtorEq, or_false]
    | _ => exact absurd rfl hq

/-- The buckets of a run hold the daemons the run has added, under the types they always had. -/
theorem runOps_indexes (objects : Daemons) (ops : List Op) :
    Indexes (runOps objects ops).collection objects (fun d => .addDaemon d ∈ ops) := by
  suffices h : ∀ (w : World) (added : Ref → Prop), Indexes w.collection w.objects added →
      (∀ d, (w.objects d).getType = (objects d).getType) →
      Indexes (ops.foldl (fun w op => (op.perform w).2) w).collection objects
        (fun d => added d ∨ .addDaemon d ∈ ops) by
    have hrun := h ⟨init, objects⟩ (fun _ => False)
      (fun itype d => by simp [bucket, init]) (fun _ => rfl)
    simp only [false_or] at hrun
    exact hrun
  induction ops with
  | nil =>
    intro w added hw htypes itype d
    simp [hw itype d, htypes]
  | cons op rest ih =>
    intro w added hw htypes itype d
    obtain ⟨hop, hsame⟩ := op.perform_indexes hw
    rw [List.foldl_cons, ih _ _ hop (fun d => (hsame d).trans (htypes d)) itype d]
    simp only [List.mem_cons, or_assoc, eq_comm]

theorem toInt32_injective : Function.Injective UInt32.toInt32 := by
  intro a b h
  rw [← UInt32.toUInt32_toInt32 a, h, UInt32.toUInt32_toInt32]

/-- What the queries of an exact index answer. -/
structure ExactAnswers (w : World) (objects : Daemons) (added : Ref → Prop) : Prop where
  daemons : ∀ d, d ∈ (getDaemons.run w.collection).1 ↔ added d
  forType : ∀ type d, d ∈ ((getDaemonsForType type).run w.collection).1 ↔
    added d ∧ (objects d).getType = type
  launched : ∀ type d, d ∈ ((getLaunchedDaemonsForType w.objects type).run w.collection).1 ↔
    (added d ∧ (objects d).getType = type) ∧ (w.objects d).hasLaunched = true
  unlaunched : ∀ type d, d ∈ ((getUnlaunchedDaemonsForType w.objects type).run w.collection).1 ↔
    (added d ∧ (objects d).getType = type) ∧ (w.objects d).hasLaunched = false
  filtered : ∀ p d, d ∈ ((getDaemonsFiltered p).run w.collection).1 ↔ added d ∧ p d = true

theorem Indexes.exactAnswers {w : World} {objects : Daemons} {added : Ref → Prop}
    (h : Indexes w.collection objects added) : ExactAnswers w objects added := by
  have hcast : ∀ d (type : DaemonType),
      (objects d).getType.toInt32 = type.toInt32 ↔ (objects d).getType = type :=
    fun d type => toInt32_injective.eq_iff
  refine ⟨fun d => ?_, fun type d => ?_, fun type d => ?_, fun type d => ?_, fun p d => ?_⟩
  · rw [mem_getDaemons]
    constructor
    · rintro ⟨itype, hd⟩
      exact ((h itype d).mp hd).1
    · exact fun hd => ⟨_, (h _ d).mpr ⟨hd, rfl⟩⟩
  · rw [run_getDaemonsForType, h, hcast]
  · rw [getLaunchedDaemonsForType, run_getDaemonsForTypeWhere, Finset.mem_filter, h, hcast]
  · rw [getUnlaunchedDaemonsForType, run_getDaemonsForTypeWhere, Finset.mem_filter, h, hcast,
      Bool.not_eq_true']
  · rw [mem_getDaemonsFiltered]
    constructor
    · rintro ⟨itype, hd, hp⟩
      exact ⟨((h itype d).mp hd).1, hp⟩
    · exact fun hd => ⟨_, (h _ d).mpr ⟨hd.1, rfl⟩, hd.2⟩

/-- Exact answers are determined by the daemons added, their types and the launch flags. -/
theorem ExactAnswers.perform_eq {w w' : World} {objects : Daemons} {added added' : Ref → Prop}
    (h : ExactAnswers w objects added) (h' : ExactAnswers w' objects added')
    (hadded : ∀ d, added d ↔ added' d)
    (hlaunched : ∀ d, (w.objects d).hasLaunched = (w'.objects d).hasLaunched) (q : Op) :
    (q.perform w).1 = (q.perform w').1 := by
  cases q with
  | addDaemon d => rfl
  | launch d success => rfl
  | getDaemons =>
    refine congrArg some (Finset.ext fun d => ?_)
    exact (h.daemons d).trans ((hadded d).trans (h'.daemons d).symm)
  | getDaemonsForType type =>
    refine congrArg some (Finset.ext fun d => (h.forType type d).trans ?_)
    rw [hadded]
    exact (h'.forType type d).symm
  | getUnlaunchedDaemonsForType type =>
    refine congrArg some (Finset.ext fun d => (h.unlaunched type d).trans ?_)
    rw [hadded, hlaunched]
    exact (h'.unlaunched type d).symm
  | getLaunchedDaemonsForType type =>
    refine congrArg some (Finset.ext fun d => (h.launched type d).trans ?_)
    rw [hadded, hlaunched]
    exact (h'.launched type d).symm
  | getDaemonsFiltered p =>
    refine congrArg some (Finset.ext fun d => (h.filtered p d).trans ?_)
    rw [hadded]
    exact (h'.filtered p d).symm

/-- **`DaemonCollection` is an exact index.** After any sequence of additions, launches and
queries, `getDaemons` is the set of daemons added and `getDaemonsForType` the part of it with the
type asked for, so that the parts are disjoint and make up the whole; launched and unlaunched
daemons split each part by their flags at the time of the call; a filter is applied to the whole
set. Two sequences that add the same daemons and leave the same flags answer every query alike,
and leaving out a query changes no later answer. -/
theorem queries_exact (objects : Daemons) (ops : List Op) :
    let w := runOps objects ops
    let all := (getDaemons.run w.collection).1
    let forType := fun type => ((getDaemonsForType type).run w.collection).1
    let launched := fun type => ((getLaunchedDaemonsForType w.objects type).run w.collection).1
    let unlaunched := fun type => ((getUnlaunchedDaemonsForType w.objects type).run w.collection).1
    (∀ d, d ∈ all ↔ .addDaemon d ∈ ops) ∧
      (∀ type d, d ∈ forType type ↔ .addDaemon d ∈ ops ∧ (objects d).getType = type) ∧
      (∀ type type', type ≠ type' → Disjoint (forType type) (forType type')) ∧
      (∀ d, d ∈ all ↔ ∃ type, d ∈ forType type) ∧
      (∀ type, Disjoint (launched type) (unlaunched type) ∧
        launched type ∪ unlaunched type = forType type ∧
        ∀ d ∈ forType type, d ∈ launched type ↔ (w.objects d).hasLaunched = true) ∧
      (∀ p d, d ∈ ((getDaemonsFiltered p).run w.collection).1 ↔
        .addDaemon d ∈ ops ∧ p d = true) ∧
      (∀ ops', (∀ d, .addDaemon d ∈ ops ↔ .addDaemon d ∈ ops') →
        (∀ d, (w.objects d).hasLaunched = ((runOps objects ops').objects d).hasLaunched) →
        ∀ q : Op, (q.perform w).1 = (q.perform (runOps objects ops')).1) ∧
      ∀ q : Op, q.isQuery = true → ∀ later,
        runOps objects (ops ++ q :: later) = runOps objects (ops ++ later) := by
  intro w all forType launched unlaunched
  have hexact := (runOps_indexes objects ops).exactAnswers
  refine ⟨hexact.daemons, hexact.forType, fun type type' hne => ?_, fun d => ?_, fun type => ?_,
    hexact.filtered, fun ops' hadded hflags q => ?_, fun q hq later => ?_⟩
  · rw [Finset.disjoint_left]
    intro d hd hd'
    exact hne (((hexact.forType type d).mp hd).2.symm.trans ((hexact.forType type' d).mp hd').2)
  · rw [hexact.daemons d]
    constructor
    · exact fun hd => ⟨_, (hexact.forType _ d).mpr ⟨hd, rfl⟩⟩
    · rintro ⟨type, hd⟩
      exact ((hexact.forType type d).mp hd).1
  · refine ⟨?_, Finset.ext fun d => ?_, fun d hd => ?_⟩
    · rw [Finset.disjoint_left]
      intro d hd hd'
      have htrue := ((hexact.launched type d).mp hd).2
      rw [((hexact.unlaunched type d).mp hd').2] at htrue
      cases htrue
    · rw [Finset.mem_union, hexact.launched, hexact.unlaunched, hexact.forType, ← and_or_left]
      refine and_iff_left ?_
      cases (w.objects d).hasLaunched with
      | true => exact Or.inl rfl
      | false => exact Or.inr rfl
    · rw [hexact.launched]
      exact and_iff_right ((hexact.forType type d).mp hd)
  · exact hexact.perform_eq (runOps_indexes objects ops').exactAnswers hadded hflags q
  -- a query leaves the index and the flags as they are, so the run goes on as without it
  · rw [runOps, List.foldl_append, List.foldl_cons, Op.perform_query hq, ← List.foldl_append]
    rfl

end DaemonCollection

end NebuApp
