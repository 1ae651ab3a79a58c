import NebuApp.Lib.Unordered

/-!
# Searching nested collections

Two ways of looking something up in a hierarchy of unordered collections. `firstFound` walks a
collection until an element yields something; `insertAll` gathers entries in one map, where a later
entry replaces an earlier one. If at most one thing answers to a key, the order of the walk and of
the insertions does not matter: `firstFound_finds` and `lookup_insertAll` describe both results by
what is there to be found. Where several entries have one key, the last decides
(`lookup_insertAll_last`).
-/

namespace Search

variable {ε α β κ ν : Type}

/-! ## The first match -/

/-- What `f` finds in the first element in which it finds something. -/
def firstFound (f : α → Except ε (Option β)) : List α → Except ε (Option β)
  | [] => .ok none
  | a :: rest => do
    match ← f a with
    | some b => pure (some b)
    | none => firstFound f rest

/-- A search ends normally, with the one thing that satisfies `Q`, or with nothing. -/
def Finds (res : Except ε (Option β)) (Q : β → Prop) : Prop :=
  ∃ p, res = .ok p ∧ ∀ b, p = some b ↔ Q b

theorem Finds.congr {res : Except ε (Option β)} {Q Q' : β → Prop} (h : Finds res Q)
    (hQ : ∀ b, Q b ↔ Q' b) : Finds res Q' := by
  obtain ⟨p, hres, hp⟩ := h
  exact ⟨p, hres, fun b => (hp b).trans (hQ b)⟩

theorem Finds.eq_some {res : Except ε (Option β)} {Q : β → Prop} (h : Finds res Q) {b : β}
    (hb : Q b) : res = .ok (some b) := by
  obtain ⟨p, hres, hp⟩ := h
  rw [hres, (hp b).mpr hb]

theorem Finds.eq_none {res : Except ε (Option β)} {Q : β → Prop} (h : Finds res Q)
    (hnone : ∀ b, ¬ Q b) : res = .ok none := by
  obtain ⟨p, hres, hp⟩ := h
  cases p with
  | none => exact hres
  | some b => exact absurd ((hp b).mp rfl) (hnone b)

/-- A first match among searches is a search for what any of them would find. -/
theorem firstFound_finds {f : α → Except ε (Option β)} {Q : α → β → Prop} {l : List α}
    (hf : ∀ a ∈ l, Finds (f a) (Q a))
    (huniq : ∀ a ∈ l, ∀ a' ∈ l, ∀ b b', Q a b → Q a' b' → b = b') :
    Finds (firstFound f l) fun b => ∃ a ∈ l, Q a b := by
  induction l with
  | nil => exact ⟨none, rfl, fun b => by simp⟩
  | cons a rest ih =>
    obtain ⟨p, hp, hQ⟩ := hf a List.mem_cons_self
    cases p with
    | some b =>
      have hb : Q a b := (hQ b).mp rfl
      refine ⟨some b, by rw [firstFound, hp]; rfl, fun b' => ?_⟩
      constructor
      · intro h
        cases h
        exact ⟨a, List.mem_cons_self, hb⟩
      · rintro ⟨a', ha', hb'⟩
        rw [huniq a List.mem_cons_self a' ha' b b' hb hb']
    | none =>
      have hnone : ∀ b, ¬ Q a b := fun b hb => by cases (hQ b).mpr hb
      have hrest := ih (fun a' ha' => hf a' (List.mem_cons_of_mem _ ha'))
        fun a' ha' a'' ha'' =>
          huniq a' (List.mem_cons_of_mem _ ha') a'' (List.mem_cons_of_mem _ ha'')
      have hstep : firstFound f (a :: rest) = firstFound f rest := by rw [firstFound, hp]; rfl
      rw [hstep]
      refine hrest.congr fun b => ?_
      simp only [List.mem_cons, exists_eq_or_imp, hnone b, false_or]

/-- A first match among searches in what the elements point at, which `In` describes. -/
theorem firstFound_finds_targets {γ : Type} {f : α → Except ε (Option β)} {l : List α}
    {target : α → Option γ} {In : γ → Prop} {Q : γ → β → Prop}
    (hcover : ∀ c, In c → ∃ a ∈ l, target a = some c)
    (hf : ∀ a ∈ l, ∃ c, target a = some c ∧ In c ∧ Finds (f a) (Q c))
    (huniq : ∀ c c' b b', In c → In c' → Q c b → Q c' b' → b = b') :
    Finds (firstFound f l) fun b => ∃ c, In c ∧ Q c b := by
  have hloop := firstFound_finds (Q := fun a b => ∃ c, target a = some c ∧ In c ∧ Q c b)
    (f := f) (l := l) ?_ ?_
  · refine hloop.congr fun b => ?_
    constructor
    · rintro ⟨a, -, c, -, hc, hb⟩
      exact ⟨c, hc, hb⟩
    · rintro ⟨c, hc, hb⟩
      obtain ⟨a, ha, htarget⟩ := hcover c hc
      exact ⟨a, ha, c, htarget, hc, hb⟩
  · intro a ha
    obtain ⟨c, htarget, hc, hfinds⟩ := hf a ha
    refine hfinds.congr fun b => ?_
    constructor
    · exact fun hb => ⟨c, htarget, hc, hb⟩
    · rintro ⟨c', htarget', -, hb⟩
      obtain rfl : c = c' := Option.some.inj (htarget.symm.trans htarget')
      exact hb
  · rintro a - a' - b b' ⟨c, -, hc, hb⟩ ⟨c', -, hc', hb'⟩
    exact huniq c c' b b' hc hc' hb hb'

/-- Looking up a key in a map of pointers none of which is null. -/
theorem lookup_finds {γ : Type} [DecidableEq κ] {m : UnorderedMap κ (Option γ)} {k : κ}
    {Q : γ → Prop} (h : ∀ p, m.lookup k = some p ↔ ∃ c, p = some c ∧ Q c) :
    Finds (.ok (m.lookup k).join : Except ε (Option γ)) Q := by
  refine ⟨_, rfl, fun c => ?_⟩
  rw [Option.join_eq_some_iff, h]
  constructor
  · rintro ⟨c', heq, hc⟩
    cases heq
    exact hc
  · exact fun hc => ⟨c, rfl, hc⟩

/-! ## One map for all -/

variable [DecidableEq κ]

/-- Enter a list of entries into a map, one after the other. -/
def insertAll (m : UnorderedMap κ ν) (l : List (Σ _ : κ, ν)) : UnorderedMap κ ν :=
  l.foldl (fun m e => m.insert e.1 e.2) m

theorem insertAll_append (m : UnorderedMap κ ν) (l l' : List (Σ _ : κ, ν)) :
    insertAll m (l ++ l') = insertAll (insertAll m l) l' :=
  List.foldl_append

/-- If no key comes with two values, each entry is found, and a key without an entry keeps its
value. -/
theorem lookup_insertAll {l : List (Σ _ : κ, ν)} (m : UnorderedMap κ ν) {k : κ}
    (huniq : ∀ v v', ⟨k, v⟩ ∈ l → ⟨k, v'⟩ ∈ l → v = v') (v : ν) :
    (insertAll m l).lookup k = some v ↔
      ⟨k, v⟩ ∈ l ∨ (∀ v', ⟨k, v'⟩ ∉ l) ∧ m.lookup k = some v := by
  induction l generalizing m with
  | nil => simp [insertAll]
  | cons e rest ih =>
    obtain ⟨k', w⟩ := e
    have hrest : ∀ v v', ⟨k, v⟩ ∈ rest → ⟨k, v'⟩ ∈ rest → v = v' := fun v v' h h' =>
      huniq v v' (List.mem_cons_of_mem _ h) (List.mem_cons_of_mem _ h')
    rw [show insertAll m (⟨k', w⟩ :: rest) = insertAll (m.insert k' w) rest from rfl,
      ih (m.insert k' w) hrest, UnorderedMap.lookup_insert]
    by_cases hk : k = k'
    · subst hk
      rw [if_pos rfl]
      constructor
      · rintro (h | ⟨-, h⟩)
        · exact Or.inl (List.mem_cons_of_mem _ h)
        · cases h
          exact Or.inl List.mem_cons_self
      · rintro (h | ⟨hnone, -⟩)
        · -- the new value of `k` is the one any later entry has, too
          obtain rfl : v = w := huniq v w h List.mem_cons_self
          by_cases hlater : ∃ v', ⟨k, v'⟩ ∈ rest
          · obtain ⟨v', hv'⟩ := hlater
            rw [huniq v v' List.mem_cons_self (List.mem_cons_of_mem _ hv')]
            exact Or.inl hv'
          · exact Or.inr ⟨fun v' hv' => hlater ⟨v', hv'⟩, rfl⟩
        · exact absurd List.mem_cons_self (hnone w)
    · have hne : ∀ v', (⟨k, v'⟩ : Σ _ : κ, ν) ∈ (⟨k', w⟩ :: rest) ↔ ⟨k, v'⟩ ∈ rest := by
        intro v'
        rw [List.mem_cons, or_iff_right]
        intro heq
        cases heq
        exact hk rfl
      simp only [if_neg hk, hne]

/-- The value of the last entry for a key. -/
def lastEntry (k : κ) (l : List (Σ _ : κ, ν)) : Option ν :=
  ((l.filter fun e => e.1 = k).getLast?).map Sigma.snd

theorem lastEntry_cons (k k' : κ) (v : ν) (l : List (Σ _ : κ, ν)) :
    lastEntry k (⟨k', v⟩ :: l) = (lastEntry k l).or (if k' = k then some v else none) := by
  unfold lastEntry
  by_cases hk : k' = k
  · rw [List.filter_cons_of_pos (by simpa using hk), List.getLast?_cons, if_pos hk]
    cases (l.filter fun e => e.1 = k).getLast? <;> rfl
  · rw [List.filter_cons_of_neg (by simpa using hk), if_neg hk, Option.or_none]

/-- The last entry for a key replaces the earlier ones and the value the map had. -/
theorem lookup_insertAll_last (m : UnorderedMap κ ν) (l : List (Σ _ : κ, ν)) (k : κ) :
    (insertAll m l).lookup k = (lastEntry k l).or (m.lookup k) := by
  induction l generalizing m with
  | nil => rfl
  | cons e rest ih =>
    obtain ⟨k', v⟩ := e
    rw [show insertAll m (⟨k', v⟩ :: rest) = insertAll (m.insert k' v) rest from rfl,
      ih, lastEntry_cons, Option.or_assoc, UnorderedMap.lookup_insert]
    by_cases hk : k' = k
    · rw [if_pos hk, if_pos hk.symm]
      rfl
    · rw [if_neg hk, if_neg (Ne.symm hk), Option.none_or]

/-- A loop whose body enters entries into a map enters them all. -/
theorem foldlM_insertAll {f : UnorderedMap κ ν → α → Except ε (UnorderedMap κ ν)}
    {g : α → List (Σ _ : κ, ν)} {l : List α} (m : UnorderedMap κ ν)
    (hf : ∀ a ∈ l, ∀ m, f m a = .ok (insertAll m (g a))) :
    l.foldlM f m = .ok (insertAll m (l.flatMap g)) := by
  induction l generalizing m with
  | nil => rfl
  | cons a rest ih =>
    rw [List.foldlM_cons, hf a List.mem_cons_self m, List.flatMap_cons, insertAll_append]
    exact ih _ fun a' ha' => hf a' (List.mem_cons_of_mem _ ha')

end Search
