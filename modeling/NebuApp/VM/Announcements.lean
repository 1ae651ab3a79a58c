import NebuApp.VM.Refresh

/-!
# Announcements and handlers that throw

`addNewVMs` and `updateVMs` notify the handlers inside the `try` block whose `catch` is there for
the middleware, after the write they announce. So when a handler throws, the write stays, the
handlers behind it are not called, and the refresh goes on. This module compares the writes of a
refresh (`dueFor`) with what each handler is told (`toldTo`).

Which announcements a refresh has to make depends on the answers of the middleware and on no
callback: `announcements` computes them from the answers alone.
-/

namespace NebuApp

/-! ## What is due and who is told -/

/-- The notification a trace entry calls for, if it is a write to the tracked VMs. -/
def Entry.due? (e : Entry) : Option Notification :=
  match e.action with
  | .recorded vm => some (.newVMAdded vm)
  | .overwrote vm status => some (.existingVMChanged vm status.event)
  | _ => none

/-- The notifications the writes of a trace call for, in order. -/
def dueFor (trace : List Entry) : List Notification := trace.filterMap Entry.due?

/-- The notification a trace entry gives the handler in `slot`. -/
def Entry.toldTo? (slot : Nat) (e : Entry) : Option Notification :=
  match e.action with
  | .notified slot' call => if slot' = slot then some call else none
  | _ => none

/-- The notifications the handler in `slot` is given in a trace, in order. -/
def toldTo (slot : Nat) (trace : List Entry) : List Notification :=
  trace.filterMap (Entry.toldTo? slot)

theorem dueFor_append (t t' : List Entry) : dueFor (t ++ t') = dueFor t ++ dueFor t' :=
  List.filterMap_append

theorem toldTo_append (slot : Nat) (t t' : List Entry) :
    toldTo slot (t ++ t') = toldTo slot t ++ toldTo slot t' :=
  List.filterMap_append

theorem dueFor_calls (env : RefreshEnv) (count : Nat) (m : VMManager) (call : Notification)
    (hs : List Ref) (slot : Nat) : dueFor (calls env count m call slot hs) = [] := by
  refine List.filterMap_eq_nil_iff.mpr fun e he => ?_
  obtain ⟨slot', rfl⟩ := mem_calls he
  rfl

/-- Every handler from `first` up to but not including `slot` returns from the callback. -/
def handlersReturn (env : RefreshEnv) (count : Nat) (call : Notification) (first slot : Nat) :
    Bool :=
  (List.range' first (slot - first)).all fun i => (env.callback count i call).isOk

/-- A handler is called iff those before it return. Induction on the handlers from `first` on. -/
theorem toldTo_calls (env : RefreshEnv) (count : Nat) (m : VMManager) (call : Notification)
    (slot : Nat) (hs : List Ref) : ∀ first,
    toldTo slot (calls env count m call first hs) =
      if first ≤ slot ∧ slot < first + hs.length ∧ handlersReturn env count call first slot
      then [call] else [] := by
  induction hs with
  | nil =>
    intro first
    rw [if_neg (by simp only [List.length_nil]; omega)]
    rfl
  | cons h rest ih =>
    intro first
    -- the handler in `first` itself, then whoever follows if it returns
    have htail : toldTo slot (if (env.callback count first call).isOk
          then calls env count m call (first + 1) rest else []) =
        if first + 1 ≤ slot ∧ slot < first + 1 + rest.length ∧
          (env.callback count first call).isOk ∧ handlersReturn env count call (first + 1) slot
        then [call] else [] := by
      by_cases hok : (env.callback count first call).isOk
      · rw [if_pos hok, ih]
        simp only [hok, true_and]
      · simp [hok, toldTo]
    rw [calls_cons, ← List.singleton_append, toldTo_append, htail]
    by_cases hslot : first = slot
    · subst hslot
      have hself : toldTo first [⟨m, .notified first call⟩] = [call] := by
        simp [toldTo, Entry.toldTo?]
      rw [hself, if_neg (by omega), if_pos ⟨by omega, by simp, by simp [handlersReturn]⟩]
      rfl
    · have hother : toldTo slot [⟨m, .notified first call⟩] = [] := by
        simp [toldTo, Entry.toldTo?, hslot]
      rw [hother, List.nil_append]
      by_cases hlt : first < slot
      · have hrange : handlersReturn env count call first slot =
            ((env.callback count first call).isOk &&
              handlersReturn env count call (first + 1) slot) := by
          rw [handlersReturn, handlersReturn, show slot - first = (slot - (first + 1)) + 1 by omega,
            List.range'_succ, List.all_cons]
        have hlen : slot < first + (h :: rest).length ↔ slot < first + 1 + rest.length := by
          rw [List.length_cons]
          omega
        have hle : first ≤ slot ↔ first + 1 ≤ slot := by omega
        simp only [hrange, hlen, hle, Bool.and_eq_true]
      · rw [if_neg (by omega), if_neg (by omega)]

/-! ## The announcements of the fetching passes -/

/-- A notification, and the number of fetches made when it is given. -/
structure Announcement where
  count : Nat
  call : Notification

/-- The handler in `slot` is called: every handler before it returns. -/
def Announcement.reaches (a : Announcement) (env : RefreshEnv) (slot : Nat) : Bool :=
  handlersReturn env a.count a.call 0 slot

/-- The answer to a fetch of `id` that follows the fetches of `past`. -/
def RefreshEnv.answerAfter (env : RefreshEnv) (past : List String) (id : String) : Answer :=
  env.getVirtualMachine id (past.count id)

/-- The announcements the answers about a list of ids call for, after the fetches of `past`. -/
def announcements (env : RefreshEnv) : List String → VMManager → List String → List Announcement
  | [], _, _ => []
  | id :: rest, m, past =>
    let answer := env.answerAfter past id
    (m.writeFor id answer).toList.map (fun w => ⟨past.length + 1, w.call⟩) ++
      announcements env rest (m.absorb (id, answer)) (past ++ [id])

/-- The ids that are unknown when their turn in `addNewVMs` comes, and the others. -/
def splitByAnswers (env : RefreshEnv) :
    List String → VMManager → List String → List String × List String
  | [], _, _ => ([], [])
  | id :: rest, m, past =>
    if m.vmList.lookup id = none then
      let split := splitByAnswers env rest (m.absorb (id, env.answerAfter past id)) (past ++ [id])
      (id :: split.1, split.2)
    else
      let split := splitByAnswers env rest m past
      (split.1, id :: split.2)

/-- The announcements a refresh that lists `ids` has to make. -/
def refreshAnnouncements (env : RefreshEnv) (ids : List String) (m : VMManager) :
    List Announcement :=
  let split := splitByAnswers env ids m []
  announcements env (split.1 ++ split.2) m []

/-- The ids fetched in a trace, in order. -/
def fetchedIds (trace : List Entry) : List String := (fetches trace).map Prod.fst

theorem nextAnswer_eq (env : RefreshEnv) (s : RefreshState) (id : String) :
    s.nextAnswer env id = env.answerAfter (fetchedIds s.trace) id := by
  have hlen : (answersFor id s.trace).length = (fetchedIds s.trace).count id := by
    rw [answersFor_eq_fetches, fetchedIds, List.count_eq_countP, List.countP_map]
    induction fetches s.trace with
    | nil => rfl
    | cons f rest ih => by_cases hf : f.1 = id <;> simp [hf, ih]
  rw [RefreshState.nextAnswer, RefreshEnv.answerAfter, hlen]

theorem fetchedIds_turn (env : RefreshEnv) (id : String) (s : RefreshState) :
    fetchedIds (turn env id s).2.trace = fetchedIds s.trace ++ [id] := by
  rw [fetchedIds, fetches_turn, List.map_append]
  rfl

theorem turn_mgr (env : RefreshEnv) (id : String) (s : RefreshState) :
    (turn env id s).2.mgr = s.mgr.absorb (id, env.answerAfter (fetchedIds s.trace) id) := by
  rw [turn, nextAnswer_eq]

/-- The split of `addNewVMs` does not depend on the callbacks. -/
theorem splitIds_eq (env : RefreshEnv) (ids : List String) (s : RefreshState) :
    splitIds env ids s = splitByAnswers env ids s.mgr (fetchedIds s.trace) := by
  induction ids generalizing s with
  | nil => rfl
  | cons id rest ih =>
    rw [splitIds, splitByAnswers]
    split
    next => rw [ih, turn_mgr, fetchedIds_turn]
    next => rw [ih]

/-- What a turn writes, and whom it tells. -/
theorem turnTrace_told (env : RefreshEnv) (count : Nat) (m : VMManager) (id : String)
    (answer : Answer) :
    let due : List Announcement := (m.writeFor id answer).toList.map fun w => ⟨count + 1, w.call⟩
    dueFor (turnTrace env count m id answer) = due.map (·.call) ∧
      ∀ slot < m.vmEventHandlers.length, toldTo slot (turnTrace env count m id answer) =
        (due.filter (·.reaches env slot)).map (·.call) := by
  intro due
  rw [turnTrace]
  cases hw : m.writeFor id answer with
  | none => exact ⟨by simp [due, hw, dueFor, Entry.due?], fun slot _ => by
      simp [due, hw, toldTo, Entry.toldTo?]⟩
  | some w =>
    -- the write is an entry of its own, and `due` has its notification
    have hwrite : dueFor [⟨w.mgr, w.action⟩] = [w.call] ∧
        ∀ slot, toldTo slot [⟨w.mgr, w.action⟩] = [] := by
      rcases VMManager.writeFor_cases hw with ⟨vm, -, -, rfl⟩ | ⟨vm, r, old, -, -, -, -, rfl⟩
      · exact ⟨rfl, fun _ => rfl⟩
      · exact ⟨rfl, fun _ => rfl⟩
    have hdue : due = [⟨count + 1, w.call⟩] := by simp [due, hw]
    have hsplit : ∀ t : List Entry, (⟨m, .fetched id answer⟩ : Entry) :: ⟨w.mgr, w.action⟩ :: t =
        [⟨m, .fetched id answer⟩] ++ ([⟨w.mgr, w.action⟩] ++ t) := fun _ => rfl
    refine ⟨?_, fun slot hslot => ?_⟩
    · rw [hsplit, dueFor_append, dueFor_append, hwrite.1, dueFor_calls, hdue]
      rfl
    · rw [hsplit, toldTo_append, toldTo_append, hwrite.2, toldTo_calls, hdue]
      rw [← VMManager.writeFor_handlers hw] at hslot
      have hreach : (0 ≤ slot ∧ slot < 0 + w.mgr.vmEventHandlers.length ∧
          handlersReturn env (count + 1) w.call 0 slot) ↔
          Announcement.reaches ⟨count + 1, w.call⟩ env slot := by
        rw [Nat.zero_add, Announcement.reaches]
        exact ⟨fun h => h.2.2, fun h => ⟨Nat.zero_le _, hslot, h⟩⟩
      by_cases h : Announcement.reaches ⟨count + 1, w.call⟩ env slot
      · rw [if_pos (hreach.mpr h)]
        simp [h, toldTo, Entry.toldTo?]
      · rw [if_neg (mt hreach.mp h)]
        simp [h, toldTo, Entry.toldTo?]

/-- What a sequence of turns writes, and whom it tells. -/
theorem turns_told (env : RefreshEnv) (ids : List String) (s : RefreshState) :
    let due := announcements env ids s.mgr (fetchedIds s.trace)
    dueFor (turns env ids s).2.trace = dueFor s.trace ++ due.map (·.call) ∧
      ∀ slot < s.mgr.vmEventHandlers.length, toldTo slot (turns env ids s).2.trace =
        toldTo slot s.trace ++ (due.filter (·.reaches env slot)).map (·.call) := by
  induction ids generalizing s with
  | nil => simp [turns, announcements]
  | cons id rest ih =>
    intro due
    have hcount : (fetches s.trace).length = (fetchedIds s.trace).length := by simp [fetchedIds]
    obtain ⟨hdue, htold⟩ := turnTrace_told env (fetches s.trace).length s.mgr id
      (s.nextAnswer env id)
    obtain ⟨hdue', htold'⟩ := ih (turn env id s).2
    rw [turn_mgr, fetchedIds_turn] at hdue' htold'
    rw [nextAnswer_eq, hcount] at hdue htold
    rw [turns]
    refine ⟨?_, fun slot hslot => ?_⟩
    · rw [hdue', turn, dueFor_append, nextAnswer_eq, hcount, hdue, List.append_assoc,
        ← List.map_append]
      rfl
    · rw [htold' slot (by simpa using hslot), turn, toldTo_append, nextAnswer_eq, hcount,
        htold slot hslot, List.append_assoc, ← List.map_append, ← List.filter_append]
      rfl

/-- No answer calls for the announcement of a removal. -/
theorem announcements_call (env : RefreshEnv) (ids : List String) (m : VMManager)
    (past : List String) :
    ∀ a ∈ announcements env ids m past, ∀ vm, a.call ≠ .oldVMRemoved vm := by
  induction ids generalizing m past with
  | nil => intro a ha; cases ha
  | cons id rest ih =>
    intro a ha vm
    rw [announcements] at ha
    rcases List.mem_append.mp ha with ha | ha
    · obtain ⟨w, hw, rfl⟩ := List.mem_map.mp ha
      rcases VMManager.writeFor_cases (Option.mem_toList.mp hw) with
        ⟨v, -, -, rfl⟩ | ⟨v, r, old, -, -, -, -, rfl⟩ <;> simp
    · exact ih _ _ a ha vm

/-- The removal pass writes nothing that is due, and tells of removals only. -/
theorem removeTurns_told (env : RefreshEnv) (ids : List String) (vms : List (Ptr × String))
    (s : RefreshState) :
    dueFor (removeTurns env ids vms s).2.trace = dueFor s.trace ∧
      ∀ slot, ∃ removals, toldTo slot (removeTurns env ids vms s).2.trace =
        toldTo slot s.trace ++ removals ∧ ∀ call ∈ removals, ∃ vm, call = .oldVMRemoved vm := by
  refine removeTurns_rule (P := fun s s' => dueFor s'.trace = dueFor s.trace ∧
    ∀ slot, ∃ removals, toldTo slot s'.trace = toldTo slot s.trace ++ removals ∧
      ∀ call ∈ removals, ∃ vm, call = .oldVMRemoved vm)
    (fun _ => ⟨rfl, fun _ => ⟨[], by simp, fun _ h => by cases h⟩⟩) ?_ ?_ ids vms s
  · rintro s s' s'' ⟨hdue, htold⟩ ⟨hdue', htold'⟩
    refine ⟨hdue'.trans hdue, fun slot => ?_⟩
    obtain ⟨removals, heq, hall⟩ := htold slot
    obtain ⟨removals', heq', hall'⟩ := htold' slot
    refine ⟨removals ++ removals', by rw [heq', heq, List.append_assoc], fun call hcall => ?_⟩
    rcases List.mem_append.mp hcall with h | h
    · exact hall call h
    · exact hall' call h
  · intro vm u s
    refine ⟨by rw [dueFor_append, dueFor_calls, List.append_nil], fun slot =>
      ⟨_, toldTo_append _ _ _, fun call hcall => ⟨vm, ?_⟩⟩⟩
    rw [toldTo_calls] at hcall
    split at hcall
    next => exact List.mem_singleton.mp hcall
    next => cases hcall

/-! ## When everybody hears of every write -/

/-- Every registered handler is called for every VM the refresh records and for every status it
overwrites, as often as it does so. -/
def AnnouncesEveryWrite (m : VMManager) (env : RefreshEnv) : Prop :=
  ∀ slot < m.vmEventHandlers.length, ∀ call,
    (dueFor (m.refresh env).2.trace).count call ≤ (toldTo slot (m.refresh env).2.trace).count call

/-- From every announcement the answers call for, every handler but the last registered one
returns. -/
def EarlierHandlersReturn (m : VMManager) (env : RefreshEnv) : Prop :=
  ∀ ids, env.getVirtualMachineIDs = .ok ids → ∀ a ∈ refreshAnnouncements env ids m,
    ∀ slot, slot + 1 < m.vmEventHandlers.length → (env.callback a.count slot a.call).isOk

/-- A filtered list has every image as often as the list iff nothing is filtered out. -/
theorem count_map_filter_iff {α β : Type} [DecidableEq β] (f : α → β) (p : α → Bool)
    (l : List α) :
    (∀ b, (l.map f).count b ≤ ((l.filter p).map f).count b) ↔ ∀ a ∈ l, p a := by
  constructor
  · intro hcount
    have hsub : (l.map f).Subperm ((l.filter p).map f) :=
      List.subperm_ext_iff.mpr fun b _ => hcount b
    have hlen := hsub.length_le
    rw [List.length_map, List.length_map] at hlen
    have hfilter := List.length_filter_le p l
    exact List.length_filter_eq_length_iff.mp (by omega)
  · intro hall b
    rw [List.filter_eq_self.mpr hall]

/-- What a refresh writes, and whom it tells: the announcements, and then removals. -/
theorem refresh_told {m : VMManager} (hm : m.WellKept) {env : RefreshEnv} {ids : List String}
    (hids : env.getVirtualMachineIDs = .ok ids) :
    let due := refreshAnnouncements env ids m
    dueFor (m.refresh env).2.trace = due.map (·.call) ∧
      ∀ slot < m.vmEventHandlers.length, ∃ removals, toldTo slot (m.refresh env).2.trace =
        (due.filter (·.reaches env slot)).map (·.call) ++ removals ∧
        ∀ call ∈ removals, ∃ vm, call = .oldVMRemoved vm := by
  intro due
  rw [refresh_of_ok hm hids]
  obtain ⟨hdue, htold⟩ := turns_told env (fetchOrder env ids ⟨m, []⟩) ⟨m, []⟩
  obtain ⟨hdue', htold'⟩ := removeTurns_told env ids
    (knownVMs env.iteration (m.fetchAll env ids).2.mgr) (m.fetchAll env ids).2
  have horder : announcements env (fetchOrder env ids ⟨m, []⟩) m (fetchedIds []) = due := by
    rw [fetchOrder, splitIds_eq]
    rfl
  refine ⟨?_, fun slot hslot => ?_⟩
  · rw [← horder]
    exact hdue'.trans hdue
  · obtain ⟨removals, heq, hall⟩ := htold' slot
    refine ⟨removals, ?_, hall⟩
    have hfetch := htold slot hslot
    rw [← horder]
    exact heq.trans (congrArg (· ++ removals) hfetch)

/-- **When every write is announced to every handler.** A refresh of a reachable manager tells
every handler of every VM it records and every status it overwrites exactly when every handler
but the last returns from these announcements; whether it then ends normally does not matter. -/
theorem announcesEveryWrite_iff (ops : List Op) (env : RefreshEnv) :
    AnnouncesEveryWrite (runOps ops).mgr env ↔ EarlierHandlersReturn (runOps ops).mgr env := by
  have hm : (runOps ops).mgr.WellKept := (runOps_sound ops).1
  generalize (runOps ops).mgr = m at hm
  cases hids : env.getVirtualMachineIDs with
  | error ex =>
    -- nothing is fetched, so nothing is due
    unfold AnnouncesEveryWrite EarlierHandlersReturn
    rw [refresh_of_error hids, hids]
    exact ⟨fun _ ids h => (by cases h), fun _ slot _ call => Nat.le_refl _⟩
  | ok ids =>
    obtain ⟨hdue, htold⟩ := refresh_told hm hids
    -- per handler: every announcement reaches it
    have hslot : ∀ slot < m.vmEventHandlers.length,
        ((∀ call, (dueFor (m.refresh env).2.trace).count call ≤
            (toldTo slot (m.refresh env).2.trace).count call) ↔
          ∀ a ∈ refreshAnnouncements env ids m, a.reaches env slot) := by
      intro slot hlt
      obtain ⟨removals, heq, hremovals⟩ := htold slot hlt
      rw [hdue, heq, ← count_map_filter_iff Announcement.call]
      constructor
      · intro hcount call
        by_cases hcall : call ∈ (refreshAnnouncements env ids m).map (·.call)
        · have hzero : removals.count call = 0 := by
            rw [List.count_eq_zero]
            intro hmem
            obtain ⟨vm, hvm⟩ := hremovals call hmem
            obtain ⟨a, ha, rfl⟩ := List.mem_map.mp hcall
            exact announcements_call _ _ _ _ a ha vm hvm
          have := hcount call
          rw [List.count_append, hzero] at this
          exact this
        · rw [List.count_eq_zero.mpr hcall]
          exact Nat.zero_le _
      · intro hcount call
        rw [List.count_append]
        exact Nat.le_trans (hcount call) (Nat.le_add_right _ _)
    constructor
    · intro hall ids' hids' a ha slot hlt
      cases hids.symm.trans hids'
      have hreach := (hslot (slot + 1) hlt).mp (hall (slot + 1) hlt) a ha
      exact List.all_eq_true.mp hreach slot (by simp)
    · intro hret slot hlt
      refine (hslot slot hlt).mpr fun a ha => List.all_eq_true.mpr fun i hi => ?_
      have hi' : i < slot := by simpa using hi
      exact hret ids hids a ha i (by omega)

/-- **A handler that throws silences those behind it for good.** The first of two handlers throws
`NebuServerException` from `newVMAdded`: the refresh returns, the VM is on record, and the second
handler is told of it neither in this refresh nor in the next, in which nobody throws. -/
theorem lostAnnouncement_of_throw :
    let m := (runOps [.registerVMEventHandler 1, .registerVMEventHandler 2]).mgr
    let env := { RefreshEnv.uniform ["vmA"] .on with
      callback := fun _ slot _ => if slot = 0 then .error ⟨"handler"⟩ else .ok () }
    let after := m.refresh env
    let next := after.2.mgr.refresh (.uniform ["vmA"] .on)
    after.1 = .ok false ∧ after.2.mgr.getVM "vmA" = some 0 ∧
      dueFor after.2.trace = [.newVMAdded (some 0)] ∧ toldTo 1 after.2.trace = [] ∧
      ¬ AnnouncesEveryWrite m env ∧
      next.1 = .ok true ∧ next.2.mgr.getVM "vmA" = some 0 ∧ toldTo 1 next.2.trace = [] := by
  intro m env after next
  have hafter : after = _ := refresh_of_ok (runOps_sound _).1 rfl
  have hkept : after.2.mgr.WellKept := (refresh_sound (runOps_sound _).1 env).1
  have hnext : next = _ := refresh_of_ok hkept rfl
  have hdue : dueFor after.2.trace = [.newVMAdded (some 0)] := by rw [hafter]; rfl
  have htold : toldTo 1 after.2.trace = [] := by rw [hafter]; rfl
  refine ⟨by rw [hafter]; rfl, by rw [hafter]; rfl, hdue, htold, fun hall => ?_, ?_, ?_, ?_⟩
  · have hcount := hall 1 (by decide) (.newVMAdded (some 0))
    rw [hdue, htold] at hcount
    exact absurd hcount (by decide)
  · rw [hnext, hafter]; rfl
  · rw [hnext, hafter]; rfl
  · rw [hnext, hafter]; rfl

end NebuApp
