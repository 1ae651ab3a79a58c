import NebuApp.VM.Steps

/-!
# Callbacks that register handlers

`vmEventHandlers` is a `std::list`, so a callback may call `registerVMEventHandler`: the iterators
stay valid, and `FOREACH_EVENTHANDLER` comes to the new handler at the end of the list. Up to here
no callback did so. Here the passes of a refresh have for a notification the `forEachEventHandler`
of this module, in which the environment says who is registered by which callback. Where nobody is,
it is the one of before (`refreshReentrant_of_none`).
-/

namespace NebuApp

open Exec

namespace Reentrant

/-! ## Callbacks that register -/

/-- What the world outside decides, with what the callbacks of a notification register: each handler
with the slot of the callback, given the number of fetches made so far. -/
structure Env extends RefreshEnv where
  registers : Nat → Notification → List (Nat × Ref)

/-- What the callback of the handler in `slot` registers. -/
def Env.registeredBy (env : Env) (count : Nat) (call : Notification) (slot : Nat) : List Ref :=
  ((env.registers count call).filter fun e => e.1 = slot).map Prod.snd

/-- `ev->get()->…(…)` on the handler in `slot`. -/
def callEventHandler (env : Env) (call : Notification) (slot : Nat) : VMProg Unit := do
  emit (.notified slot call)
  let count := (fetches (← get).trace).length
  -- before the callback returns, or throws
  modify fun s => { s with
    mgr := (env.registeredBy count call slot).foldl VMManager.registerVMEventHandler s.mgr }
  liftOutcome (env.callback count slot call)

/-- `FOREACH_EVENTHANDLER` from `slot` on, for at most `fuel` handlers. -/
def forEachEventHandlerFrom (env : Env) (call : Notification) : Nat → Nat → VMProg Unit
  | 0, _ => pure ()
  | fuel + 1, slot => do
    -- `end()` is asked for again before each handler
    if slot < (← get).mgr.vmEventHandlers.length then
      callEventHandler env call slot
      forEachEventHandlerFrom env call fuel (slot + 1)

/-- `FOREACH_EVENTHANDLER(ev) { ev->get()->…(…); }`. There are the handlers it finds, and those its
callbacks register. -/
def forEachEventHandler (env : Env) (call : Notification) : VMProg Unit := do
  let s ← get
  let registers := env.registers (fetches s.trace).length call
  forEachEventHandlerFrom env call (s.mgr.vmEventHandlers.length + registers.length) 0

end Reentrant

/-- One refresh of a manager whose handlers may register others. -/
def VMManager.refreshReentrant (m : VMManager) (env : Reentrant.Env) :
    Except Abort Bool × RefreshState :=
  exec (refreshVMList (Reentrant.forEachEventHandler env) env.toRefreshEnv) ⟨m, []⟩

namespace Reentrant

section Nobody

variable {env : Env} (hnobody : ∀ count call, env.registers count call = [])
include hnobody

theorem callEventHandler_of_none (call : Notification) (slot : Nat) :
    callEventHandler env call slot = NebuApp.callEventHandler env.toRefreshEnv call slot := by
  have hregistered : ∀ count, env.registeredBy count call slot = [] := by
    intro count
    rw [Env.registeredBy, hnobody]
    rfl
  rw [callEventHandler]
  simp only [hregistered]
  rfl

/-- As long as the list does not grow, its end is the end of the list the loop began with. Induction
on the handlers left. -/
theorem exec_forEachEventHandlerFrom_of_none (call : Notification) (hs : List Ref) :
    ∀ (slot fuel : Nat) (s : RefreshState), hs.length ≤ fuel →
      s.mgr.vmEventHandlers.length = slot + hs.length →
        exec (forEachEventHandlerFrom env call fuel slot) s =
          exec (NebuApp.forEachEventHandlerFrom env.toRefreshEnv call slot hs) s := by
  induction hs with
  | nil =>
    intro slot fuel s _ hlen
    cases fuel with
    | zero => rfl
    | succ fuel =>
      rw [forEachEventHandlerFrom, exec_bind_ok (exec_get s), hlen]
      exact congrArg (exec · s) (if_neg (Nat.lt_irrefl slot))
  | cons h rest ih =>
    intro slot fuel s hfuel hlen
    cases fuel with
    | zero => cases hfuel
    | succ fuel =>
      rw [List.length_cons] at hfuel hlen
      rw [forEachEventHandlerFrom, exec_bind_ok (exec_get s), if_pos (by omega),
        callEventHandler_of_none hnobody, NebuApp.forEachEventHandlerFrom, exec_bind, exec_bind]
      -- the call leaves the handlers as they are
      have hcall :
          (exec (NebuApp.callEventHandler env.toRefreshEnv call slot) s).2.mgr = s.mgr := by
        rw [NebuApp.callEventHandler, exec_bind_ok (exec_emit s _), exec_bind_ok (exec_get _),
          exec_liftOutcome]
        rfl
      rcases hexec : exec (NebuApp.callEventHandler env.toRefreshEnv call slot) s with ⟨e | _, s'⟩
      · rfl
      · rw [hexec] at hcall
        exact ih (slot + 1) fuel s' (by omega) (by rw [hcall]; omega)

theorem forEachEventHandler_of_none :
    forEachEventHandler env = NebuApp.forEachEventHandler env.toRefreshEnv := by
  funext call s
  show exec (forEachEventHandler env call) s =
    exec (NebuApp.forEachEventHandler env.toRefreshEnv call) s
  rw [forEachEventHandler, exec_bind_ok (exec_get s), NebuApp.forEachEventHandler,
    exec_bind_ok (exec_get s)]
  exact exec_forEachEventHandlerFrom_of_none hnobody call _ 0 _ s (Nat.le_add_right _ _)
    (Nat.zero_add _).symm

/-- **The refresh as modelled before** is the one whose callbacks register nobody. -/
theorem refreshReentrant_of_none (m : VMManager) :
    m.refreshReentrant env = m.refresh env.toRefreshEnv := by
  rw [VMManager.refreshReentrant, forEachEventHandler_of_none hnobody]
  rfl

end Nobody

/-- An operation on the manager between its callbacks. -/
inductive Op where
  | registerVMEventHandler (eventHandler : Ref)
  | refreshVMList (env : Env)

/-- Perform one operation on the manager and extend the trace of the run. -/
def Op.perform (s : RefreshState) : Op → RefreshState
  | registerVMEventHandler eventHandler =>
    { s with mgr := s.mgr.registerVMEventHandler eventHandler }
  | refreshVMList env =>
    let s' := (s.mgr.refreshReentrant env).2
    ⟨s'.mgr, s.trace ++ s'.trace⟩

/-- Perform a sequence of operations on a new manager. -/
def runOps (ops : List Op) : RefreshState := ops.foldl Op.perform ⟨.init, []⟩

/-- The refreshes of a run all meet `P`. -/
def Op.Meets (P : RefreshEnv → Prop) : Op → Prop
  | registerVMEventHandler _ => True
  | refreshVMList env => P env.toRefreshEnv

end Reentrant

/-! ## A notification -/

/-- The manager with more handlers. -/
def VMManager.registerAll (m : VMManager) (eventHandlers : List Ref) : VMManager :=
  { m with vmEventHandlers := m.vmEventHandlers ++ eventHandlers }

theorem VMManager.foldl_registerVMEventHandler (eventHandlers : List Ref) (m : VMManager) :
    eventHandlers.foldl registerVMEventHandler m = m.registerAll eventHandlers := by
  induction eventHandlers generalizing m with
  | nil => simp [registerAll]
  | cons h rest ih =>
    rw [List.foldl_cons, ih]
    simp [registerAll, registerVMEventHandler]

namespace Reentrant

/-- The calls of a notification from `slot` on, up to the end of the list, when the callback of each
handler returns, having registered `registered`. -/
inductive Notified (registered : Nat → List Ref) (call : Notification) :
    Nat → VMManager → List Entry → VMManager → Prop where
  | done {slot : Nat} {m : VMManager} (hslot : m.vmEventHandlers.length ≤ slot) :
      Notified registered call slot m [] m
  | called {slot : Nat} {m m' : VMManager} {t : List Entry}
      (hslot : slot < m.vmEventHandlers.length)
      (h : Notified registered call (slot + 1) (m.registerAll (registered slot)) t m') :
      Notified registered call slot m (⟨m, .notified slot call⟩ :: t) m'

/-- What is registered from `slot` on is registered there, or behind it. -/
theorem length_registers_split (registers : List (Nat × Ref)) (slot : Nat) :
    (registers.filter fun e => slot ≤ e.1).length =
      ((registers.filter fun e => e.1 = slot).map Prod.snd).length +
        (registers.filter fun e => slot + 1 ≤ e.1).length := by
  induction registers with
  | nil => rfl
  | cons e rest ih =>
    simp only [List.filter_cons, decide_eq_true_eq]
    rcases Nat.lt_trichotomy e.1 slot with h | h | h
    · rw [if_neg (by omega), if_neg (by omega), if_neg (by omega), ih]
    · rw [if_pos (by omega), if_pos h, if_neg (by omega), List.map_cons, List.length_cons,
        List.length_cons, ih]
      omega
    · rw [if_pos (by omega), if_neg (by omega), if_pos (by omega), List.length_cons,
        List.length_cons, ih]
      omega

section Returning

variable {env : Env} (hret : env.toRefreshEnv.HandlersReturn)
include hret

theorem exec_callEventHandler (call : Notification) (slot : Nat) (s : RefreshState) :
    exec (callEventHandler env call slot) s =
      (.ok (), ⟨s.mgr.registerAll (env.registeredBy (fetches s.trace).length call slot),
        s.trace ++ [⟨s.mgr, .notified slot call⟩]⟩) := by
  have hcount : (fetches (s.note [⟨s.mgr, .notified slot call⟩]).trace).length =
      (fetches s.trace).length := by
    simp [fetches, Entry.fetch?]
  rw [callEventHandler, exec_bind_ok (exec_emit s _), exec_bind_ok (exec_get _), hcount]
  refine (exec_bind_ok rfl).trans ?_
  rw [exec_liftOutcome, hret (fetches s.trace).length slot call]
  simp only [VMManager.foldl_registerVMEventHandler]
  rfl

/-- The loop comes to the end of the list. Induction on the fuel, which is as much as there are
handlers left, and registrations still to come. -/
theorem exec_forEachEventHandlerFrom (call : Notification) (fuel : Nat) :
    ∀ (slot : Nat) (s : RefreshState), s.mgr.vmEventHandlers.length - slot +
      ((env.registers (fetches s.trace).length call).filter fun e => slot ≤ e.1).length ≤ fuel →
      ∃ t m', exec (forEachEventHandlerFrom env call fuel slot) s = (.ok (), ⟨m', s.trace ++ t⟩) ∧
        Notified (env.registeredBy (fetches s.trace).length call) call slot s.mgr t m' := by
  induction fuel with
  | zero =>
    intro slot s hfuel
    exact ⟨[], s.mgr, by simp [forEachEventHandlerFrom], .done (by omega)⟩
  | succ fuel ih =>
    intro slot s hfuel
    rw [forEachEventHandlerFrom, exec_bind_ok (exec_get s)]
    by_cases hslot : slot < s.mgr.vmEventHandlers.length
    · rw [if_pos hslot, exec_bind_ok (exec_callEventHandler hret call slot s)]
      have hcount : (fetches (s.trace ++ [⟨s.mgr, .notified slot call⟩])).length =
          (fetches s.trace).length := by
        simp [fetches, Entry.fetch?]
      obtain ⟨t, m', hexec, hnotified⟩ := ih (slot + 1)
        ⟨s.mgr.registerAll (env.registeredBy (fetches s.trace).length call slot),
          s.trace ++ [⟨s.mgr, .notified slot call⟩]⟩ (by
        have hsplit := length_registers_split
          (env.registers (fetches s.trace).length call) slot
        simp only [hcount, VMManager.registerAll, List.length_append, Env.registeredBy]
        omega)
      rw [hcount] at hnotified
      refine ⟨⟨s.mgr, .notified slot call⟩ :: t, m', ?_, .called hslot hnotified⟩
      rw [hexec]
      simp
    · rw [if_neg hslot]
      exact ⟨[], s.mgr, by simp, .done (Nat.le_of_not_lt hslot)⟩

/-- **A notification reaches every handler**, also those registered while it goes round. -/
theorem exec_forEachEventHandler (call : Notification) (s : RefreshState) :
    ∃ t m', exec (forEachEventHandler env call) s = (.ok (), ⟨m', s.trace ++ t⟩) ∧
      Notified (env.registeredBy (fetches s.trace).length call) call 0 s.mgr t m' := by
  rw [forEachEventHandler, exec_bind_ok (exec_get s)]
  refine exec_forEachEventHandlerFrom hret call _ 0 s ?_
  have hall := List.length_filter_le (fun e => decide (0 ≤ e.1))
    (env.registers (fetches s.trace).length call)
  omega

end Returning

end Reentrant

end NebuApp
