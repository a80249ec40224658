import Doudizhu.Timer.Scheduler
import Doudizhu.Lib.Runs
import Mathlib.Logic.Function.Basic

/-! # Timer managers in one service

All managers of a service share the module-level variable `instance` and the timeouts skynet has
been asked for.  A timeout runs `skynet_timeout_callback`, which updates whatever manager
`instance` designates then.  `update` is broken at the callbacks it runs, because they may call
any manager: `visit` is one round of its loop and opens a callback, `callbackReturn` closes it,
`endUpdate` is what follows the loop.  Time is in skynet's unit of 10 ms. -/

set_option autoImplicit false

namespace Doudizhu.Timer

/-- A timeout asked for by the manager `starter`; it cannot be cancelled. -/
structure Timeout (ι : Type) where
  starter : ι
  due : Nat

/-- The `update` in progress.  `grown` records that a callback has inserted into the table being
traversed, which leaves the rest of the traversal undefined; `replaced` that it has been emptied
and replaced by a new one, which ends the traversal. -/
structure Frame (ι : Type) where
  mgr : ι
  deathIds : List Nat
  visited : List Nat
  grown : Bool
  replaced : Bool
  inCallback : Bool

/-- `ticks` lists the updates that have advanced timers, with their times. -/
structure Service (ι κ α : Type) where
  mgrs : ι → SchedulerMgr κ α
  instanceMgr : Option ι
  timeouts : List (Timeout ι)
  now : Nat
  frame : Option (Frame ι)
  ticks : List (ι × Nat)

inductive Event (ι κ α : Type) where
  | register (x : ι) (callback : Option κ) (intaval times delay : Int) (target : Option α)
      (args : List α)
  | unregister (x : ι) (name : Nat)
  | unregisterAllschedule (x : ι)
  | clock
  | timeout (x : ι)
  | visit (x : ι) (name : Nat)
  | callbackReturn (x : ι)
  | endUpdate (x : ι)

namespace Service

open SchedulerMgr (visit_indexed finishUpdate_indexed)

variable {ι κ α : Type}

def start : Service ι κ α where
  mgrs _ := SchedulerMgr.ctor
  instanceMgr := none
  timeouts := []
  now := 0
  frame := none
  ticks := []

def running (s : Service ι κ α) (x : ι) : Bool := (s.mgrs x).m_isRunTime

/-- Calls are made between updates and from inside callbacks. -/
def callAllowed (s : Service ι κ α) : Bool :=
  match s.frame with
  | none => true
  | some f => f.inCallback

/-- The effect of `startRunTimer` and `stopRunTimer` of `x` on the module; the timeout is asked
for with `m_curTimeUnit / 10`. -/
def drive (s : Service ι κ α) (x : ι) : Drive → Service ι κ α
  | .keep => s
  | .start =>
      { s with instanceMgr := some x, timeouts := s.timeouts ++ [⟨x, s.now + 10⟩] }
  | .stop => { s with instanceMgr := none }

@[simp] theorem drive_mgrs (s : Service ι κ α) (x : ι) (d : Drive) :
    (s.drive x d).mgrs = s.mgrs := by cases d <;> rfl

@[simp] theorem drive_frame (s : Service ι κ α) (x : ι) (d : Drive) :
    (s.drive x d).frame = s.frame := by cases d <;> rfl

@[simp] theorem drive_now (s : Service ι κ α) (x : ι) (d : Drive) :
    (s.drive x d).now = s.now := by cases d <;> rfl

@[simp] theorem drive_ticks (s : Service ι κ α) (x : ι) (d : Drive) :
    (s.drive x d).ticks = s.ticks := by cases d <;> rfl

/-- `skynet_timeout_callback`, up to the first round of the loop in `update`. -/
def timeoutCallback (s : Service ι κ α) : Service ι κ α :=
  match s.instanceMgr with
  | none => s
  | some y =>
      if (s.mgrs y).m_isRunTime then
        { s with frame := some ⟨y, [], [], false, false, false⟩, ticks := s.ticks ++ [(y, s.now)] }
      else s

theorem timeoutCallback_of_running {s : Service ι κ α} {y : ι} (h : s.instanceMgr = some y)
    (hrun : s.running y = true) :
    s.timeoutCallback =
      { s with
        frame := some ⟨y, [], [], false, false, false⟩
        ticks := s.ticks ++ [(y, s.now)] } := by
  rw [timeoutCallback, h]
  exact if_pos hrun

theorem timeoutCallback_of_idle {s : Service ι κ α}
    (h : ∀ y, s.instanceMgr = some y → s.running y = false) : s.timeoutCallback = s := by
  unfold timeoutCallback
  cases hinstance : s.instanceMgr with
  | none => rfl
  | some y =>
      have hidle : (s.mgrs y).m_isRunTime = false := h y hinstance
      exact if_neg (by rw [hidle]; exact Bool.false_ne_true)

theorem timeoutCallback_mgrs (s : Service ι κ α) : s.timeoutCallback.mgrs = s.mgrs := by
  unfold timeoutCallback
  cases s.instanceMgr with
  | none => rfl
  | some y =>
      dsimp only
      split_ifs <;> rfl

variable [DecidableEq ι]

def setMgr (s : Service ι κ α) (x : ι) (m : SchedulerMgr κ α) : Service ι κ α :=
  { s with mgrs := Function.update s.mgrs x m }

def Frame.grow (f : Frame ι) (x : ι) : Frame ι :=
  if f.mgr = x ∧ f.replaced = false then { f with grown := true } else f

def Frame.replace (f : Frame ι) (x : ι) : Frame ι :=
  if f.mgr = x then { f with replaced := true } else f

theorem grow_mgr (f : Frame ι) (y : ι) : (Frame.grow f y).mgr = f.mgr := by
  unfold Frame.grow
  split_ifs <;> rfl

theorem replace_mgr (f : Frame ι) (y : ι) : (Frame.replace f y).mgr = f.mgr := by
  unfold Frame.replace
  split_ifs <;> rfl

/-- A failed assertion is the caller's to handle and changes nothing. -/
def register (s : Service ι κ α) (x : ι) (callback : Option κ) (intaval times delay : Int)
    (target : Option α) (args : List α) : Option (Service ι κ α) :=
  if s.callAllowed then
    match (s.mgrs x).register callback intaval times delay target args with
    | none => some s
    | some (m, d, _) =>
        some (({ s with frame := s.frame.map fun f => Frame.grow f x }.setMgr x m).drive x d)
  else none

def unregister (s : Service ι κ α) (x : ι) (name : Nat) : Option (Service ι κ α) :=
  if s.callAllowed then some (s.setMgr x ((s.mgrs x).unregister name)) else none

def unregisterAllschedule (s : Service ι κ α) (x : ι) : Option (Service ι κ α) :=
  if s.callAllowed then
    let stopped := (s.mgrs x).unregisterAllschedule
    some (({ s with frame := s.frame.map fun f => Frame.replace f x }.setMgr x stopped.1).drive x
      stopped.2)
  else none

/-- Without the oldest timeout that `x` asked for. -/
def fired (s : Service ι κ α) (x : ι) : Service ι κ α :=
  { s with timeouts := s.timeouts.eraseP fun t => t.starter = x }

/-- The oldest timeout that `x` asked for fires, not before it is due. -/
def timeout (s : Service ι κ α) (x : ι) : Option (Service ι κ α) :=
  if s.frame.isNone then
    match s.timeouts.find? fun t => t.starter = x with
    | none => none
    | some t =>
        if t.due ≤ s.now then some (s.fired x).timeoutCallback else none
  else none

def visit (s : Service ι κ α) (x : ι) (name : Nat) : Option (Service ι κ α) :=
  match s.frame with
  | none => none
  | some f =>
      if f.mgr = x ∧ f.inCallback = false ∧ f.replaced = false ∧
          name ∈ (s.mgrs x).m_schedulers ∧ (f.grown = true ∨ name ∉ f.visited) then
        let visited := (s.mgrs x).visit name
        let frame := { f with
          deathIds := f.deathIds ++ visited.2.1
          visited := f.visited ++ [name]
          inCallback := visited.2.2.isSome }
        some ({ s with frame := some frame }.setMgr x visited.1)
      else none

def callbackReturn (s : Service ι κ α) (x : ι) : Option (Service ι κ α) :=
  match s.frame with
  | none => none
  | some f =>
      if f.mgr = x ∧ f.inCallback = true then
        some { s with frame := some { f with inCallback := false } }
      else none

def endUpdate (s : Service ι κ α) (x : ι) : Option (Service ι κ α) :=
  match s.frame with
  | none => none
  | some f =>
      if f.mgr = x ∧ f.inCallback = false ∧ (f.replaced = true ∨ f.grown = true ∨
          ∀ name ∈ (s.mgrs x).m_schedulers.keys, name ∈ f.visited) then
        let finished := (s.mgrs x).finishUpdate f.deathIds
        some (({ s with frame := none }.setMgr x finished.1).drive x finished.2)
      else none

def step (s : Service ι κ α) : Event ι κ α → Option (Service ι κ α)
  | .register x callback intaval times delay target args =>
      s.register x callback intaval times delay target args
  | .unregister x name => s.unregister x name
  | .unregisterAllschedule x => s.unregisterAllschedule x
  | .clock => some { s with now := s.now + 1 }
  | .timeout x => s.timeout x
  | .visit x name => s.visit x name
  | .callbackReturn x => s.callbackReturn x
  | .endUpdate x => s.endUpdate x

/-! ## The cases of a step -/

@[simp] theorem setMgr_self (s : Service ι κ α) (x : ι) (m : SchedulerMgr κ α) :
    (s.setMgr x m).mgrs x = m := Function.update_self ..

theorem setMgr_of_ne (s : Service ι κ α) {x y : ι} (h : y ≠ x) (m : SchedulerMgr κ α) :
    (s.setMgr x m).mgrs y = s.mgrs y := Function.update_of_ne h ..

theorem setMgr_rule {P : SchedulerMgr κ α → Prop} (s : Service ι κ α) (x y : ι)
    (m : SchedulerMgr κ α) (hset : x = y → P m) (hkept : P (s.mgrs x)) :
    P ((s.setMgr y m).mgrs x) := by
  by_cases hy : x = y
  · subst hy
    rw [setMgr_self]
    exact hset rfl
  · rw [setMgr_of_ne s hy]
    exact hkept

/-- What a step can be, with the state it leads to. -/
inductive Steps (s : Service ι κ α) : Event ι κ α → Service ι κ α → Prop
  | refused (x : ι) {callback intaval times delay target args} (allowed : s.callAllowed = true)
      (failed : (s.mgrs x).register callback intaval times delay target args = none) :
      Steps s (.register x callback intaval times delay target args) s
  | register (x : ι) {callback intaval times delay target args m d name}
      (allowed : s.callAllowed = true)
      (added : (s.mgrs x).register callback intaval times delay target args = some (m, d, name)) :
      Steps s (.register x callback intaval times delay target args)
        (({ s with frame := s.frame.map fun f => Frame.grow f x }.setMgr x m).drive x d)
  | unregister (x : ι) (name : Nat) (allowed : s.callAllowed = true) :
      Steps s (.unregister x name) (s.setMgr x ((s.mgrs x).unregister name))
  | unregisterAllschedule (x : ι) (allowed : s.callAllowed = true) :
      Steps s (.unregisterAllschedule x)
        (({ s with frame := s.frame.map fun f => Frame.replace f x }.setMgr x
          ⟨∅, false, (s.mgrs x).m_idBase⟩).drive x .stop)
  | clock : Steps s .clock { s with now := s.now + 1 }
  | timeout (x : ι) {t : Timeout ι} (idle : s.frame = none)
      (pending : (s.timeouts.find? fun t => t.starter = x) = some t) (due : t.due ≤ s.now) :
      Steps s (.timeout x) (s.fired x).timeoutCallback
  | visit (x : ι) (name : Nat) {f : Frame ι} (frame : s.frame = some f)
      (ready : f.mgr = x ∧ f.inCallback = false ∧ f.replaced = false ∧
        name ∈ (s.mgrs x).m_schedulers ∧ (f.grown = true ∨ name ∉ f.visited)) :
      Steps s (.visit x name)
        ({ s with
            frame := some { f with
              deathIds := f.deathIds ++ ((s.mgrs x).visit name).2.1
              visited := f.visited ++ [name]
              inCallback := ((s.mgrs x).visit name).2.2.isSome } }.setMgr x
          ((s.mgrs x).visit name).1)
  | callbackReturn (x : ι) {f : Frame ι} (frame : s.frame = some f)
      (ready : f.mgr = x ∧ f.inCallback = true) :
      Steps s (.callbackReturn x) { s with frame := some { f with inCallback := false } }
  | endUpdate (x : ι) {f : Frame ι} (frame : s.frame = some f)
      (ready : f.mgr = x ∧ f.inCallback = false ∧ (f.replaced = true ∨ f.grown = true ∨
        ∀ name ∈ (s.mgrs x).m_schedulers.keys, name ∈ f.visited)) :
      Steps s (.endUpdate x)
        (({ s with frame := none }.setMgr x ((s.mgrs x).finishUpdate f.deathIds).1).drive x
          ((s.mgrs x).finishUpdate f.deathIds).2)

theorem steps_of_step {s s' : Service ι κ α} {e : Event ι κ α} (h : s.step e = some s') :
    Steps s e s' := by
  cases e with
  | register x callback intaval times delay target args =>
      change s.register x callback intaval times delay target args = some s' at h
      unfold register at h
      by_cases hallowed : s.callAllowed = true
      · rw [if_pos hallowed] at h
        cases hadded : (s.mgrs x).register callback intaval times delay target args with
        | none =>
            rw [hadded] at h
            cases Option.some.inj h
            exact .refused x hallowed hadded
        | some added =>
            obtain ⟨m, d, name⟩ := added
            rw [hadded] at h
            cases Option.some.inj h
            exact .register x hallowed hadded
      · rw [if_neg hallowed] at h
        exact absurd h.symm (Option.some_ne_none s')
  | unregister x name =>
      change s.unregister x name = some s' at h
      unfold unregister at h
      by_cases hallowed : s.callAllowed = true
      · rw [if_pos hallowed] at h
        cases Option.some.inj h
        exact .unregister x name hallowed
      · rw [if_neg hallowed] at h
        exact absurd h.symm (Option.some_ne_none s')
  | unregisterAllschedule x =>
      change s.unregisterAllschedule x = some s' at h
      unfold unregisterAllschedule at h
      by_cases hallowed : s.callAllowed = true
      · rw [if_pos hallowed] at h
        cases Option.some.inj h
        exact .unregisterAllschedule x hallowed
      · rw [if_neg hallowed] at h
        exact absurd h.symm (Option.some_ne_none s')
  | clock =>
      cases Option.some.inj h
      exact .clock
  | timeout x =>
      change s.timeout x = some s' at h
      unfold timeout at h
      by_cases hidle : s.frame.isNone = true
      · rw [if_pos hidle] at h
        cases hpending : (s.timeouts.find? fun t => t.starter = x) with
        | none =>
            rw [hpending] at h
            exact absurd h.symm (Option.some_ne_none s')
        | some t =>
            rw [hpending] at h
            by_cases hdue : t.due ≤ s.now
            · cases Option.some.inj ((if_pos hdue).symm.trans h)
              exact .timeout x (Option.isNone_iff_eq_none.mp hidle) hpending hdue
            · exact absurd ((if_neg hdue).symm.trans h).symm (Option.some_ne_none s')
      · rw [if_neg hidle] at h
        exact absurd h.symm (Option.some_ne_none s')
  | visit x name =>
      change s.visit x name = some s' at h
      unfold visit at h
      cases hframe : s.frame with
      | none =>
          rw [hframe] at h
          exact absurd h.symm (Option.some_ne_none s')
      | some f =>
          rw [hframe] at h
          dsimp only at h
          split_ifs at h with hready
          cases Option.some.inj h
          exact .visit x name hframe hready
  | callbackReturn x =>
      change s.callbackReturn x = some s' at h
      unfold callbackReturn at h
      cases hframe : s.frame with
      | none =>
          rw [hframe] at h
          exact absurd h.symm (Option.some_ne_none s')
      | some f =>
          rw [hframe] at h
          dsimp only at h
          split_ifs at h with hready
          cases Option.some.inj h
          exact .callbackReturn x hframe hready
  | endUpdate x =>
      change s.endUpdate x = some s' at h
      unfold endUpdate at h
      cases hframe : s.frame with
      | none =>
          rw [hframe] at h
          exact absurd h.symm (Option.some_ne_none s')
      | some f =>
          rw [hframe] at h
          dsimp only at h
          split_ifs at h with hready
          cases Option.some.inj h
          exact .endUpdate x hframe hready

theorem step_of_steps {s s' : Service ι κ α} {e : Event ι κ α} (h : Steps s e s') :
    s.step e = some s' := by
  cases h with
  | refused x hallowed hfailed =>
      change s.register x _ _ _ _ _ _ = _
      rw [register, if_pos hallowed, hfailed]
  | register x hallowed hadded =>
      change s.register x _ _ _ _ _ _ = _
      rw [register, if_pos hallowed, hadded]
  | unregister x name hallowed =>
      change s.unregister x name = _
      rw [unregister, if_pos hallowed]
  | unregisterAllschedule x hallowed =>
      change s.unregisterAllschedule x = _
      rw [unregisterAllschedule, if_pos hallowed]
      rfl
  | clock => rfl
  | timeout x hidle hpending hdue =>
      change s.timeout x = _
      rw [timeout, if_pos (by rw [hidle]; rfl), hpending]
      exact if_pos hdue
  | visit x name hframe hready =>
      change s.visit x name = _
      rw [visit, hframe]
      exact if_pos hready
  | callbackReturn x hframe hready =>
      change s.callbackReturn x = _
      rw [callbackReturn, hframe]
      exact if_pos hready
  | endUpdate x hframe hready =>
      change s.endUpdate x = _
      rw [endUpdate, hframe]
      exact if_pos hready

theorem indexed_step {s s' : Service ι κ α} {e : Event ι κ α} (h : ∀ x, (s.mgrs x).Indexed)
    (hstep : s.step e = some s') : ∀ x, (s'.mgrs x).Indexed := by
  intro y
  cases steps_of_step hstep with
  | refused x _ _ => exact h y
  | register x _ hadded =>
      rw [drive_mgrs]
      exact setMgr_rule _ y x _ (fun _ => ((h x).added hadded).1.indexed) (h y)
  | unregister x name _ => exact setMgr_rule s y x _ (fun _ => (h x).unregister name) (h y)
  | unregisterAllschedule x _ =>
      rw [drive_mgrs]
      exact setMgr_rule _ y x _ (fun _ => SchedulerMgr.indexed_empty _ _) (h y)
  | clock => exact h y
  | timeout x _ _ _ =>
      rw [timeoutCallback_mgrs]
      exact h y
  | visit x name _ _ => exact setMgr_rule _ y x _ (fun _ => (visit_indexed (h x) name).1) (h y)
  | callbackReturn x _ _ => exact h y
  | endUpdate x _ _ =>
      rw [drive_mgrs]
      exact setMgr_rule _ y x _ (fun _ => (finishUpdate_indexed (h x) _).1) (h y)

theorem indexed_run {es : List (Event ι κ α)} {s : Service ι κ α}
    (hrun : Runs.run step (start : Service ι κ α) es = some s) : ∀ x, (s.mgrs x).Indexed :=
  Runs.run_invariant step (fun _ _ => True) (fun s : Service ι κ α => ∀ x, (s.mgrs x).Indexed)
    (fun _ _ _ h _ hstep => indexed_step h hstep) es start s
    (fun _ => SchedulerMgr.indexed_ctor) (Runs.along_true step es start) hrun

end Service
end Doudizhu.Timer
