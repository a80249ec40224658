import Doudizhu.Timer.Cancellation
import Doudizhu.Utils.Chains

/-! # The arguments of a callback

The extra arguments of `register` go through `new` and the ctor of `scheduler` unchanged.  Then
`self.otherArgs = ...` takes the first of them, and `self.callback(self.target, self.otherArgs)`
passes two values whatever was given.  Here nil is a value that may stand among the arguments, and
a field that is missing is read as nil. -/

set_option autoImplicit false

namespace Doudizhu.Timer

open Runs Service Scheduler SchedulerMgr

/-! ## From `register` to the fields of the timer -/

/-- The arguments of `new(scheduler, ...)` after the class. -/
structure CtorArgs (κ α : Type) where
  id : Nat
  callback : Option κ
  intaval : Int
  times : Int
  delay : Int
  target : Option α
  args : List α

/-- The class of `scheduler.lua`; `none` is an object before its ctor. -/
def schedulerClass (κ α : Type) :
    Class.Declaration (Option (Scheduler κ α)) (CtorArgs κ α) where
  argument := none
  ctor := some fun a _ =>
    .ret (some (updateSet a.id a.callback a.intaval a.times a.delay a.target a.args))
  dtor := some id

/-- The timer that `register` stores is the object that `new` makes of its arguments. -/
theorem new_scheduler {κ α : Type} (a : CtorArgs κ α) (fuel : Nat) :
    ∃ obj, Class.new (Class.tables [schedulerClass κ α]) (fuel + 1)
        (.class (schedulerClass κ α) []) a (Class.Object.empty none) = .returned () obj ∧
      obj.fields =
        some (updateSet a.id a.callback a.intaval a.times a.delay a.target a.args) :=
  ⟨_, rfl, rfl⟩

section Entries
variable {κ α : Type}

def SchedulerMgr.registerOnce (m : SchedulerMgr κ α) (callback : Option κ) (intaval delay : Int)
    (target : Option α) (args : List α) : Option (SchedulerMgr κ α × Drive × Nat) :=
  m.register callback intaval 1 delay target args

def SchedulerMgr.registerOnceNow (m : SchedulerMgr κ α) (callback : Option κ) (intaval : Int)
    (target : Option α) (args : List α) : Option (SchedulerMgr κ α × Drive × Nat) :=
  m.register callback intaval 1 0 target args

/-- A call of one of the three functions that register a callback. -/
inductive Entry (κ α : Type) where
  | register (callback : κ) (intaval times delay : Int) (target : Option α) (args : List α)
  | registerOnce (callback : κ) (intaval delay : Int) (target : Option α) (args : List α)
  | registerOnceNow (callback : κ) (intaval : Int) (target : Option α) (args : List α)

namespace Entry

def call (m : SchedulerMgr κ α) : Entry κ α → Option (SchedulerMgr κ α × Drive × Nat)
  | .register callback intaval times delay target args =>
      m.register (some callback) intaval times delay target args
  | .registerOnce callback intaval delay target args =>
      m.registerOnce (some callback) intaval delay target args
  | .registerOnceNow callback intaval target args =>
      m.registerOnceNow (some callback) intaval target args

def registration : Entry κ α → Registration κ α
  | .register callback intaval times delay target args =>
      ⟨callback, intaval, times, delay, target, args⟩
  | .registerOnce callback intaval delay target args =>
      ⟨callback, intaval, 1, delay, target, args⟩
  | .registerOnceNow callback intaval target args => ⟨callback, intaval, 1, 0, target, args⟩

def event {ι : Type} (x : ι) (entry : Entry κ α) : Event ι κ α :=
  .register x (some entry.registration.callback) entry.registration.intaval
    entry.registration.times entry.registration.delay entry.registration.target
    entry.registration.args

theorem call_eq (entry : Entry κ α) (m : SchedulerMgr κ α) :
    entry.call m = entry.registration.apply m := by
  cases entry <;> rfl

end Entry

/-! ## What a timer keeps -/

/-- What an invocation of the timer is made from. -/
structure Carries (r : Registration κ α) (t : Scheduler κ α) : Prop where
  callback : t.callback = some r.callback
  target : t.target = r.target
  otherArgs : t.otherArgs = r.args.head?

theorem Carries.updateTime {r : Registration κ α} {t : Scheduler κ α} (h : Carries r t)
    (dt : Int) : Carries r (t.updateTime dt).1 := by
  by_cases halive : t.alive = true
  · by_cases hdelay : 0 < t.delay
    · rw [updateTime_delayed halive hdelay]
      exact ⟨h.callback, h.target, h.otherArgs⟩
    · by_cases hshot : t.curIntaval - dt ≤ 0
      · rw [updateTime_shot halive hdelay hshot]
        exact ⟨h.callback, h.target, h.otherArgs⟩
      · rw [updateTime_waiting halive hdelay hshot]
        exact ⟨h.callback, h.target, h.otherArgs⟩
  · rw [updateTime_of_dead (Bool.eq_false_iff.mpr halive)]
    exact h

theorem Carries.invoked {r : Registration κ α} {t : Scheduler κ α} (h : Carries r t) {dt : Int}
    {i : Invocation κ α} (hi : (t.updateTime dt).2 = some i) :
    i.callback = r.callback ∧ i.target = r.target ∧ i.otherArgs = r.args.head? := by
  have halive := (updateTime_invoked hi).1
  by_cases hdelay : 0 < t.delay
  · rw [updateTime_delayed halive hdelay] at hi
    cases hi
  · by_cases hshot : t.curIntaval - dt ≤ 0
    · rw [updateTime_shot halive hdelay hshot, h.callback] at hi
      cases hi
      exact ⟨rfl, h.target, h.otherArgs⟩
    · rw [updateTime_waiting halive hdelay hshot] at hi
      cases hi

end Entries

section Life
variable {ι κ α : Type} [DecidableEq ι]

/-- As long as it is in the table of `x`, the timer `name` is the one registered by `r`. -/
structure Carried (x : ι) (name : Nat) (r : Registration κ α) (s : Service ι κ α) : Prop where
  indexed : ∀ y, (s.mgrs y).Indexed
  handedOut : name ≤ (s.mgrs x).m_idBase
  carries : ∀ t, (s.mgrs x).m_schedulers.lookup name = some t → Carries r t

theorem carried_step {x : ι} {name : Nat} {r : Registration κ α} {s s' : Service ι κ α}
    {e : Event ι κ α} (h : Carried x name r s) (hstep : s.step e = some s') :
    Carried x name r s' where
  indexed := indexed_step h.indexed hstep
  handedOut := Nat.le_trans h.handedOut (idBase_le_step h.indexed hstep x)
  carries t' ht' := by
    obtain ⟨t, ht, rfl | rfl | rfl⟩ := step_fate h.indexed hstep x h.handedOut t' ht'
    · exact h.carries _ ht
    · exact ⟨(h.carries t ht).callback, (h.carries t ht).target, (h.carries t ht).otherArgs⟩
    · exact (h.carries t ht).updateTime curTimeUnit

theorem carried_run {x : ι} {name : Nat} {r : Registration κ α} {s t : Service ι κ α}
    (es : List (Event ι κ α)) (h : Carried x name r s) (hrun : run step s es = some t) :
    Carried x name r t :=
  run_invariant step (fun _ _ => True) (Carried x name r)
    (fun _ _ _ hs _ hstep => carried_step hs hstep) es s t h (along_true step es s) hrun

theorem carried_of_call {x : ι} {entry : Entry κ α} {s s' : Service ι κ α}
    (h : ∀ y, (s.mgrs y).Indexed) {m : SchedulerMgr κ α} {d : Drive} {name : Nat}
    (hcall : entry.call (s.mgrs x) = some (m, d, name))
    (hstep : s.step (entry.event x) = some s') : Carried x name entry.registration s' := by
  rw [entry.call_eq] at hcall
  obtain ⟨hadded, _⟩ := (h x).added hcall
  have hmgr : s'.mgrs x = m := by
    change s.register x _ _ _ _ _ _ = some s' at hstep
    unfold Service.register at hstep
    split_ifs at hstep
    rw [Registration.apply] at hcall
    rw [hcall] at hstep
    cases hstep
    rw [drive_mgrs, setMgr_self]
  refine ⟨indexed_step h hstep, ?_, ?_⟩
  · rw [hmgr, hadded.idBase]
  · intro t ht
    rw [hmgr, hadded.lookup] at ht
    cases ht
    exact ⟨rfl, rfl, rfl⟩

def invocation (s : Service ι κ α) : Event ι κ α → Option (ι × Invocation κ α)
  | .visit x name => ((s.mgrs x).visit name).2.2.map fun i => (x, i)
  | _ => none

omit [DecidableEq ι] in
theorem Carried.invocation {x : ι} {name : Nat} {r : Registration κ α} {s : Service ι κ α}
    (h : Carried x name r s) {e : Event ι κ α} {i : Invocation κ α}
    (hi : invocation s e = some (x, i)) (hname : i.name = name) :
    i.callback = r.callback ∧ i.target = r.target ∧ i.otherArgs = r.args.head? := by
  cases e with
  | visit y id =>
      obtain ⟨j, hvisit, hj⟩ := Option.map_eq_some_iff.mp hi
      cases hj
      cases hlookup : (s.mgrs x).m_schedulers.lookup id with
      | none =>
          rw [visit_of_none hlookup] at hvisit
          cases hvisit
      | some t =>
          by_cases halive : t.alive = true
          · rw [visit_of_alive hlookup halive] at hvisit
            have hid := (updateTime_invoked_name hvisit).trans ((h.indexed x).name_eq id t hlookup)
            rw [hname] at hid
            subst hid
            exact (h.carries t hlookup).invoked hvisit
          · rw [visit_of_dead hlookup (Bool.eq_false_iff.mpr halive)] at hvisit
            cases hvisit
  | register y callback intaval times delay target args => cases hi
  | unregister y id => cases hi
  | unregisterAllschedule y => cases hi
  | clock => cases hi
  | timeout y => cases hi
  | callbackReturn y => cases hi
  | endUpdate y => cases hi

end Life

/-! ## The call of the callback -/

section Call
variable {ι κ β : Type} [DecidableEq ι]

/-- `self.callback(self.target, self.otherArgs)`: the arguments passed, `none` for nil. -/
def Invocation.arguments (i : Invocation κ (Option β)) : List (Option β) :=
  [i.target.join, i.otherArgs.join]

/-- The arguments given: the target and those after it. -/
def Registration.arguments (r : Registration κ (Option β)) : List (Option β) :=
  r.target.join :: r.args

/-- A callback that names its parameters reads a missing argument as nil. -/
def SameByPosition (given passed : List (Option β)) : Prop :=
  ∀ n : Nat, (given[n]?).join = (passed[n]?).join

theorem arguments_eq_iff (target : Option β) : ∀ args : List (Option β),
    [target, args.head?.join] = target :: args ↔ args.length = 1
  | [] => by simp
  | [a] => by simp
  | a :: b :: args => by simp

theorem sameByPosition_iff (target : Option β) : ∀ args : List (Option β),
    SameByPosition (target :: args) [target, args.head?.join] ↔ ∀ a ∈ args.tail, a = none
  | [] => by
      refine iff_of_true ?_ (by simp)
      rintro (_ | _ | n) <;> rfl
  | a :: args => by
      constructor
      · intro h b hb
        obtain ⟨n, hn, rfl⟩ := List.getElem_of_mem hb
        have hsame := h (n + 2)
        simp only [List.getElem?_cons_succ, List.getElem?_nil, Option.join_none] at hsame
        rw [List.tail_cons] at hn
        rw [List.getElem?_eq_getElem hn, Option.join_some] at hsame
        exact hsame
      · rintro h (_ | _ | n)
        · rfl
        · rfl
        · simp only [List.getElem?_cons_succ, List.getElem?_nil, Option.join_none]
          cases hn : args[n]? with
          | none => rfl
          | some b => exact h b (List.mem_of_getElem? hn)

/-- In every run, however the callback was registered, each invocation of the timer passes the
target and the first extra argument: just what was given if and only if that was one argument, and
the same values by position if and only if all further ones are nil. -/
theorem callback_arguments_iff {x : ι} (entry : Entry κ (Option β))
    {s s' t : Service ι κ (Option β)} {m : SchedulerMgr κ (Option β)} {d : Drive} {name : Nat}
    (es later : List (Event ι κ (Option β)))
    (hrun : run step start es = some s) (hcall : entry.call (s.mgrs x) = some (m, d, name))
    (hstep : s.step (entry.event x) = some s') (hlater : run step s' later = some t)
    (e : Event ι κ (Option β)) (i : Invocation κ (Option β))
    (hinvoked : invocation t e = some (x, i)) (hname : i.name = name) :
    i.callback = entry.registration.callback ∧
      (i.arguments = entry.registration.arguments ↔ entry.registration.args.length = 1) ∧
      (SameByPosition entry.registration.arguments i.arguments ↔
        ∀ a ∈ entry.registration.args.tail, a = none) := by
  have hindexed := indexed_run hrun
  have hcarried := carried_run later (carried_of_call hindexed hcall hstep) hlater
  obtain ⟨hcallback, htarget, hotherArgs⟩ := hcarried.invocation hinvoked hname
  refine ⟨hcallback, ?_, ?_⟩
  · rw [Invocation.arguments, Registration.arguments, htarget, hotherArgs]
    exact arguments_eq_iff _ _
  · rw [Invocation.arguments, Registration.arguments, htarget, hotherArgs]
    exact sameByPosition_iff _ _

end Call

/-! ## A timer of one shot -/

/-- From the registration up to the round of the loop that shoots. -/
def untilTimeout : List (Event Unit Unit (Option Nat)) := List.replicate 10 .clock ++ [.timeout ()]

def onceWith (args : List (Option Nat)) : Entry Unit (Option Nat) :=
  .registerOnceNow () 100 none args

theorem callback_arguments_one :
    ∃ (t : Service Unit Unit (Option Nat)) (i : Invocation Unit (Option Nat)),
      invocation t (.visit () 1) = some ((), i) ∧
      i.callback = (onceWith [some 1]).registration.callback ∧
      (i.arguments = (onceWith [some 1]).registration.arguments ↔
        (onceWith [some 1]).registration.args.length = 1) ∧
      (SameByPosition (onceWith [some 1]).registration.arguments i.arguments ↔
        ∀ a ∈ (onceWith [some 1]).registration.args.tail, a = none) := by
  obtain ⟨s', t, m, d, i, hcall, hstep, hlater, hinvoked, hname⟩ :
      ∃ s' t : Service Unit Unit (Option Nat), ∃ m d, ∃ i : Invocation Unit (Option Nat),
        (onceWith [some 1]).call ((start : Service Unit Unit (Option Nat)).mgrs ()) =
          some (m, d, 1) ∧
        (start : Service Unit Unit (Option Nat)).step ((onceWith [some 1]).event ()) = some s' ∧
        run step s' untilTimeout = some t ∧ invocation t (.visit () 1) = some ((), i) ∧
        i.name = 1 :=
    ⟨_, _, _, _, _, rfl, rfl, rfl, rfl, rfl⟩
  exact ⟨t, i, hinvoked, callback_arguments_iff (onceWith [some 1]) [] untilTimeout rfl hcall hstep
    hlater (.visit () 1) i hinvoked hname⟩

/-- Of two extra arguments the callback gets the first. -/
theorem callback_loses_argument :
    ∃ s s' t : Service Unit Unit (Option Nat), ∃ m d, ∃ i : Invocation Unit (Option Nat),
      run step start [] = some s ∧
      (onceWith [some 1, some 2]).call (s.mgrs ()) = some (m, d, 1) ∧
      s.step ((onceWith [some 1, some 2]).event ()) = some s' ∧
      run step s' untilTimeout = some t ∧ invocation t (.visit () 1) = some ((), i) ∧ i.name = 1 ∧
      i.arguments = [none, some 1] ∧
      i.arguments ≠ (onceWith [some 1, some 2]).registration.arguments :=
  ⟨_, _, _, _, _, _, rfl, rfl, rfl, rfl, rfl, rfl, rfl, by decide⟩

end Doudizhu.Timer
