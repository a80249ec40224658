import Mathlib.Data.List.AList

/-! # Timers and their manager

`scheduler.lua` and `schedulerMgr.lua` as functions on the object they are called on.  What a
call does outside its manager, setting the module's `instance` and calling `skynet.timeout`, is
returned as its `Drive`.  `skynet.timeout` returns nothing, so `self.to` stays nil and nothing is
ever removed.  A callback is a value; firing a timer returns the `Invocation` and the caller runs
it.  `pairs` visits the table in no fixed order, which `update` takes as an argument. -/

set_option autoImplicit false

namespace Doudizhu.Timer

structure Invocation (κ α : Type) where
  name : Nat
  callback : κ
  target : Option α
  otherArgs : Option α
  deriving DecidableEq

structure Scheduler (κ α : Type) where
  name : Nat
  delay : Int
  intaval : Int
  times : Int
  callback : Option κ
  target : Option α
  otherArgs : Option α
  ontimes : Int
  curIntaval : Int
  alive : Bool
  deriving DecidableEq

namespace Scheduler
variable {κ α : Type}

/-- `self.otherArgs = ...` keeps the first extra argument only. -/
def updateSet (name : Nat) (callback : Option κ) (intaval times delay : Int)
    (target : Option α) (args : List α) : Scheduler κ α where
  name := name
  delay := delay
  intaval := intaval
  times := times
  callback := callback
  target := target
  otherArgs := args.head?
  ontimes := 0
  curIntaval := intaval
  alive := true

def isAlive (s : Scheduler κ α) : Bool := s.alive

def death (s : Scheduler κ α) : Scheduler κ α := { s with alive := false }

def onTriggle (s : Scheduler κ α) : Scheduler κ α × Option (Invocation κ α) :=
  if s.isAlive then
    let s := { s with ontimes := s.ontimes + 1, curIntaval := s.intaval }
    let s := if s.times ≠ -1 ∧ s.ontimes ≥ s.times then s.death else s
    (s, s.callback.map fun callback => ⟨s.name, callback, s.target, s.otherArgs⟩)
  else (s, none)

def updateTime (s : Scheduler κ α) (dt : Int) : Scheduler κ α × Option (Invocation κ α) :=
  if s.isAlive then
    if s.delay > 0 then ({ s with delay := s.delay - dt }, none)
    else
      let s := { s with curIntaval := s.curIntaval - dt }
      if s.curIntaval ≤ 0 then s.onTriggle else (s, none)
  else (s, none)

/-! The four cases of `updateTime`. -/

theorem updateTime_of_dead {s : Scheduler κ α} (h : s.alive = false) (dt : Int) :
    s.updateTime dt = (s, none) := by
  rw [updateTime, isAlive, if_neg (by simp [h])]

theorem updateTime_delayed {s : Scheduler κ α} (h : s.alive = true) (hdelay : 0 < s.delay)
    (dt : Int) : s.updateTime dt = ({ s with delay := s.delay - dt }, none) := by
  rw [updateTime, isAlive, if_pos h, if_pos hdelay]

theorem updateTime_waiting {s : Scheduler κ α} (h : s.alive = true) (hdelay : ¬ 0 < s.delay)
    {dt : Int} (hwait : ¬ s.curIntaval - dt ≤ 0) :
    s.updateTime dt = ({ s with curIntaval := s.curIntaval - dt }, none) := by
  rw [updateTime, isAlive, if_pos h, if_neg hdelay]
  exact if_neg hwait

theorem updateTime_shot {s : Scheduler κ α} (h : s.alive = true) (hdelay : ¬ 0 < s.delay)
    {dt : Int} (hshot : s.curIntaval - dt ≤ 0) :
    s.updateTime dt =
      ({ s with
          ontimes := s.ontimes + 1
          curIntaval := s.intaval
          alive := if s.times ≠ -1 ∧ s.ontimes + 1 ≥ s.times then false else true },
        s.callback.map fun callback => ⟨s.name, callback, s.target, s.otherArgs⟩) := by
  have honTriggle : s.updateTime dt =
      ({ s with curIntaval := s.curIntaval - dt } : Scheduler κ α).onTriggle := by
    rw [updateTime, isAlive, if_pos h, if_neg hdelay]
    exact if_pos hshot
  rw [honTriggle, onTriggle, isAlive, if_pos h]
  by_cases hlast : s.times ≠ -1 ∧ s.ontimes + 1 ≥ s.times
  · simp only [if_pos hlast, death]
  · simp only [if_neg hlast, h]

theorem updateTime_name (s : Scheduler κ α) (dt : Int) : (s.updateTime dt).1.name = s.name := by
  by_cases h : s.alive = true
  · by_cases hdelay : 0 < s.delay
    · rw [updateTime_delayed h hdelay]
    · by_cases hshot : s.curIntaval - dt ≤ 0
      · rw [updateTime_shot h hdelay hshot]
      · rw [updateTime_waiting h hdelay hshot]
  · rw [updateTime_of_dead (Bool.eq_false_iff.mpr h)]

theorem updateTime_callback (s : Scheduler κ α) (dt : Int) :
    (s.updateTime dt).1.callback = s.callback := by
  by_cases h : s.alive = true
  · by_cases hdelay : 0 < s.delay
    · rw [updateTime_delayed h hdelay]
    · by_cases hshot : s.curIntaval - dt ≤ 0
      · rw [updateTime_shot h hdelay hshot]
      · rw [updateTime_waiting h hdelay hshot]
  · rw [updateTime_of_dead (Bool.eq_false_iff.mpr h)]

theorem alive_of_updateTime {s : Scheduler κ α} {dt : Int}
    (h : (s.updateTime dt).1.alive = true) : s.alive = true := by
  by_contra hdead
  rw [updateTime_of_dead (Bool.eq_false_iff.mpr hdead)] at h
  exact hdead h

/-- Only a live timer with a callback shoots, and it shoots that one. -/
theorem updateTime_invoked {s : Scheduler κ α} {dt : Int} {i : Invocation κ α}
    (h : (s.updateTime dt).2 = some i) : s.alive = true ∧ s.callback = some i.callback := by
  by_cases halive : s.alive = true
  · by_cases hdelay : 0 < s.delay
    · rw [updateTime_delayed halive hdelay] at h
      exact absurd h.symm (Option.some_ne_none i)
    · by_cases hshot : s.curIntaval - dt ≤ 0
      · rw [updateTime_shot halive hdelay hshot] at h
        obtain ⟨callback, hcallback, rfl⟩ := Option.map_eq_some_iff.mp h
        exact ⟨halive, hcallback⟩
      · rw [updateTime_waiting halive hdelay hshot] at h
        exact absurd h.symm (Option.some_ne_none i)
  · rw [updateTime_of_dead (Bool.eq_false_iff.mpr halive)] at h
    exact absurd h.symm (Option.some_ne_none i)

theorem updateTime_invoked_name {s : Scheduler κ α} {dt : Int} {i : Invocation κ α}
    (h : (s.updateTime dt).2 = some i) : i.name = s.name := by
  by_cases halive : s.alive = true
  · by_cases hdelay : 0 < s.delay
    · rw [updateTime_delayed halive hdelay] at h
      exact absurd h.symm (Option.some_ne_none i)
    · by_cases hshot : s.curIntaval - dt ≤ 0
      · rw [updateTime_shot halive hdelay hshot] at h
        obtain ⟨callback, _, rfl⟩ := Option.map_eq_some_iff.mp h
        rfl
      · rw [updateTime_waiting halive hdelay hshot] at h
        exact absurd h.symm (Option.some_ne_none i)
  · rw [updateTime_of_dead (Bool.eq_false_iff.mpr halive)] at h
    exact absurd h.symm (Option.some_ne_none i)

end Scheduler

/-- What a call does outside its manager: `startRunTimer` makes it the module's `instance` and
asks for a timeout, `stopRunTimer` clears `instance`. -/
inductive Drive where
  | keep
  | start
  | stop
  deriving DecidableEq

structure SchedulerMgr (κ α : Type) where
  m_schedulers : AList fun _ : Nat => Scheduler κ α
  m_isRunTime : Bool
  m_idBase : Nat

def curTimeUnit : Int := 100

namespace SchedulerMgr
variable {κ α : Type}

def ctor : SchedulerMgr κ α where
  m_schedulers := ∅
  m_isRunTime := false
  m_idBase := 0

def isNeedTimer (m : SchedulerMgr κ α) : Bool :=
  m.m_schedulers.entries.any fun entry => entry.2.isAlive

def startRunTimer (m : SchedulerMgr κ α) : SchedulerMgr κ α × Drive :=
  ({ m with m_isRunTime := true }, .start)

def destroySchedulers (m : SchedulerMgr κ α) (ids : List Nat) : SchedulerMgr κ α :=
  { m with m_schedulers := ids.foldl (fun table name => table.erase name) m.m_schedulers }

def stopRunTimer (m : SchedulerMgr κ α) : SchedulerMgr κ α × Drive :=
  ({ m with m_isRunTime := false, m_schedulers := ∅ }, .stop)

/-- The search for a free id, for at most `fuel` rounds. -/
def freeId (m : SchedulerMgr κ α) : Nat → Nat → Option Nat
  | 0, _ => none
  | fuel + 1, id =>
      if id ∈ m.m_schedulers then
        freeId m fuel (if id + 1 ≥ 0xffffffff then 1 else id + 1)
      else some id

def gernerateUniqueId (m : SchedulerMgr κ α) : Option Nat :=
  freeId m (m.m_schedulers.keys.length + 1) (m.m_idBase + 1)

/-- `none` when the assertion on the two times fails; nothing has changed then. -/
def register (m : SchedulerMgr κ α) (callback : Option κ) (intaval times delay : Int)
    (target : Option α) (args : List α) : Option (SchedulerMgr κ α × Drive × Nat) :=
  if intaval % 100 = 0 ∧ delay % 100 = 0 then
    m.gernerateUniqueId.map fun name =>
      let s := Scheduler.updateSet name callback intaval times delay target args
      let m := { m with m_idBase := name, m_schedulers := m.m_schedulers.insert name s }
      if !m.m_isRunTime && m.isNeedTimer then
        let started := m.startRunTimer
        (started.1, started.2, name)
      else (m, .keep, name)
  else none

def unregister (m : SchedulerMgr κ α) (name : Nat) : SchedulerMgr κ α :=
  match m.m_schedulers.lookup name with
  | some s => { m with m_schedulers := m.m_schedulers.insert name s.death }
  | none => m

def unregisterAllschedule (m : SchedulerMgr κ α) : SchedulerMgr κ α × Drive := m.stopRunTimer

/-! ## One tick -/

/-- What the traversal in `update` has done so far. -/
structure Sweep (κ α : Type) where
  mgr : SchedulerMgr κ α
  deathIds : List Nat
  invoked : List (Invocation κ α)

def visit (m : SchedulerMgr κ α) (name : Nat) :
    SchedulerMgr κ α × List Nat × Option (Invocation κ α) :=
  match m.m_schedulers.lookup name with
  | some s =>
      if s.isAlive then
        let ticked := s.updateTime curTimeUnit
        ({ m with m_schedulers := m.m_schedulers.insert name ticked.1 }, [], ticked.2)
      else (m, [name], none)
  | none => (m, [], none)

def finishUpdate (m : SchedulerMgr κ α) (deathIds : List Nat) : SchedulerMgr κ α × Drive :=
  let m := if deathIds.length > 0 then m.destroySchedulers deathIds else m
  if !m.isNeedTimer then m.stopRunTimer else m.startRunTimer

def Sweep.visit (w : Sweep κ α) (name : Nat) : Sweep κ α :=
  let visited := w.mgr.visit name
  ⟨visited.1, w.deathIds ++ visited.2.1, w.invoked ++ visited.2.2.toList⟩

/-- `update` when the callbacks do not call the manager. -/
def update (m : SchedulerMgr κ α) (order : List Nat) :
    SchedulerMgr κ α × List (Invocation κ α) × Drive :=
  if m.m_isRunTime then
    let swept := order.foldl Sweep.visit ⟨m, [], []⟩
    let finished := swept.mgr.finishUpdate swept.deathIds
    (finished.1, swept.invoked, finished.2)
  else (m, [], .keep)

/-! ## Facts about the manager -/

theorem visit_of_none {m : SchedulerMgr κ α} {name : Nat}
    (h : m.m_schedulers.lookup name = none) : m.visit name = (m, [], none) := by
  rw [visit, h]

theorem visit_of_alive {m : SchedulerMgr κ α} {name : Nat} {s : Scheduler κ α}
    (h : m.m_schedulers.lookup name = some s) (halive : s.alive = true) :
    m.visit name =
      ({ m with m_schedulers := m.m_schedulers.insert name (s.updateTime curTimeUnit).1 }, [],
        (s.updateTime curTimeUnit).2) := by
  rw [visit, h]
  exact if_pos halive

theorem visit_of_dead {m : SchedulerMgr κ α} {name : Nat} {s : Scheduler κ α}
    (h : m.m_schedulers.lookup name = some s) (hdead : s.alive = false) :
    m.visit name = (m, [name], none) := by
  rw [visit, h]
  exact if_neg (by rw [Scheduler.isAlive, hdead]; decide)

theorem finishUpdate_eq (m : SchedulerMgr κ α) (deathIds : List Nat) :
    m.finishUpdate deathIds =
      if (m.destroySchedulers deathIds).isNeedTimer = true then
        ({ m.destroySchedulers deathIds with m_isRunTime := true }, .start)
      else ({ m with m_isRunTime := false, m_schedulers := ∅ }, .stop) := by
  have hsame : (if deathIds.length > 0 then m.destroySchedulers deathIds else m) =
      m.destroySchedulers deathIds := by
    cases deathIds with
    | nil => rfl
    | cons name deathIds => rfl
  rw [finishUpdate, hsame]
  by_cases hneed : (m.destroySchedulers deathIds).isNeedTimer = true
  · rw [if_pos hneed, hneed]
    rfl
  · rw [if_neg hneed, Bool.eq_false_iff.mpr hneed]
    rfl

theorem isNeedTimer_iff (m : SchedulerMgr κ α) :
    m.isNeedTimer = true ↔ ∃ name s, m.m_schedulers.lookup name = some s ∧ s.alive = true := by
  constructor
  · intro h
    obtain ⟨⟨name, s⟩, hmem, halive⟩ := List.any_eq_true.mp h
    exact ⟨name, s, AList.mem_lookup_iff.mpr hmem, halive⟩
  · rintro ⟨name, s, hlookup, halive⟩
    exact List.any_eq_true.mpr ⟨⟨name, s⟩, AList.mem_lookup_iff.mp hlookup, halive⟩

/-- The ids in the table have been handed out, and every timer is stored under its own. -/
structure Indexed (m : SchedulerMgr κ α) : Prop where
  le_idBase : ∀ name ∈ m.m_schedulers, name ≤ m.m_idBase
  name_eq : ∀ name s, m.m_schedulers.lookup name = some s → s.name = name

theorem indexed_empty (running : Bool) (idBase : Nat) :
    (⟨∅, running, idBase⟩ : SchedulerMgr κ α).Indexed where
  le_idBase _ h := absurd h (AList.notMem_empty _)
  name_eq name s h := absurd (h.symm.trans (AList.lookup_empty name)) (Option.some_ne_none s)

theorem indexed_ctor : (ctor : SchedulerMgr κ α).Indexed := indexed_empty false 0

/-- Ids are never reused, so the search ends in its first round. -/
theorem Indexed.gernerateUniqueId {m : SchedulerMgr κ α} (h : m.Indexed) :
    m.gernerateUniqueId = some (m.m_idBase + 1) := by
  have hfree : m.m_idBase + 1 ∉ m.m_schedulers := fun hmem => by
    have := h.le_idBase _ hmem
    omega
  rw [SchedulerMgr.gernerateUniqueId, freeId, if_neg hfree]

/-- A registration that passes its assertion adds a live timer under a fresh id and leaves the
manager running. -/
theorem Indexed.register {m : SchedulerMgr κ α} (h : m.Indexed) (callback : Option κ)
    (intaval times delay : Int) (target : Option α) (args : List α) :
    m.register callback intaval times delay target args =
      if intaval % 100 = 0 ∧ delay % 100 = 0 then
        some
          ({ m_schedulers := m.m_schedulers.insert (m.m_idBase + 1)
              (Scheduler.updateSet (m.m_idBase + 1) callback intaval times delay target args)
             m_isRunTime := true
             m_idBase := m.m_idBase + 1 },
            if m.m_isRunTime then .keep else .start, m.m_idBase + 1)
      else none := by
  unfold SchedulerMgr.register
  by_cases hunit : intaval % 100 = 0 ∧ delay % 100 = 0
  · rw [if_pos hunit, if_pos hunit, h.gernerateUniqueId, Option.map_some]
    have hneed : isNeedTimer
        { m with
          m_idBase := m.m_idBase + 1
          m_schedulers := m.m_schedulers.insert (m.m_idBase + 1)
            (Scheduler.updateSet (m.m_idBase + 1) callback intaval times delay target args) } =
          true :=
      (isNeedTimer_iff _).mpr ⟨m.m_idBase + 1, _, AList.lookup_insert _, rfl⟩
    cases hrun : m.m_isRunTime with
    | true => simp
    | false =>
        simp only [hrun] at hneed
        simp [hneed, startRunTimer]
  · rw [if_neg hunit, if_neg hunit]

theorem Indexed.unit_of_added {m : SchedulerMgr κ α} (h : m.Indexed) {callback : Option κ}
    {intaval times delay : Int} {target : Option α} {args : List α}
    {added : SchedulerMgr κ α × Drive × Nat}
    (hadded : m.register callback intaval times delay target args = some added) :
    intaval % 100 = 0 ∧ delay % 100 = 0 := by
  by_contra hunit
  rw [h.register, if_neg hunit] at hadded
  exact absurd hadded.symm (Option.some_ne_none added)

theorem Indexed.not_unit_of_refused {m : SchedulerMgr κ α} (h : m.Indexed) {callback : Option κ}
    {intaval times delay : Int} {target : Option α} {args : List α}
    (hfailed : m.register callback intaval times delay target args = none) :
    ¬ (intaval % 100 = 0 ∧ delay % 100 = 0) := by
  intro hunit
  rw [h.register, if_pos hunit] at hfailed
  exact absurd hfailed (Option.some_ne_none _)

/-- `m'` is `m` with the new timer `s` under the fresh id `id`. -/
structure Added (m m' : SchedulerMgr κ α) (id : Nat) (s : Scheduler κ α) : Prop where
  indexed : m'.Indexed
  id_eq : id = m.m_idBase + 1
  idBase : m'.m_idBase = id
  running : m'.m_isRunTime = true
  lookup : m'.m_schedulers.lookup id = some s
  others : ∀ other, other ≠ id → m'.m_schedulers.lookup other = m.m_schedulers.lookup other

theorem Indexed.added {m m' : SchedulerMgr κ α} (h : m.Indexed) {callback : Option κ}
    {intaval times delay : Int} {target : Option α} {args : List α} {d : Drive} {id : Nat}
    (hregister : m.register callback intaval times delay target args = some (m', d, id)) :
    Added m m' id (Scheduler.updateSet id callback intaval times delay target args) ∧
      d = if m.m_isRunTime then .keep else .start := by
  rw [h.register] at hregister
  by_cases hunit : intaval % 100 = 0 ∧ delay % 100 = 0
  · rw [if_pos hunit] at hregister
    cases Option.some.inj hregister
    refine ⟨⟨⟨fun name hname => ?_, fun name s hs => ?_⟩, rfl, rfl, rfl, AList.lookup_insert _,
      fun other hother => AList.lookup_insert_ne hother⟩, rfl⟩
    · rcases (AList.mem_insert _).mp hname with rfl | hname
      · exact Nat.le_refl _
      · exact Nat.le_succ_of_le (h.le_idBase name hname)
    · by_cases hne : name = m.m_idBase + 1
      · subst hne
        cases Option.some.inj ((AList.lookup_insert _).symm.trans hs)
        rfl
      · exact h.name_eq name s ((AList.lookup_insert_ne hne).symm.trans hs)
  · rw [if_neg hunit] at hregister
    exact absurd hregister.symm (Option.some_ne_none _)

theorem indexed_insert {m : SchedulerMgr κ α} (h : m.Indexed) {name : Nat} {s : Scheduler κ α}
    (hmem : name ∈ m.m_schedulers) (hname : s.name = name) :
    ({ m with m_schedulers := m.m_schedulers.insert name s } : SchedulerMgr κ α).Indexed := by
  refine ⟨fun other hother => ?_, fun other t ht => ?_⟩
  · rcases (AList.mem_insert _).mp hother with rfl | hother
    · exact h.le_idBase _ hmem
    · exact h.le_idBase _ hother
  · change (m.m_schedulers.insert name s).lookup other = some t at ht
    by_cases hne : other = name
    · subst hne
      rw [AList.lookup_insert] at ht
      cases ht
      exact hname
    · rw [AList.lookup_insert_ne hne] at ht
      exact h.name_eq other t ht

theorem Indexed.unregister {m : SchedulerMgr κ α} (h : m.Indexed) (name : Nat) :
    (m.unregister name).Indexed := by
  unfold SchedulerMgr.unregister
  cases hlookup : m.m_schedulers.lookup name with
  | none => exact h
  | some s =>
      have hmem : name ∈ m.m_schedulers := AList.lookup_isSome.mp (by rw [hlookup]; rfl)
      exact indexed_insert h hmem (h.name_eq name s hlookup)

theorem unregister_idBase (m : SchedulerMgr κ α) (name : Nat) :
    (m.unregister name).m_idBase = m.m_idBase := by
  unfold SchedulerMgr.unregister
  cases m.m_schedulers.lookup name <;> rfl

theorem unregister_isRunTime (m : SchedulerMgr κ α) (name : Nat) :
    (m.unregister name).m_isRunTime = m.m_isRunTime := by
  unfold SchedulerMgr.unregister
  cases m.m_schedulers.lookup name <;> rfl

theorem unregister_lookup_ne (m : SchedulerMgr κ α) {name id : Nat} (h : id ≠ name) :
    (m.unregister name).m_schedulers.lookup id = m.m_schedulers.lookup id := by
  unfold SchedulerMgr.unregister
  cases m.m_schedulers.lookup name with
  | none => rfl
  | some s => exact AList.lookup_insert_ne h

theorem unregister_lookup (m : SchedulerMgr κ α) (name : Nat) :
    (m.unregister name).m_schedulers.lookup name =
      (m.m_schedulers.lookup name).map Scheduler.death := by
  unfold SchedulerMgr.unregister
  cases hlookup : m.m_schedulers.lookup name with
  | none => exact hlookup
  | some t => exact AList.lookup_insert _

/-- A timer in the table after `unregister` was there before, and is the same unless killed. -/
theorem unregister_origin {m : SchedulerMgr κ α} {name id : Nat} {t' : Scheduler κ α}
    (h : (m.unregister name).m_schedulers.lookup id = some t') :
    ∃ t, m.m_schedulers.lookup id = some t ∧ (t' = t ∨ t' = t.death) := by
  by_cases hid : id = name
  · subst hid
    rw [unregister_lookup] at h
    obtain ⟨t, ht, rfl⟩ := Option.map_eq_some_iff.mp h
    exact ⟨t, ht, Or.inr rfl⟩
  · rw [unregister_lookup_ne m hid] at h
    exact ⟨t', h, Or.inl rfl⟩

theorem visit_indexed {m : SchedulerMgr κ α} (h : m.Indexed) (name : Nat) :
    (m.visit name).1.Indexed ∧ (m.visit name).1.m_idBase = m.m_idBase ∧
      (m.visit name).1.m_isRunTime = m.m_isRunTime := by
  cases hlookup : m.m_schedulers.lookup name with
  | none =>
      rw [visit_of_none hlookup]
      exact ⟨h, rfl, rfl⟩
  | some s =>
      by_cases halive : s.alive = true
      · rw [visit_of_alive hlookup halive]
        have hmem : name ∈ m.m_schedulers := AList.lookup_isSome.mp (by rw [hlookup]; rfl)
        have hname := (Scheduler.updateTime_name s curTimeUnit).trans (h.name_eq name s hlookup)
        exact ⟨indexed_insert h hmem hname, rfl, rfl⟩
      · rw [visit_of_dead hlookup (Bool.eq_false_iff.mpr halive)]
        exact ⟨h, rfl, rfl⟩

theorem destroySchedulers_lookup (m : SchedulerMgr κ α) (id : Nat) : ∀ ids : List Nat,
    (m.destroySchedulers ids).m_schedulers.lookup id =
      if id ∈ ids then none else m.m_schedulers.lookup id := by
  intro ids
  induction ids generalizing m with
  | nil => rfl
  | cons name ids ih =>
      have hnext := ih { m with m_schedulers := m.m_schedulers.erase name }
      change (({ m with m_schedulers := m.m_schedulers.erase name } :
        SchedulerMgr κ α).destroySchedulers ids).m_schedulers.lookup id = _
      rw [hnext]
      by_cases hid : id = name
      · subst hid
        simp
      · simp [hid]

theorem finishUpdate_lookup (m : SchedulerMgr κ α) (deathIds : List Nat) (id : Nat) :
    (m.finishUpdate deathIds).1.m_schedulers.lookup id =
      if (m.destroySchedulers deathIds).isNeedTimer = true then
        if id ∈ deathIds then none else m.m_schedulers.lookup id
      else none := by
  rw [finishUpdate_eq]
  by_cases hneed : (m.destroySchedulers deathIds).isNeedTimer = true
  · rw [if_pos hneed, if_pos hneed, ← destroySchedulers_lookup]
  · rw [if_neg hneed, if_neg hneed]
    exact AList.lookup_empty id

theorem finishUpdate_indexed {m : SchedulerMgr κ α} (h : m.Indexed) (deathIds : List Nat) :
    (m.finishUpdate deathIds).1.Indexed ∧ (m.finishUpdate deathIds).1.m_idBase = m.m_idBase := by
  have hbase : (m.finishUpdate deathIds).1.m_idBase = m.m_idBase := by
    rw [finishUpdate_eq]
    split_ifs <;> rfl
  have hkept : ∀ id s, (m.finishUpdate deathIds).1.m_schedulers.lookup id = some s →
      m.m_schedulers.lookup id = some s := by
    intro id s hs
    rw [finishUpdate_lookup] at hs
    split_ifs at hs
    exact hs
  refine ⟨⟨fun id hid => ?_, fun id s hs => h.name_eq id s (hkept id s hs)⟩, hbase⟩
  obtain ⟨s, hs⟩ := Option.isSome_iff_exists.mp (AList.lookup_isSome.mpr hid)
  rw [hbase]
  exact h.le_idBase id (AList.lookup_isSome.mp (by rw [hkept id s hs]; rfl))

end SchedulerMgr
end Doudizhu.Timer
