import Doudizhu.Timer.Scheduler
import Doudizhu.Lib.Runs

/-! # When a timer fires

A timer counts the ticks of its manager since its registration: `delay / 100` of them pass, then
one shot comes every `intaval / 100` ticks (every tick for an interval of 0), `times` shots at
most.  `timerAt` is the timer's record after `n` ticks in closed form, `Tracked` the invariant
that ties it to the manager's table and to the callbacks invoked so far. -/

set_option autoImplicit false

namespace Doudizhu.Timer

open Runs Scheduler SchedulerMgr

section Tick
variable {κ α : Type}

/-! ## A tick, seen by one timer -/

def invokedBy (id : Nat) (log : List (Invocation κ α)) : List (Invocation κ α) :=
  log.filter fun i => i.name = id

theorem invokedBy_append (id : Nat) (log later : List (Invocation κ α)) :
    invokedBy id (log ++ later) = invokedBy id log ++ invokedBy id later :=
  List.filter_append ..

theorem visit_lookup (m : SchedulerMgr κ α) (name id : Nat) :
    (m.visit name).1.m_schedulers.lookup id =
      if id = name then (m.m_schedulers.lookup id).map fun s => (s.updateTime curTimeUnit).1
      else m.m_schedulers.lookup id := by
  by_cases hid : id = name
  · subst hid
    rw [if_pos rfl]
    cases hlookup : m.m_schedulers.lookup id with
    | none => rw [visit_of_none hlookup, hlookup, Option.map_none]
    | some s =>
        by_cases halive : s.alive = true
        · rw [visit_of_alive hlookup halive]
          exact AList.lookup_insert _
        · have hdead := Bool.eq_false_iff.mpr halive
          rw [visit_of_dead hlookup hdead, hlookup, Option.map_some, updateTime_of_dead hdead]
  · rw [if_neg hid]
    cases hlookup : m.m_schedulers.lookup name with
    | none => rw [visit_of_none hlookup]
    | some s =>
        by_cases halive : s.alive = true
        · rw [visit_of_alive hlookup halive]
          exact AList.lookup_insert_ne hid
        · rw [visit_of_dead hlookup (Bool.eq_false_iff.mpr halive)]

theorem mem_visit (m : SchedulerMgr κ α) (name id : Nat) :
    id ∈ (m.visit name).1.m_schedulers ↔ id ∈ m.m_schedulers := by
  rw [← AList.lookup_isSome, ← AList.lookup_isSome, visit_lookup]
  by_cases hid : id = name
  · rw [if_pos hid, Option.isSome_map]
  · rw [if_neg hid]

theorem visit_deathIds (m : SchedulerMgr κ α) (name id : Nat) :
    id ∈ (m.visit name).2.1 ↔
      id = name ∧ ∃ s, m.m_schedulers.lookup id = some s ∧ s.alive = false := by
  cases hlookup : m.m_schedulers.lookup name with
  | none =>
      rw [visit_of_none hlookup]
      simp only [List.not_mem_nil, false_iff, not_and]
      rintro rfl ⟨s, hs, _⟩
      exact Option.some_ne_none s (hs.symm.trans hlookup)
  | some s =>
      by_cases halive : s.alive = true
      · rw [visit_of_alive hlookup halive]
        simp only [List.not_mem_nil, false_iff, not_and]
        rintro rfl ⟨t, ht, hdead⟩
        cases hlookup.symm.trans ht
        exact absurd (halive.symm.trans hdead) (by decide)
      · have hdead := Bool.eq_false_iff.mpr halive
        rw [visit_of_dead hlookup hdead]
        simp only [List.mem_singleton]
        constructor
        · rintro rfl
          exact ⟨rfl, s, hlookup, hdead⟩
        · exact fun h => h.1

theorem visit_invoked {m : SchedulerMgr κ α} (h : m.Indexed) (name id : Nat) :
    invokedBy id (m.visit name).2.2.toList =
      if id = name then
        ((m.m_schedulers.lookup id).bind fun s => (s.updateTime curTimeUnit).2).toList
      else [] := by
  cases hlookup : m.m_schedulers.lookup name with
  | none =>
      rw [visit_of_none hlookup]
      by_cases hid : id = name
      · subst hid
        simp [invokedBy, hlookup]
      · simp [invokedBy, hid]
  | some s =>
      by_cases halive : s.alive = true
      · rw [visit_of_alive hlookup halive]
        cases hi : (s.updateTime curTimeUnit).2 with
        | none =>
            by_cases hid : id = name
            · subst hid
              simp [invokedBy, hlookup, hi]
            · simp [invokedBy, hid]
        | some i =>
            have hname : i.name = name :=
              (updateTime_invoked_name hi).trans (h.name_eq name s hlookup)
            by_cases hid : id = name
            · subst hid
              simp [invokedBy, hlookup, hi, hname]
            · simp [invokedBy, hname, hid, Ne.symm hid]
      · have hdead := Bool.eq_false_iff.mpr halive
        rw [visit_of_dead hlookup hdead]
        by_cases hid : id = name
        · subst hid
          simp [invokedBy, hlookup, updateTime_of_dead hdead]
        · simp [invokedBy, hid]

/-- What the whole loop does to the timer `id`, which it visits at most once. -/
structure SweptOnce (id : Nat) (order : List Nat) (w w' : Sweep κ α) : Prop where
  indexed : w'.mgr.Indexed
  idBase : w'.mgr.m_idBase = w.mgr.m_idBase
  lookup : w'.mgr.m_schedulers.lookup id =
    if id ∈ order then (w.mgr.m_schedulers.lookup id).map fun s => (s.updateTime curTimeUnit).1
    else w.mgr.m_schedulers.lookup id
  deathIds : id ∈ w'.deathIds ↔ id ∈ w.deathIds ∨
    id ∈ order ∧ ∃ s, w.mgr.m_schedulers.lookup id = some s ∧ s.alive = false
  invoked : invokedBy id w'.invoked = invokedBy id w.invoked ++
    if id ∈ order then
      ((w.mgr.m_schedulers.lookup id).bind fun s => (s.updateTime curTimeUnit).2).toList
    else []

theorem sweep_once (id : Nat) : ∀ (order : List Nat) (w : Sweep κ α), order.Nodup →
    w.mgr.Indexed → SweptOnce id order w (order.foldl Sweep.visit w) := by
  intro order
  induction order with
  | nil =>
      intro w _ h
      exact ⟨h, rfl, by simp, by simp, by simp⟩
  | cons name order ih =>
      intro w hnodup h
      obtain ⟨hname, hrest⟩ := List.nodup_cons.mp hnodup
      obtain ⟨hindexed, hbase, _⟩ := visit_indexed h name
      have hnext := ih (w.visit name) hrest hindexed
      have hlookup := visit_lookup w.mgr name id
      have hdeath := visit_deathIds w.mgr name id
      have hinvoked := visit_invoked h name id
      refine ⟨hnext.indexed, hnext.idBase.trans hbase, ?_, ?_, ?_⟩
      · rw [List.foldl_cons, hnext.lookup]
        change (if id ∈ order then Option.map _ ((w.mgr.visit name).1.m_schedulers.lookup id)
          else (w.mgr.visit name).1.m_schedulers.lookup id) = _
        rw [hlookup]
        by_cases hid : id = name
        · subst hid
          simp [hname]
        · simp [hid]
      · rw [List.foldl_cons, hnext.deathIds]
        change id ∈ w.deathIds ++ (w.mgr.visit name).2.1 ∨ id ∈ order ∧
          (∃ s, (w.mgr.visit name).1.m_schedulers.lookup id = some s ∧ s.alive = false) ↔ _
        rw [List.mem_append, hdeath, hlookup]
        by_cases hid : id = name
        · subst hid
          simp [hname]
        · simp [hid]
      · rw [List.foldl_cons, hnext.invoked]
        change invokedBy id (w.invoked ++ (w.mgr.visit name).2.2.toList) ++ (if id ∈ order then
          (((w.mgr.visit name).1.m_schedulers.lookup id).bind _).toList else []) = _
        rw [invokedBy_append, hinvoked, hlookup]
        by_cases hid : id = name
        · subst hid
          simp [hname]
        · simp [hid]

/-- One tick of a running manager as the timer `id` sees it: its own `updateTime`, whatever the
others are and in whatever order they are visited. -/
structure Ticked (id : Nat) (m m' : SchedulerMgr κ α) (invoked : List (Invocation κ α)) :
    Prop where
  indexed : m'.Indexed
  idBase : m'.m_idBase = m.m_idBase
  live : ∀ s, m.m_schedulers.lookup id = some s → (s.updateTime curTimeUnit).1.alive = true →
    m'.m_schedulers.lookup id = some (s.updateTime curTimeUnit).1
  dead : (∀ s, m.m_schedulers.lookup id = some s →
      (s.updateTime curTimeUnit).1.alive = false) →
    ∀ s, m'.m_schedulers.lookup id = some s → s.alive = false
  invoked : invokedBy id invoked =
    ((m.m_schedulers.lookup id).bind fun s => (s.updateTime curTimeUnit).2).toList

theorem update_ticked {m : SchedulerMgr κ α} (h : m.Indexed) (hrun : m.m_isRunTime = true)
    {order : List Nat} (horder : order.Perm m.m_schedulers.keys) (id : Nat) :
    Ticked id m (m.update order).1 (m.update order).2.1 := by
  have hnodup : order.Nodup := horder.nodup_iff.mpr m.m_schedulers.keys_nodup
  have hmem : ∀ s, m.m_schedulers.lookup id = some s → id ∈ order := fun s hs =>
    horder.mem_iff.mpr (AList.mem_keys.mp (AList.lookup_isSome.mp (by rw [hs]; rfl)))
  let swept := order.foldl Sweep.visit ⟨m, [], []⟩
  have hswept : SweptOnce id order ⟨m, [], []⟩ swept := sweep_once id order _ hnodup h
  have hupdate : m.update order =
      ((swept.mgr.finishUpdate swept.deathIds).1, swept.invoked,
        (swept.mgr.finishUpdate swept.deathIds).2) := by
    rw [update, if_pos hrun]
  obtain ⟨hindexed, hbase⟩ := finishUpdate_indexed hswept.indexed swept.deathIds
  have hfinal := finishUpdate_lookup swept.mgr swept.deathIds id
  rw [hupdate]
  refine ⟨hindexed, hbase.trans hswept.idBase, fun s hs halive => ?_, fun hdead s hs => ?_, ?_⟩
  · have hlookup : swept.mgr.m_schedulers.lookup id = some (s.updateTime curTimeUnit).1 := by
      rw [hswept.lookup, if_pos (hmem s hs), hs, Option.map_some]
    have hkept : id ∉ swept.deathIds := by
      rw [hswept.deathIds]
      rintro (hnone | ⟨_, t, ht, htdead⟩)
      · exact List.not_mem_nil hnone
      · cases hs.symm.trans ht
        rw [updateTime_of_dead htdead, htdead] at halive
        exact Bool.false_ne_true halive
    have hdestroyed := destroySchedulers_lookup swept.mgr id swept.deathIds
    rw [if_neg hkept, hlookup] at hdestroyed
    have hneed := (isNeedTimer_iff (swept.mgr.destroySchedulers swept.deathIds)).mpr
      ⟨id, _, hdestroyed, halive⟩
    rw [hfinal, if_pos hneed, if_neg hkept, hlookup]
  · change (swept.mgr.finishUpdate swept.deathIds).1.m_schedulers.lookup id = some s at hs
    rw [hfinal] at hs
    split_ifs at hs
    rw [hswept.lookup] at hs
    split_ifs at hs with hid
    · obtain ⟨t, ht, rfl⟩ := Option.map_eq_some_iff.mp hs
      exact hdead t ht
    · exact absurd (hmem s hs) hid
  · rw [hswept.invoked]
    by_cases hid : id ∈ order
    · simp [invokedBy, hid]
    · cases hlookup : m.m_schedulers.lookup id with
      | none => simp [invokedBy, hid]
      | some s => exact absurd (hmem s hlookup) hid

theorem Ticked.origin {id : Nat} {m m' : SchedulerMgr κ α} {invoked : List (Invocation κ α)}
    (h : Ticked id m m' invoked) {t' : Scheduler κ α}
    (hlookup : m'.m_schedulers.lookup id = some t') (halive : t'.alive = true) :
    ∃ t, m.m_schedulers.lookup id = some t ∧ t' = (t.updateTime curTimeUnit).1 := by
  by_contra hnone
  have hdead := h.dead fun t ht => by
    by_contra hlive
    have hkept := h.live t ht (Bool.not_eq_false _ ▸ hlive)
    exact hnone ⟨t, ht, Option.some.inj (hlookup.symm.trans hkept)⟩
  rw [hdead t' hlookup] at halive
  exact Bool.false_ne_true halive

/-- An invocation in a tick is by a live timer, which has that callback. -/
theorem update_invoked_origin {m : SchedulerMgr κ α} (h : m.Indexed) (hrun : m.m_isRunTime = true)
    {order : List Nat} (horder : order.Perm m.m_schedulers.keys) {i : Invocation κ α}
    (hi : i ∈ (m.update order).2.1) :
    ∃ t, m.m_schedulers.lookup i.name = some t ∧ t.alive = true ∧
      t.callback = some i.callback := by
  have hinvoked := (update_ticked h hrun horder i.name).invoked
  have hmem : i ∈ invokedBy i.name (m.update order).2.1 :=
    List.mem_filter.mpr ⟨hi, decide_eq_true rfl⟩
  rw [hinvoked, Option.mem_toList, Option.bind_eq_some_iff] at hmem
  obtain ⟨t, ht, hshot⟩ := hmem
  exact ⟨t, ht, updateTime_invoked hshot⟩

end Tick

/-! ## The closed form -/

/-- The shots due after `n` ticks when nothing limits their number. -/
def periods (delay intaval : Int) (n : Nat) : Nat :=
  (n - (delay / 100).toNat) / max 1 (intaval / 100).toNat

/-- The shots after `n` ticks; `times = -1` sets no limit. -/
def shots (delay intaval times : Int) (n : Nat) : Nat :=
  if times = -1 then periods delay intaval n else min times.toNat (periods delay intaval n)

structure Registration (κ α : Type) where
  callback : κ
  intaval : Int
  times : Int
  delay : Int
  target : Option α
  args : List α

/-- What `register` asks for in its comment. -/
structure Registration.Documented {κ α : Type} (r : Registration κ α) : Prop where
  delay_nonneg : 0 ≤ r.delay
  intaval_nonneg : 0 ≤ r.intaval
  delay_unit : r.delay % 100 = 0
  intaval_unit : r.intaval % 100 = 0
  times : r.times = -1 ∨ 1 ≤ r.times

section ClosedForm
variable {κ α : Type} (id : Nat) (r : Registration κ α)

def timerAt (n : Nat) : Scheduler κ α where
  name := id
  delay := 100 * ((r.delay / 100).toNat - n : Nat)
  intaval := r.intaval
  times := r.times
  callback := some r.callback
  target := r.target
  otherArgs := r.args.head?
  ontimes := periods r.delay r.intaval n
  curIntaval := r.intaval -
    100 * ((n - (r.delay / 100).toNat) % max 1 (r.intaval / 100).toNat : Nat)
  alive := true

/-- The timer has shots left after `n` ticks. -/
def Pending (n : Nat) : Prop := r.times = -1 ∨ (periods r.delay r.intaval n : Int) < r.times

theorem timerAt_zero (h : r.Documented) :
    timerAt id r 0 = Scheduler.updateSet id (some r.callback) r.intaval r.times r.delay r.target
      r.args := by
  have hdelay : (100 * ((r.delay / 100).toNat - 0 : Nat) : Int) = r.delay := by
    have h1 := h.delay_nonneg
    have h2 := h.delay_unit
    omega
  have hzero : 0 - (r.delay / 100).toNat = 0 := Nat.zero_sub _
  unfold timerAt periods
  rw [hdelay, hzero, Nat.zero_mod, Nat.zero_div]
  simp [Scheduler.updateSet]

/-- One more tick after the delay: inside an interval, or at its end. -/
theorem div_mod_succ (e : Nat) {i : Nat} (hi : 0 < i) :
    (e % i + 1 < i ∧ (e + 1) / i = e / i ∧ (e + 1) % i = e % i + 1) ∨
      (e % i + 1 = i ∧ (e + 1) / i = e / i + 1 ∧ (e + 1) % i = 0) := by
  have hdivmod := Nat.mod_add_div e i
  have hlt := Nat.mod_lt e hi
  by_cases hend : e % i + 1 = i
  · refine Or.inr ⟨hend, (Nat.div_mod_unique hi).mpr ⟨?_, hi⟩⟩
    rw [Nat.mul_add, Nat.mul_one]
    omega
  · refine Or.inl ⟨by omega, (Nat.div_mod_unique hi).mpr ⟨?_, by omega⟩⟩
    omega

variable {id r} in
theorem timerAt_of_fields {n : Nat} {s : Scheduler κ α}
    (hsame : s = { timerAt id r n with
      delay := s.delay, ontimes := s.ontimes, curIntaval := s.curIntaval })
    (hdelay : s.delay = (timerAt id r n).delay) (hontimes : s.ontimes = (timerAt id r n).ontimes)
    (hcurIntaval : s.curIntaval = (timerAt id r n).curIntaval) : s = timerAt id r n := by
  rw [hsame, hdelay, hontimes, hcurIntaval]

theorem updateTime_timerAt (h : r.Documented) (n : Nat) :
    (periods r.delay r.intaval (n + 1) = periods r.delay r.intaval n ∧
        (timerAt id r n).updateTime curTimeUnit = (timerAt id r (n + 1), none)) ∨
      (periods r.delay r.intaval (n + 1) = periods r.delay r.intaval n + 1 ∧
        ((timerAt id r n).updateTime curTimeUnit).2 =
          some ⟨id, r.callback, r.target, r.args.head?⟩ ∧
        (Pending r (n + 1) →
          ((timerAt id r n).updateTime curTimeUnit).1 = timerAt id r (n + 1)) ∧
        (¬ Pending r (n + 1) →
          ((timerAt id r n).updateTime curTimeUnit).1.alive = false)) := by
  have hintaval := h.intaval_nonneg
  have hunit := h.intaval_unit
  let d := (r.delay / 100).toNat
  let i := max 1 (r.intaval / 100).toNat
  have hi : 0 < i := by omega
  by_cases hdelay : n < d
  · -- the delay is still running
    have hn : n - d = 0 := by omega
    have hn' : n + 1 - d = 0 := by omega
    have hperiods : periods r.delay r.intaval (n + 1) = periods r.delay r.intaval n := by
      change (n + 1 - d) / i = (n - d) / i
      rw [hn, hn']
    refine Or.inl ⟨hperiods, ?_⟩
    have hpos : 0 < (timerAt id r n).delay := by
      change 0 < (100 * (d - n : Nat) : Int)
      omega
    rw [updateTime_delayed rfl hpos]
    refine congrArg (·, none) (timerAt_of_fields rfl ?_ ?_ ?_)
    · change (100 * (d - n : Nat) : Int) - 100 = 100 * (d - (n + 1) : Nat)
      omega
    · change (periods r.delay r.intaval n : Int) = periods r.delay r.intaval (n + 1)
      rw [hperiods]
    · change r.intaval - 100 * ((n - d) % i : Nat) = r.intaval - 100 * ((n + 1 - d) % i : Nat)
      rw [hn, hn']
  · have hzero : ¬ 0 < (timerAt id r n).delay := by
      change ¬ 0 < (100 * (d - n : Nat) : Int)
      omega
    have hsucc : n + 1 - d = n - d + 1 := by omega
    have hdelay' : (timerAt id r n).delay = (timerAt id r (n + 1)).delay := by
      change (100 * (d - n : Nat) : Int) = 100 * (d - (n + 1) : Nat)
      omega
    rcases div_mod_succ (n - d) hi with ⟨hin, hdiv, hmod⟩ | ⟨hend, hdiv, hmod⟩
    · -- inside an interval, so the interval is at least two ticks long
      have hperiods : periods r.delay r.intaval (n + 1) = periods r.delay r.intaval n := by
        change (n + 1 - d) / i = (n - d) / i
        rw [hsucc, hdiv]
      refine Or.inl ⟨hperiods, ?_⟩
      have hwait : ¬ (timerAt id r n).curIntaval - curTimeUnit ≤ 0 := by
        change ¬ r.intaval - 100 * ((n - d) % i : Nat) - 100 ≤ 0
        omega
      rw [updateTime_waiting rfl hzero hwait]
      refine congrArg (·, none) (timerAt_of_fields rfl hdelay' ?_ ?_)
      · change (periods r.delay r.intaval n : Int) = periods r.delay r.intaval (n + 1)
        rw [hperiods]
      · change r.intaval - 100 * ((n - d) % i : Nat) - 100 =
          r.intaval - 100 * ((n + 1 - d) % i : Nat)
        rw [hsucc, hmod]
        omega
    · have hperiods : periods r.delay r.intaval (n + 1) = periods r.delay r.intaval n + 1 := by
        change (n + 1 - d) / i = (n - d) / i + 1
        rw [hsucc, hdiv]
      have hshot : (timerAt id r n).curIntaval - curTimeUnit ≤ 0 := by
        change r.intaval - 100 * ((n - d) % i : Nat) - 100 ≤ 0
        omega
      have hlast : ((timerAt id r n).times ≠ -1 ∧
          (timerAt id r n).ontimes + 1 ≥ (timerAt id r n).times) ↔ ¬ Pending r (n + 1) := by
        change (r.times ≠ -1 ∧ (periods r.delay r.intaval n : Int) + 1 ≥ r.times) ↔
          ¬ (r.times = -1 ∨ (periods r.delay r.intaval (n + 1) : Int) < r.times)
        rw [hperiods]
        omega
      rw [updateTime_shot rfl hzero hshot]
      refine Or.inr ⟨hperiods, rfl, fun hmore => ?_, fun hdone => if_pos (hlast.mpr hdone)⟩
      rw [if_neg fun h => hlast.mp h hmore]
      refine timerAt_of_fields rfl hdelay' ?_ ?_
      · change (periods r.delay r.intaval n : Int) + 1 = periods r.delay r.intaval (n + 1)
        rw [hperiods]
        rfl
      · change r.intaval = r.intaval - 100 * ((n + 1 - d) % i : Nat)
        rw [hsucc, hmod]
        omega

theorem shots_of_pending {n : Nat} (hpending : Pending r n) :
    shots r.delay r.intaval r.times n = periods r.delay r.intaval n := by
  unfold shots
  by_cases htimes : r.times = -1
  · rw [if_pos htimes]
  · rw [if_neg htimes]
    rcases hpending with h | h
    · exact absurd h htimes
    · omega

theorem shots_of_spent {n : Nat} (hspent : ¬ Pending r n) :
    shots r.delay r.intaval r.times n = r.times.toNat := by
  unfold Pending at hspent
  have htimes : r.times ≠ -1 := fun e => hspent (Or.inl e)
  rw [shots, if_neg htimes]
  omega

theorem periods_le_succ (n : Nat) :
    periods r.delay r.intaval n ≤ periods r.delay r.intaval (n + 1) := by
  unfold periods
  apply Nat.div_le_div_right
  omega

end ClosedForm

/-! ## Runs of one manager -/

/-- The calls and ticks of one manager whose callbacks do not call it; `order` is the order in
which `pairs` visits the table. -/
inductive MgrEvent (κ α : Type) where
  | register (callback : Option κ) (intaval times delay : Int) (target : Option α)
      (args : List α)
  | unregister (name : Nat)
  | update (order : List Nat)

structure History (κ α : Type) where
  mgr : SchedulerMgr κ α
  log : List (Invocation κ α)
  ticks : Nat

section Run
variable {κ α : Type}

def History.start : History κ α := ⟨SchedulerMgr.ctor, [], 0⟩

/-- A call of `register` whose assertion fails leaves the manager as it was. -/
def History.step (s : History κ α) : MgrEvent κ α → Option (History κ α)
  | .register callback intaval times delay target args =>
      match s.mgr.register callback intaval times delay target args with
      | some (m, _, _) => some { s with mgr := m }
      | none => some s
  | .unregister name => some { s with mgr := s.mgr.unregister name }
  | .update order =>
      if order.Perm s.mgr.m_schedulers.keys then
        let updated := s.mgr.update order
        some ⟨updated.1, s.log ++ updated.2.1,
          if s.mgr.m_isRunTime then s.ticks + 1 else s.ticks⟩
      else none

/-- What a step can be, with the history it leads to. -/
inductive HistorySteps (s : History κ α) : MgrEvent κ α → History κ α → Prop
  | refused {callback intaval times delay target args}
      (failed : s.mgr.register callback intaval times delay target args = none) :
      HistorySteps s (.register callback intaval times delay target args) s
  | register {callback intaval times delay target args m d name}
      (added : s.mgr.register callback intaval times delay target args = some (m, d, name)) :
      HistorySteps s (.register callback intaval times delay target args) { s with mgr := m }
  | unregister (name : Nat) :
      HistorySteps s (.unregister name) { s with mgr := s.mgr.unregister name }
  | stopped (order : List Nat) (idle : s.mgr.m_isRunTime = false) :
      HistorySteps s (.update order) s
  | tick (order : List Nat) (running : s.mgr.m_isRunTime = true)
      (perm : order.Perm s.mgr.m_schedulers.keys) :
      HistorySteps s (.update order)
        ⟨(s.mgr.update order).1, s.log ++ (s.mgr.update order).2.1, s.ticks + 1⟩

theorem historySteps_of_step {s s' : History κ α} {e : MgrEvent κ α} (h : s.step e = some s') :
    HistorySteps s e s' := by
  cases e with
  | register callback intaval times delay target args =>
      change (match s.mgr.register callback intaval times delay target args with
        | some (m, _, _) => some { s with mgr := m }
        | none => some s) = some s' at h
      cases hadded : s.mgr.register callback intaval times delay target args with
      | none =>
          rw [hadded] at h
          cases Option.some.inj h
          exact .refused hadded
      | some added =>
          obtain ⟨m, d, name⟩ := added
          rw [hadded] at h
          cases Option.some.inj h
          exact .register hadded
  | unregister name =>
      cases Option.some.inj h
      exact .unregister name
  | update order =>
      change (if order.Perm s.mgr.m_schedulers.keys then
        some (⟨(s.mgr.update order).1, s.log ++ (s.mgr.update order).2.1,
          if s.mgr.m_isRunTime then s.ticks + 1 else s.ticks⟩ : History κ α)
        else none) = some s' at h
      split_ifs at h with hperm hrun
      · cases Option.some.inj h
        exact .tick order hrun hperm
      · have hidle : s.mgr.update order = (s.mgr, [], .keep) := if_neg hrun
        rw [hidle, List.append_nil] at h
        cases Option.some.inj h
        exact .stopped order (Bool.eq_false_iff.mpr hrun)

def Registration.apply (r : Registration κ α) (m : SchedulerMgr κ α) :
    Option (SchedulerMgr κ α × Drive × Nat) :=
  m.register (some r.callback) r.intaval r.times r.delay r.target r.args

def Registration.invocation (r : Registration κ α) (id : Nat) : Invocation κ α :=
  ⟨id, r.callback, r.target, r.args.head?⟩

/-- The timer `id`, registered by `r`, after `n` ticks. -/
structure Tracked (id : Nat) (r : Registration κ α) (n : Nat) (s : History κ α) : Prop where
  indexed : s.mgr.Indexed
  handedOut : id ≤ s.mgr.m_idBase
  invoked : invokedBy id s.log =
    List.replicate (shots r.delay r.intaval r.times n) (r.invocation id)
  live : Pending r n → s.mgr.m_schedulers.lookup id = some (timerAt id r n)
  spent : ¬ Pending r n → ∀ t, s.mgr.m_schedulers.lookup id = some t → t.alive = false

variable {id : Nat} {r : Registration κ α}

theorem tracked_update (h : r.Documented) {n : Nat} {s : History κ α}
    (ht : Tracked id r n s) (hrun : s.mgr.m_isRunTime = true) {order : List Nat}
    (horder : order.Perm s.mgr.m_schedulers.keys) (ticks : Nat) :
    Tracked id r (n + 1)
      ⟨(s.mgr.update order).1, s.log ++ (s.mgr.update order).2.1, ticks⟩ := by
  have hticked := update_ticked ht.indexed hrun horder id
  have hinvoked : invokedBy id (s.log ++ (s.mgr.update order).2.1) =
      List.replicate (shots r.delay r.intaval r.times n) (r.invocation id) ++
        ((s.mgr.m_schedulers.lookup id).bind fun t =>
          (t.updateTime curTimeUnit).2).toList := by
    rw [invokedBy_append, ht.invoked, hticked.invoked]
  have hhandedOut : id ≤ (s.mgr.update order).1.m_idBase := by
    rw [hticked.idBase]
    exact ht.handedOut
  have hmono := periods_le_succ r n
  by_cases hpending : Pending r n
  · have hlookup := ht.live hpending
    rw [hlookup, Option.bind_some, shots_of_pending r hpending] at hinvoked
    rcases updateTime_timerAt id r h n with ⟨hsame, htick⟩ | ⟨hone, hshot, hmore, hlast⟩
    · have hpending' : Pending r (n + 1) := by
        unfold Pending at hpending ⊢
        rwa [hsame]
      rw [htick, Option.toList_none, List.append_nil] at hinvoked
      refine ⟨hticked.indexed, hhandedOut, ?_, fun _ => ?_, fun hspent => absurd hpending' hspent⟩
      · rw [hinvoked, shots_of_pending r hpending', hsame]
      · rw [hticked.live _ hlookup (by rw [htick]; rfl), htick]
    · have hshots : shots r.delay r.intaval r.times (n + 1) =
          periods r.delay r.intaval n + 1 := by
        by_cases hpending' : Pending r (n + 1)
        · rw [shots_of_pending r hpending', hone]
        · rw [shots_of_spent r hpending']
          unfold Pending at hpending hpending'
          omega
      rw [hshot, Option.toList_some] at hinvoked
      refine ⟨hticked.indexed, hhandedOut, ?_, fun hpending' => ?_, fun hspent => ?_⟩
      · rw [hinvoked, hshots, List.replicate_succ']
        rfl
      · rw [hticked.live _ hlookup (by rw [hmore hpending']; rfl), hmore hpending']
      · apply hticked.dead
        intro t ht'
        cases hlookup.symm.trans ht'
        exact hlast hspent
  · have hspent' : ¬ Pending r (n + 1) := by
      unfold Pending at hpending ⊢
      omega
    have hidle : ((s.mgr.m_schedulers.lookup id).bind fun t =>
        (t.updateTime curTimeUnit).2) = none := by
      cases hlookup : s.mgr.m_schedulers.lookup id with
      | none => rfl
      | some t => rw [Option.bind_some, updateTime_of_dead (ht.spent hpending t hlookup)]
    rw [hidle, Option.toList_none, List.append_nil, shots_of_spent r hpending] at hinvoked
    refine ⟨hticked.indexed, hhandedOut, ?_, fun hpending' => absurd hpending' hspent',
      fun _ => ?_⟩
    · rw [hinvoked, shots_of_spent r hspent']
    · apply hticked.dead
      intro t ht'
      rw [updateTime_of_dead (ht.spent hpending t ht')]
      exact ht.spent hpending t ht'

theorem tracked_step (h : r.Documented) {n : Nat} {s s' : History κ α} (ht : Tracked id r n s)
    {e : MgrEvent κ α} (hkept : e ≠ .unregister id) (hstep : s.step e = some s') :
    ∃ k, s'.ticks = s.ticks + k ∧ Tracked id r (n + k) s' := by
  cases historySteps_of_step hstep with
  | refused _ => exact ⟨0, rfl, ht⟩
  | register hregister =>
      obtain ⟨hadded, _⟩ := ht.indexed.added hregister
      have hhandedOut := ht.handedOut
      have hid_eq := hadded.id_eq
      have hlookup := hadded.others id (by omega)
      refine ⟨0, rfl, hadded.indexed, ?_, ht.invoked, fun hpending => ?_, fun hspent t ht' => ?_⟩
      · dsimp only
        rw [hadded.idBase]
        omega
      · exact hlookup.trans (ht.live hpending)
      · exact ht.spent hspent t (hlookup.symm.trans ht')
  | unregister name =>
      have hne : id ≠ name := fun e => hkept (e ▸ rfl)
      have hlookup := unregister_lookup_ne s.mgr hne
      have hbase := unregister_idBase s.mgr name
      refine ⟨0, rfl, ht.indexed.unregister name, ?_, ht.invoked, fun hpending => ?_,
        fun hspent t ht' => ?_⟩
      · exact hbase.symm ▸ ht.handedOut
      · exact hlookup.trans (ht.live hpending)
      · exact ht.spent hspent t (hlookup.symm.trans ht')
  | stopped order _ => exact ⟨0, rfl, ht⟩
  | tick order hrun horder => exact ⟨1, rfl, tracked_update h ht hrun horder _⟩

theorem tracked_run (h : r.Documented) : ∀ (events : List (MgrEvent κ α)) (n : Nat)
    (s t : History κ α), Tracked id r n s → MgrEvent.unregister id ∉ events →
    run History.step s events = some t →
    ∃ k, t.ticks = s.ticks + k ∧ Tracked id r (n + k) t := by
  intro events
  induction events with
  | nil =>
      intro n s t ht _ hrun
      cases Option.some.inj hrun
      exact ⟨0, rfl, ht⟩
  | cons e events ih =>
      intro n s t ht hkept hrun
      obtain ⟨s', hstep, hrest⟩ := (run_cons_eq_some History.step s t e events).mp hrun
      have hne : e ≠ .unregister id := fun he => hkept (he ▸ List.mem_cons_self ..)
      obtain ⟨k, hticks, htracked⟩ := tracked_step h ht hne hstep
      obtain ⟨l, hticks', htracked'⟩ :=
        ih (n + k) s' t htracked (fun hmem => hkept (List.mem_cons_of_mem _ hmem)) hrest
      exact ⟨k + l, by omega, by rwa [← Nat.add_assoc]⟩

/-! ## Before the registration -/

structure Recorded (s : History κ α) : Prop where
  indexed : s.mgr.Indexed
  log : ∀ i ∈ s.log, i.name ≤ s.mgr.m_idBase

theorem recorded_start : Recorded (History.start : History κ α) :=
  ⟨indexed_ctor, fun _ h => absurd h List.not_mem_nil⟩

theorem update_invoked_le {m : SchedulerMgr κ α} (h : m.Indexed) (hrun : m.m_isRunTime = true)
    {order : List Nat} (horder : order.Perm m.m_schedulers.keys) :
    ∀ i ∈ (m.update order).2.1, i.name ≤ m.m_idBase := by
  intro i hi
  obtain ⟨t, ht, _⟩ := update_invoked_origin h hrun horder hi
  exact h.le_idBase i.name (AList.lookup_isSome.mp (by rw [ht]; rfl))

theorem recorded_step {s s' : History κ α} (h : Recorded s) {e : MgrEvent κ α}
    (hstep : s.step e = some s') : Recorded s' := by
  cases historySteps_of_step hstep with
  | refused _ => exact h
  | register hregister =>
      obtain ⟨hadded, _⟩ := h.indexed.added hregister
      refine ⟨hadded.indexed, fun i hi => ?_⟩
      have hle := h.log i hi
      have hid_eq := hadded.id_eq
      dsimp only
      rw [hadded.idBase]
      omega
  | unregister name =>
      refine ⟨h.indexed.unregister name, fun i hi => ?_⟩
      exact (unregister_idBase s.mgr name).symm ▸ h.log i hi
  | stopped order _ => exact h
  | tick order hrun horder =>
      have hticked := update_ticked h.indexed hrun horder 0
      refine ⟨hticked.indexed, fun i hi => ?_⟩
      dsimp only
      rw [hticked.idBase]
      rcases List.mem_append.mp hi with hi | hi
      · exact h.log i hi
      · exact update_invoked_le h.indexed hrun horder i hi

theorem tracked_start (hr : r.Documented) {s : History κ α} (h : Recorded s)
    {m : SchedulerMgr κ α} {d : Drive} (hregister : r.apply s.mgr = some (m, d, id)) :
    Tracked id r 0 { s with mgr := m } := by
  obtain ⟨hadded, _⟩ := h.indexed.added hregister
  have hzero : periods r.delay r.intaval 0 = 0 := by
    unfold periods
    rw [Nat.zero_sub, Nat.zero_div]
  have hpending : Pending r 0 := by
    have htimes := hr.times
    unfold Pending
    rw [hzero]
    omega
  have hunused : invokedBy id s.log = [] := by
    apply List.filter_eq_nil_iff.mpr
    intro i hi hname
    have hle := h.log i hi
    have hid_eq := hadded.id_eq
    have hid : i.name = id := of_decide_eq_true hname
    omega
  refine ⟨hadded.indexed, ?_, ?_, fun _ => ?_, fun hspent => absurd hpending hspent⟩
  · change id ≤ m.m_idBase
    rw [hadded.idBase]
  · rw [shots_of_pending r hpending, hzero]
    exact hunused
  · rw [timerAt_zero id r hr]
    exact hadded.lookup

/-- A timer registered in any reachable state has, `n` ticks later and unless it is cancelled,
invoked its callback as often as the closed form says, whatever happens to the other timers. -/
theorem callback_invoked_on_schedule (before after : List (MgrEvent κ α)) (s t : History κ α)
    (r : Registration κ α) (m : SchedulerMgr κ α) (d : Drive) (id : Nat)
    (hr : r.Documented)
    (hbefore : run History.step History.start before = some s)
    (hregister : r.apply s.mgr = some (m, d, id))
    (hkept : MgrEvent.unregister id ∉ after)
    (hafter : run History.step { s with mgr := m } after = some t) :
    invokedBy id t.log =
      List.replicate (shots r.delay r.intaval r.times (t.ticks - s.ticks)) (r.invocation id) := by
  have hrecorded : Recorded s :=
    run_invariant History.step (fun _ _ => True) Recorded (fun _ _ _ h _ => recorded_step h)
      before History.start s recorded_start (along_true History.step before _) hbefore
  obtain ⟨k, hticks, htracked⟩ := tracked_run hr after 0 _ t
    (tracked_start hr hrecorded hregister) hkept hafter
  have hk : t.ticks - s.ticks = 0 + k := by
    change t.ticks = s.ticks + k at hticks
    omega
  rw [hk]
  exact htracked.invoked

end Run

def blinker : Registration Unit Unit := ⟨(), 200, 2, 100, none, []⟩

def blinkerMgr : SchedulerMgr Unit Unit where
  m_schedulers := AList.insert 1 (Scheduler.updateSet 1 (some ()) 200 2 100 none []) ∅
  m_isRunTime := true
  m_idBase := 1

/-- Five ticks: one of delay, then a shot every second tick. -/
theorem blinker_invoked_on_schedule :
    ∃ t, run History.step { (History.start : History Unit Unit) with mgr := blinkerMgr }
        (List.replicate 5 (.update [1])) = some t ∧
      invokedBy 1 t.log = List.replicate 2 ⟨1, (), none, none⟩ := by
  have hdocumented : blinker.Documented :=
    ⟨by decide, by decide, by decide, by decide, by decide⟩
  have hkept : MgrEvent.unregister 1 ∉
      List.replicate 5 (MgrEvent.update [1] : MgrEvent Unit Unit) := by
    intro h
    cases List.eq_of_mem_replicate h
  refine ⟨_, rfl, ?_⟩
  exact callback_invoked_on_schedule [] (List.replicate 5 (.update [1])) History.start _ blinker
    blinkerMgr .start 1 hdocumented rfl rfl hkept rfl

end Doudizhu.Timer
