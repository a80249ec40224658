import Doudizhu.Game.GameRound
import Doudizhu.Timer.Firing

/-! # The turn clock

`start_game_timer` registers `game_timer_callback` with an interval, a number of times and a delay
of 0.  To the manager that is a timer that has no shot left after its first: it shoots at the
first tick, dies there and is swept away, whatever keeps the manager ticking.  The round's own
countdown would pass the turn every eighth call, but it gets one call only. -/

set_option autoImplicit false

namespace Doudizhu.Game

open Lua Runs Timer Timer.Scheduler Timer.SchedulerMgr

/-- The callbacks of the manager: the round's and those of others. -/
inductive Job (κ : Type) where
  | gameTimerCallback
  | other (callback : κ)

/-- One round and its timer manager; `called` counts the calls of `game_timer_callback`. -/
structure Table (φ κ : Type) where
  mgr : SchedulerMgr (Job κ) Unit
  round : GameRound φ
  called : Nat

/-- The timers of others do not call the manager; `order` is the order of `pairs` in a tick. -/
inductive TableEvent (φ κ : Type) where
  | startGameTimer
  | stopGameTimer
  | setActIndex (actIndex : Value φ)
  | request (actData : ActData φ)
  | register (callback : Option κ) (intaval times delay : Int) (target : Option Unit)
      (args : List Unit)
  | unregister (name : Nat)
  | update (order : List Nat)

namespace Table
variable {φ κ : Type}

def start : Table φ κ := ⟨SchedulerMgr.ctor, GameRound.init, 0⟩

def stopGameTimer (s : Table φ κ) : Table φ κ :=
  { s with
    round := s.round.stopGameTimer.1
    mgr := s.round.stopGameTimer.2.elim s.mgr s.mgr.unregister }

/-- `none` if the assertion in `register` fails; `self` is the only round. -/
def startGameTimer (s : Table φ κ) : Option (Table φ κ) :=
  let s := if s.round.m_timerGame.isSome then s.stopGameTimer else s
  (s.mgr.register (some .gameTimerCallback) 0 0 0 (some ()) []).map fun added =>
    { s with mgr := added.1, round := { s.round with m_timerGame := some added.2.2 } }

/-! ## The round's timer -/

/-- A live timer of the round is the one that the round holds. -/
structure Sole (s : Table φ κ) : Prop where
  indexed : s.mgr.Indexed
  sole : ∀ id t, s.mgr.m_schedulers.lookup id = some t → t.callback = some .gameTimerCallback →
    t.alive = true → s.round.m_timerGame = some id

def roundTimer (name : Nat) : Scheduler (Job κ) Unit :=
  Scheduler.updateSet name (some .gameTimerCallback) 0 0 0 (some ()) []

theorem updateTime_roundTimer (name : Nat) :
    (roundTimer name : Scheduler (Job κ) Unit).updateTime curTimeUnit =
      ({ (roundTimer name) with ontimes := 1, alive := false },
        some ⟨name, .gameTimerCallback, some (), none⟩) := rfl

structure Armed (name : Nat) (s : Table φ κ) : Prop where
  sole : Sole s
  running : s.mgr.m_isRunTime = true
  handle : s.round.m_timerGame = some name
  timer : s.mgr.m_schedulers.lookup name = some (roundTimer name)

structure Spent (s : Table φ κ) : Prop where
  indexed : s.mgr.Indexed
  dead : ∀ id t, s.mgr.m_schedulers.lookup id = some t →
    t.callback = some .gameTimerCallback → t.alive = false

theorem sole_start : Sole (start : Table φ κ) where
  indexed := indexed_ctor
  sole id t ht := absurd (ht.symm.trans (AList.lookup_empty id)) (Option.some_ne_none t)

theorem sole_of_spent {s : Table φ κ} (h : Spent s) : Sole s where
  indexed := h.indexed
  sole id t ht hgame halive := by
    rw [h.dead id t ht hgame] at halive
    exact absurd halive Bool.false_ne_true

theorem spent_of_none {s : Table φ κ} (h : Sole s) (hnone : s.round.m_timerGame = none) :
    Spent s where
  indexed := h.indexed
  dead id t ht hgame := by
    by_contra halive
    have hheld := h.sole id t ht hgame (Bool.not_eq_false _ ▸ halive)
    exact Option.some_ne_none id (hheld.symm.trans hnone)

theorem stopGameTimer_spent {s : Table φ κ} (h : Sole s) : Spent s.stopGameTimer := by
  cases hheld : s.round.m_timerGame with
  | none =>
      have hspent := spent_of_none h hheld
      have hmgr : s.stopGameTimer.mgr = s.mgr := by
        simp [stopGameTimer, GameRound.stopGameTimer, hheld]
      exact ⟨hmgr ▸ hspent.indexed, hmgr ▸ hspent.dead⟩
  | some name =>
      have hmgr : s.stopGameTimer.mgr = s.mgr.unregister name := by
        simp [stopGameTimer, GameRound.stopGameTimer, hheld]
      refine ⟨hmgr ▸ h.indexed.unregister name, fun id t' ht' hgame => ?_⟩
      rw [hmgr] at ht'
      obtain ⟨t, ht, hsame | hkilled⟩ := unregister_origin ht'
      · by_contra halive
        subst hsame
        have hname := h.sole id t' ht hgame (Bool.not_eq_false _ ▸ halive)
        cases Option.some.inj (hname.symm.trans hheld)
        rw [unregister_lookup, ht] at ht'
        rw [← Option.some.inj ht'] at halive
        exact halive rfl
      · rw [hkilled]
        rfl

theorem armed_of_register {s : Table φ κ} (h : Spent s) {m : SchedulerMgr (Job κ) Unit} {d : Drive}
    {name : Nat}
    (hadded : s.mgr.register (some .gameTimerCallback) 0 0 0 (some ()) [] = some (m, d, name))
    (r : GameRound φ) (hr : r.m_timerGame = some name) (called : Nat) :
    Armed name (⟨m, r, called⟩ : Table φ κ) := by
  obtain ⟨hadd, _⟩ := h.indexed.added hadded
  refine ⟨⟨hadd.indexed, fun id t ht hgame halive => ?_⟩, hadd.running, hr, hadd.lookup⟩
  by_cases hid : id = name
  · subst hid
    exact hr
  · change m.m_schedulers.lookup id = some t at ht
    rw [hadd.others id hid] at ht
    rw [h.dead id t ht hgame] at halive
    exact absurd halive Bool.false_ne_true

theorem startGameTimer_armed {s s' : Table φ κ} (h : Sole s) (hstart : s.startGameTimer = some s') :
    ∃ name, Armed name s' ∧ s'.round = { s.round with m_timerGame := some name } ∧
      s'.called = s.called := by
  let u := if s.round.m_timerGame.isSome then s.stopGameTimer else s
  have hu : Spent u := by
    change Spent (if s.round.m_timerGame.isSome then s.stopGameTimer else s)
    split_ifs with hheld
    · exact stopGameTimer_spent h
    · exact spent_of_none h (Option.not_isSome_iff_eq_none.mp hheld)
  have hround : ∀ name : Nat, ({ u.round with m_timerGame := some name } : GameRound φ) =
      { s.round with m_timerGame := some name } := by
    intro name
    change ({ (if s.round.m_timerGame.isSome then s.stopGameTimer else s).round with
      m_timerGame := some name } : GameRound φ) = _
    split_ifs <;> rfl
  have hcalled : u.called = s.called := by
    change (if s.round.m_timerGame.isSome then s.stopGameTimer else s).called = _
    split_ifs <;> rfl
  obtain ⟨⟨m, d, name⟩, hadded, rfl⟩ := Option.map_eq_some_iff.mp hstart
  exact ⟨name, armed_of_register hu hadded _ rfl _, hround name, hcalled⟩

/-- What `register` by others and `unregister` leave to the round's timers. -/
theorem register_origin {m : SchedulerMgr (Job κ) Unit} (h : m.Indexed) (callback : Option κ)
    (intaval times delay : Int) (target : Option Unit) (args : List Unit) :
    let m' := ((m.register (callback.map .other) intaval times delay target args).map
      Prod.fst).getD m
    m'.Indexed ∧ (m.m_isRunTime = true → m'.m_isRunTime = true) ∧
      (∀ id t, m.m_schedulers.lookup id = some t → m'.m_schedulers.lookup id = some t) ∧
      ∀ id t, m'.m_schedulers.lookup id = some t → t.callback = some .gameTimerCallback →
        m.m_schedulers.lookup id = some t := by
  intro m'
  cases hadded : m.register (callback.map Job.other) intaval times delay target args with
  | none =>
      have hsame : m' = m := by simp only [m', hadded, Option.map_none, Option.getD_none]
      rw [hsame]
      exact ⟨h, id, fun _ _ ht => ht, fun _ _ ht _ => ht⟩
  | some added =>
      obtain ⟨m₁, d, name⟩ := added
      have hnew : m' = m₁ := by simp only [m', hadded, Option.map_some, Option.getD_some]
      obtain ⟨hadd, _⟩ := h.added hadded
      have hfresh : ∀ id, id ∈ m.m_schedulers → id ≠ name := by
        intro id hid
        have hle := h.le_idBase id hid
        have hnext := hadd.id_eq
        omega
      rw [hnew]
      refine ⟨hadd.indexed, fun _ => hadd.running, fun id t ht => ?_, fun id t ht hgame => ?_⟩
      · have hid : id ∈ m.m_schedulers := AList.lookup_isSome.mp (by rw [ht]; rfl)
        rw [hadd.others id (hfresh id hid)]
        exact ht
      · by_cases hid : id = name
        · subst hid
          cases Option.some.inj (hadd.lookup.symm.trans ht)
          obtain ⟨_, _, hother⟩ := Option.map_eq_some_iff.mp hgame
          cases hother
        · rw [hadd.others id hid] at ht
          exact ht

/-! ## Events -/

variable [LuaCompare φ]

/-- The callback of the round unregisters nothing (`gameTimerCallback_quiet`). -/
def call (s : Table φ κ) (i : Invocation (Job κ) Unit) : Table φ κ :=
  match i.callback with
  | .gameTimerCallback =>
      { s with round := s.round.gameTimerCallback.1, called := s.called + 1 }
  | .other _ => s

def update (s : Table φ κ) (order : List Nat) : Option (Table φ κ) :=
  if order.Perm s.mgr.m_schedulers.keys then
    some ((s.mgr.update order).2.1.foldl call { s with mgr := (s.mgr.update order).1 })
  else none

def step (s : Table φ κ) : TableEvent φ κ → Option (Table φ κ)
  | .startGameTimer => s.startGameTimer
  | .stopGameTimer => some s.stopGameTimer
  | .setActIndex actIndex => some { s with round := s.round.setActIndex actIndex }
  | .request actData => some { s with round := (s.round.dealActRequest actData).1 }
  | .register callback intaval times delay target args =>
      some { s with
        mgr := ((s.mgr.register (callback.map .other) intaval times delay target args).map
          Prod.fst).getD s.mgr }
  | .unregister name => some { s with mgr := s.mgr.unregister name }
  | .update order => s.update order

/-! ## The calls of one tick -/

def isGame (i : Invocation (Job κ) Unit) : Bool :=
  match i.callback with
  | .gameTimerCallback => true
  | .other _ => false

theorem isGame_iff {i : Invocation (Job κ) Unit} :
    isGame i = true ↔ i.callback = .gameTimerCallback := by
  unfold isGame
  cases i.callback <;> simp

/-- The callbacks of a tick call the round once for each of its shots. -/
theorem foldl_call (log : List (Invocation (Job κ) Unit)) (s : Table φ κ) :
    log.foldl call s =
      { s with
        round := (fun r : GameRound φ => r.gameTimerCallback.1)^[log.countP isGame] s.round
        called := s.called + log.countP isGame } := by
  induction log generalizing s with
  | nil => rfl
  | cons i log ih =>
      rw [List.foldl_cons, ih]
      cases hcallback : i.callback with
      | gameTimerCallback =>
          have hgame : isGame i = true := isGame_iff.mpr hcallback
          simp only [call, hcallback, List.countP_cons_of_pos hgame, Function.iterate_succ_apply]
          simp only [Table.mk.injEq, true_and]
          omega
      | other callback =>
          have hgame : ¬ isGame i = true := by simp [isGame_iff, hcallback]
          simp only [call, hcallback, List.countP_cons_of_neg hgame]

/-! ## One event -/

/-- What a tick of a running manager does, seen by the round's timers. -/
theorem tick_round {m : SchedulerMgr (Job κ) Unit} (h : m.Indexed) (hrun : m.m_isRunTime = true)
    {order : List Nat} (horder : order.Perm m.m_schedulers.keys) {i : Invocation (Job κ) Unit}
    (hi : i ∈ (m.update order).2.1) (hgame : isGame i = true) :
    ∃ t, m.m_schedulers.lookup i.name = some t ∧ t.alive = true ∧
      t.callback = some .gameTimerCallback := by
  obtain ⟨t, ht, halive, hcallback⟩ := update_invoked_origin h hrun horder hi
  exact ⟨t, ht, halive, by rw [hcallback, isGame_iff.mp hgame]⟩

/-- A timer of the round that is alive after a tick was alive before it. -/
theorem tick_alive {m : SchedulerMgr (Job κ) Unit} (h : m.Indexed) (hrun : m.m_isRunTime = true)
    {order : List Nat} (horder : order.Perm m.m_schedulers.keys) {id : Nat}
    {t' : Scheduler (Job κ) Unit} (ht' : (m.update order).1.m_schedulers.lookup id = some t')
    (hgame : t'.callback = some .gameTimerCallback) (halive : t'.alive = true) :
    ∃ t, m.m_schedulers.lookup id = some t ∧ t' = (t.updateTime curTimeUnit).1 ∧
      t.callback = some .gameTimerCallback ∧ t.alive = true := by
  obtain ⟨t, ht, rfl⟩ := (update_ticked h hrun horder id).origin ht' halive
  exact ⟨t, ht, rfl, by rw [← updateTime_callback t curTimeUnit, hgame], alive_of_updateTime halive⟩

theorem update_eq {s s' : Table φ κ} {order : List Nat} (h : s.update order = some s') :
    order.Perm s.mgr.m_schedulers.keys ∧
      s' = ⟨(s.mgr.update order).1,
        (fun r : GameRound φ => r.gameTimerCallback.1)^[(s.mgr.update order).2.1.countP isGame]
          s.round,
        s.called + (s.mgr.update order).2.1.countP isGame⟩ := by
  unfold update at h
  split_ifs at h with horder
  refine ⟨horder, ?_⟩
  rw [← Option.some.inj h, foldl_call]

theorem update_armed {name : Nat} {s s' : Table φ κ} (h : Armed name s) {order : List Nat}
    (hupdate : s.update order = some s') :
    Spent s' ∧ s'.round = s.round.gameTimerCallback.1 ∧ s'.called = s.called + 1 := by
  obtain ⟨horder, rfl⟩ := update_eq hupdate
  have hindexed := h.sole.indexed
  have hticked := update_ticked hindexed h.running horder name
  have hgame : ∀ i ∈ (s.mgr.update order).2.1, isGame i = true ↔ i.name = name := by
    intro i hi
    obtain ⟨t, ht, halive, hcallback⟩ := update_invoked_origin hindexed h.running horder hi
    rw [isGame_iff]
    constructor
    · intro hgame
      have hheld := h.sole.sole i.name t ht (by rw [hcallback, hgame]) halive
      exact Option.some.inj (hheld.symm.trans h.handle)
    · intro hname
      rw [hname, h.timer] at ht
      cases Option.some.inj ht
      exact (Option.some.inj hcallback).symm
  have hone : (s.mgr.update order).2.1.countP isGame = 1 := by
    have hcount : (s.mgr.update order).2.1.countP isGame =
        (invokedBy name (s.mgr.update order).2.1).length := by
      rw [invokedBy, ← List.countP_eq_length_filter]
      refine List.countP_congr fun i hi => ?_
      rw [hgame i hi, decide_eq_true_iff]
    rw [hcount, hticked.invoked, h.timer, Option.bind_some, updateTime_roundTimer]
    rfl
  refine ⟨⟨hticked.indexed, fun id t' ht' hcallback => ?_⟩, ?_, ?_⟩
  · by_contra halive
    obtain ⟨t, ht, rfl, htgame, htalive⟩ := tick_alive hindexed h.running horder ht' hcallback
      (Bool.not_eq_false _ ▸ halive)
    cases Option.some.inj (h.handle.symm.trans (h.sole.sole id t ht htgame htalive))
    cases Option.some.inj (h.timer.symm.trans ht)
    rw [updateTime_roundTimer] at halive
    exact halive rfl
  · rw [hone]
    rfl
  · rw [hone]

theorem update_spent {s s' : Table φ κ} (h : Spent s) {order : List Nat}
    (hupdate : s.update order = some s') :
    Spent s' ∧ s'.round = s.round ∧ s'.called = s.called := by
  obtain ⟨horder, rfl⟩ := update_eq hupdate
  by_cases hrun : s.mgr.m_isRunTime = true
  · have hnone : (s.mgr.update order).2.1.countP isGame = 0 := by
      rw [List.countP_eq_zero]
      intro i hi hgame
      obtain ⟨t, ht, halive, hcallback⟩ := tick_round h.indexed hrun horder hi hgame
      rw [h.dead _ t ht hcallback] at halive
      exact Bool.false_ne_true halive
    have hindexed := (update_ticked h.indexed hrun horder 0).indexed
    refine ⟨⟨hindexed, fun id t' ht' hcallback => ?_⟩, ?_, ?_⟩
    · by_contra halive
      obtain ⟨t, ht, _, htgame, htalive⟩ := tick_alive h.indexed hrun horder ht' hcallback
        (Bool.not_eq_false _ ▸ halive)
      rw [h.dead id t ht htgame] at htalive
      exact Bool.false_ne_true htalive
    · rw [hnone]
      rfl
    · rw [hnone]
      rfl
  · have hidle : s.mgr.update order = (s.mgr, [], .keep) := if_neg hrun
    rw [hidle]
    exact ⟨h, rfl, rfl⟩

theorem update_sole {s s' : Table φ κ} (h : Sole s) {order : List Nat}
    (hupdate : s.update order = some s') : Sole s' := by
  obtain ⟨horder, rfl⟩ := update_eq hupdate
  by_cases hrun : s.mgr.m_isRunTime = true
  · refine ⟨(update_ticked h.indexed hrun horder 0).indexed, fun id t' ht' hgame halive => ?_⟩
    obtain ⟨t, ht, _, htgame, htalive⟩ := tick_alive h.indexed hrun horder ht' hgame halive
    exact (GameRound.callbacks_timerGame s.round _).trans (h.sole id t ht htgame htalive)
  · have hidle : s.mgr.update order = (s.mgr, [], .keep) := if_neg hrun
    rw [hidle]
    exact ⟨h.indexed, h.sole⟩

theorem sole_step {s s' : Table φ κ} {e : TableEvent φ κ} (h : Sole s)
    (hstep : s.step e = some s') : Sole s' := by
  cases e with
  | startGameTimer =>
      obtain ⟨name, harmed, _⟩ := startGameTimer_armed h hstep
      exact harmed.sole
  | stopGameTimer =>
      cases Option.some.inj hstep
      exact sole_of_spent (stopGameTimer_spent h)
  | setActIndex actIndex =>
      cases Option.some.inj hstep
      refine ⟨h.indexed, fun id t ht hgame halive => ?_⟩
      exact (GameRound.setActIndex_timerGame s.round actIndex).trans (h.sole id t ht hgame halive)
  | request actData =>
      cases Option.some.inj hstep
      exact ⟨h.indexed, h.sole⟩
  | register callback intaval times delay target args =>
      cases Option.some.inj hstep
      obtain ⟨hindexed, _, _, horigin⟩ :=
        register_origin h.indexed callback intaval times delay target args
      exact ⟨hindexed, fun id t ht hgame => h.sole id t (horigin id t ht hgame) hgame⟩
  | unregister name =>
      cases Option.some.inj hstep
      refine ⟨h.indexed.unregister name, fun id t' ht' hgame halive => ?_⟩
      obtain ⟨t, ht, rfl | rfl⟩ := unregister_origin ht'
      · exact h.sole id t' ht hgame halive
      · exact absurd halive Bool.false_ne_true
  | update order => exact update_sole h hstep

/-! ## Idle players -/

/-- Nobody stops the clock or sets the turn; requests may come. -/
def Idle (name : Nat) : TableEvent φ κ → Prop
  | .register .. | .update _ | .request _ => True
  | .unregister id => id ≠ name
  | .startGameTimer | .stopGameTimer | .setActIndex _ => False

def isUpdate : TableEvent φ κ → Bool
  | .update _ => true
  | _ => false

/-- The state after `n` ticks since the start of the clock at `s₁`. -/
structure Clock (name : Nat) (s₁ : Table φ κ) (n : Nat) (s : Table φ κ) : Prop where
  armed : n = 0 → Armed name s ∧ s.round = s₁.round ∧ s.called = s₁.called
  spent : n ≠ 0 →
    Spent s ∧ s.round = s₁.round.gameTimerCallback.1 ∧ s.called = s₁.called + 1

theorem armed_step {name : Nat} {s s' : Table φ κ} {e : TableEvent φ κ} (h : Armed name s)
    (hidle : Idle name e) (htick : isUpdate e = false) (hstep : s.step e = some s') :
    Armed name s' ∧ s'.round = s.round ∧ s'.called = s.called := by
  have hsole := sole_step h.sole hstep
  cases e with
  | register callback intaval times delay target args =>
      cases Option.some.inj hstep
      obtain ⟨_, hrun, hkept, _⟩ :=
        register_origin h.sole.indexed callback intaval times delay target args
      exact ⟨⟨hsole, hrun h.running, h.handle, hkept name _ h.timer⟩, rfl, rfl⟩
  | unregister id =>
      cases Option.some.inj hstep
      refine ⟨⟨hsole, ?_, h.handle, ?_⟩, rfl, rfl⟩
      · exact (unregister_isRunTime s.mgr id).trans h.running
      · exact (unregister_lookup_ne s.mgr (Ne.symm hidle)).trans h.timer
  | request actData =>
      cases Option.some.inj hstep
      exact ⟨⟨hsole, h.running, h.handle, h.timer⟩, rfl, rfl⟩
  | update order => exact absurd htick Bool.noConfusion
  | startGameTimer => exact hidle.elim
  | stopGameTimer => exact hidle.elim
  | setActIndex actIndex => exact hidle.elim

theorem spent_step {name : Nat} {s s' : Table φ κ} {e : TableEvent φ κ} (h : Spent s)
    (hidle : Idle name e) (hstep : s.step e = some s') :
    Spent s' ∧ s'.round = s.round ∧ s'.called = s.called := by
  cases e with
  | register callback intaval times delay target args =>
      cases Option.some.inj hstep
      obtain ⟨hindexed, _, _, horigin⟩ :=
        register_origin h.indexed callback intaval times delay target args
      exact ⟨⟨hindexed, fun id t ht hgame => h.dead id t (horigin id t ht hgame) hgame⟩, rfl, rfl⟩
  | unregister id =>
      cases Option.some.inj hstep
      refine ⟨⟨h.indexed.unregister id, fun other t' ht' hgame => ?_⟩, rfl, rfl⟩
      obtain ⟨t, ht, rfl | rfl⟩ := unregister_origin ht'
      · exact h.dead other t' ht hgame
      · rfl
  | request actData =>
      cases Option.some.inj hstep
      exact ⟨⟨h.indexed, h.dead⟩, rfl, rfl⟩
  | update order => exact update_spent h hstep
  | startGameTimer => exact hidle.elim
  | stopGameTimer => exact hidle.elim
  | setActIndex actIndex => exact hidle.elim

theorem clock_step {name n : Nat} {s₁ s s' : Table φ κ} {e : TableEvent φ κ}
    (h : Clock name s₁ n s) (hidle : Idle name e) (hstep : s.step e = some s') :
    Clock name s₁ (n + if isUpdate e then 1 else 0) s' := by
  by_cases hn : n = 0
  · obtain ⟨harmed, hround, hcalled⟩ := h.armed hn
    by_cases htick : isUpdate e = true
    · cases e with
      | update order =>
          obtain ⟨hspent, hround', hcalled'⟩ := update_armed harmed hstep
          refine ⟨fun hzero => absurd hzero (Nat.succ_ne_zero n), fun _ => ⟨hspent, ?_, ?_⟩⟩
          · rw [hround', hround]
          · rw [hcalled', hcalled]
      | _ => exact absurd htick Bool.false_ne_true
    · obtain ⟨harmed', hround', hcalled'⟩ :=
        armed_step harmed hidle (Bool.eq_false_iff.mpr htick) hstep
      rw [if_neg htick]
      exact ⟨fun _ => ⟨harmed', hround'.trans hround, hcalled'.trans hcalled⟩,
        fun hne => absurd hn hne⟩
  · obtain ⟨hspent, hround, hcalled⟩ := h.spent hn
    obtain ⟨hspent', hround', hcalled'⟩ := spent_step hspent hidle hstep
    refine ⟨fun hzero => absurd hzero ?_, fun _ =>
      ⟨hspent', hround'.trans hround, hcalled'.trans hcalled⟩⟩
    omega

theorem clock_run {name : Nat} {s₁ : Table φ κ} : ∀ (es : List (TableEvent φ κ)) (n : Nat)
    (s t : Table φ κ), Clock name s₁ n s → (∀ e ∈ es, Idle name e) → run step s es = some t →
      Clock name s₁ (n + es.countP isUpdate) t := by
  intro es
  induction es with
  | nil =>
      intro n s t h _ hrun
      cases Option.some.inj hrun
      exact h
  | cons e es ih =>
      intro n s t h hidle hrun
      obtain ⟨s', hstep, hrest⟩ := (run_cons_eq_some step s t e es).mp hrun
      have hnext := clock_step h (hidle e List.mem_cons_self) hstep
      have hlast := ih _ s' t hnext (fun d hd => hidle d (List.mem_cons_of_mem e hd)) hrest
      rw [List.countP_cons, Nat.add_comm (es.countP isUpdate), ← Nat.add_assoc]
      exact hlast

/-- `n` ticks are `n` calls, and every eighth call passes the turn. -/
structure TurnsPass (a : Int) (n : Nat) (s t : Table φ κ) : Prop where
  called : t.called = s.called + n
  seat : t.round.m_actIndex.eqInteger ((a + n / 8) % 3) = true
  remain : t.round.m_operateRemain = 8 - n % 8

/-- Whatever happened before, and whatever other timers there are: the clock started with a full
countdown keeps time for the idle players if and only if there is at most one tick. -/
theorem turn_clock_iff (before after : List (TableEvent φ κ)) (s s₁ t : Table φ κ) (a : Int)
    (name : Nat) (hbefore : run step start before = some s)
    (hseat : s.round.m_actIndex.eqInteger a = true) (ha : 0 ≤ a ∧ a ≤ 2)
    (hfull : s.round.m_operateRemain = operateRemain) (hstart : s.startGameTimer = some s₁)
    (hname : s₁.round.m_timerGame = some name) (hidle : ∀ e ∈ after, Idle name e)
    (hafter : run step s₁ after = some t) :
    TurnsPass a (after.countP isUpdate) s₁ t ↔ after.countP isUpdate ≤ 1 := by
  have hsole : Sole s := run_invariant step (fun _ _ => True) Sole
    (fun _ _ _ h _ hstep => sole_step h hstep) before start s sole_start
    (along_true step before start) hbefore
  obtain ⟨name', harmed, hround, _⟩ := startGameTimer_armed hsole hstart
  cases Option.some.inj (harmed.handle.symm.trans hname)
  have hclock := clock_run after 0 s₁ t
    ⟨fun _ => ⟨harmed, rfl, rfl⟩, fun hne => absurd rfl hne⟩ hidle hafter
  rw [Nat.zero_add] at hclock
  have hfull₁ : s₁.round.m_operateRemain = 8 := by rw [hround]; exact hfull
  have hseat₁ : s₁.round.m_actIndex.eqInteger a = true := by rw [hround]; exact hseat
  generalize after.countP isUpdate = n at hclock ⊢
  constructor
  · intro h
    by_contra hmany
    have hcalled := (hclock.spent (by omega)).2.2
    have htotal := h.called
    omega
  · intro hfew
    obtain rfl | rfl : n = 0 ∨ n = 1 := by omega
    · obtain ⟨_, hsame, hcalled⟩ := hclock.armed rfl
      have hfirst : (a + (0 : Nat) / 8) % 3 = a := by omega
      exact ⟨hcalled, by rw [hsame, hfirst]; exact hseat₁, by rw [hsame, hfull₁]; rfl⟩
    · obtain ⟨_, hcall, hcalled⟩ := hclock.spent Nat.one_ne_zero
      have hfirst : (a + (1 : Nat) / 8) % 3 = a := by omega
      rw [GameRound.gameTimerCallback_waits _ (by omega)] at hcall
      exact ⟨hcalled, by rw [hcall, hfirst]; exact hseat₁, by rw [hcall]; simp [hfull₁]⟩

end Table

/-! ## One tick and two -/

open Table

def everyTick : TableEvent Empty Unit := .register (some ()) 100 (-1) 0 none []

theorem first_tick_counts : ∃ s₁ t : Table Empty Unit,
    (run step start [everyTick]).bind startGameTimer = some s₁ ∧
      run step s₁ [.update [1, 2]] = some t ∧ TurnsPass 0 1 s₁ t := by
  have hidle : ∀ e ∈ [(.update [1, 2] : TableEvent Empty Unit)], Idle 2 e := by
    intro e he
    rw [List.mem_singleton.mp he]
    trivial
  refine ⟨_, _, rfl, rfl, ?_⟩
  exact (turn_clock_iff [everyTick] [.update [1, 2]] _ _ _ 0 2 rfl rfl (by decide) rfl rfl rfl
    hidle rfl).mpr (Nat.le_refl 1)

/-- The second tick finds the round's timer dead. -/
theorem second_tick_missed : ∃ s₁ t : Table Empty Unit,
    (run step start [everyTick]).bind startGameTimer = some s₁ ∧
      run step s₁ [.update [1, 2], .update [1, 2]] = some t ∧ ¬ TurnsPass 0 2 s₁ t :=
  ⟨_, _, rfl, rfl, fun h => absurd h.called (by decide)⟩

end Doudizhu.Game
