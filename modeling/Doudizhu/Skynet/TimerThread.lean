import Doudizhu.Lib.Runs
import Doudizhu.Skynet.MessageQueue
import Doudizhu.Skynet.Timer

/-! # The timer thread and its clients

Any worker may call `skynet_timeout` while the timer thread is at work; the spin lock of the
timer cuts the thread's work into sections.  `timer_update` holds the lock from its start to the
first list it takes, dispatches that list without the lock and takes the lock again to look for
more.  A step is one section, one message of `dispatch_list`, one `skynet_timeout`, or the
reading of the clock by `skynet_updatetime`.

`ticks`, `asked`, `fired` and `answered` are not in the code.  They record how often the clock
has ticked, the tick at which each timer asked for is due, what `dispatch_list` has sent at which
tick, and what `skynet_timeout` has sent itself. -/

set_option autoImplicit false

namespace Doudizhu.Skynet.TimerThread

open Doudizhu.Runs Timer

/-- Where the thread is in `timer_update`: outside it, or dispatching a list it took before or
after the shift. -/
inductive Pc where
  | idle
  | first (todo : List TimerNode)
  | second (todo : List TimerNode)
  deriving DecidableEq, Repr

def Pc.todo : Pc → List TimerNode
  | .idle => []
  | .first todo => todo
  | .second todo => todo

structure World where
  timer : Timer
  left : ℕ
  pc : Pc
  ticks : ℕ
  asked : List (ℕ × TimerEvent)
  fired : List (ℕ × UInt32 × SkynetMessage)
  answered : List (UInt32 × SkynetMessage)

inductive Event where
  | timeout (handle : UInt32) (time session : Int32)
  | updatetime (cp : UInt64)
  | timer
  deriving DecidableEq, Repr

/-- `timer_execute` after the shift, up to the list it takes or the end of `timer_update`. -/
def secondSection (w : World) : World :=
  if currentList w.timer = [] then { w with pc := .idle }
  else { w with timer := clearCurrent w.timer, pc := .second (currentList w.timer) }

/-- `timer_update` from its start or from the return of the first `dispatch_list`. -/
def firstSection (w : World) : World :=
  if currentList w.timer = [] then
    secondSection { w with timer := timerShift w.timer, ticks := w.ticks + 1 }
  else { w with timer := clearCurrent w.timer, pc := .first (currentList w.timer) }

/-- The message `dispatch_list` sends for a node, stamped with the tick. -/
def sent (ticks : ℕ) (event : TimerEvent) : ℕ × UInt32 × SkynetMessage :=
  (ticks, event.handle, responseMessage event.session)

/-- A timer of no ticks is answered at once and never enters the wheel. -/
def skynetTimeout (w : World) (handle : UInt32) (time session : Int32) : World :=
  if time ≤ 0 then { w with answered := w.answered ++ [(handle, responseMessage session)] }
  else { w with
    timer := timerAdd w.timer ⟨handle, session⟩ time
    asked := w.asked ++ [(w.ticks + time.toNatClampNeg, ⟨handle, session⟩)] }

/-- A clock that went back is only noted; one that went forward by `diff` makes `diff` updates. -/
def skynetUpdatetime (w : World) (cp : UInt64) : World :=
  if cp < w.timer.currentPoint then { w with timer := { w.timer with currentPoint := cp } }
  else if cp ≠ w.timer.currentPoint then
    let diff := (cp - w.timer.currentPoint).toUInt32
    { w with
      timer := { w.timer with currentPoint := cp, current := w.timer.current + diff.toUInt64 }
      left := diff.toNat }
  else w

def step (w : World) : Event → Option World
  | .timeout handle time session => some (skynetTimeout w handle time session)
  | .updatetime cp =>
      if w.pc = .idle ∧ w.left = 0 then some (skynetUpdatetime w cp) else none
  | .timer =>
      match w.pc with
      | .idle =>
          match w.left with
          | 0 => none
          | n + 1 => some (firstSection { w with left := n })
      | .first [] => some (firstSection w)
      | .first (node :: todo) =>
          some { w with fired := w.fired ++ [sent w.ticks node.event], pc := .first todo }
      | .second [] => some (secondSection w)
      | .second (node :: todo) =>
          some { w with fired := w.fired ++ [sent w.ticks node.event], pc := .second todo }

/-- `skynet_timer_init` at the clock readings `current` and `point`. -/
def timerInit (current point : UInt64) : World where
  timer := { timerCreateTimer with current := current, currentPoint := point }
  left := 0
  pc := .idle
  ticks := 0
  asked := []
  fired := []
  answered := []

/-! ## What must have been sent -/

/-- The messages of tick `t`, in the order their timers were asked for. -/
def dueAt (asked : List (ℕ × TimerEvent)) (t : ℕ) : List (ℕ × UInt32 × SkynetMessage) :=
  (asked.filter fun p => decide (p.1 = t)).map fun p => sent t p.2

def schedule (asked : List (ℕ × TimerEvent)) : ℕ → List (ℕ × UInt32 × SkynetMessage)
  | 0 => dueAt asked 0
  | n + 1 => schedule asked n ++ dueAt asked (n + 1)

def pending (w : World) : List (ℕ × TimerEvent) := w.asked.filter fun p => decide (w.ticks < p.1)

theorem dueAt_append (asked : List (ℕ × TimerEvent)) (p : ℕ × TimerEvent) {t : ℕ} (h : t < p.1) :
    dueAt (asked ++ [p]) t = dueAt asked t := by
  have hne : ¬ p.1 = t := by omega
  simp [dueAt, List.filter_append, hne]

/-- What is asked for now is due later, so nothing sent is reconsidered. -/
theorem schedule_append (asked : List (ℕ × TimerEvent)) (p : ℕ × TimerEvent) :
    ∀ n : ℕ, n < p.1 → schedule (asked ++ [p]) n = schedule asked n := by
  intro n
  induction n with
  | zero => intro h; exact dueAt_append asked p h
  | succ n ih =>
      intro h
      rw [schedule, schedule, ih (by omega), dueAt_append asked p h]

/-! ## The invariant -/

structure Inv (w : World) : Prop where
  shows : Shows w.timer w.ticks (pending w)
  bound : ∀ p ∈ w.asked, p.1 < w.ticks + 2 ^ 31
  fired : w.fired ++ w.pc.todo.map (fun node => sent w.ticks node.event) =
    schedule w.asked w.ticks
  notFirst : ∀ todo, w.pc ≠ .first todo

theorem ahead_of_pending {w : World} (h : Inv w) :
    ∀ p ∈ pending w, w.ticks < p.1 ∧ Ahead w.ticks p.1 := by
  intro p hp
  obtain ⟨hmem, hlt⟩ := List.mem_filter.mp hp
  have hlt' : w.ticks < p.1 := of_decide_eq_true hlt
  exact ⟨hlt', Nat.le_of_lt hlt', h.bound p hmem⟩

/-- Nothing in the wheel is due at a tick whose list has been taken. -/
theorem currentList_eq_nil {w : World} (h : Inv w) : currentList w.timer = [] := by
  rw [currentList_eq h.shows, List.map_eq_nil_iff, List.filter_eq_nil_iff]
  intro p hp hdue
  have hlt := (ahead_of_pending h p hp).1
  have hdue' : p.1 = w.ticks := of_decide_eq_true hdue
  omega

theorem toNatClampNeg_pos {time : Int32} (h : ¬ time ≤ 0) : 0 < time.toNatClampNeg := by
  have hpos : 0 < time.toInt := by
    rw [Int32.le_iff_toInt_le] at h
    have hzero : (0 : Int32).toInt = 0 := rfl
    omega
  rw [Int32.toNatClampNeg]
  omega

/-- Unwrapped, the expire time is the tick of the call plus the delay. -/
theorem expire_eq {time : Int32} (h : ¬ time ≤ 0) (n : ℕ) :
    time.toUInt32 + UInt32.ofNat n = UInt32.ofNat (n + time.toNatClampNeg) := by
  have hnonneg : 0 ≤ time := by
    rw [Int32.le_iff_toInt_le] at h ⊢
    have hzero : (0 : Int32).toInt = 0 := rfl
    omega
  have htime : time.toUInt32 = UInt32.ofNat time.toNatClampNeg := by
    rw [← Int32.toNat_toUInt32_of_le hnonneg, UInt32.ofNat_toNat]
  rw [htime, ← UInt32.ofNat_add, Nat.add_comm]

theorem inv_skynetTimeout {w : World} (h : Inv w) (handle : UInt32) (time session : Int32) :
    Inv (skynetTimeout w handle time session) := by
  unfold skynetTimeout
  split
  · exact ⟨h.shows, h.bound, h.fired, h.notFirst⟩
  · rename_i htime
    have hpos := toNatClampNeg_pos htime
    have hlt := time.toNatClampNeg_lt
    have hlater : w.ticks < w.ticks + time.toNatClampNeg := by omega
    refine ⟨?_, ?_, ?_, h.notFirst⟩
    · have hnode : timerAdd w.timer ⟨handle, session⟩ time =
          addNode w.timer (nodeOf (w.ticks + time.toNatClampNeg, ⟨handle, session⟩)) := by
        rw [timerAdd, nodeOf, h.shows.time, expire_eq htime]
      have hpending : pending { w with
          timer := timerAdd w.timer ⟨handle, session⟩ time
          asked := w.asked ++ [(w.ticks + time.toNatClampNeg, ⟨handle, session⟩)] } =
          pending w ++ [(w.ticks + time.toNatClampNeg, ⟨handle, session⟩)] := by
        simp [pending, List.filter_append, hpos]
      rw [hpending, hnode]
      exact shows_addNode h.shows _ ⟨Nat.le_of_lt hlater, by simp only; omega⟩
    · intro p hp
      rcases List.mem_append.mp hp with hp | hp
      · exact h.bound p hp
      · rw [List.mem_singleton.mp hp]
        simp only
        omega
    · exact h.fired.trans (schedule_append w.asked _ w.ticks hlater).symm

theorem inv_firstSection {w : World} (h : Inv w) (htodo : w.pc.todo = []) :
    Inv (firstSection w) := by
  have hshift := shows_timerShift h.shows (ahead_of_pending h)
  have hnow : ((pending w).filter fun p => decide (p.1 = w.ticks + 1)) =
      w.asked.filter fun p => decide (p.1 = w.ticks + 1) := by
    rw [pending, List.filter_filter]
    apply List.filter_congr
    intro p _
    by_cases hp : p.1 = w.ticks + 1 <;> simp [hp]
  have hlater : ((pending w).filter fun p => decide (p.1 ≠ w.ticks + 1)) =
      w.asked.filter fun p => decide (w.ticks + 1 < p.1) := by
    rw [pending, List.filter_filter]
    apply List.filter_congr
    intro p _
    rw [← Bool.decide_and, decide_eq_decide]
    omega
  have hlist := currentList_eq hshift
  rw [hnow] at hlist
  have hbound : ∀ p ∈ w.asked, p.1 < w.ticks + 1 + 2 ^ 31 := fun p hp => by
    have := h.bound p hp
    omega
  have hfired := h.fired
  rw [htodo, List.map_nil, List.append_nil] at hfired
  rw [firstSection, if_pos (currentList_eq_nil h), secondSection]
  split
  · rename_i hempty
    simp only [hlist, List.map_eq_nil_iff] at hempty
    refine ⟨?_, hbound, ?_, fun todo => by simp⟩
    · have hsame : pending w = w.asked.filter fun p => decide (w.ticks + 1 < p.1) := by
        rw [← hlater, eq_comm, List.filter_eq_self]
        intro p hp
        rw [decide_eq_true_eq]
        intro hdue
        have hmem : p ∈ (pending w).filter fun p => decide (p.1 = w.ticks + 1) :=
          List.mem_filter.mpr ⟨hp, decide_eq_true hdue⟩
        rw [hnow, hempty] at hmem
        cases hmem
      rw [hsame] at hshift
      exact hshift
    · simp only [Pc.todo, List.map_nil, List.append_nil, schedule, dueAt, hempty]
      exact hfired
  · refine ⟨?_, hbound, ?_, fun todo => by simp⟩
    · have hclear := shows_clearCurrent hshift
      rw [hlater] at hclear
      exact hclear
    · simp only [Pc.todo, schedule, hlist, List.map_map]
      rw [hfired]
      rfl

theorem inv_step {w w' : World} {e : Event} (h : Inv w) (hstep : step w e = some w') : Inv w' := by
  cases e with
  | timeout handle time session =>
      cases Option.some.inj hstep
      exact inv_skynetTimeout h handle time session
  | updatetime cp =>
      simp only [step] at hstep
      split at hstep
      · cases Option.some.inj hstep
        unfold skynetUpdatetime
        split_ifs
        · exact ⟨⟨h.shows.time, h.shows.bucket⟩, h.bound, h.fired, h.notFirst⟩
        · exact ⟨⟨h.shows.time, h.shows.bucket⟩, h.bound, h.fired, h.notFirst⟩
        · exact h
      · cases hstep
  | timer =>
      simp only [step] at hstep
      split at hstep
      · rename_i hpc
        split at hstep
        · cases hstep
        · cases Option.some.inj hstep
          exact inv_firstSection ⟨h.shows, h.bound, h.fired, h.notFirst⟩ (by simp [hpc, Pc.todo])
      · rename_i hpc
        exact absurd hpc (h.notFirst [])
      · rename_i node todo hpc
        exact absurd hpc (h.notFirst (node :: todo))
      · rename_i hpc
        cases Option.some.inj hstep
        have hfired := h.fired
        rw [hpc] at hfired
        rw [secondSection, if_pos (currentList_eq_nil h)]
        exact ⟨h.shows, h.bound, hfired, fun todo => by simp⟩
      · rename_i node todo hpc
        cases Option.some.inj hstep
        refine ⟨h.shows, h.bound, ?_, fun todo => by simp⟩
        have hfired := h.fired
        rw [hpc] at hfired
        simp only [Pc.todo, List.map_cons] at hfired ⊢
        rw [← hfired, List.append_assoc]
        rfl

theorem inv_timerInit (current point : UInt64) : Inv (timerInit current point) where
  shows := ⟨shows_create.time, shows_create.bucket⟩
  bound := fun p hp => by cases hp
  fired := rfl
  notFirst := fun todo => by simp [timerInit]

theorem inv_run {current point : UInt64} {events : List Event} {w : World}
    (hrun : run step (timerInit current point) events = some w) : Inv w :=
  run_invariant step (fun _ _ => True) Inv (fun _ _ _ h _ hstep => inv_step h hstep) events _ w
    (inv_timerInit current point) (along_true step events _) hrun

/-- Whatever the workers ask for and whenever they do, every timer is sent once, at the tick it
is due, after those of earlier ticks and after those of its own tick that were asked for before.
The dispatch before the shift never finds a timer. -/
theorem dispatched_on_schedule (current point : UInt64) (events : List Event) (w : World)
    (hrun : run step (timerInit current point) events = some w) :
    w.fired ++ w.pc.todo.map (fun node => sent w.ticks node.event) = schedule w.asked w.ticks ∧
      ∀ todo, w.pc ≠ .first todo :=
  ⟨(inv_run hrun).fired, (inv_run hrun).notFirst⟩

/-- Two timers of one tick, the second asked for while an earlier tick is being dispatched. -/
theorem dispatched_on_schedule_interleaved : ∃ w,
    run step (timerInit 0 100) [.timeout 1 1 7, .timeout 2 300 8, .updatetime 101, .timer,
      .timeout 3 299 9, .timer, .timer] = some w ∧
    w.fired ++ w.pc.todo.map (fun node => sent w.ticks node.event) = schedule w.asked w.ticks ∧
      ∀ todo, w.pc ≠ .first todo :=
  ⟨_, rfl, dispatched_on_schedule 0 100 [.timeout 1 1 7, .timeout 2 300 8, .updatetime 101, .timer,
    .timeout 3 299 9, .timer, .timer] _ rfl⟩

/-! ## The clock -/

def readings (events : List Event) : List UInt64 :=
  events.filterMap fun e => match e with
    | .updatetime cp => some cp
    | _ => none

/-- How far the readings go forward in all; a step back counts for nothing, and a step forward
is cut to 32 bits. -/
def advance : UInt64 → List UInt64 → ℕ
  | _, [] => 0
  | point, cp :: cps => (if cp < point then 0 else (cp - point).toUInt32.toNat) + advance cp cps

/-- `skynet_now` and the updates made or still to be made both move on by `n`. -/
structure Advances (n : ℕ) (w w' : World) : Prop where
  updates : w'.ticks + w'.left = w.ticks + w.left + n
  now : w'.timer.current = w.timer.current + UInt64.ofNat n

theorem Advances.trans {m n : ℕ} {u v w : World} (h : Advances m u v) (h' : Advances n v w) :
    Advances (m + n) u w where
  updates := by rw [h'.updates, h.updates, Nat.add_assoc]
  now := by rw [h'.now, h.now, UInt64.ofNat_add, UInt64.add_assoc]

theorem advances_of_clock {w w' : World} (hticks : w'.ticks + w'.left = w.ticks + w.left)
    (hclock : w'.timer.clock = w.timer.clock) :
    Advances 0 w w' ∧ w'.timer.currentPoint = w.timer.currentPoint := by
  rw [clock, clock, Prod.mk.injEq] at hclock
  exact ⟨⟨hticks, hclock.1.trans (UInt64.add_zero _).symm⟩, hclock.2⟩

theorem advances_secondSection (w : World) :
    (secondSection w).ticks + (secondSection w).left = w.ticks + w.left ∧
      (secondSection w).timer.clock = w.timer.clock := by
  unfold secondSection
  split <;> exact ⟨rfl, rfl⟩

theorem advances_firstSection {w : World} (h : Inv w) :
    (firstSection w).ticks + (firstSection w).left = w.ticks + 1 + w.left ∧
      (firstSection w).timer.clock = w.timer.clock := by
  rw [firstSection, if_pos (currentList_eq_nil h)]
  obtain ⟨hticks, hclock⟩ :=
    advances_secondSection { w with timer := timerShift w.timer, ticks := w.ticks + 1 }
  exact ⟨hticks, hclock.trans (clock_timerShift w.timer)⟩

theorem advances_skynetTimeout (w : World) (handle : UInt32) (time session : Int32) :
    (skynetTimeout w handle time session).timer.clock = w.timer.clock := by
  unfold skynetTimeout
  split
  · rfl
  · exact clock_addNode ..

theorem advances_skynetUpdatetime {w : World} (hleft : w.left = 0) (cp : UInt64) :
    Advances (advance w.timer.currentPoint [cp]) w (skynetUpdatetime w cp) ∧
      (skynetUpdatetime w cp).timer.currentPoint = cp := by
  unfold skynetUpdatetime
  simp only [advance, Nat.add_zero]
  split_ifs with hback hmoved
  · exact ⟨⟨rfl, (UInt64.add_zero _).symm⟩, rfl⟩
  · refine ⟨⟨by simp [hleft], ?_⟩, rfl⟩
    simp only
    congr 1
    exact UInt64.toNat_inj.mp (by simp)
  · have heq : cp = w.timer.currentPoint := not_not.mp hmoved
    subst heq
    exact ⟨⟨by simp, by simp⟩, rfl⟩

/-- Only a reading moves the clock, and the next reading is compared with it. -/
theorem advances_step {w w' : World} {e : Event} (h : Inv w) (hstep : step w e = some w') :
    Advances (advance w.timer.currentPoint (readings [e])) w w' ∧
      w'.timer.currentPoint = (readings [e]).getLastD w.timer.currentPoint := by
  cases e with
  | timeout handle time session =>
      cases Option.some.inj hstep
      refine advances_of_clock ?_ (advances_skynetTimeout w handle time session)
      unfold skynetTimeout
      split <;> rfl
  | updatetime cp =>
      simp only [step] at hstep
      split at hstep
      · rename_i henabled
        cases Option.some.inj hstep
        exact advances_skynetUpdatetime henabled.2 cp
      · cases hstep
  | timer =>
      simp only [step] at hstep
      split at hstep
      · split at hstep
        · cases hstep
        · rename_i n hleft
          cases Option.some.inj hstep
          have hsection := advances_firstSection (w := { w with left := n })
            ⟨h.shows, h.bound, h.fired, h.notFirst⟩
          exact advances_of_clock (by rw [hsection.1]; simp only; omega) hsection.2
      · rename_i hpc
        exact absurd hpc (h.notFirst [])
      · rename_i node todo hpc
        exact absurd hpc (h.notFirst (node :: todo))
      · cases Option.some.inj hstep
        exact advances_of_clock (advances_secondSection w).1 (advances_secondSection w).2
      · cases Option.some.inj hstep
        exact advances_of_clock rfl rfl

theorem readings_cons (e : Event) (es : List Event) :
    readings (e :: es) = readings [e] ++ readings es :=
  List.filterMap_append (l := [e]) ..

theorem advance_append : ∀ (cps cps' : List UInt64) (point : UInt64),
    advance point (cps ++ cps') = advance point cps + advance (cps.getLastD point) cps' := by
  intro cps
  induction cps with
  | nil => intro cps' point; rw [List.nil_append, advance, Nat.zero_add]; rfl
  | cons cp cps ih =>
      intro cps' point
      rw [List.cons_append, advance, advance, ih, Nat.add_assoc, List.getLastD_cons]

theorem advances_run : ∀ (es : List Event) (w w' : World), Inv w → run step w es = some w' →
    Advances (advance w.timer.currentPoint (readings es)) w w' := by
  intro es
  induction es with
  | nil =>
      intro w w' _ hrun
      cases Option.some.inj hrun
      exact ⟨rfl, (UInt64.add_zero _).symm⟩
  | cons e es ih =>
      intro w w' h hrun
      obtain ⟨v, hstep, hrest⟩ := (run_cons_eq_some step w w' e es).mp hrun
      obtain ⟨hadvances, hpoint⟩ := advances_step h hstep
      rw [readings_cons, advance_append, ← hpoint]
      exact hadvances.trans (ih v w' (inv_step h hstep) hrest)

/-- Whenever the timer thread is outside `skynet_updatetime`, exactly the timers due within the
time that has passed have been sent, in the order of the schedule, and `skynet_now` shows that
time.  Readings that go back are worth nothing. -/
theorem fired_of_readings (current point : UInt64) (events : List Event) (w : World)
    (hrun : run step (timerInit current point) events = some w) (hidle : w.pc = .idle)
    (hleft : w.left = 0) :
    w.fired = schedule w.asked (advance point (readings events)) ∧
      w.timer.current = current + UInt64.ofNat (advance point (readings events)) := by
  have hadvances := advances_run events _ w (inv_timerInit current point) hrun
  have hfired := (inv_run hrun).fired
  have hticks := hadvances.updates
  rw [hleft] at hticks
  have htotal : w.ticks = advance point (readings events) := by
    simpa [timerInit] using hticks
  rw [hidle, htotal] at hfired
  exact ⟨by simpa [Pc.todo] using hfired, hadvances.now⟩

/-- The clock goes from 100 back to 90 and on to 92: two ticks. -/
theorem fired_of_readings_back : ∃ w,
    run step (timerInit 5 100) [.timeout 1 2 7, .updatetime 90, .updatetime 92, .timer, .timer,
      .timer, .timer] = some w ∧
    w.fired = schedule w.asked (advance 100 [90, 92]) ∧
      w.timer.current = 5 + UInt64.ofNat (advance 100 [90, 92]) :=
  ⟨_, rfl, fired_of_readings 5 100 [.timeout 1 2 7, .updatetime 90, .updatetime 92, .timer, .timer,
    .timer, .timer] _ rfl rfl rfl⟩

end Doudizhu.Skynet.TimerThread
