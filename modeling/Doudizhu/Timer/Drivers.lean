import Doudizhu.Timer.Service

/-! # The drivers of a timer manager

A pending timeout drives a manager when firing it would run one of its ticks.  `startRunTimer`
adds a timeout whatever is pending already, and `stopRunTimer` cannot take one back: a manager
stopped and restarted before its old timeout has fired has two drivers from then on, and so has
one whose callback restarts it inside a tick.  With one manager there is never more than one
driver exactly in the runs where `startRunTimer` is only reached with nothing pending, and in
those runs the ticks are at least 100 ms apart. -/

set_option autoImplicit false

namespace Doudizhu.Timer

open Runs Service

section Drivers
variable {κ α : Type}

/-- The pending timeouts at which the update of `x` would run a tick. -/
def drivers {ι : Type} [DecidableEq ι] (s : Service ι κ α) (x : ι) : Nat :=
  if s.instanceMgr = some x ∧ s.running x = true then s.timeouts.length else 0

/-- No tick comes less than 100 ms after another. -/
def TicksApart {ι : Type} (s : Service ι κ α) : Prop :=
  s.ticks.Pairwise fun earlier later => earlier.2 + 10 ≤ later.2

def OneDriver (s : Service Unit κ α) : Prop := drivers s () ≤ 1 ∧ TicksApart s

/-- Where the step reaches `startRunTimer`, no timeout is pending: a `register` that finds the
manager stopped, and an update that ends with live timers in the table. -/
def StartsAlone (s : Service Unit κ α) : Event Unit κ α → Prop
  | .register x _ intaval _ delay _ _ =>
      s.running x = false → intaval % 100 = 0 ∧ delay % 100 = 0 → s.timeouts = []
  | .endUpdate x => ∀ f, s.frame = some f →
      ((s.mgrs x).destroySchedulers f.deathIds).isNeedTimer = true → s.timeouts = []
  | _ => True

structure Driven (s : Service Unit κ α) : Prop where
  indexed : ∀ x, (s.mgrs x).Indexed
  one : s.timeouts.length ≤ 1
  apart : TicksApart s
  past : ∀ tick ∈ s.ticks, tick.2 ≤ s.now
  next : ∀ t ∈ s.timeouts, ∀ tick ∈ s.ticks, tick.2 + 10 ≤ t.due

theorem driven_start : Driven (start : Service Unit κ α) where
  indexed _ := SchedulerMgr.indexed_ctor
  one := Nat.zero_le 1
  apart := List.Pairwise.nil
  past _ h := absurd h List.not_mem_nil
  next _ h := absurd h List.not_mem_nil

/-- Starting with nothing pending leaves one timeout, due 100 ms after every tick so far. -/
theorem driven_drive {s s' : Service Unit κ α} (h : Driven s) (x : Unit) (d : Drive)
    (hindexed : ∀ y, (s'.mgrs y).Indexed) (htimeouts : s'.timeouts = s.timeouts)
    (hnow : s'.now = s.now) (hticks : s'.ticks = s.ticks)
    (halone : d = .start → s.timeouts = []) : Driven (s'.drive x d) := by
  have hapart : TicksApart (s'.drive x d) := by
    unfold TicksApart
    rw [drive_ticks, hticks]
    exact h.apart
  have hpast : ∀ tick ∈ (s'.drive x d).ticks, tick.2 ≤ (s'.drive x d).now := by
    rw [drive_ticks, drive_now, hticks, hnow]
    exact h.past
  have hmgrs : ∀ y, ((s'.drive x d).mgrs y).Indexed := by
    rw [drive_mgrs]
    exact hindexed
  cases d with
  | keep =>
      refine ⟨hmgrs, ?_, hapart, hpast, ?_⟩
      · change s'.timeouts.length ≤ 1
        rw [htimeouts]
        exact h.one
      · change ∀ t ∈ s'.timeouts, ∀ tick ∈ s'.ticks, tick.2 + 10 ≤ t.due
        rw [htimeouts, hticks]
        exact h.next
  | stop =>
      refine ⟨hmgrs, ?_, hapart, hpast, ?_⟩
      · change s'.timeouts.length ≤ 1
        rw [htimeouts]
        exact h.one
      · change ∀ t ∈ s'.timeouts, ∀ tick ∈ s'.ticks, tick.2 + 10 ≤ t.due
        rw [htimeouts, hticks]
        exact h.next
  | start =>
      have hnone : s'.timeouts = [] := htimeouts.trans (halone rfl)
      refine ⟨hmgrs, ?_, hapart, hpast, ?_⟩
      · change (s'.timeouts ++ [(⟨x, s'.now + 10⟩ : Timeout Unit)]).length ≤ 1
        rw [hnone]
        exact Nat.le_refl 1
      · intro t ht tick htick
        change t ∈ s'.timeouts ++ [(⟨x, s'.now + 10⟩ : Timeout Unit)] at ht
        change tick ∈ s'.ticks at htick
        rw [hnone, List.nil_append, List.mem_singleton] at ht
        rw [hticks] at htick
        have hle := h.past tick htick
        rw [ht]
        change tick.2 + 10 ≤ s'.now + 10
        omega

/-- The one timeout is taken, and the update that it may start is a step later than the last. -/
theorem Driven.timeout {s : Service Unit κ α} (h : Driven s) {x : Unit} {t : Timeout Unit}
    (hpending : (s.timeouts.find? fun t => t.starter = x) = some t) (hdue : t.due ≤ s.now)
    (hindexed : ∀ y, ((s.fired x).timeoutCallback.mgrs y).Indexed) :
    Driven (s.fired x).timeoutCallback := by
  have hmem : t ∈ s.timeouts := List.mem_of_find?_eq_some hpending
  obtain ⟨other, hone⟩ := List.length_eq_one_iff.mp
    (Nat.le_antisymm h.one (List.length_pos_of_mem hmem))
  have hempty : (s.fired x).timeouts = [] := by
    change (s.timeouts.eraseP fun t => t.starter = x) = []
    rw [hone]
    rfl
  have hone' : (s.fired x).timeouts.length ≤ 1 := by rw [hempty]; exact Nat.zero_le 1
  have hnext : ∀ t ∈ (s.fired x).timeouts, ∀ tick : Unit × Nat, tick.2 + 10 ≤ t.due := by
    rw [hempty]
    exact fun _ ht => absurd ht List.not_mem_nil
  by_cases hrun : s.instanceMgr = some () ∧ s.running () = true
  · have hcallback := timeoutCallback_of_running (s := s.fired x) hrun.1 hrun.2
    have hnew : ∀ tick ∈ s.ticks, tick.2 + 10 ≤ s.now := by
      intro tick htick
      have hle := h.next t hmem tick htick
      omega
    rw [hcallback] at hindexed ⊢
    refine ⟨hindexed, hone', ?_, ?_, fun t ht tick _ => hnext t ht tick⟩
    · refine List.pairwise_append.mpr ⟨h.apart, List.pairwise_singleton _ _, ?_⟩
      intro tick htick later hlater
      cases List.mem_singleton.mp hlater
      exact hnew tick htick
    · intro tick htick
      rcases List.mem_append.mp htick with htick | htick
      · exact h.past tick htick
      · cases List.mem_singleton.mp htick
        exact Nat.le_refl s.now
  · have hcallback : (s.fired x).timeoutCallback = s.fired x := by
      apply timeoutCallback_of_idle
      intro y hy
      by_contra hrunning
      exact hrun ⟨hy, (Bool.not_eq_false _).mp hrunning⟩
    rw [hcallback] at hindexed ⊢
    exact ⟨hindexed, hone', h.apart, h.past, fun t ht tick _ => hnext t ht tick⟩

theorem driven_step {s s' : Service Unit κ α} {e : Event Unit κ α} (h : Driven s)
    (halone : StartsAlone s e) (hstep : s.step e = some s') : Driven s' := by
  have hindexed := indexed_step h.indexed hstep
  cases steps_of_step hstep with
  | refused x _ _ => exact h
  | register x hallowed hadded =>
      rename_i callback intaval times delay target args m d name
      rw [drive_mgrs] at hindexed
      apply driven_drive h x d hindexed rfl rfl rfl
      intro hd
      have hdrive := ((h.indexed x).added hadded).2
      have hstopped : s.running x = false := by
        by_contra hrunning
        have hrun : (s.mgrs x).m_isRunTime = true := (Bool.not_eq_false _).mp hrunning
        rw [hd, if_pos hrun] at hdrive
        exact Drive.noConfusion hdrive
      exact halone hstopped ((h.indexed x).unit_of_added hadded)
  | unregister x name _ => exact ⟨hindexed, h.one, h.apart, h.past, h.next⟩
  | unregisterAllschedule x _ => exact ⟨hindexed, h.one, h.apart, h.past, h.next⟩
  | clock =>
      exact ⟨hindexed, h.one, h.apart, fun tick htick => Nat.le_succ_of_le (h.past tick htick),
        h.next⟩
  | timeout x hidle hpending hdue =>
      exact h.timeout hpending hdue hindexed
  | visit x name _ _ => exact ⟨hindexed, h.one, h.apart, h.past, h.next⟩
  | callbackReturn x _ _ => exact ⟨hindexed, h.one, h.apart, h.past, h.next⟩
  | endUpdate x hframe hready =>
      rename_i f
      rw [drive_mgrs] at hindexed
      apply driven_drive h x _ hindexed rfl rfl rfl
      intro hd
      apply halone f hframe
      by_contra hneed
      rw [SchedulerMgr.finishUpdate_eq, if_neg hneed] at hd
      exact Drive.noConfusion hd

theorem oneDriver_of_driven {s : Service Unit κ α} (h : Driven s) : OneDriver s := by
  refine ⟨?_, h.apart⟩
  unfold drivers
  split_ifs
  · exact h.one
  · exact Nat.zero_le 1

theorem two_drivers {s s' : Service Unit κ α} {e : Event Unit κ α}
    (hindexed : ∀ x, (s.mgrs x).Indexed) (hstep : s.step e = some s')
    (halone : ¬ StartsAlone s e) : ¬ OneDriver s' := by
  have hstart : ∀ (t : Service Unit κ α) (x : Unit) (d : Drive), d = .start →
      t.timeouts = s.timeouts → s.timeouts ≠ [] → t.running x = true →
      ¬ OneDriver (t.drive x d) := by
    rintro t x d rfl htimeouts hpending hrunning ⟨hone, _⟩
    have hdrives : (t.drive x .start).instanceMgr = some () ∧
        (t.drive x .start).running () = true := ⟨rfl, hrunning⟩
    have hlength : (t.timeouts ++ [(⟨x, t.now + 10⟩ : Timeout Unit)]).length ≤ 1 := by
      unfold drivers at hone
      rwa [if_pos hdrives] at hone
    have hpos : 0 < s.timeouts.length := List.length_pos_of_ne_nil hpending
    rw [htimeouts, List.length_append, List.length_singleton] at hlength
    omega
  cases steps_of_step hstep with
  | refused x _ hfailed =>
      exfalso
      apply halone
      exact fun _ hunit => absurd hunit ((hindexed x).not_unit_of_refused hfailed)
  | register x hallowed hadded =>
      rename_i m d name
      obtain ⟨hadd, hdrive⟩ := (hindexed x).added hadded
      unfold StartsAlone at halone
      push Not at halone
      obtain ⟨hstopped, _, hpending⟩ := halone
      have hidle : ¬ (s.mgrs x).m_isRunTime = true := by
        rw [show (s.mgrs x).m_isRunTime = false from hstopped]
        exact Bool.false_ne_true
      refine hstart _ x d (hdrive.trans (if_neg hidle)) rfl hpending ?_
      rw [running, setMgr_self]
      exact hadd.running
  | unregister x name _ => exact absurd trivial halone
  | unregisterAllschedule x _ => exact absurd trivial halone
  | clock => exact absurd trivial halone
  | timeout x _ _ _ => exact absurd trivial halone
  | visit x name _ _ => exact absurd trivial halone
  | callbackReturn x _ _ => exact absurd trivial halone
  | endUpdate x hframe hready =>
      rename_i f
      unfold StartsAlone at halone
      push Not at halone
      obtain ⟨f', hframe', hneed, hpending⟩ := halone
      cases hframe.symm.trans hframe'
      have hfinish := SchedulerMgr.finishUpdate_eq (s.mgrs x) f.deathIds
      rw [if_pos hneed] at hfinish
      refine hstart _ x _ (by rw [hfinish]) rfl hpending ?_
      rw [running, setMgr_self, hfinish]

/-- In every run on one manager there is at most one driver in every state, with ticks at least
100 ms apart, if and only if `startRunTimer` is only ever reached with no timeout pending. -/
theorem one_driver_iff (es : List (Event Unit κ α)) (t : Service Unit κ α)
    (hrun : run step start es = some t) :
    Always step OneDriver (start : Service Unit κ α) es ↔
      Along step StartsAlone (start : Service Unit κ α) es := by
  constructor
  · intro halways
    exact along_of_always step StartsAlone (fun s => ∀ x, (s.mgrs x).Indexed) OneDriver
      (fun _ _ _ h hstep => indexed_step h hstep)
      (fun _ _ _ h _ halone hstep => two_drivers h hstep halone)
      es start t driven_start.indexed hrun halways
  · intro halong
    exact always_of_invariant step StartsAlone Driven OneDriver
      (fun _ _ _ h halone hstep => driven_step h halone hstep)
      (fun _ h => oneDriver_of_driven h) es start driven_start halong

end Drivers

/-! ## Stopping and restarting -/

def eachTick : Event Unit Unit Unit := .register () (some ()) 100 (-1) 0 none []

def everySecond : Event Unit Unit Unit := .register () (some ()) 1000 (-1) 0 none []

/-- The timer of a registration shoots at the tick of the first timeout. -/
def firstRound : List (Event Unit Unit Unit) :=
  List.replicate 10 .clock ++ [.timeout (), .visit () 1, .callbackReturn ()]

theorem startsAlone_firstRound :
    ∀ e ∈ firstRound, ∀ s : Service Unit Unit Unit, StartsAlone s e := by
  intro e he s
  simp only [firstRound, List.mem_append, List.mem_replicate, List.mem_cons, List.not_mem_nil,
    or_false] at he
  rcases he with ⟨_, rfl⟩ | rfl | rfl | rfl <;> trivial

/-- One start, and the second round that the first update asks for. -/
theorem one_driver_of_single_start :
    Always step OneDriver (start : Service Unit Unit Unit)
      (eachTick :: (firstRound ++ .endUpdate () :: firstRound)) := by
  refine (one_driver_iff (eachTick :: (firstRound ++ .endUpdate () :: firstRound)) _ rfl).mpr
    ⟨fun _ _ => rfl, fun s hs => along_append step StartsAlone _ _ s ?_ fun t ht => ⟨?_, ?_⟩⟩
  · exact along_of_forall step firstRound s startsAlone_firstRound
  · cases hs
    cases ht
    exact fun _ _ _ => rfl
  · exact fun t' _ => along_of_forall step firstRound t' startsAlone_firstRound

/-- Both timeouts are pending when the manager runs again. -/
theorem restart_has_two_drivers :
    ¬ Always step OneDriver (start : Service Unit Unit Unit)
      [everySecond, .unregisterAllschedule (), everySecond] := by
  intro halways
  have hlast := ((halways.2 _ rfl).2 _ rfl).2 _ rfl
  exact absurd hlast.1 (by decide)

end Doudizhu.Timer
