import Doudizhu.Timer.Drivers

/-! # Callbacks that raise

`update` calls the callbacks unprotected and asks for the next timeout after its loop.  A callback
that raises unwinds `update` up to skynet, which reports the error and serves the next message.
`m_isRunTime` stays true then, so `register` does not start the manager again, and without a
timeout no `update` comes that would: the manager has stalled.  The clock survives exactly the
runs in which no timer is left alive at a raise and none is registered after it. -/

set_option autoImplicit false

namespace Doudizhu.Timer

open Runs Service

/-- A step of the service, or a raise in the callback that is open. -/
inductive FailingEvent (κ α : Type) where
  | call (e : Event Unit κ α)
  | raise

section FailingCallbacks
variable {κ α : Type}

/-- What `update` would have done after the callback is lost, its list of dead timers with it. -/
def raise (s : Service Unit κ α) : Option (Service Unit κ α) :=
  match s.frame with
  | none => none
  | some f => if f.inCallback = true then some { s with frame := none } else none

def failingStep (s : Service Unit κ α) : FailingEvent κ α → Option (Service Unit κ α)
  | .call e => s.step e
  | .raise => raise s

theorem raise_eq {s s' : Service Unit κ α} (h : raise s = some s') :
    s.frame ≠ none ∧ s' = { s with frame := none } := by
  unfold raise at h
  cases hframe : s.frame with
  | none =>
      rw [hframe] at h
      exact absurd h.symm (Option.some_ne_none s')
  | some f =>
      rw [hframe] at h
      dsimp only at h
      split_ifs at h
      cases Option.some.inj h
      exact ⟨Option.some_ne_none f, rfl⟩

/-- Outside the ticks, live timers have a driver. -/
def Clocked (s : Service Unit κ α) : Prop :=
  s.frame = none → (s.mgrs ()).isNeedTimer = true → 1 ≤ drivers s ()

/-- The callback that raises was the last live timer's last. -/
def RaisesSpent (s : Service Unit κ α) : FailingEvent κ α → Prop
  | .raise => (s.mgrs ()).isNeedTimer = false
  | _ => True

/-- A call of `register` that passes its assertion. -/
def Registers : FailingEvent κ α → Prop
  | .call (.register _ _ intaval _ delay _ _) => intaval % 100 = 0 ∧ delay % 100 = 0
  | _ => False

/-! ## Runs without a raise -/

/-- A running manager is the module's `instance`, and a stopped one has an empty table. -/
structure Standing (s : Service Unit κ α) : Prop where
  indexed : ∀ x, (s.mgrs x).Indexed
  designated : s.running () = true → s.instanceMgr = some ()
  cleared : s.running () = false → (s.mgrs ()).m_schedulers = ∅

theorem standing_start : Standing (start : Service Unit κ α) where
  indexed _ := SchedulerMgr.indexed_ctor
  designated h := absurd h Bool.false_ne_true
  cleared _ := rfl

theorem not_need_of_empty {m : SchedulerMgr κ α} (h : m.m_schedulers = ∅) :
    m.isNeedTimer = false := by
  rw [SchedulerMgr.isNeedTimer, h]
  rfl

theorem Standing.running_of_need {s : Service Unit κ α} (h : Standing s)
    (hneed : (s.mgrs ()).isNeedTimer = true) : s.running () = true := by
  by_contra hstopped
  rw [not_need_of_empty (h.cleared (Bool.eq_false_iff.mpr hstopped))] at hneed
  exact Bool.false_ne_true hneed

theorem clocked_iff {s : Service Unit κ α} (h : Standing s) :
    Clocked s ↔ (s.frame = none → (s.mgrs ()).isNeedTimer = true → s.timeouts ≠ []) := by
  unfold Clocked
  refine forall_congr' fun _ => forall_congr' fun hneed => ?_
  have hrun := h.running_of_need hneed
  rw [drivers, if_pos ⟨h.designated hrun, hrun⟩]
  exact List.length_pos_iff

theorem running_set (t : Service Unit κ α) (x : Unit) (m : SchedulerMgr κ α) (d : Drive) :
    ((t.setMgr x m).drive x d).running () = m.m_isRunTime := by
  rw [running, drive_mgrs, setMgr_self]

theorem standing_started {m : SchedulerMgr κ α} (hindexed : m.Indexed)
    (hrun : m.m_isRunTime = true) (t : Service Unit κ α) (x : Unit) :
    Standing ((t.setMgr x m).drive x .start) where
  indexed y := by
    obtain rfl : y = x := rfl
    rw [drive_mgrs, setMgr_self]
    exact hindexed
  designated _ := rfl
  cleared hstopped := by
    rw [running_set, hrun] at hstopped
    exact absurd hstopped Bool.noConfusion

theorem standing_stopped (t : Service Unit κ α) (x : Unit) (idBase : Nat) :
    Standing ((t.setMgr x ⟨∅, false, idBase⟩).drive x .stop) where
  indexed y := by
    obtain rfl : y = x := rfl
    rw [drive_mgrs, setMgr_self]
    exact SchedulerMgr.indexed_empty false idBase
  designated hrun := by
    rw [running_set] at hrun
    exact absurd hrun Bool.false_ne_true
  cleared _ := by rw [drive_mgrs, setMgr_self]

theorem standing_step {s s' : Service Unit κ α} {e : Event Unit κ α} (h : Standing s)
    (hstep : s.step e = some s') : Standing s' := by
  have hindexed := indexed_step h.indexed hstep
  cases steps_of_step hstep with
  | refused x _ _ => exact h
  | register x hallowed hadded =>
      obtain ⟨hadd, hdrive⟩ := (h.indexed x).added hadded
      by_cases hrun : (s.mgrs x).m_isRunTime = true
      · rw [hdrive, if_pos hrun] at hindexed ⊢
        refine ⟨hindexed, fun _ => h.designated hrun, fun hstopped => ?_⟩
        rw [running_set, hadd.running] at hstopped
        exact absurd hstopped Bool.noConfusion
      · rw [hdrive, if_neg hrun]
        exact standing_started hadd.indexed hadd.running _ x
  | unregister x name _ =>
      have hsame := SchedulerMgr.unregister_isRunTime (s.mgrs x) name
      refine ⟨hindexed, fun hrun => ?_, fun hstopped => ?_⟩
      · rw [running, setMgr_self, hsame] at hrun
        exact h.designated hrun
      · rw [running, setMgr_self, hsame] at hstopped
        have hempty := h.cleared hstopped
        rw [setMgr_self, SchedulerMgr.unregister, hempty]
        exact hempty
  | unregisterAllschedule x _ => exact standing_stopped _ x _
  | clock => exact ⟨h.indexed, h.designated, h.cleared⟩
  | timeout x _ _ _ =>
      have hmgrs : ((s.fired x).timeoutCallback).mgrs = s.mgrs := timeoutCallback_mgrs _
      refine ⟨hindexed, fun hrun => ?_, fun hstopped => ?_⟩
      · rw [running, hmgrs] at hrun
        have hopened := timeoutCallback_of_running (s := s.fired x) (h.designated hrun) hrun
        rw [hopened]
        exact h.designated hrun
      · rw [running, hmgrs] at hstopped
        rw [hmgrs]
        exact h.cleared hstopped
  | visit x name _ hready =>
      have hsame := (SchedulerMgr.visit_indexed (h.indexed x) name).2.2
      refine ⟨hindexed, fun hrun => ?_, fun hstopped => ?_⟩
      · rw [running, setMgr_self, hsame] at hrun
        exact h.designated hrun
      · rw [running, setMgr_self, hsame] at hstopped
        have hmem := hready.2.2.2.1
        rw [h.cleared hstopped] at hmem
        exact absurd hmem (AList.notMem_empty name)
  | callbackReturn x _ _ => exact ⟨h.indexed, h.designated, h.cleared⟩
  | endUpdate x hframe hready =>
      rename_i f
      have hfinished := (SchedulerMgr.finishUpdate_indexed (h.indexed x) f.deathIds).1
      rw [SchedulerMgr.finishUpdate_eq] at hfinished ⊢
      split_ifs at hfinished ⊢
      · exact standing_started hfinished rfl _ x
      · exact standing_stopped _ x _

theorem indexed_failingStep {s s' : Service Unit κ α} {e : FailingEvent κ α}
    (h : ∀ x, (s.mgrs x).Indexed) (hstep : failingStep s e = some s') :
    ∀ x, (s'.mgrs x).Indexed := by
  cases e with
  | call e => exact indexed_step h hstep
  | raise =>
      obtain ⟨_, rfl⟩ := raise_eq hstep
      exact h

theorem standing_failingStep {s s' : Service Unit κ α} {e : FailingEvent κ α} (h : Standing s)
    (hstep : failingStep s e = some s') : Standing s' := by
  cases e with
  | call e => exact standing_step h hstep
  | raise =>
      obtain ⟨_, rfl⟩ := raise_eq hstep
      exact ⟨h.indexed, h.designated, h.cleared⟩

theorem unregister_need {m : SchedulerMgr κ α} {name : Nat}
    (h : (m.unregister name).isNeedTimer = true) : m.isNeedTimer = true := by
  obtain ⟨id, t, hlookup, halive⟩ := (SchedulerMgr.isNeedTimer_iff _).mp h
  obtain ⟨old, hold, rfl | rfl⟩ := SchedulerMgr.unregister_origin hlookup
  · exact (SchedulerMgr.isNeedTimer_iff m).mpr ⟨id, t, hold, halive⟩
  · exact absurd halive Bool.false_ne_true

/-- One timeout is pending while the manager runs, none while it is stopped or ticks. -/
structure Orderly (s : Service Unit κ α) : Prop where
  standing : Standing s
  waiting : s.frame = none → s.running () = true → s.timeouts.length = 1
  stopped : s.running () = false → s.timeouts = []
  ticking : s.frame ≠ none → s.running () = true ∧ s.timeouts = []

theorem orderly_start : Orderly (start : Service Unit κ α) where
  standing := standing_start
  waiting _ h := absurd h Bool.false_ne_true
  stopped _ := rfl
  ticking h := absurd rfl h

theorem Orderly.tick {s s' : Service Unit κ α} (h : Orderly s) (hstanding : Standing s')
    (hframe : s.frame ≠ none) (hframe' : s'.frame ≠ none)
    (hrunning : s'.running () = s.running ()) (htimeouts : s'.timeouts = s.timeouts) :
    Orderly s' := by
  obtain ⟨hrun, hnothing⟩ := h.ticking hframe
  rw [← hrunning] at hrun
  rw [← htimeouts] at hnothing
  refine ⟨hstanding, fun hnone => absurd hnone hframe', fun hstopped => ?_,
    fun _ => ⟨hrun, hnothing⟩⟩
  rw [hrun] at hstopped
  exact absurd hstopped Bool.noConfusion

/-- Only a running manager waits for a timeout, so the one that fires begins a tick. -/
theorem Orderly.timeout {s : Service Unit κ α} (h : Orderly s) {x : Unit} {t : Timeout Unit}
    (hidle : s.frame = none) (hfound : (s.timeouts.find? fun t => t.starter = x) = some t)
    (hstanding : Standing (s.fired x).timeoutCallback) : Orderly (s.fired x).timeoutCallback := by
  have hmem := List.mem_of_find?_eq_some hfound
  have hrun : s.running () = true := by
    by_contra hstopped
    rw [h.stopped (Bool.eq_false_iff.mpr hstopped)] at hmem
    exact List.not_mem_nil hmem
  have hopened := timeoutCallback_of_running (s := s.fired x) (h.standing.designated hrun) hrun
  have hnothing : (s.fired x).timeouts = [] := by
    have hlength := List.length_eraseP_of_mem hmem (List.find?_some hfound)
    rw [h.waiting hidle hrun] at hlength
    exact List.length_eq_zero_iff.mp hlength
  rw [hopened] at hstanding ⊢
  refine ⟨hstanding, fun hframe => absurd hframe (Option.some_ne_none _), fun hstopped => ?_,
    fun _ => ⟨hrun, hnothing⟩⟩
  exact absurd (hstopped.symm.trans hrun) Bool.noConfusion

theorem orderly_step {s s' : Service Unit κ α} {e : Event Unit κ α} (h : Orderly s)
    (hkept : e ≠ .unregisterAllschedule ()) (hstep : s.step e = some s') : Orderly s' := by
  have hstanding := standing_step h.standing hstep
  cases steps_of_step hstep with
  | refused x _ _ => exact h
  | register x hallowed hadded =>
      obtain ⟨hadd, hdrive⟩ := (h.standing.indexed x).added hadded
      by_cases hrun : (s.mgrs x).m_isRunTime = true
      · rw [hdrive, if_pos hrun] at hstanding ⊢
        refine ⟨hstanding, fun hframe _ => ?_, fun hstopped => ?_,
          fun hframe => ⟨(running_set _ x _ _).trans hadd.running, ?_⟩⟩
        · exact h.waiting (Option.map_eq_none_iff.mp hframe) hrun
        · rw [running_set, hadd.running] at hstopped
          exact absurd hstopped Bool.noConfusion
        · exact (h.ticking fun hnone => hframe (Option.map_eq_none_iff.mpr hnone)).2
      · -- a stopped manager is not in a tick, and nothing is pending
        have hstopped : s.running () = false := Bool.eq_false_iff.mpr hrun
        have hframe : s.frame = none := by
          by_contra hframe
          exact hrun (h.ticking hframe).1
        rw [hdrive, if_neg hrun] at hstanding ⊢
        refine ⟨hstanding, fun _ _ => ?_, fun hstopped' => ?_, fun hframe' => ?_⟩
        · change (s.timeouts ++ [(⟨x, s.now + 10⟩ : Timeout Unit)]).length = 1
          rw [h.stopped hstopped]
          rfl
        · rw [running_set, hadd.running] at hstopped'
          exact absurd hstopped' Bool.noConfusion
        · exact absurd (Option.map_eq_none_iff.mpr hframe) hframe'
  | unregister x name _ =>
      have hsame : (s.setMgr x ((s.mgrs x).unregister name)).running () = s.running () := by
        rw [running, setMgr_self, SchedulerMgr.unregister_isRunTime]
        rfl
      refine ⟨hstanding, ?_, ?_, ?_⟩
      · rw [hsame]
        exact h.waiting
      · rw [hsame]
        exact h.stopped
      · rw [hsame]
        exact h.ticking
  | unregisterAllschedule x _ => exact absurd rfl hkept
  | clock => exact ⟨hstanding, h.waiting, h.stopped, h.ticking⟩
  | timeout x hidle hfound _ =>
      exact h.timeout hidle hfound hstanding
  | visit x name hframe _ =>
      refine h.tick hstanding (by rw [hframe]; exact Option.some_ne_none _)
        (Option.some_ne_none _) ?_ rfl
      rw [running, setMgr_self]
      exact (SchedulerMgr.visit_indexed (h.standing.indexed x) name).2.2
  | callbackReturn x hframe _ =>
      exact h.tick hstanding (by rw [hframe]; exact Option.some_ne_none _)
        (Option.some_ne_none _) rfl rfl
  | endUpdate x hframe hready =>
      rename_i f
      obtain ⟨_, hnothing⟩ := h.ticking (by rw [hframe]; exact Option.some_ne_none f)
      rw [SchedulerMgr.finishUpdate_eq] at hstanding ⊢
      split_ifs at hstanding ⊢
      · refine ⟨hstanding, fun _ _ => ?_, fun hstopped => ?_, fun hticks => absurd rfl hticks⟩
        · change (s.timeouts ++ [(⟨x, s.now + 10⟩ : Timeout Unit)]).length = 1
          rw [hnothing]
          rfl
        · rw [running_set] at hstopped
          exact absurd hstopped Bool.noConfusion
      · refine ⟨hstanding, fun _ hrun => ?_, fun _ => hnothing, fun hticks => absurd rfl hticks⟩
        rw [running_set] at hrun
        exact absurd hrun Bool.false_ne_true

theorem Orderly.clocked {s : Service Unit κ α} (h : Orderly s) : Clocked s := by
  rw [clocked_iff h.standing]
  intro hframe hneed hnothing
  have hone := h.waiting hframe (h.standing.running_of_need hneed)
  rw [hnothing] at hone
  exact Nat.zero_ne_one hone

/-! ## A stalled manager -/

/-- The manager counts as running and nothing will run it. -/
structure Stalled (s : Service Unit κ α) : Prop where
  idle : s.frame = none
  running : s.running () = true
  nothing : s.timeouts = []

theorem stalled_step {s s' : Service Unit κ α} {e : FailingEvent κ α}
    (hindexed : ∀ x, (s.mgrs x).Indexed) (h : Stalled s)
    (hkept : e ≠ .call (.unregisterAllschedule ())) (hstep : failingStep s e = some s') :
    Stalled s' ∧ s'.ticks = s.ticks := by
  cases e with
  | raise => exact absurd h.idle (raise_eq hstep).1
  | call e =>
      cases steps_of_step hstep with
      | refused x _ _ => exact ⟨h, rfl⟩
      | register x hallowed hadded => 
          obtain ⟨hadd, hdrive⟩ := (hindexed x).added hadded
          have hrun : (s.mgrs x).m_isRunTime = true := h.running
          rw [hdrive, if_pos hrun]
          refine ⟨⟨Option.map_eq_none_iff.mpr h.idle, ?_, h.nothing⟩, rfl⟩
          rw [Service.running, drive_mgrs, setMgr_self]
          exact hadd.running
      | unregister x name _ =>
          refine ⟨⟨h.idle, ?_, h.nothing⟩, rfl⟩
          rw [Service.running, setMgr_self, SchedulerMgr.unregister_isRunTime]
          exact h.running
      | unregisterAllschedule x _ => exact absurd rfl hkept
      | clock => exact ⟨⟨h.idle, h.running, h.nothing⟩, rfl⟩
      | timeout x _ hpending _ =>
          rw [h.nothing] at hpending
          exact absurd hpending.symm (Option.some_ne_none _)
      | visit x name hframe _ => exact absurd (hframe.symm.trans h.idle) (Option.some_ne_none _)
      | callbackReturn x hframe _ =>
          exact absurd (hframe.symm.trans h.idle) (Option.some_ne_none _)
      | endUpdate x hframe _ => exact absurd (hframe.symm.trans h.idle) (Option.some_ne_none _)

/-- A stalled manager ticks no more until all its timers are unregistered. -/
theorem stalled_run (es : List (FailingEvent κ α)) (s t : Service Unit κ α)
    (hindexed : ∀ x, (s.mgrs x).Indexed) (h : Stalled s)
    (hkept : FailingEvent.call (.unregisterAllschedule ()) ∉ es)
    (hrun : run failingStep s es = some t) : t.ticks = s.ticks := by
  induction es generalizing s with
  | nil =>
      cases Option.some.inj hrun
      rfl
  | cons e es ih =>
      obtain ⟨s', hstep, hrest⟩ := (run_cons_eq_some failingStep s t e es).mp hrun
      have hne : e ≠ .call (.unregisterAllschedule ()) := fun he => hkept (by simp [he])
      obtain ⟨hstalled, hticks⟩ := stalled_step hindexed h hne hstep
      have hindexed' := indexed_failingStep hindexed hstep
      have hrestKept : FailingEvent.call (.unregisterAllschedule ()) ∉ es :=
        fun hmem => hkept (List.mem_cons_of_mem e hmem)
      rw [ih s' hindexed' hstalled hrestKept hrest, hticks]

theorem clocked_of_stalled {s : Service Unit κ α} (hstanding : Standing s) (h : Stalled s) :
    Clocked s ↔ (s.mgrs ()).isNeedTimer = false := by
  rw [clocked_iff hstanding]
  constructor
  · intro hclocked
    by_contra hneed
    exact hclocked h.idle (Bool.not_eq_false _ ▸ hneed) h.nothing
  · intro hneed _ halive
    rw [hneed] at halive
    exact absurd halive Bool.false_ne_true

/-- Only a registration brings a live timer into the table of a stalled manager. -/
theorem stalled_need {s s' : Service Unit κ α} {e : FailingEvent κ α} (hstanding : Standing s)
    (h : Stalled s) (hneed : (s.mgrs ()).isNeedTimer = false)
    (hkept : e ≠ .call (.unregisterAllschedule ())) (hstep : failingStep s e = some s') :
    (s'.mgrs ()).isNeedTimer = false ↔ ¬ Registers e := by
  cases e with
  | raise => exact absurd h.idle (raise_eq hstep).1
  | call e =>
      cases steps_of_step hstep with
      | refused x _ hfailed =>
          exact iff_of_true hneed ((hstanding.indexed x).not_unit_of_refused hfailed)
      | register x hallowed hadded =>
          obtain ⟨hadd, _⟩ := (hstanding.indexed x).added hadded
          have hunit := (hstanding.indexed x).unit_of_added hadded
          have halive := (SchedulerMgr.isNeedTimer_iff _).mpr ⟨_, _, hadd.lookup, rfl⟩
          refine iff_of_false (fun hdead => ?_) (fun hnot => hnot hunit)
          rw [drive_mgrs, setMgr_self, halive] at hdead
          exact Bool.noConfusion hdead
      | unregister x name _ =>
          refine iff_of_true ?_ id
          rw [setMgr_self]
          by_contra hlive
          have hbefore := unregister_need (Bool.not_eq_false _ ▸ hlive)
          exact Bool.false_ne_true (hneed.symm.trans hbefore)
      | unregisterAllschedule x _ => exact absurd rfl hkept
      | clock => exact iff_of_true hneed id
      | timeout x _ hpending _ =>
          rw [h.nothing] at hpending
          exact absurd hpending.symm (Option.some_ne_none _)
      | visit x name hframe _ => exact absurd (hframe.symm.trans h.idle) (Option.some_ne_none _)
      | callbackReturn x hframe _ =>
          exact absurd (hframe.symm.trans h.idle) (Option.some_ne_none _)
      | endUpdate x hframe _ => exact absurd (hframe.symm.trans h.idle) (Option.some_ne_none _)

/-- From a stall on, the clock is missed as soon as there is a timer to drive. -/
theorem stalled_clocked_iff : ∀ (es : List (FailingEvent κ α)) (s t : Service Unit κ α),
    Standing s → Stalled s → FailingEvent.call (.unregisterAllschedule ()) ∉ es →
      run failingStep s es = some t →
      (Always failingStep Clocked s es ↔
        (s.mgrs ()).isNeedTimer = false ∧ ∀ e ∈ es, ¬ Registers e) := by
  intro es
  induction es with
  | nil =>
      intro s t hstanding h _ _
      simpa [Always] using clocked_of_stalled hstanding h
  | cons e es ih =>
      intro s t hstanding h hkept hrun
      obtain ⟨s', hstep, hrest⟩ := (run_cons_eq_some failingStep s t e es).mp hrun
      rw [List.mem_cons, not_or] at hkept
      obtain ⟨hstalled, _⟩ := stalled_step hstanding.indexed h (Ne.symm hkept.1) hstep
      have hnext := ih s' t (standing_failingStep hstanding hstep) hstalled hkept.2 hrest
      rw [always_cons_iff hstep, hnext, clocked_of_stalled hstanding h, List.forall_mem_cons]
      refine and_congr_right fun hneed => ?_
      rw [stalled_need hstanding h hneed (Ne.symm hkept.1) hstep]

theorem Orderly.stalled {s s' : Service Unit κ α} (h : Orderly s) (hraise : raise s = some s') :
    Stalled s' := by
  obtain ⟨hframe, rfl⟩ := raise_eq hraise
  obtain ⟨hrun, hnothing⟩ := h.ticking hframe
  exact ⟨rfl, hrun, hnothing⟩

theorem stalled_no_raise : ∀ (es : List (FailingEvent κ α)) (s t : Service Unit κ α),
    (∀ x, (s.mgrs x).Indexed) → Stalled s →
      FailingEvent.call (.unregisterAllschedule ()) ∉ es → run failingStep s es = some t →
      FailingEvent.raise ∉ es := by
  intro es
  induction es with
  | nil => intro s t _ _ _ _; exact List.not_mem_nil
  | cons e es ih =>
      intro s t hindexed h hkept hrun
      obtain ⟨s', hstep, hrest⟩ := (run_cons_eq_some failingStep s t e es).mp hrun
      rw [List.mem_cons, not_or] at hkept ⊢
      obtain ⟨hstalled, _⟩ := stalled_step hindexed h (Ne.symm hkept.1) hstep
      refine ⟨?_, ih s' t (indexed_failingStep hindexed hstep) hstalled hkept.2 hrest⟩
      rintro rfl
      exact (raise_eq hstep).1 h.idle

theorem orderly_clocked_iff : ∀ (es : List (FailingEvent κ α)) (s t : Service Unit κ α),
    Orderly s → FailingEvent.call (.unregisterAllschedule ()) ∉ es →
      run failingStep s es = some t →
      (Always failingStep Clocked s es ↔ Along failingStep RaisesSpent s es ∧
        es.Pairwise fun e later => e = .raise → ¬ Registers later) := by
  intro es
  induction es with
  | nil =>
      intro s t h _ _
      exact iff_of_true h.clocked ⟨trivial, List.Pairwise.nil⟩
  | cons e es ih =>
      intro s t h hkept hrun
      obtain ⟨s', hstep, hrest⟩ := (run_cons_eq_some failingStep s t e es).mp hrun
      rw [List.mem_cons, not_or] at hkept
      rw [always_cons_iff hstep, along_cons_iff hstep, List.pairwise_cons]
      cases e with
      | call e =>
          have hne : e ≠ .unregisterAllschedule () := fun he => hkept.1 (he ▸ rfl)
          have hnext := ih s' t (orderly_step h hne hstep) hkept.2 hrest
          simp [hnext, h.clocked, RaisesSpent]
      | raise =>
          have hstalled := h.stalled hstep
          have hstanding := standing_failingStep h.standing hstep
          have hnone := stalled_no_raise es s' t hstanding.indexed hstalled hkept.2 hrest
          have hspent : Along failingStep RaisesSpent s' es := by
            refine along_of_forall failingStep es s' fun d hd u => ?_
            cases d with
            | call d => trivial
            | raise => exact absurd hd hnone
          have hpairs : es.Pairwise fun e later => e = .raise → ¬ Registers later := by
            refine List.pairwise_of_forall_mem_list fun d hd later _ hraise => ?_
            exact absurd (hraise ▸ hd) hnone
          have hneed : (s'.mgrs ()).isNeedTimer = (s.mgrs ()).isNeedTimer := by
            obtain ⟨_, rfl⟩ := raise_eq hstep
            rfl
          rw [stalled_clocked_iff es s' t hstanding hstalled hkept.2 hrest, hneed]
          simp [h.clocked, hspent, hpairs, RaisesSpent]

/-- In every run of `register`, `unregister` and ticks in which callbacks may raise, live timers
have a driver in every state outside the ticks if and only if each raise comes when no timer is
left alive and none is registered after it. -/
theorem clock_survives_iff (es : List (FailingEvent κ α)) (t : Service Unit κ α)
    (hkept : FailingEvent.call (.unregisterAllschedule ()) ∉ es)
    (hrun : run failingStep start es = some t) :
    Always failingStep Clocked (start : Service Unit κ α) es ↔
      Along failingStep RaisesSpent (start : Service Unit κ α) es ∧
        es.Pairwise fun e later => e = .raise → ¬ Registers later :=
  orderly_clocked_iff es start t orderly_start hkept hrun

end FailingCallbacks

/-! ## One raise -/

def firstShot (times : Int) : List (FailingEvent Unit Unit) :=
  .call (.register () (some ()) 100 times 0 none []) ::
    (List.replicate 10 (.call .clock) ++ [.call (.timeout ()), .call (.visit () 1)])

/-- The only timer has spent its only shot, so the raise leaves nothing to drive. -/
theorem clock_survives_last_shot :
    Always failingStep Clocked (start : Service Unit Unit Unit) (firstShot 1 ++ [.raise]) := by
  have hcalls : ∀ e ∈ firstShot 1, e ≠ .raise ∧ e ≠ .call (.unregisterAllschedule ()) := by
    intro e he
    simp only [firstShot, List.mem_cons, List.mem_append, List.mem_replicate, List.not_mem_nil,
      or_false] at he
    rcases he with rfl | ⟨_, rfl⟩ | rfl | rfl <;> exact ⟨nofun, nofun⟩
  refine (clock_survives_iff (firstShot 1 ++ [.raise]) _ ?_ rfl).mpr ⟨?_, ?_⟩
  · intro hmem
    rcases List.mem_append.mp hmem with hmem | hmem
    · exact (hcalls _ hmem).2 rfl
    · cases List.mem_singleton.mp hmem
  · refine along_append failingStep RaisesSpent _ _ _ ?_ fun t ht => ?_
    · refine along_of_forall failingStep _ _ fun e he s => ?_
      cases e with
      | call e => trivial
      | raise => exact absurd rfl (hcalls _ he).1
    · cases Option.some.inj ht
      exact ⟨rfl, fun _ _ => trivial⟩
  · refine List.pairwise_append.mpr ⟨?_, List.pairwise_singleton _ _, ?_⟩
    · exact List.pairwise_of_forall_mem_list fun e he _ _ hraise => absurd hraise (hcalls e he).1
    · intro e he _ _ hraise
      exact absurd hraise (hcalls e he).1

/-- The endless timer is still alive, and no timeout is left for it. -/
theorem raise_stops_clock :
    ¬ Always failingStep Clocked (start : Service Unit Unit Unit) (firstShot (-1) ++ [.raise]) := by
  intro halways
  have hlast := Always.last failingStep _ _ _ halways rfl
  exact absurd (hlast rfl rfl) (by decide)

end Doudizhu.Timer
