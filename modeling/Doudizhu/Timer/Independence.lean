import Doudizhu.Timer.Service

/-! # Several timer managers in one service

The run of a service as one of its managers `x` would see it is the run with the events of all
other managers left out.  The ticks of every manager are those of its own run exactly when each
timeout finds `instance` as its own manager left it: designating that manager while it runs, and
no running manager otherwise.  `instance` is overwritten by every start and cleared by every stop,
so two managers that run at the same time break this. -/

set_option autoImplicit false

namespace Doudizhu.Timer

open Runs Service

section Independence
variable {ι κ α : Type} [DecidableEq ι]

def concerns (x : ι) : Event ι κ α → Bool
  | .register y .. => y = x
  | .unregister y _ => y = x
  | .unregisterAllschedule y => y = x
  | .clock => true
  | .timeout y => y = x
  | .visit y _ => y = x
  | .callbackReturn y => y = x
  | .endUpdate y => y = x

def ticksOf (x : ι) (s : Service ι κ α) : List (ι × Nat) := s.ticks.filter fun tick => tick.1 = x

/-- After every prefix of the events, every manager has had the ticks of its own run. -/
def TicksIndependent (es : List (Event ι κ α)) : Prop :=
  ∀ x pre t, pre <+: es → run step (start : Service ι κ α) pre = some t →
    ∃ own, run step (start : Service ι κ α) (pre.filter (concerns x)) = some own ∧
      ticksOf x t = ticksOf x own

/-- A timeout asked for by `x` finds `x` in `instance` if `x` is running, and otherwise no
running manager. -/
def FindsItsManager (s : Service ι κ α) : Event ι κ α → Prop
  | .timeout x => (s.running x = true → s.instanceMgr = some x) ∧
      (s.running x = false → ∀ y, s.instanceMgr = some y → s.running y = false)
  | _ => True

/-- `p` is what `s` looks like to the manager `x` alone. -/
structure SeenBy (x : ι) (s p : Service ι κ α) : Prop where
  indexed : (p.mgrs x).Indexed
  mgr : s.mgrs x = p.mgrs x
  instanceMgr : p.instanceMgr = if p.running x then some x else none
  timeouts : p.timeouts = s.timeouts.filter fun t => t.starter = x
  now : p.now = s.now
  frame : p.frame = s.frame.filter fun f => f.mgr = x
  ticks : p.ticks = ticksOf x s

theorem seenBy_start (x : ι) : SeenBy x (start : Service ι κ α) start :=
  ⟨SchedulerMgr.indexed_ctor, rfl, rfl, rfl, rfl, rfl, rfl⟩

theorem SeenBy.callAllowed {x : ι} {s p : Service ι κ α} (h : SeenBy x s p)
    (hallowed : s.callAllowed = true) : p.callAllowed = true := by
  unfold Service.callAllowed at hallowed ⊢
  rw [h.frame]
  cases hframe : s.frame with
  | none => rfl
  | some f =>
      rw [hframe] at hallowed
      by_cases hx : f.mgr = x
      · rwa [Option.filter_some_pos (by simpa using hx)]
      · rw [Option.filter_some_neg (by simpa using hx)]

theorem SeenBy.frame_eq {x : ι} {s p : Service ι κ α} (h : SeenBy x s p) {f : Frame ι}
    (hframe : s.frame = some f) (hx : f.mgr = x) : p.frame = some f := by
  rw [h.frame, hframe]
  exact Option.filter_some_pos (by simpa using hx)

/-- A call on `x` leaves the two states related, whatever it does to the module. -/
theorem SeenBy.drive {x : ι} {s p : Service ι κ α} (h : SeenBy x s p)
    {fs fp : Option (Frame ι)} (hframe : fp = fs.filter fun f => f.mgr = x)
    {m : SchedulerMgr κ α} (hindexed : m.Indexed) {d : Drive}
    (hrunning : m.m_isRunTime = match d with
      | .keep => p.running x
      | .start => true
      | .stop => false) :
    SeenBy x (({ s with frame := fs }.setMgr x m).drive x d)
      (({ p with frame := fp }.setMgr x m).drive x d) := by
  have hmgr : ∀ (t : Service ι κ α) (f : Option (Frame ι)),
      (({ t with frame := f }.setMgr x m).drive x d).mgrs x = m := by
    intro t f
    rw [drive_mgrs, setMgr_self]
  have hrun : (({ p with frame := fp }.setMgr x m).drive x d).running x = m.m_isRunTime := by
    rw [running, hmgr]
  refine ⟨?_, ?_, ?_, ?_, ?_, ?_, ?_⟩
  · rw [hmgr]
    exact hindexed
  · rw [hmgr, hmgr]
  · rw [hrun, hrunning]
    cases d with
    | keep => exact h.instanceMgr
    | start => rfl
    | stop => rfl
  · cases d with
    | keep => exact h.timeouts
    | start =>
        change p.timeouts ++ [(⟨x, p.now + 10⟩ : Timeout ι)] =
          (s.timeouts ++ [(⟨x, s.now + 10⟩ : Timeout ι)]).filter fun t => t.starter = x
        rw [List.filter_append, h.timeouts, h.now]
        simp
    | stop => exact h.timeouts
  · rw [drive_now, drive_now]
    exact h.now
  · rw [drive_frame, drive_frame]
    exact hframe
  · unfold ticksOf
    rw [drive_ticks, drive_ticks]
    exact h.ticks

theorem filter_map_frame {g : Frame ι → ι → Frame ι} (hg : ∀ f y, (g f y).mgr = f.mgr) (x : ι)
    (frame : Option (Frame ι)) :
    ((frame.map fun f => g f x).filter fun f => f.mgr = x) =
      (frame.filter fun f => f.mgr = x).map fun f => g f x := by
  cases frame with
  | none => rfl
  | some f =>
      by_cases hx : f.mgr = x
      · rw [Option.map_some, Option.filter_some_pos (by simpa [hg] using hx),
          Option.filter_some_pos (by simpa using hx), Option.map_some]
      · rw [Option.map_some, Option.filter_some_neg (by simpa [hg] using hx),
          Option.filter_some_neg (by simpa using hx), Option.map_none]

theorem find?_filter_starter (x : ι) : ∀ timeouts : List (Timeout ι),
    ((timeouts.filter fun t => t.starter = x).find? fun t => t.starter = x) =
      timeouts.find? fun t => t.starter = x := by
  intro timeouts
  induction timeouts with
  | nil => rfl
  | cons t timeouts ih =>
      by_cases hx : t.starter = x
      · simp [hx]
      · simp [hx]

theorem eraseP_filter_starter (x : ι) : ∀ timeouts : List (Timeout ι),
    ((timeouts.filter fun t => t.starter = x).eraseP fun t => t.starter = x) =
      (timeouts.eraseP fun t => t.starter = x).filter fun t => t.starter = x := by
  intro timeouts
  induction timeouts with
  | nil => rfl
  | cons t timeouts ih =>
      by_cases hx : t.starter = x
      · simp [hx]
      · simpa [hx] using ih

theorem eraseP_filter_ne {x y : ι} (hne : y ≠ x) : ∀ timeouts : List (Timeout ι),
    ((timeouts.eraseP fun t => t.starter = y).filter fun t => t.starter = x) =
      timeouts.filter fun t => t.starter = x := by
  intro timeouts
  induction timeouts with
  | nil => rfl
  | cons t timeouts ih =>
      by_cases hy : t.starter = y
      · have hx : t.starter ≠ x := fun hx => hne (hy.symm.trans hx)
        simp [hy, hne]
      · by_cases hx : t.starter = x
        · simpa [hy, hx, Ne.symm hne] using ih
        · simpa [hy, hx] using ih

/-- The timeout is the first of `y` in both runs, and `instance` is `y` in both when it is to
run. -/
theorem SeenBy.timeout {y : ι} {s p : Service ι κ α} (h : SeenBy y s p)
    (hown : FindsItsManager s (.timeout y)) (hidle : s.frame = none) {t : Timeout ι}
    (hpending : (s.timeouts.find? fun t => t.starter = y) = some t) (hdue : t.due ≤ s.now) :
    ∃ p', p.step (.timeout y) = some p' ∧ SeenBy y (s.fired y).timeoutCallback p' := by
  have hpframe : p.frame = none := by rw [h.frame, hidle]; rfl
  have hppending : (p.timeouts.find? fun t => t.starter = y) = some t := by
    rw [h.timeouts, find?_filter_starter]
    exact hpending
  refine ⟨_, step_of_steps (.timeout y hpframe hppending (h.now ▸ hdue)), ?_⟩
  have htimeouts : (p.timeouts.eraseP fun t => t.starter = y) =
      (s.timeouts.eraseP fun t => t.starter = y).filter fun t => t.starter = y := by
    rw [h.timeouts, eraseP_filter_starter]
  have hsame : s.running y = p.running y := congrArg SchedulerMgr.m_isRunTime h.mgr
  by_cases hrun : s.running y = true
  · -- `instance` is `y` in both, and both start the update
    have hprun : p.running y = true := hsame ▸ hrun
    have hpinstance : p.instanceMgr = some y := by rw [h.instanceMgr, if_pos hprun]
    have hs := timeoutCallback_of_running (s := s.fired y) (hown.1 hrun) hrun
    have hp := timeoutCallback_of_running (s := p.fired y) hpinstance hprun
    rw [hs, hp]
    refine ⟨h.indexed, h.mgr, h.instanceMgr, htimeouts, h.now, ?_, ?_⟩
    · exact (Option.filter_some_pos (by simp)).symm
    · change p.ticks ++ [(y, p.now)] = (s.ticks ++ [(y, s.now)]).filter _
      rw [List.filter_append, h.ticks, h.now]
      simp [ticksOf]
  · have hidle' : s.running y = false := Bool.eq_false_iff.mpr hrun
    have hprun : ¬ p.running y = true := hsame ▸ hrun
    have hpinstance : p.instanceMgr = none := by rw [h.instanceMgr, if_neg hprun]
    have hs := timeoutCallback_of_idle (s := s.fired y) (hown.2 hidle')
    have hp := timeoutCallback_of_idle (s := p.fired y) fun z hz =>
      absurd (hpinstance.symm.trans hz).symm (Option.some_ne_none z)
    rw [hs, hp]
    exact ⟨h.indexed, h.mgr, h.instanceMgr, htimeouts, h.now, h.frame, h.ticks⟩

/-- An event that concerns `x` can take place in the run of `x` alone, to the same effect. -/
theorem seenBy_retained {x : ι} {s p s' : Service ι κ α} {e : Event ι κ α} (h : SeenBy x s p)
    (hown : FindsItsManager s e) (hx : concerns x e = true) (hstep : s.step e = some s') :
    ∃ p', p.step e = some p' ∧ SeenBy x s' p' := by
  cases steps_of_step hstep with
  | refused y hallowed hfailed =>
      obtain rfl : y = x := of_decide_eq_true hx
      rw [h.mgr] at hfailed
      exact ⟨p, step_of_steps (.refused y (h.callAllowed hallowed) hfailed), h⟩
  | register y hallowed hadded =>
      obtain rfl : y = x := of_decide_eq_true hx
      rename_i m d name
      rw [h.mgr] at hadded
      obtain ⟨hadd, hdrive⟩ := h.indexed.added hadded
      refine ⟨_, step_of_steps (.register y (h.callAllowed hallowed) hadded), ?_⟩
      refine h.drive ?_ hadd.indexed ?_
      · rw [filter_map_frame grow_mgr, h.frame]
      · rw [hdrive, hadd.running]
        by_cases hrun : (p.mgrs y).m_isRunTime = true
        · rw [if_pos hrun]
          exact hrun.symm
        · rw [if_neg hrun]
  | unregister y name hallowed =>
      obtain rfl : y = x := of_decide_eq_true hx
      refine ⟨_, step_of_steps (.unregister y name (h.callAllowed hallowed)), ?_⟩
      rw [h.mgr]
      refine SeenBy.drive (d := .keep) h h.frame (h.indexed.unregister name) ?_
      exact SchedulerMgr.unregister_isRunTime _ name
  | unregisterAllschedule y hallowed =>
      obtain rfl : y = x := of_decide_eq_true hx
      refine ⟨_, step_of_steps (.unregisterAllschedule y (h.callAllowed hallowed)), ?_⟩
      rw [h.mgr]
      refine SeenBy.drive (d := .stop) h ?_ (SchedulerMgr.indexed_empty _ _) rfl
      rw [filter_map_frame replace_mgr, h.frame]
  | clock =>
      refine ⟨_, step_of_steps .clock, ?_⟩
      exact ⟨h.indexed, h.mgr, h.instanceMgr, h.timeouts, congrArg (· + 1) h.now, h.frame, h.ticks⟩
  | timeout y hidle hpending hdue =>
      obtain rfl : y = x := of_decide_eq_true hx
      exact h.timeout hown hidle hpending hdue
  | visit y name hframe hready =>
      obtain rfl : y = x := of_decide_eq_true hx
      have hpframe := h.frame_eq hframe hready.1
      refine ⟨_, step_of_steps (.visit y name hpframe (h.mgr ▸ hready)), ?_⟩
      obtain ⟨hindexed, _, hrunning⟩ := SchedulerMgr.visit_indexed h.indexed name
      rw [h.mgr]
      refine SeenBy.drive (d := .keep) h ?_ hindexed hrunning
      exact (Option.filter_some_pos (by simpa using hready.1)).symm
  | callbackReturn y hframe hready =>
      obtain rfl : y = x := of_decide_eq_true hx
      have hpframe := h.frame_eq hframe hready.1
      refine ⟨_, step_of_steps (.callbackReturn y hpframe hready), ?_⟩
      refine ⟨h.indexed, h.mgr, h.instanceMgr, h.timeouts, h.now, ?_, h.ticks⟩
      exact (Option.filter_some_pos (by simpa using hready.1)).symm
  | endUpdate y hframe hready =>
      obtain rfl : y = x := of_decide_eq_true hx
      rename_i f
      have hpframe := h.frame_eq hframe hready.1
      refine ⟨_, step_of_steps (.endUpdate y hpframe (h.mgr ▸ hready)), ?_⟩
      rw [h.mgr]
      refine SeenBy.drive h rfl (SchedulerMgr.finishUpdate_indexed h.indexed f.deathIds).1 ?_
      rw [SchedulerMgr.finishUpdate_eq]
      split_ifs <;> rfl

theorem SeenBy.drive_other {x y : ι} (hne : y ≠ x) {s p : Service ι κ α} (h : SeenBy x s p)
    {fs : Option (Frame ι)}
    (hframe : (fs.filter fun f => f.mgr = x) = s.frame.filter fun f => f.mgr = x)
    (m : SchedulerMgr κ α) (d : Drive) :
    SeenBy x (({ s with frame := fs }.setMgr y m).drive y d) p := by
  refine ⟨h.indexed, ?_, h.instanceMgr, ?_, ?_, ?_, ?_⟩
  · rw [drive_mgrs, setMgr_of_ne _ (Ne.symm hne)]
    exact h.mgr
  · cases d with
    | keep => exact h.timeouts
    | start =>
        change p.timeouts = (s.timeouts ++ [(⟨y, s.now + 10⟩ : Timeout ι)]).filter _
        rw [List.filter_append, ← h.timeouts]
        simp [hne]
    | stop => exact h.timeouts
  · rw [drive_now]
    exact h.now
  · rw [drive_frame]
    exact h.frame.trans hframe.symm
  · unfold ticksOf
    rw [drive_ticks]
    exact h.ticks

theorem grow_of_ne {f : Frame ι} {y : ι} (hy : f.mgr ≠ y) : Frame.grow f y = f :=
  if_neg fun h => hy h.1

theorem replace_of_ne {f : Frame ι} {y : ι} (hy : f.mgr ≠ y) : Frame.replace f y = f :=
  if_neg hy

theorem filter_map_ne {g : Frame ι → ι → Frame ι} (hmgr : ∀ f y, (g f y).mgr = f.mgr)
    (hsame : ∀ {f : Frame ι} {y : ι}, f.mgr ≠ y → g f y = f) {x y : ι} (hne : y ≠ x)
    (frame : Option (Frame ι)) :
    ((frame.map fun f => g f y).filter fun f => f.mgr = x) =
      frame.filter fun f => f.mgr = x := by
  cases frame with
  | none => rfl
  | some f =>
      by_cases hy : f.mgr = y
      · have hx : ¬ f.mgr = x := fun hx => hne (hy.symm.trans hx)
        rw [Option.map_some, Option.filter_some_neg (by simpa [hmgr] using hx),
          Option.filter_some_neg (by simpa using hx)]
      · rw [Option.map_some, hsame hy]

theorem filter_frame_ne {x y : ι} (hne : y ≠ x) {frame : Option (Frame ι)} {f : Frame ι}
    (hframe : frame = some f) (hy : f.mgr = y) : (frame.filter fun f => f.mgr = x) = none := by
  rw [hframe]
  exact Option.filter_some_neg (by simpa [hy] using hne)

theorem seenBy_dropped {x : ι} {s p s' : Service ι κ α} {e : Event ι κ α} (h : SeenBy x s p)
    (hown : FindsItsManager s e) (hx : concerns x e = false) (hstep : s.step e = some s') :
    SeenBy x s' p := by
  cases steps_of_step hstep with
  | refused y _ _ => exact h
  | register y _ _ =>
      have hne : y ≠ x := of_decide_eq_false hx
      exact h.drive_other hne (filter_map_ne grow_mgr grow_of_ne hne s.frame) _ _
  | unregister y name _ =>
      have hne : y ≠ x := of_decide_eq_false hx
      exact h.drive_other hne (d := .keep) rfl _
  | unregisterAllschedule y _ =>
      have hne : y ≠ x := of_decide_eq_false hx
      exact h.drive_other hne (filter_map_ne replace_mgr replace_of_ne hne s.frame) _ _
  | clock => exact absurd hx.symm Bool.false_ne_true
  | timeout y hidle hpending hdue =>
      have hne : y ≠ x := of_decide_eq_false hx
      have htimeouts : p.timeouts = (s.fired y).timeouts.filter fun t => t.starter = x :=
        h.timeouts.trans (eraseP_filter_ne hne s.timeouts).symm
      by_cases hrun : s.running y = true
      · rw [timeoutCallback_of_running (s := s.fired y) (hown.1 hrun) hrun]
        refine ⟨h.indexed, h.mgr, h.instanceMgr, htimeouts, h.now, ?_, ?_⟩
        · rw [h.frame, hidle]
          exact (Option.filter_some_neg (by simpa using hne)).symm
        · change p.ticks = (s.ticks ++ [(y, s.now)]).filter _
          rw [List.filter_append, h.ticks]
          simp [ticksOf, hne]
      · have hidle' : s.running y = false := Bool.eq_false_iff.mpr hrun
        rw [timeoutCallback_of_idle (s := s.fired y) (hown.2 hidle')]
        exact ⟨h.indexed, h.mgr, h.instanceMgr, htimeouts, h.now, h.frame, h.ticks⟩
  | visit y name hframe hready =>
      have hne : y ≠ x := of_decide_eq_false hx
      refine h.drive_other hne (d := .keep) ?_ _
      rw [filter_frame_ne hne hframe hready.1]
      exact Option.filter_some_neg (by simpa [hready.1] using hne)
  | callbackReturn y hframe hready =>
      have hne : y ≠ x := of_decide_eq_false hx
      refine ⟨h.indexed, h.mgr, h.instanceMgr, h.timeouts, h.now, ?_, h.ticks⟩
      rw [h.frame, filter_frame_ne hne hframe hready.1]
      exact (Option.filter_some_neg (by simpa [hready.1] using hne)).symm
  | endUpdate y hframe hready =>
      have hne : y ≠ x := of_decide_eq_false hx
      refine h.drive_other hne ?_ _ _
      rw [filter_frame_ne hne hframe hready.1]
      rfl

theorem seenBy_run (x : ι) {es : List (Event ι κ α)} {t : Service ι κ α}
    (halong : Along step FindsItsManager (start : Service ι κ α) es)
    (hrun : run step (start : Service ι κ α) es = some t) :
    ∃ own, run step (start : Service ι κ α) (es.filter (concerns x)) = some own ∧
      SeenBy x t own :=
  run_filter step step (concerns x) FindsItsManager (SeenBy x)
    (fun _ _ _ _ h hown hx hstep => seenBy_retained h hown hx hstep)
    (fun _ _ _ _ h hown hx hstep => seenBy_dropped h hown hx hstep)
    es start t start (seenBy_start x) halong hrun

theorem ticksOf_eq {x : ι} {s p : Service ι κ α} (h : SeenBy x s p) :
    ticksOf x s = ticksOf x p := by
  unfold ticksOf
  rw [h.ticks]
  unfold ticksOf
  rw [List.filter_filter]
  simp

theorem ticksOf_append_ne {x z : ι} (hne : z ≠ x) (ticks : List (ι × Nat)) (now : Nat) :
    ((ticks ++ [(z, now)]).filter fun tick => tick.1 = x) =
      ticks.filter fun tick => tick.1 = x := by
  rw [List.filter_append]
  simp [hne]

theorem ticksOf_append_self (x : ι) (ticks : List (ι × Nat)) (now : Nat) :
    ((ticks ++ [(x, now)]).filter fun tick => tick.1 = x) =
      (ticks.filter fun tick => tick.1 = x) ++ [(x, now)] := by
  rw [List.filter_append]
  simp

/-- A timeout that does not find its manager starves it, or ticks another one. -/
theorem timeout_astray {s : Service ι κ α} {y : ι} (hastray : ¬ FindsItsManager s (.timeout y)) :
    (s.running y = true ∧ ticksOf y (s.fired y).timeoutCallback = ticksOf y s) ∨
      ∃ z, z ≠ y ∧ ticksOf z (s.fired y).timeoutCallback = ticksOf z s ++ [(z, s.now)] := by
  by_cases hrun : s.running y = true
  · refine Or.inl ⟨hrun, ?_⟩
    have hinstance : s.instanceMgr ≠ some y := by
      intro hinstance
      apply hastray
      refine ⟨fun _ => hinstance, fun hidle => ?_⟩
      exact absurd (hidle.symm.trans hrun) Bool.false_ne_true
    by_cases hother : ∃ z, s.instanceMgr = some z ∧ s.running z = true
    · obtain ⟨z, hz, hzrun⟩ := hother
      have hne : z ≠ y := fun e => hinstance (e ▸ hz)
      rw [timeoutCallback_of_running (s := s.fired y) hz hzrun]
      exact ticksOf_append_ne hne s.ticks s.now
    · rw [timeoutCallback_of_idle (s := s.fired y) fun z hz => ?_]
      · rfl
      · by_contra hzrun
        exact hother ⟨z, hz, (Bool.not_eq_false _).mp hzrun⟩
  · obtain ⟨z, hz, hzrun⟩ : ∃ z, s.instanceMgr = some z ∧ s.running z = true := by
      by_contra hnone
      apply hastray
      refine ⟨fun h => absurd h hrun, fun _ z hz => ?_⟩
      by_contra hzrun
      exact hnone ⟨z, hz, (Bool.not_eq_false _).mp hzrun⟩
    refine Or.inr ⟨z, fun e => hrun (e ▸ hzrun), ?_⟩
    rw [timeoutCallback_of_running (s := s.fired y) hz hzrun]
    exact ticksOf_append_self z s.ticks s.now

theorem own_tick {y : ι} {s p p' : Service ι κ α} (h : SeenBy y s p) {t : Timeout ι}
    (hidle : s.frame = none) (hpending : (s.timeouts.find? fun t => t.starter = y) = some t)
    (hdue : t.due ≤ s.now) (hrunning : s.running y = true)
    (hstep : p.step (.timeout y) = some p') :
    ticksOf y p' = ticksOf y s ++ [(y, p.now)] := by
  have hprun : p.running y = true := by rw [running, ← h.mgr]; exact hrunning
  have hpinstance : p.instanceMgr = some y := by rw [h.instanceMgr, if_pos hprun]
  have hpstep : p.step (.timeout y) = some (p.fired y).timeoutCallback := by
    refine step_of_steps (.timeout y ?_ ?_ (h.now ▸ hdue))
    · rw [h.frame, hidle]
      rfl
    · rw [h.timeouts, find?_filter_starter]
      exact hpending
  cases Option.some.inj (hpstep.symm.trans hstep)
  rw [timeoutCallback_of_running (s := p.fired y) hpinstance hprun, ticksOf_eq h]
  exact ticksOf_append_self y p.ticks p.now

/-- A timeout that does not find its manager gives some manager other ticks than its own run. -/
theorem not_independent {pre : List (Event ι κ α)} {y : ι} {s s' : Service ι κ α}
    (halong : Along step FindsItsManager (start : Service ι κ α) pre)
    (hrun : run step (start : Service ι κ α) pre = some s)
    (hastray : ¬ FindsItsManager s (.timeout y)) (hstep : s.step (.timeout y) = some s')
    {es : List (Event ι κ α)} (hinitial : pre ++ [.timeout y] <+: es) : ¬ TicksIndependent es := by
  intro hindependent
  have hfull : run step (start : Service ι κ α) (pre ++ [.timeout y]) = some s' := by
    rw [run_append, hrun]
    exact (run_cons_eq_some step s s' _ []).mpr ⟨s', hstep, rfl⟩
  cases steps_of_step hstep with
  | timeout _ hidle hpending hdue =>
      rcases timeout_astray hastray with ⟨hrunning, hmissed⟩ | ⟨z, hne, hextra⟩
      · -- alone, `y` has the tick that it misses here
        obtain ⟨own, hown, hticks⟩ := hindependent y _ _ hinitial hfull
        obtain ⟨p, hp, hseen⟩ := seenBy_run y halong hrun
        have hkeep : concerns y (.timeout y : Event ι κ α) = true := decide_eq_true rfl
        rw [List.filter_append, List.filter_cons_of_pos hkeep, List.filter_nil, run_append, hp]
          at hown
        obtain ⟨p', hp', hnil⟩ := (run_cons_eq_some step p own _ []).mp hown
        cases Option.some.inj hnil
        rw [hmissed, own_tick hseen hidle hpending hdue hrunning hp'] at hticks
        exact List.cons_ne_nil _ _ (List.self_eq_append_right.mp hticks)
      · -- alone, `z` does not have the tick that it gets here
        obtain ⟨own, hown, hticks⟩ := hindependent z _ _ hinitial hfull
        obtain ⟨p, hp, hseen⟩ := seenBy_run z halong hrun
        have hdrop : ¬ concerns z (.timeout y : Event ι κ α) = true := by
          simpa [concerns] using Ne.symm hne
        rw [List.filter_append, List.filter_cons_of_neg hdrop, List.filter_nil,
          List.append_nil, hp] at hown
        cases Option.some.inj hown
        rw [hextra, ← ticksOf_eq hseen] at hticks
        exact List.cons_ne_nil _ _ (List.self_eq_append_right.mp hticks.symm)

/-- In every run, the ticks of every manager are at all times those of the run without the events
of the other managers if and only if every timeout finds its own manager. -/
theorem ticks_independent_iff (es : List (Event ι κ α)) (t : Service ι κ α)
    (hrun : run step (start : Service ι κ α) es = some t) :
    TicksIndependent es ↔ Along step FindsItsManager (start : Service ι κ α) es := by
  constructor
  · intro hindependent
    by_contra hnot
    obtain ⟨pre, e, u, u', hpre, halong, hu, hastray, hu'⟩ :=
      exists_first_outside step FindsItsManager es start t hrun hnot
    obtain ⟨y, rfl⟩ : ∃ y, e = .timeout y := by
      cases e <;> first | exact ⟨_, rfl⟩ | exact absurd trivial hastray
    exact not_independent halong hu hastray hu' hpre hindependent
  · intro halong x pre u hpre hu
    obtain ⟨own, hown, hseen⟩ :=
      seenBy_run x (along_of_initial step pre es start hpre halong) hu
    exact ⟨own, hown, ticksOf_eq hseen⟩

end Independence

/-! ## Two managers -/

def everyTick (x : Bool) : Event Bool Unit Unit := .register x (some ()) 100 (-1) 0 none []

/-- The tick of one manager, while another has never started. -/
def aloneRound : List (Event Bool Unit Unit) :=
  everyTick false :: .unregister true 1 :: List.replicate 10 .clock

theorem ticks_independent_of_idle : TicksIndependent (aloneRound ++ [.timeout false]) := by
  refine (ticks_independent_iff (aloneRound ++ [.timeout false]) _ rfl).mpr ?_
  refine along_append step FindsItsManager _ _ _ ?_ fun t ht => ⟨?_, fun _ _ => trivial⟩
  · refine along_of_forall step aloneRound _ fun e he s => ?_
    simp only [aloneRound, List.mem_cons, List.mem_replicate] at he
    rcases he with rfl | rfl | ⟨_, rfl⟩ <;> trivial
  · cases ht
    exact ⟨fun _ => rfl, fun hstopped => by cases hstopped⟩

/-- The timeout that the first manager has asked for ticks the second. -/
theorem ticks_depend_on_other_manager :
    ¬ TicksIndependent (everyTick false :: everyTick true :: List.replicate 10 .clock ++
      [.timeout false]) := by
  intro hindependent
  obtain ⟨own, hown, hticks⟩ := hindependent false _ _ (List.prefix_refl _) rfl
  cases hown
  exact absurd hticks (by decide)

end Doudizhu.Timer
