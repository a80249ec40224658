import Doudizhu.Window.ExitDialog
import Doudizhu.Window.Animations

/-! # What the back key may close

A configuration says with `clickBackClose` whether the back key closes a window, and
`getClickBackClose` reads it, but nobody calls that.  `onKeyBack` hides the uppermost window as it
is: one window at most begins to close, and it is an uppermost one, whether or not its
configuration allows it.  Only `hide` itself stands in the way, when the window is being
animated. -/

set_option autoImplicit false

namespace Doudizhu.Window

open Runs Outcome

section BackKey
variable {ι : Type} [DecidableEq ι]

/-- From `s` to `t` the open window `w` is closed or begins its closing animation. -/
def StartsClosing (s t : World ι) (w : GameWindow ι) : Prop :=
  s.manager.mOpenedWindows.lookup w.id = some w ∧
    (t.manager.mOpenedWindows.lookup w.id ≠ some w ∨
      (s.node w.ref).anim ≠ some .onHideEnd ∧ (t.node w.ref).anim = some .onHideEnd)

/-- The back key closes at most one window, an uppermost one that allows it; when the uppermost
window that it finds does not, nothing changes. -/
structure RespectsBackClose (s : World ι) (order : List ι) : Prop where
  one : ∀ v w, StartsClosing s (s.onKeyBack order).world v →
    StartsClosing s (s.onKeyBack order).world w → v = w
  allowed : ∀ w, StartsClosing s (s.onKeyBack order).world w →
    Uppermost s.manager w ∧ w.config.clickBackClose = true
  kept : ∀ w, Uppermost s.manager w → s.manager.findUppermostWnd order = some w.id →
    w.config.clickBackClose = false → (s.onKeyBack order).world = s

/-! ## What `hide` changes -/

omit [DecidableEq ι] in
theorem setNode_of_ne (s : World ι) {r ref : Nat} (h : r ≠ ref) (n : NodeState) :
    (s.setNode ref n).node r = s.node r := Function.update_of_ne h ..

omit [DecidableEq ι] in
theorem onNode_of_ne (s : World ι) {r ref : Nat} (h : r ≠ ref) (f : NodeState → NodeState) :
    (s.onNode ref f).world.node r = s.node r := by
  unfold World.onNode
  split
  · exact setNode_of_ne s h _
  · rfl

omit [DecidableEq ι] in
theorem ShowsAtMost.closing {s t : World ι} (h : ShowsAtMost s t) {r : Nat}
    (hanim : (t.node r).anim = some .onHideEnd) : (s.node r).anim = some .onHideEnd := by
  rcases h with hsame | ⟨w, u, hu, ht⟩
  · rwa [hsame] at hanim
  · obtain ⟨n, hshow, _, hkept, hset⟩ := show_node u w
    rw [ht, hshow] at hanim
    rw [← hu]
    by_cases hr : r = w.ref
    · subst hr
      rw [setNode_self] at hanim
      cases hflag : (u.node w.ref).animFlag with
      | true => rwa [hkept hflag] at hanim
      | false =>
          rcases hset hflag with hold | hnew
          · rwa [hold] at hanim
          · rw [hnew] at hanim
            cases hanim
    · rwa [setNode_of_ne u hr] at hanim

theorem onHideEnd_node_of_ne (s : World ι) (w : GameWindow ι) {r : Nat} (h : r ≠ w.ref) :
    (w.onHideEnd s).world.node r =
      (s.closeWindow w.id w.config.destroyImmediate w.config.level).world.node r := by
  unfold GameWindow.onHideEnd Outcome.andThen
  split
  · rw [onNode_of_ne _ h, World.setAnimFlag, setNode_of_ne _ h]
  · rfl

/-- A closing animation begins on the window that is hidden only. -/
theorem hide_begins {s : World ι} {w : GameWindow ι} {r : Nat} (hr : r ≠ w.ref)
    (h : ((w.hide s).world.node r).anim = some .onHideEnd) :
    (s.node r).anim = some .onHideEnd := by
  have hset : (s.setAnimFlag w.ref true).node r = s.node r := setNode_of_ne s hr _
  unfold GameWindow.hide at h
  split at h
  · exact h
  · simp only [andThen_ok_world] at h
    split at h
    · rw [onHideEnd_node_of_ne _ w hr] at h
      rw [← hset]
      exact (closeWindow_showsAtMost (s.setAnimFlag w.ref true) w).closing h
    · rwa [onNode_of_ne _ hr, hset] at h
    · rwa [← hset]

/-- A window that does not close at once has its flag set when `hide` does not refuse. -/
theorem hide_sets_flag {s : World ι} {w : GameWindow ι} (hclose : s.closesAtOnce w = false)
    (hflag : (s.node w.ref).animFlag = false) : ((w.hide s).world.node w.ref).animFlag = true := by
  have hset : ((s.setAnimFlag w.ref true).node w.ref).animFlag = true := by
    rw [World.setAnimFlag, setNode_self]
  have hstyle : (s.setAnimFlag w.ref true).styleOf w = s.styleOf w := rfl
  unfold World.closesAtOnce at hclose
  unfold GameWindow.hide
  simp only [hflag, Bool.false_eq_true, if_false, andThen_ok_world, hstyle]
  cases hcase : s.styleOf w with
  | normal => simp [hcase, hflag] at hclose
  | popu =>
      change (((s.setAnimFlag w.ref true).onNode w.ref _).world.node w.ref).animFlag = true
      unfold World.onNode
      split
      · change (((s.setAnimFlag w.ref true).setNode w.ref _).node w.ref).animFlag = true
        rw [setNode_self]
        exact hset
      · exact hset
  | unknown => exact hset

variable {WindowConfig : ι → Option Config} {s : World ι} {order : List ι}

/-- Nobody waits for the place of an open window under its own id. -/
theorem closed_lookup_self (hc : Consistent WindowConfig s.windows s.manager) {w : GameWindow ι}
    (hopen : s.manager.mOpenedWindows.lookup w.id = some w) :
    (s.manager.closed s.scene w).mOpenedWindows.lookup w.id = none := by
  rw [lookup_closed]
  cases hqueue : s.manager.mWaitedWindows w.config.level with
  | nil => simp
  | cons next waited =>
      have hnext := (hc.waiting w.config.level next (by rw [hqueue]; exact List.mem_cons_self)).2.2
      have hne : w.id ≠ next.id := by
        intro heq
        rw [← heq, hopen] at hnext
        cases hnext
      simp [hne]

theorem closed_lookup_other (hc : Consistent WindowConfig s.windows s.manager)
    {v w : GameWindow ι} (hopen : s.manager.mOpenedWindows.lookup v.id = some v)
    (hne : v.id ≠ w.id) :
    (s.manager.closed s.scene w).mOpenedWindows.lookup v.id = some v := by
  rw [lookup_closed]
  cases hqueue : s.manager.mWaitedWindows w.config.level with
  | nil => simp [hne, hopen]
  | cons next waited =>
      have hnext := (hc.waiting w.config.level next (by rw [hqueue]; exact List.mem_cons_self)).2.2
      have hother : v.id ≠ next.id := by
        intro heq
        rw [← heq, hopen] at hnext
        cases hnext
      simp [hne, hother, hopen]

theorem eq_of_startsClosing (hc : Consistent WindowConfig s.windows s.manager)
    {v w : GameWindow ι} (hw : s.manager.mOpenedWindows.lookup w.id = some w)
    (h : StartsClosing s (w.hide s).world v) : v = w := by
  obtain ⟨hv, hclosed | ⟨hidle, hanim⟩⟩ := h
  · by_contra hvw
    have hne : v.id ≠ w.id := by
      intro heq
      rw [heq, hw] at hv
      exact hvw (Option.some.inj hv).symm
    have hsame := (hide_sameButNodes s w).manager
    by_cases hclose : s.closesAtOnce w = true
    · rw [if_pos hclose] at hsame
      rw [hsame] at hclosed
      exact hclosed (closed_lookup_other hc hv hne)
    · rw [if_neg hclose] at hsame
      rw [hsame] at hclosed
      exact hclosed hv
  · by_cases href : v.ref = w.ref
    · exact hc.eq_of_ref (hc.opened v.id v hv).1 (hc.opened w.id w hw).1 href
    · exact absurd (hide_begins href hanim) hidle

theorem hide_changes (hc : Consistent WindowConfig s.windows s.manager) {w : GameWindow ι}
    (hopen : s.manager.mOpenedWindows.lookup w.id = some w)
    (hflag : (s.node w.ref).animFlag = false) : (w.hide s).world ≠ s := by
  intro hsame
  by_cases hclose : s.closesAtOnce w = true
  · have hmanager := (hide_sameButNodes s w).manager
    rw [if_pos hclose, hsame] at hmanager
    have hnone := closed_lookup_self hc hopen
    have hlookup : (s.manager.closed s.scene w).mOpenedWindows.lookup w.id = some w := by
      rw [← hopen]
      exact congrArg (fun m => m.mOpenedWindows.lookup w.id) hmanager.symm
    rw [hnone] at hlookup
    cases hlookup
  · have hset := hide_sets_flag (Bool.eq_false_iff.mpr hclose) hflag
    rw [hsame, hflag] at hset
    cases hset

theorem hide_of_animated {w : GameWindow ι} (hflag : (s.node w.ref).animFlag = true) :
    (w.hide s).world = s := by
  unfold GameWindow.hide
  rw [if_pos hflag]
  rfl

theorem not_startsClosing_self (w : GameWindow ι) : ¬ StartsClosing s s w := by
  rintro ⟨hopen, hclosed | ⟨hidle, hanim⟩⟩
  · exact hclosed hopen
  · exact hidle hanim

/-! ## The back key in one state -/

theorem respectsBackClose_of_idle (hidle : (s.onKeyBack order).world = s) :
    RespectsBackClose s order where
  one v w hv _ := by
    rw [hidle] at hv
    exact absurd hv (not_startsClosing_self v)
  allowed w hw := by
    rw [hidle] at hw
    exact absurd hw (not_startsClosing_self w)
  kept _ _ _ _ := hidle

/-- For the order in which `pairs` comes to the windows: the window found allows to be closed or
is being animated. -/
theorem respectsBackClose_iff (hc : Consistent WindowConfig s.windows s.manager)
    {w : GameWindow ι} (hw : Uppermost s.manager w)
    (hfound : s.manager.findUppermostWnd order = some w.id) :
    RespectsBackClose s order ↔
      w.config.clickBackClose = true ∨ (s.node w.ref).animFlag = true := by
  have hback : s.onKeyBack order = w.hide s := by
    rw [World.onKeyBack, hfound]
    simp only [World.hideOpened, hw.1]
  constructor
  · intro h
    by_contra hneither
    rw [not_or, Bool.not_eq_true, Bool.not_eq_true] at hneither
    have hsame := h.kept w hw hfound hneither.1
    rw [hback] at hsame
    exact hide_changes hc hw.1 hneither.2 hsame
  · rintro (hallows | hflag)
    · constructor
      · intro u v hu hv
        rw [hback] at hu hv
        rw [eq_of_startsClosing hc hw.1 hu, eq_of_startsClosing hc hw.1 hv]
      · intro v hv
        rw [hback] at hv
        rw [eq_of_startsClosing hc hw.1 hv]
        exact ⟨hw, hallows⟩
      · intro v hv hid hforbids
        have hopen := hv.1
        rw [← Option.some.inj (hfound.symm.trans hid), hw.1] at hopen
        rw [← Option.some.inj hopen, hallows] at hforbids
        cases hforbids
    · exact respectsBackClose_of_idle (by rw [hback, hide_of_animated hflag])

/-- In every reachable state, the back key respects `clickBackClose` in whatever order `pairs`
comes to the windows if and only if every uppermost window allows to be closed or is being
animated. -/
theorem back_respects_config_iff (hlevels : ∀ id config, WindowConfig id = some config →
    -999 < config.level) (es : List (Event ι)) (t : World ι)
    (hrun : run (step WindowConfig) World.start es = some t) :
    (∀ order, order.Perm t.manager.mOpenedWindows.keys → RespectsBackClose t order) ↔
      ∀ w, Uppermost t.manager w →
        w.config.clickBackClose = true ∨ (t.node w.ref).animFlag = true := by
  have hwf : WellFormed WindowConfig t :=
    run_invariant (step WindowConfig) (fun _ _ => True) (WellFormed WindowConfig)
      (fun _ _ _ h _ hstep => h.step hstep) es World.start t wellFormed_start
      (along_true (step WindowConfig) es World.start) hrun
  have hc := hwf.consistent
  constructor
  · intro hall w hw
    obtain ⟨order, horder, rest, hpairs⟩ := exists_order_first hw.1
    have hhigh := hlevels w.id w.config (hc.configured w (hc.opened w.id w hw.1).1)
    rcases findUppermostWnd_cases hc.keyed horder with ⟨_, hlow⟩ |
      ⟨before, v, after, hsplit, hfound, hv, hbefore, _⟩
    · have hle := hlow w.id w hw.1
      rw [GameWindow.getLevel] at hle
      omega
    · cases eq_of_first horder hw hpairs hsplit hbefore
      exact (respectsBackClose_iff hc hw hfound).mp (hall order horder)
  · intro hall order horder
    rcases findUppermostWnd_cases hc.keyed horder with ⟨hnone, _⟩ |
      ⟨_, w, _, _, hfound, hw, _, _⟩
    · refine respectsBackClose_of_idle ?_
      rw [World.onKeyBack, hnone]
      rfl
    · exact (respectsBackClose_iff hc hw hfound).mpr (hall w hw)

end BackKey

/-! ## One popup -/

def stubbornPopu : Config := ⟨WindowLevel.NormalPopu, true, false, false⟩

theorem back_respects_normal_popu :
    ∃ t : World Bool,
      run (step (twoAlike normalPopu)) World.start [.window (.showWindow 0 false none [])] =
          some t ∧
        ∀ order, order.Perm t.manager.mOpenedWindows.keys → RespectsBackClose t order := by
  refine ⟨_, rfl, (back_respects_config_iff (fun id config hconfig => ?_)
    [.window (.showWindow 0 false none [])] _
    (show run (step (twoAlike normalPopu)) World.start _ = some _ from rfl)).mpr fun w hw => ?_⟩
  · cases hconfig
    decide
  · have hopen := hw.1
    cases hid : w.id with
    | false =>
        rw [hid] at hopen
        cases hopen
        exact Or.inl rfl
    | true =>
        rw [hid] at hopen
        cases hopen

/-- It is closed all the same. -/
theorem back_closes_stubborn_popu :
    ¬ ∀ t : World Bool,
      run (step (twoAlike stubbornPopu)) World.start [.window (.showWindow 0 false none [])] =
          some t → RespectsBackClose t [false] := by
  intro hall
  have hkept := (hall _ rfl).kept (firstAlike stubbornPopu) ⟨rfl, ?_⟩ rfl rfl
  · have hlookup := congrArg (fun s => s.manager.mOpenedWindows.lookup false) hkept
    cases hlookup
  · intro id v hopen
    cases id with
    | false =>
        cases hopen
        decide
    | true => cases hopen

end Doudizhu.Window
