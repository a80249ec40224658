import Doudizhu.Window.Animations

/-! # Windows to be seen

`doShowWindow` enters the window in the table before it calls `show`, which it does not reach
without a mask or with another entry in `mWindows`, and which refuses while the flag is set.  So a
window may be open and not to be seen. -/

set_option autoImplicit false

namespace Doudizhu.Window

open Outcome

namespace World
variable {ι : Type}

/-- The window is to be seen, and its closing animation does not run. -/
def Shown (s : World ι) (w : GameWindow ι) : Prop :=
  (s.node w.ref).alive = true ∧ (s.node w.ref).visible = true ∧
    (s.node w.ref).anim ≠ some .onHideEnd

/-- `showMaskBg` finds a mask, or a parent for a new one. -/
def MaskReady (s : World ι) (w : GameWindow ι) : Prop :=
  s.manager.mMaskBgs (w.config.level - 1) = none → s.scene ≤ w.parentNode

/-- `doShowWindow` gets to the window's own `show`, which acts. -/
structure CanShow (s : World ι) (w : GameWindow ι) : Prop where
  kept : s.manager.mWindows w.id = some w
  mask : s.MaskReady w
  idle : (s.node w.ref).animFlag = false
  alive : (s.node w.ref).alive = true

end World

section Shown
variable {ι : Type} {s t : World ι} {w : GameWindow ι}

theorem shown_of_node (h : t.node w.ref = s.node w.ref) : t.Shown w ↔ s.Shown w := by
  unfold World.Shown
  rw [h]

theorem show_shown (hs : (s.node w.ref).Guarded) :
    (w.show s).world.Shown w ↔
      s.Shown w ∨ (s.node w.ref).animFlag = false ∧ (s.node w.ref).alive = true := by
  obtain ⟨n, hn, halive, hflagged, hfree⟩ := show_node s w
  have hself : (w.show s).world.node w.ref = n := by rw [hn, setNode_self]
  cases hflag : (s.node w.ref).animFlag with
  | true =>
      rw [shown_of_node (hself.trans (hflagged hflag)), or_iff_left]
      exact fun hand => Bool.false_ne_true hand.1.symm
  | false =>
      obtain ⟨hanim, hvisible⟩ := hfree hflag
      unfold World.Shown
      rw [hself, halive]
      constructor
      · exact fun hshown => .inr ⟨rfl, hshown.1⟩
      · intro hbefore
        have hliving : (s.node w.ref).alive = true := hbefore.elim (fun h => h.1) fun h => h.2
        refine ⟨hliving, hvisible (halive.trans hliving), ?_⟩
        rcases hanim with hsame | rfl
        · rw [hsame, hs.anim_eq_none hflag]
          exact nofun
        · exact nofun

theorem show_shown_other {v : GameWindow ι} (hne : w.ref ≠ v.ref) :
    (v.show s).world.Shown w ↔ s.Shown w := by
  obtain ⟨n, hn, _⟩ := show_node s v
  apply shown_of_node
  rw [hn]
  exact Function.update_of_ne hne n s.node

theorem showMaskBg_result (s : World ι) (w : GameWindow ι) :
    (s.showMaskBg w).result ≠ none ↔ s.MaskReady w := by
  unfold World.showMaskBg World.MaskReady GameWindow.getLevel GameWindow.getParentNode
  cases hmask : s.manager.mMaskBgs (w.config.level - 1) with
  | some b => simp [hmask, ok]
  | none =>
      by_cases hparent : s.scene ≤ w.parentNode
      · simp [hmask, hparent, ok]
      · simp [hmask, hparent, raise]

theorem show_result (s : World ι) (w : GameWindow ι) :
    (w.show s).result ≠ none ↔
      (s.node w.ref).animFlag = true ∨ (s.node w.ref).alive = true := by
  cases halive : (s.node w.ref).alive with
  | true => exact iff_of_true (show_returns halive) (.inr rfl)
  | false =>
      unfold GameWindow.show
      cases hflag : (s.node w.ref).animFlag with
      | true => simp [ok]
      | false =>
          rw [if_neg Bool.false_ne_true, onNode_of_dead (by rw [setAnimFlag_alive]; exact halive),
            andThen_raise]
          exact iff_of_false (fun hreturns => hreturns rfl) (by simp)

variable [DecidableEq ι]

def World.entering (s : World ι) (w : GameWindow ι) : Outcome ι Unit :=
  (s.setManager { s.manager with
    mOpenedWindows := s.manager.mOpenedWindows.insert w.id w }).showMaskBg w

theorem World.doShowWindow_eq (s : World ι) (w : GameWindow ι) :
    ∃ next, s.doShowWindow w = (s.entering w).andThen next ∧
      (∀ t v, t.manager.mWindows w.id = some v → next t = v.show t) ∧
      ∀ t, t.manager.mWindows w.id = none → next t = raise t := by
  unfold World.doShowWindow World.entering
  refine ⟨_, rfl, fun t v hv => ?_, fun t hnone => ?_⟩
  · simp only [GameWindow.getId, hv]
  · simp only [GameWindow.getId, hnone]

theorem doShowWindow_shown (hs : (s.node w.ref).Guarded)
    (hrefs : ∀ v, s.manager.mWindows w.id = some v → w.ref = v.ref → v = w) :
    (s.doShowWindow w).world.Shown w ↔ s.Shown w ∨ s.CanShow w := by
  have hnode : (s.entering w).world.node = s.node := showMaskBg_node _ _
  have hkept : (s.entering w).world.manager.mWindows = s.manager.mWindows := showMaskBg_kept _ _
  have hmask : (s.entering w).result ≠ none ↔ s.MaskReady w := showMaskBg_result _ _
  have hsame : (s.entering w).world.Shown w ↔ s.Shown w := shown_of_node (congrFun hnode w.ref)
  obtain ⟨next, hdo, hfound, hmissing⟩ := s.doShowWindow_eq w
  rw [hdo]
  by_cases hready : s.MaskReady w
  · rw [andThen_of_some _ (hmask.mpr hready)]
    cases hentry : s.manager.mWindows w.id with
    | none =>
        rw [hmissing _ (hkept ▸ hentry)]
        refine hsame.trans (or_iff_left fun hcan => ?_).symm
        exact Option.some_ne_none w (hcan.kept.symm.trans hentry)
    | some v =>
        rw [hfound _ v (hkept ▸ hentry)]
        by_cases href : w.ref = v.ref
        · cases hrefs v hentry href
          have hguarded : ((s.entering w).world.node w.ref).Guarded := by rw [hnode]; exact hs
          refine (show_shown hguarded).trans (or_congr hsame ?_)
          rw [hnode]
          exact ⟨fun h => ⟨hentry, hready, h.1, h.2⟩, fun h => ⟨h.idle, h.alive⟩⟩
        · refine ((show_shown_other href).trans hsame).trans (or_iff_left fun hcan => ?_).symm
          cases Option.some.inj (hcan.kept.symm.trans hentry)
          exact href rfl
  · have hraises : (s.entering w).result = none := by
      by_contra hreturns
      exact hready (hmask.mp hreturns)
    rw [andThen_of_none _ hraises]
    exact hsame.trans (or_iff_left fun hcan => hready hcan.mask).symm

theorem doShowWindow_result_iff (hkept : s.manager.mWindows w.id = some w) :
    (s.doShowWindow w).result ≠ none ↔
      s.MaskReady w ∧ ((s.node w.ref).animFlag = true ∨ (s.node w.ref).alive = true) := by
  have hnode : (s.entering w).world.node = s.node := showMaskBg_node _ _
  have hmask : (s.entering w).result ≠ none ↔ s.MaskReady w := showMaskBg_result _ _
  rw [ne_eq, doShowWindow_result, hkept, not_or]
  refine and_congr hmask ((show_result _ w).trans ?_)
  change ((s.entering w).world.node w.ref).animFlag = true ∨
    ((s.entering w).world.node w.ref).alive = true ↔ _
  rw [hnode]

/-! ## The next of the queue -/

/-- An event that closes `v` runs to the end of its closing, having touched no other node. -/
theorem closing_onHideEnd {WindowConfig : ι → Option Config} {e : WindowEvent ι} {v : GameWindow ι}
    (hstep : stepWindow WindowConfig s e = some t) (hclosing : s.closing e = some v) :
    ∃ n, t = (v.onHideEnd (s.setNode v.ref n)).world := by
  have hhide : ∀ w : GameWindow ι, (if s.closesAtOnce w then some w else none) = some v →
      ∃ n, (w.hide s).world = (v.onHideEnd (s.setNode v.ref n)).world := by
    intro w hw
    rw [Option.ite_none_right_eq_some] at hw
    obtain ⟨hcloses, hwv⟩ := hw
    obtain rfl : w = v := Option.some.inj hwv
    unfold World.closesAtOnce at hcloses
    simp only [Bool.and_eq_true, Bool.not_eq_true', decide_eq_true_eq] at hcloses
    have hstyle : (s.setAnimFlag w.ref true).styleOf w = s.styleOf w := rfl
    refine ⟨{ s.node w.ref with animFlag := true }, ?_⟩
    unfold GameWindow.hide
    simp only [hcloses.1, Bool.false_eq_true, if_false, hstyle, hcloses.2, andThen_ok_world]
    rfl
  cases e with
  | showWindow parentNode id style order => exact absurd hclosing.symm (Option.some_ne_none v)
  | hide wnd =>
      simp only [stepWindow, Option.ite_none_right_eq_some, Option.some.injEq] at hstep
      obtain ⟨_, rfl⟩ := hstep
      exact hhide wnd hclosing
  | tapMask key =>
      simp only [stepWindow] at hstep
      simp only [World.closing] at hclosing
      cases hmask : s.manager.mMaskBgs key with
      | none => simp [hmask] at hstep
      | some b =>
          simp only [hmask, Option.ite_none_right_eq_some, Option.some.injEq] at hstep hclosing
          obtain ⟨_, rfl⟩ := hstep
          obtain ⟨hcloses, hbv⟩ := hclosing
          obtain ⟨hblank, hcloses⟩ := Bool.and_eq_true_iff.mp hcloses
          unfold World.tapMask
          rw [if_pos hblank]
          exact hhide b.wnd (by rw [if_pos hcloses, hbv])
  | onKeyBack order =>
      simp only [stepWindow, Option.ite_none_right_eq_some, Option.some.injEq] at hstep
      obtain ⟨_, rfl⟩ := hstep
      simp only [World.closing] at hclosing
      unfold World.onKeyBack World.hideOpened
      cases huppermost : s.manager.findUppermostWnd order with
      | none => simp [huppermost] at hclosing
      | some id =>
          rw [huppermost, Option.bind_some] at hclosing
          dsimp only
          cases hopen : s.manager.mOpenedWindows.lookup id with
          | none => simp [hopen] at hclosing
          | some wnd =>
              rw [hopen] at hclosing
              exact hhide wnd hclosing
  | animEnd wnd =>
      simp only [stepWindow, Option.ite_none_right_eq_some, Option.map_eq_some_iff] at hstep
      simp only [World.closing, Option.ite_none_right_eq_some, Option.some.injEq] at hclosing
      obtain ⟨_, anim, hanim, rfl⟩ := hstep
      obtain ⟨hhides, rfl⟩ := hclosing
      cases Option.some.inj (hanim.symm.trans hhides)
      exact ⟨_, rfl⟩

theorem onHideEnd_shown_other {v : GameWindow ι} (hne : w.ref ≠ v.ref) :
    (v.onHideEnd s).world.Shown w ↔
      (s.closeWindow v.id v.config.destroyImmediate v.config.level).world.Shown w := by
  unfold GameWindow.onHideEnd
  generalize s.closeWindow v.id v.config.destroyImmediate v.config.level = closed
  obtain ⟨u, result⟩ := closed
  cases result with
  | none => exact Iff.rfl
  | some a =>
      apply shown_of_node
      unfold Outcome.andThen World.onNode
      dsimp only
      split
      · exact (Function.update_of_ne hne _ _).trans (Function.update_of_ne hne _ _)
      · exact Function.update_of_ne hne _ _

/-- When another window closes, the head of the queue is shown if it was, or if it is still kept
and can be. -/
theorem closing_shown {WindowConfig : ι → Option Config} {e : WindowEvent ι}
    {v next : GameWindow ι} {waited : List (GameWindow ι)}
    (hstep : stepWindow WindowConfig s e = some t) (hclosing : s.closing e = some v)
    (hs : s.Guarded) (hqueue : s.manager.mWaitedWindows v.config.level = next :: waited)
    (hne : next.ref ≠ v.ref)
    (hrefs : ∀ u, s.manager.mWindows next.id = some u → next.ref = u.ref → u = next) :
    t.Shown next ↔
      s.Shown next ∨ (s.setManager (s.manager.forgotten v)).CanShow next := by
  obtain ⟨n, rfl⟩ := closing_onHideEnd hstep hclosing
  have hnode : (s.setNode v.ref n).node next.ref = s.node next.ref :=
    Function.update_of_ne hne ..
  have hrest : ((s.setNode v.ref n).setManager ((s.setNode v.ref n).manager.forgotten
      v)).manager.mWaitedWindows v.config.level = next :: waited := hqueue
  rw [onHideEnd_shown_other hne, closeWindow_forgets, checkWaitedWindows_of_cons _ hrest,
    doShowWindow_shown]
  · refine or_congr (shown_of_node hnode) ⟨fun h => ?_, fun h => ?_⟩
    · exact ⟨h.kept, h.mask, hnode ▸ h.idle, hnode ▸ h.alive⟩
    · exact ⟨h.kept, h.mask, hnode.symm ▸ h.idle, hnode.symm ▸ h.alive⟩
  · change ((s.setNode v.ref n).node next.ref).Guarded
    rw [hnode]
    exact hs next.ref
  · intro u hu
    change (s.manager.forgotten v).mWindows next.id = some u at hu
    rw [kept_forgotten, Option.ite_none_left_eq_some] at hu
    exact hrefs u hu.2

end Shown

end Doudizhu.Window
