import Doudizhu.Window.Invariants

/-! # Animations under way

`show` and `hide` set `animFlag` before they start an animation, refuse while it is set, and the
end of the animation clears it.  So an animation under way is never overtaken by another one, and
a closing animation begins only where `hide` is called on a window with the popup style. -/

set_option autoImplicit false

namespace Doudizhu.Window

open Outcome

/-- An animation is under way on a live node only, with the flag set. -/
def NodeState.Guarded (n : NodeState) : Prop :=
  n.anim ≠ none → n.animFlag = true ∧ n.alive = true

theorem NodeState.guarded_of_none {n : NodeState} (h : n.anim = none) : n.Guarded :=
  fun hanim => absurd h hanim

theorem NodeState.Guarded.anim_eq_none {n : NodeState} (h : n.Guarded)
    (hflag : n.animFlag = false) : n.anim = none := by
  by_contra hanim
  exact Bool.false_ne_true (hflag.symm.trans (h hanim).1)

section Animations
variable {ι : Type}

def World.Guarded (s : World ι) : Prop := ∀ ref, (s.node ref).Guarded

/-- From `s` to `t` closing animations have begun on no nodes but those in `begins`, and no node
has come to life. -/
structure Animates (begins : Nat → Prop) (s t : World ι) : Prop where
  guarded : t.Guarded
  living : ∀ ref, (t.node ref).alive = true → (s.node ref).alive = true
  closes : ∀ ref, (t.node ref).anim = some .onHideEnd →
    (s.node ref).anim = some .onHideEnd ∨ begins ref

namespace Animates
variable {begins : Nat → Prop} {s t u : World ι}

theorem of_node (hs : s.Guarded) (h : t.node = s.node) : Animates begins s t where
  guarded ref := by rw [h]; exact hs ref
  living ref halive := by rwa [h] at halive
  closes ref hanim := .inl (by rwa [h] at hanim)

theorem trans (h : Animates begins s t) (h' : Animates begins t u) : Animates begins s u where
  guarded := h'.guarded
  living ref halive := h.living ref (h'.living ref halive)
  closes ref hanim := (h'.closes ref hanim).elim (h.closes ref) .inr

theorem mono {more : Nat → Prop} (h : Animates begins s t) (himp : ∀ ref, begins ref → more ref) :
    Animates more s t where
  guarded := h.guarded
  living := h.living
  closes ref hanim := (h.closes ref hanim).imp_right (himp ref)

theorem setNode (hs : s.Guarded) {ref : Nat} {n : NodeState} (hn : n.Guarded)
    (hliving : n.alive = true → (s.node ref).alive = true)
    (hhide : n.anim = some .onHideEnd → (s.node ref).anim = some .onHideEnd ∨ begins ref) :
    Animates begins s (s.setNode ref n) := by
  constructor
  · intro r
    change (Function.update s.node ref n r).Guarded
    by_cases hr : r = ref
    · rw [hr, Function.update_self]
      exact hn
    · rw [Function.update_of_ne hr]
      exact hs r
  · intro r halive
    change (Function.update s.node ref n r).alive = true at halive
    by_cases hr : r = ref
    · rw [hr, Function.update_self] at halive
      exact hr ▸ hliving halive
    · rwa [Function.update_of_ne hr] at halive
  · intro r hanim
    change (Function.update s.node ref n r).anim = _ at hanim
    by_cases hr : r = ref
    · rw [hr, Function.update_self] at hanim
      exact hr ▸ hhide hanim
    · rw [Function.update_of_ne hr] at hanim
      exact .inl hanim

end Animates

theorem setNode_self (s : World ι) (ref : Nat) (n : NodeState) :
    (s.setNode ref n).node ref = n := Function.update_self ..

theorem setNode_setNode (s : World ι) (ref : Nat) (n m : NodeState) :
    (s.setNode ref n).setNode ref m = s.setNode ref m := by
  simp only [World.setNode, Function.update_idem]

theorem setNode_same (s : World ι) (ref : Nat) : s.setNode ref (s.node ref) = s := by
  simp only [World.setNode, Function.update_eq_self]

theorem onNode_of_alive {s : World ι} {ref : Nat} (halive : (s.node ref).alive = true)
    (f : NodeState → NodeState) : s.onNode ref f = ok (s.setNode ref (f (s.node ref))) () :=
  if_pos halive

theorem onNode_of_dead {s : World ι} {ref : Nat} (hdead : (s.node ref).alive = false)
    (f : NodeState → NodeState) : s.onNode ref f = raise s :=
  if_neg (by rw [hdead]; exact Bool.false_ne_true)

/-- `show` leaves a window with the flag set as it is, and starts no closing animation. -/
theorem show_node (s : World ι) (w : GameWindow ι) :
    ∃ n, (w.show s).world = s.setNode w.ref n ∧ n.alive = (s.node w.ref).alive ∧
      ((s.node w.ref).animFlag = true → n = s.node w.ref) ∧
      ((s.node w.ref).animFlag = false →
        (n.anim = (s.node w.ref).anim ∨ n = ⟨true, true, true, some .onShowEnd⟩) ∧
          (n.alive = true → n.visible = true)) := by
  unfold GameWindow.show
  cases hflag : (s.node w.ref).animFlag with
  | true =>
      refine ⟨s.node w.ref, ?_, rfl, fun _ => rfl, fun h => absurd h.symm Bool.false_ne_true⟩
      rw [setNode_same]
      rfl
  | false =>
      simp only [Bool.false_eq_true, if_false, World.setAnimFlag]
      cases halive : (s.node w.ref).alive with
      | false =>
          rw [onNode_of_dead (by rw [setNode_self])]
          exact ⟨_, rfl, rfl, False.elim, fun _ => ⟨.inl rfl, fun h => by cases h⟩⟩
      | true =>
          rw [onNode_of_alive (by rw [setNode_self]), andThen_ok, setNode_self, setNode_setNode]
          split
          · exact ⟨_, setNode_setNode .., by rw [setNode_self], False.elim,
              fun _ => ⟨.inl (by rw [setNode_self]), fun _ => by rw [setNode_self]⟩⟩
          · rw [onNode_of_alive (by rw [setNode_self]), setNode_self, setNode_setNode]
            exact ⟨_, rfl, rfl, False.elim, fun _ => ⟨.inr rfl, fun _ => rfl⟩⟩
          · exact ⟨_, rfl, rfl, False.elim, fun _ => ⟨.inl rfl, fun _ => rfl⟩⟩

theorem endsIdle_animates {s : World ι} (hs : s.Guarded) {ref : Nat}
    (hanim : (s.node ref).anim = none) {f : NodeState → NodeState}
    (hf : ∀ n, (n.anim = none → (f n).anim = none) ∧ ((f n).alive = true → n.alive = true)) :
    Animates nothing s ((s.setAnimFlag ref false).onNode ref f).world := by
  have hidle : ∀ n : NodeState, n.anim = none → (n.alive = true → (s.node ref).alive = true) →
      Animates nothing s (s.setNode ref n) :=
    fun n hn hliving => .setNode hs (NodeState.guarded_of_none hn) hliving
      fun hhide => absurd (hhide.symm.trans hn) (Option.some_ne_none _)
  unfold World.setAnimFlag
  by_cases halive : (s.node ref).alive = true
  · rw [onNode_of_alive (by rw [setNode_self]; exact halive), setNode_self, setNode_setNode]
    exact hidle _ ((hf _).1 hanim) (hf _).2
  · rw [onNode_of_dead (by rw [setNode_self]; exact Bool.eq_false_iff.mpr halive)]
    exact hidle _ hanim id

/-- The nodes are those of a call of `show`, or have not been touched. -/
def ShowsAtMost (s t : World ι) : Prop :=
  t.node = s.node ∨
    ∃ (w : GameWindow ι) (u : World ι), u.node = s.node ∧ t.node = (w.show u).world.node

theorem ShowsAtMost.animates {s t : World ι} (hs : s.Guarded) (h : ShowsAtMost s t) :
    Animates nothing s t := by
  obtain hsame | ⟨w, u, hu, ht⟩ := h
  · exact .of_node hs hsame
  · obtain ⟨n, hn, halive, hflagged, hfree⟩ := show_node u w
    have hug : u.Guarded := fun ref => by rw [hu]; exact hs ref
    have hshow : Animates nothing u (u.setNode w.ref n) := by
      cases hflag : (u.node w.ref).animFlag with
      | true =>
          rw [hflagged hflag]
          exact .setNode hug (hug w.ref) id .inl
      | false =>
          have hidle := (hug w.ref).anim_eq_none hflag
          obtain hanim | rfl := (hfree hflag).1
          · exact .setNode hug (NodeState.guarded_of_none (hanim.trans hidle)) halive.symm.trans
              fun hhide => .inl (hanim ▸ hhide)
          · exact .setNode hug (fun _ => ⟨rfl, rfl⟩) (fun _ => halive.symm) nofun
    rw [hn] at ht
    constructor
    · intro ref
      rw [ht]
      exact hshow.guarded ref
    · intro ref hliving
      rw [ht] at hliving
      rw [← hu]
      exact hshow.living ref hliving
    · intro ref hanim
      rw [ht] at hanim
      rw [← hu]
      exact hshow.closes ref hanim

theorem ShowsAtMost.node_eq {s t : World ι} (h : ShowsAtMost s t) {ref : Nat}
    (hflag : (s.node ref).animFlag = true) : t.node ref = s.node ref := by
  obtain hsame | ⟨w, u, hu, ht⟩ := h
  · rw [hsame]
  · obtain ⟨n, hn, _, hflagged, _⟩ := show_node u w
    rw [ht, hn, ← hu]
    change Function.update u.node w.ref n ref = u.node ref
    by_cases href : ref = w.ref
    · subst href
      rw [Function.update_self, hflagged (by rw [hu]; exact hflag)]
    · rw [Function.update_of_ne href]

theorem showMaskBg_node (s : World ι) (wnd : GameWindow ι) :
    (s.showMaskBg wnd).world.node = s.node := by
  unfold World.showMaskBg
  dsimp only
  split
  · rfl
  · split <;> rfl

theorem show_returns {s : World ι} {w : GameWindow ι} (halive : (s.node w.ref).alive = true) :
    (w.show s).result ≠ none := by
  unfold GameWindow.show World.setAnimFlag
  by_cases hflag : (s.node w.ref).animFlag = true
  · rw [if_pos hflag]
    exact Option.some_ne_none _
  · rw [if_neg hflag, onNode_of_alive (by rw [setNode_self]; exact halive), andThen_ok,
      setNode_self, setNode_setNode]
    split
    · exact Option.some_ne_none _
    · rw [onNode_of_alive (by rw [setNode_self]; exact halive)]
      exact Option.some_ne_none _
    · exact Option.some_ne_none _

theorem showMaskBg_kept (s : World ι) (wnd : GameWindow ι) :
    (s.showMaskBg wnd).world.manager.mWindows = s.manager.mWindows := by
  unfold World.showMaskBg
  dsimp only
  split
  · rfl
  · split <;> rfl

theorem showMaskBg_returns {s : World ι} {wnd : GameWindow ι} (hparent : s.scene ≤ wnd.parentNode) :
    (s.showMaskBg wnd).result ≠ none := by
  unfold World.showMaskBg
  dsimp only
  split
  · exact Option.some_ne_none _
  · rw [if_pos (by exact hparent)]
    exact Option.some_ne_none _

variable [DecidableEq ι]

/-- After the mask everything depends on the entry of `mWindows`. -/
theorem doShowWindow_result (s : World ι) (wnd : GameWindow ι) :
    (s.doShowWindow wnd).result = none ↔
      ((s.setManager { s.manager with
        mOpenedWindows := s.manager.mOpenedWindows.insert wnd.id wnd }).showMaskBg wnd).result =
          none ∨
      match s.manager.mWindows wnd.id with
      | some w => (w.show ((s.setManager { s.manager with
          mOpenedWindows := s.manager.mOpenedWindows.insert wnd.id wnd }).showMaskBg wnd).world
            ).result = none
      | none => True := by
  unfold World.doShowWindow
  rw [andThen_result, showMaskBg_kept]
  refine or_congr Iff.rfl ?_
  change (match s.manager.mWindows wnd.id with
    | some w => _
    | none => _ : Outcome ι Unit).result = none ↔ _
  cases s.manager.mWindows wnd.id with
  | some w => exact Iff.rfl
  | none => exact iff_of_true rfl trivial

theorem doShowWindow_returns {s : World ι} {wnd v : GameWindow ι}
    (hparent : s.scene ≤ wnd.parentNode)
    (hkept : s.manager.mWindows wnd.id = some v) (halive : (s.node v.ref).alive = true) :
    (s.doShowWindow wnd).result ≠ none := by
  rw [ne_eq, doShowWindow_result, hkept, not_or]
  refine ⟨showMaskBg_returns hparent, show_returns ?_⟩
  rw [showMaskBg_node]
  exact halive

theorem doShowWindow_showsAtMost {s u : World ι} (hu : u.node = s.node) (wnd : GameWindow ι) :
    ShowsAtMost s (u.doShowWindow wnd).world := by
  unfold World.doShowWindow Outcome.andThen
  dsimp only
  have hmask := (showMaskBg_node (u.setManager { u.manager with
    mOpenedWindows := u.manager.mOpenedWindows.insert wnd.getId wnd }) wnd).trans hu
  split
  · split
    · exact .inr ⟨_, _, hmask, rfl⟩
    · exact .inl hmask
  · exact .inl hmask

theorem doShowKept_showsAtMost (s : World ι) (id : ι) : ShowsAtMost s (s.doShowKept id).world := by
  unfold World.doShowKept
  split
  · exact doShowWindow_showsAtMost rfl _
  · exact .inl rfl

theorem closeWindow_showsAtMost (s : World ι) (w : GameWindow ι) :
    ShowsAtMost s (s.closeWindow w.id w.config.destroyImmediate w.config.level).world := by
  rw [closeWindow_forgets]
  unfold World.checkWaitedWindows
  split
  · apply doShowWindow_showsAtMost
    rfl
  · split
    · exact .inl rfl
    · split
      · exact .inl rfl
      · exact .inl rfl

/-- The window whose closing has ended is not animated any more. -/
theorem onHideEnd_animates {s : World ι} (hs : s.Guarded) {w : GameWindow ι}
    (hflag : (s.node w.ref).animFlag = true) (hanim : (s.node w.ref).anim = none) :
    Animates nothing s (w.onHideEnd s).world := by
  have hclose := closeWindow_showsAtMost s w
  have hnode := hclose.node_eq hflag
  unfold GameWindow.onHideEnd
  generalize s.closeWindow w.id w.config.destroyImmediate w.config.level = closed at hclose hnode
  have hclosed := hclose.animates hs
  obtain ⟨u, result⟩ := closed
  cases result with
  | none => exact hclosed
  | some a =>
      refine hclosed.trans ?_
      unfold Outcome.andThen
      apply endsIdle_animates hclosed.guarded
      · rw [hnode]
        exact hanim
      · intro n
        split
        · exact ⟨fun _ => rfl, nofun⟩
        · exact ⟨id, id⟩

/-- `hide` begins an animation only where it does not close at once. -/
theorem hide_animates {s : World ι} (hs : s.Guarded) (w : GameWindow ι) :
    Animates (fun ref => ref = w.ref ∧ s.closesAtOnce w = false) s (w.hide s).world := by
  unfold GameWindow.hide World.closesAtOnce
  cases hflag : (s.node w.ref).animFlag with
  | true => exact .of_node hs rfl
  | false =>
      have hidle := (hs w.ref).anim_eq_none hflag
      have hset : Animates nothing s (s.setAnimFlag w.ref true) :=
        .setNode hs (NodeState.guarded_of_none hidle) id .inl
      have hstyle : (s.setAnimFlag w.ref true).styleOf w = s.styleOf w := rfl
      simp only [hstyle, Bool.false_eq_true, if_false, andThen_ok_world]
      cases hcase : s.styleOf w with
      | normal =>
          have hend : Animates nothing s (w.onHideEnd (s.setAnimFlag w.ref true)).world := by
            refine hset.trans (onHideEnd_animates hset.guarded ?_ ?_)
            · rw [World.setAnimFlag, setNode_self]
            · rw [World.setAnimFlag, setNode_self]
              exact hidle
          exact hend.mono fun _ h => h.elim
      | popu =>
          refine (hset.mono fun _ h => h.elim).trans ?_
          cases halive : (s.node w.ref).alive with
          | false =>
              rw [onNode_of_dead (by rw [World.setAnimFlag, setNode_self]; exact halive)]
              exact .of_node hset.guarded rfl
          | true =>
              rw [onNode_of_alive (by rw [World.setAnimFlag, setNode_self]; exact halive)]
              refine .setNode hset.guarded (fun _ => ?_) id fun _ => .inr ⟨rfl, rfl⟩
              rw [World.setAnimFlag, setNode_self]
              exact ⟨rfl, halive⟩
      | unknown => exact hset.mono fun _ h => h.elim

theorem animEnd_animates {s : World ι} (hs : s.Guarded) {w : GameWindow ι} {anim : Anim}
    (hanim : (s.node w.ref).anim = some anim) :
    Animates nothing (s.setNode w.ref { s.node w.ref with anim := none }) (s.animEnd w anim) := by
  have hflag := (hs w.ref (by rw [hanim]; exact Option.some_ne_none anim)).1
  have hclear : Animates nothing s (s.setNode w.ref { s.node w.ref with anim := none }) :=
    .setNode hs (NodeState.guarded_of_none rfl) id nofun
  unfold World.animEnd
  cases anim with
  | onShowEnd =>
      refine .setNode hclear.guarded (NodeState.guarded_of_none ?_) id .inl
      rw [setNode_self]
  | onHideEnd =>
      refine onHideEnd_animates hclear.guarded ?_ ?_
      · rw [setNode_self]
        exact hflag
      · rw [setNode_self]

namespace World

/-- The window on which the event calls `hide`, the one that `showWindow` replaces apart. -/
def hides (s : World ι) : WindowEvent ι → Option (GameWindow ι)
  | .hide wnd => some wnd
  | .tapMask key =>
      (s.manager.mMaskBgs key).bind fun b => if b.wnd.getClickBlankClose then some b.wnd else none
  | .onKeyBack order =>
      (s.manager.findUppermostWnd order).bind fun id => s.manager.mOpenedWindows.lookup id
  | .showWindow .. => none
  | .animEnd _ => none

end World

/-- What a step other than `showWindow` calls. -/
inductive Calls (s : World ι) : WindowEvent ι → World ι → Prop
  | nothing {e : WindowEvent ι} (silent : s.hides e = none) : Calls s e s
  | hide {e : WindowEvent ι} {w : GameWindow ι} (target : s.hides e = some w) :
      Calls s e (w.hide s).world
  | animEnd {w : GameWindow ι} {anim : Anim} (created : w ∈ s.windows)
      (pending : (s.node w.ref).anim = some anim) : Calls s (.animEnd w) (s.animEnd w anim)

theorem calls_of_stepWindow {WindowConfig : ι → Option Config} {s t : World ι}
    {e : WindowEvent ι}
    (hshow : ∀ parentNode id style order, e ≠ .showWindow parentNode id style order)
    (hstep : stepWindow WindowConfig s e = some t) : Calls s e t := by
  cases e with
  | showWindow parentNode id style order => exact absurd rfl (hshow parentNode id style order)
  | hide wnd =>
      simp only [stepWindow, Option.ite_none_right_eq_some, Option.some.injEq] at hstep
      obtain ⟨_, rfl⟩ := hstep
      exact .hide rfl
  | tapMask key =>
      simp only [stepWindow] at hstep
      cases hmask : s.manager.mMaskBgs key with
      | none => simp [hmask] at hstep
      | some b =>
          simp only [hmask, Option.ite_none_right_eq_some, Option.some.injEq] at hstep
          obtain ⟨_, rfl⟩ := hstep
          unfold World.tapMask
          by_cases hblank : b.wnd.getClickBlankClose = true
          · rw [if_pos hblank]
            exact .hide (by rw [World.hides, hmask, Option.bind_some, if_pos hblank])
          · rw [if_neg hblank]
            exact .nothing (by rw [World.hides, hmask, Option.bind_some, if_neg hblank])
  | onKeyBack order =>
      simp only [stepWindow, Option.ite_none_right_eq_some, Option.some.injEq] at hstep
      obtain ⟨_, rfl⟩ := hstep
      unfold World.onKeyBack World.hideOpened
      cases huppermost : s.manager.findUppermostWnd order with
      | none => exact .nothing (by rw [World.hides, huppermost, Option.bind_none])
      | some id =>
          cases hopen : s.manager.mOpenedWindows.lookup id with
          | none =>
              simp only
              rw [hopen]
              exact .nothing (by rw [World.hides, huppermost, Option.bind_some, hopen])
          | some wnd =>
              simp only
              rw [hopen]
              exact .hide (by rw [World.hides, huppermost, Option.bind_some, hopen])
  | animEnd wnd =>
      simp only [stepWindow, Option.ite_none_right_eq_some, Option.map_eq_some_iff] at hstep
      obtain ⟨hwnd, anim, hanim, rfl⟩ := hstep
      exact .animEnd hwnd.1 hanim

theorem ready_guarded {s : World ι} (hs : s.Guarded) (parentNode : Nat) (id : ι)
    (config : Config) (style : Option WindowStyle) :
    (s.ready parentNode id config style).Guarded := by
  unfold World.ready
  cases s.manager.mWindows id with
  | some w => exact hs
  | none =>
      intro ref
      change (Function.update s.node s.windows.length .ctor ref).Guarded
      by_cases href : ref = s.windows.length
      · rw [href, Function.update_self]
        exact NodeState.guarded_of_none rfl
      · rw [Function.update_of_ne href]
        exact hs ref

end Animations
end Doudizhu.Window
