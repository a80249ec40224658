import Doudizhu.Window.Invariants

/-! # While the scene stays

As long as no scene is replaced, no parent of a window has been destroyed, nor any mask, nor the
nodes that `showWindow` reaches: the replacement of a full-screen window cannot raise. -/

set_option autoImplicit false

namespace Doudizhu.Window

open Runs

section OneScene
variable {ι : Type} [DecidableEq ι]

structure InScene (s : World ι) : Prop where
  parents : ∀ w ∈ s.windows, s.scene ≤ w.parentNode
  masks : ∀ key b, s.manager.mMaskBgs key = some b → b.alive = true
  kept : ∀ id w, s.manager.mWindows id = some w → (s.node w.ref).alive = true
  fullScreen : ∀ id w, s.manager.mOpenedWindows.lookup id = some w →
    w.config.level = WindowLevel.FullScreen → (s.node w.ref).alive = true

theorem inScene_start : InScene (World.start : World ι) where
  parents := fun _ hw => absurd hw List.not_mem_nil
  masks := fun _ b h => absurd h.symm (Option.some_ne_none b)
  kept := fun _ w h => absurd h.symm (Option.some_ne_none w)
  fullScreen := fun _ w h => absurd h.symm (Option.some_ne_none w)

variable {WindowConfig : ι → Option Config} {s t : World ι}

namespace InScene

theorem of_sameButNodes {dies : Nat → Prop} (h : InScene s) (hsame : SameButNodes dies s t)
    (hkept : ∀ id w, s.manager.mWindows id = some w → ¬ dies w.ref)
    (hopened : ∀ id w, s.manager.mOpenedWindows.lookup id = some w →
      w.config.level = WindowLevel.FullScreen → ¬ dies w.ref) : InScene t where
  parents := by rw [hsame.windows, hsame.scene]; exact h.parents
  masks := by rw [hsame.manager]; exact h.masks
  kept := by
    intro id w hw
    rw [hsame.manager] at hw
    rw [hsame.alive w.ref (hkept id w hw)]
    exact h.kept id w hw
  fullScreen := by
    intro id w hw hlevel
    rw [hsame.manager] at hw
    rw [hsame.alive w.ref (hopened id w hw hlevel)]
    exact h.fullScreen id w hw hlevel

theorem of_nothing (h : InScene s) (hsame : SameButNodes nothing s t) : InScene t :=
  h.of_sameButNodes hsame (fun _ _ _ hdies => hdies) (fun _ _ _ _ hdies => hdies)

theorem shown (h : InScene s) {w : GameWindow ι} (halive : w.config.level = WindowLevel.FullScreen →
    (s.node w.ref).alive = true) : InScene (s.setManager (s.manager.shown s.scene w)) where
  parents := h.parents
  masks := by
    intro key b hb
    change (s.manager.shown s.scene w).mMaskBgs key = some b at hb
    rw [mask_shown] at hb
    split at hb
    · cases Option.some.inj hb
      rfl
    · exact h.masks key b hb
  kept := h.kept
  fullScreen := by
    intro id v hv hlevel
    change (s.manager.shown s.scene w).mOpenedWindows.lookup id = some v at hv
    rw [lookup_shown] at hv
    split at hv
    · cases Option.some.inj hv
      exact halive hlevel
    · exact h.fullScreen id v hv hlevel

theorem forgotten (h : InScene s) (w : GameWindow ι) :
    InScene (s.setManager (s.manager.forgotten w)) where
  parents := h.parents
  masks := h.masks
  kept := by
    intro id v hv
    change (s.manager.forgotten w).mWindows id = some v at hv
    rw [kept_forgotten] at hv
    split at hv
    · exact absurd hv.symm (Option.some_ne_none v)
    · exact h.kept id v hv
  fullScreen := by
    intro id v hv hlevel
    refine h.fullScreen id v ?_ hlevel
    change (s.manager.forgotten w).mOpenedWindows.lookup id = some v at hv
    rw [lookup_forgotten] at hv
    split at hv
    · exact absurd hv.symm (Option.some_ne_none v)
    · exact hv

theorem unmasked (h : InScene s) (level : Int) :
    InScene (s.setManager (s.manager.unmasked level)) where
  parents := h.parents
  masks := by
    intro key b hb
    change (s.manager.unmasked level).mMaskBgs key = some b at hb
    rw [mask_unmasked] at hb
    split at hb
    · exact absurd hb.symm (Option.some_ne_none b)
    · exact h.masks key b hb
  kept := by
    intro id v hv
    change (s.manager.unmasked level).mWindows id = some v at hv
    rw [kept_unmasked] at hv
    exact h.kept id v hv
  fullScreen := by
    intro id v hv
    change (s.manager.unmasked level).mOpenedWindows.lookup id = some v at hv
    rw [lookup_unmasked] at hv
    exact h.fullScreen id v hv

theorem closed (h : InScene s) (hc : Consistent WindowConfig s.windows s.manager)
    (w : GameWindow ι) : InScene (s.setManager (s.manager.closed s.scene w)) := by
  cases hqueue : s.manager.mWaitedWindows w.config.level with
  | nil =>
      rw [closed_of_nil s.manager s.scene hqueue]
      exact (h.forgotten w).unmasked w.config.level
  | cons next waited =>
      rw [closed_of_cons s.manager s.scene hqueue]
      have hpopped : InScene (s.setManager
          ((s.manager.forgotten w).waiting w.config.level waited)) :=
        ⟨(h.forgotten w).parents, (h.forgotten w).masks, (h.forgotten w).kept,
          (h.forgotten w).fullScreen⟩
      refine hpopped.shown fun hlevel => ?_
      rw [(hc.next hqueue).2.1] at hlevel
      rw [hlevel, hc.fullScreen] at hqueue
      exact absurd hqueue.symm (List.cons_ne_nil next waited)

/-- The window that closes for good has left both tables by then. -/
theorem afterClosing (h : InScene s) (hwf : WellFormed WindowConfig s) {w : GameWindow ι}
    (hw : w ∈ s.windows)
    (hsame : SameButNodes w.destroyed (s.setManager (s.manager.closed s.scene w)) t) :
    InScene t := by
  have hc := hwf.consistent
  refine (h.closed hc w).of_sameButNodes hsame ?_ ?_
  · rintro id v hv ⟨href, hdestroy⟩
    obtain ⟨hmem, rfl⟩ := (hwf.closed hw).consistent.kept id v hv
    cases hc.eq_of_ref hmem hw href
    change (s.manager.closed s.scene w).mWindows w.id = some w at hv
    rw [kept_closed, kept_forgotten, if_pos ⟨hdestroy, rfl⟩] at hv
    exact absurd hv.symm (Option.some_ne_none w)
  · rintro id v hv hlevel ⟨href, hdestroy⟩
    obtain ⟨hmem, rfl⟩ := (hwf.closed hw).consistent.opened id v hv
    cases hc.eq_of_ref hmem hw href
    have hqueue : s.manager.mWaitedWindows w.config.level = [] := by
      rw [hlevel]
      exact hc.fullScreen
    change (s.manager.closed s.scene w).mOpenedWindows.lookup w.id = some w at hv
    simp only [lookup_closed, hqueue, List.head?_nil, if_true] at hv
    exact absurd hv.symm (Option.some_ne_none w)

theorem hidden (h : InScene s) (hwf : WellFormed WindowConfig s) {w : GameWindow ι}
    (hw : w ∈ s.windows) : InScene (w.hide s).world := by
  have hsame := hide_sameButNodes s w
  by_cases hclose : s.closesAtOnce w = true
  · rw [if_pos hclose] at hsame
    exact h.afterClosing hwf hw (hsame.mono fun _ hdies => hdies.2)
  · rw [if_neg hclose] at hsame
    exact h.of_nothing (hsame.mono fun _ hdies => absurd hdies.1 hclose)

theorem shownKept (h : InScene s) {id : ι} {w : GameWindow ι}
    (hkept : s.manager.mWindows id = some w) : InScene (s.doShowKept id).world :=
  (h.shown fun _ => h.kept id w hkept).of_nothing (doShowKept_sameButNodes hkept)

theorem ready (h : InScene s) (hwf : WellFormed WindowConfig s) {parentNode : Nat} {id : ι}
    {config : Config} (hreach : Reaches WindowConfig s parentNode id config)
    (style : Option WindowStyle) : InScene (s.ready parentNode id config style) := by
  unfold World.ready
  cases hkept : s.manager.mWindows id with
  | some w => exact h
  | none =>
      have hparent : s.scene ≤ parentNode := hreach.2.2.resolve_left fun h => h hkept
      have hold : ∀ w ∈ s.windows, (s.node w.ref).alive = true →
          ((s.created parentNode id config style).node w.ref).alive = true := by
        intro w hw halive
        have href : w.ref ≠ s.windows.length :=
          Nat.ne_of_lt (List.getElem?_eq_some_iff.mp (hwf.consistent.indexed w hw)).1
        change (Function.update s.node s.windows.length .ctor w.ref).alive = true
        rw [Function.update_of_ne href]
        exact halive
      refine ⟨?_, h.masks, ?_, ?_⟩
      · intro w hw
        rcases List.mem_append.mp hw with hw | hw
        · exact h.parents w hw
        · rw [List.mem_singleton.mp hw]
          exact hparent
      · intro key w hw
        by_cases hkey : key = id
        · subst hkey
          simp only [World.created, Function.update_self] at hw
          cases Option.some.inj hw
          change (Function.update s.node s.windows.length .ctor s.windows.length).alive = true
          rw [Function.update_self]
          rfl
        · simp only [World.created, Function.update_of_ne hkey] at hw
          exact hold w (hwf.consistent.kept key w hw).1 (h.kept key w hw)
      · intro key w hw hlevel
        exact hold w (hwf.consistent.opened key w hw).1 (h.fullScreen key w hw hlevel)

theorem showOrWait (h : InScene s) {id : ι} {w : GameWindow ι} {order : List ι}
    (hprepared : Prepared WindowConfig s id w order) :
    InScene (s.showOrWait order w.config.level id).world := by
  apply hprepared.showOrWait_rule
  · intro _
    exact h.shownKept hprepared.kept
  · intro _
    exact h
  · intro _ _ _
    exact ⟨h.parents, h.masks, h.kept, h.fullScreen⟩
  · intro _ r _ hr
    have hhidden := h.hidden hprepared.wellFormed hr.mem
    by_cases hresult : (r.hide s).result = none
    · rw [andThen_of_none _ hresult]
      exact hhidden
    · rw [andThen_of_some _ hresult]
      exact hhidden.shownKept (((hide_tables s r hr.queue id).2 hr.ne).trans hprepared.kept)

theorem stepWindow (h : InScene s) (hwf : WellFormed WindowConfig s) {e : WindowEvent ι}
    (hstep : stepWindow WindowConfig s e = some t) : InScene t := by
  rcases stepWindow_cases WindowConfig hstep with
    ⟨parentNode, id, style, order, rfl, horder, rfl⟩ | ⟨_, hsame⟩
  · apply hwf.showWindow_rule horder
    · intro _ style'
      exact ⟨h.parents, h.masks, h.kept, h.fullScreen⟩
    · intro config hreach _ hprepared
      exact (h.ready hwf hreach style).showOrWait hprepared
  · cases hclosing : s.closing e with
    | none =>
        rw [hclosing] at hsame
        exact h.of_nothing (hsame.mono fun ref ⟨w, hw, _⟩ => by cases hw)
    | some w =>
        rw [hclosing] at hsame
        exact h.afterClosing hwf (hwf.closing_mem hstep hclosing)
          (hsame.mono fun ref ⟨v, hv, hdies⟩ => by cases hv; exact hdies)

/-- The full-screen window to be replaced is there to be hidden. -/
theorem hide_result (h : InScene s) {id : ι} {r : GameWindow ι}
    (hr : MakesRoom s.windows s.manager id r) : (r.hide s).result ≠ none := by
  rw [ne_eq, Window.hide_result s r hr.queue, World.hideRaises]
  have halive := h.fullScreen r.id r hr.opened hr.level
  have hmask : (s.manager.mMaskBgs (r.config.level - 1)).all MaskBg.alive = true := by
    rw [Option.all_eq_true]
    exact fun b hb => h.masks _ b hb
  cases s.styleOf r <;> simp [halive, hmask]

end InScene

end OneScene

end Doudizhu.Window
