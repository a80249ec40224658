import Doudizhu.Window.OneScene

/-! # The mask of a level and its windows

The mask comes with the first window of a level and goes when a close finds nobody waiting.  A
close of another window than the one that is open takes the mask away under it, and the next in
the queue inherits a mask whose touch handler hides the window it was made for. -/

set_option autoImplicit false

namespace Doudizhu.Window

open Runs

section Masks
variable {ι : Type} [DecidableEq ι]

/-- A mask is there for the open windows, and a tap on it hides one of them. -/
structure MaskAgreesAt (m : WindowManager ι) (level : Int) : Prop where
  mask_iff : m.mMaskBgs (level - 1) ≠ none ↔ m.Occupied level
  tapped : ∀ b, m.mMaskBgs (level - 1) = some b → b.wnd.getClickBlankClose = true →
    m.mOpenedWindows.lookup b.wnd.id = some b.wnd ∧ b.wnd.config.level = level

def MasksAgree (m : WindowManager ι) : Prop := ∀ level, MaskAgreesAt m level

/-- The closing of `w` empties the level, or leaves the window of the mask open. -/
def ClosesWithMask (m : WindowManager ι) (w : GameWindow ι) : Prop :=
  if m.mWaitedWindows w.config.level = [] then
    ∀ id v, m.mOpenedWindows.lookup id = some v → v.config.level = w.config.level → id = w.id
  else
    ∀ b, m.mMaskBgs (w.config.level - 1) = some b → b.wnd.getClickBlankClose = true →
      b.wnd.id ≠ w.id

def KeepsMasks (s : World ι) (e : WindowEvent ι) : Prop :=
  ∀ w, s.closing e = some w → ClosesWithMask s.manager w

end Masks

section Manager
variable {ι : Type} [DecidableEq ι] {WindowConfig : ι → Option Config}
variable {windows : List (GameWindow ι)} {m m' : WindowManager ι} {level : Int}

/-- It is a matter of the mask and the open windows of the level. -/
theorem MaskAgreesAt.congr (h : MaskAgreesAt m level)
    (hmask : m'.mMaskBgs (level - 1) = m.mMaskBgs (level - 1))
    (hopen : ∀ id v, v.config.level = level →
      (m'.mOpenedWindows.lookup id = some v ↔ m.mOpenedWindows.lookup id = some v)) :
    MaskAgreesAt m' level where
  mask_iff := by
    rw [hmask, h.mask_iff]
    constructor
    · rintro ⟨id, v, hid, hlevel⟩
      exact ⟨id, v, (hopen id v hlevel).mpr hid, hlevel⟩
    · rintro ⟨id, v, hid, hlevel⟩
      exact ⟨id, v, (hopen id v hlevel).mp hid, hlevel⟩
  tapped := by
    intro b hb hblank
    rw [hmask] at hb
    obtain ⟨hid, hlevel⟩ := h.tapped b hb hblank
    exact ⟨(hopen b.wnd.id b.wnd hlevel).mpr hid, hlevel⟩

/-- At the other levels a window that is shown changes nothing. -/
theorem MaskAgreesAt.shown_of_ne (h : MaskAgreesAt m level) (scene : Nat) {w : GameWindow ι}
    (hclosed : m.mOpenedWindows.lookup w.id = none) (hlevel : level ≠ w.config.level) :
    MaskAgreesAt (m.shown scene w) level := by
  refine h.congr ?_ fun id v hv => ?_
  · rw [mask_shown, if_neg]
    rintro ⟨hkey, _⟩
    omega
  · rw [lookup_shown]
    by_cases hid : id = w.id
    · rw [if_pos hid, hid, hclosed]
      constructor
      · intro hw
        cases Option.some.inj hw
        exact absurd hv.symm hlevel
      · intro hw
        exact absurd hw.symm (Option.some_ne_none v)
    · rw [if_neg hid]

/-- At its own level it finds a mask that agrees, or makes one. -/
theorem maskAgreesAt_shown (scene : Nat) {w : GameWindow ι} (hparent : scene ≤ w.parentNode)
    (hclosed : m.mOpenedWindows.lookup w.id = none)
    (h : MaskAgreesAt m w.config.level ∨ m.mMaskBgs (w.config.level - 1) = none) :
    MaskAgreesAt (m.shown scene w) w.config.level := by
  have hopen : (m.shown scene w).mOpenedWindows.lookup w.id = some w := by
    rw [lookup_shown, if_pos rfl]
  rcases Option.eq_none_or_eq_some (m.mMaskBgs (w.config.level - 1)) with hnone | ⟨b, hb⟩
  · have hmask : (m.shown scene w).mMaskBgs (w.config.level - 1) = some ⟨w, true⟩ := by
      rw [mask_shown, if_pos ⟨rfl, hnone, hparent⟩]
    refine ⟨⟨fun _ => ⟨w.id, w, hopen, rfl⟩, fun _ => ?_⟩, fun b hb _ => ?_⟩
    · rw [hmask]
      exact Option.some_ne_none _
    · rw [hmask] at hb
      cases Option.some.inj hb
      exact ⟨hopen, rfl⟩
  · have hold := h.resolve_right (by rw [hb]; exact Option.some_ne_none b)
    have hmask : (m.shown scene w).mMaskBgs (w.config.level - 1) = some b := by
      rw [mask_shown, if_neg, hb]
      rintro ⟨_, hnone, _⟩
      rw [hb] at hnone
      exact absurd hnone (Option.some_ne_none b)
    refine ⟨⟨fun _ => ⟨w.id, w, hopen, rfl⟩, fun _ => ?_⟩, fun b' hb' hblank => ?_⟩
    · rw [hmask]
      exact Option.some_ne_none b
    · rw [hmask] at hb'
      cases Option.some.inj hb'
      obtain ⟨hid, hlevel⟩ := hold.tapped b hb hblank
      refine ⟨?_, hlevel⟩
      rw [lookup_shown, if_neg, hid]
      intro hsame
      rw [hsame, hclosed] at hid
      exact absurd hid.symm (Option.some_ne_none b.wnd)

theorem MasksAgree.shown (h : MasksAgree m) (scene : Nat) {w : GameWindow ι}
    (hparent : scene ≤ w.parentNode) (hclosed : m.mOpenedWindows.lookup w.id = none) :
    MasksAgree (m.shown scene w) := by
  intro level
  by_cases hlevel : level = w.config.level
  · subst hlevel
    exact maskAgreesAt_shown scene hparent hclosed (.inl (h w.config.level))
  · exact (h level).shown_of_ne scene hclosed hlevel

theorem MaskAgreesAt.closed_of_ne (h : MaskAgreesAt m level)
    (hc : Consistent WindowConfig windows m) (scene : Nat) {w : GameWindow ι} (hw : w ∈ windows)
    (hlevel : level ≠ w.config.level) : MaskAgreesAt (m.closed scene w) level := by
  have hforgotten : MaskAgreesAt (m.forgotten w) level := by
    refine h.congr rfl fun id v hv => ?_
    rw [lookup_forgotten]
    by_cases hid : id = w.id
    · rw [if_pos hid]
      constructor
      · intro hnone
        exact absurd hnone.symm (Option.some_ne_none v)
      · intro hopen
        obtain ⟨hmem, hvid⟩ := hc.opened id v hopen
        exact absurd (hv.symm.trans (hc.level_eq hmem hw (hvid.trans hid))) hlevel
    · rw [if_neg hid]
  cases hqueue : m.mWaitedWindows w.config.level with
  | nil =>
      rw [closed_of_nil m scene hqueue]
      refine hforgotten.congr ?_ fun id v _ => by rw [lookup_unmasked]
      rw [mask_unmasked, if_neg]
      rintro ⟨hkey, _⟩
      omega
  | cons next waited =>
      obtain ⟨_, hnext, hclosed, _⟩ := hc.next hqueue
      rw [closed_of_cons m scene hqueue]
      have hpopped : MaskAgreesAt ((m.forgotten w).waiting w.config.level waited) level :=
        hforgotten.congr rfl fun _ _ _ => Iff.rfl
      refine hpopped.shown_of_ne scene ?_ (by rw [hnext]; exact hlevel)
      change (m.forgotten w).mOpenedWindows.lookup next.id = none
      rw [lookup_forgotten, hclosed, ite_self]

/-- With nothing waiting the mask goes, so nobody else may be open at the level. -/
theorem maskAgreesAt_closed_of_nil
    (hmasks : ∀ key b, m.mMaskBgs key = some b → b.alive = true) (scene : Nat) {w : GameWindow ι}
    (hqueue : m.mWaitedWindows w.config.level = []) :
    MaskAgreesAt (m.closed scene w) w.config.level ↔
      ∀ id v, m.mOpenedWindows.lookup id = some v → v.config.level = w.config.level →
        id = w.id := by
  have hmask : (m.closed scene w).mMaskBgs (w.config.level - 1) = none := by
    rw [closed_of_nil m scene hqueue, mask_unmasked, if_pos]
    refine ⟨rfl, ?_⟩
    rw [Option.all_eq_true]
    exact fun b hb => hmasks _ b hb
  have hopen : ∀ id v, (m.closed scene w).mOpenedWindows.lookup id = some v ↔
      id ≠ w.id ∧ m.mOpenedWindows.lookup id = some v := by
    intro id v
    simp only [lookup_closed, hqueue, List.head?_nil]
    by_cases hid : id = w.id
    · simp [hid]
    · simp [hid]
  constructor
  · intro hagrees id v hid hlevel
    by_contra hne
    exact hagrees.mask_iff.mpr ⟨id, v, (hopen id v).mpr ⟨hne, hid⟩, hlevel⟩ hmask
  · intro halone
    refine ⟨⟨fun hsome => absurd hmask hsome, ?_⟩, fun b hb => ?_⟩
    · rintro ⟨id, v, hid, hlevel⟩
      obtain ⟨hne, hid⟩ := (hopen id v).mp hid
      exact absurd (halone id v hid hlevel) hne
    · rw [hmask] at hb
      exact absurd hb.symm (Option.some_ne_none b)

/-- Otherwise the mask stays for the window that follows, and must not close one that is gone. -/
theorem maskAgreesAt_closed_of_cons (h : MasksAgree m) (hc : Consistent WindowConfig windows m)
    (hblocked : Blocked m) (scene : Nat) {w next : GameWindow ι} {waited : List (GameWindow ι)}
    (hqueue : m.mWaitedWindows w.config.level = next :: waited) :
    MaskAgreesAt (m.closed scene w) w.config.level ↔
      ∀ b, m.mMaskBgs (w.config.level - 1) = some b → b.wnd.getClickBlankClose = true →
        b.wnd.id ≠ w.id := by
  obtain ⟨_, hnext, hclosed, _⟩ := hc.next hqueue
  have hoccupied : m.Occupied w.config.level := hblocked w.config.level (by
    rw [hqueue]
    exact List.cons_ne_nil next waited)
  obtain ⟨b, hb⟩ := Option.ne_none_iff_exists'.mp ((h w.config.level).mask_iff.mpr hoccupied)
  have hmask : (m.closed scene w).mMaskBgs (w.config.level - 1) = some b := by
    rw [closed_of_cons m scene hqueue, mask_shown, if_neg]
    · exact hb
    · rintro ⟨_, hnone, _⟩
      exact absurd (hb.symm.trans hnone) (Option.some_ne_none b)
  have hopen : (m.closed scene w).mOpenedWindows.lookup next.id = some next := by
    simp only [lookup_closed, hqueue, List.head?_cons, if_true]
  have hpasses : ∀ id v, m.mOpenedWindows.lookup id = some v →
      (m.closed scene w).mOpenedWindows.lookup id =
        if id = w.id then none else some v := by
    intro id v hid
    have hne : id ≠ next.id := by
      rintro rfl
      rw [hclosed] at hid
      exact absurd hid.symm (Option.some_ne_none v)
    simp only [lookup_closed, hqueue, List.head?_cons, if_neg hne, hid]
  constructor
  · intro hagrees b' hb' hblank hid
    cases Option.some.inj (hb.symm.trans hb')
    have hbefore := ((h w.config.level).tapped b hb hblank).1
    have hafter := (hagrees.tapped b hmask hblank).1
    rw [hpasses _ _ hbefore, if_pos hid] at hafter
    exact absurd hafter.symm (Option.some_ne_none b.wnd)
  · intro hkeeps
    refine ⟨⟨fun _ => ⟨next.id, next, hopen, hnext⟩, fun _ => ?_⟩, fun b' hb' hblank => ?_⟩
    · rw [hmask]
      exact Option.some_ne_none b
    · rw [hmask] at hb'
      cases Option.some.inj hb'
      obtain ⟨hbefore, hlevel⟩ := (h w.config.level).tapped b hb hblank
      refine ⟨?_, hlevel⟩
      rw [hpasses _ _ hbefore, if_neg (hkeeps b hb hblank)]

theorem maskAgreesAt_closed_iff (h : MasksAgree m) (hc : Consistent WindowConfig windows m)
    (hblocked : Blocked m) (hmasks : ∀ key b, m.mMaskBgs key = some b → b.alive = true)
    (scene : Nat) (w : GameWindow ι) :
    MaskAgreesAt (m.closed scene w) w.config.level ↔ ClosesWithMask m w := by
  unfold ClosesWithMask
  cases hqueue : m.mWaitedWindows w.config.level with
  | nil =>
      rw [if_pos rfl]
      exact maskAgreesAt_closed_of_nil hmasks scene hqueue
  | cons next waited =>
      rw [if_neg (List.cons_ne_nil next waited)]
      exact maskAgreesAt_closed_of_cons h hc hblocked scene hqueue

end Manager

section Steps
variable {ι : Type} [DecidableEq ι] {WindowConfig : ι → Option Config} {s t : World ι}

/-- The replaced window takes the mask with it, and the new one makes another. -/
theorem MasksAgree.replaces (h : MasksAgree s.manager) (hwf : WellFormed WindowConfig s)
    (hscene : InScene s) {id : ι} {w r : GameWindow ι} (hkept : s.manager.mWindows id = some w)
    (hclosed : s.manager.mOpenedWindows.lookup id = none)
    (hlevel : w.config.level = WindowLevel.FullScreen)
    (hr : MakesRoom s.windows s.manager id r) :
    MasksAgree ((r.hide s).andThen fun t => t.doShowKept id).world.manager := by
  obtain ⟨hmem, rfl⟩ := hwf.consistent.kept id w hkept
  obtain ⟨hlookup, hsaved⟩ := hide_tables s r hr.queue w.id
  have hsame := hide_sameButNodes s r
  have hparent : (r.hide s).world.scene ≤ w.parentNode := by
    rw [hsame.scene]
    split <;> exact hscene.parents w hmem
  have hclosed' : (r.hide s).world.manager.mOpenedWindows.lookup w.id = none := by
    rw [hlookup, hclosed, ite_self]
  rw [andThen_of_some _ (hscene.hide_result hr),
    (doShowKept_sameButNodes ((hsaved hr.ne).trans hkept)).manager]
  change MasksAgree ((r.hide s).world.manager.shown (r.hide s).world.scene w)
  by_cases hclose : s.closesAtOnce r = true
  · rw [if_pos hclose] at hsame
    have hlevels : r.config.level = w.config.level := hr.level.trans hlevel.symm
    intro level
    by_cases hne : level = w.config.level
    · subst hne
      refine maskAgreesAt_shown _ hparent hclosed' (.inr ?_)
      rw [hsame.manager]
      change (s.manager.closed s.scene r).mMaskBgs (w.config.level - 1) = none
      rw [closed_of_nil s.manager s.scene hr.queue, mask_unmasked, if_pos]
      refine ⟨by rw [hlevels], ?_⟩
      rw [Option.all_eq_true]
      exact fun b hb => hscene.masks _ b hb
    · refine MaskAgreesAt.shown_of_ne ?_ _ hclosed' hne
      rw [hsame.manager]
      exact (h level).closed_of_ne hwf.consistent s.scene hr.mem (by rw [hlevels]; exact hne)
  · rw [if_neg hclose] at hsame
    refine MasksAgree.shown ?_ _ hparent hclosed'
    rw [hsame.manager]
    exact h

theorem MasksAgree.showOrWait (h : MasksAgree s.manager) (hscene : InScene s) {id : ι}
    {w : GameWindow ι} {order : List ι} (hprepared : Prepared WindowConfig s id w order) :
    MasksAgree (s.showOrWait order w.config.level id).world.manager := by
  have hwf := hprepared.wellFormed
  apply hprepared.showOrWait_rule (P := fun t => MasksAgree t.manager)
  · intro _
    rw [(doShowKept_sameButNodes hprepared.kept).manager]
    obtain ⟨hmem, rfl⟩ := hwf.consistent.kept id w hprepared.kept
    exact h.shown s.scene (hscene.parents w hmem) hprepared.closed
  · intro _
    exact h
  · intro _ _ _
    exact fun level => (h level).congr rfl fun _ _ _ => Iff.rfl
  · intro hlevel r _ hr
    exact h.replaces hwf hscene hprepared.kept hprepared.closed hlevel hr

theorem MasksAgree.showWindow (h : MasksAgree s.manager) (hwf : WellFormed WindowConfig s)
    (hscene : InScene s) (parentNode : Nat) (id : ι) (style : Option WindowStyle)
    {order : List ι} (horder : order.Perm s.manager.mOpenedWindows.keys) :
    MasksAgree (s.showWindow WindowConfig parentNode id style order).world.manager := by
  apply hwf.showWindow_rule horder (P := fun t => MasksAgree t.manager)
  · intro _ style'
    exact h
  · intro config hreach _ hprepared
    have hready : MasksAgree (s.ready parentNode id config style).manager := by
      intro level
      refine (h level).congr ?_ fun key v _ => ?_
      · rw [ready_masks]
      · rw [ready_opened]
    exact hready.showOrWait (hscene.ready hwf hreach style) hprepared

theorem stepWindow_masks (h : MasksAgree s.manager) (hwf : WellFormed WindowConfig s)
    (hscene : InScene s) {e : WindowEvent ι} (hstep : stepWindow WindowConfig s e = some t) :
    MasksAgree t.manager ↔ KeepsMasks s e := by
  rcases stepWindow_cases WindowConfig hstep with
    ⟨parentNode, id, style, order, rfl, horder, rfl⟩ | ⟨_, hsame⟩
  · constructor
    · intro _ w hw
      exact absurd hw.symm (Option.some_ne_none w)
    · intro _
      exact h.showWindow hwf hscene parentNode id style horder
  · rw [hsame.manager]
    unfold KeepsMasks
    cases hclosing : s.closing e with
    | none => exact ⟨fun _ w hw => absurd hw.symm (Option.some_ne_none w), fun _ => h⟩
    | some w =>
        have hw := hwf.closing_mem hstep hclosing
        have hlevel := maskAgreesAt_closed_iff h hwf.consistent hwf.blocked hscene.masks s.scene w
        constructor
        · intro hagree v hv
          cases Option.some.inj hv
          exact hlevel.mp (hagree w.config.level)
        · intro hcloses level
          by_cases hne : level = w.config.level
          · subst hne
            exact hlevel.mpr (hcloses w rfl)
          · exact (h level).closed_of_ne hwf.consistent s.scene hw hne

/-- In every run without a change of scene, the masks agree with the windows throughout exactly
when every close empties its level, or passes it on with the window of the mask still open. -/
theorem masks_agree_iff (es : List (WindowEvent ι)) (t : World ι)
    (hrun : run (stepWindow WindowConfig) World.start es = some t) :
    Always (stepWindow WindowConfig) (fun s => MasksAgree s.manager) World.start es ↔
      Along (stepWindow WindowConfig) KeepsMasks World.start es := by
  refine always_iff_along (stepWindow WindowConfig) KeepsMasks
    (fun s => WellFormed WindowConfig s ∧ InScene s) (fun s => MasksAgree s.manager) ?_ ?_ es
    World.start t ⟨wellFormed_start, inScene_start⟩ ?_ hrun
  · intro s e s' h hstep
    exact ⟨h.1.stepWindow hstep, h.2.stepWindow h.1 hstep⟩
  · intro s e s' h hagree hstep
    exact stepWindow_masks hagree h.1 h.2 hstep
  · intro level
    refine ⟨⟨fun h => absurd rfl h, ?_⟩, fun b hb => absurd hb.symm (Option.some_ne_none b)⟩
    rintro ⟨id, v, hopen, _⟩
    exact absurd hopen.symm (Option.some_ne_none v)

end Steps

/-! ## A mask that outlives its window -/

def popu (clickBlankClose : Bool) : Config :=
  ⟨WindowLevel.NormalPopu, clickBlankClose, true, true⟩

/-- One popup after another, with a mask that does not react. -/
theorem masks_agree_of_deaf_mask :
    Always (stepWindow (twoAlike (popu false))) (fun s => MasksAgree s.manager) World.start
      [.showWindow 0 false none [], .showWindow 0 true none [false],
        .hide (firstAlike (popu false))] := by
  refine (masks_agree_iff _ _ rfl).mpr ⟨?_, fun s hs => ?_⟩
  · intro w hw
    exact absurd hw.symm (Option.some_ne_none w)
  cases Option.some.inj hs
  refine ⟨?_, fun s hs => ?_⟩
  · intro w hw
    exact absurd hw.symm (Option.some_ne_none w)
  cases Option.some.inj hs
  refine ⟨fun w hw => ?_, fun _ _ => trivial⟩
  cases Option.some.inj hw
  intro b hb hblank
  cases Option.some.inj hb
  exact absurd hblank.symm Bool.false_ne_true.symm

/-- The second popup is shown on the mask of the first, which a tap would hide once more. -/
theorem mask_keeps_closed_window :
    ¬ Always (stepWindow (twoAlike (popu true))) (fun s => MasksAgree s.manager) World.start
      [.showWindow 0 false none [], .showWindow 0 true none [false],
        .hide (firstAlike (popu true))] := by
  intro halways
  have hagree := (((halways.2 _ rfl).2 _ rfl).2 _ rfl).head
  obtain ⟨hopen, _⟩ := (hagree WindowLevel.NormalPopu).tapped ⟨firstAlike (popu true), true⟩ rfl rfl
  exact absurd hopen.symm (Option.some_ne_none _)

end Doudizhu.Window
