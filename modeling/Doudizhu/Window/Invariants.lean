import Doudizhu.Window.Steps

/-! # What holds of the tables at any time

Every table entry is a window that has been created, under its own id.  The windows waiting at a
level are not open, no two of them have one id, and some window of the level is open; nobody ever
waits at the full-screen level.  A scene change keeps all of this. -/

set_option autoImplicit false

namespace Doudizhu.Window

section Invariants
variable {ι : Type} [DecidableEq ι] (WindowConfig : ι → Option Config)

structure Consistent (windows : List (GameWindow ι)) (m : WindowManager ι) : Prop where
  indexed : ∀ w ∈ windows, windows[w.ref]? = some w
  configured : ∀ w ∈ windows, WindowConfig w.id = some w.config
  kept : ∀ id w, m.mWindows id = some w → w ∈ windows ∧ w.id = id
  opened : ∀ id w, m.mOpenedWindows.lookup id = some w → w ∈ windows ∧ w.id = id
  waiting : ∀ level, ∀ w ∈ m.mWaitedWindows level,
    w ∈ windows ∧ w.config.level = level ∧ m.mOpenedWindows.lookup w.id = none
  nodup : ∀ level, ((m.mWaitedWindows level).map GameWindow.id).Nodup
  fullScreen : m.mWaitedWindows WindowLevel.FullScreen = []
  masks : ∀ key b, m.mMaskBgs key = some b → b.wnd ∈ windows ∧ b.wnd.config.level - 1 = key

/-- Whoever waits has a window of its level to wait for. -/
def Blocked (m : WindowManager ι) : Prop :=
  ∀ level, m.mWaitedWindows level ≠ [] → m.Occupied level

structure WellFormed (s : World ι) : Prop where
  consistent : Consistent WindowConfig s.windows s.manager
  blocked : Blocked s.manager

end Invariants

section Manager
variable {ι : Type} [DecidableEq ι] {WindowConfig : ι → Option Config}
variable {windows : List (GameWindow ι)} {m : WindowManager ι}

theorem Consistent.keyed (h : Consistent WindowConfig windows m) : m.Keyed :=
  fun id w hopen => (h.opened id w hopen).2

theorem Consistent.lookup_own (h : Consistent WindowConfig windows m) {id : ι}
    {w : GameWindow ι} (hopen : m.mOpenedWindows.lookup id = some w) :
    m.mOpenedWindows.lookup w.id = some w := by
  rw [(h.opened id w hopen).2]
  exact hopen

theorem Consistent.eq_of_ref (h : Consistent WindowConfig windows m) {v w : GameWindow ι}
    (hv : v ∈ windows) (hw : w ∈ windows) (href : v.ref = w.ref) : v = w := by
  have hindex := h.indexed v hv
  rw [href, h.indexed w hw] at hindex
  exact (Option.some.inj hindex).symm

theorem Consistent.level_eq (h : Consistent WindowConfig windows m) {v w : GameWindow ι}
    (hv : v ∈ windows) (hw : w ∈ windows) (hid : v.id = w.id) :
    v.config.level = w.config.level := by
  have hconfig := h.configured v hv
  rw [hid, h.configured w hw] at hconfig
  rw [Option.some.inj hconfig]

theorem Consistent.forgotten (h : Consistent WindowConfig windows m) (w : GameWindow ι) :
    Consistent WindowConfig windows (m.forgotten w) where
  indexed := h.indexed
  configured := h.configured
  kept := by
    intro id v hkept
    rw [kept_forgotten] at hkept
    split at hkept
    · exact absurd hkept.symm (Option.some_ne_none v)
    · exact h.kept id v hkept
  opened := by
    intro id v hopen
    rw [lookup_forgotten] at hopen
    by_cases hid : id = w.id
    · rw [if_pos hid] at hopen
      exact absurd hopen.symm (Option.some_ne_none v)
    · rw [if_neg hid] at hopen
      exact h.opened id v hopen
  waiting := by
    intro level v hv
    obtain ⟨hmem, hlevel, hclosed⟩ := h.waiting level v hv
    refine ⟨hmem, hlevel, ?_⟩
    rw [lookup_forgotten, hclosed, ite_self]
  nodup := h.nodup
  fullScreen := h.fullScreen
  masks := h.masks

theorem Consistent.shown (h : Consistent WindowConfig windows m) (scene : Nat)
    {w : GameWindow ι} (hw : w ∈ windows)
    (hwaits : ∀ v ∈ m.mWaitedWindows w.config.level, v.id ≠ w.id) :
    Consistent WindowConfig windows (m.shown scene w) where
  indexed := h.indexed
  configured := h.configured
  kept := h.kept
  opened := by
    intro id v hopen
    rw [lookup_shown] at hopen
    by_cases hid : id = w.id
    · rw [if_pos hid] at hopen
      cases Option.some.inj hopen
      exact ⟨hw, hid.symm⟩
    · rw [if_neg hid] at hopen
      exact h.opened id v hopen
  waiting := by
    intro level v hv
    obtain ⟨hmem, hlevel, hclosed⟩ := h.waiting level v hv
    refine ⟨hmem, hlevel, ?_⟩
    have hid : v.id ≠ w.id := by
      intro hid
      rw [← hlevel, h.level_eq hmem hw hid] at hv
      exact hwaits v hv hid
    rw [lookup_shown, if_neg hid, hclosed]
  nodup := h.nodup
  fullScreen := h.fullScreen
  masks := by
    intro key b hb
    rw [mask_shown] at hb
    by_cases hnew : key = w.config.level - 1 ∧ m.mMaskBgs key = none ∧ scene ≤ w.parentNode
    · rw [if_pos hnew] at hb
      cases Option.some.inj hb
      exact ⟨hw, hnew.1.symm⟩
    · rw [if_neg hnew] at hb
      exact h.masks key b hb

theorem Consistent.unmasked (h : Consistent WindowConfig windows m) (level : Int) :
    Consistent WindowConfig windows (m.unmasked level) where
  indexed := h.indexed
  configured := h.configured
  kept := by rw [kept_unmasked]; exact h.kept
  opened := by
    intro id w hopen
    rw [lookup_unmasked] at hopen
    exact h.opened id w hopen
  waiting := by
    intro l w hw
    rw [waited_unmasked] at hw
    rw [lookup_unmasked]
    exact h.waiting l w hw
  nodup := by rw [waited_unmasked]; exact h.nodup
  fullScreen := by rw [waited_unmasked]; exact h.fullScreen
  masks := by
    intro key b hb
    rw [mask_unmasked] at hb
    by_cases hgone : key = level - 1 ∧ (m.mMaskBgs key).all MaskBg.alive = true
    · rw [if_pos hgone] at hb
      exact absurd hb.symm (Option.some_ne_none b)
    · rw [if_neg hgone] at hb
      exact h.masks key b hb

theorem Consistent.popped (h : Consistent WindowConfig windows m) {level : Int}
    {next : GameWindow ι} {waited : List (GameWindow ι)}
    (hqueue : m.mWaitedWindows level = next :: waited) :
    Consistent WindowConfig windows (m.waiting level waited) := by
  have hnodup := h.nodup level
  rw [hqueue, List.map_cons] at hnodup
  refine { h with waiting := ?_, nodup := ?_, fullScreen := ?_ }
  · intro l v hv
    by_cases hl : l = level
    · subst hl
      simp only [WindowManager.waiting, Function.update_self] at hv
      exact h.waiting l v (hqueue ▸ List.mem_cons_of_mem next hv)
    · simp only [WindowManager.waiting, Function.update_of_ne hl] at hv
      exact h.waiting l v hv
  · intro l
    by_cases hl : l = level
    · subst hl
      simpa only [WindowManager.waiting, Function.update_self] using (List.nodup_cons.mp hnodup).2
    · simpa only [WindowManager.waiting, Function.update_of_ne hl] using h.nodup l
  · have hl : WindowLevel.FullScreen ≠ level := by
      rintro rfl
      rw [h.fullScreen] at hqueue
      exact absurd hqueue.symm (List.cons_ne_nil next waited)
    simpa only [WindowManager.waiting, Function.update_of_ne hl] using h.fullScreen

/-- The first of a queue enters the table of open windows in the place of `w`. -/
theorem Consistent.next (h : Consistent WindowConfig windows m) {level : Int}
    {next : GameWindow ι} {waited : List (GameWindow ι)}
    (hqueue : m.mWaitedWindows level = next :: waited) :
    next ∈ windows ∧ next.config.level = level ∧ m.mOpenedWindows.lookup next.id = none ∧
      ∀ v ∈ waited, v.id ≠ next.id := by
  have hnodup := h.nodup level
  rw [hqueue, List.map_cons] at hnodup
  have hnext := h.waiting level next (hqueue ▸ List.mem_cons_self)
  refine ⟨hnext.1, hnext.2.1, hnext.2.2, fun v hv hid => ?_⟩
  exact (List.nodup_cons.mp hnodup).1 (hid ▸ List.mem_map_of_mem hv)

theorem Consistent.closed (h : Consistent WindowConfig windows m) (scene : Nat)
    (w : GameWindow ι) : Consistent WindowConfig windows (m.closed scene w) := by
  cases hqueue : m.mWaitedWindows w.config.level with
  | nil =>
      rw [closed_of_nil m scene hqueue]
      exact (h.forgotten w).unmasked w.config.level
  | cons next waited =>
      obtain ⟨hmem, hlevel, _, hrest⟩ := h.next hqueue
      rw [closed_of_cons m scene hqueue]
      refine ((h.forgotten w).popped hqueue).shown scene hmem fun v hv => ?_
      rw [hlevel] at hv
      simp only [WindowManager.waiting, Function.update_self] at hv
      exact hrest v hv

theorem open_closed (hc : Consistent WindowConfig windows m) (scene : Nat) {v w : GameWindow ι}
    (hv : m.mOpenedWindows.lookup v.id = some v) (hid : v.id ≠ w.id) :
    (m.closed scene w).mOpenedWindows.lookup v.id = some v := by
  rw [lookup_closed]
  cases hqueue : m.mWaitedWindows w.config.level with
  | nil => simp only [List.head?_nil, if_neg hid, hv]
  | cons next waited =>
      have hnext : v.id ≠ next.id := by
        intro hnext
        have hclosed := (hc.next hqueue).2.2.1
        rw [← hnext, hv] at hclosed
        exact Option.some_ne_none v hclosed
      simp only [List.head?_cons, if_neg hnext, if_neg hid, hv]

theorem blocked_closed (hblocked : Blocked m) (h : Consistent WindowConfig windows m)
    (scene : Nat) {w : GameWindow ι} (hw : w ∈ windows) : Blocked (m.closed scene w) := by
  intro level hwaits
  rw [waited_closed] at hwaits
  by_cases hlevel : level = w.config.level
  · subst hlevel
    rw [Function.update_self] at hwaits
    cases hqueue : m.mWaitedWindows w.config.level with
    | nil => rw [hqueue] at hwaits; exact absurd rfl hwaits
    | cons next waited =>
        refine ⟨next.id, next, ?_, (h.next hqueue).2.1⟩
        rw [lookup_closed, hqueue]
        exact if_pos rfl
  · rw [Function.update_of_ne hlevel] at hwaits
    obtain ⟨id, v, hopen, hv⟩ := hblocked level hwaits
    obtain ⟨hmem, hid⟩ := h.opened id v hopen
    have hne : id ≠ w.id := by
      rintro rfl
      exact hlevel (hv.symm.trans (h.level_eq hmem hw hid))
    rw [← hid] at hopen hne
    exact ⟨v.id, v, open_closed h scene hopen hne, hv⟩

/-- The window that makes room for the one of `id`. -/
structure MakesRoom (windows : List (GameWindow ι)) (m : WindowManager ι) (id : ι)
    (r : GameWindow ι) : Prop where
  mem : r ∈ windows
  opened : m.mOpenedWindows.lookup r.id = some r
  level : r.config.level = WindowLevel.FullScreen
  queue : m.mWaitedWindows r.config.level = []
  ne : id ≠ r.id

theorem Consistent.replaced (h : Consistent WindowConfig windows m) {order : List ι}
    {r : GameWindow ι} (hreplaced : m.replaced order = some r) {id : ι}
    (hclosed : m.mOpenedWindows.lookup id = none) : MakesRoom windows m id r := by
  obtain ⟨hkey, hlevel⟩ := open_of_replaced h.keyed hreplaced
  refine ⟨(h.opened r.id r hkey).1, hkey, hlevel, ?_, ?_⟩
  · rw [hlevel]
    exact h.fullScreen
  · rintro rfl
    rw [hclosed] at hkey
    exact absurd hkey.symm (Option.some_ne_none r)

theorem Blocked.queue_eq_nil (h : Blocked m) {level : Int} (hfree : ¬ m.Occupied level) :
    m.mWaitedWindows level = [] := by
  by_contra hqueue
  exact hfree (h level hqueue)

end Manager

section Sessions
variable {ι : Type} [DecidableEq ι] {WindowConfig : ι → Option Config} {s t : World ι}

theorem wellFormed_start : WellFormed WindowConfig (World.start : World ι) where
  consistent :=
    { indexed := fun _ hw => absurd hw List.not_mem_nil
      configured := fun _ hw => absurd hw List.not_mem_nil
      kept := fun _ w h => absurd h.symm (Option.some_ne_none w)
      opened := fun _ w h => absurd h.symm (Option.some_ne_none w)
      waiting := fun _ _ hw => absurd hw List.not_mem_nil
      nodup := fun _ => List.nodup_nil
      fullScreen := rfl
      masks := fun _ b h => absurd h.symm (Option.some_ne_none b) }
  blocked := fun _ h => absurd rfl h

namespace WellFormed

theorem of_sameButNodes {dies : Nat → Prop} (h : WellFormed WindowConfig s)
    (hsame : SameButNodes dies s t) : WellFormed WindowConfig t := by
  constructor
  · rw [hsame.windows, hsame.manager]
    exact h.consistent
  · rw [hsame.manager]
    exact h.blocked

theorem closed (h : WellFormed WindowConfig s) {w : GameWindow ι} (hw : w ∈ s.windows) :
    WellFormed WindowConfig (s.setManager (s.manager.closed s.scene w)) :=
  ⟨h.consistent.closed s.scene w, blocked_closed h.blocked h.consistent s.scene hw⟩

theorem shown (h : WellFormed WindowConfig s) {w : GameWindow ι} (hw : w ∈ s.windows)
    (hclosed : s.manager.mOpenedWindows.lookup w.id = none)
    (hqueue : s.manager.mWaitedWindows w.config.level = []) :
    WellFormed WindowConfig (s.setManager (s.manager.shown s.scene w)) := by
  refine ⟨h.consistent.shown s.scene hw fun v hv => ?_, fun level hwaits => ?_⟩
  · rw [hqueue] at hv
    exact absurd hv List.not_mem_nil
  · obtain ⟨id, v, hopen, hlevel⟩ := h.blocked level hwaits
    refine ⟨id, v, ?_, hlevel⟩
    change (s.manager.shown s.scene w).mOpenedWindows.lookup id = some v
    rw [lookup_shown, if_neg, hopen]
    rintro rfl
    rw [hclosed] at hopen
    exact absurd hopen.symm (Option.some_ne_none v)

theorem enterScene (h : WellFormed WindowConfig s) : WellFormed WindowConfig s.enterScene := by
  refine ⟨{ h.consistent with masks := fun key b hb => ?_ }, h.blocked⟩
  obtain ⟨b', hb', rfl⟩ := Option.map_eq_some_iff.mp hb
  exact h.consistent.masks key b' hb'

theorem closing_mem (h : WellFormed WindowConfig s) {e : WindowEvent ι}
    (hstep : stepWindow WindowConfig s e = some t) {w : GameWindow ι}
    (hclosing : s.closing e = some w) : w ∈ s.windows := by
  cases e with
  | showWindow parentNode id style order => exact absurd hclosing.symm (Option.some_ne_none w)
  | hide wnd =>
      simp only [World.closing, Option.ite_none_right_eq_some, Option.some.injEq] at hclosing
      simp only [stepWindow, Option.ite_none_right_eq_some] at hstep
      exact hclosing.2 ▸ hstep.1
  | tapMask key =>
      simp only [World.closing] at hclosing
      cases hmask : s.manager.mMaskBgs key with
      | none => simp [hmask] at hclosing
      | some b =>
          simp only [hmask, Option.ite_none_right_eq_some, Option.some.injEq] at hclosing
          exact hclosing.2 ▸ (h.consistent.masks key b hmask).1
  | onKeyBack order =>
      simp only [World.closing] at hclosing
      cases hopen : (s.manager.findUppermostWnd order).bind fun id =>
          s.manager.mOpenedWindows.lookup id with
      | none => simp [hopen] at hclosing
      | some wnd =>
          obtain ⟨id, _, hlookup⟩ := Option.bind_eq_some_iff.mp hopen
          simp only [hopen, Option.ite_none_right_eq_some, Option.some.injEq] at hclosing
          exact hclosing.2 ▸ (h.consistent.opened id wnd hlookup).1
  | animEnd wnd =>
      simp only [World.closing, Option.ite_none_right_eq_some, Option.some.injEq] at hclosing
      simp only [stepWindow, Option.ite_none_right_eq_some] at hstep
      exact hclosing.2 ▸ hstep.1.1

theorem afterClosing (h : WellFormed WindowConfig s) {e : WindowEvent ι}
    (hstep : stepWindow WindowConfig s e = some t) :
    WellFormed WindowConfig (s.afterClosing (s.closing e)) := by
  cases hclosing : s.closing e with
  | none => exact h
  | some w => exact h.closed (h.closing_mem hstep hclosing)

theorem hidden (h : WellFormed WindowConfig s) {w : GameWindow ι} (hw : w ∈ s.windows) :
    WellFormed WindowConfig (w.hide s).world := by
  have hsame := hide_sameButNodes s w
  by_cases hclose : s.closesAtOnce w = true
  · rw [if_pos hclose] at hsame
    exact (h.closed hw).of_sameButNodes hsame
  · rw [if_neg hclose] at hsame
    exact h.of_sameButNodes hsame

theorem created (h : WellFormed WindowConfig s) (parentNode : Nat) {id : ι} {config : Config}
    (hconfig : WindowConfig id = some config) (style : Option WindowStyle) :
    WellFormed WindowConfig (s.created parentNode id config style) := by
  have hc := h.consistent
  refine ⟨⟨?_, ?_, ?_, ?_, ?_, hc.nodup, hc.fullScreen, ?_⟩, h.blocked⟩
  · intro w hw
    rcases List.mem_append.mp hw with hold | hnew
    · have hindex := hc.indexed w hold
      exact (List.getElem?_append_left (List.getElem?_eq_some_iff.mp hindex).1).trans hindex
    · rw [List.mem_singleton.mp hnew]
      exact List.getElem?_concat_length
  · intro w hw
    rcases List.mem_append.mp hw with hold | hnew
    · exact hc.configured w hold
    · rw [List.mem_singleton.mp hnew]
      exact hconfig
  · intro key w hkept
    by_cases hkey : key = id
    · subst hkey
      simp only [World.created, Function.update_self] at hkept
      cases Option.some.inj hkept
      exact ⟨List.mem_append_right _ List.mem_cons_self, rfl⟩
    · simp only [World.created, Function.update_of_ne hkey] at hkept
      exact ⟨List.mem_append_left _ (hc.kept key w hkept).1, (hc.kept key w hkept).2⟩
  · intro key w hopen
    exact ⟨List.mem_append_left _ (hc.opened key w hopen).1, (hc.opened key w hopen).2⟩
  · intro level w hw
    exact ⟨List.mem_append_left _ (hc.waiting level w hw).1, (hc.waiting level w hw).2⟩
  · intro key b hb
    exact ⟨List.mem_append_left _ (hc.masks key b hb).1, (hc.masks key b hb).2⟩

theorem ready_node (h : WellFormed WindowConfig s) {w : GameWindow ι} (hw : w ∈ s.windows)
    (parentNode : Nat) (id : ι) (config : Config) (style : Option WindowStyle) :
    (s.ready parentNode id config style).node w.ref = s.node w.ref := by
  unfold World.ready
  cases s.manager.mWindows id with
  | some v => rfl
  | none =>
      have href : w.ref ≠ s.windows.length :=
        Nat.ne_of_lt (List.getElem?_eq_some_iff.mp (h.consistent.indexed w hw)).1
      exact Function.update_of_ne href _ s.node

/-- It shares neither node nor style with the windows of other ids. -/
theorem ready_seen (h : WellFormed WindowConfig s) {w : GameWindow ι} (hw : w ∈ s.windows)
    (parentNode : Nat) {id : ι} (hid : w.id ≠ id) (config : Config) (style : Option WindowStyle) :
    (s.ready parentNode id config style).node w.ref = s.node w.ref ∧
      (s.ready parentNode id config style).styleOf w = s.styleOf w := by
  refine ⟨h.ready_node hw parentNode id config style, ?_⟩
  unfold World.ready
  cases s.manager.mWindows id with
  | some v => rfl
  | none =>
      change (Function.update s.style id style w.id).getD .normal = (s.style w.id).getD .normal
      rw [Function.update_of_ne hid]

theorem ready (h : WellFormed WindowConfig s) (parentNode : Nat) {id : ι} {config : Config}
    (hconfig : WindowConfig id = some config) (style : Option WindowStyle) :
    WellFormed WindowConfig (s.ready parentNode id config style) := by
  unfold World.ready
  cases s.manager.mWindows id with
  | some w => exact h
  | none => exact h.created parentNode hconfig style

theorem target (h : WellFormed WindowConfig s) (parentNode : Nat) {id : ι} {config : Config}
    (hconfig : WindowConfig id = some config) (style : Option WindowStyle) :
    s.target parentNode id config ∈ (s.ready parentNode id config style).windows ∧
      (s.target parentNode id config).id = id ∧
      (s.target parentNode id config).config = config := by
  have hready := h.ready parentNode hconfig style
  obtain ⟨hmem, hid⟩ := hready.consistent.kept id _ (ready_keeps s parentNode id config style)
  refine ⟨hmem, hid, ?_⟩
  have hsame := hready.consistent.configured _ hmem
  rw [hid, hconfig] at hsame
  exact (Option.some.inj hsame).symm

theorem enqueue (h : WellFormed WindowConfig s) {id : ι} {w : GameWindow ι}
    (hkept : s.manager.mWindows id = some w)
    (hclosed : s.manager.mOpenedWindows.lookup id = none)
    (hoccupied : s.manager.Occupied w.config.level)
    (hlevel : w.config.level ≠ WindowLevel.FullScreen)
    (hnew : s.manager.existWaitedWindows w.config.level id = false) :
    WellFormed WindowConfig (s.enqueue w.config.level id) := by
  have hc := h.consistent
  obtain ⟨hmem, rfl⟩ := hc.kept id w hkept
  refine ⟨{ hc with waiting := ?_, nodup := ?_, fullScreen := ?_ }, ?_⟩
  · intro level v hv
    by_cases hl : level = w.config.level
    · subst hl
      simp only [World.enqueue, World.setManager, Function.update_self, hkept,
        Option.toList_some] at hv
      rcases List.mem_append.mp hv with hold | hlast
      · exact hc.waiting _ v hold
      · rw [List.mem_singleton.mp hlast]
        exact ⟨hmem, rfl, hclosed⟩
    · simp only [World.enqueue, World.setManager, Function.update_of_ne hl] at hv
      exact hc.waiting level v hv
  · intro level
    by_cases hl : level = w.config.level
    · subst hl
      simp only [World.enqueue, World.setManager, Function.update_self, hkept,
        Option.toList_some, List.map_append, List.map_cons, List.map_nil]
      refine List.nodup_append'.mpr ⟨hc.nodup _, List.nodup_singleton _, ?_⟩
      rw [List.disjoint_singleton]
      intro hin
      obtain ⟨v, hv, hid⟩ := List.mem_map.mp hin
      rw [WindowManager.existWaitedWindows, List.any_eq_false] at hnew
      exact hnew v hv (decide_eq_true hid)
    · simp only [World.enqueue, World.setManager, Function.update_of_ne hl]
      exact hc.nodup level
  · simp only [World.enqueue, World.setManager, Function.update_of_ne hlevel.symm]
    exact hc.fullScreen
  · intro level hwaits
    by_cases hl : level = w.config.level
    · exact hl ▸ hoccupied
    · simp only [World.enqueue, World.setManager, Function.update_of_ne hl] at hwaits
      exact h.blocked level hwaits

/-- The window that is shown has no window of its level waiting. -/
theorem shownKept (h : WellFormed WindowConfig s) {id : ι} {w : GameWindow ι}
    (hkept : s.manager.mWindows id = some w)
    (hclosed : s.manager.mOpenedWindows.lookup id = none)
    (hqueue : s.manager.mWaitedWindows w.config.level = []) :
    WellFormed WindowConfig (s.doShowKept id).world := by
  obtain ⟨hmem, rfl⟩ := h.consistent.kept id w hkept
  exact (h.shown hmem hclosed hqueue).of_sameButNodes (doShowKept_sameButNodes hkept)

end WellFormed

/-! ## The ways through a step -/

/-- `showWindow` has made sure of the window `w` of `id`, which is not open. -/
structure Prepared (WindowConfig : ι → Option Config) (s : World ι) (id : ι) (w : GameWindow ι)
    (order : List ι) : Prop where
  wellFormed : WellFormed WindowConfig s
  kept : s.manager.mWindows id = some w
  closed : s.manager.mOpenedWindows.lookup id = none
  order : order.Perm s.manager.mOpenedWindows.keys

theorem Prepared.showOrWait_rule {id : ι} {w : GameWindow ι} {order : List ι}
    (h : Prepared WindowConfig s id w order) {P : World ι → Prop}
    (free : ¬ s.manager.Occupied w.config.level → P (s.doShowKept id).world)
    (waits : s.manager.existWaitedWindows w.config.level id = true → P s)
    (joins : s.manager.Occupied w.config.level → w.config.level ≠ WindowLevel.FullScreen →
      s.manager.existWaitedWindows w.config.level id = false → P (s.enqueue w.config.level id))
    (replaces : w.config.level = WindowLevel.FullScreen → ∀ r, s.manager.replaced order = some r →
      MakesRoom s.windows s.manager id r →
        P ((r.hide s).andThen fun t => t.doShowKept id).world) :
    P (s.showOrWait order w.config.level id).world := by
  by_cases hoccupied : s.manager.Occupied w.config.level
  · by_cases hlevel : w.config.level = WindowLevel.FullScreen
    · have hreplaces := replaces hlevel
      rw [hlevel] at hoccupied ⊢
      obtain ⟨r, hreplaced, hworld⟩ :=
        showOrWait_replaces h.order id h.wellFormed.consistent.keyed hoccupied
      rw [hworld]
      exact hreplaces r hreplaced (h.wellFormed.consistent.replaced hreplaced h.closed)
    · rw [showOrWait_waits h.order id hoccupied hlevel]
      cases hnew : s.manager.existWaitedWindows w.config.level id with
      | true => exact waits hnew
      | false => exact joins hoccupied hlevel hnew
  · rw [showOrWait_free h.order id hoccupied]
    exact free hoccupied

theorem WellFormed.showWindow_rule (h : WellFormed WindowConfig s) {parentNode : Nat} {id : ι}
    {style : Option WindowStyle} {order : List ι}
    (horder : order.Perm s.manager.mOpenedWindows.keys) {P : World ι → Prop}
    (idle : (∀ config, ¬ Reaches WindowConfig s parentNode id config) →
      ∀ style', P { s with style := style' })
    (shows : ∀ config, Reaches WindowConfig s parentNode id config →
      (s.target parentNode id config).config = config →
      Prepared WindowConfig (s.ready parentNode id config style) id
        (s.target parentNode id config) order →
      P ((s.ready parentNode id config style).showOrWait order
        (s.target parentNode id config).config.level id).world) :
    P (s.showWindow WindowConfig parentNode id style order).world := by
  by_cases hreach : ∃ config, Reaches WindowConfig s parentNode id config
  · obtain ⟨config, hreach⟩ := hreach
    rw [showWindow_ready WindowConfig s parentNode style order hreach]
    have htarget := (h.target parentNode hreach.2.1 style).2.2
    have hworld := shows config hreach htarget
      { wellFormed := h.ready parentNode hreach.2.1 style
        kept := ready_keeps s parentNode id config style
        closed := by rw [ready_opened]; exact hreach.1
        order := by rw [ready_opened]; exact horder }
    rwa [htarget] at hworld
  · have hidle := fun config hconfig => hreach ⟨config, hconfig⟩
    obtain ⟨style', hworld⟩ := showWindow_idle WindowConfig s parentNode style order hidle
    rw [hworld]
    exact idle hidle style'

namespace WellFormed

theorem showOrWait {id : ι} {w : GameWindow ι} {order : List ι}
    (h : Prepared WindowConfig s id w order) :
    WellFormed WindowConfig (s.showOrWait order w.config.level id).world := by
  have hwf := h.wellFormed
  apply h.showOrWait_rule
  · intro hfree
    exact hwf.shownKept h.kept h.closed (hwf.blocked.queue_eq_nil hfree)
  · intro _
    exact hwf
  · intro hoccupied hlevel hnew
    exact hwf.enqueue h.kept h.closed hoccupied hlevel hnew
  · intro hlevel r _ hr
    have hhidden := hwf.hidden hr.mem
    by_cases hresult : (r.hide s).result = none
    · rw [andThen_of_none _ hresult]
      exact hhidden
    · obtain ⟨hlookup, hsaved⟩ := hide_tables s r hr.queue id
      rw [andThen_of_some _ hresult]
      refine hhidden.shownKept ((hsaved hr.ne).trans h.kept) ?_ ?_
      · rw [hlookup, h.closed, ite_self]
      · rw [hlevel]
        exact hhidden.consistent.fullScreen

theorem stepWindow (h : WellFormed WindowConfig s) {e : WindowEvent ι}
    (hstep : stepWindow WindowConfig s e = some t) : WellFormed WindowConfig t := by
  rcases stepWindow_cases WindowConfig hstep with
    ⟨parentNode, id, style, order, rfl, horder, rfl⟩ | ⟨_, hsame⟩
  · apply h.showWindow_rule horder
    · intro _ style'
      exact ⟨h.consistent, h.blocked⟩
    · intro config _ _ hprepared
      exact showOrWait hprepared
  · exact (h.afterClosing hstep).of_sameButNodes hsame

theorem step (h : WellFormed WindowConfig s) {e : Event ι}
    (hstep : step WindowConfig s e = some t) : WellFormed WindowConfig t := by
  cases e with
  | window e => exact h.stepWindow hstep
  | enterScene =>
      cases Option.some.inj hstep
      exact h.enterScene

end WellFormed

end Sessions

end Doudizhu.Window
