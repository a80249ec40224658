import Doudizhu.Window.Shown

/-! # What becomes of a request

`showWindow` looks at the tables alone.  A window whose closing animation runs is still in
`mOpenedWindows`, so a request for it only updates the view, and the animation takes it away all
the same; a kept window whose flag is set is put into the table but its `show` refuses.  Other
requests are served at once or wait, and those that wait are opened in turn; one whose window has
left `mWindows` meanwhile, or is being closed, is opened without being shown. -/

set_option autoImplicit false

namespace Doudizhu.Window

open Runs Outcome

section Requests
variable {ι : Type} [DecidableEq ι]

/-- The window of the id is open and to be seen, and its closing animation does not run. -/
def World.Displays (s : World ι) (id : ι) : Prop :=
  ∃ w, s.manager.mOpenedWindows.lookup id = some w ∧ s.Shown w

/-- The id waits exactly once: where it already waited, or else behind everybody else. -/
def Queued (before after : WindowManager ι) (level : Int) (id : ι) : Prop :=
  ((after.mWaitedWindows level).map GameWindow.id).count id = 1 ∧
    if before.existWaitedWindows level id then
      after.mWaitedWindows level = before.mWaitedWindows level
    else ∃ w, w.id = id ∧ after.mWaitedWindows level = before.mWaitedWindows level ++ [w]

def OpenAt (m : WindowManager ι) (level : Int) (w : GameWindow ι) : Prop :=
  m.mOpenedWindows.lookup w.id = some w ∧ w.config.level = level

/-- The windows of the level that are open and were not before. -/
def entered (before after : WindowManager ι) (level : Int) : List (GameWindow ι) :=
  (after.mOpenedWindows.entries.map fun entry => entry.2).filter fun w =>
    w.config.level = level ∧ before.mOpenedWindows.lookup w.id ≠ some w

variable (WindowConfig : ι → Option Config)

/-- The window asked for at the level, unless it is open or waits already. -/
def requested (level : Int) (s : World ι) : Event ι → World ι → List (GameWindow ι)
  | .window (.showWindow _ id _ _), t =>
      if (WindowConfig id).any (fun config => config.level = level) = true ∧
          s.manager.mOpenedWindows.lookup id = none ∧
          s.manager.existWaitedWindows level id = false then
        (t.manager.mWindows id).toList
      else []
  | _, _ => []

/-- A request that returns, for an id below the full-screen level, has been taken up. -/
def RequestKept (s : World ι) : Event ι → Prop
  | .window (.showWindow parentNode id style order) =>
      ∀ config, WindowConfig id = some config → config.level ≠ WindowLevel.FullScreen →
        (s.showWindow WindowConfig parentNode id style order).result ≠ none →
          (s.showWindow WindowConfig parentNode id style order).world.Displays id ∨
            Queued s.manager (s.showWindow WindowConfig parentNode id style order).world.manager
              config.level id
  | _ => True

/-- When the open window of a level closes, exactly the head of the queue is opened. -/
def OpensHead (s : World ι) (e : Event ι) : Prop :=
  ∀ t level w, step WindowConfig s e = some t → level ≠ WindowLevel.FullScreen →
    OpenAt s.manager level w → ¬ OpenAt t.manager level w →
      t.manager.mWaitedWindows level = (s.manager.mWaitedWindows level).tail ∧
        ∀ v, OpenAt t.manager level v ↔
          (s.manager.mWaitedWindows level).head? = some v ∨ OpenAt s.manager level v ∧ v ≠ w

/-- A window that a step takes out of its queue is shown, its own closing apart. -/
def ShowsNext (s : World ι) (e : Event ι) : Prop :=
  ∀ t level w, step WindowConfig s e = some t → w ∈ s.manager.mWaitedWindows level →
    w ∉ t.manager.mWaitedWindows level →
      (∀ event, e = .window event → s.closing event ≠ some w) → t.Shown w

/-- No request is lost, a close opens the head of the queue and shows it, and the windows asked
for at a level are those opened there and those that still wait, in the same order. -/
structure RequestsServed (es : List (Event ι)) : Prop where
  kept : Along (step WindowConfig) (RequestKept WindowConfig) World.start es
  closes : Along (step WindowConfig) (OpensHead WindowConfig) World.start es
  shows : Along (step WindowConfig) (ShowsNext WindowConfig) World.start es
  inOrder : ∀ level, level ≠ WindowLevel.FullScreen → ∀ t : World ι,
    run (step WindowConfig) World.start es = some t →
      history (step WindowConfig) (requested WindowConfig level) World.start es =
        history (step WindowConfig) (fun s _ t => entered s.manager t.manager level)
          World.start es ++ t.manager.mWaitedWindows level

/-- An open window that is asked for is to be seen, and a kept one is or has the flag clear; when
a window closes, the next of its queue is to be seen, or else `doShowWindow` can show it. -/
def MeetsShowable (s : World ι) : Event ι → Prop
  | .window (.showWindow _ id _ _) =>
      ∀ config, WindowConfig id = some config → config.level ≠ WindowLevel.FullScreen → ∀ w,
        s.manager.mOpenedWindows.lookup id = some w ∨
          s.manager.mOpenedWindows.lookup id = none ∧ ¬ s.manager.Occupied config.level ∧
            s.manager.mWindows id = some w ∧ s.MaskReady w ∧ (s.node w.ref).animFlag = true →
        s.Shown w
  | .window e =>
      ∀ v next, s.closing e = some v →
        (s.manager.mWaitedWindows v.config.level).head? = some next → next ≠ v →
          s.Shown next ∨ (s.setManager (s.manager.forgotten v)).CanShow next
  | .enterScene => True

end Requests

/-! ## Animations run on live nodes -/

section Guarded
variable {ι : Type} {s t : World ι}

namespace World.Guarded

theorem start : (World.start : World ι).Guarded := fun _ => NodeState.guarded_of_none rfl

theorem enterScene (h : s.Guarded) : s.enterScene.Guarded := by
  intro ref
  simp only [World.enterScene]
  split
  · exact NodeState.guarded_of_none rfl
  · exact h ref

variable [DecidableEq ι] {WindowConfig : ι → Option Config}

theorem shownKept (h : s.Guarded) (id : ι) : (s.doShowKept id).world.Guarded :=
  ((doShowKept_showsAtMost s id).animates h).guarded

theorem showOrWait (h : s.Guarded) {id : ι} {w : GameWindow ι} {order : List ι}
    (hprepared : Prepared WindowConfig s id w order) :
    (s.showOrWait order w.config.level id).world.Guarded := by
  apply hprepared.showOrWait_rule
  · exact fun _ => h.shownKept id
  · exact fun _ => h
  · exact fun _ _ _ => h
  · intro _ r _ _
    have hhidden := (hide_animates h r).guarded
    by_cases hresult : (r.hide s).result = none
    · rw [andThen_of_none _ hresult]
      exact hhidden
    · rw [andThen_of_some _ hresult]
      exact World.Guarded.shownKept hhidden id

theorem step (h : s.Guarded) (hwf : WellFormed WindowConfig s) {e : Event ι}
    (hstep : step WindowConfig s e = some t) : t.Guarded := by
  cases e with
  | enterScene =>
      cases Option.some.inj hstep
      exact h.enterScene
  | window e =>
      rcases stepWindow_cases WindowConfig hstep with
        ⟨parentNode, id, style, order, rfl, horder, rfl⟩ | ⟨hother, _⟩
      · apply hwf.showWindow_rule horder
        · exact fun _ _ => h
        · intro config _ _ hprepared
          exact World.Guarded.showOrWait (ready_guarded h parentNode id config style) hprepared
      · cases calls_of_stepWindow hother hstep with
        | nothing _ => exact h
        | hide _ => exact (hide_animates h _).guarded
        | animEnd _ hanim => exact (animEnd_animates h hanim).guarded

end World.Guarded

end Guarded

/-! ## One request -/

section Requests
variable {ι : Type} [DecidableEq ι] {WindowConfig : ι → Option Config} {s t : World ι}

theorem displays_of_open {id : ι} {w : GameWindow ι}
    (hopen : s.manager.mOpenedWindows.lookup id = some w) : s.Displays id ↔ s.Shown w := by
  constructor
  · rintro ⟨v, hv, hshown⟩
    cases Option.some.inj (hopen.symm.trans hv)
    exact hshown
  · exact fun hshown => ⟨w, hopen, hshown⟩

theorem not_queued_of_open {before : WindowManager ι} (h : WellFormed WindowConfig s) {level : Int}
    {id : ι} {w : GameWindow ι} (hopen : s.manager.mOpenedWindows.lookup id = some w) :
    ¬ Queued before s.manager level id := by
  rintro ⟨hcount, _⟩
  have hmem : id ∈ (s.manager.mWaitedWindows level).map GameWindow.id :=
    List.count_pos_iff.mp (by omega)
  obtain ⟨v, hv, rfl⟩ := List.mem_map.mp hmem
  have hclosed := (h.consistent.waiting level v hv).2.2
  exact Option.some_ne_none w (hopen.symm.trans hclosed)

theorem existWaitedWindows_iff {m : WindowManager ι} {level : Int} {id : ι} :
    m.existWaitedWindows level id = true ↔ id ∈ (m.mWaitedWindows level).map GameWindow.id := by
  rw [WindowManager.existWaitedWindows, List.any_eq_true, List.mem_map]
  simp only [decide_eq_true_eq]
  rfl

theorem queued_of_waiting (h : WellFormed WindowConfig s) {level : Int} {id : ι}
    (hwaits : s.manager.existWaitedWindows level id = true) :
    Queued s.manager s.manager level id := by
  refine ⟨List.count_eq_one_of_mem (h.consistent.nodup level)
    (existWaitedWindows_iff.mp hwaits), ?_⟩
  rw [if_pos hwaits]

omit [DecidableEq ι] in
theorem waited_enqueue {level : Int} {id : ι} {w : GameWindow ι}
    (hkept : s.manager.mWindows id = some w) :
    (s.enqueue level id).manager.mWaitedWindows level =
      s.manager.mWaitedWindows level ++ [w] := by
  simp [World.enqueue, World.setManager, hkept]

omit [DecidableEq ι] in
theorem waited_enqueue_ne (id : ι) {level other : Int} (hne : level ≠ other) :
    (s.enqueue other id).manager.mWaitedWindows level = s.manager.mWaitedWindows level := by
  simp [World.enqueue, World.setManager, hne]

theorem queued_of_joining (h : WellFormed WindowConfig s) {id : ι} {w : GameWindow ι}
    (hkept : s.manager.mWindows id = some w)
    (hclosed : s.manager.mOpenedWindows.lookup id = none)
    (hoccupied : s.manager.Occupied w.config.level)
    (hlevel : w.config.level ≠ WindowLevel.FullScreen)
    (hnew : s.manager.existWaitedWindows w.config.level id = false) :
    Queued s.manager (s.enqueue w.config.level id).manager w.config.level id := by
  have hid := (h.consistent.kept id w hkept).2
  have hnodup := (h.enqueue hkept hclosed hoccupied hlevel hnew).consistent.nodup w.config.level
  constructor
  · refine List.count_eq_one_of_mem hnodup (List.mem_map.mpr ⟨w, ?_, hid⟩)
    rw [waited_enqueue hkept]
    exact List.mem_append_right _ (List.mem_singleton_self w)
  · rw [hnew, if_neg Bool.false_ne_true]
    exact ⟨w, hid, waited_enqueue hkept⟩

/-- A window kept for an id is told from the others by its node. -/
theorem WellFormed.kept_eq (h : WellFormed WindowConfig s) {w : GameWindow ι}
    (hw : w ∈ s.windows) (v : GameWindow ι) (hv : s.manager.mWindows w.id = some v)
    (href : w.ref = v.ref) : v = w :=
  h.consistent.eq_of_ref (h.consistent.kept w.id v hv).1 hw href.symm

/-- With the window made sure of, the request is lost where the level is free and `show` refuses
a window that is not to be seen. -/
theorem Prepared.taken_up_iff {id : ι} {w : GameWindow ι} {order : List ι}
    (h : Prepared WindowConfig s id w order) (hs : s.Guarded)
    (hlevel : w.config.level ≠ WindowLevel.FullScreen) :
    ((s.showOrWait order w.config.level id).result ≠ none →
        (s.showOrWait order w.config.level id).world.Displays id ∨
          Queued s.manager (s.showOrWait order w.config.level id).world.manager
            w.config.level id) ↔
      (¬ s.manager.Occupied w.config.level → s.MaskReady w → (s.node w.ref).animFlag = true →
        s.Shown w) := by
  have hwf := h.wellFormed
  by_cases hoccupied : s.manager.Occupied w.config.level
  · refine iff_of_true (fun _ => .inr ?_) fun hfree => absurd hoccupied hfree
    rw [showOrWait_waits h.order id hoccupied hlevel]
    cases hnew : s.manager.existWaitedWindows w.config.level id with
    | true => exact queued_of_waiting hwf hnew
    | false => exact queued_of_joining hwf h.kept h.closed hoccupied hlevel hnew
  · have hopened := hwf.shownKept h.kept h.closed (hwf.blocked.queue_eq_nil hoccupied)
    obtain ⟨hw, rfl⟩ := hwf.consistent.kept id w h.kept
    have hopen : (s.doShowKept w.id).world.manager.mOpenedWindows.lookup w.id = some w := by
      rw [(doShowKept_sameButNodes h.kept).manager]
      change (s.manager.shown s.scene w).mOpenedWindows.lookup w.id = some w
      rw [lookup_shown, if_pos rfl]
    rw [showOrWait_free h.order w.id hoccupied, displays_of_open hopen,
      or_iff_left (not_queued_of_open hopened hopen)]
    have hshow : s.doShowKept w.id = s.doShowWindow w := by rw [World.doShowKept, h.kept]
    rw [hshow, doShowWindow_result_iff h.kept, doShowWindow_shown (hs w.ref) (hwf.kept_eq hw)]
    constructor
    · intro hkeeps _ hmask hflag
      refine (hkeeps ⟨hmask, .inl hflag⟩).resolve_right fun hcan => ?_
      exact Bool.false_ne_true (hcan.idle.symm.trans hflag)
    · rintro hshown ⟨hmask, hreturns⟩
      cases hflag : (s.node w.ref).animFlag with
      | true => exact .inl (hshown hoccupied hmask hflag)
      | false =>
          rw [hflag] at hreturns
          exact .inr ⟨h.kept, hmask, hflag, hreturns.resolve_left Bool.false_ne_true⟩

theorem ready_occupied (s : World ι) (parentNode : Nat) (id : ι) (config : Config)
    (style : Option WindowStyle) (level : Int) :
    (s.ready parentNode id config style).manager.Occupied level ↔ s.manager.Occupied level := by
  unfold WindowManager.Occupied
  rw [ready_opened]

theorem queued_ready {parentNode : Nat} {id : ι} {config : Config} {style : Option WindowStyle}
    {after : WindowManager ι} {level : Int} :
    Queued (s.ready parentNode id config style).manager after level id ↔
      Queued s.manager after level id := by
  unfold Queued WindowManager.existWaitedWindows
  rw [ready_waited]

theorem refusing_target (parentNode : Nat) (id : ι) (config : Config)
    (style : Option WindowStyle) :
    ((s.ready parentNode id config style).MaskReady (s.target parentNode id config) →
      ((s.ready parentNode id config style).node
          (s.target parentNode id config).ref).animFlag = true →
        (s.ready parentNode id config style).Shown (s.target parentNode id config)) ↔
      ∀ w, s.manager.mWindows id = some w → s.MaskReady w → (s.node w.ref).animFlag = true →
        s.Shown w := by
  unfold World.ready World.target
  cases hkept : s.manager.mWindows id with
  | some w =>
      constructor
      · rintro hshown v hv
        cases Option.some.inj hv
        exact hshown
      · exact fun hshown => hshown w rfl
  | none =>
      refine iff_of_true (fun _ hflag => ?_) fun v hv => absurd hv.symm (Option.some_ne_none v)
      change (Function.update s.node s.windows.length .ctor s.windows.length).animFlag = true
        at hflag
      rw [Function.update_self] at hflag
      exact absurd hflag Bool.false_ne_true

theorem requestKept_iff (h : WellFormed WindowConfig s) (hs : s.Guarded) (parentNode : Nat)
    (id : ι) (style : Option WindowStyle) {order : List ι}
    (horder : order.Perm s.manager.mOpenedWindows.keys) :
    RequestKept WindowConfig s (.window (.showWindow parentNode id style order)) ↔
      MeetsShowable WindowConfig s (.window (.showWindow parentNode id style order)) := by
  refine forall_congr' fun config => forall_congr' fun hconfig => forall_congr' fun hlevel => ?_
  rcases Option.eq_none_or_eq_some (s.manager.mOpenedWindows.lookup id) with hclosed | ⟨w, hopen⟩
  · by_cases hready : s.manager.mWindows id ≠ none ∨ s.scene ≤ parentNode
    · have htarget := (h.target parentNode hconfig style).2.2
      have hreach : Reaches WindowConfig s parentNode id config := ⟨hclosed, hconfig, hready⟩
      have hprepared : Prepared WindowConfig (s.ready parentNode id config style) id
          (s.target parentNode id config) order :=
        { wellFormed := h.ready parentNode hconfig style
          kept := ready_keeps s parentNode id config style
          closed := by rw [ready_opened]; exact hclosed
          order := by rw [ready_opened]; exact horder }
      have hkept := hprepared.taken_up_iff (ready_guarded hs parentNode id config style)
        (by rw [htarget]; exact hlevel)
      rw [htarget, queued_ready, ready_occupied, refusing_target] at hkept
      rw [showWindow_ready WindowConfig s parentNode style order hreach, hkept]
      constructor
      · rintro hfree w (hw | ⟨_, hunoccupied, hw, hmask, hflag⟩)
        · exact absurd (hw.symm.trans hclosed) (Option.some_ne_none w)
        · exact hfree hunoccupied w hw hmask hflag
      · intro hmeets hunoccupied w hw hmask hflag
        exact hmeets w (.inr ⟨hclosed, hunoccupied, hw, hmask, hflag⟩)
    · rw [not_or, not_not] at hready
      rw [showWindow_orphan WindowConfig s parentNode style order hclosed hconfig hready.1 hready.2]
      refine iff_of_true (fun hreturns => absurd rfl hreturns) ?_
      rintro w (hw | ⟨_, _, hw, _⟩)
      · exact absurd (hw.symm.trans hclosed) (Option.some_ne_none w)
      · exact absurd (hw.symm.trans hready.1) (Option.some_ne_none w)
  · rw [showWindow_opened WindowConfig s parentNode style order hopen]
    change (some () ≠ none → s.Displays id ∨ Queued s.manager s.manager config.level id) ↔ _
    rw [displays_of_open hopen, or_iff_left (not_queued_of_open h hopen)]
    constructor
    · rintro hkeeps v (hv | ⟨hclosed, _⟩)
      · cases Option.some.inj (hopen.symm.trans hv)
        exact hkeeps (Option.some_ne_none _)
      · exact absurd (hopen.symm.trans hclosed) (Option.some_ne_none w)
    · exact fun hmeets _ => hmeets w (.inl hopen)

end Requests

/-! ## The order of the queue -/

section Order
variable {ι : Type} [DecidableEq ι] {WindowConfig : ι → Option Config} {s t : World ι}
variable {before after : WindowManager ι}

theorem entered_eq_nil (level : Int)
    (hold : ∀ id w, after.mOpenedWindows.lookup id = some w → w.config.level = level →
      before.mOpenedWindows.lookup w.id = some w) : entered before after level = [] := by
  refine List.filter_eq_nil_iff.mpr fun w hw hnew => ?_
  obtain ⟨entry, hentry, rfl⟩ := List.mem_map.mp hw
  obtain ⟨hlevel, hbefore⟩ := of_decide_eq_true hnew
  exact hbefore (hold entry.1 entry.2 (AList.mem_lookup_iff.mpr hentry) hlevel)

/-- A window is shown when the table has only lost entries before. -/
theorem entered_shown {m : WindowManager ι} (scene : Nat) {w : GameWindow ι} {level : Int}
    (hclosed : before.mOpenedWindows.lookup w.id = none)
    (hold : ∀ id v, m.mOpenedWindows.lookup id = some v → v.config.level = level →
      before.mOpenedWindows.lookup v.id = some v) :
    entered before (m.shown scene w) level = if w.config.level = level then [w] else [] := by
  have hnew : before.mOpenedWindows.lookup w.id ≠ some w := by
    rw [hclosed]
    exact (Option.some_ne_none w).symm
  have hrest : (((m.mOpenedWindows.erase w.id).entries.map fun entry => entry.2).filter fun v =>
      v.config.level = level ∧ before.mOpenedWindows.lookup v.id ≠ some v) = [] := by
    refine entered_eq_nil level
      fun id v (hv : (m.forgotten w).mOpenedWindows.lookup id = some v) hlevel => ?_
    rw [lookup_forgotten] at hv
    split at hv
    · exact absurd hv.symm (Option.some_ne_none v)
    · exact hold id v hv hlevel
  change (((m.mOpenedWindows.insert w.id w).entries.map fun entry => entry.2).filter _) = _
  rw [AList.entries_insert, List.map_cons]
  by_cases hlevel : w.config.level = level
  · rw [if_pos hlevel, List.filter_cons_of_pos]
    · exact congrArg (w :: ·) hrest
    · exact decide_eq_true ⟨hlevel, hnew⟩
  · rw [if_neg hlevel, List.filter_cons_of_neg]
    · exact hrest
    · exact fun hdec => hlevel (of_decide_eq_true hdec).1

theorem entered_closed {windows : List (GameWindow ι)} {m : WindowManager ι}
    (hc : Consistent WindowConfig windows m) (scene : Nat) (w : GameWindow ι) (level : Int) :
    m.mWaitedWindows level =
      entered m (m.closed scene w) level ++ (m.closed scene w).mWaitedWindows level := by
  have hold : ∀ id v, (m.forgotten w).mOpenedWindows.lookup id = some v →
      m.mOpenedWindows.lookup v.id = some v := by
    intro id v hv
    rw [lookup_forgotten] at hv
    split at hv
    · exact absurd hv.symm (Option.some_ne_none v)
    · exact hc.lookup_own hv
  cases hqueue : m.mWaitedWindows w.config.level with
  | nil =>
      rw [closed_of_nil m scene hqueue, waited_unmasked, entered_eq_nil]
      · rfl
      · intro id v hv _
        rw [lookup_unmasked] at hv
        exact hold id v hv
  | cons next waited =>
      obtain ⟨_, hnext, hclosed, _⟩ := hc.next hqueue
      have hentered : entered m (((m.forgotten w).waiting w.config.level waited).shown scene next)
          level = if next.config.level = level then [next] else [] :=
        entered_shown scene hclosed fun id v hv _ => hold id v hv
      rw [closed_of_cons m scene hqueue, hentered, hnext]
      change _ = _ ++ Function.update m.mWaitedWindows w.config.level waited level
      by_cases hlevel : w.config.level = level
      · subst hlevel
        rw [if_pos rfl, Function.update_self, hqueue]
        rfl
      · rw [if_neg hlevel, Function.update_of_ne (Ne.symm hlevel)]
        rfl

structure LevelSame (before after : WindowManager ι) (level : Int) : Prop where
  waited : after.mWaitedWindows level = before.mWaitedWindows level
  opened : ∀ id v, v.config.level = level →
    (after.mOpenedWindows.lookup id = some v ↔ before.mOpenedWindows.lookup id = some v)

namespace LevelSame
variable {level : Int}

theorem refl (m : WindowManager ι) (level : Int) : LevelSame m m level :=
  ⟨rfl, fun _ _ _ => Iff.rfl⟩

theorem trans {last : WindowManager ι} (h : LevelSame before after level)
    (h' : LevelSame after last level) : LevelSame before last level :=
  ⟨h'.waited.trans h.waited, fun id v hv => (h'.opened id v hv).trans (h.opened id v hv)⟩

theorem openAt (h : LevelSame before after level) (w : GameWindow ι) :
    OpenAt after level w ↔ OpenAt before level w :=
  and_congr_left fun hlevel => h.opened w.id w hlevel

theorem entered {windows : List (GameWindow ι)} (hc : Consistent WindowConfig windows before)
    (h : LevelSame before after level) : entered before after level = [] := by
  apply entered_eq_nil
  intro id w hw hlevel
  exact hc.lookup_own ((h.opened id w hlevel).mp hw)

theorem shown (m : WindowManager ι) (scene : Nat) {w : GameWindow ι}
    (hclosed : m.mOpenedWindows.lookup w.id = none) (hlevel : w.config.level ≠ level) :
    LevelSame m (m.shown scene w) level := by
  refine ⟨rfl, fun id v hv => ?_⟩
  rw [lookup_shown]
  by_cases hid : id = w.id
  · rw [if_pos hid, hid, hclosed]
    constructor
    · intro hvw
      exact absurd (Option.some.inj hvw ▸ hv) hlevel
    · exact fun hnone => absurd hnone.symm (Option.some_ne_none v)
  · rw [if_neg hid]

/-- A window of another level closes, with nobody waiting there. -/
theorem hidden (s : World ι) {r : GameWindow ι}
    (hopen : s.manager.mOpenedWindows.lookup r.id = some r)
    (hqueue : s.manager.mWaitedWindows r.config.level = []) (hlevel : r.config.level ≠ level) :
    LevelSame s.manager (r.hide s).world.manager level := by
  constructor
  · have hsame := hide_sameButNodes s r
    rw [hsame.manager]
    by_cases hclose : s.closesAtOnce r = true
    · rw [if_pos hclose]
      change (s.manager.closed s.scene r).mWaitedWindows level = _
      rw [waited_closed, Function.update_of_ne (Ne.symm hlevel)]
    · rw [if_neg hclose]
  · intro id v hv
    rw [(hide_tables s r hqueue id).1]
    by_cases hgone : s.closesAtOnce r = true ∧ id = r.id
    · rw [if_pos hgone, hgone.2, hopen]
      constructor
      · exact fun hnone => absurd hnone.symm (Option.some_ne_none v)
      · intro hrv
        exact absurd (Option.some.inj hrv ▸ hv) hlevel
    · rw [if_neg hgone]

end LevelSame

/-- Below, nothing shows of a full-screen window that makes room for another. -/
theorem levelSame_replaces (h : WellFormed WindowConfig s) {id : ι} {w r : GameWindow ι}
    (hkept : s.manager.mWindows id = some w) (hfull : w.config.level = WindowLevel.FullScreen)
    (hclosed : s.manager.mOpenedWindows.lookup id = none)
    (hr : MakesRoom s.windows s.manager id r) {level : Int}
    (hlevel : level ≠ WindowLevel.FullScreen) :
    LevelSame s.manager ((r.hide s).andThen fun t => t.doShowKept id).world.manager level := by
  have hhidden : LevelSame s.manager (r.hide s).world.manager level :=
    .hidden s hr.opened hr.queue (hr.level ▸ hlevel.symm)
  by_cases hresult : (r.hide s).result = none
  · rw [andThen_of_none _ hresult]
    exact hhidden
  · obtain ⟨hlookup, hsaved⟩ := hide_tables s r hr.queue id
    rw [andThen_of_some _ hresult,
      (doShowKept_sameButNodes ((hsaved hr.ne).trans hkept)).manager]
    refine hhidden.trans (.shown _ _ ?_ (hfull ▸ hlevel.symm))
    rw [(h.consistent.kept id w hkept).2, hlookup, hclosed, ite_self]

/-- With the window made sure of, the queue gets what has been asked for and gives what has been
opened. -/
theorem Prepared.balance {id : ι} {w : GameWindow ι} {order : List ι}
    (h : Prepared WindowConfig s id w order) {level : Int}
    (hlevel : level ≠ WindowLevel.FullScreen) :
    s.manager.mWaitedWindows level ++
        (if w.config.level = level ∧ s.manager.existWaitedWindows level id = false then
          ((s.showOrWait order w.config.level id).world.manager.mWindows id).toList else []) =
      entered s.manager (s.showOrWait order w.config.level id).world.manager level ++
        (s.showOrWait order w.config.level id).world.manager.mWaitedWindows level := by
  have hwf := h.wellFormed
  have hc := hwf.consistent
  obtain ⟨_, hid⟩ := hc.kept id w h.kept
  apply h.showOrWait_rule (P := fun t => s.manager.mWaitedWindows level ++
    (if w.config.level = level ∧ s.manager.existWaitedWindows level id = false then
      (t.manager.mWindows id).toList else []) =
        entered s.manager t.manager level ++ t.manager.mWaitedWindows level)
  · intro hfree
    have hentered : entered s.manager (s.manager.shown s.scene w) level =
        if w.config.level = level then [w] else [] := by
      refine entered_shown s.scene (by rw [hid]; exact h.closed) fun key v hv _ => ?_
      exact hc.lookup_own hv
    rw [(doShowKept_sameButNodes h.kept).manager]
    change _ ++ (if _ then (s.manager.mWindows id).toList else []) =
      entered s.manager (s.manager.shown s.scene w) level ++ s.manager.mWaitedWindows level
    rw [hentered, h.kept]
    by_cases hw : w.config.level = level
    · subst hw
      have hqueue := hwf.blocked.queue_eq_nil hfree
      rw [WindowManager.existWaitedWindows, hqueue, if_pos ⟨rfl, rfl⟩, if_pos rfl]
      rfl
    · rw [if_neg fun hand => hw hand.1, if_neg hw]
      exact List.append_nil _
  · intro hwaits
    have hnot : ¬ (w.config.level = level ∧ s.manager.existWaitedWindows level id = false) := by
      rintro ⟨rfl, hnew⟩
      exact Bool.false_ne_true (hnew.symm.trans hwaits)
    rw [if_neg hnot, (LevelSame.refl s.manager level).entered hc, List.append_nil]
    rfl
  · intro _ _ hnew
    have hnothing : entered s.manager (s.enqueue w.config.level id).manager level = [] :=
      entered_eq_nil level fun _ _ hv _ => hc.lookup_own hv
    rw [hnothing]
    by_cases hw : w.config.level = level
    · subst hw
      rw [if_pos ⟨rfl, hnew⟩, waited_enqueue h.kept]
      change _ ++ (s.manager.mWindows id).toList = _
      rw [h.kept]
      rfl
    · rw [if_neg fun hand => hw hand.1, List.append_nil]
      change _ = Function.update s.manager.mWaitedWindows w.config.level _ level
      rw [Function.update_of_ne (Ne.symm hw)]
  · intro hfull r _ hr
    have hsame := levelSame_replaces hwf h.kept hfull h.closed hr hlevel
    rw [if_neg fun hand => hlevel (hand.1.symm.trans hfull), hsame.entered hc, hsame.waited,
      List.append_nil]
    rfl

/-- An open window below the full-screen level stays open while another is shown or waits. -/
theorem Prepared.stays_open {id : ι} {w : GameWindow ι} {order : List ι}
    (h : Prepared WindowConfig s id w order) {level : Int}
    (hlevel : level ≠ WindowLevel.FullScreen) {v : GameWindow ι} (hv : OpenAt s.manager level v) :
    OpenAt (s.showOrWait order w.config.level id).world.manager level v := by
  have hwf := h.wellFormed
  apply h.showOrWait_rule (P := fun t => OpenAt t.manager level v)
  · intro _
    obtain ⟨_, hid⟩ := hwf.consistent.kept id w h.kept
    rw [(doShowKept_sameButNodes h.kept).manager]
    refine ⟨?_, hv.2⟩
    change (s.manager.shown s.scene w).mOpenedWindows.lookup v.id = some v
    rw [lookup_shown, if_neg, hv.1]
    intro hvw
    exact Option.some_ne_none v (hv.1.symm.trans (by rw [hvw, hid]; exact h.closed))
  · exact fun _ => hv
  · exact fun _ _ _ => hv
  · intro hfull r _ hr
    exact ((levelSame_replaces hwf h.kept hfull h.closed hr hlevel).openAt v).mpr hv

theorem requested_of_other {level : Int} {e : WindowEvent ι}
    (hother : ∀ parentNode id style order, e ≠ .showWindow parentNode id style order) :
    requested WindowConfig level s (.window e) t = [] := by
  cases e with
  | showWindow parentNode id style order => exact absurd rfl (hother parentNode id style order)
  | hide wnd => rfl
  | tapMask key => rfl
  | onKeyBack order => rfl
  | animEnd wnd => rfl

theorem requested_of_idle {level : Int} {parentNode : Nat} {id : ι} {style : Option WindowStyle}
    {order : List ι} (hidle : ∀ config, ¬ Reaches WindowConfig s parentNode id config)
    {style' : ι → Option WindowStyle} :
    requested WindowConfig level s (.window (.showWindow parentNode id style order))
      { s with style := style' } = [] := by
  change (if (WindowConfig id).any (fun config => config.level = level) = true ∧
      s.manager.mOpenedWindows.lookup id = none ∧ s.manager.existWaitedWindows level id = false then
        (s.manager.mWindows id).toList else []) = []
  split
  · rename_i hasked
    cases hkept : s.manager.mWindows id with
    | none => rfl
    | some w =>
        cases hconfig : WindowConfig id with
        | none =>
            rw [hconfig] at hasked
            exact absurd hasked.1 Bool.false_ne_true
        | some config =>
            exact absurd ⟨hasked.2.1, hconfig, .inl (by rw [hkept]; exact Option.some_ne_none w)⟩
              (hidle config)
  · rfl

theorem requested_of_reaches {level : Int} {parentNode : Nat} {id : ι} {config : Config}
    {style : Option WindowStyle} {order : List ι}
    (hreach : Reaches WindowConfig s parentNode id config) :
    requested WindowConfig level s (.window (.showWindow parentNode id style order)) t =
      if config.level = level ∧ s.manager.existWaitedWindows level id = false then
        (t.manager.mWindows id).toList else [] := by
  unfold requested
  simp [hreach.1, hreach.2.1]

theorem entered_ready (parentNode : Nat) (id : ι) (config : Config) (style : Option WindowStyle)
    (level : Int) :
    entered (s.ready parentNode id config style).manager after level =
      entered s.manager after level := by
  unfold entered
  rw [ready_opened]

/-- What joins a queue joins it at its end, and what is opened comes from its front. -/
theorem balance_step (h : WellFormed WindowConfig s) {e : Event ι}
    (hstep : step WindowConfig s e = some t) {level : Int}
    (hlevel : level ≠ WindowLevel.FullScreen) :
    s.manager.mWaitedWindows level ++ requested WindowConfig level s e t =
      entered s.manager t.manager level ++ t.manager.mWaitedWindows level := by
  have hc := h.consistent
  cases e with
  | enterScene =>
      cases Option.some.inj hstep
      have hsame : LevelSame s.manager s.enterScene.manager level := ⟨rfl, fun _ _ _ => Iff.rfl⟩
      rw [hsame.entered hc, hsame.waited]
      exact List.append_nil _
  | window e =>
      rcases stepWindow_cases WindowConfig hstep with
        ⟨parentNode, id, style, order, rfl, horder, rfl⟩ | ⟨hother, hsame⟩
      · apply h.showWindow_rule horder (P := fun t => s.manager.mWaitedWindows level ++
          requested WindowConfig level s (.window (.showWindow parentNode id style order)) t =
            entered s.manager t.manager level ++ t.manager.mWaitedWindows level)
        · intro hidle style'
          rw [requested_of_idle hidle, List.append_nil]
          exact congrArg (· ++ s.manager.mWaitedWindows level)
            ((LevelSame.refl s.manager level).entered hc).symm
        · intro config hreach htarget hprepared
          have hbalance := hprepared.balance hlevel
          rw [requested_of_reaches hreach]
          unfold WindowManager.existWaitedWindows at hbalance ⊢
          rw [ready_waited, entered_ready] at hbalance
          rwa [htarget] at hbalance ⊢
      · rw [requested_of_other hother, hsame.manager, List.append_nil]
        cases s.closing e with
        | none => rw [World.afterClosing, (LevelSame.refl s.manager level).entered hc]; rfl
        | some w => exact entered_closed hc s.scene w level

theorem opensHead_closed {windows : List (GameWindow ι)} {m : WindowManager ι}
    (hc : Consistent WindowConfig windows m) (scene : Nat) {v w : GameWindow ι} {level : Int}
    (hv : v ∈ windows) (hopen : OpenAt m level w)
    (hgone : ¬ OpenAt (m.closed scene v) level w) :
    (m.closed scene v).mWaitedWindows level = (m.mWaitedWindows level).tail ∧
      ∀ u, OpenAt (m.closed scene v) level u ↔
        (m.mWaitedWindows level).head? = some u ∨ OpenAt m level u ∧ u ≠ w := by
  have hid : w.id = v.id := by
    by_contra hne
    exact hgone ⟨open_closed hc scene hopen.1 hne, hopen.2⟩
  have hv' : v.config.level = level :=
    (hc.level_eq hv (hc.opened w.id w hopen.1).1 hid.symm).trans hopen.2
  subst hv'
  have hothers : ∀ u, m.mOpenedWindows.lookup u.id = some u → (u ≠ w ↔ u.id ≠ v.id) := by
    intro u hu
    rw [← hid]
    refine not_congr ⟨congrArg GameWindow.id, fun hsame => ?_⟩
    rw [hsame, hopen.1] at hu
    exact (Option.some.inj hu).symm
  refine ⟨by rw [waited_closed, Function.update_self], fun u => ?_⟩
  constructor
  · rintro ⟨hu, hlevel⟩
    rw [lookup_closed] at hu
    have hstayed : (if u.id = v.id then none else m.mOpenedWindows.lookup u.id) = some u →
        OpenAt m v.config.level u ∧ u ≠ w := by
      intro hu
      split at hu
      · exact absurd hu.symm (Option.some_ne_none u)
      · exact ⟨⟨hu, hlevel⟩, (hothers u hu).mpr ‹_›⟩
    cases hhead : (m.mWaitedWindows v.config.level).head? with
    | none =>
        rw [hhead] at hu
        exact .inr (hstayed hu)
    | some next =>
        rw [hhead] at hu
        dsimp only at hu
        by_cases hnext : u.id = next.id
        · rw [if_pos hnext] at hu
          exact .inl hu
        · rw [if_neg hnext] at hu
          exact .inr (hstayed hu)
  · rintro (hhead | ⟨hu, hne⟩)
    · refine ⟨?_, (hc.waiting v.config.level u (List.mem_of_head? hhead)).2.1⟩
      rw [lookup_closed, hhead]
      exact if_pos rfl
    · exact ⟨open_closed hc scene hu.1 ((hothers u hu.1).mp hne), hu.2⟩

/-- No other step takes away a window below the full-screen level. -/
theorem opensHead_step (h : WellFormed WindowConfig s) (e : Event ι) :
    OpensHead WindowConfig s e := by
  intro t level w hstep hlevel hopen hgone
  cases e with
  | enterScene =>
      cases Option.some.inj hstep
      exact absurd hopen hgone
  | window e =>
      rcases stepWindow_cases WindowConfig hstep with
        ⟨parentNode, id, style, order, rfl, horder, rfl⟩ | ⟨_, hsame⟩
      · refine absurd ?_ hgone
        apply h.showWindow_rule horder (P := fun t => OpenAt t.manager level w)
        · exact fun _ _ => hopen
        · intro config _ _ hprepared
          refine hprepared.stays_open hlevel ?_
          unfold OpenAt
          rwa [ready_opened]
      · rw [hsame.manager] at hgone ⊢
        cases hclosing : s.closing e with
        | none =>
            rw [hclosing] at hgone
            exact absurd hopen hgone
        | some v =>
            rw [hclosing] at hgone
            exact opensHead_closed h.consistent s.scene (h.closing_mem hstep hclosing) hopen hgone

theorem waited_showWindow (h : WellFormed WindowConfig s) {parentNode : Nat} {id : ι}
    {style : Option WindowStyle} {order : List ι}
    (horder : order.Perm s.manager.mOpenedWindows.keys) {level : Int} {w : GameWindow ι}
    (hw : w ∈ s.manager.mWaitedWindows level) :
    w ∈ (s.showWindow WindowConfig parentNode id style order).world.manager.mWaitedWindows
      level := by
  have hlevel : level ≠ WindowLevel.FullScreen := by
    rintro rfl
    rw [h.consistent.fullScreen] at hw
    exact absurd hw List.not_mem_nil
  apply h.showWindow_rule horder (P := fun t => w ∈ t.manager.mWaitedWindows level)
  · exact fun _ _ => hw
  · intro config _ _ hprepared
    rw [← ready_waited s parentNode id config style] at hw
    have hkept := hprepared.kept
    apply hprepared.showOrWait_rule (P := fun t => w ∈ t.manager.mWaitedWindows level)
    · intro _
      rw [(doShowKept_sameButNodes hkept).manager]
      exact hw
    · exact fun _ => hw
    · intro _ _ _
      by_cases hsame : level = (s.target parentNode id config).config.level
      · rw [← hsame, waited_enqueue hkept]
        exact List.mem_append_left _ hw
      · rwa [waited_enqueue_ne _ hsame]
    · intro hfull r _ hr
      have hsame := levelSame_replaces hprepared.wellFormed hkept hfull hprepared.closed hr hlevel
      rw [hsame.waited]
      exact hw

/-- The head of the queue leaves it when a window of its level closes, and nobody else does. -/
theorem left_iff {windows : List (GameWindow ι)} {m : WindowManager ι}
    (hc : Consistent WindowConfig windows m) (scene : Nat) (v : GameWindow ι) {level : Int}
    {w : GameWindow ι} :
    (w ∈ m.mWaitedWindows level ∧ w ∉ (m.closed scene v).mWaitedWindows level) ↔
      level = v.config.level ∧ (m.mWaitedWindows level).head? = some w := by
  rw [waited_closed]
  by_cases hlevel : level = v.config.level
  · subst hlevel
    rw [Function.update_self]
    cases hqueue : m.mWaitedWindows v.config.level with
    | nil => simp
    | cons next waited =>
        have hrest : next ∉ waited := fun hnext => (hc.next hqueue).2.2.2 next hnext rfl
        simp only [List.mem_cons, List.tail_cons, List.head?_cons, Option.some.injEq, true_and]
        constructor
        · rintro ⟨rfl | hw, hnot⟩
          · rfl
          · exact absurd hw hnot
        · rintro rfl
          exact ⟨.inl rfl, hrest⟩
  · rw [Function.update_of_ne hlevel]
    exact iff_of_false (fun h => h.2 h.1) fun h => hlevel h.1

theorem showsNext_iff (h : WellFormed WindowConfig s) (hs : s.Guarded) {e : WindowEvent ι}
    (hother : ∀ parentNode id style order, e ≠ .showWindow parentNode id style order)
    (hstep : stepWindow WindowConfig s e = some t) :
    ShowsNext WindowConfig s (.window e) ↔ ∀ v next, s.closing e = some v →
      (s.manager.mWaitedWindows v.config.level).head? = some next → next ≠ v →
        s.Shown next ∨ (s.setManager (s.manager.forgotten v)).CanShow next := by
  have hc := h.consistent
  have hsame := stepWindow_closing WindowConfig hother hstep
  have hshown : ∀ v next, s.closing e = some v →
      (s.manager.mWaitedWindows v.config.level).head? = some next → next ≠ v →
        (t.Shown next ↔ s.Shown next ∨ (s.setManager (s.manager.forgotten v)).CanShow next) := by
    intro v next hclosing hhead hne
    obtain ⟨waited, hqueue⟩ := List.head?_eq_some_iff.mp hhead
    have hnext := (hc.next hqueue).1
    refine closing_shown hstep hclosing hs hqueue (fun href => hne ?_) (h.kept_eq hnext)
    exact hc.eq_of_ref hnext (h.closing_mem hstep hclosing) href
  constructor
  · intro hshows v next hclosing hhead hne
    obtain ⟨hwaits, hleft⟩ := (left_iff hc s.scene v).mpr ⟨rfl, hhead⟩
    refine (hshown v next hclosing hhead hne).mp (hshows t _ next hstep hwaits ?_ ?_)
    · rw [hsame.manager, hclosing]
      exact hleft
    · rintro _ ⟨⟩ hown
      exact hne (Option.some.inj (hown.symm.trans hclosing))
  · intro hcan u level w hu hwaits hleft hown
    cases Option.some.inj (hstep.symm.trans hu)
    rw [hsame.manager] at hleft
    cases hclosing : s.closing e with
    | none =>
        rw [hclosing] at hleft
        exact absurd hwaits hleft
    | some v =>
        rw [hclosing] at hleft
        obtain ⟨rfl, hhead⟩ := (left_iff hc s.scene v).mp ⟨hwaits, hleft⟩
        have hne : w ≠ v := by
          rintro rfl
          exact hown e rfl hclosing
        exact (hshown v w hclosing hhead hne).mpr (hcan v w hclosing hhead hne)

/-- The condition is what a step needs to serve its request and to show the next of the queue. -/
theorem served_step_iff (h : WellFormed WindowConfig s) (hs : s.Guarded) {e : Event ι}
    (hstep : step WindowConfig s e = some t) :
    RequestKept WindowConfig s e ∧ ShowsNext WindowConfig s e ↔
      MeetsShowable WindowConfig s e := by
  cases e with
  | enterScene =>
      refine iff_of_true ⟨trivial, fun u level w hu hwaits hleft _ => ?_⟩ trivial
      cases Option.some.inj hu
      exact absurd hwaits hleft
  | window e =>
      cases e with
      | showWindow parentNode id style order =>
          simp only [step, stepWindow, Option.ite_none_right_eq_some] at hstep
          rw [requestKept_iff h hs parentNode id style hstep.1]
          refine and_iff_left fun u level w hu hwaits hleft _ => ?_
          simp only [step, stepWindow, Option.ite_none_right_eq_some] at hu
          cases Option.some.inj hu.2
          exact absurd (waited_showWindow h hu.1 hwaits) hleft
      | hide wnd => exact (and_iff_right trivial).trans (showsNext_iff h hs (by simp) hstep)
      | tapMask key => exact (and_iff_right trivial).trans (showsNext_iff h hs (by simp) hstep)
      | onKeyBack order => exact (and_iff_right trivial).trans (showsNext_iff h hs (by simp) hstep)
      | animEnd wnd => exact (and_iff_right trivial).trans (showsNext_iff h hs (by simp) hstep)

/-- In every run, every request below the full-screen level is served at once or in its turn if
and only if whatever is asked for or has its turn is to be seen or can be shown. -/
theorem requests_served_iff (es : List (Event ι)) (t : World ι)
    (hrun : run (step WindowConfig) World.start es = some t) :
    RequestsServed WindowConfig es ↔
      Along (step WindowConfig) (MeetsShowable WindowConfig) World.start es := by
  have hserved : Along (step WindowConfig) (RequestKept WindowConfig) World.start es ∧
      Along (step WindowConfig) (ShowsNext WindowConfig) World.start es ↔
        Along (step WindowConfig) (MeetsShowable WindowConfig) World.start es := by
    rw [← along_and]
    exact along_iff (step WindowConfig) _ _
      (fun s : World ι => WellFormed WindowConfig s ∧ s.Guarded)
      (fun s e s' h hstep => ⟨h.1.step hstep, h.2.step h.1 hstep⟩)
      (fun s e s' h hstep => served_step_iff h.1 h.2 hstep) es World.start t
      ⟨wellFormed_start, .start⟩ hrun
  refine ⟨fun h => hserved.mp ⟨h.kept, h.shows⟩, fun h => ⟨(hserved.mpr h).1, ?_,
    (hserved.mpr h).2, ?_⟩⟩
  · exact along_of_invariant (step WindowConfig) (fun _ _ => True) (OpensHead WindowConfig)
      (WellFormed WindowConfig) (fun s e s' h _ hstep => h.step hstep)
      (fun s e _ h _ _ => opensHead_step h e) es World.start t wellFormed_start
      (along_true (step WindowConfig) es World.start) hrun
  · intro level hlevel u hu
    exact history_fifo (step WindowConfig) (fun s => s.manager.mWaitedWindows level)
      (requested WindowConfig level) (fun s _ t => entered s.manager t.manager level)
      (WellFormed WindowConfig) (fun s e s' h hstep => h.step hstep)
      (fun s e s' h hstep => balance_step h hstep hlevel) es World.start u wellFormed_start hu

end Order

/-! ## A popup that is being closed -/

/-- A window shown with the popup style and hidden again, up to the end of its closing. -/
def popupClosing : List (Event Bool) :=
  [.window (.showWindow 0 false (some .popu) []),
    .window (.animEnd (firstAlike ⟨20, true, true, false⟩)),
    .window (.hide (firstAlike ⟨20, true, true, false⟩))]

/-- The request comes after the closing has ended. -/
theorem requests_served_after_closing :
    RequestsServed (twoAlike ⟨20, true, true, false⟩)
      (popupClosing ++ [.window (.animEnd (firstAlike ⟨20, true, true, false⟩)),
        .window (.showWindow 0 false none [])]) := by
  have hnobody : ∀ next : GameWindow Bool, ([] : List (GameWindow Bool)).head? ≠ some next :=
    fun _ => nofun
  refine (requests_served_iff _ _ rfl).mpr ((along_cons_iff rfl).mpr ⟨?_, (along_cons_iff rfl).mpr
    ⟨?_, (along_cons_iff rfl).mpr ⟨?_, (along_cons_iff rfl).mpr ⟨?_, (along_cons_iff rfl).mpr
      ⟨?_, trivial⟩⟩⟩⟩⟩)
  · rintro config _ _ w (hw | ⟨_, _, hw, _⟩)
    · exact absurd hw.symm (Option.some_ne_none w)
    · exact absurd hw.symm (Option.some_ne_none w)
  · exact fun _ next _ hhead => absurd hhead (hnobody next)
  · exact fun _ next _ hhead => absurd hhead (hnobody next)
  · exact fun _ next _ hhead => absurd hhead (hnobody next)
  · rintro config _ _ w (hw | ⟨_, _, hw, _, hflag⟩)
    · exact absurd hw.symm (Option.some_ne_none w)
    · cases Option.some.inj hw
      exact absurd hflag Bool.false_ne_true

/-- The request comes while the closing animation runs, which takes the window away. -/
theorem request_lost_while_closing :
    ¬ RequestsServed (twoAlike ⟨20, true, true, false⟩)
      (popupClosing ++ [.window (.showWindow 0 false none [false])]) := by
  intro hserved
  have hkept := (((hserved.kept.2 _ rfl).2 _ rfl).2 _ rfl).1 _ rfl (by decide)
    (Option.some_ne_none _)
  rcases hkept with ⟨w, hw, hshown⟩ | ⟨hcount, _⟩
  · cases Option.some.inj hw
    exact hshown.2.2 rfl
  · exact absurd hcount (by decide)

end Doudizhu.Window
