import Doudizhu.Window.Invariants

/-! # Windows across scene changes

`enterScene` clears none of the manager's tables.  A call of `showWindow` for the current scene
uses what they hold for the id: the window that is open or waiting, or else the one in `mWindows`,
which is created only if there is none.  Whether the answer is a window of the current scene is
therefore decided by the scene to which that entry belongs. -/

set_option autoImplicit false

namespace Doudizhu.Window

open Runs

section Scenes
variable {ι : Type} [DecidableEq ι]

/-- Its node is alive and hangs in the scene on display. -/
def World.attached (s : World ι) (w : GameWindow ι) : Bool :=
  (s.node w.ref).alive && w.parentNode = s.scene

/-- The window of `id` that is open, or else the one that waits at the level. -/
def WindowManager.shownOrWaiting (m : WindowManager ι) (id : ι) (level : Int) :
    Option (GameWindow ι) :=
  match m.mOpenedWindows.lookup id with
  | some w => some w
  | none => (m.mWaitedWindows level).find? fun w => w.id = id

/-- The call has left a window of the current scene open or waiting for its id. -/
def Serves (t : World ι) (id : ι) (level : Int) : Prop :=
  ∃ w, t.manager.shownOrWaiting id level = some w ∧ t.attached w = true

/-- What the tables hold for `id` is of the current scene, and no error comes in between. -/
def CanServe (s : World ι) (id : ι) (level : Int) (order : List ι) : Prop :=
  match s.manager.shownOrWaiting id level with
  | some w => s.attached w = true
  | none =>
      (∀ w, s.manager.mWindows id = some w → s.attached w = true) ∧
        (level = WindowLevel.FullScreen →
          ∀ r, s.manager.replaced order = some r → s.hideRaises r = false)

variable (WindowConfig : ι → Option Config)

/-- A call with a node of the current scene and a configured id does what it is for. -/
def ServedHere (s : World ι) : Event ι → Prop
  | .window (.showWindow parentNode id style order) =>
      parentNode = s.scene → ∀ config, WindowConfig id = some config →
        Serves (s.showWindow WindowConfig parentNode id style order).world id config.level
  | _ => True

def ServableHere (s : World ι) : Event ι → Prop
  | .window (.showWindow parentNode id _ order) =>
      parentNode = s.scene → ∀ config, WindowConfig id = some config →
        CanServe s id config.level order
  | _ => True

end Scenes

section Steps
variable {ι : Type} [DecidableEq ι] {WindowConfig : ι → Option Config} {s t : World ι}

theorem shownOrWaiting_of_open {m : WindowManager ι} {id : ι} {level : Int} {w : GameWindow ι}
    (hopen : m.mOpenedWindows.lookup id = some w) : m.shownOrWaiting id level = some w := by
  rw [WindowManager.shownOrWaiting, hopen]

theorem shownOrWaiting_of_closed {m : WindowManager ι} {id : ι} {level : Int}
    (hclosed : m.mOpenedWindows.lookup id = none) :
    m.shownOrWaiting id level = (m.mWaitedWindows level).find? fun w => w.id = id := by
  rw [WindowManager.shownOrWaiting, hclosed]

theorem existWaitedWindows_eq (m : WindowManager ι) (id : ι) (level : Int) :
    m.existWaitedWindows level id =
      ((m.mWaitedWindows level).find? fun w => w.id = id).isSome := by
  rw [WindowManager.existWaitedWindows, Bool.eq_iff_iff, List.any_eq_true, List.find?_isSome]
  exact Iff.rfl

omit [DecidableEq ι] in
theorem SameButNodes.attached {dies : Nat → Prop} (h : SameButNodes dies s t) {w : GameWindow ι}
    (hw : ¬ dies w.ref) : t.attached w = s.attached w := by
  unfold World.attached
  rw [h.alive w.ref hw, h.scene]

theorem serves_of_open {w : GameWindow ι} {id : ι} {level : Int}
    (hopen : t.manager.mOpenedWindows.lookup id = some w) :
    Serves t id level ↔ t.attached w = true := by
  unfold Serves
  rw [shownOrWaiting_of_open hopen]
  simp

theorem serves_shownKept {id : ι} {w : GameWindow ι} (level : Int)
    (hkept : s.manager.mWindows id = some w) (hid : w.id = id) :
    Serves (s.doShowKept id).world id level ↔ s.attached w = true := by
  have hsame := doShowKept_sameButNodes hkept
  have hopen : (s.doShowKept id).world.manager.mOpenedWindows.lookup id = some w := by
    rw [hsame.manager]
    change (s.manager.shown s.scene w).mOpenedWindows.lookup id = some w
    rw [lookup_shown, if_pos hid.symm]
  rw [serves_of_open hopen, hsame.attached fun hdies => hdies]
  exact Iff.rfl

/-- With a full-screen window to be replaced, everything depends on whether `hide` raises. -/
theorem serves_replaces (h : WellFormed WindowConfig s) {id : ι} {w r : GameWindow ι}
    (hkept : s.manager.mWindows id = some w)
    (hclosed : s.manager.mOpenedWindows.lookup id = none)
    (hr : MakesRoom s.windows s.manager id r) :
    Serves ((r.hide s).andThen fun t => t.doShowKept id).world id WindowLevel.FullScreen ↔
      s.attached w = true ∧ s.hideRaises r = false := by
  obtain ⟨hmem, hid⟩ := h.consistent.kept id w hkept
  obtain ⟨hlookup, hsaved⟩ := hide_tables s r hr.queue id
  cases hraises : s.hideRaises r with
  | true =>
      have hhidden := h.hidden hr.mem
      rw [andThen_of_none _ ((hide_result s r hr.queue).mpr hraises)]
      constructor
      · rintro ⟨v, hv, _⟩
        rw [hclosed, ite_self] at hlookup
        rw [shownOrWaiting_of_closed hlookup, hhidden.consistent.fullScreen] at hv
        exact absurd hv.symm (Option.some_ne_none v)
      · rintro ⟨_, hfalse⟩
        exact absurd hfalse.symm Bool.false_ne_true
  | false =>
      have href : w.ref ≠ r.ref := by
        intro href
        exact hr.ne (hid.symm.trans (congrArg GameWindow.id
          (h.consistent.eq_of_ref hmem hr.mem href)))
      have hsame : (r.hide s).world.attached w = s.attached w := by
        rw [(hide_sameButNodes s r).attached fun hdies => href hdies.2.1]
        split <;> rfl
      rw [andThen_of_some _ (hide_quiet s r hr.queue hraises),
        serves_shownKept WindowLevel.FullScreen ((hsaved hr.ne).trans hkept) hid, hsame]
      simp

/-- With the window made sure of, its scene decides, and what comes in between. -/
theorem Prepared.serves {id : ι} {w : GameWindow ι} {order : List ι}
    (h : Prepared WindowConfig s id w order) :
    Serves (s.showOrWait order w.config.level id).world id w.config.level ↔
      CanServe s id w.config.level order := by
  have hc := h.wellFormed.consistent
  obtain ⟨hmem, hid⟩ := hc.kept id w h.kept
  have htarget : (∀ v, s.manager.mWindows id = some v → s.attached v = true) ↔
      s.attached w = true := by
    rw [h.kept]
    exact ⟨fun hall => hall w rfl, fun hw v hv => Option.some.inj hv ▸ hw⟩
  unfold CanServe
  rw [shownOrWaiting_of_closed h.closed]
  apply h.showOrWait_rule (P := fun t => Serves t id w.config.level ↔ _)
  · intro hfree
    have hnobody : ∀ r, w.config.level = WindowLevel.FullScreen →
        s.manager.replaced order ≠ some r := by
      intro r hlevel hr
      have hroom := hc.replaced hr h.closed
      exact hfree ⟨r.id, r, hroom.opened, hroom.level.trans hlevel.symm⟩
    rw [serves_shownKept w.config.level h.kept hid,
      h.wellFormed.blocked.queue_eq_nil hfree]
    simp only [List.find?_nil, htarget]
    exact ⟨fun hw => ⟨hw, fun hlevel r hr => absurd hr (hnobody r hlevel)⟩, fun hand => hand.1⟩
  · intro hwaits
    rw [existWaitedWindows_eq] at hwaits
    obtain ⟨v, hfind⟩ := Option.isSome_iff_exists.mp hwaits
    unfold Serves
    simp [shownOrWaiting_of_closed h.closed, hfind]
  · intro _ hlevel hnew
    rw [existWaitedWindows_eq, Option.isSome_eq_false_iff, Option.isNone_iff_eq_none] at hnew
    have hjoined : (s.enqueue w.config.level id).manager.shownOrWaiting id w.config.level =
        some w := by
      have hclosed : (s.enqueue w.config.level id).manager.mOpenedWindows.lookup id = none :=
        h.closed
      rw [shownOrWaiting_of_closed hclosed]
      simp [World.enqueue, World.setManager, h.kept, hnew, hid]
    unfold Serves
    simp [hjoined, htarget, hlevel, hnew]
    rfl
  · intro hlevel r hreplaced hr
    rw [hlevel, serves_replaces h.wellFormed h.kept h.closed hr, hc.fullScreen]
    simp [htarget, hreplaced]

theorem attached_ready (h : WellFormed WindowConfig s) {w : GameWindow ι} (hw : w ∈ s.windows)
    (parentNode : Nat) (id : ι) (config : Config) (style : Option WindowStyle) :
    (s.ready parentNode id config style).attached w = s.attached w := by
  unfold World.attached
  rw [h.ready_node hw parentNode id config style, ready_scene]

theorem attached_target (h : WellFormed WindowConfig s) (id : ι) (config : Config)
    (style : Option WindowStyle) :
    (s.ready s.scene id config style).attached (s.target s.scene id config) = true ↔
      ∀ w, s.manager.mWindows id = some w → s.attached w = true := by
  unfold World.target
  cases hkept : s.manager.mWindows id with
  | some w =>
      have hmem := (h.consistent.kept id w hkept).1
      rw [Option.getD_some, attached_ready h hmem]
      exact ⟨fun hw v hv => Option.some.inj hv ▸ hw, fun hall => hall w rfl⟩
  | none =>
      have hready : s.ready s.scene id config style = s.created s.scene id config style := by
        rw [World.ready, hkept]
      rw [hready, Option.getD_none]
      simp [World.attached, World.created, World.newWindow, World.setNode, NodeState.ctor]

theorem canServe_ready (h : WellFormed WindowConfig s) {id : ι} (config : Config)
    (style : Option WindowStyle) (hclosed : s.manager.mOpenedWindows.lookup id = none)
    (order : List ι) :
    CanServe (s.ready s.scene id config style) id config.level order ↔
      CanServe s id config.level order := by
  have hclosed' : (s.ready s.scene id config style).manager.mOpenedWindows.lookup id = none := by
    rwa [ready_opened]
  unfold CanServe
  rw [shownOrWaiting_of_closed hclosed, shownOrWaiting_of_closed hclosed', ready_waited]
  cases hfind : (s.manager.mWaitedWindows config.level).find? fun w => w.id = id with
  | some w =>
      have hmem := (h.consistent.waiting config.level w (List.mem_of_find?_eq_some hfind)).1
      simp only [attached_ready h hmem]
  | none =>
      have htarget : (∀ w, (s.ready s.scene id config style).manager.mWindows id = some w →
          (s.ready s.scene id config style).attached w = true) ↔
            ∀ w, s.manager.mWindows id = some w → s.attached w = true := by
        rw [← attached_target h id config style, ready_keeps]
        exact ⟨fun hall => hall _ rfl, fun hw v hv => Option.some.inj hv ▸ hw⟩
      have hraises : ∀ r, s.manager.replaced order = some r →
          (s.ready s.scene id config style).hideRaises r = s.hideRaises r := by
        intro r hr
        have hroom := h.consistent.replaced hr hclosed
        obtain ⟨hnode, hstyle⟩ := h.ready_seen hroom.mem s.scene hroom.ne.symm config style
        unfold World.hideRaises
        rw [hnode, hstyle, ready_masks]
      simp only [htarget, replaced_ready]
      refine and_congr_right fun _ => ?_
      constructor
      · intro hquiet hlevel r hr
        rw [← hraises r hr]
        exact hquiet hlevel r hr
      · intro hquiet hlevel r hr
        rw [hraises r hr]
        exact hquiet hlevel r hr

/-- A call for the current scene does what it is for exactly when the tables allow it. -/
theorem serves_showWindow (h : WellFormed WindowConfig s) {id : ι} {config : Config}
    (hconfig : WindowConfig id = some config) (style : Option WindowStyle) {order : List ι}
    (horder : order.Perm s.manager.mOpenedWindows.keys) :
    Serves (s.showWindow WindowConfig s.scene id style order).world id config.level ↔
      CanServe s id config.level order := by
  rcases Option.eq_none_or_eq_some (s.manager.mOpenedWindows.lookup id) with hclosed | ⟨w, hopen⟩
  · apply h.showWindow_rule horder (P := fun t => Serves t id config.level ↔ _)
    · intro hidle
      exact absurd ⟨hclosed, hconfig, .inr le_rfl⟩ (hidle config)
    · intro config' hreach htarget hprepared
      cases Option.some.inj (hconfig.symm.trans hreach.2.1)
      rw [← canServe_ready h config style hclosed order]
      have hserves := hprepared.serves
      rwa [htarget] at hserves ⊢
  · rw [showWindow_opened WindowConfig s s.scene style order hopen]
    unfold CanServe
    rw [shownOrWaiting_of_open hopen]
    exact serves_of_open hopen

/-- In every run, all calls for the current scene show or queue a window of it exactly when each
finds no entry of a replaced scene in its way. -/
theorem windows_survive_scenes_iff (es : List (Event ι)) (t : World ι)
    (hrun : run (step WindowConfig) World.start es = some t) :
    Along (step WindowConfig) (ServedHere WindowConfig) World.start es ↔
      Along (step WindowConfig) (ServableHere WindowConfig) World.start es := by
  refine along_iff (step WindowConfig) (ServedHere WindowConfig) (ServableHere WindowConfig)
    (WellFormed WindowConfig) (fun _ _ _ h hstep => h.step hstep) ?_ es World.start t
    wellFormed_start hrun
  intro s e s' h hstep
  cases e with
  | enterScene => exact Iff.rfl
  | window e =>
      cases e with
      | showWindow parentNode id style order =>
          simp only [step, stepWindow, Option.ite_none_right_eq_some] at hstep
          unfold ServedHere ServableHere
          constructor
          · rintro hserved rfl config hconfig
            exact (serves_showWindow h hconfig style hstep.1).mp (hserved rfl config hconfig)
          · rintro hservable rfl config hconfig
            exact (serves_showWindow h hconfig style hstep.1).mpr (hservable rfl config hconfig)
      | hide wnd => exact Iff.rfl
      | tapMask key => exact Iff.rfl
      | onKeyBack order => exact Iff.rfl
      | animEnd wnd => exact Iff.rfl

end Steps

/-! ## The login popup after a change of scene -/

/-- The window of the old scene is gone from the tables by the time the new one asks. -/
theorem served_after_close :
    Along (step (twoAlike ⟨20, true, true, true⟩)) (ServedHere (twoAlike ⟨20, true, true, true⟩))
      World.start
      [.window (.showWindow 0 false none []), .window (.onKeyBack [false]), .enterScene,
        .window (.showWindow 1 false none [])] := by
  refine (windows_survive_scenes_iff _ _ rfl).mpr ⟨?_, fun s hs => ?_⟩
  · intro _ config _
    exact ⟨fun w hw => absurd hw.symm (Option.some_ne_none w),
      fun _ r hr => absurd hr.symm (Option.some_ne_none r)⟩
  cases Option.some.inj hs
  refine ⟨trivial, fun s hs => ⟨trivial, fun s' hs' => ⟨?_, fun _ _ => trivial⟩⟩⟩
  cases Option.some.inj hs
  cases Option.some.inj hs'
  intro _ config _
  exact ⟨fun w hw => absurd hw.symm (Option.some_ne_none w),
    fun _ r hr => absurd hr.symm (Option.some_ne_none r)⟩

/-- A popup that is open when the scene changes is only updated from then on. -/
theorem open_window_of_replaced_scene :
    ¬ Along (step (twoAlike ⟨20, true, true, true⟩))
      (ServedHere (twoAlike ⟨20, true, true, true⟩)) World.start
      [.window (.showWindow 0 false none []), .enterScene,
        .window (.showWindow 1 false none [false])] := by
  intro halong
  obtain ⟨w, hw, hattached⟩ := ((halong.2 _ rfl).2 _ rfl).1 rfl _ rfl
  cases Option.some.inj hw
  exact absurd hattached (by decide)

end Doudizhu.Window
