import Doudizhu.Window.Effects

/-! # One event of a session

Every event but `showWindow` closes at most one window, which `closing` tells in advance.
`showWindow` makes sure of the window, and then shows it, lets it wait or has it take the place of
the full-screen window that is open. -/

set_option autoImplicit false

namespace Doudizhu.Window

open Outcome

section Steps
variable {ι : Type} [DecidableEq ι]

namespace World

/-- The window for which the event dispatches `CLOSE_WINDOW`, a replaced one apart. -/
def closing (s : World ι) : WindowEvent ι → Option (GameWindow ι)
  | .showWindow .. => none
  | .hide wnd => if s.closesAtOnce wnd then some wnd else none
  | .tapMask key =>
      match s.manager.mMaskBgs key with
      | some b => if b.wnd.getClickBlankClose && s.closesAtOnce b.wnd then some b.wnd else none
      | none => none
  | .onKeyBack order =>
      match (s.manager.findUppermostWnd order).bind fun id =>
        s.manager.mOpenedWindows.lookup id with
      | some wnd => if s.closesAtOnce wnd then some wnd else none
      | none => none
  | .animEnd wnd => if (s.node wnd.ref).anim = some .onHideEnd then some wnd else none

def afterClosing (s : World ι) : Option (GameWindow ι) → World ι
  | some w => s.setManager (s.manager.closed s.scene w)
  | none => s

end World

def destroyedBy (closing : Option (GameWindow ι)) : Nat → Prop :=
  fun ref => ∃ w, closing = some w ∧ w.destroyed ref

theorem hide_closing (s : World ι) (w : GameWindow ι) :
    SameButNodes (destroyedBy (if s.closesAtOnce w then some w else none))
      (s.afterClosing (if s.closesAtOnce w then some w else none)) (w.hide s).world := by
  have h := hide_sameButNodes s w
  cases hclose : s.closesAtOnce w with
  | true =>
      rw [hclose] at h
      exact h.mono fun ref hdies => ⟨w, rfl, hdies.2⟩
  | false =>
      rw [hclose] at h
      exact h.mono fun ref hdies => absurd hdies.1 Bool.false_ne_true

theorem stepWindow_closing (WindowConfig : ι → Option Config) {s t : World ι} {e : WindowEvent ι}
    (hshow : ∀ parentNode id style order, e ≠ .showWindow parentNode id style order)
    (hstep : stepWindow WindowConfig s e = some t) :
    SameButNodes (destroyedBy (s.closing e)) (s.afterClosing (s.closing e)) t := by
  cases e with
  | showWindow parentNode id style order => exact absurd rfl (hshow parentNode id style order)
  | hide wnd =>
      simp only [stepWindow, Option.ite_none_right_eq_some, Option.some.injEq] at hstep
      obtain ⟨_, rfl⟩ := hstep
      exact hide_closing s wnd
  | tapMask key =>
      simp only [stepWindow] at hstep
      cases hmask : s.manager.mMaskBgs key with
      | none => simp [hmask] at hstep
      | some b =>
          simp only [hmask, Option.ite_none_right_eq_some, Option.some.injEq] at hstep
          obtain ⟨_, rfl⟩ := hstep
          unfold World.tapMask
          by_cases hblank : b.wnd.getClickBlankClose = true
          · rw [if_pos hblank]
            simpa only [World.closing, hmask, hblank, Bool.true_and] using hide_closing s b.wnd
          · rw [if_neg hblank]
            simp only [World.closing, hmask, (Bool.not_eq_true _).mp hblank, Bool.false_and]
            exact .refl s
  | onKeyBack order =>
      simp only [stepWindow, Option.ite_none_right_eq_some, Option.some.injEq] at hstep
      obtain ⟨_, rfl⟩ := hstep
      simp only [World.closing, World.onKeyBack]
      cases huppermost : s.manager.findUppermostWnd order with
      | none => exact .refl s
      | some id =>
          simp only [World.hideOpened, Option.bind_some]
          cases s.manager.mOpenedWindows.lookup id with
          | none => exact .refl s
          | some wnd => exact hide_closing s wnd
  | animEnd wnd =>
      simp only [stepWindow, Option.ite_none_right_eq_some, Option.map_eq_some_iff] at hstep
      obtain ⟨_, anim, hanim, rfl⟩ := hstep
      have hclear : ∀ dies : Nat → Prop, SameButNodes dies s
          (s.setNode wnd.ref { s.node wnd.ref with anim := none }) := fun _ => .setNode (.inr rfl)
      simp only [World.closing, World.animEnd]
      cases anim with
      | onShowEnd =>
          rw [hanim, if_neg (by decide)]
          exact (hclear _).trans .setAnimFlag
      | onHideEnd =>
          rw [hanim, if_pos rfl]
          have hend := onHideEnd_sameButNodes
            (s.setNode wnd.ref { s.node wnd.ref with anim := none }) wnd
          have hset : SameButNodes wnd.destroyed (s.setManager (s.manager.closed s.scene wnd))
              ((s.setNode wnd.ref { s.node wnd.ref with anim := none }).setManager
                (s.manager.closed s.scene wnd)) := .setNode (.inr rfl)
          exact (hset.trans hend).mono fun ref hdies => ⟨wnd, rfl, hdies⟩

theorem stepWindow_cases (WindowConfig : ι → Option Config) {s t : World ι} {e : WindowEvent ι}
    (hstep : stepWindow WindowConfig s e = some t) :
    (∃ parentNode id style order, e = .showWindow parentNode id style order ∧
        order.Perm s.manager.mOpenedWindows.keys ∧
        t = (s.showWindow WindowConfig parentNode id style order).world) ∨
      (∀ parentNode id style order, e ≠ .showWindow parentNode id style order) ∧
        SameButNodes (destroyedBy (s.closing e)) (s.afterClosing (s.closing e)) t := by
  by_cases hshow : ∃ parentNode id style order, e = .showWindow parentNode id style order
  · obtain ⟨parentNode, id, style, order, rfl⟩ := hshow
    simp only [stepWindow, Option.ite_none_right_eq_some, Option.some.injEq] at hstep
    exact .inl ⟨parentNode, id, style, order, rfl, hstep.1, hstep.2.symm⟩
  · have hother : ∀ parentNode id style order, e ≠ .showWindow parentNode id style order :=
      fun parentNode id style order he => hshow ⟨parentNode, id, style, order, he⟩
    exact .inr ⟨hother, stepWindow_closing WindowConfig hother hstep⟩

end Steps

section Show
variable {ι : Type} [DecidableEq ι]

namespace World

def newWindow (s : World ι) (parentNode : Nat) (id : ι) (config : Config) : GameWindow ι :=
  ⟨s.windows.length, id, config, parentNode⟩

/-- A window has been created under a node that is not destroyed. -/
def created (s : World ι) (parentNode : Nat) (id : ι) (config : Config)
    (style : Option WindowStyle) : World ι :=
  { s.setNode s.windows.length .ctor with
    style := Function.update s.style id style
    windows := s.windows ++ [s.newWindow parentNode id config]
    manager :=
      { s.manager with
        mWindows :=
          Function.update s.manager.mWindows id (some (s.newWindow parentNode id config)) } }

def ready (s : World ι) (parentNode : Nat) (id : ι) (config : Config)
    (style : Option WindowStyle) : World ι :=
  match s.manager.mWindows id with
  | some _ => s
  | none => s.created parentNode id config style

/-- The window that `showWindow` is about to show or to let wait. -/
def target (s : World ι) (parentNode : Nat) (id : ι) (config : Config) : GameWindow ι :=
  (s.manager.mWindows id).getD (s.newWindow parentNode id config)

end World

/-! ## The ways through `showWindow` -/

def Reaches (WindowConfig : ι → Option Config) (s : World ι) (parentNode : Nat) (id : ι)
    (config : Config) : Prop :=
  s.manager.mOpenedWindows.lookup id = none ∧ WindowConfig id = some config ∧
    (s.manager.mWindows id ≠ none ∨ s.scene ≤ parentNode)

section Calls
variable (WindowConfig : ι → Option Config) (s : World ι) (parentNode : Nat) {id : ι}
variable (style : Option WindowStyle) (order : List ι)

theorem showWindow_opened {w : GameWindow ι} (hopen : s.manager.mOpenedWindows.lookup id = some w) :
    s.showWindow WindowConfig parentNode id style order = ok s () := by
  rw [World.showWindow, hopen]

theorem showWindow_unconfigured (hopen : s.manager.mOpenedWindows.lookup id = none)
    (hconfig : WindowConfig id = none) :
    s.showWindow WindowConfig parentNode id style order = raise s := by
  rw [World.showWindow, hopen]
  simp only [World.createWindow, hconfig]
  cases s.manager.mWindows id <;> rfl

theorem showWindow_orphan {config : Config} (hopen : s.manager.mOpenedWindows.lookup id = none)
    (hconfig : WindowConfig id = some config) (hkept : s.manager.mWindows id = none)
    (hparent : ¬ s.scene ≤ parentNode) :
    s.showWindow WindowConfig parentNode id style order =
      raise { s with style := Function.update s.style id style } := by
  simp [World.showWindow, World.createWindow, hopen, hconfig, hkept, hparent, andThen_raise]

theorem showWindow_ready {config : Config} (hreach : Reaches WindowConfig s parentNode id config) :
    s.showWindow WindowConfig parentNode id style order =
      (s.ready parentNode id config style).showOrWait order config.level id := by
  obtain ⟨hopen, hconfig, hready⟩ := hreach
  unfold World.showWindow World.ready
  cases hkept : s.manager.mWindows id with
  | some w => simp [hopen, hconfig, andThen_ok]
  | none =>
      have hparent : s.scene ≤ parentNode := hready.resolve_left fun h => h hkept
      simp only [hopen, World.createWindow, hconfig, if_pos hparent, andThen_ok]
      rfl

theorem showWindow_idle (hreach : ∀ config, ¬ Reaches WindowConfig s parentNode id config) :
    ∃ style', (s.showWindow WindowConfig parentNode id style order).world =
      { s with style := style' } := by
  rcases Option.eq_none_or_eq_some (s.manager.mOpenedWindows.lookup id) with hopen | ⟨w, hopen⟩
  · rcases Option.eq_none_or_eq_some (WindowConfig id) with hconfig | ⟨config, hconfig⟩
    · exact ⟨s.style, by
        rw [showWindow_unconfigured WindowConfig s parentNode style order hopen hconfig]; rfl⟩
    · have hready : ¬ (s.manager.mWindows id ≠ none ∨ s.scene ≤ parentNode) :=
        fun h => hreach config ⟨hopen, hconfig, h⟩
      rw [not_or, not_not] at hready
      exact ⟨_, by
        rw [showWindow_orphan WindowConfig s parentNode style order hopen hconfig hready.1
          hready.2]
        rfl⟩
  · exact ⟨s.style, by
      rw [showWindow_opened WindowConfig s parentNode style order hopen]; rfl⟩

end Calls

section Ready
variable (s : World ι) (parentNode : Nat) (id : ι) (config : Config)
variable (style : Option WindowStyle)

@[simp] theorem ready_opened :
    (s.ready parentNode id config style).manager.mOpenedWindows = s.manager.mOpenedWindows := by
  unfold World.ready
  cases s.manager.mWindows id <;> rfl

@[simp] theorem ready_waited :
    (s.ready parentNode id config style).manager.mWaitedWindows = s.manager.mWaitedWindows := by
  unfold World.ready
  cases s.manager.mWindows id <;> rfl

@[simp] theorem ready_masks :
    (s.ready parentNode id config style).manager.mMaskBgs = s.manager.mMaskBgs := by
  unfold World.ready
  cases s.manager.mWindows id <;> rfl

@[simp] theorem ready_scene : (s.ready parentNode id config style).scene = s.scene := by
  unfold World.ready
  cases s.manager.mWindows id <;> rfl

theorem ready_kept :
    (s.ready parentNode id config style).manager.mWindows =
      Function.update s.manager.mWindows id (some (s.target parentNode id config)) := by
  unfold World.ready World.target
  cases hkept : s.manager.mWindows id with
  | some w =>
      simp only
      rw [Option.getD_some, ← hkept, Function.update_eq_self]
  | none => rfl

theorem ready_keeps :
    (s.ready parentNode id config style).manager.mWindows id =
      some (s.target parentNode id config) := by
  rw [ready_kept, Function.update_self]

end Ready

theorem mem_pairs {m : WindowManager ι} {order : List ι}
    (horder : order.Perm m.mOpenedWindows.keys) {w : GameWindow ι} :
    w ∈ m.pairs order ↔ ∃ id, m.mOpenedWindows.lookup id = some w := by
  simp only [WindowManager.pairs, List.mem_filterMap]
  constructor
  · rintro ⟨id, _, h⟩
    exact ⟨id, h⟩
  · rintro ⟨id, h⟩
    refine ⟨id, horder.mem_iff.mpr ?_, h⟩
    exact AList.mem_keys.mp (AList.lookup_isSome.mp (Option.isSome_of_eq_some h))

def WindowManager.Occupied (m : WindowManager ι) (level : Int) : Prop :=
  ∃ id w, m.mOpenedWindows.lookup id = some w ∧ w.config.level = level

theorem checkSameLevelWindow_iff {m : WindowManager ι} {order : List ι}
    (horder : order.Perm m.mOpenedWindows.keys) (level : Int) :
    m.checkSameLevelWindow order level = true ↔ m.Occupied level := by
  unfold WindowManager.checkSameLevelWindow WindowManager.Occupied
  simp only [List.any_eq_true, decide_eq_true_eq, mem_pairs horder]
  constructor
  · rintro ⟨w, ⟨id, h⟩, hlevel⟩
    exact ⟨id, w, h, hlevel⟩
  · rintro ⟨id, w, h, hlevel⟩
    exact ⟨w, ⟨id, h⟩, hlevel⟩

/-- The full-screen window that `checkIsReplace` finds open; the order decides which. -/
def WindowManager.replaced (m : WindowManager ι) (order : List ι) : Option (GameWindow ι) :=
  (m.checkIsReplace order WindowLevel.FullScreen).bind fun id => m.mOpenedWindows.lookup id

def WindowManager.Keyed (m : WindowManager ι) : Prop :=
  ∀ id w, m.mOpenedWindows.lookup id = some w → w.id = id

theorem checkIsReplace_some {m : WindowManager ι} {order : List ι}
    (horder : order.Perm m.mOpenedWindows.keys)
    (hoccupied : m.Occupied WindowLevel.FullScreen) :
    ∃ r, m.checkIsReplace order WindowLevel.FullScreen = some r.id ∧
      ∃ id, m.mOpenedWindows.lookup id = some r := by
  obtain ⟨id, w, hopen, hlevel⟩ := hoccupied
  have hfound : ((m.pairs order).find? fun wnd =>
      wnd.getLevel = WindowLevel.FullScreen).isSome = true := by
    rw [List.find?_isSome]
    exact ⟨w, (mem_pairs horder).mpr ⟨id, hopen⟩, decide_eq_true hlevel⟩
  obtain ⟨r, hr⟩ := Option.isSome_iff_exists.mp hfound
  refine ⟨r, ?_, (mem_pairs horder).mp (List.mem_of_find?_eq_some hr)⟩
  rw [WindowManager.checkIsReplace, if_pos rfl, hr]
  rfl

theorem open_of_replaced {m : WindowManager ι} {order : List ι} (hkeyed : m.Keyed)
    {r : GameWindow ι} (hreplaced : m.replaced order = some r) :
    m.mOpenedWindows.lookup r.id = some r ∧ r.config.level = WindowLevel.FullScreen := by
  obtain ⟨id, hcheck, hopen⟩ := Option.bind_eq_some_iff.mp hreplaced
  rw [WindowManager.checkIsReplace, if_pos rfl, Option.map_eq_some_iff] at hcheck
  obtain ⟨w, hw, rfl⟩ := hcheck
  obtain ⟨key, _, hkey⟩ := List.mem_filterMap.mp (List.mem_of_find?_eq_some hw)
  have hlevel := List.find?_some hw
  have hid : w.id = key := hkeyed key w hkey
  rw [← hid] at hkey
  cases Option.some.inj (hkey.symm.trans hopen)
  exact ⟨hkey, of_decide_eq_true hlevel⟩

@[simp] theorem replaced_ready (s : World ι) (parentNode : Nat) (id : ι) (config : Config)
    (style : Option WindowStyle) (order : List ι) :
    (s.ready parentNode id config style).manager.replaced order = s.manager.replaced order := by
  unfold WindowManager.replaced WindowManager.checkIsReplace WindowManager.pairs
  rw [ready_opened]

theorem doShowKept_sameButNodes {s : World ι} {id : ι} {w : GameWindow ι}
    (hkept : s.manager.mWindows id = some w) :
    SameButNodes nothing (s.setManager (s.manager.shown s.scene w)) (s.doShowKept id).world := by
  unfold World.doShowKept
  rw [hkept]
  exact doShowWindow_sameButNodes s w

section ShowOrWait
variable {s : World ι} {order : List ι} (horder : order.Perm s.manager.mOpenedWindows.keys)
variable {level : Int} (id : ι)
include horder

theorem showOrWait_free (hfree : ¬ s.manager.Occupied level) :
    s.showOrWait order level id = s.doShowKept id := by
  rw [World.showOrWait, if_neg fun h => hfree ((checkSameLevelWindow_iff horder level).mp h)]

theorem showOrWait_waits (hoccupied : s.manager.Occupied level)
    (hlevel : level ≠ WindowLevel.FullScreen) :
    s.showOrWait order level id =
      if s.manager.existWaitedWindows level id then ok s () else ok (s.enqueue level id) () := by
  rw [World.showOrWait, if_pos ((checkSameLevelWindow_iff horder level).mpr hoccupied),
    WindowManager.checkIsReplace, if_neg hlevel]

theorem showOrWait_replaces (hkeyed : s.manager.Keyed)
    (hoccupied : s.manager.Occupied WindowLevel.FullScreen) :
    ∃ r, s.manager.replaced order = some r ∧
      s.showOrWait order WindowLevel.FullScreen id =
        (r.hide s).andThen fun t => t.doShowKept id := by
  obtain ⟨r, hcheck, key, hkey⟩ := checkIsReplace_some horder hoccupied
  have hlookup : s.manager.mOpenedWindows.lookup r.id = some r := by rw [hkeyed key r hkey, hkey]
  have hsame := (checkSameLevelWindow_iff horder WindowLevel.FullScreen).mpr hoccupied
  refine ⟨r, by rw [WindowManager.replaced, hcheck]; exact hlookup, ?_⟩
  simp only [World.showOrWait, if_pos hsame, hcheck, World.hideOpened, hlookup]

end ShowOrWait

end Show

end Doudizhu.Window
