import Doudizhu.Window.Session

/-! # What each call does

A window that is shown enters one table and may create a mask; a window that closes leaves two
tables and either lets the next one of its queue in or removes the mask.  Apart from that a call
only touches nodes, and destroys one only where a window closes for good. -/

set_option autoImplicit false

namespace Doudizhu.Window

open Outcome

section Effects
variable {ι : Type}

theorem onNode_result (s : World ι) (ref : Nat) (f : NodeState → NodeState) :
    (s.onNode ref f).result = none ↔ (s.node ref).alive = false := by
  unfold World.onNode
  cases halive : (s.node ref).alive with
  | true => simp [ok]
  | false => simp [raise]

theorem andThen_result {α β : Type} (o : Outcome ι α) (k : World ι → Outcome ι β) :
    (o.andThen k).result = none ↔ o.result = none ∨ (k o.world).result = none := by
  unfold Outcome.andThen
  cases o.result with
  | none => simp [raise]
  | some a => simp

theorem andThen_of_none {α β : Type} {o : Outcome ι α} (k : World ι → Outcome ι β)
    (h : o.result = none) : (o.andThen k).world = o.world := by
  rw [Outcome.andThen, h]
  rfl

theorem andThen_of_some {α β : Type} {o : Outcome ι α} (k : World ι → Outcome ι β)
    (h : o.result ≠ none) : (o.andThen k).world = (k o.world).world := by
  unfold Outcome.andThen
  cases hresult : o.result with
  | none => exact absurd hresult h
  | some a => rfl

theorem andThen_ok_world {α β : Type} (o : Outcome ι α) (b : β) :
    (o.andThen fun s => ok s b).world = o.world := by
  unfold Outcome.andThen
  cases o.result <;> rfl

@[simp] theorem setAnimFlag_manager (s : World ι) (ref : Nat) (b : Bool) :
    (s.setAnimFlag ref b).manager = s.manager := rfl

@[simp] theorem setAnimFlag_scene (s : World ι) (ref : Nat) (b : Bool) :
    (s.setAnimFlag ref b).scene = s.scene := rfl

@[simp] theorem setAnimFlag_alive (s : World ι) (ref : Nat) (b : Bool) :
    ((s.setAnimFlag ref b).node ref).alive = (s.node ref).alive := by
  simp [World.setAnimFlag, World.setNode]

@[simp] theorem setAnimFlag_setManager (s : World ι) (ref : Nat) (b : Bool)
    (m : WindowManager ι) :
    (s.setAnimFlag ref b).setManager m = (s.setManager m).setAnimFlag ref b := rfl

/-- `t` differs from `s` in nodes only, and none but those in `dies` may have been destroyed. -/
structure SameButNodes (dies : Nat → Prop) (s t : World ι) : Prop where
  manager : t.manager = s.manager
  windows : t.windows = s.windows
  style : t.style = s.style
  scene : t.scene = s.scene
  alive : ∀ ref, ¬ dies ref → (t.node ref).alive = (s.node ref).alive

namespace SameButNodes
variable {dies : Nat → Prop} {s t u : World ι}

theorem refl (s : World ι) : SameButNodes dies s s := ⟨rfl, rfl, rfl, rfl, fun _ _ => rfl⟩

theorem trans (h : SameButNodes dies s t) (h' : SameButNodes dies t u) :
    SameButNodes dies s u :=
  ⟨h'.manager.trans h.manager, h'.windows.trans h.windows, h'.style.trans h.style,
    h'.scene.trans h.scene, fun ref hdies => (h'.alive ref hdies).trans (h.alive ref hdies)⟩

theorem mono {more : Nat → Prop} (h : SameButNodes dies s t)
    (himp : ∀ ref, dies ref → more ref) : SameButNodes more s t :=
  ⟨h.manager, h.windows, h.style, h.scene,
    fun ref hmore => h.alive ref fun hdies => hmore (himp ref hdies)⟩

theorem setNode {ref : Nat} {n : NodeState} (h : dies ref ∨ n.alive = (s.node ref).alive) :
    SameButNodes dies s (s.setNode ref n) := by
  refine ⟨rfl, rfl, rfl, rfl, fun r hr => ?_⟩
  change (Function.update s.node ref n r).alive = _
  by_cases heq : r = ref
  · subst heq
    rw [Function.update_self]
    exact h.resolve_left hr
  · rw [Function.update_of_ne heq]

theorem setAnimFlag {ref : Nat} {b : Bool} : SameButNodes dies s (s.setAnimFlag ref b) :=
  setNode (.inr rfl)

theorem onNode {ref : Nat} {f : NodeState → NodeState}
    (h : dies ref ∨ (f (s.node ref)).alive = (s.node ref).alive) :
    SameButNodes dies s (s.onNode ref f).world := by
  unfold World.onNode
  by_cases halive : (s.node ref).alive = true
  · rw [if_pos halive]
    exact setNode h
  · rw [if_neg halive]
    exact refl s

theorem andThen {α β : Type} {o : Outcome ι α} {k : World ι → Outcome ι β}
    (h : SameButNodes dies s o.world)
    (hk : ∀ t, SameButNodes dies s t → SameButNodes dies s (k t).world) :
    SameButNodes dies s (o.andThen k).world := by
  unfold Outcome.andThen
  cases o.result with
  | none => exact h
  | some a => exact hk o.world h

end SameButNodes

variable [DecidableEq ι]

namespace WindowManager

def shown (m : WindowManager ι) (scene : Nat) (wnd : GameWindow ι) : WindowManager ι :=
  { m with
    mOpenedWindows := m.mOpenedWindows.insert wnd.id wnd
    mMaskBgs :=
      if m.mMaskBgs (wnd.config.level - 1) = none ∧ scene ≤ wnd.parentNode then
        Function.update m.mMaskBgs (wnd.config.level - 1) (some ⟨wnd, true⟩)
      else m.mMaskBgs }

def forgotten (m : WindowManager ι) (wnd : GameWindow ι) : WindowManager ι :=
  { m with
    mOpenedWindows := m.mOpenedWindows.erase wnd.id
    mWindows :=
      if wnd.config.destroyImmediate then Function.update m.mWindows wnd.id none else m.mWindows }

def waiting (m : WindowManager ι) (level : Int) (waited : List (GameWindow ι)) :
    WindowManager ι :=
  { m with mWaitedWindows := Function.update m.mWaitedWindows level waited }

def unmasked (m : WindowManager ι) (level : Int) : WindowManager ι :=
  if (m.mMaskBgs (level - 1)).all MaskBg.alive then
    { m with mMaskBgs := Function.update m.mMaskBgs (level - 1) none }
  else m

def closed (m : WindowManager ι) (scene : Nat) (wnd : GameWindow ι) : WindowManager ι :=
  match m.mWaitedWindows wnd.config.level with
  | next :: waited => ((m.forgotten wnd).waiting wnd.config.level waited).shown scene next
  | [] => (m.forgotten wnd).unmasked wnd.config.level

end WindowManager

/-! The tables after `forgotten`, `shown` and `unmasked`. -/

theorem lookup_forgotten (m : WindowManager ι) (w : GameWindow ι) (id : ι) :
    (m.forgotten w).mOpenedWindows.lookup id =
      if id = w.id then none else m.mOpenedWindows.lookup id := by
  by_cases hid : id = w.id
  · rw [if_pos hid, hid]
    exact AList.lookup_erase w.id m.mOpenedWindows
  · rw [if_neg hid]
    exact AList.lookup_erase_ne hid

theorem kept_forgotten (m : WindowManager ι) (w : GameWindow ι) (id : ι) :
    (m.forgotten w).mWindows id =
      if w.config.destroyImmediate = true ∧ id = w.id then none else m.mWindows id := by
  unfold WindowManager.forgotten
  by_cases hdestroy : w.config.destroyImmediate = true
  · by_cases hid : id = w.id
    · simp [hdestroy, hid]
    · simp [hdestroy, hid]
  · simp [hdestroy]

theorem lookup_shown (m : WindowManager ι) (scene : Nat) (w : GameWindow ι) (id : ι) :
    (m.shown scene w).mOpenedWindows.lookup id =
      if id = w.id then some w else m.mOpenedWindows.lookup id := by
  by_cases hid : id = w.id
  · rw [if_pos hid, hid]
    exact AList.lookup_insert m.mOpenedWindows
  · rw [if_neg hid]
    exact AList.lookup_insert_ne hid

theorem mask_shown (m : WindowManager ι) (scene : Nat) (w : GameWindow ι) (key : Int) :
    (m.shown scene w).mMaskBgs key =
      if key = w.config.level - 1 ∧ m.mMaskBgs key = none ∧ scene ≤ w.parentNode then
        some ⟨w, true⟩
      else m.mMaskBgs key := by
  unfold WindowManager.shown
  by_cases hkey : key = w.config.level - 1
  · subst hkey
    by_cases hnew : m.mMaskBgs (w.config.level - 1) = none ∧ scene ≤ w.parentNode
    · simp [hnew]
    · simp [hnew]
  · by_cases hnew : m.mMaskBgs (w.config.level - 1) = none ∧ scene ≤ w.parentNode
    · simp [hnew, hkey]
    · simp [hnew, hkey]

omit [DecidableEq ι] in
theorem mask_unmasked (m : WindowManager ι) (level key : Int) :
    (m.unmasked level).mMaskBgs key =
      if key = level - 1 ∧ (m.mMaskBgs key).all MaskBg.alive = true then none
      else m.mMaskBgs key := by
  unfold WindowManager.unmasked
  by_cases hkey : key = level - 1
  · subst hkey
    by_cases halive : (m.mMaskBgs (level - 1)).all MaskBg.alive = true
    · simp [halive]
    · simp [halive]
  · by_cases halive : (m.mMaskBgs (level - 1)).all MaskBg.alive = true
    · simp [halive, hkey]
    · simp [halive, hkey]

theorem lookup_unmasked (m : WindowManager ι) (level : Int) (id : ι) :
    (m.unmasked level).mOpenedWindows.lookup id = m.mOpenedWindows.lookup id := by
  unfold WindowManager.unmasked
  split <;> rfl

omit [DecidableEq ι] in
theorem waited_unmasked (m : WindowManager ι) (level : Int) :
    (m.unmasked level).mWaitedWindows = m.mWaitedWindows := by
  unfold WindowManager.unmasked
  split <;> rfl

omit [DecidableEq ι] in
theorem kept_unmasked (m : WindowManager ι) (level : Int) :
    (m.unmasked level).mWindows = m.mWindows := by
  unfold WindowManager.unmasked
  split <;> rfl

theorem closed_of_cons (m : WindowManager ι) (scene : Nat) {w next : GameWindow ι}
    {waited : List (GameWindow ι)} (hqueue : m.mWaitedWindows w.config.level = next :: waited) :
    m.closed scene w = ((m.forgotten w).waiting w.config.level waited).shown scene next := by
  rw [WindowManager.closed, hqueue]

theorem closed_of_nil (m : WindowManager ι) (scene : Nat) {w : GameWindow ι}
    (hqueue : m.mWaitedWindows w.config.level = []) :
    m.closed scene w = (m.forgotten w).unmasked w.config.level := by
  rw [WindowManager.closed, hqueue]

theorem lookup_closed (m : WindowManager ι) (scene : Nat) (w : GameWindow ι) (id : ι) :
    (m.closed scene w).mOpenedWindows.lookup id =
      match (m.mWaitedWindows w.config.level).head? with
      | some next => if id = next.id then some next
          else if id = w.id then none else m.mOpenedWindows.lookup id
      | none => if id = w.id then none else m.mOpenedWindows.lookup id := by
  cases hqueue : m.mWaitedWindows w.config.level with
  | nil =>
      rw [closed_of_nil m scene hqueue, lookup_unmasked, lookup_forgotten]
      rfl
  | cons next waited =>
      rw [closed_of_cons m scene hqueue, lookup_shown]
      exact if_congr Iff.rfl rfl (lookup_forgotten m w id)

theorem kept_closed (m : WindowManager ι) (scene : Nat) (w : GameWindow ι) :
    (m.closed scene w).mWindows = (m.forgotten w).mWindows := by
  cases hqueue : m.mWaitedWindows w.config.level with
  | nil => rw [closed_of_nil m scene hqueue, kept_unmasked]
  | cons next waited => rw [closed_of_cons m scene hqueue]; rfl

theorem waited_closed (m : WindowManager ι) (scene : Nat) (w : GameWindow ι) :
    (m.closed scene w).mWaitedWindows =
      Function.update m.mWaitedWindows w.config.level
        (m.mWaitedWindows w.config.level).tail := by
  cases hqueue : m.mWaitedWindows w.config.level with
  | nil =>
      rw [closed_of_nil m scene hqueue, waited_unmasked, List.tail_nil, ← hqueue,
        Function.update_eq_self]
      rfl
  | cons next waited => rw [closed_of_cons m scene hqueue]; rfl

abbrev nothing : Nat → Prop := fun _ => False

abbrev GameWindow.destroyed (w : GameWindow ι) : Nat → Prop :=
  fun ref => ref = w.ref ∧ w.config.destroyImmediate = true

omit [DecidableEq ι] in
theorem show_sameButNodes (s : World ι) (w : GameWindow ι) :
    SameButNodes nothing s (w.show s).world := by
  unfold GameWindow.show
  by_cases hflag : (s.node w.ref).animFlag = true
  · rw [if_pos hflag]
    exact .refl s
  · rw [if_neg hflag]
    apply SameButNodes.andThen
    · exact SameButNodes.setAnimFlag.trans (.onNode (.inr rfl))
    · intro t ht
      cases t.styleOf w with
      | normal => exact ht.trans .setAnimFlag
      | popu => exact ht.trans (.onNode (.inr rfl))
      | unknown => exact ht

theorem showMaskBg_world (s : World ι) (wnd : GameWindow ι) :
    ((s.setManager
      { s.manager with mOpenedWindows := s.manager.mOpenedWindows.insert wnd.id wnd }).showMaskBg
        wnd).world = s.setManager (s.manager.shown s.scene wnd) := by
  unfold World.showMaskBg WindowManager.shown
  cases hmask : s.manager.mMaskBgs (wnd.config.level - 1) with
  | some maskBg => simp [World.setManager, GameWindow.getLevel, hmask, ok]
  | none =>
      by_cases hparent : s.scene ≤ wnd.parentNode
      · simp [World.setManager, GameWindow.getLevel, GameWindow.getParentNode, hmask, hparent, ok]
      · simp [World.setManager, GameWindow.getLevel, GameWindow.getParentNode, hmask, hparent,
          raise]

theorem doShowWindow_sameButNodes (s : World ι) (wnd : GameWindow ι) :
    SameButNodes nothing (s.setManager (s.manager.shown s.scene wnd))
      (s.doShowWindow wnd).world := by
  unfold World.doShowWindow
  apply SameButNodes.andThen
  · rw [← showMaskBg_world]
    exact .refl _
  · intro t ht
    cases t.manager.mWindows wnd.getId with
    | none => exact ht
    | some w => exact ht.trans (show_sameButNodes t w)

theorem closeWindow_forgets (s : World ι) (w : GameWindow ι) :
    s.closeWindow w.id w.config.destroyImmediate w.config.level =
      (s.setManager (s.manager.forgotten w)).checkWaitedWindows w.config.level := by
  unfold World.closeWindow WindowManager.forgotten
  cases w.config.destroyImmediate <;> rfl

theorem checkWaitedWindows_of_cons (s : World ι) {level : Int} {next : GameWindow ι}
    {waited : List (GameWindow ι)} (hqueue : s.manager.mWaitedWindows level = next :: waited) :
    s.checkWaitedWindows level = (s.setManager (s.manager.waiting level waited)).doShowWindow
      next := by
  simp only [World.checkWaitedWindows, hqueue]
  rfl

/-- With nobody waiting the only thing that can fail is the removal of the mask. -/
theorem checkWaitedWindows_of_nil (s : World ι) {level : Int}
    (hqueue : s.manager.mWaitedWindows level = []) :
    s.checkWaitedWindows level =
      if (s.manager.mMaskBgs (level - 1)).all MaskBg.alive then
        ok (s.setManager (s.manager.unmasked level)) ()
      else raise (s.setManager (s.manager.unmasked level)) := by
  simp only [World.checkWaitedWindows, hqueue]
  rcases Option.eq_none_or_eq_some (s.manager.mMaskBgs (level - 1)) with hnone | ⟨b, hb⟩
  · have hsame : Function.update s.manager.mMaskBgs (level - 1) none = s.manager.mMaskBgs := by
      rw [← hnone, Function.update_eq_self]
    simp [hnone, WindowManager.unmasked, hsame, World.setManager]
  · cases halive : b.alive with
    | true => simp [hb, halive, WindowManager.unmasked]
    | false => simp [hb, halive, WindowManager.unmasked, World.setManager]

theorem closeWindow_of_nil (s : World ι) (w : GameWindow ι)
    (hqueue : s.manager.mWaitedWindows w.config.level = []) :
    s.closeWindow w.id w.config.destroyImmediate w.config.level =
      if (s.manager.mMaskBgs (w.config.level - 1)).all MaskBg.alive then
        ok (s.setManager (s.manager.closed s.scene w)) ()
      else raise (s.setManager (s.manager.closed s.scene w)) := by
  rw [closeWindow_forgets, closed_of_nil s.manager s.scene hqueue]
  exact checkWaitedWindows_of_nil (s.setManager (s.manager.forgotten w)) hqueue

theorem closeWindow_sameButNodes (s : World ι) (w : GameWindow ι) :
    SameButNodes nothing (s.setManager (s.manager.closed s.scene w))
      (s.closeWindow w.id w.config.destroyImmediate w.config.level).world := by
  cases hqueue : s.manager.mWaitedWindows w.config.level with
  | cons next waited =>
      rw [closeWindow_forgets, closed_of_cons s.manager s.scene hqueue,
        checkWaitedWindows_of_cons (s.setManager (s.manager.forgotten w)) hqueue]
      exact doShowWindow_sameButNodes
        (s.setManager ((s.manager.forgotten w).waiting w.config.level waited)) next
  | nil =>
      rw [closeWindow_of_nil s w hqueue]
      split
      · exact .refl _
      · exact .refl _

theorem onHideEnd_sameButNodes (s : World ι) (w : GameWindow ι) :
    SameButNodes w.destroyed (s.setManager (s.manager.closed s.scene w))
      (w.onHideEnd s).world := by
  unfold GameWindow.onHideEnd
  apply ((closeWindow_sameButNodes s w).mono fun _ h => h.elim).andThen
  intro t ht
  refine ht.trans (SameButNodes.setAnimFlag.trans (.onNode ?_))
  cases hdestroy : w.config.destroyImmediate with
  | true => exact .inl ⟨rfl, hdestroy⟩
  | false => exact .inr rfl

end Effects

section Hide
variable {ι : Type} [DecidableEq ι]

namespace World

/-- `hide` dispatches `CLOSE_WINDOW` before it returns. -/
def closesAtOnce (s : World ι) (w : GameWindow ι) : Bool :=
  !(s.node w.ref).animFlag && s.styleOf w = .normal

/-- `hide` leaves `w` where it is: it refuses, or starts an animation, or knows no such style. -/
def staysOpen (s : World ι) (w : GameWindow ι) : Bool :=
  (s.node w.ref).animFlag || match s.styleOf w with
    | .normal => false
    | .popu => (s.node w.ref).alive
    | .unknown => true

/-- `hide` raises, with nobody waiting at the level of `w`. -/
def hideRaises (s : World ι) (w : GameWindow ι) : Bool :=
  !(s.node w.ref).animFlag && match s.styleOf w with
    | .normal => !((s.manager.mMaskBgs (w.config.level - 1)).all MaskBg.alive &&
        (s.node w.ref).alive)
    | .popu => !(s.node w.ref).alive
    | .unknown => false

end World

theorem hide_sameButNodes (s : World ι) (w : GameWindow ι) :
    SameButNodes (fun ref => s.closesAtOnce w = true ∧ w.destroyed ref)
      (if s.closesAtOnce w then s.setManager (s.manager.closed s.scene w) else s)
      (w.hide s).world := by
  unfold GameWindow.hide World.closesAtOnce
  cases hflag : (s.node w.ref).animFlag with
  | true => exact .refl s
  | false =>
      have hstyle : (s.setAnimFlag w.ref true).styleOf w = s.styleOf w := rfl
      simp only [hstyle, Bool.false_eq_true, if_false, andThen_ok_world]
      cases hcase : s.styleOf w with
      | normal =>
          have hend := onHideEnd_sameButNodes (s.setAnimFlag w.ref true) w
          rw [setAnimFlag_manager, setAnimFlag_scene, setAnimFlag_setManager] at hend
          exact (SameButNodes.setAnimFlag.trans hend).mono fun _ h => ⟨rfl, h⟩
      | popu => exact SameButNodes.setAnimFlag.trans (.onNode (.inr rfl))
      | unknown => exact SameButNodes.setAnimFlag

/-- The tables of open and of kept windows after `hide`, with nobody waiting. -/
theorem hide_tables (s : World ι) (w : GameWindow ι)
    (hqueue : s.manager.mWaitedWindows w.config.level = []) (id : ι) :
    (w.hide s).world.manager.mOpenedWindows.lookup id =
        (if s.closesAtOnce w = true ∧ id = w.id then none
          else s.manager.mOpenedWindows.lookup id) ∧
      (id ≠ w.id → (w.hide s).world.manager.mWindows id = s.manager.mWindows id) := by
  have hsame := hide_sameButNodes s w
  by_cases hclose : s.closesAtOnce w = true
  · rw [if_pos hclose] at hsame
    rw [hsame.manager]
    change (s.manager.closed s.scene w).mOpenedWindows.lookup id = _ ∧
      (_ → (s.manager.closed s.scene w).mWindows id = _)
    rw [closed_of_nil s.manager s.scene hqueue, lookup_unmasked, kept_unmasked,
      lookup_forgotten]
    refine ⟨if_congr (by simp [hclose]) rfl rfl, fun hid => ?_⟩
    rw [kept_forgotten, if_neg fun hand => hid hand.2]
  · rw [if_neg hclose] at hsame
    rw [hsame.manager, if_neg fun h => hclose h.1]
    exact ⟨rfl, fun _ => rfl⟩

theorem onHideEnd_result (s : World ι) (w : GameWindow ι)
    (hqueue : s.manager.mWaitedWindows w.config.level = []) :
    (w.onHideEnd s).result = none ↔
      (s.manager.mMaskBgs (w.config.level - 1)).all MaskBg.alive = false ∨
        (s.node w.ref).alive = false := by
  rw [GameWindow.onHideEnd, andThen_result, closeWindow_of_nil s w hqueue, onNode_result]
  cases hmask : (s.manager.mMaskBgs (w.config.level - 1)).all MaskBg.alive with
  | true => simp [ok, World.setManager]
  | false => simp [raise]

theorem hide_result (s : World ι) (w : GameWindow ι)
    (hqueue : s.manager.mWaitedWindows w.config.level = []) :
    (w.hide s).result = none ↔ s.hideRaises w = true := by
  unfold GameWindow.hide World.hideRaises
  cases hflag : (s.node w.ref).animFlag with
  | true => simp [ok]
  | false =>
      have hstyle : (s.setAnimFlag w.ref true).styleOf w = s.styleOf w := rfl
      simp only [hstyle]
      cases hcase : s.styleOf w with
      | normal =>
          have hend := onHideEnd_result (s.setAnimFlag w.ref true) w hqueue
          simp [andThen_result, hend, ok]
      | popu => simp [andThen_result, onNode_result, ok]
      | unknown => simp [andThen_result, ok]

theorem hide_quiet (s : World ι) (w : GameWindow ι)
    (hqueue : s.manager.mWaitedWindows w.config.level = []) (hquiet : s.hideRaises w = false) :
    (w.hide s).result ≠ none := by
  intro hnone
  rw [(hide_result s w hqueue).mp hnone] at hquiet
  exact absurd hquiet.symm Bool.false_ne_true

end Hide

end Doudizhu.Window
