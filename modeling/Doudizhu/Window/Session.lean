import Doudizhu.Window.WindowManager
import Doudizhu.Lib.Runs

/-! # The events of a client session

The game calls `showWindow`, and `hide` on any window it has been given; the player taps a mask
or presses the back key; an animation ends; `SceneManager:enterScene` replaces the scene.  The
replaced scene takes all its child nodes with it, and nothing of the manager is cleared.  An error
ends the call that raised it and the session goes on. -/

set_option autoImplicit false

namespace Doudizhu.Window

inductive WindowEvent (ι : Type) where
  | showWindow (parentNode : Nat) (id : ι) (style : Option WindowStyle) (order : List ι)
  | hide (wnd : GameWindow ι)
  | tapMask (key : Int)
  | onKeyBack (order : List ι)
  | animEnd (wnd : GameWindow ι)

inductive Event (ι : Type) where
  | window (e : WindowEvent ι)
  | enterScene

section Session
variable {ι : Type} [DecidableEq ι]

namespace World

def enterScene (s : World ι) : World ι :=
  { s with
    manager :=
      { s.manager with
        mMaskBgs := fun key => (s.manager.mMaskBgs key).map fun b =>
          { b with alive := b.alive && s.scene < b.wnd.parentNode } }
    node := fun ref =>
      if (s.windows[ref]?).any fun w => w.parentNode ≤ s.scene then
        { s.node ref with alive := false, anim := none }
      else s.node ref
    scene := s.scene + 1 }

/-- The touch handler of `showMaskBg`. -/
def tapMask (s : World ι) (maskBg : MaskBg ι) : World ι :=
  if maskBg.wnd.getClickBlankClose then (maskBg.wnd.hide s).world else s

/-- `onComplete` of the animation. -/
def animEnd (s : World ι) (wnd : GameWindow ι) (anim : Anim) : World ι :=
  let s := s.setNode wnd.ref { s.node wnd.ref with anim := none }
  match anim with
  | .onShowEnd => wnd.onShowEnd s
  | .onHideEnd => (wnd.onHideEnd s).world

def start : World ι where
  manager := ⟨fun _ => none, ∅, fun _ => [], fun _ => none⟩
  windows := []
  node := fun _ => .ctor
  style := fun _ => none
  scene := 0

end World

variable (WindowConfig : ι → Option Config)

def stepWindow (s : World ι) : WindowEvent ι → Option (World ι)
  | .showWindow parentNode id style order =>
      if order.Perm s.manager.mOpenedWindows.keys then
        some (s.showWindow WindowConfig parentNode id style order).world
      else none
  | .hide wnd => if wnd ∈ s.windows then some (wnd.hide s).world else none
  | .tapMask key =>
      match s.manager.mMaskBgs key with
      | some maskBg => if maskBg.alive then some (s.tapMask maskBg) else none
      | none => none
  | .onKeyBack order =>
      if order.Perm s.manager.mOpenedWindows.keys then some (s.onKeyBack order).world else none
  | .animEnd wnd =>
      if wnd ∈ s.windows ∧ (s.node wnd.ref).alive then
        (s.node wnd.ref).anim.map fun anim => s.animEnd wnd anim
      else none

def step (s : World ι) : Event ι → Option (World ι)
  | .window e => stepWindow WindowConfig s e
  | .enterScene => some s.enterScene

end Session

/-- A table of two ids with equal configurations. -/
def twoAlike (config : Config) : Bool → Option Config := fun _ => some config

/-- The window created first in such a session, for `false`. -/
def firstAlike (config : Config) : GameWindow Bool := ⟨0, false, config, 0⟩

end Doudizhu.Window
