import Mathlib.Data.List.AList
import Mathlib.Logic.Function.Basic

/-! # Windows and their manager

`GameWindow.lua` and `WindowManager.lua` as functions on one `World`: the manager's four tables,
the windows created so far with their nodes, and the scene on display.  A call that raises stops
there and keeps what it has changed, so a call returns an `Outcome`.  `createWindow` writes the
style into the configuration table, where every window of the id reads it.  The views that a
window's class draws (`initView`, `updateView`) neither raise nor call the manager.  `pairs`
visits a table in no fixed order, which the functions that use it take as an argument. -/

set_option autoImplicit false

namespace Doudizhu.Window

structure Config where
  level : Int
  clickBlankClose : Bool
  clickBackClose : Bool
  destroyImmediate : Bool
  deriving DecidableEq

/-- `unknown` is any value other than the two of the source. -/
inductive WindowStyle where
  | normal
  | popu
  | unknown
  deriving DecidableEq

namespace WindowLevel

def FullScreen : Int := 10

def NormalPopu : Int := 20

end WindowLevel

/-- The Lua object: `ref` tells the windows created for one id apart, `parentNode` is the scene
that the parent belongs to, scenes being numbered in the order in which they are entered. -/
structure GameWindow (ι : Type) where
  ref : Nat
  id : ι
  config : Config
  parentNode : Nat
  deriving DecidableEq

namespace GameWindow
variable {ι : Type}

def getLevel (w : GameWindow ι) : Int := w.config.level

def getId (w : GameWindow ι) : ι := w.id

def getParentNode (w : GameWindow ι) : Nat := w.parentNode

def getClickBlankClose (w : GameWindow ι) : Bool := w.config.clickBlankClose

end GameWindow

/-- The `onComplete` still to come of an animation. -/
inductive Anim where
  | onShowEnd
  | onHideEnd
  deriving DecidableEq

structure NodeState where
  animFlag : Bool
  visible : Bool
  alive : Bool
  anim : Option Anim
  deriving DecidableEq

def NodeState.ctor : NodeState := ⟨false, false, true, none⟩

/-- `wnd` is the window that the touch handler has captured. -/
structure MaskBg (ι : Type) where
  wnd : GameWindow ι
  alive : Bool
  deriving DecidableEq

/-- A mask is kept under its window's level less one. -/
structure WindowManager (ι : Type) where
  mWindows : ι → Option (GameWindow ι)
  mOpenedWindows : AList fun _ : ι => GameWindow ι
  mWaitedWindows : Int → List (GameWindow ι)
  mMaskBgs : Int → Option (MaskBg ι)

/-- The nodes of the scenes before `scene` have been destroyed. -/
structure World (ι : Type) where
  manager : WindowManager ι
  windows : List (GameWindow ι)
  node : Nat → NodeState
  style : ι → Option WindowStyle
  scene : Nat

/-- `result` is none when the call has raised. -/
structure Outcome (ι α : Type) where
  world : World ι
  result : Option α

namespace Outcome
variable {ι α β : Type}

def ok (s : World ι) (a : α) : Outcome ι α := ⟨s, some a⟩

def raise (s : World ι) : Outcome ι α := ⟨s, none⟩

def andThen (o : Outcome ι α) (k : World ι → Outcome ι β) : Outcome ι β :=
  match o.result with
  | some _ => k o.world
  | none => raise o.world

theorem andThen_ok (s : World ι) (a : α) (k : World ι → Outcome ι β) :
    (ok s a).andThen k = k s := rfl

theorem andThen_raise (s : World ι) (k : World ι → Outcome ι β) :
    (raise s : Outcome ι α).andThen k = raise s := rfl

end Outcome

open Outcome

section Functions
variable {ι : Type} [DecidableEq ι]

namespace World

def setNode (s : World ι) (ref : Nat) (n : NodeState) : World ι :=
  { s with node := Function.update s.node ref n }

/-- A call on a node that has been destroyed raises. -/
def onNode (s : World ι) (ref : Nat) (f : NodeState → NodeState) : Outcome ι Unit :=
  if (s.node ref).alive then ok (s.setNode ref (f (s.node ref))) () else raise s

def setAnimFlag (s : World ι) (ref : Nat) (b : Bool) : World ι :=
  s.setNode ref { s.node ref with animFlag := b }

def styleOf (s : World ι) (w : GameWindow ι) : WindowStyle := (s.style w.id).getD .normal

end World

/-! ## `GameWindow:show` -/

def GameWindow.onShowEnd (s : World ι) (w : GameWindow ι) : World ι := s.setAnimFlag w.ref false

def GameWindow.show (s : World ι) (w : GameWindow ι) : Outcome ι Unit :=
  if (s.node w.ref).animFlag then ok s ()
  else
    ((s.setAnimFlag w.ref true).onNode w.ref fun n => { n with visible := true }).andThen
      fun s => match s.styleOf w with
        | .normal => ok (w.onShowEnd s) ()
        | .popu => s.onNode w.ref fun n => { n with anim := some .onShowEnd }
        | .unknown => ok s ()

/-! ## Showing and closing in the manager -/

namespace World

def setManager (s : World ι) (m : WindowManager ι) : World ι := { s with manager := m }

/-- A mask that exists is kept, for whichever window it was made; a new one needs a parent. -/
def showMaskBg (s : World ι) (wnd : GameWindow ι) : Outcome ι Unit :=
  let level := wnd.getLevel
  match s.manager.mMaskBgs (level - 1) with
  | some _ => ok s ()
  | none =>
      if s.scene ≤ wnd.getParentNode then
        ok (s.setManager
          { s.manager with
            mMaskBgs := Function.update s.manager.mMaskBgs (level - 1) (some ⟨wnd, true⟩) }) ()
      else raise s

def doShowWindow (s : World ι) (wnd : GameWindow ι) : Outcome ι Unit :=
  let id := wnd.getId
  let s := s.setManager
    { s.manager with mOpenedWindows := s.manager.mOpenedWindows.insert id wnd }
  (s.showMaskBg wnd).andThen fun s => match s.manager.mWindows id with
    | some w => w.show s
    | none => raise s

def checkWaitedWindows (s : World ι) (level : Int) : Outcome ι Unit :=
  match s.manager.mWaitedWindows level with
  | wnd :: waited =>
      (s.setManager
        { s.manager with
          mWaitedWindows := Function.update s.manager.mWaitedWindows level waited }).doShowWindow
        wnd
  | [] =>
      match s.manager.mMaskBgs (level - 1) with
      | none => ok s ()
      | some maskBg =>
          if maskBg.alive then
            ok (s.setManager
              { s.manager with
                mMaskBgs := Function.update s.manager.mMaskBgs (level - 1) none }) ()
          else raise s

def closeWindow (s : World ι) (id : ι) (destroyImmediate : Bool) (level : Int) :
    Outcome ι Unit :=
  let m := { s.manager with mOpenedWindows := s.manager.mOpenedWindows.erase id }
  let m :=
    if destroyImmediate then { m with mWindows := Function.update m.mWindows id none } else m
  (s.setManager m).checkWaitedWindows level

end World

/-! ## `GameWindow:hide` -/

namespace GameWindow

def onHideEnd (s : World ι) (w : GameWindow ι) : Outcome ι Unit :=
  (s.closeWindow w.id w.config.destroyImmediate w.config.level).andThen fun s =>
    (s.setAnimFlag w.ref false).onNode w.ref fun n =>
      if w.config.destroyImmediate then { n with alive := false, anim := none }
      else { n with visible := false }

def hide (s : World ι) (w : GameWindow ι) : Outcome ι Bool :=
  if (s.node w.ref).animFlag then ok s false
  else
    let s := s.setAnimFlag w.ref true
    (match s.styleOf w with
      | .normal => w.onHideEnd s
      | .popu => s.onNode w.ref fun n => { n with anim := some .onHideEnd }
      | .unknown => ok s ()).andThen fun s => ok s true

end GameWindow

/-! ## `WindowManager:showWindow` and the back key -/

namespace WindowManager

def pairs (m : WindowManager ι) (order : List ι) : List (GameWindow ι) :=
  order.filterMap fun id => m.mOpenedWindows.lookup id

def checkSameLevelWindow (m : WindowManager ι) (order : List ι) (level : Int) : Bool :=
  (m.pairs order).any fun wnd => wnd.getLevel = level

def checkIsReplace (m : WindowManager ι) (order : List ι) (level : Int) : Option ι :=
  if level = WindowLevel.FullScreen then
    ((m.pairs order).find? fun wnd => wnd.getLevel = level).map GameWindow.getId
  else none

def existWaitedWindows (m : WindowManager ι) (level : Int) (id : ι) : Bool :=
  (m.mWaitedWindows level).any fun wnd => wnd.getId = id

def findUppermostWnd (m : WindowManager ι) (order : List ι) : Option ι :=
  ((m.pairs order).foldl
    (fun (best : Option ι × Int) wnd =>
      if wnd.getLevel > best.2 then (some wnd.getId, wnd.getLevel) else best)
    (none, -999)).1

end WindowManager

namespace World

def hideOpened (s : World ι) (id : ι) : Outcome ι Bool :=
  match s.manager.mOpenedWindows.lookup id with
  | some wnd => wnd.hide s
  | none => raise s

def onKeyBack (s : World ι) (order : List ι) : Outcome ι Bool :=
  match s.manager.findUppermostWnd order with
  | some wndId => s.hideOpened wndId
  | none => ok s false

variable (WindowConfig : ι → Option Config)

/-- The new window goes under its parent, which must not have been destroyed. -/
def createWindow (s : World ι) (parentNode : Nat) (id : ι) (style : Option WindowStyle) :
    Outcome ι Unit :=
  match WindowConfig id with
  | none => ok s ()
  | some config =>
      let s := { s with style := Function.update s.style id style }
      if s.scene ≤ parentNode then
        let window : GameWindow ι := ⟨s.windows.length, id, config, parentNode⟩
        ok { s.setNode window.ref .ctor with
          windows := s.windows ++ [window]
          manager :=
            { s.manager with mWindows := Function.update s.manager.mWindows id (some window) } } ()
      else raise s

/-- `self:doShowWindow(self.mWindows[id])`; the index is nil only in error. -/
def doShowKept (s : World ι) (id : ι) : Outcome ι Unit :=
  match s.manager.mWindows id with
  | some wnd => s.doShowWindow wnd
  | none => raise s

/-- `table.insert(self.mWaitedWindows[level], self.mWindows[id])` -/
def enqueue (s : World ι) (level : Int) (id : ι) : World ι :=
  s.setManager
    { s.manager with
      mWaitedWindows := Function.update s.manager.mWaitedWindows level
        (s.manager.mWaitedWindows level ++ (s.manager.mWindows id).toList) }

/-- What `showWindow` does once it has made sure of `mWindows[id]`. -/
def showOrWait (s : World ι) (order : List ι) (level : Int) (id : ι) : Outcome ι Unit :=
  if s.manager.checkSameLevelWindow order level then
    match s.manager.checkIsReplace order level with
    | none =>
        if s.manager.existWaitedWindows level id then ok s () else ok (s.enqueue level id) ()
    | some needCloseWndId => (s.hideOpened needCloseWndId).andThen fun s => s.doShowKept id
  else s.doShowKept id

def showWindow (s : World ι) (parentNode : Nat) (id : ι) (style : Option WindowStyle)
    (order : List ι) : Outcome ι Unit :=
  match s.manager.mOpenedWindows.lookup id with
  | some _ => ok s ()
  | none =>
      (match s.manager.mWindows id with
        | none => s.createWindow WindowConfig parentNode id style
        | some _ => ok s ()).andThen fun s =>
          match WindowConfig id with
          | some config => s.showOrWait order config.level id
          | none => raise s

end World

end Functions

end Doudizhu.Window
