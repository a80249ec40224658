import Doudizhu.Lib.Action

/-! # Classes and objects

`class.lua`: `new`, `super` and `delete` work on whatever tables stand for the classes, and read
them through metatables.  `Tables` lists these reads for one object, so that a class whose
metatable answers for missing keys is covered as well.  A ctor is its `Body`: it returns, raises,
or calls `super(obj, ...)` and goes on with the object that call leaves. -/

set_option autoImplicit false

namespace Doudizhu.Class

inductive Body (St Args : Type) where
  | ret (st : St)
  | raise (st : St)
  | super (st : St) (args : Args) (k : St → Body St Args)

/-- What is read of a value `c` that is not nil, and the field `currentSuper` of the object.
`index` is the `__index` of the metatable of `c`, if it has one. -/
structure Tables (St C Args : Type) where
  super : C → Action St (Option C)
  autoConstructSuper : C → Action St Bool
  ctor : C → Action St (Option (Args → St → Body St Args))
  dtor : C → Action St (Option (Action St Unit))
  index : C → Action St (Option C)
  currentSuper : St → Option C
  setCurrentSuper : Option C → St → St

section
variable {St C Args : Type}

def Body.run (super : Args → Action St Unit) : Body St Args → Completion St Unit
  | .ret st => .returned () st
  | .raise st => .raised st
  | .super st args k =>
      match super args st with
      | .returned _ st' => (k st').run super
      | .raised st' => .raised st'
      | .outOfFuel => .outOfFuel

variable (t : Tables St C Args)

/-- `if c.super and c.autoConstructSuper then create(c.super, ...) end`. -/
def constructSuper (create : Option C → Args → Action St Unit) (c : C) (args : Args) :
    Action St Unit := do
  match ← t.super c with
  | none => pure ()
  | some _ =>
      if ← t.autoConstructSuper c then
        let above ← t.super c
        create above args
      else pure ()

def super (create : Option C → Args → Action St Unit) (args : Args) : Action St Unit :=
  fun st => create (t.currentSuper st) args st

/-- `if rawget(c, "ctor") then obj.currentSuper = c.super; c.ctor(obj, ...); end`. -/
def runCtor (create : Option C → Args → Action St Unit) (c : C) (args : Args) :
    Action St Unit := do
  match ← t.ctor c with
  | none => pure ()
  | some ctor =>
      let above ← t.super c
      Action.modify (t.setCurrentSuper above)
      fun st => (ctor args st).run (super t create)

/-- The local function `create` of `new` and of `super`; an index of nil raises. -/
def create : Nat → Option C → Args → Action St Unit
  | 0, _, _ => Action.noFuel
  | _ + 1, none, _ => Action.raise
  | fuel + 1, some c, args => do
      constructSuper t (create fuel) c args
      runCtor t (create fuel) c args

/-- `new(classType, ...)` on the object that `local obj = {}` has made. -/
def new (fuel : Nat) (classType : C) (args : Args) : Action St Unit := do
  create t fuel (some classType) args
  Action.modify (t.setCurrentSuper none)

def runDtor (c : C) : Action St Unit := do
  match ← t.dtor c with
  | none => pure ()
  | some dtor => dtor

def destory : Nat → Option C → Action St Unit
  | _, none => pure ()
  | 0, some _ => Action.noFuel
  | fuel + 1, some c => do
      runDtor t c
      let c ← t.index c
      destory fuel c

def delete (fuel : Nat) (obj : C) : Action St Unit := destory t fuel (some obj)

end

end Doudizhu.Class
