import Doudizhu.Utils.Class
import Doudizhu.UserService.Redis
import Mathlib.Data.List.AList

/-! # The managers of redis clients in one Lua state

`redisClientsMgr.lua` with the functions of `class.lua` it is used through.  The table
`redisClientsMgr` is shared by all managers: once a ctor has run, its metatable answers for every
missing key with a new method of that name and stores it.  `new` and `delete` read this table as
well.

What the services answer and the order of `pairs` are parameters.  A manager is designated by its
number in the order of creation; a method call looks its name up in the object first and in the
class table then. -/

set_option autoImplicit false

namespace Doudizhu.RedisClients

open Lua Doudizhu.Class
open UserService (RedisCall)

/-- A value that `class.lua` comes across: the class table, an object, or a function made by the
metatable. -/
inductive Item where
  | redisClientsMgr
  | object (m : Nat)
  | function
  deriving DecidableEq

structure Manager where
  m_map : AList fun _ : String => Nat
  m_delegate : Option String
  currentSuper : Option Item

/-- `made` are the keys stored by the metatable, `sent` all calls of services so far. -/
structure LuaState (φ : Type) where
  made : List String
  catchAll : Bool
  managers : List Manager
  services : Nat
  sent : List (RedisCall φ)

/-- The answer to the last of the calls, and the order in which `pairs` visits keys. -/
structure Env (φ : Type) where
  answer : List (RedisCall φ) → Value φ
  pairs : List String → List String
  perm : ∀ keys, (pairs keys).Perm keys

/-- The fields of the class table that can be called or read. -/
inductive Field where
  | autoConstructSuper
  | setDelegate
  | ctor
  | dtor
  | addRedisClient
  | delRedisClient
  | command (cmd : String)
  deriving DecidableEq

/-- What a method call finds: a value that is not a function, or a field of the class table. -/
inductive Member where
  | value
  | field (f : Field)

inductive Result (φ : Type) where
  | nothing
  | object (m : Nat)
  | value (v : Value φ)

section Model
variable {φ : Type}

def LuaState.empty : LuaState φ := ⟨[], false, [], 0, []⟩

def declared (key : String) : Option Field :=
  if key = "autoConstructSuper" then some .autoConstructSuper
  else if key = "setDelegate" then some .setDelegate
  else if key = "ctor" then some .ctor
  else if key = "dtor" then some .dtor
  else if key = "addRedisClient" then some .addRedisClient
  else if key = "delRedisClient" then some .delRedisClient
  else none

def indexClass (key : String) : Action (LuaState φ) (Option Field) := fun st =>
  match declared key with
  | some f => .returned (some f) st
  | none =>
      if key ∈ st.made then .returned (some (.command key)) st
      else if st.catchAll then
        .returned (some (.command key)) { st with made := key :: st.made }
      else .returned none st

/-- The fields of the object `m` itself, then those of its class. -/
def indexObject (m : Nat) (key : String) : Action (LuaState φ) (Option Member) := fun st =>
  match st.managers[m]? with
  | none => .raised st
  | some mgr =>
      if key = "m_map" then .returned (some .value) st
      else if key = "m_delegate" ∧ mgr.m_delegate.isSome then .returned (some .value) st
      else if key = "currentSuper" ∧ mgr.currentSuper.isSome then .returned (some .value) st
      else (do
        let found ← indexClass key
        return found.map Member.field) st

def manager (m : Nat) : Action (LuaState φ) Manager := fun st =>
  match st.managers[m]? with
  | none => .raised st
  | some mgr => .returned mgr st

def setManager (m : Nat) (f : Manager → Manager) : Action (LuaState φ) Unit :=
  Action.modify fun st => { st with managers := st.managers.modify m f }

variable (env : Env φ)

def skynetCall (rc : Nat) (cmd : String) (args : List (Value φ)) :
    Action (LuaState φ) (Value φ) := fun st =>
  let sent := st.sent ++ [⟨rc, cmd, args⟩]
  .returned (env.answer sent) { st with sent := sent }

def newservice : Action (LuaState φ) Nat := fun st =>
  .returned (st.services + 1) { st with services := st.services + 1 }

def addRedisClient (m : Nat) (name : String) (cfg : Value φ) :
    Action (LuaState φ) (Value φ) := do
  let rc ← newservice
  let succ ← skynetCall env rc "start" [cfg]
  setManager m fun mgr => { mgr with m_map := mgr.m_map.insert name rc }
  return succ

def delRedisClient (m : Nat) (name : String) : Action (LuaState φ) (Value φ) := do
  let mgr ← manager m
  match mgr.m_map.lookup name with
  | none => return .boolean false
  | some rc =>
      let result ← skynetCall env rc "disconnect" []
      if truthy result then
        setManager m fun mgr => { mgr with m_map := mgr.m_map.erase name }
      return result

def command (m : Nat) (cmd name : String) (args : List (Value φ)) :
    Action (LuaState φ) (Value φ) := do
  let mgr ← manager m
  match mgr.m_map.lookup name with
  | none => return .boolean false
  | some rc => skynetCall env rc cmd args

def ctor (m : Nat) (st : LuaState φ) : LuaState φ :=
  { st with
    managers := st.managers.modify m fun mgr => { mgr with m_map := ∅ }
    catchAll := true }

def delAll (m : Nat) : List String → Action (LuaState φ) Unit
  | [] => pure ()
  | name :: names => do
      let _ ← delRedisClient env m name
      delAll m names

def dtor (m : Nat) : Action (LuaState φ) Unit := do
  let mgr ← manager m
  delAll env m (env.pairs mgr.m_map.keys)

/-- The class tables for the object `m`: `rawget` and an index of a function raise. -/
def tables (m : Nat) : Tables (LuaState φ) Item Unit where
  super
    | .function => Action.raise
    | _ => do
        let found ← indexClass "super"
        return found.map fun _ => .function
  autoConstructSuper
    | .function => Action.raise
    | _ => do
        let found ← indexClass "autoConstructSuper"
        return found.isSome
  ctor
    | .redisClientsMgr => pure (some fun _ st => .ret (ctor m st))
    | .object _ => pure none
    | .function => Action.raise
  dtor
    | .redisClientsMgr => pure (some (dtor env m))
    | .object _ => pure none
    | .function => Action.raise
  index
    | .redisClientsMgr => fun st => .returned (if st.catchAll then some .function else none) st
    | .object _ => pure (some .redisClientsMgr)
    | .function => pure none
  currentSuper st := (st.managers[m]?).bind Manager.currentSuper
  setCurrentSuper above st :=
    { st with managers := st.managers.modify m fun mgr => { mgr with currentSuper := above } }

/-- More than `new` and `delete` need here: no chain of tables is longer than three. -/
def classFuel : Nat := 4

def newManager : Action (LuaState φ) (Result φ) := fun st =>
  let m := st.managers.length
  let create : Action (LuaState φ) (Result φ) := do
    new (tables env m) classFuel .redisClientsMgr ()
    return Result.object m
  create { st with managers := st.managers ++ [⟨∅, none, none⟩] }

def deleteManager (m : Nat) : Action (LuaState φ) (Result φ) := do
  delete (tables env m) classFuel (.object m)
  return Result.nothing

def callField (m : Nat) (name : String) (args : List (Value φ)) :
    Field → Action (LuaState φ) (Result φ)
  | .autoConstructSuper => Action.raise
  | .setDelegate => do
      setManager m fun mgr => { mgr with m_delegate := some name }
      return Result.nothing
  | .ctor => do
      Action.modify (ctor m)
      return Result.nothing
  | .dtor => do
      dtor env m
      return Result.nothing
  | .addRedisClient => do
      let succ ← addRedisClient env m name (args.headD .nil)
      return Result.value succ
  | .delRedisClient => do
      let result ← delRedisClient env m name
      return Result.value result
  | .command cmd => do
      let reply ← command env m cmd name args
      return Result.value reply

def callMethod (m : Nat) (method name : String) (args : List (Value φ)) :
    Action (LuaState φ) (Result φ) := do
  match ← indexObject m method with
  | some (.field f) => callField env m name args f
  | _ => Action.raise

end Model

end Doudizhu.RedisClients
