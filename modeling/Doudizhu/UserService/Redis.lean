import Doudizhu.Lib.Coroutine
import Doudizhu.Lua.Value

/-! # Redis behind its client service

The Redis server is a parameter with the documented behaviour of the hash commands and of INCR;
`Db` ranges over databases in which every key the services use has the one type they use it at.
`redisclient` is the service of that name: it sends a command with its arguments turned to text
and turns the reply into a Lua value, an error reply into a failed call.  `rcmCall` is a method
call on a `redisClientsMgr`: the first argument names the client, an unknown name is answered
with `false` at once. -/

set_option autoImplicit false

namespace Doudizhu.UserService

open Lua

inductive RedisReply where
  | bulk (value : Option String)
  | integer (n : Int)
  | status (text : String)
  | error (text : String)
  | array (items : List (Option String))

abbrev Hashes := String → String → Option String

def setField (hashes : Hashes) (key field value : String) : Hashes :=
  fun k f => if k = key ∧ f = field then some value else hashes k f

def setFields (hashes : Hashes) (key : String) (fields : List (String × String)) : Hashes :=
  fields.foldl (fun hashes p => setField hashes key p.1 p.2) hashes

def fieldArgs (fields : List (String × String)) : List String :=
  fields.flatMap fun p => [p.1, p.2]

structure RedisServer where
  Db : Type
  exec : Db → String → List String → RedisReply × Db
  hashes : Db → Hashes
  counter : Db → String → Int
  hget : ∀ db key field, exec db "HGET" [key, field] = (.bulk (hashes db key field), db)
  hmget : ∀ db key field fields, exec db "HMGET" (key :: field :: fields) =
    (.array ((field :: fields).map (hashes db key)), db)
  hset_reply : ∀ db key field value, ∃ n, (exec db "HSET" [key, field, value]).1 = .integer n
  hset : ∀ db key field value, hashes (exec db "HSET" [key, field, value]).2 =
    setField (hashes db) key field value
  hmset_reply : ∀ db key fields, fields ≠ [] → ∃ text,
    (exec db "HMSET" (key :: fieldArgs fields)).1 = .status text
  hmset : ∀ db key fields, fields ≠ [] →
    hashes (exec db "HMSET" (key :: fieldArgs fields)).2 = setFields (hashes db) key fields
  incr_reply : ∀ db key, (exec db "INCR" [key]).1 = .integer (counter (exec db "INCR" [key]).2 key)
  incr : ∀ db key, counter db key < counter (exec db "INCR" [key]).2 key

/-! ## A server in memory -/

structure Memory where
  hashes : Hashes
  counter : String → Int

def readFields : List String → Option (List (String × String))
  | [] => some []
  | [_] => none
  | f :: v :: rest => (readFields rest).map fun fields => (f, v) :: fields

theorem readFields_fieldArgs : ∀ fields : List (String × String),
    readFields (fieldArgs fields) = some fields := by
  intro fields
  induction fields with
  | nil => rfl
  | cons p fields ih =>
      change (readFields (fieldArgs fields)).map _ = _
      rw [ih]
      rfl

def Memory.exec (m : Memory) (cmd : String) (args : List String) : RedisReply × Memory :=
  match cmd, args with
  | "HGET", [key, field] => (.bulk (m.hashes key field), m)
  | "HMGET", key :: field :: fields => (.array ((field :: fields).map (m.hashes key)), m)
  | "HSET", [key, field, value] =>
      (.integer (if (m.hashes key field).isSome then 0 else 1),
        { m with hashes := setField m.hashes key field value })
  | "HMSET", key :: field :: rest =>
      match readFields (field :: rest) with
      | some fields => (.status "OK", { m with hashes := setFields m.hashes key fields })
      | none => (.error "ERR wrong number of arguments for HMSET", m)
  | "INCR", [key] =>
      (.integer (m.counter key + 1),
        { m with counter := Function.update m.counter key (m.counter key + 1) })
  | _, _ => (.error "ERR wrong number of arguments", m)

theorem Memory.exec_hmset (m : Memory) (key : String) :
    ∀ fields : List (String × String), fields ≠ [] →
      m.exec "HMSET" (key :: fieldArgs fields) =
        (.status "OK", { m with hashes := setFields m.hashes key fields }) := by
  intro fields hne
  cases fields with
  | nil => exact absurd rfl hne
  | cons p fields =>
      change (match readFields (fieldArgs (p :: fields)) with
        | some fields => _
        | none => _) = _
      rw [readFields_fieldArgs]

def memoryRedis : RedisServer where
  Db := Memory
  exec := Memory.exec
  hashes m := m.hashes
  counter m := m.counter
  hget _ _ _ := rfl
  hmget _ _ _ _ := rfl
  hset_reply _ _ _ _ := ⟨_, rfl⟩
  hset _ _ _ _ := rfl
  hmset_reply m key fields hne := ⟨"OK", by rw [m.exec_hmset key fields hne]⟩
  hmset m key fields hne := by rw [m.exec_hmset key fields hne]
  incr_reply m key := by simp [Memory.exec]
  incr m key := by
    simp only [Memory.exec, Function.update_self]
    exact Int.lt_succ (m.counter key)

/-! ## The client service and the clients' manager -/

section Client
variable {φ : Type} [LuaFloat φ]

/-- A message to the client service at `address`. -/
structure RedisCall (φ : Type) where
  address : Nat
  cmd : String
  args : List (Value φ)
  deriving DecidableEq

/-- The driver's list of arguments ends at the first `nil`. -/
def composeMessage (args : List (Value φ)) : List String :=
  (args.takeWhile fun arg =>
    match arg with
    | .nil => false
    | _ => true).map tostring

/-- The answer to `skynet.call`: `none` when the call fails. -/
def RedisReply.toLua : RedisReply → Option (Value φ)
  | .bulk (some s) => some (.string s)
  | .bulk none => some .nil
  | .integer n => some (.number (.integer n))
  | .status text => some (.string text)
  | .error _ => none
  | .array items => some (.table items)

def redisclient (server : RedisServer) (db : server.Db) (call : RedisCall φ) :
    Option (Value φ) × server.Db :=
  let answer := server.exec db call.cmd (composeMessage call.args)
  (answer.1.toLua, answer.2)

/-- `utils/redisClientsMgr.lua`: the client services by name. -/
structure RedisClientsMgr where
  m_map : String → Option Nat

/-- A handler of the service, suspended at its Redis calls. -/
abbrev Handler (φ A : Type) := Coroutine RedisClientsMgr (RedisCall φ) (Option (Value φ)) A

def rcmCall (cmd name : String) (args : List (Value φ)) : Handler φ (Value φ) :=
  .read fun rcm =>
    match rcm.m_map name with
    | none => .done (.boolean false)
    | some address =>
        .call ⟨address, cmd, args⟩ fun answer =>
          match answer with
          | some value => .done value
          | none => .raise

end Client

end Doudizhu.UserService
