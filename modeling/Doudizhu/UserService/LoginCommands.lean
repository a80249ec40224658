import Doudizhu.UserService.Service

/-! # The commands of one login

A login issues HGET for the entry of `"13"`, then HSET and HMSET for a new account or HMGET for
a stored one.  First what each command does to the database and answers, for any server, then
where the handler is suspended after each answer. -/

set_option autoImplicit false

namespace Doudizhu.UserService

open Lua Coroutine

section Commands
variable {φ : Type} [LuaFloat φ]

def recordKey (uid : Number φ) : String := redisInfoKey ++ uid.text

theorem recordKey_ne_uidsKey (uid : Number φ) : recordKey uid ≠ redisUidsKey := by
  intro h
  have hlist := congrArg String.toList h
  simp [recordKey, redisInfoKey, redisUidsKey] at hlist

def mappedUid (φ : Type) [LuaFloat φ] (hashes : Hashes) (smid : String) : Option (Number φ) :=
  (hashes redisUidsKey smid).bind str2num

def smid13 : Value φ := .number (.integer 13)

def hgetUid (address : Nat) : RedisCall φ :=
  ⟨address, "HGET", [.string redisUidsKey, smid13]⟩

def hsetUid (address : Nat) : RedisCall φ :=
  ⟨address, "HSET", [.string redisUidsKey, smid13, .number (.integer redisUidBase)]⟩

def hmsetRecord (address : Nat) (username : String) : RedisCall φ :=
  ⟨address, "HMSET", [.string (recordKey (.integer redisUidBase : Number φ)),
    .string RedisKey.nick, .string username, .string RedisKey.ontable, .boolean false,
    .string RedisKey.coin, .number (.integer 0)]⟩

def hmgetRecord (address : Nat) (uid : Number φ) : RedisCall φ :=
  ⟨address, "HMGET", [.string (recordKey uid), .string RedisKey.nick, .string RedisKey.ontable,
    .string RedisKey.coin, .string RedisKey.tid]⟩

/-- The uid the lookup of `respone_login` finds, 0 when there is none. -/
def foundUid (φ : Type) [LuaFloat φ] (hashes : Hashes) : Number φ :=
  (mappedUid φ hashes "13").getD (.integer 0)

theorem redisclient_hgetUid (server : RedisServer) (address : Nat) (db : server.Db) :
    ∃ answer : Value φ,
      redisclient server db (hgetUid address) = (some answer, db) ∧
        uidOf answer = foundUid φ (server.hashes db) := by
  have hexec := server.hget db redisUidsKey "13"
  cases hfield : server.hashes db redisUidsKey "13" with
  | none =>
      rw [hfield] at hexec
      refine ⟨.nil, ?_, by simp [foundUid, mappedUid, hfield, uidOf, tonumber]⟩
      change ((server.exec db "HGET" [redisUidsKey, "13"]).1.toLua,
        (server.exec db "HGET" [redisUidsKey, "13"]).2) = _
      rw [hexec]
      rfl
  | some text =>
      rw [hfield] at hexec
      refine ⟨.string text, ?_, by simp [foundUid, mappedUid, hfield, uidOf, tonumber]⟩
      change ((server.exec db "HGET" [redisUidsKey, "13"]).1.toLua,
        (server.exec db "HGET" [redisUidsKey, "13"]).2) = _
      rw [hexec]
      rfl

theorem redisclient_hsetUid (server : RedisServer) (address : Nat) (db : server.Db) :
    ∃ answer : Value φ, ∃ db',
      redisclient server db (hsetUid address) = (some answer, db') ∧
        server.hashes db' = setField (server.hashes db) redisUidsKey "13" "100000" := by
  obtain ⟨n, hreply⟩ := server.hset_reply db redisUidsKey "13" "100000"
  refine ⟨.number (.integer n), _, ?_, server.hset db redisUidsKey "13" "100000"⟩
  change ((server.exec db "HSET" [redisUidsKey, "13", "100000"]).1.toLua,
    (server.exec db "HSET" [redisUidsKey, "13", "100000"]).2) = _
  rw [hreply]
  rfl

def newRecord (username : String) : List (String × String) :=
  [(RedisKey.nick, username), (RedisKey.ontable, "false"), (RedisKey.coin, "0")]

theorem redisclient_hmsetRecord (server : RedisServer) (address : Nat) (db : server.Db)
    (username : String) :
    ∃ answer : Value φ, ∃ db',
      redisclient server db (hmsetRecord address username) = (some answer, db') ∧
        server.hashes db' =
          setFields (server.hashes db) "uid_100000" (newRecord username) := by
  have hne : newRecord username ≠ [] := List.cons_ne_nil _ _
  obtain ⟨text, hreply⟩ := server.hmset_reply db "uid_100000" (newRecord username) hne
  refine ⟨.string text, _, ?_, server.hmset db "uid_100000" (newRecord username) hne⟩
  change ((server.exec db "HMSET" ("uid_100000" :: fieldArgs (newRecord username))).1.toLua,
    (server.exec db "HMSET" ("uid_100000" :: fieldArgs (newRecord username))).2) = _
  rw [hreply]
  rfl

theorem redisclient_hmgetRecord (server : RedisServer) (address : Nat) (db : server.Db)
    (uid : Number φ) :
    redisclient server db (hmgetRecord address uid) =
      (some (.table ([RedisKey.nick, RedisKey.ontable, RedisKey.coin, RedisKey.tid].map
        (server.hashes db (recordKey uid)))), db) := by
  change ((server.exec db "HMGET" [recordKey uid, RedisKey.nick, RedisKey.ontable,
      RedisKey.coin, RedisKey.tid]).1.toLua,
    (server.exec db "HMGET" [recordKey uid, RedisKey.nick, RedisKey.ontable,
      RedisKey.coin, RedisKey.tid]).2) = _
  rw [server.hmget]
  rfl

theorem setFields_of_ne {hashes : Hashes} {key k : String} (h : k ≠ key) (f : String) :
    ∀ fields : List (String × String), setFields hashes key fields k f = hashes k f := by
  intro fields
  induction fields generalizing hashes with
  | nil => rfl
  | cons p fields ih =>
      change setFields (setField hashes key p.1 p.2) key fields k f = _
      rw [ih, setField, if_neg fun hk => h hk.1]

theorem mappedUid_setField (hashes : Hashes) :
    mappedUid φ (setField hashes redisUidsKey "13" "100000") "13" = some (.integer 100000) := by
  have hfield : setField hashes redisUidsKey "13" "100000" redisUidsKey "13" = some "100000" :=
    if_pos ⟨rfl, rfl⟩
  have hnumeral : lStr2int "100000".toList = some 100000 := by decide
  simp only [mappedUid, hfield, Option.bind_some, str2num, hnumeral]

theorem mappedUid_setFields (hashes : Hashes) (fields : List (String × String))
    (smid : String) : mappedUid φ (setFields hashes "uid_100000" fields) smid =
      mappedUid φ hashes smid := by
  unfold mappedUid
  rw [setFields_of_ne (by decide)]

/-! ## Where the handler is suspended -/

def creating (φ : Type) [LuaFloat φ] (address : Nat) (draw : Draw) :
    Handler φ (Option (UserInfo φ)) :=
  (createUser smid13 draw >>= finishLogin).settle (started address)

/-- The handler has mapped the smid and not yet written the record. -/
def recording (φ : Type) [LuaFloat φ] (address : Nat) (draw : Draw) :
    Handler φ (Option (UserInfo φ)) :=
  (createUserRecord (.integer redisUidBase) (generateNick familyNameMap draw) >>=
    finishLogin).settle (started address)

def reading (address : Nat) (uid : Number φ) : Handler φ (Option (UserInfo φ)) :=
  (readUser uid >>= finishLogin).settle (started address)

def newUser (φ : Type) (draw : Draw) : UserInfo φ where
  uid := .number (.integer redisUidBase)
  username := .string (generateNick familyNameMap draw)
  ontable := .boolean false
  money := .number (.integer 0)
  tid := .nil

def storedUser (record : String → Option String) : UserInfo φ where
  uid := .nil
  username := bulkValue (record RedisKey.nick)
  ontable := .boolean false
  money := bulkValue (record RedisKey.coin)
  tid := bulkValue (record RedisKey.tid)

variable (address : Nat)

theorem pending_responeLogin (data : LoginData φ) (draw : Draw) :
    (responeLogin (some data) draw).pending (started address) = some (hgetUid address) := rfl

theorem after_responeLogin_absent (data : LoginData φ) (draw : Draw) {answer : Value φ}
    (h : (uidOf answer).nonpositive = true) :
    (responeLogin (some data) draw).after (started address) (some answer) =
      creating φ address draw := by
  change (if (uidOf answer).nonpositive = true then createUser smid13 draw >>= finishLogin
    else readUser (uidOf answer) >>= finishLogin).settle (started address) = _
  rw [if_pos h]
  rfl

theorem after_responeLogin_found (data : LoginData φ) (draw : Draw) {answer : Value φ}
    (h : ¬ (uidOf answer).nonpositive = true) :
    (responeLogin (some data) draw).after (started address) (some answer) =
      reading address (uidOf answer) := by
  change (if (uidOf answer).nonpositive = true then createUser smid13 draw >>= finishLogin
    else readUser (uidOf answer) >>= finishLogin).settle (started address) = _
  rw [if_neg h]
  rfl

theorem pending_creating (draw : Draw) :
    (creating φ address draw).pending (started address) = some (hsetUid address) := rfl

theorem after_creating (draw : Draw) (answer : Value φ) :
    (creating φ address draw).after (started address) (some answer) =
      recording φ address draw := rfl

theorem pending_recording (draw : Draw) :
    (recording φ address draw).pending (started address) =
      some (hmsetRecord address (generateNick familyNameMap draw)) := rfl

theorem after_recording (draw : Draw) (answer : Value φ) :
    (recording φ address draw).after (started address) (some answer) =
      .done (some (newUser φ draw)) := rfl

theorem pending_reading (uid : Number φ) :
    (reading address uid).pending (started address) = some (hmgetRecord address uid) := rfl

theorem after_reading (uid : Number φ) (record : String → Option String) :
    (reading address uid).after (started address)
        (some (.table ([RedisKey.nick, RedisKey.ontable, RedisKey.coin, RedisKey.tid].map
          record))) =
      .done (some (storedUser record)) := rfl

end Commands
end Doudizhu.UserService
