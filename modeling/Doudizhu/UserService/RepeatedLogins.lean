import Doudizhu.UserService.Accounts

/-! # Creating an account and finding it again

`create_user` returns the values it has just made, `respone_login` returns what Redis has stored
of them.  The record has the money as text and no uid, so of the account a client is told about
when it is created only the name comes back. -/

set_option autoImplicit false

namespace Doudizhu.UserService

open Lua Coroutine

section RepeatedLogins
variable (φ : Type) [LuaFloat φ] (server : RedisServer) (address : Nat)

/-- The logins with the same smid that follow on one another after the first. -/
def laterLogins (db : server.Db) (request : LoginRequest) (later : List Draw) :
    List (Served server φ) :=
  serveAll φ server address (serveLogin φ server address db request).db
    (later.map fun draw => ⟨request.smid, draw⟩)

variable {φ server}

def MadeAccount (result : Result server.Db (RedisCall φ) (Option (UserInfo φ))) : Prop :=
  ∃ call ∈ result.calls, call.cmd = "HSET"

/-- Equal as Lua values, and the money is a number. -/
structure SameAccount (created found : UserInfo φ) : Prop where
  uid : found.uid = created.uid
  username : found.username = created.username
  money : found.money = created.money
  number : ∃ n, created.money = .number n

variable (φ server)

/-- Every login after the one that creates the account returns the account. -/
def LaterLoginsAgree (db : server.Db) (request : LoginRequest) (later : List Draw) : Prop :=
  MadeAccount (serveLogin φ server address db request) →
    ∀ created, (serveLogin φ server address db request).value = some (some created) →
      ∀ served ∈ laterLogins φ server address db request later,
        ∃ found, served.result.value = some (some found) ∧ SameAccount created found

variable {φ server}

theorem madeAccount_iff (db : server.Db) (request : LoginRequest) :
    MadeAccount (serveLogin φ server address db request) ↔
      (foundUid φ (server.hashes db)).nonpositive = true := by
  unfold MadeAccount
  by_cases habsent : (foundUid φ (server.hashes db)).nonpositive = true
  · rw [(serveLogin_absent server address db request habsent).1]
    exact iff_of_true ⟨hsetUid address, List.mem_cons_of_mem _ List.mem_cons_self, rfl⟩ habsent
  · rw [(serveLogin_found server address db request habsent).1]
    refine iff_of_false ?_ habsent
    rintro ⟨call, hcall, hcmd⟩
    simp only [List.mem_cons, List.not_mem_nil, or_false] at hcall
    rcases hcall with rfl | rfl
    · exact absurd hcmd (show ("HGET" : String) ≠ "HSET" by decide)
    · exact absurd hcmd (show ("HMGET" : String) ≠ "HSET" by decide)

def foundAgain (record : String → Option String) (draw : Draw) : UserInfo φ where
  uid := .nil
  username := .string (generateNick familyNameMap draw)
  ontable := .boolean false
  money := .string "0"
  tid := bulkValue (record RedisKey.tid)

theorem recordKey_uidBase :
    recordKey (.integer redisUidBase : Number φ) = "uid_100000" := rfl

/-- The database after the creation: the uid is found, and the record under it. -/
theorem created_found {db : server.Db} {request : LoginRequest}
    (habsent : (foundUid φ (server.hashes db)).nonpositive = true) :
    foundUid φ (server.hashes (serveLogin φ server address db request).db) =
        .integer redisUidBase ∧
      storedUser (φ := φ)
          (server.hashes (serveLogin φ server address db request).db "uid_100000") =
        foundAgain (server.hashes db "uid_100000") request.draw := by
  obtain ⟨_, hhashes⟩ := serveLogin_absent server address db request habsent
  rw [hhashes]
  constructor
  · unfold foundUid
    rw [mappedUid_setFields, mappedUid_setField]
    rfl
  · simp [storedUser, foundAgain, newRecord, setFields, setField, RedisKey.nick, RedisKey.coin,
      RedisKey.ontable, RedisKey.tid, redisUidsKey, bulkValue]

theorem serveLogin_again {db : server.Db} (request : LoginRequest) (draw : Draw)
    (habsent : (foundUid φ (server.hashes db)).nonpositive = true) :
    (serveLogin φ server address (serveLogin φ server address db request).db
        ⟨request.smid, draw⟩).value =
      some (some (foundAgain (server.hashes db "uid_100000") request.draw)) := by
  obtain ⟨huid, hrecord⟩ := created_found address habsent
  have hpositive : ¬ (foundUid φ (server.hashes
      (serveLogin φ server address db request).db)).nonpositive = true := by
    rw [huid]
    exact Bool.false_ne_true
  rw [serveLogin, alone_login_found server address _ _ draw hpositive, huid, recordKey_uidBase,
    hrecord]

theorem serveLogin_created {db : server.Db} {request : LoginRequest}
    (habsent : (foundUid φ (server.hashes db)).nonpositive = true) :
    (serveLogin φ server address db request).value = some (some (newUser φ request.draw)) := by
  obtain ⟨db', hserve, _⟩ := alone_login_absent server address db request.data request.draw habsent
  rw [serveLogin, hserve]

theorem not_laterLoginsAgree {db : server.Db} {request : LoginRequest} (draw : Draw)
    (later : List Draw) (habsent : (foundUid φ (server.hashes db)).nonpositive = true) :
    ¬ LaterLoginsAgree φ server address db request (draw :: later) := by
  intro hagree
  obtain ⟨found, hfound, hsame⟩ := hagree ((madeAccount_iff address db request).mpr habsent) _
    (serveLogin_created address habsent) _ (List.mem_cons_self ..)
  have hagain := serveLogin_again address request draw habsent
  cases Option.some.inj (Option.some.inj (hfound.symm.trans hagain))
  have huid : (Value.nil : Value φ) = .number (.integer redisUidBase) := hsame.uid
  cases huid

/-- Creation and lookup agree if and only if there is nothing to agree on: no later login, or no
account created. -/
theorem logins_agree_iff (db : server.Db) (request : LoginRequest) (later : List Draw) :
    LaterLoginsAgree φ server address db request later ↔
      later = [] ∨ (foundUid φ (server.hashes db)).nonpositive = false := by
  cases habsent : (foundUid φ (server.hashes db)).nonpositive with
  | false =>
      refine iff_of_true (fun hcreates => ?_) (.inr rfl)
      rw [madeAccount_iff, habsent] at hcreates
      exact absurd hcreates Bool.false_ne_true
  | true =>
      cases later with
      | nil =>
          refine iff_of_true (fun _ created _ served hserved => ?_) (.inl rfl)
          exact absurd hserved List.not_mem_nil
      | cons draw later =>
          exact iff_of_false (not_laterLoginsAgree address draw later habsent) (by simp)

end RepeatedLogins

/-- The second login of a new guest returns no uid and the money as text. -/
theorem second_login_disagrees :
    ¬ LaterLoginsAgree Empty memoryRedis 1 ⟨fun _ _ => none, fun _ => 0⟩ (guestRequest "guest-1")
      [someDraw] :=
  not_laterLoginsAgree 1 someDraw [] rfl

end Doudizhu.UserService
