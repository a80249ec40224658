import Doudizhu.Agent.Service
import Doudizhu.Network.Sessions
import Doudizhu.UserService.Accounts

/-! # The reply to a login

The account that the user service returns goes through the agent, which answers the client with
it, over the wire and into the client's `LoginController`.  The controller takes a login for
successful when `status` is 1.  The table of an account has no `status`, whether it was found or
created, so the response has none either and the controller reports every login as failed. -/

set_option autoImplicit false

namespace Doudizhu.Agent

open Lua Coroutine Network UserService

/-! ## The handlers of the agent -/

section Handlers
variable {φ : Type}

/-- The table sent to `.userservice` with the command `login`. -/
structure LoginCall (φ : Type) where
  smid : Value φ
  type : Value φ

/-- The answer `none` is a call that has failed. -/
abbrev RequestHandler (φ : Type) :=
  Option (Table φ) → Coroutine Unit (LoginCall φ) (Option (Table φ)) (Table φ)

def login : RequestHandler φ
  | none => .raise
  | some self =>
      .call ⟨self "smid", self "type"⟩ fun info =>
        match info with
        | some info => .done info
        | none => .raise

def roomInfo : Table φ := fun field =>
  if field = "status" then .number (.integer 1)
  else if field = "fid" then .string "100000"
  else .nil

def createRoom : RequestHandler φ := fun _ => .done roomInfo

def joinRoom : RequestHandler φ := fun _ => .done roomInfo

def REQUEST (name : String) : Option (RequestHandler φ) :=
  if name = "login" then some login
  else if name = "createRoom" then some createRoom
  else if name = "joinRoom" then some joinRoom
  else none

end Handlers

/-! ## The user service and the login controller -/

section Login
variable {φ : Type}

def accountTable (info : UserInfo φ) : Table φ := fun field =>
  if field = "uid" then info.uid
  else if field = "username" then info.username
  else if field = "ontable" then info.ontable
  else if field = "money" then info.money
  else if field = "tid" then info.tid
  else .nil

/-- The user service with a working Redis client answers a call, but for the dumps of its
dispatcher, which raise for some texts. -/
def userservice [LuaFloat φ] (server : RedisServer) (address : Nat) (draw : Draw)
    (db : server.Db) (call : LoginCall φ) : Option (Table φ) × server.Db :=
  let result := alone (redisclient server) (started address) db
    (responeLogin (some ⟨call.smid⟩) draw)
  (result.value.join.map accountTable, result.db)

/-- What `loginServerResp` does: `success` with the login type and whether the player is at a
table, `fail` with the text it prints. -/
inductive LoginResp (φ : Type) where
  | success (loginType : Value φ) (ontable : Bool)
  | fail (msg : Value φ)
  | error

variable [LuaCompare φ]

def loginServerResp : Option (Table φ) → LoginResp φ
  | none => .error
  | some data =>
      if (data "status").eqInteger 1 then .success (data "loginType") (truthy (data "ontable"))
      else .fail (data "msg")

def loginControllerOnData (event : DataEvent (Table φ)) : LoginResp φ := loginServerResp event.data

/-! ## From the request to the controller -/

variable (core : SprotoCore φ) (server : RedisServer) (address : Nat)

def loginMessage (args : Table φ) (session : Nat) : Message (Option (Table φ)) (Table φ) where
  type := .REQUEST
  name := loginProtocol.name
  args := some args
  response := some (genResponse core loginProtocol.response session)

def loginAccount (draw : Draw) (db : server.Db) (args : Table φ) (session : Nat) :
    Option (Table φ) :=
  (alone (userservice server address draw) () db
    (request REQUEST (loginMessage core args session))).value

def awaitLogin (sm : SocketManager Host) (session : Nat) : SocketManager Host :=
  { sm with host := sm.host.expect session loginProtocol.response }

/-- When the account is returned, the client gets a response that is a successful login to it. -/
def LoginAgrees (draw : Draw) (db : server.Db) (args : Table φ) (sm : SocketManager Host)
    (session : Nat) : Prop :=
  ∀ account, loginAccount core server address draw db args session = some account →
    ∃ packet event sm' loginType ontable,
      reply (loginMessage core args session) (.returned account) = some (some packet) ∧
        handlePacket (hostDispatch core c2s) (awaitLogin sm session) packet = (some event, sm') ∧
        loginControllerOnData event = .success loginType ontable

/-! ## The account has no status -/

/-- An account whose fields have the types of the response. -/
def Replies (info : UserInfo φ) : Prop :=
  FieldType.string.Admits info.username ∧ FieldType.boolean.Admits info.ontable

omit [LuaCompare φ] in
theorem newUser_replies (draw : Draw) : Replies (newUser φ draw) := ⟨trivial, trivial⟩

omit [LuaCompare φ] in
theorem storedUser_replies (record : String → Option String) :
    Replies (storedUser record : UserInfo φ) := by
  refine ⟨?_, trivial⟩
  simp only [storedUser]
  cases record RedisKey.nick <;> trivial

omit [LuaCompare φ] in
theorem accountTable_admits {info : UserInfo φ} (h : Replies info) {ty : SprotoType}
    (hty : loginProtocol.response = some ty) : ty.Admits (accountTable info) := by
  cases Option.some.inj hty
  intro field hfield
  simp only [List.mem_cons, List.not_mem_nil, or_false] at hfield
  rcases hfield with rfl | rfl | rfl | rfl
  · trivial
  · trivial
  · exact h.1
  · exact h.2

/-- With a working client a login always returns an account, found or created. -/
theorem loginAccount_returned (draw : Draw) (db : server.Db) (args : Table φ) (session : Nat) :
    ∃ info, loginAccount core server address draw db args session = some (accountTable info) ∧
      Replies info := by
  have haccount : ∀ info, (alone (redisclient server) (started address) db
      (responeLogin (some ⟨args "smid"⟩) draw)).value = some (some info) →
        loginAccount core server address draw db args session = some (accountTable info) := by
    intro info hinfo
    have hserve : (userservice server address draw db ⟨args "smid", args "type"⟩).1 =
        some (accountTable info) := by
      simp only [userservice, hinfo, Option.join_some, Option.map_some]
    change (alone _ () (userservice server address draw db ⟨args "smid", args "type"⟩).2
      (match (userservice server address draw db ⟨args "smid", args "type"⟩).1 with
        | some info => Coroutine.done info
        | none => .raise)).value = _
    rw [hserve]
    rfl
  by_cases habsent : (foundUid φ (server.hashes db)).nonpositive = true
  · obtain ⟨db', hlogin, _⟩ :=
      alone_login_absent server address db ⟨args "smid"⟩ draw habsent
    exact ⟨newUser φ draw, haccount _ (by rw [hlogin]), newUser_replies draw⟩
  · have hlogin := alone_login_found server address db ⟨args "smid"⟩ draw habsent
    exact ⟨_, haccount _ (by rw [hlogin]), storedUser_replies _⟩

/-- The controller reports a response without a status as a failure. -/
theorem loginControllerOnData_fail {info : UserInfo φ} (h : Replies info) {args : Table φ}
    {session : Nat} {packet : Bytes} {sm sm' : SocketManager Host} {event : DataEvent (Table φ)}
    (hreply : reply (loginMessage core args session) (.returned (accountTable info)) =
      some (some packet))
    (hhandle : handlePacket (hostDispatch core c2s) (awaitLogin sm session) packet =
      (some event, sm')) :
    loginControllerOnData event = .fail .nil := by
  have hpacket : genResponse core loginProtocol.response session (accountTable info) =
      some packet := by
    simpa [reply, loginMessage] using hreply
  have hwaits : (awaitLogin sm session).host.session session = some loginProtocol.response :=
    Function.update_self ..
  obtain ⟨msg, hdispatch, hmsg⟩ := hostDispatch_genResponse core c2s hpacket hwaits
  have hmsg := hmsg _ rfl (accountTable_admits h rfl)
  have hdata : event.data = msg := by
    simp only [handlePacket, hdispatch] at hhandle
    split at hhandle <;> cases hhandle <;> rfl
  rw [loginControllerOnData, hdata, hmsg]
  rfl

theorem not_loginAgrees {draw : Draw} {db : server.Db} {args : Table φ} {session : Nat}
    {info : UserInfo φ} (hreplies : Replies info)
    (haccount : loginAccount core server address draw db args session = some (accountTable info))
    (sm : SocketManager Host) : ¬ LoginAgrees core server address draw db args sm session := by
  intro hagrees
  obtain ⟨packet, event, sm', loginType, ontable, hreply, hhandle, hsuccess⟩ :=
    hagrees _ haccount
  rw [loginControllerOnData_fail core hreplies hreply hhandle] at hsuccess
  cases hsuccess

/-- Server and client agree on no login, whatever the request and the database. -/
theorem login_never_agrees (draw : Draw) (db : server.Db) (args : Table φ)
    (sm : SocketManager Host) (session : Nat) :
    ¬ LoginAgrees core server address draw db args sm session := by
  obtain ⟨info, haccount, hreplies⟩ :=
    loginAccount_returned core server address draw db args session
  exact not_loginAgrees core server address hreplies haccount sm

end Login

/-- A guest's first login on an empty store. -/
theorem first_login_disagrees :
    ¬ LoginAgrees (sprotoCore Empty) memoryRedis 1 someDraw ⟨fun _ _ => none, fun _ => 0⟩
      (fun field => if field = "smid" then .string "guest" else .nil)
      (SocketManager.ctor ⟨fun _ => none⟩) 1 := by
  obtain ⟨info, haccount, hreplies⟩ := loginAccount_returned (sprotoCore Empty) memoryRedis 1
    someDraw ⟨fun _ _ => none, fun _ => 0⟩
    (fun field => if field = "smid" then .string "guest" else .nil) 1
  exact not_loginAgrees (sprotoCore Empty) memoryRedis 1 hreplies haccount _

end Doudizhu.Agent
