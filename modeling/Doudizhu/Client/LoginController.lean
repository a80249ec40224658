import Doudizhu.Agent.LoginReply

/-! # What logs the player in

`LoginController` listens to every EVENT_DATA of the socket and passes the payload on to
`loginServerResp`, without a look at the head or the protocol of the message.  Any payload with a
`status` of 1 then sets the login type and enters the hall, and a message without payload is an
error. -/

set_option autoImplicit false

namespace Doudizhu.Client

open Lua Runs Network Agent

def mainScene : String := "MainScene"

/-- The login type in the model, and the scenes entered so far; the current one is the last. -/
structure LoginState (φ : Type) where
  curLoginType : Value φ
  scenes : List String

namespace LoginState
variable {φ : Type} [LuaCompare φ]

def setCurLoginType (s : LoginState φ) (loginType : Value φ) : LoginState φ :=
  { s with curLoginType := loginType }

def enterScene (s : LoginState φ) (name : String) : LoginState φ :=
  { s with scenes := s.scenes ++ [name] }

/-- `LoginController:onData`; `none` when it raises. -/
def onData (s : LoginState φ) (event : DataEvent (Table φ)) : Option (LoginState φ) :=
  match loginControllerOnData event with
  | .success loginType ontable =>
      let s := s.setCurLoginType loginType
      if ontable then some s else some (s.enterScene mainScene)
  | .fail _ => some s
  | .error => none

/-- An error ends the handling of the message, and the next one is delivered. -/
def step (s : LoginState φ) (event : DataEvent (Table φ)) : Option (LoginState φ) :=
  some ((s.onData event).getD s)

def IsLoginResponse (event : DataEvent (Table φ)) : Prop :=
  event.head = .RESPONSE ∧ event.protoname = some loginProtocol.name

/-- A message that is no response to a login changes nothing and raises nothing. -/
def OnlyLoginActs (s : LoginState φ) (event : DataEvent (Table φ)) : Prop :=
  ¬ IsLoginResponse event → s.onData event = some s

/-- A message that is no response to a login has a payload, and either no `status` of 1 in it or
the login type that is set already and the word that the player is at a table. -/
def Harmless (s : LoginState φ) (event : DataEvent (Table φ)) : Prop :=
  ¬ IsLoginResponse event →
    ∃ data, event.data = some data ∧
      ((data "status").eqInteger 1 = true →
        truthy (data "ontable") = true ∧ data "loginType" = s.curLoginType)

omit [LuaCompare φ] in
theorem enterScene_ne (s : LoginState φ) (loginType : Value φ) (name : String) :
    (s.setCurLoginType loginType).enterScene name ≠ s := by
  intro h
  have hlength := congrArg (fun t => t.scenes.length) h
  simp [setCurLoginType, enterScene] at hlength

omit [LuaCompare φ] in
theorem setCurLoginType_eq_iff (s : LoginState φ) (loginType : Value φ) :
    s.setCurLoginType loginType = s ↔ loginType = s.curLoginType := by
  constructor
  · exact congrArg curLoginType
  · rintro rfl
    rfl

theorem onData_eq_iff (s : LoginState φ) (event : DataEvent (Table φ)) :
    s.onData event = some s ↔
      ∃ data, event.data = some data ∧
        ((data "status").eqInteger 1 = true →
          truthy (data "ontable") = true ∧ data "loginType" = s.curLoginType) := by
  unfold onData loginControllerOnData
  cases hdata : event.data with
  | none => simp [loginServerResp]
  | some data =>
      simp only [loginServerResp, Option.some.injEq, exists_eq_left']
      cases hstatus : (data "status").eqInteger 1 with
      | false => simp
      | true =>
          cases htable : truthy (data "ontable") with
          | false => simp [enterScene_ne]
          | true => simp [setCurLoginType_eq_iff]

/-- In any sequence of messages only responses to a login act if and only if all the others are
harmless. -/
theorem only_login_acts_iff (events : List (DataEvent (Table φ))) (s : LoginState φ) :
    Along step OnlyLoginActs s events ↔ Along step Harmless s events := by
  obtain ⟨t, hrun⟩ := exists_run (step (φ := φ)) (fun _ _ => ⟨_, rfl⟩) events s
  exact along_iff step OnlyLoginActs Harmless (fun _ => True) (fun _ _ _ _ _ => trivial)
    (fun s event _ _ _ => imp_congr_right fun _ => onData_eq_iff s event) events s t trivial hrun

end LoginState

/-- The agent's answer to `createRoom` as the socket dispatches it. -/
def createRoomResponse : DataEvent (Table Empty) where
  head := .RESPONSE
  protoname := some createRoomProtocol.name
  data := some roomInfo

/-- The player enters the hall by creating a room. -/
theorem createRoom_enters_hall :
    ¬ Along LoginState.step LoginState.OnlyLoginActs ⟨.nil, ["LoadScene"]⟩
      [createRoomResponse] := by
  intro h
  have hsame := h.1 fun hlogin => absurd hlogin.2 (by decide)
  have hscenes := congrArg (fun s => s.map LoginState.scenes) hsame
  exact absurd hscenes (by decide)

end Doudizhu.Client
