import Doudizhu.Lua.Value
import Doudizhu.Network.SocketManager
import Mathlib.Logic.Function.Basic

/-! # The sproto host

`sproto.lua`, as the client and the agent use it: `attach` makes requests and remembers their
sessions, `dispatch` takes messages apart, `gen_response` makes the answer to a request.  The C
core is a parameter that decodes what it has encoded, with the fields of the type that the table
has; a packed message is unpacked with zeros after it. -/

set_option autoImplicit false

namespace Doudizhu.Network

open Lua

/-- A Lua table with strings for keys; `nil` where there is no field. -/
abbrev Table (φ : Type) := String → Value φ

def emptyTable {φ : Type} : Table φ := fun _ => .nil

inductive FieldType where
  | integer
  | string
  | boolean
  deriving DecidableEq

structure SprotoType where
  fields : List (String × FieldType)

structure Protocol where
  name : String
  tag : Nat
  request : Option SprotoType
  response : Option SprotoType

/-! ## The protocols of the game -/

def package : SprotoType := ⟨[("type", .integer), ("session", .integer)]⟩

def loginProtocol : Protocol where
  name := "login"
  tag := 1
  request := some ⟨[("smid", .string), ("type", .integer)]⟩
  response := some ⟨[("status", .integer), ("msg", .string), ("username", .string),
    ("ontable", .boolean)]⟩

def createRoomProtocol : Protocol where
  name := "createRoom"
  tag := 2
  request := some ⟨[("level", .integer), ("playtype", .integer)]⟩
  response := some ⟨[("status", .integer), ("fid", .string)]⟩

def joinRoomProtocol : Protocol where
  name := "joinRoom"
  tag := 3
  request := some ⟨[("uid", .string), ("fid", .string)]⟩
  response := some ⟨[("status", .integer), ("fid", .string)]⟩

def c2s : List Protocol := [loginProtocol, createRoomProtocol, joinRoomProtocol]

/-! ## The core -/

section Core
variable {φ : Type}

def FieldType.Admits : FieldType → Value φ → Prop
  | _, .nil => True
  | .integer, .number (.integer _) => True
  | .string, .string _ => True
  | .boolean, .boolean _ => True
  | _, _ => False

/-- The fields of the type that the table has are of the right kind. -/
def SprotoType.Admits (ty : SprotoType) (t : Table φ) : Prop :=
  ∀ field ∈ ty.fields, field.2.Admits (t field.1)

def SprotoType.restrict (ty : SprotoType) (t : Table φ) : Table φ :=
  fun name => if name ∈ ty.fields.map Prod.fst then t name else .nil

structure SprotoCore (φ : Type) where
  encode : SprotoType → Table φ → Option Bytes
  /-- The table and the number of bytes read. -/
  decode : SprotoType → Bytes → Option (Table φ × Nat)
  pack : Bytes → Bytes
  unpack : Bytes → Option Bytes
  decode_encode : ∀ ty t bytes rest, encode ty t = some bytes →
    ∃ decoded, decode ty (bytes ++ rest) = some (decoded, bytes.length) ∧
      (ty.Admits t → decoded = ty.restrict t)
  unpack_pack : ∀ bytes, ∃ zeros, unpack (pack bytes) = some (bytes ++ zeros)

end Core

/-! ## The host -/

section Host
variable {φ : Type} (core : SprotoCore φ) (protos : List Protocol)

/-- `proto.response or true` for each session. -/
structure Host where
  session : Nat → Option (Option SprotoType)

def Host.expect (host : Host) (session : Nat) (response : Option SprotoType) : Host where
  session := Function.update host.session session (some response)

def Host.forget (host : Host) (session : Nat) : Host where
  session := Function.update host.session session none

def queryproto (name : String) : Option Protocol := protos.find? fun p => p.name = name

def queryprotoTag (tag : Int) : Option Protocol := protos.find? fun p => (p.tag : Int) = tag

def headerTmp (type : Option Nat) (session : Nat) : Table φ := fun field =>
  if field = "type" then
    match type with
    | some tag => .number (.integer tag)
    | none => .nil
  else if field = "session" then .number (.integer session)
  else .nil

/-- The function `host:attach(sp)` returns; `none` when it raises. -/
def attach (host : Host) (name : String) (args : Option (Table φ)) (session : Nat) :
    Option Bytes × Host :=
  match queryproto protos name with
  | none => (none, host)
  | some proto =>
      match core.encode package (headerTmp (some proto.tag) session) with
      | none => (none, host)
      | some header =>
          let host := host.expect session proto.response
          match args with
          | none => (some (core.pack header), host)
          | some args =>
              match proto.request.bind fun request => core.encode request args with
              | none => (none, host)
              | some content => (some (core.pack (header ++ content)), host)

def genResponse (response : Option SprotoType) (session : Nat) (args : Table φ) : Option Bytes :=
  match core.encode package (headerTmp none session) with
  | none => none
  | some header =>
      match response with
      | none => some (core.pack header)
      | some response =>
          (core.encode response args).map fun content => core.pack (header ++ content)

/-- What `host:dispatch` returns once it has found the session, `true` for no content. -/
def readResponse (session : Nat) (response : Option SprotoType) (content : Bytes) :
    Option (Dispatched (Table φ)) :=
  match response with
  | none => some (.response session none)
  | some response =>
      (core.decode response content).map fun result => .response session (some result.1)

def dispatchResponse (host : Host) (session : Value φ) (content : Bytes) :
    Option (Dispatched (Table φ)) × Host :=
  match session with
  | .number (.integer (.ofNat session)) =>
      match host.session session with
      | none => (none, host)
      | some response =>
          (readResponse core session response content, host.forget session)
  | _ => (none, host)

def dispatchRequest (type : Value φ) (content : Bytes) : Option (Dispatched (Table φ)) :=
  match type with
  | .number (.integer tag) =>
      match queryprotoTag protos tag with
      | none => none
      | some proto =>
          match proto.request with
          | none => some (.request proto.name none)
          | some request =>
              (core.decode request content).map fun result =>
                .request proto.name (some result.1)
  | _ => none

/-- `host:dispatch`, without the function that answers a request. -/
def hostDispatch [LuaFloat φ] (host : Host) (v : Bytes) :
    Option (Dispatched (Table φ)) × Host :=
  match core.unpack v with
  | none => (none, host)
  | some bin =>
      match core.decode package bin with
      | none => (none, host)
      | some (header, size) =>
          let content := bin.drop size
          if truthy (header "type") then (dispatchRequest core protos (header "type") content, host)
          else dispatchResponse core host (header "session") content

/-! ## A response and its session -/

theorem package_admits (type : Option Nat) (session : Nat) :
    package.Admits (headerTmp type session : Table φ) := by
  intro field hfield
  simp only [package, List.mem_cons, List.not_mem_nil, or_false] at hfield
  rcases hfield with rfl | rfl
  · cases type <;> trivial
  · trivial

theorem restrict_header (type : Option Nat) (session : Nat) (name : String)
    (hname : name ∈ package.fields.map Prod.fst) :
    package.restrict (headerTmp type session : Table φ) name = headerTmp type session name :=
  if_pos hname

theorem decode_header {type : Option Nat} {session : Nat} {header : Bytes}
    (hheader : core.encode package (headerTmp type session) = some header) (rest : Bytes) :
    core.decode package (header ++ rest) =
      some (package.restrict (headerTmp type session), header.length) := by
  obtain ⟨decoded, hdecode, hadmits⟩ := core.decode_encode package _ header rest hheader
  rw [hdecode, hadmits (package_admits type session)]

theorem hostDispatch_response [LuaFloat φ] (host : Host) {session : Nat} {packet header : Bytes}
    (hheader : core.encode package (headerTmp none session) = some header) (rest : Bytes)
    (hunpack : core.unpack packet = some (header ++ rest)) :
    hostDispatch core protos host packet =
      dispatchResponse core host (.number (.integer session)) rest := by
  unfold hostDispatch
  rw [hunpack]
  simp only [decode_header core hheader, List.drop_left]
  rw [restrict_header none session "type" (by decide),
    restrict_header none session "session" (by decide)]
  rfl

theorem dispatchResponse_waits {host : Host} {session : Nat} {response : Option SprotoType}
    (hwaits : host.session session = some response) (content : Bytes) :
    dispatchResponse core host (.number (.integer session)) content =
      (readResponse core session response content, host.forget session) := by
  change dispatchResponse core host (.number (.integer (.ofNat session))) content = _
  simp only [dispatchResponse, hwaits]

/-- A host that waits for the session dispatches the response to it and forgets the session. -/
theorem hostDispatch_genResponse [LuaFloat φ] {host : Host} {response : Option SprotoType}
    {session : Nat} {args : Table φ} {packet : Bytes}
    (hpacket : genResponse core response session args = some packet)
    (hwaits : host.session session = some response) :
    ∃ msg, hostDispatch core protos host packet =
        (some (.response session msg), host.forget session) ∧
      ∀ ty, response = some ty → ty.Admits args → msg = some (ty.restrict args) := by
  unfold genResponse at hpacket
  cases hheader : core.encode package (headerTmp none session) with
  | none => simp [hheader] at hpacket
  | some header =>
      rw [hheader] at hpacket
      cases response with
      | none =>
          cases Option.some.inj hpacket
          obtain ⟨zeros, hunpack⟩ := core.unpack_pack header
          refine ⟨none, ?_, fun ty hty => by simp at hty⟩
          rw [hostDispatch_response core protos host hheader zeros hunpack,
            dispatchResponse_waits core hwaits]
          rfl
      | some ty =>
          obtain ⟨content, hcontent, rfl⟩ := Option.map_eq_some_iff.mp hpacket
          obtain ⟨zeros, hunpack⟩ := core.unpack_pack (header ++ content)
          obtain ⟨decoded, hdecode, hadmits⟩ := core.decode_encode ty args content zeros hcontent
          refine ⟨some decoded, ?_, ?_⟩
          · rw [List.append_assoc] at hunpack
            rw [hostDispatch_response core protos host hheader _ hunpack,
              dispatchResponse_waits core hwaits]
            simp only [readResponse, hdecode, Option.map_some]
          · intro ty' hty hargs
            cases Option.some.inj hty
            rw [hadmits hargs]

end Host

end Doudizhu.Network
