import Doudizhu.Lib.Framing

/-! # The client's socket manager and the server's framing

`sendPackage` is the server side of the wire (`agent.lua`): `string.pack(">s2", pack)`, which
raises when the length does not fit two bytes.  `onData` is the EVENT_DATA handler of
`SocketManager.lua`.  The handler starts from the data of the event alone; whatever
`unpackPackage` leaves at the end of the loop is a local variable and goes with it.

The sproto host is a parameter: `dispatch` answers a packet with the decoded message, or raises
(`none`), and may change the host's own session table in both cases. -/

set_option autoImplicit false

namespace Doudizhu.Network

abbrev Bytes := List UInt8

/-! ## The server side -/

def sendPackage (pack : Bytes) : Option Bytes :=
  if pack.length < 65536 then
    some (UInt8.ofNat (pack.length / 256) :: UInt8.ofNat (pack.length % 256) :: pack)
  else none

/-! ## The client side -/

inductive Head where
  | REQUEST
  | RESPONSE
  deriving DecidableEq

/-- What `host:dispatch` returns: a request carries its protocol name, a response the session. -/
inductive Dispatched (Msg : Type) where
  | request (name : String) (msg : Option Msg)
  | response (session : Nat) (msg : Option Msg)

/-- The event of `self:dispatchEvent({name=self.EVENT_DATA, ...})`. -/
structure DataEvent (Msg : Type) where
  head : Head
  protoname : Option String
  data : Option Msg
  deriving DecidableEq

/-- `host` is the state of the module's sproto host. -/
structure SocketManager (σ : Type) where
  m_connected : Bool
  m_session : Nat
  m_sessionMap : Nat → Option String
  host : σ

/-- A packet taken off the stream together with the event dispatched for it. -/
structure Delivery (Msg : Type) where
  packet : Bytes
  event : DataEvent Msg

def unpackPackage (text : Bytes) : Option Bytes × Bytes :=
  let size := text.length
  if size < 2 then (none, text)
  else
    let s := (text.getD 0 0).toNat * 256 + (text.getD 1 0).toNat
    if size < s + 2 then (none, text)
    else (some ((text.take (2 + s)).drop 2), text.drop (2 + s))

theorem unpackPackage_cons (b₁ b₂ : UInt8) (body : Bytes) :
    unpackPackage (b₁ :: b₂ :: body) =
      if body.length < b₁.toNat * 256 + b₂.toNat then (none, b₁ :: b₂ :: body)
      else (some (body.take (b₁.toNat * 256 + b₂.toNat)),
        body.drop (b₁.toNat * 256 + b₂.toNat)) := by
  simp only [unpackPackage, List.length_cons, List.getD_cons_zero, List.getD_cons_succ]
  rw [if_neg (by omega)]
  by_cases hshort : body.length < b₁.toNat * 256 + b₂.toNat
  · rw [if_pos hshort, if_pos (by omega)]
  · rw [if_neg hshort, if_neg (by omega), Nat.add_comm 2, List.take_succ_cons,
      List.take_succ_cons, List.drop_succ_cons, List.drop_succ_cons, List.drop_zero,
      List.drop_succ_cons, List.drop_succ_cons]

theorem unpackPackage_rest_lt {text v rest : Bytes} (h : unpackPackage text = (some v, rest)) :
    rest.length < text.length := by
  match text with
  | [] => simp [unpackPackage] at h
  | [_] => simp [unpackPackage] at h
  | b₁ :: b₂ :: body =>
      rw [unpackPackage_cons] at h
      split at h
      · simp at h
      · obtain ⟨_, rfl⟩ := Prod.mk.inj h
        simp only [List.length_drop, List.length_cons]
        omega

section Client
variable {σ Msg : Type} (dispatch : σ → Bytes → Option (Dispatched Msg) × σ)

/-- The body of the loop for one packet: `none` when `host:dispatch` raises. -/
def handlePacket (sm : SocketManager σ) (v : Bytes) : Option (DataEvent Msg) × SocketManager σ :=
  match dispatch sm.host v with
  | (none, host) => (none, { sm with host := host })
  | (some (.request name msg), host) =>
      (some ⟨.REQUEST, some name, msg⟩, { sm with host := host })
  | (some (.response session msg), host) =>
      match sm.m_sessionMap session with
      | none => (some ⟨.RESPONSE, none, msg⟩, { sm with host := host })
      | some protoname =>
          (some ⟨.RESPONSE, some protoname, msg⟩,
            { sm with
              host := host
              m_sessionMap := fun k => if k = session then none else sm.m_sessionMap k })

/-- The `while true` loop of `_onData`.  An error of `host:dispatch` ends the handler. -/
def onDataLoop (sm : SocketManager σ) (last : Bytes) : List (Delivery Msg) × SocketManager σ :=
  match _h : unpackPackage last with
  | (none, _) => ([], sm)
  | (some v, rest) =>
      match handlePacket dispatch sm v with
      | (none, sm') => ([], sm')
      | (some event, sm') =>
          let tail := onDataLoop sm' rest
          (⟨v, event⟩ :: tail.1, tail.2)
termination_by last.length
decreasing_by exact unpackPackage_rest_lt (by assumption)

def onData (sm : SocketManager σ) (data : Bytes) : List (Delivery Msg) × SocketManager σ :=
  onDataLoop dispatch sm data

def feed : SocketManager σ → List Bytes → List (Delivery Msg) × SocketManager σ
  | sm, [] => ([], sm)
  | sm, chunk :: chunks =>
      let first := onData dispatch sm chunk
      let later := feed first.2 chunks
      (first.1 ++ later.1, later.2)

def deliver : SocketManager σ → List Bytes → List (Delivery Msg) × SocketManager σ
  | sm, [] => ([], sm)
  | sm, p :: ps =>
      let handled := handlePacket dispatch sm p
      let later := deliver handled.2 ps
      ((handled.1.map fun event => ⟨p, event⟩).toList ++ later.1, later.2)

/-- `host:dispatch` raises on none of the packets when they come in this order. -/
def Accepted : SocketManager σ → List Bytes → Prop
  | _, [] => True
  | sm, p :: ps =>
      (handlePacket dispatch sm p).1.isSome ∧ Accepted (handlePacket dispatch sm p).2 ps

end Client

/-! ## The wire format as a framing -/

theorem header_value (n : Nat) (h : n < 65536) :
    (UInt8.ofNat (n / 256)).toNat * 256 + (UInt8.ofNat (n % 256)).toNat = n := by
  simp only [UInt8.toNat_ofNat']
  omega

theorem header_bytes (b₁ b₂ : UInt8) :
    UInt8.ofNat ((b₁.toNat * 256 + b₂.toNat) / 256) = b₁ ∧
      UInt8.ofNat ((b₁.toNat * 256 + b₂.toNat) % 256) = b₂ := by
  have h₁ := b₁.toNat_lt
  have h₂ := b₂.toNat_lt
  have hdiv : (b₁.toNat * 256 + b₂.toNat) / 256 = b₁.toNat := by omega
  have hmod : (b₁.toNat * 256 + b₂.toNat) % 256 = b₂.toNat := by omega
  rw [hdiv, hmod]
  exact ⟨UInt8.ofNat_toNat, UInt8.ofNat_toNat⟩

theorem unpackPackage_sendPackage {p f : Bytes} (rest : Bytes) (h : sendPackage p = some f) :
    unpackPackage (f ++ rest) = (some p, rest) := by
  unfold sendPackage at h
  split at h
  · rename_i hlen
    cases Option.some.inj h
    rw [List.cons_append, List.cons_append, unpackPackage_cons, header_value _ hlen,
      if_neg (by simp), List.take_left, List.drop_left]
  · cases h

theorem sendPackage_of_unpackPackage {t p rest : Bytes}
    (h : unpackPackage t = (some p, rest)) : ∃ f, sendPackage p = some f ∧ t = f ++ rest := by
  match t with
  | [] => simp [unpackPackage] at h
  | [_] => simp [unpackPackage] at h
  | b₁ :: b₂ :: body =>
      rw [unpackPackage_cons] at h
      split at h
      · simp at h
      · rename_i hfull
        obtain ⟨hp, rfl⟩ := Prod.mk.inj h
        have hp : body.take (b₁.toNat * 256 + b₂.toNat) = p := Option.some.inj hp
        have hlen : p.length = b₁.toNat * 256 + b₂.toNat := by
          rw [← hp, List.length_take]
          omega
        have h₁ := b₁.toNat_lt
        have h₂ := b₂.toNat_lt
        refine ⟨b₁ :: b₂ :: p, ?_, ?_⟩
        · rw [sendPackage, if_pos (by omega), hlen, (header_bytes b₁ b₂).1,
            (header_bytes b₁ b₂).2]
        · rw [List.cons_append, List.cons_append, ← hp, List.take_append_drop]

/-- The two-byte length frames, read by `unpackPackage` and written by `sendPackage`. -/
def wire : Framing UInt8 Bytes where
  frame := sendPackage
  unframe text :=
    match unpackPackage text with
    | (some v, rest) => some (v, rest)
    | (none, _) => none
  unframe_frame rest h := by rw [unpackPackage_sendPackage rest h]
  frame_unframe {t p rest} h := by
    apply sendPackage_of_unpackPackage
    split at h
    · rename_i hu
      rw [hu]
      cases Option.some.inj h
      rfl
    · cases h
  frame_ne_nil {p f} h := by
    rintro rfl
    unfold sendPackage at h
    split at h <;> simp at h

end Doudizhu.Network
