import Doudizhu.Lib.Runs
import Doudizhu.Network.SprotoCore
import Doudizhu.Network.StreamReassembly

/-! # Responses and their requests

`sendMessage` numbers its requests from 1 and starts again from 0 after 0xFFFFFFFE.  The number
of a request stands in two tables until the response comes: in `m_sessionMap` with the protocol
name, in the host with the type of the response.

The invariant reads both tables at the sessions of the requests without a response.  Two such
requests are less than 0xFFFFFFFF calls apart, so they have different sessions, and neither a
later call nor another response touches their entries. -/

set_option autoImplicit false

namespace Doudizhu.Network

open Lua Runs

section Client
variable {σ : Type}

def SocketManager.ctor (host : σ) : SocketManager σ where
  m_connected := false
  m_session := 0
  m_sessionMap _ := none
  host := host

def accumulationSession (sm : SocketManager σ) : SocketManager σ :=
  { sm with m_session := if sm.m_session + 1 ≥ 0xFFFFFFFF then 0 else sm.m_session + 1 }

def writeShort (short : Nat) : Bytes := [UInt8.ofNat (short / 256), UInt8.ofNat (short % 256)]

end Client

section Send
variable {φ : Type} (core : SprotoCore φ) (protos : List Protocol)

/-- The bytes for the socket, `none` when nothing is sent: there is no connection, or the request
cannot be made and `sendMessage` raises, with the session counted. -/
def sendMessage (sm : SocketManager Host) (protoName : String) (params : Option (Table φ)) :
    Option Bytes × SocketManager Host :=
  if sm.m_connected then
    let sm := accumulationSession sm
    match attach core protos sm.host protoName params sm.m_session with
    | (none, host) => (none, { sm with host := host })
    | (some sendPacket, host) =>
        (some (writeShort sendPacket.length ++ sendPacket),
          { sm with
            host := host
            m_sessionMap := Function.update sm.m_sessionMap sm.m_session (some protoName) })
  else (none, sm)

end Send

/-! ## Runs -/

/-- The protocol name a call of `sendMessage` was given and the session it took. -/
structure Call where
  protoName : String
  session : Nat

/-- `calls` are the calls of `sendMessage` that took a session, in order; `unanswered` holds the
indices of those that were sent and whose response has not come. -/
structure ClientState where
  sm : SocketManager Host
  calls : List Call
  unanswered : List Nat

inductive ClientEvent (φ : Type) where
  | status (connected : Bool)
  | send (protoName : String) (params : Option (Table φ))
  /-- The response to call `k`, with the table the server's handler has returned. -/
  | arrive (k : Nat) (args : Table φ)

section Run
variable {φ : Type} [LuaFloat φ] (core : SprotoCore φ) (protos : List Protocol)

def answerFrame (call : Call) (args : Table φ) : Option Bytes :=
  (queryproto protos call.protoName).bind fun proto =>
    (genResponse core proto.response call.session args).bind sendPackage

def receive (sm : SocketManager Host) (frame : Bytes) :
    List (Delivery (Table φ)) × SocketManager Host :=
  onData (hostDispatch core protos) sm frame

namespace ClientState

def incoming (s : ClientState) (k : Nat) (args : Table φ) : Option Bytes :=
  if k ∈ s.unanswered then (s.calls[k]?).bind fun call => answerFrame core protos call args
  else none

def step (s : ClientState) : ClientEvent φ → Option ClientState
  | .status connected => some { s with sm := { s.sm with m_connected := connected } }
  | .send protoName params =>
      let sent := sendMessage core protos s.sm protoName params
      some
        { sm := sent.2
          calls := if s.sm.m_connected then s.calls ++ [⟨protoName, sent.2.m_session⟩] else s.calls
          unanswered := if sent.1.isSome then s.unanswered ++ [s.calls.length] else s.unanswered }
  | .arrive k args =>
      (s.incoming core protos k args).map fun frame =>
        { s with
          sm := (receive core protos s.sm frame).2
          unanswered := s.unanswered.filter fun j => j ≠ k }

def start (host : Host) : ClientState where
  sm := .ctor host
  calls := []
  unanswered := []

/-- Fewer than 0xFFFFFFFE further calls have been made since any request without a response; a
call that raises uses up a session too. -/
def InTime (s : ClientState) : Prop :=
  ∀ k ∈ s.unanswered, s.calls.length - (k + 1) < 0xFFFFFFFE

/-- The response is dispatched as one event, with the name of the call that took its session, and
`m_sessionMap` has no entry for the session afterwards. -/
def Attributed (s : ClientState) : ClientEvent φ → Prop
  | .arrive k args =>
      ∀ frame, s.incoming core protos k args = some frame →
        ∃ call packet msg, s.calls[k]? = some call ∧
          (receive core protos s.sm frame).1 =
            [⟨packet, ⟨.RESPONSE, some call.protoName, msg⟩⟩] ∧
          (receive core protos s.sm frame).2.m_sessionMap call.session = none
  | _ => True

end ClientState

end Run

/-! ## What a call does to the two tables -/

section Tables
variable {φ : Type} (core : SprotoCore φ) (protos : List Protocol)

theorem attach_expects {host host' : Host} {name : String} {args : Option (Table φ)}
    {session : Nat} {packet : Bytes}
    (h : attach core protos host name args session = (some packet, host')) :
    ∃ proto, queryproto protos name = some proto ∧ host' = host.expect session proto.response := by
  unfold attach at h
  split at h
  · simp at h
  · rename_i proto hproto
    refine ⟨proto, hproto, ?_⟩
    split at h
    · simp at h
    · split at h
      · exact (congrArg Prod.snd h).symm
      · split at h
        · simp at h
        · exact (congrArg Prod.snd h).symm

theorem attach_of_ne (host : Host) (name : String) (args : Option (Table φ))
    {session other : Nat} (hother : other ≠ session) :
    (attach core protos host name args session).2.session other = host.session other := by
  have hexpect : ∀ response, (host.expect session response).session other = host.session other :=
    fun response => Function.update_of_ne hother _ _
  unfold attach
  split
  · rfl
  · split
    · rfl
    · split
      · exact hexpect _
      · split
        · exact hexpect _
        · exact hexpect _

inductive Sends (sm : SocketManager Host) (protoName : String) :
    Option Bytes × SocketManager Host → Prop
  | silent (offline : sm.m_connected = false) : Sends sm protoName (none, sm)
  | raised (host : Host) (online : sm.m_connected = true)
      (others : ∀ other, other ≠ (accumulationSession sm).m_session →
        host.session other = sm.host.session other) :
      Sends sm protoName (none, { accumulationSession sm with host := host })
  | sent (bytes : Bytes) (proto : Protocol) (online : sm.m_connected = true)
      (found : queryproto protos protoName = some proto) :
      Sends sm protoName
        (some bytes,
          { accumulationSession sm with
            host := sm.host.expect (accumulationSession sm).m_session proto.response
            m_sessionMap := Function.update sm.m_sessionMap (accumulationSession sm).m_session
              (some protoName) })

theorem sendMessage_sends (sm : SocketManager Host) (protoName : String)
    (params : Option (Table φ)) :
    Sends protos sm protoName (sendMessage core protos sm protoName params) := by
  unfold sendMessage
  cases honline : sm.m_connected with
  | false => exact .silent honline
  | true =>
      rw [if_pos rfl]
      have hothers : ∀ other, other ≠ (accumulationSession sm).m_session →
          (attach core protos sm.host protoName params
            (accumulationSession sm).m_session).2.session other = sm.host.session other :=
        fun other hother => attach_of_ne core protos sm.host protoName params hother
      cases hattach : attach core protos sm.host protoName params
          (accumulationSession sm).m_session with
      | mk packet host =>
          rw [hattach] at hothers
          cases packet with
          | none =>
              simp only [accumulationSession] at hattach ⊢
              simp only [hattach]
              exact .raised host honline hothers
          | some packet =>
              obtain ⟨proto, hproto, rfl⟩ := attach_expects core protos hattach
              simp only [accumulationSession] at hattach ⊢
              simp only [hattach]
              exact .sent _ proto honline hproto

/-- Both tables wait for the response to the call. -/
def Awaits (sm : SocketManager Host) (call : Call) : Prop :=
  ∃ proto, queryproto protos call.protoName = some proto ∧
    sm.m_sessionMap call.session = some call.protoName ∧
    sm.host.session call.session = some proto.response

/-- A call that takes another session leaves both entries alone. -/
theorem awaits_sends {sm : SocketManager Host} {protoName : String}
    {sent : Option Bytes × SocketManager Host} (hsends : Sends protos sm protoName sent)
    {call : Call} (hother : call.session ≠ (accumulationSession sm).m_session)
    (hawaits : Awaits protos sm call) : Awaits protos sent.2 call := by
  obtain ⟨proto, hproto, hname, hresponse⟩ := hawaits
  refine ⟨proto, hproto, ?_⟩
  cases hsends with
  | silent offline => exact ⟨hname, hresponse⟩
  | raised host online others => exact ⟨hname, (others _ hother).trans hresponse⟩
  | sent bytes proto' online found =>
      exact ⟨(Function.update_of_ne hother _ _).trans hname,
        (Function.update_of_ne hother _ _).trans hresponse⟩

def answered (sm : SocketManager Host) (session : Nat) : SocketManager Host :=
  { sm with
    host := sm.host.forget session
    m_sessionMap := fun k => if k = session then none else sm.m_sessionMap k }

theorem awaits_answered {sm : SocketManager Host} {session : Nat} {call : Call}
    (hother : call.session ≠ session) (hawaits : Awaits protos sm call) :
    Awaits protos (answered sm session) call := by
  obtain ⟨proto, hproto, hname, hresponse⟩ := hawaits
  exact ⟨proto, hproto, (if_neg hother).trans hname,
    (Function.update_of_ne hother _ _).trans hresponse⟩

variable [LuaFloat φ]

/-- A frame in front of others is handled before the rest of the chunk is looked at, so a chunk
of several frames is received as these frames one after another. -/
theorem onData_frame {sm sm' : SocketManager Host} {packet frame : Bytes}
    {event : DataEvent (Table φ)} (hframe : sendPackage packet = some frame)
    (hhandle : handlePacket (hostDispatch core protos) sm packet = (some event, sm'))
    (rest : Bytes) :
    onData (hostDispatch core protos) sm (frame ++ rest) =
      (⟨packet, event⟩ :: (onData (hostDispatch core protos) sm' rest).1,
        (onData (hostDispatch core protos) sm' rest).2) := by
  unfold onData
  rw [onDataLoop_of_some (hostDispatch core protos) sm (unpackPackage_sendPackage rest hframe),
    hhandle]

theorem receive_frame {sm sm' : SocketManager Host} {packet frame : Bytes}
    {event : DataEvent (Table φ)} (hframe : sendPackage packet = some frame)
    (hhandle : handlePacket (hostDispatch core protos) sm packet = (some event, sm')) :
    receive core protos sm frame = ([⟨packet, event⟩], sm') := by
  have hchunk := onData_frame core protos hframe hhandle []
  have hend : onData (hostDispatch core protos) sm' [] = ([], sm') :=
    onDataLoop_of_none (hostDispatch core protos) sm' (rfl : unpackPackage [] = (none, []))
  rw [hend, List.append_nil] at hchunk
  exact hchunk

theorem receive_answer {sm : SocketManager Host} {call : Call} {args : Table φ} {frame : Bytes}
    (hawaits : Awaits protos sm call)
    (hframe : answerFrame core protos call args = some frame) :
    ∃ packet msg, receive core protos sm frame =
      ([⟨packet, ⟨.RESPONSE, some call.protoName, msg⟩⟩], answered sm call.session) := by
  obtain ⟨proto, hproto, hname, hresponse⟩ := hawaits
  simp only [answerFrame, hproto, Option.bind_some, Option.bind_eq_some_iff] at hframe
  obtain ⟨packet, hpacket, hframe⟩ := hframe
  obtain ⟨msg, hdispatch, _⟩ := hostDispatch_genResponse core protos hpacket hresponse
  refine ⟨packet, msg, receive_frame core protos hframe ?_⟩
  simp only [handlePacket, hdispatch, hname]
  rfl

end Tables

/-! ## The invariant -/

section Invariant
variable {φ : Type} [LuaFloat φ] (core : SprotoCore φ) (protos : List Protocol)

namespace ClientState

structure Consistent (s : ClientState) : Prop where
  counter : s.sm.m_session = s.calls.length % 0xFFFFFFFF
  sessions : ∀ k call, s.calls[k]? = some call → call.session = (k + 1) % 0xFFFFFFFF
  awaits : ∀ k ∈ s.unanswered, ∃ call, s.calls[k]? = some call ∧ Awaits protos s.sm call

theorem consistent_start (host : Host) : (start host).Consistent protos where
  counter := rfl
  sessions k call h := by simp [start] at h
  awaits k h := by simp [start] at h

theorem accumulationSession_counter {s : ClientState} (hs : s.Consistent protos) :
    (accumulationSession s.sm).m_session = (s.calls.length + 1) % 0xFFFFFFFF := by
  have hcounter := hs.counter
  simp only [accumulationSession]
  split <;> omega

/-- The sessions of requests without a response differ from each other. -/
theorem sessions_differ {s : ClientState} (hs : s.Consistent protos) (hin : s.InTime)
    {j k : Nat} {a b : Call} (hj : j ∈ s.unanswered) (hk : k ∈ s.unanswered) (hne : j ≠ k)
    (ha : s.calls[j]? = some a) (hb : s.calls[k]? = some b) : a.session ≠ b.session := by
  have hjlt := (List.getElem?_eq_some_iff.mp ha).1
  have hklt := (List.getElem?_eq_some_iff.mp hb).1
  have hjin := hin j hj
  have hkin := hin k hk
  rw [hs.sessions j a ha, hs.sessions k b hb]
  omega

/-- A request whose response can still come does not have the session of the next call. -/
theorem session_ne_next {s : ClientState} (hs : s.Consistent protos) {k : Nat} {call : Call}
    (hcall : s.calls[k]? = some call) (hin : s.calls.length + 1 - (k + 1) < 0xFFFFFFFE) :
    call.session ≠ (accumulationSession s.sm).m_session := by
  have hlt := (List.getElem?_eq_some_iff.mp hcall).1
  rw [hs.sessions k call hcall, accumulationSession_counter protos hs]
  omega

/-- A call that takes a session, whether or not it reaches the socket. -/
theorem consistent_call {s s' : ClientState} (call : Call) (hs : s.Consistent protos)
    (hcalls : s'.calls = s.calls ++ [call])
    (hcounter : s'.sm.m_session = (accumulationSession s.sm).m_session)
    (hsession : call.session = (accumulationSession s.sm).m_session)
    (hold : ∀ k ∈ s'.unanswered, k ∈ s.unanswered ∨
      k = s.calls.length ∧ Awaits protos s'.sm call)
    (hkept : ∀ other : Call, other.session ≠ (accumulationSession s.sm).m_session →
      Awaits protos s.sm other → Awaits protos s'.sm other)
    (hin : s'.InTime) : s'.Consistent protos := by
  have hnext := accumulationSession_counter protos hs
  refine ⟨?_, ?_, ?_⟩
  · rw [hcounter, hnext, hcalls, List.length_append, List.length_singleton]
  · intro k other hother
    rw [hcalls] at hother
    by_cases hk : k < s.calls.length
    · rw [List.getElem?_append_left hk] at hother
      exact hs.sessions k other hother
    · obtain ⟨hlt, hget⟩ := List.getElem?_eq_some_iff.mp hother
      rw [List.length_append, List.length_singleton] at hlt
      have hlast : k = s.calls.length := by omega
      subst hlast
      rw [List.getElem?_concat_length] at hother
      cases Option.some.inj hother
      rw [hsession, hnext]
  · intro k hk
    rw [hcalls]
    have hkin := hin k hk
    rw [hcalls, List.length_append, List.length_singleton] at hkin
    rcases hold k hk with hk | ⟨rfl, hawaits⟩
    · obtain ⟨other, hother, hawaits⟩ := hs.awaits k hk
      have hlt := (List.getElem?_eq_some_iff.mp hother).1
      refine ⟨other, ?_, hkept other (session_ne_next protos hs hother hkin) hawaits⟩
      rw [List.getElem?_append_left hlt]
      exact hother
    · exact ⟨call, List.getElem?_concat_length .., hawaits⟩

theorem consistent_send {s s' : ClientState} {protoName : String} {params : Option (Table φ)}
    (hs : s.Consistent protos) (hstep : s.step core protos (.send protoName params) = some s')
    (hin : s'.InTime) : s'.Consistent protos := by
  cases Option.some.inj hstep
  have hsends := sendMessage_sends core protos s.sm protoName params
  generalize sendMessage core protos s.sm protoName params = sent at hsends hin ⊢
  have hkept : ∀ other : Call, other.session ≠ (accumulationSession s.sm).m_session →
      Awaits protos s.sm other → Awaits protos sent.2 other :=
    fun other hother => awaits_sends protos hsends hother
  cases hsends with
  | silent offline => simpa [offline] using hs
  | raised host online others =>
      refine consistent_call protos ⟨protoName, (accumulationSession s.sm).m_session⟩ hs ?_ rfl rfl
        ?_ hkept hin
      · simp [online, accumulationSession]
      · intro k hk
        exact Or.inl (by simpa using hk)
  | sent bytes proto online found =>
      refine consistent_call protos ⟨protoName, (accumulationSession s.sm).m_session⟩ hs ?_ rfl rfl
        ?_ hkept hin
      · simp [online, accumulationSession]
      · intro k hk
        simp only [Option.isSome_some, if_true, List.mem_append, List.mem_singleton] at hk
        refine hk.imp id fun h => ⟨h, proto, found, ?_, ?_⟩
        · exact Function.update_self ..
        · exact Function.update_self ..

omit [LuaFloat φ] in
theorem incoming_eq_some {s : ClientState} {k : Nat} {args : Table φ} {frame : Bytes}
    (h : s.incoming core protos k args = some frame) :
    k ∈ s.unanswered ∧ ∃ call, s.calls[k]? = some call ∧
      answerFrame core protos call args = some frame := by
  unfold incoming at h
  split at h
  · exact ⟨‹_›, Option.bind_eq_some_iff.mp h⟩
  · cases h

/-- A response is dispatched once and takes its own entries out of both tables. -/
theorem receive_incoming {s : ClientState} {k : Nat} {args : Table φ} {frame : Bytes}
    (hs : s.Consistent protos) (h : s.incoming core protos k args = some frame) :
    ∃ call packet msg, s.calls[k]? = some call ∧ receive core protos s.sm frame =
      ([⟨packet, ⟨.RESPONSE, some call.protoName, msg⟩⟩], answered s.sm call.session) := by
  obtain ⟨hk, call, hcall, hframe⟩ := incoming_eq_some core protos h
  obtain ⟨other, hother, hawaits⟩ := hs.awaits k hk
  cases Option.some.inj (hcall.symm.trans hother)
  obtain ⟨packet, msg, hreceive⟩ := receive_answer core protos hawaits hframe
  exact ⟨call, packet, msg, hcall, hreceive⟩

theorem consistent_arrive {s s' : ClientState} {k : Nat} {args : Table φ}
    (hs : s.Consistent protos) (hin : s.InTime)
    (hstep : s.step core protos (.arrive k args) = some s') : s'.Consistent protos := by
  obtain ⟨frame, hframe, rfl⟩ := Option.map_eq_some_iff.mp hstep
  obtain ⟨call, packet, msg, hcall, hreceive⟩ := receive_incoming core protos hs hframe
  have hk := (incoming_eq_some core protos hframe).1
  rw [hreceive]
  refine ⟨hs.counter, hs.sessions, ?_⟩
  intro j hj
  obtain ⟨hj, hjk⟩ := List.mem_filter.mp hj
  obtain ⟨other, hother, hawaits⟩ := hs.awaits j hj
  have hne := sessions_differ protos hs hin hj hk (of_decide_eq_true hjk) hother hcall
  exact ⟨other, hother, awaits_answered protos hne hawaits⟩

theorem consistent_step {s s' : ClientState} {e : ClientEvent φ} (hs : s.Consistent protos)
    (hin : s.InTime) (hin' : s'.InTime) (hstep : s.step core protos e = some s') :
    s'.Consistent protos := by
  cases e with
  | status connected =>
      cases Option.some.inj hstep
      exact ⟨hs.counter, hs.sessions, hs.awaits⟩
  | send protoName params => exact consistent_send core protos hs hstep hin'
  | arrive k args => exact consistent_arrive core protos hs hin hstep

omit [LuaFloat φ] in
theorem inTime_of_few {s : ClientState} (h : s.calls.length < 0xFFFFFFFE) : s.InTime := by
  intro k _
  omega

theorem calls_step {s s' : ClientState} {e : ClientEvent φ}
    (hstep : s.step core protos e = some s') : s'.calls.length ≤ s.calls.length + 1 := by
  cases e with
  | status connected =>
      cases Option.some.inj hstep
      exact Nat.le_succ _
  | send protoName params =>
      cases Option.some.inj hstep
      simp only
      split <;> simp
  | arrive k args =>
      obtain ⟨frame, _, rfl⟩ := Option.map_eq_some_iff.mp hstep
      exact Nat.le_succ _

theorem inTime_of_short : ∀ (es : List (ClientEvent φ)) (s : ClientState),
    s.calls.length + es.length < 0xFFFFFFFE → Always (step core protos) InTime s es := by
  intro es
  induction es with
  | nil => intro s h; exact inTime_of_few (by simpa using h)
  | cons e es ih =>
      intro s h
      rw [List.length_cons] at h
      refine ⟨inTime_of_few (by omega), fun s' hstep => ih s' ?_⟩
      have hcalls := calls_step core protos hstep
      omega

theorem attributed_of_consistent {s : ClientState} (hs : s.Consistent protos)
    (e : ClientEvent φ) : s.Attributed core protos e := by
  cases e with
  | status connected => trivial
  | send protoName params => trivial
  | arrive k args =>
      intro frame hframe
      obtain ⟨call, packet, msg, hcall, hreceive⟩ := receive_incoming core protos hs hframe
      rw [hreceive]
      exact ⟨call, packet, msg, hcall, rfl, if_pos rfl⟩

theorem attributed_run : ∀ (es : List (ClientEvent φ)) (s : ClientState), s.Consistent protos →
    Always (step core protos) InTime s es →
      Along (step core protos) (Attributed core protos) s es := by
  intro es
  induction es with
  | nil => intro s _ _; trivial
  | cons e es ih =>
      intro s hs hin
      refine ⟨attributed_of_consistent core protos hs e, fun s' hstep => ?_⟩
      have hrest := hin.2 s' hstep
      exact ih s' (consistent_step core protos hs hin.1 hrest.head hstep) hrest

end ClientState

/-- Whatever is sent, answered and left without an answer, in any order and across the wrap of
the session counter, each response is dispatched with the name of the request it answers. -/
theorem responses_attributed (host : Host) (es : List (ClientEvent φ))
    (hin : Always (ClientState.step core protos) ClientState.InTime (ClientState.start host) es) :
    Along (ClientState.step core protos) (ClientState.Attributed core protos)
      (ClientState.start host) es :=
  ClientState.attributed_run core protos es _ (ClientState.consistent_start protos host) hin

def crossedResponses : List (ClientEvent Empty) :=
  [.status true, .send "login" none, .send "createRoom" none,
    .arrive 1 fun field => if field = "status" then .number (.integer 1) else .nil,
    .arrive 0 emptyTable]

theorem crossed_responses_attributed :
    (run (ClientState.step (sprotoCore Empty) c2s) (ClientState.start ⟨fun _ => none⟩)
      crossedResponses).map ClientState.unanswered = some [] ∧
    Along (ClientState.step (sprotoCore Empty) c2s) (ClientState.Attributed (sprotoCore Empty) c2s)
      (ClientState.start ⟨fun _ => none⟩) crossedResponses :=
  ⟨by decide +kernel, responses_attributed (sprotoCore Empty) c2s ⟨fun _ => none⟩ crossedResponses
    (ClientState.inTime_of_short (sprotoCore Empty) c2s crossedResponses _ (by decide))⟩

end Invariant

end Doudizhu.Network
