import Doudizhu.Network.Sessions

/-! # The frames the client writes

`sendMessage` writes the length of a packet as a signed short, which keeps its two low bytes.  The
reader takes the two bytes for an unsigned length, so the sign does no harm, and a packet that
needs more than two bytes is announced as a shorter one. -/

set_option autoImplicit false

namespace Doudizhu.Network

open Lua

section Frames
variable {φ : Type} (core : SprotoCore φ) (protos : List Protocol)

/-- The packet that `sendMessage` has encoded, if it gets that far. -/
def sendPacket (sm : SocketManager Host) (protoName : String) (params : Option (Table φ)) :
    Option Bytes :=
  if sm.m_connected then
    (attach core protos sm.host protoName params (accumulationSession sm).m_session).1
  else none

/-- Whatever follows the bytes, the reader takes the packet off and leaves the rest. -/
def Framed (packet bytes : Bytes) : Prop :=
  ∀ rest, unpackPackage (bytes ++ rest) = (some packet, rest)

/-- The socket gets the packet in a frame, or the call has no effect but on the counter. -/
def SendsFramed (sm : SocketManager Host) (protoName : String) (params : Option (Table φ)) :
    Prop :=
  (∃ packet bytes, sendPacket core protos sm protoName params = some packet ∧
      (sendMessage core protos sm protoName params).1 = some bytes ∧ Framed packet bytes) ∨
    ((sendMessage core protos sm protoName params).1 = none ∧
      (sendMessage core protos sm protoName params).2.m_sessionMap = sm.m_sessionMap)

theorem sendMessage_sent {sm : SocketManager Host} {protoName : String}
    {params : Option (Table φ)} {packet : Bytes}
    (h : sendPacket core protos sm protoName params = some packet) :
    (sendMessage core protos sm protoName params).1 =
      some (writeShort packet.length ++ packet) := by
  unfold sendPacket at h
  unfold sendMessage
  split_ifs at h with honline
  rw [if_pos honline]
  cases hattach : attach core protos sm.host protoName params
      (accumulationSession sm).m_session with
  | mk sent host =>
      rw [hattach] at h
      cases h
      simp only [accumulationSession] at hattach ⊢
      simp only [hattach]

theorem sendMessage_unsent {sm : SocketManager Host} {protoName : String}
    {params : Option (Table φ)} (h : sendPacket core protos sm protoName params = none) :
    (sendMessage core protos sm protoName params).1 = none ∧
      (sendMessage core protos sm protoName params).2.m_sessionMap = sm.m_sessionMap := by
  unfold sendPacket at h
  unfold sendMessage
  split_ifs at h ⊢
  · cases hattach : attach core protos sm.host protoName params
        (accumulationSession sm).m_session with
    | mk sent host =>
        rw [hattach] at h
        cases h
        simp only [accumulationSession] at hattach ⊢
        simp only [hattach]
        exact ⟨trivial, trivial⟩
  · exact ⟨rfl, rfl⟩

omit core protos in
theorem framed_writeShort_iff (packet : Bytes) :
    Framed packet (writeShort packet.length ++ packet) ↔ packet.length < 65536 := by
  constructor
  · intro h
    have hself := h []
    rw [List.append_nil, writeShort, List.cons_append, List.cons_append, List.nil_append,
      unpackPackage_cons] at hself
    split_ifs at hself with hshort
    · exact absurd (Prod.mk.inj hself).1.symm (Option.some_ne_none packet)
    · have htaken := congrArg List.length (Option.some.inj (Prod.mk.inj hself).1)
      rw [List.length_take] at htaken
      have hhigh := (UInt8.ofNat (packet.length / 256)).toNat_lt
      have hlow := (UInt8.ofNat (packet.length % 256)).toNat_lt
      omega
  · intro hlen rest
    exact unpackPackage_sendPackage rest (if_pos hlen)

theorem sendsFramed_iff_of_packet {sm : SocketManager Host} {protoName : String}
    {params : Option (Table φ)} {packet : Bytes}
    (hpacket : sendPacket core protos sm protoName params = some packet) :
    SendsFramed core protos sm protoName params ↔ packet.length < 65536 := by
  unfold SendsFramed
  rw [hpacket, sendMessage_sent core protos hpacket]
  constructor
  · rintro (⟨framed, bytes, hframed, hbytes, h⟩ | ⟨hnone, _⟩)
    · cases hframed
      cases hbytes
      exact (framed_writeShort_iff packet).mp h
    · exact absurd hnone (Option.some_ne_none _)
  · intro hlen
    exact .inl ⟨packet, _, rfl, rfl, (framed_writeShort_iff packet).mpr hlen⟩

/-- A call frames its packet or sends nothing if and only if the packet has less than 65536
bytes. -/
theorem sends_framed_iff (sm : SocketManager Host) (protoName : String)
    (params : Option (Table φ)) :
    SendsFramed core protos sm protoName params ↔
      ∀ packet, sendPacket core protos sm protoName params = some packet →
        packet.length < 65536 := by
  cases hpacket : sendPacket core protos sm protoName params with
  | none =>
      refine iff_of_true (.inr (sendMessage_unsent core protos hpacket)) fun packet h => ?_
      exact absurd h.symm (Option.some_ne_none packet)
  | some packet =>
      rw [sendsFramed_iff_of_packet core protos hpacket]
      constructor
      · intro hlen packet' hpacket'
        cases hpacket'
        exact hlen
      · intro hall
        exact hall packet rfl

end Frames

/-! ## A long identity -/

def longSmid (n : Nat) : String := String.ofList (List.replicate n 'a')

theorem stringBytes_longSmid (n : Nat) : stringBytes (longSmid n) = List.replicate n 97 := by
  have hbytes : stringBytes (longSmid n) = (List.replicate n 'a').flatMap String.utf8EncodeChar :=
    List.toList_data_toByteArray
  rw [hbytes]
  induction n with
  | zero => rfl
  | succ n ih =>
      have hrest : stringBytes (longSmid n) =
          (List.replicate n 'a').flatMap String.utf8EncodeChar := List.toList_data_toByteArray
      rw [List.replicate_succ, List.flatMap_cons, ih hrest, List.replicate_succ]
      rfl

def longLogin (n : Nat) : Table Empty := fun field =>
  if field = "smid" then .string (longSmid n) else .nil

def connected : SocketManager Host :=
  { SocketManager.ctor ⟨fun _ => none⟩ with m_connected := true }

def longMessage (n : Nat) : Bytes :=
  [2, 0, 4, 0, 4, 0] ++ ([1, 0, 0, 0] ++ object (List.replicate n 97))

theorem encode_longLogin {n : Nat} (hn : n + 10 ≤ encodeMaxsize) :
    sprotoEncode ⟨[("smid", .string), ("type", .integer)]⟩ (longLogin n) =
      some ([1, 0, 0, 0] ++ object (List.replicate n 97)) := by
  have hsmid : encodeField .string (longLogin n "smid") =
      some (some (0, object (List.replicate n 97))) := by
    rw [← stringBytes_longSmid n]
    rfl
  have hfields : encodeFields (longLogin n) [("smid", .string), ("type", .integer)] 0 =
      some ([0], object (List.replicate n 97) ++ []) := by
    rw [encodeFields, hsmid]
    rfl
  have hdata : (object (List.replicate n (97 : UInt8))).length = 4 + n := by
    rw [object, List.length_append, length_fill, List.length_replicate]
  unfold sprotoEncode
  rw [hfields, List.append_nil]
  dsimp only
  rw [if_pos ⟨⟨by decide, by simp⟩, by
    rw [hdata]
    simp only [List.length_cons, List.length_nil]
    omega⟩]
  rfl

theorem sendPacket_longLogin {n : Nat} (hn : n + 10 ≤ encodeMaxsize) :
    sendPacket (sprotoCore Empty) c2s connected "login" (some (longLogin n)) =
      some (lpack (longMessage n)) ∧ n ≤ (lpack (longMessage n)).length := by
  constructor
  · have hproto : queryproto c2s "login" = some loginProtocol := rfl
    have hheader : (sprotoCore Empty).encode package
        (headerTmp (some loginProtocol.tag) (accumulationSession connected).m_session) =
          some [2, 0, 4, 0, 4, 0] := rfl
    have hrequest : (loginProtocol.request.bind fun request =>
        (sprotoCore Empty).encode request (longLogin n)) =
          some ([1, 0, 0, 0] ++ object (List.replicate n 97)) := encode_longLogin hn
    simp only [sendPacket, attach, hproto, hheader, hrequest]
    rfl
  · have hpack := nonzero_le_lpack (longMessage n)
    have hsmid : SprotoPack.nonzero (List.replicate n (97 : UInt8)) = List.replicate n 97 := by
      simp [SprotoPack.nonzero]
    have hsplit : (SprotoPack.nonzero (longMessage n)).length ≥ n := by
      unfold longMessage object SprotoPack.nonzero at *
      simp only [List.filter_append, List.length_append, hsmid, List.length_replicate]
      omega
    omega

/-- A login whose smid has 70000 bytes is announced as a short packet. -/
theorem long_login_misframed :
    ¬ SendsFramed (sprotoCore Empty) c2s connected "login" (some (longLogin 70000)) := by
  intro h
  obtain ⟨hpacket, hlong⟩ := sendPacket_longLogin (n := 70000) (by decide)
  have hshort := (sendsFramed_iff_of_packet _ _ hpacket).mp h
  omega

end Doudizhu.Network
