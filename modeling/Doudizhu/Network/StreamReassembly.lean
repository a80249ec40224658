import Doudizhu.Network.SocketManager

/-! # Client stream reassembly

The server's stream reaches the client in chunks, one EVENT_DATA event each.  The handler reads
whole frames off the front of a chunk and forgets what is left, so it delivers the packets of
the stream exactly when no chunk ends inside a frame.

The converse counts bytes: a read packet accounts for its frame, and the frames of all packets
fill the stream, so delivering all of them leaves no byte of any chunk over. -/

set_option autoImplicit false

namespace Doudizhu.Network

section Delivery
variable {σ Msg : Type} (dispatch : σ → Bytes → Option (Dispatched Msg) × σ)

theorem deliver_append : ∀ (ps qs : List Bytes) (sm : SocketManager σ),
    deliver dispatch sm (ps ++ qs) =
      ((deliver dispatch sm ps).1 ++ (deliver dispatch (deliver dispatch sm ps).2 qs).1,
        (deliver dispatch (deliver dispatch sm ps).2 qs).2) := by
  intro ps
  induction ps with
  | nil => intro qs sm; rfl
  | cons p ps ih =>
      intro qs sm
      simp only [List.cons_append, deliver, ih, List.append_assoc]

theorem accepted_append : ∀ (ps qs : List Bytes) (sm : SocketManager σ),
    Accepted dispatch sm (ps ++ qs) ↔
      Accepted dispatch sm ps ∧ Accepted dispatch (deliver dispatch sm ps).2 qs := by
  intro ps
  induction ps with
  | nil => intro qs sm; simp [Accepted, deliver]
  | cons p ps ih =>
      intro qs sm
      simp only [List.cons_append, Accepted, deliver, ih, and_assoc]

theorem deliver_packets : ∀ (ps : List Bytes) (sm : SocketManager σ),
    Accepted dispatch sm ps → (deliver dispatch sm ps).1.map Delivery.packet = ps := by
  intro ps
  induction ps with
  | nil => intro sm _; rfl
  | cons p ps ih =>
      intro sm haccept
      obtain ⟨event, hevent⟩ := Option.isSome_iff_exists.mp haccept.1
      simp only [deliver, hevent, Option.map_some, Option.toList_some, List.singleton_append,
        List.map_cons, ih _ haccept.2]

theorem onDataLoop_of_none (sm : SocketManager σ) {last rest : Bytes}
    (h : unpackPackage last = (none, rest)) : onDataLoop dispatch sm last = ([], sm) := by
  rw [onDataLoop]
  split
  · rfl
  · rename_i heq
    rw [h] at heq
    simp at heq

theorem onDataLoop_of_some (sm : SocketManager σ) {last v rest : Bytes}
    (h : unpackPackage last = (some v, rest)) :
    onDataLoop dispatch sm last =
      match handlePacket dispatch sm v with
      | (none, sm') => ([], sm')
      | (some event, sm') =>
          (⟨v, event⟩ :: (onDataLoop dispatch sm' rest).1, (onDataLoop dispatch sm' rest).2) := by
  rw [onDataLoop]
  split
  · rename_i heq
    rw [h] at heq
    simp at heq
  · rename_i heq
    rw [h] at heq
    cases heq
    rfl

/-- Whatever the bytes, the packets delivered from a chunk are frames at its front. -/
theorem onDataLoop_consumes (sm : SocketManager σ) (last : Bytes) :
    wire.Consumes last ((onDataLoop dispatch sm last).1.map Delivery.packet) := by
  induction hn : last.length using Nat.strongRecOn generalizing sm last with
  | ind n ih =>
      cases hu : unpackPackage last with
      | mk head rest =>
          cases head with
          | none =>
              rw [onDataLoop_of_none dispatch sm hu]
              exact wire.consumes_nil last
          | some v =>
              rw [onDataLoop_of_some dispatch sm hu]
              cases hh : handlePacket dispatch sm v with
              | mk event sm' =>
                  cases event with
                  | none => exact wire.consumes_nil last
                  | some event =>
                      obtain ⟨f, hf, rfl⟩ := sendPackage_of_unpackPackage hu
                      have hlt := unpackPackage_rest_lt hu
                      exact wire.consumes_cons hf (ih rest.length (hn ▸ hlt) sm' rest rfl)

theorem onDataLoop_stream : ∀ (ps : List Bytes) (sm : SocketManager σ) (chunk : Bytes),
    wire.stream ps = some chunk → Accepted dispatch sm ps →
      onDataLoop dispatch sm chunk = deliver dispatch sm ps := by
  intro ps
  induction ps with
  | nil =>
      intro sm chunk hs _
      cases Option.some.inj hs
      exact onDataLoop_of_none dispatch sm rfl
  | cons p ps ih =>
      intro sm chunk hs haccept
      obtain ⟨f, s, hf, hs', rfl⟩ := (wire.stream_cons_eq_some p ps chunk).mp hs
      rw [onDataLoop_of_some dispatch sm (unpackPackage_sendPackage s hf)]
      cases hh : handlePacket dispatch sm p with
      | mk handled sm' =>
          simp only [Accepted, hh] at haccept
          obtain ⟨event, rfl⟩ := Option.isSome_iff_exists.mp haccept.1
          simp only [deliver, hh, ih sm' s hs' haccept.2, Option.map_some, Option.toList_some,
            List.singleton_append]

theorem feed_consumes : ∀ (chunks : List Bytes) (sm : SocketManager σ),
    ∃ reads, List.Forall₂ wire.Consumes chunks reads ∧
      (feed dispatch sm chunks).1.map Delivery.packet = reads.flatten := by
  intro chunks
  induction chunks with
  | nil => intro sm; exact ⟨[], .nil, rfl⟩
  | cons chunk chunks ih =>
      intro sm
      obtain ⟨reads, hreads, hflat⟩ := ih (onData dispatch sm chunk).2
      refine ⟨_, .cons (onDataLoop_consumes dispatch sm chunk) hreads, ?_⟩
      simp only [feed, List.map_append, List.flatten_cons, hflat]
      rfl

theorem feed_groups (chunks : List Bytes) (groups : List (List Bytes))
    (h : List.Forall₂ (fun chunk group => wire.stream group = some chunk) chunks groups) :
    ∀ sm : SocketManager σ, Accepted dispatch sm groups.flatten →
      feed dispatch sm chunks = deliver dispatch sm groups.flatten := by
  induction h with
  | nil => intro sm _; rfl
  | @cons chunk group chunks groups hhead _ ih =>
      intro sm haccept
      rw [List.flatten_cons, accepted_append] at haccept
      have hfirst := onDataLoop_stream dispatch group sm chunk hhead haccept.1
      rw [List.flatten_cons, deliver_append, feed, onData, hfirst, ih _ haccept.2]

end Delivery

/-- For every server stream and every way it is cut, the events are those of its packets, each
once and in order, if and only if no chunk ends inside a frame. -/
theorem feed_reassembles_iff {σ Msg : Type} (dispatch : σ → Bytes → Option (Dispatched Msg) × σ)
    (sm : SocketManager σ) (ps chunks : List Bytes)
    (hstream : wire.stream ps = some chunks.flatten) (haccept : Accepted dispatch sm ps) :
    (feed dispatch sm chunks).1 = (deliver dispatch sm ps).1 ↔
      wire.CutBetweenFrames ps chunks := by
  constructor
  · intro hall
    obtain ⟨reads, hreads, hflat⟩ := feed_consumes dispatch chunks sm
    rw [hall, deliver_packets dispatch ps sm haccept] at hflat
    rw [hflat] at hstream ⊢
    exact wire.cutBetweenFrames_of_consumes chunks reads hreads hstream
  · rintro ⟨groups, rfl, hgroups⟩
    rw [feed_groups dispatch chunks groups hgroups sm haccept]

/-! ## One reply of the server, cut after its length header -/

/-- The packed reply `{status = 1, fid = "100000"}` to the createRoom request of session 1. -/
def createRoomReply : Bytes :=
  [0x55, 0x02, 0x01, 0x04, 0x02, 0x11, 0x04, 0x06, 0x3f, 0x31, 0x30, 0x30, 0x30, 0x30, 0x30]

def createRoomHost (waiting : Bool) (v : Bytes) : Option (Dispatched String) × Bool :=
  if waiting ∧ v = createRoomReply then (some (.response 1 (some "100000")), false)
  else (none, waiting)

def createRoomClient : SocketManager Bool where
  m_connected := true
  m_session := 1
  m_sessionMap k := if k = 1 then some "createRoom" else none
  host := true

theorem feed_reassembles_iff_whole :
    (feed createRoomHost createRoomClient [[0, 15] ++ createRoomReply]).1 =
        (deliver createRoomHost createRoomClient [createRoomReply]).1 ↔
      wire.CutBetweenFrames [createRoomReply] [[0, 15] ++ createRoomReply] :=
  feed_reassembles_iff createRoomHost createRoomClient [createRoomReply]
    [[0, 15] ++ createRoomReply] (by decide) ⟨by decide, trivial⟩

/-- The header arrives first, the body with the next event: nothing is delivered. -/
theorem feed_loses_cut_packet :
    wire.stream [createRoomReply] = some [[0, 15], createRoomReply].flatten ∧
      Accepted createRoomHost createRoomClient [createRoomReply] ∧
      (feed createRoomHost createRoomClient [[0, 15], createRoomReply]).1 = [] ∧
      (feed createRoomHost createRoomClient [[0, 15], createRoomReply]).1 ≠
        (deliver createRoomHost createRoomClient [createRoomReply]).1 := by
  have hheader : unpackPackage [0, 15] = (none, [0, 15]) := by decide
  have hbody : unpackPackage createRoomReply = (none, createRoomReply) := by decide
  have hnothing :
      (feed createRoomHost createRoomClient [[0, 15], createRoomReply]).1 = [] := by
    simp only [feed, onData, onDataLoop_of_none _ _ hheader, onDataLoop_of_none _ _ hbody,
      List.append_nil]
  refine ⟨by decide, ⟨by decide, trivial⟩, hnothing, ?_⟩
  rw [hnothing]
  decide

end Doudizhu.Network
