import Doudizhu.Lib.RingBuffer

/-! # Message queues of services

`skynet_mq.c` keeps the messages of one service in a ring that doubles when it is full.
`in_global` is set while the queue stands in the global queue or a worker dispatches from it.
`overload` holds the length that last exceeded the threshold, which doubles with each report and
falls back to 1024 when the queue is found empty. -/

set_option autoImplicit false

namespace Doudizhu.Skynet

/-- `data` is the payload a message points at; `sz` has the message type in its high 8 bits. -/
structure SkynetMessage where
  source : UInt32
  session : Int32
  data : Option (List UInt8)
  sz : UInt64
  deriving DecidableEq, Repr, Inhabited

def messageTypeShift : UInt64 := 56
def ptypeResponse : UInt64 := 1

/-- What the timer sends: an empty response to the session that waits. -/
def responseMessage (session : Int32) : SkynetMessage :=
  ⟨0, session, none, ptypeResponse <<< messageTypeShift⟩

def defaultQueueSize : ℕ := 64
def mqOverload : ℕ := 1024

structure MessageQueue where
  handle : UInt32
  ring : RingBuffer SkynetMessage
  release : Bool
  inGlobal : Bool
  overload : ℕ
  overloadThreshold : ℕ

namespace MessageQueue

def create (handle : UInt32) : MessageQueue where
  handle := handle
  ring := RingBuffer.empty defaultQueueSize (by decide)
  release := false
  inGlobal := true
  overload := 0
  overloadThreshold := mqOverload

/-- Appends the message; the second part says that the queue goes to the global queue. -/
def push (q : MessageQueue) (message : SkynetMessage) : MessageQueue × Bool :=
  let ring := q.ring.push (fun cap => cap * 2) (fun _ h => by omega) message
  if q.inGlobal then ({ q with ring := ring }, false)
  else ({ q with ring := ring, inGlobal := true }, true)

/-- The loop that doubles the threshold; it ends within `length` turns. -/
def overloadLoop (length : ℕ) : ℕ → ℕ → ℕ → ℕ × ℕ
  | 0, overload, threshold => (overload, threshold)
  | n + 1, overload, threshold =>
      if length > threshold then overloadLoop length n length (threshold * 2)
      else (overload, threshold)

def pop (q : MessageQueue) : Option SkynetMessage × MessageQueue :=
  match q.ring.pop with
  | some (message, ring) =>
      let reported := overloadLoop ring.length ring.length q.overload q.overloadThreshold
      (some message,
        { q with ring := ring, overload := reported.1, overloadThreshold := reported.2 })
  | none => (none, { q with overloadThreshold := mqOverload, inGlobal := false })

def length (q : MessageQueue) : ℕ := q.ring.length

def takeOverload (q : MessageQueue) : ℕ × MessageQueue := (q.overload, { q with overload := 0 })

def messages (q : MessageQueue) : List SkynetMessage := q.ring.contents

@[simp] theorem messages_create (handle : UInt32) : (create handle).messages = [] :=
  RingBuffer.contents_empty ..

theorem messages_push (q : MessageQueue) (message : SkynetMessage) :
    (q.push message).1.messages = q.messages ++ [message] := by
  have hring := RingBuffer.contents_push (fun cap => cap * 2) (fun _ h => by omega) q.ring message
  unfold push
  split <;> exact hring

theorem length_eq (q : MessageQueue) : q.length = q.messages.length :=
  (RingBuffer.contents_length q.ring).symm

theorem pop_of_nil {q : MessageQueue} (h : q.messages = []) :
    q.pop = (none, { q with overloadThreshold := mqOverload, inGlobal := false }) := by
  rw [pop, (RingBuffer.pop_eq_none_iff q.ring).mpr h]

theorem pop_of_cons {q : MessageQueue} {message : SkynetMessage} {rest : List SkynetMessage}
    (h : q.messages = message :: rest) :
    q.pop.1 = some message ∧ q.pop.2.messages = rest ∧ q.pop.2.inGlobal = q.inGlobal ∧
      q.pop.2.release = q.release ∧ q.pop.2.handle = q.handle := by
  obtain ⟨ring, hpop, hrest⟩ := RingBuffer.pop_of_contents h
  rw [pop, hpop]
  exact ⟨rfl, hrest, rfl, rfl, rfl⟩

end MessageQueue
end Doudizhu.Skynet
