import Doudizhu.Lib.Runs
import Doudizhu.Skynet.MessageQueue
import Mathlib.Logic.Function.Basic

/-! # Dispatching messages to services

Worker threads take the queues of services from the global queue, hand a batch of messages to the
service and put the queue back (`skynet_context_message_dispatch`).  Any thread may send to a
service, retire it or create one at the same time.  A context is freed when its last reference
is released, and its queue only by the worker that finds the service gone.

A step is what runs under one lock or as one atomic operation: `skynet_handle_grab`,
`skynet_context_release`, a push or pop of a queue or of the global queue.  A send or a retirement
is a thread of its own, also when a service does it while it is being dispatched.
`skynet_context_new` registers the handle and creates the queue in one step, since nobody knows
the handle before.  A pop and the test of `ctx->cb` are one step, since only the thread that runs
the service's code sets its callback.  `pushed`, `taken`, `dropped` and `used` are not in the
code. -/

set_option autoImplicit false

namespace Doudizhu.Skynet.Dispatch

abbrev Handle := UInt32

/-- Where a worker is in `skynet_context_message_dispatch`. -/
inductive Pc where
  /-- It has no queue and is about to take one from the global queue. -/
  | idle
  /-- It has a queue and is about to grab the context. -/
  | holds (h : Handle)
  /-- It is at the test `i < n`. -/
  | loop (h : Handle) (n i : ℕ)
  /-- The service runs its callback. -/
  | calling (h : Handle) (n i : ℕ)
  /-- The batch is done. -/
  | finish (h : Handle)
  /-- It has found another queue and is about to put its own back. -/
  | pushBack (h next : Handle)
  /-- It is about to release the context and go on with `next`. -/
  | leave (h next : Handle)
  /-- It has found its queue empty. -/
  | emptied (h : Handle)
  /-- The service of its queue is gone. -/
  | orphan (h : Handle)
  deriving DecidableEq, Repr

inductive Thread where
  | worker (weight : Int) (pc : Pc)
  /-- `skynet_context_push`, before and after `skynet_mq_push`. -/
  | sending (h : Handle) (message : SkynetMessage)
  | sent (h : Handle)
  /-- `skynet_handle_retire` after it has cleared the slot. -/
  | retiring (h : Handle)
  /-- `skynet_context_new` during the init function, and after its success. -/
  | creating (h : Handle)
  | launching (h : Handle)
  /-- The same after a failed init: before, in and after `skynet_handle_retire`. -/
  | failing (h : Handle)
  | failingRetired (h : Handle)
  | dropping (h : Handle)
  | done
  deriving DecidableEq, Repr

structure State where
  queue : Handle → Option MessageQueue
  ref : Handle → Option ℕ
  registered : Handle → Bool
  globalq : List Handle
  threads : List Thread
  callback : Handle → Bool
  pushed : Handle → List SkynetMessage
  /-- The messages taken off the queue, each with whether the callback has got it. -/
  taken : Handle → List (SkynetMessage × Bool)
  dropped : Handle → List SkynetMessage
  used : Handle → Bool

inductive Event where
  /-- Thread `i` goes on; `ok` is the result of an init function. -/
  | go (i : ℕ) (ok : Bool)
  /-- The service whose code thread `i` runs calls `skynet_callback`. -/
  | callback (i : ℕ) (set : Bool)
  | send (h : Handle) (message : SkynetMessage)
  | retire (h : Handle)
  | create (h : Handle)
  deriving DecidableEq, Repr

namespace State

def globalmqPush (s : State) (h : Handle) : State := { s with globalq := s.globalq ++ [h] }

def grab (s : State) (h : Handle) : State :=
  { s with ref := Function.update s.ref h ((s.ref h).map fun r => r + 1) }

def unregister (s : State) (h : Handle) : State :=
  { s with registered := Function.update s.registered h false }

/-- A queue that is not in the global queue goes there, although `in_global` stays 0. -/
def mqMarkRelease (s : State) (h : Handle) : State :=
  match s.queue h with
  | some q =>
      { s with
        queue := Function.update s.queue h (some { q with release := true })
        globalq := if q.inGlobal then s.globalq else s.globalq ++ [h] }
  | none => s

/-- `skynet_context_release`: the last reference deletes the context. -/
def contextRelease (s : State) (h : Handle) : State :=
  match s.ref h with
  | some (r + 2) => { s with ref := Function.update s.ref h (some (r + 1)) }
  | some 1 => ({ s with ref := Function.update s.ref h none } : State).mqMarkRelease h
  | _ => s

def mqPush (s : State) (h : Handle) (message : SkynetMessage) : State :=
  match s.queue h with
  | some q =>
      { s with
        queue := Function.update s.queue h (some (q.push message).1)
        globalq := if (q.push message).2 then s.globalq ++ [h] else s.globalq
        pushed := Function.update s.pushed h (s.pushed h ++ [message]) }
  | none => s

/-- `skynet_mq_pop` followed by `skynet_mq_overload`: the message and what is left. -/
def mqPop (s : State) (h : Handle) : Option SkynetMessage × State :=
  match s.queue h with
  | some q =>
      match q.pop with
      | (some message, q) =>
          (some message, { s with
            queue := Function.update s.queue h (some q.takeOverload.2)
            taken := Function.update s.taken h (s.taken h ++ [(message, s.callback h)]) })
      | (none, q) => (none, { s with queue := Function.update s.queue h (some q) })
  | none => (none, s)

def mqLength (s : State) (h : Handle) : ℕ := ((s.queue h).map MessageQueue.length).getD 0

/-- `skynet_mq_release`: a queue marked for release is emptied and freed, another goes back. -/
def mqRelease (s : State) (h : Handle) : State :=
  match s.queue h with
  | some q =>
      if q.release then
        { s with
          queue := Function.update s.queue h none
          dropped := Function.update s.dropped h (s.dropped h ++ q.messages) }
      else s.globalmqPush h
  | none => s

/-- A message of a service without a callback is freed. -/
def dispatchStep (s : State) (weight : Int) : Pc → State × Pc
  | .idle =>
      match s.globalq with
      | [] => (s, .idle)
      | h :: rest => ({ s with globalq := rest }, .holds h)
  | .holds h => if s.registered h then (s.grab h, .loop h 1 0) else (s, .orphan h)
  | .loop h n i =>
      if i < n then
        match s.mqPop h with
        | (some _, s) =>
            let n := if i = 0 ∧ 0 ≤ weight then s.mqLength h >>> weight.toNat else n
            (s, if s.callback h then .calling h n i else .loop h n (i + 1))
        | (none, s) => (s, .emptied h)
      else (s, .finish h)
  | .calling h n i => (s, .loop h n (i + 1))
  | .finish h =>
      match s.globalq with
      | [] => (s, .leave h h)
      | next :: rest => ({ s with globalq := rest }, .pushBack h next)
  | .pushBack h next => (s.globalmqPush h, .leave h next)
  | .leave h next => (s.contextRelease h, .holds next)
  | .emptied h => (s.contextRelease h, .idle)
  | .orphan h => (s.mqRelease h, .idle)

def threadStep (s : State) (ok : Bool) : Thread → State × Thread
  | .worker weight pc =>
      let next := s.dispatchStep weight pc
      (next.1, .worker weight next.2)
  | .sending h message => (s.mqPush h message, .sent h)
  | .sent h => (s.contextRelease h, .done)
  | .retiring h => (s.contextRelease h, .done)
  | .creating h => (s.contextRelease h, if ok then .launching h else .failing h)
  | .launching h => (s.globalmqPush h, .done)
  | .failing h =>
      if s.registered h then (s.unregister h, .failingRetired h) else (s, .dropping h)
  | .failingRetired h => (s.contextRelease h, .dropping h)
  | .dropping h => (s.mqRelease h, .done)
  | .done => (s, .done)

def setThread (s : State) (i : ℕ) (t : Thread) : State := { s with threads := s.threads.set i t }

def spawn (s : State) (t : Thread) : State := { s with threads := s.threads ++ [t] }

/-- `skynet_context_new` up to the init function: one reference is the handle table's, the
other the creator's. -/
def contextNew (s : State) (h : Handle) : State :=
  { s with
    queue := Function.update s.queue h (some (MessageQueue.create h))
    ref := Function.update s.ref h (some 2)
    registered := Function.update s.registered h true
    callback := Function.update s.callback h false
    used := Function.update s.used h true }

def setCallback (s : State) (h : Handle) (set : Bool) : State :=
  { s with callback := Function.update s.callback h set }

/-- What the callback has got. -/
def dispatched (s : State) (h : Handle) : List SkynetMessage :=
  ((s.taken h).filter Prod.snd).map Prod.fst

end State

/-- The service whose code a thread runs: in its callback, or in its init function. -/
def Thread.running : Thread → Option Handle
  | .worker _ (.calling h _ _) => some h
  | .creating h => some h
  | _ => none

open State

/-- A send to a handle that is not registered fails; a handle is not given out twice. -/
def step (s : State) : Event → Option State
  | .go i ok =>
      (s.threads[i]?).map fun t =>
        let next := (s.setThread i .done).threadStep ok t
        next.1.setThread i next.2
  | .callback i set =>
      (s.threads[i]?).bind fun t => t.running.map fun h => s.setCallback h set
  | .send h message => if s.registered h then some ((s.grab h).spawn (.sending h message)) else none
  | .retire h => if s.registered h then some ((s.unregister h).spawn (.retiring h)) else none
  | .create h => if s.used h then none else some ((s.contextNew h).spawn (.creating h))

def start (weights : List Int) : State where
  queue := fun _ => none
  ref := fun _ => none
  registered := fun _ => false
  globalq := []
  threads := weights.map fun weight => .worker weight .idle
  callback := fun _ => false
  pushed := fun _ => []
  taken := fun _ => []
  dropped := fun _ => []
  used := fun _ => false

end Doudizhu.Skynet.Dispatch
