import Doudizhu.Lib.Coroutine
import Doudizhu.Lib.Runs
import Doudizhu.Network.SocketManager
import Mathlib.Logic.Function.Basic

/-! # The agent and its queue

One agent serves one client.  Every message of the client runs `recv_package` in a coroutine of
the service's pool, through the `skynet.queue` of the agent.  A coroutine that finds the queue
taken waits until the one in front of it wakes it up; a handler is suspended in `skynet.call`
until the answer comes.  Nothing else interrupts a coroutine.

`arrived`, `served` and the numbers in `written` are the record of a run: the messages in the
order of their arrival, how the handler of each has ended, and the packages on the client's
socket with the number of the message they answer. -/

set_option autoImplicit false

namespace Doudizhu.Agent

open Coroutine Network

/-! ## skynet.queue -/

structure Queue (τ : Type) where
  current_thread : Option τ
  ref : Nat
  thread_queue : List τ

namespace Queue
variable {τ : Type}

def new : Queue τ := ⟨none, 0, []⟩

def taken [DecidableEq τ] (queue : Queue τ) (thread : τ) : Bool :=
  match queue.current_thread with
  | some current => decide (current ≠ thread)
  | none => false

def insert (queue : Queue τ) (thread : τ) : Queue τ :=
  { queue with thread_queue := queue.thread_queue ++ [thread] }

def enter (queue : Queue τ) (thread : τ) : Queue τ :=
  { queue with current_thread := some thread, ref := queue.ref + 1 }

def xpcallRet (queue : Queue τ) : Queue τ × Option τ :=
  let ref := queue.ref - 1
  if ref = 0 then
    (⟨queue.thread_queue.head?, ref, queue.thread_queue.tail⟩, queue.thread_queue.head?)
  else ({ queue with ref := ref }, none)

end Queue

/-! ## The messages and their handlers -/

section Handlers
variable {C R A V : Type}

/-- A message as `host:dispatch` has decoded it; the function `response` is there when the
request carries a session, and answers `none` when it raises. -/
structure Message (A V : Type) where
  type : Head
  name : String
  args : A
  response : Option (V → Option Bytes)

inductive Outcome (V : Type) where
  | returned (r : V)
  | raised

/-- `request` until the handler has ended: `assert(REQUEST[name])`, then the handler. -/
def request (REQUEST : String → Option (A → Coroutine Unit C R V)) (m : Message A V) :
    Coroutine Unit C R V :=
  match REQUEST m.name with
  | some f => f m.args
  | none => .raise

/-- `request` after that: what `pcall` returns when there is no error. -/
def reply (m : Message A V) : Outcome V → Option (Option Bytes)
  | .raised => none
  | .returned r =>
      match m.response with
      | none => some none
      | some response => (response r).map some

/-- The part of `recv_package` after the handler: the frame written to the socket, and whether
`recv_package` returns without an error. -/
def recvReturn (m : Message A V) (outcome : Outcome V) : Option Bytes × Bool :=
  match reply m outcome with
  | none => (none, true)
  | some none => (none, true)
  | some (some result) =>
      match sendPackage result with
      | some frame => (some frame, true)
      | none => (none, false)

end Handlers

/-! ## The service -/

section Service
variable {τ C R A V : Type}

structure Job (A V : Type) where
  index : Nat
  message : Message A V

/-- A coroutine of the pool.  A `woken` one has its wakeup waiting; `dead` is one that ended with
an error. -/
inductive Thread (C R A V : Type) where
  | idle
  | waiting (job : Job A V)
  | woken (job : Job A V)
  | handling (job : Job A V) (p : Coroutine Unit C R V)
  | dead

structure AgentState (τ C R A V : Type) where
  cs : Queue τ
  threads : τ → Thread C R A V
  arrived : List (Message A V)
  served : List (Nat × Outcome V)
  written : List (Nat × Bytes)

inductive AgentEvent (τ R A V : Type) where
  /-- A message of the client is dispatched to a coroutine. -/
  | message (thread : τ) (m : Message A V)
  /-- A coroutine that has been woken up goes on. -/
  | wake (thread : τ)
  /-- The answer to the pending call of a handler comes. -/
  | answer (thread : τ) (r : R)

namespace AgentState

def start : AgentState τ C R A V where
  cs := .new
  threads _ := .idle
  arrived := []
  served := []
  written := []

variable [DecidableEq τ]

def setThread (s : AgentState τ C R A V) (thread : τ) (state : Thread C R A V) :
    AgentState τ C R A V :=
  { s with threads := Function.update s.threads thread state }

def wakeup (s : AgentState τ C R A V) : Option τ → AgentState τ C R A V
  | none => s
  | some thread =>
      match s.threads thread with
      | .waiting job => s.setThread thread (.woken job)
      | _ => s

/-- `recv_package` comes to its end, then `xpcall_ret`, which raises the error it was given. -/
def leave (s : AgentState τ C R A V) (thread : τ) (job : Job A V) (outcome : Outcome V)
    (frame : Option Bytes) (ok : Bool) : AgentState τ C R A V :=
  let released := s.cs.xpcallRet
  { s with
    cs := released.1
    threads := Function.update s.threads thread (if ok then .idle else .dead)
    served := s.served ++ [(job.index, outcome)]
    written := s.written ++ (frame.map fun frame => (job.index, frame)).toList }.wakeup released.2

def advance (s : AgentState τ C R A V) (thread : τ) (job : Job A V)
    (p : Coroutine Unit C R V) : AgentState τ C R A V :=
  match p.settle () with
  | .done r =>
      let result := recvReturn job.message (.returned r)
      s.leave thread job (.returned r) result.1 result.2
  | .raise =>
      let result := recvReturn job.message .raised
      s.leave thread job .raised result.1 result.2
  | p => s.setThread thread (.handling job p)

variable (REQUEST : String → Option (A → Coroutine Unit C R V))

def recvPackage (s : AgentState τ C R A V) (thread : τ) (job : Job A V) : AgentState τ C R A V :=
  let s := { s with cs := s.cs.enter thread }
  match job.message.type with
  | .REQUEST => s.advance thread job (request REQUEST job.message)
  | .RESPONSE => s.leave thread job .raised none false

def step (s : AgentState τ C R A V) : AgentEvent τ R A V → Option (AgentState τ C R A V)
  | .message thread m =>
      match s.threads thread with
      | .idle =>
          let job : Job A V := ⟨s.arrived.length, m⟩
          let s := { s with arrived := s.arrived ++ [m] }
          if s.cs.taken thread then
            some { s.setThread thread (.waiting job) with cs := s.cs.insert thread }
          else some (s.recvPackage REQUEST thread job)
      | _ => none
  | .wake thread =>
      match s.threads thread with
      | .woken job =>
          -- assert(ref == 0)
          if s.cs.ref = 0 then some (s.recvPackage REQUEST thread job)
          else some (s.setThread thread .dead)
      | _ => none
  | .answer thread r =>
      match s.threads thread with
      | .handling job (.call _ k) => some (s.advance thread job (k r))
      | _ => none

end AgentState

end Service

end Doudizhu.Agent
