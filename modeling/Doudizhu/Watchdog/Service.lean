import Doudizhu.Lib.Runs
import Mathlib.Logic.Function.Basic
import Mathlib.Data.List.Nodup

/-! # The watchdog

`watchdog.lua` keeps the agent of each connection in the table `agent`.  Every message runs its
handler in a coroutine of its own, which is suspended at `newservice`, at the agent's `start` and
at the gate's `kick`.

The gate stands behind the guards of `step`: it reports an fd once as open, closes and errors
only of an fd that an agent has had forwarded to itself, and it answers every `kick`.  A launched
agent has an address of its own.  `opened`, `launched` and `forwarded` record what has happened
to the connections, `sent` the messages `disconnect`, each with the fd of its handler. -/

set_option autoImplicit false

namespace Doudizhu.Watchdog

abbrev Fd := Nat
abbrev Address := Nat

/-- A coroutine: where its handler is suspended, or that it has come to its end. -/
inductive Thread where
  | idle
  | newservice (fd : Fd)
  | starting (fd : Fd) (a : Address)
  | opened (fd : Fd)
  | kicking (fd : Fd) (a : Address)
  | closed (fd : Fd)
  deriving DecidableEq

structure WatchdogState (ι : Type) where
  agent : Fd → Option Address
  threads : ι → Thread
  opened : List Fd
  launched : List (Fd × Address)
  forwarded : List Fd
  sent : List (Fd × Address)

inductive WatchdogEvent (ι : Type) where
  /-- SOCKET.open. -/
  | socketOpen (i : ι) (fd : Fd)
  /-- `newservice` returns the address of the new agent. -/
  | launched (i : ι) (a : Address)
  /-- `newservice` raises. -/
  | launchFailed (i : ι)
  /-- The agent's `start` has called the gate's `forward`, and the fd is started. -/
  | forward (fd : Fd)
  /-- The call of `start` returns or raises. -/
  | started (i : ι)
  /-- SOCKET.close. -/
  | socketClose (i : ι) (fd : Fd)
  /-- SOCKET.error. -/
  | socketError (i : ι) (fd : Fd)
  /-- CMD.close. -/
  | cmdClose (i : ι) (fd : Fd)
  /-- The gate answers `kick`. -/
  | kicked (i : ι)

namespace WatchdogState
variable {ι : Type}

def start : WatchdogState ι where
  agent _ := none
  threads _ := .idle
  opened := []
  launched := []
  forwarded := []
  sent := []

variable [DecidableEq ι]

def setThread (s : WatchdogState ι) (i : ι) (thread : Thread) : WatchdogState ι :=
  { s with threads := Function.update s.threads i thread }

@[simp] theorem setThread_agent (s : WatchdogState ι) (i : ι) (thread : Thread) :
    (s.setThread i thread).agent = s.agent := rfl

@[simp] theorem setThread_opened (s : WatchdogState ι) (i : ι) (thread : Thread) :
    (s.setThread i thread).opened = s.opened := rfl

@[simp] theorem setThread_launched (s : WatchdogState ι) (i : ι) (thread : Thread) :
    (s.setThread i thread).launched = s.launched := rfl

@[simp] theorem setThread_sent (s : WatchdogState ι) (i : ι) (thread : Thread) :
    (s.setThread i thread).sent = s.sent := rfl

def socketOpen (s : WatchdogState ι) (i : ι) (fd : Fd) : WatchdogState ι :=
  { s.setThread i (.newservice fd) with opened := fd :: s.opened }

/-- SOCKET.open from the return of `newservice` up to the call of `start`. -/
def socketOpenLaunched (s : WatchdogState ι) (i : ι) (fd : Fd) (a : Address) : WatchdogState ι :=
  { s.setThread i (.starting fd a) with
    agent := Function.update s.agent fd (some a)
    launched := (fd, a) :: s.launched }

/-- `close_agent` up to the call of `kick`, or to its end when there is no agent. -/
def closeAgent (s : WatchdogState ι) (i : ι) (fd : Fd) : WatchdogState ι :=
  let a := s.agent fd
  let s := { s with agent := Function.update s.agent fd none }
  match a with
  | some a => s.setThread i (.kicking fd a)
  | none => s.setThread i (.closed fd)

/-- `close_agent` from the answer to `kick` on. -/
def closeAgentKicked (s : WatchdogState ι) (i : ι) (fd : Fd) (a : Address) : WatchdogState ι :=
  { s.setThread i (.closed fd) with sent := s.sent ++ [(fd, a)] }

def socketClose (s : WatchdogState ι) (i : ι) (fd : Fd) : WatchdogState ι := s.closeAgent i fd

def socketError (s : WatchdogState ι) (i : ι) (fd : Fd) : WatchdogState ι := s.closeAgent i fd

def cmdClose (s : WatchdogState ι) (i : ι) (fd : Fd) : WatchdogState ι := s.closeAgent i fd

def step (s : WatchdogState ι) : WatchdogEvent ι → Option (WatchdogState ι)
  | .socketOpen i fd =>
      if s.threads i = .idle ∧ fd ∉ s.opened then some (s.socketOpen i fd) else none
  | .launched i a =>
      match s.threads i with
      | .newservice fd =>
          if a ∉ s.launched.map Prod.snd then some (s.socketOpenLaunched i fd a) else none
      | _ => none
  | .launchFailed i =>
      match s.threads i with
      | .newservice fd => some (s.setThread i (.opened fd))
      | _ => none
  | .forward fd =>
      if fd ∈ s.launched.map Prod.fst then some { s with forwarded := fd :: s.forwarded }
      else none
  | .started i =>
      match s.threads i with
      | .starting fd _ => some (s.setThread i (.opened fd))
      | _ => none
  | .socketClose i fd =>
      if s.threads i = .idle ∧ fd ∈ s.forwarded then some (s.socketClose i fd) else none
  | .socketError i fd =>
      if s.threads i = .idle ∧ fd ∈ s.forwarded then some (s.socketError i fd) else none
  | .cmdClose i fd =>
      if s.threads i = .idle ∧ fd ∈ s.launched.map Prod.fst then some (s.cmdClose i fd) else none
  | .kicked i =>
      match s.threads i with
      | .kicking fd a => some (s.closeAgentKicked i fd a)
      | _ => none

end WatchdogState

end Doudizhu.Watchdog
