import Doudizhu.Lib.Runs
import Doudizhu.Skynet.LuaNetpack
import Mathlib.Data.Finset.Card

/-! # The gate service

`gate.lua` runs on `gateserver.lua`: every message of the socket server goes through `filter`,
and packets are handed to the agent a connection is forwarded to, or to the watchdog.  None of
the handlers of `gate.lua` waits, so `dispatch_queue` empties the queue before the next message.

The socket server stands behind the guards of `step`: it forwards no empty piece of data, accepts
only on the listening socket, and does not give a new connection the id of one that it has not
reported as closed.  `received` and `handed` record the bytes that came from each fd and the
packets taken off them, since it was last closed. -/

set_option autoImplicit false

namespace Doudizhu.Skynet.Gate

open Doudizhu.Runs Doudizhu.Network LuaNetpack

abbrev Address := UInt32

inductive Destination where
  | agent (address : Address) (client : UInt32)
  | watchdog
  | dropped
  | raised
  deriving DecidableEq, Repr

inductive Out where
  | message (fd : Fd) (msg : Bytes) (destination : Destination)
  | socketOpen (fd : Fd) (addr : Bytes)
  | socketClose (fd : Fd)
  | socketError (fd : Fd) (msg : Bytes)
  | socketWarning (fd : Fd) (size : ℕ)
  | driverStart (fd : Fd)
  | driverClose (fd : Fd)
  | driverNodelay (fd : Fd)
  | report (msg : Bytes)
  deriving DecidableEq, Repr

structure Connection where
  fd : Fd
  ip : Bytes
  client : UInt32
  agent : Option Address
  deriving DecidableEq, Repr

/-- `connection` is the table of `gateserver.lua`, where `false` means closed by `kick`;
`connections` is the table of `gate.lua`. -/
structure GateState where
  queue : Option Queue
  socket : Option Fd
  maxclient : ℕ
  nodelay : Bool
  clientNumber : Int
  connection : Fd → Option Bool
  connections : Fd → Option Connection
  out : List Out
  received : Fd → Bytes
  handed : Fd → List Bytes

def start : GateState where
  queue := none
  socket := none
  maxclient := 0
  nodelay := false
  clientNumber := 0
  connection := fun _ => none
  connections := fun _ => none
  out := []
  received := fun _ => []
  handed := fun _ => []

inductive Event where
  | socket (message : SocketMessage)
  | cmdOpen (listen : Fd) (maxclient : ℕ) (nodelay : Bool)
  | cmdClose
  | cmdForward (source : Address) (fd : Fd) (client : Option UInt32) (address : Option Address)
  | cmdAccept (fd : Fd)
  | cmdKick (fd : Fd)
  deriving DecidableEq, Repr

namespace GateState

def send (g : GateState) (out : Out) : GateState := { g with out := g.out ++ [out] }

def hand (g : GateState) (fd : Fd) (msg : Bytes) (destination : Destination) : GateState :=
  { g.send (.message fd msg destination) with
    handed := Function.update g.handed fd (g.handed fd ++ [msg]) }

/-! ## gate.lua -/

/-- A missing connection record would raise an error. -/
def handlerMessage (g : GateState) (fd : Fd) (msg : Bytes) : GateState :=
  match g.connections fd with
  | none => g.hand fd msg .raised
  | some c =>
      match c.agent with
      | some agent => g.hand fd msg (.agent agent c.client)
      | none => g.hand fd msg .watchdog

def handlerConnect (g : GateState) (fd : Fd) (addr : Bytes) : GateState :=
  { g with connections := Function.update g.connections fd (some ⟨fd, addr, 0, none⟩) }.send
    (.socketOpen fd addr)

def handlerCloseFd (g : GateState) (fd : Fd) : GateState :=
  { g with connections := Function.update g.connections fd none }

def handlerDisconnect (g : GateState) (fd : Fd) : GateState :=
  (g.handlerCloseFd fd).send (.socketClose fd)

def handlerError (g : GateState) (fd : Fd) (msg : Bytes) : GateState :=
  (g.handlerCloseFd fd).send (.socketError fd msg)

/-! ## gateserver.lua -/

def openclient (g : GateState) (fd : Fd) : GateState :=
  if g.connection fd = some true then g.send (.driverStart fd) else g

def closeclient (g : GateState) (fd : Fd) : GateState :=
  if g.connection fd = some true then
    { g with connection := Function.update g.connection fd (some false) }.send (.driverClose fd)
  else g

def dispatchMsg (g : GateState) (fd : Fd) (msg : Bytes) : GateState :=
  if g.connection fd = some true then g.handlerMessage fd msg else g.hand fd msg .dropped

/-- `dispatch_queue` with the one it forks: until `pop` finds nothing. -/
def dispatchQueue : ℕ → GateState → GateState
  | 0, g => g
  | n + 1, g =>
      match pop g.queue with
      | none => g
      | some (np, q) => dispatchQueue n ({ g with queue := some q }.dispatchMsg np.id np.buffer)

def msgOpen (g : GateState) (fd : Fd) (msg : Bytes) : GateState :=
  if g.clientNumber ≥ g.maxclient then g.send (.driverClose fd)
  else
    let g := if g.nodelay then g.send (.driverNodelay fd) else g
    { g with
      connection := Function.update g.connection fd (some true)
      clientNumber := g.clientNumber + 1 }.handlerConnect fd msg

def closeFd (g : GateState) (fd : Fd) : GateState :=
  if (g.connection fd).isSome then
    { g with
      connection := Function.update g.connection fd none
      clientNumber := g.clientNumber - 1 }
  else g

def msgClose (g : GateState) (fd : Fd) : GateState :=
  if some fd ≠ g.socket then (g.handlerDisconnect fd).closeFd fd
  else { g with socket := none }

def msgError (g : GateState) (fd : Fd) (msg : Bytes) : GateState :=
  if some fd = g.socket then (g.send (.driverClose fd)).send (.report msg)
  else (g.handlerError fd msg).closeFd fd

def msgWarning (g : GateState) (fd : Fd) (size : ℕ) : GateState := g.send (.socketWarning fd size)

/-- The table `MSG`; a result without a type is not dispatched. -/
def dispatch (g : GateState) : Filtered → GateState
  | .queue => g
  | .data fd msg => g.dispatchMsg fd msg
  | .more => g.dispatchQueue (waiting (getQueue g.queue)).length
  | .error fd msg => g.msgError fd msg
  | .opened fd msg => g.msgOpen fd msg
  | .close fd => g.msgClose fd
  | .warning fd size => g.msgWarning fd size

/-- What came from the fd, or that it was closed, is recorded with the message. -/
def record (g : GateState) : SocketMessage → GateState
  | .data id buffer =>
      { g with received := Function.update g.received id (g.received id ++ buffer) }
  | .close id | .error id _ =>
      { g with
        received := Function.update g.received id []
        handed := Function.update g.handed id [] }
  | _ => g

def socketMessage (g : GateState) (message : SocketMessage) : GateState :=
  let filtered := LuaNetpack.filter g.queue message
  ({ g.record message with queue := filtered.2 } : GateState).dispatch filtered.1

/-! ## Commands -/

def setAgent (g : GateState) (fd : Fd) (c : Connection) : GateState :=
  ({ g with connections := Function.update g.connections fd (some c) } : GateState).openclient fd

/-- `assert(not socket)`, then `listen` returns the id of the listening socket. -/
def cmdOpen (g : GateState) (listen : Fd) (maxclient : ℕ) (nodelay : Bool) : GateState :=
  if g.socket.isSome then g
  else { g with socket := some listen, maxclient := maxclient, nodelay := nodelay }.send
    (.driverStart listen)

def cmdClose (g : GateState) : GateState :=
  match g.socket with
  | some socket => g.send (.driverClose socket)
  | none => g

/-- `assert(connection[fd])`; the client defaults to 0 and the agent to the caller. -/
def cmdForward (g : GateState) (source : Address) (fd : Fd) (client : Option UInt32)
    (address : Option Address) : GateState :=
  match g.connections fd with
  | some c => g.setAgent fd
      { c with client := client.getD 0, agent := some (address.getD source) }
  | none => g

def cmdAccept (g : GateState) (fd : Fd) : GateState :=
  match g.connections fd with
  | some c => g.setAgent fd { c with client := 0, agent := none }
  | none => g

end GateState

/-- What the socket server promises of a message. -/
def Possible (g : GateState) : SocketMessage → Prop
  | .data _ buffer => buffer ≠ []
  | .accept id ud _ => g.socket = some id ∧ g.connection ud = none ∧ g.socket ≠ some ud
  | _ => True

instance (g : GateState) : (message : SocketMessage) → Decidable (Possible g message)
  | .data _ _ => inferInstanceAs (Decidable (_ ≠ _))
  | .accept _ _ _ => inferInstanceAs (Decidable (_ ∧ _ ∧ _))
  | .connect _ => inferInstanceAs (Decidable True)
  | .close _ => inferInstanceAs (Decidable True)
  | .error _ _ => inferInstanceAs (Decidable True)
  | .warning _ _ => inferInstanceAs (Decidable True)

def step (g : GateState) : Event → Option GateState
  | .socket message => if Possible g message then some (g.socketMessage message) else none
  | .cmdOpen listen maxclient nodelay =>
      if g.connection listen = none then some (g.cmdOpen listen maxclient nodelay) else none
  | .cmdClose => some g.cmdClose
  | .cmdForward source fd client address => some (g.cmdForward source fd client address)
  | .cmdAccept fd => some (g.cmdAccept fd)
  | .cmdKick fd => some (g.closeclient fd)

/-! ## Handing over packets -/

open GateState

/-- The two connection tables know the same fds. -/
def Tables (g : GateState) : Prop :=
  ∀ fd, (g.connection fd).isSome = (g.connections fd).isSome

/-- The agent a connection is forwarded to, or the watchdog. -/
def Connection.destination (c : Connection) : Destination :=
  match c.agent with
  | some agent => .agent agent c.client
  | none => .watchdog

/-- Where a packet belongs: one from a connection that is not open any more is dropped. -/
def GateState.destination (g : GateState) (fd : Fd) : Destination :=
  if g.connection fd = some true then ((g.connections fd).map Connection.destination).getD .raised
  else .dropped

theorem dispatchMsg_eq_hand (g : GateState) (fd : Fd) (msg : Bytes) :
    g.dispatchMsg fd msg = g.hand fd msg (g.destination fd) := by
  unfold dispatchMsg GateState.destination
  split
  · cases hc : g.connections fd with
    | none => simp only [handlerMessage, hc, Option.map_none, Option.getD_none]
    | some c => cases hagent : c.agent <;> simp [handlerMessage, hc, Connection.destination, hagent]
  · rfl

theorem destination_ne_raised {g : GateState} (h : Tables g) (fd : Fd) :
    g.destination fd ≠ .raised := by
  unfold GateState.destination
  split
  · rename_i hopen
    have hsome := h fd
    rw [hopen] at hsome
    obtain ⟨c, hc⟩ := Option.isSome_iff_exists.mp hsome.symm
    rw [hc, Option.map_some, Option.getD_some, Connection.destination]
    split <;> simp
  · simp

def GateState.outOf (g : GateState) (np : Netpack) : Out :=
  .message np.id np.buffer (g.destination np.id)

def Raised (out : List Out) : Prop := ∃ fd msg, .message fd msg .raised ∈ out

theorem not_raised_outOf {g : GateState} (htables : Tables g) (h : ¬ Raised g.out)
    (nps : List Netpack) : ¬ Raised (g.out ++ nps.map g.outOf) := by
  rintro ⟨fd, msg, hmem⟩
  rcases List.mem_append.mp hmem with hmem | hmem
  · exact h ⟨fd, msg, hmem⟩
  · obtain ⟨np, -, hnp⟩ := List.mem_map.mp hmem
    simp only [GateState.outOf, Out.message.injEq] at hnp
    exact destination_ne_raised htables np.id hnp.2.2

theorem raised_append_singleton {out : List Out} {o : Out}
    (ho : ∀ fd msg, o ≠ .message fd msg .raised) : Raised (out ++ [o]) ↔ Raised out := by
  constructor
  · rintro ⟨fd, msg, hmem⟩
    rcases List.mem_append.mp hmem with hmem | hmem
    · exact ⟨fd, msg, hmem⟩
    · exact absurd (List.mem_singleton.mp hmem).symm (ho fd msg)
  · rintro ⟨fd, msg, hmem⟩
    exact ⟨fd, msg, List.mem_append_left _ hmem⟩

def packetsOf (fd : Fd) (nps : List Netpack) : List Bytes :=
  (nps.filter fun np => decide (np.id = fd)).map Netpack.buffer

/-- `dispatch_queue` hands over everything that waits, each packet to its own fd. -/
theorem dispatchQueue_spec : ∀ (n : ℕ) (g : GateState),
    (waiting (getQueue g.queue)).length = n →
    ∃ q, g.dispatchQueue n = { g with
        queue := q
        out := g.out ++ (waiting (getQueue g.queue)).map g.outOf
        handed := fun fd => g.handed fd ++ packetsOf fd (waiting (getQueue g.queue)) } ∧
      waiting (getQueue q) = [] ∧ ∀ rest, Holds g.queue rest → Holds q rest := by
  intro n
  induction n with
  | zero =>
      intro g hn
      have hempty := List.eq_nil_of_length_eq_zero hn
      refine ⟨g.queue, ?_, hempty, fun _ h => h⟩
      rw [hempty]
      simp [dispatchQueue, packetsOf]
  | succ n ih =>
      intro g hn
      cases hpop : pop g.queue with
      | none =>
          rw [(pop_eq_none_iff g.queue).mp hpop] at hn
          cases hn
      | some popped =>
          obtain ⟨np, q⟩ := popped
          obtain ⟨hwaiting, hholds⟩ := pop_eq_some hpop
          have hhand := dispatchMsg_eq_hand { g with queue := some q } np.id np.buffer
          rw [hwaiting, List.length_cons, Nat.add_right_cancel_iff] at hn
          obtain ⟨q', heq, hempty, hkeep⟩ := ih (({ g with queue := some q } : GateState).hand np.id
            np.buffer (g.destination np.id)) hn
          refine ⟨q', ?_, hempty, fun rest h => hkeep rest (hholds rest h)⟩
          rw [dispatchQueue, hpop]
          simp only [hhand]
          refine Eq.trans heq ?_
          simp only [hand, send, hwaiting, GateState.mk.injEq, true_and]
          refine ⟨?_, funext fun fd => ?_⟩
          · rw [List.map_cons, List.append_assoc]
            rfl
          · by_cases hfd : np.id = fd
            · subst hfd
              simp [packetsOf]
            · simp [packetsOf, hfd, Function.update_of_ne (Ne.symm hfd)]

/-! ## What has been read of each connection -/

/-- Between two messages every whole packet has been handed over, and the rest is kept. -/
structure Reads (g : GateState) : Prop where
  holds : Holds g.queue fun fd => (wire.split (g.received fd)).2
  handed : ∀ fd, g.handed fd = (wire.split (g.received fd)).1
  empty : waiting (getQueue g.queue) = []

theorem Reads.of_eq {g g' : GateState} (h : Reads g) (hqueue : g'.queue = g.queue)
    (hreceived : g'.received = g.received) (hhanded : g'.handed = g.handed) : Reads g' where
  holds := by rw [hqueue, hreceived]; exact h.holds
  handed := by rw [hhanded, hreceived]; exact h.handed
  empty := by rw [hqueue]; exact h.empty

theorem packetsOf_map (fd other : Fd) (ps : List Bytes) :
    packetsOf other (ps.map (packOf fd)) = if other = fd then ps else [] := by
  by_cases hfd : other = fd
  · subst hfd
    rw [if_pos rfl, packetsOf, List.filter_eq_self.mpr (by simp [packOf]), List.map_map]
    exact List.map_id _
  · rw [if_neg hfd, packetsOf, List.filter_eq_nil_iff.mpr (by simp [packOf, Ne.symm hfd])]
    rfl

/-- A step that reads `buffer` from `id` and hands over what it completes. -/
theorem reads_of_split {g g' : GateState} {id : Fd} {buffer : Bytes} (h : Reads g)
    (hholds : Holds g'.queue (Function.update (fun fd => (wire.split (g.received fd)).2) id
      (wire.split ((wire.split (g.received id)).2 ++ buffer)).2))
    (hempty : waiting (getQueue g'.queue) = [])
    (hreceived : g'.received = Function.update g.received id (g.received id ++ buffer))
    (hhanded : ∀ fd, g'.handed fd = g.handed fd ++
      if fd = id then (wire.split ((wire.split (g.received id)).2 ++ buffer)).1 else []) :
    Reads g' := by
  refine ⟨?_, fun fd => ?_, hempty⟩
  · have hrest : (fun fd => (wire.split (g'.received fd)).2) =
        Function.update (fun fd => (wire.split (g.received fd)).2) id
          (wire.split ((wire.split (g.received id)).2 ++ buffer)).2 := by
      funext fd
      rw [hreceived]
      by_cases hfd : fd = id
      · subst hfd
        rw [Function.update_self, Function.update_self, wire.split_append]
      · rw [Function.update_of_ne hfd, Function.update_of_ne hfd]
    rw [hrest]
    exact hholds
  · rw [hhanded, hreceived, h.handed]
    by_cases hfd : fd = id
    · subst hfd
      rw [if_pos rfl, Function.update_self, wire.split_append (g.received fd) buffer]
    · rw [if_neg hfd, Function.update_of_ne hfd, List.append_nil]

/-- A message changes the queue and the records of its fd, and its packets go where they belong. -/
structure Kept (g g' : GateState) : Prop where
  connection : g'.connection = g.connection
  connections : g'.connections = g.connections
  clientNumber : g'.clientNumber = g.clientNumber
  maxclient : g'.maxclient = g.maxclient
  sent : ∃ nps, g'.out = g.out ++ nps.map g.outOf ∧
    ∀ fd, g'.handed fd = g.handed fd ++ packetsOf fd nps

theorem reads_data {g : GateState} (h : Reads g) (id : Fd) {buffer : Bytes}
    (hne : buffer ≠ []) :
    Reads (g.socketMessage (.data id buffer)) ∧ Kept g (g.socketMessage (.data id buffer)) := by
  have htakes := takes_filterData g.queue id _ buffer (h.holds.keeps id) (h.holds.unfinished id) hne
  have hholds := holds_filterData h.holds id hne
  simp only [socketMessage, LuaNetpack.filter, record]
  generalize hsplit : wire.split ((wire.split (g.received id)).2 ++ buffer) = split at htakes hholds
  obtain ⟨ps, rest⟩ := split
  have hanswer := htakes.answer
  have hwaiting := htakes.waiting
  rw [h.empty, List.nil_append] at hwaiting
  have hps : (wire.split ((wire.split (g.received id)).2 ++ buffer)).1 = ps := by rw [hsplit]
  generalize filterData g.queue id buffer = filtered at htakes hholds hanswer hwaiting
  obtain ⟨result, q⟩ := filtered
  simp only at hanswer hwaiting hholds
  subst hanswer
  have hholds' : Holds q (Function.update (fun fd => (wire.split (g.received fd)).2) id
      (wire.split ((wire.split (g.received id)).2 ++ buffer)).2) := by rw [hsplit]; exact hholds
  by_cases hmore : answer id ps rest = .more
  · rw [queued, if_pos hmore] at hwaiting
    rw [hmore]
    obtain ⟨q', heq, hempty, hkeep⟩ := dispatchQueue_spec _
      { g with received := Function.update g.received id (g.received id ++ buffer), queue := q } rfl
    simp only [dispatch]
    rw [heq]
    refine ⟨reads_of_split h (hkeep _ hholds') hempty rfl fun fd => ?_, rfl, rfl, rfl, rfl,
      waiting (getQueue q), rfl, fun _ => rfl⟩
    simp only
    rw [hwaiting, packetsOf_map, hps]
  · rw [queued, if_neg hmore] at hwaiting
    rcases ps with _ | ⟨p, _ | ⟨p', ps⟩⟩
    · simp only [answer, dispatch]
      refine ⟨reads_of_split h hholds' hwaiting rfl fun fd => ?_, rfl, rfl, rfl, rfl,
        [], by simp, fun fd => by simp [packetsOf]⟩
      rw [hps]
      simp
    · cases rest with
      | nil =>
        simp only [answer, dispatch]
        rw [dispatchMsg_eq_hand]
        have hhanded : ∀ fd, Function.update g.handed id (g.handed id ++ [p]) fd =
            g.handed fd ++ packetsOf fd ([p].map (packOf id)) := by
          intro fd
          rw [packetsOf_map]
          by_cases hfd : fd = id
          · subst hfd
            simp
          · simp [hfd]
        refine ⟨reads_of_split h hholds' hwaiting rfl fun fd => ?_, rfl, rfl, rfl, rfl,
          [p].map (packOf id), rfl, hhanded⟩
        rw [hps, ← packetsOf_map]
        exact hhanded fd
      | cons b rest => exact absurd rfl hmore
    · exact absurd rfl hmore

theorem reads_forget {g : GateState} (h : Reads g) (id : Fd) (g' : GateState)
    (hqueue : g'.queue = closeUncomplete g.queue id)
    (hreceived : g'.received = Function.update g.received id [])
    (hhanded : g'.handed = Function.update g.handed id []) : Reads g' := by
  obtain ⟨hholds, hwaiting⟩ := holds_closeUncomplete h.holds id
  refine ⟨?_, fun fd => ?_, ?_⟩
  · have hrest : (fun fd => (wire.split (g'.received fd)).2) =
        Function.update (fun fd => (wire.split (g.received fd)).2) id [] := by
      funext fd
      rw [hreceived]
      by_cases hfd : fd = id
      · subst hfd
        rw [Function.update_self, Function.update_self, split_nil]
      · rw [Function.update_of_ne hfd, Function.update_of_ne hfd]
    rw [hqueue, hrest]
    exact hholds
  · rw [hhanded, hreceived]
    by_cases hfd : fd = id
    · subst hfd
      rw [Function.update_self, Function.update_self, split_nil]
    · rw [Function.update_of_ne hfd, Function.update_of_ne hfd]
      exact h.handed fd
  · rw [hqueue, hwaiting]
    exact h.empty

/-! ## The connection tables -/

structure Inv (g : GateState) : Prop where
  reads : Reads g
  tables : Tables g
  noRaise : ¬ Raised g.out

theorem tables_update {g : GateState} (h : Tables g) (fd : Fd) (b : Option Bool)
    (c : Option Connection) (hsame : b.isSome = c.isSome) (other : Fd) :
    (Function.update g.connection fd b other).isSome =
      (Function.update g.connections fd c other).isSome := by
  by_cases hfd : other = fd
  · subst hfd
    rw [Function.update_self, Function.update_self, hsame]
  · rw [Function.update_of_ne hfd, Function.update_of_ne hfd]
    exact h other

theorem not_raised_send {g : GateState} (h : ¬ Raised g.out) {o : Out}
    (ho : ∀ fd msg, o ≠ .message fd msg .raised) : ¬ Raised (g.send o).out :=
  fun hr => h ((raised_append_singleton ho).mp hr)

theorem Inv.send {g : GateState} (h : Inv g) {o : Out}
    (ho : ∀ fd msg, o ≠ .message fd msg .raised) :
    Inv (g.send o) :=
  ⟨h.reads.of_eq rfl rfl rfl, h.tables, not_raised_send h.noRaise ho⟩

theorem inv_openclient {g : GateState} (h : Inv g) (fd : Fd) : Inv (g.openclient fd) := by
  unfold openclient
  split
  · exact h.send (by simp)
  · exact h

theorem inv_closeclient {g : GateState} (h : Inv g) (fd : Fd) : Inv (g.closeclient fd) := by
  unfold closeclient
  split
  · rename_i hopen
    have htables : Tables
        { g with connection := Function.update g.connection fd (some false) } := by
      intro other
      rw [← h.tables other]
      by_cases hother : other = fd
      · subst hother
        simp [hopen]
      · simp [hother]
    exact Inv.send (g := { g with connection := Function.update g.connection fd (some false) })
      ⟨h.reads.of_eq rfl rfl rfl, htables, h.noRaise⟩ (by simp)
  · exact h

theorem inv_setAgent {g : GateState} (h : Inv g) (fd : Fd) (c c' : Connection)
    (hc : g.connections fd = some c) : Inv (g.setAgent fd c') := by
  have htables : Tables { g with connections := Function.update g.connections fd (some c') } := by
    intro other
    rw [h.tables other]
    by_cases hother : other = fd
    · subst hother
      simp [hc]
    · simp [hother]
  exact inv_openclient (g := { g with connections := Function.update g.connections fd (some c') })
    ⟨h.reads.of_eq rfl rfl rfl, htables, h.noRaise⟩ fd

theorem inv_msgOpen {g : GateState} (h : Inv g) (fd : Fd) (msg : Bytes) :
    Inv (g.msgOpen fd msg) := by
  unfold msgOpen
  split
  · exact h.send (by simp)
  · have hnodelay : Inv (if g.nodelay then g.send (.driverNodelay fd) else g) := by
      split
      · exact h.send (by simp)
      · exact h
    generalize (if g.nodelay then g.send (.driverNodelay fd) else g) = g' at hnodelay
    exact Inv.send (g := { g' with
        connection := Function.update g'.connection fd (some true)
        clientNumber := g'.clientNumber + 1
        connections := Function.update g'.connections fd (some ⟨fd, msg, 0, none⟩) })
      ⟨hnodelay.reads.of_eq rfl rfl rfl, tables_update hnodelay.tables fd _ _ rfl,
        hnodelay.noRaise⟩ (by simp)

theorem tables_closeFd {g : GateState} (h : Tables g) (fd : Fd) (out : List Out) :
    Tables (({ g with
      connections := Function.update g.connections fd none, out := out } : GateState).closeFd
        fd) := by
  intro other
  unfold closeFd
  simp only
  split
  · exact tables_update h fd none none rfl other
  · rename_i hnone
    by_cases hother : other = fd
    · subst hother
      simp only [Bool.not_eq_true] at hnone
      rw [hnone]
      simp
    · simp only [Function.update_of_ne hother]
      exact h other

theorem closeFd_eq (g : GateState) (fd : Fd) : ∃ connection clientNumber,
    g.closeFd fd = { g with connection := connection, clientNumber := clientNumber } := by
  unfold closeFd
  split
  · exact ⟨_, _, rfl⟩
  · exact ⟨g.connection, g.clientNumber, rfl⟩

/-- The handlers of a close and of an error take the fd out of both tables. -/
theorem inv_closed {g : GateState} (h : Inv g) (fd : Fd) {o : Out}
    (ho : ∀ fd msg, o ≠ .message fd msg .raised) :
    Inv (((g.handlerCloseFd fd).send o).closeFd fd) := by
  obtain ⟨connection, clientNumber, heq⟩ := closeFd_eq ((g.handlerCloseFd fd).send o) fd
  refine ⟨?_, tables_closeFd h.tables fd _, ?_⟩
  · rw [heq]
    exact h.reads.of_eq rfl rfl rfl
  · rw [heq]
    exact not_raised_send h.noRaise ho

theorem inv_msgClose {g : GateState} (h : Inv g) (fd : Fd) : Inv (g.msgClose fd) := by
  unfold msgClose
  split
  · exact inv_closed h fd (by simp)
  · exact ⟨h.reads.of_eq rfl rfl rfl, h.tables, h.noRaise⟩

theorem inv_msgError {g : GateState} (h : Inv g) (fd : Fd) (msg : Bytes) :
    Inv (g.msgError fd msg) := by
  unfold msgError
  split
  · exact (h.send (by simp)).send (by simp)
  · exact inv_closed h fd (by simp)

theorem inv_forgotten {g : GateState} (h : Inv g) (id : Fd) : Inv { g with
    queue := closeUncomplete g.queue id
    received := Function.update g.received id []
    handed := Function.update g.handed id [] } :=
  ⟨reads_forget h.reads id _ rfl rfl rfl, h.tables, h.noRaise⟩

theorem inv_socketMessage {g : GateState} (h : Inv g) {message : SocketMessage}
    (hpossible : Possible g message) : Inv (g.socketMessage message) := by
  cases message with
  | data id buffer =>
      obtain ⟨hreads, hkept⟩ := reads_data h.reads id hpossible
      obtain ⟨nps, hout, -⟩ := hkept.sent
      refine ⟨hreads, fun fd => ?_, ?_⟩
      · rw [hkept.connection, hkept.connections]
        exact h.tables fd
      · rw [hout]
        exact not_raised_outOf h.tables h.noRaise nps
  | connect id => exact ⟨h.reads.of_eq rfl rfl rfl, h.tables, h.noRaise⟩
  | close id => exact inv_msgClose (inv_forgotten h id) id
  | accept id ud buffer => exact inv_msgOpen (g := { g with queue := g.queue }) h ud buffer
  | error id buffer => exact inv_msgError (inv_forgotten h id) id buffer
  | warning id ud => exact Inv.send (g := { g with queue := g.queue }) h (by simp)

theorem inv_step {g g' : GateState} {e : Event} (h : Inv g) (hstep : step g e = some g') :
    Inv g' := by
  cases e with
  | socket message =>
      simp only [step] at hstep
      split at hstep
      · rename_i hpossible
        cases Option.some.inj hstep
        exact inv_socketMessage h hpossible
      · cases hstep
  | cmdOpen listen maxclient nodelay =>
      simp only [step] at hstep
      split at hstep
      · cases Option.some.inj hstep
        unfold GateState.cmdOpen
        split
        · exact h
        · have hopened : Inv { g with
              socket := some listen
              maxclient := maxclient
              nodelay := nodelay } :=
            ⟨h.reads.of_eq rfl rfl rfl, h.tables, h.noRaise⟩
          exact hopened.send (by simp)
      · cases hstep
  | cmdClose =>
      cases Option.some.inj hstep
      unfold GateState.cmdClose
      split
      · exact h.send (by simp)
      · exact h
  | cmdForward source fd client address =>
      cases Option.some.inj hstep
      unfold GateState.cmdForward
      split
      · rename_i c hc
        exact inv_setAgent h fd c _ hc
      · exact h
  | cmdAccept fd =>
      cases Option.some.inj hstep
      unfold GateState.cmdAccept
      split
      · rename_i c hc
        exact inv_setAgent h fd c _ hc
      · exact h
  | cmdKick fd =>
      cases Option.some.inj hstep
      exact inv_closeclient h fd

theorem inv_start : Inv start where
  reads := ⟨by simpa [start, split_nil] using holds_none, fun fd => by simp [start, split_nil],
    RingBuffer.contents_empty ..⟩
  tables := fun _ => rfl
  noRaise := fun ⟨_, _, h⟩ => by cases h

/-! ## What came from a connection -/

/-- The bytes that have come from `fd` since it was last closed. -/
def receivedFrom (fd : Fd) : Bytes → Event → Bytes
  | bytes, .socket (.data id buffer) => if id = fd then bytes ++ buffer else bytes
  | bytes, .socket (.close id) => if id = fd then [] else bytes
  | bytes, .socket (.error id _) => if id = fd then [] else bytes
  | bytes, _ => bytes

theorem received_dispatch (g : GateState) (filtered : Filtered) :
    (g.dispatch filtered).received = g.received := by
  cases filtered with
  | queue => rfl
  | data fd msg => rw [dispatch, dispatchMsg_eq_hand]; rfl
  | more =>
      obtain ⟨q, heq, -⟩ := dispatchQueue_spec _ g rfl
      rw [dispatch, heq]
  | error fd msg =>
      simp only [dispatch, msgError, closeFd]
      split
      · rfl
      · split <;> rfl
  | opened fd msg =>
      simp only [dispatch, msgOpen]
      split
      · rfl
      · split <;> rfl
  | close fd =>
      simp only [dispatch, msgClose, closeFd]
      split
      · split <;> rfl
      · rfl
  | warning fd size => rfl

theorem received_step {g g' : GateState} {e : Event} (hstep : step g e = some g') (fd : Fd) :
    g'.received fd = receivedFrom fd (g.received fd) e := by
  cases e with
  | socket message =>
      simp only [step] at hstep
      split at hstep
      · cases Option.some.inj hstep
        rw [socketMessage, received_dispatch]
        cases message <;> simp only [record, receivedFrom, Function.update_apply] <;> grind
      · cases hstep
  | cmdOpen listen maxclient nodelay =>
      simp only [step] at hstep
      split at hstep
      · cases Option.some.inj hstep
        unfold GateState.cmdOpen
        split <;> rfl
      · cases hstep
  | cmdClose =>
      cases Option.some.inj hstep
      unfold GateState.cmdClose
      split <;> rfl
  | cmdForward source fd client address =>
      cases Option.some.inj hstep
      unfold GateState.cmdForward setAgent openclient
      split
      · split <;> rfl
      · rfl
  | cmdAccept fd =>
      cases Option.some.inj hstep
      unfold GateState.cmdAccept setAgent openclient
      split
      · split <;> rfl
      · rfl
  | cmdKick fd =>
      cases Option.some.inj hstep
      unfold closeclient
      split <;> rfl

theorem received_run (fd : Fd) : ∀ (events : List Event) (g g' : GateState),
    run step g events = some g' → g'.received fd = events.foldl (receivedFrom fd) (g.received fd)
  | [], g, g', hrun => by
      cases Option.some.inj hrun
      rfl
  | e :: events, g, g', hrun => by
      obtain ⟨g₁, hstep, hrest⟩ := (run_cons_eq_some step g g' e events).mp hrun
      rw [received_run fd events g₁ g' hrest, received_step hstep, List.foldl_cons]

/-- However the bytes of the connections are cut and interleaved, and whatever else the gate is
told between them, the packets taken off for an fd are, in order and each once, those whose
frames it has sent since it was last closed; what follows the last whole frame is kept.  Data
makes the gate send the packets it completes, as long as the connection is open to its agent or to
the watchdog, and no packet finds the connection record of its fd missing. -/
theorem handed_frames (events : List Event) (g : GateState)
    (hrun : run step start events = some g) :
    (∀ fd, ∃ frames rest, wire.stream (g.handed fd) = some frames ∧
      events.foldl (receivedFrom fd) [] = frames ++ rest ∧ Incomplete rest) ∧
      (∀ id buffer g', step g (.socket (.data id buffer)) = some g' →
        ∃ nps, g'.out = g.out ++ nps.map g.outOf ∧
          ∀ fd, g'.handed fd = g.handed fd ++ packetsOf fd nps) ∧
      ∀ fd msg, .message fd msg .raised ∉ g.out := by
  have hinv := run_invariant step (fun _ _ => True) Inv (fun _ _ _ h _ hstep => inv_step h hstep)
    events start g inv_start (along_true step events start) hrun
  refine ⟨fun fd => ?_, fun id buffer g' hstep => ?_,
    fun fd msg hmem => hinv.noRaise ⟨fd, msg, hmem⟩⟩
  · have hreceived : g.received fd = events.foldl (receivedFrom fd) [] :=
      received_run fd events start g hrun
    obtain ⟨frames, hframes, hsplit, hnone⟩ := wire.split_spec (g.received fd)
    rw [hinv.reads.handed, ← hreceived]
    exact ⟨frames, _, hframes, hsplit.symm, (unframe_eq_none_iff _).mp hnone⟩
  · simp only [step] at hstep
    split at hstep
    · rename_i hpossible
      cases Option.some.inj hstep
      exact (reads_data hinv.reads id hpossible).2.sent
    · cases hstep

/-- A frame cut in two, with a frame of another connection between its parts. -/
theorem handed_frames_interleaved : ∃ g,
    run step start [.cmdOpen 1 8 false, .socket (.accept 1 2 []), .socket (.accept 1 3 []),
      .cmdForward 7 2 none none, .socket (.data 2 [0]), .socket (.data 3 [0, 1, 5])] = some g ∧
    (∀ fd, ∃ frames rest, wire.stream (g.handed fd) = some frames ∧
      [.cmdOpen 1 8 false, .socket (.accept 1 2 []), .socket (.accept 1 3 []),
        .cmdForward 7 2 none none, .socket (.data 2 [0]), .socket (.data 3 [0, 1, 5])].foldl
        (receivedFrom fd) [] = frames ++ rest ∧ Incomplete rest) ∧
      (∃ g', step g (.socket (.data 2 [1, 9])) = some g' ∧
        ∃ nps, g'.out = g.out ++ nps.map g.outOf ∧
          ∀ fd, g'.handed fd = g.handed fd ++ packetsOf fd nps) ∧
      g.outOf ⟨2, 1, [9]⟩ = .message 2 [9] (.agent 7 0) ∧
      ∀ fd msg, .message fd msg .raised ∉ g.out := by
  obtain ⟨hframes, hsent, hraised⟩ := handed_frames [.cmdOpen 1 8 false, .socket (.accept 1 2 []),
    .socket (.accept 1 3 []), .cmdForward 7 2 none none, .socket (.data 2 [0]),
    .socket (.data 3 [0, 1, 5])] _ rfl
  exact ⟨_, rfl, hframes, ⟨_, rfl, hsent 2 [1, 9] _ rfl⟩, rfl, hraised⟩

/-! ## The number of clients -/

/-- `client_number` counts the fds that have an entry, and `bound` is not exceeded. -/
structure Counts (bound : ℕ) (g : GateState) : Prop where
  clients : ∃ fds : Finset Fd, (∀ fd, fd ∈ fds ↔ (g.connection fd).isSome) ∧
    g.clientNumber = fds.card
  max : g.maxclient ≤ bound
  number : g.clientNumber ≤ bound

theorem Counts.of_eq {bound : ℕ} {g g' : GateState} (h : Counts bound g)
    (hconnection : ∀ fd, (g'.connection fd).isSome = (g.connection fd).isSome)
    (hnumber : g'.clientNumber = g.clientNumber) (hmax : g'.maxclient = g.maxclient) :
    Counts bound g' := by
  obtain ⟨fds, hmem, hcard⟩ := h.clients
  refine ⟨⟨fds, fun fd => ?_, hnumber.trans hcard⟩, hmax ▸ h.max, hnumber ▸ h.number⟩
  rw [hconnection]
  exact hmem fd

theorem counts_msgOpen {bound : ℕ} {g : GateState} (h : Counts bound g) {fd : Fd}
    (hnew : g.connection fd = none) (msg : Bytes) : Counts bound (g.msgOpen fd msg) := by
  unfold msgOpen
  split
  · exact h.of_eq (fun _ => rfl) rfl rfl
  · rename_i hroom
    have hnodelay : ∀ g' : GateState, g'.connection = g.connection →
        g'.clientNumber = g.clientNumber → g'.maxclient = g.maxclient →
        Counts bound (({ g' with
          connection := Function.update g'.connection fd (some true)
          clientNumber := g'.clientNumber + 1 } : GateState).handlerConnect fd msg) := by
      intro g' hconnection hnumber hmax
      obtain ⟨fds, hmem, hcard⟩ := h.clients
      have hfresh : fd ∉ fds := fun hin => by simpa [hnew] using (hmem fd).mp hin
      refine ⟨⟨insert fd fds, fun other => ?_, ?_⟩, hmax ▸ h.max, ?_⟩
      · simp only [handlerConnect, send, hconnection, Finset.mem_insert, Function.update_apply]
        by_cases hother : other = fd
        · simp [hother]
        · simp [hother, hmem]
      · simp only [handlerConnect, send, hnumber, hcard]
        rw [Finset.card_insert_of_notMem hfresh]
        rfl
      · have hbound := h.max
        simp only [handlerConnect, send, hnumber]
        omega
    split
    · exact hnodelay _ rfl rfl rfl
    · exact hnodelay _ rfl rfl rfl

theorem counts_closeFd {bound : ℕ} {g : GateState} (h : Counts bound g) (fd : Fd) :
    Counts bound (g.closeFd fd) := by
  unfold closeFd
  split
  · rename_i hsome
    obtain ⟨fds, hmem, hcard⟩ := h.clients
    have hin : fd ∈ fds := (hmem fd).mpr hsome
    have hpos := Finset.card_pos.mpr ⟨fd, hin⟩
    have hnumber := h.number
    refine ⟨⟨fds.erase fd, fun other => ?_, ?_⟩, h.max, by simp only; omega⟩
    · simp only [Finset.mem_erase, Function.update_apply]
      by_cases hother : other = fd
      · simp [hother]
      · simp [hother, hmem]
    · simp only [Finset.card_erase_of_mem hin, hcard]
      omega
  · exact h

theorem counts_closed {bound : ℕ} {g : GateState} (h : Counts bound g) (fd : Fd) (o : Out) :
    Counts bound (((g.handlerCloseFd fd).send o).closeFd fd) :=
  counts_closeFd (g := (g.handlerCloseFd fd).send o) (h.of_eq (fun _ => rfl) rfl rfl) fd

theorem counts_socketMessage {bound : ℕ} {g : GateState} (hinv : Inv g) (h : Counts bound g)
    {message : SocketMessage} (hpossible : Possible g message) :
    Counts bound (g.socketMessage message) := by
  cases message with
  | data id buffer =>
      obtain ⟨-, hkept⟩ := reads_data hinv.reads id hpossible
      exact h.of_eq (fun fd => by rw [hkept.connection]) hkept.clientNumber hkept.maxclient
  | connect id => exact h.of_eq (fun _ => rfl) rfl rfl
  | close id =>
      have hsame : Counts bound { g with
          queue := closeUncomplete g.queue id
          received := Function.update g.received id []
          handed := Function.update g.handed id [] } := h.of_eq (fun _ => rfl) rfl rfl
      change Counts bound (msgClose _ id)
      unfold msgClose
      split
      · exact counts_closed hsame id _
      · exact h.of_eq (fun _ => rfl) rfl rfl
  | accept id ud buffer =>
      exact counts_msgOpen (g := { g with queue := g.queue }) (h.of_eq (fun _ => rfl) rfl rfl)
        hpossible.2.1 buffer
  | error id buffer =>
      have hsame : Counts bound { g with
          queue := closeUncomplete g.queue id
          received := Function.update g.received id []
          handed := Function.update g.handed id [] } := h.of_eq (fun _ => rfl) rfl rfl
      change Counts bound (msgError _ id buffer)
      unfold msgError
      split
      · exact h.of_eq (fun _ => rfl) rfl rfl
      · exact counts_closed hsame id _
  | warning id ud => exact h.of_eq (fun _ => rfl) rfl rfl

/-- No `open` of the run allows more than `bound` clients. -/
def Allows (bound : ℕ) : Event → Prop
  | .cmdOpen _ maxclient _ => maxclient ≤ bound
  | _ => True

theorem counts_setAgent {bound : ℕ} {g : GateState} (h : Counts bound g) (fd : Fd)
    (c : Connection) : Counts bound (g.setAgent fd c) := by
  unfold setAgent openclient
  split
  · exact h.of_eq (fun _ => rfl) rfl rfl
  · exact h.of_eq (fun _ => rfl) rfl rfl

theorem counts_step {bound : ℕ} {g g' : GateState} {e : Event} (hinv : Inv g)
    (h : Counts bound g) (hallows : Allows bound e) (hstep : step g e = some g') :
    Counts bound g' := by
  cases e with
  | socket message =>
      simp only [step] at hstep
      split at hstep
      · rename_i hpossible
        cases Option.some.inj hstep
        exact counts_socketMessage hinv h hpossible
      · cases hstep
  | cmdOpen listen maxclient nodelay =>
      simp only [step] at hstep
      split at hstep
      · cases Option.some.inj hstep
        unfold GateState.cmdOpen
        split
        · exact h
        · exact ⟨h.clients, hallows, h.number⟩
      · cases hstep
  | cmdClose =>
      cases Option.some.inj hstep
      unfold GateState.cmdClose
      split
      · exact h.of_eq (fun _ => rfl) rfl rfl
      · exact h
  | cmdForward source fd client address =>
      cases Option.some.inj hstep
      unfold GateState.cmdForward
      split
      · exact counts_setAgent h fd _
      · exact h
  | cmdAccept fd =>
      cases Option.some.inj hstep
      unfold GateState.cmdAccept
      split
      · exact counts_setAgent h fd _
      · exact h
  | cmdKick fd =>
      cases Option.some.inj hstep
      unfold closeclient
      split
      · rename_i hopen
        refine h.of_eq (fun other => ?_) rfl rfl
        by_cases hother : other = fd
        · subst hother
          simp [send, hopen]
        · simp [send, hother]
      · exact h

/-- `client_number` is the number of fds in the connection table, kicked ones included, and
never exceeds the largest limit the gate was opened with, whatever connections come and go. -/
theorem clientNumber_eq_card (bound : ℕ) (events : List Event) (g : GateState)
    (hallows : ∀ e ∈ events, Allows bound e) (hrun : run step start events = some g) :
    (∃ fds : Finset Fd, (∀ fd, fd ∈ fds ↔ (g.connection fd).isSome) ∧
      g.clientNumber = fds.card) ∧ g.clientNumber ≤ bound := by
  have hstart : Inv start ∧ Counts bound start :=
    ⟨inv_start, ⟨∅, fun fd => by simp [start], rfl⟩, Nat.zero_le _, Int.natCast_nonneg _⟩
  have hend := run_invariant step (fun _ e => Allows bound e)
    (fun g => Inv g ∧ Counts bound g)
    (fun _ _ _ h hallows hstep => ⟨inv_step h.1 hstep, counts_step h.1 h.2 hallows hstep⟩)
    events start g hstart (along_of_forall step events start fun e he _ => hallows e he) hrun
  exact ⟨hend.2.clients, hend.2.number⟩

/-- Two places, three connections, one of them kicked and closed. -/
theorem clientNumber_eq_card_full : ∃ g,
    run step start [.cmdOpen 1 2 false, .socket (.accept 1 2 []), .socket (.accept 1 3 []),
      .socket (.accept 1 4 []), .cmdKick 2, .socket (.close 2)] = some g ∧
    (∃ fds : Finset Fd, (∀ fd, fd ∈ fds ↔ (g.connection fd).isSome) ∧
      g.clientNumber = fds.card) ∧ g.clientNumber ≤ (2 : ℕ) :=
  ⟨_, rfl, clientNumber_eq_card 2 [.cmdOpen 1 2 false, .socket (.accept 1 2 []),
    .socket (.accept 1 3 []), .socket (.accept 1 4 []), .cmdKick 2, .socket (.close 2)] _
    (by simp [Allows]) rfl⟩

end Doudizhu.Skynet.Gate
