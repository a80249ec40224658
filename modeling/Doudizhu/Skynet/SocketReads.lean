import Doudizhu.Lib.Runs
import Doudizhu.Skynet.SocketBuffer

/-! # Reading a socket

`socket.lua`: a coroutine that reads takes what is there or is suspended, with what it needs in
`read_required`; the messages of the socket server fill the buffer and wake it.  A woken coroutine
runs before the next message is dispatched.

One coroutine reads a socket.  `close`, `shutdown` and `abandon` of the own side, `buffer_limit` and
UDP are not part of this. -/

set_option autoImplicit false

namespace Doudizhu.Skynet.SocketReads

open Runs
open Network (Bytes)
open Reader (cutAt cutAt_sound cutAt_self)
open SocketBuffer (readall_spec pop_spec readline_spec)

/-- A separator of lines has a byte at least. -/
abbrev Separator : Type := { sep : Bytes // sep ≠ [] }

/-- The calls that read: `read(id)`, `read(id, sz)`, `readline(id, sep)`, `readall(id)` and
`block(id)`. -/
inductive ReadCall where
  | read
  | readSize (sz : ℕ)
  | readline (sep : Separator)
  | readall
  | block

/-- `bytes` is a string, `failed` is `false` with what was left, `flag` the answer of `block`. -/
inductive Answer where
  | bytes (b : Bytes)
  | failed (rest : Bytes)
  | flag (b : Bool)
  | nil
  | raised

/-- `read_required`, when it is neither nil nor `false`. -/
inductive Required where
  | number (n : ℕ)
  | string (sep : Separator)
  | boolean

/-- `co` tells whether the coroutine is kept in the record. -/
structure Socket where
  buffer : SocketBuffer
  connected : Bool
  readRequired : Option Required
  co : Bool

inductive Outcome where
  | answer (a : Answer)
  | suspended

section Functions

def wakeup (s : Socket) : Socket × Bool := ({ s with co := false }, s.co)

/-- The first half of `suspend`, after `assert(not s.read_required)`. -/
def suspend (s : Socket) (required : Required) : Outcome × Socket :=
  if s.readRequired.isSome || s.co then (.answer .raised, s)
  else (.suspended, { s with readRequired := some required, co := true })

/-- `return false, driver.readall(s.buffer, buffer_pool)`. -/
def failAll (s : Socket) : Outcome × Socket :=
  (.answer (.failed s.buffer.readall.1), { s with buffer := s.buffer.readall.2 })

/-- A call up to its answer or to where it is suspended; `none` is a crash. -/
def call (s : Socket) : ReadCall → Option (Outcome × Socket)
  | .read =>
      let s' := { s with buffer := s.buffer.readall.2 }
      if s.buffer.readall.1 ≠ [] then some (.answer (.bytes s.buffer.readall.1), s')
      else if !s.connected then some (.answer (.failed s.buffer.readall.1), s')
      else some (suspend s' (.number 0))
  | .readSize sz =>
      (s.buffer.pop sz).map fun popped =>
        let s' := { s with buffer := popped.2 }
        match popped.1 with
        | some ret => (.answer (.bytes ret), s')
        | none => if !s.connected then failAll s' else suspend s' (.number sz)
  | .readline sep =>
      (s.buffer.readline sep).map fun line =>
        let s' := { s with buffer := line.2 }
        match line.1 with
        | some ret => (.answer (.bytes ret), s')
        | none => if !s.connected then failAll s' else suspend s' (.string sep)
  | .readall =>
      if !s.connected then
        if s.buffer.readall.1 ≠ [] then
          some (.answer (.bytes s.buffer.readall.1), { s with buffer := s.buffer.readall.2 })
        else some (failAll s)
      else some (suspend s .boolean)
  | .block =>
      if !s.connected then some (.answer (.flag false), s) else some (suspend s (.number 0))

def resume (s : Socket) : ReadCall → Option (Answer × Socket)
  | .read =>
      let s' := { s with buffer := s.buffer.readall.2 }
      if s.buffer.readall.1 ≠ [] then some (.bytes s.buffer.readall.1, s')
      else some (.failed s.buffer.readall.1, s')
  | .readSize sz =>
      (s.buffer.pop sz).map fun popped =>
        match popped.1 with
        | some ret => (.bytes ret, { s with buffer := popped.2 })
        | none => (.failed popped.2.readall.1, { s with buffer := popped.2.readall.2 })
  | .readline sep =>
      if s.connected then
        (s.buffer.readline sep).map fun line =>
          (match line.1 with
            | some ret => .bytes ret
            | none => .nil, { s with buffer := line.2 })
      else some (.failed s.buffer.readall.1, { s with buffer := s.buffer.readall.2 })
  | .readall =>
      if s.connected then some (.raised, s)
      else some (.bytes s.buffer.readall.1, { s with buffer := s.buffer.readall.2 })
  | .block => some (.flag s.connected, s)

/-- `socket_message[1]`, without a `buffer_limit`. -/
def dataMessage (s : Socket) (data : Bytes) : Option (Socket × Bool) :=
  let sz := (s.buffer.push data).2
  let s' := { s with buffer := (s.buffer.push data).1 }
  match s.readRequired with
  | some (.number rr) =>
      if sz ≥ rr then some (wakeup { s' with readRequired := none }) else some (s', false)
  | some (.string rr) =>
      (s'.buffer.checkLine rr).map fun found =>
        if found then wakeup { s' with readRequired := none } else (s', false)
  | some .boolean => some (s', false)
  | none => some (s', false)

/-- `socket_message[3]`. -/
def closeMessage (s : Socket) : Socket × Bool := wakeup { s with connected := false }

/-- `socket_message[5]` of a socket that was connected, but for the log and `driver.shutdown`. -/
def errorMessage (s : Socket) : Socket × Bool := wakeup { s with connected := false }

end Functions

/-! ## The socket and its reader -/

inductive Pc where
  | idle
  | waiting (c : ReadCall)
  | woken (c : ReadCall)
  | crashed

structure World where
  socket : Socket
  reader : Pc
  received : Bytes
  answered : List (ReadCall × Answer)

inductive Event where
  | call (c : ReadCall)
  | data (bytes : Bytes)
  | close
  | error
  | resume

def start : World := ⟨⟨.empty, true, none, false⟩, .idle, [], []⟩

def Pc.wake (pc : Pc) (woken : Bool) : Pc :=
  match pc, woken with
  | .waiting c, true => .woken c
  | pc, _ => pc

def Pc.isWoken : Pc → Bool
  | .woken _ => true
  | _ => false

/-- The socket server sends no empty data and none after it reported the end. -/
def step (w : World) : Event → Option World
  | .call c =>
      match w.reader with
      | .idle =>
          match call w.socket c with
          | none => some { w with reader := .crashed }
          | some (.answer a, s) => some { w with socket := s, answered := w.answered ++ [(c, a)] }
          | some (.suspended, s) => some { w with socket := s, reader := .waiting c }
      | _ => none
  | .data bytes =>
      if w.reader.isWoken || bytes.isEmpty || !w.socket.connected then none
      else match dataMessage w.socket bytes with
        | none => some { w with reader := .crashed }
        | some (s, woken) => some { w with
            socket := s
            reader := w.reader.wake woken
            received := w.received ++ bytes }
  | .close =>
      if w.reader.isWoken then none
      else some { w with
        socket := (closeMessage w.socket).1
        reader := w.reader.wake (closeMessage w.socket).2 }
  | .error =>
      if w.reader.isWoken then none
      else some { w with
        socket := (errorMessage w.socket).1
        reader := w.reader.wake (errorMessage w.socket).2 }
  | .resume =>
      match w.reader with
      | .woken c =>
          match resume w.socket c with
          | none => some { w with reader := .crashed }
          | some (a, s) => some { w with
              socket := s
              reader := .idle
              answered := w.answered ++ [(c, a)] }
      | _ => none

/-! ## What a call gets -/

def taken : ReadCall × Answer → Bytes
  | (.readline sep, .bytes b) => b ++ sep
  | (_, .bytes b) => b
  | (_, .failed rest) => rest
  | (_, _) => []

def consumed (answered : List (ReadCall × Answer)) : Bytes := answered.flatMap taken

/-- The answer to a call, on a connection that is open or not.  `readSize 0` fails when it has
waited. -/
def Proper (connected : Bool) : ReadCall → Answer → Prop
  | .read, .bytes b => b ≠ []
  | .readSize sz, .bytes b => b.length = sz
  | .readline sep, .bytes b => cutAt sep.1 (b ++ sep.1) = some (b, [])
  | .readall, .bytes _ => connected = false
  | .readSize sz, .failed _ => connected = false ∨ sz = 0
  | .read, .failed _ | .readline _, .failed _ | .readall, .failed _ => connected = false
  | .block, .flag b => b = true ∨ connected = false
  | _, _ => False

/-- There is not yet what the call is waiting for. -/
def Lacks (contents : Bytes) : ReadCall → Prop
  | .read => contents = []
  | .readSize sz => contents.length < sz ∨ sz = 0
  | .readline sep => cutAt sep.1 contents = none
  | .readall | .block => True

def Has (contents : Bytes) : ReadCall → Prop
  | .read => contents ≠ []
  | .readSize sz => sz ≤ contents.length
  | .readline sep => cutAt sep.1 contents ≠ none
  | .readall => False
  | .block => True

def requiredOf : ReadCall → Required
  | .read | .block => .number 0
  | .readSize sz => .number sz
  | .readline sep => .string sep
  | .readall => .boolean

structure Inv (w : World) : Prop where
  buffer : w.socket.buffer.Ok
  received : w.received = consumed w.answered ++ w.socket.buffer.contents
  proper : ∀ p ∈ w.answered, Proper w.socket.connected p.1 p.2
  idle : w.reader = .idle →
    w.socket.co = false ∧ (w.socket.connected = true → w.socket.readRequired = none)
  waiting : ∀ c, w.reader = .waiting c → w.socket.co = true ∧ w.socket.connected = true ∧
    w.socket.readRequired = some (requiredOf c) ∧ Lacks w.socket.buffer.contents c
  woken : ∀ c, w.reader = .woken c → w.socket.co = false ∧
    (w.socket.connected = true →
      w.socket.readRequired = none ∧ Has w.socket.buffer.contents c) ∧
    (w.socket.connected = false → Lacks w.socket.buffer.contents c)
  notCrashed : w.reader ≠ .crashed

/-! ## One call -/

/-- The socket `s'` after the answer `a` to the call `c` on `s`. -/
structure Answered (s : Socket) (c : ReadCall) (a : Answer) (s' : Socket) : Prop where
  buffer : s'.buffer.Ok
  connected : s'.connected = s.connected
  readRequired : s'.readRequired = s.readRequired
  co : s'.co = s.co
  contents : s.buffer.contents = taken (c, a) ++ s'.buffer.contents
  proper : Proper s.connected c a
  lacks : s.connected = false → ∀ rest, a = .failed rest → Lacks s.buffer.contents c

section Calls
variable {s : Socket} (hok : s.buffer.Ok)

include hok in
theorem answered_failed {c : ReadCall} (htaken : ∀ rest, taken (c, .failed rest) = rest)
    (hproper : Proper s.connected c (.failed s.buffer.readall.1))
    (hlacks : s.connected = false → Lacks s.buffer.contents c) :
    Answered s c (.failed s.buffer.readall.1) { s with buffer := s.buffer.readall.2 } := by
  obtain ⟨hall, hempty⟩ := readall_spec hok
  refine ⟨?_, rfl, rfl, rfl, ?_, hproper, fun hclosed _ _ => hlacks hclosed⟩
  · rw [hempty]
    exact SocketBuffer.ok_empty
  · rw [htaken, hall, hempty]
    exact (List.append_nil _).symm

include hok in
theorem answered_bytes_all {c : ReadCall} (htaken : ∀ b, taken (c, .bytes b) = b)
    (hproper : Proper s.connected c (.bytes s.buffer.readall.1)) :
    Answered s c (.bytes s.buffer.readall.1) { s with buffer := s.buffer.readall.2 } := by
  obtain ⟨hall, hempty⟩ := readall_spec hok
  refine ⟨?_, rfl, rfl, rfl, ?_, hproper, fun _ _ hfailed => by cases hfailed⟩
  · rw [hempty]
    exact SocketBuffer.ok_empty
  · rw [htaken, hall, hempty]
    exact (List.append_nil _).symm

include hok in
theorem answered_pop {sz : ℕ} {ret : Bytes} {buffer : SocketBuffer}
    (h : s.buffer.pop sz = some (some ret, buffer)) :
    Answered s (.readSize sz) (.bytes ret) { s with buffer := buffer } := by
  obtain ⟨answer, sb, hpop, hok', hcases⟩ := pop_spec hok sz
  rw [hpop] at h
  cases h
  obtain ⟨-, hnone, -⟩ | ⟨-, hle, hret, hcontents⟩ := hcases
  · cases hnone
  · cases hret
    refine ⟨hok', rfl, rfl, rfl, ?_, ?_, fun _ _ hfailed => by cases hfailed⟩
    · change s.buffer.contents = s.buffer.contents.take sz ++ buffer.contents
      rw [hcontents, List.take_append_drop]
    · rw [Proper, List.length_take]
      omega

include hok in
theorem answered_line {sep : Separator} {ret : Bytes} {buffer : SocketBuffer}
    (h : s.buffer.readline sep.1 = some (some ret, buffer)) :
    Answered s (.readline sep) (.bytes ret) { s with buffer := buffer } := by
  obtain ⟨answer, sb, hline, hok', hcases⟩ := readline_spec hok sep.2
  rw [hline] at h
  cases h
  obtain ⟨-, hnone, -⟩ | ⟨line, rest, hcut, hret, hcontents⟩ := hcases
  · cases hnone
  · cases hret
    refine ⟨hok', rfl, rfl, rfl, ?_, cutAt_self hcut, fun _ _ hfailed => by cases hfailed⟩
    rw [taken, hcontents, cutAt_sound hcut, List.append_assoc]

/-- A call is answered, or suspended because what it asks for is not there. -/
inductive Called (s : Socket) (c : ReadCall) : Outcome → Socket → Prop
  | answer {a : Answer} {s' : Socket} : Answered s c a s' → Called s c (.answer a) s'
  | suspended {s' : Socket} : s'.buffer.Ok → s.connected = true → s'.connected = true →
      s'.co = true → s'.readRequired = some (requiredOf c) →
      s'.buffer.contents = s.buffer.contents → Lacks s.buffer.contents c →
      Called s c .suspended s'

theorem called_suspend {c : ReadCall} {buffer : SocketBuffer} (hbuffer : buffer.Ok)
    (hconnected : s.connected = true) (hco : s.co = false) (hrequired : s.readRequired = none)
    (hcontents : buffer.contents = s.buffer.contents) (hlacks : Lacks s.buffer.contents c) :
    Called s c (suspend { s with buffer := buffer } (requiredOf c)).1
      (suspend { s with buffer := buffer } (requiredOf c)).2 := by
  have hfree : (s.readRequired.isSome || s.co) = false := by simp [hrequired, hco]
  simp only [suspend, hfree, Bool.false_eq_true, if_false]
  exact .suspended hbuffer hconnected hconnected rfl rfl hcontents hlacks

include hok in
theorem call_spec (c : ReadCall) (hco : s.co = false)
    (hrequired : s.connected = true → s.readRequired = none) :
    ∃ out s', call s c = some (out, s') ∧ Called s c out s' := by
  obtain ⟨hall, hempty⟩ := readall_spec hok
  cases c with
  | read =>
      rw [call]
      split_ifs with hbytes hclosed
      · exact ⟨_, _, rfl, .answer (answered_bytes_all hok (fun _ => rfl) hbytes)⟩
      · have hfalse : s.connected = false := by simpa using hclosed
        have hnil : s.buffer.contents = [] := by simpa [hall] using hbytes
        exact ⟨_, _, rfl, .answer (answered_failed hok (fun _ => rfl) hfalse fun _ => hnil)⟩
      · have hopen : s.connected = true := by simpa using hclosed
        have hnil : s.buffer.contents = [] := by simpa [hall] using hbytes
        refine ⟨_, _, rfl, called_suspend ?_ hopen hco (hrequired hopen) ?_ hnil⟩
        · rw [hempty]
          exact SocketBuffer.ok_empty
        · rw [hempty, hnil]
          rfl
  | readSize sz =>
      obtain ⟨answer, buffer, hpop, hok', hcases⟩ := pop_spec hok sz
      rw [call, hpop, Option.map_some]
      obtain ⟨hfew, rfl, rfl⟩ | ⟨-, -, rfl, -⟩ := hcases
      · dsimp only
        split_ifs with hclosed
        · have hfalse : s.connected = false := by simpa using hclosed
          exact ⟨_, _, rfl, .answer (answered_failed hok (fun _ => rfl) (.inl hfalse)
            fun _ => hfew)⟩
        · have hopen : s.connected = true := by simpa using hclosed
          exact ⟨_, _, rfl, called_suspend hok hopen hco (hrequired hopen) rfl hfew⟩
      · exact ⟨_, _, rfl, .answer (answered_pop hok hpop)⟩
  | readline sep =>
      obtain ⟨answer, buffer, hline, hok', hcases⟩ := readline_spec hok sep.2
      rw [call, hline, Option.map_some]
      obtain ⟨hcut, rfl, rfl⟩ | ⟨line, rest, -, rfl, -⟩ := hcases
      · dsimp only
        split_ifs with hclosed
        · have hfalse : s.connected = false := by simpa using hclosed
          exact ⟨_, _, rfl, .answer (answered_failed hok (fun _ => rfl) hfalse fun _ => hcut)⟩
        · have hopen : s.connected = true := by simpa using hclosed
          exact ⟨_, _, rfl, called_suspend hok hopen hco (hrequired hopen) rfl hcut⟩
      · exact ⟨_, _, rfl, .answer (answered_line hok hline)⟩
  | readall =>
      rw [call]
      split_ifs with hclosed hbytes
      · have hfalse : s.connected = false := by simpa using hclosed
        exact ⟨_, _, rfl, .answer (answered_bytes_all hok (fun _ => rfl) hfalse)⟩
      · have hfalse : s.connected = false := by simpa using hclosed
        exact ⟨_, _, rfl, .answer (answered_failed hok (fun _ => rfl) hfalse fun _ => trivial)⟩
      · have hopen : s.connected = true := by simpa using hclosed
        exact ⟨_, _, rfl, called_suspend hok hopen hco (hrequired hopen) rfl trivial⟩
  | block =>
      rw [call]
      split_ifs with hclosed
      · have hfalse : s.connected = false := by simpa using hclosed
        exact ⟨_, _, rfl, .answer ⟨hok, rfl, rfl, rfl, rfl, .inr hfalse,
          fun _ _ hfailed => by cases hfailed⟩⟩
      · have hopen : s.connected = true := by simpa using hclosed
        exact ⟨_, _, rfl, called_suspend hok hopen hco (hrequired hopen) rfl trivial⟩

include hok in
/-- A call that was woken gets what it was woken for, or the connection is over. -/
theorem resume_spec (c : ReadCall) (hhas : s.connected = true → Has s.buffer.contents c)
    (hlacks : s.connected = false → Lacks s.buffer.contents c) :
    ∃ a s', resume s c = some (a, s') ∧ Answered s c a s' := by
  obtain ⟨hall, hempty⟩ := readall_spec hok
  have hclosed : ∀ {p : Prop}, (s.connected = true → ¬ p) → p → s.connected = false := by
    intro p hnot hp
    cases hconnected : s.connected with
    | false => rfl
    | true => exact absurd hp (hnot hconnected)
  cases c with
  | read =>
      rw [resume]
      split_ifs with hbytes
      · exact ⟨_, _, rfl, answered_bytes_all hok (fun _ => rfl) hbytes⟩
      · refine ⟨_, _, rfl, answered_failed hok (fun _ => rfl)
          (hclosed (fun h => ?_) hbytes) hlacks⟩
        rw [hall]
        exact not_not.mpr (hhas h)
  | readSize sz =>
      obtain ⟨answer, buffer, hpop, hok', hcases⟩ := pop_spec hok sz
      rw [resume, hpop, Option.map_some]
      obtain ⟨hfew, rfl, rfl⟩ | ⟨-, -, rfl, -⟩ := hcases
      · refine ⟨_, _, rfl, answered_failed hok (fun _ => rfl) ?_ hlacks⟩
        cases hconnected : s.connected with
        | false => exact .inl rfl
        | true =>
            have hle : sz ≤ s.buffer.contents.length := hhas hconnected
            exact .inr (by omega)
      · exact ⟨_, _, rfl, answered_pop hok hpop⟩
  | readline sep =>
      rw [resume]
      split_ifs with hconnected
      · obtain ⟨answer, buffer, hline, hok', hcases⟩ := readline_spec hok sep.2
        rw [hline, Option.map_some]
        obtain ⟨hcut, -, -⟩ | ⟨line, rest, -, rfl, -⟩ := hcases
        · exact absurd hcut (hhas hconnected)
        · exact ⟨_, _, rfl, answered_line hok hline⟩
      · have hfalse : s.connected = false := by simpa using hconnected
        exact ⟨_, _, rfl, answered_failed hok (fun _ => rfl) hfalse hlacks⟩
  | readall =>
      rw [resume]
      split_ifs with hconnected
      · exact absurd (hhas hconnected) id
      · have hfalse : s.connected = false := by simpa using hconnected
        exact ⟨_, _, rfl, answered_bytes_all hok (fun _ => rfl) hfalse⟩
  | block =>
      rw [resume]
      refine ⟨_, _, rfl, hok, rfl, rfl, rfl, rfl, ?_, fun _ _ hfailed => by cases hfailed⟩
      cases s.connected with
      | false => exact .inr rfl
      | true => exact .inl rfl

end Calls

/-! ## Runs -/

theorem proper_of_closed {connected connected' : Bool} {c : ReadCall} {a : Answer}
    (h : Proper connected c a) (hle : connected' = true → connected = true) :
    Proper connected' c a := by
  have hclosed : connected = false → connected' = false := by
    intro hfalse
    cases hc : connected' with
    | false => rfl
    | true => rw [hle hc] at hfalse; cases hfalse
  cases c with
  | read =>
      cases a with
      | bytes b => exact h
      | failed rest => exact hclosed h
      | _ => exact h
  | readSize sz =>
      cases a with
      | bytes b => exact h
      | failed rest => exact h.imp_left hclosed
      | _ => exact h
  | readline sep =>
      cases a with
      | bytes b => exact h
      | failed rest => exact hclosed h
      | _ => exact h
  | readall =>
      cases a with
      | bytes b => exact hclosed h
      | failed rest => exact hclosed h
      | _ => exact h
  | block =>
      cases a with
      | flag b => exact h.imp_right hclosed
      | _ => exact h

theorem consumed_concat (answered : List (ReadCall × Answer)) (p : ReadCall × Answer) :
    consumed (answered ++ [p]) = consumed answered ++ taken p := by
  simp [consumed]

theorem inv_start : Inv start where
  buffer := SocketBuffer.ok_empty
  received := rfl
  proper := fun _ hp => by cases hp
  idle := fun _ => ⟨rfl, fun _ => rfl⟩
  waiting := fun _ h => by cases h
  woken := fun _ h => by cases h
  notCrashed := fun h => by cases h

theorem inv_answered {w : World} (h : Inv w) {c : ReadCall} {a : Answer} {s : Socket}
    (hanswered : Answered w.socket c a s) (hco : w.socket.co = false)
    (hrequired : w.socket.connected = true → w.socket.readRequired = none) :
    Inv { w with socket := s, reader := .idle, answered := w.answered ++ [(c, a)] } where
  buffer := hanswered.buffer
  received := by
    rw [consumed_concat, List.append_assoc, ← hanswered.contents]
    exact h.received
  proper := by
    intro p hp
    have hkept : s.connected = true → w.socket.connected = true := by
      rw [hanswered.connected]
      exact id
    rcases List.mem_append.mp hp with hold | hnew
    · exact proper_of_closed (h.proper p hold) hkept
    · rw [List.mem_singleton.mp hnew]
      exact proper_of_closed hanswered.proper hkept
  idle := by
    intro _
    rw [hanswered.co, hanswered.connected, hanswered.readRequired]
    exact ⟨hco, hrequired⟩
  waiting := fun _ hw => by cases hw
  woken := fun _ hw => by cases hw
  notCrashed := fun hw => by cases hw

/-- What `socket_message[1]` does to a socket that nobody waits for. -/
theorem dataMessage_free {s : Socket} (hrequired : s.readRequired = none) (data : Bytes) :
    dataMessage s data = some ({ s with buffer := (s.buffer.push data).1 }, false) := by
  rw [dataMessage, hrequired]

/-- The reader that waits is woken when, and only when, there is what it waits for. -/
theorem dataMessage_spec {s : Socket} (hok : s.buffer.Ok) {data : Bytes} (hdata : data ≠ [])
    {c : ReadCall} (hrequired : s.readRequired = some (requiredOf c)) :
    dataMessage s data = some ({ s with buffer := (s.buffer.push data).1 }, false) ∧
        Lacks (s.buffer.contents ++ data) c ∨
      dataMessage s data = some (wakeup { s with
        buffer := (s.buffer.push data).1, readRequired := none }) ∧
        Has (s.buffer.contents ++ data) c := by
  have hsize := SocketBuffer.size_push s.buffer hok data
  have hcontents := SocketBuffer.contents_push s.buffer hok data
  have hok' := SocketBuffer.ok_push hok hdata
  cases c with
  | read =>
      refine .inr ⟨?_, by simp [Has, hdata]⟩
      rw [dataMessage, hrequired]
      exact if_pos (Nat.zero_le _)
  | block =>
      refine .inr ⟨?_, trivial⟩
      rw [dataMessage, hrequired]
      exact if_pos (Nat.zero_le _)
  | readall =>
      refine .inl ⟨?_, trivial⟩
      rw [dataMessage, hrequired]
      rfl
  | readSize sz =>
      rw [dataMessage, hrequired]
      by_cases hle : (s.buffer.push data).2 ≥ sz
      · exact .inr ⟨if_pos hle, by rw [Has, ← hsize]; exact hle⟩
      · exact .inl ⟨if_neg hle, .inl (by rw [← hsize]; omega)⟩
  | readline sep =>
      have hcheck : (s.buffer.push data).1.checkLine sep.1 =
          some (cutAt sep.1 (s.buffer.contents ++ data)).isSome := by
        rw [SocketBuffer.checkLine, SocketBuffer.searchSep_spec hok' sep.2, hcontents,
          Option.map_some, Option.isSome_map]
      rw [dataMessage, hrequired]
      simp only [requiredOf, hcheck, Option.map_some]
      cases hcut : cutAt sep.1 (s.buffer.contents ++ data) with
      | none => exact .inl ⟨rfl, hcut⟩
      | some cut => exact .inr ⟨rfl, by rw [Has, hcut]; exact Option.some_ne_none cut⟩

theorem inv_call {w w' : World} {c : ReadCall} (h : Inv w) (hstep : step w (.call c) = some w') :
    Inv w' := by
  unfold step at hstep
  cases hreader : w.reader with
  | idle =>
      obtain ⟨hco, hrequired⟩ := h.idle hreader
      obtain ⟨out, s, hcall, hcalled⟩ := call_spec h.buffer c hco hrequired
      simp only [hreader, hcall] at hstep
      cases hcalled with
      | answer hanswered =>
          cases hstep
          simpa only [hreader] using inv_answered h hanswered hco hrequired
      | suspended hbuffer hopen hopen' hco' hrequired' hcontents hlacks =>
          cases hstep
          refine ⟨hbuffer, ?_, fun p hp => ?_, fun hw => (by cases hw), fun c' hc' => ?_,
            fun c' hc' => (by cases hc'), fun hw => by cases hw⟩
          · simp only [hcontents]
            exact h.received
          · exact proper_of_closed (h.proper p hp) fun _ => hopen
          · cases hc'
            simp only [hcontents]
            exact ⟨hco', hopen', hrequired', hlacks⟩
  | _ => simp only [hreader] at hstep; cases hstep

theorem inv_data {w w' : World} {bytes : Bytes} (h : Inv w)
    (hstep : step w (.data bytes) = some w') : Inv w' := by
  unfold step at hstep
  simp only at hstep
  split at hstep
  · cases hstep
  · rename_i hguard
    simp only [Bool.or_eq_true, not_or, Bool.not_eq_true, Bool.not_eq_false',
      List.isEmpty_eq_false_iff] at hguard
    obtain ⟨⟨hawake, hbytes⟩, hopen⟩ := hguard
    have hcontents := SocketBuffer.contents_push w.socket.buffer h.buffer bytes
    have hok := SocketBuffer.ok_push h.buffer hbytes
    have hreceived : w.received ++ bytes = consumed w.answered ++
        (w.socket.buffer.push bytes).1.contents := by
      rw [hcontents, h.received, List.append_assoc]
    cases hreader : w.reader with
    | idle =>
        obtain ⟨hco, hrequired⟩ := h.idle hreader
        rw [dataMessage_free (hrequired hopen)] at hstep
        cases hstep
        exact ⟨hok, hreceived, h.proper, fun _ => ⟨hco, hrequired⟩,
          fun c hc => by simp [hreader, Pc.wake] at hc,
          fun c hc => by simp [hreader, Pc.wake] at hc,
          fun hw => by simp [hreader, Pc.wake] at hw⟩
    | waiting c =>
        obtain ⟨hco, -, hrequired, -⟩ := h.waiting c hreader
        rcases dataMessage_spec h.buffer hbytes hrequired with ⟨hdata, hlacks⟩ | ⟨hdata, hhas⟩
        · rw [hdata] at hstep
          cases hstep
          refine ⟨hok, hreceived, h.proper, fun hw => by simp [hreader, Pc.wake] at hw,
            fun c' hc' => ?_, fun c' hc' => by simp [hreader, Pc.wake] at hc',
            fun hw => by simp [hreader, Pc.wake] at hw⟩
          have hsame : c = c' := by simpa [hreader, Pc.wake] using hc'
          subst hsame
          exact ⟨hco, hopen, hrequired, by rw [hcontents]; exact hlacks⟩
        · rw [hdata] at hstep
          simp only [wakeup, hco] at hstep
          cases hstep
          refine ⟨hok, hreceived, h.proper, fun hw => by simp [hreader, Pc.wake] at hw,
            fun c' hc' => by simp [hreader, Pc.wake] at hc', fun c' hc' => ?_,
            fun hw => by simp [hreader, Pc.wake] at hw⟩
          have hsame : c = c' := by simpa [hreader, Pc.wake] using hc'
          subst hsame
          exact ⟨rfl, fun _ => ⟨rfl, by rw [hcontents]; exact hhas⟩, fun hclosed => by
            rw [hopen] at hclosed
            cases hclosed⟩
    | woken c => rw [hreader] at hawake; cases hawake
    | crashed => exact absurd hreader h.notCrashed

/-- The end of the connection wakes the reader, whatever it waits for. -/
theorem inv_over {w : World} (h : Inv w) (hawake : w.reader.isWoken = false) :
    Inv { w with
      socket := (wakeup { w.socket with connected := false }).1
      reader := w.reader.wake (wakeup { w.socket with connected := false }).2 } := by
  have hproper : ∀ p ∈ w.answered, Proper false p.1 p.2 := fun p hp =>
    proper_of_closed (h.proper p hp) fun hfalse => by cases hfalse
  cases hreader : w.reader with
  | idle =>
      obtain ⟨hco, -⟩ := h.idle hreader
      exact ⟨h.buffer, h.received, hproper, fun _ => ⟨rfl, fun hfalse => (by cases hfalse)⟩,
        fun c hc => (by simp [Pc.wake] at hc), fun c hc => by simp [Pc.wake] at hc,
        fun hw => by simp [Pc.wake] at hw⟩
  | waiting c =>
      obtain ⟨hco, -, -, hlacks⟩ := h.waiting c hreader
      have hwake : (Pc.waiting c).wake (wakeup { w.socket with connected := false }).2 =
          .woken c := by
        simp only [wakeup, hco, Pc.wake]
      rw [hwake]
      exact ⟨h.buffer, h.received, hproper, fun hw => (by cases hw), fun c' hc' => (by cases hc'),
        fun c' hc' => ⟨rfl, fun hfalse => (by cases hfalse), fun _ => (by
          cases hc'
          exact hlacks)⟩, fun hw => by cases hw⟩
  | woken c => rw [hreader] at hawake; cases hawake
  | crashed => exact absurd hreader h.notCrashed

theorem inv_resume {w w' : World} (h : Inv w) (hstep : step w .resume = some w') : Inv w' := by
  unfold step at hstep
  cases hreader : w.reader with
  | woken c =>
      obtain ⟨hco, hwoken, hover⟩ := h.woken c hreader
      obtain ⟨a, s, hresume, hanswered⟩ :=
        resume_spec h.buffer c (fun hopen => (hwoken hopen).2) hover
      simp only [hreader, hresume] at hstep
      cases hstep
      exact inv_answered h hanswered hco fun hopen => (hwoken hopen).1
  | _ => simp only [hreader] at hstep; cases hstep

theorem inv_step {w w' : World} {e : Event} (h : Inv w) (hstep : step w e = some w') : Inv w' := by
  cases e with
  | call c => exact inv_call h hstep
  | data bytes => exact inv_data h hstep
  | close =>
      simp only [step] at hstep
      split at hstep
      · cases hstep
      · rename_i hawake
        cases hstep
        exact inv_over h (by simpa using hawake)
  | error =>
      simp only [step] at hstep
      split at hstep
      · cases hstep
      · rename_i hawake
        cases hstep
        exact inv_over h (by simpa using hawake)
  | resume => exact inv_resume h hstep

/-- In every run, however the bytes come in: what the reader has been given, with the separators of
its lines, and what is in the buffer is what was received; every call got what it asked for, unless
the connection is over; and a reader waits only for what is not there, on an open connection. -/
theorem read_in_order (events : List Event) (w : World) (hrun : run step start events = some w) :
    w.received = consumed w.answered ++ w.socket.buffer.contents ∧
      (∀ p ∈ w.answered, Proper w.socket.connected p.1 p.2) ∧
      (∀ c, w.reader = .waiting c →
        w.socket.connected = true ∧ Lacks w.socket.buffer.contents c) ∧
      w.reader ≠ .crashed := by
  have h := run_invariant step (fun _ _ => True) Inv (fun _ _ _ h _ hstep => inv_step h hstep)
    events start w inv_start (along_true step events start) hrun
  refine ⟨h.received, h.proper, fun c hc => ?_, h.notCrashed⟩
  obtain ⟨-, hopen, -, hlacks⟩ := h.waiting c hc
  exact ⟨hopen, hlacks⟩

/-- A separator that comes in two pieces, and a number of bytes that never comes. -/
theorem read_in_order_split : ∃ w,
    run step start [.call (.readline ⟨[13, 10], by decide⟩), .data [36, 50, 13], .data [10, 104],
      .resume, .call (.readSize 4), .data [105], .close, .resume] = some w ∧
    w.received = consumed w.answered ++ w.socket.buffer.contents ∧
      (∀ p ∈ w.answered, Proper w.socket.connected p.1 p.2) ∧
      (∀ c, w.reader = .waiting c →
        w.socket.connected = true ∧ Lacks w.socket.buffer.contents c) ∧
      w.reader ≠ .crashed := by
  obtain ⟨w, hrun⟩ := Option.isSome_iff_exists.mp (show (run step start
    [.call (.readline ⟨[13, 10], by decide⟩), .data [36, 50, 13], .data [10, 104], .resume,
      .call (.readSize 4), .data [105], .close, .resume]).isSome = true from rfl)
  exact ⟨w, hrun, read_in_order _ w hrun⟩

end Doudizhu.Skynet.SocketReads
