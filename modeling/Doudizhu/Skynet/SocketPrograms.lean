import Doudizhu.Lib.Coroutine
import Doudizhu.Skynet.SocketReads

/-! # Programs that read a socket

A program is a coroutine whose calls are `readline` and `read`.  `stream` is what it does on all
the bytes at once; `runOn` runs it on a socket until it has to wait.  The two agree, so what a
program returns does not depend on how the bytes come in.

A program raises by returning an error; `Coroutine.raise` and the other calls are not used. -/

set_option autoImplicit false

namespace Doudizhu.Skynet

open Network (Bytes)
open SocketReads (ReadCall Answer Separator Socket Outcome Called Answered Lacks taken)
open Reader (Reads Extends)

/-- The object `socket_error`, or an error of Lua. -/
inductive ReadError where
  | socket
  | assertion
  | call
  | compare
  | overflow
  deriving DecidableEq

abbrev Reading (A : Type) : Type := Coroutine Unit ReadCall Answer (Except ReadError A)

namespace Reading
variable {A B : Type}

def ret (a : A) : Reading A := .done (.ok a)

def error (e : ReadError) : Reading A := .done (.error e)

def andThen (p : Reading A) (f : A → Reading B) : Reading B :=
  Coroutine.bind p fun result =>
    match result with
    | .ok a => f a
    | .error e => error e

/-- What `wrapper_socket_function` makes of a result. -/
def wrapper : Answer → Reading Bytes
  | .bytes b => ret b
  | .raised => error .assertion
  | _ => error .socket

def fdRead (sz : ℕ) : Reading Bytes := .call (.readSize sz) wrapper

def fdReadline (sep : Separator) : Reading Bytes := .call (.readline sep) wrapper

end Reading

section Stream
variable {A B : Type}

/-- What a program reads off a stream, if it does not run out of it. -/
def stream : Coroutine Unit ReadCall Answer A → Reader UInt8 Unit A
  | .done a => .pure a
  | .raise => .fail fun _ => ()
  | .read k => stream (k ())
  | .call (.readline sep) k => (Reader.line sep.1 fun _ => ()).bind fun b => stream (k (.bytes b))
  | .call (.readSize sz) k =>
      if sz = 0 then .fail fun _ => ()
      else (Reader.take sz fun _ => ()).bind fun b => stream (k (.bytes b))
  | .call _ _ => .fail fun _ => ()

theorem reader_bind_assoc {E A B C : Type} (f : Reader UInt8 E A) (g : A → Reader UInt8 E B)
    (h : B → Reader UInt8 E C) : (f.bind g).bind h = f.bind fun a => (g a).bind h := by
  funext s
  unfold Reader.bind
  cases f s with
  | error e => rfl
  | ok result => rfl

theorem stream_bind (p : Coroutine Unit ReadCall Answer A)
    (f : A → Coroutine Unit ReadCall Answer B) :
    stream (p.bind f) = (stream p).bind fun a => stream (f a) := by
  induction p with
  | done a => rfl
  | raise => rfl
  | read k ih => exact ih ()
  | call c k ih =>
      cases c with
      | readline sep =>
          simp only [Coroutine.bind, stream, ih, reader_bind_assoc]
      | readSize sz =>
          simp only [Coroutine.bind, stream, ih]
          split_ifs with hzero
          · rfl
          · rw [reader_bind_assoc]
      | _ => rfl

theorem reads_andThen {p : Reading A} {f : A → Reading B} {a : A} {b : Except ReadError B}
    {enc enc' : Bytes} (hp : Reads (stream p) (.ok a) enc) (hf : Reads (stream (f a)) b enc') :
    Reads (stream (p.andThen f)) b (enc ++ enc') := by
  rw [Reading.andThen, stream_bind]
  exact hp.bind hf

theorem extends_stream (p : Coroutine Unit ReadCall Answer A) : Extends (stream p) (stream p) := by
  induction p with
  | done a => exact Reader.extends_pure a
  | raise => exact Reader.extends_fail _ _
  | read k ih => exact ih ()
  | call c k ih =>
      cases c with
      | readline sep => exact (Reader.extends_line sep.1 _ _).bind fun b => ih (.bytes b)
      | readSize sz =>
          rw [stream]
          split_ifs
          · exact Reader.extends_fail _ _
          · exact (Reader.extends_take sz _).bind fun b => ih (.bytes b)
      | _ => exact Reader.extends_fail _ _

end Stream

/-! ## A program on a socket -/

section Runs
variable {A B : Type}

inductive Stop (A : Type) where
  | finished (a : Except ReadError A)
  | raised
  | blocked (c : ReadCall) (k : Answer → Reading A)
  | crashed

def runOn : Reading A → Socket → Stop A × Socket
  | .done a, s => (.finished a, s)
  | .raise, s => (.raised, s)
  | .read k, s => runOn (k ()) s
  | .call c k, s =>
      match SocketReads.call s c with
      | none => (.crashed, s)
      | some (.answer a, s') => runOn (k a) s'
      | some (.suspended, s') => (.blocked c k, s')

def resumeOn (c : ReadCall) (k : Answer → Reading A) (s : Socket) : Stop A × Socket :=
  match SocketReads.resume s c with
  | none => (.crashed, s)
  | some (a, s') => runOn (k a) s'

/-- The calls of the program are those of `channel_socket`: it goes on with a string, and when the
socket has failed it raises `socket_error`. -/
def Wrapped : Reading A → Prop
  | .done _ => True
  | .raise => False
  | .read k => Wrapped (k ())
  | .call (.readline _) k => (∀ b, Wrapped (k (.bytes b))) ∧
      ∀ rest, k (.failed rest) = Reading.error .socket
  | .call (.readSize sz) k => 0 < sz ∧ (∀ b, Wrapped (k (.bytes b))) ∧
      ∀ rest, k (.failed rest) = Reading.error .socket
  | .call _ _ => False

theorem wrapped_fdRead {sz : ℕ} (h : 0 < sz) : Wrapped (Reading.fdRead sz) :=
  ⟨h, fun _ => trivial, fun _ => rfl⟩

theorem wrapped_fdReadline (sep : Separator) : Wrapped (Reading.fdReadline sep) :=
  ⟨fun _ => trivial, fun _ => rfl⟩

theorem wrapped_andThen {p : Reading A} {f : A → Reading B} (hp : Wrapped p)
    (hf : ∀ a, Wrapped (f a)) : Wrapped (p.andThen f) := by
  have hraises : ∀ {q : Reading A}, q = Reading.error .socket →
      q.andThen f = Reading.error .socket := by
    intro q hq
    rw [hq]
    rfl
  induction p with
  | done result =>
      cases result with
      | ok a => exact hf a
      | error e => trivial
  | raise => exact absurd hp id
  | read k ih => exact ih () hp
  | call c k ih =>
      cases c with
      | readline sep => exact ⟨fun b => ih _ (hp.1 b), fun rest => hraises (hp.2 rest)⟩
      | readSize sz =>
          exact ⟨hp.1, fun b => ih _ (hp.2.1 b), fun rest => hraises (hp.2.2 rest)⟩
      | _ => exact absurd hp id

structure Free (s : Socket) : Prop where
  buffer : s.buffer.Ok
  co : s.co = false
  readRequired : s.connected = true → s.readRequired = none

structure WaitsFor (s : Socket) (c : ReadCall) : Prop where
  buffer : s.buffer.Ok
  connected : s.connected = true
  co : s.co = true
  readRequired : s.readRequired = some (SocketReads.requiredOf c)
  lacks : Lacks s.buffer.contents c

/-- How a run on a free socket with `contents` ends: with the value that the stream gives; at a
call from which the stream goes on as it would have from the start; or with `socket_error`, on a
connection that is over before the stream has a value. -/
inductive Stopped (p : Reading A) (contents : Bytes) : Stop A → Socket → Prop
  | finished {a : Except ReadError A} {s' : Socket} : Free s' →
      stream p contents = .ok (a, s'.buffer.contents) → Stopped p contents (.finished a) s'
  | blocked {c : ReadCall} {k : Answer → Reading A} {s' : Socket} :
      WaitsFor s' c → Wrapped (.call c k) →
      (∀ u, stream p (contents ++ u) = stream (.call c k) (s'.buffer.contents ++ u)) →
      Stopped p contents (.blocked c k) s'
  | closed {s' : Socket} : Free s' → s'.connected = false → stream p contents = .error () →
      Stopped p contents (.finished (.error .socket)) s'

theorem free_of_answered {s s' : Socket} {c : ReadCall} {a : Answer} (h : Free s)
    (hanswered : Answered s c a s') : Free s' := by
  refine ⟨hanswered.buffer, hanswered.co.trans h.co, fun hopen => ?_⟩
  rw [hanswered.connected] at hopen
  exact hanswered.readRequired.trans (h.readRequired hopen)

/-- A call that has to wait is one that the stream does not get past. -/
theorem stream_of_lacks {c : ReadCall} {k : Answer → Reading A} {contents : Bytes}
    (hwrapped : Wrapped (.call c k)) (h : Lacks contents c) :
    stream (.call c k) contents = .error () := by
  cases c with
  | readline sep =>
      have hcut : Reader.cutAt sep.1 contents = none := h
      rw [stream]
      simp only [Reader.bind, Reader.line, hcut]
  | readSize sz =>
      have hpos : 0 < sz := hwrapped.1
      have hfew : contents.length < sz := h.resolve_right (by omega)
      rw [stream, if_neg (Nat.ne_of_gt hpos)]
      simp only [Reader.bind, Reader.take, if_pos hfew]
  | _ => exact absurd hwrapped id

/-- A call that is answered with a string gives what the stream gives; with anything else the
program is at its end. -/
theorem stream_of_answered {s s' : Socket} {c : ReadCall} {a : Answer} {k : Answer → Reading A}
    (hwrapped : Wrapped (.call c k)) (hanswered : Answered s c a s') :
    (Wrapped (k a) ∧ ∀ u, stream (.call c k) (s.buffer.contents ++ u) =
        stream (k a) (s'.buffer.contents ++ u)) ∨
      s.connected = false ∧ k a = Reading.error .socket ∧
        stream (.call c k) s.buffer.contents = .error () := by
  have hcontents := hanswered.contents
  have hproper := hanswered.proper
  have hlacks := hanswered.lacks
  cases c with
  | readline sep =>
      cases a with
      | bytes b =>
          refine .inl ⟨hwrapped.1 b, fun u => ?_⟩
          have hcut : Reader.cutAt sep.1 (s.buffer.contents ++ u) =
              some (b, s'.buffer.contents ++ u) := by
            have hself := Reader.cutAt_append hproper (s'.buffer.contents ++ u)
            rw [List.nil_append] at hself
            rw [hcontents, taken, List.append_assoc]
            exact hself
          rw [stream]
          simp only [Reader.bind, Reader.line, hcut]
      | failed rest =>
          exact .inr ⟨hproper, hwrapped.2 rest, stream_of_lacks hwrapped (hlacks hproper rest rfl)⟩
      | _ => exact absurd hproper id
  | readSize sz =>
      cases a with
      | bytes b =>
          refine .inl ⟨hwrapped.2.1 b, fun u => ?_⟩
          have hlen : b.length = sz := hproper
          have hsum : s.buffer.contents ++ u = b ++ (s'.buffer.contents ++ u) := by
            rw [hcontents, ← List.append_assoc]
            rfl
          rw [stream, if_neg (Nat.ne_of_gt hwrapped.1), hsum]
          simp only [Reader.bind, Reader.reads_take (fun _ => ()) hlen (s'.buffer.contents ++ u)]
      | failed rest =>
          rcases hproper with hclosed | hzero
          · exact .inr ⟨hclosed, hwrapped.2.2 rest,
              stream_of_lacks hwrapped (hlacks hclosed rest rfl)⟩
          · exact absurd hzero (Nat.ne_of_gt hwrapped.1)
      | _ => exact absurd hproper id
  | _ => exact absurd hwrapped id

theorem Stopped.of_stream {p q : Reading A} {contents contents' : Bytes} {stop : Stop A}
    {s : Socket} (h : Stopped q contents' stop s)
    (heq : ∀ u, stream p (contents ++ u) = stream q (contents' ++ u)) :
    Stopped p contents stop s := by
  have hnil := heq []
  rw [List.append_nil, List.append_nil] at hnil
  cases h with
  | finished hfree hstream => exact .finished hfree (hnil.trans hstream)
  | blocked hwaits honly hstream =>
      exact .blocked hwaits honly fun u => (heq u).trans (hstream u)
  | closed hfree hclosed hstream => exact .closed hfree hclosed (hnil.trans hstream)

/-- What follows an answer, from what the rest of the program does. -/
theorem stopped_of_answered {s s' : Socket} {c : ReadCall} {a : Answer} {k : Answer → Reading A}
    (hwrapped : Wrapped (.call c k)) (h : Free s) (hanswered : Answered s c a s')
    (ih : Wrapped (k a) → Free s' →
      Stopped (k a) s'.buffer.contents (runOn (k a) s').1 (runOn (k a) s').2) :
    Stopped (.call c k) s.buffer.contents (runOn (k a) s').1 (runOn (k a) s').2 := by
  have hfree := free_of_answered h hanswered
  rcases stream_of_answered hwrapped hanswered with
    ⟨hmore, hstream⟩ | ⟨hclosed, hraises, hstream⟩
  · exact (ih hmore hfree).of_stream hstream
  · rw [hraises, Reading.error, runOn]
    exact .closed hfree (hanswered.connected.trans hclosed) hstream

theorem runOn_spec : ∀ (p : Reading A) {s : Socket}, Wrapped p → Free s →
    Stopped p s.buffer.contents (runOn p s).1 (runOn p s).2 := by
  intro p
  induction p with
  | done a => intro s _ h; exact .finished h rfl
  | raise => intro s hwrapped; exact absurd hwrapped id
  | read k ih =>
      intro s hwrapped h
      exact (ih () hwrapped h).of_stream fun u => rfl
  | call c k ih =>
      intro s hwrapped h
      obtain ⟨out, s', hcall, hcalled⟩ := SocketReads.call_spec h.buffer c h.co h.readRequired
      rw [runOn, hcall]
      cases hcalled with
      | answer hanswered => exact stopped_of_answered hwrapped h hanswered (ih _)
      | suspended hbuffer hopen hopen' hco hrequired hcontents hlacks =>
          rw [← hcontents] at hlacks
          refine .blocked ⟨hbuffer, hopen', hco, hrequired, hlacks⟩ hwrapped fun u => ?_
          rw [hcontents]

theorem resumeOn_spec {c : ReadCall} {k : Answer → Reading A} {s : Socket}
    (hwrapped : Wrapped (.call c k)) (h : Free s)
    (hhas : s.connected = true → SocketReads.Has s.buffer.contents c)
    (hlacks : s.connected = false → Lacks s.buffer.contents c) :
    Stopped (.call c k) s.buffer.contents (resumeOn c k s).1 (resumeOn c k s).2 := by
  obtain ⟨a, s', hresume, hanswered⟩ := SocketReads.resume_spec h.buffer c hhas hlacks
  rw [resumeOn, hresume]
  exact stopped_of_answered hwrapped h hanswered (runOn_spec (k a))

end Runs

end Doudizhu.Skynet
