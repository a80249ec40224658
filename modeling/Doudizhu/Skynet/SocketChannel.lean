import Doudizhu.Skynet.SocketPrograms
import Mathlib.Data.List.Nodup
import Mathlib.Logic.Function.Basic

/-! # Channels in order mode

`socketchannel.lua` without a `response` of its own: `request` writes to the socket, queues the
function that will read the response, and waits; the dispatch thread takes one function after the
other off the queue, runs it on the socket and wakes its coroutine.

The model is one connection, from when it is there to its first error; a function is one that
calls nothing but `read` and `readline` of the socket, and gives no `padding`.  Connecting,
`close` and `changehost` are not part of it. -/

set_option autoImplicit false

namespace Doudizhu.Skynet.SocketChannel

open Runs
open Network (Bytes)
open SocketReads (ReadCall Answer Socket)

abbrev Co : Type := ℕ

/-- A response function, with `result_ok` and `result_data`. -/
abbrev Response (V : Type) : Type := { p : Reading (Bool × V) // Wrapped p }

/-- What `__result` and `__result_data` hold for a coroutine. -/
inductive Result (V : Type) where
  | answer (ok : Bool) (data : V)
  | socketError (errmsg : Option ReadError)

/-- Where the dispatch thread is: waiting in `pop_response`, or in a call on the socket for the
coroutine `co`; `woken` and `ready` have been woken there. -/
inductive Pc (V : Type) where
  | waiting
  | woken
  | reading (co : Co) (c : ReadCall) (k : Answer → Reading (Bool × V))
  | ready (co : Co) (c : ReadCall) (k : Answer → Reading (Bool × V))
  | exited

/-- `sock` is whether `__sock` is set.  The last four fields are records of the run. -/
structure Channel (V : Type) where
  sock : Bool
  socket : Socket
  request : List (Response V)
  thread : List Co
  waitResponse : Bool
  dispatch : Pc V
  result : Co → Option (Result V)
  received : Bytes
  asked : List (Co × Response V)
  delivered : List (Co × Result V)
  returned : List (Co × Result V)

section Functions
variable {V : Type}

def start : Channel V :=
  ⟨true, ⟨.empty, true, none, false⟩, [], [], false, .woken, fun _ => none, [], [], [], []⟩

def deliver (c : Channel V) (co : Co) (r : Result V) : Channel V :=
  { c with
    result := Function.update c.result co (some r)
    delivered := c.delivered ++ [(co, r)] }

/-- The branch of `wakeup_all` for order mode. -/
def wakeupAll (c : Channel V) (errmsg : Option ReadError) : Channel V :=
  c.thread.foldl (fun c co => deliver c co (.socketError errmsg))
    { c with request := [], thread := [] }

def errmsgOf (e : ReadError) : Option ReadError := if e = .socket then none else some e

/-- The branch of `dispatch_by_order` for an error, to the end of the thread. -/
def fail (c : Channel V) (co : Co) (e : ReadError) : Channel V :=
  { wakeupAll (deliver { c with sock := false } co (.socketError (errmsgOf e))) (errmsgOf e) with
    dispatch := .exited }

/-- After the function of `co` came to a stop; `next` is the rest of the loop. -/
def advance (next : Channel V → Channel V) (co : Co) (stop : Stop (Bool × V)) (c : Channel V) :
    Channel V :=
  match stop with
  | .finished (.ok result) => next (deliver c co (.answer result.1 result.2))
  | .finished (.error e) => fail c co e
  | .blocked call k => { c with dispatch := .reading co call k }
  | .raised => { c with dispatch := .exited }
  | .crashed => { c with dispatch := .exited }

/-- The loop of `dispatch_by_order`, with the functions that are queued. -/
def dispatchLoop : List (Response V) → Channel V → Channel V
  | [], c => { c with waitResponse := true, dispatch := .waiting }
  | func :: request, c =>
      match c.thread with
      | [] => { wakeupAll c none with dispatch := .exited }
      | co :: thread =>
          let stopped := runOn func.1 c.socket
          advance (dispatchLoop request) co stopped.1
            { c with request := request, thread := thread, socket := stopped.2 }

def pushResponse (c : Channel V) (response : Response V) (co : Co) : Channel V :=
  { c with
    request := c.request ++ [response]
    thread := c.thread ++ [co]
    waitResponse := false
    dispatch := match c.dispatch, c.waitResponse with
      | .waiting, true => .woken
      | pc, _ => pc }

def Pc.wake (pc : Pc V) (woken : Bool) : Pc V :=
  match pc, woken with
  | .reading co call k, true => .ready co call k
  | pc, _ => pc

def Pc.isWoken : Pc V → Bool
  | .woken | .ready _ _ _ => true
  | _ => false

def Pc.co : Pc V → List Co
  | .reading co _ _ | .ready co _ _ => [co]
  | _ => []

end Functions

inductive Event (V : Type) where
  | request (co : Co) (response : Response V)
  | data (bytes : Bytes)
  | close
  | dispatch
  | resume (co : Co)

variable {V : Type}

/-- A coroutine that waits for its response makes no request.  The socket server sends no empty
data and none after it reported the end, and its messages are dispatched when the woken thread has
run. -/
def step (c : Channel V) : Event V → Option (Channel V)
  | .request co response =>
      if !c.sock || c.dispatch.co.contains co || c.thread.contains co || (c.result co).isSome then
        none
      else some { pushResponse c response co with asked := c.asked ++ [(co, response)] }
  | .data bytes =>
      if !c.sock || c.dispatch.isWoken || bytes.isEmpty || !c.socket.connected then none
      else match SocketReads.dataMessage c.socket bytes with
        | none => some { c with dispatch := .exited }
        | some (socket, woken) => some { c with
            socket := socket
            dispatch := c.dispatch.wake woken
            received := c.received ++ bytes }
  | .close =>
      if !c.sock || c.dispatch.isWoken then none
      else some { c with
        socket := (SocketReads.closeMessage c.socket).1
        dispatch := c.dispatch.wake (SocketReads.closeMessage c.socket).2 }
  | .dispatch =>
      match c.dispatch with
      | .woken => some (dispatchLoop c.request c)
      | .ready co call k =>
          let stopped := resumeOn call k c.socket
          some (advance (dispatchLoop c.request) co stopped.1 { c with socket := stopped.2 })
      | _ => none
  | .resume co =>
      match c.result co with
      | none => none
      | some r => some { c with
          result := Function.update c.result co none
          returned := c.returned ++ [(co, r)] }

/-! ## What the functions read -/

/-- The results of functions that read a stream one after the other, all without an error. -/
def answers : List (Reading (Bool × V)) → Reader UInt8 Unit (List (Bool × V))
  | [] => .pure []
  | p :: ps => (stream p).bind fun result =>
      match result with
      | .ok a => (answers ps).bind fun as => .pure (a :: as)
      | .error _ => .fail fun _ => ()

theorem extends_answers : ∀ ps : List (Reading (Bool × V)),
    Reader.Extends (answers ps) (answers ps) := by
  intro ps
  induction ps with
  | nil => exact Reader.extends_pure []
  | cons p ps ih =>
      refine (extends_stream p).bind fun result => ?_
      cases result with
      | ok a => exact ih.map fun as => a :: as
      | error e => exact Reader.extends_fail _ _

theorem answers_concat {p : Reading (Bool × V)} {a : Bool × V} : ∀ {ps : List (Reading (Bool × V))}
    {as : List (Bool × V)} {s rest rest' : Bytes}, answers ps s = .ok (as, rest) →
    stream p rest = .ok (.ok a, rest') → answers (ps ++ [p]) s = .ok (as ++ [a], rest') := by
  intro ps
  induction ps with
  | nil =>
      intro as s rest rest' h hp
      cases h
      rw [List.nil_append, answers, Reader.bind, hp]
      rfl
  | cons q ps ih =>
      intro as s rest rest' h hp
      obtain ⟨result, t, hq, hmore⟩ := Reader.bind_eq_ok.mp h
      cases result with
      | error e => cases hmore
      | ok b =>
          obtain ⟨bs, t', hps, hend⟩ := Reader.bind_eq_ok.mp hmore
          cases hend
          rw [List.cons_append, answers]
          exact Reader.bind_eq_ok.mpr ⟨.ok b, t, hq,
            Reader.bind_eq_ok.mpr ⟨bs ++ [a], rest', ih hps hp, rfl⟩⟩

/-- Functions that read a beginning of a stream of encodings read those that come first. -/
theorem answers_of_reads {qs : List (Reading (Bool × V))} : ∀ {ps : List (Reading (Bool × V))}
    {items : List ((Bool × V) × Bytes)} {as : List (Bool × V)} {s rest : Bytes},
    List.Forall₂ (fun p item => Reader.Reads (stream p) (.ok item.1) item.2) (ps ++ qs) items →
    answers ps s = .ok (as, rest) → s <+: (items.map Prod.snd).flatten →
    as = (items.take ps.length).map Prod.fst ∧
      s = ((items.take ps.length).map Prod.snd).flatten ++ rest ∧
      rest <+: ((items.drop ps.length).map Prod.snd).flatten := by
  intro ps
  induction ps with
  | nil =>
      intro items as s rest _ h hs
      cases h
      exact ⟨rfl, rfl, hs⟩
  | cons p ps ih =>
      intro items as s rest hitems h hs
      cases hitems with
      | @cons _ item _ items hp hitems =>
          obtain ⟨result, t, hread, hmore⟩ := Reader.bind_eq_ok.mp h
          obtain ⟨u, hu⟩ := hs
          have hlong := extends_stream p s result t hread u
          rw [hu, List.map_cons, List.flatten_cons, hp] at hlong
          obtain ⟨rfl, htail⟩ := Prod.mk.inj (Except.ok.inj hlong)
          obtain ⟨bs, t', hps, hend⟩ := Reader.bind_eq_ok.mp hmore
          cases hend
          have hs : s = item.2 ++ t := by
            have hwhole : s ++ u = item.2 ++ t ++ u := by
              rw [hu, List.map_cons, List.flatten_cons, htail, List.append_assoc]
            exact List.append_cancel_right hwhole
          obtain ⟨has, ht, hrest⟩ := ih hitems hps ⟨u, htail.symm⟩
          refine ⟨by rw [has]; rfl, ?_, hrest⟩
          rw [hs, ht, ← List.append_assoc]
          rfl

/-! ## Who has been answered -/

/-- A request whose response was read, with the result. -/
structure Served (V : Type) where
  co : Co
  response : Response V
  result : Bool × V

def Served.request (s : Served V) : Co × Response V := (s.co, s.response)

def Served.delivery (s : Served V) : Co × Result V := (s.co, .answer s.result.1 s.result.2)

/-- The responses that were read, one after the other, are what came first of `received`. -/
def ReadOff (served : List (Served V)) (received rest : Bytes) : Prop :=
  answers (served.map fun s => s.response.1) received =
    .ok (served.map fun s => s.result, rest)

theorem ReadOff.append {served : List (Served V)} {received rest : Bytes}
    (h : ReadOff served received rest) (u : Bytes) :
    ReadOff served (received ++ u) (rest ++ u) :=
  extends_answers _ _ _ _ h u

theorem ReadOff.concat {served : List (Served V)} {received rest rest' : Bytes} {s : Served V}
    (h : ReadOff served received rest)
    (hs : stream s.response.1 rest = .ok (.ok s.result, rest')) :
    ReadOff (served ++ [s]) received rest' := by
  have hall := answers_concat h hs
  simpa only [ReadOff, List.map_append, List.map_cons, List.map_nil] using hall

/-- What a coroutine was given it has taken, or it is there for it. -/
def Records (c : Channel V) : Prop := ∀ co,
  c.delivered.filter (fun p => p.1 = co) = c.returned.filter (fun p => p.1 = co) ++
    ((c.result co).map fun r => (co, r)).toList

/-- The coroutines that wait, the one whose response is being read before the others, have nothing
yet. -/
structure Kept (c : Channel V) (cur : List Co) : Prop where
  nodup : (cur ++ c.thread).Nodup
  none : ∀ co ∈ cur ++ c.thread, c.result co = none
  records : Records c

theorem foldl_deliver (r : Result V) : ∀ (cos : List Co) (c : Channel V),
    cos.foldl (fun c co => deliver c co r) c = { c with
      result := fun co => if co ∈ cos then some r else c.result co
      delivered := c.delivered ++ cos.map fun co => (co, r) } := by
  intro cos
  induction cos with
  | nil => intro c; simp
  | cons co cos ih =>
      intro c
      rw [List.foldl_cons, ih]
      have hresult : (fun co' => if co' ∈ cos then some r else
          Function.update c.result co (some r) co') =
          fun co' => if co' ∈ co :: cos then some r else c.result co' := by
        funext co'
        by_cases heq : co' = co
        · subst heq
          simp
        · simp [heq]
      simp only [deliver, hresult, List.map_cons, List.append_assoc, List.singleton_append]

theorem filter_deliveries {r : Result V} (co : Co) : ∀ {cos : List Co}, cos.Nodup →
    (cos.map fun co => (co, r)).filter (fun p => p.1 = co) =
      if co ∈ cos then [(co, r)] else [] := by
  intro cos
  induction cos with
  | nil => intro _; rfl
  | cons co' cos ih =>
      intro hnodup
      obtain ⟨hnot, hnodup⟩ := List.nodup_cons.mp hnodup
      have hrest := ih hnodup
      by_cases heq : co' = co
      · subst heq
        simpa [hnot] using hrest
      · simpa [heq, Ne.symm heq] using hrest

theorem records_delivered {c : Channel V} (h : Records c) {cos : List Co} (hnodup : cos.Nodup)
    (hnone : ∀ co ∈ cos, c.result co = none) (r : Result V) (co : Co) :
    (c.delivered ++ cos.map fun co => (co, r)).filter (fun p => p.1 = co) =
      c.returned.filter (fun p => p.1 = co) ++
        ((if co ∈ cos then some r else c.result co).map fun r => (co, r)).toList := by
  rw [List.filter_append, h co, filter_deliveries co hnodup]
  split_ifs with hmem
  · rw [hnone co hmem]
    simp
  · rw [List.append_nil]

theorem kept_deliver {c : Channel V} {co : Co} (h : Kept c [co]) (r : Result V) :
    Kept (deliver c co r) [] := by
  obtain ⟨hnot, hnodup⟩ := List.nodup_cons.mp h.nodup
  refine ⟨hnodup, fun co' hco' => ?_, fun co' => ?_⟩
  · have hne : co' ≠ co := fun heq => hnot (heq ▸ hco')
    exact (Function.update_of_ne hne ..).trans (h.none co' (List.mem_cons_of_mem _ hco'))
  · have hrecords := records_delivered h.records (List.nodup_singleton co)
      (fun co' hco' => h.none co' (List.mem_append_left _ hco')) r co'
    simp only [List.mem_singleton, List.map_cons, List.map_nil] at hrecords
    simpa only [deliver, Function.update_apply] using hrecords

theorem fail_eq (c : Channel V) (co : Co) (e : ReadError) : fail c co e = { c with
    sock := false
    request := []
    thread := []
    dispatch := .exited
    result := fun co' =>
      if co' ∈ co :: c.thread then some (.socketError (errmsgOf e)) else c.result co'
    delivered := c.delivered ++
      (co :: c.thread).map fun co => (co, .socketError (errmsgOf e)) } := by
  have hall := foldl_deliver (.socketError (errmsgOf e)) (co :: c.thread)
    { c with sock := false, request := [], thread := [] }
  exact congrArg (fun c : Channel V => { c with dispatch := .exited }) hall

/-! ## The invariant -/

/-- How far the dispatch thread is: `served` has been answered, `cur` is being read, and `rest` is
left of what was received. -/
structure Progress (c : Channel V) (served : List (Served V)) (cur : List (Co × Response V))
    (rest : Bytes) : Prop where
  sock : c.sock = true
  lengths : c.thread.length = c.request.length
  asked : c.asked = served.map Served.request ++ (cur ++ c.thread.zip c.request)
  readOff : ReadOff served c.received rest
  delivered : c.delivered = served.map Served.delivery
  kept : Kept c (cur.map Prod.fst)

/-- The response `p` is being read, and the function is at `call`. -/
structure Reads (c : Channel V) (p : Response V) (call : ReadCall)
    (k : Answer → Reading (Bool × V)) (rest : Bytes) : Prop where
  wrapped : Wrapped (.call call k)
  stream : ∀ u, stream p.1 (rest ++ u) = stream (.call call k) (c.socket.buffer.contents ++ u)

/-- The channel after an error `e`: everybody who was not answered got it. -/
structure Failed (c : Channel V) (served : List (Served V)) (co : Co) (p : Response V)
    (later : List (Co × Response V)) (e : ReadError) (rest : Bytes) : Prop where
  sock : c.sock = false
  dispatch : c.dispatch = .exited
  asked : c.asked = served.map Served.request ++ (co, p) :: later
  readOff : ReadOff served c.received rest
  delivered : c.delivered = served.map Served.delivery ++
    ((co, p) :: later).map fun a => (a.1, .socketError (errmsgOf e))
  cause : c.socket.connected = false ∧ e = .socket ∧ stream p.1 rest = .error () ∨
    ∃ t, stream p.1 rest = .ok (.error e, t)
  records : Records c

inductive Inv (c : Channel V) : Prop
  | waiting {served : List (Served V)} : Progress c served [] c.socket.buffer.contents →
      Free c.socket → c.dispatch = .waiting → c.waitResponse = true → c.request = [] → Inv c
  | woken {served : List (Served V)} : Progress c served [] c.socket.buffer.contents →
      Free c.socket → c.dispatch = .woken → Inv c
  | reading {served : List (Served V)} {co : Co} {p : Response V} {call : ReadCall}
      {k : Answer → Reading (Bool × V)} {rest : Bytes} : Progress c served [(co, p)] rest →
      Reads c p call k rest → WaitsFor c.socket call → c.dispatch = .reading co call k → Inv c
  | ready {served : List (Served V)} {co : Co} {p : Response V} {call : ReadCall}
      {k : Answer → Reading (Bool × V)} {rest : Bytes} : Progress c served [(co, p)] rest →
      Reads c p call k rest → Free c.socket →
      (c.socket.connected = true → SocketReads.Has c.socket.buffer.contents call) →
      (c.socket.connected = false → SocketReads.Lacks c.socket.buffer.contents call) →
      c.dispatch = .ready co call k → Inv c
  | failed {served : List (Served V)} {co : Co} {p : Response V}
      {later : List (Co × Response V)} {e : ReadError} {rest : Bytes} :
      Failed c served co p later e rest → Inv c

theorem inv_start : Inv (start (V := V)) := by
  have hstart : Progress (start (V := V)) [] [] [] :=
    ⟨rfl, rfl, rfl, rfl, rfl, List.nodup_nil, fun co hco => (by cases hco), fun co => rfl⟩
  exact .woken hstart ⟨SocketBuffer.ok_empty, rfl, fun _ => rfl⟩ rfl

/-! ## The dispatch thread -/

theorem Progress.frame {c : Channel V} {served : List (Served V)} {cur : List (Co × Response V)}
    {rest : Bytes} (h : Progress c served cur rest) (socket : Socket) (waitResponse : Bool)
    (dispatch : Pc V) : Progress { c with
      socket := socket
      waitResponse := waitResponse
      dispatch := dispatch } served cur rest :=
  ⟨h.sock, h.lengths, h.asked, h.readOff, h.delivered, h.kept.1, h.kept.2, h.kept.3⟩

theorem failed_fail {c : Channel V} {served : List (Served V)} {co : Co} {p : Response V}
    {e : ReadError} {rest : Bytes} (h : Progress c served [(co, p)] rest)
    (hcause : c.socket.connected = false ∧ e = .socket ∧ stream p.1 rest = .error () ∨
      ∃ t, stream p.1 rest = .ok (.error e, t)) :
    Failed (fail c co e) served co p (c.thread.zip c.request) e rest := by
  have hzip : (c.thread.zip c.request).map Prod.fst = c.thread :=
    List.map_fst_zip (Nat.le_of_eq h.lengths)
  rw [fail_eq]
  refine ⟨rfl, rfl, h.asked, h.readOff, ?_, hcause, ?_⟩
  · have hmap : (c.thread.zip c.request).map (fun a => (a.1, Result.socketError (V := V)
        (errmsgOf e))) = c.thread.map fun co => (co, .socketError (errmsgOf e)) := by
      conv_rhs => rw [← hzip]
      rw [List.map_map]
      rfl
    simp only [h.delivered, List.map_cons, hmap]
  · exact records_delivered h.kept.records h.kept.nodup h.kept.none _

/-- The function of `co` came to a stop, and `next` is the rest of the loop. -/
theorem inv_advance {next : Channel V → Channel V} {c : Channel V} {served : List (Served V)}
    {co : Co} {p : Response V} {rest : Bytes} {stop : Stop (Bool × V)}
    (h : Progress c served [(co, p)] rest) (hstop : Stopped p.1 rest stop c.socket)
    (hnext : ∀ (c' : Channel V) (served' : List (Served V)), c'.request = c.request →
      Progress c' served' [] c'.socket.buffer.contents → Free c'.socket → Inv (next c')) :
    Inv (advance next co stop c) := by
  cases hstop with
  | @finished a _ hfree hstream =>
      cases a with
      | ok result =>
          refine hnext _ (served ++ [⟨co, p, result⟩]) rfl ⟨h.sock, h.lengths, ?_, ?_, ?_, ?_⟩
            hfree
          · rw [List.map_append, List.append_assoc]
            exact h.asked
          · exact h.readOff.concat hstream
          · rw [List.map_append, ← h.delivered]
            rfl
          · exact kept_deliver h.kept _
      | error e => exact .failed (failed_fail h (.inr ⟨_, hstream⟩))
  | blocked hwaits hwrapped hstream =>
      exact .reading (h.frame _ _ _) ⟨hwrapped, hstream⟩ hwaits rfl
  | closed hfree hclosed hstream => exact .failed (failed_fail h (.inl ⟨hclosed, rfl, hstream⟩))

theorem inv_dispatchLoop : ∀ (request : List (Response V)) {c : Channel V}
    {served : List (Served V)}, c.request = request →
    Progress c served [] c.socket.buffer.contents → Free c.socket →
    Inv (dispatchLoop request c) := by
  intro request
  induction request with
  | nil =>
      intro c served hrequest h hfree
      exact .waiting (h.frame _ _ _) hfree rfl rfl hrequest
  | cons func request ih =>
      intro c served hrequest h hfree
      have hlengths := h.lengths
      have hasked := h.asked
      obtain ⟨hnodup, hnone, hrecords⟩ := h.kept
      rw [hrequest] at hlengths hasked
      rw [dispatchLoop]
      cases hthread : c.thread with
      | nil => rw [hthread] at hlengths; cases hlengths
      | cons co thread =>
          rw [hthread] at hlengths hasked hnodup hnone
          have hpopped : Progress { c with
              request := request
              thread := thread
              socket := (runOn func.1 c.socket).2 } served [(co, func)]
              c.socket.buffer.contents :=
            ⟨h.sock, Nat.succ.inj hlengths, hasked, h.readOff, h.delivered, hnodup, hnone, hrecords⟩
          exact inv_advance hpopped (runOn_spec func.1 func.2 hfree)
            fun c' served' hrequest' h' hfree' => ih hrequest' h' hfree'

/-! ## Events -/

theorem progress_push {c : Channel V} {served : List (Served V)} {cur : List (Co × Response V)}
    {rest : Bytes} (h : Progress c served cur rest) {co : Co} (response : Response V)
    (hcur : co ∉ cur.map Prod.fst) (hthread : co ∉ c.thread) (hnone : c.result co = none) :
    Progress { pushResponse c response co with asked := c.asked ++ [(co, response)] } served cur
      rest where
  sock := h.sock
  lengths := by
    have hlengths := h.lengths
    simp only [pushResponse, List.length_append, hlengths, List.length_singleton]
  asked := by
    have hzip : (c.thread ++ [co]).zip (c.request ++ [response]) =
        c.thread.zip c.request ++ [co].zip [response] := List.zip_append h.lengths
    simp only [pushResponse, hzip, h.asked, List.append_assoc]
    rfl
  readOff := h.readOff
  delivered := h.delivered
  kept := by
    obtain ⟨hnodup, hall, hrecords⟩ := h.kept
    have hmem : co ∉ cur.map Prod.fst ++ c.thread := by
      simpa [List.mem_append, hthread] using hcur
    refine ⟨?_, fun co' hco' => ?_, hrecords⟩
    · simp only [pushResponse]
      rw [← List.append_assoc]
      exact List.nodup_append.mpr ⟨hnodup, List.nodup_singleton co, fun a ha b hb heq =>
        hmem (List.mem_singleton.mp hb ▸ heq ▸ ha)⟩
    · simp only [pushResponse] at hco'
      rw [← List.append_assoc] at hco'
      rcases List.mem_append.mp hco' with hold | hnew
      · exact hall co' hold
      · rw [List.mem_singleton.mp hnew]
        exact hnone

theorem inv_request {c c' : Channel V} {co : Co} {response : Response V} (h : Inv c)
    (hstep : step c (.request co response) = some c') : Inv c' := by
  simp only [step] at hstep
  split at hstep
  · cases hstep
  · rename_i hguard
    cases hstep
    simp only [Bool.or_eq_true, not_or, Bool.not_eq_true, Bool.not_eq_false',
      List.contains_eq_mem, decide_eq_true_eq, Option.isSome_eq_false_iff,
      Option.isNone_iff_eq_none] at hguard
    obtain ⟨⟨⟨hsock, hcur⟩, hthread⟩, hnone⟩ := hguard
    cases h with
    | waiting h hfree hdispatch hwait hrequest =>
        refine .woken (progress_push h response List.not_mem_nil hthread hnone) hfree ?_
        simp only [pushResponse, hdispatch, hwait]
    | woken h hfree hdispatch =>
        refine .woken (progress_push h response List.not_mem_nil hthread hnone) hfree ?_
        simp only [pushResponse, hdispatch]
    | reading h hreads hwaits hdispatch =>
        rw [hdispatch] at hcur
        refine .reading (progress_push h response hcur hthread hnone)
          ⟨hreads.1, hreads.2⟩ hwaits ?_
        simp only [pushResponse, hdispatch]
    | ready h hreads hfree hhas hlacks hdispatch =>
        rw [hdispatch] at hcur
        refine .ready (progress_push h response hcur hthread hnone)
          ⟨hreads.1, hreads.2⟩ hfree hhas hlacks ?_
        simp only [pushResponse, hdispatch]
    | failed h => rw [h.sock] at hsock; cases hsock

theorem progress_data {c : Channel V} {served : List (Served V)} {cur : List (Co × Response V)}
    {rest : Bytes} (h : Progress c served cur rest) (bytes : Bytes) (socket : Socket)
    (dispatch : Pc V) : Progress { c with
      socket := socket
      dispatch := dispatch
      received := c.received ++ bytes } served cur (rest ++ bytes) :=
  ⟨h.sock, h.lengths, h.asked, h.readOff.append bytes, h.delivered, h.kept.1, h.kept.2, h.kept.3⟩

theorem inv_data {c c' : Channel V} {bytes : Bytes} (h : Inv c)
    (hstep : step c (.data bytes) = some c') : Inv c' := by
  simp only [step] at hstep
  split at hstep
  · cases hstep
  · rename_i hguard
    simp only [Bool.or_eq_true, not_or, Bool.not_eq_true, Bool.not_eq_false',
      List.isEmpty_eq_false_iff] at hguard
    obtain ⟨⟨⟨hsock, hawake⟩, hbytes⟩, hopen⟩ := hguard
    cases h with
    | @waiting served h hfree hdispatch hwait hrequest =>
        have hcontents := SocketBuffer.contents_push c.socket.buffer hfree.buffer bytes
        rw [SocketReads.dataMessage_free (hfree.readRequired hopen), hdispatch] at hstep
        cases hstep
        have hmore := progress_data h bytes
          { c.socket with buffer := (c.socket.buffer.push bytes).1 } .waiting
        rw [← hcontents] at hmore
        exact .waiting hmore
          ⟨SocketBuffer.ok_push hfree.buffer hbytes, hfree.co, hfree.readRequired⟩ rfl hwait
          hrequest
    | woken h hfree hdispatch => rw [hdispatch] at hawake; cases hawake
    | @reading served co p call k rest h hreads hwaits hdispatch =>
        have hcontents := SocketBuffer.contents_push c.socket.buffer hwaits.buffer bytes
        have hok := SocketBuffer.ok_push hwaits.buffer hbytes
        have hstream : ∀ u, stream p.1 (rest ++ bytes ++ u) = stream (.call call k)
            ((c.socket.buffer.push bytes).1.contents ++ u) := by
          intro u
          rw [hcontents, List.append_assoc, List.append_assoc]
          exact hreads.stream (bytes ++ u)
        rcases SocketReads.dataMessage_spec hwaits.buffer hbytes hwaits.readRequired with
          ⟨hdata, hlacks⟩ | ⟨hdata, hhas⟩
        · rw [hdata, hdispatch] at hstep
          cases hstep
          exact .reading (progress_data h bytes _ _) ⟨hreads.wrapped, hstream⟩
            ⟨hok, hopen, hwaits.co, hwaits.readRequired, by rw [hcontents]; exact hlacks⟩ rfl
        · rw [hdata, hdispatch] at hstep
          simp only [SocketReads.wakeup, hwaits.co] at hstep
          cases hstep
          exact .ready (progress_data h bytes _ _) ⟨hreads.wrapped, hstream⟩
            ⟨hok, rfl, fun _ => rfl⟩ (fun _ => by rw [hcontents]; exact hhas)
            (fun hclosed => absurd (hclosed.symm.trans hopen) Bool.false_ne_true) rfl
    | ready h hreads hfree hhas hlacks hdispatch => rw [hdispatch] at hawake; cases hawake
    | failed h => rw [h.sock] at hsock; cases hsock

theorem inv_close {c c' : Channel V} (h : Inv c) (hstep : step c .close = some c') : Inv c' := by
  simp only [step] at hstep
  split at hstep
  · cases hstep
  · rename_i hguard
    simp only [Bool.or_eq_true, not_or, Bool.not_eq_true, Bool.not_eq_false'] at hguard
    obtain ⟨hsock, hawake⟩ := hguard
    cases hstep
    cases h with
    | waiting h hfree hdispatch hwait hrequest =>
        rw [hdispatch]
        exact .waiting (h.frame _ _ _) ⟨hfree.buffer, rfl, fun hopen => (by cases hopen)⟩ rfl hwait
          hrequest
    | woken h hfree hdispatch => rw [hdispatch] at hawake; cases hawake
    | reading h hreads hwaits hdispatch =>
        have hwake : (SocketReads.closeMessage c.socket).2 = true := hwaits.co
        rw [hdispatch, hwake]
        exact .ready (h.frame _ _ _) ⟨hreads.1, hreads.2⟩
          ⟨hwaits.buffer, rfl, fun hopen => (by cases hopen)⟩ (fun hopen => (by cases hopen))
          (fun _ => hwaits.lacks) rfl
    | ready h hreads hfree hhas hlacks hdispatch => rw [hdispatch] at hawake; cases hawake
    | failed h => rw [h.sock] at hsock; cases hsock

theorem inv_dispatch {c c' : Channel V} (h : Inv c) (hstep : step c .dispatch = some c') :
    Inv c' := by
  cases h with
  | woken h hfree hdispatch =>
      simp only [step, hdispatch] at hstep
      cases hstep
      exact inv_dispatchLoop c.request rfl h hfree
  | ready h hreads hfree hhas hlacks hdispatch =>
      simp only [step, hdispatch] at hstep
      cases hstep
      refine inv_advance (h.frame _ _ _)
        ((resumeOn_spec hreads.wrapped hfree hhas hlacks).of_stream hreads.stream)
        fun c' served' hrequest h' hfree' => inv_dispatchLoop _ hrequest h' hfree'
  | waiting h hfree hdispatch hwait hrequest => simp only [step, hdispatch] at hstep; cases hstep
  | reading h hreads hwaits hdispatch => simp only [step, hdispatch] at hstep; cases hstep
  | failed h => simp only [step, h.dispatch] at hstep; cases hstep

theorem records_resume {c : Channel V} (h : Records c) {co : Co} {r : Result V}
    (hr : c.result co = some r) : Records { c with
      result := Function.update c.result co none
      returned := c.returned ++ [(co, r)] } := by
  intro co'
  have hrecords := h co'
  by_cases heq : co' = co
  · subst heq
    simpa [hr] using hrecords
  · simpa [Function.update_of_ne heq, Ne.symm heq] using hrecords

theorem kept_resume {c : Channel V} {cur : List Co} (h : Kept c cur) {co : Co} {r : Result V}
    (hr : c.result co = some r) : Kept { c with
      result := Function.update c.result co none
      returned := c.returned ++ [(co, r)] } cur := by
  refine ⟨h.nodup, fun co' hco' => ?_, records_resume h.records hr⟩
  by_cases heq : co' = co
  · rw [heq]
    exact Function.update_self ..
  · exact (Function.update_of_ne heq ..).trans (h.none co' hco')

theorem inv_resume {c c' : Channel V} {co : Co} (h : Inv c)
    (hstep : step c (.resume co) = some c') : Inv c' := by
  simp only [step] at hstep
  cases hr : c.result co with
  | none => rw [hr] at hstep; cases hstep
  | some r =>
      rw [hr] at hstep
      cases hstep
      have hprogress : ∀ {served cur rest}, Progress c served cur rest → Progress { c with
          result := Function.update c.result co none
          returned := c.returned ++ [(co, r)] } served cur rest := fun h =>
        ⟨h.sock, h.lengths, h.asked, h.readOff, h.delivered, kept_resume h.kept hr⟩
      cases h with
      | waiting h hfree hdispatch hwait hrequest =>
          exact .waiting (hprogress h) hfree hdispatch hwait hrequest
      | woken h hfree hdispatch => exact .woken (hprogress h) hfree hdispatch
      | reading h hreads hwaits hdispatch =>
          exact .reading (hprogress h) ⟨hreads.1, hreads.2⟩ hwaits hdispatch
      | ready h hreads hfree hhas hlacks hdispatch =>
          exact .ready (hprogress h) ⟨hreads.1, hreads.2⟩ hfree hhas hlacks hdispatch
      | failed h =>
          exact .failed ⟨h.sock, h.dispatch, h.asked, h.readOff, h.delivered, h.cause,
            records_resume h.records hr⟩

theorem inv_step {c c' : Channel V} {e : Event V} (h : Inv c) (hstep : step c e = some c') :
    Inv c' := by
  cases e with
  | request co response => exact inv_request h hstep
  | data bytes => exact inv_data h hstep
  | close => exact inv_close h hstep
  | dispatch => exact inv_dispatch h hstep
  | resume co => exact inv_resume h hstep

theorem inv_run {events : List (Event V)} {c : Channel V}
    (hrun : run step start events = some c) : Inv c :=
  run_invariant step (fun _ _ => True) Inv (fun _ _ _ h _ hstep => inv_step h hstep) events start c
    inv_start (along_true step events start) hrun

/-- What the invariant says of the requests, as one statement for all positions of the dispatch
thread. -/
structure Outcome (c : Channel V) (served : List (Served V)) (outstanding : List (Co × Response V))
    (rest : Bytes) : Prop where
  asked : c.asked = served.map Served.request ++ outstanding
  readOff : ReadOff served c.received rest
  delivered : c.sock = true → c.delivered = served.map Served.delivery
  stuck : c.sock = true → c.dispatch.isWoken = false →
    ∀ a ∈ outstanding.head?, stream a.2.1 rest = .error ()
  failed : c.sock = false → ∃ a e, outstanding.head? = some a ∧
    c.delivered = served.map Served.delivery ++
      outstanding.map (fun a => (a.1, .socketError (errmsgOf e))) ∧
    (c.socket.connected = false ∧ e = .socket ∧ stream a.2.1 rest = .error () ∨
      ∃ t, stream a.2.1 rest = .ok (.error e, t))
  records : Records c

theorem Progress.outcome {c : Channel V} {served : List (Served V)} {cur : List (Co × Response V)}
    {rest : Bytes} (h : Progress c served cur rest) (hstuck : c.dispatch.isWoken = false →
      ∀ a ∈ (cur ++ c.thread.zip c.request).head?, stream a.2.1 rest = .error ()) :
    Outcome c served (cur ++ c.thread.zip c.request) rest where
  asked := h.asked
  readOff := h.readOff
  delivered := fun _ => h.delivered
  stuck := fun _ => hstuck
  failed := fun hsock => by rw [h.sock] at hsock; cases hsock
  records := h.kept.records

theorem outcome_of_inv {c : Channel V} (h : Inv c) :
    ∃ served outstanding rest, Outcome c served outstanding rest := by
  cases h with
  | waiting h hfree hdispatch hwait hrequest =>
      refine ⟨_, _, _, h.outcome fun _ a ha => ?_⟩
      rw [hrequest, List.zip_nil_right] at ha
      cases ha
  | woken h hfree hdispatch =>
      refine ⟨_, _, _, h.outcome fun hawake => ?_⟩
      rw [hdispatch] at hawake
      cases hawake
  | reading h hreads hwaits hdispatch =>
      refine ⟨_, _, _, h.outcome fun _ a ha => ?_⟩
      cases ha
      have hstream := hreads.stream []
      rw [List.append_nil, List.append_nil] at hstream
      exact hstream.trans (stream_of_lacks hreads.wrapped hwaits.lacks)
  | ready h hreads hfree hhas hlacks hdispatch =>
      refine ⟨_, _, _, h.outcome fun hawake => ?_⟩
      rw [hdispatch] at hawake
      cases hawake
  | @failed served co p later e rest h =>
      have hshut : c.sock ≠ true := by rw [h.sock]; exact Bool.false_ne_true
      exact ⟨served, _, rest, h.asked, h.readOff, fun hsock => absurd hsock hshut,
        fun hsock => absurd hsock hshut, fun _ => ⟨_, e, rfl, h.delivered, h.cause⟩, h.records⟩

/-! ## A peer that answers every request -/

/-- What `item`, the value of a response and its bytes, gives to who asked. -/
def deliveryOf (p : (Co × Response V) × ((Bool × V) × Bytes)) : Co × Result V :=
  (p.1.1, .answer p.2.1.1 p.2.1.2)

theorem map_delivery : ∀ {served : List (Served V)} {items : List ((Bool × V) × Bytes)},
    served.map (fun s => s.result) = items.map Prod.fst →
    ((served.map Served.request).zip items).map deliveryOf = served.map Served.delivery := by
  intro served
  induction served with
  | nil => intro items _; rfl
  | cons s served ih =>
      intro items h
      cases items with
      | nil => cases h
      | cons item items =>
          obtain ⟨hitem, hitems⟩ := List.cons.inj h
          rw [List.map_cons, List.zip_cons_cons, List.map_cons, ih hitems, List.map_cons]
          simp only [deliveryOf, Served.request, Served.delivery, hitem]

/-- When what is received is the beginning of a stream with a response for each request, the first
responses are delivered, as many as have come in when the dispatch thread cannot run or is at its
end; there is no error but the end of the connection. -/
theorem delivered_of_reads {c : Channel V} (h : Inv c) {items : List ((Bool × V) × Bytes)}
    (hitems : List.Forall₂ (fun a item => Reader.Reads (stream a.2.1) (.ok item.1) item.2)
      c.asked items) (hreceived : c.received <+: (items.map Prod.snd).flatten) :
    ∃ n, n ≤ c.asked.length ∧
      (c.sock = true ∧ c.delivered = ((c.asked.zip items).take n).map deliveryOf ∧
          (c.dispatch.isWoken = false → n < c.asked.length →
            ¬ ((items.take (n + 1)).map Prod.snd).flatten <+: c.received) ∨
        c.sock = false ∧ c.socket.connected = false ∧ n < c.asked.length ∧
          ¬ ((items.take (n + 1)).map Prod.snd).flatten <+: c.received ∧
          c.delivered = ((c.asked.zip items).take n).map deliveryOf ++
            (c.asked.drop n).map fun a => (a.1, .socketError none)) := by
  obtain ⟨served, outstanding, rest, h⟩ := outcome_of_inv h
  obtain ⟨n, hn⟩ : ∃ n, n = served.length := ⟨_, rfl⟩
  have hmap : (served.map Served.request).length = n := by rw [List.length_map, hn]
  have hlength : c.asked.length = n + outstanding.length := by
    rw [h.asked, List.length_append, hmap]
  have hdrop : c.asked.drop n = outstanding := by rw [h.asked, List.drop_left' hmap]
  have htake : c.asked.take n = served.map Served.request := by rw [h.asked, List.take_left' hmap]
  have hreads : List.Forall₂ (fun p item => Reader.Reads (stream p) (.ok item.1) item.2)
      (served.map (fun s => s.response.1) ++ outstanding.map fun a => a.2.1) items := by
    have hsplit : (served.map fun s => s.response.1) ++ (outstanding.map fun a => a.2.1) =
        c.asked.map fun a => a.2.1 := by
      rw [h.asked, List.map_append, List.map_map]
      rfl
    rw [hsplit]
    exact List.forall₂_map_left_iff.mpr hitems
  obtain ⟨hresults, hfirst, hrest⟩ := answers_of_reads hreads h.readOff hreceived
  rw [List.length_map, ← hn] at hresults hfirst hrest
  have hserved : ((c.asked.zip items).take n).map deliveryOf = served.map Served.delivery := by
    rw [List.zip_eq_zipWith, List.take_zipWith, htake, ← List.zip_eq_zipWith]
    exact map_delivery hresults
  have hnext : ∀ a ∈ outstanding.head?, ∃ item, items.drop n = item :: items.drop (n + 1) ∧
      Reader.Reads (stream a.2.1) (.ok item.1) item.2 := by
    intro a ha
    have hlast := List.forall₂_drop n hitems
    rw [hdrop] at hlast
    cases houtstanding : outstanding with
    | nil => rw [houtstanding] at ha; cases ha
    | cons a' outstanding =>
        rw [houtstanding] at ha hlast
        cases ha
        cases hd : items.drop n with
        | nil => rw [hd] at hlast; cases hlast
        | cons item items' =>
            rw [hd] at hlast
            have hmore : items.drop (n + 1) = items' := by
              rw [← List.drop_drop, hd]
              rfl
            cases hlast with
            | cons hitem hlast => exact ⟨item, by rw [hmore], hitem⟩
  have hcut : (∀ a ∈ outstanding.head?, stream a.2.1 rest = .error ()) → n < c.asked.length →
      ¬ ((items.take (n + 1)).map Prod.snd).flatten <+: c.received := by
    intro hstuck hlt hprefix
    cases houtstanding : outstanding with
    | nil => rw [houtstanding, List.length_nil] at hlength; omega
    | cons a outstanding' =>
        have hhead : a ∈ outstanding.head? := by rw [houtstanding]; rfl
        obtain ⟨item, hd, hitem⟩ := hnext a hhead
        have herror := hstuck a hhead
        have hsucc : items.take (n + 1) = items.take n ++ [item] := by
          rw [List.take_add_one, ← List.head?_drop, hd]
          rfl
        rw [hsucc, hfirst, List.map_append, List.flatten_append] at hprefix
        obtain ⟨t, ht⟩ := (List.prefix_append_right_inj _).mp hprefix
        rw [List.map_cons, List.map_nil, List.flatten_cons, List.flatten_nil,
          List.append_nil] at ht
        rw [← ht, hitem] at herror
        cases herror
  refine ⟨n, by omega, ?_⟩
  rw [hserved]
  cases hsock : c.sock with
  | true => exact .inl ⟨rfl, h.delivered hsock, fun hawake => hcut (h.stuck hsock hawake)⟩
  | false =>
      obtain ⟨a, e, hhead, hdelivered, hcause⟩ := h.failed hsock
      obtain ⟨item, hd, hitem⟩ := hnext a hhead
      have hover : c.socket.connected = false ∧ e = .socket ∧
          stream a.2.1 rest = .error () := by
        refine hcause.resolve_right fun hraises => ?_
        obtain ⟨t, hraises⟩ := hraises
        obtain ⟨u, hu⟩ := hrest
        have hlong := extends_stream a.2.1 rest _ t hraises u
        rw [hu, hd, List.map_cons, List.flatten_cons, hitem] at hlong
        cases (Prod.mk.inj (Except.ok.inj hlong)).1
      obtain ⟨hclosed, rfl, hstuck⟩ := hover
      have hlt : n < c.asked.length := by
        have hpos := List.length_pos_of_mem (List.mem_of_mem_head? hhead)
        omega
      rw [hdrop]
      refine .inr ⟨rfl, hclosed, hlt, hcut (fun a' ha' => ?_) hlt, hdelivered⟩
      cases Option.some.inj (hhead.symm.trans ha')
      exact hstuck

/-- In every run, however the bytes come in: the functions of the requests read what was received
one after the other, in the order of the requests, and each coroutine gets what its own function
read, once.  While the dispatch thread cannot run, the first response that is outstanding has not
come in to its end.  After an error everybody who is left gets it, and there is one only when the
connection is over before that, or a function raises at what it reads. -/
theorem answered_in_order (events : List (Event V)) (c : Channel V)
    (hrun : run step start events = some c) :
    ∃ (served : List (Served V)) (outstanding : List (Co × Response V)) (rest : Bytes),
      c.asked = served.map Served.request ++ outstanding ∧
      ReadOff served c.received rest ∧
      (c.sock = true ∧ c.delivered = served.map Served.delivery ∧
          (c.dispatch.isWoken = false →
            ∀ a ∈ outstanding.head?, stream a.2.1 rest = .error ()) ∨
        c.sock = false ∧ ∃ a e, outstanding.head? = some a ∧
          c.delivered = served.map Served.delivery ++
            outstanding.map (fun a => (a.1, .socketError (errmsgOf e))) ∧
          (c.socket.connected = false ∧ e = .socket ∧ stream a.2.1 rest = .error () ∨
            ∃ t, stream a.2.1 rest = .ok (.error e, t))) ∧
      Records c := by
  obtain ⟨served, outstanding, rest, h⟩ := outcome_of_inv (inv_run hrun)
  refine ⟨served, outstanding, rest, h.asked, h.readOff, ?_, h.records⟩
  cases hsock : c.sock with
  | true => exact .inl ⟨rfl, h.delivered hsock, h.stuck hsock⟩
  | false => exact .inr ⟨rfl, h.failed hsock⟩

def lineResponse : Response Bytes :=
  ⟨(Reading.fdReadline ⟨[10], by decide⟩).andThen fun line => Reading.ret (true, line),
    wrapped_andThen (wrapped_fdReadline _) fun _ => trivial⟩

/-- The connection ends in the second of two responses. -/
theorem answered_in_order_closed : ∃ c,
    run step start [.dispatch, .request 1 lineResponse, .request 2 lineResponse, .dispatch,
      .data [97, 10, 98], .dispatch, .resume 1, .close, .dispatch] = some c ∧
    ∃ (served : List (Served Bytes)) (outstanding : List (Co × Response Bytes)) (rest : Bytes),
      c.asked = served.map Served.request ++ outstanding ∧
      ReadOff served c.received rest ∧
      (c.sock = true ∧ c.delivered = served.map Served.delivery ∧
          (c.dispatch.isWoken = false →
            ∀ a ∈ outstanding.head?, stream a.2.1 rest = .error ()) ∨
        c.sock = false ∧ ∃ a e, outstanding.head? = some a ∧
          c.delivered = served.map Served.delivery ++
            outstanding.map (fun a => (a.1, .socketError (errmsgOf e))) ∧
          (c.socket.connected = false ∧ e = .socket ∧ stream a.2.1 rest = .error () ∨
            ∃ t, stream a.2.1 rest = .ok (.error e, t))) ∧
      Records c := by
  obtain ⟨c, hrun⟩ := Option.isSome_iff_exists.mp (show (run step start [.dispatch,
    .request 1 lineResponse, .request 2 lineResponse, .dispatch, .data [97, 10, 98], .dispatch,
    .resume 1, .close, .dispatch]).isSome = true from rfl)
  exact ⟨c, hrun, answered_in_order _ c hrun⟩

end Doudizhu.Skynet.SocketChannel
