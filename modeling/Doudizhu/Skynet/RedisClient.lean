import Doudizhu.Skynet.Redis
import Doudizhu.Skynet.SocketChannel

/-! # Operations of a Redis client

The operations of `redis.lua` that many coroutines ask for on one channel: what each writes, the
function that it gives to the channel, and what the replies to its own commands make it return.

The items are texts already.  `resp` of a pipeline is the table before the call; that it is filled
while the pipeline waits is not part of this. -/

set_option autoImplicit false

namespace Doudizhu.Skynet.Redis

open Runs
open Network (Bytes)
open Reader (Reads)
open Reading (ret andThen)
open SocketChannel (Co Response Channel Event step start answers ReadOff Served)

inductive Data where
  | value (v : RedisValue)
  | boolean (b : Bool)
  | records (resp : List (Bool × RedisValue))

/-- `command` is a method that the metatable makes.  `pipeline` asserts that it has operations. -/
inductive Operation where
  | command (k : Bytes) (msg : List Bytes)
  | existsKey (key : Bytes)
  | sismember (key value : Bytes)
  | pipeline (ops : { ops : List (List Bytes) // ops ≠ [] })
      (resp : Option (List (Bool × RedisValue)))

section Responses
variable (readResponse : Reading (Bool × RedisValue))

def isZero : RedisValue → Bool
  | .number n => n == 0
  | _ => false

def readBoolean : Reading (Bool × Data) :=
  readResponse.andThen fun r => ret (r.1, .boolean !(isZero r.2))

def pipelineRecords : ℕ → List (Bool × RedisValue) → Reading (Bool × Data)
  | 0, resp => ret (true, .records resp)
  | n + 1, resp => readResponse.andThen fun r => pipelineRecords n (resp ++ [r])

def pipelineLast : ℕ → Bool × RedisValue → Reading (Bool × Data)
  | 0, last => ret (last.1, .value last.2)
  | n + 1, _ => readResponse.andThen fun r => pipelineLast n r

/-- The function that an operation gives to `channel:request`. -/
def responseOf : Operation → Reading (Bool × Data)
  | .command _ _ => readResponse.andThen fun r => ret (r.1, .value r.2)
  | .existsKey _ | .sismember _ _ => readBoolean readResponse
  | .pipeline ops (some resp) => pipelineRecords readResponse ops.1.length resp
  | .pipeline ops none => pipelineLast readResponse ops.1.length (false, .nil)

end Responses

def bytesOf (s : String) : Bytes := s.toList.map fun c => UInt8.ofNat c.toNat

def linesOf : Operation → List Bytes
  | .command k msg => composeMessage (upper k) msg
  | .existsKey key => composeSingle (bytesOf "EXISTS") key
  | .sismember key value => composeMessage (bytesOf "SISMEMBER") [key, value]
  | .pipeline ops _ => pipelineLines ops.1

/-! ## What an operation is for -/

/-- The commands of an operation, as the server is to see them. -/
def commandsOf : Operation → List (List Bytes)
  | .command k msg => [upper k :: msg]
  | .existsKey key => [[bytesOf "EXISTS", key]]
  | .sismember key value => [[bytesOf "SISMEMBER", key, value]]
  | .pipeline ops _ => ops.1

def lastValue (replies : List Reply) : Bool × RedisValue :=
  (replies.getLast?.map value).getD (false, .nil)

/-- What the replies to the commands of an operation make it return. -/
def outcomeOf (op : Operation) (replies : List Reply) : Bool × Data :=
  match op with
  | .command _ _ | .pipeline _ none => ((lastValue replies).1, .value (lastValue replies).2)
  | .existsKey _ | .sismember _ _ =>
      ((lastValue replies).1, .boolean !(isZero (lastValue replies).2))
  | .pipeline _ (some resp) => (true, .records (resp ++ replies.map value))

/-! ## Reading the replies -/

section Reads
variable {d : ℕ}

theorem reads_pipelineRecords : ∀ {replies : List Reply} (resp : List (Bool × RedisValue)),
    (∀ r ∈ replies, Fits d r) →
    Reads (stream (pipelineRecords (readResponse d) replies.length resp))
      (.ok (true, .records (resp ++ replies.map value))) (encodeAll replies) := by
  intro replies
  induction replies with
  | nil =>
      intro resp _
      rw [List.map_nil, List.append_nil]
      exact reads_ret _
  | cons r replies ih =>
      intro resp h
      have hrest := ih (resp ++ [value r]) fun r' hr' => h r' (List.mem_cons_of_mem _ hr')
      rw [List.append_assoc] at hrest
      exact reads_andThen (reads_readResponse d (h r (List.mem_cons_self ..))) hrest

theorem reads_pipelineLast : ∀ {replies : List Reply} (last : Bool × RedisValue),
    (∀ r ∈ replies, Fits d r) →
    Reads (stream (pipelineLast (readResponse d) replies.length last))
      (.ok (((replies.getLast?.map value).getD last).1,
        .value ((replies.getLast?.map value).getD last).2)) (encodeAll replies) := by
  intro replies
  induction replies with
  | nil => intro last _; exact reads_ret _
  | cons r replies ih =>
      intro last h
      have hrest := ih (value r) fun r' hr' => h r' (List.mem_cons_of_mem _ hr')
      have hlast : ((r :: replies).getLast?.map value).getD last =
          (replies.getLast?.map value).getD (value r) := by
        cases replies with
        | nil => rfl
        | cons r' replies => rw [List.getLast?_cons_cons]; simp [List.getLast?_cons]
      rw [hlast]
      exact reads_andThen (reads_readResponse d (h r (List.mem_cons_self ..))) hrest

/-- An operation reads the replies to its own commands, and nothing behind them. -/
theorem reads_responseOf (op : Operation) {replies : List Reply}
    (hlen : replies.length = (commandsOf op).length) (h : ∀ r ∈ replies, Fits d r) :
    Reads (stream (responseOf (readResponse d) op)) (.ok (outcomeOf op replies))
      (encodeAll replies) := by
  have hsingle : ∀ {f : Bool × RedisValue → Bool × Data}, replies.length = 1 →
      Reads (stream ((readResponse d).andThen fun r => ret (f r))) (.ok (f (lastValue replies)))
        (encodeAll replies) := by
    intro f hone
    obtain ⟨r, rfl⟩ := List.length_eq_one_iff.mp hone
    exact reads_andThen (reads_readResponse d (h r (List.mem_cons_self ..))) (reads_ret _)
  cases op with
  | command k msg => exact hsingle hlen
  | existsKey key => exact hsingle hlen
  | sismember key value => exact hsingle hlen
  | pipeline ops resp =>
      change replies.length = ops.1.length at hlen
      cases resp with
      | some resp =>
          rw [responseOf, ← hlen]
          exact reads_pipelineRecords resp h
      | none =>
          rw [responseOf, ← hlen]
          exact reads_pipelineLast _ h

end Reads

theorem wrapped_responseOf (d : ℕ) (op : Operation) :
    Wrapped (responseOf (readResponse d) op) := by
  have hrecords : ∀ (n : ℕ) (resp : List (Bool × RedisValue)),
      Wrapped (pipelineRecords (readResponse d) n resp) := by
    intro n
    induction n with
    | zero => intro resp; trivial
    | succ n ih => intro resp; exact wrapped_andThen (wrapped_readResponse d) fun r => ih _
  have hlast : ∀ (n : ℕ) (last : Bool × RedisValue),
      Wrapped (pipelineLast (readResponse d) n last) := by
    intro n
    induction n with
    | zero => intro last; trivial
    | succ n ih => intro last; exact wrapped_andThen (wrapped_readResponse d) fun r => ih _
  cases op with
  | command k msg => exact wrapped_andThen (wrapped_readResponse d) fun r => trivial
  | existsKey key => exact wrapped_andThen (wrapped_readResponse d) fun r => trivial
  | sismember key value => exact wrapped_andThen (wrapped_readResponse d) fun r => trivial
  | pipeline ops resp =>
      cases resp with
      | some resp => exact hrecords _ resp
      | none => exact hlast _ _

def requestOf (d : ℕ) (op : Operation) : Response Data :=
  ⟨responseOf (readResponse d) op, wrapped_responseOf d op⟩

/-! ## Many operations on one channel -/

/-- What the caller of an operation is given when `replies` answer its commands. -/
def deliveryOf (p : (Co × Operation) × List Reply) : Co × SocketChannel.Result Data :=
  (p.1.1, .answer (outcomeOf p.1.2 p.2).1 (outcomeOf p.1.2 p.2).2)

theorem encodeAll_flatten (replies : List (List Reply)) :
    encodeAll replies.flatten = (replies.map encodeAll).flatten := by
  have happend : ∀ rs rs' : List Reply, encodeAll (rs ++ rs') = encodeAll rs ++ encodeAll rs' := by
    intro rs rs'
    induction rs with
    | nil => rfl
    | cons r rs ih => rw [List.cons_append, encodeAll, encodeAll, ih, List.append_assoc]
  induction replies with
  | nil => rfl
  | cons rs replies ih => rw [List.flatten_cons, happend, ih, List.map_cons, List.flatten_cons]

theorem zip_deliveries (d : ℕ) : ∀ (asked : List (Co × Operation)) (replies : List (List Reply)),
    ((asked.map fun a => (a.1, requestOf d a.2)).zip ((asked.zip replies).map fun p =>
      (outcomeOf p.1.2 p.2, encodeAll p.2))).map SocketChannel.deliveryOf =
      (asked.zip replies).map deliveryOf := by
  intro asked
  induction asked with
  | nil => intro replies; rfl
  | cons a asked ih =>
      intro replies
      cases replies with
      | nil => rfl
      | cons rs replies =>
          simp only [List.map_cons, List.zip_cons_cons, ih]
          rfl

/-- Coroutines that use one channel at the same time, with any operations: when the server answers
the commands in the order in which they were written, every operation returns what the replies to
its own commands say, however they are cut, and has returned it as soon as they are all there and
the dispatch thread has run.  There is no error but the end of the connection, and then it goes to
all whose answers are not complete. -/
theorem operations_answered (d : ℕ) (asked : List (Co × Operation)) (replies : List (List Reply))
    (hreplies : List.Forall₂ (fun a rs => rs.length = (commandsOf a.2).length ∧
      ∀ r ∈ rs, Fits d r) asked replies)
    (events : List (Event Data)) (c : Channel Data) (hrun : run step start events = some c)
    (hasked : c.asked = asked.map fun a => (a.1, requestOf d a.2))
    (hreceived : c.received <+: encodeAll replies.flatten) :
    ∃ n, n ≤ asked.length ∧
      (c.sock = true ∧ c.delivered = ((asked.zip replies).take n).map deliveryOf ∧
          (c.dispatch.isWoken = false → n < asked.length →
            ¬ encodeAll (replies.take (n + 1)).flatten <+: c.received) ∨
        c.sock = false ∧ c.socket.connected = false ∧ n < asked.length ∧
          ¬ encodeAll (replies.take (n + 1)).flatten <+: c.received ∧
          c.delivered = ((asked.zip replies).take n).map deliveryOf ++
            (asked.drop n).map fun a => (a.1, .socketError none)) := by
  obtain ⟨items, hitems⟩ : ∃ items, items = (asked.zip replies).map fun p =>
    (outcomeOf p.1.2 p.2, encodeAll p.2) := ⟨_, rfl⟩
  have hbytes : items.map Prod.snd = replies.map encodeAll := by
    have hzip : (asked.zip replies).map Prod.snd = replies :=
      List.map_snd_zip (Nat.le_of_eq hreplies.length_eq.symm)
    conv_rhs => rw [← hzip]
    rw [hitems, List.map_map, List.map_map]
    rfl
  have hreads : List.Forall₂ (fun a item => Reads (stream a.2.1) (.ok item.1) item.2)
      c.asked items := by
    rw [hasked, hitems, List.forall₂_map_left_iff]
    clear hasked hitems hreceived hbytes
    induction hreplies with
    | nil => exact .nil
    | cons h _ ih => exact .cons (reads_responseOf _ h.1 h.2) ih
  have hall : c.received <+: (items.map Prod.snd).flatten := by
    rw [hbytes, ← encodeAll_flatten]
    exact hreceived
  have hdelivered : ∀ n, ((c.asked.zip items).take n).map SocketChannel.deliveryOf =
      ((asked.zip replies).take n).map deliveryOf := by
    intro n
    rw [List.map_take, List.map_take, hasked, hitems, zip_deliveries]
  have hlength : c.asked.length = asked.length := by rw [hasked, List.length_map]
  obtain ⟨n, hle, hcases⟩ :=
    SocketChannel.delivered_of_reads (SocketChannel.inv_run hrun) hreads hall
  rw [hlength] at hle hcases
  rw [hdelivered] at hcases
  have hbegins : ∀ m, encodeAll (replies.take m).flatten =
      ((items.take m).map Prod.snd).flatten := by
    intro m
    rw [encodeAll_flatten, List.map_take, ← hbytes, ← List.map_take]
  refine ⟨n, hle, hcases.imp (fun h => ⟨h.1, h.2.1, ?_⟩) fun h => ⟨h.1, h.2.1, h.2.2.1, ?_, ?_⟩⟩
  · rw [hbegins]
    exact h.2.2
  · rw [hbegins]
    exact h.2.2.2.1
  · rw [h.2.2.2.2, hasked, ← List.map_drop, List.map_map]
    rfl

theorem pipeline_ne_nil : [[[71], [107]], [[75]]] ≠ ([] : List (List Bytes)) :=
  List.cons_ne_nil _ _

def askedPair : List (Co × Operation) :=
  [(1, .existsKey [107]), (2, .pipeline ⟨[[[71], [107]], [[75]]], pipeline_ne_nil⟩ none)]

def repliesPair : List (List Reply) := [[.integer 0], [.status [79, 75], .nilBulk]]

/-- The second answer is cut off in its last reply. -/
theorem operations_answered_cut : ∃ c,
    run step start (askedPair.map (fun a => .request a.1 (requestOf 1 a.2)) ++ [.dispatch,
      .data [58, 48], .data [13, 10, 43, 79, 75, 13, 10], .dispatch, .data [36, 45], .close,
      .dispatch]) = some c ∧
    ∃ n, n ≤ askedPair.length ∧
      (c.sock = true ∧ c.delivered = ((askedPair.zip repliesPair).take n).map deliveryOf ∧
          (c.dispatch.isWoken = false → n < askedPair.length →
            ¬ encodeAll (repliesPair.take (n + 1)).flatten <+: c.received) ∨
        c.sock = false ∧ c.socket.connected = false ∧ n < askedPair.length ∧
          ¬ encodeAll (repliesPair.take (n + 1)).flatten <+: c.received ∧
          c.delivered = ((askedPair.zip repliesPair).take n).map deliveryOf ++
            (askedPair.drop n).map fun a => (a.1, .socketError none)) := by
  have hfits : List.Forall₂ (fun (a : Co × Operation) rs => rs.length = (commandsOf a.2).length ∧
      ∀ r ∈ rs, Fits 1 r) askedPair repliesPair := by
    refine .cons ⟨rfl, fun r hr => ?_⟩ (.cons ⟨rfl, fun r hr => ?_⟩ .nil)
    · rw [List.mem_singleton.mp hr]
      exact .integer 0
    · rcases List.mem_cons.mp hr with rfl | hr
      · exact .status (by decide)
      · rw [List.mem_singleton.mp hr]
        exact .nilBulk
  obtain ⟨c, hrun⟩ := Option.isSome_iff_exists.mp (show (run step start (askedPair.map
    (fun a => .request a.1 (requestOf 1 a.2)) ++ [.dispatch, .data [58, 48],
      .data [13, 10, 43, 79, 75, 13, 10], .dispatch, .data [36, 45], .close,
      .dispatch])).isSome = true from rfl)
  have hasked : c.asked = askedPair.map fun a => (a.1, requestOf 1 a.2) := by
    have hmap := congrArg (Option.map Channel.asked) hrun
    exact (Option.some.inj hmap).symm
  have hreceived : c.received <+: encodeAll repliesPair.flatten := by
    have hmap := congrArg (Option.map Channel.received) hrun
    rw [← Option.some.inj hmap]
    exact ⟨[49, 13, 10], rfl⟩
  exact ⟨c, hrun, operations_answered 1 askedPair repliesPair hfits _ c hrun hasked hreceived⟩

/-! ## What the server reads -/

def arrayOf (cmd : List Bytes) : Reply := .array (cmd.map .bulk)

theorem upper_upper (s : Bytes) : upper (upper s) = upper s := by
  have hbyte : ∀ b : UInt8, 97 ≤ b ∧ b ≤ 122 → ¬ (97 ≤ b - 32 ∧ b - 32 ≤ 122) := by
    intro b h
    simp only [UInt8.le_iff_toNat_le, UInt8.toNat_sub] at h ⊢
    simp only [UInt8.toNat_ofNat] at h ⊢
    omega
  rw [upper, upper, List.map_map]
  refine List.map_congr_left fun b _ => ?_
  simp only [Function.comp]
  by_cases h : 97 ≤ b ∧ b ≤ 122
  · rw [if_pos h, if_neg (hbyte b h)]
  · rw [if_neg h, if_neg h]

theorem linesOf_eq (op : Operation) :
    (linesOf op).flatten = encodeAll ((commandsOf op).map arrayOf) := by
  have hone : ∀ r : Reply, encodeAll [r] = encode r := by
    intro r
    rw [encodeAll, encodeAll, List.append_nil]
  cases op with
  | command k msg =>
      rw [linesOf, composeMessage_eq, commandOf, upper_upper]
      exact (hone _).symm
  | existsKey key =>
      rw [linesOf, composeSingle_eq]
      exact (hone _).symm
  | sismember key value =>
      rw [linesOf, composeMessage_eq]
      exact (hone _).symm
  | pipeline ops resp => exact pipelineLines_eq ops.1

theorem value_arrayOf (cmd : List Bytes) :
    value (arrayOf cmd) = (true, .table (cmd.map .string)) := by
  have hvalues : values (cmd.map .bulk) = (true, cmd.map .string) := by
    induction cmd with
    | nil => rfl
    | cons item cmd ih => rw [List.map_cons, values, ih, value]; rfl
  rw [arrayOf, value, hvalues]

/-- What the operations of a client write, in whatever order they come, reads as their commands,
whatever bytes the items are made of. -/
theorem commands_read_back (ops : List Operation)
    (hsmall : ∀ cmd ∈ ops.flatMap commandsOf, cmd.length < 2 ^ 31 ∧
      ∀ item ∈ cmd, item.length < 2 ^ 31) :
    Reads (Reader.count (stream (readResponse 2)) (ops.flatMap commandsOf).length)
      ((ops.flatMap commandsOf).map fun cmd => .ok (true, .table (cmd.map .string)))
      (ops.flatMap fun op => (linesOf op).flatten) := by
  have hwritten : ops.flatMap (fun op => (linesOf op).flatten) =
      ((ops.flatMap commandsOf).map fun cmd => encode (arrayOf cmd)).flatten := by
    clear hsmall
    have hall : ∀ replies : List Reply, encodeAll replies = (replies.map encode).flatten := by
      intro replies
      induction replies with
      | nil => rfl
      | cons r replies ih => rw [encodeAll, ih]; rfl
    induction ops with
    | nil => rfl
    | cons op ops ih =>
        rw [List.flatMap_cons, ih, linesOf_eq, hall, List.flatMap_cons, List.map_append,
          List.flatten_append, List.map_map]
        rfl
  have hcmd : ∀ cmd ∈ ops.flatMap commandsOf, Reads (stream (readResponse 2))
      (.ok (true, .table (cmd.map .string))) (encode (arrayOf cmd)) := by
    intro cmd hcmd
    obtain ⟨hlen, hitems⟩ := hsmall cmd hcmd
    rw [← value_arrayOf]
    refine reads_readResponse 2 (.array (by rw [List.length_map]; exact hlen) fun r hr => ?_)
    obtain ⟨item, hitem, rfl⟩ := List.mem_map.mp hr
    exact .bulk (hitems item hitem)
  have hall : List.Forall₂ (Reads (stream (readResponse 2)))
      ((ops.flatMap commandsOf).map fun cmd => .ok (true, .table (cmd.map .string)))
      ((ops.flatMap commandsOf).map fun cmd => encode (arrayOf cmd)) := by
    rw [List.forall₂_map_left_iff, List.forall₂_map_right_iff]
    exact List.forall₂_same.mpr hcmd
  have hreads := Reader.reads_count hall
  rw [List.length_map] at hreads
  rw [hwritten]
  exact hreads

/-- A key with a line break in it, and a pipeline. -/
theorem commands_read_back_break :
    Reads (Reader.count (stream (readResponse 2))
        ([.existsKey [13, 10, 36], .pipeline ⟨[[[71], [107]], [[75]]], pipeline_ne_nil⟩
          none].flatMap commandsOf).length)
      (([.existsKey [13, 10, 36], .pipeline ⟨[[[71], [107]], [[75]]], pipeline_ne_nil⟩
        none].flatMap commandsOf).map fun cmd => .ok (true, .table (cmd.map .string)))
      ([.existsKey [13, 10, 36], .pipeline ⟨[[[71], [107]], [[75]]], pipeline_ne_nil⟩
        none].flatMap fun op => (linesOf op).flatten) := by
  refine commands_read_back _ fun cmd hcmd => ?_
  have hmem : cmd ∈ [[bytesOf "EXISTS", [13, 10, 36]], [[71], [107]], [[75]]] := hcmd
  simp only [List.mem_cons, List.not_mem_nil, or_false] at hmem
  rcases hmem with rfl | rfl | rfl <;> decide

end Doudizhu.Skynet.Redis
