import Doudizhu.Lua.Decimal
import Doudizhu.Skynet.SocketPrograms

/-! # The Redis driver

`redis.lua`: `compose_message` writes a command, `read_response` reads a reply, and arrays in
replies are read by calling it again.  `Reply` is what the server can answer, with `encode` for
the protocol.

The items of a command are texts already, as `tostring` gives them.  A number is read as an
integer; a reply whose length is a float numeral is not part of this.  `depth` is how many calls
of `read_response` the stack of Lua takes. -/

set_option autoImplicit false

namespace Doudizhu.Skynet.Redis

open Network (Bytes)
open SocketReads (Separator)
open Reader (Reads cutAt cutAt_eq)
open Reading (ret error fdRead fdReadline andThen)

inductive RedisValue where
  | nil
  | string (s : Bytes)
  | number (n : Int)
  | table (items : List RedisValue)

def crlf : Separator := ⟨[13, 10], by decide⟩

def tonumber (data : Bytes) : Option Int :=
  Lua.lStr2int (data.map fun b => Char.ofNat b.toNat)

/-! ## Responses -/

/-- `redcmd[36]`. -/
def bulk (data : Bytes) : Reading (Bool × RedisValue) :=
  match tonumber data with
  | none => error .compare
  | some bytes =>
      if bytes < 0 then ret (true, .nil)
      else (fdRead (bytes + 2).toNat).andThen fun firstline =>
        ret (true, .string (firstline.take (firstline.length - 2)))

section Responses
variable (readResponse : Reading (Bool × RedisValue))

def responses : ℕ → Reading (Bool × List RedisValue)
  | 0 => ret (true, [])
  | n + 1 => readResponse.andThen fun first =>
      (responses n).andThen fun rest => ret (first.1 && rest.1, first.2 :: rest.2)

/-- `redcmd[42]`. -/
def multi (data : Bytes) : Reading (Bool × RedisValue) :=
  match tonumber data with
  | none => error .compare
  | some n =>
      if n < 0 then ret (true, .nil)
      else (responses readResponse n.toNat).andThen fun bulk => ret (bulk.1, .table bulk.2)

def redcmd (firstchar : UInt8) (data : Bytes) : Reading (Bool × RedisValue) :=
  if firstchar = 36 then bulk data
  else if firstchar = 43 then ret (true, .string data)
  else if firstchar = 45 then ret (false, .string data)
  else if firstchar = 58 then ret (true, ((tonumber data).map .number).getD .nil)
  else if firstchar = 42 then multi readResponse data
  else error .call

end Responses

def readResponse : ℕ → Reading (Bool × RedisValue)
  | 0 => error .overflow
  | depth + 1 => (fdReadline crlf).andThen fun result =>
      match result with
      | [] => error .call
      | firstchar :: data => redcmd (readResponse depth) firstchar data

/-! ## Commands -/

def text (n : Int) : Bytes := (Lua.decimal n).map fun c => UInt8.ofNat c.toNat

def upper (s : Bytes) : Bytes := s.map fun b => if 97 ≤ b ∧ b ≤ 122 then b - 32 else b

def headerCache (k : ℕ) : Bytes := crlf.1 ++ 36 :: text k ++ crlf.1

def commandCache (cmd : Bytes) : Bytes := crlf.1 ++ 36 :: text cmd.length ++ crlf.1 ++ upper cmd

def countCache (k : ℕ) : Bytes := 42 :: text k

/-- `compose_message(cmd, msg)` for a table `msg`. -/
def composeMessage (cmd : Bytes) (msg : List Bytes) : List Bytes :=
  [countCache (msg.length + 1), commandCache cmd] ++
    (msg.flatMap fun v => [headerCache v.length, v]) ++ [crlf.1]

/-- `compose_message(cmd, msg)` for anything else. -/
def composeSingle (cmd msg : Bytes) : List Bytes :=
  [[42, 50], commandCache cmd, headerCache msg.length, msg, crlf.1]

/-- `compose_table` adds the lines of one operation of a pipeline. -/
def composeTable (lines : List Bytes) (msg : List Bytes) : List Bytes :=
  lines ++ countCache msg.length :: (msg.flatMap fun v => [headerCache v.length, v]) ++ [crlf.1]

def pipelineLines (ops : List (List Bytes)) : List Bytes := ops.foldl composeTable []

/-! ## The protocol -/

inductive Reply where
  | status (line : Bytes)
  | error (line : Bytes)
  | integer (n : Int64)
  | bulk (s : Bytes)
  | nilBulk
  | array (items : List Reply)
  | nilArray

mutual

def encode : Reply → Bytes
  | .status line => 43 :: line ++ crlf.1
  | .error line => 45 :: line ++ crlf.1
  | .integer n => 58 :: text n.toInt ++ crlf.1
  | .bulk s => 36 :: text s.length ++ crlf.1 ++ (s ++ crlf.1)
  | .nilBulk => 36 :: text (-1) ++ crlf.1
  | .array items => 42 :: text items.length ++ crlf.1 ++ encodeAll items
  | .nilArray => 42 :: text (-1) ++ crlf.1

def encodeAll : List Reply → Bytes
  | [] => []
  | r :: rs => encode r ++ encodeAll rs

end

mutual

/-- What a reply is to the caller, with `false` when there is an error anywhere in it. -/
def value : Reply → Bool × RedisValue
  | .status line => (true, .string line)
  | .error line => (false, .string line)
  | .integer n => (true, .number n.toInt)
  | .bulk s => (true, .string s)
  | .nilBulk => (true, .nil)
  | .array items => ((values items).1, .table (values items).2)
  | .nilArray => (true, .nil)

def values : List Reply → Bool × List RedisValue
  | [] => (true, [])
  | r :: rs => ((value r).1 && (values rs).1, (value r).2 :: (values rs).2)

end

/-- A reply that is nested in at most `depth` levels: a line of it has no line break in it, and
lengths fit in 31 bits. -/
inductive Fits : ℕ → Reply → Prop
  | status {d : ℕ} {line : Bytes} : ¬ crlf.1 <:+: line → Fits (d + 1) (.status line)
  | error {d : ℕ} {line : Bytes} : ¬ crlf.1 <:+: line → Fits (d + 1) (.error line)
  | integer {d : ℕ} (n : Int64) : Fits (d + 1) (.integer n)
  | bulk {d : ℕ} {s : Bytes} : s.length < 2 ^ 31 → Fits (d + 1) (.bulk s)
  | nilBulk {d : ℕ} : Fits (d + 1) .nilBulk
  | array {d : ℕ} {items : List Reply} : items.length < 2 ^ 31 → (∀ r ∈ items, Fits d r) →
      Fits (d + 1) (.array items)
  | nilArray {d : ℕ} : Fits (d + 1) .nilArray

/-! ## Lines and numerals -/

theorem cutAt_crlf {line : Bytes} (h : ¬ crlf.1 <:+: line) (rest : Bytes) :
    cutAt crlf.1 (line ++ (crlf.1 ++ rest)) = some (line, rest) := by
  refine cutAt_eq fun l' r' heq => ?_
  rcases List.append_eq_append_iff.mp heq with ⟨t, hl', -⟩ | ⟨t, hline, htail⟩
  · rw [hl', List.length_append]
    exact Nat.le_add_right _ _
  · -- a break before the end would be inside the line, or a line feed and not a carriage return
    match t, htail with
    | [], _ => rw [hline, List.append_nil]
    | [a], htail =>
        have hne : (10 : UInt8) = 13 := (List.cons.inj (List.cons.inj htail).2).1
        exact absurd hne (by decide)
    | a :: b :: t, htail =>
        have ha : (13 : UInt8) = a := (List.cons.inj htail).1
        have hb : (10 : UInt8) = b := (List.cons.inj (List.cons.inj htail).2).1
        refine absurd ⟨l', t, ?_⟩ h
        rw [hline, ← ha, ← hb, List.append_assoc]
        rfl

theorem mem_decimal {n : Int} {c : Char} (h : c ∈ Lua.decimal n) :
    c.toNat = 45 ∨ 48 ≤ c.toNat ∧ c.toNat ≤ 57 := by
  have hdigit : ∀ {k : ℕ}, c ∈ Nat.toDigits 10 k → 48 ≤ c.toNat ∧ c.toNat ≤ 57 := by
    intro k hk
    exact Char.isDigit_iff_toNat.mp (Lua.isDigit_of_mem_decimal hk)
  cases n with
  | ofNat n => exact .inr (hdigit h)
  | negSucc n =>
      rcases List.mem_cons.mp h with rfl | hmem
      · exact .inl rfl
      · exact .inr (hdigit hmem)

theorem tonumber_text {n : Int} (hlow : -9223372036854775808 ≤ n)
    (hhigh : n ≤ 9223372036854775807) : tonumber (text n) = some n := by
  have hchars : (text n).map (fun b => Char.ofNat b.toNat) = Lua.decimal n := by
    rw [text, List.map_map]
    refine (List.map_congr_left fun c hc => ?_).trans (List.map_id _)
    have hc := mem_decimal hc
    simp only [Function.comp, UInt8.toNat_ofNat', id]
    rw [Nat.mod_eq_of_lt (by omega), Char.ofNat_toNat]
  rw [tonumber, hchars]
  exact Lua.lStr2int_decimal hlow hhigh

theorem not_break_cons {b : UInt8} {line : Bytes} (hb : b ≠ 13) (h : ¬ crlf.1 <:+: line) :
    ¬ crlf.1 <:+: b :: line := by
  intro hinfix
  rcases List.infix_cons_iff.mp hinfix with ⟨t, ht⟩ | hlater
  · exact hb (List.cons.inj ht).1.symm
  · exact h hlater

theorem not_break_text (n : Int) : ¬ crlf.1 <:+: text n := by
  intro h
  have hmem : (13 : UInt8) ∈ text n := h.subset (List.mem_cons_self ..)
  obtain ⟨c, hc, heq⟩ := List.mem_map.mp hmem
  have hc := mem_decimal hc
  have hnat := congrArg UInt8.toNat heq
  rw [UInt8.toNat_ofNat', Nat.mod_eq_of_lt (by omega)] at hnat
  have h13 : (13 : UInt8).toNat = 13 := rfl
  omega

/-! ## Reading a reply -/

section Reading
variable {d : ℕ} {v : Bool × RedisValue}

theorem reads_fdReadline {line : Bytes} (h : ¬ crlf.1 <:+: line) :
    Reads (stream (fdReadline crlf)) (.ok line) (line ++ crlf.1) := by
  intro rest
  rw [fdReadline, stream, List.append_assoc]
  simp only [Reader.bind, Reader.line, cutAt_crlf h]
  rfl

theorem reads_fdRead {sz : ℕ} {bytes : Bytes} (hpos : 0 < sz) (h : bytes.length = sz) :
    Reads (stream (fdRead sz)) (.ok bytes) bytes := by
  rw [fdRead, stream, if_neg (Nat.ne_of_gt hpos)]
  exact (Reader.reads_take (fun _ => ()) h).map Except.ok

theorem reads_ret {A : Type} (a : A) : Reads (stream (ret a)) (.ok a) [] := Reader.reads_pure _

theorem reads_readResponse_succ {firstchar : UInt8} {data enc : Bytes} (hb : firstchar ≠ 13)
    (hdata : ¬ crlf.1 <:+: data)
    (h : Reads (stream (redcmd (readResponse d) firstchar data)) (.ok v) enc) :
    Reads (stream (readResponse (d + 1))) (.ok v) (firstchar :: data ++ crlf.1 ++ enc) :=
  reads_andThen (reads_fdReadline (not_break_cons hb hdata)) h

theorem reads_line {firstchar : UInt8} {data : Bytes} (hb : firstchar ≠ 13)
    (hdata : ¬ crlf.1 <:+: data)
    (h : Reads (stream (redcmd (readResponse d) firstchar data)) (.ok v) []) :
    Reads (stream (readResponse (d + 1))) (.ok v) (firstchar :: data ++ crlf.1) := by
  have hread := reads_readResponse_succ hb hdata h
  rwa [List.append_nil] at hread

theorem reads_bulk {s : Bytes} (h : s.length < 2 ^ 31) :
    Reads (stream (bulk (text s.length))) (.ok (true, .string s)) (s ++ crlf.1) := by
  have hnumber : tonumber (text s.length) = some (s.length : Int) :=
    tonumber_text (by omega) (by omega)
  have hlen : (s ++ crlf.1).length = ((s.length : Int) + 2).toNat := by
    rw [List.length_append]
    have hcrlf : crlf.1.length = 2 := rfl
    omega
  have hread := reads_fdRead (by omega) hlen
  have hret : Reads (stream (ret (true, RedisValue.string ((s ++ crlf.1).take
      ((s ++ crlf.1).length - 2))))) (.ok (true, .string s)) [] := by
    have htake : (s ++ crlf.1).take ((s ++ crlf.1).length - 2) = s := by
      rw [List.length_append, List.take_left' (by have hcrlf : crlf.1.length = 2 := rfl; omega)]
    rw [htake]
    exact reads_ret _
  have hall := reads_andThen (f := fun firstline => ret (true, RedisValue.string
    (firstline.take (firstline.length - 2)))) hread hret
  rw [List.append_nil] at hall
  rw [bulk, hnumber]
  simp only [if_neg (Int.not_lt.mpr (Int.natCast_nonneg s.length))]
  exact hall

theorem reads_responses : ∀ {items : List Reply},
    (∀ r ∈ items, Reads (stream (readResponse d)) (.ok (value r)) (encode r)) →
    Reads (stream (responses (readResponse d) items.length)) (.ok (values items))
      (encodeAll items) := by
  intro items
  induction items with
  | nil => intro _; rw [values, encodeAll]; exact reads_ret _
  | cons r items ih =>
      intro h
      have hr := h r (List.mem_cons_self ..)
      have hitems := ih fun r hr => h r (List.mem_cons_of_mem _ hr)
      have hret := reads_ret ((value r).1 && (values items).1, (value r).2 :: (values items).2)
      have hrest := reads_andThen
        (f := fun rest => ret ((value r).1 && rest.1, (value r).2 :: rest.2)) hitems hret
      rw [List.append_nil] at hrest
      rw [values, encodeAll]
      exact reads_andThen hr hrest

theorem reads_multi {items : List Reply} (hlen : items.length < 2 ^ 31)
    (h : ∀ r ∈ items, Reads (stream (readResponse d)) (.ok (value r)) (encode r)) :
    Reads (stream (multi (readResponse d) (text items.length))) (.ok (value (.array items)))
      (encodeAll items) := by
  have hnumber : tonumber (text items.length) = some (items.length : Int) :=
    tonumber_text (by omega) (by omega)
  have hall := reads_andThen (f := fun bulk => ret (bulk.1, RedisValue.table bulk.2))
    (reads_responses h) (reads_ret _)
  rw [List.append_nil] at hall
  rw [multi, hnumber, value]
  simpa only [if_neg (Int.not_lt.mpr (Int.natCast_nonneg items.length)), Int.toNat_natCast]
    using hall

/-- A reply is read as what it says, and nothing behind it is touched. -/
theorem reads_readResponse (d : ℕ) : ∀ {r : Reply}, Fits d r →
    Reads (stream (readResponse d)) (.ok (value r)) (encode r) := by
  have hminus : tonumber (text (-1)) = some (-1) := tonumber_text (by decide) (by decide)
  induction d with
  | zero => intro r h; cases h
  | succ d ih =>
      intro r h
      cases h with
      | status hline =>
          rw [encode, value]
          exact reads_line (by decide) hline (reads_ret _)
      | error hline =>
          rw [encode, value]
          exact reads_line (by decide) hline (reads_ret _)
      | integer n =>
          have hnumber : tonumber (text n.toInt) = some n.toInt :=
            tonumber_text n.le_toInt (Int.le_of_lt_add_one n.toInt_lt)
          rw [encode, value]
          refine reads_line (by decide) (not_break_text _) ?_
          have hread := reads_ret (true, RedisValue.number n.toInt)
          simpa [redcmd, hnumber] using hread
      | bulk hlen =>
          rw [encode, value]
          exact reads_readResponse_succ (by decide) (not_break_text _) (reads_bulk hlen)
      | nilBulk =>
          rw [encode, value]
          refine reads_line (by decide) (not_break_text _) ?_
          have hread := reads_ret (true, RedisValue.nil)
          simpa [redcmd, bulk, hminus] using hread
      | array hlen hitems =>
          rw [encode]
          exact reads_readResponse_succ (by decide) (not_break_text _)
            (reads_multi hlen fun r hr => ih (hitems r hr))
      | nilArray =>
          rw [encode, value]
          refine reads_line (by decide) (not_break_text _) ?_
          have hread := reads_ret (true, RedisValue.nil)
          simpa [redcmd, multi, hminus] using hread

end Reading

theorem wrapped_responses {p : Reading (Bool × RedisValue)} (h : Wrapped p) :
    ∀ n, Wrapped (responses p n) := by
  intro n
  induction n with
  | zero => trivial
  | succ n ih => exact wrapped_andThen h fun first => wrapped_andThen ih fun rest => trivial

theorem wrapped_readResponse (d : ℕ) : Wrapped (readResponse d) := by
  induction d with
  | zero => trivial
  | succ d ih =>
      refine wrapped_andThen (wrapped_fdReadline crlf) fun result => ?_
      cases result with
      | nil => trivial
      | cons firstchar data =>
          simp only [redcmd, bulk, multi]
          split_ifs
          · split
            · trivial
            · split_ifs with hneg
              · trivial
              · exact wrapped_andThen (wrapped_fdRead (by omega)) fun firstline => trivial
          · trivial
          · trivial
          · trivial
          · split
            · trivial
            · split_ifs
              · trivial
              · exact wrapped_andThen (wrapped_responses ih _) fun bulk => trivial
          · trivial

/-! ## What is written -/

/-- A command as the server has to take it: an array of bulk strings. -/
def commandOf (cmd : Bytes) (msg : List Bytes) : Reply :=
  .array (.bulk (upper cmd) :: msg.map .bulk)

theorem encodeAll_bulk (msg : List Bytes) : crlf.1 ++ encodeAll (msg.map .bulk) =
    (msg.flatMap fun v => [headerCache v.length, v]).flatten ++ crlf.1 := by
  induction msg with
  | nil => rfl
  | cons v msg ih =>
      simp only [List.map_cons, encodeAll, encode, List.flatMap_cons, List.flatten_append,
        List.flatten_cons, List.flatten_nil, List.append_nil, List.append_assoc, headerCache]
        at ih ⊢
      rw [ih]

theorem composeMessage_eq (cmd : Bytes) (msg : List Bytes) :
    (composeMessage cmd msg).flatten = encode (commandOf cmd msg) := by
  have hupper : (upper cmd).length = cmd.length := List.length_map ..
  simp only [composeMessage, commandOf, encode, encodeAll, List.flatten_append, List.flatten_cons,
    List.flatten_nil, List.append_nil, List.append_assoc, List.length_cons, List.length_map,
    ← encodeAll_bulk, countCache, commandCache, hupper]

theorem composeSingle_eq (cmd msg : Bytes) :
    (composeSingle cmd msg).flatten = encode (commandOf cmd [msg]) := by
  rw [← composeMessage_eq]
  simp only [composeSingle, composeMessage, List.flatten_cons, List.flatten_nil, List.append_nil,
    List.flatMap_cons, List.flatMap_nil, List.length_cons, List.length_nil, List.cons_append,
    List.nil_append]
  rfl

theorem composeTable_eq (lines : List Bytes) (msg : List Bytes) :
    (composeTable lines msg).flatten = lines.flatten ++ encode (.array (msg.map .bulk)) := by
  simp only [composeTable, encode, List.flatten_append, List.flatten_cons, List.flatten_nil,
    List.append_nil, List.append_assoc, List.length_map, ← encodeAll_bulk, countCache]

theorem pipelineLines_eq (ops : List (List Bytes)) : (pipelineLines ops).flatten =
    encodeAll (ops.map fun msg => .array (msg.map .bulk)) := by
  have hfold : ∀ (ops : List (List Bytes)) (lines : List Bytes),
      (ops.foldl composeTable lines).flatten =
        lines.flatten ++ encodeAll (ops.map fun msg => .array (msg.map .bulk)) := by
    intro ops
    induction ops with
    | nil => intro lines; simp [encodeAll]
    | cons msg ops ih =>
        intro lines
        rw [List.foldl_cons, ih, composeTable_eq, List.map_cons, encodeAll, List.append_assoc]
  exact hfold ops []

end Doudizhu.Skynet.Redis
