import Doudizhu.Lib.Buffer
import Doudizhu.Network.SocketManager
import Mathlib.Tactic.Ring

/-! # Packing in place

`sproto_pack` and `sproto_unpack` as they run in memory: `none` and `outside` are reads or writes
beyond the ends of a buffer.  A packed stream is a list of items, single groups of eight bytes and
runs of up to 256 groups that are written as they are. -/

set_option autoImplicit false

namespace Doudizhu.Network.SprotoPack

open Buffer (put copy splice put_eq copy_eq length_splice take_splice take_splice_of_le
  splice_splice splice_before)

/-! ## Packing -/

section Pack

def packSegLoop : Bytes → ℕ → ℕ → Int → ℕ → ℕ → Bytes → Option (ℕ × ℕ × Bytes)
  | [], _, _, _, notzero, header, buffer => some (notzero, header, buffer)
  | b :: src, i, pos, sz, notzero, header, buffer =>
      if b ≠ 0 then
        if sz > 0 then (put buffer pos b).bind
          (packSegLoop src (i + 1) (pos + 1) (sz - 1) (notzero + 1) (header ||| 1 <<< i))
        else packSegLoop src (i + 1) pos sz (notzero + 1) (header ||| 1 <<< i) buffer
      else packSegLoop src (i + 1) pos sz notzero header buffer

/-- `pack_seg` at the offset `pos`, with `sz` bytes left in the buffer and `n` groups in the run. -/
def packSeg (src buffer : Bytes) (pos : ℕ) (sz : Int) (n : ℕ) : Option (ℕ × Bytes) :=
  (packSegLoop src 0 (pos + 1) (sz - 1) 0 0 buffer).bind fun result =>
    let (notzero, header, buffer) := result
    let notzero := if (notzero = 7 ∨ notzero = 6) ∧ n > 0 then 8 else notzero
    if notzero = 8 then some (if n > 0 then 8 else 10, buffer)
    else if sz - 1 < 0 then some (notzero + 1, buffer)
    else (put buffer pos (UInt8.ofNat header)).map fun buffer => (notzero + 1, buffer)

def writeFf (src : Bytes) (start : ℕ) (buffer : Bytes) (des n : ℕ) : Option Bytes :=
  let align8 := (n + 7) / 8 * 8
  (put buffer des 255).bind fun buffer =>
    (put buffer (des + 1) (UInt8.ofNat (align8 / 8 - 1))).bind fun buffer =>
      if start + n ≤ src.length then
        (copy buffer (des + 2) ((src.drop start).take n)).bind fun buffer =>
          copy buffer (des + 2 + n) (List.replicate (align8 - n) 0)
      else none

/-- The variables of `sproto_pack`: `size` is also how far the pointer into the buffer has moved,
and what `bufsz` has lost. -/
structure Packing where
  buffer : Bytes
  size : ℕ
  ffN : ℕ
  ffSrcstart : ℕ
  ffDesstart : ℕ

def segment (src : Bytes) (i : ℕ) : Bytes :=
  (src.drop i).take 8 ++ List.replicate (i + 8 - src.length) 0

def writeRun (src : Bytes) (s : Packing) (bufsz : Int) (n : ℕ) : Option Packing :=
  if bufsz ≥ 0 then (writeFf src s.ffSrcstart s.buffer s.ffDesstart n).map fun buffer =>
    { s with buffer := buffer, ffN := 0 }
  else some { s with ffN := 0 }

/-- One round of the loop of `sproto_pack`.  A group with padding is not full, so a run never
starts with one. -/
def packStep (src : Bytes) (i : ℕ) (s : Packing) : Option Packing :=
  let bufsz : Int := s.buffer.length - s.size
  (packSeg (segment src i) s.buffer s.size bufsz s.ffN).bind fun packed =>
    let (n, buffer) := packed
    let bufsz := bufsz - n
    let s' := { s with buffer := buffer, size := s.size + n }
    if n = 10 then some { s' with ffSrcstart := i, ffDesstart := s.size, ffN := 1 }
    else if n = 8 ∧ s.ffN > 0 then
      if s.ffN + 1 = 256 then writeRun src s' bufsz (256 * 8)
      else some { s' with ffN := s.ffN + 1 }
    else if s.ffN > 0 then writeRun src s' bufsz (s.ffN * 8)
    else some s'

def packLoop (src : Bytes) : ℕ → ℕ → Packing → Option Packing
  | 0, _, s => some s
  | rounds + 1, i, s => (packStep src i s).bind (packLoop src rounds (i + 8))

/-- `sproto_pack`: the size that it returns, and the buffer. -/
def sprotoPack (src buffer : Bytes) : Option (ℕ × Bytes) :=
  (packLoop src ((src.length + 7) / 8) 0 ⟨buffer, 0, 0, 0, 0⟩).bind fun s =>
    let bufsz : Int := s.buffer.length - s.size
    if bufsz ≥ 0 then
      if s.ffN = 1 then
        (writeFf src s.ffSrcstart s.buffer s.ffDesstart 8).map fun buffer => (s.size, buffer)
      else if s.ffN > 1 then
        (writeFf src s.ffSrcstart s.buffer s.ffDesstart (src.length - s.ffSrcstart)).map
          fun buffer => (s.size, buffer)
      else some (s.size, s.buffer)
    else some (s.size, s.buffer)

def maxsz (sz : ℕ) : ℕ := (sz + 2047) / 2048 * 2 + sz + 2

end Pack

/-! ## Unpacking -/

section Unpack

structure Unpacking where
  buffer : Bytes
  pos : ℕ
  bufsz : Int
  size : ℕ

inductive Unpacked where
  | outside
  | invalid
  | done (size : ℕ) (buffer : Bytes)

/-- What the loop over the bits of a header comes to. -/
inductive Segment where
  | outside
  | invalid
  | next (src : Bytes) (s : Unpacking)

def store (s : Unpacking) (b : UInt8) : Option Unpacking :=
  if s.bufsz > 0 then (put s.buffer s.pos b).map fun buffer =>
    ⟨buffer, s.pos + 1, s.bufsz - 1, s.size + 1⟩
  else some { s with size := s.size + 1 }

/-- The loop over the bits of `header`; `below` when `srcsz` is -1.  The test of `srcsz` comes one
byte too late, and a byte is read only where there is room for it. -/
def unpackSeg : ℕ → ℕ → Bytes → Bool → Unpacking → Segment
  | 0, _, src, _, s => .next src s
  | rounds + 1, header, src, below, s =>
      if header % 2 = 1 then
        if below then .invalid
        else
          match src with
          | [] =>
              if s.bufsz > 0 then .outside
              else unpackSeg rounds (header / 2) [] true { s with size := s.size + 1 }
          | b :: src =>
              match store s b with
              | none => .outside
              | some s => unpackSeg rounds (header / 2) src false s
      else
        match store s 0 with
        | none => .outside
        | some s => unpackSeg rounds (header / 2) src below s

def unpackLoop : ℕ → Bytes → Unpacking → Unpacked
  | _, [], s => .done s.size s.buffer
  | 0, _ :: _, _ => .outside
  | fuel + 1, header :: src, s =>
      if header = 255 then
        match src with
        | [] => .outside
        | count :: src =>
            let n := (count.toNat + 1) * 8
            if src.length < n then .invalid
            else
              match if s.bufsz ≥ n then copy s.buffer s.pos (src.take n) else some s.buffer with
              | none => .outside
              | some buffer =>
                  unpackLoop fuel (src.drop n) ⟨buffer, s.pos + n, s.bufsz - n, s.size + n⟩
      else
        match unpackSeg 8 header.toNat src false s with
        | .outside => .outside
        | .invalid => .invalid
        | .next src s => unpackLoop fuel src s

def sprotoUnpack (src buffer : Bytes) : Unpacked :=
  unpackLoop src.length src ⟨buffer, 0, buffer.length, 0⟩

end Unpack

/-! ## Packed streams -/

/-- One bit for each byte of a group, set where the byte is not zero. -/
def segHeader : Bytes → ℕ
  | [] => 0
  | b :: group => (if b = 0 then 0 else 1) + 2 * segHeader group

def expand : ℕ → ℕ → Bytes → Option (Bytes × Bytes)
  | 0, _, src => some ([], src)
  | width + 1, header, src =>
      if header % 2 = 1 then
        match src with
        | [] => none
        | b :: src => (expand width (header / 2) src).map fun result => (b :: result.1, result.2)
      else (expand width (header / 2) src).map fun result => (0 :: result.1, result.2)

def padding (bytes : Bytes) : Bytes := List.replicate ((8 - bytes.length % 8) % 8) 0

def nonzero (group : Bytes) : Bytes := group.filter fun b => b ≠ 0

inductive Item where
  | sparse (group : Bytes)
  | dense (groups : List Bytes)

def Item.encode : Item → Bytes
  | .sparse group => UInt8.ofNat (segHeader group) :: nonzero group
  | .dense groups => 255 :: UInt8.ofNat (groups.length - 1) :: groups.flatten

def Item.content : Item → Bytes
  | .sparse group => group
  | .dense groups => groups.flatten

def encodeAll (items : List Item) : Bytes := items.flatMap Item.encode

def contentAll (items : List Item) : Bytes := items.flatMap Item.content

/-- Whether a group belongs to a run that has `n` groups already. -/
def Dense (n : ℕ) (group : Bytes) : Prop :=
  (nonzero group).length = 8 ∨ 6 ≤ (nonzero group).length ∧ 0 < n

instance (n : ℕ) (group : Bytes) : Decidable (Dense n group) := by
  unfold Dense
  infer_instance

/-- The items that are written, and the groups of the run that has not ended. -/
structure Items where
  written : List Item
  run : List Bytes

def Items.flush (r : Items) : List Item :=
  if r.run = [] then r.written else r.written ++ [.dense r.run]

def Items.push (r : Items) (group : Bytes) : Items :=
  if Dense r.run.length group then
    if r.run.length + 1 = 256 then ⟨r.written ++ [.dense (r.run ++ [group])], []⟩
    else ⟨r.written, r.run ++ [group]⟩
  else ⟨r.flush ++ [.sparse group], []⟩

def itemsAfter (src : Bytes) : ℕ → Items
  | 0 => ⟨[], []⟩
  | k + 1 => (itemsAfter src k).push (segment src (8 * k))

/-- The bytes of a run in the buffer, with its two bytes in front. -/
def runSize (n : ℕ) : ℕ := if n = 0 then 0 else 2 + 8 * n

def Items.size (r : Items) : ℕ := (encodeAll r.written).length + runSize r.run.length

/-! ## One group -/

theorem segHeader_lt (group : Bytes) : segHeader group < 2 ^ group.length := by
  induction group with
  | nil => decide
  | cons b group ih =>
      rw [List.length_cons, pow_succ]
      unfold segHeader
      split <;> omega

theorem expand_segHeader : ∀ (group rest : Bytes),
    expand group.length (segHeader group) (nonzero group ++ rest) = some (group, rest) := by
  intro group
  induction group with
  | nil => intro rest; rfl
  | cons b group ih =>
      intro rest
      by_cases hb : b = 0
      · have hhalf : (0 + 2 * segHeader group) / 2 = segHeader group := by omega
        have hnonzero : nonzero (b :: group) = nonzero group := by simp [nonzero, hb]
        rw [hnonzero, hb]
        simp only [List.length_cons, segHeader, if_true, expand, hhalf]
        rw [if_neg (by omega), ih rest]
        rfl
      · have hhalf : (1 + 2 * segHeader group) / 2 = segHeader group := by omega
        have hnonzero : nonzero (b :: group) = b :: nonzero group := by simp [nonzero, hb]
        rw [hnonzero]
        simp only [List.length_cons, segHeader, hb, if_false, expand, hhalf]
        rw [if_pos (by omega)]
        simp only [List.cons_append, ih rest, Option.map_some]

theorem nonzero_cons_zero {b : UInt8} (h : b = 0) (group : Bytes) :
    nonzero (b :: group) = nonzero group := by simp [nonzero, h]

theorem nonzero_cons {b : UInt8} (h : b ≠ 0) (group : Bytes) :
    nonzero (b :: group) = b :: nonzero group := by simp [nonzero, h]

theorem length_nonzero_le (group : Bytes) : (nonzero group).length ≤ group.length :=
  List.length_filter_le ..

theorem or_bit {header i : ℕ} (h : header < 2 ^ i) : header ||| 1 <<< i = header + 2 ^ i := by
  have hor := Nat.two_pow_add_eq_or_of_lt h 1
  rw [Nat.mul_one] at hor
  rw [Nat.one_shiftLeft, Nat.or_comm, ← hor, Nat.add_comm]

theorem packSegLoop_eq : ∀ {src : Bytes} {i pos : ℕ} {sz : Int} {k header : ℕ} {buffer : Bytes},
    header < 2 ^ i → packSegLoop src i pos sz k header buffer =
      (copy buffer pos ((nonzero src).take sz.toNat)).map fun buffer =>
        (k + (nonzero src).length, header + 2 ^ i * segHeader src, buffer) := by
  intro src
  induction src with
  | nil =>
      intro i pos sz k header buffer _
      simp [packSegLoop, nonzero, segHeader, copy]
  | cons b src ih =>
      intro i pos sz k header buffer hheader
      have hpow : 2 ^ (i + 1) = 2 * 2 ^ i := Nat.pow_succ'
      by_cases hb : b = 0
      · have hlater : header < 2 ^ (i + 1) := by omega
        have hbits : 2 ^ (i + 1) * segHeader src = 2 ^ i * segHeader (b :: src) := by
          rw [hpow, segHeader, if_pos hb]
          ring
        rw [packSegLoop, if_neg (not_not.mpr hb), ih hlater, nonzero_cons_zero hb, hbits]
      · have hlater : header + 2 ^ i < 2 ^ (i + 1) := by omega
        have hbits : header + 2 ^ i + 2 ^ (i + 1) * segHeader src =
            header + 2 ^ i * segHeader (b :: src) := by
          rw [hpow, segHeader, if_neg hb]
          ring
        have hcount : k + 1 + (nonzero src).length = k + (nonzero (b :: src)).length := by
          rw [nonzero_cons hb, List.length_cons]
          omega
        rw [packSegLoop, if_pos hb, or_bit hheader]
        split_ifs with hroom
        · obtain ⟨n, rfl⟩ : ∃ n : ℕ, sz = (n + 1 : ℕ) := ⟨(sz - 1).toNat, by omega⟩
          have hless : ((n + 1 : ℕ) : Int) - 1 = (n : ℕ) := by omega
          have htake : (nonzero (b :: src)).take ((n + 1 : ℕ) : Int).toNat =
              b :: (nonzero src).take (n : Int).toNat := by
            rw [nonzero_cons hb]
            rfl
          rw [htake, copy]
          cases put buffer pos b with
          | none => rfl
          | some buffer => rw [Option.bind_some, Option.bind_some, hless, ih hlater, hbits, hcount]
        · have hnone : sz.toNat = 0 := by omega
          rw [ih hlater, hbits, hcount, hnone, List.take_zero, List.take_zero]

theorem packSegLoop_start (src buffer : Bytes) (pos : ℕ) : ∃ bytes,
    packSegLoop src 0 (pos + 1) (buffer.length - pos - 1) 0 0 buffer =
        some ((nonzero src).length, segHeader src, splice buffer (pos + 1) bytes) ∧
      (bytes = [] ∨ pos + 1 + bytes.length ≤ buffer.length) ∧
      (pos + 1 + (nonzero src).length ≤ buffer.length → bytes = nonzero src) := by
  obtain ⟨bytes, hbytes⟩ : ∃ bytes, bytes =
      (nonzero src).take ((buffer.length : Int) - pos - 1).toNat := ⟨_, rfl⟩
  have hlen : bytes.length ≤ ((buffer.length : Int) - pos - 1).toNat := by
    rw [hbytes, List.length_take]
    exact Nat.min_le_left _ _
  have hloop : packSegLoop src 0 (pos + 1) (buffer.length - pos - 1) 0 0 buffer =
      (copy buffer (pos + 1) bytes).map fun buffer =>
        ((nonzero src).length, segHeader src, buffer) := by
    rw [packSegLoop_eq Nat.one_pos, hbytes]
    simp only [Nat.zero_add, pow_zero, Nat.one_mul]
  have hall : pos + 1 + (nonzero src).length ≤ buffer.length → bytes = nonzero src := by
    intro hroom
    rw [hbytes]
    exact List.take_of_length_le (by omega)
  by_cases hroom : pos + 1 + bytes.length ≤ buffer.length
  · rw [copy_eq hroom] at hloop
    exact ⟨bytes, hloop, .inr hroom, hall⟩
  · have hnil : bytes = [] := List.length_eq_zero_iff.mp (by omega)
    rw [hnil, copy, ← Buffer.splice_nil buffer (pos + 1)] at hloop
    exact ⟨bytes, by rw [hnil]; simpa using hloop, .inl hnil, hall⟩

/-- A group that is in no run is written with its header; where there is no room the buffer keeps
its size. -/
theorem packSeg_sparse {src : Bytes} (buffer : Bytes) (pos : ℕ) {n : ℕ} (h : ¬ Dense n src) :
    ∃ buffer', packSeg src buffer pos (buffer.length - pos) n =
        some ((nonzero src).length + 1, buffer') ∧ buffer'.length = buffer.length ∧
      (pos + ((nonzero src).length + 1) ≤ buffer.length →
        buffer' = splice buffer pos (Item.sparse src).encode) := by
  have hsplit := not_or.mp h
  have hlimit : ¬ (((nonzero src).length = 7 ∨ (nonzero src).length = 6) ∧ n > 0) := by
    intro hlimit
    exact hsplit.2 ⟨by omega, hlimit.2⟩
  obtain ⟨bytes, hloop, hinside, hall⟩ := packSegLoop_start src buffer pos
  have hlength : (splice buffer (pos + 1) bytes).length = buffer.length := by
    rcases hinside with rfl | hinside
    · rw [Buffer.splice_nil]
    · exact length_splice hinside
  by_cases hroom : (buffer.length : Int) - pos - 1 < 0
  · refine ⟨_, ?_, hlength, fun hfits => by omega⟩
    simp only [packSeg, hloop, Option.bind_some, if_neg hlimit, if_neg hsplit.1, if_pos hroom]
  · have hpos : pos < (splice buffer (pos + 1) bytes).length := by omega
    refine ⟨splice (splice buffer (pos + 1) bytes) pos [UInt8.ofNat (segHeader src)], ?_, ?_,
      fun hfits => ?_⟩
    · simp only [packSeg, hloop, Option.bind_some, if_neg hlimit, if_neg hsplit.1, if_neg hroom,
        put_eq hpos, Option.map_some]
    · rw [length_splice (by rw [List.length_singleton]; omega), hlength]
    · rw [hall (by omega)]
      have hroom : pos + [UInt8.ofNat (segHeader src)].length ≤ buffer.length := by
        rw [List.length_singleton]
        omega
      exact splice_before hroom

theorem packSeg_dense {src : Bytes} (buffer : Bytes) (pos : ℕ) {n : ℕ} (hlen : src.length = 8)
    (h : Dense n src) :
    ∃ buffer', packSeg src buffer pos (buffer.length - pos) n =
        some (if n > 0 then 8 else 10, buffer') ∧ buffer'.length = buffer.length ∧
      (pos ≤ buffer.length → buffer'.take pos = buffer.take pos) := by
  have hle := length_nonzero_le src
  have height : (if ((nonzero src).length = 7 ∨ (nonzero src).length = 6) ∧ n > 0 then 8
      else (nonzero src).length) = 8 := by
    split_ifs with hlimit
    · rfl
    · rcases h with h | h
      · exact h
      · by_contra hne
        exact hlimit ⟨by omega, h.2⟩
  obtain ⟨bytes, hloop, hinside, -⟩ := packSegLoop_start src buffer pos
  refine ⟨splice buffer (pos + 1) bytes, ?_, ?_, fun _ => ?_⟩
  · simp only [packSeg, hloop, Option.bind_some, height, if_true]
  · rcases hinside with rfl | hinside
    · rw [Buffer.splice_nil]
    · exact length_splice hinside
  · rcases hinside with rfl | hinside
    · rw [Buffer.splice_nil]
    · exact take_splice_of_le (by omega) (Nat.le_succ pos)

/-! ## One run -/

/-- The bytes of a run are put in front of what was written behind them. -/
theorem writeFf_eq {src buffer : Bytes} {start des n : ℕ} {groups : List Bytes}
    (hsrc : start + n ≤ src.length) (hn : (n + 7) / 8 = groups.length)
    (hcontent : (src.drop start).take n ++ List.replicate (groups.length * 8 - n) 0 =
      groups.flatten)
    (hroom : des + (2 + 8 * groups.length) ≤ buffer.length) :
    writeFf src start buffer des n = some (splice buffer des (Item.dense groups).encode) := by
  obtain ⟨count, hcount⟩ : ∃ count, count = UInt8.ofNat (groups.length - 1) := ⟨_, rfl⟩
  obtain ⟨bytes, hbytes⟩ : ∃ bytes, bytes = (src.drop start).take n := ⟨_, rfl⟩
  have hlen : bytes.length = n := by
    rw [hbytes, List.length_take, List.length_drop]
    omega
  have hzeros := List.length_replicate (n := groups.length * 8 - n) (a := (0 : UInt8))
  have hfirst := put_eq (show des < buffer.length by omega) 255
  have hlength : (splice buffer des [255]).length = buffer.length :=
    length_splice (by rw [List.length_singleton]; omega)
  have hsecond := put_eq (show des + 1 < (splice buffer des [255]).length by omega) count
  have hheader : splice (splice buffer des [255]) (des + 1) [count] =
      splice buffer des [255, count] :=
    splice_splice (show des + [(255 : UInt8)].length ≤ _ by rw [List.length_singleton]; omega)
  have hlength' : (splice buffer des [255, count]).length = buffer.length :=
    length_splice (show des + 2 ≤ buffer.length by omega)
  have hcopy : copy (splice buffer des [255, count]) (des + 2) bytes =
      some (splice buffer des ([255, count] ++ bytes)) := by
    rw [copy_eq (by omega)]
    exact congrArg some (splice_splice (show des + 2 ≤ buffer.length by omega))
  have hlast : copy (splice buffer des ([255, count] ++ bytes)) (des + 2 + n)
      (List.replicate (groups.length * 8 - n) 0) =
      some (splice buffer des (([255, count] ++ bytes) ++
        List.replicate (groups.length * 8 - n) 0)) := by
    have hsize : ([255, count] ++ bytes).length = 2 + n := by
      rw [List.length_append, hlen]
      rfl
    have hinside : des + ([255, count] ++ bytes).length ≤ buffer.length := by omega
    have hlong := length_splice hinside
    rw [copy_eq (by omega), Nat.add_assoc, ← hsize]
    exact congrArg some (splice_splice hinside)
  simp only [writeFf, hn, hfirst, Option.bind_some]
  rw [show groups.length * 8 / 8 - 1 = groups.length - 1 by omega, ← hcount, hsecond,
    Option.bind_some, if_pos hsrc, hheader, ← hbytes, hcopy, Option.bind_some, hlast,
    List.append_assoc, hbytes, hcontent, hcount]
  rfl

/-! ## Items -/

theorem encodeAll_append (items items' : List Item) :
    encodeAll (items ++ items') = encodeAll items ++ encodeAll items' := List.flatMap_append ..

theorem encodeAll_singleton (item : Item) : encodeAll [item] = item.encode := by
  simp [encodeAll]

theorem contentAll_append (items items' : List Item) :
    contentAll (items ++ items') = contentAll items ++ contentAll items' := List.flatMap_append ..

theorem contentAll_singleton (item : Item) : contentAll [item] = item.content := by
  simp [contentAll]

theorem length_flatten {groups : List Bytes} (h : ∀ group ∈ groups, group.length = 8) :
    groups.flatten.length = 8 * groups.length := by
  induction groups with
  | nil => rfl
  | cons group groups ih =>
      have hgroup := h group (List.mem_cons_self ..)
      have hgroups := ih fun g hg => h g (List.mem_cons_of_mem _ hg)
      rw [List.flatten_cons, List.length_append, List.length_cons]
      omega

def Items.content (r : Items) : Bytes := contentAll r.written ++ r.run.flatten

/-- A single group has a zero byte, so its header is not 255. -/
def Item.Ok : Item → Prop
  | .sparse group => group.length = 8 ∧ (nonzero group).length < 8
  | .dense groups => (∀ group ∈ groups, group.length = 8) ∧ 0 < groups.length ∧
      groups.length ≤ 256

/-- The run has whole groups, and not so many that it is written. -/
structure Items.Ok (r : Items) : Prop where
  items : ∀ item ∈ r.written, item.Ok
  groups : ∀ group ∈ r.run, group.length = 8
  short : r.run.length < 256

section Push
variable {r : Items} {group : Bytes}

theorem content_flush (r : Items) : contentAll r.flush = r.content := by
  unfold Items.flush Items.content
  split_ifs with hrun
  · rw [hrun, List.flatten_nil, List.append_nil]
  · rw [contentAll_append, contentAll_singleton]
    rfl

theorem length_encode_dense {groups : List Bytes} (h : ∀ group ∈ groups, group.length = 8) :
    (Item.dense groups).encode.length = 2 + 8 * groups.length := by
  rw [Item.encode, List.length_cons, List.length_cons, length_flatten h]
  omega

theorem length_encode_sparse (group : Bytes) :
    (Item.sparse group).encode.length = (nonzero group).length + 1 := rfl

theorem size_of_run (hrun : r.run ≠ []) :
    r.size = (encodeAll r.written).length + (2 + 8 * r.run.length) := by
  have hne : r.run.length ≠ 0 := fun hzero => hrun (List.length_eq_zero_iff.mp hzero)
  rw [Items.size, runSize, if_neg hne]

theorem size_of_no_run (hrun : r.run = []) : r.size = (encodeAll r.written).length := by
  rw [Items.size, hrun]
  rfl

theorem encode_flush (hrun : r.run ≠ []) :
    encodeAll r.flush = encodeAll r.written ++ (Item.dense r.run).encode := by
  rw [Items.flush, if_neg hrun, encodeAll_append, encodeAll_singleton]

theorem length_flush (h : r.Ok) : (encodeAll r.flush).length = r.size := by
  by_cases hrun : r.run = []
  · rw [Items.flush, if_pos hrun, size_of_no_run hrun]
  · rw [encode_flush hrun, List.length_append, length_encode_dense h.groups, size_of_run hrun]

theorem content_push (r : Items) (group : Bytes) :
    (r.push group).content = r.content ++ group := by
  unfold Items.push
  split_ifs
  · simp only [Items.content, contentAll_append, contentAll_singleton, Item.content,
      List.flatten_append, List.flatten_cons, List.flatten_nil, List.append_nil, List.append_assoc]
  · simp only [Items.content, List.flatten_append, List.flatten_cons, List.flatten_nil,
      List.append_nil, List.append_assoc]
  · rw [Items.content, contentAll_append, content_flush, contentAll_singleton, List.flatten_nil,
      List.append_nil]
    rfl

theorem ok_flush (h : r.Ok) : ∀ item ∈ r.flush, item.Ok := by
  have hshort := h.short
  unfold Items.flush
  split_ifs with hrun
  · exact h.items
  · intro item hitem
    rcases List.mem_append.mp hitem with hold | hnew
    · exact h.items item hold
    · rw [List.mem_singleton.mp hnew]
      exact ⟨h.groups, List.length_pos_iff.mpr hrun, by omega⟩

theorem groups_concat (h : r.Ok) (hgroup : group.length = 8) :
    ∀ g ∈ r.run ++ [group], g.length = 8 := by
  intro g hg
  rcases List.mem_append.mp hg with hold | hnew
  · exact h.groups g hold
  · rw [List.mem_singleton.mp hnew]
    exact hgroup

theorem ok_push (h : r.Ok) (hgroup : group.length = 8) : (r.push group).Ok := by
  have hshort := h.short
  have hgroups := groups_concat h hgroup
  unfold Items.push
  split_ifs with hdense hfull
  · refine ⟨fun item hitem => ?_, fun g hg => (by cases hg), Nat.succ_pos _⟩
    rcases List.mem_append.mp hitem with hold | hnew
    · exact h.items item hold
    · rw [List.mem_singleton.mp hnew, Item.Ok, List.length_append, List.length_singleton]
      exact ⟨hgroups, by omega, by omega⟩
  · refine ⟨h.items, hgroups, ?_⟩
    rw [List.length_append, List.length_singleton]
    omega
  · refine ⟨fun item hitem => ?_, fun g hg => (by cases hg), Nat.succ_pos _⟩
    rcases List.mem_append.mp hitem with hold | hnew
    · exact ok_flush h item hold
    · have hle := length_nonzero_le group
      have hne := (not_or.mp hdense).1
      rw [List.mem_singleton.mp hnew, Item.Ok]
      exact ⟨hgroup, by omega⟩

theorem size_push (h : r.Ok) (hgroup : group.length = 8) : (r.push group).size = r.size +
    if Dense r.run.length group then (if r.run.length > 0 then 8 else 10)
    else (nonzero group).length + 1 := by
  have hflush := length_flush h
  unfold Items.push
  split_ifs with hdense hfull hrun hrun
  · have hne : r.run.length ≠ 0 := by omega
    have hlen := length_encode_dense (groups_concat h hgroup)
    simp only [List.length_append, List.length_singleton] at hlen
    simp only [Items.size, encodeAll_append, encodeAll_singleton, List.length_append,
      List.length_nil, runSize, if_true, hlen, if_neg hne]
    omega
  · omega
  · have hne : r.run.length ≠ 0 := by omega
    simp only [Items.size, List.length_append, List.length_singleton, runSize, if_neg hne,
      if_neg (Nat.succ_ne_zero _)]
    omega
  · have hzero : r.run.length = 0 := by omega
    simp only [Items.size, List.length_append, List.length_singleton, runSize, hzero]
    rfl
  · simp only [Items.size, encodeAll_append, encodeAll_singleton, List.length_append,
      length_encode_sparse, hflush, runSize, List.length_nil, if_true]
    omega

theorem length_run_push (r : Items) (group : Bytes) : (r.push group).run.length =
    if Dense r.run.length group then (if r.run.length + 1 = 256 then 0 else r.run.length + 1)
    else 0 := by
  unfold Items.push
  split_ifs
  · rfl
  · rw [List.length_append, List.length_singleton]
  · rfl

end Push

theorem length_segment {src : Bytes} {i : ℕ} (h : i ≤ src.length) :
    (segment src i).length = 8 := by
  simp only [segment, List.length_append, List.length_take, List.length_drop,
    List.length_replicate]
  omega

theorem length_nonzero_segment (src : Bytes) (i : ℕ) :
    (nonzero (segment src i)).length ≤ src.length - i := by
  have hle := length_nonzero_le ((src.drop i).take 8)
  have hsplit : nonzero (segment src i) = nonzero ((src.drop i).take 8) := by
    have hzeros : nonzero (List.replicate (i + 8 - src.length) 0) = [] := by
      simp [nonzero]
    rw [segment, nonzero, List.filter_append]
    exact (congrArg _ hzeros).trans (List.append_nil _)
  rw [List.length_take, List.length_drop] at hle
  rw [hsplit]
  omega

theorem ok_itemsAfter {src : Bytes} : ∀ {k : ℕ}, 8 * k < src.length + 8 →
    (itemsAfter src k).Ok := by
  intro k
  induction k with
  | zero =>
      intro _
      exact ⟨fun item hitem => (by cases hitem), fun g hg => (by cases hg), Nat.succ_pos _⟩
  | succ k ih => intro h; exact ok_push (ih (by omega)) (length_segment (by omega))

theorem content_itemsAfter {src : Bytes} : ∀ {k : ℕ}, 8 * k ≤ src.length →
    (itemsAfter src k).content = src.take (8 * k) := by
  intro k
  induction k with
  | zero => intro _; rfl
  | succ k ih =>
      intro h
      have hzero : 8 * k + 8 - src.length = 0 := by omega
      rw [itemsAfter, content_push, ih (by omega), segment, hzero, List.replicate_zero,
        List.append_nil, Nat.mul_succ, List.take_add]

/-! ## The loop -/

/-- The variables after the groups before `i`, with the items `r`; the buffer is right as long as
there is room. -/
structure Tracks (bufsz : ℕ) (s : Packing) (r : Items) (i : ℕ) : Prop where
  length : s.buffer.length = bufsz
  size : s.size = r.size
  ffN : s.ffN = r.run.length
  ffDesstart : r.run ≠ [] → s.ffDesstart = (encodeAll r.written).length
  ffSrcstart : r.run ≠ [] → s.ffSrcstart + 8 * r.run.length = i
  written : r.size ≤ bufsz →
    s.buffer.take (encodeAll r.written).length = encodeAll r.written

theorem tracks_start (buffer : Bytes) :
    Tracks buffer.length ⟨buffer, 0, 0, 0, 0⟩ ⟨[], []⟩ 0 :=
  ⟨rfl, rfl, rfl, fun h => absurd rfl h, fun h => absurd rfl h, fun _ => rfl⟩

theorem tracks_between {bufsz i : ℕ} {s : Packing} {r : Items} (hrun : r.run = [])
    (hlength : s.buffer.length = bufsz) (hsize : s.size = r.size) (hffN : s.ffN = 0)
    (hwritten : s.size ≤ bufsz →
      s.buffer.take (encodeAll r.written).length = encodeAll r.written) :
    Tracks bufsz s r i := by
  refine ⟨hlength, hsize, ?_, fun hne => absurd hrun hne, fun hne => absurd hrun hne, ?_⟩
  · rw [hffN, hrun, List.length_nil]
  · intro hroom
    exact hwritten (hsize.trans_le hroom)

theorem source_of_content {src items : Bytes} {groups : List Bytes} {start j : ℕ}
    (hcontent : items ++ groups.flatten = src.take j) (hj : j ≤ src.length)
    (hstart : start + groups.flatten.length = j) :
    (src.drop start).take groups.flatten.length = groups.flatten := by
  have hlen := congrArg List.length hcontent
  rw [List.length_append, List.length_take_of_le hj] at hlen
  have hitems : items.length = start := by omega
  have hdrop := congrArg (List.drop start) hcontent
  rw [List.drop_left' hitems, List.drop_take] at hdrop
  rw [hdrop, List.length_take, List.length_drop]
  congr 1
  omega

theorem take_written {buffer written bytes : Bytes} (hroom : written.length ≤ buffer.length)
    (h : buffer.take written.length = written) :
    (splice buffer written.length bytes).take (written ++ bytes).length = written ++ bytes := by
  rw [List.length_append, take_splice hroom, h]

section Step
variable {src : Bytes} {bufsz i : ℕ} {s : Packing} {r : Items} (h : Tracks bufsz s r i) (hr : r.Ok)
  (hcontent : r.content = src.take i) (hi : i ≤ src.length)

include h hr hcontent hi in
theorem writeRun_ended (hrun : r.run ≠ []) {buffer : Bytes} {size : ℕ} {item : Item}
    (hlength : buffer.length = bufsz) (hsize : size = r.size + item.encode.length)
    (hbuffer : size ≤ bufsz → buffer = splice s.buffer s.size item.encode) :
    ∃ buffer', writeRun src { s with buffer := buffer, size := size }
        ((bufsz : Int) - size) (s.ffN * 8) =
          some { s with buffer := buffer', size := size, ffN := 0 } ∧
      buffer'.length = bufsz ∧ (size ≤ bufsz →
        buffer'.take (encodeAll (r.flush ++ [item])).length = encodeAll (r.flush ++ [item])) := by
  unfold writeRun
  split_ifs with hroom
  · have hfits : size ≤ bufsz := by omega
    have hflat := length_flatten hr.groups
    have hdense := length_encode_dense hr.groups
    have hstart := h.ffSrcstart hrun
    have hdes := h.ffDesstart hrun
    have hlen : r.size = s.ffDesstart + (Item.dense r.run).encode.length := by
      rw [size_of_run hrun, hdense, hdes]
    have hsource := source_of_content hcontent hi (by rw [hflat]; exact hstart)
    have hn : s.ffN * 8 = r.run.flatten.length := by rw [h.ffN, hflat, Nat.mul_comm]
    have hwrite : writeFf src s.ffSrcstart buffer s.ffDesstart (s.ffN * 8) =
        some (splice buffer s.ffDesstart (Item.dense r.run).encode) := by
      refine writeFf_eq (by omega) (by rw [h.ffN]; omega) ?_ (by omega)
      rw [h.ffN, Nat.sub_self, List.replicate_zero, List.append_nil, ← h.ffN, hn, hsource]
    refine ⟨splice buffer s.ffDesstart (Item.dense r.run).encode, ?_, ?_, fun _ => ?_⟩
    · simp only [hwrite, Option.map_some]
    · rw [length_splice (by omega), hlength]
    · have hbefore : splice buffer s.ffDesstart (Item.dense r.run).encode =
          splice s.buffer s.ffDesstart ((Item.dense r.run).encode ++ item.encode) := by
        rw [hbuffer hfits, h.size, hlen]
        exact splice_before (by rw [h.length]; omega)
      rw [hbefore, encodeAll_append, encodeAll_singleton, encode_flush hrun, List.append_assoc,
        hdes]
      exact take_written (by rw [h.length]; omega) (h.written (by omega))
  · exact ⟨buffer, rfl, hlength, fun hfits => by omega⟩

include h in
theorem take_encoded {buffer : Bytes}
    (htake : s.size ≤ s.buffer.length → buffer.take s.size = s.buffer.take s.size)
    (hroom : r.size ≤ bufsz) :
    buffer.take (encodeAll r.written).length = encodeAll r.written := by
  have hle : (encodeAll r.written).length ≤ s.size := by
    rw [h.size]
    exact Nat.le_add_right _ _
  have hsame := congrArg (List.take (encodeAll r.written).length)
    (htake (by rw [h.size, h.length]; exact hroom))
  rw [List.take_take, List.take_take, Nat.min_eq_left hle] at hsame
  rw [hsame]
  exact h.written hroom

include h hr in
/-- A group starts a run, or belongs to one that is not yet full. -/
theorem packStep_dense (hsegment : (segment src i).length = 8)
    (hdense : Dense r.run.length (segment src i)) (hshort : r.run.length + 1 ≠ 256) :
    ∃ s', packStep src i s = some s' ∧ Tracks bufsz s' (r.push (segment src i)) (i + 8) := by
  have hsize := size_push hr hsegment
  rw [if_pos hdense] at hsize
  obtain ⟨buffer, hpack, hlength, htake⟩ := packSeg_dense s.buffer s.size hsegment hdense
  have hpush : r.push (segment src i) = ⟨r.written, r.run ++ [segment src i]⟩ := by
    rw [Items.push, if_pos hdense, if_neg hshort]
  have hroom : (r.push (segment src i)).size ≤ bufsz → r.size ≤ bufsz := by
    intro hroom
    rw [hsize] at hroom
    exact Nat.le_of_add_right_le hroom
  by_cases hrun : r.run.length > 0
  · rw [if_pos hrun] at hpack hsize
    refine ⟨{ s with buffer := buffer, size := s.size + 8, ffN := s.ffN + 1 }, ?_, ?_⟩
    · have hless : r.run.length ≠ 255 := fun hfull => hshort (by rw [hfull])
      simp only [packStep, h.ffN, hpack, Option.bind_some, Nat.reduceEqDiff, if_false, true_and,
        if_pos hrun, if_neg hless]
    · refine ⟨hlength.trans h.length, ?_, ?_, fun _ => ?_, fun _ => ?_, fun hroom' => ?_⟩
      · rw [hsize, ← h.size]
      · rw [hpush, List.length_append, ← h.ffN]
        rfl
      · rw [hpush]
        exact h.ffDesstart (List.length_pos_iff.mp hrun)
      · rw [hpush, List.length_append, List.length_singleton, Nat.mul_succ,
          ← Nat.add_assoc]
        exact congrArg (fun j => j + 8) (h.ffSrcstart (List.length_pos_iff.mp hrun))
      · rw [hpush]
        exact take_encoded h htake (hroom hroom')
  · have hnil : r.run = [] := List.length_eq_zero_iff.mp (by omega)
    rw [if_neg hrun] at hpack hsize
    refine ⟨⟨buffer, s.size + 10, 1, i, s.size⟩, ?_, ?_⟩
    · simp only [packStep, h.ffN, hpack, Option.bind_some, if_true]
    · refine ⟨hlength.trans h.length, ?_, ?_, fun _ => ?_, fun _ => ?_, fun hroom' => ?_⟩
      · rw [hsize, ← h.size]
      · rw [hpush, hnil]
        rfl
      · rw [hpush, h.size, Items.size, hnil]
        rfl
      · rw [hpush, hnil]
        rfl
      · rw [hpush]
        exact take_encoded h htake (hroom hroom')

include h hr hcontent in
theorem packStep_full (hi : i + 8 ≤ src.length) (hsegment : (segment src i).length = 8)
    (hdense : Dense r.run.length (segment src i)) (hfull : r.run.length + 1 = 256) :
    ∃ s', packStep src i s = some s' ∧ Tracks bufsz s' (r.push (segment src i)) (i + 8) := by
  have hsize := size_push hr hsegment
  have hrun : r.run.length > 0 := by omega
  have hne : r.run ≠ [] := List.length_pos_iff.mp hrun
  rw [if_pos hdense, if_pos hrun] at hsize
  obtain ⟨buffer, hpack, hlength, htake⟩ := packSeg_dense s.buffer s.size hsegment hdense
  rw [if_pos hrun] at hpack
  obtain ⟨groups, hgroups⟩ : ∃ groups, groups = r.run ++ [segment src i] := ⟨_, rfl⟩
  have hpush : r.push (segment src i) = ⟨r.written ++ [.dense groups], []⟩ := by
    rw [Items.push, if_pos hdense, if_pos hfull, hgroups]
  have hlen8 : ∀ g ∈ groups, g.length = 8 := by
    rw [hgroups]
    exact groups_concat hr hsegment
  have hcount : groups.length = 256 := by
    rw [hgroups, List.length_append]
    exact hfull
  have hflat := length_flatten hlen8
  have hdense256 := length_encode_dense hlen8
  rw [hcount] at hflat hdense256
  have hdes := h.ffDesstart hne
  have hstart := h.ffSrcstart hne
  have hold := size_of_run hne
  have hwhole : contentAll r.written ++ groups.flatten = src.take (i + 8) := by
    have hzero : i + 8 - src.length = 0 := by omega
    rw [hgroups, List.flatten_append, List.flatten_cons, List.flatten_nil, List.append_nil,
      ← List.append_assoc]
    change r.content ++ segment src i = _
    rw [hcontent, segment, hzero, List.replicate_zero, List.append_nil, List.take_add]
  have hsource : (src.drop s.ffSrcstart).take groups.flatten.length = groups.flatten :=
    source_of_content hwhole hi (by rw [hflat]; omega)
  have hstep : packStep src i s = writeRun src { s with buffer := buffer, size := s.size + 8 }
      (((s.buffer.length : ℕ) : Int) - s.size - (8 : ℕ)) (256 * 8) := by
    have hlast : r.run.length = 255 := Nat.succ.inj hfull
    simp only [packStep, h.ffN, hpack, Option.bind_some, Nat.reduceEqDiff, if_false, true_and,
      if_pos hrun, if_pos hlast]
  rw [hstep, writeRun]
  by_cases hroom : ((s.buffer.length : ℕ) : Int) - s.size - (8 : ℕ) ≥ 0
  · have hfits : s.ffDesstart + (2 + 8 * groups.length) ≤ buffer.length := by
      have hsame := h.size
      omega
    have hwrite : writeFf src s.ffSrcstart buffer s.ffDesstart (256 * 8) =
        some (splice buffer s.ffDesstart (Item.dense groups).encode) := by
      refine writeFf_eq (by omega) (by rw [hcount]) ?_ hfits
      rw [hcount, Nat.sub_self, List.replicate_zero, List.append_nil, ← hflat, hsource]
    refine ⟨{ s with
      buffer := splice buffer s.ffDesstart (Item.dense groups).encode
      size := s.size + 8
      ffN := 0 }, ?_, ?_⟩
    · rw [if_pos hroom]
      simp only [hwrite, Option.map_some]
    · refine tracks_between (by rw [hpush]) ?_ (by rw [hsize, ← h.size]) rfl fun hroom' => ?_
      · rw [length_splice (by omega), hlength, h.length]
      · have hfit : s.size + 8 ≤ bufsz := hroom'
        have hsame := h.size
        rw [hpush, encodeAll_append, encodeAll_singleton, hdes]
        exact take_written (by omega) (take_encoded h htake (by omega))
  · refine ⟨{ s with buffer := buffer, size := s.size + 8, ffN := 0 }, by rw [if_neg hroom], ?_⟩
    refine tracks_between (by rw [hpush]) (hlength.trans h.length) (by rw [hsize, ← h.size]) rfl
      fun hroom' => ?_
    have hfit : s.size + 8 ≤ bufsz := hroom'
    have hlen := h.length
    omega

include h hr hcontent hi in
theorem packStep_sparse (hsegment : (segment src i).length = 8)
    (hsparse : ¬ Dense r.run.length (segment src i)) :
    ∃ s', packStep src i s = some s' ∧ Tracks bufsz s' (r.push (segment src i)) (i + 8) := by
  have hsize := size_push hr hsegment
  rw [if_neg hsparse] at hsize
  obtain ⟨buffer, hpack, hlength, hbuffer⟩ := packSeg_sparse s.buffer s.size hsparse
  have hpush : r.push (segment src i) = ⟨r.flush ++ [.sparse (segment src i)], []⟩ := by
    rw [Items.push, if_neg hsparse]
  have hle := length_nonzero_le (segment src i)
  have hsplit := not_or.mp hsparse
  obtain ⟨n, hn⟩ : ∃ n, n = (nonzero (segment src i)).length + 1 := ⟨_, rfl⟩
  rw [← hn] at hpack hsize hbuffer
  have hten : n ≠ 10 := by omega
  have hencode : (Item.sparse (segment src i)).encode.length = n := by
    rw [length_encode_sparse, hn]
  have hafter : ∀ s' : Packing, s'.buffer.length = bufsz → s'.size = s.size + n → s'.ffN = 0 →
      (s'.size ≤ bufsz → s'.buffer.take (encodeAll (r.flush ++ [.sparse (segment src i)])).length =
        encodeAll (r.flush ++ [.sparse (segment src i)])) →
      Tracks bufsz s' (r.push (segment src i)) (i + 8) := by
    intro s' hlength' hsize' hffN hwritten
    refine tracks_between (by rw [hpush]) hlength' ?_ hffN ?_
    · rw [hsize', hsize, h.size]
    · rw [hpush]
      exact hwritten
  by_cases hrun : r.run.length > 0
  · have height : n ≠ 8 := by
      intro height
      exact hsplit.2 ⟨by omega, hrun⟩
    obtain ⟨buffer', hwrite, hlength', hwritten⟩ := writeRun_ended h hr hcontent hi
      (List.length_pos_iff.mp hrun) (hlength.trans h.length)
      (show s.size + n = r.size + (Item.sparse (segment src i)).encode.length by
        rw [hencode, h.size])
      (fun hroom => hbuffer (by rw [h.length]; exact hroom))
    have hbufsz : ((s.buffer.length : ℕ) : Int) - s.size - n =
        (bufsz : Int) - (s.size + n : ℕ) := by
      rw [h.length]
      omega
    refine ⟨{ s with buffer := buffer', size := s.size + n, ffN := 0 }, ?_,
      hafter _ hlength' rfl rfl hwritten⟩
    simp only [packStep, h.ffN, hpack, Option.bind_some, if_neg hten, height, false_and, if_false,
      if_pos hrun]
    rw [hbufsz, ← h.ffN]
    exact hwrite
  · have hnil : r.run = [] := List.length_eq_zero_iff.mp (by omega)
    have hflush : r.flush = r.written := by rw [Items.flush, if_pos hnil]
    have hplain : s.size = (encodeAll r.written).length := h.size.trans (size_of_no_run hnil)
    refine ⟨{ s with buffer := buffer, size := s.size + n }, ?_,
      hafter _ (hlength.trans h.length) rfl ?_ fun hroom => ?_⟩
    · have hand : ¬ (n = 8 ∧ r.run.length > 0) := fun hand => hrun hand.2
      simp only [packStep, h.ffN, hpack, Option.bind_some, if_neg hten, if_neg hand, if_neg hrun]
    · rw [h.ffN, hnil]
      rfl
    · have hroom' : s.size + n ≤ bufsz := hroom
      rw [hflush, encodeAll_append, encodeAll_singleton, hbuffer (by rw [h.length]; exact hroom'),
        hplain]
      exact take_written (by rw [h.length, ← hplain]; omega) (h.written (by rw [← h.size]; omega))

/-- The group at `i` has bytes beyond the end of `src` and fills a run: `write_ff` reads them. -/
def Overruns (src : Bytes) (r : Items) (i : ℕ) : Prop :=
  src.length < i + 8 ∧ Dense r.run.length (segment src i) ∧ r.run.length + 1 = 256

include h hr hcontent hi in
theorem packStep_eq (hinside : ¬ Overruns src r i) :
    ∃ s', packStep src i s = some s' ∧ Tracks bufsz s' (r.push (segment src i)) (i + 8) := by
  have hsegment := length_segment hi
  by_cases hdense : Dense r.run.length (segment src i)
  · by_cases hfull : r.run.length + 1 = 256
    · refine packStep_full h hr hcontent ?_ hsegment hdense hfull
      by_contra hshort
      exact hinside ⟨by omega, hdense, hfull⟩
    · exact packStep_dense h hr hsegment hdense hfull
  · exact packStep_sparse h hr hcontent hi hsegment hdense

include h hi in
theorem packStep_none (hroom : r.size + 8 ≤ bufsz) (hover : Overruns src r i) :
    packStep src i s = none := by
  obtain ⟨hshort, hdense, hfull⟩ := hover
  have hsegment := length_segment hi
  have hrun : r.run.length > 0 := by omega
  have hstart := h.ffSrcstart (List.length_pos_iff.mp hrun)
  have hdes := h.ffDesstart (List.length_pos_iff.mp hrun)
  have hsize := h.size
  have hlen := h.length
  obtain ⟨buffer, hpack, hlength, -⟩ := packSeg_dense s.buffer s.size hsegment hdense
  rw [if_pos hrun] at hpack
  have hlast : r.run.length = 255 := Nat.succ.inj hfull
  have hbufsz : ((s.buffer.length : ℕ) : Int) - s.size - (8 : ℕ) ≥ 0 := by omega
  have hold := size_of_run (List.length_pos_iff.mp hrun)
  have hwrite : writeFf src s.ffSrcstart buffer s.ffDesstart (256 * 8) = none := by
    have hfirst := put_eq (show s.ffDesstart < buffer.length by omega) 255
    have hfits : s.ffDesstart + [(255 : UInt8)].length ≤ buffer.length := by
      rw [List.length_singleton]
      omega
    have hlength' := length_splice hfits
    have hsecond := put_eq (show s.ffDesstart + 1 < (splice buffer s.ffDesstart [255]).length by
      omega) (UInt8.ofNat ((256 * 8 + 7) / 8 * 8 / 8 - 1))
    simp only [writeFf, hfirst, Option.bind_some, hsecond]
    rw [if_neg (by omega)]
  simp only [packStep, h.ffN, hpack, Option.bind_some, Nat.reduceEqDiff, if_false, true_and,
    if_pos hrun, if_pos hlast, writeRun, if_pos hbufsz]
  rw [hwrite]
  rfl

end Step

/-! ## The whole of `src` -/

def rounds (src : Bytes) : ℕ := (src.length + 7) / 8

/-- `src` ends in a group with padding that fills a run. -/
def EndsRun (src : Bytes) : Prop :=
  Overruns src (itemsAfter src (src.length / 8)) (8 * (src.length / 8))

theorem packLoop_succ (src : Bytes) : ∀ (n i : ℕ) (s : Packing),
    packLoop src (n + 1) i s = (packLoop src n i s).bind (packStep src (i + 8 * n)) := by
  intro n
  induction n with
  | zero =>
      intro i s
      rw [packLoop, packLoop, Nat.mul_zero, Nat.add_zero, Option.bind_some]
      cases packStep src i s <;> rfl
  | succ n ih =>
      intro i s
      rw [packLoop, packLoop]
      cases packStep src i s with
      | none => rfl
      | some s' => rw [Option.bind_some, Option.bind_some, ih, Nat.add_assoc, Nat.mul_succ,
          Nat.add_comm 8]

theorem packLoop_whole (src buffer : Bytes) : ∀ {k : ℕ}, 8 * k ≤ src.length →
    ∃ s, packLoop src k 0 ⟨buffer, 0, 0, 0, 0⟩ = some s ∧
      Tracks buffer.length s (itemsAfter src k) (8 * k) := by
  intro k
  induction k with
  | zero => intro _; exact ⟨_, rfl, tracks_start buffer⟩
  | succ k ih =>
      intro hk
      obtain ⟨s, hloop, htracks⟩ := ih (by omega)
      have hstep := packStep_eq htracks (ok_itemsAfter (by omega)) (content_itemsAfter (by omega))
        (by omega) fun hover => absurd hover.1 (by omega)
      obtain ⟨s', hstep, htracks'⟩ := hstep
      refine ⟨s', ?_, htracks'⟩
      rw [packLoop_succ, hloop, Option.bind_some, Nat.zero_add]
      exact hstep

theorem packLoop_rounds {src : Bytes} (buffer : Bytes) (h : ¬ EndsRun src) :
    ∃ s, packLoop src (rounds src) 0 ⟨buffer, 0, 0, 0, 0⟩ = some s ∧
      Tracks buffer.length s (itemsAfter src (rounds src)) (8 * rounds src) := by
  by_cases hwhole : src.length % 8 = 0
  · exact packLoop_whole src buffer (by rw [rounds]; omega)
  · have hrounds : rounds src = src.length / 8 + 1 := by rw [rounds]; omega
    obtain ⟨s, hloop, htracks⟩ :=
      packLoop_whole src buffer (show 8 * (src.length / 8) ≤ src.length by omega)
    obtain ⟨s', hstep, htracks'⟩ := packStep_eq htracks (ok_itemsAfter (by omega))
      (content_itemsAfter (by omega)) (by omega) h
    rw [hrounds]
    refine ⟨s', ?_, htracks'⟩
    rw [packLoop_succ, hloop, Option.bind_some, Nat.zero_add]
    exact hstep

theorem content_rounds (src : Bytes) : (itemsAfter src (rounds src)).content =
    src ++ List.replicate (8 * rounds src - src.length) 0 := by
  by_cases hwhole : src.length % 8 = 0
  · have hall : 8 * rounds src = src.length := by rw [rounds]; omega
    rw [content_itemsAfter (by omega), hall, List.take_length, Nat.sub_self, List.replicate_zero,
      List.append_nil]
  · have hrounds : rounds src = src.length / 8 + 1 := by rw [rounds]; omega
    have hrest : (src.drop (8 * (src.length / 8))).take 8 = src.drop (8 * (src.length / 8)) :=
      List.take_of_length_le (by rw [List.length_drop]; omega)
    rw [hrounds, itemsAfter, content_push, content_itemsAfter (by omega), segment, hrest,
      ← List.append_assoc, List.take_append_drop, Nat.mul_succ]

theorem rounds_of_single {src : Bytes} (h : (itemsAfter src (rounds src)).run.length = 1) :
    8 * rounds src = src.length := by
  by_contra hne
  have hrounds : rounds src = src.length / 8 + 1 := by rw [rounds] at hne ⊢; omega
  have hle := length_nonzero_segment src (8 * (src.length / 8))
  rw [hrounds, itemsAfter, length_run_push] at h
  rw [rounds] at hne
  split_ifs at h with hdense hfull
  rcases hdense with height | ⟨-, hpos⟩
  · omega
  · omega

/-- `write_ff` at the end writes the run that is left, with the padding of its last group. -/
theorem writeFf_last {src : Bytes} {bufsz : ℕ} {s : Packing} {r : Items}
    (h : Tracks bufsz s r (8 * rounds src)) (hr : r.Ok) (hrun : r.run ≠ [])
    (hcontent : r.content = src ++ List.replicate (8 * rounds src - src.length) 0)
    (hroom : s.size ≤ s.buffer.length) :
    writeFf src s.ffSrcstart s.buffer s.ffDesstart (src.length - s.ffSrcstart) =
      some (splice s.buffer s.ffDesstart (Item.dense r.run).encode) := by
  have hstart := h.ffSrcstart hrun
  have hpos : 0 < r.run.length := List.length_pos_iff.mpr hrun
  have hrounds : rounds src = (src.length + 7) / 8 := rfl
  have hinside : s.ffSrcstart ≤ src.length := by omega
  have hwritten : (contentAll r.written).length = s.ffSrcstart := by
    have hlen := congrArg List.length hcontent
    simp only [Items.content, List.length_append, List.length_replicate,
      length_flatten hr.groups] at hlen
    omega
  have hsource : (src.drop s.ffSrcstart).take (src.length - s.ffSrcstart) ++
      List.replicate (r.run.length * 8 - (src.length - s.ffSrcstart)) 0 = r.run.flatten := by
    have hdrop := congrArg (List.drop s.ffSrcstart) hcontent
    rw [Items.content, List.drop_left' hwritten, List.drop_append_of_le_length hinside] at hdrop
    have hpad : r.run.length * 8 - (src.length - s.ffSrcstart) =
        8 * rounds src - src.length := by omega
    rw [hdrop, hpad, List.take_of_length_le (by rw [List.length_drop])]
  have hsum : s.size = s.ffDesstart + (2 + 8 * r.run.length) := by
    rw [h.size, size_of_run hrun, h.ffDesstart hrun]
  exact writeFf_eq (by omega) (by omega) hsource (by omega)

def itemsOf (src : Bytes) : List Item := (itemsAfter src (rounds src)).flush

theorem sprotoPack_eq {src : Bytes} (buffer : Bytes) (h : ¬ EndsRun src) :
    ∃ buffer', sprotoPack src buffer = some ((encodeAll (itemsOf src)).length, buffer') ∧
      buffer'.length = buffer.length ∧ ((encodeAll (itemsOf src)).length ≤ buffer.length →
        buffer'.take (encodeAll (itemsOf src)).length = encodeAll (itemsOf src)) := by
  obtain ⟨s, hloop, htracks⟩ := packLoop_rounds buffer h
  obtain ⟨r, hr⟩ : ∃ r, r = itemsAfter src (rounds src) := ⟨_, rfl⟩
  have hok : r.Ok := by rw [hr]; exact ok_itemsAfter (by rw [rounds]; omega)
  have hsize : (encodeAll (itemsOf src)).length = s.size := by
    rw [itemsOf, ← hr, length_flush hok, htracks.size, hr]
  have hitems : itemsOf src = r.flush := by rw [itemsOf, hr]
  rw [← hr] at htracks
  have hlength := htracks.length
  rw [sprotoPack]
  change ∃ buffer', (packLoop src (rounds src) 0 _).bind _ = _ ∧ _
  rw [hloop, Option.bind_some, hsize]
  by_cases hroom : ((s.buffer.length : ℕ) : Int) - s.size ≥ 0
  · simp only [if_pos hroom]
    by_cases hrun : r.run = []
    · have hzero : s.ffN = 0 := by rw [htracks.ffN, hrun]; rfl
      refine ⟨s.buffer, by simp only [hzero]; rfl, hlength, fun _ => ?_⟩
      have hsame : s.size = (encodeAll r.written).length := by
        rw [← hsize, hitems, Items.flush, if_pos hrun]
      rw [hitems, Items.flush, if_pos hrun, hsame]
      exact htracks.written (by rw [← htracks.size]; omega)
    · have hstart := htracks.ffSrcstart hrun
      have hpos : 0 < r.run.length := List.length_pos_iff.mpr hrun
      have hdes := htracks.ffDesstart hrun
      have hencode := length_encode_dense hok.groups
      have hsum := htracks.size.trans (size_of_run hrun)
      have hwrite := writeFf_last htracks hok hrun (by rw [hr]; exact content_rounds src)
        (by omega)
      refine ⟨splice s.buffer s.ffDesstart (Item.dense r.run).encode, ?_, ?_, fun _ => ?_⟩
      · by_cases hone : s.ffN = 1
        · have hall := rounds_of_single (show (itemsAfter src (rounds src)).run.length = 1 by
            rw [← hr, ← htracks.ffN, hone])
          have height : src.length - s.ffSrcstart = 8 := by
            rw [htracks.ffN] at hone
            omega
          rw [height] at hwrite
          rw [if_pos hone, hwrite]
          rfl
        · have hmore : s.ffN > 1 := by
            rw [htracks.ffN] at hone ⊢
            omega
          rw [if_neg hone, if_pos hmore, hwrite]
          rfl
      · rw [length_splice (by omega), hlength]
      · rw [← hsize, hitems, encode_flush hrun, hdes]
        exact take_written (by omega) (htracks.written (by rw [← htracks.size]; omega))
  · simp only [if_neg hroom]
    exact ⟨s.buffer, rfl, hlength, fun hfits => absurd hfits (by omega)⟩

theorem sprotoPack_none {src buffer : Bytes} (hroom : (itemsAfter src (rounds src)).size ≤
    buffer.length) (h : EndsRun src) : sprotoPack src buffer = none := by
  have hover := h
  obtain ⟨hshort, hdense, hfull⟩ := h
  have hle := length_nonzero_segment src (8 * (src.length / 8))
  have hpart : src.length % 8 ≠ 0 := by
    rcases hdense with height | ⟨hmost, -⟩
    · omega
    · omega
  have hrounds : rounds src = src.length / 8 + 1 := by rw [rounds]; omega
  obtain ⟨s, hloop, htracks⟩ :=
    packLoop_whole src buffer (show 8 * (src.length / 8) ≤ src.length by omega)
  have hsize := size_push (ok_itemsAfter (show 8 * (src.length / 8) < src.length + 8 by omega))
    (length_segment (show 8 * (src.length / 8) ≤ src.length by omega))
  rw [if_pos hdense, if_pos (by omega)] at hsize
  rw [hrounds, itemsAfter, hsize] at hroom
  have hstep := packStep_none htracks (by omega) hroom hover
  have hall : packLoop src (rounds src) 0 ⟨buffer, 0, 0, 0, 0⟩ = none := by
    rw [hrounds, packLoop_succ, hloop, Option.bind_some, Nat.zero_add]
    exact hstep
  rw [sprotoPack]
  change (packLoop src (rounds src) 0 _).bind _ = none
  rw [hall]
  rfl

/-! ## The size -/

/-- Every full run costs two bytes, and the one that has not ended two more. -/
theorem size_whole {src : Bytes} : ∀ {k : ℕ}, 8 * k ≤ src.length → ∃ full,
    256 * full + (itemsAfter src k).run.length ≤ k ∧ (itemsAfter src k).size ≤
      8 * k + 2 * full + if (itemsAfter src k).run.length > 0 then 2 else 0 := by
  intro k
  induction k with
  | zero => intro _; exact ⟨0, Nat.le_refl _, Nat.le_refl _⟩
  | succ k ih =>
      intro hk
      obtain ⟨full, hfull, hsize⟩ := ih (by omega)
      have hok := ok_itemsAfter (show 8 * k < src.length + 8 by omega)
      have hshort := hok.short
      have hle := length_nonzero_le (segment src (8 * k))
      have hsegment := length_segment (show 8 * k ≤ src.length by omega)
      have hpush := size_push hok hsegment
      have hrun := length_run_push (itemsAfter src k) (segment src (8 * k))
      rw [itemsAfter]
      by_cases hdense : Dense (itemsAfter src k).run.length (segment src (8 * k))
      · rw [if_pos hdense] at hpush hrun
        by_cases hlast : (itemsAfter src k).run.length + 1 = 256
        · rw [if_pos hlast] at hrun
          rw [if_pos (by omega)] at hpush hsize
          refine ⟨full + 1, by omega, ?_⟩
          rw [hpush, if_neg (by omega)]
          omega
        · rw [if_neg hlast] at hrun
          refine ⟨full, by omega, ?_⟩
          rw [hpush, hrun, if_pos (Nat.succ_pos (itemsAfter src k).run.length)]
          split_ifs at hsize ⊢
          · omega
          · omega
      · rw [if_neg hdense] at hpush hrun
        have hsplit := not_or.mp hdense
        refine ⟨full, by omega, ?_⟩
        rw [hpush, if_neg (by omega)]
        split_ifs at hsize with hpos
        · have hfew : ¬ 6 ≤ (nonzero (segment src (8 * k))).length := fun hmost =>
            hsplit.2 ⟨hmost, hpos⟩
          omega
        · omega

theorem size_le_maxsz (src : Bytes) :
    (itemsAfter src (rounds src)).size ≤ maxsz src.length := by
  obtain ⟨q, hq⟩ : ∃ q, q = src.length / 8 := ⟨_, rfl⟩
  obtain ⟨full, hfull, hsize⟩ := size_whole (show 8 * q ≤ src.length by omega)
  by_cases hwhole : src.length % 8 = 0
  · have hrounds : rounds src = q := by rw [rounds]; omega
    rw [hrounds, maxsz]
    split_ifs at hsize
    · omega
    · omega
  · have hrounds : rounds src = q + 1 := by rw [rounds]; omega
    have hpush := size_push (ok_itemsAfter (show 8 * q < src.length + 8 by omega))
      (length_segment (show 8 * q ≤ src.length by omega))
    have hle := length_nonzero_segment src (8 * q)
    rw [hrounds, itemsAfter, hpush, maxsz]
    by_cases hdense : Dense (itemsAfter src q).run.length (segment src (8 * q))
    · have hmost : 6 ≤ (nonzero (segment src (8 * q))).length ∧
          0 < (itemsAfter src q).run.length := hdense.resolve_left (by omega)
      rw [if_pos hmost.2] at hsize
      rw [if_pos hdense, if_pos hmost.2]
      omega
    · rw [if_neg hdense]
      split_ifs at hsize
      · omega
      · omega

/-! ## Reading a packed stream -/

/-- The state after `content` was unpacked: it is in the buffer, or there was no room for it. -/
structure Filled (bufsz : ℕ) (s : Unpacking) (content : Bytes) : Prop where
  length : s.buffer.length = bufsz
  size : s.size = content.length
  room : s.size ≤ bufsz ∧ s.pos = s.size ∧ s.bufsz = (bufsz : Int) - s.size ∧
    s.buffer.take s.size = content ∨ bufsz < s.size ∧ s.bufsz ≤ 0

section Unpacked
variable {bufsz : ℕ} {s : Unpacking} {content : Bytes}

theorem filled_start (buffer : Bytes) : Filled buffer.length ⟨buffer, 0, buffer.length, 0⟩ [] :=
  ⟨rfl, rfl, .inl ⟨Nat.zero_le _, rfl, (Int.sub_zero _).symm, rfl⟩⟩

theorem filled_splice (h : Filled bufsz s content) {bytes : Bytes} (hpos : 0 < bytes.length)
    (hfits : s.bufsz ≥ bytes.length) : s.pos + bytes.length ≤ s.buffer.length ∧
      Filled bufsz ⟨splice s.buffer s.pos bytes, s.pos + bytes.length, s.bufsz - bytes.length,
        s.size + bytes.length⟩ (content ++ bytes) := by
  obtain ⟨hlength, hsize, ⟨hle, hpos', hbufsz, htake⟩ | ⟨hlt, hnone⟩⟩ := h
  · have hinside : s.pos + bytes.length ≤ s.buffer.length := by omega
    have hall : (splice s.buffer s.pos bytes).take (s.pos + bytes.length) =
        s.buffer.take s.pos ++ bytes :=
      take_splice (show s.pos ≤ s.buffer.length by omega)
    rw [hpos', htake] at hall
    refine ⟨hinside, (length_splice hinside).trans hlength, ?_, .inl ⟨?_, ?_, ?_, ?_⟩⟩
    · rw [List.length_append, hsize]
    · dsimp only
      omega
    · rw [hpos']
    · dsimp only
      omega
    · rw [hpos']
      exact hall
  · omega

theorem filled_full {s' : Unpacking} (h : Filled bufsz s content) {bytes : Bytes}
    (hfull : s.bufsz < bytes.length) (hbuffer : s'.buffer = s.buffer)
    (hsize' : s'.size = s.size + bytes.length) (hleft : s'.bufsz ≤ 0) :
    Filled bufsz s' (content ++ bytes) := by
  obtain ⟨hlength, hsize, hroom⟩ := h
  refine ⟨by rw [hbuffer, hlength], ?_, .inr ⟨?_, hleft⟩⟩
  · rw [hsize', hsize, List.length_append]
  · rcases hroom with ⟨hle, -, hbufsz, -⟩ | ⟨hlt, -⟩
    · omega
    · omega

theorem store_eq (h : Filled bufsz s content) (b : UInt8) :
    ∃ s', store s b = some s' ∧ Filled bufsz s' (content ++ [b]) := by
  unfold store
  split_ifs with hpos
  · obtain ⟨hinside, hfilled⟩ := filled_splice h (show 0 < [b].length from Nat.one_pos) hpos
    exact ⟨_, by rw [put_eq hinside b]; rfl, hfilled⟩
  · refine ⟨_, rfl, filled_full h ?_ rfl rfl (Int.not_lt.mp hpos)⟩
    rw [List.length_singleton]
    omega

/-- The position of the byte that is missing when a stream has `k` bytes for a header. -/
def missing : ℕ → ℕ → ℕ → ℕ
  | 0, _, _ => 0
  | rounds + 1, header, k =>
      if header % 2 = 1 then
        match k with
        | 0 => 0
        | k + 1 => missing rounds (header / 2) k + 1
      else missing rounds (header / 2) k + 1

theorem room_iff (h : Filled bufsz s content) : s.bufsz > 0 ↔ content.length < bufsz := by
  have hsize := h.size
  rcases h.room with ⟨_, _, hleft, _⟩ | ⟨hover, hleft⟩
  · omega
  · omega

theorem unpackSeg_below : ∀ {rounds header : ℕ} {s : Unpacking}, s.bufsz ≤ 0 →
    unpackSeg rounds header [] true s = .invalid ∨
      ∃ s', unpackSeg rounds header [] true s = .next [] s' := by
  intro rounds
  induction rounds with
  | zero => intro header s _; exact .inr ⟨s, rfl⟩
  | succ rounds ih =>
      intro header s hleft
      by_cases hbit : header % 2 = 1
      · exact .inl (by rw [unpackSeg, if_pos hbit, if_pos rfl])
      · have hstore : store s 0 = some { s with size := s.size + 1 } :=
          if_neg (Int.not_lt.mpr hleft)
        rw [unpackSeg, if_neg hbit, hstore]
        exact ih hleft

/-- The loop over the bits unpacks the group that `expand` reads.  Where bytes are missing it reads
the first of them if there is room for it, and else comes to the end of the stream. -/
theorem unpackSeg_eq : ∀ {rounds header : ℕ} {src : Bytes} {s : Unpacking} {content : Bytes},
    Filled bufsz s content →
    (expand rounds header src = none →
      (content.length + missing rounds header src.length < bufsz →
        unpackSeg rounds header src false s = .outside) ∧
      (bufsz ≤ content.length + missing rounds header src.length →
        unpackSeg rounds header src false s = .invalid ∨
          ∃ s', unpackSeg rounds header src false s = .next [] s')) ∧
      ∀ group rest, expand rounds header src = some (group, rest) →
        ∃ s', unpackSeg rounds header src false s = .next rest s' ∧
          Filled bufsz s' (content ++ group) := by
  intro rounds
  induction rounds with
  | zero =>
      intro header src s content h
      refine ⟨fun hexpand => (by cases hexpand), fun group rest hexpand => ?_⟩
      cases hexpand
      exact ⟨s, rfl, by rw [List.append_nil]; exact h⟩
  | succ rounds ih =>
      intro header src s content h
      have hlater : ∀ (b : UInt8) (src : Bytes), ∃ s', store s b = some s' ∧
          ((expand rounds (header / 2) src).map (fun result => (b :: result.1, result.2)) = none →
            (content.length + (missing rounds (header / 2) src.length + 1) < bufsz →
              unpackSeg rounds (header / 2) src false s' = .outside) ∧
            (bufsz ≤ content.length + (missing rounds (header / 2) src.length + 1) →
              unpackSeg rounds (header / 2) src false s' = .invalid ∨
                ∃ s'', unpackSeg rounds (header / 2) src false s' = .next [] s'')) ∧
          ∀ group rest, (expand rounds (header / 2) src).map
              (fun result => (b :: result.1, result.2)) = some (group, rest) →
            ∃ s'', unpackSeg rounds (header / 2) src false s' = .next rest s'' ∧
              Filled bufsz s'' (content ++ group) := by
        intro b src
        obtain ⟨s', hstore, hfilled⟩ := store_eq h b
        refine ⟨s', hstore, ?_, ?_⟩
        · intro hnone
          have hrest := (ih hfilled).1 (Option.map_eq_none_iff.mp hnone)
          rw [List.length_append, List.length_singleton] at hrest
          exact ⟨fun hroom => hrest.1 (by omega), fun hfull => hrest.2 (by omega)⟩
        · intro group rest hsome
          obtain ⟨result, hexpand, heq⟩ := Option.map_eq_some_iff.mp hsome
          cases heq
          obtain ⟨s'', hseg, hfilled'⟩ := (ih hfilled).2 result.1 result.2 hexpand
          rw [List.append_assoc] at hfilled'
          exact ⟨s'', hseg, hfilled'⟩
      by_cases hbit : header % 2 = 1
      · cases src with
        | nil =>
            have hnone : expand (rounds + 1) header [] = none := by rw [expand, if_pos hbit]
            have hmissing : missing (rounds + 1) header ([] : Bytes).length = 0 := by
              rw [List.length_nil, missing, if_pos hbit]
            refine ⟨fun _ => ?_, fun group rest hsome => ?_⟩
            · simp only [hmissing, Nat.add_zero, unpackSeg, if_pos hbit, Bool.false_eq_true,
                if_false]
              constructor
              · intro hroom
                rw [if_pos ((room_iff h).mpr hroom)]
              · intro hfull
                have hleft : ¬ s.bufsz > 0 := fun hroom =>
                  Nat.not_le.mpr ((room_iff h).mp hroom) hfull
                rw [if_neg hleft]
                exact unpackSeg_below (Int.not_lt.mp hleft)
            · rw [hnone] at hsome
              cases hsome
        | cons b src =>
            obtain ⟨s', hstore, hrest⟩ := hlater b src
            simp only [expand, missing, unpackSeg, if_pos hbit, Bool.false_eq_true, if_false,
              hstore, List.length_cons]
            exact hrest
      · obtain ⟨s', hstore, hrest⟩ := hlater 0 src
        simp only [expand, missing, unpackSeg, if_neg hbit, hstore]
        exact hrest

theorem copy_run (h : Filled bufsz s content) {bytes : Bytes} (hpos : 0 < bytes.length) :
    ∃ buffer, (if s.bufsz ≥ bytes.length then copy s.buffer s.pos bytes else some s.buffer) =
        some buffer ∧
      Filled bufsz ⟨buffer, s.pos + bytes.length, s.bufsz - bytes.length,
        s.size + bytes.length⟩ (content ++ bytes) := by
  split_ifs with hfits
  · obtain ⟨hinside, hfilled⟩ := filled_splice h hpos hfits
    exact ⟨_, copy_eq hinside, hfilled⟩
  · exact ⟨_, rfl, filled_full h (by omega) rfl rfl (by dsimp only; omega)⟩

end Unpacked

theorem segHeader_dense : ∀ {group : Bytes}, segHeader group + 1 = 2 ^ group.length →
    (nonzero group).length = group.length := by
  intro group
  induction group with
  | nil => intro _; rfl
  | cons b group ih =>
      intro h
      have hlt := segHeader_lt group
      rw [List.length_cons, pow_succ, segHeader] at h
      split_ifs at h with hb
      · omega
      · rw [nonzero_cons hb, List.length_cons, List.length_cons, ih (by omega)]

theorem unpackLoop_item {bufsz : ℕ} {s : Unpacking} {content : Bytes} {item : Item}
    (hok : item.Ok) (h : Filled bufsz s content) (fuel : ℕ) (rest : Bytes) :
    ∃ s', unpackLoop (fuel + 1) (item.encode ++ rest) s = unpackLoop fuel rest s' ∧
      Filled bufsz s' (content ++ item.content) := by
  cases item with
  | sparse group =>
      obtain ⟨hlen, hfew⟩ := hok
      have hlt := segHeader_lt group
      rw [hlen] at hlt
      have hheader : (UInt8.ofNat (segHeader group)).toNat = segHeader group := by
        rw [UInt8.toNat_ofNat']
        omega
      have hne : UInt8.ofNat (segHeader group) ≠ 255 := by
        intro h255
        have hall : segHeader group = 255 := hheader.symm.trans (congrArg UInt8.toNat h255)
        have hdense := segHeader_dense (show segHeader group + 1 = 2 ^ group.length by
          rw [hall, hlen]
          rfl)
        omega
      have hexpand := expand_segHeader group rest
      rw [hlen] at hexpand
      obtain ⟨s', hseg, hfilled⟩ := (unpackSeg_eq h).2 group rest hexpand
      refine ⟨s', ?_, hfilled⟩
      simp only [Item.encode, List.cons_append, unpackLoop, if_neg hne, hheader, hseg]
  | dense groups =>
      obtain ⟨hlen, hpos, hmax⟩ := hok
      have hflat := length_flatten hlen
      have hcount : ((UInt8.ofNat (groups.length - 1)).toNat + 1) * 8 =
          groups.flatten.length := by
        rw [UInt8.toNat_ofNat', hflat]
        omega
      obtain ⟨buffer, hcopy, hfilled⟩ := copy_run h (show 0 < groups.flatten.length by omega)
      refine ⟨_, ?_, hfilled⟩
      simp only [Item.encode, List.cons_append, unpackLoop, if_true, hcount]
      rw [if_neg (by rw [List.length_append]; omega), List.take_left, List.drop_left, hcopy]

theorem unpackLoop_items {bufsz : ℕ} : ∀ {items : List Item} {fuel : ℕ} {s : Unpacking}
    {content : Bytes}, (∀ item ∈ items, item.Ok) → (encodeAll items).length ≤ fuel →
    Filled bufsz s content → ∃ s', unpackLoop fuel (encodeAll items) s = .done s'.size s'.buffer ∧
      Filled bufsz s' (content ++ contentAll items) := by
  intro items
  induction items with
  | nil =>
      intro fuel s content _ _ h
      refine ⟨s, ?_, ?_⟩
      · cases fuel <;> rfl
      · rw [contentAll, List.flatMap_nil, List.append_nil]
        exact h
  | cons item items ih =>
      intro fuel s content hok hfuel h
      have hpos : 0 < item.encode.length := by
        cases item with
        | sparse group => exact Nat.succ_pos _
        | dense groups => exact Nat.succ_pos _
      have hcons : encodeAll (item :: items) = item.encode ++ encodeAll items := List.flatMap_cons
      rw [hcons, List.length_append] at hfuel
      obtain ⟨n, rfl⟩ : ∃ n, fuel = n + 1 := ⟨fuel - 1, by omega⟩
      obtain ⟨s', hitem, hfilled⟩ :=
        unpackLoop_item (hok item (List.mem_cons_self ..)) h n (encodeAll items)
      obtain ⟨s'', hitems, hfilled'⟩ :=
        ih (fun i hi => hok i (List.mem_cons_of_mem _ hi)) (show _ ≤ n by omega) hfilled
      refine ⟨s'', ?_, ?_⟩
      · rw [hcons, hitem, hitems]
      · rw [List.append_assoc] at hfilled'
        rw [contentAll, List.flatMap_cons]
        exact hfilled'

theorem content_itemsOf (src : Bytes) : contentAll (itemsOf src) = src ++ padding src := by
  rw [itemsOf, content_flush, content_rounds, padding]
  congr 2
  rw [rounds]
  omega

theorem length_itemsOf (src : Bytes) :
    (encodeAll (itemsOf src)).length ≤ maxsz src.length := by
  have hok := ok_itemsAfter (show 8 * rounds src < src.length + 8 by rw [rounds]; omega)
  rw [itemsOf, length_flush hok]
  exact size_le_maxsz src

/-- The items of `src` are read as `src` and its padding, into whatever buffer. -/
theorem unpack_itemsOf (src buffer : Bytes) : ∃ filled,
    sprotoUnpack (encodeAll (itemsOf src)) buffer = .done (src ++ padding src).length filled ∧
      filled.length = buffer.length ∧ ((src ++ padding src).length ≤ buffer.length →
        filled.take (src ++ padding src).length = src ++ padding src) := by
  have hok := ok_itemsAfter (show 8 * rounds src < src.length + 8 by rw [rounds]; omega)
  obtain ⟨s, hunpack, hfilled⟩ := unpackLoop_items (ok_flush hok) (Nat.le_refl _)
    (filled_start buffer)
  change unpackLoop (encodeAll (itemsOf src)).length (encodeAll (itemsOf src)) _ = _ at hunpack
  change Filled buffer.length s ([] ++ contentAll (itemsOf src)) at hfilled
  rw [List.nil_append, content_itemsOf] at hfilled
  refine ⟨s.buffer, ?_, hfilled.length, fun hfits => ?_⟩
  · rw [← hfilled.size]
    exact hunpack
  · rw [← hfilled.size] at hfits ⊢
    rcases hfilled.room with hroom | hover
    · exact hroom.2.2.2
    · exact absurd hover.1 (by omega)

/-- What `sproto_pack` writes, with a buffer of the size that `lpack` gives it, fits in there, and
`sproto_unpack` gives back `src` with zeros to a multiple of eight bytes: it returns their number
for every buffer, and writes them when there is room. -/
theorem sprotoUnpack_of_pack (src output : Bytes) (hroom : maxsz src.length ≤ output.length)
    (h : ¬ EndsRun src) : ∃ n packed, sprotoPack src output = some (n, packed) ∧
      n ≤ maxsz src.length ∧ ∀ buffer, ∃ filled,
        sprotoUnpack (packed.take n) buffer = .done (src ++ padding src).length filled ∧
        filled.length = buffer.length ∧ ((src ++ padding src).length ≤ buffer.length →
          filled.take (src ++ padding src).length = src ++ padding src) := by
  obtain ⟨packed, hpack, -, htake⟩ := sprotoPack_eq output h
  refine ⟨_, packed, hpack, length_itemsOf src, fun buffer => ?_⟩
  rw [htake (Nat.le_trans (length_itemsOf src) hroom)]
  exact unpack_itemsOf src buffer

theorem sprotoUnpack_of_pack_run : ∃ n packed,
    sprotoPack (List.replicate 20 7) (List.replicate 24 0) = some (n, packed) ∧ n ≤ maxsz 20 ∧
      ∀ buffer, ∃ filled, sprotoUnpack (packed.take n) buffer =
          .done (List.replicate 20 7 ++ padding (List.replicate 20 7)).length filled ∧
        filled.length = buffer.length ∧
          ((List.replicate 20 7 ++ padding (List.replicate 20 7)).length ≤ buffer.length →
            filled.take (List.replicate 20 7 ++ padding (List.replicate 20 7)).length =
              List.replicate 20 7 ++ padding (List.replicate 20 7)) := by
  refine sprotoUnpack_of_pack (List.replicate 20 7) (List.replicate 24 0) (by decide)
    fun hends => ?_
  have hrun : (itemsAfter (List.replicate 20 7) 2).run.length = 2 := by decide
  have hfull : (itemsAfter (List.replicate 20 7) 2).run.length + 1 = 256 := hends.2.2
  rw [hrun] at hfull
  cases hfull

/-- `sproto_pack` reads beyond the end of `src` just when the last group has padding and is the
256th of a run. -/
theorem sprotoPack_outside (src output : Bytes) (hroom : maxsz src.length ≤ output.length) :
    sprotoPack src output = none ↔ EndsRun src := by
  constructor
  · intro hnone
    by_contra hends
    obtain ⟨packed, hpack, -⟩ := sprotoPack_eq output hends
    rw [hnone] at hpack
    cases hpack
  · exact sprotoPack_none (Nat.le_trans (size_le_maxsz src) hroom)

theorem run_of_dense {src : Bytes} : ∀ {k : ℕ}, k < 256 →
    (∀ j < k, (nonzero (segment src (8 * j))).length = 8) → (itemsAfter src k).run.length = k := by
  intro k
  induction k with
  | zero => intro _ _; rfl
  | succ k ih =>
      intro hk hdense
      have hrun := ih (by omega) fun j hj => hdense j (by omega)
      rw [itemsAfter, length_run_push, if_pos (.inl (hdense k (Nat.lt_succ_self k))), hrun,
        if_neg (by omega)]

theorem segment_replicate {n i : ℕ} {b : UInt8} (hb : b ≠ 0) :
    nonzero (segment (List.replicate n b) i) = List.replicate (min 8 (n - i)) b := by
  rw [segment, List.drop_replicate, List.take_replicate, nonzero, List.filter_append]
  simp [hb]

/-- 2046 bytes, none of them zero: the run takes 2048. -/
theorem sprotoPack_outside_long :
    sprotoPack (List.replicate 2046 1) (List.replicate (maxsz 2046) 0) = none := by
  refine (sprotoPack_outside _ _ (by rw [List.length_replicate, List.length_replicate])).mpr ?_
  have hne : (1 : UInt8) ≠ 0 := by decide
  have hrun : (itemsAfter (List.replicate 2046 1) 255).run.length = 255 := by
    refine run_of_dense (by decide) fun j hj => ?_
    rw [segment_replicate hne, List.length_replicate]
    omega
  have hlast : (List.replicate 2046 (1 : UInt8)).length / 8 = 255 := by
    rw [List.length_replicate]
  rw [EndsRun, hlast]
  refine ⟨?_, .inr ⟨?_, ?_⟩, ?_⟩
  · rw [List.length_replicate]
    decide
  · rw [segment_replicate hne, List.length_replicate]
    decide
  · rw [hrun]
    decide
  · rw [hrun]

/-! ## Streams that were cut off -/

def bits : ℕ → ℕ → ℕ
  | 0, _ => 0
  | rounds + 1, header => header % 2 + bits rounds (header / 2)

/-- With room for `room` bytes the stream ends right behind 255, or inside a group that follows
items which are whole, with room for the first byte that is missing. -/
inductive CutShort : ℕ → Bytes → Prop
  | count {room : ℕ} : CutShort room [255]
  | group {room : ℕ} {header : UInt8} {src : Bytes} : header ≠ 255 →
      src.length < bits 8 header.toNat → missing 8 header.toNat src.length < room →
      CutShort room (header :: src)
  | afterRun {room : ℕ} {count : UInt8} {src : Bytes} : (count.toNat + 1) * 8 ≤ src.length →
      CutShort (room - (count.toNat + 1) * 8) (src.drop ((count.toNat + 1) * 8)) →
      CutShort room (255 :: count :: src)
  | afterGroup {room : ℕ} {header : UInt8} {src : Bytes} : header ≠ 255 →
      bits 8 header.toNat ≤ src.length → CutShort (room - 8) (src.drop (bits 8 header.toNat)) →
      CutShort room (header :: src)

theorem length_expand : ∀ {rounds header : ℕ} {src group rest : Bytes},
    expand rounds header src = some (group, rest) → group.length = rounds := by
  intro rounds
  induction rounds with
  | zero =>
      intro header src group rest h
      cases h
      rfl
  | succ rounds ih =>
      intro header src group rest h
      have hlater : ∀ (b : UInt8) (src : Bytes), (expand rounds (header / 2) src).map
          (fun result => (b :: result.1, result.2)) = some (group, rest) →
            group.length = rounds + 1 := by
        intro b src hsome
        obtain ⟨result, hexpand, heq⟩ := Option.map_eq_some_iff.mp hsome
        cases heq
        rw [List.length_cons, ih hexpand]
      by_cases hbit : header % 2 = 1
      · cases src with
        | nil =>
            rw [expand, if_pos hbit] at h
            cases h
        | cons b src =>
            simp only [expand, if_pos hbit] at h
            exact hlater b src h
      · simp only [expand, if_neg hbit] at h
        exact hlater 0 src h

theorem expand_bits : ∀ (rounds header : ℕ) (src : Bytes),
    if src.length < bits rounds header then expand rounds header src = none
    else ∃ group, expand rounds header src = some (group, src.drop (bits rounds header)) := by
  intro rounds
  induction rounds with
  | zero => intro header src; exact ⟨[], rfl⟩
  | succ rounds ih =>
      intro header src
      by_cases hbit : header % 2 = 1
      · cases src with
        | nil =>
            rw [bits, hbit, if_pos (by rw [List.length_nil]; omega)]
            simp only [expand, if_pos hbit]
        | cons b src =>
            have hrest := ih (header / 2) src
            rw [bits, hbit, List.length_cons, Nat.add_comm 1, List.drop_succ_cons]
            simp only [expand, if_pos hbit]
            split_ifs at hrest ⊢ with hshort
            · rw [hrest]
              rfl
            · omega
            · omega
            · obtain ⟨group, hgroup⟩ := hrest
              exact ⟨b :: group, by rw [hgroup]; rfl⟩
      · have hzero : header % 2 = 0 := by omega
        have hrest := ih (header / 2) src
        rw [bits, hzero, Nat.zero_add]
        simp only [expand, if_neg hbit]
        split_ifs at hrest ⊢ with hshort
        · rw [hrest]
          rfl
        · obtain ⟨group, hgroup⟩ := hrest
          exact ⟨0 :: group, by rw [hgroup]; rfl⟩

theorem unpackLoop_outside {bufsz : ℕ} : ∀ {fuel : ℕ} {src : Bytes} {s : Unpacking}
    {content : Bytes}, src.length ≤ fuel → Filled bufsz s content →
    (unpackLoop fuel src s = .outside ↔ CutShort (bufsz - content.length) src) := by
  intro fuel
  induction fuel with
  | zero =>
      intro src s content hfuel h
      have hnil : src = [] := List.length_eq_zero_iff.mp (by omega)
      subst hnil
      exact ⟨fun hout => (by cases hout), fun hcut => (by cases hcut)⟩
  | succ fuel ih =>
      intro src s content hfuel h
      cases src with
      | nil => exact ⟨fun hout => (by cases hout), fun hcut => (by cases hcut)⟩
      | cons header src =>
          rw [List.length_cons] at hfuel
          by_cases hff : header = 255
          · subst hff
            cases src with
            | nil =>
                rw [unpackLoop, if_pos rfl]
                exact ⟨fun _ => .count, fun _ => rfl⟩
            | cons count src =>
                rw [List.length_cons] at hfuel
                have hpos : 0 < (count.toNat + 1) * 8 := by omega
                obtain ⟨n, hn⟩ : ∃ n, n = (count.toNat + 1) * 8 := ⟨_, rfl⟩
                simp only [unpackLoop, if_true, ← hn]
                by_cases hshort : src.length < n
                · rw [if_pos hshort]
                  refine ⟨fun hout => (by cases hout), fun hcut => ?_⟩
                  cases hcut with
                  | group hne _ _ => exact absurd rfl hne
                  | afterRun hle _ => omega
                  | afterGroup hne _ _ => exact absurd rfl hne
                · have htake : (src.take n).length = n := List.length_take_of_le (by omega)
                  obtain ⟨buffer, hcopy, hfilled⟩ := copy_run h (show 0 < (src.take n).length by
                    omega)
                  rw [htake] at hcopy hfilled
                  rw [if_neg hshort, hcopy]
                  have hrest := ih (show (src.drop n).length ≤ fuel by
                    rw [List.length_drop]; omega) hfilled
                  rw [List.length_append, htake, ← Nat.sub_sub] at hrest
                  refine hrest.trans ⟨fun hcut => ?_, fun hcut => ?_⟩
                  · rw [hn] at hcut hshort
                    exact .afterRun (Nat.le_of_not_lt hshort) hcut
                  · cases hcut with
                    | group hne _ _ => exact absurd rfl hne
                    | afterRun _ hcut => rw [hn]; exact hcut
                    | afterGroup hne _ _ => exact absurd rfl hne
          · have hexpand := expand_bits 8 header.toNat src
            simp only [unpackLoop, if_neg hff]
            by_cases hshort : src.length < bits 8 header.toNat
            · rw [if_pos hshort] at hexpand
              obtain ⟨houtside, hinside⟩ := (unpackSeg_eq h).1 hexpand
              by_cases hroom : missing 8 header.toNat src.length < bufsz - content.length
              · rw [houtside (by omega)]
                exact ⟨fun _ => .group hff hshort hroom, fun _ => rfl⟩
              · refine iff_of_false ?_ fun hcut => ?_
                · rcases hinside (by omega) with hinvalid | ⟨s', hnext⟩
                  · rw [hinvalid]
                    exact nofun
                  · rw [hnext]
                    cases fuel <;> exact nofun
                · cases hcut with
                  | count => exact hff rfl
                  | group _ _ hlt => exact hroom hlt
                  | afterRun _ _ => exact hff rfl
                  | afterGroup _ hle _ => omega
            · rw [if_neg hshort] at hexpand
              obtain ⟨group, hexpand⟩ := hexpand
              obtain ⟨s', hseg, hfilled⟩ := (unpackSeg_eq h).2 group _ hexpand
              rw [hseg]
              have hrest := ih (show (src.drop (bits 8 header.toNat)).length ≤ fuel by
                rw [List.length_drop]; omega) hfilled
              rw [List.length_append, length_expand hexpand, ← Nat.sub_sub] at hrest
              refine hrest.trans ⟨fun hcut => .afterGroup hff (Nat.le_of_not_lt hshort) hcut,
                fun hcut => ?_⟩
              cases hcut with
              | count => exact absurd rfl hff
              | group _ hlt _ => exact absurd hlt hshort
              | afterRun _ _ => exact absurd rfl hff
              | afterGroup _ _ hcut => exact hcut

/-- `sproto_unpack` reads beyond the end of just those streams that are cut short while there is
room for the byte. -/
theorem sprotoUnpack_outside (src buffer : Bytes) :
    sprotoUnpack src buffer = .outside ↔ CutShort buffer.length src :=
  unpackLoop_outside (Nat.le_refl _) (filled_start buffer)

end Doudizhu.Network.SprotoPack
