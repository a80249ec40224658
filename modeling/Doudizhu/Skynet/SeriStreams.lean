import Doudizhu.Skynet.LuaSeri

/-! # What a packed stream unpacks to

The blocks hold what was pushed to them, so that `luaseriPack` gives the concatenation of the
pieces.  The pieces of one value are read back as that value, whatever follows them, which is
first shown for each of the writers and then for a value of any depth. -/

set_option autoImplicit false

namespace Doudizhu.Skynet.LuaSeri

open Network (Bytes fill todword length_fill todword_fill)
open Reader (Reads Extends reads_pure reads_take)

/-! ## The blocks -/

namespace WriteBlock

def contents (b : WriteBlock) : Bytes := b.full.flatten ++ b.current

structure Ok (b : WriteBlock) : Prop where
  full : ∀ blk ∈ b.full, blk.length = blockSize
  current : b.current.length ≤ blockSize
  len : b.len = b.contents.length

theorem alloc_current_lt (b : WriteBlock) : b.alloc.current.length < blockSize :=
  show 0 < blockSize by decide

theorem ok_wbInit : wbInit.Ok := ⟨by simp [wbInit], Nat.zero_le _, rfl⟩

@[simp] theorem contents_alloc (b : WriteBlock) : b.alloc.contents = b.contents := by
  simp [contents, alloc]

@[simp] theorem contents_copy (b : WriteBlock) (buffer : Bytes) :
    (b.copy buffer).contents = b.contents ++ buffer := by
  simp [contents, copy]

theorem Ok.alloc {b : WriteBlock} (h : b.Ok) (hfull : b.current.length = blockSize) :
    b.alloc.Ok := by
  refine ⟨?_, Nat.zero_le _, ?_⟩
  · intro blk hblk
    rcases List.mem_append.mp hblk with hold | hlast
    · exact h.full blk hold
    · rw [List.mem_singleton.mp hlast, hfull]
  · rw [contents_alloc]
    exact h.len

theorem Ok.copy {b : WriteBlock} (h : b.Ok) {buffer : Bytes}
    (hroom : b.current.length + buffer.length ≤ blockSize) : (b.copy buffer).Ok := by
  refine ⟨h.full, ?_, ?_⟩
  · simpa [WriteBlock.copy] using hroom
  · rw [contents_copy, List.length_append, ← h.len]
    rfl

end WriteBlock

theorem wbPushLoop_spec (n : ℕ) : ∀ (b : WriteBlock) (buffer : Bytes), b.Ok →
    b.current.length < blockSize → buffer.length < n →
    (wbPushLoop n b buffer).Ok ∧ (wbPushLoop n b buffer).contents = b.contents ++ buffer := by
  induction n with
  | zero => intro b buffer _ _ hn; omega
  | succ n ih =>
      intro b buffer hb hptr hn
      rw [wbPushLoop]
      split
      · rename_i hroom
        exact ⟨hb.copy hroom, b.contents_copy buffer⟩
      · rename_i hroom
        have htake : (buffer.take (blockSize - b.current.length)).length =
            blockSize - b.current.length := by
          rw [List.length_take]
          omega
        have hcopy : (b.copy (buffer.take (blockSize - b.current.length))).Ok :=
          hb.copy (by omega)
        have hfull : (b.copy (buffer.take (blockSize - b.current.length))).current.length =
            blockSize := by
          simp only [WriteBlock.copy, List.length_append, htake]
          omega
        have hdrop : (buffer.drop (blockSize - b.current.length)).length < n := by
          rw [List.length_drop]
          omega
        obtain ⟨hok, hcontents⟩ := ih _ _ (hcopy.alloc hfull) (WriteBlock.alloc_current_lt _) hdrop
        refine ⟨hok, ?_⟩
        rw [hcontents, WriteBlock.contents_alloc, WriteBlock.contents_copy, List.append_assoc,
          List.take_append_drop]

theorem wbPush_spec {b : WriteBlock} (hb : b.Ok) (buffer : Bytes) :
    (wbPush b buffer).Ok ∧ (wbPush b buffer).contents = b.contents ++ buffer := by
  unfold wbPush
  split
  · rename_i hfull
    obtain ⟨hok, hcontents⟩ :=
      wbPushLoop_spec (buffer.length + 1) b.alloc buffer (hb.alloc hfull) b.alloc_current_lt
        (by omega)
    exact ⟨hok, by rw [hcontents, WriteBlock.contents_alloc]⟩
  · rename_i hptr
    have hlt : b.current.length < blockSize := Nat.lt_of_le_of_ne hb.current hptr
    exact wbPushLoop_spec (buffer.length + 1) b buffer hb hlt (by omega)

theorem foldl_wbPush (pieces : List Bytes) : ∀ {b : WriteBlock}, b.Ok →
    (pieces.foldl wbPush b).Ok ∧
      (pieces.foldl wbPush b).contents = b.contents ++ pieces.flatten := by
  induction pieces with
  | nil => intro b hb; exact ⟨hb, by simp⟩
  | cons piece pieces ih =>
      intro b hb
      obtain ⟨hok, hcontents⟩ := wbPush_spec hb piece
      obtain ⟨hoks, hall⟩ := ih hok
      refine ⟨hoks, ?_⟩
      rw [List.foldl_cons, hall, hcontents, List.flatten_cons, List.append_assoc]

theorem seri_blocks : ∀ (full : List Bytes) (current : Bytes),
    (∀ blk ∈ full, blk.length = blockSize) → current.length ≤ blockSize →
    seri (full ++ [current]) (full.flatten ++ current).length = some (full.flatten ++ current) := by
  intro full
  induction full with
  | nil =>
      intro current _ hcurrent
      cases current with
      | nil => rfl
      | cons byte bytes =>
          rw [List.nil_append, List.flatten_nil, List.nil_append, List.length_cons, seri]
          split
          · rename_i hfull
            have hlen : (byte :: bytes).length = blockSize := by
              rw [List.length_cons] at hcurrent ⊢
              omega
            have hzero : bytes.length + 1 - blockSize = 0 := by
              rw [← hlen, List.length_cons]
              omega
            rw [hzero, ← hlen]
            simp [seri]
          · rw [← List.length_cons, List.take_length]
  | cons blk full ih =>
      intro current hfull hcurrent
      have hblk : blk.length = blockSize := hfull blk (List.mem_cons_self ..)
      have hih := ih current (fun b hb => hfull b (List.mem_cons_of_mem _ hb)) hcurrent
      obtain ⟨len, hlen⟩ : ∃ len, (blk :: full).flatten ++ current = len := ⟨_, rfl⟩
      have hsucc : ((blk :: full).flatten ++ current).length =
          (full.flatten ++ current).length + 127 + 1 := by
        rw [List.flatten_cons, List.append_assoc, List.length_append, hblk, blockSize]
        omega
      have hrest : (full.flatten ++ current).length + 127 + 1 - blockSize =
          (full.flatten ++ current).length := by
        rw [blockSize]
        omega
      rw [List.cons_append, hsucc, seri, if_pos (by rw [blockSize]; omega), hrest, hih,
        ← hblk, List.take_length, Option.map_some, List.flatten_cons, List.append_assoc]

/-- The packed message is the concatenation of the pieces, and its size is theirs. -/
theorem luaseriPack_eq {vs : List Value} {pieces : List Bytes} (h : packFrom vs = .ok pieces) :
    luaseriPack vs = .ok (some (pieces.flatten, pieces.flatten.length)) := by
  obtain ⟨hok, hcontents⟩ := foldl_wbPush pieces WriteBlock.ok_wbInit
  have hall : (pieces.foldl wbPush wbInit).contents = pieces.flatten := by
    simpa [WriteBlock.contents, wbInit] using hcontents
  have hlen := hok.len
  have hseri := seri_blocks _ _ hok.full hok.current
  change seri _ (WriteBlock.contents _).length = some (WriteBlock.contents _) at hseri
  rw [hall] at hlen hseri
  unfold luaseriPack
  simp only [h, bind, Except.bind, Pure.pure, Except.pure, hlen, hseri, Option.map_some]

/-- A stream longer than a block is packed without a gap. -/
example : (luaseriPack [.string (List.replicate 200 7), .boolean true]).map
      (Option.map fun message => (message.1.length, message.2)) = .ok (some (204, 204)) := by
  decide +kernel

/-! ## One value -/

/-- The view that the receiver gets of a value: what `__pairs` yields makes a plain table. -/
def isKey : Value → Bool
  | .nil => false
  | k => !nanKey k

mutual

def Value.view : Value → Value
  | .nil => .nil
  | .boolean b => .boolean b
  | .integer n => .integer n
  | .real bits => .real bits
  | .lightuserdata p => .lightuserdata p
  | .string s => .string s
  | .table array hash => .table (viewArray array) (viewPairs hash)
  | .metapairs pairs => .table [] (viewPairs pairs)
  | .other typename => .other typename

def viewArray : List Value → List Value
  | [] => []
  | v :: array => v.view :: viewArray array

def viewPairs : List (Value × Value) → List (Value × Value)
  | [] => []
  | (k, v) :: pairs => (k.view, v.view) :: viewPairs pairs

end

/-- What Lua sees to in every table: no key is nil or NaN, and an integer key of the array is not
among the other pairs.  The keys of a `__pairs` have to be keys too. -/
inductive WellFormed : Value → Prop
  | nil : WellFormed .nil
  | boolean (b : Bool) : WellFormed (.boolean b)
  | integer (n : Int64) : WellFormed (.integer n)
  | real (bits : UInt64) : WellFormed (.real bits)
  | lightuserdata (p : UInt64) : WellFormed (.lightuserdata p)
  | string (s : Bytes) : WellFormed (.string s)
  | table {array : List Value} {hash : List (Value × Value)} :
      (∀ v ∈ array, WellFormed v) → (∀ p ∈ hash, WellFormed p.1) → (∀ p ∈ hash, WellFormed p.2) →
      (∀ p ∈ hash, isKey p.1 = true) → (∀ p ∈ hash, inArray array.length p.1 = false) →
      WellFormed (.table array hash)
  | metapairs {pairs : List (Value × Value)} :
      (∀ p ∈ pairs, WellFormed p.1) → (∀ p ∈ pairs, WellFormed p.2) →
      (∀ p ∈ pairs, isKey p.1 = true) → WellFormed (.metapairs pairs)

section Scalars

theorem toNat_combineType {t v : ℕ} (ht : t < 8) (hv : v < 32) :
    (combineType t v).toNat = t + 8 * v := by
  have hor : t ||| v <<< 3 = v <<< 3 + t := by
    rw [Nat.or_comm, ← Nat.shiftLeft_add_eq_or_of_lt (i := 3) ht]
  rw [combineType, hor, Nat.shiftLeft_eq, UInt8.toNat_ofNat']
  omega

theorem type_combineType {t v : ℕ} (ht : t < 8) (hv : v < 32) :
    todword [combineType t v] &&& 7 = t := by
  have hand := Nat.and_two_pow_sub_one_eq_mod (todword [combineType t v]) 3
  rw [todword, todword, toNat_combineType ht hv] at hand ⊢
  rw [hand]
  omega

theorem cookie_combineType {t v : ℕ} (ht : t < 8) (hv : v < 32) :
    todword [combineType t v] >>> 3 = v := by
  rw [todword, todword, toNat_combineType ht hv, Nat.shiftRight_eq_div_pow]
  omega

theorem reads_rbRead {sz : ℕ} (line : ℕ) {bytes : Bytes} (h : bytes.length = sz) :
    Reads (rbRead sz line) bytes bytes := reads_take _ h

theorem reads_fill (width line n : ℕ) :
    Reads (rbRead width line) (fill width n) (fill width n) :=
  reads_rbRead line (length_fill width n)

theorem toUInt32_toUInt64 (v : Int64) : v.toUInt64.toUInt32 = v.toInt32.toUInt32 := by
  apply UInt32.toBitVec_inj.mp
  have hbits : v.toInt32.toUInt32.toBitVec = v.toInt32.toBitVec := rfl
  rw [hbits, Int64.toBitVec_toInt32, BitVec.signExtend_eq_setWidth_of_le _ (by decide)]
  rfl

/-- An integer from 0 up to a bound, as the packer tells them apart. -/
theorem toNat_lt_of_lt {v : Int64} {b : ℕ} (hb : b < 2 ^ 63) (h0 : ¬ v < 0)
    (h : v < Int64.ofNat b) : v.toUInt64.toNat < b := by
  have hle : (0 : Int64) ≤ v := Int64.not_lt.mp h0
  have hlt := Int64.lt_iff_toInt_lt.mp h
  have hpos : 0 ≤ v.toInt := Int64.le_iff_toInt_le.mp hle
  rw [Int64.toInt_ofNat_of_lt hb] at hlt
  rw [Int64.toNat_toUInt64_of_le hle, ← Int64.toNat_toInt]
  omega

theorem reads_dword {v : Int64} (h : v.toInt32.toInt64 = v) :
    Reads (getInteger typeNumberDword) v (fill 4 v.toInt32.toUInt32.toNat) := by
  have hread := (reads_fill 4 382 v.toInt32.toUInt32.toNat).map fun n =>
    (UInt32.ofNat (todword n)).toInt32.toInt64
  rw [todword_fill 4 _ v.toInt32.toUInt32.toNat_lt, UInt32.ofNat_toNat] at hread
  rwa [show v.toInt32.toUInt32.toInt32 = v.toInt32 from rfl, h] at hread

/-- The cookie of an integer says how many bytes follow, and they are read as the integer. -/
theorem reads_wbInteger (v : Int64) : ∃ cookie payload,
    (wbInteger v).flatten = combineType typeNumber cookie :: payload ∧ cookie < 32 ∧
      cookie ≠ typeNumberReal ∧ Reads (getInteger cookie) v payload := by
  unfold wbInteger
  split_ifs with hzero hwide hneg hbyte hword
  · subst hzero
    exact ⟨typeNumberZero, [], rfl, by decide, by decide, reads_pure _⟩
  · refine ⟨typeNumberQword, fill 8 v.toUInt64.toNat, by simp, by decide, by decide, ?_⟩
    have h := (reads_fill 8 390 v.toUInt64.toNat).map fun n => (UInt64.ofNat (todword n)).toInt64
    rw [todword_fill 8 _ v.toUInt64.toNat_lt, UInt64.ofNat_toNat] at h
    exact h
  · exact ⟨typeNumberDword, _, by simp, by decide, by decide, reads_dword (not_not.mp hwide).symm⟩
  · refine ⟨typeNumberByte, fill 1 v.toUInt64.toUInt8.toNat, by simp, by decide, by decide, ?_⟩
    have h := (reads_fill 1 366 v.toUInt64.toUInt8.toNat).map fun n =>
      (UInt8.ofNat (todword n)).toUInt64.toInt64
    have hsame : v.toUInt64.toUInt8.toUInt64 = v.toUInt64 := by
      have hlt := toNat_lt_of_lt (b := 0x100) (by decide) hneg hbyte
      apply UInt64.toNat_inj.mp
      rw [UInt8.toNat_toUInt64, UInt64.toNat_toUInt8]
      omega
    rw [todword_fill 1 _ v.toUInt64.toUInt8.toNat_lt, UInt8.ofNat_toNat, hsame] at h
    exact h
  · refine ⟨typeNumberWord, fill 2 v.toUInt64.toUInt16.toNat, by simp, by decide, by decide, ?_⟩
    have h := (reads_fill 2 374 v.toUInt64.toUInt16.toNat).map fun n =>
      (UInt16.ofNat (todword n)).toUInt64.toInt64
    have hsame : v.toUInt64.toUInt16.toUInt64 = v.toUInt64 := by
      have hlt := toNat_lt_of_lt (b := 0x10000) (by decide) hneg hword
      apply UInt64.toNat_inj.mp
      rw [UInt16.toNat_toUInt64, UInt64.toNat_toUInt16]
      omega
    rw [todword_fill 2 _ v.toUInt64.toUInt16.toNat_lt, UInt16.ofNat_toNat, hsame] at h
    exact h
  · rw [toUInt32_toUInt64]
    exact ⟨typeNumberDword, _, by simp, by decide, by decide, reads_dword (not_not.mp hwide).symm⟩

theorem reads_unpackOne {t c n : ℕ} {v : Value} {payload : Bytes} (ht : t < 8) (hc : c < 32)
    (h : Reads (pushValue (unpackOne n) n t c) v payload) :
    Reads (unpackOne (n + 1)) v (combineType t c :: payload) := by
  have htype : Reads (rbRead 1 526) [combineType t c] [combineType t c] := reads_rbRead 526 rfl
  rw [← List.singleton_append]
  refine htype.bind ?_
  rwa [type_combineType ht hc, cookie_combineType ht hc]

theorem reads_getBuffer {s : Bytes} (h : s.length < 2 ^ 31) :
    Reads (getBuffer s.length) s s := by
  unfold getBuffer
  rw [if_pos h]
  exact reads_rbRead 425 rfl

end Scalars

/-! ## Tables -/

theorem except_bind_eq_ok {E A A' : Type} {x : Except E A} {f : A → Except E A'} {b : A'} :
    x >>= f = .ok b ↔ ∃ a, x = .ok a ∧ f a = .ok b := by
  cases x with
  | error e => simp [bind, Except.bind]
  | ok a => simp [bind, Except.bind]

theorem toNat_arraySize {n : ℕ} (h : n < 2 ^ 31) :
    (Int64.ofNat n).toInt32.toInt.toNat = n := by
  rw [Int64.toInt32_ofNat', Int32.toInt_ofNat_of_lt h, Int.toNat_natCast]

theorem reads_wbTableArray {one : Value → Except String (List Bytes)} {array : List Value}
    {pieces : List Bytes} (h : wbTableArray one array = .ok pieces)
    (hlen : array.length < 2 ^ 31) : ∃ c payload elements, c < 32 ∧
      packArray one array = .ok elements ∧
      pieces.flatten = combineType typeTable c :: (payload ++ elements.flatten) ∧
      Reads (arraySizeOf c) array.length payload := by
  obtain ⟨elements, helements, hrest⟩ := except_bind_eq_ok.mp h
  split at hrest
  · cases hrest
    obtain ⟨cookie, payload, hflat, hcookie, hreal, hread⟩ :=
      reads_wbInteger (Int64.ofNat array.length)
    refine ⟨31, combineType typeNumber cookie :: payload, elements, by decide, helements, ?_, ?_⟩
    · simp [hflat, maxCookie]
    · have htype : Reads (rbRead 1 438) [combineType typeNumber cookie]
          [combineType typeNumber cookie] := reads_rbRead 438 rfl
      unfold arraySizeOf
      rw [if_pos (show 31 = maxCookie - 1 from rfl)]
      rw [← List.singleton_append]
      refine htype.bind ?_
      simp only [type_combineType (t := typeNumber) (by decide) hcookie,
        cookie_combineType (t := typeNumber) (by decide) hcookie]
      rw [if_neg (by simpa using hreal)]
      have hsize := hread.map fun n => n.toInt32.toInt.toNat
      rwa [toNat_arraySize hlen] at hsize
  · rename_i hshort
    cases hrest
    have hsmall : array.length < 31 := Nat.lt_of_not_le hshort
    refine ⟨array.length, [], elements, by omega, helements, by simp, ?_⟩
    unfold arraySizeOf
    rw [if_neg (by rw [maxCookie]; omega)]
    exact reads_pure _

/-- The pairs of the array are left out of the walk over the table. -/
theorem wbTableHash_nextPairs (one : Value → Except String (List Bytes)) {size : ℕ}
    (hash : List (Value × Value)) (hsize : size < 2 ^ 63) : ∀ (array : List Value) (i : ℕ),
    0 < i → i + array.length ≤ size + 1 →
    wbTableHash one size (nextPairs i array hash) = wbTableHash one size hash := by
  intro array
  induction array with
  | nil => intro i _ _; rfl
  | cons v array ih =>
      intro i hi hle
      rw [List.length_cons] at hle
      have hrest := ih (i + 1) (by omega) (by omega)
      have hin : inArray size (.integer (Int64.ofNat i)) = true := by
        have hint : (Int64.ofNat i).toInt = i := Int64.toInt_ofNat_of_lt (by omega)
        simp only [inArray, hint, Bool.and_eq_true, decide_eq_true_eq]
        omega
      cases v with
      | nil => exact hrest
      | _ => simpa only [nextPairs, wbTableHash, hin, if_true] using hrest

theorem wbTableHash_eq_packPairs (one : Value → Except String (List Bytes)) (size : ℕ) :
    ∀ hash : List (Value × Value), (∀ p ∈ hash, inArray size p.1 = false) →
    wbTableHash one size hash = packPairs one hash := by
  intro hash
  induction hash with
  | nil => intro _; rfl
  | cons p hash ih =>
      intro h
      have hp : inArray size p.1 = false := h p (List.mem_cons_self ..)
      simp only [wbTableHash, packPairs, hp, Bool.false_eq_true, if_false,
        ih fun q hq => h q (List.mem_cons_of_mem _ hq)]

section Loops
variable {one : Value → Except String (List Bytes)} {r : ReadBlock Value} {limit : ℕ}
  (hpos : ∀ v pieces, one v = .ok pieces → 0 < pieces.flatten.length)
  (hone : ∀ v pieces, WellFormed v → one v = .ok pieces → pieces.flatten.length ≤ limit →
    Reads r v.view pieces.flatten)

include hpos in
theorem length_le_packArray : ∀ {array : List Value} {pieces : List Bytes},
    packArray one array = .ok pieces → array.length ≤ pieces.flatten.length := by
  intro array
  induction array with
  | nil => intro pieces _; exact Nat.zero_le _
  | cons v array ih =>
      intro pieces h
      obtain ⟨piece, hpiece, hmore⟩ := except_bind_eq_ok.mp h
      obtain ⟨rest, hrest, hend⟩ := except_bind_eq_ok.mp hmore
      cases hend
      have hv := hpos v piece hpiece
      have hlen := ih hrest
      rw [List.length_cons, List.flatten_append, List.length_append]
      omega

include hpos in
theorem length_le_wbTableArray {array : List Value} {pieces : List Bytes}
    (h : wbTableArray one array = .ok pieces) : array.length ≤ pieces.flatten.length := by
  obtain ⟨elements, helements, hrest⟩ := except_bind_eq_ok.mp h
  have hlen := length_le_packArray hpos helements
  split at hrest
  all_goals
    cases hrest
    simp only [List.flatten_cons, List.flatten_append, List.length_append]
    omega

include hone in
theorem reads_packArray : ∀ {array : List Value} {pieces : List Bytes},
    packArray one array = .ok pieces → (∀ v ∈ array, WellFormed v) →
    pieces.flatten.length ≤ limit →
    Reads (r.count array.length) (viewArray array) pieces.flatten := by
  intro array
  induction array with
  | nil => intro pieces h _ _; cases h; exact reads_pure []
  | cons v array ih =>
      intro pieces h hwf hlimit
      obtain ⟨piece, hpiece, hmore⟩ := except_bind_eq_ok.mp h
      obtain ⟨rest, hrest, hend⟩ := except_bind_eq_ok.mp hmore
      cases hend
      rw [List.flatten_append] at hlimit ⊢
      rw [List.length_append] at hlimit
      have hv := hone v piece (hwf v (List.mem_cons_self ..)) hpiece (by omega)
      have hmap := (ih hrest (fun w hw => hwf w (List.mem_cons_of_mem _ hw)) (by omega)).map
        fun vs => v.view :: vs
      exact hv.bind hmap

theorem isKey_view (k : Value) (h : isKey k = true) :
    nanKey k.view = false ∧ k.view ≠ .nil := by
  cases k with
  | nil => cases h
  | real bits =>
      rw [Value.view]
      exact ⟨by simpa [isKey] using h, Value.noConfusion⟩
  | _ =>
      rw [Value.view]
      exact ⟨rfl, Value.noConfusion⟩

theorem reads_unpackPairs_cons {k v : Value} {pairs : List (Value × Value)} {n : ℕ}
    {key value rest : Bytes} (hnan : nanKey k = false) (hk : k ≠ .nil) (hkey : Reads r k key)
    (hvalue : Reads r v value) (hrest : Reads (unpackPairs r n) pairs rest) :
    Reads (unpackPairs r (n + 1)) ((k, v) :: pairs) (key ++ (value ++ rest)) := by
  refine hkey.bind ?_
  have hinner : Reads (if nanKey k then .fail fun _ => .nanIndex
      else (unpackPairs r n).bind fun pairs => .pure ((k, v) :: pairs)) ((k, v) :: pairs) rest := by
    rw [if_neg (by rw [hnan]; exact Bool.false_ne_true)]
    exact hrest.map fun pairs => (k, v) :: pairs
  have hpair := hvalue.bind (g := fun v => if nanKey k then .fail fun _ => .nanIndex
    else (unpackPairs r n).bind fun pairs => .pure ((k, v) :: pairs)) hinner
  cases k with
  | nil => exact absurd rfl hk
  | _ => exact hpair

include hpos hone in
theorem reads_packPairs (hnil : 0 < limit → Reads r .nil wbNil.flatten) :
    ∀ {pairs : List (Value × Value)} {pieces : List Bytes} {fuel : ℕ},
    packPairs one pairs = .ok pieces → (∀ p ∈ pairs, WellFormed p.1) →
    (∀ p ∈ pairs, WellFormed p.2) → (∀ p ∈ pairs, isKey p.1 = true) →
    pieces.flatten.length ≤ limit → pieces.flatten.length ≤ fuel →
    Reads (unpackPairs r fuel) (viewPairs pairs) pieces.flatten := by
  intro pairs
  induction pairs with
  | nil =>
      intro pieces fuel h _ _ _ hlimit hfuel
      cases h
      have hone : wbNil.flatten.length = 1 := rfl
      rw [hone] at hlimit hfuel
      obtain ⟨n, rfl⟩ : ∃ n, fuel = n + 1 := ⟨fuel - 1, by omega⟩
      have hend : Reads (unpackPairs r (n + 1)) [] (wbNil.flatten ++ []) :=
        (hnil hlimit).bind (reads_pure [])
      rwa [List.append_nil] at hend
  | cons p pairs ih =>
      intro pieces fuel h hkeys hvalues hkey hlimit hfuel
      obtain ⟨key, hk, hmore⟩ := except_bind_eq_ok.mp h
      obtain ⟨value, hv, hmore⟩ := except_bind_eq_ok.mp hmore
      obtain ⟨rest, hrest, hend⟩ := except_bind_eq_ok.mp hmore
      cases hend
      have hp := List.mem_cons_self (a := p) (l := pairs)
      have hin : ∀ q ∈ pairs, q ∈ p :: pairs := fun q hq => List.mem_cons_of_mem _ hq
      have hposk := hpos p.1 key hk
      rw [List.flatten_append, List.flatten_append, List.append_assoc] at hlimit hfuel ⊢
      rw [List.length_append, List.length_append] at hlimit hfuel
      obtain ⟨n, rfl⟩ : ∃ n, fuel = n + 1 := ⟨fuel - 1, by omega⟩
      obtain ⟨hnan, hne⟩ := isKey_view p.1 (hkey p hp)
      exact reads_unpackPairs_cons hnan hne (hone p.1 key (hkeys p hp) hk (by omega))
        (hone p.2 value (hvalues p hp) hv (by omega))
        (ih hrest (fun q hq => hkeys q (hin q hq)) (fun q hq => hvalues q (hin q hq))
          (fun q hq => hkey q (hin q hq)) (by omega) (by omega))

end Loops

end Doudizhu.Skynet.LuaSeri
