import Doudizhu.Skynet.SeriStreams

/-! # Round trip of messages between services

`skynet.unpack` of what `skynet.pack` made gives the values back, and a message that was cut off
gives an error or the first of its values. -/

set_option autoImplicit false

namespace Doudizhu.Skynet.LuaSeri

open Network (Bytes fill todword length_fill todword_fill)
open Reader (Reads Extends Agree reads_pure)

section Values

theorem combineType_cons_of_packOne {levels : ℕ} {v : Value} {pieces : List Bytes}
    (h : packOne levels v = .ok pieces) : ∃ byte bytes, pieces.flatten = byte :: bytes := by
  cases levels with
  | zero => cases h
  | succ levels =>
      cases v with
      | integer n =>
          cases h
          obtain ⟨cookie, payload, hflat, -⟩ := reads_wbInteger n
          exact ⟨_, _, hflat⟩
      | string s =>
          cases h
          unfold wbString
          split_ifs
          all_goals exact ⟨_, _, rfl⟩
      | table array hash =>
          obtain ⟨elements, helements, hmore⟩ := except_bind_eq_ok.mp h
          obtain ⟨pairs, hpairs, hend⟩ := except_bind_eq_ok.mp hmore
          obtain ⟨found, hfound, hrest⟩ := except_bind_eq_ok.mp helements
          cases hend
          split at hrest
          all_goals
            cases hrest
            exact ⟨_, _, rfl⟩
      | metapairs pairs =>
          obtain ⟨found, hfound, hend⟩ := except_bind_eq_ok.mp h
          cases hend
          exact ⟨_, _, rfl⟩
      | other typename => cases h
      | _ =>
          cases h
          exact ⟨_, _, rfl⟩

theorem packOne_pos {levels : ℕ} {v : Value} {pieces : List Bytes}
    (h : packOne levels v = .ok pieces) : 0 < pieces.flatten.length := by
  obtain ⟨byte, bytes, hflat⟩ := combineType_cons_of_packOne h
  rw [hflat]
  exact Nat.succ_pos _

theorem reads_longString {s : Bytes} {width : ℕ} (line : ℕ) (hs : s.length < 2 ^ 31)
    (hwidth : s.length < 256 ^ width) :
    Reads ((rbRead width line).bind fun n => (getBuffer (todword n)).bind fun s =>
      .pure (Value.string s)) (.string s) (fill width s.length ++ s) := by
  have hbuffer : Reads ((getBuffer (todword (fill width s.length))).bind fun s =>
      .pure (Value.string s)) (.string s) s := by
    rw [todword_fill width _ hwidth]
    exact (reads_getBuffer hs).map Value.string
  exact (reads_fill width line s.length).bind hbuffer

theorem reads_wbString (s : Bytes) (hs : s.length < 2 ^ 31) (n : ℕ) :
    Reads (unpackOne (n + 1)) (.string s) (wbString s).flatten := by
  have hbuffer := (reads_getBuffer hs).map Value.string
  unfold wbString
  split_ifs with hshort hpos hword
  · have hread := reads_unpackOne (t := typeShortString) (n := n) (by decide) hshort hbuffer
    simpa using hread
  · have hnil : s = [] := by simpa using hpos
    subst hnil
    exact reads_unpackOne (t := typeShortString) (n := n) (by decide) hshort hbuffer
  · simpa using reads_unpackOne (t := typeLongString) (c := 2) (n := n) (by decide) (by decide)
      (reads_longString 491 hs hword)
  · simpa using reads_unpackOne (t := typeLongString) (c := 4) (n := n) (by decide) (by decide)
      (reads_longString 502 hs (by omega))

theorem length_le_wbString (s : Bytes) : s.length ≤ (wbString s).flatten.length := by
  unfold wbString
  split_ifs with hshort hpos
  · simp
  · simp only [Nat.not_lt, Nat.le_zero] at hpos
    omega
  · simp only [List.flatten_cons, List.flatten_nil, List.length_append, List.append_nil]
    omega
  · simp only [List.flatten_cons, List.flatten_nil, List.length_append, List.append_nil]
    omega

theorem reads_unpackTable {c n : ℕ} {payload elements pairs : Bytes} {array : List Value}
    {hash : List (Value × Value)} {size : ℕ} (hc : c < 32)
    (hsize : Reads (arraySizeOf c) size payload)
    (harray : Reads ((unpackOne n).count size) array elements)
    (hhash : Reads (unpackPairs (unpackOne n) n) hash pairs) :
    Reads (unpackOne (n + 1)) (.table array hash)
      (combineType typeTable c :: (payload ++ (elements ++ pairs))) := by
  refine reads_unpackOne (t := typeTable) (by decide) hc ?_
  exact hsize.bind (harray.bind (hhash.map fun hash => Value.table array hash))

/-- A packed value is read back whatever follows it.  The induction is on the levels that the
packer had left. -/
theorem reads_packOne (levels : ℕ) : ∀ {v : Value} {pieces : List Bytes} {n : ℕ}, WellFormed v →
    packOne levels v = .ok pieces → pieces.flatten.length < 2 ^ 31 →
    pieces.flatten.length ≤ n → Reads (unpackOne n) v.view pieces.flatten := by
  induction levels with
  | zero => intro v pieces n _ h; cases h
  | succ levels ih =>
      intro v pieces n hwf h hlt hle
      have hpos := packOne_pos h
      obtain ⟨n, rfl⟩ : ∃ m, n = m + 1 := ⟨n - 1, by omega⟩
      have hone : ∀ w ps, WellFormed w → packOne levels w = .ok ps →
          ps.flatten.length ≤ min n (2 ^ 31 - 1) → Reads (unpackOne n) w.view ps.flatten :=
        fun w ps hw hps hlen => ih hw hps (by omega) (by omega)
      have hnil : 0 < min n (2 ^ 31 - 1) → Reads (unpackOne n) .nil wbNil.flatten := by
        intro hmin
        obtain ⟨m, rfl⟩ : ∃ m, n = m + 1 := ⟨n - 1, by omega⟩
        exact reads_unpackOne (t := typeNil) (c := 0) (by decide) (by decide) (reads_pure _)
      cases hwf with
      | nil =>
          cases h
          exact reads_unpackOne (t := typeNil) (c := 0) (by decide) (by decide) (reads_pure _)
      | boolean b =>
          cases h
          cases b
          · exact reads_unpackOne (t := typeBoolean) (c := 0) (by decide) (by decide) (reads_pure _)
          · exact reads_unpackOne (t := typeBoolean) (c := 1) (by decide) (by decide) (reads_pure _)
      | integer x =>
          cases h
          obtain ⟨cookie, payload, hflat, hcookie, hreal, hread⟩ := reads_wbInteger x
          rw [hflat]
          refine reads_unpackOne (t := typeNumber) (by decide) hcookie ?_
          have hpush : pushValue (unpackOne n) n typeNumber cookie =
              (getInteger cookie).bind fun x => .pure (.integer x) := if_neg hreal
          rw [hpush, Value.view]
          exact hread.map Value.integer
      | real bits =>
          cases h
          have hread := ((reads_fill 8 405 bits.toNat).map fun n =>
            UInt64.ofNat (todword n)).map Value.real
          rw [todword_fill 8 _ bits.toNat_lt, UInt64.ofNat_toNat] at hread
          simpa [wbReal, Value.view] using
            reads_unpackOne (t := typeNumber) (c := typeNumberReal) (n := n) (by decide)
              (by decide) hread
      | lightuserdata p =>
          cases h
          have hread := ((reads_fill 8 415 p.toNat).map fun v =>
            UInt64.ofNat (todword v)).map Value.lightuserdata
          rw [todword_fill 8 _ p.toNat_lt, UInt64.ofNat_toNat] at hread
          simpa [wbPointer, Value.view] using
            reads_unpackOne (t := typeUserdata) (c := 0) (n := n) (by decide) (by decide) hread
      | string s =>
          cases h
          have hs := length_le_wbString s
          rw [Value.view]
          exact reads_wbString s (by omega) n
      | table harray hkeys hvalues hkey hin =>
          rename_i array hash
          obtain ⟨pieces, hpieces, hmore⟩ := except_bind_eq_ok.mp h
          obtain ⟨rest, hrest, hend⟩ := except_bind_eq_ok.mp hmore
          cases hend
          have hlen := length_le_wbTableArray (fun _ _ => packOne_pos) hpieces
          have hsum : (pieces ++ rest).flatten.length =
              pieces.flatten.length + rest.flatten.length := by
            rw [List.flatten_append, List.length_append]
          obtain ⟨c, payload, elements, hc, helements, hflat, hsize⟩ :=
            reads_wbTableArray hpieces (by omega)
          rw [wbTableHash_nextPairs _ hash (by omega) array 1 (by decide) (by omega),
            wbTableHash_eq_packPairs _ _ _ hin] at hrest
          rw [List.flatten_append, hflat, List.cons_append, List.append_assoc] at hlt hle ⊢
          rw [List.length_cons, List.length_append, List.length_append] at hlt hle
          have hread : Reads ((unpackOne n).count array.length) (viewArray array)
              elements.flatten := reads_packArray hone helements harray (by omega)
          have hpairs : Reads (unpackPairs (unpackOne n) n) (viewPairs hash) rest.flatten :=
            reads_packPairs (fun _ _ => packOne_pos) hone hnil hrest hkeys hvalues hkey (by omega)
              (by omega)
          rw [Value.view]
          exact reads_unpackTable hc hsize hread hpairs
      | metapairs hkeys hvalues hkey =>
          rename_i pairs
          obtain ⟨found, hfound, hend⟩ := except_bind_eq_ok.mp h
          cases hend
          rw [List.flatten_cons, List.singleton_append, List.length_cons] at hlt hle
          have hread : Reads (unpackPairs (unpackOne n) n) (viewPairs pairs) found.flatten :=
            reads_packPairs (fun _ _ => packOne_pos) hone hnil hfound hkeys hvalues hkey (by omega)
              (by omega)
          rw [Value.view]
          have harray : Reads ((unpackOne n).count 0) [] [] := reads_pure []
          exact reads_unpackTable (c := 0) (by decide) (reads_pure 0) harray hread

theorem reads_unpackNext {levels : ℕ} {v : Value} {pieces : List Bytes} (hwf : WellFormed v)
    (h : packOne levels v = .ok pieces) (hlt : pieces.flatten.length < 2 ^ 31) :
    Reads unpackNext v.view pieces.flatten := by
  intro rest
  exact reads_packOne levels hwf h hlt (by simp) rest

end Values

/-! ## Streams that go on -/

section Extends
variable {r r' : ReadBlock Value}

theorem extends_rbRead (sz line : ℕ) : Extends (rbRead sz line) (rbRead sz line) :=
  Reader.extends_take sz _

theorem extends_getInteger (cookie : ℕ) : Extends (getInteger cookie) (getInteger cookie) := by
  unfold getInteger
  split_ifs
  · exact Reader.extends_pure _
  · exact (extends_rbRead 1 366).map _
  · exact (extends_rbRead 2 374).map _
  · exact (extends_rbRead 4 382).map _
  · exact (extends_rbRead 8 390).map _
  · exact Reader.extends_fail _ _

theorem extends_getBuffer (len : ℕ) : Extends (getBuffer len) (getBuffer len) := by
  unfold getBuffer
  split_ifs
  · exact extends_rbRead len 425
  · exact Reader.extends_fail _ _

theorem extends_arraySizeOf (cookie : ℕ) : Extends (arraySizeOf cookie) (arraySizeOf cookie) := by
  unfold arraySizeOf
  split_ifs
  · refine (extends_rbRead 1 438).bind fun t => ?_
    dsimp only
    split_ifs
    · exact Reader.extends_fail _ _
    · exact (extends_getInteger _).map _
  · exact Reader.extends_pure _

theorem extends_unpackPairs (hr : Extends r r') : ∀ {n m : ℕ}, n ≤ m →
    Extends (unpackPairs r n) (unpackPairs r' m) := by
  intro n
  induction n with
  | zero => intro m _; exact Reader.extends_fail _ _
  | succ n ih =>
      intro m hm
      obtain ⟨m, rfl⟩ : ∃ k, m = k + 1 := ⟨m - 1, by omega⟩
      refine hr.bind fun k => ?_
      have hpair : Extends
          (r.bind fun v => if nanKey k then .fail fun _ => .nanIndex
            else (unpackPairs r n).bind fun pairs => .pure ((k, v) :: pairs))
          (r'.bind fun v => if nanKey k then .fail fun _ => .nanIndex
            else (unpackPairs r' m).bind fun pairs => .pure ((k, v) :: pairs)) := by
        refine hr.bind fun v => ?_
        split_ifs
        · exact Reader.extends_fail _ _
        · exact (ih (by omega)).map _
      cases k with
      | nil => exact Reader.extends_pure _
      | _ => exact hpair

theorem extends_pushValue (hr : Extends r r') {n m : ℕ} (hle : n ≤ m) (type cookie : ℕ) :
    Extends (pushValue r n type cookie) (pushValue r' m type cookie) := by
  unfold pushValue
  split_ifs
  · exact Reader.extends_pure _
  · exact Reader.extends_pure _
  · exact ((extends_rbRead 8 405).map _).map _
  · exact (extends_getInteger cookie).map _
  · exact ((extends_rbRead 8 415).map _).map _
  · exact (extends_getBuffer cookie).map _
  · exact (extends_rbRead 2 491).bind fun n => (extends_getBuffer _).map _
  · exact Reader.extends_fail _ _
  · exact (extends_rbRead 4 502).bind fun n => (extends_getBuffer _).map _
  · exact (extends_arraySizeOf cookie).bind fun size =>
      (hr.count size).bind fun array => (extends_unpackPairs hr hle).map _
  · exact Reader.extends_fail _ _

theorem extends_unpackOne {n : ℕ} : ∀ {m : ℕ}, n ≤ m → Extends (unpackOne n) (unpackOne m) := by
  induction n with
  | zero => intro m _; exact Reader.extends_fail _ _
  | succ n ih =>
      intro m hm
      obtain ⟨m, rfl⟩ : ∃ k, m = k + 1 := ⟨m - 1, by omega⟩
      exact (extends_rbRead 1 526).bind fun t =>
        extends_pushValue (ih (Nat.le_of_succ_le_succ hm)) (Nat.le_of_succ_le_succ hm) _ _

theorem extends_unpackNext : Extends unpackNext unpackNext := by
  intro s v rest h u
  exact extends_unpackOne (m := (s ++ u).length) (by simp) s v rest h u

end Extends

section Fuel
variable {r r' : ReadBlock Value} {k : ℕ}

theorem agree_rbRead (k sz line : ℕ) : Agree sz k (rbRead sz line) (rbRead sz line) :=
  Reader.agree_take k sz _

theorem agree_getInteger (k cookie : ℕ) : Agree 0 k (getInteger cookie) (getInteger cookie) := by
  unfold getInteger
  split_ifs
  · exact Reader.agree_pure k _
  · exact ((agree_rbRead k 1 366).map _).weaken (Nat.zero_le _) (Nat.le_refl _)
  · exact ((agree_rbRead k 2 374).map _).weaken (Nat.zero_le _) (Nat.le_refl _)
  · exact ((agree_rbRead k 4 382).map _).weaken (Nat.zero_le _) (Nat.le_refl _)
  · exact ((agree_rbRead k 8 390).map _).weaken (Nat.zero_le _) (Nat.le_refl _)
  · exact Reader.agree_fail 0 k _

theorem agree_getBuffer (k len : ℕ) : Agree 0 k (getBuffer len) (getBuffer len) := by
  unfold getBuffer
  split_ifs
  · exact (agree_rbRead k len 425).weaken (Nat.zero_le _) (Nat.le_refl _)
  · exact Reader.agree_fail 0 k _

theorem agree_arraySizeOf (k cookie : ℕ) : Agree 0 k (arraySizeOf cookie) (arraySizeOf cookie) := by
  unfold arraySizeOf
  split_ifs
  · refine Agree.weaken (d := 1 + 0) ?_ (Nat.zero_le _) (Nat.le_refl k)
    refine (agree_rbRead k 1 438).bind fun t => ?_
    dsimp only
    split_ifs
    · exact Reader.agree_fail 0 _ _
    · exact (agree_getInteger _ _).map _
  · exact Reader.agree_pure k _

theorem agree_unpackPairs {n : ℕ} : ∀ {m k : ℕ}, k ≤ n → k ≤ m → Agree 1 k r r' →
    r [] = .error (.invalidStream 0 526) → r' [] = .error (.invalidStream 0 526) →
    Agree 0 k (unpackPairs r n) (unpackPairs r' m) := by
  have hempty : ∀ (f : ReadBlock Value) (m : ℕ), f [] = .error (.invalidStream 0 526) →
      unpackPairs f m [] = .error (.invalidStream 0 526) := by
    intro f m hf
    cases m with
    | zero => rfl
    | succ m => simp only [unpackPairs, Reader.bind, hf]
  induction n with
  | zero =>
      intro m k hkn _ _ hr hr' s hs
      have hnil : s = [] := List.eq_nil_of_length_eq_zero (by omega)
      subst hnil
      rw [hempty r 0 hr, hempty r' m hr']
      exact ⟨rfl, fun a t h => by cases h⟩
  | succ n ih =>
      intro m k hkn hkm hagree hr hr'
      cases m with
      | zero =>
          intro s hs
          have hnil : s = [] := List.eq_nil_of_length_eq_zero (by omega)
          subst hnil
          rw [hempty r _ hr, hempty r' _ hr']
          exact ⟨rfl, fun a t h => by cases h⟩
      | succ m =>
          refine Agree.weaken (d := 1 + 0) ?_ (Nat.zero_le _) (Nat.le_refl k)
          refine hagree.bind fun key => ?_
          have hpair : Agree 0 (k - 1)
              (r.bind fun v => if nanKey key then .fail fun _ => .nanIndex
                else (unpackPairs r n).bind fun pairs => .pure ((key, v) :: pairs))
              (r'.bind fun v => if nanKey key then .fail fun _ => .nanIndex
                else (unpackPairs r' m).bind fun pairs => .pure ((key, v) :: pairs)) := by
            have hshort := hagree.weaken (Nat.le_refl 1) (Nat.sub_le k 1)
            refine Agree.weaken (d := 1 + 0) ?_ (Nat.zero_le _) (Nat.le_refl (k - 1))
            refine hshort.bind fun v => ?_
            split_ifs
            · exact Reader.agree_fail 0 _ _
            · exact (ih (by omega) (by omega) (hagree.weaken (Nat.le_refl 1) (by omega)) hr
                hr').map _
          cases key with
          | nil => exact Reader.agree_pure _ _
          | _ => exact hpair

theorem agree_pushValue {n m : ℕ} (hn : k ≤ n) (hm : k ≤ m) (hagree : Agree 1 k r r')
    (hr : r [] = .error (.invalidStream 0 526)) (hr' : r' [] = .error (.invalidStream 0 526))
    (type cookie : ℕ) : Agree 0 k (pushValue r n type cookie) (pushValue r' m type cookie) := by
  have hzero := hagree.weaken (Nat.zero_le 1) (Nat.le_refl k)
  unfold pushValue
  split_ifs
  · exact Reader.agree_pure k _
  · exact Reader.agree_pure k _
  · exact (((agree_rbRead k 8 405).map _).map _).weaken (Nat.zero_le _) (Nat.le_refl _)
  · exact (agree_getInteger k cookie).map _
  · exact (((agree_rbRead k 8 415).map _).map _).weaken (Nat.zero_le _) (Nat.le_refl _)
  · exact (agree_getBuffer k cookie).map _
  · exact ((agree_rbRead k 2 491).bind fun n => (agree_getBuffer _ _).map _).weaken
      (Nat.zero_le _) (Nat.le_refl _)
  · exact Reader.agree_fail 0 k _
  · exact ((agree_rbRead k 4 502).bind fun n => (agree_getBuffer _ _).map _).weaken
      (Nat.zero_le _) (Nat.le_refl _)
  · exact (agree_arraySizeOf k cookie).bind fun size => (hzero.count size).bind fun array =>
      (agree_unpackPairs hn hm hagree hr hr').map _
  · exact Reader.agree_fail 0 k _

theorem unpackOne_nil (n : ℕ) : unpackOne n [] = .error (.invalidStream 0 526) := by
  cases n <;> rfl

theorem agree_unpackOne {n : ℕ} : ∀ {m k : ℕ}, k ≤ n → k ≤ m →
    Agree 1 k (unpackOne n) (unpackOne m) := by
  have hend : ∀ {m k n : ℕ}, k = 0 → Agree 1 k (unpackOne n) (unpackOne m) := by
    intro m k n hk s hs
    have hnil : s = [] := List.eq_nil_of_length_eq_zero (by omega)
    subst hnil
    rw [unpackOne_nil, unpackOne_nil]
    exact ⟨rfl, fun a t h => by cases h⟩
  induction n with
  | zero => intro m k hn _; exact hend (by omega)
  | succ n ih =>
      intro m k hn hm
      cases m with
      | zero => exact hend (by omega)
      | succ m =>
          exact (agree_rbRead k 1 526).bind fun t =>
            agree_pushValue (by omega) (by omega) (ih (by omega) (by omega)) (unpackOne_nil n)
              (unpackOne_nil m) _ _

theorem unpackOne_eq_unpackNext {n : ℕ} {rb : Bytes} (h : rb.length ≤ n) :
    unpackOne n rb = unpackNext rb :=
  (agree_unpackOne h (Nat.le_refl rb.length) rb (Nat.le_refl _)).1

end Fuel

/-! ## Whole messages -/

theorem packArray_eq_ok {one : Value → Except String (List Bytes)} :
    ∀ {vs : List Value} {pieces : List Bytes}, packArray one vs = .ok pieces →
    ∃ encs, List.Forall₂ (fun v ps => one v = .ok ps) vs encs ∧ pieces = encs.flatten := by
  intro vs
  induction vs with
  | nil => intro pieces h; cases h; exact ⟨[], .nil, rfl⟩
  | cons v vs ih =>
      intro pieces h
      obtain ⟨piece, hpiece, hmore⟩ := except_bind_eq_ok.mp h
      obtain ⟨rest, hrest, hend⟩ := except_bind_eq_ok.mp hmore
      cases hend
      obtain ⟨encs, hencs, rfl⟩ := ih hrest
      exact ⟨piece :: encs, .cons hpiece hencs, rfl⟩

theorem packArray_of_forall₂ {one : Value → Except String (List Bytes)} {vs : List Value}
    {encs : List (List Bytes)} (h : List.Forall₂ (fun v ps => one v = .ok ps) vs encs) :
    packArray one vs = .ok encs.flatten := by
  induction h with
  | nil => rfl
  | cons hv _ ih => simp only [packArray, hv, ih, bind, Except.bind]; rfl

/-- The pieces of the values of a message, each with its value. -/
theorem packed_pieces {vs : List Value} {message : Option (Bytes × ℕ)}
    (h : luaseriPack vs = .ok message) : ∃ encs : List (List Bytes),
      List.Forall₂ (fun v ps => packOne (maxDepth + 1) v = .ok ps) vs encs ∧
      message = some ((encs.map List.flatten).flatten, (encs.map List.flatten).flatten.length) := by
  obtain ⟨pieces, hpieces, -⟩ := except_bind_eq_ok.mp h
  obtain ⟨encs, hencs, rfl⟩ := packArray_eq_ok hpieces
  rw [luaseriPack_eq hpieces, List.flatten_flatten] at h
  exact ⟨encs, hencs, (Except.ok.inj h).symm⟩

theorem forall₂_reads {vs : List Value} {encs : List (List Bytes)} {total : ℕ}
    (h : List.Forall₂ (fun v ps => packOne (maxDepth + 1) v = .ok ps) vs encs)
    (htotal : total < 2 ^ 31) : (∀ v ∈ vs, WellFormed v) →
    (encs.map List.flatten).flatten.length ≤ total →
    List.Forall₂ (Reads unpackNext) (vs.map Value.view) (encs.map List.flatten) := by
  induction h with
  | nil => intro _ _; exact .nil
  | cons hv _ ih =>
      intro hwf hle
      rw [List.map_cons, List.flatten_cons, List.length_append] at hle
      have hhead := hwf _ (List.mem_cons_self ..)
      exact .cons (reads_unpackNext hhead hv (by omega))
        (ih (fun w hw => hwf w (List.mem_cons_of_mem _ hw)) (by omega))

theorem ne_nil_of_packed {vs : List Value} {encs : List (List Bytes)}
    (h : List.Forall₂ (fun v ps => packOne (maxDepth + 1) v = .ok ps) vs encs) :
    ∀ enc ∈ encs.map List.flatten, enc ≠ [] := by
  intro enc henc
  obtain ⟨ps, hps, rfl⟩ := List.mem_map.mp henc
  obtain ⟨v, hv⟩ : ∃ v, packOne (maxDepth + 1) v = .ok ps := by
    induction h with
    | nil => cases hps
    | cons hv _ ih =>
        cases hps with
        | head => exact ⟨_, hv⟩
        | tail _ hmem => exact ih hmem (List.mem_map_of_mem hmem)
  exact List.ne_nil_of_length_pos (packOne_pos hv)

/-- The message has the size that is given with it, and gives the values back: tables with their
arrays, their holes and their other pairs, as deep as the packer goes. -/
theorem unpack_packed {vs : List Value} {message : Option (Bytes × ℕ)}
    (hwf : ∀ v ∈ vs, WellFormed v) (h : luaseriPack vs = .ok message) :
    ∃ buffer, message = some (buffer, buffer.length) ∧
      (buffer.length < 2 ^ 31 → luaseriUnpack buffer = .ok (vs.map Value.view)) := by
  obtain ⟨encs, hencs, hmessage⟩ := packed_pieces h
  refine ⟨_, hmessage, fun hlt => ?_⟩
  have hreads := forall₂_reads hencs hlt hwf (Nat.le_refl _)
  unfold luaseriUnpack
  rw [Reader.many_flatten hreads (ne_nil_of_packed hencs) _ (Nat.le_refl _)]
  rfl

theorem wellFormed_pair : ∀ v ∈ [Value.metapairs [(.integer 1, .string [104])], .boolean true],
    WellFormed v := by
  intro v hv
  rcases List.mem_cons.mp hv with rfl | htrue
  · refine .metapairs ?_ ?_ ?_
    all_goals
      intro p hp
      rw [List.mem_singleton.mp hp]
    · exact .integer 1
    · exact .string [104]
    · rfl
  · rw [List.mem_singleton.mp htrue]
    exact .boolean true

theorem unpack_packed_pair :
    luaseriPack [.metapairs [(.integer 1, .string [104])], .boolean true] =
        .ok (some ([6, 10, 1, 12, 104, 0, 9], 7)) ∧
      luaseriUnpack [6, 10, 1, 12, 104, 0, 9] =
        .ok [.table [] [(.integer 1, .string [104])], .boolean true] := by
  have hpack : luaseriPack [.metapairs [(.integer 1, .string [104])], .boolean true] =
      .ok (some ([6, 10, 1, 12, 104, 0, 9], 7)) := by decide +kernel
  obtain ⟨buffer, hbuffer, hread⟩ := unpack_packed wellFormed_pair hpack
  cases hbuffer
  refine ⟨hpack, ?_⟩
  simpa only [List.map_cons, List.map_nil, Value.view, viewPairs] using hread (by decide)

/-- A beginning of a message that is unpacked at all is the message of the first of its values. -/
theorem unpack_cut {vs : List Value} {buffer : Bytes} {sz : ℕ} (hwf : ∀ v ∈ vs, WellFormed v)
    (h : luaseriPack vs = .ok (some (buffer, sz))) (hlt : sz < 2 ^ 31) {beginning : Bytes}
    {ws : List Value} (hcut : beginning <+: buffer) (hws : luaseriUnpack beginning = .ok ws) :
    ∃ k, luaseriPack (vs.take k) = .ok (some (beginning, beginning.length)) ∧
      ws = (vs.take k).map Value.view := by
  obtain ⟨encs, hencs, hmessage⟩ := packed_pieces h
  cases hmessage
  have hreads := forall₂_reads hencs hlt hwf (Nat.le_refl _)
  unfold luaseriUnpack at hws
  obtain ⟨⟨found, rest⟩, hmany, hfound⟩ : ∃ result, unpackNext.many beginning.length beginning =
      .ok result ∧ result.1 = ws := by
    cases hresult : unpackNext.many beginning.length beginning with
    | error e => rw [hresult] at hws; cases hws
    | ok result => rw [hresult] at hws; exact ⟨result, rfl, Except.ok.inj hws⟩
  obtain ⟨k, hbeginning, hk⟩ := Reader.many_prefix extends_unpackNext hreads
    (ne_nil_of_packed hencs) hcut (Nat.le_refl _) hmany
  have hpack := luaseriPack_eq (packArray_of_forall₂ (List.forall₂_take k hencs))
  rw [List.flatten_flatten, List.map_take, ← hbeginning] at hpack
  exact ⟨k, hpack, by rw [← hfound, hk, List.map_take]⟩

theorem unpack_cut_pair :
    ∃ k, luaseriPack ([Value.metapairs [(.integer 1, .string [104])], .boolean true].take k) =
        .ok (some ([6, 10, 1, 12, 104, 0], 6)) ∧
      [Value.table [] [(.integer 1, .string [104])]] =
        ([Value.metapairs [(.integer 1, .string [104])], .boolean true].take k).map Value.view := by
  have hpack : luaseriPack [.metapairs [(.integer 1, .string [104])], .boolean true] =
      .ok (some ([6, 10, 1, 12, 104, 0, 9], 7)) := by decide +kernel
  exact unpack_cut wellFormed_pair hpack (by decide) ⟨[9], rfl⟩ rfl

end Doudizhu.Skynet.LuaSeri
