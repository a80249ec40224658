import Doudizhu.Lib.Reader
import Doudizhu.Network.SocketManager

/-! # The receive buffer of a socket

`lua-socket.c`: what a socket has received is a chain of the blocks as they came, read at `offset`
in the first of them.  `contents` is the bytes that are left; taking a number of bytes and taking a
line are the readers of these bytes, wherever the blocks end.

The nodes come from a pool and go back to it; here a chain is the list of the blocks of its nodes.
`none` stands for a null pointer that is followed. -/

set_option autoImplicit false

namespace Doudizhu.Skynet

open Network (Bytes)
open Reader (cutAt cutAt_sound cutAt_eq_none_of_short)

structure SocketBuffer where
  size : ℕ
  offset : ℕ
  chain : List Bytes

namespace SocketBuffer

def empty : SocketBuffer := ⟨0, 0, []⟩

def push (sb : SocketBuffer) (msg : Bytes) : SocketBuffer × ℕ :=
  ({ sb with chain := sb.chain ++ [msg], size := sb.size + msg.length }, sb.size + msg.length)

def returnFreeNode (sb : SocketBuffer) : SocketBuffer :=
  { sb with offset := 0, chain := sb.chain.tail }

/-- The loop of `pop_lstring`: what it adds to the string, and where it leaves the chain. -/
def popLoop : List Bytes → ℕ → ℕ → ℕ → Option (Bytes × ℕ × List Bytes)
  | [], _, _, _ => none
  | current :: next, offset, sz, skip =>
      let bytes := current.length - offset
      if bytes ≥ sz then
        let added := if sz > skip then (current.drop offset).take (sz - skip) else []
        if bytes = sz then some (added, 0, next)
        else some (added, offset + sz, current :: next)
      else
        let added := if sz > skip then (current.drop offset).take (min (sz - skip) bytes) else []
        if sz - bytes = 0 then some (added, 0, next)
        else (popLoop next 0 (sz - bytes) skip).map fun rest => (added ++ rest.1, rest.2)

def popLstring (sb : SocketBuffer) (sz skip : ℕ) : Option (Bytes × SocketBuffer) :=
  match sb.chain with
  | [] => none
  | current :: _ =>
      if sz < current.length - sb.offset then
        some ((current.drop sb.offset).take (sz - skip), { sb with offset := sb.offset + sz })
      else if sz = current.length - sb.offset then
        some ((current.drop sb.offset).take (sz - skip), sb.returnFreeNode)
      else (popLoop sb.chain sb.offset sz skip).map fun rest =>
        (rest.1, { sb with offset := rest.2.1, chain := rest.2.2 })

def pop (sb : SocketBuffer) (sz : ℕ) : Option (Option Bytes × SocketBuffer) :=
  if sb.size < sz ∨ sz = 0 then some (none, sb)
  else (sb.popLstring sz 0).map fun popped =>
    (some popped.1, { popped.2 with size := popped.2.size - sz })

def readallLoop : List Bytes → ℕ → Bytes
  | [], _ => []
  | current :: next, offset => current.drop offset ++ readallLoop next 0

def readall (sb : SocketBuffer) : Bytes × SocketBuffer :=
  (readallLoop sb.chain sb.offset, ⟨0, if sb.chain.isEmpty then sb.offset else 0, []⟩)

def clear (sb : SocketBuffer) : SocketBuffer := sb.readall.2

def checkSep : List Bytes → ℕ → Bytes → Option Bool
  | [], _, _ => none
  | node :: next, start, sep =>
      let sz := node.length - start
      if sz ≥ sep.length then some ((node.drop start).take sep.length = sep)
      else if sz > 0 ∧ node.drop start ≠ sep.take sz then some false
      else checkSep next 0 (sep.drop sz)

/-- The loop of `lreadline`, with the number of its rounds that are left: the place of the
separator. -/
def findSep (sep : Bytes) : ℕ → ℕ → List Bytes → ℕ → Option (Option ℕ)
  | 0, _, _, _ => some none
  | rounds + 1, i, chain, start =>
      match checkSep chain start sep with
      | none => none
      | some true => some (some i)
      | some false =>
          match chain with
          | [] => none
          | current :: next =>
              if current.length - (start + 1) = 0 then
                if next.isEmpty then some none else findSep sep rounds (i + 1) next 0
              else findSep sep rounds (i + 1) chain (start + 1)

def searchSep (sb : SocketBuffer) (sep : Bytes) : Option (Option ℕ) :=
  if sb.chain.isEmpty then some none
  else findSep sep (sb.size + 1 - sep.length) 0 sb.chain sb.offset

def checkLine (sb : SocketBuffer) (sep : Bytes) : Option Bool :=
  (sb.searchSep sep).map Option.isSome

def readline (sb : SocketBuffer) (sep : Bytes) : Option (Option Bytes × SocketBuffer) :=
  match sb.searchSep sep with
  | none => none
  | some none => some (none, sb)
  | some (some i) => (sb.popLstring (i + sep.length) sep.length).map fun popped =>
      (some popped.1, { popped.2 with size := popped.2.size - (i + sep.length) })

/-! ## The contents -/

def left (chain : List Bytes) (offset : ℕ) : Bytes := chain.flatten.drop offset

def contents (sb : SocketBuffer) : Bytes := left sb.chain sb.offset

/-- The place in the first block is before its end. -/
def Placed (chain : List Bytes) (offset : ℕ) : Prop :=
  (∀ block ∈ chain, block ≠ []) ∧
    match chain with
    | [] => offset = 0
    | current :: _ => offset < current.length

structure Ok (sb : SocketBuffer) : Prop where
  placed : Placed sb.chain sb.offset
  size : sb.size = sb.contents.length

theorem ok_empty : empty.Ok := ⟨⟨by simp [empty], rfl⟩, rfl⟩

theorem Placed.le {current : Bytes} {next : List Bytes} {offset : ℕ}
    (h : Placed (current :: next) offset) : offset ≤ current.length := Nat.le_of_lt h.2

theorem placed_next {current : Bytes} {next : List Bytes} {offset : ℕ}
    (h : Placed (current :: next) offset) : Placed next 0 := by
  refine ⟨fun block hblock => h.1 block (List.mem_cons_of_mem _ hblock), ?_⟩
  cases next with
  | nil => rfl
  | cons block next =>
      exact List.length_pos_of_ne_nil (h.1 block (List.mem_cons_of_mem _ (List.mem_cons_self ..)))

theorem left_cons {current : Bytes} {offset : ℕ} (h : offset ≤ current.length)
    (next : List Bytes) : left (current :: next) offset = current.drop offset ++ left next 0 := by
  rw [left, left, List.flatten_cons, List.drop_append_of_le_length h, List.drop_zero]

theorem length_left_cons {current : Bytes} {offset : ℕ} (h : offset ≤ current.length)
    (next : List Bytes) :
    (left (current :: next) offset).length = current.length - offset + (left next 0).length := by
  rw [left_cons h, List.length_append, List.length_drop]

theorem left_advance (chain : List Bytes) (offset n : ℕ) :
    left chain (offset + n) = (left chain offset).drop n := by
  rw [left, left, List.drop_drop]

theorem left_next {current : Bytes} {offset : ℕ} (h : offset ≤ current.length)
    (next : List Bytes) :
    left next 0 = (left (current :: next) offset).drop (current.length - offset) := by
  rw [left_cons h, List.drop_left' (List.length_drop ..)]

theorem contents_push (sb : SocketBuffer) (h : sb.Ok) (msg : Bytes) :
    (sb.push msg).1.contents = sb.contents ++ msg := by
  have hle : sb.offset ≤ sb.chain.flatten.length := by
    have hplaced := h.placed
    cases hchain : sb.chain with
    | nil =>
        rw [hchain] at hplaced
        exact Nat.le_of_eq hplaced.2
    | cons current next =>
        rw [hchain] at hplaced
        rw [List.flatten_cons, List.length_append]
        exact Nat.le_trans hplaced.le (Nat.le_add_right _ _)
  simp only [push, contents, left]
  rw [List.flatten_append, List.flatten_singleton, List.drop_append_of_le_length hle]

theorem ok_push {sb : SocketBuffer} (h : sb.Ok) {msg : Bytes} (hmsg : msg ≠ []) :
    (sb.push msg).1.Ok := by
  refine ⟨⟨fun block hblock => ?_, ?_⟩, ?_⟩
  · rcases List.mem_append.mp hblock with hold | hnew
    · exact h.placed.1 block hold
    · rw [List.mem_singleton.mp hnew]
      exact hmsg
  · have hplaced := h.placed
    simp only [push]
    cases hchain : sb.chain with
    | nil =>
        rw [hchain] at hplaced
        have hzero : sb.offset = 0 := hplaced.2
        rw [hzero]
        exact List.length_pos_of_ne_nil hmsg
    | cons current next =>
        rw [hchain] at hplaced
        exact hplaced.2
  · rw [contents_push sb h, List.length_append, ← h.size]
    rfl

theorem size_push (sb : SocketBuffer) (h : sb.Ok) (msg : Bytes) :
    (sb.push msg).2 = (sb.contents ++ msg).length := by
  rw [List.length_append, ← h.size]
  rfl

/-! ## Taking bytes -/

theorem popLoop_spec (skip : ℕ) : ∀ (chain : List Bytes) (offset sz : ℕ), Placed chain offset →
    0 < sz → sz ≤ (left chain offset).length →
    ∃ offset' chain', popLoop chain offset sz skip =
        some ((left chain offset).take (sz - skip), offset', chain') ∧
      Placed chain' offset' ∧ left chain' offset' = (left chain offset).drop sz := by
  intro chain
  induction chain with
  | nil =>
      intro offset sz _ hpos hle
      simp only [left, List.flatten_nil, List.drop_nil, List.length_nil] at hle
      omega
  | cons current next ih =>
      intro offset sz hplaced hpos hle
      have hoffset := hplaced.le
      have hlen : (current.drop offset).length = current.length - offset := List.length_drop ..
      rw [length_left_cons hoffset] at hle
      rw [popLoop]
      by_cases hbytes : current.length - offset ≥ sz
      · have hadded : (if sz > skip then (current.drop offset).take (sz - skip) else []) =
            (left (current :: next) offset).take (sz - skip) := by
          rw [left_cons hoffset, List.take_append_of_le_length (by omega)]
          split_ifs with hskip
          · rfl
          · rw [Nat.sub_eq_zero_of_le (Nat.le_of_not_lt hskip), List.take_zero]
        simp only [if_pos hbytes, hadded]
        by_cases hall : current.length - offset = sz
        · rw [if_pos hall]
          exact ⟨0, next, rfl, placed_next hplaced, by rw [← hall]; exact left_next hoffset next⟩
        · rw [if_neg hall]
          have hin : offset + sz < current.length := by omega
          exact ⟨offset + sz, current :: next, rfl, ⟨hplaced.1, hin⟩, left_advance _ _ _⟩
      · have hmore : sz - (current.length - offset) ≠ 0 := by omega
        obtain ⟨offset', chain', hpop, hplaced', hleft'⟩ :=
          ih 0 (sz - (current.length - offset)) (placed_next hplaced) (by omega) (by omega)
        simp only [if_neg hbytes, if_neg hmore, hpop, Option.map_some]
        refine ⟨offset', chain', ?_, hplaced', ?_⟩
        · rw [left_cons hoffset, List.take_append, hlen, Nat.sub_right_comm]
          split_ifs with hskip
          · rw [← hlen, ← List.take_take, List.take_length]
          · rw [Nat.sub_eq_zero_of_le (Nat.le_of_not_lt hskip)]
            simp
        · rw [hleft', left_next hoffset next, List.drop_drop]
          congr 1
          omega

/-- The branches before the loop are the first round of the loop. -/
theorem popLstring_eq_popLoop (sb : SocketBuffer) (sz skip : ℕ) :
    sb.popLstring sz skip = (popLoop sb.chain sb.offset sz skip).map fun rest =>
      (rest.1, { sb with offset := rest.2.1, chain := rest.2.2 }) := by
  unfold popLstring
  cases hchain : sb.chain with
  | nil => rfl
  | cons current next =>
      have hadded : (if sz > skip then (current.drop sb.offset).take (sz - skip) else []) =
          (current.drop sb.offset).take (sz - skip) := by
        split_ifs with hskip
        · rfl
        · rw [Nat.sub_eq_zero_of_le (Nat.le_of_not_lt hskip), List.take_zero]
      by_cases hlt : sz < current.length - sb.offset
      · have hne : current.length - sb.offset ≠ sz := by omega
        simp only [popLoop, hadded, if_pos hlt, if_pos (Nat.le_of_lt hlt), if_neg hne,
          Option.map_some, ← hchain]
      · by_cases heq : sz = current.length - sb.offset
        · simp only [popLoop, hadded, if_neg hlt, if_pos heq, if_pos (Nat.le_of_eq heq),
            if_pos heq.symm, Option.map_some, returnFreeNode, hchain, List.tail_cons]
        · simp only [if_neg hlt, if_neg heq]

/-- The bytes that are taken are the first of the contents, and the rest is left. -/
theorem popLstring_spec {sb : SocketBuffer} (h : sb.Ok) {sz : ℕ} (skip : ℕ) (hpos : 0 < sz)
    (hle : sz ≤ sb.contents.length) :
    ∃ sb', sb.popLstring sz skip = some (sb.contents.take (sz - skip), sb') ∧
      Ok { sb' with size := sb'.size - sz } ∧ sb'.contents = sb.contents.drop sz := by
  obtain ⟨offset, chain, hpop, hplaced, hleft⟩ :=
    popLoop_spec skip sb.chain sb.offset sz h.placed hpos hle
  refine ⟨{ sb with offset := offset, chain := chain }, ?_, ⟨hplaced, ?_⟩, hleft⟩
  · rw [popLstring_eq_popLoop, hpop]
    rfl
  · have hlen : (left chain offset).length = sb.contents.length - sz := by
      rw [hleft, List.length_drop]
      rfl
    simp only [contents] at hlen ⊢
    rw [hlen, h.size]
    rfl

theorem pop_spec {sb : SocketBuffer} (h : sb.Ok) (sz : ℕ) :
    ∃ answer sb', sb.pop sz = some (answer, sb') ∧ sb'.Ok ∧
      ((sb.contents.length < sz ∨ sz = 0) ∧ answer = none ∧ sb' = sb ∨
        0 < sz ∧ sz ≤ sb.contents.length ∧ answer = some (sb.contents.take sz) ∧
          sb'.contents = sb.contents.drop sz) := by
  unfold pop
  rw [h.size]
  split
  · rename_i hfew
    exact ⟨none, sb, rfl, h, .inl ⟨hfew, rfl, rfl⟩⟩
  · rename_i henough
    have hpos : 0 < sz := by omega
    have hle : sz ≤ sb.contents.length := by omega
    obtain ⟨sb', hpop, hok, hcontents⟩ := popLstring_spec h 0 hpos hle
    rw [hpop, Nat.sub_zero]
    exact ⟨_, _, rfl, hok, .inr ⟨hpos, hle, rfl, hcontents⟩⟩

theorem readallLoop_eq : ∀ {chain : List Bytes} {offset : ℕ}, Placed chain offset →
    readallLoop chain offset = left chain offset := by
  intro chain
  induction chain with
  | nil => intro offset _; simp [readallLoop, left]
  | cons current next ih =>
      intro offset h
      rw [readallLoop, ih (placed_next h), left_cons h.le]

theorem readall_spec {sb : SocketBuffer} (h : sb.Ok) :
    sb.readall.1 = sb.contents ∧ sb.readall.2 = empty := by
  refine ⟨readallLoop_eq h.placed, ?_⟩
  have hplaced := h.placed
  unfold readall empty
  cases hchain : sb.chain with
  | nil =>
      rw [hchain] at hplaced
      have hzero : sb.offset = 0 := hplaced.2
      simp [hzero]
  | cons current next => rfl

/-! ## Taking a line -/

theorem checkSep_spec : ∀ (chain : List Bytes) (start : ℕ) (sep : Bytes),
    (∀ current next, chain = current :: next → start ≤ current.length) →
    sep.length ≤ (left chain start).length → sep ≠ [] →
    checkSep chain start sep = some (sep.isPrefixOf (left chain start)) := by
  intro chain
  induction chain with
  | nil =>
      intro start sep _ hle hsep
      have hpos := List.length_pos_of_ne_nil hsep
      simp only [left, List.flatten_nil, List.drop_nil, List.length_nil] at hle
      omega
  | cons node next ih =>
      intro start sep hstart hle hsep
      have hnode := hstart node next rfl
      have hlen : (node.drop start).length = node.length - start := List.length_drop ..
      rw [length_left_cons hnode] at hle
      rw [left_cons hnode]
      rw [checkSep]
      by_cases hin : node.length - start ≥ sep.length
      · simp only [if_pos hin, Option.some.injEq]
        rw [Bool.eq_iff_iff, decide_eq_true_eq, List.isPrefixOf_iff_prefix,
          List.prefix_iff_eq_take, List.take_append_of_le_length (by omega)]
        exact eq_comm
      · by_cases hdiffer :
            node.length - start > 0 ∧ node.drop start ≠ sep.take (node.length - start)
        · simp only [if_neg hin, if_pos hdiffer, Option.some.injEq]
          symm
          rw [Bool.eq_false_iff, Ne, List.isPrefixOf_iff_prefix]
          intro hprefix
          have htake := congrArg (List.take (node.length - start))
            (List.prefix_iff_eq_take.mp hprefix)
          rw [List.take_take, Nat.min_eq_left (by omega), List.take_left' hlen] at htake
          exact hdiffer.2 htake.symm
        · simp only [if_neg hin, if_neg hdiffer]
          have hsame : node.drop start = sep.take (node.length - start) := by
            by_cases hzero : node.length - start = 0
            · rw [hzero, List.take_zero]
              exact List.eq_nil_of_length_eq_zero (by omega)
            · by_contra hne
              exact hdiffer ⟨by omega, hne⟩
          have hrest := ih 0 (sep.drop (node.length - start)) (fun _ _ _ => Nat.zero_le _)
            (by rw [List.length_drop]; omega)
            (List.ne_nil_of_length_pos (by rw [List.length_drop]; omega))
          rw [hrest, hsame, Option.some.injEq, Bool.eq_iff_iff, List.isPrefixOf_iff_prefix,
            List.isPrefixOf_iff_prefix]
          have hsplit := List.take_append_drop (node.length - start) sep
          exact ⟨fun h => by
              rw [← hsplit]
              simpa using (List.prefix_append_right_inj (sep.take (node.length - start))).mpr h,
            fun h => (List.prefix_append_right_inj (sep.take (node.length - start))).mp
              (by rwa [hsplit])⟩

/-- The loop of `lreadline` finds the first separator, or goes to the end. -/
theorem findSep_spec {sep : Bytes} (hsep : sep ≠ []) : ∀ (rounds i : ℕ) (current : Bytes)
    (next : List Bytes) (start : ℕ), Placed (current :: next) start →
    rounds = (left (current :: next) start).length + 1 - sep.length →
    findSep sep rounds i (current :: next) start =
      some ((cutAt sep (left (current :: next) start)).map fun cut => i + cut.1.length) := by
  have hpos := List.length_pos_of_ne_nil hsep
  intro rounds
  induction rounds with
  | zero =>
      intro i current next start _ hrounds
      rw [cutAt_eq_none_of_short (by omega)]
      rfl
  | succ rounds ih =>
      intro i current next start hplaced hrounds
      have hstart : start < current.length := hplaced.2
      have hcheck := checkSep_spec (current :: next) start sep
        (fun _ _ h => by cases h; exact hplaced.le) (by omega) hsep
      have hadvance := left_advance (current :: next) start 1
      obtain ⟨b, rest, hleft⟩ : ∃ b rest, left (current :: next) start = b :: rest :=
        List.exists_cons_of_length_pos (by rw [length_left_cons hplaced.le]; omega)
      rw [hleft, List.drop_one, List.tail_cons] at hadvance
      rw [hleft, List.length_cons] at hrounds
      rw [findSep, hcheck, hleft, cutAt]
      by_cases hfirst : sep.isPrefixOf (b :: rest) = true
      · simp only [hfirst, if_true, Option.map_some, List.length_nil, Nat.add_zero]
      · have hfalse : sep.isPrefixOf (b :: rest) = false := Bool.eq_false_iff.mpr hfirst
        simp only [hfalse, Bool.false_eq_true, if_false, Option.map_map]
        have hcount : (fun cut : Bytes × Bytes => i + cut.1.length) ∘
            (fun cut : Bytes × Bytes => (b :: cut.1, cut.2)) =
              fun cut => i + 1 + cut.1.length := by
          funext cut
          simp only [Function.comp, List.length_cons]
          omega
        rw [hcount]
        by_cases hend : current.length - (start + 1) = 0
        · rw [if_pos hend]
          have hnext : left next 0 = rest := by
            have h := left_next (Nat.succ_le_of_lt hstart) next
            rwa [hadvance, hend, List.drop_zero] at h
          cases next with
          | nil =>
              have hnil : rest = [] := hnext.symm
              subst hnil
              rw [cutAt_eq_none_of_short (s := []) hpos]
              rfl
          | cons block next =>
              rw [if_neg (by simp), ih (i + 1) block next 0 (placed_next hplaced)
                (by rw [hnext]; omega), hnext]
        · rw [if_neg hend, ih (i + 1) current next (start + 1) ⟨hplaced.1, by omega⟩
            (by rw [hadvance]; omega), hadvance]

theorem searchSep_spec {sb : SocketBuffer} (h : sb.Ok) {sep : Bytes} (hsep : sep ≠ []) :
    sb.searchSep sep = some ((cutAt sep sb.contents).map fun cut => cut.1.length) := by
  have hplaced := h.placed
  have hsize := h.size
  unfold searchSep contents at *
  cases hchain : sb.chain with
  | nil =>
      rw [cutAt_eq_none_of_short (by simpa [left] using List.length_pos_of_ne_nil hsep)]
      rfl
  | cons current next =>
      rw [hchain] at hplaced hsize
      rw [if_neg (by simp), hsize, findSep_spec hsep _ 0 current next sb.offset hplaced rfl]
      simp only [Nat.zero_add]

/-- `lreadline` gives the bytes before the first separator and takes both away, or does nothing
when there is no separator. -/
theorem readline_spec {sb : SocketBuffer} (h : sb.Ok) {sep : Bytes} (hsep : sep ≠ []) :
    ∃ answer sb', sb.readline sep = some (answer, sb') ∧ sb'.Ok ∧
      (cutAt sep sb.contents = none ∧ answer = none ∧ sb' = sb ∨
        ∃ line rest, cutAt sep sb.contents = some (line, rest) ∧ answer = some line ∧
          sb'.contents = rest) := by
  unfold readline
  rw [searchSep_spec h hsep]
  cases hcut : cutAt sep sb.contents with
  | none => exact ⟨none, sb, rfl, h, .inl ⟨rfl, rfl, rfl⟩⟩
  | some cut =>
      obtain ⟨line, rest⟩ := cut
      have hsound := cutAt_sound hcut
      have hpos := List.length_pos_of_ne_nil hsep
      have hlen : line.length + sep.length ≤ sb.contents.length := by
        rw [hsound]
        simp only [List.length_append]
        omega
      obtain ⟨sb', hpop, hok, hcontents⟩ :=
        popLstring_spec h sep.length (by omega : 0 < line.length + sep.length) hlen
      simp only [Option.map_some, hpop]
      refine ⟨_, _, rfl, hok, .inr ⟨line, rest, rfl, ?_, ?_⟩⟩
      · rw [Nat.add_sub_cancel, hsound, List.take_left]
      · have hdrop : sb.contents.drop (line.length + sep.length) = rest := by
          rw [hsound, ← List.append_assoc]
          exact List.drop_left' (by rw [List.length_append])
        rw [← hdrop, ← hcontents]
        rfl

end SocketBuffer

end Doudizhu.Skynet
