import Doudizhu.Lib.RingBuffer
import Doudizhu.Network.FrameSplitting
import Mathlib.Data.List.Basic

/-! # Packets of the gate

`lua-netpack.c` cuts the bytes that arrive on each fd into packets.  The beginning of a packet
that has not arrived in full waits in a hash table of chains; packets that arrive in one piece of
data with others wait in a queue.  A piece that is exactly the rest of one packet is handed over
at once.

The table and the queue are read through `chainOf`, the nodes of one fd, and `waiting`, the
contents of the queue.  What filtering a piece does is said by the framing of the wire: it splits
the bytes that waited followed by the piece. -/

set_option autoImplicit false

namespace Doudizhu.Skynet.LuaNetpack

open Doudizhu.Network

abbrev Fd := Int32

structure Netpack where
  id : Fd
  size : ℕ
  buffer : Bytes
  deriving DecidableEq, Repr, Inhabited

/-- `buffer` of `pack` has room for `size` bytes; here it is the part written so far. -/
structure Uncomplete where
  pack : Netpack
  read : Int
  header : UInt8
  deriving DecidableEq, Repr

structure Queue where
  ring : RingBuffer Netpack
  hash : ℕ → List Uncomplete

inductive Filtered where
  | queue
  | data (fd : Fd) (msg : Bytes)
  | more
  | error (fd : Fd) (msg : Bytes)
  | opened (fd : Fd) (msg : Bytes)
  | close (fd : Fd)
  | warning (fd : Fd) (size : ℕ)
  deriving DecidableEq, Repr

def queueSize : ℕ := 1024
def hashSize : ℕ := 4096

def hashFd (fd : Fd) : ℕ := ((fd >>> 24) + (fd >>> 12) + fd).toUInt32.toNat % hashSize

def newQueue : Queue where
  ring := RingBuffer.empty queueSize (by decide)
  hash := fun _ => []

/-- A nil queue is created when something must be kept in it. -/
def getQueue (q : Option Queue) : Queue := q.getD newQueue

def unlink (fd : Fd) : List Uncomplete → Option (Uncomplete × List Uncomplete)
  | [] => none
  | uc :: next =>
      if uc.pack.id = fd then some (uc, next)
      else (unlink fd next).map fun found => (found.1, uc :: found.2)

def findUncomplete (q : Queue) (fd : Fd) : Option (Uncomplete × Queue) :=
  (unlink fd (q.hash (hashFd fd))).map fun found =>
    (found.1, { q with hash := Function.update q.hash (hashFd fd) found.2 })

def saveUncomplete (q : Queue) (uc : Uncomplete) : Queue :=
  { q with
    hash := Function.update q.hash (hashFd uc.pack.id) (uc :: q.hash (hashFd uc.pack.id)) }

/-- `tail -= cap` sets the tail to 0, as it is never beyond the cells. -/
def pushData (q : Queue) (fd : Fd) (buffer : Bytes) : Queue :=
  { q with
    ring := q.ring.push (fun cap => cap + queueSize) (fun _ _ => by simp [queueSize])
      ⟨fd, buffer.length, buffer⟩ }

def readSize (b₀ b₁ : UInt8) : ℕ := b₀.toNat <<< 8 ||| b₁.toNat

/-- `push_more`; it is never called with nothing left. -/
def pushMore (q : Queue) (fd : Fd) (buffer : Bytes) : Queue :=
  match buffer with
  | [] => q
  | [b] => saveUncomplete q ⟨⟨fd, 0, []⟩, -1, b⟩
  | b₀ :: b₁ :: body =>
      let packSize := readSize b₀ b₁
      if body.length < packSize then saveUncomplete q ⟨⟨fd, packSize, body⟩, body.length, 0⟩
      else
        let q := pushData q fd (body.take packSize)
        if body.drop packSize ≠ [] then pushMore q fd (body.drop packSize) else q
termination_by buffer.length
decreasing_by simp only [List.length_cons, List.length_drop]; omega

/-- The second byte of the length, when the first is all that arrived before. -/
def fillHeader (uc : Uncomplete) (buffer : Bytes) : Uncomplete × Bytes :=
  if uc.read < 0 then
    match buffer with
    | [] => (uc, [])
    | b :: buffer => (⟨⟨uc.pack.id, uc.header.toNat <<< 8 ||| b.toNat, []⟩, 0, uc.header⟩, buffer)
  else (uc, buffer)

def fillUncomplete (q : Queue) (fd : Fd) (uc : Uncomplete) (buffer : Bytes) : Filtered × Queue :=
  let need := uc.pack.size - uc.read.toNat
  if buffer.length < need then
    (.queue, saveUncomplete q ⟨{ uc.pack with buffer := uc.pack.buffer ++ buffer },
      uc.read + buffer.length, uc.header⟩)
  else
    let whole := uc.pack.buffer ++ buffer.take need
    if buffer.drop need = [] then (.data fd whole, q)
    else (.more, pushMore (pushData q fd whole) fd (buffer.drop need))

/-- `filter_data_`; the socket server never forwards an empty piece. -/
def filterData (q : Option Queue) (fd : Fd) (buffer : Bytes) : Filtered × Option Queue :=
  match q.bind fun q => findUncomplete q fd with
  | some (uc, q) =>
      let filled := fillHeader uc buffer
      let filtered := fillUncomplete q fd filled.1 filled.2
      (filtered.1, some filtered.2)
  | none =>
      match buffer with
      | [] => (.queue, q)
      | [b] => (.queue, some (saveUncomplete (getQueue q) ⟨⟨fd, 0, []⟩, -1, b⟩))
      | b₀ :: b₁ :: body =>
          let packSize := readSize b₀ b₁
          if body.length < packSize then
            (.queue, some (saveUncomplete (getQueue q)
              ⟨⟨fd, packSize, body⟩, body.length, 0⟩))
          else if body.length = packSize then (.data fd body, q)
          else
            (.more, some (pushMore (pushData (getQueue q) fd (body.take packSize)) fd
              (body.drop packSize)))

def closeUncomplete (q : Option Queue) (fd : Fd) : Option Queue :=
  q.map fun q =>
    match findUncomplete q fd with
    | some (_, q) => q
    | none => q

def pop (q : Option Queue) : Option (Netpack × Queue) :=
  q.bind fun q => q.ring.pop.map fun popped => (popped.1, { q with ring := popped.2 })

/-- `skynet_socket_message` by its type; `ud` of an accept is the fd of the new connection. -/
inductive SocketMessage where
  | data (id : Fd) (buffer : Bytes)
  | connect (id : Fd)
  | close (id : Fd)
  | accept (id ud : Fd) (buffer : Bytes)
  | error (id : Fd) (buffer : Bytes)
  | warning (id : Fd) (ud : ℕ)
  deriving DecidableEq, Repr

def filter (q : Option Queue) : SocketMessage → Filtered × Option Queue
  | .data id buffer => filterData q id buffer
  | .connect _ => (.queue, q)
  | .close id => (.close id, closeUncomplete q id)
  | .accept _ ud buffer => (.opened ud buffer, q)
  | .error id buffer => (.error id buffer, closeUncomplete q id)
  | .warning id ud => (.warning id ud, q)

/-! ## What is kept of an fd -/

def chainOf (q : Queue) (fd : Fd) : List Uncomplete :=
  (q.hash (hashFd fd)).filter fun uc => decide (uc.pack.id = fd)

def waiting (q : Queue) : List Netpack := q.ring.contents

/-- The nodes of an fd hold the bytes `rest` of an unfinished packet.  Once the length has been
read the first byte of it no longer matters. -/
def Keeps (fd : Fd) (ucs : List Uncomplete) : Bytes → Prop
  | [] => ucs = []
  | [b] => ucs = [⟨⟨fd, 0, []⟩, -1, b⟩]
  | b₀ :: b₁ :: body => ∃ header, ucs = [⟨⟨fd, readSize b₀ b₁, body⟩, body.length, header⟩]

theorem unlink_eq_none {fd : Fd} : ∀ {ucs : List Uncomplete}, unlink fd ucs = none →
    ucs.filter (fun uc => decide (uc.pack.id = fd)) = [] := by
  intro ucs
  induction ucs with
  | nil => intro _; rfl
  | cons uc next ih =>
      intro h
      rw [unlink] at h
      split at h
      · cases h
      · rename_i hne
        rw [List.filter_cons_of_neg (by simpa using hne), ih (by simpa using h)]

/-- Taking out the fd's node leaves the nodes of every other fd. -/
theorem unlink_eq_some {fd : Fd} : ∀ {ucs ucs' : List Uncomplete} {uc : Uncomplete},
    unlink fd ucs = some (uc, ucs') →
    ucs.filter (fun u => decide (u.pack.id = fd)) =
        uc :: ucs'.filter (fun u => decide (u.pack.id = fd)) ∧
      ∀ other, other ≠ fd → ucs.filter (fun u => decide (u.pack.id = other)) =
        ucs'.filter (fun u => decide (u.pack.id = other)) := by
  intro ucs
  induction ucs with
  | nil => intro ucs' uc h; cases h
  | cons u next ih =>
      intro ucs' uc h
      rw [unlink] at h
      split at h
      · rename_i heq
        cases h
        refine ⟨by simp [heq], fun other hother => ?_⟩
        rw [List.filter_cons_of_neg (by simpa [heq] using Ne.symm hother)]
      · rename_i hne
        obtain ⟨⟨uc, rest⟩, hfound, heq⟩ := Option.map_eq_some_iff.mp h
        obtain ⟨hfd, hothers⟩ := ih hfound
        cases heq
        refine ⟨?_, fun other hother => ?_⟩
        · rw [List.filter_cons_of_neg (by simpa using hne), hfd,
            List.filter_cons_of_neg (by simpa using hne)]
        · rw [List.filter_cons, List.filter_cons, hothers other hother]

theorem chainOf_save (q : Queue) (uc : Uncomplete) (fd : Fd) :
    chainOf (saveUncomplete q uc) fd =
      if uc.pack.id = fd then uc :: chainOf q fd else chainOf q fd := by
  unfold chainOf saveUncomplete
  simp only [Function.update_apply]
  by_cases hfd : uc.pack.id = fd
  · subst hfd
    simp
  · by_cases hhash : hashFd fd = hashFd uc.pack.id
    · simp [hhash, hfd]
    · simp [hhash, hfd]

theorem chainOf_of_find_none {q : Queue} {fd : Fd} (h : findUncomplete q fd = none) :
    chainOf q fd = [] :=
  unlink_eq_none (Option.map_eq_none_iff.mp h)

theorem chainOf_of_find_some {q q' : Queue} {fd : Fd} {uc : Uncomplete}
    (h : findUncomplete q fd = some (uc, q')) :
    chainOf q fd = uc :: chainOf q' fd ∧
      (∀ other, other ≠ fd → chainOf q' other = chainOf q other) ∧ q'.ring = q.ring := by
  obtain ⟨⟨uc, rest⟩, hfound, heq⟩ := Option.map_eq_some_iff.mp h
  obtain ⟨hfd, hothers⟩ := unlink_eq_some hfound
  cases heq
  refine ⟨?_, fun other hother => ?_, rfl⟩
  · simpa [chainOf] using hfd
  · unfold chainOf
    by_cases hhash : hashFd other = hashFd fd
    · simp only [hhash, Function.update_self]
      exact (hothers other hother).symm
    · simp only [Function.update_of_ne hhash]

@[simp] theorem chainOf_pushData (q : Queue) (fd other : Fd) (buffer : Bytes) :
    chainOf (pushData q fd buffer) other = chainOf q other := rfl

@[simp] theorem waiting_saveUncomplete (q : Queue) (uc : Uncomplete) :
    waiting (saveUncomplete q uc) = waiting q := rfl

theorem waiting_pushData (q : Queue) (fd : Fd) (buffer : Bytes) :
    waiting (pushData q fd buffer) = waiting q ++ [⟨fd, buffer.length, buffer⟩] :=
  RingBuffer.contents_push (fun cap => cap + queueSize) (fun _ _ => by simp [queueSize]) q.ring _

/-! ## Reading a frame -/

theorem readSize_eq (b₀ b₁ : UInt8) : readSize b₀ b₁ = b₀.toNat * 256 + b₁.toNat := by
  rw [readSize, ← Nat.shiftLeft_add_eq_or_of_lt b₁.toNat_lt, Nat.shiftLeft_eq]

theorem unframe_cons (b₀ b₁ : UInt8) (body : Bytes) :
    wire.unframe (b₀ :: b₁ :: body) =
      if body.length < readSize b₀ b₁ then none
      else some (body.take (readSize b₀ b₁), body.drop (readSize b₀ b₁)) := by
  by_cases hshort : body.length < readSize b₀ b₁
  · simp only [wire, unpackPackage_cons, ← readSize_eq, if_pos hshort]
  · simp only [wire, unpackPackage_cons, ← readSize_eq, if_neg hshort]

theorem split_nil : wire.split [] = ([], []) := wire.split_of_none rfl

theorem split_singleton (b : UInt8) : wire.split [b] = ([], [b]) := wire.split_of_none rfl

theorem split_short {b₀ b₁ : UInt8} {body : Bytes} (h : body.length < readSize b₀ b₁) :
    wire.split (b₀ :: b₁ :: body) = ([], b₀ :: b₁ :: body) :=
  wire.split_of_none (by rw [unframe_cons, if_pos h])

theorem split_long {b₀ b₁ : UInt8} {body : Bytes} (h : ¬ body.length < readSize b₀ b₁) :
    wire.split (b₀ :: b₁ :: body) =
      (body.take (readSize b₀ b₁) :: (wire.split (body.drop (readSize b₀ b₁))).1,
        (wire.split (body.drop (readSize b₀ b₁))).2) :=
  wire.split_of_some (by rw [unframe_cons, if_neg h])

def packOf (fd : Fd) (p : Bytes) : Netpack := ⟨fd, p.length, p⟩

/-- `push_more` queues the packets of what it is given and keeps the rest. -/
theorem pushMore_spec : ∀ (n : ℕ) (q : Queue) (fd : Fd) (buffer : Bytes), buffer.length = n →
    chainOf q fd = [] →
    waiting (pushMore q fd buffer) = waiting q ++ (wire.split buffer).1.map (packOf fd) ∧
      Keeps fd (chainOf (pushMore q fd buffer) fd) (wire.split buffer).2 ∧
      ∀ other, other ≠ fd → chainOf (pushMore q fd buffer) other = chainOf q other := by
  intro n
  induction n using Nat.strongRecOn with
  | ind n ih =>
      intro q fd buffer hn hchain
      match buffer with
      | [] =>
          rw [pushMore, split_nil]
          exact ⟨(List.append_nil _).symm, hchain, fun _ _ => rfl⟩
      | [b] =>
          rw [pushMore, split_singleton]
          refine ⟨(List.append_nil _).symm, ?_, fun other hother => ?_⟩
          · rw [chainOf_save, if_pos rfl, hchain]
            rfl
          · rw [chainOf_save, if_neg (Ne.symm hother)]
      | b₀ :: b₁ :: body =>
          rw [pushMore]
          by_cases hshort : body.length < readSize b₀ b₁
          · rw [if_pos hshort, split_short hshort]
            refine ⟨(List.append_nil _).symm, ?_, fun other hother => ?_⟩
            · rw [chainOf_save, if_pos rfl, hchain]
              exact ⟨0, rfl⟩
            · rw [chainOf_save, if_neg (Ne.symm hother)]
          · rw [if_neg hshort, split_long hshort]
            have hpushed := waiting_pushData q fd (body.take (readSize b₀ b₁))
            by_cases hrest : body.drop (readSize b₀ b₁) = []
            · rw [if_neg (not_not.mpr hrest), hrest, split_nil]
              exact ⟨hpushed, hchain, fun _ _ => rfl⟩
            · rw [if_pos hrest]
              obtain ⟨hwaiting, hkeeps, hothers⟩ := ih (body.drop (readSize b₀ b₁)).length
                (by rw [← hn, List.length_drop, List.length_cons, List.length_cons]; omega)
                (pushData q fd (body.take (readSize b₀ b₁))) fd _ rfl hchain
              refine ⟨?_, hkeeps, hothers⟩
              rw [hwaiting, hpushed, List.append_assoc]
              rfl

/-! ## Filtering a piece of data -/

/-- A lone packet with nothing after it is handed over, several packets are queued. -/
def answer (fd : Fd) : List Bytes → Bytes → Filtered
  | [], _ => .queue
  | [p], [] => .data fd p
  | _, _ => .more

def queued (fd : Fd) (ps : List Bytes) (rest : Bytes) : List Netpack :=
  if answer fd ps rest = .more then ps.map (packOf fd) else []

theorem queued_cons (fd : Fd) (p : Bytes) {ps : List Bytes} {rest : Bytes}
    (h : ps ≠ [] ∨ rest ≠ []) :
    answer fd (p :: ps) rest = .more ∧ queued fd (p :: ps) rest = (p :: ps).map (packOf fd) := by
  have hanswer : answer fd (p :: ps) rest = .more := by
    cases ps with
    | nil =>
        cases rest with
        | nil => simp at h
        | cons b rest => rfl
    | cons p' ps => rfl
  exact ⟨hanswer, if_pos hanswer⟩

/-- Something is left to read or to keep of a text that is not empty. -/
theorem split_ne {text : Bytes} (h : text ≠ []) :
    (wire.split text).1 ≠ [] ∨ (wire.split text).2 ≠ [] := by
  obtain ⟨s, hs, heq, -⟩ := wire.split_spec text
  by_contra hboth
  push Not at hboth
  rw [hboth.1] at hs
  cases Option.some.inj hs
  rw [hboth.2] at heq
  exact h heq.symm

/-- What holds of a queue that has been given a piece of an fd, of the packets and the rest. -/
structure Takes (q q' : Queue) (fd : Fd) (result : Filtered) (split : List Bytes × Bytes) :
    Prop where
  answer : result = answer fd split.1 split.2
  waiting : waiting q' = waiting q ++ queued fd split.1 split.2
  keeps : Keeps fd (chainOf q' fd) split.2
  others : ∀ other, other ≠ fd → chainOf q' other = chainOf q other

theorem takes_none {q q' : Queue} {fd : Fd} {rest : Bytes} (hwaiting : waiting q' = waiting q)
    (hkeeps : Keeps fd (chainOf q' fd) rest)
    (hothers : ∀ other, other ≠ fd → chainOf q' other = chainOf q other) :
    Takes q q' fd .queue ([], rest) :=
  ⟨rfl, by simp [queued, answer, hwaiting], hkeeps, hothers⟩

/-- The first packet is queued and the rest goes through `push_more`. -/
theorem takes_more (q : Queue) (fd : Fd) (p : Bytes) {text : Bytes} (hchain : chainOf q fd = [])
    (htext : text ≠ []) :
    Takes q (pushMore (pushData q fd p) fd text) fd .more
      (p :: (wire.split text).1, (wire.split text).2) := by
  obtain ⟨hwaiting, hkeeps, hothers⟩ := pushMore_spec _ (pushData q fd p) fd text rfl hchain
  obtain ⟨hanswer, hqueued⟩ := queued_cons fd p (split_ne htext)
  refine ⟨hanswer.symm, ?_, hkeeps, hothers⟩
  rw [hwaiting, waiting_pushData, hqueued, List.append_assoc]
  rfl

theorem takes_fillUncomplete (q : Queue) (fd : Fd) (b₀ b₁ header : UInt8) (body buffer : Bytes)
    (hchain : chainOf q fd = []) (hbody : body.length ≤ readSize b₀ b₁) :
    Takes q (fillUncomplete q fd ⟨⟨fd, readSize b₀ b₁, body⟩, body.length, header⟩ buffer).2 fd
      (fillUncomplete q fd ⟨⟨fd, readSize b₀ b₁, body⟩, body.length, header⟩ buffer).1
      (wire.split (b₀ :: b₁ :: (body ++ buffer))) := by
  simp only [fillUncomplete, Int.toNat_natCast]
  by_cases hshort : buffer.length < readSize b₀ b₁ - body.length
  · rw [if_pos hshort, split_short (by rw [List.length_append]; omega)]
    refine takes_none rfl ?_ fun other hother => ?_
    · rw [chainOf_save, if_pos rfl, hchain]
      exact ⟨header, by rw [List.length_append, Int.natCast_add]⟩
    · rw [chainOf_save, if_neg (Ne.symm hother)]
  · rw [if_neg hshort, split_long (by rw [List.length_append]; omega), List.take_append,
      List.take_of_length_le hbody, List.drop_append, List.drop_of_length_le hbody,
      List.nil_append]
    by_cases hrest : buffer.drop (readSize b₀ b₁ - body.length) = []
    · rw [if_pos hrest, hrest, split_nil]
      exact ⟨rfl, by simp [queued, answer], hchain, fun _ _ => rfl⟩
    · rw [if_neg hrest]
      exact takes_more q fd _ hchain hrest

@[simp] theorem getQueue_some (q : Queue) : getQueue (some q) = q := rfl

theorem Takes.of_eq {q₀ q q' : Queue} {fd : Fd} {result : Filtered}
    {split : List Bytes × Bytes} (h : Takes q q' fd result split) (hring : q.ring = q₀.ring)
    (hothers : ∀ other, other ≠ fd → chainOf q other = chainOf q₀ other) :
    Takes q₀ q' fd result split :=
  ⟨h.answer, by rw [h.waiting, LuaNetpack.waiting, LuaNetpack.waiting, hring], h.keeps,
    fun other hother => (h.others other hother).trans (hothers other hother)⟩

/-- `filter_data_` reads what waited of the fd followed by the piece. -/
theorem takes_filterData (q : Option Queue) (fd : Fd) (rest buffer : Bytes)
    (hkeeps : Keeps fd (chainOf (getQueue q) fd) rest) (hrest : wire.unframe rest = none)
    (hne : buffer ≠ []) :
    Takes (getQueue q) (getQueue (filterData q fd buffer).2) fd (filterData q fd buffer).1
      (wire.split (rest ++ buffer)) := by
  unfold filterData
  cases hfind : q.bind fun q => findUncomplete q fd with
  | none =>
      have hchain : chainOf (getQueue q) fd = [] := by
        cases q with
        | none => rfl
        | some q => exact chainOf_of_find_none hfind
      have hnil : rest = [] := by
        match rest with
        | [] => rfl
        | [b] => simp [Keeps, hchain] at hkeeps
        | b₀ :: b₁ :: body => simp [Keeps, hchain] at hkeeps
      subst hnil
      rw [List.nil_append]
      match buffer with
      | [] => exact absurd rfl hne
      | [b] =>
          rw [split_singleton]
          refine takes_none rfl ?_ fun other hother => ?_
          · rw [getQueue_some, chainOf_save, if_pos rfl, hchain]
            rfl
          · rw [getQueue_some, chainOf_save, if_neg (Ne.symm hother)]
      | b₀ :: b₁ :: body =>
          simp only
          by_cases hshort : body.length < readSize b₀ b₁
          · rw [if_pos hshort, split_short hshort]
            refine takes_none rfl ?_ fun other hother => ?_
            · rw [getQueue_some, chainOf_save, if_pos rfl, hchain]
              exact ⟨0, rfl⟩
            · rw [getQueue_some, chainOf_save, if_neg (Ne.symm hother)]
          · rw [if_neg hshort, split_long hshort]
            by_cases hone : body.length = readSize b₀ b₁
            · rw [if_pos hone, ← hone, List.take_length, List.drop_length, split_nil]
              exact ⟨rfl, by simp [queued, answer], hchain, fun _ _ => rfl⟩
            · rw [if_neg hone]
              refine takes_more (getQueue q) fd _ hchain fun hdrop => ?_
              have hlen := congrArg List.length hdrop
              rw [List.length_drop, List.length_nil] at hlen
              omega
  | some found =>
      obtain ⟨uc, q'⟩ := found
      obtain ⟨q₀, rfl, hfound⟩ := Option.bind_eq_some_iff.mp hfind
      obtain ⟨hchain, hothers, hring⟩ := chainOf_of_find_some hfound
      rw [getQueue_some, hchain] at hkeeps
      simp only [getQueue_some]
      match rest with
      | [] => simp [Keeps] at hkeeps
      | [b] =>
          obtain ⟨rfl, hempty⟩ := List.cons.inj hkeeps
          match buffer with
          | [] => exact absurd rfl hne
          | c :: buffer =>
              exact (takes_fillUncomplete q' fd b c b [] buffer hempty (Nat.zero_le _)).of_eq
                hring hothers
      | b₀ :: b₁ :: body =>
          obtain ⟨header, heq⟩ := hkeeps
          obtain ⟨rfl, hempty⟩ := List.cons.inj heq
          have hbody : body.length ≤ readSize b₀ b₁ := by
            rw [unframe_cons] at hrest
            split at hrest
            · omega
            · cases hrest
          have hread : fillHeader ⟨⟨fd, readSize b₀ b₁, body⟩, body.length, header⟩ buffer =
              (⟨⟨fd, readSize b₀ b₁, body⟩, body.length, header⟩, buffer) :=
            if_neg (by simp)
          rw [hread]
          exact (takes_fillUncomplete q' fd b₀ b₁ header body buffer hempty hbody).of_eq hring
            hothers

/-! ## The table over all fds -/

/-- For each fd exactly the bytes `rest` of its unfinished packet are kept. -/
structure Holds (q : Option Queue) (rest : Fd → Bytes) : Prop where
  keeps : ∀ fd, Keeps fd (chainOf (getQueue q) fd) (rest fd)
  unfinished : ∀ fd, wire.unframe (rest fd) = none

theorem holds_none : Holds none fun _ => [] := ⟨fun _ => rfl, fun _ => rfl⟩

theorem holds_filterData {q : Option Queue} {rest : Fd → Bytes} (h : Holds q rest) (fd : Fd)
    {buffer : Bytes} (hne : buffer ≠ []) :
    Holds (filterData q fd buffer).2
      (Function.update rest fd (wire.split (rest fd ++ buffer)).2) := by
  have htakes := takes_filterData q fd (rest fd) buffer (h.keeps fd) (h.unfinished fd) hne
  refine ⟨fun other => ?_, fun other => ?_⟩
  · by_cases hother : other = fd
    · subst hother
      rw [Function.update_self]
      exact htakes.keeps
    · rw [Function.update_of_ne hother, htakes.others other hother]
      exact h.keeps other
  · by_cases hother : other = fd
    · subst hother
      rw [Function.update_self]
      exact (wire.split_spec _).choose_spec.2.2
    · rw [Function.update_of_ne hother]
      exact h.unfinished other

/-- Closing an fd drops what is kept of it; queued packets stay. -/
theorem holds_closeUncomplete {q : Option Queue} {rest : Fd → Bytes} (h : Holds q rest) (fd : Fd) :
    Holds (closeUncomplete q fd) (Function.update rest fd []) ∧
      waiting (getQueue (closeUncomplete q fd)) = waiting (getQueue q) := by
  have hclosed : chainOf (getQueue (closeUncomplete q fd)) fd = [] ∧
      (∀ other, other ≠ fd →
        chainOf (getQueue (closeUncomplete q fd)) other = chainOf (getQueue q) other) ∧
      waiting (getQueue (closeUncomplete q fd)) = waiting (getQueue q) := by
    cases q with
    | none => exact ⟨rfl, fun _ _ => rfl, rfl⟩
    | some q =>
        simp only [closeUncomplete, Option.map_some, getQueue_some]
        cases hfind : findUncomplete q fd with
        | none => exact ⟨chainOf_of_find_none hfind, fun _ _ => rfl, rfl⟩
        | some found =>
            obtain ⟨uc, q'⟩ := found
            obtain ⟨hchain, hothers, hring⟩ := chainOf_of_find_some hfind
            have hkeeps := h.keeps fd
            rw [getQueue_some, hchain] at hkeeps
            refine ⟨?_, hothers, congrArg RingBuffer.contents hring⟩
            match hrest : rest fd with
            | [] => simp [hrest, Keeps] at hkeeps
            | [b] =>
                rw [hrest] at hkeeps
                exact (List.cons.inj hkeeps).2
            | b₀ :: b₁ :: body =>
                rw [hrest] at hkeeps
                exact (List.cons.inj hkeeps.choose_spec).2
  refine ⟨⟨fun other => ?_, fun other => ?_⟩, hclosed.2.2⟩
  · by_cases hother : other = fd
    · subst hother
      rw [Function.update_self]
      exact hclosed.1
    · rw [Function.update_of_ne hother, hclosed.2.1 other hother]
      exact h.keeps other
  · by_cases hother : other = fd
    · subst hother
      rw [Function.update_self]
      rfl
    · rw [Function.update_of_ne hother]
      exact h.unfinished other

theorem pop_eq_none_iff (q : Option Queue) : pop q = none ↔ waiting (getQueue q) = [] := by
  cases q with
  | none => exact ⟨fun _ => RingBuffer.contents_empty .., fun _ => rfl⟩
  | some q =>
      rw [pop, Option.bind_some, Option.map_eq_none_iff]
      exact RingBuffer.pop_eq_none_iff q.ring

/-- Popping takes the oldest packet and leaves what is kept of every fd. -/
theorem pop_eq_some {q : Option Queue} {np : Netpack} {q' : Queue} (h : pop q = some (np, q')) :
    waiting (getQueue q) = np :: waiting q' ∧
      ∀ rest, Holds q rest → Holds (some q') rest := by
  obtain ⟨q₀, rfl, hpop⟩ := Option.bind_eq_some_iff.mp h
  obtain ⟨popped, hpopped, heq⟩ := Option.map_eq_some_iff.mp hpop
  cases heq
  exact ⟨RingBuffer.contents_of_pop (r := q₀.ring) hpopped,
    fun rest hholds => ⟨hholds.keeps, hholds.unfinished⟩⟩

end Doudizhu.Skynet.LuaNetpack
