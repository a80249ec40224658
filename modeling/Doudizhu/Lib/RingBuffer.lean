import Mathlib.Data.List.Basic
import Mathlib.Data.List.Range
import Mathlib.Data.Nat.ModEq
import Mathlib.Logic.Function.Basic
import Mathlib.Tactic.SplitIfs
import Mathlib.Tactic.TypeStar

/-! # Growing ring buffers

A ring of `cap` cells that is read at `head` and written at `tail`.  `head = tail` means empty,
so a write that makes them meet moves everything to a larger ring at once.  The contents are a
queue: `push` appends, `pop` takes the first, growing is not seen.  Memory nobody has written
reads as the default value and is never part of the contents. -/

set_option autoImplicit false

namespace Doudizhu

structure RingBuffer (A : Type*) where
  cap : ℕ
  head : ℕ
  tail : ℕ
  cell : ℕ → A
  head_lt : head < cap
  tail_lt : tail < cap

namespace RingBuffer

variable {A : Type*}

def next (cap i : ℕ) : ℕ := if i + 1 ≥ cap then 0 else i + 1

theorem next_lt {cap i : ℕ} (h : i < cap) : next cap i < cap := by
  unfold next
  split <;> omega

theorem next_eq_mod {cap i : ℕ} (h : i < cap) : next cap i = (i + 1) % cap := by
  unfold next
  split
  · have heq : i + 1 = cap := by omega
    rw [heq, Nat.mod_self]
  · exact (Nat.mod_eq_of_lt (by omega)).symm

def empty [Inhabited A] (cap : ℕ) (h : 0 < cap) : RingBuffer A :=
  ⟨cap, 0, 0, fun _ => default, h, h⟩

def length (r : RingBuffer A) : ℕ :=
  if r.head ≤ r.tail then r.tail - r.head else r.tail + r.cap - r.head

def segment (cell : ℕ → A) (cap head n : ℕ) : List A :=
  (List.range n).map fun i => cell ((head + i) % cap)

def contents (r : RingBuffer A) : List A := segment r.cell r.cap r.head r.length

/-- All cells of a full ring, from the oldest on, at the start of a larger one. -/
def grow [Inhabited A] (cap newCap head : ℕ) (cell : ℕ → A) (h : cap < newCap) : RingBuffer A where
  cap := newCap
  head := 0
  tail := cap
  cell := fun i => if i < cap then cell ((head + i) % cap) else default
  head_lt := by omega
  tail_lt := h

theorem cap_pos (r : RingBuffer A) : 0 < r.cap := Nat.lt_of_le_of_lt (Nat.zero_le _) r.head_lt

def push [Inhabited A] (growth : ℕ → ℕ) (hgrowth : ∀ c, 0 < c → c < growth c) (r : RingBuffer A)
    (x : A) : RingBuffer A :=
  let cell := Function.update r.cell r.tail x
  let tail := next r.cap r.tail
  if r.head = tail then grow r.cap (growth r.cap) r.head cell (hgrowth r.cap r.cap_pos)
  else ⟨r.cap, r.head, tail, cell, r.head_lt, next_lt r.tail_lt⟩

def pop (r : RingBuffer A) : Option (A × RingBuffer A) :=
  if r.head = r.tail then none
  else some (r.cell r.head,
    ⟨r.cap, next r.cap r.head, r.tail, r.cell, next_lt r.head_lt, r.tail_lt⟩)

/-! ## Segments -/

theorem segment_succ (cell : ℕ → A) (cap head n : ℕ) :
    segment cell cap head (n + 1) = segment cell cap head n ++ [cell ((head + n) % cap)] := by
  simp [segment, List.range_succ]

theorem segment_cons (cell : ℕ → A) {cap head : ℕ} (h : head < cap) (n : ℕ) :
    segment cell cap head (n + 1) = cell head :: segment cell cap (next cap head) n := by
  rw [segment, List.range_succ_eq_map, List.map_cons, List.map_map, Nat.add_zero,
    Nat.mod_eq_of_lt h]
  congr 1
  apply List.map_congr_left
  intro i _
  rw [Function.comp_apply, next_eq_mod h, Nat.mod_add_mod]
  congr 2
  omega

theorem segment_congr {cell cell' : ℕ → A} {cap head n : ℕ}
    (h : ∀ i < n, cell ((head + i) % cap) = cell' ((head + i) % cap)) :
    segment cell cap head n = segment cell' cap head n := by
  apply List.map_congr_left
  intro i hi
  exact h i (List.mem_range.mp hi)

theorem segment_length (cell : ℕ → A) (cap head n : ℕ) :
    (segment cell cap head n).length = n := by
  simp [segment]

theorem add_mod_ne {cap head i n : ℕ} (hi : i < n) (hn : n < cap) :
    (head + i) % cap ≠ (head + n) % cap := by
  intro h
  have hmod : Nat.ModEq cap i n := Nat.ModEq.add_left_cancel' head h
  rw [Nat.ModEq, Nat.mod_eq_of_lt (by omega), Nat.mod_eq_of_lt hn] at hmod
  omega

/-! ## The queue -/

theorem length_lt (r : RingBuffer A) : r.length < r.cap := by
  have h1 := r.head_lt
  have h2 := r.tail_lt
  unfold length
  split <;> omega

theorem tail_eq (r : RingBuffer A) : r.tail = (r.head + r.length) % r.cap := by
  have h1 := r.head_lt
  have h2 := r.tail_lt
  unfold length
  split
  · rw [Nat.add_sub_cancel' (by assumption), Nat.mod_eq_of_lt h2]
  · have heq : r.head + (r.tail + r.cap - r.head) = r.tail + r.cap := by omega
    rw [heq, Nat.add_mod_right, Nat.mod_eq_of_lt h2]

theorem contents_length (r : RingBuffer A) : r.contents.length = r.length :=
  segment_length ..

theorem head_eq_tail_iff (r : RingBuffer A) : r.head = r.tail ↔ r.contents = [] := by
  have h1 := r.head_lt
  have h2 := r.tail_lt
  rw [← List.length_eq_zero_iff, contents_length, length]
  split <;> omega

@[simp] theorem contents_empty [Inhabited A] (cap : ℕ) (h : 0 < cap) :
    (empty cap h : RingBuffer A).contents = [] :=
  (head_eq_tail_iff _).mp rfl

theorem contents_grow [Inhabited A] (cap newCap head : ℕ) (cell : ℕ → A) (h : cap < newCap) :
    (grow cap newCap head cell h).contents = segment cell cap head cap := by
  have hlen : (grow cap newCap head cell h).length = cap := by simp [length, grow]
  rw [contents, hlen]
  apply List.map_congr_left
  intro i hi
  have hi' := List.mem_range.mp hi
  simp only [grow, Nat.zero_add]
  rw [Nat.mod_eq_of_lt (by omega), if_pos hi']

/-- The ring after a write holds one more, whether the write has filled it or not. -/
theorem segment_push (r : RingBuffer A) (x : A) :
    segment (Function.update r.cell r.tail x) r.cap r.head (r.length + 1) = r.contents ++ [x] := by
  rw [segment_succ, ← r.tail_eq, Function.update_self]
  congr 1
  apply segment_congr
  intro i hi
  apply Function.update_of_ne
  rw [r.tail_eq]
  exact add_mod_ne hi r.length_lt

theorem contents_push [Inhabited A] (growth : ℕ → ℕ) (hgrowth : ∀ c, 0 < c → c < growth c)
    (r : RingBuffer A) (x : A) : (r.push growth hgrowth x).contents = r.contents ++ [x] := by
  have h1 := r.head_lt
  have h2 := r.tail_lt
  rw [← segment_push, push]
  split
  · rename_i hfull
    rw [contents_grow]
    have hlen : r.length + 1 = r.cap := by
      unfold next at hfull
      unfold length
      split at hfull <;> split <;> omega
    rw [hlen]
  · rename_i hroom
    rw [contents]
    congr 1
    unfold next at hroom ⊢
    simp only [length]
    split_ifs at hroom ⊢ <;> omega

theorem pop_eq_none_iff (r : RingBuffer A) : r.pop = none ↔ r.contents = [] := by
  rw [← head_eq_tail_iff, pop]
  split <;> simp_all

theorem contents_of_pop {r r' : RingBuffer A} {x : A} (h : r.pop = some (x, r')) :
    r.contents = x :: r'.contents := by
  have h1 := r.head_lt
  have h2 := r.tail_lt
  unfold pop at h
  split at h
  · cases h
  · rename_i hne
    cases h
    have hlen : r.length = (r.length - 1) + 1 := by
      unfold length
      split <;> omega
    rw [contents, hlen, segment_cons r.cell h1, contents]
    congr 2
    simp only [length, next]
    split_ifs <;> omega

theorem pop_of_contents {r : RingBuffer A} {x : A} {xs : List A} (h : r.contents = x :: xs) :
    ∃ r', r.pop = some (x, r') ∧ r'.contents = xs := by
  cases hpop : r.pop with
  | none =>
      rw [(r.pop_eq_none_iff).mp hpop] at h
      cases h
  | some got =>
      obtain ⟨y, r'⟩ := got
      rw [contents_of_pop hpop, List.cons.injEq] at h
      exact ⟨r', by rw [h.1], h.2⟩

end RingBuffer
end Doudizhu
