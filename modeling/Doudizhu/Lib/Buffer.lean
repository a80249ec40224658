import Mathlib.Data.List.Basic
import Mathlib.Tactic.TypeStar

/-! # Writing to memory of a fixed size

`put` and `copy` write into a buffer that a caller gave; they are `none` where a write is outside
of it.  `splice` is the buffer after a write that is inside. -/

set_option autoImplicit false

namespace Doudizhu.Buffer

variable {B : Type*}

def put (buffer : List B) (i : ℕ) (b : B) : Option (List B) :=
  if i < buffer.length then some (buffer.set i b) else none

def copy (buffer : List B) : ℕ → List B → Option (List B)
  | _, [] => some buffer
  | i, b :: bs => (put buffer i b).bind fun buffer => copy buffer (i + 1) bs

def splice (buffer : List B) (i : ℕ) (bs : List B) : List B :=
  buffer.take i ++ bs ++ buffer.drop (i + bs.length)

@[simp] theorem splice_nil (buffer : List B) (i : ℕ) : splice buffer i [] = buffer := by
  simp [splice]

theorem length_splice {buffer bs : List B} {i : ℕ} (h : i + bs.length ≤ buffer.length) :
    (splice buffer i bs).length = buffer.length := by
  simp only [splice, List.length_append, List.length_take, List.length_drop]
  omega

theorem take_splice {buffer bs : List B} {i : ℕ} (h : i ≤ buffer.length) :
    (splice buffer i bs).take (i + bs.length) = buffer.take i ++ bs := by
  have hlen : (buffer.take i ++ bs).length = i + bs.length := by
    rw [List.length_append, List.length_take_of_le h]
  rw [splice, List.take_left' hlen]

theorem take_splice_of_le {buffer bs : List B} {i j : ℕ} (hi : i ≤ buffer.length) (h : j ≤ i) :
    (splice buffer i bs).take j = buffer.take j := by
  have hlen : j ≤ (buffer.take i).length := by rw [List.length_take_of_le hi]; exact h
  rw [splice, List.append_assoc, List.take_append_of_le_length hlen, List.take_take,
    Nat.min_eq_left h]

theorem splice_splice {buffer : List B} {i : ℕ} {bs cs : List B}
    (h : i + bs.length ≤ buffer.length) :
    splice (splice buffer i bs) (i + bs.length) cs = splice buffer i (bs ++ cs) := by
  have hlen : (buffer.take i ++ bs).length = i + bs.length := by
    rw [List.length_append, List.length_take_of_le (by omega)]
  have hdrop : (splice buffer i bs).drop (i + bs.length + cs.length) =
      buffer.drop (i + bs.length + cs.length) := by
    rw [splice, ← List.drop_drop, List.drop_left' hlen, List.drop_drop]
  rw [splice, take_splice (by omega), hdrop, splice, List.length_append]
  simp only [List.append_assoc, Nat.add_assoc]

theorem splice_before {buffer : List B} {i : ℕ} {bs cs : List B}
    (h : i + bs.length ≤ buffer.length) :
    splice (splice buffer (i + bs.length) cs) i bs = splice buffer i (bs ++ cs) := by
  have hlen : (buffer.take (i + bs.length)).length = i + bs.length := List.length_take_of_le h
  have htake : (splice buffer (i + bs.length) cs).take i = buffer.take i :=
    take_splice_of_le h (Nat.le_add_right _ _)
  have hdrop : (splice buffer (i + bs.length) cs).drop (i + bs.length) =
      cs ++ buffer.drop (i + bs.length + cs.length) := by
    rw [splice, List.append_assoc, List.drop_left' hlen]
  rw [splice, htake, hdrop, splice, List.length_append]
  simp only [List.append_assoc, Nat.add_assoc]

theorem put_eq {buffer : List B} {i : ℕ} (h : i < buffer.length) (b : B) :
    put buffer i b = some (splice buffer i [b]) := by
  rw [put, if_pos h, splice, List.set_eq_take_append_cons_drop, if_pos h, List.append_assoc]
  rfl

theorem copy_eq : ∀ {bs buffer : List B} {i : ℕ}, i + bs.length ≤ buffer.length →
    copy buffer i bs = some (splice buffer i bs) := by
  intro bs
  induction bs with
  | nil => intro buffer i _; rw [copy, splice_nil]
  | cons b bs ih =>
      intro buffer i h
      rw [List.length_cons] at h
      have hput := put_eq (show i < buffer.length by omega) b
      have hlen : (splice buffer i [b]).length = buffer.length :=
        length_splice (by rw [List.length_singleton]; omega)
      rw [copy, hput, Option.bind_some, ih (by rw [hlen]; omega)]
      exact congrArg some (splice_splice (by rw [List.length_singleton]; omega))

end Doudizhu.Buffer
