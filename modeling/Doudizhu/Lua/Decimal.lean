import Doudizhu.Lua.Value
import Mathlib.Tactic.NormNum
import Mathlib.Tactic.Ring

/-! # Decimal numerals

`tostring` of an integer is its decimal numeral, and `tonumber` reads the numeral back, up to both
ends of the 64 bits. -/

set_option autoImplicit false

namespace Doudizhu.Lua

def decimal : Int → List Char
  | .ofNat n => Nat.toDigits 10 n
  | .negSucc n => '-' :: Nat.toDigits 10 (n + 1)

theorem digitValue_digitChar {d : ℕ} (h : d < 10) : digitValue d.digitChar = some d := by
  have hchar := Nat.toNat_digitChar_of_lt_ten h
  rw [digitValue, hchar, if_pos (by omega), Nat.add_sub_cancel_left]

theorem readDecimal_digitChar (neg : Bool) {a d : ℕ} (s : List Char) (h : d < 10)
    (hmax : a * 10 + d ≤ 9223372036854775807 + neg.toNat) :
    readDecimal neg (d.digitChar :: s) a = readDecimal neg s (a * 10 + d) := by
  have hneg : neg.toNat ≤ 1 := Bool.toNat_le neg
  have hno : ¬ (maxBy10 ≤ a ∧ (maxBy10 < a ∨ maxLastD + neg.toNat < d)) := by
    simp only [maxBy10, maxLastD]
    omega
  simp only [readDecimal, digitValue_digitChar h, if_neg hno]

theorem readDecimal_toDigits (neg : Bool) (s : List Char) : ∀ n,
    n ≤ 9223372036854775807 + neg.toNat →
      readDecimal neg (Nat.toDigits 10 n ++ s) 0 = readDecimal neg s n := by
  intro n
  induction n using Nat.strong_induction_on generalizing s with
  | h n ih =>
      intro hmax
      by_cases hsmall : n < 10
      · rw [Nat.toDigits_of_lt_base hsmall, List.singleton_append,
          readDecimal_digitChar neg s hsmall (by omega)]
        simp
      · have hdiv : n / 10 * 10 + n % 10 = n := by omega
        rw [Nat.toDigits_of_base_le (by decide) (by omega), List.append_assoc,
          ih (n / 10) (by omega) _ (by omega), List.singleton_append,
          readDecimal_digitChar neg s (by omega) (by omega), hdiv]

theorem isDigit_of_mem_decimal {n : ℕ} {c : Char} (h : c ∈ Nat.toDigits 10 n) :
    c.isDigit = true := Nat.isDigit_of_mem_toDigits (by decide) (by decide) h

theorem readDigits_toDigits (neg : Bool) {n : ℕ} (hmax : n ≤ 9223372036854775807 + neg.toNat) :
    readDigits neg (Nat.toDigits 10 n) = some (n, []) := by
  have hread : readDecimal neg (Nat.toDigits 10 n) 0 = some (n, []) := by
    have h := readDecimal_toDigits neg [] n hmax
    rwa [List.append_nil, readDecimal] at h
  unfold readDigits
  split
  · rename_i heq
    have hx : 'x' ∈ Nat.toDigits 10 n := by rw [heq]; simp
    have hdigit := isDigit_of_mem_decimal hx
    exact absurd hdigit (by decide)
  · rename_i heq
    have hx : 'X' ∈ Nat.toDigits 10 n := by rw [heq]; simp
    have hdigit := isDigit_of_mem_decimal hx
    exact absurd hdigit (by decide)
  · rw [hread, Option.filter_some, if_pos (by simp)]

theorem toDigits_head (n : ℕ) : ∃ c s, Nat.toDigits 10 n = c :: s ∧ lisspace c = false ∧
    c ≠ '-' ∧ c ≠ '+' := by
  obtain ⟨c, s, hcons⟩ := List.exists_cons_of_ne_nil (Nat.toDigits_ne_nil (n := n) (b := 10))
  have hdigit : c.isDigit = true := isDigit_of_mem_decimal (n := n) (by rw [hcons]; simp)
  refine ⟨c, s, hcons, ?_, ?_, ?_⟩
  · rw [Char.isDigit_iff_toNat] at hdigit
    have hlow : 48 ≤ c.toNat := hdigit.1
    simp only [lisspace, Bool.or_eq_false_iff, Bool.and_eq_false_iff, decide_eq_false_iff_not]
    omega
  · intro heq
    subst heq
    exact absurd hdigit (by decide)
  · intro heq
    subst heq
    exact absurd hdigit (by decide)

theorem castU2S_of_le {n : ℕ} (h : n ≤ 9223372036854775807) : castU2S n = n :=
  Int.bmod_eq_of_le (by norm_num) (by norm_num; omega)

theorem castU2S_negSucc {n : ℕ} (h : n ≤ 9223372036854775807) :
    castU2S ((2 ^ 64 - (n + 1)) % 2 ^ 64) = .negSucc n := by
  have hmod : (2 ^ 64 - (n + 1)) % 2 ^ 64 = 2 ^ 64 - (n + 1) := Nat.mod_eq_of_lt (by norm_num)
  have hcast : ((2 ^ 64 - (n + 1) : ℕ) : ℤ) = .negSucc n + (2 ^ 64 : ℕ) := by
    rw [Int.negSucc_eq, Nat.cast_sub (by norm_num; omega)]
    push_cast
    ring
  unfold castU2S
  rw [hmod, hcast, Int.add_bmod_right, Int.negSucc_eq]
  exact Int.bmod_eq_of_le (by norm_num; omega) (by norm_num; omega)

theorem lStr2int_decimal {n : Int} (hlow : -9223372036854775808 ≤ n)
    (hhigh : n ≤ 9223372036854775807) :
    lStr2int (decimal n) = some n := by
  cases n with
  | ofNat n =>
      obtain ⟨c, s, hcons, hspace, hminus, hplus⟩ := toDigits_head n
      have hdrop : (decimal (.ofNat n)).dropWhile lisspace = Nat.toDigits 10 n := by
        rw [decimal, hcons, List.dropWhile_cons_of_neg (by simp [hspace])]
      have hsign : isneg (Nat.toDigits 10 n) = (false, Nat.toDigits 10 n) := by
        rw [hcons, isneg]
        · exact fun _ h => hminus (List.cons.inj h).1
        · exact fun _ h => hplus (List.cons.inj h).1
      have hle : n ≤ 9223372036854775807 := by
        rw [Int.ofNat_eq_natCast] at hhigh
        omega
      have hread := readDigits_toDigits false (n := n) hle
      simp only [lStr2int, hdrop, hsign, hread, List.dropWhile_nil, if_true, Bool.false_eq_true,
        if_false]
      exact congrArg some (castU2S_of_le hle)
  | negSucc n =>
      have hle : n ≤ 9223372036854775807 := by
        rw [Int.negSucc_eq] at hlow
        omega
      have hdrop : (decimal (.negSucc n)).dropWhile lisspace =
          '-' :: Nat.toDigits 10 (n + 1) := List.dropWhile_cons_of_neg (by decide)
      have hread := readDigits_toDigits true (n := n + 1) (Nat.succ_le_succ hle)
      simp only [lStr2int, hdrop, isneg, hread, List.dropWhile_nil, if_true]
      exact congrArg some (castU2S_negSucc hle)

example : (decimal (-9223372036854775808)).length = 20 ∧
    lStr2int (decimal (-9223372036854775808)) = some (-9223372036854775808) := by decide

end Doudizhu.Lua
