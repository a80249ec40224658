import Mathlib.Algebra.Group.Nat.Defs
import Mathlib.Data.List.Basic

/-! # Lua 5.3 values as the services exchange them

Numbers are integers of 64 bits or floats.  The float arithmetic is the C library's and enters
through `LuaFloat`; integer numerals are read as in `l_str2int` of the bundled `lobject.c`, and
`tonumber` tries the integer reading first. -/

set_option autoImplicit false

namespace Doudizhu.Lua

/-- The C double: reading a numeral, `n <= 0`, the text of `tostring`, `n + i`, and the integer that
it is. -/
class LuaFloat (φ : Type) where
  str2d : String → Option φ
  nonpositive : φ → Bool
  text : φ → String
  addInteger : φ → Int → φ
  toInteger : φ → Option Int

/-- Only integers: no text is read as a float. -/
instance : LuaFloat Empty where
  str2d _ := none
  nonpositive f := f.elim
  text f := f.elim
  addInteger f _ := f
  toInteger f := f.elim

inductive Number (φ : Type) where
  | integer (n : Int)
  | float (f : φ)
  deriving DecidableEq

/-- `table` is an array of strings, with holes, as the Redis driver builds it. -/
inductive Value (φ : Type) where
  | nil
  | boolean (b : Bool)
  | number (n : Number φ)
  | string (s : String)
  | table (items : List (Option String))
  deriving DecidableEq

section Integers

def lisspace (c : Char) : Bool := c.toNat = 32 || (9 ≤ c.toNat && c.toNat ≤ 13)

def digitValue (c : Char) : Option Nat :=
  if 48 ≤ c.toNat ∧ c.toNat ≤ 57 then some (c.toNat - 48) else none

def hexaValue (c : Char) : Option Nat :=
  if 97 ≤ c.toNat ∧ c.toNat ≤ 102 then some (c.toNat - 87)
  else if 65 ≤ c.toNat ∧ c.toNat ≤ 70 then some (c.toNat - 55)
  else digitValue c

def isneg : List Char → Bool × List Char
  | '-' :: s => (true, s)
  | '+' :: s => (false, s)
  | s => (false, s)

/-- Hexadecimal digits wrap around at 64 bits. -/
def readHex : List Char → Nat → Nat × List Char
  | [], a => (a, [])
  | c :: s, a =>
      match hexaValue c with
      | some d => readHex s ((a * 16 + d) % 2 ^ 64)
      | none => (a, c :: s)

def maxBy10 : Nat := 922337203685477580
def maxLastD : Nat := 7

/-- Decimal digits that overflow are not accepted as an integer. -/
def readDecimal (neg : Bool) : List Char → Nat → Option (Nat × List Char)
  | [], a => some (a, [])
  | c :: s, a =>
      match digitValue c with
      | some d =>
          if maxBy10 ≤ a ∧ (maxBy10 < a ∨ maxLastD + neg.toNat < d) then none
          else readDecimal neg s (a * 10 + d)
      | none => some (a, c :: s)

/-- The unsigned value of the digits and what follows them; `none` also when there are none. -/
def readDigits (neg : Bool) (s : List Char) : Option (Nat × List Char) :=
  match s with
  | '0' :: 'x' :: digits | '0' :: 'X' :: digits =>
      if (readHex digits 0).2 = digits then none else some (readHex digits 0)
  | digits =>
      (readDecimal neg digits 0).filter fun result => result.2 ≠ digits

def castU2S (a : Nat) : Int := Int.bmod a (2 ^ 64)

def lStr2int (text : List Char) : Option Int :=
  let signed := isneg (text.dropWhile lisspace)
  match readDigits signed.1 signed.2 with
  | some (a, rest) =>
      if rest.dropWhile lisspace = [] then
        some (castU2S (if signed.1 then (2 ^ 64 - a) % 2 ^ 64 else a))
      else none
  | none => none

example : lStr2int "100000".toList = some 100000 ∧ lStr2int " 0x1F ".toList = some 31 ∧
    lStr2int "9223372036854775808".toList = none ∧ lStr2int "1e5".toList = none := by decide

end Integers

section Operations
variable {φ : Type} [LuaFloat φ]

def str2num (s : String) : Option (Number φ) :=
  match lStr2int s.toList with
  | some n => some (.integer n)
  | none => (LuaFloat.str2d s).map .float

def tonumber : Value φ → Option (Number φ)
  | .number n => some n
  | .string s => str2num s
  | _ => none

def Number.toInteger : Number φ → Option Int
  | .integer n => some n
  | .float f => LuaFloat.toInteger f

/-- `lua_tointegerx`: a string is read as a number first. -/
def tointegerx (v : Value φ) : Option Int := (tonumber v).bind Number.toInteger

def Number.text : Number φ → String
  | .integer n => toString n
  | .float f => LuaFloat.text f

def Number.nonpositive : Number φ → Bool
  | .integer n => decide (n ≤ 0)
  | .float f => LuaFloat.nonpositive f

/-- `n + i` for an integer `i`; integers wrap around. -/
def Number.addInteger : Number φ → Int → Number φ
  | .integer n, i => .integer (Int.bmod (n + i) (2 ^ 64))
  | .float f, i => .float (LuaFloat.addInteger f i)

/-- The address in the text of a table is left out. -/
def tostring : Value φ → String
  | .nil => "nil"
  | .boolean b => toString b
  | .number n => n.text
  | .string s => s
  | .table _ => "table"

/-- `lua_tolstring`, which converts numbers. -/
def tolstring : Value φ → Option String
  | .number n => some n.text
  | .string s => some s
  | _ => none

/-- Everything but `nil` and `false` counts as true. -/
def truthy : Value φ → Bool
  | .nil => false
  | .boolean b => b
  | _ => true

end Operations

/-! ## Comparisons -/

/-- How a C double compares with an integer, and whether two doubles are equal; a NaN compares
with nothing. -/
class LuaCompare (φ : Type) extends LuaFloat φ where
  compareInteger : φ → Int → Option Ordering
  eqFloat : φ → φ → Bool
  eq_unique : ∀ f i j, compareInteger f i = some .eq → compareInteger f j = some .eq → i = j

instance : LuaCompare Empty where
  compareInteger f := f.elim
  eqFloat f := f.elim
  eq_unique f := f.elim

section Comparisons
variable {φ : Type} [LuaCompare φ]

def Number.compareInteger : Number φ → Int → Option Ordering
  | .integer n, i => some (compare n i)
  | .float f, i => LuaCompare.compareInteger f i

def Number.lt (n : Number φ) (i : Int) : Bool := n.compareInteger i = some .lt

def Number.gt (n : Number φ) (i : Int) : Bool := n.compareInteger i = some .gt

def Number.eqInteger (n : Number φ) (i : Int) : Bool := n.compareInteger i = some .eq

def Number.le (n : Number φ) (i : Int) : Bool := n.lt i || n.eqInteger i

def Number.ge (n : Number φ) (i : Int) : Bool := n.gt i || n.eqInteger i

def Number.eq : Number φ → Number φ → Bool
  | .integer n, m => m.eqInteger n
  | .float f, .integer i => (Number.float f).eqInteger i
  | .float f, .float g => LuaCompare.eqFloat f g

def Value.eqInteger (v : Value φ) (i : Int) : Bool :=
  match v with
  | .number n => n.eqInteger i
  | _ => false

theorem Number.eqInteger_unique {n : Number φ} {i j : Int} (hi : n.eqInteger i = true)
    (hj : n.eqInteger j = true) : i = j := by
  have hi := of_decide_eq_true hi
  have hj := of_decide_eq_true hj
  cases n with
  | integer n =>
      have hni : n = i := Int.compare_eq_eq.mp (Option.some.inj hi)
      have hnj : n = j := Int.compare_eq_eq.mp (Option.some.inj hj)
      exact hni.symm.trans hnj
  | float f => exact LuaCompare.eq_unique f i j hi hj

end Comparisons

/-! ## Small integers in doubles -/

/-- A double that equals an integer compares as that integer does, and a sum of integers within
52 bits is exact. -/
class LuaDouble (φ : Type) extends LuaCompare φ where
  compare_of_eq : ∀ f i j, compareInteger f i = some .eq → compareInteger f j = some (compare i j)
  addInteger_eq : ∀ f i d, i.natAbs ≤ 2 ^ 52 → d.natAbs ≤ 2 ^ 52 →
    compareInteger f i = some .eq → compareInteger (addInteger f d) (i + d) = some .eq

instance : LuaDouble Empty where
  compare_of_eq f := f.elim
  addInteger_eq f := f.elim

section Doubles
variable {φ : Type} [LuaDouble φ] {n : Number φ} {i : Int}

theorem Number.compareInteger_of_eq (h : n.eqInteger i = true) (j : Int) :
    n.compareInteger j = some (compare i j) := by
  have hi := of_decide_eq_true h
  cases n with
  | integer m =>
      have hm : m = i := Int.compare_eq_eq.mp (Option.some.inj hi)
      rw [compareInteger, hm]
  | float f => exact LuaDouble.compare_of_eq f i j hi

theorem Number.addInteger_of_eq (h : n.eqInteger i = true) {d : Int} (hi : i.natAbs ≤ 2 ^ 52)
    (hd : d.natAbs ≤ 2 ^ 52) : (n.addInteger d).eqInteger (i + d) = true := by
  have heq := of_decide_eq_true h
  cases n with
  | integer m =>
      have hm : m = i := Int.compare_eq_eq.mp (Option.some.inj heq)
      have hexact : Int.bmod (i + d) (2 ^ 64) = i + d := Int.bmod_eq_of_le (by omega) (by omega)
      rw [addInteger, hm, hexact]
      exact decide_eq_true (congrArg some (Int.compare_eq_eq.mpr rfl))
  | float f => exact decide_eq_true (LuaDouble.addInteger_eq f i d hi hd heq)

theorem Number.lt_of_eq (h : n.eqInteger i = true) (j : Int) : n.lt j = decide (i < j) := by
  rw [lt, compareInteger_of_eq h]
  exact decide_eq_decide.mpr (by rw [Option.some.injEq, Int.compare_eq_lt])

theorem Number.gt_of_eq (h : n.eqInteger i = true) (j : Int) : n.gt j = decide (j < i) := by
  rw [gt, compareInteger_of_eq h]
  exact decide_eq_decide.mpr (by rw [Option.some.injEq, Int.compare_eq_gt])

theorem Number.eqInteger_of_eq (h : n.eqInteger i = true) (j : Int) :
    n.eqInteger j = decide (i = j) := by
  rw [eqInteger, compareInteger_of_eq h]
  exact decide_eq_decide.mpr (by rw [Option.some.injEq, Int.compare_eq_eq])

theorem Number.le_of_eq (h : n.eqInteger i = true) (j : Int) : n.le j = decide (i ≤ j) := by
  rw [le, lt_of_eq h, eqInteger_of_eq h, ← Bool.decide_or]
  exact decide_eq_decide.mpr Int.le_iff_lt_or_eq.symm

theorem Number.ge_of_eq (h : n.eqInteger i = true) (j : Int) : n.ge j = decide (j ≤ i) := by
  rw [ge, gt_of_eq h, eqInteger_of_eq h, ← Bool.decide_or]
  exact decide_eq_decide.mpr (by omega)

end Doubles

end Doudizhu.Lua
