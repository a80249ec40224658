import Doudizhu.Lua.Value
import Mathlib.Data.List.Infix

/-! # Tables and formatted text

A table is a reference into a heap, so that it can stand in several places, also in itself.
`format` follows `str_format` of the bundled `lstrlib.c` for the conversions `%s` and `%d`; a
conversion with no argument left raises, whichever it is. -/

set_option autoImplicit false

namespace Doudizhu.Lua

/-- What can stand in a table.  Elsewhere a value may also be `nil`, which is `none`. -/
inductive TValue (ρ φ : Type) where
  | boolean (b : Bool)
  | number (n : Number φ)
  | string (s : String)
  | table (r : ρ)

/-- The keys and values of every table in the order of `pairs`. -/
abbrev Heap (ρ φ : Type) := ρ → List (TValue ρ φ × TValue ρ φ)

/-- The text of a double, as `%.14g` prints it, has no percent sign. -/
class LuaPrint (φ : Type) extends LuaFloat φ where
  text_plain : ∀ f, '%' ∉ (text f).toList

instance : LuaPrint Empty where
  text_plain f := f.elim

section Text
variable {ρ φ : Type} [LuaFloat φ]

/-- `tostring(v)`, without the address of a table. -/
def TValue.text : TValue ρ φ → String
  | .boolean b => toString b
  | .number n => n.text
  | .string s => s
  | .table _ => "table"

def textOf : Option (TValue ρ φ) → String
  | none => "nil"
  | some v => v.text

@[simp] theorem textOf_some (v : TValue ρ φ) : textOf (some v) = v.text := rfl
@[simp] theorem text_string (s : String) : (TValue.string s : TValue ρ φ).text = s := rfl
@[simp] theorem text_integer (n : Int) :
    (TValue.number (.integer n) : TValue ρ φ).text = toString n := rfl

/-- A key that ends a test as `nil` does. -/
def TValue.isFalse : TValue ρ φ → Bool
  | .boolean b => !b
  | _ => false

/-- `string.format(fmt, args...)`; `none` when it raises. -/
def format : List Char → List (Option (TValue ρ φ)) → Option (List Char)
  | [], _ => some []
  | '%' :: '%' :: fmt, args => (format fmt args).map fun out => '%' :: out
  | '%' :: 's' :: fmt, v :: args => (format fmt args).map fun out => (textOf v).toList ++ out
  | '%' :: 'd' :: fmt, some (.number (.integer n)) :: args =>
      (format fmt args).map fun out => (toString n).toList ++ out
  | '%' :: _, _ => none
  | c :: fmt, args => (format fmt args).map fun out => c :: out

end Text

def percentsPaired : List Char → Bool
  | [] => true
  | '%' :: '%' :: s => percentsPaired s
  | '%' :: _ => false
  | _ :: s => percentsPaired s

theorem percents_induction {motive : List Char → Prop} (nil : motive [])
    (pair : ∀ s, motive s → motive ('%' :: '%' :: s))
    (single : ∀ s, s.head? ≠ some '%' → motive ('%' :: s))
    (char : ∀ c s, c ≠ '%' → motive s → motive (c :: s)) : ∀ s, motive s := by
  intro s
  induction s using percentsPaired.induct with
  | case1 => exact nil
  | case2 s ih => exact pair s ih
  | case3 s hs =>
      refine single s fun hhead => ?_
      obtain ⟨rest, rfl⟩ := List.head?_eq_some_iff.mp hhead
      exact hs rest rfl
  | case4 c s _ hc ih => exact char c s hc ih

section Format
variable {ρ φ : Type} [LuaFloat φ] {c : Char} {s t : List Char}

theorem percentsPaired_single (hs : s.head? ≠ some '%') : percentsPaired ('%' :: s) = false := by
  rw [percentsPaired]
  rintro rest rfl
  exact hs rfl

theorem percentsPaired_cons (hc : c ≠ '%') : percentsPaired (c :: s) = percentsPaired s := by
  rw [percentsPaired]
  · intro rest h
    exact absurd h hc
  · exact hc

theorem percentsPaired_plain (hs : '%' ∉ s) : percentsPaired s = true := by
  induction s with
  | nil => rfl
  | cons c s ih =>
      rw [List.mem_cons, not_or] at hs
      rw [percentsPaired_cons (Ne.symm hs.1), ih hs.2]

theorem head_cons_ne (hc : c ≠ '%') : (c :: s).head? ≠ some '%' :=
  fun h => hc (Option.some.inj h)

/-- Texts are read one after the other when no pair spans the seam. -/
theorem percentsPaired_append (ht : t.head? ≠ some '%') :
    percentsPaired (s ++ t) = (percentsPaired s && percentsPaired t) := by
  induction s using percents_induction with
  | nil => rfl
  | pair s ih => exact ih
  | single s hs =>
      have hseam : (s ++ t).head? ≠ some '%' := by
        cases s with
        | nil => exact ht
        | cons d s => exact hs
      rw [List.cons_append, percentsPaired_single hseam, percentsPaired_single hs, Bool.false_and]
  | char c s hc ih =>
      rw [List.cons_append, percentsPaired_cons hc, percentsPaired_cons hc, ih]

/-! ## Formatting without arguments -/

abbrev noArgs (ρ φ : Type) : List (Option (TValue ρ φ)) := []

theorem format_single (hs : s.head? ≠ some '%') :
    format ('%' :: s) (noArgs ρ φ) = none := by
  rw [format]
  · rintro rest rfl
    exact hs rfl
  · intro _ _ _ h
    cases h
  · intro _ _ _ h
    cases h

theorem format_cons (hc : c ≠ '%') : format (c :: s) (noArgs ρ φ) =
    (format s (noArgs ρ φ)).map fun out => c :: out := by
  rw [format]
  all_goals
    intros
    exact absurd ‹c = '%'› hc

theorem format_isSome :
    (format s (noArgs ρ φ)).isSome = percentsPaired s := by
  induction s using percents_induction with
  | nil => rfl
  | pair s ih => exact (Option.isSome_map ..).trans ih
  | single s hs => rw [format_single hs, percentsPaired_single hs, Option.isSome_none]
  | char c s hc ih => rw [format_cons hc, percentsPaired_cons hc, Option.isSome_map, ih]

theorem format_plain (hs : '%' ∉ s) : format s (noArgs ρ φ) = some s := by
  induction s with
  | nil => rfl
  | cons c s ih =>
      rw [List.mem_cons, not_or] at hs
      rw [format_cons (Ne.symm hs.1), ih hs.2, Option.map_some]

theorem format_length {out : List Char} (h : format s (noArgs ρ φ) = some out) :
    out.length ≤ s.length ∧ ('%' ∈ s → out.length < s.length) := by
  induction s using percents_induction generalizing out with
  | nil =>
      cases h
      exact ⟨le_rfl, fun hmem => absurd hmem List.not_mem_nil⟩
  | pair s ih =>
      obtain ⟨rest, hrest, rfl⟩ := Option.map_eq_some_iff.mp h
      have hle := (ih hrest).1
      simp only [List.length_cons]
      exact ⟨by omega, fun _ => by omega⟩
  | single s hs =>
      rw [format_single hs] at h
      cases h
  | char c s hc ih =>
      rw [format_cons hc] at h
      obtain ⟨rest, hrest, rfl⟩ := Option.map_eq_some_iff.mp h
      obtain ⟨hle, hlt⟩ := ih hrest
      simp only [List.length_cons]
      refine ⟨by omega, fun hmem => ?_⟩
      have := hlt ((List.mem_cons.mp hmem).resolve_left (Ne.symm hc))
      omega

end Format
end Doudizhu.Lua
