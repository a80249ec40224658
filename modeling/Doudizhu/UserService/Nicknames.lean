import Doudizhu.UserService.Service

/-! # The length of a nickname

`generate_nick` tells a surname of two characters by its distance to the end of the table:
thirty of them stand there.  The last surname of one character is at distance thirty as well, so
it is taken for one of two and its nickname has two characters. -/

set_option autoImplicit false

namespace Doudizhu.UserService

/-- Surnames of one character, then thirty of two. -/
structure SurnameTable where
  singles : List String
  doubles : List String
  singles_ne_nil : singles ≠ []
  single_length : ∀ family ∈ singles, family.length = 1
  double_length : ∀ family ∈ doubles, family.length = 2
  doubles_length : doubles.length = 30

namespace SurnameTable

def families (table : SurnameTable) : List String := table.singles ++ table.doubles

theorem families_length (table : SurnameTable) :
    table.families.length = table.singles.length + 30 := by
  simp [families, table.doubles_length]

variable (table : SurnameTable) (draw : NickDraw table.families.length)

theorem get_length_single (h : draw.randIndex.val < table.singles.length) :
    (table.families.get draw.randIndex).length = 1 := by
  refine table.single_length _ ?_
  simp only [families, List.get_eq_getElem, List.getElem_append_left h]
  exact List.getElem_mem h

theorem get_length_double (h : table.singles.length ≤ draw.randIndex.val) :
    (table.families.get draw.randIndex).length = 2 := by
  refine table.double_length _ ?_
  simp only [families, List.get_eq_getElem, List.getElem_append_right h]
  exact List.getElem_mem _

end SurnameTable

def givenName (families : List String) (draw : NickDraw families.length) : List Char :=
  if families.length - (draw.randIndex.val + 1) > 30 then [cjk draw.first, cjk draw.second]
  else [cjk draw.first]

theorem generateNick_eq (families : List String) (draw : NickDraw families.length) :
    generateNick families draw =
      families.get draw.randIndex ++ String.ofList (givenName families draw) := by
  by_cases h : families.length - (draw.randIndex.val + 1) > 30
  · simp only [generateNick, givenName, if_pos h]
  · simp only [generateNick, givenName, if_neg h]

/-- A given name of two characters after a surname of one and of one after a surname of two, and
three characters together. -/
def Fits (families : List String) (draw : NickDraw families.length) : Prop :=
  ∃ given, generateNick families draw = families.get draw.randIndex ++ given ∧
    ((families.get draw.randIndex).length = 1 → given.length = 2) ∧
    ((families.get draw.randIndex).length = 2 → given.length = 1) ∧
    (generateNick families draw).length = 3

section Table
variable (table : SurnameTable) (draw : NickDraw table.families.length)

/-- The comparison is met by the surnames before the last one of one character. -/
theorem givenName_length :
    (givenName table.families draw).length =
      if draw.randIndex.val + 1 < table.singles.length then 2 else 1 := by
  have hlen := table.families_length
  by_cases h : draw.randIndex.val + 1 < table.singles.length
  · rw [givenName, if_pos h, if_pos (by omega)]
    rfl
  · rw [givenName, if_neg h, if_neg (by omega)]
    rfl

theorem generateNick_length :
    (generateNick table.families draw).length =
      if draw.randIndex.val + 1 = table.singles.length then 2 else 3 := by
  rw [generateNick_eq, String.length_append, String.length_ofList, givenName_length]
  by_cases hsingle : draw.randIndex.val < table.singles.length
  · rw [table.get_length_single draw hsingle]
    split_ifs <;> omega
  · rw [table.get_length_double draw (by omega), if_neg (by omega), if_neg (by omega)]

/-- A nickname comes out as intended if and only if the surname drawn is not the last one of one
character. -/
theorem nick_fits_iff : Fits table.families draw ↔
    draw.randIndex.val + 1 ≠ table.singles.length := by
  constructor
  · rintro ⟨_, _, _, _, hthree⟩ hlast
    rw [generateNick_length, if_pos hlast] at hthree
    omega
  · intro hother
    refine ⟨String.ofList (givenName table.families draw), generateNick_eq _ draw, ?_, ?_, ?_⟩
    · intro hone
      have hsingle : draw.randIndex.val < table.singles.length := by
        by_contra hdouble
        have htwo := table.get_length_double draw (by omega)
        omega
      rw [String.length_ofList, givenName_length, if_pos (by omega)]
    · intro htwo
      have hdouble : table.singles.length ≤ draw.randIndex.val := by
        by_contra hsingle
        have hone := table.get_length_single draw (by omega)
        omega
      rw [String.length_ofList, givenName_length, if_neg (by omega)]
    · rw [generateNick_length, if_neg hother]

end Table

/-- The table of the source. -/
def surnames : SurnameTable where
  singles := familyNameMap.take 408
  doubles := familyNameMap.drop 408
  singles_ne_nil := by decide +kernel
  single_length := by decide +kernel
  double_length := by decide +kernel
  doubles_length := by decide +kernel

/-- 公 is the 408th surname: its nickname has one character after it. -/
theorem nick_of_last_single : ¬ ∀ (table : SurnameTable) (draw : NickDraw table.families.length),
    Fits table.families draw := by
  intro h
  obtain ⟨_, _, _, _, hthree⟩ :=
    h surnames ⟨⟨407, by decide +kernel⟩, 0, 0⟩
  revert hthree
  decide +kernel

end Doudizhu.UserService
