import Doudizhu.Network.SprotoHost
import Mathlib.Algebra.Group.Int.Defs

/-! # The sproto wire format

`sproto.c` for types whose fields are integers, strings and booleans with the tags 0, 1, 2, ...,
with the callback of `lsproto.c`, which converts numbers to strings and numerals to integers.

A message is the number of words, the words, and the data.  An even word is a field, with a small
value in it or 0 when the value is in the data; an odd word jumps over tags.  A string whose
bytes are not UTF-8 is no value of the model and is not decoded. -/

set_option autoImplicit false

namespace Doudizhu.Network

open Lua

/-! ## Little endian numbers -/

def fill : Nat → Nat → Bytes
  | 0, _ => []
  | width + 1, n => UInt8.ofNat (n % 256) :: fill width (n / 256)

def todword : Bytes → Nat
  | [] => 0
  | b :: bytes => b.toNat + 256 * todword bytes

@[simp] theorem length_fill (width n : Nat) : (fill width n).length = width := by
  induction width generalizing n with
  | zero => rfl
  | succ width ih => simp only [fill, List.length_cons, ih]

theorem todword_fill (width : Nat) : ∀ n, n < 256 ^ width → todword (fill width n) = n := by
  induction width with
  | zero =>
      intro n hn
      have hzero : n = 0 := by simpa using hn
      simp [fill, todword, hzero]
  | succ width ih =>
      intro n hn
      have hhigh : n / 256 < 256 ^ width := by
        rw [pow_succ] at hn
        omega
      simp only [fill, todword, ih _ hhigh, UInt8.toNat_ofNat']
      omega

/-! ## The fields -/

section Fields
variable {φ : Type} [LuaFloat φ]

def stringBytes (s : String) : Bytes := s.toByteArray.data.toList

def bytesString (bytes : Bytes) : Option String := String.fromUTF8? ⟨bytes.toArray⟩

theorem bytesString_stringBytes (s : String) : bytesString (stringBytes s) = some s := by
  have hbytes : (⟨(stringBytes s).toArray⟩ : ByteArray) = s.toByteArray := by
    simp [stringBytes]
  unfold bytesString String.fromUTF8?
  rw [hbytes, dif_pos s.isValidUTF8]
  rfl

def object (content : Bytes) : Bytes := fill 4 content.length ++ content

/-- The value of the field as the callback of `lsproto.c` converts it; `none` when it raises. -/
def convert : FieldType → Value φ → Option (Value φ)
  | _, .nil => some .nil
  | .integer, v => (tointegerx v).map fun n => .number (.integer n)
  | .boolean, .boolean b => some (.boolean b)
  | .boolean, _ => none
  | .string, v => (tolstring v).map .string

/-- The word and the data for a value of the type, `some none` for `nil`. -/
def encodeValue : FieldType → Value φ → Option (Option (Nat × Bytes))
  | _, .nil => some none
  | .integer, .number (.integer v) =>
      if 0 ≤ v ∧ v < 0x7fff then some (some ((v.toNat + 1) * 2, []))
      else if -2 ^ 31 ≤ v ∧ v < 2 ^ 31 then
        some (some (0, object (fill 4 (v % 2 ^ 32).toNat)))
      else if -2 ^ 63 ≤ v ∧ v < 2 ^ 63 then
        some (some (0, object (fill 8 (v % 2 ^ 64).toNat)))
      else none
  | .boolean, .boolean b => some (some ((b.toNat + 1) * 2, []))
  | .string, .string s => some (some (0, object (stringBytes s)))
  | _, _ => none

def encodeField (fieldType : FieldType) (v : Value φ) : Option (Option (Nat × Bytes)) :=
  (convert fieldType v).bind (encodeValue fieldType)

def decodeSmall (value : Nat) : FieldType → Option (Value φ)
  | .integer => some (.number (.integer value))
  | .boolean => some (.boolean (value ≠ 0))
  | .string => none

def decodeObject (content : Bytes) : FieldType → Option (Value φ)
  | .integer =>
      if content.length = 4 then
        some (.number (.integer (Int.bmod (todword content) (2 ^ 32))))
      else if content.length = 8 then
        some (.number (.integer (Int.bmod (todword content) (2 ^ 64))))
      else none
  | .string => (bytesString content).map .string
  | .boolean => none

omit [LuaFloat φ] in
theorem decode_encodeValue {fieldType : FieldType} {v : Value φ} {value : Nat} {data : Bytes}
    (h : encodeValue fieldType v = some (some (value, data))) :
    (value = 0 ∧ ∃ content, data = object content ∧ decodeObject content fieldType = some v) ∨
      (0 < value ∧ value % 2 = 0 ∧ data = [] ∧
        decodeSmall (value / 2 - 1) fieldType = some v) := by
  unfold encodeValue at h
  split at h
  · simp at h
  · rename_i v
    split at h
    · rename_i hsmall
      cases Option.some.inj (Option.some.inj h)
      refine Or.inr ⟨by omega, by omega, rfl, ?_⟩
      have hvalue : (((v.toNat + 1) * 2 / 2 - 1 : Nat) : Int) = v := by omega
      simp only [decodeSmall, hvalue]
    · split at h
      · rename_i h32
        cases Option.some.inj (Option.some.inj h)
        refine Or.inl ⟨rfl, _, rfl, ?_⟩
        have hlow : (v % 2 ^ 32).toNat < 256 ^ 4 := by omega
        simp only [decodeObject, length_fill, if_true, todword_fill 4 _ hlow]
        have hvalue : Int.bmod (((v % 2 ^ 32).toNat : Nat) : Int) (2 ^ 32) = v := by
          rw [Int.bmod_def]
          omega
        rw [hvalue]
      · split at h
        · rename_i h64
          cases Option.some.inj (Option.some.inj h)
          refine Or.inl ⟨rfl, _, rfl, ?_⟩
          have hlow : (v % 2 ^ 64).toNat < 256 ^ 8 := by omega
          simp only [decodeObject, length_fill, if_true, todword_fill 8 _ hlow]
          have hvalue : Int.bmod (((v % 2 ^ 64).toNat : Nat) : Int) (2 ^ 64) = v := by
            rw [Int.bmod_def]
            omega
          rw [hvalue]
          rfl
        · cases h
  · rename_i b
    cases Option.some.inj (Option.some.inj h)
    refine Or.inr ⟨by omega, by omega, rfl, ?_⟩
    cases b <;> rfl
  · rename_i s
    cases Option.some.inj (Option.some.inj h)
    refine Or.inl ⟨rfl, _, rfl, ?_⟩
    simp only [decodeObject, bytesString_stringBytes, Option.map_some]
  · cases h

theorem convert_of_admits {fieldType : FieldType} {v : Value φ} (h : fieldType.Admits v) :
    convert fieldType v = some v := by
  unfold FieldType.Admits at h
  split at h
  · cases fieldType <;> rfl
  · rfl
  · rfl
  · rfl
  · exact h.elim

theorem convert_eq_nil {fieldType : FieldType} {v : Value φ}
    (h : convert fieldType v = some .nil) : v = .nil := by
  unfold convert at h
  split at h
  · rfl
  all_goals simp at h

end Fields

/-! ## Messages -/

section Messages
variable {φ : Type} [LuaFloat φ]

/-- The words and the data for the fields from one tag on, after `skipped` tags without a
field. -/
def encodeFields (t : Table φ) : List (String × FieldType) → Nat → Option (List Nat × Bytes)
  | [], _ => some ([], [])
  | (name, fieldType) :: fields, skipped =>
      match encodeField fieldType (t name) with
      | none => none
      | some none => encodeFields t fields (skipped + 1)
      | some (some (value, data)) =>
          (encodeFields t fields 0).map fun later =>
            ((if skipped = 0 then [] else [(skipped - 1) * 2 + 1]) ++ value :: later.1,
              data ++ later.2)

/-- The largest buffer of `lencode`, which doubles from 2050 bytes up to no more than 0x1000000. -/
def encodeMaxsize : Nat := 2050 * 2 ^ 12

/-- `lencode`.  The buffer has to have room for a word of each field of the type. -/
def sprotoEncode (ty : SprotoType) (t : Table φ) : Option Bytes :=
  match encodeFields t ty.fields 0 with
  | none => none
  | some (words, data) =>
      if (words.length < 65536 ∧ ∀ w ∈ words, w < 65536) ∧
          2 + 2 * ty.fields.length + data.length ≤ encodeMaxsize then
        some (fill 2 words.length ++ words.flatMap (fill 2) ++ data)
      else none

def takeObject (stream : Bytes) : Option (Bytes × Bytes) :=
  let size := todword (stream.take 4)
  if stream.length < 4 + size then none
  else some ((stream.drop 4).take size, stream.drop (4 + size))

/-- `findtag` and the callback: a tag without a field is passed over. -/
def storeField (ty : SprotoType) (tag : Nat) (read : FieldType → Option (Value φ))
    (later : Option (Table φ × Bytes)) : Option (Table φ × Bytes) :=
  match ty.fields[tag]? with
  | none => later
  | some (name, fieldType) =>
      match read fieldType with
      | none => none
      | some v => later.map fun result => (Function.update result.1 name v, result.2)

/-- The fields read from the words, the first of which is for `tag`, and what is left. -/
def decodeFields (ty : SprotoType) : List Nat → Nat → Bytes → Option (Table φ × Bytes)
  | [], _, stream => some (emptyTable, stream)
  | word :: words, tag, stream =>
      if word % 2 = 1 then decodeFields ty words (tag + 1 + word / 2) stream
      else if word = 0 then
        match takeObject stream with
        | none => none
        | some (content, stream) =>
            storeField ty tag (decodeObject content) (decodeFields ty words (tag + 1) stream)
      else
        storeField ty tag (decodeSmall (word / 2 - 1)) (decodeFields ty words (tag + 1) stream)

def readWords : Nat → Bytes → Option (List Nat × Bytes)
  | 0, stream => some ([], stream)
  | count + 1, stream =>
      if stream.length < 2 then none
      else (readWords count (stream.drop 2)).map fun result =>
        (todword (stream.take 2) :: result.1, result.2)

def sprotoDecode (ty : SprotoType) (stream : Bytes) : Option (Table φ × Nat) :=
  if stream.length < 2 then none
  else
    match readWords (todword (stream.take 2)) (stream.drop 2) with
    | none => none
    | some (words, data) =>
        (decodeFields ty words 0 data).map fun result =>
          (result.1, stream.length - result.2.length)

theorem take_fill (width n : Nat) (rest : Bytes) :
    (fill width n ++ rest).take width = fill width n := by
  rw [List.take_append_of_le_length (by simp), List.take_of_length_le (by simp)]

theorem fill_not_short (width n : Nat) (rest : Bytes) :
    ¬ (fill width n ++ rest).length < width := by
  rw [List.length_append, length_fill]
  omega

theorem drop_fill (width n : Nat) (rest : Bytes) : (fill width n ++ rest).drop width = rest := by
  rw [List.drop_append_of_le_length (by simp), List.drop_of_length_le (by simp), List.nil_append]

theorem takeObject_object {content : Bytes} (hlen : content.length < 256 ^ 4) (rest : Bytes) :
    takeObject (object content ++ rest) = some (content, rest) := by
  unfold takeObject object
  rw [List.append_assoc, take_fill, todword_fill 4 _ hlen]
  simp only [← List.drop_drop, drop_fill]
  simp

theorem readWords_fill : ∀ (words : List Nat) (rest : Bytes), (∀ w ∈ words, w < 65536) →
    readWords words.length (words.flatMap (fill 2) ++ rest) = some (words, rest) := by
  intro words
  induction words with
  | nil => intro rest _; rfl
  | cons w words ih =>
      intro rest hwords
      obtain ⟨hw, hwords⟩ := List.forall_mem_cons.mp hwords
      simp only [List.length_cons, readWords, List.flatMap_cons, List.append_assoc, take_fill,
        drop_fill, ih rest hwords, todword_fill 2 w hw, Option.map_some]
      rw [if_neg (fill_not_short 2 _ _)]

def restrictTo (fields : List (String × FieldType)) (t : Table φ) : Table φ :=
  fun name => if name ∈ fields.map Prod.fst then t name else .nil

omit [LuaFloat φ] in
theorem restrictTo_of_ne (t : Table φ) {name other : String} (hother : other ≠ name)
    (fieldType : FieldType) (fields : List (String × FieldType)) :
    restrictTo ((name, fieldType) :: fields) t other = restrictTo fields t other := by
  have hmem : other ∈ ((name, fieldType) :: fields).map Prod.fst ↔ other ∈ fields.map Prod.fst := by
    simp [hother]
  simp only [restrictTo, hmem]

omit [LuaFloat φ] in
theorem restrictTo_cons (t : Table φ) (name : String) (fieldType : FieldType)
    (fields : List (String × FieldType)) :
    Function.update (restrictTo fields t) name (t name) =
      restrictTo ((name, fieldType) :: fields) t := by
  funext other
  by_cases hother : other = name
  · subst hother
    simp [restrictTo]
  · rw [Function.update_of_ne hother, restrictTo_of_ne t hother]

omit [LuaFloat φ] in
theorem restrictTo_cons_nil {t : Table φ} {name : String} (hnil : t name = .nil)
    (fieldType : FieldType) (fields : List (String × FieldType)) :
    restrictTo ((name, fieldType) :: fields) t = restrictTo fields t := by
  funext other
  by_cases hother : other = name
  · subst hother
    simp [restrictTo, hnil]
  · rw [restrictTo_of_ne t hother]

omit [LuaFloat φ] in
theorem encodeValue_nil {fieldType : FieldType} {v : Value φ}
    (h : encodeValue fieldType v = some none) : v = .nil := by
  unfold encodeValue at h
  split at h
  · rfl
  all_goals grind

theorem encodeField_nil {fieldType : FieldType} {v : Value φ}
    (h : encodeField fieldType v = some none) : v = .nil := by
  obtain ⟨converted, hconvert, hvalue⟩ := Option.bind_eq_some_iff.mp h
  rw [encodeValue_nil hvalue] at hconvert
  exact convert_eq_nil hconvert

/-- The words and data written for the fields from `tag` on are read as those fields. -/
theorem decodeFields_encodeFields (ty : SprotoType) (t : Table φ) (rest : Bytes) :
    ∀ (fields : List (String × FieldType)) (skipped tag : Nat) (words : List Nat) (data : Bytes),
      ty.fields.drop (tag + skipped) = fields → encodeFields t fields skipped = some (words, data) →
        data.length < 256 ^ 4 → ∃ decoded,
          decodeFields ty words tag (data ++ rest) = some (decoded, rest) ∧
            ((∀ field ∈ fields, field.2.Admits (t field.1)) → decoded = restrictTo fields t) := by
  intro fields
  induction fields with
  | nil =>
      intro skipped tag words data _ hencode _
      cases Option.some.inj hencode
      exact ⟨emptyTable, rfl, fun _ => rfl⟩
  | cons field fields ih =>
      intro skipped tag words data hfields hencode hdata
      obtain ⟨name, fieldType⟩ := field
      have hdrop : ty.fields.drop (tag + skipped + 1) = fields := by
        rw [← List.drop_drop, hfields]
        rfl
      have hget : ty.fields[tag + skipped]? = some (name, fieldType) := by
        rw [← List.head?_drop, hfields]
        rfl
      simp only [encodeFields] at hencode
      split at hencode
      · cases hencode
      · rename_i hfield
        obtain ⟨decoded, hread, hsame⟩ := ih (skipped + 1) tag words data hdrop hencode hdata
        refine ⟨decoded, hread, fun hadmits => ?_⟩
        rw [restrictTo_cons_nil (encodeField_nil hfield)]
        exact hsame fun field hmem => hadmits field (List.mem_cons_of_mem _ hmem)
      · rename_i value fieldData hfield
        obtain ⟨⟨laterWords, laterData⟩, hlater, hwords⟩ := Option.map_eq_some_iff.mp hencode
        cases hwords
        rw [List.length_append] at hdata
        dsimp only at hdata
        obtain ⟨later, hrest, hsame⟩ :=
          ih 0 (tag + skipped + 1) laterWords laterData hdrop hlater (by omega)
        obtain ⟨converted, hconvert, hvalue⟩ := Option.bind_eq_some_iff.mp hfield
        have hword : decodeFields ty (value :: laterWords) (tag + skipped)
            (fieldData ++ (laterData ++ rest)) =
              some (Function.update later name converted, rest) := by
          rcases decode_encodeValue hvalue with
            ⟨rfl, content, rfl, hread⟩ | ⟨hpos, heven, rfl, hread⟩
          · have hlen : content.length < 256 ^ 4 := by
              rw [object, List.length_append] at hdata
              omega
            simp only [decodeFields, takeObject_object hlen, storeField, hget, hread, hrest]
            rfl
          · simp only [decodeFields, List.nil_append, storeField, hget, hread, hrest]
            rw [if_neg (by omega), if_neg (by omega)]
            rfl
        refine ⟨Function.update later name converted, ?_, fun hadmits => ?_⟩
        · rw [List.append_assoc]
          by_cases hskipped : skipped = 0
          · subst hskipped
            exact hword
          · rw [if_neg hskipped]
            have htag : tag + 1 + ((skipped - 1) * 2 + 1) / 2 = tag + skipped := by omega
            have hodd : ((skipped - 1) * 2 + 1) % 2 = 1 := by omega
            simp only [List.cons_append, List.nil_append, decodeFields.eq_2, hodd, if_true, htag]
            exact hword
        · have hown := convert_of_admits (hadmits (name, fieldType) List.mem_cons_self)
          cases Option.some.inj (hconvert.symm.trans hown)
          rw [hsame fun field hmem => hadmits field (List.mem_cons_of_mem _ hmem)]
          exact restrictTo_cons t name fieldType fields

theorem sprotoDecode_sprotoEncode {ty : SprotoType} {t : Table φ} {bytes : Bytes} (rest : Bytes)
    (h : sprotoEncode ty t = some bytes) :
    ∃ decoded, sprotoDecode ty (bytes ++ rest) = some (decoded, bytes.length) ∧
      (ty.Admits t → decoded = ty.restrict t) := by
  unfold sprotoEncode at h
  split at h
  · cases h
  · rename_i words data hencode
    split at h
    · rename_i hbounds
      cases Option.some.inj h
      obtain ⟨hsmall, hroom⟩ := hbounds
      have hdata : data.length < 256 ^ 4 := by
        unfold encodeMaxsize at hroom
        omega
      have hread := readWords_fill words (data ++ rest) hsmall.2
      obtain ⟨decoded, hfields, hsame⟩ :=
        decodeFields_encodeFields ty t rest ty.fields 0 0 words data rfl hencode hdata
      refine ⟨decoded, ?_, hsame⟩
      simp only [sprotoDecode, List.append_assoc, take_fill, drop_fill,
        todword_fill 2 _ hsmall.1, hread, hfields, Option.map_some]
      rw [if_neg (fill_not_short 2 _ _)]
      simp only [Option.some.injEq, Prod.mk.injEq, true_and]
      simp only [List.length_append]
      omega
    · cases h

end Messages

end Doudizhu.Network
