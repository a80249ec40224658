import Doudizhu.Network.SprotoPack
import Doudizhu.Network.SprotoWire

/-! # The sproto core

The functions of `lsproto.c` together: `sprotoCore` is the core of the host with the laws that the
host relies on.  The buffers of `lpack` and `lunpack` grow as far as they have to. -/

set_option autoImplicit false

namespace Doudizhu.Network

open Lua SprotoPack

def packInto (src : Bytes) : Option Bytes :=
  (sprotoPack src (List.replicate (maxsz src.length) 0)).map fun packed =>
    packed.2.take packed.1

/-- `lpack`.  Where `sproto_pack` reads beyond the end of `src`, it finds zeros. -/
def lpack (src : Bytes) : Bytes :=
  ((packInto src).or (packInto (src ++ padding src))).getD []

/-- `lunpack` with a buffer of `osz` bytes, which is expanded when it is too small; `none` where it
raises, or reads beyond the end of `src`. -/
def lunpack (osz : Nat) (src : Bytes) : Option Bytes :=
  match sprotoUnpack src (List.replicate osz 0) with
  | .done size buffer =>
      if size > osz then
        match sprotoUnpack src (List.replicate size 0) with
        | .done size buffer => some (buffer.take size)
        | _ => none
      else some (buffer.take size)
  | _ => none

def encodeBuffersize : Nat := 2050

theorem packInto_eq {src : Bytes} (h : ¬ EndsRun src) :
    packInto src = some (encodeAll (itemsOf src)) := by
  obtain ⟨packed, hpack, -, htake⟩ := sprotoPack_eq (List.replicate (maxsz src.length) 0) h
  rw [packInto, hpack, Option.map_some, htake]
  rw [List.length_replicate]
  exact length_itemsOf src

theorem not_endsRun_padded (src : Bytes) : ¬ EndsRun (src ++ padding src) := by
  rintro ⟨-, hdense, -⟩
  have hwhole : 8 * ((src ++ padding src).length / 8) = (src ++ padding src).length := by
    rw [List.length_append, padding, List.length_replicate]
    omega
  have hnone := length_nonzero_segment (src ++ padding src) (src ++ padding src).length
  rw [hwhole] at hdense
  rcases hdense with height | ⟨hmost, -⟩
  · omega
  · omega

/-- The stream is that of `src`, or of `src` with the zeros behind it. -/
theorem lpack_eq (src : Bytes) : ∃ zeros, lpack src = encodeAll (itemsOf (src ++ zeros)) := by
  unfold lpack
  by_cases hends : EndsRun src
  · have hroom : (itemsAfter src (rounds src)).size ≤
        (List.replicate (maxsz src.length) (0 : UInt8)).length := by
      rw [List.length_replicate]
      exact size_le_maxsz src
    have hnone : packInto src = none := by rw [packInto, sprotoPack_none hroom hends]; rfl
    refine ⟨padding src, ?_⟩
    rw [hnone, packInto_eq (not_endsRun_padded src)]
    rfl
  · refine ⟨[], ?_⟩
    rw [packInto_eq hends, List.append_nil]
    rfl

theorem lunpack_itemsOf (osz : Nat) (src : Bytes) :
    lunpack osz (encodeAll (itemsOf src)) = some (src ++ padding src) := by
  obtain ⟨filled, hfirst, -, htake⟩ := unpack_itemsOf src (List.replicate osz 0)
  rw [List.length_replicate] at htake
  rw [lunpack, hfirst]
  by_cases hlong : (src ++ padding src).length > osz
  · obtain ⟨filled', hsecond, -, htake'⟩ :=
      unpack_itemsOf src (List.replicate (src ++ padding src).length 0)
    rw [List.length_replicate] at htake'
    simp only [if_pos hlong, hsecond, htake' (Nat.le_refl _)]
  · simp only [if_neg hlong, htake (Nat.not_lt.mp hlong)]

theorem lunpack_lpack (osz : Nat) (src : Bytes) :
    ∃ zeros, lunpack osz (lpack src) = some (src ++ zeros) := by
  obtain ⟨zeros, hpack⟩ := lpack_eq src
  refine ⟨zeros ++ padding (src ++ zeros), ?_⟩
  rw [hpack, lunpack_itemsOf, List.append_assoc]

theorem nonzero_le_encodeAll (items : List Item) :
    (nonzero (contentAll items)).length ≤ (encodeAll items).length := by
  induction items with
  | nil => exact Nat.le_refl _
  | cons item items ih =>
      have hitem : (nonzero item.content).length ≤ item.encode.length := by
        cases item with
        | sparse group => exact Nat.le_succ _
        | dense groups =>
            have hle := length_nonzero_le groups.flatten
            simp only [Item.content, Item.encode, List.length_cons]
            omega
      have hsplit : nonzero (contentAll (item :: items)) =
          nonzero item.content ++ nonzero (contentAll items) := List.filter_append ..
      have hencode : encodeAll (item :: items) = item.encode ++ encodeAll items :=
        List.flatMap_cons
      rw [hsplit, hencode, List.length_append, List.length_append]
      omega

theorem nonzero_le_lpack (src : Bytes) : (nonzero src).length ≤ (lpack src).length := by
  obtain ⟨zeros, hpack⟩ := lpack_eq src
  have hall := nonzero_le_encodeAll (itemsOf (src ++ zeros))
  rw [content_itemsOf, List.append_assoc] at hall
  have hsplit : nonzero (src ++ (zeros ++ padding (src ++ zeros))) =
      nonzero src ++ nonzero (zeros ++ padding (src ++ zeros)) := List.filter_append ..
  rw [hsplit, List.length_append] at hall
  rw [hpack]
  omega

def sprotoCore (φ : Type) [LuaFloat φ] : SprotoCore φ where
  encode := sprotoEncode
  decode := sprotoDecode
  pack := lpack
  unpack := lunpack encodeBuffersize
  decode_encode _ _ _ rest h := sprotoDecode_sprotoEncode rest h
  unpack_pack bytes := lunpack_lpack encodeBuffersize bytes

end Doudizhu.Network
