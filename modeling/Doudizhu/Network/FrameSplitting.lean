import Doudizhu.Network.StreamReassembly

/-! # The loop over unpack_package as a parser

Without what it does with a packet, the loop of `_onData` takes packets off a text until
`unpackPackage` finds none; `last` is then what is left.  The text is the frames of the packets
followed by that rest, whatever the bytes are, and the rest is the beginning of a frame that has
not arrived in full.  The handler itself sees these packets in this order, up to the first one
that the sproto host does not accept. -/

set_option autoImplicit false

namespace Doudizhu.Network

/-- `v, last = unpack_package(last)` until `v` is nil: the values of `v`, and `last`. -/
def splitFrames (last : Bytes) : List Bytes × Bytes :=
  match _h : unpackPackage last with
  | (none, rest) => ([], rest)
  | (some v, rest) => (v :: (splitFrames rest).1, (splitFrames rest).2)
termination_by last.length
decreasing_by all_goals exact unpackPackage_rest_lt (by assumption)

def declaredLength (text : Bytes) : Nat :=
  (text.getD 0 0).toNat * 256 + (text.getD 1 0).toNat

/-- No length yet, or fewer bytes than it declares. -/
def Incomplete (text : Bytes) : Prop :=
  text.length < 2 ∨ text.length < 2 + declaredLength text

instance (text : Bytes) : Decidable (Incomplete text) :=
  inferInstanceAs (Decidable (_ ∨ _))

theorem unpackPackage_of_incomplete {text : Bytes} (h : Incomplete text) :
    unpackPackage text = (none, text) := by
  simp only [Incomplete, declaredLength] at h
  simp only [unpackPackage]
  by_cases hshort : text.length < 2
  · rw [if_pos hshort]
  · rw [if_neg hshort, if_pos (by omega)]

theorem incomplete_of_unpackPackage {text rest : Bytes} (h : unpackPackage text = (none, rest)) :
    Incomplete text := by
  simp only [unpackPackage] at h
  split_ifs at h with hshort hbody
  · exact .inl hshort
  · exact .inr (by simp only [declaredLength]; omega)
  · cases (Prod.mk.inj h).1

theorem unpackPackage_eq_none_iff (text : Bytes) :
    (unpackPackage text).1 = none ↔ Incomplete text := by
  constructor
  · intro h
    exact incomplete_of_unpackPackage (Prod.ext h rfl)
  · intro h
    rw [unpackPackage_of_incomplete h]

theorem unframe_eq_none_iff (text : Bytes) : wire.unframe text = none ↔ Incomplete text := by
  rw [← unpackPackage_eq_none_iff]
  simp only [wire]
  cases unpackPackage text with
  | mk v rest => cases v <;> simp

theorem unframe_eq_some {text v rest : Bytes} (h : unpackPackage text = (some v, rest)) :
    wire.unframe text = some (v, rest) := by
  simp only [wire, h]

theorem splitFrames_eq_split (text : Bytes) : splitFrames text = wire.split text := by
  induction hn : text.length using Nat.strongRecOn generalizing text with
  | ind n ih =>
      rw [splitFrames]
      split
      · rename_i rest hu
        have hincomplete := incomplete_of_unpackPackage hu
        rw [unpackPackage_of_incomplete hincomplete] at hu
        cases hu
        rw [wire.split_of_none ((unframe_eq_none_iff text).mpr hincomplete)]
      · rename_i v rest hu
        have hrest := ih rest.length (hn ▸ unpackPackage_rest_lt hu) rest rfl
        rw [wire.split_of_some (unframe_eq_some hu), hrest]

section Handler
variable {σ Msg : Type} (dispatch : σ → Bytes → Option (Dispatched Msg) × σ)

/-- The packets handled one after another until the host raises. -/
def handlePackets : SocketManager σ → List Bytes → List (Delivery Msg) × SocketManager σ
  | sm, [] => ([], sm)
  | sm, v :: vs =>
      match handlePacket dispatch sm v with
      | (none, sm') => ([], sm')
      | (some event, sm') =>
          (⟨v, event⟩ :: (handlePackets sm' vs).1, (handlePackets sm' vs).2)

theorem onDataLoop_splitFrames (sm : SocketManager σ) (text : Bytes) :
    onDataLoop dispatch sm text = handlePackets dispatch sm (splitFrames text).1 := by
  induction hn : text.length using Nat.strongRecOn generalizing sm text with
  | ind n ih =>
      rw [splitFrames]
      split
      · rename_i rest hu
        rw [onDataLoop_of_none dispatch sm hu]
        rfl
      · rename_i v rest hu
        rw [onDataLoop_of_some dispatch sm hu, handlePackets]
        cases handlePacket dispatch sm v with
        | mk handled sm' =>
            cases handled with
            | none => rfl
            | some event =>
                have hrest := ih rest.length (hn ▸ unpackPackage_rest_lt hu) sm' rest rfl
                simp only [hrest]

/-- On every text the loop of the handler goes through the packets `vs` of the text, and these
are exact: their frames and the rest after them are the text, and the rest is incomplete. -/
theorem onData_parses_text (sm : SocketManager σ) (text : Bytes) :
    ∃ vs r s, splitFrames text = (vs, r) ∧
      onData dispatch sm text = handlePackets dispatch sm vs ∧
      wire.stream vs = some s ∧ s ++ r = text ∧ Incomplete r := by
  obtain ⟨s, hs, htext, hrest⟩ := wire.split_spec text
  rw [← splitFrames_eq_split] at hs htext hrest
  exact ⟨_, _, s, rfl, onDataLoop_splitFrames dispatch sm text, hs, htext,
    (unframe_eq_none_iff _).mp hrest⟩

end Handler

/-- The packets and the rest are the only ones that make up the text. -/
theorem splitFrames_unique {vs : List Bytes} {s r : Bytes} (hs : wire.stream vs = some s)
    (hr : Incomplete r) : splitFrames (s ++ r) = (vs, r) := by
  rw [splitFrames_eq_split]
  exact wire.split_unique vs s r hs ((unframe_eq_none_iff r).mpr hr)

/-- An empty packet, a packet of one byte, and a header cut in half. -/
example : splitFrames ([0, 0, 0, 1, 7] ++ [0]) = ([[], [7]], [0]) :=
  splitFrames_unique (by decide) (by decide)

end Doudizhu.Network
