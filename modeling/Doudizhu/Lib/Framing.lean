import Mathlib.Data.List.Forall2
import Mathlib.Data.List.Basic
import Mathlib.Tactic.TypeStar

/-! # Self-delimiting frames in a byte stream

A framing turns a packet into a nonempty frame, or refuses it, and reads the first whole frame
off a text.  `stream` is the concatenation of the frames of a list of packets.  A reader that
takes whole frames off the front of each chunk and drops what is left of it reads all packets
of the stream only if nothing is ever left, that is, if the stream is cut between frames.

`split` reads whole frames as long as there is one.  A text is the stream of one list of packets
followed by a rest that begins with no whole frame, and of one only. -/

set_option autoImplicit false

namespace Doudizhu

structure Framing (B P : Type*) where
  frame : P → Option (List B)
  unframe : List B → Option (P × List B)
  unframe_frame : ∀ {p f} (rest : List B), frame p = some f → unframe (f ++ rest) = some (p, rest)
  frame_unframe : ∀ {t p rest}, unframe t = some (p, rest) → ∃ f, frame p = some f ∧ t = f ++ rest
  frame_ne_nil : ∀ {p f}, frame p = some f → f ≠ []

namespace Framing

variable {B P : Type*} (F : Framing B P)

def stream : List P → Option (List B)
  | [] => some []
  | p :: ps => do
      let f ← F.frame p
      let s ← stream ps
      return f ++ s

/-- Every chunk is the stream of consecutive whole packets. -/
def CutBetweenFrames (ps : List P) (chunks : List (List B)) : Prop :=
  ∃ groups : List (List P), groups.flatten = ps ∧
    List.Forall₂ (fun chunk group => F.stream group = some chunk) chunks groups

theorem stream_cons_eq_some (p : P) (ps : List P) (t : List B) :
    F.stream (p :: ps) = some t ↔
      ∃ f s, F.frame p = some f ∧ F.stream ps = some s ∧ f ++ s = t := by
  simp only [stream, Option.bind_eq_bind, Option.bind_eq_some_iff, Option.pure_def,
    Option.some.injEq]
  constructor
  · rintro ⟨f, hf, s, hs, rfl⟩; exact ⟨f, s, hf, hs, rfl⟩
  · rintro ⟨f, s, hf, hs, rfl⟩; exact ⟨f, hf, s, hs, rfl⟩

theorem stream_append_of_some : ∀ (ps qs : List P) (s t : List B),
    F.stream ps = some s → F.stream qs = some t → F.stream (ps ++ qs) = some (s ++ t) := by
  intro ps
  induction ps with
  | nil =>
      intro qs s t hs ht
      cases Option.some.inj hs
      exact ht
  | cons p ps ih =>
      intro qs s t hs ht
      obtain ⟨f, s', hf, hs', rfl⟩ := (F.stream_cons_eq_some p ps s).mp hs
      rw [List.cons_append, List.append_assoc]
      exact (F.stream_cons_eq_some p _ _).mpr ⟨f, s' ++ t, hf, ih qs s' t hs' ht, rfl⟩

/-- The chunk begins with the frames of the packets read from it. -/
def Consumes (chunk : List B) (read : List P) : Prop :=
  ∃ s rest, F.stream read = some s ∧ chunk = s ++ rest

theorem consumes_nil (chunk : List B) : F.Consumes chunk [] := ⟨[], chunk, rfl, rfl⟩

theorem consumes_cons {p : P} {f rest : List B} {ps : List P} (hf : F.frame p = some f)
    (h : F.Consumes rest ps) : F.Consumes (f ++ rest) (p :: ps) := by
  obtain ⟨s, tail, hs, rfl⟩ := h
  exact ⟨f ++ s, tail, (F.stream_cons_eq_some p ps _).mpr ⟨f, s, hf, hs, rfl⟩,
    (List.append_assoc f s tail).symm⟩

/-- What is read never exceeds what arrived, and equals it only when no chunk has a rest. -/
theorem consumed_length : ∀ (chunks : List (List B)) (reads : List (List P)),
    List.Forall₂ F.Consumes chunks reads →
      ∃ s, F.stream reads.flatten = some s ∧ s.length ≤ chunks.flatten.length ∧
        (s.length = chunks.flatten.length →
          List.Forall₂ (fun chunk group => F.stream group = some chunk) chunks reads) := by
  intro chunks reads h
  induction h with
  | nil => exact ⟨[], rfl, Nat.le_refl _, fun _ => .nil⟩
  | cons hhead _ ih =>
      obtain ⟨s, hs, hle, hexact⟩ := ih
      obtain ⟨f, rest, hf, rfl⟩ := hhead
      refine ⟨f ++ s, F.stream_append_of_some _ _ _ _ hf hs, ?_, ?_⟩
      · simp only [List.flatten_cons, List.length_append]
        omega
      · intro hlen
        simp only [List.flatten_cons, List.length_append] at hlen
        have hrest : rest = [] := List.eq_nil_of_length_eq_zero (by omega)
        subst hrest
        exact .cons (by rw [List.append_nil]; exact hf) (hexact (by omega))

/-- A reader without memory that has read the whole stream was given it cut between frames. -/
theorem cutBetweenFrames_of_consumes (chunks : List (List B)) (reads : List (List P))
    (hreads : List.Forall₂ F.Consumes chunks reads)
    (hall : F.stream reads.flatten = some chunks.flatten) :
    F.CutBetweenFrames reads.flatten chunks := by
  obtain ⟨s, hs, _, hexact⟩ := F.consumed_length chunks reads hreads
  rw [hall] at hs
  cases Option.some.inj hs
  exact ⟨reads, rfl, hexact rfl⟩

/-! ## Reading as long as there is a frame -/

theorem unframe_length {t rest : List B} {p : P} (h : F.unframe t = some (p, rest)) :
    rest.length < t.length := by
  obtain ⟨f, hf, rfl⟩ := F.frame_unframe h
  have hpos := List.length_pos_of_ne_nil (F.frame_ne_nil hf)
  rw [List.length_append]
  omega

/-- The packets at the front of a text and what is left after the last of them. -/
def split (text : List B) : List P × List B :=
  match _h : F.unframe text with
  | none => ([], text)
  | some (p, rest) => (p :: (split rest).1, (split rest).2)
termination_by text.length
decreasing_by all_goals exact F.unframe_length (by assumption)

theorem split_of_none {text : List B} (h : F.unframe text = none) :
    F.split text = ([], text) := by
  rw [split]
  split
  · rfl
  · rename_i heq
    rw [h] at heq
    cases heq

theorem split_of_some {text rest : List B} {p : P} (h : F.unframe text = some (p, rest)) :
    F.split text = (p :: (F.split rest).1, (F.split rest).2) := by
  rw [split]
  split
  · rename_i heq
    rw [h] at heq
    cases heq
  · rename_i heq
    rw [h] at heq
    cases heq
    rfl

theorem split_spec (text : List B) :
    ∃ s, F.stream (F.split text).1 = some s ∧ s ++ (F.split text).2 = text ∧
      F.unframe (F.split text).2 = none := by
  induction hn : text.length using Nat.strongRecOn generalizing text with
  | ind n ih =>
      cases hu : F.unframe text with
      | none =>
          rw [F.split_of_none hu]
          exact ⟨[], rfl, rfl, hu⟩
      | some read =>
          obtain ⟨p, rest⟩ := read
          obtain ⟨f, hf, rfl⟩ := F.frame_unframe hu
          obtain ⟨s, hs, hrest, hnone⟩ := ih rest.length (hn ▸ F.unframe_length hu) rest rfl
          rw [F.split_of_some hu]
          refine ⟨f ++ s, (F.stream_cons_eq_some p _ _).mpr ⟨f, s, hf, hs, rfl⟩, ?_, hnone⟩
          rw [List.append_assoc, hrest]

theorem split_unique : ∀ (ps : List P) (s r : List B), F.stream ps = some s →
    F.unframe r = none → F.split (s ++ r) = (ps, r) := by
  intro ps
  induction ps with
  | nil =>
      intro s r hs hr
      cases Option.some.inj hs
      exact F.split_of_none hr
  | cons p ps ih =>
      intro s r hs hr
      obtain ⟨f, s', hf, hs', rfl⟩ := (F.stream_cons_eq_some p ps s).mp hs
      rw [List.append_assoc, F.split_of_some (F.unframe_frame (s' ++ r) hf), ih s' r hs' hr]

/-- Reading in two goes: what the first leaves is read again with what follows. -/
theorem split_append (t u : List B) :
    F.split (t ++ u) = ((F.split t).1 ++ (F.split ((F.split t).2 ++ u)).1,
      (F.split ((F.split t).2 ++ u)).2) := by
  obtain ⟨s, hs, ht, -⟩ := F.split_spec t
  obtain ⟨s', hs', hu, hnone⟩ := F.split_spec ((F.split t).2 ++ u)
  have htext : t ++ u = (s ++ s') ++ (F.split ((F.split t).2 ++ u)).2 := by
    calc t ++ u = (s ++ (F.split t).2) ++ u := by rw [ht]
      _ = s ++ ((F.split t).2 ++ u) := List.append_assoc ..
      _ = s ++ (s' ++ (F.split ((F.split t).2 ++ u)).2) := by rw [hu]
      _ = (s ++ s') ++ (F.split ((F.split t).2 ++ u)).2 := (List.append_assoc ..).symm
  calc F.split (t ++ u)
      = F.split ((s ++ s') ++ (F.split ((F.split t).2 ++ u)).2) := by rw [← htext]
    _ = _ := F.split_unique _ _ _ (F.stream_append_of_some _ _ _ _ hs hs') hnone

end Framing
end Doudizhu
