import Mathlib.Data.List.Forall2
import Mathlib.Data.List.Basic
import Mathlib.Tactic.TypeStar

/-! # Readers of a stream

A reader takes a value off the front of a stream or fails.  `Reads f a enc` says that `f` reads
`enc` as `a` whatever follows it.  `Extends f g` says that what `f` reads off a stream, `g` reads
off every longer one; a reader that extends itself never looks beyond what it takes, so the
encodings that it reads are free of prefixes: it fails on every proper beginning of one.

`count` reads a number of values and `many` reads to the end of the stream. -/

set_option autoImplicit false

namespace Doudizhu

def Reader (B E A : Type*) : Type _ := List B → Except E (A × List B)

namespace Reader

variable {B E : Type*} {A A' : Type*}

def pure (a : A) : Reader B E A := fun s => .ok (a, s)

def fail (e : List B → E) : Reader B E A := fun s => .error (e s)

def bind (f : Reader B E A) (g : A → Reader B E A') : Reader B E A' := fun s =>
  match f s with
  | .ok (a, r) => g a r
  | .error e => .error e

def take (n : ℕ) (e : List B → E) : Reader B E (List B) := fun s =>
  if s.length < n then .error (e s) else .ok (s.take n, s.drop n)

def count (f : Reader B E A) : ℕ → Reader B E (List A)
  | 0 => pure []
  | n + 1 => f.bind fun a => (count f n).bind fun as => pure (a :: as)

/-- To the end of the stream, in at most `fuel` values. -/
def many (f : Reader B E A) : ℕ → Reader B E (List A)
  | 0 => pure []
  | fuel + 1 => fun s =>
      if s.isEmpty then .ok ([], s)
      else (f.bind fun a => (many f fuel).bind fun as => pure (a :: as)) s

def Reads (f : Reader B E A) (a : A) (enc : List B) : Prop :=
  ∀ rest, f (enc ++ rest) = .ok (a, rest)

def Extends (f g : Reader B E A) : Prop :=
  ∀ s a r, f s = .ok (a, r) → ∀ u, g (s ++ u) = .ok (a, r ++ u)

/-- On streams of at most `k` elements `f` and `g` do the same, and take `d` elements or more. -/
def Agree (d k : ℕ) (f g : Reader B E A) : Prop :=
  ∀ s, s.length ≤ k → f s = g s ∧ ∀ a r, f s = .ok (a, r) → r.length + d ≤ s.length

theorem bind_eq_ok {f : Reader B E A} {g : A → Reader B E A'} {s : List B} {b : A'} {r : List B} :
    f.bind g s = .ok (b, r) ↔ ∃ a t, f s = .ok (a, t) ∧ g a t = .ok (b, r) := by
  unfold bind
  constructor
  · intro h
    split at h
    · rename_i a t hf
      exact ⟨a, t, hf, h⟩
    · cases h
  · intro h
    obtain ⟨a, t, hf, hg⟩ := h
    simp only [hf, hg]

section Extends

theorem extends_pure (a : A) : Extends (pure a : Reader B E A) (pure a) := by
  intro s a' r h u
  cases h
  rfl

theorem extends_fail (e : List B → E) (g : Reader B E A) : Extends (fail e) g := by
  intro s a r h
  cases h

theorem extends_take (n : ℕ) (e : List B → E) : Extends (take n e) (take n e) := by
  intro s a r h u
  unfold take at h ⊢
  split at h
  · cases h
  · rename_i hlen
    cases h
    have hle : n ≤ s.length := Nat.le_of_not_lt hlen
    rw [if_neg (by simp only [List.length_append]; omega), List.take_append_of_le_length hle,
      List.drop_append_of_le_length hle]

theorem Extends.bind {f f' : Reader B E A} {g g' : A → Reader B E A'} (hf : Extends f f')
    (hg : ∀ a, Extends (g a) (g' a)) : Extends (f.bind g) (f'.bind g') := by
  intro s b r h u
  obtain ⟨a, t, hfs, hgt⟩ := bind_eq_ok.mp h
  exact bind_eq_ok.mpr ⟨a, t ++ u, hf s a t hfs u, hg a t b r hgt u⟩

theorem Extends.map {f f' : Reader B E A} (hf : Extends f f') (g : A → A') :
    Extends (f.bind fun a => pure (g a)) (f'.bind fun a => pure (g a)) :=
  hf.bind fun a => extends_pure (g a)

theorem Extends.count {f f' : Reader B E A} (hf : Extends f f') (n : ℕ) :
    Extends (f.count n) (f'.count n) := by
  induction n with
  | zero => exact extends_pure []
  | succ n ih => exact hf.bind fun a => ih.bind fun as => extends_pure (a :: as)

end Extends

section Agree

theorem agree_pure (k : ℕ) (a : A) : Agree 0 k (pure a : Reader B E A) (pure a) := by
  intro s _
  refine ⟨rfl, fun b r h => ?_⟩
  cases h
  exact Nat.le_refl _

theorem agree_fail (d k : ℕ) (e : List B → E) : Agree d k (fail e : Reader B E A) (fail e) := by
  intro s _
  refine ⟨rfl, fun b r h => ?_⟩
  cases h

theorem agree_take (k n : ℕ) (e : List B → E) : Agree n k (take n e) (take n e) := by
  intro s _
  refine ⟨rfl, fun a r h => ?_⟩
  unfold take at h
  split at h
  · cases h
  · cases h
    rw [List.length_drop]
    omega

theorem Agree.weaken {d d' k k' : ℕ} {f f' : Reader B E A} (h : Agree d k f f') (hd : d' ≤ d)
    (hk : k' ≤ k) : Agree d' k' f f' := by
  intro s hs
  obtain ⟨heq, htakes⟩ := h s (Nat.le_trans hs hk)
  refine ⟨heq, fun a r hr => ?_⟩
  have hle := htakes a r hr
  omega

theorem Agree.bind {d d' k : ℕ} {f f' : Reader B E A} {g g' : A → Reader B E A'}
    (hf : Agree d k f f') (hg : ∀ a, Agree d' (k - d) (g a) (g' a)) :
    Agree (d + d') k (f.bind g) (f'.bind g') := by
  intro s hs
  obtain ⟨heq, htakes⟩ := hf s hs
  unfold Reader.bind
  rw [← heq]
  cases hfs : f s with
  | error e => exact ⟨rfl, fun b r h => by cases h⟩
  | ok result =>
      obtain ⟨a, t⟩ := result
      have ht := htakes a t hfs
      obtain ⟨hsame, hmore⟩ := hg a t (by omega)
      refine ⟨hsame, fun b r h => ?_⟩
      have hr := hmore b r h
      omega

theorem Agree.map {d k : ℕ} {f f' : Reader B E A} (hf : Agree d k f f') (g : A → A') :
    Agree d k (f.bind fun a => pure (g a)) (f'.bind fun a => pure (g a)) :=
  hf.bind fun a => agree_pure (k - d) (g a)

theorem Agree.count {k : ℕ} {f f' : Reader B E A} (hf : Agree 0 k f f') (n : ℕ) :
    Agree 0 k (f.count n) (f'.count n) := by
  induction n with
  | zero => exact agree_pure k []
  | succ n ih => exact hf.bind fun a => ih.map fun as => a :: as

end Agree

section Reads

theorem reads_pure (a : A) : Reads (pure a : Reader B E A) a [] := fun _ => rfl

theorem reads_take {n : ℕ} (e : List B → E) {enc : List B} (h : enc.length = n) :
    Reads (take n e) enc enc := by
  intro rest
  unfold take
  rw [if_neg (by simp only [List.length_append]; omega), List.take_left' h, List.drop_left' h]

theorem Reads.bind {f : Reader B E A} {g : A → Reader B E A'} {a : A} {b : A'} {enc enc' : List B}
    (hf : Reads f a enc) (hg : Reads (g a) b enc') : Reads (f.bind g) b (enc ++ enc') := by
  intro rest
  rw [List.append_assoc]
  exact bind_eq_ok.mpr ⟨a, enc' ++ rest, hf _, hg _⟩

theorem Reads.map {f : Reader B E A} {a : A} {enc : List B} (hf : Reads f a enc) (g : A → A') :
    Reads (f.bind fun a => pure (g a)) (g a) enc := by
  have h := hf.bind (g := fun a => pure (g a)) (reads_pure (g a))
  rwa [List.append_nil] at h

theorem reads_count {f : Reader B E A} {as : List A} {encs : List (List B)}
    (h : List.Forall₂ (Reads f) as encs) : Reads (f.count as.length) as encs.flatten := by
  induction h with
  | nil => exact reads_pure []
  | @cons a enc as encs ha has ih =>
      exact ha.bind (ih.map fun as => a :: as)

theorem Reads.whole {f : Reader B E A} {a : A} {enc : List B} (h : Reads f a enc) :
    f enc = .ok (a, []) := by
  simpa using h []

/-- A reader that extends itself reads no proper beginning of an encoding. -/
theorem Reads.not_prefix {f : Reader B E A} (hext : Extends f f) {a b : A} {enc p t r : List B}
    (h : Reads f a enc) (hcut : p ++ t = enc) (hp : f p = .ok (b, r)) : t = [] := by
  have hlong := hext p b r hp t
  rw [hcut, h.whole] at hlong
  have hnil : r ++ t = [] := (congrArg Prod.snd (Except.ok.inj hlong)).symm
  exact (List.append_eq_nil_iff.mp hnil).2

end Reads

section Many

theorem many_of_ne_nil (f : Reader B E A) (fuel : ℕ) {s : List B} (hs : s ≠ []) :
    f.many (fuel + 1) s = (f.bind fun a => (f.many fuel).bind fun as => pure (a :: as)) s := by
  have hempty : s.isEmpty = false := by simpa using hs
  simp only [many, hempty, Bool.false_eq_true, if_false]

theorem many_nil (f : Reader B E A) (fuel : ℕ) : f.many fuel [] = .ok ([], []) := by
  cases fuel <;> rfl

theorem many_flatten {f : Reader B E A} {as : List A} {encs : List (List B)}
    (h : List.Forall₂ (Reads f) as encs) (hne : ∀ enc ∈ encs, enc ≠ []) :
    ∀ fuel, encs.flatten.length ≤ fuel → f.many fuel encs.flatten = .ok (as, []) := by
  induction h with
  | nil => intro fuel _; exact many_nil f fuel
  | @cons a enc as encs ha has ih =>
      intro fuel hfuel
      have henc : 0 < enc.length := List.length_pos_of_ne_nil (hne enc (List.mem_cons_self ..))
      rw [List.flatten_cons, List.length_append] at hfuel
      obtain ⟨n, rfl⟩ : ∃ n, fuel = n + 1 := ⟨fuel - 1, by omega⟩
      have hrest := ih (fun e he => hne e (List.mem_cons_of_mem _ he)) n (by omega)
      rw [List.flatten_cons, many_of_ne_nil f n (by simp [List.ne_nil_of_length_pos henc])]
      exact bind_eq_ok.mpr ⟨a, _, ha _, bind_eq_ok.mpr ⟨as, [], hrest, rfl⟩⟩

/-- A beginning of a stream of encodings is read to its end only where it ends between two of
them, and then as the values up to there. -/
theorem many_prefix {f : Reader B E A} (hext : Extends f f) {as : List A} {encs : List (List B)}
    (h : List.Forall₂ (Reads f) as encs) (hne : ∀ enc ∈ encs, enc ≠ []) :
    ∀ {fuel : ℕ} {p r : List B} {ws : List A}, p <+: encs.flatten → p.length ≤ fuel →
      f.many fuel p = .ok (ws, r) →
      ∃ k, p = (encs.take k).flatten ∧ ws = as.take k := by
  induction h with
  | nil =>
      intro fuel p r ws hp _ hmany
      have hnil : p = [] := List.prefix_nil.mp hp
      subst hnil
      rw [many_nil] at hmany
      cases hmany
      exact ⟨0, rfl, rfl⟩
  | @cons a enc as encs ha has ih =>
      intro fuel p r ws hp hfuel hmany
      by_cases hnil : p = []
      · subst hnil
        rw [many_nil] at hmany
        cases hmany
        exact ⟨0, rfl, rfl⟩
      have hlen : 0 < p.length := List.length_pos_of_ne_nil hnil
      obtain ⟨n, rfl⟩ : ∃ n, fuel = n + 1 := ⟨fuel - 1, by omega⟩
      rw [many_of_ne_nil f n hnil] at hmany
      obtain ⟨b, t, hb, hmore⟩ := bind_eq_ok.mp hmany
      obtain ⟨bs, r', hbs, hend⟩ := bind_eq_ok.mp hmore
      cases hend
      have hwhole : enc <+: p := by
        rcases List.prefix_or_prefix_of_prefix hp (List.prefix_append enc _) with hin | hout
        · obtain ⟨u, hu⟩ := hin
          have hend : u = [] := ha.not_prefix hext hu hb
          subst hend
          exact ⟨[], by simpa using hu.symm⟩
        · exact hout
      obtain ⟨rest, rfl⟩ := hwhole
      rw [ha rest] at hb
      cases hb
      have henc : 0 < enc.length := List.length_pos_of_ne_nil (hne enc (List.mem_cons_self ..))
      have hrest : t <+: encs.flatten := (List.prefix_append_right_inj enc).mp hp
      rw [List.length_append] at hfuel
      obtain ⟨k, hk, hws⟩ :=
        ih (fun e he => hne e (List.mem_cons_of_mem _ he)) hrest (by omega) hbs
      exact ⟨k + 1, by rw [hk]; rfl, by rw [hws]; rfl⟩

end Many

/-! ## Lines -/

section Lines
variable [DecidableEq B]

def cutAt (sep : List B) : List B → Option (List B × List B)
  | [] => if sep.isEmpty then some ([], []) else none
  | b :: s =>
      if sep.isPrefixOf (b :: s) then some ([], (b :: s).drop sep.length)
      else (cutAt sep s).map fun cut => (b :: cut.1, cut.2)

/-- The next line, without the separator. -/
def line (sep : List B) (e : List B → E) : Reader B E (List B) := fun s =>
  match cutAt sep s with
  | some (l, r) => .ok (l, r)
  | none => .error (e s)

theorem cutAt_sound {sep : List B} : ∀ {s l r : List B}, cutAt sep s = some (l, r) →
    s = l ++ (sep ++ r) := by
  intro s
  induction s with
  | nil =>
      intro l r h
      rw [cutAt] at h
      split at h
      · rename_i hsep
        cases h
        simpa using hsep
      · cases h
  | cons b s ih =>
      intro l r h
      rw [cutAt] at h
      split at h
      · rename_i hsep
        cases h
        obtain ⟨t, ht⟩ := List.isPrefixOf_iff_prefix.mp hsep
        rw [← ht, List.drop_left, List.nil_append]
      · obtain ⟨⟨l', r'⟩, hcut, heq⟩ := Option.map_eq_some_iff.mp h
        cases heq
        rw [List.cons_append, ← ih hcut]

theorem cutAt_le {sep : List B} : ∀ {s l r l' r' : List B}, cutAt sep s = some (l, r) →
    s = l' ++ (sep ++ r') → l.length ≤ l'.length := by
  intro s
  induction s with
  | nil =>
      intro l r l' r' h _
      rw [cutAt] at h
      split at h
      · cases h
        exact Nat.zero_le _
      · cases h
  | cons b s ih =>
      intro l r l' r' h hs
      rw [cutAt] at h
      split at h
      · cases h
        exact Nat.zero_le _
      · rename_i hsep
        obtain ⟨⟨l₁, r₁⟩, hcut, heq⟩ := Option.map_eq_some_iff.mp h
        cases heq
        cases l' with
        | nil => exact absurd (List.isPrefixOf_iff_prefix.mpr ⟨r', hs.symm⟩) hsep
        | cons b' l' =>
            rw [List.cons_append, List.cons.injEq] at hs
            exact Nat.succ_le_succ (ih hcut hs.2)

theorem cutAt_ne_none {sep : List B} : ∀ (l r : List B), cutAt sep (l ++ (sep ++ r)) ≠ none := by
  intro l
  induction l with
  | nil =>
      intro r h
      rw [List.nil_append] at h
      cases hs : sep ++ r with
      | nil =>
          rw [hs, cutAt, (List.append_eq_nil_iff.mp hs).1] at h
          cases h
      | cons b s =>
          have hprefix : sep.isPrefixOf (b :: s) = true :=
            List.isPrefixOf_iff_prefix.mpr ⟨r, hs⟩
          rw [hs, cutAt, if_pos hprefix] at h
          cases h
  | cons b l ih =>
      intro r h
      rw [List.cons_append, cutAt] at h
      split at h
      · cases h
      · exact ih r (Option.map_eq_none_iff.mp h)

theorem cutAt_eq_none_of_short {sep s : List B} (h : s.length < sep.length) :
    cutAt sep s = none := by
  cases hcut : cutAt sep s with
  | none => rfl
  | some cut =>
      have hlen := congrArg List.length (cutAt_sound hcut)
      simp only [List.length_append] at hlen
      omega

/-- A line that the separator does not end earlier is what is cut off. -/
theorem cutAt_eq {sep l r : List B} (h : ∀ l' r', l ++ (sep ++ r) = l' ++ (sep ++ r') →
    l.length ≤ l'.length) : cutAt sep (l ++ (sep ++ r)) = some (l, r) := by
  have hne : cutAt sep (l ++ (sep ++ r)) ≠ none := cutAt_ne_none l r
  obtain ⟨⟨l₁, r₁⟩, hcut⟩ := Option.ne_none_iff_exists'.mp hne
  have hsound := cutAt_sound hcut
  have hlen : l.length = l₁.length := Nat.le_antisymm (h l₁ r₁ hsound) (cutAt_le hcut rfl)
  obtain ⟨hl, htail⟩ := List.append_inj hsound hlen
  rw [hcut, hl, (List.append_cancel_left htail)]

theorem cutAt_append {sep s l r : List B} (h : cutAt sep s = some (l, r)) (u : List B) :
    cutAt sep (s ++ u) = some (l, r ++ u) := by
  have hs := cutAt_sound h
  have hlong : s ++ u = l ++ (sep ++ (r ++ u)) := by
    rw [hs, List.append_assoc, List.append_assoc]
  rw [hlong]
  refine cutAt_eq fun l' r' heq => ?_
  by_contra hlt
  have hwhole : l' ++ sep <+: s ++ u := ⟨r', by rw [hlong, heq, List.append_assoc]⟩
  have hlen : (l' ++ sep).length ≤ s.length := by
    rw [hs]
    simp only [List.length_append] at hlt ⊢
    omega
  obtain ⟨t, ht⟩ := List.prefix_of_prefix_length_le hwhole (List.prefix_append s u) hlen
  rw [List.append_assoc] at ht
  exact hlt (cutAt_le h ht.symm)

theorem cutAt_self {sep s l r : List B} (h : cutAt sep s = some (l, r)) :
    cutAt sep (l ++ sep) = some (l, []) := by
  have hself : l ++ (sep ++ []) = l ++ sep := by rw [List.append_nil]
  rw [← hself]
  refine cutAt_eq fun l' r' heq => ?_
  have hs : s = l' ++ (sep ++ (r' ++ r)) := by
    rw [cutAt_sound h, ← List.append_assoc, ← hself, heq]
    simp only [List.append_assoc]
  exact cutAt_le h hs

theorem extends_line (sep : List B) (e e' : List B → E) :
    Extends (line sep e) (line sep e') := by
  intro s l r h u
  unfold line at h ⊢
  cases hcut : cutAt sep s with
  | none => simp only [hcut] at h; cases h
  | some cut =>
      obtain ⟨l₁, r₁⟩ := cut
      simp only [hcut] at h
      cases h
      simp only [cutAt_append hcut u]

end Lines

end Reader

end Doudizhu
