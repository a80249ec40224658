import Mathlib.Data.Nat.Find
import Mathlib.Data.Nat.ModEq
import Mathlib.Data.List.Basic
import Mathlib.Tactic.TypeStar

/-! # Hierarchical timing wheels

A wheel has levels `0 .. top`.  A slot of level `k` is `unit k` ticks wide, level 0 has slots of
one tick, and the slots of a level divide those of the next.  A timer due at `due` waits at the
least level whose next coarser slot holds both `due` and `now`, or at the top.  As `now` passes
a boundary of `unit c` ticks, the slot of level `c` that begins there is emptied into the levels
below it; nothing else changes place.

`layout now ps` is the wheel that holds the timers `ps`, written in the order they were added.
Every operation of a wheel is an equation on layouts, so a wheel never needs an invariant of its
own: it is the layout of its pending timers. -/

set_option autoImplicit false

namespace Doudizhu

structure TimingWheel where
  unit : ℕ → ℕ
  top : ℕ
  unit_zero : unit 0 = 1
  unit_pos : ∀ k, 0 < unit k
  unit_dvd : ∀ k, unit k ∣ unit (k + 1)

namespace TimingWheel

variable {A : Type*} (w : TimingWheel)

def slots (k : ℕ) : ℕ := w.unit (k + 1) / w.unit k

/-- Both times fall into one slot of the level above `k`. -/
def SameTurn (k now due : ℕ) : Prop := due / w.unit (k + 1) = now / w.unit (k + 1)

instance (k now due : ℕ) : Decidable (w.SameTurn k now due) :=
  inferInstanceAs (Decidable (_ = _))

theorem exists_level (now due : ℕ) : ∃ k, k = w.top ∨ w.SameTurn k now due := ⟨w.top, Or.inl rfl⟩

def level (now due : ℕ) : ℕ := Nat.find (w.exists_level now due)

def slot (now due : ℕ) : ℕ × ℕ :=
  (w.level now due, due / w.unit (w.level now due) % w.slots (w.level now due))

/-- `due` lies ahead of `now` by less than one turn of the top level. -/
def Reaches (now due : ℕ) : Prop :=
  now ≤ due ∧ due / w.unit w.top < now / w.unit w.top + w.slots w.top

def cascade (now : ℕ) : ℕ := Nat.findGreatest (fun k => w.unit k ∣ now) w.top

def beginning (now : ℕ) : ℕ × ℕ :=
  (w.cascade now, now / w.unit (w.cascade now) % w.slots (w.cascade now))

/-! ## Levels -/

theorem level_eq_iff {now due k : ℕ} :
    w.level now due = k ↔ (k = w.top ∨ w.SameTurn k now due) ∧
      ∀ j < k, ¬ (j = w.top ∨ w.SameTurn j now due) := by
  rw [level, Nat.find_eq_iff]

theorem level_le_top (now due : ℕ) : w.level now due ≤ w.top :=
  Nat.find_le (Or.inl rfl)

theorem unit_dvd_of_le {j k : ℕ} (h : j ≤ k) : w.unit j ∣ w.unit k := by
  induction h with
  | refl => exact Nat.dvd_refl _
  | step _ ih => exact Nat.dvd_trans ih (w.unit_dvd _)

theorem unit_mul_slots (k : ℕ) : w.unit k * w.slots k = w.unit (k + 1) :=
  Nat.mul_div_cancel' (w.unit_dvd k)

theorem div_unit_succ (t k : ℕ) : t / w.unit (k + 1) = t / w.unit k / w.slots k := by
  rw [Nat.div_div_eq_div_mul, unit_mul_slots]

/-- Two times in one slot are in one slot of every coarser level. -/
theorem div_eq_of_le {j k s t : ℕ} (h : j ≤ k) (heq : s / w.unit j = t / w.unit j) :
    s / w.unit k = t / w.unit k := by
  obtain ⟨m, hm⟩ := w.unit_dvd_of_le h
  rw [hm, ← Nat.div_div_eq_div_mul, ← Nat.div_div_eq_div_mul, heq]

theorem div_eq_of_digits {k s t : ℕ} (hturn : s / w.unit (k + 1) = t / w.unit (k + 1))
    (hplace : s / w.unit k % w.slots k = t / w.unit k % w.slots k) :
    s / w.unit k = t / w.unit k := by
  rw [w.div_unit_succ, w.div_unit_succ] at hturn
  rw [← Nat.div_add_mod (s / w.unit k) (w.slots k), hturn, hplace, Nat.div_add_mod]

/-! ## The current slot -/

/-- The slot of level 0 that the clock points at holds what is due now and nothing else. -/
theorem slot_eq_current_iff (htop : 0 < w.top) (now due : ℕ) :
    w.slot now due = (0, now % w.slots 0) ↔ due = now := by
  constructor
  · intro h
    rw [slot, Prod.mk.injEq] at h
    obtain ⟨hlevel, hplace⟩ := h
    rw [hlevel, w.unit_zero, Nat.div_one] at hplace
    have hsame : w.SameTurn 0 now due := ((w.level_eq_iff.mp hlevel).1).resolve_left (by omega)
    have hdiv := w.div_eq_of_digits (k := 0) hsame (by
      rw [w.unit_zero, Nat.div_one, Nat.div_one]; exact hplace)
    rwa [w.unit_zero, Nat.div_one, Nat.div_one] at hdiv
  · intro h
    subst h
    have hlevel : w.level due due = 0 :=
      w.level_eq_iff.mpr ⟨Or.inr rfl, fun j hj => absurd hj (Nat.not_lt_zero j)⟩
    rw [slot, hlevel, w.unit_zero, Nat.div_one]

/-! ## One tick -/

theorem cascade_le_top (now : ℕ) : w.cascade now ≤ w.top := Nat.findGreatest_le _

theorem unit_cascade_dvd (now : ℕ) : w.unit (w.cascade now) ∣ now :=
  Nat.findGreatest_spec (P := fun k => w.unit k ∣ now) (Nat.zero_le w.top)
    (by rw [w.unit_zero]; exact Nat.one_dvd now)

theorem not_unit_dvd {now k : ℕ} (hk : w.cascade now < k) (htop : k ≤ w.top) :
    ¬ w.unit k ∣ now :=
  Nat.findGreatest_is_greatest (P := fun k => w.unit k ∣ now) hk htop

theorem div_succ_of_cascade_lt (now : ℕ) {k : ℕ} (hk : w.cascade (now + 1) < k)
    (htop : k ≤ w.top) :
    (now + 1) / w.unit k = now / w.unit k := by
  rw [Nat.succ_div_of_not_dvd (w.not_unit_dvd hk htop)]

/-- A slot of a level up to the cascade ended, so what lies ahead is in a later one. -/
theorem div_lt_of_le_cascade {now due k : ℕ} (hdue : now < due) (hk : k ≤ w.cascade (now + 1)) :
    now / w.unit k < due / w.unit k := by
  have hdvd : w.unit k ∣ now + 1 := Nat.dvd_trans (w.unit_dvd_of_le hk) (w.unit_cascade_dvd _)
  have hsucc : (now + 1) / w.unit k = now / w.unit k + 1 := Nat.succ_div_of_dvd hdvd
  have hmono : (now + 1) / w.unit k ≤ due / w.unit k := Nat.div_le_div_right hdue
  omega

theorem cascade_le_level {now due : ℕ} (hdue : now < due) :
    w.cascade (now + 1) ≤ w.level now due := by
  by_contra hlt
  push Not at hlt
  obtain ⟨hsame, _⟩ := w.level_eq_iff.mp (rfl : w.level now due = w.level now due)
  have htop := w.cascade_le_top (now + 1)
  rcases hsame with heq | hsame
  · omega
  · have hlt' := w.div_lt_of_le_cascade (k := w.level now due + 1) hdue hlt
    rw [SameTurn] at hsame
    omega

/-- What is due in the slot that begins waits in that slot until the tick. -/
theorem slot_eq_beginning_iff {now due : ℕ} (hdue : now < due) (hreach : w.Reaches now due) :
    w.slot now due = w.beginning (now + 1) ↔
      due / w.unit (w.cascade (now + 1)) = (now + 1) / w.unit (w.cascade (now + 1)) := by
  have htop := w.cascade_le_top (now + 1)
  constructor
  · intro h
    rw [slot, beginning, Prod.mk.injEq] at h
    obtain ⟨hlevel, hplace⟩ := h
    rw [hlevel] at hplace
    rcases Nat.lt_or_ge (w.cascade (now + 1)) w.top with hlt | hge
    · have hsame : w.SameTurn (w.cascade (now + 1)) now due :=
        ((w.level_eq_iff.mp hlevel).1).resolve_left (by omega)
      have hturn := w.div_succ_of_cascade_lt now (Nat.lt_succ_self _) hlt
      exact w.div_eq_of_digits (hsame.trans hturn.symm) hplace
    · -- at the top the turns may differ, but less than one turn is ahead
      have heq : w.cascade (now + 1) = w.top := by omega
      rw [heq] at hplace ⊢
      have hlow := w.div_lt_of_le_cascade hdue (Nat.le_of_eq heq.symm)
      have hhigh := hreach.2
      have hsucc : (now + 1) / w.unit w.top = now / w.unit w.top + 1 :=
        Nat.succ_div_of_dvd (heq ▸ w.unit_cascade_dvd (now + 1))
      rw [hsucc] at hplace ⊢
      have hmod : Nat.ModEq (w.slots w.top) (now / w.unit w.top + 1) (due / w.unit w.top) :=
          hplace.symm
      have hsub := (Nat.modEq_iff_dvd' hlow).mp hmod
      have hzero := Nat.eq_zero_of_dvd_of_lt hsub (by omega)
      omega
  · intro h
    have hlevel : w.level now due = w.cascade (now + 1) := by
      refine w.level_eq_iff.mpr ⟨?_, ?_⟩
      · rcases Nat.lt_or_ge (w.cascade (now + 1)) w.top with hlt | hge
        · right
          rw [SameTurn, ← w.div_succ_of_cascade_lt now (Nat.lt_succ_self _) hlt]
          exact w.div_eq_of_le (Nat.le_succ _) h
        · left; omega
      · intro j hj
        have := w.cascade_le_level hdue
        intro hor
        have hle : w.level now due ≤ j := Nat.find_le hor
        omega
    rw [slot, beginning, hlevel, h]

theorem slot_succ_of_ne {now due : ℕ} (hdue : now < due) (hreach : w.Reaches now due)
    (hne : w.slot now due ≠ w.beginning (now + 1)) : w.slot (now + 1) due = w.slot now due := by
  have hfar : due / w.unit (w.cascade (now + 1)) ≠ (now + 1) / w.unit (w.cascade (now + 1)) :=
    fun h => hne ((w.slot_eq_beginning_iff hdue hreach).mpr h)
  have hlevel : w.level (now + 1) due = w.level now due := by
    have hle := w.cascade_le_level hdue
    have hltop := w.level_le_top now due
    obtain ⟨hat, hbelow⟩ := w.level_eq_iff.mp (rfl : w.level now due = w.level now due)
    refine w.level_eq_iff.mpr ⟨?_, ?_⟩
    · rcases Nat.lt_or_ge (w.level now due) w.top with hlt | hge
      · right
        rw [SameTurn, w.div_succ_of_cascade_lt now (by omega) hlt]
        exact hat.resolve_left (by omega)
      · left; omega
    · intro j hj hor
      rcases hor with hj' | hsame
      · omega
      · rcases Nat.lt_or_ge j (w.cascade (now + 1)) with hlow | hhigh
        · exact hfar (w.div_eq_of_le hlow hsame)
        · refine hbelow j hj (Or.inr ?_)
          rw [SameTurn, ← w.div_succ_of_cascade_lt now (k := j + 1) (by omega) (by omega)]
          exact hsame
  rw [slot, slot, hlevel]

theorem level_succ_lt {now due : ℕ} (hdue : now < due) (hreach : w.Reaches now due)
    (hc : 0 < w.cascade (now + 1)) (heq : w.slot now due = w.beginning (now + 1)) :
    w.level (now + 1) due < w.cascade (now + 1) := by
  have hdiv := (w.slot_eq_beginning_iff hdue hreach).mp heq
  have hsame : w.SameTurn (w.cascade (now + 1) - 1) (now + 1) due := by
    rw [SameTurn, Nat.sub_add_cancel hc]
    exact hdiv
  have hle : w.level (now + 1) due ≤ w.cascade (now + 1) - 1 := Nat.find_le (Or.inr hsame)
  omega

/-! ## Layouts -/

/-- The timers at `now` in slot `b`, in the order they were added. -/
def layout (now : ℕ) (ps : List (ℕ × A)) (b : ℕ × ℕ) : List (ℕ × A) :=
  ps.filter fun p => decide (w.slot now p.1 = b)

theorem layout_append (now : ℕ) (ps qs : List (ℕ × A)) (b : ℕ × ℕ) :
    w.layout now (ps ++ qs) b = w.layout now ps b ++ w.layout now qs b := List.filter_append ..

theorem layout_singleton (now : ℕ) (p : ℕ × A) (b : ℕ × ℕ) :
    w.layout now [p] b = if w.slot now p.1 = b then [p] else [] := by
  simp [layout, List.filter_cons]

/-- If the keys of one group change, and to keys that nobody has, then the groups by the new key
are the groups by the old one, without that group, followed by what it is dealt out to. -/
theorem filter_rekey {K : Type*} [DecidableEq K] (f g : A → K) (m b : K) (ps : List A)
    (hkeep : ∀ p ∈ ps, f p ≠ m → g p = f p)
    (hfresh : ∀ p ∈ ps, f p = m → ∀ q ∈ ps, g p ≠ f q) :
    ps.filter (fun p => decide (g p = b)) =
      (if b = m then [] else ps.filter fun p => decide (f p = b)) ++
        (ps.filter fun p => decide (f p = m)).filter fun p => decide (g p = b) := by
  by_cases hq : ∃ q ∈ ps, f q = b ∧ b ≠ m
  · obtain ⟨q, hmem, hqb, hbm⟩ := hq
    have hnone : (ps.filter fun p => decide (f p = m)).filter (fun p => decide (g p = b)) = [] := by
      rw [List.filter_eq_nil_iff]
      intro p hp hgb
      have hp' := List.mem_filter.mp hp
      exact hfresh p hp'.1 (of_decide_eq_true hp'.2) q hmem
        ((of_decide_eq_true hgb).trans hqb.symm)
    rw [if_neg hbm, hnone, List.append_nil]
    apply List.filter_congr
    intro p hp
    by_cases hm : f p = m
    · have hg : g p ≠ b := fun h => hfresh p hp hm q hmem (h.trans hqb.symm)
      have hf : f p ≠ b := fun h => hbm (h.symm.trans hm)
      simp [hg, hf]
    · rw [hkeep p hp hm]
  · have hempty : (if b = m then [] else ps.filter fun p => decide (f p = b)) = [] := by
      split
      · rfl
      · rename_i hbm
        rw [List.filter_eq_nil_iff]
        intro p hp hf
        exact hq ⟨p, hp, of_decide_eq_true hf, hbm⟩
    rw [hempty, List.nil_append, List.filter_filter]
    apply List.filter_congr
    intro p hp
    by_cases hm : f p = m
    · simp [hm]
    · have hg : g p ≠ b := by
        intro h
        rw [hkeep p hp hm] at h
        exact hq ⟨p, hp, h, fun hbm => hm (h.trans hbm)⟩
      simp [hg]

/-- A tick on which a slot begins deals that slot out and touches no other. -/
theorem layout_tick (now : ℕ) (ps : List (ℕ × A)) (b : ℕ × ℕ) (hc : 0 < w.cascade (now + 1))
    (hps : ∀ p ∈ ps, now < p.1 ∧ w.Reaches now p.1) :
    w.layout (now + 1) ps b =
      (if b = w.beginning (now + 1) then [] else w.layout now ps b) ++
        w.layout (now + 1) (w.layout now ps (w.beginning (now + 1))) b := by
  apply filter_rekey (fun p : ℕ × A => w.slot now p.1) (fun p => w.slot (now + 1) p.1)
  · intro p hp hne
    exact w.slot_succ_of_ne (hps p hp).1 (hps p hp).2 hne
  · intro p hp heq q hq hslot
    have hlow := w.level_succ_lt (hps p hp).1 (hps p hp).2 hc heq
    have hhigh := w.cascade_le_level (hps q hq).1
    have hlevel := congrArg Prod.fst hslot
    rw [slot, slot] at hlevel
    omega

theorem layout_tick_of_cascade_eq_zero (now : ℕ) (ps : List (ℕ × A)) (b : ℕ × ℕ)
    (htop : 0 < w.top) (hc : w.cascade (now + 1) = 0)
    (hps : ∀ p ∈ ps, now < p.1 ∧ w.Reaches now p.1) :
    w.layout (now + 1) ps b = w.layout now ps b := by
  apply List.filter_congr
  intro p hp
  have hsame : w.slot (now + 1) p.1 = w.slot now p.1 := by
    by_cases hm : w.slot now p.1 = w.beginning (now + 1)
    · have hdue := (w.slot_eq_beginning_iff (hps p hp).1 (hps p hp).2).mp hm
      rw [hc, w.unit_zero, Nat.div_one, Nat.div_one] at hdue
      rw [hm, (w.slot_eq_current_iff htop (now + 1) p.1).mpr hdue, beginning, hc, w.unit_zero,
        Nat.div_one]
    · exact w.slot_succ_of_ne (hps p hp).1 (hps p hp).2 hm
  rw [hsame]

theorem layout_current (htop : 0 < w.top) (now : ℕ) (ps : List (ℕ × A)) :
    w.layout now ps (0, now % w.slots 0) = ps.filter fun p => decide (p.1 = now) := by
  apply List.filter_congr
  intro p _
  rw [decide_eq_decide]
  exact w.slot_eq_current_iff htop now p.1

theorem layout_filter_ne (htop : 0 < w.top) (now : ℕ) (ps : List (ℕ × A)) (b : ℕ × ℕ) :
    w.layout now (ps.filter fun p => decide (p.1 ≠ now)) b =
      if b = (0, now % w.slots 0) then [] else w.layout now ps b := by
  rw [layout, List.filter_filter]
  split
  · rename_i hb
    rw [List.filter_eq_nil_iff]
    intro p _ h
    rw [Bool.and_eq_true, decide_eq_true_eq, decide_eq_true_eq, hb,
      w.slot_eq_current_iff htop] at h
    exact h.2 h.1
  · rename_i hb
    apply List.filter_congr
    intro p _
    by_cases hslot : w.slot now p.1 = b
    · have hne : p.1 ≠ now := fun h => hb (hslot ▸ (w.slot_eq_current_iff htop now p.1).mpr h)
      simp [hne]
    · simp [hslot]

end TimingWheel
end Doudizhu
