import Doudizhu.Game.GameRound
import Mathlib.Data.List.Induction

/-! # The ring of seats and the two ways round it

`set_act_index` keeps the two neighbours of the seat on turn up to date, `init` makes every one of
the three fields 0.  The range test lets numbers between the seats through as well.

A seat is left when its player acts or when its countdown expires.  Only the second way starts the
countdown again, so the next player gets what the one who acted has left. -/

set_option autoImplicit false

namespace Doudizhu.Game

open Lua

namespace GameRound

/-! ## Leaving a seat -/

section Leaving
variable {φ : Type} [LuaCompare φ]

def actAccepted (s : GameRound φ) (actData : ActData φ) : GameRound φ × Option Nat :=
  let s := if truthy actData.bPass then s else s.dealPokerLogic actData.data
  if s.checkGameOver then s.endRound
  else (s.setActIndex (.number (getIncreaseActIndex s.m_actIndex)), none)

theorem dealActRequest_eq (s : GameRound φ) (actData : ActData φ) :
    s.dealActRequest actData =
      if s.checkActInvalid .nil then (s, none) else s.actAccepted actData := rfl

/-- The branch of `game_timer_callback` for a countdown that has run out. -/
def countdownExpired (s : GameRound φ) : GameRound φ :=
  let s := s.setActIndex (.number (getIncreaseActIndex s.m_actIndex))
  { s with m_operateRemain := operateRemain }

theorem gameTimerCallback_eq (s : GameRound φ) :
    s.gameTimerCallback =
      if s.checkGameOver then s.endRound
      else
        let s := { s with m_operateRemain := s.m_operateRemain - 1 }
        if s.m_operateRemain ≤ 0 then (s.countdownExpired, none) else (s, none) := rfl

/-- Whose turn it is, the neighbours, and the time that is left. -/
structure SameTurn (s t : GameRound φ) : Prop where
  actIndex : t.m_actIndex = s.m_actIndex
  preActIndex : t.m_preActIndex = s.m_preActIndex
  nextActIndex : t.m_nextActIndex = s.m_nextActIndex
  operateRemain : t.m_operateRemain = s.m_operateRemain

theorem actAccepted_eq (s : GameRound φ) (actData : ActData φ) :
    s.actAccepted actData = (s.setActIndex (.number (increase s.m_actIndex)), none) := by
  unfold actAccepted dealPokerLogic
  rw [ite_self]
  rfl

theorem setActIndex_operateRemain (s : GameRound φ) (actIndex : Value φ) :
    (s.setActIndex actIndex).m_operateRemain = s.m_operateRemain := by
  unfold setActIndex
  cases tonumber actIndex with
  | none => rfl
  | some n => dsimp only; split_ifs <;> rfl

theorem setActIndex_of_remain (s : GameRound φ) (remain : Int) (actIndex : Value φ) :
    ({ s with m_operateRemain := remain } : GameRound φ).setActIndex actIndex =
      { s.setActIndex actIndex with m_operateRemain := remain } := by
  unfold setActIndex
  cases tonumber actIndex with
  | none => rfl
  | some n => dsimp only; split_ifs <;> rfl

/-- Acting with some time left and letting the time run out lead to the same turn if and only if
all of the time was left. -/
theorem turn_passed_alike_iff (s : GameRound φ) (actData : ActData φ) (remain : Int) :
    SameTurn (s.actAccepted actData).1
        ({ s with m_operateRemain := remain } : GameRound φ).countdownExpired ↔
      s.m_operateRemain = operateRemain := by
  have hexpired : ({ s with m_operateRemain := remain } : GameRound φ).countdownExpired =
      { s.setActIndex (.number (increase s.m_actIndex)) with
        m_operateRemain := operateRemain } := by
    unfold countdownExpired
    rw [setActIndex_of_remain]
    rfl
  rw [actAccepted_eq, hexpired]
  constructor
  · intro h
    exact (h.operateRemain.trans (setActIndex_operateRemain s _)).symm
  · intro hfull
    exact ⟨rfl, rfl, rfl, ((setActIndex_operateRemain s _).trans hfull).symm⟩

/-- The first player acts after one second, and the second player has seven. -/
theorem early_act_shortens_turn :
    ¬ SameTurn ((init : GameRound Empty).gameTimerCallback.1.actAccepted
        ⟨.number (.integer 0), .boolean true, .nil⟩).1
      ({ (init : GameRound Empty).gameTimerCallback.1 with
        m_operateRemain := 0 } : GameRound Empty).countdownExpired :=
  fun h => absurd h.operateRemain (by decide)

end Leaving

/-! ## The ring -/

section Ring
variable {φ : Type} [LuaCompare φ]

def IsSeat (n : Number φ) : Prop := ∃ i : Int, 0 ≤ i ∧ i ≤ 2 ∧ n.eqInteger i = true

/-- The three fields hold a seat, the one before it and the one after it. -/
def Around (s : GameRound φ) : Prop :=
  ∃ i : Int, 0 ≤ i ∧ i ≤ 2 ∧ s.m_actIndex.eqInteger i = true ∧
    s.m_preActIndex.eqInteger ((i + 2) % 3) = true ∧
    s.m_nextActIndex.eqInteger ((i + 1) % 3) = true

def InRing (s : GameRound φ) : Prop :=
  Around s ∧ 1 ≤ s.m_operateRemain ∧ s.m_operateRemain ≤ operateRemain

/-- The number that `set_act_index` takes its argument for, if it accepts it. -/
def accepted (actIndex : Value φ) : Option (Number φ) :=
  (tonumber actIndex).filter fun n => n.ge ActIndex.bottom && n.le ActIndex.left

def sets : RoundEvent φ → Bool
  | .setActIndex actIndex => (accepted actIndex).isSome
  | _ => false

def ticks : RoundEvent φ → Bool
  | .gameTimerCallback => true
  | _ => false

def turnSet (es : List (RoundEvent φ)) : Bool := es.any sets || 8 ≤ es.countP ticks

/-- An accepted argument is a whole number. -/
def WholeSeat : RoundEvent φ → Prop
  | .setActIndex actIndex => ∀ n, accepted actIndex = some n → IsSeat n
  | _ => True

theorem setActIndex_of_accepted (s : GameRound φ) {actIndex : Value φ} {n : Number φ}
    (h : accepted actIndex = some n) :
    s.setActIndex actIndex =
      { s with
        m_preActIndex := decrease n
        m_nextActIndex := increase n
        m_actIndex := n } := by
  obtain ⟨hnumber, hrange⟩ := Option.filter_eq_some_iff.mp h
  rw [setActIndex, hnumber]
  exact if_pos hrange

theorem setActIndex_of_refused (s : GameRound φ) {actIndex : Value φ}
    (h : accepted actIndex = none) : s.setActIndex actIndex = s := by
  unfold setActIndex
  cases hnumber : tonumber actIndex with
  | none => rfl
  | some n =>
      rw [accepted, hnumber, Option.filter_eq_none_iff] at h
      exact if_neg (h n rfl)

theorem reached_concat (es : List (RoundEvent φ)) (e : RoundEvent φ) :
    reached (es ++ [e]) = (reached es).step e := List.foldl_concat ..

theorem step_request (s : GameRound φ) (actData : ActData φ) : s.step (.request actData) = s :=
  congrArg Prod.fst (dealActRequest_refuses s actData)

theorem setStatus_seats (s : GameRound φ) (status : Value φ) :
    (s.setStatus status).m_actIndex = s.m_actIndex ∧
      (s.setStatus status).m_preActIndex = s.m_preActIndex ∧
      (s.setStatus status).m_nextActIndex = s.m_nextActIndex ∧
      (s.setStatus status).m_operateRemain = s.m_operateRemain := by
  unfold setStatus
  cases tonumber status with
  | none => exact ⟨rfl, rfl, rfl, rfl⟩
  | some n => dsimp only; split_ifs <;> exact ⟨rfl, rfl, rfl, rfl⟩

omit [LuaCompare φ] in
theorem countP_concat (es : List (RoundEvent φ)) (e : RoundEvent φ) :
    (es ++ [e]).countP ticks = es.countP ticks + (ticks e).toNat := by
  rw [List.countP_append, List.countP_singleton]
  cases ticks e <;> rfl

/-- Every eighth call starts the countdown again, and nothing else does. -/
theorem operateRemain_reached (es : List (RoundEvent φ)) :
    (reached es).m_operateRemain = 8 - ((es.countP ticks % 8 : Nat) : Int) := by
  induction es using List.reverseRecOn with
  | nil => rfl
  | append_singleton es e ih =>
      rw [reached_concat, countP_concat]
      cases e with
      | setActIndex actIndex => exact (setActIndex_operateRemain _ actIndex).trans ih
      | setStatus status => exact (setStatus_seats _ status).2.2.2.trans ih
      | request actData =>
          rw [step_request]
          exact ih
      | gameTimerCallback =>
          change (reached es).gameTimerCallback.1.m_operateRemain =
            8 - (((es.countP ticks + 1) % 8 : Nat) : Int)
          by_cases hwait : 1 < (reached es).m_operateRemain
          · rw [gameTimerCallback_waits _ hwait]
            dsimp only
            omega
          · rw [gameTimerCallback_expired _ (by omega)]
            change (8 : Int) = _
            omega

theorem seats_unset {es : List (RoundEvent φ)} (h : turnSet es = false) :
    (reached es).m_actIndex = .integer 0 ∧ (reached es).m_preActIndex = .integer 0 ∧
      (reached es).m_nextActIndex = .integer 0 := by
  induction es using List.reverseRecOn with
  | nil => exact ⟨rfl, rfl, rfl⟩
  | append_singleton es e ih =>
      simp only [turnSet, List.any_append, List.any_cons, List.any_nil, Bool.or_false,
        Bool.or_eq_false_iff, decide_eq_false_iff_not, countP_concat] at h
      obtain ⟨⟨hsets, hset⟩, hcount⟩ := h
      have hunset : turnSet es = false := by
        rw [turnSet, hsets, Bool.false_or]
        exact decide_eq_false (by omega)
      rw [reached_concat]
      cases e with
      | setActIndex actIndex =>
          have hrefused : accepted actIndex = none := Option.not_isSome_iff_eq_none.mp (by
            rw [Bool.not_eq_true]
            exact hset)
          rw [step, setActIndex_of_refused _ hrefused]
          exact ih hunset
      | setStatus status =>
          obtain ⟨hact, hpre, hnext, _⟩ := setStatus_seats (reached es) status
          rw [step, hact, hpre, hnext]
          exact ih hunset
      | request actData =>
          rw [step_request]
          exact ih hunset
      | gameTimerCallback =>
          have hremain := operateRemain_reached es
          have hfew : es.countP ticks + 1 < 8 := by
            have hone : (ticks (.gameTimerCallback : RoundEvent φ)).toNat = 1 := rfl
            omega
          rw [step, gameTimerCallback_waits _ (by omega)]
          exact ih hunset

end Ring

/-! ## Whole seats -/

section Whole
variable {φ : Type} [LuaDouble φ]

theorem increase_of_seat {n : Number φ} {i : Int} (hn : n.eqInteger i = true)
    (hi : 0 ≤ i ∧ i ≤ 2) : (increase n).eqInteger ((i + 1) % 3) = true := by
  have hnext := Number.addInteger_of_eq hn (d := 1) (by omega) (by omega)
  unfold increase
  rw [Number.gt_of_eq hnext]
  by_cases hlast : ActIndex.left < i + 1
  · have hi2 : i = 2 := by
      unfold ActIndex.left at hlast
      omega
    subst hi2
    rfl
  · have hmod : (i + 1) % 3 = i + 1 := by
      unfold ActIndex.left at hlast
      omega
    rw [decide_eq_false hlast, hmod]
    exact hnext

theorem decrease_of_seat {n : Number φ} {i : Int} (hn : n.eqInteger i = true)
    (hi : 0 ≤ i ∧ i ≤ 2) : (decrease n).eqInteger ((i + 2) % 3) = true := by
  have hpre := Number.addInteger_of_eq hn (d := -1) (by omega) (by omega)
  unfold decrease
  rw [Number.lt_of_eq hpre]
  by_cases hfirst : i + -1 < ActIndex.bottom
  · have hi0 : i = 0 := by
      unfold ActIndex.bottom at hfirst
      omega
    subst hi0
    rfl
  · have hmod : (i + 2) % 3 = i + -1 := by
      unfold ActIndex.bottom at hfirst
      omega
    rw [decide_eq_false hfirst, hmod]
    exact hpre

theorem accepted_of_seat {n : Number φ} (h : IsSeat n) : accepted (.number n) = some n := by
  obtain ⟨i, hlow, hhigh, hn⟩ := h
  refine Option.filter_eq_some_iff.mpr ⟨rfl, ?_⟩
  rw [Number.ge_of_eq hn, Number.le_of_eq hn]
  exact Bool.and_eq_true_iff.mpr ⟨decide_eq_true hlow, decide_eq_true hhigh⟩

theorem around_set (s : GameRound φ) {actIndex : Value φ} {n : Number φ}
    (haccepted : accepted actIndex = some n) (h : IsSeat n) : Around (s.setActIndex actIndex) := by
  obtain ⟨i, hlow, hhigh, hn⟩ := h
  rw [setActIndex_of_accepted s haccepted]
  exact ⟨i, hlow, hhigh, hn, decrease_of_seat hn ⟨hlow, hhigh⟩, increase_of_seat hn ⟨hlow, hhigh⟩⟩

theorem isSeat_increase {n : Number φ} (h : IsSeat n) : IsSeat (increase n) := by
  obtain ⟨i, hlow, hhigh, hn⟩ := h
  exact ⟨(i + 1) % 3, by omega, by omega, increase_of_seat hn ⟨hlow, hhigh⟩⟩

theorem Around.isSeat {s : GameRound φ} (h : Around s) : IsSeat s.m_actIndex := by
  obtain ⟨i, hlow, hhigh, hi, _⟩ := h
  exact ⟨i, hlow, hhigh, hi⟩

theorem around_reached {es : List (RoundEvent φ)} (hwhole : ∀ e ∈ es, WholeSeat e)
    (hset : turnSet es = true) : Around (reached es) := by
  induction es using List.reverseRecOn with
  | nil => exact absurd hset Bool.false_ne_true
  | append_singleton es e ih =>
      have hbefore : ∀ d ∈ es, WholeSeat d := fun d hd => hwhole d (List.mem_append_left [e] hd)
      have hlast : WholeSeat e := hwhole e (List.mem_append_right es List.mem_cons_self)
      have hearlier : sets e = false → ticks e = false → turnSet es = true := by
        intro hnoset hnotick
        rw [turnSet, List.any_append, countP_concat, hnotick] at hset
        unfold turnSet
        simpa only [List.any_cons, List.any_nil, hnoset, Bool.or_false, Bool.toNat_false,
          Nat.add_zero] using hset
      rw [reached_concat]
      cases e with
      | setActIndex actIndex =>
          cases haccepted : accepted actIndex with
          | some n => exact around_set _ haccepted (hlast n haccepted)
          | none =>
              rw [step, setActIndex_of_refused _ haccepted]
              refine ih hbefore (hearlier ?_ rfl)
              rw [sets, haccepted]
              rfl
      | setStatus status =>
          obtain ⟨hact, hpre, hnext, _⟩ := setStatus_seats (reached es) status
          rw [step, Around, hact, hpre, hnext]
          exact ih hbefore (hearlier rfl rfl)
      | request actData =>
          rw [step_request]
          exact ih hbefore (hearlier rfl rfl)
      | gameTimerCallback =>
          have hremain := operateRemain_reached es
          by_cases hwait : 1 < (reached es).m_operateRemain
          · rw [step, gameTimerCallback_waits _ hwait]
            refine ih hbefore ?_
            by_contra hunset
            rw [turnSet, List.any_append, countP_concat] at hset
            rw [turnSet, Bool.or_eq_true, not_or, Bool.not_eq_true, decide_eq_true_eq] at hunset
            rw [hunset.1] at hset
            have heighth : 8 ≤ es.countP ticks + 1 := of_decide_eq_true hset
            omega
          · have hseat : IsSeat (reached es).m_actIndex := by
              by_cases hturn : turnSet es = true
              · exact (ih hbefore hturn).isSeat
              · rw [(seats_unset (Bool.eq_false_iff.mpr hturn)).1]
                exact ⟨0, by decide, by decide, rfl⟩
            have hnext := isSeat_increase hseat
            rw [step, gameTimerCallback_expired _ (by omega)]
            exact around_set (reached es) (accepted_of_seat hnext) hnext

theorem not_around_unset {es : List (RoundEvent φ)} (h : turnSet es = false) :
    ¬ Around (reached es) := by
  rintro ⟨i, _, _, hact, hpre, _⟩
  obtain ⟨hact0, hpre0, _⟩ := seats_unset h
  rw [hact0] at hact
  rw [hpre0] at hpre
  have hsame := Number.eqInteger_unique hact hpre
  omega

theorem inRing_iff_around (es : List (RoundEvent φ)) :
    InRing (reached es) ↔ Around (reached es) :=
  and_iff_left (seated_reached es).remain

/-- No state before the first turn is in the ring.  All later ones of a run are, if and only if
every number that `set_act_index` has accepted is whole. -/
theorem in_ring_iff (es : List (RoundEvent φ)) :
    (∀ pre, pre <+: es → turnSet pre = false → ¬ InRing (reached pre)) ∧
      ((∀ pre, pre <+: es → turnSet pre = true → InRing (reached pre)) ↔
        ∀ e ∈ es, WholeSeat e) := by
  refine ⟨fun pre _ hunset h => not_around_unset hunset ((inRing_iff_around pre).mp h), ?_, ?_⟩
  · intro hring e he
    cases e with
    | setActIndex actIndex =>
        intro n haccepted
        obtain ⟨before, after, rfl⟩ := List.append_of_mem he
        have hpre : before ++ [.setActIndex actIndex] <+:
            before ++ .setActIndex actIndex :: after := ⟨after, List.append_assoc ..⟩
        have hset : turnSet (before ++ [.setActIndex actIndex]) = true := by
          simp [turnSet, sets, haccepted]
        have hseat := (hring _ hpre hset).1.isSeat
        rwa [reached_concat, step, setActIndex_of_accepted _ haccepted] at hseat
    | setStatus status => trivial
    | gameTimerCallback => trivial
    | request actData => trivial
  · intro hwhole pre hpre hset
    exact (inRing_iff_around pre).mpr (around_reached (fun e he => hwhole e (hpre.subset he)) hset)

/-- At the start the seat before the first and the seat after it are the first. -/
theorem not_in_ring_at_start : ¬ InRing (reached [] : GameRound Empty) :=
  fun h => not_around_unset rfl h.1

end Whole
end GameRound
end Doudizhu.Game
