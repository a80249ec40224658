import Doudizhu.Lua.Value
import Mathlib.Logic.Function.Iterate

/-! # The turns of a round

`gameRound.lua` as functions on one `GameRound`.  `set_act_index` takes every number between the
first and the last seat, whole or not.  What a call asks of `timer_manager`, the handle to
unregister, is returned beside the round.  The method that the source calls `end` is `endRound`.
`deal_poker_logic` and `broadcast_current_act` do nothing yet.

A seat is left in two ways: its countdown runs out in `game_timer_callback`, or its player acts
and `deal_act_request` passes the turn.  The second never happens, because the validation is
called without the seat that it is to check. -/

set_option autoImplicit false

namespace Doudizhu.Game

open Lua

def statusIdle : Int := 1
def statusMax : Int := 6

namespace ActIndex

def bottom : Int := 0
def left : Int := 2

end ActIndex

def operateRemain : Int := 8

structure GameRound (φ : Type) where
  m_status : Number φ
  m_actIndex : Number φ
  m_preActIndex : Number φ
  m_nextActIndex : Number φ
  m_operateRemain : Int
  m_timerGame : Option Nat
  deriving DecidableEq

structure ActData (φ : Type) where
  index : Value φ
  bPass : Value φ
  data : Value φ

namespace GameRound
variable {φ : Type}

def init : GameRound φ where
  m_status := .integer statusIdle
  m_actIndex := .integer ActIndex.bottom
  m_preActIndex := .integer ActIndex.bottom
  m_nextActIndex := .integer ActIndex.bottom
  m_operateRemain := operateRemain
  m_timerGame := none

def stopGameTimer (s : GameRound φ) : GameRound φ × Option Nat :=
  ({ s with m_timerGame := none }, s.m_timerGame)

def endRound (s : GameRound φ) : GameRound φ × Option Nat := s.stopGameTimer

def checkGameOver (_ : GameRound φ) : Bool := false

def dealPokerLogic (s : GameRound φ) (_operateData : Value φ) : GameRound φ := s

variable [LuaCompare φ]

def setStatus (s : GameRound φ) (status : Value φ) : GameRound φ :=
  match tonumber status with
  | some n => if n.ge statusIdle && n.lt statusMax then { s with m_status := n } else s
  | none => s

/-- The seat after a seat, and the seat before it, on the ring of the three. -/
def increase (n : Number φ) : Number φ :=
  if (n.addInteger 1).gt ActIndex.left then .integer ActIndex.bottom else n.addInteger 1

def decrease (n : Number φ) : Number φ :=
  if (n.addInteger (-1)).lt ActIndex.bottom then .integer ActIndex.left else n.addInteger (-1)

def getPreActIndex (actIndex : Number φ) : Number φ := decrease actIndex
def getNextActIndex (actIndex : Number φ) : Number φ := increase actIndex
def getIncreaseActIndex (actIndex : Number φ) : Number φ := increase actIndex

def setActIndex (s : GameRound φ) (actIndex : Value φ) : GameRound φ :=
  match tonumber actIndex with
  | some n =>
      if n.ge ActIndex.bottom && n.le ActIndex.left then
        { s with
          m_preActIndex := getPreActIndex n
          m_nextActIndex := getNextActIndex n
          m_actIndex := n }
      else s
  | none => s

def gameTimerCallback (s : GameRound φ) : GameRound φ × Option Nat :=
  if s.checkGameOver then s.endRound
  else
    let s := { s with m_operateRemain := s.m_operateRemain - 1 }
    if s.m_operateRemain ≤ 0 then
      let s := s.setActIndex (.number (getIncreaseActIndex s.m_actIndex))
      ({ s with m_operateRemain := operateRemain }, none)
    else (s, none)

def checkActInvalid (s : GameRound φ) (actIndex : Value φ) : Bool :=
  match tonumber actIndex with
  | none => true
  | some n => !s.m_actIndex.eq n

/-- `check_act_invalid` gets no argument here, which makes its parameter nil. -/
def dealActRequest (s : GameRound φ) (actData : ActData φ) : GameRound φ × Option Nat :=
  if s.checkActInvalid .nil then (s, none)
  else
    let s := if truthy actData.bPass then s else s.dealPokerLogic actData.data
    if s.checkGameOver then s.endRound
    else (s.setActIndex (.number (getIncreaseActIndex s.m_actIndex)), none)

/-! ## The ring of seats -/

theorem setActIndex_integer (s : GameRound φ) {i : Int} (h : 0 ≤ i ∧ i ≤ 2) :
    s.setActIndex (.number (.integer i)) =
      { s with
        m_preActIndex := .integer ((i + 2) % 3)
        m_nextActIndex := .integer ((i + 1) % 3)
        m_actIndex := .integer i } := by
  obtain rfl | rfl | rfl : i = 0 ∨ i = 1 ∨ i = 2 := by omega
  all_goals rfl

theorem increase_integer {i : Int} (h : 0 ≤ i ∧ i ≤ 2) :
    increase (.integer i : Number φ) = .integer ((i + 1) % 3) := by
  obtain rfl | rfl | rfl : i = 0 ∨ i = 1 ∨ i = 2 := by omega
  all_goals rfl

/-! ## The countdown -/

theorem gameTimerCallback_waits (s : GameRound φ) (h : 1 < s.m_operateRemain) :
    s.gameTimerCallback = ({ s with m_operateRemain := s.m_operateRemain - 1 }, none) := by
  have hwait : ¬ s.m_operateRemain - 1 ≤ 0 := by omega
  exact if_neg hwait

/-- The countdown starts again with the next seat, if there is one to go to. -/
theorem gameTimerCallback_expired (s : GameRound φ) (h : s.m_operateRemain ≤ 1) :
    s.gameTimerCallback =
      ({ s.setActIndex (.number (increase s.m_actIndex)) with
          m_operateRemain := operateRemain }, none) := by
  have hexpired : s.m_operateRemain - 1 ≤ 0 := by omega
  have hcallback : s.gameTimerCallback =
      ({ ({ s with m_operateRemain := s.m_operateRemain - 1 } : GameRound φ).setActIndex
          (.number (increase s.m_actIndex)) with m_operateRemain := operateRemain }, none) :=
    if_pos hexpired
  rw [hcallback, setActIndex, setActIndex]
  dsimp only [tonumber]
  split_ifs <;> rfl

theorem gameTimerCallback_passes (s : GameRound φ) {i : Int} (hseat : s.m_actIndex = .integer i)
    (hi : 0 ≤ i ∧ i ≤ 2) (h : s.m_operateRemain ≤ 1) :
    s.gameTimerCallback =
      ({ s with
          m_preActIndex := .integer i
          m_nextActIndex := .integer ((i + 2) % 3)
          m_actIndex := .integer ((i + 1) % 3)
          m_operateRemain := operateRemain }, none) := by
  have hnext : 0 ≤ (i + 1) % 3 ∧ (i + 1) % 3 ≤ 2 := by omega
  have hpre : ((i + 1) % 3 + 2) % 3 = i := by omega
  have hafter : ((i + 1) % 3 + 1) % 3 = (i + 2) % 3 := by omega
  rw [gameTimerCallback_expired s h, hseat, increase_integer hi, setActIndex_integer s hnext,
    hpre, hafter]

theorem gameTimerCallback_quiet (s : GameRound φ) : s.gameTimerCallback.2 = none := by
  by_cases hwait : 1 < s.m_operateRemain
  · rw [gameTimerCallback_waits s hwait]
  · rw [gameTimerCallback_expired s (by omega)]

theorem setActIndex_timerGame (s : GameRound φ) (actIndex : Value φ) :
    (s.setActIndex actIndex).m_timerGame = s.m_timerGame := by
  unfold setActIndex
  cases tonumber actIndex with
  | none => rfl
  | some n => dsimp only; split_ifs <;> rfl

theorem gameTimerCallback_timerGame (s : GameRound φ) :
    s.gameTimerCallback.1.m_timerGame = s.m_timerGame := by
  by_cases hwait : 1 < s.m_operateRemain
  · rw [gameTimerCallback_waits s hwait]
  · rw [gameTimerCallback_expired s (by omega)]
    exact setActIndex_timerGame s _

theorem callbacks_timerGame (s : GameRound φ) (n : Nat) :
    ((fun r : GameRound φ => r.gameTimerCallback.1)^[n] s).m_timerGame = s.m_timerGame := by
  induction n with
  | zero => rfl
  | succ n ih => rw [Function.iterate_succ_apply', gameTimerCallback_timerGame, ih]

/-- `n` calls from a full countdown: every eighth passes the turn. -/
theorem callbacks_pass_turn (s : GameRound φ) {a : Int} (hseat : s.m_actIndex = .integer a)
    (ha : 0 ≤ a ∧ a ≤ 2) (hfull : s.m_operateRemain = operateRemain) (n : Nat) :
    ((fun r : GameRound φ => r.gameTimerCallback.1)^[n] s).m_actIndex =
        .integer ((a + n / 8) % 3) ∧
      ((fun r : GameRound φ => r.gameTimerCallback.1)^[n] s).m_operateRemain = 8 - n % 8 := by
  induction n with
  | zero =>
      have hzero : (a + (0 : Nat) / 8) % 3 = a := by omega
      exact ⟨by rw [hzero]; exact hseat, hfull⟩
  | succ n ih =>
      obtain ⟨hact, hremain⟩ := ih
      rw [Function.iterate_succ_apply']
      by_cases hlast : n % 8 = 7
      · have hpassed := gameTimerCallback_passes _ hact (by omega) (by omega)
        have hseat' : ((a + n / 8) % 3 + 1) % 3 = (a + (n + 1 : Nat) / 8) % 3 := by omega
        have hremain' : operateRemain = 8 - ((n + 1 : Nat) : Int) % 8 := by
          unfold operateRemain
          omega
        rw [hpassed]
        exact ⟨congrArg Number.integer hseat', hremain'⟩
      · have hseat' : (a + n / 8) % 3 = (a + (n + 1 : Nat) / 8) % 3 := by omega
        rw [gameTimerCallback_waits _ (by omega)]
        refine ⟨hact.trans (congrArg Number.integer hseat'), ?_⟩
        dsimp only
        omega

/-! ## Requests -/

inductive RoundEvent (φ : Type) where
  | setActIndex (actIndex : Value φ)
  | setStatus (status : Value φ)
  | gameTimerCallback
  | request (actData : ActData φ)

def step (s : GameRound φ) : RoundEvent φ → GameRound φ
  | .setActIndex actIndex => s.setActIndex actIndex
  | .setStatus status => s.setStatus status
  | .gameTimerCallback => s.gameTimerCallback.1
  | .request actData => (s.dealActRequest actData).1

def reached (es : List (RoundEvent φ)) : GameRound φ := es.foldl step init

/-- The request names the seat whose turn it is, by a number. -/
def onTurn (s : GameRound φ) : Value φ → Bool
  | .number n => s.m_actIndex.eq n
  | _ => false

/-- The turn has gone from a seat to the next, with that one's neighbours. -/
def Moved (s s' : GameRound φ) : Prop :=
  ∃ i : Int, s.m_actIndex.eqInteger i = true ∧ s'.m_actIndex.eqInteger ((i + 1) % 3) = true ∧
    s'.m_preActIndex.eqInteger i = true ∧ s'.m_nextActIndex.eqInteger ((i + 2) % 3) = true

/-- Only the player on turn acts, and acting passes the turn. -/
def TurnRule (s : GameRound φ) (actData : ActData φ) : Prop :=
  if s.onTurn actData.index = true then Moved s (s.dealActRequest actData).1
  else s.dealActRequest actData = (s, none)

theorem not_moved_self (s : GameRound φ) : ¬ Moved s s := by
  rintro ⟨i, hi, hnext, _⟩
  have hsame := Number.eqInteger_unique hi hnext
  omega

theorem dealActRequest_refuses (s : GameRound φ) (actData : ActData φ) :
    s.dealActRequest actData = (s, none) := rfl

/-- In every state that a round reaches, a request is dealt with by the rule if and only if it
does not come from the player on turn. -/
theorem turn_rule_iff (es : List (RoundEvent φ)) (actData : ActData φ) :
    TurnRule (reached es) actData ↔ (reached es).onTurn actData.index = false := by
  unfold TurnRule
  rw [dealActRequest_refuses]
  cases hturn : (reached es).onTurn actData.index with
  | true => simp [not_moved_self]
  | false => simp

/-- The first player passes, and keeps the turn. -/
theorem first_pass_ignored :
    ¬ TurnRule (reached [] : GameRound Empty) ⟨.number (.integer 0), .boolean true, .nil⟩ :=
  fun h => not_moved_self init h

/-! ## The states of a round -/

/-- A number that `set_act_index` lets through is on turn, and the countdown runs. -/
structure Seated (s : GameRound φ) : Prop where
  seat : s.m_actIndex.ge ActIndex.bottom = true ∧ s.m_actIndex.le ActIndex.left = true
  status : s.m_status.ge statusIdle = true ∧ s.m_status.lt statusMax = true
  remain : 1 ≤ s.m_operateRemain ∧ s.m_operateRemain ≤ operateRemain

theorem one_le_operateRemain : 1 ≤ operateRemain := by decide

theorem seated_init : Seated (init : GameRound φ) where
  seat := ⟨rfl, rfl⟩
  status := ⟨rfl, rfl⟩
  remain := ⟨one_le_operateRemain, Int.le_refl _⟩

theorem seated_setActIndex {s : GameRound φ} (h : Seated s) (actIndex : Value φ) :
    Seated (s.setActIndex actIndex) := by
  unfold setActIndex
  cases tonumber actIndex with
  | none => exact h
  | some n =>
      by_cases hin : (n.ge ActIndex.bottom && n.le ActIndex.left) = true
      · simp only [hin, if_true]
        exact ⟨Bool.and_eq_true_iff.mp hin, h.status, h.remain⟩
      · simp only [hin]
        exact h

theorem seated_setStatus {s : GameRound φ} (h : Seated s) (status : Value φ) :
    Seated (s.setStatus status) := by
  unfold setStatus
  cases tonumber status with
  | none => exact h
  | some n =>
      by_cases hin : (n.ge statusIdle && n.lt statusMax) = true
      · simp only [hin, if_true]
        exact ⟨h.seat, Bool.and_eq_true_iff.mp hin, h.remain⟩
      · simp only [hin]
        exact h

theorem seated_step {s : GameRound φ} (h : Seated s) (e : RoundEvent φ) : Seated (s.step e) := by
  cases e with
  | setActIndex actIndex => exact seated_setActIndex h actIndex
  | setStatus status => exact seated_setStatus h status
  | gameTimerCallback =>
      have hremain := h.remain
      by_cases hwait : 1 < s.m_operateRemain
      · rw [step, gameTimerCallback_waits s hwait]
        exact ⟨h.seat, h.status, by dsimp only; omega, by dsimp only; omega⟩
      · have hnext := seated_setActIndex h (.number (increase s.m_actIndex))
        rw [step, gameTimerCallback_expired s (by omega)]
        exact ⟨hnext.seat, hnext.status, one_le_operateRemain, Int.le_refl _⟩
  | request actData =>
      rw [step, dealActRequest_refuses]
      exact h

theorem seated_foldl (es : List (RoundEvent φ)) {s : GameRound φ} (h : Seated s) :
    Seated (es.foldl step s) := by
  induction es generalizing s with
  | nil => exact h
  | cons e es ih => exact ih (seated_step h e)

theorem seated_reached (es : List (RoundEvent φ)) : Seated (reached es) :=
  seated_foldl es seated_init

end GameRound
end Doudizhu.Game
