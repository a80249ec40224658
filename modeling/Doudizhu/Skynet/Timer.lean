import Doudizhu.Lib.TimingWheel
import Mathlib.Logic.Function.Basic
import Mathlib.Tactic.IntervalCases
import Mathlib.Tactic.NormNum

/-! # The timer of the server

`skynet_timer.c` keeps the pending timers in a wheel of 256 lists, `near`, and four of 64, `t`.
Times are 32 bits wide and wrap.  `Shows T now ps` says that the wheel `T` is the layout of the
timers `ps` at tick `now`, both counted without wrapping; adding, a tick and taking the current
list keep it. -/

set_option autoImplicit false

namespace Doudizhu.Skynet

structure TimerEvent where
  handle : UInt32
  session : Int32
  deriving DecidableEq, Repr

structure TimerNode where
  event : TimerEvent
  expire : UInt32
  deriving DecidableEq, Repr

/-- `link_list` is the list of its nodes, oldest first. -/
structure Timer where
  near : ℕ → List TimerNode
  t : ℕ → ℕ → List TimerNode
  time : UInt32
  current : UInt64
  currentPoint : UInt64

namespace Timer

def timeNear : UInt32 := (1 : UInt32) <<< 8
def timeLevel : UInt32 := (1 : UInt32) <<< 6
def timeNearMask : UInt32 := timeNear - 1
def timeLevelMask : UInt32 := timeLevel - 1

def linkNear (T : Timer) (idx : ℕ) (node : TimerNode) : Timer :=
  { T with near := Function.update T.near idx (T.near idx ++ [node]) }

def linkLevel (T : Timer) (i idx : ℕ) (node : TimerNode) : Timer :=
  { T with t := Function.update T.t i (Function.update (T.t i) idx (T.t i idx ++ [node])) }

/-- The loop over the masks: the first level at which both times agree above the mask, else 3. -/
def levelLoop (time currentTime : UInt32) : ℕ → ℕ → UInt32 → ℕ
  | 0, i, _ => i
  | n + 1, i, mask =>
      if time ||| (mask - 1) = currentTime ||| (mask - 1) then i
      else levelLoop time currentTime n (i + 1) (mask <<< 6)

def addNode (T : Timer) (node : TimerNode) : Timer :=
  if node.expire ||| timeNearMask = T.time ||| timeNearMask then
    linkNear T (node.expire &&& timeNearMask).toNat node
  else
    let i := levelLoop node.expire T.time 3 0 (timeNear <<< 6)
    linkLevel T i ((node.expire >>> UInt32.ofNat (8 + i * 6)) &&& timeLevelMask).toNat node

def timerAdd (T : Timer) (event : TimerEvent) (time : Int32) : Timer :=
  addNode T ⟨event, time.toUInt32 + T.time⟩

def moveList (T : Timer) (level idx : ℕ) : Timer :=
  (T.t level idx).foldl addNode
    { T with t := Function.update T.t level (Function.update (T.t level) idx []) }

/-- The loop of `timer_shift`; a nonzero `ct` leaves it within four turns. -/
def shiftLoop (T : Timer) (ct : UInt32) : ℕ → UInt32 → UInt32 → ℕ → Timer
  | 0, _, _, _ => T
  | n + 1, mask, time, i =>
      if ct &&& (mask - 1) = 0 then
        if time &&& timeLevelMask ≠ 0 then moveList T i (time &&& timeLevelMask).toNat
        else shiftLoop T ct n (mask <<< 6) (time >>> 6) (i + 1)
      else T

def timerShift (T : Timer) : Timer :=
  let ct := T.time + 1
  let T := { T with time := ct }
  if ct = 0 then moveList T 3 0 else shiftLoop T ct 4 timeNear (ct >>> 8) 0

/-- `link_clear` of the list the clock points at, as `timer_execute` does it. -/
def currentList (T : Timer) : List TimerNode := T.near (T.time &&& timeNearMask).toNat

def clearCurrent (T : Timer) : Timer :=
  { T with near := Function.update T.near (T.time &&& timeNearMask).toNat [] }

def timerCreateTimer : Timer where
  near := fun _ => []
  t := fun _ _ => []
  time := 0
  current := 0
  currentPoint := 0

/-! ## The wheel in ticks -/

/-- The ticks of a slot: 1, 2^8, 2^14, 2^20 and 2^26. -/
def slotUnit : ℕ → ℕ
  | 0 => 1
  | k + 1 => 2 ^ (8 + 6 * k)

theorem slotUnit_pos (k : ℕ) : 0 < slotUnit k := by
  cases k with
  | zero => exact Nat.one_pos
  | succ k => exact Nat.two_pow_pos _

theorem slotUnit_dvd (k : ℕ) : slotUnit k ∣ slotUnit (k + 1) := by
  cases k with
  | zero => exact Nat.one_dvd _
  | succ k => exact Nat.pow_dvd_pow 2 (by omega)

def wheel : TimingWheel where
  unit := slotUnit
  top := 4
  unit_zero := rfl
  unit_pos := slotUnit_pos
  unit_dvd := slotUnit_dvd

def bucket (T : Timer) : ℕ × ℕ → List TimerNode
  | (0, j) => T.near j
  | (i + 1, j) => T.t i j

def nodeOf (p : ℕ × TimerEvent) : TimerNode := ⟨p.2, UInt32.ofNat p.1⟩

/-- Not yet due, and by less than `2^31` ticks. -/
def Ahead (now due : ℕ) : Prop := now ≤ due ∧ due < now + 2 ^ 31

structure Shows (T : Timer) (now : ℕ) (ps : List (ℕ × TimerEvent)) : Prop where
  time : T.time = UInt32.ofNat now
  bucket : ∀ b, T.bucket b = (wheel.layout now ps b).map nodeOf

theorem shows_create : Shows timerCreateTimer 0 [] where
  time := rfl
  bucket := fun b => by
    obtain ⟨i, j⟩ := b
    cases i <;> rfl

/-! ## Comparing under a mask -/

theorem nat_or_mask_eq_iff (a b k : ℕ) :
    a ||| (2 ^ k - 1) = b ||| (2 ^ k - 1) ↔ a / 2 ^ k = b / 2 ^ k := by
  constructor
  · intro h
    apply Nat.eq_of_testBit_eq
    intro i
    have hbit := congrArg (fun n => n.testBit (i + k)) h
    simp only [Nat.testBit_or, Nat.testBit_two_pow_sub_one] at hbit
    have hk : ¬ i + k < k := by omega
    simpa [hk, Nat.testBit_div_two_pow] using hbit
  · intro h
    apply Nat.eq_of_testBit_eq
    intro i
    simp only [Nat.testBit_or, Nat.testBit_two_pow_sub_one]
    by_cases hi : i < k
    · simp [hi]
    · have hbit := congrArg (fun n => n.testBit (i - k)) h
      simp only [Nat.testBit_div_two_pow, Nat.sub_add_cancel (Nat.le_of_not_lt hi)] at hbit
      rw [hbit]

theorem or_mask_eq_iff (a b mask : UInt32) (k : ℕ) (hmask : mask.toNat = 2 ^ k - 1) :
    a ||| mask = b ||| mask ↔ a.toNat / 2 ^ k = b.toNat / 2 ^ k := by
  rw [← nat_or_mask_eq_iff, ← UInt32.toNat_inj, UInt32.toNat_or, UInt32.toNat_or, hmask]

theorem toNat_and_lowBits (a mask : UInt32) (k : ℕ) (hmask : mask.toNat = 2 ^ k - 1) :
    (a &&& mask).toNat = a.toNat % 2 ^ k := by
  rw [UInt32.toNat_and, hmask, Nat.and_two_pow_sub_one_eq_mod]

/-- Within `2^31` ticks, times that agree above 26 bits or fewer after wrapping agree unwrapped. -/
theorem sameTurn_iff {now due k : ℕ} (h : Ahead now due) (hk : k < 4) :
    (UInt32.ofNat due).toNat / 2 ^ (8 + 6 * k) = (UInt32.ofNat now).toNat / 2 ^ (8 + 6 * k) ↔
      wheel.SameTurn k now due := by
  obtain ⟨hlo, hhi⟩ := h
  simp only [TimingWheel.SameTurn, wheel, slotUnit, UInt32.toNat_ofNat']
  interval_cases k <;> norm_num at * <;> omega

theorem reaches_of_ahead {now due : ℕ} (h : Ahead now due) : wheel.Reaches now due := by
  obtain ⟨hlo, hhi⟩ := h
  refine ⟨hlo, ?_⟩
  simp only [TimingWheel.slots, wheel, slotUnit]
  norm_num at *
  omega

/-! ## Where a node is linked -/

def linkAt (T : Timer) (b : ℕ × ℕ) (node : TimerNode) : Timer :=
  match b with
  | (0, j) => linkNear T j node
  | (i + 1, j) => linkLevel T i j node

theorem bucket_linkAt (T : Timer) (b c : ℕ × ℕ) (node : TimerNode) :
    (T.linkAt b node).bucket c = T.bucket c ++ if b = c then [node] else [] := by
  obtain ⟨i, j⟩ := b
  obtain ⟨k, l⟩ := c
  cases i with
  | zero =>
      cases k with
      | zero =>
          by_cases hj : j = l
          · subst hj
            simp [linkAt, bucket, linkNear]
          · simp [linkAt, bucket, linkNear, hj, Function.update_of_ne (Ne.symm hj)]
      | succ k => simp [linkAt, bucket, linkNear]
  | succ i =>
      cases k with
      | zero => simp [linkAt, bucket, linkLevel]
      | succ k =>
          by_cases hi : i = k
          · subst hi
            by_cases hj : j = l
            · subst hj
              simp [linkAt, bucket, linkLevel]
            · simp [linkAt, bucket, linkLevel, hj, Function.update_of_ne (Ne.symm hj)]
          · simp [linkAt, bucket, linkLevel, hi, Function.update_of_ne (Ne.symm hi)]

theorem time_linkAt (T : Timer) (b : ℕ × ℕ) (node : TimerNode) :
    (T.linkAt b node).time = T.time := by
  obtain ⟨i, j⟩ := b
  cases i <;> rfl

theorem level_eq (now due : ℕ) : wheel.level now due =
    if wheel.SameTurn 0 now due then 0 else if wheel.SameTurn 1 now due then 1
    else if wheel.SameTurn 2 now due then 2 else if wheel.SameTurn 3 now due then 3 else 4 := by
  apply wheel.level_eq_iff.mpr
  have htop : wheel.top = 4 := rfl
  rw [htop]
  split_ifs <;> refine ⟨by simp [*], fun j hj => ?_⟩ <;> interval_cases j <;> simp [*]

theorem masked_iff {now due k : ℕ} (mask : UInt32) (h : Ahead now due) (hk : k < 4)
    (hmask : mask.toNat = 2 ^ (8 + 6 * k) - 1) :
    UInt32.ofNat due ||| mask = UInt32.ofNat now ||| mask ↔ wheel.SameTurn k now due := by
  rw [or_mask_eq_iff _ _ mask _ hmask, sameTurn_iff h hk]

theorem levelLoop_eq {now due : ℕ} (h : Ahead now due) :
    levelLoop (UInt32.ofNat due) (UInt32.ofNat now) 3 0 (timeNear <<< 6) =
      if wheel.SameTurn 1 now due then 0 else if wheel.SameTurn 2 now due then 1
      else if wheel.SameTurn 3 now due then 2 else 3 := by
  have h1 := masked_iff ((timeNear <<< 6) - 1) h (show 1 < 4 by decide) (by decide)
  have h2 := masked_iff ((timeNear <<< 6 <<< 6) - 1) h (show 2 < 4 by decide) (by decide)
  have h3 := masked_iff ((timeNear <<< 6 <<< 6 <<< 6) - 1) h (show 3 < 4 by decide) (by decide)
  simp only [levelLoop, h1, h2, h3]

theorem toNat_level_index (due i : ℕ) (hi : i < 4) :
    ((UInt32.ofNat due >>> UInt32.ofNat (8 + i * 6)) &&& timeLevelMask).toNat =
      due / wheel.unit (i + 1) % wheel.slots (i + 1) := by
  rw [toNat_and_lowBits _ _ 6 rfl, UInt32.toNat_shiftRight]
  simp only [wheel, slotUnit, TimingWheel.slots, UInt32.toNat_ofNat']
  interval_cases i <;> norm_num [Nat.shiftRight_eq_div_pow] <;> omega

theorem toNat_near_index (due : ℕ) :
    (UInt32.ofNat due &&& timeNearMask).toNat = due / wheel.unit 0 % wheel.slots 0 := by
  rw [toNat_and_lowBits _ _ 8 rfl]
  simp only [wheel, slotUnit, TimingWheel.slots, UInt32.toNat_ofNat']
  norm_num

/-- `add_node` links into the slot of the wheel, before and after the clock wraps. -/
theorem addNode_eq (T : Timer) {now : ℕ} (p : ℕ × TimerEvent) (htime : T.time = UInt32.ofNat now)
    (h : Ahead now p.1) : addNode T (nodeOf p) = T.linkAt (wheel.slot now p.1) (nodeOf p) := by
  have hlevel := level_eq now p.1
  simp only [addNode, nodeOf, htime, levelLoop_eq h,
    masked_iff timeNearMask h (show 0 < 4 by decide) rfl]
  by_cases h0 : wheel.SameTurn 0 now p.1
  · rw [if_pos h0] at hlevel
    rw [if_pos h0, TimingWheel.slot, hlevel, toNat_near_index]
    rfl
  · rw [if_neg h0] at hlevel
    rw [if_neg h0, TimingWheel.slot]
    split_ifs at hlevel ⊢ <;> rw [hlevel, toNat_level_index _ _ (by decide)] <;> rfl

theorem time_addNode (T : Timer) {now : ℕ} (p : ℕ × TimerEvent) (htime : T.time = UInt32.ofNat now)
    (h : Ahead now p.1) : (addNode T (nodeOf p)).time = UInt32.ofNat now := by
  rw [addNode_eq T p htime h, time_linkAt, htime]

/-- Nodes linked one after another go to the ends of their slots in that order. -/
theorem bucket_foldl_addNode {now : ℕ} : ∀ (ps : List (ℕ × TimerEvent)) (T : Timer)
    (b : ℕ × ℕ), T.time = UInt32.ofNat now → (∀ p ∈ ps, Ahead now p.1) →
    (((ps.map nodeOf).foldl addNode T).time = UInt32.ofNat now) ∧
    ((ps.map nodeOf).foldl addNode T).bucket b =
      T.bucket b ++ (wheel.layout now ps b).map nodeOf := by
  intro ps
  induction ps with
  | nil => intro T b htime _; exact ⟨htime, (List.append_nil _).symm⟩
  | cons p ps ih =>
      intro T b htime hps
      have hp := hps p List.mem_cons_self
      obtain ⟨htime', hbucket⟩ := ih (addNode T (nodeOf p)) b (time_addNode T p htime hp)
        fun q hq => hps q (List.mem_cons_of_mem _ hq)
      refine ⟨htime', ?_⟩
      rw [List.map_cons, List.foldl_cons, hbucket, addNode_eq T p htime hp, bucket_linkAt,
        List.append_assoc]
      congr 1
      have hcons : p :: ps = [p] ++ ps := rfl
      rw [hcons, wheel.layout_append, List.map_append, wheel.layout_singleton]
      congr 1
      split <;> rfl

/-! ## A tick -/

theorem cascade_eq (n : ℕ) : wheel.cascade n =
    if 2 ^ 26 ∣ n then 4 else if 2 ^ 20 ∣ n then 3 else if 2 ^ 14 ∣ n then 2
    else if 2 ^ 8 ∣ n then 1 else 0 := by
  simp only [TimingWheel.cascade, wheel, slotUnit, Nat.findGreatest]
  rfl

theorem masked_eq_zero_iff (n k : ℕ) (mask : UInt32) (hk : k < 4)
    (hmask : mask.toNat = 2 ^ (8 + 6 * k) - 1) :
    UInt32.ofNat n &&& mask = 0 ↔ 2 ^ (8 + 6 * k) ∣ n := by
  rw [← UInt32.toNat_inj, toNat_and_lowBits _ mask _ hmask, UInt32.toNat_ofNat', UInt32.toNat_zero]
  interval_cases k <;> norm_num <;> omega

theorem toNat_shift_index (n k : ℕ) (time : UInt32) (hk : k < 4)
    (htime : time.toNat = n % 2 ^ 32 / 2 ^ (8 + 6 * k)) :
    (time &&& timeLevelMask).toNat = n / 2 ^ (8 + 6 * k) % 64 := by
  rw [toNat_and_lowBits _ _ 6 rfl, htime]
  interval_cases k <;> norm_num at * <;> omega

theorem beginning_snd {n k : ℕ} (hc : wheel.cascade n = k + 1) :
    (wheel.beginning n).2 = n / 2 ^ (8 + 6 * k) % 64 := by
  have hslots : wheel.slots (k + 1) = 64 := by
    simp only [TimingWheel.slots, wheel, slotUnit]
    rw [Nat.pow_div (by omega) (by decide)]
    have hdiff : 8 + 6 * (k + 1) - (8 + 6 * k) = 6 := by omega
    rw [hdiff]
  rw [TimingWheel.beginning, hc, hslots]
  rfl

theorem toNat_shiftRight_six (n k : ℕ) (time : UInt32)
    (htime : time.toNat = n % 2 ^ 32 / 2 ^ (8 + 6 * k)) :
    (time >>> 6).toNat = n % 2 ^ 32 / 2 ^ (8 + 6 * (k + 1)) := by
  have hsplit : 2 ^ (8 + 6 * (k + 1)) = 2 ^ (8 + 6 * k) * 2 ^ 6 := by
    rw [← Nat.pow_add]
    rfl
  rw [UInt32.toNat_shiftRight, htime, hsplit, ← Nat.div_div_eq_div_mul]
  simp [Nat.shiftRight_eq_div_pow]

/-- The slot `timer_shift` empties is the one that begins at the new tick, if any does. -/
theorem timerShift_eq (T : Timer) {now : ℕ} (htime : T.time = UInt32.ofNat now) :
    timerShift T = if wheel.cascade (now + 1) = 0 then { T with time := UInt32.ofNat (now + 1) }
      else moveList { T with time := UInt32.ofNat (now + 1) } (wheel.cascade (now + 1) - 1)
        (wheel.beginning (now + 1)).2 := by
  have hct : T.time + 1 = UInt32.ofNat (now + 1) := by
    rw [htime, UInt32.ofNat_add]
    rfl
  have t0 : (UInt32.ofNat (now + 1) >>> 8).toNat = (now + 1) % 2 ^ 32 / 2 ^ (8 + 6 * 0) := by
    simp [Nat.shiftRight_eq_div_pow]
  have t1 := toNat_shiftRight_six (now + 1) 0 _ t0
  have t2 := toNat_shiftRight_six (now + 1) 1 _ t1
  have t3 := toNat_shiftRight_six (now + 1) 2 _ t2
  have c0 := masked_eq_zero_iff (now + 1) 0 (timeNear - 1) (by decide) (by decide)
  have c1 := masked_eq_zero_iff (now + 1) 1 ((timeNear <<< 6) - 1) (by decide) (by decide)
  have c2 := masked_eq_zero_iff (now + 1) 2 ((timeNear <<< 6 <<< 6) - 1) (by decide) (by decide)
  have c3 := masked_eq_zero_iff (now + 1) 3 ((timeNear <<< 6 <<< 6 <<< 6) - 1) (by decide)
    (by decide)
  have i0 := toNat_shift_index (now + 1) 0 _ (by decide) t0
  have i1 := toNat_shift_index (now + 1) 1 _ (by decide) t1
  have i2 := toNat_shift_index (now + 1) 2 _ (by decide) t2
  have i3 := toNat_shift_index (now + 1) 3 _ (by decide) t3
  have hcascade := cascade_eq (now + 1)
  have hzero : UInt32.ofNat (now + 1) = 0 ↔ 2 ^ 32 ∣ now + 1 := by
    rw [← UInt32.toNat_inj, UInt32.toNat_ofNat', UInt32.toNat_zero]
    omega
  simp only [timerShift, hct, hzero]
  simp only [shiftLoop, c0, c1, c2, c3, ne_eq, ← UInt32.toNat_inj, i0, i1, i2, i3,
    UInt32.toNat_zero]
  generalize ({ T with time := UInt32.ofNat (now + 1) } : Timer) = T'
  split_ifs at hcascade with h26 h20 h14 h8
  · rw [hcascade, beginning_snd hcascade, if_neg (show ¬ (4 : ℕ) = 0 by decide)]
    by_cases h32 : 2 ^ 32 ∣ now + 1
    · have hidx : (now + 1) / 2 ^ (8 + 6 * 3) % 64 = 0 := by omega
      rw [if_pos h32, hidx]
    · rw [if_neg h32, if_pos (by omega), if_neg (by omega), if_pos (by omega), if_neg (by omega),
        if_pos (by omega), if_neg (by omega), if_pos (by omega), if_pos (by omega)]
  · rw [hcascade, beginning_snd hcascade, if_neg (show ¬ (3 : ℕ) = 0 by decide),
      if_neg (by omega), if_pos (by omega), if_neg (by omega), if_pos (by omega),
      if_neg (by omega), if_pos (by omega), if_pos (by omega)]
  · rw [hcascade, beginning_snd hcascade, if_neg (show ¬ (2 : ℕ) = 0 by decide),
      if_neg (by omega), if_pos (by omega), if_neg (by omega), if_pos (by omega),
      if_pos (by omega)]
  · rw [hcascade, beginning_snd hcascade, if_neg (show ¬ (1 : ℕ) = 0 by decide),
      if_neg (by omega), if_pos (by omega), if_pos (by omega)]
  · rw [hcascade, if_neg (by omega), if_neg (by omega), if_pos rfl]

/-! ## What the operations keep -/

theorem shows_addNode {T : Timer} {now : ℕ} {ps : List (ℕ × TimerEvent)} (h : Shows T now ps)
    (p : ℕ × TimerEvent) (hp : Ahead now p.1) : Shows (addNode T (nodeOf p)) now (ps ++ [p]) where
  time := time_addNode T p h.time hp
  bucket := fun b => by
    rw [addNode_eq T p h.time hp, bucket_linkAt, h.bucket, wheel.layout_append, List.map_append,
      wheel.layout_singleton]
    congr 1
    split <;> rfl

theorem bucket_clear (T : Timer) (i j : ℕ) (b : ℕ × ℕ) :
    ({ T with t := Function.update T.t i (Function.update (T.t i) j []) } : Timer).bucket b =
      if b = (i + 1, j) then [] else T.bucket b := by
  obtain ⟨k, l⟩ := b
  cases k with
  | zero => simp [bucket]
  | succ k =>
      by_cases hk : k = i
      · subst hk
        by_cases hl : l = j
        · subst hl
          simp [bucket]
        · simp [bucket, hl]
      · simp [bucket, hk]

/-- One tick moves the clock and deals out the slot that begins, when nothing is due before it. -/
theorem shows_timerShift {T : Timer} {now : ℕ} {ps : List (ℕ × TimerEvent)} (h : Shows T now ps)
    (hps : ∀ p ∈ ps, now < p.1 ∧ Ahead now p.1) : Shows (timerShift T) (now + 1) ps := by
  have hreach : ∀ p ∈ ps, now < p.1 ∧ wheel.Reaches now p.1 :=
    fun p hp => ⟨(hps p hp).1, reaches_of_ahead (hps p hp).2⟩
  rw [timerShift_eq T h.time]
  split
  · rename_i hc
    refine ⟨rfl, fun b => ?_⟩
    rw [wheel.layout_tick_of_cascade_eq_zero now ps b (by decide) hc hreach]
    exact h.bucket b
  · rename_i hc
    have hpos : 0 < wheel.cascade (now + 1) := Nat.pos_of_ne_zero hc
    have hslot : (wheel.cascade (now + 1) - 1 + 1, (wheel.beginning (now + 1)).2) =
        wheel.beginning (now + 1) := by
      rw [Nat.sub_add_cancel hpos]
      rfl
    have hlist : T.t (wheel.cascade (now + 1) - 1) (wheel.beginning (now + 1)).2 =
        (wheel.layout now ps (wheel.beginning (now + 1))).map nodeOf := by
      rw [← hslot]
      exact h.bucket (_ + 1, _)
    have hahead : ∀ p ∈ wheel.layout now ps (wheel.beginning (now + 1)), Ahead (now + 1) p.1 := by
      intro p hp
      obtain ⟨hlt, -, hhi⟩ := hps p (List.mem_filter.mp hp).1
      exact ⟨hlt, by omega⟩
    have hfold := fun b => bucket_foldl_addNode _
      { T with
        time := UInt32.ofNat (now + 1)
        t := Function.update T.t (wheel.cascade (now + 1) - 1)
          (Function.update (T.t (wheel.cascade (now + 1) - 1)) (wheel.beginning (now + 1)).2 []) }
      b rfl hahead
    rw [← hlist] at hfold
    refine ⟨(hfold (0, 0)).1, fun b => ?_⟩
    refine (hfold b).2.trans ?_
    rw [wheel.layout_tick now ps b hpos hreach, List.map_append]
    congr 1
    have hclear := bucket_clear { T with time := UInt32.ofNat (now + 1) }
      (wheel.cascade (now + 1) - 1) (wheel.beginning (now + 1)).2 b
    rw [hslot] at hclear
    refine hclear.trans ?_
    split
    · rfl
    · exact h.bucket b

/-- What the wheel never touches. -/
def clock (T : Timer) : UInt64 × UInt64 := (T.current, T.currentPoint)

theorem clock_addNode (T : Timer) (node : TimerNode) : (addNode T node).clock = T.clock := by
  unfold addNode
  split <;> rfl

theorem clock_moveList (T : Timer) (level idx : ℕ) : (moveList T level idx).clock = T.clock := by
  have hfold : ∀ (nodes : List TimerNode) (T' : Timer),
      (nodes.foldl addNode T').clock = T'.clock := by
    intro nodes
    induction nodes with
    | nil => intro T'; rfl
    | cons node nodes ih => intro T'; rw [List.foldl_cons, ih, clock_addNode]
  exact hfold _ _

theorem clock_timerShift (T : Timer) : (timerShift T).clock = T.clock := by
  have hloop : ∀ (n : ℕ) (T' : Timer) (ct mask time : UInt32) (i : ℕ),
      (shiftLoop T' ct n mask time i).clock = T'.clock := by
    intro n
    induction n with
    | zero => intro T' ct mask time i; rfl
    | succ n ih =>
        intro T' ct mask time i
        rw [shiftLoop]
        split_ifs
        · exact clock_moveList ..
        · exact ih ..
        · rfl
  rw [timerShift]
  split
  · exact clock_moveList ..
  · exact hloop ..

theorem currentList_eq {T : Timer} {now : ℕ} {ps : List (ℕ × TimerEvent)} (h : Shows T now ps) :
    currentList T = (ps.filter fun p => decide (p.1 = now)).map nodeOf := by
  have hidx := toNat_near_index now
  rw [TimingWheel.unit_zero, Nat.div_one] at hidx
  rw [currentList, h.time, hidx, ← wheel.layout_current (by decide) now ps]
  exact h.bucket (0, _)

theorem shows_clearCurrent {T : Timer} {now : ℕ} {ps : List (ℕ × TimerEvent)}
    (h : Shows T now ps) :
    Shows (clearCurrent T) now (ps.filter fun p => decide (p.1 ≠ now)) where
  time := h.time
  bucket := fun b => by
    have hidx := toNat_near_index now
    rw [TimingWheel.unit_zero, Nat.div_one] at hidx
    rw [wheel.layout_filter_ne (by decide), clearCurrent, h.time, hidx]
    obtain ⟨i, j⟩ := b
    cases i with
    | zero =>
        by_cases hj : j = now % wheel.slots 0
        · subst hj
          simp [bucket]
        · have hb := h.bucket (0, j)
          simp only [bucket] at hb ⊢
          rw [Function.update_of_ne hj, hb, if_neg (by simpa using hj)]
    | succ i =>
        rw [if_neg (by simp)]
        exact h.bucket (i + 1, j)

end Timer
end Doudizhu.Skynet
