import Mathlib.Data.UInt
import Mathlib.Data.List.Basic
import Mathlib.Logic.Function.Iterate
import Mathlib.Tactic.SplitIfs

/-!
# The timer (`timer.c`)

* `Timer`: the counter of 32 bits, and how often it was incremented; `interrupts`: timer interrupts.
* `sleep`: the loop, with the number of interrupts that come before each poll.
* `sleepLoop_some`: what is known when the loop ends; `sleep_returns`: when it does.
* **`sleep_iff`**: when it waits long enough.
-/

namespace C4os

/-- `_pit_ticks`, and the number of calls of `inc_pit_ticks`. -/
structure Timer where
  pitTicks : UInt32
  counted : Nat
deriving DecidableEq

/-- `inc_pit_ticks`. -/
def Timer.incPitTicks (t : Timer) : Timer := ⟨t.pitTicks + 1, t.counted + 1⟩

/-- `get_tick_count`. -/
def Timer.getTickCount (t : Timer) : UInt32 := t.pitTicks

/-- `n` timer interrupts. -/
def Timer.interrupts (n : Nat) (t : Timer) : Timer := Timer.incPitTicks^[n] t

/-- The loop of `sleep`, with the interrupts before each poll; `none` is a call that has not returned.
The `int` is converted for the comparison. -/
def sleepLoop (ticks : Int32) : List Nat → Timer → Option Timer
  | [], _ => none
  | n :: arrivals, t =>
    if ticks.toUInt32 > (t.interrupts n).getTickCount then sleepLoop ticks arrivals (t.interrupts n)
    else some (t.interrupts n)

/-- `sleep`. -/
def sleep (ms : Int32) (arrivals : List Nat) (t : Timer) : Option Timer :=
  sleepLoop (ms.toUInt32 + t.getTickCount).toInt32 arrivals t

/-- The call does not return before `ms` ticks have been counted. -/
def SleepsLongEnough (ms : Int32) (arrivals : List Nat) (t : Timer) : Prop :=
  ∀ t', sleep ms arrivals t = some t' → t.counted + ms.toInt.toNat ≤ t'.counted

variable {t t' : Timer} {ms ticks : Int32} {arrivals later : List Nat} {n first : Nat}

@[simp] theorem interrupts_counted (n : Nat) (t : Timer) :
    (t.interrupts n).counted = t.counted + n := by
  unfold Timer.interrupts
  induction n generalizing t with
  | zero => rfl
  | succ n ih =>
    rw [Function.iterate_succ_apply, ih]
    show t.counted + 1 + n = _
    omega

theorem interrupts_pitTicks (n : Nat) (t : Timer) :
    (t.interrupts n).pitTicks.toNat = (t.pitTicks.toNat + n) % 2 ^ 32 := by
  unfold Timer.interrupts
  induction n generalizing t with
  | zero => exact (Nat.mod_eq_of_lt t.pitTicks.toNat_lt).symm
  | succ n ih =>
    have hinc : t.incPitTicks.pitTicks.toNat = (t.pitTicks.toNat + 1) % 2 ^ 32 :=
      UInt32.toNat_add t.pitTicks 1
    rw [Function.iterate_succ_apply, ih, hinc]
    omega

theorem toNat_toUInt32 (h : 0 ≤ ms) : ms.toUInt32.toNat = ms.toInt.toNat := by
  have hpos : 0 ≤ ms.toBitVec.toInt := Int32.le_iff_toInt_le.mp h
  show ms.toBitVec.toNat = ms.toBitVec.toInt.toNat
  rw [BitVec.toInt_eq_toNat_cond] at hpos ⊢
  have hlt := ms.toBitVec.isLt
  split_ifs at hpos ⊢ <;> omega

/-- **When the loop ends**: some ticks have come, those before the first poll among them, and the
counter is not below `ticks`. -/
theorem sleepLoop_some (h : sleepLoop ticks arrivals t = some t') :
    ∃ n, n ≤ arrivals.sum ∧ arrivals.headD 0 ≤ n ∧ t' = t.interrupts n ∧
      ticks.toUInt32.toNat ≤ (t.pitTicks.toNat + n) % 2 ^ 32 := by
  induction arrivals generalizing t with
  | nil => cases h
  | cons k arrivals ih =>
    rw [sleepLoop] at h
    by_cases hwait : ticks.toUInt32 > (t.interrupts k).getTickCount
    · rw [if_pos hwait] at h
      obtain ⟨n, hsum, -, rfl, hend⟩ := ih h
      refine ⟨k + n, ?_, Nat.le_add_right k n, ?_, ?_⟩
      · rw [List.sum_cons]
        omega
      · unfold Timer.interrupts
        rw [Nat.add_comm, Function.iterate_add_apply]
      · rw [interrupts_pitTicks] at hend
        omega
    · rw [if_neg hwait] at h
      refine ⟨k, ?_, Nat.le_refl k, (Option.some.inj h).symm, ?_⟩
      · rw [List.sum_cons]
        omega
      · rw [← interrupts_pitTicks]
        exact UInt32.le_iff_toNat_le.mp (UInt32.not_lt.mp hwait)

theorem toNat_ticks (h : 0 ≤ ms) (t : Timer) :
    (ms.toUInt32 + t.getTickCount).toInt32.toUInt32.toNat =
      (ms.toInt.toNat + t.pitTicks.toNat) % 2 ^ 32 := by
  rw [UInt32.toUInt32_toInt32, UInt32.toNat_add, toNat_toUInt32 h]
  rfl

theorem sleepLoop_returns (hne : arrivals ≠ []) (hfit : t.pitTicks.toNat + arrivals.sum < 2 ^ 32)
    (hreach : ticks.toUInt32.toNat ≤ t.pitTicks.toNat + arrivals.sum) :
    ∃ t', sleepLoop ticks arrivals t = some t' := by
  induction arrivals generalizing t with
  | nil => exact absurd rfl hne
  | cons k arrivals ih =>
    rw [List.sum_cons] at hfit hreach
    have hpoll : (t.interrupts k).pitTicks.toNat = t.pitTicks.toNat + k := by
      rw [interrupts_pitTicks]
      omega
    rw [sleepLoop]
    by_cases hwait : ticks.toUInt32 > (t.interrupts k).getTickCount
    · rw [if_pos hwait]
      have hlt : (t.interrupts k).pitTicks.toNat < ticks.toUInt32.toNat :=
        UInt32.lt_iff_toNat_lt.mp hwait
      apply ih
      · -- the last poll would have ended the loop
        rintro rfl
        rw [List.sum_nil] at hreach
        omega
      · omega
      · omega
    · rw [if_neg hwait]
      exact ⟨_, rfl⟩

/-- **The wait ends**: the counter has not wrapped, and the ticks have come before the last poll. -/
theorem sleep_returns (h : 0 ≤ ms) (hne : arrivals ≠ [])
    (hfit : t.pitTicks.toNat + arrivals.sum < 2 ^ 32) (hms : ms.toInt.toNat ≤ arrivals.sum) :
    ∃ t', sleep ms arrivals t = some t' := by
  unfold sleep
  apply sleepLoop_returns hne hfit
  rw [toNat_ticks h]
  omega

theorem toInt_toNat_lt (ms : Int32) : ms.toInt.toNat < 2 ^ 31 := by
  have := Int32.toInt_lt ms
  omega

/-- **`sleep` waits long enough** exactly if the sum does not wrap, or the counter wraps before the
first poll. -/
theorem sleep_iff (h : 0 ≤ ms) (first : Nat) (later : List Nat) (t : Timer)
    (hsum : first + later.sum < 2 ^ 31) :
    SleepsLongEnough ms (first :: later) t ↔
      t.pitTicks.toNat + ms.toInt.toNat < 2 ^ 32 ∨ 2 ^ 32 ≤ t.pitTicks.toNat + first := by
  have hticks := toNat_ticks h t
  have hms := toInt_toNat_lt ms
  have ht := t.pitTicks.toNat_lt
  constructor
  · intro hlong
    by_contra hnot
    rw [not_or] at hnot
    -- the first poll ends the loop: the sum has wrapped and the counter has not
    have hend : sleep ms (first :: later) t = some (t.interrupts first) := by
      unfold sleep
      rw [sleepLoop, if_neg]
      show ¬ (t.interrupts first).pitTicks < _
      rw [UInt32.lt_iff_toNat_lt, hticks, interrupts_pitTicks]
      omega
    have hcount := hlong _ hend
    rw [interrupts_counted] at hcount
    omega
  · intro hcond t' hrun
    obtain ⟨n, hn, hfirst, rfl, hend⟩ := sleepLoop_some hrun
    rw [hticks] at hend
    rw [List.sum_cons] at hn
    rw [List.headD_cons] at hfirst
    rw [interrupts_counted]
    omega

/-- One tick before each of two polls. -/
theorem sleep_iff_two : SleepsLongEnough 2 [1, 1] ⟨5, 0⟩ ↔
    (5 : UInt32).toNat + (2 : Int32).toInt.toNat < 2 ^ 32 ∨ 2 ^ 32 ≤ (5 : UInt32).toNat + 1 :=
  sleep_iff (by decide) 1 [1] ⟨5, 0⟩ (by decide)

/-- **Just before the wrap** `sleep` does not wait at all. -/
theorem sleep_returns_early : sleep 20 [0] ⟨-1, 0⟩ = some ⟨-1, 0⟩ ∧
    ¬ SleepsLongEnough 20 [0] ⟨-1, 0⟩ := by
  have hrun : sleep 20 [0] ⟨-1, 0⟩ = some ⟨-1, 0⟩ := by decide
  refine ⟨hrun, fun h => ?_⟩
  have hcount := h _ hrun
  revert hcount
  decide

end C4os
