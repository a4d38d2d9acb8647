import Mathlib.Algebra.Order.Field.Basic
import Mathlib.Algebra.Order.Floor.Ring
import Mathlib.Tactic.Positivity
import Mathlib.Tactic.Linarith

/-!
# Continuous accrual up to a capacity

The arithmetic under every token bucket: a balance grows at a constant rate and
never past its capacity.  Accrual adds at most what was earned, and takes nothing
away from a balance that was within its capacity.
-/

namespace RateLimiter.Foundations

variable {K : Type*} [Field K] [LinearOrder K]

/-- The balance after `elapsed` units of time at `rate`. -/
def accrue (capacity rate elapsed balance : K) : K :=
  min (balance + elapsed * rate) capacity

theorem accrue_le_capacity (capacity rate elapsed balance : K) :
    accrue capacity rate elapsed balance ≤ capacity := min_le_right _ _

theorem accrue_le_add (capacity rate elapsed balance : K) :
    accrue capacity rate elapsed balance ≤ balance + elapsed * rate := min_le_left _ _

/-- Accrual takes nothing away from a balance within the capacity. -/
theorem le_accrue [IsStrictOrderedRing K] {capacity rate elapsed balance : K} (hrate : 0 ≤ rate)
    (helapsed : 0 ≤ elapsed) (hbalance : balance ≤ capacity) :
    balance ≤ accrue capacity rate elapsed balance := by
  have hearned : 0 ≤ elapsed * rate := mul_nonneg helapsed hrate
  exact le_min (by linarith) hbalance

/-- A balance that has earned the whole capacity is full. -/
theorem accrue_of_full {capacity rate elapsed balance : K}
    (h : capacity ≤ balance + elapsed * rate) : accrue capacity rate elapsed balance = capacity :=
  min_eq_right h

/-- Accruing in two stages is accruing at once. -/
theorem accrue_accrue [IsStrictOrderedRing K] {capacity rate first second : K}
    (hrate : 0 ≤ rate) (hsecond : 0 ≤ second) (balance : K) :
    accrue capacity rate second (accrue capacity rate first balance) =
      accrue capacity rate (first + second) balance := by
  have hearned : 0 ≤ second * rate := mul_nonneg hsecond hrate
  have hsplit : balance + (first + second) * rate = balance + first * rate + second * rate := by
    rw [add_mul, ← add_assoc]
  unfold accrue
  rw [hsplit]
  -- Once at the capacity the second stage cannot leave it.
  rcases le_total (balance + first * rate) capacity with hbelow | habove
  · rw [min_eq_left hbelow]
  · rw [min_eq_right habove, min_eq_right (by linarith), min_eq_right (by linarith)]

/-- Within the capacity a need is covered once enough is earned. -/
theorem le_accrue_iff {need capacity rate elapsed balance : K} (hneed : need ≤ capacity) :
    need ≤ accrue capacity rate elapsed balance ↔ need ≤ balance + elapsed * rate := by
  simp [accrue, hneed]

/-- How long a need has to wait, in whole parts of a unit of time: the deficit over the rate,
rounded up, no part less and no part more. -/
theorem le_accrue_iff_wait [IsStrictOrderedRing K] [FloorRing K]
    {need capacity rate parts balance : K} (hrate : 0 < rate) (hparts : 0 < parts)
    (hneed : need ≤ capacity) (t : Int) :
    need ≤ accrue capacity rate (t / parts) balance ↔
      ⌈(need - balance) / rate * parts⌉ ≤ t := by
  rw [le_accrue_iff hneed, Int.ceil_le]
  have hdeficit : (need - balance) / rate * parts ≤ t ↔ need - balance ≤ t / parts * rate := by
    rw [← le_div_iff₀ hparts, div_le_iff₀ hrate]
  rw [hdeficit, sub_le_iff_le_add']

/-- The whole units of a balance stay as many until the wait for the next one is over. -/
theorem floor_accrue_eq_iff [IsStrictOrderedRing K] [FloorRing K]
    {capacity rate parts balance : K} (hrate : 0 < rate) (hparts : 0 < parts)
    (hroom : (⌊balance⌋ : K) + 1 ≤ capacity) {t : Int} (ht : 0 ≤ t) :
    ⌊accrue capacity rate (t / parts) balance⌋ = ⌊balance⌋ ↔
      t < ⌈((⌊balance⌋ : K) + 1 - balance) / rate * parts⌉ := by
  have helapsed : 0 ≤ (t : K) / parts := div_nonneg (by exact_mod_cast ht) hparts.le
  have hbalance : balance ≤ capacity := (Int.lt_floor_add_one balance).le.trans hroom
  have hgrows : (⌊balance⌋ : K) ≤ accrue capacity rate (t / parts) balance :=
    (Int.floor_le balance).trans (le_accrue hrate.le helapsed hbalance)
  rw [Int.floor_eq_iff, and_iff_right hgrows, ← not_le, le_accrue_iff_wait hrate hparts hroom,
    not_le]

/-- With a whole capacity they stay as many for ever when they fill it, and when there are
more they are cut down. -/
theorem floor_accrue_intCast_eq_iff [IsStrictOrderedRing K] [FloorRing K] (capacity : Int)
    {rate parts : K} (balance : K) (hrate : 0 < rate) (hparts : 0 < parts) {t : Int}
    (ht : 0 ≤ t) :
    ⌊accrue (capacity : K) rate (t / parts) balance⌋ = ⌊balance⌋ ↔
      ⌊balance⌋ = capacity ∨ (⌊balance⌋ < capacity ∧
        t < ⌈((⌊balance⌋ : K) + 1 - balance) / rate * parts⌉) := by
  rcases lt_or_ge ⌊balance⌋ capacity with hroom | hfull
  · have hcapacity : (⌊balance⌋ : K) + 1 ≤ capacity := by exact_mod_cast hroom
    rw [floor_accrue_eq_iff hrate hparts hcapacity ht]
    simp [hroom, hroom.ne]
  · have hbalance : (capacity : K) ≤ balance := Int.le_floor.mp hfull
    have hgrown : 0 ≤ (t : K) / parts * rate :=
      mul_nonneg (div_nonneg (by exact_mod_cast ht) hparts.le) hrate.le
    rw [accrue_of_full (hbalance.trans (le_add_of_nonneg_right hgrown)), Int.floor_intCast]
    simp [hfull.not_gt, eq_comm]

end RateLimiter.Foundations
