import Mathlib.Algebra.Order.Round
import Mathlib.Data.Int.Log
import Mathlib.Data.Rat.Floor
import Mathlib.Tactic.Linarith

/-!
# Rounding to significant digits

A number is rounded to the nearest that has so many significant digits in some base, and a
tie goes to the even one.  The exponents have no bounds.
-/

namespace RateLimiter.Foundations

/-- The nearest integer, the even one of two. -/
def roundEven (q : Rat) : Int :=
  let below := ⌊q⌋
  let rest := q - below
  if rest < 1 / 2 then below
  else if 1 / 2 < rest then below + 1
  else if below % 2 = 0 then below else below + 1

/-- What the last of the digits of a number is worth. -/
def lastPlace (base digits : Nat) (q : Rat) : Rat := (base : Rat) ^ (Int.log base |q| + 1 - digits)

def roundTo (base digits : Nat) (q : Rat) : Rat :=
  roundEven (q / lastPlace base digits q) * lastPlace base digits q

@[simp] theorem roundEven_intCast (n : Int) : roundEven n = n := by
  simp [roundEven]

/-- It is the integer below, or the one above. -/
theorem roundEven_cases (q : Rat) :
    roundEven q = ⌊q⌋ ∧ q - ⌊q⌋ ≤ 1 / 2 ∨ roundEven q = ⌊q⌋ + 1 ∧ 1 / 2 ≤ q - ⌊q⌋ := by
  unfold roundEven
  dsimp only
  split
  next hlow => exact Or.inl ⟨rfl, hlow.le⟩
  next hmiddle =>
    split
    next hhigh => exact Or.inr ⟨rfl, hhigh.le⟩
    next hhalf =>
      split
      next => exact Or.inl ⟨rfl, not_lt.mp hhalf⟩
      next => exact Or.inr ⟨rfl, not_lt.mp hmiddle⟩

theorem abs_roundEven_sub_le (q : Rat) : |(roundEven q : Rat) - q| ≤ 1 / 2 := by
  have hbelow := Int.floor_le q
  have habove := Int.lt_floor_add_one q
  rw [abs_le]
  rcases roundEven_cases q with ⟨hq, hrest⟩ | ⟨hq, hrest⟩
  · rw [hq]
    constructor <;> linarith
  · rw [hq]
    push_cast
    constructor <;> linarith

theorem roundEven_mono {p q : Rat} (h : p ≤ q) : roundEven p ≤ roundEven q := by
  have hfloor : ⌊p⌋ ≤ ⌊q⌋ := Int.floor_le_floor h
  rcases hfloor.lt_or_eq with hless | hsame
  · rcases roundEven_cases p with ⟨hp, -⟩ | ⟨hp, -⟩ <;>
      rcases roundEven_cases q with ⟨hq, -⟩ | ⟨hq, -⟩ <;> omega
  · rcases roundEven_cases p with ⟨hp, -⟩ | ⟨hp, hphalf⟩
    · rcases roundEven_cases q with ⟨hq, -⟩ | ⟨hq, -⟩ <;> omega
    · rcases roundEven_cases q with ⟨hq, hqhalf⟩ | ⟨hq, -⟩
      · -- both lie halfway, so they are the same number
        rw [hsame] at hphalf
        have heq : p = q := by linarith
        rw [heq]
      · omega

theorem le_roundEven {m : Int} {q : Rat} (h : (m : Rat) ≤ q) : m ≤ roundEven q := by
  simpa using roundEven_mono h

theorem roundEven_le {m : Int} {q : Rat} (h : q ≤ m) : roundEven q ≤ m := by
  simpa using roundEven_mono h

section Digits

variable {base digits : Nat} {q : Rat}

theorem lastPlace_pos (hbase : 1 < base) (digits : Nat) (q : Rat) :
    0 < lastPlace base digits q := by
  have hpos : (0 : Rat) < base := by exact_mod_cast Nat.zero_lt_of_lt hbase
  exact zpow_pos hpos _

@[simp] theorem roundTo_zero (base digits : Nat) : roundTo base digits 0 = 0 := by
  have hnone : roundEven 0 = 0 := by exact_mod_cast roundEven_intCast 0
  simp [roundTo, hnone]

/-- The last place is worth no more than its share of the number. -/
theorem lastPlace_le (hbase : 1 < base) (digits : Nat) (hq : q ≠ 0) :
    lastPlace base digits q ≤ |q| * (base : Rat) ^ (1 - digits : Int) := by
  have hpos : (0 : Rat) < base := by exact_mod_cast Nat.zero_lt_of_lt hbase
  have hlog : (base : Rat) ^ Int.log base |q| ≤ |q| := Int.zpow_log_le_self hbase (abs_pos.mpr hq)
  calc lastPlace base digits q
      = (base : Rat) ^ Int.log base |q| * (base : Rat) ^ (1 - digits : Int) := by
        unfold lastPlace
        rw [← zpow_add₀ hpos.ne', add_sub_assoc]
    _ ≤ |q| * (base : Rat) ^ (1 - digits : Int) :=
        mul_le_mul_of_nonneg_right hlog (zpow_nonneg hpos.le _)

/-- Rounding moves a number by at most half of its last place. -/
theorem abs_roundTo_sub_le (hbase : 1 < base) (q : Rat) :
    |roundTo base digits q - q| ≤ |q| * ((base : Rat) ^ (1 - digits : Int) / 2) := by
  rcases eq_or_ne q 0 with rfl | hq
  · simp
  · have hplace := lastPlace_pos hbase digits q
    have hsplit : roundTo base digits q - q =
        (roundEven (q / lastPlace base digits q) - q / lastPlace base digits q) *
          lastPlace base digits q := by
      unfold roundTo
      rw [sub_mul, div_mul_cancel₀ _ hplace.ne']
    calc |roundTo base digits q - q|
        = |(roundEven (q / lastPlace base digits q) : Rat) - q / lastPlace base digits q| *
            lastPlace base digits q := by rw [hsplit, abs_mul, abs_of_pos hplace]
      _ ≤ 1 / 2 * lastPlace base digits q :=
          mul_le_mul_of_nonneg_right (abs_roundEven_sub_le _) hplace.le
      _ ≤ |q| * ((base : Rat) ^ (1 - digits : Int) / 2) := by
          have hshare := lastPlace_le hbase digits hq
          linarith

theorem roundTo_nonneg (hbase : 1 < base) (hq : 0 ≤ q) : 0 ≤ roundTo base digits q := by
  have hplace := (lastPlace_pos hbase digits q).le
  have hwhole : (0 : Int) ≤ roundEven (q / lastPlace base digits q) := by
    refine le_roundEven ?_
    rw [Int.cast_zero]
    exact div_nonneg hq hplace
  exact mul_nonneg (by exact_mod_cast hwhole) hplace

/-- The power that a number has reached is reached by what it is rounded to. -/
theorem zpow_log_le_roundTo (hbase : 1 < base) (hdigits : 0 < digits) (hq : 0 < q) :
    (base : Rat) ^ Int.log base q ≤ roundTo base digits q := by
  have hpos : (0 : Rat) < base := by exact_mod_cast Nat.zero_lt_of_lt hbase
  have hplace := lastPlace_pos hbase digits q
  have hpower : (base : Rat) ^ Int.log base q =
      ((base ^ (digits - 1) : Nat) : Int) * lastPlace base digits q := by
    unfold lastPlace
    rw [abs_of_pos hq]
    push_cast
    rw [← zpow_natCast, ← zpow_add₀ hpos.ne']
    congr 1
    omega
  have hreached : (base : Rat) ^ Int.log base q ≤ q := Int.zpow_log_le_self hbase hq
  have hwhole : (((base ^ (digits - 1) : Nat) : Int) : Rat) ≤ q / lastPlace base digits q := by
    rw [le_div_iff₀ hplace, ← hpower]
    exact hreached
  rw [hpower]
  exact mul_le_mul_of_nonneg_right (by exact_mod_cast le_roundEven hwhole) hplace.le

/-- And the next power is not passed. -/
theorem roundTo_le_zpow (hbase : 1 < base) (hq : 0 < q) :
    roundTo base digits q ≤ (base : Rat) ^ (Int.log base q + 1) := by
  have hpos : (0 : Rat) < base := by exact_mod_cast Nat.zero_lt_of_lt hbase
  have hplace := lastPlace_pos hbase digits q
  have hpower : (base : Rat) ^ (Int.log base q + 1) =
      ((base ^ digits : Nat) : Int) * lastPlace base digits q := by
    unfold lastPlace
    rw [abs_of_pos hq]
    push_cast
    rw [← zpow_natCast, ← zpow_add₀ hpos.ne']
    congr 1
    omega
  have hbelow : q < (base : Rat) ^ (Int.log base q + 1) := Int.lt_zpow_succ_log_self hbase q
  have hwhole : q / lastPlace base digits q ≤ (((base ^ digits : Nat) : Int) : Rat) := by
    rw [div_le_iff₀ hplace, ← hpower]
    exact hbelow.le
  rw [hpower]
  exact mul_le_mul_of_nonneg_right (by exact_mod_cast roundEven_le hwhole) hplace.le

theorem roundTo_mono (hbase : 1 < base) (hdigits : 0 < digits) {p q : Rat} (hp : 0 ≤ p)
    (h : p ≤ q) : roundTo base digits p ≤ roundTo base digits q := by
  rcases hp.eq_or_lt with rfl | hp
  · rw [roundTo_zero]
    exact roundTo_nonneg hbase h
  · have hq : 0 < q := hp.trans_le h
    rcases (Int.log_mono_right hp h : Int.log base p ≤ Int.log base q).lt_or_eq with hless | hsame
    · have hone : (1 : Rat) ≤ base := by exact_mod_cast hbase.le
      calc roundTo base digits p
          ≤ (base : Rat) ^ (Int.log base p + 1) := roundTo_le_zpow hbase hp
        _ ≤ (base : Rat) ^ Int.log base q := zpow_le_zpow_right₀ hone hless
        _ ≤ roundTo base digits q := zpow_log_le_roundTo hbase hdigits hq
    · have hplace : lastPlace base digits p = lastPlace base digits q := by
        unfold lastPlace
        rw [abs_of_pos hp, abs_of_pos hq, hsame]
      have hpos := (lastPlace_pos hbase digits q).le
      unfold roundTo
      rw [hplace]
      refine mul_le_mul_of_nonneg_right ?_ hpos
      exact_mod_cast roundEven_mono (div_le_div_of_nonneg_right h hpos)

/-- An integer that has no more digits is kept. -/
theorem roundTo_intCast (hbase : 1 < base) {n : Int} (hn : n.natAbs < base ^ digits) :
    roundTo base digits n = n := by
  rcases eq_or_ne n 0 with rfl | hne
  · simp
  · have hpos : (0 : Rat) < base := by exact_mod_cast Nat.zero_lt_of_lt hbase
    have hplace := lastPlace_pos hbase digits (n : Rat)
    have habs : |(n : Rat)| = (n.natAbs : Rat) := by
      rw [← Int.cast_abs, Int.abs_eq_natAbs]
      rfl
    have hlog : Nat.log base n.natAbs < digits :=
      Nat.log_lt_of_lt_pow (Int.natAbs_ne_zero.mpr hne) hn
    -- its last place is a fraction of one, so the number is a multiple of it
    obtain ⟨k, hk⟩ : ∃ k : Nat, (Int.log base |(n : Rat)| + 1 - digits : Int) = -k := by
      rw [habs, Int.log_natCast]
      exact ⟨digits - 1 - Nat.log base n.natAbs, by omega⟩
    have hmultiple : (n : Rat) / lastPlace base digits n = (n * base ^ k : Int) := by
      unfold lastPlace
      rw [hk, zpow_neg, div_inv_eq_mul, zpow_natCast]
      push_cast
      rfl
    unfold roundTo
    rw [hmultiple, roundEven_intCast, ← hmultiple, div_mul_cancel₀ _ hplace.ne']

/-- An integer is rounded to an integer. -/
theorem exists_roundTo_intCast (hbase : 1 < base) (n : Int) :
    ∃ m : Int, roundTo base digits n = m := by
  by_cases hn : n.natAbs < base ^ digits
  · exact ⟨n, roundTo_intCast hbase hn⟩
  · have habs : |(n : Rat)| = (n.natAbs : Rat) := by
      rw [← Int.cast_abs, Int.abs_eq_natAbs]
      rfl
    have hpower := not_lt.mp hn
    have hne : n.natAbs ≠ 0 := ((Nat.pow_pos (Nat.zero_lt_of_lt hbase)).trans_le hpower).ne'
    have hlog : digits ≤ Nat.log base n.natAbs := (Nat.le_log_iff_pow_le hbase hne).mpr hpower
    -- its last place is worth a whole number
    obtain ⟨k, hk⟩ : ∃ k : Nat, (Int.log base |(n : Rat)| + 1 - digits : Int) = k := by
      rw [habs, Int.log_natCast]
      exact ⟨Nat.log base n.natAbs + 1 - digits, by omega⟩
    refine ⟨roundEven (n / lastPlace base digits n) * base ^ k, ?_⟩
    have hplace : lastPlace base digits (n : Rat) = (base : Rat) ^ k := by
      unfold lastPlace
      rw [hk, zpow_natCast]
    unfold roundTo
    rw [hplace]
    push_cast
    rfl

end Digits

end RateLimiter.Foundations
