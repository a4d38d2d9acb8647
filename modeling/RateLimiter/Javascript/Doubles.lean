import RateLimiter.Foundations.Rounding

/-!
# Doubles

The numbers of Javascript and of Lua: 53 binary digits, where nothing is so large or so small
that its exponent runs out.
-/

namespace RateLimiter.Javascript

open RateLimiter.Foundations

/-- The double nearest to a number. -/
def double (q : Rat) : Rat := roundTo 2 53 q

theorem double_intCast {n : Int} (hn : n.natAbs < 2 ^ 53) : double n = n :=
  roundTo_intCast (by decide) hn

/-- A whole number stays whole. -/
theorem exists_double_intCast (n : Int) : ∃ m : Int, double n = m :=
  exists_roundTo_intCast (by decide) n

theorem double_mono {p q : Rat} (hp : 0 ≤ p) (h : p ≤ q) : double p ≤ double q :=
  roundTo_mono (by decide) (by decide) hp h

theorem abs_double_sub_le (q : Rat) : |double q - q| ≤ |q| / 10 ^ 15 := by
  have hclose : |double q - q| ≤ |q| * (((2 : Nat) : Rat) ^ (1 - (53 : Nat) : Int) / 2) :=
    abs_roundTo_sub_le (by decide) q
  have hhalf : (((2 : Nat) : Rat) ^ (1 - (53 : Nat) : Int) / 2) ≤ 1 / 10 ^ 15 := by norm_num
  calc |double q - q| ≤ |q| * (((2 : Nat) : Rat) ^ (1 - (53 : Nat) : Int) / 2) := hclose
    _ ≤ |q| * (1 / 10 ^ 15) := mul_le_mul_of_nonneg_left hhalf (abs_nonneg q)
    _ = |q| / 10 ^ 15 := by rw [mul_one_div]

end RateLimiter.Javascript
