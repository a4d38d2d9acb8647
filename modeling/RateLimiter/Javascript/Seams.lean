import Mathlib.Algebra.Order.Field.Basic
import Mathlib.Data.Nat.Digits.Lemmas
import Mathlib.Tactic.FieldSimp
import Mathlib.Tactic.LinearCombination
import Mathlib.Tactic.Linarith
import Mathlib.Tactic.Positivity
import RateLimiter.Javascript.Numerals

/-!
# When two numerals in a row spell their sum

Adding two strings writes them one behind the other.  Where the second continues
the first the result is again a numeral, but of the sum only by accident: the
digits of the second move the digits of the first to the left.  `SumsUp` says
which accidents there are.
-/

namespace RateLimiter.Javascript

namespace Numeral

/-- The second numeral adds its value when it is written behind the first.  Behind
an exponent it has to change nothing; behind a point its exponent has to make up
for the places it moves to; behind integer digits it must not move them. -/
def SumsUp (p o : Numeral) : Prop :=
  match p.exp, p.frac with
  | some (_, digits), _ => o.value = 0 ∧ (p.value = 0 ∨ digitsValue digits = 0)
  | none, some frac =>
      p.value * (10 ^ o.exponent - 1) =
        o.value * (1 - signFactor p.sign / 10 ^ (frac.length + o.int.length))
  | none, none =>
      (p.value = 0 ∨ o.int.length + o.exponent = 0) ∧ (p.sign = some true → o.value = 0)

end Numeral

section Values

variable {p o : Numeral} {inner outer : CodeUnit → Bool}

/-- Behind an exponent the digits of the second numeral go on the exponent. -/
theorem value_continued_exp {sign : Option Bool} {digits : JsString}
    (hexp : p.exp = some (sign, digits)) (hosign : o.sign = none) (hofrac : o.frac = none)
    (hoexp : o.exp = none) :
    o.value = digitsValue o.int ∧
      (p.continued o).value = p.value * 10 ^ (signFactor sign *
        ((digitsValue digits * (10 ^ o.int.length - 1) + digitsValue o.int : Nat) : Int)) := by
  have ho : o.value = digitsValue o.int := by
    simp [Numeral.value, Numeral.exponent, hosign, hofrac, hoexp, signFactor]
  refine ⟨ho, ?_⟩
  have hpow : 1 ≤ 10 ^ o.int.length := Nat.one_le_pow _ _ (by norm_num)
  simp only [Numeral.value, Numeral.exponent, Numeral.continued, hexp]
  rw [digitsValue_append digits o.int, mul_assoc _ ((10 : Rat) ^ _) ((10 : Rat) ^ _),
    ← zpow_add₀ (by norm_num : (10 : Rat) ≠ 0)]
  congr 2
  push_cast [hpow]
  ring

/-- Behind a point the digits of the second numeral are smaller by the places they
move, and its exponent applies to both. -/
theorem value_continued_frac {frac : JsString} (hexp : p.exp = none) (hfrac : p.frac = some frac)
    (hosign : o.sign = none) (hofrac : o.frac = none) :
    (p.continued o).value = p.value * 10 ^ o.exponent +
      signFactor p.sign * o.value / 10 ^ (frac.length + o.int.length) := by
  have hexponent : (p.continued o).exponent = o.exponent := by
    simp [Numeral.exponent, Numeral.continued, hexp, hfrac]
  have hten (k : Nat) : (10 : Rat) ^ k ≠ 0 := pow_ne_zero _ (by norm_num)
  simp only [Numeral.value, hexponent]
  simp only [Numeral.continued, Numeral.exponent, hexp, hfrac, hosign, hofrac, Option.getD_some,
    Option.getD_none, List.append_nil, List.length_append, List.length_nil, signFactor]
  rw [← List.append_assoc, digitsValue_append (p.int ++ frac) o.int]
  push_cast
  rw [zpow_sub₀ (by norm_num : (10 : Rat) ≠ 0), zpow_sub₀ (by norm_num : (10 : Rat) ≠ 0),
    zpow_sub₀ (by norm_num : (10 : Rat) ≠ 0), zpow_add₀ (by norm_num : (10 : Rat) ≠ 0)]
  simp only [zpow_natCast, zpow_zero, pow_add]
  have h₁ := hten frac.length
  have h₂ := hten o.int.length
  field_simp

theorem value_of_bare (hexp : p.exp = none) (hfrac : p.frac = none) :
    p.value = signFactor p.sign * digitsValue p.int := by
  simp [Numeral.value, Numeral.exponent, hexp, hfrac]

theorem value_of_unsigned (hosign : o.sign = none) :
    o.value = digitsValue (o.int ++ o.frac.getD []) *
      10 ^ (o.exponent - (o.frac.getD []).length) := by
  simp [Numeral.value, hosign, signFactor]

/-- Behind integer digits the second numeral keeps its value and moves the first. -/
theorem value_continued_int (hexp : p.exp = none) (hfrac : p.frac = none)
    (hosign : o.sign = none) :
    (p.continued o).value = p.value * 10 ^ (o.int.length + o.exponent) +
      signFactor p.sign * o.value := by
  have hexponent : (p.continued o).exponent = o.exponent := by
    simp [Numeral.exponent, Numeral.continued, hexp, hfrac]
  have hplaces : ((10 : Rat) ^ (o.int.length + (o.frac.getD []).length)) *
      10 ^ (o.exponent - ((o.frac.getD []).length : Int)) =
        10 ^ ((o.int.length : Int) + o.exponent) := by
    rw [← zpow_natCast, ← zpow_add₀ (by norm_num : (10 : Rat) ≠ 0)]
    congr 1
    push_cast
    ring
  have hcontinued : (p.continued o).value =
      signFactor p.sign * (digitsValue (p.int ++ (o.int ++ o.frac.getD [])) : Rat) *
        10 ^ (o.exponent - (o.frac.getD []).length) := by
    unfold Numeral.value
    rw [hexponent]
    simp [Numeral.continued, hexp, hfrac]
  rw [hcontinued, value_of_bare hexp hfrac, value_of_unsigned hosign, digitsValue_append p.int,
    List.length_append, ← hplaces]
  push_cast
  ring

end Values

/-! ## The accidents -/

theorem one_lt_ten_pow {k : Nat} (h : k ≠ 0) : (1 : Rat) < 10 ^ k :=
  one_lt_pow₀ (by norm_num) h

theorem lt_ten_pow_sub_one {m k : Nat} (hk : k ≠ 0) (hmk : m ≤ k) : (m : Rat) < 10 ^ k - 1 := by
  have hgrows : k + 1 < 10 ^ k := by
    have hpow : k < 5 ^ k := Nat.lt_pow_self (by norm_num)
    have htwo : 2 ≤ 2 ^ k := Nat.le_self_pow hk 2
    have hsplit : (10 : Nat) ^ k = 2 ^ k * 5 ^ k := by
      rw [← Nat.mul_pow]
    rw [hsplit]
    nlinarith
  have hcast : ((k + 1 : Nat) : Rat) < ((10 ^ k : Nat) : Rat) := by exact_mod_cast hgrows
  have hle : (m : Rat) ≤ k := by exact_mod_cast hmk
  push_cast at hcast
  linarith

/-- A power of ten with a positive exponent added to the second summand is not
reached by moving a natural number. -/
theorem moved_sum_iff {m n e : Nat} (sign : Option Bool) (hne : n ≤ e) :
    (m : Rat) * 10 ^ (signFactor sign * (e : Int)) = m + n ↔ n = 0 ∧ (m = 0 ∨ e = 0) := by
  by_cases he : e = 0
  · subst he
    simp
  have hten := one_lt_ten_pow he
  constructor
  · intro h
    have hn : (0 : Rat) ≤ n := Nat.cast_nonneg n
    have hm : (0 : Rat) ≤ m := Nat.cast_nonneg m
    by_cases hm0 : m = 0
    · subst hm0
      have hn0 : (n : Rat) = 0 := by simpa using h.symm
      exact ⟨by exact_mod_cast hn0, Or.inl rfl⟩
    · exfalso
      have hone : (1 : Rat) ≤ m := by exact_mod_cast Nat.one_le_iff_ne_zero.mpr hm0
      have hsmall := lt_ten_pow_sub_one he hne
      have hcases : signFactor sign = 1 ∨ signFactor sign = -1 := by
        cases sign with
        | none => exact Or.inl rfl
        | some negative => cases negative <;> simp [signFactor]
      rcases hcases with hsign | hsign
      · rw [hsign, one_mul, zpow_natCast] at h
        nlinarith
      · rw [hsign, neg_one_mul, zpow_neg, zpow_natCast] at h
        have hless : (m : Rat) * (10 ^ e)⁻¹ < m := by
          rw [← div_eq_mul_inv, div_lt_iff₀ (by linarith)]
          nlinarith
        linarith
  · rintro ⟨rfl, hm | he0⟩
    · subst hm
      simp
    · exact absurd he0 he

theorem signFactor_eq (sign : Option Bool) :
    (signFactor sign : Rat) = if sign = some true then -1 else 1 := by
  cases sign with
  | none => simp [signFactor]
  | some negative => cases negative <;> simp [signFactor]

section Accidents

variable {p o : Numeral} {inner outer : CodeUnit → Bool} {m : Nat}

/-- Behind an exponent: the digits added to it must not move the first numeral. -/
theorem sumsUp_exp (ho : o.WellFormed outer) (hosign : o.sign = none) (hofrac : o.frac = none)
    (hoexp : o.exp = none) {sign : Option Bool} {digits : JsString}
    (hexp : p.exp = some (sign, digits)) (hm : p.value = m) :
    (p.continued o).value = p.value + o.value ↔ p.SumsUp o := by
  obtain ⟨hoval, hcontinued⟩ := value_continued_exp hexp hosign hofrac hoexp
  have hlength : o.int.length ≠ 0 := by
    have hdigits := ho.digits
    rw [hofrac] at hdigits
    simpa using hdigits
  -- At least one digit is added, so the exponent grows unless it was zero.
  have hmoves : 2 ≤ 10 ^ o.int.length :=
    (by norm_num : 2 ≤ 10).trans (Nat.le_self_pow hlength 10)
  have hnat : ((digitsValue o.int : Rat) = 0) ↔ digitsValue o.int = 0 := Nat.cast_eq_zero
  have hnatm : ((m : Rat) = 0) ↔ m = 0 := Nat.cast_eq_zero
  unfold Numeral.SumsUp
  simp only [hexp]
  rw [hcontinued, hm, hoval, moved_sum_iff sign (Nat.le_add_left _ _), hnat, hnatm]
  refine and_congr_right fun hzero => or_congr_right ?_
  rw [hzero, add_zero, Nat.mul_eq_zero]
  exact or_iff_left (by omega)

/-- Behind integer digits: the second numeral must not move them, and behind a minus
sign it must be zero. -/
theorem sumsUp_int (hosign : o.sign = none) (hexp : p.exp = none) (hfrac : p.frac = none)
    (hm : p.value = m) : (p.continued o).value = p.value + o.value ↔ p.SumsUp o := by
  unfold Numeral.SumsUp
  simp only [hexp, hfrac]
  rw [value_continued_int hexp hfrac hosign, signFactor_eq]
  by_cases hsign : p.sign = some true
  · -- Behind a minus sign the first can only be zero.
    have hzero : p.value = 0 := by
      have hbare := value_of_bare hexp hfrac
      rw [signFactor_eq, if_pos hsign, hm] at hbare
      have hdigits : (0 : Rat) ≤ digitsValue p.int := Nat.cast_nonneg _
      have hm0 : (0 : Rat) ≤ m := Nat.cast_nonneg m
      rw [hm]
      linarith
    rw [if_pos hsign, hzero]
    constructor
    · intro hsum
      exact ⟨Or.inl rfl, fun _ => by linarith⟩
    · rintro ⟨-, hvanish⟩
      rw [hvanish hsign]
      ring
  · rw [if_neg hsign, one_mul, add_left_inj]
    have hmoves : p.value * 10 ^ ((o.int.length : Int) + o.exponent) = p.value ↔
        p.value = 0 ∨ (o.int.length : Int) + o.exponent = 0 := by
      by_cases hzero : p.value = 0
      · simp [hzero]
      · rw [mul_eq_left₀ hzero, zpow_eq_one_iff_right₀ (by norm_num) (by norm_num)]
        simp [hzero]
    rw [hmoves]
    exact (and_iff_left fun hminus => absurd hminus hsign).symm

/-- Two numerals in a row, the first of a natural number, spell their sum exactly in
the accidents `SumsUp` lists. -/
theorem value_continued_eq_iff (ho : o.WellFormed outer) (h : p.Continues inner o)
    (hm : p.value = m) : (p.continued o).value = p.value + o.value ↔ p.SumsUp o := by
  obtain ⟨-, -, -, hosign, -, hpastExp, hpastFrac⟩ := h
  cases hexp : p.exp with
  | some exp =>
      obtain ⟨sign, digits⟩ := exp
      obtain ⟨hofrac, hoexp⟩ := hpastExp (by simp [hexp])
      exact sumsUp_exp ho hosign hofrac hoexp hexp hm
  | none =>
      cases hfrac : p.frac with
      | some frac =>
          unfold Numeral.SumsUp
          simp only [hexp, hfrac]
          rw [value_continued_frac hexp hfrac hosign (hpastFrac (by simp [hfrac]))]
          constructor
          · intro hsum
            linear_combination hsum
          · intro hsum
            linear_combination hsum
      | none => exact sumsUp_int hosign hexp hfrac hm

end Accidents

end RateLimiter.Javascript
