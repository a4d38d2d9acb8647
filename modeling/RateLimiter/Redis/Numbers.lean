import RateLimiter.Javascript.Doubles

/-!
# The numbers of a script

A script computes in doubles, and what it writes with `tostring` keeps fourteen digits.
Definitions that depend on it are written over how numbers are kept, so that they can be read
in exact arithmetic as well.
-/

namespace RateLimiter.Redis

open RateLimiter.Foundations RateLimiter.Javascript

/-- How numbers are kept: what becomes of the result of an operation, and of a number that is
written by `tostring` and read by `tonumber`. -/
structure Arithmetic where
  rnd : Rat → Rat
  text : Rat → Rat

namespace Arithmetic

/-- Nothing is rounded. -/
def exact : Arithmetic := ⟨id, id⟩

/-- Doubles, and `%.14g`. -/
def doubles : Arithmetic := ⟨double, fun q => double (roundTo 10 14 q)⟩

/-- A total with one more entry, when there is one. -/
def gather (num : Arithmetic) (total : Rat) (entry : Option Rat) : Rat :=
  match entry with
  | some held => num.rnd (total + held)
  | none => total

/-- What the proofs need to know: operations and texts change a number by little, and the
numbers that count something not at all. -/
structure Faithful (num : Arithmetic) : Prop where
  rnd_close : ∀ q, |num.rnd q - q| ≤ |q| / 10 ^ 15
  text_close : ∀ q, |num.text q - q| ≤ |q| / 10 ^ 13
  rnd_int : ∀ n : Int, n.natAbs < 2 ^ 53 → num.rnd n = n
  rnd_whole : ∀ n : Int, ∃ m : Int, num.rnd n = m
  rnd_mono : ∀ {p q}, 0 ≤ p → p ≤ q → num.rnd p ≤ num.rnd q
  text_int : ∀ n : Int, n.natAbs < 10 ^ 14 → num.text n = n

theorem faithful_exact : exact.Faithful where
  rnd_close q := by
    show |q - q| ≤ _
    rw [sub_self, abs_zero]
    positivity
  text_close q := by
    show |q - q| ≤ _
    rw [sub_self, abs_zero]
    positivity
  rnd_int n _ := rfl
  rnd_whole n := ⟨n, rfl⟩
  rnd_mono _ h := h
  text_int n _ := rfl

theorem faithful_doubles : doubles.Faithful where
  rnd_close := abs_double_sub_le
  text_close q := by
    have hdigits :
        |roundTo 10 14 q - q| ≤ |q| * (((10 : Nat) : Rat) ^ (1 - (14 : Nat) : Int) / 2) :=
      abs_roundTo_sub_le (by decide) q
    have hdouble := abs_double_sub_le (roundTo 10 14 q)
    have htext := abs_sub_abs_le_abs_sub (roundTo 10 14 q) q
    have htotal := abs_sub_le (double (roundTo 10 14 q)) (roundTo 10 14 q) q
    have hpos := abs_nonneg q
    norm_num at hdigits
    show |double (roundTo 10 14 q) - q| ≤ _
    linarith
  rnd_int _ hn := double_intCast hn
  rnd_whole := exists_double_intCast
  rnd_mono := double_mono
  text_int n hn := by
    show double (roundTo 10 14 n) = n
    rw [roundTo_intCast (by decide) hn]
    exact double_intCast (hn.trans (by decide))

namespace Faithful

variable {num : Arithmetic} (h : num.Faithful) {q : Rat}

include h

theorem rnd_bounds (hq : 0 ≤ q) :
    q * (1 - 1 / 10 ^ 15) ≤ num.rnd q ∧ num.rnd q ≤ q * (1 + 1 / 10 ^ 15) := by
  have hclose := abs_le.mp (h.rnd_close q)
  rw [abs_of_nonneg hq] at hclose
  constructor <;> linarith

theorem text_bounds (hq : 0 ≤ q) :
    q * (1 - 1 / 10 ^ 13) ≤ num.text q ∧ num.text q ≤ q * (1 + 1 / 10 ^ 13) := by
  have hclose := abs_le.mp (h.text_close q)
  rw [abs_of_nonneg hq] at hclose
  constructor <;> linarith

theorem rnd_nonneg (hq : 0 ≤ q) : 0 ≤ num.rnd q :=
  (mul_nonneg hq (by norm_num)).trans (h.rnd_bounds hq).1

theorem rnd_pos (hq : 0 < q) : 0 < num.rnd q :=
  (mul_pos hq (by norm_num)).trans_le (h.rnd_bounds hq.le).1

theorem text_nonneg (hq : 0 ≤ q) : 0 ≤ num.text q :=
  (mul_nonneg hq (by norm_num)).trans (h.text_bounds hq).1

theorem rnd_zero : num.rnd 0 = 0 := by
  have hzero := h.rnd_int 0 (by decide)
  rwa [Int.cast_zero] at hzero

theorem rnd_natCast {n : Nat} (hn : n < 2 ^ 53) : num.rnd n = n := h.rnd_int n hn

/-- What is no less than a whole number is rounded to no less. -/
theorem natCast_le_rnd {n : Nat} (hn : n < 2 ^ 53) (hq : (n : Rat) ≤ q) : n ≤ num.rnd q := by
  have hmono := h.rnd_mono n.cast_nonneg hq
  rwa [h.rnd_natCast hn] at hmono

/-- Counts that stay within the digits are added up exactly. -/
theorem foldl_gather (entries : List (Option Rat))
    (hcounts : ∀ held, some held ∈ entries → ∃ n : Nat, n < 10 ^ 14 ∧ held = n) (total : Nat)
    (hroom : total + entries.length * 10 ^ 14 ≤ 2 ^ 53) :
    entries.foldl num.gather total = total + (entries.map fun entry => entry.getD 0).sum := by
  induction entries generalizing total with
  | nil => simp
  | cons entry entries ih =>
      have hrest : ∀ held, some held ∈ entries → ∃ n : Nat, n < 10 ^ 14 ∧ held = n :=
        fun held hheld => hcounts held (List.mem_cons_of_mem entry hheld)
      rw [List.length_cons, Nat.succ_mul, ← add_assoc] at hroom
      cases entry with
      | none =>
          have hnone : num.gather total none = total := rfl
          rw [List.foldl_cons, hnone, ih hrest total ((Nat.le_add_right _ _).trans hroom)]
          simp
      | some held =>
          obtain ⟨n, hn, rfl⟩ := hcounts held List.mem_cons_self
          have hnext : total + n + entries.length * 10 ^ 14 ≤ 2 ^ 53 := by
            rw [add_right_comm]
            exact (Nat.add_le_add_left hn.le _).trans hroom
          have hwithin : total + n < 2 ^ 53 := by
            have hheld : total + n < total + entries.length * 10 ^ 14 + 10 ^ 14 :=
              add_lt_add_of_le_of_lt (Nat.le_add_right _ _) hn
            exact hheld.trans_le hroom
          have hsome : num.gather total (some (n : Rat)) = (total + n : Nat) := by
            show num.rnd (total + n) = _
            rw [← Nat.cast_add]
            exact h.rnd_natCast hwithin
          rw [List.foldl_cons, hsome, ih hrest (total + n) hnext]
          simp [add_assoc]

theorem text_natCast {n : Nat} (hn : n < 10 ^ 14) : num.text n = n := h.text_int n hn

end Faithful

end Arithmetic

end RateLimiter.Redis
