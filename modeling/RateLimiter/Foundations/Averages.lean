import Mathlib.Algebra.Order.Ring.Defs
import Mathlib.Order.Bounds.Basic
import Mathlib.Tactic.Linarith

/-!
# Running averages and their samples

An exponentially weighted average is blended from one sample after another.  It never
leaves the interval of the samples it was blended from, and a running maximum is the
greatest of them.
-/

namespace RateLimiter.Foundations

variable {K : Type*} [LinearOrder K]

/-- The value lies between two of the samples. -/
def Between (samples : List K) (v : K) : Prop :=
  (∃ x ∈ samples, x ≤ v) ∧ ∃ x ∈ samples, v ≤ x

variable {samples : List K} {v w x : K}

theorem between_singleton (x : K) : Between [x] x :=
  ⟨⟨x, List.mem_singleton_self x, le_rfl⟩, x, List.mem_singleton_self x, le_rfl⟩

theorem Between.ne_nil (h : Between samples v) : samples ≠ [] := by
  obtain ⟨⟨x, hx, -⟩, -⟩ := h
  exact List.ne_nil_of_mem hx

/-- Between a value in the interval of the samples and a new sample. -/
theorem Between.append (h : Between samples v) (hlow : min v x ≤ w) (hhigh : w ≤ max v x) :
    Between (samples ++ [x]) w := by
  obtain ⟨⟨lo, hlo, hlov⟩, hi, hhi, hvhi⟩ := h
  refine ⟨?_, ?_⟩
  · rcases min_le_iff.mp hlow with hv | hx
    · exact ⟨lo, List.mem_append_left _ hlo, hlov.trans hv⟩
    · exact ⟨x, List.mem_append_right _ (List.mem_singleton_self x), hx⟩
  · rcases le_max_iff.mp hhigh with hv | hx
    · exact ⟨hi, List.mem_append_left _ hhi, hv.trans hvhi⟩
    · exact ⟨x, List.mem_append_right _ (List.mem_singleton_self x), hx⟩

/-- A blend of a value and a new sample. -/
theorem Between.blend {K : Type*} [CommRing K] [LinearOrder K] [IsStrictOrderedRing K]
    {samples : List K} {v x weight : K} (h : Between samples v) (hweight : 0 ≤ weight)
    (hone : weight ≤ 1) : Between (samples ++ [x]) (weight * x + (1 - weight) * v) := by
  have hrest : 0 ≤ 1 - weight := sub_nonneg.mpr hone
  refine h.append ?_ ?_
  · have hx := mul_le_mul_of_nonneg_left (min_le_right v x) hweight
    have hv := mul_le_mul_of_nonneg_left (min_le_left v x) hrest
    linarith
  · have hx := mul_le_mul_of_nonneg_left (le_max_right v x) hweight
    have hv := mul_le_mul_of_nonneg_left (le_max_left v x) hrest
    linarith

theorem exists_isLeast (hne : samples ≠ []) : ∃ lo, IsLeast {x | x ∈ samples} lo := by
  induction samples with
  | nil => exact absurd rfl hne
  | cons x samples ih =>
      cases samples with
      | nil => exact ⟨x, by simp [isLeast_singleton]⟩
      | cons y samples =>
          obtain ⟨lo, hlo⟩ := ih (List.cons_ne_nil y samples)
          refine ⟨min x lo, ?_⟩
          have hinsert := hlo.insert x
          have hset : insert x {z | z ∈ y :: samples} = {z | z ∈ x :: y :: samples} := by
            ext z
            exact List.mem_cons.symm
          rw [hset] at hinsert
          exact hinsert

theorem exists_isGreatest (hne : samples ≠ []) : ∃ hi, IsGreatest {x | x ∈ samples} hi := by
  obtain ⟨hi, hhi⟩ := exists_isLeast (K := OrderDual K) hne
  exact ⟨hi, hhi⟩

/-- A running maximum goes on with the greater of itself and the new sample. -/
theorem isGreatest_append {peak : K} (h : IsGreatest {y | y ∈ samples} peak) :
    IsGreatest {y | y ∈ samples ++ [x]} (max x peak) := by
  have hinsert := h.insert x
  have hset : insert x {y | y ∈ samples} = {y | y ∈ samples ++ [x]} := by
    ext z
    simp [or_comm]
  rw [hset] at hinsert
  exact hinsert

theorem Between.least_le {lo : K} (h : Between samples v) (hlo : IsLeast {x | x ∈ samples} lo) :
    lo ≤ v := by
  obtain ⟨⟨x, hx, hle⟩, -⟩ := h
  exact (hlo.2 hx).trans hle

theorem Between.le_greatest {hi : K} (h : Between samples v)
    (hhi : IsGreatest {x | x ∈ samples} hi) : v ≤ hi := by
  obtain ⟨-, x, hx, hle⟩ := h
  exact hle.trans (hhi.2 hx)

end RateLimiter.Foundations
