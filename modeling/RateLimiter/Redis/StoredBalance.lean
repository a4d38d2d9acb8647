import Mathlib.Data.Rat.Cast.Order
import Mathlib.Tactic.Ring
import RateLimiter.Foundations.Accrual
import RateLimiter.Redis.Keys

/-!
# A balance stored with its clock

A bucket in Redis is a balance under one string key and the instant it was written
under another, both with the same time to live.  A reader accrues the time since, and
takes the balance for full when a key is gone.  Where the keys live long enough to
fill an empty bucket their expiry cannot be told from accrual.
-/

namespace RateLimiter.Redis

open RateLimiter.Foundations

namespace StringKey

variable {α : Type}

/-- What a later instant leaves of a key does not depend on an earlier one. -/
theorem purge_purge {u t : Int} (h : u ≤ t) (key : StringKey α) :
    purge t (purge u key) = purge t key := by
  cases key with
  | none => rfl
  | some timed =>
      rcases le_or_gt u timed.expireAt with hkept | hgone
      · rw [purge_some_of_le hkept]
      · rw [purge_some_of_lt hgone, purge_some_of_lt (hgone.trans_le h)]
        rfl

end StringKey

/-- What a reader at `t` makes of a balance and its clock. -/
def storedBalance (capacity rate : Rat) (bal : StringKey Rat) (ts : StringKey Int) (t : Int) :
    Rat :=
  match (bal.purge t).get, (ts.purge t).get with
  | some bal, some ts => accrue capacity rate ((max 0 (t - ts) : Int) / 1000) bal
  | _, _ => capacity

/-- From `t` on, `f` is a balance that accrues: between any two instants it becomes what
accrual makes of it. -/
def AccruesFrom (capacity rate : Rat) (t : Int) (f : Int → Rat) : Prop :=
  ∀ u v, t ≤ u → u ≤ v → f v = accrue capacity rate ((v - u : Int) / 1000) (f u)

section Stored

variable {capacity rate : Rat} {bal : StringKey Rat} {ts : StringKey Int} {t u : Int}

theorem storedBalance_le_capacity (bal : StringKey Rat) (ts : StringKey Int) (t : Int) :
    storedBalance capacity rate bal ts t ≤ capacity := by
  unfold storedBalance
  split
  · exact accrue_le_capacity _ _ _ _
  · exact le_rfl

/-- Keys that other calls have purged before are read as they were. -/
theorem storedBalance_purge (h : u ≤ t) :
    storedBalance capacity rate (bal.purge u) (ts.purge u) t =
      storedBalance capacity rate bal ts t := by
  unfold storedBalance
  rw [StringKey.purge_purge h, StringKey.purge_purge h]

/-- A balance written at `u` accrues from there, whether or not its keys have expired,
when an empty bucket fills within their time to live. -/
theorem storedBalance_setEx {ttl : Nat} {b : Rat} (hrate : 0 ≤ rate) (hb : 0 ≤ b)
    (hfills : capacity ≤ ttl * rate) (h : u ≤ t) :
    storedBalance capacity rate (.setEx u b ttl) (.setEx u u ttl) t =
      accrue capacity rate ((t - u : Int) / 1000) b := by
  unfold storedBalance StringKey.setEx
  rcases le_or_gt t (u + 1000 * ttl) with hkept | hgone
  · rw [StringKey.purge_some_of_le hkept, StringKey.purge_some_of_le hkept]
    simp only [StringKey.get_some]
    rw [max_eq_right (by omega)]
  · -- by the time the keys are gone the bucket is full
    rw [StringKey.purge_some_of_lt hgone]
    simp only [StringKey.get_none]
    refine (accrue_of_full ?_).symm
    have hlong : (ttl : Rat) ≤ (t - u : Int) / 1000 := by
      have hcast : ((1000 * ttl : Int) : Rat) ≤ (t - u : Int) := by
        exact_mod_cast (by omega : (1000 * ttl : Int) ≤ t - u)
      push_cast at hcast ⊢
      linarith
    have hearned := mul_le_mul_of_nonneg_right hlong hrate
    linarith

end Stored

namespace AccruesFrom

variable {capacity rate : Rat} {f : Int → Rat} {t u : Int}

/-- What accrues from a balance accrues in stages. -/
theorem of_accrue (hrate : 0 ≤ rate) {b : Rat}
    (h : ∀ v, t ≤ v → f v = accrue capacity rate ((v - t : Int) / 1000) b) :
    AccruesFrom capacity rate t f := by
  intro u v hu hv
  have hstage : (0 : Rat) ≤ (v - u : Int) / 1000 := by
    have hcast : (0 : Rat) ≤ (v - u : Int) := by exact_mod_cast Int.sub_nonneg.mpr hv
    positivity
  rw [h u hu, h v (hu.trans hv), accrue_accrue hrate hstage]
  congr 1
  push_cast
  ring

theorem mono (h : AccruesFrom capacity rate t f) (htu : t ≤ u) :
    AccruesFrom capacity rate u f := fun v w hv hw => h v w (htu.trans hv) hw

theorem congr {g : Int → Rat} (h : AccruesFrom capacity rate t f)
    (hfg : ∀ v, t ≤ v → g v = f v) : AccruesFrom capacity rate t g := by
  intro u v hu hv
  rw [hfg u hu, hfg v (hu.trans hv)]
  exact h u v hu hv

/-- What accrues grows by no more than the rate. -/
theorem le_add (h : AccruesFrom capacity rate t f) (htu : t ≤ u) :
    f u ≤ f t + rate * (u - t) / 1000 := by
  rw [h t u le_rfl htu]
  refine (accrue_le_add _ _ _ _).trans_eq ?_
  push_cast
  ring

/-- What accrues from nothing less than zero stays so. -/
theorem nonneg (h : AccruesFrom capacity rate t f) (hrate : 0 ≤ rate)
    (hcapacity : f t ≤ capacity) (ht : 0 ≤ f t) (htu : t ≤ u) : 0 ≤ f u := by
  have hstage : (0 : Rat) ≤ (u - t : Int) / 1000 := by
    have hcast : (0 : Rat) ≤ (u - t : Int) := by exact_mod_cast Int.sub_nonneg.mpr htu
    positivity
  rw [h t u le_rfl htu]
  exact ht.trans (le_accrue hrate hstage hcapacity)

end AccruesFrom

end RateLimiter.Redis
