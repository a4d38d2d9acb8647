import Mathlib.Tactic.Ring
import RateLimiter.Foundations.Accrual
import RateLimiter.Foundations.Runs

/-!
# Buckets

A bucket accrues continuously up to its capacity and is spent from.  Reading it
changes nothing: what has accrued by one instant and accrues from there is what
accrues all along.  So whoever spends no more than is available has spent, in any
interval of time, at most a full bucket and what was earned in the interval.
-/

namespace RateLimiter.Foundations

variable {K : Type*} [Field K] [LinearOrder K]

/-! ## Spending within what is available -/

/-- Each step of a component costs no more than what is `available` to it when it is
taken, and what is available grows by no more than what is `earned`.  `J` is the
invariant of the component. -/
structure SpendsFrom {σ ι T : Type*} [LinearOrder T] (step : σ → ι → σ) (time : ι → T)
    (P : σ → ι → Prop) (cost : σ → ι → K) (J : T → σ → Prop) (available : σ → T → K)
    (capacity : K) (earned : T → T → K) : Prop where
  keeps : ∀ t s i, J t s → t ≤ time i → P s i → J (time i) (step s i)
  spends : ∀ t s i, J t s → t ≤ time i → P s i →
    available (step s i) (time i) + cost s i ≤ available s (time i)
  capped : ∀ t s t', J t s → t ≤ t' → available s t' ≤ capacity
  grows : ∀ t s t', J t s → t ≤ t' → available s t' ≤ available s t + earned t t'
  nonneg : ∀ t s, J t s → 0 ≤ available s t
  earned_add : ∀ t t' t'', earned t t' + earned t' t'' = earned t t''
  earned_nonneg : ∀ t t', t ≤ t' → 0 ≤ earned t t'

/-- What has been spent within `[a, b]` when the time is `t`: nothing before `a`, what is
no longer available while the interval lasts, and nothing more after `b`. -/
structure SpentWithin {σ T : Type*} [LinearOrder T] (available : σ → T → K) (capacity : K)
    (earned : T → T → K) (J : T → σ → Prop) (a b t : T) (spent : K) (s : σ) : Prop where
  holds : J t s
  before : t < a → spent = 0
  during : a ≤ t → t ≤ b → spent + available s t ≤ capacity + earned a t
  after : b < t → spent ≤ capacity + earned a b

namespace SpendsFrom

variable [IsStrictOrderedRing K] {σ ι T : Type*} [LinearOrder T] {step : σ → ι → σ}
  {time : ι → T} {P : σ → ι → Prop} {cost : σ → ι → K} {J : T → σ → Prop}
  {available : σ → T → K} {capacity : K} {earned : T → T → K}

/-- One step keeps the account of the interval. -/
theorem spentWithin_step (h : SpendsFrom step time P cost J available capacity earned)
    {a b t : T} (hab : a ≤ b) {spent : K} {s : σ} {i : ι}
    (hs : SpentWithin available capacity earned J a b t spent s) (htime : t ≤ time i)
    (hP : P s i) :
    SpentWithin available capacity earned J a b (time i)
      (spent + if a ≤ time i ∧ time i ≤ b then cost s i else 0) (step s i) := by
  have hspends := h.spends t s i hs.holds htime hP
  refine ⟨h.keeps t s i hs.holds htime hP, ?_, ?_, ?_⟩
  · intro hbefore
    rw [if_neg fun hin => absurd hin.1 (not_le.mpr hbefore), add_zero]
    exact hs.before (htime.trans_lt hbefore)
  · intro hstart hend
    rw [if_pos ⟨hstart, hend⟩]
    rcases lt_or_ge t a with hbefore | hsince
    · have hcapped := h.capped t s (time i) hs.holds htime
      have hearned := h.earned_nonneg a (time i) hstart
      rw [hs.before hbefore]
      linarith
    · have hduring := hs.during hsince (htime.trans hend)
      have hgrows := h.grows t s (time i) hs.holds htime
      have hsplit := h.earned_add a t (time i)
      linarith
  · intro hafter
    rw [if_neg fun hin => absurd hin.2 (not_le.mpr hafter), add_zero]
    rcases lt_or_ge t a with hbefore | hsince
    · have hcapped := h.capped t s t hs.holds le_rfl
      have hnonneg := h.nonneg t s hs.holds
      have hearned := h.earned_nonneg a b hab
      rw [hs.before hbefore]
      linarith
    · rcases lt_or_ge b t with hover | hwithin
      · exact hs.after hover
      · have hduring := hs.during hsince hwithin
        have hnonneg := h.nonneg t s hs.holds
        have hsplit := h.earned_add a t b
        have hearned := h.earned_nonneg t b hwithin
        linarith

/-- The interval rule: no more is spent within `[a, b]` than the capacity and what is
earned from `a` to `b`. -/
theorem spent_within_le (h : SpendsFrom step time P cost J available capacity earned)
    {t : T} {s : σ} (hJ : J t s) {is : List ι} (htime : Chronological time t is)
    (hP : Along step P s is) {a b : T} (hab : a ≤ b) :
    tally step (fun s i => if a ≤ time i ∧ time i ≤ b then cost s i else 0) s is ≤
      capacity + earned a b := by
  have hstart : SpentWithin available capacity earned J a b t 0 s := by
    have hcapped := h.capped t s t hJ le_rfl
    have hnonneg := h.nonneg t s hJ
    have hearned := h.earned_nonneg a b hab
    refine ⟨hJ, fun _ => rfl, ?_, fun _ => by linarith⟩
    intro hsince _
    have hsofar := h.earned_nonneg a t hsince
    linarith
  have hrun := timed_run time step _ (I := SpentWithin available capacity earned J a b) (P := P)
    (fun t m s i hI hle hPi => spentWithin_step h hab hI hle hPi) hstart htime hP
  have hcapped := h.capped _ _ _ hrun.holds le_rfl
  have hnonneg := h.nonneg _ _ hrun.holds
  have hearned := h.earned_nonneg a b hab
  rw [zero_add] at hrun
  rcases lt_or_ge (lastTime time t is) a with hbefore | hsince
  · rw [hrun.before hbefore]
    linarith
  · rcases lt_or_ge b (lastTime time t is) with hover | hwithin
    · exact hrun.after hover
    · have hduring := hrun.during hsince hwithin
      have hsplit := h.earned_add a (lastTime time t is) b
      have hrest := h.earned_nonneg _ b hwithin
      linarith

end SpendsFrom

/-! ## The ideal bucket -/

/-- A bucket that was last spent from at `since` and held `level` then. -/
structure Bucket (K : Type*) where
  level : K
  since : K

namespace Bucket

/-- A bucket that is full at `t`. -/
def full (capacity t : K) : Bucket K := ⟨capacity, t⟩

/-- What the bucket holds at `t`. -/
def available (capacity rate : K) (b : Bucket K) (t : K) : K :=
  accrue capacity rate (t - b.since) b.level

/-- An offer is a time and a cost; it is accepted when the bucket holds that much. -/
def accepts (capacity rate : K) (b : Bucket K) (offer : K × K) : Bool :=
  decide (offer.2 ≤ b.available capacity rate offer.1)

/-- An accepted offer is paid; a rejected one changes nothing. -/
def offer (capacity rate : K) (b : Bucket K) (offer : K × K) : Bucket K :=
  if b.accepts capacity rate offer then
    ⟨b.available capacity rate offer.1 - offer.2, offer.1⟩
  else b

/-- What an offer is paid. -/
def paid (capacity rate : K) (b : Bucket K) (offer : K × K) : K :=
  if b.accepts capacity rate offer then offer.2 else 0

/-- What is known of a bucket at `t`. -/
structure Sound (capacity t : K) (b : Bucket K) : Prop where
  capacity_nonneg : 0 ≤ capacity
  level_nonneg : 0 ≤ b.level
  since_le : b.since ≤ t

section Offer

variable {capacity rate : K} {b : Bucket K} {o : K × K}

theorem offer_of_accepts (h : b.accepts capacity rate o = true) :
    b.offer capacity rate o = ⟨b.available capacity rate o.1 - o.2, o.1⟩ := if_pos h

theorem offer_of_rejects (h : b.accepts capacity rate o = false) :
    b.offer capacity rate o = b := if_neg (Bool.eq_false_iff.mp h)

end Offer

variable [IsStrictOrderedRing K] {capacity rate t t' : K} {b : Bucket K}

omit [IsStrictOrderedRing K] in
theorem sound_full (hcapacity : 0 ≤ capacity) (t : K) : Sound capacity t (full capacity t) :=
  ⟨hcapacity, hcapacity, le_rfl⟩

/-- A full bucket stays full until it is spent from. -/
theorem available_full (hrate : 0 ≤ rate) (htt' : t ≤ t') :
    (full capacity t).available capacity rate t' = capacity := by
  apply accrue_of_full
  have hearned := mul_nonneg (sub_nonneg.mpr htt') hrate
  show capacity ≤ capacity + (t' - t) * rate
  linarith

/-- What the bucket holds accrues from what it holds at any instant. -/
theorem accrue_available (hrate : 0 ≤ rate) (htt' : t ≤ t') :
    accrue capacity rate (t' - t) (b.available capacity rate t) =
      b.available capacity rate t' := by
  unfold available
  rw [accrue_accrue hrate (sub_nonneg.mpr htt')]
  congr 1
  ring

theorem Sound.available_nonneg (h : Sound capacity t b) (hrate : 0 ≤ rate) :
    0 ≤ b.available capacity rate t := by
  have hearned := mul_nonneg (sub_nonneg.mpr h.since_le) hrate
  have hlevel := h.level_nonneg
  exact le_min (by linarith) h.capacity_nonneg

theorem Sound.offer (h : Sound capacity t b) {o : K × K} (hle : t ≤ o.1) :
    Sound capacity o.1 (b.offer capacity rate o) := by
  unfold Bucket.offer
  split
  next haccepts =>
    refine ⟨h.capacity_nonneg, ?_, le_rfl⟩
    exact sub_nonneg.mpr (of_decide_eq_true haccepts)
  next => exact ⟨h.capacity_nonneg, h.level_nonneg, h.since_le.trans hle⟩

/-- Offers spend from what the bucket holds. -/
theorem spendsFrom (capacity : K) (hrate : 0 ≤ rate) :
    SpendsFrom (offer capacity rate) Prod.fst (fun _ _ => True) (paid capacity rate)
      (Sound capacity) (available capacity rate) capacity (fun t t' => rate * (t' - t)) where
  keeps t b o h hle _ := h.offer hle
  spends t b o h hle _ := by
    unfold Bucket.offer paid
    split
    · have hadd := accrue_le_add capacity rate (o.1 - o.1)
        (b.available capacity rate o.1 - o.2)
      rw [sub_self, zero_mul, add_zero] at hadd
      show accrue capacity rate (o.1 - o.1) (b.available capacity rate o.1 - o.2) + o.2 ≤ _
      rw [sub_self]
      linarith
    · rw [add_zero]
  capped t b t' h hle := accrue_le_capacity _ _ _ _
  grows t b t' h hle := by
    rw [← accrue_available hrate hle]
    refine (accrue_le_add _ _ _ _).trans_eq ?_
    ring
  nonneg t b h := h.available_nonneg hrate
  earned_add t t' t'' := by ring
  earned_nonneg t t' hle := mul_nonneg hrate (sub_nonneg.mpr hle)

end Bucket

end RateLimiter.Foundations
