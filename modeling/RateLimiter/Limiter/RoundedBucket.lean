import RateLimiter.Limiter.TokenBucket
import RateLimiter.Redis.Numbers

/-!
# The token bucket in rounded numbers

`TOKEN_BUCKET_SCRIPT` with every operation rounded and the balance kept as a text.  What it
tells a caller to wait is then right to the millisecond: a check one millisecond later is
admitted, and a check more than one millisecond earlier is not.
-/

namespace RateLimiter.Limiter.RoundedBucket

open RateLimiter.Redis RateLimiter.Foundations
open TokenBucketAlgorithm (StoredNonneg)

section Script

variable (num : Arithmetic)

/-- How long until `missing` tokens have accrued. -/
def wait (missing refillRate : Rat) : Int :=
  ⌈num.rnd (num.rnd (missing / refillRate) * 1000)⌉

/-- The balance after `elapsed` milliseconds. -/
def refilled (capacity refillRate current : Rat) (elapsed : Int) : Rat :=
  min (num.rnd (current + num.rnd (num.rnd (elapsed / 1000) * refillRate))) capacity

/-- `TOKEN_BUCKET_SCRIPT`. -/
def script (clock : Int) (capacity refillRate : Rat) (now : Int) (requested : Rat) (ttl : Nat)
    (keys : BucketKeys) : BucketKeys × Verdict :=
  let (current, last) := readBucket capacity now keys
  let current := refilled num capacity refillRate current (max 0 (now - last))
  let allowed := decide (requested ≤ current)
  let left := if allowed then num.rnd (current - requested) else current
  ({ tokens := .setEx clock (num.text left) ttl
     -- the digits of an instant are those of an integer
     timestamp := .setEx clock ⌊num.text now⌋ ttl },
    { allowed := allowed
      count := ⌊left⌋
      resetAt := now + wait num (num.rnd (capacity - left)) refillRate
      retryAfterMs :=
        if allowed then 0 else wait num (num.rnd (requested - current)) refillRate })

/-- Tokens a second. -/
def refillRate (q : Quota) : Rat := num.rnd ((q.limit : Rat) / q.windowSeconds)

/-- The lifetime of the keys. -/
def ttl (q : Quota) : Nat := ⌈num.rnd ((q.limit : Rat) / refillRate num q)⌉₊ + 1

/-- `TokenBucketAlgorithm.check`, at the server's `clock`. -/
def check (clock : Int) (q : Quota) (now : Nat) (cost : Rat) (keys : BucketKeys) :
    BucketKeys × RateLimitCheckResult :=
  let out := script num clock q.limit (refillRate num q) now cost (ttl num q) (keys.purge clock)
  (out.1, checkResult q.limit out.2.count out.2)

/-- Where nothing is rounded this is the script. -/
theorem check_exact (clock : Int) (q : Quota) (now : Nat) (cost : Rat) (keys : BucketKeys) :
    check .exact clock q now cost keys = TokenBucketAlgorithm.check clock q now cost keys := by
  have hnow : ⌊(now : Rat)⌋ = (now : Int) := Int.floor_natCast now
  unfold check script TokenBucketAlgorithm.check tokenBucketScript
  simp [Arithmetic.exact, refilled, wait, refillRate, ttl, TokenBucketAlgorithm.ttl,
    TokenBucketAlgorithm.refillRate, hnow]

end Script

/-! ## The wait for what is missing -/

section Wait

variable {num : Arithmetic} (hnum : num.Faithful) {need left rate : Rat}

include hnum

theorem wait_nonneg (hrate : 0 ≤ rate) (hmissing : 0 ≤ need - left) :
    0 ≤ wait num (num.rnd (need - left)) rate := by
  have hseconds := hnum.rnd_nonneg (div_nonneg (hnum.rnd_nonneg hmissing) hrate)
  exact Int.ceil_nonneg (hnum.rnd_nonneg (mul_nonneg hseconds (by norm_num)))

/-- A millisecond after the wait the need is covered. -/
theorem covered_after_wait (hrate : 0 < rate) (hleft : 0 ≤ left) (hmissing : left ≤ need)
    (hslack : need ≤ rate * (2 * 10 ^ 9)) {elapsed : Int}
    (helapsed : wait num (num.rnd (need - left)) rate < elapsed) :
    need ≤ num.rnd (num.text left + num.rnd (num.rnd (elapsed / 1000) * rate)) := by
  unfold wait at helapsed
  set missing := num.rnd (need - left)
  set seconds := num.rnd (missing / rate)
  set elapsedSeconds := num.rnd ((elapsed : Rat) / 1000)
  set gained := num.rnd (elapsedSeconds * rate)
  have hmissing_ge : (need - left) * (1 - 1 / 10 ^ 15) ≤ missing :=
    (hnum.rnd_bounds (sub_nonneg.mpr hmissing)).1
  have hmissing_nonneg : 0 ≤ missing := hnum.rnd_nonneg (sub_nonneg.mpr hmissing)
  have hseconds_nonneg : 0 ≤ seconds := hnum.rnd_nonneg (by positivity)
  -- each operation loses its share of what is earned
  have hseconds : missing * (1 - 1 / 10 ^ 15) ≤ seconds * rate := by
    have hbound := (hnum.rnd_bounds (q := missing / rate) (by positivity)).1
    have hscaled := mul_le_mul_of_nonneg_right hbound hrate.le
    have hsame : missing / rate * (1 - 1 / 10 ^ 15) * rate = missing * (1 - 1 / 10 ^ 15) := by
      field_simp
    linarith
  have hwait : num.rnd (seconds * 1000) + 1 ≤ elapsed := by
    have hceil : num.rnd (seconds * 1000) ≤ (⌈num.rnd (seconds * 1000)⌉ : Int) := Int.le_ceil _
    have hnext : ((⌈num.rnd (seconds * 1000)⌉ + 1 : Int) : Rat) ≤ elapsed := by
      exact_mod_cast helapsed
    push_cast at hnext
    linarith
  have hwait_ge := (hnum.rnd_bounds (q := seconds * 1000) (by positivity)).1
  have hspan : seconds * (1 - 1 / 10 ^ 15) + 1 / 1000 ≤ (elapsed : Rat) / 1000 := by linarith
  have hspan_nonneg : (0 : Rat) ≤ (elapsed : Rat) / 1000 := by
    have hpos : 0 ≤ seconds * (1 - 1 / 10 ^ 15) := mul_nonneg hseconds_nonneg (by norm_num)
    linarith
  have helapsed_ge := (hnum.rnd_bounds hspan_nonneg).1
  have helapsed_nonneg : 0 ≤ elapsedSeconds := hnum.rnd_nonneg hspan_nonneg
  have hgained := (hnum.rnd_bounds (mul_nonneg helapsed_nonneg hrate.le)).1
  have hgained_nonneg : 0 ≤ gained := hnum.rnd_nonneg (mul_nonneg helapsed_nonneg hrate.le)
  have hspan_rate := mul_le_mul_of_nonneg_right hspan hrate.le
  have helapsed_rate := mul_le_mul_of_nonneg_right helapsed_ge hrate.le
  have htext := (hnum.text_bounds hleft).1
  have htext_nonneg := hnum.text_nonneg hleft
  have htotal := (hnum.rnd_bounds (add_nonneg htext_nonneg hgained_nonneg)).1
  linarith

/-- A millisecond before the wait is over the need is not covered. -/
theorem short_before_wait (hrate : 0 < rate) (hleft : 0 ≤ left) (hmissing : left ≤ need)
    (hslack : need ≤ rate * (2 * 10 ^ 9)) {elapsed : Int} (hspan : 0 ≤ elapsed)
    (helapsed : elapsed + 1 < wait num (num.rnd (need - left)) rate) :
    num.rnd (num.text left + num.rnd (num.rnd (elapsed / 1000) * rate)) < need := by
  unfold wait at helapsed
  set missing := num.rnd (need - left)
  set seconds := num.rnd (missing / rate)
  set elapsedSeconds := num.rnd ((elapsed : Rat) / 1000)
  set gained := num.rnd (elapsedSeconds * rate)
  have hmissing_le : missing ≤ (need - left) * (1 + 1 / 10 ^ 15) :=
    (hnum.rnd_bounds (sub_nonneg.mpr hmissing)).2
  have hmissing_nonneg : 0 ≤ missing := hnum.rnd_nonneg (sub_nonneg.mpr hmissing)
  have hseconds_nonneg : 0 ≤ seconds := hnum.rnd_nonneg (by positivity)
  have hseconds : seconds * rate ≤ missing * (1 + 1 / 10 ^ 15) := by
    have hbound := (hnum.rnd_bounds (q := missing / rate) (by positivity)).2
    have hscaled := mul_le_mul_of_nonneg_right hbound hrate.le
    have hsame : missing / rate * (1 + 1 / 10 ^ 15) * rate = missing * (1 + 1 / 10 ^ 15) := by
      field_simp
    linarith
  have hwait : (elapsed : Rat) + 1 < num.rnd (seconds * 1000) := by
    have hceil := Int.lt_ceil.mp helapsed
    push_cast at hceil
    exact hceil
  have hwait_le := (hnum.rnd_bounds (q := seconds * 1000) (by positivity)).2
  have hshort : (elapsed : Rat) / 1000 ≤ seconds * (1 + 1 / 10 ^ 15) - 1 / 1000 := by linarith
  have hspan_nonneg : (0 : Rat) ≤ (elapsed : Rat) / 1000 := by
    have hcast : (0 : Rat) ≤ elapsed := by exact_mod_cast hspan
    positivity
  have helapsed_le := (hnum.rnd_bounds hspan_nonneg).2
  have helapsed_nonneg : 0 ≤ elapsedSeconds := hnum.rnd_nonneg hspan_nonneg
  have hgained := (hnum.rnd_bounds (mul_nonneg helapsed_nonneg hrate.le)).2
  have hgained_nonneg : 0 ≤ gained := hnum.rnd_nonneg (mul_nonneg helapsed_nonneg hrate.le)
  have hshort_rate := mul_le_mul_of_nonneg_right hshort hrate.le
  have helapsed_rate := mul_le_mul_of_nonneg_right helapsed_le hrate.le
  have htext := (hnum.text_bounds hleft).2
  have htext_nonneg := hnum.text_nonneg hleft
  have htotal := (hnum.rnd_bounds (add_nonneg htext_nonneg hgained_nonneg)).2
  linarith

end Wait

/-! ## A check and the next -/

/-- A quota that fourteen digits are enough for. -/
structure Storable (q : Quota) : Prop where
  limit : q.limit < 10 ^ 14
  window : q.windowSeconds ≤ 10 ^ 9

section Check

variable (num : Arithmetic) (q : Quota) (keys : BucketKeys) (v : Nat)

/-- The balance that a check decides on. -/
def found : Rat :=
  refilled num q.limit (refillRate num q) (readBucket q.limit v (keys.purge v)).1
    (max 0 ((v : Int) - (readBucket q.limit v (keys.purge v)).2))

/-- What a check at the default cost leaves of it. -/
def left : Rat :=
  if 1 ≤ found num q keys v then num.rnd (found num q keys v - 1) else found num q keys v

/-- The keys after a check. -/
def written (balance : Rat) : BucketKeys :=
  ⟨.setEx v (num.text balance) (ttl num q), .setEx v ⌊num.text v⌋ (ttl num q)⟩

/-- The result of a check. -/
def resultOf : RateLimitCheckResult :=
  checkResult q.limit ⌊left num q keys v⌋
    { allowed := decide (1 ≤ found num q keys v)
      count := ⌊left num q keys v⌋
      resetAt := v + wait num (num.rnd (q.limit - left num q keys v)) (refillRate num q)
      retryAfterMs :=
        if 1 ≤ found num q keys v then 0
        else wait num (num.rnd (1 - found num q keys v)) (refillRate num q) }

theorem check_eq :
    check num v q v 1 keys = (written num q v (left num q keys v), resultOf num q keys v) := by
  unfold check script resultOf written left found
  simp only [decide_eq_true_eq]
  rfl

end Check

section Found

variable {num : Arithmetic} (hnum : num.Faithful) {q : Quota} {keys : BucketKeys} {t v : Nat}

include hnum

theorem refillRate_pos (q : Quota) : 0 < refillRate num q := by
  have hlimit : (0 : Rat) < q.limit := by exact_mod_cast q.limit_pos
  have hwindow : (0 : Rat) < q.windowSeconds := by exact_mod_cast q.windowSeconds_pos
  exact hnum.rnd_pos (div_pos hlimit hwindow)

/-- A limit accrues within its window, but for the rounding. -/
theorem limit_le_refillRate (hq : Storable q) :
    (q.limit : Rat) ≤ refillRate num q * (2 * 10 ^ 9) := by
  have hlimit : (0 : Rat) < q.limit := by exact_mod_cast q.limit_pos
  have hwindow : (0 : Rat) < q.windowSeconds := by exact_mod_cast q.windowSeconds_pos
  have hshort : (q.windowSeconds : Rat) ≤ 10 ^ 9 := by exact_mod_cast hq.window
  have hrate := (hnum.rnd_bounds (div_pos hlimit hwindow).le).1
  have hspread : (q.limit : Rat) / 10 ^ 9 ≤ (q.limit : Rat) / q.windowSeconds :=
    div_le_div_of_nonneg_left hlimit.le hwindow hshort
  unfold refillRate
  linarith

theorem refilled_nonneg {capacity rate current : Rat} (hcapacity : 0 ≤ capacity) (hrate : 0 ≤ rate)
    (hcurrent : 0 ≤ current) {elapsed : Int} (hspan : 0 ≤ elapsed) :
    0 ≤ refilled num capacity rate current elapsed := by
  have hcast : (0 : Rat) ≤ elapsed := by exact_mod_cast hspan
  have hearned := hnum.rnd_nonneg (mul_nonneg (hnum.rnd_nonneg (q := (elapsed : Rat) / 1000)
    (by positivity)) hrate)
  exact le_min (hnum.rnd_nonneg (add_nonneg hcurrent hearned)) hcapacity

theorem found_mem (hstored : StoredNonneg keys) :
    0 ≤ found num q keys v ∧ found num q keys v ≤ q.limit := by
  refine ⟨?_, min_le_right _ _⟩
  refine refilled_nonneg hnum (Nat.cast_nonneg _) (refillRate_pos hnum q).le ?_ (le_max_left _ _)
  unfold readBucket
  split
  next balance last hbalance _ => exact hstored.purged v hbalance
  next => exact Nat.cast_nonneg _

theorem left_mem (hstored : StoredNonneg keys) :
    0 ≤ left num q keys v ∧ (q.limit < 10 ^ 14 → left num q keys v ≤ q.limit) := by
  obtain ⟨hnonneg, hlimit⟩ := found_mem hnum hstored (q := q) (v := v)
  unfold left
  split
  next hone =>
    have hrest : 0 ≤ found num q keys v - 1 := sub_nonneg.mpr hone
    refine ⟨hnum.rnd_nonneg hrest, fun hdigits => ?_⟩
    -- a rounding of less than a token does not make up for the token that was taken
    have hround := (hnum.rnd_bounds hrest).2
    have hcast : (q.limit : Rat) ≤ 10 ^ 14 := by exact_mod_cast hdigits.le
    linarith
  next => exact ⟨hnonneg, fun _ => hlimit⟩

theorem storedNonneg_written {balance : Rat} (hbalance : 0 ≤ balance) :
    StoredNonneg (written num q v balance) := by
  intro stored hstored
  obtain rfl : num.text balance = stored := Option.some.inj hstored
  exact hnum.text_nonneg hbalance

theorem refilled_now {capacity rate current : Rat} :
    refilled num capacity rate current 0 = min (num.rnd current) capacity := by
  unfold refilled
  rw [Int.cast_zero, zero_div, hnum.rnd_zero, zero_mul, hnum.rnd_zero, add_zero]

/-- What a check finds in the keys that another has written: what has accrued, or a full bucket
once they have expired. -/
theorem found_written (hq : Storable q) (hclock : t < 10 ^ 14) (balance : Rat) (hle : t ≤ v) :
    found num q (written num q t balance) v =
      if (v : Int) ≤ t + 1000 * ttl num q then
        refilled num q.limit (refillRate num q) (num.text balance) ((v : Int) - t)
      else q.limit := by
  have hspan : max 0 ((v : Int) - t) = (v : Int) - t := max_eq_right (by omega)
  have hinstant : ⌊num.text (t : Rat)⌋ = (t : Int) := by
    rw [hnum.text_natCast hclock, Int.floor_natCast]
  unfold found BucketKeys.purge written StringKey.setEx
  rw [hinstant]
  split
  next hkept =>
    rw [StringKey.purge_some_of_le hkept, StringKey.purge_some_of_le hkept]
    show refilled num q.limit (refillRate num q) (num.text balance) (max 0 ((v : Int) - t)) = _
    rw [hspan]
  next hgone =>
    rw [StringKey.purge_some_of_lt (not_le.mp hgone), StringKey.purge_some_of_lt (not_le.mp hgone)]
    show refilled num q.limit (refillRate num q) q.limit (max 0 ((v : Int) - v)) = _
    have hfull := hnum.rnd_natCast (hq.limit.trans (by decide))
    rw [sub_self, max_self, refilled_now hnum, hfull, min_self]

/-- A wait that is over leaves a bucket with the need covered, whether or not its keys are
still there. -/
theorem covered_later (hq : Storable q) (hclock : t < 10 ^ 14) {balance need : Rat}
    (hbalance : 0 ≤ balance) (hmissing : balance ≤ need) (hneed : need ≤ q.limit) (hle : t ≤ v)
    (hover : (t : Int) + wait num (num.rnd (need - balance)) (refillRate num q) < v) :
    need ≤ found num q (written num q t balance) v := by
  rw [found_written hnum hq hclock balance hle]
  split
  next =>
    refine le_min ?_ hneed
    exact covered_after_wait hnum (refillRate_pos hnum q) hbalance hmissing
      (hneed.trans (limit_le_refillRate hnum hq)) (by omega)
  next => exact hneed

/-! ### What a rejected caller is told -/

/-- The keys outlive the wait for a token. -/
theorem wait_le_ttl (hq : Storable q) {missing : Rat} (hmissing : 0 ≤ missing)
    (hone : missing ≤ 1) :
    wait num (num.rnd missing) (refillRate num q) ≤ 1000 * ttl num q := by
  have hrate := refillRate_pos hnum q
  have hlimit : (1 : Rat) ≤ q.limit := by exact_mod_cast q.limit_pos
  have hslack := limit_le_refillRate hnum hq
  have hsecond : (1 : Rat) / refillRate num q ≤ 2 * 10 ^ 9 := by
    rw [div_le_iff₀ hrate]
    linarith
  have hspan : num.rnd missing / refillRate num q ≤
      (1 + 1 / 10 ^ 15) * (1 / refillRate num q) := by
    have hround := (hnum.rnd_bounds hmissing).2
    rw [mul_one_div]
    refine div_le_div_of_nonneg_right ?_ hrate.le
    linarith
  have hnonneg : 0 ≤ num.rnd missing / refillRate num q :=
    div_nonneg (hnum.rnd_nonneg hmissing) hrate.le
  have hseconds := (hnum.rnd_bounds hnonneg).2
  have hseconds_nonneg := hnum.rnd_nonneg hnonneg
  have hwait := (hnum.rnd_bounds (mul_nonneg hseconds_nonneg (by norm_num : (0 : Rat) ≤ 1000))).2
  have hfull : 1 / refillRate num q ≤ (q.limit : Rat) / refillRate num q :=
    div_le_div_of_nonneg_right hlimit hrate.le
  have hfull_nonneg : 0 ≤ (q.limit : Rat) / refillRate num q := by positivity
  have hlife := (hnum.rnd_bounds hfull_nonneg).1
  have hceil : num.rnd ((q.limit : Rat) / refillRate num q) ≤
      (⌈num.rnd ((q.limit : Rat) / refillRate num q)⌉₊ : Nat) := Nat.le_ceil _
  unfold wait ttl
  rw [Int.ceil_le]
  push_cast
  linarith

/-- The wait a rejected check names is right to the millisecond. -/
theorem hint (hq : Storable q) (hclock : t < 10 ^ 14) (hstored : StoredNonneg keys)
    (hrejected : found num q keys t < 1) :
    0 < wait num (num.rnd (1 - found num q keys t)) (refillRate num q) ∧
      ∀ v : Nat, t ≤ v →
        ((t : Int) + wait num (num.rnd (1 - found num q keys t)) (refillRate num q) < v →
          1 ≤ found num q (written num q t (left num q keys t)) v) ∧
        ((v : Int) + 1 < t + wait num (num.rnd (1 - found num q keys t)) (refillRate num q) →
          found num q (written num q t (left num q keys t)) v < 1) := by
  have hrate := refillRate_pos hnum q
  have hone : (1 : Rat) ≤ q.limit := by exact_mod_cast q.limit_pos
  have hnonneg := (found_mem hnum hstored (q := q) (v := t)).1
  have hleft : left num q keys t = found num q keys t := if_neg (not_le.mpr hrejected)
  have hmissing : 0 < 1 - found num q keys t := sub_pos.mpr hrejected
  rw [hleft]
  refine ⟨?_, fun v hle => ⟨?_, ?_⟩⟩
  · have hpos := hnum.rnd_pos (mul_pos (hnum.rnd_pos (div_pos (hnum.rnd_pos hmissing) hrate))
      (by norm_num : (0 : Rat) < 1000))
    exact Int.ceil_pos.mpr hpos
  · intro hover
    exact covered_later hnum hq hclock hnonneg hrejected.le hone hle hover
  · intro hearly
    have hlife := wait_le_ttl hnum hq hmissing.le (by linarith)
    rw [found_written hnum hq hclock _ hle, if_pos (by omega)]
    refine lt_of_le_of_lt (min_le_left _ _) ?_
    exact short_before_wait hnum hrate hnonneg hrejected.le
      (hone.trans (limit_le_refillRate hnum hq)) (by omega) (by omega)

/-- A millisecond after the reset that a check reports the bucket is full. -/
theorem full_after_reset (hq : Storable q) (hclock : t < 10 ^ 14) (hstored : StoredNonneg keys)
    (hle : t ≤ v)
    (hover : (t : Int) + wait num (num.rnd (q.limit - left num q keys t)) (refillRate num q) < v) :
    found num q (written num q t (left num q keys t)) v = q.limit := by
  obtain ⟨hnonneg, hlimit⟩ := left_mem hnum hstored (q := q) (v := t)
  exact le_antisymm (min_le_right _ _)
    (covered_later hnum hq hclock hnonneg (hlimit hq.limit) le_rfl hle hover)

/-- Of whole tokens a check takes one and leaves the rest, to the check after it at once. -/
theorem found_next (hq : Storable q) (hclock : v < 10 ^ 14) {tokens : Nat}
    (htokens : found num q keys v = (tokens + 1 : Nat)) :
    found num q (written num q v (left num q keys v)) v = tokens := by
  have hlimit : ((tokens + 1 : Nat) : Rat) ≤ q.limit := htokens ▸ min_le_right _ _
  have hwithin : tokens < 10 ^ 14 := by
    have hcast : tokens + 1 ≤ q.limit := by exact_mod_cast hlimit
    exact (Nat.lt_of_succ_le hcast).trans hq.limit
  have hleft : left num q keys v = tokens := by
    have hone : 1 ≤ found num q keys v := by
      rw [htokens]
      exact_mod_cast Nat.succ_pos tokens
    unfold left
    rw [if_pos hone, htokens]
    push_cast
    rw [add_sub_cancel_right]
    exact hnum.rnd_natCast (hwithin.trans (by decide))
  rw [found_written hnum hq hclock _ le_rfl, if_pos (by omega), sub_self, refilled_now hnum, hleft,
    hnum.text_natCast hwithin, hnum.rnd_natCast (hwithin.trans (by decide))]
  refine min_eq_left ?_
  push_cast at hlimit
  linarith

end Found

end RateLimiter.Limiter.RoundedBucket
