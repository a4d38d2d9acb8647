import RateLimiter.Foundations.Bucket
import RateLimiter.Limiter.Checks
import RateLimiter.Redis.StoredBalance

/-!
# The token bucket

`TOKEN_BUCKET_SCRIPT` and the check that runs it.  The script rewrites the balance and
its clock on every call and its keys expire; an ideal bucket does neither.  The two
cannot be told apart by their verdicts.
-/

namespace RateLimiter.Limiter

open RateLimiter.Redis RateLimiter.Foundations

/-- The two keys of a bucket. -/
structure BucketKeys where
  tokens : StringKey Rat
  timestamp : StringKey Int

namespace BucketKeys

/-- Neither key exists. -/
def absent : BucketKeys := ⟨none, none⟩

/-- What is left of the keys at the server's `clock`. -/
def purge (clock : Int) (keys : BucketKeys) : BucketKeys :=
  ⟨keys.tokens.purge clock, keys.timestamp.purge clock⟩

end BucketKeys

/-- The stored balance and its clock, a full bucket when either is missing. -/
def readBucket (capacity : Rat) (now : Int) (keys : BucketKeys) : Rat × Int :=
  match keys.tokens.get, keys.timestamp.get with
  | some current, some last => (current, last)
  | _, _ => (capacity, now)

/-- `TOKEN_BUCKET_SCRIPT`. -/
def tokenBucketScript (clock : Int) (capacity refillRate : Rat) (now : Int) (requested : Rat)
    (ttl : Nat) (keys : BucketKeys) : BucketKeys × Verdict :=
  let (current, last) := readBucket capacity now keys
  let elapsed : Rat := (max 0 (now - last) : Int) / 1000
  let current := min (current + elapsed * refillRate) capacity
  let allowed := decide (requested ≤ current)
  let left := if allowed then current - requested else current
  ({ tokens := .setEx clock left ttl
     timestamp := .setEx clock now ttl },
    { allowed := allowed
      count := ⌊left⌋
      resetAt := now + ⌈(capacity - left) / refillRate * 1000⌉
      retryAfterMs := if allowed then 0 else ⌈(requested - current) / refillRate * 1000⌉ })

namespace TokenBucketAlgorithm

/-- Tokens a second. -/
def refillRate (q : Quota) : Rat := (q.limit : Rat) / q.windowSeconds

/-- Key lifetime must cover a refill from empty to full. -/
def ttl (q : Quota) : Nat := ⌈(q.limit : Rat) / refillRate q⌉₊ + 1

/-- `check`, at the server's `clock`. -/
def check (clock : Int) (q : Quota) (now : Nat) (cost : Rat) (keys : BucketKeys) :
    BucketKeys × RateLimitCheckResult :=
  let out := tokenBucketScript clock q.limit (refillRate q) now cost (ttl q) (keys.purge clock)
  (out.1, checkResult q.limit out.2.count out.2)

end TokenBucketAlgorithm

/-! ## What the script does -/

/-- The balance the script decides on. -/
def bucketBalance (capacity refillRate : Rat) (now : Int) (keys : BucketKeys) : Rat :=
  match keys.tokens.get, keys.timestamp.get with
  | some current, some last =>
      accrue capacity refillRate ((max 0 (now - last) : Int) / 1000) current
  | _, _ => capacity

/-- The script admits what the balance covers, takes it off and stores what is left. -/
theorem tokenBucketScript_spec (clock : Int) (capacity refillRate : Rat) (now : Int)
    (requested : Rat) (ttl : Nat) (keys : BucketKeys) :
    (tokenBucketScript clock capacity refillRate now requested ttl keys).2.allowed =
        decide (requested ≤ bucketBalance capacity refillRate now keys) ∧
      (tokenBucketScript clock capacity refillRate now requested ttl keys).1 =
        { tokens := .setEx clock
            (if requested ≤ bucketBalance capacity refillRate now keys then
              bucketBalance capacity refillRate now keys - requested
            else bucketBalance capacity refillRate now keys) ttl
          timestamp := .setEx clock now ttl } := by
  have hbalance : bucketBalance capacity refillRate now keys =
      min ((readBucket capacity now keys).1 +
        (max 0 (now - (readBucket capacity now keys).2) : Int) / 1000 * refillRate) capacity := by
    unfold bucketBalance readBucket
    split
    next => rfl
    next => simp
  unfold tokenBucketScript
  rw [hbalance]
  simp only [decide_eq_true_eq, and_self]

/-! ## Calls over time -/

/-- A call on the clock it shares with the server. -/
structure BucketCheck where
  now : Nat
  cost : Rat

namespace BucketCheck

/-- The offer a call makes to an ideal bucket, in seconds. -/
def offer (c : BucketCheck) : Rat × Rat := ((c.now : Rat) / 1000, c.cost)

end BucketCheck

namespace TokenBucketAlgorithm

/-- The keys a call leaves. -/
def step (q : Quota) (keys : BucketKeys) (c : BucketCheck) : BucketKeys :=
  (check c.now q c.now c.cost keys).1

/-- Is the call allowed? -/
def allowed (q : Quota) (keys : BucketKeys) (c : BucketCheck) : Bool :=
  (check c.now q c.now c.cost keys).2.allowed

/-- What a call consumes. -/
def consumed (q : Quota) (keys : BucketKeys) (c : BucketCheck) : Rat :=
  if allowed q keys c then c.cost else 0

theorem refillRate_pos (q : Quota) : 0 < refillRate q :=
  div_pos (by exact_mod_cast q.limit_pos) (by exact_mod_cast q.windowSeconds_pos)

/-- An empty bucket fills while its keys are still there. -/
theorem fills_within_ttl (q : Quota) : (q.limit : Rat) ≤ ttl q * refillRate q := by
  have hrate := refillRate_pos q
  have hceil : (q.limit : Rat) / refillRate q ≤ ttl q := by
    refine (Nat.le_ceil _).trans ?_
    exact_mod_cast Nat.le_succ _
  exact (div_le_iff₀ hrate).mp hceil

/-- No balance that is stored is a debt. -/
def StoredNonneg (keys : BucketKeys) : Prop :=
  ∀ balance, keys.tokens.get = some balance → 0 ≤ balance

theorem StoredNonneg.purged (h : StoredNonneg keys) (v : Int) {balance : Rat}
    (hbalance : (keys.tokens.purge v).get = some balance) : 0 ≤ balance := by
  refine h balance ?_
  cases htokens : keys.tokens with
  | none =>
      rw [htokens] at hbalance
      cases hbalance
  | some timed =>
      rw [htokens] at hbalance
      by_cases hlive : v ≤ timed.expireAt
      · rw [StringKey.purge_some_of_le hlive] at hbalance
        exact hbalance
      · rw [StringKey.purge_some_of_lt (not_le.mp hlive)] at hbalance
        cases hbalance

/-- The balance a call at `v` finds. -/
def found (q : Quota) (keys : BucketKeys) (v : Int) : Rat :=
  storedBalance q.limit (refillRate q) keys.tokens keys.timestamp v

/-- The ideal bucket of a quota accepts an offer. -/
abbrev idealAccepts (q : Quota) : Bucket Rat → Rat × Rat → Bool :=
  Bucket.accepts (q.limit : Rat) (refillRate q)

/-- What an offer does to the ideal bucket of a quota. -/
abbrev idealStep (q : Quota) : Bucket Rat → Rat × Rat → Bucket Rat :=
  Bucket.offer (q.limit : Rat) (refillRate q)

/-- The keys stand for an ideal bucket: from `t` on a call finds in them what the bucket
holds. -/
structure StandsFor (q : Quota) (t : Nat) (keys : BucketKeys) (b : Bucket Rat) : Prop where
  sound : Bucket.Sound (q.limit : Rat) ((t : Rat) / 1000) b
  agrees : ∀ v : Int, t ≤ v → found q keys v = b.available (q.limit : Rat) (refillRate q) (v / 1000)

section Step

variable {q : Quota} {t : Nat} {keys : BucketKeys} {b : Bucket Rat} {c : BucketCheck}

theorem allowed_iff : allowed q keys c = true ↔ c.cost ≤ found q keys c.now := by
  have hspec := (tokenBucketScript_spec c.now q.limit (refillRate q) c.now c.cost (ttl q)
    (keys.purge c.now)).1
  exact (Bool.eq_iff_iff.mp hspec).trans decide_eq_true_iff

/-- What a call leaves of the balance it finds. -/
def remaining (q : Quota) (keys : BucketKeys) (c : BucketCheck) : Rat :=
  if c.cost ≤ found q keys c.now then found q keys c.now - c.cost else found q keys c.now

theorem remaining_nonneg (hfound : 0 ≤ found q keys c.now) : 0 ≤ remaining q keys c := by
  unfold remaining
  split
  next hcovered => exact sub_nonneg.mpr hcovered
  next => exact hfound

/-- A call stores what it leaves, and when. -/
theorem step_keys (q : Quota) (keys : BucketKeys) (c : BucketCheck) :
    step q keys c = ⟨.setEx c.now (remaining q keys c) (ttl q), .setEx c.now c.now (ttl q)⟩ :=
  (tokenBucketScript_spec c.now q.limit (refillRate q) c.now c.cost (ttl q) (keys.purge c.now)).2

/-- After a call the balance accrues from what the call has left of it. -/
theorem found_step (hfound : 0 ≤ found q keys c.now) {v : Int} (hv : (c.now : Int) ≤ v) :
    found q (step q keys c) v =
      accrue (q.limit : Rat) (refillRate q) ((v - c.now : Int) / 1000)
        (if c.cost ≤ found q keys c.now then found q keys c.now - c.cost
          else found q keys c.now) := by
  rw [step_keys]
  exact storedBalance_setEx (refillRate_pos q).le (remaining_nonneg hfound)
    (fills_within_ttl q) hv

/-- A call and the offer it makes are answered alike, and the keys stand for the bucket
that the offer leaves. -/
theorem StandsFor.step (h : StandsFor q t keys b) (hle : t ≤ c.now) :
    allowed q keys c = idealAccepts q b c.offer ∧
      StandsFor q c.now (step q keys c) (idealStep q b c.offer) := by
  have hseconds : (t : Rat) / 1000 ≤ (c.now : Rat) / 1000 := by
    have hcast : (t : Rat) ≤ c.now := by exact_mod_cast hle
    linarith
  have hrate := (refillRate_pos q).le
  have hsound : Bucket.Sound (q.limit : Rat) ((c.now : Rat) / 1000) (idealStep q b c.offer) :=
    h.sound.offer (o := c.offer) hseconds
  have hnow : found q keys c.now =
      b.available (q.limit : Rat) (refillRate q) ((c.now : Rat) / 1000) := by
    have hagrees := h.agrees c.now (by exact_mod_cast hle)
    push_cast at hagrees
    exact hagrees
  have hnonneg : 0 ≤ found q keys c.now := by
    rw [hnow]
    exact (Bucket.Sound.mk h.sound.capacity_nonneg h.sound.level_nonneg
      (h.sound.since_le.trans hseconds)).available_nonneg hrate
  have hverdict : allowed q keys c = idealAccepts q b c.offer := by
    rw [Bool.eq_iff_iff, allowed_iff, hnow]
    exact decide_eq_true_iff.symm
  refine ⟨hverdict, hsound, ?_⟩
  intro v hv
  have hspan : ((v - c.now : Int) : Rat) / 1000 = (v : Rat) / 1000 - (c.now : Rat) / 1000 := by
    push_cast
    ring
  rw [found_step hnonneg hv, hspan]
  by_cases hcovered : c.cost ≤ found q keys c.now
  · -- an admitted call pays in both
    have haccepts : idealAccepts q b c.offer = true := hverdict ▸ allowed_iff.mpr hcovered
    have hspent : idealStep q b c.offer = _ := Bucket.offer_of_accepts haccepts
    rw [if_pos hcovered, hspent, hnow]
    rfl
  · -- a rejected one splits an interval of accrual, which cannot be told
    have hrejects : idealAccepts q b c.offer = false := by
      rw [← hverdict, Bool.eq_false_iff, ne_eq, allowed_iff]
      exact hcovered
    have hkept : idealStep q b c.offer = b := Bucket.offer_of_rejects hrejects
    rw [if_neg hcovered, hkept, hnow]
    refine Bucket.accrue_available hrate ?_
    have hcast : (c.now : Rat) ≤ v := by exact_mod_cast hv
    linarith

end Step

/-- Absent keys stand for a bucket that starts full. -/
theorem standsFor_absent (q : Quota) (t : Nat) :
    StandsFor q t .absent (Bucket.full (q.limit : Rat) ((t : Rat) / 1000)) := by
  refine ⟨Bucket.sound_full (by positivity) _, ?_⟩
  intro v hv
  have hcast : (t : Rat) ≤ v := by exact_mod_cast hv
  exact (Bucket.available_full (refillRate_pos q).le (by linarith)).symm

section Run

variable {q : Quota} {t0 : Nat} {checks : List BucketCheck}

/-- A run of calls and the run of their offers, with whatever each step is asked that both
answer alike. -/
theorem ideal_run {ω : Type*} {out : BucketKeys → BucketCheck → ω}
    {out' : Bucket Rat → Rat × Rat → ω}
    (hout : ∀ keys b c, allowed q keys c = idealAccepts q b c.offer → out keys c = out' b c.offer)
    {t : Nat} {keys : BucketKeys} {b : Bucket Rat} (h : StandsFor q t keys b)
    (htime : Chronological BucketCheck.now t checks) :
    outputs (step q) out keys checks =
        outputs (idealStep q) out' b (checks.map BucketCheck.offer) ∧
      StandsFor q (lastTime BucketCheck.now t checks) (run (step q) keys checks)
        (run (idealStep q) b (checks.map BucketCheck.offer)) := by
  refine simulated_run BucketCheck.now (P := fun _ => True) ?_ h htime fun _ _ => trivial
  intro t keys b c hstands hle _
  obtain ⟨hverdict, hnext⟩ := hstands.step hle
  exact ⟨hout keys b c hverdict, hnext⟩

/-- A rejected call leaves the verdicts of the calls after it as they were. -/
theorem rejected_invisible {before after : List BucketCheck} {c : BucketCheck}
    (htime : Chronological BucketCheck.now t0 (before ++ c :: after))
    (hrejected : allowed q (run (step q) .absent before) c = false) :
    outputs (step q) (allowed q) (run (step q) .absent (before ++ [c])) after =
      outputs (step q) (allowed q) (run (step q) .absent before) after := by
  obtain ⟨hbefore, hle, hafter⟩ := (chronological_append _ _ _ _).mp htime
  obtain ⟨-, hstands⟩ := ideal_run (fun _ _ _ h => h) (standsFor_absent q t0) hbefore
  obtain ⟨hverdict, hnext⟩ := hstands.step hle
  have hkept : idealStep q _ c.offer = _ :=
    Bucket.offer_of_rejects (hverdict.symm.trans hrejected)
  rw [hkept] at hnext
  have hlater : Chronological BucketCheck.now (lastTime BucketCheck.now t0 before) after := by
    cases after with
    | nil => trivial
    | cons next after => exact ⟨hle.trans hafter.1, hafter.2⟩
  obtain ⟨hwith, -⟩ := ideal_run (fun _ _ _ h => h) hnext hafter
  obtain ⟨hwithout, -⟩ := ideal_run (fun _ _ _ h => h) hstands hlater
  rw [run_append, run_cons, run_nil, hwith, hwithout]

/-- The cost admitted within `[a, b]`. -/
def admittedWithin (q : Quota) (a b : Rat) (keys : BucketKeys) (c : BucketCheck) : Rat :=
  if a ≤ c.now ∧ c.now ≤ b then consumed q keys c else 0

/-- What the ideal bucket pays within `[a, b]`, on its clock of seconds. -/
def paidWithin (q : Quota) (a b : Rat) (u : Bucket Rat) (o : Rat × Rat) : Rat :=
  if a / 1000 ≤ o.1 ∧ o.1 ≤ b / 1000 then u.paid (q.limit : Rat) (refillRate q) o else 0

theorem admittedWithin_le (htime : Chronological BucketCheck.now t0 checks) {a b : Rat}
    (hab : a ≤ b) :
    tally (step q) (admittedWithin q a b) .absent checks ≤
      (q.limit : Rat) + (q.limit : Rat) / q.windowSeconds * (b - a) / 1000 := by
  have hrate := (refillRate_pos q).le
  have hoffers : Chronological Prod.fst ((t0 : Rat) / 1000)
      (checks.map BucketCheck.offer) := by
    refine chronological_map BucketCheck.now (φ := fun t : Nat => (t : Rat) / 1000) ?_
      (fun _ => rfl) htime
    intro t t' hle
    have hcast : (t : Rat) ≤ t' := by exact_mod_cast hle
    linarith
  have hideal := (Bucket.spendsFrom (q.limit : Rat) hrate).spent_within_le
    (Bucket.sound_full (by positivity) ((t0 : Rat) / 1000)) hoffers
    (along_of_forall _ (fun _ _ => trivial) _) (by linarith : a / 1000 ≤ b / 1000)
  have hpaid : ∀ (keys : BucketKeys) (u : Bucket Rat) (c : BucketCheck),
      allowed q keys c = idealAccepts q u c.offer →
        admittedWithin q a b keys c = paidWithin q a b u c.offer := by
    intro keys u c hverdict
    have hwithin : (a ≤ c.now ∧ (c.now : Rat) ≤ b) ↔
        (a / 1000 ≤ c.offer.1 ∧ c.offer.1 ≤ b / 1000) := by
      unfold BucketCheck.offer
      rw [div_le_div_iff_of_pos_right (by norm_num), div_le_div_iff_of_pos_right (by norm_num)]
    unfold admittedWithin paidWithin consumed Bucket.paid
    rw [hverdict]
    exact if_congr hwithin rfl rfl
  rw [tally_eq_sum, (ideal_run hpaid (standsFor_absent q t0) htime).1, ← tally_eq_sum]
  apply hideal.trans_eq
  unfold refillRate
  ring

end Run

/-- **Token bucket.**  The calls on a key get the verdicts of an ideal bucket that starts
full, accrues at the limit per window and is changed by admitted calls only; a rejected call
leaves all later verdicts as they were; and in any interval of time no more is admitted than
the limit and what accrues in the interval. -/
theorem token_bucket_conforms (q : Quota) (t0 : Nat) (checks : List BucketCheck)
    (htime : Chronological BucketCheck.now t0 checks) :
    outputs (step q) (allowed q) .absent checks =
        outputs (idealStep q) (idealAccepts q) (Bucket.full (q.limit : Rat) ((t0 : Rat) / 1000))
          (checks.map BucketCheck.offer) ∧
      (∀ before c after, checks = before ++ c :: after →
        allowed q (run (step q) .absent before) c = false →
        outputs (step q) (allowed q) (run (step q) .absent (before ++ [c])) after =
          outputs (step q) (allowed q) (run (step q) .absent before) after) ∧
      ∀ a b : Rat, a ≤ b →
        tally (step q) (admittedWithin q a b) .absent checks ≤
          (q.limit : Rat) + (q.limit : Rat) / q.windowSeconds * (b - a) / 1000 := by
  refine ⟨(ideal_run (fun _ _ _ h => h) (standsFor_absent q t0) htime).1, ?_, ?_⟩
  · intro before c after hsplit hrejected
    rw [hsplit] at htime
    exact rejected_invisible htime hrejected
  · intro a b hab
    exact admittedWithin_le htime hab

/-- Two a second: a burst of two, a call that is rejected, and one paid by the accrual of
half a second. -/
theorem token_bucket_conforms_burst :
    outputs (step ⟨2, 1, by decide, by decide⟩) (allowed ⟨2, 1, by decide, by decide⟩) .absent
        [⟨0, 2⟩, ⟨250, 1⟩, ⟨500, 1⟩] =
      outputs (idealStep ⟨2, 1, by decide, by decide⟩) (idealAccepts ⟨2, 1, by decide, by decide⟩)
        (Bucket.full ((2 : Nat) : Rat) (((0 : Nat) : Rat) / 1000))
        [BucketCheck.offer ⟨0, 2⟩, BucketCheck.offer ⟨250, 1⟩, BucketCheck.offer ⟨500, 1⟩] :=
  (token_bucket_conforms ⟨2, 1, by decide, by decide⟩ 0 [⟨0, 2⟩, ⟨250, 1⟩, ⟨500, 1⟩]
    (by simp)).1

end TokenBucketAlgorithm

end RateLimiter.Limiter
