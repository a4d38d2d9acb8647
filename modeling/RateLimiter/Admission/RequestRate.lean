import RateLimiter.Admission.Calls
import RateLimiter.Foundations.Bucket
import RateLimiter.Redis.StoredBalance

/-!
# The request rate

The request balance pays one for every admission, and nothing is ever paid back into
it.  Its keys outlive the minute in which an empty balance fills, so their expiry is
no refill: within any interval of time a pair has no more admissions than a full
budget and what the rate earns in the interval.
-/

namespace RateLimiter.Admission

open RateLimiter.Redis RateLimiter.Javascript RateLimiter.Foundations

variable {Rid : Type} [LinearOrder Rid]

/-- The request balance a reserve finds at `t`. -/
def requestsFound (p : Limits) (s : PairState Rid) (t : Int) : Rat :=
  refill t (s.purge t).rpm.get (s.purge t).rpmTs.get p.requestsPerMinute
    ((p.requestsPerMinute : Rat) / 60)

omit [LinearOrder Rid] in
theorem requestsFound_eq (p : Limits) (s : PairState Rid) (t : Int) :
    requestsFound p s t =
      storedBalance p.requestsPerMinute ((p.requestsPerMinute : Rat) / 60) s.rpm s.rpmTs t := rfl

/-- What an admission takes of the request balance. -/
def requestsTaken (s : PairState Rid) (r : Request Rid) : Rat :=
  if admitted (handle (s.purge r.clock) r).2 then 1 else 0

/-- What the limits earn in requests in the time from `t` to `t'`. -/
def requestsEarned (p : Limits) (t t' : Int) : Rat :=
  (p.requestsPerMinute : Rat) / 60 * (t' - t) / 1000

theorem Limits.requestRate_nonneg (p : Limits) : (0 : Rat) ≤ (p.requestsPerMinute : Rat) / 60 := by
  positivity

/-- An empty request balance fills while its keys are still there. -/
theorem Limits.fills_within_ttl (p : Limits) :
    (p.requestsPerMinute : Rat) ≤ p.ttlSeconds * ((p.requestsPerMinute : Rat) / 60) := by
  have httl : (60 : Rat) ≤ p.ttlSeconds := by
    have hnat : 60 ≤ p.ttlSeconds := by
      unfold Limits.ttlSeconds
      omega
    exact_mod_cast hnat
  have hearned := mul_le_mul_of_nonneg_right httl p.requestRate_nonneg
  linarith

section Step

variable {p : Limits} {s : PairState Rid} {r : Request Rid} {rid : Rid} {t : Int}

/-- A reserve stores the request balance it finds, less one for an admission. -/
theorem reserve_requests {tokens slo : NNRat} (hop : r.op = .reserve rid tokens slo)
    (hclock : r.now = r.clock) :
    (stepAlive s r).rpm = .setEx r.clock
        (requestsFound r.policy s r.clock - requestsTaken s r) r.policy.ttlSeconds ∧
      (stepAlive s r).rpmTs = .setEx r.clock r.clock r.policy.ttlSeconds ∧
      (requestsTaken s r = 0 ∨ requestsTaken s r ≤ requestsFound r.policy s r.clock) := by
  obtain ⟨reply, hreply, hrpm, hrpmTs, htakes⟩ := admitScript_requests r.clock
    (admitArgs r.policy r.now rid (some (tokens : Rat)) (slo : Rat)) (s.purge r.clock) rfl
  have hhandle : handle (s.purge r.clock) r =
      ((admitScript r.clock
        (admitArgs r.policy r.now rid (some (tokens : Rat)) (slo : Rat)) (s.purge r.clock)).1,
        .reserve (.ok reply)) := by
    unfold handle
    rw [hop, ← hreply]
  have hfound : rpmBalance (admitArgs r.policy r.now rid (some (tokens : Rat)) (slo : Rat))
      (s.purge r.clock) = requestsFound r.policy s r.clock := by
    rw [hclock]
    rfl
  have htaken : requestsTaken s r = if reply.decision = .admitted then 1 else 0 := by
    unfold requestsTaken
    rw [hhandle]
    simp only [admitted, decide_eq_true_eq]
  rw [hfound] at hrpm htakes
  have hinstant : StringKey.setEx r.clock r.now r.policy.ttlSeconds =
      StringKey.setEx r.clock r.clock r.policy.ttlSeconds := by rw [hclock]
  unfold stepAlive step
  rw [hhandle, htaken]
  refine ⟨hrpm, hrpmTs.trans hinstant, ?_⟩
  by_cases hadmitted : reply.decision = .admitted
  · right
    rw [if_pos hadmitted]
    exact htakes hadmitted
  · left
    rw [if_neg hadmitted]

/-- No other call takes a request or touches the request balance. -/
theorem other_requests (hother : ∀ rid tokens slo, r.op ≠ .reserve rid tokens slo) :
    (stepAlive s r).rpm = s.rpm.purge r.clock ∧ (stepAlive s r).rpmTs = s.rpmTs.purge r.clock ∧
      requestsTaken s r = 0 := by
  rcases op_cases r.op with ⟨rid, tokens, slo, hop⟩ | ⟨rid, actual, hop⟩ | hop
  · exact absurd hop (hother rid tokens slo)
  · obtain ⟨serviceMs, outputTokens, hhandle⟩ := handle_of_settles (s := s.purge r.clock) hop
    have htaken : requestsTaken s r = 0 := by
      unfold requestsTaken
      rw [hhandle]
      rfl
    unfold stepAlive
    cases hmarker : (s.purge r.clock).settled rid with
    | some marker =>
        rw [(settle_duplicate hop hmarker).2]
        exact ⟨rfl, rfl, htaken⟩
    | none =>
        obtain ⟨-, settled, stats, hstep⟩ := settle_cases hop hmarker
        rw [hstep, takeHold_frame]
        exact ⟨rfl, rfl, htaken⟩
  · unfold stepAlive
    rw [step_snapshot hop]
    refine ⟨rfl, rfl, ?_⟩
    unfold requestsTaken handle
    rw [hop]
    rfl

/-- The invariant: from `t` on the request balance accrues, and it is not negative. -/
structure RequestsAccrue (p : Limits) (t : Int) (s : PairState Rid) : Prop where
  accrues : AccruesFrom p.requestsPerMinute ((p.requestsPerMinute : Rat) / 60) t
    (requestsFound p s)
  nonneg : 0 ≤ requestsFound p s t

omit [LinearOrder Rid] in
theorem requestsFound_le (p : Limits) (s : PairState Rid) (t : Int) :
    requestsFound p s t ≤ p.requestsPerMinute :=
  storedBalance_le_capacity s.rpm s.rpmTs t

/-- A call keeps the invariant, and what it takes comes off what it finds. -/
theorem RequestsAccrue.step (h : RequestsAccrue p t s) (hp : r.policy = p)
    (hclock : r.now = r.clock) (hle : t ≤ r.now) :
    RequestsAccrue p r.now (stepAlive s r) ∧
      requestsFound p (stepAlive s r) r.now + requestsTaken s r ≤ requestsFound p s r.now := by
  have hnonneg := h.accrues.nonneg p.requestRate_nonneg (requestsFound_le p s t) h.nonneg hle
  rcases op_cases r.op with ⟨rid, tokens, slo, hop⟩ | hother
  · obtain ⟨hrpm, hrpmTs, htaken⟩ := reserve_requests (s := s) hop hclock
    rw [hp, ← hclock] at hrpm hrpmTs htaken
    have hleft : 0 ≤ requestsFound p s r.now - requestsTaken s r := by
      rcases htaken with hnone | hone
      · rw [hnone, sub_zero]
        exact hnonneg
      · exact sub_nonneg.mpr hone
    have hstored : ∀ v, r.now ≤ v → requestsFound p (stepAlive s r) v =
        accrue (p.requestsPerMinute : Rat) ((p.requestsPerMinute : Rat) / 60)
          ((v - r.now : Int) / 1000) (requestsFound p s r.now - requestsTaken s r) := by
      intro v hv
      rw [requestsFound_eq, hrpm, hrpmTs]
      exact storedBalance_setEx p.requestRate_nonneg hleft p.fills_within_ttl hv
    have hnow := hstored r.now le_rfl
    have hadd := accrue_le_add (p.requestsPerMinute : Rat) ((p.requestsPerMinute : Rat) / 60)
      ((r.now - r.now : Int) / 1000) (requestsFound p s r.now - requestsTaken s r)
    rw [← hnow, sub_self, Int.cast_zero, zero_div, zero_mul, add_zero] at hadd
    refine ⟨⟨.of_accrue p.requestRate_nonneg hstored, ?_⟩, by linarith⟩
    rw [hnow, sub_self, Int.cast_zero, zero_div]
    refine hleft.trans (le_accrue p.requestRate_nonneg le_rfl ?_)
    have hcap := requestsFound_le p s r.now
    have hone : 0 ≤ requestsTaken s r := by
      unfold requestsTaken
      split
      · exact zero_le_one
      · exact le_rfl
    linarith
  · have hkeys := other_requests (s := s) (r := r) fun rid tokens slo hop => by
      rcases hother with ⟨rid', actual, hsettle⟩ | hsnapshot
      · rw [hop] at hsettle
        cases hsettle
      · rw [hop] at hsnapshot
        cases hsnapshot
    obtain ⟨hrpm, hrpmTs, hnone⟩ := hkeys
    have hsame : ∀ v, r.now ≤ v → requestsFound p (stepAlive s r) v = requestsFound p s v := by
      intro v hv
      rw [requestsFound_eq, hrpm, hrpmTs, storedBalance_purge (hclock ▸ hv), requestsFound_eq]
    refine ⟨⟨(h.accrues.mono hle).congr hsame, ?_⟩, ?_⟩
    · rw [hsame r.now le_rfl]
      exact hnonneg
    · rw [hsame r.now le_rfl, hnone, add_zero]

end Step

/-- The request balance is a bucket that admissions spend from. -/
theorem requests_spendsFrom (p : Limits) :
    SpendsFrom (@stepAlive Rid _) Request.now
      (fun _ r => r.policy = p ∧ r.now = r.clock) requestsTaken (RequestsAccrue p)
      (requestsFound p) p.requestsPerMinute (requestsEarned p) where
  keeps t s r h hle hr := (h.step hr.1 hr.2 hle).1
  spends t s r h hle hr := (h.step hr.1 hr.2 hle).2
  capped t s t' h hle := requestsFound_le p s t'
  grows t s t' h hle := h.accrues.le_add hle
  nonneg t s h := h.nonneg
  earned_add t t' t'' := by
    unfold requestsEarned
    ring
  earned_nonneg t t' hle := by
    have hcast : (t : Rat) ≤ t' := by exact_mod_cast hle
    have hrate := p.requestRate_nonneg
    have hspan := sub_nonneg.mpr hcast
    unfold requestsEarned
    positivity

omit [LinearOrder Rid] in
theorem requestsAccrue_empty (p : Limits) (t : Int) :
    RequestsAccrue p t (.empty : PairState Rid) := by
  have hfull : ∀ v, requestsFound p (.empty : PairState Rid) v = p.requestsPerMinute :=
    fun v => rfl
  refine ⟨?_, ?_⟩
  · refine .of_accrue (b := (p.requestsPerMinute : Rat)) p.requestRate_nonneg ?_
    intro v hv
    have hspan : (0 : Rat) ≤ (v - t : Int) := by exact_mod_cast Int.sub_nonneg.mpr hv
    have hrate := p.requestRate_nonneg
    rw [hfull]
    refine (accrue_of_full ?_).symm
    have hearned : 0 ≤ ((v - t : Int) : Rat) / 1000 * ((p.requestsPerMinute : Rat) / 60) := by
      positivity
    linarith
  · rw [hfull]
    positivity

end RateLimiter.Admission
