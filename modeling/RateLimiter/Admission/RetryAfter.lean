import RateLimiter.Admission.Agreement

/-!
# Retry-After

A reserve that is shed for want of requests or of tokens is told how long to wait, and
leaves the balances it was decided on behind.  They accrue from there, so the wait is the
ceiling of a deficit over a rate: after it the same reserve passes the check it failed,
before it the check fails again.
-/

namespace RateLimiter.Admission

open RateLimiter.Redis RateLimiter.Javascript RateLimiter.Foundations

/-- A balance written with its clock accrues from there while its keys live, and is read as
full once they are gone. -/
theorem refill_setEx (clock clock' now v : Int) (bal capacity rate : Rat) (ttl : Nat) :
    refill v ((StringKey.setEx clock bal ttl).purge clock').get
        ((StringKey.setEx clock now ttl).purge clock').get capacity rate =
      if clock' ≤ clock + 1000 * ttl then
        accrue capacity rate ((max 0 (v - now) : Int) / 1000) bal
      else capacity := by
  unfold StringKey.setEx
  split
  next hlive =>
    rw [StringKey.purge_some_of_le hlive, StringKey.purge_some_of_le hlive]
    rfl
  next hgone =>
    rw [StringKey.purge_some_of_lt (not_le.mp hgone)]
    exact refill_none_left _ _ _ _

section Refill

variable {clock clock' now v : Int} {bal capacity rate need : Rat} {ttl : Nat}

/-- After the wait for it a need is covered, whatever has become of the keys. -/
theorem le_refill_of_wait (hrate : 0 < rate) (hneed : need ≤ capacity) (hshort : bal < need)
    (hwait : now + ⌈(need - bal) / rate * 1000⌉ ≤ v) :
    need ≤ refill v ((StringKey.setEx clock bal ttl).purge clock').get
      ((StringKey.setEx clock now ttl).purge clock').get capacity rate := by
  -- there is a deficit, so the wait does not reach back
  have hpositive : 0 < ⌈(need - bal) / rate * 1000⌉ := by
    rw [Int.ceil_pos]
    have hdeficit : 0 < need - bal := sub_pos.mpr hshort
    positivity
  rw [refill_setEx]
  split
  next =>
    rw [max_eq_right (by omega), le_accrue_iff_wait hrate (by norm_num) hneed]
    omega
  next => exact hneed

/-- Before the wait is over the need is not covered, while the keys live. -/
theorem refill_lt_of_wait (hrate : 0 < rate) (hneed : need ≤ capacity) (hlater : now ≤ v)
    (hlive : clock' ≤ clock + 1000 * ttl)
    (hwait : v < now + ⌈(need - bal) / rate * 1000⌉) :
    refill v ((StringKey.setEx clock bal ttl).purge clock').get
      ((StringKey.setEx clock now ttl).purge clock').get capacity rate < need := by
  rw [refill_setEx, if_pos hlive, max_eq_right (by omega), ← not_le,
    le_accrue_iff_wait hrate (by norm_num) hneed]
  omega

end Refill

section Repeats

variable {Rid : Type} [LinearOrder Rid]

/-- `r'` makes the reserve of `r` again, under the same policy. -/
structure Repeats (r r' : Request Rid) (tokens slo : NNRat) : Prop where
  policy : r'.policy = r.policy
  op : ∃ rid, r'.op = .reserve rid tokens slo

variable {s : PairState Rid} {r r' : Request Rid} {rid : Rid} {tokens slo : NNRat}

/-- The request balance that is left of a reserve that was shed. -/
theorem requestsAt_of_shed (hop : r.op = .reserve rid tokens slo)
    (hshed : admitted (handle s r).2 = false) (clock v : Int) :
    requestsAt r.policy v ((step s r).purge clock) =
      refill v
        ((StringKey.setEx r.clock (requestsAt r.policy r.now s) r.policy.ttlSeconds).purge
          clock).get
        ((StringKey.setEx r.clock r.now r.policy.ttlSeconds).purge clock).get
        r.policy.requestsPerMinute ((r.policy.requestsPerMinute : Rat) / 60) := by
  obtain ⟨hrpm, hrpmTs⟩ := reserve_rpm (s := s) hop
  rw [hshed] at hrpm
  simp only [Bool.false_eq_true, if_false, sub_zero] at hrpm
  unfold requestsAt PairState.purge
  rw [hrpm, hrpmTs]
  rfl

/-- The token balance that is left of it. -/
theorem balanceAt_of_shed (hop : r.op = .reserve rid tokens slo)
    (hshed : admitted (handle s r).2 = false) (clock v : Int) :
    balanceAt r.policy v ((step s r).purge clock) =
      refill v
        ((StringKey.setEx r.clock (decisionBalance s r) r.policy.ttlSeconds).purge clock).get
        ((StringKey.setEx r.clock r.now r.policy.ttlSeconds).purge clock).get
        r.policy.tokensPerMinute ((r.policy.tokensPerMinute : Rat) / 60) := by
  rcases reserve_cases (s := s) hop with ⟨hadmitted, -⟩ | ⟨-, hreserved, -, -⟩
  · rw [hshed] at hadmitted
    cases hadmitted
  · unfold balanceAt PairState.purge
    rw [hreserved.tpm, hreserved.tpmTs, sub_zero]

/-- Sweeping only adds to the balance a reserve decides on. -/
theorem balanceAt_le_decisionBalance (hholds : HoldsNonneg s) :
    balanceAt r.policy r.now s ≤ decisionBalance s r := by
  have htokens : 0 ≤ (sweepOf s r).tokens := reclaim_tokens_nonneg _ _ s hholds
  exact le_min (by linarith) (balanceAt_le_limit _ _ _)

/-- Without expired leases it decides on the balance as it is. -/
theorem decisionBalance_of_noneExpired (hlive : NoneExpired r.now s) :
    decisionBalance s r = balanceAt r.policy r.now s := by
  unfold decisionBalance sweepOf
  rw [reclaim_of_live hlive, add_zero]
  exact min_eq_left (balanceAt_le_limit _ _ _)

/-- A reserve that is shed was not admitted. -/
theorem admitted_eq_false_of_shed {reply : Reply} {reason : ShedReason} {w : Int}
    (hshed : verdictOf reply = some (.shed reason w)) : admitted reply = false := by
  rw [Bool.eq_false_iff]
  intro hadmitted
  rw [verdictOf_eq_admitted.mpr hadmitted] at hshed
  cases hshed

/-- The verdict on a repeated reserve. -/
theorem Repeats.verdict (h : Repeats r r' tokens slo) (s' : PairState Rid) :
    ∃ (rid : Rid) (avg : Rat) (inflight : Nat), verdictOf (handle s' r').2 = some (decideAdmission
      (admitArgs r.policy r'.now rid (some (tokens : Rat)) (slo : Rat)) tokens
      (decisionBalance s' r') (requestsAt r.policy r'.now s') avg inflight) := by
  obtain ⟨rid, hop⟩ := h.op
  have hverdict := verdictOf_reserve (s := s') hop
  rw [h.policy] at hverdict
  exact ⟨rid, _, _, hverdict⟩

theorem Limits.rate_pos (limit : Nat) (hlimit : 0 < limit) : (0 : Rat) < (limit : Rat) / 60 := by
  have hcast : (0 : Rat) < limit := by exact_mod_cast hlimit
  positivity

theorem Limits.one_le_requests (p : Limits) : (1 : Rat) ≤ p.requestsPerMinute := by
  exact_mod_cast p.requestsPerMinute_pos

/-- The wait of a reserve that found too few requests. -/
theorem requests_after_wait (hop : r.op = .reserve rid tokens slo) {w : Int}
    (hshed : verdictOf (handle s r).2 = some (.shed .rpmExhausted w)) (clock v : Int) :
    (r.now + w ≤ v → 1 ≤ requestsAt r.policy v ((step s r).purge clock)) ∧
      (r.now ≤ v → v < r.now + w → clock ≤ r.clock + 1000 * r.policy.ttlSeconds →
        requestsAt r.policy v ((step s r).purge clock) < 1) := by
  have hrate := Limits.rate_pos r.policy.requestsPerMinute r.policy.requestsPerMinute_pos
  have hcap := r.policy.one_le_requests
  rw [requestsAt_of_shed hop (admitted_eq_false_of_shed hshed)]
  rw [verdictOf_reserve hop] at hshed
  obtain ⟨-, hshort, hw⟩ := decideAdmission_rpmExhausted_iff.mp (Option.some.inj hshed)
  change w = ⌈(1 - requestsAt r.policy r.now s) /
    ((r.policy.requestsPerMinute : Rat) / 60) * 1000⌉ at hw
  rw [hw]
  refine ⟨?_, ?_⟩
  · intro hwait
    exact le_refill_of_wait hrate hcap hshort hwait
  · intro hlater hearly hlive
    exact refill_lt_of_wait hrate hcap hlater hlive hearly

/-- The wait of a reserve that found too few tokens. -/
theorem tokens_after_wait (hop : r.op = .reserve rid tokens slo)
    (hsize : (tokens : Rat) ≤ r.policy.tokensPerMinute) {w : Int}
    (hshed : verdictOf (handle s r).2 = some (.shed .tpmExhausted w)) (clock v : Int) :
    (r.now + w ≤ v → (tokens : Rat) ≤ balanceAt r.policy v ((step s r).purge clock)) ∧
      (r.now ≤ v → v < r.now + w → clock ≤ r.clock + 1000 * r.policy.ttlSeconds →
        1 ≤ requestsAt r.policy v ((step s r).purge clock) ∧
          balanceAt r.policy v ((step s r).purge clock) < (tokens : Rat)) := by
  have hrate := Limits.rate_pos r.policy.tokensPerMinute r.policy.tokensPerMinute_pos
  rw [balanceAt_of_shed hop (admitted_eq_false_of_shed hshed),
    requestsAt_of_shed hop (admitted_eq_false_of_shed hshed)]
  rw [verdictOf_reserve hop] at hshed
  obtain ⟨-, hrequests, hshort, hw⟩ :=
    decideAdmission_tpmExhausted_iff.mp (Option.some.inj hshed)
  change w = ⌈((tokens : Rat) - decisionBalance s r) /
    ((r.policy.tokensPerMinute : Rat) / 60) * 1000⌉ at hw
  rw [hw]
  refine ⟨?_, ?_⟩
  · intro hwait
    exact le_refill_of_wait hrate hsize hshort hwait
  · intro hlater hearly hlive
    refine ⟨?_, refill_lt_of_wait hrate hsize hlater hlive hearly⟩
    -- the requests were there before and only accrue
    have hspan : (0 : Rat) ≤ (max 0 (v - r.now) : Int) := by
      exact_mod_cast le_max_left 0 (v - r.now)
    rw [refill_setEx, if_pos hlive]
    refine hrequests.trans (le_accrue ?_ (by positivity) (refill_le_capacity _ _ _ _ _))
    positivity

end Repeats

/-- **Retry-After.**  A reserve that fits the limit and is shed for want of requests or of
tokens is told a wait.  Made again once the wait is over it is not shed for that reason,
whichever keys have expired by then; made again before, on keys that still live and with no
lease left to reclaim, it is. -/
theorem retry_after_exact {Rid : Type} [LinearOrder Rid] (s : PairState Rid)
    (hholds : HoldsNonneg s) (r : Request Rid) (rid : Rid) (tokens slo : NNRat)
    (hop : r.op = .reserve rid tokens slo) (hsize : (tokens : Rat) ≤ r.policy.tokensPerMinute)
    (reason : ShedReason) (hreason : reason = .rpmExhausted ∨ reason = .tpmExhausted) (w : Int)
    (hshed : verdictOf (handle s r).2 = some (.shed reason w)) :
    (∀ r', Repeats r r' tokens slo → r.now + w ≤ r'.now →
      ∃ d, verdictOf (handle ((step s r).purge r'.clock) r').2 = some d ∧
        ∀ w', d ≠ .shed reason w') ∧
      ∀ r', Repeats r r' tokens slo → r.now ≤ r'.now → r'.now < r.now + w →
        r'.clock ≤ r.clock + 1000 * r.policy.ttlSeconds →
        NoneExpired r'.now ((step s r).purge r'.clock) →
        ∃ w', verdictOf (handle ((step s r).purge r'.clock) r').2 = some (.shed reason w') := by
  rcases hreason with rfl | rfl
  · refine ⟨?_, ?_⟩
    · intro r' hagain hwait
      obtain ⟨rid', avg, inflight, hverdict⟩ := hagain.verdict ((step s r).purge r'.clock)
      have hcovered := (requests_after_wait hop hshed r'.clock r'.now).1 hwait
      refine ⟨_, hverdict, fun w' hagainShed => ?_⟩
      obtain ⟨-, hshort, -⟩ := decideAdmission_rpmExhausted_iff.mp hagainShed
      exact absurd hcovered (not_le.mpr hshort)
    · intro r' hagain hlater hearly hlive _
      obtain ⟨rid', avg, inflight, hverdict⟩ := hagain.verdict ((step s r).purge r'.clock)
      have hshort := (requests_after_wait hop hshed r'.clock r'.now).2 hlater hearly hlive
      rw [hverdict]
      exact ⟨_, congrArg some (decideAdmission_rpmExhausted_iff.mpr ⟨hsize, hshort, rfl⟩)⟩
  · refine ⟨?_, ?_⟩
    · intro r' hagain hwait
      obtain ⟨rid', avg, inflight, hverdict⟩ := hagain.verdict ((step s r).purge r'.clock)
      have hcovered := (tokens_after_wait hop hsize hshed r'.clock r'.now).1 hwait
      have hswept := balanceAt_le_decisionBalance (r := r') ((hholds.step r).purge r'.clock)
      rw [hagain.policy] at hswept
      refine ⟨_, hverdict, fun w' hagainShed => ?_⟩
      obtain ⟨-, -, hshort, -⟩ := decideAdmission_tpmExhausted_iff.mp hagainShed
      exact absurd (hcovered.trans hswept) (not_le.mpr hshort)
    · intro r' hagain hlater hearly hlive hleases
      obtain ⟨rid', avg, inflight, hverdict⟩ := hagain.verdict ((step s r).purge r'.clock)
      obtain ⟨hrequests, hshort⟩ :=
        (tokens_after_wait hop hsize hshed r'.clock r'.now).2 hlater hearly hlive
      rw [← hagain.policy, ← decisionBalance_of_noneExpired hleases] at hshort
      rw [hverdict]
      exact ⟨_, congrArg some
        (decideAdmission_tpmExhausted_iff.mpr ⟨hsize, hrequests, hshort, rfl⟩)⟩

/-- Once the whole budget is taken five hundred tokens have to wait three tenths of a second:
made again then, the reserve is not short of tokens. -/
theorem retry_after_exact_spent_budget :
    ∃ d, verdictOf (handle ((step (step .empty
          (callAt defaultLimits 0 (.reserve (1 : Nat) 100000 0)))
          (callAt defaultLimits 0 (.reserve 2 500 0))).purge 300)
        (callAt defaultLimits 300 (.reserve 3 500 0))).2 = some d ∧
      ∀ w, d ≠ .shed .tpmExhausted w :=
  (retry_after_exact (step .empty (callAt defaultLimits 0 (.reserve (1 : Nat) 100000 0)))
    (holdsNonneg_empty.step _) (callAt defaultLimits 0 (.reserve 2 500 0)) 2 500 0 rfl
    (by decide +kernel) .tpmExhausted (Or.inr rfl) 300 (by decide +kernel)).1
    (callAt defaultLimits 300 (.reserve 3 500 0)) ⟨rfl, 3, rfl⟩ (by decide)

end RateLimiter.Admission
