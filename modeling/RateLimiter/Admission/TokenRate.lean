import RateLimiter.Admission.Debt
import RateLimiter.Foundations.Bucket
import RateLimiter.Redis.StoredBalance

/-!
# The token rate

The token balance is spent from by admissions, paid back by refunds and by the sweep, and
taken below zero by commits that exceed their holds.  A debt is forgiven when its key
expires, so the balance itself is no bucket; the balance without its debts is one.  Within
any interval of time a pair is granted no more tokens than a full budget, what its rate
earns in the interval and what is paid back in it.  The gateways need not agree on the policy:
the budget is that of the most generous one.
-/

namespace RateLimiter.Admission

open RateLimiter.Redis RateLimiter.Foundations

/-! ## A balance without its debts -/

/-- The balance with what it owes struck out. -/
def floored (key : StringKey Rat) : StringKey Rat :=
  key.map fun timed => { timed with value := max 0 timed.value }

theorem get_floored (key : StringKey Rat) : (floored key).get = key.get.map (max 0) := by
  cases key <;> rfl

theorem purge_floored (clock : Int) (key : StringKey Rat) :
    (floored key).purge clock = floored (key.purge clock) := by
  cases key with
  | none => rfl
  | some timed =>
      rcases le_or_gt clock timed.expireAt with hkept | hgone
      · rw [StringKey.purge_some_of_le hkept]
        exact StringKey.purge_some_of_le hkept
      · rw [StringKey.purge_some_of_lt hgone]
        exact StringKey.purge_some_of_lt hgone

theorem floored_setEx (clock : Int) (b : Rat) (ttl : Nat) :
    floored (.setEx clock b ttl) = .setEx clock (max 0 b) ttl := rfl

variable {Rid : Type} [LinearOrder Rid]

/-- What the balance comes to at `t` when its debts are forgiven at once. -/
def tokensFound (p : Limits) (s : PairState Rid) (t : Int) : Rat :=
  storedBalance p.tokensPerMinute ((p.tokensPerMinute : Rat) / 60) (floored s.tpm) s.tpmTs t

/-- The tokens a call is granted. -/
def tokensGranted (s : PairState Rid) (r : Request Rid) : Rat :=
  match r.op with
  | .reserve _ tokens _ => if admitted (handle (s.purge r.clock) r).2 then tokens else 0
  | _ => 0

theorem Limits.tokenRate_nonneg (p : Limits) : (0 : Rat) ≤ (p.tokensPerMinute : Rat) / 60 := by
  positivity

/-- An empty token balance fills while its keys are still there, whichever policy has
written them. -/
theorem Limits.tokens_fill_within_ttl (p q : Limits) :
    (p.tokensPerMinute : Rat) ≤ q.ttlSeconds * ((p.tokensPerMinute : Rat) / 60) := by
  have httl : (60 : Rat) ≤ q.ttlSeconds := by
    have hnat : 60 ≤ q.ttlSeconds := by
      unfold Limits.ttlSeconds
      omega
    exact_mod_cast hnat
  have hearned := mul_le_mul_of_nonneg_right httl p.tokenRate_nonneg
  linarith

section Found

variable {p : Limits} {s : PairState Rid} {t : Int}

omit [LinearOrder Rid] in
theorem tokensFound_le (p : Limits) (s : PairState Rid) (t : Int) :
    tokensFound p s t ≤ p.tokensPerMinute := storedBalance_le_capacity _ _ t

omit [LinearOrder Rid] in
theorem tokensFound_nonneg (p : Limits) (s : PairState Rid) (t : Int) : 0 ≤ tokensFound p s t := by
  unfold tokensFound storedBalance
  rw [purge_floored, get_floored]
  split
  next b ts hb hts =>
    obtain ⟨b', -, rfl⟩ := Option.map_eq_some_iff.mp hb
    have hspan : (0 : Rat) ≤ (max 0 (t - ts) : Int) := by exact_mod_cast le_max_left 0 (t - ts)
    have hrate := p.tokenRate_nonneg
    exact le_min (add_nonneg (le_max_left 0 b') (by positivity)) (by positivity)
  next => positivity

omit [LinearOrder Rid] in
/-- The script finds no more, under that policy or one that is less generous. -/
theorem balanceAt_le_tokensFound {q : Limits} (hq : q.tokensPerMinute ≤ p.tokensPerMinute)
    (s : PairState Rid) (t : Int) : balanceAt q t (s.purge t) ≤ tokensFound p s t := by
  have hcap : (q.tokensPerMinute : Rat) ≤ p.tokensPerMinute := by exact_mod_cast hq
  unfold tokensFound storedBalance
  rw [purge_floored, get_floored]
  show refill t (s.tpm.purge t).get (s.tpmTs.purge t).get _ _ ≤ _
  cases (s.tpm.purge t).get with
  | none => exact hcap
  | some b =>
      cases (s.tpmTs.purge t).get with
      | none => exact hcap
      | some ts =>
          have hspan : (0 : Rat) ≤ (max 0 (t - ts) : Int) := by
            exact_mod_cast le_max_left 0 (t - ts)
          have hearned : ((max 0 (t - ts) : Int) : Rat) / 1000 * ((q.tokensPerMinute : Rat) / 60) ≤
              ((max 0 (t - ts) : Int) : Rat) / 1000 * ((p.tokensPerMinute : Rat) / 60) :=
            mul_le_mul_of_nonneg_left (by linarith) (by positivity)
          exact min_le_min (add_le_add (le_max_right 0 b) hearned) hcap

end Found

/-! ## One call -/

section Step

variable {p : Limits} {s : PairState Rid} {r : Request Rid} {t : Int}

/-- A call that writes stores no more than it finds and pays back, less what it grants; and
what it grants it has found. -/
theorem granted_le (hwrites : writes (s.purge r.clock) r = true) {balance : Rat}
    (hwritten : (stepAlive s r).tpm.get = some balance) :
    balance + tokensGranted s r ≤ balanceFound s r + credited s r ∧
      balance ≤ r.policy.tokensPerMinute ∧ (tokensGranted s r = 0 ∨ 0 ≤ balance) := by
  have hcover := written_le hwrites hwritten
  rcases op_cases r.op with ⟨rid, tokens, slo, hop⟩ | ⟨rid, actual, hop⟩ | hop
  · have hcap : decisionBalance (s.purge r.clock) r ≤ r.policy.tokensPerMinute := min_le_right _ _
    have htokens : (0 : Rat) ≤ tokens := tokens.2
    unfold stepAlive at hwritten
    rcases reserve_cases (s := s.purge r.clock) hop with
      ⟨hadmitted, hfits, -, hwrite, -, -⟩ | ⟨hshed, hwrite, -, -⟩
    · have hgranted : tokensGranted s r = tokens := by
        simp [tokensGranted, hop, hadmitted]
      have hdecision : decisionBalance (s.purge r.clock) r ≤ balanceFound s r + credited s r := by
        rw [credited_reserve hop]
        exact min_le_left _ _
      rw [hwrite.tpm, StringKey.get_setEx] at hwritten
      cases hwritten
      rw [hgranted]
      exact ⟨by linarith, by linarith, Or.inr (by linarith)⟩
    · have hgranted : tokensGranted s r = 0 := by
        simp [tokensGranted, hop, hshed]
      rw [hwrite.tpm, StringKey.get_setEx] at hwritten
      cases hwritten
      rw [hgranted]
      exact ⟨by linarith, by linarith, Or.inl rfl⟩
  · have hgranted : tokensGranted s r = 0 := by
      rcases Op.settles?_cases hop with ⟨serviceMs, outputTokens, hop⟩ | ⟨hop, -⟩ <;>
        simp [tokensGranted, hop]
    have hmarker : (s.purge r.clock).settled rid = none := by
      rw [writes_of_settles hop] at hwrites
      simpa using hwrites
    obtain ⟨-, settled, stats, hstep⟩ := settle_cases hop hmarker
    unfold stepAlive at hwritten
    rw [hstep] at hwritten
    dsimp only at hwritten
    rw [StringKey.get_setEx] at hwritten
    cases hwritten
    rw [hgranted]
    exact ⟨by linarith, min_le_right _ _, Or.inl rfl⟩
  · simp [writes, hop] at hwrites

/-- The invariant: from `t` on the balance without its debts accrues, and no hold is
negative. -/
structure TokensAccrue (p : Limits) (t : Int) (s : PairState Rid) : Prop where
  accrues : AccruesFrom p.tokensPerMinute ((p.tokensPerMinute : Rat) / 60) t (tokensFound p s)
  holds_nonneg : HoldsNonneg s

/-- A call keeps the invariant; what it grants, less what it pays back, comes off what it
finds. -/
theorem TokensAccrue.step (h : TokensAccrue p t s)
    (hp : r.policy.tokensPerMinute ≤ p.tokensPerMinute)
    (hclock : r.now = r.clock) (hle : t ≤ r.now) :
    TokensAccrue p r.now (stepAlive s r) ∧
      tokensFound p (stepAlive s r) r.now + (tokensGranted s r - credited s r) ≤
        tokensFound p s r.now := by
  have hholds : HoldsNonneg (stepAlive s r) := (h.holds_nonneg.purge r.clock).step r
  have hcredit := credited_nonneg h.holds_nonneg r
  cases hwrites : writes (s.purge r.clock) r with
  | true =>
      obtain ⟨balance, hwritten, hwrittenTs⟩ := step_of_writes hwrites
      have hstored : (stepAlive s r).tpm.get = some balance := by
        unfold stepAlive
        rw [hwritten]
        rfl
      obtain ⟨hcover, hcap, hgranted⟩ := granted_le hwrites hstored
      have hfound : balanceFound s r ≤ tokensFound p s r.now := by
        unfold balanceFound
        rw [← hclock]
        exact balanceAt_le_tokensFound hp s r.now
      have hnonneg := tokensFound_nonneg p s r.now
      have haccrues : ∀ v, r.now ≤ v → tokensFound p (stepAlive s r) v =
          accrue (p.tokensPerMinute : Rat) ((p.tokensPerMinute : Rat) / 60)
            ((v - r.now : Int) / 1000) (max 0 balance) := by
        intro v hv
        unfold tokensFound stepAlive
        rw [hwritten, hwrittenTs, floored_setEx, ← hclock]
        exact storedBalance_setEx p.tokenRate_nonneg (le_max_left 0 balance)
          (p.tokens_fill_within_ttl r.policy) hv
      refine ⟨⟨.of_accrue p.tokenRate_nonneg haccrues, hholds⟩, ?_⟩
      have hnow : tokensFound p (stepAlive s r) r.now ≤ max 0 balance := by
        rw [haccrues r.now le_rfl]
        refine (accrue_le_add _ _ _ _).trans_eq ?_
        rw [sub_self, Int.cast_zero, zero_div, zero_mul, add_zero]
      rcases hgranted with hnone | hpaid
      · rcases max_cases 0 balance with ⟨hmax, -⟩ | ⟨hmax, -⟩ <;> linarith
      · rw [max_eq_right hpaid] at hnow
        linarith
  | false =>
      have hkeys : stepAlive s r = s.purge r.clock := step_of_not_writes hwrites
      have hsame : ∀ v, r.now ≤ v → tokensFound p (stepAlive s r) v = tokensFound p s v := by
        intro v hv
        unfold tokensFound
        rw [hkeys]
        show storedBalance _ _ (floored (s.tpm.purge r.clock)) (s.tpmTs.purge r.clock) v = _
        rw [← purge_floored, storedBalance_purge (hclock ▸ hv)]
      have hgranted : tokensGranted s r = 0 := by
        unfold tokensGranted
        split
        next rid tokens slo hop => simp [writes, hop] at hwrites
        next => rfl
      refine ⟨⟨(h.accrues.mono hle).congr hsame, hholds⟩, ?_⟩
      rw [hsame r.now le_rfl, hgranted]
      linarith

end Step

/-! ## Whole runs -/

/-- The balance without its debts is a bucket that grants spend from, and that is paid back
into. -/
theorem tokens_spendsFrom (p : Limits) :
    SpendsFrom (@stepAlive Rid _) Request.now
      (fun _ r => r.policy.tokensPerMinute ≤ p.tokensPerMinute ∧ r.now = r.clock)
      (fun s r => tokensGranted s r - credited s r) (TokensAccrue p) (tokensFound p)
      p.tokensPerMinute (accrual p) where
  keeps t s r h hle hr := (h.step hr.1 hr.2 hle).1
  spends t s r h hle hr := (h.step hr.1 hr.2 hle).2
  capped t s t' h hle := tokensFound_le p s t'
  grows t s t' h hle := h.accrues.le_add hle
  nonneg t s h := tokensFound_nonneg p s t
  earned_add := accrual_add p
  earned_nonneg t t' hle := by
    have hmono := accrual_mono p t hle
    have hnone : accrual p t t = 0 := by
      unfold accrual
      rw [sub_self, mul_zero, zero_div]
    rwa [hnone] at hmono

theorem tokensAccrue_empty (p : Limits) (t : Int) :
    TokensAccrue p t (.empty : PairState Rid) := by
  have hfull : ∀ v, tokensFound p (.empty : PairState Rid) v = p.tokensPerMinute := fun v => rfl
  refine ⟨.of_accrue (b := (p.tokensPerMinute : Rat)) p.tokenRate_nonneg ?_, holdsNonneg_empty⟩
  intro v hv
  have hspan : (0 : Rat) ≤ (v - t : Int) := by exact_mod_cast Int.sub_nonneg.mpr hv
  have hrate := p.tokenRate_nonneg
  rw [hfull]
  refine (accrue_of_full ?_).symm
  have hearned : 0 ≤ ((v - t : Int) : Rat) / 1000 * ((p.tokensPerMinute : Rat) / 60) := by
    positivity
  linarith

/-- **Token rate.**  In any interval of time a pair is granted no more tokens than its tokens
per minute, what their rate earns in the interval, and what refunds and the sweep pay back
in it, whatever is committed beyond its hold and whichever keys expire.  Each call may carry a
policy of its own, as gateways do that have not all seen an edit: the tokens per minute are
those of the most generous one. -/
theorem token_rate_bound (p : Limits) (t0 : Int) (calls : List (Request Rid))
    (hpolicy : ∀ r ∈ calls, r.policy.tokensPerMinute ≤ p.tokensPerMinute)
    (hclock : ∀ r ∈ calls, r.now = r.clock)
    (htime : Chronological Request.now t0 calls) (a b : Int) (hab : a ≤ b) :
    tally stepAlive (fun s r => if a ≤ r.now ∧ r.now ≤ b then tokensGranted s r else 0) .empty
        calls ≤
      (p.tokensPerMinute : Rat) + (p.tokensPerMinute : Rat) / 60 * (b - a) / 1000 +
        tally stepAlive (fun s r => if a ≤ r.now ∧ r.now ≤ b then credited s r else 0) .empty
          calls := by
  have hmeets : Along stepAlive
      (fun _ r => r.policy.tokensPerMinute ≤ p.tokensPerMinute ∧ r.now = r.clock)
      (.empty : PairState Rid) calls :=
    along_of_forall stepAlive (fun r hr => ⟨hpolicy r hr, hclock r hr⟩) _
  have hnet := (tokens_spendsFrom p).spent_within_le (tokensAccrue_empty p t0) htime hmeets hab
  have hsplit : (fun (s : PairState Rid) r =>
      if a ≤ r.now ∧ r.now ≤ b then tokensGranted s r - credited s r else 0) =
      fun s r => (if a ≤ r.now ∧ r.now ≤ b then tokensGranted s r else 0) -
        if a ≤ r.now ∧ r.now ≤ b then credited s r else 0 := by
    funext s r
    split
    · rfl
    · exact (sub_zero 0).symm
  rw [hsplit, tally_sub] at hnet
  exact sub_le_iff_le_add.mp hnet

/-- Two reserves of most of the budget a second apart, the first of which is refunded in
between. -/
theorem token_rate_bound_refund :
    tally stepAlive (fun s r => if 0 ≤ r.now ∧ r.now ≤ 1000 then tokensGranted s r else 0) .empty
        [callAt defaultLimits 0 (.reserve (1 : Nat) 90000 0),
          callAt defaultLimits 500 (.commit 1 10000 0 0),
          callAt defaultLimits 1000 (.reserve 2 85000 0)] ≤
      (defaultLimits.tokensPerMinute : Rat) +
        (defaultLimits.tokensPerMinute : Rat) / 60 * ((1000 : Int) - (0 : Int)) / 1000 +
        tally stepAlive (fun s r => if 0 ≤ r.now ∧ r.now ≤ 1000 then credited s r else 0) .empty
          [callAt defaultLimits 0 (.reserve (1 : Nat) 90000 0),
            callAt defaultLimits 500 (.commit 1 10000 0 0),
            callAt defaultLimits 1000 (.reserve 2 85000 0)] :=
  token_rate_bound defaultLimits 0 _ (by simp [callAt]) (by simp [callAt]) (by simp [callAt])
    0 1000 (by decide)

end RateLimiter.Admission
