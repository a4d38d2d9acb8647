import RateLimiter.Admission.Calls

/-!
# Repaying an overrun

A commit may leave the balance below zero; the tenant then has to accrue its way
out.  But the balance is a key with a time to live, and a pair without one starts
full: what is left of a debt when the key expires is forgiven.  A debt is repaid
by accrual alone, whatever is called afterwards, exactly when it is small enough
to be paid off, up to the full limit, by the time the key can expire.
-/

namespace RateLimiter.Admission

open RateLimiter.Redis RateLimiter.Javascript RateLimiter.Foundations

variable {Rid : Type} [LinearOrder Rid]

/-- What a call pays back into the balance: the holds its sweep reclaims, or the
part of its reservation's hold that a commit refunds. -/
def credited (s : PairState Rid) (r : Request Rid) : Rat :=
  let alive := s.purge r.clock
  if writes alive r then
    match r.op.settles? with
    | some (rid, actual) => max 0 (heldFor rid alive - actual)
    | none => (sweepOf alive r).tokens
  else 0

/-- The balance a call finds on the server. -/
def balanceFound (s : PairState Rid) (r : Request Rid) : Rat :=
  balanceAt r.policy r.now (s.purge r.clock)

/-- What the limits earn in the time from `t` to `t'`. -/
def accrual (p : Limits) (t t' : Int) : Rat := (p.tokensPerMinute : Rat) / 60 * (t' - t) / 1000

theorem accrual_add (p : Limits) (t t' t'' : Int) :
    accrual p t t' + accrual p t' t'' = accrual p t t'' := by
  unfold accrual
  ring

theorem accrual_mono (p : Limits) (t : Int) {t' t'' : Int} (h : t' ≤ t'') :
    accrual p t t' ≤ accrual p t t'' := by
  have hL := p.tokensPerMinute_pos_rat
  have hcast : (t' : Rat) ≤ t'' := by exact_mod_cast h
  have hgain : 0 ≤ (p.tokensPerMinute : Rat) / 60 * (t'' - t') / 1000 := by
    have := sub_nonneg.mpr hcast
    positivity
  have hsplit := accrual_add p t t' t''
  change accrual p t t' + (p.tokensPerMinute : Rat) / 60 * (t'' - t') / 1000 = _ at hsplit
  linarith

/-- The instant from which a key written at `t` is gone. -/
def goneFrom (p : Limits) (t : Int) : Int := t + 1000 * p.ttlSeconds + 1

/-- A balance of `b` has accrued to the full limit when its key is gone. -/
def RepaidInTime (p : Limits) (t : Int) (b : Rat) : Prop :=
  p.tokensPerMinute ≤ b + accrual p t (goneFrom p t)

/-- What is known at `t'` of a pair whose balance was `b` at `t`, when `paid` has
been paid back into it since: it has earned no more, or its key is gone. -/
structure DebtInv (p : Limits) (t : Int) (b : Rat) (t' : Int) (paid : Rat) (s : PairState Rid) :
    Prop where
  later : t ≤ t'
  holds_nonneg : HoldsNonneg s
  paid_nonneg : 0 ≤ paid
  gone : s.tpm = none → goneFrom p t ≤ t'
  stored : ∀ balance, s.tpm = some balance → ∃ ts, t ≤ ts ∧ ts ≤ t' ∧
    balance.expireAt = ts + 1000 * p.ttlSeconds ∧
    s.tpmTs = some ⟨ts, ts + 1000 * p.ttlSeconds⟩ ∧
    balance.value ≤ b + accrual p t ts + paid

namespace DebtInv

variable {p : Limits} {t t' : Int} {b paid : Rat} {s : PairState Rid} {r : Request Rid}

/-- The balance a call finds is within what has been earned and paid back. -/
theorem balanceFound_le (h : DebtInv p t b t' paid s) (hrepaid : RepaidInTime p t b)
    (hp : r.policy = p) (hclock : r.now = r.clock) (hle : t' ≤ r.clock) :
    balanceFound s r ≤ b + accrual p t r.clock + paid := by
  have hpaid := h.paid_nonneg
  -- Once the key can be gone the debt is repaid, and no balance exceeds the limit.
  have hfull (hlate : goneFrom p t ≤ r.clock) :
      balanceFound s r ≤ b + accrual p t r.clock + paid := by
    have hlimit : balanceFound s r ≤ p.tokensPerMinute := by
      unfold balanceFound
      rw [hp]
      exact balanceAt_le_limit _ _ _
    have hmono := accrual_mono p t hlate
    unfold RepaidInTime at hrepaid
    linarith
  cases htpm : s.tpm with
  | none => exact hfull ((h.gone htpm).trans hle)
  | some balance =>
      obtain ⟨ts, hafter, hts, hexpire, htpmTs, hcover⟩ := h.stored balance htpm
      by_cases hlate : r.clock ≤ ts + 1000 * p.ttlSeconds
      · -- The keys are still there: the balance accrues from where it was stored.
        have hfound : (s.purge r.clock).tpm = some balance := by
          show StringKey.purge r.clock s.tpm = _
          rw [htpm, StringKey.purge_some_of_le (by omega)]
        have hfoundTs : (s.purge r.clock).tpmTs = some ⟨ts, ts + 1000 * p.ttlSeconds⟩ := by
          show StringKey.purge r.clock s.tpmTs = _
          rw [htpmTs, StringKey.purge_some_of_le hlate]
        have hrefill := refill_le_of_le (hts.trans hle) balance.value p.tokensPerMinute
          ((p.tokensPerMinute : Rat) / 60)
        have hsplit := accrual_add p t ts r.clock
        have hread : balanceFound s r = refill r.clock (some balance.value) (some ts)
            p.tokensPerMinute ((p.tokensPerMinute : Rat) / 60) := by
          unfold balanceFound balanceAt
          rw [hfound, hfoundTs, hp, hclock]
          rfl
        rw [hread]
        change _ ≤ balance.value + accrual p ts r.clock at hrefill
        linarith
      · apply hfull
        unfold goneFrom
        omega

end DebtInv

/-! ## One call -/

section Step

variable {p : Limits} {t t' : Int} {b paid : Rat} {s : PairState Rid} {r : Request Rid}

theorem credited_reserve {rid : Rid} {tokens slo : NNRat} (hop : r.op = .reserve rid tokens slo) :
    credited s r = (sweepOf (s.purge r.clock) r).tokens := by
  simp [credited, writes, hop, Op.settles?]

theorem credited_nonneg (h : HoldsNonneg s) (r : Request Rid) : 0 ≤ credited s r := by
  unfold credited
  dsimp only
  split
  · split
    · exact le_max_left _ _
    · exact reclaim_tokens_nonneg _ _ _ (h.purge r.clock)
  · exact le_rfl

/-- A call stores no more than it finds and pays back. -/
theorem written_le (hwrites : writes (s.purge r.clock) r = true) {balance : Rat}
    (hwritten : (stepAlive s r).tpm.get = some balance) :
    balance ≤ balanceFound s r + credited s r := by
  unfold stepAlive at hwritten
  rcases op_cases r.op with ⟨rid, tokens, slo, hop⟩ | ⟨rid, actual, hop⟩ | hop
  · have hdecision : decisionBalance (s.purge r.clock) r ≤ balanceFound s r + credited s r := by
      rw [credited_reserve hop]
      exact min_le_left _ _
    have htokens : (0 : Rat) ≤ tokens := tokens.2
    rcases reserve_cases (s := s.purge r.clock) hop with
      ⟨-, -, -, hwrite, -, -⟩ | ⟨-, hwrite, -, -⟩
    · rw [hwrite.tpm, StringKey.get_setEx] at hwritten
      cases hwritten
      linarith
    · rw [hwrite.tpm, StringKey.get_setEx] at hwritten
      cases hwritten
      linarith
  · have hmarker : (s.purge r.clock).settled rid = none := by
      rw [writes_of_settles hop] at hwrites
      simpa using hwrites
    obtain ⟨-, settled, stats, hstep⟩ := settle_cases hop hmarker
    rw [hstep] at hwritten
    dsimp only at hwritten
    rw [StringKey.get_setEx] at hwritten
    cases hwritten
    have hcredit : credited s r = max 0 (heldFor rid (s.purge r.clock) - actual) := by
      simp [credited, hwrites, hop]
    have hrefund := le_max_right 0 (heldFor rid (s.purge r.clock) - (actual : Rat))
    have hclamp := min_le_left
      (balanceAt r.policy r.now (s.purge r.clock) + (heldFor rid (s.purge r.clock) - actual))
      (r.policy.tokensPerMinute : Rat)
    unfold settlementBalance balanceFound
    linarith
  · simp [writes, hop] at hwrites

/-- Every call keeps what is known of a debt that is repaid in time. -/
theorem DebtInv.step (h : DebtInv p t b t' paid s) (hrepaid : RepaidInTime p t b)
    (hp : r.policy = p) (hclock : r.now = r.clock) (hle : t' ≤ r.clock) :
    DebtInv p t b r.clock (paid + credited s r) (stepAlive s r) := by
  have hholds : HoldsNonneg (stepAlive s r) := (h.holds_nonneg.purge r.clock).step r
  have hcredit := credited_nonneg h.holds_nonneg r
  have hpaid := h.paid_nonneg
  refine ⟨h.later.trans hle, hholds, by linarith, ?_, ?_⟩
  · intro hnone
    cases hwrites : writes (s.purge r.clock) r with
    | true =>
        obtain ⟨balance, hwritten, -⟩ := step_of_writes hwrites
        unfold stepAlive at hnone
        rw [hwritten] at hnone
        cases hnone
    | false =>
        -- Nothing was written, so the key was missing before or ran out on the way.
        unfold stepAlive at hnone
        rw [step_of_not_writes hwrites] at hnone
        cases htpm : s.tpm with
        | none => exact (h.gone htpm).trans hle
        | some balance =>
            obtain ⟨ts, hts, -, hexpire, -, -⟩ := h.stored balance htpm
            by_contra hearly
            have hfound : (s.purge r.clock).tpm = some balance := by
              show StringKey.purge r.clock s.tpm = _
              unfold goneFrom at hearly
              rw [htpm, StringKey.purge_some_of_le (by omega)]
            rw [hfound] at hnone
            cases hnone
  · intro balance hbalance
    cases hwrites : writes (s.purge r.clock) r with
    | true =>
        have hfound := h.balanceFound_le hrepaid hp hclock hle
        have hstored : (stepAlive s r).tpm.get = some balance.value := by rw [hbalance]; rfl
        have hcover := written_le hwrites hstored
        obtain ⟨written, hwritten, hwrittenTs⟩ := step_of_writes hwrites
        unfold stepAlive at hbalance
        rw [hwritten] at hbalance
        cases hbalance
        refine ⟨r.clock, h.later.trans hle, le_rfl, by rw [hp], ?_, by linarith⟩
        unfold stepAlive
        rw [hwrittenTs, hclock, hp]
        rfl
    | false =>
        -- The balance is the one that was known, and so is its clock: both keys expire together.
        have hkeys : stepAlive s r = s.purge r.clock := step_of_not_writes hwrites
        rw [hkeys] at hbalance
        obtain ⟨hstored, halive⟩ := StringKey.purge_eq_some.mp hbalance
        obtain ⟨ts, hts, hbefore, hexpire, htpmTs, hcover⟩ := h.stored balance hstored
        refine ⟨ts, hts, hbefore.trans hle, hexpire, ?_, by linarith⟩
        rw [hkeys]
        show StringKey.purge r.clock s.tpmTs = _
        rw [htpmTs, StringKey.purge_some_of_le (by dsimp only; omega)]

end Step

/-! ## Whole runs -/

/-- The calls are made under one policy and on the server's clock. -/
def OnePolicy (p : Limits) (calls : List (Request Rid)) : Prop :=
  ∀ r ∈ calls, r.policy = p ∧ r.now = r.clock

section Run

variable {p : Limits} {t t' : Int} {b paid : Rat} {s : PairState Rid}
  {calls : List (Request Rid)}

theorem debtInv_run (h : DebtInv p t b t' paid s) (hrepaid : RepaidInTime p t b)
    (hpolicy : OnePolicy p calls) (htime : Chronological Request.clock t' calls) :
    DebtInv p t b (lastTime Request.clock t' calls) (paid + tally stepAlive credited s calls)
      (run stepAlive s calls) :=
  timed_run Request.clock stepAlive credited
    (P := fun _ r => r.policy = p ∧ r.now = r.clock)
    (fun _ _ _ _ hI hle hP => hI.step hrepaid hP.1 hP.2 hle) h htime
    (along_of_forall stepAlive hpolicy s)

theorem holdsNonneg_run (h : HoldsNonneg s) (calls : List (Request Rid)) :
    HoldsNonneg (run stepAlive s calls) :=
  run_invariant stepAlive (fun _ r hs => (hs.purge r.clock).step r) h calls

omit [LinearOrder Rid] in
/-- A pair with no balance key is found full. -/
theorem balanceFound_of_gone {balance : Timed Rat} {r : Request Rid} (hp : r.policy = p)
    (htpm : s.tpm = some balance) (hgone : balance.expireAt < r.clock) :
    balanceFound s r = p.tokensPerMinute := by
  have hlost : (s.purge r.clock).tpm = none := by
    show StringKey.purge r.clock s.tpm = none
    rw [htpm, StringKey.purge_some_of_lt hgone]
  unfold balanceFound balanceAt
  rw [hlost, hp]
  rfl

/-- An admitted request fits the balance its call finds and reclaims. -/
theorem admitted_le {r : Request Rid} {rid : Rid} {tokens slo : NNRat}
    (hop : r.op = .reserve rid tokens slo)
    (hadmitted : admitted (handle (s.purge r.clock) r).2 = true) :
    (tokens : Rat) ≤ balanceFound s r + credited s r := by
  rcases reserve_cases (s := s.purge r.clock) hop with ⟨-, hfits, -⟩ | ⟨hshed, -⟩
  · rw [credited_reserve hop]
    exact hfits.trans (min_le_left _ _)
  · rw [hshed] at hadmitted
    cases hadmitted

/-- What a commit that overruns the balance leaves: nothing was clamped, and both
keys live from the commit on. -/
theorem overrun_leaves {c : Request Rid} {rid : Rid} {actual : NNRat}
    (hop : c.op.settles? = some (rid, actual)) (hp : c.policy = p) (hclock : c.now = c.clock)
    (hfirst : (s.purge c.clock).settled rid = none) (hb : (stepAlive s c).tpm.get = some b)
    (hdebt : b < 0) :
    b = balanceFound s c + (heldFor rid (s.purge c.clock) - actual) ∧
      (stepAlive s c).tpm = some ⟨b, c.clock + 1000 * p.ttlSeconds⟩ ∧
      (stepAlive s c).tpmTs = some ⟨c.clock, c.clock + 1000 * p.ttlSeconds⟩ := by
  have hL := p.tokensPerMinute_pos_rat
  obtain ⟨-, settled, stats, hstep⟩ := settle_cases hop hfirst
  change stepAlive s c = _ at hstep
  rw [hstep] at hb ⊢
  have hbalance := Option.some.inj hb
  refine ⟨?_, ?_, ?_⟩
  · unfold settlementBalance at hbalance
    rw [hp] at hbalance
    rcases min_choice (balanceAt p c.now (s.purge c.clock) +
        (heldFor rid (s.purge c.clock) - (actual : Rat))) (p.tokensPerMinute : Rat) with
      hunclamped | hclamped
    · unfold balanceFound
      rw [hp, ← hunclamped]
      exact hbalance.symm
    · -- A clamped balance is the limit, which is no debt.
      rw [hclamped] at hbalance
      linarith
  · rw [← hbalance, ← hp]
    rfl
  · rw [← hp]
    dsimp only
    rw [hclock]
    rfl

/-- A debt is known from the commit that leaves it. -/
theorem debtInv_start (hholds : HoldsNonneg s) (htpm : s.tpm = some ⟨b, t + 1000 * p.ttlSeconds⟩)
    (htpmTs : s.tpmTs = some ⟨t, t + 1000 * p.ttlSeconds⟩) : DebtInv p t b t 0 s := by
  refine ⟨le_rfl, hholds, le_rfl, ?_, ?_⟩
  · intro hnone
    rw [htpm] at hnone
    cases hnone
  · intro balance hbalance
    rw [htpm] at hbalance
    cases hbalance
    refine ⟨t, le_rfl, le_rfl, rfl, htpmTs, ?_⟩
    unfold accrual
    simp

end Run

end RateLimiter.Admission
