import RateLimiter.Admission.Calls

/-!
# The token ledger

Every token of a pair is in one of three places: in the balance, in the hold of
a reservation, or charged by a commit.  Under a fixed policy the three together
never exceed the limit and what has accrued since the pair was first touched,
and the balance never falls below what commits charged beyond their holds.
-/

namespace RateLimiter.Admission

open RateLimiter.Redis RateLimiter.Foundations

variable {Rid : Type} [LinearOrder Rid]

/-! ## What a call charges -/

/-- The usage a call charges: a commit's `actual` unless it is answered as a
duplicate. -/
def charged (s : PairState Rid) (r : Request Rid) : Rat :=
  match r.op.settles? with
  | some (_, actual) => if answeredDuplicate (handle s r).2 then 0 else actual
  | none => 0

/-- The part of a charge that the hold does not cover. -/
def overrun (s : PairState Rid) (r : Request Rid) : Rat :=
  match r.op.settles? with
  | some (rid, actual) =>
      if answeredDuplicate (handle s r).2 then 0 else max 0 (actual - heldFor rid s)
  | none => 0

/-- The limit and what accrues on it since `t0`. -/
def earned (p : Limits) (t0 t : Int) : Rat :=
  p.tokensPerMinute + (p.tokensPerMinute : Rat) / 60 * (t - t0) / 1000

theorem earned_mono (p : Limits) (t0 : Int) {t t' : Int} (h : t ≤ t') :
    earned p t0 t + (p.tokensPerMinute : Rat) / 60 * (t' - t) / 1000 = earned p t0 t' ∧
      earned p t0 t ≤ earned p t0 t' := by
  have hL := p.tokensPerMinute_pos_rat
  have hcast : (t : Rat) ≤ t' := by exact_mod_cast h
  have hsplit : earned p t0 t + (p.tokensPerMinute : Rat) / 60 * (t' - t) / 1000 =
      earned p t0 t' := by
    unfold earned
    ring
  have hgain : 0 ≤ (p.tokensPerMinute : Rat) / 60 * (t' - t) / 1000 := by
    have := sub_nonneg.mpr hcast
    positivity
  exact ⟨hsplit, by linarith⟩

/-! ## The invariant -/

/-- What the ledger says at time `t`, when `paid.1` has been charged and `paid.2`
overrun so far. -/
structure LedgerInv (p : Limits) (t0 t : Int) (paid : Rat × Rat) (s : PairState Rid) : Prop where
  started : t0 ≤ t
  holds_nonneg : HoldsNonneg s
  overrun_nonneg : 0 ≤ paid.2
  untouched : s.tpm = none → s.reservations.total + paid.1 ≤ 0
  stored : ∀ b, s.tpm.get = some b → ∃ ts, s.tpmTs.get = some ts ∧ ts ≤ t ∧
    b + s.reservations.total + paid.1 ≤ earned p t0 ts ∧
    -paid.2 ≤ b ∧ b ≤ p.tokensPerMinute

namespace LedgerInv

variable {p : Limits} {t0 t : Int} {paid : Rat × Rat} {s : PairState Rid}

theorem empty (p : Limits) (t0 : Int) : LedgerInv p t0 t0 0 (PairState.empty : PairState Rid) where
  started := le_rfl
  holds_nonneg := holdsNonneg_empty
  overrun_nonneg := le_rfl
  untouched := by
    intro _
    exact (add_zero (0 : Rat)).le
  stored := by
    intro b h
    cases h

/-- The balance a call reads at `now` is covered by what has been earned. -/
theorem balanceAt_le (h : LedgerInv p t0 t paid s) {now : Int} (hnow : t ≤ now) :
    balanceAt p now s + s.reservations.total + paid.1 ≤ earned p t0 now := by
  cases htpm : s.tpm.get with
  | none =>
      -- no balance stored: the pair reads as full, and nothing is held or charged yet
      have hfull : balanceAt p now s = p.tokensPerMinute := by
        unfold balanceAt
        rw [htpm]
        exact refill_none_left _ _ _ _
      have hempty := h.untouched (by simpa using htpm)
      have hlimit : (p.tokensPerMinute : Rat) ≤ earned p t0 now := by
        have := (earned_mono p t0 (h.started.trans hnow)).2
        unfold earned at this ⊢
        simpa using this
      linarith
  | some b =>
      obtain ⟨ts, hts, hle, hcover, -, -⟩ := h.stored b htpm
      have haccrue : balanceAt p now s ≤
          b + (p.tokensPerMinute : Rat) / 60 * (now - ts) / 1000 := by
        unfold balanceAt
        rw [htpm, hts]
        exact refill_le_of_le (hle.trans hnow) _ _ _
      have hearned := (earned_mono p t0 (hle.trans hnow)).1
      linarith

/-- The balance a call reads at `now` has not fallen below the overruns. -/
theorem le_balanceAt (h : LedgerInv p t0 t paid s) (now : Int) :
    -paid.2 ≤ balanceAt p now s := by
  have hL := p.tokensPerMinute_pos_rat
  have hover := h.overrun_nonneg
  cases htpm : s.tpm.get with
  | none =>
      unfold balanceAt
      rw [htpm, refill_none_left]
      linarith
  | some b =>
      obtain ⟨ts, hts, -, -, hlower, hupper⟩ := h.stored b htpm
      have hkeep : b ≤ balanceAt p now s := by
        unfold balanceAt
        rw [htpm, hts]
        exact le_refill (by positivity) hupper
      linarith

/-- A call that writes no key and charges nothing keeps the ledger. -/
theorem later (h : LedgerInv p t0 t paid s) {now : Int} (hnow : t ≤ now) :
    LedgerInv p t0 now paid s where
  started := h.started.trans hnow
  holds_nonneg := h.holds_nonneg
  overrun_nonneg := h.overrun_nonneg
  untouched := h.untouched
  stored := by
    intro b hb
    obtain ⟨ts, hts, hle, hrest⟩ := h.stored b hb
    exact ⟨ts, hts, hle.trans hnow, hrest⟩

/-- A call that writes the balance at `now` keeps the ledger when the written
balance is covered from above and from below. -/
theorem write (h : LedgerInv p t0 t paid s) {now clock : Int} {ttl : Nat} (hnow : t ≤ now)
    {s' : PairState Rid} {b : Rat} {paid' : Rat × Rat}
    (htpm : s'.tpm = .setEx clock b ttl) (htpmTs : s'.tpmTs = .setEx clock now ttl)
    (hholds : HoldsNonneg s') (hover : 0 ≤ paid'.2)
    (hcover : b + s'.reservations.total + paid'.1 ≤ earned p t0 now) (hlower : -paid'.2 ≤ b)
    (hupper : b ≤ p.tokensPerMinute) :
    LedgerInv p t0 now paid' s' where
  started := h.started.trans hnow
  holds_nonneg := hholds
  overrun_nonneg := hover
  untouched := by
    intro hnone
    rw [htpm] at hnone
    cases hnone
  stored := by
    intro b' hb'
    rw [htpm, StringKey.get_setEx] at hb'
    cases hb'
    exact ⟨now, by rw [htpmTs, StringKey.get_setEx], le_rfl, hcover, hlower, hupper⟩

end LedgerInv

/-! ## One call -/

section Step

variable {p : Limits} {t0 t : Int} {paid : Rat × Rat} {s : PairState Rid} {r : Request Rid}

omit [LinearOrder Rid] in
/-- A sum of holds does not grow when the hold under one id is replaced. -/
theorem total_put_le [DecidableEq Rid] {c : Hash Rid Rat}
    (hholds : ∀ k held, c.get k = some held → 0 ≤ held) (rid : Rid) (v : Rat) :
    (c.put rid v).total ≤ v + c.total := by
  rw [Collection.total_put]
  cases hget : c.get rid with
  | none => rw [Collection.total_del_of_get_eq_none hget]
  | some held =>
      have hnonneg := hholds rid held hget
      have htotal := Collection.total_del_of_get hget
      linarith

theorem ledger_reserve (h : LedgerInv p t0 t paid s) (hnow : t ≤ r.now) (hp : r.policy = p)
    {rid : Rid} {tokens slo : NNRat} (hop : r.op = .reserve rid tokens slo) :
    LedgerInv p t0 r.now paid (step s r) := by
  have hread := h.balanceAt_le hnow
  have hlower := h.le_balanceAt r.now
  have htotal := reclaim_total r.now reclaimBatch s
  have hreclaimed := reclaim_tokens_nonneg r.now reclaimBatch s h.holds_nonneg
  have hswept := h.holds_nonneg.sweep r
  have hholds := h.holds_nonneg.step r
  have htokens : (0 : Rat) ≤ tokens := tokens.2
  have hdecision : decisionBalance s r ≤ balanceAt p r.now s + (sweepOf s r).tokens := by
    unfold decisionBalance
    rw [hp]
    exact min_le_left _ _
  have hlimit : decisionBalance s r ≤ p.tokensPerMinute := by
    unfold decisionBalance
    rw [hp]
    exact min_le_right _ _
  change (sweepOf s r).tokens + (sweepOf s r).state.reservations.total = _ at htotal
  change 0 ≤ (sweepOf s r).tokens at hreclaimed
  rcases reserve_cases hop with
    ⟨-, hfits, -, hwrite, -, hreservations⟩ | ⟨-, hwrite, -, hreservations⟩
  · -- admitted: what leaves the balance enters the hold
    have hput := total_put_le hswept rid (tokens : Rat)
    refine h.write hnow hwrite.tpm hwrite.tpmTs hholds h.overrun_nonneg ?_ ?_ ?_
    · rw [hreservations, Collection.total_expire]
      linarith
    · have := h.overrun_nonneg
      linarith
    · linarith
  · -- shed: the refill and the sweep are stored all the same
    refine h.write hnow hwrite.tpm hwrite.tpmTs hholds h.overrun_nonneg ?_ ?_ ?_
    · rw [hreservations, Collection.total_expire]
      linarith
    · have hL := p.tokensPerMinute_pos_rat
      have hover := h.overrun_nonneg
      have : -paid.2 ≤ decisionBalance s r := by
        unfold decisionBalance
        rw [hp]
        exact le_min (by linarith) (by linarith)
      linarith
    · linarith

theorem ledger_settle (h : LedgerInv p t0 t paid s) (hnow : t ≤ r.now) (hp : r.policy = p)
    {rid : Rid} {actual : NNRat} (hop : r.op.settles? = some (rid, actual)) :
    LedgerInv p t0 r.now (paid + (charged s r, overrun s r)) (step s r) := by
  cases hmarker : s.settled rid with
  | some marker =>
      -- A replay: nothing is charged and no key changes.
      obtain ⟨hreply, hstep⟩ := settle_duplicate hop hmarker
      have hcharged : charged s r = 0 := by simp [charged, hop, hreply]
      have hoverrun : overrun s r = 0 := by simp [overrun, hop, hreply]
      rw [hstep, hcharged, hoverrun, Prod.mk_zero_zero, add_zero]
      exact h.later hnow
  | none =>
      -- A first settlement: the hold goes back, `actual` is charged, and the clamp can only
      -- lower the sum.
      obtain ⟨hreply, settled, stats, hstep⟩ := settle_cases hop hmarker
      have hcharged : charged s r = actual := by simp [charged, hop, hreply]
      have hoverrun : overrun s r = max 0 (actual - heldFor rid s) := by
        simp [overrun, hop, hreply]
      have hread := h.balanceAt_le hnow
      have hlower := h.le_balanceAt r.now
      have htotal : heldFor rid s + (takeHold rid s).reservations.total =
          s.reservations.total := takeHold_total rid s
      have hL := p.tokensPerMinute_pos_rat
      have hover := h.overrun_nonneg
      have hzero : 0 ≤ max 0 ((actual : Rat) - heldFor rid s) := le_max_left _ _
      have hexcess : (actual : Rat) - heldFor rid s ≤ max 0 (actual - heldFor rid s) :=
        le_max_right _ _
      have hbalance : settlementBalance s r rid actual =
          min (balanceAt p r.now s + (heldFor rid s - actual)) p.tokensPerMinute := by
        unfold settlementBalance
        rw [hp]
      have hholds := h.holds_nonneg.step r
      rw [hstep] at hholds
      rw [hstep, hcharged, hoverrun]
      refine h.write hnow rfl rfl hholds ?_ ?_ ?_ ?_
      · simp only [Prod.snd_add]
        linarith
      · simp only [Prod.fst_add]
        have := min_le_left (balanceAt p r.now s + (heldFor rid s - actual))
          (p.tokensPerMinute : Rat)
        linarith
      · simp only [Prod.snd_add]
        rw [hbalance]
        exact le_min (by linarith) (by linarith)
      · rw [hbalance]
        exact min_le_right _ _

/-- Every call keeps the ledger. -/
theorem ledger_step (h : LedgerInv p t0 t paid s) (hnow : t ≤ r.now) (hp : r.policy = p) :
    LedgerInv p t0 r.now (paid + (charged s r, overrun s r)) (step s r) := by
  have hfree (hnone : r.op.settles? = none) :
      paid + (charged s r, overrun s r) = paid := by
    have hcharged : charged s r = 0 := by simp [charged, hnone]
    have hoverrun : overrun s r = 0 := by simp [overrun, hnone]
    rw [hcharged, hoverrun, Prod.mk_zero_zero, add_zero]
  rcases op_cases r.op with ⟨rid, tokens, slo, hop⟩ | ⟨rid, actual, hop⟩ | hop
  · rw [hfree (by rw [hop]; rfl)]
    exact ledger_reserve h hnow hp hop
  · exact ledger_settle h hnow hp hop
  · rw [hfree (by rw [hop]; rfl), step_snapshot hop]
    exact h.later hnow

end Step

/-! ## Whole runs -/

/-- **The token ledger.**  After any run of calls under one policy, the balance,
the holds and the charged usage together are within the limit and the accrual
since `t0`; the balance is within the limit, and it is below zero by no more
than the usage charged beyond its holds. -/
theorem token_ledger (p : Limits) (t0 : Int) (calls : List (Request Rid))
    (hpolicy : ∀ r ∈ calls, r.policy = p) (htime : Chronological Request.now t0 calls)
    (b : Rat) (hb : (run step .empty calls).tpm.get = some b) :
    b + (run step .empty calls).reservations.total + tally step charged .empty calls ≤
        p.tokensPerMinute +
          (p.tokensPerMinute : Rat) / 60 * (lastTime Request.now t0 calls - t0) / 1000 ∧
      -tally step overrun .empty calls ≤ b ∧ b ≤ p.tokensPerMinute := by
  have hinv := timed_run Request.now step (fun s r => (charged s r, overrun s r))
    (I := LedgerInv p t0) (P := fun _ r => r.policy = p)
    (fun t m s r h hnow hp => ledger_step h hnow hp)
    (LedgerInv.empty p t0) htime (along_of_forall step hpolicy .empty)
  rw [tally_prodMk, zero_add] at hinv
  obtain ⟨ts, -, hle, hcover, hlower, hupper⟩ := hinv.stored b hb
  exact ⟨hcover.trans (earned_mono p t0 hle).2, hlower, hupper⟩

/-- The ledger of one reservation, committed a second later. -/
theorem token_ledger_reserve_commit :
    (100000 : Rat) + (run step .empty
        [callAt defaultLimits 0 (.reserve 7 500 0),
          callAt defaultLimits 1000 (.commit 7 400 0 0)]).reservations.total +
        tally step charged .empty
          [callAt defaultLimits 0 (.reserve 7 500 0),
            callAt defaultLimits 1000 (.commit 7 400 0 0)] ≤
      (100000 : Nat) + ((100000 : Nat) : Rat) / 60 * (((1000 : Int) : Rat) - (0 : Int)) / 1000 := by
  refine (token_ledger defaultLimits 0 [callAt defaultLimits 0 (.reserve (7 : Nat) 500 0),
    callAt defaultLimits 1000 (.commit 7 400 0 0)] ?_ ?_ 100000 ?_).1
  · simp [callAt]
  · exact ⟨by decide, by decide, trivial⟩
  · decide +kernel

end RateLimiter.Admission
