import RateLimiter.Admission.RetryAfter

/-!
# A shed request leaves no trace

A reserve that is shed rewrites both balances and both of their clocks.  Where no lease
was due it has only split an interval of accrual in two, which no later call can tell:
the runs with it and without it stay alike, answer by answer.
-/

namespace RateLimiter.Admission

open RateLimiter.Redis RateLimiter.Javascript RateLimiter.Foundations

variable {Rid : Type} [LinearOrder Rid]

/-! ## States that cannot be told apart -/

/-- What no call under `p` from `t` on can tell apart: the balances accrue alike, and the
rest is the same but for the times to live of the leases and the holds. -/
structure Alike (p : Limits) (t : Int) (s u : PairState Rid) : Prop where
  tokens : ∀ v, t ≤ v → balanceAt p v s = balanceAt p v u
  requests : ∀ v, t ≤ v → requestsAt p v s = requestsAt p v u
  leases : s.leases.members = u.leases.members
  reservations : s.reservations.members = u.reservations.members
  stats : s.stats = u.stats
  settled : s.settled = u.settled

/-- Two sweeps that have done the same. -/
structure Sweep.Alike (x y : Sweep Rid) : Prop where
  leases : x.state.leases.members = y.state.leases.members
  reservations : x.state.reservations.members = y.state.reservations.members
  tokens : x.tokens = y.tokens
  count : x.count = y.count

section Members

variable {κ ν : Type}

theorem members_expire (clock : Int) (ttl : Nat) (c : Collection κ ν) :
    (c.expire clock ttl).members = c.members := by
  unfold Collection.expire
  split <;> rfl

variable [DecidableEq κ] {c d : Collection κ ν}

theorem get_of_members (h : c.members = d.members) (k : κ) : c.get k = d.get k :=
  congrArg (AList.lookup k) h

theorem members_put (h : c.members = d.members) (k : κ) (v : ν) :
    (c.put k v).members = (d.put k v).members := by
  show c.members.insert k v = d.members.insert k v
  rw [h]

theorem members_del (h : c.members = d.members) (k : κ) :
    (c.del k).members = (d.del k).members :=
  congrArg (AList.erase k) h

omit [DecidableEq κ] in
theorem card_of_members (h : c.members = d.members) : c.card = d.card :=
  congrArg (fun members => members.entries.length) h

end Members

section Step

variable {p : Limits} {t : Int} {s u : PairState Rid} {r : Request Rid}

omit [LinearOrder Rid] in
theorem Alike.mono (h : Alike p t s u) {t' : Int} (hle : t ≤ t') : Alike p t' s u :=
  ⟨fun v hv => h.tokens v (hle.trans hv), fun v hv => h.requests v (hle.trans hv), h.leases,
    h.reservations, h.stats, h.settled⟩

/-- The reclaiming loop does the same on sweeps that have done the same. -/
theorem Sweep.Alike.reclaimOne {x y : Sweep Rid} (h : x.Alike y) (rid : Rid) :
    (reclaimOne x rid).Alike (reclaimOne y rid) := by
  have hheld := get_of_members h.reservations rid
  unfold Admission.reclaimOne
  dsimp only
  rw [hheld]
  cases y.state.reservations.get rid with
  | none =>
      exact ⟨members_del h.leases rid, h.reservations, h.tokens, congrArg (· + 1) h.count⟩
  | some held =>
      exact ⟨members_del h.leases rid, members_del h.reservations rid,
        congrArg (· + held) h.tokens, congrArg (· + 1) h.count⟩

/-- Sweeps of states that cannot be told apart do the same. -/
theorem Alike.reclaim (h : Alike p t s u) (now : Int) (batch : Nat) :
    (reclaim now batch s).Alike (reclaim now batch u) := by
  have hrange : s.leases.rangeByScore now batch = u.leases.rangeByScore now batch := by
    unfold SortedSet.rangeByScore
    rw [h.leases]
  unfold Admission.reclaim
  rw [hrange]
  refine List.foldl_rel (r := Sweep.Alike) ⟨h.leases, h.reservations, rfl, rfl⟩ ?_
  intro rid _ x y hxy
  exact hxy.reclaimOne rid

/-- A reserve answers the same and leaves them alike. -/
theorem Alike.admission (h : Alike p t s u) {now : Int} (hle : t ≤ now) (clock : Int) (rid : Rid)
    (tokens slo : Rat) :
    (admitScript clock (admitArgs p now rid (some tokens) slo) s).2 =
        (admitScript clock (admitArgs p now rid (some tokens) slo) u).2 ∧
      Alike p now (admitScript clock (admitArgs p now rid (some tokens) slo) s).1
        (admitScript clock (admitArgs p now rid (some tokens) slo) u).1 := by
  set a := admitArgs p now rid (some tokens) slo with ha
  have hsweep := h.reclaim a.now a.reclaimBatch
  have htpm : tpmBalance a s = tpmBalance a u := by
    -- the balance before the sweep is read alike, and the sweeps pay back the same
    have htokens : balanceAt p now s = balanceAt p now u := h.tokens now hle
    show min (balanceAt p now s + _) _ = min (balanceAt p now u + _) _
    rw [htokens, hsweep.tokens]
  have hrpm : rpmBalance a s = rpmBalance a u := h.requests now hle
  have havg : avgSvc a s = avgSvc a u := by
    unfold avgSvc
    rw [h.stats]
  have hcard := card_of_members hsweep.leases
  have hcount := hsweep.count
  have hreserve : a.reserve = some tokens := rfl
  unfold admitScript
  simp only [htpm, hrpm, havg, hcard, hcount, hreserve]
  cases decideAdmission a tokens (tpmBalance a u) (rpmBalance a u) (avgSvc a u)
      (Admission.reclaim a.now a.reclaimBatch u).state.leases.card with
  | admitted =>
      -- both balances have just been written, from the same numbers
      refine ⟨rfl, fun v _ => rfl, fun v _ => rfl, ?_, ?_, ?_, ?_⟩
      · simp only [persist, members_expire]
        exact members_put hsweep.leases _ _
      · simp only [persist, members_expire]
        exact members_put hsweep.reservations _ _
      · simp only [persist, reclaim_stats]
        exact h.stats
      · simp only [persist, reclaim_settled]
        exact h.settled
  | shed reason retryAfterMs =>
      refine ⟨rfl, fun v _ => rfl, fun v _ => rfl, ?_, ?_, ?_, ?_⟩
      · simp only [persist, members_expire]
        exact hsweep.leases
      · simp only [persist, members_expire]
        exact hsweep.reservations
      · simp only [persist, reclaim_stats]
        exact h.stats
      · simp only [persist, reclaim_settled]
        exact h.settled

/-- Taking a hold takes the same from both. -/
theorem Alike.takeHold (h : Alike p t s u) (rid : Rid) :
    (takeHold rid s).leases.members = (takeHold rid u).leases.members ∧
      (takeHold rid s).reservations.members = (takeHold rid u).reservations.members := by
  have hheld := get_of_members h.reservations rid
  unfold Admission.takeHold
  rw [hheld]
  cases u.reservations.get rid with
  | none => exact ⟨h.leases, h.reservations⟩
  | some held => exact ⟨members_del h.leases rid, members_del h.reservations rid⟩

/-- Nothing has written the request balance since. -/
theorem requestsAt_takeHold (p : Limits) (v : Int) (rid : Rid) (s : PairState Rid) :
    refill v (takeHold rid s).rpm.get (takeHold rid s).rpmTs.get p.requestsPerMinute
      ((p.requestsPerMinute : Rat) / 60) = requestsAt p v s := by
  rw [takeHold_frame]
  rfl

/-- A commit answers the same and leaves them alike. -/
theorem Alike.commit (h : Alike p t s u) {now : Int} (hle : t ≤ now) (clock : Int) (rid : Rid)
    (actual serviceMs outputTokens : Rat) (idemTtl : JsNumber) :
    (commitScript clock (commitArgs p now rid (some actual) (some serviceMs)
        (some outputTokens) idemTtl) s).2 =
      (commitScript clock (commitArgs p now rid (some actual) (some serviceMs)
        (some outputTokens) idemTtl) u).2 ∧
      Alike p now (commitScript clock (commitArgs p now rid (some actual) (some serviceMs)
          (some outputTokens) idemTtl) s).1
        (commitScript clock (commitArgs p now rid (some actual) (some serviceMs)
          (some outputTokens) idemTtl) u).1 := by
  set a := commitArgs p now rid (some actual) (some serviceMs) (some outputTokens) idemTtl with ha
  have hbalance : currentBalance a s = currentBalance a u := h.tokens now hle
  have hheld := get_of_members h.reservations a.rid
  obtain ⟨hleases, hreservations⟩ := h.takeHold a.rid
  have hsettles : settledBalance a s actual = settledBalance a u actual := by
    unfold settledBalance
    rw [hbalance, hheld]
  have hrequests : ∀ v, now ≤ v →
      refill v (Admission.takeHold a.rid s).rpm.get (Admission.takeHold a.rid s).rpmTs.get
          p.requestsPerMinute ((p.requestsPerMinute : Rat) / 60) =
        refill v (Admission.takeHold a.rid u).rpm.get (Admission.takeHold a.rid u).rpmTs.get
          p.requestsPerMinute ((p.requestsPerMinute : Rat) / 60) := by
    intro v hv
    rw [requestsAt_takeHold, requestsAt_takeHold]
    exact h.requests v (hle.trans hv)
  cases hmarker : u.settled a.rid with
  | some marker =>
      have hmarker' : s.settled a.rid = some marker := by rw [h.settled, hmarker]
      rw [commitScript_duplicate clock a s hmarker', commitScript_duplicate clock a u hmarker,
        hbalance, card_of_members h.leases]
      exact ⟨rfl, h.mono hle⟩
  | none =>
      have hmarker' : s.settled a.rid = none := by rw [h.settled, hmarker]
      cases hidem : acceptedTtl clock a.idemTtl with
      | none =>
          rw [commitScript_refused clock a s hmarker' rfl hidem,
            commitScript_refused clock a u hmarker rfl hidem]
          refine ⟨rfl, fun v _ => ?_, hrequests, hleases, hreservations, ?_, ?_⟩
          · rw [hsettles]
            rfl
          · rw [takeHold_frame a.rid s, takeHold_frame a.rid u]
            exact h.stats
          · rw [takeHold_frame a.rid s, takeHold_frame a.rid u]
            exact h.settled
      | some idem =>
          rw [commitScript_settles clock a s hmarker' rfl hidem rfl rfl,
            commitScript_settles clock a u hmarker rfl hidem rfl rfl, hsettles, hheld, h.stats,
            h.settled, card_of_members hleases]
          exact ⟨rfl, fun v _ => rfl, hrequests, hleases, hreservations, rfl, rfl⟩

/-- No call tells them apart, and every call leaves them alike. -/
theorem Alike.step (h : Alike p t s u) (hle : t ≤ r.now) (hp : r.policy = p) :
    (handle s r).2 = (handle u r).2 ∧ Alike p r.now (step s r) (step u r) := by
  unfold Admission.step handle
  rw [hp]
  cases r.op with
  | reserve rid tokens slo =>
      obtain ⟨hreply, hnext⟩ := h.admission hle r.clock rid tokens slo
      exact ⟨congrArg Reply.reserve hreply, hnext⟩
  | commit rid actual serviceMs outputTokens =>
      obtain ⟨hreply, hnext⟩ :=
        h.commit hle r.clock rid actual serviceMs outputTokens r.idempotencyTtl
      exact ⟨congrArg Reply.commit hreply, hnext⟩
  | release rid =>
      obtain ⟨hreply, hnext⟩ := h.commit hle r.clock rid 0 0 0 r.idempotencyTtl
      exact ⟨congrArg Reply.commit hreply, hnext⟩
  | snapshot =>
      refine ⟨congrArg Reply.snapshot ?_, h.mono hle⟩
      have htokens := h.tokens r.now hle
      have hrequests := h.requests r.now hle
      unfold balanceAt at htokens
      unfold requestsAt at hrequests
      unfold snapshotScript snapshotArgs SortedSet.countByScore
      dsimp only
      rw [htokens, hrequests, card_of_members h.leases, h.leases, h.stats]

end Step

/-! ## Splitting an interval of accrual -/

/-- A balance that was refilled and stored on the way is the same at the end. -/
theorem refill_refill {bal : Option Rat} {ts : Option Int} {capacity rate : Rat} {t v : Int}
    (hrate : 0 ≤ rate) (hts : ∀ ts', ts = some ts' → ts' ≤ t) (hle : t ≤ v) :
    refill v (some (refill t bal ts capacity rate)) (some t) capacity rate =
      refill v bal ts capacity rate := by
  have hspan : (0 : Rat) ≤ (v - t : Int) / 1000 := by
    have hcast : (0 : Rat) ≤ (v - t : Int) := by exact_mod_cast Int.sub_nonneg.mpr hle
    positivity
  have hfull : accrue capacity rate ((v - t : Int) / 1000) capacity = capacity := by
    apply accrue_of_full
    have hearned := mul_nonneg hspan hrate
    linarith
  -- a key that is missing reads as a full bucket, which stays full
  rw [refill_some, max_eq_right (by omega)]
  cases bal with
  | none => exact hfull
  | some bal =>
      cases ts with
      | none => exact hfull
      | some ts =>
          have hwritten := hts ts rfl
          rw [refill_some, refill_some, max_eq_right (by omega), max_eq_right (by omega),
            accrue_accrue hrate hspan]
          congr 1
          push_cast
          ring

/-- Neither balance was written after `t`. -/
structure WrittenBy (t : Int) (s : PairState Rid) : Prop where
  tokens : ∀ ts, s.tpmTs.get = some ts → ts ≤ t
  requests : ∀ ts, s.rpmTs.get = some ts → ts ≤ t

section Trace

variable {p : Limits} {t : Int} {s : PairState Rid} {r : Request Rid}

omit [LinearOrder Rid] in
theorem writtenBy_empty (t : Int) : WrittenBy t (.empty : PairState Rid) := by
  refine ⟨?_, ?_⟩
  · intro ts hts
    cases hts
  · intro ts hts
    cases hts

omit [LinearOrder Rid] in
theorem WrittenBy.mono (h : WrittenBy t s) {t' : Int} (hle : t ≤ t') : WrittenBy t' s :=
  ⟨fun ts hts => (h.tokens ts hts).trans hle, fun ts hts => (h.requests ts hts).trans hle⟩

theorem WrittenBy.step (h : WrittenBy t s) (hle : t ≤ r.now) :
    WrittenBy r.now (step s r) := by
  have hstored : ∀ {clock ttl ts}, (StringKey.setEx clock r.now ttl).get = some ts →
      ts ≤ r.now := by
    intro clock ttl ts hts
    rw [StringKey.get_setEx] at hts
    cases hts
    exact le_rfl
  rcases op_cases r.op with ⟨rid, tokens, slo, hop⟩ | ⟨rid, actual, hop⟩ | hop
  · obtain ⟨-, hrpmTs⟩ := reserve_rpm (s := s) hop
    have htpmTs : (Admission.step s r).tpmTs = .setEx r.clock r.now r.policy.ttlSeconds := by
      rcases reserve_cases (s := s) hop with ⟨-, -, -, hreserved, -⟩ | ⟨-, hreserved, -⟩
      · exact hreserved.tpmTs
      · exact hreserved.tpmTs
    refine ⟨?_, ?_⟩
    · rw [htpmTs]
      exact fun ts hts => hstored hts
    · rw [hrpmTs]
      exact fun ts hts => hstored hts
  · cases hmarker : s.settled rid with
    | some marker =>
        rw [(settle_duplicate hop hmarker).2]
        exact h.mono hle
    | none =>
        obtain ⟨-, settled, stats, hstep⟩ := settle_cases hop hmarker
        rw [hstep, takeHold_frame]
        -- a commit writes the token balance only
        exact ⟨fun ts hts => hstored hts, (h.mono hle).requests⟩
  · rw [step_snapshot hop]
    exact h.mono hle

/-- A whole run leaves both balances written by its last call. -/
theorem writtenBy_run {calls : List (Request Rid)} (h : WrittenBy t s)
    (htime : Chronological Request.now t calls) :
    WrittenBy (lastTime Request.now t calls) (run step s calls) :=
  timed_run Request.now Admission.step (fun _ _ => (0 : Nat)) (I := fun t _ s => WrittenBy t s)
    (P := fun _ _ => True) (fun _ _ _ _ h hle _ => h.step hle) (m := 0) h htime
    (along_of_forall _ (fun _ _ => trivial) _)

/-- A reserve that is shed where no lease was due leaves what cannot be told apart from what
it found. -/
theorem alike_of_shed (h : WrittenBy r.now s) (hlive : NoneExpired r.now s)
    {reason : ShedReason} {w : Int}
    (hshed : verdictOf (handle s r).2 = some (.shed reason w)) :
    Alike r.policy r.now (step s r) s := by
  obtain ⟨rid, tokens, slo, hop⟩ : ∃ rid tokens slo, r.op = .reserve rid tokens slo := by
    unfold handle at hshed
    cases hop : r.op with
    | reserve rid tokens slo => exact ⟨rid, tokens, slo, rfl⟩
    | _ => rw [hop] at hshed; cases hshed
  have hnone := admitted_eq_false_of_shed hshed
  obtain ⟨hrpm, hrpmTs⟩ := reserve_rpm (s := s) hop
  rw [hnone] at hrpm
  simp only [Bool.false_eq_true, if_false, sub_zero] at hrpm
  have hsweep := reclaim_of_live hlive reclaimBatch
  rcases reserve_cases (s := s) hop with ⟨hadmitted, -⟩ | ⟨-, hreserved, hleases, hholds⟩
  · rw [hnone] at hadmitted
    cases hadmitted
  · -- with nothing to sweep the balance decided on is the one found
    have hbalance := decisionBalance_of_noneExpired (r := r) hlive
    refine ⟨?_, ?_, ?_, ?_, hreserved.stats, hreserved.settled⟩
    · intro v hv
      unfold balanceAt
      rw [hreserved.tpm, hreserved.tpmTs, hbalance, sub_zero]
      exact refill_refill (Limits.rate_pos _ r.policy.tokensPerMinute_pos).le h.tokens hv
    · intro v hv
      unfold requestsAt
      rw [hrpm, hrpmTs]
      exact refill_refill (Limits.rate_pos _ r.policy.requestsPerMinute_pos).le h.requests hv
    · rw [hleases, members_expire]
      unfold sweepOf
      rw [hsweep]
    · rw [hholds, members_expire]
      unfold sweepOf
      rw [hsweep]

/-- Runs from states that cannot be told apart answer alike. -/
theorem Alike.run {u : PairState Rid} {calls : List (Request Rid)} (h : Alike p t s u)
    (htime : Chronological Request.now t calls) (hpolicy : ∀ r ∈ calls, r.policy = p) :
    outputs Admission.step (fun s r => (handle s r).2) s calls =
      outputs Admission.step (fun s r => (handle s r).2) u calls := by
  have hsimulated := simulated_run Request.now (f := fun r => r) (R := Alike p)
    (P := fun r => r.policy = p)
    (fun t s u r h hle hp => h.step hle hp) h htime hpolicy
  rw [List.map_id'] at hsimulated
  exact hsimulated.1

end Trace

/-- **Shed requests.**  A reserve that is shed at an instant at which no lease is expired may
be left out of a run: on a server that loses no key all later calls get the answers they
would have got without it. -/
theorem shed_leaves_no_trace (p : Limits) (t0 : Int) (before : List (Request Rid))
    (r : Request Rid) (after : List (Request Rid))
    (hpolicy : ∀ i ∈ before ++ r :: after, i.policy = p)
    (htime : Chronological Request.now t0 (before ++ r :: after))
    (hlive : NoneExpired r.now (run step .empty before)) (reason : ShedReason) (w : Int)
    (hshed : verdictOf (handle (run step .empty before) r).2 = some (.shed reason w)) :
    outputs step (fun s i => (handle s i).2) (run step .empty (before ++ [r])) after =
      outputs step (fun s i => (handle s i).2) (run step .empty before) after := by
  obtain ⟨hbefore, hle, hafter⟩ := (chronological_append _ _ _ _).mp htime
  have hwritten := (writtenBy_run (writtenBy_empty t0) hbefore).mono hle
  have halike := alike_of_shed hwritten hlive hshed
  rw [hpolicy r (by simp)] at halike
  rw [run_append, run_cons, run_nil]
  exact halike.run hafter fun i hi => hpolicy i (by simp [hi])

/-- A reserve that finds the whole budget taken, before the commit that pays most of it back. -/
theorem shed_leaves_no_trace_before_commit :
    outputs step (fun s i => (handle s i).2)
        (run step .empty [callAt defaultLimits 0 (.reserve (1 : Nat) 100000 0),
          callAt defaultLimits 0 (.reserve 2 500 0)])
        [callAt defaultLimits 40 (.commit 1 900 35 400), callAt defaultLimits 50 .snapshot] =
      outputs step (fun s i => (handle s i).2)
        (run step .empty [callAt defaultLimits 0 (.reserve (1 : Nat) 100000 0)])
        [callAt defaultLimits 40 (.commit 1 900 35 400), callAt defaultLimits 50 .snapshot] :=
  shed_leaves_no_trace defaultLimits 0 [callAt defaultLimits 0 (.reserve (1 : Nat) 100000 0)]
    (callAt defaultLimits 0 (.reserve 2 500 0)) _ (by simp [callAt]) (by simp [callAt])
    (noneExpired_of_entries (by decide +kernel)) .tpmExhausted 300 (by decide +kernel)

end RateLimiter.Admission
