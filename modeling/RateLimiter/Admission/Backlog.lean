import RateLimiter.Admission.Agreement
import RateLimiter.Admission.Metrics
import RateLimiter.Redis.Ranges
import RateLimiter.Redis.StoredBalance

/-!
# The backlog of expired leases

Every reserve sweeps a batch of the leases that have expired, whatever its own verdict.
Reserves at one instant take the backlog batch by batch, in the order of the deadlines:
what they have taken together is what a single sweep of that size would have taken.
-/

namespace RateLimiter.Admission

open RateLimiter.Redis RateLimiter.Javascript RateLimiter.Foundations

/-- The leases a reserve reports to have reclaimed. -/
def reclaimedBy : Reply → Nat
  | .reserve (.ok reply) => reply.reclaimed
  | _ => 0

section Step

variable {Rid : Type} [LinearOrder Rid] {s : PairState Rid} {r : Request Rid} {rid k : Rid}
  {tokens slo : NNRat}

/-- The reservations a call is to reclaim. -/
def listedBy (s : PairState Rid) (r : Request Rid) : List Rid :=
  (s.purge r.clock).leases.rangeByScore r.now reclaimBatch

theorem reclaimedBy_reserve (hop : r.op = .reserve rid tokens slo) :
    reclaimedBy (handle s r).2 = (s.leases.rangeByScore r.now reclaimBatch).length := by
  obtain ⟨reply, hreply, hreport⟩ := admitScript_reply r.clock
    (admitArgs r.policy r.now rid (some (tokens : Rat)) (slo : Rat)) s rfl
  unfold handle
  rw [hop]
  dsimp only
  rw [hreply]
  exact hreport.reclaimed.trans (reclaim_count_eq_length _ _ _)

/-- A reserve leaves of every other reservation what its sweep has left. -/
theorem reserve_keeps (hop : r.op = .reserve rid tokens slo) (hne : k ≠ rid) :
    (step s r).leases.get k =
        (if k ∈ s.leases.rangeByScore r.now reclaimBatch then none else s.leases.get k) ∧
      (step s r).reservations.get k =
        if k ∈ s.leases.rangeByScore r.now reclaimBatch then none else s.reservations.get k := by
  rcases reserve_cases (s := s) hop with
    ⟨-, -, -, -, hleases, hholds⟩ | ⟨-, -, hleases, hholds⟩
  · rw [hleases, hholds, Collection.get_expire, Collection.get_expire,
      Collection.get_put_of_ne hne, Collection.get_put_of_ne hne]
    exact ⟨reclaim_lease _ _ _ _, reclaim_hold _ _ _ _⟩
  · rw [hleases, hholds, Collection.get_expire, Collection.get_expire]
    exact ⟨reclaim_lease _ _ _ _, reclaim_hold _ _ _ _⟩

theorem Limits.leaseMs_pos (p : Limits) : 0 < p.leaseMs := by
  have hpos := p.leaseSeconds_pos
  unfold leaseMs
  omega

/-- The lease it takes itself is not due yet. -/
theorem reserve_lease_later (hop : r.op = .reserve rid tokens slo)
    (hfree : s.leases.get rid = none) {deadline : Int}
    (hlease : (step s r).leases.get rid = some deadline) : r.now < deadline := by
  rcases reserve_cases (s := s) hop with ⟨-, -, -, -, hleases, -⟩ | ⟨-, -, hleases, -⟩
  · rw [hleases, Collection.get_expire, Collection.get_put] at hlease
    have hpos := r.policy.leaseMs_pos
    cases hlease
    omega
  · rw [hleases, Collection.get_expire] at hlease
    unfold sweepOf at hlease
    rw [reclaim_lease, hfree, ite_self] at hlease
    cases hlease

/-- What is due after a reserve is what it has not reclaimed. -/
theorem reserve_due (hop : r.op = .reserve rid tokens slo) (hfree : s.leases.get rid = none) :
    (step s r).leases.due r.now = (s.leases.due r.now).drop reclaimBatch := by
  apply SortedSet.due_eq_drop
  intro k score hdue
  by_cases hk : k = rid
  · subst hk
    rw [hfree]
    refine ⟨fun hlease => ?_, fun h => by cases h.1⟩
    have hlater := reserve_lease_later hop hfree hlease
    omega
  · rw [(reserve_keeps hop hk).1]
    split
    next hlisted => simp [hlisted]
    next hlisted => simp [hlisted]

/-! ### Keys that live on -/

theorem expire_alive (clock : Int) (ttl : Nat) {κ ν : Type} (c : Collection κ ν) :
    (c.expire clock ttl).purge clock = c.expire clock ttl := by
  apply Collection.purge_eq_self
  intro d hd
  unfold Collection.expire at hd
  split at hd
  next hempty =>
    rw [c.expireAt_of_empty hempty] at hd
    cases hd
  next =>
    cases hd
    omega

theorem setEx_alive {α : Type} (clock : Int) (value : α) (ttl : Nat) :
    (StringKey.setEx clock value ttl).purge clock = StringKey.setEx clock value ttl :=
  StringKey.purge_some_of_le (by show clock ≤ clock + 1000 * ttl; omega)

omit [LinearOrder Rid] in
/-- What is left at an instant is there at that instant. -/
theorem purged_alive (clock : Int) (s : PairState Rid) :
    (s.purge clock).purge clock = s.purge clock := by
  have hcollection : ∀ {κ ν : Type} (c : Collection κ ν),
      (c.purge clock).purge clock = c.purge clock := by
    intro κ ν c
    by_cases hgone : c.expireAt.any (· < clock)
    · have habsent : c.purge clock = .absent := if_pos hgone
      rw [habsent]
      rfl
    · have hkept : c.purge clock = c := if_neg hgone
      rw [hkept, hkept]
  unfold PairState.purge
  simp only [StringKey.purge_purge le_rfl, hcollection]

/-- Keys that are there at an instant are there after a reserve at that instant. -/
theorem reserve_alive (hop : r.op = .reserve rid tokens slo) (halive : s.purge r.clock = s) :
    (step s r).purge r.clock = step s r := by
  obtain ⟨hrpm, hrpmTs⟩ := reserve_rpm (s := s) hop
  have hstats : s.stats.purge r.clock = s.stats := congrArg PairState.stats halive
  have hsettled : (fun rid => (s.settled rid).purge r.clock) = s.settled :=
    congrArg PairState.settled halive
  obtain ⟨taken, hreserved, hleases, hholds⟩ : ∃ taken, Reserved s r taken (step s r) ∧
      (step s r).leases.purge r.clock = (step s r).leases ∧
      (step s r).reservations.purge r.clock = (step s r).reservations := by
    rcases reserve_cases (s := s) hop with
      ⟨-, -, -, hreserved, hleases, hholds⟩ | ⟨-, hreserved, hleases, hholds⟩
    · refine ⟨_, hreserved, ?_, ?_⟩
      · rw [hleases, expire_alive]
      · rw [hholds, expire_alive]
    · refine ⟨_, hreserved, ?_, ?_⟩
      · rw [hleases, expire_alive]
      · rw [hholds, expire_alive]
  have htpm : (step s r).tpm.purge r.clock = (step s r).tpm := by
    rw [hreserved.tpm, setEx_alive]
  have htpmTs : (step s r).tpmTs.purge r.clock = (step s r).tpmTs := by
    rw [hreserved.tpmTs, setEx_alive]
  have hrpm' : (step s r).rpm.purge r.clock = (step s r).rpm := by rw [hrpm, setEx_alive]
  have hrpmTs' : (step s r).rpmTs.purge r.clock = (step s r).rpmTs := by
    rw [hrpmTs, setEx_alive]
  rw [← hreserved.stats] at hstats
  rw [← hreserved.settled] at hsettled
  unfold PairState.purge
  rw [hleases, hholds, htpm, htpmTs, hrpm', hrpmTs', hstats, hsettled]

end Step

/-! ## Reserves at one instant -/

section Run

variable {Rid : Type} [LinearOrder Rid] {now clock : Int} {s : PairState Rid} {r : Request Rid}
  {calls : List (Request Rid)}

/-- A reserve at the instant that both clocks show. -/
def ReserveAt (now clock : Int) (r : Request Rid) : Prop :=
  r.now = now ∧ r.clock = clock ∧ ∃ rid tokens slo, r.op = .reserve rid tokens slo

/-- What a run of reserves does to the backlog at `now`: it reclaims what one sweep of as
many batches would, and nothing else of what it finds. -/
structure Drains (now : Int) (s : PairState Rid) (calls : List (Request Rid)) : Prop where
  due : (run stepAlive s calls).leases.due now =
    (s.leases.due now).drop (32 * calls.length)
  listed : (outputs stepAlive listedBy s calls).flatten =
    s.leases.rangeByScore now (32 * calls.length)
  reported : tally stepAlive (fun s r => reclaimedBy (handle (s.purge r.clock) r).2) s calls =
    (s.leases.rangeByScore now (32 * calls.length)).length
  tokens : tally stepAlive (fun s r => (sweepOf (s.purge r.clock) r).tokens) s calls =
    ((s.leases.rangeByScore now (32 * calls.length)).map fun k => heldFor k s).sum
  kept : ∀ k, (∀ r ∈ calls, r.op.rid? ≠ some k) →
    (run stepAlive s calls).leases.get k =
        (if k ∈ s.leases.rangeByScore now (32 * calls.length) then none else s.leases.get k) ∧
      (run stepAlive s calls).reservations.get k =
        if k ∈ s.leases.rangeByScore now (32 * calls.length) then none
        else s.reservations.get k

theorem drains_nil (now : Int) (s : PairState Rid) : Drains now s [] := by
  have hnone : s.leases.rangeByScore now (32 * ([] : List (Request Rid)).length) = [] := by
    rw [SortedSet.rangeByScore_eq]
    rfl
  refine ⟨rfl, ?_, ?_, ?_, ?_⟩
  · rw [hnone]
    rfl
  · rw [hnone]
    rfl
  · rw [hnone]
    rfl
  · intro k _
    rw [hnone]
    simp

/-- A reserve takes the first batch and leaves the rest to those after it. -/
theorem Drains.cons (h : Drains now (step s r) calls) (hat : ReserveAt now clock r)
    (halive : s.purge clock = s) (hfree : DrawsFree s r) : Drains now s (r :: calls) := by
  obtain ⟨rfl, rfl, rid, tokens, slo, hop⟩ := hat
  have hstep : stepAlive s r = step s r := by
    unfold stepAlive
    rw [halive]
  have hdue := reserve_due hop (hfree rid tokens slo hop)
  have hlength : 32 * (r :: calls).length = reclaimBatch + 32 * calls.length := by
    rw [List.length_cons]
    unfold reclaimBatch
    omega
  have hrange := SortedSet.rangeByScore_add hdue (32 * calls.length)
  rw [← hlength] at hrange
  refine ⟨?_, ?_, ?_, ?_, ?_⟩
  · rw [run_cons, hstep, h.due, hdue, List.drop_drop, hlength]
  · rw [outputs_cons, List.flatten_cons, hstep, h.listed, hrange]
    unfold listedBy
    rw [halive]
  · rw [tally_cons, hstep, h.reported, hrange, halive, List.length_append,
      reclaimedBy_reserve hop]
  · -- the holds of the later batches are still there when their turn comes
    have hheld : ∀ k ∈ (step s r).leases.rangeByScore r.now (32 * calls.length),
        heldFor k (step s r) = heldFor k s := by
      intro k hk
      obtain ⟨score, hlease, hscore⟩ := SortedSet.score_of_mem_rangeByScore hk
      have hne : k ≠ rid := by
        rintro rfl
        have hlate := reserve_lease_later hop (hfree k tokens slo hop) hlease
        omega
      obtain ⟨hkeptLease, hkeptHold⟩ := reserve_keeps (s := s) hop hne
      have hunlisted : k ∉ s.leases.rangeByScore r.now reclaimBatch := by
        intro hlisted
        rw [hkeptLease, if_pos hlisted] at hlease
        cases hlease
      unfold heldFor
      rw [hkeptHold, if_neg hunlisted]
    rw [tally_cons, hstep, h.tokens, halive, hrange, List.map_append, List.sum_append,
      List.map_congr_left hheld]
    congr 1
    exact reclaim_tokens _ _ _
  · intro k hquiet
    obtain ⟨hhead, hrest⟩ := List.forall_mem_cons.mp hquiet
    have hne : k ≠ rid := by
      rintro rfl
      exact hhead (by rw [hop]; rfl)
    obtain ⟨hlease, hhold⟩ := reserve_keeps (s := s) hop hne
    obtain ⟨hlease', hhold'⟩ := h.kept k hrest
    rw [run_cons, hstep, hlease', hhold', hlease, hhold, hrange]
    by_cases hlisted : k ∈ s.leases.rangeByScore r.now reclaimBatch
    · simp [hlisted]
    · simp [hlisted]

theorem drains_run (hcalls : ∀ r ∈ calls, ReserveAt now clock r) (hfresh : FreshIds calls)
    (halive : s.purge clock = s) (hfree : ∀ r ∈ calls, DrawsFree s r) : Drains now s calls := by
  induction calls generalizing s with
  | nil => exact drains_nil now s
  | cons r calls ih =>
      obtain ⟨hat, hcalls⟩ := List.forall_mem_cons.mp hcalls
      obtain ⟨hlater, hfresh⟩ := List.pairwise_cons.mp hfresh
      obtain ⟨hhead, hrest⟩ := List.forall_mem_cons.mp hfree
      obtain ⟨hnow, hclock, rid, tokens, slo, hop⟩ := hat
      have halive' : (step s r).purge clock = step s r := by
        subst hclock
        exact reserve_alive hop halive
      have hnext := ih hcalls hfresh halive' fun i hi => (hrest i hi).step (hlater i hi)
      exact hnext.cons ⟨hnow, hclock, rid, tokens, slo, hop⟩ halive hhead

/-- What any calls leave on a server where keys expire is reachable. -/
theorem Reachable.run (h : Reachable s) (calls : List (Request Rid)) :
    Reachable (run stepAlive s calls) :=
  run_invariant stepAlive (fun _ r hs => (hs.expire r.clock).step r) h calls

end Run

/-- **Backlog.**  On keys the server still has at `clock`, `k` reserves at one `now` report
to reclaim all that are due or `32 k` of them.  What they reclaim are those of the earliest
deadlines, each once, and the sweeps pay their holds back; leases that are not due stay with
their holds, and once `32 k` covers the backlog no lease that is left is due and every hold
left has one. -/
theorem backlog_drained {Rid : Type} [LinearOrder Rid] {s : PairState Rid} (hs : Reachable s)
    (now clock : Int) (halive : s.purge clock = s) (calls : List (Request Rid))
    (hcalls : ∀ r ∈ calls, ReserveAt now clock r) (hfresh : FreshIds calls)
    (hfree : ∀ r ∈ calls, DrawsFree s r) :
    tally stepAlive (fun s r => reclaimedBy (handle (s.purge r.clock) r).2) s calls =
        min (s.leases.countByScore now) (32 * calls.length) ∧
      (∃ taken, (outputs stepAlive listedBy s calls).flatten = taken ∧ taken.Nodup ∧
        (∀ k ∈ taken, ∀ k' ∉ taken, ∀ deadline deadline', s.leases.get k = some deadline →
          s.leases.get k' = some deadline' → deadline ≤ deadline') ∧
        (∀ k ∈ taken, (∃ deadline, s.leases.get k = some deadline ∧ deadline ≤ now) ∧
          (run stepAlive s calls).leases.get k = none ∧
          (run stepAlive s calls).reservations.get k = none) ∧
        tally stepAlive (fun s r => (sweepOf (s.purge r.clock) r).tokens) s calls =
          (taken.map fun k => heldFor k s).sum) ∧
      (∀ k deadline, s.leases.get k = some deadline → now < deadline →
        (run stepAlive s calls).leases.get k = some deadline ∧
          (run stepAlive s calls).reservations.get k = s.reservations.get k) ∧
      (s.leases.countByScore now ≤ 32 * calls.length →
        NoneExpired now (run stepAlive s calls) ∧
          ∀ k held, (run stepAlive s calls).reservations.get k = some held →
            ∃ deadline, (run stepAlive s calls).leases.get k = some deadline ∧
              now < deadline) := by
  have hdrains := drains_run hcalls hfresh halive hfree
  have hkept : ∀ k deadline, s.leases.get k = some deadline →
      ∀ r ∈ calls, r.op.rid? ≠ some k := by
    intro k deadline hlease r hr hrid
    obtain ⟨-, -, rid, tokens, slo, hop⟩ := hcalls r hr
    rw [hop] at hrid
    obtain rfl : rid = k := Option.some.inj hrid
    rw [hfree r hr rid tokens slo hop] at hlease
    cases hlease
  refine ⟨?_, ⟨_, hdrains.listed, SortedSet.nodup_rangeByScore _ _ _, ?_, ?_, hdrains.tokens⟩,
    ?_, ?_⟩
  · rw [hdrains.reported, SortedSet.length_rangeByScore, Nat.min_comm]
  · intro k hk k' hk' deadline deadline' hlease hlease'
    exact SortedSet.score_le_of_rangeByScore hk hlease hk' hlease'
  · intro k hk
    obtain ⟨deadline, hlease, hdue⟩ := SortedSet.score_of_mem_rangeByScore hk
    obtain ⟨hleft, hheld⟩ := hdrains.kept k (hkept k deadline hlease)
    rw [if_pos hk] at hleft hheld
    exact ⟨⟨deadline, hlease, hdue⟩, hleft, hheld⟩
  · intro k deadline hlease hlater
    obtain ⟨hleft, hheld⟩ := hdrains.kept k (hkept k deadline hlease)
    have hunlisted := not_mem_rangeByScore_of_lt now (32 * calls.length) s hlease hlater
    rw [if_neg hunlisted] at hleft hheld
    exact ⟨hleft.trans hlease, hheld⟩
  · intro hcovers
    -- the batches cover the backlog, so dropping them leaves nothing due
    have hnone : (run stepAlive s calls).leases.due now = [] := by
      rw [hdrains.due]
      exact List.drop_of_length_le (by rw [SortedSet.length_due]; exact hcovers)
    have hlive : NoneExpired now (run stepAlive s calls) :=
      fun k deadline hlease => SortedSet.lt_score_of_due_eq_nil hnone hlease
    refine ⟨hlive, ?_⟩
    intro k held hheld
    -- a hold without a lease would be an orphan, and there is none
    have hmatched := (hs.run calls).matched
    obtain ⟨deadline, hlease⟩ : ∃ deadline, (run stepAlive s calls).leases.get k =
        some deadline := by
      rw [← Option.ne_none_iff_exists']
      intro hgone
      rw [(hmatched.members k).mp hgone] at hheld
      cases hheld
    exact ⟨deadline, hlease, hlive k deadline hlease⟩

/-- Forty reserves of seventy tokens, at 0. -/
def fortyHeld : PairState Nat :=
  run stepAlive .empty ((List.range 40).map fun rid => callAt defaultLimits 0 (.reserve rid 70 0))

/-- Two reserves when the forty leases have run out: the second takes those that the first has
left. -/
theorem backlog_drained_forty_leases :
    tally stepAlive (fun s r => reclaimedBy (handle (s.purge r.clock) r).2)
        (fortyHeld.purge 120000)
        [callAt defaultLimits 120000 (.reserve 40 500 0),
          callAt defaultLimits 120000 (.reserve 41 500 0)] = 40 ∧
      NoneExpired 120000 (run stepAlive (fortyHeld.purge 120000)
        [callAt defaultLimits 120000 (.reserve 40 500 0),
          callAt defaultLimits 120000 (.reserve 41 500 0)]) := by
  have hreachable : Reachable (fortyHeld.purge 120000) :=
    (Reachable.run .empty _).expire 120000
  have hcount : (fortyHeld.purge 120000).leases.countByScore 120000 = 40 := by decide +kernel
  have hfree40 : (fortyHeld.purge 120000).leases.get 40 = none := by decide +kernel
  have hfree41 : (fortyHeld.purge 120000).leases.get 41 = none := by decide +kernel
  have hdrained := backlog_drained hreachable 120000 120000 (purged_alive _ _)
    [callAt defaultLimits 120000 (.reserve 40 500 0),
      callAt defaultLimits 120000 (.reserve 41 500 0)]
    (by simp [ReserveAt, callAt]) (by simp [FreshIds, callAt, Op.rid?]) (by
      intro r hr rid tokens slo hop
      rcases List.mem_pair.mp hr with rfl | rfl
      · cases hop
        exact hfree40
      · cases hop
        exact hfree41)
  refine ⟨hdrained.1.trans ?_, (hdrained.2.2.2 ?_).1⟩
  · rw [hcount]
    rfl
  · rw [hcount]
    decide

end RateLimiter.Admission
