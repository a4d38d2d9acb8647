import RateLimiter.Admission.Scripts
import RateLimiter.Foundations.Accrual
import RateLimiter.Foundations.Sweeping
import Mathlib.Tactic.Positivity
import Mathlib.Tactic.Linarith

/-!
# What the scripts do

One specification for each function of the scripts, so that no later proof has
to unfold one: what a sweep leaves under each reservation id and what it pays
back, the two ways an admission ends, and the ways a commit ends.
-/

namespace RateLimiter.Admission

open RateLimiter.Foundations RateLimiter.Redis

/-! ## Accrual -/

/-- With both of its keys present a balance accrues over the time since it was
written; a clock that went back accrues nothing. -/
theorem refill_some (now : Int) (bal : Rat) (ts : Int) (capacity rate : Rat) :
    refill now (some bal) (some ts) capacity rate =
      accrue capacity rate ((max 0 (now - ts) : Int) / 1000) bal := rfl

theorem refill_none_left (now : Int) (ts : Option Int) (capacity rate : Rat) :
    refill now none ts capacity rate = capacity := rfl

theorem refill_le_capacity (now : Int) (bal : Option Rat) (ts : Option Int)
    (capacity rate : Rat) : refill now bal ts capacity rate ≤ capacity := by
  cases bal with
  | none => exact le_rfl
  | some bal =>
      cases ts with
      | none => exact le_rfl
      | some ts => exact accrue_le_capacity _ _ _ _

/-- Over a clock that did not go back, at most the rate is earned. -/
theorem refill_le_of_le {now ts : Int} (h : ts ≤ now) (bal capacity rate : Rat) :
    refill now (some bal) (some ts) capacity rate ≤ bal + rate * (now - ts) / 1000 := by
  rw [refill_some, max_eq_right (by omega : 0 ≤ now - ts)]
  refine (accrue_le_add _ _ _ _).trans_eq ?_
  push_cast
  ring

/-- Refilling takes nothing away from a balance within the capacity. -/
theorem le_refill {now ts : Int} {bal capacity rate : Rat} (hrate : 0 ≤ rate)
    (hbal : bal ≤ capacity) : bal ≤ refill now (some bal) (some ts) capacity rate := by
  rw [refill_some]
  refine le_accrue hrate ?_ hbal
  have h : (0 : Rat) ≤ (max 0 (now - ts) : Int) := by exact_mod_cast le_max_left 0 (now - ts)
  positivity

/-! ## The sweep -/

/-- No hold is negative. -/
def HoldsNonneg {Rid : Type} [DecidableEq Rid] (s : PairState Rid) : Prop :=
  ∀ k held, s.reservations.get k = some held → 0 ≤ held

section Sweep

variable {Rid : Type} [LinearOrder Rid]

/-- Only the holds and the leases change. -/
theorem reclaimOne_frame (sweep : Sweep Rid) (rid : Rid) :
    (reclaimOne sweep rid).state =
      { sweep.state with
        reservations := (reclaimOne sweep rid).state.reservations
        leases := (reclaimOne sweep rid).state.leases } := by
  unfold reclaimOne
  dsimp only
  split <;> rfl

theorem reclaimOne_leases (sweep : Sweep Rid) (rid : Rid) :
    (reclaimOne sweep rid).state.leases = sweep.state.leases.del rid := by
  unfold reclaimOne
  dsimp only
  split <;> rfl

theorem reclaimOne_lease (sweep : Sweep Rid) (rid k : Rid) :
    (reclaimOne sweep rid).state.leases.get k =
      if k = rid then none else sweep.state.leases.get k := by
  rw [reclaimOne_leases]
  by_cases hk : k = rid
  · simp [hk]
  · simp [hk, Collection.get_del_of_ne hk]

theorem reclaimOne_hold (sweep : Sweep Rid) (rid k : Rid) :
    (reclaimOne sweep rid).state.reservations.get k =
      if k = rid then none else sweep.state.reservations.get k := by
  unfold reclaimOne
  dsimp only
  split
  next held hheld =>
    by_cases hk : k = rid
    · simp [hk]
    · simp [hk, Collection.get_del_of_ne hk]
  next hnone =>
    by_cases hk : k = rid
    · simp [hk, hnone]
    · simp [hk]

/-- What a sweep pays back is what it takes off the holds. -/
theorem reclaimOne_total (sweep : Sweep Rid) (rid : Rid) :
    (reclaimOne sweep rid).tokens + (reclaimOne sweep rid).state.reservations.total =
      sweep.tokens + sweep.state.reservations.total := by
  unfold reclaimOne
  dsimp only
  split
  next held hheld =>
    have htotal := Collection.total_del_of_get hheld
    dsimp only
    linarith
  next => rfl

theorem reclaimOne_tokens (sweep : Sweep Rid) (rid : Rid) :
    (reclaimOne sweep rid).tokens =
      sweep.tokens + (sweep.state.reservations.get rid).getD 0 := by
  unfold reclaimOne
  dsimp only
  split
  next held hheld => simp [hheld]
  next hnone => simp [hnone]

theorem reclaimOne_count (sweep : Sweep Rid) (rid : Rid) :
    (reclaimOne sweep rid).count = sweep.count + 1 := by
  unfold reclaimOne
  dsimp only
  split <;> rfl

variable (now : Int) (batch : Nat) (s : PairState Rid)

theorem reclaim_frame :
    (reclaim now batch s).state =
      { s with
        reservations := (reclaim now batch s).state.reservations
        leases := (reclaim now batch s).state.leases } := by
  have hkeep : ∀ (sweep : Sweep Rid) (rid : Rid),
      { (reclaimOne sweep rid).state with reservations := s.reservations, leases := s.leases } =
        { sweep.state with reservations := s.reservations, leases := s.leases } := by
    intro sweep rid
    rw [reclaimOne_frame]
  have hkept := foldl_kept (fun sweep : Sweep Rid =>
      { sweep.state with reservations := s.reservations, leases := s.leases })
    hkeep (s.leases.rangeByScore now batch) ⟨s, 0, 0⟩
  exact congrArg (fun kept : PairState Rid =>
    { kept with
      reservations := (reclaim now batch s).state.reservations
      leases := (reclaim now batch s).state.leases }) hkept

@[simp] theorem reclaim_tpm : (reclaim now batch s).state.tpm = s.tpm := by
  rw [reclaim_frame]

@[simp] theorem reclaim_tpmTs : (reclaim now batch s).state.tpmTs = s.tpmTs := by
  rw [reclaim_frame]

@[simp] theorem reclaim_stats : (reclaim now batch s).state.stats = s.stats := by
  rw [reclaim_frame]

@[simp] theorem reclaim_settled : (reclaim now batch s).state.settled = s.settled := by
  rw [reclaim_frame]

theorem reclaim_lease (k : Rid) :
    (reclaim now batch s).state.leases.get k =
      if k ∈ s.leases.rangeByScore now batch then none else s.leases.get k :=
  foldl_taken (fun (sweep : Sweep Rid) k => sweep.state.leases.get k) reclaimOne_lease _ _ k

theorem reclaim_hold (k : Rid) :
    (reclaim now batch s).state.reservations.get k =
      if k ∈ s.leases.rangeByScore now batch then none else s.reservations.get k :=
  foldl_taken (fun (sweep : Sweep Rid) k => sweep.state.reservations.get k) reclaimOne_hold _ _ k

theorem reclaim_total :
    (reclaim now batch s).tokens + (reclaim now batch s).state.reservations.total =
      s.reservations.total := by
  have hkept := foldl_kept
    (fun sweep : Sweep Rid => sweep.tokens + sweep.state.reservations.total)
    reclaimOne_total (s.leases.rangeByScore now batch) ⟨s, 0, 0⟩
  exact hkept.trans (zero_add _)

theorem reclaim_tokens :
    (reclaim now batch s).tokens =
      ((s.leases.rangeByScore now batch).map fun id => (s.reservations.get id).getD 0).sum := by
  have hgathered := foldl_gathered (fun (sweep : Sweep Rid) k => sweep.state.reservations.get k)
    Sweep.tokens (fun held => held.getD 0) reclaimOne_hold reclaimOne_tokens
    (SortedSet.nodup_rangeByScore now batch s.leases) ⟨s, 0, 0⟩
  exact hgathered.trans (zero_add _)

theorem reclaim_count_eq_length :
    (reclaim now batch s).count = (s.leases.rangeByScore now batch).length := by
  have hgathered := foldl_gathered (fun (sweep : Sweep Rid) k => sweep.state.leases.get k)
    Sweep.count (fun _ => 1) reclaimOne_lease reclaimOne_count
    (SortedSet.nodup_rangeByScore now batch s.leases) ⟨s, 0, 0⟩
  rw [zero_add, List.map_const', List.sum_replicate_nat, mul_one] at hgathered
  exact hgathered

/-- The sweep counts every lease it lists, with or without a hold. -/
theorem reclaim_count :
    (reclaim now batch s).count = min batch (s.leases.countByScore now) := by
  rw [reclaim_count_eq_length, SortedSet.length_rangeByScore]

/-- What a sweep counts is what leaves the leases. -/
theorem reclaim_card :
    (reclaim now batch s).state.leases.card + (reclaim now batch s).count = s.leases.card := by
  rw [reclaim_count_eq_length]
  refine foldl_shrunk (fun (sweep : Sweep Rid) k => sweep.state.leases.get k)
    (fun sweep => sweep.state.leases.card) reclaimOne_lease ?_
    (SortedSet.nodup_rangeByScore now batch s.leases) ⟨s, 0, 0⟩ ?_
  · intro sweep rid hleased
    obtain ⟨deadline, hlease⟩ := Option.ne_none_iff_exists'.mp hleased
    show (reclaimOne sweep rid).state.leases.card + 1 = sweep.state.leases.card
    rw [reclaimOne_leases]
    exact Collection.card_del_of_get hlease
  · intro id hid
    obtain ⟨deadline, hlease, -⟩ := SortedSet.score_of_mem_rangeByScore hid
    exact Option.ne_none_iff_exists'.mpr ⟨deadline, hlease⟩

/-- Where every deadline lies ahead there is nothing to sweep. -/
theorem reclaim_of_live {now : Int} {s : PairState Rid}
    (hlive : ∀ rid deadline, s.leases.get rid = some deadline → now < deadline) (batch : Nat) :
    reclaim now batch s = ⟨s, 0, 0⟩ := by
  unfold reclaim
  rw [SortedSet.rangeByScore_eq_nil hlive]
  rfl

/-- Reclaiming never takes tokens when no hold is negative. -/
theorem reclaim_tokens_nonneg (hholds : HoldsNonneg s) :
    0 ≤ (reclaim now batch s).tokens := by
  rw [reclaim_tokens]
  apply List.sum_nonneg
  intro x hx
  obtain ⟨id, -, rfl⟩ := List.mem_map.mp hx
  cases hget : s.reservations.get id with
  | none => exact le_rfl
  | some held => exact hholds id held hget

/-- A lease whose deadline lies ahead is not swept. -/
theorem not_mem_rangeByScore_of_lt {k : Rid} {deadline : Int}
    (hlease : s.leases.get k = some deadline) (hlive : now < deadline) :
    k ∉ s.leases.rangeByScore now batch := by
  intro hmem
  obtain ⟨score, hscore, hle⟩ := SortedSet.score_of_mem_rangeByScore hmem
  rw [hlease] at hscore
  cases hscore
  omega

end Sweep

/-! ## Admission -/

section Admit

variable {Rid : Type} [LinearOrder Rid]

omit [LinearOrder Rid] in
/-- What an admitted request has passed. -/
theorem decideAdmission_eq_admitted {a : AdmitArgs Rid} {reserve tpmBal rpmBal avg : Rat}
    {inflight : Nat} (h : decideAdmission a reserve tpmBal rpmBal avg inflight = .admitted) :
    reserve ≤ a.tpmLimit ∧ 1 ≤ rpmBal ∧ reserve ≤ tpmBal ∧
      inflight < a.maxConcurrency + a.maxQueue := by
  unfold decideAdmission at h
  split at h
  · cases h
  next hsize =>
    split at h
    · cases h
    next hrpm =>
      split at h
      · cases h
      next htpm =>
        split at h
        · cases h
        next hqueue =>
          exact ⟨not_lt.mp hsize, not_lt.mp hrpm, not_lt.mp htpm, not_le.mp hqueue⟩

section Verdict

variable {a : AdmitArgs Rid} {reserve tpmBal rpmBal avg : Rat} {inflight : Nat}
  {retryAfterMs : Int}

omit [LinearOrder Rid] in
/-- Only its size makes a request unsatisfiable. -/
theorem decideAdmission_unsatisfiable_iff :
    decideAdmission a reserve tpmBal rpmBal avg inflight = .shed .unsatisfiable retryAfterMs ↔
      a.tpmLimit < reserve ∧ retryAfterMs = 0 := by
  unfold decideAdmission
  split_ifs <;> simp_all [eq_comm]

omit [LinearOrder Rid] in
/-- The requests are looked at next. -/
theorem decideAdmission_rpmExhausted_iff :
    decideAdmission a reserve tpmBal rpmBal avg inflight = .shed .rpmExhausted retryAfterMs ↔
      reserve ≤ a.tpmLimit ∧ rpmBal < 1 ∧ retryAfterMs = ⌈(1 - rpmBal) / a.rpmRate * 1000⌉ := by
  unfold decideAdmission
  split_ifs <;> simp_all [eq_comm]

omit [LinearOrder Rid] in
/-- And then the tokens. -/
theorem decideAdmission_tpmExhausted_iff :
    decideAdmission a reserve tpmBal rpmBal avg inflight = .shed .tpmExhausted retryAfterMs ↔
      reserve ≤ a.tpmLimit ∧ 1 ≤ rpmBal ∧ tpmBal < reserve ∧
        retryAfterMs = ⌈(reserve - tpmBal) / a.tpmRate * 1000⌉ := by
  unfold decideAdmission
  split_ifs <;> simp_all [eq_comm]

end Verdict

/-- The state after sweeping and taking the new hold. -/
def holdFor (a : AdmitArgs Rid) (reserve : Rat) (s : PairState Rid) : PairState Rid :=
  let swept := (reclaim a.now a.reclaimBatch s).state
  { swept with
    leases := swept.leases.put a.rid (a.now + a.leaseMs)
    reservations := swept.reservations.put a.rid reserve }

/-- The two ways an admission with a numeric size ends. -/
theorem admitScript_cases (clock : Int) (a : AdmitArgs Rid) (s : PairState Rid)
    {reserve : Rat} (hreserve : a.reserve = some reserve) :
    (∃ reply, admitScript clock a s =
        (persist clock a (tpmBalance a s - reserve) (rpmBalance a s - 1) (holdFor a reserve s),
          .ok reply) ∧
      reply.decision = .admitted ∧ reserve ≤ tpmBalance a s ∧
      (reclaim a.now a.reclaimBatch s).state.leases.card < a.maxConcurrency + a.maxQueue) ∨
    (∃ reply reason retryAfterMs, admitScript clock a s =
        (persist clock a (tpmBalance a s) (rpmBalance a s)
          (reclaim a.now a.reclaimBatch s).state, .ok reply) ∧
      reply.decision = .shed reason retryAfterMs) := by
  unfold admitScript
  simp only [hreserve]
  cases hdecision : decideAdmission a reserve (tpmBalance a s) (rpmBalance a s) (avgSvc a s)
      (reclaim a.now a.reclaimBatch s).state.leases.card with
  | admitted =>
      obtain ⟨-, -, hfits, hroom⟩ := decideAdmission_eq_admitted hdecision
      exact Or.inl ⟨_, rfl, rfl, hfits, hroom⟩
  | shed reason retryAfterMs =>
      exact Or.inr ⟨_, reason, retryAfterMs, rfl, rfl⟩

/-- What an admission reports: the verdict of the chain of checks, and the balances and
the leases as the verdict leaves them. -/
structure AdmitReported (a : AdmitArgs Rid) (s : PairState Rid) (reserve : Rat)
    (reply : AdmitReply) : Prop where
  decision : reply.decision = decideAdmission a reserve (tpmBalance a s) (rpmBalance a s)
    (avgSvc a s) (reclaim a.now a.reclaimBatch s).state.leases.card
  reserved : reply.reserved = replyInteger reserve
  tokensRemaining : reply.tokensRemaining =
    if reply.decision = .admitted then ⌊tpmBalance a s - reserve⌋ else ⌊tpmBalance a s⌋
  requestsRemaining : reply.requestsRemaining =
    if reply.decision = .admitted then ⌊rpmBalance a s - 1⌋ else ⌊rpmBalance a s⌋
  inflight : reply.inflight = (reclaim a.now a.reclaimBatch s).state.leases.card +
    if reply.decision = .admitted then 1 else 0
  predictedWaitMs : reply.predictedWaitMs =
    predictedWait a (reclaim a.now a.reclaimBatch s).state.leases.card (avgSvc a s)
  reclaimed : reply.reclaimed = (reclaim a.now a.reclaimBatch s).count

/-- An admission with a numeric size is always answered. -/
theorem admitScript_reply (clock : Int) (a : AdmitArgs Rid) (s : PairState Rid)
    {reserve : Rat} (hreserve : a.reserve = some reserve) :
    ∃ reply, (admitScript clock a s).2 = .ok reply ∧ AdmitReported a s reserve reply := by
  unfold admitScript
  simp only [hreserve]
  cases hdecision : decideAdmission a reserve (tpmBalance a s) (rpmBalance a s) (avgSvc a s)
      (reclaim a.now a.reclaimBatch s).state.leases.card with
  | admitted => exact ⟨_, rfl, ⟨hdecision.symm, rfl, rfl, rfl, rfl, rfl, rfl⟩⟩
  | shed reason retryAfterMs =>
      exact ⟨_, rfl, ⟨hdecision.symm, rfl, rfl, rfl, rfl, rfl, rfl⟩⟩

/-- The request balance an admission stores: the one it finds, less one when it admits,
and then there was one to take. -/
theorem admitScript_requests (clock : Int) (a : AdmitArgs Rid) (s : PairState Rid)
    {reserve : Rat} (hreserve : a.reserve = some reserve) :
    ∃ reply, (admitScript clock a s).2 = .ok reply ∧
      (admitScript clock a s).1.rpm = .setEx clock
        (rpmBalance a s - if reply.decision = .admitted then 1 else 0) a.ttl ∧
      (admitScript clock a s).1.rpmTs = .setEx clock a.now a.ttl ∧
      (reply.decision = .admitted → 1 ≤ rpmBalance a s) := by
  unfold admitScript
  simp only [hreserve]
  cases hdecision : decideAdmission a reserve (tpmBalance a s) (rpmBalance a s) (avgSvc a s)
      (reclaim a.now a.reclaimBatch s).state.leases.card with
  | admitted =>
      obtain ⟨-, hrequest, -, -⟩ := decideAdmission_eq_admitted hdecision
      exact ⟨_, rfl, rfl, rfl, fun _ => hrequest⟩
  | shed reason retryAfterMs =>
      refine ⟨_, rfl, ?_, rfl, fun h => by cases h⟩
      simp [persist]

/-- What an admission holds is its argument. -/
theorem admitScript_held {clock : Int} {a : AdmitArgs Rid} {s s' : PairState Rid}
    {reply : AdmitReply} (h : admitScript clock a s = (s', .ok reply))
    (hadmitted : reply.decision = .admitted) : s'.reservations.get a.rid = a.reserve := by
  cases hreserve : a.reserve with
  | none =>
      unfold admitScript at h
      simp only [hreserve] at h
      cases congrArg Prod.snd h
  | some reserve =>
      rcases admitScript_cases clock a s hreserve with
        ⟨reply', hscript, -⟩ | ⟨reply', reason, retryAfterMs, hscript, hshed⟩
      · rw [hscript] at h
        obtain rfl := congrArg Prod.fst h
        simp [persist, holdFor]
      · rw [hscript] at h
        obtain rfl : reply' = reply := Except.ok.inj (congrArg Prod.snd h)
        rw [hshed] at hadmitted
        cases hadmitted

end Admit

/-! ## Settlement -/

section Commit

variable {Rid : Type} [LinearOrder Rid]

theorem takeHold_frame (rid : Rid) (s : PairState Rid) :
    takeHold rid s =
      { s with
        reservations := (takeHold rid s).reservations
        leases := (takeHold rid s).leases } := by
  unfold takeHold
  split <;> rfl

theorem takeHold_hold (rid k : Rid) (s : PairState Rid) :
    (takeHold rid s).reservations.get k =
      if k = rid then none else s.reservations.get k := by
  unfold takeHold
  split
  next held hheld =>
    by_cases hk : k = rid
    · simp [hk]
    · simp [hk, Collection.get_del_of_ne hk]
  next hnone =>
    by_cases hk : k = rid
    · simp [hk, hnone]
    · simp [hk]

theorem takeHold_lease_of_ne {rid k : Rid} (h : k ≠ rid) (s : PairState Rid) :
    (takeHold rid s).leases.get k = s.leases.get k := by
  unfold takeHold
  split
  · exact Collection.get_del_of_ne h _
  · rfl

/-- Whoever had a hold has no lease afterwards. -/
theorem takeHold_lease_of_hold {rid : Rid} {s : PairState Rid} {held : Rat}
    (h : s.reservations.get rid = some held) : (takeHold rid s).leases.get rid = none := by
  unfold takeHold
  rw [h]
  exact Collection.get_del _ _

theorem takeHold_of_get_eq_none {rid : Rid} {s : PairState Rid}
    (h : s.reservations.get rid = none) : takeHold rid s = s := by
  unfold takeHold
  rw [h]

/-- A hold that is taken takes its lease with it. -/
theorem takeHold_card {rid : Rid} {s : PairState Rid} {held : Rat} {deadline : Int}
    (hheld : s.reservations.get rid = some held) (hlease : s.leases.get rid = some deadline) :
    (takeHold rid s).leases.card + 1 = s.leases.card := by
  unfold takeHold
  rw [hheld]
  exact Collection.card_del_of_get hlease

/-- Taking a hold leaves the times to live of what stays. -/
theorem takeHold_leases_expireAt {rid k : Rid} {s : PairState Rid} {deadline : Int}
    (h : (takeHold rid s).leases.get k = some deadline) :
    (takeHold rid s).leases.expireAt = s.leases.expireAt := by
  unfold takeHold at h ⊢
  split at h
  · exact Collection.expireAt_del_of_get h
  · rfl

theorem takeHold_reservations_expireAt {rid k : Rid} {s : PairState Rid} {held : Rat}
    (h : (takeHold rid s).reservations.get k = some held) :
    (takeHold rid s).reservations.expireAt = s.reservations.expireAt := by
  unfold takeHold at h ⊢
  split at h
  · exact Collection.expireAt_del_of_get h
  · rfl

/-- The hold a commit takes back is what leaves the reservations. -/
theorem takeHold_total (rid : Rid) (s : PairState Rid) :
    (s.reservations.get rid).getD 0 + (takeHold rid s).reservations.total =
      s.reservations.total := by
  unfold takeHold
  split
  next held hheld =>
    rw [hheld]
    exact Collection.total_del_of_get hheld
  next hnone => simp [hnone]

/-- What a commit settles with, before the clamp at the limit. -/
def settledBalance (a : CommitArgs Rid) (s : PairState Rid) (actual : Rat) : Rat :=
  min (currentBalance a s + ((s.reservations.get a.rid).getD 0 - actual)) a.tpmLimit

/-- A reservation with a marker is answered as a duplicate. -/
theorem commitScript_duplicate (clock : Int) (a : CommitArgs Rid) (s : PairState Rid)
    {marker : Timed Rat} (hmarker : s.settled a.rid = some marker) :
    commitScript clock a s =
      (s, .ok
        { status := .duplicateIgnored
          refundedTokens := ⌊marker.value⌋
          tokensRemaining := ⌊currentBalance a s⌋
          inflight := s.leases.card }) := by
  unfold commitScript
  simp [hmarker]

/-- Only a marker makes a commit a duplicate. -/
theorem commitScript_status (clock : Int) (a : CommitArgs Rid) (s : PairState Rid)
    (hmarker : s.settled a.rid = none) {reply : CommitReply}
    (hreply : (commitScript clock a s).2 = .ok reply) :
    reply.status ≠ .duplicateIgnored := by
  unfold commitScript at hreply
  simp only [hmarker, StringKey.get_none] at hreply
  split at hreply
  · cases hreply
  split at hreply
  · cases hreply
  split at hreply
  · cases hreply
  split at hreply
  · cases hreply
  · cases hreply
    dsimp only
    split <;> simp

/-- Without a marker a numeric commit takes the hold and writes the balance and
its clock, whatever happens to it afterwards. -/
theorem commitScript_budget (clock : Int) (a : CommitArgs Rid) (s : PairState Rid)
    {actual : Rat} (hmarker : s.settled a.rid = none) (hactual : a.actual = some actual) :
    ∃ settled stats, (commitScript clock a s).1 =
      { takeHold a.rid s with
        tpm := .setEx clock (settledBalance a s actual) a.ttl
        tpmTs := .setEx clock a.now a.ttl
        settled := settled
        stats := stats } := by
  unfold commitScript
  simp only [hmarker, hactual, StringKey.get_none]
  split
  · exact ⟨_, _, rfl⟩
  split
  · exact ⟨_, _, rfl⟩
  split
  · exact ⟨_, _, rfl⟩
  · exact ⟨_, _, rfl⟩

/-- A commit whose usage is not a number stops with the hold taken. -/
theorem commitScript_nil (clock : Int) (a : CommitArgs Rid) (s : PairState Rid)
    (hmarker : s.settled a.rid = none) (hactual : a.actual = none) :
    commitScript clock a s = (takeHold a.rid s, .error .arithmeticOnNil) := by
  unfold commitScript
  simp only [hmarker, hactual, StringKey.get_none]

/-- A commit whose marker the server refuses stops with the balance written. -/
theorem commitScript_refused (clock : Int) (a : CommitArgs Rid) (s : PairState Rid)
    {actual : Rat} (hmarker : s.settled a.rid = none) (hactual : a.actual = some actual)
    (hidem : acceptedTtl clock a.idemTtl = none) :
    commitScript clock a s =
      ({ takeHold a.rid s with
          tpm := .setEx clock (settledBalance a s actual) a.ttl
          tpmTs := .setEx clock a.now a.ttl },
        .error .invalidExpire) := by
  unfold commitScript
  simp only [hmarker, hactual, hidem, StringKey.get_none]
  rfl

/-- A commit whose observations are not numbers stops with the marker stored. -/
theorem commitScript_uncalibrated (clock : Int) (a : CommitArgs Rid) (s : PairState Rid)
    {actual : Rat} {idem : Nat} (hmarker : s.settled a.rid = none)
    (hactual : a.actual = some actual) (hidem : acceptedTtl clock a.idemTtl = some idem)
    (hobserved : a.serviceMs = none ∨ a.outputTokens = none) :
    (commitScript clock a s).2 = .error .compareNil ∧
      (commitScript clock a s).1.settled a.rid =
        .setEx clock ((s.reservations.get a.rid).getD 0 - actual) idem := by
  unfold commitScript
  simp only [hmarker, hactual, hidem, StringKey.get_none]
  cases hservice : a.serviceMs with
  | none => exact ⟨rfl, Function.update_self _ _ _⟩
  | some serviceMs =>
      rcases hobserved with hnone | hnone
      · rw [hservice] at hnone
        cases hnone
      · rw [hnone]
        exact ⟨rfl, Function.update_self _ _ _⟩

/-- A commit nothing stops settles the reservation in full. -/
theorem commitScript_settles (clock : Int) (a : CommitArgs Rid) (s : PairState Rid)
    {actual serviceMs outputTokens : Rat} {idem : Nat} (hmarker : s.settled a.rid = none)
    (hactual : a.actual = some actual) (hidem : acceptedTtl clock a.idemTtl = some idem)
    (hservice : a.serviceMs = some serviceMs) (houtput : a.outputTokens = some outputTokens) :
    commitScript clock a s =
      ({ takeHold a.rid s with
          tpm := .setEx clock (settledBalance a s actual) a.ttl
          tpmTs := .setEx clock a.now a.ttl
          settled := Function.update s.settled a.rid
            (.setEx clock ((s.reservations.get a.rid).getD 0 - actual) idem)
          stats := (observeOutput a.alpha outputTokens
            (observeService a.alpha serviceMs s.stats)).expire clock a.ttl },
        .ok
          { status := if (s.reservations.get a.rid).isSome then .committed
              else .reconciledAfterExpiry
            refundedTokens := ⌊(s.reservations.get a.rid).getD 0 - actual⌋
            tokensRemaining := ⌊settledBalance a s actual⌋
            inflight := (takeHold a.rid s).leases.card }) := by
  have hsettled : (takeHold a.rid s).settled = s.settled := by rw [takeHold_frame]
  have hstats : (takeHold a.rid s).stats = s.stats := by rw [takeHold_frame]
  unfold commitScript
  simp only [hmarker, hactual, hidem, hservice, houtput, StringKey.get_none, hsettled, hstats]
  rfl

end Commit

end RateLimiter.Admission
