import Mathlib.Data.NNRat.Defs
import RateLimiter.Admission.ScriptSpecs
import RateLimiter.Foundations.Runs

/-!
# Calls of the admission service

The calls the gateway replicas make for one (tenant, model) pair.  Each carries
the replica's `now`, the policy the replica resolved and the idempotency time to
live it was started with; the server contributes its own `clock`.  `step` is the
effect of a call on a server that loses no key, `stepAlive` its effect on a
server where keys expire.
-/

namespace RateLimiter.Admission

open RateLimiter.Redis RateLimiter.Javascript RateLimiter.Foundations

/-- Expired leases swept per admission call. -/
def reclaimBatch : Nat := 32

/-- Weight on the newest sample in both averages. -/
def ewmaAlpha : Rat := 1 / 5

/-- Assumed service time before any completion has been observed. -/
def coldStartServiceMs : Rat := 2000

/-- What is asked of the service.  Token counts and durations come out of the
request schemas, which admit nothing negative. -/
inductive Op (Rid : Type)
  | reserve (rid : Rid) (tokens sloTtftMs : NNRat)
  | commit (rid : Rid) (actual serviceMs outputTokens : NNRat)
  | release (rid : Rid)
  | snapshot

/-- One call as it reaches the server. -/
structure Request (Rid : Type) where
  now : Int
  clock : Int
  policy : Limits
  idempotencyTtl : JsNumber
  op : Op Rid

/-- A call on one common clock, by a replica started with the default
idempotency time to live. -/
def callAt {Rid : Type} (policy : Limits) (now : Int) (op : Op Rid) : Request Rid :=
  ⟨now, now, policy, .finite 300, op⟩

/-- What the server answers. -/
inductive Reply
  | reserve (result : Except ScriptError AdmitReply)
  | commit (result : Except ScriptError CommitReply)
  | snapshot (reply : SnapshotReply)

/-- The arguments `reserve` passes to `ADMIT_SCRIPT`. -/
def admitArgs {Rid : Type} (p : Limits) (now : Int) (rid : Rid) (reserveTokens : Option Rat)
    (sloTtftMs : Rat) : AdmitArgs Rid where
  now := now
  tpmLimit := p.tokensPerMinute
  tpmRate := p.tokensPerMinute / 60
  rpmLimit := p.requestsPerMinute
  rpmRate := p.requestsPerMinute / 60
  reserve := reserveTokens
  rid := rid
  leaseMs := p.leaseMs
  maxConcurrency := p.maxConcurrency
  maxQueue := p.maxQueueDepth
  sloTtftMs := sloTtftMs
  ttl := p.ttlSeconds
  reclaimBatch := reclaimBatch
  defaultSvcMs := coldStartServiceMs

/-- The arguments `commit` passes to `COMMIT_SCRIPT`. -/
def commitArgs {Rid : Type} (p : Limits) (now : Int) (rid : Rid)
    (actual serviceMs outputTokens : Option Rat) (idemTtl : JsNumber) : CommitArgs Rid where
  now := now
  rid := rid
  actual := actual
  tpmLimit := p.tokensPerMinute
  ttl := p.ttlSeconds
  serviceMs := serviceMs
  outputTokens := outputTokens
  alpha := ewmaAlpha
  idemTtl := idemTtl

/-- The arguments `snapshot` passes to `SNAPSHOT_SCRIPT`. -/
def snapshotArgs (p : Limits) (now : Int) : SnapshotArgs where
  now := now
  tpmLimit := p.tokensPerMinute
  tpmRate := p.tokensPerMinute / 60
  rpmLimit := p.requestsPerMinute
  rpmRate := p.requestsPerMinute / 60
  defaultSvcMs := coldStartServiceMs

namespace Op

variable {Rid : Type}

/-- The reservation a call names. -/
def rid? : Op Rid → Option Rid
  | reserve rid _ _ => some rid
  | commit rid _ _ _ => some rid
  | release rid => some rid
  | snapshot => none

/-- The reservation a call settles and the usage it reports; a release is the
commit of no usage. -/
def settles? : Op Rid → Option (Rid × NNRat)
  | commit rid actual _ _ => some (rid, actual)
  | release rid => some (rid, 0)
  | _ => none

/-- What settles a reservation is a commit that names it, or its release. -/
theorem settles?_cases {op : Op Rid} {rid : Rid} {actual : NNRat}
    (h : op.settles? = some (rid, actual)) :
    (∃ serviceMs outputTokens, op = .commit rid actual serviceMs outputTokens) ∨
      (op = .release rid ∧ actual = 0) := by
  cases op with
  | reserve rid' tokens sloTtftMs => cases h
  | commit rid' actual' serviceMs outputTokens =>
      cases h
      exact Or.inl ⟨serviceMs, outputTokens, rfl⟩
  | release rid' =>
      cases h
      exact Or.inr ⟨rfl, rfl⟩
  | snapshot => cases h

end Op

section Step

variable {Rid : Type} [LinearOrder Rid]

/-- One call against the keys of the pair. -/
def handle (s : PairState Rid) (r : Request Rid) : PairState Rid × Reply :=
  match r.op with
  | .reserve rid tokens sloTtftMs =>
      let out := admitScript r.clock
        (admitArgs r.policy r.now rid (some (tokens : Rat)) (sloTtftMs : Rat)) s
      (out.1, .reserve out.2)
  | .commit rid actual serviceMs outputTokens =>
      let out := commitScript r.clock
        (commitArgs r.policy r.now rid (some (actual : Rat)) (some (serviceMs : Rat))
          (some (outputTokens : Rat)) r.idempotencyTtl) s
      (out.1, .commit out.2)
  -- no usage, and no sample for the averages
  | .release rid =>
      let out := commitScript r.clock
        (commitArgs r.policy r.now rid (some 0) (some 0) (some 0) r.idempotencyTtl) s
      (out.1, .commit out.2)
  | .snapshot => (s, .snapshot (snapshotScript (snapshotArgs r.policy r.now) s))

/-- Does the sweep of a reserve take the reservation? -/
def sweeps (s : PairState Rid) (r : Request Rid) (rid : Rid) : Bool :=
  decide (rid ∈ s.leases.rangeByScore r.now reclaimBatch)

@[simp] theorem sweeps_iff {s : PairState Rid} {r : Request Rid} {rid : Rid} :
    sweeps s r rid = true ↔ rid ∈ s.leases.rangeByScore r.now reclaimBatch :=
  decide_eq_true_iff

/-- The keys a call leaves behind when none of them had expired. -/
def step (s : PairState Rid) (r : Request Rid) : PairState Rid := (handle s r).1

/-- The keys a call leaves behind when the expired ones are gone. -/
def stepAlive (s : PairState Rid) (r : Request Rid) : PairState Rid := step (s.purge r.clock) r

end Step

/-! ## What a call reads -/

/-- The token balance of the pair at `now`, as each of the scripts reads it. -/
def balanceAt {Rid : Type} (p : Limits) (now : Int) (s : PairState Rid) : Rat :=
  refill now s.tpm.get s.tpmTs.get p.tokensPerMinute ((p.tokensPerMinute : Rat) / 60)

/-- The request balance of the pair at `now`. -/
def requestsAt {Rid : Type} (p : Limits) (now : Int) (s : PairState Rid) : Rat :=
  refill now s.rpm.get s.rpmTs.get p.requestsPerMinute ((p.requestsPerMinute : Rat) / 60)

/-- The tokens held for a reservation, none once its hold is gone. -/
def heldFor {Rid : Type} [DecidableEq Rid] (rid : Rid) (s : PairState Rid) : Rat :=
  (s.reservations.get rid).getD 0

/-- Does the call store a balance?  A reserve always does, a commit unless its
reservation is settled already. -/
def writes {Rid : Type} (s : PairState Rid) (r : Request Rid) : Bool :=
  match r.op with
  | .reserve _ _ _ => true
  | .commit rid _ _ _ => (s.settled rid).get.isNone
  | .release rid => (s.settled rid).get.isNone
  | .snapshot => false

/-- Was the call a commit answered as a replay? -/
def answeredDuplicate : Reply → Bool
  | .commit (.ok reply) => reply.status = .duplicateIgnored
  | _ => false

/-- Was the call an admitted reserve? -/
def admitted : Reply → Bool
  | .reserve (.ok reply) => reply.decision = .admitted
  | _ => false

/-- The verdict on a reserve that is answered. -/
def verdictOf : Reply → Option Decision
  | .reserve (.ok reply) => some reply.decision
  | _ => none

section Facts

variable {Rid : Type} [LinearOrder Rid] {s : PairState Rid} {r : Request Rid} {rid : Rid}

theorem balanceAt_le_limit {Rid : Type} (p : Limits) (now : Int) (s : PairState Rid) :
    balanceAt p now s ≤ p.tokensPerMinute := refill_le_capacity _ _ _ _ _

/-- The swept state of a call. -/
def sweepOf (s : PairState Rid) (r : Request Rid) : Sweep Rid := reclaim r.now reclaimBatch s

/-- The token balance a reserve decides on. -/
def decisionBalance (s : PairState Rid) (r : Request Rid) : Rat :=
  min (balanceAt r.policy r.now s + (sweepOf s r).tokens) r.policy.tokensPerMinute

/-- A reserve is answered with the verdict of the chain of checks. -/
theorem verdictOf_reserve {tokens slo : NNRat} (hop : r.op = .reserve rid tokens slo) :
    verdictOf (handle s r).2 = some (decideAdmission
      (admitArgs r.policy r.now rid (some (tokens : Rat)) (slo : Rat)) tokens
      (decisionBalance s r) (requestsAt r.policy r.now s)
      ((s.stats.get .svcMs).getD coldStartServiceMs) (sweepOf s r).state.leases.card) := by
  obtain ⟨reply, hreply, hreport⟩ := admitScript_reply r.clock
    (admitArgs r.policy r.now rid (some (tokens : Rat)) (slo : Rat)) s rfl
  unfold handle
  rw [hop]
  dsimp only
  rw [hreply]
  exact congrArg some hreport.decision

/-- What the keys are after a reserve. -/
structure Reserved (s : PairState Rid) (r : Request Rid) (taken : Rat) (s' : PairState Rid) :
    Prop where
  tpm : s'.tpm = .setEx r.clock (decisionBalance s r - taken) r.policy.ttlSeconds
  tpmTs : s'.tpmTs = .setEx r.clock r.now r.policy.ttlSeconds
  stats : s'.stats = s.stats
  settled : s'.settled = s.settled

/-- The two ways a reserve ends. -/
theorem reserve_cases {tokens slo : NNRat} (hop : r.op = .reserve rid tokens slo) :
    (admitted (handle s r).2 = true ∧ (tokens : Rat) ≤ decisionBalance s r ∧
      (sweepOf s r).state.leases.card < r.policy.maxConcurrency + r.policy.maxQueueDepth ∧
      Reserved s r tokens (step s r) ∧
      (step s r).leases = ((sweepOf s r).state.leases.put rid
        (r.now + r.policy.leaseMs)).expire r.clock r.policy.ttlSeconds ∧
      (step s r).reservations = ((sweepOf s r).state.reservations.put rid
        (tokens : Rat)).expire r.clock r.policy.ttlSeconds) ∨
    (admitted (handle s r).2 = false ∧ Reserved s r 0 (step s r) ∧
      (step s r).leases =
        (sweepOf s r).state.leases.expire r.clock r.policy.ttlSeconds ∧
      (step s r).reservations =
        (sweepOf s r).state.reservations.expire r.clock r.policy.ttlSeconds) := by
  have hhandle : handle s r =
      ((admitScript r.clock
        (admitArgs r.policy r.now rid (some (tokens : Rat)) (slo : Rat)) s).1,
        .reserve (admitScript r.clock
          (admitArgs r.policy r.now rid (some (tokens : Rat)) (slo : Rat)) s).2) := by
    unfold handle
    rw [hop]
  unfold step
  rw [hhandle]
  rcases admitScript_cases r.clock
      (admitArgs r.policy r.now rid (some (tokens : Rat)) (slo : Rat)) s rfl with
    ⟨reply, hscript, hdecision, hfits, hroom⟩ | ⟨reply, reason, retry, hscript, hdecision⟩
  · left
    rw [hscript]
    refine ⟨by simp [admitted, hdecision], hfits, hroom, ⟨rfl, rfl, ?_, ?_⟩, rfl, rfl⟩
    · exact reclaim_stats _ _ _
    · exact reclaim_settled _ _ _
  · right
    rw [hscript]
    refine ⟨by simp [admitted, hdecision], ⟨?_, rfl, ?_, ?_⟩, rfl, rfl⟩
    · rw [sub_zero]
      rfl
    · exact reclaim_stats _ _ _
    · exact reclaim_settled _ _ _

/-- A reserve stores the request balance it finds, less one when it admits. -/
theorem reserve_rpm {tokens slo : NNRat} (hop : r.op = .reserve rid tokens slo) :
    (step s r).rpm = .setEx r.clock
        (requestsAt r.policy r.now s - if admitted (handle s r).2 then 1 else 0) r.policy.ttlSeconds ∧
      (step s r).rpmTs = .setEx r.clock r.now r.policy.ttlSeconds := by
  obtain ⟨reply, hreply, hrpm, hrpmTs, -⟩ := admitScript_requests r.clock
    (admitArgs r.policy r.now rid (some (tokens : Rat)) (slo : Rat)) s rfl
  have hhandle : handle s r =
      ((admitScript r.clock
        (admitArgs r.policy r.now rid (some (tokens : Rat)) (slo : Rat)) s).1,
        .reserve (.ok reply)) := by
    unfold handle
    rw [hop, ← hreply]
  unfold step
  rw [hhandle]
  simp only [admitted, decide_eq_true_eq]
  exact ⟨hrpm, hrpmTs⟩

/-- A reserve that is answered is admitted or shed. -/
theorem verdictOf_eq_admitted {reply : Reply} :
    verdictOf reply = some .admitted ↔ admitted reply = true := by
  unfold verdictOf admitted
  split <;> simp

/-- The commit behind a call that settles. -/
theorem handle_of_settles {actual : NNRat} (h : r.op.settles? = some (rid, actual)) :
    ∃ serviceMs outputTokens : NNRat,
      handle s r =
        ((commitScript r.clock (commitArgs r.policy r.now rid (some (actual : Rat))
            (some (serviceMs : Rat)) (some (outputTokens : Rat)) r.idempotencyTtl) s).1,
          .commit (commitScript r.clock (commitArgs r.policy r.now rid (some (actual : Rat))
            (some (serviceMs : Rat)) (some (outputTokens : Rat)) r.idempotencyTtl) s).2) := by
  unfold handle
  rcases Op.settles?_cases h with ⟨serviceMs, outputTokens, hop⟩ | ⟨hop, rfl⟩
  · exact ⟨serviceMs, outputTokens, by rw [hop]⟩
  · exact ⟨0, 0, by simp [hop]⟩

/-- The balance a commit leaves. -/
def settlementBalance (s : PairState Rid) (r : Request Rid) (rid : Rid) (actual : NNRat) : Rat :=
  min (balanceAt r.policy r.now s + (heldFor rid s - actual)) r.policy.tokensPerMinute

/-- A replay is answered as one and changes no key. -/
theorem settle_duplicate {actual : NNRat} (h : r.op.settles? = some (rid, actual))
    {marker : Timed Rat} (hmarker : s.settled rid = some marker) :
    answeredDuplicate (handle s r).2 = true ∧ step s r = s := by
  obtain ⟨serviceMs, outputTokens, hhandle⟩ := handle_of_settles (s := s) h
  have hscript := commitScript_duplicate r.clock (commitArgs r.policy r.now rid
    (some (actual : Rat)) (some (serviceMs : Rat)) (some (outputTokens : Rat))
    r.idempotencyTtl) s hmarker
  unfold step
  rw [hhandle, hscript]
  exact ⟨rfl, rfl⟩

/-- A commit without a marker is not answered as a replay; it takes the hold and
writes the balance and its clock. -/
theorem settle_cases {actual : NNRat} (h : r.op.settles? = some (rid, actual))
    (hmarker : s.settled rid = none) :
    answeredDuplicate (handle s r).2 = false ∧
    ∃ settled stats, step s r =
      { takeHold rid s with
        tpm := .setEx r.clock (settlementBalance s r rid actual) r.policy.ttlSeconds
        tpmTs := .setEx r.clock r.now r.policy.ttlSeconds
        settled := settled
        stats := stats } := by
  obtain ⟨serviceMs, outputTokens, hhandle⟩ := handle_of_settles (s := s) h
  have hbudget := commitScript_budget r.clock (commitArgs r.policy r.now rid
    (some (actual : Rat)) (some (serviceMs : Rat)) (some (outputTokens : Rat))
    r.idempotencyTtl) s hmarker rfl
  refine ⟨?_, ?_⟩
  · -- an error carries no status, a reply only that of a first settlement
    rw [hhandle]
    unfold answeredDuplicate
    dsimp only
    split
    next reply hreply =>
      have hscript := Reply.commit.inj hreply
      simp [commitScript_status r.clock _ s hmarker hscript]
    next => rfl
  · unfold step
    rw [hhandle]
    exact hbudget

/-- A commit whose marker the server accepts leaves it. -/
theorem settle_marker {actual : NNRat} (h : r.op.settles? = some (rid, actual))
    (hmarker : s.settled rid = none) {idem : Nat}
    (hidem : acceptedTtl r.clock r.idempotencyTtl = some idem) :
    (step s r).settled = Function.update s.settled rid
      (.setEx r.clock (heldFor rid s - actual) idem) := by
  obtain ⟨serviceMs, outputTokens, hhandle⟩ := handle_of_settles (s := s) h
  have hscript := commitScript_settles r.clock (commitArgs r.policy r.now rid
    (some (actual : Rat)) (some (serviceMs : Rat)) (some (outputTokens : Rat))
    r.idempotencyTtl) s hmarker rfl hidem rfl rfl
  unfold step
  rw [hhandle, hscript]
  rfl

theorem step_snapshot (hop : r.op = .snapshot) : step s r = s := by
  unfold step handle
  rw [hop]

omit [LinearOrder Rid] in
/-- Every call reserves, settles or reads. -/
theorem op_cases (op : Op Rid) :
    (∃ rid tokens slo, op = .reserve rid tokens slo) ∨
      (∃ rid actual, op.settles? = some (rid, actual)) ∨ op = .snapshot := by
  cases op with
  | reserve rid tokens slo => exact Or.inl ⟨rid, tokens, slo, rfl⟩
  | commit rid actual serviceMs outputTokens => exact Or.inr (Or.inl ⟨rid, actual, rfl⟩)
  | release rid => exact Or.inr (Or.inl ⟨rid, 0, rfl⟩)
  | snapshot => exact Or.inr (Or.inr rfl)

/-! ### Holds -/

/-- A hold that a sweep leaves was there before. -/
theorem hold_of_sweep {k : Rid} {held : Rat}
    (h : (sweepOf s r).state.reservations.get k = some held) :
    s.reservations.get k = some held := by
  unfold sweepOf at h
  rw [reclaim_hold] at h
  split at h
  · cases h
  · exact h

/-- A hold that a call leaves was there before, or the call was admitted with it. -/
theorem hold_of_call {k : Rid} {held : Rat} (h : (step s r).reservations.get k = some held) :
    s.reservations.get k = some held ∨
      ∃ tokens slo, r.op = .reserve k tokens slo ∧ admitted (handle s r).2 = true ∧
        held = tokens := by
  rcases op_cases r.op with ⟨rid, tokens, slo, hop⟩ | ⟨rid, actual, hop⟩ | hop
  · rcases reserve_cases (s := s) hop with
      ⟨hadmitted, -, -, -, -, hreservations⟩ | ⟨-, -, -, hreservations⟩
    · rw [hreservations, Collection.get_expire] at h
      by_cases hk : k = rid
      · subst hk
        rw [Collection.get_put] at h
        cases h
        exact Or.inr ⟨tokens, slo, hop, hadmitted, rfl⟩
      · rw [Collection.get_put_of_ne hk] at h
        exact Or.inl (hold_of_sweep h)
    · rw [hreservations, Collection.get_expire] at h
      exact Or.inl (hold_of_sweep h)
  · cases hmarker : s.settled rid with
    | some marker =>
        rw [(settle_duplicate hop hmarker).2] at h
        exact Or.inl h
    | none =>
        obtain ⟨-, settled, stats, hstep⟩ := settle_cases hop hmarker
        rw [hstep] at h
        change (takeHold rid s).reservations.get k = some held at h
        rw [takeHold_hold] at h
        split at h
        · cases h
        · exact Or.inl h
  · rw [step_snapshot hop] at h
    exact Or.inl h

/-- The holds a sweep leaves are still not negative. -/
theorem HoldsNonneg.sweep (h : HoldsNonneg s) (r : Request Rid) :
    HoldsNonneg (sweepOf s r).state :=
  fun k held hget => h k held (hold_of_sweep hget)

/-- No call makes a hold negative. -/
theorem HoldsNonneg.step (h : HoldsNonneg s) (r : Request Rid) : HoldsNonneg (step s r) := by
  intro k held hget
  rcases hold_of_call hget with hold | ⟨tokens, slo, -, -, rfl⟩
  · exact h k held hold
  · exact tokens.2

/-- Nor does the loss of a key. -/
theorem HoldsNonneg.purge (h : HoldsNonneg s) (clock : Int) : HoldsNonneg (s.purge clock) :=
  fun k held hget => h k held (Collection.get_of_get_purge hget)

omit [LinearOrder Rid] in
theorem holdsNonneg_empty [DecidableEq Rid] : HoldsNonneg (PairState.empty : PairState Rid) := by
  intro k held hget
  cases hget

/-! ### Calls that store a balance -/

omit [LinearOrder Rid] in
theorem writes_of_settles {actual : NNRat} (h : r.op.settles? = some (rid, actual)) :
    writes s r = (s.settled rid).get.isNone := by
  unfold writes
  rcases Op.settles?_cases h with ⟨serviceMs, outputTokens, hop⟩ | ⟨hop, -⟩ <;> rw [hop]

/-- A call that writes stores a balance, its own `now` as the balance's clock, and
the time to live of its policy on both. -/
theorem step_of_writes (h : writes s r = true) :
    ∃ b, (step s r).tpm = .setEx r.clock b r.policy.ttlSeconds ∧
      (step s r).tpmTs = .setEx r.clock r.now r.policy.ttlSeconds := by
  rcases op_cases r.op with ⟨rid, tokens, slo, hop⟩ | ⟨rid, actual, hop⟩ | hop
  · rcases reserve_cases (s := s) hop with ⟨-, -, -, hwrite, -⟩ | ⟨-, hwrite, -⟩
    · exact ⟨_, hwrite.tpm, hwrite.tpmTs⟩
    · exact ⟨_, hwrite.tpm, hwrite.tpmTs⟩
  · rw [writes_of_settles hop] at h
    have hmarker : s.settled rid = none := by simpa using h
    obtain ⟨-, settled, stats, hstep⟩ := settle_cases hop hmarker
    rw [hstep]
    exact ⟨_, rfl, rfl⟩
  · simp [writes, hop] at h

/-- A call that does not write changes no key. -/
theorem step_of_not_writes (h : writes s r = false) : step s r = s := by
  rcases op_cases r.op with ⟨rid, tokens, slo, hop⟩ | ⟨rid, actual, hop⟩ | hop
  · simp [writes, hop] at h
  · rw [writes_of_settles hop] at h
    obtain ⟨marker, hmarker⟩ : ∃ marker, s.settled rid = some marker :=
      Option.isSome_iff_exists.mp (by simpa [StringKey.get] using h)
    exact (settle_duplicate hop hmarker).2
  · exact step_snapshot hop

end Facts

end RateLimiter.Admission
