import Mathlib.Algebra.BigOperators.Group.Finset.Basic
import RateLimiter.Admission.Keyspace
import RateLimiter.Admission.Lifecycle
import RateLimiter.Admission.Settlement

/-!
# Work in flight, derived from counters

The service counts admissions, settlements and reclaims by policy scope, and the
comment at the counters derives the work in flight from them: admissions minus
settlements minus reclaims.  A commit whose lease a sweep has already taken is in
two of these counters, so every such commit takes one too many off.
-/

namespace RateLimiter.Admission

open RateLimiter.Redis RateLimiter.Javascript RateLimiter.Foundations

/-! ## The counters -/

/-- The `outcome` label of an admission decision. -/
inductive Outcome
  | admits
  | shed (reason : ShedReason)
deriving DecidableEq, Repr

/-- The counters of the metrics service that a reserve or a commit increments, added up
over all replicas.  Those of the tokens reserved are left out: no other counter reads them. -/
structure Registry where
  admissionsTotal : JsString × Outcome → Nat
  leaseReclaimsTotal : JsString → Nat
  lateCommitsTotal : JsString → Nat
  overrunTokensTotal : JsString → Nat
  reservationsSettledTotal : JsString → Nat

/-- `inc` of a labelled counter. -/
def inc {κ : Type} [DecidableEq κ] (counter : κ → Nat) (labels : κ) (value : Nat) : κ → Nat :=
  Function.update counter labels (counter labels + value)

namespace Registry

/-- Nothing has been counted. -/
def zero : Registry := ⟨fun _ => 0, fun _ => 0, fun _ => 0, fun _ => 0, fun _ => 0⟩

def recordAdmission (scope : JsString) (outcome : Outcome) (reg : Registry) : Registry :=
  { reg with admissionsTotal := inc reg.admissionsTotal (scope, outcome) 1 }

def recordLeaseReclaim (scope : JsString) (count : Nat) (reg : Registry) : Registry :=
  { reg with leaseReclaimsTotal := inc reg.leaseReclaimsTotal scope count }

def recordLateCommit (scope : JsString) (reg : Registry) : Registry :=
  { reg with lateCommitsTotal := inc reg.lateCommitsTotal scope 1 }

def recordOverrun (scope : JsString) (tokens : Nat) (reg : Registry) : Registry :=
  { reg with overrunTokensTotal := inc reg.overrunTokensTotal scope tokens }

def recordSettled (scope : JsString) (reg : Registry) : Registry :=
  { reg with reservationsSettledTotal := inc reg.reservationsSettledTotal scope 1 }

/-- What `reserve` records of its script's reply. -/
def recordReserve (scope : JsString) (reply : AdmitReply) (reg : Registry) : Registry :=
  let decided :=
    match reply.decision with
    | .admitted => reg.recordAdmission scope .admits
    | .shed reason _ => reg.recordAdmission scope (.shed reason)
  if reply.reclaimed > 0 then decided.recordLeaseReclaim scope reply.reclaimed else decided

/-- What `commit` records of its script's reply. -/
def recordCommit (scope : JsString) (reply : CommitReply) (reg : Registry) : Registry :=
  match reply.status with
  | .duplicateIgnored => reg
  | status =>
      let late := if status = .reconciledAfterExpiry then reg.recordLateCommit scope else reg
      let overrun :=
        if reply.refundedTokens < 0 then
          late.recordOverrun scope (-reply.refundedTokens).toNat
        else late
      overrun.recordSettled scope

/-- What a call records; one that fails records nothing. -/
def record (scope : JsString) (reply : Reply) (reg : Registry) : Registry :=
  match reply with
  | .reserve (.ok reply) => reg.recordReserve scope reply
  | .commit (.ok reply) => reg.recordCommit scope reply
  | _ => reg

/-- Admissions minus settlements minus reclaims. -/
def workInFlight (scope : JsString) (reg : Registry) : Int :=
  reg.admissionsTotal (scope, .admits) - reg.reservationsSettledTotal scope -
    reg.leaseReclaimsTotal scope

end Registry

/-- Was the call answered? -/
def answered : Reply → Bool
  | .reserve (.error _) => false
  | .commit (.error _) => false
  | _ => true

section Counting

variable {κ : Type} [DecidableEq κ]

@[simp] theorem inc_self (counter : κ → Nat) (labels : κ) (value : Nat) :
    inc counter labels value labels = counter labels + value := Function.update_self _ _ _

@[simp] theorem inc_of_ne {labels labels' : κ} (h : labels' ≠ labels) (counter : κ → Nat)
    (value : Nat) : inc counter labels value labels' = counter labels' :=
  Function.update_of_ne h _ _

/-- A reserve counts for the work in flight by its verdict and by what it has swept. -/
theorem workInFlight_recordReserve (scope : JsString) (reply : AdmitReply) (reg : Registry) :
    (reg.recordReserve scope reply).workInFlight scope =
      reg.workInFlight scope + (if reply.decision = .admitted then 1 else 0) -
        reply.reclaimed := by
  unfold Registry.recordReserve
  cases hdecision : reply.decision with
  | admitted =>
      rcases Nat.eq_zero_or_pos reply.reclaimed with hnone | hsome
      · simp [hnone, Registry.workInFlight, Registry.recordAdmission]
        omega
      · simp [hsome, Registry.workInFlight, Registry.recordAdmission,
          Registry.recordLeaseReclaim]
        omega
  | shed reason retryAfterMs =>
      have hlabels : ((scope, Outcome.admits) : JsString × Outcome) ≠ (scope, .shed reason) := by
        simp
      rcases Nat.eq_zero_or_pos reply.reclaimed with hnone | hsome
      · simp [hnone, Registry.workInFlight, Registry.recordAdmission, hlabels]
      · simp [hsome, Registry.workInFlight, Registry.recordAdmission,
          Registry.recordLeaseReclaim, hlabels]
        omega

/-- A first commit counts for the work in flight as one settlement, late or not. -/
theorem workInFlight_recordCommit (scope : JsString) {reply : CommitReply}
    (hfirst : reply.status ≠ .duplicateIgnored) (reg : Registry) :
    (reg.recordCommit scope reply).workInFlight scope = reg.workInFlight scope - 1 := by
  unfold Registry.recordCommit
  cases hstatus : reply.status with
  | duplicateIgnored => exact absurd hstatus hfirst
  | committed =>
      by_cases hover : reply.refundedTokens < 0
      · simp [hover, Registry.workInFlight, Registry.recordSettled, Registry.recordOverrun]
        omega
      · simp [hover, Registry.workInFlight, Registry.recordSettled]
        omega
  | reconciledAfterExpiry =>
      by_cases hover : reply.refundedTokens < 0
      · simp [hover, Registry.workInFlight, Registry.recordSettled, Registry.recordOverrun,
          Registry.recordLateCommit]
        omega
      · simp [hover, Registry.workInFlight, Registry.recordSettled, Registry.recordLateCommit]
        omega

end Counting

/-! ## One call -/

section Call

variable {Rid : Type} [LinearOrder Rid] {s : PairState Rid} {r : Request Rid} {rid : Rid}

/-- The first commit or release of a reservation that has no hold any more. -/
def late (s : PairState Rid) (r : Request Rid) : Bool :=
  match r.op.settles? with
  | some (rid, _) => (s.settled rid).get.isNone && (s.reservations.get rid).isNone
  | none => false

/-- A commit or release that is the first for its reservation finds the hold. -/
def FindsHold (s : PairState Rid) (r : Request Rid) : Prop :=
  ∀ rid actual, r.op.settles? = some (rid, actual) → s.settled rid = none →
    (s.reservations.get rid).isSome

/-- No lease is held under an id that the call is to draw. -/
def DrawsFree (s : PairState Rid) (r : Request Rid) : Prop :=
  ∀ rid tokens slo, r.op = .reserve rid tokens slo → s.leases.get rid = none

theorem late_settles {actual : NNRat} (hop : r.op.settles? = some (rid, actual)) :
    late s r = ((s.settled rid).get.isNone && (s.reservations.get rid).isNone) := by
  unfold late
  rw [hop]

theorem late_of_not_settles (hop : r.op.settles? = none) : late s r = false := by
  unfold late
  rw [hop]

theorem late_eq_false_iff : late s r = false ↔ FindsHold s r := by
  unfold FindsHold
  constructor
  · intro hlate rid actual hop hmarker
    rw [late_settles hop, hmarker] at hlate
    simpa [Option.isSome_iff_ne_none] using hlate
  · intro hfinds
    cases hop : r.op.settles? with
    | none => simp [late, hop]
    | some settle =>
        obtain ⟨rid, actual⟩ := settle
        rw [late_settles hop]
        cases hmarker : s.settled rid with
        | some marker => rfl
        | none => simpa [Option.isSome_iff_ne_none] using hfinds rid actual hop hmarker

/-- What calls leave is reachable. -/
theorem Reachable.step (h : Reachable s) (r : Request Rid) : Reachable (step s r) := by
  rcases op_cases r.op with ⟨rid, tokens, slo, hop⟩ | ⟨rid, actual, hop⟩ | hop
  · unfold Admission.step handle
    rw [hop]
    exact h.admitted _ _
  · obtain ⟨serviceMs, outputTokens, hhandle⟩ := handle_of_settles (s := s) hop
    unfold Admission.step
    rw [hhandle]
    exact h.commit _ _
  · rw [step_snapshot hop]
    exact h

/-- The reply to a reserve, with what it does to the leases. -/
theorem reserve_leases {tokens slo : NNRat} (hop : r.op = .reserve rid tokens slo)
    (hfresh : s.leases.get rid = none) :
    ∃ reply, (handle s r).2 = .reserve (.ok reply) ∧
      (step s r).leases.card + reply.reclaimed =
        s.leases.card + if reply.decision = .admitted then 1 else 0 := by
  obtain ⟨reply, hreply, hreport⟩ := admitScript_reply r.clock
    (admitArgs r.policy r.now rid (some (tokens : Rat)) (slo : Rat)) s rfl
  have hhandle : (handle s r).2 = .reserve (.ok reply) := by
    unfold handle
    rw [hop]
    exact congrArg Reply.reserve hreply
  refine ⟨reply, hhandle, ?_⟩
  have hcard := reclaim_card r.now reclaimBatch s
  have hcount : reply.reclaimed = (sweepOf s r).count := hreport.reclaimed
  change (sweepOf s r).state.leases.card + (sweepOf s r).count = s.leases.card at hcard
  rcases reserve_cases (s := s) hop with
    ⟨hadmitted, -, -, -, hleases, -⟩ | ⟨hshed, -, hleases, -⟩
  · have hdecision : reply.decision = .admitted := by simpa [hhandle, admitted] using hadmitted
    -- a sweep adds no lease, so the id is still free for the new one
    have hfree : (sweepOf s r).state.leases.get rid = none := by
      unfold sweepOf
      rw [reclaim_lease]
      split
      · rfl
      · exact hfresh
    rw [hleases, Collection.card_expire, Collection.card_put_of_get_eq_none hfree, hcount,
      if_pos hdecision]
    omega
  · have hdecision : reply.decision ≠ .admitted := by simpa [hhandle, admitted] using hshed
    rw [hleases, Collection.card_expire, hcount, if_neg hdecision]
    omega

/-- The reply to a first commit that is answered, with what it does to the leases. -/
theorem settle_leases {actual : NNRat} (hop : r.op.settles? = some (rid, actual))
    (hmatched : Matched s) (hmarker : s.settled rid = none)
    (hanswered : answered (handle s r).2 = true) :
    ∃ reply, (handle s r).2 = .commit (.ok reply) ∧ reply.status ≠ .duplicateIgnored ∧
      (step s r).leases.card + 1 = s.leases.card + if late s r then 1 else 0 := by
  obtain ⟨serviceMs, outputTokens, hhandle⟩ := handle_of_settles (s := s) hop
  have hstatus : ∀ reply, (handle s r).2 = .commit (.ok reply) →
      reply.status ≠ .duplicateIgnored := by
    intro reply hreply
    rw [hhandle] at hreply
    exact commitScript_status _ _ _ hmarker (Reply.commit.inj hreply)
  have hreply : ∃ reply, (handle s r).2 = .commit (.ok reply) := by
    rw [hhandle] at hanswered ⊢
    cases hscript : (commitScript r.clock (commitArgs r.policy r.now rid (some (actual : Rat))
        (some (serviceMs : Rat)) (some (outputTokens : Rat)) r.idempotencyTtl) s).2 with
    | ok reply => exact ⟨reply, rfl⟩
    | error e =>
        rw [hscript] at hanswered
        cases hanswered
  obtain ⟨reply, hreply⟩ := hreply
  refine ⟨reply, hreply, hstatus reply hreply, ?_⟩
  obtain ⟨-, settled, stats, hstep⟩ := settle_cases hop hmarker
  rw [hstep, late_settles hop, hmarker]
  cases hheld : s.reservations.get rid with
  | none =>
      rw [takeHold_of_get_eq_none hheld]
      simp
  | some held =>
      have hlease : ∃ deadline, s.leases.get rid = some deadline := by
        rw [← Option.ne_none_iff_exists']
        intro hnone
        rw [(hmatched.members rid).mp hnone] at hheld
        cases hheld
      obtain ⟨deadline, hlease⟩ := hlease
      simpa using takeHold_card hheld hlease

/-- A lease is taken by the reserve of its id only. -/
theorem step_lease_eq_none {k : Rid} (h : s.leases.get k = none)
    (hother : ∀ tokens slo, r.op ≠ .reserve k tokens slo) :
    (step s r).leases.get k = none := by
  have hswept : (sweepOf s r).state.leases.get k = none := by
    unfold sweepOf
    rw [reclaim_lease]
    split
    · rfl
    · exact h
  rcases op_cases r.op with ⟨rid, tokens, slo, hop⟩ | ⟨rid, actual, hop⟩ | hop
  · have hne : k ≠ rid := by
      rintro rfl
      exact hother tokens slo hop
    rcases reserve_cases (s := s) hop with ⟨-, -, -, -, hleases, -⟩ | ⟨-, -, hleases, -⟩
    · rw [hleases, Collection.get_expire, Collection.get_put_of_ne hne]
      exact hswept
    · rw [hleases, Collection.get_expire]
      exact hswept
  · cases hmarker : s.settled rid with
    | some marker =>
        rw [(settle_duplicate hop hmarker).2]
        exact h
    | none =>
        obtain ⟨-, settled, stats, hstep⟩ := settle_cases hop hmarker
        rw [hstep]
        show (takeHold rid s).leases.get k = none
        by_cases hk : k = rid
        · subst hk
          cases hheld : s.reservations.get k with
          | none =>
              rw [takeHold_of_get_eq_none hheld]
              exact h
          | some held => exact takeHold_lease_of_hold hheld
        · rw [takeHold_lease_of_ne hk]
          exact h
  · rw [step_snapshot hop]
    exact h

/-- A call leaves the ids free that later calls are to draw, unless it names them. -/
theorem DrawsFree.step {r' : Request Rid} (h : DrawsFree s r')
    (hfresh : ∀ rid tokens slo, r'.op = .reserve rid tokens slo → r.op.rid? ≠ some rid) :
    DrawsFree (step s r) r' := by
  intro rid tokens slo hop
  refine step_lease_eq_none (h rid tokens slo hop) ?_
  intro tokens' slo' hsame
  exact hfresh rid tokens slo hop (by rw [hsame]; rfl)

/-- A duplicate is not counted. -/
theorem record_duplicate (scope : JsString) (reg : Registry) {answer : Reply}
    (hduplicate : answeredDuplicate answer = true) : reg.record scope answer = reg := by
  unfold answeredDuplicate at hduplicate
  split at hduplicate
  next reply =>
    simp only [Registry.record, Registry.recordCommit, of_decide_eq_true hduplicate]
  next => cases hduplicate

/-- A call that is answered moves the derived work in flight as it moves the leases, but
for a late commit, which takes one off that is no longer there. -/
theorem workInFlight_step (scope : JsString) (reg : Registry) (hmatched : Matched s)
    (hanswered : answered (handle s r).2 = true)
    (hfresh : DrawsFree s r) :
    (reg.record scope (handle s r).2).workInFlight scope + (if late s r then 1 else 0) +
        s.leases.card =
      reg.workInFlight scope + (step s r).leases.card := by
  rcases op_cases r.op with ⟨rid, tokens, slo, hop⟩ | ⟨rid, actual, hop⟩ | hop
  · obtain ⟨reply, hreply, hleases⟩ := reserve_leases hop (hfresh rid tokens slo hop)
    have hrecord := workInFlight_recordReserve scope reply reg
    have hlate : late s r = false := late_of_not_settles (by rw [hop]; rfl)
    have hmoved : ((step s r).leases.card : Int) + reply.reclaimed =
        s.leases.card + if reply.decision = .admitted then 1 else 0 := by
      exact_mod_cast hleases
    rw [hreply, hlate]
    unfold Registry.record
    rw [hrecord]
    simp only [Bool.false_eq_true, if_false, add_zero]
    linarith
  · cases hmarker : s.settled rid with
    | some marker =>
        obtain ⟨hduplicate, hsame⟩ := settle_duplicate hop hmarker
        have hrecord := record_duplicate scope reg hduplicate
        have hlate : late s r = false := by
          rw [late_settles hop, hmarker]
          rfl
        rw [hrecord, hsame, hlate]
        simp
    | none =>
        obtain ⟨reply, hreply, hfirst, hleases⟩ := settle_leases hop hmatched hmarker hanswered
        have hrecord := workInFlight_recordCommit scope hfirst reg
        have hmoved : ((step s r).leases.card : Int) + 1 =
            s.leases.card + if late s r then 1 else 0 := by
          exact_mod_cast hleases
        rw [hreply]
        unfold Registry.record
        rw [hrecord]
        linarith
  · have hreply : (handle s r).2 = .snapshot (snapshotScript (snapshotArgs r.policy r.now) s) := by
      unfold handle
      rw [hop]
    have hlate : late s r = false := late_of_not_settles (by rw [hop]; rfl)
    rw [hreply, step_snapshot hop, hlate]
    simp [Registry.record]

end Call

/-! ## All replicas and all pairs -/

/-- The database and what has been counted. -/
structure Observed where
  keys : Keyspace
  registry : Registry

/-- A fresh database, and nothing counted. -/
def Observed.start : Observed := ⟨.empty, .zero⟩

/-- A call for a pair governed by `scope`, on a server that loses no key, with what its
replica records. -/
def serveRecorded (scope : JsString) (o : Observed) (call : PairCall) : Observed :=
  let out := handle (o.keys.load call.1) call.2
  { keys := o.keys.store call.1 out.1
    registry := o.registry.record scope out.2 }

/-- The leases stored under a name. -/
def Keyspace.leaseCount (ks : Keyspace) (name : JsString) : Nat :=
  (((ks.lookup name).bind Stored.leases?).getD .absent).card

/-- The leases held for some pairs; those of pairs that share their keys count once. -/
def leasesHeld (pairs : Finset Pair) (ks : Keyspace) : Nat :=
  ∑ name ∈ pairs.image fun pair => keyName pair .leases, ks.leaseCount name

/-- The call is answered. -/
def Answered (o : Observed) (call : PairCall) : Prop :=
  answered (handle (o.keys.load call.1) call.2).2 = true

/-- One for a late commit. -/
def lateness (o : Observed) (call : PairCall) : Nat :=
  if late (o.keys.load call.1) call.2 then 1 else 0

section Runs

variable {scope : JsString} {o : Observed} {call : PairCall} {calls : List PairCall}
  {pairs : Finset Pair}

theorem lateness_eq_zero_iff (o : Observed) (call : PairCall) :
    lateness o call = 0 ↔ FindsHold (o.keys.load call.1) call.2 := by
  rw [← late_eq_false_iff]
  unfold lateness
  split
  next hlate => simp [hlate]
  next hlate => simp [hlate]

theorem leaseCount_store (ks : Keyspace) (pair : Pair) (s : PairState ReservationId) :
    (ks.store pair s).leaseCount (keyName pair .leases) = s.leases.card := by
  have hload := congrArg PairState.leases (Keyspace.load_store ks pair s)
  exact congrArg Collection.card hload

/-- Writing a pair moves the leases held as it moves those of the pair. -/
theorem leasesHeld_store {pair : Pair} (hpair : pair ∈ pairs) (ks : Keyspace)
    (s : PairState ReservationId) :
    leasesHeld pairs (ks.store pair s) + (ks.load pair).leases.card =
      leasesHeld pairs ks + s.leases.card := by
  have hmem : keyName pair .leases ∈ pairs.image fun pair => keyName pair .leases :=
    Finset.mem_image_of_mem _ hpair
  have hothers : ∑ name ∈ (pairs.image fun pair => keyName pair .leases).erase
        (keyName pair .leases), (ks.store pair s).leaseCount name =
      ∑ name ∈ (pairs.image fun pair => keyName pair .leases).erase
        (keyName pair .leases), ks.leaseCount name := by
    refine Finset.sum_congr rfl ?_
    intro name hname
    obtain ⟨hne, hname⟩ := Finset.mem_erase.mp hname
    obtain ⟨pair', -, rfl⟩ := Finset.mem_image.mp hname
    have hjoin : ∀ key key', keyName pair key ≠ keyName pair' key' := by
      intro key key' hsame
      refine hne (keyName_eq_keyName_iff.mpr ⟨?_, rfl⟩)
      exact (keyName_eq_keyName_iff.mp hsame).1.symm
    have hload := congrArg PairState.leases (Keyspace.load_store_of_ne hjoin ks s)
    exact congrArg Collection.card hload
  unfold leasesHeld
  rw [← Finset.add_sum_erase _ _ hmem, ← Finset.add_sum_erase _ _ hmem, hothers,
    leaseCount_store]
  show _ + ks.leaseCount (keyName pair .leases) = _
  omega

/-- What is known in a run before the calls still to come: the keys of every pair are
reachable, and no pair has a lease of an id that is still to be drawn. -/
structure Booked (o : Observed) (calls : List PairCall) : Prop where
  reachable : ∀ pair, Reachable (o.keys.load pair)
  free : ∀ pair, ∀ call ∈ calls, DrawsFree (o.keys.load pair) call.2

theorem Booked.step (h : Booked o (call :: calls))
    (hfresh : FreshIds ((call :: calls).map Prod.snd)) :
    Booked (serveRecorded scope o call) calls := by
  have hlater := (List.pairwise_cons.mp hfresh).1
  have hkeys : ∀ pair,
      (serveRecorded scope o call).keys.load pair = Admission.step (o.keys.load call.1) call.2 ∨
        (serveRecorded scope o call).keys.load pair = o.keys.load pair :=
    fun pair => Keyspace.load_store_or _ _ _ _
  refine ⟨?_, ?_⟩
  · intro pair
    rcases hkeys pair with hnew | hold
    · rw [hnew]
      exact (h.reachable call.1).step call.2
    · rw [hold]
      exact h.reachable pair
  · intro pair later hmem
    rcases hkeys pair with hnew | hold
    · rw [hnew]
      refine (h.free call.1 later (List.mem_cons_of_mem call hmem)).step ?_
      exact hlater later.2 (List.mem_map_of_mem hmem)
    · rw [hold]
      exact h.free pair later (List.mem_cons_of_mem call hmem)

/-- Over a run the derived work in flight, with one put back for every late commit, moves
as the leases held. -/
theorem workInFlight_run (hpairs : ∀ call ∈ calls, call.1 ∈ pairs)
    (hfresh : FreshIds (calls.map Prod.snd)) (hbooked : Booked o calls)
    (hanswered : Along (serveRecorded scope) Answered o calls) :
    (run (serveRecorded scope) o calls).registry.workInFlight scope +
        (tally (serveRecorded scope) lateness o calls : Nat) + leasesHeld pairs o.keys =
      o.registry.workInFlight scope +
        leasesHeld pairs (run (serveRecorded scope) o calls).keys := by
  induction calls generalizing o with
  | nil => simp
  | cons call calls ih =>
      obtain ⟨hpair, hpairs⟩ := List.forall_mem_cons.mp hpairs
      have hrest := ih hpairs (List.pairwise_cons.mp hfresh).2 (hbooked.step hfresh) hanswered.2
      have hcall := workInFlight_step scope o.registry (hbooked.reachable call.1).matched
        hanswered.1 (hbooked.free call.1 call List.mem_cons_self)
      have hheld := leasesHeld_store hpair o.keys (step (o.keys.load call.1) call.2)
      have hlate : ((lateness o call : Nat) : Int) =
          if late (o.keys.load call.1) call.2 then 1 else 0 := by
        unfold lateness
        split <;> rfl
      change (serveRecorded scope o call).registry.workInFlight scope + _ + _ = _ at hcall
      change leasesHeld pairs (serveRecorded scope o call).keys + _ = _ at hheld
      rw [run_cons, tally_cons, Nat.cast_add, hlate]
      omega

theorem booked_start (calls : List PairCall) : Booked .start calls := by
  refine ⟨fun pair => .empty, ?_⟩
  intro pair call hmem rid tokens slo hop
  rfl

theorem leasesHeld_start (pairs : Finset Pair) : leasesHeld pairs Observed.start.keys = 0 :=
  Finset.sum_eq_zero fun _ _ => rfl

end Runs

/-- **Work in flight.**  After any run of answered calls on the pairs of one scope,
admissions minus settlements minus reclaims are the leases held exactly when every commit
or release that was the first for its reservation still found the hold. -/
theorem work_in_flight_exact (scope : JsString) (pairs : Finset Pair) (calls : List PairCall)
    (hpairs : ∀ call ∈ calls, call.1 ∈ pairs) (hfresh : FreshIds (calls.map Prod.snd))
    (hanswered : Along (serveRecorded scope) Answered .start calls) :
    (run (serveRecorded scope) .start calls).registry.workInFlight scope =
        leasesHeld pairs (run (serveRecorded scope) .start calls).keys ↔
      Along (serveRecorded scope) (fun o call => FindsHold (o.keys.load call.1) call.2) .start
        calls := by
  have hrun := workInFlight_run hpairs hfresh (booked_start calls) hanswered
  have hzero : Observed.start.registry.workInFlight scope = 0 := rfl
  rw [leasesHeld_start, hzero] at hrun
  rw [← along_congr _ fun call _ o => lateness_eq_zero_iff o call, ← tally_eq_zero_iff]
  omega

/-! ## A commit after its lease -/

/-- Reservation ids for the runs below. -/
def reservationId (text : String) (h : ¬ [unit '\x7d', unit ':'] <:+: js text) : ReservationId :=
  ⟨js text, h⟩

def firstId : ReservationId := reservationId "1" (by decide +kernel)

def secondId : ReservationId := reservationId "2" (by decide +kernel)

/-- The one pair of the runs below. -/
def acmeGpt : Pair := (js "acme", js "gpt")

/-- A call on the pair under the default limits. -/
def acmeCall (now : Int) (op : Op ReservationId) : PairCall :=
  (acmeGpt, callAt defaultLimits now op)

/-- A reserve and its commit leave no work in flight. -/
theorem work_in_flight_exact_reserve_commit :
    (run (serveRecorded (js "default")) .start
        [acmeCall 0 (.reserve firstId 500 0),
          acmeCall 1000 (.commit firstId 400 0 0)]).registry.workInFlight (js "default") =
      leasesHeld {acmeGpt} (run (serveRecorded (js "default")) .start
        [acmeCall 0 (.reserve firstId 500 0), acmeCall 1000 (.commit firstId 400 0 0)]).keys := by
  refine (work_in_flight_exact (js "default") {acmeGpt} _ (by simp [acmeCall])
    (by simp [FreshIds, acmeCall, callAt]) ?_).mpr ?_
  · refine ⟨?_, ?_, trivial⟩
    · show answered _ = true
      decide +kernel
    · show answered _ = true
      decide +kernel
  · refine ⟨?_, ?_, trivial⟩
    · exact late_eq_false_iff.mp (by decide +kernel)
    · exact late_eq_false_iff.mp (by decide +kernel)

/-- Every id that is committed or released was handed out by an admitted reserve for the
same pair; `ids` are those handed out so far. -/
def idsReturned (scope : JsString) : Observed → List (Pair × ReservationId) → List PairCall → Bool
  | _, _, [] => true
  | o, ids, call :: calls =>
      let returned :=
        match call.2.op with
        | .reserve rid _ _ =>
            if admitted (handle (o.keys.load call.1) call.2).2 then (call.1, rid) :: ids else ids
        | _ => ids
      (match call.2.op.settles? with
        | some (rid, _) => decide ((call.1, rid) ∈ ids)
        | none => true) && idsReturned scope (serveRecorded scope o call) returned calls

/-- A reservation whose lease is swept by the next reserve before its commit arrives. -/
def lateCommit : List PairCall :=
  [acmeCall 0 (.reserve firstId 600 0), acmeCall 120000 (.reserve secondId 600 0),
    acmeCall 120001 (.commit firstId 400 0 0)]

theorem lateCommit_fresh : FreshIds (lateCommit.map Prod.snd) := by
  have hne : firstId ≠ secondId := by decide +kernel
  simp only [FreshIds, lateCommit, acmeCall, callAt, Op.rid?, List.map_cons, List.map_nil,
    List.pairwise_cons, List.Pairwise.nil, List.forall_mem_cons, and_true]
  refine ⟨⟨?_, ?_, by simp⟩, ⟨by simp, by simp⟩, by simp⟩
  · intro rid tokens slo hop hnames
    cases hop
    exact hne (Option.some.inj hnames)
  · intro rid tokens slo hop
    cases hop

/-- A lease that has ended is swept by the next reserve and its commit comes late: one
request is in flight, and the counters say none. -/
theorem late_commit_counted_twice :
    ¬ ∀ (scope : JsString) (pairs : Finset Pair) (calls : List PairCall),
      (∀ call ∈ calls, call.1 ∈ pairs) → FreshIds (calls.map Prod.snd) →
      idsReturned scope .start [] calls = true →
      Along (serveRecorded scope) Answered .start calls →
      (run (serveRecorded scope) .start calls).registry.workInFlight scope =
        leasesHeld pairs (run (serveRecorded scope) .start calls).keys := by
  intro h
  have hformula := h (js "default") {acmeGpt} lateCommit (by simp [lateCommit, acmeCall])
    lateCommit_fresh (by decide +kernel) ?_
  · revert hformula
    decide +kernel
  · refine ⟨?_, ?_, ?_, trivial⟩
    · show answered _ = true
      decide +kernel
    · show answered _ = true
      decide +kernel
    · show answered _ = true
      decide +kernel

end RateLimiter.Admission
