import Mathlib.Algebra.Order.Floor.Ring
import Mathlib.Data.Rat.Floor
import RateLimiter.Admission.Policy
import RateLimiter.Redis.Keys

/-!
# The three scripts of the admission protocol

`ADMIT_SCRIPT`, `COMMIT_SCRIPT` and `SNAPSHOT_SCRIPT`, each as one function of
the keys of a (tenant, model) pair and of its arguments.  Lua numbers are exact
rationals, so `tostring` and `tonumber` lose nothing; an argument that is not a
numeral reads as `none`, which is `tonumber`'s `nil`.

A `redis.call` that raises, and an operation on `nil`, end the script where it
stands.  What it has written by then stays written, so a script answers with the
state it leaves and either its reply or the error.

Besides the caller's `now` every script has the `clock` of the server, which is
what times to live are counted from.
-/

namespace RateLimiter.Admission

open RateLimiter.Redis RateLimiter.Javascript

/-! ## The keys of a pair -/

/-- The fields of the stats hash. -/
inductive StatField
  | svcMs
  | outTokens
  | outPeak
deriving DecidableEq, Repr

/-- The keys of one (tenant, model) pair, with the settled markers of all its
reservations. -/
structure PairState (Rid : Type) where
  tpm : StringKey Rat
  tpmTs : StringKey Int
  rpm : StringKey Rat
  rpmTs : StringKey Int
  leases : SortedSet Rid
  reservations : Hash Rid Rat
  stats : Hash StatField Rat
  settled : Rid → StringKey Rat

/-- Why a script stopped. -/
inductive ScriptError
  /-- `attempt to compare number with nil` -/
  | compareNil
  /-- `attempt to perform arithmetic on a nil value` -/
  | arithmeticOnNil
  /-- `invalid expire time` or `value is not an integer` from `SET ... EX` -/
  | invalidExpire
deriving DecidableEq, Repr

namespace PairState

variable {Rid : Type}

/-- No key of the pair exists. -/
def empty : PairState Rid where
  tpm := none
  tpmTs := none
  rpm := none
  rpmTs := none
  leases := .absent
  reservations := .absent
  stats := .absent
  settled := fun _ => none

/-- What is left of the keys at the server's `clock`. -/
def purge (clock : Int) (s : PairState Rid) : PairState Rid where
  tpm := s.tpm.purge clock
  tpmTs := s.tpmTs.purge clock
  rpm := s.rpm.purge clock
  rpmTs := s.rpmTs.purge clock
  leases := s.leases.purge clock
  reservations := s.reservations.purge clock
  stats := s.stats.purge clock
  settled := fun rid => (s.settled rid).purge clock

end PairState

/-! ## Accrual -/

/-- `refill`: the balance at `now`, full when either of its keys is missing. -/
def refill (now : Int) (bal : Option Rat) (ts : Option Int) (capacity rate : Rat) : Rat :=
  match bal, ts with
  | some bal, some ts => min (bal + (max 0 (now - ts) : Int) / 1000 * rate) capacity
  | _, _ => capacity

/-! ## `ADMIT_SCRIPT` -/

/-- The arguments of `ADMIT_SCRIPT`. -/
structure AdmitArgs (Rid : Type) where
  now : Int
  tpmLimit : Rat
  tpmRate : Rat
  rpmLimit : Rat
  rpmRate : Rat
  reserve : Option Rat
  rid : Rid
  leaseMs : Int
  maxConcurrency : Nat
  maxQueue : Nat
  sloTtftMs : Rat
  ttl : Nat
  reclaimBatch : Nat
  defaultSvcMs : Rat

inductive ShedReason
  | unsatisfiable
  | rpmExhausted
  | tpmExhausted
  | queueFull
  | sloInfeasible
deriving DecidableEq, Repr

/-- The verdict, with `retry_after_ms` when the request is shed. -/
inductive Decision
  | admitted
  | shed (reason : ShedReason) (retryAfterMs : Int)
deriving DecidableEq, Repr

structure AdmitReply where
  decision : Decision
  reserved : Int
  tokensRemaining : Int
  requestsRemaining : Int
  inflight : Nat
  predictedWaitMs : Int
  reclaimed : Nat
deriving DecidableEq, Repr

/-- A Lua number in a reply: the server drops the fraction. -/
def replyInteger (q : Rat) : Int := if 0 ≤ q then ⌊q⌋ else ⌈q⌉

section Admit

variable {Rid : Type} [LinearOrder Rid]

/-- The state of the reclaiming loop. -/
structure Sweep (Rid : Type) where
  state : PairState Rid
  tokens : Rat
  count : Nat

/-- The body of the reclaiming loop. -/
def reclaimOne (sweep : Sweep Rid) (rid : Rid) : Sweep Rid :=
  let s := sweep.state
  match s.reservations.get rid with
  | some held =>
      { state := { s with reservations := s.reservations.del rid, leases := s.leases.del rid }
        tokens := sweep.tokens + held
        count := sweep.count + 1 }
  | none =>
      { state := { s with leases := s.leases.del rid }
        tokens := sweep.tokens
        count := sweep.count + 1 }

/-- Phase 1: reclaim leases whose owner never came back. -/
def reclaim (now : Int) (batch : Nat) (s : PairState Rid) : Sweep Rid :=
  (s.leases.rangeByScore now batch).foldl reclaimOne ⟨s, 0, 0⟩

/-- The token balance the decision is taken on: refilled, with the reclaimed
holds paid back. -/
def tpmBalance (a : AdmitArgs Rid) (s : PairState Rid) : Rat :=
  min (refill a.now s.tpm.get s.tpmTs.get a.tpmLimit a.tpmRate +
    (reclaim a.now a.reclaimBatch s).tokens) a.tpmLimit

/-- The request balance the decision is taken on. -/
def rpmBalance (a : AdmitArgs Rid) (s : PairState Rid) : Rat :=
  refill a.now s.rpm.get s.rpmTs.get a.rpmLimit a.rpmRate

/-- Service time the wait is predicted from. -/
def avgSvc (a : AdmitArgs Rid) (s : PairState Rid) : Rat :=
  (s.stats.get .svcMs).getD a.defaultSvcMs

/-- A request only waits once every slot is busy. -/
def predictedWait (a : AdmitArgs Rid) (inflight : Nat) (avg : Rat) : Int :=
  if a.maxConcurrency ≤ inflight then
    ⌈((inflight : Rat) + 1 - a.maxConcurrency) / a.maxConcurrency * avg⌉
  else 0

/-- The chain of checks, in the order of the script. -/
def decideAdmission (a : AdmitArgs Rid) (reserve tpmBal rpmBal avg : Rat) (inflight : Nat) :
    Decision :=
  if reserve > a.tpmLimit then .shed .unsatisfiable 0
  else if rpmBal < 1 then .shed .rpmExhausted ⌈(1 - rpmBal) / a.rpmRate * 1000⌉
  else if tpmBal < reserve then .shed .tpmExhausted ⌈(reserve - tpmBal) / a.tpmRate * 1000⌉
  else if inflight ≥ a.maxConcurrency + a.maxQueue then .shed .queueFull ⌈avg⌉
  else if a.sloTtftMs > 0 ∧ (predictedWait a inflight avg : Rat) > a.sloTtftMs then
    .shed .sloInfeasible ⌈avg⌉
  else .admitted

/-- Balances are persisted on both paths. -/
def persist (clock : Int) (a : AdmitArgs Rid) (tpmBal rpmBal : Rat) (s : PairState Rid) :
    PairState Rid :=
  { s with
    tpm := .setEx clock tpmBal a.ttl
    tpmTs := .setEx clock a.now a.ttl
    rpm := .setEx clock rpmBal a.ttl
    rpmTs := .setEx clock a.now a.ttl
    leases := s.leases.expire clock a.ttl
    reservations := s.reservations.expire clock a.ttl }

/-- `ADMIT_SCRIPT`. -/
def admitScript (clock : Int) (a : AdmitArgs Rid) (s : PairState Rid) :
    PairState Rid × Except ScriptError AdmitReply :=
  let swept := reclaim a.now a.reclaimBatch s
  let tpmBal := tpmBalance a s
  let rpmBal := rpmBalance a s
  let inflight := swept.state.leases.card
  let avg := avgSvc a s
  match a.reserve with
  -- `reserve > tpm_limit` raises on nil, after the sweep and before any balance is written
  | none => (swept.state, .error .compareNil)
  | some reserve =>
      match decideAdmission a reserve tpmBal rpmBal avg inflight with
      | .admitted =>
          let held :=
            { swept.state with
              leases := swept.state.leases.put a.rid (a.now + a.leaseMs)
              reservations := swept.state.reservations.put a.rid reserve }
          (persist clock a (tpmBal - reserve) (rpmBal - 1) held,
            .ok
              { decision := .admitted
                reserved := replyInteger reserve
                tokensRemaining := ⌊tpmBal - reserve⌋
                requestsRemaining := ⌊rpmBal - 1⌋
                inflight := inflight + 1
                predictedWaitMs := predictedWait a inflight avg
                reclaimed := swept.count })
      | .shed reason retryAfterMs =>
          (persist clock a tpmBal rpmBal swept.state,
            .ok
              { decision := .shed reason retryAfterMs
                reserved := replyInteger reserve
                tokensRemaining := ⌊tpmBal⌋
                requestsRemaining := ⌊rpmBal⌋
                inflight := inflight
                predictedWaitMs := predictedWait a inflight avg
                reclaimed := swept.count })

end Admit

/-! ## `COMMIT_SCRIPT` -/

/-- The arguments of `COMMIT_SCRIPT`. -/
structure CommitArgs (Rid : Type) where
  now : Int
  rid : Rid
  actual : Option Rat
  tpmLimit : Rat
  ttl : Nat
  serviceMs : Option Rat
  outputTokens : Option Rat
  alpha : Rat
  idemTtl : JsNumber

inductive CommitStatus
  | committed
  | reconciledAfterExpiry
  | duplicateIgnored
deriving DecidableEq, Repr

structure CommitReply where
  status : CommitStatus
  refundedTokens : Int
  tokensRemaining : Int
  inflight : Nat
deriving DecidableEq, Repr

/-- The seconds `SET ... EX` takes from a number: a positive integer whose
instant of expiry still fits the server's 64-bit milliseconds. -/
def acceptedTtl (clock : Int) : JsNumber → Option Nat
  | .finite q =>
      if q.den = 1 ∧ 1 ≤ q.num ∧ 1000 * q.num ≤ 9223372036854775807 ∧
          clock + 1000 * q.num ≤ 9223372036854775807 then
        some q.num.toNat
      else none
  | _ => none

section Commit

variable {Rid : Type} [LinearOrder Rid]

/-- `current_balance`: the rate is derived from the limit. -/
def currentBalance (a : CommitArgs Rid) (s : PairState Rid) : Rat :=
  refill a.now s.tpm.get s.tpmTs.get a.tpmLimit (a.tpmLimit / 60)

/-- The newest sample weighted into an average, or the sample itself. -/
def ewma (alpha sample : Rat) (prev : Option Rat) : Rat :=
  match prev with
  | some prev => alpha * sample + (1 - alpha) * prev
  | none => sample

/-- Calibrate the wait predictor. -/
def observeService (alpha serviceMs : Rat) (stats : Hash StatField Rat) : Hash StatField Rat :=
  if serviceMs > 0 then
    stats.put .svcMs (ewma alpha serviceMs (stats.get .svcMs))
  else stats

/-- Calibrate the output-length estimator. -/
def observeOutput (alpha outputTokens : Rat) (stats : Hash StatField Rat) :
    Hash StatField Rat :=
  if outputTokens > 0 then
    let averaged := stats.put .outTokens (ewma alpha outputTokens (stats.get .outTokens))
    if outputTokens > (averaged.get .outPeak).getD 0 then
      averaged.put .outPeak outputTokens
    else averaged
  else stats

/-- Take the hold and the lease of a reservation that still has them. -/
def takeHold (rid : Rid) (s : PairState Rid) : PairState Rid :=
  match s.reservations.get rid with
  | some _ => { s with reservations := s.reservations.del rid, leases := s.leases.del rid }
  | none => s

/-- `COMMIT_SCRIPT`. -/
def commitScript (clock : Int) (a : CommitArgs Rid) (s : PairState Rid) :
    PairState Rid × Except ScriptError CommitReply :=
  match (s.settled a.rid).get with
  -- a replay: report the balance as it stands, and leave the refill clock alone
  | some settledRefund =>
      (s, .ok
        { status := .duplicateIgnored
          refundedTokens := ⌊settledRefund⌋
          tokensRemaining := ⌊currentBalance a s⌋
          inflight := s.leases.card })
  | none =>
      let held := s.reservations.get a.rid
      let taken := takeHold a.rid s
      match a.actual with
      -- `held - actual` raises with the hold already taken
      | none => (taken, .error .arithmeticOnNil)
      | some actual =>
          let refund := held.getD 0 - actual
          let bal := min (currentBalance a s + refund) a.tpmLimit
          let paid :=
            { taken with
              tpm := .setEx clock bal a.ttl
              tpmTs := .setEx clock a.now a.ttl }
          match acceptedTtl clock a.idemTtl with
          -- the balance and its clock are stored, the marker is not
          | none => (paid, .error .invalidExpire)
          | some idem =>
              let marked :=
                { paid with
                  settled := Function.update paid.settled a.rid (.setEx clock refund idem) }
              match a.serviceMs with
              -- settled from here on: only the averages and their expiry are still to come
              | none => (marked, .error .compareNil)
              | some serviceMs =>
                  let served :=
                    { marked with stats := observeService a.alpha serviceMs marked.stats }
                  match a.outputTokens with
                  | none => (served, .error .compareNil)
                  | some outputTokens =>
                      let stats := observeOutput a.alpha outputTokens served.stats
                      ({ served with stats := stats.expire clock a.ttl },
                        .ok
                          { status := if held.isSome then .committed else .reconciledAfterExpiry
                            refundedTokens := ⌊refund⌋
                            tokensRemaining := ⌊bal⌋
                            inflight := taken.leases.card })

end Commit

/-! ## `SNAPSHOT_SCRIPT` -/

/-- The arguments of `SNAPSHOT_SCRIPT`. -/
structure SnapshotArgs where
  now : Int
  tpmLimit : Rat
  tpmRate : Rat
  rpmLimit : Rat
  rpmRate : Rat
  defaultSvcMs : Rat

structure SnapshotReply where
  tokensRemaining : Int
  requestsRemaining : Int
  inflight : Nat
  expiredLeasesPending : Nat
  avgServiceMs : Int
  avgOutputTokens : Int
  peakOutputTokens : Int
deriving DecidableEq, Repr

/-- `SNAPSHOT_SCRIPT`: it writes nothing. -/
def snapshotScript {Rid : Type} [LinearOrder Rid] (a : SnapshotArgs) (s : PairState Rid) :
    SnapshotReply where
  tokensRemaining := ⌊refill a.now s.tpm.get s.tpmTs.get a.tpmLimit a.tpmRate⌋
  requestsRemaining := ⌊refill a.now s.rpm.get s.rpmTs.get a.rpmLimit a.rpmRate⌋
  inflight := s.leases.card
  expiredLeasesPending := s.leases.countByScore a.now
  avgServiceMs := ⌊(s.stats.get .svcMs).getD a.defaultSvcMs⌋
  avgOutputTokens := ⌊(s.stats.get .outTokens).getD 0⌋
  peakOutputTokens := ⌊(s.stats.get .outPeak).getD 0⌋

end RateLimiter.Admission
