import Mathlib.Data.Nat.Digits.Defs
import RateLimiter.Admission.Estimator
import RateLimiter.Admission.Scripts
import RateLimiter.Javascript.Maps
import RateLimiter.Redis.Numbers

/-!
# The simulator of the published page

The page runs the admission protocol in the browser: its own copy of the estimator, of
`ADMIT_SCRIPT` and of `COMMIT_SCRIPT`, on JavaScript maps and on a clock that starts with
it.  It rounds every operation as the scripts do, and keeps what comes out as it is.  What
the page only displays is left out.
-/

namespace RateLimiter.Simulator

open RateLimiter.Redis RateLimiter.Javascript RateLimiter.Admission

/-- `RECLAIM_BATCH`. -/
def reclaimBatch : Nat := 32

/-- `EWMA_ALPHA`. -/
def ewmaAlpha : Rat := 1 / 5

/-- `COLD_START_SERVICE_MS`. -/
def coldStartServiceMs : Rat := 2000

/-- The state `S`. -/
structure PageState where
  tpm : Rat
  tpmTs : Rat
  rpm : Rat
  rpmTs : Rat
  /-- Expiry by id. -/
  leases : JsMap JsString Rat
  /-- Tokens held by id. -/
  res : JsMap JsString Rat
  /-- Refund by id. -/
  settled : JsMap JsString Rat
  svcMs : Option Rat
  outTokens : Option Rat
  spent : Rat

/-- The page: the policy and the SLO its controls are set to, the ids it has given out and
its state. -/
structure Page where
  policy : Limits
  sloTtftMs : Rat
  seq : Nat
  state : PageState

def freshState (policy : Limits) : PageState where
  tpm := policy.tokensPerMinute
  tpmTs := 0
  rpm := policy.requestsPerMinute
  rpmTs := 0
  leases := .empty
  res := .empty
  settled := .empty
  svcMs := none
  outTokens := none
  spent := 0

def refill (num : Arithmetic) (bal ts capacity ratePerSec t : Rat) : Rat :=
  let seconds := num.rnd (max 0 (num.rnd (t - ts)) / 1000)
  min (num.rnd (bal + num.rnd (seconds * ratePerSec))) capacity

def estimate (num : Arithmetic) (policy : Limits) (outTokens : Option Rat)
    (promptTokens maxOutputTokens : Rat) : ReservationEstimate Rat :=
  let worst := num.rnd (promptTokens + maxOutputTokens)
  match policy.reservationMode with
  | .worstCase => ⟨worst, worst, .worstCase⟩
  | .adaptive =>
      match outTokens with
      | none => ⟨worst, worst, .coldStart⟩
      | some ewma =>
          if ewma = 0 ∨ ewma ≤ 0 then ⟨worst, worst, .coldStart⟩
          else
            let projected := ⌈num.rnd (ewma * policy.reservationSafetyFactor)⌉
            let out := min maxOutputTokens ((max projected 1 : Int) : Rat)
            ⟨num.rnd (promptTokens + out), worst, .observed⟩

/-! ## Ids -/

def base36Digit (d : Nat) : CodeUnit := if d < 10 then codeUnit (48 + d) else codeUnit (87 + d)

/-- `n.toString(36)`. -/
def base36 (n : Nat) : JsString :=
  if n = 0 then [base36Digit 0] else ((Nat.digits 36 n).map base36Digit).reverse

def padStart (length : Nat) (pad : CodeUnit) (text : JsString) : JsString :=
  List.replicate (length - text.length) pad ++ text

/-- The id of the `n`-th reservation. -/
def reservationId (n : Nat) : JsString := js "r" ++ padStart 3 (unit '0') (base36 n)

/-! ## `admit` -/

/-- The ids of the leases that are over, oldest entries first, at most a batch of them. -/
def expired (t : Rat) (leases : JsMap JsString Rat) : List JsString :=
  ((leases.entries.filter fun e => e.2 ≤ t).take reclaimBatch).map Prod.fst

structure Sweep where
  leases : JsMap JsString Rat
  res : JsMap JsString Rat
  reclaimedTokens : Rat
  reclaimedCount : Nat

section Admit

variable (num : Arithmetic)

/-- The body of the sweep. -/
def sweepOne (swept : Sweep) (id : JsString) : Sweep :=
  match swept.res.get id with
  | some held =>
      { leases := swept.leases.delete id
        res := swept.res.delete id
        reclaimedTokens := num.rnd (swept.reclaimedTokens + held)
        reclaimedCount := swept.reclaimedCount + 1 }
  | none =>
      { swept with
        leases := swept.leases.delete id
        reclaimedCount := swept.reclaimedCount + 1 }

/-- Phase 1: bounded sweep of expired leases. -/
def sweep (t : Rat) (s : PageState) : Sweep :=
  (expired t s.leases).foldl (sweepOne num) ⟨s.leases, s.res, 0, 0⟩

def tpmBalance (t : Rat) (p : Limits) (s : PageState) : Rat :=
  min (num.rnd (refill num s.tpm s.tpmTs p.tokensPerMinute (num.rnd (p.tokensPerMinute / 60)) t +
    (sweep num t s).reclaimedTokens)) p.tokensPerMinute

def rpmBalance (t : Rat) (p : Limits) (s : PageState) : Rat :=
  refill num s.rpm s.rpmTs p.requestsPerMinute (num.rnd (p.requestsPerMinute / 60)) t

def avgSvc (s : PageState) : Rat :=
  match s.svcMs with
  | none => coldStartServiceMs
  | some svcMs => svcMs

def predictedWait (p : Limits) (inflight : Nat) (avg : Rat) : Int :=
  if inflight ≥ p.maxConcurrency then
    ⌈num.rnd (num.rnd (((inflight : Rat) + 1 - p.maxConcurrency) / p.maxConcurrency) * avg)⌉
  else 0

/-- The chain of checks. -/
def decideAdmit (p : Limits) (sloTtftMs reserve tpmBal rpmBal avg : Rat) (inflight : Nat) :
    Decision :=
  let tpmRate := num.rnd ((p.tokensPerMinute : Rat) / 60)
  let rpmRate := num.rnd ((p.requestsPerMinute : Rat) / 60)
  if reserve > p.tokensPerMinute then .shed .unsatisfiable 0
  else if rpmBal < 1 then
    .shed .rpmExhausted ⌈num.rnd (num.rnd (num.rnd (1 - rpmBal) / rpmRate) * 1000)⌉
  else if tpmBal < reserve then
    .shed .tpmExhausted ⌈num.rnd (num.rnd (num.rnd (reserve - tpmBal) / tpmRate) * 1000)⌉
  else if inflight ≥ p.maxConcurrency + p.maxQueueDepth then .shed .queueFull ⌈avg⌉
  else if sloTtftMs > 0 ∧ (predictedWait num p inflight avg : Rat) > sloTtftMs then
    .shed .sloInfeasible ⌈avg⌉
  else .admitted

structure AdmitReturn where
  decision : Decision
  id : Option JsString
  reserve : Rat
  basis : Basis
  predictedWait : Int

/-- The page's `admit`. -/
def pageAdmit (t promptTokens maxOutputTokens : Rat) (page : Page) : Page × AdmitReturn :=
  let p := page.policy
  let s := page.state
  let swept := sweep num t s
  let tpmBal := tpmBalance num t p s
  let rpmBal := rpmBalance num t p s
  let inflight := swept.leases.size
  let avg := avgSvc s
  let est := estimate num p s.outTokens promptTokens maxOutputTokens
  let result := fun decision id =>
    { decision := decision
      id := id
      reserve := est.reserveTokens
      basis := est.basis
      predictedWait := predictedWait num p inflight avg : AdmitReturn }
  match decideAdmit num p page.sloTtftMs est.reserveTokens tpmBal rpmBal avg inflight with
  | .admitted =>
      let id := reservationId (page.seq + 1)
      let expiry := num.rnd (t + num.rnd (p.leaseSeconds * 1000))
      ({ page with
          seq := page.seq + 1
          state :=
            { s with
              tpm := num.rnd (tpmBal - est.reserveTokens)
              tpmTs := t
              rpm := num.rnd (rpmBal - 1)
              rpmTs := t
              leases := swept.leases.set id expiry
              res := swept.res.set id est.reserveTokens } },
        result .admitted (some id))
  | .shed reason retryAfterMs =>
      ({ page with
          state :=
            { s with
              tpm := tpmBal
              tpmTs := t
              rpm := rpmBal
              rpmTs := t
              leases := swept.leases
              res := swept.res } },
        result (.shed reason retryAfterMs) none)

/-- The verdict on a call. -/
def verdict (t promptTokens maxOutputTokens : Rat) (page : Page) : Decision :=
  decideAdmit num page.policy page.sloTtftMs
    (estimate num page.policy page.state.outTokens promptTokens maxOutputTokens).reserveTokens
    (tpmBalance num t page.policy page.state) (rpmBalance num t page.policy page.state)
    (avgSvc page.state) (sweep num t page.state).leases.size

end Admit

section Ends

variable {num : Arithmetic} {t promptTokens maxOutputTokens : Rat} {page : Page}

theorem pageAdmit_admitted (h : verdict num t promptTokens maxOutputTokens page = .admitted) :
    (pageAdmit num t promptTokens maxOutputTokens page).1 =
      { page with
        seq := page.seq + 1
        state :=
          { page.state with
            tpm := num.rnd (tpmBalance num t page.policy page.state -
              (estimate num page.policy page.state.outTokens promptTokens
                maxOutputTokens).reserveTokens)
            tpmTs := t
            rpm := num.rnd (rpmBalance num t page.policy page.state - 1)
            rpmTs := t
            leases := (sweep num t page.state).leases.set (reservationId (page.seq + 1))
              (num.rnd (t + num.rnd (page.policy.leaseSeconds * 1000)))
            res := (sweep num t page.state).res.set (reservationId (page.seq + 1))
              (estimate num page.policy page.state.outTokens promptTokens
                maxOutputTokens).reserveTokens } } := by
  unfold verdict at h
  unfold pageAdmit
  simp only [h]

theorem pageAdmit_shed {reason : ShedReason} {retryAfterMs : Int}
    (h : verdict num t promptTokens maxOutputTokens page = .shed reason retryAfterMs) :
    (pageAdmit num t promptTokens maxOutputTokens page).1 =
      { page with
        state :=
          { page.state with
            tpm := tpmBalance num t page.policy page.state
            tpmTs := t
            rpm := rpmBalance num t page.policy page.state
            rpmTs := t
            leases := (sweep num t page.state).leases
            res := (sweep num t page.state).res } } := by
  unfold verdict at h
  unfold pageAdmit
  simp only [h]

theorem pageAdmit_reports (num : Arithmetic) (t promptTokens maxOutputTokens : Rat)
    (page : Page) :
    (pageAdmit num t promptTokens maxOutputTokens page).2.decision =
        verdict num t promptTokens maxOutputTokens page ∧
      (pageAdmit num t promptTokens maxOutputTokens page).2.reserve =
        (estimate num page.policy page.state.outTokens promptTokens
          maxOutputTokens).reserveTokens ∧
      (pageAdmit num t promptTokens maxOutputTokens page).2.predictedWait =
        predictedWait num page.policy (sweep num t page.state).leases.size
          (avgSvc page.state) := by
  unfold pageAdmit verdict
  dsimp only
  split
  next h => exact ⟨h.symm, rfl, rfl⟩
  next h => exact ⟨h.symm, rfl, rfl⟩

/-- An admitted hold is no larger than the budget. -/
theorem reserve_of_admitted (h : verdict num t promptTokens maxOutputTokens page = .admitted) :
    (estimate num page.policy page.state.outTokens promptTokens maxOutputTokens).reserveTokens ≤
      page.policy.tokensPerMinute := by
  unfold verdict decideAdmit at h
  dsimp only at h
  split at h
  · cases h
  next hsize => exact not_lt.mp hsize

end Ends

/-! ## `commit` -/

section Commit

variable (num : Arithmetic)

/-- An average with one more sample. -/
def weigh (sample : Rat) (average : Option Rat) : Option Rat :=
  if sample > 0 then
    match average with
    | none => some sample
    | some average =>
        let alpha := num.rnd ewmaAlpha
        some (num.rnd (num.rnd (alpha * sample) + num.rnd (num.rnd (1 - alpha) * average)))
  else average

structure CommitReturn where
  status : CommitStatus
  refund : Rat

/-- The page's `commit`. -/
def pageCommit (t : Rat) (id : JsString) (promptTokens outputTokens serviceMs : Rat)
    (page : Page) : Page × CommitReturn :=
  let p := page.policy
  let s := page.state
  match s.settled.get id with
  | some refund => (page, ⟨.duplicateIgnored, refund⟩)
  | none =>
      let held := s.res.get id
      let bal := refill num s.tpm s.tpmTs p.tokensPerMinute (num.rnd (p.tokensPerMinute / 60)) t
      let actual := num.rnd (promptTokens + outputTokens)
      let refund := num.rnd (held.getD 0 - actual)
      ({ page with
          state :=
            { s with
              tpm := min (num.rnd (bal + refund)) p.tokensPerMinute
              tpmTs := t
              leases := if held.isSome then s.leases.delete id else s.leases
              res := if held.isSome then s.res.delete id else s.res
              settled := s.settled.set id refund
              svcMs := weigh num serviceMs s.svcMs
              outTokens := weigh num outputTokens s.outTokens
              spent := num.rnd (s.spent + actual) } },
        ⟨if held.isSome then .committed else .reconciledAfterExpiry, refund⟩)

end Commit

end RateLimiter.Simulator
