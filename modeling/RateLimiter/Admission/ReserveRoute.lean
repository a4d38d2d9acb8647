import RateLimiter.Admission.Calibration
import RateLimiter.Admission.Debt
import RateLimiter.Admission.RetryAfter
import RateLimiter.Gateway.DegradedMode

/-!
# The reserve route

`POST /reserve`, from a body whose token counts are numbers on: the average output is read,
the estimate goes to the script, and the reply becomes a status, headers and a body.  A
client is told what to do next by the status and by `Retry-After`: a request that is too
large for the budget is told no wait, any other that is shed is told a positive one.
-/

namespace RateLimiter.Admission

open RateLimiter.Redis RateLimiter.Javascript RateLimiter.Foundations RateLimiter.Gateway
open RateLimiter.Limiter (Thrown)

/-! ## What the service makes of a reply -/

inductive AdmissionDecision
  | admitted
  | shed
deriving DecidableEq, Repr

/-- `AdmissionResult`. -/
structure AdmissionResult (Rid : Type) where
  decision : AdmissionDecision
  reason : Option ShedReason
  reservationId : Option Rid
  reservedTokens : Option Int
  leaseExpiresAt : Option Int
  tokensRemaining : Int
  requestsRemaining : Int
  inflight : Nat
  predictedWaitMs : Int
  retryAfter : Option Int
  reclaimed : Nat

/-- `retryAfter`: whole seconds, and none for no wait. -/
def retryAfterSeconds (retryAfterMs : Int) : Option Int :=
  if retryAfterMs > 0 then some (max 1 ⌈(retryAfterMs : Rat) / 1000⌉) else none

/-- The end of `reserve`. -/
def admissionResult {Rid : Type} (p : Limits) (now : Int) (rid : Rid) (reply : AdmitReply) :
    AdmissionResult Rid :=
  match reply.decision with
  | .admitted =>
      { decision := .admitted
        reason := none
        reservationId := some rid
        reservedTokens := some reply.reserved
        leaseExpiresAt := some (now + p.leaseMs)
        tokensRemaining := reply.tokensRemaining
        requestsRemaining := reply.requestsRemaining
        inflight := reply.inflight
        predictedWaitMs := reply.predictedWaitMs
        retryAfter := none
        reclaimed := reply.reclaimed }
  | .shed reason retryAfterMs =>
      { decision := .shed
        reason := some reason
        reservationId := none
        reservedTokens := none
        leaseExpiresAt := none
        tokensRemaining := reply.tokensRemaining
        requestsRemaining := reply.requestsRemaining
        inflight := reply.inflight
        predictedWaitMs := reply.predictedWaitMs
        retryAfter := retryAfterSeconds retryAfterMs
        reclaimed := reply.reclaimed }

/-! ## What the route makes of a result -/

/-- `STATUS_BY_REASON`. -/
def statusByReason : ShedReason → Nat
  | .tpmExhausted => 429
  | .rpmExhausted => 429
  | .queueFull => 503
  | .sloInfeasible => 503
  | .unsatisfiable => 400

/-- The headers and the body of an answer, or what the surface says when it fails open. -/
inductive ReserveBody (Rid : Type)
  | result (headers : List (JsString × Int)) (admission : AdmissionResult Rid)
  | limiterUnavailable

/-- The headers of a result. -/
def reserveHeaders {Rid : Type} (result : AdmissionResult Rid) : List (JsString × Int) :=
  [(js "X-RateLimit-Tokens-Remaining", result.tokensRemaining),
    (js "X-RateLimit-Requests-Remaining", result.requestsRemaining),
    (js "X-Admission-Inflight", (result.inflight : Int))] ++
    match result.retryAfter.filter (· ≠ 0) with
    | some seconds => [(js "Retry-After", seconds)]
    | none => []

/-- The end of the handler. -/
def respondReserve {Rid : Type} (result : AdmissionResult Rid) : Response (ReserveBody Rid) :=
  let status :=
    match result.decision with
    | .admitted => 200
    | .shed => (result.reason.map statusByReason).getD 429
  .json status (.result (reserveHeaders result) result) none

/-- What the client library throws when a script has stopped. -/
def ScriptError.thrown : ScriptError → Thrown
  | .compareNil => .error (js "attempt to compare number with nil")
  | .arithmeticOnNil => .error (js "attempt to perform arithmetic on a nil value")
  | .invalidExpire => .error (js "invalid expire time in 'set' command")

/-- A body that has passed the schema, the id that is drawn for it, and the instants at which
the process reads the average, looks at its clock and has the script run. -/
structure ReserveCall (Rid : Type) where
  promptTokens : Nat
  maxOutputTokens : Nat
  sloTtftMs : Option Nat
  rid : Rid
  read : Int
  now : Int
  clock : Int

/-- What becomes of the commands of a call: all are answered, the read is rejected, or the
script is, which may have run all the same. -/
inductive Answering
  | answered
  | readRejected (thrown : Thrown)
  | scriptRejected (thrown : Thrown) (ran : Bool)

section Serve

variable {Rid : Type} [LinearOrder Rid] (mode : FailureMode) (p : Limits) (call : ReserveCall Rid)

/-- The tokens a call asks the script for. -/
def ReserveCall.estimate (s : PairState Rid) : Int :=
  estimated p call.promptTokens call.maxOutputTokens (observedOutputTokens p (s.purge call.read))

/-- The script of a call. -/
def ReserveCall.script (s : PairState Rid) : PairState Rid × Except ScriptError AdmitReply :=
  reserve p (observedOutputTokens p (s.purge call.read)) call.clock call.now call.rid
    call.promptTokens call.maxOutputTokens (call.sloTtftMs.getD 0 : Nat) (s.purge call.clock)

/-- `POST /reserve`. -/
def serveReserve (answering : Answering) (s : PairState Rid) :
    PairState Rid × Response (ReserveBody Rid) :=
  match answering with
  | .readRejected thrown => (s, guardState mode .limiterUnavailable (.error thrown))
  | .scriptRejected thrown ran =>
      (if ran then (call.script p s).1 else s,
        guardState mode .limiterUnavailable (.error thrown))
  | .answered =>
      let out := call.script p s
      (out.1, guardState mode .limiterUnavailable
        (match out.2 with
        | .ok reply => .ok (respondReserve (admissionResult p call.now call.rid reply))
        | .error e => .error e.thrown))

end Serve

/-! ## What a client is told -/

/-- The status of an answer. -/
def statusOf {β : Type} : Response β → Nat
  | .json status _ _ => status
  | .failure status _ _ _ => status

namespace ReserveBody

variable {Rid : Type}

/-- The seconds of `Retry-After`. -/
def retryAfter? : ReserveBody Rid → Option Int
  | .result headers _ => (headers.find? fun header => header.1 = js "Retry-After").map Prod.snd
  | .limiterUnavailable => none

/-- The reservation a client is handed. -/
def reservation? : ReserveBody Rid → Option Rid
  | .result _ admission => admission.reservationId
  | .limiterUnavailable => none

end ReserveBody

/-- The seconds a client is told to wait. -/
def told {Rid : Type} (response : Response (ReserveBody Rid)) : Option Int :=
  response.body?.bind ReserveBody.retryAfter?

/-- The reservation a client is handed. -/
def handedOut {Rid : Type} (response : Response (ReserveBody Rid)) : Option Rid :=
  response.body?.bind ReserveBody.reservation?

theorem retryAfter?_respond {Rid : Type} (result : AdmissionResult Rid) :
    told (respondReserve result) = result.retryAfter.filter (· ≠ 0) := by
  have hnames : js "X-RateLimit-Tokens-Remaining" ≠ js "Retry-After" ∧
      js "X-RateLimit-Requests-Remaining" ≠ js "Retry-After" ∧
      js "X-Admission-Inflight" ≠ js "Retry-After" := by decide
  obtain ⟨htokens, hrequests, hinflight⟩ := hnames
  unfold told respondReserve reserveHeaders
  cases result.retryAfter.filter (· ≠ 0) with
  | none => simp [Response.body?, ReserveBody.retryAfter?, htokens, hrequests, hinflight]
  | some seconds =>
      simp [Response.body?, ReserveBody.retryAfter?, htokens, hrequests, hinflight]

/-- A positive wait is told in at least as many seconds, and at least one. -/
theorem retryAfterSeconds_of_pos {w : Int} (hw : 0 < w) :
    ∃ seconds, retryAfterSeconds w = some seconds ∧ 1 ≤ seconds ∧ w ≤ 1000 * seconds := by
  refine ⟨_, if_pos hw, le_max_left _ _, ?_⟩
  have hceil : (w : Rat) / 1000 ≤ ⌈(w : Rat) / 1000⌉ := Int.le_ceil _
  rw [div_le_iff₀ (by norm_num)] at hceil
  have hms : w ≤ ⌈(w : Rat) / 1000⌉ * 1000 := by exact_mod_cast hceil
  have hmax := le_max_right 1 ⌈(w : Rat) / 1000⌉
  omega

/-! ## What the script decides -/

section Waits

variable {Rid : Type} {a : AdmitArgs Rid} {reserve tpmBal rpmBal avg : Rat} {inflight : Nat}
  {reason : ShedReason} {w : Int}

/-- Only a full backend makes a request wait. -/
theorem saturated_of_predictedWait {slo : Rat} (hslo : 0 < slo)
    (hwait : slo < (predictedWait a inflight avg : Rat)) : a.maxConcurrency ≤ inflight := by
  by_contra hroom
  have hnone : predictedWait a inflight avg = 0 := if_neg hroom
  rw [hnone, Int.cast_zero] at hwait
  exact absurd hslo (not_lt.mpr hwait.le)

/-- The four kinds of shedding: for good, for requests, for tokens, and for room. -/
theorem decideAdmission_shed
    (h : decideAdmission a reserve tpmBal rpmBal avg inflight = .shed reason w) :
    (reason = .unsatisfiable ∧ a.tpmLimit < reserve ∧ w = 0) ∨
      (reason = .rpmExhausted ∧ rpmBal < 1 ∧ w = ⌈(1 - rpmBal) / a.rpmRate * 1000⌉) ∨
      (reason = .tpmExhausted ∧ 1 ≤ rpmBal ∧ tpmBal < reserve ∧
        w = ⌈(reserve - tpmBal) / a.tpmRate * 1000⌉) ∨
      ((reason = .queueFull ∨ reason = .sloInfeasible) ∧ 1 ≤ rpmBal ∧ reserve ≤ tpmBal ∧
        a.maxConcurrency ≤ inflight ∧ w = ⌈avg⌉) := by
  cases reason with
  | unsatisfiable => exact Or.inl ⟨rfl, decideAdmission_unsatisfiable_iff.mp h⟩
  | rpmExhausted =>
      obtain ⟨-, hshort, hw⟩ := decideAdmission_rpmExhausted_iff.mp h
      exact Or.inr (Or.inl ⟨rfl, hshort, hw⟩)
  | tpmExhausted =>
      obtain ⟨-, hrequests, hshort, hw⟩ := decideAdmission_tpmExhausted_iff.mp h
      exact Or.inr (Or.inr (Or.inl ⟨rfl, hrequests, hshort, hw⟩))
  | queueFull =>
      right; right; right
      unfold decideAdmission at h
      split_ifs at h with hsize hrpm htpm hqueue hslo <;> cases h
      exact ⟨Or.inl rfl, not_lt.mp hrpm, not_lt.mp htpm, le_of_add_le_left hqueue, rfl⟩
  | sloInfeasible =>
      right; right; right
      unfold decideAdmission at h
      split_ifs at h with hsize hrpm htpm hqueue hslo <;> cases h
      exact ⟨Or.inr rfl, not_lt.mp hrpm, not_lt.mp htpm,
        saturated_of_predictedWait hslo.1 hslo.2, rfl⟩

/-- Every shedding but the one for good is for a positive time. -/
theorem wait_pos (hrpm : 0 < a.rpmRate) (htpm : 0 < a.tpmRate) (havg : 0 < avg)
    (h : decideAdmission a reserve tpmBal rpmBal avg inflight = .shed reason w)
    (hreason : reason ≠ .unsatisfiable) : 0 < w := by
  rcases decideAdmission_shed h with ⟨hsize, -⟩ | ⟨-, hshort, rfl⟩ | ⟨-, -, hshort, rfl⟩ |
    ⟨-, -, -, -, rfl⟩
  · exact absurd hsize hreason
  · rw [Int.ceil_pos]
    have hdeficit : 0 < 1 - rpmBal := sub_pos.mpr hshort
    positivity
  · rw [Int.ceil_pos]
    have hdeficit : 0 < reserve - tpmBal := sub_pos.mpr hshort
    positivity
  · exact Int.ceil_pos.mpr havg

end Waits

section Times

variable {Rid : Type} {s : PairState Rid}

/-- Service takes time, on average. -/
def ServiceTakesTime (s : PairState Rid) : Prop :=
  ∀ average, s.stats.get .svcMs = some average → 0 < average

theorem serviceTakesTime_empty : ServiceTakesTime (.empty : PairState Rid) := by
  intro average haverage
  cases haverage

theorem ServiceTakesTime.purge (h : ServiceTakesTime s) (clock : Int) :
    ServiceTakesTime (s.purge clock) :=
  fun average haverage => h average (Collection.get_of_get_purge haverage)

/-- The time a request is told to count with. -/
theorem ServiceTakesTime.expected (h : ServiceTakesTime s) :
    0 < (s.stats.get .svcMs).getD coldStartServiceMs := by
  cases haverage : s.stats.get .svcMs with
  | none => norm_num [coldStartServiceMs]
  | some average => exact h average haverage

variable [LinearOrder Rid]

theorem ServiceTakesTime.step (h : ServiceTakesTime s) (r : Request Rid) :
    ServiceTakesTime (step s r) := by
  intro average haverage
  rw [step_stats, observeOutput_svcMs, observeService_svcMs] at haverage
  -- only a first commit with some duration moves the average
  split_ifs at haverage with hsettled hpos
  · obtain rfl := Option.some.inj haverage
    cases hold : s.stats.get .svcMs with
    | none => exact hpos
    | some before =>
        have hbefore := h before hold
        unfold ewma ewmaAlpha
        linarith
  · exact h average haverage
  · exact h average haverage

theorem ServiceTakesTime.run (h : ServiceTakesTime s) (calls : List (Request Rid)) :
    ServiceTakesTime (run stepAlive s calls) :=
  run_invariant stepAlive (fun _ r hs => (hs.purge r.clock).step r) h calls

end Times

/-! ## A call and its answer -/

section Answer

variable {Rid : Type} [LinearOrder Rid] {mode : FailureMode} {p : Limits}
  {call : ReserveCall Rid} {s : PairState Rid}

omit [LinearOrder Rid] in
/-- No estimate is negative. -/
theorem ReserveCall.estimate_nonneg : 0 ≤ call.estimate p s := by
  unfold ReserveCall.estimate
  cases hmode : p.reservationMode with
  | worstCase =>
      rw [estimated_worstCase p call.promptTokens _ hmode]
      omega
  | adaptive =>
      rcases le_or_gt (observedOutputTokens p (s.purge call.read)) 0 with hcold | hobserved
      · rw [estimated_of_nonpos p call.promptTokens hcold]
        omega
      · rw [estimated_of_pos p call.promptTokens hmode hobserved]
        omega

variable (p call s) in
omit [LinearOrder Rid] in
/-- The estimate as the script compares it. -/
theorem cast_estimate :
    (((call.estimate p s).toNat : NNRat) : Rat) = (call.estimate p s : Rat) := by
  have hnat : (((call.estimate p s).toNat : Int) : Rat) = (call.estimate p s : Rat) :=
    congrArg _ (Int.toNat_of_nonneg ReserveCall.estimate_nonneg)
  rw [← hnat]
  push_cast
  rfl

/-- The reserve that a call comes down to. -/
def ReserveCall.request (p : Limits) (call : ReserveCall Rid) (s : PairState Rid) :
    Request Rid where
  now := call.now
  clock := call.clock
  policy := p
  idempotencyTtl := .finite 300
  op := .reserve call.rid (call.estimate p s).toNat (call.sloTtftMs.getD 0 : Nat)

variable (p call s) in
/-- The script of a call is one step of the keys that are left. -/
theorem ReserveCall.handle_request :
    handle (s.purge call.clock) (call.request p s) =
      ((call.script p s).1, .reserve (call.script p s).2) := by
  unfold handle ReserveCall.request ReserveCall.script reserve
  dsimp only
  rw [cast_estimate]
  push_cast
  rfl

variable (mode p call s)

/-- What the script leaves is left, and its verdict is sent. -/
theorem serve_answered :
    (serveReserve mode p call .answered s).1 =
        step (s.purge call.clock) (call.request p s) ∧
      ∃ reply : AdmitReply,
        (handle (s.purge call.clock) (call.request p s)).2 = .reserve (.ok reply) ∧
          (serveReserve mode p call .answered s).2 =
            respondReserve (admissionResult p call.now call.rid reply) := by
  have hhandle := ReserveCall.handle_request p call s
  obtain ⟨reply, hreply, -⟩ := admitScript_reply call.clock
    (admitArgs p call.now call.rid (some (call.estimate p s : Rat))
      ((call.sloTtftMs.getD 0 : Nat) : Rat)) (s.purge call.clock) rfl
  have hscript : (call.script p s).2 = .ok reply := hreply
  refine ⟨congrArg Prod.fst hhandle.symm, reply, ?_, ?_⟩
  · rw [hhandle, hscript]
  · unfold serveReserve
    dsimp only
    rw [hscript]
    rfl

variable {mode p call s}

variable (p call) in
omit [LinearOrder Rid] in
/-- What a client is told of an admission. -/
theorem respond_admitted {reply : AdmitReply} (h : reply.decision = .admitted) :
    let sent := respondReserve (admissionResult p call.now call.rid reply)
    statusOf sent = 200 ∧ handedOut sent = some call.rid ∧ told sent = none := by
  have hresult : (admissionResult p call.now call.rid reply).retryAfter = none ∧
      (admissionResult p call.now call.rid reply).decision = .admitted ∧
      (admissionResult p call.now call.rid reply).reservationId = some call.rid := by
    unfold admissionResult
    rw [h]
    exact ⟨rfl, rfl, rfl⟩
  obtain ⟨hretry, hdecision, hid⟩ := hresult
  refine ⟨?_, hid, ?_⟩
  · unfold statusOf respondReserve
    simp only [hdecision]
  · rw [retryAfter?_respond, hretry]
    rfl

variable (p call) in
omit [LinearOrder Rid] in
/-- What a client is told of a shedding. -/
theorem respond_shed {reply : AdmitReply} {reason : ShedReason} {w : Int}
    (h : reply.decision = .shed reason w) :
    let sent := respondReserve (admissionResult p call.now call.rid reply)
    statusOf sent = statusByReason reason ∧ handedOut sent = none ∧
      told sent = (retryAfterSeconds w).filter (· ≠ 0) := by
  have hresult : (admissionResult p call.now call.rid reply).retryAfter = retryAfterSeconds w ∧
      (admissionResult p call.now call.rid reply).decision = .shed ∧
      (admissionResult p call.now call.rid reply).reservationId = none ∧
      (admissionResult p call.now call.rid reply).reason = some reason := by
    unfold admissionResult
    rw [h]
    exact ⟨rfl, rfl, rfl, rfl⟩
  obtain ⟨hretry, hdecision, hid, hreason⟩ := hresult
  refine ⟨?_, hid, ?_⟩
  · unfold statusOf respondReserve
    simp only [hdecision, hreason, Option.map_some, Option.getD_some]
  · rw [retryAfter?_respond, hretry]

variable (mode p call) in
/-- The two ways a call that is answered ends. -/
theorem serve_cases (hservice : ServiceTakesTime s) :
    let out := serveReserve mode p call .answered s
    let verdict := verdictOf (handle (s.purge call.clock) (call.request p s)).2
    (verdict = some .admitted ∧ statusOf out.2 = 200 ∧ handedOut out.2 = some call.rid ∧
        told out.2 = none) ∨
      ∃ reason w, verdict = some (.shed reason w) ∧ statusOf out.2 = statusByReason reason ∧
        handedOut out.2 = none ∧
          (reason = .unsatisfiable ∧ told out.2 = none ∨
            reason ≠ .unsatisfiable ∧
              ∃ seconds, told out.2 = some seconds ∧ 1 ≤ seconds ∧ w ≤ 1000 * seconds) := by
  obtain ⟨-, reply, hreply, hsent⟩ := serve_answered mode p call s
  have hverdict : verdictOf (handle (s.purge call.clock) (call.request p s)).2 =
      some reply.decision := by
    rw [hreply]
    rfl
  dsimp only
  rw [hsent, hverdict]
  cases hdecision : reply.decision with
  | admitted => exact Or.inl ⟨rfl, respond_admitted p call hdecision⟩
  | shed reason w =>
      right
      obtain ⟨hstatus, hhanded, htold⟩ := respond_shed p call hdecision
      refine ⟨reason, w, rfl, hstatus, hhanded, ?_⟩
      rw [htold]
      have hchain := verdictOf_reserve (s := s.purge call.clock) (r := call.request p s) rfl
      rw [hverdict, hdecision] at hchain
      have hdecided := (Option.some.inj hchain).symm
      by_cases hreason : reason = .unsatisfiable
      · subst hreason
        obtain ⟨-, rfl⟩ := decideAdmission_unsatisfiable_iff.mp hdecided
        exact Or.inl ⟨rfl, rfl⟩
      · right
        have hw : 0 < w := wait_pos (Limits.rate_pos _ p.requestsPerMinute_pos)
          (Limits.rate_pos _ p.tokensPerMinute_pos) (hservice.purge call.clock).expected hdecided
          hreason
        obtain ⟨seconds, hseconds, hone, hle⟩ := retryAfterSeconds_of_pos hw
        refine ⟨hreason, seconds, ?_, hone, hle⟩
        rw [hseconds]
        exact Option.filter_eq_some_iff.mpr ⟨rfl, by simp; omega⟩

/-- A command that is rejected hands out nothing and tells no wait. -/
theorem guardState_rejected (Rid : Type) (mode : FailureMode) (thrown : Thrown) :
    let sent : Response (ReserveBody Rid) := guardState mode .limiterUnavailable (.error thrown)
    handedOut sent = none ∧ told sent = none := by
  have hbody := body_guardState_error mode (ReserveBody.limiterUnavailable : ReserveBody Rid) thrown
  dsimp only
  unfold handedOut told
  rw [hbody]
  split
  · exact ⟨rfl, rfl⟩
  · exact ⟨rfl, rfl⟩

/-- A call that is shed holds nothing of its own. -/
theorem held_of_shed {r : Request Rid} {rid : Rid} {tokens slo : NNRat}
    (hop : r.op = .reserve rid tokens slo) (hshed : admitted (handle s r).2 = false) {k : Rid}
    {held : Rat} (hheld : (step s r).reservations.get k = some held) :
    s.reservations.get k = some held := by
  rcases reserve_cases (s := s) hop with ⟨hadmitted, -⟩ | ⟨-, -, -, hreservations⟩
  · rw [hshed] at hadmitted
    cases hadmitted
  · rw [hreservations, Collection.get_expire, sweepOf, reclaim_hold] at hheld
    split at hheld
    · cases hheld
    · exact hheld

/-- An admitted call holds its estimate, on a lease from its own clock. -/
theorem held_of_admitted
    (h : verdictOf (handle (s.purge call.clock) (call.request p s)).2 = some .admitted) :
    (step (s.purge call.clock) (call.request p s)).reservations.get call.rid =
        some (call.estimate p s : Rat) ∧
      (step (s.purge call.clock) (call.request p s)).leases.get call.rid =
        some (call.now + p.leaseMs) := by
  have hadmitted := verdictOf_eq_admitted.mp h
  rcases reserve_cases (s := s.purge call.clock) (r := call.request p s) rfl with
    ⟨-, -, -, -, hleases, hreservations⟩ | ⟨hshed, -⟩
  · rw [hleases, hreservations, Collection.get_expire, Collection.get_expire, Collection.get_put,
      Collection.get_put, cast_estimate]
    exact ⟨rfl, rfl⟩
  · rw [hshed] at hadmitted
    cases hadmitted

/-- What may be tried again has a status of its own. -/
theorem status_of_wait {reason : ShedReason} (h : reason ≠ .unsatisfiable) :
    statusByReason reason = 429 ∨ statusByReason reason = 503 := by
  cases reason with
  | unsatisfiable => exact absurd rfl h
  | rpmExhausted => exact Or.inl rfl
  | tpmExhausted => exact Or.inl rfl
  | queueFull => exact Or.inr rfl
  | sloInfeasible => exact Or.inr rfl

/-- What the script decides for a call, with the average time of a service. -/
theorem verdict_request :
    verdictOf (handle (s.purge call.clock) (call.request p s)).2 = some (decideAdmission
      (admitArgs p call.now call.rid (some (call.estimate p s : Rat))
        ((call.sloTtftMs.getD 0 : Nat) : Rat)) (call.estimate p s)
      (decisionBalance (s.purge call.clock) (call.request p s))
      (requestsAt p call.now (s.purge call.clock))
      (((s.purge call.clock).stats.get .svcMs).getD coldStartServiceMs)
      (sweepOf (s.purge call.clock) (call.request p s)).state.leases.card) := by
  have hverdict := verdictOf_reserve (s := s.purge call.clock) (r := call.request p s) rfl
  rw [cast_estimate] at hverdict
  rw [hverdict]
  unfold ReserveCall.request
  push_cast
  rfl

/-- Only what is larger than the budget is told to stay away. -/
theorem shed_unsatisfiable_iff {reason : ShedReason} {w : Int}
    (h : verdictOf (handle (s.purge call.clock) (call.request p s)).2 = some (.shed reason w)) :
    reason = .unsatisfiable ↔ (p.tokensPerMinute : Int) < call.estimate p s := by
  rw [verdict_request] at h
  have hdecided := Option.some.inj h
  have hlimit : (admitArgs p call.now call.rid (some (call.estimate p s : Rat))
      ((call.sloTtftMs.getD 0 : Nat) : Rat)).tpmLimit = ((p.tokensPerMinute : Int) : Rat) := rfl
  constructor
  · rintro rfl
    obtain ⟨hsize, -⟩ := decideAdmission_unsatisfiable_iff.mp hdecided
    rw [hlimit] at hsize
    exact_mod_cast hsize
  · intro hsize
    have hcast : ((p.tokensPerMinute : Int) : Rat) < (call.estimate p s : Rat) := by
      exact_mod_cast hsize
    rw [decideAdmission_unsatisfiable_iff.mpr ⟨hlimit ▸ hcast, rfl⟩] at hdecided
    exact (Decision.shed.inj hdecided).1.symm

end Answer

/-- **The reserve route.**  After any run, a client is handed a reservation only with a 200 and
only while the keys hold its estimate on a lease of its own.  Any other answer of the script
holds nothing, and comes as a 400 without a wait, for an estimate that no waiting will make
fit, or as a 429 or a 503 with a wait of at least a second.  A command that is rejected hands
out nothing, and one that was never sent has changed nothing. -/
theorem reserve_contract {Rid : Type} [LinearOrder Rid] (before : List (Request Rid))
    (mode : FailureMode) (p : Limits) (call : ReserveCall Rid) (answering : Answering) :
    let s := run stepAlive .empty before
    let out := serveReserve mode p call answering s
    (∀ rid, handedOut out.2 = some rid →
      rid = call.rid ∧ answering = .answered ∧ statusOf out.2 = 200 ∧ told out.2 = none ∧
        out.1.reservations.get rid = some (call.estimate p s : Rat) ∧
          out.1.leases.get rid = some (call.now + p.leaseMs)) ∧
    (answering = .answered → handedOut out.2 = none →
      (∀ rid held, out.1.reservations.get rid = some held →
        s.reservations.get rid = some held) ∧
      ((statusOf out.2 = 400 ∧ told out.2 = none ∧
          (p.tokensPerMinute : Int) < call.estimate p s) ∨
        ((statusOf out.2 = 429 ∨ statusOf out.2 = 503) ∧
          call.estimate p s ≤ p.tokensPerMinute ∧
            ∃ seconds, told out.2 = some seconds ∧ 1 ≤ seconds))) ∧
    (answering ≠ .answered → handedOut out.2 = none ∧ told out.2 = none ∧
      ((∃ thrown, answering = .readRejected thrown) → out.1 = s)) := by
  intro s out
  have hservice : ServiceTakesTime s := serviceTakesTime_empty.run before
  cases answering with
  | readRejected thrown =>
      obtain ⟨hhanded, htold⟩ := guardState_rejected Rid mode thrown
      refine ⟨fun rid hrid => ?_, nofun, fun _ => ⟨hhanded, htold, fun _ => rfl⟩⟩
      exact absurd (hhanded.symm.trans hrid) nofun
  | scriptRejected thrown ran =>
      obtain ⟨hhanded, htold⟩ := guardState_rejected Rid mode thrown
      refine ⟨fun rid hrid => ?_, nofun, fun _ => ⟨hhanded, htold, nofun⟩⟩
      exact absurd (hhanded.symm.trans hrid) nofun
  | answered =>
      obtain ⟨hstate, -⟩ := serve_answered mode p call s
      change out.1 = step (s.purge call.clock) (call.request p s) at hstate
      refine ⟨?_, fun _ hnone => ?_, fun hanswered => absurd rfl hanswered⟩
      · intro rid hrid
        rcases serve_cases mode p call hservice with
          ⟨hverdict, hstatus, hhanded, htold⟩ | ⟨reason, w, -, -, hhanded, -⟩
        · obtain rfl := Option.some.inj (hhanded.symm.trans hrid)
          obtain ⟨hreservation, hlease⟩ := held_of_admitted hverdict
          exact ⟨rfl, rfl, hstatus, htold, hstate ▸ hreservation, hstate ▸ hlease⟩
        · exact absurd (hhanded.symm.trans hrid) nofun
      · rcases serve_cases mode p call hservice with
          ⟨-, -, hhanded, -⟩ | ⟨reason, w, hverdict, hstatus, -, hwait⟩
        · exact absurd (hhanded.symm.trans hnone) nofun
        · refine ⟨?_, ?_⟩
          · intro rid held hheld
            rw [hstate] at hheld
            exact Collection.get_of_get_purge
              (held_of_shed rfl (admitted_eq_false_of_shed hverdict) hheld)
          · rcases hwait with ⟨hreason, htold⟩ | ⟨hreason, seconds, htold, hone, -⟩
            · left
              rw [hreason] at hstatus
              exact ⟨hstatus, htold, (shed_unsatisfiable_iff hverdict).mp hreason⟩
            · right
              refine ⟨?_, ?_, seconds, htold, hone⟩
              · rw [hstatus]
                exact status_of_wait hreason
              · exact not_lt.mp fun hsize =>
                  hreason ((shed_unsatisfiable_iff hverdict).mpr hsize)

end RateLimiter.Admission
