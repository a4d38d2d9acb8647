import RateLimiter.Foundations.Runs
import RateLimiter.Gateway.DegradedMode
import RateLimiter.Limiter.Service

/-!
# The check route

One process answers `/check-rate-limit` in up to three moments: the request arrives, the
rules arrive when they were not cached, and the script answers.  Between them other
requests, rule writes and the other clients of the server have their turn.  One guard
stands around all of it, and it was written for the last of the three.
-/

namespace RateLimiter.Limiter

open RateLimiter.Redis RateLimiter.Javascript RateLimiter.Foundations RateLimiter.Gateway

/-! ## The handler -/

/-- What the body and the connection of a request say. -/
structure CheckCall where
  request : RateLimitCheckRequest
  overrides : CheckOverrides

/-- The body of an answer. -/
structure CheckAnswer where
  allowed : Bool
  limit : Option Nat
  remaining : Option Int
  resetAt : Option Int
  retryAfter : Option Int
  effective : Option EffectiveLimit

/-- What the surface answers when it fails open: the caller's own limit, and no verdict. -/
def openResponse (call : CheckCall) : CheckAnswer where
  allowed := true
  limit := call.overrides.limit.map PNat.val
  remaining := none
  resetAt := none
  retryAfter := none
  effective := none

/-- The value of `X-RateLimit-Policy`. -/
def policyHeader (effective : EffectiveLimit) : JsString :=
  effective.ruleName.getD effective.source.text

/-- Is the code unit let through in the value of a header? -/
def isHeaderUnit (c : CodeUnit) : Bool :=
  c = unit '\t' || (0x20 ≤ c.val && c.val ≤ 0x7e) || (0x80 ≤ c.val && c.val ≤ 0xff)

/-- `res.set`, which throws on an instant that is no date and on a rule name that no header
can carry. -/
def setHeaders (result : RateLimitCheckResult) (effective : EffectiveLimit) :
    Except Thrown Unit :=
  if 8640000000000000 < result.resetAt.natAbs then .error (.error (js "Invalid time value"))
  else if (policyHeader effective).all isHeaderUnit then .ok ()
  else .error (.error (js "Invalid character in header content [\"X-RateLimit-Policy\"]"))

/-- The end of the handler, once there is a verdict. -/
def respond (result : RateLimitCheckResult) (effective : EffectiveLimit) :
    Except Thrown (Response CheckAnswer) :=
  match setHeaders result effective with
  | .ok () =>
      .ok (.json (if result.allowed then 200 else 429)
        { allowed := result.allowed
          limit := some result.limit
          remaining := some result.remaining
          resetAt := some result.resetAt
          retryAfter := result.retryAfter.filter (· ≠ 0)
          effective := some effective } none)
  | .error thrown => .error thrown

/-! ## The process -/

/-- What a process is set up with.  The regular expression engine is that of its
runtime. -/
structure Setup where
  regExp : JsString → Option (JsString → Bool)
  defaults : Defaults
  failure : FailureMode
  pid : Nat

/-- `resolveLimit` for a request, once the rules are at hand. -/
def Setup.resolveLimit (c : Setup) (call : CheckCall) (rules : List RateLimitRule) :
    EffectiveLimit :=
  RateLimiterService.resolveLimit c.regExp c.defaults call.request call.overrides rules

/-- A request whose answer is under way: it waits for the rules, which it asked for at the
instant given, or for the script. -/
inductive Handler
  | querying (startedAt : Nat) (call : CheckCall)
  | deciding (call : CheckCall) (effective : EffectiveLimit)

/-- The process and the data it works on.  Requests are numbered as they arrive. -/
structure Process where
  cache : RulesCache
  stores : Stores
  handlers : Nat → Option Handler
  arrived : Nat

/-- The moments of the process: a request arrives, the database answers or rejects a query,
the script answers or its command is rejected, a rule is written, and another client of the
server leaves its data changed. -/
inductive Event
  | arrive (now : Nat) (call : CheckCall)
  | queried (id : Nat) (outcome : Except JsString (List RateLimitRule))
  | decide (id now : Nat) (clock : Int)
  | rejected (id : Nat) (thrown : Thrown)
  | ruleWritten
  | elsewhere (stores : Stores)

/-- No Redis command fails in this moment. -/
def Event.CommandSucceeds : Event → Prop
  | .rejected _ _ => False
  | _ => True

namespace Process

/-- The process at its start: nothing cached, no key on the server. -/
def initial : Process where
  cache := .invalidated
  stores := ⟨fun _ => .absent, fun _ => .absent, fun _ => none, 0⟩
  handlers := fun _ => none
  arrived := 0

variable (c : Setup) (s : Process)

/-- The handler goes on as `handler`, or is done. -/
def goOn (id : Nat) (handler : Option Handler) : Process :=
  { s with handlers := Function.update s.handlers id handler }

/-- The handler up to its first `await` that has something to wait for. -/
def start (now : Nat) (call : CheckCall) : Handler :=
  match call.overrides.stated with
  | some effective => .deciding call effective
  | none =>
      match s.cache.getEnabledRules now with
      | some rules =>
          .deciding call (c.resolveLimit call rules)
      | none => .querying now call

/-- The guard around the handler. -/
def guarded (call : CheckCall) (outcome : Except Thrown (Response CheckAnswer)) :
    Response CheckAnswer :=
  guardState c.failure (openResponse call) outcome

/-- One moment of the process, and the response it sends if it sends one.  A moment that
cannot happen changes nothing. -/
def handle : Event → Process × Option (Response CheckAnswer)
  | .arrive now call =>
      ({ s.goOn s.arrived (some (s.start c now call)) with arrived := s.arrived + 1 }, none)
  | .queried id outcome =>
      match s.handlers id, outcome with
      | some (.querying startedAt call), .ok rules =>
          ({ s.goOn id (some (.deciding call (c.resolveLimit call rules))) with
              cache := ⟨rules, startedAt⟩ }, none)
      | some (.querying _ call), .error message =>
          (s.goOn id none, some (guarded c call (.error (.error message))))
      | _, _ => (s, none)
  | .decide id now clock =>
      match s.handlers id with
      | some (.deciding call effective) =>
          match RateLimiterService.check c.pid clock now call.request.key effective s.stores with
          | .ok (stores, result) =>
              ({ s.goOn id none with stores := stores },
                some (guarded c call (respond result effective)))
          | .error thrown => (s.goOn id none, some (guarded c call (.error thrown)))
      | _ => (s, none)
  | .rejected id thrown =>
      match s.handlers id with
      | some (.deciding call _) => (s.goOn id none, some (guarded c call (.error thrown)))
      | _ => (s, none)
  | .ruleWritten => ({ s with cache := .invalidated }, none)
  | .elsewhere stores =>
      ({ s with stores := { stores with sequence := s.stores.sequence } }, none)

def step (e : Event) : Process := (s.handle c e).1

/-- The body that is sent, if one is. -/
def sent (e : Event) : Option CheckAnswer := (s.handle c e).2.bind Response.body?

/-! ## Metered answers -/

/-- A body that allows the request is sent only in answer to a script that admitted it. -/
def Metered (e : Event) : Prop :=
  ∀ body, s.sent c e = some body → body.allowed = true →
    ∃ id now clock call effective verdict,
      e = .decide id now clock ∧
        s.handlers id = some (.deciding call effective) ∧
        RateLimiterService.scriptVerdict c.pid clock now call.request.key effective s.stores =
          some verdict ∧
        verdict.allowed = true

/-- The query that a request waits for fails with a message that reads like a lost
connection. -/
def Misread (e : Event) : Prop :=
  ∃ id startedAt call message,
    e = .queried id (.error message) ∧
      s.handlers id = some (.querying startedAt call) ∧
      connectionFailure message = true

/-! ### What the handler throws itself -/

theorem unsupported_available :
    isStateUnavailable (.error (js "Unsupported algorithm: leaky_bucket")) = false := by
  decide +kernel

/-- What the headers throw is not taken for an unreachable state. -/
theorem setHeaders_error {result : RateLimitCheckResult} {effective : EffectiveLimit}
    {thrown : Thrown} (h : setHeaders result effective = .error thrown) :
    isStateUnavailable thrown = false := by
  unfold setHeaders at h
  split at h
  next =>
    obtain rfl := Except.error.inj h
    decide +kernel
  next =>
    split at h
    next => cases h
    next =>
      obtain rfl := Except.error.inj h
      decide +kernel

variable {c} {s}

/-- A body that ends the handler carries the verdict. -/
theorem body_guarded_respond {call : CheckCall} {result : RateLimitCheckResult}
    {effective : EffectiveLimit} {body : CheckAnswer}
    (hbody : (guarded c call (respond result effective)).body? = some body) :
    body.allowed = result.allowed := by
  unfold respond guarded at hbody
  cases hset : setHeaders result effective with
  | ok _ =>
      rw [hset] at hbody
      exact (Option.some.inj hbody) ▸ rfl
  | error thrown =>
      rw [hset] at hbody
      simp only [body_guardState_error, setHeaders_error hset] at hbody
      cases hbody

/-- What is sent once the script of a request has run carries the verdict of the script. -/
theorem sent_decide {id now : Nat} {clock : Int} {call : CheckCall} {effective : EffectiveLimit}
    {body : CheckAnswer} (hwaits : s.handlers id = some (.deciding call effective))
    (hsent : s.sent c (.decide id now clock) = some body) :
    ∃ verdict,
      RateLimiterService.scriptVerdict c.pid clock now call.request.key effective s.stores =
        some verdict ∧ body.allowed = verdict.allowed := by
  unfold sent handle at hsent
  simp only [hwaits] at hsent
  rcases RateLimiterService.check_cases c.pid clock now call.request.key effective s.stores with
    hthrown | ⟨stores, result, verdict, hcheck, hverdict, hallowed⟩
  · simp only [hthrown, Option.bind_some, guarded, body_guardState_error,
      unsupported_available] at hsent
    cases hsent
  · simp only [hcheck, Option.bind_some] at hsent
    exact ⟨verdict, hverdict, (body_guarded_respond hsent).trans hallowed⟩

/-- A failed query is answered with the open response where it is misread. -/
theorem sent_queried_error {id startedAt : Nat} {call : CheckCall}
    (hwaits : s.handlers id = some (.querying startedAt call)) (message : JsString) :
    s.sent c (.queried id (.error message)) =
      if connectionFailure message ∧ c.failure = .failOpen then some (openResponse call)
      else none := by
  unfold sent handle
  simp only [hwaits]
  exact body_guardState_error c.failure (openResponse call) (.error message)

/-- The moments in which a body is sent. -/
theorem sent_cases {e : Event} {body : CheckAnswer} (hsent : s.sent c e = some body) :
    (∃ id now clock call effective,
      e = .decide id now clock ∧ s.handlers id = some (.deciding call effective)) ∨
    (∃ id startedAt call message,
      e = .queried id (.error message) ∧ s.handlers id = some (.querying startedAt call)) ∨
    ∃ id thrown, e = .rejected id thrown := by
  unfold sent handle at hsent
  cases e with
  | arrive now call => cases hsent
  | queried id outcome =>
      cases hwaits : s.handlers id with
      | none =>
          simp only [hwaits] at hsent
          cases hsent
      | some handler =>
          cases handler with
          | deciding call effective =>
              simp only [hwaits] at hsent
              cases hsent
          | querying startedAt call =>
              cases outcome with
              | ok rules =>
                  simp only [hwaits] at hsent
                  cases hsent
              | error message => exact .inr (.inl ⟨id, startedAt, call, message, rfl, hwaits⟩)
  | decide id now clock =>
      cases hwaits : s.handlers id with
      | none =>
          simp only [hwaits] at hsent
          cases hsent
      | some handler =>
          cases handler with
          | querying startedAt call =>
              simp only [hwaits] at hsent
              cases hsent
          | deciding call effective =>
              exact .inl ⟨id, now, clock, call, effective, rfl, hwaits⟩
  | rejected id thrown => exact .inr (.inr ⟨id, thrown, rfl⟩)
  | ruleWritten => cases hsent
  | elsewhere stores => cases hsent

/-- While the surface fails open and no Redis command fails, a request passes unmetered
exactly where a failure of the database is misread. -/
theorem metered_iff (hmode : c.failure = .failOpen) {e : Event} (hredis : e.CommandSucceeds) :
    s.Metered c e ↔ ¬ s.Misread e := by
  constructor
  · rintro hmetered ⟨id, startedAt, call, message, rfl, hwaits, hfailure⟩
    have hsent := sent_queried_error (c := c) hwaits message
    rw [if_pos ⟨hfailure, hmode⟩] at hsent
    obtain ⟨_, _, _, _, _, _, hevent, _⟩ := hmetered _ hsent rfl
    cases hevent
  · intro hread body hsent hallowed
    rcases sent_cases hsent with ⟨id, now, clock, call, effective, rfl, hwaits⟩ |
      ⟨id, startedAt, call, message, rfl, hwaits⟩ | ⟨id, thrown, rfl⟩
    · obtain ⟨verdict, hverdict, hsame⟩ := sent_decide hwaits hsent
      exact ⟨id, now, clock, call, effective, verdict, rfl, hwaits, hverdict,
        hsame.symm.trans hallowed⟩
    · -- an answer to a failed query can only be the open response
      have hfailure : connectionFailure message = true := by
        rw [sent_queried_error hwaits] at hsent
        split at hsent
        next hclass => exact hclass.1
        next => cases hsent
      exact absurd ⟨id, startedAt, call, message, rfl, hwaits, hfailure⟩ hread
    · exact hredis.elim

end Process

/-- **No unmetered pass.**  While no Redis command fails, the answers of a surface that
fails open are metered along a run exactly when no rule query that a request waits for fails
with a message that reads like a lost connection. -/
theorem unmetered_pass_exact (c : Setup) (hmode : c.failure = .failOpen) (s : Process)
    (events : List Event) (hredis : ∀ e ∈ events, e.CommandSucceeds) :
    Along (Process.step c) (fun s e => s.Metered c e) s events ↔
      Along (Process.step c) (fun s e => ¬ s.Misread e) s events :=
  along_congr _ fun e he _ => Process.metered_iff hmode (hredis e he)

/-! ### A database out of reach -/

namespace Process

/-- The shipped configuration, with an engine that takes no expression. -/
def shipped : Setup where
  regExp := fun _ => none
  defaults := ⟨.tokenBucket, 1000, 60⟩
  failure := .failOpen
  pid := 1

/-- A request that leaves its limit to the rules. -/
def plainCall : CheckCall where
  request := ⟨js "k", js "u", none, none, none⟩
  overrides := ⟨none, none, none⟩

/-- A query that fails for a reason of its own is an error, and the next request is let
through by the script. -/
theorem unmetered_pass_exact_password :
    Along (step shipped) (fun s e => s.Metered shipped e) initial
      [.arrive 70000 plainCall,
        .queried 0 (.error (js "password authentication failed for user \"postgres\"")),
        .arrive 70001 plainCall,
        .queried 1 (.ok []),
        .decide 1 70002 70002] := by
  refine (unmetered_pass_exact shipped rfl initial _ ?_).mpr ⟨?_, ?_, ?_, ?_, ?_, trivial⟩
  · simp [Event.CommandSucceeds]
  · rintro ⟨_, _, _, _, hevent, _⟩
    cases hevent
  · rintro ⟨_, _, _, message, hevent, _, hfailure⟩
    obtain ⟨-, hmessage⟩ := Event.queried.inj hevent
    obtain rfl := Except.error.inj hmessage
    revert hfailure
    decide +kernel
  · rintro ⟨_, _, _, _, hevent, _⟩
    cases hevent
  · rintro ⟨_, _, _, _, hevent, _⟩
    cases hevent
  · rintro ⟨_, _, _, _, hevent, _⟩
    cases hevent

/-- The database refuses the connection, and the request passes unmetered. -/
theorem refused_connection_passes :
    shipped.failure = .failOpen ∧
      (∀ e ∈ [Event.arrive 70000 plainCall,
          .queried 0 (.error (js "connect ECONNREFUSED 127.0.0.1:5432"))],
        e.CommandSucceeds) ∧
      ¬ Along (step shipped) (fun s e => s.Metered shipped e) initial
        [.arrive 70000 plainCall,
          .queried 0 (.error (js "connect ECONNREFUSED 127.0.0.1:5432"))] := by
  refine ⟨rfl, by simp [Event.CommandSucceeds], ?_⟩
  rintro ⟨-, hmetered, -⟩
  have hwaits : (step shipped initial (.arrive 70000 plainCall)).handlers 0 =
      some (.querying 70000 plainCall) := rfl
  have hsent := sent_queried_error (c := shipped) hwaits
    (js "connect ECONNREFUSED 127.0.0.1:5432")
  rw [if_pos ⟨by decide +kernel, rfl⟩] at hsent
  obtain ⟨_, _, _, _, _, _, hevent, _⟩ := hmetered _ hsent rfl
  cases hevent

end Process

end RateLimiter.Limiter
