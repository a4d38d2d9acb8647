import RateLimiter.Limiter.FixedWindow
import RateLimiter.Limiter.Rules
import RateLimiter.Limiter.SlidingWindow
import RateLimiter.Limiter.TokenBucket

/-!
# The generic limiter

`resolveLimit` decides which limit a request falls under and `check` runs the algorithm
of that limit.  Between the two lies the database, when the rules are not cached.
-/

namespace RateLimiter.Limiter

open RateLimiter.Redis RateLimiter.Javascript

/-! ## The limit -/

structure CheckOverrides where
  algorithm : Option RateLimitAlgorithm
  limit : Option ℕ+
  windowSeconds : Option ℕ+

structure RateLimitCheckRequest where
  key : JsString
  identifier : JsString
  endpoint : Option JsString
  ip : Option JsString
  metadata : Option (JsString → Metadatum)

def RateLimitCheckRequest.context (request : RateLimitCheckRequest) : RuleMatchContext where
  identifier := request.identifier
  endpoint := request.endpoint
  ip := request.ip
  metadata := request.metadata

/-- Where the numbers came from. -/
inductive LimitSource
  | request
  | rule
  | default
deriving DecidableEq, Repr

def LimitSource.text : LimitSource → JsString
  | .request => js "request"
  | .rule => js "rule"
  | .default => js "default"

structure EffectiveLimit where
  algorithm : RateLimitAlgorithm
  limit : ℕ+
  windowSeconds : ℕ+
  source : LimitSource
  ruleId : Option JsString
  ruleName : Option JsString
deriving DecidableEq

/-- The limit as the algorithms take it. -/
def EffectiveLimit.quota (effective : EffectiveLimit) : Quota where
  limit := effective.limit
  windowSeconds := effective.windowSeconds
  limit_pos := effective.limit.pos
  windowSeconds_pos := effective.windowSeconds.pos

/-- `config.defaults`. -/
structure Defaults where
  algorithm : RateLimitAlgorithm
  limit : ℕ+
  windowSeconds : ℕ+

/-- The early return of `resolveLimit`: a caller that states its own limit. -/
def CheckOverrides.stated (overrides : CheckOverrides) : Option EffectiveLimit :=
  match overrides.algorithm, overrides.limit, overrides.windowSeconds with
  | some algorithm, some limit, some windowSeconds =>
      some ⟨algorithm, limit, windowSeconds, .request, none, none⟩
  | _, _, _ => none

/-- The rest of `resolveLimit`, once the rules are at hand. -/
def RateLimiterService.resolveLimit (regExp : JsString → Option (JsString → Bool))
    (defaults : Defaults) (request : RateLimitCheckRequest) (overrides : CheckOverrides)
    (rules : List RateLimitRule) : EffectiveLimit :=
  match findMatchingRule regExp rules request.context with
  | some rule =>
      { algorithm := overrides.algorithm.getD rule.algorithm
        limit := overrides.limit.getD rule.limit
        windowSeconds := overrides.windowSeconds.getD rule.windowSeconds
        source := .rule
        ruleId := some rule.id
        ruleName := some rule.name }
  | none =>
      { algorithm := overrides.algorithm.getD defaults.algorithm
        limit := overrides.limit.getD defaults.limit
        windowSeconds := overrides.windowSeconds.getD defaults.windowSeconds
        source := .default
        ruleId := none
        ruleName := none }

/-! ## The check -/

/-- What the checks read and write: the keys of each algorithm on the server, and the
counter that the sliding window keeps in the process. -/
structure Stores where
  buckets : JsString → BucketKeys
  logs : JsString → SortedSet JsString
  counters : FixedWindowAlgorithm.Counters
  sequence : Nat

/-- The `check` of an algorithm at a cost of 1: the server's clock, the limit, `Date.now()`
and the key. -/
abbrev IRateLimitAlgorithm :=
  Int → Quota → Nat → JsString → Stores → Except Thrown (Stores × RateLimitCheckResult)

namespace AlgorithmFactory

/-- `registry`, in the process `pid`.  There is no leaky bucket. -/
def registry (pid : Nat) : RateLimitAlgorithm → Option IRateLimitAlgorithm
  | .tokenBucket => some fun clock q now name stores =>
      let out := TokenBucketAlgorithm.check clock q now 1 (stores.buckets name)
      .ok ({ stores with buckets := Function.update stores.buckets name out.1 }, out.2)
  | .slidingWindow => some fun clock q now name stores =>
      match SlidingWindowAlgorithm.check clock q now pid 1 stores.sequence (stores.logs name) with
      | .ok ((log, sequence), result) =>
          .ok ({ stores with
                  logs := Function.update stores.logs name log
                  sequence := sequence }, result)
      | .error thrown => .error thrown
  | .fixedWindow => some fun clock q now name stores =>
      match FixedWindowAlgorithm.check clock q name now 1 stores.counters with
      | .ok (counters, result) => .ok ({ stores with counters := counters }, result)
      | .error thrown => .error thrown
  | .leakyBucket => none

def getAlgorithm (pid : Nat) (type : RateLimitAlgorithm) : Except Thrown IRateLimitAlgorithm :=
  match registry pid type with
  | some algorithm => .ok algorithm
  | none => .error (.error (js "Unsupported algorithm: " ++ type.text))

end AlgorithmFactory

namespace RateLimiterService

/-- `check`, once the limit is resolved. -/
def check (pid : Nat) (clock : Int) (now : Nat) (key : JsString) (effective : EffectiveLimit)
    (stores : Stores) : Except Thrown (Stores × RateLimitCheckResult) :=
  match AlgorithmFactory.getAlgorithm pid effective.algorithm with
  | .ok algorithm => algorithm clock effective.quota now key stores
  | .error thrown => .error thrown

/-! ## The script behind a check -/

/-- The verdict of the script that a check runs, `none` when it runs none. -/
def scriptVerdict (pid : Nat) (clock : Int) (now : Nat) (key : JsString)
    (effective : EffectiveLimit) (stores : Stores) : Option Verdict :=
  let q := effective.quota
  match effective.algorithm with
  | .tokenBucket =>
      some (tokenBucketScript clock q.limit (TokenBucketAlgorithm.refillRate q) now 1
        (TokenBucketAlgorithm.ttl q) ((stores.buckets key).purge clock)).2
  | .slidingWindow =>
      some (slidingWindowScript clock now q.windowMs q.limit
        (Stamp.member ⟨now, pid, stores.sequence⟩) ((stores.logs key).purge clock)).2
  | .fixedWindow =>
      some (fixedWindowScript clock q.limit q.windowSeconds now
        ((stores.counters (FixedWindowAlgorithm.key key
          (FixedWindowAlgorithm.windowIndex now q.windowSeconds))).purge clock)).2
  | .leakyBucket => none

/-- A check is refused because its algorithm does not exist, or it answers with the verdict
of its script. -/
theorem check_cases (pid : Nat) (clock : Int) (now : Nat) (key : JsString)
    (effective : EffectiveLimit) (stores : Stores) :
    check pid clock now key effective stores =
        .error (.error (js "Unsupported algorithm: leaky_bucket")) ∨
      ∃ stores' result verdict,
        check pid clock now key effective stores = .ok (stores', result) ∧
          scriptVerdict pid clock now key effective stores = some verdict ∧
          result.allowed = verdict.allowed := by
  unfold check scriptVerdict AlgorithmFactory.getAlgorithm AlgorithmFactory.registry
  cases effective.algorithm with
  | tokenBucket => exact .inr ⟨_, _, _, rfl, rfl, rfl⟩
  | slidingWindow => exact .inr ⟨_, _, _, rfl, rfl, rfl⟩
  | fixedWindow => exact .inr ⟨_, _, _, rfl, rfl, rfl⟩
  | leakyBucket => exact .inl rfl

end RateLimiterService

end RateLimiter.Limiter
