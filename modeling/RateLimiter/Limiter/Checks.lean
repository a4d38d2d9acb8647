import Mathlib.Algebra.Order.Field.Rat
import Mathlib.Data.Rat.Floor
import RateLimiter.Javascript.Text

/-!
# Checks of the generic limiter

What the three algorithms have in common: the limit they are handed, the reply of
their scripts, and the result they make of it.
-/

namespace RateLimiter.Limiter

open RateLimiter.Javascript

/-- An `Error` that is thrown, with its message. -/
inductive Thrown
  | error (message : JsString)
  | redisConnectionError (message : JsString)
deriving DecidableEq

/-- A limit per window, as the request schema and the rule schema let it through. -/
structure Quota where
  limit : Nat
  windowSeconds : Nat
  limit_pos : 0 < limit
  windowSeconds_pos : 0 < windowSeconds

/-- The window in milliseconds. -/
def Quota.windowMs (q : Quota) : Nat := q.windowSeconds * 1000

theorem Quota.windowMs_pos (q : Quota) : 0 < q.windowMs :=
  Nat.mul_pos q.windowSeconds_pos (by decide)

/-- The four numbers a script returns. -/
structure Verdict where
  allowed : Bool
  /-- The tokens left of a bucket, or the requests counted in a window. -/
  count : Int
  resetAt : Int
  retryAfterMs : Int
deriving DecidableEq, Repr

structure RateLimitCheckResult where
  allowed : Bool
  limit : Nat
  remaining : Int
  resetAt : Int
  retryAfter : Option Int
  retryAfterMs : Option Int
deriving DecidableEq, Repr

/-- The result of a check, from its verdict and what remains. -/
def checkResult (limit : Nat) (remaining : Int) (v : Verdict) : RateLimitCheckResult where
  allowed := v.allowed
  limit := limit
  remaining := remaining
  resetAt := v.resetAt
  retryAfter := if v.allowed then none else some (max 1 ⌈(v.retryAfterMs : Rat) / 1000⌉)
  retryAfterMs := if v.allowed then none else some v.retryAfterMs

end RateLimiter.Limiter
