import Mathlib.Data.List.Infix
import RateLimiter.Limiter.Checks

/-!
# The degraded mode

`guardState` runs a handler and, when it throws, tells from the error whether the state
of the limiter is out of reach.  All it has to go by is the text of the message.
-/

namespace RateLimiter.Gateway

open RateLimiter.Javascript RateLimiter.Limiter

/-- `config.failure`, for one surface. -/
inductive FailureMode
  | failOpen
  | failClosed
deriving DecidableEq, Repr

/-! ## The classifier -/

/-- A letter of the basic alphabet in lower case, as `i` compares it. -/
def lowerCase (c : CodeUnit) : CodeUnit :=
  if unit 'A' ≤ c ∧ c ≤ unit 'Z' then codeUnit (c.val + 32) else c

/-- The alternatives of `CONNECTION_FAILURE`. -/
def connectionFailures : List JsString :=
  [js "Connection is closed", js "ECONNREFUSED", js "ETIMEDOUT", js "EPIPE", js "ENOTFOUND",
    js "Stream isn't writeable", js "max retries"]

/-- `CONNECTION_FAILURE.test(message)`. -/
def connectionFailure (message : JsString) : Bool :=
  connectionFailures.any fun text => text.map lowerCase <:+: message.map lowerCase

def isStateUnavailable : Thrown → Bool
  | .redisConnectionError _ => true
  | .error message => connectionFailure message

/-! ## Responses -/

/-- What a client is sent: a body, or the code and the message of an error.  `degraded`
flags what no verdict stands behind. -/
inductive Response (β : Type)
  | json (status : Nat) (body : β) (degraded : Option FailureMode)
  | failure (status : Nat) (code message : JsString) (degraded : Option FailureMode)

variable {β : Type}

def errorHandler : Thrown → Response β
  | .redisConnectionError message => .failure 503 (js "REDIS_CONNECTION_ERROR") message none
  | .error _ =>
      .failure 500 (js "INTERNAL_SERVER_ERROR") (js "An unexpected error occurred") none

def guardState (mode : FailureMode) (openResponse : β) :
    Except Thrown (Response β) → Response β
  | .ok response => response
  | .error thrown =>
      if isStateUnavailable thrown then
        match mode with
        | .failOpen => .json 200 openResponse (some .failOpen)
        | .failClosed =>
            .failure 503 (js "LIMITER_UNAVAILABLE")
              (js "Limiter state is unavailable and this surface is configured to fail closed")
              (some .failClosed)
      else errorHandler thrown

/-- The body a client is sent, if any. -/
def Response.body? : Response β → Option β
  | .json _ body _ => some body
  | .failure _ _ _ _ => none

/-- After an error a client is sent a body only where the surface fails open and the error
is taken for an unreachable state, and then it is the open response. -/
theorem body_guardState_error (mode : FailureMode) (openResponse : β) (thrown : Thrown) :
    (guardState mode openResponse (.error thrown)).body? =
      if isStateUnavailable thrown ∧ mode = .failOpen then some openResponse else none := by
  unfold guardState
  dsimp only
  cases hclass : isStateUnavailable thrown with
  | false => cases thrown <;> rfl
  | true => cases mode <;> rfl

end RateLimiter.Gateway
