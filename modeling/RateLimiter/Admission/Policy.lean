import Mathlib.Algebra.Order.Field.Rat
import RateLimiter.Javascript.Text

/-!
# Admission policies

The limits a policy puts on one (tenant, model) pair and the record the service
passes around.  The constraints are the ones the policy table checks, so a row
that breaks them cannot be stored and a value that breaks them cannot be built.
-/

namespace RateLimiter.Admission

open RateLimiter.Javascript

/-- How much budget to hold at reserve time. -/
inductive ReservationMode
  | worstCase
  | adaptive
deriving DecidableEq, Repr

/-- The numbers of a policy, with the `CHECK` constraints of their columns. -/
structure Limits where
  tokensPerMinute : Nat
  requestsPerMinute : Nat
  maxConcurrency : Nat
  maxQueueDepth : Nat
  leaseSeconds : Nat
  reservationMode : ReservationMode
  reservationSafetyFactor : Rat
  tokensPerMinute_pos : 0 < tokensPerMinute
  requestsPerMinute_pos : 0 < requestsPerMinute
  maxConcurrency_pos : 0 < maxConcurrency
  leaseSeconds_pos : 0 < leaseSeconds
  one_le_safetyFactor : 1 ≤ reservationSafetyFactor

/-- A policy as it governs one pair.  `scope` names the configured policy the
limits come from. -/
structure AdmissionPolicy extends Limits where
  tenant : JsString
  model : JsString
  scope : JsString
  enabled : Bool

/-- The numbers of `DEFAULT_POLICY`. -/
def defaultLimits : Limits where
  tokensPerMinute := 100000
  requestsPerMinute := 600
  maxConcurrency := 16
  maxQueueDepth := 64
  leaseSeconds := 120
  reservationMode := .worstCase
  reservationSafetyFactor := 3 / 2
  tokensPerMinute_pos := by decide
  requestsPerMinute_pos := by decide
  maxConcurrency_pos := by decide
  leaseSeconds_pos := by decide
  one_le_safetyFactor := by decide +kernel

namespace Limits

/-- The time to live of the budget keys. -/
def ttlSeconds (p : Limits) : Nat := max 120 (p.leaseSeconds * 2 + 60)

/-- How long a hold survives without a commit. -/
def leaseMs (p : Limits) : Int := p.leaseSeconds * 1000

theorem tokensPerMinute_pos_rat (p : Limits) : (0 : Rat) < p.tokensPerMinute := by
  exact_mod_cast p.tokensPerMinute_pos

/-- A policy's own leases end well before its budget keys do. -/
theorem leaseMs_le_ttl (p : Limits) : p.leaseMs ≤ 1000 * p.ttlSeconds := by
  unfold leaseMs ttlSeconds
  omega

end Limits

end RateLimiter.Admission
