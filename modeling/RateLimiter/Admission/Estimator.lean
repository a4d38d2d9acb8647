import Mathlib.Algebra.Order.Floor.Ring
import Mathlib.Data.Rat.Floor
import RateLimiter.Admission.Policy

/-!
# How many tokens a reserve holds

`estimateReservation`, over whatever the caller's token counts are at run time:
the sum and `Math.min` are those of their type.
-/

namespace RateLimiter.Admission

/-- What the estimate rests on. -/
inductive Basis
  | worstCase
  | observed
  | coldStart
deriving DecidableEq, Repr

structure ReservationEstimate (ν : Type) where
  reserveTokens : ν
  worstCaseTokens : ν
  basis : Basis

/-- `estimateReservation`. -/
def estimateReservation {ν : Type} [Add ν] (mathMin : ν → Int → ν) (p : Limits)
    (promptTokens maxOutputTokens : ν) (observedOutputEwma : Rat) : ReservationEstimate ν :=
  let worstCaseTokens := promptTokens + maxOutputTokens
  match p.reservationMode with
  | .worstCase => ⟨worstCaseTokens, worstCaseTokens, .worstCase⟩
  | .adaptive =>
      if observedOutputEwma ≤ 0 then ⟨worstCaseTokens, worstCaseTokens, .coldStart⟩
      else
        let projected := ⌈observedOutputEwma * p.reservationSafetyFactor⌉
        let output := mathMin maxOutputTokens (max projected 1)
        ⟨promptTokens + output, worstCaseTokens, .observed⟩

/-- Under a worst-case policy the hold is the declared ceiling. -/
theorem estimateReservation_worstCase {ν : Type} [Add ν] (mathMin : ν → Int → ν) {p : Limits}
    (hmode : p.reservationMode = .worstCase) (promptTokens maxOutputTokens : ν)
    (observedOutputEwma : Rat) :
    (estimateReservation mathMin p promptTokens maxOutputTokens observedOutputEwma).reserveTokens =
      promptTokens + maxOutputTokens := by
  unfold estimateReservation
  rw [hmode]

end RateLimiter.Admission
