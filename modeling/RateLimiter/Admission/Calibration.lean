import RateLimiter.Admission.Calls
import RateLimiter.Admission.Estimator
import RateLimiter.Foundations.Averages
import Mathlib.Tactic.Ring

/-!
# Calibrated reservations

Every first commit that is answered weighs the durations and the output it reports into
the averages of the pair.  An adaptive policy reads the average output before it calls
`ADMIT_SCRIPT`, so by then other commits may have moved it.  The averages stay within what
was observed, and what is held within what was declared and observed.
-/

namespace RateLimiter.Admission

open RateLimiter.Redis RateLimiter.Javascript RateLimiter.Foundations

/-- `observedOutputTokens`: what the service reads before a reserve. -/
def observedOutputTokens {Rid : Type} (p : Limits) (s : PairState Rid) : Rat :=
  match p.reservationMode with
  | .worstCase => 0
  | .adaptive => (s.stats.get .outTokens).getD 0

/-- The estimate of a request of whole tokens. -/
def estimated (p : Limits) (promptTokens maxOutputTokens : Nat) (observed : Rat) : Int :=
  (estimateReservation min p (promptTokens : Int) maxOutputTokens observed).reserveTokens

/-- `reserve`, from what it has read on: the estimate is handed to `ADMIT_SCRIPT`. -/
def reserve {Rid : Type} [LinearOrder Rid] (p : Limits) (observed : Rat) (clock now : Int)
    (rid : Rid) (promptTokens maxOutputTokens : Nat) (sloTtftMs : Rat) (s : PairState Rid) :
    PairState Rid × Except ScriptError AdmitReply :=
  admitScript clock (admitArgs p now rid
    (some (estimated p promptTokens maxOutputTokens observed : Rat)) sloTtftMs) s

/-- Was the call a commit or a release that is answered and the first for its reservation? -/
def settledNow : Reply → Bool
  | .commit (.ok reply) => reply.status ≠ .duplicateIgnored
  | _ => false

/-! ## What a call does to the averages -/

section Observe

variable (alpha sample : Rat) (stats : Hash StatField Rat)

theorem observeService_svcMs :
    (observeService alpha sample stats).get .svcMs =
      if 0 < sample then some (ewma alpha sample (stats.get .svcMs)) else stats.get .svcMs := by
  unfold observeService
  split <;> simp

theorem observeService_of_ne {f : StatField} (h : f ≠ .svcMs) :
    (observeService alpha sample stats).get f = stats.get f := by
  unfold observeService
  split
  · exact Collection.get_put_of_ne h _ _
  · rfl

theorem observeOutput_svcMs :
    (observeOutput alpha sample stats).get .svcMs = stats.get .svcMs := by
  have hout : StatField.svcMs ≠ .outTokens := by decide
  have hpeak : StatField.svcMs ≠ .outPeak := by decide
  unfold observeOutput
  split
  · dsimp only
    split
    · rw [Collection.get_put_of_ne hpeak, Collection.get_put_of_ne hout]
    · rw [Collection.get_put_of_ne hout]
  · rfl

theorem observeOutput_outTokens :
    (observeOutput alpha sample stats).get .outTokens =
      if 0 < sample then some (ewma alpha sample (stats.get .outTokens))
      else stats.get .outTokens := by
  have hpeak : StatField.outTokens ≠ .outPeak := by decide
  unfold observeOutput
  split
  · dsimp only
    split
    · rw [Collection.get_put_of_ne hpeak, Collection.get_put]
    · rw [Collection.get_put]
  · rfl

theorem observeOutput_outPeak :
    (observeOutput alpha sample stats).get .outPeak =
      if 0 < sample ∧ (stats.get .outPeak).getD 0 < sample then some sample
      else stats.get .outPeak := by
  have hout : StatField.outPeak ≠ .outTokens := by decide
  unfold observeOutput
  dsimp only
  rw [Collection.get_put_of_ne hout]
  by_cases hsample : 0 < sample
  · by_cases hpeak : (stats.get .outPeak).getD 0 < sample
    · simp [hsample, hpeak]
    · simp [hsample, hpeak, Collection.get_put_of_ne hout]
  · simp [hsample]

end Observe

section Step

variable {Rid : Type} [LinearOrder Rid] {s : PairState Rid} {r : Request Rid}

/-- A commit that settles its reservation weighs in what it reports; any other leaves the
averages alone. -/
theorem commitScript_stats (clock : Int) (a : CommitArgs Rid) (s : PairState Rid)
    {actual serviceMs outputTokens : Rat} (hactual : a.actual = some actual)
    (hservice : a.serviceMs = some serviceMs) (houtput : a.outputTokens = some outputTokens)
    (f : StatField) :
    (commitScript clock a s).1.stats.get f =
      if settledNow (.commit (commitScript clock a s).2) then
        (observeOutput a.alpha outputTokens
          (observeService a.alpha serviceMs s.stats)).get f
      else s.stats.get f := by
  cases hmarker : s.settled a.rid with
  | some marker =>
      rw [commitScript_duplicate clock a s hmarker]
      simp [settledNow]
  | none =>
      cases hidem : acceptedTtl clock a.idemTtl with
      | none =>
          rw [commitScript_refused clock a s hmarker hactual hidem, takeHold_frame]
          simp [settledNow]
      | some idem =>
          rw [commitScript_settles clock a s hmarker hactual hidem hservice houtput]
          have hfirst : ∀ b : Bool,
              (if b then CommitStatus.committed else .reconciledAfterExpiry) ≠
                .duplicateIgnored := by decide
          simp [settledNow, hfirst]

/-- The duration and the output a call reports. -/
def reported (r : Request Rid) : Rat × Rat :=
  match r.op with
  | .commit _ _ serviceMs outputTokens => (serviceMs, outputTokens)
  | _ => (0, 0)

/-- What a call does to the averages. -/
theorem step_stats (f : StatField) :
    (step s r).stats.get f =
      if settledNow (handle s r).2 then
        (observeOutput ewmaAlpha (reported r).2
          (observeService ewmaAlpha (reported r).1 s.stats)).get f
      else s.stats.get f := by
  cases hop : r.op with
  | reserve rid tokens slo =>
      have hkept : (step s r).stats = s.stats := by
        rcases reserve_cases (s := s) hop with ⟨-, -, -, hreserved, -⟩ | ⟨-, hreserved, -⟩
        · exact hreserved.stats
        · exact hreserved.stats
      have hnone : settledNow (handle s r).2 = false := by
        unfold handle
        rw [hop]
        rfl
      rw [hkept, hnone]
      rfl
  | commit rid actual serviceMs outputTokens =>
      unfold step handle reported
      rw [hop]
      exact commitScript_stats _ _ _ rfl rfl rfl f
  | release rid =>
      unfold step handle reported
      rw [hop]
      exact commitScript_stats _ _ _ rfl rfl rfl f
  | snapshot =>
      unfold step handle
      rw [hop]
      rfl

/-- The output a call adds to what was observed, none unless it settles with a sample. -/
def outputSample (s : PairState Rid) (r : Request Rid) : List Rat :=
  if settledNow (handle s r).2 ∧ 0 < (reported r).2 then [(reported r).2] else []

/-- The duration a call adds to what was observed. -/
def serviceSample (s : PairState Rid) (r : Request Rid) : List Rat :=
  if settledNow (handle s r).2 ∧ 0 < (reported r).1 then [(reported r).1] else []

/-- The outputs that the commits of a run were the first to report for their reservation. -/
def outputsObserved (s : PairState Rid) (calls : List (Request Rid)) : List Rat :=
  (outputs step outputSample s calls).flatten

/-- The durations they reported. -/
def servicesObserved (s : PairState Rid) (calls : List (Request Rid)) : List Rat :=
  (outputs step serviceSample s calls).flatten

end Step

/-! ## The averages over a run -/

/-- No average before the first sample, and then one between the samples. -/
def Averaged (samples : List Rat) : Option Rat → Prop
  | none => samples = []
  | some average => Between samples average

/-- No peak before the first sample, and then the greatest of them. -/
def Peaked (samples : List Rat) : Option Rat → Prop
  | none => samples = []
  | some peak => IsGreatest {x | x ∈ samples} peak

theorem Averaged.ewma {samples : List Rat} {average : Option Rat} (h : Averaged samples average)
    (sample : Rat) : Averaged (samples ++ [sample]) (some (ewma ewmaAlpha sample average)) := by
  cases average with
  | none =>
      obtain rfl : samples = [] := h
      exact between_singleton sample
  | some average =>
      have hweight : 0 ≤ ewmaAlpha := by norm_num [ewmaAlpha]
      have hone : ewmaAlpha ≤ 1 := by norm_num [ewmaAlpha]
      exact Between.blend h hweight hone

theorem Peaked.append {samples : List Rat} {peak : Option Rat} (h : Peaked samples peak)
    {sample : Rat} (hsample : 0 < sample) :
    Peaked (samples ++ [sample]) (if peak.getD 0 < sample then some sample else peak) := by
  cases peak with
  | none =>
      obtain rfl : samples = [] := h
      simp [hsample, Peaked, isGreatest_singleton]
  | some peak =>
      have happend := isGreatest_append h (x := sample)
      by_cases hpeak : peak < sample
      · rw [max_eq_left hpeak.le] at happend
        simpa [hpeak, Peaked] using happend
      · rw [max_eq_right (not_lt.mp hpeak)] at happend
        simpa [hpeak, Peaked] using happend

/-- What the averages are after `services` and `outs` have been weighed in. -/
structure Calibrated (services outs : List Rat) (stats : Hash StatField Rat) : Prop where
  svcMs : Averaged services (stats.get .svcMs)
  outTokens : Averaged outs (stats.get .outTokens)
  outPeak : Peaked outs (stats.get .outPeak)

theorem calibrated_absent : Calibrated [] [] (.absent : Hash StatField Rat) := ⟨rfl, rfl, rfl⟩

section Runs

variable {Rid : Type} [LinearOrder Rid] {s : PairState Rid} {services outs : List Rat}

/-- A call weighs in the samples it adds. -/
theorem Calibrated.step (h : Calibrated services outs s.stats) (r : Request Rid) :
    Calibrated (services ++ serviceSample s r) (outs ++ outputSample s r)
      (Admission.step s r).stats := by
  by_cases hsettled : settledNow (handle s r).2 = true
  · refine ⟨?_, ?_, ?_⟩
    · -- a duration of zero is no sample
      rw [step_stats, if_pos hsettled, observeOutput_svcMs, observeService_svcMs]
      by_cases hpos : 0 < (reported r).1
      · simpa [serviceSample, hsettled, hpos] using h.svcMs.ewma (reported r).1
      · simpa [serviceSample, hpos] using h.svcMs
    · have hkept := observeService_of_ne ewmaAlpha (reported r).1 s.stats
        (f := .outTokens) (by simp)
      rw [step_stats, if_pos hsettled, observeOutput_outTokens, hkept]
      by_cases hpos : 0 < (reported r).2
      · simpa [outputSample, hsettled, hpos] using h.outTokens.ewma (reported r).2
      · simpa [outputSample, hpos] using h.outTokens
    · have hkept := observeService_of_ne ewmaAlpha (reported r).1 s.stats
        (f := .outPeak) (by simp)
      rw [step_stats, if_pos hsettled, observeOutput_outPeak, hkept]
      by_cases hpos : 0 < (reported r).2
      · simpa [outputSample, hsettled, hpos] using h.outPeak.append hpos
      · simpa [outputSample, hpos] using h.outPeak
  · have hkept : ∀ f, (Admission.step s r).stats.get f = s.stats.get f := by
      intro f
      rw [step_stats, if_neg hsettled]
    refine ⟨?_, ?_, ?_⟩
    · simpa [serviceSample, hsettled, hkept] using h.svcMs
    · simpa [outputSample, hsettled, hkept] using h.outTokens
    · simpa [outputSample, hsettled, hkept] using h.outPeak

/-- A run weighs in what it observes. -/
theorem Calibrated.run (h : Calibrated services outs s.stats) (calls : List (Request Rid)) :
    Calibrated (services ++ servicesObserved s calls) (outs ++ outputsObserved s calls)
      (Foundations.run Admission.step s calls).stats := by
  induction calls generalizing s services outs with
  | nil => simpa [servicesObserved, outputsObserved] using h
  | cons r calls ih =>
      have hrest := ih (h.step r)
      simpa [servicesObserved, outputsObserved, List.append_assoc] using hrest

/-- From no averages a run leaves those of what it observes. -/
theorem calibrated_run (hs : s.stats = .absent) (calls : List (Request Rid)) :
    Calibrated (servicesObserved s calls) (outputsObserved s calls) (run step s calls).stats := by
  have hstart : Calibrated [] [] s.stats := by
    rw [hs]
    exact calibrated_absent
  exact hstart.run calls

/-- Every output observed is positive. -/
theorem outputsObserved_pos {x : Rat} {calls : List (Request Rid)}
    (h : x ∈ outputsObserved s calls) : 0 < x := by
  induction calls generalizing s with
  | nil => cases h
  | cons r calls ih =>
      rcases List.mem_append.mp h with hhead | hrest
      · unfold outputSample at hhead
        split at hhead
        next hsample => exact List.eq_of_mem_singleton hhead ▸ hsample.2
        next => cases hhead
      · exact ih hrest

end Runs

/-! ## What is held -/

section Estimate

variable (p : Limits) (promptTokens : Nat) {maxOutputTokens : Nat} (observed : Rat)

/-- The hold of an adaptive policy once an output has been observed. -/
theorem estimated_of_pos (hmode : p.reservationMode = .adaptive) {observed : Rat}
    (hobserved : 0 < observed) :
    estimated p promptTokens maxOutputTokens observed = promptTokens +
      min (maxOutputTokens : Int) (max ⌈observed * p.reservationSafetyFactor⌉ 1) := by
  unfold estimated estimateReservation
  simp [hmode, hobserved.not_ge]

/-- Until then it is the declared ceiling. -/
theorem estimated_of_nonpos {observed : Rat} (hobserved : observed ≤ 0) :
    estimated p promptTokens maxOutputTokens observed = promptTokens + maxOutputTokens := by
  unfold estimated estimateReservation
  cases p.reservationMode with
  | worstCase => rfl
  | adaptive => simp [hobserved]

/-- The hold of a worst-case policy is the declared ceiling, whatever was observed. -/
theorem estimated_worstCase (hmode : p.reservationMode = .worstCase) :
    estimated p promptTokens maxOutputTokens observed = promptTokens + maxOutputTokens :=
  estimateReservation_worstCase min hmode _ _ _

/-- Every estimate is at most the declared ceiling. -/
theorem estimated_le_declared :
    estimated p promptTokens maxOutputTokens observed ≤ promptTokens + maxOutputTokens := by
  cases hmode : p.reservationMode with
  | worstCase => exact (estimated_worstCase p promptTokens observed hmode).le
  | adaptive =>
      rcases le_or_gt observed 0 with hcold | hobserved
      · exact (estimated_of_nonpos p promptTokens hcold).le
      · rw [estimated_of_pos p promptTokens hmode hobserved]
        omega

/-- And it is more than the prompt. -/
theorem prompt_lt_estimated (hmax : 1 ≤ maxOutputTokens) :
    (promptTokens : Int) < estimated p promptTokens maxOutputTokens observed := by
  cases hmode : p.reservationMode with
  | worstCase =>
      rw [estimated_worstCase p promptTokens observed hmode]
      omega
  | adaptive =>
      rcases le_or_gt observed 0 with hcold | hobserved
      · rw [estimated_of_nonpos p promptTokens hcold]
        omega
      · rw [estimated_of_pos p promptTokens hmode hobserved]
        omega

/-- Nor is it more than the greatest output allows for. -/
theorem estimated_le_of_le (hmode : p.reservationMode = .adaptive) {observed greatest : Rat}
    (hobserved : 0 < observed) (hle : observed ≤ greatest) :
    estimated p promptTokens maxOutputTokens observed ≤
      promptTokens + ⌈p.reservationSafetyFactor * greatest⌉ := by
  have hfactor : 0 < p.reservationSafetyFactor := one_pos.trans_le p.one_le_safetyFactor
  have hscaled : observed * p.reservationSafetyFactor ≤ p.reservationSafetyFactor * greatest := by
    rw [mul_comm]
    exact mul_le_mul_of_nonneg_left hle hfactor.le
  have hceil := Int.ceil_mono hscaled
  have hone : 0 < ⌈p.reservationSafetyFactor * greatest⌉ :=
    Int.ceil_pos.mpr (mul_pos hfactor (hobserved.trans_le hle))
  rw [estimated_of_pos p promptTokens hmode hobserved]
  omega

end Estimate

section Holds

variable {Rid : Type} [LinearOrder Rid]

/-- **Adaptive holds.**  From no averages on, the averages lie between the least and the
greatest of what was observed and the peak is the greatest output.  So what an adaptive
reserve holds, whatever happens between its read and its script, is more than the prompt,
no more than what it declared, and no more than the greatest output observed at the read
allows for. -/
theorem adaptive_hold_within_observed (s : PairState Rid) (hs : s.stats = .absent)
    (before between : List (Request Rid)) :
    (∀ average, (run step s before).stats.get .outTokens = some average →
      ∃ lo hi, IsLeast {x | x ∈ outputsObserved s before} lo ∧
        IsGreatest {x | x ∈ outputsObserved s before} hi ∧ lo ≤ average ∧ average ≤ hi ∧
        (run step s before).stats.get .outPeak = some hi) ∧
    (∀ average, (run step s before).stats.get .svcMs = some average →
      ∃ lo hi, IsLeast {x | x ∈ servicesObserved s before} lo ∧
        IsGreatest {x | x ∈ servicesObserved s before} hi ∧ lo ≤ average ∧ average ≤ hi) ∧
    ∀ (p : Limits) (clock now : Int) (rid : Rid) (promptTokens maxOutputTokens : Nat)
      (sloTtftMs : Rat) (s' : PairState Rid) (reply : AdmitReply),
      p.reservationMode = .adaptive → 1 ≤ maxOutputTokens →
      reserve p (observedOutputTokens p (run step s before)) clock now rid promptTokens
        maxOutputTokens sloTtftMs (run step (run step s before) between) = (s', .ok reply) →
      reply.decision = .admitted →
      ∃ held : Int, s'.reservations.get rid = some (held : Rat) ∧
        (promptTokens : Int) + 1 ≤ held ∧ held ≤ promptTokens + maxOutputTokens ∧
        ∀ hi, (run step s before).stats.get .outTokens ≠ none →
          IsGreatest {x | x ∈ outputsObserved s before} hi →
          held ≤ promptTokens + ⌈p.reservationSafetyFactor * hi⌉ := by
  have hcalibrated := calibrated_run hs before
  refine ⟨?_, ?_, ?_⟩
  · intro average haverage
    have hbetween := hcalibrated.outTokens
    rw [haverage] at hbetween
    obtain ⟨lo, hlo⟩ := exists_isLeast (Between.ne_nil hbetween)
    have hpeaked := hcalibrated.outPeak
    cases hpeak : (run step s before).stats.get .outPeak with
    | none =>
        rw [hpeak] at hpeaked
        exact absurd hpeaked (Between.ne_nil hbetween)
    | some hi =>
        rw [hpeak] at hpeaked
        exact ⟨lo, hi, hlo, hpeaked, Between.least_le hbetween hlo,
          Between.le_greatest hbetween hpeaked, rfl⟩
  · intro average haverage
    have hbetween := hcalibrated.svcMs
    rw [haverage] at hbetween
    obtain ⟨lo, hlo⟩ := exists_isLeast (Between.ne_nil hbetween)
    obtain ⟨hi, hhi⟩ := exists_isGreatest (Between.ne_nil hbetween)
    exact ⟨lo, hi, hlo, hhi, Between.least_le hbetween hlo, Between.le_greatest hbetween hhi⟩
  · intro p clock now rid promptTokens maxOutputTokens sloTtftMs s' reply hmode hmax hreserve
      hadmitted
    have hheld := admitScript_held hreserve hadmitted
    refine ⟨_, hheld, prompt_lt_estimated p promptTokens _ hmax,
      estimated_le_declared p promptTokens _, ?_⟩
    intro hi hpresent hgreatest
    obtain ⟨average, haverage⟩ := Option.ne_none_iff_exists'.mp hpresent
    have hbetween := hcalibrated.outTokens
    rw [haverage] at hbetween
    have hread : observedOutputTokens p (run step s before) = average := by
      simp [observedOutputTokens, hmode, haverage]
    -- the average is positive because the samples it lies between are
    have hpos : 0 < average := by
      obtain ⟨⟨x, hx, hle⟩, -⟩ := hbetween
      exact (outputsObserved_pos hx).trans_le hle
    rw [hread]
    exact estimated_le_of_le p promptTokens hmode hpos (Between.le_greatest hbetween hgreatest)

end Holds

/-- The default limits with holds estimated from what was observed. -/
def adaptiveLimits : Limits := { defaultLimits with reservationMode := .adaptive }

/-- One reservation that came to 380 tokens of output. -/
def observedOnce : List (Request Nat) :=
  [callAt adaptiveLimits 0 (.reserve 1 5000 0), callAt adaptiveLimits 900 (.commit 1 480 900 380)]

/-- After it a request of 4000 tokens of output holds at most 670. -/
theorem adaptive_hold_within_observed_once :
    ∃ held : Int,
      (reserve adaptiveLimits (observedOutputTokens adaptiveLimits (run step .empty observedOnce))
        1000 1000 2 100 4000 0 (run step .empty observedOnce)).1.reservations.get 2 =
          some (held : Rat) ∧
        held ≤ (100 : Nat) + ⌈adaptiveLimits.reservationSafetyFactor * 380⌉ := by
  have hgreatest : IsGreatest {x | x ∈ outputsObserved .empty observedOnce} (380 : Rat) := by
    have hsamples : outputsObserved (.empty : PairState Nat) observedOnce = [380] := by
      decide +kernel
    rw [hsamples]
    simp [isGreatest_singleton]
  obtain ⟨held, hheld, -, -, hle⟩ :=
    (adaptive_hold_within_observed (.empty : PairState Nat) rfl observedOnce []).2.2
      adaptiveLimits 1000 1000 2 100 4000 0 _
      ⟨.admitted, 670, 99330, 599, 1, 0, 0⟩ rfl (by decide) (Prod.ext rfl (by decide +kernel)) rfl
  exact ⟨held, hheld, hle 380 (by decide +kernel) hgreatest⟩

end RateLimiter.Admission
