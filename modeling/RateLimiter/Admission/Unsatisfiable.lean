import RateLimiter.Admission.Calibration

/-!
# Requests larger than the budget

A reserve is shed as unsatisfiable when its estimate is more than the budget, and told
not to retry.  A worst-case estimate never changes.  An adaptive one moves with the
average output of the pair, from the declared ceiling before the first commit down to a
single token's worth, so whether the verdict is for good depends on the policy and on the
size of the request.
-/

namespace RateLimiter.Admission

open RateLimiter.Redis RateLimiter.Javascript RateLimiter.Foundations

section Verdict

variable {Rid : Type} [LinearOrder Rid]

/-- The reserve of a request at `now`, with its read, on the keys that are left by then. -/
def reserveAt (p : Limits) (now : Int) (rid : Rid) (promptTokens maxOutputTokens : Nat)
    (sloTtftMs : Rat) (s : PairState Rid) : PairState Rid × Except ScriptError AdmitReply :=
  reserve p (observedOutputTokens p (s.purge now)) now now rid promptTokens maxOutputTokens
    sloTtftMs (s.purge now)

/-- It is shed as unsatisfiable, which carries no wait. -/
def ShedUnsatisfiable (p : Limits) (now : Int) (rid : Rid) (promptTokens maxOutputTokens : Nat)
    (sloTtftMs : Rat) (s : PairState Rid) : Prop :=
  verdictOf (.reserve (reserveAt p now rid promptTokens maxOutputTokens sloTtftMs s).2) =
    some (.shed .unsatisfiable 0)

/-- The output a commit reports is a whole number of tokens, as the route checks. -/
def WholeOutput (r : Request Rid) : Prop := ∃ n : Nat, (reported r).2 = n

/-- Shed as unsatisfiable once, a request is shed so after any further calls under the
same policy, at any later time. -/
def StaysUnsatisfiable (Rid : Type) [LinearOrder Rid] (p : Limits)
    (promptTokens maxOutputTokens : Nat) : Prop :=
  ∀ (start now later : Int) (before further : List (Request Rid)) (rid rid' : Rid)
    (sloTtftMs sloTtftMs' : Rat),
    (∀ r ∈ before ++ further, r.clock = r.now ∧ WholeOutput r) →
    (∀ r ∈ further, r.policy = p) →
    Chronological Request.now start before → lastTime Request.now start before ≤ now →
    Chronological Request.now now further → lastTime Request.now now further ≤ later →
    ShedUnsatisfiable p now rid promptTokens maxOutputTokens sloTtftMs
      (run stepAlive .empty before) →
    ShedUnsatisfiable p later rid' promptTokens maxOutputTokens sloTtftMs'
      (run stepAlive (reserveAt p now rid promptTokens maxOutputTokens sloTtftMs
        (run stepAlive .empty before)).1 further)

variable {p : Limits} {now : Int} {rid : Rid} {promptTokens maxOutputTokens : Nat}
  {sloTtftMs : Rat} {s : PairState Rid}

/-- The verdict rests on the estimate alone. -/
theorem shedUnsatisfiable_iff :
    ShedUnsatisfiable p now rid promptTokens maxOutputTokens sloTtftMs s ↔
      (p.tokensPerMinute : Int) < estimated p promptTokens maxOutputTokens
        (observedOutputTokens p (s.purge now)) := by
  obtain ⟨reply, hreply, hreport⟩ := admitScript_reply now
    (admitArgs p now rid (some (estimated p promptTokens maxOutputTokens
      (observedOutputTokens p (s.purge now)) : Rat)) sloTtftMs) (s.purge now) rfl
  change (reserveAt p now rid promptTokens maxOutputTokens sloTtftMs s).2 = .ok reply at hreply
  have hlimit : (admitArgs p now rid (some (estimated p promptTokens maxOutputTokens
      (observedOutputTokens p (s.purge now)) : Rat)) sloTtftMs).tpmLimit =
      ((p.tokensPerMinute : Int) : Rat) := rfl
  unfold ShedUnsatisfiable
  rw [hreply]
  simp only [verdictOf, Option.some.injEq]
  rw [hreport.decision, decideAdmission_unsatisfiable_iff, hlimit, Int.cast_lt]
  exact and_iff_left rfl

/-- A reserve leaves the averages and the markers alone. -/
theorem reserveAt_frame :
    (reserveAt p now rid promptTokens maxOutputTokens sloTtftMs s).1.stats = (s.purge now).stats ∧
      (reserveAt p now rid promptTokens maxOutputTokens sloTtftMs s).1.settled =
        (s.purge now).settled := by
  unfold reserveAt reserve
  rcases admitScript_cases now (admitArgs p now rid
      (some (estimated p promptTokens maxOutputTokens (observedOutputTokens p (s.purge now)) : Rat))
      sloTtftMs) (s.purge now) rfl with ⟨reply, hscript, -⟩ | ⟨reply, reason, wait, hscript, -⟩
  · rw [hscript]
    exact ⟨reclaim_stats _ _ _, reclaim_settled _ _ _⟩
  · rw [hscript]
    exact ⟨reclaim_stats _ _ _, reclaim_settled _ _ _⟩

end Verdict

/-! ## An average output is at least one token -/

section Average

variable {Rid : Type} [LinearOrder Rid] {s : PairState Rid} {r : Request Rid}

/-- What is averaged of whole outputs is at least one token. -/
def OneOnAverage (s : PairState Rid) : Prop :=
  ∀ average, s.stats.get .outTokens = some average → 1 ≤ average

omit [LinearOrder Rid] in
theorem oneOnAverage_empty : OneOnAverage (.empty : PairState Rid) := by
  intro average haverage
  cases haverage

omit [LinearOrder Rid] in
theorem OneOnAverage.purge (h : OneOnAverage s) (clock : Int) : OneOnAverage (s.purge clock) :=
  fun average haverage => h average (Collection.get_of_get_purge haverage)

theorem one_le_ewma {sample : Rat} {average : Option Rat} (hsample : 1 ≤ sample)
    (haverage : ∀ v, average = some v → 1 ≤ v) : 1 ≤ ewma ewmaAlpha sample average := by
  cases average with
  | none => exact hsample
  | some v =>
      have hv := haverage v rfl
      unfold ewma ewmaAlpha
      linarith

theorem OneOnAverage.step (h : OneOnAverage s) (hwhole : WholeOutput r) :
    OneOnAverage (step s r) := by
  intro average haverage
  obtain ⟨n, hn⟩ := hwhole
  have hkept := observeService_of_ne ewmaAlpha (reported r).1 s.stats
    (f := .outTokens) (by simp)
  rw [step_stats, observeOutput_outTokens, hkept] at haverage
  -- only a first commit with some output moves the average
  split_ifs at haverage with hsettled hpos
  · rw [hn] at hpos haverage
    have hone : (1 : Rat) ≤ n := by exact_mod_cast hpos
    obtain rfl := Option.some.inj haverage
    exact one_le_ewma hone h
  · exact h average haverage
  · exact h average haverage

/-- It stays so over calls with whole outputs, whatever keys expire. -/
theorem OneOnAverage.run (h : OneOnAverage s) {calls : List (Request Rid)}
    (hwhole : ∀ r ∈ calls, WholeOutput r) : OneOnAverage (run stepAlive s calls) :=
  run_invariant_along (fun _ r hs hr => (hs.purge r.clock).step hr) h
    (along_of_forall stepAlive hwhole s)

/-- The least an adaptive policy can come to hold for a request. -/
def leastHold (p : Limits) (promptTokens maxOutputTokens : Nat) : Int :=
  promptTokens + min (maxOutputTokens : Int) ⌈p.reservationSafetyFactor⌉

theorem one_le_ceil_factor (p : Limits) : 1 ≤ ⌈p.reservationSafetyFactor⌉ :=
  Int.ceil_pos.mpr (one_pos.trans_le p.one_le_safetyFactor)

omit [LinearOrder Rid] in
/-- No estimate is less, once an average is at least one token. -/
theorem leastHold_le_estimated (p : Limits) (promptTokens maxOutputTokens : Nat)
    (h : OneOnAverage s) :
    leastHold p promptTokens maxOutputTokens ≤
      estimated p promptTokens maxOutputTokens (observedOutputTokens p s) := by
  unfold leastHold
  cases hmode : p.reservationMode with
  | worstCase =>
      rw [estimated_worstCase p promptTokens _ hmode]
      omega
  | adaptive =>
      cases haverage : s.stats.get .outTokens with
      | none =>
          have hread : observedOutputTokens p s = 0 := by
            simp [observedOutputTokens, hmode, haverage]
          rw [hread, estimated_of_nonpos p promptTokens le_rfl]
          omega
      | some average =>
          have hread : observedOutputTokens p s = average := by
            simp [observedOutputTokens, hmode, haverage]
          have hone := h average haverage
          have hfactor : 0 ≤ p.reservationSafetyFactor := zero_le_one.trans p.one_le_safetyFactor
          have hceil : ⌈p.reservationSafetyFactor⌉ ≤ ⌈average * p.reservationSafetyFactor⌉ :=
            Int.ceil_mono (le_mul_of_one_le_left hfactor hone)
          rw [hread, estimated_of_pos p promptTokens hmode (one_pos.trans_le hone)]
          omega

end Average

/-! ## When the verdict is for good -/

section Final

variable {Rid : Type} [LinearOrder Rid] {p : Limits} {promptTokens maxOutputTokens : Nat}

/-- A reservation of one token, and its commit with one token of output. -/
def calibratingCalls (p : Limits) (rid : Rid) : List (Request Rid) :=
  [callAt p 0 (.reserve rid 1 0), callAt p 0 (.commit rid 1 0 1)]

theorem acceptedTtl_default : acceptedTtl 0 (.finite 300) = some 300 := by decide +kernel

/-- The first commit of a pair sets the average to what it reports. -/
theorem commit_calibrates (p : Limits) (rid : Rid) {s : PairState Rid}
    (hmarker : s.settled rid = none) (hcold : s.stats.get .outTokens = none) :
    ((step s (callAt p 0 (.commit rid 1 0 1))).purge 0).stats.get .outTokens = some 1 := by
  have hscript := commitScript_settles 0 (commitArgs p 0 rid (some ((1 : NNRat) : Rat))
    (some ((0 : NNRat) : Rat)) (some ((1 : NNRat) : Rat)) (.finite 300)) s
    hmarker rfl acceptedTtl_default rfl rfl
  have hstats : (step s (callAt p 0 (.commit rid 1 0 1))).stats =
      (observeOutput ewmaAlpha ((1 : NNRat) : Rat)
        (observeService ewmaAlpha ((0 : NNRat) : Rat) s.stats)).expire 0 p.ttlSeconds :=
    congrArg (fun out => out.1.stats) hscript
  have haverage : (observeOutput ewmaAlpha ((1 : NNRat) : Rat)
      (observeService ewmaAlpha ((0 : NNRat) : Rat) s.stats)).get .outTokens = some 1 := by
    rw [observeOutput_outTokens, observeService_of_ne _ _ _ (by simp), hcold]
    simp [ewma]
  -- the averages outlive the instant they were written at
  have hlive : (step s (callAt p 0 (.commit rid 1 0 1))).stats.purge 0 =
      (step s (callAt p 0 (.commit rid 1 0 1))).stats := by
    apply Collection.purge_eq_self
    intro d hd
    rw [hstats, Collection.expireAt_expire_of_get haverage] at hd
    obtain rfl := Option.some.inj hd
    omega
  show ((step s (callAt p 0 (.commit rid 1 0 1))).stats.purge 0).get .outTokens = some 1
  rw [hlive, hstats, Collection.get_expire]
  exact haverage

omit [LinearOrder Rid] in
theorem calibratingCalls_whole (p : Limits) (rid : Rid) :
    ∀ r ∈ calibratingCalls p rid, r.clock = r.now ∧ WholeOutput r := by
  have hnone : WholeOutput (callAt p 0 (.reserve rid 1 0)) := ⟨0, by simp [callAt, reported]⟩
  have hone : WholeOutput (callAt p 0 (.commit rid 1 0 1)) := ⟨1, by simp [callAt, reported]⟩
  simpa [calibratingCalls] using ⟨⟨rfl, hnone⟩, rfl, hone⟩

/-- From a pair without averages and without markers the calibrating calls bring the
average down to one token. -/
theorem calibratingCalls_average (p : Limits) (rid : Rid) {s : PairState Rid}
    (hmarker : s.settled rid = none) (hcold : s.stats = .absent) :
    ((run stepAlive s (calibratingCalls p rid)).purge 0).stats.get .outTokens = some 1 := by
  have hreserved : (stepAlive s (callAt p 0 (.reserve rid 1 0))).stats = .absent ∧
      (stepAlive s (callAt p 0 (.reserve rid 1 0))).settled rid = none := by
    have hpurged : (s.purge 0).stats = .absent ∧ (s.purge 0).settled rid = none := by
      constructor
      · show s.stats.purge 0 = .absent
        rw [hcold]
        rfl
      · show (s.settled rid).purge 0 = none
        rw [hmarker]
        rfl
    unfold stepAlive
    rcases reserve_cases (s := s.purge 0) (r := callAt p 0 (.reserve rid 1 0)) rfl with
      ⟨-, -, -, hkeys, -⟩ | ⟨-, hkeys, -⟩
    · exact ⟨hkeys.stats.trans hpurged.1, (congrFun hkeys.settled rid).trans hpurged.2⟩
    · exact ⟨hkeys.stats.trans hpurged.1, (congrFun hkeys.settled rid).trans hpurged.2⟩
  refine commit_calibrates p rid ?_ ?_
  · show ((stepAlive s (callAt p 0 (.reserve rid 1 0))).settled rid).purge 0 = none
    rw [hreserved.2]
    rfl
  · show ((stepAlive s (callAt p 0 (.reserve rid 1 0))).stats.purge 0).get .outTokens = none
    rw [hreserved.1]
    rfl

/-- **Unsatisfiable means never**, exactly under a worst-case policy and for the requests
that fit the budget even at their ceiling, or exceed it even at their least hold.  Any
other request is shed as unsatisfiable before the first commit and not after it. -/
theorem stays_unsatisfiable_iff (Rid : Type) [LinearOrder Rid] [Inhabited Rid] (p : Limits)
    (promptTokens maxOutputTokens : Nat) :
    StaysUnsatisfiable Rid p promptTokens maxOutputTokens ↔
      p.reservationMode = .worstCase ∨ promptTokens + maxOutputTokens ≤ p.tokensPerMinute ∨
        (p.tokensPerMinute : Int) < leastHold p promptTokens maxOutputTokens := by
  constructor
  · intro hstays
    by_contra hnone
    obtain ⟨hadaptive, hceiling, hleast⟩ : p.reservationMode ≠ .worstCase ∧
        p.tokensPerMinute < promptTokens + maxOutputTokens ∧
        leastHold p promptTokens maxOutputTokens ≤ p.tokensPerMinute := by
      simpa [not_or] using hnone
    have hmode : p.reservationMode = .adaptive := by
      cases hmode : p.reservationMode with
      | worstCase => exact absurd hmode hadaptive
      | adaptive => rfl
    -- shed before the first commit, by its ceiling
    have hcold : observedOutputTokens p ((.empty : PairState Rid).purge 0) = 0 := by
      simp [observedOutputTokens, hmode, PairState.purge, PairState.empty, Collection.purge,
        Collection.absent, Collection.get]
    have hshed : ShedUnsatisfiable p 0 (default : Rid) promptTokens maxOutputTokens 0 .empty := by
      rw [shedUnsatisfiable_iff, hcold, estimated_of_nonpos p promptTokens le_rfl]
      omega
    have hagain := hstays 0 0 0 [] (calibratingCalls p default) default default 0 0
      (calibratingCalls_whole p default) (by simp [calibratingCalls, callAt]) trivial le_rfl
      (by simp [calibratingCalls, callAt]) le_rfl hshed
    -- after one token of output it is not, whatever `hagain` says
    have haverage : ((run stepAlive (reserveAt p 0 default promptTokens maxOutputTokens 0
        (.empty : PairState Rid)).1 (calibratingCalls p default)).purge 0).stats.get .outTokens =
        some 1 :=
      calibratingCalls_average p default (congrFun reserveAt_frame.2 default) reserveAt_frame.1
    have hread : observedOutputTokens p ((run stepAlive (reserveAt p 0 default promptTokens
        maxOutputTokens 0 (.empty : PairState Rid)).1 (calibratingCalls p default)).purge 0) =
        1 := by
      simp [observedOutputTokens, hmode, haverage]
    have hceil := one_le_ceil_factor p
    rw [shedUnsatisfiable_iff, run_nil, hread, estimated_of_pos p promptTokens hmode one_pos,
      one_mul] at hagain
    unfold leastHold at hleast
    omega
  · rintro hcases start now later before further rid rid' sloTtftMs sloTtftMs' hcalls - - - - -
      hshed
    rw [shedUnsatisfiable_iff] at hshed ⊢
    rcases hcases with hmode | hceiling | hleast
    · rw [estimated_worstCase p promptTokens _ hmode] at hshed ⊢
      exact hshed
    · have hle := hshed.trans_le (estimated_le_declared p promptTokens _)
      omega
    · -- no average of whole outputs brings the estimate below its least
      obtain ⟨hbefore, hfurther⟩ := List.forall_mem_append.mp hcalls
      have hstart := oneOnAverage_empty.run fun r hr => (hbefore r hr).2
      have hnow : OneOnAverage (reserveAt p now rid promptTokens maxOutputTokens sloTtftMs
          (run stepAlive .empty before)).1 := by
        unfold OneOnAverage
        rw [reserveAt_frame.1]
        exact hstart.purge now
      have hlater := (hnow.run fun r hr => (hfurther r hr).2).purge later
      exact hleast.trans_le (leastHold_le_estimated p promptTokens maxOutputTokens hlater)

/-- Before the first commit a request of 200000 tokens of output exceeds the budget by its
ceiling; after one of 380 tokens it no longer does. -/
theorem shed_unsatisfiable_then_admitted :
    ¬ ∀ (p : Limits) (promptTokens maxOutputTokens : Nat),
      StaysUnsatisfiable Nat p promptTokens maxOutputTokens := by
  intro h
  have hcalls : ∀ r ∈ [] ++ observedOnce, r.clock = r.now ∧ WholeOutput r := by
    have hnone : WholeOutput (callAt adaptiveLimits 0 (.reserve 1 5000 0)) :=
      ⟨0, by simp [callAt, reported]⟩
    have hsome : WholeOutput (callAt adaptiveLimits 900 (.commit 1 480 900 380)) :=
      ⟨380, by simp [callAt, reported]⟩
    simpa [observedOnce] using ⟨⟨rfl, hnone⟩, rfl, hsome⟩
  have hagain := h adaptiveLimits 100 200000 0 0 1000 [] observedOnce 7 8 0 0 hcalls
    (by simp [observedOnce, callAt]) trivial le_rfl (by simp [observedOnce, callAt])
    (by simp [observedOnce, callAt])
    (by unfold ShedUnsatisfiable; decide +kernel)
  revert hagain
  unfold ShedUnsatisfiable
  decide +kernel

end Final

end RateLimiter.Admission
