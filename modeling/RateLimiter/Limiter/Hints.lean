import RateLimiter.Limiter.Contract
import RateLimiter.Limiter.RoundedBucket

/-!
# Retry hints and resets

What a caller may rely on in the result of a check, whichever algorithm it runs.  The two
windows count in integers: the wait after a rejection is exact, and at the reported reset a
whole limit is there again, except after a rejection by a sliding window that filled up in more
than one go.  A token bucket computes in doubles and keeps fourteen digits of its balance: what
it names may be a millisecond off.
-/

namespace RateLimiter.Limiter

open RateLimiter.Redis RateLimiter.Javascript RateLimiter.Foundations

/-- `registry`, with the numbers of a bucket kept in `num`.  The windows have integers only. -/
def AlgorithmFactory.registryIn (num : Arithmetic) (pid : Nat) :
    RateLimitAlgorithm → Option IRateLimitAlgorithm
  | .tokenBucket => some fun clock q now name stores =>
      let out := RoundedBucket.check num clock q now 1 (stores.buckets name)
      .ok ({ stores with buckets := Function.update stores.buckets name out.1 }, out.2)
  | algorithm => registry pid algorithm

/-- Where nothing is rounded it is the registry. -/
theorem registryIn_exact (pid : Nat) :
    AlgorithmFactory.registryIn .exact pid = AlgorithmFactory.registry pid := by
  funext algorithm
  cases algorithm with
  | tokenBucket =>
      refine congrArg some ?_
      funext clock q now name stores
      dsimp only
      rw [RoundedBucket.check_exact]
  | slidingWindow => rfl
  | fixedWindow => rfl
  | leakyBucket => rfl

/-- How many milliseconds an algorithm may be off. -/
def RateLimitAlgorithm.slack : RateLimitAlgorithm → Nat
  | .tokenBucket => 1
  | _ => 0

/-- When the reset that a check at an instant reports is that of the whole limit, by the
checks granted before it. -/
def Regained (q : Quota) : RateLimitAlgorithm → Nat → List Nat → Prop
  | .slidingWindow => WindowRegained q
  | _ => fun _ _ => True

/-! ## The windows -/

section Windows

variable {pid : Nat} {algorithm : RateLimitAlgorithm} {check : IRateLimitAlgorithm} {q : Quota}
  {name : JsString} {sequence now : Nat} {history : List Nat} {result : RateLimitCheckResult}

/-- Every algorithm but the bucket keeps the contract. -/
theorem registryIn_contract {num : Arithmetic}
    (hcheck : AlgorithmFactory.registryIn num pid algorithm = some check)
    (hwindow : algorithm ≠ .tokenBucket) (q : Quota) (name : JsString) :
    ∃ room known, Contract check q name room known (Regained q algorithm) ∧
      ∀ sequence, known 0 [] (.start sequence) := by
  cases algorithm with
  | tokenBucket => exact absurd rfl hwindow
  | slidingWindow =>
      have hregistry : AlgorithmFactory.registry pid .slidingWindow = some check := hcheck
      exact ⟨_, _, slidingWindow_contract hregistry q name, logKnown_start q name⟩
  | fixedWindow =>
      have hregistry : AlgorithmFactory.registry pid .fixedWindow = some check := hcheck
      exact ⟨_, _, fixedWindow_contract hregistry q name, countersKnown_start q name⟩
  | leakyBucket => cases hcheck

section Contracted

variable {room : Stores → Nat → Nat} {known : Nat → List Nat → Stores → Prop}
  {regained : Nat → List Nat → Prop} (hcontract : Contract check q name room known regained)
  (hstart : known 0 [] (.start sequence)) (htime : Chronological id 0 (history ++ [now]))
  (hresult : resultAt check q name (run (stepAt check q name) (.start sequence) history) now =
    some result)

include hcontract hstart htime hresult

/-- By the contract a wait is exact. -/
theorem Contract.hint (hrejected : result.allowed = false) :
    ∃ w : Nat, result.retryAfterMs = some (w : Int) ∧ 0 < w ∧ ∀ v, now ≤ v →
      (allowedAt check q name (run (stepAt check q name) (.start sequence) (history ++ [now]))
        v = true ↔ now + w ≤ v) := by
  obtain ⟨hbefore, hle, -⟩ := (chronological_append _ _ _ _).mp htime
  have hknown := hcontract.meters.run hstart hbefore
  have hafter := hcontract.meters.keeps _ _ _ now hknown hle
  obtain ⟨result', hresult', -, hretries, -⟩ := hcontract.answers _ _ _ now hknown hle
  obtain rfl : result' = result := Option.some.inj (hresult'.symm.trans hresult)
  obtain ⟨w, hwait, hpositive, hroom⟩ := hretries hrejected
  refine ⟨w, hwait, hpositive, fun v hv => ?_⟩
  rw [run_append, run_cons, run_nil, hcontract.meters.allowed_iff _ _ _ v hafter hv]
  exact hroom v hv

/-- By the contract a reset is that of the whole limit exactly when capacity is regained. -/
theorem Contract.reset :
    ∃ T : Nat, result.resetAt = T ∧ now ≤ T ∧
      ((∀ answer ∈ outputs (stepAt check q name) (allowedAt check q name)
          (run (stepAt check q name) (.start sequence) (history ++ [now]))
          (List.replicate q.limit T), answer = true) ↔
        regained now (grantedTimes (stepAt check q name) (allowedAt check q name)
          (.start sequence) history)) := by
  obtain ⟨hbefore, hle, -⟩ := (chronological_append _ _ _ _).mp htime
  have hknown := hcontract.meters.run hstart hbefore
  have hafter := hcontract.meters.keeps _ _ _ now hknown hle
  obtain ⟨result', hresult', -, -, T, hreset, hlater, hwhole⟩ :=
    hcontract.answers _ _ _ now hknown hle
  obtain rfl : result' = result := Option.some.inj (hresult'.symm.trans hresult)
  refine ⟨T, hreset, hlater, ?_⟩
  rw [run_append, run_cons, run_nil, hcontract.meters.burst_iff hafter hlater]
  exact hwhole

end Contracted

end Windows

/-! ## The token bucket -/

section Bucket

open RoundedBucket
open TokenBucketAlgorithm (StoredNonneg)

variable {num : Arithmetic} (hnum : num.Faithful) {pid : Nat} {check : IRateLimitAlgorithm}
  (hcheck : AlgorithmFactory.registryIn num pid .tokenBucket = some check) {q : Quota}
  {name : JsString}

include hcheck

variable (q name) in
theorem bucket_check (stores : Stores) (v : Nat) :
    resultAt check q name stores v = some (resultOf num q (stores.buckets name) v) ∧
      (stepAt check q name stores v).buckets name =
        written num q v (left num q (stores.buckets name) v) ∧
      (allowedAt check q name stores v = true ↔ 1 ≤ found num q (stores.buckets name) v) := by
  have hanswer : check v q v name stores =
      .ok ({ stores with
          buckets := Function.update stores.buckets name
            (written num q v (left num q (stores.buckets name) v)) },
        resultOf num q (stores.buckets name) v) := by
    obtain rfl := Option.some.inj hcheck
    dsimp only
    rw [check_eq]
  obtain ⟨hresult, hstep, hallowed⟩ := checkAt_of_ok hanswer
  refine ⟨hresult, ?_, ?_⟩
  · rw [hstep]
    exact Function.update_self _ _ _
  · rw [hallowed]
    exact decide_eq_true_iff

include hnum

variable (q name) in
theorem bucket_run (sequence : Nat) (history : List Nat) :
    StoredNonneg ((run (stepAt check q name) (.start sequence) history).buckets name) := by
  have hstep : ∀ (stores : Stores) (v : Nat), StoredNonneg (stores.buckets name) →
      StoredNonneg ((stepAt check q name stores v).buckets name) := by
    intro stores v hstored
    rw [(bucket_check hcheck q name stores v).2.1]
    exact storedNonneg_written hnum (left_mem hnum hstored).1
  have hempty : StoredNonneg ((Stores.start sequence).buckets name) := by
    intro balance hbalance
    cases hbalance
  exact run_invariant _ (I := fun stores : Stores => StoredNonneg (stores.buckets name)) hstep
    hempty history

/-- A bucket of whole tokens grants them all at once. -/
theorem bucket_burst (hq : Storable q) {v : Nat} (hclock : v < 10 ^ 14) {tokens checks : Nat}
    {stores : Stores} (hfound : found num q (stores.buckets name) v = tokens)
    (hle : checks ≤ tokens) :
    ∀ answer ∈ outputs (stepAt check q name) (allowedAt check q name) stores
      (List.replicate checks v), answer = true := by
  induction checks generalizing tokens stores with
  | zero => exact fun answer hanswer => absurd hanswer List.not_mem_nil
  | succ checks ih =>
      obtain ⟨tokens, rfl⟩ := Nat.exists_eq_succ_of_ne_zero (Nat.ne_zero_of_lt hle)
      obtain ⟨-, hstep, hallowed⟩ := bucket_check hcheck q name stores v
      intro answer hanswer
      rcases List.mem_cons.mp hanswer with rfl | hlater
      · rw [hallowed, hfound]
        exact_mod_cast Nat.succ_pos tokens
      · refine ih ?_ (Nat.le_of_succ_le_succ hle) answer hlater
        rw [hstep]
        exact found_next hnum hq hclock hfound

variable {sequence now : Nat} {history : List Nat} {result : RateLimitCheckResult}
  (hresult : resultAt check q name (run (stepAt check q name) (.start sequence) history) now =
    some result)

include hresult

/-- The wait of a bucket is right to the millisecond. -/
theorem bucket_hint (hq : Storable q) (hclock : now < 10 ^ 14)
    (hrejected : result.allowed = false) :
    ∃ w : Nat, result.retryAfterMs = some (w : Int) ∧ 0 < w ∧
      allowedAt check q name (run (stepAt check q name) (.start sequence) (history ++ [now]))
        (now + w + 1) = true ∧
      ∀ v, now ≤ v → v + 1 < now + w →
        allowedAt check q name (run (stepAt check q name) (.start sequence) (history ++ [now]))
          v = false := by
  have hstored := bucket_run hnum hcheck q name sequence history
  obtain ⟨hanswer, hstep, -⟩ := bucket_check hcheck q name
    (run (stepAt check q name) (.start sequence) history) now
  obtain rfl : resultOf num q _ now = result := Option.some.inj (hanswer.symm.trans hresult)
  have hshort := of_decide_eq_false hrejected
  obtain ⟨hpositive, hwait⟩ := hint hnum hq hclock hstored (not_le.mp hshort)
  refine ⟨_, ?_, Int.pos_iff_toNat_pos.mp hpositive, ?_, ?_⟩
  · rw [Int.toNat_of_nonneg hpositive.le]
    simp [resultOf, checkResult, hshort]
  · rw [run_append, run_cons, run_nil, (bucket_check hcheck q name _ _).2.2, hstep]
    exact (hwait _ (by omega)).1 (by omega)
  · intro v hle hearly
    rw [Bool.eq_false_iff, ne_eq, run_append, run_cons, run_nil, (bucket_check hcheck q name _ _).2.2,
      hstep, not_le]
    exact (hwait v hle).2 (by omega)

/-- A millisecond after the reset of a bucket a whole limit is there. -/
theorem bucket_reset (hq : Storable q) (hreset : result.resetAt + 1 < 10 ^ 14) :
    ∃ T : Nat, result.resetAt = T ∧ now ≤ T ∧
      ∀ answer ∈ outputs (stepAt check q name) (allowedAt check q name)
        (run (stepAt check q name) (.start sequence) (history ++ [now]))
        (List.replicate q.limit (T + 1)), answer = true := by
  have hstored := bucket_run hnum hcheck q name sequence history
  obtain ⟨hanswer, hstep, -⟩ := bucket_check hcheck q name
    (run (stepAt check q name) (.start sequence) history) now
  obtain rfl : resultOf num q _ now = result := Option.some.inj (hanswer.symm.trans hresult)
  have hwait := wait_nonneg hnum (refillRate_pos hnum q).le
    (sub_nonneg.mpr ((left_mem hnum hstored (v := now)).2 hq.limit))
  have hinstant : (resultOf num q ((run (stepAt check q name) (.start sequence) history).buckets
      name) now).resetAt = now + wait num (num.rnd (q.limit - left num q
        ((run (stepAt check q name) (.start sequence) history).buckets name) now))
          (refillRate num q) := rfl
  rw [hinstant] at hreset ⊢
  refine ⟨now + (wait num (num.rnd (q.limit - left num q
    ((run (stepAt check q name) (.start sequence) history).buckets name) now))
      (refillRate num q)).toNat, by omega, by omega, ?_⟩
  refine bucket_burst hnum hcheck hq (by omega) ?_ le_rfl
  rw [run_append, run_cons, run_nil, hstep]
  exact full_after_reset hnum hq (by omega) hstored (by omega) (by omega)

end Bucket

/-! ## All three -/

section All

variable {pid : Nat} {algorithm : RateLimitAlgorithm} {check : IRateLimitAlgorithm}

theorem slack_of_window (h : algorithm ≠ .tokenBucket) : algorithm.slack = 0 := by
  cases algorithm with
  | tokenBucket => exact absurd rfl h
  | slidingWindow => rfl
  | fixedWindow => rfl
  | leakyBucket => rfl

/-- **Retry hints.**  A check that is rejected names a wait.  In a window a check at its end is
allowed, and one before is rejected again; in a token bucket a check one millisecond after its
end is allowed, and one more than a millisecond before is rejected again, as long as fourteen
digits are enough for the limit and for the instants. -/
theorem retry_hint_rounded
    (hcheck : AlgorithmFactory.registryIn .doubles pid algorithm = some check) (q : Quota)
    (name : JsString) (sequence : Nat) (history : List Nat) (now : Nat)
    (htime : Chronological id 0 (history ++ [now])) (result : RateLimitCheckResult)
    (hdigits : algorithm = .tokenBucket → RoundedBucket.Storable q ∧ now < 10 ^ 14)
    (hresult : resultAt check q name (run (stepAt check q name) (.start sequence) history) now =
      some result)
    (hrejected : result.allowed = false) :
    ∃ w : Nat, result.retryAfterMs = some (w : Int) ∧ 0 < w ∧
      allowedAt check q name (run (stepAt check q name) (.start sequence) (history ++ [now]))
        (now + w + algorithm.slack) = true ∧
      ∀ v, now ≤ v → v + algorithm.slack < now + w →
        allowedAt check q name (run (stepAt check q name) (.start sequence) (history ++ [now]))
          v = false := by
  by_cases hbucket : algorithm = .tokenBucket
  · subst hbucket
    obtain ⟨hq, hclock⟩ := hdigits rfl
    exact bucket_hint Arithmetic.faithful_doubles hcheck hresult hq hclock hrejected
  · obtain ⟨room, known, hcontract, hstart⟩ := registryIn_contract hcheck hbucket q name
    obtain ⟨w, hwait, hpositive, hverdict⟩ :=
      hcontract.hint (hstart sequence) htime hresult hrejected
    rw [slack_of_window hbucket]
    refine ⟨w, hwait, hpositive, (hverdict _ (Nat.le_add_right _ _)).mpr le_rfl, ?_⟩
    intro v hv hearly
    rw [Bool.eq_false_iff, ne_eq, hverdict v hv]
    exact not_le.mpr hearly

end All

/-! ## Where a hint is off -/

/-- The token bucket in a process. -/
def tokenBucket : IRateLimitAlgorithm :=
  (AlgorithmFactory.registryIn .doubles 1 .tokenBucket).get rfl

theorem registryIn_tokenBucket :
    AlgorithmFactory.registryIn .doubles 1 .tokenBucket = some tokenBucket :=
  (Option.some_get rfl).symm

/-- The sliding window in a process. -/
def slidingWindow : IRateLimitAlgorithm :=
  (AlgorithmFactory.registryIn .doubles 1 .slidingWindow).get rfl

theorem registryIn_slidingWindow :
    AlgorithmFactory.registryIn .doubles 1 .slidingWindow = some slidingWindow :=
  (Option.some_get rfl).symm

theorem minute_pos : 0 < 60 := by decide

/-- Two a minute. -/
def twoAMinute : Quota := ⟨2, 60, SlidingWindowAlgorithm.twoASecond.limit_pos, minute_pos⟩

/-- The answer to a third check at 1 when the first two came at 0. -/
def waits29999 : RateLimitCheckResult := ⟨false, 2, 0, 60000, some 30, some 29999⟩

theorem resultAt_waits29999 :
    resultAt tokenBucket twoAMinute (js "a")
      (run (stepAt tokenBucket twoAMinute (js "a")) (.start 0) [0, 0]) 1 =
        some waits29999 := by decide +kernel

theorem storable_twoAMinute : RoundedBucket.Storable twoAMinute := ⟨by decide, by decide⟩

/-- A millisecond after the wait it is told the third check is allowed. -/
theorem retry_hint_rounded_third :
    ∃ w : Nat, waits29999.retryAfterMs = some (w : Int) ∧ 0 < w ∧
      allowedAt tokenBucket twoAMinute (js "a")
        (run (stepAt tokenBucket twoAMinute (js "a")) (.start 0) ([0, 0] ++ [1])) (1 + w + 1) =
          true ∧
      ∀ v, 1 ≤ v → v + 1 < 1 + w →
        allowedAt tokenBucket twoAMinute (js "a")
          (run (stepAt tokenBucket twoAMinute (js "a")) (.start 0) ([0, 0] ++ [1])) v = false :=
  retry_hint_rounded registryIn_tokenBucket twoAMinute (js "a") 0 [0, 0] 1 (by simp) waits29999
    (fun _ => ⟨storable_twoAMinute, by decide⟩) resultAt_waits29999 rfl

/-- At the end of the wait itself it is rejected. -/
theorem retry_hint_short :
    ¬ ∀ (pid : Nat) (algorithm : RateLimitAlgorithm) (check : IRateLimitAlgorithm),
      AlgorithmFactory.registryIn .doubles pid algorithm = some check →
      ∀ (q : Quota) (name : JsString) (sequence : Nat) (history : List Nat) (now : Nat),
      Chronological id 0 (history ++ [now]) → ∀ result : RateLimitCheckResult,
      resultAt check q name (run (stepAt check q name) (.start sequence) history) now =
        some result →
      result.allowed = false → ∀ w : Nat, result.retryAfterMs = some (w : Int) →
        0 < w ∧
          allowedAt check q name (run (stepAt check q name) (.start sequence) (history ++ [now]))
            (now + w) = true ∧
          ∀ v, now ≤ v → v < now + w →
            allowedAt check q name (run (stepAt check q name) (.start sequence) (history ++ [now]))
              v = false := by
  intro h
  have hallowed := (h 1 .tokenBucket tokenBucket registryIn_tokenBucket twoAMinute (js "a") 0
    [0, 0] 1 (by simp) waits29999 resultAt_waits29999 rfl 29999 rfl).2.1
  revert hallowed
  decide +kernel

/-- One in seven seconds. -/
def oneInSeven : Quota :=
  ⟨1, 7, SlidingWindowAlgorithm.twoASecond.windowSeconds_pos, by decide⟩

/-- The answer to a second check at 100 when the first came at 0. -/
def resetsAt7000 : RateLimitCheckResult := ⟨false, 1, 0, 7000, some 7, some 6900⟩

theorem resultAt_resetsAt7000 :
    resultAt tokenBucket oneInSeven (js "a")
      (run (stepAt tokenBucket oneInSeven (js "a")) (.start 0) [0]) 100 = some resetsAt7000 := by
  decide +kernel

/-- The answer to a third check at 600 when two a second are allowed and the first two came
at 0 and at 500. -/
def thirdAnswer : RateLimitCheckResult := ⟨false, 2, 0, 1000, some 1, some 400⟩

theorem resultAt_third :
    resultAt slidingWindow SlidingWindowAlgorithm.twoASecond (js "a")
      (run (stepAt slidingWindow SlidingWindowAlgorithm.twoASecond (js "a")) (.start 0) [0, 500])
      600 = some thirdAnswer := by decide +kernel

/-- The whole limit is allowed at every reset that an algorithm reports. -/
def ResetsWhole (algorithm : RateLimitAlgorithm) : Prop :=
  ∀ (pid : Nat) (check : IRateLimitAlgorithm),
    AlgorithmFactory.registryIn .doubles pid algorithm = some check →
    ∀ (q : Quota) (name : JsString) (sequence : Nat) (history : List Nat) (now : Nat),
    Chronological id 0 (history ++ [now]) → ∀ result : RateLimitCheckResult,
    resultAt check q name (run (stepAt check q name) (.start sequence) history) now =
      some result →
    ∀ T : Nat, result.resetAt = T →
      ∀ answer ∈ outputs (stepAt check q name) (allowedAt check q name)
        (run (stepAt check q name) (.start sequence) (history ++ [now]))
        (List.replicate q.limit T), answer = true

end RateLimiter.Limiter
