import RateLimiter.Foundations.Runs

/-!
# Meters

A meter is asked at instants of time and has room for a number of requests at each.  It
grants a request while there is room and has room for one less after.  So a burst at one
instant is granted whole exactly when there is room for all of it.
-/

namespace RateLimiter.Foundations

variable {σ T : Type*}

/-- The instants at which a run of requests was granted. -/
def grantedTimes (step : σ → T → σ) (allowed : σ → T → Bool) : σ → List T → List T
  | _, [] => []
  | s, v :: vs =>
      (if allowed s v then [v] else []) ++ grantedTimes step allowed (step s v) vs

/-- Requests that change nothing and are not granted can be left out. -/
theorem grantedTimes_filterMap {ι : Type*} {step : σ → ι → σ} {step' : σ → T → σ}
    {allowed : σ → ι → Bool} {allowed' : σ → T → Bool} {f : ι → Option T} {time : ι → T}
    (hsome : ∀ s i k, f i = some k →
      step s i = step' s k ∧ allowed s i = allowed' s k ∧ time i = k)
    (hnone : ∀ s i, f i = none → step s i = s ∧ allowed s i = false) (s : σ) (is : List ι) :
    (grantedTimes step allowed s is).map time =
      grantedTimes step' allowed' s (is.filterMap f) := by
  induction is generalizing s with
  | nil => rfl
  | cons i is ih =>
      cases hf : f i with
      | none =>
          obtain ⟨hstep, hallowed⟩ := hnone s i hf
          rw [List.filterMap_cons_none hf, ← ih]
          simp [grantedTimes, hstep, hallowed]
      | some k =>
          obtain ⟨hstep, hallowed, htime⟩ := hsome s i k hf
          rw [List.filterMap_cons_some hf, grantedTimes, grantedTimes, List.map_append, hstep, ih,
            hallowed]
          cases allowed' s k <;> simp [htime]

/-- `I t granted s` is what is known of the state `s` from the instant `t` on, when requests
have been granted at the instants `granted`; `free s v` is the room there is at `v`. -/
structure Meters [Preorder T] (step : σ → T → σ) (allowed : σ → T → Bool) (free : σ → T → Nat)
    (I : T → List T → σ → Prop) : Prop where
  keeps : ∀ t granted s v, I t granted s → t ≤ v →
    I v (granted ++ if allowed s v then [v] else []) (step s v)
  allowed_iff : ∀ t granted s v, I t granted s → t ≤ v → (allowed s v = true ↔ 0 < free s v)
  free_step : ∀ t granted s v, I t granted s → t ≤ v → free (step s v) v = free s v - 1

namespace Meters

variable [Preorder T] {step : σ → T → σ} {allowed : σ → T → Bool} {free : σ → T → Nat}
  {I : T → List T → σ → Prop} {t : T} {granted : List T} {s : σ}

/-- A component that at every request either has room, grants it and has room for one less,
or has none and rejects it, is a meter. -/
theorem of_cases (h : ∀ t granted s v, I t granted s → t ≤ v →
    (allowed s v = true ∧ 0 < free s v ∧ I v (granted ++ [v]) (step s v) ∧
      free (step s v) v + 1 = free s v) ∨
    (allowed s v = false ∧ free s v = 0 ∧ I v granted (step s v) ∧ free (step s v) v = 0)) :
    Meters step allowed free I := by
  refine ⟨?_, ?_, ?_⟩ <;> intro t granted s v hs hle <;>
    rcases h t granted s v hs hle with
      ⟨hallowed, hroom, hnext, hless⟩ | ⟨hrejected, hnone, hnext, hless⟩
  · simpa [hallowed] using hnext
  · simpa [hrejected] using hnext
  · simp [hallowed, hroom]
  · simp [hrejected, hnone]
  · omega
  · omega

/-- Over a run of requests in order of time what is known is kept. -/
theorem run (h : Meters step allowed free I) (hs : I t granted s) {history : List T}
    (htime : Chronological id t history) :
    I (lastTime id t history) (granted ++ grantedTimes step allowed s history)
      (Foundations.run step s history) := by
  induction history generalizing t granted s with
  | nil => simpa [grantedTimes] using hs
  | cons v history ih =>
      obtain ⟨hle, hrest⟩ := htime
      have hnext := ih (h.keeps t granted s v hs hle) hrest
      simpa [grantedTimes, List.append_assoc] using hnext

/-- A burst is granted whole exactly when there is room for all of it. -/
theorem burst_iff (h : Meters step allowed free I) (hs : I t granted s) {v : T} (hle : t ≤ v)
    (n : Nat) :
    (∀ answer ∈ outputs step allowed s (List.replicate n v), answer = true) ↔ n ≤ free s v := by
  induction n generalizing t granted s with
  | zero => simp
  | succ n ih =>
      -- the rest of the burst finds one less
      have hrest := ih (h.keeps t granted s v hs hle) le_rfl
      have hfirst := h.allowed_iff t granted s v hs hle
      rw [List.replicate_succ, outputs_cons, List.forall_mem_cons, hrest, hfirst,
        h.free_step t granted s v hs hle]
      omega

end Meters

end RateLimiter.Foundations
