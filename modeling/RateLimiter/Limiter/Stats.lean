import RateLimiter.Limiter.Hints

/-!
# Statistics of a key

`getStats` reads the keys of an algorithm without its script.  What it counts is what the
last check, of whatever cost, has left; what a check decides on has since accrued, or aged
out of the window.
-/

namespace RateLimiter.Limiter

open RateLimiter.Redis RateLimiter.Javascript RateLimiter.Foundations

/-! ## The three reads -/

structure KeyStats where
  count : Int
  resetAt : Int
deriving DecidableEq, Repr

/-- `getStats`: the two keys are read, the timestamp is not. -/
def TokenBucketAlgorithm.getStats (clock : Int) (now : Nat) (keys : BucketKeys) :
    Option KeyStats :=
  match (keys.purge clock).tokens.get with
  | some tokens => some ⟨⌊tokens⌋, now + max 0 (keys.tokens.ttl clock) * 1000⟩
  | none => none

/-- `getStats`. -/
def SlidingWindowAlgorithm.getStats (clock : Int) (now : Nat) (key : SortedSet JsString) :
    Option KeyStats :=
  let count := (key.purge clock).card
  if count = 0 then none else some ⟨count, now + max 0 (key.pttl clock)⟩

/-- `getStats`. -/
def FixedWindowAlgorithm.getStats (clock : Int) (name : JsString) (windowSeconds now : Nat)
    (counters : Counters) : Option KeyStats :=
  let index := windowIndex now windowSeconds
  match ((counters (key name index)).purge clock).get with
  | some count => some ⟨count, (index + 1 : Nat) * (windowSeconds * 1000 : Nat)⟩
  | none => none

/-- `getStats` of an algorithm at `now`, on the clock it shares with the server. -/
def getStats (q : Quota) (name : JsString) (stores : Stores) (now : Nat) :
    RateLimitAlgorithm → Option KeyStats
  | .tokenBucket => TokenBucketAlgorithm.getStats now now (stores.buckets name)
  | .slidingWindow => SlidingWindowAlgorithm.getStats now now (stores.logs name)
  | .fixedWindow => FixedWindowAlgorithm.getStats now name q.windowSeconds now stores.counters
  -- no such algorithm is registered
  | .leakyBucket => none

/-! ## Checks of any cost -/

/-- A check on the clock it shares with the server. -/
structure CostedCheck where
  now : Nat
  cost : Rat

/-- The `check` of an algorithm at a cost; two of the three refuse all but 1. -/
def algorithmAt (pid : Nat) (cost : Rat) : RateLimitAlgorithm → Option IRateLimitAlgorithm
  | .tokenBucket => some fun clock q now name stores =>
      let out := TokenBucketAlgorithm.check clock q now cost (stores.buckets name)
      .ok ({ stores with buckets := Function.update stores.buckets name out.1 }, out.2)
  | .slidingWindow => some fun clock q now name stores =>
      match SlidingWindowAlgorithm.check clock q now pid cost stores.sequence
        (stores.logs name) with
      | .ok ((log, sequence), result) =>
          .ok ({ stores with
                  logs := Function.update stores.logs name log
                  sequence := sequence }, result)
      | .error thrown => .error thrown
  | .fixedWindow => some fun clock q now name stores =>
      match FixedWindowAlgorithm.check clock q name now cost stores.counters with
      | .ok (counters, result) => .ok ({ stores with counters := counters }, result)
      | .error thrown => .error thrown
  | .leakyBucket => none

theorem algorithmAt_one (pid : Nat) : algorithmAt pid 1 = AlgorithmFactory.registry pid := by
  ext algorithm
  cases algorithm <;> rfl

section Costed

variable (pid : Nat) (algorithm : RateLimitAlgorithm) (q : Quota) (name : JsString)

/-- What a check leaves. -/
def costedStep (stores : Stores) (c : CostedCheck) : Stores :=
  match algorithmAt pid c.cost algorithm with
  | some check => stepAt check q name stores c.now
  | none => stores

/-- Is the check allowed? -/
def costedAllowed (stores : Stores) (c : CostedCheck) : Bool :=
  match algorithmAt pid c.cost algorithm with
  | some check => allowedAt check q name stores c.now
  | none => false

/-- The instants at which checks of a history were allowed. -/
def admittedAt (stores : Stores) (history : List CostedCheck) : List Nat :=
  (grantedTimes (costedStep pid algorithm q name) (costedAllowed pid algorithm q name) stores
    history).map CostedCheck.now

/-- The instant of a check of cost 1. -/
def CostedCheck.unit? (c : CostedCheck) : Option Nat := if c.cost = 1 then some c.now else none

variable {pid algorithm} {check : IRateLimitAlgorithm} (stores : Stores)

theorem costed_unit (hcheck : AlgorithmFactory.registry pid algorithm = some check)
    {c : CostedCheck} {now : Nat} (hunit : c.unit? = some now) :
    costedStep pid algorithm q name stores c = stepAt check q name stores now ∧
      costedAllowed pid algorithm q name stores c = allowedAt check q name stores now ∧
      c.now = now := by
  unfold CostedCheck.unit? at hunit
  split at hunit
  next hcost =>
    obtain rfl := Option.some.inj hunit
    unfold costedStep costedAllowed
    rw [hcost, algorithmAt_one, hcheck]
    exact ⟨rfl, rfl, rfl⟩
  next => cases hunit

variable (pid) in
/-- A check that an algorithm refuses for its cost does not reach the server. -/
theorem costed_refused (hrefuses : algorithm = .slidingWindow ∨ algorithm = .fixedWindow)
    {c : CostedCheck} (hunit : c.unit? = none) :
    costedStep pid algorithm q name stores c = stores ∧
      costedAllowed pid algorithm q name stores c = false := by
  have hcost : c.cost ≠ 1 := by
    rintro hone
    simp [CostedCheck.unit?, hone] at hunit
  unfold costedStep costedAllowed stepAt allowedAt
  rcases hrefuses with rfl | rfl
  · simp [algorithmAt, SlidingWindowAlgorithm.check, hcost]
  · simp [algorithmAt, FixedWindowAlgorithm.check, hcost]

/-- Where other costs are refused, a history comes to its checks of cost 1. -/
theorem run_costed (hrefuses : algorithm = .slidingWindow ∨ algorithm = .fixedWindow)
    (hcheck : AlgorithmFactory.registry pid algorithm = some check) (history : List CostedCheck) :
    run (costedStep pid algorithm q name) stores history =
        run (stepAt check q name) stores (history.filterMap CostedCheck.unit?) ∧
      admittedAt pid algorithm q name stores history =
        grantedTimes (stepAt check q name) (allowedAt check q name) stores
          (history.filterMap CostedCheck.unit?) := by
  have hunit : ∀ stores c now, CostedCheck.unit? c = some now → _ :=
    fun stores c now h => costed_unit q name stores hcheck h
  have hrefused : ∀ stores c, CostedCheck.unit? c = none → _ :=
    fun stores c h => costed_refused pid q name stores hrefuses h
  constructor
  · exact run_filterMap (fun stores c now h => (hunit stores c now h).1)
      (fun stores c h => (hrefused stores c h).1) stores history
  · exact grantedTimes_filterMap hunit hrefused stores history

end Costed

/-! ## What a check decides on -/

/-- The quantity a check at `now` would decide on, when checks have been granted at the
instants `granted`. -/
def decidedOn (q : Quota) (name : JsString) (stores : Stores) (granted : List Nat) (now : Nat) :
    RateLimitAlgorithm → Int
  | .tokenBucket => ⌊TokenBucketAlgorithm.found q (stores.buckets name) now⌋
  | .slidingWindow => inWindow q.windowMs now granted
  | .fixedWindow =>
      FixedWindowAlgorithm.countIn q (FixedWindowAlgorithm.windowIndex now q.windowSeconds) granted
  | .leakyBucket => 0

/-- Nothing has accrued by `now` on the stored balance: the bucket was full, or its next
whole token is still to come. -/
def TokenBucketAlgorithm.NoneAccrued (q : Quota) (now : Nat) (keys : BucketKeys) : Prop :=
  ∀ tokens last, keys.tokens.get = some tokens → keys.timestamp.get = some last →
    ⌊tokens⌋ = q.limit ∨ (⌊tokens⌋ < q.limit ∧
      (now : Int) - last < ⌈((⌊tokens⌋ : Rat) + 1 - tokens) / refillRate q * 1000⌉)

/-- Nothing has changed by `now` since the check at `last`: no whole token has accrued, or
no check that was in the window then has aged out of it. -/
def Unchanged (q : Quota) (name : JsString) (stores : Stores) (granted : List Nat)
    (last now : Nat) : RateLimitAlgorithm → Prop
  | .tokenBucket => TokenBucketAlgorithm.NoneAccrued q now (stores.buckets name)
  | .slidingWindow => ∀ a ∈ granted, last < a + q.windowMs → now < a + q.windowMs
  | _ => True

/-! ## The bucket after checks of any cost -/

namespace TokenBucketAlgorithm

/-- The keys are those that a check by the instant `t` has written, or there has been
none. -/
def Stored (q : Quota) (t : Nat) (keys : BucketKeys) : Prop :=
  keys = .absent ∨ ∃ (last : Nat) (tokens : Rat), last ≤ t ∧ 0 ≤ tokens ∧
    keys = ⟨.setEx last tokens (ttl q), .setEx last last (ttl q)⟩

variable {q : Quota} {t v : Nat} {keys : BucketKeys}

theorem Stored.found_nonneg (h : Stored q t keys) (hle : t ≤ v) : 0 ≤ found q keys v := by
  rcases h with rfl | ⟨last, tokens, hlast, htokens, rfl⟩
  · exact Nat.cast_nonneg q.limit
  · have hcast : (last : Int) ≤ v := by exact_mod_cast hlast.trans hle
    have hspan : (0 : Rat) ≤ ((v - last : Int) : Rat) := by
      exact_mod_cast Int.sub_nonneg.mpr hcast
    have hrate := refillRate_pos q
    unfold found
    rw [storedBalance_setEx hrate.le htokens (fills_within_ttl q) hcast]
    exact le_min (by positivity) (Nat.cast_nonneg q.limit)

theorem Stored.step (h : Stored q t keys) {c : BucketCheck} (hle : t ≤ c.now) :
    Stored q c.now (step q keys c) :=
  Or.inr ⟨c.now, _, le_rfl, remaining_nonneg (h.found_nonneg hle), step_keys q keys c⟩

end TokenBucketAlgorithm

theorem stored_run (pid : Nat) (q : Quota) (name : JsString) {history : List CostedCheck}
    {t : Nat} {stores : Stores}
    (hstored : TokenBucketAlgorithm.Stored q t (stores.buckets name))
    (htime : Chronological CostedCheck.now t history) :
    TokenBucketAlgorithm.Stored q (lastTime CostedCheck.now t history)
      ((run (costedStep pid .tokenBucket q name) stores history).buckets name) := by
  induction history generalizing t stores with
  | nil => exact hstored
  | cons c history ih =>
      obtain ⟨hle, hrest⟩ := htime
      refine ih ?_ hrest
      -- the bucket takes any cost, so every check writes its keys
      have hstep : (costedStep pid .tokenBucket q name stores c).buckets name =
          TokenBucketAlgorithm.step q (stores.buckets name) ⟨c.now, c.cost⟩ :=
        Function.update_self _ _ _
      rw [hstep]
      exact hstored.step hle

section Stats

variable {q : Quota} {name : JsString} {stores : Stores} {granted : List Nat} {last now : Nat}
  {stats : KeyStats}

/-- The tokens that are read are those of the balance until the next one has accrued. -/
theorem tokenBucket_stats {t : Nat} (h : TokenBucketAlgorithm.Stored q t (stores.buckets name))
    (hle : t ≤ now) (hstats : getStats q name stores now .tokenBucket = some stats) :
    stats.count = decidedOn q name stores granted now .tokenBucket ↔
      Unchanged q name stores granted last now .tokenBucket := by
  have hrate := TokenBucketAlgorithm.refillRate_pos q
  change TokenBucketAlgorithm.getStats now now (stores.buckets name) = some stats at hstats
  unfold TokenBucketAlgorithm.getStats at hstats
  unfold decidedOn Unchanged TokenBucketAlgorithm.NoneAccrued TokenBucketAlgorithm.found
  rcases h with habsent | ⟨written, tokens, hwritten, htokens, hkeys⟩
  · rw [habsent] at hstats
    cases hstats
  · rw [hkeys] at hstats ⊢
    have hcast : (written : Int) ≤ now := by exact_mod_cast hwritten.trans hle
    have hcount : stats.count = ⌊tokens⌋ := by
      simp only [BucketKeys.purge] at hstats
      split at hstats
      next read hread =>
        -- what is left of the key is the key
        obtain ⟨timed, htimed, rfl⟩ := Option.map_eq_some_iff.mp hread
        obtain ⟨hkey, -⟩ := StringKey.purge_eq_some.mp htimed
        obtain rfl := Option.some.inj hkey
        exact (congrArg KeyStats.count (Option.some.inj hstats)).symm
      next => cases hstats
    have hwait := floor_accrue_intCast_eq_iff q.limit tokens hrate
      (by norm_num : (0 : Rat) < 1000) (Int.sub_nonneg.mpr hcast)
    rw [Int.cast_natCast] at hwait
    rw [storedBalance_setEx hrate.le htokens (TokenBucketAlgorithm.fills_within_ttl q) hcast,
      hcount, eq_comm, hwait]
    constructor
    · rintro hnone read instant hread hinstant
      obtain rfl := Option.some.inj hread
      obtain rfl := Option.some.inj hinstant
      exact hnone
    · intro hnone
      exact hnone tokens written rfl rfl

/-- The members that are read are those of the window until one has aged out. -/
theorem slidingWindow_stats (h : LogKnown q name last granted stores) (hle : last ≤ now)
    (hstats : getStats q name stores now .slidingWindow = some stats) :
    stats.count = decidedOn q name stores granted now .slidingWindow ↔
      Unchanged q name stores granted last now .slidingWindow := by
  have hlatest : ∀ a ∈ granted, a ≤ now := fun a ha => (h.latest a ha).trans hle
  obtain ⟨stamps, hperm, ⟨-, hentries, -⟩, -, -⟩ := h
  have hcount : stats.count = (granted.countP fun a => last < a + q.windowMs : Nat) := by
    change SlidingWindowAlgorithm.getStats now now (stores.logs name) = some stats at hstats
    unfold SlidingWindowAlgorithm.getStats at hstats
    dsimp only at hstats
    split at hstats
    next => cases hstats
    next hsome =>
      -- the key is there, so nothing of it has been lost
      have hkept : (stores.logs name).purge (now : Int) = stores.logs name := by
        unfold Collection.purge at hsome ⊢
        split
        next hgone => exact absurd (by rw [if_pos hgone]; rfl) hsome
        next => rfl
      have hcard : (stores.logs name).card = granted.countP fun a => last < a + q.windowMs := by
        rw [← hperm.countP_eq, List.countP_map, List.countP_eq_length_filter]
        exact hentries.length_eq.trans (List.length_map _)
      rw [hkept, hcard] at hstats
      exact (congrArg KeyStats.count (Option.some.inj hstats)).symm
  unfold decidedOn Unchanged
  rw [hcount, inWindow_of_latest hlatest, Nat.cast_inj]
  exact countP_later_eq_iff hle q.windowMs

/-- The counter that is read is that of the window. -/
theorem fixedWindow_stats (h : CountersKnown q name last granted stores) (hle : last ≤ now)
    (hstats : getStats q name stores now .fixedWindow = some stats) :
    stats.count = decidedOn q name stores granted now .fixedWindow ↔
      Unchanged q name stores granted last now .fixedWindow := by
  refine iff_of_true ?_ trivial
  have hmono := FixedWindowAlgorithm.windowIndex_mono (q := q) hle
  have hread := FixedWindowAlgorithm.get_counter (q := q)
    (FixedWindowAlgorithm.windowIndex now q.windowSeconds)
    (FixedWindowAlgorithm.countIn q (FixedWindowAlgorithm.windowIndex now q.windowSeconds) granted)
  rw [Nat.min_eq_right (h.within _ hmono)] at hread
  change FixedWindowAlgorithm.getStats now name q.windowSeconds now stores.counters =
    some stats at hstats
  unfold FixedWindowAlgorithm.getStats at hstats
  dsimp only at hstats
  rw [h.counters _ hmono, FixedWindowAlgorithm.purge_counter q now
    (FixedWindowAlgorithm.lt_windowEnd q now)] at hstats
  split at hstats
  next count hget =>
    rw [hget] at hread
    exact (congrArg KeyStats.count (Option.some.inj hstats)).symm.trans hread
  next => cases hstats

end Stats

end RateLimiter.Limiter
