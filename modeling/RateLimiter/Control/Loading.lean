import Mathlib.Data.Int.DivMod
import RateLimiter.Control.Resolver

/-!
# Loading policies

Who asks the database for the policies, and who waits.  Calls that find the loaded set out of
date share one load; a load that fails leaves the set in use and is not tried again before
the set is out of date once more.  Whatever interleaves, the database is asked no more often
than the age of the set and the invalidations call for.
-/

namespace RateLimiter.Control

open RateLimiter.Foundations RateLimiter.Javascript RateLimiter.Admission

/-- A `resolve` call that has started; it is `ready` when it waits for no load. -/
structure Waiting where
  pair : Pair
  ready : Bool

/-- A resolver, whether it has a load in flight, the calls that have not ended, and how many
queries it has sent. -/
structure Loader (τ ρ : Type) where
  resolver : Resolver τ ρ
  loading : Bool
  calls : List Waiting
  queries : Nat

/-- The moments of a resolver.  The query of a load finds a set, or fails. -/
inductive Moment (τ : Type)
  | resolveStarts (pair : Pair)
  | loadEnds (found : Option τ)
  | resolveEnds (call : Nat)
  | invalidate

namespace Loader

variable {τ ρ : Type}

/-- Nothing loaded. -/
def initial (policies : τ) : Loader τ ρ where
  resolver := { policies := policies, resolved := ∅, loadedAt := 0 }
  loading := false
  calls := []
  queries := 0

/-- `resolve` up to its `await`: `ensureLoaded` finds the set in date, joins the load in
flight, or starts one. -/
def resolveStarts (pair : Pair) (now : Int) (l : Loader τ ρ) : Loader τ ρ :=
  if l.resolver.isFresh now then { l with calls := l.calls ++ [⟨pair, true⟩] }
  else if l.loading then { l with calls := l.calls ++ [⟨pair, false⟩] }
  else
    { l with
      loading := true
      calls := l.calls ++ [⟨pair, false⟩]
      queries := l.queries + 1 }

/-- The load ends, and the calls that wait for it go on, whether it has found a set or
failed. -/
def loadEnds (found : Option τ) (now : Int) (l : Loader τ ρ) : Loader τ ρ :=
  if l.loading then
    { l with
      resolver :=
        match found with
        | some policies => l.resolver.install policies now
        | none => l.resolver.keep now
      loading := false
      calls := l.calls.map fun call => { call with ready := true } }
  else l

/-- `resolve` after its `await`. -/
def resolveEnds (answer : τ → Pair → ρ) (call : Nat) (l : Loader τ ρ) : Loader τ ρ :=
  match l.calls[call]? with
  | some c =>
      if c.ready then
        { l with
          resolver := (l.resolver.lookup answer c.pair).1
          calls := l.calls.eraseIdx call }
      else l
  | none => l

/-- One moment, at a `Date.now()`. -/
def step (answer : τ → Pair → ρ) (l : Loader τ ρ) (moment : Int × Moment τ) : Loader τ ρ :=
  match moment.2 with
  | .resolveStarts pair => l.resolveStarts pair moment.1
  | .loadEnds found => l.loadEnds found moment.1
  | .resolveEnds call => l.resolveEnds answer call
  | .invalidate => { l with resolver := l.resolver.invalidate }

/-- Is the moment an invalidation? -/
def isInvalidation (moment : Int × Moment τ) : Bool :=
  match moment.2 with
  | .invalidate => true
  | _ => false

/-- Is the moment the end of a `resolve` call? -/
def isEnd (moment : Int × Moment τ) : Bool :=
  match moment.2 with
  | .resolveEnds _ => true
  | _ => false

/-! ## How often the database is asked -/

/-- The pace of the queries at the time `t`, after `n` invalidations: counted from `t0`,
`last` leaves room for each query but the first, and once no load is in flight either for the
next one too, or the set was loaded since. -/
def Paced (t0 t : Int) (n : Nat) (l : Loader τ ρ) : Prop :=
  ∃ last, last ≤ t ∧ (l.queries - 1 - n) * Resolver.ttlMs ≤ last - t0 ∧
    (l.loading = false →
      (l.queries - n) * Resolver.ttlMs ≤ last - t0 ∨ last ≤ l.resolver.loadedAt)

/-- A call that is not ready waits for a load in flight. -/
def Awaited (l : Loader τ ρ) : Prop := ∀ call ∈ l.calls, call.ready = false → l.loading = true

section Steps

variable {t0 t now : Int} {n : Nat} {l : Loader τ ρ}

theorem Paced.later (h : Paced t0 t n l) (hle : t ≤ now) : Paced t0 now n l := by
  obtain ⟨last, hlast, hqueries, hidle⟩ := h
  exact ⟨last, hlast.trans hle, hqueries, hidle⟩

theorem Paced.resolveStarts (h : Paced t0 t n l) (hle : t ≤ now) (pair : Pair) :
    Paced t0 now n (l.resolveStarts pair now) := by
  obtain ⟨last, hlast, hqueries, hidle⟩ := h
  unfold Loader.resolveStarts
  split
  next => exact ⟨last, hlast.trans hle, hqueries, hidle⟩
  next hstale =>
    split
    next hloading =>
      refine ⟨last, hlast.trans hle, hqueries, fun hnone => ?_⟩
      rw [hloading] at hnone
      cases hnone
    next hloading =>
      -- the new query is paid for by the age of the set, or by an invalidation
      have hage : l.resolver.loadedAt + Resolver.ttlMs ≤ now := by
        simp only [Resolver.isFresh, decide_eq_true_eq] at hstale
        omega
      refine ⟨now, le_rfl, ?_, fun hnone => by cases hnone⟩
      unfold Resolver.ttlMs at *
      push_cast
      rcases hidle (by simpa using hloading) with hroom | hloaded
      · omega
      · omega

theorem Paced.loadEnds (h : Paced t0 t n l) (hle : t ≤ now) (found : Option τ) :
    Paced t0 now n (l.loadEnds found now) := by
  obtain ⟨last, hlast, hqueries, hidle⟩ := h
  unfold Loader.loadEnds
  split
  next =>
    refine ⟨last, hlast.trans hle, hqueries, fun _ => Or.inr ?_⟩
    cases found with
    | some policies => exact hlast.trans hle
    | none => exact hlast.trans hle
  next => exact ⟨last, hlast.trans hle, hqueries, hidle⟩

/-- The end of a call changes what is remembered and the calls. -/
theorem resolveEnds_cases (answer : τ → Pair → ρ) (call : Nat) (l : Loader τ ρ) :
    l.resolveEnds answer call = l ∨ ∃ c : Waiting, l.resolveEnds answer call =
      { l with
        resolver := (l.resolver.lookup answer c.pair).1
        calls := l.calls.eraseIdx call } := by
  unfold resolveEnds
  cases l.calls[call]? with
  | none => exact Or.inl rfl
  | some c =>
      cases hready : c.ready with
      | false => exact Or.inl (by simp [hready])
      | true => exact Or.inr ⟨c, by simp [hready]⟩

theorem Paced.step (answer : τ → Pair → ρ) (h : Paced t0 t n l) {moment : Int × Moment τ}
    (hle : t ≤ moment.1) :
    Paced t0 moment.1 (n + if isInvalidation moment then 1 else 0) (l.step answer moment) := by
  obtain ⟨now, moment⟩ := moment
  cases moment with
  | resolveStarts pair => exact h.resolveStarts hle pair
  | loadEnds found => exact h.loadEnds hle found
  | resolveEnds call =>
      rcases resolveEnds_cases answer call l with hsame | ⟨c, hnext⟩
      · exact (congrArg (Paced t0 now n) hsame).mpr (h.later hle)
      · exact (congrArg (Paced t0 now n) hnext).mpr (h.later hle)
  | invalidate =>
      obtain ⟨last, hlast, hqueries, hidle⟩ := h
      refine ⟨last, hlast.trans hle, ?_, fun _ => Or.inl ?_⟩
      · show (l.queries - 1 - ((n + 1 : Nat) : Int)) * Resolver.ttlMs ≤ last - t0
        unfold Resolver.ttlMs at *
        push_cast
        omega
      · show (l.queries - ((n + 1 : Nat) : Int)) * Resolver.ttlMs ≤ last - t0
        unfold Resolver.ttlMs at *
        push_cast
        omega

theorem Awaited.step (answer : τ → Pair → ρ) (h : Awaited l) (moment : Int × Moment τ) :
    Awaited (l.step answer moment) := by
  obtain ⟨now, moment⟩ := moment
  cases moment with
  | resolveStarts pair =>
      show Awaited (l.resolveStarts pair now)
      unfold Loader.resolveStarts
      split
      next =>
        intro call hcall hwaits
        rcases List.mem_append.mp hcall with hold | hnew
        · exact h call hold hwaits
        · obtain rfl := List.mem_singleton.mp hnew
          cases hwaits
      next =>
        split
        next hloading => exact fun _ _ _ => hloading
        next => exact fun _ _ _ => rfl
  | loadEnds found =>
      show Awaited (l.loadEnds found now)
      unfold Loader.loadEnds
      split
      next =>
        intro call hcall hwaits
        obtain ⟨before, -, rfl⟩ := List.mem_map.mp hcall
        cases hwaits
      next => exact h
  | resolveEnds call =>
      rcases resolveEnds_cases answer call l with hsame | ⟨c, hnext⟩
      · exact (congrArg Awaited hsame).mpr h
      · refine (congrArg Awaited hnext).mpr fun other hother => ?_
        exact h other (List.mem_of_mem_eraseIdx hother)
  | invalidate => exact h

/-- The pairs that are remembered. -/
def remembered (l : Loader τ ρ) : Nat := l.resolver.resolved.entries.length

/-- A moment remembers one pair at most, and only the end of a call does. -/
theorem remembered_step (answer : τ → Pair → ρ) (l : Loader τ ρ) (moment : Int × Moment τ) :
    (l.step answer moment).remembered ≤
      l.remembered + if isEnd moment then 1 else 0 := by
  obtain ⟨now, moment⟩ := moment
  cases moment with
  | resolveStarts pair =>
      show (l.resolveStarts pair now).remembered ≤ l.remembered
      unfold Loader.resolveStarts
      split
      · exact le_rfl
      · split <;> exact le_rfl
  | loadEnds found =>
      show (l.loadEnds found now).remembered ≤ l.remembered
      unfold Loader.loadEnds
      split
      · cases found <;> exact Nat.zero_le _
      · exact le_rfl
  | resolveEnds call =>
      show (l.resolveEnds answer call).remembered ≤ l.remembered + 1
      rcases resolveEnds_cases answer call l with hsame | ⟨c, hnext⟩
      · rw [hsame]
        exact Nat.le_succ _
      · rw [hnext]
        show (Memo.ask Resolver.cacheKey (answer l.resolver.policies) l.resolver.resolved
          c.pair).1.entries.length ≤ _
        unfold Memo.ask
        cases hhit : l.resolver.resolved.lookup (Resolver.cacheKey c.pair) with
        | some hit => exact Nat.le_succ _
        | none =>
            have hfresh := AList.lookup_eq_none.mp hhit
            dsimp only
            rw [AList.entries_insert_of_notMem hfresh]
            exact le_rfl
  | invalidate => exact Nat.zero_le _

end Steps

/-- **Loads.**  In whatever order calls start and end, loads end or fail and the policies are
invalidated, the database has been asked at most once, and once more for each invalidation
and for each full life of a set since the start; no call waits except for a load in flight;
and of the pairs, no more are remembered than calls have ended since the last load did, even
while all loads fail. -/
theorem policy_loads_bounded (answer : τ → Pair → ρ) (policies : τ) (t0 : Int)
    (moments : List (Int × Moment τ)) (htime : Chronological Prod.fst t0 moments) :
    ((run (step answer) (initial policies) moments).queries : Int) ≤
        1 + moments.countP isInvalidation +
          (lastTime Prod.fst t0 moments - t0) / Resolver.ttlMs ∧
      Awaited (run (step answer) (initial policies) moments) ∧
      ∀ before now found after, moments = before ++ (now, .loadEnds found) :: after →
        (run (step answer) (initial policies) before).loading = true →
        (run (step answer) (initial policies) moments).remembered ≤ after.countP isEnd := by
  refine ⟨?_, ?_, ?_⟩
  · have hstart : Paced t0 t0 0 (initial policies : Loader τ ρ) :=
      ⟨t0, le_rfl, by simp [initial, Resolver.ttlMs], fun _ => Or.inl (by simp [initial])⟩
    have hpaced := timed_run Prod.fst (step answer)
      (fun _ moment => if isInvalidation moment then 1 else 0)
      (I := Paced t0) (P := fun _ _ => True)
      (fun t n l moment h hle _ => h.step answer hle) hstart htime
      (along_of_forall _ (fun _ _ => trivial) _)
    have hcount : (0 + tally (step answer) (fun _ moment => if isInvalidation moment then 1 else 0)
        (initial policies) moments) = moments.countP isInvalidation := by
      rw [Nat.zero_add, tally_eq_countP]
      exact congrArg (moments.countP ·) (funext fun moment => Bool.decide_eq_true)
    rw [hcount] at hpaced
    obtain ⟨last, hlast, hqueries, -⟩ := hpaced
    have hroom : ((run (step answer) (initial policies) moments).queries : Int) - 1 -
        moments.countP isInvalidation ≤
          (lastTime Prod.fst t0 moments - t0) / Resolver.ttlMs := by
      rw [Int.le_ediv_iff_mul_le (by decide)]
      omega
    omega
  · refine run_invariant (step answer) (I := Awaited) (fun l moment h => h.step answer moment) ?_
      moments
    exact fun call hcall => absurd hcall List.not_mem_nil
  · rintro before now found after rfl hloading
    have hgrows : ∀ (moments : List (Int × Moment τ)) (l : Loader τ ρ),
        (run (step answer) l moments).remembered ≤ l.remembered + moments.countP isEnd := by
      intro moments
      induction moments with
      | nil => exact fun l => le_rfl
      | cons moment moments ih =>
          intro l
          have hstep := remembered_step answer l moment
          have hrest := ih (l.step answer moment)
          rw [run_cons, List.countP_cons]
          omega
    have hempty : ((run (step answer) (initial policies) before).step answer
        (now, .loadEnds found)).remembered = 0 := by
      show ((run (step answer) (initial policies) before).loadEnds found now).remembered = 0
      unfold Loader.loadEnds
      rw [if_pos hloading]
      cases found <;> rfl
    rw [run_append, run_cons]
    have hafter := hgrows after ((run (step answer) (initial policies) before).step answer
      (now, .loadEnds found))
    omega

/-- Two calls share a load that fails and a third one waits for the set to go out of date. -/
theorem policy_loads_bounded_outage :
    let outage : List (Int × Moment (List StoredPolicy)) :=
      [(40000, .resolveStarts (js "acme", js "a")), (40001, .resolveStarts (js "acme", js "b")),
        (40010, .loadEnds none), (40010, .resolveEnds 1), (40010, .resolveEnds 0),
        (60000, .resolveStarts (js "globex", js "a")), (60000, .resolveEnds 0),
        (70010, .resolveStarts (js "acme", js "a"))]
    (run (step (policyFor fun _ => none)) (initial []) outage).queries = 2 ∧
      ((run (step (policyFor fun _ => none)) (initial []) outage).queries : Int) ≤
        1 + outage.countP isInvalidation + (70010 - 40000) / Resolver.ttlMs ∧
      (run (step (policyFor fun _ => none)) (initial []) outage).remembered ≤ 3 := by
  intro outage
  have htime : Chronological Prod.fst 40000 outage := by simp [outage]
  obtain ⟨hqueries, -, hremembered⟩ :=
    policy_loads_bounded (policyFor fun _ => none) [] 40000 outage htime
  exact ⟨rfl, hqueries, hremembered (outage.take 2) 40010 none (outage.drop 3) rfl rfl⟩

end Loader

end RateLimiter.Control
