import Mathlib.Data.Finset.Card
import RateLimiter.Limiter.FixedWindow

/-!
# Fixed windows across replicas

A replica names the counter of its window by its own clock and asks the server to drop it
when that clock will have left the window.  A replica that is ahead has the counter dropped
early, and those behind it, still in the window, begin another one.  How often that can
happen depends on how many ways the clocks differ, and on nothing else.
-/

namespace RateLimiter.Limiter

open RateLimiter.Redis RateLimiter.Javascript RateLimiter.Foundations

namespace FixedWindowAlgorithm

/-- A call of a replica: the limit it asks for, the server's clock and the replica's own. -/
structure ReplicaCall where
  quota : Quota
  clock : Int
  now : Nat

namespace ReplicaCall

/-- How far the replica is ahead of the server. -/
def ahead (c : ReplicaCall) : Int := c.now - c.clock

/-- The window the replica takes it to be. -/
def index (c : ReplicaCall) : Nat := windowIndex c.now c.quota.windowSeconds

end ReplicaCall

variable (name : JsString)

/-- What a call leaves. -/
def serve (counters : Counters) (c : ReplicaCall) : Counters :=
  match check c.clock c.quota name c.now 1 counters with
  | .ok (counters', _) => counters'
  | .error _ => counters

/-- Counts the calls of the window that are allowed. -/
def servedIn (index : Nat) (counters : Counters) (c : ReplicaCall) : Nat :=
  match check c.clock c.quota name c.now 1 counters with
  | .ok (_, result) => if result.allowed ∧ c.index = index then 1 else 0
  | .error _ => 0

/-! ## What a call does -/

variable {name} {counters : Counters} {c : ReplicaCall} {index windowSeconds limit : Nat}

variable (name counters) in
theorem serve_elsewhere (hindex : c.index ≠ index) :
    serve name counters c (key name index) = counters (key name index) ∧
      servedIn name index counters c = 0 := by
  refine ⟨Function.update_of_ne (fun h => hindex (key_injective name h).symm) _ _, ?_⟩
  exact if_neg fun hin => hindex hin.2

variable (name counters) in
/-- In its window a call counts itself while there is room; the counter it leaves lives until
the replica's clock is out of the window. -/
theorem serve_counted (hindex : c.index = index) :
    (∃ count : Int, ((counters (key name index)).purge c.clock).get.getD 0 = count ∧
        count < c.quota.limit ∧ servedIn name index counters c = 1 ∧
        serve name counters c (key name index) =
          some ⟨count + 1, windowEnd c.quota index - c.ahead⟩) ∨
      ∃ timed, (counters (key name index)).purge c.clock = some timed ∧
        servedIn name index counters c = 0 ∧
        serve name counters c (key name index) =
          some ⟨timed.value, windowEnd c.quota index - c.ahead⟩ := by
  subst hindex
  have hlive : c.now < windowEnd c.quota c.index := lt_windowEnd c.quota c.now
  have httl : (0 : Int) < windowEnd c.quota c.index - c.now := by omega
  have hends : c.clock + (windowEnd c.quota c.index - c.now) =
      windowEnd c.quota c.index - c.ahead := by
    unfold ReplicaCall.ahead
    omega
  have hserve : serve name counters c (key name c.index) =
      (fixedWindowScript c.clock c.quota.limit c.quota.windowSeconds c.now
        ((counters (key name c.index)).purge c.clock)).1 := Function.update_self _ _ _
  have hcounts : servedIn name c.index counters c =
      if (fixedWindowScript c.clock c.quota.limit c.quota.windowSeconds c.now
        ((counters (key name c.index)).purge c.clock)).2.allowed = true then 1 else 0 := by
    refine if_congr ?_ rfl rfl
    exact and_iff_left rfl
  have hreset : ((c.now / (c.quota.windowSeconds * 1000) + 1 : Nat) : Int) *
      ((c.quota.windowSeconds * 1000 : Nat) : Int) = windowEnd c.quota c.index :=
    (Nat.cast_mul _ _).symm
  rw [hserve, hcounts]
  unfold fixedWindowScript
  simp only [hreset]
  by_cases hroom : ((counters (key name c.index)).purge c.clock).get.getD 0 < c.quota.limit
  · refine Or.inl ⟨_, rfl, hroom, ?_, ?_⟩
    · rw [if_pos hroom]
      rfl
    · rw [if_pos hroom, StringKey.incr_of_pos httl, hends]
  · -- an absent counter would have had room
    right
    cases hkey : (counters (key name c.index)).purge c.clock with
    | none =>
        rw [hkey] at hroom
        exact absurd (Int.natCast_pos.mpr c.quota.limit_pos) hroom
    | some timed =>
        rw [hkey] at hroom
        refine ⟨timed, rfl, ?_, ?_⟩
        · rw [if_neg hroom]
          rfl
        · rw [if_neg hroom, StringKey.pexpire_of_pos httl, hends]

/-! ## The lives of a counter -/

/-- The instant at which the window is over. -/
def endOf (windowSeconds index : Nat) : Nat := (index + 1) * (windowSeconds * 1000)

/-- What is known of the window at the server's time `t`, after `admitted` calls: the counter
has died once for each of the leads in `used`, whose replicas have left the window, and is
alive, if it is, by grace of a replica that has not. -/
structure Lives (windowSeconds limit index : Nat) (offsets : Finset Int) (name : JsString)
    (t : Int) (admitted : Nat) (counters : Counters) (used : Finset Int) : Prop where
  subset : used ⊆ offsets
  left : ∀ o ∈ used, endOf windowSeconds index - o < t
  admitted : admitted ≤ limit * used.card + ((counters (key name index)).get.getD 0)
  alive : ∀ timed, counters (key name index) = some timed → timed.value ≤ limit ∧
    ∃ o ∈ offsets, o ∉ used ∧ timed.expireAt = endOf windowSeconds index - o

variable {offsets used : Finset Int} {t clock : Int} {admitted : Nat}

/-- The counter that is found is of the same life, or another lead is used up. -/
theorem Lives.purge (h : Lives windowSeconds limit index offsets name t admitted counters used)
    (hle : t ≤ clock) :
    ∃ used', used' ⊆ offsets ∧ (∀ o ∈ used', endOf windowSeconds index - o < clock) ∧
      admitted ≤ limit * used'.card + ((counters (key name index)).purge clock).get.getD 0 ∧
      ∀ timed, (counters (key name index)).purge clock = some timed → timed.value ≤ limit := by
  cases hkey : counters (key name index) with
  | none =>
      refine ⟨used, h.subset, fun o ho => (h.left o ho).trans_le hle, ?_, ?_⟩
      · simpa [hkey] using h.admitted
      · simp
  | some timed =>
      obtain ⟨hvalue, o, ho, hunused, hexpires⟩ := h.alive timed hkey
      have hadmitted := h.admitted
      rw [hkey] at hadmitted
      by_cases hlives : clock ≤ timed.expireAt
      · rw [StringKey.purge_some_of_le hlives]
        refine ⟨used, h.subset, fun o ho => (h.left o ho).trans_le hle, hadmitted, ?_⟩
        rintro other ⟨⟩
        exact hvalue
      · rw [StringKey.purge_some_of_lt (not_le.mp hlives)]
        refine ⟨insert o used, Finset.insert_subset ho h.subset, ?_, ?_,
          fun _ hnone => by cases hnone⟩
        · intro o' ho'
          rcases Finset.mem_insert.mp ho' with rfl | hold
          · rw [← hexpires]
            exact not_le.mp hlives
          · exact (h.left o' hold).trans_le hle
        · rw [Finset.card_insert_of_notMem hunused]
          have hfull : (timed.value : Int) ≤ limit := hvalue
          simp only [StringKey.get_some, Option.getD_some, StringKey.get_none,
            Option.getD_none] at hadmitted ⊢
          push_cast
          linarith

theorem Lives.serve (h : Lives windowSeconds limit index offsets name t admitted counters used)
    (hle : t ≤ c.clock) (hwindow : c.quota.windowSeconds = windowSeconds)
    (hlimit : c.quota.limit ≤ limit) (hoffset : c.ahead ∈ offsets) :
    ∃ used', Lives windowSeconds limit index offsets name c.clock
      (admitted + servedIn name index counters c) (serve name counters c) used' := by
  by_cases hindex : c.index = index
  · obtain ⟨used', hsubset, hover, hadmitted, hvalue⟩ := h.purge hle
    have hend : windowEnd c.quota index = endOf windowSeconds index := by
      rw [← hwindow]
      rfl
    -- the replica is in the window, and those that are in `used'` have left it
    have hunused : c.ahead ∉ used' := by
      intro hused
      have hleft := hover c.ahead hused
      have hlive : c.now < endOf windowSeconds index := by
        rw [← hend, ← hindex]
        exact lt_windowEnd c.quota c.now
      unfold ReplicaCall.ahead at hleft
      omega
    refine ⟨used', hsubset, hover, ?_, ?_⟩
    · rcases serve_counted name counters hindex with
        ⟨count, hfound, -, hserved, hnext⟩ | ⟨timed, hfound, hserved, hnext⟩
      · rw [hserved, hnext]
        rw [hfound] at hadmitted
        push_cast
        simp only [StringKey.get_some, Option.getD_some]
        linarith
      · rw [hserved, hnext]
        rw [hfound] at hadmitted
        exact hadmitted
    · intro timed hkey
      rcases serve_counted name counters hindex with
        ⟨count, -, hroom, -, hnext⟩ | ⟨timed', hfound, -, hnext⟩
      · obtain rfl := Option.some.inj (hnext.symm.trans hkey)
        have hcast : (c.quota.limit : Int) ≤ limit := by exact_mod_cast hlimit
        refine ⟨?_, c.ahead, hoffset, hunused, by rw [hend]⟩
        show count + 1 ≤ (limit : Int)
        omega
      · obtain rfl := Option.some.inj (hnext.symm.trans hkey)
        exact ⟨hvalue timed' hfound, c.ahead, hoffset, hunused, by rw [hend]⟩
  · obtain ⟨hkept, hserved⟩ := serve_elsewhere name counters hindex
    refine ⟨used, h.subset, fun o ho => (h.left o ho).trans_le hle, ?_, ?_⟩
    · rw [hserved, hkept]
      exact h.admitted
    · rw [hkept]
      exact h.alive

/-- Of the lives that have been and the one that is, no two are owed to the same lead. -/
theorem Lives.admitted_le
    (h : Lives windowSeconds limit index offsets name t admitted counters used) :
    admitted ≤ limit * offsets.card := by
  have hadmitted := h.admitted
  cases hkey : counters (key name index) with
  | none =>
      rw [hkey] at hadmitted
      simp only [StringKey.get_none, Option.getD_none, add_zero] at hadmitted
      have hless : admitted ≤ limit * used.card := by exact_mod_cast hadmitted
      exact hless.trans (Nat.mul_le_mul_left limit (Finset.card_le_card h.subset))
  | some timed =>
      obtain ⟨hvalue, o, ho, hunused, -⟩ := h.alive timed hkey
      rw [hkey] at hadmitted
      have hmore : used.card + 1 ≤ offsets.card := by
        rw [← Finset.card_insert_of_notMem hunused]
        exact Finset.card_le_card (Finset.insert_subset ho h.subset)
      have hless : admitted ≤ limit * (used.card + 1) := by
        simp only [StringKey.get_some, Option.getD_some] at hadmitted
        have hsum : (admitted : Int) ≤ limit * used.card + limit :=
          hadmitted.trans (Int.add_le_add_left hvalue _)
        rw [Nat.mul_succ]
        exact_mod_cast hsum
      exact hless.trans (Nat.mul_le_mul_left limit hmore)

/-- **Fixed windows across replicas.**  However far the clocks of the replicas are from the
server's, the calls that are allowed for one window are at most the largest limit asked for,
once for each of the leads the replicas have over the server. -/
theorem window_lives_bound (name : JsString) (windowSeconds limit : Nat) (offsets : Finset Int)
    (t0 : Int) (calls : List ReplicaCall)
    (hquota : ∀ c ∈ calls, c.quota.windowSeconds = windowSeconds ∧ c.quota.limit ≤ limit)
    (hoffsets : ∀ c ∈ calls, c.ahead ∈ offsets)
    (htime : Chronological ReplicaCall.clock t0 calls) (index : Nat) :
    tally (serve name) (servedIn name index) (fun _ => none) calls ≤ limit * offsets.card := by
  have hstart : Lives windowSeconds limit index offsets name t0 0 (fun _ => none) ∅ := by
    refine ⟨Finset.empty_subset _, ?_, ?_, ?_⟩
    · simp
    · simp
    · simp
  have hrun := timed_run ReplicaCall.clock (serve name) (servedIn name index)
    (I := fun t admitted counters =>
      ∃ used, Lives windowSeconds limit index offsets name t admitted counters used)
    (P := fun _ c => (c.quota.windowSeconds = windowSeconds ∧ c.quota.limit ≤ limit) ∧
      c.ahead ∈ offsets)
    (fun t admitted counters c ⟨_, h⟩ hle ⟨⟨hwindow, hlimit⟩, hoffset⟩ =>
      h.serve hle hwindow hlimit hoffset)
    ⟨∅, hstart⟩ htime (along_of_forall _ (fun c hc => ⟨hquota c hc, hoffsets c hc⟩) _)
  rw [Nat.zero_add] at hrun
  obtain ⟨_, hlives⟩ := hrun
  exact hlives.admitted_le

/-- Two a second, and a replica that is half a second ahead: the counter dies in the middle of
the window, and no smaller bound would hold. -/
theorem window_lives_bound_half_ahead :
    let q : Quota := ⟨2, 1, by decide, by decide⟩
    let calls : List ReplicaCall := [⟨q, 0, 500⟩, ⟨q, 400, 900⟩, ⟨q, 501, 501⟩, ⟨q, 999, 999⟩]
    tally (serve (js "a")) (servedIn (js "a") 0) (fun _ => none) calls = 2 * 2 ∧
      tally (serve (js "a")) (servedIn (js "a") 0) (fun _ => none) calls ≤
        2 * ({500, 0} : Finset Int).card := by
  intro q calls
  refine ⟨by decide +kernel, ?_⟩
  apply window_lives_bound (js "a") 1 2 {500, 0} 0 calls
  · simp [calls, q]
  · simp [calls, ReplicaCall.ahead]
  · simp [calls]

end FixedWindowAlgorithm

end RateLimiter.Limiter
