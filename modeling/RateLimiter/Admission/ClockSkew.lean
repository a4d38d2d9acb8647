import RateLimiter.Admission.Calls

/-!
# Accrual under skewed clocks

Every replica sends its own `now`.  A call that writes stores that `now` as the
time the balance was refilled, also when the balance had been refilled at a later
time already: the refill itself ignores a clock that went back, but the stored
clock follows it, and the time it went back over is accrued once more.  As long
as the writing calls arrive in the order of their clocks, a pair never accrues
more than the time between the first and the last of them is worth.
-/

namespace RateLimiter.Admission

open RateLimiter.Redis RateLimiter.Javascript RateLimiter.Foundations

variable {Rid : Type} [LinearOrder Rid]

/-- The calls of a run that store a balance, in the order they arrive. -/
def writers : PairState Rid → List (Request Rid) → List (Request Rid)
  | _, [] => []
  | s, r :: rs =>
      if writes (s.purge r.clock) r then r :: writers (stepAlive s r) rs
      else writers (stepAlive s r) rs

/-- What the refill of a writing call adds to the balance that was stored. -/
def accrued (s : PairState Rid) (r : Request Rid) : Rat :=
  let alive := s.purge r.clock
  match alive.tpm.get, alive.tpmTs.get with
  | some b, some _ => if writes alive r then balanceAt r.policy r.now alive - b else 0
  | _, _ => 0

section Step

variable {s : PairState Rid} {r : Request Rid}

omit [LinearOrder Rid] in
theorem accrued_of_not_writes (h : writes (s.purge r.clock) r = false) : accrued s r = 0 := by
  unfold accrued
  dsimp only
  split
  · rw [h]
    rfl
  · rfl

omit [LinearOrder Rid] in
/-- A refill adds at most what the time since the stored clock is worth. -/
theorem accrued_le {p : Limits} {ts : Int} (hp : r.policy = p)
    (hts : ∀ t, (s.purge r.clock).tpmTs.get = some t → t = ts) (hle : ts ≤ r.now) :
    accrued s r ≤ (p.tokensPerMinute : Rat) / 60 * (r.now - ts) / 1000 := by
  have hL := p.tokensPerMinute_pos_rat
  have hcast : (ts : Rat) ≤ r.now := by exact_mod_cast hle
  have hgain : 0 ≤ (p.tokensPerMinute : Rat) / 60 * (r.now - ts) / 1000 := by
    have := sub_nonneg.mpr hcast
    positivity
  unfold accrued
  dsimp only
  split
  next b t hb ht =>
    obtain rfl := hts t ht
    split
    · have hrefill : balanceAt r.policy r.now (s.purge r.clock) ≤
          b + (p.tokensPerMinute : Rat) / 60 * (r.now - t) / 1000 := by
        unfold balanceAt
        rw [hb, ht, hp]
        exact refill_le_of_le hle _ _ _
      linarith
    · exact hgain
  next => exact hgain

omit [LinearOrder Rid] in
/-- The clock a server still has is the one that was stored. -/
theorem tpmTs_of_purge {clock t : Int} (h : (s.purge clock).tpmTs.get = some t) :
    s.tpmTs.get = some t := by
  change (StringKey.purge clock s.tpmTs).get = some t at h
  cases hpurge : StringKey.purge clock s.tpmTs with
  | none =>
      rw [hpurge] at h
      cases h
  | some timed =>
      rw [hpurge] at h
      rw [(StringKey.purge_eq_some.mp hpurge).1]
      exact h

end Step

/-! ## Whole runs -/

/-- While the stored clock is the last writer's, what a run accrues is covered by
the time that passes between its writers. -/
theorem accrued_run {p : Limits} {b : Int} {calls : List (Request Rid)} {s : PairState Rid}
    {t : Int} (hstored : ∀ ts, s.tpmTs.get = some ts → ts = t) (htb : t ≤ b)
    (hpolicy : ∀ r ∈ calls, r.policy = p) (hbound : ∀ r ∈ calls, r.now ≤ b)
    (horder : Chronological Request.now t (writers s calls)) :
    tally stepAlive accrued s calls ≤ (p.tokensPerMinute : Rat) / 60 * (b - t) / 1000 := by
  -- `t` follows the clock of the last writer; the calls between two writers accrue nothing
  induction calls generalizing s t with
  | nil =>
      have hL := p.tokensPerMinute_pos_rat
      have hcast : (t : Rat) ≤ b := by exact_mod_cast htb
      have := sub_nonneg.mpr hcast
      rw [tally_nil]
      positivity
  | cons r rs ih =>
      obtain ⟨hp, hps⟩ := List.forall_mem_cons.mp hpolicy
      obtain ⟨hb, hbs⟩ := List.forall_mem_cons.mp hbound
      rw [tally_cons]
      unfold writers at horder
      cases hwrites : writes (s.purge r.clock) r with
      | false =>
          rw [hwrites] at horder
          rw [accrued_of_not_writes hwrites, zero_add]
          refine ih ?_ htb hps hbs horder
          intro ts hts
          unfold stepAlive at hts
          rw [step_of_not_writes hwrites] at hts
          exact hstored ts (tpmTs_of_purge hts)
      | true =>
          rw [hwrites] at horder
          obtain ⟨hle, hrest⟩ := horder
          have hhead := accrued_le hp (fun ts hts => hstored ts (tpmTs_of_purge hts)) hle
          have htail := ih (s := stepAlive s r) (t := r.now) (fun ts hts => by
            obtain ⟨-, -, htpmTs⟩ := step_of_writes hwrites
            change (step (s.purge r.clock) r).tpmTs.get = some ts at hts
            rw [htpmTs, StringKey.get_setEx] at hts
            exact (Option.some.inj hts).symm) hb hps hbs hrest
          calc accrued s r + tally stepAlive accrued (stepAlive s r) rs
              ≤ (p.tokensPerMinute : Rat) / 60 * (r.now - t) / 1000 +
                (p.tokensPerMinute : Rat) / 60 * (b - r.now) / 1000 := add_le_add hhead htail
            _ = (p.tokensPerMinute : Rat) / 60 * (b - t) / 1000 := by ring

theorem mem_of_mem_writers {s : PairState Rid} {calls : List (Request Rid)} {r : Request Rid}
    (h : r ∈ writers s calls) : r ∈ calls := by
  induction calls generalizing s with
  | nil => exact h
  | cons c cs ih =>
      unfold writers at h
      split at h
      · rcases List.mem_cons.mp h with rfl | hrest
        · exact List.mem_cons_self
        · exact List.mem_cons_of_mem c (ih hrest)
      · exact List.mem_cons_of_mem c (ih h)

/-- The limits of a pair that accrues one token a second. -/
def oneTokenPerSecond : Limits :=
  { defaultLimits with tokensPerMinute := 60, tokensPerMinute_pos := by decide }

/-- Two replicas, one a second ahead of the other, take turns. -/
def skewedReserves : List (Request Nat) :=
  [callAt oneTokenPerSecond 0 (.reserve 1 50 0), callAt oneTokenPerSecond 1000 (.reserve 2 1 0),
    { callAt oneTokenPerSecond 0 (.reserve 3 1 0) with clock := 1000 },
    callAt oneTokenPerSecond 1000 (.reserve 4 1 0)]

end RateLimiter.Admission
