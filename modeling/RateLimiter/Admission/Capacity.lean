import Mathlib.Data.Finset.Card
import RateLimiter.Admission.KeyLifetime

/-!
# What the backend has to carry

A policy says how many requests the backend serves and how many may wait for it.  What the
backend carries is the reservations their callers still hold on a running lease, whatever
leases the server happens to have kept; a reservation that the server forgets is carried all
the same.  It forgets none as long as no lease is longer than a time to live that some call
sets, which leases of up to two minutes never are.
-/

namespace RateLimiter.Admission

open RateLimiter.Redis RateLimiter.Javascript RateLimiter.Foundations

namespace Outlook

variable {Rid : Type} [LinearOrder Rid]

/-- A reservation is held by its caller, on a lease that is running at `u`. -/
def Running (u : Int) (o : Outlook Rid) (rid : Rid) : Prop :=
  ∃ promised, o.outstanding rid = some promised ∧ u < promised.leaseEnd

/-- The requests the backend serves at once and those that may wait. -/
def roomOf (p : Limits) : Nat := p.maxConcurrency + p.maxQueueDepth

/-- From `t` on no more than `room` reservations are running. -/
def Roomy (t : Int) (room : Nat) (o : Outlook Rid) : Prop :=
  ∀ u, t ≤ u → ∀ held : Finset Rid, (∀ rid ∈ held, Running u o rid) → held.card ≤ room

/-- No lease ends later than the longest one that could have been given at `t`. -/
def EndsWithin (leaseSeconds : Nat) (t : Int) (o : Outlook Rid) : Prop :=
  ∀ rid promised, o.outstanding rid = some promised →
    promised.leaseEnd ≤ t + 1000 * leaseSeconds

variable {o : Outlook Rid} {r : Request Rid} {rid : Rid} {t u : Int}

/-- What a caller holds after a call it held before, unless the call has just admitted it. -/
theorem outstanding_advance {promised : Promised}
    (h : (advance o r).outstanding rid = some promised) :
    o.outstanding rid = some promised ∨
      admitted (handle (o.keys.purge r.clock) r).2 = true ∧
        promised.leaseEnd = r.now + r.policy.leaseMs := by
  rcases op_cases r.op with ⟨rid', tokens, slo, hop⟩ | ⟨rid', actual, hop⟩ | hop
  · unfold advance at h
    rw [hop] at h
    dsimp only at h
    split at h
    next hadmitted =>
      by_cases hrid : rid = rid'
      · rw [hrid, Function.update_self] at h
        exact Or.inr ⟨hadmitted, (Option.some.inj h) ▸ rfl⟩
      · rw [Function.update_of_ne hrid] at h
        exact Or.inl h
    next => exact Or.inl h
  · rw [outstanding_settles hop] at h
    by_cases hrid : rid = rid'
    · rw [hrid, Function.update_self] at h
      cases h
    · rw [Function.update_of_ne hrid] at h
      exact Or.inl h
  · unfold advance at h
    rw [hop] at h
    exact Or.inl h

omit [LinearOrder Rid] in
/-- A time to live that covers the longest lease is long enough. -/
theorem EndsWithin.longEnough {leaseSeconds : Nat} (h : EndsWithin leaseSeconds t o)
    (hle : t ≤ r.clock) (httl : leaseSeconds ≤ r.policy.ttlSeconds) : LongEnough o r := by
  intro _ rid promised hpromised _ _
  have hends := h rid promised hpromised
  omega

theorem EndsWithin.advance {leaseSeconds : Nat} (h : EndsWithin leaseSeconds t o)
    (hclock : r.now = r.clock) (hle : t ≤ r.clock) (hlease : r.policy.leaseSeconds ≤ leaseSeconds) :
    EndsWithin leaseSeconds r.clock (advance o r) := by
  intro rid promised hpromised
  rcases outstanding_advance hpromised with hold | ⟨-, hnew⟩
  · have hends := h rid promised hold
    omega
  · unfold Limits.leaseMs at hnew
    omega

/-- An admission leaves room for what is running, since all of that has a lease. -/
theorem roomy_of_admitted (hlasting : LastingInv r.clock (advance o r))
    (hadmitted : admitted (handle (o.keys.purge r.clock) r).2 = true) :
    Roomy r.clock (roomOf r.policy) (advance o r) := by
  intro u hu held hrunning
  have hleases : ∀ rid ∈ held, ∃ v, (advance o r).keys.leases.get rid = some v := by
    intro rid hrid
    obtain ⟨promised, hpromised, hlive⟩ := hrunning rid hrid
    exact ⟨_, (hlasting rid promised hpromised (hu.trans_lt hlive)).lease⟩
  have hcard := Collection.length_le_card held.nodup_toList fun rid hrid =>
    hleases rid (Finset.mem_toList.mp hrid)
  rw [Finset.length_toList] at hcard
  exact hcard.trans (card_le_after_admission hadmitted)

/-- What no call admits has been running before. -/
theorem Roomy.advance {room : Nat} (h : Roomy t room o) (hle : t ≤ r.clock)
    (hshed : ¬ admitted (handle (o.keys.purge r.clock) r).2 = true) :
    Roomy r.clock room (advance o r) := by
  intro u hu held hrunning
  refine h u (hle.trans hu) held fun rid hrid => ?_
  obtain ⟨promised, hpromised, hlive⟩ := hrunning rid hrid
  rcases outstanding_advance hpromised with hold | ⟨hnew, -⟩
  · exact ⟨promised, hold, hlive⟩
  · exact absurd hnew hshed

/-! ## Runs -/

/-- What has been promised, and the room there was for it at the last admission. -/
structure Load (Rid : Type) where
  outlook : Outlook Rid
  room : Nat

/-- Before the first call. -/
def Load.start : Load Rid := ⟨Outlook.start, 0⟩

/-- One call. -/
def Load.advance (l : Load Rid) (r : Request Rid) : Load Rid where
  outlook := l.outlook.advance r
  room := if admitted (handle (l.outlook.keys.purge r.clock) r).2 then roomOf r.policy else l.room

/-- The room is kept beside the promises. -/
theorem outlook_run (calls : List (Request Rid)) (l : Load Rid) :
    (run Load.advance l calls).outlook = run Outlook.advance l.outlook calls := by
  induction calls generalizing l with
  | nil => rfl
  | cons r calls ih => exact ih (l.advance r)

/-- The keys last, and what runs has room. -/
structure Carried (leaseSeconds : Nat) (t : Int) (l : Load Rid) : Prop where
  lasting : LastingInv t l.outlook
  ends : EndsWithin leaseSeconds t l.outlook
  roomy : Roomy t l.room l.outlook

theorem Carried.advance {leaseSeconds : Nat} {l : Load Rid} (h : Carried leaseSeconds t l)
    (hclock : r.now = r.clock) (hle : t ≤ r.clock)
    (hlease : r.policy.leaseSeconds ≤ leaseSeconds ∧ leaseSeconds ≤ r.policy.ttlSeconds) :
    Carried leaseSeconds r.clock (l.advance r) := by
  have hlasting := h.lasting.advance hclock hle (h.ends.longEnough hle hlease.2)
  refine ⟨hlasting, h.ends.advance hclock hle hlease.1, ?_⟩
  unfold Load.advance
  dsimp only
  split
  next hadmitted => exact roomy_of_admitted hlasting hadmitted
  next hshed => exact h.roomy.advance hle hshed

end Outlook

open Outlook

section Capacity

variable {Rid : Type} [LinearOrder Rid]

/-- **Capacity.**  On one clock, whichever calls are made under whichever policies and
whatever keys expire: at every instant the reservations that callers hold on a running lease
are no more than the backend had room for under the policy of the last admission, as long as
no lease of the run is longer than a time to live of the run. -/
theorem running_le_room (leaseSeconds : Nat) (t0 : Int) (calls : List (Request Rid))
    (hlease : ∀ r ∈ calls,
      r.policy.leaseSeconds ≤ leaseSeconds ∧ leaseSeconds ≤ r.policy.ttlSeconds)
    (hclock : ∀ r ∈ calls, r.now = r.clock) (htime : Chronological Request.clock t0 calls)
    (u : Int) (hu : lastTime Request.clock t0 calls ≤ u) (held : Finset Rid)
    (hheld : ∀ rid ∈ held, Running u (run advance start calls) rid) :
    held.card ≤ (run Load.advance .start calls).room := by
  have hstart : Carried leaseSeconds t0 (.start : Load Rid) := by
    refine ⟨lastingInv_start t0, ?_, ?_⟩
    · intro rid promised hpromised
      cases hpromised
    · intro u _ held hrunning
      refine (Finset.card_eq_zero.mpr (Finset.eq_empty_iff_forall_notMem.mpr ?_)).le
      intro rid hrid
      obtain ⟨promised, hpromised, -⟩ := hrunning rid hrid
      cases hpromised
  have hmeets : Along Load.advance
      (fun _ r => (r.policy.leaseSeconds ≤ leaseSeconds ∧ leaseSeconds ≤ r.policy.ttlSeconds) ∧
        r.now = r.clock) .start calls :=
    along_of_forall _ (fun r hr => ⟨hlease r hr, hclock r hr⟩) _
  have hcarried : Carried leaseSeconds (lastTime Request.clock t0 calls)
      (run Load.advance .start calls) :=
    timed_run Request.clock Load.advance (fun _ _ => (0 : Nat))
      (I := fun t _ l => Carried leaseSeconds t l) (m := 0)
      (fun _ _ _ _ h hle hmeets => h.advance hmeets.2 hle hmeets.1) hstart htime hmeets
  refine hcarried.roomy u hu held fun rid hrid => ?_
  rw [outlook_run]
  exact hheld rid hrid

/-- An edit to shorter leases while a longer one is running. -/
theorem running_le_room_edit :
    let edited : Load Nat := run Load.advance .start
      [callAt defaultLimits 0 (.reserve 1 10 0),
        callAt (withLease 30 (by decide)) 1000 (.reserve 2 10 0)]
    (∀ rid ∈ ({1, 2} : Finset Nat), Running 2000 edited.outlook rid) ∧
      ({1, 2} : Finset Nat).card ≤ edited.room := by
  intro edited
  have hrunning : ∀ rid ∈ ({1, 2} : Finset Nat), Running 2000 edited.outlook rid := by
    intro rid hrid
    rcases Finset.mem_insert.mp hrid with rfl | htwo
    · exact ⟨⟨120000, 10⟩, by decide +kernel, by decide⟩
    · obtain rfl := Finset.mem_singleton.mp htwo
      exact ⟨⟨31000, 10⟩, by decide +kernel, by decide⟩
  refine ⟨hrunning, running_le_room 120 0
    [callAt defaultLimits 0 (.reserve 1 10 0),
      callAt (withLease 30 (by decide)) 1000 (.reserve 2 10 0)] ?_ ?_ ?_ 2000 (by decide) {1, 2} ?_⟩
  · decide
  · simp [callAt]
  · simp [callAt]
  · intro rid hrid
    exact (outlook_run _ (Load.start : Load Nat)).symm ▸ hrunning rid hrid

end Capacity

end RateLimiter.Admission
