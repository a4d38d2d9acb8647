import RateLimiter.Admission.Lifecycle

/-!
# How long the keys of a pair live

Every call that writes sets the time to live of the keys from the lease length
of its own policy, also while leases of an older, longer policy are out.
`Outlook` adds to the keys what the callers have been promised: the end of the
lease and the size of every reservation they still hold, and whether the stored
balance had it deducted since it last started full.  `Outlives` says that the
keys bear a promise out at an instant; `LongEnough` is what a call has to leave
for that to go on.
-/

namespace RateLimiter.Admission

open RateLimiter.Redis RateLimiter.Javascript RateLimiter.Foundations

/-- What an admitted caller was told. -/
structure Promised where
  leaseEnd : Int
  held : Rat
deriving DecidableEq

/-- The keys and what has been promised on them. -/
structure Outlook (Rid : Type) where
  keys : PairState Rid
  outstanding : Rid → Option Promised
  deducted : Rid → Bool

namespace Outlook

variable {Rid : Type} [LinearOrder Rid]

/-- Before the first call. -/
def start : Outlook Rid := ⟨.empty, fun _ => none, fun _ => false⟩

/-- Is the balance still there for a call to refill, or does it start full? -/
def carriesOver (s : PairState Rid) : Bool := s.tpm.get.isSome && s.tpmTs.get.isSome

/-- One call on a server where keys expire, and what it promises, ends or makes
the balance forget. -/
def advance (o : Outlook Rid) (r : Request Rid) : Outlook Rid :=
  let alive := o.keys.purge r.clock
  { keys := stepAlive o.keys r
    outstanding :=
      match r.op with
      | .reserve rid tokens _ =>
          if admitted (handle alive r).2 then
            Function.update o.outstanding rid (some ⟨r.now + r.policy.leaseMs, tokens⟩)
          else o.outstanding
      | .commit rid _ _ _ => Function.update o.outstanding rid none
      | .release rid => Function.update o.outstanding rid none
      | .snapshot => o.outstanding
    deducted := fun k =>
      if writes alive r then
        match r.op with
        | .reserve rid _ _ =>
            decide (k = rid) && admitted (handle alive r).2 ||
              carriesOver alive && o.deducted k &&
                !sweeps alive r k
        | .commit rid _ _ _ => carriesOver alive && o.deducted k && !decide (k = rid)
        | .release rid => carriesOver alive && o.deducted k && !decide (k = rid)
        | .snapshot => o.deducted k
      else o.deducted k }

/-- At the instant `u` every reservation whose lease is still running has its
lease, its hold and a balance that was charged for it. -/
def Outlives (u : Int) (o : Outlook Rid) : Prop :=
  ∀ rid promised, o.outstanding rid = some promised → u < promised.leaseEnd →
    (o.keys.purge u).leases.get rid = some promised.leaseEnd ∧
    (o.keys.purge u).reservations.get rid = some promised.held ∧
    (o.keys.purge u).tpm.get.isSome ∧ (o.keys.purge u).tpmTs.get.isSome ∧
    o.deducted rid = true

/-- A call that writes gives the keys a time to live that covers every lease
still running, but for that of the reservation it settles. -/
def LongEnough (o : Outlook Rid) (r : Request Rid) : Prop :=
  writes (o.keys.purge r.clock) r = true →
    ∀ rid promised, o.outstanding rid = some promised → r.clock < promised.leaseEnd →
      r.op.settles?.map Prod.fst ≠ some rid →
      promised.leaseEnd ≤ r.clock + 1000 * r.policy.ttlSeconds + 1

/-- The keys hold what a caller was promised and last as long as its lease. -/
structure Lasting (o : Outlook Rid) (rid : Rid) (promised : Promised) : Prop where
  lease : o.keys.leases.get rid = some promised.leaseEnd
  hold : o.keys.reservations.get rid = some promised.held
  leases : ∀ d ∈ o.keys.leases.expireAt, promised.leaseEnd ≤ d + 1
  reservations : ∀ d ∈ o.keys.reservations.expireAt, promised.leaseEnd ≤ d + 1
  tpm : ∃ timed, o.keys.tpm = some timed ∧ promised.leaseEnd ≤ timed.expireAt + 1
  tpmTs : ∃ timed, o.keys.tpmTs = some timed ∧ promised.leaseEnd ≤ timed.expireAt + 1
  deducted : o.deducted rid = true

/-- The invariant: the keys last for every lease still running at `t`. -/
def LastingInv (t : Int) (o : Outlook Rid) : Prop :=
  ∀ rid promised, o.outstanding rid = some promised → t < promised.leaseEnd →
    Lasting o rid promised

section Step

variable {o : Outlook Rid} {r : Request Rid} {rid : Rid} {promised : Promised} {t u : Int}

omit [LinearOrder Rid] in
/-- A string key that lasts as long as a lease is there while the lease runs. -/
theorem purge_of_lasting {α : Type} {key : StringKey α}
    (h : ∃ timed, key = some timed ∧ promised.leaseEnd ≤ timed.expireAt + 1)
    (hlive : u < promised.leaseEnd) : key.purge u = key ∧ key.get.isSome := by
  obtain ⟨timed, rfl, hlasts⟩ := h
  exact ⟨StringKey.purge_some_of_le (by omega), rfl⟩

/-- While a lease runs no key it needs is lost. -/
theorem Lasting.purge (h : Lasting o rid promised) (hlive : u < promised.leaseEnd) :
    (o.keys.purge u).leases = o.keys.leases ∧
      (o.keys.purge u).reservations = o.keys.reservations ∧
      (o.keys.purge u).tpm = o.keys.tpm ∧ (o.keys.purge u).tpmTs = o.keys.tpmTs := by
  refine ⟨Collection.purge_eq_self ?_, Collection.purge_eq_self ?_,
    (purge_of_lasting h.tpm hlive).1, (purge_of_lasting h.tpmTs hlive).1⟩
  · intro d hd
    have := h.leases d hd
    omega
  · intro d hd
    have := h.reservations d hd
    omega

theorem Lasting.carriesOver (h : Lasting o rid promised) (hlive : u < promised.leaseEnd) :
    carriesOver (o.keys.purge u) = true := by
  obtain ⟨-, -, htpm, htpmTs⟩ := h.purge hlive
  unfold Outlook.carriesOver
  rw [htpm, htpmTs, (purge_of_lasting h.tpm hlive).2, (purge_of_lasting h.tpmTs hlive).2]
  rfl

/-- The invariant is all that is asked of the keys at any later instant. -/
theorem LastingInv.outlives (h : LastingInv t o) (htu : t ≤ u) : Outlives u o := by
  intro rid promised hpromised hlive
  have hlasting := h rid promised hpromised (htu.trans_lt hlive)
  obtain ⟨hleases, hreservations, htpm, htpmTs⟩ := hlasting.purge hlive
  refine ⟨?_, ?_, ?_, ?_, hlasting.deducted⟩
  · rw [hleases]
    exact hlasting.lease
  · rw [hreservations]
    exact hlasting.hold
  · rw [htpm]
    exact (purge_of_lasting hlasting.tpm hlive).2
  · rw [htpmTs]
    exact (purge_of_lasting hlasting.tpmTs hlive).2

/-- The members a reserve leaves last as long as the time to live it gives them. -/
theorem lasting_of_reserved {leases : SortedSet Rid} {reservations : Hash Rid Rat} {taken : Rat}
    (hwrite : Reserved (o.keys.purge r.clock) r taken (step (o.keys.purge r.clock) r))
    (hleases : (step (o.keys.purge r.clock) r).leases =
      leases.expire r.clock r.policy.ttlSeconds)
    (hreservations : (step (o.keys.purge r.clock) r).reservations =
      reservations.expire r.clock r.policy.ttlSeconds)
    (hget : leases.get rid = some promised.leaseEnd)
    (hgetHold : reservations.get rid = some promised.held)
    (hlong : promised.leaseEnd ≤ r.clock + 1000 * r.policy.ttlSeconds + 1)
    (hdeducted : (advance o r).deducted rid = true) : Lasting (advance o r) rid promised := by
  refine ⟨?_, ?_, ?_, ?_, ⟨_, hwrite.tpm, hlong⟩, ⟨_, hwrite.tpmTs, hlong⟩, hdeducted⟩
  · show (step (o.keys.purge r.clock) r).leases.get rid = _
    rw [hleases, Collection.get_expire]
    exact hget
  · show (step (o.keys.purge r.clock) r).reservations.get rid = _
    rw [hreservations, Collection.get_expire]
    exact hgetHold
  · intro d hd
    change d ∈ (step (o.keys.purge r.clock) r).leases.expireAt at hd
    rw [hleases, Collection.expireAt_expire_of_get hget] at hd
    cases hd
    exact hlong
  · intro d hd
    change d ∈ (step (o.keys.purge r.clock) r).reservations.expireAt at hd
    rw [hreservations, Collection.expireAt_expire_of_get hgetHold] at hd
    cases hd
    exact hlong

/-- A running lease lasts through a reserve that does not replace it, as long as
the new time to live covers it. -/
theorem Lasting.reserve (h : Lasting o rid promised) (hclock : r.now = r.clock)
    (hlive : r.clock < promised.leaseEnd) {rid' : Rid} {tokens slo : NNRat}
    (hop : r.op = .reserve rid' tokens slo)
    (hkept : rid' ≠ rid ∨ admitted (handle (o.keys.purge r.clock) r).2 = false)
    (hlong : promised.leaseEnd ≤ r.clock + 1000 * r.policy.ttlSeconds + 1) :
    Lasting (advance o r) rid promised := by
  obtain ⟨hleases, hreservations, -, -⟩ := h.purge hlive
  have hlease : (o.keys.purge r.clock).leases.get rid = some promised.leaseEnd := by
    rw [hleases]
    exact h.lease
  -- A lease that still runs is not among those the sweep may take.
  have hunswept : rid ∉ (o.keys.purge r.clock).leases.rangeByScore r.now reclaimBatch :=
    not_mem_rangeByScore_of_lt r.now reclaimBatch _ hlease (by omega)
  have hswept : (sweepOf (o.keys.purge r.clock) r).state.leases.get rid =
      some promised.leaseEnd := by
    rw [sweepOf, reclaim_lease, if_neg hunswept]
    exact hlease
  have hsweptHold : (sweepOf (o.keys.purge r.clock) r).state.reservations.get rid =
      some promised.held := by
    rw [sweepOf, reclaim_hold, if_neg hunswept, hreservations]
    exact h.hold
  have hdeducted : (advance o r).deducted rid = true := by
    have hwrites : writes (o.keys.purge r.clock) r = true := by
      unfold writes
      rw [hop]
    have hstays : sweeps (o.keys.purge r.clock) r rid = false := by simpa [sweeps] using hunswept
    unfold advance
    dsimp only
    rw [if_pos hwrites, hop]
    simp [h.carriesOver hlive, h.deducted, hstays]
  -- Both outcomes keep the members and give the keys the new time to live.
  rcases reserve_cases (s := o.keys.purge r.clock) hop with
    ⟨hadmitted, -, -, hwrite, hnewLeases, hnewReservations⟩ |
    ⟨hshed, hwrite, hnewLeases, hnewReservations⟩
  · rcases hkept with hne | hshed
    · have hgetLease := (Collection.get_put_of_ne hne.symm (r.now + r.policy.leaseMs)
        (sweepOf (o.keys.purge r.clock) r).state.leases).trans hswept
      have hgetHold := (Collection.get_put_of_ne hne.symm (tokens : Rat)
        (sweepOf (o.keys.purge r.clock) r).state.reservations).trans hsweptHold
      exact lasting_of_reserved hwrite hnewLeases hnewReservations hgetLease hgetHold hlong
        hdeducted
    · rw [hshed] at hadmitted
      cases hadmitted
  · exact lasting_of_reserved hwrite hnewLeases hnewReservations hswept hsweptHold hlong hdeducted

/-- The lease of an admitted reserve lasts: a policy's keys outlive its own leases. -/
theorem lasting_admitted (hclock : r.now = r.clock) {tokens slo : NNRat}
    (hop : r.op = .reserve rid tokens slo)
    (hadmitted : admitted (handle (o.keys.purge r.clock) r).2 = true) :
    Lasting (advance o r) rid ⟨r.now + r.policy.leaseMs, tokens⟩ := by
  have hcovers : r.now + r.policy.leaseMs ≤ r.clock + 1000 * r.policy.ttlSeconds + 1 := by
    have hshort := r.policy.leaseMs_le_ttl
    omega
  have hdeducted : (advance o r).deducted rid = true := by
    have hwrites : writes (o.keys.purge r.clock) r = true := by
      unfold writes
      rw [hop]
    unfold advance
    dsimp only
    rw [if_pos hwrites, hop, hadmitted]
    simp
  rcases reserve_cases (s := o.keys.purge r.clock) hop with
    ⟨-, -, -, hwrite, hnewLeases, hnewReservations⟩ | ⟨hshed, -⟩
  · exact lasting_of_reserved hwrite hnewLeases hnewReservations (Collection.get_put _ _ _)
      (Collection.get_put _ _ _) hcovers hdeducted
  · rw [hshed] at hadmitted
    cases hadmitted

theorem outstanding_settles {actual : NNRat} (hop : r.op.settles? = some (rid, actual)) :
    (advance o r).outstanding = Function.update o.outstanding rid none := by
  unfold advance
  rcases Op.settles?_cases hop with ⟨serviceMs, outputTokens, h⟩ | ⟨h, -⟩ <;> rw [h]

/-- A commit of another reservation makes the balance forget nothing it carries over. -/
theorem deducted_settles {rid' : Rid} {actual : NNRat}
    (hop : r.op.settles? = some (rid', actual)) (hne : rid' ≠ rid)
    (hcarries : carriesOver (o.keys.purge r.clock) = true) :
    (advance o r).deducted rid = o.deducted rid := by
  unfold advance
  rcases Op.settles?_cases hop with ⟨serviceMs, outputTokens, h⟩ | ⟨h, -⟩ <;>
    simp [h, hcarries, hne.symm]

/-- What lasted lasts on when a call leaves the keys alone. -/
theorem Lasting.unchanged (h : Lasting o rid promised) (hlive : r.clock < promised.leaseEnd)
    (hstep : step (o.keys.purge r.clock) r = o.keys.purge r.clock)
    (hdeducted : (advance o r).deducted rid = o.deducted rid) :
    Lasting (advance o r) rid promised := by
  obtain ⟨hleases, hreservations, htpm, htpmTs⟩ := h.purge hlive
  have hkeys : (advance o r).keys = o.keys.purge r.clock := hstep
  exact
    { lease := by rw [hkeys, hleases]; exact h.lease
      hold := by rw [hkeys, hreservations]; exact h.hold
      leases := by rw [hkeys, hleases]; exact h.leases
      reservations := by rw [hkeys, hreservations]; exact h.reservations
      tpm := by rw [hkeys, htpm]; exact h.tpm
      tpmTs := by rw [hkeys, htpmTs]; exact h.tpmTs
      deducted := hdeducted.trans h.deducted }

/-- A running lease lasts through the commit of another reservation, as long as
the new time to live covers it. -/
theorem Lasting.settle (h : Lasting o rid promised) (hlive : r.clock < promised.leaseEnd)
    {rid' : Rid} {actual : NNRat} (hop : r.op.settles? = some (rid', actual)) (hne : rid' ≠ rid)
    (hlong : writes (o.keys.purge r.clock) r = true →
      promised.leaseEnd ≤ r.clock + 1000 * r.policy.ttlSeconds + 1) :
    Lasting (advance o r) rid promised := by
  have hdeducted := deducted_settles hop hne (h.carriesOver hlive)
  cases hmarker : (o.keys.purge r.clock).settled rid' with
  | some marker => exact h.unchanged hlive (settle_duplicate hop hmarker).2 hdeducted
  | none =>
      have hcovers : promised.leaseEnd ≤ r.clock + 1000 * r.policy.ttlSeconds + 1 := by
        apply hlong
        rw [writes_of_settles hop, hmarker]
        rfl
      obtain ⟨hleases, hreservations, -, -⟩ := h.purge hlive
      obtain ⟨-, settled, stats, hstep⟩ := settle_cases hop hmarker
      have hkeys : (advance o r).keys = step (o.keys.purge r.clock) r := rfl
      have hlease : (takeHold rid' (o.keys.purge r.clock)).leases.get rid =
          some promised.leaseEnd := by
        rw [takeHold_lease_of_ne hne.symm, hleases]
        exact h.lease
      have hhold : (takeHold rid' (o.keys.purge r.clock)).reservations.get rid =
          some promised.held := by
        rw [takeHold_hold, if_neg hne.symm, hreservations]
        exact h.hold
      refine ⟨?_, ?_, ?_, ?_, ?_, ?_, hdeducted.trans h.deducted⟩
      · rw [hkeys, hstep]
        exact hlease
      · rw [hkeys, hstep]
        exact hhold
      · rw [hkeys, hstep]
        dsimp only
        rw [takeHold_leases_expireAt hlease, hleases]
        exact h.leases
      · rw [hkeys, hstep]
        dsimp only
        rw [takeHold_reservations_expireAt hhold, hreservations]
        exact h.reservations
      · rw [hkeys, hstep]
        exact ⟨_, rfl, hcovers⟩
      · rw [hkeys, hstep]
        exact ⟨_, rfl, hcovers⟩

/-- A call that leaves the keys long enough keeps the invariant. -/
theorem LastingInv.advance (h : LastingInv t o) (hclock : r.now = r.clock) (hle : t ≤ r.clock)
    (hlong : LongEnough o r) : LastingInv r.clock (advance o r) := by
  intro rid promised hpromised hlive
  rcases op_cases r.op with ⟨rid', tokens, slo, hop⟩ | ⟨rid', actual, hop⟩ | hop
  · have hwrites : writes (o.keys.purge r.clock) r = true := by
      unfold writes
      rw [hop]
    have hcovers (hold : o.outstanding rid = some promised) :
        promised.leaseEnd ≤ r.clock + 1000 * r.policy.ttlSeconds + 1 :=
      hlong hwrites rid promised hold hlive (by simp [hop, Op.settles?])
    cases hadmitted : admitted (handle (o.keys.purge r.clock) r).2 with
    | false =>
        have hsame : (Outlook.advance o r).outstanding = o.outstanding := by
          unfold Outlook.advance
          rw [hop]
          simp [hadmitted]
        rw [hsame] at hpromised
        exact (h rid promised hpromised (hle.trans_lt hlive)).reserve hclock hlive hop
          (Or.inr hadmitted) (hcovers hpromised)
    | true =>
        have hnew : (Outlook.advance o r).outstanding = Function.update o.outstanding rid'
            (some ⟨r.now + r.policy.leaseMs, tokens⟩) := by
          unfold Outlook.advance
          rw [hop]
          simp [hadmitted]
        rw [hnew] at hpromised
        -- The promise is the one just made, or an older one on another id.
        by_cases hrid : rid = rid'
        · subst hrid
          rw [Function.update_self] at hpromised
          cases hpromised
          exact lasting_admitted hclock hop hadmitted
        · rw [Function.update_of_ne hrid] at hpromised
          exact (h rid promised hpromised (hle.trans_lt hlive)).reserve hclock hlive hop
            (Or.inl (Ne.symm hrid)) (hcovers hpromised)
  · -- The settled id is promised nothing any more; the others need their keys kept.
    rw [outstanding_settles hop] at hpromised
    by_cases hrid : rid = rid'
    · rw [hrid, Function.update_self] at hpromised
      cases hpromised
    · rw [Function.update_of_ne hrid] at hpromised
      refine (h rid promised hpromised (hle.trans_lt hlive)).settle hlive hop (Ne.symm hrid) ?_
      intro hwrites
      refine hlong hwrites rid promised hpromised hlive ?_
      rw [hop]
      simpa using Ne.symm hrid
  · have hsame : (Outlook.advance o r).outstanding = o.outstanding := by
      unfold Outlook.advance
      rw [hop]
    have hdeducted : (Outlook.advance o r).deducted = o.deducted := by
      unfold Outlook.advance
      simp [writes, hop]
    rw [hsame] at hpromised
    exact (h rid promised hpromised (hle.trans_lt hlive)).unchanged hlive (step_snapshot hop)
      (by rw [hdeducted])

end Step

/-! ## Whole runs -/

section Run

variable {o : Outlook Rid} {calls : List (Request Rid)} {rid : Rid} {t : Int}

theorem lastingInv_start (t : Int) : LastingInv t (start : Outlook Rid) := by
  intro rid promised hpromised
  cases hpromised

/-- Calls that all leave the keys long enough keep the invariant. -/
theorem lastingInv_run (h : LastingInv t o) (hclock : ∀ r ∈ calls, r.now = r.clock)
    (htime : Chronological Request.clock t calls) (hlong : Along advance LongEnough o calls) :
    LastingInv (lastTime Request.clock t calls) (run advance o calls) := by
  induction calls generalizing o t with
  | nil => exact h
  | cons r rs ih =>
      obtain ⟨hnow, hnows⟩ := List.forall_mem_cons.mp hclock
      exact ih (h.advance hnow htime.1 hlong.1) hnows htime.2 hlong.2

/-- Only a call that names an id can have promised anything on it. -/
theorem named_of_outstanding (calls : List (Request Rid)) {promised : Promised}
    (h : (run advance o calls).outstanding rid = some promised) :
    o.outstanding rid = some promised ∨ ∃ r ∈ calls, r.op.rid? = some rid := by
  induction calls generalizing o with
  | nil => exact Or.inl h
  | cons r rs ih =>
      by_cases hnames : r.op.rid? = some rid
      · exact Or.inr ⟨r, List.mem_cons_self, hnames⟩
      · rcases ih h with hstep | ⟨c, hc, hcnames⟩
        · left
          have hsame : (advance o r).outstanding rid = o.outstanding rid := by
            unfold advance
            cases hop : r.op with
            | reserve rid' tokens slo =>
                have hne : rid ≠ rid' := by
                  rintro rfl
                  exact hnames (by rw [hop]; rfl)
                dsimp only
                split
                · exact Function.update_of_ne hne _ _
                · rfl
            | commit rid' actual serviceMs outputTokens =>
                have hne : rid ≠ rid' := by
                  rintro rfl
                  exact hnames (by rw [hop]; rfl)
                exact Function.update_of_ne hne _ _
            | release rid' =>
                have hne : rid ≠ rid' := by
                  rintro rfl
                  exact hnames (by rw [hop]; rfl)
                exact Function.update_of_ne hne _ _
            | snapshot => rfl
          rw [← hsame]
          exact hstep
        · exact Or.inr ⟨c, List.mem_cons_of_mem r hc, hcnames⟩

/-- A call that does not leave the keys long enough loses the balance while the
lease it had to cover is still running. -/
theorem not_outlives_of_short {r : Request Rid}
    (hfresh : ∀ rid tokens slo, r.op = .reserve rid tokens slo → o.outstanding rid = none)
    (hshort : ¬ LongEnough o r) : ∃ u, r.clock ≤ u ∧ ¬ Outlives u (advance o r) := by
  unfold LongEnough at hshort
  push Not at hshort
  obtain ⟨hwrites, rid, promised, hpromised, -, hother, hcovers⟩ := hshort
  -- the first instant at which the balance this call writes is gone
  refine ⟨r.clock + 1000 * r.policy.ttlSeconds + 1, by omega, ?_⟩
  intro houtlives
  have hstill : (advance o r).outstanding rid = some promised := by
    rcases op_cases r.op with ⟨rid', tokens, slo, hop⟩ | ⟨rid', actual, hop⟩ | hop
    · have hne : rid ≠ rid' := by
        rintro rfl
        rw [hfresh rid tokens slo hop] at hpromised
        cases hpromised
      unfold advance
      rw [hop]
      dsimp only
      split
      · rw [Function.update_of_ne hne]
        exact hpromised
      · exact hpromised
    · have hne : rid ≠ rid' := by
        rintro rfl
        exact hother (by rw [hop]; rfl)
      rw [outstanding_settles hop, Function.update_of_ne hne]
      exact hpromised
    · simp [writes, hop] at hwrites
  obtain ⟨-, -, htpm, -⟩ := houtlives rid promised hstill hcovers
  obtain ⟨b, hwritten, -⟩ := step_of_writes hwrites
  have hgone : ((advance o r).keys.purge (r.clock + 1000 * r.policy.ttlSeconds + 1)).tpm =
      none := by
    show StringKey.purge _ (step (o.keys.purge r.clock) r).tpm = none
    rw [hwritten]
    exact StringKey.purge_some_of_lt (by dsimp only; omega)
  rw [hgone] at htpm
  cases htpm

end Run

end Outlook

open Outlook

section Leases

variable {Rid : Type} [LinearOrder Rid]

/-- **Keys and leases.**  On one clock, a run bears every promise out at every
instant as long as each of its writing calls gives the keys a time to live that
covers the leases still running; and where the reserves draw fresh ids, only then. -/
theorem keys_outlive_leases (t0 : Int) (calls : List (Request Rid))
    (hclock : ∀ r ∈ calls, r.now = r.clock) (htime : Chronological Request.clock t0 calls) :
    (Along advance LongEnough start calls →
      ∀ before after, calls = before ++ after →
        ∀ u, lastTime Request.clock t0 before ≤ u → Outlives u (run advance start before)) ∧
    (FreshIds calls →
      (∀ before after, calls = before ++ after →
        ∀ u, lastTime Request.clock t0 before ≤ u → Outlives u (run advance start before)) →
      Along advance LongEnough start calls) := by
  refine ⟨?_, ?_⟩
  · rintro hlong before after rfl u hu
    have hinv := lastingInv_run (lastingInv_start t0)
      (fun r hr => hclock r (List.mem_append_left _ hr))
      ((chronological_append _ _ _ _).mp htime).1 ((along_append _ _ _ _ _).mp hlong).1
    exact hinv.outlives hu
  · intro hfresh houtlives
    apply along_of_splits
    rintro before r after rfl
    by_contra hshort
    have hnone : ∀ rid tokens slo, r.op = .reserve rid tokens slo →
        (run advance start before).outstanding rid = none := by
      intro rid tokens slo hop
      by_contra hsome
      obtain ⟨promised, hpromised⟩ := Option.ne_none_iff_exists'.mp hsome
      rcases named_of_outstanding before hpromised with hstart | ⟨c, hc, hnames⟩
      · cases hstart
      · exact hfresh.named_before hop c hc hnames
    obtain ⟨u, hu, hlost⟩ := not_outlives_of_short hnone hshort
    apply hlost
    have hlast := houtlives (before ++ [r]) after (by simp) u (by simpa using hu)
    simpa using hlast

/-- Limits with a lease of the given length. -/
def withLease (seconds : Nat) (hpos : 0 < seconds) : Limits :=
  { defaultLimits with leaseSeconds := seconds, leaseSeconds_pos := hpos }

/-- Under one policy nothing is lost: the two reservations of a minute. -/
theorem keys_outlive_leases_one_policy :
    Outlives 60000 (run advance start
      [callAt defaultLimits 0 (.reserve 1 10 0), callAt defaultLimits 1000 (.reserve 2 10 0)]) := by
  refine (keys_outlive_leases 0
    [callAt defaultLimits 0 (.reserve (1 : Nat) 10 0), callAt defaultLimits 1000 (.reserve 2 10 0)]
    ?_ ?_).1 ?_ _ [] (List.append_nil _).symm 60000 (by decide)
  · simp [callAt]
  · exact ⟨by decide, by decide, trivial⟩
  · refine ⟨?_, ?_, trivial⟩
    · rintro - rid promised hpromised - -
      cases hpromised
    · rintro - rid promised hpromised - -
      rcases named_of_outstanding [callAt defaultLimits 0 (.reserve 1 10 0)] hpromised with
        hstart | ⟨r, hr, hnames⟩
      · cases hstart
      · obtain rfl := List.mem_singleton.mp hr
        cases hnames
        have hone : (advance start (callAt defaultLimits 0 (.reserve 1 10 0))).outstanding 1 =
            some ⟨120000, 10⟩ := by decide +kernel
        obtain rfl := Option.some.inj (hone.symm.trans hpromised)
        decide

/-- An hour's lease, and one call under a policy of one-second leases: two minutes
later every key of the pair is gone. -/
theorem short_lease_drops_long_one :
    ¬ ∀ (t0 : Int) (calls : List (Request Nat)), (∀ r ∈ calls, r.now = r.clock) →
      Chronological Request.clock t0 calls →
      ∀ u, lastTime Request.clock t0 calls ≤ u → Outlives u (run advance start calls) := by
  intro h
  have houtlives := h 0
    [callAt (withLease 3600 (by decide)) 0 (.reserve 1 10 0),
      callAt (withLease 1 (by decide)) 1000 (.reserve 2 10 0)]
    (by simp [callAt]) ⟨by decide, by decide, trivial⟩ 121001 (by decide)
  have hpromised : (run advance start
      [callAt (withLease 3600 (by decide)) 0 (.reserve 1 10 0),
        callAt (withLease 1 (by decide)) 1000 (.reserve 2 10 0)]).outstanding 1 =
      some ⟨3600000, 10⟩ := by decide +kernel
  have hlost := (houtlives 1 _ hpromised (by decide)).2.2.1
  revert hlost
  decide +kernel

end Leases

end RateLimiter.Admission
