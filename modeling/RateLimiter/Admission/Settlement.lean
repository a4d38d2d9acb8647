import RateLimiter.Admission.Calls

/-!
# A commit settles in full or not at all

`COMMIT_SCRIPT` writes as it goes: it takes the hold, then the balance, then the
settled marker, then the estimators.  An argument that turns out not to be a
number, or a marker the server refuses to store, stops it there, and what it has
written by then stays.  This module says for which arguments no such stop can
come between two writes, and what that means to a caller that retries.
-/

namespace RateLimiter.Admission

open RateLimiter.Redis RateLimiter.Javascript RateLimiter.Foundations

/-- `IDEMPOTENCY_TTL_SECONDS`, from the value `COMMIT_IDEMPOTENCY_TTL` has in the
environment. -/
def idempotencyTtlSeconds (env : Option JsString) : JsNumber :=
  match env with
  | some text => number text
  | none => .finite 300

variable {Rid : Type} [LinearOrder Rid]

/-! ## Reachable keys -/

/-- The keys any sequence of calls can leave, whatever their arguments, on a
server where keys expire. -/
inductive Reachable : PairState Rid → Prop
  | empty : Reachable .empty
  | expire (clock : Int) {s : PairState Rid} : Reachable s → Reachable (s.purge clock)
  | admitted (clock : Int) (a : AdmitArgs Rid) {s : PairState Rid} :
      Reachable s → Reachable (admitScript clock a s).1
  | commit (clock : Int) (a : CommitArgs Rid) {s : PairState Rid} :
      Reachable s → Reachable (commitScript clock a s).1

/-- Leases and holds are of the same reservations. -/
abbrev Matched (s : PairState Rid) : Prop := Collection.SameKeys s.leases s.reservations

theorem Matched.reclaimOne {sweep : Sweep Rid} (h : Matched sweep.state) (rid : Rid) :
    Matched (reclaimOne sweep rid).state := by
  unfold Admission.reclaimOne
  dsimp only
  split
  next held hheld => exact Collection.SameKeys.del h rid
  next hnone =>
    have hlease := (h.members rid).mpr hnone
    refine ⟨?_, ?_⟩
    · intro k
      by_cases hk : k = rid
      · simp [hk, hnone]
      · rw [Collection.get_del_of_ne hk]
        exact h.members k
    · rw [Collection.expireAt_del_of_get_eq_none hlease]
      exact h.expireAt

theorem Matched.reclaim {s : PairState Rid} (h : Matched s) (now : Int) (batch : Nat) :
    Matched (reclaim now batch s).state := by
  unfold Admission.reclaim
  generalize s.leases.rangeByScore now batch = ids
  have hfold : ∀ sweep : Sweep Rid, Matched sweep.state →
      Matched (ids.foldl Admission.reclaimOne sweep).state := by
    induction ids with
    | nil => exact fun sweep hsweep => hsweep
    | cons id ids ih => exact fun sweep hsweep => ih _ (hsweep.reclaimOne id)
  exact hfold ⟨s, 0, 0⟩ h

theorem Matched.takeHold {s : PairState Rid} (h : Matched s) (rid : Rid) :
    Matched (takeHold rid s) := by
  unfold Admission.takeHold
  split
  · exact Collection.SameKeys.del h rid
  · exact h

/-- In every reachable state leases and holds are of the same reservations. -/
theorem Reachable.matched {s : PairState Rid} (h : Reachable s) : Matched s := by
  induction h with
  | empty => exact Collection.SameKeys.absent
  | expire clock hs ih => exact Collection.SameKeys.purge ih clock
  | @admitted clock a s hs ih =>
      have hswept := ih.reclaim a.now a.reclaimBatch
      cases hreserve : a.reserve with
      | none =>
          have hstop : (admitScript clock a s).1 = (reclaim a.now a.reclaimBatch s).state := by
            unfold admitScript
            simp only [hreserve]
          rw [hstop]
          exact hswept
      | some reserve =>
          rcases admitScript_cases clock a s hreserve with
            ⟨reply, hscript, -⟩ | ⟨reply, reason, retryAfterMs, hscript, -⟩
          · rw [hscript]
            exact Collection.SameKeys.expire
              (Collection.SameKeys.put hswept a.rid (a.now + a.leaseMs) reserve) clock a.ttl
          · rw [hscript]
            exact Collection.SameKeys.expire hswept clock a.ttl
  | @commit clock a s hs ih =>
      cases hmarker : s.settled a.rid with
      | some marker =>
          rw [commitScript_duplicate clock a s hmarker]
          exact ih
      | none =>
          have htaken := ih.takeHold a.rid
          cases hactual : a.actual with
          | none =>
              rw [commitScript_nil clock a s hmarker hactual]
              exact htaken
          | some actual =>
              obtain ⟨settled, stats, hbudget⟩ := commitScript_budget clock a s hmarker hactual
              rw [hbudget]
              exact htaken

/-! ## All or nothing -/

/-- Everything a settlement does has been done. -/
structure WholeSettlement (clock : Int) (a : CommitArgs Rid) (s s' : PairState Rid) : Prop where
  hold : s'.reservations.get a.rid = none
  lease : s'.leases.get a.rid = none
  balance : ∃ actual, a.actual = some actual ∧
    s'.tpm = .setEx clock (settledBalance a s actual) a.ttl
  timestamp : s'.tpmTs = .setEx clock a.now a.ttl
  marker : ∃ actual idem, a.actual = some actual ∧ acceptedTtl clock a.idemTtl = some idem ∧
    s'.settled a.rid = .setEx clock ((s.reservations.get a.rid).getD 0 - actual) idem
  estimators : ∃ serviceMs outputTokens, a.serviceMs = some serviceMs ∧
    a.outputTokens = some outputTokens ∧
    s'.stats = (observeOutput a.alpha outputTokens
      (observeService a.alpha serviceMs s.stats)).expire clock a.ttl

/-- One execution settles the reservation in full, recognises a replay, or raises
an error; in the last two cases it changes no key. -/
def AllOrNothing (clock : Int) (a : CommitArgs Rid) (s : PairState Rid) : Prop :=
  match (commitScript clock a s).2 with
  | .ok reply =>
      if reply.status = .duplicateIgnored then (commitScript clock a s).1 = s
      else WholeSettlement clock a s (commitScript clock a s).1
  | .error _ => (commitScript clock a s).1 = s

/-- The balance a commit is about to write is the one that is there. -/
def Rewrites (clock : Int) (a : CommitArgs Rid) (s : PairState Rid) : Prop :=
  ∃ b actual, a.actual = some actual ∧ acceptedTtl clock a.idemTtl = none ∧
    s.tpm = some ⟨b, clock + 1000 * a.ttl⟩ ∧ s.tpmTs = some ⟨a.now, clock + 1000 * a.ttl⟩ ∧
    b ≤ a.tpmLimit ∧ (actual = 0 ∨ b = a.tpmLimit ∧ actual ≤ 0)

/-- Nothing can stop the commit between two writes: it is a replay, or every
argument it will need is there, or it stops before there is anything to undo. -/
def NoStopBetweenWrites (clock : Int) (a : CommitArgs Rid) (s : PairState Rid) : Prop :=
  s.settled a.rid ≠ none ∨
  (a.actual.isSome ∧ (acceptedTtl clock a.idemTtl).isSome ∧ a.serviceMs.isSome ∧
    a.outputTokens.isSome) ∨
  (s.reservations.get a.rid = none ∧ (a.actual = none ∨ Rewrites clock a s))

section Commit

variable {clock : Int} {a : CommitArgs Rid} {s : PairState Rid}

theorem allOrNothing_of_error {e : ScriptError} (h : (commitScript clock a s).2 = .error e) :
    AllOrNothing clock a s ↔ (commitScript clock a s).1 = s := by
  unfold AllOrNothing
  rw [h]

/-- A commit with all its arguments settles in full. -/
theorem wholeSettlement_of_accepted (hmatched : Matched s) {actual serviceMs outputTokens : Rat}
    {idem : Nat} (hmarker : s.settled a.rid = none) (hactual : a.actual = some actual)
    (hidem : acceptedTtl clock a.idemTtl = some idem) (hservice : a.serviceMs = some serviceMs)
    (houtput : a.outputTokens = some outputTokens) :
    WholeSettlement clock a s (commitScript clock a s).1 := by
  have hhold : (takeHold a.rid s).reservations.get a.rid = none :=
    (takeHold_hold a.rid a.rid s).trans (if_pos rfl)
  rw [commitScript_settles clock a s hmarker hactual hidem hservice houtput]
  exact
    { hold := hhold
      lease := ((hmatched.takeHold a.rid).members a.rid).mpr hhold
      balance := ⟨actual, hactual, rfl⟩
      timestamp := rfl
      marker := ⟨actual, idem, hactual, hidem, Function.update_self _ _ _⟩
      estimators := ⟨serviceMs, outputTokens, hservice, houtput, rfl⟩ }

omit [LinearOrder Rid] in
theorem PairState.rewrite_same {b : StringKey Rat} {ts : StringKey Int} (htpm : s.tpm = b)
    (htpmTs : s.tpmTs = ts) : { s with tpm := b, tpmTs := ts } = s := by
  subst htpm htpmTs
  rfl

/-- Writing the balance the same commit would find again is no change. -/
theorem settledBalance_eq_iff {b actual : Rat} {deadline : Int}
    (htpm : s.tpm = some ⟨b, deadline⟩) (htpmTs : s.tpmTs = some ⟨a.now, deadline⟩)
    (hfree : s.reservations.get a.rid = none) :
    settledBalance a s actual = b ↔
      b ≤ a.tpmLimit ∧ (actual = 0 ∨ b = a.tpmLimit ∧ actual ≤ 0) := by
  have hread : currentBalance a s = min b a.tpmLimit := by
    unfold currentBalance
    rw [htpm, htpmTs]
    simp [refill]
  unfold settledBalance
  rw [hread, hfree]
  simp only [Option.getD_none, zero_sub]
  constructor
  · intro h
    have hle : b ≤ a.tpmLimit := h ▸ min_le_right _ _
    rw [min_eq_left hle] at h
    refine ⟨hle, ?_⟩
    rcases min_choice (b + -actual) a.tpmLimit with hunclamped | hclamped
    · rw [hunclamped] at h
      exact Or.inl (by linarith)
    · rw [hclamped] at h
      have hover := min_eq_right_iff.mp hclamped
      exact Or.inr ⟨h.symm, by linarith⟩
  · rintro ⟨hle, rfl | ⟨rfl, hactual⟩⟩
    · simp [hle]
    · rw [min_self]
      exact min_eq_right (by linarith)

/-- A commit whose marker is refused has changed no key exactly when it had no
hold to take and rewrote the balance that was there. -/
theorem refused_unchanged_iff {actual : Rat} (hmarker : s.settled a.rid = none)
    (hactual : a.actual = some actual) (hidem : acceptedTtl clock a.idemTtl = none) :
    (commitScript clock a s).1 = s ↔
      s.reservations.get a.rid = none ∧ Rewrites clock a s := by
  rw [commitScript_refused clock a s hmarker hactual hidem]
  constructor
  · intro hsame
    have hfree : s.reservations.get a.rid = none := by
      have hreservations := congrArg PairState.reservations hsame
      change (takeHold a.rid s).reservations = s.reservations at hreservations
      rw [← hreservations]
      exact (takeHold_hold a.rid a.rid s).trans (if_pos rfl)
    have htpm : s.tpm = some ⟨settledBalance a s actual, clock + 1000 * a.ttl⟩ :=
      (congrArg PairState.tpm hsame).symm
    have htpmTs : s.tpmTs = some ⟨a.now, clock + 1000 * a.ttl⟩ :=
      (congrArg PairState.tpmTs hsame).symm
    exact ⟨hfree, _, actual, hactual, hidem, htpm, htpmTs,
      (settledBalance_eq_iff htpm htpmTs hfree).mp rfl⟩
  · rintro ⟨hfree, b, actual', hactual', -, htpm, htpmTs, hroom⟩
    obtain rfl : actual' = actual := Option.some.inj (hactual'.symm.trans hactual)
    have hbalance := (settledBalance_eq_iff htpm htpmTs hfree).mpr hroom
    rw [takeHold_of_get_eq_none hfree, hbalance]
    exact PairState.rewrite_same htpm htpmTs

/-- Where a commit ends, by what it finds. -/
inductive Ends (clock : Int) (a : CommitArgs Rid) (s : PairState Rid) : Prop
  | replay {marker : Timed Rat} (hmarker : s.settled a.rid = some marker)
  | noAmount (hmarker : s.settled a.rid = none) (hactual : a.actual = none)
  | refused {actual : Rat} (hmarker : s.settled a.rid = none) (hactual : a.actual = some actual)
      (hidem : acceptedTtl clock a.idemTtl = none)
  | uncalibrated {actual : Rat} {idem : Nat} (hmarker : s.settled a.rid = none)
      (hactual : a.actual = some actual) (hidem : acceptedTtl clock a.idemTtl = some idem)
      (hobserved : a.serviceMs = none ∨ a.outputTokens = none)
  | settles {actual serviceMs outputTokens : Rat} {idem : Nat}
      (hmarker : s.settled a.rid = none) (hactual : a.actual = some actual)
      (hidem : acceptedTtl clock a.idemTtl = some idem) (hservice : a.serviceMs = some serviceMs)
      (houtput : a.outputTokens = some outputTokens)

omit [LinearOrder Rid] in
theorem ends (clock : Int) (a : CommitArgs Rid) (s : PairState Rid) : Ends clock a s := by
  cases hmarker : s.settled a.rid with
  | some marker => exact .replay hmarker
  | none =>
      cases hactual : a.actual with
      | none => exact .noAmount hmarker hactual
      | some actual =>
          cases hidem : acceptedTtl clock a.idemTtl with
          | none => exact .refused hmarker hactual hidem
          | some idem =>
              cases hservice : a.serviceMs with
              | none => exact .uncalibrated hmarker hactual hidem (Or.inl hservice)
              | some serviceMs =>
                  cases houtput : a.outputTokens with
                  | none => exact .uncalibrated hmarker hactual hidem (Or.inr houtput)
                  | some outputTokens =>
                      exact .settles hmarker hactual hidem hservice houtput

/-- A commit that stops after its marker has changed the keys. -/
theorem not_allOrNothing_of_uncalibrated {actual : Rat} {idem : Nat}
    (hmarker : s.settled a.rid = none) (hactual : a.actual = some actual)
    (hidem : acceptedTtl clock a.idemTtl = some idem)
    (hobserved : a.serviceMs = none ∨ a.outputTokens = none) : ¬ AllOrNothing clock a s := by
  obtain ⟨herror, hmark⟩ := commitScript_uncalibrated clock a s hmarker hactual hidem hobserved
  rw [allOrNothing_of_error herror]
  intro hsame
  rw [hsame, hmarker] at hmark
  cases hmark

/-- A commit with all its arguments is a settlement. -/
theorem allOrNothing_of_settles (hmatched : Matched s) {actual serviceMs outputTokens : Rat}
    {idem : Nat} (hmarker : s.settled a.rid = none) (hactual : a.actual = some actual)
    (hidem : acceptedTtl clock a.idemTtl = some idem) (hservice : a.serviceMs = some serviceMs)
    (houtput : a.outputTokens = some outputTokens) : AllOrNothing clock a s := by
  have hwhole := wholeSettlement_of_accepted hmatched hmarker hactual hidem hservice houtput
  unfold AllOrNothing
  rw [commitScript_settles clock a s hmarker hactual hidem hservice houtput] at hwhole ⊢
  dsimp only
  rw [if_neg]
  · exact hwhole
  · split <;> simp

/-- The condition is exact. -/
theorem allOrNothing_iff (hmatched : Matched s) :
    AllOrNothing clock a s ↔ NoStopBetweenWrites clock a s := by
  cases ends clock a s with
  | replay hmarker =>
      have hreplay : AllOrNothing clock a s := by
        unfold AllOrNothing
        rw [commitScript_duplicate clock a s hmarker]
        rfl
      exact iff_of_true hreplay (Or.inl (by simp [hmarker]))
  | noAmount hmarker hactual =>
      rw [allOrNothing_of_error (by rw [commitScript_nil clock a s hmarker hactual]),
        commitScript_nil clock a s hmarker hactual]
      have hiff : takeHold a.rid s = s ↔ s.reservations.get a.rid = none := by
        refine ⟨fun hsame => ?_, takeHold_of_get_eq_none⟩
        have hhold := takeHold_hold a.rid a.rid s
        rw [hsame, if_pos rfl] at hhold
        exact hhold
      simp only [hiff, NoStopBetweenWrites, hmarker, hactual]
      simp
  | refused hmarker hactual hidem =>
      rw [allOrNothing_of_error (by rw [commitScript_refused clock a s hmarker hactual hidem]),
        refused_unchanged_iff hmarker hactual hidem]
      simp [NoStopBetweenWrites, hmarker, hactual, hidem]
  | uncalibrated hmarker hactual hidem hobserved =>
      refine iff_of_false
        (not_allOrNothing_of_uncalibrated hmarker hactual hidem hobserved) ?_
      -- It is no replay, an argument is missing, and the marker was not refused.
      rintro (hreplay | ⟨-, -, hservice, houtput⟩ | ⟨-, hnone | ⟨b, actual', -, hrefused, -⟩⟩)
      · exact hreplay hmarker
      · rcases hobserved with hnone | hnone
        · rw [hnone] at hservice
          cases hservice
        · rw [hnone] at houtput
          cases houtput
      · rw [hactual] at hnone
        cases hnone
      · rw [hidem] at hrefused
        cases hrefused
  | settles hmarker hactual hidem hservice houtput =>
      refine iff_of_true
        (allOrNothing_of_settles hmatched hmarker hactual hidem hservice houtput)
        (Or.inr (Or.inl ?_))
      simp [hactual, hidem, hservice, houtput]

/-- What a commit that failed under the condition leaves to its retry: everything. -/
theorem failed_unchanged (hmatched : Matched s) (hwhole : NoStopBetweenWrites clock a s)
    {e : ScriptError} (hfailed : (commitScript clock a s).2 = .error e) :
    (commitScript clock a s).1 = s :=
  (allOrNothing_of_error hfailed).mp ((allOrNothing_iff hmatched).mpr hwhole)

/-- A commit that answers without being a replay has settled in full. -/
theorem wholeSettlement_of_ok (hmatched : Matched s) {reply : CommitReply}
    (hreply : (commitScript clock a s).2 = .ok reply)
    (hsettled : reply.status ≠ .duplicateIgnored) :
    WholeSettlement clock a s (commitScript clock a s).1 := by
  cases ends clock a s with
  | replay hmarker =>
      rw [commitScript_duplicate clock a s hmarker] at hreply
      cases hreply
      exact absurd rfl hsettled
  | noAmount hmarker hactual =>
      rw [commitScript_nil clock a s hmarker hactual] at hreply
      cases hreply
  | refused hmarker hactual hidem =>
      rw [commitScript_refused clock a s hmarker hactual hidem] at hreply
      cases hreply
  | uncalibrated hmarker hactual hidem hobserved =>
      rw [(commitScript_uncalibrated clock a s hmarker hactual hidem hobserved).1] at hreply
      cases hreply
  | settles hmarker hactual hidem hservice houtput =>
      exact wholeSettlement_of_accepted hmatched hmarker hactual hidem hservice houtput

end Commit

/-! ## Retries -/

/-- One attempt at a commit: the server's clock and the arguments it arrives with. -/
abbrev Attempt (Rid : Type) := Int × CommitArgs Rid

/-- The keys an attempt leaves. -/
def attempt (s : PairState Rid) (x : Attempt Rid) : PairState Rid := (commitScript x.1 x.2 s).1

/-- Attempts that fail under the condition leave the keys to the last one as the
first one found them. -/
theorem failed_attempts_unchanged {s : PairState Rid} (hmatched : Matched s)
    (attempts : List (Attempt Rid))
    (hwhole : ∀ x ∈ attempts, NoStopBetweenWrites x.1 x.2 s)
    (hfailed : ∀ x ∈ attempts, ∃ e, (commitScript x.1 x.2 s).2 = .error e) :
    run attempt s attempts = s := by
  induction attempts with
  | nil => rfl
  | cons x xs ih =>
      obtain ⟨hx, hxs⟩ := List.forall_mem_cons.mp hwhole
      obtain ⟨⟨e, he⟩, hes⟩ := List.forall_mem_cons.mp hfailed
      have hsame : attempt s x = s := failed_unchanged hmatched hx he
      rw [run_cons, hsame]
      exact ih hxs hes

/-- The keys after the reservation of 500 tokens. -/
def reservedKeys : PairState Nat :=
  (admitScript 0 (admitArgs defaultLimits 0 7 (some 500) 0) .empty).1

end RateLimiter.Admission
