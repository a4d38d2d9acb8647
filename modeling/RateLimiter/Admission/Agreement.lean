import RateLimiter.Admission.Calls

/-!
# One budget, read by three scripts

Every script refills the balances for itself: the admission and the snapshot with
rates they are handed, the commit with a rate it derives from the limit.  Where no
lease has expired the three report the same token balance, the same request balance
and the same number of calls in flight, and an admission decides by them.
-/

namespace RateLimiter.Admission

open RateLimiter.Redis RateLimiter.Javascript RateLimiter.Foundations

variable {Rid : Type} [LinearOrder Rid]

/-- Every lease still runs at `now`. -/
def NoneExpired (now : Int) (s : PairState Rid) : Prop :=
  ∀ rid deadline, s.leases.get rid = some deadline → now < deadline

theorem noneExpired_of_entries {now : Int} {s : PairState Rid}
    (h : ∀ entry ∈ s.leases.members.entries, now < entry.2) : NoneExpired now s :=
  fun _ _ hlease => h _ (List.of_mem_dlookup hlease)

/-- The view of the pair that `snapshot` gives. -/
def viewAt (p : Limits) (now : Int) (s : PairState Rid) : SnapshotReply :=
  snapshotScript (snapshotArgs p now) s

section Readings

variable {p : Limits} {now : Int} {s : PairState Rid}

/-- A replayed commit reports the balance and the leases a snapshot shows. -/
theorem replayed_commit_agrees {clock : Int} {rid : Rid}
    {actual serviceMs outputTokens : Option Rat} {idemTtl : JsNumber}
    (hmarker : (s.settled rid).get.isSome) :
    ∃ reply, (commitScript clock
        (commitArgs p now rid actual serviceMs outputTokens idemTtl) s).2 = .ok reply ∧
      reply.status = .duplicateIgnored ∧
      reply.tokensRemaining = (viewAt p now s).tokensRemaining ∧
      reply.inflight = (viewAt p now s).inflight := by
  obtain ⟨marker, hmarker⟩ : ∃ marker, s.settled rid = some marker :=
    Option.isSome_iff_exists.mp (by simpa [StringKey.get] using hmarker)
  have hscript := commitScript_duplicate clock
    (commitArgs p now rid actual serviceMs outputTokens idemTtl) s hmarker
  rw [hscript]
  exact ⟨_, rfl, rfl, rfl, rfl⟩

/-- Without expired leases an admission decides on the balance that is there. -/
theorem tpmBalance_of_noneExpired (hlive : NoneExpired now s) (rid : Rid)
    (size : Option Rat) (slo : Rat) :
    tpmBalance (admitArgs p now rid size slo) s = balanceAt p now s := by
  have hsweep := reclaim_of_live hlive reclaimBatch
  show min (balanceAt p now s + (reclaim now reclaimBatch s).tokens) (p.tokensPerMinute : Rat) = _
  rw [hsweep, add_zero]
  exact min_eq_left (balanceAt_le_limit p now s)

/-- What an admission reports where no lease has expired, in terms of the view. -/
theorem reported_of_noneExpired (hlive : NoneExpired now s) {rid : Rid} {size slo : Rat}
    {reply : AdmitReply}
    (h : AdmitReported (admitArgs p now rid (some size) slo) s size reply) :
    reply.inflight =
        (viewAt p now s).inflight + (if reply.decision = .admitted then 1 else 0) ∧
      reply.requestsRemaining =
        (viewAt p now s).requestsRemaining - (if reply.decision = .admitted then 1 else 0) := by
  have hsweep := reclaim_of_live hlive reclaimBatch
  refine ⟨?_, ?_⟩
  · rw [h.inflight]
    show (reclaim now reclaimBatch s).state.leases.card + _ = _
    rw [hsweep]
    rfl
  · rw [h.requestsRemaining]
    split
    · exact Int.floor_sub_one _
    · exact (sub_zero _).symm

/-- A request of whole tokens is covered by the balance exactly when it is covered by
the whole tokens the view shows. -/
theorem size_le_balance_iff (size : Int) :
    (size : Rat) ≤ balanceAt p now s ↔ size ≤ (viewAt p now s).tokensRemaining :=
  Int.le_floor.symm

/-- A reserve that is shed reports what the view shows. -/
theorem shed_reserve_agrees (hlive : NoneExpired now s) (clock : Int) (rid : Rid)
    (size slo : Rat) :
    ∃ reply, (admitScript clock (admitArgs p now rid (some size) slo) s).2 = .ok reply ∧
      ∀ reason retryAfterMs, reply.decision = .shed reason retryAfterMs →
        reply.tokensRemaining = (viewAt p now s).tokensRemaining ∧
        reply.requestsRemaining = (viewAt p now s).requestsRemaining ∧
        reply.inflight = (viewAt p now s).inflight := by
  obtain ⟨reply, hreply, hreport⟩ :=
    admitScript_reply clock (admitArgs p now rid (some size) slo) s rfl
  refine ⟨reply, hreply, ?_⟩
  intro reason retryAfterMs hshed
  obtain ⟨hinflight, hrequests⟩ := reported_of_noneExpired hlive hreport
  have htokens := hreport.tokensRemaining
  rw [tpmBalance_of_noneExpired hlive] at htokens
  simp only [hshed, reduceCtorEq, if_false, sub_zero, add_zero] at htokens hrequests hinflight
  exact ⟨htokens, hrequests, hinflight⟩

/-- A reserve of whole tokens takes its size off what the view shows, and is decided by it. -/
theorem whole_reserve_agrees (hlive : NoneExpired now s) (clock : Int) (rid : Rid)
    (size : Int) (slo : Rat) :
    ∃ reply, (admitScript clock (admitArgs p now rid (some (size : Rat)) slo) s).2 = .ok reply ∧
      (reply.decision = .admitted →
        reply.tokensRemaining = (viewAt p now s).tokensRemaining - size ∧
        reply.requestsRemaining = (viewAt p now s).requestsRemaining - 1 ∧
        reply.inflight = (viewAt p now s).inflight + 1) ∧
      (size ≤ (viewAt p now s).tokensRemaining →
        ∀ retryAfterMs, reply.decision ≠ .shed .tpmExhausted retryAfterMs) ∧
      ((viewAt p now s).tokensRemaining < size → reply.decision ≠ .admitted) := by
  obtain ⟨reply, hreply, hreport⟩ :=
    admitScript_reply clock (admitArgs p now rid (some (size : Rat)) slo) s rfl
  have hdecision := hreport.decision
  rw [tpmBalance_of_noneExpired hlive] at hdecision
  refine ⟨reply, hreply, ?_, ?_, ?_⟩
  · intro hadmitted
    obtain ⟨hinflight, hrequests⟩ := reported_of_noneExpired hlive hreport
    have htokens := hreport.tokensRemaining
    rw [tpmBalance_of_noneExpired hlive, Int.floor_sub_intCast] at htokens
    simp only [hadmitted, if_true] at htokens hrequests hinflight
    exact ⟨htokens, hrequests, hinflight⟩
  · intro hcovered retryAfterMs hshed
    rw [hshed] at hdecision
    obtain ⟨-, -, hshort, -⟩ := decideAdmission_tpmExhausted_iff.mp hdecision.symm
    exact absurd ((size_le_balance_iff size).mpr hcovered) (not_le.mpr hshort)
  · intro huncovered hadmitted
    rw [hadmitted] at hdecision
    obtain ⟨-, -, hfits, -⟩ := decideAdmission_eq_admitted hdecision.symm
    exact absurd ((size_le_balance_iff size).mp hfits) (not_le.mpr huncovered)

end Readings

/-- **One budget.**  Where no lease has expired, a replayed commit and a reserve report the
balances and the leases a snapshot shows, less what the reserve itself takes, and the
tokens shown decide what is admitted.  The number of leases a reserve reclaims is that of
the expired ones the snapshot counts, up to the batch of 32. -/
theorem scripts_read_one_budget (p : Limits) (now : Int) (s : PairState Rid) :
    (NoneExpired now s →
      (∀ clock rid actual serviceMs outputTokens idemTtl, (s.settled rid).get.isSome →
        ∃ reply, (commitScript clock
            (commitArgs p now rid actual serviceMs outputTokens idemTtl) s).2 = .ok reply ∧
          reply.status = .duplicateIgnored ∧
          reply.tokensRemaining = (viewAt p now s).tokensRemaining ∧
          reply.inflight = (viewAt p now s).inflight) ∧
      (∀ clock rid (size slo : Rat),
        ∃ reply, (admitScript clock (admitArgs p now rid (some size) slo) s).2 = .ok reply ∧
          ∀ reason retryAfterMs, reply.decision = .shed reason retryAfterMs →
            reply.tokensRemaining = (viewAt p now s).tokensRemaining ∧
            reply.requestsRemaining = (viewAt p now s).requestsRemaining ∧
            reply.inflight = (viewAt p now s).inflight) ∧
      ∀ clock rid (size : Int) (slo : Rat),
        ∃ reply, (admitScript clock (admitArgs p now rid (some (size : Rat)) slo) s).2 =
            .ok reply ∧
          (reply.decision = .admitted →
            reply.tokensRemaining = (viewAt p now s).tokensRemaining - size ∧
            reply.requestsRemaining = (viewAt p now s).requestsRemaining - 1 ∧
            reply.inflight = (viewAt p now s).inflight + 1) ∧
          (size ≤ (viewAt p now s).tokensRemaining →
            ∀ retryAfterMs, reply.decision ≠ .shed .tpmExhausted retryAfterMs) ∧
          ((viewAt p now s).tokensRemaining < size → reply.decision ≠ .admitted)) ∧
    ∀ clock rid (size slo : Rat),
      ∃ reply, (admitScript clock (admitArgs p now rid (some size) slo) s).2 = .ok reply ∧
        reply.reclaimed = min 32 (viewAt p now s).expiredLeasesPending := by
  refine ⟨?_, ?_⟩
  · intro hlive
    refine ⟨?_, ?_, ?_⟩
    · intro clock rid actual serviceMs outputTokens idemTtl hmarker
      exact replayed_commit_agrees hmarker
    · exact shed_reserve_agrees hlive
    · exact whole_reserve_agrees hlive
  · intro clock rid size slo
    obtain ⟨reply, hreply, hreport⟩ :=
      admitScript_reply clock (admitArgs p now rid (some size) slo) s rfl
    refine ⟨reply, hreply, ?_⟩
    rw [hreport.reclaimed]
    exact reclaim_count _ _ _

/-- The pair once fifty tokens are held under lease 1. -/
def fiftyHeld : PairState Nat := run step .empty [callAt defaultLimits 0 (.reserve 1 (50 : Nat) 0)]

/-- A second reserve, of a hundred tokens, is admitted on the budget the snapshot shows. -/
theorem scripts_read_one_budget_second_reserve :
    ∃ reply, (admitScript 0 (admitArgs defaultLimits 0 2 (some ((100 : Int) : Rat)) 0)
        fiftyHeld).2 = .ok reply ∧
      (reply.decision = .admitted →
        reply.tokensRemaining = (viewAt defaultLimits 0 fiftyHeld).tokensRemaining - 100 ∧
        reply.requestsRemaining = (viewAt defaultLimits 0 fiftyHeld).requestsRemaining - 1 ∧
        reply.inflight = (viewAt defaultLimits 0 fiftyHeld).inflight + 1) ∧
      (100 ≤ (viewAt defaultLimits 0 fiftyHeld).tokensRemaining →
        ∀ retryAfterMs, reply.decision ≠ .shed .tpmExhausted retryAfterMs) ∧
      ((viewAt defaultLimits 0 fiftyHeld).tokensRemaining < 100 →
        reply.decision ≠ .admitted) := by
  refine ((scripts_read_one_budget defaultLimits 0 fiftyHeld).1 ?_).2.2 0 2 100 0
  exact noneExpired_of_entries (by decide +kernel)

end RateLimiter.Admission
