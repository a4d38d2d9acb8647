import RateLimiter.Admission.Metrics

/-!
# The overrun counter

The service reads an overrun off the sign of a refund: a commit that is charged more than
its hold has generated more than it declared.  A commit whose hold a sweep has already
taken is charged against nothing, so all it reports counts as overrun.
-/

namespace RateLimiter.Admission

open RateLimiter.Redis RateLimiter.Javascript RateLimiter.Foundations

/-! ## What is counted -/

/-- The tokens a call counts as overrun. -/
def overrunTokens : Reply → Nat
  | .commit (.ok reply) =>
      if reply.status = .duplicateIgnored then 0 else (-reply.refundedTokens).toNat
  | _ => 0

theorem overrunTokens_duplicate {answer : Reply} (h : answeredDuplicate answer = true) :
    overrunTokens answer = 0 := by
  unfold answeredDuplicate at h
  split at h
  next reply => simp [overrunTokens, of_decide_eq_true h]
  next => cases h

theorem recordReserve_overrun (scope : JsString) (reply : AdmitReply) (reg : Registry) :
    (reg.recordReserve scope reply).overrunTokensTotal = reg.overrunTokensTotal := by
  unfold Registry.recordReserve
  cases reply.decision <;> dsimp only <;> split <;> rfl

theorem recordCommit_overrun (scope : JsString) (reply : CommitReply) (reg : Registry) :
    (reg.recordCommit scope reply).overrunTokensTotal scope =
      reg.overrunTokensTotal scope +
        if reply.status = .duplicateIgnored then 0 else (-reply.refundedTokens).toNat := by
  unfold Registry.recordCommit
  by_cases hover : reply.refundedTokens < 0
  · cases hstatus : reply.status <;>
      simp [hover, Registry.recordSettled, Registry.recordOverrun, Registry.recordLateCommit]
  · have hnone : (-reply.refundedTokens).toNat = 0 := by omega
    cases hstatus : reply.status <;>
      simp [hover, hnone, Registry.recordSettled, Registry.recordLateCommit]

/-- The counter moves by what the call counts. -/
theorem record_overrun (scope : JsString) (answer : Reply) (reg : Registry) :
    (reg.record scope answer).overrunTokensTotal scope =
      reg.overrunTokensTotal scope + overrunTokens answer := by
  unfold Registry.record
  split
  next reply => rw [recordReserve_overrun]; rfl
  next reply => exact recordCommit_overrun scope reply reg
  next hreserve hcommit =>
    cases answer with
    | reserve result =>
        cases result with
        | ok reply => exact absurd rfl (hreserve reply)
        | error e => rfl
    | commit result =>
        cases result with
        | ok reply => exact absurd rfl (hcommit reply)
        | error e => rfl
    | snapshot reply => rfl

/-! ## One call -/

section Call

variable {Rid : Type} [LinearOrder Rid] {s : PairState Rid} {r : Request Rid} {rid k : Rid}

/-- The reservation still has its hold. -/
def Holds (s : PairState Rid) (rid : Rid) (held : Rat) : Prop :=
  s.reservations.get rid = some held

/-- The server takes the time to live of the marker, and the commit or release is the first
for its reservation: then it still finds the hold, or reports no tokens. -/
def FindsHoldOrNothing (s : PairState Rid) (r : Request Rid) : Prop :=
  ∀ rid actual, r.op.settles? = some (rid, actual) →
    (acceptedTtl r.clock r.idempotencyTtl).isSome → s.settled rid = none →
    (s.reservations.get rid).isSome ∨ actual = 0

/-- A first commit counts what it is charged beyond its hold. -/
theorem overrunTokens_settle {actual : NNRat} (hop : r.op.settles? = some (rid, actual))
    (hmarker : s.settled rid = none) (hidem : (acceptedTtl r.clock r.idempotencyTtl).isSome) :
    overrunTokens (handle s r).2 = (-⌊heldFor rid s - actual⌋).toNat := by
  obtain ⟨serviceMs, outputTokens, hhandle⟩ := handle_of_settles (s := s) hop
  obtain ⟨idem, hidem⟩ := Option.isSome_iff_exists.mp hidem
  have hscript := commitScript_settles r.clock (commitArgs r.policy r.now rid
    (some (actual : Rat)) (some (serviceMs : Rat)) (some (outputTokens : Rat))
    r.idempotencyTtl) s hmarker rfl hidem rfl rfl
  have hfirst : ∀ b : Bool,
      (if b then CommitStatus.committed else .reconciledAfterExpiry) ≠ .duplicateIgnored := by
    decide
  rw [hhandle, hscript]
  unfold overrunTokens
  dsimp only
  rw [if_neg (hfirst _)]
  rfl

theorem overrunTokens_refused {actual : NNRat} (hop : r.op.settles? = some (rid, actual))
    (hmarker : s.settled rid = none) (hidem : acceptedTtl r.clock r.idempotencyTtl = none) :
    overrunTokens (handle s r).2 = 0 := by
  obtain ⟨serviceMs, outputTokens, hhandle⟩ := handle_of_settles (s := s) hop
  have hscript := commitScript_refused r.clock (commitArgs r.policy r.now rid
    (some (actual : Rat)) (some (serviceMs : Rat)) (some (outputTokens : Rat))
    r.idempotencyTtl) s hmarker rfl hidem
  rw [hhandle, hscript]
  rfl

/-- What a first commit within its hold is charged is covered exactly when the hold is found
or there is nothing to charge. -/
theorem floor_refund_nonneg_iff {actual : NNRat}
    (hwithin : ∀ held, Holds s rid held → (actual : Rat) ≤ held) :
    0 ≤ ⌊heldFor rid s - actual⌋ ↔ (s.reservations.get rid).isSome ∨ actual = 0 := by
  rw [Int.floor_nonneg, sub_nonneg]
  cases hheld : s.reservations.get rid with
  | some held =>
      have hle := hwithin held hheld
      have hpaid : heldFor rid s = held := by simp [heldFor, hheld]
      simp [hpaid, hle]
  | none =>
      have hunpaid : heldFor rid s = 0 := by simp [heldFor, hheld]
      rw [hunpaid]
      simp

/-- A call whose usage is within its hold, where it still has one, counts no overrun exactly
when it finds the hold or has nothing to report. -/
theorem overrunTokens_eq_zero_iff (hwithin : ∀ rid actual held,
      r.op.settles? = some (rid, actual) → Holds s rid held → (actual : Rat) ≤ held) :
    overrunTokens (handle s r).2 = 0 ↔ FindsHoldOrNothing s r := by
  cases hop : r.op.settles? with
  | none =>
      have hcounts : overrunTokens (handle s r).2 = 0 := by
        rcases op_cases r.op with ⟨rid, tokens, slo, hreserve⟩ | ⟨rid, actual, hsettles⟩ | hsnap
        · unfold handle
          rw [hreserve]
          rfl
        · rw [hop] at hsettles
          cases hsettles
        · unfold handle
          rw [hsnap]
          rfl
      -- only a commit or a release can count anything
      refine iff_of_true hcounts ?_
      intro rid actual hsettles
      rw [hop] at hsettles
      cases hsettles
  | some settle =>
      obtain ⟨rid, actual⟩ := settle
      have hcondition : FindsHoldOrNothing s r ↔
          ((acceptedTtl r.clock r.idempotencyTtl).isSome → s.settled rid = none →
            (s.reservations.get rid).isSome ∨ actual = 0) := by
        refine ⟨fun h => h rid actual hop, ?_⟩
        intro h rid' actual' hop'
        cases hop.symm.trans hop'
        exact h
      rw [hcondition]
      cases hmarker : s.settled rid with
      | some marker =>
          have hcounts := overrunTokens_duplicate (settle_duplicate hop hmarker).1
          simp [hcounts]
      | none =>
          cases hidem : acceptedTtl r.clock r.idempotencyTtl with
          | none => simp [overrunTokens_refused hop hmarker hidem]
          | some idem =>
              have hcounts := overrunTokens_settle hop hmarker (by rw [hidem]; rfl)
              have hcovered := floor_refund_nonneg_iff fun held => hwithin rid actual held hop
              rw [hcounts, ← hcovered]
              simp only [Option.isSome_some, forall_const]
              omega

/-- A hold is there because it was, or because the call was admitted with it. -/
theorem hold_of_step {held : Rat} (h : Holds (step s r) k held) :
    Holds s k held ∨
      ∃ tokens slo, r.op = .reserve k tokens slo ∧ admitted (handle s r).2 = true ∧
        held = tokens :=
  hold_of_call h

/-- No hold is kept under an id that a call draws. -/
theorem DrawsFree.not_holds (h : DrawsFree s r) (hreachable : Reachable s) {tokens slo : NNRat}
    (hop : r.op = .reserve rid tokens slo) (held : Rat) : ¬ Holds s rid held := by
  have hnone := (hreachable.matched.members rid).mp (h rid tokens slo hop)
  intro hheld
  cases hnone.symm.trans hheld

end Call

/-! ## Runs -/

/-- The ids an admitted reserve has handed out, with the tokens they were admitted with. -/
abbrev Grants := List ((Pair × ReservationId) × NNRat)

/-- The ids handed out once the call is answered. -/
def granted (o : Observed) (call : PairCall) (given : Grants) : Grants :=
  match call.2.op with
  | .reserve rid tokens _ =>
      if admitted (handle (o.keys.load call.1) call.2).2 then ((call.1, rid), tokens) :: given
      else given
  | _ => given

/-- Every id that is committed or released was handed out by an admitted reserve for the
same pair, and no more is reported for it than it was admitted with. -/
def usageWithin (scope : JsString) : Observed → Grants → List PairCall → Bool
  | _, _, [] => true
  | o, given, call :: calls =>
      (match call.2.op.settles? with
        | some (rid, actual) =>
            given.any fun grant => grant.1 = (call.1, rid) ∧ actual ≤ grant.2
        | none => true) &&
      usageWithin scope (serveRecorded scope o call) (granted o call given) calls

section Runs

variable {scope : JsString} {o : Observed} {call : PairCall} {calls : List PairCall}
  {given : Grants}

theorem mem_granted {grant : (Pair × ReservationId) × NNRat} (h : grant ∈ granted o call given) :
    grant ∈ given ∨ ∃ slo, call.2.op = .reserve grant.1.2 grant.2 slo := by
  unfold granted at h
  split at h
  next rid tokens slo hop =>
    split at h
    · rcases List.mem_cons.mp h with rfl | hold
      · exact Or.inr ⟨slo, hop⟩
      · exact Or.inl hold
    · exact Or.inl h
  next => exact Or.inl h

/-- What is known before the calls still to come: the ids handed out are not drawn again,
and what is held under one of them is what it was admitted with. -/
structure Granted (o : Observed) (given : Grants) (calls : List PairCall) : Prop where
  booked : Booked o calls
  held : ∀ pair rid held, Holds (o.keys.load pair) rid held →
    ∀ grant ∈ given, grant.1.2 = rid → held = grant.2
  drawn : ∀ grant ∈ given, ∀ call ∈ calls, ∀ tokens slo,
    call.2.op ≠ .reserve grant.1.2 tokens slo

theorem granted_start (calls : List PairCall) : Granted .start [] calls := by
  refine ⟨booked_start calls, ?_, ?_⟩
  · intro pair rid held hheld
    cases hheld
  · intro grant hmem
    cases hmem

theorem Granted.step (h : Granted o given (call :: calls))
    (hfresh : FreshIds ((call :: calls).map Prod.snd)) :
    Granted (serveRecorded scope o call) (granted o call given) calls := by
  refine ⟨h.booked.step hfresh, ?_, ?_⟩
  · intro pair rid held hheld grant hgrant hrid
    -- a hold that was there before is not that of an id just drawn
    have hbefore : ∀ pair, Holds (o.keys.load pair) rid held → held = grant.2 := by
      intro pair hold
      rcases mem_granted hgrant with hgiven | ⟨slo, hop⟩
      · exact h.held pair rid held hold grant hgiven hrid
      · rw [hrid] at hop
        have hfree := h.booked.free pair call List.mem_cons_self
        exact absurd hold (hfree.not_holds (h.booked.reachable pair) hop held)
    have hload : (serveRecorded scope o call).keys.load pair =
          Admission.step (o.keys.load call.1) call.2 ∨
        (serveRecorded scope o call).keys.load pair = o.keys.load pair :=
      Keyspace.load_store_or _ _ _ _
    rcases hload with hnew | hold
    · rw [hnew] at hheld
      rcases hold_of_step hheld with hold | ⟨tokens, slo, hop, -, htokens⟩
      · exact hbefore call.1 hold
      · rcases mem_granted hgrant with hgiven | ⟨slo', hop'⟩
        · rw [← hrid] at hop
          exact absurd hop (h.drawn grant hgiven call List.mem_cons_self tokens slo)
        · rw [hop] at hop'
          cases hop'
          exact htokens
    · rw [hold] at hheld
      exact hbefore pair hheld
  · intro grant hgrant later hlater tokens slo hop
    rcases mem_granted hgrant with hgiven | ⟨slo', hdrawn⟩
    · exact h.drawn grant hgiven later (List.mem_cons_of_mem call hlater) tokens slo hop
    · refine (List.pairwise_cons.mp hfresh).1 later.2 (List.mem_map_of_mem hlater) _ tokens slo
        hop ?_
      rw [hdrawn]
      rfl

/-- Over a run the counter moves by what the calls count. -/
theorem overrun_run (scope : JsString) (o : Observed) (calls : List PairCall) :
    (run (serveRecorded scope) o calls).registry.overrunTokensTotal scope =
      o.registry.overrunTokensTotal scope + tally (serveRecorded scope)
        (fun o call => overrunTokens (handle (o.keys.load call.1) call.2).2) o calls := by
  induction calls generalizing o with
  | nil => simp
  | cons call calls ih =>
      have hcall : (serveRecorded scope o call).registry.overrunTokensTotal scope =
          o.registry.overrunTokensTotal scope +
            overrunTokens (handle (o.keys.load call.1) call.2).2 := record_overrun _ _ _
      rw [run_cons, tally_cons, ih, hcall, Nat.add_assoc]

/-- While usage stays within what was granted, no call of a run counts an overrun exactly
when each finds its hold or has nothing to report. -/
theorem overrun_eq_zero_iff (h : Granted o given calls) (hfresh : FreshIds (calls.map Prod.snd))
    (husage : usageWithin scope o given calls = true) :
    tally (serveRecorded scope)
        (fun o call => overrunTokens (handle (o.keys.load call.1) call.2).2) o calls = 0 ↔
      Along (serveRecorded scope)
        (fun o call => FindsHoldOrNothing (o.keys.load call.1) call.2) o calls := by
  induction calls generalizing o given with
  | nil => simp
  | cons call calls ih =>
      obtain ⟨hcall, hcalls⟩ := Bool.and_eq_true_iff.mp husage
      have hrest := ih (h.step hfresh) (List.pairwise_cons.mp hfresh).2 hcalls
      have hwithin : ∀ rid actual held, call.2.op.settles? = some (rid, actual) →
          Holds (o.keys.load call.1) rid held → (actual : Rat) ≤ held := by
        intro rid actual held hop hheld
        rw [hop] at hcall
        obtain ⟨grant, hgrant, hmatch⟩ := List.any_eq_true.mp hcall
        obtain ⟨hname, hle⟩ := of_decide_eq_true hmatch
        rw [h.held call.1 rid held hheld grant hgrant (congrArg Prod.snd hname)]
        exact_mod_cast hle
      rw [tally_cons, Nat.add_eq_zero_iff, along_cons, overrunTokens_eq_zero_iff hwithin, hrest]

end Runs

/-- **Overruns.**  When nothing is committed or released but what was admitted, and within
what it was admitted with, the overrun counter stays at zero exactly when every first
commit or release still finds its hold or reports no tokens. -/
theorem overrun_counter_zero_iff (scope : JsString) (calls : List PairCall)
    (hfresh : FreshIds (calls.map Prod.snd))
    (husage : usageWithin scope .start [] calls = true) :
    (run (serveRecorded scope) .start calls).registry.overrunTokensTotal scope = 0 ↔
      Along (serveRecorded scope)
        (fun o call => FindsHoldOrNothing (o.keys.load call.1) call.2) .start calls := by
  have hrun := overrun_run scope .start calls
  have hzero : Observed.start.registry.overrunTokensTotal scope = 0 := rfl
  rw [hzero, Nat.zero_add] at hrun
  rw [hrun]
  exact overrun_eq_zero_iff (granted_start calls) hfresh husage

/-- A reserve of 500 tokens and a commit of 400 count no overrun. -/
theorem overrun_counter_zero_reserve_commit :
    (run (serveRecorded (js "default")) .start
      [acmeCall 0 (.reserve firstId 500 0),
        acmeCall 1000 (.commit firstId 400 0 0)]).registry.overrunTokensTotal (js "default") =
      0 := by
  refine (overrun_counter_zero_iff (js "default") _ (by simp [FreshIds, acmeCall, callAt])
    (by decide +kernel)).mpr ⟨?_, ?_, trivial⟩
  · intro rid actual hop
    cases hop
  · intro rid actual hop
    cases hop
    exact fun _ _ => Or.inl (by decide +kernel)

/-- Under a worst-case policy 400 of the 500 tokens held are reported once the hold has been
swept, and all of them count as overrun. -/
theorem late_commit_counted_as_overrun :
    ¬ ∀ (scope : JsString) (calls : List PairCall),
      (∀ call ∈ calls, call.2.policy.reservationMode = .worstCase) →
      FreshIds (calls.map Prod.snd) → usageWithin scope .start [] calls = true →
      (run (serveRecorded scope) .start calls).registry.overrunTokensTotal scope = 0 := by
  intro h
  have hnone := h (js "default") lateCommit
    (by simp [lateCommit, acmeCall, callAt, defaultLimits]) lateCommit_fresh (by decide +kernel)
  revert hnone
  decide +kernel

end RateLimiter.Admission
