import RateLimiter.Admission.ReserveRoute

/-!
# A client that retries

A client that is shed comes back when it is told to, with the same request.  With nobody else
calling it gets through: it finds too few requests at most once and too few tokens at most
once for each of the estimates that its request can have, and the backend full no more often
than it takes to sweep the leases that are over, a batch at a time.

The balances are exact rationals here: where they are kept as doubles and texts of fourteen
digits, a wait can end a hair before the tokens are there and cost another try.
-/

namespace RateLimiter.Admission

open RateLimiter.Redis RateLimiter.Javascript RateLimiter.Foundations RateLimiter.Gateway

/-! ## Sets that are over -/

section Over

variable {κ ν : Type} [DecidableEq κ]

omit [DecidableEq κ] in
theorem card_purge_le (clock : Int) (c : Collection κ ν) : (c.purge clock).card ≤ c.card := by
  unfold Collection.purge
  split
  · exact Nat.zero_le _
  · exact le_rfl

/-- Of a set whose scores are all due, everything is counted. -/
theorem countByScore_of_due {max : Int} {z : SortedSet κ}
    (h : ∀ k score, z.get k = some score → score ≤ max) : z.countByScore max = z.card := by
  unfold SortedSet.countByScore Collection.card
  rw [List.filter_eq_self.mpr]
  rintro ⟨k, score⟩ hmem
  exact decide_eq_true (h k score (List.mem_dlookup z.members.nodupKeys hmem))

omit [DecidableEq κ] in
/-- A second look, later, finds what the first one found, or nothing any more. -/
theorem purge_purge_cases {earlier later : Int} (clock : Int) (hlater : earlier ≤ later)
    (c : Collection κ ν) :
    (c.purge clock).purge later = c.purge earlier ∨ (c.purge clock).purge later = .absent := by
  by_cases hgone : (c.expireAt.any (· < clock)) = true
  · right
    unfold Collection.purge
    rw [if_pos hgone]
    simp [Collection.absent]
  · have hkept : c.purge clock = c := if_neg hgone
    rw [hkept]
    by_cases hlate : (c.expireAt.any (· < later)) = true
    · exact Or.inr (if_pos hlate)
    · left
      have hearly : ¬ (c.expireAt.any (· < earlier)) = true := by
        intro hany
        apply hlate
        obtain ⟨deadline, hdeadline, hlt⟩ := (Option.any_eq_true _ _).mp hany
        refine (Option.any_eq_true _ _).mpr ⟨deadline, hdeadline, ?_⟩
        exact decide_eq_true ((of_decide_eq_true hlt).trans_le hlater)
      unfold Collection.purge
      rw [if_neg hlate, if_neg hearly]

end Over

/-- What is enough once stays enough. -/
theorem le_refill_of_le {clock clock' now v : Int} {bal capacity rate need : Rat} {ttl : Nat}
    (hrate : 0 < rate) (hneed : need ≤ capacity) (hbal : bal ≤ capacity) (henough : need ≤ bal) :
    need ≤ refill v ((StringKey.setEx clock bal ttl).purge clock').get
      ((StringKey.setEx clock now ttl).purge clock').get capacity rate := by
  have hspan : (0 : Rat) ≤ (max 0 (v - now) : Int) := by exact_mod_cast le_max_left 0 (v - now)
  rw [refill_setEx]
  split
  · exact henough.trans (le_accrue hrate.le (by positivity) hbal)
  · exact hneed

section Retry

variable {Rid : Type} [LinearOrder Rid] {mode : FailureMode} {p : Limits}
  {call later : ReserveCall Rid} {s : PairState Rid} {reason : ShedReason} {w : Int}

/-! ## What is left of a call that was shed -/

theorem keys_of_shed
    (hshed : verdictOf (handle (s.purge call.clock) (call.request p s)).2 =
      some (.shed reason w)) :
    Reserved (s.purge call.clock) (call.request p s) 0
        (step (s.purge call.clock) (call.request p s)) ∧
      (step (s.purge call.clock) (call.request p s)).leases =
        (sweepOf (s.purge call.clock) (call.request p s)).state.leases.expire call.clock
          p.ttlSeconds := by
  rcases reserve_cases (s := s.purge call.clock) (r := call.request p s) rfl with
    ⟨hadmitted, -⟩ | ⟨-, hkeys, hleases, -⟩
  · rw [admitted_eq_false_of_shed hshed] at hadmitted
    cases hadmitted
  · exact ⟨hkeys, hleases⟩

/-- The later call finds a request. -/
theorem requests_after_shed
    (hshed : verdictOf (handle (s.purge call.clock) (call.request p s)).2 =
      some (.shed reason w)) (hreason : reason ≠ .unsatisfiable)
    (hwait : call.now + w ≤ later.now) :
    1 ≤ requestsAt p later.now
      ((step (s.purge call.clock) (call.request p s)).purge later.clock) := by
  have hrate := Limits.rate_pos p.requestsPerMinute p.requestsPerMinute_pos
  have hchain := hshed
  rw [verdict_request] at hchain
  rcases decideAdmission_shed (Option.some.inj hchain) with ⟨hsize, -⟩ | ⟨rfl, -⟩ |
    ⟨-, henough, -⟩ | ⟨-, henough, -⟩
  · exact absurd hsize hreason
  · exact (requests_after_wait rfl hshed later.clock later.now).1 hwait
  all_goals
    have hleft := requestsAt_of_shed (r := call.request p s) rfl (admitted_eq_false_of_shed hshed)
      later.clock later.now
    exact (le_refill_of_le hrate p.one_le_requests (refill_le_capacity _ _ _ _ _)
      henough).trans_eq hleft.symm

/-- And the tokens, if the call had them or was told to wait for them. -/
theorem tokens_after_shed (hholds : HoldsNonneg s)
    (hshed : verdictOf (handle (s.purge call.clock) (call.request p s)).2 =
      some (.shed reason w)) (hreason : reason ≠ .unsatisfiable)
    (hwait : call.now + w ≤ later.now)
    (henough : reason ≠ .rpmExhausted ∨
      (call.estimate p s : Rat) ≤ balanceAt p call.now (s.purge call.clock)) :
    (call.estimate p s : Rat) ≤ balanceAt p later.now
      ((step (s.purge call.clock) (call.request p s)).purge later.clock) := by
  have hrate := Limits.rate_pos p.tokensPerMinute p.tokensPerMinute_pos
  have hsize : (call.estimate p s : Rat) ≤ p.tokensPerMinute := by
    have hint := not_lt.mp fun hsize => hreason ((shed_unsatisfiable_iff hshed).mpr hsize)
    exact_mod_cast hint
  have hsweep : balanceAt p call.now (s.purge call.clock) ≤
      decisionBalance (s.purge call.clock) (call.request p s) :=
    balanceAt_le_decisionBalance (r := call.request p s) (hholds.purge call.clock)
  have hcap : decisionBalance (s.purge call.clock) (call.request p s) ≤ p.tokensPerMinute :=
    min_le_right _ _
  have hkept (hdecided : (call.estimate p s : Rat) ≤
      decisionBalance (s.purge call.clock) (call.request p s)) :
      (call.estimate p s : Rat) ≤ balanceAt p later.now
        ((step (s.purge call.clock) (call.request p s)).purge later.clock) := by
    have hleft := balanceAt_of_shed (r := call.request p s) rfl (admitted_eq_false_of_shed hshed)
      later.clock later.now
    exact (le_refill_of_le hrate hsize hcap hdecided).trans_eq hleft.symm
  have hchain := hshed
  rw [verdict_request] at hchain
  rcases decideAdmission_shed (Option.some.inj hchain) with ⟨hnever, -⟩ | ⟨rfl, -⟩ |
    ⟨rfl, -⟩ | ⟨-, -, hdecided, -⟩
  · exact absurd hnever hreason
  · rcases henough with hother | henough
    · exact absurd rfl hother
    · exact hkept (henough.trans hsweep)
  · have hcast := cast_estimate p call s
    rw [← hcast] at hsize ⊢
    exact (tokens_after_wait (r := call.request p s) rfl hsize hshed later.clock later.now).1 hwait
  · exact hkept hdecided

/-- The estimate stays, or is the ceiling from then on. -/
theorem estimate_after_shed
    (hshed : verdictOf (handle (s.purge call.clock) (call.request p s)).2 =
      some (.shed reason w))
    (hprompt : later.promptTokens = call.promptTokens)
    (hmax : later.maxOutputTokens = call.maxOutputTokens) (hread : call.read ≤ later.read) :
    later.estimate p (step (s.purge call.clock) (call.request p s)) = call.estimate p s ∨
      later.estimate p (step (s.purge call.clock) (call.request p s)) =
        call.promptTokens + call.maxOutputTokens := by
  have hstats : (step (s.purge call.clock) (call.request p s)).stats =
      s.stats.purge call.clock := (keys_of_shed hshed).1.stats
  have hlooked : ((step (s.purge call.clock) (call.request p s)).purge later.read).stats =
      (s.stats.purge call.clock).purge later.read := congrArg (Collection.purge later.read) hstats
  unfold ReserveCall.estimate
  rw [hprompt, hmax]
  rcases purge_purge_cases call.clock hread s.stats with hsame | hgone
  · left
    unfold observedOutputTokens
    rw [hlooked, hsame]
    rfl
  · right
    have hcold : observedOutputTokens p
        ((step (s.purge call.clock) (call.request p s)).purge later.read) = 0 := by
      unfold observedOutputTokens
      rw [hlooked, hgone]
      cases p.reservationMode <;> rfl
    rw [hcold, estimated_of_nonpos p call.promptTokens le_rfl]

/-- A call that was shed gives out no lease. -/
theorem lease_of_shed
    (hshed : verdictOf (handle (s.purge call.clock) (call.request p s)).2 =
      some (.shed reason w)) {rid : Rid} {deadline : Int}
    (hlease : (step (s.purge call.clock) (call.request p s)).leases.get rid = some deadline) :
    s.leases.get rid = some deadline := by
  rw [(keys_of_shed hshed).2, Collection.get_expire, sweepOf, reclaim_lease] at hlease
  split at hlease
  · cases hlease
  · exact Collection.get_of_get_purge hlease

/-- Of leases that are all over, a batch is swept. -/
theorem card_sweepOf
    (hover : ∀ rid deadline, s.leases.get rid = some deadline → deadline ≤ call.now) :
    (sweepOf (s.purge call.clock) (call.request p s)).state.leases.card +
      min 32 (s.purge call.clock).leases.card = (s.purge call.clock).leases.card := by
  have hdue : (s.purge call.clock).leases.countByScore call.now =
      (s.purge call.clock).leases.card :=
    countByScore_of_due fun rid deadline hlease => hover rid deadline
      (Collection.get_of_get_purge hlease)
  have hcard := reclaim_card call.now reclaimBatch (s.purge call.clock)
  rw [reclaim_count, hdue] at hcard
  exact hcard

/-- The later call finds no more than the sweep has left. -/
theorem card_after_shed
    (hshed : verdictOf (handle (s.purge call.clock) (call.request p s)).2 =
      some (.shed reason w)) (later : ReserveCall Rid) :
    ((step (s.purge call.clock) (call.request p s)).purge later.clock).leases.card ≤
      (sweepOf (s.purge call.clock) (call.request p s)).state.leases.card := by
  have hleft : ((step (s.purge call.clock) (call.request p s)).purge later.clock).leases =
      ((sweepOf (s.purge call.clock) (call.request p s)).state.leases.expire call.clock
        p.ttlSeconds).purge later.clock :=
    congrArg (Collection.purge later.clock) (keys_of_shed hshed).2
  rw [hleft]
  exact (card_purge_le _ _).trans_eq (Collection.card_expire _ _ _)

/-- The backend is found full only when the sweep has left a lease. -/
theorem card_pos_of_saturated
    (hshed : verdictOf (handle (s.purge call.clock) (call.request p s)).2 =
      some (.shed reason w)) (hreason : reason = .queueFull ∨ reason = .sloInfeasible) :
    0 < (sweepOf (s.purge call.clock) (call.request p s)).state.leases.card := by
  rw [verdict_request] at hshed
  rcases decideAdmission_shed (Option.some.inj hshed) with ⟨rfl, -⟩ | ⟨rfl, -⟩ | ⟨rfl, -⟩ |
    ⟨-, -, -, hfull, -⟩
  · exact absurd hreason (by decide)
  · exact absurd hreason (by decide)
  · exact absurd hreason (by decide)
  · exact p.maxConcurrency_pos.trans_le hfull

/-! ## What still stands in the way -/

/-- How often a balance may yet be found short: of an estimate, and of the ceiling that the
estimate may become. -/
def tokensShort (estimate ceiling : Int) (balance : Rat) : Nat :=
  (if estimate < ceiling then 1 else 0) + (if balance < estimate then 1 else 0)

section Short

variable {estimate estimate' ceiling : Int} {balance balance' : Rat}

theorem tokensShort_le (hceiling : estimate ≤ ceiling)
    (hestimate : estimate' = estimate ∨ estimate' = ceiling)
    (hkept : (estimate : Rat) ≤ balance → (estimate : Rat) ≤ balance') :
    tokensShort estimate' ceiling balance' ≤ tokensShort estimate ceiling balance := by
  unfold tokensShort
  rcases eq_or_lt_of_le hceiling with rfl | hbelow
  · obtain rfl : estimate' = estimate := hestimate.elim id id
    by_cases hshort : balance < estimate'
    · rw [if_pos hshort]
      split_ifs <;> omega
    · rw [if_neg (not_lt.mpr (hkept (not_lt.mp hshort)))]
      omega
  · rcases hestimate with rfl | rfl
    · by_cases hshort : balance < estimate'
      · rw [if_pos hshort]
        split_ifs <;> omega
      · rw [if_neg (not_lt.mpr (hkept (not_lt.mp hshort)))]
        omega
    · -- the estimate has become the ceiling, and stays there
      rw [if_neg (lt_irrefl _), if_pos hbelow]
      split_ifs <;> omega

/-- An estimate is short once. -/
theorem tokensShort_lt (hceiling : estimate ≤ ceiling)
    (hestimate : estimate' = estimate ∨ estimate' = ceiling) (hshort : balance < estimate)
    (henough : (estimate : Rat) ≤ balance') :
    tokensShort estimate' ceiling balance' < tokensShort estimate ceiling balance := by
  unfold tokensShort
  rw [if_pos hshort]
  rcases eq_or_lt_of_le hceiling with rfl | hbelow
  · obtain rfl : estimate' = estimate := hestimate.elim id id
    rw [if_neg (not_lt.mpr henough)]
    omega
  · rcases hestimate with rfl | rfl
    · rw [if_neg (not_lt.mpr henough)]
      omega
    · rw [if_neg (lt_irrefl _), if_pos hbelow]
      split_ifs <;> omega

end Short

/-- How often a call and those that repeat it may yet be shed: for requests, for tokens, and
for each batch of leases before the last. -/
def ahead (p : Limits) (call : ReserveCall Rid) (s : PairState Rid) : Nat :=
  (if requestsAt p call.now (s.purge call.clock) < 1 then 1 else 0) +
    tokensShort (call.estimate p s) (call.promptTokens + call.maxOutputTokens)
      (balanceAt p call.now (s.purge call.clock)) +
    ((s.purge call.clock).leases.card - 1) / 32

omit [LinearOrder Rid] in
theorem ahead_le (p : Limits) (call : ReserveCall Rid) (s : PairState Rid) :
    ahead p call s ≤ 3 + s.leases.card / 32 := by
  have hcard : (s.purge call.clock).leases.card ≤ s.leases.card := card_purge_le _ _
  have hbatches := Nat.div_le_div_right (c := 32) ((Nat.sub_le _ 1).trans hcard)
  unfold ahead tokensShort
  split_ifs <;> omega

/-- `later` makes the request of `call` again, no sooner than it is told to. -/
structure ComesBack (call later : ReserveCall Rid) (w : Int) : Prop where
  promptTokens : later.promptTokens = call.promptTokens
  maxOutputTokens : later.maxOutputTokens = call.maxOutputTokens
  read : call.read ≤ later.read
  now : call.now + w ≤ later.now

/-- Each shedding takes one thing out of the way. -/
theorem ahead_lt (hholds : HoldsNonneg s)
    (hover : ∀ rid deadline, s.leases.get rid = some deadline → deadline ≤ call.now)
    (hshed : verdictOf (handle (s.purge call.clock) (call.request p s)).2 =
      some (.shed reason w)) (hreason : reason ≠ .unsatisfiable)
    (hback : ComesBack call later w) :
    ahead p later (step (s.purge call.clock) (call.request p s)) < ahead p call s := by
  have hrequests := requests_after_shed hshed hreason hback.now
  have htokens := tokens_after_shed hholds hshed hreason hback.now
  have hestimate := estimate_after_shed hshed hback.promptTokens hback.maxOutputTokens hback.read
  have hceiling : call.estimate p s ≤ call.promptTokens + call.maxOutputTokens :=
    estimated_le_declared _ _ _
  have hswept := card_sweepOf (p := p) hover
  have hcard := card_after_shed hshed later
  have hfewer : ((step (s.purge call.clock) (call.request p s)).purge later.clock).leases.card ≤
      (s.purge call.clock).leases.card := by omega
  have hbatches := Nat.div_le_div_right (c := 32) (Nat.sub_le_sub_right hfewer 1)
  have hkept := tokensShort_le hceiling hestimate fun henough => htokens (Or.inr henough)
  unfold ahead
  rw [hback.promptTokens, hback.maxOutputTokens, if_neg (not_lt.mpr hrequests)]
  have hchain := hshed
  rw [verdict_request] at hchain
  rcases decideAdmission_shed (Option.some.inj hchain) with ⟨hnever, -⟩ | ⟨rfl, hshort, -⟩ |
    ⟨rfl, -, hshort, -⟩ | ⟨hfull, -⟩
  · exact absurd hnever hreason
  · rw [if_pos hshort]
    omega
  · have hsweep : balanceAt p call.now (s.purge call.clock) ≤
        decisionBalance (s.purge call.clock) (call.request p s) :=
      balanceAt_le_decisionBalance (r := call.request p s) (hholds.purge call.clock)
    have hless := tokensShort_lt hceiling hestimate (hsweep.trans_lt hshort)
      (htokens (Or.inl (by decide)))
    omega
  · have hsome := card_pos_of_saturated hshed hfull
    have hgone :
        ((step (s.purge call.clock) (call.request p s)).purge later.clock).leases.card - 1 + 32 ≤
          (s.purge call.clock).leases.card - 1 := by omega
    have hless := Nat.div_le_div_right (c := 32) hgone
    rw [Nat.add_div_right _ (by decide)] at hless
    omega

/-! ## Runs of retries -/

/-- One call after another, with nobody else calling. -/
def retry (mode : FailureMode) (p : Limits) (s : PairState Rid) (call : ReserveCall Rid) :
    PairState Rid := (serveReserve mode p call .answered s).1

/-- From `ready` on, each call is made on one clock and, if the call before it was told to
wait, no sooner than it was told. -/
def Patient (mode : FailureMode) (p : Limits) (s : PairState Rid) (ready : Int) :
    List (ReserveCall Rid) → Prop
  | [] => True
  | call :: calls =>
      ready ≤ call.read ∧ call.read ≤ call.now ∧ call.clock = call.now ∧
        ∀ seconds, told (serveReserve mode p call .answered s).2 = some seconds →
          Patient mode p (retry mode p s call) (call.now + 1000 * seconds) calls

/-- Some call of the run is sent its reservation. -/
def GetsThrough (mode : FailureMode) (p : Limits) (s : PairState Rid)
    (calls : List (ReserveCall Rid)) : Prop :=
  ∃ shed call rest, calls = shed ++ call :: rest ∧
    statusOf (serveReserve mode p call .answered (run (retry mode p) s shed)).2 = 200 ∧
      handedOut (serveReserve mode p call .answered (run (retry mode p) s shed)).2 = some call.rid

variable {promptTokens maxOutputTokens : Nat}

/-- As many calls as can be shed, and one more. -/
theorem getsThrough_of_ahead (hfits : promptTokens + maxOutputTokens ≤ p.tokensPerMinute)
    {calls : List (ReserveCall Rid)} {ready : Int}
    (hsame : ∀ call ∈ calls,
      call.promptTokens = promptTokens ∧ call.maxOutputTokens = maxOutputTokens)
    (hservice : ServiceTakesTime s) (hholds : HoldsNonneg s)
    (hover : ∀ rid deadline, s.leases.get rid = some deadline → deadline ≤ ready)
    (hpatient : Patient mode p s ready calls) {call : ReserveCall Rid}
    (hfirst : calls.head? = some call) (hmany : ahead p call s < calls.length) :
    GetsThrough mode p s calls := by
  induction calls generalizing s ready call with
  | nil => cases hfirst
  | cons first rest ih =>
      obtain rfl : first = call := Option.some.inj hfirst
      obtain ⟨hread, hnow, hclock, hnext⟩ := hpatient
      rcases serve_cases mode p first hservice with
        ⟨-, hstatus, hhanded, -⟩ | ⟨reason, w, hshed, -, -, hwait⟩
      · exact ⟨[], first, rest, rfl, hstatus, hhanded⟩
      · have hsize : ¬ (p.tokensPerMinute : Int) < first.estimate p s := by
          obtain ⟨hprompt, hmax⟩ := hsame first List.mem_cons_self
          have hceiling : first.estimate p s ≤ first.promptTokens + first.maxOutputTokens :=
            estimated_le_declared _ _ _
          omega
        have hreason : reason ≠ .unsatisfiable :=
          fun h => hsize ((shed_unsatisfiable_iff hshed).mp h)
        rcases hwait with ⟨hnever, -⟩ | ⟨-, seconds, htold, hone, hle⟩
        · exact absurd hnever hreason
        · have hdue : ∀ rid deadline, s.leases.get rid = some deadline →
              deadline ≤ first.now := fun rid deadline hlease =>
            (hover rid deadline hlease).trans (hread.trans hnow)
          have hstate : retry mode p s first =
              step (s.purge first.clock) (first.request p s) := (serve_answered mode p first s).1
          cases rest with
          | nil =>
              -- it was shed, so something was in its way
              have hagain : ComesBack first { first with now := first.now + w } w :=
                ⟨rfl, rfl, le_rfl, le_rfl⟩
              have hless := ahead_lt hholds hdue hshed hreason hagain
              simp only [List.length_cons, List.length_nil] at hmany
              omega
          | cons second rest =>
              have hlater := hnext seconds htold
              obtain ⟨hsecond, hsecondNow, -, -⟩ := hlater
              obtain ⟨hprompt, hmax⟩ := hsame first List.mem_cons_self
              obtain ⟨hprompt', hmax'⟩ := hsame second (List.mem_cons_of_mem _ List.mem_cons_self)
              have hagain : ComesBack first second w :=
                ⟨hprompt'.trans hprompt.symm, hmax'.trans hmax.symm, by omega, by omega⟩
              have hless := ahead_lt hholds hdue hshed hreason hagain
              rw [← hstate] at hless
              simp only [List.length_cons] at hmany
              obtain ⟨shed, call, rest', hcalls, hthrough⟩ :=
                ih (fun call hcall => hsame call (List.mem_cons_of_mem _ hcall))
                  (hstate ▸ (hservice.purge first.clock).step (first.request p s))
                  (hstate ▸ (hholds.purge first.clock).step (first.request p s))
                  (fun rid deadline hlease =>
                    (hdue rid deadline (lease_of_shed hshed (hstate ▸ hlease))).trans (by omega))
                  (hnext seconds htold) rfl (by simp only [List.length_cons]; omega)
              exact ⟨first :: shed, call, rest', by rw [hcalls]; rfl, hthrough⟩

end Retry

/-- **Retries.**  In exact arithmetic, after any run of calls under any policies, once the leases that it left are
over: a client that makes a request again which fits the budget, each time no sooner than it
is told to, and with nobody else calling, is handed a reservation, whatever keys expire
meanwhile.  It is shed at most three times for the budget, and once for every thirty-two of
those leases. -/
theorem patient_client_gets_through {Rid : Type} [LinearOrder Rid] (before : List (Request Rid))
    (mode : FailureMode) (p : Limits) (promptTokens maxOutputTokens : Nat)
    (hfits : promptTokens + maxOutputTokens ≤ p.tokensPerMinute) (ready : Int)
    (hover : ∀ rid deadline, (run stepAlive .empty before).leases.get rid = some deadline →
      deadline ≤ ready)
    (calls : List (ReserveCall Rid))
    (hsame : ∀ call ∈ calls,
      call.promptTokens = promptTokens ∧ call.maxOutputTokens = maxOutputTokens)
    (hpatient : Patient mode p (run stepAlive .empty before) ready calls)
    (hmany : 3 + (run stepAlive .empty before).leases.card / 32 < calls.length) :
    GetsThrough mode p (run stepAlive .empty before) calls := by
  cases calls with
  | nil => cases hmany
  | cons first rest =>
      exact getsThrough_of_ahead hfits hsame (serviceTakesTime_empty.run before)
        (holdsNonneg_run holdsNonneg_empty before) hover hpatient rfl
        ((ahead_le p first _).trans_lt hmany)

/-- A request of five hundred tokens at `now`. -/
def fiveHundredAt (now : Int) : ReserveCall Nat where
  promptTokens := 400
  maxOutputTokens := 100
  sloTtftMs := none
  rid := 2
  read := now
  now := now
  clock := now

/-- The keys after an overrun of twice the budget. -/
def overrunLeft : PairState Nat :=
  run stepAlive .empty [callAt defaultLimits 0 (.reserve 1 10 0),
    callAt defaultLimits 0 (.commit 1 200000 0 0)]

/-- The wait is a minute and a second, and then the client gets through. -/
theorem patient_client_gets_through_overrun :
    GetsThrough .failClosed defaultLimits overrunLeft
      [fiveHundredAt 0, fiveHundredAt 61000, fiveHundredAt 61000, fiveHundredAt 61000] := by
  have htold : told (serveReserve .failClosed defaultLimits (fiveHundredAt 0) .answered
      overrunLeft).2 = some 61 := by decide +kernel
  have hdone : told (serveReserve .failClosed defaultLimits (fiveHundredAt 61000) .answered
      (retry .failClosed defaultLimits overrunLeft (fiveHundredAt 0))).2 = none := by
    decide +kernel
  apply patient_client_gets_through _ .failClosed defaultLimits 400 100 (by decide) 0
  · intro rid deadline hlease
    have hnone : overrunLeft.leases.members.entries = [] := by decide +kernel
    change overrunLeft.leases.get rid = some deadline at hlease
    rw [Collection.get_eq_none_of_entries_nil hnone] at hlease
    cases hlease
  · simp [fiveHundredAt]
  · refine ⟨le_rfl, le_rfl, rfl, fun seconds hseconds => ?_⟩
    obtain rfl := Option.some.inj (htold.symm.trans hseconds)
    refine ⟨by decide, le_rfl, rfl, fun seconds hseconds => ?_⟩
    exact absurd (hdone.symm.trans hseconds) nofun
  · decide +kernel

end RateLimiter.Admission
