import RateLimiter.Admission.Calls

/-!
# The life of a reservation

For one reservation id the three keys a reservation is spread over (its lease,
its hold and its settled marker) are in one of three phases.  `Phase` is that
lifecycle without the keys and `Advance` its transitions, each with the tokens
it moves into the balance.  `Tracks` ties a phase to the keys.  Every call takes
every id along one transition, so what the scripts have moved for an id is a
function of its phase alone: minus the hold while it is in flight, nothing when
it is idle, minus the usage of its first commit once it is settled.
-/

namespace RateLimiter.Admission

open RateLimiter.Redis RateLimiter.Javascript RateLimiter.Foundations

/-! ## The lifecycle -/

/-- Where a reservation id stands: never admitted or swept, holding tokens, or
settled with the usage its first commit reported. -/
inductive Phase
  | idle
  | inFlight (held : Rat)
  | settled (actual : Rat)

/-- What has been moved into the balance for an id in a phase. -/
def Phase.moved : Phase → Rat
  | .idle => 0
  | .inFlight held => -held
  | .settled actual => -actual

/-- The transitions, with the tokens each one moves into the balance. -/
inductive Advance : Phase → Rat → Phase → Prop
  | stay (p : Phase) : Advance p 0 p
  | admitted (held : Rat) : Advance .idle (-held) (.inFlight held)
  | sweep (held : Rat) : Advance (.inFlight held) held .idle
  | settleLate (actual : Rat) : Advance .idle (0 - actual) (.settled actual)
  | settle (held actual : Rat) : Advance (.inFlight held) (held - actual) (.settled actual)

/-- A transition moves what separates its two phases. -/
theorem Advance.moved {p q : Phase} {m : Rat} (h : Advance p m q) : q.moved = p.moved + m := by
  cases h with
  | stay p => simp
  | admitted held => simp [Phase.moved]
  | sweep held => simp [Phase.moved]
  | settleLate actual => simp [Phase.moved]
  | settle held actual =>
      simp only [Phase.moved]
      ring

/-- What a call can do to an id it does not name: sweep it, or nothing. -/
inductive SweptTo : Phase → Phase → Prop
  | stay (p : Phase) : SweptTo p p
  | sweep (held : Rat) : SweptTo (.inFlight held) .idle

theorem SweptTo.trans {p q q' : Phase} (h : SweptTo p q) (h' : SweptTo q q') : SweptTo p q' := by
  cases h with
  | stay => exact h'
  | sweep held =>
      cases h' with
      | stay => exact .sweep held

theorem SweptTo.of_idle {q : Phase} (h : SweptTo .idle q) : q = .idle := by
  cases h with
  | stay => rfl

theorem SweptTo.of_settled {q : Phase} {actual : Rat} (h : SweptTo (.settled actual) q) :
    q = .settled actual := by
  cases h with
  | stay => rfl

variable {Rid : Type} [LinearOrder Rid]

/-- The keys of a reservation are those of its phase. -/
def Tracks (rid : Rid) (s : PairState Rid) : Phase → Prop
  | .idle => s.leases.get rid = none ∧ s.reservations.get rid = none ∧ s.settled rid = none
  | .inFlight held => (∃ deadline, s.leases.get rid = some deadline) ∧
      s.reservations.get rid = some held ∧ s.settled rid = none
  | .settled _ => s.leases.get rid = none ∧ s.reservations.get rid = none ∧
      ∃ marker, s.settled rid = some marker

/-! ## What a call moves for an id -/

/-- The tokens the sweep of a call pays back for `rid`. -/
def sweptFor (rid : Rid) (s : PairState Rid) (r : Request Rid) : Rat :=
  if sweeps s r rid then heldFor rid s else 0

/-- The balance adjustments a call applies for `rid`, before the clamp at the
limit: the hold a sweep pays back, the size an admission deducts, the refund or
the charge of a commit. -/
def adjustment (rid : Rid) (s : PairState Rid) (r : Request Rid) : Rat :=
  match r.op with
  | .reserve rid' tokens _ =>
      sweptFor rid s r - (if rid' = rid ∧ admitted (handle s r).2 then (tokens : Rat) else 0)
  | .commit rid' actual _ _ =>
      if rid' = rid ∧ ¬ answeredDuplicate (handle s r).2 then heldFor rid s - actual else 0
  | .release rid' =>
      if rid' = rid ∧ ¬ answeredDuplicate (handle s r).2 then heldFor rid s else 0
  | .snapshot => 0

theorem adjustment_reserve {rid rid' : Rid} {s : PairState Rid} {r : Request Rid}
    {tokens slo : NNRat} (hop : r.op = .reserve rid' tokens slo) :
    adjustment rid s r =
      sweptFor rid s r - (if rid' = rid ∧ admitted (handle s r).2 then (tokens : Rat) else 0) := by
  unfold adjustment
  rw [hop]

theorem adjustment_settles {rid rid' : Rid} {s : PairState Rid} {r : Request Rid}
    {actual : NNRat} (hop : r.op.settles? = some (rid', actual)) :
    adjustment rid s r =
      if rid' = rid ∧ ¬ answeredDuplicate (handle s r).2 then heldFor rid s - actual else 0 := by
  unfold adjustment
  rcases Op.settles?_cases hop with ⟨serviceMs, outputTokens, h⟩ | ⟨h, rfl⟩
  · rw [h]
  · rw [h]
    simp

/-- What the sweep of a reserve pays into the balance is what it pays back for
the ids it lists. -/
theorem sweepOf_tokens (s : PairState Rid) (r : Request Rid) :
    (sweepOf s r).tokens =
      ((s.leases.rangeByScore r.now reclaimBatch).map fun rid => sweptFor rid s r).sum := by
  unfold sweepOf
  rw [reclaim_tokens]
  refine congrArg List.sum (List.map_congr_left ?_)
  intro rid hmem
  rw [sweptFor, if_pos (sweeps_iff.mpr hmem)]
  rfl

/-! ## One call, one transition -/

section Step

variable {rid : Rid} {s : PairState Rid} {r : Request Rid} {p : Phase}

/-- A sweep takes an id in flight back to idle or leaves it where it is. -/
theorem tracks_sweep (h : Tracks rid s p) :
    ∃ q, Advance p (sweptFor rid s r) q ∧ Tracks rid (sweepOf s r).state q ∧ SweptTo p q := by
  have hlease := reclaim_lease r.now reclaimBatch s rid
  have hhold := reclaim_hold r.now reclaimBatch s rid
  have hsettled := reclaim_settled r.now reclaimBatch s
  change (sweepOf s r).state.leases.get rid = _ at hlease
  change (sweepOf s r).state.reservations.get rid = _ at hhold
  change (sweepOf s r).state.settled = _ at hsettled
  by_cases hmem : rid ∈ s.leases.rangeByScore r.now reclaimBatch
  · -- What the sweep lists has a lease, and only an id in flight has one.
    obtain ⟨score, hscore, -⟩ := SortedSet.score_of_mem_rangeByScore hmem
    rw [if_pos hmem] at hlease hhold
    cases p with
    | idle =>
        rw [h.1] at hscore
        cases hscore
    | inFlight held =>
        refine ⟨.idle, ?_, ⟨hlease, hhold, by rw [hsettled]; exact h.2.2⟩, .sweep held⟩
        have hswept : sweptFor rid s r = held := by
          simp [sweptFor, hmem, heldFor, h.2.1]
        rw [hswept]
        exact .sweep held
    | settled actual =>
        rw [h.1] at hscore
        cases hscore
  · rw [if_neg hmem] at hlease hhold
    have hswept : sweptFor rid s r = 0 := by simp [sweptFor, hmem]
    refine ⟨p, by rw [hswept]; exact .stay p, ?_, .stay p⟩
    cases p with
    | idle => exact ⟨hlease.trans h.1, hhold.trans h.2.1, by rw [hsettled]; exact h.2.2⟩
    | inFlight held =>
        obtain ⟨⟨deadline, hdeadline⟩, hheld, hfree⟩ := h
        exact ⟨⟨deadline, hlease.trans hdeadline⟩, hhold.trans hheld,
          by rw [hsettled]; exact hfree⟩
    | settled actual => exact ⟨hlease.trans h.1, hhold.trans h.2.1, by rw [hsettled]; exact h.2.2⟩

/-- Keys that agree under an id track the same phase. -/
theorem Tracks.congr {s' : PairState Rid} (h : Tracks rid s p)
    (hlease : s'.leases.get rid = s.leases.get rid)
    (hhold : s'.reservations.get rid = s.reservations.get rid)
    (hsettled : s'.settled rid = s.settled rid) : Tracks rid s' p := by
  cases p with
  | idle => exact ⟨hlease.trans h.1, hhold.trans h.2.1, hsettled.trans h.2.2⟩
  | inFlight held =>
      obtain ⟨⟨deadline, hdeadline⟩, hheld, hfree⟩ := h
      exact ⟨⟨deadline, hlease.trans hdeadline⟩, hhold.trans hheld, hsettled.trans hfree⟩
  | settled actual =>
      obtain ⟨hlease', hhold', marker, hmarker⟩ := h
      exact ⟨hlease.trans hlease', hhold.trans hhold', marker, hsettled.trans hmarker⟩

/-- A reserve under another id only sweeps. -/
theorem reserve_other {rid' : Rid} {tokens slo : NNRat}
    (hop : r.op = .reserve rid' tokens slo) (hne : rid' ≠ rid) (h : Tracks rid s p) :
    ∃ q, Advance p (adjustment rid s r) q ∧ Tracks rid (step s r) q ∧ SweptTo p q := by
  obtain ⟨q, hadvance, htracks, hswept⟩ := tracks_sweep (r := r) h
  have hmoved : adjustment rid s r = sweptFor rid s r := by
    rw [adjustment_reserve hop]
    simp [hne]
  rw [hmoved]
  refine ⟨q, hadvance, ?_, hswept⟩
  have hkept : (sweepOf s r).state.settled rid = s.settled rid := by
    rw [sweepOf, reclaim_settled]
  rcases reserve_cases hop with
    ⟨-, -, -, hwrite, hleases, hreservations⟩ | ⟨-, hwrite, hleases, hreservations⟩
  · refine htracks.congr ?_ ?_ ?_
    · rw [hleases, Collection.get_expire, Collection.get_put_of_ne hne.symm]
    · rw [hreservations, Collection.get_expire, Collection.get_put_of_ne hne.symm]
    · rw [hwrite.settled, hkept]
  · refine htracks.congr ?_ ?_ ?_
    · rw [hleases, Collection.get_expire]
    · rw [hreservations, Collection.get_expire]
    · rw [hwrite.settled, hkept]

/-- A reserve under an idle id leaves it in flight when it is admitted, idle when
it is shed. -/
theorem reserve_own {tokens slo : NNRat} (hop : r.op = .reserve rid tokens slo)
    (h : Tracks rid s .idle) :
    (admitted (handle s r).2 = true ∧ Tracks rid (step s r) (.inFlight tokens) ∧
      adjustment rid s r = -tokens) ∨
    (admitted (handle s r).2 = false ∧ Tracks rid (step s r) .idle ∧
      adjustment rid s r = 0) := by
  obtain ⟨q, hadvance, htracks, hquiet⟩ := tracks_sweep (r := r) h
  obtain rfl := hquiet.of_idle
  have hswept : sweptFor rid s r = 0 := by
    have := hadvance.moved
    simpa [Phase.moved] using this.symm
  have hkept : (sweepOf s r).state.settled rid = s.settled rid := by
    rw [sweepOf, reclaim_settled]
  rcases reserve_cases hop with
    ⟨hadmitted, -, -, hwrite, hleases, hreservations⟩ |
    ⟨hshed, hwrite, hleases, hreservations⟩
  · refine Or.inl ⟨hadmitted, ⟨⟨r.now + r.policy.leaseMs, ?_⟩, ?_, ?_⟩, ?_⟩
    · rw [hleases, Collection.get_expire, Collection.get_put]
    · rw [hreservations, Collection.get_expire, Collection.get_put]
    · rw [hwrite.settled]
      exact h.2.2
    · rw [adjustment_reserve hop]
      simp [hswept, hadmitted]
  · refine Or.inr ⟨hshed, ⟨?_, ?_, ?_⟩, ?_⟩
    · rw [hleases, Collection.get_expire]
      exact htracks.1
    · rw [hreservations, Collection.get_expire]
      exact htracks.2.1
    · rw [hwrite.settled]
      exact h.2.2
    · rw [adjustment_reserve hop]
      simp [hswept, hshed]

/-- Settling another id leaves this one where it is. -/
theorem settle_other {rid' : Rid} {actual : NNRat} (hop : r.op.settles? = some (rid', actual))
    (hidem : (acceptedTtl r.clock r.idempotencyTtl).isSome) (hne : rid' ≠ rid)
    (h : Tracks rid s p) : Tracks rid (step s r) p ∧ adjustment rid s r = 0 := by
  refine ⟨?_, by simp [adjustment_settles hop, hne]⟩
  cases hmarker : s.settled rid' with
  | some marker =>
      rw [(settle_duplicate hop hmarker).2]
      exact h
  | none =>
      obtain ⟨idem, hidem⟩ := Option.isSome_iff_exists.mp hidem
      obtain ⟨-, settled, stats, hstep⟩ := settle_cases hop hmarker
      have hmark := settle_marker hop hmarker hidem
      refine h.congr ?_ ?_ ?_
      · rw [hstep]
        exact takeHold_lease_of_ne hne.symm s
      · rw [hstep]
        exact (takeHold_hold rid' rid s).trans (if_neg hne.symm)
      · rw [hmark, Function.update_of_ne hne.symm]

/-- The first commit of an id settles it with the usage it reports. -/
theorem settle_own {actual : NNRat} (hop : r.op.settles? = some (rid, actual))
    (hidem : (acceptedTtl r.clock r.idempotencyTtl).isSome) (h : Tracks rid s p)
    (hfirst : ∀ a, p ≠ .settled a) :
    Advance p (adjustment rid s r) (.settled actual) ∧
      Tracks rid (step s r) (.settled actual) := by
  obtain ⟨idem, hidem⟩ := Option.isSome_iff_exists.mp hidem
  have hmarker : s.settled rid = none := by
    cases p with
    | idle => exact h.2.2
    | inFlight held => exact h.2.2
    | settled a => exact absurd rfl (hfirst a)
  obtain ⟨hreply, settled, stats, hstep⟩ := settle_cases hop hmarker
  have hmark := settle_marker hop hmarker hidem
  have hmoved : adjustment rid s r = heldFor rid s - actual := by
    simp [adjustment_settles hop, hreply]
  have hhold : (step s r).reservations.get rid = none := by
    rw [hstep]
    exact (takeHold_hold rid rid s).trans (if_pos rfl)
  have hmarked : ∃ marker, (step s r).settled rid = some marker :=
    ⟨_, by rw [hmark, Function.update_self]; rfl⟩
  rw [hmoved]
  cases p with
  | idle =>
      -- too late for its hold: the usage is charged in full
      have hheld : heldFor rid s = 0 := by simp [heldFor, h.2.1]
      refine ⟨by rw [hheld]; exact .settleLate _, ?_, hhold, hmarked⟩
      rw [hstep, takeHold_of_get_eq_none h.2.1]
      exact h.1
  | inFlight held =>
      have hheld : heldFor rid s = held := by simp [heldFor, h.2.1]
      refine ⟨by rw [hheld]; exact .settle _ _, ?_, hhold, hmarked⟩
      rw [hstep]
      exact takeHold_lease_of_hold h.2.1
  | settled a => exact absurd rfl (hfirst a)

/-- Every further commit of a settled id is a replay: no key changes. -/
theorem settle_replay {actual : NNRat} {a : Rat} (hop : r.op.settles? = some (rid, actual))
    (h : Tracks rid s (.settled a)) : step s r = s ∧ adjustment rid s r = 0 := by
  obtain ⟨-, -, marker, hmarker⟩ := h
  obtain ⟨hreply, hstep⟩ := settle_duplicate hop hmarker
  exact ⟨hstep, by simp [adjustment_settles hop, hreply]⟩

omit [LinearOrder Rid] in
theorem rid?_of_settles {op : Op Rid} {actual : NNRat} (h : op.settles? = some (rid, actual)) :
    op.rid? = some rid := by
  rcases Op.settles?_cases h with ⟨serviceMs, outputTokens, rfl⟩ | ⟨rfl, -⟩ <;> rfl

/-- A call that does not name an id sweeps it or leaves it alone. -/
theorem quiet_step (hop : r.op.rid? ≠ some rid)
    (hidem : (acceptedTtl r.clock r.idempotencyTtl).isSome) (h : Tracks rid s p) :
    ∃ q, Tracks rid (step s r) q ∧ q.moved = p.moved + adjustment rid s r ∧ SweptTo p q := by
  rcases op_cases r.op with ⟨rid', tokens, slo, hreserve⟩ | ⟨rid', actual, hsettle⟩ | hsnapshot
  · have hne : rid' ≠ rid := by
      rintro rfl
      exact hop (by rw [hreserve]; rfl)
    obtain ⟨q, hadvance, htracks, hquiet⟩ := reserve_other hreserve hne h
    exact ⟨q, htracks, hadvance.moved, hquiet⟩
  · have hne : rid' ≠ rid := by
      rintro rfl
      exact hop (rid?_of_settles hsettle)
    obtain ⟨htracks, hmoved⟩ := settle_other hsettle hidem hne h
    exact ⟨p, htracks, by rw [hmoved, add_zero], .stay p⟩
  · have hmoved : adjustment rid s r = 0 := by
      unfold adjustment
      rw [hsnapshot]
    rw [step_snapshot hsnapshot]
    exact ⟨p, h, by rw [hmoved, add_zero], .stay p⟩

end Step

/-! ## What the adjustments are adjustments of -/

section Balance

variable {rid : Rid} {s : PairState Rid} {r : Request Rid}

/-- A reserve stores the balance it reads, adjusted for every id it sweeps and
then for its own. -/
theorem reserve_balance {tokens slo : NNRat} (hop : r.op = .reserve rid tokens slo) :
    (step s r).tpm.get = some
      (min (balanceAt r.policy r.now s +
          ((s.leases.rangeByScore r.now reclaimBatch).map fun k => sweptFor k s r).sum)
        r.policy.tokensPerMinute - if admitted (handle s r).2 then (tokens : Rat) else 0) := by
  rw [← sweepOf_tokens]
  rcases reserve_cases hop with ⟨hadmitted, -, -, hwrite, -, -⟩ | ⟨hshed, hwrite, -, -⟩
  · rw [hwrite.tpm, hadmitted]
    rfl
  · rw [hwrite.tpm, hshed]
    rfl

/-- A commit that is no replay stores the balance it reads, adjusted for its id. -/
theorem settle_balance {actual : NNRat} (hop : r.op.settles? = some (rid, actual))
    (hfirst : answeredDuplicate (handle s r).2 = false) :
    (step s r).tpm.get = some
      (min (balanceAt r.policy r.now s + adjustment rid s r) r.policy.tokensPerMinute) := by
  cases hmarker : s.settled rid with
  | some marker =>
      rw [(settle_duplicate hop hmarker).1] at hfirst
      cases hfirst
  | none =>
      obtain ⟨-, settled, stats, hstep⟩ := settle_cases hop hmarker
      have hmoved : adjustment rid s r = heldFor rid s - actual := by
        simp [adjustment_settles hop, hfirst]
      rw [hstep, hmoved]
      rfl

/-- The adjustments of a call are those that the scripts apply.  A reserve stores the balance
it reads, adjusted for the ids it sweeps and then for its own; a commit or a release that is no
replay stores the balance it reads, adjusted for its id. -/
def Adjusts (s : PairState Rid) (r : Request Rid) : Prop :=
  (∀ rid (tokens slo : NNRat), r.op = .reserve rid tokens slo →
    (step s r).tpm.get = some
      (min (balanceAt r.policy r.now s +
          ((s.leases.rangeByScore r.now reclaimBatch).map fun k => sweptFor k s r).sum)
        r.policy.tokensPerMinute - if admitted (handle s r).2 then (tokens : Rat) else 0)) ∧
  ∀ rid (actual : NNRat), r.op.settles? = some (rid, actual) →
    answeredDuplicate (handle s r).2 = false →
    (step s r).tpm.get = some
      (min (balanceAt r.policy r.now s + adjustment rid s r) r.policy.tokensPerMinute)

theorem adjusts (s : PairState Rid) (r : Request Rid) : Adjusts s r :=
  ⟨fun _ _ _ hop => reserve_balance hop, fun _ _ hop hfirst => settle_balance hop hfirst⟩

end Balance

/-! ## Whole runs -/

/-- Every reserve draws an id that no earlier call has named. -/
def FreshIds (calls : List (Request Rid)) : Prop :=
  calls.Pairwise fun earlier later =>
    ∀ rid tokens slo, later.op = .reserve rid tokens slo → earlier.op.rid? ≠ some rid

/-- The server stores the settled marker of every commit. -/
def MarkersKept (calls : List (Request Rid)) : Prop :=
  ∀ r ∈ calls, (acceptedTtl r.clock r.idempotencyTtl).isSome

/-- No call of the list commits or releases `rid`. -/
def Unsettled (rid : Rid) (calls : List (Request Rid)) : Prop :=
  ∀ r ∈ calls, ∀ actual, r.op.settles? ≠ some (rid, actual)

/-- No call of the list reserves under `rid`. -/
def Unreserved (rid : Rid) (calls : List (Request Rid)) : Prop :=
  ∀ r ∈ calls, ∀ tokens slo, r.op ≠ .reserve rid tokens slo

section Run

variable {rid : Rid} {s : PairState Rid} {p : Phase} {calls : List (Request Rid)}

omit [LinearOrder Rid] in
theorem rid?_ne_of_quiet {r : Request Rid} (hreserve : ∀ tokens slo, r.op ≠ .reserve rid tokens slo)
    (hsettle : ∀ actual, r.op.settles? ≠ some (rid, actual)) : r.op.rid? ≠ some rid := by
  intro hnames
  rcases op_cases r.op with ⟨rid', tokens, slo, hop⟩ | ⟨rid', actual, hop⟩ | hop
  · rw [hop] at hnames
    cases hnames
    exact hreserve tokens slo hop
  · rw [rid?_of_settles hop] at hnames
    cases hnames
    exact hsettle actual hop
  · rw [hop] at hnames
    cases hnames

/-- Calls that do not name an id at most sweep it. -/
theorem quiet_run (hquiet : ∀ r ∈ calls, r.op.rid? ≠ some rid) (hkept : MarkersKept calls)
    (h : Tracks rid s p) :
    ∃ q, Tracks rid (run step s calls) q ∧
      q.moved = p.moved + tally step (adjustment rid) s calls ∧ SweptTo p q := by
  induction calls generalizing s p with
  | nil => exact ⟨p, h, by simp, .stay p⟩
  | cons r rs ih =>
      obtain ⟨hr, hrs⟩ := List.forall_mem_cons.mp hquiet
      obtain ⟨hidem, hidems⟩ := List.forall_mem_cons.mp hkept
      obtain ⟨q, hq, hmoved, hswept⟩ := quiet_step hr hidem h
      obtain ⟨q', hq', hmoved', hswept'⟩ := ih hrs hidems hq
      refine ⟨q', hq', ?_, hswept.trans hswept'⟩
      rw [hmoved', hmoved, tally_cons, add_assoc]

/-- Once settled, an id stays settled and nothing more is moved for it. -/
theorem settled_run {a : Rat} (hunreserved : Unreserved rid calls) (hkept : MarkersKept calls)
    (h : Tracks rid s (.settled a)) :
    Tracks rid (run step s calls) (.settled a) ∧ tally step (adjustment rid) s calls = 0 := by
  induction calls generalizing s with
  | nil => exact ⟨h, rfl⟩
  | cons r rs ih =>
      obtain ⟨hr, hrs⟩ := List.forall_mem_cons.mp hunreserved
      obtain ⟨hidem, hidems⟩ := List.forall_mem_cons.mp hkept
      have hstep : Tracks rid (step s r) (.settled a) ∧ adjustment rid s r = 0 := by
        -- A later commit of the id is a replay; any other call cannot reach it.
        by_cases hsettle : ∃ actual, r.op.settles? = some (rid, actual)
        · obtain ⟨actual, hop⟩ := hsettle
          obtain ⟨hsame, hmoved⟩ := settle_replay hop h
          exact ⟨by rw [hsame]; exact h, hmoved⟩
        · have hquiet := rid?_ne_of_quiet hr fun actual hop => hsettle ⟨actual, hop⟩
          obtain ⟨q, hq, hmoved, hswept⟩ := quiet_step hquiet hidem h
          obtain rfl := hswept.of_settled
          exact ⟨hq, by linarith⟩
      obtain ⟨hrun, htally⟩ := ih hrs hidems hstep.1
      exact ⟨hrun, by rw [tally_cons, hstep.2, htally, add_zero]⟩

/-- The invariant of every run: each id is in one phase, and only an idle id is
still to be reserved. -/
theorem tracks_run (hfresh : FreshIds calls) (hkept : MarkersKept calls)
    (h : Tracks rid s p) (hstart : p = .idle ∨ Unreserved rid calls) :
    ∃ q, Tracks rid (run step s calls) q := by
  induction calls generalizing s p with
  | nil => exact ⟨p, h⟩
  | cons r rs ih =>
      obtain ⟨hlater, hfreshs⟩ := List.pairwise_cons.mp hfresh
      obtain ⟨hidem, hidems⟩ := List.forall_mem_cons.mp hkept
      -- A call that names the id is its one reserve, or settles it.
      by_cases hnames : r.op.rid? = some rid
      · have hrest : Unreserved rid rs := fun c hc tokens slo hop =>
          hlater c hc rid tokens slo hop hnames
        have hstep : ∃ q, Tracks rid (step s r) q := by
          rcases op_cases r.op with ⟨rid', tokens, slo, hop⟩ | ⟨rid', actual, hop⟩ | hop
          · rw [hop] at hnames
            cases hnames
            rcases hstart with rfl | hunreserved
            · rcases reserve_own hop h with ⟨-, hq, -⟩ | ⟨-, hq, -⟩
              · exact ⟨_, hq⟩
              · exact ⟨_, hq⟩
            · exact absurd hop (hunreserved r List.mem_cons_self tokens slo)
          · rw [rid?_of_settles hop] at hnames
            cases hnames
            by_cases hfirst : ∃ a, p = .settled a
            · obtain ⟨a, rfl⟩ := hfirst
              exact ⟨_, by rw [(settle_replay hop h).1]; exact h⟩
            · exact ⟨_, (settle_own hop hidem h fun a ha => hfirst ⟨a, ha⟩).2⟩
          · rw [hop] at hnames
            cases hnames
        obtain ⟨q, hq⟩ := hstep
        exact ih hfreshs hidems hq (Or.inr hrest)
      · obtain ⟨q, hq, -, hswept⟩ := quiet_step hnames hidem h
        refine ih hfreshs hidems hq ?_
        rcases hstart with rfl | hunreserved
        · exact Or.inl hswept.of_idle
        · exact Or.inr fun c hc => hunreserved c (List.mem_cons_of_mem r hc)

end Run

section Lifecycle

variable {before mid after calls : List (Request Rid)} {r c : Request Rid} {rid : Rid}

theorem tracks_empty (rid : Rid) : Tracks rid (PairState.empty : PairState Rid) .idle :=
  ⟨rfl, rfl, rfl⟩

/-- In every reachable state every id is in some phase. -/
theorem tracks_reachable (hfresh : FreshIds calls) (hkept : MarkersKept calls) (rid : Rid) :
    ∃ p, Tracks rid (run step .empty calls) p :=
  tracks_run hfresh hkept (tracks_empty rid) (Or.inl rfl)

omit [LinearOrder Rid] in
/-- An id is named by no call before the reserve that draws it. -/
theorem FreshIds.named_before (hfresh : FreshIds (before ++ r :: after)) {tokens slo : NNRat}
    (hop : r.op = .reserve rid tokens slo) : ∀ e ∈ before, e.op.rid? ≠ some rid := by
  intro e he
  exact (List.pairwise_append.mp hfresh).2.2 e he r List.mem_cons_self rid tokens slo hop

omit [LinearOrder Rid] in
/-- An id is reserved by no call after the one that drew it. -/
theorem FreshIds.reserved_after (hfresh : FreshIds (before ++ r :: after)) {tokens slo : NNRat}
    (hop : r.op = .reserve rid tokens slo) : Unreserved rid after := by
  intro e he tokens' slo' hop'
  have hlater := (List.pairwise_cons.mp (List.pairwise_append.mp hfresh).2.1).1 e he
  exact hlater rid tokens' slo' hop' (by rw [hop]; rfl)

/-- In every phase an id has a lease just when it has a hold. -/
theorem Tracks.lease_iff_hold {s : PairState Rid} {p : Phase} (h : Tracks rid s p) :
    (∃ deadline, s.leases.get rid = some deadline) ↔
      ∃ held, s.reservations.get rid = some held := by
  cases p with
  | idle => simp [h.1, h.2.1]
  | inFlight held => exact iff_of_true h.1 ⟨held, h.2.1⟩
  | settled actual => simp [h.1, h.2.1]

/-- An id with a settled marker has neither. -/
theorem Tracks.free_of_marker {s : PairState Rid} {p : Phase} (h : Tracks rid s p)
    {marker : Timed Rat} (hmarker : s.settled rid = some marker) :
    s.leases.get rid = none ∧ s.reservations.get rid = none := by
  cases p with
  | idle => exact ⟨h.1, h.2.1⟩
  | inFlight held =>
      rw [h.2.2] at hmarker
      cases hmarker
  | settled actual => exact ⟨h.1, h.2.1⟩

/-- Only a reserve is admitted, and it leaves no more leases than there is room for. -/
theorem card_le_after_admission {s : PairState Rid} (hadmitted : admitted (handle s r).2 = true) :
    (step s r).leases.card ≤ r.policy.maxConcurrency + r.policy.maxQueueDepth := by
  rcases op_cases r.op with ⟨rid, tokens, slo, hop⟩ | ⟨rid, actual, hop⟩ | hop
  · rcases reserve_cases (s := s) hop with ⟨-, -, hroom, -, hleases, -⟩ | ⟨hshed, -⟩
    · rw [hleases, Collection.card_expire]
      exact (Collection.card_put_le _ _ _).trans hroom
    · rw [hshed] at hadmitted
      cases hadmitted
  · obtain ⟨serviceMs, outputTokens, hhandle⟩ := handle_of_settles (s := s) hop
    rw [hhandle] at hadmitted
    cases hadmitted
  · unfold handle at hadmitted
    rw [hop] at hadmitted
    cases hadmitted

/-- Right after its admission an id is in flight with what it asked for, and
nothing but the deduction has been moved for it. -/
theorem in_flight_after_admission (hbefore : ∀ e ∈ before, e.op.rid? ≠ some rid)
    (hkept : MarkersKept (before ++ [r])) {tokens slo : NNRat}
    (hop : r.op = .reserve rid tokens slo)
    (hadmitted : admitted (handle (run step .empty before) r).2 = true) :
    Tracks rid (run step .empty (before ++ [r])) (.inFlight tokens) ∧
      tally step (adjustment rid) .empty (before ++ [r]) = -tokens := by
  have hkeptBefore : MarkersKept before := fun e he => hkept e (List.mem_append_left _ he)
  obtain ⟨q, hq, hmoved, hswept⟩ := quiet_run hbefore hkeptBefore (tracks_empty rid)
  obtain rfl := hswept.of_idle
  rcases reserve_own hop hq with ⟨-, htracks, hadjust⟩ | ⟨hshed, -, -⟩
  · refine ⟨by simpa using htracks, ?_⟩
    have hnone : tally step (adjustment rid) .empty before = 0 := by
      simpa [Phase.moved] using hmoved.symm
    simp [hnone, hadjust]
  · rw [hshed] at hadmitted
    cases hadmitted

/-- While no commit names an admitted id it is in flight with its hold, or swept. -/
theorem quiet_after_admission (hreserved : Unreserved rid mid) (hunsettled : Unsettled rid mid)
    (hbefore : ∀ e ∈ before, e.op.rid? ≠ some rid) (hkept : MarkersKept (before ++ r :: mid))
    {tokens slo : NNRat} (hop : r.op = .reserve rid tokens slo)
    (hadmitted : admitted (handle (run step .empty before) r).2 = true) :
    ∃ q, Tracks rid (run step .empty (before ++ r :: mid)) q ∧
      tally step (adjustment rid) .empty (before ++ r :: mid) = q.moved ∧
      SweptTo (.inFlight tokens) q := by
  have hsplit : before ++ r :: mid = (before ++ [r]) ++ mid := by simp
  rw [hsplit] at hkept ⊢
  obtain ⟨htracks, hadjust⟩ := in_flight_after_admission hbefore
    (fun e he => hkept e (List.mem_append_left _ he)) hop hadmitted
  have hquiet : ∀ e ∈ mid, e.op.rid? ≠ some rid := fun e he =>
    rid?_ne_of_quiet (hreserved e he) (hunsettled e he)
  obtain ⟨q, hq, hmoved, hswept⟩ :=
    quiet_run hquiet (fun e he => hkept e (List.mem_append_right _ he)) htracks
  refine ⟨q, ?_, ?_, hswept⟩
  · rw [run_append]
    exact hq
  · rw [tally_append, hadjust, hmoved]
    rfl

/-- The first commit that names an admitted id, swept or not, settles it: all
that has been moved for it by then is its usage. -/
theorem settled_after_commit (hreserved : Unreserved rid mid) (hunsettled : Unsettled rid mid)
    (hbefore : ∀ e ∈ before, e.op.rid? ≠ some rid)
    (hkept : MarkersKept (before ++ r :: mid ++ [c]))
    {tokens slo actual : NNRat} (hop : r.op = .reserve rid tokens slo)
    (hadmitted : admitted (handle (run step .empty before) r).2 = true)
    (hsettle : c.op.settles? = some (rid, actual)) :
    Tracks rid (run step .empty (before ++ r :: mid ++ [c])) (.settled actual) ∧
      tally step (adjustment rid) .empty (before ++ r :: mid ++ [c]) = -actual := by
  obtain ⟨q, hq, htally, hswept⟩ := quiet_after_admission hreserved hunsettled hbefore
    (fun e he => hkept e (List.mem_append_left _ he)) hop hadmitted
  -- nothing but the sweep has touched the id, so this commit is its first
  have hfirst : ∀ a, q ≠ .settled a := by
    rintro a rfl
    cases hswept
  have hidem := hkept c (List.mem_append_right _ List.mem_cons_self)
  obtain ⟨hadvance, htracks⟩ := settle_own hsettle hidem hq hfirst
  refine ⟨by simpa using htracks, ?_⟩
  rw [tally_append, htally, tally_cons, tally_nil, add_zero, ← hadvance.moved]
  rfl

/-- **The life of a reservation.**  In every run whose reserves draw fresh ids
and whose markers the server keeps: leases and holds are of the same ids, and of
no settled one; an admission leaves no more leases than the policy has slots and
queue places; and what is moved into the balance for an admitted id is minus its
hold while it is in flight, nothing once it is swept, and minus the usage of the
first commit from that commit on, after which no commit of the id changes a key.
What a call moves for the ids is what it adds to the balance it stores. -/
theorem reservation_lifecycle (calls : List (Request Rid)) (hfresh : FreshIds calls)
    (hkept : MarkersKept calls) :
    (∀ rid, (∃ deadline, (run step .empty calls).leases.get rid = some deadline) ↔
      ∃ held, (run step .empty calls).reservations.get rid = some held) ∧
    (∀ rid marker, (run step .empty calls).settled rid = some marker →
      (run step .empty calls).leases.get rid = none ∧
        (run step .empty calls).reservations.get rid = none) ∧
    (∀ before r after, calls = before ++ r :: after →
      admitted (handle (run step .empty before) r).2 = true →
      (run step .empty (before ++ [r])).leases.card ≤
        r.policy.maxConcurrency + r.policy.maxQueueDepth) ∧
    (∀ before r after, calls = before ++ r :: after → Adjusts (run step .empty before) r) ∧
    (∀ before r after rid (tokens slo : NNRat), calls = before ++ r :: after →
      r.op = .reserve rid tokens slo →
      admitted (handle (run step .empty before) r).2 = true →
      (Unsettled rid after →
        ((∃ deadline, (run step .empty calls).leases.get rid = some deadline) ∧
          (run step .empty calls).reservations.get rid = some (tokens : Rat) ∧
          tally step (adjustment rid) .empty calls = -tokens) ∨
        ((run step .empty calls).leases.get rid = none ∧
          (run step .empty calls).reservations.get rid = none ∧
          tally step (adjustment rid) .empty calls = 0)) ∧
      ∀ mid c tail (actual : NNRat), after = mid ++ c :: tail → Unsettled rid mid →
        c.op.settles? = some (rid, actual) →
        tally step (adjustment rid) .empty calls = -actual ∧
        ∀ mid' c' tail' actual', tail = mid' ++ c' :: tail' →
          c'.op.settles? = some (rid, actual') →
          run step .empty (before ++ r :: mid ++ c :: mid' ++ [c']) =
            run step .empty (before ++ r :: mid ++ c :: mid')) := by
  refine ⟨?_, ?_, ?_, ?_, ?_⟩
  · intro rid
    obtain ⟨p, hp⟩ := tracks_reachable hfresh hkept rid
    exact hp.lease_iff_hold
  · intro rid marker hmarker
    obtain ⟨p, hp⟩ := tracks_reachable hfresh hkept rid
    exact hp.free_of_marker hmarker
  · intro before r after _ hadmitted
    rw [run_append]
    exact card_le_after_admission hadmitted
  · intro before r after _
    exact adjusts _ r
  · rintro before r after rid tokens slo rfl hop hadmitted
    have hbefore := hfresh.named_before hop
    have hafter := hfresh.reserved_after hop
    refine ⟨?_, ?_⟩
    · intro hunsettled
      obtain ⟨q, hq, htally, hswept⟩ :=
        quiet_after_admission hafter hunsettled hbefore hkept hop hadmitted
      cases hswept with
      | stay => exact Or.inl ⟨hq.1, hq.2.1, htally⟩
      | sweep held => exact Or.inr ⟨hq.1, hq.2.1, htally⟩
    · rintro mid c tail actual rfl hunsettled hsettle
      have hmid : Unreserved rid mid := fun e he => hafter e (List.mem_append_left _ he)
      have htail : Unreserved rid tail := fun e he =>
        hafter e (List.mem_append_right _ (List.mem_cons_of_mem c he))
      have hsplit : before ++ r :: (mid ++ c :: tail) = before ++ r :: mid ++ [c] ++ tail := by
        simp
      rw [hsplit] at hkept ⊢
      obtain ⟨htracks, htally⟩ := settled_after_commit hmid hunsettled hbefore
        (fun e he => hkept e (List.mem_append_left _ he)) hop hadmitted hsettle
      refine ⟨?_, ?_⟩
      · rw [tally_append, htally,
          (settled_run htail (fun e he => hkept e (List.mem_append_right _ he)) htracks).2,
          add_zero]
      · rintro mid' c' tail' actual' rfl hsettle'
        have hsplit' : before ++ r :: mid ++ c :: mid' =
            before ++ r :: mid ++ [c] ++ mid' := by simp
        have hsettled := (settled_run (fun e he => htail e (List.mem_append_left _ he))
          (fun e he => hkept e
            (List.mem_append_right _ (List.mem_append_left _ he))) htracks).1
        rw [hsplit', run_append step _ _ [c'], run_cons, run_nil, run_append]
        exact (settle_replay hsettle' hsettled).1

/-- One reservation, committed and committed again. -/
theorem reservation_lifecycle_commit_twice :
    tally step (adjustment 7) .empty
        [callAt defaultLimits 0 (.reserve 7 500 0), callAt defaultLimits 1000 (.commit 7 400 0 0),
          callAt defaultLimits 2000 (.commit 7 900 0 0)] = -((400 : NNRat) : Rat) ∧
      run step .empty ([] ++ callAt defaultLimits 0 (.reserve 7 500 0) :: [] ++
          callAt defaultLimits 1000 (.commit 7 400 0 0) :: [] ++
          [callAt defaultLimits 2000 (.commit 7 900 0 0)]) =
        run step .empty ([] ++ callAt defaultLimits 0 (.reserve 7 500 0) :: [] ++
          callAt defaultLimits 1000 (.commit 7 400 0 0) :: []) := by
  have hcalls := reservation_lifecycle
    [callAt defaultLimits 0 (.reserve (7 : Nat) 500 0),
      callAt defaultLimits 1000 (.commit 7 400 0 0), callAt defaultLimits 2000 (.commit 7 900 0 0)]
    (by simp [FreshIds, callAt]) (by simp only [MarkersKept, callAt]; decide +kernel)
  have hsettled := (hcalls.2.2.2.2 [] (callAt defaultLimits 0 (.reserve 7 500 0))
    [callAt defaultLimits 1000 (.commit 7 400 0 0), callAt defaultLimits 2000 (.commit 7 900 0 0)]
    7 500 0 rfl rfl (by decide +kernel)).2 [] (callAt defaultLimits 1000 (.commit 7 400 0 0))
    [callAt defaultLimits 2000 (.commit 7 900 0 0)] 400 rfl (by simp [Unsettled]) rfl
  exact ⟨hsettled.1, hsettled.2 [] (callAt defaultLimits 2000 (.commit 7 900 0 0)) [] 900 rfl rfl⟩

end Lifecycle

end RateLimiter.Admission
