import RateLimiter.Admission.Calls
import RateLimiter.Admission.Estimator
import RateLimiter.Foundations.Sweeping
import RateLimiter.Redis.Numbers

/-!
# The scripts on keys that never expire

`estimateReservation`, `ADMIT_SCRIPT` and `COMMIT_SCRIPT` once more, with every operation
rounded, on a server that loses no key: nothing is left of the times to live, and the
caller's `now` need not be whole.  Holds and deadlines are stored as they are; whatever goes
through `tostring` is stored as its text.  At whole times and where nothing is rounded these
are the scripts as they stand, which the end of the module shows.
-/

namespace RateLimiter.Admission

open RateLimiter.Redis RateLimiter.Javascript RateLimiter.Foundations

namespace Untimed

/-- What the keys of a pair hold. -/
structure State (Rid : Type) where
  tpm : Option Rat
  tpmTs : Option Rat
  rpm : Option Rat
  rpmTs : Option Rat
  leases : Collection Rid Rat
  reservations : Hash Rid Rat
  stats : Hash StatField Rat
  settled : Rid → Option Rat

/-- No key of the pair exists. -/
def empty {Rid : Type} : State Rid where
  tpm := none
  tpmTs := none
  rpm := none
  rpmTs := none
  leases := .absent
  reservations := .absent
  stats := .absent
  settled := fun _ => none

/-- `estimateReservation`. -/
def estimateReservation (num : Arithmetic) (p : Limits)
    (promptTokens maxOutputTokens observedOutputEwma : Rat) : ReservationEstimate Rat :=
  let worstCaseTokens := num.rnd (promptTokens + maxOutputTokens)
  match p.reservationMode with
  | .worstCase => ⟨worstCaseTokens, worstCaseTokens, .worstCase⟩
  | .adaptive =>
      if observedOutputEwma ≤ 0 then ⟨worstCaseTokens, worstCaseTokens, .coldStart⟩
      else
        let projected := ⌈num.rnd (observedOutputEwma * p.reservationSafetyFactor)⌉
        let output := min maxOutputTokens ((max projected 1 : Int) : Rat)
        ⟨num.rnd (promptTokens + output), worstCaseTokens, .observed⟩

/-- `refill`. -/
def refill (num : Arithmetic) (now : Rat) (bal ts : Option Rat) (capacity rate : Rat) : Rat :=
  match bal, ts with
  | some bal, some ts =>
      let seconds := num.rnd (max 0 (num.rnd (now - ts)) / 1000)
      min (num.rnd (bal + num.rnd (seconds * rate))) capacity
  | _, _ => capacity

/-! ## `ADMIT_SCRIPT` -/

structure AdmitCall (Rid : Type) where
  now : Rat
  tpmLimit : Rat
  tpmRate : Rat
  rpmLimit : Rat
  rpmRate : Rat
  reserve : Rat
  rid : Rid
  leaseMs : Rat
  maxConcurrency : Nat
  maxQueue : Nat
  sloTtftMs : Rat
  reclaimBatch : Nat
  defaultSvcMs : Rat

section Admit

variable (num : Arithmetic) {Rid : Type} [LinearOrder Rid]

/-- The order of the leases: by deadline, those of one deadline by name. -/
def scoreLe (a b : Σ _ : Rid, Rat) : Prop :=
  a.2 < b.2 ∨ a.2 = b.2 ∧ a.1 ≤ b.1

instance : DecidableRel (@scoreLe Rid _) :=
  fun a b => inferInstanceAs (Decidable (a.2 < b.2 ∨ a.2 = b.2 ∧ a.1 ≤ b.1))

/-- `ZRANGEBYSCORE leases -inf now LIMIT 0 count`. -/
def expired (now : Rat) (count : Nat) (leases : Collection Rid Rat) : List Rid :=
  (((leases.members.entries.filter fun entry => entry.2 ≤ now).insertionSort scoreLe).take
    count).map Sigma.fst

/-- The state of the reclaiming loop. -/
structure Sweep (Rid : Type) where
  leases : Collection Rid Rat
  reservations : Hash Rid Rat
  tokens : Rat
  count : Nat

/-- The body of the reclaiming loop. -/
def reclaimOne (sweep : Sweep Rid) (rid : Rid) : Sweep Rid :=
  match sweep.reservations.get rid with
  | some held =>
      { leases := sweep.leases.del rid
        reservations := sweep.reservations.del rid
        tokens := num.rnd (sweep.tokens + held)
        count := sweep.count + 1 }
  | none =>
      { sweep with
        leases := sweep.leases.del rid
        count := sweep.count + 1 }

/-- Phase 1: reclaim leases whose owner never came back. -/
def reclaim (now : Rat) (batch : Nat) (s : State Rid) : Sweep Rid :=
  (expired now batch s.leases).foldl (reclaimOne num) ⟨s.leases, s.reservations, 0, 0⟩

def tpmBalance (a : AdmitCall Rid) (s : State Rid) : Rat :=
  min (num.rnd (refill num a.now s.tpm s.tpmTs a.tpmLimit a.tpmRate +
    (reclaim num a.now a.reclaimBatch s).tokens)) a.tpmLimit

def rpmBalance (a : AdmitCall Rid) (s : State Rid) : Rat :=
  refill num a.now s.rpm s.rpmTs a.rpmLimit a.rpmRate

def avgSvc (a : AdmitCall Rid) (s : State Rid) : Rat :=
  (s.stats.get .svcMs).getD a.defaultSvcMs

def predictedWait (a : AdmitCall Rid) (inflight : Nat) (avg : Rat) : Int :=
  if a.maxConcurrency ≤ inflight then
    ⌈num.rnd (num.rnd (((inflight : Rat) + 1 - a.maxConcurrency) / a.maxConcurrency) * avg)⌉
  else 0

/-- The chain of checks. -/
def decideAdmission (a : AdmitCall Rid) (tpmBal rpmBal avg : Rat) (inflight : Nat) : Decision :=
  if a.reserve > a.tpmLimit then .shed .unsatisfiable 0
  else if rpmBal < 1 then
    .shed .rpmExhausted ⌈num.rnd (num.rnd (num.rnd (1 - rpmBal) / a.rpmRate) * 1000)⌉
  else if tpmBal < a.reserve then
    .shed .tpmExhausted ⌈num.rnd (num.rnd (num.rnd (a.reserve - tpmBal) / a.tpmRate) * 1000)⌉
  else if inflight ≥ a.maxConcurrency + a.maxQueue then .shed .queueFull ⌈avg⌉
  else if a.sloTtftMs > 0 ∧ (predictedWait num a inflight avg : Rat) > a.sloTtftMs then
    .shed .sloInfeasible ⌈avg⌉
  else .admitted

/-- `ADMIT_SCRIPT`. -/
def admitScript (a : AdmitCall Rid) (s : State Rid) : State Rid × AdmitReply :=
  let swept := reclaim num a.now a.reclaimBatch s
  let tpmBal := tpmBalance num a s
  let rpmBal := rpmBalance num a s
  let inflight := swept.leases.card
  let avg := avgSvc a s
  match decideAdmission num a tpmBal rpmBal avg inflight with
  | .admitted =>
      ({ s with
          tpm := some (num.text (num.rnd (tpmBal - a.reserve)))
          tpmTs := some (num.text a.now)
          rpm := some (num.text (num.rnd (rpmBal - 1)))
          rpmTs := some (num.text a.now)
          leases := swept.leases.put a.rid (num.rnd (a.now + a.leaseMs))
          reservations := swept.reservations.put a.rid a.reserve },
        { decision := .admitted
          reserved := replyInteger a.reserve
          tokensRemaining := ⌊num.rnd (tpmBal - a.reserve)⌋
          requestsRemaining := ⌊num.rnd (rpmBal - 1)⌋
          inflight := inflight + 1
          predictedWaitMs := predictedWait num a inflight avg
          reclaimed := swept.count })
  | .shed reason retryAfterMs =>
      ({ s with
          tpm := some (num.text tpmBal)
          tpmTs := some (num.text a.now)
          rpm := some (num.text rpmBal)
          rpmTs := some (num.text a.now)
          leases := swept.leases
          reservations := swept.reservations },
        { decision := .shed reason retryAfterMs
          reserved := replyInteger a.reserve
          tokensRemaining := ⌊tpmBal⌋
          requestsRemaining := ⌊rpmBal⌋
          inflight := inflight
          predictedWaitMs := predictedWait num a inflight avg
          reclaimed := swept.count })

end Admit

/-! ## `COMMIT_SCRIPT` -/

structure CommitCall (Rid : Type) where
  now : Rat
  rid : Rid
  actual : Rat
  tpmLimit : Rat
  serviceMs : Rat
  outputTokens : Rat
  alpha : Rat

section Commit

variable (num : Arithmetic) {Rid : Type} [LinearOrder Rid]

def currentBalance (a : CommitCall Rid) (s : State Rid) : Rat :=
  refill num a.now s.tpm s.tpmTs a.tpmLimit (num.rnd (a.tpmLimit / 60))

/-- `next_val`. -/
def ewma (alpha sample : Rat) (prev : Option Rat) : Rat :=
  match prev with
  | some prev => num.rnd (num.rnd (alpha * sample) + num.rnd (num.rnd (1 - alpha) * prev))
  | none => sample

def observeService (alpha serviceMs : Rat) (stats : Hash StatField Rat) : Hash StatField Rat :=
  if serviceMs > 0 then
    stats.put .svcMs (num.text (ewma num alpha serviceMs (stats.get .svcMs)))
  else stats

def observeOutput (alpha outputTokens : Rat) (stats : Hash StatField Rat) :
    Hash StatField Rat :=
  if outputTokens > 0 then
    let averaged :=
      stats.put .outTokens (num.text (ewma num alpha outputTokens (stats.get .outTokens)))
    if outputTokens > (averaged.get .outPeak).getD 0 then
      averaged.put .outPeak (num.text outputTokens)
    else averaged
  else stats

/-- `COMMIT_SCRIPT`. -/
def commitScript (a : CommitCall Rid) (s : State Rid) : State Rid × CommitReply :=
  match s.settled a.rid with
  | some settledRefund =>
      (s,
        { status := .duplicateIgnored
          refundedTokens := ⌊settledRefund⌋
          tokensRemaining := ⌊currentBalance num a s⌋
          inflight := s.leases.card })
  | none =>
      let held := s.reservations.get a.rid
      let leases := if held.isSome then s.leases.del a.rid else s.leases
      let reservations := if held.isSome then s.reservations.del a.rid else s.reservations
      let refund := num.rnd (held.getD 0 - a.actual)
      let bal := min (num.rnd (currentBalance num a s + refund)) a.tpmLimit
      ({ s with
          tpm := some (num.text bal)
          tpmTs := some (num.text a.now)
          leases := leases
          reservations := reservations
          stats := observeOutput num a.alpha a.outputTokens
            (observeService num a.alpha a.serviceMs s.stats)
          settled := Function.update s.settled a.rid (some (num.text refund)) },
        { status := if held.isSome then .committed else .reconciledAfterExpiry
          refundedTokens := ⌊refund⌋
          tokensRemaining := ⌊bal⌋
          inflight := leases.card })

end Commit

/-! ## The calls of the service -/

section Calls

variable (num : Arithmetic) {Rid : Type}

/-- The arguments `reserve` passes to `ADMIT_SCRIPT`. -/
def reserveCall (p : Limits) (now : Rat) (rid : Rid) (reserveTokens sloTtftMs : Rat) :
    AdmitCall Rid where
  now := now
  tpmLimit := p.tokensPerMinute
  tpmRate := num.rnd (p.tokensPerMinute / 60)
  rpmLimit := p.requestsPerMinute
  rpmRate := num.rnd (p.requestsPerMinute / 60)
  reserve := reserveTokens
  rid := rid
  leaseMs := num.rnd (p.leaseSeconds * 1000)
  maxConcurrency := p.maxConcurrency
  maxQueue := p.maxQueueDepth
  sloTtftMs := sloTtftMs
  reclaimBatch := reclaimBatch
  defaultSvcMs := coldStartServiceMs

/-- The arguments `commit` passes to `COMMIT_SCRIPT`. -/
def settleCall (p : Limits) (now : Rat) (rid : Rid)
    (promptTokens outputTokens serviceMs : Rat) : CommitCall Rid where
  now := now
  rid := rid
  actual := num.rnd (promptTokens + outputTokens)
  tpmLimit := p.tokensPerMinute
  serviceMs := serviceMs
  outputTokens := outputTokens
  alpha := num.rnd ewmaAlpha

end Calls

/-! ## What a sweep does -/

section Sweep

variable {Rid : Type} [LinearOrder Rid]

theorem nodup_expired (now : Rat) (count : Nat) (leases : Collection Rid Rat) :
    (expired now count leases).Nodup := by
  have hfilter : (leases.members.entries.filter fun entry => entry.2 ≤ now).NodupKeys :=
    leases.members.nodupKeys.sublist List.filter_sublist
  have hsort : ((leases.members.entries.filter fun entry => entry.2 ≤ now).insertionSort
      scoreLe).NodupKeys :=
    (List.perm_nodupKeys (List.perm_insertionSort _ _)).mpr hfilter
  exact hsort.sublist (List.take_sublist _ _)

/-- While there are no more leases than a sweep takes, it lists all that are due. -/
theorem mem_expired {now : Rat} {count : Nat} {leases : Collection Rid Rat} {k : Rid}
    (hfew : leases.card ≤ count) :
    k ∈ expired now count leases ↔ ∃ deadline, leases.get k = some deadline ∧ deadline ≤ now := by
  have hlength : ((leases.members.entries.filter fun entry => entry.2 ≤ now).insertionSort
      scoreLe).length ≤ count := by
    rw [List.length_insertionSort]
    exact (List.length_filter_le _ _).trans hfew
  unfold expired
  rw [List.take_of_length_le hlength, List.mem_map]
  constructor
  · rintro ⟨⟨k', deadline⟩, hmem, rfl⟩
    rw [List.mem_insertionSort, List.mem_filter] at hmem
    exact ⟨deadline, List.mem_dlookup leases.members.nodupKeys hmem.1, by simpa using hmem.2⟩
  · rintro ⟨deadline, hget, hdue⟩
    refine ⟨⟨k, deadline⟩, ?_, rfl⟩
    rw [List.mem_insertionSort, List.mem_filter]
    exact ⟨List.of_mem_dlookup hget, by simpa using hdue⟩

theorem reclaimOne_leases (num : Arithmetic) (sweep : Sweep Rid) (rid : Rid) :
    (reclaimOne num sweep rid).leases = sweep.leases.del rid := by
  unfold reclaimOne
  split <;> rfl

theorem reclaimOne_lease (num : Arithmetic) (sweep : Sweep Rid) (rid k : Rid) :
    (reclaimOne num sweep rid).leases.get k = if k = rid then none else sweep.leases.get k := by
  rw [reclaimOne_leases]
  by_cases hk : k = rid
  · simp [hk]
  · simp [hk, Collection.get_del_of_ne hk]

theorem reclaimOne_hold (num : Arithmetic) (sweep : Sweep Rid) (rid k : Rid) :
    (reclaimOne num sweep rid).reservations.get k =
      if k = rid then none else sweep.reservations.get k := by
  unfold reclaimOne
  split
  next held hheld =>
    by_cases hk : k = rid
    · simp [hk]
    · simp [hk, Collection.get_del_of_ne hk]
  next hnone =>
    by_cases hk : k = rid
    · simp [hk, hnone]
    · simp [hk]

theorem reclaimOne_tokens (num : Arithmetic) (sweep : Sweep Rid) (rid : Rid) :
    (reclaimOne num sweep rid).tokens =
      num.gather sweep.tokens (sweep.reservations.get rid) := by
  unfold reclaimOne
  split
  next held hheld =>
    rw [hheld]
    rfl
  next hnone =>
    rw [hnone]
    rfl

variable (num : Arithmetic) (now : Rat) (batch : Nat) (s : State Rid)

theorem reclaim_lease (k : Rid) :
    (reclaim num now batch s).leases.get k =
      if k ∈ expired now batch s.leases then none else s.leases.get k :=
  foldl_taken (fun (sweep : Sweep Rid) k => sweep.leases.get k) (reclaimOne_lease num) _ _ k

theorem reclaim_hold (k : Rid) :
    (reclaim num now batch s).reservations.get k =
      if k ∈ expired now batch s.leases then none else s.reservations.get k :=
  foldl_taken (fun (sweep : Sweep Rid) k => sweep.reservations.get k) (reclaimOne_hold num) _ _ k

theorem card_reclaim_le : (reclaim num now batch s).leases.card ≤ s.leases.card := by
  refine foldl_le (fun sweep : Sweep Rid => sweep.leases.card) ?_ _ _
  intro sweep rid
  show (reclaimOne num sweep rid).leases.card ≤ sweep.leases.card
  rw [reclaimOne_leases]
  exact Collection.card_del_le _ _

theorem reclaim_tokens :
    (reclaim num now batch s).tokens =
      ((expired now batch s.leases).map fun id => s.reservations.get id).foldl num.gather 0 :=
  foldl_folded (fun (sweep : Sweep Rid) k => sweep.reservations.get k) Sweep.tokens num.gather
    (reclaimOne_hold num) (reclaimOne_tokens num) (nodup_expired now batch s.leases)
    ⟨s.leases, s.reservations, 0, 0⟩

end Sweep

/-! ## The two ways an admission ends -/

section Ends

variable {Rid : Type} [LinearOrder Rid]

/-- The verdict on a call. -/
def verdict (num : Arithmetic) (a : AdmitCall Rid) (s : State Rid) : Decision :=
  decideAdmission num a (tpmBalance num a s) (rpmBalance num a s) (avgSvc a s)
    (reclaim num a.now a.reclaimBatch s).leases.card

variable {num : Arithmetic} {a : AdmitCall Rid} {s : State Rid}

theorem admitScript_admitted (h : verdict num a s = .admitted) :
    (admitScript num a s).1 =
        { s with
          tpm := some (num.text (num.rnd (tpmBalance num a s - a.reserve)))
          tpmTs := some (num.text a.now)
          rpm := some (num.text (num.rnd (rpmBalance num a s - 1)))
          rpmTs := some (num.text a.now)
          leases := (reclaim num a.now a.reclaimBatch s).leases.put a.rid
            (num.rnd (a.now + a.leaseMs))
          reservations :=
            (reclaim num a.now a.reclaimBatch s).reservations.put a.rid a.reserve } := by
  unfold verdict at h
  unfold admitScript
  simp only [h]

theorem admitScript_shed {reason : ShedReason} {retryAfterMs : Int}
    (h : verdict num a s = .shed reason retryAfterMs) :
    (admitScript num a s).1 =
        { s with
          tpm := some (num.text (tpmBalance num a s))
          tpmTs := some (num.text a.now)
          rpm := some (num.text (rpmBalance num a s))
          rpmTs := some (num.text a.now)
          leases := (reclaim num a.now a.reclaimBatch s).leases
          reservations := (reclaim num a.now a.reclaimBatch s).reservations } := by
  unfold verdict at h
  unfold admitScript
  simp only [h]

/-- Either way it reports the verdict, what it held or would have held and the wait. -/
theorem admitScript_reports (num : Arithmetic) (a : AdmitCall Rid) (s : State Rid) :
    (admitScript num a s).2.decision = verdict num a s ∧
      (admitScript num a s).2.reserved = replyInteger a.reserve ∧
      (admitScript num a s).2.predictedWaitMs =
        predictedWait num a (reclaim num a.now a.reclaimBatch s).leases.card (avgSvc a s) := by
  unfold admitScript verdict
  dsimp only
  split
  next h => exact ⟨h.symm, rfl, rfl⟩
  next h => exact ⟨h.symm, rfl, rfl⟩

/-- An admitted call has found a place. -/
theorem inflight_of_admitted (h : verdict num a s = .admitted) :
    (reclaim num a.now a.reclaimBatch s).leases.card < a.maxConcurrency + a.maxQueue := by
  unfold verdict decideAdmission at h
  split at h
  · cases h
  split at h
  · cases h
  split at h
  · cases h
  split at h
  · cases h
  next hqueue => exact not_le.mp hqueue

end Ends

/-! ## The scripts at whole times -/

section Whole

variable {Rid : Type}

/-- What the keys of a pair hold, without their times to live. -/
def forget (s : PairState Rid) : State Rid where
  tpm := s.tpm.get
  tpmTs := s.tpmTs.get.map Int.cast
  rpm := s.rpm.get
  rpmTs := s.rpmTs.get.map Int.cast
  leases := s.leases.lasting Int.cast
  reservations := s.reservations.lasting id
  stats := s.stats.lasting id
  settled := fun rid => (s.settled rid).get

theorem forget_empty : forget (PairState.empty : PairState Rid) = empty := rfl

theorem refill_cast (now : Int) (bal : Option Rat) (ts : Option Int) (capacity rate : Rat) :
    refill .exact now bal (ts.map Int.cast) capacity rate =
      Admission.refill now bal ts capacity rate := by
  cases bal with
  | none => rfl
  | some bal =>
      cases ts with
      | none => rfl
      | some ts =>
          show min (bal + max 0 ((now : Rat) - ts) / 1000 * rate) capacity =
            min (bal + (max 0 (now - ts) : Int) / 1000 * rate) capacity
          push_cast
          rfl

variable [LinearOrder Rid]

theorem expired_cast (now : Int) (count : Nat) (leases : SortedSet Rid) :
    expired now count (leases.lasting Int.cast) = leases.rangeByScore now count := by
  have hdue : (leases.lasting (Int.cast : Int → Rat)).members.entries.filter
      (fun entry => entry.2 ≤ (now : Rat)) =
      (leases.members.entries.filter fun entry => entry.2 ≤ now).map
        fun entry => ⟨entry.1, entry.2⟩ := by
    show (leases.members.entries.map _).filter _ = _
    rw [List.filter_map]
    refine congrArg _ (List.filter_congr ?_)
    intro entry _
    simp
  unfold expired SortedSet.rangeByScore
  rw [hdue, ← List.map_insertionSort (r := SortedSet.scoreLe), ← List.map_take, List.map_map]
  · rfl
  · intro x _ y _
    unfold SortedSet.scoreLe scoreLe
    simp

/-- What the reclaiming loop has done, without the times to live. -/
def forgetSweep (sweep : Admission.Sweep Rid) : Sweep Rid where
  leases := sweep.state.leases.lasting Int.cast
  reservations := sweep.state.reservations.lasting id
  tokens := sweep.tokens
  count := sweep.count

theorem reclaimOne_forget (sweep : Admission.Sweep Rid) (rid : Rid) :
    reclaimOne .exact (forgetSweep sweep) rid = forgetSweep (Admission.reclaimOne sweep rid) := by
  have hheld : (forgetSweep sweep).reservations.get rid =
      sweep.state.reservations.get rid := by
    show (sweep.state.reservations.lasting id).get rid = _
    rw [Collection.get_lasting, Option.map_id_apply]
  unfold reclaimOne Admission.reclaimOne
  rw [hheld]
  unfold forgetSweep
  cases hget : sweep.state.reservations.get rid with
  | none => simp only [hget, Collection.lasting_del]
  | some held =>
      simp only [hget, Collection.lasting_del]
      rfl

theorem reclaim_forget (now : Int) (batch : Nat) (s : PairState Rid) :
    reclaim .exact now batch (forget s) = forgetSweep (Admission.reclaim now batch s) := by
  have hexpired : expired now batch (forget s).leases = s.leases.rangeByScore now batch :=
    expired_cast now batch s.leases
  unfold reclaim Admission.reclaim
  rw [hexpired]
  show List.foldl (reclaimOne .exact) (forgetSweep ⟨s, 0, 0⟩) _ = _
  exact List.foldl_hom forgetSweep reclaimOne_forget

/-- The arguments of an admission with a numeric size. -/
def admitCall (a : AdmitArgs Rid) (reserve : Rat) : AdmitCall Rid where
  now := a.now
  tpmLimit := a.tpmLimit
  tpmRate := a.tpmRate
  rpmLimit := a.rpmLimit
  rpmRate := a.rpmRate
  reserve := reserve
  rid := a.rid
  leaseMs := a.leaseMs
  maxConcurrency := a.maxConcurrency
  maxQueue := a.maxQueue
  sloTtftMs := a.sloTtftMs
  reclaimBatch := a.reclaimBatch
  defaultSvcMs := a.defaultSvcMs

/-- On a server that loses no key an admission at a whole time does what it does here. -/
theorem admitScript_forget (clock : Int) {a : AdmitArgs Rid} (s : PairState Rid) {reserve : Rat}
    (hreserve : a.reserve = some reserve) :
    ∃ s' reply, Admission.admitScript clock a s = (s', .ok reply) ∧
      admitScript .exact (admitCall a reserve) (forget s) = (forget s', reply) := by
  have hsweep :
      reclaim .exact (admitCall a reserve).now (admitCall a reserve).reclaimBatch (forget s) =
        forgetSweep (Admission.reclaim a.now a.reclaimBatch s) := reclaim_forget _ _ _
  have htpm : tpmBalance .exact (admitCall a reserve) (forget s) = Admission.tpmBalance a s := by
    unfold tpmBalance Admission.tpmBalance
    rw [hsweep]
    exact congrArg (fun bal => min (bal + _) _) (refill_cast _ _ _ _ _)
  have hrpm : rpmBalance .exact (admitCall a reserve) (forget s) = Admission.rpmBalance a s :=
    refill_cast _ _ _ _ _
  have havg : avgSvc (admitCall a reserve) (forget s) = Admission.avgSvc a s := by
    unfold avgSvc Admission.avgSvc
    rw [show (forget s).stats = s.stats.lasting id from rfl, Collection.get_lasting,
      Option.map_id_apply]
    rfl
  have hcard : (forgetSweep (Admission.reclaim a.now a.reclaimBatch s)).leases.card =
      (Admission.reclaim a.now a.reclaimBatch s).state.leases.card :=
    Collection.card_lasting _ _
  have hdecide : ∀ tpmBal rpmBal avg inflight,
      decideAdmission .exact (admitCall a reserve) tpmBal rpmBal avg inflight =
        Admission.decideAdmission a reserve tpmBal rpmBal avg inflight := by
    intro tpmBal rpmBal avg inflight
    rfl
  unfold admitScript Admission.admitScript
  simp only [hsweep, htpm, hrpm, havg, hcard, hdecide, hreserve]
  cases Admission.decideAdmission a reserve (Admission.tpmBalance a s) (Admission.rpmBalance a s)
      (Admission.avgSvc a s) (Admission.reclaim a.now a.reclaimBatch s).state.leases.card with
  | admitted =>
      refine ⟨_, _, rfl, Prod.ext ?_ rfl⟩
      unfold forget persist forgetSweep
      simp only [Collection.lasting_expire, Collection.lasting_put, reclaim_stats,
        reclaim_settled, StringKey.get_setEx, Option.map_some, Int.cast_add]
      rfl
  | shed reason retryAfterMs =>
      refine ⟨_, _, rfl, Prod.ext ?_ rfl⟩
      unfold forget persist forgetSweep
      simp only [Collection.lasting_expire, reclaim_stats, reclaim_settled,
        StringKey.get_setEx, Option.map_some]
      rfl

/-- The arguments of a commit that come as numbers. -/
def commitCall (a : CommitArgs Rid) (actual serviceMs outputTokens : Rat) : CommitCall Rid where
  now := a.now
  rid := a.rid
  actual := actual
  tpmLimit := a.tpmLimit
  serviceMs := serviceMs
  outputTokens := outputTokens
  alpha := a.alpha

omit [LinearOrder Rid] in
/-- At whole times these are the arguments the service passes. -/
theorem admitCall_admitArgs (p : Limits) (now : Int) (rid : Rid) (reserve sloTtftMs : Rat) :
    admitCall (admitArgs p now rid (some reserve) sloTtftMs) reserve =
      reserveCall .exact p now rid reserve sloTtftMs := by
  have hlease : ((p.leaseMs : Int) : Rat) = Arithmetic.exact.rnd (p.leaseSeconds * 1000) := by
    unfold Limits.leaseMs
    push_cast
    rfl
  unfold admitCall admitArgs reserveCall
  rw [← hlease]
  rfl

omit [LinearOrder Rid] in
theorem commitCall_commitArgs (p : Limits) (now : Int) (rid : Rid)
    (promptTokens outputTokens serviceMs : Rat) (idemTtl : JsNumber) :
    commitCall (commitArgs p now rid (some (promptTokens + outputTokens)) (some serviceMs)
        (some outputTokens) idemTtl) (promptTokens + outputTokens) serviceMs outputTokens =
      settleCall .exact p now rid promptTokens outputTokens serviceMs := rfl

theorem observeService_lasting (alpha serviceMs : Rat) (stats : Hash StatField Rat) :
    observeService .exact alpha serviceMs (stats.lasting id) =
      (Admission.observeService alpha serviceMs stats).lasting id := by
  unfold observeService Admission.observeService
  split
  · rw [Collection.lasting_put, Collection.get_lasting, Option.map_id_apply]
    rfl
  · rfl

theorem observeOutput_lasting (alpha outputTokens : Rat) (stats : Hash StatField Rat) :
    observeOutput .exact alpha outputTokens (stats.lasting id) =
      (Admission.observeOutput alpha outputTokens stats).lasting id := by
  have hput : ∀ (stats : Hash StatField Rat) field (value : Rat),
      (stats.lasting id).put field value = (stats.put field value).lasting id :=
    fun stats field value => (Collection.lasting_put id field value stats).symm
  unfold observeOutput Admission.observeOutput
  simp only [hput, Collection.get_lasting, Option.map_id_apply]
  by_cases hsample : outputTokens > 0
  · rw [if_pos hsample, if_pos hsample]
    exact (apply_ite (Collection.lasting id) _ _ _).symm
  · rw [if_neg hsample, if_neg hsample]

theorem forget_takeHold_leases (rid : Rid) (s : PairState Rid) :
    (forget (takeHold rid s)).leases =
      if (s.reservations.get rid).isSome then (forget s).leases.del rid else (forget s).leases := by
  unfold takeHold
  cases s.reservations.get rid with
  | none => rfl
  | some held => exact Collection.lasting_del _ _ _

theorem forget_takeHold_reservations (rid : Rid) (s : PairState Rid) :
    (forget (takeHold rid s)).reservations =
      if (s.reservations.get rid).isSome then (forget s).reservations.del rid
      else (forget s).reservations := by
  unfold takeHold
  cases s.reservations.get rid with
  | none => rfl
  | some held => exact Collection.lasting_del _ _ _

theorem forget_update (settled : Rid → StringKey Rat) (rid : Rid) (clock : Int) (refund : Rat)
    (ttl : Nat) :
    (fun k => (Function.update settled rid (.setEx clock refund ttl) k).get) =
      Function.update (fun k => (settled k).get) rid (some refund) := by
  funext k
  by_cases hk : k = rid
  · rw [hk, Function.update_self, Function.update_self, StringKey.get_setEx]
  · rw [Function.update_of_ne hk, Function.update_of_ne hk]

/-- On a server that loses no key a commit at a whole time does what it does here. -/
theorem commitScript_forget (clock : Int) {a : CommitArgs Rid} (s : PairState Rid)
    {actual serviceMs outputTokens : Rat} {idem : Nat} (hactual : a.actual = some actual)
    (hservice : a.serviceMs = some serviceMs) (houtput : a.outputTokens = some outputTokens)
    (hidem : acceptedTtl clock a.idemTtl = some idem) :
    ∃ s' reply, Admission.commitScript clock a s = (s', .ok reply) ∧
      commitScript .exact (commitCall a actual serviceMs outputTokens) (forget s) =
        (forget s', reply) := by
  have hbalance : currentBalance .exact (commitCall a actual serviceMs outputTokens) (forget s) =
      Admission.currentBalance a s := refill_cast _ _ _ _ _
  have hheld : (forget s).reservations.get a.rid = s.reservations.get a.rid := by
    show (s.reservations.lasting id).get a.rid = _
    rw [Collection.get_lasting, Option.map_id_apply]
  have hstats : (forget s).stats = s.stats.lasting id := rfl
  unfold commitScript
  cases hmarker : s.settled a.rid with
  | some marker =>
      have hsettled : (forget s).settled a.rid = some marker.value := by
        show (s.settled a.rid).get = _
        rw [hmarker, StringKey.get_some]
      refine ⟨_, _, commitScript_duplicate clock a s hmarker, ?_⟩
      simp only [show (commitCall a actual serviceMs outputTokens).rid = a.rid from rfl, hsettled,
        hbalance]
      exact congrArg _ (congrArg _ (Collection.card_lasting _ _))
  | none =>
      have hsettled : (forget s).settled a.rid = none := by
        show (s.settled a.rid).get = _
        rw [hmarker, StringKey.get_none]
      refine ⟨_, _, commitScript_settles clock a s hmarker hactual hidem hservice houtput, ?_⟩
      simp only [show (commitCall a actual serviceMs outputTokens).rid = a.rid from rfl, hsettled,
        hbalance, hheld, hstats, ← forget_takeHold_leases, ← forget_takeHold_reservations]
      have hcard : (forget (takeHold a.rid s)).leases.card = (takeHold a.rid s).leases.card :=
        Collection.card_lasting _ _
      have hrpm : (takeHold a.rid s).rpm = s.rpm := by rw [takeHold_frame]
      have hrpmTs : (takeHold a.rid s).rpmTs = s.rpmTs := by rw [takeHold_frame]
      rw [hcard, hrpm, hrpmTs, observeService_lasting, observeOutput_lasting]
      unfold forget
      simp only [Collection.lasting_expire, StringKey.get_setEx, Option.map_some, forget_update]
      rfl

end Whole

end Untimed

end RateLimiter.Admission
