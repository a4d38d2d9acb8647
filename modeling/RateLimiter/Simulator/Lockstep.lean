import Mathlib.Data.List.Lex
import RateLimiter.Simulator.Mirror

/-!
# The simulator is the protocol

Whatever is done on the page, the scripts answer the same calls with the same verdicts,
and afterwards the server's keys hold what the page's state does, as long as the page keeps
no number that its text on the server would change.  A server starts with no key where the
page starts with full balances, so the policy must stay as it is until an admission has
stored both.
-/

namespace RateLimiter.Simulator

open RateLimiter.Redis RateLimiter.Javascript RateLimiter.Foundations RateLimiter.Admission

/-- What can be done on the page.  Token counts are whole; times and durations need not be. -/
inductive Event
  | editPolicy (policy : Limits)
  | editSlo (sloTtftMs : Rat)
  | callAdmit (t : Rat) (promptTokens maxOutputTokens : Nat)
  | callCommit (t : Rat) (id : JsString) (promptTokens outputTokens : Nat) (serviceMs : Rat)

/-- What both sides answer: the verdict with its reason and retry-after, the tokens held and
the wait predicted; or the status of a settlement and its refund. -/
inductive Answer
  | edited
  | admission (decision : Decision) (held : Rat) (predictedWait : Int)
  | settlement (status : CommitStatus) (refund : Rat)
deriving DecidableEq, Repr

/-! ## Both sides -/

namespace Page

/-- The page as it is loaded. -/
def fresh (policy : Limits) (sloTtftMs : Rat) : Page := ⟨policy, sloTtftMs, 0, freshState policy⟩

variable (num : Arithmetic)

def handle (page : Page) : Event → Page × Answer
  | .editPolicy policy => ({ page with policy := policy }, .edited)
  | .editSlo sloTtftMs => ({ page with sloTtftMs := sloTtftMs }, .edited)
  | .callAdmit t promptTokens maxOutputTokens =>
      let out := pageAdmit num t promptTokens maxOutputTokens page
      (out.1, .admission out.2.decision out.2.reserve out.2.predictedWait)
  | .callCommit t id promptTokens outputTokens serviceMs =>
      let out := pageCommit num t id promptTokens outputTokens serviceMs page
      (out.1, .settlement out.2.status out.2.refund)

def step (page : Page) (e : Event) : Page := (page.handle num e).1

def answer (page : Page) (e : Event) : Answer := (page.handle num e).2

/-- The balances, their times, the refunds and the averages of the page are what their texts
read back. -/
structure Legible (page : Page) : Prop where
  tpm : num.text page.state.tpm = page.state.tpm
  tpmTs : num.text page.state.tpmTs = page.state.tpmTs
  rpm : num.text page.state.rpm = page.state.rpm
  rpmTs : num.text page.state.rpmTs = page.state.rpmTs
  settled : ∀ id refund, page.state.settled.get id = some refund → num.text refund = refund
  svcMs : ∀ average, page.state.svcMs = some average → num.text average = average
  outTokens : ∀ average, page.state.outTokens = some average → num.text average = average

instance (page : Page) : Decidable (page.Legible num) :=
  decidable_of_iff
    ((num.text page.state.tpm = page.state.tpm ∧ num.text page.state.tpmTs = page.state.tpmTs) ∧
      (num.text page.state.rpm = page.state.rpm ∧ num.text page.state.rpmTs = page.state.rpmTs) ∧
      (∀ e ∈ page.state.settled.entries, num.text e.2 = e.2) ∧
      (∀ average ∈ page.state.svcMs, num.text average = average) ∧
      ∀ average ∈ page.state.outTokens, num.text average = average) <| by
  constructor
  · rintro ⟨⟨htpm, htpmTs⟩, ⟨hrpm, hrpmTs⟩, hsettled, hsvcMs, houtTokens⟩
    exact ⟨htpm, htpmTs, hrpm, hrpmTs, fun id refund hget =>
      hsettled (id, refund) (JsMap.get_eq_some.mp hget), hsvcMs, houtTokens⟩
  · intro h
    exact ⟨⟨h.tpm, h.tpmTs⟩, ⟨h.rpm, h.rpmTs⟩, fun e he =>
      h.settled e.1 e.2 (JsMap.get_eq_some.mpr he), h.svcMs, h.outTokens⟩

end Page

/-- A gateway under the same policy, whose server loses no key. -/
structure Gateway (Rid : Type) where
  policy : Limits
  sloTtftMs : Rat
  issued : Nat
  state : Untimed.State Rid

namespace Gateway

variable {Rid : Type}

/-- A gateway with an empty server. -/
def fresh (policy : Limits) (sloTtftMs : Rat) : Gateway Rid :=
  ⟨policy, sloTtftMs, 0, Untimed.empty⟩

variable (num : Arithmetic) [LinearOrder Rid] (name : JsString → Rid)

/-- The call of `ADMIT_SCRIPT`, on what `estimateReservation` says. -/
def admitCall (g : Gateway Rid) (t promptTokens maxOutputTokens : Rat) : Untimed.AdmitCall Rid :=
  Untimed.reserveCall num g.policy t (name (reservationId (g.issued + 1)))
    (Untimed.estimateReservation num g.policy promptTokens maxOutputTokens
      (observedOutputTokens g.policy g.state)).reserveTokens g.sloTtftMs

/-- `estimateReservation` and `ADMIT_SCRIPT`, or `COMMIT_SCRIPT`, under the other names. -/
def handle (g : Gateway Rid) : Event → Gateway Rid × Answer
  | .editPolicy policy => ({ g with policy := policy }, .edited)
  | .editSlo sloTtftMs => ({ g with sloTtftMs := sloTtftMs }, .edited)
  | .callAdmit t promptTokens maxOutputTokens =>
      let out := Untimed.admitScript num
        (g.admitCall num name t promptTokens maxOutputTokens) g.state
      ({ g with
          issued := if out.2.decision = .admitted then g.issued + 1 else g.issued
          state := out.1 },
        .admission out.2.decision out.2.reserved out.2.predictedWaitMs)
  | .callCommit t id promptTokens outputTokens serviceMs =>
      let out := Untimed.commitScript num
        (Untimed.settleCall num g.policy t (name id) promptTokens outputTokens serviceMs) g.state
      ({ g with state := out.1 }, .settlement out.2.status out.2.refundedTokens)

def step (g : Gateway Rid) (e : Event) : Gateway Rid := (g.handle num name e).1

def answer (g : Gateway Rid) (e : Event) : Answer := (g.handle num name e).2

end Gateway

/-! ## What they have in common -/

section Mirrors

variable {Rid : Type} [LinearOrder Rid]

/-- The gateway's server holds what the page does, and the page counts in whole tokens. -/
structure Mirrors (name : JsString → Rid) (page : Page) (g : Gateway Rid) : Prop where
  policy : g.policy = page.policy
  sloTtftMs : g.sloTtftMs = page.sloTtftMs
  issued : g.issued = page.seq
  tpm : MirrorsBalance page.policy.tokensPerMinute page.state.tpm page.state.tpmTs
    g.state.tpm g.state.tpmTs
  rpm : MirrorsBalance page.policy.requestsPerMinute page.state.rpm page.state.rpmTs
    g.state.rpm g.state.rpmTs
  leases : MirrorsMap name page.state.leases g.state.leases
  holds : MirrorsMap name page.state.res g.state.reservations
  settled : ∀ id, g.state.settled (name id) = page.state.settled.get id
  svcMs : g.state.stats.get .svcMs = page.state.svcMs
  outTokens : g.state.stats.get .outTokens = page.state.outTokens
  counted : Counted page.state.res
  whole : ∀ id refund, page.state.settled.get id = some refund → ∃ n : Int, refund = n

theorem mirrors_fresh (name : JsString → Rid) (policy : Limits) (sloTtftMs : Rat) :
    Mirrors name (.fresh policy sloTtftMs) (.fresh policy sloTtftMs) where
  policy := rfl
  sloTtftMs := rfl
  issued := rfl
  tpm := Or.inr ⟨rfl, rfl, rfl⟩
  rpm := Or.inr ⟨rfl, rfl, rfl⟩
  leases := .empty name
  holds := .empty name
  settled := fun _ => rfl
  svcMs := rfl
  outTokens := rfl
  counted := by
    intro id held hheld
    cases hheld
  whole := by
    intro id refund hrefund
    cases hrefund

/-- Both balances are stored. -/
def Opened (g : Gateway Rid) : Prop := g.state.tpm ≠ none ∧ g.state.rpm ≠ none

variable {num : Arithmetic} {name : JsString → Rid} {page : Page} {g : Gateway Rid}

/-- A stored balance is the page's under any other capacity too. -/
theorem MirrorsBalance.recapped {capacity bal ts : Rat} {stored storedTs : Option Rat}
    (h : MirrorsBalance capacity bal ts stored storedTs) (hstored : stored ≠ none)
    (capacity' : Rat) : MirrorsBalance capacity' bal ts stored storedTs :=
  h.imp_right fun hfull => absurd hfull.1 hstored

theorem Mirrors.editPolicy (h : Mirrors name page g) (hopened : Opened g) (policy : Limits) :
    Mirrors name (page.step num (.editPolicy policy)) (g.step num name (.editPolicy policy)) :=
  { h with
    policy := rfl
    tpm := h.tpm.recapped hopened.1 _
    rpm := h.rpm.recapped hopened.2 _ }

theorem Mirrors.editSlo (h : Mirrors name page g) (sloTtftMs : Rat) :
    Mirrors name (page.step num (.editSlo sloTtftMs)) (g.step num name (.editSlo sloTtftMs)) :=
  { h with sloTtftMs := rfl }

/-- The budgets of a policy fit fourteen digits, and it leaves room for no more leases than
one sweep takes. -/
structure Roomy (p : Limits) : Prop where
  places : p.maxConcurrency + p.maxQueueDepth ≤ 32
  tokens : p.tokensPerMinute < 10 ^ 14
  requests : p.requestsPerMinute < 10 ^ 14

/-! ## Admissions -/

theorem replyInteger_natCast (n : Nat) : (replyInteger (n : Rat) : Rat) = n := by
  unfold replyInteger
  rw [if_pos n.cast_nonneg, Int.floor_natCast, Int.cast_natCast]

section Admission

variable (h : Mirrors name page g) (t : Rat) (promptTokens maxOutputTokens : Nat)

/-- What the page holds for a call, or would. -/
abbrev reserveOf (num : Arithmetic) (page : Page) (promptTokens maxOutputTokens : Nat) : Rat :=
  (estimate num page.policy page.state.outTokens promptTokens maxOutputTokens).reserveTokens

include h

/-- The gateway calls the script with what the page computes with. -/
theorem Mirrors.admitCall_eq :
    g.admitCall num name t promptTokens maxOutputTokens =
      Untimed.reserveCall num page.policy t (name (reservationId (page.seq + 1)))
        (reserveOf num page promptTokens maxOutputTokens) page.sloTtftMs := by
  have hestimate := estimate_eq num page.policy g.state h.outTokens promptTokens maxOutputTokens
  unfold Gateway.admitCall reserveOf
  rw [h.policy, h.sloTtftMs, h.issued, hestimate]

theorem Mirrors.avgSvc_eq :
    Untimed.avgSvc (g.admitCall num name t promptTokens maxOutputTokens) g.state =
      avgSvc page.state := by
  unfold Untimed.avgSvc avgSvc
  rw [h.admitCall_eq, h.svcMs]
  cases page.state.svcMs <;> rfl

variable (hnum : num.Faithful) (hroomy : Roomy page.policy)

include hnum hroomy

theorem Mirrors.rpmBalance_eq :
    Untimed.rpmBalance num (g.admitCall num name t promptTokens maxOutputTokens) g.state =
      rpmBalance num t page.policy page.state := by
  have hrate : (0 : Rat) ≤ num.rnd (page.policy.requestsPerMinute / 60) :=
    hnum.rnd_nonneg (by positivity)
  rw [h.admitCall_eq]
  exact h.rpm.refill_eq hnum hroomy.requests hrate t

variable (hname : Function.Injective name) (hfew : g.state.leases.card ≤ reclaimBatch)

include hname hfew

theorem Mirrors.tpmBalance_eq :
    Untimed.tpmBalance num (g.admitCall num name t promptTokens maxOutputTokens) g.state =
      tpmBalance num t page.policy page.state := by
  obtain ⟨-, -, htokens⟩ := sweep_mirrors (t := t) hnum hname h.leases h.holds h.counted hfew
  have hrate : (0 : Rat) ≤ num.rnd (page.policy.tokensPerMinute / 60) :=
    hnum.rnd_nonneg (by positivity)
  have hread := h.tpm.refill_eq hnum hroomy.tokens hrate t
  rw [h.admitCall_eq]
  unfold Untimed.tpmBalance tpmBalance
  rw [← hread, ← htokens]
  rfl

omit hroomy in
theorem Mirrors.inflight_eq :
    (Untimed.reclaim num t reclaimBatch g.state).leases.card =
      (sweep num t page.state).leases.size := by
  obtain ⟨hleases, -, -⟩ := sweep_mirrors (t := t) hnum hname h.leases h.holds h.counted hfew
  exact (hleases.size_eq hname).symm

/-- Both sides come to the same verdict. -/
theorem Mirrors.verdict_eq :
    Untimed.verdict num (g.admitCall num name t promptTokens maxOutputTokens) g.state =
      verdict num t promptTokens maxOutputTokens page := by
  have hinflight := h.inflight_eq t hnum hname hfew
  unfold Untimed.verdict verdict
  rw [h.tpmBalance_eq t promptTokens maxOutputTokens hnum hroomy hname hfew,
    h.rpmBalance_eq t promptTokens maxOutputTokens hnum hroomy, h.avgSvc_eq, ← hinflight,
    h.admitCall_eq]
  rfl

/-- Both sides answer an admission alike. -/
theorem Mirrors.admission_answer :
    page.answer num (.callAdmit t promptTokens maxOutputTokens) =
      g.answer num name (.callAdmit t promptTokens maxOutputTokens) := by
  obtain ⟨hdecision, hreserve, hwait⟩ :=
    pageAdmit_reports num t promptTokens maxOutputTokens page
  obtain ⟨hdecision', hreserve', hwait'⟩ :=
    Untimed.admitScript_reports num (g.admitCall num name t promptTokens maxOutputTokens) g.state
  have hinflight := h.inflight_eq t hnum hname hfew
  obtain ⟨held, hheld⟩ := exists_estimate_natCast hnum page.policy page.state.outTokens
    promptTokens maxOutputTokens
  show Answer.admission _ _ _ = Answer.admission _ _ _
  rw [hdecision, hreserve, hwait, hdecision', hreserve', hwait',
    h.verdict_eq t promptTokens maxOutputTokens hnum hroomy hname hfew, h.avgSvc_eq, ← hinflight,
    h.admitCall_eq]
  refine congrArg (fun held => Answer.admission _ held _) ?_
  show _ = (replyInteger (reserveOf num page promptTokens maxOutputTokens) : Rat)
  unfold reserveOf
  rw [hheld, replyInteger_natCast]

/-- Both sides draw a fresh name on the same verdict. -/
theorem Mirrors.step_callAdmit_eq :
    g.step num name (.callAdmit t promptTokens maxOutputTokens) =
      { g with
        issued :=
          if verdict num t promptTokens maxOutputTokens page = .admitted then g.issued + 1
          else g.issued
        state := (Untimed.admitScript num
          (g.admitCall num name t promptTokens maxOutputTokens) g.state).1 } := by
  have hdecision := (Untimed.admitScript_reports num
    (g.admitCall num name t promptTokens maxOutputTokens) g.state).1
  rw [← h.verdict_eq t promptTokens maxOutputTokens hnum hroomy hname hfew, ← hdecision]
  rfl

omit hfew hname h in
/-- An admitted hold is a whole number of tokens within the budget. -/
theorem reserveOf_counted
    (hverdict : verdict num t promptTokens maxOutputTokens page = .admitted) :
    ∃ n : Nat, n < 10 ^ 14 ∧ reserveOf num page promptTokens maxOutputTokens = n := by
  obtain ⟨n, hn⟩ := exists_estimate_natCast hnum page.policy page.state.outTokens
    promptTokens maxOutputTokens
  have hfits := reserve_of_admitted hverdict
  rw [hn] at hfits
  have hwithin : n ≤ page.policy.tokensPerMinute := by exact_mod_cast hfits
  exact ⟨n, hwithin.trans_lt hroomy.tokens, hn⟩

/-- An admission leaves both sides alike, and stores both balances. -/
theorem Mirrors.callAdmit
    (hlegible : (page.step num (.callAdmit t promptTokens maxOutputTokens)).Legible num) :
    Mirrors name (page.step num (.callAdmit t promptTokens maxOutputTokens))
        (g.step num name (.callAdmit t promptTokens maxOutputTokens)) ∧
      Opened (g.step num name (.callAdmit t promptTokens maxOutputTokens)) := by
  obtain ⟨hleases, hholds, -⟩ := sweep_mirrors (t := t) hnum hname h.leases h.holds h.counted hfew
  have hverdict := h.verdict_eq t promptTokens maxOutputTokens hnum hroomy hname hfew
  have htpm := h.tpmBalance_eq t promptTokens maxOutputTokens hnum hroomy hname hfew
  have hrpm := h.rpmBalance_eq t promptTokens maxOutputTokens hnum hroomy
  have hcall : g.admitCall num name t promptTokens maxOutputTokens = _ :=
    h.admitCall_eq t promptTokens maxOutputTokens
  have hpage : page.step num (.callAdmit t promptTokens maxOutputTokens) =
      (pageAdmit num t promptTokens maxOutputTokens page).1 := rfl
  rw [hpage] at hlegible
  rw [hpage, h.step_callAdmit_eq t promptTokens maxOutputTokens hnum hroomy hname hfew]
  cases hcase : verdict num t promptTokens maxOutputTokens page with
  | admitted =>
      have hcounted := reserveOf_counted t promptTokens maxOutputTokens hnum hroomy hcase
      rw [pageAdmit_admitted hcase] at hlegible
      rw [pageAdmit_admitted hcase, Untimed.admitScript_admitted (hverdict.trans hcase), htpm,
        hrpm, hcall, if_pos rfl]
      refine ⟨?_, Option.some_ne_none _, Option.some_ne_none _⟩
      exact
        { policy := h.policy
          sloTtftMs := h.sloTtftMs
          issued := congrArg (· + 1) h.issued
          tpm := Or.inl ⟨congrArg some hlegible.tpm, congrArg some hlegible.tpmTs⟩
          rpm := Or.inl ⟨congrArg some hlegible.rpm, congrArg some hlegible.rpmTs⟩
          leases := hleases.set hname _ _
          holds := hholds.set hname _ _
          settled := h.settled
          svcMs := h.svcMs
          outTokens := h.outTokens
          counted := (h.counted.sweep num t).set hcounted
          whole := h.whole }
  | shed reason retryAfterMs =>
      rw [pageAdmit_shed hcase] at hlegible
      rw [pageAdmit_shed hcase, Untimed.admitScript_shed (hverdict.trans hcase), htpm, hrpm, hcall,
        if_neg (by simp)]
      refine ⟨?_, Option.some_ne_none _, Option.some_ne_none _⟩
      exact
        { policy := h.policy
          sloTtftMs := h.sloTtftMs
          issued := h.issued
          tpm := Or.inl ⟨congrArg some hlegible.tpm, congrArg some hlegible.tpmTs⟩
          rpm := Or.inl ⟨congrArg some hlegible.rpm, congrArg some hlegible.rpmTs⟩
          leases := hleases
          holds := hholds
          settled := h.settled
          svcMs := h.svcMs
          outTokens := h.outTokens
          counted := h.counted.sweep num t
          whole := h.whole }

omit h hname hnum hroomy in
/-- While the policy has few enough places, one sweep is enough for the leases. -/
theorem card_callAdmit
    (hroom : g.policy.maxConcurrency + g.policy.maxQueueDepth ≤ reclaimBatch) :
    (g.step num name (.callAdmit t promptTokens maxOutputTokens)).state.leases.card ≤
      reclaimBatch := by
  have hgateway : (g.step num name (.callAdmit t promptTokens maxOutputTokens)).state =
      (Untimed.admitScript num (g.admitCall num name t promptTokens maxOutputTokens) g.state).1 :=
    rfl
  rw [hgateway]
  cases hcase : Untimed.verdict num (g.admitCall num name t promptTokens maxOutputTokens)
      g.state with
  | admitted =>
      have hplace : (Untimed.reclaim num t reclaimBatch g.state).leases.card <
          g.policy.maxConcurrency + g.policy.maxQueueDepth := Untimed.inflight_of_admitted hcase
      rw [Untimed.admitScript_admitted hcase]
      exact (Collection.card_put_le _ _ _).trans (hplace.trans_le hroom)
  | shed reason retryAfterMs =>
      rw [Untimed.admitScript_shed hcase]
      exact (Untimed.card_reclaim_le _ _ _ _).trans hfew

end Admission

/-! ## Commits -/

/-- Both sides take a sample into an average. -/
theorem text_ewma {sample : Rat} {average : Option Rat} (hsample : sample > 0)
    (hlegible : ∀ v, weigh num sample average = some v → num.text v = v) :
    some (num.text (Untimed.ewma num (num.rnd Admission.ewmaAlpha) sample average)) =
      weigh num sample average := by
  have hweighed : weigh num sample average =
      some (Untimed.ewma num (num.rnd Admission.ewmaAlpha) sample average) := by
    unfold weigh
    rw [if_pos hsample]
    cases average <;> rfl
  rw [hweighed, hlegible _ hweighed]

/-- The service time is weighed alike. -/
theorem observeService_get (serviceMs : Rat) (stats : Hash StatField Rat)
    (hlegible : ∀ v, weigh num serviceMs (stats.get .svcMs) = some v → num.text v = v) :
    (Untimed.observeService num (num.rnd Admission.ewmaAlpha) serviceMs stats).get .svcMs =
        weigh num serviceMs (stats.get .svcMs) ∧
      (Untimed.observeService num (num.rnd Admission.ewmaAlpha) serviceMs stats).get .outTokens =
        stats.get .outTokens := by
  unfold Untimed.observeService
  by_cases hsample : serviceMs > 0
  · rw [if_pos hsample, Collection.get_put]
    exact ⟨text_ewma hsample hlegible, Collection.get_put_of_ne (by decide) _ _⟩
  · unfold weigh
    rw [if_neg hsample, if_neg hsample]
    exact ⟨rfl, rfl⟩

/-- And so is the output length. -/
theorem observeOutput_get (outputTokens : Rat) (stats : Hash StatField Rat)
    (hlegible : ∀ v, weigh num outputTokens (stats.get .outTokens) = some v → num.text v = v) :
    (Untimed.observeOutput num (num.rnd Admission.ewmaAlpha) outputTokens stats).get .outTokens =
        weigh num outputTokens (stats.get .outTokens) ∧
      (Untimed.observeOutput num (num.rnd Admission.ewmaAlpha) outputTokens stats).get .svcMs =
        stats.get .svcMs := by
  have hpeak : ∀ (stats : Hash StatField Rat) field, field ≠ .outPeak →
      (if outputTokens > (stats.get .outPeak).getD 0
        then stats.put .outPeak (num.text outputTokens) else stats).get field =
        stats.get field := by
    intro stats field hne
    split
    · exact Collection.get_put_of_ne hne _ _
    · rfl
  unfold Untimed.observeOutput
  by_cases hsample : outputTokens > 0
  · rw [if_pos hsample]
    dsimp only
    rw [hpeak _ _ (by decide), hpeak _ _ (by decide), Collection.get_put]
    exact ⟨text_ewma hsample hlegible, Collection.get_put_of_ne (by decide) _ _⟩
  · unfold weigh
    rw [if_neg hsample, if_neg hsample]
    exact ⟨rfl, rfl⟩

section Commit

variable (h : Mirrors name page g) (t : Rat) (id : JsString) (promptTokens outputTokens : Nat)
  (serviceMs : Rat)

include h

/-- A refund that its text keeps is kept under the same name. -/
theorem Mirrors.settled_set (hname : Function.Injective name) {refund : Rat}
    (htext : num.text refund = refund) (id' : JsString) :
    Function.update g.state.settled (name id) (some (num.text refund)) (name id') =
      (page.state.settled.set id refund).get id' := by
  by_cases hid : id' = id
  · rw [hid, Function.update_self, JsMap.get_set, htext]
  · rw [Function.update_of_ne (hname.ne hid), JsMap.get_set_of_ne hid]
    exact h.settled id'

/-- The refunds of the page are whole, and stay so. -/
theorem Mirrors.whole_set (n : Int) (id' : JsString) (refund : Rat)
    (hrefund : (page.state.settled.set id (n : Rat)).get id' = some refund) :
    ∃ n : Int, refund = n := by
  by_cases hid : id' = id
  · rw [hid, JsMap.get_set] at hrefund
    exact ⟨n, (Option.some.inj hrefund).symm⟩
  · rw [JsMap.get_set_of_ne hid] at hrefund
    exact h.whole id' refund hrefund

variable (num) in
/-- A commit of a settled reservation is told the refund again and changes neither side. -/
theorem Mirrors.callCommit_again {refund : Rat}
    (hsettled : page.state.settled.get id = some refund) :
    page.handle num (.callCommit t id promptTokens outputTokens serviceMs) =
        (page, .settlement .duplicateIgnored refund) ∧
      g.handle num name (.callCommit t id promptTokens outputTokens serviceMs) =
        (g, .settlement .duplicateIgnored refund) := by
  obtain ⟨n, rfl⟩ := h.whole id refund hsettled
  have hmarked : g.state.settled (name id) = some (n : Rat) := (h.settled id).trans hsettled
  unfold Page.handle Gateway.handle pageCommit Untimed.commitScript Untimed.settleCall
  simp only [hsettled, hmarked, Int.floor_intCast, and_self]

variable (hnum : num.Faithful)

include hnum

/-- A refund is a whole number of tokens. -/
theorem Mirrors.exists_refund_intCast :
    ∃ n : Int, num.rnd ((page.state.res.get id).getD 0 -
      num.rnd ((promptTokens : Rat) + outputTokens)) = n := by
  obtain ⟨actual, hactual⟩ := hnum.rnd_whole ((promptTokens + outputTokens : Nat) : Int)
  push_cast at hactual
  rw [hactual]
  obtain ⟨held, hheld⟩ : ∃ held : Int, (page.state.res.get id).getD 0 = held := by
    cases hget : page.state.res.get id with
    | none => exact ⟨0, by simp⟩
    | some held =>
        obtain ⟨n, -, rfl⟩ := h.counted id held hget
        exact ⟨n, by simp⟩
  rw [hheld]
  exact_mod_cast hnum.rnd_whole (held - actual)

variable (hname : Function.Injective name) (hroomy : Roomy page.policy)
  (hnew : page.state.settled.get id = none)

include hname hroomy hnew

/-- A commit of any other is answered alike, and leaves both sides alike. -/
theorem Mirrors.callCommit_first
    (hlegible : (page.step num
      (.callCommit t id promptTokens outputTokens serviceMs)).Legible num) :
    page.answer num (.callCommit t id promptTokens outputTokens serviceMs) =
        g.answer num name (.callCommit t id promptTokens outputTokens serviceMs) ∧
      Mirrors name (page.step num (.callCommit t id promptTokens outputTokens serviceMs))
        (g.step num name (.callCommit t id promptTokens outputTokens serviceMs)) := by
  have hunmarked : g.state.settled (name id) = none := (h.settled id).trans hnew
  have hheld : g.state.reservations.get (name id) = page.state.res.get id := h.holds.get id
  have hrate : (0 : Rat) ≤ num.rnd (page.policy.tokensPerMinute / 60) :=
    hnum.rnd_nonneg (by positivity)
  have hread := h.tpm.refill_eq hnum hroomy.tokens hrate t
  obtain ⟨refund, hrefund⟩ := h.exists_refund_intCast id promptTokens outputTokens hnum
  unfold Page.step Page.handle pageCommit at hlegible
  simp only [hnew, hrefund] at hlegible
  unfold Page.answer Page.step Gateway.answer Gateway.step Page.handle Gateway.handle
  unfold pageCommit Untimed.commitScript Untimed.settleCall Untimed.currentBalance
  simp only [hnew, hunmarked, h.policy, hheld, hrefund, hread, Int.floor_intCast, true_and]
  have hserved := observeService_get serviceMs g.state.stats (by
    rw [h.svcMs]
    exact hlegible.svcMs)
  have hweighed := observeOutput_get (outputTokens : Rat)
    (Untimed.observeService num (num.rnd Admission.ewmaAlpha) serviceMs g.state.stats) (by
      rw [hserved.2, h.outTokens]
      exact hlegible.outTokens)
  refine
    { policy := rfl
      sloTtftMs := h.sloTtftMs
      issued := h.issued
      tpm := Or.inl ⟨congrArg some hlegible.tpm, congrArg some hlegible.tpmTs⟩
      rpm := h.rpm
      leases := ?_
      holds := ?_
      settled := h.settled_set id hname (hlegible.settled id _ (JsMap.get_set _ _ _))
      svcMs := ?_
      outTokens := ?_
      counted := ?_
      whole := h.whole_set id refund }
  · dsimp only
    split
    · exact h.leases.delete hname id
    · exact h.leases
  · dsimp only
    split
    · exact h.holds.delete hname id
    · exact h.holds
  · rw [hweighed.2, hserved.1, h.svcMs]
  · rw [hweighed.1, hserved.2, h.outTokens]
  · dsimp only
    split
    · exact h.counted.delete id
    · exact h.counted

end Commit

/-- Both sides answer a commit alike, and stay alike. -/
theorem Mirrors.callCommit (h : Mirrors name page g) (t : Rat) (id : JsString)
    (promptTokens outputTokens : Nat) (serviceMs : Rat) (hnum : num.Faithful)
    (hname : Function.Injective name) (hroomy : Roomy page.policy)
    (hlegible : (page.step num
      (.callCommit t id promptTokens outputTokens serviceMs)).Legible num) :
    page.answer num (.callCommit t id promptTokens outputTokens serviceMs) =
        g.answer num name (.callCommit t id promptTokens outputTokens serviceMs) ∧
      Mirrors name (page.step num (.callCommit t id promptTokens outputTokens serviceMs))
        (g.step num name (.callCommit t id promptTokens outputTokens serviceMs)) := by
  cases hsettled : page.state.settled.get id with
  | none =>
      exact h.callCommit_first t id promptTokens outputTokens serviceMs hnum hname hroomy hsettled
        hlegible
  | some refund =>
      obtain ⟨hpage, hgateway⟩ :=
        h.callCommit_again num t id promptTokens outputTokens serviceMs hsettled
      unfold Page.answer Page.step Gateway.answer Gateway.step
      rw [hpage, hgateway]
      exact ⟨rfl, h⟩

/-- A commit opens no lease and removes no balance. -/
theorem commit_keeps (num : Arithmetic) (name : JsString → Rid) (g : Gateway Rid) (t : Rat)
    (id : JsString) (promptTokens outputTokens : Nat) (serviceMs : Rat) :
    (g.step num name (.callCommit t id promptTokens outputTokens serviceMs)).state.leases.card ≤
        g.state.leases.card ∧
      (Opened g →
        Opened (g.step num name (.callCommit t id promptTokens outputTokens serviceMs))) := by
  unfold Opened Gateway.step Gateway.handle Untimed.commitScript
  dsimp only
  split
  · exact ⟨le_rfl, fun hopened => hopened⟩
  · refine ⟨?_, fun hopened => ⟨Option.some_ne_none _, hopened.2⟩⟩
    dsimp only
    split
    · exact Collection.card_del_le _ _
    · exact le_rfl

/-! ## Runs -/

/-- Whatever policy the page is set to is a roomy one. -/
def Event.Roomy : Event → Prop
  | .editPolicy policy => Simulator.Roomy policy
  | _ => True

/-- No policy edit comes before the first admission. -/
def EditsWait : List Event → Prop
  | [] => True
  | .callAdmit _ _ _ :: _ => True
  | .editPolicy _ :: _ => False
  | _ :: events => EditsWait events

theorem EditsWait.of_append {before after : List Event} (h : EditsWait (before ++ after)) :
    EditsWait before := by
  induction before with
  | nil => trivial
  | cons e before ih =>
      cases e with
      | editPolicy policy => exact h.elim
      | editSlo sloTtftMs => exact ih h
      | callAdmit t promptTokens maxOutputTokens => trivial
      | callCommit t id promptTokens outputTokens serviceMs => exact ih h

/-- What is known before the events still to come. -/
structure Together (name : JsString → Rid) (page : Page) (g : Gateway Rid)
    (events : List Event) : Prop where
  mirrors : Mirrors name page g
  few : g.state.leases.card ≤ 32
  roomy : Roomy page.policy
  ready : Opened g ∨ EditsWait events

/-- One event is answered alike and leaves both sides together. -/
theorem Together.step (hnum : num.Faithful) (hname : Function.Injective name) {e : Event}
    {events : List Event} (h : Together name page g (e :: events)) (hroomy : e.Roomy)
    (hlegible : (page.step num e).Legible num) :
    page.answer num e = g.answer num name e ∧
      Together name (page.step num e) (g.step num name e) events := by
  cases e with
  | editPolicy policy =>
      have hopened := h.ready.resolve_right (fun hwait => hwait)
      refine ⟨rfl, ?_⟩
      exact
        { mirrors := h.mirrors.editPolicy hopened policy
          few := h.few
          roomy := hroomy
          ready := Or.inl hopened }
  | editSlo sloTtftMs =>
      refine ⟨rfl, ?_⟩
      exact
        { mirrors := h.mirrors.editSlo sloTtftMs
          few := h.few
          roomy := h.roomy
          ready := h.ready }
  | callAdmit t promptTokens maxOutputTokens =>
      obtain ⟨hmirrors, hopened⟩ :=
        h.mirrors.callAdmit t promptTokens maxOutputTokens hnum h.roomy hname h.few hlegible
      have hpolicy : page.policy =
          (page.step num (.callAdmit t promptTokens maxOutputTokens)).policy := by
        rw [← hmirrors.policy, ← h.mirrors.policy]
        rfl
      have hplaces : g.policy.maxConcurrency + g.policy.maxQueueDepth ≤ reclaimBatch := by
        rw [h.mirrors.policy]
        exact h.roomy.places
      refine ⟨h.mirrors.admission_answer t promptTokens maxOutputTokens hnum h.roomy hname h.few,
        ?_⟩
      exact
        { mirrors := hmirrors
          few := card_callAdmit t promptTokens maxOutputTokens h.few hplaces
          roomy := by
            rw [← hpolicy]
            exact h.roomy
          ready := Or.inl hopened }
  | callCommit t id promptTokens outputTokens serviceMs =>
      obtain ⟨hanswer, hmirrors⟩ := h.mirrors.callCommit t id promptTokens outputTokens serviceMs
        hnum hname h.roomy hlegible
      obtain ⟨hcard, hopened⟩ :=
        commit_keeps num name g t id promptTokens outputTokens serviceMs
      have hpolicy : page.policy =
          (page.step num (.callCommit t id promptTokens outputTokens serviceMs)).policy := by
        rw [← hmirrors.policy, ← h.mirrors.policy]
        rfl
      refine ⟨hanswer, ?_⟩
      exact
        { mirrors := hmirrors
          few := hcard.trans h.few
          roomy := by
            rw [← hpolicy]
            exact h.roomy
          ready := h.ready.imp hopened fun hwait => hwait }

/-- The rule for whole runs. -/
theorem Together.run (hnum : num.Faithful) (hname : Function.Injective name)
    {events : List Event} (h : Together name page g events) (hroomy : ∀ e ∈ events, e.Roomy)
    (hlegible : ∀ before after, events = before ++ after →
      (Foundations.run (Page.step num) page before).Legible num) :
    outputs (Page.step num) (Page.answer num) page events =
        outputs (Gateway.step num name) (Gateway.answer num name) g events ∧
      Mirrors name (Foundations.run (Page.step num) page events)
        (Foundations.run (Gateway.step num name) g events) := by
  induction events generalizing page g with
  | nil => exact ⟨rfl, h.mirrors⟩
  | cons e events ih =>
      obtain ⟨he, hevents⟩ := List.forall_mem_cons.mp hroomy
      obtain ⟨hanswer, hnext⟩ := h.step hnum hname he (hlegible [e] events rfl)
      obtain ⟨hanswers, hlast⟩ := ih hnext hevents fun before after hsplit =>
        hlegible (e :: before) after (by rw [hsplit, List.cons_append])
      refine ⟨?_, hlast⟩
      rw [outputs_cons, outputs_cons, hanswer, hanswers]

theorem together_fresh (name : JsString → Rid) {policy : Limits} (sloTtftMs : Rat)
    (hroomy : Roomy policy) {events : List Event} (hwait : EditsWait events) :
    Together name (.fresh policy sloTtftMs) (.fresh policy sloTtftMs) events where
  mirrors := mirrors_fresh name policy sloTtftMs
  few := Nat.zero_le _
  roomy := hroomy
  ready := Or.inr hwait

/-- Started afresh, the page and the server answer alike, and after every step the server's
keys hold the page's balances, leases, holds, refunds and averages. -/
def InStep (num : Arithmetic) (name : JsString → Rid) (policy : Limits) (sloTtftMs : Rat)
    (events : List Event) : Prop :=
  outputs (Page.step num) (Page.answer num) (.fresh policy sloTtftMs) events =
      outputs (Gateway.step num name) (Gateway.answer num name) (.fresh policy sloTtftMs)
        events ∧
    ∀ before after, events = before ++ after →
      Mirrors name (run (Page.step num) (.fresh policy sloTtftMs) before)
        (run (Gateway.step num name) (.fresh policy sloTtftMs) before)

theorem inStep_of_legible (hnum : num.Faithful) (hname : Function.Injective name)
    {policy : Limits} {sloTtftMs : Rat} {events : List Event}
    (hroomy : Roomy policy ∧ ∀ e ∈ events, e.Roomy) (hwait : EditsWait events)
    (hlegible : ∀ before after, events = before ++ after →
      (run (Page.step num) (.fresh policy sloTtftMs) before).Legible num) :
    InStep num name policy sloTtftMs events := by
  refine ⟨((together_fresh name sloTtftMs hroomy.1 hwait).run hnum hname hroomy.2 hlegible).1,
    ?_⟩
  intro before after hsplit
  subst hsplit
  have hbefore : ∀ e ∈ before, e.Roomy :=
    fun e he => hroomy.2 e (List.mem_append_left after he)
  refine ((together_fresh name sloTtftMs hroomy.1 hwait.of_append).run hnum hname hbefore ?_).2
  intro first rest hsplit
  exact hlegible first (rest ++ after) (by rw [hsplit, List.append_assoc])

end Mirrors

/-- Where nothing is rounded every number is what its text reads back. -/
theorem Page.legible_exact (page : Page) : page.Legible .exact where
  tpm := rfl
  tpmTs := rfl
  rpm := rfl
  rpmTs := rfl
  settled := fun _ _ _ => rfl
  svcMs := fun _ _ => rfl
  outTokens := fun _ _ => rfl

/-- The controls of the page, with a budget of 400 tokens a second. -/
def pagePolicy : Limits where
  tokensPerMinute := 24000
  requestsPerMinute := 600
  maxConcurrency := 4
  maxQueueDepth := 4
  leaseSeconds := 8
  reservationMode := .worstCase
  reservationSafetyFactor := 3 / 2
  tokensPerMinute_pos := by decide
  requestsPerMinute_pos := defaultLimits.requestsPerMinute_pos
  maxConcurrency_pos := by decide
  leaseSeconds_pos := by decide
  one_le_safetyFactor := defaultLimits.one_le_safetyFactor

/-- The same controls in the other mode, at 600 tokens a second. -/
def adaptivePolicy : Limits :=
  { pagePolicy with
    reservationMode := .adaptive
    tokensPerMinute := 36000
    tokensPerMinute_pos := by decide }

/-- A hold under the worst case, an edit of the mode and of the budget, a commit, and a hold
on what the commit has taught. -/
def session : List Event :=
  [.callAdmit 0 900 2048, .editPolicy adaptivePolicy,
    .callCommit 500 (reservationId 1) 900 180 1560, .callAdmit (1001 / 2) 900 2048]

/-- When something is done, if it needs a time. -/
def Event.time : Event → Option Rat
  | .editPolicy _ => none
  | .editSlo _ => none
  | .callAdmit t _ _ => some t
  | .callCommit t _ _ _ _ => some t

/-- Two outputs of 1 and of 46 tokens, and a hold on their average. -/
def fifteenOrSixteen : List Event :=
  [.callAdmit 0 900 2048, .callCommit 0 (reservationId 1) 900 1 0, .callAdmit 0 900 2048,
    .callCommit 0 (reservationId 2) 900 46 0, .callAdmit 0 900 2048]

end RateLimiter.Simulator
