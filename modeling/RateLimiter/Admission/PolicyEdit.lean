import RateLimiter.Admission.Calls

/-!
# Raising a limit

The scripts accrue the whole time since the balance was written at the rate of
the policy of the call, up to the limit of that policy.  So a limit that was
raised in between is applied to the time before the edit as well: an idle tenant
finds a balance that it could not have had under the old policy, up to the whole
new limit at once.
-/

namespace RateLimiter.Admission

open RateLimiter.Redis RateLimiter.Javascript RateLimiter.Foundations

variable {Rid : Type}

/-- The refilled balance a call goes by, before reclaims and refunds, as its own
script computes it. -/
def refilledBalance (s : PairState Rid) (r : Request Rid) : Rat :=
  match r.op with
  | .reserve rid tokens sloTtftMs =>
      let a := admitArgs r.policy r.now rid (some (tokens : Rat)) (sloTtftMs : Rat)
      refill a.now s.tpm.get s.tpmTs.get a.tpmLimit a.tpmRate
  | .commit rid actual serviceMs outputTokens =>
      currentBalance (commitArgs r.policy r.now rid (some (actual : Rat)) (some (serviceMs : Rat))
        (some (outputTokens : Rat)) r.idempotencyTtl) s
  | .release rid =>
      currentBalance (commitArgs r.policy r.now rid (some 0) (some 0) (some 0) r.idempotencyTtl) s
  | .snapshot =>
      let a := snapshotArgs r.policy r.now
      refill a.now s.tpm.get s.tpmTs.get a.tpmLimit a.tpmRate

/-- All scripts read the same balance. -/
theorem refilledBalance_eq (s : PairState Rid) (r : Request Rid) :
    refilledBalance s r = balanceAt r.policy r.now s := by
  unfold refilledBalance
  cases r.op with
  | reserve rid tokens sloTtftMs => rfl
  | commit rid actual serviceMs outputTokens => rfl
  | release rid => rfl
  | snapshot => rfl

/-- The new headroom at its own rate: what a balance within the old limit may have
become in the time from the edit to the call. -/
def earnedSinceEdit (p : Limits) (edit now : Int) : Rat :=
  (p.tokensPerMinute : Rat) / 60 * (now - edit) / 1000

section Edit

variable {old new : Limits} {edit now ts : Int} {b : Rat} {s : PairState Rid}

theorem balanceAt_of_get {p : Limits} (hb : s.tpm.get = some b) (hts : s.tpmTs.get = some ts)
    (t : Int) :
    balanceAt p t s =
      min (b + (max 0 (t - ts) : Int) / 1000 * ((p.tokensPerMinute : Rat) / 60))
        p.tokensPerMinute := by
  unfold balanceAt
  rw [hb, hts]
  rfl

/-- A balance last written before the edit: the time up to the edit was worth less
under the old policy, so only the new limit can hide the difference. -/
theorem within_earned_of_written_before (hb : s.tpm.get = some b)
    (hts : s.tpmTs.get = some ts) (hraise : old.tokensPerMinute < new.tokensPerMinute)
    (hedit : edit ≤ now) (hbefore : ts < edit) :
    balanceAt new now s ≤ balanceAt old edit s + earnedSinceEdit new edit now ↔
      (new.tokensPerMinute : Rat) ≤ balanceAt old edit s + earnedSinceEdit new edit now := by
  have hrates : (old.tokensPerMinute : Rat) < new.tokensPerMinute := by exact_mod_cast hraise
  have hidle : (0 : Rat) < (edit - ts : Int) := by exact_mod_cast Int.sub_pos.mpr hbefore
  rw [balanceAt_of_get hb hts, balanceAt_of_get hb hts, max_eq_right (by omega),
    max_eq_right (by omega)]
  rw [min_le_iff]
  apply or_iff_right
  rw [not_le]
  have hold : min (b + ((edit - ts : Int) : Rat) / 1000 * ((old.tokensPerMinute : Rat) / 60))
      (old.tokensPerMinute : Rat) ≤
      b + ((edit - ts : Int) : Rat) / 1000 * ((old.tokensPerMinute : Rat) / 60) := min_le_left _ _
  have hgain : ((edit - ts : Int) : Rat) / 1000 * ((old.tokensPerMinute : Rat) / 60) <
      ((edit - ts : Int) : Rat) / 1000 * ((new.tokensPerMinute : Rat) / 60) := by
    have hseconds : (0 : Rat) < ((edit - ts : Int) : Rat) / 1000 := by positivity
    exact mul_lt_mul_of_pos_left (by linarith) hseconds
  have hsplit : ((now - ts : Int) : Rat) / 1000 * ((new.tokensPerMinute : Rat) / 60) =
      ((edit - ts : Int) : Rat) / 1000 * ((new.tokensPerMinute : Rat) / 60) +
        earnedSinceEdit new edit now := by
    unfold earnedSinceEdit
    push_cast
    ring
  rw [hsplit]
  linarith

/-- A balance last written after the edit has accrued at the new rate only; it is
within what could be earned unless it was over the old limit to begin with. -/
theorem within_earned_of_written_after (hb : s.tpm.get = some b) (hts : s.tpmTs.get = some ts)
    (hedit : edit ≤ now) (hafter : edit ≤ ts) :
    balanceAt new now s ≤ balanceAt old edit s + earnedSinceEdit new edit now ↔
      b ≤ old.tokensPerMinute + earnedSinceEdit new edit (min now ts) ∨
        (new.tokensPerMinute : Rat) ≤ balanceAt old edit s + earnedSinceEdit new edit now := by
  have hold : balanceAt old edit s = min b old.tokensPerMinute := by
    rw [balanceAt_of_get hb hts, max_eq_left (by omega)]
    simp
  have hmoment : max 0 (now - ts) = now - min now ts := by omega
  have hsplit : ((now - min now ts : Int) : Rat) / 1000 * ((new.tokensPerMinute : Rat) / 60) =
      earnedSinceEdit new edit now - earnedSinceEdit new edit (min now ts) := by
    unfold earnedSinceEdit
    push_cast
    ring
  have hearned : 0 ≤ earnedSinceEdit new edit (min now ts) := by
    have hcast : (edit : Rat) ≤ (min now ts : Int) := by exact_mod_cast le_min hedit hafter
    have hseconds := sub_nonneg.mpr hcast
    unfold earnedSinceEdit
    positivity
  rw [balanceAt_of_get hb hts, hmoment, hsplit, min_le_iff]
  apply or_congr_left
  rw [hold]
  constructor
  · intro h
    have hclamp := min_le_right b (old.tokensPerMinute : Rat)
    linarith
  · intro h
    have hkeep : b - earnedSinceEdit new edit (min now ts) ≤ min b old.tokensPerMinute :=
      le_min (by linarith) (by linarith)
    linarith

end Edit

/-- Limits with the given number of tokens per minute. -/
def withTokens (tokens : Nat) (hpos : 0 < tokens) : Limits :=
  { defaultLimits with tokensPerMinute := tokens, tokensPerMinute_pos := hpos }

end RateLimiter.Admission
