import RateLimiter.Limiter.SlidingWindow
import RateLimiter.Limiter.TokenBucket

/-!
# Quotas that change

A rule is edited and a request brings a limit of its own while a key is in use, so the checks
of one key do not agree on their quota, nor on how long the key is to live.  As long as none
is more generous than some quota, what they admit together is within that quota: a bucket that
fills sooner and holds more is spent no faster, and a longer window forgets nothing that a
shorter one remembers.  The checks are made on one clock, in order of time.
-/

namespace RateLimiter.Limiter

open RateLimiter.Redis RateLimiter.Javascript RateLimiter.Foundations

/-- No more generous: no larger limit and no shorter window. -/
structure Quota.Within (q most : Quota) : Prop where
  limit : q.limit ≤ most.limit
  window : most.windowSeconds ≤ q.windowSeconds

theorem Quota.Within.refl (q : Quota) : q.Within q := ⟨le_rfl, le_rfl⟩

theorem Quota.Within.windowMs {q most : Quota} (h : q.Within most) :
    most.windowMs ≤ q.windowMs := Nat.mul_le_mul_right 1000 h.window

/-! ## The token bucket -/

namespace TokenBucketAlgorithm

/-- A check under the quota of its moment. -/
structure EditedCheck where
  quota : Quota
  now : Nat
  cost : Rat

/-- The check without its quota. -/
def EditedCheck.check (c : EditedCheck) : BucketCheck := ⟨c.now, c.cost⟩

/-- The keys a check leaves. -/
def stepEdited (keys : BucketKeys) (c : EditedCheck) : BucketKeys := step c.quota keys c.check

/-- What a check consumes. -/
def consumedEdited (keys : BucketKeys) (c : EditedCheck) : Rat := consumed c.quota keys c.check

section Quotas

variable {q most : Quota} {keys : BucketKeys} {c : EditedCheck} {t t' : Nat}

theorem refillRate_le (h : q.Within most) : refillRate q ≤ refillRate most := by
  unfold refillRate
  have hlimit : (q.limit : Rat) ≤ most.limit := by exact_mod_cast h.limit
  have hwindow : (most.windowSeconds : Rat) ≤ q.windowSeconds := by exact_mod_cast h.window
  have hpos : (0 : Rat) < most.windowSeconds := by exact_mod_cast most.windowSeconds_pos
  exact div_le_div₀ (Nat.cast_nonneg _) hlimit hpos hwindow

/-- The keys of any check outlive the fill of the most generous bucket. -/
theorem fills_within_any_ttl (h : q.Within most) :
    (most.limit : Rat) ≤ ttl q * refillRate most := by
  have hlimit : (q.limit : Rat) ≠ 0 := by exact_mod_cast q.limit_pos.ne'
  have hwindow : (q.limit : Rat) / refillRate q = q.windowSeconds := by
    unfold refillRate
    rw [div_div_cancel₀ hlimit]
  have hlong : most.windowSeconds ≤ ttl q := by
    unfold ttl
    rw [hwindow, Nat.ceil_natCast]
    exact h.window.trans (Nat.le_succ _)
  have hpos : (most.windowSeconds : Rat) ≠ 0 := by exact_mod_cast most.windowSeconds_pos.ne'
  calc (most.limit : Rat) = most.windowSeconds * refillRate most := by
        unfold refillRate
        rw [mul_div_cancel₀ _ hpos]
    _ ≤ ttl q * refillRate most :=
        mul_le_mul_of_nonneg_right (by exact_mod_cast hlong) (refillRate_pos most).le

/-- What a check finds is no debt, and under a more generous quota it would find no less. -/
theorem found_bounds (hstored : StoredNonneg keys) (h : q.Within most) (v : Int) :
    0 ≤ found q keys v ∧ found q keys v ≤ found most keys v := by
  have hrate := refillRate_le h
  have hpos := (refillRate_pos q).le
  have hlimit : (q.limit : Rat) ≤ most.limit := by exact_mod_cast h.limit
  unfold found storedBalance
  split
  next balance last hbalance hlast =>
    have hnonneg := hstored.purged v hbalance
    have hspan : (0 : Rat) ≤ (max 0 (v - last) : Int) / 1000 := by
      have hcast : (0 : Rat) ≤ (max 0 (v - last) : Int) := by
        exact_mod_cast le_max_left 0 (v - last)
      positivity
    have hearned := mul_nonneg hspan hpos
    have hmore := mul_le_mul_of_nonneg_left hrate hspan
    refine ⟨le_min (by linarith) (Nat.cast_nonneg _), ?_⟩
    exact min_le_min (by linarith) hlimit
  next => exact ⟨Nat.cast_nonneg _, hlimit⟩

/-! ### A bucket that is never spent faster -/

/-- The invariant: from `t` on the most generous bucket accrues in the keys, and no debt is
stored. -/
structure Generous (most : Quota) (t : Nat) (keys : BucketKeys) : Prop where
  accrues : AccruesFrom most.limit (refillRate most) t (found most keys)
  stored : StoredNonneg keys

/-- What the quota earns from `t` to `t'`. -/
def earned (most : Quota) (t t' : Nat) : Rat := refillRate most * ((t' : Rat) - t) / 1000

/-- A check keeps the invariant, and what it consumes comes off what it finds. -/
theorem Generous.step (h : Generous most t keys) (hwithin : c.quota.Within most) :
    Generous most c.now (stepEdited keys c) ∧
      found most (stepEdited keys c) c.now + consumedEdited keys c ≤ found most keys c.now := by
  obtain ⟨hnonneg, hmore⟩ := found_bounds h.stored hwithin c.now
  have hremaining : 0 ≤ remaining c.quota keys c.check := remaining_nonneg hnonneg
  have hkeys : stepEdited keys c = ⟨.setEx c.now (remaining c.quota keys c.check) (ttl c.quota),
      .setEx c.now c.now (ttl c.quota)⟩ := step_keys c.quota keys c.check
  have haccrues : ∀ v : Int, (c.now : Int) ≤ v → found most (stepEdited keys c) v =
      accrue (most.limit : Rat) (refillRate most) ((v - c.now : Int) / 1000)
        (remaining c.quota keys c.check) := by
    intro v hv
    rw [hkeys]
    exact storedBalance_setEx (refillRate_pos most).le hremaining (fills_within_any_ttl hwithin) hv
  refine ⟨⟨.of_accrue (refillRate_pos most).le haccrues, ?_⟩, ?_⟩
  · intro balance hbalance
    rw [hkeys] at hbalance
    exact (Option.some.inj hbalance) ▸ hremaining
  · have hnow : found most (stepEdited keys c) c.now ≤ remaining c.quota keys c.check := by
      rw [haccrues c.now le_rfl]
      refine (accrue_le_add _ _ _ _).trans_eq ?_
      rw [sub_self, Int.cast_zero, zero_div, zero_mul, add_zero]
    have hpaid : remaining c.quota keys c.check + consumedEdited keys c =
        found c.quota keys c.now := by
      unfold consumedEdited consumed remaining
      by_cases hcovered : c.check.cost ≤ found c.quota keys c.check.now
      · rw [if_pos hcovered, if_pos (allowed_iff.mpr hcovered)]
        exact sub_add_cancel _ _
      · rw [if_neg hcovered, if_neg fun hallowed => hcovered (allowed_iff.mp hallowed)]
        exact add_zero _
    linarith

theorem generous_absent (most : Quota) (t : Nat) : Generous most t .absent := by
  have hrate := (refillRate_pos most).le
  refine ⟨.of_accrue (b := (most.limit : Rat)) hrate ?_, nofun⟩
  intro v hv
  have hspan : (0 : Rat) ≤ (v - t : Int) := by exact_mod_cast Int.sub_nonneg.mpr hv
  have hearned : 0 ≤ ((v - t : Int) : Rat) / 1000 * refillRate most := by positivity
  have hfull : found most .absent v = most.limit := rfl
  rw [hfull]
  exact (accrue_of_full (by linarith)).symm

/-- The keys are a bucket that checks under any quota spend from. -/
theorem edited_spendsFrom (most : Quota) :
    SpendsFrom stepEdited EditedCheck.now (fun _ c => c.quota.Within most) consumedEdited
      (Generous most) (fun keys t => found most keys t) (most.limit : Rat) (earned most) where
  keeps t keys c h _ hwithin := (h.step hwithin).1
  spends t keys c h _ hwithin := (h.step hwithin).2
  capped t keys t' _ _ := storedBalance_le_capacity _ _ _
  grows t keys t' h hle := by
    have hadd := h.accrues.le_add (by exact_mod_cast hle : (t : Int) ≤ t')
    unfold earned
    exact_mod_cast hadd
  nonneg t keys h := (found_bounds h.stored (Quota.Within.refl most) t).1
  earned_add t t' t'' := by
    unfold earned
    ring
  earned_nonneg t t' hle := by
    have hcast : (t : Rat) ≤ t' := by exact_mod_cast hle
    have hspan : 0 ≤ (t' : Rat) - t := sub_nonneg.mpr hcast
    have hrate := (refillRate_pos most).le
    unfold earned
    positivity

end Quotas

/-- **Token bucket under changing quotas.**  On one clock, in order of time and in exact
arithmetic: whatever quota each check of a key comes with, in any interval no more is admitted
than the limit of a quota that is at least as generous as all of them, and what that quota
earns in the interval. -/
theorem changing_quotas_bucket (most : Quota) (t0 : Nat) (checks : List EditedCheck)
    (hwithin : ∀ c ∈ checks, c.quota.Within most) (htime : Chronological EditedCheck.now t0 checks)
    (a b : Nat) (hab : a ≤ b) :
    tally stepEdited (fun keys c => if a ≤ c.now ∧ c.now ≤ b then consumedEdited keys c else 0)
        .absent checks ≤
      (most.limit : Rat) + (most.limit : Rat) / most.windowSeconds * ((b : Rat) - a) / 1000 :=
  (edited_spendsFrom most).spent_within_le (generous_absent most t0) htime
    (along_of_forall _ hwithin _) hab

/-- Ten a second, until the rule is edited to five in ten seconds. -/
theorem changing_quotas_bucket_edit :
    let ten : Quota := ⟨10, 1, by decide, by decide⟩
    let five : Quota := ⟨5, 10, by decide, by decide⟩
    tally stepEdited (fun keys c => if 0 ≤ c.now ∧ c.now ≤ 2000 then consumedEdited keys c else 0)
        .absent [⟨ten, 0, 10⟩, ⟨five, 1000, 1⟩, ⟨ten, 2000, 5⟩] ≤
      (ten.limit : Rat) +
        (ten.limit : Rat) / ten.windowSeconds * (((2000 : Nat) : Rat) - (0 : Nat)) / 1000 := by
  intro ten five
  apply changing_quotas_bucket ten 0
  · intro c hc
    simp only [List.mem_cons, List.not_mem_nil, or_false] at hc
    rcases hc with rfl | rfl | rfl
    · exact Quota.Within.refl ten
    · exact ⟨by decide, by decide⟩
    · exact Quota.Within.refl ten
  · simp
  · decide

end TokenBucketAlgorithm

/-! ## The sliding window log -/

section Script

variable {κ : Type} [LinearOrder κ] {W : Nat} {key : SortedSet κ} {member k : κ} {score : Int}

/-- A key that lives until `d` at least keeps its members until then. -/
theorem get_purge_of_le {clock : Int} (hlives : ∀ d ∈ key.expireAt, clock ≤ d) (k : κ) :
    (key.purge clock).get k = key.get k := by
  rw [Collection.purge_eq_self hlives]

/-- Pruning keeps what is scored above. -/
theorem get_remRangeByScore {min max : Int} (h : key.get k = some score) (habove : max < score) :
    (key.remRangeByScore min max).get k = some score := by
  have hmem : (⟨k, score⟩ : Σ _ : κ, Int) ∈ key.members.entries :=
    List.of_mem_dlookup h
  have hleft : (⟨k, score⟩ : Σ _ : κ, Int) ∈
      (key.remRangeByScore min max).members.entries := by
    refine List.mem_filter.mpr ⟨hmem, decide_eq_true fun hin => ?_⟩
    exact absurd hin.2 (not_le.mpr habove)
  exact List.mem_dlookup (key.remRangeByScore min max).members.nodupKeys hleft

theorem get_pexpire {clock ms : Int} (hms : 0 < ms) (k : κ) :
    (key.pexpire clock ms).get k = key.get k ∧
      ∀ d ∈ (key.pexpire clock ms).expireAt, d = clock + ms := by
  unfold Collection.pexpire
  rw [if_neg (not_le.mpr hms)]
  split
  next hempty =>
    rw [key.expireAt_of_empty hempty]
    exact ⟨rfl, fun d hd => by cases hd⟩
  next => exact ⟨rfl, fun d hd => (Option.some.inj hd).symm⟩

/-- The script in terms of what is looked up: it admits while the pruned set has room. -/
theorem slidingWindowScript_lookup (clock : Int) (now : Nat) (hW : 0 < W) (maxRequests : Nat)
    (member : κ) (key : SortedSet κ) :
    ((key.remRangeByScore 0 ((now : Int) - W)).card < maxRequests ∧
      (slidingWindowScript clock now W maxRequests member key).2.allowed = true ∧
      ∀ k, (slidingWindowScript clock now W maxRequests member key).1.get k =
        ((key.remRangeByScore 0 ((now : Int) - W)).put member (now : Int)).get k) ∨
    ((slidingWindowScript clock now W maxRequests member key).2.allowed = false ∧
      ∀ k, (slidingWindowScript clock now W maxRequests member key).1.get k =
        (key.remRangeByScore 0 ((now : Int) - W)).get k) := by
  have hpositive : (0 : Int) < W := by omega
  unfold slidingWindowScript
  by_cases hroom : (key.remRangeByScore 0 ((now : Int) - W)).card < maxRequests
  · left
    simp only [if_pos hroom]
    exact ⟨hroom, trivial, fun k => (get_pexpire hpositive k).1⟩
  · right
    simp only [if_neg hroom]
    exact ⟨trivial, fun k => (get_pexpire hpositive k).1⟩

/-- Either way the set lives for a window of the quota from here. -/
theorem slidingWindowScript_expireAt (clock : Int) (now : Nat) (hW : 0 < W) (maxRequests : Nat)
    (member : κ) (key : SortedSet κ) :
    ∀ d ∈ (slidingWindowScript clock now W maxRequests member key).1.expireAt, d = clock + W := by
  rcases slidingWindowScript_spec clock now hW maxRequests member key with
    ⟨-, -, -, hexpire⟩ | ⟨-, -, -, hexpire⟩
  · exact hexpire
  · exact hexpire

end Script

section Covers

variable {κ : Type} [LinearOrder κ] {member : Stamp → κ} {W t now limit : Nat}
  {key : SortedSet κ} {admitted : List Stamp} {stamp : Stamp}

/-- The key has at least those of the admitted requests that are in a window of `W`, and lives
no shorter than they count. -/
def Covers (member : Stamp → κ) (W t : Nat) (key : SortedSet κ) (admitted : List Stamp) : Prop :=
  ∃ last, last ≤ t ∧ (∀ s ∈ admitted, s.now ≤ last) ∧
    (∀ s ∈ admitted, last < s.now + W → key.get (member s) = some (s.now : Int)) ∧
    ∀ d ∈ key.expireAt, (last : Int) + W ≤ d

theorem covers_absent (member : Stamp → κ) (W t : Nat) : Covers member W t .absent [] :=
  ⟨t, le_rfl, by simp, by simp, nofun⟩

theorem Covers.mono (h : Covers member W t key admitted) (hle : t ≤ now) :
    Covers member W now key admitted := by
  obtain ⟨last, hlast, hrest⟩ := h
  exact ⟨last, hlast.trans hle, hrest⟩

/-- What expiry and the pruning of a window leave at `now`. -/
def leftAt (window now : Nat) (key : SortedSet κ) : SortedSet κ :=
  SortedSet.remRangeByScore 0 ((now : Int) - window) (key.purge now)

/-- With a longer window they leave what is in the shorter one. -/
theorem Covers.left (h : Covers member W t key admitted) (hle : t ≤ now) {longer : Nat}
    (hlonger : W ≤ longer) {s : Stamp} (hs : s ∈ admitted) (hin : now < s.now + W) :
    (leftAt longer now key).get (member s) = some (s.now : Int) := by
  obtain ⟨last, hlast, hadmitted, hkept, hexpire⟩ := h
  have hearly := hadmitted s hs
  have hlives : ∀ d ∈ key.expireAt, (now : Int) ≤ d := by
    intro d hd
    have hend := hexpire d hd
    omega
  have hfound : (key.purge now).get (member s) = some (s.now : Int) := by
    rw [get_purge_of_le hlives]
    exact hkept s hs (by omega)
  exact get_remRangeByScore hfound (by omega)

/-- So there are no fewer of them than are counted. -/
theorem Covers.inWindow_le (hmember : Function.Injective member)
    (h : Covers member W t key admitted) (hle : t ≤ now) {longer : Nat} (hlonger : W ≤ longer)
    (hnodup : admitted.Nodup) :
    inWindow W now (admitted.map Stamp.now) ≤ (leftAt longer now key).card := by
  have hlatest : ∀ a ∈ admitted.map Stamp.now, a ≤ now := by
    intro a ha
    obtain ⟨s, hs, rfl⟩ := List.mem_map.mp ha
    obtain ⟨last, hlast, hadmitted, -⟩ := h
    exact (hadmitted s hs).trans (hlast.trans hle)
  have hdistinct : ((admitted.filter fun s => now < s.now + W).map member).Nodup :=
    (hnodup.filter _).map hmember
  have hthere : ∀ k ∈ (admitted.filter fun s => now < s.now + W).map member,
      ∃ score, (leftAt longer now key).get k = some score := by
    intro k hk
    obtain ⟨s, hs, rfl⟩ := List.mem_map.mp hk
    obtain ⟨hmem, hin⟩ := List.mem_filter.mp hs
    exact ⟨_, h.left hle hlonger hmem (of_decide_eq_true hin)⟩
  have hcard := Collection.length_le_card hdistinct hthere
  rw [List.length_map] at hcard
  rw [inWindow_of_latest hlatest, List.countP_map, List.countP_eq_length_filter]
  exact hcard

/-- One check under a quota that is no more generous. -/
theorem Covers.check (hmember : Function.Injective member) (h : Covers member W t key admitted)
    (hle : t ≤ now) {q : Quota} (hwindow : W ≤ q.windowMs) (hlimit : q.limit ≤ limit)
    (hnodup : admitted.Nodup) (hnow : stamp.now = now) (hfresh : stamp ∉ admitted) :
    (inWindow W now (admitted.map Stamp.now) < limit ∧
      (slidingWindowScript now now q.windowMs q.limit (member stamp) (key.purge now)).2.allowed =
        true ∧
      Covers member W now
        (slidingWindowScript now now q.windowMs q.limit (member stamp) (key.purge now)).1
        (stamp :: admitted)) ∨
    ((slidingWindowScript now now q.windowMs q.limit (member stamp) (key.purge now)).2.allowed =
        false ∧
      Covers member W now
        (slidingWindowScript now now q.windowMs q.limit (member stamp) (key.purge now)).1
        admitted) := by
  have hcount := h.inWindow_le hmember hle hwindow hnodup
  have hlatest : ∀ s ∈ admitted, s.now ≤ now := by
    obtain ⟨last, hlast, hadmitted, -⟩ := h
    exact fun s hs => (hadmitted s hs).trans (hlast.trans hle)
  have hexpire : ∀ d ∈ (slidingWindowScript now now q.windowMs q.limit (member stamp)
      (key.purge now)).1.expireAt, (now : Int) + W ≤ d := by
    intro d hd
    rw [slidingWindowScript_expireAt now now q.windowMs_pos q.limit (member stamp) _ d hd]
    omega
  rcases slidingWindowScript_lookup now now q.windowMs_pos q.limit (member stamp) (key.purge now)
    with ⟨hroom, hallowed, hlookup⟩ | ⟨hrejected, hlookup⟩
  · left
    refine ⟨(hcount.trans_lt hroom).trans_le hlimit, hallowed, now, le_rfl,
      List.forall_mem_cons.mpr ⟨hnow.le, hlatest⟩, ?_, hexpire⟩
    intro s hs hin
    rw [hlookup]
    rcases List.mem_cons.mp hs with rfl | hold
    · rw [Collection.get_put, hnow]
    · have hne : member s ≠ member stamp := fun hsame => hfresh (hmember hsame ▸ hold)
      rw [Collection.get_put_of_ne hne]
      exact h.left hle hwindow hold hin
  · right
    refine ⟨hrejected, now, le_rfl, hlatest, ?_, hexpire⟩
    intro s hs hin
    rw [hlookup]
    exact h.left hle hwindow hs hin

end Covers

namespace SlidingWindowAlgorithm

/-- A check under the quota of its moment. -/
structure EditedCall (Process : Type) where
  quota : Quota
  call : Call Process

section Processes

variable {Process : Type} [DecidableEq Process]

/-- When a check is made. -/
def EditedCall.now {Process : Type} (c : EditedCall Process) : Nat := c.call.now

/-- What a check leaves. -/
def stepEdited (pid : Process → Nat) (s : State Process) (c : EditedCall Process) :
    State Process := step c.quota pid s c.call

/-- Is it a check of the key that is allowed? -/
def allowedEdited (pid : Process → Nat) (s : State Process) (c : EditedCall Process) : Bool :=
  allowed c.quota pid s c.call

/-- Counts the checks of the key that are allowed in the `W` milliseconds that end at `t`. -/
def editedWithin (pid : Process → Nat) (W t : Nat) (s : State Process) (c : EditedCall Process) :
    Nat := if allowedEdited pid s c ∧ t < c.now + W ∧ c.now ≤ t then 1 else 0

/-- What is known before the calls still to come: the key covers the admitted requests, which
are within the limit; each has a number its process has passed, and none the stamp of a check
still to come from another process. -/
structure Kept (most : Quota) (pid : Process → Nat) (t : Nat) (s : State Process)
    (admitted : List (Process × Stamp)) (calls : List (Call Process)) : Prop where
  covers : Covers Stamp.member most.windowMs t s.key (admitted.map Prod.snd)
  nodup : (admitted.map Prod.snd).Nodup
  within : WithinLimit most.limit most.windowMs (admitted.map fun x => x.2.now)
  passed : ∀ x ∈ admitted, x.2.sequence < s.sequence x.1
  apart : ∀ x ∈ admitted, ∀ y ∈ stamps pid s.sequence calls, x.1 ≠ y.1 → x.2 ≠ y.2

variable {most : Quota} {pid : Process → Nat} {t : Nat} {s : State Process}
  {c : EditedCall Process} {calls : List (Call Process)} {admitted : List (Process × Stamp)}

/-- A check of the key brings a stamp that has not been admitted. -/
theorem Kept.fresh (h : Kept most pid t s admitted (c.call :: calls))
    (hhere : c.call.here = true) : stamp pid s.sequence c.call ∉ admitted.map Prod.snd := by
  intro hmem
  obtain ⟨⟨p, x⟩, hx, hsame⟩ := List.mem_map.mp hmem
  by_cases hp : p = c.call.process
  · -- its own process has counted on since
    have hpassed : x.sequence < s.sequence p := h.passed _ hx
    have hcount : x.sequence = s.sequence c.call.process := congrArg Stamp.sequence hsame
    rw [hp] at hpassed
    omega
  · refine h.apart _ hx (c.call.process, stamp pid s.sequence c.call) ?_ hp hsame
    rw [stamps_here hhere]
    exact List.mem_cons_self

theorem Kept.latest (h : Kept most pid t s admitted calls) (hle : t ≤ c.now) :
    ∀ a ∈ admitted.map fun x => x.2.now, a ≤ c.now := by
  intro a ha
  obtain ⟨x, hx, rfl⟩ := List.mem_map.mp ha
  obtain ⟨last, hlast, hadmitted, -⟩ := h.covers
  exact (hadmitted x.2 (List.mem_map_of_mem hx)).trans (hlast.trans hle)

/-- A check of another key keeps what is known. -/
theorem Kept.elsewhere (h : Kept most pid t s admitted (c.call :: calls)) (hle : t ≤ c.now)
    (hother : c.call.here = false) : Kept most pid c.now (stepEdited pid s c) admitted calls := by
  unfold stepEdited
  rw [(step_elsewhere c.quota pid s hother).1]
  refine ⟨h.covers.mono hle, h.nodup, h.within, fun x hx => lt_bump (h.passed x hx), ?_⟩
  intro x hx y hy
  exact h.apart x hx y (by rw [stamps_elsewhere hother]; exact hy)

/-- A check of the key finds room in the window that ends with it when it is allowed, and then
its stamp is admitted. -/
theorem Kept.here (h : Kept most pid t s admitted (c.call :: calls)) (hle : t ≤ c.now)
    (hwithin : c.quota.Within most) (hhere : c.call.here = true)
    (hlater : ∀ y ∈ stamps pid (bump s.sequence c.call) calls,
      c.call.process ≠ y.1 → stamp pid s.sequence c.call ≠ y.2) :
    (allowedEdited pid s c = true ∧
      Kept most pid c.now (stepEdited pid s c)
        ((c.call.process, stamp pid s.sequence c.call) :: admitted) calls) ∨
    (allowedEdited pid s c = false ∧
      Kept most pid c.now (stepEdited pid s c) admitted calls) := by
  obtain ⟨hstep, hverdict⟩ := step_here c.quota pid s hhere
  have hnow : (stamp pid s.sequence c.call).now = c.now := rfl
  have htimes : (admitted.map Prod.snd).map Stamp.now = admitted.map fun x => x.2.now := by
    rw [List.map_map]
    rfl
  have hfresh := h.fresh hhere
  have hpassed : ∀ x ∈ admitted, x.2.sequence < bump s.sequence c.call x.1 :=
    fun x hx => lt_bump (h.passed x hx)
  have hapart : ∀ x ∈ admitted, ∀ y ∈ stamps pid (bump s.sequence c.call) calls,
      x.1 ≠ y.1 → x.2 ≠ y.2 := by
    intro x hx y hy
    refine h.apart x hx y ?_
    rw [stamps_here hhere]
    exact List.mem_cons_of_mem _ hy
  unfold stepEdited allowedEdited
  rcases h.covers.check Stamp.member_injective hle hwithin.windowMs hwithin.limit h.nodup hnow
    hfresh with ⟨hroom, hallowed, hcovers⟩ | ⟨hrejected, hcovers⟩
  · left
    rw [htimes] at hroom
    refine ⟨hverdict.trans hallowed, ?_⟩
    rw [hstep]
    refine ⟨hcovers, List.nodup_cons.mpr ⟨hfresh, h.nodup⟩, h.within.cons (h.latest hle) hroom,
      ?_, List.forall_mem_cons.mpr ⟨hlater, hapart⟩⟩
    refine List.forall_mem_cons.mpr ⟨?_, hpassed⟩
    show s.sequence c.call.process < bump s.sequence c.call c.call.process
    unfold bump
    rw [Function.update_self]
    exact Nat.lt_succ_self _
  · right
    refine ⟨hverdict.trans hrejected, ?_⟩
    rw [hstep]
    exact ⟨hcovers, h.nodup, h.within, hpassed, hapart⟩

/-- One check, of whichever key: what it allows joins the admitted requests. -/
theorem Kept.step (h : Kept most pid t s admitted (c.call :: calls)) (hle : t ≤ c.now)
    (hwithin : c.quota.Within most)
    (hstamps : (stamps pid s.sequence (c.call :: calls)).Pairwise
      fun x y => x.1 ≠ y.1 → x.2 ≠ y.2) :
    ∃ admitted', Kept most pid c.now (stepEdited pid s c) admitted' calls ∧
      (∀ u, inWindow most.windowMs u (admitted'.map fun x => x.2.now) =
        inWindow most.windowMs u (admitted.map fun x => x.2.now) +
          editedWithin pid most.windowMs u s c) ∧
      (stamps pid (stepEdited pid s c).sequence calls).Pairwise fun x y =>
        x.1 ≠ y.1 → x.2 ≠ y.2 := by
  have hfree : allowedEdited pid s c = false → ∀ u, editedWithin pid most.windowMs u s c = 0 := by
    intro hrejected u
    unfold editedWithin
    rw [hrejected]
    exact if_neg fun hin => Bool.false_ne_true hin.1
  cases hhere : c.call.here with
  | false =>
      obtain ⟨hstep, hverdict⟩ := step_elsewhere c.quota pid s hhere
      rw [stamps_elsewhere hhere] at hstamps
      refine ⟨admitted, h.elsewhere hle hhere, ?_, ?_⟩
      · intro u
        rw [hfree hverdict, Nat.add_zero]
      · unfold stepEdited
        rw [hstep]
        exact hstamps
  | true =>
      rw [stamps_here hhere] at hstamps
      obtain ⟨hlater, hstamps⟩ := List.pairwise_cons.mp hstamps
      have hsequence : (stepEdited pid s c).sequence = bump s.sequence c.call := by
        unfold stepEdited
        rw [(step_here c.quota pid s hhere).1]
      rw [hsequence]
      rcases h.here hle hwithin hhere hlater with ⟨hallowed, hnext⟩ | ⟨hrejected, hnext⟩
      · refine ⟨_, hnext, ?_, hstamps⟩
        intro u
        rw [List.map_cons, inWindow_cons]
        unfold editedWithin
        rw [hallowed]
        simp only [true_and]
        rfl
      · refine ⟨admitted, hnext, ?_, hstamps⟩
        intro u
        rw [hfree hrejected, Nat.add_zero]

theorem kept_start (most : Quota) (pid : Process → Nat) (t : Nat) (calls : List (Call Process)) :
    Kept most pid t .start [] calls :=
  ⟨covers_absent _ _ _, List.nodup_nil, withinLimit_nil _ _, fun _ hx => (List.not_mem_nil hx).elim,
    fun _ hx => (List.not_mem_nil hx).elim⟩

/-- The rule for whole runs. -/
theorem Kept.run {checks : List (EditedCall Process)}
    (h : Kept most pid t s admitted (checks.map EditedCall.call))
    (hwithin : ∀ c ∈ checks, c.quota.Within most) (htime : Chronological EditedCall.now t checks)
    (hstamps : (stamps pid s.sequence (checks.map EditedCall.call)).Pairwise
      fun x y => x.1 ≠ y.1 → x.2 ≠ y.2) (u : Nat) :
    inWindow most.windowMs u (admitted.map fun x => x.2.now) +
      tally (stepEdited pid) (editedWithin pid most.windowMs u) s checks ≤ most.limit := by
  induction checks generalizing t s admitted with
  | nil => exact h.within u
  | cons c checks ih =>
      obtain ⟨hle, htime⟩ := htime
      obtain ⟨hfirst, hrest⟩ := List.forall_mem_cons.mp hwithin
      obtain ⟨admitted', hnext, hcount, hstamps⟩ := h.step hle hfirst hstamps
      have hlimit := ih hnext hrest htime hstamps
      rw [hcount] at hlimit
      rw [tally_cons]
      omega

end Processes

/-- **Sliding window under changing quotas.**  On one clock and in order of time: whatever quota
each check of a key comes with, while no two processes bring the same member no window of the
most generous quota holds more than its limit of admitted checks. -/
theorem changing_quotas_log {Process : Type} [DecidableEq Process] (most : Quota)
    (pid : Process → Nat) (t0 : Nat) (checks : List (EditedCall Process))
    (hwithin : ∀ c ∈ checks, c.quota.Within most)
    (htime : Chronological EditedCall.now t0 checks)
    (hapart : NoCollision pid (checks.map EditedCall.call)) (t : Nat) :
    tally (stepEdited pid) (editedWithin pid most.windowMs t) .start checks ≤ most.limit := by
  have hrun := (kept_start most pid t0 (checks.map EditedCall.call)).run hwithin htime hapart t
  exact (Nat.le_add_left _ _).trans hrun

/-- One a minute in between does not make room for a third in the second. -/
theorem changing_quotas_log_edit :
    let aMinute : Quota := ⟨1, 60, by decide, by decide⟩
    let checks : List (EditedCall Unit) := [⟨twoASecond, ⟨(), 0, true⟩⟩, ⟨aMinute, ⟨(), 100, true⟩⟩,
      ⟨twoASecond, ⟨(), 200, true⟩⟩, ⟨twoASecond, ⟨(), 300, true⟩⟩]
    tally (stepEdited fun _ => 7) (editedWithin (fun _ => 7) twoASecond.windowMs 300) .start
      checks ≤ twoASecond.limit := by
  intro aMinute checks
  apply changing_quotas_log twoASecond (fun _ => 7) 0 checks
  · intro c hc
    simp only [checks, List.mem_cons, List.not_mem_nil, or_false] at hc
    rcases hc with rfl | rfl | rfl | rfl
    · exact Quota.Within.refl _
    · exact ⟨by decide, by decide⟩
    · exact Quota.Within.refl _
    · exact Quota.Within.refl _
  · simp [checks, EditedCall.now]
  · unfold NoCollision
    decide +kernel

end SlidingWindowAlgorithm

end RateLimiter.Limiter
