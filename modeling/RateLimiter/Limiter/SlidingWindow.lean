import Mathlib.Data.List.Lex
import RateLimiter.Foundations.Joining
import RateLimiter.Foundations.Runs
import RateLimiter.Foundations.Windows
import RateLimiter.Javascript.Numerals
import RateLimiter.Limiter.Checks
import RateLimiter.Redis.Ranges

/-!
# The sliding window log

`SLIDING_WINDOW_SCRIPT` keeps one member of a sorted set for every request it admits,
so it counts them exactly as long as no two requests bring the same member.  A member
is the text of the time, of the process id and of a counter of the process: unique
within a process, and between processes whose ids differ.
-/

namespace RateLimiter.Limiter

open RateLimiter.Redis RateLimiter.Javascript RateLimiter.Foundations

/-- `SLIDING_WINDOW_SCRIPT`. -/
def slidingWindowScript {κ : Type} [LinearOrder κ] (clock : Int) (now windowMs maxRequests : Nat)
    (member : κ) (key : SortedSet κ) : SortedSet κ × Verdict :=
  let pruned := key.remRangeByScore 0 ((now : Int) - windowMs)
  let count := pruned.card
  if count < maxRequests then
    ((pruned.put member (now : Int)).pexpire clock windowMs,
      { allowed := true
        count := count + 1
        resetAt := now + windowMs
        retryAfterMs := 0 })
  else
    -- capacity frees up when the oldest request in the window ages out
    let retryAfterMs : Int :=
      match pruned.first? with
      | some oldest => max 0 (oldest.2 + windowMs - now)
      | none => windowMs
    (pruned.pexpire clock windowMs,
      { allowed := false
        count := count
        resetAt := now + retryAfterMs
        retryAfterMs := retryAfterMs })

/-! ## Members -/

/-- What a member is made of. -/
structure Stamp where
  now : Nat
  pid : Nat
  sequence : Nat
deriving DecidableEq

/-- The text of a member. -/
def Stamp.member (s : Stamp) : JsString :=
  natText s.now ++ js "-" ++ natText s.pid ++ js "-" ++ natText s.sequence

theorem hyphen_not_mem_natText (n : Nat) : unit '-' ∉ natText n := by
  intro hmem
  have hdigit := isDigit_of_mem_natText hmem
  revert hdigit
  decide

/-- A member tells what it is made of. -/
theorem Stamp.member_injective : Function.Injective Stamp.member := by
  have hhyphen : js "-" = [unit '-'] := by decide +kernel
  have hmember : ∀ s : Stamp, s.member = join (unit '-')
      (natText s.now, join (unit '-') (natText s.pid, natText s.sequence)) := by
    intro s
    unfold Stamp.member join
    rw [hhyphen]
    simp
  have hsplit : ∀ {m n : Nat} {x y : JsString},
      join (unit '-') (natText m, x) = join (unit '-') (natText n, y) → m = n ∧ x = y := by
    intro m n x y h
    have hpair := (join_eq_join_iff.mp h).resolve_right
      (not_overlap_of_not_mem (hyphen_not_mem_natText m) (hyphen_not_mem_natText n))
    exact ⟨natText_injective (Prod.mk.inj hpair).1, (Prod.mk.inj hpair).2⟩
  rintro ⟨now, pid, sequence⟩ ⟨now', pid', sequence'⟩ h
  rw [hmember, hmember] at h
  obtain ⟨hnow, hrest⟩ := hsplit h
  obtain ⟨hpid, hsequence⟩ := hsplit hrest
  simp only at hnow hpid hsequence
  rw [hnow, hpid, natText_injective hsequence]

namespace SlidingWindowAlgorithm

/-- `check` in a process, with its counter, at the server's `clock`. -/
def check (clock : Int) (q : Quota) (now pid : Nat) (cost : Rat) (sequence : Nat)
    (key : SortedSet JsString) :
    Except Thrown ((SortedSet JsString × Nat) × RateLimitCheckResult) :=
  if cost ≠ 1 then
    .error (.error (js "sliding_window does not support a cost other than 1"))
  else
    let out := slidingWindowScript clock now q.windowMs q.limit
      (Stamp.member ⟨now, pid, sequence⟩) (key.purge clock)
    .ok ((out.1, sequence + 1), checkResult q.limit (max 0 (q.limit - out.2.count)) out.2)

end SlidingWindowAlgorithm

/-! ## What the script does -/

section Script

variable {κ : Type} [LinearOrder κ]

/-- The script admits while the pruned set has room and adds its member then; either way
the set lives for another window. -/
theorem slidingWindowScript_spec (clock : Int) (now : Nat) {W : Nat} (hW : 0 < W)
    (maxRequests : Nat) (member : κ) (key : SortedSet κ) :
    ((key.remRangeByScore 0 ((now : Int) - W)).card < maxRequests ∧
      (slidingWindowScript clock now W maxRequests member key).2.allowed = true ∧
      (member ∉ (key.remRangeByScore 0 ((now : Int) - W)).members.entries.keys →
        (slidingWindowScript clock now W maxRequests member key).1.members.entries =
          ⟨member, now⟩ :: (key.remRangeByScore 0 ((now : Int) - W)).members.entries) ∧
      ∀ d ∈ (slidingWindowScript clock now W maxRequests member key).1.expireAt,
        d = clock + W) ∨
    (maxRequests ≤ (key.remRangeByScore 0 ((now : Int) - W)).card ∧
      (slidingWindowScript clock now W maxRequests member key).2.allowed = false ∧
      (slidingWindowScript clock now W maxRequests member key).1.members =
        (key.remRangeByScore 0 ((now : Int) - W)).members ∧
      ∀ d ∈ (slidingWindowScript clock now W maxRequests member key).1.expireAt,
        d = clock + W) := by
  have hpositive : ¬ (W : Int) ≤ 0 := by omega
  have hmembers : ∀ c : SortedSet κ, (c.pexpire clock W).members = c.members ∧
      ∀ d ∈ (c.pexpire clock W).expireAt, d = clock + W := by
    intro c
    unfold Collection.pexpire
    rw [if_neg hpositive]
    split
    next hempty =>
      rw [c.expireAt_of_empty hempty]
      exact ⟨rfl, fun d hd => by cases hd⟩
    next => exact ⟨rfl, fun d hd => (Option.some.inj hd).symm⟩
  unfold slidingWindowScript
  by_cases hroom : (key.remRangeByScore 0 ((now : Int) - W)).card < maxRequests
  · left
    simp only [if_pos hroom]
    refine ⟨hroom, trivial, fun hnew => ?_, (hmembers _).2⟩
    rw [(hmembers _).1]
    exact Collection.entries_put_of_notMem hnew _
  · right
    simp only [if_neg hroom]
    exact ⟨not_lt.mp hroom, trivial, hmembers _⟩

/-- A request that is admitted is told that capacity is back a window later. -/
theorem slidingWindowScript_admits (clock : Int) {now W maxRequests : Nat} (member : κ)
    {key : SortedSet κ} (hroom : (key.remRangeByScore 0 ((now : Int) - W)).card < maxRequests) :
    (slidingWindowScript clock now W maxRequests member key).2.resetAt = (now : Int) + W := by
  unfold slidingWindowScript
  simp only [if_pos hroom]

/-- One that is rejected is told to wait until the oldest request ages out. -/
theorem slidingWindowScript_rejects (clock : Int) {now W maxRequests : Nat} (member : κ)
    {key : SortedSet κ} (hpositive : 0 < maxRequests)
    (hfull : maxRequests ≤ (key.remRangeByScore 0 ((now : Int) - W)).card) :
    ∃ oldest ∈ (key.remRangeByScore 0 ((now : Int) - W)).members.entries,
      (∀ other ∈ (key.remRangeByScore 0 ((now : Int) - W)).members.entries,
        oldest.2 ≤ other.2) ∧
      (slidingWindowScript clock now W maxRequests member key).2.retryAfterMs =
        max 0 (oldest.2 + W - now) ∧
      (slidingWindowScript clock now W maxRequests member key).2.resetAt =
        now + max 0 (oldest.2 + W - now) := by
  have hsome : (key.remRangeByScore 0 ((now : Int) - W)).members.entries ≠ [] :=
    List.ne_nil_of_length_pos (hpositive.trans_le hfull)
  obtain ⟨oldest, hmem, hfirst, hleast⟩ := SortedSet.first?_of_ne_nil hsome
  refine ⟨oldest, hmem, hleast, ?_⟩
  unfold slidingWindowScript
  simp only [if_neg (not_lt.mpr hfull), hfirst, and_self]

end Script

/-! ## The log -/

section Log

variable {W t now : Nat} {key : SortedSet JsString} {admitted : List Stamp}

/-- The member and the score an admitted request leaves. -/
def Stamp.entry (s : Stamp) : Σ _ : JsString, Int := ⟨s.member, s.now⟩

/-- The key is the log at `t` of the admitted requests: since the last call it holds the
members of those still in its window, and it lives no shorter than they count. -/
def Logs (W t : Nat) (key : SortedSet JsString) (admitted : List Stamp) : Prop :=
  ∃ last, last ≤ t ∧ (∀ s ∈ admitted, s.now ≤ last) ∧
    key.members.entries.Perm ((admitted.filter fun s => last < s.now + W).map Stamp.entry) ∧
    ∀ d ∈ key.expireAt, d = last + W

/-- The call at `last` has left the log of the admitted requests. -/
def LoggedAt (W last : Nat) (key : SortedSet JsString) (admitted : List Stamp) : Prop :=
  (∀ s ∈ admitted, s.now ≤ last) ∧
    key.members.entries.Perm ((admitted.filter fun s => last < s.now + W).map Stamp.entry) ∧
    ∀ d ∈ key.expireAt, d = last + W

theorem loggedAt_absent (W last : Nat) : LoggedAt W last .absent [] :=
  ⟨by simp, List.Perm.refl _, fun d hd => by cases hd⟩

theorem LoggedAt.logs (h : LoggedAt W t key admitted) : Logs W t key admitted := ⟨t, le_rfl, h⟩

theorem logs_absent (W t : Nat) : Logs W t .absent [] := (loggedAt_absent W t).logs

theorem Logs.mono (h : Logs W t key admitted) (hle : t ≤ now) : Logs W now key admitted := by
  obtain ⟨last, hlast, hrest⟩ := h
  exact ⟨last, hlast.trans hle, hrest⟩

/-- What expiry and pruning leave of the log at `now`. -/
def prunedAt (W now : Nat) (key : SortedSet JsString) : SortedSet JsString :=
  SortedSet.remRangeByScore 0 ((now : Int) - W) (key.purge now)

/-- What expiry and pruning leave at `now` are the members of the requests admitted in the
window that ends there. -/
theorem Logs.pruned (h : Logs W t key admitted) (hle : t ≤ now) :
    (prunedAt W now key).members.entries.Perm
      ((admitted.filter fun s => now < s.now + W).map Stamp.entry) := by
  obtain ⟨last, hlast, hadmitted, hentries, hexpire⟩ := h
  unfold prunedAt Collection.purge
  split
  next hgone =>
    -- the key is gone only when all it held has left the window
    obtain ⟨d, hd⟩ : ∃ d, key.expireAt = some d := by
      cases hd : key.expireAt with
      | none => simp [hd] at hgone
      | some d => exact ⟨d, rfl⟩
    have hend := hexpire d hd
    have hlate : d < (now : Int) := by simpa [hd] using hgone
    have hempty : (admitted.filter fun s => now < s.now + W) = [] := by
      rw [List.filter_eq_nil_iff]
      intro s hs
      have hs := hadmitted s hs
      simp only [decide_eq_true_eq]
      omega
    rw [hempty]
    exact List.Perm.refl _
  next =>
    refine (hentries.filter _).trans ?_
    rw [List.filter_map, List.filter_filter]
    refine List.Perm.of_eq (congrArg _ (List.filter_congr ?_))
    intro s hs
    have hs := hadmitted s hs
    rw [Bool.eq_iff_iff]
    simp only [Function.comp_apply, Stamp.entry, Bool.and_eq_true, decide_eq_true_eq]
    refine (and_congr_left' decide_eq_true_iff).trans ?_
    omega

/-- The set the script decides on counts the requests admitted in the window. -/
theorem Logs.card_pruned (h : Logs W t key admitted) (hle : t ≤ now) :
    (prunedAt W now key).card = inWindow W now (admitted.map Stamp.now) := by
  have hpruned := (h.pruned hle).length_eq
  have hlatest : ∀ a ∈ admitted.map Stamp.now, a ≤ now := by
    intro a ha
    obtain ⟨s, hs, rfl⟩ := List.mem_map.mp ha
    obtain ⟨last, hlast, hadmitted, -⟩ := h
    exact (hadmitted s hs).trans (hlast.trans hle)
  rw [inWindow_of_latest hlatest, List.countP_map, List.countP_eq_length_filter]
  rw [List.length_map] at hpruned
  exact hpruned

/-- One call on the log: it is admitted while its window has room, and a member that is
new is logged then. -/
theorem Logs.loggedAt (h : Logs W t key admitted) (hle : t ≤ now) (hW : 0 < W) (limit : Nat)
    {stamp : Stamp} (hnow : stamp.now = now) (hfresh : stamp ∉ admitted) :
    (inWindow W now (admitted.map Stamp.now) < limit ∧
      (slidingWindowScript now now W limit stamp.member (key.purge now)).2.allowed = true ∧
      LoggedAt W now (slidingWindowScript now now W limit stamp.member (key.purge now)).1
        (stamp :: admitted)) ∨
    (limit ≤ inWindow W now (admitted.map Stamp.now) ∧
      (slidingWindowScript now now W limit stamp.member (key.purge now)).2.allowed = false ∧
      LoggedAt W now (slidingWindowScript now now W limit stamp.member (key.purge now)).1
        admitted) := by
  have hpruned := h.pruned hle
  have hcard := h.card_pruned hle
  have hlatest : ∀ s ∈ admitted, s.now ≤ now := by
    obtain ⟨last, hlast, hadmitted, -⟩ := h
    exact fun s hs => (hadmitted s hs).trans (hlast.trans hle)
  rcases slidingWindowScript_spec now now hW limit stamp.member (key.purge now) with
    ⟨hroom, hallowed, hmembers, hexpire⟩ | ⟨hfull, hrejected, hmembers, hexpire⟩
  · left
    change (prunedAt W now key).card < limit at hroom
    rw [hcard] at hroom
    refine ⟨hroom, hallowed, ?_, ?_, hexpire⟩
    · exact List.forall_mem_cons.mpr ⟨hnow.le, hlatest⟩
    · have hnew : stamp.member ∉
          (prunedAt W now key).members.entries.keys := by
        intro hmem
        have hkeys := (hpruned.map Sigma.fst).mem_iff.mp hmem
        simp only [List.map_map, List.mem_map, List.mem_filter] at hkeys
        obtain ⟨s, ⟨hs, -⟩, hsame⟩ := hkeys
        exact hfresh (Stamp.member_injective hsame ▸ hs)
      have hstays : ((stamp :: admitted).filter fun s => now < s.now + W) =
          stamp :: admitted.filter fun s => now < s.now + W :=
        List.filter_cons_of_pos (decide_eq_true (by omega))
      have hentry : stamp.entry = ⟨stamp.member, (now : Int)⟩ := by rw [Stamp.entry, hnow]
      rw [hmembers hnew, hstays, List.map_cons, hentry]
      exact hpruned.cons _
  · right
    change limit ≤ (prunedAt W now key).card at hfull
    rw [hcard] at hfull
    refine ⟨hfull, hrejected, hlatest, ?_, hexpire⟩
    rw [hmembers]
    exact hpruned

end Log

/-! ## Processes -/

namespace SlidingWindowAlgorithm

/-- A check made by a process, of the key in question or of another one: the counter of
the process is the same for all keys. -/
structure Call (Process : Type) where
  process : Process
  now : Nat
  here : Bool

/-- The key in question and the counters of the processes. -/
structure State (Process : Type) where
  key : SortedSet JsString
  sequence : Process → Nat

/-- No key, and every counter at zero. -/
def State.start {Process : Type} : State Process := ⟨.absent, fun _ => 0⟩

section Processes

variable {Process : Type} [DecidableEq Process] {q : Quota} {pid : Process → Nat}

/-- The member a check brings is made of this. -/
def stamp (pid : Process → Nat) (sequence : Process → Nat) (c : Call Process) : Stamp :=
  ⟨c.now, pid c.process, sequence c.process⟩

/-- The counters after a check. -/
def bump (sequence : Process → Nat) (c : Call Process) : Process → Nat :=
  Function.update sequence c.process (sequence c.process + 1)

/-- The check of a call, on the clock the call shares with the server. -/
def checked (q : Quota) (pid : Process → Nat) (s : State Process) (c : Call Process) :
    Except Thrown ((SortedSet JsString × Nat) × RateLimitCheckResult) :=
  check c.now q c.now (pid c.process) 1 (s.sequence c.process) s.key

/-- What a call leaves. -/
def step (q : Quota) (pid : Process → Nat) (s : State Process) (c : Call Process) :
    State Process :=
  match checked q pid s c with
  | .ok ((key, sequence), _) =>
      { key := if c.here then key else s.key
        sequence := Function.update s.sequence c.process sequence }
  | .error _ => s

/-- Is the call a check of the key that is allowed? -/
def allowed (q : Quota) (pid : Process → Nat) (s : State Process) (c : Call Process) : Bool :=
  match checked q pid s c with
  | .ok (_, result) => c.here && result.allowed
  | .error _ => false

/-- Counts the checks of the key that are allowed in the window that ends at `t`. -/
def allowedWithin (q : Quota) (pid : Process → Nat) (t : Nat) (s : State Process)
    (c : Call Process) : Nat :=
  if allowed q pid s c ∧ t < c.now + q.windowMs ∧ c.now ≤ t then 1 else 0

/-- What the checks of the key are stamped with, by the process that makes them. -/
def stamps (pid : Process → Nat) : (Process → Nat) → List (Call Process) → List (Process × Stamp)
  | _, [] => []
  | sequence, c :: calls =>
      if c.here then (c.process, stamp pid sequence c) :: stamps pid (bump sequence c) calls
      else stamps pid (bump sequence c) calls

/-- No two checks of the key by different processes carry the same time, the same pid and
the same sequence number. -/
def NoCollision (pid : Process → Nat) (calls : List (Call Process)) : Prop :=
  (stamps pid (fun _ => 0) calls).Pairwise fun x y => x.1 ≠ y.1 → x.2 ≠ y.2

omit [DecidableEq Process] in
theorem checked_eq (q : Quota) (pid : Process → Nat) (s : State Process) (c : Call Process) :
    checked q pid s c =
      .ok (((slidingWindowScript c.now c.now q.windowMs q.limit (stamp pid s.sequence c).member
          (s.key.purge c.now)).1, s.sequence c.process + 1),
        checkResult q.limit
          (max 0 (q.limit - (slidingWindowScript c.now c.now q.windowMs q.limit
            (stamp pid s.sequence c).member (s.key.purge c.now)).2.count))
          (slidingWindowScript c.now c.now q.windowMs q.limit (stamp pid s.sequence c).member
            (s.key.purge c.now)).2) := by
  unfold checked check
  rw [if_neg (by decide)]
  rfl

/-- A check of another key only moves the counter. -/
theorem step_elsewhere (q : Quota) (pid : Process → Nat) (s : State Process) {c : Call Process}
    (h : c.here = false) :
    step q pid s c = ⟨s.key, bump s.sequence c⟩ ∧ allowed q pid s c = false := by
  unfold step allowed
  rw [checked_eq, h]
  exact ⟨rfl, rfl⟩

/-- A check of the key runs the script and moves the counter. -/
theorem step_here (q : Quota) (pid : Process → Nat) (s : State Process) {c : Call Process}
    (h : c.here = true) :
    step q pid s c =
        ⟨(slidingWindowScript c.now c.now q.windowMs q.limit (stamp pid s.sequence c).member
          (s.key.purge c.now)).1, bump s.sequence c⟩ ∧
      allowed q pid s c =
        (slidingWindowScript c.now c.now q.windowMs q.limit (stamp pid s.sequence c).member
          (s.key.purge c.now)).2.allowed := by
  unfold step allowed
  rw [checked_eq, h]
  exact ⟨rfl, rfl⟩

/-! ## Runs -/

/-- What is known before the calls still to come: the key is the log of the admitted
requests, which are within the limit; each carries the pid of its process and a number its
counter has passed; and none carries the stamp of a check still to come from another
process. -/
structure Exact (q : Quota) (pid : Process → Nat) (t : Nat) (s : State Process)
    (admitted : List (Process × Stamp)) (calls : List (Call Process)) : Prop where
  logs : Logs q.windowMs t s.key (admitted.map Prod.snd)
  within : WithinLimit q.limit q.windowMs (admitted.map fun x => x.2.now)
  passed : ∀ x ∈ admitted, x.2.sequence < s.sequence x.1
  apart : ∀ x ∈ admitted, ∀ y ∈ stamps pid s.sequence calls, x.1 ≠ y.1 → x.2 ≠ y.2

theorem lt_bump {sequence : Process → Nat} {c : Call Process} {p : Process} {n : Nat}
    (h : n < sequence p) : n < bump sequence c p := by
  unfold bump
  by_cases hp : p = c.process
  · subst hp
    rw [Function.update_self]
    exact Nat.lt_succ_of_lt h
  · rw [Function.update_of_ne hp]
    exact h

theorem stamps_here {sequence : Process → Nat} {c : Call Process} (h : c.here = true)
    (calls : List (Call Process)) :
    stamps pid sequence (c :: calls) =
      (c.process, stamp pid sequence c) :: stamps pid (bump sequence c) calls := if_pos h

theorem stamps_elsewhere {sequence : Process → Nat} {c : Call Process} (h : c.here = false)
    (calls : List (Call Process)) :
    stamps pid sequence (c :: calls) = stamps pid (bump sequence c) calls :=
  if_neg (Bool.eq_false_iff.mp h)

variable {t : Nat} {s : State Process} {c : Call Process} {calls : List (Call Process)}
  {admitted : List (Process × Stamp)}

/-- A check of another key keeps what is known. -/
theorem Exact.elsewhere (h : Exact q pid t s admitted (c :: calls)) (hle : t ≤ c.now)
    (hother : c.here = false) : Exact q pid c.now (step q pid s c) admitted calls := by
  rw [(step_elsewhere q pid s hother).1]
  refine ⟨h.logs.mono hle, h.within, fun x hx => lt_bump (h.passed x hx), ?_⟩
  intro x hx y hy
  exact h.apart x hx y (by rw [stamps_elsewhere hother]; exact hy)

/-- A check of the key brings a stamp that has not been admitted. -/
theorem Exact.fresh (h : Exact q pid t s admitted (c :: calls)) (hhere : c.here = true) :
    stamp pid s.sequence c ∉ admitted.map Prod.snd := by
  intro hmem
  obtain ⟨⟨p, x⟩, hx, hsame⟩ := List.mem_map.mp hmem
  by_cases hp : p = c.process
  · -- its own process has counted on since
    have hpassed := h.passed _ hx
    subst hp
    simp only at hsame hpassed
    rw [hsame] at hpassed
    exact lt_irrefl _ hpassed
  · refine h.apart _ hx (c.process, stamp pid s.sequence c) ?_ hp hsame
    rw [stamps_here hhere]
    exact List.mem_cons_self

/-- A check of the key is allowed exactly while the window that ends with it has room, and
then its stamp is admitted. -/
theorem Exact.here (h : Exact q pid t s admitted (c :: calls)) (hle : t ≤ c.now)
    (hhere : c.here = true)
    (hlater : ∀ y ∈ stamps pid (bump s.sequence c) calls,
      c.process ≠ y.1 → stamp pid s.sequence c ≠ y.2) :
    (allowed q pid s c = true ∧
      Exact q pid c.now (step q pid s c) ((c.process, stamp pid s.sequence c) :: admitted)
        calls) ∨
    (allowed q pid s c = false ∧
      q.limit ≤ inWindow q.windowMs c.now (admitted.map fun x => x.2.now) ∧
      Exact q pid c.now (step q pid s c) admitted calls) := by
  obtain ⟨hstep, hverdict⟩ := step_here q pid s hhere
  have hnow : (stamp pid s.sequence c).now = c.now := rfl
  have htimes : (admitted.map Prod.snd).map Stamp.now = admitted.map fun x => x.2.now := by
    rw [List.map_map]
    rfl
  have hapart : ∀ x ∈ admitted, ∀ y ∈ stamps pid (bump s.sequence c) calls,
      x.1 ≠ y.1 → x.2 ≠ y.2 := by
    intro x hx y hy
    refine h.apart x hx y ?_
    rw [stamps_here hhere]
    exact List.mem_cons_of_mem _ hy
  have hlatest : ∀ a ∈ admitted.map fun x => x.2.now, a ≤ c.now := by
    intro a ha
    obtain ⟨x, hx, rfl⟩ := List.mem_map.mp ha
    obtain ⟨last, hlast, hadmitted, -⟩ := h.logs
    exact (hadmitted x.2 (List.mem_map_of_mem hx)).trans (hlast.trans hle)
  have hpassed : ∀ x ∈ admitted, x.2.sequence < bump s.sequence c x.1 :=
    fun x hx => lt_bump (h.passed x hx)
  rcases h.logs.loggedAt hle q.windowMs_pos q.limit hnow (h.fresh hhere) with
    ⟨hroom, hallowed, hlogs⟩ | ⟨hfull, hrejected, hlogs⟩
  · left
    rw [htimes] at hroom
    refine ⟨hverdict.trans hallowed, ?_⟩
    rw [hstep]
    refine ⟨hlogs.logs, h.within.cons hlatest hroom, ?_, ?_⟩
    · refine List.forall_mem_cons.mpr ⟨?_, hpassed⟩
      show s.sequence c.process < bump s.sequence c c.process
      unfold bump
      rw [Function.update_self]
      exact Nat.lt_succ_self _
    · exact List.forall_mem_cons.mpr ⟨hlater, hapart⟩
  · right
    rw [htimes] at hfull
    refine ⟨hverdict.trans hrejected, hfull, ?_⟩
    rw [hstep]
    exact ⟨hlogs.logs, h.within, hpassed, hapart⟩

/-- One call, of whichever kind: what it allows joins the admitted requests, and a check it
rejects has found its window full. -/
theorem Exact.call (h : Exact q pid t s admitted (c :: calls)) (hle : t ≤ c.now)
    (hstamps : (stamps pid s.sequence (c :: calls)).Pairwise fun x y => x.1 ≠ y.1 → x.2 ≠ y.2) :
    ∃ admitted', Exact q pid c.now (step q pid s c) admitted' calls ∧
      (∀ u, inWindow q.windowMs u (admitted'.map fun x => x.2.now) =
        inWindow q.windowMs u (admitted.map fun x => x.2.now) + allowedWithin q pid u s c) ∧
      (c.here = true → allowed q pid s c = false →
        q.limit ≤ inWindow q.windowMs c.now (admitted.map fun x => x.2.now)) ∧
      (stamps pid (step q pid s c).sequence calls).Pairwise fun x y => x.1 ≠ y.1 → x.2 ≠ y.2 := by
  have hfree : allowed q pid s c = false → ∀ u, allowedWithin q pid u s c = 0 := by
    intro hrejected u
    unfold allowedWithin
    rw [hrejected]
    exact if_neg fun hin => Bool.false_ne_true hin.1
  cases hhere : c.here with
  | false =>
      rw [stamps_elsewhere hhere] at hstamps
      obtain ⟨hstep, hverdict⟩ := step_elsewhere q pid s hhere
      refine ⟨admitted, h.elsewhere hle hhere, ?_, fun hh => (Bool.false_ne_true hh).elim, ?_⟩
      · intro u
        rw [hfree hverdict, Nat.add_zero]
      · rw [hstep]
        exact hstamps
  | true =>
      rw [stamps_here hhere] at hstamps
      obtain ⟨hlater, hstamps⟩ := List.pairwise_cons.mp hstamps
      have hsequence : (step q pid s c).sequence = bump s.sequence c := by
        rw [(step_here q pid s hhere).1]
      rw [hsequence]
      rcases h.here hle hhere hlater with ⟨hallowed, hnext⟩ | ⟨hrejected, hfound, hnext⟩
      · refine ⟨_, hnext, ?_, fun _ hrejected => ?_, hstamps⟩
        · intro u
          rw [List.map_cons, inWindow_cons]
          unfold allowedWithin
          rw [hallowed]
          simp only [true_and]
          rfl
        · rw [hallowed] at hrejected
          cases hrejected
      · refine ⟨admitted, hnext, ?_, fun _ _ => hfound, hstamps⟩
        intro u
        rw [hfree hrejected, Nat.add_zero]

/-- The rule for whole runs: every window of the admitted requests and of the run together
is within the limit, and a rejected check finds its window full. -/
theorem Exact.run (h : Exact q pid t s admitted calls)
    (htime : Chronological Call.now t calls)
    (hstamps : (stamps pid s.sequence calls).Pairwise fun x y => x.1 ≠ y.1 → x.2 ≠ y.2) :
    (∀ u, inWindow q.windowMs u (admitted.map fun x => x.2.now) +
        tally (step q pid) (allowedWithin q pid u) s calls ≤ q.limit) ∧
      ∀ before c after, calls = before ++ c :: after → c.here = true →
        allowed q pid (run (step q pid) s before) c = false →
        q.limit ≤ inWindow q.windowMs c.now (admitted.map fun x => x.2.now) +
          tally (step q pid) (allowedWithin q pid c.now) s before := by
  induction calls generalizing t s admitted with
  | nil =>
      refine ⟨fun u => h.within u, ?_⟩
      intro before c after hsplit
      cases before <;> cases hsplit
  | cons c calls ih =>
      obtain ⟨hle, htime⟩ := htime
      obtain ⟨admitted', hnext, hcount, hfound, hstamps⟩ := h.call hle hstamps
      obtain ⟨hlimit, hfull⟩ := ih hnext htime hstamps
      refine ⟨?_, ?_⟩
      · intro u
        have hu := hlimit u
        rw [hcount] at hu
        rw [tally_cons]
        omega
      · intro before c' after hsplit hhere hrejected
        cases before with
        | nil =>
            cases hsplit
            exact hfound hhere hrejected
        | cons d before =>
            cases hsplit
            have hend := hfull before c' after rfl hhere hrejected
            rw [hcount] at hend
            rw [tally_cons]
            omega

theorem exact_start (q : Quota) (pid : Process → Nat) (t : Nat) (calls : List (Call Process)) :
    Exact q pid t .start [] calls :=
  ⟨logs_absent _ _, withinLimit_nil _ _, fun _ hx => (List.not_mem_nil hx).elim,
    fun _ hx => (List.not_mem_nil hx).elim⟩

end Processes

/-- **Sliding window.**  While no two processes bring the same member, no window holds more
than the limit of admitted checks, and a check is rejected only when the window that ends
with it holds as many. -/
theorem sliding_window_exact {Process : Type} [DecidableEq Process] (q : Quota)
    (pid : Process → Nat) (t0 : Nat) (calls : List (Call Process))
    (htime : Chronological Call.now t0 calls) (hapart : NoCollision pid calls) :
    (∀ t, tally (step q pid) (allowedWithin q pid t) .start calls ≤ q.limit) ∧
      ∀ before c after, calls = before ++ c :: after → c.here = true →
        allowed q pid (run (step q pid) .start before) c = false →
        tally (step q pid) (allowedWithin q pid c.now) .start before = q.limit := by
  obtain ⟨hlimit, hfull⟩ := (exact_start q pid t0 calls).run htime hapart
  have hnone : ∀ u, inWindow q.windowMs u
      (([] : List (Process × Stamp)).map fun x => x.2.now) = 0 := fun u => rfl
  simp only [hnone, Nat.zero_add] at hlimit hfull
  refine ⟨hlimit, ?_⟩
  intro before c after hsplit hhere hrejected
  refine le_antisymm ?_ (hfull before c after hsplit hhere hrejected)
  have hwhole := hlimit c.now
  rw [hsplit, tally_append] at hwhole
  exact (Nat.le_add_right _ _).trans hwhole

/-- Two requests a second. -/
def twoASecond : Quota := ⟨2, 1, by decide, by decide⟩

/-- The checks of two processes, each twice in the same millisecond. -/
def fourChecks : List (Call Bool) :=
  [⟨true, 0, true⟩, ⟨false, 0, true⟩, ⟨true, 0, true⟩, ⟨false, 0, true⟩]

/-- Their pids differ, so two of the four checks are allowed at most. -/
theorem sliding_window_exact_two_pids :
    tally (step twoASecond Bool.toNat) (allowedWithin twoASecond Bool.toNat 0) .start
      fourChecks ≤ twoASecond.limit :=
  (sliding_window_exact twoASecond Bool.toNat 0 fourChecks (by simp [fourChecks])
    (by unfold NoCollision; decide +kernel)).1 0

/-- Two containers run their gateway under the same pid; their first checks in one
millisecond leave a single member, and a third check is allowed over a limit of two. -/
theorem equal_pids_share_member :
    ¬ ∀ (q : Quota) (pid : Bool → Nat) (calls : List (Call Bool)),
      Chronological Call.now 0 calls →
      (∀ t, tally (step q pid) (allowedWithin q pid t) .start calls ≤ q.limit) ∧
        ∀ before c after, calls = before ++ c :: after → c.here = true →
          allowed q pid (run (step q pid) .start before) c = false →
          tally (step q pid) (allowedWithin q pid c.now) .start before = q.limit := by
  intro h
  have hlimit := (h twoASecond (fun _ => 1) fourChecks (by simp [fourChecks])).1 0
  revert hlimit
  decide +kernel

end SlidingWindowAlgorithm

end RateLimiter.Limiter
