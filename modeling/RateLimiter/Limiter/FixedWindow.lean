import Mathlib.Algebra.Order.Floor.Semiring
import RateLimiter.Foundations.Runs
import RateLimiter.Javascript.Numerals
import RateLimiter.Limiter.Checks
import RateLimiter.Redis.Keys

/-!
# The fixed window counter

The code names a counter after the window it is for, and `FIXED_WINDOW_SCRIPT` works out
the same window a second time, to tell when it ends and to let the counter die then.
-/

namespace RateLimiter.Limiter

open RateLimiter.Redis RateLimiter.Javascript RateLimiter.Foundations

/-- `FIXED_WINDOW_SCRIPT`. -/
def fixedWindowScript (clock : Int) (maxRequests windowSeconds now : Nat) (key : StringKey Int) :
    StringKey Int × Verdict :=
  let windowMs := windowSeconds * 1000
  let resetAt : Int := (now / windowMs + 1 : Nat) * windowMs
  let ttlMs := resetAt - now
  let count := key.get.getD 0
  if count < maxRequests then
    let counted := key.incr clock ttlMs
    (counted.2,
      { allowed := true
        count := counted.1
        resetAt := resetAt
        retryAfterMs := 0 })
  else
    (key.pexpire clock ttlMs,
      { allowed := false
        count := count
        resetAt := resetAt
        retryAfterMs := ttlMs })

namespace FixedWindowAlgorithm

/-- The counters of the server, by the text of their keys. -/
abbrev Counters := JsString → StringKey Int

def windowIndex (now windowSeconds : Nat) : Nat := now / (windowSeconds * 1000)

def key (key : JsString) (windowIndex : Nat) : JsString :=
  js "rate_limit:fixed_window:" ++ key ++ js ":" ++ natText windowIndex

/-- `check`, at the server's `clock`. -/
def check (clock : Int) (q : Quota) (name : JsString) (now : Nat) (cost : Rat)
    (counters : Counters) : Except Thrown (Counters × RateLimitCheckResult) :=
  if cost ≠ 1 then
    .error (.error (js "fixed_window does not support a cost other than 1"))
  else
    let redisKey := key name (windowIndex now q.windowSeconds)
    let out := fixedWindowScript clock q.limit q.windowSeconds now
      ((counters redisKey).purge clock)
    .ok (Function.update counters redisKey out.1,
      checkResult q.limit (max 0 (q.limit - out.2.count)) out.2)

end FixedWindowAlgorithm

/-! ## The window of a call -/

namespace FixedWindowAlgorithm

/-- The instant at which the window with this index is over. -/
def windowEnd (q : Quota) (index : Nat) : Nat := (index + 1) * q.windowMs

variable (q : Quota) (now : Nat)

theorem lt_windowEnd : now < windowEnd q (windowIndex now q.windowSeconds) := by
  unfold windowEnd windowIndex
  rw [Nat.mul_comm]
  exact Nat.lt_mul_div_succ now q.windowMs_pos

theorem windowEnd_le : windowEnd q (windowIndex now q.windowSeconds) ≤ now + q.windowMs := by
  unfold windowEnd windowIndex
  rw [Nat.succ_mul]
  exact Nat.add_le_add_right (Nat.div_mul_le_self _ _) _

/-- The instants in an interval of one window's length lie in two windows, one after the
other. -/
theorem windowIndex_of_interval {a now : Nat} (hstart : a ≤ now) (hend : now ≤ a + q.windowMs) :
    windowIndex now q.windowSeconds = windowIndex a q.windowSeconds ∨
      windowIndex now q.windowSeconds = windowIndex a q.windowSeconds + 1 := by
  have hlow : windowIndex a q.windowSeconds ≤ windowIndex now q.windowSeconds :=
    Nat.div_le_div_right hstart
  have hhigh : windowIndex now q.windowSeconds ≤ (a + q.windowMs) / q.windowMs :=
    Nat.div_le_div_right hend
  rw [Nat.add_div_right _ q.windowMs_pos] at hhigh
  exact (Nat.le_iff_lt_or_eq.mp hhigh).imp
    (fun hlt => le_antisymm (Nat.lt_succ_iff.mp hlt) hlow) id

theorem key_injective (name : JsString) : Function.Injective (key name) := by
  intro i j h
  exact natText_injective (List.append_cancel_left h)

/-! ## What a call does -/

/-- The counter of a window, after `n` calls in it. -/
def counter (q : Quota) (index n : Nat) : StringKey Int :=
  if n = 0 then none else some ⟨(min q.limit n : Nat), windowEnd q index⟩

theorem get_counter (index n : Nat) :
    (counter q index n).get.getD 0 = (min q.limit n : Nat) := by
  unfold counter
  split
  next hnone => rw [hnone, Nat.min_zero]; rfl
  next => rfl

theorem purge_counter {index : Nat} (hlive : now < windowEnd q index) (n : Nat) :
    (counter q index n).purge now = counter q index n := by
  unfold counter
  split
  next => rfl
  next =>
    apply StringKey.purge_some_of_le
    show (now : Int) ≤ windowEnd q index
    exact_mod_cast hlive.le

/-- On the counter of its window a call counts itself while there is room, and what it
leaves lives to the end of the window. -/
theorem fixedWindowScript_counter (n : Nat) :
    fixedWindowScript now q.limit q.windowSeconds now
        (counter q (windowIndex now q.windowSeconds) n) =
      (counter q (windowIndex now q.windowSeconds) (n + 1),
        { allowed := decide (n < q.limit)
          count := (min q.limit (n + 1) : Nat)
          resetAt := windowEnd q (windowIndex now q.windowSeconds)
          retryAfterMs :=
            if n < q.limit then 0
            else windowEnd q (windowIndex now q.windowSeconds) - now }) := by
  have hend := lt_windowEnd q now
  have hreset : ((now / (q.windowSeconds * 1000) + 1 : Nat) : Int) *
      ((q.windowSeconds * 1000 : Nat) : Int) = windowEnd q (windowIndex now q.windowSeconds) := by
    rw [← Nat.cast_mul]
    rfl
  have httl : (0 : Int) < windowEnd q (windowIndex now q.windowSeconds) - now := by omega
  have hlives : (now : Int) + (windowEnd q (windowIndex now q.windowSeconds) - now) =
      windowEnd q (windowIndex now q.windowSeconds) := by omega
  have hcounted : counter q (windowIndex now q.windowSeconds) (n + 1) =
      some ⟨(min q.limit (n + 1) : Nat), windowEnd q (windowIndex now q.windowSeconds)⟩ :=
    if_neg (Nat.succ_ne_zero n)
  unfold fixedWindowScript
  simp only [hreset, get_counter]
  by_cases hroom : n < q.limit
  · have hcount : min q.limit n = n := Nat.min_eq_right hroom.le
    have hnext : min q.limit (n + 1) = n + 1 := Nat.min_eq_right hroom
    have hfound : ((min q.limit n : Nat) : Int) < q.limit := by
      rw [hcount]
      exact_mod_cast hroom
    rw [if_pos hfound, if_pos hroom, decide_eq_true hroom, hcounted]
    rw [StringKey.incr_of_pos httl, get_counter, hlives, hcount, hnext]
    rfl
  · have hfull := not_lt.mp hroom
    have hcount : min q.limit n = q.limit := Nat.min_eq_left hfull
    have hnext : min q.limit (n + 1) = q.limit := Nat.min_eq_left (hfull.trans (Nat.le_succ n))
    have hkept : counter q (windowIndex now q.windowSeconds) n =
        some ⟨(min q.limit n : Nat), windowEnd q (windowIndex now q.windowSeconds)⟩ :=
      if_neg (Nat.ne_of_gt (q.limit_pos.trans_le hfull))
    rw [hcount, if_neg (lt_irrefl _), if_neg hroom, decide_eq_false hroom, hcounted, hkept,
      StringKey.pexpire_of_pos httl, hlives, hcount, hnext]

/-- The script reports the end of the window the code has named the counter after. -/
theorem fixedWindowScript_resetAt (clock : Int) (counter : StringKey Int) :
    (fixedWindowScript clock q.limit q.windowSeconds now counter).2.resetAt =
      windowEnd q (windowIndex now q.windowSeconds) := by
  unfold windowEnd
  rw [Nat.cast_mul]
  unfold fixedWindowScript
  dsimp only
  split <;> rfl

/-- A call changes the counter of its window alone and reports the end of that window. -/
theorem check_spec (clock : Int) (name : JsString) (counters : Counters) :
    ∃ counters' result, check clock q name now 1 counters = .ok (counters', result) ∧
      (∀ k, k ≠ key name (windowIndex now q.windowSeconds) → counters' k = counters k) ∧
      result.resetAt = windowEnd q (windowIndex now q.windowSeconds) := by
  refine ⟨_, _, if_neg (not_not.mpr rfl), fun k hk => Function.update_of_ne hk _ _, ?_⟩
  exact fixedWindowScript_resetAt q now clock _

/-! ## Runs -/

/-- A call on the clock it shares with the server. -/
structure Call where
  now : Nat
  cost : Rat

/-- What a call leaves. -/
def step (q : Quota) (name : JsString) (counters : Counters) (c : Call) : Counters :=
  match check c.now q name c.now c.cost counters with
  | .ok (counters', _) => counters'
  | .error _ => counters

/-- Is the call allowed? -/
def allowed (q : Quota) (name : JsString) (counters : Counters) (c : Call) : Bool :=
  match check c.now q name c.now c.cost counters with
  | .ok (_, result) => result.allowed
  | .error _ => false

/-- Is it a call of the window, and not one of a cost that is refused with an error? -/
def InWindow (q : Quota) (index : Nat) (c : Call) : Prop :=
  c.cost = 1 ∧ windowIndex c.now q.windowSeconds = index

instance (q : Quota) (index : Nat) : DecidablePred (InWindow q index) :=
  fun c => inferInstanceAs (Decidable (c.cost = 1 ∧ _ = index))

/-- Counts the calls of the window that are allowed. -/
def allowedIn (q : Quota) (name : JsString) (index : Nat) (counters : Counters) (c : Call) :
    Nat :=
  if allowed q name counters c ∧ windowIndex c.now q.windowSeconds = index then 1 else 0

/-- Counts the calls that are allowed from `a` to the end of one window's length. -/
def allowedFrom (q : Quota) (name : JsString) (a : Rat) (counters : Counters) (c : Call) : Nat :=
  if allowed q name counters c ∧ a ≤ c.now ∧ (c.now : Rat) ≤ a + q.windowMs then 1 else 0

variable {q} {name : JsString} {counters : Counters} {c : Call} {index t n : Nat}

/-- A call of another cost is refused before it reaches the server. -/
theorem step_refused (hcost : c.cost ≠ 1) :
    step q name counters c = counters ∧ allowed q name counters c = false := by
  unfold step allowed check
  rw [if_pos hcost]
  exact ⟨rfl, rfl⟩

/-- A call of another window leaves the counter alone. -/
theorem step_elsewhere (hindex : windowIndex c.now q.windowSeconds ≠ index) :
    step q name counters c (key name index) = counters (key name index) := by
  unfold step check
  by_cases hcost : c.cost ≠ 1
  · rw [if_pos hcost]
  · rw [if_neg hcost]
    exact Function.update_of_ne (fun h => hindex (key_injective name h).symm) _ _

/-- A call of the window is allowed while the calls before it are fewer than the limit, and
is counted. -/
theorem step_counted (hcall : InWindow q index c)
    (hcounter : counters (key name index) = counter q index n) :
    step q name counters c (key name index) = counter q index (n + 1) ∧
      allowed q name counters c = decide (n < q.limit) := by
  obtain ⟨hcost, rfl⟩ := hcall
  have hlive := lt_windowEnd q c.now
  unfold step allowed check
  rw [if_neg (not_not.mpr hcost)]
  simp only [hcounter, purge_counter q c.now hlive, fixedWindowScript_counter]
  exact ⟨Function.update_self _ _ _, rfl⟩

/-- Of the `n` calls of the window so far as many were allowed as the limit has room for,
and until the window is over its counter has counted them. -/
def Counted (q : Quota) (name : JsString) (index t : Nat) (m : Nat × Nat)
    (counters : Counters) : Prop :=
  m.1 = min q.limit m.2 ∧
    (t < windowEnd q index → counters (key name index) = counter q index m.2)

theorem Counted.step {m : Nat × Nat} (h : Counted q name index t m counters) (hle : t ≤ c.now) :
    Counted q name index c.now
      (m + (allowedIn q name index counters c, if InWindow q index c then 1 else 0))
      (step q name counters c) := by
  obtain ⟨hallowed, hcounter⟩ := h
  by_cases hcall : InWindow q index c
  · have hlive : c.now < windowEnd q index := hcall.2 ▸ lt_windowEnd q c.now
    obtain ⟨hnext, hverdict⟩ := step_counted hcall (hcounter (hle.trans_lt hlive))
    refine ⟨?_, fun _ => ?_⟩
    · unfold allowedIn
      rw [if_pos hcall, hverdict]
      simp only [decide_eq_true_eq, hcall.2, and_true, Prod.fst_add, Prod.snd_add]
      split <;> omega
    · rw [if_pos hcall]
      exact hnext
  · have hfree : allowedIn q name index counters c = 0 := by
      refine if_neg fun hin => ?_
      by_cases hcost : c.cost = 1
      · exact hcall ⟨hcost, hin.2⟩
      · have hrefused : allowed q name counters c = false := (step_refused hcost).2
        rw [hrefused] at hin
        exact Bool.false_ne_true hin.1
    rw [hfree, if_neg hcall]
    refine ⟨hallowed, fun hlive => ?_⟩
    have hkept : FixedWindowAlgorithm.step q name counters c (key name index) =
        counters (key name index) := by
      by_cases hcost : c.cost = 1
      · exact step_elsewhere fun hindex => hcall ⟨hcost, hindex⟩
      · rw [(step_refused hcost).1]
    rw [hkept]
    exact hcounter (hle.trans_lt hlive)

/-- Of the calls of a window as many are allowed as the limit has room for. -/
theorem allowedIn_eq (q : Quota) (name : JsString) (index : Nat) {t0 : Nat} {calls : List Call}
    (htime : Chronological Call.now t0 calls) :
    tally (FixedWindowAlgorithm.step q name) (allowedIn q name index) (fun _ => none) calls =
      min q.limit (calls.countP fun c => InWindow q index c) := by
  have hstart : Counted q name index t0 0 fun _ => none :=
    ⟨(Nat.min_zero _).symm, fun _ => rfl⟩
  have hrun := timed_run Call.now (FixedWindowAlgorithm.step q name) _
    (fun _ _ _ _ h hle _ => h.step hle) hstart htime
    (along_of_forall _ (Q := fun _ => True) (fun _ _ => trivial) _)
  rw [tally_prodMk, tally_eq_countP, zero_add] at hrun
  exact hrun.1

/-- An interval of one window's length is shared by two windows. -/
theorem allowedFrom_le (q : Quota) (name : JsString) (a : Rat) (calls : List Call) :
    tally (FixedWindowAlgorithm.step q name) (allowedFrom q name a) (fun _ => none) calls ≤
      tally (FixedWindowAlgorithm.step q name)
          (allowedIn q name (windowIndex ⌈a⌉₊ q.windowSeconds)) (fun _ => none) calls +
        tally (FixedWindowAlgorithm.step q name)
          (allowedIn q name (windowIndex ⌈a⌉₊ q.windowSeconds + 1)) (fun _ => none) calls := by
  refine tally_le_add _ ?_ _ _
  intro counters c
  unfold allowedFrom
  split
  next hin =>
    obtain ⟨hallowed, hstart, hend⟩ := hin
    have hfirst : ⌈a⌉₊ ≤ c.now := Nat.ceil_le.mpr hstart
    have hlast : c.now ≤ ⌈a⌉₊ + q.windowMs := by
      have hceil := Nat.le_ceil a
      have hcast : (c.now : Rat) ≤ (⌈a⌉₊ + q.windowMs : Nat) := by
        push_cast
        linarith
      exact_mod_cast hcast
    unfold allowedIn
    rcases windowIndex_of_interval q hfirst hlast with hindex | hindex
    · rw [if_pos ⟨hallowed, hindex⟩]
      exact Nat.le_add_right _ _
    · rw [if_pos (c := allowed q name counters c ∧ _ = windowIndex _ _ + 1) ⟨hallowed, hindex⟩]
      exact Nat.le_add_left _ _
  next => exact Nat.zero_le _

/-- **Fixed window.**  In every window as many calls are allowed as the limit has room for,
so an interval of the same length sees at most twice the limit; and the window a call names
its counter after is the one whose end it reports. -/
theorem fixed_window_bound (q : Quota) (name : JsString) :
    (∀ (t0 : Nat) (calls : List Call), Chronological Call.now t0 calls →
      (∀ index, tally (FixedWindowAlgorithm.step q name) (allowedIn q name index)
          (fun _ => none) calls = min q.limit (calls.countP fun c => InWindow q index c)) ∧
        ∀ a, tally (FixedWindowAlgorithm.step q name) (allowedFrom q name a)
          (fun _ => none) calls ≤ 2 * q.limit) ∧
      ∀ (clock : Int) (now : Nat) (counters : Counters), ∃ counters' result,
        check clock q name now 1 counters = .ok (counters', result) ∧
          (∀ k, k ≠ key name (windowIndex now q.windowSeconds) → counters' k = counters k) ∧
          result.resetAt = ((windowIndex now q.windowSeconds + 1) * q.windowMs : Nat) ∧
          0 < result.resetAt - now ∧ result.resetAt - now ≤ q.windowMs := by
  refine ⟨fun t0 calls htime => ⟨fun index => allowedIn_eq q name index htime, fun a => ?_⟩, ?_⟩
  · have hshared := allowedFrom_le q name a calls
    rw [allowedIn_eq q name _ htime, allowedIn_eq q name _ htime] at hshared
    omega
  · intro clock now counters
    obtain ⟨counters', result, hcheck, hframe, hreset⟩ := check_spec q now clock name counters
    have hlow := lt_windowEnd q now
    have hhigh := windowEnd_le q now
    refine ⟨counters', result, hcheck, hframe, hreset, ?_, ?_⟩
    · rw [hreset]
      omega
    · rw [hreset]
      omega

/-- Two a second: three calls in the first window, the last of them at its end, and one at
the start of the next. -/
theorem fixed_window_bound_boundary :
    tally (FixedWindowAlgorithm.step ⟨2, 1, by decide, by decide⟩ (js "a"))
        (allowedIn ⟨2, 1, by decide, by decide⟩ (js "a") 0) (fun _ => none)
        [⟨990, 1⟩, ⟨990, 1⟩, ⟨999, 1⟩, ⟨1000, 1⟩] =
      min 2 (([⟨990, 1⟩, ⟨990, 1⟩, ⟨999, 1⟩, ⟨1000, 1⟩] : List Call).countP fun c =>
        InWindow ⟨2, 1, by decide, by decide⟩ 0 c) :=
  ((fixed_window_bound ⟨2, 1, by decide, by decide⟩ (js "a")).1 0 _ (by simp)).1 0

end FixedWindowAlgorithm

end RateLimiter.Limiter
