import RateLimiter.Foundations.Metering
import RateLimiter.Limiter.Service
import RateLimiter.Redis.Ranges

/-!
# One contract for two windows

Whatever it stores, a window is a meter: at any instant it has room for a number of checks,
and its verdict, the wait it names to a caller it rejects and the instant at which it says
capacity is back are all about that room.
-/

namespace RateLimiter.Limiter

open RateLimiter.Redis RateLimiter.Javascript RateLimiter.Foundations

/-! ## Checks of one key -/

/-- Nothing is stored; the process may have counted checks of other keys. -/
def Stores.start (sequence : Nat) : Stores :=
  ⟨fun _ => .absent, fun _ => .absent, fun _ => none, sequence⟩

section Checks

variable (check : IRateLimitAlgorithm) (q : Quota) (name : JsString)

/-- The result of a check at `now`, on the clock it shares with the server. -/
def resultAt (stores : Stores) (now : Nat) : Option RateLimitCheckResult :=
  match check now q now name stores with
  | .ok (_, result) => some result
  | .error _ => none

/-- What the check leaves. -/
def stepAt (stores : Stores) (now : Nat) : Stores :=
  match check now q now name stores with
  | .ok (stores', _) => stores'
  | .error _ => stores

/-- Is the check allowed? -/
def allowedAt (stores : Stores) (now : Nat) : Bool :=
  match check now q now name stores with
  | .ok (_, result) => result.allowed
  | .error _ => false

variable {check q name} in
theorem checkAt_of_ok {stores stores' : Stores} {now : Nat} {result : RateLimitCheckResult}
    (h : check now q now name stores = .ok (stores', result)) :
    resultAt check q name stores now = some result ∧
      stepAt check q name stores now = stores' ∧
      allowedAt check q name stores now = result.allowed := by
  unfold resultAt stepAt allowedAt
  rw [h]
  exact ⟨rfl, rfl, rfl⟩

/-- What a check promises.  It is answered, by the room there is.  A caller it rejects has
room from the end of the wait it is told on, and not before.  At the instant that is
reported as the reset there is room for a whole limit exactly when capacity was regained. -/
structure Contract (room : Stores → Nat → Nat) (known : Nat → List Nat → Stores → Prop)
    (regained : Nat → List Nat → Prop) : Prop where
  meters : Meters (stepAt check q name) (allowedAt check q name) room known
  answers : ∀ t granted s v, known t granted s → t ≤ v →
    ∃ result, resultAt check q name s v = some result ∧
      result.allowed = allowedAt check q name s v ∧
      (result.allowed = false → ∃ w : Nat, result.retryAfterMs = some (w : Int) ∧ 0 < w ∧
        ∀ u, v ≤ u → (0 < room (stepAt check q name s v) u ↔ v + w ≤ u)) ∧
      ∃ T : Nat, result.resetAt = T ∧ v ≤ T ∧
        (q.limit ≤ room (stepAt check q name s v) T ↔ regained v granted)

end Checks

/-! ## The sliding window -/

/-- What one process knows of the log of its key: it holds the checks granted so far, which
are within the limit, and the counter of the process has passed all their numbers. -/
def LogKnown (q : Quota) (name : JsString) (t : Nat) (granted : List Nat) (stores : Stores) :
    Prop :=
  ∃ stamps : List Stamp, (stamps.map Stamp.now).Perm granted ∧
    LoggedAt q.windowMs t (stores.logs name) stamps ∧
    WithinLimit q.limit q.windowMs granted ∧ ∀ x ∈ stamps, x.sequence < stores.sequence

/-- The room the log of a key has. -/
def logRoom (q : Quota) (name : JsString) (stores : Stores) (v : Nat) : Nat :=
  q.limit - (prunedAt q.windowMs v (stores.logs name)).card

/-- Capacity is regained at the reset when the window had room, and else when all it held
came at once. -/
def WindowRegained (q : Quota) (now : Nat) (granted : List Nat) : Prop :=
  inWindow q.windowMs now granted < q.limit ∨
    ∀ a ∈ granted, ∀ b ∈ granted, now < a + q.windowMs → now < b + q.windowMs → a = b

section SlidingWindow

variable {q : Quota} {name : JsString} {t v : Nat} {granted : List Nat} {stores : Stores}

theorem logKnown_start (q : Quota) (name : JsString) (sequence : Nat) :
    LogKnown q name 0 [] (.start sequence) :=
  ⟨[], List.Perm.refl _, loggedAt_absent _ _, withinLimit_nil _ _, fun x hx => by cases hx⟩

theorem LogKnown.latest (h : LogKnown q name t granted stores) : ∀ a ∈ granted, a ≤ t := by
  obtain ⟨stamps, hperm, hlogged, -, -⟩ := h
  intro a ha
  obtain ⟨x, hx, rfl⟩ := List.mem_map.mp (hperm.symm.subset ha)
  exact hlogged.1 x hx

theorem LogKnown.within (h : LogKnown q name t granted stores) :
    WithinLimit q.limit q.windowMs granted := by
  obtain ⟨-, -, -, hwithin, -⟩ := h
  exact hwithin

theorem LogKnown.room (h : LogKnown q name t granted stores) (hle : t ≤ v) :
    logRoom q name stores v = q.limit - inWindow q.windowMs v granted := by
  obtain ⟨stamps, hperm, hlogged, -, -⟩ := h
  unfold logRoom
  rw [hlogged.logs.card_pruned hle, inWindow_perm hperm]

/-- The script that a check runs. -/
def logScript (pid : Nat) (q : Quota) (name : JsString) (stores : Stores) (v : Nat) :
    SortedSet JsString × Verdict :=
  slidingWindowScript v v q.windowMs q.limit (Stamp.member ⟨v, pid, stores.sequence⟩)
    ((stores.logs name).purge v)

/-- The process has not used the member before. -/
theorem LogKnown.fresh {pid : Nat} {stamps : List Stamp}
    (hpassed : ∀ x ∈ stamps, x.sequence < stores.sequence) :
    (⟨v, pid, stores.sequence⟩ : Stamp) ∉ stamps :=
  fun hmem => lt_irrefl _ (hpassed _ hmem)

/-- The first member of the pruned log is that of the oldest granted check which is still in
the window. -/
theorem isOldest_of_first {stamps : List Stamp} {entries : List (Σ _ : JsString, Int)}
    (hperm : (stamps.map Stamp.now).Perm granted)
    (hentries : entries.Perm
      ((stamps.filter fun s => v < s.now + q.windowMs).map Stamp.entry))
    {oldest : Σ _ : JsString, Int} (hmem : oldest ∈ entries)
    (hleast : ∀ other ∈ entries, oldest.2 ≤ other.2) :
    ∃ instant : Nat, oldest.2 = (instant : Int) ∧ IsOldest q.windowMs v granted instant := by
  obtain ⟨x, hx, rfl⟩ := List.mem_map.mp (hentries.subset hmem)
  obtain ⟨hx, hinside⟩ := List.mem_filter.mp hx
  refine ⟨x.now, rfl, hperm.subset (List.mem_map_of_mem hx), of_decide_eq_true hinside, ?_⟩
  intro a ha hin
  obtain ⟨y, hy, rfl⟩ := List.mem_map.mp (hperm.symm.subset ha)
  have hkept : y ∈ stamps.filter fun s => v < s.now + q.windowMs :=
    List.mem_filter.mpr ⟨hy, decide_eq_true hin⟩
  have hle : (x.now : Int) ≤ y.now :=
    hleast y.entry (hentries.symm.subset (List.mem_map_of_mem hkept))
  exact_mod_cast hle

/-- One check: it is granted while the window that ends with it has room, and otherwise
told to wait for the oldest check in it. -/
theorem LogKnown.script (h : LogKnown q name t granted stores) (hle : t ≤ v) (pid : Nat)
    {stores' : Stores} (hlog : stores'.logs name = (logScript pid q name stores v).1)
    (hsequence : stores'.sequence = stores.sequence + 1) :
    (inWindow q.windowMs v granted < q.limit ∧
      (logScript pid q name stores v).2.allowed = true ∧
      (logScript pid q name stores v).2.resetAt = (v : Int) + q.windowMs ∧
      LogKnown q name v (granted ++ [v]) stores') ∨
    (q.limit ≤ inWindow q.windowMs v granted ∧
      (logScript pid q name stores v).2.allowed = false ∧ LogKnown q name v granted stores' ∧
      ∃ oldest, IsOldest q.windowMs v granted oldest ∧
        (logScript pid q name stores v).2.retryAfterMs = (oldest : Int) + q.windowMs - v ∧
        (logScript pid q name stores v).2.resetAt = (oldest : Int) + q.windowMs) := by
  have hlatest : ∀ a ∈ granted, a ≤ v := fun a ha => (h.latest a ha).trans hle
  obtain ⟨stamps, hperm, hlogged, hwithin, hpassed⟩ := h
  have hcard := hlogged.logs.card_pruned hle
  rw [inWindow_perm hperm] at hcard
  have hlater : ∀ x ∈ stamps, x.sequence < stores'.sequence := by
    intro x hx
    have hx := hpassed x hx
    omega
  have hnow : (⟨v, pid, stores.sequence⟩ : Stamp).now = v := rfl
  -- the script counts what is left after pruning, which is what the window holds
  rcases hlogged.logs.loggedAt hle q.windowMs_pos q.limit hnow (LogKnown.fresh hpassed) with
    ⟨hroom, hallowed, hnext⟩ | ⟨hfull, hrejected, hnext⟩
  · left
    rw [inWindow_perm hperm] at hroom
    have hreset := slidingWindowScript_admits v (Stamp.member ⟨v, pid, stores.sequence⟩)
      (hcard.trans_lt hroom)
    refine ⟨hroom, hallowed, hreset, ⟨v, pid, stores.sequence⟩ :: stamps, ?_, ?_, ?_, ?_⟩
    · exact (hperm.cons v).trans (List.perm_append_singleton v granted).symm
    · rw [hlog]
      exact hnext
    · intro u
      rw [inWindow_perm (List.perm_append_singleton v granted)]
      exact hwithin.cons hlatest hroom u
    · refine List.forall_mem_cons.mpr ⟨?_, hlater⟩
      rw [hsequence]
      exact Nat.lt_succ_self _
  · right
    rw [inWindow_perm hperm] at hfull
    refine ⟨hfull, hrejected, ⟨stamps, hperm, ?_, hwithin, hlater⟩, ?_⟩
    · rw [hlog]
      exact hnext
    · obtain ⟨oldest, hmem, hleast, hretry, hreset⟩ := slidingWindowScript_rejects v
        (Stamp.member ⟨v, pid, stores.sequence⟩) q.limit_pos (hfull.trans_eq hcard.symm)
      obtain ⟨instant, hinstant, holdest⟩ :=
        isOldest_of_first hperm (hlogged.logs.pruned hle) hmem hleast
      have hinside := holdest.inside
      have hwait : max 0 (oldest.2 + q.windowMs - v) = (instant : Int) + q.windowMs - v := by
        omega
      rw [hwait] at hretry hreset
      exact ⟨instant, holdest, hretry, hreset.trans (by omega)⟩

theorem slidingWindow_check {pid : Nat} {check : IRateLimitAlgorithm}
    (hcheck : AlgorithmFactory.registry pid .slidingWindow = some check) (q : Quota)
    (name : JsString) (stores : Stores) (v : Nat) :
    check v q v name stores =
      .ok ({ stores with
          logs := Function.update stores.logs name (logScript pid q name stores v).1
          sequence := stores.sequence + 1 },
        checkResult q.limit (max 0 (q.limit - (logScript pid q name stores v).2.count))
          (logScript pid q name stores v).2) := by
  obtain rfl := Option.some.inj hcheck
  rfl

/-- The same, of a check. -/
theorem LogKnown.check (h : LogKnown q name t granted stores) (hle : t ≤ v) {pid : Nat}
    {check : IRateLimitAlgorithm}
    (hcheck : AlgorithmFactory.registry pid .slidingWindow = some check) :
    ∃ result, resultAt check q name stores v = some result ∧
      result.allowed = allowedAt check q name stores v ∧
      ((inWindow q.windowMs v granted < q.limit ∧ allowedAt check q name stores v = true ∧
        LogKnown q name v (granted ++ [v]) (stepAt check q name stores v) ∧
        result.resetAt = ((v + q.windowMs : Nat) : Int)) ∨
      (q.limit ≤ inWindow q.windowMs v granted ∧ allowedAt check q name stores v = false ∧
        LogKnown q name v granted (stepAt check q name stores v) ∧
        ∃ oldest, IsOldest q.windowMs v granted oldest ∧
          result.retryAfterMs = some ((oldest + q.windowMs - v : Nat) : Int) ∧
          result.resetAt = ((oldest + q.windowMs : Nat) : Int))) := by
  obtain ⟨hresult, hstep, hverdict⟩ := checkAt_of_ok (slidingWindow_check hcheck q name stores v)
  have hlog : (stepAt check q name stores v).logs name = (logScript pid q name stores v).1 := by
    rw [hstep]
    exact Function.update_self _ _ _
  have hsequence : (stepAt check q name stores v).sequence = stores.sequence + 1 := by rw [hstep]
  refine ⟨_, hresult, hverdict.symm, ?_⟩
  rcases h.script hle pid hlog hsequence with
    ⟨hroom, hallowed, hreset, hnext⟩ |
      ⟨hfull, hrejected, hnext, oldest, holdest, hretry, hreset⟩
  · exact Or.inl ⟨hroom, hverdict.trans hallowed, hnext, hreset.trans (by push_cast; rfl)⟩
  · refine Or.inr ⟨hfull, hverdict.trans hrejected, hnext, oldest, holdest, ?_, ?_⟩
    · have hinside := holdest.inside
      have hwait : (logScript pid q name stores v).2.retryAfterMs =
          ((oldest + q.windowMs - v : Nat) : Int) := by omega
      unfold checkResult
      rw [hrejected, hwait]
      rfl
    · exact hreset.trans (by push_cast; rfl)

/-- A check that is granted takes one of the room there was. -/
theorem LogKnown.room_append (h : LogKnown q name v (granted ++ [v]) stores) :
    logRoom q name stores v = q.limit - (inWindow q.windowMs v granted + 1) := by
  have hW := q.windowMs_pos
  rw [h.room le_rfl, inWindow_perm (List.perm_append_singleton v granted), inWindow_cons,
    if_pos (by omega)]

/-- A full window has room again when the oldest check in it leaves it. -/
theorem LogKnown.room_pos_iff {oldest u : Nat} (h : LogKnown q name v granted stores)
    (hfull : q.limit ≤ inWindow q.windowMs v granted)
    (holdest : IsOldest q.windowMs v granted oldest) (hu : v ≤ u) :
    0 < logRoom q name stores u ↔ oldest + q.windowMs ≤ u := by
  rw [h.room hu]
  -- until then no check leaves the window, and from then on the oldest has
  rcases lt_or_ge u (oldest + q.windowMs) with hbefore | hafter
  · have hkept := holdest.inWindow_le hu hbefore
    omega
  · have hfewer := holdest.inWindow_lt h.latest hu hafter
    have hlimit := h.within v
    omega

/-- And it has room for a whole limit then exactly when capacity is regained. -/
theorem LogKnown.limit_le_room_iff {oldest : Nat} (h : LogKnown q name v granted stores)
    (hfull : q.limit ≤ inWindow q.windowMs v granted)
    (holdest : IsOldest q.windowMs v granted oldest) :
    q.limit ≤ logRoom q name stores (oldest + q.windowMs) ↔ WindowRegained q v granted := by
  have hlimit := q.limit_pos
  -- a limit of at least one fits in what is left of it only when nothing is taken
  have hempty : q.limit ≤ logRoom q name stores (oldest + q.windowMs) ↔
      inWindow q.windowMs (oldest + q.windowMs) granted = 0 := by
    rw [h.room holdest.inside.le]
    omega
  rw [hempty, holdest.inWindow_eq_zero_iff h.latest]
  exact (or_iff_right (not_lt.mpr hfull)).symm

/-- A window after the last granted check has room for a whole limit. -/
theorem LogKnown.room_later (h : LogKnown q name v granted stores) :
    logRoom q name stores (v + q.windowMs) = q.limit := by
  have hempty : inWindow q.windowMs (v + q.windowMs) granted = 0 := by
    rw [inWindow_eq_zero_iff fun a ha => (h.latest a ha).trans (Nat.le_add_right _ _)]
    exact fun a ha => Nat.add_le_add_right (h.latest a ha) _
  rw [h.room (Nat.le_add_right _ _), hempty, Nat.sub_zero]

theorem slidingWindow_meters {pid : Nat} {check : IRateLimitAlgorithm}
    (hcheck : AlgorithmFactory.registry pid .slidingWindow = some check) (q : Quota)
    (name : JsString) :
    Meters (stepAt check q name) (allowedAt check q name) (logRoom q name) (LogKnown q name) := by
  apply Meters.of_cases
  intro t granted stores v h hle
  rw [h.room hle]
  obtain ⟨result, -, -, ⟨hroom, hallowed, hnext, -⟩ | ⟨hfull, hrejected, hnext, -⟩⟩ :=
    h.check hle hcheck
  · refine Or.inl ⟨hallowed, Nat.sub_pos_of_lt hroom, hnext, ?_⟩
    rw [hnext.room_append]
    omega
  · refine Or.inr ⟨hrejected, Nat.sub_eq_zero_of_le hfull, hnext, ?_⟩
    rw [hnext.room le_rfl, Nat.sub_eq_zero_of_le hfull]

/-- A sliding window keeps the contract.  After a rejection capacity comes back one check at
a time, so the reset it reports is that of the whole limit only when all came at once. -/
theorem slidingWindow_contract {pid : Nat} {check : IRateLimitAlgorithm}
    (hcheck : AlgorithmFactory.registry pid .slidingWindow = some check) (q : Quota)
    (name : JsString) :
    Contract check q name (logRoom q name) (LogKnown q name) (WindowRegained q) := by
  refine ⟨slidingWindow_meters hcheck q name, ?_⟩
  intro t granted stores v h hle
  obtain ⟨result, hresult, hverdict, hcases⟩ := h.check hle hcheck
  refine ⟨result, hresult, hverdict, ?_, ?_⟩
  · intro hrejected
    rcases hcases with ⟨-, hallowed, -⟩ | ⟨hfull, -, hnext, oldest, holdest, hretry, -⟩
    · rw [hverdict, hallowed] at hrejected
      cases hrejected
    · have hinside := holdest.inside
      refine ⟨_, hretry, by omega, ?_⟩
      intro u hu
      rw [hnext.room_pos_iff hfull holdest hu]
      omega
  · rcases hcases with ⟨hroom, -, hnext, hreset⟩ | ⟨hfull, -, hnext, oldest, holdest, -, hreset⟩
    · refine ⟨_, hreset, Nat.le_add_right _ _, iff_of_true ?_ (Or.inl hroom)⟩
      exact hnext.room_later.ge
    · exact ⟨_, hreset, holdest.inside.le, hnext.limit_le_room_iff hfull holdest⟩

end SlidingWindow

/-! ## The fixed window -/

namespace FixedWindowAlgorithm

/-- How many of the instants lie in the window with this index. -/
def countIn (q : Quota) (index : Nat) (instants : List Nat) : Nat :=
  instants.countP fun a => windowIndex a q.windowSeconds = index

variable {q : Quota} {name : JsString} {t v : Nat} {granted : List Nat} {stores : Stores}

theorem windowEnd_le_iff {index : Nat} :
    windowEnd q index ≤ v ↔ index < windowIndex v q.windowSeconds :=
  (Nat.le_div_iff_mul_le q.windowMs_pos).symm

theorem windowIndex_mono (h : t ≤ v) :
    windowIndex t q.windowSeconds ≤ windowIndex v q.windowSeconds :=
  Nat.div_le_div_right h

theorem countIn_append (index : Nat) :
    countIn q index (granted ++ [v]) =
      countIn q index granted + if windowIndex v q.windowSeconds = index then 1 else 0 := by
  unfold countIn
  rw [List.countP_append, List.countP_singleton]
  simp only [decide_eq_true_eq]

/-- Instants that have passed are in no later window. -/
theorem countIn_later {index : Nat} (hlatest : ∀ a ∈ granted, a ≤ t)
    (hlater : windowIndex t q.windowSeconds < index) : countIn q index granted = 0 := by
  unfold countIn
  rw [List.countP_eq_zero]
  intro a ha
  have hmono := windowIndex_mono (q := q) (hlatest a ha)
  simp only [decide_eq_true_eq]
  omega

/-- A counter that has reached the limit counts no further. -/
theorem counter_limit (index : Nat) : counter q index (q.limit + 1) = counter q index q.limit := by
  have hlimit := q.limit_pos
  unfold counter
  rw [if_neg (by omega), if_neg (by omega), Nat.min_eq_left (Nat.le_succ _), Nat.min_self]

end FixedWindowAlgorithm

section FixedWindow

open FixedWindowAlgorithm

variable {q : Quota} {name : JsString} {t v : Nat} {granted : List Nat} {stores : Stores}

/-- The counters of the windows that are not over hold the checks granted in them. -/
structure CountersKnown (q : Quota) (name : JsString) (t : Nat) (granted : List Nat)
    (stores : Stores) : Prop where
  latest : ∀ a ∈ granted, a ≤ t
  within : ∀ index, windowIndex t q.windowSeconds ≤ index → countIn q index granted ≤ q.limit
  counters : ∀ index, windowIndex t q.windowSeconds ≤ index →
    stores.counters (key name index) = counter q index (countIn q index granted)

theorem countersKnown_start (q : Quota) (name : JsString) (sequence : Nat) :
    CountersKnown q name 0 [] (.start sequence) :=
  ⟨fun _ ha => (List.not_mem_nil ha).elim, fun _ _ => Nat.zero_le _, fun _ _ => rfl⟩

/-- The room the counter of the window has. -/
def counterRoom (q : Quota) (name : JsString) (stores : Stores) (v : Nat) : Nat :=
  q.limit -
    (((stores.counters (key name (windowIndex v q.windowSeconds))).purge v).get.getD 0).toNat

theorem CountersKnown.room (h : CountersKnown q name t granted stores) (hle : t ≤ v) :
    counterRoom q name stores v =
      q.limit - countIn q (windowIndex v q.windowSeconds) granted := by
  have hmono := windowIndex_mono (q := q) hle
  have hwithin := h.within _ hmono
  unfold counterRoom
  rw [h.counters _ hmono, purge_counter q v (lt_windowEnd q v), get_counter,
    Nat.min_eq_right hwithin]
  rfl

theorem fixedWindow_check {pid : Nat} {check : IRateLimitAlgorithm}
    (hcheck : AlgorithmFactory.registry pid .fixedWindow = some check) (q : Quota)
    (name : JsString) (stores : Stores) (v : Nat) :
    check v q v name stores =
      .ok ({ stores with
          counters := Function.update stores.counters (key name (windowIndex v q.windowSeconds))
            (fixedWindowScript v q.limit q.windowSeconds v
              ((stores.counters (key name (windowIndex v q.windowSeconds))).purge v)).1 },
        checkResult q.limit
          (max 0 (q.limit - (fixedWindowScript v q.limit q.windowSeconds v
            ((stores.counters (key name (windowIndex v q.windowSeconds))).purge v)).2.count))
          (fixedWindowScript v q.limit q.windowSeconds v
            ((stores.counters (key name (windowIndex v q.windowSeconds))).purge v)).2) := by
  obtain rfl := Option.some.inj hcheck
  rfl

section Counted

variable {stores' : Stores} (h : CountersKnown q name t granted stores) (hle : t ≤ v)
  (hstep : stores'.counters =
    Function.update stores.counters (key name (windowIndex v q.windowSeconds))
      (counter q (windowIndex v q.windowSeconds)
        (countIn q (windowIndex v q.windowSeconds) granted + 1)))

include h hle hstep

/-- What a check leaves in the counters of the windows that are not over. -/
theorem CountersKnown.counters_step {index : Nat}
    (hindex : windowIndex v q.windowSeconds ≤ index) :
    stores'.counters (key name index) =
      if index = windowIndex v q.windowSeconds then counter q index (countIn q index granted + 1)
      else counter q index (countIn q index granted) := by
  rw [hstep]
  split
  next hsame =>
    subst hsame
    exact Function.update_self _ _ _
  next hother =>
    rw [Function.update_of_ne fun hkey => hother (key_injective name hkey)]
    exact h.counters index ((windowIndex_mono hle).trans hindex)

/-- A check that is granted is counted. -/
theorem CountersKnown.counted
    (hroom : countIn q (windowIndex v q.windowSeconds) granted < q.limit) :
    CountersKnown q name v (granted ++ [v]) stores' := by
  refine ⟨?_, ?_, ?_⟩
  · intro a ha
    rcases List.mem_append.mp ha with hbefore | hnow
    · exact (h.latest a hbefore).trans hle
    · exact (List.mem_singleton.mp hnow).le
  · intro index hindex
    have hcount := h.within index ((windowIndex_mono hle).trans hindex)
    rw [countIn_append]
    split
    next hsame => subst hsame; omega
    next => omega
  · intro index hindex
    rw [h.counters_step hle hstep hindex, countIn_append]
    by_cases hsame : index = windowIndex v q.windowSeconds
    · rw [if_pos hsame, if_pos hsame.symm]
    · rw [if_neg hsame, if_neg (Ne.symm hsame), Nat.add_zero]

/-- A check that finds its window full is not. -/
theorem CountersKnown.uncounted
    (hfull : countIn q (windowIndex v q.windowSeconds) granted = q.limit) :
    CountersKnown q name v granted stores' := by
  refine ⟨fun a ha => (h.latest a ha).trans hle, ?_, ?_⟩
  · exact fun index hindex => h.within index ((windowIndex_mono hle).trans hindex)
  · intro index hindex
    rw [h.counters_step hle hstep hindex]
    split
    next hsame =>
      subst hsame
      rw [hfull]
      exact counter_limit _
    next => rfl

end Counted

/-- One check: it is granted and counted while its window has room, and is told otherwise to
wait for the end of the window. -/
theorem CountersKnown.check (h : CountersKnown q name t granted stores) (hle : t ≤ v) {pid : Nat}
    {check : IRateLimitAlgorithm}
    (hcheck : AlgorithmFactory.registry pid .fixedWindow = some check) :
    ∃ result, resultAt check q name stores v = some result ∧
      result.allowed = allowedAt check q name stores v ∧
      result.resetAt = (windowEnd q (windowIndex v q.windowSeconds) : Int) ∧
      ((countIn q (windowIndex v q.windowSeconds) granted < q.limit ∧
        allowedAt check q name stores v = true ∧
        CountersKnown q name v (granted ++ [v]) (stepAt check q name stores v)) ∨
      (countIn q (windowIndex v q.windowSeconds) granted = q.limit ∧
        allowedAt check q name stores v = false ∧
        CountersKnown q name v granted (stepAt check q name stores v) ∧
        result.retryAfterMs =
          some ((windowEnd q (windowIndex v q.windowSeconds) - v : Nat) : Int))) := by
  have hmono := windowIndex_mono (q := q) hle
  have hlive := lt_windowEnd q v
  obtain ⟨hresult, hstep, hverdict⟩ := checkAt_of_ok (fixedWindow_check hcheck q name stores v)
  rw [h.counters _ hmono, purge_counter q v hlive, fixedWindowScript_counter]
    at hresult hstep hverdict
  -- what was stored is the counter of the checks granted in the window
  have hcounters := congrArg Stores.counters hstep
  refine ⟨_, hresult, hverdict.symm, rfl, ?_⟩
  rcases Nat.lt_or_eq_of_le (h.within _ hmono) with hroom | hfull
  · exact Or.inl ⟨hroom, hverdict.trans (decide_eq_true hroom), h.counted hle hcounters hroom⟩
  · have hnone : ¬ countIn q (windowIndex v q.windowSeconds) granted < q.limit := hfull.not_lt
    refine Or.inr ⟨hfull, hverdict.trans (decide_eq_false hnone), h.uncounted hle hcounters hfull,
      ?_⟩
    have hwait : (windowEnd q (windowIndex v q.windowSeconds) : Int) - v =
        ((windowEnd q (windowIndex v q.windowSeconds) - v : Nat) : Int) := by omega
    unfold checkResult
    simp only [decide_eq_false hnone, if_neg hnone, Bool.false_eq_true, if_false]
    rw [hwait]

/-- The window after this one has seen no check. -/
theorem CountersKnown.room_later {u : Nat} (h : CountersKnown q name v granted stores)
    (hu : windowEnd q (windowIndex v q.windowSeconds) ≤ u) :
    counterRoom q name stores u = q.limit := by
  rw [h.room ((lt_windowEnd q v).le.trans hu), countIn_later h.latest (windowEnd_le_iff.mp hu),
    Nat.sub_zero]

/-- A full window has room again when it ends. -/
theorem CountersKnown.room_pos_iff {u : Nat} (h : CountersKnown q name v granted stores)
    (hfull : countIn q (windowIndex v q.windowSeconds) granted = q.limit) (hu : v ≤ u) :
    0 < counterRoom q name stores u ↔ windowEnd q (windowIndex v q.windowSeconds) ≤ u := by
  have hlimit := q.limit_pos
  rcases lt_or_ge u (windowEnd q (windowIndex v q.windowSeconds)) with hsame | hafter
  · -- before its end every instant is in the same window
    have hindex : windowIndex u q.windowSeconds = windowIndex v q.windowSeconds := by
      have hmono := windowIndex_mono (q := q) hu
      have hbefore := mt windowEnd_le_iff.mpr (not_le.mpr hsame)
      omega
    rw [h.room hu, hindex]
    omega
  · rw [h.room_later hafter]
    omega

theorem fixedWindow_meters {pid : Nat} {check : IRateLimitAlgorithm}
    (hcheck : AlgorithmFactory.registry pid .fixedWindow = some check) (q : Quota)
    (name : JsString) :
    Meters (stepAt check q name) (allowedAt check q name) (counterRoom q name)
      (CountersKnown q name) := by
  apply Meters.of_cases
  intro t granted stores v h hle
  rw [h.room hle]
  obtain ⟨result, -, -, -, ⟨hroom, hallowed, hnext⟩ | ⟨hfull, hrejected, hnext, -⟩⟩ :=
    h.check hle hcheck
  · refine Or.inl ⟨hallowed, Nat.sub_pos_of_lt hroom, hnext, ?_⟩
    rw [hnext.room le_rfl, countIn_append, if_pos rfl]
    omega
  · refine Or.inr ⟨hrejected, Nat.sub_eq_zero_of_le hfull.ge, hnext, ?_⟩
    rw [hnext.room le_rfl, Nat.sub_eq_zero_of_le hfull.ge]

/-- A fixed window keeps the contract, and starts afresh at every reset it reports. -/
theorem fixedWindow_contract {pid : Nat} {check : IRateLimitAlgorithm}
    (hcheck : AlgorithmFactory.registry pid .fixedWindow = some check) (q : Quota)
    (name : JsString) :
    Contract check q name (counterRoom q name) (CountersKnown q name) fun _ _ => True := by
  refine ⟨fixedWindow_meters hcheck q name, ?_⟩
  intro t granted stores v h hle
  have hlive := lt_windowEnd q v
  obtain ⟨result, hresult, hverdict, hreset, hcases⟩ := h.check hle hcheck
  refine ⟨result, hresult, hverdict, ?_, _, hreset, hlive.le, ?_⟩
  · intro hrejected
    rcases hcases with ⟨-, hallowed, -⟩ | ⟨hfull, -, hnext, hretry⟩
    · rw [hverdict, hallowed] at hrejected
      cases hrejected
    · refine ⟨_, hretry, by omega, ?_⟩
      intro u hu
      rw [hnext.room_pos_iff hfull hu]
      omega
  · apply iff_true_intro
    rcases hcases with ⟨-, -, hnext⟩ | ⟨-, -, hnext, -⟩ <;> exact (hnext.room_later le_rfl).ge

end FixedWindow

end RateLimiter.Limiter
