import RateLimiter.Foundations.Runs
import RateLimiter.Limiter.Rules

/-!
# Rule writes while rules are read

One process answers `findMatchingRule` calls from a cache of a minute, and every call
that finds the cache out of date reads the table for itself.  Reads take their time,
and each installs what it has read when it resolves, whatever has happened since.
This module says when a rule write is in force once its `invalidateCache` has returned,
and how old a rule set can be that a call is answered from.
-/

namespace RateLimiter.Limiter

open RateLimiter.Foundations RateLimiter.Javascript

/-- What the database answers to one `findEnabledRulesByPriority`: the enabled rules
after `version` writes, as they were at `readAt`. -/
structure Reading where
  version : Nat
  readAt : Nat
  rules : List RateLimitRule

/-- A call that waits for its read.  It knows the `Date.now()` it started at, which writes
had returned from `invalidateCache` then, and what the database has answered so far. -/
structure Lookup where
  context : RuleMatchContext
  startedAt : Nat
  returned : List Nat
  reading : Option Reading

/-- What a call was answered, and the reading it was matched against. -/
structure Answer where
  context : RuleMatchContext
  startedAt : Nat
  returned : List Nat
  reading : Reading
  rule : Option RateLimitRule

/-- A process and the table it reads.  `reading` is where the cached rules come from,
`superseded` holds what was enabled before each write, and `returned` lists the writes
whose `invalidateCache` is done. -/
structure Replica where
  cache : RulesCache
  reading : Reading
  clock : Nat
  enabled : List RateLimitRule
  superseded : List (List RateLimitRule)
  lookups : List Lookup
  returned : List Nat
  answers : List Answer

namespace Replica

/-- A process that has just started. -/
def initial (rules : List RateLimitRule) (now : Nat) : Replica where
  cache := RulesCache.invalidated
  reading := ⟨0, now, rules⟩
  clock := now
  enabled := rules
  superseded := []
  lookups := []
  returned := []
  answers := []

/-- The moments of the process.  A waiting call is named by its place, a write by its
number; a write, of whichever kind, leaves some list of enabled rules. -/
inductive Event
  | findStarts (context : RuleMatchContext)
  | tableRead (lookup : Nat)
  | findEnds (lookup : Nat)
  | writeCommits (rules : List RateLimitRule)
  | invalidateCache (write : Nat)
  | clockAdvances (milliseconds : Nat)

/-- How many writes have committed. -/
def version (p : Replica) : Nat := p.superseded.length

/-- What was enabled after each number of writes. -/
def history (p : Replica) : List (List RateLimitRule) := p.superseded ++ [p.enabled]

/-- What a read of the table answers now. -/
def readTable (p : Replica) : Reading := ⟨p.version, p.clock, p.enabled⟩

variable (regExp : JsString → Option (JsString → Bool))

/-- `findMatchingRule` up to its `await`: a call that finds the cache in date is answered
from it, and any other starts a read of its own. -/
def findStarts (context : RuleMatchContext) (p : Replica) : Replica :=
  match p.cache.getEnabledRules p.clock with
  -- answered in the turn it starts in: nothing is waited for
  | some rules =>
      { p with
        answers := p.answers ++
          [⟨context, p.clock, p.returned, p.reading, findMatchingRule regExp rules context⟩] }
  -- a read of its own even when another is in flight
  | none => { p with lookups := p.lookups ++ [⟨context, p.clock, p.returned, none⟩] }

/-- The database runs the query of a waiting call. -/
def tableRead (i : Nat) (p : Replica) : Replica :=
  match p.lookups[i]? with
  | some lookup =>
      if lookup.reading.isNone then
        { p with lookups := p.lookups.set i { lookup with reading := some p.readTable } }
      else p
  | none => p

/-- `findMatchingRule` after its `await`: the reading is installed under the time the call
started at. -/
def findEnds (i : Nat) (p : Replica) : Replica :=
  match p.lookups[i]? with
  | some lookup =>
      match lookup.reading with
      -- installed whatever has been written or invalidated since the call started
      | some reading =>
          { p with
            cache := ⟨reading.rules, lookup.startedAt⟩
            reading := reading
            lookups := p.lookups.eraseIdx i
            answers := p.answers ++ [⟨lookup.context, lookup.startedAt, lookup.returned, reading,
              findMatchingRule regExp reading.rules lookup.context⟩] }
      | none => p
  | none => p

/-- A write has committed, and its `invalidateCache` has not returned. -/
def Pending (write : Nat) (p : Replica) : Prop :=
  1 ≤ write ∧ write ≤ p.version ∧ write ∉ p.returned

instance (write : Nat) (p : Replica) : Decidable (Pending write p) :=
  inferInstanceAs (Decidable (_ ∧ _ ∧ _))

/-- `invalidateCache`, for a write or, where none is pending, by hand. -/
def invalidateCache (write : Nat) (p : Replica) : Replica :=
  { p with
    cache := RulesCache.invalidated
    returned := if Pending write p then write :: p.returned else p.returned }

/-- One moment of the process; one that cannot happen changes nothing. -/
def step (p : Replica) : Event → Replica
  | .findStarts context => p.findStarts regExp context
  | .tableRead lookup => p.tableRead lookup
  | .findEnds lookup => p.findEnds regExp lookup
  | .writeCommits rules =>
      { p with enabled := rules, superseded := p.superseded ++ [p.enabled] }
  | .invalidateCache write => p.invalidateCache write
  | .clockAdvances milliseconds => { p with clock := p.clock + milliseconds }

/-! ## What answers are held to -/

/-- Every call that started after the `invalidateCache` of a write was matched against
rules that contain the write. -/
def InForce (p : Replica) : Prop :=
  ∀ answer ∈ p.answers, ∀ write ∈ answer.returned, write ≤ answer.reading.version

/-- No call was answered from rules read more than a minute before it started. -/
def Recent (p : Replica) : Prop :=
  ∀ answer ∈ p.answers, answer.startedAt ≤ answer.reading.readAt + RulesCache.ttl

/-- A reading holds what was enabled after as many writes as it says. -/
def Authentic (p : Replica) (reading : Reading) : Prop :=
  p.history[reading.version]? = some reading.rules

/-- Every call was answered with the rule that an authentic reading has for it. -/
def Matched (p : Replica) : Prop :=
  ∀ answer ∈ p.answers, Authentic p answer.reading ∧
    answer.rule = findMatchingRule regExp answer.reading.rules answer.context

/-- The read of no call resolves after the `invalidateCache` of a write that it has
missed, except where it has found nothing or the call is a minute old. -/
def InstallsCurrent (p : Replica) (e : Event) : Prop :=
  ∀ i lookup reading, e = .findEnds i → p.lookups[i]? = some lookup →
    lookup.reading = some reading → reading.rules ≠ [] →
    p.clock < lookup.startedAt + RulesCache.ttl →
    ∀ write ∈ p.returned, write ≤ reading.version

section Steps

variable {regExp} {p : Replica}

/-- A call that starts is answered from a cache in date, or waits. -/
theorem findStarts_cases (regExp : JsString → Option (JsString → Bool))
    (context : RuleMatchContext) (p : Replica) :
    (p.cache.rules ≠ [] ∧ p.clock < p.cache.lastUpdated + RulesCache.ttl ∧
      p.findStarts regExp context =
        { p with
          answers := p.answers ++ [⟨context, p.clock, p.returned, p.reading,
            findMatchingRule regExp p.cache.rules context⟩] }) ∨
    p.findStarts regExp context =
      { p with lookups := p.lookups ++ [⟨context, p.clock, p.returned, none⟩] } := by
  unfold findStarts
  cases hserved : p.cache.getEnabledRules p.clock with
  | none => exact Or.inr rfl
  | some rules =>
      obtain ⟨rfl, hrules, hclock⟩ := RulesCache.getEnabledRules_eq_some_iff.mp hserved
      exact Or.inl ⟨hrules, hclock, rfl⟩

/-- The query of a call runs once. -/
theorem tableRead_cases (i : Nat) (p : Replica) :
    p.tableRead i = p ∨
      ∃ lookup, p.lookups[i]? = some lookup ∧ p.tableRead i =
        { p with lookups := p.lookups.set i { lookup with reading := some p.readTable } } := by
  unfold tableRead
  cases hlookup : p.lookups[i]? with
  | none => exact Or.inl rfl
  | some lookup =>
      cases hread : lookup.reading with
      | some reading => exact Or.inl (by simp [hread])
      | none => exact Or.inr ⟨lookup, rfl, by simp [hread]⟩

/-- What the end of a call does. -/
theorem findEnds_cases (regExp : JsString → Option (JsString → Bool)) (i : Nat)
    (p : Replica) :
    p.findEnds regExp i = p ∨
      ∃ lookup reading, p.lookups[i]? = some lookup ∧ lookup.reading = some reading ∧
        p.findEnds regExp i =
          { p with
            cache := ⟨reading.rules, lookup.startedAt⟩
            reading := reading
            lookups := p.lookups.eraseIdx i
            answers := p.answers ++ [⟨lookup.context, lookup.startedAt, lookup.returned, reading,
              findMatchingRule regExp reading.rules lookup.context⟩] } := by
  unfold findEnds
  cases hlookup : p.lookups[i]? with
  | none => exact Or.inl rfl
  | some lookup =>
      cases hread : lookup.reading with
      | none => exact Or.inl (by simp [hread])
      | some reading => exact Or.inr ⟨lookup, reading, rfl, hread, by simp [hread]⟩

/-! ### What a moment of a call leaves alone -/

section Frame

variable (context : RuleMatchContext) (i : Nat)

@[simp] theorem history_findStarts : (p.findStarts regExp context).history = p.history := by
  unfold findStarts
  split <;> rfl

@[simp] theorem clock_findStarts : (p.findStarts regExp context).clock = p.clock := by
  unfold findStarts
  split <;> rfl

@[simp] theorem returned_findStarts : (p.findStarts regExp context).returned = p.returned := by
  unfold findStarts
  split <;> rfl

@[simp] theorem cache_findStarts : (p.findStarts regExp context).cache = p.cache := by
  unfold findStarts
  split <;> rfl

@[simp] theorem reading_findStarts : (p.findStarts regExp context).reading = p.reading := by
  unfold findStarts
  split <;> rfl

@[simp] theorem history_tableRead : (p.tableRead i).history = p.history := by
  rcases tableRead_cases i p with hstep | ⟨lookup, -, hstep⟩ <;> rw [hstep]
  rfl

@[simp] theorem clock_tableRead : (p.tableRead i).clock = p.clock := by
  rcases tableRead_cases i p with hstep | ⟨lookup, -, hstep⟩ <;> rw [hstep]

@[simp] theorem returned_tableRead : (p.tableRead i).returned = p.returned := by
  rcases tableRead_cases i p with hstep | ⟨lookup, -, hstep⟩ <;> rw [hstep]

@[simp] theorem cache_tableRead : (p.tableRead i).cache = p.cache := by
  rcases tableRead_cases i p with hstep | ⟨lookup, -, hstep⟩ <;> rw [hstep]

@[simp] theorem reading_tableRead : (p.tableRead i).reading = p.reading := by
  rcases tableRead_cases i p with hstep | ⟨lookup, -, hstep⟩ <;> rw [hstep]

@[simp] theorem answers_tableRead : (p.tableRead i).answers = p.answers := by
  rcases tableRead_cases i p with hstep | ⟨lookup, -, hstep⟩ <;> rw [hstep]

@[simp] theorem history_findEnds : (p.findEnds regExp i).history = p.history := by
  rcases findEnds_cases regExp i p with hstep | ⟨lookup, reading, -, -, hstep⟩ <;> rw [hstep]
  rfl

@[simp] theorem clock_findEnds : (p.findEnds regExp i).clock = p.clock := by
  rcases findEnds_cases regExp i p with hstep | ⟨lookup, reading, -, -, hstep⟩ <;> rw [hstep]

@[simp] theorem returned_findEnds : (p.findEnds regExp i).returned = p.returned := by
  rcases findEnds_cases regExp i p with hstep | ⟨lookup, reading, -, -, hstep⟩ <;> rw [hstep]

end Frame

/-! ### What a step can do -/

/-- Writes are added to the history, and nothing is taken from it. -/
theorem history_step (regExp : JsString → Option (JsString → Bool)) (p : Replica)
    (e : Event) : ∃ later, (p.step regExp e).history = p.history ++ later := by
  cases e with
  | writeCommits rules => exact ⟨[rules], by simp [Replica.step, history]⟩
  | invalidateCache write => exact ⟨[], (List.append_nil _).symm⟩
  | clockAdvances milliseconds => exact ⟨[], (List.append_nil _).symm⟩
  | findStarts context => exact ⟨[], by simp [Replica.step]⟩
  | tableRead i => exact ⟨[], by simp [Replica.step]⟩
  | findEnds i => exact ⟨[], by simp [Replica.step]⟩

theorem length_history (p : Replica) : p.history.length = p.version + 1 := by
  simp [history, version]

theorem version_le_step (regExp : JsString → Option (JsString → Bool)) (p : Replica)
    (e : Event) :
    p.version ≤ (p.step regExp e).version := by
  obtain ⟨later, hlater⟩ := history_step regExp p e
  have hlength := congrArg List.length hlater
  rw [List.length_append, length_history, length_history] at hlength
  omega

theorem Authentic.step {reading : Reading} (h : Authentic p reading) (e : Event) :
    Authentic (p.step regExp e) reading := by
  obtain ⟨later, hlater⟩ := history_step regExp p e
  unfold Authentic at *
  rw [hlater, List.getElem?_append_left (List.getElem?_eq_some_iff.mp h).1]
  exact h

/-- What the table answers is what is enabled. -/
theorem authentic_readTable (p : Replica) : Authentic p p.readTable := by
  simp [Authentic, history, readTable, version]

/-- Time does not go back. -/
theorem clock_le_step (regExp : JsString → Option (JsString → Bool)) (p : Replica)
    (e : Event) : p.clock ≤ (p.step regExp e).clock := by
  cases e with
  | writeCommits rules => exact le_rfl
  | invalidateCache write => exact le_rfl
  | clockAdvances milliseconds => exact Nat.le_add_right _ _
  | _ => simp [Replica.step]

/-- A call that waits after a step waited before, has just started, or has just been
read for. -/
theorem mem_lookups_step {lookup : Lookup} (e : Event)
    (h : lookup ∈ (p.step regExp e).lookups) :
    lookup ∈ p.lookups ∨ (∃ context, lookup = ⟨context, p.clock, p.returned, none⟩) ∨
      ∃ waiting ∈ p.lookups, lookup = { waiting with reading := some p.readTable } := by
  cases e with
  | findStarts context =>
      rcases findStarts_cases regExp context p with ⟨-, -, hstep⟩ | hstep <;>
        simp only [Replica.step, hstep] at h
      · exact Or.inl h
      · rcases List.mem_append.mp h with hold | hnew
        · exact Or.inl hold
        · exact Or.inr (Or.inl ⟨context, List.mem_singleton.mp hnew⟩)
  | tableRead i =>
      rcases tableRead_cases i p with hstep | ⟨waiting, hwaiting, hstep⟩ <;>
        simp only [Replica.step, hstep] at h
      · exact Or.inl h
      · rcases List.mem_or_eq_of_mem_set h with hold | hnew
        · exact Or.inl hold
        · exact Or.inr (Or.inr ⟨waiting, List.mem_of_getElem? hwaiting, hnew⟩)
  | findEnds i =>
      rcases findEnds_cases regExp i p with hstep | ⟨_, _, -, -, hstep⟩ <;>
        simp only [Replica.step, hstep] at h
      · exact Or.inl h
      · exact Or.inl (List.mem_of_mem_eraseIdx h)
  | writeCommits rules => exact Or.inl h
  | invalidateCache write => exact Or.inl h
  | clockAdvances milliseconds => exact Or.inl h

/-- A new answer is given from a cache in date, or at the end of a read. -/
theorem mem_answers_step {answer : Answer} (e : Event)
    (h : answer ∈ (p.step regExp e).answers) :
    answer ∈ p.answers ∨
    (p.cache.rules ≠ [] ∧ p.clock < p.cache.lastUpdated + RulesCache.ttl ∧
      ∃ context, answer = ⟨context, p.clock, p.returned, p.reading,
        findMatchingRule regExp p.cache.rules context⟩) ∨
    ∃ lookup ∈ p.lookups, ∃ reading, lookup.reading = some reading ∧
      answer = ⟨lookup.context, lookup.startedAt, lookup.returned, reading,
        findMatchingRule regExp reading.rules lookup.context⟩ := by
  cases e with
  | findStarts context =>
      rcases findStarts_cases regExp context p with ⟨hrules, hclock, hstep⟩ | hstep <;>
        simp only [Replica.step, hstep] at h
      · rcases List.mem_append.mp h with hold | hnew
        · exact Or.inl hold
        · exact Or.inr (Or.inl ⟨hrules, hclock, context, List.mem_singleton.mp hnew⟩)
      · exact Or.inl h
  | tableRead i => exact Or.inl (by simpa [Replica.step] using h)
  | findEnds i =>
      rcases findEnds_cases regExp i p with
          hstep | ⟨lookup, reading, hlookup, hread, hstep⟩ <;>
        simp only [Replica.step, hstep] at h
      · exact Or.inl h
      · rcases List.mem_append.mp h with hold | hnew
        · exact Or.inl hold
        · exact Or.inr (Or.inr ⟨lookup, List.mem_of_getElem? hlookup, reading, hread,
            List.mem_singleton.mp hnew⟩)
  | writeCommits rules => exact Or.inl h
  | invalidateCache write => exact Or.inl h
  | clockAdvances milliseconds => exact Or.inl h

/-- A cache that is not empty after a step was there before, or has just been
installed. -/
theorem cache_step (e : Event) (h : (p.step regExp e).cache.rules ≠ []) :
    ((p.step regExp e).cache = p.cache ∧ (p.step regExp e).reading = p.reading ∧
      (p.step regExp e).returned = p.returned) ∨
    ∃ i lookup reading, e = .findEnds i ∧ p.lookups[i]? = some lookup ∧
      lookup.reading = some reading ∧
      (p.step regExp e).cache = ⟨reading.rules, lookup.startedAt⟩ ∧
      (p.step regExp e).reading = reading ∧ (p.step regExp e).returned = p.returned ∧
      (p.step regExp e).clock = p.clock := by
  cases e with
  | findStarts context => exact Or.inl (by simp [Replica.step])
  | tableRead i => exact Or.inl (by simp [Replica.step])
  | findEnds i =>
      rcases findEnds_cases regExp i p with
          hstep | ⟨lookup, reading, hlookup, hread, hstep⟩ <;>
        rw [Replica.step, hstep]
      · exact Or.inl ⟨rfl, rfl, rfl⟩
      · exact Or.inr ⟨i, lookup, reading, rfl, hlookup, hread, rfl, rfl, rfl, rfl⟩
  | writeCommits rules => exact Or.inl ⟨rfl, rfl, rfl⟩
  | invalidateCache write => exact absurd rfl h
  | clockAdvances milliseconds => exact Or.inl ⟨rfl, rfl, rfl⟩

/-- A write that has returned had returned before, or has committed. -/
theorem mem_returned_step {write : Nat} (e : Event) (h : write ∈ (p.step regExp e).returned) :
    write ∈ p.returned ∨ write ≤ p.version := by
  cases e with
  | invalidateCache w =>
      simp only [Replica.step, Replica.invalidateCache] at h
      split at h
      next hpending =>
        rcases List.mem_cons.mp h with rfl | hbefore
        · exact Or.inr hpending.2.1
        · exact Or.inl hbefore
      next => exact Or.inl h
  | writeCommits rules => exact Or.inl h
  | clockAdvances milliseconds => exact Or.inl h
  | _ => exact Or.inl (by simpa [Replica.step] using h)

end Steps

/-! ## Runs -/

/-- Where rules come from: the cached ones from the reading kept beside them, and every
reading from the table, no earlier than the call it was made for. -/
structure Sourced (p : Replica) : Prop where
  cached : p.cache.rules ≠ [] → p.cache.rules = p.reading.rules ∧
    p.cache.lastUpdated ≤ p.reading.readAt ∧ Authentic p p.reading
  started : ∀ lookup ∈ p.lookups, lookup.startedAt ≤ p.clock
  read : ∀ lookup ∈ p.lookups, ∀ reading, lookup.reading = some reading →
    lookup.startedAt ≤ reading.readAt ∧ Authentic p reading

/-- The writes that have returned: they have committed, no call that knows of one has a
reading without it, and no cache that would be served is without one. -/
structure Settled (p : Replica) : Prop where
  committed : ∀ write ∈ p.returned, write ≤ p.version
  known : ∀ lookup ∈ p.lookups, ∀ write ∈ lookup.returned, write ≤ p.version
  read : ∀ lookup ∈ p.lookups, ∀ reading, lookup.reading = some reading →
    ∀ write ∈ lookup.returned, write ≤ reading.version
  served : p.cache.rules ≠ [] → p.clock < p.cache.lastUpdated + RulesCache.ttl →
    ∀ write ∈ p.returned, write ≤ p.reading.version

section Invariants

variable {regExp} {p : Replica}

theorem Sourced.step (h : Sourced p) (e : Event) : Sourced (p.step regExp e) := by
  have hclock : p.clock ≤ (p.step regExp e).clock := clock_le_step regExp p e
  refine ⟨?_, ?_, ?_⟩
  · intro hrules
    rcases cache_step e hrules with ⟨hcache, hreading, -⟩ |
      ⟨i, lookup, reading, -, hlookup, hread, hcache, hreading, -, -⟩
    · rw [hcache] at hrules
      obtain ⟨hsame, hage, hauthentic⟩ := h.cached hrules
      rw [hcache, hreading]
      exact ⟨hsame, hage, hauthentic.step e⟩
    · obtain ⟨hage, hauthentic⟩ := h.read lookup (List.mem_of_getElem? hlookup) reading hread
      rw [hcache, hreading]
      exact ⟨rfl, hage, hauthentic.step e⟩
  · intro lookup hlookup
    -- a call starts at the time of the clock, which only moves on
    rcases mem_lookups_step e hlookup with hold | ⟨context, rfl⟩ | ⟨waiting, hwaiting, rfl⟩
    · exact (h.started lookup hold).trans hclock
    · exact hclock
    · exact (h.started waiting hwaiting).trans hclock
  · intro lookup hlookup reading hread
    rcases mem_lookups_step e hlookup with hold | ⟨context, rfl⟩ | ⟨waiting, hwaiting, rfl⟩
    · obtain ⟨hage, hauthentic⟩ := h.read lookup hold reading hread
      exact ⟨hage, hauthentic.step e⟩
    · cases hread
    · obtain rfl := Option.some.inj hread
      exact ⟨h.started waiting hwaiting, (authentic_readTable p).step e⟩

/-- A cache in date was read less than a minute ago, and a read of its own later than
the call started. -/
theorem Recent.step (hsourced : Sourced p) (h : Recent p) (e : Event) :
    Recent (p.step regExp e) := by
  intro answer hanswer
  rcases mem_answers_step e hanswer with
    hold | ⟨hrules, hclock, context, rfl⟩ | ⟨lookup, hlookup, reading, hread, rfl⟩
  · exact h answer hold
  · -- the cache is dated by the start of the call that read it, no later than the reading
    obtain ⟨-, hage, -⟩ := hsourced.cached hrules
    show p.clock ≤ p.reading.readAt + RulesCache.ttl
    omega
  · obtain ⟨hage, -⟩ := hsourced.read lookup hlookup reading hread
    show lookup.startedAt ≤ reading.readAt + RulesCache.ttl
    omega

theorem Matched.step (hsourced : Sourced p) (h : Matched regExp p) (e : Event) :
    Matched regExp (p.step regExp e) := by
  intro answer hanswer
  rcases mem_answers_step e hanswer with
    hold | ⟨hrules, -, context, rfl⟩ | ⟨lookup, hlookup, reading, hread, rfl⟩
  · obtain ⟨hauthentic, hrule⟩ := h answer hold
    exact ⟨hauthentic.step e, hrule⟩
  · obtain ⟨hsame, -, hauthentic⟩ := hsourced.cached hrules
    exact ⟨hauthentic.step e, by rw [hsame]⟩
  · obtain ⟨-, hauthentic⟩ := hsourced.read lookup hlookup reading hread
    exact ⟨hauthentic.step e, rfl⟩

theorem Settled.step (h : Settled p) {e : Event} (hinstalls : InstallsCurrent p e) :
    Settled (p.step regExp e) := by
  have hversion : p.version ≤ (p.step regExp e).version := version_le_step regExp p e
  refine ⟨?_, ?_, ?_, ?_⟩
  · intro write hwrite
    rcases mem_returned_step e hwrite with hbefore | hcommitted
    · exact (h.committed write hbefore).trans hversion
    · exact hcommitted.trans hversion
  · intro lookup hlookup write hwrite
    rcases mem_lookups_step e hlookup with hold | ⟨context, rfl⟩ | ⟨waiting, hwaiting, rfl⟩
    · exact (h.known lookup hold write hwrite).trans hversion
    · exact (h.committed write hwrite).trans hversion
    · exact (h.known waiting hwaiting write hwrite).trans hversion
  · intro lookup hlookup reading hread write hwrite
    rcases mem_lookups_step e hlookup with hold | ⟨context, rfl⟩ | ⟨waiting, hwaiting, rfl⟩
    · exact h.read lookup hold reading hread write hwrite
    · cases hread
    · obtain rfl := Option.some.inj hread
      exact h.known waiting hwaiting write hwrite
  · intro hrules hclock write hwrite
    rcases cache_step e hrules with ⟨hcache, hreading, hreturned⟩ |
      ⟨i, lookup, reading, rfl, hlookup, hread, hcache, hreading, hreturned, hnow⟩
    · rw [hcache] at hrules hclock
      rw [hreturned] at hwrite
      rw [hreading]
      exact h.served hrules (lt_of_le_of_lt (clock_le_step regExp p e) hclock) write hwrite
    · -- The reading is served from now on: the condition is on this step.
      rw [hcache] at hrules hclock
      rw [hnow] at hclock
      rw [hreturned] at hwrite
      rw [hreading]
      exact hinstalls i lookup reading rfl hlookup hread hrules hclock write hwrite

theorem InForce.step (hsettled : Settled p) (h : InForce p) (e : Event) :
    InForce (p.step regExp e) := by
  intro answer hanswer
  rcases mem_answers_step e hanswer with
    hold | ⟨hrules, hclock, context, rfl⟩ | ⟨lookup, hlookup, reading, hread, rfl⟩
  · exact h answer hold
  · exact hsettled.served hrules hclock
  · exact hsettled.read lookup hlookup reading hread

end Invariants

section Start

variable (rules : List RateLimitRule) (now : Nat)

theorem sourced_initial : Sourced (initial rules now) where
  cached := fun h => absurd rfl h
  started := fun _ hlookup => absurd hlookup List.not_mem_nil
  read := fun _ hlookup => absurd hlookup List.not_mem_nil

theorem settled_initial : Settled (initial rules now) where
  committed := fun _ hwrite => absurd hwrite List.not_mem_nil
  known := fun _ hlookup => absurd hlookup List.not_mem_nil
  read := fun _ hlookup => absurd hlookup List.not_mem_nil
  served := fun h => absurd rfl h

theorem recent_initial : Recent (initial rules now) :=
  fun _ hanswer => absurd hanswer List.not_mem_nil

theorem inForce_initial : InForce (initial rules now) :=
  fun _ hanswer => absurd hanswer List.not_mem_nil

theorem matched_initial (regExp : JsString → Option (JsString → Bool)) :
    Matched regExp (initial rules now) :=
  fun _ hanswer => absurd hanswer List.not_mem_nil

end Start

/-- In every run answers are recent and come from what was enabled. -/
theorem answered_run (regExp : JsString → Option (JsString → Bool)) (rules : List RateLimitRule)
    (now : Nat) (events : List Event) :
    Recent (run (step regExp) (initial rules now) events) ∧
      Matched regExp (run (step regExp) (initial rules now) events) := by
  have hkept := run_invariant (step regExp)
    (I := fun p => Sourced p ∧ Recent p ∧ Matched regExp p)
    (fun _ e h => ⟨h.1.step e, h.2.1.step h.1 e, h.2.2.step h.1 e⟩)
    ⟨sourced_initial rules now, recent_initial rules now, matched_initial rules now regExp⟩ events
  exact hkept.2

/-- Where no reading is installed that misses a write, writes are in force. -/
theorem settled_run {regExp : JsString → Option (JsString → Bool)} {rules : List RateLimitRule}
    {now : Nat} {events : List Event}
    (h : Along (step regExp) InstallsCurrent (initial rules now) events) :
    Settled (run (step regExp) (initial rules now) events) ∧
      InForce (run (step regExp) (initial rules now) events) :=
  run_invariant_along (I := fun p => Settled p ∧ InForce p)
    (fun _ e hkept hinstalls => ⟨hkept.1.step hinstalls, hkept.2.step hkept.1 e⟩)
    ⟨settled_initial rules now, inForce_initial rules now⟩ h

/-- A call that starts when a reading has just been installed is answered from it. -/
theorem installsCurrent_of_inForce (regExp : JsString → Option (JsString → Bool)) {p : Replica}
    {e : Event} (context : RuleMatchContext)
    (h : InForce ((p.step regExp e).step regExp (.findStarts context))) :
    InstallsCurrent p e := by
  rintro i lookup reading rfl hlookup hread hrules hclock write hwrite
  have hserved : (⟨reading.rules, lookup.startedAt⟩ : RulesCache).getEnabledRules p.clock =
      some reading.rules :=
    RulesCache.getEnabledRules_eq_some_iff.mpr ⟨rfl, hrules, hclock⟩
  -- the next call is served from what has just been installed
  refine h ⟨context, p.clock, p.returned, reading, findMatchingRule regExp reading.rules context⟩
    ?_ write hwrite
  simp [Replica.step, findEnds, findStarts, hlookup, hread, hserved]

end Replica

open Replica in
/-- **Rule writes in force.**  In every run answers come from the table, and none from
rules read more than a minute before the call.  A write is in force for every call that
starts after its `invalidateCache` has returned as long as no read that has missed it
resolves after that with rules and within the minute; and once one does, the next call
is answered without the write. -/
theorem rule_write_in_force (regExp : JsString → Option (JsString → Bool))
    (rules : List RateLimitRule) (now : Nat) (events : List Event) :
    Recent (run (step regExp) (initial rules now) events) ∧
    Matched regExp (run (step regExp) (initial rules now) events) ∧
    (Along (step regExp) InstallsCurrent (initial rules now) events →
      InForce (run (step regExp) (initial rules now) events)) ∧
    ((∀ before after context, events = before ++ after →
      InForce (run (step regExp) (initial rules now) (before ++ [.findStarts context]))) ↔
        Along (step regExp) InstallsCurrent (initial rules now) events) := by
  obtain ⟨hrecent, hmatched⟩ := answered_run regExp rules now events
  refine ⟨hrecent, hmatched, fun h => (settled_run h).2, ?_, ?_⟩
  · -- a call that starts right after a step tells whether the step met the condition
    intro h
    apply along_of_splits
    intro before e after hsplit
    refine installsCurrent_of_inForce regExp ⟨[], none, none, none⟩ ?_
    have hnext := h (before ++ [e]) after ⟨[], none, none, none⟩ (by simp [hsplit])
    simpa using hnext
  · rintro h before after context rfl
    obtain ⟨hsettled, hinForce⟩ := settled_run ((along_append _ _ _ before after).mp h).1
    rw [run_append]
    exact hinForce.step hsettled (.findStarts context)

namespace Replica

/-- One rule for everybody, which allows a number of requests an hour. -/
def everybody (limit : ℕ+) : RateLimitRule where
  id := js "r1"
  name := js "everybody"
  algorithm := .fixedWindow
  limit := limit
  windowSeconds := 3600
  dimension := ⟨.global, none⟩

/-- A request of one user. -/
def anyone : RuleMatchContext := ⟨js "u1", none, none, none⟩

/-- Two calls wait for their reads while the limit is cut from 100 to 5; the query of the
first runs before the write and that of the second after it. -/
def overlapping : List Event :=
  [.findStarts anyone, .tableRead 0, .findStarts anyone, .writeCommits [everybody 5],
    .tableRead 1]

end Replica

open Replica in
/-- The write is in force when the first of two overlapping reads has resolved before its
`invalidateCache`, though the second resolves after it. -/
theorem rule_write_in_force_overlapping :
    InForce (run (step fun _ => none) (initial [everybody 100] 1000)
      (overlapping ++ [.findEnds 0, .invalidateCache 1, .clockAdvances 20, .findEnds 0,
        .findStarts anyone])) := by
  refine (rule_write_in_force (fun _ => none) [everybody 100] 1000 _).2.2.1 ?_
  refine ⟨?_, ?_, ?_, ?_, ?_, ?_, ?_, ?_, ?_, ?_, trivial⟩
  all_goals
    rintro i lookup reading h hlookup hread - - write hwrite
    cases h
  · cases hwrite
  · obtain rfl := Option.some.inj hlookup
    obtain rfl := Option.some.inj hread
    obtain rfl := List.mem_singleton.mp hwrite
    exact le_rfl

open Replica in
/-- When the first read resolves after the `invalidateCache` instead, the next call is held
to the old limit. -/
theorem slow_read_hides_rule_write :
    ¬ ∀ (regExp : JsString → Option (JsString → Bool)) (rules : List RateLimitRule) (now : Nat)
      (events : List Event),
      InForce (run (step regExp) (initial rules now) events) ∧
        Recent (run (step regExp) (initial rules now) events) := by
  intro h
  have hinForce := (h (fun _ => none) [everybody 100] 1000
    (overlapping ++ [.invalidateCache 1, .findEnds 0, .findStarts anyone])).1
  have hstale := hinForce
    ⟨anyone, 1000, [1], ⟨0, 1000, [everybody 100]⟩, some (everybody 100)⟩
    (List.mem_cons_of_mem _ List.mem_cons_self) 1 List.mem_cons_self
  exact Nat.not_succ_le_zero 0 hstale

end RateLimiter.Limiter
