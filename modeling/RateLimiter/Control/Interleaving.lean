import RateLimiter.Control.Resolver

/-!
# Policy writes while policies load

One process handles `resolve` calls, the load they share and policy writes, each
in several moments between which the others run.  The load reads the table when
it starts and installs it when it ends; `invalidate` marks the set as out of date
but does not touch a load in flight.  The loads of this module succeed.  It says when
a write is in force once its `invalidate` has returned.
-/

namespace RateLimiter.Control

open RateLimiter.Foundations RateLimiter.Javascript RateLimiter.Admission

/-- What the database answers to a load: the enabled policies after `version`
writes. -/
structure Snapshot where
  version : Nat
  policies : List StoredPolicy

/-- `Date.now()`, which is later than any `ttlMs` after zero. -/
def Instant := { t : Int // Resolver.ttlMs ≤ t }

/-- A `resolve` call that has started.  It is `ready` to go on when it waits for no
load, and knows which writes had returned from `invalidate` when it started. -/
structure Call where
  pair : Pair
  ready : Bool
  returned : List Nat

/-- What a `resolve` call answered, and the version of the table it came from. -/
structure Answer where
  pair : Pair
  returned : List Nat
  version : Nat
  policy : AdmissionPolicy

/-- One gateway process and the database it reads.  `loading` is the snapshot the
load in flight has read; `returned` lists the writes whose `invalidate` is done. -/
structure Process where
  resolver : Resolver Snapshot (Nat × AdmissionPolicy)
  loading : Option Snapshot
  database : Snapshot
  calls : List Call
  returned : List Nat
  answers : List Answer

namespace Process

/-- Nothing loaded, nothing written. -/
def initial (policies : List StoredPolicy) : Process where
  resolver := { policies := ⟨0, []⟩, resolved := ∅, loadedAt := 0 }
  loading := none
  database := ⟨0, policies⟩
  calls := []
  returned := []
  answers := []

/-- The moments of the process.  A call and a write are named by their numbers. -/
inductive Event
  | resolveStarts (pair : Pair) (now : Instant)
  | loadEnds (now : Instant)
  | resolveEnds (call : Nat)
  | writeCommits (policies : List StoredPolicy)
  | invalidate (write : Nat)

variable (regExp : JsString → Option (JsString → Bool))

/-- The policy a snapshot has for a pair, with the version it comes from. -/
def answerFrom (snapshot : Snapshot) (pair : Pair) : Nat × AdmissionPolicy :=
  (snapshot.version, policyFor regExp snapshot.policies pair)

/-- `resolve` up to its `await`: a fresh set is used, a load in flight is joined, and
otherwise a load starts and reads the table. -/
def resolveStarts (pair : Pair) (now : Instant) (p : Process) : Process :=
  if p.resolver.isFresh now.val then
    { p with calls := p.calls ++ [⟨pair, true, p.returned⟩] }
  else
    { p with
      loading := some (p.loading.getD p.database)
      calls := p.calls ++ [⟨pair, false, p.returned⟩] }

/-- The load succeeds: it installs what it has read, and the calls that wait for it go on. -/
def loadEnds (now : Instant) (p : Process) : Process :=
  match p.loading with
  | some snapshot =>
      { p with
        resolver := p.resolver.install snapshot now.val
        loading := none
        calls := p.calls.map fun call => { call with ready := true } }
  | none => p

/-- `resolve` after its `await`. -/
def resolveEnds (call : Nat) (p : Process) : Process :=
  match p.calls[call]? with
  | some c =>
      if c.ready then
        let out := p.resolver.lookup (answerFrom regExp) c.pair
        { p with
          resolver := out.1
          calls := p.calls.eraseIdx call
          answers := p.answers ++ [⟨c.pair, c.returned, out.2.1, out.2.2⟩] }
      else p
  | none => p

/-- A write has committed, and its `invalidate` has not returned. -/
def Pending (write : Nat) (p : Process) : Prop :=
  1 ≤ write ∧ write ≤ p.database.version ∧ write ∉ p.returned

instance (write : Nat) (p : Process) : Decidable (Pending write p) :=
  inferInstanceAs (Decidable (_ ∧ _ ∧ _))

/-- `invalidate`, for a write. -/
def invalidate (write : Nat) (p : Process) : Process :=
  if Pending write p then
    { p with resolver := p.resolver.invalidate, returned := write :: p.returned }
  else p

/-- One moment of the process; one that cannot happen changes nothing. -/
def step (p : Process) : Event → Process
  | .resolveStarts pair now => p.resolveStarts pair now
  | .loadEnds now => p.loadEnds now
  | .resolveEnds call => p.resolveEnds regExp call
  | .writeCommits policies => { p with database := ⟨p.database.version + 1, policies⟩ }
  | .invalidate write => p.invalidate write

/-! ## A write in force -/

/-- Every call that started after the `invalidate` of a write answered from a table
that contains the write. -/
def InForce (write : Nat) (p : Process) : Prop :=
  ∀ answer ∈ p.answers, write ∈ answer.returned → write ≤ answer.version

/-- No load is in flight that read the table before the write. -/
def NoOlderLoad (write : Nat) (p : Process) : Prop :=
  ∀ snapshot, p.loading = some snapshot → write ≤ snapshot.version

/-- Remembered answers come from the set they are remembered with. -/
def Current (p : Process) : Prop :=
  ∀ k answer, p.resolver.resolved.lookup k = some answer →
    answer.1 = p.resolver.policies.version

/-- Calls and answers know only of writes that have returned. -/
structure Recorded (p : Process) : Prop where
  calls : ∀ call ∈ p.calls, ∀ write ∈ call.returned, write ∈ p.returned
  answers : ∀ answer ∈ p.answers, ∀ write ∈ answer.returned, write ∈ p.returned

/-- A write in force for good: an older set is out of date, and the calls that know
of the write wait for a load that has read it. -/
structure Settled (write : Nat) (p : Process) : Prop where
  committed : write ≤ p.database.version
  loading : NoOlderLoad write p
  outdated : p.resolver.policies.version < write → p.resolver.loadedAt = 0
  waiting : p.resolver.policies.version < write →
    ∀ call ∈ p.calls, write ∈ call.returned → call.ready = false
  inForce : InForce write p

section Steps

variable {regExp} {p : Process} {write : Nat}

theorem not_isFresh_of_outdated {r : Resolver Snapshot (Nat × AdmissionPolicy)}
    (h : r.loadedAt = 0) (now : Instant) : r.isFresh now.val = false := by
  have hnow := now.property
  simp only [Resolver.isFresh, h, decide_eq_false_iff_not]
  omega

/-- An answer, and what is remembered after it, comes from the set in use. -/
theorem Current.lookup (h : Current p) (pair : Pair) :
    (p.resolver.lookup (answerFrom regExp) pair).2.1 = p.resolver.policies.version ∧
      ∀ k answer, (p.resolver.lookup (answerFrom regExp) pair).1.resolved.lookup k = some answer →
        answer.1 = p.resolver.policies.version :=
  Memo.ask_forall (P := fun answer : Nat × AdmissionPolicy =>
    answer.1 = p.resolver.policies.version) pair h rfl

/-- What the end of a `resolve` call does. -/
theorem resolveEnds_cases (regExp : JsString → Option (JsString → Bool)) (call : Nat)
    (p : Process) :
    p.resolveEnds regExp call = p ∨
      ∃ c, c ∈ p.calls ∧ c.ready = true ∧ p.resolveEnds regExp call =
        { p with
          resolver := (p.resolver.lookup (answerFrom regExp) c.pair).1
          calls := p.calls.eraseIdx call
          answers := p.answers ++ [⟨c.pair, c.returned,
            (p.resolver.lookup (answerFrom regExp) c.pair).2.1,
            (p.resolver.lookup (answerFrom regExp) c.pair).2.2⟩] } := by
  unfold resolveEnds
  cases hcall : p.calls[call]? with
  | none => exact Or.inl rfl
  | some c =>
      cases hready : c.ready with
      | false => exact Or.inl (by simp [hready])
      | true => exact Or.inr ⟨c, List.mem_of_getElem? hcall, hready, by simp [hready]⟩

theorem Current.step (h : Current p) (e : Event) : Current (p.step regExp e) := by
  cases e with
  | resolveStarts pair now =>
      simp only [Process.step, Process.resolveStarts]
      split <;> exact h
  | loadEnds now =>
      simp only [Process.step, Process.loadEnds]
      split
      · intro k answer hlookup
        cases (AList.lookup_empty k).symm.trans hlookup
      · exact h
  | resolveEnds call =>
      rcases resolveEnds_cases regExp call p with hstep | ⟨c, -, -, hstep⟩
      · simpa only [Process.step, hstep] using h
      · simp only [Process.step, hstep]
        exact (h.lookup c.pair).2
  | writeCommits policies => exact h
  | invalidate w =>
      simp only [Process.step, Process.invalidate]
      split
      · intro k answer hlookup
        cases (AList.lookup_empty k).symm.trans hlookup
      · exact h

theorem Recorded.step (h : Recorded p) (e : Event) : Recorded (p.step regExp e) := by
  have hcalls {ready : Bool} (pair : Pair) :
      ∀ call ∈ p.calls ++ [(⟨pair, ready, p.returned⟩ : Call)], ∀ w ∈ call.returned,
        w ∈ p.returned := by
    intro call hcall w hw
    rcases List.mem_append.mp hcall with hold | hnew
    · exact h.calls call hold w hw
    · obtain rfl := List.mem_singleton.mp hnew
      exact hw
  cases e with
  | resolveStarts pair now =>
      simp only [Process.step, Process.resolveStarts]
      split <;> exact ⟨hcalls pair, h.answers⟩
  | loadEnds now =>
      simp only [Process.step, Process.loadEnds]
      split
      · refine ⟨?_, h.answers⟩
        intro call hcall w hw
        obtain ⟨call', hcall', rfl⟩ := List.mem_map.mp hcall
        exact h.calls call' hcall' w hw
      · exact h
  | resolveEnds call =>
      rcases resolveEnds_cases regExp call p with hstep | ⟨c, hc, -, hstep⟩
      · simpa only [Process.step, hstep] using h
      · simp only [Process.step, hstep]
        refine ⟨fun d hd => h.calls d (List.mem_of_mem_eraseIdx hd), ?_⟩
        intro answer hanswer w hw
        rcases List.mem_append.mp hanswer with hold | hnew
        · exact h.answers answer hold w hw
        · obtain rfl := List.mem_singleton.mp hnew
          exact h.calls c hc w hw
  | writeCommits policies => exact ⟨h.calls, h.answers⟩
  | invalidate w' =>
      simp only [Process.step, Process.invalidate]
      split
      · exact ⟨fun c hc w hw => List.mem_cons_of_mem w' (h.calls c hc w hw),
          fun a ha w hw => List.mem_cons_of_mem w' (h.answers a ha w hw)⟩
      · exact h

/-- A write that is in force for good stays so. -/
theorem Settled.step (hcurrent : Current p) (h : Settled write p) (e : Event) :
    Settled write (p.step regExp e) := by
  cases e with
  | resolveStarts pair now =>
      simp only [Process.step, Process.resolveStarts]
      split
      next hfresh =>
        refine ⟨h.committed, h.loading, h.outdated, ?_, h.inForce⟩
        intro hold
        -- A set older than the write is not fresh.
        rw [not_isFresh_of_outdated (h.outdated hold) now] at hfresh
        cases hfresh
      next =>
        refine ⟨h.committed, ?_, h.outdated, ?_, h.inForce⟩
        · intro snapshot hsnapshot
          obtain rfl := Option.some.inj hsnapshot
          cases hloading : p.loading with
          | some joined => exact h.loading joined hloading
          | none => exact h.committed
        · intro hold call hcall hknows
          rcases List.mem_append.mp hcall with hbefore | hnew
          · exact h.waiting hold call hbefore hknows
          · obtain rfl := List.mem_singleton.mp hnew
            rfl
  | loadEnds now =>
      simp only [Process.step, Process.loadEnds]
      split
      next snapshot hloading =>
        have hcontains : write ≤ snapshot.version := h.loading snapshot hloading
        refine ⟨h.committed, ?_, ?_, ?_, h.inForce⟩
        · intro snapshot' hsnapshot'
          cases hsnapshot'
        · exact fun hold => absurd hcontains (Nat.not_le.mpr hold)
        · exact fun hold => absurd hcontains (Nat.not_le.mpr hold)
      next => exact h
  | resolveEnds call =>
      rcases resolveEnds_cases regExp call p with hstep | ⟨c, hc, hready, hstep⟩
      · simpa only [Process.step, hstep] using h
      · simp only [Process.step, hstep]
        refine ⟨h.committed, h.loading, h.outdated, ?_, ?_⟩
        · exact fun hold d hd => h.waiting hold d (List.mem_of_mem_eraseIdx hd)
        · intro answer hanswer hknows
          rcases List.mem_append.mp hanswer with hbefore | hnew
          · exact h.inForce answer hbefore hknows
          · obtain rfl := List.mem_singleton.mp hnew
            -- A call that knows of the write and does not wait has a set with the write.
            show write ≤ (p.resolver.lookup (answerFrom regExp) c.pair).2.1
            rw [(hcurrent.lookup c.pair).1]
            by_contra hold
            have hwaits := h.waiting (Nat.not_le.mp hold) c hc hknows
            rw [hready] at hwaits
            cases hwaits
  | writeCommits policies =>
      exact ⟨h.committed.trans (Nat.le_succ _), h.loading, h.outdated, h.waiting, h.inForce⟩
  | invalidate w =>
      simp only [Process.step, Process.invalidate]
      split
      · exact ⟨h.committed, h.loading, fun _ => rfl, h.waiting, h.inForce⟩
      · exact h

/-- The `invalidate` of a write puts it in force when no older load is in flight. -/
theorem Pending.settled (h : Pending write p) (hrecorded : Recorded p)
    (hload : NoOlderLoad write p) : Settled write (p.step regExp (.invalidate write)) := by
  obtain ⟨-, hcommitted, hunreturned⟩ := id h
  simp only [Process.step, Process.invalidate, if_pos h]
  exact
    { committed := hcommitted
      loading := hload
      outdated := fun _ => rfl
      waiting := fun _ call hcall hknows =>
        absurd (hrecorded.calls call hcall write hknows) hunreturned
      inForce := fun answer hanswer hknows =>
        absurd (hrecorded.answers answer hanswer write hknows) hunreturned }

/-- A write returns at its own `invalidate` only. -/
theorem mem_returned_step (e : Event) (h : write ∈ (p.step regExp e).returned) :
    write ∈ p.returned ∨ (e = .invalidate write ∧ Pending write p) := by
  cases e with
  | resolveStarts pair now =>
      simp only [Process.step, Process.resolveStarts] at h
      split at h <;> exact Or.inl h
  | loadEnds now =>
      simp only [Process.step, Process.loadEnds] at h
      split at h <;> exact Or.inl h
  | resolveEnds call =>
      rcases resolveEnds_cases regExp call p with hstep | ⟨c, -, -, hstep⟩ <;>
        simp only [Process.step, hstep] at h <;> exact Or.inl h
  | writeCommits policies => exact Or.inl h
  | invalidate w =>
      simp only [Process.step, Process.invalidate] at h
      split at h
      next hpending =>
        rcases List.mem_cons.mp h with rfl | hbefore
        · exact Or.inr ⟨rfl, hpending⟩
        · exact Or.inl hbefore
      next => exact Or.inl h

end Steps

/-! ## Runs -/

section Runs

variable {regExp} {write : Nat}

/-- What holds in every run, and of a write that met the condition. -/
structure Kept (write : Nat) (p : Process) : Prop where
  current : Current p
  recorded : Recorded p
  settled : write ∈ p.returned → Settled write p

theorem Kept.inForce {p : Process} (h : Kept write p) : InForce write p := by
  intro answer hanswer hknows
  have hreturned := h.recorded.answers answer hanswer write hknows
  exact (h.settled hreturned).inForce answer hanswer hknows

theorem Kept.step {p : Process} (h : Kept write p) (e : Event)
    (hload : e = .invalidate write → Pending write p → NoOlderLoad write p) :
    Kept write (p.step regExp e) := by
  refine ⟨h.current.step e, h.recorded.step e, ?_⟩
  intro hreturned
  rcases mem_returned_step e hreturned with hbefore | ⟨rfl, hpending⟩
  · exact (h.settled hbefore).step h.current e
  · exact hpending.settled h.recorded (hload rfl hpending)

theorem current_initial (policies : List StoredPolicy) : Current (initial policies) := by
  intro k answer hlookup
  cases (AList.lookup_empty k).symm.trans hlookup

theorem recorded_initial (policies : List StoredPolicy) : Recorded (initial policies) :=
  ⟨fun _ hcall => absurd hcall List.not_mem_nil, fun _ hanswer => absurd hanswer List.not_mem_nil⟩

theorem invariants_run (regExp : JsString → Option (JsString → Bool))
    (policies : List StoredPolicy) (events : List Event) :
    Current (run (step regExp) (initial policies) events) ∧
      Recorded (run (step regExp) (initial policies) events) :=
  run_invariant (step regExp) (I := fun p => Current p ∧ Recorded p)
    (fun _ e h => ⟨h.1.step e, h.2.step e⟩) ⟨current_initial policies, recorded_initial policies⟩
    events

/-- A call that joins a load older than a write answers without the write. -/
theorem exists_stale_answer (regExp : JsString → Option (JsString → Bool)) {p : Process}
    (h : Pending write p) {snapshot : Snapshot}
    (hloading : p.loading = some snapshot) (hold : snapshot.version < write) :
    ∃ later, ¬ InForce write (run (step regExp) (p.step regExp (.invalidate write)) later) := by
  refine ⟨[.resolveStarts ([], []) ⟨Resolver.ttlMs, le_rfl⟩, .loadEnds ⟨Resolver.ttlMs, le_rfl⟩,
    .resolveEnds p.calls.length], ?_⟩
  intro hinForce
  have hanswer := hinForce ⟨([], []), write :: p.returned, snapshot.version,
    policyFor regExp snapshot.policies ([], [])⟩
  have hstale : ¬ write ≤ snapshot.version := Nat.not_le.mpr hold
  refine hstale (hanswer ?_ List.mem_cons_self)
  simp [run, Process.step, Process.invalidate, if_pos h, Process.resolveStarts, Process.loadEnds,
    Process.resolveEnds, Resolver.isFresh, Resolver.invalidate, Resolver.install, Resolver.lookup,
    Memo.ask, answerFrom, hloading]

end Runs

end Process

open Process in
/-- **Writes in force.**  In every run a write is in force once its `invalidate` has
returned if no load that read the table before the write was in flight then; and
where one was, the run has a continuation in which the write is not in force. -/
theorem policy_write_in_force (regExp : JsString → Option (JsString → Bool))
    (policies : List StoredPolicy) (write : Nat) :
    (∀ events, Along (step regExp)
        (fun p e => e = .invalidate write → Pending write p → NoOlderLoad write p)
        (initial policies) events →
      InForce write (run (step regExp) (initial policies) events)) ∧
    (∀ events, Pending write (run (step regExp) (initial policies) events) →
      ((∀ later, InForce write (run (step regExp) (initial policies)
          (events ++ .invalidate write :: later))) ↔
        NoOlderLoad write (run (step regExp) (initial policies) events))) := by
  constructor
  · intro events hloads
    have hstart : Kept write (initial policies) :=
      ⟨current_initial policies, recorded_initial policies,
        fun hreturned => absurd hreturned List.not_mem_nil⟩
    exact (run_invariant_along (fun _ e h hload => h.step e hload) hstart hloads).inForce
  · -- With an older load in flight the next call joins it and reads the old table.
    intro events hpending
    obtain ⟨hcurrent, hrecorded⟩ := invariants_run regExp policies events
    constructor
    · intro hinForce snapshot hloading
      by_contra hold
      obtain ⟨later, hstale⟩ := exists_stale_answer regExp hpending hloading (Nat.not_le.mp hold)
      apply hstale
      simpa using hinForce later
    · intro hload later
      rw [run_append, run_cons]
      refine (run_invariant (step regExp) (I := fun p => Current p ∧ Settled write p)
        (fun _ e h => ⟨h.1.step e, h.2.step h.1 e⟩) ?_ later).2.inForce
      exact ⟨hcurrent.step (.invalidate write), hpending.settled hrecorded hload⟩

open Process in
/-- A write that finds no load in flight is in force for the next call. -/
theorem policy_write_in_force_idle :
    InForce 1 (run (step fun _ => none) (initial [])
      ([.writeCommits []] ++ .invalidate 1 ::
        [.resolveStarts (js "acme", js "gpt") ⟨30000, by decide⟩, .loadEnds ⟨30100, by decide⟩,
          .resolveEnds 0])) := by
  refine ((policy_write_in_force (fun _ => none) [] 1).2 [.writeCommits []] (by decide)).mpr ?_ _
  intro snapshot hloading
  cases hloading

open Process in
/-- A load that reads the table before a write and ends after its `invalidate` puts
the old table back for the calls to come. -/
theorem load_in_flight_hides_write :
    ¬ ∀ (regExp : JsString → Option (JsString → Bool)) (policies : List StoredPolicy)
      (write : Nat) (events : List Event),
      InForce write (run (step regExp) (initial policies) events) := by
  intro h
  have hanswer := h (fun _ => none) [] 1
    [.resolveStarts (js "acme", js "gpt") ⟨30000, by decide⟩, .writeCommits [], .invalidate 1,
      .loadEnds ⟨30100, by decide⟩, .resolveStarts (js "acme", js "gpt") ⟨30200, by decide⟩,
      .resolveEnds 1]
  have hstale := hanswer ⟨(js "acme", js "gpt"), [1], 0, policyFor (fun _ => none) []
    (js "acme", js "gpt")⟩ List.mem_cons_self List.mem_cons_self
  exact Nat.not_succ_le_zero 0 hstale

end RateLimiter.Control
