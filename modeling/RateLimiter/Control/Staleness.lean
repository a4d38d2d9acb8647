import Mathlib.Data.List.Forall2
import RateLimiter.Control.Interleaving

/-!
# How stale an answer may be

A write is not in force at once where a load that has missed it is in flight, nor on the other
replicas.  What holds of every write, on every replica and in every order of events, is that
it is overlooked no longer than a set serves and its load takes, unless a load fails: then the
set in use serves once more.  To say so, the process is watched with a clock beside it.
-/

namespace RateLimiter.Control

open RateLimiter.Foundations RateLimiter.Javascript RateLimiter.Admission

/-- Two lists that go together still do when both lose the same place. -/
theorem forall₂_eraseIdx {α β : Type} {R : α → β → Prop} {xs : List α} {ys : List β}
    (h : List.Forall₂ R xs ys) (i : Nat) : List.Forall₂ R (xs.eraseIdx i) (ys.eraseIdx i) := by
  rw [List.eraseIdx_eq_take_drop_succ, List.eraseIdx_eq_take_drop_succ]
  exact List.rel_append (List.forall₂_take i h) (List.forall₂_drop (i + 1) h)

namespace Process

/-- A load that fails: the set in use is kept for another while, and the calls that wait go
on with it. -/
def loadFails (now : Instant) (p : Process) : Process :=
  match p.loading with
  | some _ =>
      { p with
        resolver := p.resolver.keep now.val
        loading := none
        calls := p.calls.map fun call => { call with ready := true } }
  | none => p

/-- What happens to a process, but for the instant. -/
inductive Happening
  | resolveStarts (pair : Pair)
  | loadEnds
  | loadFails
  | resolveEnds (call : Nat)
  | writeCommits (policies : List StoredPolicy)
  | invalidate (write : Nat)

/-- What it leaves of the process at an instant. -/
def happen (regExp : JsString → Option (JsString → Bool)) (p : Process)
    (moment : Instant × Happening) : Process :=
  match moment.2 with
  | .resolveStarts pair => p.step regExp (.resolveStarts pair moment.1)
  | .loadEnds => p.step regExp (.loadEnds moment.1)
  | .loadFails => p.loadFails moment.1
  | .resolveEnds call => p.step regExp (.resolveEnds call)
  | .writeCommits policies => p.step regExp (.writeCommits policies)
  | .invalidate write => p.step regExp (.invalidate write)

/-- A process and what a watch says beside it: when each write committed and when loads failed,
when the set in use was read and when the load in flight began, when each call under way began,
and when each one answered began and ended. -/
structure Watched where
  process : Process
  commits : List Int
  failures : List Int
  readAt : Int
  loadBegan : Int
  began : List Int
  answered : List (Int × Int)

namespace Watched

/-- Nothing loaded, nothing written. -/
def initial (policies : List StoredPolicy) : Watched where
  process := .initial policies
  commits := []
  failures := []
  readAt := 0
  loadBegan := 0
  began := []
  answered := []

variable (regExp : JsString → Option (JsString → Bool))

/-- One moment at an instant: the process moves, and the watch is read. -/
def step (w : Watched) (moment : Instant × Happening) : Watched :=
  let next := w.process.happen regExp moment
  match moment.2 with
  | .resolveStarts _ =>
      { w with
        process := next
        loadBegan :=
          if w.process.resolver.isFresh moment.1.val || w.process.loading.isSome then w.loadBegan
          else moment.1.val
        began := w.began ++ [moment.1.val] }
  | .loadEnds =>
      { w with
        process := next
        readAt := if w.process.loading.isSome then w.loadBegan else w.readAt }
  | .loadFails =>
      { w with
        process := next
        failures :=
          if w.process.loading.isSome then w.failures ++ [moment.1.val] else w.failures }
  | .resolveEnds call =>
      if (w.process.calls[call]?).any Call.ready then
        { w with
          process := next
          began := w.began.eraseIdx call
          answered := w.answered ++ w.began[call]?.toList.map fun began => (began, moment.1.val) }
      else { w with process := next }
  | .writeCommits _ => { w with process := next, commits := w.commits ++ [moment.1.val] }
  | .invalidate _ => { w with process := next }

/-- The load that ends well has taken no longer than `delay`. -/
def LoadsWithin (delay : Int) (w : Watched) (moment : Instant × Happening) : Prop :=
  match moment.2 with
  | .loadEnds => w.process.loading.isSome = true → moment.1.val - w.loadBegan ≤ delay
  | _ => True

instance (delay : Int) (w : Watched) (moment : Instant × Happening) :
    Decidable (LoadsWithin delay w moment) :=
  match moment with
  | (now, .loadEnds) => inferInstanceAs
      (Decidable (w.process.loading.isSome = true → now.val - w.loadBegan ≤ delay))
  | (_, .resolveStarts _) | (_, .loadFails) | (_, .resolveEnds _) | (_, .writeCommits _)
  | (_, .invalidate _) => isTrue trivial

/-! ## The invariant -/

/-- A set of the version has missed only what was committed at `t` or later. -/
def Misses (w : Watched) (version : Nat) (t : Int) : Prop :=
  version ≤ w.commits.length ∧ ∀ commit ∈ w.commits.drop version, t ≤ commit

/-- A load has failed, no earlier than the life of a set before `began`. -/
def Failed (w : Watched) (began : Int) : Prop := ∃ f ∈ w.failures, began - Resolver.ttlMs < f

/-- Where a call of the time `began` stands: the set it will use is not older than it may be,
or a load has failed, or it waits for a load. -/
def OnTime (delay : Int) (w : Watched) (call : Call) (began : Int) : Prop :=
  if call.ready then w.Failed began ∨ began - Resolver.ttlMs - delay ≤ w.readAt
  else w.process.loading.isSome

/-- What an answer has missed, unless a load failed before it was given. -/
def InTime (delay : Int) (w : Watched) (answer : Answer) (span : Int × Int) : Prop :=
  (∃ f ∈ w.failures, span.1 - Resolver.ttlMs < f ∧ f ≤ span.2) ∨
    w.Misses answer.version (span.1 - Resolver.ttlMs - delay)

/-- All that the watch says, at the instant `t`. -/
structure Timely (delay t : Int) (w : Watched) : Prop where
  current : Current w.process
  committed : w.process.database.version = w.commits.length
  failed : ∀ f ∈ w.failures, f ≤ t
  read : w.readAt ≤ t ∧ w.Misses w.process.resolver.policies.version w.readAt
  reading : ∀ snapshot, w.process.loading = some snapshot →
    w.loadBegan ≤ t ∧ w.Misses snapshot.version w.loadBegan
  loaded : w.process.resolver.loadedAt = 0 ∨ w.process.resolver.loadedAt - delay ≤ w.readAt ∨
    w.process.resolver.loadedAt ∈ w.failures
  calls : List.Forall₂ (fun call began => began ≤ t ∧ w.OnTime delay call began)
    w.process.calls w.began
  answers : List.Forall₂ (fun answer span => span.1 ≤ t ∧ w.InTime delay answer span)
    w.process.answers w.answered

variable {regExp} {delay t : Int} {w : Watched} {now : Instant}

theorem process_step (w : Watched) (moment : Instant × Happening) :
    (w.step regExp moment).process = w.process.happen regExp moment := by
  obtain ⟨now, happening⟩ := moment
  cases happening with
  | resolveStarts pair => rfl
  | loadEnds => rfl
  | loadFails => rfl
  | resolveEnds call =>
      unfold step
      dsimp only
      split <;> rfl
  | writeCommits policies => rfl
  | invalidate write => rfl

theorem Misses.mono {version : Nat} {u v : Int} (h : w.Misses version v) (hle : u ≤ v) :
    w.Misses version u :=
  ⟨h.1, fun commit hcommit => hle.trans (h.2 commit hcommit)⟩

/-- Nothing but the time has moved on. -/
theorem Timely.later (h : Timely delay t w) (hle : t ≤ now.val) : Timely delay now.val w where
  current := h.current
  committed := h.committed
  failed := fun f hf => (h.failed f hf).trans hle
  read := ⟨h.read.1.trans hle, h.read.2⟩
  reading := fun snapshot hsnapshot =>
    ⟨(h.reading snapshot hsnapshot).1.trans hle, (h.reading snapshot hsnapshot).2⟩
  loaded := h.loaded
  calls := h.calls.imp fun _ _ hcall => ⟨hcall.1.trans hle, hcall.2⟩
  answers := h.answers.imp fun _ _ hanswer => ⟨hanswer.1.trans hle, hanswer.2⟩

/-- A set that is fresh was read in time for a call that starts, or a load has failed. -/
theorem Timely.fresh (h : Timely delay t w) (hfresh : w.process.resolver.isFresh now.val = true) :
    w.Failed now.val ∨ now.val - Resolver.ttlMs - delay ≤ w.readAt := by
  rcases h.loaded with hnever | hloaded | hfailed
  · rw [not_isFresh_of_outdated hnever now] at hfresh
    cases hfresh
  · simp only [Resolver.isFresh, decide_eq_true_eq] at hfresh
    exact Or.inr (by omega)
  · simp only [Resolver.isFresh, decide_eq_true_eq] at hfresh
    exact Or.inl ⟨_, hfailed, by omega⟩

/-- What is committed now is missed, in time. -/
theorem Misses.commit {version : Nat} {u : Int} (h : w.Misses version u) (hle : u ≤ now.val)
    (policies : List StoredPolicy) :
    (w.step regExp (now, .writeCommits policies)).Misses version u := by
  refine ⟨?_, ?_⟩
  · show version ≤ (w.commits ++ [now.val]).length
    rw [List.length_append]
    exact h.1.trans (Nat.le_add_right _ _)
  · show ∀ commit ∈ (w.commits ++ [now.val]).drop version, u ≤ commit
    rw [List.drop_append_of_le_length h.1]
    intro commit hcommit
    rcases List.mem_append.mp hcommit with hold | hnew
    · exact h.2 commit hold
    · obtain rfl := List.mem_singleton.mp hnew
      exact hle

theorem Timely.resolveStarts (h : Timely delay t w) (hle : t ≤ now.val) (pair : Pair) :
    Timely delay now.val (w.step regExp (now, .resolveStarts pair)) := by
  have hkept := h.later hle
  by_cases hfresh : w.process.resolver.isFresh now.val = true
  · have hnext : w.step regExp (now, .resolveStarts pair) =
        { w with
          process := { w.process with
            calls := w.process.calls ++ [⟨pair, true, w.process.returned⟩] }
          began := w.began ++ [now.val] } := by
      simp [step, happen, Process.step, Process.resolveStarts, hfresh]
    rw [hnext]
    refine ⟨h.current, h.committed, hkept.failed, hkept.read, hkept.reading, h.loaded, ?_,
      hkept.answers⟩
    apply List.rel_append
    · exact hkept.calls
    · exact List.Forall₂.cons ⟨le_rfl, h.fresh hfresh⟩ List.Forall₂.nil
  · have hnext : w.step regExp (now, .resolveStarts pair) =
        { w with
          process := { w.process with
            loading := some (w.process.loading.getD w.process.database)
            calls := w.process.calls ++ [⟨pair, false, w.process.returned⟩] }
          loadBegan := if w.process.loading.isSome then w.loadBegan else now.val
          began := w.began ++ [now.val] } := by
      simp [step, happen, Process.step, Process.resolveStarts, hfresh]
    rw [hnext]
    refine ⟨h.current, h.committed, hkept.failed, hkept.read, ?_, h.loaded, ?_, hkept.answers⟩
    · -- the load in flight, or one that has missed nothing yet
      rintro snapshot ⟨⟩
      cases hloading : w.process.loading with
      | some older => exact hkept.reading older hloading
      | none =>
          refine ⟨le_rfl, h.committed.le, ?_⟩
          show ∀ commit ∈ w.commits.drop w.process.database.version, _
          rw [h.committed, List.drop_length]
          exact fun commit hcommit => absurd hcommit List.not_mem_nil
    · apply List.rel_append
      · refine hkept.calls.imp fun call began hcall => ⟨hcall.1, ?_⟩
        have hontime := hcall.2
        unfold OnTime at hontime ⊢
        split
        next hready =>
          rw [if_pos hready] at hontime
          exact hontime
        next => rfl
      · exact List.Forall₂.cons ⟨le_rfl, rfl⟩ List.Forall₂.nil

theorem Timely.loadEnds (h : Timely delay t w) (hle : t ≤ now.val)
    (hwithin : LoadsWithin delay w (now, .loadEnds)) :
    Timely delay now.val (w.step regExp (now, .loadEnds)) := by
  cases hloading : w.process.loading with
  | none =>
      have hnext : w.step regExp (now, .loadEnds) = w := by
        simp [step, happen, Process.step, Process.loadEnds, hloading]
      rw [hnext]
      exact h.later hle
  | some snapshot =>
      have hnext : w.step regExp (now, .loadEnds) =
          { w with
            process := { w.process with
              resolver := w.process.resolver.install snapshot now.val
              loading := none
              calls := w.process.calls.map fun call => { call with ready := true } }
            readAt := w.loadBegan } := by
        simp [step, happen, Process.step, Process.loadEnds, hloading]
      obtain ⟨hbegan, hmisses⟩ := h.reading snapshot hloading
      have hdelay : now.val - w.loadBegan ≤ delay := hwithin (by rw [hloading]; rfl)
      rw [hnext]
      refine ⟨?_, h.committed, (h.later hle).failed, ⟨hbegan.trans hle, hmisses⟩, ?_, ?_, ?_,
        (h.later hle).answers⟩
      · intro k answer hlookup
        cases (AList.lookup_empty k).symm.trans hlookup
      · intro other hother
        cases hother
      · refine Or.inr (Or.inl ?_)
        show now.val - delay ≤ w.loadBegan
        omega
      · -- whoever waited began before now, and the load not long before that
        refine List.forall₂_map_left_iff.mpr (h.calls.imp fun call began hcall => ?_)
        refine ⟨hcall.1.trans hle, Or.inr ?_⟩
        show began - Resolver.ttlMs - delay ≤ w.loadBegan
        have hstart := hcall.1
        unfold Resolver.ttlMs
        omega

/-- A failure more leaves the calls and the answers on time. -/
theorem InTime.failure {answer : Answer} {span : Int × Int} (h : w.InTime delay answer span)
    (failures : List Int) :
    InTime delay { w with failures := w.failures ++ failures } answer span :=
  h.imp_left fun ⟨f, hf, hrecent⟩ => ⟨f, List.mem_append_left _ hf, hrecent⟩

theorem Timely.loadFails (h : Timely delay t w) (hle : t ≤ now.val) :
    Timely delay now.val (w.step regExp (now, .loadFails)) := by
  have hkept := h.later hle
  cases hloading : w.process.loading with
  | none =>
      have hnext : w.step regExp (now, .loadFails) = w := by
        simp [step, happen, Process.loadFails, hloading]
      rw [hnext]
      exact hkept
  | some snapshot =>
      have hnext : w.step regExp (now, .loadFails) =
          { w with
            process := { w.process with
              resolver := w.process.resolver.keep now.val
              loading := none
              calls := w.process.calls.map fun call => { call with ready := true } }
            failures := w.failures ++ [now.val] } := by
        simp [step, happen, Process.loadFails, hloading]
      have hnow : now.val ∈ w.failures ++ [now.val] :=
        List.mem_append_right _ List.mem_cons_self
      rw [hnext]
      refine ⟨?_, h.committed, ?_, hkept.read, ?_, Or.inr (Or.inr hnow), ?_,
        hkept.answers.imp fun answer span hanswer => ⟨hanswer.1, hanswer.2.failure [now.val]⟩⟩
      · intro k answer hlookup
        cases (AList.lookup_empty k).symm.trans hlookup
      · intro f hf
        rcases List.mem_append.mp hf with hold | hnew
        · exact hkept.failed f hold
        · exact (List.mem_singleton.mp hnew).le
      · intro other hother
        cases hother
      · -- whoever waited began before the failure
        refine List.forall₂_map_left_iff.mpr (hkept.calls.imp fun call began hcall => ?_)
        refine ⟨hcall.1, Or.inl ⟨now.val, hnow, ?_⟩⟩
        have hstart := hcall.1
        unfold Resolver.ttlMs
        omega

/-- A call that cannot end yet changes nothing; one that can is answered from the set in use. -/
theorem resolveEnds_cases (hsame : w.process.calls.length = w.began.length) (call : Nat) :
    w.step regExp (now, .resolveEnds call) = w ∨
    ∃ (hplace : call < w.process.calls.length) (hbegan : call < w.began.length),
      w.process.calls[call].ready = true ∧
      w.step regExp (now, .resolveEnds call) =
        { w with
          process := { w.process with
            resolver :=
              (w.process.resolver.lookup (answerFrom regExp) w.process.calls[call].pair).1
            calls := w.process.calls.eraseIdx call
            answers := w.process.answers ++
              [⟨w.process.calls[call].pair, w.process.calls[call].returned,
                (w.process.resolver.lookup (answerFrom regExp)
                  w.process.calls[call].pair).2.1,
                (w.process.resolver.lookup (answerFrom regExp)
                  w.process.calls[call].pair).2.2⟩] }
          began := w.began.eraseIdx call
          answered := w.answered ++ [(w.began[call], now.val)] } := by
  by_cases hplace : call < w.process.calls.length
  · have hbegan : call < w.began.length := hsame ▸ hplace
    have hcall : w.process.calls[call]? = some w.process.calls[call] :=
      List.getElem?_eq_getElem hplace
    have hgo : w.began[call]? = some w.began[call] := List.getElem?_eq_getElem hbegan
    cases hready : w.process.calls[call].ready with
    | false =>
        exact Or.inl (by simp [step, happen, Process.step, Process.resolveEnds, hcall, hready])
    | true =>
        refine Or.inr ⟨hplace, hbegan, hready, ?_⟩
        simp [step, happen, Process.step, Process.resolveEnds, hcall, hready, hgo]
  · have hnone : w.process.calls[call]? = none := List.getElem?_eq_none (not_lt.mp hplace)
    exact Or.inl (by simp [step, happen, Process.step, Process.resolveEnds, hnone])

theorem Timely.resolveEnds (h : Timely delay t w) (hle : t ≤ now.val) (call : Nat) :
    Timely delay now.val (w.step regExp (now, .resolveEnds call)) := by
  have hkept := h.later hle
  rcases resolveEnds_cases h.calls.length_eq call with
    hnext | ⟨hplace, hbegan, hready, hnext⟩
  · rw [hnext]
    exact hkept
  · obtain ⟨hversion, hmemo⟩ := h.current.lookup w.process.calls[call].pair
    rw [hnext]
    refine ⟨hmemo, h.committed, hkept.failed, hkept.read, hkept.reading, h.loaded,
      forall₂_eraseIdx hkept.calls call, ?_⟩
    apply List.rel_append
    · exact hkept.answers
    · refine List.Forall₂.cons ?_ List.Forall₂.nil
      -- a call that is ready uses the set in use
      obtain ⟨hstart, hontime⟩ := hkept.calls.get hplace hbegan
      have hcall : w.process.calls.get ⟨call, hplace⟩ = w.process.calls[call] := rfl
      unfold OnTime at hontime
      rw [hcall, if_pos hready] at hontime
      refine ⟨hstart, hontime.imp ?_ fun hread => ?_⟩
      · rintro ⟨f, hf, hrecent⟩
        exact ⟨f, hf, hrecent, hkept.failed f hf⟩
      · rw [hversion]
        exact h.read.2.mono hread

theorem Timely.writeCommits (h : Timely delay t w) (hle : t ≤ now.val) (hdelay : 0 ≤ delay)
    (policies : List StoredPolicy) :
    Timely delay now.val (w.step regExp (now, .writeCommits policies)) := by
  have hcommits : w.step regExp (now, .writeCommits policies) =
      { w with
        process := { w.process with database := ⟨w.process.database.version + 1, policies⟩ }
        commits := w.commits ++ [now.val] } := rfl
  refine ⟨h.current, ?_, (h.later hle).failed,
    ⟨h.read.1.trans hle, h.read.2.commit (h.read.1.trans hle) policies⟩, ?_, h.loaded, ?_, ?_⟩
  · rw [hcommits]
    show w.process.database.version + 1 = (w.commits ++ [now.val]).length
    rw [h.committed, List.length_append]
    rfl
  · intro snapshot hsnapshot
    obtain ⟨hbegan, hmisses⟩ := h.reading snapshot hsnapshot
    exact ⟨hbegan.trans hle, hmisses.commit (hbegan.trans hle) policies⟩
  · exact h.calls.imp fun call began hcall => ⟨hcall.1.trans hle, hcall.2⟩
  · refine h.answers.imp fun answer began hanswer => ?_
    obtain ⟨hbegan, hintime⟩ := hanswer
    refine ⟨hbegan.trans hle, hintime.imp_right fun hmisses => hmisses.commit ?_ policies⟩
    unfold Resolver.ttlMs
    omega

theorem Timely.invalidate (h : Timely delay t w) (hle : t ≤ now.val) (write : Nat) :
    Timely delay now.val (w.step regExp (now, .invalidate write)) := by
  by_cases hpending : Pending write w.process
  · have hnext : w.step regExp (now, .invalidate write) =
        { w with
          process := { w.process with
            resolver := w.process.resolver.invalidate
            returned := write :: w.process.returned } } := by
      simp [step, happen, Process.step, Process.invalidate, hpending]
    have hkept := h.later hle
    rw [hnext]
    refine ⟨?_, h.committed, hkept.failed, hkept.read, hkept.reading, Or.inl rfl, hkept.calls,
      hkept.answers⟩
    intro k answer hlookup
    cases (AList.lookup_empty k).symm.trans hlookup
  · have hnext : w.step regExp (now, .invalidate write) = w := by
      simp [step, happen, Process.step, Process.invalidate, hpending]
    rw [hnext]
    exact h.later hle

theorem Timely.step (h : Timely delay t w) (hdelay : 0 ≤ delay) {moment : Instant × Happening}
    (hle : t ≤ moment.1.val) (hwithin : LoadsWithin delay w moment) :
    Timely delay moment.1.val (w.step regExp moment) := by
  obtain ⟨now, happening⟩ := moment
  cases happening with
  | resolveStarts pair => exact h.resolveStarts hle pair
  | loadEnds => exact h.loadEnds hle hwithin
  | loadFails => exact h.loadFails hle
  | resolveEnds call => exact h.resolveEnds hle call
  | writeCommits policies => exact h.writeCommits hle hdelay policies
  | invalidate write => exact h.invalidate hle write

end Watched

open Watched

/-- **Staleness.**  In whatever order calls start and end, loads end and fail and writes commit
and are invalidated, on this replica or another: where no load that ends well takes longer than
`delay`, every answer comes from a set that has all the writes that were committed more than
the life of a set and `delay` before its call began, unless a load failed between the life of a
set before the call began and the answer. -/
theorem answers_bounded_staleness (regExp : JsString → Option (JsString → Bool))
    (policies : List StoredPolicy) (t0 delay : Int) (hstart : 0 ≤ t0) (hdelay : 0 ≤ delay)
    (moments : List (Instant × Happening)) (htime : Chronological (fun m => m.1.val) t0 moments)
    (hloads : Along (Watched.step regExp) (LoadsWithin delay) (.initial policies) moments) :
    let w := run (Watched.step regExp) (.initial policies) moments
    w.process = run (happen regExp) (Process.initial policies) moments ∧
      List.Forall₂ (fun answer span =>
          (∀ f ∈ w.failures, span.1 - Resolver.ttlMs < f → span.2 < f) →
          ∀ i commit, w.commits[i]? = some commit →
            commit < span.1 - Resolver.ttlMs - delay → i < answer.version)
        w.process.answers w.answered := by
  intro w
  have hinit : Timely delay t0 (Watched.initial policies) := by
    refine ⟨?_, rfl, ?_, ⟨hstart, Nat.zero_le _, ?_⟩, ?_, Or.inl rfl, List.Forall₂.nil,
      List.Forall₂.nil⟩
    · intro k answer hlookup
      cases (AList.lookup_empty k).symm.trans hlookup
    · exact fun f hf => absurd hf List.not_mem_nil
    · exact fun commit hcommit => absurd hcommit List.not_mem_nil
    · intro snapshot hsnapshot
      cases hsnapshot
  have hkept : Timely delay (lastTime (fun m => m.1.val) t0 moments) w :=
    timed_run (fun m : Instant × Happening => m.1.val) (Watched.step regExp)
      (fun _ _ => (0 : Nat)) (I := fun t _ w => Timely delay t w) (m := 0)
      (fun _ _ _ _ h hle hwithin => h.step hdelay hle hwithin) hinit htime hloads
  refine ⟨?_, hkept.answers.imp fun answer span hanswer hquiet i commit hcommit hearly => ?_⟩
  · have hrun : ∀ (moments : List (Instant × Happening)) (w : Watched),
        (run (Watched.step regExp) w moments).process =
          run (happen regExp) w.process moments := by
      intro moments
      induction moments with
      | nil => exact fun w => rfl
      | cons moment moments ih =>
          intro w
          rw [run_cons, ih, process_step]
          rfl
    exact hrun moments _
  · rcases hanswer.2 with ⟨f, hf, hrecent, hbefore⟩ | hmisses
    · exact absurd (hquiet f hf hrecent) (not_lt.mpr hbefore)
    · -- a commit that was missed is not so early
      by_contra hmissed
      have hdrop : commit ∈ w.commits.drop answer.version := by
        refine List.mem_of_getElem? (i := i - answer.version) ?_
        rw [List.getElem?_drop, Nat.add_sub_cancel' (not_lt.mp hmissed)]
        exact hcommit
      have hlate := hmisses.2 commit hdrop
      omega

/-- A call joins a load that has missed a write, and the next load fails: the write is there
when half a minute more has passed. -/
theorem answers_bounded_staleness_joined :
    let at_ := fun (t : Int) (h : Resolver.ttlMs ≤ t) => (⟨t, h⟩ : Instant)
    let moments : List (Instant × Happening) :=
      [(at_ 60000 (by decide), .resolveStarts (js "acme", js "a")),
        (at_ 60001 (by decide), .writeCommits []),
        (at_ 60002 (by decide), .invalidate 1),
        (at_ 60003 (by decide), .resolveStarts (js "acme", js "b")),
        (at_ 60005 (by decide), .loadEnds),
        (at_ 60005 (by decide), .resolveEnds 1),
        (at_ 90005 (by decide), .resolveStarts (js "acme", js "b")),
        (at_ 90007 (by decide), .loadFails),
        (at_ 90007 (by decide), .resolveEnds 1),
        (at_ 120007 (by decide), .resolveStarts (js "acme", js "b")),
        (at_ 120009 (by decide), .loadEnds),
        (at_ 120009 (by decide), .resolveEnds 1)]
    (run (Watched.step fun _ => none) (.initial []) moments).process.answers.map Answer.version =
        [0, 0, 1] ∧
      List.Forall₂ (fun answer span =>
          (∀ f ∈ (run (Watched.step fun _ => none) (.initial []) moments).failures,
            span.1 - Resolver.ttlMs < f → span.2 < f) →
          ∀ i commit,
            (run (Watched.step fun _ => none) (.initial []) moments).commits[i]? = some commit →
            commit < span.1 - Resolver.ttlMs - 5 → i < answer.version)
        (run (Watched.step fun _ => none) (.initial []) moments).process.answers
        (run (Watched.step fun _ => none) (.initial []) moments).answered := by
  intro at_ moments
  refine ⟨by decide +kernel, (answers_bounded_staleness (fun _ => none) [] 60000 5 (by decide)
    (by decide) moments ?_ ?_).2⟩
  · simp [moments, at_]
  · decide +kernel

end Process

end RateLimiter.Control
