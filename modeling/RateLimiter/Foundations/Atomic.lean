import Mathlib.Data.List.Nodup
import Mathlib.Logic.Function.Basic
import RateLimiter.Foundations.Runs

/-!
# Calls that take effect at one point

A shared object with operations, and callers that invoke one each, wait and get a reply.
Between the two the operation takes effect, once and at one point.  What has happened to the
object is then told by the log of the operations in the order in which they took effect,
and a reply is what the operation answers at its place in the log.
-/

namespace RateLimiter.Foundations

variable {σ ι ω κ : Type*}

/-- How far a call is. -/
inductive CallStatus (ι ω : Type*)
  | pending (operation : ι)
  | settled (operation : ι) (reply : ω)

/-- A shared object, what its callers are told, and the log of what has taken effect. -/
structure Atomic (σ ι ω κ : Type*) where
  object : σ
  status : κ → Option (CallStatus ι ω)
  log : List (κ × ι)

/-- What happens to a call: it is invoked, and it takes effect. -/
inductive CallEvent (ι κ : Type*)
  | invoke (call : κ) (operation : ι)
  | perform (call : κ)

namespace Atomic

variable [DecidableEq κ] (apply : σ → ι → σ × ω)

/-- An object no call has been made of. -/
def fresh (s : σ) : Atomic σ ι ω κ := ⟨s, fun _ => none, []⟩

/-- A call is invoked once, and takes effect once. -/
def step (a : Atomic σ ι ω κ) : CallEvent ι κ → Atomic σ ι ω κ
  | .invoke call operation =>
      match a.status call with
      | none => { a with status := Function.update a.status call (some (.pending operation)) }
      | some _ => a
  | .perform call =>
      match a.status call with
      | some (.pending operation) =>
          { object := (apply a.object operation).1
            status := Function.update a.status call
              (some (.settled operation (apply a.object operation).2))
            log := a.log ++ [(call, operation)] }
      | _ => a

/-- The object after the operations of a log. -/
def replay (s : σ) (log : List (κ × ι)) : σ := run (fun s entry => (apply s entry.2).1) s log

/-- The log explains the object and the replies: every settled call is in it once, with the
reply its operation gives at that place, and no other call is. -/
structure Explained (s : σ) (a : Atomic σ ι ω κ) : Prop where
  object : a.object = replay apply s a.log
  nodup : (a.log.map Prod.fst).Nodup
  settled : ∀ call operation reply, a.status call = some (.settled operation reply) ↔
    ∃ before after, a.log = before ++ (call, operation) :: after ∧
      reply = (apply (replay apply s before) operation).2

/-! ### What an event does -/

section Event

variable {a : Atomic σ ι ω κ} {call : κ} {operation : ι}

/-- Invoke a call that has not been invoked. -/
def invoked (a : Atomic σ ι ω κ) (call : κ) (operation : ι) : Atomic σ ι ω κ :=
  { a with status := Function.update a.status call (some (.pending operation)) }

/-- Let the operation of a call take effect. -/
def performed (a : Atomic σ ι ω κ) (call : κ) (operation : ι) : Atomic σ ι ω κ where
  object := (apply a.object operation).1
  status := Function.update a.status call
    (some (.settled operation (apply a.object operation).2))
  log := a.log ++ [(call, operation)]

theorem step_invoke (h : a.status call = none) :
    a.step apply (.invoke call operation) = a.invoked call operation := by
  simp only [step, h]
  rfl

theorem step_invoke_again {status : CallStatus ι ω} (h : a.status call = some status) :
    a.step apply (.invoke call operation) = a := by
  simp only [step, h]

theorem step_perform (h : a.status call = some (.pending operation)) :
    a.step apply (.perform call) = a.performed apply call operation := by
  simp only [step, h]
  rfl

theorem step_perform_idle (h : ∀ operation, a.status call ≠ some (.pending operation)) :
    a.step apply (.perform call) = a := by
  rcases hstatus : a.status call with _ | ⟨operation | ⟨operation, reply⟩⟩
  · simp only [step, hstatus]
  · exact absurd hstatus (h operation)
  · simp only [step, hstatus]

/-- What takes effect is only ever added to the log. -/
theorem log_extends (a : Atomic σ ι ω κ) (event : CallEvent ι κ) :
    a.log <+: (a.step apply event).log := by
  cases event with
  | invoke call operation =>
      cases hstatus : a.status call with
      | none =>
          rw [step_invoke apply hstatus]
          exact List.prefix_refl _
      | some status =>
          simp only [step_invoke_again apply hstatus, List.prefix_refl]
  | perform call =>
      by_cases hpending : ∃ operation, a.status call = some (.pending operation)
      · obtain ⟨operation, hoperation⟩ := hpending
        rw [step_perform apply hoperation]
        exact List.prefix_append _ _
      · simp only [step_perform_idle apply (not_exists.mp hpending), List.prefix_refl]

end Event

/-! ### The log explains the replies -/

variable {apply} {s : σ} {a : Atomic σ ι ω κ} {call : κ} {operation : ι}

omit [DecidableEq κ] in
theorem explained_fresh (s : σ) : Explained apply s (fresh s : Atomic σ ι ω κ) where
  object := rfl
  nodup := List.nodup_nil
  settled call operation reply := by
    constructor
    · intro h
      cases h
    · rintro ⟨before, after, hlog, -⟩
      exact absurd hlog (by simp [fresh])

omit [DecidableEq κ] in
/-- A call that is not settled is not in the log. -/
theorem Explained.not_mem_log (h : Explained apply s a)
    (hopen : ∀ operation reply, a.status call ≠ some (.settled operation reply)) :
    call ∉ a.log.map Prod.fst := by
  intro hmem
  obtain ⟨⟨call', operation⟩, hentry, rfl⟩ := List.mem_map.mp hmem
  obtain ⟨before, after, hlog⟩ := List.append_of_mem hentry
  exact hopen operation _ ((h.settled call' operation _).mpr ⟨before, after, hlog, rfl⟩)

theorem Explained.invoked (h : Explained apply s a) (hnone : a.status call = none) :
    Explained apply s (a.invoked call operation) where
  object := h.object
  nodup := h.nodup
  settled call' operation' reply := by
    show Function.update a.status call _ call' = _ ↔ _
    rw [show (a.invoked call operation).log = a.log from rfl, ← h.settled call' operation' reply]
    by_cases hcall : call' = call
    · rw [hcall, Function.update_self, hnone]
      simp
    · rw [Function.update_of_ne hcall]

/-- An entry of a longer log is the last one or an entry of the log before. -/
theorem split_concat {α : Type*} {log before after : List α} {last entry : α} :
    log ++ [last] = before ++ entry :: after ↔
      (log = before ∧ last = entry ∧ after = []) ∨
        ∃ rest, after = rest ++ [last] ∧ log = before ++ entry :: rest := by
  constructor
  · intro h
    rcases List.eq_nil_or_concat' after with rfl | ⟨rest, last', rfl⟩
    · obtain ⟨hlog, hlast⟩ := List.append_inj' h rfl
      exact Or.inl ⟨hlog, (List.cons.inj hlast).1, rfl⟩
    · rw [← List.cons_append, ← List.append_assoc] at h
      obtain ⟨hlog, hlast⟩ := List.append_inj' h rfl
      exact Or.inr ⟨rest, by rw [(List.cons.inj hlast).1], hlog⟩
  · rintro (⟨rfl, rfl, rfl⟩ | ⟨rest, rfl, rfl⟩)
    · rfl
    · simp

theorem Explained.performed (h : Explained apply s a)
    (hpending : a.status call = some (.pending operation)) :
    Explained apply s (a.performed apply call operation) := by
  have hnew : call ∉ a.log.map Prod.fst :=
    h.not_mem_log fun _ _ hsettled => by rw [hpending] at hsettled; cases hsettled
  refine ⟨?_, ?_, ?_⟩
  · show (apply a.object operation).1 = replay apply s (a.log ++ [(call, operation)])
    unfold replay
    rw [run_append, h.object]
    rfl
  · show ((a.log ++ [(call, operation)]).map Prod.fst).Nodup
    rw [List.map_append]
    exact h.nodup.append (List.nodup_singleton call) (List.disjoint_singleton.mpr hnew)
  · intro call' operation' reply
    show Function.update a.status call _ call' = _ ↔ ∃ before after,
      a.log ++ [(call, operation)] = before ++ (call', operation') :: after ∧ _
    by_cases hcall : call' = call
    · -- the last entry of the log is the only one of the call
      rw [hcall, Function.update_self]
      constructor
      · intro hsettled
        cases hsettled
        exact ⟨a.log, [], rfl, by rw [h.object]⟩
      · rintro ⟨before, after, hlog, rfl⟩
        rcases split_concat.mp hlog with ⟨rfl, hlast, -⟩ | ⟨rest, -, hlog⟩
        · obtain ⟨-, rfl⟩ := Prod.mk.inj hlast
          rw [h.object]
        · exact absurd (by rw [hlog]; simp) hnew
    · rw [Function.update_of_ne hcall, h.settled]
      constructor
      · rintro ⟨before, after, hlog, hreply⟩
        exact ⟨before, _, split_concat.mpr (Or.inr ⟨after, rfl, hlog⟩), hreply⟩
      · rintro ⟨before, after, hlog, hreply⟩
        rcases split_concat.mp hlog with ⟨-, hlast, -⟩ | ⟨rest, -, hlog⟩
        · exact absurd (Prod.mk.inj hlast).1.symm hcall
        · exact ⟨before, rest, hlog, hreply⟩

theorem Explained.step (h : Explained apply s a) (event : CallEvent ι κ) :
    Explained apply s (a.step apply event) := by
  cases event with
  | invoke call operation =>
      cases hstatus : a.status call with
      | none =>
          rw [step_invoke apply hstatus]
          exact h.invoked hstatus
      | some status =>
          rw [step_invoke_again apply hstatus]
          exact h
  | perform call =>
      by_cases hpending : ∃ operation, a.status call = some (.pending operation)
      · obtain ⟨operation, hoperation⟩ := hpending
        rw [step_perform apply hoperation]
        exact h.performed hoperation
      · rw [step_perform_idle apply (not_exists.mp hpending)]
        exact h

/-- The rule of simulation: a component each of whose steps is a step of the object, or none,
is explained by a log in every run, and by a longer one the longer the run is. -/
theorem explained_of_simulation {τ ε : Type*} {next : τ → ε → τ} {P : ε → Prop}
    {R : τ → Atomic σ ι ω κ → Prop}
    (hstep : ∀ t a e, P e → R t a →
      R (next t e) a ∨ ∃ event, R (next t e) (a.step apply event))
    {t : τ} (hR : R t a) (h : Explained apply s a) {events : List ε} (hP : ∀ e ∈ events, P e) :
    ∃ a', R (run next t events) a' ∧ Explained apply s a' ∧ a.log <+: a'.log := by
  induction events generalizing t a with
  | nil => exact ⟨a, hR, h, List.prefix_refl _⟩
  | cons e events ih =>
      obtain ⟨he, hevents⟩ := List.forall_mem_cons.mp hP
      rcases hstep t a e he hR with hsame | ⟨event, hevent⟩
      · exact ih hsame h hevents
      · obtain ⟨a', hrun, hexplained, hprefix⟩ := ih hevent (h.step event) hevents
        exact ⟨a', hrun, hexplained, (log_extends apply a event).trans hprefix⟩

end Atomic

end RateLimiter.Foundations
