import RateLimiter.Simulator.Lockstep

/-!
# The simulator and the service

The calls of the page once more, made of the scripts as the service makes them: with times to
live, at whole times, on a server whose clock stands still.  Where nothing is rounded, the
service answers the page's calls as the page does.
-/

namespace RateLimiter.Simulator

open RateLimiter.Redis RateLimiter.Javascript RateLimiter.Foundations RateLimiter.Admission

/-- A gateway, and the keys of a pair with their times to live. -/
structure Service (Rid : Type) where
  policy : Limits
  sloTtftMs : Rat
  issued : Nat
  state : PairState Rid

namespace Service

variable {Rid : Type}

def fresh (policy : Limits) (sloTtftMs : Rat) : Service Rid := ⟨policy, sloTtftMs, 0, .empty⟩

/-- `observedOutputTokens`, and `estimateReservation` on it. -/
def reserveTokens (g : Service Rid) (promptTokens maxOutputTokens : Rat) : Rat :=
  let observed :=
    match g.policy.reservationMode with
    | .worstCase => 0
    | .adaptive => (g.state.stats.get .outTokens).getD 0
  (estimateReservation (fun tokens projected => min tokens (projected : Rat)) g.policy
    promptTokens maxOutputTokens observed).reserveTokens

variable [LinearOrder Rid] (name : JsString → Rid)

/-- What the service does for a call of the page, and its answer unless the script fails. -/
def handle (g : Service Rid) : Event → Service Rid × Option Answer
  | .editPolicy policy => ({ g with policy := policy }, some .edited)
  | .editSlo sloTtftMs => ({ g with sloTtftMs := sloTtftMs }, some .edited)
  | .callAdmit t promptTokens maxOutputTokens =>
      let out := admitScript 0
        (admitArgs g.policy ⌊t⌋ (name (reservationId (g.issued + 1)))
          (some (g.reserveTokens promptTokens maxOutputTokens)) g.sloTtftMs) g.state
      match out.2 with
      | .ok reply =>
          ({ g with
              issued := if reply.decision = .admitted then g.issued + 1 else g.issued
              state := out.1 },
            some (.admission reply.decision reply.reserved reply.predictedWaitMs))
      | .error _ => ({ g with state := out.1 }, none)
  | .callCommit t id promptTokens outputTokens serviceMs =>
      let out := commitScript 0
        (commitArgs g.policy ⌊t⌋ (name id) (some ((promptTokens : Rat) + outputTokens))
          (some serviceMs) (some (outputTokens : Rat)) (.finite 300)) g.state
      match out.2 with
      | .ok reply =>
          ({ g with state := out.1 }, some (.settlement reply.status reply.refundedTokens))
      | .error _ => ({ g with state := out.1 }, none)

def step (g : Service Rid) (e : Event) : Service Rid := (g.handle name e).1

def answer (g : Service Rid) (e : Event) : Option Answer := (g.handle name e).2

omit [LinearOrder Rid] in
/-- The gateway without the times to live. -/
def untimed (g : Service Rid) : Gateway Rid :=
  ⟨g.policy, g.sloTtftMs, g.issued, Untimed.forget g.state⟩

end Service

/-- The call comes at a whole time. -/
def Event.Whole : Event → Prop
  | .callAdmit t _ _ => ∃ now : Int, t = now
  | .callCommit t _ _ _ _ => ∃ now : Int, t = now
  | _ => True

section Refinement

variable {Rid : Type} [LinearOrder Rid] (name : JsString → Rid) (g : Service Rid)

omit [LinearOrder Rid] in
/-- The service holds what the scripts without times to live would be asked to hold. -/
theorem reserveTokens_untimed (promptTokens maxOutputTokens : Rat) :
    (Untimed.estimateReservation .exact g.policy promptTokens maxOutputTokens
      (observedOutputTokens g.policy (Untimed.forget g.state))).reserveTokens =
      g.reserveTokens promptTokens maxOutputTokens := by
  have hstats : (Untimed.forget g.state).stats.get .outTokens = g.state.stats.get .outTokens := by
    show (g.state.stats.lasting id).get .outTokens = _
    rw [Collection.get_lasting, Option.map_id_apply]
  unfold Untimed.estimateReservation observedOutputTokens Service.reserveTokens estimateReservation
  rw [hstats]
  cases g.policy.reservationMode with
  | worstCase => rfl
  | adaptive =>
      dsimp only
      split <;> rfl

/-- An admission. -/
theorem untimed_callAdmit (now : Int) (promptTokens maxOutputTokens : Nat) :
    (g.step name (.callAdmit now promptTokens maxOutputTokens)).untimed =
        g.untimed.step .exact name (.callAdmit now promptTokens maxOutputTokens) ∧
      g.answer name (.callAdmit now promptTokens maxOutputTokens) =
        some (g.untimed.answer .exact name (.callAdmit now promptTokens maxOutputTokens)) := by
  set rid := name (reservationId (g.issued + 1)) with hrid
  set reserve := g.reserveTokens promptTokens maxOutputTokens with hreserve
  obtain ⟨s', reply, hscript, huntimed⟩ := Untimed.admitScript_forget 0
    (a := admitArgs g.policy now rid (some reserve) g.sloTtftMs) g.state rfl
  have hcall : g.untimed.admitCall .exact name now promptTokens maxOutputTokens =
      Untimed.admitCall (admitArgs g.policy now rid (some reserve) g.sloTtftMs) reserve := by
    rw [Untimed.admitCall_admitArgs, hreserve, ← reserveTokens_untimed]
    rfl
  unfold Service.step Service.answer Gateway.step Gateway.answer Service.handle Gateway.handle
  simp only [Int.floor_intCast, ← hrid, ← hreserve, hscript, hcall]
  rw [show g.untimed.state = Untimed.forget g.state from rfl, huntimed]
  exact ⟨rfl, rfl⟩

/-- A commit. -/
theorem untimed_callCommit (now : Int) (id : JsString) (promptTokens outputTokens : Nat)
    (serviceMs : Rat) :
    (g.step name (.callCommit now id promptTokens outputTokens serviceMs)).untimed =
        g.untimed.step .exact name (.callCommit now id promptTokens outputTokens serviceMs) ∧
      g.answer name (.callCommit now id promptTokens outputTokens serviceMs) =
        some (g.untimed.answer .exact name
          (.callCommit now id promptTokens outputTokens serviceMs)) := by
  have hidem : acceptedTtl 0 (.finite 300) = some 300 := by decide +kernel
  obtain ⟨s', reply, hscript, huntimed⟩ := Untimed.commitScript_forget 0
    (a := commitArgs g.policy now (name id) (some ((promptTokens : Rat) + outputTokens))
      (some serviceMs) (some (outputTokens : Rat)) (.finite 300)) g.state rfl rfl rfl hidem
  rw [Untimed.commitCall_commitArgs] at huntimed
  unfold Service.step Service.answer Gateway.step Gateway.answer Service.handle Gateway.handle
  simp only [Int.floor_intCast, hscript]
  rw [show g.untimed.state = Untimed.forget g.state from rfl,
    show g.untimed.policy = g.policy from rfl, huntimed]
  exact ⟨rfl, rfl⟩

variable {g}

theorem untimed_step {e : Event} (he : e.Whole) :
    (g.step name e).untimed = g.untimed.step .exact name e ∧
      g.answer name e = some (g.untimed.answer .exact name e) := by
  cases e with
  | editPolicy policy => exact ⟨rfl, rfl⟩
  | editSlo sloTtftMs => exact ⟨rfl, rfl⟩
  | callAdmit t promptTokens maxOutputTokens =>
      obtain ⟨now, rfl⟩ := he
      exact untimed_callAdmit name g now promptTokens maxOutputTokens
  | callCommit t id promptTokens outputTokens serviceMs =>
      obtain ⟨now, rfl⟩ := he
      exact untimed_callCommit name g now id promptTokens outputTokens serviceMs

theorem outputs_untimed {events : List Event} (hwhole : ∀ e ∈ events, e.Whole) :
    outputs (Service.step name) (Service.answer name) g events =
      (outputs (Gateway.step .exact name) (Gateway.answer .exact name) g.untimed events).map
        some := by
  induction events generalizing g with
  | nil => rfl
  | cons e events ih =>
      obtain ⟨he, hevents⟩ := List.forall_mem_cons.mp hwhole
      obtain ⟨hstep, hanswer⟩ := untimed_step name (g := g) he
      rw [outputs_cons, outputs_cons, List.map_cons, ih hevents, hstep, hanswer]

end Refinement

/-- Where nothing is rounded, the service answers every call of the page at a whole time as
the page does. -/
theorem simulator_is_service {Rid : Type} [LinearOrder Rid] (name : JsString → Rid)
    (hname : Function.Injective name) (policy : Limits) (sloTtftMs : Rat) (events : List Event)
    (hroomy : Roomy policy ∧ ∀ e ∈ events, e.Roomy) (hwait : EditsWait events)
    (hwhole : ∀ e ∈ events, e.Whole) :
    outputs (Service.step name) (Service.answer name) (.fresh policy sloTtftMs) events =
      (outputs (Page.step .exact) (Page.answer .exact) (.fresh policy sloTtftMs) events).map
        some := by
  have hgateway : (Service.fresh policy sloTtftMs : Service Rid).untimed =
      .fresh policy sloTtftMs := by
    unfold Service.untimed Service.fresh Gateway.fresh
    rw [Untimed.forget_empty]
  have hinstep : InStep .exact name policy sloTtftMs events :=
    inStep_of_legible Arithmetic.faithful_exact hname hroomy hwait
      fun _ _ _ => Page.legible_exact _
  rw [outputs_untimed name hwhole, hgateway, hinstep.1]

end RateLimiter.Simulator
