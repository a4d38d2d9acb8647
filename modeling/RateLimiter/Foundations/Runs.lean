import Mathlib.Algebra.BigOperators.Group.List.Basic
import Mathlib.Algebra.Group.Prod
import Mathlib.Order.Basic

/-!
# Runs of a step function

A deterministic component is a step function `σ → ι → σ` from states and inputs
to states.  This module names what its runs are, the sum of a cost paid by each
step, and the two conditions runs are put under: inputs that arrive in the order
of their times, and a condition that every step meets in the state it starts
from.  The two rules at the end carry a one-step fact over a whole run.
-/

namespace RateLimiter.Foundations

variable {σ ι M : Type*}

/-- The state a list of inputs leads to. -/
def run (step : σ → ι → σ) : σ → List ι → σ
  | s, [] => s
  | s, i :: is => run step (step s i) is

/-- The sum over a run of what each step costs in the state it starts from. -/
def tally [AddMonoid M] (step : σ → ι → σ) (cost : σ → ι → M) : σ → List ι → M
  | _, [] => 0
  | s, i :: is => cost s i + tally step cost (step s i) is

/-- What the steps of a run answer, each in the state it starts from. -/
def outputs {ω : Type*} (step : σ → ι → σ) (out : σ → ι → ω) : σ → List ι → List ω
  | _, [] => []
  | s, i :: is => out s i :: outputs step out (step s i) is

/-- Every step of the run meets `P` in the state it starts from. -/
def Along (step : σ → ι → σ) (P : σ → ι → Prop) : σ → List ι → Prop
  | _, [] => True
  | s, i :: is => P s i ∧ Along step P (step s i) is

instance (step : σ → ι → σ) (P : σ → ι → Prop) [∀ s i, Decidable (P s i)] (s : σ)
    (is : List ι) : Decidable (Along step P s is) :=
  match is with
  | [] => isTrue trivial
  | i :: is =>
      have := instDecidableAlong step P (step s i) is
      inferInstanceAs (Decidable (P s i ∧ Along step P (step s i) is))

section Run

variable (step : σ → ι → σ)

@[simp] theorem run_nil (s : σ) : run step s [] = s := rfl

@[simp] theorem run_cons (s : σ) (i : ι) (is : List ι) :
    run step s (i :: is) = run step (step s i) is := rfl

@[simp] theorem run_append (s : σ) (is js : List ι) :
    run step s (is ++ js) = run step (run step s is) js := by
  induction is generalizing s with
  | nil => rfl
  | cons i is ih => exact ih (step s i)

/-- A one-step invariant holds at the end of every run. -/
theorem run_invariant {I : σ → Prop} (hstep : ∀ s i, I s → I (step s i))
    {s : σ} (hs : I s) (is : List ι) : I (run step s is) := by
  induction is generalizing s with
  | nil => exact hs
  | cons i is ih => exact ih (hstep s i hs)

/-- The refinement rule.  When each step moves the abstraction of the state as the abstract
step does, and answers what is right there, so does every step of a run. -/
theorem refined_run {τ ω : Type*} {step : σ → ι → σ} {step' : τ → ι → τ}
    (abs : σ → τ) {I : σ → Prop} {out : σ → ι → ω} {Right : τ → ι → ω → Prop}
    (hstep : ∀ s i, I s →
      abs (step s i) = step' (abs s) i ∧ Right (abs s) i (out s i) ∧ I (step s i))
    {s : σ} (hs : I s) (is : List ι) :
    abs (run step s is) = run step' (abs s) is ∧
      ∀ before i after, is = before ++ i :: after →
        Right (run step' (abs s) before) i (out (run step s before) i) := by
  induction is generalizing s with
  | nil =>
      refine ⟨rfl, fun before i after hsplit => ?_⟩
      exact absurd hsplit.symm (List.append_ne_nil_of_right_ne_nil before (List.cons_ne_nil i after))
  | cons i is ih =>
      obtain ⟨hnext, hright, hkept⟩ := hstep s i hs
      obtain ⟨habs, hrest⟩ := ih hkept
      rw [hnext] at habs hrest
      refine ⟨habs, ?_⟩
      rintro (_ | ⟨first, before⟩) j after hsplit
      · cases hsplit
        exact hright
      · cases hsplit
        exact hrest before j after rfl

/-- Inputs that change nothing can be left out of a run. -/
theorem run_filterMap {κ : Type*} {step : σ → ι → σ} {step' : σ → κ → σ} {f : ι → Option κ}
    (hsome : ∀ s i k, f i = some k → step s i = step' s k)
    (hnone : ∀ s i, f i = none → step s i = s) (s : σ) (is : List ι) :
    run step s is = run step' s (is.filterMap f) := by
  induction is generalizing s with
  | nil => rfl
  | cons i is ih =>
      cases hf : f i with
      | none => rw [run_cons, hnone s i hf, List.filterMap_cons_none hf, ih]
      | some k => rw [run_cons, hsome s i k hf, List.filterMap_cons_some hf, run_cons, ih]

end Run

section Tally

variable [AddMonoid M] (step : σ → ι → σ) (cost : σ → ι → M)

@[simp] theorem tally_nil (s : σ) : tally step cost s [] = 0 := rfl

@[simp] theorem tally_cons (s : σ) (i : ι) (is : List ι) :
    tally step cost s (i :: is) = cost s i + tally step cost (step s i) is := rfl

@[simp] theorem tally_append (s : σ) (is js : List ι) :
    tally step cost s (is ++ js) =
      tally step cost s is + tally step cost (run step s is) js := by
  induction is generalizing s with
  | nil => simp
  | cons i is ih => simp [ih, add_assoc]

/-- Two costs tallied together are the two tallies. -/
theorem tally_prodMk {N : Type*} [AddMonoid N] (cost' : σ → ι → N) (s : σ) (is : List ι) :
    tally step (fun s i => (cost s i, cost' s i)) s is =
      (tally step cost s is, tally step cost' s is) := by
  induction is generalizing s with
  | nil => rfl
  | cons i is ih =>
      rw [tally_cons, ih]
      rfl

/-- What is counted of the inputs alone is counted in the list of them. -/
theorem tally_eq_countP (P : ι → Prop) [DecidablePred P] (s : σ) (is : List ι) :
    tally step (fun _ i => if P i then 1 else 0) s is = is.countP fun i => P i := by
  induction is generalizing s with
  | nil => rfl
  | cons i is ih =>
      rw [tally_cons, ih, List.countP_cons, Nat.add_comm]
      simp only [decide_eq_true_eq]

/-- A run in which each step costs no more than two others costs no more than both. -/
theorem tally_le_add {cost left right : σ → ι → Nat}
    (h : ∀ s i, cost s i ≤ left s i + right s i) (s : σ) (is : List ι) :
    tally step cost s is ≤ tally step left s is + tally step right s is := by
  induction is generalizing s with
  | nil => exact Nat.zero_le _
  | cons i is ih =>
      have hhead := h s i
      have htail := ih (step s i)
      rw [tally_cons, tally_cons, tally_cons]
      omega

/-- What costs less something is tallied less it. -/
theorem tally_sub {N : Type*} [AddCommGroup N] (step : σ → ι → σ) (cost cost' : σ → ι → N)
    (s : σ) (is : List ι) :
    tally step (fun s i => cost s i - cost' s i) s is =
      tally step cost s is - tally step cost' s is := by
  induction is generalizing s with
  | nil => exact (sub_zero 0).symm
  | cons i is ih =>
      rw [tally_cons, tally_cons, tally_cons, ih]
      exact sub_add_sub_comm _ _ _ _

end Tally

section Outputs

variable {ω : Type*} (step : σ → ι → σ) (out : σ → ι → ω)

@[simp] theorem outputs_nil (s : σ) : outputs step out s [] = [] := rfl

@[simp] theorem outputs_cons (s : σ) (i : ι) (is : List ι) :
    outputs step out s (i :: is) = out s i :: outputs step out (step s i) is := rfl

/-- A tally is the sum of what the steps cost one by one. -/
theorem tally_eq_sum [AddMonoid M] (cost : σ → ι → M) (s : σ) (is : List ι) :
    tally step cost s is = (outputs step cost s is).sum := by
  induction is generalizing s with
  | nil => rfl
  | cons i is ih => rw [tally_cons, outputs_cons, List.sum_cons, ih]

end Outputs

section Along

variable (step : σ → ι → σ) (P : σ → ι → Prop)

@[simp] theorem along_nil (s : σ) : Along step P s [] := trivial

@[simp] theorem along_cons (s : σ) (i : ι) (is : List ι) :
    Along step P s (i :: is) ↔ P s i ∧ Along step P (step s i) is := Iff.rfl

@[simp] theorem along_append (s : σ) (is js : List ι) :
    Along step P s (is ++ js) ↔
      Along step P s is ∧ Along step P (run step s is) js := by
  induction is generalizing s with
  | nil => simp
  | cons i is ih => simp [ih, and_assoc]

/-- An invariant that each step keeps under the condition holds at the end of a run
along which the condition is met. -/
theorem run_invariant_along {I : σ → Prop} {step : σ → ι → σ} {P : σ → ι → Prop}
    (hstep : ∀ s i, I s → P s i → I (step s i)) {s : σ} (hs : I s) {is : List ι}
    (hP : Along step P s is) : I (run step s is) := by
  induction is generalizing s with
  | nil => exact hs
  | cons i is ih => exact ih (hstep s i hs hP.1) hP.2

/-- A condition on the inputs alone is met along every run on such inputs. -/
theorem along_of_forall {Q : ι → Prop} {is : List ι} (h : ∀ i ∈ is, Q i) (s : σ) :
    Along step (fun _ i => Q i) s is := by
  induction is generalizing s with
  | nil => trivial
  | cons i is ih =>
      exact ⟨h i List.mem_cons_self,
        ih (fun j hj => h j (List.mem_cons_of_mem i hj)) (step s i)⟩

/-- A condition that is met wherever the inputs are split is met along the run. -/
theorem along_of_splits {step : σ → ι → σ} {P : σ → ι → Prop} {s : σ} {is : List ι}
    (h : ∀ before i after, is = before ++ i :: after → P (run step s before) i) :
    Along step P s is := by
  induction is generalizing s with
  | nil => trivial
  | cons i is ih =>
      -- a split of the rest is a split of the whole with one more input before
      refine ⟨h [] i is rfl, ih ?_⟩
      intro before j after hsplit
      exact h (i :: before) j after (by rw [hsplit]; rfl)

/-- A run costs nothing when no step of it does. -/
theorem tally_eq_zero_iff {cost : σ → ι → Nat} {s : σ} {is : List ι} :
    tally step cost s is = 0 ↔ Along step (fun s i => cost s i = 0) s is := by
  induction is generalizing s with
  | nil => simp
  | cons i is ih => rw [tally_cons, Nat.add_eq_zero_iff, ih, along_cons]

/-- Conditions that say the same of every step on the inputs of a run say the same of the
run. -/
theorem along_congr {P Q : σ → ι → Prop} {is : List ι} (h : ∀ i ∈ is, ∀ s, P s i ↔ Q s i)
    {s : σ} : Along step P s is ↔ Along step Q s is := by
  induction is generalizing s with
  | nil => exact Iff.rfl
  | cons i is ih =>
      obtain ⟨hhead, hrest⟩ := List.forall_mem_cons.mp h
      exact and_congr (hhead s) (ih hrest)

end Along

section Time

variable {T : Type*} (time : ι → T)

/-- The time of the last input, `t` when there is none. -/
def lastTime : T → List ι → T
  | t, [] => t
  | _, i :: is => lastTime (time i) is

@[simp] theorem lastTime_nil (t : T) : lastTime time t [] = t := rfl

@[simp] theorem lastTime_cons (t : T) (i : ι) (is : List ι) :
    lastTime time t (i :: is) = lastTime time (time i) is := rfl

@[simp] theorem lastTime_append (t : T) (is js : List ι) :
    lastTime time t (is ++ js) = lastTime time (lastTime time t is) js := by
  induction is generalizing t with
  | nil => rfl
  | cons i is ih => exact ih (time i)

variable [LE T]

/-- The inputs arrive in the order of their times, none before `t`. -/
def Chronological : T → List ι → Prop
  | _, [] => True
  | t, i :: is => t ≤ time i ∧ Chronological (time i) is

@[simp] theorem chronological_nil (t : T) : Chronological time t [] := trivial

@[simp] theorem chronological_cons (t : T) (i : ι) (is : List ι) :
    Chronological time t (i :: is) ↔ t ≤ time i ∧ Chronological time (time i) is := Iff.rfl

@[simp] theorem chronological_append (t : T) (is js : List ι) :
    Chronological time t (is ++ js) ↔
      Chronological time t is ∧ Chronological time (lastTime time t is) js := by
  induction is generalizing t with
  | nil => simp
  | cons i is ih => simp [ih, and_assoc]

/-- Inputs in pairwise order, none before `t`, arrive in the order of their times. -/
theorem chronological_of_pairwise {t : T} {is : List ι} (hstart : ∀ i ∈ is, t ≤ time i)
    (horder : is.Pairwise fun i j => time i ≤ time j) : Chronological time t is := by
  induction is generalizing t with
  | nil => trivial
  | cons i is ih =>
      obtain ⟨hhead, hrest⟩ := List.pairwise_cons.mp horder
      exact ⟨hstart i List.mem_cons_self, ih hhead hrest⟩

/-- Inputs that are mapped with their times, in order, stay in order. -/
theorem chronological_map {κ T' : Type*} [LE T'] {time' : κ → T'} {f : ι → κ} {φ : T → T'}
    (hmono : ∀ t t', t ≤ t' → φ t ≤ φ t') (hf : ∀ i, time' (f i) = φ (time i)) {t : T}
    {is : List ι} (h : Chronological time t is) : Chronological time' (φ t) (is.map f) := by
  induction is generalizing t with
  | nil => trivial
  | cons i is ih =>
      obtain ⟨hle, hrest⟩ := h
      rw [List.map_cons, chronological_cons, hf]
      exact ⟨hmono t (time i) hle, ih hrest⟩

/-- Inputs that are left out leave the rest in order, and the last of it no later. -/
theorem chronological_filterMap {κ T' : Type*} [Preorder T'] {time : ι → T'} {time' : κ → T'}
    {f : ι → Option κ} (hf : ∀ i k, f i = some k → time' k = time i) {t t' : T'} {is : List ι}
    (hle : t ≤ t') (h : Chronological time t' is) :
    Chronological time' t (is.filterMap f) ∧
      lastTime time' t (is.filterMap f) ≤ lastTime time t' is := by
  induction is generalizing t t' with
  | nil => exact ⟨trivial, hle⟩
  | cons i is ih =>
      obtain ⟨hhead, hrest⟩ := h
      cases hi : f i with
      | none =>
          rw [List.filterMap_cons_none hi]
          exact ih (hle.trans hhead) hrest
      | some k =>
          have htime := hf i k hi
          obtain ⟨horder, hlast⟩ := ih le_rfl hrest
          rw [List.filterMap_cons_some hi, chronological_cons, lastTime_cons, htime]
          exact ⟨⟨hle.trans hhead, horder⟩, hlast⟩

/-- The run rule.  `I t m s` speaks of the current time, of what has been paid
so far and of the state; a step that keeps it at every admissible input carries
it from the start of a run to its end. -/
theorem timed_run [AddMonoid M] (step : σ → ι → σ) (cost : σ → ι → M)
    {I : T → M → σ → Prop} {P : σ → ι → Prop}
    (hstep : ∀ t m s i, I t m s → t ≤ time i → P s i →
      I (time i) (m + cost s i) (step s i))
    {is : List ι} {t : T} {m : M} {s : σ} (hI : I t m s)
    (htime : Chronological time t is) (hP : Along step P s is) :
    I (lastTime time t is) (m + tally step cost s is) (run step s is) := by
  induction is generalizing t m s with
  | nil => simpa using hI
  | cons i is ih =>
      have hnext := ih (hstep t m s i hI htime.1 hP.1) htime.2 hP.2
      simpa [add_assoc] using hnext

/-- The simulation rule.  `R t s u` relates the states of two components at the time `t`;
when a step of both answers the same and keeps them related, so does a run. -/
theorem simulated_run {τ κ ω : Type*} {step : σ → ι → σ} {step' : τ → κ → τ} {f : ι → κ}
    {out : σ → ι → ω} {out' : τ → κ → ω} {R : T → σ → τ → Prop} {P : ι → Prop}
    (hstep : ∀ t s u i, R t s u → t ≤ time i → P i →
      out s i = out' u (f i) ∧ R (time i) (step s i) (step' u (f i)))
    {is : List ι} {t : T} {s : σ} {u : τ} (hR : R t s u) (htime : Chronological time t is)
    (hP : ∀ i ∈ is, P i) :
    outputs step out s is = outputs step' out' u (is.map f) ∧
      R (lastTime time t is) (run step s is) (run step' u (is.map f)) := by
  induction is generalizing t s u with
  | nil => exact ⟨rfl, hR⟩
  | cons i is ih =>
      obtain ⟨hi, his⟩ := List.forall_mem_cons.mp hP
      obtain ⟨hout, hnext⟩ := hstep t s u i hR htime.1 hi
      obtain ⟨houts, hlast⟩ := ih hnext htime.2 his
      exact ⟨by rw [outputs_cons, List.map_cons, outputs_cons, hout, houts], hlast⟩

end Time

end RateLimiter.Foundations
