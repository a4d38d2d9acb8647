import Mathlib.Data.Set.Function
import RateLimiter.Foundations.Runs

/-!
# Footprints

A component whose state is a store of cells, and whose inputs each have a footprint: the
cells that the input may read or write.  In a run, inputs whose footprints do not meet
cannot tell whether the others are there: what the inputs of one kind are answered is what
they are answered in the run of them alone.
-/

namespace RateLimiter.Foundations

variable {σ ι ω κ β : Type*}

/-- What a step does, it does inside the footprint of its input: the other cells stay, and
the cells it leaves and the answer it gives depend on nothing else. -/
structure Confined (view : σ → κ → β) (step : σ → ι → σ) (out : σ → ι → ω)
    (footprint : ι → Set κ) : Prop where
  frame : ∀ s i k, k ∉ footprint i → view (step s i) k = view s k
  step_congr : ∀ s s' i, Set.EqOn (view s) (view s') (footprint i) →
    Set.EqOn (view (step s i)) (view (step s' i)) (footprint i)
  out_congr : ∀ s s' i, Set.EqOn (view s) (view s') (footprint i) → out s i = out s' i

/-- What the inputs of one kind are answered in a run of all. -/
def heard (step : σ → ι → σ) (out : σ → ι → ω) (P : ι → Prop) [DecidablePred P] :
    σ → List ι → List ω
  | _, [] => []
  | s, i :: is =>
      if P i then out s i :: heard step out P (step s i) is
      else heard step out P (step s i) is

section Heard

variable (step : σ → ι → σ) (out : σ → ι → ω) (P : ι → Prop) [DecidablePred P]

@[simp] theorem heard_nil (s : σ) : heard step out P s [] = [] := rfl

theorem heard_cons_of_pos {i : ι} (h : P i) (s : σ) (is : List ι) :
    heard step out P s (i :: is) = out s i :: heard step out P (step s i) is := if_pos h

theorem heard_cons_of_neg {i : ι} (h : ¬ P i) (s : σ) (is : List ι) :
    heard step out P s (i :: is) = heard step out P (step s i) is := if_neg h

/-- Inputs of the other kind that change nothing might as well not be there. -/
theorem heard_of_idle (hidle : ∀ s i, ¬ P i → step s i = s) (s : σ) (is : List ι) :
    heard step out P s is = outputs step out s (is.filter P) ∧
      run step s is = run step s (is.filter P) := by
  induction is generalizing s with
  | nil => exact ⟨rfl, rfl⟩
  | cons i is ih =>
      obtain ⟨hheard, hrun⟩ := ih (step s i)
      by_cases hi : P i
      · rw [heard_cons_of_pos step out P hi, List.filter_cons_of_pos (by simpa using hi), hheard,
          run_cons, hrun]
        exact ⟨rfl, rfl⟩
      · rw [hidle s i hi] at hheard hrun
        rw [heard_cons_of_neg step out P hi, List.filter_cons_of_neg (by simpa using hi), run_cons,
          hidle s i hi]
        exact ⟨hheard, hrun⟩

/-- When inputs of one kind answer and move alike in states that agree on a region, and the
others leave the region as it is, the inputs of the kind are answered as in the run of them
alone, from any state that agrees there. -/
theorem heard_alike {view : σ → κ → β} (region : Set κ) {is : List ι}
    (hkind : ∀ i ∈ is, P i → ∀ s s', Set.EqOn (view s) (view s') region →
      out s i = out s' i ∧ Set.EqOn (view (step s i)) (view (step s' i)) region)
    (hothers : ∀ i ∈ is, ¬ P i → ∀ s, Set.EqOn (view (step s i)) (view s) region) {s s' : σ}
    (hagree : Set.EqOn (view s) (view s') region) :
    heard step out P s is = outputs step out s' (is.filter P) ∧
      Set.EqOn (view (run step s is)) (view (run step s' (is.filter P))) region := by
  induction is generalizing s s' with
  | nil => exact ⟨rfl, hagree⟩
  | cons i is ih =>
      obtain ⟨hkindHead, hkindRest⟩ := List.forall_mem_cons.mp hkind
      obtain ⟨hotherHead, hotherRest⟩ := List.forall_mem_cons.mp hothers
      by_cases hi : P i
      · obtain ⟨hanswer, hnext⟩ := hkindHead hi s s' hagree
        obtain ⟨hheard, hend⟩ := ih hkindRest hotherRest hnext
        rw [heard_cons_of_pos step out P hi, List.filter_cons_of_pos (by simpa using hi),
          outputs_cons, hanswer, hheard]
        exact ⟨rfl, hend⟩
      · obtain ⟨hheard, hend⟩ := ih hkindRest hotherRest ((hotherHead hi s).trans hagree)
        rw [heard_cons_of_neg step out P hi, List.filter_cons_of_neg (by simpa using hi)]
        exact ⟨hheard, hend⟩

end Heard

namespace Confined

variable {view : σ → κ → β} {step : σ → ι → σ} {out : σ → ι → ω} {footprint : ι → Set κ}
  {region : Set κ}

/-- A step inside a region takes states that agree there to states that agree there. -/
theorem step_eqOn (h : Confined view step out footprint) {i : ι} (hinside : footprint i ⊆ region)
    {s s' : σ} (hagree : Set.EqOn (view s) (view s') region) :
    Set.EqOn (view (step s i)) (view (step s' i)) region := by
  intro k hk
  by_cases hfoot : k ∈ footprint i
  · exact h.step_congr s s' i (hagree.mono hinside) hfoot
  · rw [h.frame s i k hfoot, h.frame s' i k hfoot]
    exact hagree hk

/-- A step outside a region leaves every cell of it. -/
theorem step_outside (h : Confined view step out footprint) {i : ι}
    (houtside : ∀ k ∈ footprint i, k ∉ region) (s : σ) :
    Set.EqOn (view (step s i)) (view s) region :=
  fun k hk => h.frame s i k fun hfoot => houtside k hfoot hk

/-- A run outside a region leaves every cell of it. -/
theorem run_outside (h : Confined view step out footprint) (region : Set κ) {is : List ι}
    (houtside : ∀ i ∈ is, ∀ k ∈ footprint i, k ∉ region) (s : σ) :
    Set.EqOn (view (run step s is)) (view s) region := by
  induction is generalizing s with
  | nil => exact fun _ _ => rfl
  | cons i is ih =>
      obtain ⟨hi, his⟩ := List.forall_mem_cons.mp houtside
      exact (ih his (step s i)).trans (h.step_outside hi s)

/-- The rule of separation: the inputs of one kind stay inside a region and the others
outside, so they are answered as in the run of them alone, from any state that agrees on
the region. -/
theorem heard_alone (h : Confined view step out footprint) (region : Set κ)
    {P : ι → Prop} [DecidablePred P] {is : List ι} (hinside : ∀ i ∈ is, P i → footprint i ⊆ region)
    (houtside : ∀ i ∈ is, ¬ P i → ∀ k ∈ footprint i, k ∉ region) {s s' : σ}
    (hagree : Set.EqOn (view s) (view s') region) :
    heard step out P s is = outputs step out s' (is.filter P) ∧
      Set.EqOn (view (run step s is)) (view (run step s' (is.filter P))) region := by
  refine heard_alike step out P region ?_ ?_ hagree
  · intro i hmem hi s s' hagree
    have hin := hinside i hmem hi
    exact ⟨h.out_congr s s' i (hagree.mono hin), h.step_eqOn hin hagree⟩
  · intro i hmem hi s
    exact h.step_outside (houtside i hmem hi) s

end Confined

end RateLimiter.Foundations
