import Mathlib.Data.List.Infix
import Mathlib.Data.List.TakeWhile

/-!
# Texts joined by a separator

Two texts joined by a separator can be taken apart in one way only as long as
neither contains the separator.  Where they may contain it, a joined text can
come from two pairs, and then the pairs overlap: one first component continues,
past a separator, into what the other pair has as its second.  A closing mark of
two symbols is told apart from the text before it as long as the text after it
does not contain the mark.
-/

namespace RateLimiter.Foundations

variable {α : Type*}

/-- Two texts with a separator between them. -/
def join (sep : α) (x : List α × List α) : List α := x.1 ++ sep :: x.2

/-- The first component of `x` runs over the separator of `y`. -/
def RunsOver (sep : α) (x y : List α × List α) : Prop :=
  ∃ w, x.1 = y.1 ++ sep :: w ∧ y.2 = w ++ sep :: x.2

/-- One of two pairs runs over the separator of the other. -/
def Overlap (sep : α) (x y : List α × List α) : Prop := RunsOver sep x y ∨ RunsOver sep y x

theorem RunsOver.join_eq {sep : α} {x y : List α × List α} (h : RunsOver sep x y) :
    join sep x = join sep y := by
  obtain ⟨w, hfirst, hsecond⟩ := h
  unfold join
  rw [hfirst, hsecond]
  simp

/-- Two pairs join to the same text when they are equal or overlap. -/
theorem join_eq_join_iff {sep : α} {x y : List α × List α} :
    join sep x = join sep y ↔ x = y ∨ Overlap sep x y := by
  constructor
  · intro h
    rcases List.append_eq_append_iff.mp h with ⟨c, hfirst, hrest⟩ | ⟨c, hfirst, hrest⟩
    · cases c with
      | nil =>
          rw [List.append_nil] at hfirst
          exact Or.inl (Prod.ext hfirst.symm (List.cons.inj hrest).2)
      | cons d w =>
          -- what is left over starts with the separator of the shorter one
          obtain ⟨rfl, hsecond⟩ := List.cons.inj hrest
          exact Or.inr (Or.inr ⟨w, hfirst, hsecond⟩)
    · cases c with
      | nil =>
          rw [List.append_nil] at hfirst
          exact Or.inl (Prod.ext hfirst (List.cons.inj hrest).2.symm)
      | cons d w =>
          obtain ⟨rfl, hsecond⟩ := List.cons.inj hrest
          exact Or.inr (Or.inl ⟨w, hfirst, hsecond⟩)
  · rintro (rfl | h | h)
    · rfl
    · exact h.join_eq
    · exact h.join_eq.symm

/-- Distinct pairs join to the same text when they overlap, and only then. -/
theorem join_eq_join_iff_of_ne {sep : α} {x y : List α × List α} (hne : x ≠ y) :
    join sep x = join sep y ↔ Overlap sep x y := by
  rw [join_eq_join_iff]
  exact or_iff_right hne

/-- Pairs whose first components lack the separator do not overlap. -/
theorem not_overlap_of_not_mem {sep : α} {x y : List α × List α} (hx : sep ∉ x.1)
    (hy : sep ∉ y.1) : ¬ Overlap sep x y := by
  rintro (⟨w, hfirst, -⟩ | ⟨w, hfirst, -⟩)
  · exact hx (by rw [hfirst]; simp)
  · exact hy (by rw [hfirst]; simp)

/-- Nor do pairs whose second components lack it. -/
theorem not_overlap_of_not_mem_snd {sep : α} {x y : List α × List α} (hx : sep ∉ x.2)
    (hy : sep ∉ y.2) : ¬ Overlap sep x y := by
  rintro (⟨w, -, hsecond⟩ | ⟨w, -, hsecond⟩)
  · exact hy (by rw [hsecond]; simp)
  · exact hx (by rw [hsecond]; simp)

/-- The last closing mark of a text tells what stands before it and after it. -/
theorem closing_split {a b : α} {front front' rest rest' : List α}
    (hrest : ¬ [a, b] <:+: b :: rest) (hrest' : ¬ [a, b] <:+: b :: rest')
    (h : front ++ a :: b :: rest = front' ++ a :: b :: rest') :
    front = front' ∧ rest = rest' := by
  rcases List.append_eq_append_iff.mp h with ⟨c, hfront, htail⟩ | ⟨c, hfront, htail⟩
  · cases c with
    | nil =>
        rw [List.append_nil] at hfront
        exact ⟨hfront.symm, by simpa using htail⟩
    | cons d w =>
        obtain ⟨rfl, hmark⟩ := List.cons.inj htail
        exact absurd ⟨w, rest', by simpa using hmark.symm⟩ hrest
  · cases c with
    | nil =>
        rw [List.append_nil] at hfront
        exact ⟨hfront, by simpa using htail.symm⟩
    | cons d w =>
        obtain ⟨rfl, hmark⟩ := List.cons.inj htail
        exact absurd ⟨w, rest, by simpa using hmark.symm⟩ hrest'

/-- A text that cannot start the mark adds no mark to what follows it. -/
theorem not_mark_append {a b : α} {front rest : List α} (hfront : a ∉ front)
    (hrest : ¬ [a, b] <:+: rest) : ¬ [a, b] <:+: front ++ rest := by
  rintro ⟨p, q, h⟩
  rw [List.append_assoc] at h
  rcases List.append_eq_append_iff.mp h with ⟨c, hsplit, htail⟩ | ⟨c, hsplit, htail⟩
  · cases c with
    | nil => exact hrest ⟨[], q, by simpa using htail⟩
    | cons d w =>
        obtain ⟨rfl, -⟩ := List.cons.inj htail
        exact hfront (by rw [hsplit]; simp)
  · exact hrest ⟨c, q, by rw [htail, List.append_assoc]⟩

/-! ## The last separator -/

section Last

variable [DecidableEq α]

/-- What stands before and after the last separator, if there is one. -/
def aroundLast (sep : α) (text : List α) : Option (List α × List α) :=
  if sep ∈ text then
    some ((text.reverse.dropWhile (· ≠ sep)).tail.reverse,
      (text.reverse.takeWhile (· ≠ sep)).reverse)
  else none

/-- A text is taken apart at its last separator when it is the two parts joined and the
second has none. -/
theorem aroundLast_eq_some_iff {sep : α} {text : List α} {x : List α × List α} :
    aroundLast sep text = some x ↔ text = join sep x ∧ sep ∉ x.2 := by
  obtain ⟨front, back⟩ := x
  constructor
  · intro h
    unfold aroundLast at h
    split at h
    next hmem =>
      obtain ⟨rfl, rfl⟩ := Prod.mk.inj (Option.some.inj h)
      have hne : text.reverse.dropWhile (· ≠ sep) ≠ [] := by
        intro hnil
        have hall := List.dropWhile_eq_nil_iff.mp hnil sep (List.mem_reverse.mpr hmem)
        simp at hall
      have hhead : (text.reverse.dropWhile (· ≠ sep)).head hne = sep := by
        have hstop := List.head_dropWhile_not (fun c => decide (c ≠ sep)) hne
        simpa using hstop
      refine ⟨?_, ?_⟩
      · have hsplit := List.takeWhile_append_dropWhile (p := fun c => decide (c ≠ sep))
          (l := text.reverse)
        rw [← List.cons_head_tail hne, hhead] at hsplit
        have hback := congrArg List.reverse hsplit
        rw [List.reverse_reverse, List.reverse_append, List.reverse_cons] at hback
        rw [List.append_assoc] at hback
        exact hback.symm
      · intro hlater
        have hnot := List.mem_takeWhile_imp (List.mem_reverse.mp hlater)
        simp at hnot
    next => cases h
  · rintro ⟨rfl, hlater⟩
    have hall : ∀ c ∈ back.reverse, decide (c ≠ sep) = true := by
      intro c hc
      rw [decide_eq_true_eq]
      exact ne_of_mem_of_not_mem (List.mem_reverse.mp hc) hlater
    have hreverse : (join sep (front, back)).reverse = back.reverse ++ sep :: front.reverse := by
      simp [join]
    unfold aroundLast
    rw [if_pos (by simp [join]), hreverse, List.dropWhile_append_of_pos hall,
      List.takeWhile_append_of_pos hall]
    simp

end Last

end RateLimiter.Foundations
