import Mathlib.Data.List.Basic
import Mathlib.Order.Nat

/-!
# Regular expressions

The syntax of backtracking engines, over any characters and assertions: disjunctions of
alternatives of terms, where a term is an assertion or an atom with or without a
quantifier.  The matcher tries one possibility after the other with a continuation; what
it can find is told by the relation `Spans`.
-/

namespace RateLimiter.Foundations

/-- How often an atom is repeated. -/
inductive Quantifier
  | star
  | plus
  | optional
  | exactly (n : Nat)
  | atLeast (n : Nat)
  | between (n m : Nat) (h : n ≤ m)
deriving DecidableEq

namespace Quantifier

def least : Quantifier → Nat
  | star => 0
  | plus => 1
  | optional => 0
  | exactly n => n
  | atLeast n => n
  | between n _ _ => n

/-- The most repetitions, `none` when there is no bound. -/
def most : Quantifier → Option Nat
  | star => none
  | plus => none
  | optional => some 1
  | exactly n => some n
  | atLeast _ => none
  | between _ m _ => some m

theorem least_le_most (q : Quantifier) : ∀ m ∈ q.most, q.least ≤ m := by
  intro m hm
  cases q with
  | optional => exact Nat.zero_le _
  | exactly n => exact (Option.some.inj hm).le
  | between n m' h => exact h.trans (Option.some.inj hm).le
  | _ => cases hm

end Quantifier

/-- The levels of the grammar. -/
inductive Level
  | disjunction
  | alternative
  | term
  | atom

/-- Expressions over the characters `α` and the assertions `β`. -/
inductive Regex (α β : Type) : Level → Type
  | one (a : Regex α β .alternative) : Regex α β .disjunction
  | alt (a : Regex α β .alternative) (d : Regex α β .disjunction) : Regex α β .disjunction
  | empty : Regex α β .alternative
  | seq (t : Regex α β .term) (a : Regex α β .alternative) : Regex α β .alternative
  | assertion (b : β) : Regex α β .term
  | once (a : Regex α β .atom) : Regex α β .term
  | repeated (a : Regex α β .atom) (q : Quantifier) (lazy : Bool) : Regex α β .term
  | char (c : α) : Regex α β .atom
  | group (capturing : Bool) (d : Regex α β .disjunction) : Regex α β .atom

/-! ## Repetition -/

section Repetition

/-- `n` steps of a relation. -/
def Iterates {σ : Type} (R : σ → σ → Prop) : Nat → σ → σ → Prop
  | 0, x, y => x = y
  | n + 1, x, y => ∃ z, R x z ∧ Iterates R n z y

/-- The matcher of a quantified atom: `fuel` bounds the recursion.  A repetition beyond
the least that consumes nothing fails. -/
def repeatMatcher (m : (Nat → Bool) → Nat → Bool) (lazy : Bool) :
    (fuel least : Nat) → Option Nat → (Nat → Bool) → Nat → Bool
  | 0, _, _, _, _ => false
  | fuel + 1, least, most, c, x =>
      if most = some 0 then c x
      else
        let again := m fun y =>
          if least = 0 ∧ y = x then false
          else repeatMatcher m lazy fuel (least - 1) (most.map (· - 1)) c y
        if least ≠ 0 then again x
        else if lazy then c x || again x
        else again x || c x

variable {R : Nat → Nat → Prop} {m : (Nat → Bool) → Nat → Bool} {bound : Nat}

/-- Repetitions that move at all can be made to move at once, in no more of them. -/
theorem Iterates.first_move {n x y : Nat} (h : Iterates R n x y) :
    x = y ∨ ∃ k z, k < n ∧ R x z ∧ z ≠ x ∧ Iterates R k z y := by
  induction n with
  | zero => exact Or.inl h
  | succ n ih =>
      obtain ⟨z, hstep, hrest⟩ := h
      by_cases hz : z = x
      · rw [hz] at hrest
        rcases ih hrest with hsame | ⟨k, z', hk, hstep', hne, hrest'⟩
        · exact Or.inl hsame
        · exact Or.inr ⟨k, z', hk.trans (Nat.lt_succ_self n), hstep', hne, hrest'⟩
      · exact Or.inr ⟨n, z, Nat.lt_succ_self n, hstep, hz, hrest⟩

/-- The bound one repetition later. -/
theorem forall_map_pred {most : Option Nat} (hmost : most ≠ some 0) (n : Nat) :
    (∀ k ∈ most.map (· - 1), n ≤ k) ↔ ∀ k ∈ most, n + 1 ≤ k := by
  cases most with
  | none => simp
  | some k =>
      have hk : k ≠ 0 := fun h => hmost (congrArg some h)
      simp only [Option.map_some, Option.mem_def, Option.some.injEq, forall_eq']
      omega

/-- What one more repetition has to lead to: the matcher finds the rest, if it may go on. -/
def GoesOn (R : Nat → Nat → Prop) (m : (Nat → Bool) → Nat → Bool) (lazy : Bool)
    (fuel least : Nat) (most : Option Nat) (c : Nat → Bool) (y : Nat) : Prop :=
  repeatMatcher m lazy fuel (least - 1) (most.map (· - 1)) c y = true ↔
    ∃ n z, least - 1 ≤ n ∧ (∀ k ∈ most, n + 1 ≤ k) ∧ Iterates R n y z ∧ c z = true

theorem GoesOn.found_iff {lazy : Bool} {fuel least : Nat} {most : Option Nat} {c : Nat → Bool}
    {y : Nat} (h : GoesOn R m lazy fuel least most c y) :
    repeatMatcher m lazy fuel (least - 1) (most.map (· - 1)) c y = true ↔
      ∃ n z, least - 1 ≤ n ∧ (∀ k ∈ most, n + 1 ≤ k) ∧ Iterates R n y z ∧ c z = true :=
  h

/-- Where no repetition is due, the matcher stops or goes on with one that moves. -/
theorem repeatMatcher_free (lazy : Bool)
    (hm : ∀ c x, m c x = true ↔ ∃ y, R x y ∧ c y = true) {fuel : Nat} {most : Option Nat}
    (hmost : most ≠ some 0) (c : Nat → Bool) (x : Nat)
    (hrest : ∀ y, R x y → y ≠ x → GoesOn R m lazy fuel 0 most c y) :
    repeatMatcher m lazy (fuel + 1) 0 most c x = true ↔
      ∃ n y, (∀ k ∈ most, n ≤ k) ∧ Iterates R n x y ∧ c y = true := by
  have hchoice : ∀ a b : Bool,
      (if (0 : Nat) ≠ 0 then a else if lazy then b || a else a || b) = (a || b) := by
    intro a b
    cases lazy <;> simp [Bool.or_comm]
  unfold repeatMatcher
  rw [if_neg hmost]
  dsimp only
  rw [hchoice, Bool.or_eq_true, hm]
  constructor
  · rintro (⟨y, hstep, hy⟩ | hc)
    · by_cases hsame : y = x
      · simp [hsame] at hy
      · rw [if_neg fun h => hsame h.2, (hrest y hstep hsame).found_iff] at hy
        obtain ⟨n, z, -, hn, hiter, hc⟩ := hy
        exact ⟨n + 1, z, hn, ⟨y, hstep, hiter⟩, hc⟩
    · exact ⟨0, x, fun k _ => Nat.zero_le k, rfl, hc⟩
  · rintro ⟨n, y, hn, hiter, hc⟩
    rcases hiter.first_move with hsame | ⟨k, z, hk, hstep, hmoves, hiter⟩
    · exact Or.inr (hsame ▸ hc)
    · refine Or.inl ⟨z, hstep, ?_⟩
      rw [if_neg fun h => hmoves h.2, (hrest z hstep hmoves).found_iff]
      exact ⟨k, y, Nat.zero_le _, fun j hj => hk.trans_le (hn j hj), hiter, hc⟩

/-- Where a repetition is due, the matcher goes on with any. -/
theorem repeatMatcher_due (lazy : Bool)
    (hm : ∀ c x, m c x = true ↔ ∃ y, R x y ∧ c y = true) {fuel least : Nat}
    {most : Option Nat} (hleast : least ≠ 0) (hmost : most ≠ some 0) (c : Nat → Bool) (x : Nat)
    (hrest : ∀ y, R x y → GoesOn R m lazy fuel least most c y) :
    repeatMatcher m lazy (fuel + 1) least most c x = true ↔
      ∃ n y, least ≤ n ∧ (∀ k ∈ most, n ≤ k) ∧ Iterates R n x y ∧ c y = true := by
  unfold repeatMatcher
  rw [if_neg hmost]
  dsimp only
  rw [if_pos hleast, hm]
  constructor
  · rintro ⟨y, hstep, hy⟩
    rw [if_neg fun h => hleast h.1, (hrest y hstep).found_iff] at hy
    obtain ⟨n, z, hn, hmost', hiter, hc⟩ := hy
    exact ⟨n + 1, z, by omega, hmost', ⟨y, hstep, hiter⟩, hc⟩
  · rintro ⟨n, y, hn, hmost', hiter, hc⟩
    obtain ⟨n, rfl⟩ := Nat.exists_eq_succ_of_ne_zero (n := n) (by omega)
    obtain ⟨z, hstep, hiter⟩ := hiter
    refine ⟨z, hstep, ?_⟩
    rw [if_neg fun h => hleast h.1, (hrest z hstep).found_iff]
    exact ⟨n, y, by omega, hmost', hiter, hc⟩

/-- With enough fuel the matcher of a quantified atom finds what some number of repetitions
within the bounds leads to. -/
theorem repeatMatcher_iff (lazy : Bool)
    (hm : ∀ c x, m c x = true ↔ ∃ y, R x y ∧ c y = true)
    (hR : ∀ x y, R x y → x ≤ y ∧ (y ≤ bound ∨ y = x)) :
    ∀ (fuel least : Nat) (most : Option Nat) (c : Nat → Bool) (x : Nat),
      least + (bound - x) < fuel → (∀ k ∈ most, least ≤ k) →
      (repeatMatcher m lazy fuel least most c x = true ↔
        ∃ n y, least ≤ n ∧ (∀ k ∈ most, n ≤ k) ∧ Iterates R n x y ∧ c y = true)
  | 0, _, _, _, _, hfuel, _ => absurd hfuel (Nat.not_lt_zero _)
  | fuel + 1, least, most, c, x, hfuel, hbounds => by
      by_cases hmost : most = some 0
      · -- the most is none: only no repetition at all is left
        have hleast : least = 0 := Nat.le_zero.mp (hbounds 0 hmost)
        unfold repeatMatcher
        rw [if_pos hmost, hmost, hleast]
        constructor
        · intro hc
          exact ⟨0, x, le_rfl, fun k _ => Nat.zero_le k, rfl, hc⟩
        · rintro ⟨n, y, -, hn, hiter, hc⟩
          obtain rfl := Nat.le_zero.mp (hn 0 rfl)
          obtain rfl : x = y := hiter
          exact hc
      · have hrest : ∀ y, R x y → (least ≠ 0 ∨ y ≠ x) → GoesOn R m lazy fuel least most c y := by
          intro y hstep hmoves
          obtain ⟨hle, hend⟩ := hR x y hstep
          have hfuel' : least - 1 + (bound - y) < fuel := by omega
          have hbounds' : ∀ k ∈ most.map (· - 1), least - 1 ≤ k := by
            rw [forall_map_pred hmost]
            intro k hk
            have hleast := hbounds k hk
            have hk0 : k ≠ 0 := fun h => hmost (h ▸ hk)
            omega
          unfold GoesOn
          rw [repeatMatcher_iff lazy hm hR fuel (least - 1) (most.map (· - 1)) c y hfuel'
            hbounds']
          simp only [forall_map_pred hmost]
        by_cases hleast : least = 0
        · subst hleast
          rw [repeatMatcher_free lazy hm hmost c x
            fun y hstep hmoves => hrest y hstep (.inr hmoves)]
          simp
        · exact repeatMatcher_due lazy hm hleast hmost c x
            fun y hstep => hrest y hstep (.inl hleast)

/-- Repetitions of steps that go forward within a bound go forward within it. -/
theorem Iterates.bounded (hR : ∀ x y, R x y → x ≤ y ∧ (y ≤ bound ∨ y = x)) {n x y : Nat}
    (h : Iterates R n x y) : x ≤ y ∧ (y ≤ bound ∨ y = x) := by
  induction n generalizing x with
  | zero => exact ⟨Nat.le_of_eq h, Or.inr h.symm⟩
  | succ n ih =>
      obtain ⟨z, hstep, hrest⟩ := h
      have hfirst := hR x z hstep
      have hlater := ih hrest
      omega

end Repetition

/-! ## Matching -/

namespace Regex

variable {α β σ : Type} {l : Level}

section Matching

variable (sat : α → σ → Bool) (holds : β → Nat → Bool) (input : List σ)

/-- The matcher of an expression, with the continuation to call at the index it gets to. -/
def matcher : {l : Level} → Regex α β l → (Nat → Bool) → Nat → Bool
  | _, one a, c, x => matcher a c x
  | _, alt a d, c, x => matcher a c x || matcher d c x
  | _, empty, c, x => c x
  | _, seq t a, c, x => matcher t (matcher a c) x
  | _, assertion b, c, x => holds b x && c x
  | _, once a, c, x => matcher a c x
  | _, repeated a q lazy, c, x =>
      repeatMatcher (matcher a) lazy (q.least + (input.length - x) + 1) q.least q.most c x
  | _, char a, c, x =>
      match input[x]? with
      | some u => sat a u && c (x + 1)
      | none => false
  | _, group _ d, c, x => matcher d c x

/-- Is there a match anywhere in the input? -/
def found (d : Regex α β .disjunction) : Bool :=
  (List.range (input.length + 1)).any (d.matcher sat holds input fun _ => true)

/-- The expression can take the input from the first index to the second. -/
def Spans : {l : Level} → Regex α β l → Nat → Nat → Prop
  | _, one a, x, y => Spans a x y
  | _, alt a d, x, y => Spans a x y ∨ Spans d x y
  | _, empty, x, y => x = y
  | _, seq t a, x, y => ∃ z, Spans t x z ∧ Spans a z y
  | _, assertion b, x, y => holds b x = true ∧ x = y
  | _, once a, x, y => Spans a x y
  | _, repeated a q _, x, y =>
      ∃ n, q.least ≤ n ∧ (∀ k ∈ q.most, n ≤ k) ∧ Iterates (Spans a) n x y
  | _, char a, x, y => ∃ u, input[x]? = some u ∧ sat a u = true ∧ y = x + 1
  | _, group _ d, x, y => Spans d x y

end Matching

variable {sat : α → σ → Bool} {holds : β → Nat → Bool} {input : List σ}

/-- An expression takes the input forward, and not beyond its end. -/
theorem Spans.bounded {r : Regex α β l} {x y : Nat} (h : Spans sat holds input r x y) :
    x ≤ y ∧ (y ≤ input.length ∨ y = x) := by
  induction r generalizing x y with
  | one a ih => exact ih h
  | alt a d iha ihd => exact h.elim iha ihd
  | empty => exact ⟨Nat.le_of_eq h, Or.inr h.symm⟩
  | seq t a iht iha =>
      obtain ⟨z, ht, ha⟩ := h
      have hfirst := iht ht
      have hlater := iha ha
      omega
  | assertion b => exact ⟨Nat.le_of_eq h.2, Or.inr h.2.symm⟩
  | once a ih => exact ih h
  | repeated a q lazy ih =>
      obtain ⟨n, -, -, hiter⟩ := h
      exact hiter.bounded fun _ _ => ih
  | char a =>
      obtain ⟨u, hu, -, rfl⟩ := h
      have hx := (List.getElem?_eq_some_iff.mp hu).1
      exact ⟨Nat.le_succ x, Or.inl hx⟩
  | group capturing d ih => exact ih h

/-- **The matcher decides the relation**: it succeeds exactly when the expression can take
the input to an index at which the continuation succeeds. -/
theorem matcher_iff (r : Regex α β l) (c : Nat → Bool) (x : Nat) :
    r.matcher sat holds input c x = true ↔
      ∃ y, Spans sat holds input r x y ∧ c y = true := by
  induction r generalizing c x with
  | one a ih => exact ih c x
  | alt a d iha ihd =>
      show (matcher sat holds input a c x || matcher sat holds input d c x) = true ↔ _
      rw [Bool.or_eq_true, iha, ihd, ← exists_or]
      simp only [Spans, or_and_right]
  | empty => simp [matcher, Spans]
  | seq t a iht iha =>
      show matcher sat holds input t (matcher sat holds input a c) x = true ↔ _
      simp only [iht, iha, Spans]
      constructor
      · rintro ⟨z, ht, y, ha, hc⟩
        exact ⟨y, ⟨z, ht, ha⟩, hc⟩
      · rintro ⟨y, ⟨z, ht, ha⟩, hc⟩
        exact ⟨z, ht, y, ha, hc⟩
  | assertion b => simp [matcher, Spans, and_assoc]
  | once a ih => exact ih c x
  | repeated a q lazy ih =>
      show repeatMatcher (matcher sat holds input a) lazy _ q.least q.most c x = true ↔ _
      rw [repeatMatcher_iff (R := Spans sat holds input a) lazy ih
        (fun _ _ h => h.bounded) _ _ _ _ _ (Nat.lt_succ_self _) q.least_le_most]
      constructor
      · rintro ⟨n, y, hleast, hmost, hiter, hc⟩
        exact ⟨y, ⟨n, hleast, hmost, hiter⟩, hc⟩
      · rintro ⟨y, ⟨n, hleast, hmost, hiter⟩, hc⟩
        exact ⟨n, y, hleast, hmost, hiter, hc⟩
  | char a =>
      show (match input[x]? with
        | some u => sat a u && c (x + 1)
        | none => false) = true ↔ ∃ y, (∃ u, input[x]? = some u ∧ sat a u = true ∧ y = x + 1) ∧ _
      cases input[x]? with
      | none => simp
      | some u => simp [and_assoc]
  | group capturing d ih => exact ih c x

theorem found_iff (d : Regex α β .disjunction) :
    d.found sat holds input = true ↔
      ∃ x, x ≤ input.length ∧ ∃ y, Spans sat holds input d x y := by
  unfold found
  simp only [List.any_eq_true, List.mem_range, Nat.lt_succ_iff, matcher_iff, and_true]

/-- A character takes what the input goes on with. -/
theorem spans_char_iff (a : α) (x y : Nat) :
    Spans sat holds input (.char a : Regex α β .atom) x y ↔
      y = x + 1 ∧ ∃ u, input.drop x = u :: input.drop y ∧ sat a u = true := by
  constructor
  · rintro ⟨u, hu, hsat, rfl⟩
    obtain ⟨hx, rfl⟩ := List.getElem?_eq_some_iff.mp hu
    exact ⟨rfl, _, List.drop_eq_getElem_cons hx, hsat⟩
  · rintro ⟨rfl, u, hdrop, hsat⟩
    have hu := congrArg List.head? hdrop
    rw [List.head?_drop, List.head?_cons] at hu
    exact ⟨u, hu, hsat, rfl⟩

/-- A repeated character takes a run of the input. -/
theorem iterates_char_iff (a : α) (n x y : Nat) :
    Iterates (Spans sat holds input (.char a : Regex α β .atom)) n x y ↔
      y = x + n ∧ ∃ text : List σ, text.length = n ∧ input.drop x = text ++ input.drop y ∧
        ∀ u ∈ text, sat a u = true := by
  induction n generalizing x with
  | zero =>
      constructor
      · intro h
        obtain rfl : x = y := h
        exact ⟨rfl, [], rfl, rfl, by simp⟩
      · rintro ⟨rfl, -⟩
        rfl
  | succ n ih =>
      constructor
      · rintro ⟨z, hfirst, hrest⟩
        obtain ⟨rfl, u, hdrop, hsat⟩ := (spans_char_iff a x z).mp hfirst
        obtain ⟨rfl, text, hlength, hdrop', hall⟩ := (ih (x + 1)).mp hrest
        refine ⟨by omega, u :: text, by rw [List.length_cons, hlength], ?_, ?_⟩
        · rw [hdrop, hdrop', List.cons_append]
        · exact List.forall_mem_cons.mpr ⟨hsat, hall⟩
      · rintro ⟨rfl, text, hlength, hdrop, hall⟩
        cases text with
        | nil => cases hlength
        | cons u text =>
            obtain ⟨hsat, hall⟩ := List.forall_mem_cons.mp hall
            have htail : input.drop (x + 1) = text ++ input.drop (x + (n + 1)) := by
              rw [← List.tail_drop, hdrop]
              rfl
            refine ⟨x + 1, (spans_char_iff a x (x + 1)).mpr ⟨rfl, u, ?_, hsat⟩, ?_⟩
            · rw [hdrop, htail]
              rfl
            · exact (ih (x + 1)).mpr
                ⟨by omega, text, Nat.succ.inj hlength, htail, hall⟩

end Regex

end RateLimiter.Foundations
