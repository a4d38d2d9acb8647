import Mathlib.Data.List.AList
import Mathlib.Data.List.Basic

/-!
# Answers remembered under a key

A memo answers a question by computing it once and looking it up from then on.
It looks up the key of a question, not the question: two questions with one key
get the answer of whichever was asked first.  So a memo is transparent to a
question exactly as far as the answers of the questions before it with the same
key are its own.
-/

namespace RateLimiter.Foundations

/-- Answers under keys. -/
abbrev Memo (κ ρ : Type*) := AList fun _ : κ => ρ

variable {α κ ρ : Type*} [DecidableEq κ]

/-- Look the key of a question up, and remember the answer when it is not there. -/
def Memo.ask (key : α → κ) (answer : α → ρ) (memo : Memo κ ρ) (a : α) : Memo κ ρ × ρ :=
  match memo.lookup (key a) with
  | some hit => (memo, hit)
  | none => (memo.insert (key a) (answer a), answer a)

/-- Who asked first, of those with a key. -/
def firstAsked (key : α → κ) (asked : List α) (k : κ) : Option α :=
  asked.find? fun a => key a = k

section FirstAsked

variable {key : α → κ} {asked : List α} {a b : α}

theorem firstAsked_append (k : κ) :
    firstAsked key (asked ++ [a]) k =
      (firstAsked key asked k).or (if key a = k then some a else none) := by
  unfold firstAsked
  rw [List.find?_append]
  by_cases hkey : key a = k <;> simp [hkey]

theorem firstAsked_key {k : κ} (h : firstAsked key asked k = some b) : key b = k := by
  simpa using List.find?_some h

theorem firstAsked_mem {k : κ} (h : firstAsked key asked k = some b) : b ∈ asked :=
  List.mem_of_find?_eq_some h

end FirstAsked

/-- The memo holds the answers of a list of questions asked since it was empty. -/
def Remembers (key : α → κ) (answer : α → ρ) (asked : List α) (memo : Memo κ ρ) : Prop :=
  ∀ k, memo.lookup k = (firstAsked key asked k).map answer

namespace Remembers

variable {key : α → κ} {answer : α → ρ} {asked : List α} {memo : Memo κ ρ}

theorem empty : Remembers key answer [] ∅ := by
  intro k
  rw [AList.lookup_empty]
  rfl

/-- Asking one more question keeps the memo in step with the questions. -/
theorem ask (h : Remembers key answer asked memo) (a : α) :
    Remembers key answer (asked ++ [a]) (memo.ask key answer a).1 := by
  intro k
  have hk := h k
  rw [firstAsked_append]
  unfold Memo.ask
  cases hit : memo.lookup (key a) with
  | some r =>
      by_cases hkey : key a = k
      · -- A hit: whoever asked first under the key stays the first.
        rw [hkey] at hit
        obtain ⟨b, hfirst, -⟩ := Option.map_eq_some_iff.mp (hk.symm.trans hit)
        simp [hk, hfirst]
      · simp [hk, hkey]
  | none =>
      by_cases hkey : key a = k
      · subst hkey
        have hfirst := Option.map_eq_none_iff.mp (hk.symm.trans hit)
        simp [hfirst]
      · simp [AList.lookup_insert_ne (Ne.symm hkey), hk, hkey]

/-- A question gets the answer of the first one asked with its key. -/
theorem answer_eq (h : Remembers key answer asked memo) (a : α) :
    (memo.ask key answer a).2 = answer ((firstAsked key asked (key a)).getD a) := by
  unfold Memo.ask
  rw [h (key a)]
  cases firstAsked key asked (key a) with
  | some b => rfl
  | none => rfl

end Remembers

/-- A property of all answers a memo gives out or keeps. -/
theorem Memo.ask_forall {key : α → κ} {answer : α → ρ} {memo : Memo κ ρ} {P : ρ → Prop} (a : α)
    (hmemo : ∀ k r, memo.lookup k = some r → P r) (hanswer : P (answer a)) :
    P (memo.ask key answer a).2 ∧ ∀ k r, (memo.ask key answer a).1.lookup k = some r → P r := by
  unfold Memo.ask
  cases hit : memo.lookup (key a) with
  | some hit' => exact ⟨hmemo _ _ hit, hmemo⟩
  | none =>
      refine ⟨hanswer, ?_⟩
      intro k r hlookup
      by_cases hkey : k = key a
      · subst hkey
        rw [AList.lookup_insert] at hlookup
        rwa [← Option.some.inj hlookup]
      · rw [AList.lookup_insert_ne hkey] at hlookup
        exact hmemo k r hlookup

end RateLimiter.Foundations
