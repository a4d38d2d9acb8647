import Mathlib.Data.List.TakeWhile

/-!
# Hash tags of a Redis cluster

A cluster places a key by hashing a part of its name: what lies between the first
opening brace and the first closing brace after it when that is not empty, and the
whole name otherwise.  A script is refused unless all its keys are hashed by the
same part.
-/

namespace RateLimiter.Redis

variable {α : Type} [DecidableEq α]

/-- The part of a name that is hashed. -/
def hashed (opening closing : α) (name : List α) : List α :=
  match name.dropWhile (· ≠ opening) with
  | [] => name
  | _ :: rest =>
      let tag := rest.takeWhile (· ≠ closing)
      if tag = [] ∨ closing ∉ rest then name else tag

/-- All names are hashed by the same part, so that one script may use them all. -/
def OneSlot (opening closing : α) (names : List (List α)) : Prop :=
  ∀ a ∈ names, ∀ b ∈ names, hashed opening closing a = hashed opening closing b

section Tagged

variable {opening : α} {front : List α}

/-- A name with a tag is hashed by the tag up to its own first closing brace, unless the
tag starts with one. -/
theorem hashed_tagged (closing : α) (hfront : opening ∉ front) (first : α)
    (more after : List α) :
    hashed opening closing (front ++ opening :: (first :: more ++ closing :: after)) =
      if first = closing then front ++ opening :: (first :: more ++ closing :: after)
      else (first :: more).takeWhile (· ≠ closing) := by
  have hdrop : (front ++ opening :: (first :: more ++ closing :: after)).dropWhile
      (· ≠ opening) = opening :: (first :: more ++ closing :: after) := by
    rw [List.dropWhile_append_of_pos (by simpa using fun a ha => ne_of_mem_of_not_mem ha hfront)]
    simp
  have hclosed : closing ∈ first :: more ++ closing :: after := by simp
  have htag : (first :: more ++ closing :: after).takeWhile (· ≠ closing) =
      (first :: more).takeWhile (· ≠ closing) := by
    rw [List.takeWhile_append]
    split
    next hall =>
      have hwhole : (first :: more).takeWhile (· ≠ closing) = first :: more :=
        (List.takeWhile_prefix _).eq_of_length hall
      rw [hwhole]
      simp
    next => rfl
  unfold hashed
  rw [hdrop]
  dsimp only
  rw [htag]
  by_cases hstart : first = closing
  · simp [hstart]
  · simp [hstart]

end Tagged

end RateLimiter.Redis
