import Mathlib.Algebra.BigOperators.Group.List.Basic

/-!
# Loops that take keys out of a map

A loop over a list of keys whose body takes its key out of a map: what it leaves in the
map, what it gathers on the way, and what it does not touch.
-/

namespace RateLimiter.Foundations

variable {σ κ α M : Type*} [DecidableEq κ] {step : σ → κ → σ} (seen : σ → κ → Option α)

/-- The keys of the list are gone, and the others are as they were. -/
theorem foldl_taken (htake : ∀ s id k, seen (step s id) k = if k = id then none else seen s k)
    (ids : List κ) (s : σ) (k : κ) [Decidable (k ∈ ids)] :
    seen (ids.foldl step s) k = if k ∈ ids then none else seen s k := by
  have hloop : seen (ids.foldl step s) k =
      if (ids.any fun id => k = id) then none else seen s k := by
    induction ids generalizing s with
    | nil => rfl
    | cons id ids ih =>
        rw [List.foldl_cons, ih, htake]
        by_cases hk : k = id
        · simp [hk]
        · simp [hk]
  rw [hloop]
  refine if_congr ?_ rfl rfl
  simp

/-- What the body makes of the entry of its key is made of each entry in turn. -/
theorem foldl_folded {β : Type*} (gathered : σ → β) (gather : β → Option α → β)
    (htake : ∀ s id k, seen (step s id) k = if k = id then none else seen s k)
    (hgather : ∀ s id, gathered (step s id) = gather (gathered s) (seen s id))
    {ids : List κ} (hnodup : ids.Nodup) (s : σ) :
    gathered (ids.foldl step s) = (ids.map (seen s)).foldl gather (gathered s) := by
  induction ids generalizing s with
  | nil => rfl
  | cons id ids ih =>
      obtain ⟨hfresh, hrest⟩ := List.nodup_cons.mp hnodup
      -- no key is listed twice, so the entries still to come are as they were
      have hsame : ∀ k ∈ ids, seen (step s id) k = seen s k := by
        intro k hk
        have hne : k ≠ id := fun h => hfresh (h ▸ hk)
        rw [htake, if_neg hne]
      rw [List.foldl_cons, ih hrest, hgather, List.map_congr_left hsame, List.map_cons,
        List.foldl_cons]

/-- What the body adds up over the entries of its keys is added up once for each key. -/
theorem foldl_gathered [AddMonoid M] (gathered : σ → M) (worth : Option α → M)
    (htake : ∀ s id k, seen (step s id) k = if k = id then none else seen s k)
    (hgather : ∀ s id, gathered (step s id) = gathered s + worth (seen s id))
    {ids : List κ} (hnodup : ids.Nodup) (s : σ) :
    gathered (ids.foldl step s) = gathered s + (ids.map fun id => worth (seen s id)).sum := by
  have hfolded := foldl_folded seen gathered (fun total entry => total + worth entry) htake
    hgather hnodup s
  rw [hfolded]
  generalize gathered s = total
  clear hfolded hnodup
  induction ids generalizing total with
  | nil => simp
  | cons id ids ih => simp [ih, add_assoc]

/-- When each key has an entry, and the body makes the map smaller by the entry it takes, the
loop makes it smaller by as many. -/
theorem foldl_shrunk (size : σ → Nat)
    (htake : ∀ s id k, seen (step s id) k = if k = id then none else seen s k)
    (hsize : ∀ s id, seen s id ≠ none → size (step s id) + 1 = size s)
    {ids : List κ} (hnodup : ids.Nodup) (s : σ) (hseen : ∀ id ∈ ids, seen s id ≠ none) :
    size (ids.foldl step s) + ids.length = size s := by
  induction ids generalizing s with
  | nil => rfl
  | cons id ids ih =>
      obtain ⟨hfresh, hrest⟩ := List.nodup_cons.mp hnodup
      obtain ⟨hhead, htail⟩ := List.forall_mem_cons.mp hseen
      have hleft : ∀ k ∈ ids, seen (step s id) k ≠ none := by
        intro k hk
        have hne : k ≠ id := fun h => hfresh (h ▸ hk)
        rw [htake, if_neg hne]
        exact htail k hk
      have hloop := ih hrest (step s id) hleft
      have hone := hsize s id hhead
      rw [List.foldl_cons, List.length_cons]
      omega

omit [DecidableEq κ] in
/-- What the body keeps, the loop keeps. -/
theorem foldl_kept {γ : Type*} (kept : σ → γ) (hkeep : ∀ s id, kept (step s id) = kept s)
    (ids : List κ) (s : σ) : kept (ids.foldl step s) = kept s := by
  induction ids generalizing s with
  | nil => rfl
  | cons id ids ih => rw [List.foldl_cons, ih, hkeep]

omit [DecidableEq κ] in
/-- What no body enlarges, the loop does not. -/
theorem foldl_le {γ : Type*} [Preorder γ] (size : σ → γ)
    (hshrink : ∀ s id, size (step s id) ≤ size s) (ids : List κ) (s : σ) :
    size (ids.foldl step s) ≤ size s := by
  induction ids generalizing s with
  | nil => exact le_rfl
  | cons id ids ih => exact (ih (step s id)).trans (hshrink s id)

end RateLimiter.Foundations
