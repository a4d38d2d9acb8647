import Mathlib.Data.List.Pairwise

/-!
# The first match of an ordered list

Taking the first element of a list that passes a test picks, from a list in the
order of a relation, an element that stands in the relation to every other one
that passes.
-/

namespace RateLimiter.Foundations

variable {α β : Type*} {R : α → α → Prop} {p : α → Bool} {xs : List α} {x y : α}

/-- The first match comes before every match. -/
theorem find?_precedes (hrefl : ∀ a, R a a) (hordered : xs.Pairwise R)
    (hfind : xs.find? p = some x) (hy : y ∈ xs) (hp : p y = true) : R x y := by
  induction xs with
  | nil => cases hy
  | cons head tail ih =>
      obtain ⟨hhead, htail⟩ := List.pairwise_cons.mp hordered
      cases hpass : p head with
      | true =>
          rw [List.find?_cons_of_pos hpass] at hfind
          obtain rfl := Option.some.inj hfind
          rcases List.mem_cons.mp hy with rfl | hrest
          · exact hrefl y
          · exact hhead y hrest
      | false =>
          rw [List.find?_cons_of_neg (by simp [hpass])] at hfind
          rcases List.mem_cons.mp hy with rfl | hrest
          · rw [hpass] at hp
            cases hp
          · exact ih htail hfind hrest

/-- The first match in the images of a list is the image of a first match. -/
theorem find?_map_eq_some {f : α → β} {q : β → Bool} {b : β}
    (hfind : (xs.map f).find? q = some b) :
    ∃ a, xs.find? (fun a => q (f a)) = some a ∧ f a = b := by
  rw [List.find?_map] at hfind
  exact Option.map_eq_some_iff.mp hfind

end RateLimiter.Foundations
