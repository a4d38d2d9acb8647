import Mathlib.Data.List.Basic

/-!
# Counting within windows of time

How many of some instants lie in the window of a given length that ends at an instant,
and when no window holds more than a limit.
-/

namespace RateLimiter.Foundations

/-- How many of the instants lie in the window of length `w` that ends at `t`. -/
def inWindow (w t : Nat) (instants : List Nat) : Nat :=
  instants.countP fun a => t < a + w ∧ a ≤ t

/-- No window of length `w` holds more than `limit` of the instants. -/
def WithinLimit (limit w : Nat) (instants : List Nat) : Prop :=
  ∀ t, inWindow w t instants ≤ limit

variable {limit w now : Nat} {instants : List Nat}

theorem withinLimit_nil (limit w : Nat) : WithinLimit limit w [] :=
  fun _ => Nat.zero_le limit

theorem inWindow_cons (w t now : Nat) (instants : List Nat) :
    inWindow w t (now :: instants) =
      inWindow w t instants + if t < now + w ∧ now ≤ t then 1 else 0 := by
  unfold inWindow
  rw [List.countP_cons]
  simp only [decide_eq_true_eq]

/-- Where `now` is the latest instant, only those can be in its window that start after
the window did. -/
theorem inWindow_of_latest (hlatest : ∀ a ∈ instants, a ≤ now) :
    inWindow w now instants = instants.countP fun a => now < a + w := by
  apply List.countP_congr
  intro a ha
  have hle := hlatest a ha
  simp only [decide_eq_true_eq]
  exact and_iff_left hle

/-- Another instant, the latest one, may be added while its own window has room. -/
theorem WithinLimit.cons (h : WithinLimit limit w instants)
    (hlatest : ∀ a ∈ instants, a ≤ now) (hroom : inWindow w now instants < limit) :
    WithinLimit limit w (now :: instants) := by
  intro t
  rw [inWindow_cons]
  split
  next hin =>
    -- What is in a later window was in the window of `now`.
    have hsub : inWindow w t instants ≤ inWindow w now instants := by
      apply List.countP_mono_left
      intro a ha hat
      have hle := hlatest a ha
      simp only [decide_eq_true_eq] at hat ⊢
      omega
    omega
  next => exact h t

/-- Those that start after one instant are as many as those that start after another exactly
when none of them lies between. -/
theorem countP_later_eq_iff {last t : Nat} (hle : last ≤ t) (w : Nat) :
    (instants.countP fun a => last < a + w) = (instants.countP fun a => t < a + w) ↔
      ∀ a ∈ instants, last < a + w → t < a + w := by
  induction instants with
  | nil => simp
  | cons a instants ih =>
      have hfewer : (instants.countP fun a => t < a + w) ≤
          instants.countP fun a => last < a + w := by
        apply List.countP_mono_left
        intro b _ hb
        simp only [decide_eq_true_eq] at hb ⊢
        omega
      rw [List.forall_mem_cons, ← ih, List.countP_cons, List.countP_cons]
      simp only [decide_eq_true_eq]
      split_ifs <;> omega

/-! ## The oldest instant of a window -/

theorem inWindow_perm {instants' : List Nat} (h : instants.Perm instants') (w t : Nat) :
    inWindow w t instants = inWindow w t instants' := h.countP_eq _

/-- `oldest` is the least of the instants that are in the window which ends at `now`. -/
structure IsOldest (w now : Nat) (instants : List Nat) (oldest : Nat) : Prop where
  mem : oldest ∈ instants
  inside : now < oldest + w
  least : ∀ a ∈ instants, now < a + w → oldest ≤ a

/-- When all instants have passed, a window is empty exactly when they all have left it. -/
theorem inWindow_eq_zero_iff (hlatest : ∀ a ∈ instants, a ≤ now) :
    inWindow w now instants = 0 ↔ ∀ a ∈ instants, a + w ≤ now := by
  rw [inWindow_of_latest hlatest, List.countP_eq_zero]
  simp

/-- When the oldest instant leaves it, a window is empty exactly when all it had came at
once. -/
theorem IsOldest.inWindow_eq_zero_iff {oldest : Nat} (h : IsOldest w now instants oldest)
    (hlatest : ∀ a ∈ instants, a ≤ now) :
    inWindow w (oldest + w) instants = 0 ↔
      ∀ a ∈ instants, ∀ b ∈ instants, now < a + w → now < b + w → a = b := by
  obtain ⟨hmem, hinside, hleast⟩ := h
  have hpassed : ∀ a ∈ instants, a ≤ oldest + w := by
    intro a ha
    have hle := hlatest a ha
    omega
  rw [Foundations.inWindow_eq_zero_iff hpassed]
  constructor
  · intro hall a ha b hb hina hinb
    have ha' := hall a ha
    have hb' := hall b hb
    have hleasta := hleast a ha hina
    have hleastb := hleast b hb hinb
    omega
  · intro honce a ha
    by_cases hin : now < a + w
    · have hsame := honce a ha oldest hmem hin hinside
      omega
    · omega

/-- Until the oldest instant leaves it, a window keeps all it had. -/
theorem IsOldest.inWindow_le {oldest t : Nat} (h : IsOldest w now instants oldest)
    (hlater : now ≤ t) (hbefore : t < oldest + w) :
    inWindow w now instants ≤ inWindow w t instants := by
  apply List.countP_mono_left
  intro a ha hin
  simp only [decide_eq_true_eq] at hin ⊢
  have hleast := h.least a ha hin.1
  omega

/-- From then on it has fewer. -/
theorem IsOldest.inWindow_lt {oldest t : Nat} (h : IsOldest w now instants oldest)
    (hlatest : ∀ a ∈ instants, a ≤ now) (hlater : now ≤ t) (hafter : oldest + w ≤ t) :
    inWindow w t instants < inWindow w now instants := by
  obtain ⟨hmem, hinside, -⟩ := h
  obtain ⟨before, after, rfl⟩ := List.append_of_mem hmem
  -- no instant that has passed enters the window again
  have hsub : ∀ part : List Nat, (∀ a ∈ part, a ≤ now) →
      inWindow w t part ≤ inWindow w now part := by
    intro part hpart
    apply List.countP_mono_left
    intro a ha hin
    have hle := hpart a ha
    simp only [decide_eq_true_eq] at hin ⊢
    omega
  have hfront := hsub before fun a ha => hlatest a (List.mem_append_left _ ha)
  have hback := hsub after fun a ha => hlatest a (by simp [ha])
  have hout : inWindow w t (oldest :: after) = inWindow w t after := by
    rw [inWindow_cons, if_neg (by omega), Nat.add_zero]
  have hnow := hlatest oldest (by simp)
  have hin : inWindow w now (oldest :: after) = inWindow w now after + 1 := by
    rw [inWindow_cons, if_pos ⟨hinside, hnow⟩]
  have hsplit : ∀ u, inWindow w u (before ++ oldest :: after) =
      inWindow w u before + inWindow w u (oldest :: after) := fun u => List.countP_append
  rw [hsplit, hsplit, hout, hin]
  omega

end RateLimiter.Foundations
