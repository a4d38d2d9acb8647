import RateLimiter.Redis.Keys

/-!
# Ranges of a sorted set, batch by batch

`ZRANGEBYSCORE ... LIMIT 0 count` lists the first members of those that are due.  Who
takes out what it has listed and lists again goes on where it has stopped, and the
members that were due and are still there come after all that were taken.
-/

namespace RateLimiter.Redis

namespace SortedSet

variable {κ : Type} [LinearOrder κ]

/-! ## The order of a sorted set -/

instance : IsTrans (Σ _ : κ, Int) scoreLe where
  trans a b c hab hbc := by
    unfold scoreLe at hab hbc ⊢
    rcases hab with hab | ⟨hab, hab'⟩
    · rcases hbc with hbc | ⟨hbc, -⟩
      · exact Or.inl (hab.trans hbc)
      · exact Or.inl (hbc ▸ hab)
    · rcases hbc with hbc | ⟨hbc, hbc'⟩
      · exact Or.inl (hab ▸ hbc)
      · exact Or.inr ⟨hab.trans hbc, hab'.trans hbc'⟩

instance : Std.Total (scoreLe (κ := κ)) where
  total a b := by
    unfold scoreLe
    rcases lt_trichotomy a.2 b.2 with hlt | heq | hgt
    · exact Or.inl (Or.inl hlt)
    · exact (le_total a.1 b.1).imp (fun h => Or.inr ⟨heq, h⟩) fun h => Or.inr ⟨heq.symm, h⟩
    · exact Or.inr (Or.inl hgt)

instance : Std.Antisymm (scoreLe (κ := κ)) where
  antisymm a b hab hba := by
    obtain ⟨k, score⟩ := a
    obtain ⟨k', score'⟩ := b
    unfold scoreLe at hab hba
    rcases hab with hlt | ⟨heq, hle⟩
    · rcases hba with hgt | ⟨heq, -⟩
      · exact absurd (hlt.trans hgt) (lt_irrefl _)
      · exact absurd (heq ▸ hlt) (lt_irrefl _)
    · rcases hba with hgt | ⟨-, hge⟩
      · exact absurd (heq ▸ hgt) (lt_irrefl _)
      · obtain rfl : k = k' := le_antisymm hle hge
        obtain rfl : score = score' := heq
        rfl

/-! ## What is due -/

/-- The members with a score up to `max`, in the order of the set. -/
def due (max : Int) (z : SortedSet κ) : List (Σ _ : κ, Int) :=
  (z.members.entries.filter fun entry => entry.2 ≤ max).insertionSort scoreLe

variable {max : Int} {count : Nat} {z z' : SortedSet κ}

theorem rangeByScore_eq (max : Int) (count : Nat) (z : SortedSet κ) :
    rangeByScore max count z = ((due max z).take count).map Sigma.fst := rfl

theorem length_due (max : Int) (z : SortedSet κ) :
    (due max z).length = countByScore max z := List.length_insertionSort _ _

theorem mem_due {k : κ} {score : Int} :
    ⟨k, score⟩ ∈ due max z ↔ z.get k = some score ∧ score ≤ max := by
  unfold due
  rw [List.mem_insertionSort, List.mem_filter, decide_eq_true_eq]
  exact and_congr_left' (List.mem_dlookup_iff z.members.nodupKeys).symm

theorem pairwise_due (max : Int) (z : SortedSet κ) : (due max z).Pairwise scoreLe :=
  List.pairwise_insertionSort scoreLe _

theorem nodup_keys_due (max : Int) (z : SortedSet κ) : ((due max z).map Sigma.fst).Nodup := by
  have hfilter : (z.members.entries.filter fun entry => entry.2 ≤ max).NodupKeys :=
    z.members.nodupKeys.sublist List.filter_sublist
  exact (List.perm_nodupKeys (List.perm_insertionSort scoreLe _)).mpr hfilter

/-- What is due and not listed is in the rest. -/
theorem mem_drop_due {k : κ} {score : Int} :
    ⟨k, score⟩ ∈ (due max z).drop count ↔
      ⟨k, score⟩ ∈ due max z ∧ k ∉ rangeByScore max count z := by
  have hsplit := List.take_append_drop count (due max z)
  have hnodup := nodup_keys_due max z
  rw [← hsplit, List.map_append, List.nodup_append] at hnodup
  rw [rangeByScore_eq]
  constructor
  · intro hmem
    refine ⟨List.mem_of_mem_drop hmem, fun hlisted => ?_⟩
    exact hnodup.2.2 k hlisted k (List.mem_map_of_mem hmem) rfl
  · rintro ⟨hmem, hrest⟩
    rw [← hsplit, List.mem_append] at hmem
    exact hmem.resolve_left fun hlisted => hrest (List.mem_map_of_mem hlisted)

/-- What is listed has no higher score than what is due after it. -/
theorem score_le_of_rangeByScore {k k' : κ} {score score' : Int}
    (hk : k ∈ rangeByScore max count z) (hscore : z.get k = some score)
    (hk' : k' ∉ rangeByScore max count z) (hscore' : z.get k' = some score') :
    score ≤ score' := by
  obtain ⟨⟨_, listed⟩, hlisted, rfl⟩ := List.mem_map.mp hk
  obtain ⟨hget, hmax⟩ := mem_due.mp (List.mem_of_mem_take hlisted)
  obtain rfl : listed = score := Option.some.inj (hget.symm.trans hscore)
  -- a member that is not due lies above every member that is listed
  by_cases hdue : score' ≤ max
  · have hrest := mem_drop_due.mpr ⟨mem_due.mpr ⟨hscore', hdue⟩, hk'⟩
    have hsorted := pairwise_due max z
    rw [← List.take_append_drop count (due max z), List.pairwise_append] at hsorted
    rcases hsorted.2.2 _ hlisted _ hrest with hlt | ⟨heq, -⟩
    · exact hlt.le
    · exact heq.le
  · exact hmax.trans (not_le.mp hdue).le

/-- Where the listed members are gone and no other has become due, the rest is due. -/
theorem due_eq_drop
    (h : ∀ k score, score ≤ max → (z'.get k = some score ↔
      z.get k = some score ∧ k ∉ rangeByScore max count z)) :
    due max z' = (due max z).drop count := by
  have hmem : ∀ entry, entry ∈ due max z' ↔ entry ∈ (due max z).drop count := by
    rintro ⟨k, score⟩
    rw [mem_drop_due, mem_due, mem_due]
    constructor
    · rintro ⟨hget, hdue⟩
      obtain ⟨hbefore, hrest⟩ := (h k score hdue).mp hget
      exact ⟨⟨hbefore, hdue⟩, hrest⟩
    · rintro ⟨⟨hbefore, hdue⟩, hrest⟩
      exact ⟨(h k score hdue).mpr ⟨hbefore, hrest⟩, hdue⟩
  -- two sorted lists of the same members are the same list
  have hperm : (due max z').Perm ((due max z).drop count) :=
    (List.perm_ext_iff_of_nodup (List.Nodup.of_map _ (nodup_keys_due max z'))
      ((List.Nodup.of_map _ (nodup_keys_due max z)).sublist (List.drop_sublist _ _))).mpr hmem
  exact hperm.eq_of_pairwise' (pairwise_due max z')
    ((pairwise_due max z).sublist (List.drop_sublist _ _))

/-- Who goes on listing there lists what one longer listing would have. -/
theorem rangeByScore_add (h : due max z' = (due max z).drop count) (more : Nat) :
    rangeByScore max (count + more) z =
      rangeByScore max count z ++ rangeByScore max more z' := by
  rw [rangeByScore_eq, rangeByScore_eq, rangeByScore_eq, h, List.take_add, List.map_append]

/-- With nothing due every score lies above. -/
theorem lt_score_of_due_eq_nil (h : due max z = []) {k : κ} {score : Int}
    (hscore : z.get k = some score) : max < score := by
  by_contra hle
  have hmem := mem_due.mpr ⟨hscore, not_lt.mp hle⟩
  rw [h] at hmem
  cases hmem

/-! ## The first member -/

/-- `ZRANGE key 0 0` on a set that is not empty is a member of the least score. -/
theorem first?_of_ne_nil (h : z.members.entries ≠ []) :
    ∃ entry ∈ z.members.entries, z.first? = some (entry.1, entry.2) ∧
      ∀ other ∈ z.members.entries, entry.2 ≤ other.2 := by
  unfold first?
  have hsorted := List.pairwise_insertionSort scoreLe z.members.entries
  have hperm := List.perm_insertionSort scoreLe z.members.entries
  cases hlist : z.members.entries.insertionSort scoreLe with
  | nil =>
      rw [hlist] at hperm
      exact absurd hperm.nil_eq.symm h
  | cons entry rest =>
      rw [hlist] at hsorted hperm
      refine ⟨entry, hperm.subset List.mem_cons_self, rfl, ?_⟩
      intro other hother
      rcases List.mem_cons.mp (hperm.symm.subset hother) with rfl | hrest
      · exact le_rfl
      · rcases (List.pairwise_cons.mp hsorted).1 other hrest with hlt | ⟨heq, -⟩
        · exact hlt.le
        · exact heq.le

end SortedSet

end RateLimiter.Redis
