import Mathlib.Data.List.Nodup
import Mathlib.Logic.Function.Basic

/-!
# Rows under keys

A list of rows in which no key occurs twice is a finite map.  Adding a row, changing the row
under a key and deleting it are the updates of that map, and whether a second column stays
without repetitions when a row changes is a question about the other rows only.
-/

namespace RateLimiter.Foundations

variable {ρ κ ν : Type*} [DecidableEq κ] {key : ρ → κ} {rows : List ρ} {row : ρ} {k : κ}

/-- The row under a key. -/
def rowAt (key : ρ → κ) (rows : List ρ) (k : κ) : Option ρ := rows.find? fun row => key row = k

/-- The rows with the one under a key changed. -/
def changeAt (key : ρ → κ) (k : κ) (f : ρ → ρ) (rows : List ρ) : List ρ :=
  rows.map fun row => if key row = k then f row else row

@[simp] theorem rowAt_nil (k : κ) : rowAt key [] k = none := rfl

theorem rowAt_cons (row : ρ) (rows : List ρ) (k : κ) :
    rowAt key (row :: rows) k = if key row = k then some row else rowAt key rows k := by
  unfold rowAt
  by_cases h : key row = k <;> simp [h]

theorem rowAt_eq_none_iff : rowAt key rows k = none ↔ ∀ row ∈ rows, key row ≠ k := by
  simp [rowAt]

theorem mem_of_rowAt (h : rowAt key rows k = some row) : row ∈ rows ∧ key row = k :=
  ⟨List.mem_of_find?_eq_some h, by simpa using List.find?_some h⟩

/-- Where no key occurs twice, a row is found under its own. -/
theorem rowAt_of_mem (hkeys : (rows.map key).Nodup) (h : row ∈ rows) :
    rowAt key rows (key row) = some row := by
  induction rows with
  | nil => exact absurd h List.not_mem_nil
  | cons head rows ih =>
      obtain ⟨hfresh, hrest⟩ := List.nodup_cons.mp hkeys
      rw [rowAt_cons]
      rcases List.mem_cons.mp h with rfl | hmem
      · exact if_pos rfl
      · have hne : key head ≠ key row := by
          intro hsame
          exact hfresh (List.mem_map.mpr ⟨row, hmem, hsame.symm⟩)
        rw [if_neg hne, ih hrest hmem]

theorem rowAt_eq_some_iff (hkeys : (rows.map key).Nodup) :
    rowAt key rows k = some row ↔ row ∈ rows ∧ key row = k := by
  constructor
  · exact mem_of_rowAt
  · rintro ⟨hmem, rfl⟩
    exact rowAt_of_mem hkeys hmem

/-- A row under a key of its own is added. -/
theorem rowAt_append (hfresh : ∀ other ∈ rows, key other ≠ key row) :
    rowAt key (rows ++ [row]) = Function.update (rowAt key rows) (key row) (some row) := by
  funext k
  unfold rowAt
  rw [List.find?_append]
  by_cases hk : k = key row
  · subst hk
    rw [List.find?_eq_none.mpr (by simpa using hfresh), Function.update_self]
    simp
  · have hne : key row ≠ k := fun h => hk h.symm
    rw [Function.update_of_ne hk]
    simp [hne]

/-- The row under a key is changed, under the same key. -/
theorem rowAt_changeAt {f : ρ → ρ} (hf : ∀ row, key (f row) = key row) (k : κ)
    (rows : List ρ) :
    rowAt key (changeAt key k f rows) =
      Function.update (rowAt key rows) k ((rowAt key rows k).map f) := by
  funext k'
  induction rows with
  | nil => by_cases h : k' = k <;> simp [changeAt, Function.update_apply, h]
  | cons head rows ih =>
      unfold changeAt at ih ⊢
      rw [List.map_cons, rowAt_cons, ih]
      by_cases hk' : k' = k
      · subst hk'
        by_cases hhead : key head = k' <;> simp [rowAt_cons, hhead, hf]
      · by_cases hhead : key head = k
        · simp [rowAt_cons, Function.update_of_ne hk', hhead, hf, Ne.symm hk']
        · simp [rowAt_cons, Function.update_of_ne hk', hhead]

/-- The row under a key is deleted. -/
theorem rowAt_filter (k : κ) (rows : List ρ) :
    rowAt key (rows.filter fun row => key row ≠ k) = Function.update (rowAt key rows) k none := by
  funext k'
  unfold rowAt
  rw [List.find?_filter]
  by_cases hk' : k' = k
  · subst hk'
    rw [Function.update_self, List.find?_eq_none]
    simp
  · rw [Function.update_of_ne hk']
    congr 1
    funext row
    by_cases hrow : key row = k'
    · simp [hrow, hk']
    · simp [hrow]

theorem map_key_changeAt {f : ρ → ρ} (hf : ∀ row, key (f row) = key row) (k : κ)
    (rows : List ρ) : (changeAt key k f rows).map key = rows.map key := by
  unfold changeAt
  rw [List.map_map]
  refine List.map_congr_left fun row _ => ?_
  by_cases h : key row = k <;> simp [h, hf]

theorem changeAt_of_absent {f : ρ → ρ} (h : ∀ row ∈ rows, key row ≠ k) :
    changeAt key k f rows = rows := by
  unfold changeAt
  rw [List.map_congr_left fun row hrow => if_neg (h row hrow), List.map_id']

/-- A second column stays without repetitions when no other row has the new value. -/
theorem nodup_changeAt_iff {name : ρ → ν} {f : ρ → ρ} (hkeys : (rows.map key).Nodup)
    (hnames : (rows.map name).Nodup) (hrow : row ∈ rows) :
    ((changeAt key (key row) f rows).map name).Nodup ↔
      ∀ other ∈ rows, key other ≠ key row → name other ≠ name (f row) := by
  have hself : ∀ other ∈ rows, key other = key row → other = row :=
    fun other hother hsame => List.inj_on_of_nodup_map hkeys hother hrow hsame
  unfold changeAt
  rw [List.map_map, List.nodup_map_iff_inj_on hkeys.of_map]
  constructor
  · intro hinj other hother hne hsame
    refine hne (congrArg key (hinj other hother row hrow ?_))
    simpa [hne] using hsame
  · intro hfree other hother another hanother hsame
    by_cases h : key other = key row <;> by_cases h' : key another = key row
    · rw [hself other hother h, hself another hanother h']
    · obtain rfl := hself other hother h
      exact absurd (by simpa [h'] using hsame.symm) (hfree another hanother h')
    · obtain rfl := hself another hanother h'
      exact absurd (by simpa [h] using hsame) (hfree other hother h)
    · exact List.inj_on_of_nodup_map hnames hother hanother (by simpa [h, h'] using hsame)

end RateLimiter.Foundations
