import Mathlib.Data.List.Nodup

/-!
# `Map`

A JavaScript `Map`: entries under distinct keys, in the order in which the keys were first
set.  Setting a key again changes its value where it stands.
-/

namespace RateLimiter.Javascript

structure JsMap (κ ν : Type) where
  entries : List (κ × ν)
  nodup : (entries.map Prod.fst).Nodup

namespace JsMap

variable {κ ν : Type}

/-- `new Map()`. -/
def empty : JsMap κ ν := ⟨[], List.nodup_nil⟩

def size (m : JsMap κ ν) : Nat := m.entries.length

variable [DecidableEq κ]

def get (k : κ) (m : JsMap κ ν) : Option ν :=
  (m.entries.find? fun e => e.1 = k).map Prod.snd

def has (k : κ) (m : JsMap κ ν) : Bool := (m.get k).isSome

/-- The entries with the value under `k` replaced. -/
def replaced (k : κ) (v : ν) (m : JsMap κ ν) : List (κ × ν) :=
  m.entries.map fun e => if e.1 = k then (k, v) else e

theorem keys_replaced (k : κ) (v : ν) (m : JsMap κ ν) :
    (m.replaced k v).map Prod.fst = m.entries.map Prod.fst := by
  unfold replaced
  rw [List.map_map]
  apply List.map_congr_left
  intro e _
  by_cases hk : e.1 = k <;> simp [hk]

/-- What `get` finds are the entries. -/
theorem get_eq_some {k : κ} {v : ν} {m : JsMap κ ν} :
    m.get k = some v ↔ (k, v) ∈ m.entries := by
  obtain ⟨entries, hnodup⟩ := m
  unfold get
  show (entries.find? fun e => decide (e.1 = k)).map Prod.snd = some v ↔ (k, v) ∈ entries
  induction entries with
  | nil => simp
  | cons e entries ih =>
      obtain ⟨hfresh, hrest⟩ := List.nodup_cons.mp hnodup
      by_cases hk : e.1 = k
      · have habsent : (k, v) ∉ entries := by
          intro hmem
          exact hfresh (hk ▸ List.mem_map_of_mem (f := Prod.fst) hmem)
        rw [List.find?_cons_of_pos (by simpa using hk), List.mem_cons,
          or_iff_left habsent, Option.map_some, Option.some.injEq, Prod.ext_iff]
        constructor
        · intro hv
          exact ⟨hk.symm, hv.symm⟩
        · intro hv
          exact hv.2.symm
      · rw [List.find?_cons_of_neg (by simpa using hk), ih hrest, List.mem_cons]
        constructor
        · exact Or.inr
        · rintro (hhead | hmem)
          · exact absurd (congrArg Prod.fst hhead).symm hk
          · exact hmem

theorem get_eq_none {k : κ} {m : JsMap κ ν} :
    m.get k = none ↔ k ∉ m.entries.map Prod.fst := by
  rw [Option.eq_none_iff_forall_ne_some, List.mem_map]
  constructor
  · rintro h ⟨e, hmem, rfl⟩
    exact h e.2 (get_eq_some.mpr hmem)
  · intro h v hv
    exact h ⟨(k, v), get_eq_some.mp hv, rfl⟩

def set (k : κ) (v : ν) (m : JsMap κ ν) : JsMap κ ν where
  entries := if m.has k then m.replaced k v else m.entries ++ [(k, v)]
  nodup := by
    split
    next => exact (m.keys_replaced k v).symm ▸ m.nodup
    next hnew =>
      have habsent : m.get k = none := by simpa [has] using hnew
      rw [List.map_append]
      refine m.nodup.append (List.nodup_singleton _) ?_
      intro x hx hsingle
      obtain rfl := List.mem_singleton.mp hsingle
      exact get_eq_none.mp habsent hx

def delete (k : κ) (m : JsMap κ ν) : JsMap κ ν where
  entries := m.entries.filter fun e => e.1 ≠ k
  nodup := m.nodup.sublist ((List.filter_sublist).map Prod.fst)

@[simp] theorem get_empty (k : κ) : (empty : JsMap κ ν).get k = none := rfl

@[simp] theorem get_delete (k : κ) (m : JsMap κ ν) : (m.delete k).get k = none := by
  rw [get_eq_none]
  intro hmem
  obtain ⟨e, he, hk⟩ := List.mem_map.mp hmem
  have hne := (List.mem_filter.mp he).2
  simp [hk] at hne

theorem get_delete_of_ne {k k' : κ} (h : k' ≠ k) (m : JsMap κ ν) :
    (m.delete k).get k' = m.get k' := by
  refine Option.ext fun v => ?_
  rw [get_eq_some, get_eq_some]
  show (k', v) ∈ m.entries.filter _ ↔ _
  rw [List.mem_filter]
  exact and_iff_left (by simpa using h)

@[simp] theorem get_set (k : κ) (v : ν) (m : JsMap κ ν) : (m.set k v).get k = some v := by
  rw [get_eq_some]
  show (k, v) ∈ if m.has k then m.replaced k v else m.entries ++ [(k, v)]
  split
  next hhas =>
    obtain ⟨w, hw⟩ := Option.isSome_iff_exists.mp hhas
    exact List.mem_map.mpr ⟨(k, w), get_eq_some.mp hw, if_pos rfl⟩
  next => exact List.mem_append_right _ List.mem_cons_self

theorem get_set_of_ne {k k' : κ} (h : k' ≠ k) (v : ν) (m : JsMap κ ν) :
    (m.set k v).get k' = m.get k' := by
  refine Option.ext fun w => ?_
  rw [get_eq_some, get_eq_some]
  show (k', w) ∈ (if m.has k then m.replaced k v else m.entries ++ [(k, v)]) ↔ _
  split
  next =>
    unfold replaced
    rw [List.mem_map]
    constructor
    · rintro ⟨e, he, hsame⟩
      by_cases hk : e.1 = k
      · rw [if_pos hk] at hsame
        exact absurd (congrArg Prod.fst hsame).symm h
      · rw [if_neg hk] at hsame
        exact hsame ▸ he
    · intro hmem
      exact ⟨(k', w), hmem, if_neg h⟩
  next =>
    rw [List.mem_append, List.mem_singleton]
    apply or_iff_left
    intro hsame
    exact h (congrArg Prod.fst hsame)

/-- Setting a key adds at most one entry. -/
theorem size_set_le (k : κ) (v : ν) (m : JsMap κ ν) : (m.set k v).size ≤ m.size + 1 := by
  show (if m.has k then m.replaced k v else m.entries ++ [(k, v)]).length ≤ m.entries.length + 1
  split
  · unfold replaced
    rw [List.length_map]
    exact Nat.le_succ _
  · rw [List.length_append]
    exact Nat.le_refl _

end JsMap

end RateLimiter.Javascript
