import Mathlib.Data.List.Basic
import Mathlib.Data.List.Nodup

/-!
# Statements with placeholders

`INSERT` and `UPDATE` statements whose values are bound to numbered placeholders: what a
table does with one, and how a program that goes through its fields one by one builds one.
-/

namespace RateLimiter.Foundations

/-! ## Tables -/

/-- A table: its columns, how a column takes a value, or refuses it, which rows a key value
selects, and what has to hold of all rows together. -/
structure TableDefinition (κ ν ρ : Type) where
  hasColumn : κ → Bool
  write : κ → ν → ρ → Option ρ
  isKey : ν → ρ → Bool
  Constraint : List ρ → Prop
  decidable : DecidablePred Constraint
  sublist : ∀ {rows rows'}, rows.Sublist rows' → Constraint rows' → Constraint rows

attribute [instance] TableDefinition.decidable

/-- The rows of a table, which keep its constraints. -/
structure Table {κ ν ρ : Type} (D : TableDefinition κ ν ρ) where
  rows : List ρ
  holds : D.Constraint rows

section Statements

variable {κ ν ρ : Type}

/-- The value of a placeholder; `$1` is the first. -/
def placeholder (params : List ν) : Nat → Option ν
  | 0 => none
  | n + 1 => params[n]?

/-- `INSERT INTO … (columns) VALUES ($1, $2, …)`. -/
structure InsertStatement (κ ν : Type) where
  columns : List κ
  params : List ν

/-- `UPDATE … SET column = $n, … WHERE key = $k`. -/
structure UpdateStatement (κ ν : Type) where
  assignments : List (κ × Nat)
  key : Nat
  params : List ν

namespace TableDefinition

variable (D : TableDefinition κ ν ρ)

/-- A row with fields set, `none` when a column refuses its value. -/
def setFields : List (κ × ν) → ρ → Option ρ
  | [], row => some row
  | (column, value) :: fields, row => (D.write column value row).bind (setFields fields)

/-- A row with a field set that may be missing. -/
def writeGiven (column : κ) (value : Option ν) (row : ρ) : Option ρ :=
  match value with
  | some value => D.write column value row
  | none => some row

/-- A row after the assignments of a statement. -/
def assign (params : List ν) : List (κ × Nat) → ρ → Option ρ
  | [], row => some row
  | (column, n) :: assignments, row =>
      match placeholder params n with
      | some value => (D.write column value row).bind (assign params assignments)
      | none => none

/-- The rows under a key. -/
def select (key : ν) (t : Table D) : List ρ := t.rows.filter (D.isKey key)

/-- Change the rows under a key, and check the constraints; with the changed rows. -/
def changeWhere (change : ρ → Option ρ) (key : ν) (t : Table D) : Option (Table D × List ρ) :=
  match t.rows.mapM fun row => if D.isKey key row then change row else some row,
    (D.select key t).mapM change with
  | some rows, some changed =>
      if h : D.Constraint rows then some (⟨rows, h⟩, changed) else none
  | _, _ => none

/-- `DELETE FROM … WHERE key = $1`. -/
def delete (key : ν) (t : Table D) : Table D where
  rows := t.rows.filter fun row => !D.isKey key row
  holds := D.sublist List.filter_sublist t.holds

variable [DecidableEq κ]

/-- Run an `INSERT … RETURNING *`; `blank` has the defaults of the other columns. -/
def insert (blank : ρ) (s : InsertStatement κ ν) (t : Table D) : Option (Table D × ρ) :=
  if s.columns.all D.hasColumn ∧ s.columns.Nodup ∧ s.columns.length = s.params.length then
    match D.setFields (s.columns.zip s.params) blank with
    | some row =>
        if h : D.Constraint (t.rows ++ [row]) then some (⟨t.rows ++ [row], h⟩, row) else none
    | none => none
  else none

/-- Run an `UPDATE … RETURNING *`: an unknown column fails it, and one that is assigned
twice.  A trigger sees each row before it is stored. -/
def update (trigger : ρ → ρ) (s : UpdateStatement κ ν) (t : Table D) :
    Option (Table D × List ρ) :=
  if (s.assignments.map Prod.fst).all D.hasColumn ∧ (s.assignments.map Prod.fst).Nodup then
    match placeholder s.params s.key with
    | some key =>
        D.changeWhere (fun row => (D.assign s.params s.assignments row).map trigger) key t
    | none => none
  else none

end TableDefinition

/-! ## The rows of a change -/

theorem mapM_eq_some_iff {α β : Type} {f : α → Option β} {l : List α} {l' : List β} :
    l.mapM f = some l' ↔ List.Forall₂ (fun a b => f a = some b) l l' := by
  induction l generalizing l' with
  | nil => cases l' <;> simp
  | cons a l ih =>
      rw [List.mapM_cons]
      cases hhead : f a with
      | none =>
          refine iff_of_false (fun h => by cases h) ?_
          rintro (_ | ⟨hb, -⟩)
          exact absurd (hhead.symm.trans hb) (Option.some_ne_none _).symm
      | some b =>
          show ((l.mapM f).bind fun bs => some (b :: bs)) = some l' ↔ _
          rw [Option.bind_eq_some_iff]
          constructor
          · rintro ⟨bs, hbs, hl⟩
            obtain rfl := Option.some.inj hl
            exact .cons hhead (ih.mp hbs)
          · rintro (_ | ⟨hb, hrest⟩)
            obtain rfl := Option.some.inj (hhead.symm.trans hb)
            exact ⟨_, ih.mpr hrest, rfl⟩

variable {D : TableDefinition κ ν ρ}

/-- What a change leaves: every row under the key is changed, every other one is as it was,
and the changed ones are answered. -/
theorem changeWhere_eq_some {change : ρ → Option ρ} {key : ν} {t t' : Table D}
    {changed : List ρ} (h : D.changeWhere change key t = some (t', changed)) :
    List.Forall₂ (fun row row' =>
        if D.isKey key row then change row = some row' else row' = row) t.rows t'.rows ∧
      List.Forall₂ (fun row row' => change row = some row')
        (D.select key t) changed := by
  unfold TableDefinition.changeWhere at h
  split at h
  next rows changed' hrows hchanged =>
    split at h
    next =>
      obtain ⟨rfl, rfl⟩ := Prod.mk.inj (Option.some.inj h)
      refine ⟨(mapM_eq_some_iff.mp hrows).imp ?_, mapM_eq_some_iff.mp hchanged⟩
      intro row row' hrow
      split at hrow
      next hkey => rwa [if_pos hkey]
      next hkey =>
        rw [if_neg hkey]
        exact (Option.some.inj hrow).symm
    next => cases h
  next => cases h

/-- A change that no row refuses fails only on the constraints. -/
theorem changeWhere_of_total {change : ρ → Option ρ} {f : ρ → ρ} (key : ν) (t : Table D)
    (htotal : ∀ row, change row = some (f row)) :
    D.changeWhere change key t =
      if h : D.Constraint (t.rows.map fun row => if D.isKey key row then f row else row) then
        some (⟨_, h⟩, (D.select key t).map f)
      else none := by
  have hmap : ∀ (g : ρ → Option ρ) (f : ρ → ρ) (rows : List ρ), (∀ row, g row = some (f row)) →
      rows.mapM g = some (rows.map f) := by
    intro g f rows hg
    rw [mapM_eq_some_iff, List.forall₂_map_right_iff]
    exact List.forall₂_same.mpr fun row _ => hg row
  unfold TableDefinition.changeWhere
  rw [hmap _ (fun row => if D.isKey key row then f row else row) t.rows, hmap _ f _ htotal]
  intro row
  split
  · exact htotal row
  · rfl

/-! ## Numbered fields -/

/-- The statement that a list of fields and a key mean: the `i`-th field is bound to `$i`,
the key to the last placeholder. -/
def UpdateStatement.numbered (fields : List (κ × ν)) (key : ν) : UpdateStatement κ ν where
  assignments := fields.mapIdx fun i field => (field.1, i + 1)
  key := fields.length + 1
  params := fields.map Prod.snd ++ [key]

/-- The lists a program keeps while it goes through its fields. -/
structure SetClause (κ ν : Type) where
  updates : List (κ × Nat)
  values : List ν

namespace SetClause

def empty : SetClause κ ν := ⟨[], []⟩

def push (column : κ) (n : Nat) (value : ν) (c : SetClause κ ν) : SetClause κ ν :=
  ⟨c.updates ++ [(column, n)], c.values ++ [value]⟩

/-- The lists after some fields. -/
def of (fields : List (κ × ν)) : SetClause κ ν :=
  ⟨fields.mapIdx fun i field => (field.1, i + 1), fields.map Prod.snd⟩

@[simp] theorem of_nil : (of [] : SetClause κ ν) = empty := rfl

theorem push_of (fields : List (κ × ν)) (column : κ) (value : ν) :
    (of fields).push column (fields.length + 1) value = of (fields ++ [(column, value)]) := by
  unfold push of
  rw [List.mapIdx_concat, List.map_append]
  rfl

@[simp] theorem length_values_of (fields : List (κ × ν)) :
    (of fields).values.length = fields.length :=
  List.length_map _

@[simp] theorem updates_of_eq_nil_iff {fields : List (κ × ν)} :
    (of fields).updates = [] ↔ fields = [] := by
  unfold of
  rw [List.mapIdx_eq_nil_iff]

/-- A field that may be missing. -/
def given (column : κ) (value : Option ν) : List (κ × ν) := value.toList.map (column, ·)

/-- `if (value !== undefined)`: push a field under the running number and count on. -/
def pushGiven (column : κ) (value : Option ν) (c : SetClause κ ν × Nat) : SetClause κ ν × Nat :=
  match value with
  | some value => (c.1.push column c.2 value, c.2 + 1)
  | none => c

theorem pushGiven_of (fields : List (κ × ν)) (column : κ) (value : Option ν) :
    pushGiven column value (of fields, fields.length + 1) =
      (of (fields ++ given column value), (fields ++ given column value).length + 1) := by
  cases value with
  | none =>
      show (of fields, fields.length + 1) = (of (fields ++ []), (fields ++ []).length + 1)
      rw [List.append_nil]
  | some value =>
      show ((of fields).push column (fields.length + 1) value, fields.length + 1 + 1) = _
      rw [push_of, List.length_append]
      rfl

/-- The fields of a list that are not missing. -/
def present (fields : List (κ × Option ν)) : List (κ × ν) :=
  fields.flatMap fun field => given field.1 field.2

theorem present_eq_nil_iff {fields : List (κ × Option ν)} :
    present fields = [] ↔ ∀ field ∈ fields, field.2 = none := by
  unfold present
  rw [List.flatMap_eq_nil_iff]
  refine forall₂_congr fun field _ => ?_
  cases field.2 <;> simp [given]

theorem present_sublist (fields : List (κ × Option ν)) :
    ((present fields).map Prod.fst).Sublist (fields.map Prod.fst) := by
  induction fields with
  | nil => exact .slnil
  | cons field fields ih =>
      have hhead : ((given field.1 field.2).map Prod.fst).Sublist [field.1] := by
        cases field.2 with
        | none => exact List.nil_sublist _
        | some value => exact .refl _
      show ((given field.1 field.2 ++ present fields).map Prod.fst).Sublist
        ([field.1] ++ fields.map Prod.fst)
      rw [List.map_append]
      exact hhead.append ih

/-- Going through a list of fields, the running number keeps up with the lists. -/
theorem foldl_pushGiven (fields : List (κ × Option ν)) :
    fields.foldl (fun c field => pushGiven field.1 field.2 c) (empty, 1) =
      (of (present fields), (present fields).length + 1) := by
  suffices hfrom : ∀ before : List (κ × ν),
      fields.foldl (fun c field => pushGiven field.1 field.2 c) (of before, before.length + 1) =
        (of (before ++ present fields), (before ++ present fields).length + 1) from hfrom []
  induction fields with
  | nil =>
      intro before
      show _ = (of (before ++ []), (before ++ []).length + 1)
      rw [List.append_nil]
      rfl
  | cons field fields ih =>
      intro before
      rw [List.foldl_cons, pushGiven_of, ih, List.append_assoc]
      rfl

/-- The statement made from the lists, with the key bound last. -/
def statement (c : SetClause κ ν) (key : ν) (n : Nat) : UpdateStatement κ ν :=
  ⟨c.updates, n, c.values ++ [key]⟩

theorem statement_of (fields : List (κ × ν)) (key : ν) :
    (of fields).statement key (fields.length + 1) = .numbered fields key :=
  rfl

end SetClause

/-! ## What a numbered statement does -/

theorem fst_numbered (fields : List (κ × ν)) (key : ν) :
    (UpdateStatement.numbered fields key).assignments.map Prod.fst = fields.map Prod.fst := by
  refine List.ext_getElem (by simp [UpdateStatement.numbered]) fun i hi hi' => ?_
  simp [UpdateStatement.numbered]

variable (D)

variable {D}

/-- A field that may be missing, in front of others. -/
theorem setFields_given (column : κ) (value : Option ν) (fields : List (κ × ν)) (row : ρ) :
    D.setFields (SetClause.given column value ++ fields) row =
      (D.writeGiven column value row).bind (D.setFields fields) := by
  cases value <;> rfl

variable (D)

/-- Numbered assignments set the fields, wherever their values start among those bound. -/
theorem assign_mapIdx (bound fields : List (κ × ν)) (rest : List ν) (row : ρ) :
    D.assign (bound.map Prod.snd ++ (fields.map Prod.snd ++ rest))
        (fields.mapIdx fun i field => (field.1, bound.length + i + 1)) row =
      D.setFields fields row := by
  induction fields generalizing bound row with
  | nil => rfl
  | cons field fields ih =>
      obtain ⟨column, value⟩ := field
      have hbound : placeholder
          (bound.map Prod.snd ++ (((column, value) :: fields).map Prod.snd ++ rest))
            (bound.length + 0 + 1) = some value := by
        simp [placeholder]
      have hrest := ih (bound ++ [(column, value)])
      simp only [List.map_append, List.map_cons, List.map_nil, List.append_assoc,
        List.singleton_append, List.length_append, List.length_singleton] at hrest
      rw [List.mapIdx_cons]
      unfold TableDefinition.assign TableDefinition.setFields
      rw [hbound]
      dsimp only
      congr 1
      funext row
      rw [← hrest row]
      congr 2
      funext i field
      congr 1
      omega

variable [DecidableEq κ]

/-- A numbered statement over columns of the table changes the rows under its key. -/
theorem update_numbered {fields : List (κ × ν)}
    (hcolumns : ∀ field ∈ fields, D.hasColumn field.1 = true)
    (hnodup : (fields.map Prod.fst).Nodup) (trigger : ρ → ρ) (key : ν) (t : Table D) :
    D.update trigger (.numbered fields key) t =
      D.changeWhere (fun row => (D.setFields fields row).map trigger) key t := by
  have hassign : D.assign (fields.map Prod.snd ++ [key])
      (fields.mapIdx fun i (field : κ × ν) => (field.1, i + 1)) = D.setFields fields := by
    funext row
    have hrow := assign_mapIdx D [] fields [key] row
    simpa using hrow
  have hkey : placeholder (fields.map Prod.snd ++ [key]) (fields.length + 1) = some key := by
    simp [placeholder]
  unfold TableDefinition.update
  rw [fst_numbered, if_pos ⟨by simpa using hcolumns, hnodup⟩]
  dsimp only [UpdateStatement.numbered]
  rw [hkey]
  dsimp only
  rw [hassign]

end Statements

end RateLimiter.Foundations
