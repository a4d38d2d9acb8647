import Mathlib.Logic.Function.Basic
import RateLimiter.Foundations.Statements
import RateLimiter.Javascript.Json

/-!
# Policy updates

`update` of the policy repository builds its statement from the names in a request body,
which it looks up in a plain object.  This module says when only the names of that object
itself find their way into the statement.
-/

namespace RateLimiter.Control

open RateLimiter.Foundations RateLimiter.Javascript

/-! ## Bodies -/

/-- A body, in the order of `Object.entries`; `none` is `undefined`. -/
abbrev PolicyBody := JsMap JsString (Option Json)

section Schema

/-- A number as it is meant, `none` for an infinity. -/
def numberValue : JsonNumber → Option Rat
  | .zero _ => some 0
  | .finite negative d =>
      some ((if negative then -1 else 1) * (Nat.ofDigits 10 (d.digits.reverse.map Fin.val) : Rat) *
        10 ^ (d.point - d.digits.length))
  | .infinity _ => none

/-- The largest number that the schema library does not call unsafe. -/
def maxSafe : Rat := 9007199254740991

/-- `Joi.number()`, where a string is converted, with the test for its value. -/
def numberField (numeric : JsString → Option Rat) (test : Rat → Bool) (value : Json) : Bool :=
  let number := match value with
    | .number x => numberValue x
    | .string text => numeric text
    | _ => none
  number.any fun q => -maxSafe ≤ q ∧ q ≤ maxSafe ∧ test q

/-- `Joi.string().min(1).max(255)`. -/
def patternField : Json → Bool
  | .string text => 1 ≤ text.length ∧ text.length ≤ 255
  | _ => false

/-- A letter of the basic alphabet in lower case. -/
def lowerCase (c : CodeUnit) : CodeUnit :=
  if 65 ≤ c.val ∧ c.val ≤ 90 then codeUnit (c.val + 32) else c

/-- `Joi.boolean()`. -/
def booleanField : Json → Bool
  | .bool _ => true
  | .string text => text.map lowerCase = js "true" ∨ text.map lowerCase = js "false"
  | _ => false

/-- An integer within bounds. -/
def integerTest (min : Option Rat) (max : Option Rat) (q : Rat) : Bool :=
  q.den = 1 ∧ (∀ m ∈ min, m ≤ q) ∧ ∀ m ∈ max, q ≤ m

/-- The checks of `policySchema`, by name. -/
def policyChecks (numeric : JsString → Option Rat) : List (JsString × (Json → Bool)) :=
  [(js "tenantPattern", patternField),
    (js "modelPattern", patternField),
    (js "tokensPerMinute", numberField numeric (integerTest (some 1) none)),
    (js "requestsPerMinute", numberField numeric (integerTest (some 1) none)),
    (js "maxConcurrency", numberField numeric (integerTest (some 1) (some 100000))),
    (js "maxQueueDepth", numberField numeric (integerTest (some 0) (some 1000000))),
    (js "leaseSeconds", numberField numeric (integerTest (some 1) (some 3600))),
    (js "reservationMode", fun value => match value with
      | .string text => text = js "worst_case" ∨ text = js "adaptive"
      | _ => false),
    (js "reservationSafetyFactor", numberField numeric fun q => 1 ≤ q ∧ q ≤ 10),
    (js "priority", numberField numeric (integerTest none none)),
    (js "enabled", booleanField)]

/-- What the route lets through: the members of other names are not looked at. -/
def policySchema (numeric : JsString → Option Rat) (body : PolicyBody) : Bool :=
  (policyChecks numeric).all fun check =>
    match body.get check.1 with
    | some (some value) => check.2 value
    | _ => true

end Schema

/-! ## The statement -/

/-- `COLUMN`. -/
def columnOf : JsMap JsString JsString where
  entries :=
    [(js "tenantPattern", js "tenant_pattern"),
      (js "modelPattern", js "model_pattern"),
      (js "tokensPerMinute", js "tokens_per_minute"),
      (js "requestsPerMinute", js "requests_per_minute"),
      (js "maxConcurrency", js "max_concurrency"),
      (js "maxQueueDepth", js "max_queue_depth"),
      (js "leaseSeconds", js "lease_seconds"),
      (js "reservationMode", js "reservation_mode"),
      (js "reservationSafetyFactor", js "reservation_safety_factor"),
      (js "priority", js "priority"),
      (js "enabled", js "enabled")]
  nodup := by decide +kernel

/-- One turn of the loop of `update`.  What `COLUMN` inherits counts as a column. -/
def updateStep (lists : SetClause JsString Json) (entry : JsString × Option Json) :
    SetClause JsString Json :=
  match entry.2 with
  | none => lists
  | some value =>
      match columnOf.member entry.1 with
      | .own col => lists.push col (lists.values.length + 1) value
      | .inherited col => lists.push col (lists.values.length + 1) value
      | .undefined => lists

/-- The statement of `update`, `none` when there is nothing to assign. -/
def updateStatement (id : JsString) (input : PolicyBody) :
    Option (UpdateStatement JsString Json) :=
  let lists := input.entries.foldl updateStep .empty
  if lists.updates = [] then none
  else some (lists.statement (.string id) (lists.values.length + 1))

/-- The columns of `llm_admission_policies`. -/
def policyColumns : List JsString :=
  js "id" :: columnOf.entries.map Prod.snd ++ [js "created_at", js "updated_at"]

section Update

variable {ρ : Type} (D : TableDefinition JsString Json ρ)

/-- `update`: without anything to assign the row is only read. -/
def policyUpdate (trigger : ρ → ρ) (id : JsString) (input : PolicyBody) (t : Table D) :
    Option (Table D × Option ρ) :=
  match updateStatement id input with
  | none => some (t, (D.select (.string id) t).head?)
  | some s => (D.update trigger s t).map fun answer => (answer.1, answer.2.head?)

end Update

/-! ## What a body should assign -/

/-- The known fields of a body, with their columns. -/
def knownFields (input : PolicyBody) : List (JsString × Json) :=
  input.entries.filterMap fun entry =>
    entry.2.bind fun value => (columnOf.get entry.1).map (·, value)

/-- A body without the members of other names. -/
def onlyKnown (input : PolicyBody) : PolicyBody where
  entries := input.entries.filter fun entry => (columnOf.get entry.1).isSome
  nodup := input.nodup.sublist (List.filter_sublist.map _)

/-- What the loop assigns for an entry. -/
def assigned (entry : JsString × Option Json) : Option (JsString × Json) :=
  entry.2.bind fun value =>
    match columnOf.member entry.1 with
    | .own col => some (col, value)
    | .inherited col => some (col, value)
    | .undefined => none

theorem updateStep_of (fields : List (JsString × Json)) (entry : JsString × Option Json) :
    updateStep (.of fields) entry = .of (fields ++ (assigned entry).toList) := by
  have hpush : ∀ col value,
      (SetClause.of fields).push col ((SetClause.of fields).values.length + 1) value =
        .of (fields ++ [(col, value)]) := by
    intro col value
    rw [SetClause.length_values_of]
    exact SetClause.push_of fields col value
  unfold updateStep assigned
  cases entry.2 with
  | none => simp
  | some value =>
      cases columnOf.member entry.1 with
      | own col => exact hpush col value
      | inherited col => exact hpush col value
      | undefined => simp

/-- The loop numbers what it assigns. -/
theorem foldl_updateStep (fields : List (JsString × Json))
    (entries : List (JsString × Option Json)) :
    entries.foldl updateStep (.of fields) = .of (fields ++ entries.filterMap assigned) := by
  induction entries generalizing fields with
  | nil => simp
  | cons entry entries ih =>
      rw [List.foldl_cons, updateStep_of, ih, List.append_assoc]
      cases hassigned : assigned entry with
      | none => simp [hassigned]
      | some field => simp [hassigned]

theorem updateStatement_eq (id : JsString) (input : PolicyBody) :
    updateStatement id input =
      if input.entries.filterMap assigned = [] then none
      else some (.numbered (input.entries.filterMap assigned) (.string id)) := by
  have hlists : input.entries.foldl updateStep .empty =
      .of (input.entries.filterMap assigned) :=
    foldl_updateStep [] input.entries
  unfold updateStatement
  dsimp only
  rw [hlists, SetClause.length_values_of, SetClause.statement_of]
  exact if_congr SetClause.updates_of_eq_nil_iff rfl rfl

/-! ## Names that every object has -/

/-- No name of `COLUMN` is one that every object has. -/
theorem inheritedText_of_known {name col : JsString} (h : columnOf.get name = some col) :
    inheritedText name = none := by
  have hall : columnOf.entries.all (fun e => inheritedText e.1 = none) = true := by
    decide +kernel
  simpa using List.all_eq_true.mp hall _ (JsMap.get_eq_some.mp h)

/-- What every object has under a name is no column. -/
theorem inheritedText_not_column {name text : JsString} (h : inheritedText name = some text) :
    text ∉ policyColumns := by
  have hmethods : objectMethods.all
      (fun name => decide (nativeCode name ∉ policyColumns)) = true := by
    decide +kernel
  unfold inheritedText at h
  split at h
  next =>
    obtain rfl := Option.some.inj h
    decide +kernel
  next =>
    split at h
    next =>
      obtain rfl := Option.some.inj h
      decide +kernel
    next =>
      split at h
      next hname =>
        obtain rfl := Option.some.inj h
        simpa using List.all_eq_true.mp hmethods name hname
      next => cases h

/-- The body has no member under a name that every object has. -/
def NoInheritedName (input : PolicyBody) : Prop :=
  ∀ entry ∈ input.entries, entry.2 ≠ none → inheritedText entry.1 = none

theorem assigned_of_own {entry : JsString × Option Json}
    (h : entry.2 ≠ none → inheritedText entry.1 = none) :
    assigned entry = entry.2.bind fun value => (columnOf.get entry.1).map (·, value) := by
  unfold assigned JsMap.member
  cases hvalue : entry.2 with
  | none => rfl
  | some value =>
      rw [h (by simp [hvalue])]
      cases columnOf.get entry.1 <;> rfl

/-- Without such a member the loop assigns the known fields. -/
theorem NoInheritedName.assigned_eq {input : PolicyBody} (h : NoInheritedName input) :
    input.entries.filterMap assigned = knownFields input :=
  List.filterMap_congr fun entry hentry => assigned_of_own (h entry hentry)

theorem mem_knownFields {input : PolicyBody} {field : JsString × Json}
    (h : field ∈ knownFields input) : field.1 ∈ columnOf.entries.map Prod.snd := by
  obtain ⟨⟨name, value⟩, -, hfield⟩ := List.mem_filterMap.mp h
  obtain ⟨value, -, hfield⟩ := Option.bind_eq_some_iff.mp hfield
  obtain ⟨col, hcol, rfl⟩ := Option.map_eq_some_iff.mp hfield
  exact List.mem_map_of_mem (f := Prod.snd) (JsMap.get_eq_some.mp hcol)

theorem mem_policyColumns {input : PolicyBody} {field : JsString × Json}
    (h : field ∈ knownFields input) : field.1 ∈ policyColumns :=
  List.mem_cons_of_mem _ (List.mem_append_left _ (mem_knownFields h))

theorem columnOf_injective {name name' col : JsString} (h : columnOf.get name = some col)
    (h' : columnOf.get name' = some col) : name = name' := by
  have hnodup : (columnOf.entries.map Prod.snd).Nodup := by decide +kernel
  have hsame := List.inj_on_of_nodup_map hnodup (JsMap.get_eq_some.mp h)
    (JsMap.get_eq_some.mp h') rfl
  exact congrArg Prod.fst hsame

/-- No column is assigned twice. -/
theorem nodup_knownFields (input : PolicyBody) : ((knownFields input).map Prod.fst).Nodup := by
  unfold knownFields
  rw [List.Nodup, List.pairwise_map, List.pairwise_filterMap]
  refine (List.pairwise_map.mp input.nodup).imp ?_
  rintro ⟨name, value⟩ ⟨name', value'⟩ hne field hfield field' hfield' hsame
  obtain ⟨value, -, hfield⟩ := Option.bind_eq_some_iff.mp hfield
  obtain ⟨col, hcol, rfl⟩ := Option.map_eq_some_iff.mp hfield
  obtain ⟨value', -, hfield'⟩ := Option.bind_eq_some_iff.mp hfield'
  obtain ⟨col', hcol', rfl⟩ := Option.map_eq_some_iff.mp hfield'
  obtain rfl : col = col' := hsame
  exact hne (columnOf_injective hcol hcol')

theorem knownFields_onlyKnown (input : PolicyBody) :
    knownFields (onlyKnown input) = knownFields input := by
  unfold knownFields onlyKnown
  rw [List.filterMap_filter]
  refine List.filterMap_congr fun entry _ => ?_
  cases columnOf.get entry.1 with
  | some col => simp
  | none => cases entry.2 <;> simp

/-! ## The allowlist -/

/-- A table of policies, whatever its columns hold: a row is what it has in each column. -/
def policyTable {ν : Type} [DecidableEq ν] (store : JsString → Json → Option ν)
    (Constraint : List (JsString → ν) → Prop) (decidable : DecidablePred Constraint)
    (sublist : ∀ {rows rows'}, rows.Sublist rows' → Constraint rows' → Constraint rows) :
    TableDefinition JsString Json (JsString → ν) where
  hasColumn column := column ∈ policyColumns
  write column value row := (store column value).map fun x => Function.update row column x
  isKey value row := store (js "id") value = some (row (js "id"))
  Constraint := Constraint
  decidable := decidable
  sublist := sublist

/-- A row before and after an update of the row `id`: the given fields have their values,
and nothing else has changed but the time that the trigger sets. -/
def Changed {ν : Type} (store : JsString → Json → Option ν) (id : JsString)
    (fields : List (JsString × Json)) (row row' : JsString → ν) : Prop :=
  (store (js "id") (.string id) = some (row (js "id")) →
    (∀ field ∈ fields, store field.1 field.2 = some (row' field.1)) ∧
      ∀ column, column ∉ fields.map Prod.fst → column ≠ js "updated_at" →
        row' column = row column) ∧
  (store (js "id") (.string id) ≠ some (row (js "id")) → row' = row)

/-- Any table with the columns of the policies has the known fields set under the id. -/
def SetsKnownFields (id : JsString) (input : PolicyBody) : Prop :=
  ∀ {ρ : Type} (D : TableDefinition JsString Json ρ),
    (∀ column, D.hasColumn column = decide (column ∈ policyColumns)) →
      ∀ (trigger : ρ → ρ) (t : Table D), policyUpdate D trigger id input t =
        if knownFields input = [] then some (t, (D.select (.string id) t).head?)
        else
          (D.changeWhere (fun row => (D.setFields (knownFields input) row).map trigger)
            (.string id) t).map fun answer => (answer.1, answer.2.head?)

/-- Whatever the columns hold, an update that succeeds changes the known fields and that
row alone. -/
def ChangesOnly (id : JsString) (input : PolicyBody) : Prop :=
  ∀ {ν : Type} [DecidableEq ν] (store : JsString → Json → Option ν)
    (Constraint : List (JsString → ν) → Prop) (decidable : DecidablePred Constraint)
    (sublist : ∀ {rows rows'}, rows.Sublist rows' → Constraint rows' → Constraint rows)
    (now : ν) (t t' : Table (policyTable store Constraint decidable sublist))
    (answer : Option (JsString → ν)),
      policyUpdate _ (fun row => Function.update row (js "updated_at") now) id input t =
          some (t', answer) →
        List.Forall₂ (Changed store id (knownFields input)) t.rows t'.rows

/-- What a body does to the policies is what its known fields say. -/
structure FromAllowlist (id : JsString) (input : PolicyBody) : Prop where
  built : updateStatement id input =
    if knownFields input = [] then none else some (.numbered (knownFields input) (.string id))
  unaffected : updateStatement id input = updateStatement id (onlyKnown input)
  executed : SetsKnownFields id input
  changed : ChangesOnly id input

section Rows

variable {ν : Type} [DecidableEq ν] {store : JsString → Json → Option ν}
  {Constraint : List (JsString → ν) → Prop} {decidable : DecidablePred Constraint}
  {sublist : ∀ {rows rows'}, rows.Sublist rows' → Constraint rows' → Constraint rows}

theorem isKey_policyTable {value : Json} {row : JsString → ν} :
    (policyTable store Constraint decidable sublist).isKey value row = true ↔
      store (js "id") value = some (row (js "id")) :=
  decide_eq_true_iff

/-- Setting fields changes their columns and no other. -/
theorem setFields_policyTable {fields : List (JsString × Json)}
    (hnodup : (fields.map Prod.fst).Nodup) {row row' : JsString → ν}
    (h : (policyTable store Constraint decidable sublist).setFields fields row = some row') :
    (∀ field ∈ fields, store field.1 field.2 = some (row' field.1)) ∧
      ∀ column, column ∉ fields.map Prod.fst → row' column = row column := by
  induction fields generalizing row with
  | nil =>
      obtain rfl := Option.some.inj h
      exact ⟨List.forall_mem_nil _, fun _ _ => rfl⟩
  | cons field fields ih =>
      obtain ⟨column, value⟩ := field
      obtain ⟨hfresh, hnodup⟩ := List.nodup_cons.mp hnodup
      obtain ⟨next, hnext, hrest⟩ := Option.bind_eq_some_iff.mp h
      obtain ⟨x, hx, rfl⟩ := Option.map_eq_some_iff.mp hnext
      obtain ⟨hset, hkept⟩ := ih hnodup hrest
      constructor
      · rintro field hfield
        rcases List.mem_cons.mp hfield with rfl | hfield
        · -- the later fields leave its column alone
          rw [hkept column hfresh, Function.update_self]
          exact hx
        · exact hset field hfield
      · intro other hother
        simp only [List.map_cons, List.mem_cons, not_or] at hother
        rw [hkept other hother.2, Function.update_of_ne hother.1]

end Rows

theorem updated_at_not_known {input : PolicyBody} {field : JsString × Json}
    (h : field ∈ knownFields input) : field.1 ≠ js "updated_at" := by
  have hcolumns : js "updated_at" ∉ columnOf.entries.map Prod.snd := by decide +kernel
  exact fun hsame => hcolumns (hsame ▸ mem_knownFields h)

theorem NoInheritedName.built {input : PolicyBody} (h : NoInheritedName input) (id : JsString) :
    updateStatement id input =
      if knownFields input = [] then none
      else some (.numbered (knownFields input) (.string id)) := by
  rw [updateStatement_eq, h.assigned_eq]

theorem NoInheritedName.setsKnownFields {input : PolicyBody} (h : NoInheritedName input)
    (id : JsString) : SetsKnownFields id input := by
  intro ρ D hcolumns trigger t
  have hknown : ∀ field ∈ knownFields input, D.hasColumn field.1 = true := by
    intro field hfield
    rw [hcolumns, decide_eq_true_eq]
    exact mem_policyColumns hfield
  unfold policyUpdate
  rw [h.built]
  split
  next s hnone =>
    split at hnone
    next hempty => rw [if_pos hempty]
    next => cases hnone
  next s hsome =>
    split at hsome
    next => cases hsome
    next hne =>
      obtain rfl := Option.some.inj hsome
      rw [if_neg hne, update_numbered D hknown (nodup_knownFields input)]

theorem NoInheritedName.changesOnly {input : PolicyBody} (h : NoInheritedName input)
    (id : JsString) : ChangesOnly id input := by
  intro ν _ store Constraint decidable sublist now t t' answer hupdate
  rw [h.setsKnownFields id _ fun _ => rfl] at hupdate
  split at hupdate
  next hempty =>
    obtain ⟨rfl, -⟩ := Prod.mk.inj (Option.some.inj hupdate)
    rw [hempty]
    exact List.forall₂_same.mpr fun row _ =>
      ⟨fun _ => ⟨List.forall_mem_nil _, fun _ _ _ => rfl⟩, fun _ => rfl⟩
  next =>
    obtain ⟨⟨t'', changed⟩, hchange, hanswer⟩ := Option.map_eq_some_iff.mp hupdate
    obtain ⟨rfl, -⟩ := Prod.mk.inj hanswer
    refine (changeWhere_eq_some hchange).1.imp ?_
    intro row row' hrow
    constructor
    · intro hkey
      rw [if_pos (isKey_policyTable.mpr hkey)] at hrow
      obtain ⟨next, hnext, rfl⟩ := Option.map_eq_some_iff.mp hrow
      obtain ⟨hset, hkept⟩ := setFields_policyTable (nodup_knownFields input) hnext
      constructor
      · intro field hfield
        rw [Function.update_of_ne (updated_at_not_known hfield)]
        exact hset field hfield
      · intro column hother htime
        rw [Function.update_of_ne htime]
        exact hkept column hother
    · intro hkey
      rwa [if_neg (mt isKey_policyTable.mp hkey)] at hrow

theorem NoInheritedName.onlyKnown {input : PolicyBody} (h : NoInheritedName input) :
    NoInheritedName (onlyKnown input) :=
  fun entry hentry => h entry (List.mem_of_mem_filter hentry)

/-- A member under a name that every object has is assigned like a column, and is none. -/
theorem exists_assigned_of_inherited {input : PolicyBody} (h : ¬ NoInheritedName input) :
    ∃ field ∈ input.entries.filterMap assigned, field.1 ∉ policyColumns := by
  unfold NoInheritedName at h
  push Not at h
  obtain ⟨⟨name, value⟩, hentry, hdefined, hinherited⟩ := h
  obtain ⟨value, rfl⟩ := Option.ne_none_iff_exists'.mp hdefined
  obtain ⟨text, htext⟩ := Option.ne_none_iff_exists'.mp hinherited
  have hown : columnOf.get name = none := by
    cases hget : columnOf.get name with
    | none => rfl
    | some col => exact absurd (inheritedText_of_known hget) hinherited
  have hassigned : assigned (name, some value) = some (text, value) := by
    unfold assigned JsMap.member
    rw [hown, htext]
    rfl
  exact ⟨(text, value), List.mem_filterMap.mpr ⟨_, hentry, hassigned⟩,
    inheritedText_not_column htext⟩

theorem FromAllowlist.noInheritedName {id : JsString} {input : PolicyBody}
    (h : FromAllowlist id input) : NoInheritedName input := by
  by_contra hinherited
  obtain ⟨field, hfield, hunknown⟩ := exists_assigned_of_inherited hinherited
  have hbuilt := h.built
  rw [updateStatement_eq, if_neg (List.ne_nil_of_mem hfield)] at hbuilt
  split at hbuilt
  next => cases hbuilt
  next =>
    have hfirst := congrArg (fun s => s.assignments.map Prod.fst) (Option.some.inj hbuilt)
    rw [fst_numbered, fst_numbered] at hfirst
    have hcolumn : field.1 ∈ (knownFields input).map Prod.fst :=
      hfirst ▸ List.mem_map_of_mem (f := Prod.fst) hfield
    obtain ⟨known, hknown, hsame⟩ := List.mem_map.mp hcolumn
    exact hunknown (hsame ▸ mem_policyColumns hknown)

/-- **Policy updates.**  An update does what the known fields of its body say, exactly when
no member of the body has a name that every object has. -/
theorem policy_update_allowlist_iff (id : JsString) (input : PolicyBody) :
    FromAllowlist id input ↔ NoInheritedName input := by
  refine ⟨FromAllowlist.noInheritedName, fun h => ?_⟩
  refine
    { built := h.built id
      unaffected := ?_
      executed := h.setsKnownFields id
      changed := h.changesOnly id }
  rw [h.built, h.onlyKnown.built, knownFields_onlyKnown]

/-- `\x7bpriority: 5, constructor: 1\x7d`. -/
def constructorBody : PolicyBody where
  entries :=
    [(js "priority", some (.number (.finite false ⟨[5], 1, by decide, by decide, by decide⟩))),
      (js "constructor",
        some (.number (.finite false ⟨[1], 1, by decide, by decide, by decide⟩)))]
  nodup := by decide +kernel

/-- The member `constructor` of a body is assigned. -/
theorem constructor_is_assigned :
    ¬ ∀ (numeric : JsString → Option Rat) (id : JsString) (input : PolicyBody),
      policySchema numeric input = true → FromAllowlist id input := by
  intro h
  have hallowlist := h (fun _ => none) [] constructorBody (by decide +kernel)
  have hname := hallowlist.noInheritedName _ (List.mem_cons_of_mem _ (List.mem_singleton_self _))
    (Option.some_ne_none _)
  revert hname
  decide +kernel

end RateLimiter.Control
