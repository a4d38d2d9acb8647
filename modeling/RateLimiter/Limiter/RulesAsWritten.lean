import RateLimiter.Limiter.RuleStore

/-!
# Rules as they were written

What the table holds after a create or an update, against what the request says.
-/

namespace RateLimiter.Limiter

open RateLimiter.Foundations RateLimiter.Javascript RuleRepository

/-! ## Texts of enumerations -/

theorem algorithmOf_text (a : RateLimitAlgorithm) : algorithmOf a.text = some a := by
  cases a <;> decide +kernel

theorem dimensionTypeOf_text (type : DimensionType) :
    dimensionTypeOf type.text = some type := by
  cases type <;> decide +kernel

/-! ## Rows under an id -/

theorem filter_eq_singleton {α β : Type} [DecidableEq β] {f : α → β} {l : List α}
    (h : (l.map f).Nodup) {a : α} (ha : a ∈ l) : (l.filter fun b => f a = f b) = [a] := by
  induction l with
  | nil => exact absurd ha List.not_mem_nil
  | cons b l ih =>
      obtain ⟨hfresh, hnodup⟩ := List.nodup_cons.mp h
      rcases List.mem_cons.mp ha with rfl | ha
      · rw [List.filter_cons_of_pos (by simp), List.filter_eq_nil_iff.mpr]
        intro c hc hsame
        exact hfresh (List.mem_map.mpr ⟨c, hc, (of_decide_eq_true hsame).symm⟩)
      · have hne : f a ≠ f b := by
          intro hsame
          exact hfresh (List.mem_map.mpr ⟨a, ha, hsame⟩)
        rw [List.filter_cons_of_neg (by simpa using hne), ih hnodup ha]

theorem select_of_mem {t : RuleTable} {row : RuleRow} (h : row ∈ t.rows) :
    rateLimitRules.select (.text row.id) t = [row] := by
  have hkey : (fun other : RuleRow => decide (RuleValue.text row.id = .text other.id)) =
      fun other => decide (row.id = other.id) := by
    funext other
    simp
  show (t.rows.filter fun other => decide (RuleValue.text row.id = .text other.id)) = [row]
  rw [hkey]
  exact filter_eq_singleton t.holds.1 h

theorem findById_of_mem {t : RuleTable} {row : RuleRow} (h : row ∈ t.rows) :
    findById row.id t = some (mapRowToRule row) := by
  unfold findById
  rw [select_of_mem h]
  rfl

/-! ## A created row -/

/-- The row of a request. -/
def createdRow (id : JsString) (r : CreateRuleRequest) (now : Nat) : RuleRow where
  id := id
  name := r.name
  description := present r.description
  algorithm := r.algorithm
  limitValue := r.limit.toPNat'
  windowSeconds := r.windowSeconds.toPNat'
  dimensionType := r.dimensionType
  dimensionPattern := present r.dimensionPattern
  priority := (r.priority.filter (· ≠ 0)).getD 100
  enabled := r.enabled.getD true
  tags := some (r.tags.getD [])
  metadata := none
  createdAt := now
  updatedAt := now

/-- What the schema promises of the fields that a row checks. -/
theorem createRuleSchema_bounds {r : CreateRuleRequest} (h : createRuleSchema r = true) :
    1 ≤ r.limit ∧ 1 ≤ r.windowSeconds ∧ (∀ s ∈ r.description, s ≠ []) ∧
      ∀ s ∈ r.dimensionPattern, s ≠ [] := by
  unfold createRuleSchema at h
  simp only [Bool.and_eq_true, integerField, textField, decide_eq_true_eq,
    Option.all_eq_true] at h
  obtain ⟨⟨⟨⟨⟨⟨-, hdescription⟩, hlimit⟩, hwindow⟩, hpattern⟩, -⟩, -⟩ := h
  exact ⟨hlimit.1, hwindow.1, fun s hs => (hdescription s hs).1, fun s hs => (hpattern s hs).1⟩

theorem write_limit (row : RuleRow) {n : Nat} (hn : 1 ≤ n) :
    row.write .limitValue (count n) = some { row with limitValue := n.toPNat' } := by
  cases n with
  | zero => omega
  | succ n => rfl

theorem write_window (row : RuleRow) {n : Nat} (hn : 1 ≤ n) :
    row.write .windowSeconds (count n) = some { row with windowSeconds := n.toPNat' } := by
  cases n with
  | zero => omega
  | succ n => rfl

theorem write_algorithm (row : RuleRow) (a : RateLimitAlgorithm) :
    row.write .algorithm (.text a.text) = some { row with algorithm := a } := by
  show (algorithmOf a.text).map _ = _
  rw [algorithmOf_text]
  rfl

theorem write_dimensionType (row : RuleRow) (type : DimensionType) :
    row.write .dimensionType (.text type.text) = some { row with dimensionType := type } := by
  show (dimensionTypeOf type.text).map _ = _
  rw [dimensionTypeOf_text]
  rfl

theorem write_description (row : RuleRow) (text : Option JsString) :
    row.write .description (nullable text) = some { row with description := text } := by
  cases text <;> rfl

theorem write_dimensionPattern (row : RuleRow) (text : Option JsString) :
    row.write .dimensionPattern (nullable text) = some { row with dimensionPattern := text } := by
  cases text <;> rfl

theorem setFields_create (id : JsString) (r : AcceptedRule) (now : Nat) :
    rateLimitRules.setFields (createColumns.zip (createValues id r)) (blankRow now) =
      some (createdRow id r now) := by
  obtain ⟨hlimit, hwindow, -⟩ := createRuleSchema_bounds r.property
  have hwrite : ∀ column value (row : RuleRow) fields,
      rateLimitRules.setFields ((column, value) :: fields) row =
        (row.write column value).bind (rateLimitRules.setFields fields) :=
    fun _ _ _ _ => rfl
  unfold createColumns createValues
  simp only [List.zip_cons_cons, List.zip_nil_left, hwrite, write_description, write_algorithm,
    write_limit _ hlimit, write_window _ hwindow, write_dimensionType, write_dimensionPattern,
    Option.bind_some]
  rfl

/-- A create adds its row, unless the id or the name is taken. -/
theorem create_eq (id : JsString) (r : AcceptedRule) (now : Nat) (t : RuleTable) :
    create id r now t =
      if h : rateLimitRules.Constraint (t.rows ++ [createdRow id r now]) then
        some (⟨_, h⟩, mapRowToRule (createdRow id r now))
      else none := by
  have hnodup : createColumns.Nodup := by decide
  unfold create TableDefinition.insert
  rw [if_pos ⟨rfl, hnodup, rfl⟩, setFields_create]
  dsimp only
  split <;> rfl

/-! ## An updated row -/

/-- A row with the fields of a request in place of its own. -/
def RuleRow.overwritten (u : UpdateRuleRequest) (row : RuleRow) : RuleRow :=
  { row with
    name := u.name.getD row.name
    description := u.description.or row.description
    algorithm := u.algorithm.getD row.algorithm
    limitValue := (u.limit.map Nat.toPNat').getD row.limitValue
    windowSeconds := (u.windowSeconds.map Nat.toPNat').getD row.windowSeconds
    dimensionType := u.dimensionType.getD row.dimensionType
    dimensionPattern := u.dimensionPattern.or row.dimensionPattern
    priority := (u.priority.map Int.ofNat).getD row.priority
    enabled := u.enabled.getD row.enabled
    tags := u.tags.or row.tags }

/-- No column is assigned twice. -/
theorem nodup_updateFields (u : UpdateRuleRequest) :
    ((SetClause.present (updateFields u)).map Prod.fst).Nodup := by
  have hcolumns : createColumns.tail.Nodup := by decide
  have hall : (updateFields u).map Prod.fst = createColumns.tail := rfl
  exact hcolumns.sublist (hall ▸ SetClause.present_sublist (updateFields u))

theorem present_updateFields_ne_nil {u : UpdateRuleRequest} (h : u.isEmpty = false) :
    SetClause.present (updateFields u) ≠ [] := by
  intro hnil
  have hnone := SetClause.present_eq_nil_iff.mp hnil
  unfold updateFields at hnone
  simp only [List.forall_mem_cons, Option.map_eq_none_iff] at hnone
  obtain ⟨h₁, h₂, h₃, h₄, h₅, h₆, h₇, h₈, h₉, h₁₀, -⟩ := hnone
  simp [UpdateRuleRequest.isEmpty, h₁, h₂, h₃, h₄, h₅, h₆, h₇, h₈, h₉, h₁₀] at h

/-- What the schema promises of the fields that a row checks. -/
theorem updateRuleSchema_bounds {u : UpdateRuleRequest} (h : updateRuleSchema u = true) :
    (∀ n ∈ u.limit, 1 ≤ n) ∧ (∀ n ∈ u.windowSeconds, 1 ≤ n) ∧ u.isEmpty = false := by
  unfold updateRuleSchema at h
  simp only [Bool.and_eq_true, integerField, decide_eq_true_eq, Option.all_eq_true,
    Bool.not_eq_true'] at h
  obtain ⟨⟨⟨⟨⟨⟨⟨-, -⟩, hlimit⟩, hwindow⟩, -⟩, -⟩, -⟩, hsome⟩ := h
  exact ⟨fun n hn => (hlimit n hn).1, fun n hn => (hwindow n hn).1, hsome⟩

section Given

variable (row : RuleRow)

theorem writeGiven_name (o : Option JsString) :
    rateLimitRules.writeGiven .name (o.map .text) row =
      some { row with name := o.getD row.name } := by
  cases o <;> rfl

theorem writeGiven_description (o : Option JsString) :
    rateLimitRules.writeGiven .description (o.map .text) row =
      some { row with description := o.or row.description } := by
  cases o <;> rfl

theorem writeGiven_algorithm (o : Option RateLimitAlgorithm) :
    rateLimitRules.writeGiven .algorithm (o.map (.text ·.text)) row =
      some { row with algorithm := o.getD row.algorithm } := by
  cases o with
  | none => rfl
  | some a => exact write_algorithm row a

theorem writeGiven_limit {o : Option Nat} (h : ∀ n ∈ o, 1 ≤ n) :
    rateLimitRules.writeGiven .limitValue (o.map count) row =
      some { row with limitValue := (o.map Nat.toPNat').getD row.limitValue } := by
  cases o with
  | none => rfl
  | some n => exact write_limit row (h n rfl)

theorem writeGiven_window {o : Option Nat} (h : ∀ n ∈ o, 1 ≤ n) :
    rateLimitRules.writeGiven .windowSeconds (o.map count) row =
      some { row with windowSeconds := (o.map Nat.toPNat').getD row.windowSeconds } := by
  cases o with
  | none => rfl
  | some n => exact write_window row (h n rfl)

theorem writeGiven_dimensionType (o : Option DimensionType) :
    rateLimitRules.writeGiven .dimensionType (o.map (.text ·.text)) row =
      some { row with dimensionType := o.getD row.dimensionType } := by
  cases o with
  | none => rfl
  | some type => exact write_dimensionType row type

theorem writeGiven_dimensionPattern (o : Option JsString) :
    rateLimitRules.writeGiven .dimensionPattern (o.map .text) row =
      some { row with dimensionPattern := o.or row.dimensionPattern } := by
  cases o <;> rfl

theorem writeGiven_priority (o : Option Nat) :
    rateLimitRules.writeGiven .priority (o.map count) row =
      some { row with priority := (o.map Int.ofNat).getD row.priority } := by
  cases o <;> rfl

theorem writeGiven_enabled (o : Option Bool) :
    rateLimitRules.writeGiven .enabled (o.map .boolean) row =
      some { row with enabled := o.getD row.enabled } := by
  cases o <;> rfl

theorem writeGiven_tags (o : Option (List JsString)) :
    rateLimitRules.writeGiven .tags (o.map .textArray) row =
      some { row with tags := o.or row.tags } := by
  cases o <;> rfl

end Given

/-- The assigned columns take what the request gives, and no other changes. -/
theorem setFields_update (u : AcceptedUpdate) (row : RuleRow) :
    rateLimitRules.setFields (SetClause.present (updateFields u)) row =
      some (row.overwritten u) := by
  obtain ⟨hlimit, hwindow, -⟩ := updateRuleSchema_bounds u.property
  unfold SetClause.present updateFields
  simp only [List.flatMap_cons, List.flatMap_nil, setFields_given, writeGiven_name,
    writeGiven_description, writeGiven_algorithm, writeGiven_limit _ hlimit,
    writeGiven_window _ hwindow, writeGiven_dimensionType, writeGiven_dimensionPattern,
    writeGiven_priority, writeGiven_enabled, writeGiven_tags, Option.bind_some]
  rfl

/-- An update overwrites the row under its id, unless another has the name. -/
theorem update_eq (id : JsString) (u : AcceptedUpdate) (now : Nat) (t : RuleTable) :
    update id u now t =
      if h : rateLimitRules.Constraint (t.rows.map fun row =>
          if rateLimitRules.isKey (.text id) row then touched now (row.overwritten u) else row)
      then
        some (⟨_, h⟩, ((rateLimitRules.select (.text id) t).map fun row =>
          touched now (row.overwritten u)).head?.map mapRowToRule)
      else none := by
  obtain ⟨-, -, hsome⟩ := updateRuleSchema_bounds u.property
  have hlists : updateLists u =
      (.of (SetClause.present (updateFields u)),
        (SetClause.present (updateFields u)).length + 1) :=
    SetClause.foldl_pushGiven (updateFields u)
  have hne : (updateLists u).1.updates ≠ [] := by
    rw [hlists]
    exact fun h => present_updateFields_ne_nil hsome (SetClause.updates_of_eq_nil_iff.mp h)
  unfold update
  dsimp only
  rw [if_neg hne, hlists, SetClause.statement_of,
    update_numbered rateLimitRules (fun _ _ => rfl) (nodup_updateFields u),
    changeWhere_of_total _ _ fun row => by rw [setFields_update]; rfl]
  split <;> rfl

theorem setEnabled_eq (id : JsString) (enabled : Bool) (now : Nat) (t : RuleTable) :
    setEnabled id enabled now t =
      if h : rateLimitRules.Constraint (t.rows.map fun row =>
          if rateLimitRules.isKey (.text id) row then touched now { row with enabled := enabled }
          else row)
      then
        some (⟨_, h⟩, decide (((rateLimitRules.select (.text id) t).map fun row =>
          touched now { row with enabled := enabled }) ≠ []))
      else none := by
  have hstatement : (⟨[(.enabled, 1)], 2, [.boolean enabled, .text id]⟩ :
      UpdateStatement RuleColumn RuleValue) =
        .numbered [(.enabled, .boolean enabled)] (.text id) := rfl
  have hset : ∀ row, (rateLimitRules.setFields [(.enabled, .boolean enabled)] row).map
      (touched now) = some (touched now { row with enabled := enabled }) :=
    fun _ => rfl
  unfold setEnabled
  rw [hstatement, update_numbered rateLimitRules (fun _ _ => rfl) (by simp),
    changeWhere_of_total _ _ hset]
  split <;> rfl

/-! ## Existing rules -/

/-- A write by the rule routes. -/
inductive RuleWrite
  | create (id : JsString) (r : AcceptedRule) (now : Nat)
  | update (id : JsString) (u : AcceptedUpdate) (now : Nat)
  | setEnabled (id : JsString) (enabled : Bool) (now : Nat)
  | delete (id : JsString)

/-- The table after a write; one that the database rejects changes nothing. -/
def RuleWrite.step (t : RuleTable) : RuleWrite → RuleTable
  | .create id r now => ((RuleRepository.create id r now t).map Prod.fst).getD t
  | .update id u now => ((RuleRepository.update id u now t).map Prod.fst).getD t
  | .setEnabled id enabled now => ((RuleRepository.setEnabled id enabled now t).map Prod.fst).getD t
  | .delete id => RuleRepository.delete id t

/-- The rules of the schema file. -/
def defaultRules (global user ip : JsString) (now : Nat) : List RuleRow :=
  [{ blankRow now with
      id := global, name := js "Global Default"
      description := some (js "Default global rate limit")
      limitValue := Nat.toPNat' 1000, windowSeconds := Nat.toPNat' 60
      dimensionType := .global, priority := 999 },
    { blankRow now with
      id := user, name := js "User Default", description := some (js "Default per-user rate limit")
      limitValue := Nat.toPNat' 100, windowSeconds := Nat.toPNat' 60
      dimensionType := .user, priority := 500 },
    { blankRow now with
      id := ip, name := js "IP Default", description := some (js "Default per-IP rate limit")
      limitValue := Nat.toPNat' 200, windowSeconds := Nat.toPNat' 60
      dimensionType := .ip, priority := 500 }]

/-- A table that writes have made of the rules of the schema file. -/
def Existing (t : RuleTable) : Prop :=
  ∃ (start : RuleTable) (global user ip : JsString) (now : Nat) (writes : List RuleWrite),
    start.rows = defaultRules global user ip now ∧ run RuleWrite.step start writes = t

/-- Nothing writes the metadata column. -/
def Unannotated (t : RuleTable) : Prop := ∀ row ∈ t.rows, row.metadata = none

theorem Unannotated.of_map {t : RuleTable} (h : Unannotated t) {p : RuleRow → Bool}
    {f : RuleRow → RuleRow} (hf : ∀ row, row.metadata = none → (f row).metadata = none)
    {hrows : rateLimitRules.Constraint (t.rows.map fun row => if p row then f row else row)} :
    Unannotated ⟨_, hrows⟩ := by
  intro row hrow
  obtain ⟨before, hbefore, rfl⟩ := List.mem_map.mp hrow
  split
  · exact hf before (h before hbefore)
  · exact h before hbefore

theorem Unannotated.step {t : RuleTable} (h : Unannotated t) (write : RuleWrite) :
    Unannotated (write.step t) := by
  cases write with
  | create id r now =>
      show Unannotated (((RuleRepository.create id r now t).map Prod.fst).getD t)
      rw [create_eq]
      split
      · intro row hrow
        rcases List.mem_append.mp hrow with hrow | hrow
        · exact h row hrow
        · exact List.mem_singleton.mp hrow ▸ rfl
      · exact h
  | update id u now =>
      show Unannotated (((RuleRepository.update id u now t).map Prod.fst).getD t)
      rw [update_eq]
      split
      · exact h.of_map (f := fun row => touched now (row.overwritten u)) fun _ hnone => hnone
      · exact h
  | setEnabled id enabled now =>
      show Unannotated (((RuleRepository.setEnabled id enabled now t).map Prod.fst).getD t)
      rw [setEnabled_eq]
      split
      · exact h.of_map (f := fun row => touched now { row with enabled := enabled })
          fun _ hnone => hnone
      · exact h
  | delete id =>
      intro row hrow
      exact h row (List.mem_of_mem_filter hrow)

theorem Existing.unannotated {t : RuleTable} (h : Existing t) : Unannotated t := by
  obtain ⟨start, global, user, ip, now, writes, hstart, rfl⟩ := h
  refine run_invariant RuleWrite.step (I := Unannotated) (fun t write ht => ht.step write) ?_ writes
  intro row hrow
  rw [hstart] at hrow
  simp only [defaultRules, List.mem_cons, List.not_mem_nil, or_false] at hrow
  rcases hrow with rfl | rfl | rfl
  · rfl
  · rfl
  · rfl

/-! ## What a rule says -/

/-- What a rule says, apart from its id and its times. -/
structure RuleContent where
  name : JsString
  algorithm : RateLimitAlgorithm
  limit : Nat
  windowSeconds : Nat
  dimensionType : DimensionType
  dimensionPattern : Option JsString
  priority : Int
  enabled : Bool
  metadata : JsMap JsString Json

def Rule.content (rule : Rule) : RuleContent where
  name := rule.name
  algorithm := rule.algorithm
  limit := rule.limit
  windowSeconds := rule.windowSeconds
  dimensionType := rule.dimension.type
  dimensionPattern := rule.dimension.pattern
  priority := rule.priority
  enabled := rule.enabled
  metadata := rule.metadata

/-- What a request says, with the defaults of what it leaves out. -/
def CreateRuleRequest.content (r : CreateRuleRequest) : RuleContent where
  name := r.name
  algorithm := r.algorithm
  limit := r.limit
  windowSeconds := r.windowSeconds
  dimensionType := r.dimensionType
  dimensionPattern := r.dimensionPattern
  priority := r.priority.getD 100
  enabled := r.enabled.getD true
  metadata := ruleMetadata r.description (r.tags.getD [])

/-- Every field of the request is there. -/
def CreateRuleRequest.Full (r : CreateRuleRequest) : Prop :=
  r.description.isSome ∧ r.dimensionPattern.isSome ∧ r.priority.isSome ∧ r.enabled.isSome ∧
    r.tags.isSome

/-- The update that gives all fields of a request. -/
def CreateRuleRequest.allFields (r : CreateRuleRequest) : UpdateRuleRequest where
  name := some r.name
  description := r.description
  algorithm := some r.algorithm
  limit := some r.limit
  windowSeconds := some r.windowSeconds
  dimensionType := some r.dimensionType
  dimensionPattern := r.dimensionPattern
  priority := r.priority
  enabled := r.enabled
  tags := r.tags

/-- What a request does not give is as it was. -/
structure KeepsOthers (u : UpdateRuleRequest) (before after : Rule) : Prop where
  id : after.id = before.id
  createdAt : after.createdAt = before.createdAt
  name : u.name = none → after.name = before.name
  description : u.description = none →
    after.metadata.get (js "description") = before.metadata.get (js "description")
  algorithm : u.algorithm = none → after.algorithm = before.algorithm
  limit : u.limit = none → after.limit = before.limit
  windowSeconds : u.windowSeconds = none → after.windowSeconds = before.windowSeconds
  dimensionType : u.dimensionType = none → after.dimension.type = before.dimension.type
  dimensionPattern : u.dimensionPattern = none →
    after.dimension.pattern = before.dimension.pattern
  priority : u.priority = none → after.priority = before.priority
  enabled : u.enabled = none → after.enabled = before.enabled
  tags : u.tags = none → after.metadata.get (js "tags") = before.metadata.get (js "tags")

/-- A request is stored as it is written, by create and by update, and an update leaves
alone what it does not give.  The database may reject a write only because of an id or a
name that is taken. -/
structure StoredAsWritten (r : AcceptedRule) : Prop where
  creates : ∀ t, Existing t → ∀ id now, (∀ row ∈ t.rows, row.id ≠ id ∧ row.name ≠ r.val.name) →
    ∃ t' rule, create id r now t = some (t', rule)
  created : ∀ t, Existing t → ∀ id now t' rule, create id r now t = some (t', rule) →
    ∃ found, findById id t' = some found ∧ found.content = r.val.content
  updates : ∀ t, Existing t → ∀ row ∈ t.rows, ∀ (u : AcceptedUpdate) now,
    (∀ other ∈ t.rows, other.id ≠ row.id → ∀ name ∈ u.val.name, other.name ≠ name) →
      ∃ t' answer, update row.id u now t = some (t', answer)
  rewritten : r.val.Full → ∀ t, Existing t → ∀ row ∈ t.rows, ∀ now t' answer,
    update row.id r.val.allFields now t = some (t', answer) →
      ∃ rule, answer = some rule ∧ ∀ t₂, Existing t₂ → ∀ id now t₂' created,
        create id r now t₂ = some (t₂', created) → rule.content = created.content
  kept : ∀ t, Existing t → ∀ row ∈ t.rows, ∀ (u : AcceptedUpdate) now t' answer,
    update row.id u now t = some (t', answer) →
      ∃ rule, answer = some rule ∧ findById row.id t' = some rule ∧
        KeepsOthers u (mapRowToRule row) rule

/-! ## Content of the rows -/

theorem metadata_mapRowToRule {row : RuleRow} (h : row.metadata = none) :
    (mapRowToRule row).metadata = ruleMetadata row.description (row.tags.getD []) := by
  unfold mapRowToRule
  rw [h]
  rfl

theorem get_description (description : Option JsString) (tags : List JsString) :
    (ruleMetadata description tags).get (js "description") =
      some (description.elim .null .string) := by
  unfold ruleMetadata
  rw [JsMap.get_set_of_ne (by decide), JsMap.get_set]

theorem get_tags (description : Option JsString) (tags : List JsString) :
    (ruleMetadata description tags).get (js "tags") = some (.array (tags.map .string)) :=
  JsMap.get_set ..

/-- A text that counts as true is kept by `|| null`. -/
theorem present_eq_self {text : Option JsString} (h : ∀ s ∈ text, s ≠ []) :
    present text = text := by
  cases text with
  | none => rfl
  | some s => simp [present, h s rfl]

theorem toPNat'_val {n : Nat} (hn : 1 ≤ n) : (n.toPNat' : Nat) = n :=
  PNat.toPNat'_coe hn

/-- `request.priority || 100` is the priority of the request unless that is 0. -/
theorem content_created_iff (id : JsString) (r : AcceptedRule) (now : Nat) :
    (mapRowToRule (createdRow id r now)).content = r.val.content ↔ r.val.priority ≠ some 0 := by
  obtain ⟨r, hr⟩ := r
  obtain ⟨hlimit, hwindow, hdescription, hpattern⟩ := createRuleSchema_bounds hr
  have hpriority : (mapRowToRule (createdRow id r now)).content.priority =
      ((r.priority.filter (· ≠ 0)).getD 100 : Nat) := rfl
  constructor
  · intro h hzero
    have hcontent : r.content.priority = (r.priority.getD 100 : Nat) := rfl
    change r.priority = some 0 at hzero
    rw [h, hcontent, hzero] at hpriority
    exact absurd hpriority (by decide)
  · intro hne
    have hkept : r.priority.filter (· ≠ 0) = r.priority := by
      cases hcases : r.priority with
      | none => rfl
      | some n =>
          have hn : n ≠ 0 := fun h => hne (h ▸ hcases)
          simp [hn]
    unfold Rule.content CreateRuleRequest.content
    simp only [mapRowToRule, createdRow, present_eq_self hdescription, present_eq_self hpattern,
      toPNat'_val hlimit, toPNat'_val hwindow, hkept, Option.getD_none, Option.getD_some]
    rfl

/-- An update with all fields of a request leaves what the request says. -/
theorem content_overwritten {r : AcceptedRule} (hfull : r.val.Full) {row : RuleRow}
    (hrow : row.metadata = none) (now : Nat) :
    (mapRowToRule (touched now (row.overwritten r.val.allFields))).content = r.val.content := by
  obtain ⟨r, hr⟩ := r
  obtain ⟨hlimit, hwindow, -⟩ := createRuleSchema_bounds hr
  obtain ⟨hdescription, hpattern, hpriority, henabled, htags⟩ := hfull
  obtain ⟨description, hdescription⟩ := Option.isSome_iff_exists.mp hdescription
  obtain ⟨pattern, hpattern⟩ := Option.isSome_iff_exists.mp hpattern
  obtain ⟨priority, hpriority⟩ := Option.isSome_iff_exists.mp hpriority
  obtain ⟨enabled, henabled⟩ := Option.isSome_iff_exists.mp henabled
  obtain ⟨tags, htags⟩ := Option.isSome_iff_exists.mp htags
  dsimp only at hdescription hpattern hpriority henabled htags
  unfold Rule.content CreateRuleRequest.content
  simp only [mapRowToRule, touched, RuleRow.overwritten, CreateRuleRequest.allFields,
    hdescription, hpattern, hpriority, henabled, htags, hrow, toPNat'_val hlimit,
    toPNat'_val hwindow, Option.getD_some, Option.getD_none, Option.map_some]
  rfl

theorem updateRuleSchema_allFields (r : AcceptedRule) :
    updateRuleSchema r.val.allFields = true := by
  obtain ⟨r, hr⟩ := r
  unfold createRuleSchema at hr
  simp only [Bool.and_eq_true] at hr
  unfold updateRuleSchema
  simp only [CreateRuleRequest.allFields, UpdateRuleRequest.isEmpty, Option.all_some,
    Option.isNone_some, Bool.false_and, Bool.not_false, Bool.and_true, Bool.and_eq_true]
  tauto

theorem keepsOthers_overwritten (u : UpdateRuleRequest) {row : RuleRow}
    (hrow : row.metadata = none) (now : Nat) :
    KeepsOthers u (mapRowToRule row) (mapRowToRule (touched now (row.overwritten u))) := by
  have hbefore := metadata_mapRowToRule hrow
  have hafter : (mapRowToRule (touched now (row.overwritten u))).metadata =
      ruleMetadata (row.overwritten u).description ((row.overwritten u).tags.getD []) :=
    metadata_mapRowToRule hrow
  refine
    { id := rfl
      createdAt := rfl
      name := fun h => by simp [mapRowToRule, touched, RuleRow.overwritten, h]
      description := fun h => ?_
      algorithm := fun h => by simp [mapRowToRule, touched, RuleRow.overwritten, h]
      limit := fun h => by simp [mapRowToRule, touched, RuleRow.overwritten, h]
      windowSeconds := fun h => by simp [mapRowToRule, touched, RuleRow.overwritten, h]
      dimensionType := fun h => by simp [mapRowToRule, touched, RuleRow.overwritten, h]
      dimensionPattern := fun h => by simp [mapRowToRule, touched, RuleRow.overwritten, h]
      priority := fun h => by simp [mapRowToRule, touched, RuleRow.overwritten, h]
      enabled := fun h => by simp [mapRowToRule, touched, RuleRow.overwritten, h]
      tags := fun h => ?_ }
  · rw [hbefore, hafter, get_description, get_description]
    simp [RuleRow.overwritten, h]
  · rw [hbefore, hafter, get_tags, get_tags]
    simp [RuleRow.overwritten, h]

/-! ## Rejected writes -/

/-- A create is rejected only for an id or a name that is taken. -/
theorem constraint_created {t : RuleTable} {row : RuleRow}
    (h : ∀ other ∈ t.rows, other.id ≠ row.id ∧ other.name ≠ row.name) :
    rateLimitRules.Constraint (t.rows ++ [row]) := by
  have hfresh : ∀ {f : RuleRow → JsString}, (∀ other ∈ t.rows, f other ≠ f row) →
      (t.rows.map f).Nodup → ((t.rows ++ [row]).map f).Nodup := by
    intro f hf hnodup
    rw [List.map_append, List.map_singleton, ← List.concat_eq_append]
    refine hnodup.concat ?_
    intro hmem
    obtain ⟨other, hother, hsame⟩ := List.mem_map.mp hmem
    exact hf other hother hsame
  exact ⟨hfresh (fun other hother => (h other hother).1) t.holds.1,
    hfresh (fun other hother => (h other hother).2) t.holds.2⟩

/-- An update is rejected only for a name that another rule has. -/
theorem constraint_updated {t : RuleTable} {row : RuleRow} {u : UpdateRuleRequest} (now : Nat)
    (h : ∀ other ∈ t.rows, other.id ≠ row.id → ∀ name ∈ u.name, other.name ≠ name) :
    rateLimitRules.Constraint (t.rows.map fun other =>
      if rateLimitRules.isKey (.text row.id) other then touched now (other.overwritten u)
      else other) := by
  obtain ⟨hids, hnames⟩ := t.holds
  have hkey : ∀ other : RuleRow,
      rateLimitRules.isKey (.text row.id) other = true ↔ other.id = row.id := by
    intro other
    show decide (RuleValue.text row.id = .text other.id) = true ↔ _
    simp [eq_comm]
  have hrows : t.rows.Nodup := hids.of_map
  have hid := List.inj_on_of_nodup_map hids
  have hname := List.inj_on_of_nodup_map hnames
  constructor
  · rw [List.map_map]
    refine (List.map_congr_left fun other _ => ?_ : t.rows.map RuleRow.id = _) ▸ hids
    show other.id = RuleRow.id (if _ then _ else _)
    split <;> rfl
  · rw [List.map_map]
    -- the new name is not the name of a row that keeps its own
    have hmixed : ∀ a ∈ t.rows, ∀ b ∈ t.rows, a.id = row.id → b.id ≠ row.id →
        u.name.getD a.name = b.name → a = b := by
      intro a ha b hb hakey hbkey hsame
      cases hgiven : u.name with
      | none =>
          rw [hgiven] at hsame
          exact hname ha hb hsame
      | some name =>
          rw [hgiven] at hsame
          exact absurd hsame.symm (h b hb hbkey name hgiven)
    refine hrows.map_on ?_
    intro a ha b hb hsame
    simp only [Function.comp_apply, hkey] at hsame
    by_cases hakey : a.id = row.id
    · by_cases hbkey : b.id = row.id
      · exact hid ha hb (hakey.trans hbkey.symm)
      · rw [if_pos hakey, if_neg hbkey] at hsame
        exact hmixed a ha b hb hakey hbkey hsame
    · by_cases hbkey : b.id = row.id
      · rw [if_neg hakey, if_pos hbkey] at hsame
        exact (hmixed b hb a ha hbkey hakey hsame.symm).symm
      · rw [if_neg hakey, if_neg hbkey] at hsame
        exact hname ha hb hsame

/-! ## The table as written -/

theorem create_eq_some {id : JsString} {r : AcceptedRule} {now : Nat} {t t' : RuleTable}
    {rule : Rule} (h : create id r now t = some (t', rule)) :
    rule = mapRowToRule (createdRow id r now) ∧ t'.rows = t.rows ++ [createdRow id r now] := by
  rw [create_eq] at h
  split at h
  · obtain ⟨rfl, rfl⟩ := Prod.mk.inj (Option.some.inj h)
    exact ⟨rfl, rfl⟩
  · cases h

/-- What is found of a created rule. -/
theorem findById_created {id : JsString} {r : AcceptedRule} {now : Nat} {t t' : RuleTable}
    {rule : Rule} (h : create id r now t = some (t', rule)) :
    findById id t' = some (mapRowToRule (createdRow id r now)) := by
  have hrow : createdRow id r now ∈ t'.rows := by
    rw [(create_eq_some h).2]
    exact List.mem_append_right _ (List.mem_singleton_self _)
  exact findById_of_mem hrow

theorem update_eq_some {row : RuleRow} {u : AcceptedUpdate} {now : Nat} {t t' : RuleTable}
    (hrow : row ∈ t.rows) {answer : Option Rule}
    (h : update row.id u now t = some (t', answer)) :
    answer = some (mapRowToRule (touched now (row.overwritten u))) ∧
      touched now (row.overwritten u) ∈ t'.rows := by
  have hkey : rateLimitRules.isKey (.text row.id) row = true := decide_eq_true rfl
  rw [update_eq, select_of_mem hrow] at h
  split at h
  · obtain ⟨rfl, rfl⟩ := Prod.mk.inj (Option.some.inj h)
    refine ⟨rfl, List.mem_map.mpr ⟨row, hrow, ?_⟩⟩
    rw [if_pos hkey]
  · cases h

/-- The table of the schema file. -/
def schemaTable : RuleTable where
  rows := defaultRules (js "1") (js "2") (js "3") 0
  holds := by decide +kernel

/-- Deleting the rules of the schema file leaves no rule. -/
theorem exists_existing_empty : ∃ t, Existing t ∧ t.rows = [] := by
  have hempty : (run RuleWrite.step schemaTable
      [.delete (js "1"), .delete (js "2"), .delete (js "3")]).rows.isEmpty = true := by
    decide +kernel
  exact ⟨_, ⟨schemaTable, _, _, _, _, _, rfl, rfl⟩, List.isEmpty_iff.mp hempty⟩

theorem StoredAsWritten.priority_ne_zero {r : AcceptedRule} (h : StoredAsWritten r) :
    r.val.priority ≠ some 0 := by
  obtain ⟨t, hexisting, hempty⟩ := exists_existing_empty
  have hfree : ∀ row ∈ t.rows, row.id ≠ [] ∧ row.name ≠ r.val.name := by
    rw [hempty]
    exact List.forall_mem_nil _
  obtain ⟨t', rule, hcreate⟩ := h.creates t hexisting [] 0 hfree
  obtain ⟨found, hfound, hcontent⟩ := h.created t hexisting [] 0 t' rule hcreate
  obtain rfl := Option.some.inj ((findById_created hcreate).symm.trans hfound)
  exact (content_created_iff [] r 0).mp hcontent

/-- **Rules as written.**  A request is stored as it is written, by create and by update,
exactly when it does not ask for priority 0. -/
theorem stored_as_written_iff (r : AcceptedRule) :
    StoredAsWritten r ↔ r.val.priority ≠ some 0 := by
  refine ⟨StoredAsWritten.priority_ne_zero, fun hpriority => ?_⟩
  refine
    { creates := ?_
      created := ?_
      updates := ?_
      rewritten := ?_
      kept := ?_ }
  · intro t hexisting id now hfree
    rw [create_eq, dif_pos (constraint_created hfree)]
    exact ⟨_, _, rfl⟩
  · intro t hexisting id now t' rule hcreate
    exact ⟨_, findById_created hcreate, (content_created_iff id r now).mpr hpriority⟩
  · intro t hexisting row hrow u now hfree
    rw [update_eq, dif_pos (constraint_updated now hfree)]
    exact ⟨_, _, rfl⟩
  · intro hfull t hexisting row hrow now t' answer hupdate
    obtain ⟨rfl, -⟩ := update_eq_some (u := ⟨_, updateRuleSchema_allFields r⟩) hrow hupdate
    refine ⟨_, rfl, ?_⟩
    intro t₂ hexisting₂ id now₂ t₂' created hcreate
    obtain ⟨rfl, -⟩ := create_eq_some hcreate
    rw [content_overwritten hfull (hexisting.unannotated row hrow)]
    exact ((content_created_iff id r now₂).mpr hpriority).symm
  · intro t hexisting row hrow u now t' answer hupdate
    obtain ⟨rfl, hmem⟩ := update_eq_some hrow hupdate
    exact ⟨_, rfl, findById_of_mem hmem,
      keepsOthers_overwritten u.val (hexisting.unannotated row hrow) now⟩

/-- A rule of the lowest priority. -/
def lastRule : AcceptedRule where
  val :=
    { name := js "last"
      description := none
      algorithm := .tokenBucket
      limit := 10
      windowSeconds := 60
      dimensionType := .global
      dimensionPattern := none
      priority := some 0
      enabled := none
      tags := none }
  property := by decide +kernel

/-- It is stored with priority 100. -/
theorem priority_zero_not_stored : ¬ ∀ r : AcceptedRule, StoredAsWritten r :=
  fun h => (h lastRule).priority_ne_zero rfl

end RateLimiter.Limiter
