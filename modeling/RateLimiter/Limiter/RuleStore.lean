import RateLimiter.Foundations.Runs
import RateLimiter.Foundations.Statements
import RateLimiter.Javascript.Json
import RateLimiter.Limiter.Rules

/-!
# The rule table

How rules are written to `rate_limit_rules` and read back: the insert of `create`, the
update that is built from the fields a request gives, and the mapping of rows to rules.
-/

namespace RateLimiter.Limiter

open RateLimiter.Foundations RateLimiter.Javascript

/-! ## The table -/

/-- The columns a statement can assign. -/
inductive RuleColumn
  | id
  | name
  | description
  | algorithm
  | limitValue
  | windowSeconds
  | dimensionType
  | dimensionPattern
  | priority
  | enabled
  | tags
deriving DecidableEq

/-- A parameter of a statement. -/
inductive RuleValue
  | null
  | text (text : JsString)
  | integer (n : Int)
  | boolean (value : Bool)
  | textArray (texts : List JsString)
deriving DecidableEq

/-- A row of `rate_limit_rules`. -/
structure RuleRow where
  id : JsString
  name : JsString
  description : Option JsString
  algorithm : RateLimitAlgorithm
  limitValue : ℕ+
  windowSeconds : ℕ+
  dimensionType : DimensionType
  dimensionPattern : Option JsString
  priority : Int
  enabled : Bool
  tags : Option (List JsString)
  metadata : Option (JsMap JsString Json)
  createdAt : Nat
  updatedAt : Nat

/-- The text of the enumeration. -/
def DimensionType.text : DimensionType → JsString
  | .user => js "user"
  | .ip => js "ip"
  | .endpoint => js "endpoint"
  | .global => js "global"
  | .custom => js "custom"

/-- `CHECK (algorithm IN (…))`. -/
def algorithmOf (text : JsString) : Option RateLimitAlgorithm :=
  [.tokenBucket, .slidingWindow, .fixedWindow, .leakyBucket].find? fun a => a.text = text

/-- `CHECK (dimension_type IN (…))`. -/
def dimensionTypeOf (text : JsString) : Option DimensionType :=
  [.user, .ip, .endpoint, .global, .custom].find? fun t => t.text = text

/-- A column takes a value of its type that its `CHECK` lets through, and `NULL` where it
may be empty. -/
def RuleRow.write (row : RuleRow) : RuleColumn → RuleValue → Option RuleRow
  | .id, .text id => some { row with id := id }
  | .name, .text name => some { row with name := name }
  | .description, .text description => some { row with description := some description }
  | .description, .null => some { row with description := none }
  | .algorithm, .text text =>
      (algorithmOf text).map fun algorithm => { row with algorithm := algorithm }
  | .limitValue, .integer (.ofNat (n + 1)) => some { row with limitValue := n.succPNat }
  | .windowSeconds, .integer (.ofNat (n + 1)) => some { row with windowSeconds := n.succPNat }
  | .dimensionType, .text text =>
      (dimensionTypeOf text).map fun type => { row with dimensionType := type }
  | .dimensionPattern, .text pattern => some { row with dimensionPattern := some pattern }
  | .dimensionPattern, .null => some { row with dimensionPattern := none }
  | .priority, .integer n => some { row with priority := n }
  | .enabled, .boolean enabled => some { row with enabled := enabled }
  | .tags, .textArray tags => some { row with tags := some tags }
  | .tags, .null => some { row with tags := none }
  | _, _ => none

/-- `rate_limit_rules`: ids are unique, and so are names. -/
def rateLimitRules : TableDefinition RuleColumn RuleValue RuleRow where
  hasColumn _ := true
  write column value row := row.write column value
  isKey value row := value = .text row.id
  Constraint rows := (rows.map RuleRow.id).Nodup ∧ (rows.map RuleRow.name).Nodup
  decidable _ := inferInstanceAs (Decidable (_ ∧ _))
  sublist h hrows := ⟨hrows.1.sublist (h.map _), hrows.2.sublist (h.map _)⟩

abbrev RuleTable := Table rateLimitRules

/-! ## Requests -/

/-- A body of `POST /rules`. -/
structure CreateRuleRequest where
  name : JsString
  description : Option JsString
  algorithm : RateLimitAlgorithm
  limit : Nat
  windowSeconds : Nat
  dimensionType : DimensionType
  dimensionPattern : Option JsString
  priority : Option Nat
  enabled : Option Bool
  tags : Option (List JsString)

/-- A body of `PUT /rules/:id`. -/
structure UpdateRuleRequest where
  name : Option JsString
  description : Option JsString
  algorithm : Option RateLimitAlgorithm
  limit : Option Nat
  windowSeconds : Option Nat
  dimensionType : Option DimensionType
  dimensionPattern : Option JsString
  priority : Option Nat
  enabled : Option Bool
  tags : Option (List JsString)

/-- `Joi.string().min(min).max(max)`; without a `min` an empty text is refused all the
same. -/
def textField (min max : Nat) (text : JsString) : Bool :=
  text ≠ [] ∧ min ≤ text.length ∧ text.length ≤ max

/-- `Joi.number().integer().min(min).max(max)`. -/
def integerField (min max n : Nat) : Bool := min ≤ n ∧ n ≤ max

/-- `Joi.array().items(Joi.string())`. -/
def textsField (texts : List JsString) : Bool := texts.all (· ≠ [])

def createRuleSchema (r : CreateRuleRequest) : Bool :=
  textField 3 255 r.name && r.description.all (textField 0 1000) &&
    integerField 1 1000000 r.limit && integerField 1 86400 r.windowSeconds &&
    r.dimensionPattern.all (textField 0 500) && r.priority.all (integerField 0 1000) &&
    r.tags.all textsField

/-- `.min(1)`: some field is there. -/
def UpdateRuleRequest.isEmpty (u : UpdateRuleRequest) : Bool :=
  u.name.isNone && u.description.isNone && u.algorithm.isNone && u.limit.isNone &&
    u.windowSeconds.isNone && u.dimensionType.isNone && u.dimensionPattern.isNone &&
    u.priority.isNone && u.enabled.isNone && u.tags.isNone

def updateRuleSchema (u : UpdateRuleRequest) : Bool :=
  u.name.all (textField 3 255) && u.description.all (textField 0 1000) &&
    u.limit.all (integerField 1 1000000) && u.windowSeconds.all (integerField 1 86400) &&
    u.dimensionPattern.all (textField 0 500) && u.priority.all (integerField 0 1000) &&
    u.tags.all textsField && !u.isEmpty

/-- A request the routes let through. -/
abbrev AcceptedRule := { r : CreateRuleRequest // createRuleSchema r = true }

abbrev AcceptedUpdate := { u : UpdateRuleRequest // updateRuleSchema u = true }

/-! ## The repository -/

/-- A rule with all that the repository returns. -/
structure Rule extends RateLimitRule where
  priority : Int
  enabled : Bool
  metadata : JsMap JsString Json
  createdAt : Nat
  updatedAt : Nat

/-- `\x7bdescription, tags\x7d`. -/
def ruleMetadata (description : Option JsString) (tags : List JsString) : JsMap JsString Json :=
  (JsMap.empty.set (js "description") (description.elim .null .string)).set (js "tags")
    (.array (tags.map .string))

/-- The metadata column spreads over the description and the tags. -/
def mapRowToRule (row : RuleRow) : Rule where
  id := row.id
  name := row.name
  algorithm := row.algorithm
  limit := row.limitValue
  windowSeconds := row.windowSeconds
  dimension := ⟨row.dimensionType, row.dimensionPattern⟩
  priority := row.priority
  enabled := row.enabled
  metadata := (row.metadata.getD .empty).entries.foldl (fun m e => m.set e.1 e.2)
    (ruleMetadata row.description (row.tags.getD []))
  createdAt := row.createdAt
  updatedAt := row.updatedAt

namespace RuleRepository

/-- A text, or `NULL`. -/
def nullable (text : Option JsString) : RuleValue := text.elim .null .text

/-- A count. -/
def count (n : Nat) : RuleValue := .integer n

def createColumns : List RuleColumn :=
  [.id, .name, .description, .algorithm, .limitValue, .windowSeconds, .dimensionType,
    .dimensionPattern, .priority, .enabled, .tags]

def createValues (id : JsString) (r : CreateRuleRequest) : List RuleValue :=
  [.text id, .text r.name, nullable (present r.description), .text r.algorithm.text,
    count r.limit, count r.windowSeconds, .text r.dimensionType.text,
    nullable (present r.dimensionPattern),
    -- `request.priority || 100`
    count ((r.priority.filter (· ≠ 0)).getD 100), .boolean (r.enabled.getD true),
    .textArray (r.tags.getD [])]

/-- A row before its columns are assigned, with the defaults of the others. -/
def blankRow (now : Nat) : RuleRow where
  id := []
  name := []
  description := none
  algorithm := .tokenBucket
  limitValue := 1
  windowSeconds := 1
  dimensionType := .global
  dimensionPattern := none
  priority := 100
  enabled := true
  tags := none
  metadata := none
  createdAt := now
  updatedAt := now

/-- `create`, with the id it draws; `none` when the database rejects the row. -/
def create (id : JsString) (r : CreateRuleRequest) (now : Nat) (t : RuleTable) :
    Option (RuleTable × Rule) :=
  (rateLimitRules.insert (blankRow now) ⟨createColumns, createValues id r⟩ t).map
    fun answer => (answer.1, mapRowToRule answer.2)

def findById (id : JsString) (t : RuleTable) : Option Rule :=
  (rateLimitRules.select (.text id) t).head?.map mapRowToRule

/-- The fields `update` asks for, in the order of its `if`s. -/
def updateFields (u : UpdateRuleRequest) : List (RuleColumn × Option RuleValue) :=
  [(.name, u.name.map .text),
    (.description, u.description.map .text),
    (.algorithm, u.algorithm.map (.text ·.text)),
    (.limitValue, u.limit.map count),
    (.windowSeconds, u.windowSeconds.map count),
    (.dimensionType, u.dimensionType.map (.text ·.text)),
    (.dimensionPattern, u.dimensionPattern.map .text),
    (.priority, u.priority.map count),
    (.enabled, u.enabled.map .boolean),
    (.tags, u.tags.map .textArray)]

/-- `updates` and `values`, with `paramIndex`. -/
def updateLists (u : UpdateRuleRequest) : SetClause RuleColumn RuleValue × Nat :=
  (updateFields u).foldl (fun c field => SetClause.pushGiven field.1 field.2 c)
    (SetClause.empty, 1)

/-- The trigger `update_updated_at_column`. -/
def touched (now : Nat) (row : RuleRow) : RuleRow := { row with updatedAt := now }

/-- `update`: `none` when the database rejects the change, and no rule when there is none
under the id. -/
def update (id : JsString) (u : UpdateRuleRequest) (now : Nat) (t : RuleTable) :
    Option (RuleTable × Option Rule) :=
  let lists := updateLists u
  if lists.1.updates = [] then some (t, findById id t)
  else
    (rateLimitRules.update (touched now) (lists.1.statement (.text id) lists.2) t).map
      fun answer => (answer.1, answer.2.head?.map mapRowToRule)

/-- `UPDATE rate_limit_rules SET enabled = $1 WHERE id = $2`. -/
def setEnabled (id : JsString) (enabled : Bool) (now : Nat) (t : RuleTable) :
    Option (RuleTable × Bool) :=
  (rateLimitRules.update (touched now) ⟨[(.enabled, 1)], 2, [.boolean enabled, .text id]⟩ t).map
    fun answer => (answer.1, answer.2 ≠ [])

/-- `delete`. -/
def delete (id : JsString) (t : RuleTable) : RuleTable :=
  rateLimitRules.delete (.text id) t

end RuleRepository

end RateLimiter.Limiter
