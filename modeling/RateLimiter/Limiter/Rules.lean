import Mathlib.Data.PNat.Notation
import RateLimiter.Control.Patterns
import RateLimiter.Limiter.Checks

/-!
# Rules

Which stored rule a request falls under, and the rules a process keeps for a minute
so that it need not ask the database about every request.
-/

namespace RateLimiter.Limiter

open RateLimiter.Javascript RateLimiter.Control

inductive RateLimitAlgorithm
  | tokenBucket
  | slidingWindow
  | fixedWindow
  | leakyBucket
deriving DecidableEq, Repr

/-- The text of the enumeration. -/
def RateLimitAlgorithm.text : RateLimitAlgorithm → JsString
  | .tokenBucket => js "token_bucket"
  | .slidingWindow => js "sliding_window"
  | .fixedWindow => js "fixed_window"
  | .leakyBucket => js "leaky_bucket"

inductive DimensionType
  | user
  | ip
  | endpoint
  | global
  | custom
deriving DecidableEq, Repr

structure Dimension where
  type : DimensionType
  pattern : Option JsString

/-- A row of `rate_limit_rules` as far as a check reads it.  The table's constraints keep
both numbers positive. -/
structure RateLimitRule where
  id : JsString
  name : JsString
  algorithm : RateLimitAlgorithm
  limit : ℕ+
  windowSeconds : ℕ+
  dimension : Dimension

/-- What a rule asks of a JSON value: does it count as true, and which text does `String`
make of it, `none` when that throws? -/
structure Metadatum where
  truthy : Bool
  text : Option JsString

/-- The request as the rules see it; metadata answers for every key, with `undefined`
where it has none. -/
structure RuleMatchContext where
  identifier : JsString
  endpoint : Option JsString
  ip : Option JsString
  metadata : Option (JsString → Metadatum)

/-! ## Custom patterns -/

/-- `\w`. -/
def isWord (c : CodeUnit) : Bool :=
  isDigit c || (unit 'A' ≤ c && c ≤ unit 'Z') || (unit 'a' ≤ c && c ≤ unit 'z') || c = unit '_'

/-- What `.` does not match. -/
def isLineTerminator (c : CodeUnit) : Bool :=
  c = unit '\n' || c = unit '\r' || c = codeUnit 0x2028 || c = codeUnit 0x2029

/-- `pattern.match(/^(\w+)=(.+)$/)` and its sibling for `~`.  The operator is no character
of a word, so the key ends at the first character that is none either. -/
def matchOperator (operator : CodeUnit) (pattern : JsString) : Option (JsString × JsString) :=
  match pattern.dropWhile isWord with
  | [] => none
  | c :: value =>
      if pattern.takeWhile isWord ≠ [] ∧ c = operator ∧
          value ≠ [] ∧ value.all (fun c => !isLineTerminator c) then
        some (pattern.takeWhile isWord, value)
      else none

def parseCustomPattern (pattern : JsString) :
    Except Thrown (JsString × CodeUnit × JsString) :=
  match matchOperator (unit '=') pattern with
  | some (key, value) => .ok (key, unit '=', value)
  | none =>
      match matchOperator (unit '~') pattern with
      | some (key, value) => .ok (key, unit '~', value)
      | none => .error (.error (js "Invalid custom pattern format: " ++ pattern))

/-! ## Matching -/

/-- An optional text where it counts as true: it is there and not empty. -/
def present (text : Option JsString) : Option JsString := text.filter (· ≠ [])

section Match

variable (regExp : JsString → Option (JsString → Bool))

/-- `matchCustomPattern`; whatever throws in it is caught and matches nothing. -/
def matchCustomPattern (context : RuleMatchContext) (pattern : JsString) : Bool :=
  match parseCustomPattern pattern, context.metadata with
  | .ok (key, operator, value), some metadata =>
      if (metadata key).truthy then
        match (metadata key).text with
        | some metadataValue =>
            if operator = unit '=' then metadataValue = value
            else if operator = unit '~' then matchRegex regExp metadataValue value
            else false
        | none => false
      else false
  | _, _ => false

/-- A value against the pattern of a dimension; without a pattern all match. -/
def matchDimension (pattern : Option JsString) (value : JsString) : Bool :=
  match present pattern with
  | some pattern => matchPattern regExp value pattern
  | none => true

def isRuleMatch (rule : RateLimitRule) (context : RuleMatchContext) : Bool :=
  match rule.dimension.type with
  | .global => true
  | .user => matchDimension regExp rule.dimension.pattern context.identifier
  | .ip =>
      match present context.ip with
      | some ip => matchDimension regExp rule.dimension.pattern ip
      | none => false
  | .endpoint =>
      match present context.endpoint with
      | some endpoint => matchDimension regExp rule.dimension.pattern endpoint
      | none => false
  | .custom =>
      match present rule.dimension.pattern with
      | some pattern => matchCustomPattern regExp context pattern
      | none => false

/-- The loop of `findMatchingRule`, over the rules in the order of their priority. -/
def findMatchingRule (rules : List RateLimitRule) (context : RuleMatchContext) :
    Option RateLimitRule :=
  rules.find? fun rule => isRuleMatch regExp rule context

end Match

/-! ## The cache -/

/-- `rulesCache` and `cacheLastUpdated`. -/
structure RulesCache where
  rules : List RateLimitRule
  lastUpdated : Nat

namespace RulesCache

/-- `CACHE_TTL`, in milliseconds. -/
def ttl : Nat := 60000

/-- The rules `getEnabledRules` returns at once, `none` when it has to ask the database.
An empty list is never served from the cache. -/
def getEnabledRules (now : Nat) (cache : RulesCache) : Option (List RateLimitRule) :=
  if 0 < cache.rules.length ∧ (now : Int) - cache.lastUpdated < ttl then some cache.rules
  else none

/-- `invalidateCache`. -/
def invalidated : RulesCache := ⟨[], 0⟩

/-- The cache answers with rules that are not empty and less than a minute old. -/
theorem getEnabledRules_eq_some_iff {now : Nat} {cache : RulesCache}
    {rules : List RateLimitRule} :
    cache.getEnabledRules now = some rules ↔
      cache.rules = rules ∧ rules ≠ [] ∧ now < cache.lastUpdated + ttl := by
  have hage : (now : Int) - cache.lastUpdated < ttl ↔ now < cache.lastUpdated + ttl := by omega
  simp only [getEnabledRules, hage, List.length_pos_iff, Option.ite_none_right_eq_some,
    Option.some.injEq]
  constructor
  · rintro ⟨⟨hrules, hnow⟩, rfl⟩
    exact ⟨rfl, hrules, hnow⟩
  · rintro ⟨rfl, hrules, hnow⟩
    exact ⟨⟨hrules, hnow⟩, rfl⟩

end RulesCache

end RateLimiter.Limiter
