import RateLimiter.Control.PatternCache
import RateLimiter.Gateway.Amounts
import RateLimiter.Limiter.CustomRules
import RateLimiter.Limiter.RulesAsWritten
import RateLimiter.Limiter.Service

/-!
# The decision path, with what it throws

Matching and resolving once more, with every place that throws and every `catch` around it,
down to the script and the arguments it reads.  The functions without exceptions compute what
these return, and this module says on which requests the whole path ends in a verdict.
-/

namespace RateLimiter.Limiter

open RateLimiter.Redis RateLimiter.Javascript RateLimiter.Control RateLimiter.Gateway

/-! ## Matching, with exceptions -/

namespace Throwing

section Match

variable (regExp : JsString → Option (JsString → Bool))

/-- `new RegExp(source)`. -/
def newRegExp (source : JsString) : Except Thrown (JsString → Bool) :=
  match regExp source with
  | some test => .ok test
  | none => .error (.error (js "Invalid regular expression: /" ++ source ++ js "/"))

/-- `String(x)` of what a rule sees. -/
def string (datum : Metadatum) : Except Thrown JsString :=
  match datum.text with
  | some text => .ok text
  | none => .error (.error (js "Cannot convert object to primitive value"))

/-- `compile`, past its cache. -/
def compile (pattern : JsString) : Except Thrown (Option (JsString → Bool)) :=
  tryCatch
    (if Matcher.Slashed pattern then some <$> newRegExp regExp (Matcher.inner pattern)
    else if unit '*' ∈ pattern ∨ unit '?' ∈ pattern then
      some <$> newRegExp regExp (js "^" ++ pattern.flatMap globUnit ++ js "$")
    else pure none)
    fun _ => pure none

def matchPattern (value pattern : JsString) : Except Thrown Bool :=
  if pattern = [] ∨ pattern = js "*" then pure true
  else if value = pattern then pure true
  else do
    match ← compile regExp pattern with
    | some test => pure (test value)
    | none => pure false

/-- `compileRaw`, past its cache. -/
def compileRaw (source : JsString) : Except Thrown (Option (JsString → Bool)) :=
  tryCatch
    (if hasNestedQuantifier source then pure none else some <$> newRegExp regExp source)
    fun _ => pure none

def matchRegex (value source : JsString) : Except Thrown Bool := do
  match ← compileRaw regExp source with
  | some test => pure (test (if value.length > maxSubject then value.take maxSubject else value))
  | none => pure false

/-- The body of the `try` in `matchCustomPattern`. -/
def tryCustomPattern (context : RuleMatchContext) (pattern : JsString) :
    Except Thrown Bool := do
  let (key, operator, value) ← parseCustomPattern pattern
  match context.metadata with
  | none => pure false
  | some metadata =>
      if (metadata key).truthy then do
        let metadataValue ← string (metadata key)
        if operator = unit '=' then pure (decide (metadataValue = value))
        else if operator = unit '~' then matchRegex regExp metadataValue value
        else pure false
      else pure false

def matchCustomPattern (context : RuleMatchContext) (pattern : JsString) : Except Thrown Bool :=
  tryCatch (tryCustomPattern regExp context pattern) fun _ => pure false

/-- A value against the pattern of a dimension. -/
def matchDimension (pattern : Option JsString) (value : JsString) : Except Thrown Bool :=
  match present pattern with
  | some pattern => matchPattern regExp value pattern
  | none => pure true

def isRuleMatch (rule : RateLimitRule) (context : RuleMatchContext) : Except Thrown Bool :=
  match rule.dimension.type with
  | .global => pure true
  | .user => matchDimension regExp rule.dimension.pattern context.identifier
  | .ip =>
      match present context.ip with
      | some ip => matchDimension regExp rule.dimension.pattern ip
      | none => pure false
  | .endpoint =>
      match present context.endpoint with
      | some endpoint => matchDimension regExp rule.dimension.pattern endpoint
      | none => pure false
  | .custom =>
      match present rule.dimension.pattern with
      | some pattern => matchCustomPattern regExp context pattern
      | none => pure false

/-- The loop of `findMatchingRule`. -/
def findMatchingRule (context : RuleMatchContext) :
    List RateLimitRule → Except Thrown (Option RateLimitRule)
  | [] => pure none
  | rule :: rules => do
      if ← isRuleMatch regExp rule context then pure (some rule)
      else findMatchingRule context rules

/-! ### Nothing is thrown -/

theorem compile_eq (pattern : JsString) :
    compile regExp pattern = .ok (Control.compile regExp pattern) := by
  unfold compile Control.compile newRegExp
  show _ = Except.ok (if Matcher.Slashed pattern then _ else _)
  split
  · cases hsource : regExp (Matcher.inner pattern) with
    | none =>
        have hcompile : regExp (pattern.drop 1).dropLast = none := hsource
        rw [hcompile]
        rfl
    | some test =>
        have hcompile : regExp (pattern.drop 1).dropLast = some test := hsource
        rw [hcompile]
        rfl
  · split
    · cases regExp (js "^" ++ pattern.flatMap globUnit ++ js "$") <;> rfl
    · rfl

theorem matchPattern_eq (value pattern : JsString) :
    matchPattern regExp value pattern = .ok (Control.matchPattern regExp value pattern) := by
  unfold matchPattern Control.matchPattern
  rw [compile_eq]
  split_ifs
  · rfl
  · rfl
  · cases Control.compile regExp pattern <;> rfl

theorem matchRegex_eq (value source : JsString) :
    matchRegex regExp value source = .ok (Control.matchRegex regExp value source) := by
  unfold matchRegex compileRaw newRegExp Control.matchRegex
  split
  · rfl
  · cases regExp source <;> rfl

/-- Whatever a custom pattern runs into is caught. -/
theorem matchCustomPattern_eq (context : RuleMatchContext) (pattern : JsString) :
    matchCustomPattern regExp context pattern =
      .ok (Limiter.matchCustomPattern regExp context pattern) := by
  unfold matchCustomPattern tryCustomPattern Limiter.matchCustomPattern
  cases parseCustomPattern pattern with
  | error thrown => rfl
  | ok parsed =>
      obtain ⟨key, operator, value⟩ := parsed
      cases context.metadata with
      | none => rfl
      | some metadata =>
          show tryCatch (if (metadata key).truthy then _ else _) _ = Except.ok (if _ then _ else _)
          split
          · unfold string
            cases (metadata key).text with
            | none => rfl
            | some metadataValue =>
                show tryCatch (if operator = unit '=' then pure _
                  else if operator = unit '~' then matchRegex regExp metadataValue value
                  else pure false) _ = Except.ok (if _ then _ else if _ then _ else _)
                split
                · rfl
                · split
                  · rw [matchRegex_eq]
                    rfl
                  · rfl
          · rfl

theorem matchDimension_eq (pattern : Option JsString) (value : JsString) :
    matchDimension regExp pattern value =
      .ok (Limiter.matchDimension regExp pattern value) := by
  unfold matchDimension Limiter.matchDimension
  cases present pattern with
  | none => rfl
  | some pattern => exact matchPattern_eq regExp value pattern

theorem isRuleMatch_eq (rule : RateLimitRule) (context : RuleMatchContext) :
    isRuleMatch regExp rule context = .ok (Limiter.isRuleMatch regExp rule context) := by
  unfold isRuleMatch Limiter.isRuleMatch
  cases rule.dimension.type with
  | global => rfl
  | user => exact matchDimension_eq regExp _ _
  | ip =>
      cases present context.ip with
      | none => rfl
      | some ip => exact matchDimension_eq regExp _ _
  | endpoint =>
      cases present context.endpoint with
      | none => rfl
      | some endpoint => exact matchDimension_eq regExp _ _
  | custom =>
      cases present rule.dimension.pattern with
      | none => rfl
      | some pattern => exact matchCustomPattern_eq regExp context pattern

theorem findMatchingRule_eq (context : RuleMatchContext) (rules : List RateLimitRule) :
    findMatchingRule regExp context rules =
      .ok (Limiter.findMatchingRule regExp rules context) := by
  induction rules with
  | nil => rfl
  | cons rule rules ih =>
      unfold findMatchingRule Limiter.findMatchingRule
      rw [isRuleMatch_eq, List.find?_cons]
      cases Limiter.isRuleMatch regExp rule context with
      | true => rfl
      | false => exact ih

end Match

end Throwing

/-! ## Accepted requests -/

/-- A count in an accepted body: still what the client sent, with the number that the schema
took it for. -/
structure Count (numeric : JsString → Option Rat) (max : Nat) where
  field : Field
  value : ℕ+
  accepted : ∃ sent, Gateway.integerField numeric 1 max sent = some field
  means : field.value numeric = some ((value : Nat) : Rat)

/-- A body that passed `checkRateLimitSchema`. -/
structure CheckRequest (numeric : JsString → Option Rat) where
  key : JsString
  identifier : JsString
  algorithm : Option RateLimitAlgorithm
  limit : Option (Count numeric 1000000)
  windowSeconds : Option (Count numeric 86400)
  endpoint : Option JsString
  metadata : Option (JsMap JsString Json)
  key_length : 1 ≤ key.length ∧ key.length ≤ 256
  identifier_length : 1 ≤ identifier.length ∧ identifier.length ≤ 256
  endpoint_ne : ∀ text ∈ endpoint, text ≠ []

namespace CheckRequest

variable {numeric : JsString → Option Rat} (r : CheckRequest numeric)

/-- The request as the service passes it on, with the address of the connection. -/
def request (ip : Option JsString) : RateLimitCheckRequest where
  key := r.key
  identifier := r.identifier
  endpoint := r.endpoint
  ip := ip
  metadata := r.metadata.map metadataOf

/-- The overrides as the arithmetic of the service sees them. -/
def overrides : CheckOverrides where
  algorithm := r.algorithm
  limit := r.limit.map Count.value
  windowSeconds := r.windowSeconds.map Count.value

end CheckRequest

/-! ## From the request to the script -/

namespace Throwing

variable {numeric : JsString → Option Rat}

/-- `resolveLimit`. -/
def resolveLimit (regExp : JsString → Option (JsString → Bool)) (defaults : Defaults)
    (request : RateLimitCheckRequest) (overrides : CheckOverrides)
    (rules : List RateLimitRule) : Except Thrown EffectiveLimit :=
  match overrides.stated with
  | some effective => pure effective
  | none => do
      match ← findMatchingRule regExp request.context rules with
      | some rule =>
          pure
            { algorithm := overrides.algorithm.getD rule.algorithm
              limit := overrides.limit.getD rule.limit
              windowSeconds := overrides.windowSeconds.getD rule.windowSeconds
              source := .rule
              ruleId := some rule.id
              ruleName := some rule.name }
      | none =>
          pure
            { algorithm := overrides.algorithm.getD defaults.algorithm
              limit := overrides.limit.getD defaults.limit
              windowSeconds := overrides.windowSeconds.getD defaults.windowSeconds
              source := .default
              ruleId := none
              ruleName := none }

/-- Resolving a limit throws nothing. -/
theorem resolveLimit_eq (regExp : JsString → Option (JsString → Bool)) (defaults : Defaults)
    (request : RateLimitCheckRequest) (overrides : CheckOverrides) (rules : List RateLimitRule) :
    resolveLimit regExp defaults request overrides rules =
      .ok (overrides.stated.getD
        (RateLimiterService.resolveLimit regExp defaults request overrides rules)) := by
  unfold resolveLimit RateLimiterService.resolveLimit
  cases overrides.stated with
  | some effective => rfl
  | none =>
      rw [findMatchingRule_eq]
      cases Limiter.findMatchingRule regExp rules request.context <;> rfl

/-- What the script is sent of a number that the request may have stated itself: a string goes
out as it came. -/
def sent {max : Nat} (stated : Option (Count numeric max)) (value : ℕ+) : JsString :=
  match stated with
  | some count => count.field.text
  | none => natText value

/-- The arguments that are sent as they are: the limit, and by the fixed window the window.
All others the service has computed. -/
def arguments (r : CheckRequest numeric) (effective : EffectiveLimit) : List JsString :=
  sent r.limit effective.limit ::
    if effective.algorithm = .fixedWindow then
      [sent r.windowSeconds effective.windowSeconds]
    else []

/-- The rest of `check`, once the limit is resolved.  A script that reads `nil` for a number
fails, whatever is stored. -/
def checkResolved (r : CheckRequest numeric) (effective : EffectiveLimit) (pid : Nat) (clock : Int)
    (now : Nat) (stores : Stores) :
    Except Thrown ((Stores × RateLimitCheckResult) × EffectiveLimit) := do
  let algorithm ← AlgorithmFactory.getAlgorithm pid effective.algorithm
  if (arguments r effective).all fun text => (tonumber text).isSome then do
    let result ← algorithm clock effective.quota now r.key stores
    pure (result, effective)
  else .error (.error (js "ERR Error running script"))

/-- `check`. -/
def check (regExp : JsString → Option (JsString → Bool)) (defaults : Defaults) (pid : Nat)
    (clock : Int) (now : Nat) (ip : Option JsString) (rules : List RateLimitRule)
    (r : CheckRequest numeric) (stores : Stores) :
    Except Thrown ((Stores × RateLimitCheckResult) × EffectiveLimit) := do
  let effective ← resolveLimit regExp defaults (r.request ip) r.overrides rules
  checkResolved r effective pid clock now stores

/-- The script is reached where the algorithm exists, and answers where it can read its
arguments. -/
theorem checkResolved_ok_iff (r : CheckRequest numeric) (effective : EffectiveLimit) (pid : Nat)
    (clock : Int) (now : Nat) (stores : Stores) :
    (∃ decision, checkResolved r effective pid clock now stores = .ok decision) ↔
      effective.algorithm ≠ .leakyBucket ∧
        ((arguments r effective).all fun text => (tonumber text).isSome) = true := by
  have hrun : ∀ algorithm result,
      AlgorithmFactory.getAlgorithm pid effective.algorithm = .ok algorithm →
        algorithm clock effective.quota now r.key stores = .ok result →
          ((∃ decision, checkResolved r effective pid clock now stores = .ok decision) ↔
            ((arguments r effective).all fun text => (tonumber text).isSome) = true) := by
    intro algorithm result hget hresult
    have hbind : checkResolved r effective pid clock now stores =
        if (arguments r effective).all fun text => (tonumber text).isSome then
          .ok (result, effective)
        else .error (.error (js "ERR Error running script")) := by
      unfold checkResolved
      rw [hget]
      show (if _ then (algorithm clock effective.quota now r.key stores).bind _ else _) = _
      rw [hresult]
      rfl
    rw [hbind]
    split
    next h => exact iff_of_true ⟨_, rfl⟩ h
    next h =>
      refine iff_of_false ?_ h
      rintro ⟨decision, hdecision⟩
      cases hdecision
  cases halgorithm : effective.algorithm with
  | tokenBucket =>
      rw [halgorithm] at hrun
      exact (hrun _ _ rfl rfl).trans (and_iff_right (by decide)).symm
  | slidingWindow =>
      rw [halgorithm] at hrun
      exact (hrun _ _ rfl rfl).trans (and_iff_right (by decide)).symm
  | fixedWindow =>
      rw [halgorithm] at hrun
      exact (hrun _ _ rfl rfl).trans (and_iff_right (by decide)).symm
  | leakyBucket =>
      refine iff_of_false ?_ fun h => h.1 rfl
      rintro ⟨decision, hdecision⟩
      unfold checkResolved at hdecision
      rw [halgorithm] at hdecision
      cases hdecision

end Throwing

/-! ## What the script can read -/

/-- Whatever counts as blank in the text is a blank of the basic alphabet. -/
def AsciiBlanks (text : JsString) : Prop := ∀ c ∈ text, jsBlank c = true → luaBlank c = true

/-- A decimal numeral is a number to the script unless a blank around it is none there. -/
theorem tonumber_isSome_iff {text : JsString} {n : Numeral}
    (h : readNumeral jsBlank text = some n) :
    (tonumber text).isSome = true ↔ AsciiBlanks text := by
  unfold tonumber
  rw [Option.isSome_map, Option.isSome_iff_exists]
  constructor
  · rintro ⟨m, hm⟩ c hc hblank
    obtain ⟨hwf, letter, hletter, rfl⟩ := readNumeral_spec hm
    simp only [List.mem_append] at hc
    rcases hc with hc | hc | hc
    · exact hwf.lead c hc
    · have hmark := isMark_of_mem_body hwf hletter hc
      rw [blanks_jsBlank c hblank] at hmark
      exact absurd hmark Bool.false_ne_true
    · exact hwf.trail c hc
  · intro hascii
    refine ⟨n, (readNumeral_congr fun c hc => ?_).trans h⟩
    rw [Bool.eq_iff_iff]
    exact ⟨jsBlank_of_luaBlank c, hascii c hc⟩

/-- A number that is read is the one the text spells. -/
theorem tonumber_eq {text : JsString} {n : Numeral} (h : readNumeral jsBlank text = some n)
    (hread : (tonumber text).isSome = true) : tonumber text = some n.value := by
  have hascii := (tonumber_isSome_iff h).mp hread
  have hsame : readNumeral luaBlank text = some n := by
    refine (readNumeral_congr fun c hc => ?_).trans h
    rw [Bool.eq_iff_iff]
    exact ⟨jsBlank_of_luaBlank c, hascii c hc⟩
  unfold tonumber
  rw [hsame]
  rfl

section Counts

variable {numeric : JsString → Option Rat} (hjoi : Numeric numeric) {max : Nat}

include hjoi

theorem Count.numeral (count : Count numeric max) :
    ∃ n, readNumeral jsBlank count.field.text = some n ∧ n.value = (count.value : Nat) := by
  obtain ⟨json, haccepted⟩ := count.accepted
  obtain ⟨m, hvalue, -, n, hread, hn⟩ := field_numeral hjoi haccepted
  refine ⟨n, hread, ?_⟩
  rw [hn]
  exact Option.some.inj (hvalue.symm.trans count.means)

/-- The script reads the number that the schema took the count for, or none. -/
theorem Count.tonumber_eq (count : Count numeric max)
    (h : (tonumber count.field.text).isSome = true) :
    tonumber count.field.text = some ((count.value : Nat) : Rat) := by
  obtain ⟨n, hread, hvalue⟩ := count.numeral hjoi
  rw [Limiter.tonumber_eq hread h, hvalue]

theorem sent_isSome_iff (stated : Option (Count numeric max)) (value : ℕ+) :
    (tonumber (Throwing.sent stated value)).isSome = true ↔
      ∀ count ∈ stated, AsciiBlanks count.field.text := by
  cases stated with
  | none =>
      have hread := readNumeral_natText (blanks_jsBlank.mono jsBlank_of_luaBlank) value
      have htext : tonumber (natText value) = _ := congrArg (Option.map Numeral.value) hread
      show (tonumber (natText value)).isSome = true ↔ _
      rw [htext]
      exact iff_of_true rfl fun count hcount => by cases hcount
  | some count =>
      obtain ⟨n, hread, -⟩ := count.numeral hjoi
      refine (tonumber_isSome_iff hread).trans ⟨fun h other hother => ?_, fun h => h count rfl⟩
      obtain rfl := Option.some.inj hother
      exact h

end Counts

/-! ## When a check answers -/

section Answers

variable {numeric : JsString → Option Rat} (regExp : JsString → Option (JsString → Bool))
  (defaults : Defaults) (ip : Option JsString) (rules : List RateLimitRule)
  (r : CheckRequest numeric)

/-- The algorithm that applies: what the request asks for, else that of the first rule it
matches, else the default. -/
def appliedAlgorithm : RateLimitAlgorithm :=
  r.algorithm.getD
    ((findMatchingRule regExp rules (r.request ip).context).elim defaults.algorithm
      RateLimitRule.algorithm)

/-- The algorithm exists and its script can read what is sent as it came. -/
structure Executable : Prop where
  algorithm : appliedAlgorithm regExp defaults ip rules r ≠ .leakyBucket
  limit : ∀ count ∈ r.limit, AsciiBlanks count.field.text
  window : appliedAlgorithm regExp defaults ip rules r = .fixedWindow →
    ∀ count ∈ r.windowSeconds, AsciiBlanks count.field.text

/-- The limit that is resolved for the request. -/
def resolvedLimit : EffectiveLimit :=
  r.overrides.stated.getD
    (RateLimiterService.resolveLimit regExp defaults (r.request ip) r.overrides rules)

theorem algorithm_resolvedLimit :
    (resolvedLimit regExp defaults ip rules r).algorithm =
      appliedAlgorithm regExp defaults ip rules r := by
  unfold resolvedLimit appliedAlgorithm
  cases hstated : r.overrides.stated with
  | some effective =>
      unfold CheckOverrides.stated at hstated
      split at hstated
      next algorithm limit windowSeconds halgorithm _ _ =>
        obtain rfl := Option.some.inj hstated
        have hasked : r.algorithm = some algorithm := halgorithm
        rw [hasked]
        rfl
      next => cases hstated
  | none =>
      unfold RateLimiterService.resolveLimit
      cases findMatchingRule regExp rules (r.request ip).context <;> rfl

theorem arguments_iff (hjoi : Numeric numeric) (effective : EffectiveLimit) :
    ((Throwing.arguments r effective).all fun text => (tonumber text).isSome) = true ↔
      (∀ count ∈ r.limit, AsciiBlanks count.field.text) ∧
        (effective.algorithm = .fixedWindow →
          ∀ count ∈ r.windowSeconds, AsciiBlanks count.field.text) := by
  unfold Throwing.arguments
  rw [List.all_cons, Bool.and_eq_true, sent_isSome_iff hjoi]
  refine and_congr_right fun _ => ?_
  split
  next hfixed =>
    rw [List.all_cons, List.all_nil, Bool.and_true, sent_isSome_iff hjoi]
    exact ⟨fun h _ => h, fun h => h hfixed⟩
  next hother => exact iff_of_true rfl fun hfixed => absurd hfixed hother

/-- **The decision path.**  A check of an accepted request ends in a verdict exactly when the
algorithm that applies exists and its script can read the counts the request states. -/
theorem check_answers_iff (hjoi : Numeric numeric) (pid : Nat) (clock : Int) (now : Nat)
    (stores : Stores) :
    (∃ decision, Throwing.check regExp defaults pid clock now ip rules r stores = .ok decision) ↔
      Executable regExp defaults ip rules r := by
  have harguments := arguments_iff r hjoi (resolvedLimit regExp defaults ip rules r)
  have halgorithm := algorithm_resolvedLimit regExp defaults ip rules r
  have hcheck : Throwing.check regExp defaults pid clock now ip rules r stores =
      Throwing.checkResolved r (resolvedLimit regExp defaults ip rules r) pid clock now stores := by
    unfold Throwing.check
    rw [Throwing.resolveLimit_eq]
    rfl
  rw [hcheck, Throwing.checkResolved_ok_iff, harguments, halgorithm]
  constructor
  · rintro ⟨hexists, hlimit, hwindow⟩
    exact ⟨hexists, hlimit, hwindow⟩
  · rintro ⟨hexists, hlimit, hwindow⟩
    exact ⟨hexists, hlimit, hwindow⟩

end Answers

/-- A rule for all requests, with any algorithm of the schema. -/
def globalRule (algorithm : RateLimitAlgorithm) : AcceptedRule where
  val :=
    { name := js "all"
      description := none
      algorithm := algorithm
      limit := 10
      windowSeconds := 60
      dimensionType := .global
      dimensionPattern := none
      priority := none
      enabled := none
      tags := none }
  property := by cases algorithm <;> decide +kernel

/-- What a check reads of that rule once it is stored. -/
def storedGlobalRule (algorithm : RateLimitAlgorithm) : RateLimitRule :=
  (mapRowToRule (createdRow (js "1") (globalRule algorithm) 0)).toRateLimitRule

/-- A request that leaves its limit to the rules. -/
def plainCheck : CheckRequest readNumber where
  key := js "k"
  identifier := js "u"
  algorithm := none
  limit := none
  windowSeconds := none
  endpoint := none
  metadata := none
  key_length := by decide
  identifier_length := by decide
  endpoint_ne := fun _ h => by cases h

/-- Nothing is stored. -/
def emptyStores : Stores := ⟨fun _ => .absent, fun _ => .absent, fun _ => none, 0⟩

/-- Under a rule with a token bucket. -/
theorem check_answers_token_bucket :
    ∃ decision, Throwing.check (fun _ => none) ⟨.tokenBucket, 1000, 60⟩ 1 0 0 none
      [storedGlobalRule .tokenBucket] plainCheck emptyStores = .ok decision :=
  (check_answers_iff (fun _ => none) ⟨.tokenBucket, 1000, 60⟩ none
    [storedGlobalRule .tokenBucket] plainCheck numeric_readNumber 1 0 0 emptyStores).mpr
      { algorithm := by decide
        limit := fun _ h => by cases h
        window := fun h => by cases h }

/-- An accepted rule with a leaky bucket fails every check it applies to. -/
theorem leaky_bucket_fails_checks :
    ¬ ∀ {numeric : JsString → Option Rat} (_ : Numeric numeric)
      (regExp : JsString → Option (JsString → Bool)) (defaults : Defaults) (pid : Nat)
      (clock : Int) (now : Nat) (ip : Option JsString) (rules : List (JsString × AcceptedRule))
      (r : CheckRequest numeric) (stores : Stores),
        ∃ decision, Throwing.check regExp defaults pid clock now ip
          (rules.map fun rule => (mapRowToRule (createdRow rule.1 rule.2 0)).toRateLimitRule)
          r stores = .ok decision := by
  intro h
  obtain ⟨decision, hdecision⟩ := h numeric_readNumber (fun _ => none) ⟨.tokenBucket, 1000, 60⟩
    1 0 0 none [(js "1", globalRule .leakyBucket)] plainCheck emptyStores
  have hfails : Throwing.check (fun _ => none) ⟨.tokenBucket, 1000, 60⟩ 1 0 0 none
      [storedGlobalRule .leakyBucket] plainCheck emptyStores =
        .error (.error (js "Unsupported algorithm: " ++ RateLimitAlgorithm.leakyBucket.text)) :=
    rfl
  cases hfails.symm.trans hdecision

end RateLimiter.Limiter
