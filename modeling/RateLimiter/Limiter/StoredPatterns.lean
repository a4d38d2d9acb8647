import RateLimiter.Control.PatternCache
import RateLimiter.Control.PolicyTable
import RateLimiter.Limiter.Rules

/-!
# Where stored patterns are run

Rule and policy lookups on the one cache of compiled patterns.  Each lookup is written
again as the source runs it, beside what it compares on the way, and the expressions it
runs are told from that.
-/

namespace RateLimiter.Limiter

open RateLimiter.Foundations RateLimiter.Javascript RateLimiter.Control
open RateLimiter.Admission (Pair)

/-! ## Searches on the cache -/

section Search

variable {α : Type}

/-- The calls of a search: those for each element, up to the first that matches. -/
def searchCalls (found : α → Bool) (calls : α → List Matcher.Call) : List α → List Matcher.Call
  | [] => []
  | a :: as => calls a ++ if found a then [] else searchCalls found calls as

/-- A search performs what it performs for each element it looks at. -/
theorem findM?_performs {regExp : JsString → Option (JsString → Bool)}
    {p : α → StateM Matcher Bool} {found : α → Bool} {calls : α → List Matcher.Call}
    (h : ∀ a, Matcher.Performs regExp (p a) (found a) (calls a)) (as : List α) :
    Matcher.Performs regExp (as.findM? p) (as.find? found) (searchCalls found calls as) := by
  induction as with
  | nil => exact .pure none
  | cons a as ih =>
      apply (h a).bind
      cases hfound : found a with
      | true =>
          rw [List.find?_cons_of_pos hfound]
          exact .pure (some a)
      | false =>
          rw [List.find?_cons_of_neg (by simp [hfound])]
          exact ih

end Search

/-! ## Lookups on the cache -/

namespace OnCache

section Lookups

variable (regExp : JsString → Option (JsString → Bool))

/-- `matchCustomPattern`. -/
def matchCustomPattern (context : RuleMatchContext) (pattern : JsString) :
    StateM Matcher Bool :=
  match parseCustomPattern pattern, context.metadata with
  | .ok (key, operator, value), some metadata =>
      if (metadata key).truthy then
        match (metadata key).text with
        | some metadataValue =>
            if operator = unit '=' then pure (metadataValue = value)
            else if operator = unit '~' then Matcher.matchRegex regExp metadataValue value
            else pure false
        | none => pure false
      else pure false
  | _, _ => pure false

/-- A value against the pattern of a dimension. -/
def matchDimension (pattern : Option JsString) (value : JsString) : StateM Matcher Bool :=
  match present pattern with
  | some pattern => Matcher.matchPattern regExp value pattern
  | none => pure true

/-- `isRuleMatch`. -/
def isRuleMatch (rule : RateLimitRule) (context : RuleMatchContext) : StateM Matcher Bool :=
  match rule.dimension.type with
  | .global => pure true
  | .user => matchDimension regExp rule.dimension.pattern context.identifier
  | .ip =>
      match present context.ip with
      | some ip => matchDimension regExp rule.dimension.pattern ip
      | none => pure false
  | .endpoint =>
      match present context.endpoint with
      | some endpoint => matchDimension regExp rule.dimension.pattern endpoint
      | none => pure false
  | .custom =>
      match present rule.dimension.pattern with
      | some pattern => matchCustomPattern regExp context pattern
      | none => pure false

/-- The loop of `findMatchingRule`. -/
def findMatchingRule (rules : List RateLimitRule) (context : RuleMatchContext) :
    StateM Matcher (Option RateLimitRule) :=
  rules.findM? fun rule => isRuleMatch regExp rule context

/-- The test of the search in `resolve`. -/
def covers (pair : Pair) (policy : StoredPolicy) : StateM Matcher Bool := do
  if ← Matcher.matchPattern regExp pair.1 policy.tenantPattern then
    Matcher.matchPattern regExp pair.2 policy.modelPattern
  else pure false

/-- The search in `resolve`. -/
def findPolicy (policies : List StoredPolicy) (pair : Pair) :
    StateM Matcher (Option StoredPolicy) :=
  policies.findM? (covers regExp pair)

end Lookups

end OnCache

/-! ## What a lookup compares -/

section Compared

open Matcher

/-- What a custom rule compares. -/
def customCalls (context : RuleMatchContext) (pattern : JsString) : List Matcher.Call :=
  match parseCustomPattern pattern, context.metadata with
  | .ok (key, operator, value), some metadata =>
      if (metadata key).truthy ∧ operator = unit '~' then
        (metadata key).text.toList.map fun metadataValue => .onRegex metadataValue value
      else []
  | _, _ => []

/-- What a value is compared with. -/
def dimensionCalls (pattern : Option JsString) (value : JsString) : List Matcher.Call :=
  (present pattern).toList.map fun pattern => .onPattern value pattern

/-- What a rule compares of a request. -/
def ruleCalls (context : RuleMatchContext) (rule : RateLimitRule) : List Matcher.Call :=
  match rule.dimension.type with
  | .global => []
  | .user => dimensionCalls rule.dimension.pattern context.identifier
  | .ip => (present context.ip).toList.flatMap (dimensionCalls rule.dimension.pattern)
  | .endpoint => (present context.endpoint).toList.flatMap (dimensionCalls rule.dimension.pattern)
  | .custom => (present rule.dimension.pattern).toList.flatMap (customCalls context)

variable (regExp : JsString → Option (JsString → Bool))

/-- What a policy compares of a pair: the model only when the tenant matches. -/
def policyCalls (pair : Pair) (policy : StoredPolicy) : List Matcher.Call :=
  .onPattern pair.1 policy.tenantPattern ::
    if Control.matchPattern regExp pair.1 policy.tenantPattern then
      [.onPattern pair.2 policy.modelPattern]
    else []

/-- A lookup that is not answered from memory, with the rules or the policies it goes
through. -/
inductive StoredLookup
  | rule (rules : List RateLimitRule) (context : RuleMatchContext)
  | policy (policies : List StoredPolicy) (pair : Pair)

/-- What a lookup compares. -/
def StoredLookup.calls : StoredLookup → List Matcher.Call
  | .rule rules context =>
      searchCalls (fun rule => isRuleMatch regExp rule context) (ruleCalls context) rules
  | .policy policies pair =>
      searchCalls (fun policy => covers regExp policy.tenantPattern policy.modelPattern pair)
        (policyCalls regExp pair) policies

/-- What a lookup leaves. -/
def StoredLookup.step (m : Matcher) : StoredLookup → Matcher
  | .rule rules context => (OnCache.findMatchingRule regExp rules context m).2
  | .policy policies pair => (OnCache.findPolicy regExp policies pair m).2

end Compared

/-! ## Each lookup performs what it compares -/

section Performs

open Matcher

variable {regExp : JsString → Option (JsString → Bool)}

theorem matchCustomPattern_performs (context : RuleMatchContext) (pattern : JsString) :
    Performs regExp (OnCache.matchCustomPattern regExp context pattern)
      (matchCustomPattern regExp context pattern) (customCalls context pattern) := by
  unfold OnCache.matchCustomPattern matchCustomPattern customCalls
  cases parseCustomPattern pattern with
  | error thrown => exact .pure false
  | ok parsed =>
      obtain ⟨key, operator, value⟩ := parsed
      cases context.metadata with
      | none => exact .pure false
      | some metadata =>
          dsimp only
          by_cases htruthy : (metadata key).truthy = true
          · rw [if_pos htruthy, if_pos htruthy]
            cases htext : (metadata key).text with
            | none => simpa using Performs.pure false
            | some metadataValue =>
                dsimp only
                by_cases hequals : operator = unit '='
                · have hother : unit '=' ≠ unit '~' := by decide
                  rw [if_pos hequals, if_pos hequals, if_neg fun h => hother (hequals ▸ h.2)]
                  exact .pure _
                · rw [if_neg hequals, if_neg hequals]
                  by_cases hregex : operator = unit '~'
                  · rw [if_pos hregex, if_pos hregex, if_pos ⟨htruthy, hregex⟩]
                    exact matchRegex_performs metadataValue value
                  · rw [if_neg hregex, if_neg hregex, if_neg fun h => hregex h.2]
                    exact .pure false
          · rw [if_neg htruthy, if_neg htruthy, if_neg fun h => htruthy h.1]
            exact .pure false

theorem matchDimension_performs (pattern : Option JsString) (value : JsString) :
    Performs regExp (OnCache.matchDimension regExp pattern value)
      (matchDimension regExp pattern value) (dimensionCalls pattern value) := by
  unfold OnCache.matchDimension matchDimension dimensionCalls
  cases present pattern with
  | some pattern => exact matchPattern_performs value pattern
  | none => exact .pure true

theorem isRuleMatch_performs (context : RuleMatchContext) (rule : RateLimitRule) :
    Performs regExp (OnCache.isRuleMatch regExp rule context)
      (isRuleMatch regExp rule context) (ruleCalls context rule) := by
  unfold OnCache.isRuleMatch isRuleMatch ruleCalls
  cases rule.dimension.type with
  | global => exact .pure true
  | user => exact matchDimension_performs _ _
  | ip =>
      cases present context.ip with
      | some ip => simpa using matchDimension_performs rule.dimension.pattern ip
      | none => exact .pure false
  | endpoint =>
      cases present context.endpoint with
      | some endpoint => simpa using matchDimension_performs rule.dimension.pattern endpoint
      | none => exact .pure false
  | custom =>
      cases present rule.dimension.pattern with
      | some pattern => simpa using matchCustomPattern_performs context pattern
      | none => exact .pure false

theorem covers_performs (pair : Pair) (policy : StoredPolicy) :
    Performs regExp (OnCache.covers regExp pair policy)
      (covers regExp policy.tenantPattern policy.modelPattern pair)
      (policyCalls regExp pair policy) := by
  apply (matchPattern_performs pair.1 policy.tenantPattern).bind
  unfold covers
  cases Control.matchPattern regExp pair.1 policy.tenantPattern with
  | true => exact matchPattern_performs pair.2 policy.modelPattern
  | false => exact .pure false

/-- A lookup finds what it finds without the cache. -/
theorem findMatchingRule_performs (rules : List RateLimitRule) (context : RuleMatchContext) :
    Performs regExp (OnCache.findMatchingRule regExp rules context)
      (findMatchingRule regExp rules context) ((StoredLookup.rule rules context).calls regExp) :=
  findM?_performs (fun rule => isRuleMatch_performs context rule) rules

theorem findPolicy_performs (policies : List StoredPolicy) (pair : Pair) :
    Performs regExp (OnCache.findPolicy regExp policies pair)
      (policies.find? fun policy => covers regExp policy.tenantPattern policy.modelPattern pair)
      ((StoredLookup.policy policies pair).calls regExp) :=
  findM?_performs (covers_performs pair) policies

/-- One lookup keeps the cache sound, and runs what its comparisons run. -/
theorem StoredLookup.step_spec {m : Matcher} (h : Sound regExp m.cache) (lookup : StoredLookup) :
    Sound regExp (lookup.step regExp m).cache ∧
      (lookup.step regExp m).executed =
        m.executed ++ (lookup.calls regExp).flatMap (Matcher.Call.executions regExp) := by
  cases lookup with
  | rule rules context => exact (findMatchingRule_performs rules context m h).2
  | policy policies pair => exact (findPolicy_performs policies pair m h).2

/-- So does a run of them. -/
theorem lookups_spec {m : Matcher} (h : Sound regExp m.cache) (lookups : List StoredLookup) :
    Sound regExp (run (StoredLookup.step regExp) m lookups).cache ∧
      (run (StoredLookup.step regExp) m lookups).executed =
        m.executed ++ (lookups.flatMap (StoredLookup.calls regExp)).flatMap
          (Matcher.Call.executions regExp) := by
  induction lookups generalizing m with
  | nil => exact ⟨h, (List.append_nil _).symm⟩
  | cons lookup lookups ih =>
      obtain ⟨hsound, hexecuted⟩ := lookup.step_spec h
      obtain ⟨hsound', hexecuted'⟩ := ih hsound
      refine ⟨hsound', hexecuted'.trans ?_⟩
      rw [hexecuted, List.flatMap_cons, List.flatMap_append, List.append_assoc]

end Performs

/-! ## Which executions are guarded -/

/-- An expression that an operator wrote has passed the guard, and is run against a bounded
subject. -/
def Guarded (e : Execution) : Prop :=
  e.origin = .operator → hasNestedQuantifier e.source = false ∧ e.subject.length ≤ maxSubject

section Guard

open Matcher

variable (regExp : JsString → Option (JsString → Bool))

/-- When a call compares a value with another text of the form `/source/` that compiles,
the source passes the guard and the value is short. -/
def Harmless : Matcher.Call → Prop
  | .onPattern value pattern =>
      Slashed pattern → value ≠ pattern → (regExp (inner pattern)).isSome →
        hasNestedQuantifier (inner pattern) = false ∧ value.length ≤ maxSubject
  | .onRegex _ _ => True

variable {regExp}

theorem guarded_newRegExp_iff (origin : Origin) (source subject : JsString) :
    (∀ e ∈ executions (newRegExp regExp origin source) subject, Guarded e) ↔
      ((regExp source).isSome → Guarded ⟨source, origin, subject⟩) := by
  unfold newRegExp
  cases regExp source with
  | some test => simp [executions]
  | none => simp [executions]

/-- What `matchRegex` runs is guarded. -/
theorem guarded_regex (value source : JsString) :
    ∀ e ∈ (Matcher.Call.onRegex value source).executions regExp, Guarded e := by
  show ∀ e ∈ executions (compiledRaw regExp source) _, Guarded e
  unfold compiledRaw
  split
  next => exact fun e he => absurd he List.not_mem_nil
  next hnested =>
      rw [guarded_newRegExp_iff]
      intro _ _
      refine ⟨by simpa using hnested, ?_⟩
      show (if value.length > maxSubject then value.take maxSubject else value).length ≤ _
      split
      next => exact List.length_take_le _ _
      next hshort => exact Nat.le_of_not_lt hshort

theorem ne_star_of_slashed {pattern : JsString} (h : Slashed pattern) :
    pattern ≠ [] ∧ pattern ≠ js "*" := by
  obtain ⟨hlength, -⟩ := h
  constructor
  · rintro rfl
    exact absurd hlength (by decide)
  · rintro rfl
    exact absurd hlength (by decide)

/-- What `matchPattern` runs is guarded, exactly when the call is harmless. -/
theorem guarded_pattern_iff (value pattern : JsString) :
    (∀ e ∈ (Matcher.Call.onPattern value pattern).executions regExp, Guarded e) ↔
      Harmless regExp (.onPattern value pattern) := by
  unfold Matcher.Call.executions Harmless
  dsimp only
  by_cases hslashed : Slashed pattern
  · obtain ⟨hempty, hstar⟩ := ne_star_of_slashed hslashed
    have hcompiled : compiled regExp pattern = newRegExp regExp .operator (inner pattern) :=
      if_pos hslashed
    by_cases hsame : value = pattern
    · rw [if_pos (.inr (.inr hsame))]
      exact iff_of_true (fun e he => absurd he List.not_mem_nil) fun _ hne => absurd hsame hne
    · rw [if_neg (by tauto), hcompiled, guarded_newRegExp_iff]
      constructor
      · exact fun h _ _ hsome => h hsome rfl
      · exact fun h hsome _ => h hslashed hsame hsome
  · refine iff_of_true ?_ fun h => absurd h hslashed
    split_ifs with hdone
    · exact fun e he => absurd he List.not_mem_nil
    · -- what is made from a glob is not the operator's own
      have hglob : ∀ regex ∈ compiled regExp pattern, regex.origin = .glob := by
        intro regex hregex
        unfold compiled at hregex
        rw [if_neg hslashed] at hregex
        split at hregex
        next =>
          obtain ⟨test, -, rfl⟩ := Option.map_eq_some_iff.mp hregex
          rfl
        next => cases hregex
      intro e he
      cases hcompiled : compiled regExp pattern with
      | none => simp [hcompiled, executions] at he
      | some regex =>
          rw [hcompiled] at he
          obtain rfl := List.mem_singleton.mp he
          intro horigin
          have := (hglob regex hcompiled).symm.trans horigin
          cases this

theorem guarded_iff (call : Matcher.Call) :
    (∀ e ∈ call.executions regExp, Guarded e) ↔ Harmless regExp call := by
  cases call with
  | onPattern value pattern => exact guarded_pattern_iff value pattern
  | onRegex value source => exact iff_of_true (guarded_regex value source) trivial

end Guard

/-- **Stored expressions.**  Over any run of lookups every expression of an operator that is
run has passed the guard and is run against a short subject, exactly when every comparison
of the run is harmless. -/
theorem stored_expressions_guarded_iff (regExp : JsString → Option (JsString → Bool))
    (lookups : List StoredLookup) :
    (∀ e ∈ (run (StoredLookup.step regExp) Matcher.initial lookups).executed, Guarded e) ↔
      ∀ lookup ∈ lookups, ∀ call ∈ lookup.calls regExp, Harmless regExp call := by
  have hexecuted : (run (StoredLookup.step regExp) Matcher.initial lookups).executed =
      Matcher.initial.executed ++
        (lookups.flatMap (StoredLookup.calls regExp)).flatMap (Matcher.Call.executions regExp) :=
    (lookups_spec Matcher.Sound.initial lookups).2
  have hempty : Matcher.initial.executed = [] := rfl
  rw [hexecuted, hempty, List.nil_append]
  constructor
  · intro h lookup hlookup call hcall
    refine (guarded_iff call).mp fun e he => h e ?_
    exact List.mem_flatMap.mpr ⟨call, List.mem_flatMap.mpr ⟨lookup, hlookup, hcall⟩, he⟩
  · intro h e he
    obtain ⟨call, hcall, he⟩ := List.mem_flatMap.mp he
    obtain ⟨lookup, hlookup, hcall⟩ := List.mem_flatMap.mp hcall
    exact (guarded_iff call).mpr (h lookup hlookup call hcall) e he

/-- A rule for the endpoints that `/(a+)+$/` matches. -/
def backtrackingRule : RateLimitRule where
  id := js "1"
  name := js "admin"
  algorithm := .tokenBucket
  limit := Nat.toPNat' 100
  windowSeconds := Nat.toPNat' 60
  dimension := ⟨.endpoint, some (js "/(a+)+$/")⟩

/-- The expression of a dimension is run although the guard rejects it. -/
theorem slashed_pattern_unguarded :
    ¬ ∀ (regExp : JsString → Option (JsString → Bool)) (lookups : List StoredLookup),
      ∀ e ∈ (run (StoredLookup.step regExp) Matcher.initial lookups).executed, Guarded e := by
  intro h
  have hguarded := h (fun _ => some fun _ => false)
    [.rule [backtrackingRule] ⟨js "alice", some (js "aaaa!"), none, none⟩]
    ⟨js "(a+)+$", .operator, js "aaaa!"⟩ (by decide +kernel) rfl
  revert hguarded
  decide +kernel

end RateLimiter.Limiter
