import RateLimiter.Javascript.Json
import RateLimiter.Limiter.Rules

/-!
# Custom rules

What a rule with pattern `key=value` compares when the metadata of a request is an object
of a JSON body, and when that is what the pattern says.
-/

namespace RateLimiter.Limiter

open RateLimiter.Javascript RateLimiter.Control

/-! ## Metadata -/

/-- What a rule sees of a member of the metadata. -/
def memberDatum : Member Json → Metadatum
  | .own x => ⟨x.truthy, x.text⟩
  | .inherited text => ⟨true, some text⟩
  | .undefined => ⟨false, some (js "undefined")⟩

/-- `context.metadata[key]`, for the metadata of a request body. -/
def metadataOf (metadata : JsMap JsString Json) (key : JsString) : Metadatum :=
  memberDatum (metadata.member key)

/-! ## Reading a pattern -/

section Patterns

variable {key value : JsString}

/-- Where the key of a pattern ends. -/
theorem key_split (hkey : ∀ c ∈ key, isWord c = true) {operator : CodeUnit}
    (hoperator : isWord operator = false) (value : JsString) :
    (key ++ operator :: value).takeWhile isWord = key ∧
      (key ++ operator :: value).dropWhile isWord = operator :: value := by
  constructor
  · rw [List.takeWhile_append_of_pos hkey, List.takeWhile_cons_of_neg (by simp [hoperator]),
      List.append_nil]
  · rw [List.dropWhile_append_of_pos hkey, List.dropWhile_cons_of_neg (by simp [hoperator])]

theorem matchOperator_eq (hkey : ∀ c ∈ key, isWord c = true) {c : CodeUnit}
    (hc : isWord c = false) (operator : CodeUnit) (value : JsString) :
    matchOperator operator (key ++ c :: value) =
      if key ≠ [] ∧ c = operator ∧ value ≠ [] ∧ value.all (fun c => !isLineTerminator c) then
        some (key, value)
      else none := by
  obtain ⟨htake, hdrop⟩ := key_split hkey hc value
  unfold matchOperator
  rw [hdrop, htake]

/-- A value that may stand in a pattern. -/
structure IsValue (value : JsString) : Prop where
  ne_nil : value ≠ []
  one_line : ∀ c ∈ value, isLineTerminator c = false

theorem isValue_iff :
    IsValue value ↔ value ≠ [] ∧ value.all (fun c => !isLineTerminator c) = true := by
  rw [List.all_eq_true]
  constructor
  · rintro ⟨hne, hline⟩
    exact ⟨hne, fun c hc => by rw [hline c hc]; rfl⟩
  · rintro ⟨hne, hline⟩
    exact ⟨hne, fun c hc => by simpa using hline c hc⟩

/-- The first operator behind the key is the one that counts, whatever the value holds. -/
theorem parseCustomPattern_eq (hkey : ∀ c ∈ key, isWord c = true) (hne : key ≠ [])
    (hvalue : IsValue value) {operator : CodeUnit}
    (hoperator : operator = unit '=' ∨ operator = unit '~') :
    parseCustomPattern (key ++ operator :: value) = .ok (key, operator, value) := by
  have hword : isWord operator = false := by
    rcases hoperator with rfl | rfl
    · decide +kernel
    · decide +kernel
  have hreads : ∀ other, matchOperator other (key ++ operator :: value) =
      if operator = other then some (key, value) else none := by
    intro other
    rw [matchOperator_eq hkey hword]
    exact if_congr ⟨fun h => h.2.1, fun h => ⟨hne, h, isValue_iff.mp hvalue⟩⟩ rfl rfl
  unfold parseCustomPattern
  rcases hoperator with rfl | rfl
  · rw [hreads, if_pos rfl]
  · rw [hreads, if_neg (by decide), hreads, if_pos rfl]

/-- Without a key there is no pattern. -/
theorem parseCustomPattern_nil {operator : CodeUnit} (hoperator : isWord operator = false)
    (value : JsString) (parsed : JsString × CodeUnit × JsString) :
    parseCustomPattern (operator :: value) ≠ .ok parsed := by
  have hreads : ∀ other, matchOperator other (operator :: value) = none := by
    intro other
    have hnone := matchOperator_eq (List.forall_mem_nil _) hoperator other value
    rw [List.nil_append] at hnone
    rw [hnone, if_neg (by tauto)]
  unfold parseCustomPattern
  rw [hreads, hreads]
  exact fun h => by cases h

end Patterns

/-! ## What a pattern means -/

/-- The metadata has an entry `key` of its own, with a value that is not `null` and whose
text is `value`. -/
def HasEntry (metadata : JsMap JsString Json) (key value : JsString) : Prop :=
  ∃ x, metadata.get key = some x ∧ x ≠ .null ∧ x.text = some value

/-- A value that counts as false and has a text all the same. -/
def falsyText : Json → Option JsString
  | .bool false => some (js "false")
  | .number (.zero _) => some (js "0")
  | _ => none

theorem falsyText_eq_some_iff {x : Json} {value : JsString} (hvalue : value ≠ []) :
    falsyText x = some value ↔ x.truthy = false ∧ x ≠ .null ∧ x.text = some value := by
  cases x with
  | null => simp [falsyText]
  | bool b => cases b <;> simp [falsyText, Json.truthy, Json.text]
  | number n => cases n <;> simp [falsyText, Json.truthy, Json.text, JsonNumber.text]
  | string text =>
      constructor
      · intro h
        cases h
      · rintro ⟨hempty, -, htext⟩
        simp only [Json.truthy, Json.text, decide_eq_false_iff_not, not_not,
          Option.some.injEq] at hempty htext
        exact absurd (htext.symm.trans hempty) hvalue
  | array items => simp [falsyText, Json.truthy]
  | object entries => simp [falsyText, Json.truthy]

section Match

variable (regExp : JsString → Option (JsString → Bool))

/-- A rule with pattern `key=value` compares texts. -/
theorem matchCustomPattern_iff {key value : JsString} (hkey : ∀ c ∈ key, isWord c = true)
    (hne : key ≠ []) (hvalue : IsValue value) {context : RuleMatchContext}
    {metadata : JsString → Metadatum} (hmetadata : context.metadata = some metadata) :
    matchCustomPattern regExp context (key ++ unit '=' :: value) = true ↔
      (metadata key).truthy = true ∧ (metadata key).text = some value := by
  unfold matchCustomPattern
  rw [parseCustomPattern_eq hkey hne hvalue (.inl rfl), hmetadata]
  dsimp only
  cases (metadata key).truthy with
  | false => simp
  | true =>
      cases (metadata key).text with
      | none => simp
      | some text => simp

/-- What the rules say about the pattern `key=value`, and what the parser says about it and
about `key~value`. -/
structure MeansWhatItSays (key value : JsString) (metadata : JsMap JsString Json) : Prop where
  equals : parseCustomPattern (key ++ unit '=' :: value) = .ok (key, unit '=', value)
  tilde : parseCustomPattern (key ++ unit '~' :: value) = .ok (key, unit '~', value)
  matches_iff : ∀ (rule : RateLimitRule) (context : RuleMatchContext),
    rule.dimension = ⟨.custom, some (key ++ unit '=' :: value)⟩ →
      context.metadata = some (metadataOf metadata) →
        (isRuleMatch regExp rule context = true ↔ HasEntry metadata key value)

/-- The pattern `key=value` on the metadata of a body. -/
theorem isRuleMatch_custom_iff {key value : JsString} (hkey : ∀ c ∈ key, isWord c = true)
    (hne : key ≠ []) (hvalue : IsValue value) {metadata : JsMap JsString Json}
    {rule : RateLimitRule} {context : RuleMatchContext}
    (hrule : rule.dimension = ⟨.custom, some (key ++ unit '=' :: value)⟩)
    (hmetadata : context.metadata = some (metadataOf metadata)) :
    isRuleMatch regExp rule context = true ↔
      (∃ x, metadata.get key = some x ∧ x.truthy = true ∧ x.text = some value) ∨
        (metadata.get key = none ∧ inheritedText key = some value) := by
  have hpresent : present (some (key ++ unit '=' :: value)) =
      some (key ++ unit '=' :: value) := by
    simp [present]
  unfold isRuleMatch
  rw [hrule]
  dsimp only
  rw [hpresent]
  dsimp only
  rw [matchCustomPattern_iff regExp hkey hne hvalue hmetadata]
  unfold metadataOf JsMap.member
  cases hown : metadata.get key with
  | some x => simp [memberDatum]
  | none =>
      cases hinherited : inheritedText key with
      | none => simp [memberDatum]
      | some text => simp [memberDatum]

/-- **Custom rules.**  A pattern means what it says exactly when it has a key, the entry of
that key is no `false` or zero which the pattern asks for, and where there is no such
entry, the pattern does not ask for what all objects have under that name. -/
theorem custom_rule_exact_iff {key value : JsString} (hkey : ∀ c ∈ key, isWord c = true)
    (hvalue : IsValue value) (metadata : JsMap JsString Json) :
    MeansWhatItSays regExp key value metadata ↔
      key ≠ [] ∧ (∀ x, metadata.get key = some x → falsyText x ≠ some value) ∧
        (metadata.get key = none → inheritedText key ≠ some value) := by
  by_cases hne : key = []
  · refine iff_of_false ?_ fun h => h.1 hne
    rintro ⟨hequals, -, -⟩
    rw [hne] at hequals
    exact parseCustomPattern_nil (by decide +kernel) value _ hequals
  have hfalsy : ∀ {x : Json}, falsyText x = some value ↔
      x.truthy = false ∧ x ≠ .null ∧ x.text = some value :=
    falsyText_eq_some_iff hvalue.ne_nil
  constructor
  · rintro ⟨-, -, hmatches⟩
    -- a rule and a request that put the pattern to the test
    obtain ⟨rule, hrule⟩ : ∃ rule : RateLimitRule,
        rule.dimension = ⟨.custom, some (key ++ unit '=' :: value)⟩ :=
      ⟨⟨[], [], .fixedWindow, 1, 1, _⟩, rfl⟩
    have hexact := hmatches rule ⟨[], none, none, some (metadataOf metadata)⟩ hrule rfl
    rw [isRuleMatch_custom_iff regExp hkey hne hvalue hrule rfl] at hexact
    refine ⟨hne, ?_, ?_⟩
    · rintro x hx hvalued
      obtain ⟨hfalse, hnull, htext⟩ := hfalsy.mp hvalued
      rcases hexact.mpr ⟨x, hx, hnull, htext⟩ with ⟨y, hy, htrue, -⟩ | ⟨hnone, -⟩
      · obtain rfl := Option.some.inj (hx.symm.trans hy)
        exact absurd (hfalse.symm.trans htrue) Bool.false_ne_true
      · exact absurd (hx.symm.trans hnone) (Option.some_ne_none x)
    · intro hnone hinherited
      obtain ⟨x, hx, -⟩ := hexact.mp (.inr ⟨hnone, hinherited⟩)
      exact absurd (hx.symm.trans hnone) (Option.some_ne_none x)
  · rintro ⟨-, hentry, habsent⟩
    refine ⟨parseCustomPattern_eq hkey hne hvalue (.inl rfl),
      parseCustomPattern_eq hkey hne hvalue (.inr rfl), ?_⟩
    intro rule context hrule hmetadata
    rw [isRuleMatch_custom_iff regExp hkey hne hvalue hrule hmetadata]
    constructor
    · rintro (⟨x, hx, htrue, htext⟩ | ⟨hnone, hinherited⟩)
      · refine ⟨x, hx, ?_, htext⟩
        rintro rfl
        exact absurd htrue Bool.false_ne_true
      · exact absurd hinherited (habsent hnone)
    · rintro ⟨x, hx, hnull, htext⟩
      cases htruthy : x.truthy with
      | true => exact .inl ⟨x, hx, htruthy, htext⟩
      | false => exact absurd (hfalsy.mpr ⟨htruthy, hnull, htext⟩) (hentry x hx)

end Match

/-- `tier=enterprise`, on metadata that has that entry. -/
theorem custom_rule_exact_tier :
    MeansWhatItSays (fun _ => none) (js "tier") (js "enterprise")
      (.set (js "tier") (.string (js "enterprise")) .empty) := by
  have hword : (js "tier").all isWord = true := by decide +kernel
  have hvalue : IsValue (js "enterprise") := isValue_iff.mpr (by decide +kernel)
  refine (custom_rule_exact_iff _ (List.all_eq_true.mp hword) hvalue _).mpr ⟨by decide, ?_, ?_⟩
  · intro x hx
    rw [JsMap.get_set] at hx
    obtain rfl := Option.some.inj hx
    exact fun h => by cases h
  · intro hnone
    rw [JsMap.get_set] at hnone
    cases hnone

/-- `beta=false` does not match the request that says so. -/
theorem false_entry_unmatched :
    ¬ ∀ (regExp : JsString → Option (JsString → Bool)) (key value : JsString)
      (metadata : JsMap JsString Json), (∀ c ∈ key, isWord c = true) → key ≠ [] →
        IsValue value → MeansWhatItSays regExp key value metadata := by
  intro h
  have hword : (js "beta").all isWord = true := by decide +kernel
  have hvalue : IsValue (js "false") := isValue_iff.mpr (by decide +kernel)
  have hmeans := h (fun _ => none) (js "beta") (js "false")
    (.set (js "beta") (.bool false) .empty) (List.all_eq_true.mp hword) (by decide) hvalue
  have hmatch := (hmeans.matches_iff
    ⟨[], [], .fixedWindow, 1, 1, ⟨.custom, some (js "beta=false")⟩⟩
    ⟨js "u", none, none, some (metadataOf (.set (js "beta") (.bool false) .empty))⟩ rfl rfl).mpr
      ⟨.bool false, JsMap.get_set .., Json.noConfusion, rfl⟩
  revert hmatch
  decide +kernel

end RateLimiter.Limiter
