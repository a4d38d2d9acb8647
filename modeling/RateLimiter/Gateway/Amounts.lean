import RateLimiter.Admission.Calls
import RateLimiter.Admission.Estimator
import RateLimiter.Javascript.Seams

/-!
# Token counts from the request body to the script

`validateRequest` checks a body against its schema and keeps the body: the numbers
the schema converted strings to are in the value it drops.  The service then adds
two fields that may be strings, sends the result as text, and the script reads the
text as a number.  This module follows the counts along that way and says when
the script gets the sum that was meant.
-/

namespace RateLimiter.Gateway

open RateLimiter.Javascript RateLimiter.Admission

/-! ## Bodies and schemas -/

/-- A value in a JSON body. -/
inductive JsonValue
  | null
  | bool (value : Bool)
  | number (value : JsNumber)
  | string (text : JsString)
  | compound

/-- A count in a body that passed its schema: still what the client sent. -/
inductive Field
  | number (n : Nat)
  | string (text : JsString)
deriving DecidableEq

/-- What is assumed of the schema library: a string it takes for an integer is a
decimal numeral, and the integer is the one it spells. -/
def Numeric (numeric : JsString → Option Rat) : Prop :=
  ∀ text q, numeric text = some q → q.den = 1 →
    ∃ n, readNumeral jsBlank text = some n ∧ n.value = q

/-- An integer within bounds. -/
def inRange (lo hi : Nat) (q : Rat) : Prop := q.den = 1 ∧ (lo : Int) ≤ q.num ∧ q.num ≤ hi

instance (lo hi : Nat) (q : Rat) : Decidable (inRange lo hi q) :=
  inferInstanceAs (Decidable (q.den = 1 ∧ (lo : Int) ≤ q.num ∧ q.num ≤ hi))

section Schemas

variable (numeric : JsString → Option Rat) (guid : JsString → Bool)

/-- `Joi.number().integer().min(lo).max(hi)`, on a value that is there. -/
def integerField (lo hi : Nat) : JsonValue → Option Field
  | .number (.finite q) => if inRange lo hi q then some (.number q.num.toNat) else none
  | .string text =>
      match numeric text with
      | some q => if inRange lo hi q then some (.string text) else none
      | none => none
  | _ => none

/-- The same, `.optional()`. -/
def optionalField (lo hi : Nat) : Option JsonValue → Option (Option Field)
  | none => some none
  | some value => (integerField numeric lo hi value).map some

/-- `Joi.string().min(1).max(128).required()`. -/
def identifier : Option JsonValue → Option JsString
  | some (.string text) => if 1 ≤ text.length ∧ text.length ≤ 128 then some text else none
  | _ => none

/-- `Joi.string().uuid().required()`. -/
def uuid : Option JsonValue → Option JsString
  | some (.string text) => if guid text then some text else none
  | _ => none

/-- The members of a body of `/reserve`. -/
structure ReserveBody where
  tenant : Option JsonValue
  model : Option JsonValue
  promptTokens : Option JsonValue
  maxOutputTokens : Option JsonValue
  sloTtftMs : Option JsonValue

/-- A body of `/reserve` that passed. -/
structure ReserveRequest where
  tenant : JsString
  model : JsString
  promptTokens : Field
  maxOutputTokens : Field
  sloTtftMs : Option Field
deriving DecidableEq

/-- The members of a body of `/commit`. -/
structure CommitBody where
  tenant : Option JsonValue
  model : Option JsonValue
  reservationId : Option JsonValue
  promptTokens : Option JsonValue
  outputTokens : Option JsonValue
  serviceMs : Option JsonValue

/-- A body of `/commit` that passed. -/
structure CommitRequest where
  tenant : JsString
  model : JsString
  reservationId : JsString
  promptTokens : Field
  outputTokens : Field
  serviceMs : Option Field

/-- `validateRequest(reserveSchema)`: the body itself goes on to the route. -/
def reserveSchema (body : ReserveBody) : Option ReserveRequest := do
  let tenant ← identifier body.tenant
  let model ← identifier body.model
  let promptTokens ← body.promptTokens.bind (integerField numeric 0 10000000)
  let maxOutputTokens ← body.maxOutputTokens.bind (integerField numeric 1 10000000)
  let sloTtftMs ← optionalField numeric 1 600000 body.sloTtftMs
  return { tenant, model, promptTokens, maxOutputTokens, sloTtftMs }

/-- `validateRequest(commitSchema)`. -/
def commitSchema (body : CommitBody) : Option CommitRequest := do
  let tenant ← identifier body.tenant
  let model ← identifier body.model
  let reservationId ← uuid guid body.reservationId
  let promptTokens ← body.promptTokens.bind (integerField numeric 0 10000000)
  let outputTokens ← body.outputTokens.bind (integerField numeric 0 10000000)
  let serviceMs ← optionalField numeric 0 3600000 body.serviceMs
  return { tenant, model, reservationId, promptTokens, outputTokens, serviceMs }

/-- The number the schema takes a field for. -/
def Field.value : Field → Option Rat
  | .number n => some n
  | .string text => numeric text

end Schemas

/-! ## What the service does with them -/

namespace Field

/-- `String(field)`. -/
def text : Field → JsString
  | number n => natText n
  | string text => text

/-- `+`: the sum of two numbers, the concatenation of anything else. -/
def add : Field → Field → Field
  | number a, number b => number (a + b)
  -- one string is enough for `+` to join
  | x, y => string (x.text ++ y.text)

instance : Add Field := ⟨add⟩

end Field

/-- The blanks `isspace` skips. -/
def luaBlank (c : CodeUnit) : Bool := (9 ≤ c.val ∧ c.val ≤ 13) ∨ c.val = 32

/-- `tonumber`, on a text of decimal digits, signs, points, exponents and blanks. -/
def tonumber (text : JsString) : Option Rat := (readNumeral luaBlank text).map Numeral.value

/-- The `reserve` of `ADMIT_SCRIPT` that `AdmissionService.reserve` sends. -/
def reserveAmount (mathMin : Field → Int → Field) (p : Limits) (request : ReserveRequest)
    (observedOutputEwma : Rat) : Option Rat :=
  tonumber (estimateReservation mathMin p request.promptTokens request.maxOutputTokens
    observedOutputEwma).reserveTokens.text

/-- The `actual` of `COMMIT_SCRIPT` that `AdmissionService.commit` sends. -/
def commitAmount (request : CommitRequest) : Option Rat :=
  tonumber (request.promptTokens + request.outputTokens).text

/-! ## When the sum arrives -/

/-- The texts of two fields, one behind the other, spell the sum. -/
def SpellsSum : Field → Field → Prop
  | .number _, .number _ => True
  | x, y => ∃ p o, readNumeral jsBlank x.text = some p ∧ readNumeral jsBlank y.text = some o ∧
      p.Continues luaBlank o ∧ p.SumsUp o

theorem mark_val {c : CodeUnit} (h : isMark c = true) :
    (48 ≤ c.val ∧ c.val ≤ 57) ∨ c.val = 43 ∨ c.val = 45 ∨ c.val = 46 ∨ c.val = 69 ∨
      c.val = 101 := by
  simp only [isMark, Bool.or_eq_true, decide_eq_true_eq] at h
  rcases h with ((((hdigit | rfl) | rfl) | rfl) | rfl) | rfl
  · left
    unfold isDigit digit? at hdigit
    split at hdigit
    next hrange => exact hrange
    next => cases hdigit
  all_goals decide

theorem blanks_jsBlank : Blanks jsBlank := by
  intro c hblank
  by_contra hmark
  have hval := mark_val (by simpa using hmark)
  simp only [jsBlank, decide_eq_true_eq, List.mem_cons, List.not_mem_nil, or_false] at hblank
  omega

theorem jsBlank_of_luaBlank (c : CodeUnit) (h : luaBlank c = true) : jsBlank c = true := by
  simp only [luaBlank, decide_eq_true_eq] at h
  simp only [jsBlank, decide_eq_true_eq, List.mem_cons]
  rcases h with hrange | hspace
  · exact Or.inl hrange
  · exact Or.inr (Or.inr (Or.inl hspace))

section Sum

variable {numeric : JsString → Option Rat}

/-- A field of a body that passed is a natural number, and its text spells it. -/
theorem field_numeral (hjoi : Numeric numeric) {lo hi : Nat} {value : JsonValue} {x : Field}
    (h : integerField numeric lo hi value = some x) :
    ∃ n : Nat, x.value numeric = some (n : Rat) ∧ n ≤ hi ∧
      ∃ numeral, readNumeral jsBlank x.text = some numeral ∧ numeral.value = n := by
  have hnat {q : Rat} (hrange : inRange lo hi q) : ((q.num.toNat : Nat) : Rat) = q ∧
      q.num.toNat ≤ hi := by
    obtain ⟨hden, hlo, hhi⟩ := hrange
    refine ⟨?_, by omega⟩
    have hnum : ((q.num.toNat : Nat) : Int) = q.num := Int.toNat_of_nonneg (by omega)
    calc ((q.num.toNat : Nat) : Rat) = ((q.num.toNat : Int) : Rat) := by push_cast; rfl
      _ = (q.num : Rat) := by rw [hnum]
      _ = q := Rat.coe_int_num_of_den_eq_one hden
  unfold integerField at h
  split at h
  next q =>
    split at h
    next hrange =>
      cases h
      obtain ⟨-, hle⟩ := hnat hrange
      exact ⟨q.num.toNat, rfl, hle, natNumeral q.num.toNat,
        readNumeral_natText blanks_jsBlank _, natNumeral_value _⟩
    next => cases h
  next text =>
    split at h
    next q hq =>
      split at h
      next hrange =>
        cases h
        obtain ⟨hcast, hle⟩ := hnat hrange
        obtain ⟨numeral, hread, hvalue⟩ := hjoi text q hq hrange.1
        rw [← hcast] at hq hvalue
        exact ⟨q.num.toNat, hq, hle, numeral, hread, hvalue⟩
      next => cases h
    next => cases h
  next => cases h

/-- What the script reads of two texts one behind the other. -/
theorem tonumber_append {x y : JsString} {p o : Numeral} (hx : readNumeral jsBlank x = some p)
    (hy : readNumeral jsBlank y = some o) {m n : Nat} (hm : p.value = m) (hn : o.value = n) :
    tonumber (x ++ y) = some ((m : Rat) + n) ↔ p.Continues luaBlank o ∧ p.SumsUp o := by
  obtain ⟨hp, letter, hletter, rfl⟩ := readNumeral_spec hx
  obtain ⟨ho, letter', hletter', rfl⟩ := readNumeral_spec hy
  unfold tonumber
  -- Where the second text cannot continue the first, the script reads no number at all.
  by_cases hcontinues : p.Continues luaBlank o
  · rw [readNumeral_continues blanks_jsBlank jsBlank_of_luaBlank hp ho hletter hletter' hcontinues,
      Option.map_some, Option.some_inj, ← hm, ← hn,
      value_continued_eq_iff ho hcontinues hm]
    exact (and_iff_right hcontinues).symm
  · rw [readNumeral_not_continues blanks_jsBlank jsBlank_of_luaBlank hp ho hletter hletter'
      hcontinues]
    simp [hcontinues]

/-- The script reads the sum of two fields exactly when they spell it. -/
theorem tonumber_add (hjoi : Numeric numeric) {lo hi lo' hi' : Nat} {value value' : JsonValue}
    {x y : Field} (hx : integerField numeric lo hi value = some x)
    (hy : integerField numeric lo' hi' value' = some y) :
    ∃ m n : Nat, x.value numeric = some (m : Rat) ∧ y.value numeric = some (n : Rat) ∧
      m ≤ hi ∧ n ≤ hi' ∧ (tonumber (x + y).text = some ((m : Rat) + n) ↔ SpellsSum x y) := by
  obtain ⟨m, hxvalue, hmle, p, hp, hm⟩ := field_numeral hjoi hx
  obtain ⟨n, hyvalue, hnle, o, ho, hn⟩ := field_numeral hjoi hy
  refine ⟨m, n, hxvalue, hyvalue, hmle, hnle, ?_⟩
  have happend := tonumber_append hp ho hm hn
  have hseam : (∃ p o, readNumeral jsBlank x.text = some p ∧ readNumeral jsBlank y.text = some o ∧
      p.Continues luaBlank o ∧ p.SumsUp o) ↔ p.Continues luaBlank o ∧ p.SumsUp o := by
    constructor
    · rintro ⟨p', o', hp', ho', hspells⟩
      obtain rfl := Option.some.inj (hp.symm.trans hp')
      obtain rfl := Option.some.inj (ho.symm.trans ho')
      exact hspells
    · exact fun hspells => ⟨p, o, hp, ho, hspells⟩
  cases x with
  | number a =>
      cases y with
      | number b =>
          refine iff_of_true ?_ trivial
          obtain rfl : a = m := by exact_mod_cast Option.some.inj hxvalue
          obtain rfl : b = n := by exact_mod_cast Option.some.inj hyvalue
          have hread := readNumeral_natText (blanks_jsBlank.mono jsBlank_of_luaBlank) (a + b)
          show (readNumeral luaBlank (natText (a + b))).map Numeral.value = _
          rw [hread, Option.map_some, natNumeral_value]
          push_cast
          rfl
      | string text => exact happend.trans hseam.symm
  | string text => exact happend.trans hseam.symm

/-- The counts of an accepted `/reserve` body passed their own checks. -/
theorem reserveSchema_counts {body : ReserveBody} {request : ReserveRequest}
    (h : reserveSchema numeric body = some request) :
    (∃ value, integerField numeric 0 10000000 value = some request.promptTokens) ∧
      ∃ value, integerField numeric 1 10000000 value = some request.maxOutputTokens := by
  simp only [reserveSchema, Option.bind_eq_bind, Option.bind_eq_some_iff] at h
  obtain ⟨tenant, -, model, -, prompt, ⟨value, -, hprompt⟩, output, ⟨value', -, houtput⟩,
    slo, -, hrequest⟩ := h
  cases hrequest
  exact ⟨⟨value, hprompt⟩, value', houtput⟩

/-- The counts of an accepted `/commit` body passed their own checks. -/
theorem commitSchema_counts {guid : JsString → Bool} {body : CommitBody}
    {request : CommitRequest} (h : commitSchema numeric guid body = some request) :
    (∃ value, integerField numeric 0 10000000 value = some request.promptTokens) ∧
      ∃ value, integerField numeric 0 10000000 value = some request.outputTokens := by
  simp only [commitSchema, Option.bind_eq_bind, Option.bind_eq_some_iff] at h
  obtain ⟨tenant, -, model, -, rid, -, prompt, ⟨value, -, hprompt⟩, output,
    ⟨value', -, houtput⟩, service, -, hrequest⟩ := h
  cases hrequest
  exact ⟨⟨value, hprompt⟩, value', houtput⟩

end Sum

/-! ## The counts of a request -/

/-- The number a text spells, when it spells one. -/
def readNumber (text : JsString) : Option Rat := (readNumeral jsBlank text).map Numeral.value

theorem numeric_readNumber : Numeric readNumber := by
  intro text q h _
  exact Option.map_eq_some_iff.mp h

/-- A body of two counts for one pair. -/
def countsBody (promptTokens maxOutputTokens : JsonValue) : ReserveBody where
  tenant := some (.string (js "acme"))
  model := some (.string (js "gpt"))
  promptTokens := some promptTokens
  maxOutputTokens := some maxOutputTokens
  sloTtftMs := none

/-- The same body once it passed. -/
def countsRequest (promptTokens maxOutputTokens : Field) : ReserveRequest where
  tenant := js "acme"
  model := js "gpt"
  promptTokens := promptTokens
  maxOutputTokens := maxOutputTokens
  sloTtftMs := none

end RateLimiter.Gateway
