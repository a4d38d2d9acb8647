import RateLimiter.Javascript.Maps
import RateLimiter.Javascript.Numerals

/-!
# JSON values

What a request body holds after `JSON.parse`, how its values count as true, which texts
`String` makes of them, and what a plain object answers for a name it does not have itself.
-/

namespace RateLimiter.Javascript

/-! ## Numbers -/

/-- A positive decimal `0.d₁d₂… · 10^point` without zeros at its ends.  A double is the
shortest decimal that rounds to it. -/
structure Decimal where
  digits : List (Fin 10)
  point : Int
  ne_nil : digits ≠ []
  head_ne : digits.head ne_nil ≠ 0
  last_ne : digits.getLast ne_nil ≠ 0

/-- `Number::toString` of a positive finite number. -/
def Decimal.text (d : Decimal) : JsString :=
  let digits := d.digits.map fun digit => digitUnit digit.val
  let zeros := fun n : Int => List.replicate n.toNat (unit '0')
  if digits.length ≤ d.point ∧ d.point ≤ 21 then digits ++ zeros (d.point - digits.length)
  else if 0 < d.point ∧ d.point ≤ 21 then
    digits.take d.point.toNat ++ js "." ++ digits.drop d.point.toNat
  else if -6 < d.point ∧ d.point ≤ 0 then js "0." ++ zeros (-d.point) ++ digits
  else
    digits.take 1 ++ (if digits.length = 1 then [] else js "." ++ digits.drop 1) ++
      js "e" ++ (if 0 < d.point then js "+" else js "-") ++ natText (d.point - 1).natAbs

/-- A number as `JSON.parse` reads it.  A zero keeps its sign, and a numeral that is too
large is an infinity. -/
inductive JsonNumber
  | zero (negative : Bool)
  | finite (negative : Bool) (magnitude : Decimal)
  | infinity (negative : Bool)

def JsonNumber.text : JsonNumber → JsString
  | .zero _ => js "0"
  | .finite negative magnitude => (if negative then js "-" else []) ++ magnitude.text
  | .infinity negative => (if negative then js "-" else []) ++ js "Infinity"

/-! ## Values -/

inductive Json
  | null
  | bool (value : Bool)
  | number (value : JsonNumber)
  | string (text : JsString)
  | array (items : List Json)
  | object (entries : List (JsString × Json))

namespace Json

/-- Does the value count as true? -/
def truthy : Json → Bool
  | .null => false
  | .bool value => value
  | .number (.zero _) => false
  | .number _ => true
  | .string text => text ≠ []
  | .array _ => true
  | .object _ => true

mutual

/-- `String(x)`, `none` when it throws: an object converts through its `toString`, which a
member of that name hides and, being data, cannot replace. -/
def text : Json → Option JsString
  | .null => some (js "null")
  | .bool value => some (if value then js "true" else js "false")
  | .number value => some value.text
  | .string text => some text
  | .array items => (joined items).map (List.intercalate (js ","))
  | .object entries =>
      if js "toString" ∈ entries.map Prod.fst then none else some (js "[object Object]")

/-- The texts of the members of an array, where `null` leaves its place empty. -/
def joined : List Json → Option (List JsString)
  | [] => some []
  | .null :: items => (joined items).map ([] :: ·)
  | item :: items =>
      match text item, joined items with
      | some head, some tail => some (head :: tail)
      | _, _ => none

end

end Json

/-! ## Plain objects -/

/-- The methods of `Object.prototype`. -/
def objectMethods : List JsString :=
  [js "hasOwnProperty", js "isPrototypeOf", js "propertyIsEnumerable", js "toLocaleString",
    js "toString", js "valueOf", js "__defineGetter__", js "__defineSetter__",
    js "__lookupGetter__", js "__lookupSetter__"]

/-- `String` of a function of the engine. -/
def nativeCode (name : JsString) : JsString :=
  js "function " ++ name ++ js "() \x7b [native code] \x7d"

/-- `String` of what every plain object inherits under a name. -/
def inheritedText (name : JsString) : Option JsString :=
  if name = js "constructor" then some (nativeCode (js "Object"))
  else if name = js "__proto__" then some (js "[object Object]")
  else if name ∈ objectMethods then some (nativeCode name)
  else none

/-- What a plain object answers for a name.  Whatever it inherits counts as true. -/
inductive Member (ν : Type)
  | own (value : ν)
  | inherited (text : JsString)
  | undefined

/-- `object[name]`. -/
def JsMap.member {ν : Type} (object : JsMap JsString ν) (name : JsString) : Member ν :=
  match object.get name with
  | some value => .own value
  | none =>
      match inheritedText name with
      | some text => .inherited text
      | none => .undefined

end RateLimiter.Javascript
