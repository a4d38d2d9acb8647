import Mathlib.Algebra.Field.Rat
import Mathlib.Data.Fin.Basic
import Mathlib.Data.List.Basic

/-!
# Strings and numbers of the gateway's language

A string is a sequence of UTF-16 code units.  A number is exact here: a rational,
an infinity or `NaN`.  Both JavaScript and Lua read the same decimal numerals,
so the reader is written once and takes the blanks it skips as a parameter.
-/

namespace RateLimiter.Javascript

/-! ## Strings -/

/-- A UTF-16 code unit. -/
abbrev CodeUnit := Fin 65536

/-- A JavaScript string. -/
abbrev JsString := List CodeUnit

instance : LawfulBEq CodeUnit := inferInstance

instance : LawfulBEq JsString := inferInstance

/-- The code unit of a number. -/
def codeUnit (n : Nat) : CodeUnit := Fin.ofNat 65536 n

/-- The code units of one character: itself, or a surrogate pair. -/
def utf16 (c : Char) : JsString :=
  let v := c.val.toNat
  if v < 65536 then [codeUnit v]
  else [codeUnit (55296 + (v - 65536) / 1024), codeUnit (56320 + (v - 65536) % 1024)]

/-- The JavaScript string of a literal. -/
def js (s : String) : JsString := s.toList.flatMap utf16

/-- The code unit of a character of the basic plane. -/
def unit (c : Char) : CodeUnit := codeUnit c.val.toNat

/-! ## Numbers -/

/-- A JavaScript number, exact when it is finite. -/
inductive JsNumber
  | nan
  | infinity (negative : Bool)
  | finite (value : Rat)
deriving DecidableEq

/-! ## Decimal numerals -/

/-- The value of a decimal digit. -/
def digit? (c : CodeUnit) : Option Nat :=
  if 48 ≤ c.val ∧ c.val ≤ 57 then some (c.val - 48) else none

/-- Is the code unit a decimal digit? -/
def isDigit (c : CodeUnit) : Bool := (digit? c).isSome

/-- The number a list of digits spells. -/
def digitsValue (digits : JsString) : Nat :=
  digits.foldl (fun value c => 10 * value + (digit? c).getD 0) 0

/-- A decimal numeral taken apart: the blanks around it, its sign (`true` for
`-`), its integer digits, the digits after a point and the exponent. -/
structure Numeral where
  lead : JsString
  sign : Option Bool
  int : JsString
  frac : Option JsString
  exp : Option (Option Bool × JsString)
  trail : JsString
deriving DecidableEq

/-- An optional sign in front of a text. -/
def readSign : JsString → Option Bool × JsString
  | [] => (none, [])
  | c :: rest =>
      if c = unit '-' then (some true, rest)
      else if c = unit '+' then (some false, rest)
      else (none, c :: rest)

/-- An optional point and the digits after it. -/
def readFrac : JsString → Option JsString × JsString
  | [] => (none, [])
  | c :: rest =>
      if c = unit '.' then (some (rest.takeWhile isDigit), rest.dropWhile isDigit)
      else (none, c :: rest)

/-- An optional exponent; without a digit after the `e` there is none. -/
def readExp : JsString → Option (Option Bool × JsString) × JsString
  | [] => (none, [])
  | c :: rest =>
      let signed := readSign rest
      if (c = unit 'e' ∨ c = unit 'E') ∧ signed.2.takeWhile isDigit ≠ [] then
        (some (signed.1, signed.2.takeWhile isDigit), signed.2.dropWhile isDigit)
      else (none, c :: rest)

/-- Read a whole text as one decimal numeral, with `blank` characters around it. -/
def readNumeral (blank : CodeUnit → Bool) (text : JsString) : Option Numeral :=
  let lead := text.takeWhile blank
  let signed := readSign (text.dropWhile blank)
  let int := signed.2.takeWhile isDigit
  let frac := readFrac (signed.2.dropWhile isDigit)
  let exp := readExp frac.2
  if (int ≠ [] ∨ frac.1.getD [] ≠ []) ∧ exp.2.all blank then
    some ⟨lead, signed.1, int, frac.1, exp.1, exp.2⟩
  else none

/-- A sign as a factor. -/
def signFactor : Option Bool → Int
  | some true => -1
  | _ => 1

namespace Numeral

/-- The power of ten the exponent stands for. -/
def exponent (n : Numeral) : Int :=
  match n.exp with
  | some (sign, digits) => signFactor sign * (digitsValue digits : Int)
  | none => 0

/-- The number the numeral spells. -/
def value (n : Numeral) : Rat :=
  signFactor n.sign * (digitsValue (n.int ++ n.frac.getD []) : Rat) *
    10 ^ (n.exponent - (n.frac.getD []).length)

end Numeral

/-! ## `Number` -/

/-- White space and line terminators. -/
def jsBlank (c : CodeUnit) : Bool :=
  (9 ≤ c.val ∧ c.val ≤ 13) ∨ (8192 ≤ c.val ∧ c.val ≤ 8202) ∨
    c.val ∈ [32, 160, 5760, 8232, 8233, 8239, 8287, 12288, 65279]

/-- The value of a digit of a base up to sixteen. -/
def baseDigit? (base : Nat) (c : CodeUnit) : Option Nat :=
  let value :=
    if 48 ≤ c.val ∧ c.val ≤ 57 then c.val - 48
    else if 65 ≤ c.val ∧ c.val ≤ 70 then c.val - 55
    else if 97 ≤ c.val ∧ c.val ≤ 102 then c.val - 87
    else base
  if value < base then some value else none

/-- The base that follows the `0` of a prefixed literal. -/
def literalBase? (c : CodeUnit) : Option Nat :=
  if c = unit 'x' ∨ c = unit 'X' then some 16
  else if c = unit 'o' ∨ c = unit 'O' then some 8
  else if c = unit 'b' ∨ c = unit 'B' then some 2
  else none

/-- A literal such as `0x1F`, without its blanks. -/
def prefixedLiteral? : JsString → Option Nat
  | zero :: letter :: digit :: digits =>
      if zero = unit '0' then
        (literalBase? letter).bind fun base =>
          (digit :: digits).foldl
            (fun value c => value.bind fun v => (baseDigit? base c).map (base * v + ·)) (some 0)
      else none
  | _ => none

/-- `Number(text)`. -/
def number (text : JsString) : JsNumber :=
  let trimmed := ((text.dropWhile jsBlank).reverse.dropWhile jsBlank).reverse
  let signed := readSign trimmed
  -- blanks alone are zero, not `NaN`
  if trimmed = [] then .finite 0
  else if signed.2 = js "Infinity" then .infinity (signed.1 = some true)
  else
    match prefixedLiteral? trimmed with
    | some value => .finite value
    | none =>
        match readNumeral jsBlank trimmed with
        | some numeral => .finite numeral.value
        | none => .nan

example : number (js "300") = .finite 300 := by decide +kernel

end RateLimiter.Javascript
