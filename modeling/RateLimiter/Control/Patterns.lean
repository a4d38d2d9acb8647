import RateLimiter.Javascript.Text

/-!
# Patterns of policies and rules

`matchPattern` and `matchRegex`, over a regular expression engine: `regExp source` is the
test of `new RegExp(source)`, or `none` when the constructor throws.
-/

namespace RateLimiter.Control

open RateLimiter.Javascript

/-- `REGEX_METACHARS`. -/
def regexMetachars : JsString := js ".*+?^$\x7b\x7d()|[]\x5c"

/-- A character of a glob as a regular expression. -/
def globUnit (c : CodeUnit) : JsString :=
  if c = unit '*' then js ".*"
  else if c = unit '?' then js "."
  else if c ∈ regexMetachars then [unit '\x5c', c]
  else [c]

/-! ## The guard on stored expressions -/

/-- `/^\x7b\d+,/.test(text)`: does a counted quantifier that repeats start here? -/
def countedQuantifier (text : JsString) : Bool :=
  match text with
  | c :: rest =>
      c = unit '\x7b' && !(rest.takeWhile isDigit).isEmpty &&
        (rest.dropWhile isDigit).head? == some (unit ',')
  | [] => false

/-- The loop of `scanForQuantifier`: `skip` after a backslash, `inClass` between brackets. -/
def scanFrom (alsoAlternation : Bool) : (skip inClass : Bool) → JsString → Bool
  | _, _, [] => false
  | true, inClass, _ :: rest => scanFrom alsoAlternation false inClass rest
  | false, inClass, ch :: rest =>
      if ch = unit '\x5c' then scanFrom alsoAlternation true inClass rest
      else if inClass then scanFrom alsoAlternation false (ch ≠ unit ']') rest
      else if ch = unit '[' then scanFrom alsoAlternation false true rest
      else if ch = unit '*' ∨ ch = unit '+' then true
      else if countedQuantifier (ch :: rest) then true
      else if alsoAlternation ∧ ch = unit '|' then true
      else scanFrom alsoAlternation false false rest

def scanForQuantifier (body : JsString) (alsoAlternation : Bool) : Bool :=
  scanFrom alsoAlternation false false body

/-- Is what comes next a quantifier that repeats? -/
def quantified (rest : JsString) : Bool :=
  rest.head? == some (unit '*') || rest.head? == some (unit '+') || countedQuantifier rest

/-- The loop of `hasNestedQuantifier` at index `i`, with the indices of the groups that
are open. -/
def nestedFrom (source : JsString) : (i : Nat) → (skip inClass : Bool) → List Nat → JsString → Bool
  | _, _, _, _, [] => false
  | i, true, inClass, opened, _ :: rest => nestedFrom source (i + 1) false inClass opened rest
  | i, false, inClass, opened, ch :: rest =>
      if ch = unit '\x5c' then nestedFrom source (i + 1) true inClass opened rest
      else if inClass then nestedFrom source (i + 1) false (ch ≠ unit ']') opened rest
      else if ch = unit '[' then nestedFrom source (i + 1) false true opened rest
      else if ch = unit '(' then nestedFrom source (i + 1) false false (i :: opened) rest
      else if ch ≠ unit ')' then nestedFrom source (i + 1) false false opened rest
      else
        match opened with
        | [] => nestedFrom source (i + 1) false false [] rest
        | start :: opened =>
            if quantified rest ∧
                scanForQuantifier ((source.take i).drop (start + 1)) true then true
            else nestedFrom source (i + 1) false false opened rest

def hasNestedQuantifier (source : JsString) : Bool := nestedFrom source 0 false false [] source

/-- `MAX_SUBJECT`. -/
def maxSubject : Nat := 256

section Match

variable (regExp : JsString → Option (JsString → Bool))

/-- `compile`: a regular expression between slashes, or a glob. -/
def compile (pattern : JsString) : Option (JsString → Bool) :=
  if 2 < pattern.length ∧ pattern.head? = some (unit '/') ∧
      pattern.getLast? = some (unit '/') then
    regExp (pattern.drop 1).dropLast
  else if unit '*' ∈ pattern ∨ unit '?' ∈ pattern then
    regExp (js "^" ++ pattern.flatMap globUnit ++ js "$")
  else none

/-- `matchPattern`.  A bare `*` matches the whole dimension, and a pattern that does
not compile matches only itself. -/
def matchPattern (value pattern : JsString) : Bool :=
  if pattern = [] ∨ pattern = js "*" then true
  else if value = pattern then true
  else
    match compile regExp pattern with
    | some test => test value
    -- a plain name, already compared, or an expression that throws
    | none => false

/-- `matchRegex`: an expression the guard rejects, or that throws, matches nothing. -/
def matchRegex (value source : JsString) : Bool :=
  if hasNestedQuantifier source then false
  else
    match regExp source with
    | some test => test (if value.length > maxSubject then value.take maxSubject else value)
    | none => false

end Match

end RateLimiter.Control
