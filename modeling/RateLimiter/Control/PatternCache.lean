import RateLimiter.Control.Patterns
import RateLimiter.Foundations.Runs
import RateLimiter.Javascript.Maps

/-!
# The cache of compiled patterns

`matchPattern` and `matchRegex` share one map of what they have compiled.  Here they
are run on that map, and every expression they run is written down with its subject.
-/

namespace RateLimiter.Control

open RateLimiter.Foundations RateLimiter.Javascript

/-- Where the source of an expression comes from: an operator wrote it, or it was made
from a glob. -/
inductive Origin
  | operator
  | glob
deriving DecidableEq, Repr

/-- A `RegExp`.  Without flags a test leaves nothing behind in it. -/
structure RegExp where
  source : JsString
  origin : Origin
  test : JsString → Bool

/-- An expression that was run, and what it was run against. -/
structure Execution where
  source : JsString
  origin : Origin
  subject : JsString
deriving DecidableEq

/-- `cache`: an expression, or `null`, under each key. -/
abbrev PatternCache := JsMap JsString (Option RegExp)

/-- `MAX_CACHE`. -/
def maxCache : Nat := 1000

/-- The cache, and the executions so far. -/
structure Matcher where
  cache : PatternCache
  executed : List Execution

namespace Matcher

/-- Nothing compiled and nothing run. -/
def initial : Matcher := ⟨.empty, []⟩

/-! ## Compiling -/

/-- The key of `compileRaw`. -/
def rawKey (source : JsString) : JsString := js "raw\x00" ++ source

/-- The key of `compile`. -/
def globKey (pattern : JsString) : JsString := js "glob\x00" ++ pattern

/-- Is a pattern of the form `/source/`? -/
def Slashed (pattern : JsString) : Prop :=
  2 < pattern.length ∧ pattern.head? = some (unit '/') ∧ pattern.getLast? = some (unit '/')

instance (pattern : JsString) : Decidable (Slashed pattern) :=
  inferInstanceAs (Decidable (_ ∧ _))

/-- `pattern.slice(1, -1)`. -/
def inner (pattern : JsString) : JsString := (pattern.drop 1).dropLast

section Compile

variable (regExp : JsString → Option (JsString → Bool))

/-- `new RegExp(source)`, with `null` for a source that throws. -/
def newRegExp (origin : Origin) (source : JsString) : Option RegExp :=
  (regExp source).map fun test => ⟨source, origin, test⟩

/-- What `compile` computes for a pattern that is not in the cache. -/
def compiled (pattern : JsString) : Option RegExp :=
  if Slashed pattern then newRegExp regExp .operator (inner pattern)
  else if unit '*' ∈ pattern ∨ unit '?' ∈ pattern then
    newRegExp regExp .glob (js "^" ++ pattern.flatMap globUnit ++ js "$")
  else none

/-- What `compileRaw` computes for a source that is not in the cache. -/
def compiledRaw (source : JsString) : Option RegExp :=
  if hasNestedQuantifier source then none else newRegExp regExp .operator source

/-- The lookup that opens both, and the entry that closes them; a full cache is cleared. -/
def cached (key : JsString) (fresh : Option RegExp) (m : Matcher) : Option RegExp × Matcher :=
  match m.cache.get key with
  | some found => (found, m)
  | none =>
      let cache := if maxCache ≤ m.cache.size then .empty else m.cache
      (fresh, { m with cache := cache.set key fresh })

def compile (pattern : JsString) (m : Matcher) : Option RegExp × Matcher :=
  m.cached (globKey pattern) (compiled regExp pattern)

def compileRaw (source : JsString) (m : Matcher) : Option RegExp × Matcher :=
  m.cached (rawKey source) (compiledRaw regExp source)

end Compile

/-! ## Matching -/

/-- `regex.test(subject)`; without an expression nothing matches. -/
def test (regex : Option RegExp) (subject : JsString) (m : Matcher) : Bool × Matcher :=
  match regex with
  | some regex =>
      (regex.test subject,
        { m with executed := m.executed ++ [⟨regex.source, regex.origin, subject⟩] })
  | none => (false, m)

section Match

variable (regExp : JsString → Option (JsString → Bool))

def matchRegex (value source : JsString) (m : Matcher) : Bool × Matcher :=
  let (regex, m) := compileRaw regExp source m
  test regex (if value.length > maxSubject then value.take maxSubject else value) m

def matchPattern (value pattern : JsString) (m : Matcher) : Bool × Matcher :=
  if pattern = [] ∨ pattern = js "*" then (true, m)
  else if value = pattern then (true, m)
  else
    let (regex, m) := compile regExp pattern m
    test regex value m

/-- A call of one of the two. -/
inductive Call
  | onPattern (value pattern : JsString)
  | onRegex (value source : JsString)
deriving DecidableEq

def Call.perform : Call → Matcher → Bool × Matcher
  | .onPattern value pattern => matchPattern regExp value pattern
  | .onRegex value source => matchRegex regExp value source

/-- What a call leaves. -/
def step (m : Matcher) (call : Call) : Matcher := (call.perform regExp m).2

end Match

/-! ## What a call does, without the cache -/

section Pure

variable (regExp : JsString → Option (JsString → Bool))

/-- The verdict of a call. -/
def Call.verdict : Call → Bool
  | .onPattern value pattern => Control.matchPattern regExp value pattern
  | .onRegex value source => Control.matchRegex regExp value source

/-- What running an expression writes down. -/
def executions (regex : Option RegExp) (subject : JsString) : List Execution :=
  match regex with
  | some regex => [⟨regex.source, regex.origin, subject⟩]
  | none => []

/-- The executions of a call. -/
def Call.executions : Call → List Execution
  | .onPattern value pattern =>
      if pattern = [] ∨ pattern = js "*" ∨ value = pattern then []
      else Matcher.executions (compiled regExp pattern) value
  | .onRegex value source =>
      Matcher.executions (compiledRaw regExp source)
        (if value.length > maxSubject then value.take maxSubject else value)

end Pure

/-! ## What the cache holds -/

section Sound

variable (regExp : JsString → Option (JsString → Bool))

/-- Every entry is what compiling would give again: under the key of a pattern what
`compile` computes for it, under the key of a source what `compileRaw` does. -/
structure Sound (cache : PatternCache) : Prop where
  glob : ∀ pattern regex, cache.get (globKey pattern) = some regex →
    regex = compiled regExp pattern
  raw : ∀ source regex, cache.get (rawKey source) = some regex →
    regex = compiledRaw regExp source
  bounded : cache.size ≤ maxCache

end Sound

section Keys

theorem globKey_ne_rawKey (pattern source : JsString) : globKey pattern ≠ rawKey source := by
  intro h
  have hhead : (unit 'g' : CodeUnit) = unit 'r' := (List.cons.inj h).1
  revert hhead
  decide

theorem globKey_injective : Function.Injective globKey := by
  intro p q h
  exact List.append_cancel_left h

theorem rawKey_injective : Function.Injective rawKey := by
  intro p q h
  exact List.append_cancel_left h

end Keys

namespace Sound

variable {regExp : JsString → Option (JsString → Bool)} {cache : PatternCache}

theorem initial : Sound regExp Matcher.initial.cache where
  glob pattern regex h := by cases h
  raw source regex h := by cases h
  bounded := Nat.zero_le _

/-- A cache with room for one more entry. -/
theorem cleared (h : Sound regExp cache) :
    Sound regExp (if maxCache ≤ cache.size then .empty else cache) ∧
      (if maxCache ≤ cache.size then JsMap.empty else cache).size < maxCache := by
  split
  next => exact ⟨initial, by decide⟩
  next hroom => exact ⟨h, Nat.lt_of_not_le hroom⟩

theorem set_globKey (h : Sound regExp cache) (hroom : cache.size < maxCache)
    (pattern : JsString) :
    Sound regExp (cache.set (globKey pattern) (compiled regExp pattern)) where
  glob other regex hget := by
    by_cases hsame : other = pattern
    · rw [hsame, JsMap.get_set, Option.some.injEq] at hget
      rw [hsame, hget]
    · rw [JsMap.get_set_of_ne (globKey_injective.ne hsame)] at hget
      exact h.glob other regex hget
  raw source regex hget := by
    rw [JsMap.get_set_of_ne (globKey_ne_rawKey pattern source).symm] at hget
    exact h.raw source regex hget
  bounded := (JsMap.size_set_le _ _ _).trans hroom

theorem set_rawKey (h : Sound regExp cache) (hroom : cache.size < maxCache)
    (source : JsString) :
    Sound regExp (cache.set (rawKey source) (compiledRaw regExp source)) where
  glob pattern regex hget := by
    rw [JsMap.get_set_of_ne (globKey_ne_rawKey pattern source)] at hget
    exact h.glob pattern regex hget
  raw other regex hget := by
    by_cases hsame : other = source
    · rw [hsame, JsMap.get_set, Option.some.injEq] at hget
      rw [hsame, hget]
    · rw [JsMap.get_set_of_ne (rawKey_injective.ne hsame)] at hget
      exact h.raw other regex hget
  bounded := (JsMap.size_set_le _ _ _).trans hroom

end Sound

/-! ## A call, whatever the cache holds -/

section Calls

variable {regExp : JsString → Option (JsString → Bool)} {m : Matcher}

theorem compile_spec (h : Sound regExp m.cache) (pattern : JsString) :
    (m.compile regExp pattern).1 = compiled regExp pattern ∧
      Sound regExp (m.compile regExp pattern).2.cache ∧
      (m.compile regExp pattern).2.executed = m.executed := by
  unfold compile cached
  cases hget : m.cache.get (globKey pattern) with
  | some found => exact ⟨h.glob pattern found hget, h, rfl⟩
  | none =>
      obtain ⟨hsound, hroom⟩ := h.cleared
      exact ⟨rfl, hsound.set_globKey hroom pattern, rfl⟩

theorem compileRaw_spec (h : Sound regExp m.cache) (source : JsString) :
    (m.compileRaw regExp source).1 = compiledRaw regExp source ∧
      Sound regExp (m.compileRaw regExp source).2.cache ∧
      (m.compileRaw regExp source).2.executed = m.executed := by
  unfold compileRaw cached
  cases hget : m.cache.get (rawKey source) with
  | some found => exact ⟨h.raw source found hget, h, rfl⟩
  | none =>
      obtain ⟨hsound, hroom⟩ := h.cleared
      exact ⟨rfl, hsound.set_rawKey hroom source, rfl⟩

/-- An expression found anywhere is run the same way. -/
theorem test_spec (regex : Option RegExp) (subject : JsString) (m : Matcher) :
    (m.test regex subject).1 = (regex.map RegExp.test).any (· subject) ∧
      (m.test regex subject).2.cache = m.cache ∧
      (m.test regex subject).2.executed = m.executed ++ executions regex subject := by
  cases regex with
  | some regex => exact ⟨rfl, rfl, rfl⟩
  | none => exact ⟨rfl, rfl, (List.append_nil _).symm⟩

theorem newRegExp_map_test (origin : Origin) (source : JsString) :
    (newRegExp regExp origin source).map RegExp.test = regExp source := by
  unfold newRegExp
  cases regExp source <;> rfl

theorem compiled_map_test (pattern : JsString) :
    (compiled regExp pattern).map RegExp.test = Control.compile regExp pattern := by
  unfold compiled Control.compile
  show Option.map _ (if Slashed pattern then _ else _) = if Slashed pattern then _ else _
  split_ifs with hslashed hglob
  · exact newRegExp_map_test .operator _
  · exact newRegExp_map_test .glob _
  · rfl

/-- The verdict of `matchRegex`, by the expression it compiles. -/
theorem matchRegex_eq (value source : JsString) :
    Control.matchRegex regExp value source =
      ((compiledRaw regExp source).map RegExp.test).any
        (· (if value.length > maxSubject then value.take maxSubject else value)) := by
  unfold Control.matchRegex compiledRaw
  by_cases hnested : hasNestedQuantifier source = true
  · rw [if_pos hnested, if_pos hnested]
    rfl
  · rw [if_neg hnested, if_neg hnested, newRegExp_map_test]
    cases regExp source <;> rfl

/-- The verdict of `matchPattern`, by the expression it compiles when it needs one. -/
theorem matchPattern_eq (value pattern : JsString) :
    Control.matchPattern regExp value pattern =
      (decide (pattern = [] ∨ pattern = js "*" ∨ value = pattern) ||
        ((compiled regExp pattern).map RegExp.test).any (· value)) := by
  rw [compiled_map_test]
  unfold Control.matchPattern
  by_cases hany : pattern = [] ∨ pattern = js "*"
  · have hdone : pattern = [] ∨ pattern = js "*" ∨ value = pattern := by tauto
    rw [if_pos hany, decide_eq_true hdone, Bool.true_or]
  · by_cases hsame : value = pattern
    · rw [if_neg hany, if_pos hsame, decide_eq_true (.inr (.inr hsame)), Bool.true_or]
    · have hdone : ¬ (pattern = [] ∨ pattern = js "*" ∨ value = pattern) := by tauto
      rw [if_neg hany, if_neg hsame, decide_eq_false hdone, Bool.false_or]
      cases Control.compile regExp pattern <;> rfl

end Calls

/-! ## Computations on the cache -/

/-- From any sound cache a computation returns `value`, leaves a sound cache and runs what
`calls` run, in their order. -/
def Performs {α : Type} (regExp : JsString → Option (JsString → Bool)) (x : StateM Matcher α)
    (value : α) (calls : List Call) : Prop :=
  ∀ m : Matcher, Sound regExp m.cache →
    (x m).1 = value ∧ Sound regExp (x m).2.cache ∧
      (x m).2.executed = m.executed ++ calls.flatMap (Call.executions regExp)

namespace Performs

variable {regExp : JsString → Option (JsString → Bool)} {α β : Type}

theorem pure (value : α) : Performs regExp (pure value) value [] := by
  intro m h
  exact ⟨rfl, h, (List.append_nil _).symm⟩

theorem bind {x : StateM Matcher α} {f : α → StateM Matcher β} {a : α} {b : β}
    {calls calls' : List Call} (hx : Performs regExp x a calls)
    (hf : Performs regExp (f a) b calls') : Performs regExp (x >>= f) b (calls ++ calls') := by
  intro m h
  obtain ⟨hvalue, hsound, hexecuted⟩ := hx m h
  obtain ⟨hvalue', hsound', hexecuted'⟩ := hf (x m).2 hsound
  have hrun : (x >>= f) m = f (x m).1 (x m).2 := rfl
  rw [hrun, hvalue]
  refine ⟨hvalue', hsound', ?_⟩
  rw [hexecuted', hexecuted, List.flatMap_append, List.append_assoc]

end Performs

section Calls

variable {regExp : JsString → Option (JsString → Bool)}

theorem matchRegex_performs (value source : JsString) :
    Performs regExp (matchRegex regExp value source) (Control.matchRegex regExp value source)
      [.onRegex value source] := by
  intro m h
  obtain ⟨hregex, hsound, hexecuted⟩ := compileRaw_spec h source
  obtain ⟨hverdict, hcache, hlog⟩ := test_spec (m.compileRaw regExp source).1
    (if value.length > maxSubject then value.take maxSubject else value)
    (m.compileRaw regExp source).2
  refine ⟨hverdict.trans ?_, hcache ▸ hsound, hlog.trans ?_⟩
  · rw [hregex, matchRegex_eq]
  · rw [hexecuted, hregex]
    exact congrArg _ (List.append_nil _).symm

theorem matchPattern_performs (value pattern : JsString) :
    Performs regExp (matchPattern regExp value pattern)
      (Control.matchPattern regExp value pattern) [.onPattern value pattern] := by
  intro m h
  by_cases hdone : pattern = [] ∨ pattern = js "*" ∨ value = pattern
  · have hstays : matchPattern regExp value pattern m = (true, m) := by
      unfold matchPattern
      split_ifs with hany hsame
      · rfl
      · rfl
      · tauto
    rw [hstays, matchPattern_eq, decide_eq_true hdone, Bool.true_or]
    refine ⟨rfl, h, ?_⟩
    show m.executed = m.executed ++ ((if _ then _ else _) ++ [])
    rw [if_pos hdone, List.append_nil, List.append_nil]
  · have hruns : matchPattern regExp value pattern m =
        test (m.compile regExp pattern).1 value (m.compile regExp pattern).2 := by
      unfold matchPattern
      rw [if_neg (by tauto), if_neg (by tauto)]
    obtain ⟨hregex, hsound, hexecuted⟩ := compile_spec h pattern
    obtain ⟨hverdict, hcache, hlog⟩ := test_spec (m.compile regExp pattern).1 value
      (m.compile regExp pattern).2
    rw [hruns, matchPattern_eq, decide_eq_false hdone, Bool.false_or]
    refine ⟨hverdict.trans ?_, hcache ▸ hsound, hlog.trans ?_⟩
    · rw [hregex]
    · rw [hexecuted, hregex]
      show _ = m.executed ++ ((if _ then _ else _) ++ [])
      rw [if_neg hdone, List.append_nil]

/-- A call answers what it answers without a cache. -/
theorem call_performs (call : Call) :
    Performs regExp (call.perform regExp) (call.verdict regExp) [call] := by
  cases call with
  | onPattern value pattern => exact matchPattern_performs value pattern
  | onRegex value source => exact matchRegex_performs value source

/-! ## Runs -/

theorem Sound.step {m : Matcher} (h : Sound regExp m.cache) (call : Call) :
    Sound regExp (step regExp m call).cache :=
  (call_performs call m h).2.1

theorem sound_run (calls : List Call) : Sound regExp (run (step regExp) initial calls).cache :=
  run_invariant (I := fun m => Sound regExp m.cache) (step regExp) (fun _ call h => h.step call)
    Sound.initial calls

end Calls

/-- **The cache is transparent.**  After any calls a call answers as it does when it is the
first one, and the cache has not outgrown its bound. -/
theorem pattern_cache_transparent (regExp : JsString → Option (JsString → Bool))
    (calls : List Call) (call : Call) :
    (call.perform regExp (run (step regExp) initial calls)).1 =
        (call.perform regExp initial).1 ∧
      (run (step regExp) initial calls).cache.size ≤ maxCache := by
  have hreached : Sound regExp (run (step regExp) initial calls).cache := sound_run calls
  have hlater := (call_performs call _ hreached).1
  have hfirst : (call.perform regExp initial).1 = call.verdict regExp :=
    (call_performs call initial Sound.initial).1
  exact ⟨hlater.trans hfirst.symm, hreached.bounded⟩

end Matcher

end RateLimiter.Control
