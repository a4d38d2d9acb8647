import RateLimiter.Admission.Keyspace
import RateLimiter.Limiter.Stats

/-!
# The names of all keys

The generic limiter and the admission layer keep their keys in one database.  The limiter
puts a prefix before the key a caller sends and for two of its algorithms a suffix behind
it; neither the key nor the tenant and the model of a pair are restricted in what they may
contain.  Names still tell which key of which algorithm they are of.
-/

namespace RateLimiter.Limiter

open RateLimiter.Redis RateLimiter.Javascript RateLimiter.Foundations RateLimiter.Admission

/-! ## Integers as text -/

/-- An integer in a template string. -/
def intText : Int → JsString
  | .ofNat n => natText n
  | .negSucc n => js "-" ++ natText (n + 1)

theorem intText_injective : Function.Injective intText := by
  have hhyphen : js "-" = [unit '-'] := by decide +kernel
  have hsign : ∀ m n : Nat, natText m ≠ js "-" ++ natText n := by
    intro m n h
    refine hyphen_not_mem_natText m ?_
    rw [h, hhyphen]
    exact List.mem_cons_self
  intro i j h
  cases i with
  | ofNat m =>
      cases j with
      | ofNat n => exact congrArg Int.ofNat (natText_injective h)
      | negSucc n => exact absurd h (hsign m (n + 1))
  | negSucc m =>
      cases j with
      | ofNat n => exact absurd h.symm (hsign n (m + 1))
      | negSucc n =>
          have hnat := natText_injective (List.append_cancel_left h)
          rw [Nat.succ.inj hnat]

theorem colon_not_mem_intText (i : Int) : unit ':' ∉ intText i := by
  have hdigits : ∀ n, unit ':' ∉ natText n := by
    intro n hmem
    have hdigit := isDigit_of_mem_natText hmem
    revert hdigit
    decide
  cases i with
  | ofNat n => exact hdigits n
  | negSucc n =>
      have hsign : unit ':' ∉ js "-" := by decide +kernel
      unfold intText
      rw [List.mem_append]
      exact not_or.mpr ⟨hsign, hdigits (n + 1)⟩

/-! ## The keys of the limiter -/

/-- The keys of the limiter, of the key that a caller sends. -/
inductive LimiterKey
  | tokens (key : JsString)
  | timestamp (key : JsString)
  | log (key : JsString)
  | counter (key : JsString) (windowIndex : Int)

namespace LimiterKey

/-- `keys` of the token bucket, and `key` of the other two. -/
def name : LimiterKey → JsString
  | tokens key => js "rate_limit:token_bucket:" ++ key ++ js ":tokens"
  | timestamp key => js "rate_limit:token_bucket:" ++ key ++ js ":timestamp"
  | log key => js "rate_limit:sliding_window:" ++ key
  | counter key windowIndex =>
      js "rate_limit:fixed_window:" ++ key ++ js ":" ++ intText windowIndex

/-- The algorithm a key is of. -/
def algorithm : LimiterKey → RateLimitAlgorithm
  | tokens _ | timestamp _ => .tokenBucket
  | log _ => .slidingWindow
  | counter _ _ => .fixedWindow

/-- The key that the caller has sent. -/
def sent : LimiterKey → JsString
  | tokens key | timestamp key | log key | counter key _ => key

/-- The first letters of the names of an algorithm's keys. -/
def mark : RateLimitAlgorithm → JsString
  | .tokenBucket => js "rate_limit:t"
  | .slidingWindow => js "rate_limit:s"
  | .fixedWindow => js "rate_limit:f"
  | .leakyBucket => js "rate_limit:l"

theorem mark_injective : Function.Injective mark := by
  intro algorithm algorithm'
  cases algorithm <;> cases algorithm' <;> decide +kernel

/-- A name starts with the mark of its algorithm. -/
theorem mark_prefix_name (k : LimiterKey) : mark k.algorithm <+: k.name := by
  have hstart : ∀ {mark front rest : JsString}, mark <+: front → mark <+: front ++ rest :=
    fun h => h.trans (List.prefix_append _ _)
  cases k with
  | tokens key =>
      exact hstart (hstart (show js "rate_limit:t" <+: js "rate_limit:token_bucket:" by
        decide +kernel))
  | timestamp key =>
      exact hstart (hstart (show js "rate_limit:t" <+: js "rate_limit:token_bucket:" by
        decide +kernel))
  | log key =>
      exact hstart (show js "rate_limit:s" <+: js "rate_limit:sliding_window:" by
        decide +kernel)
  | counter key windowIndex =>
      exact hstart (hstart (hstart (show js "rate_limit:f" <+: js "rate_limit:fixed_window:" by
        decide +kernel)))

theorem length_mark (algorithm : RateLimitAlgorithm) : (mark algorithm).length = 12 := by
  cases algorithm <;> decide +kernel

/-- Keys of one name are of one algorithm. -/
theorem algorithm_eq_of_name_eq {k k' : LimiterKey} (h : k.name = k'.name) :
    k.algorithm = k'.algorithm := by
  have hmark := k.mark_prefix_name
  rw [h] at hmark
  refine mark_injective ((List.prefix_of_prefix_length_le hmark k'.mark_prefix_name ?_).eq_of_length
    ?_)
  · rw [length_mark, length_mark]
  · rw [length_mark, length_mark]

/-- The two keys of a bucket end differently. -/
theorem tokens_name_ne (key key' : JsString) : (tokens key).name ≠ (timestamp key').name := by
  intro h
  have hlast := congrArg List.getLast? h
  have htokens : js ":tokens" ≠ [] := by decide +kernel
  have htimestamp : js ":timestamp" ≠ [] := by decide +kernel
  simp only [name] at hlast
  rw [List.getLast?_append_of_ne_nil _ htokens,
    List.getLast?_append_of_ne_nil _ htimestamp] at hlast
  revert hlast
  decide +kernel

/-- A name is the name of one key. -/
theorem name_injective : Function.Injective name := by
  intro k k' h
  have halgorithm := algorithm_eq_of_name_eq h
  cases k with
  | tokens key =>
      cases k' with
      | tokens key' =>
          rw [List.append_cancel_left (List.append_cancel_right h)]
      | timestamp key' => exact absurd h (tokens_name_ne key key')
      | _ => cases halgorithm
  | timestamp key =>
      cases k' with
      | tokens key' => exact absurd h.symm (tokens_name_ne key' key)
      | timestamp key' =>
          rw [List.append_cancel_left (List.append_cancel_right h)]
      | _ => cases halgorithm
  | log key =>
      cases k' with
      | log key' => rw [List.append_cancel_left h]
      | _ => cases halgorithm
  | counter key windowIndex =>
      cases k' with
      | counter key' windowIndex' =>
          -- the last colon of the name stands before the index
          have hcolon : js ":" = [unit ':'] := by decide +kernel
          have hjoin : join (unit ':') (key, intText windowIndex) =
              join (unit ':') (key', intText windowIndex') := by
            unfold name at h
            rw [hcolon] at h
            simpa [join] using h
          have hpair : (key, intText windowIndex) = (key', intText windowIndex') :=
            (join_eq_join_iff.mp hjoin).resolve_right
              (not_overlap_of_not_mem_snd (colon_not_mem_intText windowIndex)
                (colon_not_mem_intText windowIndex'))
          obtain ⟨hkey, hindex⟩ := Prod.mk.inj hpair
          rw [hkey, intText_injective hindex]
      | _ => cases halgorithm

/-- No name of the limiter is the name of a pair's key. -/
theorem name_ne_keyName (k : LimiterKey) (pair : Pair) (key : PairKey) :
    k.name ≠ keyName pair key := by
  intro h
  have hlimiter : js "r" <+: k.name := by
    have hmark : ∀ algorithm, js "r" <+: mark algorithm := by
      intro algorithm
      cases algorithm <;> decide +kernel
    exact (hmark k.algorithm).trans k.mark_prefix_name
  have hpair : js "l" <+: keyName pair key := by
    have htag : js "l" <+: js "llm:\x7b" := by decide +kernel
    unfold keyName ns
    rw [List.append_assoc, List.append_assoc]
    exact htag.trans (List.prefix_append _ _)
  rw [h] at hlimiter
  have hletter := (List.prefix_of_prefix_length_le hlimiter hpair le_rfl).eq_of_length rfl
  revert hletter
  decide +kernel

end LimiterKey

/-! ## All keys -/

/-- The keys of the database. -/
inductive ServiceKey
  | limiter (key : LimiterKey)
  | admission (pair : Pair) (key : PairKey)

/-- What a name can hold. -/
inductive Entry
  | tokens (timed : Timed Rat)
  | timestamp (timed : Timed Int)
  | log (z : SortedSet JsString)
  | counter (timed : Timed Int)
  | admission (v : Stored)

namespace Entry

/-- The tokens a name holds. -/
def tokens? : Entry → StringKey Rat
  | tokens timed => some timed
  | _ => none

/-- The timestamp a name holds. -/
def timestamp? : Entry → StringKey Int
  | timestamp timed => some timed
  | _ => none

/-- The log a name holds. -/
def log? : Entry → Option (SortedSet JsString)
  | log z => some z
  | _ => none

/-- The counter a name holds. -/
def counter? : Entry → StringKey Int
  | counter timed => some timed
  | _ => none

/-- What a name holds for a pair. -/
def admission? : Entry → Option Stored
  | admission v => some v
  | _ => none

end Entry

namespace ServiceKey

def name : ServiceKey → JsString
  | limiter key => key.name
  | admission pair key => keyName pair key

/-- Is this what the key is used for? -/
def Holds : ServiceKey → Entry → Prop
  | limiter (.tokens _), .tokens _ | limiter (.timestamp _), .timestamp _
  | limiter (.log _), .log _ | limiter (.counter _ _), .counter _ => True
  | admission _ key, .admission v => key.Holds v
  | _, _ => False

/-- Keys of one name are used for the same. -/
theorem holds_of_name_eq {k k' : ServiceKey} (h : k.name = k'.name) {v : Entry}
    (hv : k.Holds v) : k'.Holds v := by
  cases k with
  | limiter key =>
      cases k' with
      | limiter key' =>
          obtain rfl := LimiterKey.name_injective h
          exact hv
      | admission pair key' => exact absurd h (key.name_ne_keyName pair key')
  | admission pair key =>
      cases k' with
      | limiter key' => exact absurd h.symm (key'.name_ne_keyName pair key)
      | admission pair' key' =>
          obtain rfl := (keyName_eq_keyName_iff.mp h).2
          cases v with
          | admission w => exact hv
          | _ => exact hv

end ServiceKey

end RateLimiter.Limiter
