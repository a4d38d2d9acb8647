import RateLimiter.Limiter.Database

/-!
# Places of keys

The algorithms were studied on stores in which every key has a place of its own for each of
them.  The database has names instead, made of what the caller sends.  As a name tells the
key it is of, the checks of a process cannot tell the two apart.
-/

namespace RateLimiter.Limiter

open RateLimiter.Redis RateLimiter.Javascript RateLimiter.Foundations

/-! ## The stores of the three algorithms -/

namespace Database

/-- The database as the keys of each algorithm, beside the counter of a process. -/
def stores (db : Database) (sequence : Nat) : Stores := ⟨db.bucket, db.log, db.counters, sequence⟩

/-- A string key is read as it was written. -/
theorem bind_map {α : Type} {wrap : Timed α → Entry} {unwrap : Entry → StringKey α}
    (h : ∀ timed, unwrap (wrap timed) = some timed) (key : StringKey α) :
    (key.map wrap).bind unwrap = key := by
  cases key with
  | none => rfl
  | some timed => exact h timed

/-- So is a log. -/
theorem bind_storedLog (z : SortedSet JsString) :
    ((storedLog z).bind Entry.log?).getD .absent = z := by
  unfold storedLog
  split
  next hempty =>
    obtain ⟨members, expireAt, hexpire⟩ := z
    obtain rfl : members = ∅ := AList.ext hempty
    obtain rfl : expireAt = none := hexpire hempty
    rfl
  next => rfl

/-- Nothing of another kind is read where a key was written. -/
theorem bind_other {α : Type} {wrap : Timed α → Entry} {β : Type} {unwrap : Entry → Option β}
    (h : ∀ timed, unwrap (wrap timed) = none) (key : StringKey α) :
    (key.map wrap).bind unwrap = none := by
  cases key with
  | none => rfl
  | some timed => exact h timed

end Database

namespace Database

variable (db : Database)

/-- No counter is read under a name that is for something else. -/
theorem counters_eq_none {k : LimiterKey} (h : k.algorithm ≠ .fixedWindow) :
    db.counters k.name = none := by
  show (db.lookup k.name).bind Entry.counter? = none
  cases hentry : db.lookup k.name with
  | none => rfl
  | some v =>
      have hholds := db.typed (.limiter k) v hentry
      cases k with
      | counter key index => exact absurd rfl h
      | _ => cases v <;> first | rfl | cases hholds

theorem lookup_setBucket_tokens (key : JsString) (keys : BucketKeys) :
    (db.setBucket key keys).lookup (LimiterKey.tokens key).name = keys.tokens.map .tokens := by
  unfold setBucket
  rw [lookup_write_limiter _ (by simp)]
  exact lookup_write_self db (.limiter (.tokens key)) _ _

theorem lookup_setBucket_timestamp (key : JsString) (keys : BucketKeys) :
    (db.setBucket key keys).lookup (LimiterKey.timestamp key).name =
      keys.timestamp.map .timestamp :=
  lookup_write_self _ (.limiter (.timestamp key)) _ _

theorem lookup_setBucket_of_ne {key name : JsString} (keys : BucketKeys)
    (htokens : name ≠ (LimiterKey.tokens key).name)
    (htimestamp : name ≠ (LimiterKey.timestamp key).name) :
    (db.setBucket key keys).lookup name = db.lookup name := by
  unfold setBucket
  rw [lookup_write_of_ne _ htimestamp, lookup_write_of_ne _ htokens]

theorem stores_setBucket (key : JsString) (keys : BucketKeys) (sequence : Nat) :
    (db.setBucket key keys).stores sequence =
      { db.stores sequence with buckets := Function.update db.bucket key keys } := by
  refine (Stores.mk.injEq ..).mpr ⟨?_, ?_, ?_, rfl⟩
  · funext key'
    by_cases hkey : key' = key
    · rw [hkey, Function.update_self]
      unfold bucket
      rw [lookup_setBucket_tokens, lookup_setBucket_timestamp, bind_map fun _ => rfl,
        bind_map fun _ => rfl]
    · rw [Function.update_of_ne hkey]
      unfold bucket setBucket
      rw [lookup_write_limiter _ (by simp), lookup_write_limiter _ (by simpa using hkey),
        lookup_write_limiter _ (by simpa using hkey), lookup_write_limiter _ (by simp)]
  · funext key'
    unfold log setBucket stores
    rw [lookup_write_limiter _ (by simp), lookup_write_limiter _ (by simp)]
    rfl
  · funext name
    show ((db.setBucket key keys).lookup name).bind Entry.counter? = db.counters name
    by_cases htokens : name = (LimiterKey.tokens key).name
    · rw [htokens, lookup_setBucket_tokens, bind_other fun _ => rfl,
        counters_eq_none db (by simp [LimiterKey.algorithm])]
    · by_cases htimestamp : name = (LimiterKey.timestamp key).name
      · rw [htimestamp, lookup_setBucket_timestamp, bind_other fun _ => rfl,
          counters_eq_none db (by simp [LimiterKey.algorithm])]
      · rw [lookup_setBucket_of_ne db keys htokens htimestamp]
        rfl

theorem stores_setLog (key : JsString) (z : SortedSet JsString) (sequence sequence' : Nat) :
    (db.setLog key z).stores sequence' =
      { db.stores sequence with
        logs := Function.update db.log key z
        sequence := sequence' } := by
  have hself : (db.setLog key z).lookup (LimiterKey.log key).name = storedLog z :=
    lookup_write_self db (.limiter (.log key)) _ _
  refine (Stores.mk.injEq ..).mpr ⟨?_, ?_, ?_, rfl⟩
  · funext key'
    unfold bucket setLog stores
    rw [lookup_write_limiter _ (by simp), lookup_write_limiter _ (by simp)]
    rfl
  · funext key'
    by_cases hkey : key' = key
    · rw [hkey, Function.update_self]
      unfold log
      rw [hself, bind_storedLog]
    · rw [Function.update_of_ne hkey]
      unfold log setLog
      rw [lookup_write_limiter _ (by simpa using hkey)]
  · funext name
    show ((db.setLog key z).lookup name).bind Entry.counter? = db.counters name
    by_cases hname : name = (LimiterKey.log key).name
    · rw [hname, hself, counters_eq_none db (by simp [LimiterKey.algorithm])]
      unfold storedLog
      split <;> rfl
    · unfold setLog
      rw [lookup_write_of_ne _ hname]
      rfl

theorem stores_setCounter (key : JsString) (index : Int) (counter : StringKey Int)
    (sequence : Nat) :
    (db.setCounter key index counter).stores sequence =
      { db.stores sequence with
        counters := Function.update db.counters (LimiterKey.counter key index).name counter } := by
  have hself : (db.setCounter key index counter).lookup (LimiterKey.counter key index).name =
      counter.map .counter := lookup_write_self db (.limiter (.counter key index)) _ _
  refine (Stores.mk.injEq ..).mpr ⟨?_, ?_, ?_, rfl⟩
  · funext key'
    unfold bucket setCounter stores
    rw [lookup_write_limiter _ (by simp), lookup_write_limiter _ (by simp)]
    rfl
  · funext key'
    unfold log setCounter stores
    rw [lookup_write_limiter _ (by simp)]
    rfl
  · funext name
    show ((db.setCounter key index counter).lookup name).bind Entry.counter? = _
    by_cases hname : name = (LimiterKey.counter key index).name
    · rw [hname, Function.update_self, hself, bind_map fun _ => rfl]
    · rw [Function.update_of_ne hname]
      unfold setCounter
      rw [lookup_write_of_ne _ hname]
      rfl

end Database

/-- A check that a process makes of the limiter. -/
structure Ask where
  clock : Int
  now : Nat
  algorithm : RateLimitAlgorithm
  key : JsString
  q : Quota
  cost : Rat

namespace Ask

/-- The check on the stores of the algorithms. -/
def onStores (pid : Nat) (stores : Stores) (ask : Ask) :
    Stores × Except Thrown RateLimitCheckResult :=
  match algorithmAt pid ask.cost ask.algorithm with
  | some check =>
      match check ask.clock ask.q ask.now ask.key stores with
      | .ok (stores', result) => (stores', .ok result)
      | .error thrown => (stores, .error thrown)
  | none => (stores, .error (unsupported ask.algorithm))

/-- The counter of the process goes up for every member it makes. -/
def counted (ask : Ask) (sequence : Nat) : Nat :=
  if ask.algorithm = .slidingWindow ∧ ask.cost = 1 then sequence + 1 else sequence

/-- The check on the database, beside the counter of the process. -/
def onDatabase (pid : Nat) (process : Database × Nat) (ask : Ask) :
    (Database × Nat) × Except Thrown RateLimitCheckResult :=
  let out := process.1.check ⟨ask.clock, ask.now, pid, process.2⟩ ask.key ask.q ask.cost
    ask.algorithm
  ((out.1, ask.counted process.2), out.2)

/-- One check of the database is one check of the stores. -/
theorem onDatabase_eq (pid : Nat) (process : Database × Nat) (ask : Ask) :
    ((ask.onDatabase pid process).1.1.stores (ask.onDatabase pid process).1.2,
        (ask.onDatabase pid process).2) =
      ask.onStores pid (process.1.stores process.2) := by
  obtain ⟨db, sequence⟩ := process
  obtain ⟨clock, now, algorithm, key, q, cost⟩ := ask
  cases algorithm with
  | tokenBucket => exact congrArg (·, _) (db.stores_setBucket key _ _)
  | slidingWindow =>
      unfold onDatabase onStores Database.check counted
      by_cases hcost : cost = 1
      · simp only [algorithmAt, SlidingWindowAlgorithm.check, hcost, ne_eq, not_true_eq_false,
          if_false, and_self, if_true]
        rw [Database.stores_setLog db key _ sequence]
        rfl
      · simp only [algorithmAt, SlidingWindowAlgorithm.check, hcost, ne_eq, not_false_eq_true,
          if_true, and_false, if_false]
  | fixedWindow =>
      unfold onDatabase onStores Database.check counted
      by_cases hcost : cost = 1
      · simp only [algorithmAt, FixedWindowAlgorithm.check, hcost, ne_eq, not_true_eq_false,
          if_false, reduceCtorEq, false_and, Function.update_self]
        rw [Database.stores_setCounter]
        rfl
      · simp only [algorithmAt, FixedWindowAlgorithm.check, hcost, ne_eq, not_false_eq_true,
          if_true, reduceCtorEq, false_and, if_false]
  | leakyBucket => rfl

end Ask

end RateLimiter.Limiter
