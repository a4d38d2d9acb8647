import RateLimiter.Admission.Isolation
import RateLimiter.Foundations.Footprints
import RateLimiter.Limiter.KeyNames

/-!
# One database

All checks, resets and statistics of the generic limiter, whatever their key and their
algorithm, and all calls of the admission layer run against one database, from any number
of processes.  Each of them stays within the names of what it is about, so what one key of
one algorithm is answered does not depend on anything else that is asked of the service.
-/

namespace RateLimiter.Limiter

open RateLimiter.Redis RateLimiter.Javascript RateLimiter.Foundations RateLimiter.Admission

/-- A database in which every name of the service holds what it is used for. -/
structure Database where
  lookup : JsString → Option Entry
  typed : ∀ (key : ServiceKey) v, lookup key.name = some v → key.Holds v

namespace Database

/-- No name holds anything. -/
def empty : Database := ⟨fun _ => none, fun _ _ h => by cases h⟩

/-- The two keys of a bucket. -/
def bucket (db : Database) (key : JsString) : BucketKeys where
  tokens := (db.lookup (LimiterKey.tokens key).name).bind Entry.tokens?
  timestamp := (db.lookup (LimiterKey.timestamp key).name).bind Entry.timestamp?

/-- The log of a key. -/
def log (db : Database) (key : JsString) : SortedSet JsString :=
  ((db.lookup (LimiterKey.log key).name).bind Entry.log?).getD .absent

/-- The counters, by the text of their keys. -/
def counters (db : Database) : FixedWindowAlgorithm.Counters :=
  fun name => (db.lookup name).bind Entry.counter?

/-- What the admission layer sees of the database. -/
def keyspace (db : Database) : Keyspace where
  lookup name := (db.lookup name).bind Entry.admission?
  typed := by
    intro pair key v h
    obtain ⟨entry, hentry, hv⟩ := Option.bind_eq_some_iff.mp h
    have hholds := db.typed (.admission pair key) entry hentry
    cases entry with
    | admission w =>
        obtain rfl : w = v := Option.some.inj hv
        exact hholds
    | _ => cases hv

/-- What is left of the database without some of its names. -/
def del (db : Database) (names : List JsString) : Database where
  lookup name := if name ∈ names then none else db.lookup name
  typed := by
    intro key v h
    split at h
    · cases h
    · exact db.typed key v h

/-- Write what a key is used for. -/
def write (db : Database) (key : ServiceKey) (content : Option Entry)
    (h : ∀ v ∈ content, key.Holds v) : Database where
  lookup name := if name = key.name then content else db.lookup name
  typed := by
    intro key' v hv
    split at hv
    next hname => exact ServiceKey.holds_of_name_eq hname.symm (h v hv)
    next => exact db.typed key' v hv

/-- Write the two keys of a bucket. -/
def setBucket (db : Database) (key : JsString) (keys : BucketKeys) : Database :=
  (db.write (.limiter (.tokens key)) (keys.tokens.map .tokens) (by
      intro v hv
      obtain ⟨timed, -, rfl⟩ := Option.map_eq_some_iff.mp hv
      trivial)).write
    (.limiter (.timestamp key)) (keys.timestamp.map .timestamp) (by
      intro v hv
      obtain ⟨timed, -, rfl⟩ := Option.map_eq_some_iff.mp hv
      trivial)

/-- A set without members is no key. -/
def storedLog (z : SortedSet JsString) : Option Entry :=
  if z.members.entries = [] then none else some (.log z)

/-- Write the log of a key. -/
def setLog (db : Database) (key : JsString) (z : SortedSet JsString) : Database :=
  db.write (.limiter (.log key)) (storedLog z) (by
    intro v hv
    unfold storedLog at hv
    split at hv
    · cases hv
    · cases hv
      trivial)

/-- Write the counter of a window. -/
def setCounter (db : Database) (key : JsString) (windowIndex : Int) (counter : StringKey Int) :
    Database :=
  db.write (.limiter (.counter key windowIndex)) (counter.map .counter) (by
    intro v hv
    obtain ⟨timed, -, rfl⟩ := Option.map_eq_some_iff.mp hv
    trivial)

/-- Write the keys of a pair as the admission layer leaves them. -/
def setPair (db : Database) (pair : Pair) (ks : Keyspace) : Database where
  lookup name :=
    match locate pair name with
    | some _ => (ks.lookup name).map .admission
    | none => db.lookup name
  typed := by
    intro key v h
    split at h
    next key' hlocate =>
      have hname := keyName_of_locate hlocate
      obtain ⟨w, hw, rfl⟩ := Option.map_eq_some_iff.mp h
      rw [hname] at hw
      exact ServiceKey.holds_of_name_eq (k := .admission pair key') hname.symm
        (ks.typed pair key' w hw)
    next => exact db.typed key v h

end Database

/-! ## What is asked of the service -/

/-- Where and when a check of the limiter is made: the server's clock, `Date.now()`, and the
process with its counter. -/
structure Origin where
  clock : Int
  now : Nat
  pid : Nat
  sequence : Nat

/-- What is asked of the service, with the limit that a check has been resolved to. -/
inductive Command
  | check (origin : Origin) (algorithm : RateLimitAlgorithm) (key : JsString) (q : Quota)
      (cost : Rat)
  | reset (now : Nat) (algorithm : RateLimitAlgorithm) (key : JsString) (windowSeconds : Nat)
  | getStats (clock : Int) (now : Nat) (algorithm : RateLimitAlgorithm) (key : JsString)
      (windowSeconds : Nat)
  | admission (call : PairCall)

/-- What the caller gets. -/
inductive CommandAnswer
  | checked (result : Except Thrown RateLimitCheckResult)
  | wasReset (result : Except Thrown Unit)
  | stats (result : Except Thrown (Option KeyStats))
  | admission (reply : Reply)

/-- What `getAlgorithm` throws. -/
def unsupported (algorithm : RateLimitAlgorithm) : Thrown :=
  .error (js "Unsupported algorithm: " ++ algorithm.text)

namespace Database

/-- `check`. -/
def check (db : Database) (origin : Origin) (key : JsString) (q : Quota) (cost : Rat) :
    RateLimitAlgorithm → Database × Except Thrown RateLimitCheckResult
  | .tokenBucket =>
      let out := TokenBucketAlgorithm.check origin.clock q origin.now cost (db.bucket key)
      (db.setBucket key out.1, .ok out.2)
  | .slidingWindow =>
      match SlidingWindowAlgorithm.check origin.clock q origin.now origin.pid cost
        origin.sequence (db.log key) with
      | .ok ((log, _), result) => (db.setLog key log, .ok result)
      | .error thrown => (db, .error thrown)
  | .fixedWindow =>
      let index := FixedWindowAlgorithm.windowIndex origin.now q.windowSeconds
      match FixedWindowAlgorithm.check origin.clock q key origin.now cost db.counters with
      | .ok (counters, result) =>
          (db.setCounter key index (counters (FixedWindowAlgorithm.key key index)), .ok result)
      | .error thrown => (db, .error thrown)
  | .leakyBucket => (db, .error (unsupported .leakyBucket))

/-- `reset`: the current window of a counter and the one before it. -/
def reset (db : Database) (now : Nat) (key : JsString) (windowSeconds : Nat) :
    RateLimitAlgorithm → Database × Except Thrown Unit
  | .tokenBucket =>
      (db.del [(LimiterKey.tokens key).name, (LimiterKey.timestamp key).name], .ok ())
  | .slidingWindow => (db.del [(LimiterKey.log key).name], .ok ())
  | .fixedWindow =>
      let index : Int := FixedWindowAlgorithm.windowIndex now windowSeconds
      (db.del [(LimiterKey.counter key index).name, (LimiterKey.counter key (index - 1)).name],
        .ok ())
  | .leakyBucket => (db, .error (unsupported .leakyBucket))

/-- `getStats`. -/
def getStats (db : Database) (clock : Int) (now : Nat) (key : JsString) (windowSeconds : Nat) :
    RateLimitAlgorithm → Except Thrown (Option KeyStats)
  | .tokenBucket => .ok (TokenBucketAlgorithm.getStats clock now (db.bucket key))
  | .slidingWindow => .ok (SlidingWindowAlgorithm.getStats clock now (db.log key))
  | .fixedWindow =>
      .ok (FixedWindowAlgorithm.getStats clock key windowSeconds now db.counters)
  | .leakyBucket => .error (unsupported .leakyBucket)

/-- The database a command leaves and what the caller gets. -/
def execute (db : Database) : Command → Database × CommandAnswer
  | .check origin algorithm key q cost =>
      let out := db.check origin key q cost algorithm
      (out.1, .checked out.2)
  | .reset now algorithm key windowSeconds =>
      let out := db.reset now key windowSeconds algorithm
      (out.1, .wasReset out.2)
  | .getStats clock now algorithm key windowSeconds =>
      (db, .stats (db.getStats clock now key windowSeconds algorithm))
  | .admission call =>
      (db.setPair call.1 (serve db.keyspace call), .admission (Admission.answer db.keyspace call))

/-- The database a command leaves. -/
def step (db : Database) (command : Command) : Database := (db.execute command).1

/-- What the caller gets. -/
def answer (db : Database) (command : Command) : CommandAnswer := (db.execute command).2

end Database

/-! ## Names and what is read under them -/

namespace Database

variable (db db' : Database)

@[simp] theorem lookup_write (key : ServiceKey) (content : Option Entry)
    (h : ∀ v ∈ content, key.Holds v) (name : JsString) :
    (db.write key content h).lookup name = if name = key.name then content else db.lookup name :=
  rfl

theorem lookup_write_self (key : ServiceKey) (content : Option Entry)
    (h : ∀ v ∈ content, key.Holds v) : (db.write key content h).lookup key.name = content :=
  if_pos rfl

theorem lookup_write_of_ne {key : ServiceKey} {content : Option Entry}
    {h : ∀ v ∈ content, key.Holds v} {name : JsString} (hne : name ≠ key.name) :
    (db.write key content h).lookup name = db.lookup name := if_neg hne

/-- Writing one key of the limiter leaves the others. -/
theorem lookup_write_limiter {k k' : LimiterKey} {content : Option Entry}
    {h : ∀ v ∈ content, (ServiceKey.limiter k).Holds v} (hne : k' ≠ k) :
    (db.write (.limiter k) content h).lookup k'.name = db.lookup k'.name :=
  db.lookup_write_of_ne fun hname => hne (LimiterKey.name_injective hname)

variable {db db'}

theorem bucket_congr {key : JsString}
    (h : Set.EqOn db.lookup db'.lookup
      {(LimiterKey.tokens key).name, (LimiterKey.timestamp key).name}) :
    db.bucket key = db'.bucket key := by
  have htokens := h (Set.mem_insert _ _)
  have htimestamp := h (Set.mem_insert_of_mem _ rfl)
  unfold bucket
  rw [htokens, htimestamp]

theorem log_congr {key : JsString} (h : Set.EqOn db.lookup db'.lookup {(LimiterKey.log key).name}) :
    db.log key = db'.log key := by
  unfold log
  rw [h rfl]

theorem counters_congr {name : JsString} (h : db.lookup name = db'.lookup name) :
    db.counters name = db'.counters name := by
  unfold counters
  rw [h]

/-- Databases that agree under the names of a pair load the same keys of it. -/
theorem load_congr {pair : Pair}
    (h : Set.EqOn db.lookup db'.lookup (Set.range (keyName pair))) :
    db.keyspace.load pair = db'.keyspace.load pair := by
  refine Keyspace.load_congr fun key => ?_
  show (db.lookup _).bind _ = (db'.lookup _).bind _
  rw [h (Set.mem_range_self key)]

end Database

/-! ## Footprints -/

/-- The names of a key under an algorithm; of its counters, those of some windows. -/
def namesOf (key : JsString) (windows : Set Int) : RateLimitAlgorithm → Set JsString
  | .tokenBucket => {(LimiterKey.tokens key).name, (LimiterKey.timestamp key).name}
  | .slidingWindow => {(LimiterKey.log key).name}
  | .fixedWindow => (fun index => (LimiterKey.counter key index).name) '' windows
  | .leakyBucket => ∅

theorem namesOf_mono (key : JsString) {windows windows' : Set Int} (h : windows ⊆ windows')
    (algorithm : RateLimitAlgorithm) :
    namesOf key windows algorithm ⊆ namesOf key windows' algorithm := by
  cases algorithm with
  | fixedWindow => exact Set.image_mono h
  | _ => exact le_rfl

/-- A name of a key under an algorithm is the name of a limiter key of the two. -/
theorem exists_of_mem_namesOf {key name : JsString} {windows : Set Int}
    {algorithm : RateLimitAlgorithm} (h : name ∈ namesOf key windows algorithm) :
    ∃ k : LimiterKey, k.name = name ∧ k.algorithm = algorithm ∧ k.sent = key ∧
      ∀ index, k = .counter key index → index ∈ windows := by
  cases algorithm with
  | tokenBucket =>
      rcases h with rfl | rfl
      · exact ⟨.tokens key, rfl, rfl, rfl, fun _ h => by cases h⟩
      · exact ⟨.timestamp key, rfl, rfl, rfl, fun _ h => by cases h⟩
  | slidingWindow =>
      obtain rfl := h
      exact ⟨.log key, rfl, rfl, rfl, fun _ h => by cases h⟩
  | fixedWindow =>
      obtain ⟨index, hindex, rfl⟩ := h
      refine ⟨.counter key index, rfl, rfl, rfl, fun index' h => ?_⟩
      cases h
      exact hindex
  | leakyBucket => cases h

/-- The window of a call, as the names count it. -/
def windowOf (now windowSeconds : Nat) : Int := FixedWindowAlgorithm.windowIndex now windowSeconds

/-- The names a command may read or write. -/
def Command.footprint : Command → Set JsString
  | .check origin algorithm key q _ =>
      namesOf key {windowOf origin.now q.windowSeconds} algorithm
  | .reset now algorithm key windowSeconds =>
      namesOf key {windowOf now windowSeconds, windowOf now windowSeconds - 1} algorithm
  | .getStats _ now algorithm key windowSeconds =>
      namesOf key {windowOf now windowSeconds} algorithm
  | .admission call => Set.range (keyName call.1)

namespace Database

variable {db db' : Database}

/-! ### Checks -/

section Check

variable (origin : Origin) (key : JsString) (q : Quota) (cost : Rat)

theorem lookup_check_of_not_mem {name : JsString} (algorithm : RateLimitAlgorithm)
    (h : name ∉ namesOf key {windowOf origin.now q.windowSeconds} algorithm) :
    (db.check origin key q cost algorithm).1.lookup name = db.lookup name := by
  cases algorithm with
  | tokenBucket =>
      have hname := not_or.mp h
      exact (if_neg hname.2).trans (if_neg hname.1)
  | slidingWindow =>
      unfold check
      dsimp only
      split
      · exact if_neg h
      · rfl
  | fixedWindow =>
      have hname : name ≠ (LimiterKey.counter key (windowOf origin.now q.windowSeconds)).name :=
        fun heq => h ⟨_, rfl, heq.symm⟩
      unfold check
      dsimp only
      split
      · exact if_neg hname
      · rfl
  | leakyBucket => rfl

/-- A check on databases that agree under its names answers the same and leaves the same
under them. -/
theorem check_congr (algorithm : RateLimitAlgorithm)
    (h : Set.EqOn db.lookup db'.lookup
      (namesOf key {windowOf origin.now q.windowSeconds} algorithm)) :
    (db.check origin key q cost algorithm).2 = (db'.check origin key q cost algorithm).2 ∧
      Set.EqOn (db.check origin key q cost algorithm).1.lookup
        (db'.check origin key q cost algorithm).1.lookup
        (namesOf key {windowOf origin.now q.windowSeconds} algorithm) := by
  cases algorithm with
  | tokenBucket =>
      have hbucket : db.bucket key = db'.bucket key := bucket_congr h
      unfold check setBucket
      simp only [hbucket, true_and]
      intro name hname
      simp only [lookup_write]
      split
      · rfl
      · split
        · rfl
        · exact h hname
  | slidingWindow =>
      have hlog : db.log key = db'.log key := log_congr h
      unfold check setLog
      rw [hlog]
      dsimp only
      split
      · refine ⟨rfl, ?_⟩
        intro name hname
        simp only [lookup_write]
        split
        · rfl
        · exact h hname
      · exact ⟨rfl, h⟩
  | fixedWindow =>
      have hcounter := counters_congr (h ⟨_, rfl, rfl⟩)
      unfold check FixedWindowAlgorithm.check setCounter
      by_cases hcost : cost ≠ 1
      · rw [if_pos hcost, if_pos hcost]
        exact ⟨rfl, h⟩
      · rw [if_neg hcost, if_neg hcost]
        have hsame : db.counters (FixedWindowAlgorithm.key key
            (FixedWindowAlgorithm.windowIndex origin.now q.windowSeconds)) =
            db'.counters (FixedWindowAlgorithm.key key
              (FixedWindowAlgorithm.windowIndex origin.now q.windowSeconds)) := hcounter
        simp only [hsame, Function.update_self, true_and]
        intro name hname
        simp only [lookup_write]
        split
        · rfl
        · exact h hname
  | leakyBucket => exact ⟨rfl, h⟩

end Check

/-! ### Resets and statistics -/

section Reset

variable (now : Nat) (key : JsString) (windowSeconds : Nat)

/-- What a reset leaves: nothing under its names, and everything else. -/
theorem lookup_reset (algorithm : RateLimitAlgorithm) (name : JsString)
    [Decidable (name ∈ namesOf key {windowOf now windowSeconds, windowOf now windowSeconds - 1}
      algorithm)] :
    (db.reset now key windowSeconds algorithm).1.lookup name =
      if name ∈ namesOf key {windowOf now windowSeconds, windowOf now windowSeconds - 1} algorithm
      then none else db.lookup name := by
  have hdel : ∀ {names : List JsString} {set : Set JsString} [Decidable (name ∈ set)],
      (name ∈ names ↔ name ∈ set) →
      (db.del names).lookup name = if name ∈ set then none else db.lookup name :=
    fun hiff => if_congr hiff rfl rfl
  cases algorithm with
  | tokenBucket => exact hdel (by simp [namesOf])
  | slidingWindow => exact hdel (by simp [namesOf])
  | fixedWindow =>
      refine hdel ?_
      unfold namesOf
      rw [Set.image_pair]
      simp [windowOf]
  | leakyBucket => exact (if_neg (Set.notMem_empty name)).symm

theorem getStats_congr (clock : Int) (algorithm : RateLimitAlgorithm)
    (h : Set.EqOn db.lookup db'.lookup
      (namesOf key {windowOf now windowSeconds} algorithm)) :
    db.getStats clock now key windowSeconds algorithm =
      db'.getStats clock now key windowSeconds algorithm := by
  cases algorithm with
  | tokenBucket =>
      have hbucket : db.bucket key = db'.bucket key := bucket_congr h
      unfold getStats
      rw [hbucket]
  | slidingWindow =>
      have hlog : db.log key = db'.log key := log_congr h
      unfold getStats
      rw [hlog]
  | fixedWindow =>
      have hcounter : db.counters (FixedWindowAlgorithm.key key
          (FixedWindowAlgorithm.windowIndex now windowSeconds)) =
          db'.counters (FixedWindowAlgorithm.key key
            (FixedWindowAlgorithm.windowIndex now windowSeconds)) :=
        counters_congr (h ⟨_, rfl, rfl⟩)
      unfold getStats FixedWindowAlgorithm.getStats
      simp only [hcounter]
  | leakyBucket => rfl

end Reset

/-! ### Calls of the admission layer -/

theorem lookup_setPair_keyName (db : Database) (pair : Pair) (ks : Keyspace) (key : PairKey) :
    (db.setPair pair ks).lookup (keyName pair key) =
      (ks.lookup (keyName pair key)).map .admission := by
  unfold setPair
  dsimp only
  rw [locate_keyName]

theorem lookup_setPair_of_not_mem (db : Database) {pair : Pair} (ks : Keyspace) {name : JsString}
    (h : name ∉ Set.range (keyName pair)) : (db.setPair pair ks).lookup name = db.lookup name := by
  unfold setPair
  dsimp only
  split
  next key hlocate => exact absurd ⟨key, (keyName_of_locate hlocate).symm⟩ h
  next => rfl

/-- What a call leaves under the names of its pair. -/
theorem lookup_serve (ks : Keyspace) (call : PairCall) (key : PairKey) :
    (serve ks call).lookup (keyName call.1 key) =
      (stepAlive (ks.load call.1) call.2).stored key :=
  Keyspace.lookup_store ks call.1 _ key

/-! ### Confinement -/

/-- Every command stays within its names. -/
theorem confined : Confined Database.lookup step answer Command.footprint where
  frame db command name hname := by
    cases command with
    | check origin algorithm key q cost =>
        exact lookup_check_of_not_mem origin key q cost algorithm hname
    | reset now algorithm key windowSeconds =>
        classical
        exact (lookup_reset now key windowSeconds algorithm name).trans (if_neg hname)
    | getStats clock now algorithm key windowSeconds => rfl
    | admission call => exact lookup_setPair_of_not_mem db _ hname
  step_congr db db' command h := by
    cases command with
    | check origin algorithm key q cost => exact (check_congr origin key q cost algorithm h).2
    | reset now algorithm key windowSeconds =>
        classical
        intro name hname
        exact (lookup_reset now key windowSeconds algorithm name).trans
          ((if_pos hname).trans ((lookup_reset now key windowSeconds algorithm name).trans
            (if_pos hname)).symm)
    | getStats clock now algorithm key windowSeconds => exact h
    | admission call =>
        rintro _ ⟨key, rfl⟩
        show (db.setPair _ _).lookup _ = (db'.setPair _ _).lookup _
        rw [lookup_setPair_keyName, lookup_setPair_keyName, lookup_serve, lookup_serve,
          load_congr h]
  out_congr db db' command h := by
    cases command with
    | check origin algorithm key q cost =>
        exact congrArg CommandAnswer.checked (check_congr origin key q cost algorithm h).1
    | reset now algorithm key windowSeconds => cases algorithm <;> rfl
    | getStats clock now algorithm key windowSeconds =>
        exact congrArg CommandAnswer.stats (getStats_congr now key windowSeconds clock algorithm h)
    | admission call =>
        show CommandAnswer.admission _ = CommandAnswer.admission _
        unfold Admission.answer
        rw [load_congr h]

end Database

/-! ## Clients -/

/-- What a command is about: a key under an algorithm, or a pair. -/
inductive Client
  | limiter (algorithm : RateLimitAlgorithm) (key : JsString)
  | admission (pair : Pair)
deriving DecidableEq

/-- The names of a client. -/
def Client.names : Client → Set JsString
  | limiter algorithm key => namesOf key Set.univ algorithm
  | admission pair => Set.range (keyName pair)

def Command.client : Command → Client
  | .check _ algorithm key _ _ | .reset _ algorithm key _ | .getStats _ _ algorithm key _ =>
      .limiter algorithm key
  | .admission call => .admission call.1

theorem Command.footprint_subset (command : Command) :
    command.footprint ⊆ command.client.names := by
  cases command with
  | admission call => exact le_rfl
  | _ => exact namesOf_mono _ (Set.subset_univ _) _

/-- Two clients are apart unless they are pairs that overlap across the bar. -/
def Client.Apart : Client → Client → Prop
  | admission a, admission b => ¬ Overlap (unit '|') a b
  | _, _ => True

theorem Client.names_apart {c c' : Client} (hne : c ≠ c') (happart : c.Apart c') :
    ∀ name ∈ c.names, name ∉ c'.names := by
  intro name hname hname'
  cases c with
  | limiter algorithm key =>
      obtain ⟨k, rfl, rfl, rfl, -⟩ := exists_of_mem_namesOf hname
      cases c' with
      | limiter algorithm' key' =>
          obtain ⟨k', hk, rfl, rfl, -⟩ := exists_of_mem_namesOf hname'
          obtain rfl := LimiterKey.name_injective hk
          exact hne rfl
      | admission pair =>
          obtain ⟨key', hkey⟩ := hname'
          exact k.name_ne_keyName pair key' hkey.symm
  | admission pair =>
      obtain ⟨key, rfl⟩ := hname
      cases c' with
      | limiter algorithm' key' =>
          obtain ⟨k', hk, -⟩ := exists_of_mem_namesOf hname'
          exact k'.name_ne_keyName pair key hk
      | admission pair' =>
          obtain ⟨key', hkey⟩ := hname'
          have hpair : pair ≠ pair' := fun h => hne (congrArg Client.admission h)
          exact (keysDisjoint_iff hpair).mpr happart key key' hkey.symm

end RateLimiter.Limiter
