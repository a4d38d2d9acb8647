import RateLimiter.Limiter.CheckRoute

/-!
# Outages

`RedisService` and `PostgresService` hand out their client while they take it to be
connected.  Both stop to when the client reports an error, but only the first has an event
that makes it connected again.  Here they stand in front of the check route, which asks them
for their client in the moment it turns to the database or to the script.
-/

namespace RateLimiter.Limiter

open RateLimiter.Redis RateLimiter.Javascript RateLimiter.Foundations RateLimiter.Gateway

/-! ## The two services -/

/-- What a Redis client reports. -/
inductive ClientEvent
  | connect
  | ready
  | error
  | close
  | reconnecting

/-- What a pool reports. -/
inductive PoolEvent
  | connect
  | error

/-- `isConnected` of `RedisService` after an event. -/
def RedisService.heard (isConnected : Bool) : ClientEvent → Bool
  | .connect => true
  | .error | .close => false
  | .ready | .reconnecting => isConnected

/-- `isConnected` of `PostgresService` after an event: its `connect` is logged, no more. -/
def PostgresService.heard (isConnected : Bool) : PoolEvent → Bool
  | .connect => isConnected
  | .error => false

/-- What `getClient` throws, if it does. -/
def RedisService.getClient (isConnected : Bool) : Option Thrown :=
  if isConnected then none else some (.redisConnectionError (js "Redis client not connected"))

/-- What `getPool` throws, if it does. -/
def PostgresService.getPool (isConnected : Bool) : Option Thrown :=
  if isConnected then none else some (.error (js "PostgreSQL pool not initialized"))

/-- The text of what is thrown. -/
def Thrown.message : Thrown → JsString
  | .error message | .redisConnectionError message => message

/-! ## The route behind them -/

/-- The check route and its services.  `refused` holds what a service has thrown at a request
whose handler has yet to see it; `asked` says when each request arrived and what it was, and
`sent` lists the responses. -/
structure Front where
  process : Process
  redis : Bool
  postgres : Bool
  refused : Nat → Option Thrown
  asked : Nat → Option (Nat × CheckCall)
  sent : List (Nat × Response CheckAnswer)

/-- What happens: a service hears of its client, or the check route has its turn. -/
inductive Incident
  | redisHears (e : ClientEvent)
  | poolHears (e : PoolEvent)
  | request (e : Event)

namespace Front

/-- Both services connected and nothing asked. -/
def initial : Front where
  process := .initial
  redis := true
  postgres := true
  refused := fun _ => none
  asked := fun _ => none
  sent := []

variable (c : Setup) (s : Front)

/-- What the service throws that a handler turns to. -/
def refusal : Handler → Option Thrown
  | .querying _ _ => PostgresService.getPool s.postgres
  | .deciding _ _ => RedisService.getClient s.redis

/-- The check route goes through a moment of the request `id`. -/
def goThrough (id : Nat) (e : Event) : Front :=
  let out := s.process.handle c e
  { s with
    process := out.1
    refused := Function.update s.refused id ((out.1.handlers id).bind s.refusal)
    sent := s.sent ++ out.2.toList.map fun response => (id, response) }

/-- One moment of the check route.  A handler whose service has thrown is told so, whatever
the database or the script would have answered. -/
def serve : Event → Front
  | .arrive now call =>
      { s.goThrough c s.process.arrived (.arrive now call) with
        asked := Function.update s.asked s.process.arrived (some (now, call)) }
  | .queried id outcome =>
      match s.process.handlers id with
      | some (.querying _ _) =>
          match s.refused id with
          | some thrown => s.goThrough c id (.queried id (.error thrown.message))
          | none => s.goThrough c id (.queried id outcome)
      | _ => s
  | .decide id now clock =>
      match s.process.handlers id with
      | some (.deciding _ _) =>
          match s.refused id with
          | some thrown => s.goThrough c id (.rejected id thrown)
          | none => s.goThrough c id (.decide id now clock)
      | _ => s
  | .rejected id thrown =>
      match s.process.handlers id with
      | some (.deciding _ _) => s.goThrough c id (.rejected id ((s.refused id).getD thrown))
      | _ => s
  | .ruleWritten => { s with process := s.process.step c .ruleWritten }
  | .elsewhere stores => { s with process := s.process.step c (.elsewhere stores) }

def step : Incident → Front
  | .redisHears e => { s with redis := RedisService.heard s.redis e }
  | .poolHears e => { s with postgres := PostgresService.heard s.postgres e }
  | .request e => s.serve c e

/-! ### What a moment does -/

/-- The end of a request: its response is sent, and nothing of it is kept. -/
def finished (id : Nat) (stores : Stores) (response : Response CheckAnswer) : Front :=
  { s with
    process := { s.process.goOn id none with stores := stores }
    refused := Function.update s.refused id none
    sent := s.sent ++ [(id, response)] }

/-- The rules of a request have been read, and it goes on to the script. -/
def ruled (id startedAt : Nat) (call : CheckCall) (rules : List RateLimitRule) : Front :=
  { s with
    process :=
      { s.process.goOn id (some (.deciding call (c.resolveLimit call rules))) with
        cache := ⟨rules, startedAt⟩ }
    refused := Function.update s.refused id (RedisService.getClient s.redis) }

/-- A request that has arrived. -/
def admitted (now : Nat) (call : CheckCall) : Front :=
  let handler := s.process.start c now call
  { s with
    process :=
      { s.process.goOn s.process.arrived (some handler) with arrived := s.process.arrived + 1 }
    refused := Function.update s.refused s.process.arrived (s.refusal handler)
    asked := Function.update s.asked s.process.arrived (some (now, call)) }

variable {c s}

theorem serve_arrive (now : Nat) (call : CheckCall) :
    s.serve c (.arrive now call) = s.admitted c now call := by
  simp [serve, goThrough, admitted, Process.handle, Process.goOn]

/-- What an answer of the database does to a request that waits for it. -/
theorem serve_queried {id startedAt : Nat} {call : CheckCall}
    (hwaits : s.process.handlers id = some (.querying startedAt call))
    (outcome : Except JsString (List RateLimitRule)) :
    (∃ rules, s.refused id = none ∧
      s.serve c (.queried id outcome) = s.ruled c id startedAt call rules) ∨
    ∃ message, (∀ thrown, s.refused id = some thrown → message = thrown.message) ∧
      s.serve c (.queried id outcome) = s.finished id s.process.stores
        (Process.guarded c call (.error (.error message))) := by
  cases hrefused : s.refused id with
  | some thrown =>
      refine Or.inr ⟨thrown.message, fun other hother => ?_, ?_⟩
      · rw [Option.some.inj hother]
      · simp [serve, goThrough, finished, Process.handle, Process.goOn, hwaits, hrefused]
  | none =>
      cases outcome with
      | ok rules =>
          refine Or.inl ⟨rules, rfl, ?_⟩
          simp [serve, goThrough, ruled, refusal, Process.handle, Process.goOn, hwaits, hrefused]
      | error message =>
          refine Or.inr ⟨message, fun _ hnone => (by cases hnone), ?_⟩
          simp [serve, goThrough, finished, Process.handle, Process.goOn, hwaits, hrefused]

/-- A request that has turned to the script is over once the script or its refusal answers. -/
theorem goThrough_rejected {id : Nat} {call : CheckCall} {effective : EffectiveLimit}
    (hwaits : s.process.handlers id = some (.deciding call effective)) (thrown : Thrown) :
    s.goThrough c id (.rejected id thrown) =
      s.finished id s.process.stores (Process.guarded c call (.error thrown)) := by
  simp [goThrough, finished, Process.handle, Process.goOn, hwaits]

theorem goThrough_decide {id : Nat} {call : CheckCall} {effective : EffectiveLimit}
    (hwaits : s.process.handlers id = some (.deciding call effective)) (now : Nat)
    (clock : Int) :
    ∃ stores response,
      s.goThrough c id (.decide id now clock) = s.finished id stores response := by
  cases hcheck : RateLimiterService.check c.pid clock now call.request.key effective
      s.process.stores with
  | ok out =>
      refine ⟨out.1, Process.guarded c call (respond out.2 effective), ?_⟩
      simp [goThrough, finished, Process.handle, Process.goOn, hwaits, hcheck]
  | error thrown =>
      refine ⟨s.process.stores, Process.guarded c call (.error thrown), ?_⟩
      simp [goThrough, finished, Process.handle, Process.goOn, hwaits, hcheck]

/-- All that a moment of the check route can do: a request arrives, is given its rules or is
over, or the request is of no account to it. -/
theorem serve_cases (c : Setup) (s : Front) (e : Event) :
    (∃ now call, e = .arrive now call ∧ s.serve c e = s.admitted c now call) ∨
    (∃ id startedAt call rules, s.process.handlers id = some (.querying startedAt call) ∧
      s.refused id = none ∧ s.serve c e = s.ruled c id startedAt call rules) ∨
    (∃ id handler stores response, s.process.handlers id = some handler ∧
      (∀ startedAt call thrown, handler = .querying startedAt call →
        s.refused id = some thrown →
          response = Process.guarded c call (.error (.error thrown.message))) ∧
      s.serve c e = s.finished id stores response) ∨
    ∃ cache stores, (cache = s.process.cache ∨ cache = .invalidated) ∧
      s.serve c e = { s with process := { s.process with cache := cache, stores := stores } } := by
  have hidle : ∃ cache stores, (cache = s.process.cache ∨ cache = .invalidated) ∧
      s = { s with process := { s.process with cache := cache, stores := stores } } :=
    ⟨_, _, Or.inl rfl, rfl⟩
  cases e with
  | arrive now call => exact Or.inl ⟨now, call, rfl, serve_arrive now call⟩
  | queried id outcome =>
      cases hwaits : s.process.handlers id with
      | none => exact Or.inr (Or.inr (Or.inr (by simpa [serve, hwaits] using hidle)))
      | some handler =>
          cases handler with
          | deciding call effective =>
              exact Or.inr (Or.inr (Or.inr (by simpa [serve, hwaits] using hidle)))
          | querying startedAt call =>
              rcases serve_queried (c := c) hwaits outcome with
                ⟨rules, hrefused, hnext⟩ | ⟨message, hmessage, hnext⟩
              · exact Or.inr (Or.inl ⟨id, startedAt, call, rules, hwaits, hrefused, hnext⟩)
              · refine Or.inr (Or.inr (Or.inl ⟨id, _, _, _, hwaits, ?_, hnext⟩))
                rintro _ _ thrown ⟨⟩ hrefused
                rw [hmessage thrown hrefused]
  | decide id now clock =>
      cases hwaits : s.process.handlers id with
      | none => exact Or.inr (Or.inr (Or.inr (by simpa [serve, hwaits] using hidle)))
      | some handler =>
          cases handler with
          | querying startedAt call =>
              exact Or.inr (Or.inr (Or.inr (by simpa [serve, hwaits] using hidle)))
          | deciding call effective =>
              have hover : ∃ stores response,
                  s.serve c (.decide id now clock) = s.finished id stores response := by
                cases hrefused : s.refused id with
                | some thrown =>
                    exact ⟨_, _, by simpa [serve, hwaits, hrefused] using
                      goThrough_rejected hwaits thrown⟩
                | none => simpa [serve, hwaits, hrefused] using goThrough_decide hwaits now clock
              obtain ⟨stores, response, hnext⟩ := hover
              exact Or.inr (Or.inr (Or.inl
                ⟨id, _, stores, response, hwaits, fun _ _ _ hother => (by cases hother), hnext⟩))
  | rejected id thrown =>
      cases hwaits : s.process.handlers id with
      | none => exact Or.inr (Or.inr (Or.inr (by simpa [serve, hwaits] using hidle)))
      | some handler =>
          cases handler with
          | querying startedAt call =>
              exact Or.inr (Or.inr (Or.inr (by simpa [serve, hwaits] using hidle)))
          | deciding call effective =>
              refine Or.inr (Or.inr (Or.inl
                ⟨id, _, s.process.stores,
                  Process.guarded c call (.error ((s.refused id).getD thrown)), hwaits,
                  fun _ _ _ hother => (by cases hother), ?_⟩))
              simpa [serve, hwaits] using
                goThrough_rejected hwaits ((s.refused id).getD thrown)
  | ruleWritten => exact Or.inr (Or.inr (Or.inr ⟨_, _, Or.inr rfl, rfl⟩))
  | elsewhere stores => exact Or.inr (Or.inr (Or.inr ⟨_, _, Or.inl rfl, rfl⟩))

/-! ## A pool that is lost -/

/-- What `getPool` throws. -/
def poolLost : Thrown := .error (js "PostgreSQL pool not initialized")

/-- The answer to an error of the service itself. -/
def unexpected : Response CheckAnswer :=
  .failure 500 (js "INTERNAL_SERVER_ERROR") (js "An unexpected error occurred") none

/-- The rules in the cache, and those under way, were asked for by `T`; requests that have not
arrived have left no trace. -/
structure RulesFrom (T : Nat) (s : Front) : Prop where
  cache : s.process.cache.lastUpdated ≤ T
  queries : ∀ id startedAt call, s.process.handlers id = some (.querying startedAt call) →
    startedAt ≤ T ∨ s.refused id = some poolLost
  handlers : ∀ id, s.process.arrived ≤ id → s.process.handlers id = none
  asked : ∀ id, s.process.arrived ≤ id → s.asked id = none
  sent : ∀ id response, (id, response) ∈ s.sent → id < s.process.arrived

/-- A request of after the last rules that leaves its limit to them waits for its refusal, or
has had the one answer there is. -/
def Refused (T : Nat) (s : Front) : Prop :=
  ∀ id now call, s.asked id = some (now, call) → call.overrides.stated = none →
    T + RulesCache.ttl ≤ now →
    (s.process.handlers id = none ∧ (id, unexpected) ∈ s.sent ∨
      s.process.handlers id = some (.querying now call) ∧ s.refused id = some poolLost) ∧
    ∀ response, (id, response) ∈ s.sent → response = unexpected

theorem rulesFrom_initial (T : Nat) : RulesFrom T initial where
  cache := Nat.zero_le T
  queries := fun _ _ _ hnone => by cases hnone
  handlers := fun _ _ => rfl
  asked := fun _ _ => rfl
  sent := fun _ _ hnone => absurd hnone List.not_mem_nil

/-- A lost pool is no lost connection to the classifier. -/
theorem guarded_poolLost (c : Setup) (call : CheckCall) :
    Process.guarded c call (.error (.error poolLost.message)) = unexpected := by
  have hread : isStateUnavailable (.error poolLost.message) = false := by decide +kernel
  simp [Process.guarded, guardState, hread, errorHandler, unexpected]

section Keeps

variable {T : Nat}

theorem RulesFrom.heard (h : RulesFrom T s) (redis postgres : Bool) :
    RulesFrom T { s with redis := redis, postgres := postgres } :=
  ⟨h.cache, h.queries, h.handlers, h.asked, h.sent⟩

/-- A request that finds the pool in order is in time, or one that finds it lost is refused. -/
theorem RulesFrom.admitted (h : RulesFrom T s) {now : Nat} (call : CheckCall)
    (hpool : s.postgres = false ∨ now ≤ T) : RulesFrom T (s.admitted c now call) where
  cache := h.cache
  queries := by
    intro id startedAt other hwaits
    by_cases hid : id = s.process.arrived
    · subst hid
      simp only [Front.admitted, Process.goOn, Function.update_self, Option.some.injEq]
        at hwaits ⊢
      have hnow : startedAt = now := by
        unfold Process.start at hwaits
        split at hwaits
        · cases hwaits
        · split at hwaits
          · cases hwaits
          · exact (Handler.querying.inj hwaits).1.symm
      rcases hpool with hlost | hearly
      · right
        simp [hwaits, refusal, PostgresService.getPool, hlost, poolLost]
      · exact Or.inl (hnow ▸ hearly)
    · simp only [Front.admitted, Process.goOn, Function.update_of_ne hid] at hwaits ⊢
      exact h.queries id startedAt other hwaits
  handlers := by
    intro id hid
    have hne : id ≠ s.process.arrived := Nat.ne_of_gt hid
    simp only [Front.admitted, Process.goOn, Function.update_of_ne hne]
    exact h.handlers id (Nat.le_of_succ_le hid)
  asked := by
    intro id hid
    have hne : id ≠ s.process.arrived := Nat.ne_of_gt hid
    simp only [Front.admitted, Function.update_of_ne hne]
    exact h.asked id (Nat.le_of_succ_le hid)
  sent := fun id response hsent => Nat.lt_succ_of_lt (h.sent id response hsent)

theorem RulesFrom.ruled (h : RulesFrom T s) {id startedAt : Nat} {call : CheckCall}
    (hwaits : s.process.handlers id = some (.querying startedAt call))
    (hrefused : s.refused id = none) (rules : List RateLimitRule) :
    RulesFrom T (s.ruled c id startedAt call rules) where
  cache := by
    rcases h.queries id startedAt call hwaits with hearly | hlost
    · exact hearly
    · rw [hrefused] at hlost
      cases hlost
  queries := by
    intro other startedAt' call' hother
    by_cases hid : other = id
    · subst hid
      simp only [Front.ruled, Process.goOn, Function.update_self] at hother
      cases hother
    · simp only [Front.ruled, Process.goOn, Function.update_of_ne hid] at hother ⊢
      exact h.queries other startedAt' call' hother
  handlers := by
    intro other hother
    have hne : other ≠ id := by
      rintro rfl
      rw [h.handlers other hother] at hwaits
      cases hwaits
    simp only [Front.ruled, Process.goOn, Function.update_of_ne hne]
    exact h.handlers other hother
  asked := h.asked
  sent := h.sent

theorem RulesFrom.finished (h : RulesFrom T s) {id : Nat} {handler : Handler}
    (hwaits : s.process.handlers id = some handler) (stores : Stores)
    (response : Response CheckAnswer) : RulesFrom T (s.finished id stores response) where
  cache := h.cache
  queries := by
    intro other startedAt call hother
    by_cases hid : other = id
    · subst hid
      simp only [Front.finished, Process.goOn, Function.update_self] at hother
      cases hother
    · simp only [Front.finished, Process.goOn, Function.update_of_ne hid] at hother ⊢
      exact h.queries other startedAt call hother
  handlers := by
    intro other hother
    by_cases hid : other = id
    · simp only [Front.finished, Process.goOn, hid, Function.update_self]
    · simp only [Front.finished, Process.goOn, Function.update_of_ne hid]
      exact h.handlers other hother
  asked := h.asked
  sent := by
    intro other response' hsent
    rcases List.mem_append.mp hsent with hold | hnew
    · exact h.sent other response' hold
    · obtain ⟨rfl, rfl⟩ := Prod.mk.inj (List.mem_singleton.mp hnew)
      by_contra hlate
      rw [h.handlers other (Nat.le_of_not_lt hlate)] at hwaits
      cases hwaits

theorem RulesFrom.serve (h : RulesFrom T s) {e : Event}
    (hpool : s.postgres = false ∨ ∀ now call, e = .arrive now call → now ≤ T) :
    RulesFrom T (s.serve c e) := by
  rcases serve_cases c s e with ⟨now, call, rfl, hnext⟩ |
    ⟨id, startedAt, call, rules, hwaits, hrefused, hnext⟩ |
    ⟨id, handler, stores, response, hwaits, -, hnext⟩ | ⟨cache, stores, hcache, hnext⟩
  · rw [hnext]
    exact h.admitted call (hpool.imp_right fun hearly => hearly now call rfl)
  · rw [hnext]
    exact h.ruled hwaits hrefused rules
  · rw [hnext]
    exact h.finished hwaits stores response
  · rw [hnext]
    refine ⟨?_, h.queries, h.handlers, h.asked, h.sent⟩
    rcases hcache with rfl | rfl
    · exact h.cache
    · exact Nat.zero_le T

/-- The rules in the cache are too old for a late request, and the pool is gone. -/
theorem Refused.admitted (h : Refused T s) (hrules : RulesFrom T s) (hpool : s.postgres = false)
    (now : Nat) (call : CheckCall) : Refused T (s.admitted c now call) := by
  intro id now' call' hasked hstated hlate
  by_cases hid : id = s.process.arrived
  · subst hid
    simp only [Front.admitted, Function.update_self, Option.some.injEq, Prod.mk.injEq]
      at hasked
    obtain ⟨rfl, rfl⟩ := hasked
    have hcache : s.process.cache.getEnabledRules now = none := by
      rw [Option.eq_none_iff_forall_ne_some]
      intro rules hfound
      have hage := (RulesCache.getEnabledRules_eq_some_iff.mp hfound).2.2
      have hcached := hrules.cache
      omega
    have hstart : s.process.start c now call = .querying now call := by
      simp [Process.start, hstated, hcache]
    refine ⟨Or.inr ⟨?_, ?_⟩, fun response hsent => ?_⟩
    · simp [Front.admitted, Process.goOn, hstart]
    · simp [Front.admitted, hstart, refusal, PostgresService.getPool, hpool, poolLost]
    · exact absurd (hrules.sent _ response hsent) (Nat.lt_irrefl _)
  · simp only [Front.admitted, Process.goOn, Function.update_of_ne hid] at hasked ⊢
    exact h id now' call' hasked hstated hlate

/-- A request that is given its rules is not a late one. -/
theorem Refused.ruled (h : Refused T s) {id startedAt : Nat} {call : CheckCall}
    (hwaits : s.process.handlers id = some (.querying startedAt call))
    (hrefused : s.refused id = none) (rules : List RateLimitRule) :
    Refused T (s.ruled c id startedAt call rules) := by
  intro other now call' hasked hstated hlate
  obtain ⟨hhandler, hsent⟩ := h other now call' hasked hstated hlate
  by_cases hid : other = id
  · subst hid
    rcases hhandler with ⟨hover, -⟩ | ⟨-, hlost⟩
    · rw [hover] at hwaits
      cases hwaits
    · rw [hrefused] at hlost
      cases hlost
  · simp only [Front.ruled, Process.goOn, Function.update_of_ne hid]
    exact ⟨hhandler, hsent⟩

/-- A late request ends with what its refusal is answered. -/
theorem Refused.finished (h : Refused T s) {id : Nat} {handler : Handler} {stores : Stores}
    {response : Response CheckAnswer} (hwaits : s.process.handlers id = some handler)
    (hresponse : ∀ startedAt call thrown, handler = .querying startedAt call →
      s.refused id = some thrown →
        response = Process.guarded c call (.error (.error thrown.message))) :
    Refused T (s.finished id stores response) := by
  intro other now call hasked hstated hlate
  obtain ⟨hhandler, hsent⟩ := h other now call hasked hstated hlate
  by_cases hid : other = id
  · subst hid
    rcases hhandler with ⟨hover, -⟩ | ⟨hqueries, hlost⟩
    · rw [hover] at hwaits
      cases hwaits
    · have hsame : handler = .querying now call := Option.some.inj (hwaits.symm.trans hqueries)
      have hanswer : response = unexpected := by
        rw [hresponse now call poolLost hsame hlost, guarded_poolLost]
      refine ⟨Or.inl ⟨by simp [Front.finished, Process.goOn], ?_⟩, fun response' hsent' => ?_⟩
      · rw [← hanswer]
        exact List.mem_append_right _ List.mem_cons_self
      · rcases List.mem_append.mp hsent' with hold | hnew
        · exact hsent response' hold
        · rw [(Prod.mk.inj (List.mem_singleton.mp hnew)).2, hanswer]
  · simp only [Front.finished, Process.goOn, Function.update_of_ne hid]
    refine ⟨hhandler.imp_left fun hover => ⟨hover.1, List.mem_append_left _ hover.2⟩,
      fun response' hsent' => ?_⟩
    rcases List.mem_append.mp hsent' with hold | hnew
    · exact hsent response' hold
    · exact absurd (Prod.mk.inj (List.mem_singleton.mp hnew)).1 hid

theorem Refused.serve (h : Refused T s) (hrules : RulesFrom T s) (hpool : s.postgres = false)
    (e : Event) : Refused T (s.serve c e) := by
  rcases serve_cases c s e with ⟨now, call, rfl, hnext⟩ |
    ⟨id, startedAt, call, rules, hwaits, hrefused, hnext⟩ |
    ⟨id, handler, stores, response, hwaits, hresponse, hnext⟩ | ⟨cache, stores, -, hnext⟩
  · rw [hnext]
    exact h.admitted hrules hpool now call
  · rw [hnext]
    exact h.ruled hwaits hrefused rules
  · rw [hnext]
    exact h.finished hwaits hresponse
  · rw [hnext]
    exact h

/-- No request has arrived after `T`. -/
def Early (T : Nat) (s : Front) : Prop :=
  ∀ id now call, s.asked id = some (now, call) → now ≤ T

theorem Early.serve (h : Early T s) {e : Event}
    (hearly : ∀ now call, e = .arrive now call → now ≤ T) : Early T (s.serve c e) := by
  rcases serve_cases c s e with ⟨now, call, rfl, hnext⟩ |
    ⟨id, startedAt, call, rules, -, -, hnext⟩ | ⟨id, handler, stores, response, -, -, hnext⟩ |
    ⟨cache, stores, -, hnext⟩
  · rw [hnext]
    intro id now' call' hasked
    by_cases hid : id = s.process.arrived
    · subst hid
      simp only [Front.admitted, Function.update_self, Option.some.injEq, Prod.mk.injEq]
        at hasked
      exact hasked.1 ▸ hearly now call rfl
    · simp only [Front.admitted, Function.update_of_ne hid] at hasked
      exact h id now' call' hasked
  · rw [hnext]
    exact h
  · rw [hnext]
    exact h
  · rw [hnext]
    exact h

/-- Up to the error of the pool. -/
theorem run_before (incidents : List Incident)
    (hearly : ∀ now call, .request (.arrive now call) ∈ incidents → now ≤ T) :
    RulesFrom T (run (step c) initial incidents) ∧ Early T (run (step c) initial incidents) := by
  refine run_invariant_along (I := fun s => RulesFrom T s ∧ Early T s)
    (P := fun _ i => ∀ now call, i = .request (.arrive now call) → now ≤ T)
    ?_ ⟨rulesFrom_initial T, ?_⟩ (along_of_forall (step c) (fun i hi => ?_) _)
  · rintro s i ⟨hrules, hasked⟩ hi
    cases i with
    | redisHears e => exact ⟨hrules.heard _ _, hasked⟩
    | poolHears e => exact ⟨hrules.heard _ _, hasked⟩
    | request e =>
        have he : ∀ now call, e = .arrive now call → now ≤ T :=
          fun now call harrive => hi now call (congrArg Incident.request harrive)
        exact ⟨hrules.serve (Or.inr he), hasked.serve he⟩
  · intro id now call hnone
    cases hnone
  · rintro now call rfl
    exact hearly now call hi

/-- From the error of the pool on. -/
theorem run_after (hrules : RulesFrom T s) (hrefused : Refused T s) (hpool : s.postgres = false)
    (incidents : List Incident) : Refused T (run (step c) s incidents) := by
  refine (run_invariant (I := fun s => (RulesFrom T s ∧ Refused T s) ∧ s.postgres = false) (step c)
    ?_ ⟨⟨hrules, hrefused⟩, hpool⟩ incidents).1.2
  rintro s i ⟨⟨hrules, hrefused⟩, hpool⟩
  cases i with
  | redisHears e => exact ⟨⟨hrules.heard _ _, hrefused⟩, hpool⟩
  | poolHears e =>
      refine ⟨⟨hrules.heard _ _, hrefused⟩, ?_⟩
      cases e with
      | connect => exact hpool
      | error => rfl
  | request e =>
      refine ⟨⟨hrules.serve (Or.inl hpool), hrefused.serve hrules hpool e⟩, ?_⟩
      rcases serve_cases c s e with ⟨now, call, -, hnext⟩ |
        ⟨id, startedAt, call, rules, -, -, hnext⟩ |
        ⟨id, handler, stores, response, -, -, hnext⟩ | ⟨cache, stores, -, hnext⟩
      all_goals exact (congrArg Front.postgres hnext).trans hpool

end Keeps

/-- **A pool is lost for good.**  Whatever the clients and the database do after the pool has
reported an error, and whatever is cached when it does: a request without a limit of its own
that arrives once the last rules are a minute old is answered with an unexpected error when its
handler is over, and with nothing else, on a surface that fails open too; and it never reaches
the script. -/
theorem pool_lost_for_good (c : Setup) (T : Nat) (before after : List Incident)
    (hbefore : ∀ now call, .request (.arrive now call) ∈ before → now ≤ T) :
    let s := run (step c) initial (before ++ .poolHears .error :: after)
    ∀ id now call, s.asked id = some (now, call) → call.overrides.stated = none →
      T + RulesCache.ttl ≤ now →
      (s.process.handlers id = none → (id, unexpected) ∈ s.sent) ∧
        (∀ response, (id, response) ∈ s.sent → response = unexpected) ∧
        ∀ effective, s.process.handlers id ≠ some (.deciding call effective) := by
  intro s id now call hasked hstated hlate
  obtain ⟨hrules, hearly⟩ := run_before (c := c) before hbefore
  -- none of the requests so far is late
  have hrefused : Refused T ((run (step c) initial before).step c (.poolHears .error)) := by
    intro id now call hasked _ hlate
    have hnow := hearly id now call hasked
    unfold RulesCache.ttl at hlate
    omega
  have hkept : Refused T s := by
    show Refused T (run (step c) initial (before ++ .poolHears .error :: after))
    rw [run_append, run_cons]
    exact run_after (hrules.heard _ false) hrefused rfl after
  obtain ⟨hhandler, hsent⟩ := hkept id now call hasked hstated hlate
  refine ⟨fun hover => ?_, hsent, fun effective hdeciding => ?_⟩
  · rcases hhandler with ⟨-, hanswered⟩ | ⟨hqueries, -⟩
    · exact hanswered
    · rw [hover] at hqueries
      cases hqueries
  · rcases hhandler with ⟨hnone, -⟩ | ⟨hqueries, -⟩
    · rw [hnone] at hdeciding
      cases hdeciding
    · rw [hqueries] at hdeciding
      cases hdeciding

/-- The rules of a request are on their way when the pool reports its error.  They arrive, the
pool connects again, and a minute later a request is refused. -/
theorem pool_lost_for_good_reconnected :
    let s := run (step Process.shipped) initial
      ([.request (.arrive 70000 Process.plainCall)] ++ .poolHears .error ::
        [.request (.queried 0 (.ok [])), .poolHears .connect, .request (.decide 0 70010 70010),
          .request (.arrive 130000 Process.plainCall), .request (.queried 1 (.ok []))])
    s.asked 1 = some (130000, Process.plainCall) ∧ (1, unexpected) ∈ s.sent ∧
      ∀ response, (1, response) ∈ s.sent → response = unexpected := by
  have hrefused := pool_lost_for_good Process.shipped 70000
    [.request (.arrive 70000 Process.plainCall)]
    [.request (.queried 0 (.ok [])), .poolHears .connect, .request (.decide 0 70010 70010),
      .request (.arrive 130000 Process.plainCall), .request (.queried 1 (.ok []))] ?_
    1 130000 Process.plainCall rfl rfl (by decide)
  · exact ⟨rfl, hrefused.1 rfl, hrefused.2.1⟩
  · intro now call harrive
    obtain ⟨rfl, -⟩ := Event.arrive.inj (Incident.request.inj (List.mem_singleton.mp harrive))
    exact le_rfl

end Front

end RateLimiter.Limiter
