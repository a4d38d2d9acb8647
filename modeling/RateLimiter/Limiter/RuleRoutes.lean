import RateLimiter.Gateway.Credentials
import RateLimiter.Limiter.RulesAsWritten

/-!
# The rule routes

The routes of `/api/v1/rules` with their gate, their validation and their errors, and the
lookups of the rule engine between them, over the statements of the repository and the rules
the engine keeps for a minute.  Each is done before the next one starts.

Bodies have the types of the schemas, so a number is not sent as a string, and their texts are
such as the database stores unchanged: no NUL, which it refuses, and no half of a surrogate
pair, which the driver replaces.
-/

namespace RateLimiter.Limiter

open RateLimiter.Foundations RateLimiter.Javascript RateLimiter.Gateway

/-! ## Errors -/

structure RateLimiterError where
  message : JsString
  statusCode : Nat
  code : JsString

namespace RateLimiterError

def validationError (message : JsString) : RateLimiterError :=
  ⟨message, 400, js "VALIDATION_ERROR"⟩

def conflictError (message : JsString) : RateLimiterError := ⟨message, 409, js "CONFLICT"⟩

def notFoundError (message : JsString) : RateLimiterError := ⟨message, 404, js "NOT_FOUND"⟩

end RateLimiterError

/-- What a route hands to `next`: an error of the service, or any other. -/
inductive RouteError
  | rateLimiterError (error : RateLimiterError)
  | other

/-- `errorHandler`: the message of an error that is not the service's own is not sent. -/
def RouteError.handled {β : Type} : RouteError → Response β
  | .rateLimiterError error => .failure error.statusCode error.code error.message none
  | .other => .failure 500 (js "INTERNAL_SERVER_ERROR") (js "An unexpected error occurred") none

/-! ## Requests -/

inductive RuleRequest
  | create (body : CreateRuleRequest)
  | findById (id : JsString)
  | update (id : JsString) (body : UpdateRuleRequest)
  | delete (id : JsString)
  | setEnabled (id : JsString) (enabled : Bool)
  | invalidateCache

/-- A request to the rule routes.  `reachable` says whether the database answers, `now` is
its `NOW()`, and `randomUUID` is what a create draws. -/
structure RuleCall where
  headers : Headers
  request : RuleRequest
  randomUUID : JsString
  now : Nat
  reachable : Bool

/-- The body of a success: `data` or `message`. -/
inductive RuleBody
  | data (rule : Rule)
  | message (text : JsString)

/-- The rules on the server, and those the engine keeps. -/
structure RuleService where
  table : RuleTable
  cache : RulesCache

/-- A process that has just started. -/
def RuleService.boot (table : RuleTable) : RuleService := ⟨table, .invalidated⟩

/-- Rules before others: `ORDER BY priority DESC, created_at DESC`. -/
def RuleRow.Precedes (row other : RuleRow) : Prop :=
  other.priority < row.priority ∨
    (row.priority = other.priority ∧ other.createdAt ≤ row.createdAt)

instance (row other : RuleRow) : Decidable (row.Precedes other) :=
  inferInstanceAs (Decidable (_ ∨ _))

/-- What is assumed of the database: the query of `findEnabledRulesByPriority` returns the
enabled rows, in order. -/
structure OrderedRules (query : List RuleRow → List RuleRow) : Prop where
  perm : ∀ rows, (query rows).Perm (rows.filter fun row => row.enabled)
  ordered : ∀ rows, (query rows).Pairwise RuleRow.Precedes

/-- The part of a row that the rule engine reads. -/
def RuleRow.rule (row : RuleRow) : RateLimitRule := (mapRowToRule row).toRateLimitRule

namespace RuleRoutes

section Routes

/- `uuid` reads an id as the database does, and fails on a text that is none; `joi` is what
the validator says of a body it refuses. -/
variable (config : AuthConfig) (uuid : JsString → Option JsString)
  (joi : RuleRequest → JsString)

/-- `Rule not found: …`. -/
def notFound (id : JsString) : RouteError :=
  .rateLimiterError (.notFoundError (js "Rule not found: " ++ id))

/-- `isUniqueViolation`: of the names, or of the ids. -/
def taken (name : JsString) : RouteError :=
  .rateLimiterError
    (.conflictError (js "Rule with name '" ++ name ++ js "' already exists"))

/-- `validateRequest` ends a request before its handler. -/
def refused (request : RuleRequest) : RouteError :=
  .rateLimiterError (.validationError (joi request))

/-- A handler ends with what it leaves and sends, or with an error. -/
abbrev Handler := RuleService → Except RouteError (RuleService × Response RuleBody)

/-- `POST /`, for a body whose texts the database can store: then a row is refused only for
a name or an id that is taken. -/
def create (call : RuleCall) (body : CreateRuleRequest) : Handler := fun s =>
  if createRuleSchema body then
    if call.reachable then
      match RuleRepository.create call.randomUUID body call.now s.table with
      | some (table, rule) => .ok (⟨table, .invalidated⟩, .json 201 (.data rule) none)
      | none => .error (taken body.name)
    else .error .other
  else .error (refused joi (.create body))

/-- `GET /:id`. -/
def findById (call : RuleCall) (id : JsString) : Handler := fun s =>
  if call.reachable then
    match uuid id with
    | some key =>
        match RuleRepository.findById key s.table with
        | some rule => .ok (s, .json 200 (.data rule) none)
        | none => .error (notFound id)
    | none => .error .other
  else .error .other

/-- `PUT /:id`. -/
def update (call : RuleCall) (id : JsString) (body : UpdateRuleRequest) : Handler := fun s =>
  if updateRuleSchema body then
    if call.reachable then
      match uuid id with
      | some key =>
          match RuleRepository.update key body call.now s.table with
          | some (table, some rule) => .ok (⟨table, .invalidated⟩, .json 200 (.data rule) none)
          | some (_, none) => .error (notFound id)
          | none => .error (taken (body.name.getD (js "undefined")))
      | none => .error .other
    else .error .other
  else .error (refused joi (.update id body))

/-- `DELETE /:id`. -/
def delete (call : RuleCall) (id : JsString) : Handler := fun s =>
  if call.reachable then
    match uuid id with
    | some key =>
        if rateLimitRules.select (.text key) s.table ≠ [] then
          .ok (⟨RuleRepository.delete key s.table, .invalidated⟩,
            .json 200 (.message (js "Rule deleted: " ++ id)) none)
        else .error (notFound id)
    | none => .error .other
  else .error .other

/-- `POST /:id/enable` and `POST /:id/disable`. -/
def setEnabled (call : RuleCall) (id : JsString) (enabled : Bool) : Handler := fun s =>
  if call.reachable then
    match uuid id with
    | some key =>
        match RuleRepository.setEnabled key enabled call.now s.table with
        | some (table, true) =>
            .ok (⟨table, .invalidated⟩,
              .json 200 (.message
                ((if enabled then js "Rule enabled: " else js "Rule disabled: ") ++ id)) none)
        | some (_, false) => .error (notFound id)
        | none => .error .other
    | none => .error .other
  else .error .other

/-- `POST /cache/invalidate`. -/
def invalidateCache : Handler := fun s =>
  .ok ({ s with cache := .invalidated },
    .json 200 (.message (js "Rule cache invalidated")) none)

/-- The handler of a request, with its validation. -/
def handler (call : RuleCall) : Handler :=
  match call.request with
  | .create body => create joi call body
  | .findById id => findById uuid call id
  | .update id body => update uuid joi call id body
  | .delete id => delete uuid call id
  | .setEnabled id enabled => setEnabled uuid call id enabled
  | .invalidateCache => invalidateCache

/-- What a handler leaves and sends; an error leaves everything as it was. -/
def settle (h : Handler) (s : RuleService) : RuleService × Response RuleBody :=
  match h s with
  | .ok answer => answer
  | .error error => (s, error.handled)

/-- A request, from `requireControlPlaneKey` on. -/
def serve (call : RuleCall) (s : RuleService) : RuleService × Response RuleBody :=
  match requireControlPlaneKey config call.headers with
  | .error response => (s, response)
  | .ok () => settle (handler uuid joi call) s

end Routes

end RuleRoutes

/-! ## Lookups between requests -/

/-- A request to the rule routes, or a lookup of the rule engine at a `Date.now()`. -/
inductive RuleEvent
  | request (call : RuleCall)
  | lookup (clock : Nat) (reachable : Bool) (context : RuleMatchContext)

/-- What is sent, the rule a lookup has found, or what it throws. -/
inductive RuleAnswer
  | sent (response : Response RuleBody)
  | found (rule : Option RateLimitRule)
  | thrown

namespace RuleService

section Events

variable (config : AuthConfig) (uuid : JsString → Option JsString)
  (joi : RuleRequest → JsString) (query : List RuleRow → List RuleRow)
  (regExp : JsString → Option (JsString → Bool))

def findEnabledRulesByPriority (t : RuleTable) : List RateLimitRule :=
  (query t.rows).map RuleRow.rule

/-- `findMatchingRule`, with the rules that are kept or else read. -/
def lookup (clock : Nat) (reachable : Bool) (context : RuleMatchContext) (s : RuleService) :
    RuleService × RuleAnswer :=
  match s.cache.getEnabledRules clock with
  | some rules => (s, .found (findMatchingRule regExp rules context))
  | none =>
      if reachable then
        let rules := findEnabledRulesByPriority query s.table
        ({ s with cache := ⟨rules, clock⟩ }, .found (findMatchingRule regExp rules context))
      else (s, .thrown)

def handle (s : RuleService) : RuleEvent → RuleService × RuleAnswer
  | .request call =>
      let served := RuleRoutes.serve config uuid joi call s
      (served.1, .sent served.2)
  | .lookup clock reachable context => s.lookup query regExp clock reachable context

def step (s : RuleService) (event : RuleEvent) : RuleService :=
  (s.handle config uuid joi query regExp event).1

def answer (s : RuleService) (event : RuleEvent) : RuleAnswer :=
  (s.handle config uuid joi query regExp event).2

end Events

end RuleService

end RateLimiter.Limiter
