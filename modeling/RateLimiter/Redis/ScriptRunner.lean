import Mathlib.Data.Set.Function
import RateLimiter.Foundations.Atomic
import RateLimiter.Javascript.Numerals

/-!
# Running scripts

A script is sent by the digest of its body, and in full only when the server says that it
does not have it.  Between the two commands of one run other clients run their scripts, and
a server may lose its cache at any time.  `sha1` and what the execution of a body does are
not part of the repository; the runs here are those of whatever bodies it tells apart.
-/

namespace RateLimiter.Redis

open RateLimiter.Foundations RateLimiter.Javascript

/-! ## Servers -/

section Servers

variable {σ ω Node Digest : Type} [DecidableEq Node] [DecidableEq Digest]

/-- The data of all servers, and the scripts each of them has cached. -/
structure Servers (σ Node Digest : Type) where
  data : σ
  cached : Node → Digest → Option JsString

/-- What executing a body with keys and arguments does to the data, and its reply. -/
abbrev ScriptExecution (σ ω : Type) :=
  JsString → List JsString → List JsString → σ → σ × Except JsString ω

variable (sha1 : JsString → Digest) (execute : ScriptExecution σ ω)

namespace Servers

/-- `SCRIPT LOAD`, on one node. -/
def scriptLoad (servers : Servers σ Node Digest) (node : Node) (body : JsString) :
    Servers σ Node Digest :=
  { servers with
    cached := Function.update servers.cached node
      (Function.update (servers.cached node) (sha1 body) (some body)) }

/-- `EVALSHA`. -/
def evalsha (servers : Servers σ Node Digest) (node : Node) (sha : Digest)
    (keys args : List JsString) : Servers σ Node Digest × Except JsString ω :=
  match servers.cached node sha with
  | some body =>
      let out := execute body keys args servers.data
      ({ servers with data := out.1 }, out.2)
  | none => (servers, .error (js "NOSCRIPT No matching script. Please use EVAL."))

/-- `EVAL`, which caches the body as well. -/
def eval (servers : Servers σ Node Digest) (node : Node) (body : JsString)
    (keys args : List JsString) : Servers σ Node Digest × Except JsString ω :=
  let out := execute body keys args servers.data
  ({ servers.scriptLoad sha1 node body with data := out.1 }, out.2)

/-- `SCRIPT FLUSH` on a node, or its restart. -/
def flush (servers : Servers σ Node Digest) (node : Node) : Servers σ Node Digest :=
  { servers with cached := Function.update servers.cached node fun _ => none }

end Servers

end Servers

/-! ## The runner -/

structure RedisScript where
  body : JsString
  numKeys : Nat
  name : JsString

/-- A script with the keys and the arguments it is run on. -/
structure Invocation where
  script : RedisScript
  keys : List JsString
  args : List JsString

def isNoScriptError (message : JsString) : Bool := js "NOSCRIPT" <:+: message

/-- Where a `run` stands: which command it waits for, or what it has come to. -/
inductive RunPhase (ω : Type)
  | evalsha (invocation : Invocation)
  | eval (invocation : Invocation)
  | done (invocation : Invocation) (reply : Except JsString ω)
  | refused (message : JsString)

/-- The servers, the calls of `run` and the latencies that were recorded, by the names of the
scripts. -/
structure Runner (σ ω Node Digest κ : Type) where
  servers : Servers σ Node Digest
  calls : κ → Option (RunPhase ω)
  latencies : List JsString

/-- What happens: a call of `run`, the execution of the command a call waits for, `load`,
and the loss of a cache. -/
inductive RunnerEvent (Node κ : Type)
  | run (call : κ) (invocation : Invocation)
  | deliver (call : κ)
  | load (script : RedisScript) (masters : List Node)
  | flush (node : Node)

namespace Runner

variable {σ ω Node Digest κ : Type} [DecidableEq Node] [DecidableEq Digest] [DecidableEq κ]
  (sha1 : JsString → Digest) (route : List JsString → Node) (execute : ScriptExecution σ ω)

/-- The first lines of `run`. -/
def start (invocation : Invocation) : RunPhase ω :=
  if invocation.keys.length ≠ invocation.script.numKeys then
    .refused (invocation.script.name ++ js ": expected " ++ natText invocation.script.numKeys ++
      js " keys, received " ++ natText invocation.keys.length)
  else .evalsha invocation

/-- A call goes on to another phase. -/
def withPhase (r : Runner σ ω Node Digest κ) (call : κ) (phase : RunPhase ω) :
    Runner σ ω Node Digest κ :=
  { r with calls := Function.update r.calls call (some phase) }

/-- A call comes to an end, and `finally` records how long it took. -/
def settle (r : Runner σ ω Node Digest κ) (servers : Servers σ Node Digest) (call : κ)
    (invocation : Invocation) (reply : Except JsString ω) : Runner σ ω Node Digest κ :=
  { r.withPhase call (.done invocation reply) with
    servers := servers
    latencies := r.latencies ++ [invocation.script.name] }

/-- The command that a call waits for is executed: the two steps of `evalWithReload`. -/
def deliver (r : Runner σ ω Node Digest κ) (call : κ) : Runner σ ω Node Digest κ :=
  match r.calls call with
  | some (.evalsha invocation) =>
      let out := r.servers.evalsha execute (route invocation.keys) (sha1 invocation.script.body)
        invocation.keys invocation.args
      match out.2 with
      | .ok value => r.settle out.1 call invocation (.ok value)
      | .error message =>
          if isNoScriptError message then
            { r.withPhase call (.eval invocation) with servers := out.1 }
          else r.settle out.1 call invocation (.error message)
  | some (.eval invocation) =>
      let out := r.servers.eval sha1 execute (route invocation.keys) invocation.script.body
        invocation.keys invocation.args
      r.settle out.1 call invocation out.2
  | _ => r

def step (r : Runner σ ω Node Digest κ) : RunnerEvent Node κ → Runner σ ω Node Digest κ
  | .run call invocation =>
      match r.calls call with
      | none => r.withPhase call (start invocation)
      | some _ => r
  | .deliver call => r.deliver sha1 route execute call
  | .load script masters =>
      { r with
        servers := masters.foldl (fun servers node => servers.scriptLoad sha1 node script.body)
          r.servers }
  | .flush node => { r with servers := r.servers.flush node }

/-- Nothing has been run, and no script is cached. -/
def boot (data : σ) : Runner σ ω Node Digest κ := ⟨⟨data, fun _ _ => none⟩, fun _ => none, []⟩

end Runner

/-! ## What is cached -/

namespace Servers

variable {σ ω Node Digest : Type} [DecidableEq Node] [DecidableEq Digest]
  {sha1 : JsString → Digest} {bodies : Set JsString} {servers : Servers σ Node Digest}

/-- What is cached under a digest is a body in use that has it. -/
def Sound (sha1 : JsString → Digest) (bodies : Set JsString) (servers : Servers σ Node Digest) :
    Prop :=
  ∀ node sha body, servers.cached node sha = some body → body ∈ bodies ∧ sha1 body = sha

theorem cached_scriptLoad (node node' : Node) (sha : Digest) (body : JsString) :
    (servers.scriptLoad sha1 node body).cached node' sha =
      if node' = node ∧ sha = sha1 body then some body else servers.cached node' sha := by
  unfold scriptLoad
  by_cases hnode : node' = node
  · subst hnode
    by_cases hsha : sha = sha1 body
    · simp [hsha]
    · simp [hsha]
  · simp [hnode]

theorem Sound.scriptLoad (h : servers.Sound sha1 bodies) {body : JsString} (hbody : body ∈ bodies)
    (node : Node) : (servers.scriptLoad sha1 node body).Sound sha1 bodies := by
  intro node' sha body' hcached
  rw [cached_scriptLoad] at hcached
  split at hcached
  next hhere =>
    cases hcached
    exact ⟨hbody, hhere.2.symm⟩
  next => exact h node' sha body' hcached

omit [DecidableEq Digest] in
theorem Sound.flush (h : servers.Sound sha1 bodies) (node : Node) :
    (servers.flush node).Sound sha1 bodies := by
  intro node' sha body hcached
  have hcached : Function.update servers.cached node (fun _ => none) node' sha = some body :=
    hcached
  by_cases hnode : node' = node
  · subst hnode
    simp at hcached
  · rw [Function.update_of_ne hnode] at hcached
    exact h node' sha body hcached

/-- Loading a body on some nodes changes no data, loses nothing and caches it there. -/
theorem foldl_scriptLoad (body : JsString) (masters : List Node) :
    (masters.foldl (fun servers node => servers.scriptLoad sha1 node body) servers).data =
        servers.data ∧
      ∀ node sha, (masters.foldl (fun servers node => servers.scriptLoad sha1 node body)
          servers).cached node sha =
        if node ∈ masters ∧ sha = sha1 body then some body else servers.cached node sha := by
  induction masters generalizing servers with
  | nil => exact ⟨rfl, fun node sha => by simp⟩
  | cons master masters ih =>
      obtain ⟨hdata, hcached⟩ := @ih (servers.scriptLoad sha1 master body)
      refine ⟨hdata, fun node sha => ?_⟩
      rw [List.foldl_cons, hcached, cached_scriptLoad]
      by_cases hsha : sha = sha1 body <;> by_cases hhead : node = master <;> simp [hsha, hhead]

theorem Sound.load (h : servers.Sound sha1 bodies) {body : JsString} (hbody : body ∈ bodies)
    (masters : List Node) :
    (masters.foldl (fun servers node => servers.scriptLoad sha1 node body) servers).Sound sha1
      bodies := by
  intro node sha body' hcached
  rw [(foldl_scriptLoad body masters).2] at hcached
  split at hcached
  next hhere =>
    cases hcached
    exact ⟨hbody, hhere.2.symm⟩
  next => exact h node sha body' hcached

omit [DecidableEq Node] [DecidableEq Digest] in
/-- Where the digests tell the bodies in use apart, a body is found under its own. -/
theorem Sound.cached_self (h : servers.Sound sha1 bodies) (hsha1 : Set.InjOn sha1 bodies)
    {body found : JsString} (hbody : body ∈ bodies) {node : Node}
    (hcached : servers.cached node (sha1 body) = some found) : found = body := by
  obtain ⟨hfound, hdigest⟩ := h node (sha1 body) found hcached
  exact hsha1 hfound hbody hdigest

end Servers

/-! ## Every run takes effect once -/

/-- What a call of `run` is for those who cannot see which commands it takes. -/
def RunPhase.status {ω : Type} : RunPhase ω → Option (CallStatus Invocation (Except JsString ω))
  | evalsha invocation | eval invocation => some (.pending invocation)
  | done invocation reply => some (.settled invocation reply)
  | refused _ => none

/-- The operation that a call of `run` stands for. -/
def Invocation.perform {σ ω : Type} (execute : ScriptExecution σ ω) (data : σ)
    (invocation : Invocation) : σ × Except JsString ω :=
  execute invocation.script.body invocation.keys invocation.args data

/-- The event takes no script from a cache. -/
def RunnerEvent.Keeps {Node κ : Type} : RunnerEvent Node κ → Prop
  | .flush _ => False
  | _ => True

/-- No script in use ends in an error that speaks of a missing script. -/
def Clean {σ ω : Type} (execute : ScriptExecution σ ω) (bodies : Set JsString) : Prop :=
  ∀ body ∈ bodies, ∀ keys args data message,
    (execute body keys args data).2 = .error message → isNoScriptError message = false

/-- The event sends no body but those in use. -/
def RunnerEvent.Uses {Node κ : Type} (bodies : Set JsString) : RunnerEvent Node κ → Prop
  | .run _ invocation => invocation.script.body ∈ bodies
  | .load script _ => script.body ∈ bodies
  | _ => True

namespace Runner

variable {σ ω Node Digest κ : Type} [DecidableEq Node] [DecidableEq Digest] [DecidableEq κ]
  {sha1 : JsString → Digest} {route : List JsString → Node} {execute : ScriptExecution σ ω}
  {bodies : Set JsString}

/-- The object with its log traces the runner. -/
structure Traces (sha1 : JsString → Digest) (bodies : Set JsString)
    (r : Runner σ ω Node Digest κ) (a : Atomic σ Invocation (Except JsString ω) κ) : Prop where
  object : a.object = r.servers.data
  status : ∀ call, a.status call = (r.calls call).bind RunPhase.status
  latencies : r.latencies = a.log.map fun entry => entry.2.script.name
  sound : r.servers.Sound sha1 bodies
  bodies : ∀ call invocation, (r.calls call).bind RunPhase.status = some (.pending invocation) →
    invocation.script.body ∈ bodies

variable {r : Runner σ ω Node Digest κ} {a : Atomic σ Invocation (Except JsString ω) κ}
  {call : κ} {invocation : Invocation}

omit [DecidableEq Node] [DecidableEq Digest] in
theorem status_withPhase (call call' : κ) (phase : RunPhase ω) :
    ((r.withPhase call phase).calls call').bind RunPhase.status =
      if call' = call then phase.status else (r.calls call').bind RunPhase.status := by
  unfold withPhase
  by_cases hself : call' = call
  · rw [if_pos hself, hself]
    simp
  · rw [if_neg hself]
    simp [Function.update_of_ne hself]

omit [DecidableEq Node] [DecidableEq Digest] in
/-- A call that goes on to a phase which waits for bodies in use only. -/
theorem Traces.bodies_withPhase (h : Traces sha1 bodies r a) {phase : RunPhase ω}
    (hphase : ∀ invocation, phase.status = some (.pending invocation) →
      invocation.script.body ∈ bodies) (call' : κ) (invocation : Invocation)
    (hopen : ((r.withPhase call phase).calls call').bind RunPhase.status =
      some (.pending invocation)) : invocation.script.body ∈ bodies := by
  rw [status_withPhase] at hopen
  split at hopen
  next => exact hphase invocation hopen
  next => exact h.bodies call' invocation hopen

omit [DecidableEq Node] [DecidableEq Digest] in
/-- A call that goes on without its status being changed. -/
theorem Traces.withPhase (h : Traces sha1 bodies r a) {phase : RunPhase ω}
    (hphase : phase.status = (r.calls call).bind RunPhase.status) :
    Traces sha1 bodies (r.withPhase call phase) a := by
  refine ⟨h.object, fun call' => ?_, h.latencies, h.sound, h.bodies_withPhase fun invocation' => ?_⟩
  · rw [status_withPhase, h.status]
    split
    next hself => rw [hself, hphase]
    next => rfl
  · rw [hphase]
    exact h.bodies call invocation'

omit [DecidableEq Node] [DecidableEq Digest] in
/-- An execution that ends a call is the operation of the call. -/
theorem Traces.settle (execute : ScriptExecution σ ω) (h : Traces sha1 bodies r a)
    {phase : RunPhase ω}
    (hcall : r.calls call = some phase) (hphase : phase.status = some (.pending invocation))
    (servers : Servers σ Node Digest)
    (hdata : servers.data = (invocation.perform execute r.servers.data).1)
    (hsound : servers.Sound sha1 bodies) :
    Traces sha1 bodies
      (r.settle servers call invocation (invocation.perform execute r.servers.data).2)
      (a.step (fun data invocation => invocation.perform execute data) (.perform call)) := by
  have hpending : a.status call = some (.pending invocation) := by
    rw [h.status, hcall]
    exact hphase
  rw [Atomic.step_perform _ hpending]
  refine ⟨?_, fun call' => ?_, ?_, hsound,
    h.bodies_withPhase fun invocation' hopen => by cases hopen⟩
  · rw [← h.object] at hdata
    exact hdata.symm
  · refine Eq.trans ?_ (status_withPhase call call' _).symm
    show Function.update a.status call _ call' = _
    split
    next hself =>
      rw [hself, Function.update_self, h.object]
      rfl
    next hself => rw [Function.update_of_ne hself, h.status]
  · show r.latencies ++ [_] = (a.log ++ [(call, invocation)]).map _
    rw [List.map_append, h.latencies]
    rfl

omit [DecidableEq Node] [DecidableEq Digest] in
/-- A call that starts is invoked, unless it is refused for its keys. -/
theorem Traces.start (h : Traces sha1 bodies r a) (hcall : r.calls call = none)
    (hbody : invocation.script.body ∈ bodies) :
    Traces sha1 bodies (r.withPhase call (Runner.start invocation)) a ∨
      ∃ event, Traces sha1 bodies (r.withPhase call (Runner.start invocation))
        (a.step (fun data invocation => invocation.perform execute data) event) := by
  have hnone : a.status call = none := by
    rw [h.status, hcall]
    rfl
  unfold Runner.start
  by_cases hkeys : invocation.keys.length ≠ invocation.script.numKeys
  · left
    rw [if_pos hkeys]
    exact h.withPhase (by rw [hcall]; rfl)
  · right
    rw [if_neg hkeys]
    refine ⟨.invoke call invocation, ?_⟩
    rw [Atomic.step_invoke _ hnone]
    refine ⟨h.object, fun call' => ?_, h.latencies, h.sound,
      h.bodies_withPhase fun invocation' hopen => ?_⟩
    · rw [status_withPhase]
      show Function.update a.status call _ call' = _
      split
      next hself =>
        rw [hself, Function.update_self]
        rfl
      next hself => rw [Function.update_of_ne hself, h.status]
    · cases hopen
      exact hbody

/-- What the execution of a command does to the calls, seen as calls of the object. -/
theorem Traces.deliver (h : Traces sha1 bodies r a) (hsha1 : Set.InjOn sha1 bodies)
    (hclean : Clean execute bodies) (call : κ) :
    Traces sha1 bodies (r.deliver sha1 route execute call) a ∨
      ∃ event, Traces sha1 bodies (r.deliver sha1 route execute call)
        (a.step (fun data invocation => invocation.perform execute data) event) := by
  unfold Runner.deliver
  split
  next invocation hcall =>
    have hbody : invocation.script.body ∈ bodies := by
      refine h.bodies call invocation ?_
      rw [hcall]
      rfl
    unfold Servers.evalsha
    cases hcached : r.servers.cached (route invocation.keys) (sha1 invocation.script.body) with
    | none =>
        -- the server has lost the body and nothing has been executed
        have hmissing : isNoScriptError (js "NOSCRIPT No matching script. Please use EVAL.") =
            true := by decide +kernel
        left
        simp only [hmissing, if_true]
        exact h.withPhase (by rw [hcall]; rfl)
    | some found =>
        obtain rfl := h.sound.cached_self hsha1 hbody hcached
        right
        refine ⟨.perform call, ?_⟩
        have hdone := h.settle execute hcall rfl
          { r.servers with data := (invocation.perform execute r.servers.data).1 } rfl h.sound
        unfold Invocation.perform at hdone ⊢
        dsimp only
        cases hreply : (execute invocation.script.body invocation.keys invocation.args
            r.servers.data).2 with
        | ok value =>
            rw [hreply] at hdone
            exact hdone
        | error message =>
            rw [hreply] at hdone
            simp only [hclean _ hbody _ _ _ _ hreply, Bool.false_eq_true, if_false]
            exact hdone
  next invocation hcall =>
    have hbody : invocation.script.body ∈ bodies := by
      refine h.bodies call invocation ?_
      rw [hcall]
      rfl
    right
    exact ⟨.perform call, h.settle execute hcall rfl (r.servers.eval sha1 execute _ _ _ _).1 rfl
      (h.sound.scriptLoad hbody _)⟩
  next => exact Or.inl h

theorem Traces.step (h : Traces sha1 bodies r a) (hsha1 : Set.InjOn sha1 bodies)
    (hclean : Clean execute bodies)
    {event : RunnerEvent Node κ} (huses : event.Uses bodies) :
    Traces sha1 bodies (r.step sha1 route execute event) a ∨
      ∃ event', Traces sha1 bodies (r.step sha1 route execute event)
        (a.step (fun data invocation => invocation.perform execute data) event') := by
  cases event with
  | run call invocation =>
      cases hcall : r.calls call with
      | some phase =>
          left
          simp only [Runner.step, hcall]
          exact h
      | none =>
          simp only [Runner.step, hcall]
          exact h.start hcall huses
  | deliver call => exact h.deliver hsha1 hclean call
  | load script masters =>
      left
      exact ⟨h.object.trans (Servers.foldl_scriptLoad script.body masters).1.symm, h.status,
        h.latencies, h.sound.load huses masters, h.bodies⟩
  | flush node => exact Or.inl ⟨h.object, h.status, h.latencies, h.sound.flush node, h.bodies⟩

omit [DecidableEq Node] [DecidableEq Digest] [DecidableEq κ] in
theorem traces_boot (data : σ) :
    Traces sha1 bodies (boot data : Runner σ ω Node Digest κ) (Atomic.fresh data) :=
  ⟨rfl, fun _ => rfl, rfl, fun _ _ _ h => (by cases h), fun _ _ h => (by cases h)⟩

/-- The log explains what has happened: the data are what the settled runs leave when each is
executed once in the order of the log, every reply is what its run answers at its place, a run
that is not settled is not in the log, and a latency was recorded for each that is. -/
structure ExplainedBy (execute : ScriptExecution σ ω) (data : σ) (r : Runner σ ω Node Digest κ)
    (log : List (κ × Invocation)) : Prop where
  left : r.servers.data = run (fun data entry => (entry.2.perform execute data).1) data log
  once : (log.map Prod.fst).Nodup
  replies : ∀ call invocation reply, r.calls call = some (.done invocation reply) ↔
    ∃ before after, log = before ++ (call, invocation) :: after ∧
      reply = (invocation.perform execute
        (run (fun data entry => (entry.2.perform execute data).1) data before)).2
  latencies : r.latencies = log.map fun entry => entry.2.script.name

omit [DecidableEq Node] [DecidableEq Digest] [DecidableEq κ] in
theorem Traces.explained (h : Traces sha1 bodies r a) {data : σ}
    (hexplained :
      Atomic.Explained (fun data invocation => invocation.perform execute data) data a) :
    r.ExplainedBy execute data a.log where
  left := h.object.symm.trans hexplained.object
  once := hexplained.nodup
  replies := by
    intro call invocation reply
    refine Iff.trans ?_ (hexplained.settled call invocation reply)
    rw [h.status]
    cases hcall : r.calls call with
    | none => simp
    | some phase => cases phase <;> simp [RunPhase.status]
  latencies := h.latencies

/-- **Once.**  However the runs of scripts interleave, whichever servers lose which scripts
when, and whatever is loaded, some order of the settled runs explains all that has happened;
and whatever happens later is explained by going on with that order. -/
theorem script_runs_once {σ ω Node Digest κ : Type} [DecidableEq Node] [DecidableEq Digest]
    [DecidableEq κ] (sha1 : JsString → Digest) (route : List JsString → Node)
    (execute : ScriptExecution σ ω) (bodies : Set JsString) (hsha1 : Set.InjOn sha1 bodies)
    (hclean : Clean execute bodies)
    (data : σ) (events : List (RunnerEvent Node κ))
    (huses : ∀ event ∈ events, event.Uses bodies) :
    ∃ log : List (κ × Invocation),
      (run (step sha1 route execute) (boot data) events).ExplainedBy execute data log ∧
        ∀ later : List (RunnerEvent Node κ), (∀ event ∈ later, event.Uses bodies) →
          ∃ log', log <+: log' ∧
            (run (step sha1 route execute) (boot data) (events ++ later)).ExplainedBy execute data
              log' := by
  have hstep : ∀ (r : Runner σ ω Node Digest κ) a (event : RunnerEvent Node κ),
      event.Uses bodies → Traces sha1 bodies r a →
      Traces sha1 bodies (step sha1 route execute r event) a ∨ ∃ event',
        Traces sha1 bodies (step sha1 route execute r event)
          (a.step (fun data invocation => invocation.perform execute data) event') :=
    fun r a event he h => h.step hsha1 hclean he
  obtain ⟨a, htraces, hexplained, -⟩ := Atomic.explained_of_simulation hstep (traces_boot data)
    (Atomic.explained_fresh data) huses
  refine ⟨a.log, htraces.explained hexplained, fun later hlater => ?_⟩
  obtain ⟨a', htraces', hexplained', hprefix⟩ :=
    Atomic.explained_of_simulation hstep htraces hexplained hlater
  rw [run_append]
  exact ⟨a'.log, hprefix, htraces'.explained hexplained'⟩

/-- A script that counts. -/
def incr : RedisScript := ⟨js "return redis.call('INCR', KEYS[1])", 1, js "incr"⟩

/-- The digest of that script, the only one in use. -/
def sha1OfIncr (_ : JsString) : JsString := js "61636018f4e6b5817b89791bbed242f93fa089e3"

/-- What executing it does to a database of one counter. -/
def executeIncr : ScriptExecution Int Int := fun _ _ _ count => (count + 1, .ok (count + 1))

/-- Two runs of it, and the server loses the script in between. -/
def flushedBetween : List (RunnerEvent Unit Nat) :=
  [.run 0 ⟨incr, [js "n"], []⟩, .deliver 0, .run 1 ⟨incr, [js "n"], []⟩, .deliver 0, .flush (),
    .deliver 1, .deliver 1]

theorem script_runs_once_flushed :
    ∃ log : List (Nat × Invocation),
      (run (step sha1OfIncr (fun _ => ()) executeIncr) (boot 6) flushedBetween).ExplainedBy
          executeIncr 6 log ∧
        ∀ later : List (RunnerEvent Unit Nat), (∀ event ∈ later, event.Uses {incr.body}) →
          ∃ log', log <+: log' ∧
            (run (step sha1OfIncr (fun _ => ()) executeIncr) (boot 6)
              (flushedBetween ++ later)).ExplainedBy executeIncr 6 log' :=
  script_runs_once sha1OfIncr (fun _ => ()) executeIncr {incr.body} (Set.injOn_singleton _ _)
    (fun _ _ _ _ _ _ h => by cases h) 6 flushedBetween
    (by simp [flushedBetween, RunnerEvent.Uses])

/-! ## Scripts that are loaded -/

/-- The masters have the script, and the call does not wait to send it in full. -/
structure Warm (sha1 : JsString → Digest) (body : JsString) (masters : List Node) (call : κ)
    (r : Runner σ ω Node Digest κ) : Prop where
  cached : ∀ node ∈ masters, r.servers.cached node (sha1 body) = some body
  waiting : ∀ invocation, r.calls call = some (.eval invocation) →
    invocation.script.body ≠ body

variable {body : JsString} {masters : List Node}

/-- What is loaded later displaces no script in use. -/
theorem cached_kept (hsha1 : Set.InjOn sha1 bodies) (hbody : body ∈ bodies) {other : JsString}
    (hother : other ∈ bodies) {servers : Servers σ Node Digest} {node : Node}
    (hcached : servers.cached node (sha1 body) = some body) (node' : Node) :
    (servers.scriptLoad sha1 node' other).cached node (sha1 body) = some body := by
  rw [Servers.cached_scriptLoad]
  split
  next hhere => rw [hsha1 hbody hother hhere.2]
  next => exact hcached

omit [DecidableEq Node] [DecidableEq Digest] in
/-- A call that goes on to another phase than sending the script in full. -/
theorem Warm.withPhase (h : Warm sha1 body masters call r) {call' : κ} {phase : RunPhase ω}
    (hphase : ∀ invocation, phase = .eval invocation → invocation.script.body ≠ body) :
    Warm sha1 body masters call (r.withPhase call' phase) := by
  refine ⟨h.cached, fun invocation hwaits => ?_⟩
  by_cases hself : call = call'
  · rw [Runner.withPhase, hself] at hwaits
    exact hphase invocation (by simpa using hwaits)
  · rw [Runner.withPhase] at hwaits
    exact h.waiting invocation (by simpa [Function.update_of_ne hself] using hwaits)

/-- A run of the script ends with the first command it sends. -/
theorem Warm.deliver (h : Warm sha1 body masters call r) (ht : Traces sha1 bodies r a)
    (hsha1 : Set.InjOn sha1 bodies) (hclean : Clean execute bodies) (hbody : body ∈ bodies)
    (hroute : ∀ keys, route keys ∈ masters) (call' : κ) :
    Warm sha1 body masters call (r.deliver sha1 route execute call') := by
  have hused : ∀ {phase : RunPhase ω} {invocation : Invocation}, r.calls call' = some phase →
      phase.status = some (.pending invocation) → invocation.script.body ∈ bodies := by
    intro phase invocation hcall hphase
    refine ht.bodies call' invocation ?_
    rw [hcall]
    exact hphase
  unfold Runner.deliver
  split
  next invocation hcall =>
    have hsent := hused hcall rfl
    unfold Servers.evalsha
    cases hfound : r.servers.cached (route invocation.keys) (sha1 invocation.script.body) with
    | none =>
        have hmissing : isNoScriptError (js "NOSCRIPT No matching script. Please use EVAL.") =
            true := by decide +kernel
        simp only [hmissing, if_true]
        refine h.withPhase fun invocation' hphase => ?_
        cases hphase
        rintro rfl
        rw [h.cached _ (hroute invocation.keys)] at hfound
        cases hfound
    | some found =>
        obtain rfl := ht.sound.cached_self hsha1 hsent hfound
        cases hreply : (execute invocation.script.body invocation.keys invocation.args
            r.servers.data).2 with
        | ok value =>
            simp only [hreply]
            have hdone : Warm sha1 body masters call
                (r.withPhase call' (.done invocation (.ok value))) :=
              h.withPhase fun _ hphase => by cases hphase
            exact ⟨hdone.cached, hdone.waiting⟩
        | error message =>
            simp only [hreply, hclean _ hsent _ _ _ _ hreply, Bool.false_eq_true, if_false]
            have hdone : Warm sha1 body masters call
                (r.withPhase call' (.done invocation (.error message))) :=
              h.withPhase fun _ hphase => by cases hphase
            exact ⟨hdone.cached, hdone.waiting⟩
  next invocation hcall =>
    have hdone : Warm sha1 body masters call (r.withPhase call' (.done invocation
        (execute invocation.script.body invocation.keys invocation.args r.servers.data).2)) :=
      h.withPhase fun _ hphase => by cases hphase
    exact ⟨fun node hnode => cached_kept hsha1 hbody (hused hcall rfl) (h.cached node hnode) _,
      hdone.waiting⟩
  next => exact h

theorem Warm.step (h : Warm sha1 body masters call r) (ht : Traces sha1 bodies r a)
    (hsha1 : Set.InjOn sha1 bodies) (hclean : Clean execute bodies) (hbody : body ∈ bodies)
    (hroute : ∀ keys, route keys ∈ masters) {event : RunnerEvent Node κ}
    (huses : event.Uses bodies) (hkeeps : event.Keeps) :
    Warm sha1 body masters call (r.step sha1 route execute event) := by
  cases event with
  | run call' invocation =>
      cases hcall : r.calls call' with
      | some phase =>
          simp only [Runner.step, hcall]
          exact h
      | none =>
          simp only [Runner.step, hcall]
          refine h.withPhase fun invocation' hphase => ?_
          unfold Runner.start at hphase
          split at hphase <;> cases hphase
  | deliver call' => exact h.deliver ht hsha1 hclean hbody hroute call'
  | load script nodes =>
      refine ⟨fun node hnode => ?_, h.waiting⟩
      refine ((Servers.foldl_scriptLoad script.body nodes).2 node (sha1 body)).trans ?_
      split
      next hhere => rw [hsha1 hbody huses hhere.2]
      next => exact h.cached node hnode
  | flush node => exact absurd hkeeps id

/-- **Pre-warming.**  Once a script has been loaded on every master that keys can lead to, and
as long as no cache is lost, no run of it that starts then is ever sent twice. -/
theorem loaded_script_sent_once {σ ω Node Digest κ : Type} [DecidableEq Node]
    [DecidableEq Digest] [DecidableEq κ] (sha1 : JsString → Digest)
    (route : List JsString → Node) (execute : ScriptExecution σ ω) (bodies : Set JsString)
    (hsha1 : Set.InjOn sha1 bodies) (hclean : Clean execute bodies) (data : σ)
    (script : RedisScript) (masters : List Node) (hroute : ∀ keys, route keys ∈ masters)
    (before after : List (RunnerEvent Node κ))
    (huses : ∀ event ∈ before ++ .load script masters :: after, event.Uses bodies)
    (hkeeps : ∀ event ∈ after, event.Keeps) (call : κ)
    (hnew : (run (step sha1 route execute) (boot data) before).calls call = none)
    (invocation : Invocation) (hscript : invocation.script.body = script.body) :
    (run (step sha1 route execute) (boot data)
      (before ++ .load script masters :: after)).calls call ≠ some (.eval invocation) := by
  have hbody : script.body ∈ bodies := huses (.load script masters) (by simp)
  have htraces : ∀ r event, event.Uses bodies →
      (∃ a, Traces sha1 bodies (r : Runner σ ω Node Digest κ) a) →
      ∃ a, Traces sha1 bodies (r.step sha1 route execute event) a := by
    rintro r event hevent ⟨a, ha⟩
    rcases ha.step hsha1 hclean hevent with hsame | ⟨event', hnext⟩
    · exact ⟨a, hsame⟩
    · exact ⟨_, hnext⟩
  have hbefore : ∃ a, Traces sha1 bodies
      (run (step sha1 route execute) (boot data) before) a := by
    refine run_invariant_along (P := fun _ event => event.Uses bodies)
      (fun r event hr hevent => htraces r event hevent hr) ⟨_, traces_boot data⟩ ?_
    exact along_of_forall _ (fun event hmem => huses event (List.mem_append_left _ hmem)) _
  rw [run_append, run_cons]
  have hloaded : Warm sha1 script.body masters call ((run (step sha1 route execute) (boot data)
      before).step sha1 route execute (.load script masters)) := by
    refine ⟨fun node hnode => ?_, fun invocation hwaits => ?_⟩
    · exact ((Servers.foldl_scriptLoad script.body masters).2 node _).trans (if_pos ⟨hnode, rfl⟩)
    · rw [show (Runner.step sha1 route execute _ (.load script masters)).calls call = none from
        hnew] at hwaits
      cases hwaits
  have hwarm : (∃ a, Traces sha1 bodies (run (step sha1 route execute)
        ((run (step sha1 route execute) (boot data) before).step sha1 route execute
          (.load script masters)) after) a) ∧
      Warm sha1 script.body masters call (run (step sha1 route execute)
        ((run (step sha1 route execute) (boot data) before).step sha1 route execute
          (.load script masters)) after) := by
    refine run_invariant_along (P := fun _ event => event.Uses bodies ∧ event.Keeps)
      (I := fun r => (∃ a, Traces sha1 bodies r a) ∧ Warm sha1 script.body masters call r)
      ?_ ⟨htraces _ _ (huses _ (by simp)) hbefore, hloaded⟩ ?_
    · rintro r event ⟨⟨a, ha⟩, hr⟩ ⟨hevent, hkept⟩
      exact ⟨htraces r event hevent ⟨a, ha⟩,
        hr.step ha hsha1 hclean hbody hroute hevent hkept⟩
    · exact along_of_forall _
        (fun event hmem => ⟨huses event (by simp [hmem]), hkeeps event hmem⟩) _
  exact fun hwaits => hwarm.2.waiting invocation hwaits hscript

/-- A script that answers 1. -/
def returnOne : RedisScript := ⟨js "return 1", 0, js "return_one"⟩

/-- The digest of that script, the only one in use. -/
def sha1OfReturnOne (_ : JsString) : JsString := js "e0e1f9fabfc9d4800c877a703b823ac0578ff8db"

/-- What executing it does to the data, of whatever type. -/
def executeReturnOne : ScriptExecution Unit Int := fun _ _ _ data => (data, .ok 1)

/-- A run of it after it was loaded. -/
theorem loaded_script_sent_once_warm :
    (run (step sha1OfReturnOne (fun _ => ()) executeReturnOne) (boot ())
      ([.flush ()] ++ .load returnOne [()] :: [.run 0 ⟨returnOne, [], []⟩, .deliver 0])).calls 0 ≠
        some (.eval ⟨returnOne, [], []⟩) :=
  loaded_script_sent_once sha1OfReturnOne (fun _ => ()) executeReturnOne {js "return 1"}
    (Set.injOn_singleton _ _) (fun _ _ _ _ _ _ h => by cases h) () returnOne [()] (by simp)
    [.flush ()] [.run 0 ⟨returnOne, [], []⟩, .deliver 0]
    (by simp [RunnerEvent.Uses, returnOne]) (by simp [RunnerEvent.Keeps]) (0 : Nat) rfl
    ⟨returnOne, [], []⟩ rfl

end Runner

end RateLimiter.Redis
