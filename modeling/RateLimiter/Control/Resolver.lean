import RateLimiter.Control.PolicyTable
import RateLimiter.Foundations.Memo
import RateLimiter.Foundations.Runs

/-!
# The policy resolver

`PolicyResolver` keeps a loaded set of policies and a memo of the pairs it has
resolved since.  Its operations are written once, over what it takes a set and
an answer to be.  The second half runs them one after the other and says which
answers are the ones the loaded table means.
-/

namespace RateLimiter.Control

open RateLimiter.Foundations RateLimiter.Javascript RateLimiter.Admission

/-- `PolicyResolver`: a loaded set `τ` and remembered answers `ρ`. -/
structure Resolver (τ ρ : Type) where
  policies : τ
  resolved : Memo JsString ρ
  loadedAt : Int

namespace Resolver

variable {τ ρ : Type}

/-- How long a loaded set serves. -/
def ttlMs : Int := 30000

/-- The key of a pair: tenant and model joined by a NUL. -/
def cacheKey (pair : Pair) : JsString := join (unit '\x00') pair

/-- The check that opens `ensureLoaded`. -/
def isFresh (now : Int) (r : Resolver τ ρ) : Bool := now - r.loadedAt < ttlMs

/-- A load that succeeded. -/
def install (policies : τ) (now : Int) (_ : Resolver τ ρ) : Resolver τ ρ :=
  { policies := policies, resolved := ∅, loadedAt := now }

/-- A load that failed: the set stays. -/
def keep (now : Int) (r : Resolver τ ρ) : Resolver τ ρ :=
  { r with resolved := ∅, loadedAt := now }

/-- `invalidate`. -/
def invalidate (r : Resolver τ ρ) : Resolver τ ρ := { r with resolved := ∅, loadedAt := 0 }

/-- What `resolve` does once a set is loaded. -/
def lookup (answer : τ → Pair → ρ) (pair : Pair) (r : Resolver τ ρ) : Resolver τ ρ × ρ :=
  let out := r.resolved.ask cacheKey (answer r.policies) pair
  ({ r with resolved := out.1 }, out.2)

end Resolver

/-! ## One step after the other -/

/-- A resolver with its history: the table its set was read from, and the pairs
resolved since the memo was last emptied. -/
structure Replica where
  resolver : Resolver (List StoredPolicy) AdmissionPolicy
  table : List PolicyRow
  asked : List Pair

namespace Replica

/-- Nothing loaded and nothing asked. -/
def initial : Replica where
  resolver := { policies := [], resolved := ∅, loadedAt := 0 }
  table := []
  asked := []

section Operations

variable (regExp : JsString → Option (JsString → Bool))
variable (query : List PolicyRow → List PolicyRow)

/-- A load that is done at `now`; `found` is the table, or nothing when the query
fails. -/
def load (found : Option (List PolicyRow)) (now : Int) (r : Replica) : Replica :=
  match found with
  | some table =>
      { resolver := r.resolver.install (findEnabledByPriority query table) now
        table := table
        asked := [] }
  | none => { r with resolver := r.resolver.keep now, asked := [] }

/-- `ensureLoaded`, with the load it may start. -/
def ensureLoaded (now : Int) (found : Option (List PolicyRow)) (done : Int) (r : Replica) :
    Replica :=
  if r.resolver.isFresh now then r else r.load query found done

/-- `invalidate`. -/
def invalidate (r : Replica) : Replica := { r with resolver := r.resolver.invalidate, asked := [] }

/-- `resolve`, with the load it may start. -/
def resolve (pair : Pair) (now : Int) (found : Option (List PolicyRow)) (done : Int)
    (r : Replica) : Replica × AdmissionPolicy :=
  let ready := r.ensureLoaded query now found done
  let out := ready.resolver.lookup (policyFor regExp) pair
  ({ ready with resolver := out.1, asked := ready.asked ++ [pair] }, out.2)

/-- What can happen to a replica. -/
inductive Step
  | resolve (pair : Pair) (now : Int) (found : Option (List PolicyRow)) (done : Int)
  | load (found : Option (List PolicyRow)) (done : Int)
  | invalidate

/-- One step, run to its end. -/
def step (r : Replica) : Step → Replica
  | .resolve pair now found done => (r.resolve regExp query pair now found done).1
  | .load found done => r.load query found done
  | .invalidate => r.invalidate

end Operations

/-- The set is the one its table means, and the memo holds its answers. -/
structure InStep (regExp : JsString → Option (JsString → Bool))
    (query : List PolicyRow → List PolicyRow) (r : Replica) : Prop where
  policies : r.resolver.policies = findEnabledByPriority query r.table
  memo : Remembers Resolver.cacheKey (policyFor regExp r.resolver.policies) r.asked
    r.resolver.resolved

variable {regExp : JsString → Option (JsString → Bool)}
variable {query : List PolicyRow → List PolicyRow}

theorem inStep_initial (hquery : OrderedQuery query) : InStep regExp query initial := by
  refine ⟨?_, Remembers.empty⟩
  have hnone : query [] = [] := by simpa using hquery.perm []
  unfold findEnabledByPriority
  show [] = (query []).map toPolicy
  rw [hnone, List.map_nil]

theorem InStep.load {r : Replica} (h : InStep regExp query r) (found : Option (List PolicyRow))
    (now : Int) : InStep regExp query (r.load query found now) := by
  cases found with
  | some table => exact ⟨rfl, Remembers.empty⟩
  | none => exact ⟨h.policies, Remembers.empty⟩

theorem InStep.ensureLoaded {r : Replica} (h : InStep regExp query r) (now : Int)
    (found : Option (List PolicyRow)) (done : Int) :
    InStep regExp query (r.ensureLoaded query now found done) := by
  unfold Replica.ensureLoaded
  split
  · exact h
  · exact h.load found done

/-- A step keeps the replica in step with its history. -/
theorem InStep.step {r : Replica} (h : InStep regExp query r) (next : Step) :
    InStep regExp query (r.step regExp query next) := by
  cases next with
  | resolve pair now found done =>
      have hready := h.ensureLoaded now found done
      exact ⟨hready.policies, hready.memo.ask pair⟩
  | load found done => exact h.load found done
  | invalidate => exact ⟨h.policies, Remembers.empty⟩

/-- So does every run. -/
theorem inStep_run (hquery : OrderedQuery query) (steps : List Step) :
    InStep regExp query (run (step regExp query) initial steps) :=
  run_invariant (step regExp query) (fun _ next h => h.step next) (inStep_initial hquery) steps

end Replica

/-! ## Exactness -/

/-- Of the pairs with one key, this one was asked for first. -/
def AskedFirst (asked : List Pair) (pair : Pair) : Prop :=
  ∀ other, firstAsked Resolver.cacheKey asked (Resolver.cacheKey pair) = some other → other = pair

/-- A pair that overlaps none of the others across the NUL is the first with its key. -/
theorem askedFirst_of_not_overlap {asked : List Pair} {pair : Pair}
    (h : ∀ other ∈ asked, ¬ Overlap (unit '\x00') other pair) : AskedFirst asked pair := by
  intro other hfirst
  have hjoin := join_eq_join_iff.mp (firstAsked_key hfirst)
  exact hjoin.resolve_right (h other (firstAsked_mem hfirst))

section Exactness

variable {query : List PolicyRow → List PolicyRow}

/-- **Exact resolution.**  In every run the policy a pair resolves to is the one the
loaded table means for it, exactly when no other pair with the same key was
resolved before it since the memo was last emptied. -/
theorem resolution_exact (regExp : JsString → Option (JsString → Bool))
    (hquery : OrderedQuery query) (steps : List Replica.Step) (pair : Pair) (now : Int)
    (found : Option (List PolicyRow)) (done : Int) :
    let reached := run (Replica.step regExp query) .initial steps
    let ready := reached.ensureLoaded query now found done
    Exact regExp ready.table pair (reached.resolve regExp query pair now found done).2 ↔
      AskedFirst ready.asked pair := by
  intro reached ready
  have hready : Replica.InStep regExp query ready :=
    (Replica.inStep_run hquery steps).ensureLoaded now found done
  have hanswer : (reached.resolve regExp query pair now found done).2 =
      policyFor regExp ready.resolver.policies
        ((firstAsked Resolver.cacheKey ready.asked (Resolver.cacheKey pair)).getD pair) :=
    hready.memo.answer_eq pair
  rw [hanswer, hready.policies]
  constructor
  · -- The answer carries the names it was computed for, which tell two pairs apart.
    intro hexact other hfirst
    rw [hfirst, Option.getD_some] at hexact
    obtain ⟨htenant, hmodel⟩ := hexact.names
    obtain ⟨htenant', hmodel'⟩ := policyFor_names regExp
      (findEnabledByPriority query ready.table) other
    exact Prod.ext (htenant'.symm.trans htenant) (hmodel'.symm.trans hmodel)
  · intro hasked
    cases hfirst : firstAsked Resolver.cacheKey ready.asked (Resolver.cacheKey pair) with
    | none => exact policyFor_exact hquery ready.table pair
    | some other =>
        obtain rfl := hasked other hfirst
        exact policyFor_exact hquery ready.table other

end Exactness

/-- The enabled rows of a table, sorted. -/
def sortedQuery (table : List PolicyRow) : List PolicyRow :=
  (table.filter fun row => row.enabled).mergeSort fun row other => Precedes row other

theorem orderedQuery_sortedQuery : OrderedQuery sortedQuery where
  perm table := List.mergeSort_perm _ _
  ordered table := by
    have htrans : ∀ a b c : PolicyRow, decide (Precedes a b) = true →
        decide (Precedes b c) = true → decide (Precedes a c) = true := fun a b c hab hbc =>
      decide_eq_true ((of_decide_eq_true hab).trans (of_decide_eq_true hbc))
    have htotal : ∀ a b : PolicyRow, (decide (Precedes a b) || decide (Precedes b a)) = true := by
      intro a b
      simpa using Precedes.total a b
    exact (List.pairwise_mergeSort htrans htotal _).imp fun h => of_decide_eq_true h

/-- A row for one tenant. -/
def acmeRow : PolicyRow where
  toLimits := defaultLimits
  id := js "1"
  tenantPattern := js "acme"
  modelPattern := js "*"
  priority := 200
  enabled := true
  createdAt := 0

/-- Plain names resolve to what the table means for them. -/
theorem resolution_exact_plain :
    Exact (fun _ => none) [acmeRow] (js "globex", js "gpt")
      ((run (Replica.step (fun _ => none) sortedQuery) .initial
        [.resolve (js "acme", js "gpt") 30000 (some [acmeRow]) 30000]).resolve (fun _ => none)
          sortedQuery (js "globex", js "gpt") 30001 none 30001).2 := by
  refine (resolution_exact (fun _ => none) orderedQuery_sortedQuery
    [.resolve (js "acme", js "gpt") 30000 (some [acmeRow]) 30000] (js "globex", js "gpt") 30001
    none 30001).mpr (askedFirst_of_not_overlap ?_)
  intro other hmem
  obtain rfl : other = (js "acme", js "gpt") := List.mem_singleton.mp hmem
  exact not_overlap_of_not_mem (by decide +kernel) (by decide +kernel)

/-- A name of 1 to 128 characters, twice. -/
def Accepted (pair : Pair) : Prop :=
  (1 ≤ pair.1.length ∧ pair.1.length ≤ 128) ∧ 1 ≤ pair.2.length ∧ pair.2.length ≤ 128

instance (pair : Pair) : Decidable (Accepted pair) := inferInstanceAs (Decidable (_ ∧ _))

/-- After tenant `a\u0000b` with model `c`, tenant `a` with model `b\u0000c` is served the
other's policy. -/
theorem nul_in_name_shares_answer :
    ¬ ∀ (regExp : JsString → Option (JsString → Bool)) (query : List PolicyRow → List PolicyRow),
      OrderedQuery query → ∀ (steps : List Replica.Step) (pair : Pair) (now : Int)
        (found : Option (List PolicyRow)) (done : Int),
        (∀ other now' found' done', .resolve other now' found' done' ∈ steps → Accepted other) →
        Accepted pair →
        Exact regExp ((run (Replica.step regExp query) .initial steps).ensureLoaded query now found
          done).table pair ((run (Replica.step regExp query) .initial steps).resolve regExp query
            pair now found done).2 := by
  intro h
  have hexact := h (fun _ => none) sortedQuery orderedQuery_sortedQuery
    [.resolve (js "a\x00b", js "c") 30000 (some []) 30000] (js "a", js "b\x00c") 30001 none 30001
    (by
      intro other now found done hmem
      cases List.mem_singleton.mp hmem
      decide +kernel)
    (by decide +kernel)
  have htenant := hexact.names.1
  revert htenant
  decide +kernel

end RateLimiter.Control
