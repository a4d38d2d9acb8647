import Mathlib.Data.List.Sort
import RateLimiter.Admission.Keyspace
import RateLimiter.Control.Patterns
import RateLimiter.Foundations.FirstMatch

/-!
# The policy table

What a policy row says, the set of rows the resolver loads, and what it means
that a policy governs a (tenant, model) pair.
-/

namespace RateLimiter.Control

open RateLimiter.Foundations RateLimiter.Javascript RateLimiter.Admission

/-- A row of `llm_admission_policies`, with its `BIGINT` and `NUMERIC` columns read
as numbers. -/
structure PolicyRow extends Limits where
  id : JsString
  tenantPattern : JsString
  modelPattern : JsString
  priority : Int
  enabled : Bool
  createdAt : Int

/-- What the repository returns for a row. -/
structure StoredPolicy extends AdmissionPolicy where
  id : JsString
  tenantPattern : JsString
  modelPattern : JsString
  priority : Int

/-- The scope of a configured policy. -/
def scopeOf (tenantPattern modelPattern : JsString) : JsString :=
  tenantPattern ++ js "|" ++ modelPattern

/-- `toPolicy`. -/
def toPolicy (row : PolicyRow) : StoredPolicy where
  toLimits := row.toLimits
  tenant := row.tenantPattern
  model := row.modelPattern
  scope := scopeOf row.tenantPattern row.modelPattern
  enabled := row.enabled
  id := row.id
  tenantPattern := row.tenantPattern
  modelPattern := row.modelPattern
  priority := row.priority

/-! ## The loaded set -/

/-- A row comes before another: `ORDER BY priority DESC, created_at ASC`. -/
def Precedes (row other : PolicyRow) : Prop :=
  other.priority < row.priority ∨
    (row.priority = other.priority ∧ row.createdAt ≤ other.createdAt)

instance (row other : PolicyRow) : Decidable (Precedes row other) :=
  inferInstanceAs (Decidable (_ ∨ _))

theorem Precedes.refl (row : PolicyRow) : Precedes row row := Or.inr ⟨rfl, le_rfl⟩

theorem Precedes.trans {a b c : PolicyRow} (hab : Precedes a b) (hbc : Precedes b c) :
    Precedes a c := by
  unfold Precedes at *
  omega

theorem Precedes.total (a b : PolicyRow) : Precedes a b ∨ Precedes b a := by
  unfold Precedes
  omega

/-- What is assumed of the database: the query returns the enabled rows, in order. -/
structure OrderedQuery (query : List PolicyRow → List PolicyRow) : Prop where
  perm : ∀ table, (query table).Perm (table.filter fun row => row.enabled)
  ordered : ∀ table, (query table).Pairwise Precedes

/-- `findEnabledByPriority`. -/
def findEnabledByPriority (query : List PolicyRow → List PolicyRow) (table : List PolicyRow) :
    List StoredPolicy :=
  (query table).map toPolicy

/-! ## Which policy governs a pair -/

/-- Both patterns of a policy match a pair. -/
def covers (regExp : JsString → Option (JsString → Bool)) (tenantPattern modelPattern : JsString)
    (pair : Pair) : Bool :=
  matchPattern regExp pair.1 tenantPattern && matchPattern regExp pair.2 modelPattern

/-- `DEFAULT_POLICY` for one pair. -/
def builtIn (pair : Pair) : AdmissionPolicy where
  toLimits := defaultLimits
  tenant := pair.1
  model := pair.2
  scope := js "default"
  enabled := true

/-- The policy computed for a pair from a loaded set: the first that matches, or
`DEFAULT_POLICY`. -/
def policyFor (regExp : JsString → Option (JsString → Bool)) (policies : List StoredPolicy)
    (pair : Pair) : AdmissionPolicy :=
  match policies.find? fun p => covers regExp p.tenantPattern p.modelPattern pair with
  | some found =>
      { found.toAdmissionPolicy with
        tenant := pair.1
        model := pair.2
        scope := scopeOf found.tenantPattern found.modelPattern }
  | none => builtIn pair

section Governs

variable (regExp : JsString → Option (JsString → Bool))

/-- The row a table means for a pair: an enabled one whose patterns match, of the
highest priority, and created first among those. -/
structure Governs (table : List PolicyRow) (pair : Pair) (row : PolicyRow) : Prop where
  mem : row ∈ table
  enabled : row.enabled = true
  covers : covers regExp row.tenantPattern row.modelPattern pair = true
  first : ∀ other ∈ table, other.enabled = true →
    Control.covers regExp other.tenantPattern other.modelPattern pair = true → Precedes row other

/-- The limits of a row for one pair. -/
def PolicyRow.governing (row : PolicyRow) (pair : Pair) : AdmissionPolicy where
  toLimits := row.toLimits
  tenant := pair.1
  model := pair.2
  scope := scopeOf row.tenantPattern row.modelPattern
  enabled := row.enabled

/-- A policy is the one a table means for a pair. -/
def Exact (table : List PolicyRow) (pair : Pair) (policy : AdmissionPolicy) : Prop :=
  (∃ row, Governs regExp table pair row ∧ policy = row.governing pair) ∨
    ((∀ row ∈ table, row.enabled = true →
      covers regExp row.tenantPattern row.modelPattern pair = false) ∧ policy = builtIn pair)

variable {regExp}

/-- The policy a table means for a pair names the pair. -/
theorem Exact.names {table : List PolicyRow} {pair : Pair} {policy : AdmissionPolicy}
    (h : Exact regExp table pair policy) : policy.tenant = pair.1 ∧ policy.model = pair.2 := by
  rcases h with ⟨row, -, rfl⟩ | ⟨-, rfl⟩ <;> exact ⟨rfl, rfl⟩

/-- A computed policy names its pair. -/
theorem policyFor_names (regExp : JsString → Option (JsString → Bool))
    (policies : List StoredPolicy) (pair : Pair) :
    (policyFor regExp policies pair).tenant = pair.1 ∧
      (policyFor regExp policies pair).model = pair.2 := by
  unfold policyFor
  split <;> exact ⟨rfl, rfl⟩

/-- The first match of the loaded set is the policy the table means. -/
theorem policyFor_exact {query : List PolicyRow → List PolicyRow} (hquery : OrderedQuery query)
    (table : List PolicyRow) (pair : Pair) :
    Exact regExp table pair (policyFor regExp (findEnabledByPriority query table) pair) := by
  have hmem (row : PolicyRow) : row ∈ query table ↔ row ∈ table ∧ row.enabled = true := by
    rw [(hquery.perm table).mem_iff, List.mem_filter]
  unfold policyFor
  cases hfind : (findEnabledByPriority query table).find?
      fun p => covers regExp p.tenantPattern p.modelPattern pair with
  | some found =>
      obtain ⟨row, hrow, rfl⟩ := find?_map_eq_some hfind
      obtain ⟨htable, henabled⟩ := (hmem row).mp (List.mem_of_find?_eq_some hrow)
      have hcovers := List.find?_some hrow
      refine Or.inl ⟨row, ⟨htable, henabled, hcovers, ?_⟩, rfl⟩
      intro other hother hon hmatch
      exact find?_precedes Precedes.refl (hquery.ordered table) hrow
        ((hmem other).mpr ⟨hother, hon⟩) hmatch
  | none =>
      refine Or.inr ⟨?_, rfl⟩
      intro row hrow henabled
      have hloaded : toPolicy row ∈ findEnabledByPriority query table :=
        List.mem_map_of_mem ((hmem row).mpr ⟨hrow, henabled⟩)
      simpa [toPolicy] using List.find?_eq_none.mp hfind (toPolicy row) hloaded

end Governs

end RateLimiter.Control
