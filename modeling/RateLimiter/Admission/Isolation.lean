import RateLimiter.Admission.Keyspace

/-!
# Isolation of tenants

The names of a pair's keys carry the tenant and the model joined by a bar, which
either of them may contain.  Pairs that overlap across the bar share every key
and see each other's calls; all other pairs share none, and no call for one of
them changes what the other is answered.
-/

namespace RateLimiter.Admission

open RateLimiter.Redis RateLimiter.Javascript RateLimiter.Foundations

/-- No name of one pair is a name of the other. -/
def KeysDisjoint (a b : Pair) : Prop := ∀ key key', keyName a key ≠ keyName b key'

/-- Whatever the database holds and whatever is called for `a` in between, `b` is
answered as if only its own calls had been made. -/
def Undisturbed (a b : Pair) : Prop :=
  ∀ (ks : Keyspace) (calls : List PairCall), (∀ call ∈ calls, call.1 = a ∨ call.1 = b) →
    answers b ks calls = answers b ks (calls.filter fun call => call.1 = b)

variable {a b : Pair}

/-- Distinct pairs share a name when they overlap across the bar. -/
theorem keysDisjoint_iff (hne : a ≠ b) : KeysDisjoint a b ↔ ¬ Overlap (unit '|') a b := by
  rw [← join_eq_join_iff_of_ne hne]
  constructor
  · intro h hjoin
    exact h .tpm .tpm (keyName_eq_keyName_iff.mpr ⟨hjoin, rfl⟩)
  · intro h key key' hname
    exact h (keyName_eq_keyName_iff.mp hname).1

/-- What a pair is answered depends on its own keys only. -/
theorem answers_congr (hdisjoint : KeysDisjoint a b) (calls : List PairCall)
    (hpairs : ∀ call ∈ calls, call.1 = a ∨ call.1 = b) {ks ks' : Keyspace}
    (hload : ks.load b = ks'.load b) :
    answers b ks calls = answers b ks' (calls.filter fun call => call.1 = b) := by
  induction calls generalizing ks ks' with
  | nil => rfl
  | cons call calls ih =>
      obtain ⟨hpair, hrest⟩ := List.forall_mem_cons.mp hpairs
      by_cases hb : call.1 = b
      · have hnext : (serve ks call).load b = (serve ks' call).load b := by
          unfold serve
          rw [hb, Keyspace.load_store, Keyspace.load_store, hload]
        rw [List.filter_cons_of_pos (by simpa using hb)]
        unfold answers
        rw [if_pos hb, if_pos hb, ih hrest hnext]
        unfold answer
        rw [hb, hload]
      · -- A call for `a` writes no key that `b` loads, and the filtered run skips it.
        obtain rfl : call.1 = a := hpair.resolve_right hb
        have hnext : (serve ks call).load b = ks'.load b := by
          unfold serve
          rw [Keyspace.load_store_of_ne hdisjoint, hload]
        rw [List.filter_cons_of_neg (by simpa using hb)]
        rw [answers, if_neg hb]
        exact ih hrest hnext

theorem undisturbed_of_keysDisjoint (h : KeysDisjoint a b) : Undisturbed a b :=
  fun _ calls hpairs => answers_congr h calls hpairs rfl

/-! ## Overlapping pairs -/

/-- Overlapping pairs load the same keys. -/
theorem load_of_overlap (h : Overlap (unit '|') a b) (ks : Keyspace) : ks.load b = ks.load a := by
  have hjoin : join (unit '|') b = join (unit '|') a :=
    (join_eq_join_iff.mpr (Or.inr h)).symm
  refine Keyspace.load_congr fun key => ?_
  rw [keyName_eq_keyName_iff.mpr ⟨hjoin, rfl⟩]

/-- A reserve of 500 tokens under the default limits. -/
def reserve500 : Request ReservationId :=
  callAt defaultLimits 0 (.reserve ⟨[], by decide⟩ 500 0)

/-- The tokens a snapshot shows. -/
def shownTokens : Reply → Int
  | .snapshot reply => reply.tokensRemaining
  | _ => 0

/-- A reserve for one of two overlapping pairs is seen by the other. -/
theorem not_undisturbed_of_overlap (hne : a ≠ b) (h : Overlap (unit '|') a b) :
    ¬ Undisturbed a b := by
  intro hundisturbed
  -- A snapshot for `b` shows the 500 tokens that were taken for `a`.
  have hanswers := hundisturbed .empty [(a, reserve500), (b, callAt defaultLimits 0 .snapshot)]
    (by simp)
  have hkeys : (serve .empty (a, reserve500)).load b = step .empty reserve500 := by
    rw [load_of_overlap h]
    exact Keyspace.load_store _ _ _
  have hempty : Keyspace.empty.load b = .empty := rfl
  simp only [answers, hne, List.filter_cons, List.filter_nil, if_false, if_true, decide_false,
    decide_true, Bool.false_eq_true, answer, hkeys, hempty] at hanswers
  have hshown := congrArg (fun replies => replies.map shownTokens) hanswers
  revert hshown
  decide +kernel

end RateLimiter.Admission
