import RateLimiter.Admission.Keyspace
import RateLimiter.Redis.Cluster

/-!
# One slot for one decision

The names of a pair's keys put the tenant and the model between braces, so that a
cluster keeps them in one place.  Whatever the two contain, the tag ends at the
first closing brace in them; only a tenant that begins with one leaves no tag, and
then every name is hashed for itself.
-/

namespace RateLimiter.Admission

open RateLimiter.Redis RateLimiter.Javascript RateLimiter.Foundations

/-- `settledKey`, for any text of a reservation id. -/
def settledKey (pair : Pair) (reservationId : JsString) : JsString :=
  ns pair ++ js ":settled:" ++ reservationId

/-- The keys `reserve` passes to its script. -/
def reserveKeys (pair : Pair) : List JsString :=
  [keyName pair .tpm, keyName pair .tpmTs, keyName pair .rpm, keyName pair .rpmTs,
    keyName pair .leases, keyName pair .reservations, keyName pair .stats]

/-- The keys `commit` passes to its script. -/
def commitKeys (pair : Pair) (reservationId : JsString) : List JsString :=
  [keyName pair .tpm, keyName pair .tpmTs, keyName pair .leases, keyName pair .reservations,
    keyName pair .stats, settledKey pair reservationId]

/-- The keys `snapshot` passes to its script. -/
def snapshotKeys (pair : Pair) : List JsString :=
  [keyName pair .tpm, keyName pair .tpmTs, keyName pair .rpm, keyName pair .rpmTs,
    keyName pair .leases, keyName pair .stats]

/-- A cluster lets one script use all these names.  Braces are single bytes of a name
that no other character contributes to, so the text is split as its bytes are. -/
abbrev SameSlot (names : List JsString) : Prop := OneSlot (unit '\x7b') (unit '\x7d') names

/-- What a name of a pair is hashed by. -/
theorem hashed_ns (pair : Pair) (rest : JsString) :
    hashed (unit '\x7b') (unit '\x7d') (ns pair ++ rest) =
      if pair.1.head? = some (unit '\x7d') then ns pair ++ rest
      else (join (unit '|') pair).takeWhile (· ≠ unit '\x7d') := by
  have hfront : unit '\x7b' ∉ js "llm:" := by decide +kernel
  have hbar : js "|" = [unit '|'] := by decide +kernel
  have hopen : js "llm:\x7b" = js "llm:" ++ [unit '\x7b'] := by decide +kernel
  have hclose : js "\x7d" = [unit '\x7d'] := by decide +kernel
  have hns : ns pair ++ rest =
      js "llm:" ++ unit '\x7b' :: (join (unit '|') pair ++ unit '\x7d' :: rest) := by
    unfold ns join
    rw [hbar, hopen, hclose]
    simp
  rw [hns]
  obtain ⟨tenant, model⟩ := pair
  unfold join
  cases tenant with
  | nil =>
      have hne : unit '|' ≠ unit '\x7d' := by decide +kernel
      rw [if_neg (by simp)]
      exact (hashed_tagged (unit '\x7d') hfront (unit '|') model rest).trans (if_neg hne)
  | cons first more =>
      simpa using hashed_tagged (unit '\x7d') hfront first (more ++ unit '|' :: model) rest

/-- Different names of a pair are hashed alike exactly when the pair leaves a tag. -/
theorem sameSlot_iff {pair : Pair} {names : List JsString}
    (hnames : ∀ name ∈ names, ∃ rest, name = ns pair ++ rest)
    (hdiffer : ∃ a ∈ names, ∃ b ∈ names, a ≠ b) :
    SameSlot names ↔ pair.1.head? ≠ some (unit '\x7d') := by
  constructor
  · intro hslot hstart
    obtain ⟨a, ha, b, hb, hne⟩ := hdiffer
    obtain ⟨resta, rfl⟩ := hnames a ha
    obtain ⟨restb, rfl⟩ := hnames b hb
    have hsame := hslot _ ha _ hb
    rw [hashed_ns, hashed_ns, if_pos hstart, if_pos hstart] at hsame
    exact hne hsame
  · intro hstart a ha b hb
    obtain ⟨resta, rfl⟩ := hnames a ha
    obtain ⟨restb, rfl⟩ := hnames b hb
    rw [hashed_ns, hashed_ns, if_neg hstart, if_neg hstart]

theorem keyName_tagged (pair : Pair) (key : PairKey) : ∃ rest, keyName pair key = ns pair ++ rest :=
  ⟨js ":" ++ key.suffix, List.append_assoc _ _ _⟩

theorem settledKey_tagged (pair : Pair) (id : JsString) :
    ∃ rest, settledKey pair id = ns pair ++ rest :=
  ⟨js ":settled:" ++ id, List.append_assoc _ _ _⟩

theorem tpm_ne_tpmTs (pair : Pair) : keyName pair .tpm ≠ keyName pair .tpmTs := by
  intro hname
  cases (keyName_eq_keyName_iff.mp hname).2

/-- **One slot.**  All keys of a reserve, of a commit and of a snapshot are hashed alike
exactly when the tenant does not begin with a closing brace. -/
theorem one_slot_per_decision (pair : Pair) (reservationId : JsString) :
    (SameSlot (reserveKeys pair) ↔ pair.1.head? ≠ some (unit '\x7d')) ∧
      (SameSlot (commitKeys pair reservationId) ↔ pair.1.head? ≠ some (unit '\x7d')) ∧
      (SameSlot (snapshotKeys pair) ↔ pair.1.head? ≠ some (unit '\x7d')) := by
  refine ⟨?_, ?_, ?_⟩
  · refine sameSlot_iff ?_ ⟨_, by simp [reserveKeys], _, by simp [reserveKeys], tpm_ne_tpmTs pair⟩
    simp only [reserveKeys, List.forall_mem_cons, keyName_tagged, true_and]
    simp
  · refine sameSlot_iff ?_ ⟨_, by simp [commitKeys], _, by simp [commitKeys], tpm_ne_tpmTs pair⟩
    simp only [commitKeys, List.forall_mem_cons, keyName_tagged, settledKey_tagged, true_and]
    simp
  · refine sameSlot_iff ?_ ⟨_, by simp [snapshotKeys], _, by simp [snapshotKeys],
      tpm_ne_tpmTs pair⟩
    simp only [snapshotKeys, List.forall_mem_cons, keyName_tagged, true_and]
    simp

/-- The keys of tenant `}` are hashed whole, and every call of it is refused. -/
theorem leading_brace_splits_slots :
    ¬ ∀ (pair : Pair) (reservationId : JsString),
      (1 ≤ pair.1.length ∧ pair.1.length ≤ 128) → (1 ≤ pair.2.length ∧ pair.2.length ≤ 128) →
      SameSlot (reserveKeys pair) ∧ SameSlot (commitKeys pair reservationId) ∧
        SameSlot (snapshotKeys pair) := by
  intro h
  have hslot := (h (js "\x7d", js "gpt-4") (js "0") (by decide +kernel) (by decide +kernel)).1
  have hsame := hslot (keyName (js "\x7d", js "gpt-4") .tpm) (by simp [reserveKeys])
    (keyName (js "\x7d", js "gpt-4") .tpmTs) (by simp [reserveKeys])
  revert hsame
  decide +kernel

end RateLimiter.Admission
