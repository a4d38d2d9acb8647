import Mathlib.Algebra.BigOperators.Group.List.Basic
import Mathlib.Data.List.AList
import Mathlib.Data.List.Sort
import Mathlib.Order.Defs.LinearOrder

/-!
# Keys of a Redis server

What a script sees of a Redis database, one key at a time: a string key with its
time to live, and a collection key (a hash, or a sorted set whose values are the
scores) with its members and its time to live.  The server deletes a collection
with its last member, and the time to live goes with it; `EXPIRE` on a key that
is not there does nothing.

Times are the server's own clock, in whole milliseconds.  A key is gone as soon
as the clock is past the instant it expires at, which `purge` makes explicit:
the commands themselves never look at the clock of a key they read.
-/

namespace RateLimiter.Redis

/-! ## String keys -/

/-- The value of a string key and the last instant it is still there. -/
structure Timed (α : Type) where
  value : α
  expireAt : Int
deriving DecidableEq, Repr

/-- A string key, `none` while it does not exist. -/
abbrev StringKey (α : Type) := Option (Timed α)

namespace StringKey

variable {α : Type}

/-- `SET key value EX ttl`, executed at the server's `clock`. -/
def setEx (clock : Int) (value : α) (ttl : Nat) : StringKey α :=
  some ⟨value, clock + 1000 * ttl⟩

/-- `GET key`. -/
def get (key : StringKey α) : Option α := key.map Timed.value

/-- What is left of the key at the server's `clock`. -/
def purge (clock : Int) (key : StringKey α) : StringKey α :=
  key.filter fun timed => clock ≤ timed.expireAt

/-- `PEXPIRE key ms`, executed at the server's `clock`. -/
def pexpire (clock ms : Int) (key : StringKey α) : StringKey α :=
  if ms ≤ 0 then none else key.map fun timed => { timed with expireAt := clock + ms }

/-- `INCR key` with `PEXPIRE key ms` after it, executed at the server's `clock`: the new
count, and the key. -/
def incr (clock ms : Int) (key : StringKey Int) : Int × StringKey Int :=
  let count := (get key).getD 0 + 1
  (count, pexpire clock ms (some ⟨count, clock⟩))

/-- `TTL key`, at the server's `clock`: seconds, to the nearest. -/
def ttl (clock : Int) (key : StringKey α) : Int :=
  match key.purge clock with
  | some timed => (timed.expireAt - clock + 500) / 1000
  | none => -2

@[simp] theorem get_none : get (none : StringKey α) = none := rfl

@[simp] theorem get_some (timed : Timed α) : get (some timed) = some timed.value := rfl

@[simp] theorem get_setEx (clock : Int) (value : α) (ttl : Nat) :
    get (setEx clock value ttl) = some value := rfl

@[simp] theorem get_eq_none {key : StringKey α} : get key = none ↔ key = none := by
  cases key <;> simp [get]

@[simp] theorem purge_none (clock : Int) : purge clock (none : StringKey α) = none := rfl

theorem pexpire_of_pos {clock ms : Int} (h : 0 < ms) (timed : Timed α) :
    pexpire clock ms (some timed) = some ⟨timed.value, clock + ms⟩ := by
  unfold pexpire
  rw [if_neg (not_le.mpr h)]
  rfl

theorem incr_of_pos {clock ms : Int} (h : 0 < ms) (key : StringKey Int) :
    incr clock ms key =
      ((get key).getD 0 + 1, some ⟨(get key).getD 0 + 1, clock + ms⟩) :=
  Prod.ext rfl (pexpire_of_pos h _)

theorem purge_some_of_le {clock : Int} {timed : Timed α} (h : clock ≤ timed.expireAt) :
    purge clock (some timed) = some timed := by
  simp [purge, h]

theorem purge_some_of_lt {clock : Int} {timed : Timed α} (h : timed.expireAt < clock) :
    purge clock (some timed) = none := by
  simp [purge, h]

theorem purge_eq_some {clock : Int} {key : StringKey α} {timed : Timed α} :
    purge clock key = some timed ↔ key = some timed ∧ clock ≤ timed.expireAt := by
  simp [purge, Option.filter_eq_some_iff]

end StringKey

/-! ## Hashes and sorted sets -/

/-- A collection key: its members, and the last instant it is still there
(`none` while it has no time to live, and when it does not exist). -/
structure Collection (κ ν : Type) where
  members : AList fun _ : κ => ν
  expireAt : Option Int
  expireAt_of_empty : members.entries = [] → expireAt = none

/-- A hash from field names to values. -/
abbrev Hash (κ ν : Type) := Collection κ ν

/-- A sorted set: its members with their scores. -/
abbrev SortedSet (κ : Type) := Collection κ Int

namespace Collection

variable {κ ν : Type}

/-- The key does not exist. -/
def absent : Collection κ ν := ⟨∅, none, fun _ => rfl⟩

/-- `HLEN` and `ZCARD`. -/
def card (c : Collection κ ν) : Nat := c.members.entries.length

/-- `EXPIRE key ttl`, executed at the server's `clock`. -/
def expire (clock : Int) (ttl : Nat) (c : Collection κ ν) : Collection κ ν :=
  -- there is no key to set a time to live on
  if h : c.members.entries = [] then c
  else { c with
    expireAt := some (clock + 1000 * ttl)
    expireAt_of_empty := fun hempty => absurd hempty h }

/-- `PEXPIRE key ms`, executed at the server's `clock`; no time left deletes the key. -/
def pexpire (clock ms : Int) (c : Collection κ ν) : Collection κ ν :=
  if ms ≤ 0 then absent
  else if h : c.members.entries = [] then c
  else { c with
    expireAt := some (clock + ms)
    expireAt_of_empty := fun hempty => absurd hempty h }

/-- What is left of the key at the server's `clock`. -/
def purge (clock : Int) (c : Collection κ ν) : Collection κ ν :=
  if c.expireAt.any (· < clock) then absent else c

/-- `PTTL key`, at the server's `clock`. -/
def pttl (clock : Int) (c : Collection κ ν) : Int :=
  let alive := c.purge clock
  if alive.members.entries = [] then -2
  else match alive.expireAt with
    | some deadline => deadline - clock
    | none => -1

/-- The sum of the values of all members. -/
def total [AddMonoid ν] (c : Collection κ ν) : ν :=
  (c.members.entries.map Sigma.snd).sum

variable [DecidableEq κ]

/-- `HGET` and `ZSCORE`. -/
def get (k : κ) (c : Collection κ ν) : Option ν := c.members.lookup k

/-- `HSET` and `ZADD`. -/
def put (k : κ) (v : ν) (c : Collection κ ν) : Collection κ ν :=
  { c with
    members := c.members.insert k v
    expireAt_of_empty := fun hempty => by simp [AList.entries_insert] at hempty }

/-- `HDEL` and `ZREM`. -/
def del (k : κ) (c : Collection κ ν) : Collection κ ν :=
  let left := c.members.erase k
  { members := left
    -- the last member takes the key with it
    expireAt := if left.entries = [] then none else c.expireAt
    expireAt_of_empty := fun hempty => if_pos hempty }

/-! ### What a command leaves under each member -/

@[simp] theorem get_absent (k : κ) : get k (absent : Collection κ ν) = none := rfl

@[simp] theorem get_put (k : κ) (v : ν) (c : Collection κ ν) : get k (put k v c) = some v :=
  AList.lookup_insert _

theorem get_put_of_ne {k k' : κ} (h : k' ≠ k) (v : ν) (c : Collection κ ν) :
    get k' (put k v c) = get k' c := AList.lookup_insert_ne h

@[simp] theorem get_del (k : κ) (c : Collection κ ν) : get k (del k c) = none :=
  AList.lookup_erase _ _

theorem get_del_of_ne {k k' : κ} (h : k' ≠ k) (c : Collection κ ν) :
    get k' (del k c) = get k' c := AList.lookup_erase_ne h

@[simp] theorem get_expire (k : κ) (clock : Int) (ttl : Nat) (c : Collection κ ν) :
    get k (expire clock ttl c) = get k c := by
  unfold expire
  split <;> rfl

theorem get_eq_none_of_entries_nil {c : Collection κ ν} (h : c.members.entries = [])
    (k : κ) : get k c = none := by
  unfold get AList.lookup
  rw [h]
  rfl

theorem entries_ne_nil_of_get {k : κ} {v : ν} {c : Collection κ ν} (h : get k c = some v) :
    c.members.entries ≠ [] := by
  intro hnil
  rw [get_eq_none_of_entries_nil hnil] at h
  cases h

/-! ### Times to live -/

@[simp] theorem expireAt_put (k : κ) (v : ν) (c : Collection κ ν) :
    (put k v c).expireAt = c.expireAt := rfl

/-- A member that survives keeps the time to live of its key. -/
theorem expireAt_del_of_get {k k' : κ} {v : ν} {c : Collection κ ν}
    (h : get k' (del k c) = some v) : (del k c).expireAt = c.expireAt := by
  have hne := entries_ne_nil_of_get h
  show (if (c.members.erase k).entries = [] then none else c.expireAt) = c.expireAt
  exact if_neg hne

/-- Deleting what is not there changes nothing about the key. -/
theorem expireAt_del_of_get_eq_none {k : κ} {c : Collection κ ν} (h : get k c = none) :
    (del k c).expireAt = c.expireAt := by
  have hsame : (c.members.erase k).entries = c.members.entries :=
    List.kerase_of_notMem_keys (AList.lookup_eq_none.mp h)
  show (if (c.members.erase k).entries = [] then none else c.expireAt) = c.expireAt
  split
  next hempty => exact (c.expireAt_of_empty (hsame.symm.trans hempty)).symm
  next => rfl

theorem expireAt_expire_of_get {k : κ} {v : ν} {c : Collection κ ν} (h : get k c = some v)
    (clock : Int) (ttl : Nat) : (expire clock ttl c).expireAt = some (clock + 1000 * ttl) := by
  unfold expire
  rw [dif_neg (entries_ne_nil_of_get h)]

omit [DecidableEq κ] in
theorem purge_eq_self {clock : Int} {c : Collection κ ν}
    (h : ∀ d ∈ c.expireAt, clock ≤ d) : purge clock c = c := by
  unfold purge
  rw [if_neg]
  cases hexpire : c.expireAt with
  | none => simp
  | some d => simpa using h d hexpire

theorem get_of_get_purge {k : κ} {v : ν} {clock : Int} {c : Collection κ ν}
    (h : get k (purge clock c) = some v) : get k c = some v := by
  unfold purge at h
  split at h
  · cases h
  · exact h

/-! ### Collections over the same members -/

theorem entries_eq_nil_iff {c : Collection κ ν} :
    c.members.entries = [] ↔ ∀ k, get k c = none := by
  refine ⟨get_eq_none_of_entries_nil, ?_⟩
  intro hnone
  cases hentries : c.members.entries with
  | nil => rfl
  | cons entry rest =>
      have hmem : entry.1 ∈ c.members := by
        show entry.1 ∈ c.members.entries.keys
        rw [hentries]
        exact List.mem_cons_self
      have hfound := AList.lookup_isSome.mpr hmem
      have hlost : c.members.lookup entry.1 = none := hnone entry.1
      rw [hlost] at hfound
      cases hfound

/-- Two collections have the same members and the same time to live. -/
structure SameKeys {μ : Type} (c : Collection κ ν) (d : Collection κ μ) : Prop where
  members : ∀ k, get k c = none ↔ get k d = none
  expireAt : c.expireAt = d.expireAt

namespace SameKeys

variable {μ : Type} {c : Collection κ ν} {d : Collection κ μ}

theorem absent : SameKeys (absent : Collection κ ν) (Collection.absent : Collection κ μ) :=
  ⟨fun k => by simp, rfl⟩

theorem entries_eq_nil (h : SameKeys c d) :
    c.members.entries = [] ↔ d.members.entries = [] := by
  rw [entries_eq_nil_iff, entries_eq_nil_iff]
  exact forall_congr' h.members

theorem put (h : SameKeys c d) (k : κ) (v : ν) (w : μ) : SameKeys (put k v c) (put k w d) := by
  refine ⟨?_, h.expireAt⟩
  intro k'
  by_cases hk : k' = k
  · simp [hk]
  · rw [get_put_of_ne hk, get_put_of_ne hk]
    exact h.members k'

theorem del (h : SameKeys c d) (k : κ) : SameKeys (del k c) (del k d) := by
  have hmembers : ∀ k', get k' (Collection.del k c) = none ↔
      get k' (Collection.del k d) = none := by
    intro k'
    by_cases hk : k' = k
    · simp [hk]
    · rw [get_del_of_ne hk, get_del_of_ne hk]
      exact h.members k'
  refine ⟨hmembers, ?_⟩
  have hempty : (Collection.del k c).members.entries = [] ↔
      (Collection.del k d).members.entries = [] := by
    rw [entries_eq_nil_iff, entries_eq_nil_iff]
    exact forall_congr' hmembers
  show (if (Collection.del k c).members.entries = [] then none else c.expireAt) =
    if (Collection.del k d).members.entries = [] then none else d.expireAt
  rw [h.expireAt]
  exact if_congr hempty rfl rfl

theorem expire (h : SameKeys c d) (clock : Int) (ttl : Nat) :
    SameKeys (expire clock ttl c) (expire clock ttl d) := by
  refine ⟨fun k => by rw [get_expire, get_expire]; exact h.members k, ?_⟩
  unfold Collection.expire
  by_cases hempty : c.members.entries = []
  · rw [dif_pos hempty, dif_pos (h.entries_eq_nil.mp hempty)]
    exact h.expireAt
  · rw [dif_neg hempty, dif_neg fun hnil => hempty (h.entries_eq_nil.mpr hnil)]

theorem purge (h : SameKeys c d) (clock : Int) : SameKeys (purge clock c) (purge clock d) := by
  unfold Collection.purge
  rw [h.expireAt]
  split
  · exact absent
  · exact h

end SameKeys

/-! ### Counting and summing the members -/

theorem card_put_le (k : κ) (v : ν) (c : Collection κ ν) : card (put k v c) ≤ card c + 1 := by
  show ((c.members.insert k v).entries).length ≤ card c + 1
  rw [AList.entries_insert, List.length_cons]
  exact Nat.add_le_add_right (List.kerase_sublist k _).length_le 1

omit [DecidableEq κ] in
@[simp] theorem card_expire (clock : Int) (ttl : Nat) (c : Collection κ ν) :
    card (expire clock ttl c) = card c := by
  unfold expire
  split <;> rfl

/-- A member that is new is put before the others. -/
theorem entries_put_of_notMem {k : κ} {c : Collection κ ν} (h : k ∉ c.members.entries.keys)
    (v : ν) : (put k v c).members.entries = ⟨k, v⟩ :: c.members.entries := by
  show (c.members.insert k v).entries = _
  rw [AList.entries_insert, List.kerase_of_notMem_keys h]

theorem card_put_of_get_eq_none {k : κ} {c : Collection κ ν} (h : get k c = none) (v : ν) :
    card (put k v c) = card c + 1 := by
  unfold card
  rw [entries_put_of_notMem (AList.lookup_eq_none.mp h), List.length_cons]

theorem card_del_le (k : κ) (c : Collection κ ν) : card (del k c) ≤ card c :=
  (List.kerase_sublist k c.members.entries).length_le

theorem card_del_of_get {k : κ} {v : ν} {c : Collection κ ν} (h : get k c = some v) :
    card (del k c) + 1 = card c := by
  have hmem : k ∈ c.members.entries.keys :=
    AList.lookup_isSome.mp (Option.isSome_iff_exists.mpr ⟨v, h⟩)
  obtain ⟨w, before, after, -, hentries, hleft⟩ := List.exists_of_kerase hmem
  show (c.members.entries.kerase k).length + 1 = c.members.entries.length
  rw [hleft, hentries, List.length_append, List.length_append, List.length_cons, Nat.add_assoc]

/-- Members that are there are no more than the key has. -/
theorem length_le_card {ks : List κ} {c : Collection κ ν} (hnodup : ks.Nodup)
    (h : ∀ k ∈ ks, ∃ v, get k c = some v) : ks.length ≤ card c := by
  have hsub : ks ⊆ c.members.entries.keys := by
    intro k hk
    obtain ⟨v, hv⟩ := h k hk
    exact AList.lookup_isSome.mp (Option.isSome_of_eq_some hv)
  exact (List.subperm_of_subset hnodup hsub).length_le.trans_eq (List.length_map _)

/-! ### Members that are never lost -/

section Lasting

variable {μ : Type}

omit [DecidableEq κ] in
theorem ext_of_entries {c d : Collection κ ν} (hentries : c.members.entries = d.members.entries)
    (hexpire : c.expireAt = d.expireAt) : c = d := by
  obtain ⟨members, expireAt, _⟩ := c
  obtain ⟨members', expireAt', _⟩ := d
  obtain rfl : members = members' := AList.ext hentries
  obtain rfl : expireAt = expireAt' := hexpire
  rfl

/-- The members on a server that never lets the key expire, their values mapped. -/
def lasting (f : ν → μ) (c : Collection κ ν) : Collection κ μ where
  members := ⟨c.members.entries.map fun entry => ⟨entry.1, f entry.2⟩, by
    have hkeys := c.members.nodupKeys
    unfold List.NodupKeys List.keys at hkeys ⊢
    rw [List.map_map]
    exact hkeys⟩
  expireAt := none
  expireAt_of_empty := fun _ => rfl

omit [DecidableEq κ] in
theorem card_lasting (f : ν → μ) (c : Collection κ ν) : (c.lasting f).card = c.card :=
  List.length_map _

omit [DecidableEq κ] in
theorem lasting_expire (f : ν → μ) (clock : Int) (ttl : Nat) (c : Collection κ ν) :
    (c.expire clock ttl).lasting f = c.lasting f := by
  unfold expire
  split <;> rfl

theorem get_lasting (f : ν → μ) (c : Collection κ ν) (k : κ) :
    (c.lasting f).get k = (c.get k).map f :=
  List.dlookup_map₂ (f := fun _ => f) k

theorem kerase_map_values (f : ν → μ) (k : κ) (entries : List (Σ _ : κ, ν)) :
    (entries.map fun entry => (⟨entry.1, f entry.2⟩ : Σ _ : κ, μ)).kerase k =
      (entries.kerase k).map fun entry => ⟨entry.1, f entry.2⟩ :=
  List.eraseP_map

theorem lasting_put (f : ν → μ) (k : κ) (v : ν) (c : Collection κ ν) :
    (c.put k v).lasting f = (c.lasting f).put k (f v) := by
  refine ext_of_entries ?_ rfl
  show ((c.members.insert k v).entries.map fun entry => (⟨entry.1, f entry.2⟩ : Σ _ : κ, μ)) =
    ((c.lasting f).members.insert k (f v)).entries
  rw [AList.entries_insert, AList.entries_insert, List.map_cons, ← kerase_map_values]
  rfl

theorem lasting_del (f : ν → μ) (k : κ) (c : Collection κ ν) :
    (c.del k).lasting f = (c.lasting f).del k := by
  refine ext_of_entries (kerase_map_values f k c.members.entries).symm ?_
  show none = if _ then none else none
  rw [ite_self]

end Lasting

section Total

variable [AddCommMonoid ν]

omit [DecidableEq κ] in
@[simp] theorem total_absent : total (absent : Collection κ ν) = 0 := rfl

omit [DecidableEq κ] in
@[simp] theorem total_expire (clock : Int) (ttl : Nat) (c : Collection κ ν) :
    total (expire clock ttl c) = total c := by
  unfold expire
  split <;> rfl

private theorem sum_kerase {k : κ} {v : ν} :
    ∀ {entries : List (Σ _ : κ, ν)}, entries.dlookup k = some v →
      v + ((entries.kerase k).map Sigma.snd).sum = (entries.map Sigma.snd).sum
  | [], h => by simp at h
  | ⟨k', v'⟩ :: rest, h => by
      by_cases hk : k = k'
      · subst hk
        rw [List.dlookup_cons_eq] at h
        cases h
        have hhead : (⟨k, v⟩ :: rest : List (Σ _ : κ, ν)).kerase k = rest :=
          List.kerase_cons_eq rfl
        rw [hhead]
        rfl
      · rw [List.dlookup_cons_ne _ _ hk] at h
        rw [List.kerase_cons_ne hk, List.map_cons, List.sum_cons, List.map_cons,
          List.sum_cons, ← sum_kerase h]
        exact add_left_comm _ _ _

theorem total_del_of_get {k : κ} {v : ν} {c : Collection κ ν} (h : get k c = some v) :
    v + total (del k c) = total c := sum_kerase h

theorem total_del_of_get_eq_none {k : κ} {c : Collection κ ν} (h : get k c = none) :
    total (del k c) = total c := by
  have hkeys : k ∉ c.members.entries.keys := AList.lookup_eq_none.mp h
  show ((c.members.entries.kerase k).map Sigma.snd).sum = total c
  rw [List.kerase_of_notMem_keys hkeys]
  rfl

/-- `HSET` replaces whatever value the field had. -/
theorem total_put (k : κ) (v : ν) (c : Collection κ ν) :
    total (put k v c) = v + total (del k c) := by
  show ((c.members.insert k v).entries.map Sigma.snd).sum = _
  rw [AList.entries_insert, List.map_cons, List.sum_cons]
  rfl

end Total

end Collection

/-! ## Ranges of a sorted set -/

namespace SortedSet

variable {κ : Type} [LinearOrder κ]

/-- The order of a sorted set: by score, members of equal score by name. -/
def scoreLe (a b : Σ _ : κ, Int) : Prop :=
  a.2 < b.2 ∨ a.2 = b.2 ∧ a.1 ≤ b.1

instance : DecidableRel (scoreLe (κ := κ)) :=
  fun a b => inferInstanceAs (Decidable (a.2 < b.2 ∨ a.2 = b.2 ∧ a.1 ≤ b.1))

/-- `ZRANGEBYSCORE key -inf max LIMIT 0 count`. -/
def rangeByScore (max : Int) (count : Nat) (z : SortedSet κ) : List κ :=
  (((z.members.entries.filter fun entry => entry.2 ≤ max).insertionSort scoreLe).take
    count).map Sigma.fst

/-- `ZREMRANGEBYSCORE key min max`. -/
def remRangeByScore (min max : Int) (z : SortedSet κ) : SortedSet κ :=
  let left := z.members.entries.filter fun entry => ¬ (min ≤ entry.2 ∧ entry.2 ≤ max)
  { members := ⟨left, z.members.nodupKeys.sublist List.filter_sublist⟩
    expireAt := if left = [] then none else z.expireAt
    expireAt_of_empty := fun hempty => if_pos hempty }

/-- `ZRANGE key 0 0 WITHSCORES`. -/
def first? (z : SortedSet κ) : Option (κ × Int) :=
  (z.members.entries.insertionSort scoreLe).head?.map fun entry => (entry.1, entry.2)

/-- `ZCOUNT key -inf max`. -/
def countByScore (max : Int) (z : SortedSet κ) : Nat :=
  (z.members.entries.filter fun entry => entry.2 ≤ max).length

/-- A member in the range is in the set, with a score the range allows. -/
theorem score_of_mem_rangeByScore {max : Int} {count : Nat} {z : SortedSet κ} {k : κ}
    (h : k ∈ rangeByScore max count z) : ∃ score, z.get k = some score ∧ score ≤ max := by
  obtain ⟨⟨k', score⟩, hmem, rfl⟩ := List.mem_map.mp h
  have hsorted := List.mem_of_mem_take hmem
  rw [List.mem_insertionSort, List.mem_filter] at hsorted
  refine ⟨score, ?_, by simpa using hsorted.2⟩
  exact List.mem_dlookup z.members.nodupKeys hsorted.1

/-- No member is listed twice. -/
theorem nodup_rangeByScore (max : Int) (count : Nat) (z : SortedSet κ) :
    (rangeByScore max count z).Nodup := by
  have hfilter : (z.members.entries.filter fun entry => entry.2 ≤ max).NodupKeys :=
    z.members.nodupKeys.sublist List.filter_sublist
  have hsort : ((z.members.entries.filter fun entry => entry.2 ≤ max).insertionSort
      scoreLe).NodupKeys :=
    (List.perm_nodupKeys (List.perm_insertionSort _ _)).mpr hfilter
  exact hsort.sublist (List.take_sublist _ _)

/-- `LIMIT` cuts off what `ZCOUNT` counts. -/
theorem length_rangeByScore (max : Int) (count : Nat) (z : SortedSet κ) :
    (rangeByScore max count z).length = min count (countByScore max z) := by
  unfold rangeByScore countByScore
  rw [List.length_map, List.length_take, List.length_insertionSort]

/-- Nothing is in the range when every score lies above it. -/
theorem rangeByScore_eq_nil {max : Int} {z : SortedSet κ}
    (h : ∀ k score, z.get k = some score → max < score) (count : Nat) :
    rangeByScore max count z = [] := by
  rw [List.eq_nil_iff_forall_not_mem]
  intro k hk
  obtain ⟨score, hscore, hle⟩ := score_of_mem_rangeByScore hk
  exact absurd (h k score hscore) (not_lt.mpr hle)

end SortedSet

end RateLimiter.Redis
