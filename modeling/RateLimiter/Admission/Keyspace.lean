import Mathlib.Data.List.Lex
import RateLimiter.Admission.Calls
import RateLimiter.Foundations.Joining

/-!
# The keys of all pairs in one database

`ns`, `keys` and `settledKey` name the keys of a (tenant, model) pair.  A
`Keyspace` is the database all pairs share: what is stored under each name, of
the kind that names of its form are used for.  `load` reads the keys of one pair
out of it, `store` writes them back, and `serve` is a call of the service on the
whole database.
-/

namespace RateLimiter.Admission

open RateLimiter.Redis RateLimiter.Javascript RateLimiter.Foundations

/-- The tenant and the model a budget belongs to. -/
abbrev Pair := JsString × JsString

/-- A reservation id: a UUID, possibly in brackets, so nothing follows a closing
brace in it. -/
abbrev ReservationId := { text : JsString // ¬ [unit '\x7d', unit ':'] <:+: text }

/-- The keys of a pair. -/
inductive PairKey
  | tpm
  | tpmTs
  | rpm
  | rpmTs
  | leases
  | reservations
  | stats
  | settled (id : ReservationId)
deriving DecidableEq

/-- What follows the colon after the hash tag. -/
def PairKey.suffix : PairKey → JsString
  | tpm => js "tpm"
  | tpmTs => js "tpm:ts"
  | rpm => js "rpm"
  | rpmTs => js "rpm:ts"
  | leases => js "leases"
  | reservations => js "res"
  | stats => js "stats"
  | settled id => js "settled:" ++ id.val

/-- `ns`: the hash tag of a pair. -/
def ns (pair : Pair) : JsString :=
  js "llm:\x7b" ++ (pair.1 ++ js "|" ++ pair.2) ++ js "\x7d"

/-- `keys` and `settledKey`: the name of a key of a pair. -/
def keyName (pair : Pair) (key : PairKey) : JsString := ns pair ++ js ":" ++ key.suffix

/-! ## Telling the keys of a pair apart -/

/-- The keys a pair has one of each. -/
def PairKey.fixed : List PairKey := [.tpm, .tpmTs, .rpm, .rpmTs, .leases, .reservations, .stats]

/-- The key a suffix belongs to. -/
def PairKey.ofSuffix? (text : JsString) : Option PairKey :=
  if h : js "settled:" <+: text ∧ ¬ [unit '\x7d', unit ':'] <:+: text.drop 8 then
    some (.settled ⟨text.drop 8, h.2⟩)
  else fixed.find? fun key => text = key.suffix

theorem settled_drop (id : JsString) : (js "settled:" ++ id).drop 8 = id :=
  List.drop_left' (by decide +kernel)

theorem PairKey.ofSuffix?_suffix (key : PairKey) : ofSuffix? key.suffix = some key := by
  cases key with
  | settled id =>
      have hsettled : js "settled:" <+: js "settled:" ++ id.val ∧
          ¬ [unit '\x7d', unit ':'] <:+: (js "settled:" ++ id.val).drop 8 :=
        ⟨List.prefix_append _ _, by rw [settled_drop]; exact id.2⟩
      unfold ofSuffix? suffix
      rw [dif_pos hsettled]
      simp only [settled_drop]
  | _ => decide +kernel

theorem PairKey.suffix_of_ofSuffix? {text : JsString} {key : PairKey}
    (h : ofSuffix? text = some key) : text = key.suffix := by
  unfold ofSuffix? at h
  split at h
  next hsettled =>
    cases h
    obtain ⟨id, hid⟩ := hsettled.1
    unfold suffix
    dsimp only
    rw [← hid, settled_drop]
  next => simpa using List.find?_some h

/-- Different keys have different suffixes. -/
theorem PairKey.suffix_injective : Function.Injective PairKey.suffix := by
  intro key key' h
  have hfound := ofSuffix?_suffix key
  rw [h, ofSuffix?_suffix key'] at hfound
  exact (Option.some.inj hfound).symm

/-- The key of a pair a name belongs to. -/
def locate (pair : Pair) (name : JsString) : Option PairKey :=
  if ns pair ++ js ":" <+: name then PairKey.ofSuffix? (name.drop (ns pair ++ js ":").length)
  else none

theorem locate_keyName (pair : Pair) (key : PairKey) :
    locate pair (keyName pair key) = some key := by
  unfold locate keyName
  rw [if_pos (List.prefix_append _ _), List.drop_left]
  exact PairKey.ofSuffix?_suffix key

theorem keyName_of_locate {pair : Pair} {name : JsString} {key : PairKey}
    (h : locate pair name = some key) : name = keyName pair key := by
  unfold locate at h
  split at h
  next hprefix =>
    obtain ⟨rest, rfl⟩ := hprefix
    rw [List.drop_left] at h
    rw [keyName, PairKey.suffix_of_ofSuffix? h]
  next => cases h

/-! ## Telling the keys of different pairs apart -/

/-- No suffix closes a hash tag. -/
theorem PairKey.not_mark_suffix (key : PairKey) :
    ¬ [unit '\x7d', unit ':'] <:+: unit ':' :: key.suffix := by
  cases key with
  | settled id =>
      have hfront : unit '\x7d' ∉ js ":settled:" := by decide +kernel
      have hsplit : unit ':' :: (PairKey.settled id).suffix = js ":settled:" ++ id.val := rfl
      rw [hsplit]
      exact not_mark_append hfront id.2
  | _ => decide +kernel

theorem keyName_eq (pair : Pair) (key : PairKey) :
    keyName pair key = js "llm:\x7b" ++ join (unit '|') pair ++
      unit '\x7d' :: unit ':' :: key.suffix := by
  have hbar : js "|" = [unit '|'] := by decide +kernel
  have hclose : js "\x7d" = [unit '\x7d'] := by decide +kernel
  have hcolon : js ":" = [unit ':'] := by decide +kernel
  unfold keyName ns join
  rw [hbar, hclose, hcolon]
  simp

/-- Two names are the same when the keys are and the joined pairs are. -/
theorem keyName_eq_keyName_iff {pair pair' : Pair} {key key' : PairKey} :
    keyName pair key = keyName pair' key' ↔
      join (unit '|') pair = join (unit '|') pair' ∧ key = key' := by
  constructor
  · -- The last `}:` of a name closes its hash tag, as no suffix has one.
    intro h
    rw [keyName_eq, keyName_eq] at h
    obtain ⟨htag, hsuffix⟩ :=
      closing_split key.not_mark_suffix key'.not_mark_suffix h
    exact ⟨List.append_cancel_left htag, PairKey.suffix_injective hsuffix⟩
  · rintro ⟨hjoin, rfl⟩
    rw [keyName_eq, keyName_eq, hjoin]

/-! ## The database -/

/-- What a name can hold. -/
inductive Stored
  | balance (timed : Timed Rat)
  | instant (timed : Timed Int)
  | leases (z : SortedSet ReservationId)
  | holds (h : Hash ReservationId Rat)
  | averages (h : Hash StatField Rat)

namespace Stored

/-- The balance a name holds. -/
def balance? : Stored → StringKey Rat
  | balance timed => some timed
  | _ => none

/-- The instant a name holds. -/
def instant? : Stored → StringKey Int
  | instant timed => some timed
  | _ => none

/-- The leases a name holds. -/
def leases? : Stored → Option (SortedSet ReservationId)
  | leases z => some z
  | _ => none

/-- The holds a name holds. -/
def holds? : Stored → Option (Hash ReservationId Rat)
  | holds h => some h
  | _ => none

/-- The averages a name holds. -/
def averages? : Stored → Option (Hash StatField Rat)
  | averages h => some h
  | _ => none

end Stored

/-- Is this what the key of a pair is used for? -/
def PairKey.Holds : PairKey → Stored → Prop
  | tpm, .balance _ | tpmTs, .instant _ | rpm, .balance _ | rpmTs, .instant _
  | leases, .leases _ | reservations, .holds _ | stats, .averages _
  | settled _, .balance _ => True
  | _, _ => False

/-- A database in which every name of a pair holds what it is used for. -/
structure Keyspace where
  lookup : JsString → Option Stored
  typed : ∀ pair (key : PairKey) v, lookup (keyName pair key) = some v → key.Holds v

namespace Keyspace

/-- No name holds anything. -/
def empty : Keyspace := ⟨fun _ => none, fun _ _ _ h => by cases h⟩

/-- The keys of a pair. -/
def load (ks : Keyspace) (pair : Pair) : PairState ReservationId where
  tpm := (ks.lookup (keyName pair .tpm)).bind Stored.balance?
  tpmTs := (ks.lookup (keyName pair .tpmTs)).bind Stored.instant?
  rpm := (ks.lookup (keyName pair .rpm)).bind Stored.balance?
  rpmTs := (ks.lookup (keyName pair .rpmTs)).bind Stored.instant?
  leases := ((ks.lookup (keyName pair .leases)).bind Stored.leases?).getD .absent
  reservations := ((ks.lookup (keyName pair .reservations)).bind Stored.holds?).getD .absent
  stats := ((ks.lookup (keyName pair .stats)).bind Stored.averages?).getD .absent
  settled := fun id => (ks.lookup (keyName pair (.settled id))).bind Stored.balance?

end Keyspace

/-- A collection as it is stored: a name without members does not exist. -/
def storedCollection {κ ν : Type} (wrap : Collection κ ν → Stored) (c : Collection κ ν) :
    Option Stored := if c.members.entries = [] then none else some (wrap c)

/-- What a key of a pair holds in a state of the pair. -/
def PairState.stored (s : PairState ReservationId) : PairKey → Option Stored
  | .tpm => s.tpm.map .balance
  | .tpmTs => s.tpmTs.map .instant
  | .rpm => s.rpm.map .balance
  | .rpmTs => s.rpmTs.map .instant
  | .leases => storedCollection .leases s.leases
  | .reservations => storedCollection .holds s.reservations
  | .stats => storedCollection .averages s.stats
  | .settled id => (s.settled id).map .balance

theorem holds_of_storedCollection {κ ν : Type} {wrap : Collection κ ν → Stored}
    {c : Collection κ ν} {v : Stored} (h : storedCollection wrap c = some v) :
    ∃ c, v = wrap c := by
  unfold storedCollection at h
  split at h
  · cases h
  · exact ⟨c, (Option.some.inj h).symm⟩

theorem PairState.holds_stored {s : PairState ReservationId} {key : PairKey} {v : Stored}
    (h : s.stored key = some v) : key.Holds v := by
  cases key with
  | leases =>
      obtain ⟨z, rfl⟩ := holds_of_storedCollection h
      trivial
  | reservations =>
      obtain ⟨c, rfl⟩ := holds_of_storedCollection h
      trivial
  | stats =>
      obtain ⟨c, rfl⟩ := holds_of_storedCollection h
      trivial
  | _ =>
      obtain ⟨timed, -, rfl⟩ := Option.map_eq_some_iff.mp h
      trivial

namespace Keyspace

/-- Write the keys of a pair. -/
def store (ks : Keyspace) (pair : Pair) (s : PairState ReservationId) : Keyspace where
  lookup name :=
    match locate pair name with
    | some key => s.stored key
    | none => ks.lookup name
  typed := by
    intro pair' key v h
    split at h
    next key' hlocate =>
      have hname := keyName_of_locate hlocate
      rw [(keyName_eq_keyName_iff.mp hname).2]
      exact PairState.holds_stored h
    next => exact ks.typed pair' key v h

theorem lookup_store (ks : Keyspace) (pair : Pair) (s : PairState ReservationId) (key : PairKey) :
    (ks.store pair s).lookup (keyName pair key) = s.stored key := by
  unfold store
  dsimp only
  rw [locate_keyName]

end Keyspace

/-- A string key is read as it was stored. -/
theorem bind_stored {α : Type} {wrap : Timed α → Stored} {unwrap : Stored → StringKey α}
    (h : ∀ timed, unwrap (wrap timed) = some timed) (key : StringKey α) :
    (key.map wrap).bind unwrap = key := by
  cases key with
  | none => rfl
  | some timed => exact h timed

/-- A collection is read as it was stored. -/
theorem bind_storedCollection {κ ν : Type} {wrap : Collection κ ν → Stored}
    {unwrap : Stored → Option (Collection κ ν)} (h : ∀ c, unwrap (wrap c) = some c)
    (c : Collection κ ν) : ((storedCollection wrap c).bind unwrap).getD .absent = c := by
  unfold storedCollection
  split
  next hempty =>
    obtain ⟨members, expireAt, hexpire⟩ := c
    obtain rfl : members = ∅ := AList.ext hempty
    obtain rfl : expireAt = none := hexpire hempty
    rfl
  next =>
    show (unwrap (wrap c)).getD .absent = c
    rw [h]
    rfl

namespace Keyspace

/-- What was stored is loaded again. -/
theorem load_store (ks : Keyspace) (pair : Pair) (s : PairState ReservationId) :
    (ks.store pair s).load pair = s := by
  unfold load
  simp only [lookup_store]
  unfold PairState.stored
  dsimp only
  rw [bind_stored (fun _ => rfl), bind_stored (fun _ => rfl), bind_stored (fun _ => rfl),
    bind_stored (fun _ => rfl), bind_storedCollection (fun _ => rfl),
    bind_storedCollection (fun _ => rfl), bind_storedCollection (fun _ => rfl)]
  have hbalance (key : StringKey Rat) : (key.map Stored.balance).bind Stored.balance? = key :=
    bind_stored (fun _ => rfl) key
  simp only [hbalance]

/-- Databases that agree under the names of a pair load the same keys. -/
theorem load_congr {ks ks' : Keyspace} {pair pair' : Pair}
    (h : ∀ key, ks.lookup (keyName pair key) = ks'.lookup (keyName pair' key)) :
    ks.load pair = ks'.load pair' := by
  unfold load
  simp only [h]

/-- Writing one pair leaves the keys of a pair with other names. -/
theorem load_store_of_ne {pair pair' : Pair} (h : ∀ key key', keyName pair key ≠ keyName pair' key')
    (ks : Keyspace) (s : PairState ReservationId) :
    (ks.store pair s).load pair' = ks.load pair' := by
  refine load_congr fun key' => ?_
  unfold store
  dsimp only
  split
  next key hlocate => exact absurd (keyName_of_locate hlocate).symm (h key key')
  next => rfl

/-- After a pair is written any pair loads either what was written or what it loaded
before. -/
theorem load_store_or (ks : Keyspace) (pair pair' : Pair) (s : PairState ReservationId) :
    (ks.store pair s).load pair' = s ∨ (ks.store pair s).load pair' = ks.load pair' := by
  by_cases hjoin : join (unit '|') pair' = join (unit '|') pair
  · left
    have hsame : (ks.store pair s).load pair' = (ks.store pair s).load pair :=
      load_congr fun key => by rw [keyName_eq_keyName_iff.mpr ⟨hjoin, rfl⟩]
    rw [hsame, load_store]
  · right
    refine load_store_of_ne ?_ ks s
    intro key key' hname
    exact hjoin (keyName_eq_keyName_iff.mp hname).1.symm

end Keyspace

/-! ## Calls on the database -/

/-- A call for a pair. -/
abbrev PairCall := Pair × Request ReservationId

/-- The database a call leaves. -/
def serve (ks : Keyspace) (call : PairCall) : Keyspace :=
  ks.store call.1 (stepAlive (ks.load call.1) call.2)

/-- What the caller is answered. -/
def answer (ks : Keyspace) (call : PairCall) : Reply :=
  (handle ((ks.load call.1).purge call.2.clock) call.2).2

/-- The answers a pair gets in a run of calls. -/
def answers (pair : Pair) : Keyspace → List PairCall → List Reply
  | _, [] => []
  | ks, call :: calls =>
      if call.1 = pair then answer ks call :: answers pair (serve ks call) calls
      else answers pair (serve ks call) calls

end RateLimiter.Admission
