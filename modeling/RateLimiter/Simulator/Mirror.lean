import RateLimiter.Admission.Untimed
import RateLimiter.Simulator.Page

/-!
# The simulator beside the scripts

The page and the server are given the same calls, under names of reservations that may
differ.  The page keeps its maps in the order of insertion where the server keeps scores,
`null` where the server has no field, and a full balance where the server has no key; what
each of these has in common with the other is a relation here.
-/

namespace RateLimiter.Simulator

open RateLimiter.Redis RateLimiter.Javascript RateLimiter.Foundations RateLimiter.Admission

/-! ## Maps -/

section Maps

variable {Rid : Type} [LinearOrder Rid] {ν : Type}

/-- The collection holds what the map does, under the other names. -/
structure MirrorsMap (name : JsString → Rid) (m : JsMap JsString ν) (c : Collection Rid ν) :
    Prop where
  get : ∀ id, c.get (name id) = m.get id
  named : ∀ rid v, c.get rid = some v → ∃ id, name id = rid

namespace MirrorsMap

variable {name : JsString → Rid} {m m' : JsMap JsString ν} {c c' : Collection Rid ν}

theorem empty (name : JsString → Rid) : MirrorsMap name (.empty : JsMap JsString ν) .absent :=
  ⟨fun _ => rfl, fun _ _ h => by cases h⟩

/-- Where both lose the same entries they stay the same. -/
theorem without (h : MirrorsMap name m c) (gone : JsString → Prop) (gone' : Rid → Prop)
    [DecidablePred gone] [DecidablePred gone'] (hgone : ∀ id, gone' (name id) ↔ gone id)
    (hm : ∀ id, m'.get id = if gone id then none else m.get id)
    (hc : ∀ rid, c'.get rid = if gone' rid then none else c.get rid) :
    MirrorsMap name m' c' := by
  constructor
  · intro id
    rw [hm, hc, h.get]
    by_cases hid : gone id
    · rw [if_pos hid, if_pos ((hgone id).mpr hid)]
    · rw [if_neg hid, if_neg (mt (hgone id).mp hid)]
  · intro rid v hv
    rw [hc] at hv
    split at hv
    · cases hv
    · exact h.named rid v hv

variable (hname : Function.Injective name)

include hname

theorem delete (h : MirrorsMap name m c) (id : JsString) :
    MirrorsMap name (m.delete id) (c.del (name id)) := by
  refine h.without (fun id' => id' = id) (fun rid => rid = name id)
    (fun _ => hname.eq_iff) ?_ ?_
  · intro id'
    split
    next heq => rw [heq, JsMap.get_delete]
    next hne => exact JsMap.get_delete_of_ne hne m
  · intro rid
    split
    next heq => rw [heq, Collection.get_del]
    next hne => exact Collection.get_del_of_ne hne c

theorem set (h : MirrorsMap name m c) (id : JsString) (v : ν) :
    MirrorsMap name (m.set id v) (c.put (name id) v) := by
  constructor
  · intro id'
    by_cases heq : id' = id
    · rw [heq, JsMap.get_set, Collection.get_put]
    · rw [JsMap.get_set_of_ne heq, Collection.get_put_of_ne (hname.ne heq)]
      exact h.get id'
  · intro rid w hw
    by_cases heq : rid = name id
    · exact ⟨id, heq.symm⟩
    · rw [Collection.get_put_of_ne heq] at hw
      exact h.named rid w hw

/-- The keys of the one are the keys of the other. -/
theorem keys_perm (h : MirrorsMap name m c) :
    ((m.entries.map Prod.fst).map name).Perm c.members.entries.keys := by
  refine (List.perm_ext_iff_of_nodup (m.nodup.map hname) c.members.nodupKeys).mpr ?_
  intro rid
  have hkeys : rid ∈ c.members.entries.keys ↔ ∃ v, c.get rid = some v := by
    rw [← Option.isSome_iff_exists]
    exact AList.lookup_isSome.symm
  rw [hkeys, List.mem_map]
  constructor
  · rintro ⟨id, hid, rfl⟩
    cases hget : m.get id with
    | none => exact absurd hid (JsMap.get_eq_none.mp hget)
    | some v => exact ⟨v, by rw [h.get, hget]⟩
  · rintro ⟨v, hv⟩
    obtain ⟨id, rfl⟩ := h.named rid v hv
    refine ⟨id, ?_, rfl⟩
    by_contra habsent
    rw [h.get, JsMap.get_eq_none.mpr habsent] at hv
    cases hv

theorem size_eq (h : MirrorsMap name m c) : m.size = c.card := by
  have hlength := (h.keys_perm hname).length_eq
  rw [List.length_map, List.length_map] at hlength
  exact hlength.trans (List.length_map _)

end MirrorsMap

end Maps

/-! ## The sweep -/

section Sweep

theorem nodup_expired (t : Rat) (leases : JsMap JsString Rat) : (expired t leases).Nodup := by
  have hfilter : ((leases.entries.filter fun e => e.2 ≤ t).map Prod.fst).Nodup :=
    leases.nodup.sublist (List.filter_sublist.map _)
  exact hfilter.sublist ((List.take_sublist _ _).map _)

/-- While there are no more leases than a sweep takes, it lists all that are over. -/
theorem mem_expired {t : Rat} {leases : JsMap JsString Rat} (hfew : leases.size ≤ reclaimBatch)
    {id : JsString} :
    id ∈ expired t leases ↔ ∃ expiry, leases.get id = some expiry ∧ expiry ≤ t := by
  have hlength : (leases.entries.filter fun e => e.2 ≤ t).length ≤ reclaimBatch :=
    (List.length_filter_le _ _).trans hfew
  unfold expired
  rw [List.take_of_length_le hlength, List.mem_map]
  constructor
  · rintro ⟨⟨id', expiry⟩, hmem, rfl⟩
    obtain ⟨hentry, hover⟩ := List.mem_filter.mp hmem
    exact ⟨expiry, JsMap.get_eq_some.mpr hentry, by simpa using hover⟩
  · rintro ⟨expiry, hget, hover⟩
    refine ⟨(id, expiry), List.mem_filter.mpr ⟨JsMap.get_eq_some.mp hget, ?_⟩, rfl⟩
    simpa using hover

theorem sweepOne_lease (num : Arithmetic) (swept : Sweep) (id id' : JsString) :
    (sweepOne num swept id).leases.get id' =
      if id' = id then none else swept.leases.get id' := by
  have hleases : (sweepOne num swept id).leases = swept.leases.delete id := by
    unfold sweepOne
    split <;> rfl
  rw [hleases]
  split
  next heq => rw [heq, JsMap.get_delete]
  next hne => exact JsMap.get_delete_of_ne hne _

theorem sweepOne_held (num : Arithmetic) (swept : Sweep) (id id' : JsString) :
    (sweepOne num swept id).res.get id' = if id' = id then none else swept.res.get id' := by
  unfold sweepOne
  split
  next held hheld =>
    split
    next heq => rw [heq, JsMap.get_delete]
    next hne => exact JsMap.get_delete_of_ne hne _
  next hnone =>
    split
    next heq => rw [heq, hnone]
    next => rfl

theorem sweepOne_tokens (num : Arithmetic) (swept : Sweep) (id : JsString) :
    (sweepOne num swept id).reclaimedTokens =
      num.gather swept.reclaimedTokens (swept.res.get id) := by
  unfold sweepOne
  split
  next held hheld =>
    rw [hheld]
    rfl
  next hnone =>
    rw [hnone]
    rfl

section Page

variable (num : Arithmetic) (t : Rat) (s : PageState)

theorem sweep_lease (id : JsString) :
    (sweep num t s).leases.get id = if id ∈ expired t s.leases then none else s.leases.get id :=
  foldl_taken (fun (swept : Sweep) id => swept.leases.get id) (sweepOne_lease num) _ _ id

theorem sweep_held (id : JsString) :
    (sweep num t s).res.get id = if id ∈ expired t s.leases then none else s.res.get id :=
  foldl_taken (fun (swept : Sweep) id => swept.res.get id) (sweepOne_held num) _ _ id

theorem sweep_tokens :
    (sweep num t s).reclaimedTokens =
      ((expired t s.leases).map fun id => s.res.get id).foldl num.gather 0 :=
  foldl_folded (fun (swept : Sweep) id => swept.res.get id) Sweep.reclaimedTokens num.gather
    (sweepOne_held num) (sweepOne_tokens num) (nodup_expired t s.leases) ⟨s.leases, s.res, 0, 0⟩

end Page

/-- Every hold is a whole number of tokens, and not too large a one. -/
def Counted (res : JsMap JsString Rat) : Prop :=
  ∀ id held, res.get id = some held → ∃ n : Nat, n < 10 ^ 14 ∧ held = n

theorem Counted.set {res : JsMap JsString Rat} (h : Counted res) {id : JsString} {held : Rat}
    (hheld : ∃ n : Nat, n < 10 ^ 14 ∧ held = n) : Counted (res.set id held) := by
  intro id' held' hget
  by_cases hid : id' = id
  · rw [hid, JsMap.get_set] at hget
    rwa [← Option.some.inj hget]
  · rw [JsMap.get_set_of_ne hid] at hget
    exact h id' held' hget

theorem Counted.delete {res : JsMap JsString Rat} (h : Counted res) (id : JsString) :
    Counted (res.delete id) := by
  intro id' held' hget
  by_cases hid : id' = id
  · rw [hid, JsMap.get_delete] at hget
    cases hget
  · rw [JsMap.get_delete_of_ne hid] at hget
    exact h id' held' hget

/-- What a sweep leaves is still counted. -/
theorem Counted.sweep {s : PageState} (h : Counted s.res) (num : Arithmetic) (t : Rat) :
    Counted (sweep num t s).res := by
  intro id held hheld
  rw [sweep_held] at hheld
  split at hheld
  · cases hheld
  · exact h id held hheld

variable {num : Arithmetic} {t : Rat} {s : PageState} {Rid : Type} [LinearOrder Rid]
  {name : JsString → Rid} {r : Untimed.State Rid}

/-- Both sweeps list the same leases, in whatever order. -/
theorem expired_perm (hname : Function.Injective name)
    (hleases : MirrorsMap name s.leases r.leases) (hfew : r.leases.card ≤ reclaimBatch) :
    ((expired t s.leases).map name).Perm (Untimed.expired t reclaimBatch r.leases) := by
  have hsize : s.leases.size ≤ reclaimBatch := (hleases.size_eq hname).trans_le hfew
  refine (List.perm_ext_iff_of_nodup ((nodup_expired t s.leases).map hname)
    (Untimed.nodup_expired t reclaimBatch r.leases)).mpr ?_
  intro rid
  rw [List.mem_map, Untimed.mem_expired hfew]
  constructor
  · rintro ⟨id, hid, rfl⟩
    obtain ⟨expiry, hget, hover⟩ := (mem_expired hsize).mp hid
    exact ⟨expiry, (hleases.get id).trans hget, hover⟩
  · rintro ⟨deadline, hget, hdue⟩
    obtain ⟨id, rfl⟩ := hleases.named rid deadline hget
    rw [hleases.get] at hget
    exact ⟨id, (mem_expired hsize).mpr ⟨deadline, hget, hdue⟩, rfl⟩

/-- What is paid back for a batch of counted holds is their sum. -/
theorem foldl_gather_holds {κ : Type} (hnum : num.Faithful) {held : κ → Option Rat}
    (hcounted : ∀ k h, held k = some h → ∃ n : Nat, n < 10 ^ 14 ∧ h = n) {ids : List κ}
    (hfew : ids.length ≤ reclaimBatch) :
    (ids.map held).foldl num.gather 0 = (ids.map fun k => (held k).getD 0).sum := by
  have hcounts : ∀ h, some h ∈ ids.map held → ∃ n : Nat, n < 10 ^ 14 ∧ h = n := by
    intro h hmem
    obtain ⟨k, -, hk⟩ := List.mem_map.mp hmem
    exact hcounted k h hk
  have hroom : 0 + (ids.map held).length * 10 ^ 14 ≤ 2 ^ 53 := by
    rw [List.length_map, zero_add]
    exact (Nat.mul_le_mul_right _ hfew).trans (by decide)
  have hsum := hnum.foldl_gather (ids.map held) hcounts 0 hroom
  rw [Nat.cast_zero, zero_add, List.map_map] at hsum
  exact hsum

/-- Both sweeps leave the same leases and holds and pay back the same tokens. -/
theorem sweep_mirrors (hnum : num.Faithful) (hname : Function.Injective name)
    (hleases : MirrorsMap name s.leases r.leases) (hholds : MirrorsMap name s.res r.reservations)
    (hcounted : Counted s.res) (hfew : r.leases.card ≤ reclaimBatch) :
    MirrorsMap name (sweep num t s).leases (Untimed.reclaim num t reclaimBatch r).leases ∧
      MirrorsMap name (sweep num t s).res (Untimed.reclaim num t reclaimBatch r).reservations ∧
      (Untimed.reclaim num t reclaimBatch r).tokens = (sweep num t s).reclaimedTokens := by
  have hperm := expired_perm (t := t) hname hleases hfew
  have hsame : ∀ id, name id ∈ Untimed.expired t reclaimBatch r.leases ↔
      id ∈ expired t s.leases := by
    intro id
    rw [← hperm.mem_iff, List.mem_map_of_injective hname]
  refine ⟨hleases.without _ _ hsame (sweep_lease num t s) (Untimed.reclaim_lease num t _ r),
    hholds.without _ _ hsame (sweep_held num t s) (Untimed.reclaim_hold num t _ r), ?_⟩
  have hstored : ∀ rid held, r.reservations.get rid = some held →
      ∃ n : Nat, n < 10 ^ 14 ∧ held = n := by
    intro rid held hheld
    obtain ⟨id, rfl⟩ := hholds.named rid held hheld
    rw [hholds.get] at hheld
    exact hcounted id held hheld
  have hpage : (expired t s.leases).length ≤ reclaimBatch := by
    unfold expired
    rw [List.length_map]
    exact List.length_take_le _ _
  have hserver : (Untimed.expired t reclaimBatch r.leases).length ≤ reclaimBatch := by
    rw [← hperm.length_eq, List.length_map]
    exact hpage
  calc (Untimed.reclaim num t reclaimBatch r).tokens
      = ((Untimed.expired t reclaimBatch r.leases).map
          fun rid => (r.reservations.get rid).getD 0).sum := by
        rw [Untimed.reclaim_tokens]
        exact foldl_gather_holds hnum hstored hserver
    _ = (((expired t s.leases).map name).map
          fun rid => (r.reservations.get rid).getD 0).sum := (hperm.map _).sum_eq.symm
    _ = ((expired t s.leases).map fun id => (s.res.get id).getD 0).sum := by
        rw [List.map_map]
        refine congrArg _ (List.map_congr_left fun id _ => ?_)
        exact congrArg (fun held => held.getD 0) (hholds.get id)
    _ = (sweep num t s).reclaimedTokens := by
        rw [sweep_tokens]
        exact (foldl_gather_holds hnum hcounted hpage).symm

end Sweep

/-! ## Balances -/

/-- The keys of a balance hold it with its time, or are not there while it is full. -/
def MirrorsBalance (capacity bal ts : Rat) (stored storedTs : Option Rat) : Prop :=
  (stored = some bal ∧ storedTs = some ts) ∨ (stored = none ∧ storedTs = none ∧ bal = capacity)

/-- The page and the server read the same balance. -/
theorem MirrorsBalance.refill_eq {num : Arithmetic} (hnum : num.Faithful) {capacity : Nat}
    (hcapacity : capacity < 10 ^ 14) {bal ts rate : Rat} {stored storedTs : Option Rat}
    (h : MirrorsBalance capacity bal ts stored storedTs) (hrate : 0 ≤ rate) (t : Rat) :
    Untimed.refill num t stored storedTs capacity rate = refill num bal ts capacity rate t := by
  rcases h with ⟨rfl, rfl⟩ | ⟨rfl, rfl, rfl⟩
  · rfl
  · have hseconds : 0 ≤ num.rnd (max 0 (num.rnd (t - ts)) / 1000) :=
      hnum.rnd_nonneg (div_nonneg (le_max_left _ _) (by norm_num))
    have hearned := hnum.rnd_nonneg (mul_nonneg hseconds hrate)
    refine (min_eq_right ?_).symm
    exact hnum.natCast_le_rnd (hcapacity.trans (by decide)) (le_add_of_nonneg_right hearned)

/-! ## The estimate -/

/-- `observedOutputTokens`: what the service hands its estimator. -/
def observedOutputTokens {Rid : Type} (p : Limits) (s : Untimed.State Rid) : Rat :=
  match p.reservationMode with
  | .worstCase => 0
  | .adaptive => (s.stats.get .outTokens).getD 0

theorem estimate_eq {Rid : Type} (num : Arithmetic) (p : Limits) (s : Untimed.State Rid)
    {outTokens : Option Rat} (h : s.stats.get .outTokens = outTokens)
    (promptTokens maxOutputTokens : Rat) :
    estimate num p outTokens promptTokens maxOutputTokens =
      Untimed.estimateReservation num p promptTokens maxOutputTokens
        (observedOutputTokens p s) := by
  unfold estimate Untimed.estimateReservation observedOutputTokens
  rw [h]
  cases p.reservationMode with
  | worstCase => rfl
  | adaptive =>
      cases outTokens with
      | none => rfl
      | some ewma =>
          have hcold : ewma = 0 ∨ ewma ≤ 0 ↔ ewma ≤ 0 := or_iff_right_of_imp le_of_eq
          simp only [hcold, Option.getD_some]

/-- The page holds a whole number of tokens. -/
theorem exists_estimate_natCast {num : Arithmetic} (hnum : num.Faithful) (p : Limits)
    (outTokens : Option Rat) (promptTokens maxOutputTokens : Nat) :
    ∃ n : Nat, (estimate num p outTokens promptTokens maxOutputTokens).reserveTokens = n := by
  have hsum : ∀ output : Nat, ∃ n : Nat, num.rnd ((promptTokens : Rat) + output) = n := by
    intro output
    have hnonneg := hnum.rnd_nonneg (Nat.cast_nonneg (α := Rat) (promptTokens + output))
    obtain ⟨n, hn⟩ := hnum.rnd_whole ((promptTokens + output : Nat) : Int)
    push_cast at hn hnonneg
    rw [hn] at hnonneg
    obtain ⟨k, rfl⟩ := Int.eq_ofNat_of_zero_le (by exact_mod_cast hnonneg : 0 ≤ n)
    exact ⟨k, hn⟩
  unfold estimate
  cases p.reservationMode with
  | worstCase => exact hsum maxOutputTokens
  | adaptive =>
      cases outTokens with
      | none => exact hsum maxOutputTokens
      | some ewma =>
          dsimp only
          split
          next => exact hsum maxOutputTokens
          next =>
            have hone : 0 ≤ max ⌈num.rnd (ewma * p.reservationSafetyFactor)⌉ 1 :=
              le_max_of_le_right zero_le_one
            obtain ⟨projected, hprojected⟩ := Int.eq_ofNat_of_zero_le hone
            obtain ⟨n, hn⟩ := hsum (min maxOutputTokens projected)
            refine ⟨n, ?_⟩
            rw [← hn, hprojected]
            push_cast
            rfl

end RateLimiter.Simulator
