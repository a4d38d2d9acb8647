import RateLimiter.Limiter.Database

/-!
# Resets

A reset deletes the keys of a bucket or of a log.  Of a counter it deletes the current
window and the one before, found by arithmetic and not by a search of the database: these
are the two that can still be consulted, by a process whose clock is at most one window
behind, as long as the caller says which length of window it has configured.  After a reset
a key is as if nothing had ever been asked of it.
-/

namespace RateLimiter.Limiter

open RateLimiter.Redis RateLimiter.Javascript RateLimiter.Foundations

/-- The command is made by a clock that is not ahead of `t`, for windows of this length. -/
def Command.Until (t windowSeconds : Nat) : Command → Prop
  | .check origin _ _ q _ => q.windowSeconds = windowSeconds ∧ origin.now ≤ t
  | .reset now _ _ length | .getStats _ now _ _ length => length = windowSeconds ∧ now ≤ t
  | .admission _ => True

/-- The command is made by a clock that is at most one window behind `t`, for windows of this
length; a further reset may come from any clock. -/
def Command.Since (t windowSeconds : Nat) : Command → Prop
  | .check origin _ _ q _ =>
      q.windowSeconds = windowSeconds ∧ t ≤ origin.now + windowSeconds * 1000
  | .getStats _ now _ _ length => length = windowSeconds ∧ t ≤ now + windowSeconds * 1000
  | .reset _ _ _ _ => True
  | .admission _ => True

theorem windowOf_mono (windowSeconds : Nat) {now t : Nat} (h : now ≤ t) :
    windowOf now windowSeconds ≤ windowOf t windowSeconds :=
  Int.ofNat_le.mpr (Nat.div_le_div_right h)

/-- A clock that is at most one window behind is in the window before, or a later one. -/
theorem windowOf_behind {windowSeconds t now : Nat} (hpos : 0 < windowSeconds)
    (h : t ≤ now + windowSeconds * 1000) :
    windowOf t windowSeconds - 1 ≤ windowOf now windowSeconds := by
  have hlater : windowOf t windowSeconds ≤ windowOf (now + windowSeconds * 1000) windowSeconds :=
    windowOf_mono windowSeconds h
  have hnext : windowOf (now + windowSeconds * 1000) windowSeconds =
      windowOf now windowSeconds + 1 := by
    unfold windowOf FixedWindowAlgorithm.windowIndex
    rw [Nat.add_div_right _ (by omega)]
    rfl
  omega

section Reset

variable {algorithm : RateLimitAlgorithm} {key : JsString} {t windowSeconds : Nat}

/-- Commands for another key or algorithm stay outside the names of this one. -/
theorem outside_of_client_ne {command : Command}
    (hne : command.client ≠ .limiter algorithm key) (windows : Set Int) :
    ∀ name ∈ command.footprint, name ∉ namesOf key windows algorithm := by
  have happart : command.client.Apart (.limiter algorithm key) := by
    cases command.client <;> trivial
  intro name hname hkey
  exact Client.names_apart hne happart name (command.footprint_subset hname)
    (namesOf_mono key (Set.subset_univ windows) algorithm hkey)

/-- What a command for the key reads and writes lies in the windows it is made for. -/
theorem footprint_subset_namesOf {command : Command} {windows : Set Int}
    (hclient : command.client = .limiter algorithm key)
    (hcheck : ∀ origin q cost, command = .check origin algorithm key q cost →
      windowOf origin.now q.windowSeconds ∈ windows)
    (hstats : ∀ clock now length, command = .getStats clock now algorithm key length →
      windowOf now length ∈ windows)
    (hreset : ∀ now length, command = .reset now algorithm key length →
      windowOf now length ∈ windows ∧ windowOf now length - 1 ∈ windows) :
    command.footprint ⊆ namesOf key windows algorithm := by
  cases command with
  | check origin algorithm' key' q cost =>
      cases hclient
      refine namesOf_mono key ?_ algorithm
      exact Set.singleton_subset_iff.mpr (hcheck origin q cost rfl)
  | getStats clock now algorithm' key' length =>
      cases hclient
      refine namesOf_mono key ?_ algorithm
      exact Set.singleton_subset_iff.mpr (hstats clock now length rfl)
  | reset now algorithm' key' length =>
      cases hclient
      refine namesOf_mono key ?_ algorithm
      obtain ⟨hcurrent, hprevious⟩ := hreset now length rfl
      exact Set.insert_subset hcurrent (Set.singleton_subset_iff.mpr hprevious)
  | admission call => cases hclient

/-- Commands up to `t` leave no counter of a later window. -/
theorem outside_later {command : Command} (hclient : command.client = .limiter .fixedWindow key)
    (huntil : command.Until t windowSeconds) :
    ∀ name ∈ command.footprint,
      name ∉ namesOf key {index | windowOf t windowSeconds < index} .fixedWindow := by
  have hsub : command.footprint ⊆
      namesOf key {index | index ≤ windowOf t windowSeconds} .fixedWindow := by
    refine footprint_subset_namesOf hclient ?_ ?_ ?_
    · rintro origin q cost rfl
      obtain ⟨rfl, hle⟩ := huntil
      exact windowOf_mono _ hle
    · rintro clock now length rfl
      obtain ⟨rfl, hle⟩ := huntil
      exact windowOf_mono _ hle
    · rintro now length rfl
      obtain ⟨rfl, hle⟩ := huntil
      have hmono := windowOf_mono length hle
      exact ⟨hmono, (sub_le_self _ zero_le_one).trans hmono⟩
  intro name hname hlater
  obtain ⟨index, hindex, rfl⟩ := hsub hname
  obtain ⟨later, hlt, hsame⟩ := hlater
  have hle : index ≤ windowOf t windowSeconds := hindex
  have hlt : windowOf t windowSeconds < later := hlt
  have hwindow := (LimiterKey.counter.inj (LimiterKey.name_injective hsame)).2
  omega

/-- A reset is answered alike by any two databases, and leaves them alike wherever they are. -/
theorem reset_alike (now : Nat) (region : Set JsString) {db db' : Database}
    (hagree : Set.EqOn db.lookup db'.lookup region) :
    Database.answer db (.reset now algorithm key windowSeconds) =
        Database.answer db' (.reset now algorithm key windowSeconds) ∧
      Set.EqOn (Database.step db (.reset now algorithm key windowSeconds)).lookup
        (Database.step db' (.reset now algorithm key windowSeconds)).lookup region := by
  classical
  constructor
  · cases algorithm <;> rfl
  · intro name hname
    show (db.reset now key windowSeconds algorithm).1.lookup name =
      (db'.reset now key windowSeconds algorithm).1.lookup name
    rw [Database.lookup_reset, Database.lookup_reset, hagree hname]

/-- Checks and reads from `t` on consult no counter older than the window before. -/
theorem footprint_since (hpos : 0 < windowSeconds) {command : Command}
    (hclient : command.client = .limiter .fixedWindow key)
    (hsince : command.Since t windowSeconds)
    (hreset : ∀ now length, command ≠ .reset now .fixedWindow key length) :
    command.footprint ⊆
      namesOf key {index | windowOf t windowSeconds - 1 ≤ index} .fixedWindow := by
  refine footprint_subset_namesOf hclient ?_ ?_ ?_
  · rintro origin q cost rfl
    obtain ⟨rfl, hle⟩ := hsince
    exact windowOf_behind hpos hle
  · rintro clock now length rfl
    obtain ⟨rfl, hle⟩ := hsince
    exact windowOf_behind hpos hle
  · rintro now length rfl
    exact absurd rfl (hreset now length)

/-- The windows of the key that matter from a reset at `t` on. -/
def windowsFrom (t windowSeconds : Nat) : RateLimitAlgorithm → Set Int
  | .fixedWindow => {index | windowOf t windowSeconds - 1 ≤ index}
  | _ => Set.univ

/-- After a reset nothing is stored under a name of the key that still matters. -/
theorem reset_eqOn (before : List Command)
    (huntil : algorithm = .fixedWindow → ∀ command ∈ before,
      command.client = .limiter algorithm key → command.Until t windowSeconds) :
    Set.EqOn
      (run Database.step .empty (before ++ [.reset t algorithm key windowSeconds])).lookup
      Database.empty.lookup (namesOf key (windowsFrom t windowSeconds algorithm) algorithm) := by
  classical
  intro name hname
  rw [run_append]
  refine (Database.lookup_reset t key windowSeconds algorithm name).trans ?_
  split
  next => rfl
  next hkept =>
    -- what the reset has not deleted is the counter of a later window, and there is none
    cases algorithm with
    | fixedWindow =>
        obtain ⟨index, hindex, rfl⟩ := hname
        have hlater : windowOf t windowSeconds < index := by
          have hcurrent : index ≠ windowOf t windowSeconds :=
            fun h => hkept ⟨index, Or.inl h, rfl⟩
          have hprevious : index ≠ windowOf t windowSeconds - 1 :=
            fun h => hkept ⟨index, Or.inr h, rfl⟩
          have hfrom : windowOf t windowSeconds - 1 ≤ index := hindex
          omega
        refine Database.confined.run_outside
          (namesOf key {index | windowOf t windowSeconds < index} .fixedWindow)
          ?_ Database.empty ⟨index, hlater, rfl⟩
        intro command hmem
        by_cases hclient : command.client = .limiter .fixedWindow key
        · exact outside_later hclient (huntil rfl command hmem hclient)
        · exact outside_of_client_ne hclient _
    | tokenBucket => exact absurd hname hkept
    | slidingWindow => exact absurd hname hkept
    | leakyBucket => cases hname

/-- What is asked of the key after the reset is answered alike by databases that agree where it
matters, and leaves them so. -/
theorem since_alike (hpos : 0 < windowSeconds) {command : Command}
    (hclient : command.client = .limiter algorithm key)
    (hsince : algorithm = .fixedWindow → command.Since t windowSeconds) {db db' : Database}
    (hagree : Set.EqOn db.lookup db'.lookup
      (namesOf key (windowsFrom t windowSeconds algorithm) algorithm)) :
    Database.answer db command = Database.answer db' command ∧
      Set.EqOn (Database.step db command).lookup (Database.step db' command).lookup
        (namesOf key (windowsFrom t windowSeconds algorithm) algorithm) := by
  by_cases hreset : ∃ now length, command = .reset now algorithm key length
  · obtain ⟨now, length, rfl⟩ := hreset
    exact reset_alike now _ hagree
  · have hother : ∀ now length, command ≠ .reset now algorithm key length :=
      fun now length heq => hreset ⟨now, length, heq⟩
    have hinside : command.footprint ⊆
        namesOf key (windowsFrom t windowSeconds algorithm) algorithm := by
      cases algorithm with
      | fixedWindow => exact footprint_since hpos hclient (hsince rfl) hother
      | _ =>
          have hsub := command.footprint_subset
          rw [hclient] at hsub
          exact hsub
    exact ⟨Database.confined.out_congr db db' command (hagree.mono hinside),
      Database.confined.step_eqOn hinside hagree⟩

end Reset

end RateLimiter.Limiter
