import RateLimiter.Foundations.FirstMatch
import RateLimiter.Foundations.Footprints
import RateLimiter.Foundations.KeyedRows
import RateLimiter.Limiter.RuleRoutes

/-!
# The catalogue of rules

What the rule routes amount to: a catalogue of rules under ids, with no name twice.  The
routes change it as they say, and nothing else does; every lookup is answered from it, though
the engine keeps its rules for a minute.
-/

namespace RateLimiter.Limiter

open RateLimiter.Foundations RateLimiter.Javascript RateLimiter.Gateway

theorem RuleRow.Precedes.refl (row : RuleRow) : row.Precedes row := Or.inr ⟨rfl, le_rfl⟩

theorem RuleRow.Precedes.trans {a b c : RuleRow} (hab : a.Precedes b) (hbc : b.Precedes c) :
    a.Precedes c := by
  unfold RuleRow.Precedes at *
  omega

theorem RuleRow.Precedes.total (a b : RuleRow) : a.Precedes b ∨ b.Precedes a := by
  unfold RuleRow.Precedes
  omega

/-- A row after an update. -/
def RuleRow.updated (now : Nat) (body : UpdateRuleRequest) (row : RuleRow) : RuleRow :=
  RuleRepository.touched now (row.overwritten body)

/-- A row after it has been enabled or disabled. -/
def RuleRow.switched (now : Nat) (enabled : Bool) (row : RuleRow) : RuleRow :=
  RuleRepository.touched now { row with enabled := enabled }

/-- What the routes keep: rules under ids. -/
abbrev Catalogue := JsString → Option RuleRow

namespace Catalogue

/-- The catalogue in a table. -/
def of (t : RuleTable) : Catalogue := rowAt RuleRow.id t.rows

/-- No rule under another id has the name. -/
def Free (c : Catalogue) (id name : JsString) : Prop :=
  ∀ other row, c other = some row → other ≠ id → row.name ≠ name

section Spec

variable (config : AuthConfig) (uuid : JsString → Option JsString)
  (joi : RuleRequest → JsString) (regExp : JsString → Option (JsString → Bool))

open RuleRoutes

/-- A request about the rule under an id, when there is one. -/
def about (c : Catalogue) (id : JsString)
    (change : JsString → RuleRow → Catalogue × Response RuleBody) :
    Catalogue × Response RuleBody :=
  match uuid id with
  | some key =>
      match c key with
      | some row => change key row
      | none => (c, (notFound id).handled)
  | none => (c, RouteError.other.handled)

open Classical in
/-- A rule in place of what is under an id, unless another has its name. -/
noncomputable def put (c : Catalogue) (id : JsString) (row : RuleRow) (status : Nat)
    (name : JsString) : Catalogue × Response RuleBody :=
  if c.Free id row.name then
    (Function.update c id (some row), .json status (.data (mapRowToRule row)) none)
  else (c, (taken name).handled)

/-- What a request does that is let through and finds the database. -/
noncomputable def change (c : Catalogue) (call : RuleCall) : Catalogue × Response RuleBody :=
  match call.request with
  | .create body =>
      match c call.randomUUID with
      | none =>
          c.put call.randomUUID (createdRow call.randomUUID body call.now) 201 body.name
      | some _ => (c, (taken body.name).handled)
  | .findById id => c.about uuid id fun _ row => (c, .json 200 (.data (mapRowToRule row)) none)
  | .update id body =>
      c.about uuid id fun key row =>
        c.put key (row.updated call.now body) 200 (body.name.getD (js "undefined"))
  | .delete id =>
      c.about uuid id fun key _ =>
        (Function.update c key none, .json 200 (.message (js "Rule deleted: " ++ id)) none)
  | .setEnabled id enabled =>
      c.about uuid id fun key row =>
        (Function.update c key (some (row.switched call.now enabled)),
          .json 200 (.message
            ((if enabled then js "Rule enabled: " else js "Rule disabled: ") ++ id)) none)
  | .invalidateCache => (c, .json 200 (.message (js "Rule cache invalidated")) none)

/-- The validator lets a body through. -/
def Valid : RuleRequest → Prop
  | .create body => createRuleSchema body = true
  | .update _ body => updateRuleSchema body = true
  | _ => True

open Classical in
/-- What a request does: without the key of the control plane it is refused, and without a
database only the cache can be invalidated. -/
noncomputable def serve (c : Catalogue) (call : RuleCall) : Catalogue × Response RuleBody :=
  if config.Authorises call.headers then
    if Valid call.request then
      if call.reachable = true ∨ call.request = .invalidateCache then c.change uuid call
      else (c, RouteError.other.handled)
    else (c, (refused joi call.request).handled)
  else (c, config.refusal)

/-- The catalogue after a request; a lookup changes nothing. -/
noncomputable def step (c : Catalogue) : RuleEvent → Catalogue
  | .request call => (c.serve config uuid joi call).1
  | .lookup _ _ _ => c

/-- A request falls under a rule: an enabled one that matches, before which there is no
other; or under none, when no enabled one matches. -/
def FallsUnder (c : Catalogue) (context : RuleMatchContext) : Option RateLimitRule → Prop
  | some rule =>
      ∃ id row, c id = some row ∧ row.enabled = true ∧
        isRuleMatch regExp row.rule context = true ∧ rule = row.rule ∧
        ∀ id' other, c id' = some other → other.enabled = true →
          isRuleMatch regExp other.rule context = true → row.Precedes other
  | none =>
      ∀ id row, c id = some row → row.enabled = true →
        isRuleMatch regExp row.rule context = false

/-- What is answered from a catalogue. -/
def Answers (c : Catalogue) : RuleEvent → RuleAnswer → Prop
  | .request call, answer => answer = .sent (c.serve config uuid joi call).2
  | .lookup _ reachable context, answer =>
      (reachable = false ∧ answer = .thrown) ∨
        ∃ rule, answer = .found rule ∧ c.FallsUnder regExp context rule

end Spec

/-! ## The table as a catalogue -/

section Table

variable {t : RuleTable} {id : JsString}

theorem isKey_text (id : JsString) (row : RuleRow) :
    rateLimitRules.isKey (.text id) row = decide (row.id = id) := by
  have hkey : rateLimitRules.isKey (.text id) row = decide (RuleValue.text id = .text row.id) :=
    rfl
  rw [hkey, decide_eq_decide, RuleValue.text.injEq]
  exact eq_comm

theorem of_eq_some_iff {row : RuleRow} : of t id = some row ↔ row ∈ t.rows ∧ row.id = id :=
  rowAt_eq_some_iff t.holds.1

theorem head?_select (id : JsString) (t : RuleTable) :
    (rateLimitRules.select (.text id) t).head? = of t id := by
  unfold TableDefinition.select of rowAt
  rw [List.head?_filter]
  congr 1
  funext row
  exact isKey_text id row

theorem select_ne_nil_iff : rateLimitRules.select (.text id) t ≠ [] ↔ (of t id).isSome = true := by
  rw [← head?_select]
  cases rateLimitRules.select (.text id) t <;> simp

theorem findById_eq (id : JsString) (t : RuleTable) :
    RuleRepository.findById id t = (of t id).map mapRowToRule := by
  unfold RuleRepository.findById
  rw [head?_select]

theorem free_of_iff {name : JsString} :
    (of t).Free id name ↔ ∀ row ∈ t.rows, row.id ≠ id → row.name ≠ name := by
  constructor
  · intro hfree row hrow hid
    exact hfree row.id row (of_eq_some_iff.mpr ⟨hrow, rfl⟩) hid
  · intro hfree other row hother hid
    obtain ⟨hrow, rfl⟩ := of_eq_some_iff.mp hother
    exact hfree row hrow hid

/-- What an `UPDATE` of the row under an id makes of the rows. -/
theorem map_isKey (id : JsString) (f : RuleRow → RuleRow) (rows : List RuleRow) :
    (rows.map fun row => if rateLimitRules.isKey (.text id) row then f row else row) =
      changeAt RuleRow.id id f rows := by
  refine List.map_congr_left fun row _ => ?_
  rw [isKey_text]
  simp

/-- A changed row keeps the constraints unless another row has its name. -/
theorem constraint_changeAt_iff (t : RuleTable) (id : JsString) (f : RuleRow → RuleRow)
    (hf : ∀ row, (f row).id = row.id) :
    rateLimitRules.Constraint (changeAt RuleRow.id id f t.rows) ↔
      ∀ row, of t id = some row → (of t).Free id (f row).name := by
  have hids : ((changeAt RuleRow.id id f t.rows).map RuleRow.id).Nodup := by
    rw [map_key_changeAt hf]
    exact t.holds.1
  have hconstraint : rateLimitRules.Constraint (changeAt RuleRow.id id f t.rows) ↔
      ((changeAt RuleRow.id id f t.rows).map RuleRow.name).Nodup := and_iff_right hids
  rw [hconstraint]
  cases hfound : of t id with
  | none =>
      rw [changeAt_of_absent (rowAt_eq_none_iff.mp hfound)]
      exact iff_of_true t.holds.2 fun row hrow => by cases hrow
  | some row =>
      obtain ⟨hrow, rfl⟩ := of_eq_some_iff.mp hfound
      rw [nodup_changeAt_iff t.holds.1 t.holds.2 hrow]
      constructor
      · intro hfree row' hrow'
        cases hrow'
        exact free_of_iff.mpr hfree
      · intro hfree
        exact free_of_iff.mp (hfree row rfl)

/-- A new row keeps the constraints unless its id or its name is taken. -/
theorem constraint_append_iff {row : RuleRow} :
    rateLimitRules.Constraint (t.rows ++ [row]) ↔
      of t row.id = none ∧ (of t).Free row.id row.name := by
  have hconstraint : rateLimitRules.Constraint (t.rows ++ [row]) ↔
      ((t.rows ++ [row]).map RuleRow.id).Nodup ∧ ((t.rows ++ [row]).map RuleRow.name).Nodup :=
    Iff.rfl
  have hadd : ∀ {β : Type} (f : RuleRow → β), (t.rows.map f).Nodup →
      (((t.rows ++ [row]).map f).Nodup ↔ ∀ other ∈ t.rows, f other ≠ f row) := by
    intro β f hf
    rw [List.map_append, List.map_singleton, List.nodup_append]
    simp [hf]
  rw [hconstraint, hadd _ t.holds.1, hadd _ t.holds.2, free_of_iff]
  constructor
  · rintro ⟨hids, hnames⟩
    exact ⟨rowAt_eq_none_iff.mpr hids, fun other hother _ => hnames other hother⟩
  · rintro ⟨hid, hfree⟩
    have hids := rowAt_eq_none_iff.mp hid
    exact ⟨hids, fun other hother => hfree other hother (hids other hother)⟩

theorem update_eq_changeAt (id : JsString) (u : AcceptedUpdate) (now : Nat) (t : RuleTable) :
    RuleRepository.update id u now t =
      if h : rateLimitRules.Constraint (changeAt RuleRow.id id (RuleRow.updated now u) t.rows) then
        some (⟨_, h⟩, ((of t id).map (RuleRow.updated now u)).map mapRowToRule)
      else none := by
  have hupdate := update_eq id u now t
  rw [map_isKey id fun row => RuleRepository.touched now (row.overwritten u), List.head?_map,
    head?_select] at hupdate
  exact hupdate

/-- A change of `enabled` breaks no constraint. -/
theorem setEnabled_eq_changeAt (id : JsString) (enabled : Bool) (now : Nat) (t : RuleTable) :
    ∃ h : rateLimitRules.Constraint
        (changeAt RuleRow.id id (RuleRow.switched now enabled) t.rows),
      RuleRepository.setEnabled id enabled now t = some (⟨_, h⟩, (of t id).isSome) := by
  have hconstraint : rateLimitRules.Constraint
      (changeAt RuleRow.id id (RuleRow.switched now enabled) t.rows) := by
    refine (constraint_changeAt_iff t id (RuleRow.switched now enabled) fun _ => rfl).mpr
      fun row hrow => ?_
    -- the name stays, and no other row has it
    obtain ⟨hmem, rfl⟩ := of_eq_some_iff.mp hrow
    refine free_of_iff.mpr fun other hother hne hsame => hne ?_
    exact congrArg RuleRow.id (List.inj_on_of_nodup_map t.holds.2 hother hmem hsame)
  have hset := setEnabled_eq id enabled now t
  rw [map_isKey id fun row => RuleRepository.touched now { row with enabled := enabled }] at hset
  refine ⟨hconstraint, hset.trans ((dif_pos hconstraint).trans ?_)⟩
  congr 2
  rw [← head?_select]
  cases rateLimitRules.select (.text id) t <;> simp

theorem of_changeAt (f : RuleRow → RuleRow) (hf : ∀ row, (f row).id = row.id)
    (h : rateLimitRules.Constraint (changeAt RuleRow.id id f t.rows)) :
    of ⟨changeAt RuleRow.id id f t.rows, h⟩ = Function.update (of t) id ((of t id).map f) :=
  rowAt_changeAt hf id t.rows

theorem of_delete (id : JsString) (t : RuleTable) :
    of (RuleRepository.delete id t) = Function.update (of t) id none := by
  have hrows : (RuleRepository.delete id t).rows = t.rows.filter fun row => row.id ≠ id := by
    refine List.filter_congr fun row _ => ?_
    rw [isKey_text]
    simp
  unfold of
  rw [hrows, rowAt_filter]

end Table

/-! ## The routes keep the catalogue -/

section Simulation

open RuleRoutes

variable (config : AuthConfig) (uuid : JsString → Option JsString)
  (joi : RuleRequest → JsString)

/-- What a request leaves and is sent, seen from the catalogue. -/
def seen (out : RuleService × Response RuleBody) : Catalogue × Response RuleBody :=
  (of out.1.table, out.2)

variable {call : RuleCall} {id : JsString}

theorem create_change {body : CreateRuleRequest} (hrequest : call.request = .create body)
    (hvalid : createRuleSchema body = true) (hreachable : call.reachable = true)
    (s : RuleService) :
    seen (settle (create joi call body) s) = (of s.table).change uuid call := by
  have hcreate := create_eq call.randomUUID ⟨body, hvalid⟩ call.now s.table
  dsimp only at hcreate
  unfold change settle create
  rw [hrequest, if_pos hvalid, if_pos hreachable, hcreate]
  dsimp only
  by_cases hconstraint : rateLimitRules.Constraint
      (s.table.rows ++ [createdRow call.randomUUID body call.now])
  · obtain ⟨hid, hfree⟩ := constraint_append_iff.mp hconstraint
    have hnone : of s.table call.randomUUID = none := hid
    rw [dif_pos hconstraint, hnone]
    refine Eq.trans ?_ (if_pos hfree).symm
    exact Prod.ext (rowAt_append (rowAt_eq_none_iff.mp hid)) rfl
  · rw [dif_neg hconstraint]
    cases hid : of s.table call.randomUUID with
    | some row => rfl
    | none =>
        refine (if_neg fun hfree => hconstraint ?_).symm
        exact constraint_append_iff.mpr ⟨hid, hfree⟩

theorem findById_change (hrequest : call.request = .findById id)
    (hreachable : call.reachable = true) (s : RuleService) :
    seen (settle (findById uuid call id) s) = (of s.table).change uuid call := by
  unfold change settle findById about
  rw [hrequest, if_pos hreachable]
  dsimp only
  cases uuid id with
  | none => rfl
  | some key =>
      dsimp only
      rw [findById_eq]
      cases of s.table key <;> rfl

theorem update_change {body : UpdateRuleRequest} (hrequest : call.request = .update id body)
    (hvalid : updateRuleSchema body = true) (hreachable : call.reachable = true)
    (s : RuleService) :
    seen (settle (update uuid joi call id body) s) = (of s.table).change uuid call := by
  have hallowed := fun key : JsString =>
    constraint_changeAt_iff s.table key (RuleRow.updated call.now body) fun _ => rfl
  have hupdate := fun key => update_eq_changeAt key ⟨body, hvalid⟩ call.now s.table
  dsimp only at hupdate
  unfold change settle update about
  rw [hrequest, if_pos hvalid, if_pos hreachable]
  dsimp only
  cases uuid id with
  | none => rfl
  | some key =>
      dsimp only
      rw [hupdate key]
      by_cases hconstraint : rateLimitRules.Constraint
          (changeAt RuleRow.id key (RuleRow.updated call.now body) s.table.rows)
      · have hfree := (hallowed key).mp hconstraint
        rw [dif_pos hconstraint]
        cases hfound : of s.table key with
        | none => rfl
        | some row =>
            have hafter := of_changeAt (RuleRow.updated call.now body) (fun _ => rfl) hconstraint
            rw [hfound] at hafter
            refine Eq.trans ?_ (if_pos (hfree row hfound)).symm
            exact Prod.ext hafter rfl
      · rw [dif_neg hconstraint]
        cases hfound : of s.table key with
        | none =>
            refine absurd ((hallowed key).mpr ?_) hconstraint
            intro row hrow
            rw [hfound] at hrow
            cases hrow
        | some row =>
            refine (if_neg fun hfree => hconstraint ?_).symm
            refine (hallowed key).mpr fun row' hrow' => ?_
            rw [hfound] at hrow'
            cases hrow'
            exact hfree

theorem delete_change (hrequest : call.request = .delete id)
    (hreachable : call.reachable = true) (s : RuleService) :
    seen (settle (delete uuid call id) s) = (of s.table).change uuid call := by
  unfold change settle delete about
  rw [hrequest, if_pos hreachable]
  dsimp only
  cases uuid id with
  | none => rfl
  | some key =>
      dsimp only
      cases hfound : of s.table key with
      | none =>
          rw [if_neg fun hne => by simpa [hfound] using select_ne_nil_iff.mp hne]
          rfl
      | some row =>
          rw [if_pos (select_ne_nil_iff.mpr (by rw [hfound]; rfl))]
          exact Prod.ext (of_delete key s.table) rfl

theorem setEnabled_change {enabled : Bool} (hrequest : call.request = .setEnabled id enabled)
    (hreachable : call.reachable = true) (s : RuleService) :
    seen (settle (setEnabled uuid call id enabled) s) = (of s.table).change uuid call := by
  unfold change settle setEnabled about
  rw [hrequest, if_pos hreachable]
  dsimp only
  cases uuid id with
  | none => rfl
  | some key =>
      obtain ⟨hconstraint, hset⟩ := setEnabled_eq_changeAt key enabled call.now s.table
      have hafter := of_changeAt (RuleRow.switched call.now enabled) (fun _ => rfl) hconstraint
      dsimp only
      rw [hset]
      cases hfound : of s.table key with
      | none => rfl
      | some row =>
          rw [hfound] at hafter
          exact Prod.ext hafter rfl

/-- A route whose database does not answer fails. -/
theorem handler_unreachable (hvalid : Valid call.request) (hreachable : call.reachable = false)
    (hrequest : call.request ≠ .invalidateCache) (s : RuleService) :
    handler uuid joi call s = .error .other := by
  unfold handler
  cases hbody : call.request with
  | invalidateCache => exact absurd hbody hrequest
  | create body =>
      rw [hbody] at hvalid
      exact (if_pos hvalid).trans (if_neg (by simp [hreachable]))
  | update id body =>
      rw [hbody] at hvalid
      exact (if_pos hvalid).trans (if_neg (by simp [hreachable]))
  | findById id => exact if_neg (by simp [hreachable])
  | delete id => exact if_neg (by simp [hreachable])
  | setEnabled id enabled => exact if_neg (by simp [hreachable])

theorem handler_refused (hrefused : ¬ Valid call.request) (s : RuleService) :
    handler uuid joi call s = .error (refused joi call.request) := by
  unfold handler
  cases hbody : call.request with
  | create body =>
      rw [hbody] at hrefused
      exact if_neg hrefused
  | update id body =>
      rw [hbody] at hrefused
      exact if_neg hrefused
  | _ =>
      rw [hbody] at hrefused
      exact absurd trivial hrefused

theorem handler_change (hvalid : Valid call.request)
    (hreachable : call.reachable = true ∨ call.request = .invalidateCache) (s : RuleService) :
    seen (settle (handler uuid joi call) s) = (of s.table).change uuid call := by
  unfold handler
  cases hrequest : call.request with
  | invalidateCache =>
      unfold change
      rw [hrequest]
      rfl
  | create body =>
      rw [hrequest] at hvalid hreachable
      exact create_change uuid joi hrequest hvalid (by simpa using hreachable) s
  | findById id =>
      rw [hrequest] at hreachable
      exact findById_change uuid hrequest (by simpa using hreachable) s
  | update id body =>
      rw [hrequest] at hvalid hreachable
      exact update_change uuid joi hrequest hvalid (by simpa using hreachable) s
  | delete id =>
      rw [hrequest] at hreachable
      exact delete_change uuid hrequest (by simpa using hreachable) s
  | setEnabled id enabled =>
      rw [hrequest] at hreachable
      exact setEnabled_change uuid hrequest (by simpa using hreachable) s

/-- The routes do to the catalogue what they say. -/
theorem serve_seen (call : RuleCall) (s : RuleService) :
    seen (RuleRoutes.serve config uuid joi call s) = (of s.table).serve config uuid joi call := by
  unfold RuleRoutes.serve serve
  rcases requireControlPlaneKey_cases (β := RuleBody) config call.headers with
    ⟨hauthorised, hgate⟩ | ⟨hrefused, hgate⟩
  · rw [hgate, if_pos hauthorised]
    dsimp only
    by_cases hvalid : Valid call.request
    · rw [if_pos hvalid]
      by_cases hreachable : call.reachable = true ∨ call.request = .invalidateCache
      · rw [if_pos hreachable]
        exact handler_change uuid joi hvalid hreachable s
      · obtain ⟨hdown, hrequest⟩ := not_or.mp hreachable
        rw [if_neg hreachable]
        unfold settle
        rw [handler_unreachable uuid joi hvalid (by simpa using hdown) hrequest]
        rfl
    · rw [if_neg hvalid]
      unfold settle
      rw [handler_refused uuid joi hvalid]
      rfl
  · rw [hgate, if_neg hrefused]
    rfl

/-- A handler that changes anything ends with `invalidateCache`. -/
theorem handler_cache {s : RuleService} {out : RuleService × Response RuleBody}
    (h : handler uuid joi call s = .ok out) : out.1 = s ∨ out.1.cache = .invalidated := by
  unfold handler at h
  cases hrequest : call.request with
  | invalidateCache =>
      rw [hrequest] at h
      cases h
      exact Or.inr rfl
  | findById id =>
      rw [hrequest] at h
      unfold findById at h
      left
      grind
  | create body =>
      rw [hrequest] at h
      unfold create at h
      right
      grind
  | update id body =>
      rw [hrequest] at h
      unfold update at h
      right
      grind
  | delete id =>
      rw [hrequest] at h
      unfold delete at h
      right
      grind
  | setEnabled id enabled =>
      rw [hrequest] at h
      unfold setEnabled at h
      right
      grind

theorem serve_cache (call : RuleCall) (s : RuleService) :
    (RuleRoutes.serve config uuid joi call s).1 = s ∨
      (RuleRoutes.serve config uuid joi call s).1.cache = .invalidated := by
  unfold RuleRoutes.serve settle
  cases requireControlPlaneKey (β := RuleBody) config call.headers with
  | error response => exact Or.inl rfl
  | ok next =>
      dsimp only
      cases hanswer : handler uuid joi call s with
      | ok out => exact handler_cache uuid joi hanswer
      | error error => exact Or.inl rfl

end Simulation

/-! ## Lookups are answered from the catalogue -/

section Lookups

variable {query : List RuleRow → List RuleRow} {regExp : JsString → Option (JsString → Bool)}

/-- The engine keeps no rules, or those that are enabled. -/
def Coherent (query : List RuleRow → List RuleRow) (s : RuleService) : Prop :=
  s.cache.rules = [] ∨ s.cache.rules = RuleService.findEnabledRulesByPriority query s.table

theorem mem_query_iff (hquery : OrderedRules query) {t : RuleTable} {row : RuleRow} :
    row ∈ query t.rows ↔ of t row.id = some row ∧ row.enabled = true := by
  rw [(hquery.perm t.rows).mem_iff, List.mem_filter, of_eq_some_iff]
  simp

/-- The first match among the enabled rules is the rule a request falls under. -/
theorem findMatchingRule_fallsUnder (hquery : OrderedRules query) (t : RuleTable)
    (context : RuleMatchContext) :
    (of t).FallsUnder regExp context
      (findMatchingRule regExp (RuleService.findEnabledRulesByPriority query t) context) := by
  unfold findMatchingRule RuleService.findEnabledRulesByPriority
  cases hfind : ((query t.rows).map RuleRow.rule).find? fun rule =>
      isRuleMatch regExp rule context with
  | some rule =>
      obtain ⟨row, hrow, rfl⟩ := find?_map_eq_some hfind
      obtain ⟨hof, henabled⟩ := (mem_query_iff hquery).mp (List.mem_of_find?_eq_some hrow)
      have hmatches := List.find?_some hrow
      refine ⟨row.id, row, hof, henabled, hmatches, rfl, ?_⟩
      intro id' other hother hon hmatch
      obtain ⟨hmem, rfl⟩ := of_eq_some_iff.mp hother
      exact find?_precedes RuleRow.Precedes.refl (hquery.ordered t.rows) hrow
        ((mem_query_iff hquery).mpr ⟨hother, hon⟩) hmatch
  | none =>
      intro id row hrow henabled
      obtain ⟨hmem, rfl⟩ := of_eq_some_iff.mp hrow
      have hnone := List.find?_eq_none.mp hfind row.rule
        (List.mem_map_of_mem ((mem_query_iff hquery).mpr ⟨hrow, henabled⟩))
      simpa using hnone

variable {s : RuleService}

/-- A lookup is answered from the catalogue, whether from the kept rules or from the table. -/
theorem lookup_answers (hquery : OrderedRules query) (hcoherent : Coherent query s)
    (clock : Nat) (reachable : Bool) (context : RuleMatchContext) :
    (reachable = false ∧ (s.lookup query regExp clock reachable context).2 = .thrown) ∨
      ∃ rule, (s.lookup query regExp clock reachable context).2 = .found rule ∧
        (of s.table).FallsUnder regExp context rule := by
  unfold RuleService.lookup
  cases hkept : s.cache.getEnabledRules clock with
  | some rules =>
      obtain ⟨hrules, hne, -⟩ := RulesCache.getEnabledRules_eq_some_iff.mp hkept
      right
      refine ⟨_, rfl, ?_⟩
      rcases hcoherent with hempty | hsame
      · exact absurd (hrules.symm.trans hempty) hne
      · rw [← hrules, hsame]
        exact findMatchingRule_fallsUnder hquery s.table context
  | none =>
      cases reachable with
      | false => exact Or.inl ⟨rfl, rfl⟩
      | true => exact Or.inr ⟨_, rfl, findMatchingRule_fallsUnder hquery s.table context⟩

variable (regExp) in
theorem lookup_keeps (hcoherent : Coherent query s) (clock : Nat) (reachable : Bool)
    (context : RuleMatchContext) :
    (s.lookup query regExp clock reachable context).1.table = s.table ∧
      Coherent query (s.lookup query regExp clock reachable context).1 := by
  unfold RuleService.lookup
  cases s.cache.getEnabledRules clock with
  | some rules => exact ⟨rfl, hcoherent⟩
  | none =>
      cases reachable with
      | false => exact ⟨rfl, hcoherent⟩
      | true => exact ⟨rfl, Or.inr rfl⟩

end Lookups

/-! ## Runs -/

section Runs

variable (config : AuthConfig) (uuid : JsString → Option JsString)
  (joi : RuleRequest → JsString) {query : List RuleRow → List RuleRow}
  (regExp : JsString → Option (JsString → Bool))

/-- One event, on the server and in the catalogue. -/
theorem step_simulates (hquery : OrderedRules query) {s : RuleService}
    (hcoherent : Coherent query s) (event : RuleEvent) :
    of (s.step config uuid joi query regExp event).table =
        (of s.table).step config uuid joi event ∧
      (of s.table).Answers config uuid joi regExp event
        (s.answer config uuid joi query regExp event) ∧
      Coherent query (s.step config uuid joi query regExp event) := by
  cases event with
  | request call =>
      have hserve := serve_seen config uuid joi call s
      have hsent : RuleAnswer.sent (RuleRoutes.serve config uuid joi call s).2 =
          .sent ((of s.table).serve config uuid joi call).2 :=
        congrArg RuleAnswer.sent (congrArg Prod.snd hserve)
      refine ⟨congrArg Prod.fst hserve, hsent, ?_⟩
      rcases serve_cache config uuid joi call s with hsame | hdropped
      · show Coherent query (RuleRoutes.serve config uuid joi call s).1
        rw [hsame]
        exact hcoherent
      · exact Or.inl (congrArg RulesCache.rules hdropped)
  | lookup clock reachable context =>
      obtain ⟨htable, hkept⟩ := lookup_keeps regExp hcoherent clock reachable context
      exact ⟨congrArg of htable, lookup_answers hquery hcoherent clock reachable context, hkept⟩

/-- **Refinement.**  Over any sequence of requests and lookups, done one after the other, the
table is the catalogue that the requests make, every request is sent what the catalogue at
its time says, and every lookup finds the rule it falls under there, with the rules that the
engine keeps as with those it reads; a lookup fails only where the database does not
answer. -/
theorem rules_refine_catalogue (hquery : OrderedRules query) (t : RuleTable)
    (events : List RuleEvent) :
    of (run (RuleService.step config uuid joi query regExp) (.boot t) events).table =
        run (Catalogue.step config uuid joi) (of t) events ∧
      ∀ before event after, events = before ++ event :: after →
        (run (Catalogue.step config uuid joi) (of t) before).Answers config uuid joi regExp event
          ((run (RuleService.step config uuid joi query regExp) (.boot t) before).answer config
            uuid joi query regExp event) := by
  exact refined_run (fun s : RuleService => of s.table) (I := Coherent query)
    (fun s event hcoherent => step_simulates config uuid joi regExp hquery hcoherent event)
    (Or.inl rfl) events

/-- The enabled rows of a table, sorted. -/
def sortedRules (rows : List RuleRow) : List RuleRow :=
  (rows.filter fun row => row.enabled).mergeSort fun row other => row.Precedes other

theorem orderedRules_sortedRules : OrderedRules sortedRules where
  perm rows := List.mergeSort_perm _ _
  ordered rows := by
    have htrans : ∀ a b c : RuleRow, decide (a.Precedes b) = true →
        decide (b.Precedes c) = true → decide (a.Precedes c) = true := fun a b c hab hbc =>
      decide_eq_true ((of_decide_eq_true hab).trans (of_decide_eq_true hbc))
    have htotal : ∀ a b : RuleRow, (decide (a.Precedes b) || decide (b.Precedes a)) = true := by
      intro a b
      simpa using RuleRow.Precedes.total a b
    exact (List.pairwise_mergeSort htrans htotal _).imp fun h => of_decide_eq_true h

/-- A deployment with a key, a request that presents it, and one that does not. -/
def keyed : AuthConfig := ⟨some (js "s3cret"), true⟩

/-- A rule for everybody. -/
def everyone : CreateRuleRequest where
  name := js "everyone"
  description := none
  algorithm := .slidingWindow
  limit := 5
  windowSeconds := 60
  dimensionType := .global
  dimensionPattern := none
  priority := none
  enabled := none
  tags := none

/-- An id. -/
def firstId : JsString := js "7b0f4f7e-3d0a-4b57-9d5a-0c5c6c1f2a11"

/-- A create with the key, a delete without it, and a lookup. -/
def session : List RuleEvent :=
  [.request ⟨⟨some (js "Bearer s3cret"), none⟩, .create everyone, firstId, 0, true⟩,
    .request ⟨⟨none, some (js "guess")⟩, .delete firstId, firstId, 1, true⟩,
    .lookup 2 true ⟨js "u1", none, none, none⟩]

/-- What such a session comes to, on a table with no rules. -/
theorem rules_refine_catalogue_session :
    of (run (RuleService.step keyed some (fun _ => []) sortedRules fun _ => none)
        (.boot ⟨[], by decide⟩) session).table =
        run (Catalogue.step keyed some fun _ => []) (of ⟨[], by decide⟩) session ∧
      ∀ before event after, session = before ++ event :: after →
        (run (Catalogue.step keyed some fun _ => []) (of ⟨[], by decide⟩) before).Answers keyed
          some (fun _ => []) (fun _ => none) event
          ((run (RuleService.step keyed some (fun _ => []) sortedRules fun _ => none)
            (.boot ⟨[], by decide⟩) before).answer keyed some (fun _ => []) sortedRules
              (fun _ => none) event) :=
  rules_refine_catalogue keyed some (fun _ => []) (fun _ => none) orderedRules_sortedRules
    ⟨[], by decide⟩ session

/-! ## Who may change it -/

/-- A lookup, or a request that may use the control plane. -/
def Admitted (config : AuthConfig) : RuleEvent → Prop
  | .request call => config.Authorises call.headers
  | .lookup _ _ _ => True

theorem serve_refused {call : RuleCall} (h : ¬ config.Authorises call.headers)
    (s : RuleService) : RuleRoutes.serve config uuid joi call s = (s, config.refusal) := by
  unfold RuleRoutes.serve
  rcases requireControlPlaneKey_cases (β := RuleBody) config call.headers with
    ⟨hauthorised, -⟩ | ⟨-, hgate⟩
  · exact absurd hauthorised h
  · rw [hgate]

open Classical in
/-- **The gate.**  Whatever requests without the key of the control plane are mixed into a
run, they are all sent the same refusal, and everything else is answered, and everything left,
as in the run without them.  A request has the key when the secret it presents has the same
characters. -/
theorem control_plane_guarded (query : List RuleRow → List RuleRow) (s : RuleService)
    (events : List RuleEvent) :
    heard (RuleService.step config uuid joi query regExp)
        (RuleService.answer config uuid joi query regExp) (Admitted config) s events =
        outputs (RuleService.step config uuid joi query regExp)
          (RuleService.answer config uuid joi query regExp) s (events.filter (Admitted config)) ∧
      run (RuleService.step config uuid joi query regExp) s events =
        run (RuleService.step config uuid joi query regExp) s
          (events.filter (Admitted config)) ∧
      ∀ before call after, events = before ++ .request call :: after →
        ¬ config.Authorises call.headers →
        (run (RuleService.step config uuid joi query regExp) s before).answer config uuid joi
          query regExp (.request call) = .sent config.refusal := by
  have hidle : ∀ s event, ¬ Admitted config event →
      RuleService.step config uuid joi query regExp s event = s := by
    intro s event hrefused
    cases event with
    | request call => exact congrArg Prod.fst (serve_refused config uuid joi hrefused s)
    | lookup clock reachable context => exact absurd trivial hrefused
  obtain ⟨hheard, hrun⟩ := heard_of_idle _
    (RuleService.answer config uuid joi query regExp) (Admitted config) hidle s events
  refine ⟨hheard, hrun, ?_⟩
  intro before call after _ hrefused
  exact congrArg (fun out => RuleAnswer.sent out.2) (serve_refused config uuid joi hrefused _)

end Runs

end Catalogue

end RateLimiter.Limiter
