import RateLimiter.Foundations.Joining
import RateLimiter.Gateway.Amounts
import RateLimiter.Javascript.Doubles

/-!
# Seed nodes

`REDIS_CLUSTER_NODES` lists the nodes a cluster client may start from.  A list with a
malformed entry is refused as a whole, and a list that is taken spells each of its nodes.
-/

namespace RateLimiter.Gateway

open RateLimiter.Foundations RateLimiter.Javascript

/-- `text.trim()`. -/
def trim (text : JsString) : JsString :=
  ((text.dropWhile jsBlank).reverse.dropWhile jsBlank).reverse

/-- A node that a client can be pointed at. -/
@[ext] structure SeedNode where
  host : JsString
  port : Nat
  host_ne_nil : host ≠ []
  port_pos : 1 ≤ port
  port_le : port ≤ 65535

namespace SeedNode

/-- The text of the error a malformed entry is answered with. -/
def notHostPort (text : JsString) : JsString :=
  js "REDIS_CLUSTER_NODES: \"" ++ text ++ js "\" is not host:port with a valid port"

/-- `Number(text)`: the double nearest to what the text spells. -/
def nearest (text : JsString) : JsNumber :=
  match number text with
  | .finite value => .finite (double value)
  | other => other

/-- The port a text spells: an integer, whatever way it is written. -/
def port? (text : JsString) : Option Nat :=
  match nearest text with
  | .finite value =>
      if value.den = 1 ∧ 1 ≤ value ∧ value ≤ 65535 then some value.num.toNat else none
  | _ => none

theorem port?_eq_some_iff {text : JsString} {port : Nat} :
    port? text = some port ↔ nearest text = .finite port ∧ 1 ≤ port ∧ port ≤ 65535 := by
  unfold port?
  constructor
  · intro h
    split at h
    next value hvalue =>
      split at h
      next hrange =>
        obtain ⟨hint, hlow, hhigh⟩ := hrange
        have hnum : (value.num : Rat) = value := Rat.coe_int_num_of_den_eq_one hint
        have hlow' : 1 ≤ value.num := by
          rw [← hnum] at hlow
          exact_mod_cast hlow
        have hhigh' : value.num ≤ 65535 := by
          rw [← hnum] at hhigh
          exact_mod_cast hhigh
        obtain rfl := Option.some.inj h
        have hnat : ((value.num.toNat : Nat) : Int) = value.num := Int.toNat_of_nonneg (by omega)
        have hcast : ((value.num.toNat : Nat) : Rat) = value := by
          rw [← Int.cast_natCast, hnat, hnum]
        rw [hvalue, hcast]
        exact ⟨rfl, by omega, by omega⟩
      next => cases h
    next => cases h
  · rintro ⟨hvalue, hlow, hhigh⟩
    rw [hvalue]
    have hrange : ((port : Rat).den = 1) ∧ (1 : Rat) ≤ port ∧ (port : Rat) ≤ 65535 :=
      ⟨Rat.den_natCast port, by exact_mod_cast hlow, by exact_mod_cast hhigh⟩
    dsimp only
    rw [if_pos hrange]
    simp

/-- The parsing of one entry. -/
def ofEntry (entry : JsString) : Except JsString SeedNode :=
  let text := trim entry
  match aroundLast (unit ':') text with
  | none => .error (notHostPort text)
  | some (host, portText) =>
      if hhost : host ≠ [] then
        match hport : port? portText with
        | some port =>
            .ok
              { host := host
                port := port
                host_ne_nil := hhost
                port_pos := (port?_eq_some_iff.mp hport).2.1
                port_le := (port?_eq_some_iff.mp hport).2.2 }
        | none => .error (notHostPort text)
      else .error (notHostPort text)

end SeedNode

/-- `parseClusterNodes`. -/
def parseClusterNodes (raw : Option JsString) : Except JsString (List SeedNode) :=
  match raw with
  | none => .ok []
  | some text =>
      if trim text = [] then .ok [] else (text.splitOn (unit ',')).mapM SeedNode.ofEntry

namespace SeedNode

/-- The entry spells the node: its host, a colon and, behind the last colon, its port or a
number that is as good as its port. -/
def Spelled (node : SeedNode) (entry : JsString) : Prop :=
  ∃ portText, trim entry = join (unit ':') (node.host, portText) ∧ unit ':' ∉ portText ∧
    nearest portText = .finite node.port

/-- An entry is taken for a node that it spells, or refused by its text. -/
theorem ofEntry_cases (entry : JsString) :
    (∃ node, ofEntry entry = .ok node ∧ node.Spelled entry) ∨
      ofEntry entry = .error (notHostPort (trim entry)) ∧ ∀ node, ¬ Spelled node entry := by
  unfold ofEntry
  dsimp only
  split
  next hnone =>
    refine Or.inr ⟨rfl, ?_⟩
    rintro node ⟨portText, htext, hlast, -⟩
    rw [aroundLast_eq_some_iff.mpr ⟨htext, hlast⟩] at hnone
    cases hnone
  next host portText hsplit =>
    obtain ⟨htext, hlast⟩ := aroundLast_eq_some_iff.mp hsplit
    -- a node that is spelled by the entry has this host and this port
    have hunique : ∀ node, Spelled node entry →
        node.host = host ∧ nearest portText = .finite node.port := by
      rintro node ⟨portText', htext', hlast', hport'⟩
      rw [aroundLast_eq_some_iff.mpr ⟨htext', hlast'⟩] at hsplit
      obtain ⟨hhost, rfl⟩ := Prod.mk.inj (Option.some.inj hsplit)
      exact ⟨hhost, hport'⟩
    split
    next hhost =>
      split
      next port hport =>
        exact Or.inl ⟨_, rfl, portText, htext, hlast, (port?_eq_some_iff.mp hport).1⟩
      next hport =>
        refine Or.inr ⟨rfl, fun node hspelled => ?_⟩
        have hvalue := (hunique node hspelled).2
        rw [port?_eq_some_iff.mpr ⟨hvalue, node.port_pos, node.port_le⟩] at hport
        cases hport
    next hempty =>
      refine Or.inr ⟨rfl, fun node hspelled => hempty ?_⟩
      rw [← (hunique node hspelled).1]
      exact node.host_ne_nil

/-- An entry spells one node at most. -/
theorem Spelled.unique {node node' : SeedNode} {entry : JsString} (h : node.Spelled entry)
    (h' : node'.Spelled entry) : node = node' := by
  obtain ⟨portText, htext, hlast, hport⟩ := h
  obtain ⟨portText', htext', hlast', hport'⟩ := h'
  have hsplit := aroundLast_eq_some_iff.mpr ⟨htext, hlast⟩
  rw [aroundLast_eq_some_iff.mpr ⟨htext', hlast'⟩] at hsplit
  obtain ⟨hhost, rfl⟩ := Prod.mk.inj (Option.some.inj hsplit)
  have hsame : (node'.port : Rat) = node.port := JsNumber.finite.inj (hport'.symm.trans hport)
  exact SeedNode.ext hhost.symm (by exact_mod_cast hsame.symm)

/-! ## Lists of entries -/

/-- A list is taken when each entry spells its node. -/
theorem mapM_ofEntry_eq_ok_iff {entries : List JsString} {nodes : List SeedNode} :
    entries.mapM ofEntry = .ok nodes ↔ List.Forall₂ Spelled nodes entries := by
  induction entries generalizing nodes with
  | nil =>
      cases nodes with
      | nil => simp [pure, Except.pure]
      | cons node nodes => simp [pure, Except.pure]
  | cons entry entries ih =>
      rw [List.mapM_cons]
      rcases ofEntry_cases entry with ⟨first, hfirst, hspelled⟩ | ⟨hrefused, hnone⟩
      · rw [hfirst]
        cases hrest : entries.mapM ofEntry with
        | error message =>
            refine iff_of_false (fun h => by cases h) ?_
            intro hall
            cases hall with
            | cons hhead htail =>
                rw [ih.mpr htail] at hrest
                cases hrest
        | ok rest =>
            constructor
            · intro h
              obtain rfl := Except.ok.inj h
              exact List.Forall₂.cons hspelled (ih.mp hrest)
            · intro hall
              cases hall with
              | cons hhead htail =>
                  rw [ih.mpr htail] at hrest
                  obtain rfl := Except.ok.inj hrest
                  rw [hspelled.unique hhead]
                  rfl
      · rw [hrefused]
        refine iff_of_false (fun h => by cases h) ?_
        intro hall
        cases hall with
        | cons hhead htail => exact hnone _ hhead

/-- A list that is not taken is refused by the first entry that spells no node. -/
theorem mapM_ofEntry_eq_error_iff {entries : List JsString} {message : JsString} :
    entries.mapM ofEntry = .error message ↔
      ∃ nodes before entry after, entries = before ++ entry :: after ∧
        List.Forall₂ Spelled nodes before ∧ (∀ node, ¬ Spelled node entry) ∧
        message = notHostPort (trim entry) := by
  induction entries with
  | nil => simp [pure, Except.pure]
  | cons entry entries ih =>
      rw [List.mapM_cons]
      rcases ofEntry_cases entry with ⟨first, hfirst, hspelled⟩ | ⟨hrefused, hnone⟩
      · rw [hfirst]
        constructor
        · intro h
          cases hrest : entries.mapM ofEntry with
          | ok rest =>
              rw [hrest] at h
              cases h
          | error other =>
              rw [hrest] at h
              obtain rfl := Except.error.inj h
              obtain ⟨nodes, before, bad, after, rfl, hbefore, hbad, hmessage⟩ := ih.mp hrest
              exact ⟨first :: nodes, entry :: before, bad, after, rfl,
                List.Forall₂.cons hspelled hbefore, hbad, hmessage⟩
        · rintro ⟨nodes, before, bad, after, hentries, hbefore, hbad, hmessage⟩
          cases hbefore with
          | nil =>
              obtain ⟨rfl, rfl⟩ := List.cons.inj hentries
              exact absurd hspelled (hbad first)
          | cons hhead htail =>
              obtain ⟨rfl, rfl⟩ := List.cons.inj hentries
              rw [ih.mpr ⟨_, _, bad, after, rfl, htail, hbad, hmessage⟩]
              rfl
      · rw [hrefused]
        constructor
        · intro h
          obtain rfl := Except.error.inj h
          exact ⟨[], [], entry, entries, rfl, List.Forall₂.nil, hnone, rfl⟩
        · rintro ⟨nodes, before, bad, after, hentries, hbefore, hbad, rfl⟩
          cases hbefore with
          | nil =>
              obtain ⟨rfl, rfl⟩ := List.cons.inj hentries
              rfl
          | cons hhead htail =>
              obtain ⟨rfl, rfl⟩ := List.cons.inj hentries
              exact absurd hhead (hnone _)

end SeedNode

/-! ## Blanks and digits -/

theorem all_blank_of_trim {text : JsString} (h : trim text = []) :
    ∀ c ∈ text, jsBlank c = true := by
  unfold trim at h
  rw [List.reverse_eq_nil_iff, List.dropWhile_eq_nil_iff] at h
  intro c hc
  rw [← List.takeWhile_append_dropWhile (p := jsBlank) (l := text), List.mem_append] at hc
  rcases hc with hlead | hrest
  · exact List.mem_takeWhile_imp hlead
  · exact h c (List.mem_reverse.mpr hrest)

/-- Nothing is trimmed off a text that neither starts nor ends with a blank. -/
theorem trim_eq_self {text : JsString} (hfirst : Starts (fun c => jsBlank c = false) text)
    (hlast : Starts (fun c => jsBlank c = false) text.reverse) : trim text = text := by
  unfold trim
  rw [(span_of_starts hfirst).2, (span_of_starts hlast).2, List.reverse_reverse]

theorem jsBlank_of_isDigit {c : CodeUnit} (h : isDigit c = true) : jsBlank c = false := by
  by_contra hblank
  have hmark := blanks_jsBlank c (by simpa using hblank)
  rw [isMark_of_isDigit h] at hmark
  cases hmark

theorem starts_of_forall {p : CodeUnit → Prop} {text : JsString} (h : ∀ c ∈ text, p c) :
    Starts p text :=
  fun c hc => h c (List.mem_of_mem_head? hc)

/-- Digits alone are no literal with a base. -/
theorem prefixedLiteral?_of_digits {text : JsString} (h : ∀ c ∈ text, isDigit c = true) :
    prefixedLiteral? text = none := by
  unfold prefixedLiteral?
  split
  next zero letter digit digits =>
    have hletter : isDigit letter = true := h letter (by simp)
    have hne : ∀ d, isDigit d = false → letter ≠ d := by
      rintro d hd rfl
      rw [hletter] at hd
      cases hd
    have hbase : literalBase? letter = none := by
      simp [literalBase?, hne (unit 'x') (by decide), hne (unit 'X') (by decide),
        hne (unit 'o') (by decide), hne (unit 'O') (by decide), hne (unit 'b') (by decide),
        hne (unit 'B') (by decide)]
    rw [hbase]
    split <;> rfl
  next => rfl

theorem number_natText (n : Nat) : number (natText n) = .finite n := by
  have hdigits : ∀ c ∈ natText n, isDigit c = true := fun c hc => isDigit_of_mem_natText hc
  have hblank : ∀ c ∈ natText n, jsBlank c = false := fun c hc => jsBlank_of_isDigit (hdigits c hc)
  have htrim : trim (natText n) = natText n :=
    trim_eq_self (starts_of_forall hblank)
      (starts_of_forall fun c hc => hblank c (List.mem_reverse.mp hc))
  have hsign : readSign (signText none ++ natText n) = (none, natText n) :=
    readSign_signText (starts_of_forall fun c hc =>
      not_sign_of_isLeading (by simp [isLeading, hdigits c hc]))
  have hunsigned : readSign (natText n) = (none, natText n) := hsign
  have hfinite : natText n ≠ js "Infinity" := by
    intro h
    have hletter := hdigits (unit 'I') (h ▸ by decide)
    revert hletter
    decide
  unfold number
  unfold trim at htrim
  simp only [htrim, hunsigned]
  rw [if_neg (natText_ne_nil n), if_neg hfinite, prefixedLiteral?_of_digits hdigits,
    readNumeral_natText blanks_jsBlank]
  dsimp only
  rw [natNumeral_value]

namespace SeedNode

/-- A node as `host:port`. -/
def text (node : SeedNode) : JsString := join (unit ':') (node.host, natText node.port)

/-- A host that survives in a list: it has no comma and does not start with a blank. -/
def Plain (node : SeedNode) : Prop :=
  unit ',' ∉ node.host ∧ Starts (fun c => jsBlank c = false) node.host

theorem not_mem_natText {c : CodeUnit} (h : isDigit c = false) (n : Nat) : c ∉ natText n := by
  intro hc
  rw [isDigit_of_mem_natText hc] at h
  cases h

theorem nearest_natText {n : Nat} (hn : n < 2 ^ 53) : nearest (natText n) = .finite n := by
  unfold nearest
  rw [number_natText]
  exact congrArg JsNumber.finite (double_intCast (n := n) hn)

theorem spelled_text {node : SeedNode} (h : node.Plain) : node.Spelled node.text := by
  refine ⟨natText node.port, trim_eq_self ?_ ?_, not_mem_natText (by decide) _,
    nearest_natText (node.port_le.trans_lt (by decide))⟩
  · intro c hc
    obtain ⟨first, rest, hhost⟩ := List.exists_cons_of_ne_nil node.host_ne_nil
    refine h.2 c ?_
    rw [hhost]
    simpa [text, join, hhost] using hc
  · have hdigits : ∀ c ∈ (natText node.port).reverse, jsBlank c = false := fun c hc =>
      jsBlank_of_isDigit (isDigit_of_mem_natText (List.mem_reverse.mp hc))
    obtain ⟨last, rest, hport⟩ :=
      List.exists_cons_of_ne_nil (List.reverse_ne_nil_iff.mpr (natText_ne_nil node.port))
    rw [hport] at hdigits
    have hreverse : node.text.reverse = last :: (rest ++ unit ':' :: node.host.reverse) := by
      simp [text, join, hport]
    rw [hreverse]
    exact starts_cons (hdigits last List.mem_cons_self)

theorem not_mem_text {node : SeedNode} (h : node.Plain) : unit ',' ∉ node.text := by
  intro hcomma
  rcases List.mem_append.mp hcomma with hhost | hrest
  · exact h.1 hhost
  · rcases List.mem_cons.mp hrest with hcolon | hport
    · revert hcolon
      decide
    · exact not_mem_natText (by decide) _ hport

/-- **Seed nodes.**  A list is taken for the nodes its entries spell, refused by the first
entry that spells none, and blank when there are none; and nodes whose hosts have no comma
and no blank in front, colons or not, are read back from their list. -/
theorem seed_nodes_exact (nodes : List SeedNode) :
    (∀ raw, parseClusterNodes (some raw) = .ok nodes ↔
      trim raw = [] ∧ nodes = [] ∨
        trim raw ≠ [] ∧ List.Forall₂ Spelled nodes (raw.splitOn (unit ','))) ∧
    (∀ raw message, parseClusterNodes (some raw) = .error message ↔
      trim raw ≠ [] ∧ ∃ taken before entry after,
        raw.splitOn (unit ',') = before ++ entry :: after ∧
          List.Forall₂ Spelled taken before ∧ (∀ node, ¬ Spelled node entry) ∧
            message = notHostPort (trim entry)) ∧
    ((∀ node ∈ nodes, node.Plain) →
      parseClusterNodes (some ([unit ','].intercalate (nodes.map text))) = .ok nodes) := by
  have htaken : ∀ raw, parseClusterNodes (some raw) = .ok nodes ↔
      trim raw = [] ∧ nodes = [] ∨
        trim raw ≠ [] ∧ List.Forall₂ Spelled nodes (raw.splitOn (unit ',')) := by
    intro raw
    unfold parseClusterNodes
    by_cases hblank : trim raw = []
    · simp [hblank, eq_comm]
    · simp [hblank, mapM_ofEntry_eq_ok_iff]
  refine ⟨htaken, ?_, ?_⟩
  · intro raw message
    unfold parseClusterNodes
    by_cases hblank : trim raw = []
    · simp [hblank]
    · simp [hblank, mapM_ofEntry_eq_error_iff]
  · intro hplain
    rw [htaken]
    cases nodes with
    | nil => exact Or.inl ⟨rfl, rfl⟩
    | cons node nodes =>
        right
        refine ⟨fun hblank => ?_, ?_⟩
        · -- the colon of the first node is no blank
          have hcolon : unit ':' ∈ [unit ','].intercalate ((node :: nodes).map text) := by
            rw [List.map_cons]
            cases nodes.map text with
            | nil => simp [text, join]
            | cons other others => simp [text, join]
          have hnot := all_blank_of_trim hblank (unit ':') hcolon
          revert hnot
          decide
        · rw [List.splitOn_intercalate]
          · rw [List.forall₂_map_right_iff, List.forall₂_same]
            exact fun node hnode => spelled_text (hplain node hnode)
          · intro entry hentry
            obtain ⟨node, hnode, rfl⟩ := List.mem_map.mp hentry
            exact not_mem_text (hplain node hnode)
          · simp

/-- A port is taken for what its double is. -/
example : (parseClusterNodes (some (js "h:6379.00000000000000000001"))).toOption.map
    (fun nodes => nodes.map fun node => node.port) = some [6379] := by decide +kernel

/-- An address that has colons of its own, and a name. -/
def colons : List SeedNode :=
  [⟨js "::1", 6379, by decide, by decide, by decide⟩,
    ⟨js "redis-2", 6380, by decide, by decide, by decide⟩]

/-- The host is what stands before the last colon. -/
theorem seed_nodes_exact_colons :
    parseClusterNodes (some (js "::1:6379,redis-2:6380")) = .ok colons := by
  have hplain : ∀ node ∈ colons, node.Plain := by
    intro node hnode
    rcases List.mem_pair.mp hnode with rfl | rfl
    · exact ⟨by decide, starts_cons (by decide)⟩
    · exact ⟨by decide, starts_cons (by decide)⟩
  have htext : [unit ','].intercalate (colons.map text) = js "::1:6379,redis-2:6380" := by
    decide +kernel
  rw [← htext]
  exact (seed_nodes_exact colons).2.2 hplain

end SeedNode

end RateLimiter.Gateway
