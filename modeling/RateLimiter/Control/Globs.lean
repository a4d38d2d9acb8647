import RateLimiter.Control.PatternCache
import RateLimiter.Javascript.RegExp

/-!
# Globs

What a glob is meant to match, and what the expression made from it does match.
-/

namespace RateLimiter.Control

open RateLimiter.Foundations RateLimiter.Javascript

/-! ## What a glob means -/

/-- A text obtained from a pattern: each `*` is replaced by a run of characters, each `?` by
one, and every other character stays.  The replacements consist of `wild` characters. -/
inductive Obtained (wild : CodeUnit → Prop) : (pattern value : JsString) → Prop
  | done : Obtained wild [] []
  | star {pattern value : JsString} (text : JsString) (htext : ∀ c ∈ text, wild c)
      (h : Obtained wild pattern value) : Obtained wild (unit '*' :: pattern) (text ++ value)
  | any {pattern value : JsString} (c : CodeUnit) (hc : wild c)
      (h : Obtained wild pattern value) : Obtained wild (unit '?' :: pattern) (c :: value)
  | same {pattern value : JsString} (c : CodeUnit) (hc : c ≠ unit '*' ∧ c ≠ unit '?')
      (h : Obtained wild pattern value) : Obtained wild (c :: pattern) (c :: value)

/-- The value can be obtained from the pattern, with any characters for the wildcards. -/
def GlobMatches (value pattern : JsString) : Prop := Obtained (fun _ => True) pattern value

/-- How many line terminators there are in a text. -/
def lineBreaks (text : JsString) : Nat := text.countP (· ∈ lineTerminators)

theorem lineBreaks_cons (c : CodeUnit) (text : JsString) :
    lineBreaks (c :: text) = lineBreaks text + if c ∈ lineTerminators then 1 else 0 := by
  unfold lineBreaks
  rw [List.countP_cons]
  simp only [decide_eq_true_eq]

theorem lineBreaks_append (text text' : JsString) :
    lineBreaks (text ++ text') = lineBreaks text + lineBreaks text' :=
  List.countP_append

theorem lineBreaks_eq_zero_iff {text : JsString} :
    lineBreaks text = 0 ↔ ∀ c ∈ text, c ∉ lineTerminators := by
  unfold lineBreaks
  simp [List.countP_eq_zero]

/-- A wildcard is no line terminator itself. -/
theorem lineBreaks_wildcard {c : CodeUnit} (hc : c = unit '*' ∨ c = unit '?')
    (text : JsString) : lineBreaks (c :: text) = lineBreaks text := by
  have hnot : c ∉ lineTerminators := by
    rcases hc with rfl | rfl
    · decide
    · decide
  rw [lineBreaks_cons, if_neg hnot, Nat.add_zero]

namespace Obtained

variable {wild wild' : CodeUnit → Prop} {pattern value : JsString}

theorem mono (hwild : ∀ c, wild c → wild' c) (h : Obtained wild pattern value) :
    Obtained wild' pattern value := by
  induction h with
  | done => exact .done
  | star text htext _ ih => exact .star text (fun c hc => hwild c (htext c hc)) ih
  | any c hc _ ih => exact .any c (hwild c hc) ih
  | same c hc _ ih => exact .same c hc ih

/-- The line terminators of a pattern are among those of what is obtained from it. -/
theorem lineBreaks_le (h : Obtained wild pattern value) :
    lineBreaks pattern ≤ lineBreaks value := by
  induction h with
  | done => exact le_rfl
  | star text _ _ ih =>
      rw [lineBreaks_wildcard (.inl rfl), lineBreaks_append]
      exact Nat.le_add_left_of_le ih
  | any c _ _ ih =>
      rw [lineBreaks_wildcard (.inr rfl), lineBreaks_cons]
      exact Nat.le_add_right_of_le ih
  | same c _ _ ih =>
      rw [lineBreaks_cons, lineBreaks_cons]
      exact Nat.add_le_add_right ih _

/-- Replacements without line terminators leave as many of them as the pattern has. -/
theorem lineBreaks_eq (h : Obtained (· ∉ lineTerminators) pattern value) :
    lineBreaks value = lineBreaks pattern := by
  induction h with
  | done => rfl
  | star text htext _ ih =>
      rw [lineBreaks_wildcard (.inl rfl), lineBreaks_append, lineBreaks_eq_zero_iff.mpr htext,
        Nat.zero_add, ih]
  | any c hc _ ih => rw [lineBreaks_wildcard (.inr rfl), lineBreaks_cons, if_neg hc, ih]; rfl
  | same c _ _ ih => rw [lineBreaks_cons, lineBreaks_cons, ih]

/-- Where there are no more line terminators than in the pattern no replacement has one. -/
theorem clean (h : Obtained wild pattern value)
    (hcount : lineBreaks value = lineBreaks pattern) :
    Obtained (· ∉ lineTerminators) pattern value := by
  induction h with
  | done => exact .done
  | star text _ hrest ih =>
      have hle := hrest.lineBreaks_le
      rw [lineBreaks_wildcard (.inl rfl), lineBreaks_append] at hcount
      exact .star text (lineBreaks_eq_zero_iff.mp (by omega)) (ih (by omega))
  | any c _ hrest ih =>
      have hle := hrest.lineBreaks_le
      rw [lineBreaks_wildcard (.inr rfl), lineBreaks_cons] at hcount
      by_cases hc : c ∈ lineTerminators
      · rw [if_pos hc] at hcount
        omega
      · rw [if_neg hc] at hcount
        exact .any c hc (ih hcount)
  | same c hc _ ih =>
      rw [lineBreaks_cons, lineBreaks_cons] at hcount
      exact .same c hc (ih (Nat.add_right_cancel hcount))

/-- Every pattern is obtained from itself. -/
theorem refl (h : ∀ c, c = unit '*' ∨ c = unit '?' → wild c) (pattern : JsString) :
    Obtained wild pattern pattern := by
  induction pattern with
  | nil => exact .done
  | cons c pattern ih =>
      by_cases hstar : c = unit '*'
      · rw [hstar]
        have htext : ∀ c ∈ [unit '*'], wild c := fun c hc =>
          h c (.inl (List.mem_singleton.mp hc))
        exact .star [unit '*'] htext ih
      · by_cases hany : c = unit '?'
        · rw [hany]
          exact .any _ (h _ (.inr rfl)) ih
        · exact .same c ⟨hstar, hany⟩ ih

theorem nil_iff : Obtained wild [] value ↔ value = [] := by
  constructor
  · intro h
    cases h
    rfl
  · rintro rfl
    exact .done

theorem star_iff : Obtained wild (unit '*' :: pattern) value ↔
    ∃ text rest, value = text ++ rest ∧ (∀ c ∈ text, wild c) ∧ Obtained wild pattern rest := by
  constructor
  · intro h
    generalize hpattern : unit '*' :: pattern = whole at h
    cases h with
    | done => cases hpattern
    | star text htext h =>
        obtain rfl := (List.cons.inj hpattern).2
        exact ⟨text, _, rfl, htext, h⟩
    | any c hc h => exact absurd (List.cons.inj hpattern).1 (by decide)
    | same c hc h => exact absurd (List.cons.inj hpattern).1.symm hc.1
  · rintro ⟨text, rest, rfl, htext, h⟩
    exact .star text htext h

theorem any_iff : Obtained wild (unit '?' :: pattern) value ↔
    ∃ c rest, value = c :: rest ∧ wild c ∧ Obtained wild pattern rest := by
  constructor
  · intro h
    generalize hpattern : unit '?' :: pattern = whole at h
    cases h with
    | done => cases hpattern
    | star text htext h => exact absurd (List.cons.inj hpattern).1 (by decide)
    | any c hc h =>
        obtain rfl := (List.cons.inj hpattern).2
        exact ⟨c, _, rfl, hc, h⟩
    | same c hc h => exact absurd (List.cons.inj hpattern).1.symm hc.2
  · rintro ⟨c, rest, rfl, hc, h⟩
    exact .any c hc h

theorem same_iff {c : CodeUnit} (hc : c ≠ unit '*' ∧ c ≠ unit '?') :
    Obtained wild (c :: pattern) value ↔
      ∃ rest, value = c :: rest ∧ Obtained wild pattern rest := by
  constructor
  · intro h
    generalize hpattern : c :: pattern = whole at h
    cases h with
    | done => cases hpattern
    | star text htext h => exact absurd (List.cons.inj hpattern).1 hc.1
    | any c' hc' h => exact absurd (List.cons.inj hpattern).1 hc.2
    | same c' hc' h =>
        obtain ⟨rfl, rfl⟩ := List.cons.inj hpattern
        exact ⟨_, rfl, h⟩
  · rintro ⟨rest, rfl, h⟩
    exact .same c hc h

end Obtained

/-! ## The expression of a glob -/

/-- The term made from one character of a glob. -/
def globTerm (c : CodeUnit) : Regex Plain Anchor .term :=
  if c = unit '*' then .repeated (.char .dot) .star false
  else if c = unit '?' then .once (.char .dot)
  else .once (.char (.literal c))

/-- The terms of a glob, up to the end of the input. -/
def globTerms : JsString → Regex Plain Anchor .alternative
  | [] => .seq (.assertion .stop) .empty
  | c :: pattern => .seq (globTerm c) (globTerms pattern)

def globRegex (pattern : JsString) : Regex Plain Anchor .disjunction :=
  .one (.seq (.assertion .start) (globTerms pattern))

theorem regexMetachars_iff (c : CodeUnit) : c ∈ regexMetachars ↔ c ∈ syntaxCharacters := by
  have hmeta : regexMetachars.all (· ∈ syntaxCharacters) = true := by decide +kernel
  have hsyntax : syntaxCharacters.all (· ∈ regexMetachars) = true := by decide +kernel
  constructor
  · simpa using List.all_eq_true.mp hmeta c
  · simpa using List.all_eq_true.mp hsyntax c

theorem source_globTerm (c : CodeUnit) : source (globTerm c) = globUnit c := by
  unfold globTerm globUnit
  split_ifs with hstar hany hmeta
  · rfl
  · rfl
  · exact if_pos ((regexMetachars_iff c).mp hmeta)
  · exact if_neg fun h => hmeta ((regexMetachars_iff c).mpr h)

/-- The source that `compile` writes is that of the expression. -/
theorem source_globRegex (pattern : JsString) :
    source (globRegex pattern) = js "^" ++ pattern.flatMap globUnit ++ js "$" := by
  have hterms : source (globTerms pattern) = pattern.flatMap globUnit ++ js "$" := by
    induction pattern with
    | nil => rfl
    | cons c pattern ih =>
        show source (globTerm c) ++ source (globTerms pattern) = _
        rw [source_globTerm, ih, List.flatMap_cons, List.append_assoc]
  show js "^" ++ source (globTerms pattern) = _
  rw [hterms, List.append_assoc]

/-! ## What the expression matches -/

section Spans

variable (value : JsString)

/-- The relation of an expression, on a value. -/
abbrev Takes {l : Level} (r : Regex Plain Anchor l) : Nat → Nat → Prop :=
  Regex.Spans Plain.sat (Anchor.holds value.length) value r

variable {value}

theorem takes_stop_iff {x : Nat} (hx : x ≤ value.length) :
    (∃ y, Takes value (globTerms []) x y) ↔ value.drop x = [] := by
  rw [List.drop_eq_nil_iff]
  constructor
  · rintro ⟨y, z, ⟨hholds, -⟩, -⟩
    have hend : x = value.length := by simpa [Anchor.holds] using hholds
    exact hend.ge
  · intro hend
    have hlength : x = value.length := Nat.le_antisymm hx hend
    exact ⟨x, x, ⟨by simpa [Anchor.holds] using hlength, rfl⟩, rfl⟩

theorem takes_literal_iff (c : CodeUnit) (x y : Nat) :
    Takes value (.once (.char (.literal c))) x y ↔
      y = x + 1 ∧ value.drop x = c :: value.drop y := by
  refine (Regex.spans_char_iff (Plain.literal c) x y).trans ?_
  simp [Plain.sat]

theorem takes_dot_iff (x y : Nat) :
    Takes value (.once (.char .dot)) x y ↔
      y = x + 1 ∧ ∃ c, value.drop x = c :: value.drop y ∧ c ∉ lineTerminators := by
  refine (Regex.spans_char_iff Plain.dot x y).trans ?_
  simp [Plain.sat]

theorem takes_dots_iff (x y : Nat) :
    Takes value (.repeated (.char .dot) .star false) x y ↔
      ∃ text : JsString, y = x + text.length ∧ value.drop x = text ++ value.drop y ∧
        ∀ c ∈ text, c ∉ lineTerminators := by
  constructor
  · rintro ⟨n, -, -, hiter⟩
    obtain ⟨hy, text, hlength, hdrop, hall⟩ := (Regex.iterates_char_iff _ n x y).mp hiter
    exact ⟨text, by rw [hlength, hy], hdrop, by simpa [Plain.sat] using hall⟩
  · rintro ⟨text, hy, hdrop, hall⟩
    have hiter : Iterates (Takes value (.char .dot)) text.length x y :=
      (Regex.iterates_char_iff _ _ _ _).mpr ⟨hy, text, rfl, hdrop, by simpa [Plain.sat] using hall⟩
    exact ⟨text.length, Nat.zero_le _, fun k hk => absurd hk (Option.not_mem_none k), hiter⟩

/-- The terms of a glob take one term first and the others from there. -/
theorem takes_globTerms_cons_iff {c : CodeUnit} {pattern : JsString} {x : Nat}
    (hx : x ≤ value.length) {P : JsString → Prop}
    (hP : ∀ {z}, z ≤ value.length →
      ((∃ y, Takes value (globTerms pattern) z y) ↔ P (value.drop z))) :
    (∃ y, Takes value (globTerms (c :: pattern)) x y) ↔
      ∃ z, Takes value (globTerm c) x z ∧ P (value.drop z) := by
  have hbound : ∀ {z}, Takes value (globTerm c) x z → z ≤ value.length := by
    intro z hterm
    have := hterm.bounded
    omega
  constructor
  · rintro ⟨y, z, hterm, hrest⟩
    exact ⟨z, hterm, (hP (hbound hterm)).mp ⟨y, hrest⟩⟩
  · rintro ⟨z, hterm, hrest⟩
    obtain ⟨y, hy⟩ := (hP (hbound hterm)).mpr hrest
    exact ⟨y, z, hterm, hy⟩

/-- What follows a text is the value from there on. -/
theorem rest_eq_drop {rest : JsString} {x : Nat} (text : JsString)
    (h : value.drop x = text ++ rest) : rest = value.drop (x + text.length) := by
  rw [← List.drop_drop, h, List.drop_left]

/-- The terms of a glob take the rest of the value exactly when it is obtained from the
pattern by replacements without line terminators. -/
theorem takes_globTerms_iff (pattern : JsString) {x : Nat} (hx : x ≤ value.length) :
    (∃ y, Takes value (globTerms pattern) x y) ↔
      Obtained (· ∉ lineTerminators) pattern (value.drop x) := by
  induction pattern generalizing x with
  | nil => rw [takes_stop_iff hx, Obtained.nil_iff]
  | cons c pattern ih =>
      rw [takes_globTerms_cons_iff hx fun hz => ih hz]
      unfold globTerm
      by_cases hstar : c = unit '*'
      · rw [if_pos hstar, hstar, Obtained.star_iff]
        constructor
        · rintro ⟨z, hterm, hrest⟩
          obtain ⟨text, -, hdrop, htext⟩ := (takes_dots_iff x z).mp hterm
          exact ⟨text, _, hdrop, htext, hrest⟩
        · rintro ⟨text, rest, hdrop, htext, hrest⟩
          obtain rfl := rest_eq_drop text hdrop
          exact ⟨_, (takes_dots_iff x _).mpr ⟨text, rfl, hdrop, htext⟩, hrest⟩
      · rw [if_neg hstar]
        by_cases hany : c = unit '?'
        · rw [if_pos hany, hany, Obtained.any_iff]
          constructor
          · rintro ⟨z, hterm, hrest⟩
            obtain ⟨-, u, hdrop, hu⟩ := (takes_dot_iff x z).mp hterm
            exact ⟨u, _, hdrop, hu, hrest⟩
          · rintro ⟨u, rest, hdrop, hu, hrest⟩
            obtain rfl := rest_eq_drop [u] hdrop
            exact ⟨_, (takes_dot_iff x _).mpr ⟨rfl, u, hdrop, hu⟩, hrest⟩
        · rw [if_neg hany, Obtained.same_iff ⟨hstar, hany⟩]
          constructor
          · rintro ⟨z, hterm, hrest⟩
            obtain ⟨-, hdrop⟩ := (takes_literal_iff c x z).mp hterm
            exact ⟨_, hdrop, hrest⟩
          · rintro ⟨rest, hdrop, hrest⟩
            obtain rfl := rest_eq_drop [c] hdrop
            exact ⟨_, (takes_literal_iff c x _).mpr ⟨rfl, hdrop⟩, hrest⟩

/-- The expression of a glob is found in a value exactly when the value is obtained from the
pattern by replacements without line terminators. -/
theorem found_globRegex_iff (pattern : JsString) :
    (globRegex pattern).found Plain.sat (Anchor.holds value.length) value = true ↔
      Obtained (· ∉ lineTerminators) pattern value := by
  rw [Regex.found_iff]
  have hstart : (∃ y, Takes value (globTerms pattern) 0 y) ↔
      Obtained (· ∉ lineTerminators) pattern (value.drop 0) :=
    takes_globTerms_iff pattern (Nat.zero_le _)
  rw [List.drop_zero] at hstart
  rw [← hstart]
  constructor
  · rintro ⟨x, -, y, z, ⟨hholds, rfl⟩, hrest⟩
    obtain rfl : x = 0 := by simpa [Anchor.holds] using hholds
    exact ⟨y, hrest⟩
  · rintro ⟨y, hy⟩
    exact ⟨0, Nat.zero_le _, y, 0, ⟨rfl, rfl⟩, hy⟩

end Spans

/-! ## What a glob matches -/

section Match

variable (other : JsString → Option (JsString → Bool)) {value pattern : JsString}

/-- What `matchPattern` says of a glob. -/
theorem matchPattern_glob_iff (hglob : unit '*' ∈ pattern ∨ unit '?' ∈ pattern)
    (hslashed : ¬ Matcher.Slashed pattern) :
    matchPattern (regExpOf other) value pattern = true ↔
      pattern = js "*" ∨ Obtained (· ∉ lineTerminators) pattern value := by
  have hcompile : compile (regExpOf other) pattern =
      some fun value => (globRegex pattern).found Plain.sat (Anchor.holds value.length) value := by
    unfold compile
    show (if Matcher.Slashed pattern then _ else _) = _
    rw [if_neg hslashed, if_pos hglob, ← source_globRegex]
    unfold regExpOf
    rw [readRegExp_source]
  have hne : pattern ≠ [] := by
    rintro rfl
    simp at hglob
  unfold matchPattern
  by_cases hbare : pattern = js "*"
  · rw [if_pos (.inr hbare)]
    exact iff_of_true rfl (.inl hbare)
  · rw [if_neg (by tauto), or_iff_right hbare]
    by_cases hsame : value = pattern
    · rw [if_pos hsame, hsame]
      have hwild : ∀ c, c = unit '*' ∨ c = unit '?' → c ∉ lineTerminators := by
        rintro c (rfl | rfl)
        · decide
        · decide
      exact iff_of_true rfl (.refl hwild pattern)
    · rw [if_neg hsame, hcompile]
      exact found_globRegex_iff pattern

/-- **Globs.**  A glob matches what can be obtained from it, exactly when the pattern is a
bare `*`, or the value has as many line terminators as the pattern, or cannot be obtained
from it at all. -/
theorem glob_exact_iff (hglob : unit '*' ∈ pattern ∨ unit '?' ∈ pattern)
    (hslashed : ¬ Matcher.Slashed pattern) :
    (matchPattern (regExpOf other) value pattern = true ↔ GlobMatches value pattern) ↔
      pattern = js "*" ∨ lineBreaks value = lineBreaks pattern ∨ ¬ GlobMatches value pattern := by
  rw [matchPattern_glob_iff other hglob hslashed]
  by_cases hbare : pattern = js "*"
  · have hall : GlobMatches value pattern := by
      rw [hbare]
      have hstar : GlobMatches (value ++ []) (js "*") := .star value (fun _ _ => trivial) .done
      rwa [List.append_nil] at hstar
    exact iff_of_true (iff_of_true (.inl hbare) hall) (.inl hbare)
  · rw [or_iff_right hbare, or_iff_right hbare]
    constructor
    · intro h
      by_cases hmatches : GlobMatches value pattern
      · exact .inl (h.mpr hmatches).lineBreaks_eq
      · exact .inr hmatches
    · rintro (hcount | hnone)
      · exact ⟨fun h => h.mono fun _ _ => trivial, fun h => h.clean hcount⟩
      · exact iff_of_false (fun h => hnone (h.mono fun _ _ => trivial)) hnone

end Match

/-- A value without line terminators, against a glob. -/
theorem glob_exact_prefix :
    matchPattern (regExpOf fun _ => none) (js "user:42") (js "user:*") = true ↔
      GlobMatches (js "user:42") (js "user:*") :=
  (glob_exact_iff (fun _ => none) (by decide +kernel) (by decide +kernel)).mpr
    (.inr (.inl (by decide +kernel)))

/-- A `*` does not stand for a run with a line feed in it. -/
theorem glob_stops_at_line_feed :
    ¬ ∀ (other : JsString → Option (JsString → Bool)) (value pattern : JsString),
      (unit '*' ∈ pattern ∨ unit '?' ∈ pattern) → ¬ Matcher.Slashed pattern →
        (matchPattern (regExpOf other) value pattern = true ↔ GlobMatches value pattern) := by
  intro h
  have hmatches : GlobMatches (js "a\nb") (js "a*b") :=
    .same _ (by decide) (.star [unit '\n'] (fun _ _ => trivial) (.same _ (by decide) .done))
  have hverdict := (h (fun _ => none) (js "a\nb") (js "a*b") (by decide +kernel)
    (by decide +kernel)).mpr hmatches
  revert hverdict
  decide +kernel

end RateLimiter.Control
