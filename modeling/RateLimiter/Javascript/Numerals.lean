import Mathlib.Data.List.TakeWhile
import Mathlib.Data.Nat.Digits.Lemmas
import Mathlib.Tactic.Ring
import RateLimiter.Javascript.Text

/-!
# Reading numerals

What the reader of decimal numerals accepts: a text is read as a numeral when it
is spelled by one, and then by no other.  The rest of the module is about a
numeral with more text behind it, read on as far as it goes.
-/

namespace RateLimiter.Javascript

/-! ## Digits -/

theorem digitsValue_append (ds es : JsString) :
    digitsValue (ds ++ es) = digitsValue ds * 10 ^ es.length + digitsValue es := by
  unfold digitsValue
  rw [List.foldl_append]
  generalize ds.foldl _ 0 = start
  induction es generalizing start with
  | nil => simp
  | cons e es ih =>
      rw [List.foldl_cons, ih, List.foldl_cons, ih (10 * 0 + (digit? e).getD 0),
        List.length_cons, pow_succ]
      ring

/-- The character of a decimal digit. -/
def digitUnit (d : Nat) : CodeUnit := codeUnit (48 + d)

/-- `String(n)` of a natural number below 1e21. -/
def natText (n : Nat) : JsString :=
  if n = 0 then [digitUnit 0] else ((Nat.digits 10 n).map digitUnit).reverse

theorem digit?_digitUnit {d : Nat} (h : d < 10) : digit? (digitUnit d) = some d := by
  revert d
  decide

theorem digitsValue_reverse {ds : List Nat} (h : ∀ d ∈ ds, d < 10) :
    digitsValue (ds.map digitUnit).reverse = Nat.ofDigits 10 ds := by
  induction ds with
  | nil => rfl
  | cons d ds ih =>
      obtain ⟨hd, hds⟩ := List.forall_mem_cons.mp h
      have hone : digitsValue [digitUnit d] = d := by
        simp [digitsValue, digit?_digitUnit hd]
      rw [List.map_cons, List.reverse_cons, digitsValue_append, ih hds, hone, Nat.ofDigits_cons]
      simp only [List.length_singleton, pow_one]
      ring

theorem digitsValue_natText (n : Nat) : digitsValue (natText n) = n := by
  unfold natText
  split
  next h => rw [h]; rfl
  next =>
    rw [digitsValue_reverse fun d hd => Nat.digits_lt_base (by norm_num) hd, Nat.ofDigits_digits]

theorem natText_injective : Function.Injective natText := by
  intro m n h
  rw [← digitsValue_natText m, h, digitsValue_natText]

theorem isDigit_of_mem_natText {n : Nat} {c : CodeUnit} (h : c ∈ natText n) :
    isDigit c = true := by
  unfold natText at h
  split at h
  · obtain rfl := List.mem_singleton.mp h
    decide
  · rw [List.mem_reverse, List.mem_map] at h
    obtain ⟨d, hd, rfl⟩ := h
    unfold isDigit
    rw [digit?_digitUnit (Nat.digits_lt_base (by norm_num) hd)]
    rfl

theorem natText_ne_nil (n : Nat) : natText n ≠ [] := by
  unfold natText
  split
  · exact List.cons_ne_nil _ _
  next h => simp [Nat.digits_ne_nil_iff_ne_zero.mpr h]

/-- A sign, a point, an `e` or a digit: what a numeral is spelled with. -/
def isMark (c : CodeUnit) : Bool :=
  isDigit c || c = unit '-' || c = unit '+' || c = unit '.' || c = unit 'e' || c = unit 'E'

theorem not_mark {c : CodeUnit} (h : isMark c = false) :
    isDigit c = false ∧ c ≠ unit '.' ∧ c ≠ unit 'e' ∧ c ≠ unit 'E' := by
  simp only [isMark, Bool.or_eq_false_iff, decide_eq_false_iff_not] at h
  exact ⟨h.1.1.1.1.1, h.1.1.2, h.1.2, h.2⟩

/-- A class of blanks that no numeral is spelled with. -/
def Blanks (blank : CodeUnit → Bool) : Prop := ∀ c, blank c = true → isMark c = false

/-! ## Spelling -/

/-- How a sign is written. -/
def signText : Option Bool → JsString
  | none => []
  | some true => [unit '-']
  | some false => [unit '+']

/-- How a fraction is written. -/
def fracText : Option JsString → JsString
  | none => []
  | some digits => unit '.' :: digits

/-- How an exponent is written, after the letter `e` or `E`. -/
def expText (letter : CodeUnit) : Option (Option Bool × JsString) → JsString
  | none => []
  | some (sign, digits) => letter :: (signText sign ++ digits)

namespace Numeral

/-- The numeral without the blanks around it. -/
def body (n : Numeral) (letter : CodeUnit) : JsString :=
  signText n.sign ++ (n.int ++ (fracText n.frac ++ expText letter n.exp))

/-- The parts of a numeral are what they are meant to be. -/
structure WellFormed (blank : CodeUnit → Bool) (n : Numeral) : Prop where
  lead : ∀ c ∈ n.lead, blank c = true
  int : ∀ c ∈ n.int, isDigit c = true
  frac : ∀ digits, n.frac = some digits → ∀ c ∈ digits, isDigit c = true
  exp : ∀ sign digits, n.exp = some (sign, digits) →
    digits ≠ [] ∧ ∀ c ∈ digits, isDigit c = true
  trail : ∀ c ∈ n.trail, blank c = true
  digits : n.int ≠ [] ∨ n.frac.getD [] ≠ []

end Numeral

theorem readSign_spec (text : JsString) :
    text = signText (readSign text).1 ++ (readSign text).2 := by
  cases text with
  | nil => rfl
  | cons c rest =>
      rw [readSign]
      split
      next h => simp [signText, h]
      next =>
        split
        next h => simp [signText, h]
        next => rfl

theorem readFrac_spec (text : JsString) :
    text = fracText (readFrac text).1 ++ (readFrac text).2 ∧
      ∀ digits, (readFrac text).1 = some digits → ∀ c ∈ digits, isDigit c = true := by
  cases text with
  | nil => simp [readFrac, fracText]
  | cons c rest =>
      rw [readFrac]
      split
      next h =>
        refine ⟨by simp [fracText, h], ?_⟩
        intro digits hdigits d hd
        cases hdigits
        exact List.mem_takeWhile_imp hd
      next => simp [fracText]

theorem readExp_spec (text : JsString) :
    (∃ letter, (letter = unit 'e' ∨ letter = unit 'E') ∧
      text = expText letter (readExp text).1 ++ (readExp text).2) ∧
      ∀ sign digits, (readExp text).1 = some (sign, digits) →
        digits ≠ [] ∧ ∀ c ∈ digits, isDigit c = true := by
  cases text with
  | nil => exact ⟨⟨unit 'e', Or.inl rfl, rfl⟩, by simp [readExp]⟩
  | cons c rest =>
      rw [readExp]
      split
      next h =>
        refine ⟨⟨c, h.1, ?_⟩, ?_⟩
        · simp only [expText, List.cons_append, List.append_assoc, List.takeWhile_append_dropWhile]
          rw [← readSign_spec rest]
        · intro sign digits hdigits
          cases hdigits
          exact ⟨h.2, fun d hd => List.mem_takeWhile_imp hd⟩
      next => exact ⟨⟨unit 'e', Or.inl rfl, rfl⟩, by simp⟩

/-- A text that is read is spelled by what it is read as. -/
theorem readNumeral_spec {blank : CodeUnit → Bool} {text : JsString} {n : Numeral}
    (h : readNumeral blank text = some n) :
    n.WellFormed blank ∧ ∃ letter, (letter = unit 'e' ∨ letter = unit 'E') ∧
      text = n.lead ++ (n.body letter ++ n.trail) := by
  unfold readNumeral at h
  dsimp only at h
  split at h
  next hread =>
    cases h
    have hsign := readSign_spec (text.dropWhile blank)
    obtain ⟨hfrac, hfracDigits⟩ :=
      readFrac_spec ((readSign (text.dropWhile blank)).2.dropWhile isDigit)
    obtain ⟨⟨letter, hletter, hexp⟩, hexpDigits⟩ := readExp_spec
      (readFrac ((readSign (text.dropWhile blank)).2.dropWhile isDigit)).2
    refine ⟨⟨?_, ?_, hfracDigits, hexpDigits, ?_, hread.1⟩, letter, hletter, ?_⟩
    · exact fun c hc => List.mem_takeWhile_imp hc
    · exact fun c hc => List.mem_takeWhile_imp hc
    · exact List.all_eq_true.mp hread.2
    · unfold Numeral.body
      dsimp only
      simp only [List.append_assoc]
      rw [← hexp, ← hfrac, List.takeWhile_append_dropWhile, ← hsign,
        List.takeWhile_append_dropWhile]
  next => cases h

/-! ## Reading on -/

/-- The text is empty or starts with a character of the class. -/
def Starts (p : CodeUnit → Prop) (text : JsString) : Prop := ∀ c ∈ text.head?, p c

theorem starts_cons {p : CodeUnit → Prop} {c : CodeUnit} {text : JsString} (h : p c) :
    Starts p (c :: text) := by
  intro d hd
  cases hd
  exact h

theorem span_of_starts {p : CodeUnit → Bool} {text : JsString}
    (h : Starts (fun c => p c = false) text) :
    text.takeWhile p = [] ∧ text.dropWhile p = text := by
  cases text with
  | nil => exact ⟨rfl, rfl⟩
  | cons c rest =>
      have hc := h c rfl
      simp [hc]

/-- A class of characters is read off to its end. -/
theorem span_append {p : CodeUnit → Bool} {front : JsString} (rest : JsString)
    (h : ∀ c ∈ front, p c = true) :
    (front ++ rest).takeWhile p = front ++ rest.takeWhile p ∧
      (front ++ rest).dropWhile p = rest.dropWhile p :=
  ⟨List.takeWhile_append_of_pos h, List.dropWhile_append_of_pos h⟩

/-- Classes that agree on a text split it at the same place. -/
theorem span_congr {p q : CodeUnit → Bool} {text : JsString}
    (h : ∀ c ∈ text, p c = q c) :
    text.takeWhile p = text.takeWhile q ∧ text.dropWhile p = text.dropWhile q := by
  induction text with
  | nil => exact ⟨rfl, rfl⟩
  | cons c text ih =>
      obtain ⟨hc, htext⟩ := List.forall_mem_cons.mp h
      obtain ⟨htake, hdrop⟩ := ih htext
      rw [List.takeWhile_cons, List.takeWhile_cons, List.dropWhile_cons, List.dropWhile_cons, hc,
        htake, hdrop]
      exact ⟨rfl, rfl⟩

theorem isMark_of_isDigit {c : CodeUnit} (h : isDigit c = true) : isMark c = true := by
  simp [isMark, h]

/-- A digit, or the point in front of one. -/
def isLeading (c : CodeUnit) : Bool := isDigit c || c = unit '.'

theorem not_sign_of_isLeading {c : CodeUnit} (h : isLeading c = true) :
    c ≠ unit '-' ∧ c ≠ unit '+' := by
  refine ⟨?_, ?_⟩
  · rintro rfl
    revert h
    decide
  · rintro rfl
    revert h
    decide

theorem readSign_signText {sign : Option Bool} {text : JsString}
    (h : Starts (fun c => c ≠ unit '-' ∧ c ≠ unit '+') text) :
    readSign (signText sign ++ text) = (sign, text) := by
  cases sign with
  | none =>
      cases text with
      | nil => rfl
      | cons c rest =>
          obtain ⟨hminus, hplus⟩ := h c rfl
          simp [signText, readSign, hminus, hplus]
  | some negative => cases negative <;> rfl

theorem readFrac_of_starts {text : JsString} (h : Starts (fun c => c ≠ unit '.') text) :
    readFrac text = (none, text) := by
  cases text with
  | nil => rfl
  | cons c rest =>
      have hc := h c rfl
      simp [readFrac, hc]

theorem readFrac_point {digits : JsString} (rest : JsString)
    (h : ∀ c ∈ digits, isDigit c = true) :
    readFrac (unit '.' :: (digits ++ rest)) =
      (some (digits ++ rest.takeWhile isDigit), rest.dropWhile isDigit) := by
  obtain ⟨htake, hdrop⟩ := span_append rest h
  rw [readFrac, if_pos rfl, htake, hdrop]

theorem readExp_of_starts {text : JsString}
    (h : Starts (fun c => c ≠ unit 'e' ∧ c ≠ unit 'E') text) : readExp text = (none, text) := by
  cases text with
  | nil => rfl
  | cons c rest =>
      obtain ⟨hlower, hupper⟩ := h c rfl
      rw [readExp]
      simp [hlower, hupper]

theorem readExp_letter {letter : CodeUnit} (hletter : letter = unit 'e' ∨ letter = unit 'E')
    (sign : Option Bool) {digits : JsString} (rest : JsString) (hne : digits ≠ [])
    (h : ∀ c ∈ digits, isDigit c = true) :
    readExp (letter :: (signText sign ++ (digits ++ rest))) =
      (some (sign, digits ++ rest.takeWhile isDigit), rest.dropWhile isDigit) := by
  obtain ⟨htake, hdrop⟩ := span_append rest h
  have hstart : Starts (fun c => c ≠ unit '-' ∧ c ≠ unit '+') (digits ++ rest) := by
    cases digits with
    | nil => exact absurd rfl hne
    | cons d ds =>
        refine starts_cons (not_sign_of_isLeading ?_)
        simp [isLeading, h d List.mem_cons_self]
  have hsign : readSign (signText sign ++ (digits ++ rest)) = (sign, digits ++ rest) :=
    readSign_signText hstart
  rw [readExp, hsign]
  dsimp only
  rw [htake, hdrop, if_pos ⟨hletter, by simp [hne]⟩]

section Spelled

variable {blank : CodeUnit → Bool} {n : Numeral} {letter : CodeUnit}

/-- What follows the sign starts with a digit or with a point. -/
theorem starts_unsigned (hwf : n.WellFormed blank) (rest : JsString) :
    Starts (fun c => isLeading c = true) (n.int ++ (fracText n.frac ++ rest)) := by
  cases hint : n.int with
  | cons d ds =>
      apply starts_cons
      have hd := hwf.int d (by rw [hint]; exact List.mem_cons_self)
      simp [isLeading, hd]
  | nil =>
      cases hfrac : n.frac with
      | none =>
          have hdigits := hwf.digits
          simp [hint, hfrac] at hdigits
      | some digits =>
          apply starts_cons
          simp [isLeading]

theorem starts_body (letter : CodeUnit) (hblanks : Blanks blank) (hwf : n.WellFormed blank)
    (rest : JsString) :
    Starts (fun c => blank c = false) (n.body letter ++ rest) := by
  have hmark : ∀ c, isMark c = true → blank c = false := by
    intro c hc
    by_contra hblank
    rw [hblanks c (by simpa using hblank)] at hc
    cases hc
  unfold Numeral.body
  cases hsign : n.sign with
  | none =>
      intro c hc
      simp only [signText, List.nil_append, List.append_assoc] at hc
      have hleading := starts_unsigned hwf _ c hc
      refine hmark c ?_
      unfold isLeading at hleading
      rcases Bool.or_eq_true_iff.mp hleading with hdigit | hpoint
      · exact isMark_of_isDigit hdigit
      · simp [isMark, of_decide_eq_true hpoint]
  | some negative =>
      cases negative
      · exact starts_cons (hmark _ (by decide))
      · exact starts_cons (hmark _ (by decide))

/-- The reader takes the blanks and the sign of a spelled numeral, and reads on
from its integer digits. -/
theorem readNumeral_spelled (hblanks : Blanks blank) (hwf : n.WellFormed blank) {rest : JsString}
    {int afterInt afterFrac trail : JsString} {frac : Option JsString}
    {exp : Option (Option Bool × JsString)}
    (hint : (n.int ++ (fracText n.frac ++ (expText letter n.exp ++ rest))).takeWhile isDigit = int)
    (hafter : (n.int ++ (fracText n.frac ++ (expText letter n.exp ++ rest))).dropWhile isDigit =
      afterInt)
    (hfrac : readFrac afterInt = (frac, afterFrac)) (hexp : readExp afterFrac = (exp, trail))
    (hdigits : int ≠ [] ∨ frac.getD [] ≠ []) :
    readNumeral blank (n.lead ++ (n.body letter ++ rest)) =
      if trail.all blank then some ⟨n.lead, n.sign, int, frac, exp, trail⟩ else none := by
  obtain ⟨htakeBody, hdropBody⟩ :=
    span_of_starts (starts_body letter hblanks hwf rest)
  obtain ⟨htake, hdrop⟩ := span_append (n.body letter ++ rest) hwf.lead
  rw [htakeBody, List.append_nil] at htake
  rw [hdropBody] at hdrop
  have hstart : Starts (fun c => c ≠ unit '-' ∧ c ≠ unit '+')
      (n.int ++ (fracText n.frac ++ (expText letter n.exp ++ rest))) := fun c hc =>
    not_sign_of_isLeading (starts_unsigned hwf _ c hc)
  have hsign : readSign (n.body letter ++ rest) =
      (n.sign, n.int ++ (fracText n.frac ++ (expText letter n.exp ++ rest))) := by
    unfold Numeral.body
    simp only [List.append_assoc]
    exact readSign_signText hstart
  unfold readNumeral
  dsimp only
  rw [htake, hdrop, hsign]
  dsimp only
  rw [hint, hafter, hfrac]
  dsimp only
  rw [hexp]
  exact if_congr (and_iff_right hdigits) rfl rfl

theorem starts_point (rest : JsString) :
    Starts (fun c => isDigit c = false) (unit '.' :: rest) := starts_cons (by decide)

theorem starts_letter (hletter : letter = unit 'e' ∨ letter = unit 'E') (rest : JsString) :
    Starts (fun c => isDigit c = false ∧ c ≠ unit '.') (letter :: rest) := by
  rcases hletter with rfl | rfl
  · exact starts_cons (by decide)
  · exact starts_cons (by decide)

/-- After an exponent the reader goes on with its digits. -/
theorem readNumeral_exp (hblanks : Blanks blank) (hwf : n.WellFormed blank)
    (hletter : letter = unit 'e' ∨ letter = unit 'E') {sign : Option Bool} {digits : JsString}
    (hexp : n.exp = some (sign, digits)) {rest more trail : JsString}
    (hmore : rest.takeWhile isDigit = more) (htrail : rest.dropWhile isDigit = trail) :
    readNumeral blank (n.lead ++ (n.body letter ++ rest)) =
      if trail.all blank then
        some ⟨n.lead, n.sign, n.int, n.frac, some (sign, digits ++ more), trail⟩
      else none := by
  subst hmore htrail
  obtain ⟨hne, hdigits⟩ := hwf.exp sign digits hexp
  have hread := readExp_letter hletter sign rest hne hdigits
  have hafter : Starts (fun c => isDigit c = false)
      (fracText n.frac ++ (letter :: (signText sign ++ (digits ++ rest)))) := by
    cases n.frac with
    | none => exact fun c hc => (starts_letter hletter _ c hc).1
    | some frac => exact starts_point _
  have hfrac : readFrac (fracText n.frac ++ (letter :: (signText sign ++ (digits ++ rest)))) =
      (n.frac, letter :: (signText sign ++ (digits ++ rest))) := by
    cases hfrac : n.frac with
    | none => exact readFrac_of_starts fun c hc => (starts_letter hletter _ c hc).2
    | some frac =>
        have hpoint := readFrac_point (letter :: (signText sign ++ (digits ++ rest)))
          (hwf.frac frac hfrac)
        obtain ⟨htake, hdrop⟩ := span_of_starts (p := isDigit) fun c hc =>
          (starts_letter hletter (signText sign ++ (digits ++ rest)) c hc).1
        rw [htake, hdrop, List.append_nil] at hpoint
        exact hpoint
  obtain ⟨htake, hdrop⟩ := span_append (fracText n.frac ++
    (letter :: (signText sign ++ (digits ++ rest)))) hwf.int
  obtain ⟨htakeAfter, hdropAfter⟩ := span_of_starts hafter
  rw [htakeAfter, List.append_nil] at htake
  rw [hdropAfter] at hdrop
  have htext : n.int ++ (fracText n.frac ++ (expText letter n.exp ++ rest)) =
      n.int ++ (fracText n.frac ++ (letter :: (signText sign ++ (digits ++ rest)))) := by
    rw [hexp]
    simp [expText]
  exact readNumeral_spelled hblanks hwf (by rw [htext, htake]) (by rw [htext, hdrop]) hfrac hread
    hwf.digits

/-- After a point the reader goes on with the digits behind it and an exponent. -/
theorem readNumeral_frac (hblanks : Blanks blank) (hwf : n.WellFormed blank)
    (hexp : n.exp = none) {frac : JsString} (hfrac : n.frac = some frac)
    {rest more afterMore trail : JsString} {exp : Option (Option Bool × JsString)}
    (hmore : rest.takeWhile isDigit = more) (hafter : rest.dropWhile isDigit = afterMore)
    (hread : readExp afterMore = (exp, trail)) :
    readNumeral blank (n.lead ++ (n.body letter ++ rest)) =
      if trail.all blank then some ⟨n.lead, n.sign, n.int, some (frac ++ more), exp, trail⟩
      else none := by
  subst hmore hafter
  have hpoint := readFrac_point rest (hwf.frac frac hfrac)
  obtain ⟨htake, hdrop⟩ := span_append (unit '.' :: (frac ++ rest)) hwf.int
  obtain ⟨htakeAfter, hdropAfter⟩ := span_of_starts (starts_point (frac ++ rest))
  rw [htakeAfter, List.append_nil] at htake
  rw [hdropAfter] at hdrop
  have hdigits : n.int ≠ [] ∨ (some (frac ++ rest.takeWhile isDigit)).getD [] ≠ [] := by
    rcases hwf.digits with hint | hfracDigits
    · exact Or.inl hint
    · right
      rw [hfrac] at hfracDigits
      simp only [Option.getD_some] at hfracDigits ⊢
      simp [hfracDigits]
  have htext : n.int ++ (fracText n.frac ++ (expText letter n.exp ++ rest)) =
      n.int ++ (unit '.' :: (frac ++ rest)) := by
    rw [hexp, hfrac]
    simp [expText, fracText]
  exact readNumeral_spelled hblanks hwf (by rw [htext, htake]) (by rw [htext, hdrop]) hpoint hread
    hdigits

/-- After integer digits the reader goes on with anything a numeral can have. -/
theorem readNumeral_int (letter : CodeUnit) (rest : JsString) (hblanks : Blanks blank)
    (hwf : n.WellFormed blank)
    (hexp : n.exp = none) (hfrac : n.frac = none)
    {more afterMore afterFrac trail : JsString} {frac : Option JsString}
    {exp : Option (Option Bool × JsString)} (hmore : rest.takeWhile isDigit = more)
    (hafter : rest.dropWhile isDigit = afterMore)
    (hreadFrac : readFrac afterMore = (frac, afterFrac))
    (hreadExp : readExp afterFrac = (exp, trail)) :
    readNumeral blank (n.lead ++ (n.body letter ++ rest)) =
      if trail.all blank then some ⟨n.lead, n.sign, n.int ++ more, frac, exp, trail⟩ else none := by
  subst hmore hafter
  obtain ⟨htake, hdrop⟩ := span_append rest hwf.int
  have hint : n.int ≠ [] := by
    have hdigits := hwf.digits
    rw [hfrac] at hdigits
    simpa using hdigits
  have htext : n.int ++ (fracText n.frac ++ (expText letter n.exp ++ rest)) = n.int ++ rest := by
    rw [hexp, hfrac]
    simp [expText, fracText]
  exact readNumeral_spelled hblanks hwf (by rw [htext, htake]) (by rw [htext, hdrop]) hreadFrac
    hreadExp (Or.inl (by simp [hint]))

end Spelled

/-! ## Numerals of natural numbers -/

/-- The numeral of a natural number. -/
def natNumeral (n : Nat) : Numeral := ⟨[], none, natText n, none, none, []⟩

theorem natNumeral_wellFormed (blank : CodeUnit → Bool) (n : Nat) :
    (natNumeral n).WellFormed blank where
  lead := fun c hc => by cases hc
  int := fun c hc => isDigit_of_mem_natText hc
  frac := fun digits h => by cases h
  exp := fun sign digits h => by cases h
  trail := fun c hc => by cases hc
  digits := Or.inl (natText_ne_nil n)

theorem natNumeral_value (n : Nat) : (natNumeral n).value = n := by
  simp [natNumeral, Numeral.value, Numeral.exponent, signFactor, digitsValue_natText]

/-- A natural number is read back as itself. -/
theorem readNumeral_natText {blank : CodeUnit → Bool} (hblanks : Blanks blank) (n : Nat) :
    readNumeral blank (natText n) = some (natNumeral n) := by
  have hread := readNumeral_int (unit 'e') [] hblanks (natNumeral_wellFormed blank n) rfl rfl rfl
    rfl rfl rfl
  have htext : (natNumeral n).lead ++ ((natNumeral n).body (unit 'e') ++ []) = natText n := by
    simp [natNumeral, Numeral.body, signText, fracText, expText]
  rw [htext] at hread
  rw [hread]
  simp [natNumeral]

/-! ## One numeral after another -/

namespace Numeral

/-- The text of `o` continues the text of `p`: nothing that ends a numeral stands
between them, and `o` has no part that `p` has already passed. -/
def Continues (blank : CodeUnit → Bool) (p o : Numeral) : Prop :=
  (∀ c ∈ p.lead, blank c = true) ∧ p.trail = [] ∧ o.lead = [] ∧ o.sign = none ∧
    (∀ c ∈ o.trail, blank c = true) ∧
    (p.exp ≠ none → o.frac = none ∧ o.exp = none) ∧ (p.frac ≠ none → o.frac = none)

/-- What `p` and `o` are read as when `o` continues `p`: its digits go on the part
`p` ends with. -/
def continued (p o : Numeral) : Numeral :=
  match p.exp, p.frac with
  | some (sign, digits), _ => { p with exp := some (sign, digits ++ o.int), trail := o.trail }
  | none, some frac =>
      { p with frac := some (frac ++ o.int), exp := o.exp, trail := o.trail }
  | none, none =>
      { p with int := p.int ++ o.int, frac := o.frac, exp := o.exp, trail := o.trail }

end Numeral

section Concatenation

variable {inner outer : CodeUnit → Bool} {p o : Numeral} {letter letter' : CodeUnit}

/-- A character no numeral is spelled with stops the reader before it has begun. -/
theorem readNumeral_of_not_mark {c : CodeUnit} {rest : JsString} (hblank : inner c = false)
    (hmark : isMark c = false) {front : JsString} (hfront : ∀ d ∈ front, inner d = true) :
    readNumeral inner (front ++ c :: rest) = none := by
  have hspan : Starts (fun d => inner d = false) (c :: rest) := starts_cons hblank
  obtain ⟨-, hdropRest⟩ := span_of_starts hspan
  obtain ⟨-, hdrop⟩ := span_append (c :: rest) hfront
  rw [hdropRest] at hdrop
  simp only [isMark, Bool.or_eq_false_iff, decide_eq_false_iff_not] at hmark
  obtain ⟨⟨⟨⟨⟨hdigit, hminus⟩, hplus⟩, hpoint⟩, -⟩, -⟩ := hmark
  have hsign : readSign (c :: rest) = (none, c :: rest) := by
    simp [readSign, hminus, hplus]
  have hstarts : Starts (fun d => isDigit d = false) (c :: rest) := starts_cons hdigit
  obtain ⟨htake, hafter⟩ := span_of_starts hstarts
  have hfrac : readFrac (c :: rest) = (none, c :: rest) :=
    readFrac_of_starts (starts_cons hpoint)
  unfold readNumeral
  dsimp only
  rw [hdrop, hsign]
  dsimp only
  rw [htake, hafter, hfrac]
  exact if_neg (by simp)

/-- A text is not read behind blanks of which the reader skips only some. -/
theorem readNumeral_unskipped (houter : Blanks outer) {lead : JsString}
    (hlead : ∀ c ∈ lead, outer c = true) (h : ¬ ∀ c ∈ lead, inner c = true) (rest : JsString) :
    readNumeral inner (lead ++ rest) = none := by
  push Not at h
  obtain ⟨c, hc, hblank⟩ := h
  have hskipped : lead.dropWhile inner ≠ [] := by
    intro hnil
    exact hblank (List.dropWhile_eq_nil_iff.mp hnil c hc)
  -- The first character it does not skip is a blank of the other kind, and no mark.
  obtain ⟨d, ds, hdrop⟩ := List.exists_cons_of_ne_nil hskipped
  have hd : inner d = false := by
    have hhead := List.head_dropWhile_not inner hskipped
    simp only [hdrop, List.head_cons] at hhead
    simpa using hhead
  have hmem : d ∈ lead := by
    apply (List.dropWhile_sublist inner).subset
    rw [hdrop]
    exact List.mem_cons_self
  have hsplit : lead = lead.takeWhile inner ++ d :: ds := by
    rw [← hdrop, List.takeWhile_append_dropWhile]
  rw [hsplit, List.append_assoc, List.cons_append]
  exact readNumeral_of_not_mark hd (houter d (hlead d hmem)) fun e he => List.mem_takeWhile_imp he

/-- A text that goes on with a blank or a sign and has a digit further on is not
read. -/
theorem readNumeral_blocked (hblanks : Blanks inner) (hwf : p.WellFormed inner)
    (hletter : letter = unit 'e' ∨ letter = unit 'E') {rest : JsString}
    (hstart : Starts (fun c => isDigit c = false ∧ c ≠ unit '.' ∧ c ≠ unit 'e' ∧ c ≠ unit 'E') rest)
    (hrest : rest.all inner = false) :
    readNumeral inner (p.lead ++ (p.body letter ++ rest)) = none := by
  obtain ⟨-, hdrop⟩ := span_of_starts (p := isDigit) fun c hc => (hstart c hc).1
  have hfrac : readFrac rest = (none, rest) := readFrac_of_starts fun c hc => (hstart c hc).2.1
  have hexp : readExp rest = (none, rest) := readExp_of_starts fun c hc => (hstart c hc).2.2
  cases hpexp : p.exp with
  | some exp =>
      obtain ⟨sign, digits⟩ := exp
      rw [readNumeral_exp hblanks hwf hletter hpexp rfl hdrop, hrest]
      rfl
  | none =>
      cases hpfrac : p.frac with
      | some frac =>
          rw [readNumeral_frac hblanks hwf hpexp hpfrac rfl hdrop hexp, hrest]
          rfl
      | none =>
          rw [readNumeral_int _ _ hblanks hwf hpexp hpfrac rfl hdrop hfrac hexp, hrest]
          rfl

/-- A well-formed numeral has a digit. -/
theorem exists_digit_body (letter : CodeUnit) (hwf : o.WellFormed outer) :
    ∃ c ∈ o.body letter, isDigit c = true := by
  rcases hwf.digits with hint | hfrac
  · obtain ⟨c, hc⟩ := List.exists_mem_of_ne_nil _ hint
    exact ⟨c, by simp [Numeral.body, hc], hwf.int c hc⟩
  · cases hofrac : o.frac with
    | none => simp [hofrac] at hfrac
    | some digits =>
        rw [hofrac] at hfrac
        obtain ⟨c, hc⟩ := List.exists_mem_of_ne_nil _ hfrac
        exact ⟨c, by simp [Numeral.body, hofrac, fracText, show c ∈ digits from hc],
          hwf.frac digits hofrac c hc⟩

theorem not_all_of_digit (hblanks : Blanks inner) {text : JsString}
    (h : ∃ c ∈ text, isDigit c = true) : text.all inner = false := by
  obtain ⟨c, hc, hdigit⟩ := h
  rw [List.all_eq_false]
  refine ⟨c, hc, ?_⟩
  intro hblank
  have hmark := hblanks c hblank
  rw [isMark_of_isDigit hdigit] at hmark
  cases hmark

/-- What is left of an unsigned numeral behind its integer digits. -/
theorem read_rest (hblanks : Blanks outer) (hwf : o.WellFormed outer)
    (hletter : letter = unit 'e' ∨ letter = unit 'E') :
    (o.int ++ (fracText o.frac ++ (expText letter o.exp ++ o.trail))).takeWhile isDigit = o.int ∧
    (o.int ++ (fracText o.frac ++ (expText letter o.exp ++ o.trail))).dropWhile isDigit =
      fracText o.frac ++ (expText letter o.exp ++ o.trail) ∧
    readFrac (fracText o.frac ++ (expText letter o.exp ++ o.trail)) =
      (o.frac, expText letter o.exp ++ o.trail) ∧
    readExp (expText letter o.exp ++ o.trail) = (o.exp, o.trail) := by
  have htrail : Starts (fun c => isMark c = false) o.trail := fun c hc =>
    hblanks c (hwf.trail c (List.mem_of_mem_head? hc))
  -- From the back: the blanks, the exponent, the point, the integer digits.
  obtain ⟨htakeTrail, hdropTrail⟩ := span_of_starts (p := isDigit) fun c hc =>
    (not_mark (htrail c hc)).1
  have hexpStarts : Starts (fun c => isDigit c = false ∧ c ≠ unit '.')
      (expText letter o.exp ++ o.trail) := by
    cases o.exp with
    | none => exact fun c hc => ⟨(not_mark (htrail c hc)).1, (not_mark (htrail c hc)).2.1⟩
    | some exp => exact starts_letter hletter _
  have hexp : readExp (expText letter o.exp ++ o.trail) = (o.exp, o.trail) := by
    cases hoexp : o.exp with
    | none => exact readExp_of_starts fun c hc => (not_mark (htrail c hc)).2.2
    | some exp =>
        obtain ⟨sign, digits⟩ := exp
        obtain ⟨hne, hdigits⟩ := hwf.exp sign digits hoexp
        have hread := readExp_letter hletter sign o.trail hne hdigits
        rw [htakeTrail, hdropTrail, List.append_nil] at hread
        simpa [expText] using hread
  obtain ⟨htakeExp, hdropExp⟩ := span_of_starts (p := isDigit) fun c hc => (hexpStarts c hc).1
  have hfrac : readFrac (fracText o.frac ++ (expText letter o.exp ++ o.trail)) =
      (o.frac, expText letter o.exp ++ o.trail) := by
    cases hofrac : o.frac with
    | none => exact readFrac_of_starts fun c hc => (hexpStarts c hc).2
    | some digits =>
        have hread := readFrac_point (expText letter o.exp ++ o.trail)
          (hwf.frac digits hofrac)
        rw [htakeExp, hdropExp, List.append_nil] at hread
        exact hread
  have hfracStarts : Starts (fun c => isDigit c = false)
      (fracText o.frac ++ (expText letter o.exp ++ o.trail)) := by
    cases o.frac with
    | none => exact fun c hc => (hexpStarts c hc).1
    | some digits => exact starts_point _
  obtain ⟨htakeFrac, hdropFrac⟩ := span_of_starts hfracStarts
  obtain ⟨htake, hdrop⟩ := span_append
    (fracText o.frac ++ (expText letter o.exp ++ o.trail)) hwf.int
  rw [htakeFrac, List.append_nil] at htake
  rw [hdropFrac] at hdrop
  exact ⟨htake, hdrop, hfrac, hexp⟩

theorem Blanks.mono (houter : Blanks outer) (hsub : ∀ c, inner c = true → outer c = true) :
    Blanks inner := fun c hc => houter c (hsub c hc)

theorem Numeral.WellFormed.bare (hp : p.WellFormed outer) (hlead : ∀ c ∈ p.lead, inner c = true) :
    { p with trail := [] : Numeral }.WellFormed inner :=
  { lead := hlead
    int := hp.int
    frac := hp.frac
    exp := hp.exp
    trail := fun c hc => by cases hc
    digits := hp.digits }

/-- A numeral that continues another is read as one numeral with it. -/
theorem readNumeral_continues (houter : Blanks outer)
    (hsub : ∀ c, inner c = true → outer c = true) (hp : p.WellFormed outer)
    (ho : o.WellFormed outer) (hletter : letter = unit 'e' ∨ letter = unit 'E')
    (hletter' : letter' = unit 'e' ∨ letter' = unit 'E') (h : p.Continues inner o) :
    readNumeral inner ((p.lead ++ (p.body letter ++ p.trail)) ++
      (o.lead ++ (o.body letter' ++ o.trail))) = some (p.continued o) := by
  obtain ⟨hlead, htrail, holead, hosign, hotrail, hpastExp, hpastFrac⟩ := h
  obtain ⟨htake, hdrop, hfrac, hexp⟩ := read_rest houter ho hletter'
  have hall : o.trail.all inner = true := List.all_eq_true.mpr hotrail
  have htext : (p.lead ++ (p.body letter ++ p.trail)) ++ (o.lead ++ (o.body letter' ++ o.trail)) =
      p.lead ++ (p.body letter ++
        (o.int ++ (fracText o.frac ++ (expText letter' o.exp ++ o.trail)))) := by
    rw [htrail, holead]
    unfold Numeral.body
    rw [hosign]
    simp [signText]
  have hwf := hp.bare hlead
  have hinner := houter.mono hsub
  rw [htext]
  unfold Numeral.continued
  cases hpexp : p.exp with
  | some exp =>
      obtain ⟨sign, digits⟩ := exp
      obtain ⟨hofrac, hoexp⟩ := hpastExp (by simp [hpexp])
      have hrest : fracText o.frac ++ (expText letter' o.exp ++ o.trail) = o.trail := by
        rw [hofrac, hoexp]
        rfl
      exact (readNumeral_exp hinner hwf hletter hpexp htake (hdrop.trans hrest)).trans (if_pos hall)
  | none =>
      cases hpfrac : p.frac with
      | some frac =>
          have hrest : fracText o.frac ++ (expText letter' o.exp ++ o.trail) =
              expText letter' o.exp ++ o.trail := by
            rw [hpastFrac (by simp [hpfrac])]
            rfl
          exact (readNumeral_frac hinner hwf hpexp hpfrac htake (hdrop.trans hrest) hexp).trans
            (if_pos hall)
      | none =>
          exact (readNumeral_int _ _ hinner hwf hpexp hpfrac htake hdrop hfrac hexp).trans
            (if_pos hall)

/-- An unsigned numeral is not read behind another one that has passed a part of it,
nor with a blank behind it that the reader does not skip. -/
theorem readNumeral_refused (hinner : Blanks inner) (houter : Blanks outer)
    (hwf : { p with trail := [] : Numeral }.WellFormed inner) (ho : o.WellFormed outer)
    (hletter : letter = unit 'e' ∨ letter = unit 'E')
    (hletter' : letter' = unit 'e' ∨ letter' = unit 'E')
    (h : (∀ c ∈ o.trail, inner c = true) →
      ¬ ((p.exp ≠ none → o.frac = none ∧ o.exp = none) ∧ (p.frac ≠ none → o.frac = none))) :
    readNumeral inner (p.lead ++ (p.body letter ++
      (o.int ++ (fracText o.frac ++ (expText letter' o.exp ++ o.trail))))) = none := by
  obtain ⟨htake, hdrop, hfrac, hexp⟩ := read_rest houter ho hletter'
  have hmark (c : CodeUnit) (hc : isMark c = true) {text : JsString} (hmem : c ∈ text) :
      text.all inner = false := by
    refine List.all_eq_false.mpr ⟨c, hmem, ?_⟩
    intro hblank
    rw [hinner c hblank] at hc
    cases hc
  have hpoint (hofrac : o.frac ≠ none) :
      (fracText o.frac ++ (expText letter' o.exp ++ o.trail)).all inner = false := by
    obtain ⟨digits, hdigits⟩ := Option.ne_none_iff_exists'.mp hofrac
    exact hmark (unit '.') (by decide) (by simp [hdigits, fracText])
  have hexpMark (hoexp : o.exp ≠ none) :
      (fracText o.frac ++ (expText letter' o.exp ++ o.trail)).all inner = false := by
    obtain ⟨⟨sign, digits⟩, hdigits⟩ := Option.ne_none_iff_exists'.mp hoexp
    refine hmark letter' ?_ (by simp [hdigits, expText])
    rcases hletter' with rfl | rfl <;> decide
  have htrail (hpast : (p.exp ≠ none → o.frac = none ∧ o.exp = none) ∧
      (p.frac ≠ none → o.frac = none)) : o.trail.all inner = false := by
    by_contra hall
    exact h (List.all_eq_true.mp (by simpa using hall)) hpast
  cases hpexp : p.exp with
  | some exp =>
      obtain ⟨sign, digits⟩ := exp
      refine (readNumeral_exp hinner hwf hletter hpexp htake hdrop).trans (if_neg ?_)
      -- Behind an exponent anything but digits is left over.
      by_cases hbare : o.frac = none ∧ o.exp = none
      · have hrest := htrail ⟨fun _ => hbare, fun _ => hbare.1⟩
        rw [hbare.1, hbare.2]
        simp [fracText, expText, hrest]
      · rcases not_and_or.mp hbare with hofrac | hoexp
        · simp [hpoint hofrac]
        · simp [hexpMark hoexp]
  | none =>
      cases hpfrac : p.frac with
      | some frac =>
          -- Behind a point a second one is left over, an exponent is not.
          by_cases hofrac : o.frac = none
          · have hrest : fracText o.frac ++ (expText letter' o.exp ++ o.trail) =
                expText letter' o.exp ++ o.trail := by
              rw [hofrac]
              rfl
            refine (readNumeral_frac hinner hwf hpexp hpfrac htake (hdrop.trans hrest)
              hexp).trans (if_neg ?_)
            simp [htrail ⟨fun hne => absurd hpexp hne, fun _ => hofrac⟩]
          · have hstart : Starts (fun c => c ≠ unit 'e' ∧ c ≠ unit 'E')
                (fracText o.frac ++ (expText letter' o.exp ++ o.trail)) := by
              obtain ⟨digits, hdigits⟩ := Option.ne_none_iff_exists'.mp hofrac
              rw [hdigits]
              exact starts_cons (by decide)
            refine (readNumeral_frac hinner hwf hpexp hpfrac htake hdrop
              (readExp_of_starts hstart)).trans (if_neg ?_)
            simp [hpoint hofrac]
      | none =>
          -- Behind bare digits all is read; only a blank can be left over.
          refine (readNumeral_int _ _ hinner hwf hpexp hpfrac htake hdrop hfrac hexp).trans
            (if_neg ?_)
          simp [htrail ⟨fun hne => absurd hpexp hne, fun hne => absurd hpfrac hne⟩]

/-- A numeral that does not continue another is not read with it. -/
theorem readNumeral_not_continues (houter : Blanks outer)
    (hsub : ∀ c, inner c = true → outer c = true) (hp : p.WellFormed outer)
    (ho : o.WellFormed outer) (hletter : letter = unit 'e' ∨ letter = unit 'E')
    (hletter' : letter' = unit 'e' ∨ letter' = unit 'E') (h : ¬ p.Continues inner o) :
    readNumeral inner ((p.lead ++ (p.body letter ++ p.trail)) ++
      (o.lead ++ (o.body letter' ++ o.trail))) = none := by
  have hinner := houter.mono hsub
  by_cases hlead : ∀ c ∈ p.lead, inner c = true
  · have hwf := hp.bare hlead
    have hdigit : ∃ c ∈ p.trail ++ (o.lead ++ (o.body letter' ++ o.trail)), isDigit c = true := by
      obtain ⟨c, hc, hdigit⟩ := exists_digit_body letter' ho
      exact ⟨c, by simp [hc], hdigit⟩
    have hnotAll := not_all_of_digit hinner hdigit
    have hblocked (hstart : Starts (fun c => isDigit c = false ∧ c ≠ unit '.' ∧ c ≠ unit 'e' ∧
        c ≠ unit 'E') (p.trail ++ (o.lead ++ (o.body letter' ++ o.trail)))) :
        readNumeral inner ((p.lead ++ (p.body letter ++ p.trail)) ++
          (o.lead ++ (o.body letter' ++ o.trail))) = none := by
      have hread := readNumeral_blocked hinner hwf hletter hstart hnotAll
      simpa [Numeral.body] using hread
    -- A blank between the two, or a sign before the second.
    cases htrail : p.trail with
    | cons c cs =>
        rw [htrail] at hblocked
        refine hblocked (starts_cons (not_mark ?_))
        exact houter c (hp.trail c (by rw [htrail]; exact List.mem_cons_self))
    | nil =>
        rw [htrail] at hblocked
        cases holead : o.lead with
        | cons c cs =>
            rw [holead] at hblocked
            refine hblocked (starts_cons (not_mark ?_))
            exact houter c (ho.lead c (by rw [holead]; exact List.mem_cons_self))
        | nil =>
            rw [holead] at hblocked
            cases hosign : o.sign with
            | some negative =>
                apply hblocked
                unfold Numeral.body
                rw [hosign]
                cases negative
                · exact starts_cons (by decide)
                · exact starts_cons (by decide)
            | none =>
                have htext : (p.lead ++ (p.body letter ++ [])) ++
                    ([] ++ (o.body letter' ++ o.trail)) = p.lead ++ (p.body letter ++
                      (o.int ++ (fracText o.frac ++ (expText letter' o.exp ++ o.trail)))) := by
                  unfold Numeral.body
                  rw [hosign]
                  simp [signText]
                rw [htext]
                exact readNumeral_refused hinner houter hwf ho hletter hletter' fun hotrail hpast =>
                  h ⟨hlead, htrail, holead, hosign, hotrail, hpast⟩
  · rw [List.append_assoc]
    exact readNumeral_unskipped houter hp.lead hlead _

end Concatenation

/-! ## Other blanks -/

/-- The characters a numeral is spelled with. -/
theorem isMark_of_mem_body {blank : CodeUnit → Bool} {n : Numeral} (hwf : n.WellFormed blank)
    {letter : CodeUnit} (hletter : letter = unit 'e' ∨ letter = unit 'E') {c : CodeUnit}
    (hc : c ∈ n.body letter) : isMark c = true := by
  have hsign : ∀ sign, ∀ c ∈ signText sign, isMark c = true := by
    rintro (_ | _ | _) c hc
    · cases hc
    · obtain rfl := List.mem_singleton.mp hc
      decide
    · obtain rfl := List.mem_singleton.mp hc
      decide
  unfold Numeral.body at hc
  simp only [List.mem_append] at hc
  rcases hc with hc | hc | hc | hc
  · exact hsign n.sign c hc
  · exact isMark_of_isDigit (hwf.int c hc)
  · cases hfrac : n.frac with
    | none =>
        rw [hfrac] at hc
        cases hc
    | some digits =>
        rw [hfrac] at hc
        rcases List.mem_cons.mp hc with rfl | hc
        · decide
        · exact isMark_of_isDigit (hwf.frac digits hfrac c hc)
  · cases hexp : n.exp with
    | none =>
        rw [hexp] at hc
        cases hc
    | some exp =>
        obtain ⟨sign, digits⟩ := exp
        rw [hexp] at hc
        rcases List.mem_cons.mp hc with rfl | hc
        · rcases hletter with rfl | rfl
          · decide
          · decide
        · rcases List.mem_append.mp hc with hc | hc
          · exact hsign sign c hc
          · exact isMark_of_isDigit ((hwf.exp sign digits hexp).2 c hc)

/-- What is left after a numeral is the end of the text. -/
theorem suffix_readExp (text : JsString) :
    (readExp (readFrac ((readSign text).2.dropWhile isDigit)).2).2 <:+ text := by
  obtain ⟨⟨letter, -, hexp⟩, -⟩ := readExp_spec (readFrac ((readSign text).2.dropWhile isDigit)).2
  have hfrac := (readFrac_spec ((readSign text).2.dropWhile isDigit)).1
  refine (List.IsSuffix.trans ⟨_, hexp.symm⟩ ⟨_, hfrac.symm⟩).trans ?_
  exact (List.dropWhile_suffix _).trans ⟨_, (readSign_spec text).symm⟩

/-- Only the blanks that occur in a text matter to its reading. -/
theorem readNumeral_congr {blank blank' : CodeUnit → Bool} {text : JsString}
    (h : ∀ c ∈ text, blank c = blank' c) : readNumeral blank text = readNumeral blank' text := by
  obtain ⟨htake, hdrop⟩ := span_congr h
  have htrail : ∀ rest : JsString, rest <:+ text → rest.all blank = rest.all blank' := by
    intro rest hrest
    rw [Bool.eq_iff_iff, List.all_eq_true, List.all_eq_true]
    exact forall₂_congr fun c hc => by rw [h c (hrest.subset hc)]
  unfold readNumeral
  rw [htake, hdrop]
  dsimp only
  rw [htrail _ ((suffix_readExp _).trans (List.dropWhile_suffix _))]

end RateLimiter.Javascript
