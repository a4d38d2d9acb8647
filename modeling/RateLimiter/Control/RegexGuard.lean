import RateLimiter.Control.Patterns
import RateLimiter.Javascript.RegExp

/-!
# The guard on stored expressions

`hasNestedQuantifier` reads the source of an expression character by character.  Here it
is compared with the syntax tree the source was written from.
-/

namespace RateLimiter.Control

open RateLimiter.Foundations RateLimiter.Javascript

/-! ## The whole syntax of characters -/

/-- A hexadecimal digit. -/
abbrev HexDigit := { c : CodeUnit // (baseDigit? 16 c).isSome }

/-- A letter that can name a control character. -/
abbrev ControlLetter := { c : CodeUnit // (65 ≤ c.val ∧ c.val ≤ 90) ∨ (97 ≤ c.val ∧ c.val ≤ 122) }

/-- An escape: a backslash with one character behind it, or one of the longer forms. -/
inductive Escape
  | single (c : CodeUnit)
  | control (letter : ControlLetter)
  | hex (high low : HexDigit)
  | unicode (a b c d : HexDigit)

def Escape.text : Escape → JsString
  | .single c => [unit '\x5c', c]
  | .control letter => [unit '\x5c', unit 'c', letter.val]
  | .hex high low => [unit '\x5c', unit 'x', high.val, low.val]
  | .unicode a b c d => [unit '\x5c', unit 'u', a.val, b.val, c.val, d.val]

/-- The characters that say something inside a class. -/
def classCharacters : List CodeUnit := [unit ']', unit '\x5c', unit '^', unit '-']

/-- A character that stands for itself in a class. -/
def classCharacter (c : CodeUnit) : JsString :=
  if c ∈ classCharacters then [unit '\x5c', c] else [c]

/-- A member of a class. -/
inductive ClassItem
  | char (c : CodeUnit)
  | escape (e : Escape)
  | range (low high : CodeUnit) (h : low ≤ high)

def ClassItem.text : ClassItem → JsString
  | .char c => classCharacter c
  | .escape e => e.text
  | .range low high _ => classCharacter low ++ js "-" ++ classCharacter high

/-- What stands for one character. -/
inductive Atom
  | plain (p : Plain)
  | escape (e : Escape)
  | charClass (negated : Bool) (items : List ClassItem)

def Atom.text : Atom → JsString
  | .plain p => p.text
  | .escape e => e.text
  | .charClass negated items =>
      js "[" ++ (if negated then js "^" else []) ++ items.flatMap ClassItem.text ++ js "]"

/-- The assertions without a body. -/
inductive Assertion
  | anchor (a : Anchor)
  | wordBoundary (negated : Bool)

def Assertion.text : Assertion → JsString
  | .anchor a => a.text
  | .wordBoundary negated => if negated then js "\x5cB" else js "\x5cb"

/-- The ECMAScript source of an expression. -/
abbrev printed {l : Level} (r : Regex Atom Assertion l) : JsString :=
  written Atom.text Assertion.text r

/-! ## The shape the guard is for -/

/-- `*`, `+`, `\x7bn,\x7d` and `\x7bn,m\x7d`. -/
def repeats : Quantifier → Bool
  | .star => true
  | .plus => true
  | .optional => false
  | .exactly _ => false
  | .atLeast _ => true
  | .between _ _ _ => true

section Shape

variable {α β : Type}

/-- Somewhere in the expression there is one of those quantifiers or an alternation. -/
def Ambiguous : {l : Level} → Regex α β l → Bool
  | _, .one a => Ambiguous a
  | _, .alt _ _ => true
  | _, .empty => false
  | _, .seq t a => Ambiguous t || Ambiguous a
  | _, .assertion _ => false
  | _, .once a => Ambiguous a
  | _, .repeated a q _ => repeats q || Ambiguous a
  | _, .char _ => false
  | _, .group _ d => Ambiguous d

/-- An atom is a group with such a body. -/
def AmbiguousGroup : Regex α β .atom → Bool
  | .char _ => false
  | .group _ d => Ambiguous d

/-- Somewhere in the expression a group with such a body is quantified by one of those
quantifiers. -/
def Nested : {l : Level} → Regex α β l → Bool
  | _, .one a => Nested a
  | _, .alt a d => Nested a || Nested d
  | _, .empty => false
  | _, .seq t a => Nested t || Nested a
  | _, .assertion _ => false
  | _, .once a => Nested a
  | _, .repeated a q _ => Nested a || (repeats q && AmbiguousGroup a)
  | _, .char _ => false
  | _, .group _ d => Nested d

end Shape

/-! ## Texts that neither scanner reacts to -/

/-- A text without `loud` characters outside its escapes and classes, which ends as it
starts, inside a class or outside. -/
inductive Silent (loud : List CodeUnit) : (inClass : Bool) → JsString → Prop
  | nil {inClass : Bool} : Silent loud inClass []
  | escaped {inClass : Bool} {text : JsString} (c : CodeUnit) (h : Silent loud inClass text) :
      Silent loud inClass (unit '\x5c' :: c :: text)
  | outside {text : JsString} (c : CodeUnit) (hc : c ≠ unit '\x5c' ∧ c ≠ unit '[' ∧ c ∉ loud)
      (h : Silent loud false text) : Silent loud false (c :: text)
  | inside {text : JsString} (c : CodeUnit) (hc : c ≠ unit '\x5c' ∧ c ≠ unit ']')
      (h : Silent loud true text) : Silent loud true (c :: text)
  | bracketed {text rest : JsString} (h : Silent loud true text) (hrest : Silent loud false rest) :
      Silent loud false (unit '[' :: text ++ unit ']' :: rest)

/-- What makes `scanForQuantifier` answer. -/
def scanLoud : List CodeUnit := [unit '*', unit '+', unit '\x7b', unit '|']

/-- What moves the stack of `hasNestedQuantifier`. -/
def nestLoud : List CodeUnit := [unit '(', unit ')']

theorem countedQuantifier_eq_false {c : CodeUnit} (hc : c ≠ unit '\x7b') (rest : JsString) :
    countedQuantifier (c :: rest) = false := by
  unfold countedQuantifier
  simp [hc]

/-! ### One character -/

section Steps

variable (inClass : Bool) (c : CodeUnit) (rest : JsString)

theorem scanFrom_escaped :
    scanFrom true false inClass (unit '\x5c' :: c :: rest) = scanFrom true false inClass rest := by
  rw [scanFrom, if_pos rfl, scanFrom]

theorem scanFrom_class (hc : c ≠ unit '\x5c') :
    scanFrom true false true (c :: rest) = scanFrom true false (c ≠ unit ']') rest := by
  rw [scanFrom, if_neg hc, if_pos rfl]

theorem scanFrom_open :
    scanFrom true false false (unit '[' :: rest) = scanFrom true false true rest := by
  rw [scanFrom, if_neg (by decide), if_neg Bool.false_ne_true, if_pos rfl]

theorem scanFrom_quiet (hc : c ≠ unit '\x5c' ∧ c ≠ unit '[' ∧ c ∉ scanLoud) :
    scanFrom true false false (c :: rest) = scanFrom true false false rest := by
  obtain ⟨hslash, hbracket, hloud⟩ := hc
  simp only [scanLoud, List.mem_cons, List.not_mem_nil, or_false, not_or] at hloud
  obtain ⟨hstar, hplus, hbrace, hbar⟩ := hloud
  rw [scanFrom, if_neg hslash, if_neg Bool.false_ne_true, if_neg hbracket, if_neg (by tauto),
    countedQuantifier_eq_false hbrace, if_neg Bool.false_ne_true, if_neg (by tauto)]

variable (source : JsString) (i : Nat) (opened : List Nat)

theorem nestedFrom_escaped :
    nestedFrom source i false inClass opened (unit '\x5c' :: c :: rest) =
      nestedFrom source (i + 2) false inClass opened rest := by
  conv_lhs => unfold nestedFrom
  rw [if_pos rfl]
  conv_lhs => unfold nestedFrom

theorem nestedFrom_class (hc : c ≠ unit '\x5c') :
    nestedFrom source i false true opened (c :: rest) =
      nestedFrom source (i + 1) false (c ≠ unit ']') opened rest := by
  conv_lhs => unfold nestedFrom
  rw [if_neg hc, if_pos rfl]

theorem nestedFrom_open :
    nestedFrom source i false false opened (unit '[' :: rest) =
      nestedFrom source (i + 1) false true opened rest := by
  conv_lhs => unfold nestedFrom
  rw [if_neg (by decide), if_neg Bool.false_ne_true, if_pos rfl]

theorem nestedFrom_quiet (hc : c ≠ unit '\x5c' ∧ c ≠ unit '[' ∧ c ∉ nestLoud) :
    nestedFrom source i false false opened (c :: rest) =
      nestedFrom source (i + 1) false false opened rest := by
  obtain ⟨hslash, hbracket, hloud⟩ := hc
  simp only [nestLoud, List.mem_cons, List.not_mem_nil, or_false, not_or] at hloud
  conv_lhs => unfold nestedFrom
  rw [if_neg hslash, if_neg Bool.false_ne_true, if_neg hbracket, if_neg hloud.1,
    if_pos hloud.2]

end Steps

/-! ### Silent texts -/

theorem scanFrom_silent {inClass : Bool} {text : JsString} (h : Silent scanLoud inClass text)
    (rest : JsString) :
    scanFrom true false inClass (text ++ rest) = scanFrom true false inClass rest := by
  induction h generalizing rest with
  | nil => rfl
  | escaped c h ih => exact (scanFrom_escaped _ c _).trans (ih rest)
  | outside c hc h ih => exact (scanFrom_quiet c _ hc).trans (ih rest)
  | inside c hc h ih =>
      rw [List.cons_append, scanFrom_class c _ hc.1, decide_eq_true hc.2, ih]
  | bracketed h hrest ih ihrest =>
      rw [List.append_assoc, List.cons_append, List.cons_append, scanFrom_open, ih,
        scanFrom_class _ _ (by decide)]
      exact ihrest rest

theorem nestedFrom_silent {inClass : Bool} {text : JsString} (h : Silent nestLoud inClass text)
    (source : JsString) (i : Nat) (opened : List Nat) (rest : JsString) :
    nestedFrom source i false inClass opened (text ++ rest) =
      nestedFrom source (i + text.length) false inClass opened rest := by
  induction h generalizing i rest with
  | nil => rfl
  | escaped c h ih =>
      rw [List.cons_append, List.cons_append, nestedFrom_escaped, ih, List.length_cons,
        List.length_cons]
      congr 1
      omega
  | outside c hc h ih =>
      rw [List.cons_append, nestedFrom_quiet c _ source i opened hc, ih, List.length_cons]
      congr 1
      omega
  | inside c hc h ih =>
      rw [List.cons_append, nestedFrom_class c _ source i opened hc.1, decide_eq_true hc.2, ih,
        List.length_cons]
      congr 1
      omega
  | bracketed h hrest ih ihrest =>
      rw [List.append_assoc, List.cons_append, List.cons_append, nestedFrom_open, ih,
        nestedFrom_class _ _ _ _ _ (by decide)]
      refine (ihrest _ rest).trans ?_
      congr 1
      simp only [List.length_append, List.length_cons]
      omega

/-! ## What is printed for a character -/

/-- Everything that either scanner reacts to. -/
def loud : List CodeUnit := scanLoud ++ nestLoud

theorem Silent.mono {loud' : List CodeUnit} {loud : List CodeUnit} (hloud : loud' ⊆ loud)
    {inClass : Bool} {text : JsString} (h : Silent loud inClass text) :
    Silent loud' inClass text := by
  induction h with
  | nil => exact .nil
  | escaped c _ ih => exact .escaped c ih
  | outside c hc _ ih => exact .outside c ⟨hc.1, hc.2.1, fun hmem => hc.2.2 (hloud hmem)⟩ ih
  | inside c hc _ ih => exact .inside c hc ih
  | bracketed _ _ ih ihrest => exact .bracketed ih ihrest

theorem Silent.append {loud : List CodeUnit} {inClass : Bool} {text text' : JsString}
    (h : Silent loud inClass text) (h' : Silent loud inClass text') :
    Silent loud inClass (text ++ text') := by
  induction h with
  | nil => exact h'
  | escaped c _ ih => exact .escaped c (ih h')
  | outside c hc _ ih => exact .outside c hc (ih h')
  | inside c hc _ ih => exact .inside c hc (ih h')
  | bracketed h _ _ ihrest =>
      rw [List.append_assoc, List.cons_append]
      exact .bracketed h (ihrest h')

/-- A letter or a digit. -/
def isAlphanumeric (c : CodeUnit) : Bool :=
  (48 ≤ c.val ∧ c.val ≤ 57) ∨ (65 ≤ c.val ∧ c.val ≤ 90) ∨ (97 ≤ c.val ∧ c.val ≤ 122)

theorem not_mem_of_isAlphanumeric {us : List CodeUnit}
    (hus : us.any isAlphanumeric = false) {c : CodeUnit} (hc : isAlphanumeric c = true) :
    c ∉ us := by
  intro hmem
  have hnot := List.any_eq_false.mp hus c hmem
  exact hnot hc

/-- Letters and digits say nothing to a scanner. -/
theorem Silent.alphanumeric {inClass : Bool} {text : JsString}
    (htext : ∀ c ∈ text, isAlphanumeric c = true) : Silent loud inClass text := by
  induction text with
  | nil => exact .nil
  | cons c text ih =>
      obtain ⟨hc, htext⟩ := List.forall_mem_cons.mp htext
      have hnot : c ∉ unit '\x5c' :: unit ']' :: unit '[' :: loud :=
        not_mem_of_isAlphanumeric (by decide) hc
      simp only [List.mem_cons, not_or] at hnot
      obtain ⟨hslash, hclose, hopen, hloud⟩ := hnot
      cases inClass with
      | true => exact .inside c ⟨hslash, hclose⟩ (ih htext)
      | false => exact .outside c ⟨hslash, hopen, hloud⟩ (ih htext)

theorem HexDigit.isAlphanumeric (d : HexDigit) : isAlphanumeric d.val = true := by
  obtain ⟨c, hc⟩ := d
  have hrange : (48 ≤ c.val ∧ c.val ≤ 57) ∨ (65 ≤ c.val ∧ c.val ≤ 70) ∨
      (97 ≤ c.val ∧ c.val ≤ 102) := by
    by_contra hnone
    have hdigit : baseDigit? 16 c = none := by
      have hbase : ¬ (16 < 16) := lt_irrefl 16
      unfold baseDigit?
      simp only [not_or] at hnone
      simp only [hnone.1, hnone.2.1, hnone.2.2, if_false, hbase]
    rw [hdigit] at hc
    cases hc
  unfold Control.isAlphanumeric
  simp only [decide_eq_true_eq]
  omega

theorem Escape.silent (e : Escape) (inClass : Bool) : Silent loud inClass e.text := by
  cases e with
  | single c => exact .escaped c .nil
  | control letter =>
      refine .escaped (unit 'c') (.alphanumeric ?_)
      rintro c hc
      obtain rfl := List.mem_singleton.mp hc
      unfold isAlphanumeric
      have := letter.property
      simp only [decide_eq_true_eq]
      omega
  | hex high low =>
      refine .escaped (unit 'x') (.alphanumeric ?_)
      rintro c hc
      simp only [List.mem_cons, List.not_mem_nil, or_false] at hc
      rcases hc with rfl | rfl
      · exact high.isAlphanumeric
      · exact low.isAlphanumeric
  | unicode a b c d =>
      refine .escaped (unit 'u') (.alphanumeric ?_)
      rintro u hu
      simp only [List.mem_cons, List.not_mem_nil, or_false] at hu
      rcases hu with rfl | rfl | rfl | rfl
      · exact a.isAlphanumeric
      · exact b.isAlphanumeric
      · exact c.isAlphanumeric
      · exact d.isAlphanumeric

theorem classCharacter_silent (c : CodeUnit) : Silent loud true (classCharacter c) := by
  unfold classCharacter
  split
  next => exact .escaped c .nil
  next hc =>
      simp only [classCharacters, List.mem_cons, not_or] at hc
      exact .inside c ⟨hc.2.1, hc.1⟩ .nil

theorem ClassItem.silent (item : ClassItem) : Silent loud true item.text := by
  cases item with
  | char c => exact classCharacter_silent c
  | escape e => exact e.silent true
  | range low high h =>
      have hdash : Silent loud true (js "-") := .inside (unit '-') (by decide) .nil
      exact ((classCharacter_silent low).append hdash).append (classCharacter_silent high)

theorem loud_subset_syntaxCharacters :
    unit '\x5c' :: unit '[' :: loud ⊆ syntaxCharacters := by
  have hall : (unit '\x5c' :: unit '[' :: loud).all (· ∈ syntaxCharacters) = true := by
    decide +kernel
  intro c hc
  simpa using List.all_eq_true.mp hall c hc

theorem Plain.silent (p : Plain) : Silent loud false p.text := by
  cases p with
  | dot => exact .outside (unit '.') (by decide) .nil
  | literal c =>
      show Silent loud false (if c ∈ syntaxCharacters then [unit '\x5c', c] else [c])
      split
      next => exact .escaped c .nil
      next hc =>
          have hnot : c ∉ unit '\x5c' :: unit '[' :: loud :=
            fun hmem => hc (loud_subset_syntaxCharacters hmem)
          simp only [List.mem_cons, not_or] at hnot
          exact .outside c hnot .nil

theorem Atom.silent (a : Atom) : Silent loud false a.text := by
  cases a with
  | plain p => exact Plain.silent p
  | escape e => exact e.silent false
  | charClass negated items =>
      have hitems : Silent loud true (items.flatMap ClassItem.text) := by
        induction items with
        | nil => exact .nil
        | cons item items ih => exact item.silent.append ih
      have hcaret : Silent loud true (if negated then js "^" else []) := by
        cases negated with
        | true => exact .inside (unit '^') (by decide) .nil
        | false => exact .nil
      have htext : (Atom.charClass negated items).text =
          unit '[' :: ((if negated then js "^" else []) ++ items.flatMap ClassItem.text) ++
            unit ']' :: [] := by
        show js "[" ++ _ ++ _ ++ js "]" = _
        rw [List.append_assoc (js "["), List.cons_append]
        rfl
      rw [htext]
      exact .bracketed (hcaret.append hitems) .nil

theorem Assertion.silent (b : Assertion) : Silent loud false b.text := by
  cases b with
  | anchor a =>
      cases a with
      | start => exact .outside (unit '^') (by decide) .nil
      | stop => exact .outside (unit '$') (by decide) .nil
  | wordBoundary negated =>
      cases negated with
      | true => exact .escaped (unit 'B') .nil
      | false => exact .escaped (unit 'b') .nil

/-! ## Scanning what is printed -/

/-- The braces of a count that stands alone. -/
theorem countedQuantifier_exactly (n : Nat) (rest : JsString) :
    countedQuantifier (unit '\x7b' :: (natText n ++ unit '\x7d' :: rest)) = false := by
  obtain ⟨-, hdrop⟩ := digits_written n (c := unit '\x7d') (by decide) rest
  have hcomma : unit '\x7d' ≠ unit ',' := by decide
  unfold countedQuantifier
  dsimp only
  rw [hdrop]
  simp [hcomma]

theorem countedQuantifier_comma (n : Nat) (rest : JsString) :
    countedQuantifier (unit '\x7b' :: (natText n ++ unit ',' :: rest)) = true := by
  obtain ⟨htake, hdrop⟩ := digits_written n (c := unit ',') (by decide) rest
  unfold countedQuantifier
  dsimp only
  rw [hdrop, htake]
  simp [natText_ne_nil]

theorem natText_silent (n : Nat) : Silent loud false (natText n) := by
  apply Silent.alphanumeric
  intro c hc
  have hdigit := isDigit_of_mem_natText hc
  unfold isDigit digit? at hdigit
  unfold isAlphanumeric
  split at hdigit
  next hrange => simp [hrange]
  next => cases hdigit

/-- The text of a quantifier with the text behind it. -/
theorem quantifierText_append (q : Quantifier) (rest : JsString) :
    quantifierText q ++ rest =
      match q with
      | .star => unit '*' :: rest
      | .plus => unit '+' :: rest
      | .optional => unit '?' :: rest
      | .exactly n => unit '\x7b' :: (natText n ++ unit '\x7d' :: rest)
      | .atLeast n => unit '\x7b' :: (natText n ++ unit ',' :: (unit '\x7d' :: rest))
      | .between n m _ =>
          unit '\x7b' :: (natText n ++ unit ',' :: (natText m ++ unit '\x7d' :: rest)) := by
  cases q with
  | star => rfl
  | plus => rfl
  | optional => rfl
  | exactly n =>
      show js "\x7b" ++ natText n ++ js "\x7d" ++ rest = _
      simp only [List.append_assoc]
      rfl
  | atLeast n =>
      show js "\x7b" ++ natText n ++ js ",\x7d" ++ rest = _
      simp only [List.append_assoc]
      rfl
  | between n m h =>
      show js "\x7b" ++ natText n ++ js "," ++ natText m ++ js "\x7d" ++ rest = _
      simp only [List.append_assoc]
      rfl

/-- A quantifier is one that repeats exactly when its text says so. -/
theorem quantified_written (q : Quantifier) (rest : JsString) :
    quantified (quantifierText q ++ rest) = repeats q := by
  rw [quantifierText_append]
  unfold quantified
  cases q with
  | star => rfl
  | plus => rfl
  | optional => rfl
  | exactly n =>
      dsimp only
      rw [countedQuantifier_exactly]
      rfl
  | atLeast n =>
      dsimp only
      rw [countedQuantifier_comma, Bool.or_true]
      rfl
  | between n m h =>
      dsimp only
      rw [countedQuantifier_comma, Bool.or_true]
      rfl

theorem scanFrom_lazy (lazy : Bool) (rest : JsString) :
    scanFrom true false false ((if lazy then js "?" else []) ++ rest) =
      scanFrom true false false rest := by
  cases lazy with
  | true => exact scanFrom_quiet (unit '?') rest (by decide)
  | false => rfl

/-- A brace is met by the test for a count. -/
theorem scanFrom_brace (rest : JsString) :
    scanFrom true false false (unit '\x7b' :: rest) =
      (countedQuantifier (unit '\x7b' :: rest) || scanFrom true false false rest) := by
  rw [scanFrom, if_neg (by decide), if_neg Bool.false_ne_true, if_neg (by decide),
    if_neg (by decide)]
  cases countedQuantifier (unit '\x7b' :: rest) with
  | true => rfl
  | false => exact if_neg (by decide)

theorem scanFrom_quantifier (q : Quantifier) (rest : JsString) :
    scanFrom true false false (quantifierText q ++ rest) =
      (repeats q || scanFrom true false false rest) := by
  rw [quantifierText_append]
  cases q with
  | star => rfl
  | plus => rfl
  | optional => exact scanFrom_quiet (unit '?') rest (by decide)
  | exactly n =>
      dsimp only
      rw [scanFrom_brace, countedQuantifier_exactly, Bool.false_or,
        scanFrom_silent ((natText_silent n).mono (List.subset_append_left _ _)),
        scanFrom_quiet (unit '\x7d') rest (by decide)]
      rfl
  | atLeast n =>
      dsimp only
      rw [scanFrom_brace, countedQuantifier_comma]
      rfl
  | between n m h =>
      dsimp only
      rw [scanFrom_brace, countedQuantifier_comma]
      rfl

/-- Scanning a printed expression answers when it is ambiguous, and goes on behind it when
it is not. -/
theorem scanFrom_printed {l : Level} (r : Regex Atom Assertion l) (rest : JsString) :
    scanFrom true false false (printed r ++ rest) =
      (Ambiguous r || scanFrom true false false rest) := by
  induction r generalizing rest with
  | one a ih => exact ih rest
  | alt a d iha ihd =>
      have htext : printed (.alt a d) ++ rest =
          printed a ++ unit '|' :: (printed d ++ rest) := by
        show printed a ++ js "|" ++ printed d ++ rest = _
        simp only [List.append_assoc]
        rfl
      rw [htext, iha, scanFrom, if_neg (by decide), if_neg Bool.false_ne_true,
        if_neg (by decide), if_neg (by decide), countedQuantifier_eq_false (by decide),
        if_neg Bool.false_ne_true, if_pos ⟨rfl, rfl⟩, Bool.or_true]
      rfl
  | empty => rfl
  | seq t a iht iha =>
      show scanFrom true false false (printed t ++ printed a ++ rest) = _
      rw [List.append_assoc, iht, iha, ← Bool.or_assoc]
      rfl
  | assertion b =>
      exact scanFrom_silent ((Assertion.silent b).mono (List.subset_append_left _ _)) rest
  | once a ih => exact ih rest
  | repeated a q lazy ih =>
      show scanFrom true false false
        (printed a ++ quantifierText q ++ (if lazy then js "?" else []) ++ rest) = _
      rw [List.append_assoc, List.append_assoc, ih, scanFrom_quantifier, scanFrom_lazy,
        ← Bool.or_assoc, Bool.or_comm (Ambiguous a)]
      rfl
  | char a => exact scanFrom_silent (a.silent.mono (List.subset_append_left _ _)) rest
  | group capturing d ih =>
      have hopen : ∀ more, scanFrom true false false
          ((if capturing then js "(" else js "(?:") ++ more) = scanFrom true false false more := by
        intro more
        cases capturing with
        | true => exact scanFrom_quiet (unit '(') more (by decide)
        | false =>
            refine (scanFrom_quiet (unit '(') _ (by decide)).trans ?_
            refine (scanFrom_quiet (unit '?') _ (by decide)).trans ?_
            exact scanFrom_quiet (unit ':') more (by decide)
      show scanFrom true false false
        ((if capturing then js "(" else js "(?:") ++ printed d ++ js ")" ++ rest) = _
      rw [List.append_assoc, List.append_assoc, hopen, ih]
      exact congrArg _ (scanFrom_quiet (unit ')') rest (by decide))

/-! ## Nesting in what is printed -/

/-- The body of a group that is closed at the end of `text`. -/
theorem group_body {source text rest : JsString} {i : Nat}
    (h : source.drop i = unit '(' :: text ++ rest) :
    (source.take (i + 1 + text.length)).drop (i + 1) = text := by
  have htail : source.drop (i + 1) = text ++ rest := by
    rw [← List.tail_drop, h]
    rfl
  rw [List.drop_take, htail, Nat.add_sub_cancel_left, List.take_left]

/-- What follows a printed prefix of the rest of the source. -/
theorem drop_append {source text rest : JsString} {i : Nat}
    (h : source.drop i = text ++ rest) : source.drop (i + text.length) = rest := by
  rw [← List.drop_drop, h, List.drop_left]

theorem nestedFrom_close (source : JsString) (i start : Nat) (opened : List Nat)
    (rest : JsString) :
    nestedFrom source i false false (start :: opened) (unit ')' :: rest) =
      ((quantified rest && scanForQuantifier ((source.take i).drop (start + 1)) true) ||
        nestedFrom source (i + 1) false false opened rest) := by
  conv_lhs => unfold nestedFrom
  rw [if_neg (by decide), if_neg Bool.false_ne_true, if_neg (by decide), if_neg (by decide),
    if_neg (by decide)]
  dsimp only
  cases quantified rest <;>
    cases scanForQuantifier ((source.take i).drop (start + 1)) true <;> rfl

theorem nestedFrom_group_open (source : JsString) (i : Nat) (opened : List Nat)
    (rest : JsString) :
    nestedFrom source i false false opened (unit '(' :: rest) =
      nestedFrom source (i + 1) false false (i :: opened) rest := by
  conv_lhs => unfold nestedFrom
  rw [if_neg (by decide), if_neg Bool.false_ne_true, if_neg (by decide), if_pos rfl]

theorem quantified_eq_false {c : CodeUnit} (hc : c ∉ [unit '*', unit '+', unit '\x7b'])
    (rest : JsString) : quantified (c :: rest) = false := by
  simp only [List.mem_cons, List.not_mem_nil, or_false, not_or] at hc
  obtain ⟨hstar, hplus, hbrace⟩ := hc
  unfold quantified
  rw [countedQuantifier_eq_false hbrace, List.head?_cons]
  simp [hstar, hplus]

/-- A silent text does not start with a quantifier. -/
theorem Silent.quantified {text : JsString} (h : Silent loud false text) (hne : text ≠ [])
    (rest : JsString) : quantified (text ++ rest) = false := by
  cases h with
  | nil => exact absurd rfl hne
  | escaped c h => exact quantified_eq_false (c := unit '\x5c') (by decide) _
  | outside c hc h =>
      refine quantified_eq_false ?_ _
      have hsubset : [unit '*', unit '+', unit '\x7b'] ⊆ loud := by decide
      exact fun hmem => hc.2.2 (hsubset hmem)
  | bracketed h hrest => exact quantified_eq_false (c := unit '[') (by decide) _

theorem Atom.text_ne_nil (a : Atom) : a.text ≠ [] := by
  cases a with
  | plain p =>
      obtain ⟨c, s, hs, -⟩ := p.text_head
      show p.text ≠ []
      rw [hs]
      exact List.cons_ne_nil c s
  | escape e => cases e <;> exact List.cons_ne_nil _ _
  | charClass negated items => exact List.cons_ne_nil _ _

theorem quantified_printed_atom (a : Regex Atom Assertion .atom) (rest : JsString) :
    quantified (printed a ++ rest) = false := by
  cases a with
  | char c => exact c.silent.quantified c.text_ne_nil rest
  | group capturing d =>
      cases capturing with
      | true => exact quantified_eq_false (by decide) _
      | false => exact quantified_eq_false (by decide) _

theorem quantified_printed_term (t : Regex Atom Assertion .term) (rest : JsString) :
    quantified (printed t ++ rest) = false := by
  cases t with
  | assertion b =>
      refine (Assertion.silent b).quantified ?_ rest
      cases b with
      | anchor a => cases a <;> exact List.cons_ne_nil _ _
      | wordBoundary negated => cases negated <;> exact List.cons_ne_nil _ _
  | once a => exact quantified_printed_atom a rest
  | repeated a q lazy =>
      show quantified (printed a ++ quantifierText q ++ (if lazy then js "?" else []) ++ rest) = _
      rw [List.append_assoc, List.append_assoc]
      exact quantified_printed_atom a _

/-- What is printed behind a term does not start with a quantifier. -/
theorem quantified_printed_alternative (a : Regex Atom Assertion .alternative) {rest : JsString}
    (h : quantified rest = false) : quantified (printed a ++ rest) = false := by
  cases a with
  | empty => exact h
  | seq t a =>
      show quantified (printed t ++ printed a ++ rest) = false
      rw [List.append_assoc]
      exact quantified_printed_term t _

theorem quantifierText_silent (q : Quantifier) : Silent nestLoud false (quantifierText q) := by
  have hnat : ∀ n, Silent nestLoud false (natText n) :=
    fun n => (natText_silent n).mono (List.subset_append_right _ _)
  have hopen : Silent nestLoud false (js "\x7b") := .outside (unit '\x7b') (by decide) .nil
  have hclose : Silent nestLoud false (js "\x7d") := .outside (unit '\x7d') (by decide) .nil
  have hcomma : Silent nestLoud false (js ",") := .outside (unit ',') (by decide) .nil
  cases q with
  | star => exact .outside (unit '*') (by decide) .nil
  | plus => exact .outside (unit '+') (by decide) .nil
  | optional => exact .outside (unit '?') (by decide) .nil
  | exactly n => exact (hopen.append (hnat n)).append hclose
  | atLeast n => exact (hopen.append (hnat n)).append (hcomma.append hclose)
  | between n m h => exact (((hopen.append (hnat n)).append hcomma).append (hnat m)).append hclose

/-- The scanner finds what is nested in a printed expression, and goes on behind it with the
same stack when nothing is.  Behind an atom a quantifier may follow; it then decides about
a group. -/
def FindsNested : {l : Level} → Regex Atom Assertion l → Prop
  | .atom, a => ∀ (source : JsString) (i : Nat) (opened : List Nat) (rest : JsString),
      source.drop i = printed a ++ rest →
        nestedFrom source i false false opened (printed a ++ rest) =
          (Nested a || (quantified rest && AmbiguousGroup a) ||
            nestedFrom source (i + (printed a).length) false false opened rest)
  | _, r => ∀ (source : JsString) (i : Nat) (opened : List Nat) (rest : JsString),
      source.drop i = printed r ++ rest → quantified rest = false →
        nestedFrom source i false false opened (printed r ++ rest) =
          (Nested r || nestedFrom source (i + (printed r).length) false false opened rest)

theorem nestedFrom_quantifier (q : Quantifier) (lazy : Bool) (source : JsString) (i : Nat)
    (opened : List Nat) (rest : JsString) :
    nestedFrom source i false false opened
        (quantifierText q ++ ((if lazy then js "?" else []) ++ rest)) =
      nestedFrom source
        (i + (quantifierText q ++ if lazy then js "?" else []).length) false false opened rest := by
  have hlazy : Silent nestLoud false (if lazy then js "?" else []) := by
    cases lazy with
    | true => exact .outside (unit '?') (by decide) .nil
    | false => exact .nil
  rw [← List.append_assoc]
  exact nestedFrom_silent ((quantifierText_silent q).append hlazy) source i opened rest

/-- A group is its body between parentheses, behind a mark that no scanner reacts to. -/
theorem printed_group (capturing : Bool) (d : Regex Atom Assertion .disjunction) :
    ∃ mark : JsString, Silent nestLoud false mark ∧ Silent scanLoud false mark ∧
      printed (.group capturing d) = unit '(' :: (mark ++ printed d) ++ [unit ')'] := by
  cases capturing with
  | true => exact ⟨[], .nil, .nil, rfl⟩
  | false =>
      refine ⟨js "?:", ?_, ?_, rfl⟩
      · exact .outside (unit '?') (by decide) (.outside (unit ':') (by decide) .nil)
      · exact .outside (unit '?') (by decide) (.outside (unit ':') (by decide) .nil)

theorem findsNested_group (capturing : Bool) (d : Regex Atom Assertion .disjunction)
    (ih : FindsNested d) : FindsNested (.group capturing d) := by
  intro source i opened rest hdrop
  obtain ⟨mark, hmark, hscan, htext⟩ := printed_group capturing d
  have hwhole : printed (.group capturing d) ++ rest =
      unit '(' :: (mark ++ (printed d ++ unit ')' :: rest)) := by
    rw [htext]
    simp
  rw [hwhole] at hdrop ⊢
  have hbody : source.drop i = unit '(' :: (mark ++ printed d) ++ unit ')' :: rest := by
    rw [hdrop]
    simp
  have hinner : source.drop (i + 1 + mark.length) = printed d ++ unit ')' :: rest := by
    have hopened : source.drop (i + 1) = mark ++ (printed d ++ unit ')' :: rest) := by
      rw [← List.tail_drop, hdrop]
      rfl
    exact drop_append hopened
  have hquiet : quantified (unit ')' :: rest) = false := quantified_eq_false (by decide) rest
  have hlength : i + 1 + mark.length + (printed d).length =
      i + 1 + (mark ++ printed d).length := by
    rw [List.length_append]
    omega
  have hambiguous : scanForQuantifier (mark ++ printed d) true = Ambiguous d := by
    unfold scanForQuantifier
    rw [scanFrom_silent hscan]
    have hprinted := scanFrom_printed d []
    rw [List.append_nil] at hprinted
    rw [hprinted]
    exact Bool.or_false _
  have hend : i + 1 + (mark ++ printed d).length + 1 =
      i + (printed (.group capturing d)).length := by
    rw [htext]
    simp only [List.length_append, List.length_cons, List.length_nil]
    omega
  rw [nestedFrom_group_open, nestedFrom_silent hmark, ih source _ _ _ hinner hquiet, hlength,
    nestedFrom_close, group_body hbody, hambiguous, hend, ← Bool.or_assoc]
  rfl

theorem findsNested_alt {a : Regex Atom Assertion .alternative}
    {d : Regex Atom Assertion .disjunction} (iha : FindsNested a) (ihd : FindsNested d) :
    FindsNested (.alt a d) := by
  intro source i opened rest hdrop hrest
  have htext : printed (.alt a d) ++ rest =
      printed a ++ unit '|' :: (printed d ++ rest) := by
    show printed a ++ js "|" ++ printed d ++ rest = _
    simp only [List.append_assoc]
    rfl
  have hlength : (printed (.alt a d)).length =
      (printed a).length + 1 + (printed d).length := by
    show (printed a ++ js "|" ++ printed d).length = _
    rw [List.length_append, List.length_append]
    rfl
  rw [htext] at hdrop ⊢
  have hbar := drop_append hdrop
  have htail : source.drop (i + (printed a).length + 1) = printed d ++ rest := by
    rw [← List.tail_drop, hbar]
    rfl
  rw [iha source i opened _ hdrop (quantified_eq_false (by decide) _),
    nestedFrom_quiet _ _ _ _ _ (by decide), ihd source _ opened rest htail hrest, hlength,
    ← Bool.or_assoc, Nat.add_assoc i, Nat.add_assoc i, Nat.add_assoc]
  rfl

/-- By induction on the expression: a group closes the innermost position on the stack, and
its body is the text between. -/
theorem findsNested {l : Level} (r : Regex Atom Assertion l) : FindsNested r := by
  induction r with
  | one a ih => exact ih
  | alt a d iha ihd => exact findsNested_alt iha ihd
  | empty =>
      intro source i opened rest hdrop hrest
      rfl
  | seq t a iht iha =>
      intro source i opened rest hdrop hrest
      have htext : printed (.seq t a) = printed t ++ printed a := rfl
      rw [htext, List.append_assoc] at hdrop ⊢
      rw [iht source i opened _ hdrop (quantified_printed_alternative a hrest),
        iha source _ opened rest (drop_append hdrop) hrest, ← Bool.or_assoc,
        List.length_append, Nat.add_assoc]
      rfl
  | assertion b =>
      intro source i opened rest hdrop hrest
      exact nestedFrom_silent ((Assertion.silent b).mono (List.subset_append_right _ _))
        source i opened rest
  | once a ih =>
      intro source i opened rest hdrop hrest
      refine (ih source i opened rest hdrop).trans ?_
      rw [hrest, Bool.false_and, Bool.or_false]
      rfl
  | repeated a q lazy ih =>
      intro source i opened rest hdrop hrest
      have htext : printed (.repeated a q lazy) ++ rest =
          printed a ++ (quantifierText q ++ ((if lazy then js "?" else []) ++ rest)) := by
        show printed a ++ quantifierText q ++ (if lazy then js "?" else []) ++ rest = _
        simp only [List.append_assoc]
      have hlength : (printed (.repeated a q lazy)).length = (printed a).length +
          (quantifierText q ++ if lazy then js "?" else []).length := by
        show (printed a ++ quantifierText q ++ if lazy then js "?" else []).length = _
        rw [List.append_assoc, List.length_append]
      rw [htext] at hdrop ⊢
      rw [ih source i opened _ hdrop, quantified_written, nestedFrom_quantifier, hlength,
        Nat.add_assoc]
      rfl
  | char a =>
      intro source i opened rest hdrop
      refine (nestedFrom_silent (a.silent.mono (List.subset_append_right _ _))
        source i opened rest).trans ?_
      show _ = (false || (quantified rest && false) || _)
      rw [Bool.and_false]
      rfl
  | group capturing d ih => exact findsNested_group capturing d ih

/-- The guard recognises exactly the shape it is for. -/
theorem nested_quantifier_recognised (r : Regex Atom Assertion .disjunction) :
    hasNestedQuantifier (printed r) = true ↔ Nested r = true := by
  have hfinds := findsNested r (printed r) 0 [] [] (List.append_nil _).symm rfl
  rw [List.append_nil] at hfinds
  unfold hasNestedQuantifier
  rw [hfinds]
  show (Nested r || false) = true ↔ _
  rw [Bool.or_false]

end RateLimiter.Control
