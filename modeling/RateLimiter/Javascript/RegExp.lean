import RateLimiter.Foundations.Regex
import RateLimiter.Javascript.Numerals

/-!
# `RegExp`

How regular expressions are written, and how the part of the language without classes
and other escapes is read and run (no flags).  What is written reads back.
-/

namespace RateLimiter.Javascript

open RateLimiter.Foundations

/-! ## Writing -/

/-- `SyntaxCharacter`. -/
def syntaxCharacters : JsString := js "^$\x5c.*+?()[]\x7b\x7d|"

/-- The assertions on the ends of the input. -/
inductive Anchor
  | start
  | stop
deriving DecidableEq

def Anchor.text : Anchor → JsString
  | .start => js "^"
  | .stop => js "$"

/-- A character that stands for itself, or the dot. -/
inductive Plain
  | literal (c : CodeUnit)
  | dot
deriving DecidableEq

/-- A syntax character needs a backslash to stand for itself. -/
def Plain.text : Plain → JsString
  | .literal c => if c ∈ syntaxCharacters then [unit '\x5c', c] else [c]
  | .dot => js "."

def quantifierText : Quantifier → JsString
  | .star => js "*"
  | .plus => js "+"
  | .optional => js "?"
  | .exactly n => js "\x7b" ++ natText n ++ js "\x7d"
  | .atLeast n => js "\x7b" ++ natText n ++ js ",\x7d"
  | .between n m _ => js "\x7b" ++ natText n ++ js "," ++ natText m ++ js "\x7d"

section Written

variable {α β : Type} (spell : α → JsString) (mark : β → JsString)

/-- The source of an expression. -/
def written : {l : Level} → Regex α β l → JsString
  | _, .one a => written a
  | _, .alt a d => written a ++ js "|" ++ written d
  | _, .empty => []
  | _, .seq t a => written t ++ written a
  | _, .assertion b => mark b
  | _, .once a => written a
  | _, .repeated a q lazy => written a ++ quantifierText q ++ if lazy then js "?" else []
  | _, .char c => spell c
  | _, .group capturing d =>
      (if capturing then js "(" else js "(?:") ++ written d ++ js ")"

end Written

/-! ## Reading -/

/-- The `?` that makes a quantifier lazy. -/
def readLazy : JsString → Bool × JsString
  | [] => (false, [])
  | c :: rest => if c = unit '?' then (true, rest) else (false, c :: rest)

/-- The bounds of a quantifier, behind their opening brace. -/
def readBounds (s : JsString) : Option (Quantifier × JsString) :=
  let n := digitsValue (s.takeWhile isDigit)
  match s.takeWhile isDigit, s.dropWhile isDigit with
  | _ :: _, c :: rest =>
      if c = unit '\x7d' then some (.exactly n, rest)
      else if c = unit ',' then
        let m := digitsValue (rest.takeWhile isDigit)
        match rest.takeWhile isDigit, rest.dropWhile isDigit with
        | [], c :: rest => if c = unit '\x7d' then some (.atLeast n, rest) else none
        | _ :: _, c :: rest =>
            if c = unit '\x7d' then
              -- out of order the numbers are a `SyntaxError`
              if h : n ≤ m then some (.between n m h, rest) else none
            else none
        | _, [] => none
      else none
  | _, _ => none

/-- A quantifier, if there is one. -/
def readQuantifier : JsString → Option (Option (Quantifier × Bool) × JsString)
  | [] => some (none, [])
  | c :: rest =>
      let lazily (read : Quantifier × JsString) : Option (Quantifier × Bool) × JsString :=
        (some (read.1, (readLazy read.2).1), (readLazy read.2).2)
      if c = unit '*' then some (lazily (.star, rest))
      else if c = unit '+' then some (lazily (.plus, rest))
      else if c = unit '?' then some (lazily (.optional, rest))
      else if c = unit '\x7b' then (readBounds rest).map lazily
      else some (none, c :: rest)

/-- An atom with the quantifier read behind it. -/
def quantify {α β : Type} (a : Regex α β .atom) :
    Option (Quantifier × Bool) → Regex α β .term
  | some (q, lazy) => .repeated a q lazy
  | none => .once a

/-- What opens a group, behind its parenthesis: `?:` when it does not capture. -/
def readOpening : JsString → Bool × JsString
  | c :: c' :: rest =>
      if c = unit '?' ∧ c' = unit ':' then (false, rest) else (true, c :: c' :: rest)
  | s => (true, s)

/-- An expression, and what is left of the text behind it. -/
abbrev Read (l : Level) := Option (Regex Plain Anchor l × JsString)

mutual

def readDisjunction : Nat → JsString → Read .disjunction
  | 0, _ => none
  | fuel + 1, s =>
      match readAlternative fuel s with
      | some (a, c :: rest) =>
          if c = unit '|' then
            (readDisjunction fuel rest).map fun read => (.alt a read.1, read.2)
          else some (.one a, c :: rest)
      | some (a, []) => some (.one a, [])
      | none => none

/-- A sequence of terms, up to a bar, a closing parenthesis or the end. -/
def readAlternative : Nat → JsString → Read .alternative
  | 0, _ => none
  | _ + 1, [] => some (.empty, [])
  | fuel + 1, c :: rest =>
      if c = unit '|' ∨ c = unit ')' then some (.empty, c :: rest)
      else
        match readTerm fuel (c :: rest) with
        | some (t, rest) => (readAlternative fuel rest).map fun read => (.seq t read.1, read.2)
        | none => none

def readTerm : Nat → JsString → Read .term
  | 0, _ => none
  | _ + 1, [] => none
  | fuel + 1, c :: rest =>
      if c = unit '^' then some (.assertion .start, rest)
      else if c = unit '$' then some (.assertion .stop, rest)
      else
        match readAtom fuel (c :: rest) with
        | some (a, rest) => (readQuantifier rest).map fun read => (quantify a read.1, read.2)
        | none => none

def readAtom : Nat → JsString → Read .atom
  | 0, _ => none
  | _ + 1, [] => none
  | fuel + 1, c :: rest =>
      if c = unit '.' then some (.char .dot, rest)
      else if c = unit '\x5c' then
        match rest with
        -- an escape that is not one of a syntax character is not read here
        | e :: rest => if e ∈ syntaxCharacters then some (.char (.literal e), rest) else none
        | [] => none
      else if c = unit '(' then
        let (capturing, body) := readOpening rest
        match readDisjunction fuel body with
        | some (d, c :: rest) => if c = unit ')' then some (.group capturing d, rest) else none
        | _ => none
      else if c ∈ syntaxCharacters then none
      else some (.char (.literal c), rest)

end

/-- The expression a source spells, when it lies in the part of the language read here. -/
def readRegExp (source : JsString) : Option (Regex Plain Anchor .disjunction) :=
  match readDisjunction (2 * source.length + 2) source with
  | some (d, []) => some d
  | _ => none

/-! ## Running -/

/-- `LineTerminator`. -/
def lineTerminators : List CodeUnit :=
  [unit '\n', unit '\r', codeUnit 0x2028, codeUnit 0x2029]

/-- What a character of an expression stands for. -/
def Plain.sat : Plain → CodeUnit → Bool
  | .literal c, u => u = c
  | .dot, u => u ∉ lineTerminators

/-- Where an anchor holds, in an input of a length. -/
def Anchor.holds (length : Nat) : Anchor → Nat → Bool
  | .start, x => x = 0
  | .stop, x => x = length

/-- `new RegExp(source).test(value)`.  Sources that are not read here are left to `other`:
it may run them, or throw. -/
def regExpOf (other : JsString → Option (JsString → Bool)) (source : JsString) :
    Option (JsString → Bool) :=
  match readRegExp source with
  | some d => some fun value => d.found Plain.sat (Anchor.holds value.length) value
  | none => other source

/-! ## What is written reads back -/

/-- The source of an expression of the part of the language that is read here. -/
abbrev source {l : Level} (r : Regex Plain Anchor l) : JsString :=
  written Plain.text Anchor.text r

/-- No text of an atom starts with one of these. -/
def closers : JsString := js "*+?\x7b|)^$"

theorem mem_syntaxCharacters_of_mem_closers : ∀ c ∈ closers, c ∈ syntaxCharacters := by
  have hall : closers.all (· ∈ syntaxCharacters) = true := by decide +kernel
  simpa using List.all_eq_true.mp hall

theorem Plain.text_head (p : Plain) : ∃ c s, p.text = c :: s ∧ c ∉ closers := by
  cases p with
  | literal c =>
      unfold Plain.text
      dsimp only
      split
      next => exact ⟨_, _, rfl, by decide +kernel⟩
      next hplain =>
          exact ⟨c, [], rfl, fun hmem => hplain (mem_syntaxCharacters_of_mem_closers c hmem)⟩
  | dot => exact ⟨unit '.', [], rfl, by decide +kernel⟩

theorem source_atom_head (a : Regex Plain Anchor .atom) :
    ∃ c s, source a = c :: s ∧ c ∉ closers := by
  cases a with
  | char p => exact p.text_head
  | group capturing d =>
      cases capturing with
      | true => exact ⟨unit '(', _, rfl, by decide +kernel⟩
      | false => exact ⟨unit '(', _, rfl, by decide +kernel⟩

/-- A term opens with an anchor or as an atom does. -/
theorem source_term_head (t : Regex Plain Anchor .term) :
    ∃ c s, source t = c :: s ∧ (c = unit '^' ∨ c = unit '$' ∨ c ∉ closers) := by
  cases t with
  | assertion b =>
      cases b with
      | start => exact ⟨unit '^', [], rfl, .inl rfl⟩
      | stop => exact ⟨unit '$', [], rfl, .inr (.inl rfl)⟩
  | once a =>
      obtain ⟨c, s, hs, hc⟩ := source_atom_head a
      exact ⟨c, s, hs, .inr (.inr hc)⟩
  | repeated a q lazy =>
      obtain ⟨c, s, hs, hc⟩ := source_atom_head a
      refine ⟨c, s ++ (quantifierText q ++ if lazy then js "?" else []), ?_, .inr (.inr hc)⟩
      show source a ++ quantifierText q ++ _ = _
      rw [hs, List.append_assoc, List.cons_append]

theorem readLazy_written (lazy : Bool) {rest : JsString} (h : rest.head? ≠ some (unit '?')) :
    readLazy ((if lazy then js "?" else []) ++ rest) = (lazy, rest) := by
  cases lazy with
  | true => rfl
  | false =>
      cases rest with
      | nil => rfl
      | cons c rest =>
          have hc : c ≠ unit '?' := fun hc => h (congrArg some hc)
          show (if c = unit '?' then _ else _) = _
          rw [if_neg hc]

/-- The digits of a number, with something else behind them. -/
theorem digits_written (n : Nat) {c : CodeUnit} (hc : isDigit c = false) (rest : JsString) :
    (natText n ++ c :: rest).takeWhile isDigit = natText n ∧
      (natText n ++ c :: rest).dropWhile isDigit = c :: rest := by
  have hdigits : ∀ d ∈ natText n, isDigit d = true := fun d => isDigit_of_mem_natText
  constructor
  · rw [List.takeWhile_append_of_pos hdigits, List.takeWhile_cons_of_neg (by simp [hc]),
      List.append_nil]
  · rw [List.dropWhile_append_of_pos hdigits, List.dropWhile_cons_of_neg (by simp [hc])]

/-- A number, and what stands behind it. -/
theorem readBounds_digits (n : Nat) {c : CodeUnit} (hc : isDigit c = false) (rest : JsString) :
    readBounds (natText n ++ c :: rest) =
      if c = unit '\x7d' then some (.exactly n, rest)
      else if c = unit ',' then
        let m := digitsValue (rest.takeWhile isDigit)
        match rest.takeWhile isDigit, rest.dropWhile isDigit with
        | [], c :: rest => if c = unit '\x7d' then some (.atLeast n, rest) else none
        | _ :: _, c :: rest =>
            if c = unit '\x7d' then
              if h : n ≤ m then some (.between n m h, rest) else none
            else none
        | _, [] => none
      else none := by
  obtain ⟨htake, hdrop⟩ := digits_written n hc rest
  unfold readBounds
  rw [htake, hdrop, digitsValue_natText]
  cases hdigits : natText n with
  | nil => exact absurd hdigits (natText_ne_nil n)
  | cons d ds => rfl

theorem readBounds_between (n m : Nat) (h : n ≤ m) (rest : JsString) :
    readBounds (natText n ++ unit ',' :: (natText m ++ unit '\x7d' :: rest)) =
      some (.between n m h, rest) := by
  obtain ⟨htake, hdrop⟩ := digits_written m (c := unit '\x7d') (by decide) rest
  have hcomma : unit ',' ≠ unit '\x7d' := by decide
  rw [readBounds_digits n (by decide), if_neg hcomma, if_pos rfl, htake, hdrop,
    digitsValue_natText]
  cases hdigits : natText m with
  | nil => exact absurd hdigits (natText_ne_nil m)
  | cons d ds =>
      show (if unit '\x7d' = unit '\x7d' then if h : n ≤ m then _ else _ else _) = _
      rw [if_pos rfl, dif_pos h]

/-- Behind an opening brace the bounds are read, and then the laziness. -/
theorem readQuantifier_braced {q : Quantifier} {s more rest : JsString} {lazy : Bool}
    (hbounds : readBounds s = some (q, more)) (hlazy : readLazy more = (lazy, rest)) :
    readQuantifier (unit '\x7b' :: s) = some (some (q, lazy), rest) := by
  show (readBounds s).map _ = _
  rw [hbounds]
  exact congrArg (fun read => some (some (q, read.1), read.2)) hlazy

/-- A quantifier reads back, unless a `?` follows that would make it lazy. -/
theorem readQuantifier_written (q : Quantifier) (lazy : Bool) {rest : JsString}
    (h : rest.head? ≠ some (unit '?')) :
    readQuantifier (quantifierText q ++ (if lazy then js "?" else []) ++ rest) =
      some (some (q, lazy), rest) := by
  have hlazy := readLazy_written lazy h
  rw [List.append_assoc]
  generalize hmore : (if lazy then js "?" else []) ++ rest = more at hlazy ⊢
  cases q with
  | star => exact congrArg (fun read => some (some (Quantifier.star, read.1), read.2)) hlazy
  | plus => exact congrArg (fun read => some (some (Quantifier.plus, read.1), read.2)) hlazy
  | optional =>
      exact congrArg (fun read => some (some (Quantifier.optional, read.1), read.2)) hlazy
  | exactly n =>
      have hbounds : readBounds (natText n ++ unit '\x7d' :: more) = some (.exactly n, more) := by
        rw [readBounds_digits n (by decide), if_pos rfl]
      have htext : quantifierText (.exactly n) ++ more =
          unit '\x7b' :: (natText n ++ unit '\x7d' :: more) := by
        show js "\x7b" ++ natText n ++ js "\x7d" ++ more = _
        rw [List.append_assoc, List.append_assoc]
        rfl
      rw [htext]
      exact readQuantifier_braced hbounds hlazy
  | atLeast n =>
      have hbounds : readBounds (natText n ++ unit ',' :: unit '\x7d' :: more) =
          some (.atLeast n, more) := by
        have hcomma : unit ',' ≠ unit '\x7d' := by decide
        rw [readBounds_digits n (by decide), if_neg hcomma, if_pos rfl]
        rfl
      have htext : quantifierText (.atLeast n) ++ more =
          unit '\x7b' :: (natText n ++ unit ',' :: unit '\x7d' :: more) := by
        show js "\x7b" ++ natText n ++ js ",\x7d" ++ more = _
        rw [List.append_assoc, List.append_assoc]
        rfl
      rw [htext]
      exact readQuantifier_braced hbounds hlazy
  | between n m hle =>
      have htext : quantifierText (.between n m hle) ++ more =
          unit '\x7b' :: (natText n ++ unit ',' :: (natText m ++ unit '\x7d' :: more)) := by
        show js "\x7b" ++ natText n ++ js "," ++ natText m ++ js "\x7d" ++ more = _
        simp only [List.append_assoc]
        rfl
      rw [htext]
      exact readQuantifier_braced (readBounds_between n m hle more) hlazy

/-- Where no quantifier starts none is read. -/
theorem readQuantifier_none {rest : JsString} (h : ∀ c ∈ rest.head?, c ∉ js "*+?\x7b") :
    readQuantifier rest = some (none, rest) := by
  cases rest with
  | nil => rfl
  | cons c rest =>
      have hc : c ∉ [unit '*', unit '+', unit '?', unit '\x7b'] := h c rfl
      simp only [List.mem_cons, List.not_mem_nil, or_false, not_or] at hc
      obtain ⟨hstar, hplus, hoptional, hbrace⟩ := hc
      unfold readQuantifier
      dsimp only
      rw [if_neg hstar, if_neg hplus, if_neg hoptional, if_neg hbrace]

/-- With enough fuel an expression reads back from its source, whatever stands behind it
that cannot be taken for more of it. -/
def ReadsBack : {l : Level} → Regex Plain Anchor l → Prop
  | .disjunction, d => ∀ fuel rest, 2 * (source d).length + 2 ≤ fuel →
      (∀ c ∈ rest.head?, c = unit ')') →
      readDisjunction fuel (source d ++ rest) = some (d, rest)
  | .alternative, a => ∀ fuel rest, 2 * (source a).length + 1 ≤ fuel →
      (∀ c ∈ rest.head?, c = unit '|' ∨ c = unit ')') →
      readAlternative fuel (source a ++ rest) = some (a, rest)
  | .term, t => ∀ fuel rest, 2 * (source t).length ≤ fuel →
      (∀ c ∈ rest.head?, c ∉ js "*+?\x7b") →
      readTerm fuel (source t ++ rest) = some (t, rest)
  | .atom, a => ∀ fuel rest, 2 * (source a).length ≤ fuel + 1 →
      readAtom fuel (source a ++ rest) = some (a, rest)

theorem readsBack_one {a : Regex Plain Anchor .alternative} (h : ReadsBack a) :
    ReadsBack (.one a) := by
  intro fuel rest hfuel hrest
  obtain ⟨fuel, rfl⟩ := Nat.exists_eq_succ_of_ne_zero (n := fuel) (by omega)
  have hread := h fuel rest (Nat.le_of_succ_le_succ hfuel) fun c hc => .inr (hrest c hc)
  show readDisjunction (fuel + 1) (source a ++ rest) = _
  unfold readDisjunction
  rw [hread]
  cases rest with
  | nil => rfl
  | cons c rest =>
      have hbar : c ≠ unit '|' := by
        rw [hrest c rfl]
        decide
      dsimp only
      rw [if_neg hbar]

theorem readsBack_alt {a : Regex Plain Anchor .alternative} {d : Regex Plain Anchor .disjunction}
    (ha : ReadsBack a) (hd : ReadsBack d) : ReadsBack (.alt a d) := by
  intro fuel rest hfuel hrest
  have hsource : source (.alt a d) = source a ++ unit '|' :: source d := by
    show source a ++ js "|" ++ source d = _
    rw [List.append_assoc]
    rfl
  rw [hsource, List.length_append, List.length_cons] at hfuel
  obtain ⟨fuel, rfl⟩ := Nat.exists_eq_succ_of_ne_zero (n := fuel) (by omega)
  have hfirst := ha fuel (unit '|' :: (source d ++ rest)) (by omega) fun c hc => by
    obtain rfl := Option.some.inj hc
    exact .inl rfl
  have hlater := hd fuel rest (by omega) hrest
  rw [hsource, List.append_assoc, List.cons_append]
  unfold readDisjunction
  rw [hfirst]
  dsimp only
  rw [if_pos rfl, hlater]
  rfl

theorem readsBack_empty : ReadsBack (.empty : Regex Plain Anchor .alternative) := by
  intro fuel rest hfuel hrest
  obtain ⟨fuel, rfl⟩ := Nat.exists_eq_succ_of_ne_zero (n := fuel) (by omega)
  show readAlternative (fuel + 1) rest = _
  cases rest with
  | nil => rfl
  | cons c rest =>
      unfold readAlternative
      rw [if_pos (hrest c rfl)]

/-- What an alternative with text behind it starts with. -/
theorem source_alternative_head (a : Regex Plain Anchor .alternative) {rest : JsString}
    (h : ∀ c ∈ rest.head?, c = unit '|' ∨ c = unit ')') :
    ∀ c ∈ (source a ++ rest).head?, c ∉ js "*+?\x7b" := by
  intro c hc
  cases a with
  | empty =>
      rcases h c hc with rfl | rfl
      · decide +kernel
      · decide +kernel
  | seq t a =>
      obtain ⟨c', s, hs, hc'⟩ := source_term_head t
      have hhead : (source (.seq t a) ++ rest).head? = some c' := by
        show (source t ++ source a ++ rest).head? = some c'
        rw [hs]
        rfl
      obtain rfl := Option.some.inj (hhead.symm.trans hc)
      rcases hc' with rfl | rfl | hc'
      · decide +kernel
      · decide +kernel
      · exact fun hmem => hc' (List.mem_append_left (js "|)^$") hmem)

theorem readsBack_seq {t : Regex Plain Anchor .term} {a : Regex Plain Anchor .alternative}
    (ht : ReadsBack t) (ha : ReadsBack a) : ReadsBack (.seq t a) := by
  intro fuel rest hfuel hrest
  have hsource : source (.seq t a) = source t ++ source a := rfl
  obtain ⟨c, s, hs, hc⟩ := source_term_head t
  have hlength : (source t).length = s.length + 1 := by rw [hs, List.length_cons]
  rw [hsource, List.length_append] at hfuel
  obtain ⟨fuel, rfl⟩ := Nat.exists_eq_succ_of_ne_zero (n := fuel) (by omega)
  have hfirst := ht fuel (source a ++ rest) (by omega) (source_alternative_head a hrest)
  have hlater := ha fuel rest (by omega) hrest
  have hopen : ¬ (c = unit '|' ∨ c = unit ')') := by
    rcases hc with rfl | rfl | hc
    · decide
    · decide
    · rintro (rfl | rfl)
      · exact hc (by decide +kernel)
      · exact hc (by decide +kernel)
  rw [hsource, List.append_assoc]
  rw [hs, List.cons_append] at hfirst ⊢
  unfold readAlternative
  rw [if_neg hopen, hfirst]
  dsimp only
  rw [hlater]
  rfl

theorem readsBack_assertion (b : Anchor) :
    ReadsBack (.assertion b : Regex Plain Anchor .term) := by
  intro fuel rest hfuel _
  have hone : (source (.assertion b : Regex Plain Anchor .term)).length = 1 := by
    cases b <;> rfl
  obtain ⟨fuel, rfl⟩ := Nat.exists_eq_succ_of_ne_zero (n := fuel) (by omega)
  cases b with
  | start => rfl
  | stop => rfl

/-- A term that opens as an atom does is an atom with a quantifier or without one. -/
theorem readTerm_of_readAtom {fuel : Nat} {c : CodeUnit} {s rest : JsString}
    {a : Regex Plain Anchor .atom} (hc : c ∉ closers)
    (h : readAtom fuel (c :: s) = some (a, rest)) :
    readTerm (fuel + 1) (c :: s) =
      (readQuantifier rest).map fun read => (quantify a read.1, read.2) := by
  have hstart : c ≠ unit '^' := by
    rintro rfl
    exact hc (by decide +kernel)
  have hstop : c ≠ unit '$' := by
    rintro rfl
    exact hc (by decide +kernel)
  unfold readTerm
  rw [if_neg hstart, if_neg hstop, h]

theorem readsBack_once {a : Regex Plain Anchor .atom} (h : ReadsBack a) :
    ReadsBack (.once a) := by
  intro fuel rest hfuel hrest
  obtain ⟨c, s, hs, hc⟩ := source_atom_head a
  have hsource : source (.once a) = source a := rfl
  have hlength : (source a).length = s.length + 1 := by rw [hs, List.length_cons]
  rw [hsource] at hfuel ⊢
  obtain ⟨fuel, rfl⟩ := Nat.exists_eq_succ_of_ne_zero (n := fuel) (by omega)
  have hread := h fuel rest (by omega)
  rw [hs, List.cons_append] at hread ⊢
  rw [readTerm_of_readAtom hc hread, readQuantifier_none hrest]
  rfl

theorem readsBack_repeated {a : Regex Plain Anchor .atom} (q : Quantifier) (lazy : Bool)
    (h : ReadsBack a) : ReadsBack (.repeated a q lazy) := by
  intro fuel rest hfuel hrest
  obtain ⟨c, s, hs, hc⟩ := source_atom_head a
  have hsource : source (.repeated a q lazy) =
      source a ++ quantifierText q ++ if lazy then js "?" else [] := rfl
  have hlength : (source a).length = s.length + 1 := by rw [hs, List.length_cons]
  rw [hsource, List.length_append, List.length_append] at hfuel
  obtain ⟨fuel, rfl⟩ := Nat.exists_eq_succ_of_ne_zero (n := fuel) (by omega)
  have hnext : rest.head? ≠ some (unit '?') := by
    intro hhead
    exact hrest _ hhead (by decide +kernel)
  have hread := h fuel (quantifierText q ++ (if lazy then js "?" else []) ++ rest) (by omega)
  have happend : source a ++ quantifierText q ++ (if lazy then js "?" else []) ++ rest =
      source a ++ (quantifierText q ++ (if lazy then js "?" else []) ++ rest) := by
    simp only [List.append_assoc]
  rw [hsource, happend]
  rw [hs, List.cons_append] at hread ⊢
  rw [readTerm_of_readAtom hc hread, readQuantifier_written q lazy hnext]
  rfl

theorem readsBack_char (p : Plain) : ReadsBack (.char p : Regex Plain Anchor .atom) := by
  intro fuel rest hfuel
  obtain ⟨c, s, hs, -⟩ := p.text_head
  have hsource : source (.char p : Regex Plain Anchor .atom) = p.text := rfl
  rw [hsource, hs, List.length_cons] at hfuel
  obtain ⟨fuel, rfl⟩ := Nat.exists_eq_succ_of_ne_zero (n := fuel) (by omega)
  cases p with
  | dot => rfl
  | literal c =>
      show readAtom (fuel + 1)
        ((if c ∈ syntaxCharacters then [unit '\x5c', c] else [c]) ++ rest) = _
      by_cases hsyntax : c ∈ syntaxCharacters
      · rw [if_pos hsyntax]
        show readAtom (fuel + 1) (unit '\x5c' :: c :: rest) = _
        unfold readAtom
        rw [if_neg (by decide), if_pos rfl]
        dsimp only
        rw [if_pos hsyntax]
      · have hne : ∀ u ∈ syntaxCharacters, c ≠ u := by
          rintro u hu rfl
          exact hsyntax hu
        rw [if_neg hsyntax]
        show readAtom (fuel + 1) (c :: rest) = _
        unfold readAtom
        rw [if_neg (hne _ (by decide +kernel)), if_neg (hne _ (by decide +kernel)),
          if_neg (hne _ (by decide +kernel)), if_neg hsyntax]

/-- What stands behind an opening parenthesis does not start with `?` unless it says so. -/
theorem readOpening_written (capturing : Bool) (d : Regex Plain Anchor .disjunction)
    (rest : JsString) :
    readOpening ((if capturing then [] else js "?:") ++ (source d ++ unit ')' :: rest)) =
      (capturing, source d ++ unit ')' :: rest) := by
  cases capturing with
  | false => rfl
  | true =>
      have hhead : ∀ c ∈ (source d ++ unit ')' :: rest).head?, c ∉ js "*+?\x7b" := by
        cases d with
        | one a =>
            exact source_alternative_head a fun c hc => .inr (Option.some.inj hc).symm
        | alt a d =>
            have happend : source (.alt a d) ++ unit ')' :: rest =
                source a ++ unit '|' :: (source d ++ unit ')' :: rest) := by
              show source a ++ js "|" ++ source d ++ unit ')' :: rest = _
              rw [List.append_assoc, List.append_assoc]
              rfl
            rw [happend]
            exact source_alternative_head a fun c hc => .inl (Option.some.inj hc).symm
      show readOpening (source d ++ unit ')' :: rest) = _
      generalize source d ++ unit ')' :: rest = s at hhead ⊢
      match s with
      | [] => rfl
      | [c] => rfl
      | c :: c' :: s =>
          have hc : c ≠ unit '?' := by
            rintro rfl
            exact hhead _ rfl (by decide +kernel)
          exact if_neg fun h => hc h.1

theorem readsBack_group (capturing : Bool) {d : Regex Plain Anchor .disjunction}
    (h : ReadsBack d) : ReadsBack (.group capturing d) := by
  intro fuel rest hfuel
  have hsource : source (.group capturing d) ++ rest =
      unit '(' :: ((if capturing then [] else js "?:") ++ (source d ++ unit ')' :: rest)) := by
    show (if capturing then js "(" else js "(?:") ++ source d ++ js ")" ++ rest = _
    rw [List.append_assoc, List.append_assoc]
    cases capturing <;> rfl
  have hlength : (source d).length + 2 ≤ (source (.group capturing d)).length := by
    show _ ≤ ((if capturing then js "(" else js "(?:") ++ source d ++ js ")").length
    rw [List.length_append, List.length_append]
    have hclose : (js ")").length = 1 := rfl
    have hopen : 1 ≤ (if capturing then js "(" else js "(?:").length := by
      cases capturing <;> decide
    omega
  obtain ⟨fuel, rfl⟩ := Nat.exists_eq_succ_of_ne_zero (n := fuel) (by omega)
  have hread := h fuel (unit ')' :: rest) (by omega) fun c hc => (Option.some.inj hc).symm
  rw [hsource]
  unfold readAtom
  rw [if_neg (by decide), if_neg (by decide), if_pos rfl, readOpening_written]
  dsimp only
  rw [hread]
  dsimp only
  rw [if_pos rfl]

theorem readsBack {l : Level} (r : Regex Plain Anchor l) : ReadsBack r := by
  induction r with
  | one a ih => exact readsBack_one ih
  | alt a d iha ihd => exact readsBack_alt iha ihd
  | empty => exact readsBack_empty
  | seq t a iht iha => exact readsBack_seq iht iha
  | assertion b => exact readsBack_assertion b
  | once a ih => exact readsBack_once ih
  | repeated a q lazy ih => exact readsBack_repeated q lazy ih
  | char p => exact readsBack_char p
  | group capturing d ih => exact readsBack_group capturing ih

/-- **Round trip**: an expression is read back from its source. -/
theorem readRegExp_source (d : Regex Plain Anchor .disjunction) :
    readRegExp (source d) = some d := by
  have hread := readsBack d (2 * (source d).length + 2) [] le_rfl fun c hc => by cases hc
  rw [List.append_nil] at hread
  unfold readRegExp
  rw [hread]

end RateLimiter.Javascript
