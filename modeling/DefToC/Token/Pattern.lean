import DefToC.Token.Kind

/-!
# Lexical patterns

The table of patterns by which a text is cut into lexemes. Each pattern says how many characters it
takes from the front of the remaining text; the first pattern of the table that takes any is used.
The table is ordered so that this is also the longest possible lexeme.

There are words, numbers and blank stretches, whose lexemes can have any length, and there are
brackets, operators and punctuation marks, which have one text each. A pattern of the second kind is
found by its text, and what is then passed over is this text again (`Pattern.fixed?`), not what was
found. That the two are the same is a fact about the table (`Pattern.advance_of_first?`).

Every pattern of the table takes at least one character where it fits (`Pattern.first?_pos`), so a
text is used up by taking lexemes from it.

The patterns are functions on the remaining text. As regular expressions they are given in
`Pattern.regex`, with the proof that both find the same. There are no patterns for texts in quotes
and for numbers other than decimal ones: what none of the patterns takes is no lexeme.
-/

namespace DefToC

/-- The first character of a word. -/
def isWordStart (c : Char) : Bool := c.isAlpha || c == '_'

/-- A later character of a word. -/
def isWordPart (c : Char) : Bool := c.isAlphanum || c == '_'

/-- The characters that separate words on a line. -/
def isSeparator (c : Char) : Bool := c == ' ' || c == '\t' || c == '\r' || c == '\x0c'

/-- A class of lexemes. -/
inductive Pattern where
  /-- A letter or underscore, then letters, digits and underscores. -/
  | word
  /-- Digits, an optional fraction and an optional exponent. -/
  | number
  /-- A line feed, with or without a carriage return in front of it. -/
  | lineEnd
  /-- A run of separators. -/
  | separators
  /-- A backslash at the end of a line, which joins the next line to it. -/
  | joinedLine
  /-- A hash sign and the rest of the line. -/
  | comment
  /-- A bracket that opens a group. -/
  | opening (bracket : Char) (kind : TokenKind)
  /-- A bracket that closes a group. -/
  | closing (bracket : Char) (kind : TokenKind)
  /-- An operator or punctuation mark. -/
  | mark (text : String) (kind : TokenKind)

namespace Pattern

/-- The length of a run at the front of a text: one character that may start it, then all
that may continue it. -/
def runLength? (start part : Char → Bool) : List Char → Option Nat
  | [] => none
  | c :: cs => if start c then some (1 + (cs.takeWhile part).length) else none

/-- The length of a fixed text, if it stands at the front. -/
def textLength? (text cs : List Char) : Option Nat :=
  if text <+: cs then some text.length else none

/-- The length of a line end at the front of a text. -/
def lineEndLength? : List Char → Option Nat
  | '\n' :: _ => some 1
  | '\r' :: '\n' :: _ => some 2
  | _ => none

/-- The length of a backslash and a line end at the front of a text. -/
def joinedLineLength? : List Char → Option Nat
  | '\\' :: cs => (lineEndLength? cs).map (1 + ·)
  | _ => none

/-- The length of a fraction at the front of a text: a point and any digits. -/
def fractionLength : List Char → Nat
  | '.' :: cs => 1 + (cs.takeWhile Char.isDigit).length
  | _ => 0

/-- The length of a sign at the front of a text. -/
def signLength : List Char → Nat
  | '+' :: _ => 1
  | '-' :: _ => 1
  | _ => 0

/-- The length of an exponent at the front of a text: the letter, an optional sign and at
least one digit. -/
def exponentLength : List Char → Nat
  | [] => 0
  | c :: cs =>
    let digits := (cs.drop (signLength cs)).takeWhile Char.isDigit
    if (c = 'e' ∨ c = 'E') ∧ digits ≠ [] then 1 + signLength cs + digits.length else 0

/-- The length of a number at the front of a text. -/
def numberLength? (cs : List Char) : Option Nat :=
  let whole := (cs.takeWhile Char.isDigit).length
  let fraction := fractionLength (cs.drop whole)
  let exponent := exponentLength (cs.drop (whole + fraction))
  if whole = 0 then none else some (whole + fraction + exponent)

/-- How many characters a pattern takes from the front of a text, if it fits there. -/
def match? (cs : List Char) : Pattern → Option Nat
  | word => runLength? isWordStart isWordPart cs
  | number => numberLength? cs
  | lineEnd => lineEndLength? cs
  | separators => runLength? isSeparator isSeparator cs
  | joinedLine => joinedLineLength? cs
  | comment => runLength? (· == '#') (· != '\n') cs
  | opening bracket _ => textLength? [bracket] cs
  | closing bracket _ => textLength? [bracket] cs
  | mark text _ => textLength? text.toList cs

/-- The text of a bracket or of a mark. -/
def fixed? : Pattern → Option (List Char)
  | opening bracket _ => some [bracket]
  | closing bracket _ => some [bracket]
  | mark text _ => some text.toList
  | _ => none

/-- How many characters are passed over where a pattern has found so many. Behind a bracket or a
mark it is the length of its own text. -/
def advance (n : Nat) (p : Pattern) : Nat := (p.fixed?.map List.length).getD n

/-- The patterns in the order in which they are tried. -/
def table : List Pattern :=
  [ word, number, lineEnd, separators, joinedLine, comment,
    opening '[' .openBracket, opening '(' .openParen,
    closing ']' .closeBracket, closing ')' .closeParen,
    mark "==" .equals, mark "!=" .notEquals, mark "=" .assignment,
    mark "<=" .lessEquals, mark "<" .less, mark ">=" .greaterEquals, mark ">" .greater,
    mark ":" .colon, mark "," .comma, mark "->" .arrow,
    mark "+=" .plusEquals, mark "-=" .minusEquals, mark "*=" .starEquals,
    mark "//=" .slashSlashEquals, mark "/=" .slashEquals, mark "%=" .percentEquals,
    mark "+" .plus, mark "-" .dash, mark "//" .slashSlash, mark "/" .slash,
    mark "*" .star, mark "%" .percent ]

/-- The first pattern of the table that fits the front of a text, and how many characters
it takes. -/
def first? (cs : List Char) : Option (Pattern × Nat) :=
  table.findSome? fun p => (p.match? cs).map (p, ·)

/-! ### Every lexeme takes a character -/

theorem runLength?_pos {start part : Char → Bool} {cs : List Char} {n : Nat}
    (h : runLength? start part cs = some n) : 0 < n := by
  unfold runLength? at h
  split at h
  · simp at h
  · split at h <;> simp at h
    omega

theorem lineEndLength?_pos {cs : List Char} {n : Nat} (h : lineEndLength? cs = some n) :
    0 < n := by
  unfold lineEndLength? at h
  split at h <;> simp at h <;> omega

theorem joinedLineLength?_pos {cs : List Char} {n : Nat} (h : joinedLineLength? cs = some n) :
    0 < n := by
  unfold joinedLineLength? at h
  split at h <;> simp at h
  omega

theorem numberLength?_pos {cs : List Char} {n : Nat} (h : numberLength? cs = some n) :
    0 < n := by
  simp only [numberLength?, Option.ite_none_left_eq_some, Option.some.injEq] at h
  omega

theorem textLength?_pos {text cs : List Char} {n : Nat} (ht : text ≠ [])
    (h : textLength? text cs = some n) : 0 < n := by
  simp only [textLength?, Option.ite_none_right_eq_some, Option.some.injEq] at h
  exact h.2 ▸ List.length_pos_iff.2 ht

/-- No mark of the table is empty. -/
theorem mark_ne_nil {text : String} {kind : TokenKind} (h : mark text kind ∈ table) :
    text.toList ≠ [] := by
  rintro ht
  obtain rfl : text = "" := by simpa using ht
  simp [table] at h

/-- Every pattern of the table takes at least one character where it fits. -/
theorem match?_pos {p : Pattern} (hp : p ∈ table) {cs : List Char} {n : Nat}
    (h : p.match? cs = some n) : 0 < n := by
  cases p with
  | word => exact runLength?_pos h
  | number => exact numberLength?_pos h
  | lineEnd => exact lineEndLength?_pos h
  | separators => exact runLength?_pos h
  | joinedLine => exact joinedLineLength?_pos h
  | comment => exact runLength?_pos h
  | opening => exact textLength?_pos (by simp) h
  | closing => exact textLength?_pos (by simp) h
  | mark => exact textLength?_pos (mark_ne_nil hp) h

/-! ### What is passed over -/

theorem textLength?_append {text cs : List Char} {n : Nat} (h : textLength? text cs = some n) :
    ∃ rest, cs = text ++ rest ∧ n = text.length := by
  simp only [textLength?, Option.ite_none_right_eq_some, Option.some.injEq] at h
  obtain ⟨⟨rest, rfl⟩, rfl⟩ := h
  exact ⟨rest, rfl, rfl⟩

theorem match?_of_fixed? {p : Pattern} {text : List Char} (h : p.fixed? = some text)
    (cs : List Char) : p.match? cs = textLength? text cs := by
  cases p <;> cases h <;> rfl

/-- What a bracket or a mark finds is its own text. -/
theorem take_eq_of_fixed? {p : Pattern} {text cs : List Char} {n : Nat}
    (h : p.match? cs = some n) (htext : p.fixed? = some text) : cs.take n = text := by
  rw [match?_of_fixed? htext] at h
  obtain ⟨rest, rfl, rfl⟩ := textLength?_append h
  exact List.take_left

theorem advance_of_match? {p : Pattern} {cs : List Char} {n : Nat} (h : p.match? cs = some n) :
    p.advance n = n := by
  cases htext : p.fixed? with
  | none => simp [advance, htext]
  | some text =>
    rw [match?_of_fixed? htext] at h
    obtain ⟨rest, -, rfl⟩ := textLength?_append h
    simp [advance, htext]

/-- A lexeme that the table finds is taken by a pattern of the table. -/
theorem match?_of_first? {cs : List Char} {p : Pattern} {n : Nat} (h : first? cs = some (p, n)) :
    p ∈ table ∧ p.match? cs = some n := by
  obtain ⟨q, hq, hm⟩ := List.exists_of_findSome?_eq_some h
  simp only [Option.map_eq_some_iff, Prod.mk.injEq] at hm
  obtain ⟨m, hm, rfl, rfl⟩ := hm
  exact ⟨hq, hm⟩

/-- **What is found is passed over.** -/
theorem advance_of_first? {cs : List Char} {p : Pattern} {n : Nat} (h : first? cs = some (p, n)) :
    p.advance n = n :=
  advance_of_match? (match?_of_first? h).2

/-- The lexeme found at the front of a text is not empty. -/
theorem first?_pos {cs : List Char} {p : Pattern} {n : Nat} (h : first? cs = some (p, n)) :
    0 < n := by
  obtain ⟨hp, hm⟩ := match?_of_first? h
  exact match?_pos hp hm

end Pattern

end DefToC
