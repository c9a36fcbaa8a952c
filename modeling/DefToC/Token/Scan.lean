import DefToC.Error
import DefToC.Token.Pattern

/-!
# From text to tokens

A text is cut into lexemes from left to right. Separators, comments, joined lines and the line ends
inside brackets leave no token. Outside brackets a line end closes the current logical line, and the
indentation of the next line that is not blank opens or closes blocks.

A block is known by the width of its lines. The widths of the blocks that enclose the current line
form a stack, innermost first, that ends in the width zero of the outermost block. A line that
starts a statement is compared with the top of the stack (`adjustIndents`).

## The model

`Scanner` is what is known in front of the remaining text, and `Scanner.run` goes on from there. A
scanner counts what it passes over in three ways, and it is proved elsewhere that all of them count
the bytes of the text. Over the indentation of a line it goes on by one for each character
(`Scanner.byteLength_indentation`), over a bracket or a mark by the bytes of its own text, and over
any other lexeme by the bytes that were found (`Scanner.offset_take`).

## What is not modelled

The tokens that were left so far are not kept. Of them only the last one matters, and of that only
whether it leaves the logical line without a token (`Scanner.lineEmpty`). Offsets have no upper
bound, so they are those of 32 bits in a text of fewer than `2 ^ 32` bytes only.
-/

namespace DefToC

/-! ### Indentation -/

/-- The characters that may indent a line. -/
def isIndentation (c : Char) : Bool := c == ' ' || c == '\t' || c == '\x0c'

/-- The width of a line's indentation. A space counts one, a tab goes on to the next
multiple of eight, and a form feed starts again from zero. -/
def indentWidth (cs : List Char) : Nat :=
  cs.foldl (fun width c =>
    if c = ' ' then width + 1
    else if c = '\t' then (width / 8 + 1) * 8
    else 0) 0

/-- What a line of the given width does to the stack of block widths: a wider line opens a
block, a narrower one closes every wider block. There is no answer if the line then fits
no open block. -/
def adjustIndents (widths : List Nat) (width : Nat) : Option (List TokenKind × List Nat) :=
  if widths.headD 0 < width then some ([.indent], width :: widths)
  else
    let closed := widths.takeWhile (width < ·)
    let enclosing := widths.dropWhile (width < ·)
    if enclosing.headD 0 = width then some (closed.map fun _ => .dedent, enclosing) else none

/-- Does the text behind the indentation of a line leave the line blank? A line that holds
only a comment counts as blank. -/
def isBlankLine : List Char → Bool
  | [] => true
  | c :: _ => c == '\n' || c == '\r' || c == '#'

/-! ### The scanner -/

/-- What is known in front of the remaining text. -/
structure Scanner where
  /-- The name of the text. -/
  file : String
  /-- The number of bytes already taken. -/
  offset : Nat
  /-- The widths of the enclosing blocks, innermost first. -/
  widths : List Nat
  /-- The number of brackets that are open. -/
  depth : Nat
  /-- Does the remaining text begin at the start of a line whose indentation counts? -/
  lineStart : Bool
  /-- Is the current logical line still without a token? -/
  lineEmpty : Bool

namespace Scanner

/-- The state in front of a whole text. -/
def start (file : String) : Scanner :=
  { file, offset := 0, widths := [0], depth := 0, lineStart := true, lineEmpty := true }

/-- The span of the next so many bytes. -/
def span (s : Scanner) (bytes : Nat) : Span := ⟨s.file, s.offset, s.offset + bytes⟩

/-- A token without text at the current place. -/
def mark (s : Scanner) (kind : TokenKind) : Token := ⟨kind, "", s.span 0⟩

/-- The tokens at the end of the text: the last line and all blocks are closed. -/
def finish (s : Scanner) : List Token :=
  (if s.lineEmpty then [] else [s.mark .newline]) ++
    (s.widths.drop 1).map (fun _ => s.mark .dedent) ++ [⟨.eof, "EOF", s.span 0⟩]

/-- Pass over the indentation of a line, which is one byte for each character. -/
def indent (s : Scanner) (indentation : List Char) : Scanner :=
  { s with offset := s.offset + indentation.length, lineStart := false }

/-- Pass over a lexeme that leaves no token. -/
def skip (s : Scanner) (lexeme : List Char) : Scanner :=
  { s with offset := s.offset + byteLength lexeme }

/-- The token of a lexeme. -/
def token (s : Scanner) (kind : TokenKind) (lexeme : List Char) : Token :=
  ⟨kind, String.ofList lexeme, s.span (byteLength lexeme)⟩

/-- The tokens that a lexeme leaves, and the state behind it. A bracket and a mark leave their own
text, whatever was found. -/
def take (s : Scanner) (lexeme : List Char) : Pattern → List Token × Scanner
  | .word =>
    ([s.token (.ofWord (String.ofList lexeme)) lexeme], { s.skip lexeme with lineEmpty := false })
  | .number => ([s.token .number lexeme], { s.skip lexeme with lineEmpty := false })
  | .mark text kind =>
    ([s.token kind text.toList], { s.skip text.toList with lineEmpty := false })
  | .opening bracket kind =>
    ([s.token kind [bracket]], { s.skip [bracket] with lineEmpty := false, depth := s.depth + 1 })
  | .closing bracket kind =>
    ([s.token kind [bracket]], { s.skip [bracket] with lineEmpty := false, depth := s.depth - 1 })
  | .lineEnd =>
    if s.depth = 0 then
      (if s.lineEmpty then [] else [⟨.newline, "\\n", s.span (byteLength lexeme)⟩],
        { s.skip lexeme with lineStart := true, lineEmpty := true })
    else ([], s.skip lexeme)
  | .separators | .joinedLine | .comment => ([], s.skip lexeme)

/-- The tokens of the remaining text. -/
def run (s : Scanner) (cs : List Char) : Except Error (List Token) :=
  if cs = [] then .ok s.finish
  else if s.lineStart then
    let indentation := cs.takeWhile isIndentation
    let rest := cs.dropWhile isIndentation
    let s' := s.indent indentation
    if isBlankLine rest then s'.run rest
    else
      match adjustIndents s.widths (indentWidth indentation) with
      | none => .error ⟨.inconsistentIndentation, (s'.span 0).position⟩
      | some (kinds, widths) => do
        let tokens ← { s' with widths }.run rest
        return kinds.map s'.mark ++ tokens
  else
    match h : Pattern.first? cs with
    | none => .error ⟨.unrecognisedToken (String.ofList (cs.take 1)), (s.span 0).position⟩
    | some (pattern, n) => do
      have : 0 < pattern.advance n :=
        Nat.lt_of_lt_of_eq (Pattern.first?_pos h) (Pattern.advance_of_first? h).symm
      let taken := s.take (cs.take n) pattern
      let tokens ← taken.2.run (cs.drop (pattern.advance n))
      return taken.1 ++ tokens
termination_by 2 * cs.length + s.lineStart.toNat
decreasing_by
  -- behind the indentation of a line the state is no longer at a line start
  · have := (cs.dropWhile_sublist isIndentation).length_le
    have h : s.lineStart = true := ‹_›
    rw [h]
    exact Nat.lt_succ_of_le (Nat.mul_le_mul_left 2 this)
  · have := (cs.dropWhile_sublist isIndentation).length_le
    have h : s.lineStart = true := ‹_›
    rw [h]
    exact Nat.lt_succ_of_le (Nat.mul_le_mul_left 2 this)
  -- a lexeme takes at least one character
  · have := List.length_pos_iff.2 ‹cs ≠ []›
    have := Bool.toNat_le (s.take (cs.take n) pattern).2.lineStart
    rw [List.length_drop]
    omega

end Scanner

/-- The tokens of a source text. -/
def tokenize (file source : String) : Except Error (List Token) :=
  (Scanner.start file).run source.toList

end DefToC
