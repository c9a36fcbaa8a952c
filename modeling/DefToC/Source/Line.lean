import DefToC.Source.Position

/-!
# Lines of a text

A text is cut after each line feed. A byte offset then lies on one numbered line, at some number of
bytes from the start of that line.

Lines are counted from one. The line feed belongs to the line that it ends, so an offset at a line
feed lies on the line in front of it. An offset at or past the end of the text falls at the end of
the last line, in front of its line feed if it has one, and in a text without lines there is only
the first place of the first line. `Proofs.Source.Lines` shows that looking up an offset inverts
cutting the text.

What is shown or read of a line is often without the white space at its ends (`trim`). White space
is meant in the sense of the Unicode property of that name; these are more characters than may
indent a line.

## What is not modelled

Only line feeds end a line. A carriage return in front of one is a character of the line, and one on
its own ends nothing.
-/

namespace DefToC

/-! ### White space -/

/-- White space: the tabs, line ends and spaces of all scripts. -/
def isBlank (c : Char) : Bool :=
  let n := c.toNat
  (0x9 ≤ n && n ≤ 0xd) || n == 0x20 || n == 0x85 || n == 0xa0 || n == 0x1680 ||
    (0x2000 ≤ n && n ≤ 0x200a) || n == 0x2028 || n == 0x2029 || n == 0x202f || n == 0x205f ||
    n == 0x3000

/-- A text without the white space in front of it and behind it. -/
def trim (cs : List Char) : List Char :=
  ((cs.dropWhile isBlank).reverse.dropWhile isBlank).reverse

/-! ### Lines -/

/-- A text cut after each line feed. No piece is empty, and the pieces in order
are the text. -/
def splitLines : List Char → List (List Char)
  | [] => []
  | c :: cs =>
    if c = '\n' then [c] :: splitLines cs
    else
      match splitLines cs with
      | [] => [[c]]
      | line :: lines => (c :: line) :: lines

/-- A line of a text together with a place on it. -/
structure LinePlace where
  /-- The number of the line, counted from one. -/
  number : Nat
  /-- The line, with its line feed if it has one. -/
  text : List Char
  /-- The number of bytes of the line in front of the place. -/
  column : Nat
  deriving DecidableEq

/-- The bytes of a line without the line feed at its end. -/
def bareLength (line : List Char) : Nat :=
  byteLength ((line.reverse.dropWhile (· == '\n')).reverse)

/-- Look for `offset` on the given lines, the first of which has the given
number. An offset past all of them falls at the end of the last line; `last`
answers when there is no line at all. -/
def locateIn (last : LinePlace) : Nat → List (List Char) → Nat → LinePlace
  | _, [], _ => last
  | number, line :: lines, offset =>
    if offset < byteLength line then ⟨number, line, offset⟩
    else locateIn ⟨number, line, bareLength line⟩ (number + 1) lines (offset - byteLength line)

/-- The line on which a byte offset lies. An offset at or past the end of the
text falls at the end of its last line. -/
def locate (text : String) (offset : Nat) : LinePlace :=
  locateIn ⟨1, [], 0⟩ 1 (splitLines text.toList) offset

end DefToC
