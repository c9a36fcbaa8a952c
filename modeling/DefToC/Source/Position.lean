/-!
# Places in a source text

Every token, tree node and error points into a text by byte offsets into its UTF-8 form. A text is
known by its file name, so a place is a name and an offset, and a span is a name and two offsets.

Spans are made from other spans: from the start of the first part of a node to the end of its last
part (`Span.through`), or up to the start of what follows the node (`Span.upTo`). The second kind
covers the blank stretch behind the node too.

## What is not modelled

A span keeps one file name for its two ends, for both are always in the same text. Offsets are
natural numbers. Where a place is kept in 32 bits, an offset is taken modulo `2 ^ 32`, so what is
proved here of offsets, of columns and of the places of errors is true there for texts of fewer than
`2 ^ 32` bytes only. Nothing here refuses a longer text.
-/

namespace DefToC

/-- The number of bytes that the characters take in UTF-8. -/
def byteLength : List Char → Nat
  | [] => 0
  | c :: cs => c.utf8Size + byteLength cs

/-- A place in a named text: the number of bytes in front of it. -/
structure Position where
  /-- The name of the text. -/
  file : String
  /-- The number of bytes in front of the place. -/
  offset : Nat
  deriving DecidableEq

/-- A stretch of a named text, from `start` up to but not including `stop`. -/
structure Span where
  /-- The name of the text. -/
  file : String
  /-- Where the stretch begins. -/
  start : Nat
  /-- Where the stretch ends. -/
  stop : Nat
  deriving DecidableEq

namespace Span

/-- The span of a node that no text stands behind. -/
def nowhere : Span := ⟨"<null>", 0, 0⟩

/-- The place where a span begins. -/
def position (s : Span) : Position := ⟨s.file, s.start⟩

/-- From the start of one span to the end of another. -/
def through (first last : Span) : Span := ⟨first.file, first.start, last.stop⟩

/-- From the start of one span to the start of another. -/
def upTo (first next : Span) : Span := ⟨first.file, first.start, next.start⟩

/-- The empty span where another one ends. -/
def after (s : Span) : Span := ⟨s.file, s.stop, s.stop⟩

end Span

end DefToC
