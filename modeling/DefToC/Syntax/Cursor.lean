import DefToC.Error
import DefToC.Token.Kind

/-!
# Reading tokens

A cursor is a place in a row of tokens that is closed by an end mark. It moves forward token by
token and never past the end mark. A reader takes a cursor and gives a value and a later cursor, or
it fails and tells the cursor at which it stopped. That a cursor has fewer tokens left is part of a
reader's result, and it is what ends every loop over tokens.

## The model

A row of tokens need not come from a text, so it may have no end mark, or end marks in the middle.
The one at the very end closes the row, and if there is none it is added behind the last token. An
end mark in the middle is a token like any other.

`Reading α n` is the result of a reader that leaves fewer than `n` tokens. The bound is a part of
the type, so a reader that would not get on cannot be written, and no reader needs a proof of its
own that it ends. It is passed on by `Reading.within` and `Reading.below`.

## What is not modelled

The tokens behind the cursor are not kept, and a reader never goes back. Nor does it look further
than the current token to decide what it reads.
-/

namespace DefToC

/-- The tokens from some place on. -/
structure Cursor where
  /-- The tokens in front of the end mark. -/
  pending : List Token
  /-- The text of the end mark. -/
  endValue : String
  /-- The place of the end mark. -/
  endSpan : Span

/-- A reader's failure: what is wrong, and how far it came. -/
structure Failure where
  /-- What is wrong. -/
  error : Error
  /-- The cursor at which the reader stopped. -/
  cursor : Cursor

namespace Cursor

/-- The end mark as a token. -/
def endToken (c : Cursor) : Token := ⟨.eof, c.endValue, c.endSpan⟩

/-- The cursor at the start of a row of tokens. If the row has no end mark of its own, one
is put behind its last token. -/
def ofTokens (file : String) (tokens : List Token) : Cursor :=
  match tokens.getLast? with
  | none => ⟨[], "EOF", ⟨file, 0, 0⟩⟩
  | some last =>
    if last.kind = .eof then ⟨tokens.dropLast, last.value, last.span⟩
    else ⟨tokens, "EOF", last.span.after⟩

/-- The number of tokens in front of the end mark. -/
def size (c : Cursor) : Nat := c.pending.length

/-- The current token, which is the end mark when no other token is left. -/
def current (c : Cursor) : Token := c.pending.headD c.endToken

/-- The kind of the current token. -/
def kind (c : Cursor) : TokenKind := c.current.kind

/-- The cursor behind the current token. The end mark is never passed. -/
def advance (c : Cursor) : Cursor := { c with pending := c.pending.tail }

/-- Past the line ends at the cursor. -/
def skipNewlines (c : Cursor) : Cursor :=
  { c with pending := c.pending.dropWhile (·.kind = .newline) }

/-- Is the current token something else than an end mark? -/
def hasTokens (c : Cursor) : Bool := c.kind ≠ .eof

/-- The failure at a token that cannot stand where it stands. -/
def unexpected (c : Cursor) : Failure :=
  ⟨⟨.unexpectedToken c.current.display, c.current.span.position⟩, c⟩

/-- The failure at a token where something else was wanted. -/
def unexpectedDetailed (c : Cursor) (message : String) : Failure :=
  ⟨⟨.unexpectedTokenDetailed c.current.display message, c.current.span.position⟩, c⟩

/-- A token that is no end mark is one of the tokens left. -/
theorem pending_ne_nil {c : Cursor} {k : TokenKind} (h : c.kind = k) (hk : k ≠ .eof) :
    c.pending ≠ [] := by
  rintro hc
  exact hk (h ▸ by simp [kind, current, hc, endToken])

theorem advance_size_lt {c : Cursor} (h : c.pending ≠ []) : c.advance.size < c.size := by
  obtain ⟨_ | ⟨t, ts⟩, v, s⟩ := c
  · exact absurd rfl h
  · exact Nat.lt_succ_self ts.length

theorem skipNewlines_size_le (c : Cursor) : c.skipNewlines.size ≤ c.size :=
  (c.pending.dropWhile_sublist _).length_le

end Cursor

/-- A value that was read, and the cursor behind it with fewer than `n` tokens left. -/
structure Parsed (α : Type) (n : Nat) where
  /-- What was read. -/
  value : α
  /-- The cursor behind it. -/
  next : Cursor
  /-- How many tokens are left at most. -/
  size_lt : next.size < n

/-- The result of a reader that leaves fewer than `n` tokens. A reader that takes a token
from `c` has `c.size` for `n`, one that may take none has `c.size + 1`. -/
abbrev Reading (α : Type) (n : Nat) := Except Failure (Parsed α n)

namespace Reading

variable {α : Type} {n : Nat} {c : Cursor}

/-- What is read from a cursor with fewer than `n` tokens leaves fewer than `n` tokens. -/
def within (r : Reading α (c.size + 1)) (h : c.size < n) : Reading α n :=
  match r with
  | .error f => .error f
  | .ok p => .ok ⟨p.value, p.next, Nat.lt_of_lt_of_le p.size_lt h⟩

/-- A reader that takes a token also leaves no more tokens than it found. -/
def weaken (r : Reading α c.size) : Reading α (c.size + 1) :=
  match r with
  | .error f => .error f
  | .ok p => .ok ⟨p.value, p.next, Nat.lt_succ_of_lt p.size_lt⟩

/-- What is read from a cursor with fewer than `n` tokens, taking one of them, leaves fewer
than `n` tokens. -/
def below (r : Reading α c.size) (h : c.size < n) : Reading α n := r.weaken.within h

/-- A value that is read without taking a token. -/
def here (c : Cursor) (value : α) : Reading α (c.size + 1) :=
  .ok ⟨value, c, Nat.lt_succ_self c.size⟩

end Reading

namespace Cursor

/-- Take the current token. The end mark cannot be taken. -/
def shift (c : Cursor) : Reading Token c.size :=
  if h : c.pending = [] then .error c.unexpected
  else .ok ⟨c.current, c.advance, advance_size_lt h⟩

/-- The current token if it is of the given kind, and the cursor behind it. -/
def expect (c : Cursor) (kind : TokenKind) : Except Failure (Token × Cursor) :=
  if c.kind = kind then .ok (c.current, c.advance)
  else .error (c.unexpectedDetailed ("expected " ++ kind.name))

/-- Take a token of the given kind, or fail with the given message. -/
def takeOr (c : Cursor) (kind : TokenKind) (message : String) : Reading Token c.size :=
  if c.kind = kind then c.shift else .error (c.unexpectedDetailed message)

/-- Take a token of the given kind. -/
def take (c : Cursor) (kind : TokenKind) : Reading Token c.size :=
  c.takeOr kind ("expected " ++ kind.name)

end Cursor

end DefToC
