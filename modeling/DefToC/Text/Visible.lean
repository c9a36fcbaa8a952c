/-!
# Visible text

A text without the controls for a terminal that stand in it.

A sequence of controls begins with the escape character. The character behind it tells the kind of
sequence, and the kind tells how the sequence ends. Controls outside a sequence stand for
themselves. None of this is shown but the tabs and the ends of lines and pages, which lay out the
text. Where one of these stands inside a sequence, the sequence is suspended: the text is shown from
there to the next control, which takes the sequence up again unless a character beyond ASCII was
shown before it.

The lines of the log are shown in this form, each on its own: a sequence that has not ended at the
end of a line swallows the rest of that line and nothing of the next.

## What is not modelled

What a sequence would do to a terminal does not matter, so its parameters are passed over unread.
The controls beyond ASCII, of two bytes, begin no sequence.
-/

namespace DefToC

/-- Does the code point of a character lie between two numbers? -/
def isBetween (low high : Nat) (c : Char) : Bool := low ≤ c.toNat && c.toNat ≤ high

/-- The controls that lay out a text: tab, line feed, form feed and carriage return. -/
def isLayout (c : Char) : Bool := c == '\t' || c == '\n' || c == '\x0c' || c == '\r'

/-- The controls of ASCII. -/
def isControl (c : Char) : Bool := c.toNat < 0x20 || c.toNat == 0x7f

/-- Does the encoding of a character hold the byte that ends a string of controls? -/
def endsString (c : Char) : Bool := (String.utf8EncodeChar c).any (·.toNat == 0x9c)

/-- How far a sequence of controls has been read. -/
inductive Sequence where
  /-- No sequence has begun. -/
  | outside
  /-- The escape character has been read. -/
  | escape
  /-- A sequence without parameters, which has not ended. -/
  | short
  /-- A sequence with parameters, which has not ended. -/
  | control
  /-- A message for the device, at its start. -/
  | message
  /-- A message for the device, at its parameters. -/
  | messageNumbers
  /-- A message for the device, behind its parameters. -/
  | messageMarks
  /-- A string, or the body of a message. -/
  | string
  /-- A command for the system. -/
  | command

namespace Sequence

/-- The sequence that a character behind the escape character begins. -/
def start (c : Char) : Sequence :=
  match c with
  | '[' => control
  | ']' => command
  | 'P' => message
  | 'X' | '^' | '_' => string
  | _ =>
    if isBetween 0x20 0x2f c then short
    else if isBetween 0x30 0x7e c then outside
    else escape

/-- The sequence behind a character that neither begins a sequence nor gives one up. -/
def extend (s : Sequence) (c : Char) : Sequence :=
  match s with
  | outside => outside
  | escape => start c
  | short => if isBetween 0x30 0x7e c then outside else short
  | control => if isBetween 0x40 0x7e c then outside else control
  | message =>
    if isBetween 0x20 0x2f c then messageMarks
    else if isBetween 0x30 0x3f c then messageNumbers
    else if isBetween 0x40 0x7e c then string
    else message
  | messageNumbers =>
    if isBetween 0x20 0x2f c then messageMarks
    else if isBetween 0x3c 0x7e c then string
    else messageNumbers
  | messageMarks => if isBetween 0x30 0x7e c then string else messageMarks
  | string => if endsString c then outside else string
  | command => if c == '\x07' then outside else command

/-- The sequence behind a character. The escape character begins a new one everywhere, and
two controls give up the one that is being read. -/
def next (s : Sequence) (c : Char) : Sequence :=
  if c == '\x1b' then escape
  else if c == '\x18' || c == '\x1a' then outside
  else s.extend c

/-- Is a character shown? -/
def shows (s : Sequence) (c : Char) : Bool :=
  match s with
  | outside => isLayout c || !isControl c
  | escape | short | control => isLayout c
  | message | messageNumbers | messageMarks | string | command => false

end Sequence

/-- The visible part of a text that begins in a sequence, which may be suspended. -/
def visibleFrom (s : Sequence) (suspended : Bool) : List Char → List Char
  | [] => []
  | c :: cs =>
    let reading := if suspended then .outside else s
    if reading.shows c then
      c :: visibleFrom (if c.toNat < 0x80 then s else .outside) true cs
    else visibleFrom (s.next c) false cs

/-- The visible part of a text. -/
def visible (text : String) : String := String.ofList (visibleFrom .outside false text.toList)

end DefToC
