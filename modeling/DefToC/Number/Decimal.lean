/-!
# Decimal numbers

A decimal number is a whole number of units of some power of ten. Its written form has an optional
sign, digits with an optional point among them, and an optional exponent.

## The model

The value of a written number is exact. The digits in front of the point and behind it are read as
one whole number, and the power of ten is what the exponent says less the number of digits behind
the point. So `1.50e3` is `150` units of ten. Two decimal numbers can have the same value and differ
in their digits; `Decimal.normalize` takes the zeros at the end away.

A point needs a digit on one side of it only, and the mark of an exponent needs digits behind it. An
integer is a text of digits with or without a sign.

## What is not modelled

The words for infinity and for what is no number are not read: no token has them. Digits are those
of ASCII. There are no marks between groups of digits.
-/

namespace DefToC

/-- The number `digits * 10 ^ exponent`. -/
structure Decimal where
  /-- The digits, read as one number. -/
  digits : Nat
  /-- The power of ten that one unit of `digits` stands for. -/
  exponent : Int
  deriving DecidableEq

/-- The value of a row of digits. -/
def digitsValue (cs : List Char) : Nat :=
  cs.foldl (fun value c => 10 * value + (c.toNat - '0'.toNat)) 0

/-- Take a sign from the front of a text: is it negative, and what follows? -/
def takeSign : List Char → Bool × List Char
  | '+' :: cs => (false, cs)
  | '-' :: cs => (true, cs)
  | cs => (false, cs)

/-- Give a number its sign. -/
def signed (negative : Bool) (n : Nat) : Int :=
  if negative then -(n : Int) else n

/-- The value of a text that is an optional sign and at least one digit. -/
def readInteger? (cs : List Char) : Option Int :=
  let (negative, digits) := takeSign cs
  if digits ≠ [] ∧ digits.all Char.isDigit then some (signed negative (digitsValue digits))
  else none

/-- A power of ten. -/
abbrev tenTo (n : Nat) : Nat := Nat.pow 10 n

namespace Decimal

/-- Take a fraction from the front of a text: its digits, and what follows. -/
def takeFraction : List Char → List Char × List Char
  | '.' :: cs => (cs.takeWhile Char.isDigit, cs.dropWhile Char.isDigit)
  | cs => ([], cs)

/-- The value of an exponent that makes up the whole text. No text is the exponent zero. -/
def readExponent? : List Char → Option Int
  | [] => some 0
  | c :: cs => if c = 'e' ∨ c = 'E' then readInteger? cs else none

/-- The sign and the value of a written decimal number. There has to be a digit in front of
the point or behind it. -/
def read? (cs : List Char) : Option (Bool × Decimal) := do
  let (negative, cs) := takeSign cs
  let whole := cs.takeWhile Char.isDigit
  let (fraction, cs) := takeFraction (cs.dropWhile Char.isDigit)
  let exponent ← readExponent? cs
  if whole = [] ∧ fraction = [] then none
  else some (negative, ⟨digitsValue (whole ++ fraction), exponent - fraction.length⟩)

/-- The digits of a number, most significant first. -/
def figures (d : Decimal) : List Char := Nat.toDigits 10 d.digits

/-- The power of ten that the first digit stands for. -/
def magnitude (d : Decimal) : Int := d.exponent + d.figures.length - 1

/-- The same number without zeros at the end of its digits. -/
def normalize (d : Decimal) : Decimal :=
  let zeros := (d.figures.reverse.takeWhile (· == '0')).length
  ⟨d.digits / tenTo zeros, d.exponent + zeros⟩

end Decimal

end DefToC
