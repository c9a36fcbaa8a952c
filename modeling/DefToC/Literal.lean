import DefToC.Number.Double

/-!
# Literals

The constants of the source language: truth values, integers and floating-point numbers.

## The model

A number token is read in one of two ways. A point or an exponent makes it a floating-point number,
which is the double nearest to the decimal number as it is written and has to be finite. Otherwise
it is an integer, which has to fit into 32 bits; zeros in front of it do not count.

Integers are kept in 64 bits behind the reader. The only operation on them is the negation of an
element of a list (`Literal.negInt`). It is the negation of 64 bits and not that of whole numbers,
which differ for one number; no integer that was read comes near it.

## What is not modelled

There are no texts and no complex numbers, and no digits other than decimal ones. A number has no
sign of its own in a source text: the sign in front of it is an operator. The reader takes a sign
all the same, for a row of tokens need not come from a text.
-/

namespace DefToC

/-- A constant. -/
inductive Literal where
  /-- A truth value. -/
  | bool (value : Bool)
  /-- An integer. -/
  | int (value : Int)
  /-- A floating-point number. -/
  | float (value : Double)
  deriving DecidableEq

namespace Literal

/-- The text of a literal in the output. -/
def text : Literal → String
  | bool value => if value then "true" else "false"
  | int value => toString value
  | float value => value.text

/-- The negation of an integer of 64 bits. The least of them is its own negation. -/
def negInt (n : Int) : Int := (-n).bmod 18446744073709551616

/-- The value of a number token. A point or an exponent makes it a floating-point number,
which has to be finite; otherwise it is an integer, which has to fit into 32 bits. -/
def ofNumber? (text : String) : Option Literal :=
  let cs := text.toList
  if cs.any fun c => c == '.' || c == 'e' || c == 'E' then
    ((Double.read? cs).filter Double.isFinite).map float
  else
    ((readInteger? cs).filter fun n => -2147483648 ≤ n && n ≤ 2147483647).map int

end Literal

end DefToC
