import DefToC.Number.Decimal

/-!
# Double-precision numbers

The floating-point numbers of 64 bits. Without its sign such a number is known by its place among
all of them in increasing order, which is also its bit pattern. Every one of them is a whole number
of units of `2 ^ (-1074)`, so they are compared and rounded in whole numbers.

A decimal number is read as the double nearest to it, and of two that are equally near as the one
whose bit pattern is even. A double is written with the fewest digits that are read back as it.

## The model

`Double.nearest` rounds a quotient of whole numbers of units and knows nothing of decimal numbers.
`Double.ofDecimal` uses it where a double can be near, and decides the rest by the size of the
number alone. `Double.shortest` tries the numbers of one digit, of two digits and so on, on both
sides of the exact value. That the number found is read back as the double is proved in
`Proofs.Number`.

## What is not modelled

There is no arithmetic on doubles but the change of a sign (`Double.neg`), for nothing is computed
before the output runs. Patterns that are no number are told from each other by their bits only.
-/

namespace DefToC

/-- A double-precision number: its sign, and its bit pattern without the sign. Patterns
below `Double.infinity` are finite, that one is infinite and those above are not numbers. -/
structure Double where
  /-- Is the sign bit set? -/
  negative : Bool
  /-- The bit pattern without the sign. -/
  pattern : Nat
  deriving DecidableEq

namespace Double

/-- A power of two. -/
abbrev twoTo (n : Nat) : Nat := Nat.pow 2 n

/-- The pattern of the infinite double. -/
def infinity : Nat := 2047 * twoTo 52

/-- A double that is a number and not infinite. -/
def isFinite (x : Double) : Bool := x.pattern < infinity

/-- The double with the other sign. -/
def neg (x : Double) : Double := { x with negative := !x.negative }

/-- The value of a pattern in units of `2 ^ (-1074)`. -/
def units (pattern : Nat) : Nat :=
  if pattern < twoTo 52 then pattern
  else (twoTo 52 + pattern % twoTo 52) * twoTo (pattern / twoTo 52 - 1)

/-- The largest pattern whose value is at most so many units. -/
def patternBelow (n : Nat) : Nat :=
  let shift := n.log2 - 52
  shift * twoTo 52 + n / twoTo shift

/-- The pattern nearest to `numerator / denominator` units, the even one of two that are
equally near, and `infinity` past the largest finite double. -/
def nearest (numerator denominator : Nat) : Nat :=
  let below := patternBelow (numerator / denominator)
  if infinity ≤ below then infinity
  else
    let middle := (units below + units (below + 1)) * denominator
    if 2 * numerator < middle then below
    else if middle < 2 * numerator then below + 1
    else below + below % 2

/-- The pattern nearest to a decimal number. Numbers of a size that no double comes near
are decided by their exponent alone. -/
def ofDecimal (d : Decimal) : Nat :=
  if d.digits = 0 then 0
  else if 400 < d.exponent then infinity
  else if d.magnitude < -400 then 0
  else nearest (d.digits * tenTo d.exponent.toNat * twoTo 1074) (tenTo (-d.exponent).toNat)

/-- The value of a pattern as a decimal number, with all its digits. -/
def exact (pattern : Nat) : Decimal := ⟨units pattern * Nat.pow 5 1074, -1074⟩

/-- The decimal number `d` without its last `dropped` digits, or the next number of so few
digits, if it is read as the pattern. If both are, it is the one nearer to `d`, and the
larger one if they are equally near. -/
def approximate? (pattern : Nat) (d : Decimal) (dropped : Nat) : Option Decimal :=
  let unit := tenTo dropped
  let below : Decimal := ⟨d.digits / unit, d.exponent + dropped⟩
  let above : Decimal := ⟨d.digits / unit + 1, d.exponent + dropped⟩
  if ofDecimal below = pattern then
    if ofDecimal above = pattern ∧ unit ≤ 2 * (d.digits % unit) then some above else some below
  else if ofDecimal above = pattern then some above
  else none

/-- The shortest decimal number that is read as the pattern, and of several such numbers
the nearest to its value. -/
def shortest (pattern : Nat) : Decimal :=
  let d := exact pattern
  let size := d.figures.length
  let found := (List.range size).findSome? fun n => approximate? pattern d (size - 1 - n)
  (found.getD d).normalize

/-- A finite double that is not zero, written without its sign. Numbers from `10 ^ (-4)` up
to `10 ^ 16` are written out with a point and at least one digit on both sides of it, all
others with an exponent. -/
def layout (d : Decimal) : List Char :=
  let figures := d.figures
  let magnitude := d.magnitude
  if -4 ≤ magnitude ∧ magnitude < 16 then
    if 0 ≤ d.exponent then figures ++ List.replicate d.exponent.toNat '0' ++ ['.', '0']
    else
      let places := (-d.exponent).toNat
      let padded := figures.leftpad (places + 1) '0'
      padded.take (padded.length - places) ++ ['.'] ++ padded.drop (padded.length - places)
  else
    figures.take 1 ++ (if figures.length ≤ 1 then [] else '.' :: figures.drop 1) ++ ['e'] ++
      (toString magnitude).toList

/-- The text of a double. -/
def text (x : Double) : String :=
  if infinity < x.pattern then "NaN"
  else
    let sign := if x.negative then ['-'] else []
    let body :=
      if x.pattern = infinity then ['i', 'n', 'f']
      else if x.pattern = 0 then ['0', '.', '0']
      else layout (shortest x.pattern)
    String.ofList (sign ++ body)

/-- The double that a written decimal number is read as. -/
def read? (cs : List Char) : Option Double :=
  (Decimal.read? cs).map fun (negative, d) => ⟨negative, ofDecimal d⟩

end Double

end DefToC
