import DefToC.Syntax.Cursor
import DefToC.Syntax.Grammar
import DefToC.Syntax.Tree

/-!
# Reading type annotations

A type is a name, followed by any number of argument lists in square brackets. Whether it names a
type of values is decided later.

## The model

Types are read like expressions, by the power of the token behind them, though one token only can
continue a type. An argument is a type again, so types nest. A comma may stand behind the last
argument, and an argument list may be empty; such a type is read, and stands for no values.

Types are read in two places: behind a colon or an arrow in a function, and as a list of their own
from a text that a caller gives. The second reader is in `Syntax.ProgramParser`, since it cuts the
text into tokens first.

## What is not modelled

A type has the place where it begins and no span. A type is a name and never a text, a number or an
expression, and there is no sign for a choice between types.
-/

namespace DefToC.TypeExpr

/-- Read the name of a type. -/
def parseName (c : Cursor) : Reading TypeExpr c.size := do
  let ⟨token, c₁, h₁⟩ ← c.take .identifier
  return ⟨name token.value token.span.position, c₁, h₁⟩

mutual

/-- Read a type whose argument lists all bind more strongly than `power`. -/
def parse (g : Grammar) (power : Power) (c : Cursor) : Reading TypeExpr c.size :=
  if g.typeName c.kind then do
    let ⟨base, c₁, h₁⟩ ← parseName c
    let ⟨type, c₂, h₂⟩ ← (parseRest g power base c₁).within h₁
    return ⟨type, c₂, h₂⟩
  else .error (c.unexpectedDetailed "expected a type")
termination_by 4 * c.size + 2

/-- Continue a type as long as the next token binds more strongly than `power`. -/
def parseRest (g : Grammar) (power : Power) (base : TypeExpr) (c : Cursor) :
    Reading TypeExpr (c.size + 1) :=
  match g.typeArguments c.kind with
  | none => .here c base
  | some tokenPower =>
    if tokenPower.rank ≤ power.rank then .here c base
    else .weaken do
      let ⟨base, c₁, h₁⟩ ← parseApplied g base c
      let ⟨type, c₂, h₂⟩ ← (parseRest g power base c₁).within h₁
      return ⟨type, c₂, h₂⟩
termination_by 4 * c.size + 1

/-- Read an argument list in square brackets behind the type that it is applied to. -/
def parseApplied (g : Grammar) (base : TypeExpr) (c : Cursor) : Reading TypeExpr c.size := do
  let ⟨_, c₁, h₁⟩ ← c.take .openBracket
  let ⟨arguments, c₂, h₂⟩ ← (parseArguments g c₁).within h₁
  let ⟨_, c₃, h₃⟩ ← (c₂.take .closeBracket).below h₂
  return ⟨applied base arguments base.position, c₃, h₃⟩
termination_by 4 * c.size

/-- Read types with commas between them up to a closing bracket. A comma may stand behind
the last one. -/
def parseArguments (g : Grammar) (c : Cursor) : Reading (List TypeExpr) (c.size + 1) :=
  if c.kind = .closeBracket then .here c []
  else .weaken do
    let ⟨type, c₁, h₁⟩ ← parse g .default c
    if c₁.kind = .comma then
      let ⟨_, c₂, h₂⟩ ← c₁.shift.below h₁
      let ⟨types, c₃, h₃⟩ ← (parseArguments g c₂).within h₂
      return ⟨type :: types, c₃, h₃⟩
    else if c₁.kind = .closeBracket then return ⟨[type], c₁, h₁⟩
    else .error (c₁.unexpectedDetailed "expected `,` or `]` in a type")
termination_by 4 * c.size + 3

end

end DefToC.TypeExpr
