import DefToC.Token.Kind

/-!
# Operators

The operators of the source language, the tokens that stand for them, and their spelling in the
source and in the output.

The same token can stand for different operators: a plus or a minus sign stands between two operands
or in front of one, and these are different operators with the same spelling. So there is one
function from tokens to operators for each place where an operator can stand, in front of an
operand, between two operands, in a comparison and in an update in place.

Both divisions are spelled alike in the output; the expression that uses one decides whether an
operand is converted first. So the spelling does not determine the operator, but it does together
with the types of the operands (`Operator.eq_of_shared`).

## What is not modelled

Powers, shifts, operators on single bits and tests for membership or identity are no operators here,
and no token stands for them.
-/

namespace DefToC

/-- The operators of expressions. -/
inductive Operator where
  | add
  | sub
  | mult
  | div
  | floorDiv
  | mod
  | eq
  | notEq
  | lt
  | ltE
  | gt
  | gtE
  | not
  | and
  | or
  | plus
  | minus
  deriving DecidableEq

/-- The families of operators. -/
inductive OperatorFamily where
  | arithmetic
  | comparison
  | boolean
  | unary
  deriving DecidableEq

namespace Operator

/-- The spelling of an operator in the output. -/
def spelling : Operator → String
  | add => "+"
  | sub => "-"
  | mult => "*"
  | div => "/"
  | floorDiv => "/"
  | mod => "%"
  | eq => "=="
  | notEq => "!="
  | lt => "<"
  | ltE => "<="
  | gt => ">"
  | gtE => ">="
  | not => "!"
  | and => "&&"
  | or => "||"
  | plus => "+"
  | minus => "-"

/-- The spelling of an operator in the source, which messages use. -/
def sourceSpelling : Operator → String
  | floorDiv => "//"
  | not => "not"
  | and => "and"
  | or => "or"
  | op => op.spelling

/-- The family of an operator. -/
def family : Operator → OperatorFamily
  | add | sub | mult | div | floorDiv | mod => .arithmetic
  | eq | notEq | lt | ltE | gt | gtE => .comparison
  | not | and | or => .boolean
  | plus | minus => .unary

/-- The operator that a token stands for between two operands. -/
def ofInfix? : TokenKind → Option Operator
  | .plus => some add
  | .dash => some sub
  | .star => some mult
  | .slash => some div
  | .slashSlash => some floorDiv
  | .percent => some mod
  | .equals => some eq
  | .notEquals => some notEq
  | .less => some lt
  | .lessEquals => some ltE
  | .greater => some gt
  | .greaterEquals => some gtE
  | .andWord => some and
  | .orWord => some or
  | _ => none

/-- The operator that a token stands for in front of an operand. -/
def ofPrefix? : TokenKind → Option Operator
  | .plus => some plus
  | .dash => some minus
  | .notWord => some not
  | _ => none

/-- The operator that a token applies in place. -/
def ofAugmented? : TokenKind → Option Operator
  | .plusEquals => some add
  | .minusEquals => some sub
  | .starEquals => some mult
  | .slashEquals => some div
  | .slashSlashEquals => some floorDiv
  | .percentEquals => some mod
  | _ => none

/-- The comparison that a token stands for. -/
def ofComparison? (kind : TokenKind) : Option Operator :=
  (ofInfix? kind).filter (·.family = .comparison)

end Operator

end DefToC
