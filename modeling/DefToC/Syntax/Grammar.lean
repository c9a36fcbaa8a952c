import DefToC.Token.Kind

/-!
# The table of forms

Which token starts which form, and how strongly a token binds the expression on its left. The reader
of expressions, types and statements asks this table and knows no token by itself.

## The model

The powers are in one order, from the weakest to the strongest, and a form is read as long as its
token binds more strongly than what has been asked for. The operators of one power are read from
left to right. An operator in front of its operand has no power of its own in the table; the reader
asks for one behind it (`Expr.operandPower`), which is weaker for the word than for the signs.

The readers take the table as an argument. There are two tables: the one of the source language, and
one without any form, with which every reader refuses its first token.

## What is not modelled

A token begins one form at most and continues one at most, whatever stands around it. The strongest
power is there for the order only: no token has it.
-/

namespace DefToC

/-- How strongly an operator binds, from the weakest to the strongest. -/
inductive Power where
  | default
  | logicalOr
  | logicalAnd
  | logicalNot
  | relational
  | additive
  | multiplicative
  | unary
  | call
  | primary
  deriving DecidableEq

/-- The place of a power in their order. -/
def Power.rank : Power → Nat
  | default => 0
  | logicalOr => 1
  | logicalAnd => 2
  | logicalNot => 3
  | relational => 4
  | additive => 5
  | multiplicative => 6
  | unary => 7
  | call => 8
  | primary => 9

/-- The forms that begin an expression. -/
inductive PrefixForm where
  /-- A number, a truth value or a name. -/
  | primary
  /-- An operator in front of its operand. -/
  | operator
  /-- An expression in parentheses. -/
  | grouping
  /-- A list in square brackets. -/
  | list

/-- The forms that continue an expression. -/
inductive InfixForm where
  /-- An operator between two operands. -/
  | binary
  /-- A chain of comparisons. -/
  | compare
  /-- A run of one boolean operator. -/
  | boolOp
  /-- The arguments of a call. -/
  | call
  /-- An index in square brackets. -/
  | subscript

/-- The statements that begin with a word of their own. -/
inductive StmtForm where
  | ifThen
  | whileLoop
  | ret

/-- The forms by the token that starts them. -/
structure Grammar where
  /-- The form that a token begins. -/
  prefixForm : TokenKind → Option PrefixForm
  /-- The form by which a token continues an expression, and how strongly it binds. -/
  infixForm : TokenKind → Option (Power × InfixForm)
  /-- The statement that a token begins. -/
  stmtForm : TokenKind → Option StmtForm
  /-- Does a token begin a type? -/
  typeName : TokenKind → Bool
  /-- How strongly the arguments that a token begins bind the type in front of them. -/
  typeArguments : TokenKind → Option Power

namespace Grammar

/-- The forms of the source language. -/
def standard : Grammar where
  prefixForm
    | .number | .identifier | .trueWord | .falseWord => some .primary
    | .dash | .plus | .notWord => some .operator
    | .openParen => some .grouping
    | .openBracket => some .list
    | _ => none
  infixForm
    | .orWord => some (.logicalOr, .boolOp)
    | .andWord => some (.logicalAnd, .boolOp)
    | .less | .lessEquals | .greater | .greaterEquals | .equals | .notEquals =>
      some (.relational, .compare)
    | .plus | .dash => some (.additive, .binary)
    | .star | .slash | .slashSlash | .percent => some (.multiplicative, .binary)
    | .openParen => some (.call, .call)
    | .openBracket => some (.call, .subscript)
    | _ => none
  stmtForm
    | .ifWord => some .ifThen
    | .whileWord => some .whileLoop
    | .returnWord => some .ret
    | _ => none
  typeName
    | .identifier => true
    | _ => false
  typeArguments
    | .openBracket => some .call
    | _ => none

/-- A table without any form. -/
def empty : Grammar where
  prefixForm _ := none
  infixForm _ := none
  stmtForm _ := none
  typeName _ := false
  typeArguments _ := none

end Grammar

end DefToC
