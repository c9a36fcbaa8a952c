import DefToC.Source.Position
import DefToC.Text.Quoted

/-!
# Errors

Everything that can be wrong with a source text, with the place where it shows. A cause carries the
texts that its description mentions; its name, its one-line description and its advice to the reader
are functions of it.

The causes come from five parts of the work. One character that begins no token and one line that
fits no block come from cutting the text, unexpected tokens and numbers that do not fit from reading
it, and most of the others from typing it. A function may also have parameters without a type, or
more of them than the caller gives types for. And there may be no function to choose.

One cause, `Cause.malformedNode`, is of another kind: a tree whose shape has no meaning. Most such
trees are never read from a text. `Proofs.Source.ErrorOrigins` tells which of the checks behind this
cause can still fail for a tree that was.

## What is not modelled

An error has one place and no further ones. It is not told apart here whether the work could have
gone on behind it: it never does.
-/

namespace DefToC

/-- What is wrong with a source text. -/
inductive Cause where
  /-- No token begins with this character. -/
  | unrecognisedToken (token : String)
  /-- A token that cannot stand where it stands. -/
  | unexpectedToken (token : String)
  /-- A token that cannot stand where it stands, with what was wanted there. -/
  | unexpectedTokenDetailed (token message : String)
  /-- A number that is not of its form or too large for its type. -/
  | numberParseError (token : String)
  /-- A line that goes back to a width no enclosing block has. -/
  | inconsistentIndentation
  /-- A type that has no counterpart, or that cannot be used here. -/
  | unsupportedType (type : String)
  /-- An operator that is not defined on such operands. -/
  | unsupportedOperation (operator operands : String)
  /-- Two operands that an operator cannot combine. -/
  | invalidOperandTypes (operator left right : String)
  /-- An index that is not an integer. -/
  | invalidIndexType (received : String)
  /-- A value stored where another type is kept. -/
  | implicitCastNotSupported (source target : String)
  /-- A variable that is read before it has a value. -/
  | undefinedVariable (name : String)
  /-- A result of another type than the one already fixed. -/
  | inconsistentReturnType (expected received : String)
  /-- A call whose result type nobody declared. -/
  | unresolvedReturnType (function : String)
  /-- A conditional or loop with a second branch. -/
  | unsupportedElseBranch
  /-- An array literal without elements. -/
  | emptyArrayLiteral
  /-- An array literal with elements of two types. -/
  | mixedArrayLiteral (expected received : String)
  /-- An assignment to several targets at once that has no counterpart. -/
  | multipleTargetsNotSupported (message : String)
  /-- A new array that is not set from a literal. -/
  | arrayWithoutSize (name : String)
  /-- A parameter whose type is given nowhere. -/
  | missingParameterType (parameter : String)
  /-- More or fewer argument types than parameters. -/
  | argumentCountMismatch (expected received : Nat)
  /-- No function of this name. -/
  | functionNotFound (function : String)
  /-- A tree of a shape that has no meaning. -/
  | malformedNode (message : String)
  deriving DecidableEq

namespace Cause

/-- The name of a cause. -/
def name : Cause → String
  | unrecognisedToken _ => "UnrecognisedToken"
  | unexpectedToken _ => "UnexpectedToken"
  | unexpectedTokenDetailed _ _ => "UnexpectedTokenDetailed"
  | numberParseError _ => "NumberParseError"
  | inconsistentIndentation => "InconsistentIndentation"
  | unsupportedType _ => "UnsupportedType"
  | unsupportedOperation _ _ => "UnsupportedOperation"
  | invalidOperandTypes _ _ _ => "InvalidOperandTypes"
  | invalidIndexType _ => "InvalidIndexType"
  | implicitCastNotSupported _ _ => "ImplicitCastNotSupported"
  | undefinedVariable _ => "UndefinedVariable"
  | inconsistentReturnType _ _ => "InconsistentReturnType"
  | unresolvedReturnType _ => "UnresolvedReturnType"
  | unsupportedElseBranch => "UnsupportedElseBranch"
  | emptyArrayLiteral => "EmptyArrayLiteral"
  | mixedArrayLiteral _ _ => "MixedArrayLiteral"
  | multipleTargetsNotSupported _ => "MultipleTargetsNotSupported"
  | arrayWithoutSize _ => "ArrayWithoutSize"
  | missingParameterType _ => "MissingParameterType"
  | argumentCountMismatch _ _ => "ArgumentCountMismatch"
  | functionNotFound _ => "FunctionNotFound"
  | malformedNode _ => "MalformedNode"

/-- The description of a cause, on one line. -/
def message : Cause → String
  | unrecognisedToken token => "unrecognised token: " ++ quoted token
  | unexpectedToken token => "unexpected token: " ++ quoted token
  | unexpectedTokenDetailed token message =>
    "unexpected token (" ++ quoted message ++ "): " ++ quoted token
  | numberParseError token => "error parsing number: " ++ quoted token
  | inconsistentIndentation => "inconsistent indentation"
  | unsupportedType type => "unsupported type " ++ type
  | unsupportedOperation operator operands =>
    "operator " ++ operator ++ " is not supported for " ++ operands
  | invalidOperandTypes operator left right =>
    "invalid operand types for " ++ operator ++ ": " ++ left ++ " and " ++ right
  | invalidIndexType received => "index must be int, received " ++ received
  | implicitCastNotSupported source target =>
    "implicit cast from " ++ source ++ " to " ++ target ++ " is not supported"
  | undefinedVariable name => "variable " ++ quoted name ++ " is not defined"
  | inconsistentReturnType expected received =>
    "inconsistent return types: expected " ++ expected ++ ", received " ++ received
  | unresolvedReturnType function => "return type of " ++ quoted function ++ " is unresolved"
  | unsupportedElseBranch => "else branches are not supported"
  | emptyArrayLiteral => "empty array literals are not supported"
  | mixedArrayLiteral expected received =>
    "array elements must share one type: expected " ++ expected ++ ", received " ++ received
  | multipleTargetsNotSupported message => "multiple assignment targets: " ++ message
  | arrayWithoutSize name => "array " ++ quoted name ++ " has no known size"
  | missingParameterType parameter => "parameter " ++ quoted parameter ++ " has no type"
  | argumentCountMismatch expected received =>
    "argument types do not match parameters: expected " ++ toString expected ++ ", received " ++
      toString received
  | functionNotFound function => "function " ++ quoted function ++ " not found"
  | malformedNode message => "malformed node: " ++ message

/-- What the reader may do about a cause, where there is something to say. -/
def tip : Cause → Option String
  | unrecognisedToken _ => none
  | unexpectedToken token =>
    some ("Unexpected token: `" ++ token ++ "`, is the statement complete?")
  | unexpectedTokenDetailed token message =>
    some ("Unexpected token: `" ++ token ++ "`, " ++ message)
  | numberParseError token =>
    some ("Invalid number: `" ++ token ++ "`, is it above the integer limit?")
  | inconsistentIndentation => some "Unindent does not match any outer indentation level"
  | unsupportedType type => some ("Type `" ++ type ++ "` is not supported")
  | unsupportedOperation operator operands =>
    some ("`" ++ operator ++ "` is not supported for " ++ operands)
  | invalidOperandTypes operator left right =>
    some ("`" ++ operator ++ "` cannot combine `" ++ left ++ "` and `" ++ right ++ "`")
  | invalidIndexType received => some ("Index must be `int`, received `" ++ received ++ "`")
  | implicitCastNotSupported source target =>
    some ("Implicit cast from `" ++ source ++ "` to `" ++ target ++ "` is not supported")
  | undefinedVariable name =>
    some ("Variable `" ++ name ++ "` must be assigned before it is used")
  | inconsistentReturnType expected received =>
    some ("Function already returns `" ++ expected ++ "`, received `" ++ received ++ "`")
  | unresolvedReturnType function =>
    some ("Return type of `" ++ function ++ "` is unknown, declare it with an extern")
  | unsupportedElseBranch => some "Only single-branch conditionals are supported"
  | emptyArrayLiteral => some "Array literals must have at least one element"
  | mixedArrayLiteral expected received =>
    some ("All elements must be `" ++ expected ++ "`, found `" ++ received ++ "`")
  | multipleTargetsNotSupported message => some message
  | arrayWithoutSize name =>
    some ("Array `" ++ name ++ "` must be initialised from an array literal")
  | missingParameterType parameter =>
    some ("Parameter `" ++ parameter ++ "` needs an annotation or an explicit argument type")
  | argumentCountMismatch expected received =>
    some ("Expected " ++ toString expected ++ " argument types, received " ++ toString received)
  | functionNotFound function => some ("No function named `" ++ function ++ "` in the source")
  | malformedNode message => some message

end Cause

/-- A cause and the place where it shows. -/
structure Error where
  /-- What is wrong. -/
  cause : Cause
  /-- Where it shows. -/
  position : Position
  deriving DecidableEq

end DefToC
