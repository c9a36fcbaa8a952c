import DefToC.Literal
import DefToC.Operator

/-!
# Syntax trees

The trees that a source text is read as. Expressions, statements, parameters and functions carry the
span they were read from, type annotations the place where they begin.

## The model

Trees are as they are read, before anything is known of types. A chain of comparisons is one node
with its operators and its operands in two lists, and a run of one boolean operator is one node with
all its operands. Parentheses leave nothing behind in the tree, and the span of an expression in
parentheses does not cover them.

A further condition of a conditional is a conditional of its own in the second branch, which is also
how it would be read if it were written there. An assignment has one value and any number of
targets.

## What is not modelled

The trees can be larger than what the reader makes: nothing here says that a chain has as many
operators as operands, or that a target can be assigned to. What holds of trees that come from a
text is said in `Proofs.Syntax.ParsedShape`.
-/

namespace DefToC

/-- A type as it is written. -/
inductive TypeExpr where
  /-- A name. -/
  | name (id : String) (position : Position)
  /-- A type with arguments in square brackets. -/
  | applied (base : TypeExpr) (arguments : List TypeExpr) (position : Position)

/-- An expression. -/
inductive Expr where
  /-- A variable. -/
  | name (id : String) (span : Span)
  /-- A constant. -/
  | constant (value : Literal) (span : Span)
  /-- A list in square brackets. -/
  | list (elements : List Expr) (span : Span)
  /-- A chain of comparisons: each operator compares with the next comparator. -/
  | compare (left : Expr) (ops : List Operator) (comparators : List Expr) (span : Span)
  /-- An operator between two operands. -/
  | binary (left : Expr) (op : Operator) (right : Expr) (span : Span)
  /-- An operator in front of its operand. -/
  | unary (op : Operator) (operand : Expr) (span : Span)
  /-- A run of operands joined by one boolean operator. -/
  | boolOp (op : Operator) (values : List Expr) (span : Span)
  /-- An element of a list. -/
  | subscript (value slice : Expr) (span : Span)
  /-- A call of a function by its name. -/
  | call (callee : String) (arguments : List Expr) (span : Span)

/-- A statement. -/
inductive Stmt where
  /-- One value assigned to one or more targets. -/
  | assign (targets : List Expr) (value : Expr) (span : Span)
  /-- An operator applied in place. -/
  | augAssign (target : Expr) (op : Operator) (value : Expr) (span : Span)
  /-- A conditional. A further condition is a conditional in the second branch. -/
  | ifThen (test : Expr) (body orelse : List Stmt) (span : Span)
  /-- A loop. -/
  | whileLoop (test : Expr) (body orelse : List Stmt) (span : Span)
  /-- The end of a function, with or without a value. -/
  | ret (value : Option Expr) (span : Span)
  /-- An expression on its own. -/
  | expression (expression : Expr) (span : Span)

/-- A parameter of a function. -/
structure Param where
  /-- The name of the parameter. -/
  name : String
  /-- Its type, if one is written. -/
  type : Option TypeExpr
  /-- Where it was read from. -/
  span : Span

/-- A function. -/
structure FunctionDef where
  /-- The name of the function. -/
  name : String
  /-- Its parameters in order. -/
  params : List Param
  /-- The type of its result, if one is written. -/
  returns : Option TypeExpr
  /-- Its statements in order. -/
  body : List Stmt
  /-- Where it was read from. -/
  span : Span

/-- The functions of a source text, in order. -/
structure Program where
  /-- The functions. -/
  functions : List FunctionDef

namespace TypeExpr

/-- Where a type begins. -/
def position : TypeExpr → Position
  | name _ p => p
  | applied _ _ p => p

mutual

/-- A type as text. -/
def text : TypeExpr → String
  | name id _ => id
  | applied base arguments _ => base.text ++ "[" ++ ", ".intercalate (texts arguments) ++ "]"

/-- Several types as text. -/
def texts : List TypeExpr → List String
  | [] => []
  | a :: as => a.text :: texts as

end

end TypeExpr

namespace Expr

/-- The span of an expression. -/
def span : Expr → Span
  | name _ s => s
  | constant _ s => s
  | list _ s => s
  | compare _ _ _ s => s
  | binary _ _ _ s => s
  | unary _ _ s => s
  | boolOp _ _ s => s
  | subscript _ _ s => s
  | call _ _ s => s

/-- The expressions that may stand on the left of an assignment. -/
def isAssignable : Expr → Bool
  | name _ _ => true
  | subscript _ _ _ => true
  | _ => false

end Expr

/-- The span of a statement. -/
def Stmt.span : Stmt → Span
  | assign _ _ s => s
  | augAssign _ _ _ s => s
  | ifThen _ _ _ s => s
  | whileLoop _ _ _ s => s
  | ret _ s => s
  | expression _ s => s

end DefToC
