import DefToC.Syntax.Tree
import DefToC.Typed.Stmt

/-!
# From syntax trees to typed trees

Expressions are typed bottom up against a symbol table. Statements are typed in order; an assignment
adds the variables that it introduces to the table, and all that follows sees them.

## The model

The order of the steps shows in which error is given, and it is not always that of the text. The
value of an assignment is typed before its targets, and an index is checked before what it is taken
of. The value of an update in place comes before its target.

The elements of a list are not typed like other expressions. Each is a constant or a number with one
sign in front of it, and the sign is folded into the number (`Expr.element`). Everywhere else a sign
remains an operator.

A block is typed with the table that the statements in front of it leave, and leaves its table to
the statements behind it. So a variable that a block introduces is known behind the block.

## What is not modelled

Statements are typed once, in order. A loop's body is not typed again with what it leaves, and it is
not asked whether a statement can be reached.
-/

namespace DefToC

namespace Expr

/-- The constant that an element of an array literal stands for: a constant, or a number
with a sign in front of it. -/
def element (e : Expr) : Except Error Literal :=
  match e with
  | constant value _ => .ok value
  | unary .plus (constant (.int n) _) _ => .ok (.int n)
  | unary .plus (constant (.float x) _) _ => .ok (.float x)
  | unary .minus (constant (.int n) _) _ => .ok (.int (Literal.negInt n))
  | unary .minus (constant (.float x) _) _ => .ok (.float x.neg)
  | _ => .error ⟨.malformedNode "Array literal elements must be numeric constants",
      e.span.position⟩

mutual

/-- The typed form of an expression. -/
def lower (table : SymbolTable) : Expr → Except Error TypedExpr
  | name id span => TypedExpr.mkVariable table id span
  | constant value span => TypedExpr.mkConstant value span
  | list elements span => do TypedExpr.mkArray (← elements.mapM element) span
  | compare left ops comparators span => do
    let left ← lower table left
    let comparators ← lowerAll table comparators
    TypedExpr.mkCompare left ops comparators span
  | binary left op right span => do
    let left ← lower table left
    let right ← lower table right
    TypedExpr.mkBinary left op right span
  | unary op operand span => do
    let operand ← lower table operand
    TypedExpr.mkUnary op operand span
  | boolOp op values span => do
    let values ← lowerAll table values
    TypedExpr.mkBoolChain op values span
  | subscript value slice span => do
    let value ← lower table value
    let index ← TypedExpr.mkIndex (← lower table slice)
    TypedExpr.mkSubscript value index span
  | call callee arguments span => do
    let arguments ← lowerAll table arguments
    return TypedExpr.mkCall table callee arguments span

/-- The typed forms of several expressions, in order. -/
def lowerAll (table : SymbolTable) : List Expr → Except Error (List TypedExpr)
  | [] => .ok []
  | e :: es => do
    let e ← lower table e
    return e :: (← lowerAll table es)

end

/-- The typed form of an expression that is assigned to. -/
def lowerTarget (e : Expr) : Lowering Target :=
  match e with
  | name id _ => do return .var (← .target id)
  | subscript _ _ _ => do return .subscript (← .reading fun table => e.lower table)
  | _ => .fail ⟨.malformedNode "Only names and subscripts can be assigned to", e.span.position⟩

/-- The typed forms of several expressions that are assigned to, in order. -/
def lowerTargets : List Expr → Lowering (List Target)
  | [] => pure []
  | e :: es => do
    let target ← lowerTarget e
    return target :: (← lowerTargets es)

end Expr

namespace Stmt

/-- Where a block begins, if it has a statement. -/
def blockPosition? (stmts : List Stmt) : Option Position :=
  stmts.head?.map fun s => s.span.position

/-- Note the text of a statement. -/
def noted (s : TypedStmt) : Lowering TypedStmt := do
  .note (.lowered s.text)
  return s

mutual

/-- The typed form of a statement. -/
def lower : Stmt → Lowering TypedStmt
  | assign targets value span => do
    let value ← .reading fun table => value.lower table
    let targets ← Expr.lowerTargets targets
    noted (← TypedStmt.mkAssign targets value span)
  | augAssign target op value span => do
    let value ← .reading fun table => value.lower table
    let target ← .reading fun table => target.lower table
    noted (← .reading fun _ => TypedStmt.mkAugAssign target op value span)
  | ifThen test body orelse span => do
    let test ← .reading fun table => test.lower table
    let body ← lowerAll body
    noted (← .reading fun _ => TypedStmt.mkIf test body (blockPosition? orelse) span)
  | whileLoop test body orelse span => do
    let test ← .reading fun table => test.lower table
    let body ← lowerAll body
    noted (← .reading fun _ => TypedStmt.mkWhile test body (blockPosition? orelse) span)
  | ret none span => do noted (← .reading fun _ => TypedStmt.mkReturn none span)
  | ret (some value) span => do
    let value ← .reading fun table => value.lower table
    noted (← .reading fun _ => TypedStmt.mkReturn (some value) span)
  | expression e span => do
    let e ← .reading fun table => e.lower table
    noted (.expression e span)

/-- The typed forms of the statements of a block, in order. -/
def lowerAll : List Stmt → Lowering (List TypedStmt)
  | [] => pure []
  | s :: ss => do
    let s ← lower s
    return s :: (← lowerAll ss)

end

/-- What each of several statements comes to when they are typed one after another and a
failure does not end the row. -/
def lowerEach (table : SymbolTable) : List Stmt → List (Lowered TypedStmt)
  | [] => []
  | s :: ss =>
    let lowered := s.lower table
    lowered :: lowerEach lowered.table ss

end Stmt

end DefToC
