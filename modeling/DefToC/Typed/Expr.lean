import DefToC.Literal
import DefToC.Operator
import DefToC.Typed.SymbolTable

/-!
# Typed expressions

An expression of the output language. Its type and its text are functions of its tree. The nodes are
made by functions that refuse operands for which the node has no meaning.

## The model

A node does not keep its type and its text, they are computed from its parts where they are asked
for. So two nodes that have the same parts are the same, and there is nothing to keep in step.

The functions that make nodes check what they are given themselves and do not rely on how it was
read. Some of their checks cannot fail for trees that come from a text; they are there all the same.
Every compound expression has parentheses around it, but a call, an element of an array and a list
in braces have brackets of their own and get none.

A division of two integers converts its first operand, and so has a fraction; a floor division of
two integers does not. A chain of comparisons is written as a conjunction, so an operand in the
middle of the chain is written twice.

## What is not modelled

Expressions are not evaluated here, and nothing is folded but the sign of a list's element. What an
expression of the output means is said in `Proofs.Meaning`.
-/

namespace DefToC

/-- An expression of the output language. -/
inductive TypedExpr where
  /-- A variable. -/
  | var (v : Variable) (span : Span)
  /-- A constant. -/
  | constant (value : Literal) (span : Span)
  /-- A list of constants in braces. -/
  | array (elements : List Literal) (span : Span)
  /-- A chain of comparisons, which is the conjunction of its links. -/
  | compare (left : TypedExpr) (ops : List Operator) (comparators : List TypedExpr) (span : Span)
  /-- An operator between two operands. -/
  | binary (left : TypedExpr) (op : Operator) (right : TypedExpr) (span : Span)
  /-- An operator in front of its operand. -/
  | unary (op : Operator) (operand : TypedExpr) (span : Span)
  /-- A run of operands joined by one boolean operator. -/
  | boolChain (op : Operator) (values : List TypedExpr) (span : Span)
  /-- An element of an array. -/
  | subscript (value index : TypedExpr) (span : Span)
  /-- An expression used as an index. -/
  | index (value : TypedExpr)
  /-- A call, with the result of the function if it is known. -/
  | call (callee : String) (arguments : List TypedExpr) (returns : Option ReturnType) (span : Span)

/-- The type of a constant. -/
def Literal.type : Literal → ValueType
  | bool _ => .bool
  | int _ => .int
  | float _ => .float

/-- The type that an arithmetic operator gives to two operands, if it can combine them. -/
def Operator.resultType? (op : Operator) (left right : ValueType) : Option ValueType :=
  match left, right, op with
  | .int, .int, .div => some .float
  | .int, .int, _ => some .int
  | _, _, .floorDiv => none
  | _, _, .mod => none
  | _, _, _ => if left.isNumeric && right.isNumeric then some .float else none

namespace TypedExpr

/-- The span of an expression. -/
def span : TypedExpr → Span
  | var _ s => s
  | constant _ s => s
  | array _ s => s
  | compare _ _ _ s => s
  | binary _ _ _ s => s
  | unary _ _ s => s
  | boolChain _ _ s => s
  | subscript _ _ s => s
  | index value => value.span
  | call _ _ _ s => s

/-- The type of an expression. A call that gives no value, or of an unknown function, has
none, and neither has an operator in front of it. -/
def type? : TypedExpr → Option ValueType
  | var v _ => v.type
  | constant value _ => some value.type
  | array elements _ => elements.head?.bind fun first => first.type.listOf?
  | compare _ _ _ _ => some .bool
  | binary left op right _ => do op.resultType? (← left.type?) (← right.type?)
  | unary _ operand _ => operand.type?
  | boolChain _ _ _ => some .bool
  | subscript value _ _ => do (← value.type?).element?
  | index _ => some .int
  | call _ _ returns _ => do (← returns).value?

/-- The type of an expression where one is needed. -/
def resolvedType (e : TypedExpr) : Except Error ValueType :=
  match e.type?, e with
  | some type, _ => .ok type
  | none, unary _ operand _ => operand.resolvedType
  | none, call _ _ (some .void) span => .error ⟨.unsupportedType "void", span.position⟩
  | none, call callee _ _ span => .error ⟨.unresolvedReturnType callee, span.position⟩
  | none, e => .error ⟨.malformedNode "expression has no type", e.span.position⟩

/-- Is the text of the expression enclosed in parentheses of its own? -/
def isParenthesized : TypedExpr → Bool
  | compare _ _ _ _ | binary _ _ _ _ | unary _ _ _ | boolChain _ _ _ => true
  | _ => false

/-- The links of a chain of comparisons: each operator stands between two neighbours. -/
def links (left : String) : List Operator → List String → List String
  | op :: ops, right :: rights =>
    (left ++ " " ++ op.spelling ++ " " ++ right) :: links right ops rights
  | _, _ => []

mutual

/-- The text of an expression. A division of integers that keeps the fraction converts its
first operand. -/
def text : TypedExpr → String
  | var v _ => v.text?.getD ""
  | constant value _ => value.text
  | array elements _ => "\x7b" ++ ", ".intercalate (elements.map Literal.text) ++ "\x7d"
  | compare left ops comparators _ =>
    "(" ++ " && ".intercalate (links left.text ops (texts comparators)) ++ ")"
  | binary left op right _ =>
    let cast := op = .div ∧ left.type? = some .int ∧ right.type? = some .int
    "(" ++ (if cast then "(double)" else "") ++ left.text ++ " " ++ op.spelling ++ " " ++
      right.text ++ ")"
  | unary op operand _ => "(" ++ op.spelling ++ operand.text ++ ")"
  | boolChain op values _ => "(" ++ (" " ++ op.spelling ++ " ").intercalate (texts values) ++ ")"
  | subscript value slice _ => value.text ++ "[" ++ slice.text ++ "]"
  | index value => value.text
  | call callee arguments _ _ => callee ++ "(" ++ ", ".intercalate (texts arguments) ++ ")"

/-- The texts of several expressions. -/
def texts : List TypedExpr → List String
  | [] => []
  | e :: es => e.text :: texts es

end

/-! ### Nodes -/

/-- The error of a node whose parts have the wrong shape. -/
def malformed (message : String) (span : Span) : Error :=
  ⟨.malformedNode message, span.position⟩

/-- A variable that is read. -/
def mkVariable (table : SymbolTable) (name : String) (span : Span) : Except Error TypedExpr := do
  let v ← table.reference name span.position
  if v.text?.isSome then return var v span
  else throw (malformed "variable reference has no rendering" span)

/-- A constant. A floating-point number has to be finite. -/
def mkConstant (value : Literal) (span : Span) : Except Error TypedExpr :=
  match value with
  | .float x =>
    if x.isFinite then .ok (constant value span)
    else .error ⟨.numberParseError value.text, span.position⟩
  | _ => .ok (constant value span)

/-- Check that constants are all of one type. -/
def checkElements (type : ValueType) (span : Span) : List Literal → Except Error Unit
  | [] => .ok ()
  | element :: elements => do
    let received ← (← mkConstant element span).resolvedType
    if received = type then checkElements type span elements
    else throw ⟨.mixedArrayLiteral type.name received.name, span.position⟩

/-- An array. It has elements, and they are all integers or all floating-point numbers. -/
def mkArray (elements : List Literal) (span : Span) : Except Error TypedExpr :=
  match elements with
  | [] => .error ⟨.emptyArrayLiteral, span.position⟩
  | first :: _ => do
    let type ← (← mkConstant first span).resolvedType
    if type.listOf?.isNone then
      throw ⟨.unsupportedType ("list[" ++ type.name ++ "]"), span.position⟩
    checkElements type span elements
    return array elements span

/-- A chain of comparisons. -/
def mkCompare (left : TypedExpr) (ops : List Operator) (comparators : List TypedExpr)
    (span : Span) : Except Error TypedExpr :=
  if ops = [] ∨ ops.length ≠ comparators.length then
    .error (malformed "comparison needs one comparator per operator" span)
  else if ops.any (·.family ≠ .comparison) then
    .error (malformed "comparison chains only take comparison operators" span)
  else .ok (compare left ops comparators span)

/-- An arithmetic operator between two operands. -/
def mkBinary (left : TypedExpr) (op : Operator) (right : TypedExpr) (span : Span) :
    Except Error TypedExpr :=
  if op.family ≠ .arithmetic then
    .error (malformed "binary operations only take arithmetic operators" span)
  else do
    let leftType ← left.resolvedType
    let rightType ← right.resolvedType
    if (op.resultType? leftType rightType).isSome then return binary left op right span
    else if (op = .floorDiv ∨ op = .mod) ∧ (leftType = .float ∨ rightType = .float) then
      throw ⟨.unsupportedOperation op.sourceSpelling
        ("`" ++ leftType.name ++ "` and `" ++ rightType.name ++ "` operands"), span.position⟩
    else
      throw ⟨.invalidOperandTypes op.sourceSpelling leftType.name rightType.name, span.position⟩

/-- An operator in front of its operand. -/
def mkUnary (op : Operator) (operand : TypedExpr) (span : Span) : Except Error TypedExpr :=
  if op = .plus ∨ op = .minus ∨ op = .not then .ok (unary op operand span)
  else .error (malformed "unary operations only take `+`, `-` and `not`" span)

/-- A run of operands joined by one boolean operator. -/
def mkBoolChain (op : Operator) (values : List TypedExpr) (span : Span) :
    Except Error TypedExpr :=
  if op ≠ .and ∧ op ≠ .or then .error (malformed "boolean chains only take `and` and `or`" span)
  else if values.length < 2 then
    .error (malformed "boolean chains need at least two operands" span)
  else .ok (boolChain op values span)

/-- Is the expression a variable? -/
def isVariable : TypedExpr → Bool
  | var _ _ => true
  | _ => false

/-- Is the expression used as an index? -/
def isIndex : TypedExpr → Bool
  | index _ => true
  | _ => false

/-- An element of an array. Only variables have elements. -/
def mkSubscript (value index : TypedExpr) (span : Span) : Except Error TypedExpr :=
  if !index.isIndex then .error (malformed "subscript needs an index node" span)
  else do
    let type ← value.resolvedType
    if !value.isVariable then
      throw ⟨.unsupportedOperation "[]" ("`" ++ type.name ++ "` values other than variables"),
        span.position⟩
    else if type.element?.isNone then throw ⟨.unsupportedType type.name, span.position⟩
    else return subscript value index span

/-- An expression used as an index, which has to be an integer. -/
def mkIndex (value : TypedExpr) : Except Error TypedExpr := do
  let received ← value.resolvedType
  if received = .int then return index value
  else throw ⟨.invalidIndexType received.name, value.span.position⟩

/-- A call. -/
def mkCall (table : SymbolTable) (callee : String) (arguments : List TypedExpr) (span : Span) :
    TypedExpr :=
  call callee arguments (table.returnType? callee) span

end TypedExpr

end DefToC
