import DefToC.Output
import DefToC.Typed.Expr
import DefToC.Typed.Lowering

/-!
# Typed statements

A statement of the output language. Its lines are a function of its tree. As with expressions, the
nodes are made by functions that refuse what has no meaning; an assignment to a new variable also
gives the variable its type.

## The model

An assignment is settled in steps. The value has to have a type. Several targets have to exist
already, and may not be lists. Then the targets are settled one after another: a new variable gets
the type of the value, and an array also its size, and whatever exists has to hold values of this
type. Only then is the statement there, and if a step fails, what earlier steps have entered into
the table stays.

An update in place keeps the type of its target, so it may not turn an integer into a number with a
fraction. A conditional or a loop with a second branch is refused.

## What is not modelled

A declaration is no statement of its own: a new variable is declared where it is first assigned to,
in whatever block that is. Behind the block the variable can still be read here, and it is not
checked that in the output its declaration ends with the block.
-/

namespace DefToC

/-- What an assignment stores into. -/
inductive Target where
  /-- A variable. -/
  | var (v : Variable)
  /-- An element of an array. -/
  | subscript (e : TypedExpr)

/-- A statement of the output language. -/
inductive TypedStmt where
  /-- One value stored into one or more targets. -/
  | assign (targets : List Target) (value : TypedExpr) (span : Span)
  /-- An operator applied in place. -/
  | augAssign (target : TypedExpr) (op : Operator) (value : TypedExpr) (span : Span)
  /-- A conditional. -/
  | ifThen (test : TypedExpr) (body : List TypedStmt) (span : Span)
  /-- A loop. -/
  | whileLoop (test : TypedExpr) (body : List TypedStmt) (span : Span)
  /-- The end of the function, and what it gives back. -/
  | ret (value : Option TypedExpr) (returns : ReturnType) (span : Span)
  /-- An expression on its own. -/
  | expression (e : TypedExpr) (span : Span)

namespace Target

/-- Does the target introduce a variable? -/
def isNew : Target → Bool
  | var v => v.isNew
  | subscript _ => false

/-- The type of what is stored in the target. -/
def type? : Target → Option ValueType
  | var v => v.type
  | subscript e => e.type?

/-- The text of the target. -/
def text? : Target → Option String
  | var v => v.text?
  | subscript e => some e.text

end Target

/-- The text of the condition of a conditional or a loop, in one pair of parentheses. -/
def TypedExpr.conditionText (test : TypedExpr) : String :=
  if test.isParenthesized then test.text else "(" ++ test.text ++ ")"

/-- The number of elements of an array literal. -/
def TypedExpr.arraySize? : TypedExpr → Option Nat
  | array elements _ => some elements.length
  | _ => none

/-- May the expression be updated in place? -/
def TypedExpr.isUpdatable : TypedExpr → Bool
  | var _ _ | subscript _ _ _ => true
  | _ => false

namespace TypedStmt

/-- The span of a statement. -/
def span : TypedStmt → Span
  | assign _ _ s => s
  | augAssign _ _ _ s => s
  | ifThen _ _ s => s
  | whileLoop _ _ s => s
  | ret _ _ s => s
  | expression _ s => s

/-- The text of a statement without the statements inside it. -/
def text : TypedStmt → StmtText
  | assign targets value _ =>
    .line (String.join (targets.map fun t => t.text?.getD "" ++ " = ") ++ value.text ++ ";")
  | augAssign target op value _ =>
    .line (target.text ++ " " ++ op.spelling ++ "= " ++ value.text ++ ";")
  | ifThen test _ _ => .block ("if " ++ test.conditionText ++ " \x7b") "\x7d"
  | whileLoop test _ _ => .block ("while " ++ test.conditionText ++ " \x7b") "\x7d"
  | ret none _ _ => .line "return;"
  | ret (some value) _ _ => .line ("return " ++ value.text ++ ";")
  | expression e _ => .line (e.text ++ ";")

/-- The lines of a statement's text around the lines of its block. -/
def frame (depth : Nat) (text : StmtText) (inner : List OutputLine) : List OutputLine :=
  match text with
  | .line line => [⟨depth, line⟩]
  | .block header tail => ⟨depth, header⟩ :: inner ++ [⟨depth, tail⟩]

mutual

/-- The lines of a statement that stands at the given depth. -/
def lines (depth : Nat) : TypedStmt → List OutputLine
  | ifThen test body span => frame depth (ifThen test body span).text (linesOf (depth + 1) body)
  | whileLoop test body span =>
    frame depth (whileLoop test body span).text (linesOf (depth + 1) body)
  | s => frame depth s.text []

/-- The lines of the statements of a block. -/
def linesOf (depth : Nat) : List TypedStmt → List OutputLine
  | [] => []
  | s :: ss => lines depth s ++ linesOf depth ss

end

/-! ### Nodes -/

/-- Check that a target that exists holds values of the given type. -/
def checkStored (type : ValueType) (span : Span) (target : Target) : Except Error Target :=
  if target.type? = some type then .ok target
  else
    let held := (target.type?.map ValueType.name).getD ""
    .error ⟨.implicitCastNotSupported type.name held, span.position⟩

/-- Give a new variable the type of the stored value. An array also gets the size of the
literal that it is set from. -/
def introduce (type : ValueType) (size : Option Nat) (span : Span) (v : Variable) :
    Lowering Target :=
  if type.isList && size.isNone then .fail ⟨.arrayWithoutSize v.name, span.position⟩
  else do
    .bindVariable v.name type size span.position
    return .var { v with type := some type, size }

/-- Settle what an assignment of a value of the given type does to a target. -/
def settle (type : ValueType) (size : Option Nat) (span : Span) (target : Target) :
    Lowering Target :=
  match target with
  | .var v =>
    if v.isNew then introduce type size span v else .reading fun _ => checkStored type span target
  | .subscript _ => .reading fun _ => checkStored type span target

/-- Settle several targets in order. -/
def settleAll (type : ValueType) (size : Option Nat) (span : Span) :
    List Target → Lowering (List Target)
  | [] => pure []
  | target :: targets => do
    let settled ← settle type size span target
    return settled :: (← settleAll type size span targets)

/-- Check that one value of the given type may be stored into several targets at once. -/
def checkTargets (type : ValueType) (targets : List Target) (span : Span) : Except Error Unit :=
  if targets.length ≤ 1 then .ok ()
  else if targets.any Target.isNew then
    .error ⟨.multipleTargetsNotSupported "Every target must already be defined", span.position⟩
  else if type.isList then
    .error ⟨.multipleTargetsNotSupported
      ("`" ++ type.name ++ "` values cannot be assigned to several targets"), span.position⟩
  else .ok ()

/-- An assignment. -/
def mkAssign (targets : List Target) (value : TypedExpr) (span : Span) : Lowering TypedStmt :=
  if targets.isEmpty then .fail (TypedExpr.malformed "assignment needs a target" span)
  else do
    let type ← .reading fun _ => value.resolvedType
    .reading fun _ => checkTargets type targets span
    let settled ← settleAll type value.arraySize? span targets
    if settled.all (·.text?.isSome) then return assign settled value span
    else .fail (TypedExpr.malformed "assignment target has no rendering" span)

/-- Check that an operator may be applied in place to a target of one type with a value of
another. The target keeps its type. -/
def checkUpdate (op : Operator) (target value : ValueType) (span : Span) : Except Error Unit :=
  let spelling := op.sourceSpelling ++ "="
  if !target.isNumeric || !value.isNumeric then
    .error ⟨.invalidOperandTypes spelling target.name value.name, span.position⟩
  else
    match op with
    | .div =>
      if target = .int then
        .error ⟨.unsupportedOperation spelling "an `int` target", span.position⟩
      else .ok ()
    | .floorDiv | .mod =>
      if target ≠ .int ∨ value ≠ .int then
        .error ⟨.unsupportedOperation spelling
          ("`" ++ target.name ++ "` target and `" ++ value.name ++ "` value"), span.position⟩
      else .ok ()
    | _ =>
      if target ≠ value then
        .error ⟨.implicitCastNotSupported value.name target.name, span.position⟩
      else .ok ()

/-- An operator applied in place. -/
def mkAugAssign (target : TypedExpr) (op : Operator) (value : TypedExpr) (span : Span) :
    Except Error TypedStmt :=
  if op.family ≠ .arithmetic then
    .error (TypedExpr.malformed "augmented assignment only takes arithmetic operators" span)
  else if !target.isUpdatable then
    .error (TypedExpr.malformed "augmented assignment needs a variable or subscript target" span)
  else do
    let targetType ← target.resolvedType
    let valueType ← value.resolvedType
    checkUpdate op targetType valueType span
    return augAssign target op value span

/-- Check that there is no second branch. It is given by the place where it begins. -/
def checkElse : Option Position → Except Error Unit
  | none => .ok ()
  | some position => .error ⟨.unsupportedElseBranch, position⟩

/-- A conditional. -/
def mkIf (test : TypedExpr) (body : List TypedStmt) (orelse : Option Position) (span : Span) :
    Except Error TypedStmt := do
  checkElse orelse
  return ifThen test body span

/-- A loop. -/
def mkWhile (test : TypedExpr) (body : List TypedStmt) (orelse : Option Position) (span : Span) :
    Except Error TypedStmt := do
  checkElse orelse
  return whileLoop test body span

/-- The end of the function. A value that is given back has to have a type. -/
def mkReturn (value : Option TypedExpr) (span : Span) : Except Error TypedStmt :=
  match value with
  | none => .ok (ret none .void span)
  | some e => do return ret value (.value (← e.resolvedType)) span

end TypedStmt

end DefToC
