import DefToC.Error
import DefToC.Output
import DefToC.Syntax.Tree
import DefToC.ValueType

/-!
# Signatures

The types of a function's parameters and of its result. A caller may give the types of the
parameters, and then those written in the source do not count.

## The model

A written type is a name or a name with arguments, and stands for a type of values only if it is one
of a few: the three scalar types by their names, and a list of integers or of floating-point numbers
under one of two names. Every other written type is refused here and not when it is read.

The types that a caller gives are as many as there are parameters, and then nothing that is written
is looked at, not even to refuse it. The result is declared in the source or not at all. The word
for nothing is a declared result too.

## What is not modelled

Parameters have no defaults, and two parameters may have the same name: then the later one counts.
The results of other functions come from the caller, also if their declarations stand in the same
text.
-/

namespace DefToC

/-- What the caller knows of a function. -/
structure Options where
  /-- The types of the parameters in order, if the caller gives them. -/
  paramTypes : Option (List ValueType)
  /-- The functions that may be called and their results. The last entry of a name counts. -/
  externs : List (String × ReturnType)
  /-- How the output is indented. -/
  indent : IndentStyle

/-- A parameter and its type. -/
structure TypedParam where
  /-- The name of the parameter. -/
  name : String
  /-- Its type. -/
  type : ValueType
  deriving DecidableEq

/-- The declaration of a parameter. -/
def TypedParam.text (p : TypedParam) : String := p.type.toC.parameter p.name

namespace TypeExpr

/-- The name that makes up a type, if it has no arguments. -/
def plainName? : TypeExpr → Option String
  | name id _ => some id
  | applied _ _ _ => none

/-- The type of values that a written type stands for, if there is one. -/
def valueType? : TypeExpr → Option ValueType
  | name id _ =>
    if id = "bool" then some .bool
    else if id = "int" then some .int
    else if id = "float" then some .float
    else none
  | applied base [argument] _ =>
    if base.plainName? = some "list" ∨ base.plainName? = some "List" then
      if argument.plainName? = some "int" then some .intList
      else if argument.plainName? = some "float" then some .floatList
      else none
    else none
  | applied _ _ _ => none

/-- The type of values that a written type stands for. -/
def valueType (a : TypeExpr) : Except Error ValueType :=
  match a.valueType? with
  | some type => .ok type
  | none => .error ⟨.unsupportedType a.text, a.position⟩

end TypeExpr

/-- The type of a parameter as it is written. -/
def Param.typed (p : Param) : Except Error TypedParam :=
  match p.type with
  | some type => do return ⟨p.name, ← type.valueType⟩
  | none => .error ⟨.missingParameterType p.name, p.span.position⟩

namespace FunctionDef

/-- The parameters of a function with their types. -/
def typedParams (f : FunctionDef) (options : Options) : Except Error (List TypedParam) :=
  match options.paramTypes with
  | none => f.params.mapM Param.typed
  | some types =>
    if types.length = f.params.length then
      .ok (f.params.zipWith (fun p type => ⟨p.name, type⟩) types)
    else
      .error ⟨.argumentCountMismatch f.params.length types.length, f.span.position⟩

/-- The result that a function declares, with the place where it does. -/
def declaredReturn (f : FunctionDef) : Except Error (Option (ReturnType × Position)) :=
  match f.returns with
  | none => .ok none
  | some type =>
    if type.text = "None" then .ok (some (.void, type.position))
    else do return some (.value (← type.valueType), type.position)

end FunctionDef

end DefToC
