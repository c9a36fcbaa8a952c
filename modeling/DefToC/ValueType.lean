/-!
# Types

The five types of values, and the types of the output language that stand for them. A list becomes
an array: a local array carries its size, a parameter and a result are pointers.

A type is spelled in several ways. The source calls it by `ValueType.name`, which is also what
messages say. In the output the spelling depends on where the type stands: the declaration of a
local variable has the name of the variable in the middle of it, and needs the size of an array; the
declaration of a parameter and the type of a result do not.

There is no type of functions. A function is known by what it gives back, which is a value of one of
the five types or nothing (`ReturnType`).

## What is not modelled

Lists have elements of one type, and these are integers or floating-point numbers; there are no
lists of truth values or of lists. The width of the output language's integers is no part of a type:
that every integer constant of the output fits is a theorem (`integers_keep_value`).
-/

namespace DefToC

/-- The types of values. -/
inductive ValueType where
  | bool
  | int
  | float
  | intList
  | floatList
  deriving DecidableEq

/-- The scalar types of the output language. -/
inductive CScalar where
  | bool
  | int
  | double
  deriving DecidableEq

/-- A type of the output language: a scalar or an array of scalars. -/
structure CType where
  /-- The type of the value or of the elements. -/
  scalar : CScalar
  /-- Is it an array? -/
  isArray : Bool
  deriving DecidableEq

namespace ValueType

/-- The name of a type in the source language. -/
def name : ValueType → String
  | bool => "bool"
  | int => "int"
  | float => "float"
  | intList => "list[int]"
  | floatList => "list[float]"

/-- The lists. -/
def isList : ValueType → Bool
  | intList | floatList => true
  | _ => false

/-- The types that arithmetic works on. -/
def isNumeric : ValueType → Bool
  | int | float => true
  | _ => false

/-- The type of the elements of a list. -/
def element? : ValueType → Option ValueType
  | intList => some int
  | floatList => some float
  | _ => none

/-- The type of lists with elements of this type. -/
def listOf? : ValueType → Option ValueType
  | int => some intList
  | float => some floatList
  | _ => none

/-- The type that stands for a value's type in the output. -/
def toC : ValueType → CType
  | bool => ⟨.bool, false⟩
  | int => ⟨.int, false⟩
  | float => ⟨.double, false⟩
  | intList => ⟨.int, true⟩
  | floatList => ⟨.double, true⟩

end ValueType

/-- The spelling of a scalar type. -/
def CScalar.spelling : CScalar → String
  | bool => "bool"
  | int => "int"
  | double => "double"

namespace CType

/-- The name of a type on its own. -/
def name (t : CType) : String :=
  if t.isArray then t.scalar.spelling ++ "[]" else t.scalar.spelling

/-- The declaration of a local variable. An array needs a size. -/
def declaration? (t : CType) (variableName : String) (size : Option Nat) : Option String :=
  if t.isArray then
    size.map fun n => t.scalar.spelling ++ " " ++ variableName ++ "[" ++ toString n ++ "]"
  else some (t.scalar.spelling ++ " " ++ variableName)

/-- The declaration of a parameter. Arrays are passed by pointer. -/
def parameter (t : CType) (parameterName : String) : String :=
  if t.isArray then t.scalar.spelling ++ " *" ++ parameterName
  else t.scalar.spelling ++ " " ++ parameterName

/-- The spelling as the type of a result. -/
def resultSpelling (t : CType) : String :=
  if t.isArray then t.scalar.spelling ++ " *" else t.scalar.spelling

end CType

/-- What a function gives back: nothing, or a value of a type. -/
inductive ReturnType where
  | void
  | value (type : ValueType)
  deriving DecidableEq

namespace ReturnType

/-- The spelling of a result in the output. -/
def spelling : ReturnType → String
  | void => "void"
  | value type => type.toC.resultSpelling

/-- The type of the value that is given back. -/
def value? : ReturnType → Option ValueType
  | void => none
  | value type => some type

end ReturnType

end DefToC
