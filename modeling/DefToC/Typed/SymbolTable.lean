import DefToC.Error
import DefToC.ValueType

/-!
# Symbol tables

What is known of the names in a function's body: the variables with their types, and the functions
that may be called with the types of their results. A variable is entered when it is first assigned
to, and gets its type when the assigned value is known to be right. Until then its entry is pending
and counts as absent.

## The model

A table is a list of entries, the latest one first, and the first entry of a name counts. An entry
is never taken out, so an assignment that fails leaves the pending entries of its targets behind.
They change nothing: what is read and what is assigned to later comes out as if they were not there
(`Proofs.Typed.Permanence`).

Variables and functions are kept apart, so a variable may have the name of a function. An entry that
has a type is final. A variable has that type from its first assignment to the end of the function,
through all blocks.

## What is not modelled

There is one table for a function and none for a block. Nothing is known of a function but what it
gives back: neither the number of its parameters nor their types.
-/

namespace DefToC

/-- What an occurrence of a variable does. -/
inductive BindingMode where
  /-- It introduces the variable and is written as a declaration. -/
  | fresh
  /-- It refers to a variable that exists. -/
  | reuse
  deriving DecidableEq

/-- An occurrence of a variable. -/
structure Variable where
  /-- The name of the variable. -/
  name : String
  /-- The type of the variable, once it is known. -/
  type : Option ValueType
  /-- The number of elements of an array set from a literal. -/
  size : Option Nat
  /-- What the occurrence does. -/
  mode : BindingMode
  deriving DecidableEq

namespace Variable

/-- The text of an occurrence. There is none for a declaration without a type, or of an
array without a size. -/
def text? (v : Variable) : Option String :=
  match v.mode with
  | .reuse => some v.name
  | .fresh => v.type.bind fun type => type.toC.declaration? v.name v.size

/-- Does this occurrence introduce the variable? -/
def isNew (v : Variable) : Bool := v.mode = .fresh

end Variable

/-- The variables and the callable functions of a body, the latest entry of a name first. -/
structure SymbolTable where
  /-- The variables, each under its own name. -/
  entries : List Variable
  /-- The results of functions by their names. -/
  functions : List (String × ReturnType)

namespace SymbolTable

/-- The table without any entry. -/
def empty : SymbolTable := ⟨[], []⟩

/-- Enter a variable. -/
def insertVariable (table : SymbolTable) (v : Variable) : SymbolTable :=
  { table with entries := v :: table.entries }

/-- Enter a parameter, which has a type from the start. -/
def declareParameter (table : SymbolTable) (name : String) (type : ValueType) : SymbolTable :=
  table.insertVariable ⟨name, some type, none, .reuse⟩

/-- Enter a function that may be called. -/
def declareFunction (table : SymbolTable) (name : String) (returns : ReturnType) : SymbolTable :=
  { table with functions := (name, returns) :: table.functions }

/-- The result of a function, if it is known. -/
def returnType? (table : SymbolTable) (name : String) : Option ReturnType :=
  table.functions.lookup name

/-- The entry of a variable, which may be pending. -/
def entryOf (table : SymbolTable) (name : String) : Option Variable :=
  table.entries.find? (·.name = name)

/-- The entry of a variable that has a type. -/
def lookup (table : SymbolTable) (name : String) : Option Variable :=
  (table.entryOf name).filter (·.type.isSome)

/-- A reading occurrence of a variable. -/
def reference (table : SymbolTable) (name : String) (position : Position) :
    Except Error Variable :=
  match table.lookup name with
  | some v => .ok { v with mode := .reuse }
  | none => .error ⟨.undefinedVariable name, position⟩

/-- An assigned occurrence of a variable. A variable without a type gets a pending entry. -/
def target (table : SymbolTable) (name : String) : Variable × SymbolTable :=
  match table.lookup name with
  | some v => ({ v with mode := .reuse }, table)
  | none =>
    let v : Variable := ⟨name, none, none, .fresh⟩
    (v, table.insertVariable v)

/-- Give a pending entry its type, and an array its size. An entry that has a type is never
changed. -/
def bind (table : SymbolTable) (name : String) (type : ValueType) (size : Option Nat)
    (position : Position) : Except Error SymbolTable :=
  match table.entryOf name with
  | none => .error ⟨.undefinedVariable name, position⟩
  | some v =>
    match v.type with
    | none => .ok (table.insertVariable { v with type := some type, size })
    | some bound =>
      .error ⟨.malformedNode ("`" ++ name ++ "` is already bound as `" ++ bound.name ++ "`"),
        position⟩

end SymbolTable

end DefToC
