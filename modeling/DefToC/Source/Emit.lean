import DefToC.Function.Returns
import DefToC.Function.Signature
import DefToC.Syntax.ProgramParser
import DefToC.Typed.Lower

/-!
# From a source text to the output

The whole way: a text is cut into tokens, the tokens are read as functions, one function is chosen,
and that function is written out.

A function is typed against its parameters, the functions that its caller knows and, if it declares
its result, itself. The results of its typed body are brought together to one, which is compared
with the declared one. Then it is written as a signature, the lines of its body and a closing brace.

## The model

Every part gives a value or an error, with the notes that were made on the way (`Traced`). The parts
are tried in the order in which they are named here, so of several errors the first one is given:
the types of the parameters come before the declared result, and both come before the body.

The function is chosen by its name, and the first one of that name counts. Without a name it is the
first function of all. The other functions of the text have been read, but they are not typed.

## What is not modelled

The whole text is there before the work begins, and the output is one text. Files, the command line
and the clock are left to `Cli`.
-/

namespace DefToC

/-! ### Writing out a function -/

/-- The result of a step on the given table, without the table that it leaves. -/
def Lowering.run {α : Type} (step : Lowering α) (table : SymbolTable) : Traced Error α :=
  let lowered := step table
  ⟨lowered.result, lowered.events⟩

/-- Enter parameters. -/
def Lowering.declareParameters : List TypedParam → Lowering Unit
  | [] => pure ()
  | p :: ps => do
    declareParameter p.name p.type
    declareParameters ps

/-- Enter functions that may be called. -/
def Lowering.declareFunctions : List (String × ReturnType) → Lowering Unit
  | [] => pure ()
  | (name, returns) :: fs => do
    declareFunction name returns
    declareFunctions fs

/-- Check a function's result against the one that it declares. -/
def checkDeclared (declared : Option (ReturnType × Position)) (returns : ReturnType) :
    Except Error Unit :=
  match declared with
  | none => .ok ()
  | some (expected, position) =>
    if expected = returns then .ok ()
    else .error ⟨.inconsistentReturnType expected.spelling returns.spelling, position⟩

/-- The lines of a function. -/
def functionLines (name : String) (params : List TypedParam) (returns : ReturnType)
    (body : List TypedStmt) : List OutputLine :=
  let parameters := ", ".intercalate (params.map TypedParam.text)
  let signature := returns.spelling ++ " " ++ name ++ "(" ++ parameters ++ ") \x7b"
  ⟨0, signature⟩ :: TypedStmt.linesOf 1 body ++ [⟨0, "\x7d"⟩]

namespace FunctionDef

/-- The typed statements of a function with the given parameters. -/
def lowerBody (f : FunctionDef) (params : List TypedParam) (externs : List (String × ReturnType))
    (declared : Option (ReturnType × Position)) : Lowering (List TypedStmt) := do
  .declareParameters params
  .declareFunctions externs
  -- a function that declares its result may call itself
  .declareFunctions (declared.toList.map fun (returns, _) => (f.name, returns))
  Stmt.lowerAll f.body

/-- The text of a function in the output language. -/
def emit (f : FunctionDef) (options : Options) : Traced Error String := do
  let params ← .ofExcept (f.typedParams options)
  let declared ← .ofExcept f.declaredReturn
  let body ← (f.lowerBody params options.externs declared).run .empty
  let unified ← TypedStmt.unifyAll none body
  let returns := unified.getD .void
  .ofExcept (checkDeclared declared returns)
  .note (.written f.name params.length returns)
  let lines := functionLines f.name params returns body
  return String.join (lines.map (OutputLine.render options.indent))

end FunctionDef

/-! ### From the text -/

/-- The function of the given name, or the first one if no name is given. -/
def Program.select (p : Program) (name : Option String) (file : String) :
    Except Error FunctionDef :=
  let found :=
    match name with
    | some name => p.functions.find? (·.name = name)
    | none => p.functions.head?
  match found with
  | some function => .ok function
  | none => .error ⟨.functionNotFound (name.getD "<any>"), ⟨file, 0⟩⟩

/-- Choose a function and write it out. -/
def Program.emit (p : Program) (name : Option String) (file : String) (options : Options) :
    Traced Error String := do
  let function ← .ofExcept (p.select name file)
  function.emit options

/-- The output for a function of a source text. -/
def emitSource (source file : String) (name : Option String) (options : Options) :
    Traced Error String := do
  let tokens ← scanSource file source
  let program ← Program.parse file tokens
  program.emit name file options

end DefToC
