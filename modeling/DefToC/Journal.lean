import DefToC.Error
import DefToC.Output
import DefToC.ValueType

/-!
# The journal

While a source text is worked on, the steps that succeed are noted in a journal. The notes are kept
beside the result, so a failure comes with the notes of all that went before it.

## The model

`Event` is a note with all that its text mentions, and the text is a function of it. Notes are kept
as they are made and not as they are shown: which of them are shown is decided by their level, at
the very end and by the caller (`Cli.shownLog`).

`Traced` is a result with its notes. One step after another gives the notes of both in order, and
behind a failure no further notes are made. Where a step also changes a symbol table it is a
`Lowering` instead, which keeps the table and the notes.

## What is not modelled

A note has no time. The lines of a log that tell how long something took are made where the clock
is, in `Cli`, and are no notes of the journal.
-/

namespace DefToC

/-- How much a note matters, from the most to the least. -/
inductive Level where
  | error
  | warn
  | info
  | debug
  | trace
  deriving DecidableEq

namespace Level

/-- The place of a level in their order. -/
def rank : Level → Nat
  | error => 0
  | warn => 1
  | info => 2
  | debug => 3
  | trace => 4

/-- The name of a level. -/
def name : Level → String
  | error => "ERROR"
  | warn => "WARN"
  | info => "INFO"
  | debug => "DEBUG"
  | trace => "TRACE"

end Level

/-- A step that is noted. -/
inductive Event where
  /-- A text was cut into tokens. -/
  | tokenized (file : String) (count : Nat)
  /-- A function was read. -/
  | parsed (function : String) (statements : Nat)
  /-- A parameter was declared. -/
  | parameter (name : String) (type : ValueType)
  /-- A function that may be called was declared. -/
  | callee (name : String) (returns : ReturnType)
  /-- A variable got its type. -/
  | bound (name : String) (type : ValueType)
  /-- A statement was given its text. -/
  | lowered (text : StmtText)
  /-- The first result of a function fixed its type. -/
  | returnFixed (type : ReturnType)
  /-- A function was written out. -/
  | written (function : String) (params : Nat) (returns : ReturnType)

namespace Event

/-- How much a note matters. -/
def level : Event → Level
  | tokenized _ _ | parsed _ _ | lowered _ => .trace
  | parameter _ _ | callee _ _ | bound _ _ | returnFixed _ | written _ _ _ => .debug

/-- The part of the program that makes a note. -/
def origin : Event → String
  | tokenized _ _ => "transpiler::lexer::lexer"
  | parsed _ _ => "transpiler::parser::parser"
  | parameter _ _ | callee _ _ | bound _ _ => "transpiler::type_checker::symbols"
  | lowered _ => "transpiler::type_checker::type_checker"
  | returnFixed _ | written _ _ _ => "transpiler::compiler::compiler"

/-- The text of a note. -/
def message : Event → String
  | tokenized file count => "tokenized " ++ file ++ " into " ++ toString count ++ " tokens"
  | parsed function statements =>
    "parsed function `" ++ function ++ "` with " ++ toString statements ++ " statements"
  | parameter name type => "parameter `" ++ name ++ "`: " ++ type.name
  | callee name returns => "callee `" ++ name ++ "` returns " ++ returns.spelling
  | bound name type => "bound `" ++ name ++ "` as " ++ type.name
  | lowered text => "lowered statement: " ++ text.show
  | returnFixed type => "return type fixed as " ++ type.spelling
  | written function params returns =>
    "transpiled `" ++ function ++ "`: " ++ toString params ++ " parameter(s), returns " ++
      returns.spelling

end Event

/-- A line of a log. -/
structure LogLine where
  /-- How much the line matters. -/
  level : Level
  /-- The part of the program that it comes from. -/
  origin : String
  /-- Its text. -/
  message : String

/-- A note as a line of a log. -/
def Event.line (e : Event) : LogLine := ⟨e.level, e.origin, e.message⟩

/-- A line of a log as it is written. -/
def LogLine.text (line : LogLine) : String :=
  line.level.name ++ " " ++ line.origin ++ ": " ++ line.message

/-- A result together with the notes made on the way to it. -/
structure Traced (ε α : Type) where
  /-- The value, or what is wrong. -/
  result : Except ε α
  /-- The notes in order. -/
  events : List Event

namespace Traced

variable {ε ε' α β : Type}

/-- A result without notes. -/
def ofExcept (result : Except ε α) : Traced ε α := ⟨result, []⟩

/-- A single note. -/
def note (event : Event) : Traced ε Unit := ⟨.ok (), [event]⟩

/-- Tell in other words what is wrong. -/
def mapError (f : ε → ε') (t : Traced ε α) : Traced ε' α := ⟨t.result.mapError f, t.events⟩

/-- Go on from a value. The notes of both parts follow each other. -/
def bind (t : Traced ε α) (f : α → Traced ε β) : Traced ε β :=
  match t.result with
  | .error e => ⟨.error e, t.events⟩
  | .ok a =>
    let next := f a
    ⟨next.result, t.events ++ next.events⟩

instance : Monad (Traced ε) where
  pure a := ⟨.ok a, []⟩
  bind := bind

end Traced

end DefToC
