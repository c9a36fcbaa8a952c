import DefToC.Cli.Arguments
import DefToC.Cli.Files
import DefToC.Diagnostic
import DefToC.Source.Emit
import DefToC.Text.Visible

/-!
# The program

What the command line asks for is done against a host: the types and the functions named on the
command line are read first, then the input file, then the output is written to a file or to the
standard output. Notes and errors go to the standard error, one after another; the lines of the log
are shown without controls for a terminal.

## The model

The host is a parameter, and with it the monad in which it works. The same program runs against the
real files and against a directory in memory, so it can be run and reasoned about without a system.

A wrong type on the command line ends the run with the status 2, and a file that cannot be read or
written or an error in the source with the status 1. The log has the notes of all parts in order, as
far as they are asked for, and a diagnostic stands behind it.

## What is not modelled

What is written to the two outputs is collected and written at the end. A line of the log has no
time in front of it, and how long a part took is whatever the host tells.
-/

namespace DefToC.Cli

/-- What a run of the program leaves. -/
structure Outcome where
  /-- The exit status. -/
  status : Nat
  /-- The text on the standard output. -/
  output : String
  /-- The text on the standard error. -/
  errors : String

/-- A line without its end, which is a line feed or a carriage return and a line feed. -/
def bareLine (line : List Char) : List Char :=
  match line.reverse with
  | '\n' :: '\r' :: rest => rest.reverse
  | '\n' :: rest => rest.reverse
  | _ => line

/-- The lines on the standard error. -/
def Outcome.errorLines (o : Outcome) : List String :=
  (splitLines o.errors.toList).map fun line => String.ofList (bareLine line)

/-- The answer to a command line. -/
inductive Answer where
  /-- The command line is wrong. -/
  | usage (fault : UsageFault)
  /-- Help is asked for. -/
  | help
  /-- The program has run. -/
  | done (outcome : Outcome)

/-- The least important notes that are shown. -/
def threshold (verbosity : Nat) : Level :=
  match verbosity with
  | 0 => .warn
  | 1 => .info
  | 2 => .debug
  | _ => .trace

/-- The name under which the program itself writes to the log. -/
def programName : String := "transpiler"

/-- The program's own note. -/
def info (message : String) : LogLine := ⟨.info, programName, message⟩

/-- The program's own error. -/
def failed (message : String) : LogLine := ⟨.error, programName, message⟩

/-- A text whose lines are indented from the second on. -/
def indentOthers (text : String) : String :=
  String.ofList (text.toList.flatMap fun c => if c = '\n' then ['\n', ' ', ' ', ' ', ' '] else [c])

/-- A line of a log as it is shown. -/
def shownLine (line : LogLine) : String := visible (indentOthers line.text ++ "\n")

/-- A log as far as it is shown. -/
def shownLog (verbosity : Nat) (log : List LogLine) : String :=
  String.join ((log.filter fun line => line.level.rank ≤ (threshold verbosity).rank).map shownLine)

/-! ### What the command line names -/

/-- The types of a text, separated by commas. -/
def readTypes (text : String) : Traced Error (List ValueType) := do
  let annotations ← TypeExpr.readAll text
  .ofExcept (annotations.mapM TypeExpr.valueType)

/-- The result of a function that is named with its result. -/
def readReturn (name type : String) : Traced String ReturnType :=
  if type = "void" ∨ type = "None" then pure .void
  else do
    let types ← (readTypes type).mapError fun e =>
      "invalid type for " ++ quoted name ++ ": " ++ e.cause.message
    match types with
    | [type] => return .value type
    | _ => .ofExcept (.error ("expected a single type for " ++ quoted name))

/-- A text without the white space around it. -/
def trimmed (text : List Char) : String := String.ofList (trim text)

/-- A function and its result, with a colon between them. -/
def readExtern (entry : String) : Traced String (String × ReturnType) :=
  let name := entry.toList.takeWhile (· != ':')
  match entry.toList.dropWhile (· != ':') with
  | [] => .ofExcept (.error ("expected NAME:TYPE, received " ++ quoted entry))
  | _ :: type => do
    let returns ← readReturn (String.ofList name) (trimmed type)
    return (trimmed name, returns)

/-- Several functions and their results. -/
def readExterns : List String → Traced String (List (String × ReturnType))
  | [] => pure []
  | entry :: entries => do
    let function ← readExtern entry
    return function :: (← readExterns entries)

/-- The types of the parameters, if they are given. -/
def readArgTypes : Option String → Traced String (Option (List ValueType))
  | none => pure none
  | some text => do
    let types ← (readTypes text).mapError fun e => "invalid --arg-types: " ++ e.cause.message
    return some types

/-- What the command line tells of the function to write out. -/
def readOptions (a : Arguments) : Traced String Options := do
  let paramTypes ← readArgTypes a.argTypes
  let externs ← readExterns a.externs
  let indent := match a.indentSpaces with
    | none => .tab
    | some count => .spaces count
  return { paramTypes, externs, indent }

/-! ### Running -/

variable {m : Type → Type} [Monad m]

/-- The text of a file. -/
def readText (host : Host m) (path : String) : m (Except FileFault String) := do
  match ← host.read path with
  | .error fault => return .error fault
  | .ok bytes =>
    match String.fromUTF8? bytes with
    | none => return .error .notText
    | some text => return .ok text

/-- Do a part of the work and note how long it took. -/
def timed {α : Type} (host : Host m) (label : String) (work : Unit → Traced Error α) :
    m (Except Error α × List LogLine) := do
  let start ← host.clock
  let done := work ()
  let log := done.events.map Event.line
  match done.result with
  | .error e => return (.error e, log)
  | .ok a => return (.ok a, log ++ [info (label ++ (← host.elapsed start))])

/-- The output for a function of a source text, part by part. -/
def emitTimed (host : Host m) (source file : String) (function : Option String)
    (options : Options) : m (Except Error String × List LogLine) := do
  match ← timed host "Tokenized in " fun _ => scanSource file source with
  | (.error e, log₁) => return (.error e, log₁)
  | (.ok tokens, log₁) =>
    match ← timed host "Parsed in " fun _ => Program.parse file tokens with
    | (.error e, log₂) => return (.error e, log₁ ++ log₂)
    | (.ok program, log₂) =>
      let (result, log₃) ← timed host "Transpiled in " fun _ => program.emit function file options
      return (result, log₁ ++ log₂ ++ log₃)

/-- Put the output where it was asked for. -/
def deliver (host : Host m) (output : String) (destination : Option String) :
    m (Nat × String × List LogLine) := do
  match destination with
  | none => return (0, output, [])
  | some path =>
    match ← host.write path output with
    | .error fault => return (1, "", [failed ("failed to write " ++ path ++ ": " ++ fault.message)])
    | .ok () => return (0, "", [info ("Wrote " ++ path)])

/-- Do what the command line asks for. -/
def work (host : Host m) (input : String) (a : Arguments) : m Outcome := do
  let shown := shownLog a.verbosity
  let options := readOptions a
  let log := options.events.map Event.line
  match options.result with
  | .error message => return ⟨2, "", shown (log ++ [failed message])⟩
  | .ok options =>
    match ← readText host input with
    | .error fault =>
      return ⟨1, "", shown (log ++ [failed ("failed to read " ++ input ++ ": " ++ fault.message)])⟩
    | .ok source =>
      let start ← host.clock
      match ← emitTimed host source (fileName input) a.function options with
      | (.error e, log₁) =>
        return ⟨1, "", shown (log ++ log₁) ++ e.diagnostic source⟩
      | (.ok output, log₁) =>
        let total := info ("Total time: " ++ (← host.elapsed start))
        let (status, text, log₂) ← deliver host output a.output
        return ⟨status, text, shown (log ++ log₁ ++ [total] ++ log₂)⟩

/-- Run the program on the words of a command line. -/
def run (host : Host m) (words : List String) : m Answer := do
  match Request.read words with
  | .error fault => return .usage fault
  | .ok .help => return .help
  | .ok (.work input a) => return .done (← work host input a)

end DefToC.Cli
