/-!
# Command-line arguments

The words of a command line are options and the name of the input file, in any order. A long option
takes its value behind an equals sign or as the next word, a short one as the rest of its word or as
the next word. Short flags may share a word, and two dashes on their own end the options.

## The model

What a word is depends on how it begins only (`classify`). A word that begins with a dash is an
option, so it cannot be the value of the option in front of it; a dash on its own can. An equals
sign behind a short option is dropped. All options may be given once but two: the functions that may
be called are collected in order, and the questions for more notes are counted.

The words are read from left to right, and the first fault or the first question for help ends the
reading. That the input is missing is only found at the end.

## What is not modelled

The wording of faults is this library's own. The words are texts: a word that is no text does not
reach the program.
-/

namespace DefToC.Cli

/-- What is wrong with a command line. -/
inductive UsageFault where
  /-- An option that does not exist. -/
  | unknownOption (word : String)
  /-- An option without its value. -/
  | missingValue (option : String)
  /-- A value for an option that takes none. -/
  | unexpectedValue (option : String)
  /-- An option that may be given only once. -/
  | repeatedOption (option : String)
  /-- A number that is not one, or that is too large. -/
  | badNumber (text : String)
  /-- The name of a file that is empty. -/
  | emptyName
  /-- A second input. -/
  | extraInput (word : String)
  /-- No input. -/
  | missingInput

/-- The wording of a fault. -/
def UsageFault.message : UsageFault → String
  | unknownOption word => "unknown option " ++ word
  | missingValue option => "option " ++ option ++ " needs a value"
  | unexpectedValue option => "option " ++ option ++ " takes no value"
  | repeatedOption option => "option " ++ option ++ " is given twice"
  | badNumber text => "not a number: " ++ text
  | emptyName => "a file name is empty"
  | extraInput word => "one input only, not also " ++ word
  | missingInput => "no input is given"

/-- The options that take a value. -/
inductive ValueOption where
  | function
  | argTypes
  | callee
  | indentSpaces
  | output
  deriving DecidableEq

/-- The long name of an option. -/
def ValueOption.name : ValueOption → String
  | function => "--function"
  | argTypes => "--arg-types"
  | callee => "--extern"
  | indentSpaces => "--indent-spaces"
  | output => "--output"

/-- What a command line asks for. -/
structure Arguments where
  /-- The input file, once it is named. -/
  input : Option String := none
  /-- The name of the function to write out. -/
  function : Option String := none
  /-- The types of the parameters. -/
  argTypes : Option String := none
  /-- The functions that may be called, in order. -/
  externs : List String := []
  /-- The number of spaces of one level of depth. -/
  indentSpaces : Option Nat := none
  /-- The output file. -/
  output : Option String := none
  /-- How often more notes are asked for. -/
  verbosity : Nat := 0

/-- The value of a count: digits with an optional plus sign, below `2 ^ 64`. -/
def readCount? (text : String) : Option Nat :=
  let digits := match text.toList with
    | '+' :: cs => cs
    | cs => cs
  if digits ≠ [] ∧ digits.all Char.isDigit then
    let n := digits.foldl (fun value c => 10 * value + (c.toNat - '0'.toNat)) 0
    if n < 18446744073709551616 then some n else none
  else none

namespace Arguments

/-- Set an option that may be given once. -/
def setOnce {α : Type} (option : ValueOption) (old : Option α) (value : α) :
    Except UsageFault (Option α) :=
  if old.isSome then .error (.repeatedOption option.name) else .ok (some value)

/-- Set an option to a value. -/
def set (a : Arguments) (option : ValueOption) (value : String) : Except UsageFault Arguments :=
  match option with
  | .function => do return { a with function := ← setOnce option a.function value }
  | .argTypes => do return { a with argTypes := ← setOnce option a.argTypes value }
  | .callee => .ok { a with externs := a.externs ++ [value] }
  | .indentSpaces =>
    match readCount? value with
    | none => .error (.badNumber value)
    | some n => do return { a with indentSpaces := ← setOnce option a.indentSpaces n }
  | .output =>
    if value.isEmpty then .error .emptyName
    else do return { a with output := ← setOnce option a.output value }

/-- Name the input file. -/
def setInput (a : Arguments) (word : String) : Except UsageFault Arguments :=
  if a.input.isSome then .error (.extraInput word)
  else if word.isEmpty then .error .emptyName
  else .ok { a with input := some word }

/-- Name the input file by words that are no options. -/
def setInputs (a : Arguments) : List String → Except UsageFault Arguments
  | [] => .ok a
  | word :: words => do (← a.setInput word).setInputs words

end Arguments

/-- The options that begin with two dashes. -/
inductive LongOption where
  | value (option : ValueOption)
  | verbose
  | help

/-- The option of a given long name. -/
def longOption? (name : String) : Option LongOption :=
  if name = "--function" then some (.value .function)
  else if name = "--arg-types" then some (.value .argTypes)
  else if name = "--extern" then some (.value .callee)
  else if name = "--indent-spaces" then some (.value .indentSpaces)
  else if name = "--output" then some (.value .output)
  else if name = "--verbose" then some .verbose
  else if name = "--help" then some .help
  else none

/-- What a word is, by how it begins. -/
inductive Word where
  /-- The end of the options. -/
  | dashes
  /-- A long option, with a value behind an equals sign if there is one. -/
  | long (name : String) (value : Option String)
  /-- Short flags. -/
  | flags (letters : List Char)
  /-- Something else than an option. -/
  | plain

/-- What a word is. A dash on its own is no option. -/
def classify (word : String) : Word :=
  match word.toList with
  | ['-', '-'] => .dashes
  | '-' :: '-' :: cs =>
    let name := String.ofList ('-' :: '-' :: cs.takeWhile (· != '='))
    match cs.dropWhile (· != '=') with
    | [] => .long name none
    | _ :: value => .long name (some (String.ofList value))
  | '-' :: c :: cs => .flags (c :: cs)
  | _ => .plain

/-- What a row of short flags comes to. -/
inductive FlagsResult where
  /-- All of them are set. -/
  | done (a : Arguments)
  /-- The last one waits for the next word. -/
  | waiting (a : Arguments) (option : ValueOption)
  /-- Help is asked for. -/
  | help

/-- Set an option to the rest of its word, or let it wait for the next one. -/
def setRest (a : Arguments) (option : ValueOption) : List Char → Except UsageFault FlagsResult
  | [] => .ok (.waiting a option)
  | '=' :: value => do return .done (← a.set option (String.ofList value))
  | value => do return .done (← a.set option (String.ofList value))

/-- Set the short flags of a word. -/
def readFlags (a : Arguments) : List Char → Except UsageFault FlagsResult
  | [] => .ok (.done a)
  | 'v' :: cs => readFlags { a with verbosity := a.verbosity + 1 } cs
  | 'f' :: cs => setRest a .function cs
  | 'o' :: cs => setRest a .output cs
  | 'h' :: _ => .ok .help
  | c :: _ => .error (.unknownOption (String.ofList ['-', c]))

/-- May a word be the value of the option in front of it? -/
def isValue (word : String) : Bool :=
  match classify word with
  | .plain => true
  | _ => false

/-- Read the words of a command line. There is no answer if help is asked for. -/
def readWords (a : Arguments) : List String → Except UsageFault (Option Arguments)
  | [] => .ok (some a)
  | word :: words =>
    match classify word with
    | .dashes => do return some (← a.setInputs words)
    | .plain => do readWords (← a.setInput word) words
    | .long name value =>
      match longOption? name, value with
      | none, _ => .error (.unknownOption name)
      | some .help, none => .ok none
      | some .verbose, none => readWords { a with verbosity := a.verbosity + 1 } words
      | some .help, some _ => .error (.unexpectedValue name)
      | some .verbose, some _ => .error (.unexpectedValue name)
      | some (.value option), some value => do readWords (← a.set option value) words
      | some (.value option), none =>
        match words with
        | next :: words =>
          if isValue next then do readWords (← a.set option next) words
          else .error (.missingValue name)
        | [] => .error (.missingValue name)
    | .flags letters => do
      match ← readFlags a letters with
      | .help => return none
      | .done a => readWords a words
      | .waiting a option =>
        match words with
        | next :: words =>
          if isValue next then readWords (← a.set option next) words
          else throw (.missingValue option.name)
        | [] => throw (.missingValue option.name)

/-- A request on the command line. -/
inductive Request where
  /-- To tell how the program is used. -/
  | help
  /-- To work on an input file. -/
  | work (input : String) (arguments : Arguments)

/-- Read a command line. -/
def Request.read (words : List String) : Except UsageFault Request := do
  match ← readWords {} words with
  | none => return .help
  | some a =>
    match a.input with
    | none => throw .missingInput
    | some input => return .work input a

end DefToC.Cli
