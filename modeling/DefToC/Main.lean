import DefToC.Cli.Run

/-!
# The command line

The program against the real files: it reads the input, writes the output and the notes, and ends
with the exit status of its run.

This is the only module that acts on the world, and there is nothing in it to be decided: what to do
is computed by `Cli.run`, which takes the system as an argument. The host here gives it the bytes of
files, writes texts to files and reads a clock. The errors of the system are turned into the faults
that the program knows, and every other one is told in the system's own words.

A fault of the command line is told on the standard error, with the status 2. Help goes to the
standard output.

## What is not modelled

Nothing is proved of this module. A file is read and written as a whole; that another program may
change it meanwhile is left to the system.
-/

namespace DefToC.Cli

/-- How the program is used. -/
def usageText : String :=
  "Usage: transpiler [OPTIONS] <INPUT>\n\n" ++
  "Writes a typed function of a source file as a C-like function.\n\n" ++
  "  -f, --function <NAME>     the function to write out (otherwise the first one)\n" ++
  "      --arg-types <TYPES>   the types of the parameters\n" ++
  "      --extern <NAME:TYPE>  a function that may be called, and its result (repeatable)\n" ++
  "      --indent-spaces <N>   indent with so many spaces instead of tabs\n" ++
  "  -o, --output <FILE>       the output file (otherwise the standard output)\n" ++
  "  -v, --verbose             show more notes (repeatable)\n" ++
  "  -h, --help                show this text\n"

/-- The fault that an error of the system tells of. The number of an error comes with either
sign. -/
def faultOf : IO.Error → FileFault
  | .noFileOrDirectory _ _ _ => .notFound
  | .invalidArgument _ code details =>
    if code = 36 ∨ code = -36 then .nameTooLong else .other details
  | .inappropriateType _ code _ => if code = 20 ∨ code = -20 then .notDirectory else .isDirectory
  | e => .other (toString e)

/-- A number of nanoseconds as text. -/
def durationText (nanos : Nat) : String :=
  if nanos < 1000 then toString nanos ++ "ns"
  else if nanos < 1000000 then toString (nanos / 1000) ++ "µs"
  else toString (nanos / 1000000) ++ "ms"

/-- The system that the program runs on. -/
def systemHost : Host IO where
  read path := do
    try return .ok (← IO.FS.readBinFile path)
    catch e => return .error (faultOf e)
  write path text := do
    try
      IO.FS.writeFile path text
      return .ok ()
    catch e => return .error (faultOf e)
  clock := IO.monoNanosNow
  elapsed start := do return durationText ((← IO.monoNanosNow) - start)

end DefToC.Cli

/-- Run the program. -/
def main (words : List String) : IO UInt32 := do
  match ← DefToC.Cli.run DefToC.Cli.systemHost words with
  | .usage fault =>
    IO.eprintln ("error: " ++ fault.message)
    return 2
  | .help =>
    IO.print DefToC.Cli.usageText
    return 0
  | .done outcome =>
    IO.eprint outcome.errors
    IO.print outcome.output
    return outcome.status.toUInt32
