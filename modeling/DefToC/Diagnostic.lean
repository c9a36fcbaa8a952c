import DefToC.Error
import DefToC.Source.Line

/-!
# Diagnostics

An error shown against its source: the cause, the file, the line at fault without its indentation,
and a caret under the place on that line.

## The model

The line at fault is looked up by the place of the error. It is shown without the white space at its
two ends, behind its number. The caret stands on the next line behind dashes. Their number is the
byte column of the place less the spaces and tabs at the start of the line.

The shown line loses all white space in front, but the caret goes back by the spaces and tabs only.
So it does not stand under the place in every line; `caret_column` says exactly when it does.

## What is not modelled

There are no colours, and the shown line is never cut off. One error is shown at a time. A tab
inside the line is shown as it is, so where a tab takes up more than one column the caret is too far
left.
-/

namespace DefToC

/-- The characters that indent a shown line. -/
def isMargin (c : Char) : Bool := c == ' ' || c == '\t'

namespace Error

/-- The first line of a diagnostic. -/
def headline (e : Error) : String :=
  match e.cause.tip with
  | none => "Error: " ++ e.cause.name
  | some tip => "Error: " ++ e.cause.name ++ " (" ++ tip ++ ")"

/-- The lines of the diagnostic of an error in a source text. The caret stands as many
bytes behind the first shown character as the place of the error. -/
def diagnosticLines (e : Error) (source : String) : List String :=
  let place := locate source e.position.offset
  let number := toString place.number
  let margin := place.text.takeWhile isMargin
  let bar := ['|'].leftpad (number.length + 2) ' '
  let caret := ['^'].leftpad (place.column - margin.length + 1) '-'
  [ e.headline,
    "-> " ++ e.position.file,
    String.ofList bar,
    number ++ " | " ++ String.ofList (trim (place.text.dropWhile isMargin)),
    String.ofList (bar ++ [' '] ++ caret) ]

/-- The diagnostic of an error in a source text. -/
def diagnostic (e : Error) (source : String) : String :=
  String.join ((e.diagnosticLines source).map (· ++ "\n"))

end Error

end DefToC
