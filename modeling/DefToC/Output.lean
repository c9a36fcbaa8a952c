import DefToC.Text.Quoted

/-!
# Lines of output

The output is a row of lines, each a number of levels deep. A statement gives either one line, or a
header and a closing line around the lines of its block.

## The model

A line is kept with its depth and without its indentation. The indentation is only written when the
line is (`OutputLine.render`), as so many tabs or so many times a number of spaces. So nothing else
depends on how lines are indented, and a text with spaces differs from one with tabs in nothing but
its indentation.

The lines of a block stand one level deeper than the lines around them. The two outermost lines, the
signature and the closing brace of a function, have no depth.

## What is not modelled

Lines are never broken and never empty, and no comment is written. Every line ends in a line feed,
the last one too.
-/

namespace DefToC

/-- How one level of depth is written. -/
inductive IndentStyle where
  /-- As a tab. -/
  | tab
  /-- As so many spaces. -/
  | spaces (count : Nat)
  deriving DecidableEq

/-- The text of one level of depth. -/
def IndentStyle.unit : IndentStyle → List Char
  | tab => ['\t']
  | spaces count => List.replicate count ' '

/-- A line of output. -/
structure OutputLine where
  /-- How many levels deep the line stands. -/
  depth : Nat
  /-- The line without its indentation. -/
  text : String
  deriving DecidableEq

/-- A line with its indentation and its line end. -/
def OutputLine.render (style : IndentStyle) (line : OutputLine) : String :=
  String.ofList (List.replicate line.depth style.unit).flatten ++ line.text ++ "\n"

/-- The text of a statement without the statements inside it. -/
inductive StmtText where
  /-- One line. -/
  | line (text : String)
  /-- The lines around a block. -/
  | block (header tail : String)
  deriving DecidableEq

/-- A statement's text as the journal shows it. -/
def StmtText.show : StmtText → String
  | line text => "Line(" ++ quoted text ++ ")"
  | block header tail =>
    "Block \x7b header: " ++ quoted header ++ ", tail: " ++ quoted tail ++ " \x7d"

end DefToC
