import DefToC.Source.Position

/-!
# Tokens

The words of the source language. Beside the words that are written, a line end, the start of a
deeper block, the end of a block and the end of the text are tokens too.

A token has a kind, a text and a span. The text is what stands in the source, with four exceptions:
a line end has the text of its escape, one that closes the last line has none, the start and the end
of a block have none, and the end of the text has a word of its own. These are also the only kinds
that tell of the layout (`TokenKind.isLayout`) or of the end.

A word that is reserved has a kind of its own, any other word is a name. Messages show a token by
the name of its kind, and a name or a number with its text behind that.

## What is not modelled

Comments and white space are no tokens, so a row of tokens does not determine the text that it was
cut from. What it does determine is said in `Proofs.Token.Spacing`.
-/

namespace DefToC

/-- The kinds of tokens. -/
inductive TokenKind where
  | eof
  | number
  | identifier
  | newline
  | indent
  | dedent
  | openBracket
  | closeBracket
  | openParen
  | closeParen
  | assignment
  | equals
  | notEquals
  | less
  | lessEquals
  | greater
  | greaterEquals
  | comma
  | colon
  | arrow
  | plusEquals
  | minusEquals
  | starEquals
  | slashEquals
  | slashSlashEquals
  | percentEquals
  | plus
  | dash
  | star
  | slash
  | slashSlash
  | percent
  | defWord
  | returnWord
  | ifWord
  | elifWord
  | elseWord
  | whileWord
  | andWord
  | orWord
  | notWord
  | trueWord
  | falseWord
  deriving DecidableEq

namespace TokenKind

/-- The name of a kind, as messages give it. -/
def name : TokenKind → String
  | eof => "EOF"
  | number => "Number"
  | identifier => "Identifier"
  | newline => "Newline"
  | indent => "Indent"
  | dedent => "Dedent"
  | openBracket => "OpenBracket"
  | closeBracket => "CloseBracket"
  | openParen => "OpenParen"
  | closeParen => "CloseParen"
  | assignment => "Assignment"
  | equals => "Equals"
  | notEquals => "NotEquals"
  | less => "Less"
  | lessEquals => "LessEquals"
  | greater => "Greater"
  | greaterEquals => "GreaterEquals"
  | comma => "Comma"
  | colon => "Colon"
  | arrow => "Arrow"
  | plusEquals => "PlusEquals"
  | minusEquals => "MinusEquals"
  | starEquals => "StarEquals"
  | slashEquals => "SlashEquals"
  | slashSlashEquals => "SlashSlashEquals"
  | percentEquals => "PercentEquals"
  | plus => "Plus"
  | dash => "Dash"
  | star => "Star"
  | slash => "Slash"
  | slashSlash => "SlashSlash"
  | percent => "Percent"
  | defWord => "Def"
  | returnWord => "Return"
  | ifWord => "If"
  | elifWord => "Elif"
  | elseWord => "Else"
  | whileWord => "While"
  | andWord => "And"
  | orWord => "Or"
  | notWord => "Not"
  | trueWord => "True"
  | falseWord => "False"

/-- All kinds of tokens. -/
def all : List TokenKind :=
  [eof, number, identifier, newline, indent, dedent, openBracket, closeBracket, openParen,
   closeParen, assignment, equals, notEquals, less, lessEquals, greater, greaterEquals, comma,
   colon, arrow, plusEquals, minusEquals, starEquals, slashEquals, slashSlashEquals,
   percentEquals, plus, dash, star, slash, slashSlash, percent, defWord, returnWord, ifWord,
   elifWord, elseWord, whileWord, andWord, orWord, notWord, trueWord, falseWord]

/-- The kind of a given name. -/
def ofName? (s : String) : Option TokenKind :=
  all.find? (·.name == s)

/-- The words that cannot be names, with their kinds. -/
def reserved : List (String × TokenKind) :=
  [("def", defWord), ("return", returnWord), ("if", ifWord), ("elif", elifWord),
   ("else", elseWord), ("while", whileWord), ("and", andWord), ("or", orWord), ("not", notWord),
   ("True", trueWord), ("False", falseWord)]

/-- The kind of a word: its own kind if it is reserved, otherwise a name. -/
def ofWord (word : String) : TokenKind :=
  (reserved.lookup word).getD identifier

/-- The kinds that only tell how lines are laid out. -/
def isLayout : TokenKind → Bool
  | newline | indent | dedent => true
  | _ => false

end TokenKind

/-- A token: its kind, its text and where it stands. -/
structure Token where
  /-- The kind of the token. -/
  kind : TokenKind
  /-- The text of the token. -/
  value : String
  /-- The stretch of source that it covers. -/
  span : Span
  deriving DecidableEq

/-- A token as messages show it: names and numbers with their text. -/
def Token.display (t : Token) : String :=
  match t.kind with
  | .identifier | .number => t.kind.name ++ " (" ++ t.value ++ ")"
  | _ => t.kind.name

end DefToC
