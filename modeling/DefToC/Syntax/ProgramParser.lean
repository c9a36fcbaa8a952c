import DefToC.Journal
import DefToC.Syntax.TypeExprParser
import DefToC.Syntax.StmtParser
import DefToC.Source.Line
import DefToC.Token.Scan

/-!
# Reading functions

A source text is a row of functions. A function has a name, parameters with or without types,
perhaps the type of its result, and a block of statements.

## The model

Functions are read one after another up to the end mark, and empty lines between them do not count.
Anything else between functions is an error. The first error ends the reading, so one function that
is wrong hides all that follow, and also those in front of it: they have been read and noted, but
they are not given.

`TypeExpr.readAll` reads a list of types from a text of its own, under a file name of its own. White
space around this text does not count, and line ends may stand behind a type.

## What is not modelled

Two functions may have the same name. A function inside a function, one with a decorator, a
parameter with a default and a statement outside all functions are errors.
-/

namespace DefToC

/-- The tokens of a source text, with a note of their number. -/
def scanSource (file source : String) : Traced Error (List Token) := do
  let tokens ← .ofExcept (tokenize file source)
  .note (.tokenized file tokens.length)
  return tokens

/-- Read a parameter. -/
def Param.parse (g : Grammar) (c : Cursor) : Reading Param c.size := do
  let ⟨token, c₁, h₁⟩ ← c.takeOr .identifier "expected a parameter name"
  if c₁.kind = .colon then
    let ⟨_, c₂, h₂⟩ ← c₁.shift.below h₁
    let ⟨type, c₃, h₃⟩ ← (TypeExpr.parse g .default c₂).below h₂
    return ⟨⟨token.value, some type, token.span.upTo c₃.current.span⟩, c₃, h₃⟩
  else return ⟨⟨token.value, none, token.span.upTo c₁.current.span⟩, c₁, h₁⟩

/-- Read parameters with commas between them up to a closing parenthesis. A comma may stand
behind the last one. -/
def Param.parseAll (g : Grammar) (c : Cursor) : Reading (List Param) (c.size + 1) :=
  if c.kind = .closeParen then .here c []
  else .weaken do
    let ⟨param, c₁, h₁⟩ ← Param.parse g c
    if c₁.kind = .comma then
      let ⟨_, c₂, h₂⟩ ← c₁.shift.below h₁
      let ⟨params, c₃, h₃⟩ ← (Param.parseAll g c₂).within h₂
      return ⟨param :: params, c₃, h₃⟩
    else if c₁.kind = .closeParen then return ⟨[param], c₁, h₁⟩
    else .error (c₁.unexpectedDetailed "expected `,` or `)` after a parameter")
termination_by c.size

namespace FunctionDef

/-- Read the type of a result, if one is written. -/
def parseReturns (g : Grammar) (c : Cursor) : Reading (Option TypeExpr) (c.size + 1) :=
  if c.kind = .arrow then .weaken do
    let ⟨_, c₁, h₁⟩ ← c.shift
    let ⟨type, c₂, h₂⟩ ← (TypeExpr.parse g .default c₁).below h₁
    return ⟨some type, c₂, h₂⟩
  else .here c none

/-- Read a function. -/
def parse (g : Grammar) (c : Cursor) : Reading FunctionDef c.size := do
  let ⟨first, c₁, h₁⟩ ← c.take .defWord
  let ⟨name, c₂, h₂⟩ ← (c₁.takeOr .identifier "expected a function name").below h₁
  let ⟨_, c₃, h₃⟩ ← (c₂.take .openParen).below h₂
  let ⟨params, c₄, h₄⟩ ← (Param.parseAll g c₃).within h₃
  let ⟨_, c₅, h₅⟩ ← (c₄.take .closeParen).below h₄
  let ⟨returns, c₆, h₆⟩ ← (parseReturns g c₅).within h₅
  let ⟨body, c₇, h₇⟩ ← (Stmt.parseSuite g c₆).below h₆
  let span := first.span.upTo c₇.current.span
  return ⟨⟨name.value, params, returns, body, span⟩, c₇, h₇⟩

end FunctionDef

namespace Program

/-- Read the functions from a cursor on, up to an end mark. -/
def parseFunctions (g : Grammar) (c : Cursor) : Traced Error (List FunctionDef) :=
  if !c.skipNewlines.hasTokens then pure []
  else if c.skipNewlines.kind ≠ .defWord then
    .ofExcept (.error (c.skipNewlines.unexpectedDetailed "expected a function definition").error)
  else
    match FunctionDef.parse g c.skipNewlines with
    | .error failure => .ofExcept (.error failure.error)
    | .ok ⟨function, c₁, _⟩ => do
      have := c.skipNewlines_size_le
      Traced.note (.parsed function.name function.body.length)
      let functions ← parseFunctions g c₁
      return function :: functions
termination_by c.size

/-- The functions of a row of tokens. -/
def parse (file : String) (tokens : List Token) : Traced Error Program := do
  return ⟨← parseFunctions .standard (.ofTokens file tokens)⟩

end Program

namespace TypeExpr

/-- Read types with commas between them up to an end mark. Line ends may stand in front of
the first type and behind a type, and a comma behind the last one. -/
def parseList (g : Grammar) (c : Cursor) : Except Error (List TypeExpr) :=
  if c.hasTokens then
    match parse g .default c with
    | .error failure => .error failure.error
    | .ok ⟨type, c₁, _⟩ =>
      have := c₁.skipNewlines_size_le
      if h : c₁.kind = .comma then do
        have := Cursor.advance_size_lt (Cursor.pending_ne_nil h (by decide))
        return type :: (← parseList g c₁.advance)
      else if c₁.kind = .newline ∨ c₁.kind = .eof then do
        return type :: (← parseList g c₁.skipNewlines)
      else .error c₁.unexpected.error
  else .ok []
termination_by c.size

/-- The types of a text, which are separated by commas. White space around the text does
not count. -/
def readAll (source : String) : Traced Error (List TypeExpr) := do
  let file := "<types>"
  let tokens ← scanSource file (String.ofList (trim source.toList))
  .ofExcept (parseList .standard (Cursor.ofTokens file tokens).skipNewlines)

end TypeExpr

end DefToC
