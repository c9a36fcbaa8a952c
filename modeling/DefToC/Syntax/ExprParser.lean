import DefToC.Syntax.Cursor
import DefToC.Syntax.Grammar
import DefToC.Syntax.Tree

/-!
# Reading expressions

An expression is read by precedence climbing: a form that begins an expression, then forms that
continue it as long as their token binds more strongly than the power asked for. Every reader leaves
fewer tokens than it found, or it fails.

## The model

The readers call each other. Every call is on fewer tokens, or on as many in a fixed order of the
readers, and this is what the terminating measures count: four times the number of tokens, and up to
three more. The results carry the bound, so no reader has to look at what another one does.

A chain of comparisons is read by one reader to its end, and so is a run of one boolean operator;
the operand behind each of their tokens is read with the token's own power. Only a name can be
called. A comma may stand behind the last element of a list and the last argument of a call.

## What is not modelled

The depth to which expressions are nested has no bound here, and neither has the stack on which they
are read.
-/

namespace DefToC.Expr

/-- Read a number, a truth value or a name. -/
def parsePrimary (c : Cursor) : Reading Expr c.size :=
  match c.kind with
  | .number =>
    match Literal.ofNumber? c.current.value with
    | none => .error ⟨⟨.numberParseError c.current.value, c.current.span.position⟩, c⟩
    | some value => do
      let ⟨token, c₁, h₁⟩ ← c.shift
      return ⟨constant value token.span, c₁, h₁⟩
  | .trueWord => do
    let ⟨token, c₁, h₁⟩ ← c.shift
    return ⟨constant (.bool true) token.span, c₁, h₁⟩
  | .falseWord => do
    let ⟨token, c₁, h₁⟩ ← c.shift
    return ⟨constant (.bool false) token.span, c₁, h₁⟩
  | .identifier => do
    let ⟨token, c₁, h₁⟩ ← c.shift
    return ⟨name token.value token.span, c₁, h₁⟩
  | _ => .error c.unexpected

/-- How strongly an operator binds the operand behind it. -/
def operandPower : Operator → Power
  | .not => .logicalNot
  | _ => .unary

mutual

/-- Read an expression whose operators all bind more strongly than `power`. -/
def parse (g : Grammar) (power : Power) (c : Cursor) : Reading Expr c.size :=
  match g.prefixForm c.kind with
  | none => .error c.unexpected
  | some form => do
    let ⟨left, c₁, h₁⟩ ←
      match form with
      | .primary => parsePrimary c
      | .operator => parseOperator g c
      | .grouping => parseGrouping g c
      | .list => parseList g c
    let ⟨e, c₂, h₂⟩ ← (parseRest g power left c₁).within h₁
    return ⟨e, c₂, h₂⟩
termination_by 4 * c.size + 2

/-- Continue an expression as long as the next token binds more strongly than `power`. -/
def parseRest (g : Grammar) (power : Power) (left : Expr) (c : Cursor) :
    Reading Expr (c.size + 1) :=
  match g.infixForm c.kind with
  | none => .here c left
  | some (tokenPower, form) =>
    if tokenPower.rank ≤ power.rank then .here c left
    else .weaken do
      let ⟨left, c₁, h₁⟩ ←
        match form with
        | .binary => parseBinary g left tokenPower c
        | .compare => parseCompare g left tokenPower c
        | .boolOp => parseBoolOp g left tokenPower c
        | .call => parseCall g left c
        | .subscript => parseSubscript g left c
      let ⟨e, c₂, h₂⟩ ← (parseRest g power left c₁).within h₁
      return ⟨e, c₂, h₂⟩
termination_by 4 * c.size + 1

/-- Read an operator and the operand behind it. -/
def parseOperator (g : Grammar) (c : Cursor) : Reading Expr c.size := do
  let ⟨token, c₁, h₁⟩ ← c.shift
  match Operator.ofPrefix? token.kind with
  | none => .error ⟨⟨.unexpectedToken token.display, token.span.position⟩, c₁⟩
  | some op =>
    let ⟨operand, c₂, h₂⟩ ← (parse g (operandPower op) c₁).below h₁
    return ⟨unary op operand (token.span.through operand.span), c₂, h₂⟩
termination_by 4 * c.size

/-- Read an expression in parentheses. -/
def parseGrouping (g : Grammar) (c : Cursor) : Reading Expr c.size := do
  let ⟨_, c₁, h₁⟩ ← c.shift
  let ⟨e, c₂, h₂⟩ ← (parse g .default c₁).below h₁
  let ⟨_, c₃, h₃⟩ ← (c₂.take .closeParen).below h₂
  return ⟨e, c₃, h₃⟩
termination_by 4 * c.size

/-- Read expressions with commas between them up to a closing bracket. A comma may stand
behind the last one. -/
def parseItems (g : Grammar) (close : TokenKind) (c : Cursor) : Reading (List Expr) (c.size + 1) :=
  if c.kind = close then .here c []
  else .weaken do
    let ⟨item, c₁, h₁⟩ ← parse g .default c
    if c₁.kind = .comma then
      let ⟨_, c₂, h₂⟩ ← c₁.shift.below h₁
      let ⟨items, c₃, h₃⟩ ← (parseItems g close c₂).within h₂
      return ⟨item :: items, c₃, h₃⟩
    else if c₁.kind = close then return ⟨[item], c₁, h₁⟩
    else .error (c₁.unexpectedDetailed ("expected `,` or " ++ close.name))
termination_by 4 * c.size + 3

/-- Read a list in square brackets. -/
def parseList (g : Grammar) (c : Cursor) : Reading Expr c.size := do
  let ⟨first, c₁, h₁⟩ ← c.shift
  let ⟨elements, c₂, h₂⟩ ← (parseItems g .closeBracket c₁).within h₁
  let ⟨last, c₃, h₃⟩ ← (c₂.take .closeBracket).below h₂
  return ⟨list elements (first.span.through last.span), c₃, h₃⟩
termination_by 4 * c.size

/-- Read an operator and its right operand behind the left operand. -/
def parseBinary (g : Grammar) (left : Expr) (power : Power) (c : Cursor) : Reading Expr c.size := do
  let ⟨token, c₁, h₁⟩ ← c.shift
  match Operator.ofInfix? token.kind with
  | none => .error ⟨⟨.unexpectedToken token.display, token.span.position⟩, c₁⟩
  | some op =>
    let ⟨right, c₂, h₂⟩ ← (parse g power c₁).below h₁
    return ⟨binary left op right (left.span.through right.span), c₂, h₂⟩
termination_by 4 * c.size

/-- Read a chain of comparisons behind its first operand. -/
def parseCompare (g : Grammar) (left : Expr) (power : Power) (c : Cursor) : Reading Expr c.size :=
  match Operator.ofComparison? c.kind with
  | none => .error c.unexpected
  | some op => do
    let ⟨_, c₁, h₁⟩ ← c.shift
    let ⟨e, c₂, h₂⟩ ← (parse g power c₁).below h₁
    let ⟨(ops, es), c₃, h₃⟩ ← (parseComparisons g power c₂).within h₂
    let span := left.span.through (es.getLastD e).span
    return ⟨compare left (op :: ops) (e :: es) span, c₃, h₃⟩
termination_by 4 * c.size

/-- Read the further comparisons of a chain: their operators and their operands. -/
def parseComparisons (g : Grammar) (power : Power) (c : Cursor) :
    Reading (List Operator × List Expr) (c.size + 1) :=
  match Operator.ofComparison? c.kind with
  | none => .here c ([], [])
  | some op => .weaken do
    let ⟨_, c₁, h₁⟩ ← c.shift
    let ⟨e, c₂, h₂⟩ ← (parse g power c₁).below h₁
    let ⟨(ops, es), c₃, h₃⟩ ← (parseComparisons g power c₂).within h₂
    return ⟨(op :: ops, e :: es), c₃, h₃⟩
termination_by 4 * c.size

/-- Read a run of one boolean operator behind its first operand. -/
def parseBoolOp (g : Grammar) (left : Expr) (power : Power) (c : Cursor) : Reading Expr c.size :=
  match Operator.ofInfix? c.kind with
  | none => .error c.unexpected
  | some op => do
    let ⟨token, c₁, h₁⟩ ← c.shift
    let ⟨e, c₂, h₂⟩ ← (parse g power c₁).below h₁
    let ⟨es, c₃, h₃⟩ ← (parseOperands g token.kind power c₂).within h₂
    let span := left.span.through (es.getLastD e).span
    return ⟨boolOp op (left :: e :: es) span, c₃, h₃⟩
termination_by 4 * c.size

/-- Read the further operands of a run, each behind a token of the given kind. -/
def parseOperands (g : Grammar) (kind : TokenKind) (power : Power) (c : Cursor) :
    Reading (List Expr) (c.size + 1) :=
  if c.kind = kind then .weaken do
    let ⟨_, c₁, h₁⟩ ← c.shift
    let ⟨e, c₂, h₂⟩ ← (parse g power c₁).below h₁
    let ⟨es, c₃, h₃⟩ ← (parseOperands g kind power c₂).within h₂
    return ⟨e :: es, c₃, h₃⟩
  else .here c []
termination_by 4 * c.size

/-- Read the arguments of a call behind the name of the function. -/
def parseCall (g : Grammar) (left : Expr) (c : Cursor) : Reading Expr c.size :=
  match left with
  | name callee span => do
    let ⟨_, c₁, h₁⟩ ← c.shift
    let ⟨arguments, c₂, h₂⟩ ← (parseItems g .closeParen c₁).within h₁
    let ⟨last, c₃, h₃⟩ ← (c₂.take .closeParen).below h₂
    return ⟨call callee arguments (span.through last.span), c₃, h₃⟩
  | _ => .error (c.unexpectedDetailed "only named functions can be called")
termination_by 4 * c.size

/-- Read an index in square brackets behind the list. -/
def parseSubscript (g : Grammar) (left : Expr) (c : Cursor) : Reading Expr c.size := do
  let ⟨_, c₁, h₁⟩ ← c.shift
  let ⟨slice, c₂, h₂⟩ ← (parse g .default c₁).below h₁
  let ⟨last, c₃, h₃⟩ ← (c₂.take .closeBracket).below h₂
  return ⟨subscript left slice (left.span.through last.span), c₃, h₃⟩
termination_by 4 * c.size

end

end DefToC.Expr
