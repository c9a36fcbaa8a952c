import DefToC.Syntax.ExprParser

/-!
# Reading statements

Conditionals, loops and results begin with a word of their own; every other statement begins with an
expression, and the token behind it tells what it is. The statements of a block stand indented below
their header, or a single one stands on the same line.

## The model

What is assigned to is read as any expression and checked afterwards. So the error for a wrong
target comes behind the errors in the value, and tells the place of the target. In a chain of
assignments all expressions but the last one are targets. An update in place has one target, which
is checked at once.

A conditional, a loop and a function end where their block ends, so their spans go up to the token
behind that. A further condition is read by the reader of conditionals again, and its whole
conditional becomes the only statement of the second branch. A loop may have a second branch too. It
is read, though later it is refused.

## What is not modelled

There are no statements that do nothing, leave a loop or go on with it, raise or catch errors, bring
in names or declare other functions, and no sign stands between two statements on one line.
-/

namespace DefToC.Stmt

/-- Read the further targets of an assignment. Each equals sign makes the expression read
last a target. -/
def parseTargets (g : Grammar) (targets : List Expr) (value : Expr) (c : Cursor) :
    Reading (List Expr × Expr) (c.size + 1) :=
  if c.kind = .assignment then .weaken do
    let ⟨_, c₁, h₁⟩ ← c.shift
    let ⟨next, c₂, h₂⟩ ← (Expr.parse g .default c₁).below h₁
    let ⟨result, c₃, h₃⟩ ← (parseTargets g (targets ++ [value]) next c₂).within h₂
    return ⟨result, c₃, h₃⟩
  else .here c (targets, value)
termination_by c.size

/-- Read what follows the first expression of a statement that began at `first`. -/
def parseTail (g : Grammar) (first : Span) (e : Expr) (c : Cursor) : Reading Stmt (c.size + 1) :=
  if c.kind = .assignment then do
    let ⟨(targets, value), c₁, h₁⟩ ← parseTargets g [] e c
    match targets.find? (!·.isAssignable) with
    | some target =>
      .error ⟨⟨.unexpectedTokenDetailed "=" "only names and subscripts can be assigned to",
        target.span.position⟩, c₁⟩
    | none => return ⟨assign targets value (first.through value.span), c₁, h₁⟩
  else
    match Operator.ofAugmented? c.kind with
    | none => .here c (expression e e.span)
    | some op =>
      if e.isAssignable then .weaken do
        let ⟨_, c₁, h₁⟩ ← c.shift
        let ⟨value, c₂, h₂⟩ ← (Expr.parse g .default c₁).below h₁
        return ⟨augAssign e op value (first.through value.span), c₂, h₂⟩
      else .error (c.unexpectedDetailed "only names and subscripts can be updated in place")

/-- Read a statement that begins with an expression. -/
def parseSimple (g : Grammar) (c : Cursor) : Reading Stmt c.size := do
  let ⟨e, c₁, h₁⟩ ← Expr.parse g .default c
  let ⟨stmt, c₂, h₂⟩ ← (parseTail g c.current.span e c₁).within h₁
  let ⟨_, c₃, h₃⟩ ← (c₂.take .newline).below h₂
  return ⟨stmt, c₃, h₃⟩

/-- Read a result. -/
def parseReturn (g : Grammar) (c : Cursor) : Reading Stmt c.size := do
  let ⟨token, c₁, h₁⟩ ← c.shift
  if c₁.kind = .newline then
    let ⟨_, c₂, h₂⟩ ← (c₁.take .newline).below h₁
    return ⟨ret none token.span, c₂, h₂⟩
  else
    let ⟨value, c₂, h₂⟩ ← (Expr.parse g .default c₁).below h₁
    let ⟨_, c₃, h₃⟩ ← (c₂.take .newline).below h₂
    return ⟨ret (some value) (token.span.through value.span), c₃, h₃⟩

mutual

/-- Read a statement. -/
def parse (g : Grammar) (c : Cursor) : Reading Stmt c.size :=
  match g.stmtForm c.kind with
  | some .ifThen => parseIf g c
  | some .whileLoop => parseWhile g c
  | some .ret => parseReturn g c
  | none => parseSimple g c
termination_by 4 * c.size + 1

/-- Read the statements behind a header, from its colon on. -/
def parseSuite (g : Grammar) (c : Cursor) : Reading (List Stmt) c.size := do
  let ⟨_, c₁, h₁⟩ ← c.take .colon
  if c₁.kind = .newline then
    let ⟨_, c₂, h₂⟩ ← c₁.shift.below h₁
    let ⟨_, c₃, h₃⟩ ← (c₂.take .indent).below h₂
    let ⟨stmts, c₄, h₄⟩ ← (parseBlock g c₃).within h₃
    let ⟨_, c₅, h₅⟩ ← (c₄.take .dedent).below h₄
    return ⟨stmts, c₅, h₅⟩
  else
    let ⟨stmt, c₂, h₂⟩ ← (parse g c₁).below h₁
    return ⟨[stmt], c₂, h₂⟩
termination_by 4 * c.size

/-- Read the statements of an indented block up to its end. -/
def parseBlock (g : Grammar) (c : Cursor) : Reading (List Stmt) (c.size + 1) :=
  if c.kind = .dedent then .here c []
  else if c.hasTokens then .weaken do
    let ⟨stmt, c₁, h₁⟩ ← parse g c
    let ⟨stmts, c₂, h₂⟩ ← (parseBlock g c₁).within h₁
    return ⟨stmt :: stmts, c₂, h₂⟩
  else .error (c.unexpectedDetailed "expected the end of the block")
termination_by 4 * c.size + 2

/-- Read the second branch of a conditional or a loop, if there is one. -/
def parseElse (g : Grammar) (c : Cursor) : Reading (List Stmt) (c.size + 1) :=
  if c.kind = .elseWord then .weaken do
    let ⟨_, c₁, h₁⟩ ← c.shift
    let ⟨stmts, c₂, h₂⟩ ← (parseSuite g c₁).below h₁
    return ⟨stmts, c₂, h₂⟩
  else .here c []
termination_by 4 * c.size

/-- Read a conditional. A further condition is read as a conditional of its own that makes
up the second branch. -/
def parseIf (g : Grammar) (c : Cursor) : Reading Stmt c.size := do
  let ⟨token, c₁, h₁⟩ ← c.shift
  let ⟨test, c₂, h₂⟩ ← (Expr.parse g .default c₁).below h₁
  let ⟨body, c₃, h₃⟩ ← (parseSuite g c₂).below h₂
  if c₃.kind = .elifWord then
    let ⟨next, c₄, h₄⟩ ← (parseIf g c₃).below h₃
    return ⟨ifThen test body [next] (token.span.upTo c₄.current.span), c₄, h₄⟩
  else
    let ⟨orelse, c₄, h₄⟩ ← (parseElse g c₃).within h₃
    return ⟨ifThen test body orelse (token.span.upTo c₄.current.span), c₄, h₄⟩
termination_by 4 * c.size

/-- Read a loop. -/
def parseWhile (g : Grammar) (c : Cursor) : Reading Stmt c.size := do
  let ⟨token, c₁, h₁⟩ ← c.shift
  let ⟨test, c₂, h₂⟩ ← (Expr.parse g .default c₁).below h₁
  let ⟨body, c₃, h₃⟩ ← (parseSuite g c₂).below h₂
  let ⟨orelse, c₄, h₄⟩ ← (parseElse g c₃).within h₃
  return ⟨whileLoop test body orelse (token.span.upTo c₄.current.span), c₄, h₄⟩
termination_by 4 * c.size

end

end DefToC.Stmt
