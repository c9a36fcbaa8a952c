import DefToC.Typed.Stmt

/-!
# The type of a result

All results of a function have one type. The first one that is met fixes it, and every later one is
compared with it.

## The model

The typed body is walked in order, with what has been fixed so far. A result inside a conditional or
a loop counts like any other, so the walk goes into blocks and takes what it has fixed with it. A
function without any result gives nothing back, and so does one whose results all have no value.

The first result that differs is the error, with its own place and both spellings. That the walk
finds the same as a search through all results in a row is proved in `Proofs.Function.ReturnTypes`.

## What is not modelled

It is not asked whether a function can come to its end without a result, and a result behind which
no statement can be reached counts like the others.
-/

namespace DefToC.TypedStmt

/-- Compare a result with the one already fixed, or fix it. -/
def unifyReturn (unified : Option ReturnType) (returns : ReturnType) (span : Span) :
    Traced Error (Option ReturnType) :=
  match unified with
  | none => do
    Traced.note (.returnFixed returns)
    return some returns
  | some expected =>
    if expected = returns then pure unified
    else .ofExcept (.error ⟨.inconsistentReturnType expected.spelling returns.spelling,
      span.position⟩)

mutual

/-- Unify the results of a statement with the one already fixed. -/
def unify (unified : Option ReturnType) : TypedStmt → Traced Error (Option ReturnType)
  | ret _ returns span => unifyReturn unified returns span
  | ifThen _ body _ => unifyAll unified body
  | whileLoop _ body _ => unifyAll unified body
  | _ => pure unified

/-- Unify the results of the statements of a block in order. -/
def unifyAll (unified : Option ReturnType) : List TypedStmt → Traced Error (Option ReturnType)
  | [] => pure unified
  | s :: ss => do
    let unified ← unify unified s
    unifyAll unified ss

end

end DefToC.TypedStmt
