import DefToC.Proofs.Syntax.Readings
import DefToC.Syntax.Tree

/-!
# Printing syntax trees

A tree is printed as a row of lexemes: what a token has to be, its text only where the text
matters. Blocks stand indented below their header. Operators have levels

    or < and < not < comparisons < + - < * / // % < unary + - < calls and subscripts

and a part of an expression is put in parentheses only if its level is lower than its position
asks for.
-/

namespace DefToC

/-- What a token has to be. -/
inductive Lexeme where
  /-- A token of a kind, whatever its text. -/
  | mark (kind : TokenKind)
  /-- A name. -/
  | name (id : String)
  /-- A number with its text. -/
  | number (text : String)

/-- The token is what the lexeme says. -/
def Token.Is (t : Token) : Lexeme → Prop
  | .mark kind => t.kind = kind
  | .name id => t.kind = .identifier ∧ t.value = id
  | .number text => t.kind = .number ∧ t.value = text

/-- A token that is what the lexeme says, at no place of a text. -/
def Lexeme.token : Lexeme → Token
  | mark kind => ⟨kind, "", .nowhere⟩
  | name id => ⟨.identifier, id, .nowhere⟩
  | number text => ⟨.number, text, .nowhere⟩

theorem Lexeme.token_is (x : Lexeme) : x.token.Is x := by
  cases x with
  | mark kind => rfl
  | name id => exact ⟨rfl, rfl⟩
  | number text => exact ⟨rfl, rfl⟩

/-- Rows of lexemes one after another, with a lexeme in front of every row but the first. -/
def separated (separator : Lexeme) : List (List Lexeme) → List Lexeme
  | [] => []
  | xs :: rows => xs ++ rows.flatMap (separator :: ·)

/-- The token that an operator is written as. -/
def Operator.mark : Operator → TokenKind
  | add | plus => .plus
  | sub | minus => .dash
  | mult => .star
  | div => .slash
  | floorDiv => .slashSlash
  | mod => .percent
  | eq => .equals
  | notEq => .notEquals
  | lt => .less
  | ltE => .lessEquals
  | gt => .greater
  | gtE => .greaterEquals
  | not => .notWord
  | and => .andWord
  | or => .orWord

/-- The token that applies an operator in place. -/
def Operator.inPlaceMark : Operator → TokenKind
  | add => .plusEquals
  | sub => .minusEquals
  | mult => .starEquals
  | div => .slashEquals
  | floorDiv => .slashSlashEquals
  | _ => .percentEquals

namespace Expr

/-- The level of an operator between two operands. -/
def infixLevel : Operator → Nat
  | .or => 1
  | .and => 2
  | .add | .sub => 5
  | .mult | .div | .floorDiv | .mod => 6
  | _ => 4

/-- The level of an operator in front of its operand. -/
def prefixLevel : Operator → Nat
  | .not => 3
  | _ => 7

/-- The level of an expression: that of its outermost operator. -/
def level : Expr → Nat
  | boolOp op _ _ => infixLevel op
  | compare _ _ _ _ => 4
  | binary _ op _ _ => infixLevel op
  | unary op _ _ => prefixLevel op
  | subscript _ _ _ | call _ _ _ => 8
  | name _ _ | constant _ _ | list _ _ => 9

/-- The row of an expression of the given level in a position that asks for `min`. -/
def wrap (min level : Nat) (xs : List Lexeme) : List Lexeme :=
  if level < min then .mark .openParen :: xs ++ [.mark .closeParen] else xs

/-- The lexeme of a constant. -/
def literal : Literal → Lexeme
  | .bool b => .mark (if b then .trueWord else .falseWord)
  | .int n => .number (toString n)
  | .float x => .number x.text

mutual

/-- Print an expression. The operands of a comparison and of a boolean operator are of a
higher level than the operator, the left operand of an arithmetic operator and the operand of a
prefix operator may be of the same level. -/
def print : Expr → List Lexeme
  | name id _ => [.name id]
  | constant value _ => [literal value]
  | list elements _ =>
    .mark .openBracket :: separated (.mark .comma) (printAll 1 elements) ++ [.mark .closeBracket]
  | compare left ops comparators _ =>
    wrap 5 left.level left.print ++
      (List.zipWith (fun op xs => .mark op.mark :: xs) ops (printAll 5 comparators)).flatten
  | binary left op right _ =>
    wrap (infixLevel op) left.level left.print ++
      .mark op.mark :: wrap (infixLevel op + 1) right.level right.print
  | unary op operand _ =>
    .mark op.mark :: wrap (prefixLevel op) operand.level operand.print
  | boolOp op values _ => separated (.mark op.mark) (printAll (infixLevel op + 1) values)
  | subscript value slice _ =>
    wrap 8 value.level value.print ++ .mark .openBracket :: slice.print ++ [.mark .closeBracket]
  | call callee arguments _ =>
    .name callee :: .mark .openParen :: separated (.mark .comma) (printAll 1 arguments) ++
      [.mark .closeParen]

/-- Print expressions in positions that ask for `min`. -/
def printAll (min : Nat) : List Expr → List (List Lexeme)
  | [] => []
  | e :: es => wrap min e.level e.print :: printAll min es

end

/-- Print an expression in a position that asks for `min`. -/
def printAt (min : Nat) (e : Expr) : List Lexeme := wrap min e.level e.print

@[simp] theorem printAll_eq_map (min : Nat) (es : List Expr) :
    printAll min es = es.map (printAt min) := by
  induction es with
  | nil => rfl
  | cons e es ih => rw [printAll, ih, List.map_cons, printAt]

end Expr

namespace TypeExpr

mutual

/-- Print a type. -/
def print : TypeExpr → List Lexeme
  | name id _ => [.name id]
  | applied base arguments _ =>
    base.print ++ .mark .openBracket :: separated (.mark .comma) (printAll arguments) ++
      [.mark .closeBracket]

/-- Print types. -/
def printAll : List TypeExpr → List (List Lexeme)
  | [] => []
  | a :: as => a.print :: printAll as

end

@[simp] theorem printAll_eq_map (as : List TypeExpr) : printAll as = as.map print := by
  induction as with
  | nil => rfl
  | cons a as ih => rw [printAll, ih, List.map_cons]

end TypeExpr

namespace Stmt

/-- Print a block below its header, from the colon on. -/
def suite (body : List Lexeme) : List Lexeme :=
  [.mark .colon, .mark .newline, .mark .indent] ++ body ++ [.mark .dedent]

/-- Print a second branch, if there is one. -/
def otherwise (isEmpty : Bool) (body : List Lexeme) : List Lexeme :=
  if isEmpty then [] else .mark .elseWord :: suite body

mutual

/-- Print a statement. -/
def print : Stmt → List Lexeme
  | assign targets value _ =>
    targets.flatMap (fun e => e.print ++ [.mark .assignment]) ++ value.print ++ [.mark .newline]
  | augAssign target op value _ =>
    target.print ++ .mark op.inPlaceMark :: value.print ++ [.mark .newline]
  | ifThen test body orelse _ =>
    .mark .ifWord :: test.print ++ suite (printAll body) ++
      otherwise orelse.isEmpty (printAll orelse)
  | whileLoop test body orelse _ =>
    .mark .whileWord :: test.print ++ suite (printAll body) ++
      otherwise orelse.isEmpty (printAll orelse)
  | ret none _ => [.mark .returnWord, .mark .newline]
  | ret (some e) _ => .mark .returnWord :: e.print ++ [.mark .newline]
  | expression e _ => e.print ++ [.mark .newline]

/-- Print statements one below the other. -/
def printAll : List Stmt → List Lexeme
  | [] => []
  | s :: ss => s.print ++ printAll ss

end

end Stmt

/-- Print a parameter. -/
def Param.print (p : Param) : List Lexeme :=
  .name p.name :: p.type.elim [] fun type => .mark .colon :: type.print

/-- Print a function. -/
def FunctionDef.print (f : FunctionDef) : List Lexeme :=
  .mark .defWord :: .name f.name :: .mark .openParen ::
    separated (.mark .comma) (f.params.map Param.print) ++ .mark .closeParen ::
    (f.returns.elim [] fun type => .mark .arrow :: type.print) ++ Stmt.suite (Stmt.printAll f.body)

/-- Print a program, with the end mark behind it. -/
def Program.print (p : Program) : List Lexeme :=
  p.functions.flatMap FunctionDef.print ++ [.mark .eof]

end DefToC
