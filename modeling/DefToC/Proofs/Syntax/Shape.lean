import DefToC.Proofs.Syntax.Induction
import DefToC.Syntax.Tree

/-!
# The shape of syntax trees

Two trees are the same up to spans if they are equal once every span is forgotten (`bare`).
`Shaped P` describes the trees that have the form the grammar can give them: chains and runs are
long enough, every node has operators of its own kind, only names and subscripts are assigned
to, and every constant satisfies `P`.
-/

namespace DefToC

/-! ### Forgetting spans -/

mutual

/-- The type without places. -/
def TypeExpr.bare : TypeExpr → TypeExpr
  | .name id _ => .name id Span.nowhere.position
  | .applied base arguments _ => .applied base.bare (bareAll arguments) Span.nowhere.position

/-- The types without places. -/
def TypeExpr.bareAll : List TypeExpr → List TypeExpr
  | [] => []
  | a :: as => a.bare :: bareAll as

end

mutual

/-- The expression without spans. -/
def Expr.bare : Expr → Expr
  | .name id _ => .name id .nowhere
  | .constant value _ => .constant value .nowhere
  | .list elements _ => .list (bareAll elements) .nowhere
  | .compare left ops comparators _ => .compare left.bare ops (bareAll comparators) .nowhere
  | .binary left op right _ => .binary left.bare op right.bare .nowhere
  | .unary op operand _ => .unary op operand.bare .nowhere
  | .boolOp op values _ => .boolOp op (bareAll values) .nowhere
  | .subscript value slice _ => .subscript value.bare slice.bare .nowhere
  | .call callee arguments _ => .call callee (bareAll arguments) .nowhere

/-- The expressions without spans. -/
def Expr.bareAll : List Expr → List Expr
  | [] => []
  | e :: es => e.bare :: bareAll es

end

mutual

/-- The statement without spans. -/
def Stmt.bare : Stmt → Stmt
  | .assign targets value _ => .assign (Expr.bareAll targets) value.bare .nowhere
  | .augAssign target op value _ => .augAssign target.bare op value.bare .nowhere
  | .ifThen test body orelse _ => .ifThen test.bare (bareAll body) (bareAll orelse) .nowhere
  | .whileLoop test body orelse _ => .whileLoop test.bare (bareAll body) (bareAll orelse) .nowhere
  | .ret value _ => .ret (value.map Expr.bare) .nowhere
  | .expression e _ => .expression e.bare .nowhere

/-- The statements without spans. -/
def Stmt.bareAll : List Stmt → List Stmt
  | [] => []
  | s :: ss => s.bare :: bareAll ss

end

/-- The parameter without spans. -/
def Param.bare (p : Param) : Param := ⟨p.name, p.type.map TypeExpr.bare, .nowhere⟩

/-- The function without spans. -/
def FunctionDef.bare (f : FunctionDef) : FunctionDef :=
  ⟨f.name, f.params.map Param.bare, f.returns.map TypeExpr.bare, f.body.map Stmt.bare, .nowhere⟩

/-- The program without spans. -/
def Program.bare (p : Program) : Program := ⟨p.functions.map FunctionDef.bare⟩

@[simp] theorem TypeExpr.bareAll_eq_map (as : List TypeExpr) : bareAll as = as.map bare := by
  induction as with
  | nil => rfl
  | cons a as ih => rw [bareAll, ih, List.map_cons]

@[simp] theorem Expr.bareAll_eq_map (es : List Expr) : bareAll es = es.map bare := by
  induction es with
  | nil => rfl
  | cons e es ih => rw [bareAll, ih, List.map_cons]

@[simp] theorem Stmt.bareAll_eq_map (ss : List Stmt) : bareAll ss = ss.map bare := by
  induction ss with
  | nil => rfl
  | cons s ss ih => rw [bareAll, ih, List.map_cons]

/-- Spans do not matter for what may be assigned to. -/
theorem Expr.isAssignable_of_bare {e e' : Expr} (h : e'.bare = e.bare) :
    e'.isAssignable = e.isAssignable := by
  cases e <;> cases e' <;> simp_all [bare, isAssignable]

/-! ### Well-formed trees -/

/-- The expression is of the grammar's form, with constants in `P`. -/
inductive Expr.Shaped (P : Literal → Prop) : Expr → Prop where
  | name {id span} : Shaped P (.name id span)
  | constant {value span} : P value → Shaped P (.constant value span)
  | list {elements span} : (∀ e ∈ elements, Shaped P e) → Shaped P (.list elements span)
  /-- As many comparators as operators, and one at least. -/
  | compare {left ops comparators span} : ops ≠ [] → ops.length = comparators.length →
      (∀ op ∈ ops, op.family = .comparison) → Shaped P left →
      (∀ e ∈ comparators, Shaped P e) → Shaped P (.compare left ops comparators span)
  | binary {left op right span} : op.family = .arithmetic → Shaped P left → Shaped P right →
      Shaped P (.binary left op right span)
  | unary {op operand span} : op ∈ [.plus, .minus, .not] → Shaped P operand →
      Shaped P (.unary op operand span)
  /-- Two operands at least. -/
  | boolOp {op values span} : op ∈ [.and, .or] → 2 ≤ values.length →
      (∀ e ∈ values, Shaped P e) → Shaped P (.boolOp op values span)
  | subscript {value slice span} : Shaped P value → Shaped P slice →
      Shaped P (.subscript value slice span)
  | call {callee arguments span} : (∀ e ∈ arguments, Shaped P e) →
      Shaped P (.call callee arguments span)

/-- The statement is of the grammar's form, with constants in `P`. -/
inductive Stmt.Shaped (P : Literal → Prop) : Stmt → Prop where
  /-- One target at least, and every target a name or a subscript. -/
  | assign {targets value span} : targets ≠ [] → (∀ e ∈ targets, e.isAssignable) →
      (∀ e ∈ targets, e.Shaped P) → value.Shaped P → Shaped P (.assign targets value span)
  | augAssign {target op value span} : target.isAssignable → op.family = .arithmetic →
      target.Shaped P → value.Shaped P → Shaped P (.augAssign target op value span)
  | ifThen {test body orelse span} : test.Shaped P → (∀ s ∈ body, Shaped P s) →
      (∀ s ∈ orelse, Shaped P s) → Shaped P (.ifThen test body orelse span)
  | whileLoop {test body orelse span} : test.Shaped P → (∀ s ∈ body, Shaped P s) →
      (∀ s ∈ orelse, Shaped P s) → Shaped P (.whileLoop test body orelse span)
  | ret {value span} : (∀ e ∈ value, e.Shaped P) → Shaped P (.ret value span)
  | expression {e span} : e.Shaped P → Shaped P (.expression e span)

/-- All statements of all functions are of the grammar's form, with constants in `P`. -/
def Program.Shaped (P : Literal → Prop) (p : Program) : Prop :=
  ∀ f ∈ p.functions, ∀ s ∈ f.body, s.Shaped P

end DefToC
