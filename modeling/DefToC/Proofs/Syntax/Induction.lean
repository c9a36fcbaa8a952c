import DefToC.Syntax.Tree

/-!
# Induction on syntax trees

The trees have lists of trees below a node. The principles here give, for each such list, the
hypothesis for every member of it, so that a proof has one case per form and no second
induction over the lists.
-/

namespace DefToC

/-- Induction on types. -/
@[elab_as_elim, induction_eliminator]
theorem TypeExpr.induction {motive : TypeExpr → Prop}
    (name : ∀ id position, motive (.name id position))
    (applied : ∀ base arguments position, motive base → (∀ a ∈ arguments, motive a) →
      motive (.applied base arguments position)) (a : TypeExpr) : motive a := by
  refine @TypeExpr.rec motive (fun as => ∀ a ∈ as, motive a) name applied ?_ ?_ a
  · exact fun _ h => absurd h List.not_mem_nil
  · exact fun a as ha has => List.forall_mem_cons.2 ⟨ha, has⟩

/-- Induction on expressions. -/
@[elab_as_elim, induction_eliminator]
theorem Expr.induction {motive : Expr → Prop}
    (name : ∀ id span, motive (.name id span))
    (constant : ∀ value span, motive (.constant value span))
    (list : ∀ elements span, (∀ e ∈ elements, motive e) → motive (.list elements span))
    (compare : ∀ left ops comparators span, motive left → (∀ e ∈ comparators, motive e) →
      motive (.compare left ops comparators span))
    (binary : ∀ left op right span, motive left → motive right →
      motive (.binary left op right span))
    (unary : ∀ op operand span, motive operand → motive (.unary op operand span))
    (boolOp : ∀ op values span, (∀ e ∈ values, motive e) → motive (.boolOp op values span))
    (subscript : ∀ value slice span, motive value → motive slice →
      motive (.subscript value slice span))
    (call : ∀ callee arguments span, (∀ e ∈ arguments, motive e) →
      motive (.call callee arguments span)) (e : Expr) : motive e := by
  refine @Expr.rec motive (fun es => ∀ e ∈ es, motive e) name constant list compare binary unary
    boolOp subscript call ?_ ?_ e
  · exact fun _ h => absurd h List.not_mem_nil
  · exact fun e es he hes => List.forall_mem_cons.2 ⟨he, hes⟩

/-- Induction on statements. -/
@[elab_as_elim, induction_eliminator]
theorem Stmt.induction {motive : Stmt → Prop}
    (assign : ∀ targets value span, motive (.assign targets value span))
    (augAssign : ∀ target op value span, motive (.augAssign target op value span))
    (ifThen : ∀ test body orelse span, (∀ s ∈ body, motive s) → (∀ s ∈ orelse, motive s) →
      motive (.ifThen test body orelse span))
    (whileLoop : ∀ test body orelse span, (∀ s ∈ body, motive s) → (∀ s ∈ orelse, motive s) →
      motive (.whileLoop test body orelse span))
    (ret : ∀ value span, motive (.ret value span))
    (expression : ∀ e span, motive (.expression e span)) (s : Stmt) : motive s := by
  refine @Stmt.rec motive (fun ss => ∀ s ∈ ss, motive s) assign augAssign ifThen whileLoop ret
    expression ?_ ?_ s
  · exact fun _ h => absurd h List.not_mem_nil
  · exact fun s ss hs hss => List.forall_mem_cons.2 ⟨hs, hss⟩

end DefToC
