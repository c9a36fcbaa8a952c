import DefToC.Proofs.Syntax.SpanTrees
import DefToC.Proofs.Typed.Failures

/-!
# Where a tree that cannot be typed is wrong

Every error of typing is where a node of the tree begins. Most makers of typed nodes blame the node
that is made. Where a type is missing, it is the operand that is blamed, and behind operators in
front of it the operand of these; an index and an element of a list are blamed where they stand, and
a second branch at its first statement. So whatever holds of the places of all nodes holds of the
place of the error.
-/

namespace DefToC

/-- The step fails at a place that satisfies `P`. -/
abbrev FailsAt {α : Type} (P : Position → Prop) (r : Except Error α) : Prop :=
  FailsIn (fun err : Error => P err.position) r

variable {P : Position → Prop} {table : SymbolTable} {span : Span}

/-! ### Makers of expressions -/

namespace TypedExpr

/-- The places that are blamed if the expression has no type satisfy `P`. -/
def BlamesAt (P : Position → Prop) : TypedExpr → Prop
  | unary _ operand span => P span.position ∧ operand.BlamesAt P
  | t => P t.span.position

theorem BlamesAt.root {t : TypedExpr} (h : t.BlamesAt P) : P t.span.position := by
  cases t with
  | unary => exact h.1
  | _ => exact h

theorem failsAt_resolvedType {t : TypedExpr} (h : t.BlamesAt P) : FailsAt P t.resolvedType := by
  induction t using resolvedType.induct with
  | case1 t type htype =>
    rw [resolvedType_eq_ok_iff.2 htype]
    exact failsIn_ok _
  | case2 op operand span htype ih =>
    unfold resolvedType
    rw [htype]
    exact ih h.2
  | case3 callee arguments span => exact failsIn_error (P := fun err : Error => P err.position) h
  | case4 callee arguments returns span hvoid htype =>
    cases returns with
    | none => exact failsIn_error (P := fun err : Error => P err.position) h
    | some returns =>
      cases returns with
      | void => exact absurd rfl hvoid
      | value type => cases htype
  | case5 t hunary _ hcall htype =>
    cases t with
    | unary => exact absurd rfl (hunary _ _ _)
    | call => exact absurd rfl (hcall _ _ _ _)
    | index => cases htype
    | _ =>
      unfold resolvedType
      rw [htype]
      exact failsIn_error h

theorem failsAt_mkVariable {name : String} (h : P span.position) :
    FailsAt P (mkVariable table name span) := by
  unfold mkVariable SymbolTable.reference
  refine failsIn_bind ?_ fun v _ => ?_
  · split
    · exact failsIn_ok _
    · exact failsIn_error h
  · split
    · exact failsIn_ok _
    · exact failsIn_error h

theorem failsAt_mkConstant {value : Literal} (h : P span.position) :
    FailsAt P (mkConstant value span) := by
  unfold mkConstant
  split
  · split
    · exact failsIn_ok _
    · exact failsIn_error h
  · exact failsIn_ok _

theorem blamesAt_of_mkConstant {value : Literal} {t : TypedExpr} (h : P span.position)
    (ht : mkConstant value span = .ok t) : t.BlamesAt P := by
  obtain ⟨-, rfl⟩ := mkConstant_eq_ok_iff.1 ht
  exact h

theorem failsAt_checkElements {type : ValueType} {elements : List Literal} (h : P span.position) :
    FailsAt P (checkElements type span elements) := by
  induction elements with
  | nil => exact failsIn_ok _
  | cons element elements ih =>
    refine failsIn_bind (failsAt_mkConstant h) fun t ht =>
      failsIn_bind (failsAt_resolvedType (blamesAt_of_mkConstant h ht)) fun received _ => ?_
    split
    · exact ih
    · exact failsIn_error h

theorem failsAt_mkArray {elements : List Literal} (h : P span.position) :
    FailsAt P (mkArray elements span) := by
  unfold mkArray
  split
  · exact failsIn_error h
  · refine failsIn_bind (failsAt_mkConstant h) fun t ht =>
      failsIn_bind (failsAt_resolvedType (blamesAt_of_mkConstant h ht)) fun type _ => ?_
    split
    · exact failsIn_error h
    · exact failsIn_bind (failsAt_checkElements h) fun _ _ => failsIn_ok _

theorem failsAt_mkCompare {left : TypedExpr} {ops : List Operator} {comparators : List TypedExpr}
    (h : P span.position) : FailsAt P (mkCompare left ops comparators span) := by
  unfold mkCompare
  split
  · exact failsIn_error h
  · split
    · exact failsIn_error h
    · exact failsIn_ok _

theorem failsAt_mkBinary {left right : TypedExpr} {op : Operator} (h : P span.position)
    (hleft : left.BlamesAt P) (hright : right.BlamesAt P) :
    FailsAt P (mkBinary left op right span) := by
  unfold mkBinary
  split
  · exact failsIn_error h
  · refine failsIn_bind (failsAt_resolvedType hleft) fun _ _ =>
      failsIn_bind (failsAt_resolvedType hright) fun _ _ => ?_
    split
    · exact failsIn_ok _
    · split
      · exact failsIn_error h
      · exact failsIn_error h

theorem failsAt_mkUnary {op : Operator} {operand : TypedExpr} (h : P span.position) :
    FailsAt P (mkUnary op operand span) := by
  unfold mkUnary
  split
  · exact failsIn_ok _
  · exact failsIn_error h

theorem failsAt_mkBoolChain {op : Operator} {values : List TypedExpr} (h : P span.position) :
    FailsAt P (mkBoolChain op values span) := by
  unfold mkBoolChain
  split
  · exact failsIn_error h
  · split
    · exact failsIn_error h
    · exact failsIn_ok _

theorem failsAt_mkIndex {value : TypedExpr} (h : value.BlamesAt P) : FailsAt P (mkIndex value) := by
  refine failsIn_bind (failsAt_resolvedType h) fun _ _ => ?_
  split
  · exact failsIn_ok _
  · exact failsIn_error h.root

theorem failsAt_mkSubscript {value index : TypedExpr} (h : P span.position)
    (hvalue : value.BlamesAt P) : FailsAt P (mkSubscript value index span) := by
  unfold mkSubscript
  split
  · exact failsIn_error h
  · refine failsIn_bind (failsAt_resolvedType hvalue) fun _ _ => ?_
    split
    · exact failsIn_error h
    · split
      · exact failsIn_error h
      · exact failsIn_ok _

end TypedExpr

/-! ### Expressions -/

namespace Expr

variable {e : Expr} {es : List Expr}

/-- All nodes of the expression begin at places that satisfy `P`. -/
abbrev NodesAt (P : Position → Prop) (e : Expr) : Prop := e.tree.All fun s => P s.position

theorem NodesAt.root (h : e.NodesAt P) : P e.span.position := by
  have hroot := SpanTree.All.root h
  rwa [span_tree] at hroot

theorem nodesAt_of_treeAll (h : ∀ t ∈ treeAll es, t.All fun s => P s.position) :
    ∀ e ∈ es, e.NodesAt P := by
  rw [treeAll_eq_map] at h
  exact fun e he => h _ (List.mem_map_of_mem he)

theorem failsAt_element (h : e.NodesAt P) : FailsAt P e.element := by
  unfold element
  split
  · exact failsIn_ok _
  · exact failsIn_ok _
  · exact failsIn_ok _
  · exact failsIn_ok _
  · exact failsIn_ok _
  · exact failsIn_error h.root

/-- What an expression is typed as stands where the expression does. -/
theorem NodesAt.blamesAt {t : TypedExpr} (he : e.NodesAt P) (h : e.lower table = .ok t) :
    t.BlamesAt P := by
  induction e generalizing t with
  | name id span =>
    obtain ⟨v, -, rfl⟩ := TypedExpr.mkVariable_eq_ok_iff.1 h
    exact he.root
  | constant value span =>
    obtain ⟨-, rfl⟩ := TypedExpr.mkConstant_eq_ok_iff.1 h
    exact he.root
  | list elements span ih =>
    obtain ⟨_, -, -, -, rfl⟩ := lower_list_eq_ok_iff.1 h
    exact he.root
  | compare left ops comparators span ihl ih =>
    obtain ⟨_, _, -, -, -, -, -, rfl⟩ := lower_compare_eq_ok_iff.1 h
    exact he.root
  | binary left op right span ihl ihr =>
    obtain ⟨_, _, -, -, -, -, rfl⟩ := lower_binary_eq_ok_iff.1 h
    exact he.root
  | unary op operand span ih =>
    obtain ⟨o, ho, -, rfl⟩ := lower_unary_eq_ok_iff.1 h
    have hoperand : operand.NodesAt P := he.children _ (List.mem_singleton_self _)
    exact ⟨he.root, ih hoperand ho⟩
  | boolOp op values span ih =>
    obtain ⟨_, -, -, -, rfl⟩ := lower_boolOp_eq_ok_iff.1 h
    exact he.root
  | subscript value slice span ihv ihs =>
    obtain ⟨_, _, -, -, -, -, -, rfl⟩ := lower_subscript_eq_ok_iff.1 h
    exact he.root
  | call callee arguments span ih =>
    obtain ⟨_, -, rfl⟩ := lower_call_eq_ok_iff.1 h
    exact he.root

theorem failsAt_lowerAll (h : ∀ e ∈ es, FailsAt P (e.lower table)) :
    FailsAt P (lowerAll table es) := by
  induction es with
  | nil => exact failsIn_ok _
  | cons e es ih =>
    obtain ⟨he, hes⟩ := List.forall_mem_cons.1 h
    exact failsIn_bind he fun _ _ => failsIn_bind (ih hes) fun _ _ => failsIn_ok _

/-- **An expression that cannot be typed** is wrong where one of its nodes begins. -/
theorem failsAt_lower (he : e.NodesAt P) : FailsAt P (e.lower table) := by
  induction e with
  | name id span => exact TypedExpr.failsAt_mkVariable he.root
  | constant value span => exact TypedExpr.failsAt_mkConstant he.root
  | list elements span ih =>
    have helements := nodesAt_of_treeAll he.children
    rw [lower]
    exact failsIn_bind (failsIn_mapM fun e he => failsAt_element (helements e he)) fun _ _ =>
      TypedExpr.failsAt_mkArray he.root
  | compare left ops comparators span ihl ih =>
    obtain ⟨hleft, hrest⟩ := List.forall_mem_cons.1 he.children
    have hcomparators := nodesAt_of_treeAll hrest
    rw [lower]
    exact failsIn_bind (ihl hleft) fun _ _ =>
      failsIn_bind (failsAt_lowerAll fun e he => ih e he (hcomparators e he)) fun _ _ =>
        TypedExpr.failsAt_mkCompare he.root
  | binary left op right span ihl ihr =>
    obtain ⟨hleft, hrest⟩ := List.forall_mem_cons.1 he.children
    have hright : right.NodesAt P := hrest _ (List.mem_singleton_self _)
    rw [lower]
    exact failsIn_bind (ihl hleft) fun _ hl => failsIn_bind (ihr hright) fun _ hr =>
      TypedExpr.failsAt_mkBinary he.root (NodesAt.blamesAt hleft hl) (hright.blamesAt hr)
  | unary op operand span ih =>
    have hoperand : operand.NodesAt P := he.children _ (List.mem_singleton_self _)
    rw [lower]
    exact failsIn_bind (ih hoperand) fun _ _ => TypedExpr.failsAt_mkUnary he.root
  | boolOp op values span ih =>
    have hvalues := nodesAt_of_treeAll he.children
    rw [lower]
    exact failsIn_bind (failsAt_lowerAll fun e he => ih e he (hvalues e he)) fun _ _ =>
      TypedExpr.failsAt_mkBoolChain he.root
  | subscript value slice span ihv ihs =>
    obtain ⟨hvalue, hrest⟩ := List.forall_mem_cons.1 he.children
    have hslice : slice.NodesAt P := hrest _ (List.mem_singleton_self _)
    rw [lower]
    exact failsIn_bind (ihv hvalue) fun _ hv => failsIn_bind (ihs hslice) fun _ hi =>
      failsIn_bind (TypedExpr.failsAt_mkIndex (hslice.blamesAt hi)) fun _ _ =>
        TypedExpr.failsAt_mkSubscript he.root (NodesAt.blamesAt hvalue hv)
  | call callee arguments span ih =>
    have harguments := nodesAt_of_treeAll he.children
    rw [lower]
    exact failsIn_bind (failsAt_lowerAll fun e he => ih e he (harguments e he)) fun _ _ =>
      failsIn_ok _

theorem failsAt_lowerTarget (he : e.NodesAt P) : FailsAt P (e.lowerTarget table).result := by
  unfold lowerTarget
  split
  · exact failsIn_bind_lowering (failsIn_ok _) fun _ _ => failsIn_ok _
  · exact failsIn_bind_lowering (failsAt_lower he) fun _ _ => failsIn_ok _
  · exact failsIn_error he.root

theorem failsAt_lowerTargets (h : ∀ e ∈ es, e.NodesAt P) :
    FailsAt P (lowerTargets es table).result := by
  induction es generalizing table with
  | nil => exact failsIn_ok _
  | cons e es ih =>
    obtain ⟨he, hes⟩ := List.forall_mem_cons.1 h
    exact failsIn_bind_lowering (failsAt_lowerTarget he) fun _ _ =>
      failsIn_bind_lowering (ih hes) fun _ _ => failsIn_ok _

end Expr

/-! ### Makers of statements -/

open Lowering

namespace TypedStmt

variable {type : ValueType} {size : Option Nat} {targets : List Target} {value : TypedExpr}

theorem failsAt_checkStored {target : Target} (h : P span.position) :
    FailsAt P (checkStored type span target) := by
  unfold checkStored
  split
  · exact failsIn_ok _
  · exact failsIn_error h

theorem failsAt_bind {name : String} {position : Position} (h : P position) :
    FailsAt P (table.bind name type size position) := by
  unfold SymbolTable.bind
  split
  · exact failsIn_error h
  · split
    · exact failsIn_ok _
    · exact failsIn_error h

theorem failsAt_updating {f : SymbolTable → Except Error SymbolTable} (h : FailsAt P (f table)) :
    FailsAt P (updating f table).result := by
  unfold updating
  cases hf : f table with
  | error e => exact failsIn_error (h e hf)
  | ok table₁ => exact failsIn_ok _

theorem failsAt_introduce {v : Variable} (h : P span.position) :
    FailsAt P (introduce type size span v table).result := by
  unfold introduce
  split
  · exact failsIn_error h
  · refine failsIn_bind_lowering ?_ fun _ _ => failsIn_ok _
    exact failsIn_bind_lowering (failsAt_updating (failsAt_bind h)) fun _ _ => failsIn_ok _

theorem failsAt_settle {target : Target} (h : P span.position) :
    FailsAt P (settle type size span target table).result := by
  unfold settle
  split
  · split
    · exact failsAt_introduce h
    · exact failsAt_checkStored h
  · exact failsAt_checkStored h

theorem failsAt_settleAll (h : P span.position) :
    FailsAt P (settleAll type size span targets table).result := by
  induction targets generalizing table with
  | nil => exact failsIn_ok _
  | cons target targets ih =>
    exact failsIn_bind_lowering (failsAt_settle h) fun _ _ =>
      failsIn_bind_lowering ih fun _ _ => failsIn_ok _

theorem failsAt_checkTargets (h : P span.position) :
    FailsAt P (checkTargets type targets span) := by
  unfold checkTargets
  split
  · exact failsIn_ok _
  · split
    · exact failsIn_error h
    · split
      · exact failsIn_error h
      · exact failsIn_ok _

theorem failsAt_mkAssign (h : P span.position) (hvalue : value.BlamesAt P) :
    FailsAt P (mkAssign targets value span table).result := by
  unfold mkAssign
  split
  · exact failsIn_error h
  · refine failsIn_bind_lowering (TypedExpr.failsAt_resolvedType hvalue) fun _ _ =>
      failsIn_bind_lowering (failsAt_checkTargets h) fun _ _ =>
        failsIn_bind_lowering (failsAt_settleAll h) fun _ _ => ?_
    split
    · exact failsIn_ok _
    · exact failsIn_error h

theorem failsAt_checkUpdate {op : Operator} {target value : ValueType} (h : P span.position) :
    FailsAt P (checkUpdate op target value span) := by
  unfold checkUpdate
  split
  · exact failsIn_error h
  · split <;> split <;> first | exact failsIn_error h | exact failsIn_ok _

theorem failsAt_mkAugAssign {target : TypedExpr} {op : Operator} (h : P span.position)
    (htarget : target.BlamesAt P) (hvalue : value.BlamesAt P) :
    FailsAt P (mkAugAssign target op value span) := by
  unfold mkAugAssign
  split
  · exact failsIn_error h
  · split
    · exact failsIn_error h
    · exact failsIn_bind (TypedExpr.failsAt_resolvedType htarget) fun _ _ =>
        failsIn_bind (TypedExpr.failsAt_resolvedType hvalue) fun _ _ =>
          failsIn_bind (failsAt_checkUpdate h) fun _ _ => failsIn_ok _

end TypedStmt

/-! ### Statements -/

namespace Stmt

variable {s : Stmt} {ss : List Stmt}

/-- All nodes of the statement begin at places that satisfy `P`. -/
abbrev NodesAt (P : Position → Prop) (s : Stmt) : Prop := s.tree.All fun s => P s.position

theorem NodesAt.root (h : s.NodesAt P) : P s.span.position := by
  have hroot := SpanTree.All.root h
  cases s with
  | _ => exact hroot

theorem nodesAt_of_treeAll (h : ∀ t ∈ treeAll ss, t.All fun s => P s.position) :
    ∀ s ∈ ss, s.NodesAt P := by
  rw [treeAll_eq_map] at h
  exact fun s hs => h _ (List.mem_map_of_mem hs)

/-- A second branch is refused at its first statement. -/
theorem failsAt_checkElse (h : ∀ s ∈ ss, s.NodesAt P) :
    FailsAt P (TypedStmt.checkElse (blockPosition? ss)) := by
  cases ss with
  | nil => exact failsIn_ok _
  | cons s ss => exact failsIn_error (h s List.mem_cons_self).root

theorem failsAt_noted {step : Lowering TypedStmt} (h : FailsAt P (step table).result) :
    FailsAt P ((step >>= noted) table).result :=
  failsIn_bind_lowering h fun _ _ => failsIn_ok _

theorem failsAt_lowerAll (h : ∀ s ∈ ss, ∀ table, FailsAt P (s.lower table).result) :
    FailsAt P (lowerAll ss table).result := by
  induction ss generalizing table with
  | nil => exact failsIn_ok _
  | cons s ss ih =>
    obtain ⟨hs, hss⟩ := List.forall_mem_cons.1 h
    exact failsIn_bind_lowering (hs table) fun _ _ =>
      failsIn_bind_lowering (ih hss) fun _ _ => failsIn_ok _

/-- **A statement that cannot be typed** is wrong where one of its nodes begins. -/
theorem failsAt_lower (hs : s.NodesAt P) (table : SymbolTable) :
    FailsAt P (s.lower table).result := by
  induction s generalizing table with
  | assign targets value span =>
    obtain ⟨hfirst, hlast⟩ := List.forall_mem_append.1 hs.children
    have htargets : ∀ e ∈ targets, e.NodesAt P := fun e he => hfirst _ (List.mem_map_of_mem he)
    have hvalue : value.NodesAt P := hlast _ (List.mem_singleton_self _)
    rw [lower]
    exact failsIn_bind_lowering (Expr.failsAt_lower hvalue) fun _ hv =>
      failsIn_bind_lowering (Expr.failsAt_lowerTargets htargets) fun _ _ =>
        failsAt_noted (TypedStmt.failsAt_mkAssign hs.root (hvalue.blamesAt hv))
  | augAssign target op value span =>
    obtain ⟨htarget, hlast⟩ := List.forall_mem_cons.1 hs.children
    have hvalue : value.NodesAt P := hlast _ (List.mem_singleton_self _)
    rw [lower]
    exact failsIn_bind_lowering (Expr.failsAt_lower hvalue) fun _ hv =>
      failsIn_bind_lowering (Expr.failsAt_lower htarget) fun _ ht =>
        failsAt_noted (TypedStmt.failsAt_mkAugAssign hs.root
          (Expr.NodesAt.blamesAt htarget ht) (hvalue.blamesAt hv))
  | ifThen test body orelse span ih _ | whileLoop test body orelse span ih _ =>
    obtain ⟨htest, hblocks⟩ := List.forall_mem_cons.1 hs.children
    obtain ⟨hbody, horelse⟩ := List.forall_mem_append.1 hblocks
    have hstmts := nodesAt_of_treeAll hbody
    rw [lower]
    refine failsIn_bind_lowering (Expr.failsAt_lower htest) fun _ _ =>
      failsIn_bind_lowering (failsAt_lowerAll fun s hs => ih s hs (hstmts s hs)) fun _ _ =>
        failsAt_noted ?_
    exact failsIn_bind (failsAt_checkElse (nodesAt_of_treeAll horelse)) fun _ _ => failsIn_ok _
  | ret value span =>
    cases value with
    | none =>
      rw [lower]
      exact failsAt_noted (failsIn_ok _)
    | some value =>
      have hvalue : value.NodesAt P := hs.children _ (List.mem_singleton_self _)
      rw [lower]
      refine failsIn_bind_lowering (Expr.failsAt_lower hvalue) fun _ hv => failsAt_noted ?_
      exact failsIn_bind (TypedExpr.failsAt_resolvedType (hvalue.blamesAt hv)) fun _ _ =>
        failsIn_ok _
  | expression e span =>
    have he : e.NodesAt P := hs.children _ (List.mem_singleton_self _)
    rw [lower]
    exact failsIn_bind_lowering (Expr.failsAt_lower he) fun _ _ => failsIn_ok _

end Stmt

end DefToC
