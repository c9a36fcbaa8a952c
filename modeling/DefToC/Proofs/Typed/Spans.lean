import DefToC.Proofs.Syntax.Spans
import DefToC.Proofs.Typed.Readability

/-!
# Typing does not look at spans

What a statement is lowered to depends on its tree only up to spans: a tree without spans is lowered
to the typed tree without spans, with the same table and the same notes, or it fails for the same
cause. There is one lemma for each maker of a node, and they are put together along the tree.
-/

namespace DefToC

/-! ### Makers of expressions -/

namespace TypedExpr

variable (span : Span)

theorem span_bare (t : TypedExpr) : t.bare.span = .nowhere := by
  induction t using TypedExpr.span.induct <;> simp_all [bare, span]

theorem resolvedType_bare (t : TypedExpr) :
    t.bare.resolvedType = bareResult id t.resolvedType := by
  have hbare := t.type?_bare
  induction t using resolvedType.induct with
  | case1 t type h =>
    rw [h] at hbare
    rw [resolvedType_eq_ok_iff.2 h, resolvedType_eq_ok_iff.2 hbare]
    rfl
  | case2 op operand s h ih =>
    rw [h] at hbare
    rw [bare] at hbare ⊢
    unfold resolvedType
    rw [h, hbare]
    exact ih operand.type?_bare
  | case3 => rfl
  | case4 callee arguments returns s hvoid h =>
    cases returns with
    | none => rfl
    | some returns =>
      cases returns with
      | void => exact absurd rfl hvoid
      | value type => cases h
  | case5 t hunary _ hcall h =>
    rw [h] at hbare
    cases t with
    | unary => exact absurd rfl (hunary _ _ _)
    | call => exact absurd rfl (hcall _ _ _ _)
    | index => cases h
    | _ =>
      rw [bare] at hbare ⊢
      unfold resolvedType
      rw [h, hbare]
      rfl

theorem mkVariable_bare (table : SymbolTable) (name : String) :
    mkVariable table name .nowhere = bareResult bare (mkVariable table name span) := by
  have href : table.reference name Span.nowhere.position =
      bareResult id (table.reference name span.position) := by
    unfold SymbolTable.reference
    split <;> rfl
  unfold mkVariable
  rw [href]
  refine bareResult_bind fun v => ?_
  dsimp only [id]
  split <;> rfl

theorem mkConstant_bare (value : Literal) :
    mkConstant value .nowhere = bareResult bare (mkConstant value span) := by
  unfold mkConstant
  split
  · split <;> rfl
  · rfl

theorem checkElements_bare (type : ValueType) (elements : List Literal) :
    checkElements type .nowhere elements = bareResult id (checkElements type span elements) := by
  induction elements with
  | nil => rfl
  | cons element elements ih =>
    rw [checkElements, checkElements, mkConstant_bare span]
    refine bareResult_bind fun t => ?_
    rw [resolvedType_bare]
    refine bareResult_bind fun received => ?_
    dsimp only [id]
    split
    · exact ih
    · rfl

theorem mkArray_bare (elements : List Literal) :
    mkArray elements .nowhere = bareResult bare (mkArray elements span) := by
  unfold mkArray
  split
  · rfl
  · rw [mkConstant_bare span]
    refine bareResult_bind fun t => ?_
    rw [resolvedType_bare]
    refine bareResult_bind fun type => ?_
    dsimp only [id]
    split
    · rfl
    · rw [checkElements_bare span]
      exact bareResult_bind fun _ => rfl

theorem mkCompare_bare (left : TypedExpr) (ops : List Operator) (comparators : List TypedExpr) :
    mkCompare left.bare ops (comparators.map bare) .nowhere =
      bareResult bare (mkCompare left ops comparators span) := by
  unfold mkCompare
  rw [List.length_map]
  split
  · rfl
  · split
    · rfl
    · rw [← bareAll_eq_map]
      rfl

theorem mkBinary_bare (left : TypedExpr) (op : Operator) (right : TypedExpr) :
    mkBinary left.bare op right.bare .nowhere = bareResult bare (mkBinary left op right span) := by
  unfold mkBinary
  split
  · rfl
  · rw [resolvedType_bare, resolvedType_bare]
    refine bareResult_bind fun leftType => bareResult_bind fun rightType => ?_
    dsimp only [id]
    split
    · rfl
    · split <;> rfl

theorem mkUnary_bare (op : Operator) (operand : TypedExpr) :
    mkUnary op operand.bare .nowhere = bareResult bare (mkUnary op operand span) := by
  unfold mkUnary
  split <;> rfl

theorem mkBoolChain_bare (op : Operator) (values : List TypedExpr) :
    mkBoolChain op (values.map bare) .nowhere = bareResult bare (mkBoolChain op values span) := by
  unfold mkBoolChain
  rw [List.length_map]
  split
  · rfl
  · split
    · rfl
    · rw [← bareAll_eq_map]
      rfl

theorem mkSubscript_bare (value index : TypedExpr) :
    mkSubscript value.bare index.bare .nowhere =
      bareResult bare (mkSubscript value index span) := by
  have hindex : index.bare.isIndex = index.isIndex := by cases index <;> rfl
  have hvalue : value.bare.isVariable = value.isVariable := by cases value <;> rfl
  unfold mkSubscript
  rw [hindex, hvalue, resolvedType_bare]
  split
  · rfl
  · refine bareResult_bind fun type => ?_
    dsimp only [id]
    split
    · rfl
    · split <;> rfl

theorem mkIndex_bare (value : TypedExpr) :
    mkIndex value.bare = bareResult bare (mkIndex value) := by
  unfold mkIndex
  rw [resolvedType_bare, span_bare]
  refine bareResult_bind fun received => ?_
  dsimp only [id]
  split <;> rfl

end TypedExpr

/-! ### Expressions -/

theorem bareResult_mapM {α β γ : Type} {k : α → Except Error β} {h : α → γ}
    {k' : γ → Except Error β} (as : List α) (hk : ∀ a ∈ as, k' (h a) = bareResult id (k a)) :
    (as.map h).mapM k' = bareResult id (as.mapM k) := by
  induction as with
  | nil => rfl
  | cons a as ih =>
    obtain ⟨ha, has⟩ := List.forall_mem_cons.1 hk
    rw [List.map_cons, List.mapM_cons, List.mapM_cons, ha, ih has]
    exact bareResult_bind fun _ => bareResult_bind fun _ => rfl

namespace Expr

theorem element_bare (e : Expr) : e.bare.element = bareResult id e.element := by
  cases e with
  | unary op operand span =>
    cases op with
    | plus | minus =>
      cases operand with
      | constant value _ => cases value <;> rfl
      | _ => rfl
    | _ => rfl
  | _ => rfl

theorem lowerAll_bare (table : SymbolTable) {es : List Expr}
    (h : ∀ e ∈ es, e.bare.lower table = bareResult TypedExpr.bare (e.lower table)) :
    lowerAll table (es.map bare) = bareResult (List.map TypedExpr.bare) (lowerAll table es) := by
  induction es with
  | nil => rfl
  | cons e es ih =>
    obtain ⟨he, hes⟩ := List.forall_mem_cons.1 h
    rw [List.map_cons, lowerAll, lowerAll, he, ih hes]
    exact bareResult_bind fun _ => bareResult_bind fun _ => rfl

theorem lower_bare (table : SymbolTable) (e : Expr) :
    e.bare.lower table = bareResult TypedExpr.bare (e.lower table) := by
  induction e with
  | name id span => exact TypedExpr.mkVariable_bare span table id
  | constant value span => exact TypedExpr.mkConstant_bare span value
  | list elements span _ =>
    rw [bare, bareAll_eq_map, lower, lower, bareResult_mapM elements fun e _ => e.element_bare]
    exact bareResult_bind fun _ => TypedExpr.mkArray_bare span _
  | compare left ops comparators span ihl ihc =>
    rw [bare, bareAll_eq_map, lower, lower, ihl, lowerAll_bare table ihc]
    exact bareResult_bind fun _ => bareResult_bind fun _ => TypedExpr.mkCompare_bare span _ _ _
  | binary left op right span ihl ihr =>
    rw [bare, lower, lower, ihl, ihr]
    exact bareResult_bind fun _ => bareResult_bind fun _ => TypedExpr.mkBinary_bare span _ _ _
  | unary op operand span ih =>
    rw [bare, lower, lower, ih]
    exact bareResult_bind fun _ => TypedExpr.mkUnary_bare span _ _
  | boolOp op values span ih =>
    rw [bare, bareAll_eq_map, lower, lower, lowerAll_bare table ih]
    exact bareResult_bind fun _ => TypedExpr.mkBoolChain_bare span _ _
  | subscript value slice span ihv ihs =>
    rw [bare, lower, lower, ihv, ihs]
    refine bareResult_bind fun _ => bareResult_bind fun slice => ?_
    rw [TypedExpr.mkIndex_bare]
    exact bareResult_bind fun _ => TypedExpr.mkSubscript_bare span _ _
  | call callee arguments span ih =>
    rw [bare, bareAll_eq_map, lower, lower, lowerAll_bare table ih]
    refine bareResult_bind fun arguments => ?_
    show Except.ok _ = Except.ok _
    rw [TypedExpr.mkCall, TypedExpr.mkCall, TypedExpr.bare, TypedExpr.bareAll_eq_map]

end Expr

/-! ### Forgetting spans in typed statements -/

/-- The target without spans. -/
def Target.bare : Target → Target
  | var v => .var v
  | subscript e => .subscript e.bare

namespace TypedStmt

mutual

/-- The statement without spans. -/
def bare : TypedStmt → TypedStmt
  | assign targets value _ => .assign (targets.map Target.bare) value.bare .nowhere
  | augAssign target op value _ => .augAssign target.bare op value.bare .nowhere
  | ifThen test body _ => .ifThen test.bare (bareAll body) .nowhere
  | whileLoop test body _ => .whileLoop test.bare (bareAll body) .nowhere
  | ret value returns _ => .ret (value.map TypedExpr.bare) returns .nowhere
  | expression e _ => .expression e.bare .nowhere

/-- The statements without spans. -/
def bareAll : List TypedStmt → List TypedStmt
  | [] => []
  | s :: ss => s.bare :: bareAll ss

end

theorem bareAll_eq_map (ss : List TypedStmt) : bareAll ss = ss.map bare := by
  induction ss with
  | nil => rfl
  | cons s ss ih => rw [bareAll, ih, List.map_cons]

end TypedStmt

namespace Target

theorem isNew_bare (t : Target) : t.bare.isNew = t.isNew := by
  cases t <;> rfl

theorem type?_bare (t : Target) : t.bare.type? = t.type? := by
  cases t with
  | var v => rfl
  | subscript e => exact e.type?_bare

theorem text?_bare (t : Target) : t.bare.text? = t.text? := by
  cases t with
  | var v => rfl
  | subscript e => exact congrArg some e.text_bare

end Target

theorem TypedExpr.conditionText_bare (t : TypedExpr) : t.bare.conditionText = t.conditionText := by
  have h : t.bare.isParenthesized = t.isParenthesized := by cases t <;> rfl
  rw [conditionText, conditionText, h, text_bare]

namespace TypedStmt

theorem text_bare (s : TypedStmt) : s.bare.text = s.text := by
  cases s with
  | assign targets value span =>
    simp only [bare, text, List.map_map, Function.comp_def, Target.text?_bare,
      TypedExpr.text_bare]
  | augAssign target op value span => simp only [bare, text, TypedExpr.text_bare]
  | ifThen test body span => simp only [bare, text, TypedExpr.conditionText_bare]
  | whileLoop test body span => simp only [bare, text, TypedExpr.conditionText_bare]
  | ret value returns span =>
    cases value with
    | none => rfl
    | some value => simp only [bare, text, Option.map, TypedExpr.text_bare]
  | expression e span => simp only [bare, text, TypedExpr.text_bare]

mutual

/-- The lines of a statement do not depend on spans. -/
theorem lines_bare (depth : Nat) : ∀ s : TypedStmt, lines depth s.bare = lines depth s
  | assign targets value span => congrArg (frame depth · []) (text_bare (assign targets value span))
  | augAssign target op value span =>
    congrArg (frame depth · []) (text_bare (augAssign target op value span))
  | ifThen test body span => by
    rw [lines, ← text_bare, ← linesOf_bare (depth + 1) body, bare, lines]
  | whileLoop test body span => by
    rw [lines, ← text_bare, ← linesOf_bare (depth + 1) body, bare, lines]
  | ret value returns span => congrArg (frame depth · []) (text_bare (ret value returns span))
  | expression e span => congrArg (frame depth · []) (text_bare (expression e span))

theorem linesOf_bare (depth : Nat) :
    ∀ ss : List TypedStmt, linesOf depth (bareAll ss) = linesOf depth ss
  | [] => rfl
  | s :: ss => by rw [bareAll, linesOf, linesOf, lines_bare depth s, linesOf_bare depth ss]

end

end TypedStmt

/-! ### Steps on a table -/

section

variable {α β γ δ : Type} {f : α → γ} {h : β → δ}

/-- What a step leaves behind, up to places. -/
def Lowered.bare (f : α → γ) (l : Lowered α) : Lowered γ :=
  ⟨bareResult f l.result, l.table, l.events⟩

namespace Lowering

/-- A step and a step on things without spans do the same up to places, on every table. -/
def Agrees (f : α → γ) (step : Lowering α) (step' : Lowering γ) : Prop :=
  ∀ table, step' table = (step table).bare f

theorem agrees_pure {a : α} {a' : γ} (ha : a' = f a) :
    Agrees f (pure a : Lowering α) (pure a' : Lowering γ) := by
  intro table
  rw [ha]
  rfl

theorem agrees_fail (e : Error) {e' : Error} (he : e' = e.bare) :
    Agrees f (fail e : Lowering α) (fail e' : Lowering γ) := by
  intro table
  rw [he]
  rfl

theorem agrees_reading {r : SymbolTable → Except Error α} {r' : SymbolTable → Except Error γ}
    (hr : ∀ table, r' table = bareResult f (r table)) : Agrees f (reading r) (reading r') := by
  intro table
  show Lowered.mk _ _ _ = _
  rw [hr]
  rfl

theorem agrees_updating {u u' : SymbolTable → Except Error SymbolTable}
    (hu : ∀ table, u' table = bareResult id (u table)) : Agrees id (updating u) (updating u') := by
  intro table
  unfold updating
  rw [hu]
  cases u table <;> rfl

theorem agrees_note (event : Event) : Agrees id (note event) (note event) := fun _ => rfl

theorem Agrees.bind {step : Lowering α} {step' : Lowering γ} {k : α → Lowering β}
    {k' : γ → Lowering δ} (hs : Agrees f step step') (hk : ∀ a, Agrees h (k a) (k' (f a))) :
    Agrees h (step >>= k) (step' >>= k') := by
  intro table
  show Lowering.bind step' k' table = (Lowering.bind step k table).bare h
  unfold Lowering.bind
  rw [hs table]
  obtain ⟨_ | a, table₁, events⟩ := step table
  · rfl
  · show Lowered.mk (k' (f a) table₁).result _ _ = _
    rw [hk a table₁]
    rfl

end Lowering

end

open Lowering

/-! ### Makers of statements -/

namespace TypedStmt

variable (span : Span)

theorem checkStored_bare (type : ValueType) (target : Target) :
    checkStored type .nowhere target.bare =
      bareResult Target.bare (checkStored type span target) := by
  unfold checkStored
  rw [target.type?_bare]
  split <;> rfl

theorem bind_bare (table : SymbolTable) (name : String) (type : ValueType) (size : Option Nat) :
    table.bind name type size Span.nowhere.position =
      bareResult id (table.bind name type size span.position) := by
  unfold SymbolTable.bind
  split
  · rfl
  · split <;> rfl

theorem introduce_bare (type : ValueType) (size : Option Nat) (v : Variable) :
    Agrees Target.bare (introduce type size span v) (introduce type size .nowhere v) := by
  unfold introduce
  split
  · exact agrees_fail _ rfl
  · have hbind : Agrees id (bindVariable v.name type size span.position)
        (bindVariable v.name type size Span.nowhere.position) := by
      refine (agrees_updating fun table => ?_).bind fun _ => agrees_note _
      exact bind_bare span table v.name type size
    exact hbind.bind fun _ => agrees_pure rfl

theorem settle_bare (type : ValueType) (size : Option Nat) (target : Target) :
    Agrees Target.bare (settle type size span target) (settle type size .nowhere target.bare) := by
  cases target with
  | var v =>
    rw [Target.bare, settle, settle]
    split
    · exact introduce_bare span type size v
    · exact agrees_reading fun _ => checkStored_bare span type (.var v)
  | subscript e => exact agrees_reading fun _ => checkStored_bare span type (.subscript e)

theorem settleAll_bare (type : ValueType) (size : Option Nat) (targets : List Target) :
    Agrees (List.map Target.bare) (settleAll type size span targets)
      (settleAll type size .nowhere (targets.map Target.bare)) := by
  induction targets with
  | nil => exact agrees_pure rfl
  | cons target targets ih =>
    exact (settle_bare span type size target).bind fun _ => ih.bind fun _ => agrees_pure rfl

theorem checkTargets_bare (type : ValueType) (targets : List Target) :
    checkTargets type (targets.map Target.bare) .nowhere =
      bareResult id (checkTargets type targets span) := by
  unfold checkTargets
  simp only [List.length_map, List.any_map, Function.comp_def, Target.isNew_bare]
  split
  · rfl
  · split
    · rfl
    · split <;> rfl

theorem mkAssign_bare (targets : List Target) (value : TypedExpr) :
    Agrees bare (mkAssign targets value span)
      (mkAssign (targets.map Target.bare) value.bare .nowhere) := by
  have hsize : value.bare.arraySize? = value.arraySize? := by cases value <;> rfl
  unfold mkAssign
  rw [List.isEmpty_map, hsize]
  split
  · exact agrees_fail _ rfl
  · refine (agrees_reading fun _ => value.resolvedType_bare).bind fun type => ?_
    refine (agrees_reading fun _ => checkTargets_bare span type targets).bind fun _ => ?_
    refine (settleAll_bare span type value.arraySize? targets).bind fun settled => ?_
    simp only [List.all_map, Function.comp_def, Target.text?_bare]
    split
    · exact agrees_pure rfl
    · exact agrees_fail _ rfl

theorem checkUpdate_bare (op : Operator) (target value : ValueType) :
    checkUpdate op target value .nowhere = bareResult id (checkUpdate op target value span) := by
  unfold checkUpdate
  dsimp only
  split
  · rfl
  · split
    all_goals split <;> rfl

theorem mkAugAssign_bare (target : TypedExpr) (op : Operator) (value : TypedExpr) :
    mkAugAssign target.bare op value.bare .nowhere =
      bareResult bare (mkAugAssign target op value span) := by
  have hupdatable : target.bare.isUpdatable = target.isUpdatable := by cases target <;> rfl
  unfold mkAugAssign
  rw [hupdatable, TypedExpr.resolvedType_bare, TypedExpr.resolvedType_bare]
  split
  · rfl
  · split
    · rfl
    · refine bareResult_bind fun targetType => bareResult_bind fun valueType => ?_
      dsimp only [id]
      rw [checkUpdate_bare span]
      exact bareResult_bind fun _ => rfl

theorem mkReturn_bare (value : Option TypedExpr) :
    mkReturn (value.map TypedExpr.bare) .nowhere = bareResult bare (mkReturn value span) := by
  cases value with
  | none => rfl
  | some e =>
    show (e.bare.resolvedType >>= _) = bareResult bare (e.resolvedType >>= _)
    rw [TypedExpr.resolvedType_bare]
    exact bareResult_bind fun _ => rfl

end TypedStmt

/-! ### Statements -/

namespace Expr

theorem lowerTarget_bare (e : Expr) : Agrees Target.bare e.lowerTarget e.bare.lowerTarget := by
  cases e with
  | name x span =>
    have htarget : Agrees id (.target x) (.target x) := fun _ => rfl
    exact htarget.bind fun _ => agrees_pure rfl
  | subscript value slice span =>
    exact (agrees_reading fun table => lower_bare table (.subscript value slice span)).bind
      fun _ => agrees_pure rfl
  | _ => exact agrees_fail _ rfl

theorem lowerTargets_bare (es : List Expr) :
    Agrees (List.map Target.bare) (lowerTargets es) (lowerTargets (es.map bare)) := by
  induction es with
  | nil => exact agrees_pure rfl
  | cons e es ih => exact (lowerTarget_bare e).bind fun _ => ih.bind fun _ => agrees_pure rfl

theorem reading_lower_bare (e : Expr) :
    Agrees TypedExpr.bare (.reading fun table => e.lower table)
      (.reading fun table => e.bare.lower table) :=
  agrees_reading fun table => lower_bare table e

end Expr

namespace Stmt

theorem noted_bare (s : TypedStmt) : Agrees TypedStmt.bare (noted s) (noted s.bare) := by
  unfold noted
  rw [s.text_bare]
  exact (agrees_note _).bind fun _ => agrees_pure rfl

theorem checkElse_bare (orelse : List Stmt) :
    TypedStmt.checkElse (blockPosition? (orelse.map bare)) =
      bareResult id (TypedStmt.checkElse (blockPosition? orelse)) := by
  cases orelse with
  | nil => rfl
  | cons s ss => cases s <;> rfl

theorem lowerAll_bare {ss : List Stmt} (h : ∀ s ∈ ss, Agrees TypedStmt.bare s.lower s.bare.lower) :
    Agrees (List.map TypedStmt.bare) (lowerAll ss) (lowerAll (ss.map bare)) := by
  induction ss with
  | nil => exact agrees_pure rfl
  | cons s ss ih =>
    obtain ⟨hs, hss⟩ := List.forall_mem_cons.1 h
    exact hs.bind fun _ => (ih hss).bind fun _ => agrees_pure rfl

/-- **Statements are typed without looking at spans.** -/
theorem lower_bare (s : Stmt) : Agrees TypedStmt.bare s.lower s.bare.lower := by
  induction s with
  | assign targets value span =>
    rw [bare, Expr.bareAll_eq_map, lower, lower]
    exact value.reading_lower_bare.bind fun _ => (Expr.lowerTargets_bare targets).bind fun _ =>
      (TypedStmt.mkAssign_bare span _ _).bind fun _ => noted_bare _
  | augAssign target op value span =>
    rw [bare, lower, lower]
    exact value.reading_lower_bare.bind fun _ => target.reading_lower_bare.bind fun _ =>
      (agrees_reading fun _ => TypedStmt.mkAugAssign_bare span _ _ _).bind fun _ => noted_bare _
  | ifThen test body orelse span ih _ =>
    rw [bare, bareAll_eq_map, bareAll_eq_map, lower, lower]
    refine test.reading_lower_bare.bind fun _ => (lowerAll_bare ih).bind fun body => ?_
    refine (agrees_reading fun _ => ?_).bind fun _ => noted_bare _
    rw [TypedStmt.mkIf, TypedStmt.mkIf, checkElse_bare]
    refine bareResult_bind fun _ => ?_
    rw [← TypedStmt.bareAll_eq_map]
    rfl
  | whileLoop test body orelse span ih _ =>
    rw [bare, bareAll_eq_map, bareAll_eq_map, lower, lower]
    refine test.reading_lower_bare.bind fun _ => (lowerAll_bare ih).bind fun body => ?_
    refine (agrees_reading fun _ => ?_).bind fun _ => noted_bare _
    rw [TypedStmt.mkWhile, TypedStmt.mkWhile, checkElse_bare]
    refine bareResult_bind fun _ => ?_
    rw [← TypedStmt.bareAll_eq_map]
    rfl
  | ret value span =>
    cases value with
    | none =>
      rw [bare, Option.map, lower, lower]
      exact (agrees_reading fun _ => TypedStmt.mkReturn_bare span none).bind fun _ => noted_bare _
    | some value =>
      rw [bare, Option.map, lower, lower]
      exact value.reading_lower_bare.bind fun e =>
        (agrees_reading fun _ => TypedStmt.mkReturn_bare span (some e)).bind fun _ => noted_bare _
  | expression e span =>
    rw [bare, lower, lower]
    exact e.reading_lower_bare.bind fun e => noted_bare (.expression e span)

end Stmt

end DefToC
