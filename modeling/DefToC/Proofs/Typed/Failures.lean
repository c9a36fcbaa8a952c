import DefToC.Proofs.Syntax.Shape
import DefToC.Proofs.Syntax.SyntaxErrors
import DefToC.Proofs.Typed.Permanence
import DefToC.Proofs.Typed.Typing

/-!
# What is wrong with a tree that cannot be typed

The makers of typed nodes check the shape of what they are given, and a table checks what becomes of
its entries. Most of these checks cannot fail, because the trees have the grammar's form and every
assignment makes a pending entry before it gives a variable its type. What remains are errors about
types, variables that are read before they have a value, and elements of lists that are no
constants. `Error.Concerns` says of an error that it is one of these and names the expression that
it is about.
-/

namespace DefToC

/-! ### Errors and what they are about -/

/-- A constant, or a number with a sign in front of it. -/
inductive Expr.IsConstant : Expr → Prop where
  | plain {l : Literal} {span : Span} : IsConstant (.constant l span)
  | signed {op : Operator} {l : Literal} {inner span : Span} : op ∈ [.plus, .minus] →
      l.type ≠ .bool → IsConstant (.unary op (.constant l inner) span)

namespace Expr

mutual

/-- The expression and all expressions in it that are typed. The elements of lists are not. -/
def evaluated : Expr → List Expr
  | name id span => [name id span]
  | constant value span => [constant value span]
  | list elements span => [list elements span]
  | compare left ops comparators span =>
    compare left ops comparators span :: left.evaluated ++ evaluatedAll comparators
  | binary left op right span => binary left op right span :: left.evaluated ++ right.evaluated
  | unary op operand span => unary op operand span :: operand.evaluated
  | boolOp op values span => boolOp op values span :: evaluatedAll values
  | subscript value slice span => subscript value slice span :: value.evaluated ++ slice.evaluated
  | call callee arguments span => call callee arguments span :: evaluatedAll arguments

/-- The expressions and all expressions in them that are typed. -/
def evaluatedAll : List Expr → List Expr
  | [] => []
  | e :: es => e.evaluated ++ evaluatedAll es

end

/-- The expressions in a target that are typed. A variable that is assigned to is not read. -/
def evaluatedTarget : Expr → List Expr
  | name _ _ => []
  | e => e.evaluated

end Expr

namespace Stmt

mutual

/-- The expressions in a statement that are typed. -/
def evaluated : Stmt → List Expr
  | assign targets value _ => value.evaluated ++ targets.flatMap Expr.evaluatedTarget
  | augAssign target _ value _ => value.evaluated ++ target.evaluated
  | ifThen test body _ _ => test.evaluated ++ evaluatedAll body
  | whileLoop test body _ _ => test.evaluated ++ evaluatedAll body
  | ret none _ => []
  | ret (some value) _ => value.evaluated
  | expression e _ => e.evaluated

/-- The expressions in a block that are typed. -/
def evaluatedAll : List Stmt → List Expr
  | [] => []
  | s :: ss => s.evaluated ++ evaluatedAll ss

end

end Stmt

/-- The causes that are not about numbers, variables without a value or trees without meaning. -/
def Cause.isOrdinary : Cause → Bool
  | malformedNode _ | undefinedVariable _ | numberParseError _ => false
  | _ => true

/-- The error is an ordinary one, or about one of the given expressions: a variable that is read, or
an element of a list that is no constant. -/
def Error.Concerns (err : Error) (es : List Expr) : Prop :=
  match err.cause with
  | .malformedNode message => message = "Array literal elements must be numeric constants" ∧
      ∃ elements span, Expr.list elements span ∈ es ∧
        ∃ e ∈ elements, ¬e.IsConstant ∧ err.position = e.span.position
  | .undefinedVariable id => ∃ span, Expr.name id span ∈ es ∧ err.position = span.position
  | .numberParseError _ => False
  | _ => True

theorem Error.concerns_of_isOrdinary {err : Error} (h : err.cause.isOrdinary = true)
    (es : List Expr) : err.Concerns es := by
  obtain ⟨cause, position⟩ := err
  cases cause with
  | malformedNode | undefinedVariable | numberParseError => cases h
  | _ => trivial

theorem Error.Concerns.mono {err : Error} {es fs : List Expr} (h : err.Concerns es)
    (hsub : es ⊆ fs) : err.Concerns fs := by
  obtain ⟨cause, position⟩ := err
  cases cause with
  | malformedNode message =>
    obtain ⟨hmessage, elements, span, hmem, hfault⟩ := h
    exact ⟨hmessage, elements, span, hsub hmem, hfault⟩
  | undefinedVariable id =>
    obtain ⟨span, hmem, hspan⟩ := h
    exact ⟨span, hsub hmem, hspan⟩
  | numberParseError text => exact h
  | _ => trivial

section

variable {α : Type} {es fs : List Expr} {r : Except Error α}

/-- The step fails with an ordinary error. -/
abbrev FailsOrdinarily (r : Except Error α) : Prop :=
  FailsIn (fun err : Error => err.cause.isOrdinary = true) r

/-- The step fails with an error about the given expressions. -/
abbrev FailsAbout (es : List Expr) (r : Except Error α) : Prop := FailsIn (Error.Concerns · es) r

theorem FailsIn.about (h : FailsOrdinarily r) (es : List Expr) : FailsAbout es r :=
  fun err herr => err.concerns_of_isOrdinary (h err herr) es

theorem FailsIn.mono (h : FailsAbout es r) (hsub : es ⊆ fs) : FailsAbout fs r :=
  fun err herr => (h err herr).mono hsub

end

/-! ### Types that are asked for -/

/-- The expression has a type, or it is clear that a call is to blame. -/
inductive TypedExpr.Resolvable : TypedExpr → Prop where
  | typed {t : TypedExpr} : t.type?.isSome = true → Resolvable t
  | call {callee : String} {arguments : List TypedExpr} {returns : Option ReturnType}
      {span : Span} : Resolvable (.call callee arguments returns span)
  | unary {op : Operator} {operand : TypedExpr} {span : Span} : Resolvable operand →
      Resolvable (.unary op operand span)

theorem TypedExpr.Resolvable.failsOrdinarily {t : TypedExpr} (h : t.Resolvable) :
    FailsOrdinarily t.resolvedType := by
  induction h with
  | typed ht =>
    obtain ⟨type, htype⟩ := Option.isSome_iff_exists.1 ht
    rw [resolvedType_eq_ok_iff.2 htype]
    exact failsIn_ok _
  | call =>
    unfold resolvedType
    split
    · exact failsIn_ok _
    · rename_i hunary
      cases hunary
    · exact failsIn_error rfl
    · exact failsIn_error rfl
    · rename_i hcall
      exact (hcall _ _ _ _ rfl).elim
  | unary _ ih =>
    unfold resolvedType
    split
    · exact failsIn_ok _
    · rename_i hunary
      cases hunary
      exact ih
    · rename_i hcall
      cases hcall
    · rename_i hcall
      cases hcall
    · rename_i hunary _ _
      exact (hunary _ _ _ rfl).elim

variable {table : SymbolTable}

theorem Expr.lower_resolvable {e : Expr} {t : TypedExpr} (h : e.lower table = .ok t) :
    t.Resolvable := by
  induction e generalizing t with
  | unary op operand span ih =>
    obtain ⟨o, ho, -, rfl⟩ := lower_unary_eq_ok_iff.1 h
    exact .unary (ih ho)
  | call callee arguments span ih =>
    obtain ⟨ts, -, rfl⟩ := lower_call_eq_ok_iff.1 h
    exact .call
  | _ =>
    -- by the typing rules every other form has a type
    have htype := hasType_of_lower h
    refine .typed ?_
    generalize t.type? = found at htype
    cases htype
    rfl

/-! ### Elements of lists -/

theorem failsIn_mapM {α β ε : Type} {P : ε → Prop} {f : α → Except ε β} {as : List α}
    (h : ∀ a ∈ as, FailsIn P (f a)) : FailsIn P (as.mapM f) := by
  induction as with
  | nil => exact failsIn_ok _
  | cons a as ih =>
    obtain ⟨ha, has⟩ := List.forall_mem_cons.1 h
    rw [List.mapM_cons]
    exact failsIn_bind ha fun _ _ => failsIn_bind (ih has) fun _ _ => failsIn_ok _

theorem Expr.failsAbout_element {elements : List Expr} {span : Span} {e : Expr}
    (he : e ∈ elements) : FailsAbout [.list elements span] e.element := by
  unfold element
  split
  · exact failsIn_ok _
  · exact failsIn_ok _
  · exact failsIn_ok _
  · exact failsIn_ok _
  · exact failsIn_ok _
  · rename_i hplain hplusInt hplusFloat hminusInt hminusFloat
    refine failsIn_error ⟨rfl, elements, span, List.mem_singleton_self _, e, he, ?_, rfl⟩
    rintro (_ | ⟨hop, hnumber⟩)
    · exact hplain _ _ rfl
    · rename_i op l _ _
      simp only [List.mem_cons, List.not_mem_nil, or_false] at hop
      cases l with
      | bool b => exact hnumber rfl
      | int n =>
        rcases hop with rfl | rfl
        · exact hplusInt _ _ _ rfl
        · exact hminusInt _ _ _ rfl
      | float x =>
        rcases hop with rfl | rfl
        · exact hplusFloat _ _ _ rfl
        · exact hminusFloat _ _ _ rfl

/-- The constants of the elements are finite as the elements are. -/
theorem Expr.finite_of_element {e : Expr} (hs : e.Shaped Literal.Finite) {l : Literal}
    (h : e.element = .ok l) : l.Finite := by
  unfold element at h
  split at h
  · cases h
    cases hs with
    | constant hl => exact hl
  · cases h
    exact nofun
  · cases h
    cases hs with
    | unary _ hs => cases hs with
      | constant hl => exact hl
  · cases h
    exact nofun
  · rename_i x _ _
    cases h
    cases hs with
    | unary _ hs => cases hs with
      | constant hl =>
        rintro _ ⟨⟩
        exact hl x rfl
  · cases h

namespace TypedExpr

variable {span : Span}

theorem mkConstant_eq_ok {l : Literal} (h : l.Finite) :
    mkConstant l span = .ok (.constant l span) :=
  mkConstant_eq_ok_iff.2 ⟨h, rfl⟩

theorem checkElements_failsOrdinarily {type : ValueType} {elements : List Literal}
    (h : ∀ l ∈ elements, l.Finite) : FailsOrdinarily (checkElements type span elements) := by
  induction elements with
  | nil => exact failsIn_ok _
  | cons l ls ih =>
    obtain ⟨hl, hls⟩ := List.forall_mem_cons.1 h
    rw [checkElements, mkConstant_eq_ok hl]
    refine failsIn_bind (failsIn_ok _) fun t ht => ?_
    cases ht
    refine failsIn_bind (Resolvable.typed rfl).failsOrdinarily fun received _ => ?_
    split
    · exact ih hls
    · exact failsIn_error rfl

theorem mkArray_failsOrdinarily {elements : List Literal} (h : ∀ l ∈ elements, l.Finite) :
    FailsOrdinarily (mkArray elements span) := by
  cases elements with
  | nil => exact failsIn_error rfl
  | cons l ls =>
    rw [mkArray, mkConstant_eq_ok (h l List.mem_cons_self)]
    refine failsIn_bind (failsIn_ok _) fun t ht => ?_
    cases ht
    refine failsIn_bind (Resolvable.typed rfl).failsOrdinarily fun type _ => ?_
    split
    · exact failsIn_error rfl
    · exact failsIn_bind (checkElements_failsOrdinarily h) fun _ _ => failsIn_ok _

theorem mkBinary_failsOrdinarily {left right : TypedExpr} {op : Operator}
    (hop : op.family = .arithmetic) (hl : left.Resolvable) (hr : right.Resolvable) :
    FailsOrdinarily (mkBinary left op right span) := by
  rw [mkBinary, if_neg (not_not.2 hop)]
  refine failsIn_bind hl.failsOrdinarily fun l _ => failsIn_bind hr.failsOrdinarily fun r _ => ?_
  split
  · exact failsIn_ok _
  · split
    · exact failsIn_error rfl
    · exact failsIn_error rfl

theorem mkIndex_failsOrdinarily {value : TypedExpr} (h : value.Resolvable) :
    FailsOrdinarily (mkIndex value) := by
  refine failsIn_bind h.failsOrdinarily fun received _ => ?_
  split
  · exact failsIn_ok _
  · exact failsIn_error rfl

theorem mkSubscript_failsOrdinarily {value i : TypedExpr} (h : value.Resolvable) :
    FailsOrdinarily (mkSubscript value (.index i) span) := by
  refine failsIn_bind h.failsOrdinarily fun type _ => ?_
  split
  · exact failsIn_error rfl
  · split
    · exact failsIn_error rfl
    · exact failsIn_ok _

end TypedExpr

/-! ### Expressions -/

namespace Expr

theorem failsAbout_lowerAll {es : List Expr}
    (h : ∀ e ∈ es, FailsAbout e.evaluated (e.lower table)) :
    FailsAbout (evaluatedAll es) (lowerAll table es) := by
  induction es with
  | nil => exact failsIn_ok _
  | cons e es ih =>
    obtain ⟨he, hes⟩ := List.forall_mem_cons.1 h
    rw [lowerAll, evaluatedAll]
    exact failsIn_bind (he.mono (List.subset_append_left _ _)) fun _ _ =>
      failsIn_bind ((ih hes).mono (List.subset_append_right _ _)) fun _ _ => failsIn_ok _

/-- **An expression of the grammar's form that cannot be typed** has an ordinary error in it, a
variable that has no value, or an element of a list that is no constant. -/
theorem failsAbout_lower {e : Expr} (hs : e.Shaped Literal.Finite) :
    FailsAbout e.evaluated (e.lower table) := by
  induction hs with
  | @name id span =>
    rw [lower, TypedExpr.mkVariable, SymbolTable.reference]
    cases table.lookup id with
    | none => exact failsIn_error ⟨span, List.mem_singleton_self _, rfl⟩
    | some v => exact failsIn_ok (TypedExpr.var { v with mode := .reuse } span)
  | @constant value span hvalue =>
    rw [lower, TypedExpr.mkConstant_eq_ok hvalue]
    exact failsIn_ok _
  | @list elements span helements _ =>
    refine failsIn_bind (failsIn_mapM fun e he => failsAbout_element he) fun ls hls => ?_
    refine FailsIn.about (TypedExpr.mkArray_failsOrdinarily fun l hl => ?_) _
    obtain ⟨e, he, hel⟩ := exists_of_mem_right (mapM_eq_ok_iff.1 hls) hl
    exact finite_of_element (helements e he) hel
  | @compare left ops comparators span hne hlen hops _ _ ihl ih =>
    rw [lower]
    refine failsIn_bind (ihl.mono fun e he => by simp [evaluated, he]) fun l _ =>
      failsIn_bind ((failsAbout_lowerAll ih).mono fun e he => by simp [evaluated, he])
        fun ts hts => ?_
    have hlength := (lowerAll_eq_ok_iff.1 hts).length_eq
    rw [TypedExpr.mkCompare_eq_ok_iff.2 ⟨hne, hlen.trans hlength, hops, rfl⟩]
    exact failsIn_ok _
  | @binary left op right span hop _ _ ihl ihr =>
    rw [lower]
    refine failsIn_bind (ihl.mono fun e he => by simp [evaluated, he]) fun l hl =>
      failsIn_bind (ihr.mono fun e he => by simp [evaluated, he]) fun r hr => ?_
    refine FailsIn.about ?_ _
    exact TypedExpr.mkBinary_failsOrdinarily hop (lower_resolvable hl) (lower_resolvable hr)
  | @unary op operand span hop _ ih =>
    rw [lower]
    refine failsIn_bind (ih.mono fun e he => by simp [evaluated, he]) fun o _ => ?_
    rw [TypedExpr.mkUnary_eq_ok_iff.2 ⟨by simpa using hop, rfl⟩]
    exact failsIn_ok _
  | @boolOp op values span hop hlen _ ih =>
    rw [lower]
    refine failsIn_bind ((failsAbout_lowerAll ih).mono fun e he => by simp [evaluated, he])
      fun ts hts => ?_
    have hlength := (lowerAll_eq_ok_iff.1 hts).length_eq
    rw [TypedExpr.mkBoolChain_eq_ok_iff.2 ⟨by simpa using hop, hlength ▸ hlen, rfl⟩]
    exact failsIn_ok _
  | @subscript value slice span _ _ ihv ihs =>
    rw [lower]
    refine failsIn_bind (ihv.mono fun e he => by simp [evaluated, he]) fun v hv =>
      failsIn_bind (ihs.mono fun e he => by simp [evaluated, he]) fun i hi =>
        failsIn_bind ((TypedExpr.mkIndex_failsOrdinarily (lower_resolvable hi)).about _)
          fun index hindex => ?_
    obtain ⟨-, rfl⟩ := TypedExpr.mkIndex_eq_ok_iff.1 hindex
    exact (TypedExpr.mkSubscript_failsOrdinarily (lower_resolvable hv)).about _
  | @call callee arguments span _ ih =>
    rw [lower]
    exact failsIn_bind ((failsAbout_lowerAll ih).mono fun e he => by simp [evaluated, he])
      fun _ _ => failsIn_ok _

end Expr

/-! ### Assignments -/

open Lowering

theorem failsIn_bind_lowering {α β : Type} {P : Error → Prop} {step : Lowering α}
    {f : α → Lowering β} (h : FailsIn P (step table).result)
    (hf : ∀ a, (step table).result = .ok a → FailsIn P (f a (step table).table).result) :
    FailsIn P ((step >>= f) table).result := by
  simp only [Bind.bind, Lowering.bind]
  rcases hstep : step table with ⟨_ | a, table₁, events⟩
  · rw [hstep] at h
    exact failsIn_error (h _ rfl)
  · rw [hstep] at hf
    exact hf a rfl

/-- A target that exists has a text, and so has one that was given a type. -/
theorem Settles.text?_isSome {type : ValueType} {size : Option Nat} {table₁ : SymbolTable}
    {targets settled : List Target} (h : Settles type size targets table settled table₁) :
    ∀ t ∈ settled, t.text?.isSome = true := by
  cases h with
  | existing hs =>
    intro t ht
    cases t with
    | subscript e => rfl
    | var v =>
      have hmode : v.mode ≠ .fresh := by simpa [Target.isNew, Variable.isNew] using (hs _ ht).1
      cases hv : v.mode with
      | fresh => exact absurd hv hmode
      | reuse => simp [Target.text?, Variable.text?, hv]
  | @introduced v w _ hn hsize =>
    have hmode : v.mode = .fresh := by simpa [Variable.isNew] using hn
    refine List.forall_mem_singleton.2 ?_
    have hsome : ¬(type.isList = true ∧ size = none) := by
      rintro ⟨hlist, rfl⟩
      cases hsize hlist
    simpa [Target.text?, Variable.text?, hmode] using TypedStmt.declaration?_isSome v.name hsome

namespace TypedStmt

variable {type : ValueType} {size : Option Nat} {span : Span} {targets : List Target}
  {value : TypedExpr}

theorem checkTargets_failsOrdinarily (type : ValueType) (targets : List Target) (span : Span) :
    FailsOrdinarily (checkTargets type targets span) := by
  unfold checkTargets
  split
  · exact failsIn_ok _
  · split
    · exact failsIn_error rfl
    · split
      · exact failsIn_error rfl
      · exact failsIn_ok _

theorem checkStored_failsOrdinarily (type : ValueType) (span : Span) (t : Target) :
    FailsOrdinarily (checkStored type span t) := by
  unfold checkStored
  split
  · exact failsIn_ok _
  · exact failsIn_error rfl

/-- A pending entry can always be given a type, so only the type itself may be wrong. -/
theorem settle_failsOrdinarily {t : Target}
    (h : ∀ v, t = .var v → v.isNew = true → table.Awaits v) :
    FailsOrdinarily (settle type size span t table).result := by
  cases t with
  | subscript e => exact checkStored_failsOrdinarily _ _ _
  | var v =>
    by_cases hnew : v.isNew = true
    · rw [settle, if_pos hnew]
      by_cases hsize : type.isList = true ∧ size = none
      · obtain ⟨hlist, rfl⟩ := hsize
        rw [introduce, if_pos (by simp [hlist])]
        exact failsIn_error rfl
      · rw [introduce_eq (h v rfl hnew) hsize]
        exact failsIn_ok _
    · rw [settle, if_neg hnew]
      exact checkStored_failsOrdinarily _ _ _

theorem settleAll_failsOrdinarily (hcheck : checkTargets type targets span = .ok ())
    (h : ∀ v, .var v ∈ targets → v.isNew = true → table.Awaits v) :
    FailsOrdinarily (settleAll type size span targets table).result := by
  rcases checkTargets_eq_ok hcheck with hlength | hold
  · -- a single target, which may be new
    match targets, hlength with
    | [], _ => exact failsIn_ok _
    | [t], _ =>
      have ht := fun v (hv : t = .var v) => h v (hv ▸ List.mem_singleton_self _)
      exact failsIn_bind_lowering (settle_failsOrdinarily ht) fun _ _ =>
        failsIn_bind_lowering (failsIn_ok _) fun _ _ => failsIn_ok _
  · clear h hcheck
    induction targets generalizing table with
    | nil => exact failsIn_ok _
    | cons t ts ih =>
      obtain ⟨ht, hts⟩ := List.forall_mem_cons.1 hold
      refine failsIn_bind_lowering (settle_failsOrdinarily ?_) fun _ _ =>
        failsIn_bind_lowering (ih hts) fun _ _ => failsIn_ok _
      rintro v rfl hnew
      exact absurd hnew (by simpa [Target.isNew] using ht)

theorem mkAssign_failsOrdinarily (hne : targets ≠ []) (hvalue : value.Resolvable)
    (h : ∀ v, .var v ∈ targets → v.isNew = true → table.Awaits v) :
    FailsOrdinarily (mkAssign targets value span table).result := by
  rw [mkAssign, if_neg (by simpa using hne)]
  refine failsIn_bind_lowering hvalue.failsOrdinarily fun type _ =>
    failsIn_bind_lowering (checkTargets_failsOrdinarily _ _ _) fun _ hcheck =>
      failsIn_bind_lowering (settleAll_failsOrdinarily hcheck h) fun settled hsettled => ?_
  have htext := (settleAll_yields hcheck (yields_of_result hsettled)).text?_isSome
  rw [if_pos (by simpa using htext)]
  exact failsIn_ok _

theorem checkUpdate_failsOrdinarily (op : Operator) (target value : ValueType) (span : Span) :
    FailsOrdinarily (checkUpdate op target value span) := by
  unfold checkUpdate
  split
  · exact failsIn_error rfl
  · split <;> split <;> first | exact failsIn_error rfl | exact failsIn_ok _

theorem mkAugAssign_failsOrdinarily {target : TypedExpr} {op : Operator}
    (hop : op.family = .arithmetic) (hupdatable : target.isUpdatable = true)
    (htarget : target.Resolvable) (hvalue : value.Resolvable) :
    FailsOrdinarily (mkAugAssign target op value span) := by
  rw [mkAugAssign, if_neg (not_not.2 hop), if_neg (by simp [hupdatable])]
  refine failsIn_bind htarget.failsOrdinarily fun targetType _ =>
    failsIn_bind hvalue.failsOrdinarily fun valueType _ =>
      failsIn_bind (checkUpdate_failsOrdinarily _ _ _ _) fun _ _ => failsIn_ok _

theorem checkElse_failsOrdinarily (orelse : Option Position) :
    FailsOrdinarily (checkElse orelse) := by
  cases orelse with
  | none => exact failsIn_ok _
  | some position => exact failsIn_error rfl

theorem mkReturn_failsOrdinarily (h : value.Resolvable) :
    FailsOrdinarily (mkReturn (some value) span) :=
  failsIn_bind h.failsOrdinarily fun _ _ => failsIn_ok _

end TypedStmt

/-! ### Statements -/

namespace Expr

theorem failsAbout_lowerTarget {e : Expr} (ha : e.isAssignable = true)
    (hs : e.Shaped Literal.Finite) : FailsAbout e.evaluatedTarget (e.lowerTarget table).result := by
  cases e with
  | name id span => exact failsIn_bind_lowering (failsIn_ok _) fun _ _ => failsIn_ok _
  | subscript value slice span =>
    exact failsIn_bind_lowering (failsAbout_lower hs) fun _ _ => failsIn_ok _
  | _ => cases ha

theorem failsAbout_lowerTargets {es : List Expr} (ha : ∀ e ∈ es, e.isAssignable = true)
    (hs : ∀ e ∈ es, e.Shaped Literal.Finite) :
    FailsAbout (es.flatMap evaluatedTarget) (lowerTargets es table).result := by
  induction es generalizing table with
  | nil => exact failsIn_ok _
  | cons e es ih =>
    obtain ⟨hae, haes⟩ := List.forall_mem_cons.1 ha
    obtain ⟨hse, hses⟩ := List.forall_mem_cons.1 hs
    rw [lowerTargets, List.flatMap_cons]
    exact failsIn_bind_lowering
      ((failsAbout_lowerTarget hae hse).mono (List.subset_append_left _ _)) fun _ _ =>
        failsIn_bind_lowering ((ih haes hses).mono (List.subset_append_right _ _)) fun _ _ =>
          failsIn_ok _

/-- A name or a subscript is typed as a variable or a subscript. -/
theorem isUpdatable_of_lower {e : Expr} {t : TypedExpr} (ha : e.isAssignable = true)
    (h : e.lower table = .ok t) : t.isUpdatable = true := by
  cases e with
  | name id span =>
    obtain ⟨v, -, rfl⟩ := TypedExpr.mkVariable_eq_ok_iff.1 h
    rfl
  | subscript value slice span =>
    obtain ⟨_, _, -, -, -, -, -, rfl⟩ := lower_subscript_eq_ok_iff.1 h
    rfl
  | _ => cases ha

end Expr

namespace Stmt

theorem failsAbout_noted {step : Lowering TypedStmt} {es : List Expr}
    (h : FailsAbout es (step table).result) : FailsAbout es ((step >>= noted) table).result :=
  failsIn_bind_lowering h fun _ _ => failsIn_ok _

theorem failsAbout_lowerAll {ss : List Stmt}
    (h : ∀ s ∈ ss, ∀ table, FailsAbout s.evaluated (s.lower table).result) :
    FailsAbout (evaluatedAll ss) (lowerAll ss table).result := by
  induction ss generalizing table with
  | nil => exact failsIn_ok _
  | cons s ss ih =>
    obtain ⟨hs, hss⟩ := List.forall_mem_cons.1 h
    rw [lowerAll, evaluatedAll]
    exact failsIn_bind_lowering ((hs table).mono (List.subset_append_left _ _)) fun _ _ =>
      failsIn_bind_lowering ((ih hss).mono (List.subset_append_right _ _)) fun _ _ => failsIn_ok _

/-- **A statement of the grammar's form that cannot be typed** has an ordinary error in it, a
variable that is read before it has a value, or an element of a list that is no constant. -/
theorem failsAbout_lower {s : Stmt} (hs : s.Shaped Literal.Finite) (table : SymbolTable) :
    FailsAbout s.evaluated (s.lower table).result := by
  induction hs generalizing table with
  | @assign targets value span hne hassignable htargets hvalue =>
    rw [lower]
    refine failsIn_bind_lowering
      ((Expr.failsAbout_lower hvalue).mono (List.subset_append_left _ _)) fun v hv => ?_
    refine failsIn_bind_lowering
      ((Expr.failsAbout_lowerTargets hassignable htargets).mono (List.subset_append_right _ _))
      fun ts hts => ?_
    have hyields := yields_of_result hts
    have hlength := (lowerTargets_yields hyields).1.length_eq
    have hfound : ts ≠ [] := by
      rintro rfl
      exact hne (List.length_eq_zero_iff.1 hlength)
    refine failsAbout_noted (FailsIn.about ?_ _)
    exact TypedStmt.mkAssign_failsOrdinarily hfound (Expr.lower_resolvable hv)
      (Expr.lowerTargets_awaits hyields).1
  | @augAssign target op value span ha hop htarget hvalue =>
    rw [lower]
    refine failsIn_bind_lowering
      ((Expr.failsAbout_lower hvalue).mono (List.subset_append_left _ _)) fun v hv => ?_
    refine failsIn_bind_lowering
      ((Expr.failsAbout_lower htarget).mono (List.subset_append_right _ _)) fun t ht => ?_
    refine failsAbout_noted (FailsIn.about ?_ _)
    exact TypedStmt.mkAugAssign_failsOrdinarily hop (Expr.isUpdatable_of_lower ha ht)
      (Expr.lower_resolvable ht) (Expr.lower_resolvable hv)
  | @ifThen test body orelse span htest _ _ ih _
  | @whileLoop test body orelse span htest _ _ ih _ =>
    rw [lower]
    refine failsIn_bind_lowering
      ((Expr.failsAbout_lower htest).mono (List.subset_append_left _ _)) fun _ _ => ?_
    refine failsIn_bind_lowering
      ((failsAbout_lowerAll ih).mono (List.subset_append_right _ _)) fun _ _ => ?_
    exact failsAbout_noted (FailsIn.about
      (failsIn_bind (TypedStmt.checkElse_failsOrdinarily _) fun _ _ => failsIn_ok _) _)
  | @ret value span hvalue =>
    cases value with
    | none =>
      rw [lower]
      exact failsAbout_noted (failsIn_ok _)
    | some value =>
      rw [lower]
      refine failsIn_bind_lowering (Expr.failsAbout_lower (hvalue value rfl)) fun v hv => ?_
      exact failsAbout_noted
        ((TypedStmt.mkReturn_failsOrdinarily (Expr.lower_resolvable hv)).about _)
  | @expression e span he =>
    rw [lower]
    exact failsIn_bind_lowering (Expr.failsAbout_lower he) fun _ _ => failsIn_ok _

end Stmt

end DefToC
