import DefToC.Proofs.Function.Emission

/-!
# Where array literals stand

In the output language a list in braces can only initialise a new array. `TypedStmt.arraysAll` lists
the array literals of a typed block, each with the place where it stands.

Some places are guarded by a check of types, others by a check of their own: an arithmetic operator
refuses a list, so do an index and an update in place, only variables have elements, and a list is
stored into one variable at a time. The remaining places take whatever they are given
(`ArrayPlace.isUnguarded`). So in a function that is written out an array literal initialises one
new array of its own size exactly if it does not stand in such a place (`arrays_initialise_iff`); an
array that is given back is one that does (`returned_array`).
-/

namespace DefToC

/-! ### Places -/

/-- What an array literal is part of. -/
inductive ArrayPlace where
  /-- The whole value of an assignment to the given targets. -/
  | assigned (targets : List Target)
  /-- The value by which a variable is updated in place. -/
  | updating
  /-- What is stored into. -/
  | target
  /-- The condition of a conditional or a loop. -/
  | condition
  /-- What the function gives back. -/
  | returned
  /-- An expression on its own. -/
  | statement
  /-- An operand of a comparison. -/
  | compared
  /-- An operand of an arithmetic operator. -/
  | combined
  /-- The operand of an operator in front of it. -/
  | signed
  /-- An operand of a boolean operator. -/
  | joined
  /-- What an element is taken of. -/
  | subscripted
  /-- An index. -/
  | indexing
  /-- An argument of a call. -/
  | argument

/-- The places in which nothing keeps an array literal from standing. A variable that exists may be
stored into if it is a list of the same type. -/
def ArrayPlace.isUnguarded : ArrayPlace → Bool
  | assigned [.var v] => !v.isNew
  | condition | returned | statement | compared | signed | joined | argument => true
  | _ => false

/-- An array literal in a typed block. -/
structure ArrayUse where
  /-- Where it stands. -/
  place : ArrayPlace
  /-- Its elements. -/
  elements : List Literal

/-- The literal is the whole value of an assignment to one new variable, which is declared with the
size of the literal. -/
def ArrayUse.Initialises (use : ArrayUse) : Prop :=
  ∃ v : Variable, use.place = .assigned [.var v] ∧ v.isNew = true ∧
    v.size = some use.elements.length

namespace TypedExpr

mutual

/-- The array literals in an expression that stands in the given place. -/
def arrays (place : ArrayPlace) : TypedExpr → List ArrayUse
  | var _ _ | constant _ _ => []
  | array elements _ => [⟨place, elements⟩]
  | compare left _ comparators _ => left.arrays .compared ++ arraysAll .compared comparators
  | binary left _ right _ => left.arrays .combined ++ right.arrays .combined
  | unary _ operand _ => operand.arrays .signed
  | boolChain _ values _ => arraysAll .joined values
  | subscript value slice _ => value.arrays .subscripted ++ slice.arrays .indexing
  | index value => value.arrays .indexing
  | call _ arguments _ _ => arraysAll .argument arguments

/-- The array literals in several expressions, which all stand in the same kind of place. -/
def arraysAll (place : ArrayPlace) : List TypedExpr → List ArrayUse
  | [] => []
  | e :: es => e.arrays place ++ arraysAll place es

end

end TypedExpr

/-- The array literals in a target. -/
def Target.arrays : Target → List ArrayUse
  | var _ => []
  | subscript e => e.arrays .target

namespace TypedStmt

mutual

/-- The array literals in a statement. -/
def arrays : TypedStmt → List ArrayUse
  | assign targets value _ => value.arrays (.assigned targets) ++ targets.flatMap Target.arrays
  | augAssign target _ value _ => value.arrays .updating ++ target.arrays .target
  | ifThen test body _ => test.arrays .condition ++ arraysAll body
  | whileLoop test body _ => test.arrays .condition ++ arraysAll body
  | ret none _ _ => []
  | ret (some value) _ _ => value.arrays .returned
  | expression e _ => e.arrays .statement

/-- The array literals in a block. -/
def arraysAll : List TypedStmt → List ArrayUse
  | [] => []
  | s :: ss => s.arrays ++ arraysAll ss

end

end TypedStmt

/-! ### Lists among the types -/

theorem ValueType.isList_of_listOf? {element type : ValueType} (h : element.listOf? = some type) :
    type.isList = true := by
  cases element <;> cases h <;> rfl

theorem ValueType.not_isList_of_element? {type element : ValueType}
    (h : type.element? = some element) : element.isList = false := by
  cases type <;> cases h <;> rfl

/-- Arithmetic combines no lists. -/
theorem Operator.not_isList_of_resultType? {op : Operator} {l r : ValueType}
    (h : (op.resultType? l r).isSome = true) : l.isList = false ∧ r.isList = false := by
  cases l <;> cases r <;> cases op <;> first
    | exact ⟨rfl, rfl⟩
    | cases h

theorem TypedExpr.isList_of_type?_array {elements : List Literal} {span : Span} {type : ValueType}
    (h : (array elements span).type? = some type) : type.isList = true := by
  obtain ⟨first, -, hfirst⟩ := Option.bind_eq_some_iff.1 h
  exact ValueType.isList_of_listOf? hfirst

/-! ### Expressions -/

section

variable {table table₁ table₂ : SymbolTable}

/-- A use of an array literal in an expression that stands in `place` is the whole expression, or it
stands in a place without a guard. -/
def ArrayUse.Stands (place : ArrayPlace) (t : TypedExpr) (use : ArrayUse) : Prop :=
  (use.place = place ∧ ∃ span, t = .array use.elements span) ∨ use.place.isUnguarded = true

/-- Where the place has no guard, it does not matter whether the literal is the whole expression. -/
theorem ArrayUse.Stands.isUnguarded {place : ArrayPlace} {t : TypedExpr} {use : ArrayUse}
    (h : use.Stands place t) (hplace : place.isUnguarded = true) :
    use.place.isUnguarded = true := by
  rcases h with ⟨heq, -⟩ | h
  · rw [heq, hplace]
  · exact h

/-- An expression that is no list is no array literal, so the place does not matter either. -/
theorem ArrayUse.Stands.of_type? {place : ArrayPlace} {t : TypedExpr} {use : ArrayUse}
    {type : ValueType} (h : use.Stands place t) (ht : t.type? = some type)
    (htype : type.isList = false) : use.place.isUnguarded = true := by
  rcases h with ⟨-, span, rfl⟩ | h
  · rw [TypedExpr.isList_of_type?_array ht] at htype
    cases htype
  · exact h

/-- **Inside an expression array literals stand in places without a guard only.** -/
theorem lower_arrays {e : Expr} {t : TypedExpr} (h : e.lower table = .ok t) (place : ArrayPlace) :
    ∀ use ∈ t.arrays place, use.Stands place t := by
  have all {es : List Expr} {ts : List TypedExpr} {inner : ArrayPlace}
      (hinner : inner.isUnguarded = true)
      (ih : ∀ e ∈ es, ∀ {t}, e.lower table = .ok t → ∀ place, ∀ use ∈ t.arrays place,
        use.Stands place t)
      (h : List.Forall₂ (Expr.LowersTo table) es ts) :
      ∀ use ∈ TypedExpr.arraysAll inner ts, use.place.isUnguarded = true := by
    induction h with
    | nil => exact List.forall_mem_nil _
    | cons ht _ ihs =>
      obtain ⟨hfirst, hlater⟩ := List.forall_mem_cons.1 ih
      exact List.forall_mem_append.2
        ⟨fun use huse => (hfirst ht inner use huse).isUnguarded hinner, ihs hlater⟩
  induction e generalizing t place with
  | name id span =>
    obtain ⟨w, -, rfl⟩ := TypedExpr.mkVariable_eq_ok_iff.1 h
    exact List.forall_mem_nil _
  | constant value span =>
    obtain ⟨-, rfl⟩ := TypedExpr.mkConstant_eq_ok_iff.1 h
    exact List.forall_mem_nil _
  | list elements span =>
    obtain ⟨ls, -, -, -, rfl⟩ := Expr.lower_list_eq_ok_iff.1 h
    exact List.forall_mem_singleton.2 (.inl ⟨rfl, span, rfl⟩)
  | compare left ops comparators span ihl ihc =>
    obtain ⟨l, ts, hl, hts, -, -, -, rfl⟩ := Expr.lower_compare_eq_ok_iff.1 h
    rw [TypedExpr.arrays, List.forall_mem_append]
    constructor
    · intro use huse
      exact .inr ((ihl hl .compared use huse).isUnguarded rfl)
    · intro use huse
      exact .inr (all rfl (fun e he _ => ihc e he) hts use huse)
  | binary left op right span ihl ihr =>
    obtain ⟨l, r, hl, hr, -, ⟨a, b, ha, hb, hop⟩, rfl⟩ := Expr.lower_binary_eq_ok_iff.1 h
    obtain ⟨hleft, hright⟩ := Operator.not_isList_of_resultType? hop
    rw [TypedExpr.arrays, List.forall_mem_append]
    constructor
    · intro use huse
      exact .inr ((ihl hl .combined use huse).of_type? ha hleft)
    · intro use huse
      exact .inr ((ihr hr .combined use huse).of_type? hb hright)
  | unary op operand span ih =>
    obtain ⟨o, ho, -, rfl⟩ := Expr.lower_unary_eq_ok_iff.1 h
    rw [TypedExpr.arrays]
    intro use huse
    exact .inr ((ih ho .signed use huse).isUnguarded rfl)
  | boolOp op values span ih =>
    obtain ⟨ts, hts, -, -, rfl⟩ := Expr.lower_boolOp_eq_ok_iff.1 h
    intro use huse
    exact .inr (all rfl (fun e he _ => ih e he) hts use huse)
  | subscript value slice span ihv ihs =>
    obtain ⟨v, i, hv, hi, hint, hvar, -, rfl⟩ := Expr.lower_subscript_eq_ok_iff.1 h
    rw [TypedExpr.arrays, TypedExpr.arrays, List.forall_mem_append]
    constructor
    · intro use huse
      rcases ihv hv .subscripted use huse with ⟨-, _, rfl⟩ | huse
      · cases hvar
      · exact .inr huse
    · intro use huse
      exact .inr ((ihs hi .indexing use huse).of_type? hint rfl)
  | call callee arguments span ih =>
    obtain ⟨ts, hts, rfl⟩ := Expr.lower_call_eq_ok_iff.1 h
    intro use huse
    exact .inr (all rfl (fun e he _ => ih e he) hts use huse)

theorem Aims.arrays {e : Expr} {t : Target} (h : Aims table e t) :
    ∀ use ∈ t.arrays, use.place.isUnguarded = true := by
  cases h with
  | bound | pending => exact List.forall_mem_nil _
  | element _ ht =>
    intro use huse
    obtain ⟨v, i, -, -, -, -, -, rfl⟩ := Expr.lower_subscript_eq_ok_iff.1 ht
    rcases lower_arrays ht .target use huse with ⟨-, _, hsub⟩ | huse
    · cases hsub
    · exact huse

/-- A list can only be stored into a variable, for the elements of lists are no lists. -/
theorem Aims.exists_var {e : Expr} {t : Target} {type : ValueType} (h : Aims table e t)
    (ht : t.type? = some type) (htype : type.isList = true) : ∃ v, t = .var v := by
  cases h with
  | bound | pending => exact ⟨_, rfl⟩
  | element _ hsub =>
    obtain ⟨v, i, -, -, -, -, -, rfl⟩ := Expr.lower_subscript_eq_ok_iff.1 hsub
    obtain ⟨array, -, helement⟩ := Option.bind_eq_some_iff.1 ht
    rw [ValueType.not_isList_of_element? helement] at htype
    cases htype

/-! ### Statements -/

open Lowering

/-- A list is stored into one target. -/
theorem exists_singleton_of_checkTargets {type : ValueType} {targets : List Target} {span : Span}
    (hne : ¬targets.isEmpty = true) (htype : type.isList = true)
    (h : TypedStmt.checkTargets type targets span = .ok ()) : ∃ t, targets = [t] := by
  unfold TypedStmt.checkTargets at h
  split at h
  · rename_i hlen
    cases targets with
    | nil => exact absurd rfl hne
    | cons t later =>
      obtain rfl : later = [] := by simpa using hlen
      exact ⟨t, rfl⟩
  · split at h
    · cases h
    · cases h

/-- **An array literal is assigned to one variable.** If the variable is new, it is declared with
the size of the literal. -/
theorem mkAssign_array {es : List Expr} {targets : List Target} {elements : List Literal}
    {inner span : Span} {s : TypedStmt} (ha : List.Forall₂ (Aims table) es targets)
    (h : (TypedStmt.mkAssign targets (.array elements inner) span).Yields table₁ s table₂) :
    ∃ v : Variable, s = .assign [.var v] (.array elements inner) span ∧
      (v.isNew = true → v.size = some elements.length) := by
  obtain ⟨type, settled, htype, rfl, hsettles⟩ := mkAssign_yields h
  have hlist := TypedExpr.isList_of_type?_array htype
  -- the check of the targets came before they were settled
  obtain ⟨t, rfl⟩ : ∃ t, targets = [t] := by
    unfold TypedStmt.mkAssign at h
    split at h
    · exact absurd h not_yields_fail
    · rename_i hne
      simp only [yields_bind, yields_reading] at h
      obtain ⟨type', _, ⟨htype', -⟩, _, _, ⟨hcheck, -⟩, -⟩ := h
      rw [TypedExpr.resolvedType_eq_ok_iff, htype, Option.some.injEq] at htype'
      subst htype'
      exact exists_singleton_of_checkTargets hne hlist hcheck
  cases hsettles with
  | existing hexists =>
    obtain ⟨hold, htarget⟩ := List.forall_mem_singleton.1 hexists
    obtain ⟨e, -, he⟩ := exists_of_mem_right ha List.mem_cons_self
    obtain ⟨v, rfl⟩ := he.exists_var htarget hlist
    have hold : v.isNew = false := hold
    exact ⟨v, rfl, fun hnew => by rw [hold] at hnew; cases hnew⟩
  | introduced => exact ⟨_, rfl, fun _ => rfl⟩

/-- The array literals of a statement that is accepted initialise an array of their size, or stand
in a place without a guard. -/
def Stmt.Placed (s : Stmt) : Prop :=
  ∀ {table table₁ : SymbolTable} {t : TypedStmt}, s.lower.Yields table t table₁ →
    ∀ use ∈ t.arrays, use.Initialises ∨ use.place.isUnguarded = true

theorem arraysAll_of_placed {ss : List Stmt} (hs : ∀ s ∈ ss, s.Placed) {ts : List TypedStmt}
    (h : (Stmt.lowerAll ss).Yields table ts table₁) :
    ∀ use ∈ TypedStmt.arraysAll ts, use.Initialises ∨ use.place.isUnguarded = true := by
  induction ss generalizing table ts with
  | nil =>
    obtain ⟨rfl, rfl⟩ := yields_pure.1 h
    exact List.forall_mem_nil _
  | cons s ss ih =>
    simp only [Stmt.lowerAll, yields_bind, yields_pure] at h
    obtain ⟨t, table₂, ht, ts, _, hts, rfl, rfl⟩ := h
    obtain ⟨hs, hss⟩ := List.forall_mem_cons.1 hs
    exact List.forall_mem_append.2 ⟨hs ht, ih hss hts⟩

/-- What a whole block with a condition in front of it says of the parts. -/
theorem arrays_of_block {test : Expr} {t : TypedExpr} {ts : List TypedStmt}
    (ht : test.lower table = .ok t)
    (hts : ∀ use ∈ TypedStmt.arraysAll ts, use.Initialises ∨ use.place.isUnguarded = true) :
    ∀ use ∈ t.arrays .condition ++ TypedStmt.arraysAll ts,
      use.Initialises ∨ use.place.isUnguarded = true := by
  refine List.forall_mem_append.2 ⟨fun use huse => ?_, hts⟩
  exact .inr ((lower_arrays ht .condition use huse).isUnguarded rfl)

/-- The value of an assignment is an array literal or holds some in places without a guard. -/
theorem Stmt.placed_assign (targets : List Expr) (value : Expr) (span : Span) :
    (Stmt.assign targets value span).Placed := by
  intro table table₁ t h
  simp only [lower, yields_bind, yields_reading] at h
  obtain ⟨v, _, ⟨hv, rfl⟩, found, _, hfound, s, _, hs, h⟩ := h
  obtain ⟨rfl, rfl⟩ := noted_yields h
  obtain ⟨haims, -⟩ := lowerTargets_yields hfound
  obtain ⟨type, settled, -, rfl, hsettles⟩ := mkAssign_yields hs
  rw [TypedStmt.arrays, List.forall_mem_append]
  constructor
  · intro use huse
    rcases lower_arrays hv _ use huse with ⟨hplace, _, rfl⟩ | huse
    · obtain ⟨w, heq, hsize⟩ := mkAssign_array haims hs
      obtain ⟨rfl, -⟩ := TypedStmt.assign.inj heq
      cases hnew : w.isNew with
      | true => exact .inl ⟨w, hplace, hnew, hsize hnew⟩
      | false => exact .inr (by simp [hplace, ArrayPlace.isUnguarded, hnew])
    · exact .inr huse
  · -- a target that is settled is a variable, or as it was looked up
    cases hsettles with
    | existing =>
      intro use huse
      obtain ⟨target, htarget, huse⟩ := List.mem_flatMap.1 huse
      obtain ⟨e, -, he⟩ := exists_of_mem_right haims htarget
      exact .inr (he.arrays use huse)
    | introduced => exact List.forall_mem_nil _

/-- What is updated in place is no array literal, and the value is a number. -/
theorem mkAugAssign_not_array {target value : TypedExpr} {op : Operator} {span : Span}
    {s : TypedStmt} (h : TypedStmt.mkAugAssign target op value span = .ok s) :
    target.isUpdatable = true ∧ ∃ type, value.type? = some type ∧ type.isList = false := by
  unfold TypedStmt.mkAugAssign at h
  split at h
  · cases h
  · split at h
    · cases h
    · rename_i hupdatable
      simp only [bind_eq_ok_iff, TypedExpr.resolvedType_eq_ok_iff] at h
      obtain ⟨targetType, -, type, htype, _, hcheck, -⟩ := h
      refine ⟨by simpa using hupdatable, type, htype, ?_⟩
      by_contra hlist
      unfold TypedStmt.checkUpdate at hcheck
      cases type <;> simp_all [ValueType.isList, ValueType.isNumeric]

/-- **Every accepted statement has its array literals placed.** -/
theorem Stmt.placed (s : Stmt) : s.Placed := by
  induction s with
  | assign targets value span => exact placed_assign targets value span
  | augAssign target op value span =>
    intro table table₁ t h
    have hl := lowers_of_lower h
    cases hl with
    | augAssign hv ht hs _ =>
      obtain ⟨hupdatable, type, htype, hlist⟩ := mkAugAssign_not_array hs
      rw [TypedStmt.arrays, List.forall_mem_append]
      constructor
      · intro use huse
        exact .inr ((lower_arrays hv .updating use huse).of_type? htype hlist)
      · intro use huse
        rcases lower_arrays ht .target use huse with ⟨-, _, rfl⟩ | huse
        · cases hupdatable
        · exact .inr huse
  | ifThen test body orelse span ihb _ =>
    intro table table₁ t h
    simp only [lower, yields_bind, yields_reading, TypedStmt.mkIf, bind_eq_ok_iff] at h
    obtain ⟨t, _, ⟨ht, rfl⟩, b, _, hb, s, _, ⟨⟨_, -, hs⟩, rfl⟩, h⟩ := h
    obtain ⟨rfl, rfl⟩ := noted_yields h
    obtain rfl := Except.ok.inj hs
    exact arrays_of_block ht (arraysAll_of_placed ihb hb)
  | whileLoop test body orelse span ihb _ =>
    intro table table₁ t h
    simp only [lower, yields_bind, yields_reading, TypedStmt.mkWhile, bind_eq_ok_iff] at h
    obtain ⟨t, _, ⟨ht, rfl⟩, b, _, hb, s, _, ⟨⟨_, -, hs⟩, rfl⟩, h⟩ := h
    obtain ⟨rfl, rfl⟩ := noted_yields h
    obtain rfl := Except.ok.inj hs
    exact arrays_of_block ht (arraysAll_of_placed ihb hb)
  | ret value span =>
    intro table table₁ t h
    have hl := lowers_of_lower h
    cases hl with
    | retNone => exact List.forall_mem_nil _
    | retSome hv _ _ =>
      intro use huse
      exact .inr ((lower_arrays hv .returned use huse).isUnguarded rfl)
  | expression e span =>
    intro table table₁ t h
    have hl := lowers_of_lower h
    cases hl with
    | expression ht _ =>
      intro use huse
      exact .inr ((lower_arrays ht .statement use huse).isUnguarded rfl)

end

/-! ### Functions -/

/-- What initialises an array does not stand in a place without a guard. -/
theorem ArrayUse.Initialises.not_isUnguarded {use : ArrayUse} (h : use.Initialises) :
    use.place.isUnguarded = false := by
  obtain ⟨v, hplace, hnew, -⟩ := h
  rw [hplace, ArrayPlace.isUnguarded, hnew]
  rfl

namespace FunctionDef

/-- **An array literal of a function that is written out initialises one new array of its own size**
exactly if it does not stand in a place that nothing guards. -/
theorem arrays_initialise_iff {f : FunctionDef} {options : Options} {text : String}
    (h : (f.emit options).result = .ok text) :
    ∃ params declared body returns, f.typedParams options = .ok params ∧
      f.declaredReturn = .ok declared ∧
      (f.lowerBody params options.externs declared .empty).result = .ok body ∧
      text = String.join ((functionLines f.name params returns body).map
        (OutputLine.render options.indent)) ∧
      ∀ use ∈ TypedStmt.arraysAll body, use.Initialises ↔ use.place.isUnguarded = false := by
  obtain ⟨params, declared, body, unified, hparams, hdeclared, hbody, -, -, htext⟩ :=
    emit_eq_ok_iff.1 h
  obtain ⟨table, table₁, hlower⟩ := lowerAll_of_lowerBody hbody
  refine ⟨params, declared, body, _, hparams, hdeclared, hbody, htext, fun use huse => ?_⟩
  have hplaced := arraysAll_of_placed (fun s _ => s.placed) hlower use huse
  refine ⟨fun hinit => hinit.not_isUnguarded, fun hguarded => hplaced.resolve_right ?_⟩
  rw [hguarded]
  exact Bool.false_ne_true

/-- A function with array literals in all places that nothing guards:
`b = [0]`, `a = [1, 2]`, `if [3] == a and [4]: show(-[5], [6])`, `while [7]: [8]`, `return [9]`. -/
def spill : FunctionDef where
  name := "spill"
  params :=
    [⟨"a", some (.applied (.name "list" ⟨"f", 0⟩) [.name "int" ⟨"f", 0⟩] ⟨"f", 0⟩), .nowhere⟩]
  returns := none
  body :=
    let name id := Expr.name id .nowhere
    let ints (ns : List Int) := Expr.list (ns.map fun n => .constant (.int n) .nowhere) .nowhere
    let test := Expr.boolOp .and [.compare (ints [3]) [.eq] [name "a"] .nowhere, ints [4]] .nowhere
    let shown := Expr.call "show" [.unary .minus (ints [5]) .nowhere, ints [6]] .nowhere
    [.assign [name "b"] (ints [0]) .nowhere, .assign [name "a"] (ints [1, 2]) .nowhere,
     .ifThen test [.expression shown .nowhere] [] .nowhere,
     .whileLoop (ints [7]) [.expression (ints [8]) .nowhere] [] .nowhere,
     .ret (some (ints [9])) .nowhere]
  span := .nowhere

/-- Of the nine literals the first one initialises an array, and the others stand unguarded. -/
theorem arrays_initialise_iff_spill :
    ∃ text, (spill.emit ⟨none, [], .tab⟩).result = .ok text ∧
      ∃ body, (spill.lowerBody [⟨"a", .intList⟩] [] none .empty).result = .ok body ∧
        (TypedStmt.arraysAll body).map (fun use => use.place.isUnguarded) =
          false :: List.replicate 8 true ∧
        ∀ use ∈ TypedStmt.arraysAll body, use.Initialises ↔ use.place.isUnguarded = false := by
  have hemit : ∃ text, (spill.emit ⟨none, [], .tab⟩).result = .ok text := ⟨_, rfl⟩
  obtain ⟨text, htext⟩ := hemit
  obtain ⟨params, declared, body, returns, hparams, hdeclared, hbody, -, hiff⟩ :=
    arrays_initialise_iff htext
  cases hparams
  cases hdeclared
  refine ⟨text, htext, body, hbody, ?_, hiff⟩
  cases hbody
  rfl

/-- A function that gives back a list: `return [1, 2]`. -/
def pair : FunctionDef where
  name := "f"
  params := []
  returns := none
  body := [.ret (some (.list [.constant (.int 1) .nowhere, .constant (.int 2) .nowhere] .nowhere))
    .nowhere]
  span := .nowhere

/-- It is written out, and what it gives back initialises nothing. -/
theorem returned_array :
    (pair.emit ⟨none, [], .tab⟩).result = .ok "int * f() \x7b\n\treturn \x7b1, 2\x7d;\n\x7d\n" ∧
    ∃ body, (pair.lowerBody [] [] none .empty).result = .ok body ∧
      ∃ use ∈ TypedStmt.arraysAll body, use.place = .returned ∧ ¬use.Initialises := by
  refine ⟨by decide +kernel, _, rfl, _, List.mem_singleton.2 rfl, rfl, ?_⟩
  rintro ⟨v, hplace, -⟩
  cases hplace

end FunctionDef

end DefToC
