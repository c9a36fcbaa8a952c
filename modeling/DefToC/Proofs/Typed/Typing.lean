import DefToC.Proofs.Syntax.Induction
import DefToC.Proofs.Typed.Steps

/-!
# Typing rules

`Expr.HasType table e type` gives types to expressions by rules, one for each form of expression
and kind of operand. An expression may have no type and still be right, if it is a call whose
result is not known or not there, or has operators in front of such a call.

The checker finds the typed form of an expression bottom up and fails where it finds nothing.
`Expr.exists_lower_iff_hasType` says that it decides the rules: what it accepts is what has a type
by them, and the type that it finds is the one that they give.
-/

namespace DefToC

/-! ### The rules -/

/-- The lists and the types of their elements. -/
inductive ValueType.HasElement : ValueType → ValueType → Prop where
  | int : HasElement .intList .int
  | float : HasElement .floatList .float

/-- The type of a constant. A floating-point number that is not finite has none. -/
inductive Literal.HasType : Literal → ValueType → Prop where
  | bool (b : Bool) : HasType (.bool b) .bool
  | int (n : Int) : HasType (.int n) .int
  | float {x : Double} : x.isFinite = true → HasType (.float x) .float

/-- The types of two operands that an operator combines, and the type of the result. -/
inductive Operator.Combines : Operator → ValueType → ValueType → ValueType → Prop where
  /-- The quotient of two integers keeps its fraction. -/
  | quotient : Combines .div .int .int .float
  /-- Otherwise integers give an integer. -/
  | integer {op : Operator} : op ∈ [.add, .sub, .mult, .floorDiv, .mod] → Combines op .int .int .int
  /-- Numbers of which one is not an integer. They have no remainder and no whole quotient. -/
  | float {op : Operator} {l r : ValueType} : op ∈ [.add, .sub, .mult, .div] →
      l ∈ [.int, .float] → r ∈ [.int, .float] → l = .float ∨ r = .float → Combines op l r .float

/-- An element of a list of constants: a constant of the type, perhaps with a sign. -/
inductive Expr.IsElement (type : ValueType) : Expr → Prop where
  | plain {l : Literal} {span : Span} : l.HasType type → IsElement type (.constant l span)
  | signed {op : Operator} {l : Literal} {inner span : Span} : op ∈ [.plus, .minus] →
      l.HasType type → IsElement type (.unary op (.constant l inner) span)

/-- The expression is right, and has the type if one is given. -/
inductive Expr.HasType (table : SymbolTable) : Expr → Option ValueType → Prop where
  /-- A variable has the type that it is bound with. -/
  | name {id : String} {span : Span} {v : Variable} {type : ValueType} :
      table.lookup id = some v → v.type = some type → HasType table (.name id span) (some type)
  | constant {l : Literal} {span : Span} {type : ValueType} :
      l.HasType type → HasType table (.constant l span) (some type)
  /-- A list has elements, and they are of one type. -/
  | list {elements : List Expr} {span : Span} {element type : ValueType} :
      type.HasElement element → elements ≠ [] → (∀ e ∈ elements, e.IsElement element) →
      HasType table (.list elements span) (some type)
  /-- What is compared may be of any type, or of none. -/
  | compare {left : Expr} {ops : List Operator} {comparators : List Expr} {span : Span}
      {type : Option ValueType} {types : List (Option ValueType)} : ops ≠ [] →
      ops.length = comparators.length → (∀ op ∈ ops, op.family = .comparison) →
      HasType table left type → List.Forall₂ (HasType table) comparators types →
      HasType table (.compare left ops comparators span) (some .bool)
  /-- The operands of an arithmetic operator have types that it combines. -/
  | binary {left right : Expr} {op : Operator} {span : Span} {l r type : ValueType} :
      op.Combines l r type → HasType table left (some l) → HasType table right (some r) →
      HasType table (.binary left op right span) (some type)
  /-- An operator in front of an operand keeps its type, and its lack of one. -/
  | unary {op : Operator} {operand : Expr} {span : Span} {type : Option ValueType} :
      op ∈ [.plus, .minus, .not] → HasType table operand type →
      HasType table (.unary op operand span) type
  /-- What is joined may be of any type, or of none. -/
  | boolOp {op : Operator} {values : List Expr} {span : Span}
      {types : List (Option ValueType)} : op ∈ [.and, .or] → 2 ≤ values.length →
      List.Forall₂ (HasType table) values types →
      HasType table (.boolOp op values span) (some .bool)
  /-- Only a variable has elements. -/
  | subscript {id : String} {slice : Expr} {inner span : Span} {type element : ValueType} :
      type.HasElement element → HasType table (.name id inner) (some type) →
      HasType table slice (some .int) →
      HasType table (.subscript (.name id inner) slice span) (some element)
  /-- A call of a function that gives a value. -/
  | call {callee : String} {arguments : List Expr} {span : Span} {type : ValueType}
      {types : List (Option ValueType)} : table.returnType? callee = some (.value type) →
      List.Forall₂ (HasType table) arguments types →
      HasType table (.call callee arguments span) (some type)
  /-- A call of a function that gives none, or is not known. -/
  | untypedCall {callee : String} {arguments : List Expr} {span : Span}
      {types : List (Option ValueType)} :
      table.returnType? callee = some .void ∨ table.returnType? callee = none →
      List.Forall₂ (HasType table) arguments types →
      HasType table (.call callee arguments span) none

/-! ### Types of constants and operators -/

theorem ValueType.element?_eq_some_iff {type element : ValueType} :
    type.element? = some element ↔ type.HasElement element := by
  constructor
  · intro h
    cases type <;> cases h <;> constructor
  · rintro (_ | _) <;> rfl

theorem ValueType.listOf?_eq_some_iff {type element : ValueType} :
    element.listOf? = some type ↔ type.HasElement element := by
  constructor
  · intro h
    cases element <;> cases h <;> constructor
  · rintro (_ | _) <;> rfl

theorem Literal.hasType_iff {l : Literal} {type : ValueType} :
    l.HasType type ↔ l.Finite ∧ l.type = type := by
  constructor
  · intro h
    cases h with
    | bool b => exact ⟨by simp [Finite], rfl⟩
    | int n => exact ⟨by simp [Finite], rfl⟩
    | float hx => exact ⟨by simpa [Finite] using hx, rfl⟩
  · rintro ⟨hf, rfl⟩
    cases l with
    | bool b => exact .bool b
    | int n => exact .int n
    | float x => exact .float (hf x rfl)

/-- For the arithmetic operators the rules are those of the checker. -/
theorem Operator.combines_iff {op : Operator} {l r type : ValueType} :
    op.Combines l r type ↔ op.family = .arithmetic ∧ op.resultType? l r = some type := by
  constructor
  · intro h
    cases h with
    | quotient => exact ⟨rfl, rfl⟩
    | integer hop =>
      simp only [List.mem_cons, List.not_mem_nil, or_false] at hop
      rcases hop with rfl | rfl | rfl | rfl | rfl <;> exact ⟨rfl, rfl⟩
    | float hop hl hr hf =>
      simp only [List.mem_cons, List.not_mem_nil, or_false] at hop hl hr
      rcases hf with rfl | rfl
      · rcases hr with rfl | rfl <;> rcases hop with rfl | rfl | rfl | rfl <;> exact ⟨rfl, rfl⟩
      · rcases hl with rfl | rfl <;> rcases hop with rfl | rfl | rfl | rfl <;> exact ⟨rfl, rfl⟩
  · rintro ⟨hop, h⟩
    by_cases hint : l = .int ∧ r = .int
    · obtain ⟨rfl, rfl⟩ := hint
      cases op with
      | div =>
        cases h
        exact .quotient
      | add | sub | mult | floorDiv | mod =>
        cases h
        exact .integer (by decide)
      | _ => cases hop
    · -- the result of any two other types is a floating-point number
      have hfloat : op ∈ [.add, .sub, .mult, .div] ∧ l ∈ [.int, .float] ∧ r ∈ [.int, .float] ∧
          (l = .float ∨ r = .float) ∧ type = .float := by
        cases op <;> cases hop <;> cases l <;> cases r <;> cases h <;> simp_all
      obtain ⟨hop, hl, hr, hf, rfl⟩ := hfloat
      exact .float hop hl hr hf

/-! ### Lists of constants -/

namespace Expr

/-- The elements of lists are the expressions that stand for a constant of their type. -/
theorem isElement_iff {type element : ValueType} (ht : type.HasElement element) {e : Expr} :
    e.IsElement element ↔ ∃ l, e.element = .ok l ∧ l.HasType element := by
  constructor
  · intro h
    cases h with
    | plain hl => exact ⟨_, rfl, hl⟩
    | signed hop hl =>
      simp only [List.mem_cons, List.not_mem_nil, or_false] at hop
      cases ht with
      | int =>
        cases hl with
        | int n => rcases hop with rfl | rfl <;> exact ⟨_, rfl, .int _⟩
      | float =>
        cases hl with
        | float hx => rcases hop with rfl | rfl <;> exact ⟨_, rfl, .float hx⟩
  · rintro ⟨l, h, hl⟩
    unfold Expr.element at h
    split at h
    · cases h
      exact .plain hl
    · cases h
      exact .signed (by decide) hl
    · cases h
      exact .signed (by decide) hl
    · cases h
      cases hl
      exact .signed (by decide) (.int _)
    · cases h
      cases hl with
      | float hx => exact .signed (by decide) (.float hx)
    · cases h

/-- Expressions stand for constants of a type exactly if each of them is an element. -/
theorem forall_isElement_iff {type element : ValueType} (ht : type.HasElement element)
    {es : List Expr} : (∀ e ∈ es, e.IsElement element) ↔
      ∃ ls, es.mapM Expr.element = .ok ls ∧ ∀ l ∈ ls, l.HasType element := by
  simp only [mapM_eq_ok_iff]
  induction es with
  | nil => simp
  | cons e es ih =>
    rw [List.forall_mem_cons, ih, isElement_iff ht]
    constructor
    · rintro ⟨⟨l, hl, hlt⟩, ls, hls, hlts⟩
      exact ⟨l :: ls, .cons hl hls, List.forall_mem_cons.2 ⟨hlt, hlts⟩⟩
    · rintro ⟨_, _ | ⟨hl, hls⟩, h⟩
      obtain ⟨hlt, hlts⟩ := List.forall_mem_cons.1 h
      exact ⟨⟨_, hl, hlt⟩, _, hls, hlts⟩

end Expr

/-- An array has the type of lists of its elements. -/
theorem TypedExpr.type?_array {ls : List Literal} {span : Span} {type element : ValueType}
    (ht : type.HasElement element) (hne : ls ≠ []) (h : ∀ l ∈ ls, l.HasType element) :
    (array ls span).type? = some type := by
  obtain ⟨l, ls, rfl⟩ := List.exists_cons_of_ne_nil hne
  obtain ⟨-, hl⟩ := Literal.hasType_iff.1 (h l List.mem_cons_self)
  simp only [type?, List.head?_cons, Option.bind_some, hl, ValueType.listOf?_eq_some_iff.2 ht]

/-! ### The checker and the rules -/

namespace Expr

variable {table : SymbolTable}

/-- Accepted operands have their types, if each of them has its type whenever it is accepted. -/
theorem forall₂_hasType {es : List Expr} {ts : List TypedExpr}
    (ih : ∀ e ∈ es, ∀ {t : TypedExpr}, e.lower table = .ok t → e.HasType table t.type?)
    (h : List.Forall₂ (LowersTo table) es ts) :
    List.Forall₂ (HasType table) es (ts.map TypedExpr.type?) :=
  List.forall₂_map_right_iff.2 (forall₂_of_lowersTo ih h)

/-- Operands that have types are accepted, if each of them is accepted whenever it has a type. -/
theorem exists_forall₂_lowersTo {es : List Expr} {types : List (Option ValueType)}
    (ih : ∀ e ∈ es, ∀ {type : Option ValueType}, e.HasType table type →
      ∃ t, e.lower table = .ok t ∧ t.type? = type)
    (h : List.Forall₂ (HasType table) es types) : ∃ ts, List.Forall₂ (LowersTo table) es ts := by
  induction h with
  | nil => exact ⟨[], .nil⟩
  | cons he _ ihes =>
    obtain ⟨ih, ihs⟩ := List.forall_mem_cons.1 ih
    obtain ⟨t, ht, -⟩ := ih he
    obtain ⟨ts, hts⟩ := ihes ihs
    exact ⟨t :: ts, .cons ht hts⟩

/-- **What is accepted has its type by the rules.** -/
theorem hasType_of_lower {e : Expr} :
    ∀ {t : TypedExpr}, e.lower table = .ok t → e.HasType table t.type? := by
  induction e with
  | name id span =>
    intro t h
    obtain ⟨v, hv, rfl⟩ := TypedExpr.mkVariable_eq_ok_iff.1 h
    obtain ⟨type, ht⟩ := Option.isSome_iff_exists.1 (SymbolTable.lookup_eq_some_iff.1 hv).2
    rw [TypedExpr.type?, ht]
    exact .name hv ht
  | constant l span =>
    intro t h
    obtain ⟨hf, rfl⟩ := TypedExpr.mkConstant_eq_ok_iff.1 h
    exact .constant (Literal.hasType_iff.2 ⟨hf, rfl⟩)
  | list elements span _ =>
    intro t h
    obtain ⟨ls, hls, hne, ⟨element, hl, hall⟩, rfl⟩ := lower_list_eq_ok_iff.1 h
    obtain ⟨type, ht⟩ := Option.isSome_iff_exists.1 hl
    rw [ValueType.listOf?_eq_some_iff] at ht
    have htyped : ∀ l ∈ ls, l.HasType element := fun l hl => Literal.hasType_iff.2 (hall l hl)
    rw [TypedExpr.type?_array ht hne htyped]
    refine .list ht ?_ ((forall_isElement_iff ht).2 ⟨ls, hls, htyped⟩)
    rintro rfl
    cases hls
    exact hne rfl
  | compare left ops comparators span ihl ih =>
    intro t h
    obtain ⟨l, ts, hl, hts, hne, hlen, hops, rfl⟩ := lower_compare_eq_ok_iff.1 h
    exact .compare hne hlen hops (ihl hl) (forall₂_hasType ih hts)
  | binary left op right span ihl ihr =>
    intro t h
    obtain ⟨l, r, hl, hr, hop, ⟨a, b, ha, hb, hs⟩, rfl⟩ := lower_binary_eq_ok_iff.1 h
    obtain ⟨type, ht⟩ := Option.isSome_iff_exists.1 hs
    have hleft := ihl hl
    have hright := ihr hr
    rw [ha] at hleft
    rw [hb] at hright
    simp only [TypedExpr.type?, ha, hb, Option.bind_eq_bind, Option.bind_some, ht]
    exact .binary (Operator.combines_iff.2 ⟨hop, ht⟩) hleft hright
  | unary op operand span ih =>
    intro t h
    obtain ⟨o, ho, hop, rfl⟩ := lower_unary_eq_ok_iff.1 h
    rw [TypedExpr.type?]
    exact .unary (by simpa using hop) (ih ho)
  | boolOp op values span ih =>
    intro t h
    obtain ⟨ts, hts, hop, hlen, rfl⟩ := lower_boolOp_eq_ok_iff.1 h
    exact .boolOp (by simpa using hop) hlen (forall₂_hasType ih hts)
  | subscript value slice span ihv ihs =>
    intro t h
    obtain ⟨v, i, hv, hi, hint, hvar, ⟨type, ht, he⟩, rfl⟩ := lower_subscript_eq_ok_iff.1 h
    obtain ⟨element, he⟩ := Option.isSome_iff_exists.1 he
    obtain ⟨id, inner, rfl⟩ := exists_name_of_isVariable hv hvar
    have hvalue := ihv hv
    have hslice := ihs hi
    rw [ht] at hvalue
    rw [hint] at hslice
    simp only [TypedExpr.type?, ht, Option.bind_eq_bind, Option.bind_some, he]
    exact .subscript (ValueType.element?_eq_some_iff.1 he) hvalue hslice
  | call callee arguments span ih =>
    intro t h
    obtain ⟨ts, hts, rfl⟩ := lower_call_eq_ok_iff.1 h
    have hargs := forall₂_hasType ih hts
    simp only [TypedExpr.type?]
    cases hr : table.returnType? callee with
    | none => exact .untypedCall (.inr hr) hargs
    | some returns =>
      cases returns with
      | void => exact .untypedCall (.inl hr) hargs
      | value type => exact .call hr hargs

/-- **What has a type by the rules is accepted with it.** -/
theorem exists_lower_of_hasType {e : Expr} : ∀ {type : Option ValueType}, e.HasType table type →
    ∃ t, e.lower table = .ok t ∧ t.type? = type := by
  induction e with
  | name id span =>
    intro _ h
    cases h with
    | name hv ht => exact ⟨_, TypedExpr.mkVariable_eq_ok_iff.2 ⟨_, hv, rfl⟩, ht⟩
  | constant l span =>
    intro _ h
    cases h with
    | constant hl =>
      obtain ⟨hf, ht⟩ := Literal.hasType_iff.1 hl
      exact ⟨_, TypedExpr.mkConstant_eq_ok_iff.2 ⟨hf, rfl⟩, congrArg some ht⟩
  | list elements span _ =>
    intro _ h
    cases h with
    | @list _ _ element _ ht hne helements =>
      obtain ⟨ls, hls, htyped⟩ := (forall_isElement_iff ht).1 helements
      have hls_ne : ls ≠ [] := by
        rintro rfl
        rw [mapM_eq_ok_iff, List.forall₂_nil_right_iff] at hls
        exact hne hls
      refine ⟨_, lower_list_eq_ok_iff.2 ⟨ls, hls, hls_ne, ⟨element, ?_, ?_⟩, rfl⟩,
        TypedExpr.type?_array ht hls_ne htyped⟩
      · exact Option.isSome_of_eq_some (ValueType.listOf?_eq_some_iff.2 ht)
      · exact fun l hl => Literal.hasType_iff.1 (htyped l hl)
  | compare left ops comparators span ihl ih =>
    intro _ h
    cases h with
    | compare hne hlen hops hleft hcomparators =>
      obtain ⟨l, hl, -⟩ := ihl hleft
      obtain ⟨ts, hts⟩ := exists_forall₂_lowersTo ih hcomparators
      exact ⟨_, lower_compare_eq_ok_iff.2 ⟨l, ts, hl, hts, hne, hlen, hops, rfl⟩, rfl⟩
  | binary left op right span ihl ihr =>
    intro _ h
    cases h with
    | binary hop hleft hright =>
      obtain ⟨hfamily, hresult⟩ := Operator.combines_iff.1 hop
      obtain ⟨l, hl, ha⟩ := ihl hleft
      obtain ⟨r, hr, hb⟩ := ihr hright
      refine ⟨_, lower_binary_eq_ok_iff.2
        ⟨l, r, hl, hr, hfamily, ⟨_, _, ha, hb, Option.isSome_of_eq_some hresult⟩, rfl⟩, ?_⟩
      simp only [TypedExpr.type?, ha, hb, Option.bind_eq_bind, Option.bind_some, hresult]
  | unary op operand span ih =>
    intro _ h
    cases h with
    | unary hop hoperand =>
      obtain ⟨o, ho, ht⟩ := ih hoperand
      refine ⟨_, lower_unary_eq_ok_iff.2 ⟨o, ho, by simpa using hop, rfl⟩, ?_⟩
      rw [TypedExpr.type?, ht]
  | boolOp op values span ih =>
    intro _ h
    cases h with
    | boolOp hop hlen hvalues =>
      obtain ⟨ts, hts⟩ := exists_forall₂_lowersTo ih hvalues
      exact ⟨_, lower_boolOp_eq_ok_iff.2 ⟨ts, hts, by simpa using hop, hlen, rfl⟩, rfl⟩
  | subscript value slice span ihv ihs =>
    intro _ h
    cases h with
    | subscript hel hvalue hslice =>
      have helement := ValueType.element?_eq_some_iff.2 hel
      obtain ⟨v, hv, ht⟩ := ihv hvalue
      obtain ⟨i, hi, hint⟩ := ihs hslice
      obtain ⟨w, -, rfl⟩ := TypedExpr.mkVariable_eq_ok_iff.1 hv
      refine ⟨_, lower_subscript_eq_ok_iff.2
        ⟨_, i, hv, hi, hint, rfl, ⟨_, ht, Option.isSome_of_eq_some helement⟩, rfl⟩, ?_⟩
      simp only [TypedExpr.type?] at ht
      simp only [TypedExpr.type?, ht, Option.bind_eq_bind, Option.bind_some, helement]
  | call callee arguments span ih =>
    intro _ h
    cases h with
    | call hr harguments =>
      obtain ⟨ts, hts⟩ := exists_forall₂_lowersTo ih harguments
      refine ⟨_, lower_call_eq_ok_iff.2 ⟨ts, hts, rfl⟩, ?_⟩
      simp [TypedExpr.type?, hr, ReturnType.value?]
    | untypedCall hr harguments =>
      obtain ⟨ts, hts⟩ := exists_forall₂_lowersTo ih harguments
      refine ⟨_, lower_call_eq_ok_iff.2 ⟨ts, hts, rfl⟩, ?_⟩
      rcases hr with hr | hr <;> simp [TypedExpr.type?, hr, ReturnType.value?]

/-- **The checker decides the rules.** Under every table an expression is accepted with a type, or
without one, exactly if the rules say so. -/
theorem exists_lower_iff_hasType (table : SymbolTable) (e : Expr) (type : Option ValueType) :
    (∃ t, e.lower table = .ok t ∧ t.type? = type) ↔ e.HasType table type := by
  constructor
  · rintro ⟨t, ht, rfl⟩
    exact hasType_of_lower ht
  · exact exists_lower_of_hasType

end Expr

end DefToC
