import DefToC.Typed.Lower
import Mathlib.Data.List.Forall2
import Mathlib.Logic.Function.Basic

/-!
# What a successful step has done

The makers of typed nodes and the steps on a symbol table can fail in many ways and succeed in
few. Each of them has one lemma here that says what follows from its success: which node was
made, which checks were passed, and what became of the table. Later proofs cite these lemmas
and do not open the definitions.
-/

namespace DefToC

theorem bind_eq_ok_iff {ε α β : Type} {x : Except ε α} {f : α → Except ε β} {b : β} :
    (x >>= f) = .ok b ↔ ∃ a, x = .ok a ∧ f a = .ok b := by
  cases x with
  | error e => simp [bind, Except.bind]
  | ok a => simp [bind, Except.bind]

theorem ok_bind {ε α β : Type} {a : α} {f : α → Except ε β} : (.ok a >>= f) = f a := rfl

theorem bind_eq_error_iff {ε α β : Type} {x : Except ε α} {f : α → Except ε β} {e : ε} :
    (x >>= f) = .error e ↔ x = .error e ∨ ∃ a, x = .ok a ∧ f a = .error e := by
  cases x with
  | error e => simp [bind, Except.bind]
  | ok a => simp [bind, Except.bind]

theorem mapM_eq_ok_iff {ε α β : Type} {f : α → Except ε β} {as : List α} {bs : List β} :
    as.mapM f = .ok bs ↔ List.Forall₂ (fun a b => f a = .ok b) as bs := by
  induction as generalizing bs with
  | nil => simp [pure, Except.pure, eq_comm]
  | cons a as ih =>
    simp only [List.mapM_cons, bind_eq_ok_iff, List.forall₂_cons_left_iff, ih]
    constructor
    · rintro ⟨b, hb, bs', hbs, h⟩
      exact ⟨b, bs', hb, hbs, (Except.ok.inj h).symm⟩
    · rintro ⟨b, bs', hb, hbs, rfl⟩
      exact ⟨b, hb, bs', hbs, rfl⟩

/-- In related lists every member of the second has a relative in the first. -/
theorem exists_of_mem_right {α β : Type} {R : α → β → Prop} {as : List α} {bs : List β}
    (h : List.Forall₂ R as bs) {b : β} (hb : b ∈ bs) : ∃ a ∈ as, R a b := by
  induction h with
  | nil => cases hb
  | cons hab _ ih =>
    rcases List.mem_cons.1 hb with rfl | hb
    · exact ⟨_, List.mem_cons_self, hab⟩
    · obtain ⟨a, ha, hr⟩ := ih hb
      exact ⟨a, List.mem_cons_of_mem _ ha, hr⟩

/-! ### Entries of a table -/

namespace SymbolTable

variable {table : SymbolTable} {name : String} {v : Variable}

theorem entryOf_insertVariable (table : SymbolTable) (v : Variable) (name : String) :
    (table.insertVariable v).entryOf name =
      if v.name = name then some v else table.entryOf name := by
  by_cases h : v.name = name <;> simp [entryOf, insertVariable, h]

/-- A variable is found under its own name. -/
theorem name_of_entryOf (h : table.entryOf name = some v) : v.name = name := by
  simpa using List.find?_some h

theorem lookup_eq_some_iff :
    table.lookup name = some v ↔ table.entryOf name = some v ∧ v.type.isSome = true := by
  simp [lookup, Option.filter_eq_some_iff]

theorem name_of_lookup (h : table.lookup name = some v) : v.name = name :=
  name_of_entryOf (lookup_eq_some_iff.1 h).1

/-- A pending entry hides nothing and adds nothing. -/
theorem lookup_insertVariable_pending (hv : v.type = none) (h : table.lookup v.name = none) :
    (table.insertVariable v).lookup = table.lookup := by
  funext name
  by_cases hn : v.name = name
  · subst hn
    rw [h]
    simp [lookup, entryOf_insertVariable, hv]
  · simp [lookup, entryOf_insertVariable, hn]

theorem lookup_insertVariable_typed (hv : v.type.isSome = true) :
    (table.insertVariable v).lookup = Function.update table.lookup v.name (some v) := by
  funext name
  by_cases hn : name = v.name
  · subst hn
    simp [lookup, entryOf_insertVariable, hv]
  · simp [lookup, entryOf_insertVariable, hn, Ne.symm hn]

/-- The same can be read from both tables. Their pending entries may be different. -/
structure Alike (table₁ table : SymbolTable) : Prop where
  lookup : table₁.lookup = table.lookup
  functions : table₁.functions = table.functions

theorem Alike.refl (table : SymbolTable) : table.Alike table := ⟨rfl, rfl⟩

theorem Alike.symm {table₁ : SymbolTable} (h : table₁.Alike table) : table.Alike table₁ :=
  ⟨h.lookup.symm, h.functions.symm⟩

theorem Alike.trans {table₁ table₂ : SymbolTable} (h₁ : table₂.Alike table₁)
    (h : table₁.Alike table) : table₂.Alike table :=
  ⟨h₁.lookup.trans h.lookup, h₁.functions.trans h.functions⟩

/-- Only a pending entry gets a type. -/
theorem bind_eq_ok {type : ValueType} {size : Option Nat} {position : Position}
    {table₁ : SymbolTable} (h : table.bind name type size position = .ok table₁) :
    ∃ v, table.entryOf name = some v ∧ v.type = none ∧
      table₁ = table.insertVariable { v with type := some type, size } := by
  unfold bind at h
  split at h
  · simp at h
  · rename_i v hv
    split at h
    · rename_i hvt
      exact ⟨v, hv, hvt, by simpa using h.symm⟩
    · simp at h

end SymbolTable

/-! ### Expressions -/

/-- The constant is no number that is infinite or undefined. -/
def Literal.Finite (l : Literal) : Prop := ∀ x, l = .float x → x.isFinite = true

namespace TypedExpr

variable {table : SymbolTable} {span : Span} {t : TypedExpr}

/-- The type that is asked for is the type that there is. -/
theorem resolvedType_eq_ok_iff {e : TypedExpr} {type : ValueType} :
    e.resolvedType = .ok type ↔ e.type? = some type := by
  fun_induction resolvedType e with
  | case1 => simp_all
  | case2 => simp_all [type?]
  | case3 => simp_all
  | case4 => simp_all
  | case5 => simp_all

theorem mkVariable_eq_ok_iff {name : String} :
    mkVariable table name span = .ok t ↔
      ∃ v, table.lookup name = some v ∧ t = var { v with mode := .reuse } span := by
  unfold mkVariable SymbolTable.reference
  cases table.lookup name with
  | none => simp [bind, Except.bind]
  | some v => simp [bind, Except.bind, pure, Except.pure, Variable.text?, eq_comm]

theorem mkConstant_eq_ok_iff {value : Literal} :
    mkConstant value span = .ok t ↔ value.Finite ∧ t = constant value span := by
  rw [eq_comm (a := t)]
  cases value with
  | bool b => simp [mkConstant, Literal.Finite]
  | int n => simp [mkConstant, Literal.Finite]
  | float x => by_cases hx : x.isFinite = true <;> simp [mkConstant, Literal.Finite, hx]

theorem checkElements_eq_ok_iff {type : ValueType} {elements : List Literal} :
    checkElements type span elements = .ok () ↔ ∀ l ∈ elements, l.Finite ∧ l.type = type := by
  induction elements with
  | nil => simp [checkElements]
  | cons l ls ih =>
    rw [checkElements, bind_eq_ok_iff, List.forall_mem_cons, ← ih]
    constructor
    · rintro ⟨e, he, h⟩
      obtain ⟨hl, rfl⟩ := mkConstant_eq_ok_iff.1 he
      obtain ⟨received, hr, h⟩ := bind_eq_ok_iff.1 h
      rw [resolvedType_eq_ok_iff, type?, Option.some.injEq] at hr
      split at h
      · rename_i hrt
        exact ⟨⟨hl, hr.trans hrt⟩, h⟩
      · cases h
    · rintro ⟨⟨hl, rfl⟩, h⟩
      refine ⟨_, mkConstant_eq_ok_iff.2 ⟨hl, rfl⟩, bind_eq_ok_iff.2 ⟨l.type, ?_, ?_⟩⟩
      · exact resolvedType_eq_ok_iff.2 rfl
      · rw [if_pos rfl]
        exact h

/-- An array has elements, and they are all of one type that lists can have. -/
theorem mkArray_eq_ok_iff {elements : List Literal} :
    mkArray elements span = .ok t ↔ elements ≠ [] ∧
      (∃ type, type.listOf?.isSome = true ∧ ∀ l ∈ elements, l.Finite ∧ l.type = type) ∧
      t = array elements span := by
  cases elements with
  | nil => simp [mkArray]
  | cons first rest =>
    simp only [mkArray, bind_eq_ok_iff, mkConstant_eq_ok_iff, ne_eq, reduceCtorEq,
      not_false_eq_true, true_and]
    constructor
    · rintro ⟨_, ⟨-, rfl⟩, type, -, h⟩
      split at h
      · cases h
      · rename_i hl
        obtain ⟨⟨⟩, hc, h⟩ := bind_eq_ok_iff.1 h
        refine ⟨⟨type, ?_, checkElements_eq_ok_iff.1 hc⟩, (Except.ok.inj h).symm⟩
        simpa [Option.isSome_iff_ne_none] using hl
    · rintro ⟨⟨type, hs, hall⟩, rfl⟩
      obtain ⟨hfinite, htype⟩ := hall first List.mem_cons_self
      refine ⟨_, ⟨hfinite, rfl⟩, type, resolvedType_eq_ok_iff.2 (congrArg some htype), ?_⟩
      rw [if_neg (by simp [Option.isSome_iff_ne_none.1 hs])]
      exact bind_eq_ok_iff.2 ⟨(), checkElements_eq_ok_iff.2 hall, rfl⟩

theorem mkCompare_eq_ok_iff {left : TypedExpr} {ops : List Operator}
    {comparators : List TypedExpr} :
    mkCompare left ops comparators span = .ok t ↔
      ops ≠ [] ∧ ops.length = comparators.length ∧ (∀ op ∈ ops, op.family = .comparison) ∧
        t = compare left ops comparators span := by
  unfold mkCompare
  split
  · rename_i h
    simp only [reduceCtorEq, false_iff]
    rintro ⟨h₁, h₂, -⟩
    exact h.elim h₁ fun h => h h₂
  · rename_i h
    rw [not_or, not_not] at h
    split
    · rename_i hf
      simp only [reduceCtorEq, false_iff]
      rintro ⟨-, -, h₃, -⟩
      simp only [List.any_eq_true, decide_eq_true_eq] at hf
      obtain ⟨op, hop, hne⟩ := hf
      exact hne (h₃ op hop)
    · rename_i hf
      have hf : ∀ op ∈ ops, op.family = .comparison := by simpa using hf
      rw [Except.ok.injEq, eq_comm]
      exact ⟨fun ht => ⟨h.1, h.2, hf, ht⟩, fun ht => ht.2.2.2⟩

/-- An arithmetic operator has operands of types that it can combine. -/
theorem mkBinary_eq_ok_iff {left right : TypedExpr} {op : Operator} :
    mkBinary left op right span = .ok t ↔ op.family = .arithmetic ∧
      (∃ l r, left.type? = some l ∧ right.type? = some r ∧ (op.resultType? l r).isSome = true) ∧
      t = binary left op right span := by
  unfold mkBinary
  split
  · rename_i hf
    simp [hf]
  · rename_i hf
    simp only [bind_eq_ok_iff, resolvedType_eq_ok_iff, not_not.1 hf, true_and]
    constructor
    · rintro ⟨l, hl, r, hr, h⟩
      split at h
      · rename_i hs
        exact ⟨⟨l, r, hl, hr, hs⟩, (Except.ok.inj h).symm⟩
      · split at h <;> cases h
    · rintro ⟨⟨l, r, hl, hr, hs⟩, rfl⟩
      refine ⟨l, hl, r, hr, ?_⟩
      rw [if_pos hs]
      rfl

theorem mkUnary_eq_ok_iff {op : Operator} {operand : TypedExpr} :
    mkUnary op operand span = .ok t ↔
      (op = .plus ∨ op = .minus ∨ op = .not) ∧ t = unary op operand span := by
  unfold mkUnary
  split <;> simp_all [eq_comm]

theorem mkBoolChain_eq_ok_iff {op : Operator} {values : List TypedExpr} :
    mkBoolChain op values span = .ok t ↔
      (op = .and ∨ op = .or) ∧ 2 ≤ values.length ∧ t = boolChain op values span := by
  unfold mkBoolChain
  rw [eq_comm (a := t)]
  split
  · rename_i hop
    simp [hop]
  · rename_i hop
    have hop : op = .and ∨ op = .or := by tauto
    split
    · rename_i hl
      simp [Nat.not_le.2 hl]
    · rename_i hl
      simp [hop, Nat.not_lt.1 hl]

/-- An index is an integer. -/
theorem mkIndex_eq_ok_iff {value : TypedExpr} :
    mkIndex value = .ok t ↔ value.type? = some .int ∧ t = index value := by
  unfold mkIndex
  rw [bind_eq_ok_iff]
  constructor
  · rintro ⟨type, ht, h⟩
    rw [resolvedType_eq_ok_iff] at ht
    split at h
    · rename_i hi
      exact ⟨hi ▸ ht, (Except.ok.inj h).symm⟩
    · cases h
  · rintro ⟨ht, rfl⟩
    exact ⟨.int, resolvedType_eq_ok_iff.2 ht, rfl⟩

/-- Only a variable that is a list has elements. -/
theorem mkSubscript_eq_ok_iff {value i : TypedExpr} :
    mkSubscript value (index i) span = .ok t ↔ value.isVariable = true ∧
      (∃ type, value.type? = some type ∧ type.element?.isSome = true) ∧
      t = subscript value (index i) span := by
  unfold mkSubscript
  simp only [isIndex, Bool.not_true, Bool.false_eq_true, if_false, bind_eq_ok_iff,
    resolvedType_eq_ok_iff]
  constructor
  · rintro ⟨type, ht, h⟩
    split at h
    · cases h
    · rename_i hv
      split at h
      · cases h
      · rename_i he
        refine ⟨by simpa using hv, ⟨type, ht, ?_⟩, (Except.ok.inj h).symm⟩
        simpa [Option.isSome_iff_ne_none] using he
  · rintro ⟨hv, ⟨type, ht, he⟩, rfl⟩
    refine ⟨type, ht, ?_⟩
    rw [if_neg (by simp [hv]), if_neg (by simp [Option.isSome_iff_ne_none.1 he])]
    rfl

end TypedExpr

namespace Expr

variable {table : SymbolTable} {span : Span} {t : TypedExpr}

/-- The typed form of an expression is found under a table. -/
def LowersTo (table : SymbolTable) (e : Expr) (t : TypedExpr) : Prop := e.lower table = .ok t

theorem lowerAll_eq_ok_iff {es : List Expr} {ts : List TypedExpr} :
    lowerAll table es = .ok ts ↔ List.Forall₂ (LowersTo table) es ts := by
  induction es generalizing ts with
  | nil => simp [lowerAll, eq_comm]
  | cons e es ih =>
    rw [lowerAll, bind_eq_ok_iff, List.forall₂_cons_left_iff]
    constructor
    · rintro ⟨t, ht, h⟩
      obtain ⟨ts', hts, h⟩ := bind_eq_ok_iff.1 h
      exact ⟨t, ts', ht, ih.1 hts, (Except.ok.inj h).symm⟩
    · rintro ⟨t, ts', ht, hts, rfl⟩
      exact ⟨t, ht, bind_eq_ok_iff.2 ⟨ts', ih.2 hts, rfl⟩⟩

/-- What holds of each operand and its typed form holds of them in a row. -/
theorem forall₂_of_lowersTo {R : Expr → TypedExpr → Prop} {es : List Expr} {ts : List TypedExpr}
    (ih : ∀ e ∈ es, ∀ {t}, e.lower table = .ok t → R e t)
    (h : List.Forall₂ (LowersTo table) es ts) : List.Forall₂ R es ts := by
  induction h with
  | nil => exact .nil
  | cons h _ iht =>
    obtain ⟨hhead, htail⟩ := List.forall_mem_cons.1 ih
    exact .cons (hhead h) (iht htail)

theorem lower_list_eq_ok_iff {elements : List Expr} :
    (list elements span).lower table = .ok t ↔ ∃ ls, elements.mapM element = .ok ls ∧ ls ≠ [] ∧
      (∃ type, type.listOf?.isSome = true ∧ ∀ l ∈ ls, l.Finite ∧ l.type = type) ∧
      t = .array ls span := by
  simp only [lower, bind_eq_ok_iff, TypedExpr.mkArray_eq_ok_iff]

theorem lower_compare_eq_ok_iff {left : Expr} {ops : List Operator} {es : List Expr} :
    (compare left ops es span).lower table = .ok t ↔
      ∃ l ts, left.lower table = .ok l ∧ List.Forall₂ (LowersTo table) es ts ∧ ops ≠ [] ∧
        ops.length = es.length ∧ (∀ op ∈ ops, op.family = .comparison) ∧
        t = .compare l ops ts span := by
  simp only [lower, bind_eq_ok_iff, TypedExpr.mkCompare_eq_ok_iff, lowerAll_eq_ok_iff]
  constructor
  · rintro ⟨l, hl, ts, hts, hne, hlen, hops, ht⟩
    exact ⟨l, ts, hl, hts, hne, hlen.trans hts.length_eq.symm, hops, ht⟩
  · rintro ⟨l, ts, hl, hts, hne, hlen, hops, ht⟩
    exact ⟨l, hl, ts, hts, hne, hlen.trans hts.length_eq, hops, ht⟩

theorem lower_binary_eq_ok_iff {left right : Expr} {op : Operator} :
    (binary left op right span).lower table = .ok t ↔
      ∃ l r, left.lower table = .ok l ∧ right.lower table = .ok r ∧ op.family = .arithmetic ∧
        (∃ a b, l.type? = some a ∧ r.type? = some b ∧ (op.resultType? a b).isSome = true) ∧
        t = .binary l op r span := by
  simp only [lower, bind_eq_ok_iff, TypedExpr.mkBinary_eq_ok_iff]
  constructor
  · rintro ⟨l, hl, r, hr, h⟩
    exact ⟨l, r, hl, hr, h⟩
  · rintro ⟨l, r, hl, hr, h⟩
    exact ⟨l, hl, r, hr, h⟩

theorem lower_unary_eq_ok_iff {op : Operator} {operand : Expr} :
    (unary op operand span).lower table = .ok t ↔
      ∃ o, operand.lower table = .ok o ∧ (op = .plus ∨ op = .minus ∨ op = .not) ∧
        t = .unary op o span := by
  simp only [lower, bind_eq_ok_iff, TypedExpr.mkUnary_eq_ok_iff]

theorem lower_boolOp_eq_ok_iff {op : Operator} {es : List Expr} :
    (boolOp op es span).lower table = .ok t ↔
      ∃ ts, List.Forall₂ (LowersTo table) es ts ∧ (op = .and ∨ op = .or) ∧ 2 ≤ es.length ∧
        t = .boolChain op ts span := by
  simp only [lower, bind_eq_ok_iff, TypedExpr.mkBoolChain_eq_ok_iff, lowerAll_eq_ok_iff]
  constructor
  · rintro ⟨ts, hts, hop, hlen, ht⟩
    exact ⟨ts, hts, hop, hts.length_eq ▸ hlen, ht⟩
  · rintro ⟨ts, hts, hop, hlen, ht⟩
    exact ⟨ts, hts, hop, hts.length_eq ▸ hlen, ht⟩

theorem lower_subscript_eq_ok_iff {value slice : Expr} :
    (subscript value slice span).lower table = .ok t ↔
      ∃ v i, value.lower table = .ok v ∧ slice.lower table = .ok i ∧ i.type? = some .int ∧
        v.isVariable = true ∧ (∃ type, v.type? = some type ∧ type.element?.isSome = true) ∧
        t = .subscript v (.index i) span := by
  simp only [lower, bind_eq_ok_iff, TypedExpr.mkIndex_eq_ok_iff]
  constructor
  · rintro ⟨v, hv, i, hi, _, ⟨hint, rfl⟩, h⟩
    exact ⟨v, i, hv, hi, hint, TypedExpr.mkSubscript_eq_ok_iff.1 h⟩
  · rintro ⟨v, i, hv, hi, hint, h⟩
    exact ⟨v, hv, i, hi, _, ⟨hint, rfl⟩, TypedExpr.mkSubscript_eq_ok_iff.2 h⟩

theorem lower_call_eq_ok_iff {callee : String} {es : List Expr} :
    (call callee es span).lower table = .ok t ↔
      ∃ ts, List.Forall₂ (LowersTo table) es ts ∧
        t = .call callee ts (table.returnType? callee) span := by
  simp only [lower, bind_eq_ok_iff, lowerAll_eq_ok_iff]
  constructor
  · rintro ⟨ts, hts, h⟩
    exact ⟨ts, hts, (Except.ok.inj h).symm⟩
  · rintro ⟨ts, hts, rfl⟩
    exact ⟨ts, hts, rfl⟩

/-- Only names become variables. -/
theorem exists_name_of_isVariable {e : Expr} (h : e.lower table = .ok t)
    (hv : t.isVariable = true) : ∃ id span, e = .name id span := by
  cases e with
  | name id span => exact ⟨id, span, rfl⟩
  | constant =>
    obtain ⟨-, rfl⟩ := TypedExpr.mkConstant_eq_ok_iff.1 h
    cases hv
  | list =>
    obtain ⟨_, -, -, -, rfl⟩ := lower_list_eq_ok_iff.1 h
    cases hv
  | compare =>
    obtain ⟨_, _, -, -, -, -, -, rfl⟩ := lower_compare_eq_ok_iff.1 h
    cases hv
  | binary =>
    obtain ⟨_, _, -, -, -, -, rfl⟩ := lower_binary_eq_ok_iff.1 h
    cases hv
  | unary =>
    obtain ⟨_, -, -, rfl⟩ := lower_unary_eq_ok_iff.1 h
    cases hv
  | boolOp =>
    obtain ⟨_, -, -, -, rfl⟩ := lower_boolOp_eq_ok_iff.1 h
    cases hv
  | subscript =>
    obtain ⟨_, _, -, -, -, -, -, rfl⟩ := lower_subscript_eq_ok_iff.1 h
    cases hv
  | call =>
    obtain ⟨_, -, rfl⟩ := lower_call_eq_ok_iff.1 h
    cases hv

end Expr

/-! ### Steps on a table -/

namespace Lowering

variable {α β : Type} {table table₁ table₂ : SymbolTable}

/-- The step succeeds on `table`: it gives `a` and leaves `table₁`. -/
def Yields (step : Lowering α) (table : SymbolTable) (a : α) (table₁ : SymbolTable) : Prop :=
  (step table).result = .ok a ∧ (step table).table = table₁

theorem yields_of_result {step : Lowering α} {a : α} (h : (step table).result = .ok a) :
    step.Yields table a (step table).table := ⟨h, rfl⟩

theorem yields_pure {a b : α} :
    (pure a : Lowering α).Yields table b table₁ ↔ b = a ∧ table₁ = table := by
  simp [Yields, pure, eq_comm]

theorem yields_bind {step : Lowering α} {f : α → Lowering β} {b : β} :
    (step >>= f).Yields table b table₂ ↔
      ∃ a table₁, step.Yields table a table₁ ∧ (f a).Yields table₁ b table₂ := by
  simp only [Yields, Bind.bind, bind]
  rcases step table with ⟨_ | a, t, events⟩ <;> simp

theorem not_yields_fail {e : Error} {a : α} : ¬(fail e : Lowering α).Yields table a table₁ := by
  simp [Yields, fail]

theorem yields_reading {f : SymbolTable → Except Error α} {a : α} :
    (reading f).Yields table a table₁ ↔ f table = .ok a ∧ table₁ = table := by
  simp [Yields, reading, eq_comm]

theorem yields_note {event : Event} {u : Unit} :
    (note event).Yields table u table₁ ↔ table₁ = table := by
  simp [Yields, note, eq_comm]

theorem yields_updating {f : SymbolTable → Except Error SymbolTable} {u : Unit} :
    (updating f).Yields table u table₁ ↔ f table = .ok table₁ := by
  simp only [Yields, updating]
  cases f table <;> simp

theorem yields_target {name : String} {v : Variable} :
    (target name).Yields table v table₁ ↔ table.target name = (v, table₁) := by
  simp only [Yields, target]
  rcases table.target name with ⟨v, t⟩
  simp

theorem yields_bindVariable {name : String} {type : ValueType} {size : Option Nat}
    {position : Position} {u : Unit} :
    (bindVariable name type size position).Yields table u table₁ ↔
      table.bind name type size position = .ok table₁ := by
  simp only [bindVariable, yields_bind, yields_updating, yields_note]
  constructor
  · rintro ⟨-, t, h, rfl⟩
    exact h
  · exact fun h => ⟨(), _, h, rfl⟩

end Lowering

open Lowering

/-! ### Targets and assignments -/

/-- What an expression that is assigned to has been found to be. -/
inductive Aims (table : SymbolTable) : Expr → Target → Prop where
  /-- A variable that has a type. -/
  | bound {id : String} {span : Span} {v : Variable} : table.lookup id = some v →
      Aims table (.name id span) (.var { v with mode := .reuse })
  /-- A variable that has none yet. -/
  | pending {id : String} {span : Span} : table.lookup id = none →
      Aims table (.name id span) (.var ⟨id, none, none, .fresh⟩)
  /-- An element of an array. Pending entries may have come into the table before it. -/
  | element {value slice : Expr} {span : Span} {t : TypedExpr} {table₁ : SymbolTable} :
      table₁.Alike table → (Expr.subscript value slice span).lower table₁ = .ok t →
      Aims table (.subscript value slice span) (.subscript t)

theorem Aims.congr {table table₁ : SymbolTable} {e : Expr} {t : Target}
    (hl : table₁.Alike table) (h : Aims table₁ e t) : Aims table e t := by
  cases h with
  | bound h => exact .bound (hl.lookup ▸ h)
  | pending h => exact .pending (hl.lookup ▸ h)
  | element h₁ h₂ => exact .element (h₁.trans hl) h₂

/-- Looking up a target adds at most a pending entry. -/
theorem lowerTarget_yields {table table₁ : SymbolTable} {e : Expr} {t : Target}
    (h : e.lowerTarget.Yields table t table₁) :
    Aims table e t ∧ table₁.Alike table := by
  unfold Expr.lowerTarget at h
  split at h
  · rename_i id span
    obtain ⟨v, table₂, hv, h⟩ := yields_bind.1 h
    obtain ⟨rfl, rfl⟩ := yields_pure.1 h
    rw [yields_target] at hv
    unfold SymbolTable.target at hv
    split at hv
    · rename_i w hw
      obtain ⟨rfl, rfl⟩ := Prod.mk.inj hv
      exact ⟨.bound hw, .refl _⟩
    · rename_i hw
      obtain ⟨rfl, rfl⟩ := Prod.mk.inj hv
      exact ⟨.pending hw, SymbolTable.lookup_insertVariable_pending rfl hw, rfl⟩
  · obtain ⟨t', table₂, ht, h⟩ := yields_bind.1 h
    obtain ⟨rfl, rfl⟩ := yields_pure.1 h
    obtain ⟨ht, rfl⟩ := yields_reading.1 ht
    exact ⟨.element (.refl _) ht, .refl _⟩
  · exact absurd h not_yields_fail

theorem lowerTargets_yields {table table₁ : SymbolTable} {es : List Expr} {ts : List Target}
    (h : (Expr.lowerTargets es).Yields table ts table₁) :
    List.Forall₂ (Aims table) es ts ∧ table₁.Alike table := by
  induction es generalizing table ts with
  | nil =>
    obtain ⟨rfl, rfl⟩ := yields_pure.1 h
    exact ⟨.nil, .refl _⟩
  | cons e es ih =>
    obtain ⟨t, table₂, ht, h⟩ := yields_bind.1 h
    obtain ⟨ts', table₃, hts, h⟩ := yields_bind.1 h
    obtain ⟨rfl, rfl⟩ := yields_pure.1 h
    obtain ⟨ha, hl⟩ := lowerTarget_yields ht
    obtain ⟨has, hls⟩ := ih hts
    exact ⟨.cons ha (has.imp fun _ _ => .congr hl), hls.trans hl⟩

/-- What storing a value of the given type and size does: the targets as they were looked up
and the table before it, the targets as they are written and the table behind it. -/
inductive Settles (type : ValueType) (size : Option Nat) :
    List Target → SymbolTable → List Target → SymbolTable → Prop where
  /-- Targets that exist hold the type and stay as they are. -/
  | existing {targets : List Target} {table : SymbolTable} :
      (∀ t ∈ targets, t.isNew = false ∧ t.type? = some type) →
      Settles type size targets table targets table
  /-- A new variable stands alone. It is given the type, and an array also a size. -/
  | introduced {v w : Variable} {table : SymbolTable} : v.isNew = true →
      (type.isList = true → size.isSome = true) → table.entryOf v.name = some w → w.type = none →
      Settles type size [.var v] table [.var { v with type := some type, size }]
        (table.insertVariable { w with type := some type, size })

theorem checkStored_eq_ok {type : ValueType} {span : Span} {target t : Target}
    (h : TypedStmt.checkStored type span target = .ok t) :
    t = target ∧ target.type? = some type := by
  unfold TypedStmt.checkStored at h
  split at h
  · rename_i ht
    exact ⟨(Except.ok.inj h).symm, ht⟩
  · cases h

theorem settle_yields_existing {type : ValueType} {size : Option Nat} {span : Span}
    {table table₁ : SymbolTable} {target t : Target} (hn : target.isNew = false)
    (h : (TypedStmt.settle type size span target).Yields table t table₁) :
    t = target ∧ target.type? = some type ∧ table₁ = table := by
  have hc : (reading fun _ => TypedStmt.checkStored type span target).Yields table t table₁ := by
    unfold TypedStmt.settle at h
    split at h
    · rename_i v
      have hv : v.isNew = false := hn
      simpa [hv] using h
    · exact h
  rw [yields_reading] at hc
  obtain ⟨hc, rfl⟩ := hc
  obtain ⟨rfl, hs⟩ := checkStored_eq_ok hc
  exact ⟨rfl, hs, rfl⟩

theorem settleAll_yields_existing {type : ValueType} {size : Option Nat} {span : Span}
    {table table₁ : SymbolTable} {targets ts : List Target}
    (hn : ∀ t ∈ targets, t.isNew = false)
    (h : (TypedStmt.settleAll type size span targets).Yields table ts table₁) :
    Settles type size targets table ts table₁ := by
  suffices hs : ts = targets ∧ table₁ = table ∧ ∀ t ∈ targets, t.type? = some type by
    obtain ⟨rfl, rfl, ht⟩ := hs
    exact .existing fun t h => ⟨hn t h, ht t h⟩
  induction targets generalizing ts table with
  | nil =>
    obtain ⟨rfl, rfl⟩ := yields_pure.1 h
    exact ⟨rfl, rfl, by simp⟩
  | cons target targets ih =>
    obtain ⟨t, table₂, ht, h⟩ := yields_bind.1 h
    obtain ⟨ts', table₃, hts, h⟩ := yields_bind.1 h
    obtain ⟨rfl, rfl⟩ := yields_pure.1 h
    obtain ⟨hn₁, hns⟩ := List.forall_mem_cons.1 hn
    obtain ⟨rfl, hs, rfl⟩ := settle_yields_existing hn₁ ht
    obtain ⟨rfl, rfl, hss⟩ := ih hns hts
    exact ⟨rfl, rfl, List.forall_mem_cons.2 ⟨hs, hss⟩⟩

theorem settleAll_yields_introduced {type : ValueType} {size : Option Nat} {span : Span}
    {table table₁ : SymbolTable} {v : Variable} {ts : List Target} (hn : v.isNew = true)
    (h : (TypedStmt.settleAll type size span [.var v]).Yields table ts table₁) :
    Settles type size [.var v] table ts table₁ := by
  obtain ⟨t, table₂, ht, h⟩ := yields_bind.1 h
  obtain ⟨ts', table₃, hts, h⟩ := yields_bind.1 h
  obtain ⟨rfl, rfl⟩ := yields_pure.1 h
  obtain ⟨rfl, rfl⟩ := yields_pure.1 hts
  simp only [TypedStmt.settle, hn, ↓reduceIte, TypedStmt.introduce] at ht
  split at ht
  · exact absurd ht not_yields_fail
  · rename_i hs
    obtain ⟨_, table₄, hb, hp⟩ := yields_bind.1 ht
    obtain ⟨rfl, rfl⟩ := yields_pure.1 hp
    obtain ⟨w, hw, hwt, rfl⟩ := SymbolTable.bind_eq_ok (yields_bindVariable.1 hb)
    refine .introduced hn (fun hl => ?_) hw hwt
    simpa [hl, Option.isSome_iff_ne_none] using hs

/-- Several targets at once all exist already. -/
theorem checkTargets_eq_ok {type : ValueType} {targets : List Target} {span : Span}
    (h : TypedStmt.checkTargets type targets span = .ok ()) :
    targets.length ≤ 1 ∨ ∀ t ∈ targets, t.isNew = false := by
  unfold TypedStmt.checkTargets at h
  split at h
  · rename_i hl
    exact .inl hl
  · split at h
    · cases h
    · rename_i hn
      exact .inr (by simpa using hn)

/-- The targets of one value are settled together. -/
theorem settleAll_yields {type : ValueType} {size : Option Nat} {span : Span}
    {table table₁ : SymbolTable} {targets settled : List Target}
    (hc : TypedStmt.checkTargets type targets span = .ok ())
    (h : (TypedStmt.settleAll type size span targets).Yields table settled table₁) :
    Settles type size targets table settled table₁ := by
  rcases checkTargets_eq_ok hc with hl | hn
  · -- a single target, which may be new
    match targets, hl with
    | [], _ => exact settleAll_yields_existing (by simp) h
    | [t], _ =>
      by_cases hn : t.isNew = true
      · match t, hn with
        | .var v, hn => exact settleAll_yields_introduced hn h
      · exact settleAll_yields_existing (by simpa using hn) h
  · exact settleAll_yields_existing hn h

/-- **Assignments**: the value has a type, and the targets are settled with it. -/
theorem mkAssign_yields {targets : List Target} {value : TypedExpr} {span : Span}
    {table table₁ : SymbolTable} {s : TypedStmt}
    (h : (TypedStmt.mkAssign targets value span).Yields table s table₁) :
    ∃ type settled, value.type? = some type ∧ s = .assign settled value span ∧
      Settles type value.arraySize? targets table settled table₁ := by
  unfold TypedStmt.mkAssign at h
  split at h
  · exact absurd h not_yields_fail
  · simp only [yields_bind, yields_reading] at h
    obtain ⟨type, _, ⟨ht, rfl⟩, _, table₃, ⟨hc, rfl⟩, settled, table₄, hs, h⟩ := h
    have hst := settleAll_yields hc hs
    split at h
    · obtain ⟨rfl, rfl⟩ := yields_pure.1 h
      exact ⟨type, settled, TypedExpr.resolvedType_eq_ok_iff.1 ht, rfl, hst⟩
    · exact absurd h not_yields_fail

end DefToC
