import DefToC.Proofs.Function.Emission

/-!
# Variables are declared once and before they are used

The typed body of a function is a row of occurrences of variables, in the order in which they
were typed. Some of them declare a variable, all others refer to one. This module shows that
in every accepted body each variable that is no parameter is declared by exactly one
occurrence, that this occurrence comes before all others, and that all of them carry one type
and one size; and that every stored value has the type of the place where it is stored.

A scope says what is known of each name. `Walk σ vs τ` says that the occurrences `vs` are in
order when they are met in the scope `σ`, and that they leave the scope `τ`. A symbol table is
a scope through `SymbolTable.lookup`, where pending entries do not count, and each derivation
of a block (`Lowers`) is a walk from the scope of its first table to that of its last. What is
claimed of the occurrences is then read off walks alone.
-/

namespace DefToC

/-! ### Occurrences -/

namespace TypedExpr

mutual

/-- The occurrences of variables in an expression, in the order in which they are typed. -/
def occurrences : TypedExpr → List Variable
  | var v _ => [v]
  | constant _ _ | array _ _ => []
  | compare left _ comparators _ => left.occurrences ++ occurrencesAll comparators
  | binary left _ right _ => left.occurrences ++ right.occurrences
  | unary _ operand _ => operand.occurrences
  | boolChain _ values _ => occurrencesAll values
  | subscript value slice _ => value.occurrences ++ slice.occurrences
  | index value => value.occurrences
  | call _ arguments _ _ => occurrencesAll arguments

/-- The occurrences of variables in several expressions. -/
def occurrencesAll : List TypedExpr → List Variable
  | [] => []
  | e :: es => e.occurrences ++ occurrencesAll es

end

end TypedExpr

/-- The occurrences of variables in a target. -/
def Target.occurrences : Target → List Variable
  | var v => [v]
  | subscript e => e.occurrences

namespace TypedStmt

mutual

/-- The occurrences of variables in a statement: what is stored before where it is stored, and
a test before its block. -/
def occurrences : TypedStmt → List Variable
  | assign targets value _ => value.occurrences ++ targets.flatMap Target.occurrences
  | augAssign target _ value _ => value.occurrences ++ target.occurrences
  | ifThen test body _ => test.occurrences ++ occurrencesAll body
  | whileLoop test body _ => test.occurrences ++ occurrencesAll body
  | ret none _ _ => []
  | ret (some value) _ _ => value.occurrences
  | expression e _ => e.occurrences

/-- The occurrences of variables in a block. -/
def occurrencesAll : List TypedStmt → List Variable
  | [] => []
  | s :: ss => s.occurrences ++ occurrencesAll ss

end

mutual

/-- A statement and all statements inside it. -/
def parts : TypedStmt → List TypedStmt
  | ifThen test body span => ifThen test body span :: partsAll body
  | whileLoop test body span => whileLoop test body span :: partsAll body
  | s => [s]

/-- The statements of a block and all statements inside them. -/
def partsAll : List TypedStmt → List TypedStmt
  | [] => []
  | s :: ss => s.parts ++ partsAll ss

end

end TypedStmt

/-! ### Walks -/

/-- What is known of each name. -/
abbrev Scope := String → Option Variable

/-- Two occurrences carry the same type and the same size. -/
def Variable.Agrees (v w : Variable) : Prop := v.type = w.type ∧ v.size = w.size

/-- An occurrence that refers to what the scope knows of its name. -/
structure Reads (σ : Scope) (v : Variable) : Prop where
  /-- It declares nothing. -/
  mode : v.mode = .reuse
  /-- It has a type. -/
  typed : v.type.isSome = true
  /-- The scope knows its name, with the same type and size. -/
  known : ∃ w, σ v.name = some w ∧ v.Agrees w

/-- The occurrences `vs` are in order in the scope `σ` and leave the scope `τ`. -/
inductive Walk : Scope → List Variable → Scope → Prop where
  /-- No occurrence is left. -/
  | done {σ : Scope} : Walk σ [] σ
  /-- An occurrence that refers to a known name. -/
  | read {σ τ : Scope} {v : Variable} {vs : List Variable} :
      Reads σ v → Walk σ vs τ → Walk σ (v :: vs) τ
  /-- An occurrence that declares an unknown name. -/
  | declare {σ τ : Scope} {v w : Variable} {vs : List Variable} :
      σ v.name = none → v.mode = .fresh → v.type.isSome = true → v.Agrees w →
      Walk (Function.update σ v.name (some w)) vs τ → Walk σ (v :: vs) τ

namespace Walk

variable {σ τ υ : Scope} {vs us : List Variable} {v : Variable}

theorem append (h₁ : Walk σ vs τ) (h₂ : Walk τ us υ) : Walk σ (vs ++ us) υ := by
  induction h₁ with
  | done => exact h₂
  | read hr _ ih => exact .read hr (ih h₂)
  | declare hn hm ht ha _ ih => exact .declare hn hm ht ha (ih h₂)

theorem of_reads (h : ∀ v ∈ vs, Reads σ v) : Walk σ vs σ := by
  induction vs with
  | nil => exact .done
  | cons v vs ih =>
    obtain ⟨hv, hvs⟩ := List.forall_mem_cons.1 h
    exact .read hv (ih hvs)

/-- What is known stays known. -/
theorem known (h : Walk σ vs τ) {name : String} {w : Variable} (hw : σ name = some w) :
    τ name = some w := by
  induction h with
  | done => exact hw
  | read _ _ ih => exact ih hw
  | @declare σ _ v _ _ hn _ _ _ _ ih =>
    refine ih ?_
    have hne : name ≠ v.name := by
      rintro rfl
      rw [hn] at hw
      cases hw
    rw [Function.update_of_ne hne, hw]

/-- Every occurrence carries what is known of its name in the end. -/
theorem agrees (h : Walk σ vs τ) (hv : v ∈ vs) : ∃ w, τ v.name = some w ∧ v.Agrees w := by
  induction h with
  | done => cases hv
  | read hr hw ih =>
    rcases List.mem_cons.1 hv with rfl | hv
    · obtain ⟨w, hw', ha⟩ := hr.known
      exact ⟨w, hw.known hw', ha⟩
    · exact ih hv
  | declare _ _ _ ha hw ih =>
    rcases List.mem_cons.1 hv with rfl | hv
    · exact ⟨_, hw.known (Function.update_self ..), ha⟩
    · exact ih hv

theorem typed (h : Walk σ vs τ) (hv : v ∈ vs) : v.type.isSome = true := by
  induction h with
  | done => cases hv
  | read hr _ ih =>
    rcases List.mem_cons.1 hv with rfl | hv
    · exact hr.typed
    · exact ih hv
  | declare _ _ ht _ _ ih =>
    rcases List.mem_cons.1 hv with rfl | hv
    · exact ht
    · exact ih hv

/-- A name that is known at the start is not declared. -/
theorem not_declared (h : Walk σ vs τ) (hv : v ∈ vs) (hm : v.mode = .fresh) :
    σ v.name = none := by
  induction h with
  | done => cases hv
  | read hr _ ih =>
    rcases List.mem_cons.1 hv with rfl | hv
    · rw [hr.mode] at hm
      cases hm
    · exact ih hv
  | @declare σ _ u _ _ hn _ _ _ _ ih =>
    rcases List.mem_cons.1 hv with rfl | hv
    · exact hn
    · by_cases hu : v.name = u.name
      · rw [hu, hn]
      · rw [← ih hv, Function.update_of_ne hu]

/-- A name is declared at most once. -/
theorem declared_once (h : Walk σ vs τ) (name : String) :
    vs.countP (fun v => v.name = name && v.isNew) ≤ 1 := by
  induction h with
  | done => simp
  | read hr _ ih =>
    rw [List.countP_cons_of_neg (by simp [Variable.isNew, hr.mode])]
    exact ih
  | @declare σ _ u _ us hn _ _ _ hw ih =>
    by_cases hu : u.name = name
    · -- the rest of the walk begins where the name is known
      have hz : us.countP (fun v => v.name = name && v.isNew) = 0 := by
        rw [List.countP_eq_zero]
        intro v hv
        simp only [Variable.isNew, Bool.and_eq_true, decide_eq_true_eq, not_and]
        intro hvn hvm
        have := hw.not_declared hv hvm
        rw [hvn, ← hu, Function.update_self] at this
        cases this
      rw [List.countP_cons, hz]
      split <;> omega
    · rw [List.countP_cons_of_neg (by simp [hu])]
      exact ih

/-- A name that is referred to was known at the start or has been declared. -/
theorem declared_before (h : Walk σ (us ++ v :: vs) τ) (hm : v.mode = .reuse) :
    (∃ w, σ v.name = some w) ∨ ∃ u ∈ us, u.name = v.name ∧ u.mode = .fresh := by
  generalize hl : us ++ v :: vs = l at h
  induction h generalizing us with
  | done => simp at hl
  | read hr _ ih =>
    cases us with
    | nil =>
      obtain ⟨rfl, rfl⟩ := List.cons.inj hl
      obtain ⟨w, hw, -⟩ := hr.known
      exact .inl ⟨w, hw⟩
    | cons u us =>
      obtain ⟨rfl, htl⟩ := List.cons.inj hl
      rcases ih htl with hk | ⟨u', hu', hd⟩
      · exact .inl hk
      · exact .inr ⟨u', List.mem_cons_of_mem _ hu', hd⟩
  | declare hn hf _ _ _ ih =>
    cases us with
    | nil =>
      obtain ⟨rfl, rfl⟩ := List.cons.inj hl
      rw [hf] at hm
      cases hm
    | cons u us =>
      obtain ⟨rfl, htl⟩ := List.cons.inj hl
      by_cases hu : v.name = u.name
      · exact .inr ⟨u, List.mem_cons_self, hu.symm, hf⟩
      · rcases ih htl with ⟨w, hw⟩ | ⟨u', hu', hd⟩
        · rw [Function.update_of_ne hu] at hw
          exact .inl ⟨w, hw⟩
        · exact .inr ⟨u', List.mem_cons_of_mem _ hu', hd⟩

end Walk

/-! ### The occurrences of an accepted block -/

theorem TypedExpr.mem_occurrencesAll {v : Variable} {es : List TypedExpr} :
    v ∈ occurrencesAll es ↔ ∃ e ∈ es, v ∈ e.occurrences := by
  induction es with
  | nil => simp [occurrencesAll]
  | cons e es ih => simp [occurrencesAll, ih]

theorem reads_of_lookup {table : SymbolTable} {name : String} {v : Variable}
    (h : table.lookup name = some v) : Reads table.lookup { v with mode := .reuse } := by
  have hn := SymbolTable.name_of_lookup h
  exact ⟨rfl, (SymbolTable.lookup_eq_some_iff.1 h).2, v, by rw [hn, h], rfl, rfl⟩

/-- An expression only refers to what the table knows. -/
theorem lower_reads {table : SymbolTable} {e : Expr} {t : TypedExpr} (h : e.lower table = .ok t) :
    ∀ v ∈ t.occurrences, Reads table.lookup v := by
  -- the members of a list of operands, each with the hypothesis for the expression it comes from
  have all {es : List Expr} {ts : List TypedExpr}
      (ih : ∀ e ∈ es, ∀ {t}, e.lower table = .ok t → ∀ v ∈ t.occurrences, Reads table.lookup v)
      (h : List.Forall₂ (Expr.LowersTo table) es ts) :
      ∀ v ∈ TypedExpr.occurrencesAll ts, Reads table.lookup v := by
    intro v hv
    obtain ⟨t, ht, hv⟩ := TypedExpr.mem_occurrencesAll.1 hv
    obtain ⟨e, he, hl⟩ := exists_of_mem_right h ht
    exact ih e he hl v hv
  induction e generalizing t with
  | name id span =>
    obtain ⟨w, hw, rfl⟩ := TypedExpr.mkVariable_eq_ok_iff.1 h
    simpa [TypedExpr.occurrences] using reads_of_lookup hw
  | constant value span =>
    obtain ⟨-, rfl⟩ := TypedExpr.mkConstant_eq_ok_iff.1 h
    simp [TypedExpr.occurrences]
  | list elements span =>
    obtain ⟨ls, -, -, -, rfl⟩ := Expr.lower_list_eq_ok_iff.1 h
    simp [TypedExpr.occurrences]
  | compare left ops comparators span ihl ihc =>
    obtain ⟨l, ts, hl, hts, -, -, -, rfl⟩ := Expr.lower_compare_eq_ok_iff.1 h
    rw [TypedExpr.occurrences, List.forall_mem_append]
    exact ⟨ihl hl, all (fun e he _ => ihc e he) hts⟩
  | binary left op right span ihl ihr =>
    obtain ⟨l, r, hl, hr, -, -, rfl⟩ := Expr.lower_binary_eq_ok_iff.1 h
    rw [TypedExpr.occurrences, List.forall_mem_append]
    exact ⟨ihl hl, ihr hr⟩
  | unary op operand span ih =>
    obtain ⟨o, ho, -, rfl⟩ := Expr.lower_unary_eq_ok_iff.1 h
    rw [TypedExpr.occurrences]
    exact ih ho
  | boolOp op values span ih =>
    obtain ⟨ts, hts, -, -, rfl⟩ := Expr.lower_boolOp_eq_ok_iff.1 h
    rw [TypedExpr.occurrences]
    exact all (fun e he _ => ih e he) hts
  | subscript value slice span ihv ihs =>
    obtain ⟨v, i, hv, hi, -, -, -, rfl⟩ := Expr.lower_subscript_eq_ok_iff.1 h
    rw [TypedExpr.occurrences, TypedExpr.occurrences, List.forall_mem_append]
    exact ⟨ihv hv, ihs hi⟩
  | call callee arguments span ih =>
    obtain ⟨ts, hts, rfl⟩ := Expr.lower_call_eq_ok_iff.1 h
    rw [TypedExpr.occurrences]
    exact all (fun e he _ => ih e he) hts

/-- A target that exists only refers to what the table knows. -/
theorem Aims.reads {table : SymbolTable} {e : Expr} {t : Target} (h : Aims table e t)
    (hn : t.isNew = false) : ∀ v ∈ t.occurrences, Reads table.lookup v := by
  cases h with
  | bound hv => simpa [Target.occurrences] using reads_of_lookup hv
  | pending _ => simp [Target.isNew, Variable.isNew] at hn
  | element hl ht =>
    intro v hv
    rw [← hl.lookup]
    exact lower_reads ht v hv

/-- The targets of an assignment are a walk. -/
theorem Settles.walk {table table₁ table₂ : SymbolTable} {targets : List Expr}
    {found settled : List Target} {type : ValueType} {size : Option Nat}
    (ha : List.Forall₂ (Aims table) targets found) (hl : table₁.lookup = table.lookup)
    (h : Settles type size found table₁ settled table₂) :
    Walk table.lookup (settled.flatMap Target.occurrences) table₂.lookup := by
  cases h with
  | existing hs =>
    rw [hl]
    refine Walk.of_reads fun v hv => ?_
    obtain ⟨t, ht, hv⟩ := List.mem_flatMap.1 hv
    obtain ⟨e, -, he⟩ := exists_of_mem_right ha ht
    exact he.reads (hs t ht).1 v hv
  | @introduced v w _ hn _ hw _ =>
    obtain ⟨e, -, he⟩ := exists_of_mem_right ha List.mem_cons_self
    cases he with
    | bound _ => simp [Variable.isNew] at hn
    | @pending id _ hid =>
      have hwn : w.name = id := SymbolTable.name_of_entryOf hw
      rw [SymbolTable.lookup_insertVariable_typed rfl, hl, hwn]
      exact .declare (w := ⟨id, some type, size, w.mode⟩) hid rfl rfl ⟨rfl, rfl⟩ .done

/-- **A derivation of a block is a walk** from the scope of its first table to that of its
last. -/
theorem Lowers.walk {table table₁ : SymbolTable} {ss : List Stmt} {ts : List TypedStmt}
    (h : Lowers table ss ts table₁) :
    Walk table.lookup (TypedStmt.occurrencesAll ts) table₁.lookup := by
  induction h with
  | nil => exact .done
  | assign hv _ ha hl hs _ ih =>
    rw [TypedStmt.occurrencesAll, TypedStmt.occurrences]
    exact ((Walk.of_reads (lower_reads hv)).append (hs.walk ha hl.lookup)).append ih
  | augAssign hv ht _ _ ih =>
    rw [TypedStmt.occurrencesAll, TypedStmt.occurrences]
    exact ((Walk.of_reads (lower_reads hv)).append (Walk.of_reads (lower_reads ht))).append ih
  | ifThen ht _ _ ihb ih | whileLoop ht _ _ ihb ih =>
    rw [TypedStmt.occurrencesAll, TypedStmt.occurrences]
    exact ((Walk.of_reads (lower_reads ht)).append ihb).append ih
  | retNone _ ih =>
    rw [TypedStmt.occurrencesAll, TypedStmt.occurrences]
    exact ih
  | retSome hv _ _ ih =>
    rw [TypedStmt.occurrencesAll, TypedStmt.occurrences]
    exact (Walk.of_reads (lower_reads hv)).append ih
  | expression ht _ ih =>
    rw [TypedStmt.occurrencesAll, TypedStmt.occurrences]
    exact (Walk.of_reads (lower_reads ht)).append ih

/-! ### The types of stored values -/

theorem Settles.stored {table table₁ : SymbolTable} {found settled : List Target}
    {type : ValueType} {size : Option Nat} (h : Settles type size found table settled table₁) :
    ∀ t ∈ settled, t.type? = some type := by
  cases h with
  | existing hs => exact fun t ht => (hs t ht).2
  | introduced => simp [Target.type?]

/-- Every stored value has the type of the place where it is stored. -/
theorem Lowers.stored {table table₁ : SymbolTable} {ss : List Stmt} {ts : List TypedStmt}
    (h : Lowers table ss ts table₁) {targets : List Target} {value : TypedExpr} {span : Span}
    (hp : .assign targets value span ∈ TypedStmt.partsAll ts) :
    ∃ type, value.type? = some type ∧ ∀ t ∈ targets, t.type? = some type := by
  induction h with
  | nil => cases hp
  | @assign _ _ _ _ _ _ _ _ type _ _ _ _ hv ht ha hl hs _ ih =>
    simp only [TypedStmt.partsAll, TypedStmt.parts, List.cons_append, List.nil_append,
      List.mem_cons, TypedStmt.assign.injEq] at hp
    rcases hp with ⟨rfl, rfl, rfl⟩ | hp
    · exact ⟨type, ht, hs.stored⟩
    · exact ih hp
  | ifThen _ _ _ ihb ih | whileLoop _ _ _ ihb ih =>
    simp only [TypedStmt.partsAll, TypedStmt.parts, List.cons_append, List.mem_cons,
      List.mem_append, reduceCtorEq, false_or] at hp
    exact hp.elim ihb ih
  | augAssign _ _ _ _ ih => exact ih (by simpa [TypedStmt.partsAll, TypedStmt.parts] using hp)
  | retNone _ ih => exact ih (by simpa [TypedStmt.partsAll, TypedStmt.parts] using hp)
  | retSome _ _ _ ih => exact ih (by simpa [TypedStmt.partsAll, TypedStmt.parts] using hp)
  | expression _ _ ih => exact ih (by simpa [TypedStmt.partsAll, TypedStmt.parts] using hp)

/-! ### The body of a function -/

open Lowering

/-- The body of a function is typed in the scope of its parameters. -/
theorem lowers_of_lowerBody {f : FunctionDef} {params : List TypedParam}
    {externs : List (String × ReturnType)} {declared : Option (ReturnType × Position)}
    {typed : List TypedStmt} (h : (f.lowerBody params externs declared .empty).result = .ok typed) :
    ∃ table table₁, table.entries = (params.map TypedParam.entry).reverse ∧
      Lowers table f.body typed table₁ := by
  rw [FunctionDef.lowerBody_result] at h
  exact ⟨_, _, rfl, lowers_of_lowerAll (yields_of_result h)⟩

/-- What a table with only parameters knows is the last parameter of the name. -/
theorem lookup_of_params {params : List TypedParam} {table : SymbolTable}
    (h : table.entries = (params.map TypedParam.entry).reverse) (name : String) :
    table.lookup name = (params.reverse.find? (·.name = name)).map TypedParam.entry := by
  rw [SymbolTable.lookup, SymbolTable.entryOf, h, ← List.map_reverse, List.find?_map]
  have : ((fun v : Variable => decide (v.name = name)) ∘ TypedParam.entry) =
      fun p => decide (p.name = name) := rfl
  rw [this]
  cases params.reverse.find? (·.name = name) <;> simp [TypedParam.entry]

/-- The occurrences `vs` of variables in a body with the given parameters are in order. -/
structure WellDeclared (params : List TypedParam) (vs : List Variable) : Prop where
  /-- A name is declared at most once. -/
  once : ∀ name, vs.countP (fun v => v.name = name && v.isNew) ≤ 1
  /-- A parameter is never declared. -/
  not_param : ∀ v ∈ vs, v.mode = .fresh → v.name ∉ params.map TypedParam.name
  /-- What is referred to is a parameter or has been declared. -/
  before_use : ∀ us v ws, vs = us ++ v :: ws → v.mode = .reuse →
    v.name ∈ params.map TypedParam.name ∨ ∃ u ∈ us, u.name = v.name ∧ u.mode = .fresh
  /-- Every occurrence has a type. -/
  typed : ∀ v ∈ vs, v.type.isSome = true
  /-- The occurrences of a name carry the same type and the same size. -/
  one_type : ∀ v ∈ vs, ∀ w ∈ vs, v.name = w.name → v.type = w.type ∧ v.size = w.size
  /-- The occurrences of a parameter carry its type. The last parameter of a name counts. -/
  param_type : ∀ v ∈ vs, ∀ p, params.reverse.find? (·.name = v.name) = some p →
    v.type = some p.type ∧ v.size = none

/-- A walk from the scope of the parameters is in order. -/
theorem Walk.wellDeclared {params : List TypedParam} {table : SymbolTable} {τ : Scope}
    {vs : List Variable} (hp : table.entries = (params.map TypedParam.entry).reverse)
    (h : Walk table.lookup vs τ) : WellDeclared params vs where
  once := h.declared_once
  not_param := by
    intro v hv hm hmem
    have hn := h.not_declared hv hm
    rw [lookup_of_params hp, Option.map_eq_none_iff, List.find?_eq_none] at hn
    obtain ⟨p, hpm, hpn⟩ := List.mem_map.1 hmem
    exact hn p (List.mem_reverse.2 hpm) (by simpa using hpn)
  before_use := by
    rintro us v ws rfl hm
    rcases h.declared_before hm with ⟨w, hw⟩ | hd
    · rw [lookup_of_params hp, Option.map_eq_some_iff] at hw
      obtain ⟨p, hf, -⟩ := hw
      have hpm := List.mem_reverse.1 (List.mem_of_find?_eq_some hf)
      have hpn : p.name = v.name := by simpa using List.find?_some hf
      exact .inl (List.mem_map.2 ⟨p, hpm, hpn⟩)
    · exact .inr hd
  typed := fun v hv => h.typed hv
  one_type := by
    intro v hv w hw hn
    obtain ⟨x, hx, hvx⟩ := h.agrees hv
    obtain ⟨y, hy, hwy⟩ := h.agrees hw
    rw [hn, hy] at hx
    obtain rfl := Option.some.inj hx
    exact ⟨hvx.1.trans hwy.1.symm, hvx.2.trans hwy.2.symm⟩
  param_type := by
    intro v hv p hf
    obtain ⟨x, hx, hvx⟩ := h.agrees hv
    have hk := h.known (lookup_of_params hp v.name ▸ congrArg (Option.map TypedParam.entry) hf)
    rw [hk] at hx
    obtain rfl := Option.some.inj hx
    exact hvx

/-- **Variables are declared once, before they are used, with one type.** For every function,
all types of its parameters and all functions that it may call: if its body is accepted, then
its occurrences of variables are in order, and every value that an assignment stores, at any
depth, has a type, which is that of the variable or the element that it is stored in. -/
theorem declared_once_before_use (f : FunctionDef) (params : List TypedParam)
    (externs : List (String × ReturnType)) (declared : Option (ReturnType × Position))
    (typed : List TypedStmt) (h : (f.lowerBody params externs declared .empty).result = .ok typed) :
    WellDeclared params (TypedStmt.occurrencesAll typed) ∧
      ∀ targets value span, .assign targets value span ∈ TypedStmt.partsAll typed →
        ∃ type, value.type? = some type ∧ ∀ t ∈ targets, t.type? = some type := by
  obtain ⟨table, table₁, hp, hl⟩ := lowers_of_lowerBody h
  exact ⟨hl.walk.wellDeclared hp, fun _ _ _ hs => hl.stored hs⟩

/-- A function that fills an array in a loop:
`a = [0, 1]`, `i = 1`, `while i < n: t = a[i]; a[i] = n = t; i += t`. -/
def fillLoop : FunctionDef where
  name := "fill"
  params := [⟨"n", none, .nowhere⟩]
  returns := none
  body :=
    let name id := Expr.name id .nowhere
    let int n := Expr.constant (.int n) .nowhere
    let item := Expr.subscript (name "a") (name "i") .nowhere
    [.assign [name "a"] (.list [int 0, int 1] .nowhere) .nowhere,
     .assign [name "i"] (int 1) .nowhere,
     .whileLoop (.compare (name "i") [.lt] [name "n"] .nowhere)
      [.assign [name "t"] item .nowhere,
       .assign [item, name "n"] (name "t") .nowhere,
       .augAssign (name "i") .add (name "t") .nowhere] [] .nowhere]
  span := .nowhere

theorem declared_once_before_use_fillLoop :
    ∃ typed, (fillLoop.lowerBody [⟨"n", .int⟩] [] none .empty).result = .ok typed ∧
      (TypedStmt.occurrencesAll typed).map (fun v => (v.name, v.isNew)) =
        [("a", true), ("i", true), ("i", false), ("n", false), ("a", false), ("i", false),
          ("t", true), ("t", false), ("a", false), ("i", false), ("n", false), ("t", false),
          ("i", false)] ∧
      WellDeclared [⟨"n", .int⟩] (TypedStmt.occurrencesAll typed) := by
  exact ⟨_, rfl, rfl, (declared_once_before_use fillLoop [⟨"n", .int⟩] [] none _ rfl).1⟩

end DefToC
