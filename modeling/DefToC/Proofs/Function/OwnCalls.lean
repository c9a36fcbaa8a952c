import DefToC.Proofs.Function.Emission

/-!
# Calls of a function to itself

A call has the result that the table knows for the function that is called, and lowering never
changes that part of the table. So all calls of a function to itself have one result: the one that
it declares, or else the last one that the caller gives for its name (`calls_of_lowerBody`).

A declared result is compared with what the function gives back, hence it is the one in the
signature. What the caller gives for the name is compared with nothing. So the calls of a function
to itself have the result of its signature exactly if it declares one, makes no such call, or is not
given another one by its caller (`own_calls_agree_iff`); an example of the contrary is
`own_calls_disagree`.
-/

namespace DefToC

/-! ### Calls -/

namespace TypedExpr

mutual

/-- The calls in an expression: what is called, and the result if it is known. -/
def calls : TypedExpr → List (String × Option ReturnType)
  | var _ _ | constant _ _ | array _ _ => []
  | compare left _ comparators _ => left.calls ++ callsAll comparators
  | binary left _ right _ => left.calls ++ right.calls
  | unary _ operand _ => operand.calls
  | boolChain _ values _ => callsAll values
  | subscript value slice _ => value.calls ++ slice.calls
  | index value => value.calls
  | call callee arguments returns _ => (callee, returns) :: callsAll arguments

/-- The calls in several expressions. -/
def callsAll : List TypedExpr → List (String × Option ReturnType)
  | [] => []
  | e :: es => e.calls ++ callsAll es

end

end TypedExpr

/-- The calls in a target. -/
def Target.calls : Target → List (String × Option ReturnType)
  | var _ => []
  | subscript e => e.calls

namespace TypedStmt

mutual

/-- The calls in a statement. -/
def calls : TypedStmt → List (String × Option ReturnType)
  | assign targets value _ => value.calls ++ targets.flatMap Target.calls
  | augAssign target _ value _ => value.calls ++ target.calls
  | ifThen test body _ => test.calls ++ callsAll body
  | whileLoop test body _ => test.calls ++ callsAll body
  | ret none _ _ => []
  | ret (some value) _ _ => value.calls
  | expression e _ => e.calls

/-- The calls in a block. -/
def callsAll : List TypedStmt → List (String × Option ReturnType)
  | [] => []
  | s :: ss => s.calls ++ callsAll ss

end

end TypedStmt

/-! ### The results of calls -/

section

variable {table table₁ : SymbolTable}

/-- The calls have the results that the table knows. -/
def Known (table : SymbolTable) (calls : List (String × Option ReturnType)) : Prop :=
  ∀ call ∈ calls, call.2 = table.returnType? call.1

theorem Known.congr {calls : List (String × Option ReturnType)}
    (hf : table₁.functions = table.functions) (h : Known table₁ calls) : Known table calls := by
  intro call hcall
  rw [h call hcall, SymbolTable.returnType?, hf, SymbolTable.returnType?]

theorem known_append {calls later : List (String × Option ReturnType)} :
    Known table (calls ++ later) ↔ Known table calls ∧ Known table later :=
  List.forall_mem_append

theorem lower_known {e : Expr} {t : TypedExpr} (h : e.lower table = .ok t) :
    Known table t.calls := by
  have all {es : List Expr} {ts : List TypedExpr}
      (ih : ∀ e ∈ es, ∀ {t}, e.lower table = .ok t → Known table t.calls)
      (h : List.Forall₂ (Expr.LowersTo table) es ts) : Known table (TypedExpr.callsAll ts) := by
    induction h with
    | nil => exact List.forall_mem_nil _
    | cons ht _ ihs =>
      obtain ⟨hfirst, hlater⟩ := List.forall_mem_cons.1 ih
      exact known_append.2 ⟨hfirst ht, ihs hlater⟩
  induction e generalizing t with
  | name id span =>
    obtain ⟨w, -, rfl⟩ := TypedExpr.mkVariable_eq_ok_iff.1 h
    exact List.forall_mem_nil _
  | constant value span =>
    obtain ⟨-, rfl⟩ := TypedExpr.mkConstant_eq_ok_iff.1 h
    exact List.forall_mem_nil _
  | list elements span =>
    obtain ⟨ls, -, -, -, rfl⟩ := Expr.lower_list_eq_ok_iff.1 h
    exact List.forall_mem_nil _
  | compare left ops comparators span ihl ihc =>
    obtain ⟨l, ts, hl, hts, -, -, -, rfl⟩ := Expr.lower_compare_eq_ok_iff.1 h
    exact known_append.2 ⟨ihl hl, all (fun e he _ => ihc e he) hts⟩
  | binary left op right span ihl ihr =>
    obtain ⟨l, r, hl, hr, -, -, rfl⟩ := Expr.lower_binary_eq_ok_iff.1 h
    exact known_append.2 ⟨ihl hl, ihr hr⟩
  | unary op operand span ih =>
    obtain ⟨o, ho, -, rfl⟩ := Expr.lower_unary_eq_ok_iff.1 h
    rw [TypedExpr.calls]
    exact ih ho
  | boolOp op values span ih =>
    obtain ⟨ts, hts, -, -, rfl⟩ := Expr.lower_boolOp_eq_ok_iff.1 h
    exact all (fun e he _ => ih e he) hts
  | subscript value slice span ihv ihs =>
    obtain ⟨v, i, hv, hi, -, -, -, rfl⟩ := Expr.lower_subscript_eq_ok_iff.1 h
    rw [TypedExpr.calls, TypedExpr.calls, known_append]
    exact ⟨ihv hv, ihs hi⟩
  | call callee arguments span ih =>
    obtain ⟨ts, hts, rfl⟩ := Expr.lower_call_eq_ok_iff.1 h
    exact List.forall_mem_cons.2 ⟨rfl, all (fun e he _ => ih e he) hts⟩

theorem Aims.known {e : Expr} {t : Target} (h : Aims table e t) : Known table t.calls := by
  cases h with
  | bound | pending => exact List.forall_mem_nil _
  | element hl ht => exact (lower_known ht).congr hl.functions

/-- Settling the targets of an assignment adds no call and no function. -/
theorem Settles.known {table₂ : SymbolTable} {targets : List Expr} {found settled : List Target}
    {type : ValueType} {size : Option Nat} (ha : List.Forall₂ (Aims table) targets found)
    (h : Settles type size found table₁ settled table₂) :
    table₂.functions = table₁.functions ∧ Known table (settled.flatMap Target.calls) := by
  cases h with
  | existing =>
    refine ⟨rfl, fun call hcall => ?_⟩
    obtain ⟨t, ht, hcall⟩ := List.mem_flatMap.1 hcall
    obtain ⟨e, -, he⟩ := exists_of_mem_right ha ht
    exact he.known call hcall
  | introduced => exact ⟨rfl, List.forall_mem_nil _⟩

/-- **The calls in an accepted block have the results that the table in front of it knows.** -/
theorem Lowers.known {ss : List Stmt} {ts : List TypedStmt} (h : Lowers table ss ts table₁) :
    table₁.functions = table.functions ∧ Known table (TypedStmt.callsAll ts) := by
  induction h with
  | nil => exact ⟨rfl, List.forall_mem_nil _⟩
  | assign hv _ ha hl hs _ ih =>
    obtain ⟨hfunctions, htargets⟩ := hs.known ha
    have hbefore := hfunctions.trans hl.functions
    refine ⟨ih.1.trans hbefore, ?_⟩
    rw [TypedStmt.callsAll, TypedStmt.calls, known_append, known_append]
    exact ⟨⟨lower_known hv, htargets⟩, ih.2.congr hbefore⟩
  | augAssign hv ht _ _ ih =>
    rw [TypedStmt.callsAll, TypedStmt.calls, known_append, known_append]
    exact ⟨ih.1, ⟨lower_known hv, lower_known ht⟩, ih.2⟩
  | ifThen ht _ _ ihb ih | whileLoop ht _ _ ihb ih =>
    rw [TypedStmt.callsAll, TypedStmt.calls, known_append, known_append]
    exact ⟨ih.1.trans ihb.1, ⟨lower_known ht, ihb.2⟩, ih.2.congr ihb.1⟩
  | retNone _ ih => exact ih
  | retSome hv _ _ ih =>
    rw [TypedStmt.callsAll, TypedStmt.calls, known_append]
    exact ⟨ih.1, lower_known hv, ih.2⟩
  | expression ht _ ih =>
    rw [TypedStmt.callsAll, TypedStmt.calls, known_append]
    exact ⟨ih.1, lower_known ht, ih.2⟩

end

/-! ### The body of a function -/

open Lowering

namespace FunctionDef

variable {f : FunctionDef} {params : List TypedParam} {externs : List (String × ReturnType)}
  {declared : Option (ReturnType × Position)} {body : List TypedStmt}

/-- **The calls of a function to itself** have the result that it declares, or else the last one
that the caller gives for its name. -/
theorem calls_of_lowerBody (h : (f.lowerBody params externs declared .empty).result = .ok body)
    {found : Option ReturnType} (hcall : (f.name, found) ∈ TypedStmt.callsAll body) :
    found = (declared.map Prod.fst).or (externs.reverse.lookup f.name) := by
  rw [lowerBody_result] at h
  have hlowers := lowers_of_lowerAll (yields_of_result h)
  have hfound : found = (f.bodyTable params externs declared).returnType? f.name :=
    hlowers.known.2 _ hcall
  cases declared with
  | none => exact hfound
  | some d => exact hfound.trans List.lookup_cons_self

theorem isSome_declaredReturn (h : f.declaredReturn = .ok declared) :
    f.returns.isSome = declared.isSome := by
  have hsome := congrArg Option.isSome (map_position_declaredReturn h)
  rw [Option.isSome_map, Option.isSome_map] at hsome
  exact hsome.symm

/-- **The calls of a function to itself have the result of its signature** exactly if it declares
one, makes no such call, or is not given another one by its caller. -/
theorem own_calls_agree_iff {options : Options} {text : String}
    (h : (f.emit options).result = .ok text) :
    ∃ params declared body returns, f.typedParams options = .ok params ∧
      f.declaredReturn = .ok declared ∧
      (f.lowerBody params options.externs declared .empty).result = .ok body ∧
      text = String.join ((functionLines f.name params returns body).map
        (OutputLine.render options.indent)) ∧
      ((∀ found, (f.name, some found) ∈ TypedStmt.callsAll body → found = returns) ↔
        f.returns.isSome = true ∨ (∀ found, (f.name, found) ∉ TypedStmt.callsAll body) ∨
          ∀ given, options.externs.reverse.lookup f.name = some given → given = returns) := by
  obtain ⟨params, hparams, h⟩ := Traced.bind_result_eq_ok.1 h
  obtain ⟨declared, hdeclared, h⟩ := Traced.bind_result_eq_ok.1 h
  obtain ⟨body, hbody, h⟩ := Traced.bind_result_eq_ok.1 h
  obtain ⟨unified, -, h⟩ := Traced.bind_result_eq_ok.1 h
  obtain ⟨_, hcheck, h⟩ := Traced.bind_result_eq_ok.1 h
  obtain ⟨_, -, h⟩ := Traced.bind_result_eq_ok.1 h
  refine ⟨params, declared, body, unified.getD .void, hparams, hdeclared, hbody,
    (Except.ok.inj h).symm, ?_⟩
  have hcalls {found : Option ReturnType} (hcall : (f.name, found) ∈ TypedStmt.callsAll body) :=
    calls_of_lowerBody hbody hcall
  rw [isSome_declaredReturn hdeclared]
  cases declared with
  | some d =>
    have hchecked : checkDeclared (some d) (unified.getD .void) = .ok _ := hcheck
    have hd : d.1 = unified.getD .void := checkDeclared_eq_ok_iff.1 hchecked d rfl
    refine ⟨fun _ => .inl rfl, fun _ found hcall => ?_⟩
    exact (Option.some.inj (hcalls hcall)).trans hd
  | none =>
    constructor
    · intro hagree
      refine .inr (or_iff_not_imp_left.2 fun hmade given hgiven => ?_)
      obtain ⟨found, hcall⟩ := not_forall_not.1 hmade
      obtain rfl : found = some given := (hcalls hcall).trans hgiven
      exact hagree given hcall
    · rintro (hnone | hnone | hgiven) found hcall
      · cases hnone
      · exact absurd hcall (hnone _)
      · exact hgiven found (hcalls hcall).symm

/-- A function that calls itself in a sum: `if n < 1: return 0`, `return n + total(n - 1)`. -/
def total : FunctionDef where
  name := "total"
  params := [⟨"n", some (.name "int" ⟨"f", 0⟩), .nowhere⟩]
  returns := some (.name "int" ⟨"f", 0⟩)
  body :=
    let n := Expr.name "n" .nowhere
    let int k := Expr.constant (.int k) .nowhere
    [.ifThen (.compare n [.lt] [int 1] .nowhere) [.ret (some (int 0)) .nowhere] [] .nowhere,
     .ret (some (.binary n .add (.call "total" [.binary n .sub (int 1) .nowhere] .nowhere)
      .nowhere)) .nowhere]
  span := .nowhere

/-- What the caller gives does not count beside a declared result. -/
theorem own_calls_agree_iff_total :
    ∃ text, (total.emit ⟨none, [("total", .value .float)], .tab⟩).result = .ok text ∧
      ∃ params body returns, text = String.join
          ((functionLines "total" params returns body).map (OutputLine.render .tab)) ∧
        ∀ found, ("total", some found) ∈ TypedStmt.callsAll body → found = returns := by
  have hemit : ∃ text, (total.emit ⟨none, [("total", .value .float)], .tab⟩).result = .ok text :=
    ⟨_, rfl⟩
  obtain ⟨text, htext⟩ := hemit
  obtain ⟨params, declared, body, returns, -, -, -, hlines, hiff⟩ := own_calls_agree_iff htext
  exact ⟨text, htext, params, body, returns, hlines, hiff.2 (.inl rfl)⟩

/-- A function that stores what it gives back itself: `x = f(n)`, `return n`. -/
def storesOwn : FunctionDef where
  name := "f"
  params := [⟨"n", some (.name "int" ⟨"f", 0⟩), .nowhere⟩]
  returns := none
  body :=
    let n := Expr.name "n" .nowhere
    [.assign [.name "x" .nowhere] (.call "f" [n] .nowhere) .nowhere, .ret (some n) .nowhere]
  span := .nowhere

/-- The caller gives `float` for a function that gives back `int`. -/
theorem own_calls_disagree :
    (storesOwn.emit ⟨none, [("f", .value .float)], .tab⟩).result =
      .ok "int f(int n) \x7b\n\tdouble x = f(n);\n\treturn n;\n\x7d\n" ∧
    ∃ body,
      (storesOwn.lowerBody [⟨"n", .int⟩] [("f", .value .float)] none .empty).result = .ok body ∧
      TypedStmt.callsAll body = [("f", some (.value .float))] :=
  ⟨rfl, _, rfl, rfl⟩

end FunctionDef

end DefToC
