import DefToC.Proofs.Function.OwnCalls
import DefToC.Proofs.Syntax.Sources

/-!
# What the functions of the caller are for

The caller gives the results of functions. They are looked up where one of these functions is
called, and nowhere else: a step on a symbol table that types no call does on a table with other
functions what it does on the table itself, and leaves the other functions in place (`Swaps`).
The typing of an expression looks up the functions that it calls and no others
(`Expr.lower_withFunctions`). So two callers that agree on the functions that are called in a body
get the same text, or the same error in the same place (`emit_congr_externs`).
-/

namespace DefToC

/-! ### The functions that are called -/

namespace Expr

mutual

/-- The functions that are called in an expression. -/
def callees : Expr → List String
  | name _ _ | constant _ _ => []
  | list elements _ => calleesAll elements
  | compare left _ comparators _ => left.callees ++ calleesAll comparators
  | binary left _ right _ => left.callees ++ right.callees
  | unary _ operand _ => operand.callees
  | boolOp _ values _ => calleesAll values
  | subscript value slice _ => value.callees ++ slice.callees
  | call callee arguments _ => callee :: calleesAll arguments

/-- The functions that are called in several expressions. -/
def calleesAll : List Expr → List String
  | [] => []
  | e :: es => e.callees ++ calleesAll es

end

end Expr

/-! ### Tables with other functions -/

/-- The table with other functions. -/
def SymbolTable.withFunctions (table : SymbolTable) (functions : List (String × ReturnType)) :
    SymbolTable := { table with functions }

/-- The functions give the results that the table knows for these names. -/
def SymbolTable.AgreesOn (table : SymbolTable) (functions : List (String × ReturnType))
    (names : List String) : Prop :=
  ∀ name ∈ names, functions.lookup name = table.returnType? name

/-- What a step leaves behind, with other functions in the table. -/
def Lowered.withFunctions {α : Type} (l : Lowered α) (functions : List (String × ReturnType)) :
    Lowered α := { l with table := l.table.withFunctions functions }

namespace SymbolTable

variable {table : SymbolTable} {functions : List (String × ReturnType)} {names : List String}

@[simp] theorem lookup_withFunctions (name : String) :
    (table.withFunctions functions).lookup name = table.lookup name := rfl

@[simp] theorem entryOf_withFunctions (name : String) :
    (table.withFunctions functions).entryOf name = table.entryOf name := rfl

theorem agreesOn_append {later : List String} :
    table.AgreesOn functions (names ++ later) ↔
      table.AgreesOn functions names ∧ table.AgreesOn functions later :=
  List.forall_mem_append

theorem AgreesOn.congr {table₁ : SymbolTable} (h : table.AgreesOn functions names)
    (hf : table₁.functions = table.functions) : table₁.AgreesOn functions names := by
  intro name hname
  rw [h name hname, returnType?, returnType?, hf]

end SymbolTable

/-! ### Expressions -/

namespace Expr

variable {table : SymbolTable} {functions : List (String × ReturnType)}

/-- **An expression looks up the functions that it calls** and no others. -/
theorem lower_withFunctions (e : Expr) (h : table.AgreesOn functions e.callees) :
    e.lower (table.withFunctions functions) = e.lower table := by
  have hall (es : List Expr) (hes : ∀ e ∈ es, table.AgreesOn functions e.callees →
      e.lower (table.withFunctions functions) = e.lower table)
      (h : table.AgreesOn functions (calleesAll es)) :
      lowerAll (table.withFunctions functions) es = lowerAll table es := by
    induction es with
    | nil => rfl
    | cons e es ih =>
      obtain ⟨hfirst, hlater⟩ := SymbolTable.agreesOn_append.1 h
      obtain ⟨he, hes⟩ := List.forall_mem_cons.1 hes
      rw [lowerAll, lowerAll, he hfirst, ih hes hlater]
  induction e with
  | name | constant | list => rfl
  | compare left ops comparators span ihl ihc =>
    obtain ⟨hleft, hcomparators⟩ := SymbolTable.agreesOn_append.1 h
    simp only [lower, ihl hleft, hall comparators ihc hcomparators]
  | binary left op right span ihl ihr =>
    obtain ⟨hleft, hright⟩ := SymbolTable.agreesOn_append.1 h
    simp only [lower, ihl hleft, ihr hright]
  | unary op operand span ih =>
    rw [callees] at h
    simp only [lower, ih h]
  | boolOp op values span ih => simp only [lower, hall values ih h]
  | subscript value slice span ihv ihs =>
    obtain ⟨hvalue, hslice⟩ := SymbolTable.agreesOn_append.1 h
    simp only [lower, ihv hvalue, ihs hslice]
  | call callee arguments span ih =>
    obtain ⟨hcallee, harguments⟩ := List.forall_mem_cons.1 h
    have hmade (ts : List TypedExpr) : TypedExpr.mkCall (table.withFunctions functions) callee ts
        span = TypedExpr.mkCall table callee ts span :=
      congrArg (TypedExpr.call callee ts · span) hcallee
    simp only [lower, hall arguments ih harguments, hmade]

end Expr

/-! ### Steps -/

namespace Lowering

variable {α β : Type} {functions : List (String × ReturnType)} {table : SymbolTable}
  {step : Lowering α} {f : α → Lowering β}

/-- On a table with other functions the step does the same, and it leaves the functions of a table
in place. -/
structure Swaps (functions : List (String × ReturnType)) (step : Lowering α)
    (table : SymbolTable) : Prop where
  eq : step (table.withFunctions functions) = (step table).withFunctions functions
  kept : (step table).table.functions = table.functions

theorem swaps_bind (h : step.Swaps functions table)
    (hf : ∀ a, (step table).result = .ok a → (f a).Swaps functions (step table).table) :
    (step >>= f).Swaps functions table := by
  obtain ⟨heq, hkept⟩ := h
  rcases hstep : step table with ⟨_ | a, table₁, events⟩
  · rw [hstep] at heq hkept
    constructor <;> simp only [Bind.bind, Lowering.bind, heq, hstep]
    · rfl
    · exact hkept
  · rw [hstep] at heq hkept hf
    obtain ⟨hnext, hnextKept⟩ := hf a rfl
    constructor <;> simp only [Bind.bind, Lowering.bind, heq, hstep]
    · simp only [Lowered.withFunctions] at hnext ⊢
      rw [hnext]
    · exact hnextKept.trans hkept

theorem swaps_pure (a : α) : (pure a : Lowering α).Swaps functions table := ⟨rfl, rfl⟩

theorem swaps_fail (e : Error) : (fail e : Lowering α).Swaps functions table := ⟨rfl, rfl⟩

theorem swaps_note (event : Event) : (note event).Swaps functions table := ⟨rfl, rfl⟩

theorem swaps_reading (result : Except Error α) :
    (reading fun _ => result).Swaps functions table := ⟨rfl, rfl⟩

theorem swaps_target (name : String) : (target name).Swaps functions table := by
  have heq : (table.withFunctions functions).target name =
      ((table.target name).1, (table.target name).2.withFunctions functions) := by
    unfold SymbolTable.target
    rw [SymbolTable.lookup_withFunctions]
    cases table.lookup name <;> rfl
  constructor
  · simp only [target, heq]
    rfl
  · simp only [target, SymbolTable.target]
    cases table.lookup name <;> rfl

theorem swaps_bindVariable (name : String) (type : ValueType) (size : Option Nat)
    (position : Position) : (bindVariable name type size position).Swaps functions table := by
  refine swaps_bind ?_ fun _ _ => swaps_note _
  unfold updating SymbolTable.bind
  constructor
  · simp only [SymbolTable.entryOf_withFunctions]
    rcases table.entryOf name with _ | ⟨_, _ | _, _, _⟩ <;> rfl
  · beta_reduce
    rcases table.entryOf name with _ | ⟨_, _ | _, _, _⟩ <;> rfl

theorem swaps_lower {e : Expr} (h : table.AgreesOn functions e.callees) :
    (reading fun table => e.lower table).Swaps functions table := by
  refine ⟨?_, rfl⟩
  rw [reading, e.lower_withFunctions h]
  rfl

end Lowering

open Lowering

variable {functions : List (String × ReturnType)} {table : SymbolTable}

/-! ### Assignments -/

namespace TypedStmt

variable {type : ValueType} {size : Option Nat} {span : Span}

theorem swaps_settle (t : Target) : (settle type size span t).Swaps functions table := by
  unfold settle
  split
  · split
    · unfold introduce
      split
      · exact swaps_fail _
      · exact swaps_bind (swaps_bindVariable ..) fun _ _ => swaps_pure _
    · exact swaps_reading _
  · exact swaps_reading _

theorem swaps_settleAll (ts : List Target) :
    (settleAll type size span ts).Swaps functions table := by
  induction ts generalizing table with
  | nil => exact swaps_pure _
  | cons t ts ih =>
    exact swaps_bind (swaps_settle t) fun _ _ => swaps_bind ih fun _ _ => swaps_pure _

theorem swaps_mkAssign (targets : List Target) (value : TypedExpr) :
    (mkAssign targets value span).Swaps functions table := by
  unfold mkAssign
  split
  · exact swaps_fail _
  · refine swaps_bind (swaps_reading _) fun type _ => swaps_bind (swaps_reading _) fun _ _ =>
      swaps_bind (swaps_settleAll targets) fun settled _ => ?_
    split
    · exact swaps_pure _
    · exact swaps_fail _

end TypedStmt

namespace Expr

theorem swaps_lowerTarget {e : Expr} (h : table.AgreesOn functions e.callees) :
    e.lowerTarget.Swaps functions table := by
  cases e with
  | name id span => exact swaps_bind (swaps_target id) fun _ _ => swaps_pure _
  | subscript value slice span => exact swaps_bind (swaps_lower h) fun _ _ => swaps_pure _
  | _ => exact swaps_fail _

theorem swaps_lowerTargets {es : List Expr} (h : ∀ e ∈ es, table.AgreesOn functions e.callees) :
    (lowerTargets es).Swaps functions table := by
  induction es generalizing table with
  | nil => exact swaps_pure _
  | cons e es ih =>
    obtain ⟨he, hes⟩ := List.forall_mem_cons.1 h
    have hfirst := swaps_lowerTarget he
    refine swaps_bind hfirst fun _ _ => swaps_bind (ih fun e he => ?_) fun _ _ => swaps_pure _
    exact (hes e he).congr hfirst.kept

end Expr

/-! ### Statements -/

namespace Stmt

theorem swaps_noted (s : TypedStmt) : (noted s).Swaps functions table :=
  swaps_bind (swaps_note _) fun _ _ => swaps_pure _

/-- The statement looks up the functions that it calls and no others. -/
def LooksUpCallees (functions : List (String × ReturnType)) (s : Stmt) : Prop :=
  ∀ {table : SymbolTable}, (∀ e ∈ s.exprs, table.AgreesOn functions e.callees) →
    s.lower.Swaps functions table

theorem swaps_lowerAll {ss : List Stmt} (hss : ∀ s ∈ ss, s.LooksUpCallees functions)
    (h : ∀ e ∈ exprsAll ss, table.AgreesOn functions e.callees) :
    (lowerAll ss).Swaps functions table := by
  induction ss generalizing table with
  | nil => exact swaps_pure _
  | cons s ss ih =>
    obtain ⟨hs, hss⟩ := List.forall_mem_cons.1 hss
    obtain ⟨hfirst, hlater⟩ := List.forall_mem_append.1 h
    have hswaps := hs hfirst
    refine swaps_bind hswaps fun _ _ => swaps_bind (ih hss fun e he => ?_) fun _ _ => swaps_pure _
    exact (hlater e he).congr hswaps.kept

/-- **Statements look up the functions that they call** and no others. The second branch of a
conditional or a loop is not typed at all. -/
theorem looksUpCallees (functions : List (String × ReturnType)) (s : Stmt) :
    s.LooksUpCallees functions := by
  induction s with
  | assign targets value span =>
    intro table h
    obtain ⟨hvalue, htargets⟩ := List.forall_mem_cons.1 h
    exact swaps_bind (swaps_lower hvalue) fun value _ =>
      swaps_bind (Expr.swaps_lowerTargets htargets) fun targets _ =>
        swaps_bind (TypedStmt.swaps_mkAssign targets value) fun s _ => swaps_noted s
  | augAssign target op value span =>
    intro table h
    obtain ⟨htarget, h⟩ := List.forall_mem_cons.1 h
    exact swaps_bind (swaps_lower (h value (List.mem_singleton_self _))) fun _ _ =>
      swaps_bind (swaps_lower htarget) fun _ _ =>
        swaps_bind (swaps_reading _) fun s _ => swaps_noted s
  | ifThen test body orelse span ihb _ | whileLoop test body orelse span ihb _ =>
    intro table h
    obtain ⟨htest, h⟩ := List.forall_mem_cons.1 h
    have hbody := (List.forall_mem_append.1 h).1
    exact swaps_bind (swaps_lower htest) fun _ _ => swaps_bind (swaps_lowerAll ihb hbody) fun _ _ =>
      swaps_bind (swaps_reading _) fun s _ => swaps_noted s
  | ret value span =>
    intro table h
    cases value with
    | none => exact swaps_bind (swaps_reading _) fun s _ => swaps_noted s
    | some value =>
      exact swaps_bind (swaps_lower (h value (List.mem_singleton_self _))) fun _ _ =>
        swaps_bind (swaps_reading _) fun s _ => swaps_noted s
  | expression e span =>
    intro table h
    exact swaps_bind (swaps_lower (h e (List.mem_singleton_self _))) fun _ _ => swaps_noted _

end Stmt

/-! ### Functions -/

namespace FunctionDef

variable {f : FunctionDef} {options : Options} {params : List TypedParam}
  {externs externs' : List (String × ReturnType)} {declared : Option (ReturnType × Position)}

/-- The functions that are called in the body of a function. -/
def callees (f : FunctionDef) : List String := (Stmt.exprsAll f.body).flatMap Expr.callees

/-- A name that is no own call with a declared result is looked up among the functions of the
caller. -/
theorem lookup_ownEntry_append {name : String}
    (h : (name = f.name ∧ declared.isSome = true) ∨
      externs.reverse.lookup name = externs'.reverse.lookup name) :
    (f.ownEntry declared ++ externs.reverse).lookup name =
      (f.ownEntry declared ++ externs'.reverse).lookup name := by
  rw [List.lookup_append, List.lookup_append]
  obtain ⟨rfl, hd⟩ | h := h
  · obtain ⟨d, rfl⟩ := Option.isSome_iff_exists.1 hd
    have hown : (f.ownEntry (some d)).lookup f.name = some d.1 := List.lookup_cons_self
    rw [hown, Option.some_or, Option.some_or]
  · rw [h]

theorem lowerBody_congr
    (h : ∀ name ∈ f.callees, (name = f.name ∧ declared.isSome = true) ∨
      externs.reverse.lookup name = externs'.reverse.lookup name) :
    (f.lowerBody params externs declared .empty).result =
      (f.lowerBody params externs' declared .empty).result := by
  rw [lowerBody_result, lowerBody_result]
  have hagrees : ∀ e ∈ Stmt.exprsAll f.body, (f.bodyTable params externs' declared).AgreesOn
      (f.ownEntry declared ++ externs.reverse) e.callees := fun e he name hname =>
    lookup_ownEntry_append (h name (List.mem_flatMap.2 ⟨e, he, hname⟩))
  have hswaps := Stmt.swaps_lowerAll (fun s _ => s.looksUpCallees _) hagrees
  have hresults := congrArg Lowered.result hswaps.eq
  exact hresults

/-- **The functions of the caller only matter where they are called.** Let two callers give the same
last entry, or both none, for each function that is called in a body, up to the function itself
if it declares its result. Then the function has the same text for both, or the same error in the
same place. -/
theorem emit_congr_externs (f : FunctionDef) (options : Options)
    (externs' : List (String × ReturnType))
    (h : ∀ name ∈ f.callees, (name = f.name ∧ f.returns.isSome = true) ∨
      options.externs.reverse.lookup name = externs'.reverse.lookup name) :
    (f.emit options).result = (f.emit { options with externs := externs' }).result := by
  rw [emit_result, emit_result]
  refine bind_congr fun params => ?_
  cases hdeclared : f.declaredReturn with
  | error e => rfl
  | ok declared =>
    rw [isSome_declaredReturn hdeclared] at h
    simp only [ok_bind, lowerBody_congr h]

/-- A function with a declared result that calls itself and another one: `while g(n) > 0: f(n)`,
`return g(n)`. -/
def settling : FunctionDef where
  name := "f"
  params := [⟨"n", some (.name "int" ⟨"m", 0⟩), .nowhere⟩]
  returns := some (.name "int" ⟨"m", 0⟩)
  body :=
    let n := Expr.name "n" .nowhere
    let zero := Expr.constant (.int 0) .nowhere
    [.whileLoop (.compare (.call "g" [n] .nowhere) [.gt] [zero] .nowhere)
      [.expression (.call "f" [n] .nowhere) .nowhere] [] .nowhere,
     .ret (some (.call "g" [n] .nowhere)) .nowhere]
  span := .nowhere

/-- An earlier entry for `g`, one for a function that is not called and one for the function itself
do not matter. -/
theorem emit_congr_externs_settling :
    (settling.emit ⟨none, [("g", .value .float), ("h", .void), ("g", .value .int)], .tab⟩).result =
        (settling.emit ⟨none, [("f", .value .float), ("g", .value .int)], .tab⟩).result ∧
      (settling.emit ⟨none, [("f", .value .float), ("g", .value .int)], .tab⟩).result =
      .ok "int f(int n) \x7b\n\twhile (g(n) > 0) \x7b\n\t\tf(n);\n\t\x7d\n\treturn g(n);\n\x7d\n" :=
  ⟨emit_congr_externs settling
    ⟨none, [("g", .value .float), ("h", .void), ("g", .value .int)], .tab⟩
    [("f", .value .float), ("g", .value .int)] (by decide), by decide +kernel⟩

end FunctionDef

end DefToC
