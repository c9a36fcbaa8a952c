import DefToC.Source.Emit
import DefToC.Proofs.Syntax.ProgramReadings
import DefToC.Proofs.Typed.Lowers

/-!
# Functions that are written out

A function is written out in steps, each of which can fail. `emit_eq_ok_iff` says what a function
whose text is there has passed. Its body is typed statement by statement, on a table with the
parameters, the functions of the caller and, if it declares its result, the function itself
(`lowerBody_result`).
-/

namespace DefToC

theorem Traced.bind_result {ε α β : Type} {t : Traced ε α} {f : α → Traced ε β} :
    (t >>= f).result = t.result >>= fun a => (f a).result := by
  obtain ⟨_ | a, events⟩ := t <;> rfl

theorem checkDeclared_eq_ok_iff {declared : Option (ReturnType × Position)} {returns : ReturnType}
    {u : Unit} : checkDeclared declared returns = .ok u ↔ ∀ d ∈ declared, d.1 = returns := by
  obtain _ | ⟨expected, position⟩ := declared
  · exact iff_of_true rfl nofun
  · rw [checkDeclared]
    split <;> simp_all

/-- The entry of a parameter. -/
def TypedParam.entry (p : TypedParam) : Variable := ⟨p.name, some p.type, none, .reuse⟩

namespace Lowering

variable {α β : Type} {step : Lowering α} {f : α → Lowering β} {table table₁ : SymbolTable}

theorem Yields.result_bind {a : α} (h : step.Yields table a table₁) :
    ((step >>= f) table).result = (f a table₁).result := by
  obtain ⟨hresult, rfl⟩ := h
  simp only [Bind.bind, Lowering.bind]
  rcases hstep : step table with ⟨_ | b, table₂, events⟩
  · rw [hstep] at hresult
    cases hresult
  · rw [hstep] at hresult
    rw [Except.ok.inj hresult]

theorem yields_declareParameters (ps : List TypedParam) (table : SymbolTable) :
    (declareParameters ps).Yields table ()
      { table with entries := (ps.map TypedParam.entry).reverse ++ table.entries } := by
  induction ps generalizing table with
  | nil => exact yields_pure.2 ⟨rfl, rfl⟩
  | cons p ps ih =>
    refine yields_bind.2 ⟨(), table.declareParameter p.name p.type, ⟨rfl, rfl⟩, ?_⟩
    rw [List.map_cons, List.reverse_cons, List.append_assoc]
    exact ih _

theorem yields_declareFunctions (fs : List (String × ReturnType)) (table : SymbolTable) :
    (declareFunctions fs).Yields table ()
      { table with functions := fs.reverse ++ table.functions } := by
  induction fs generalizing table with
  | nil => exact yields_pure.2 ⟨rfl, rfl⟩
  | cons g fs ih =>
    refine yields_bind.2 ⟨(), table.declareFunction g.1 g.2, ⟨rfl, rfl⟩, ?_⟩
    rw [List.reverse_cons, List.append_assoc]
    exact ih _

end Lowering

namespace FunctionDef

open Lowering

variable {f : FunctionDef} {options : Options} {params : List TypedParam}
  {externs : List (String × ReturnType)} {declared : Option (ReturnType × Position)}
  {body : List TypedStmt} {text : String}

/-- What comes of a function, without the notes. -/
theorem emit_result : (f.emit options).result = (do
    let params ← f.typedParams options
    let declared ← f.declaredReturn
    let body ← (f.lowerBody params options.externs declared .empty).result
    let unified ← (TypedStmt.unifyAll none body).result
    checkDeclared declared (unified.getD .void)
    return String.join ((functionLines f.name params (unified.getD .void) body).map
      (OutputLine.render options.indent))) := by
  simp only [emit, Traced.bind_result]
  rfl

/-- **A function has a text** exactly if its signature and its body can be typed and the results of
its body agree with each other and with the declared one. -/
theorem emit_eq_ok_iff : (f.emit options).result = .ok text ↔
    ∃ params declared body unified, f.typedParams options = .ok params ∧
      f.declaredReturn = .ok declared ∧
      (f.lowerBody params options.externs declared .empty).result = .ok body ∧
      (TypedStmt.unifyAll none body).result = .ok unified ∧
      checkDeclared declared (unified.getD .void) = .ok () ∧
      text = String.join ((functionLines f.name params (unified.getD .void) body).map
        (OutputLine.render options.indent)) := by
  simp only [emit_result, bind_eq_ok_iff]
  constructor
  · rintro ⟨params, hparams, declared, hdeclared, body, hbody, unified, hunified, _, hcheck, h⟩
    exact ⟨params, declared, body, unified, hparams, hdeclared, hbody, hunified, hcheck,
      (Except.ok.inj h).symm⟩
  · rintro ⟨params, declared, body, unified, hparams, hdeclared, hbody, hunified, hcheck, rfl⟩
    exact ⟨params, hparams, declared, hdeclared, body, hbody, unified, hunified, (), hcheck, rfl⟩

/-- A function declares its result exactly if it has a written type for it, in the same place. -/
theorem map_position_declaredReturn (h : f.declaredReturn = .ok declared) :
    declared.map Prod.snd = f.returns.map (·.position) := by
  unfold declaredReturn at h
  split at h
  · rename_i hnone
    rw [hnone, ← Except.ok.inj h]
    rfl
  · rename_i type htype
    rw [htype]
    split at h
    · rw [← Except.ok.inj h]
      rfl
    · obtain ⟨value, -, h⟩ := bind_eq_ok_iff.1 h
      rw [← Except.ok.inj h]
      rfl

/-- What a function that declares its result adds to the functions of the caller. -/
def ownEntry (f : FunctionDef) (declared : Option (ReturnType × Position)) :
    List (String × ReturnType) :=
  declared.toList.map fun d => (f.name, d.1)

/-- The table in front of the body of a function. -/
def bodyTable (f : FunctionDef) (params : List TypedParam) (externs : List (String × ReturnType))
    (declared : Option (ReturnType × Position)) : SymbolTable :=
  ⟨(params.map TypedParam.entry).reverse, f.ownEntry declared ++ externs.reverse⟩

/-- The body is typed behind the declarations, with the function itself in front of the functions of
the caller. -/
theorem lowerBody_result : (f.lowerBody params externs declared .empty).result =
    (Stmt.lowerAll f.body (f.bodyTable params externs declared)).result := by
  have hown : (f.ownEntry declared).reverse = f.ownEntry declared := by cases declared <;> rfl
  rw [lowerBody, (yields_declareParameters params _).result_bind,
    (yields_declareFunctions externs _).result_bind]
  refine (yields_declareFunctions (f.ownEntry declared) _).result_bind.trans ?_
  rw [hown]
  simp only [SymbolTable.empty, List.append_nil]
  rfl

theorem lowerAll_of_lowerBody (h : (f.lowerBody params externs declared .empty).result = .ok body) :
    ∃ table table₁, (Stmt.lowerAll f.body).Yields table body table₁ := by
  rw [lowerBody_result] at h
  exact ⟨_, _, yields_of_result h⟩

end FunctionDef

end DefToC
