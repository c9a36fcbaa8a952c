import DefToC.Proofs.Syntax.ParsedShape
import DefToC.Proofs.Token.Traces
import DefToC.Proofs.Typed.Failures
import DefToC.Source.Emit

/-!
# Where errors come from

On the way from a source text to the output there are checks that no source text can fail. The
reader gives trees of the grammar's form, with finite constants, and a variable has a pending entry
before an assignment gives it its type. So of the errors about trees without meaning there is one
that a source text can have, about a list whose elements are not all constants. A variable without a
value is one that is read, and a number is refused where it is read or not at all.
-/

namespace DefToC

/-! ### Reading -/

/-- A number that is too large for a float is refused when it is read. -/
theorem Literal.covers_finite : Literal.Covers Literal.Finite where
  truth b x h := by cases h
  number text v hv x hx := by
    subst hx
    unfold ofNumber? at hv
    simp only at hv
    split at hv
    · simp only [Option.map_eq_some_iff, Option.filter_eq_some_iff] at hv
      obtain ⟨y, ⟨-, hy⟩, h⟩ := hv
      cases h
      exact hy
    · simp at hv

theorem tokenize_failsOrdinarily (file source : String) :
    FailsOrdinarily (tokenize file source) := by
  obtain ⟨us, s, cs, last, -, hends, hrun⟩ :=
    Scanner.exists_ends_of_run (.start : Scanner.Reaches file source _ _ _)
  rw [tokenize, hrun]
  cases hends with
  | finished => exact failsIn_ok _
  | misaligned => exact failsIn_error rfl
  | unrecognised => exact failsIn_error rfl

theorem scanSource_failsOrdinarily (file source : String) :
    FailsOrdinarily (scanSource file source).result :=
  failsIn_bind_traced (tokenize_failsOrdinarily file source) fun _ _ =>
    failsIn_bind_traced (failsIn_ok _) fun _ _ => failsIn_ok _

/-! ### Functions -/

theorem TypeExpr.valueType_failsOrdinarily (a : TypeExpr) : FailsOrdinarily a.valueType := by
  unfold valueType
  split
  · exact failsIn_ok _
  · exact failsIn_error rfl

theorem Param.typed_failsOrdinarily (p : Param) : FailsOrdinarily p.typed := by
  unfold typed
  split
  · exact failsIn_bind (TypeExpr.valueType_failsOrdinarily _) fun _ _ => failsIn_ok _
  · exact failsIn_error rfl

theorem checkDeclared_failsOrdinarily (declared : Option (ReturnType × Position))
    (returns : ReturnType) : FailsOrdinarily (checkDeclared declared returns) := by
  unfold checkDeclared
  split
  · exact failsIn_ok _
  · split
    · exact failsIn_ok _
    · exact failsIn_error rfl

namespace TypedStmt

theorem unifyReturn_failsOrdinarily (unified : Option ReturnType) (returns : ReturnType)
    (span : Span) : FailsOrdinarily (unifyReturn unified returns span).result := by
  unfold unifyReturn
  split
  · exact failsIn_bind_traced (failsIn_ok _) fun _ _ => failsIn_ok _
  · split
    · exact failsIn_ok _
    · exact failsIn_error rfl

mutual

theorem unify_failsOrdinarily (unified : Option ReturnType) :
    ∀ s : TypedStmt, FailsOrdinarily (unify unified s).result
  | ret _ returns span => unifyReturn_failsOrdinarily unified returns span
  | ifThen _ body _ => unifyAll_failsOrdinarily unified body
  | whileLoop _ body _ => unifyAll_failsOrdinarily unified body
  | assign _ _ _ | augAssign _ _ _ _ | expression _ _ => failsIn_ok _

theorem unifyAll_failsOrdinarily (unified : Option ReturnType) :
    ∀ ss : List TypedStmt, FailsOrdinarily (unifyAll unified ss).result
  | [] => failsIn_ok _
  | s :: ss => failsIn_bind_traced (unify_failsOrdinarily unified s) fun unified _ =>
      unifyAll_failsOrdinarily unified ss

end

end TypedStmt

/-- Parameters are entered without a check. -/
theorem Lowering.failsIn_declareParameters {P : Error → Prop} (ps : List TypedParam)
    (table : SymbolTable) : FailsIn P (declareParameters ps table).result := by
  induction ps generalizing table with
  | nil => exact failsIn_ok _
  | cons p ps ih => exact failsIn_bind_lowering (failsIn_ok _) fun _ _ => ih _

/-- Functions are entered without a check. -/
theorem Lowering.failsIn_declareFunctions {P : Error → Prop} (fs : List (String × ReturnType))
    (table : SymbolTable) : FailsIn P (declareFunctions fs table).result := by
  induction fs generalizing table with
  | nil => exact failsIn_ok _
  | cons f fs ih => exact failsIn_bind_lowering (failsIn_ok _) fun _ _ => ih _

namespace FunctionDef

theorem typedParams_failsOrdinarily (f : FunctionDef) (options : Options) :
    FailsOrdinarily (f.typedParams options) := by
  unfold typedParams
  split
  · exact failsIn_mapM fun p _ => p.typed_failsOrdinarily
  · split
    · exact failsIn_ok _
    · exact failsIn_error rfl

theorem declaredReturn_failsOrdinarily (f : FunctionDef) : FailsOrdinarily f.declaredReturn := by
  unfold declaredReturn
  split
  · exact failsIn_ok _
  · split
    · exact failsIn_ok _
    · exact failsIn_bind (TypeExpr.valueType_failsOrdinarily _) fun _ _ => failsIn_ok _

theorem failsAbout_lowerBody {f : FunctionDef} (hf : ∀ s ∈ f.body, s.Shaped Literal.Finite)
    (params : List TypedParam) (externs : List (String × ReturnType))
    (declared : Option (ReturnType × Position)) (table : SymbolTable) :
    FailsAbout (Stmt.evaluatedAll f.body) (f.lowerBody params externs declared table).result :=
  failsIn_bind_lowering (Lowering.failsIn_declareParameters _ _) fun _ _ =>
    failsIn_bind_lowering (Lowering.failsIn_declareFunctions _ _) fun _ _ =>
      failsIn_bind_lowering (Lowering.failsIn_declareFunctions _ _) fun _ _ =>
        Stmt.failsAbout_lowerAll fun s hs => Stmt.failsAbout_lower (hf s hs)

/-- **A function of the grammar's form that cannot be written out** has an ordinary error in it, or
one about an expression of its body. -/
theorem failsAbout_emit {f : FunctionDef} (hf : ∀ s ∈ f.body, s.Shaped Literal.Finite)
    (options : Options) : FailsAbout (Stmt.evaluatedAll f.body) (f.emit options).result := by
  refine failsIn_bind_traced ((f.typedParams_failsOrdinarily options).about _) fun params _ => ?_
  refine failsIn_bind_traced (f.declaredReturn_failsOrdinarily.about _) fun declared _ => ?_
  refine failsIn_bind_traced (failsAbout_lowerBody hf _ _ _ _) fun body _ => ?_
  refine failsIn_bind_traced ((TypedStmt.unifyAll_failsOrdinarily _ _).about _) fun unified _ => ?_
  refine failsIn_bind_traced ((checkDeclared_failsOrdinarily _ _).about _) fun _ _ => ?_
  exact failsIn_bind_traced (failsIn_ok _) fun _ _ => failsIn_ok _

end FunctionDef

/-! ### Source texts -/

namespace Program

theorem select_failsOrdinarily (p : Program) (name : Option String) (file : String) :
    FailsOrdinarily (p.select name file) := by
  unfold select
  dsimp only
  split
  · exact failsIn_ok _
  · exact failsIn_error rfl

theorem mem_of_select {p : Program} {name : Option String} {file : String} {f : FunctionDef}
    (h : p.select name file = .ok f) : f ∈ p.functions := by
  unfold select at h
  dsimp only at h
  split at h
  · rename_i found hfound
    cases h
    split at hfound
    · exact List.mem_of_find?_eq_some hfound
    · exact List.mem_of_head? hfound
  · cases h

end Program

/-- The function that is written out for a name in a source text. -/
def FunctionDef.IsChosen (source file : String) (name : Option String) (f : FunctionDef) : Prop :=
  ∃ tokens program, tokenize file source = .ok tokens ∧
    (Program.parse file tokens).result = .ok program ∧ program.select name file = .ok f

/-- What is wrong with a source text that has no output: something ordinary, something that the
reader refuses, or something about an expression of the function that is written out. -/
inductive Error.StemsFrom (source file : String) (name : Option String) (e : Error) : Prop where
  | ordinary : e.cause.isOrdinary = true → StemsFrom source file name e
  | reading {tokens : List Token} : tokenize file source = .ok tokens →
      (Program.parse file tokens).result = .error e → StemsFrom source file name e
  | typing {f : FunctionDef} : f.IsChosen source file name →
      e.Concerns (Stmt.evaluatedAll f.body) → StemsFrom source file name e

theorem emitSource_stemsFrom (source file : String) (name : Option String) (options : Options) :
    FailsIn (Error.StemsFrom source file name) (emitSource source file name options).result := by
  refine failsIn_bind_traced (fun e he => .ordinary (scanSource_failsOrdinarily _ _ e he))
    fun tokens hscan => ?_
  have htokens := (result_scanSource _ _).symm.trans hscan
  refine failsIn_bind_traced (fun e he => .reading htokens he) fun program hprogram => ?_
  refine failsIn_bind_traced (fun e he => .ordinary (program.select_failsOrdinarily name file e he))
    fun f hf => ?_
  have hshaped :=
    Program.shaped_of_parse Literal.covers_finite hprogram f (Program.mem_of_select hf)
  exact fun e he => .typing ⟨tokens, program, htokens, hprogram, hf⟩
    (FunctionDef.failsAbout_emit hshaped options e he)

/-- **No source text has an error in its trees or its table but these.** If it has no output because
a tree has no meaning, then a list of the chosen function has an element that is not a constant, and
the error says so and is there. If it has none because a variable has no value, then the variable is
read there in the chosen function. If it has none because of a number, then the reader refused the
number. A new variable that is assigned to can always be given its type. -/
theorem emitSource_error_origin (source file : String) (name : Option String) (options : Options)
    (e : Error) (h : (emitSource source file name options).result = .error e) :
    (∀ message, e.cause = .malformedNode message →
      message = "Array literal elements must be numeric constants" ∧
      ∃ (f : FunctionDef) (elements : List Expr) (span : Span), f.IsChosen source file name ∧
        .list elements span ∈ Stmt.evaluatedAll f.body ∧
        ∃ element ∈ elements, ¬element.IsConstant ∧ e.position = element.span.position) ∧
    (∀ id, e.cause = .undefinedVariable id →
      ∃ (f : FunctionDef) (span : Span), f.IsChosen source file name ∧
        .name id span ∈ Stmt.evaluatedAll f.body ∧ e.position = span.position) ∧
    (∀ text, e.cause = .numberParseError text →
      ∃ tokens, tokenize file source = .ok tokens ∧
        (Program.parse file tokens).result = .error e) ∧
    (∀ targets table found table₁ v type size position,
      (Expr.lowerTargets targets).Yields table found table₁ → .var v ∈ found → v.isNew = true →
      ∃ table₂, table₁.bind v.name type size position = .ok table₂) := by
  have horigin := emitSource_stemsFrom source file name options e h
  obtain ⟨cause, position⟩ := e
  refine ⟨?_, ?_, ?_, ?_⟩
  · rintro message rfl
    cases horigin with
    | ordinary hcause => cases hcause
    | reading _ hparse => cases Program.isSyntactic_of_parse hparse
    | typing hf hfault =>
      obtain ⟨hmessage, elements, span, hlist, hfault⟩ := hfault
      exact ⟨hmessage, _, elements, span, hf, hlist, hfault⟩
  · rintro id rfl
    cases horigin with
    | ordinary hcause => cases hcause
    | reading _ hparse => cases Program.isSyntactic_of_parse hparse
    | typing hf hread =>
      obtain ⟨span, hname, hspan⟩ := hread
      exact ⟨_, span, hf, hname, hspan⟩
  · rintro text rfl
    cases horigin with
    | ordinary hcause => cases hcause
    | reading htokens hparse => exact ⟨_, htokens, hparse⟩
    | typing _ hnumber => exact hnumber.elim
  · intro targets table found table₁ v type size position hfound hv hnew
    exact ⟨_, ((Expr.lowerTargets_awaits hfound).1 v hv hnew).bind type size position⟩

/-- A variable with a sign in a list, in a block:
`def f(n): if n: a = [1, -n]`. -/
theorem emitSource_error_origin_signedVariable :
    (emitSource "def f(n):\n    if n:\n        a = [1, -n]\n" "f" none
      ⟨some [.int], [], .spaces 4⟩).result =
        .error ⟨.malformedNode "Array literal elements must be numeric constants", ⟨"f", 36⟩⟩ ∧
    ∃ (f : FunctionDef) (elements : List Expr) (span : Span),
      f.IsChosen "def f(n):\n    if n:\n        a = [1, -n]\n" "f" none ∧
      .list elements span ∈ Stmt.evaluatedAll f.body ∧
      ∃ element ∈ elements, ¬element.IsConstant ∧ ⟨"f", 36⟩ = element.span.position := by
  have h : (emitSource "def f(n):\n    if n:\n        a = [1, -n]\n" "f" none
      ⟨some [.int], [], .spaces 4⟩).result =
        .error ⟨.malformedNode "Array literal elements must be numeric constants", ⟨"f", 36⟩⟩ := by
    decide +kernel
  exact ⟨h, ((emitSource_error_origin _ _ _ _ _ h).1 _ rfl).2⟩

end DefToC
