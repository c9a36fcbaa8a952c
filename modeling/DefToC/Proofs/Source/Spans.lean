import DefToC.Proofs.Token.BlankLines
import DefToC.Proofs.Typed.Spans
import DefToC.Source.Emit

/-!
# The output does not depend on spans

A function is written out without looking at the places of its parts. With what holds of the readers
and of typing, the output of a source text is decided by the kinds and the texts of its tokens, and
so is what is wrong with it (`emitSource_eq_of_bare`). So whatever leaves these as they are makes no
difference to the output: other line ends, and lines that are blank.
-/

namespace DefToC

open Lowering

/-! ### Signatures -/

namespace TypeExpr

mutual

theorem text_bare : ∀ a : TypeExpr, a.bare.text = a.text
  | name _ _ => rfl
  | applied base arguments _ => by rw [bare, text, text, text_bare base, texts_bare arguments]

theorem texts_bare : ∀ as : List TypeExpr, texts (bareAll as) = texts as
  | [] => rfl
  | a :: as => by rw [bareAll, texts, texts, text_bare a, texts_bare as]

end

theorem plainName?_bare (a : TypeExpr) : a.bare.plainName? = a.plainName? := by
  cases a <;> rfl

theorem valueType?_bare (a : TypeExpr) : a.bare.valueType? = a.valueType? := by
  cases a with
  | name id position => rfl
  | applied base arguments position =>
    cases arguments with
    | nil => rfl
    | cons argument arguments =>
      cases arguments with
      | nil => simp only [bare, bareAll, valueType?, plainName?_bare]
      | cons => rfl

theorem valueType_bare (a : TypeExpr) : a.bare.valueType = bareResult id a.valueType := by
  unfold valueType
  rw [a.valueType?_bare, a.text_bare, a.position_bare]
  cases a.valueType? <;> rfl

end TypeExpr

theorem Param.typed_bare (p : Param) : p.bare.typed = bareResult id p.typed := by
  obtain ⟨name, _ | type, span⟩ := p
  · rfl
  · show type.bare.valueType >>= _ = bareResult id (type.valueType >>= _)
    rw [type.valueType_bare]
    exact bareResult_bind fun _ => rfl

/-- The declared result without its place. -/
def bareReturn (declared : Option (ReturnType × Position)) : Option (ReturnType × Position) :=
  declared.map fun (returns, _) => (returns, Span.nowhere.position)

theorem checkDeclared_bare (declared : Option (ReturnType × Position)) (returns : ReturnType) :
    checkDeclared (bareReturn declared) returns =
      bareResult id (checkDeclared declared returns) := by
  obtain _ | ⟨expected, position⟩ := declared
  · rfl
  · show (if _ then _ else _) = bareResult id (if _ then _ else _)
    split <;> rfl

namespace FunctionDef

variable (f : FunctionDef) (options : Options)

theorem typedParams_bare : f.bare.typedParams options = bareResult id (f.typedParams options) := by
  unfold typedParams
  split
  · exact bareResult_mapM f.params fun p _ => p.typed_bare
  · rename_i types _
    have hlength : f.bare.params.length = f.params.length := List.length_map _
    rw [hlength]
    split
    · show Except.ok (List.zipWith _ (f.params.map Param.bare) types) = _
      rw [List.zipWith_map_left]
      rfl
    · rfl

theorem declaredReturn_bare : f.bare.declaredReturn = bareResult bareReturn f.declaredReturn := by
  obtain ⟨name, params, _ | type, body, span⟩ := f
  · rfl
  · show (if type.bare.text = "None" then _ else _) =
      bareResult bareReturn (if type.text = "None" then _ else _)
    rw [type.text_bare, type.position_bare, type.valueType_bare]
    split
    · rfl
    · exact bareResult_bind fun _ => rfl

end FunctionDef

/-! ### Functions -/

namespace TypedStmt

theorem unifyReturn_bare (unified : Option ReturnType) (returns : ReturnType) (span : Span) :
    unifyReturn unified returns .nowhere = (unifyReturn unified returns span).bare id := by
  unfold unifyReturn
  split
  · rfl
  · split <;> rfl

mutual

theorem unify_bare (unified : Option ReturnType) :
    ∀ s : TypedStmt, unify unified s.bare = (unify unified s).bare id
  | ret _ returns span => unifyReturn_bare unified returns span
  | ifThen _ body _ => unifyAll_bare unified body
  | whileLoop _ body _ => unifyAll_bare unified body
  | assign _ _ _ => rfl
  | augAssign _ _ _ _ => rfl
  | expression _ _ => rfl

theorem unifyAll_bare (unified : Option ReturnType) :
    ∀ ss : List TypedStmt, unifyAll unified (bareAll ss) = (unifyAll unified ss).bare id
  | [] => rfl
  | s :: ss => by
    rw [bareAll, unifyAll, unifyAll, unify_bare unified s]
    exact Traced.bare_bind fun unified => unifyAll_bare unified ss

end

end TypedStmt

theorem Lowering.Agrees.run {α γ : Type} {f : α → γ} {step : Lowering α} {step' : Lowering γ}
    (h : Agrees f step step') (table : SymbolTable) :
    step'.run table = (step.run table).bare f := by
  unfold Lowering.run
  rw [h table]
  rfl

theorem Lowering.declareParameters_bare (ps : List TypedParam) :
    Agrees id (declareParameters ps) (declareParameters ps) := by
  induction ps with
  | nil => exact agrees_pure rfl
  | cons p ps ih =>
    exact ((agrees_note _).bind fun _ => agrees_updating fun _ => rfl).bind fun _ => ih

theorem Lowering.declareFunctions_bare (fs : List (String × ReturnType)) :
    Agrees id (declareFunctions fs) (declareFunctions fs) := by
  induction fs with
  | nil => exact agrees_pure rfl
  | cons f fs ih =>
    exact ((agrees_note _).bind fun _ => agrees_updating fun _ => rfl).bind fun _ => ih

namespace FunctionDef

variable (f : FunctionDef) (options : Options)

theorem lowerBody_bare (params : List TypedParam) (externs : List (String × ReturnType))
    (declared : Option (ReturnType × Position)) :
    Agrees (List.map TypedStmt.bare) (f.lowerBody params externs declared)
      (f.bare.lowerBody params externs (bareReturn declared)) := by
  have hself : (bareReturn declared).toList.map (fun (returns, _) => (f.bare.name, returns)) =
      declared.toList.map fun (returns, _) => (f.name, returns) := by
    cases declared <;> rfl
  unfold lowerBody
  rw [hself]
  exact (declareParameters_bare params).bind fun _ => (declareFunctions_bare externs).bind fun _ =>
    (declareFunctions_bare _).bind fun _ => Stmt.lowerAll_bare fun s _ => s.lower_bare

/-- **A function is written out without looking at spans.** -/
theorem emit_bare : f.bare.emit options = (f.emit options).bare id := by
  unfold emit
  rw [typedParams_bare, declaredReturn_bare, Traced.ofExcept_bareResult,
    Traced.ofExcept_bareResult]
  refine Traced.bare_bind fun params => Traced.bare_bind fun declared => ?_
  dsimp only [id]
  rw [(f.lowerBody_bare params options.externs declared).run]
  refine Traced.bare_bind fun body => ?_
  rw [← TypedStmt.bareAll_eq_map, TypedStmt.unifyAll_bare]
  refine Traced.bare_bind fun unified => ?_
  dsimp only [id]
  rw [checkDeclared_bare, Traced.ofExcept_bareResult]
  refine Traced.bare_bind fun _ => ?_
  rw [functionLines, TypedStmt.linesOf_bare]
  rfl

end FunctionDef

/-! ### Source texts -/

namespace Program

variable (p : Program) (name : Option String) (file : String) (options : Options)

theorem select_bare : p.bare.select name file = (p.select name file).map FunctionDef.bare := by
  unfold select
  cases name with
  | none =>
    have hfound : p.bare.functions.head? = p.functions.head?.map FunctionDef.bare := List.head?_map
    dsimp only
    rw [hfound]
    cases p.functions.head? <;> rfl
  | some name =>
    have hfound : p.bare.functions.find? (·.name = name) =
        (p.functions.find? (·.name = name)).map FunctionDef.bare := List.find?_map
    dsimp only
    rw [hfound]
    cases p.functions.find? (·.name = name) <;> rfl

theorem emit_bare :
    (p.bare.emit name file options).bare id = (p.emit name file options).bare id := by
  unfold emit
  rw [select_bare]
  cases p.select name file with
  | error e => rfl
  | ok f =>
    show (f.bare.emit options).bare id = (f.emit options).bare id
    rw [f.emit_bare, Traced.bare_bare]

end Program

/-- **The output is decided by the kinds and the texts of the tokens**, and so is what is wrong with
a source text. -/
theorem emitSource_eq_of_bare {source source' file : String} (name : Option String)
    (options : Options)
    (h : bareResult (List.map Token.bare) (tokenize file source') =
      bareResult (List.map Token.bare) (tokenize file source)) :
    (emitSource source' file name options).bare id =
      (emitSource source file name options).bare id := by
  have hrest (tokens : List Token) :
      (Program.parse file tokens >>= fun p => p.emit name file options).bare id =
        (Program.parse file tokens).bare Program.bare >>= fun p =>
          (p.emit name file options).bare id := by
    symm
    exact Traced.bare_bind fun p => p.emit_bare name file options
  unfold emitSource scanSource
  generalize tokenize file source = scanned at h ⊢
  generalize tokenize file source' = scanned' at h ⊢
  cases scanned with
  | error e =>
    cases scanned' with
    | ok tokens' => cases h
    | error e' =>
      show (⟨.error e'.bare, []⟩ : Traced Error String) = ⟨.error e.bare, []⟩
      rw [Except.error.inj h]
  | ok tokens =>
    cases scanned' with
    | error e' => cases h
    | ok tokens' =>
      have htokens : tokens'.map Token.bare = tokens.map Token.bare := Except.ok.inj h
      have hlength : tokens'.length = tokens.length := by
        simpa using congrArg List.length htokens
      have hresult := hrest tokens'
      rw [Program.parse_eq_of_bare htokens, ← hrest tokens] at hresult
      -- the note of the number of tokens is the same, so the rest decides
      show (Traced.note (.tokenized file tokens'.length) >>= fun _ =>
        (Program.parse file tokens' >>= fun p => p.emit name file options).bare id) = _
      rw [hlength, hresult]
      rfl

/-! ### Line ends and blank lines -/

/-- **Line ends make no difference.** With a carriage return in front of every line feed a source
text has the same tokens, the same output and the same notes, or the same is wrong with it. -/
theorem emitSource_withReturns (source file : String) (h : '\r' ∉ source.toList) :
    bareResult (List.map Token.bare) (tokenize file (withReturns source)) =
        bareResult (List.map Token.bare) (tokenize file source) ∧
      ∀ (name : Option String) (options : Options),
        (emitSource (withReturns source) file name options).bare id =
          (emitSource source file name options).bare id :=
  have htokens := tokenize_withReturns file h
  ⟨htokens, fun name options => emitSource_eq_of_bare name options htokens⟩

/-- A comment, a line end inside brackets, a blank line and a joined line. -/
def halved : String :=
  "def f(n: int):\n  # half\n  m = (n + \n1)\n \n  return m \\\n// 2\n"

theorem emitSource_withReturns_halved :
    '\r' ∉ halved.toList ∧
      (emitSource halved "f" none ⟨none, [], .tab⟩).result =
        .ok "int f(int n) \x7b\n\tint m = (n + 1);\n\treturn (m / 2);\n\x7d\n" ∧
      bareResult (List.map Token.bare) (tokenize "f" (withReturns halved)) =
        bareResult (List.map Token.bare) (tokenize "f" halved) ∧
      (emitSource (withReturns halved) "f" none ⟨none, [], .tab⟩).bare id =
        (emitSource halved "f" none ⟨none, [], .tab⟩).bare id := by
  have h : '\r' ∉ halved.toList := by decide +kernel
  obtain ⟨htokens, hemit⟩ := emitSource_withReturns halved "f" h
  exact ⟨h, by decide +kernel, htokens, hemit none ⟨none, [], .tab⟩⟩

/-- **Blank lines make no difference.** Between two lines of a source text a line of blanks, with or
without a comment, changes neither the tokens nor the output nor the notes, nor what is wrong with
the text. The lines may be inside brackets or in any block. -/
theorem emitSource_blankLine (file : String) {a l : String} (b : String)
    (ha : a = "" ∨ EndsLine a.toList) (hl : BlankLine l.toList) :
    bareResult (List.map Token.bare) (tokenize file (a ++ l ++ b)) =
        bareResult (List.map Token.bare) (tokenize file (a ++ b)) ∧
      ∀ (name : Option String) (options : Options),
        (emitSource (a ++ l ++ b) file name options).bare id =
          (emitSource (a ++ b) file name options).bare id :=
  have htokens := tokenize_blankLine file b ha hl
  ⟨htokens, fun name options => emitSource_eq_of_bare name options htokens⟩

/-- The lines of a function up to an open bracket. -/
def sumOpened : String := "def f(n: int):\n  m = (n +\n"

/-- The lines behind them. -/
def sumClosed : String := "1)\n  return m\n"

/-- A comment that is indented less than its block and stands inside brackets. -/
theorem emitSource_blankLine_insideBrackets :
    EndsLine sumOpened.toList ∧ BlankLine " \x0c# é\r\n".toList ∧
      bareResult (List.map Token.bare)
          (tokenize "f" (sumOpened ++ " \x0c# é\r\n" ++ sumClosed)) =
        bareResult (List.map Token.bare) (tokenize "f" (sumOpened ++ sumClosed)) ∧
      (emitSource (sumOpened ++ sumClosed) "f" none ⟨none, [], .tab⟩).result =
        .ok "int f(int n) \x7b\n\tint m = (n + 1);\n\treturn m;\n\x7d\n" ∧
      (emitSource (sumOpened ++ " \x0c# é\r\n" ++ sumClosed) "f" none ⟨none, [], .tab⟩).bare id =
        (emitSource (sumOpened ++ sumClosed) "f" none ⟨none, [], .tab⟩).bare id := by
  have ha : EndsLine sumOpened.toList := ⟨by decide +kernel, by decide +kernel, by decide +kernel⟩
  have hl : BlankLine " \x0c# é\r\n".toList :=
    @BlankLine.mk [' ', '\x0c'] ['#', ' ', 'é'] ['\r', '\n'] (by simp)
      (.inr ⟨[' ', 'é'], rfl, by simp⟩) (.inr rfl)
  obtain ⟨htokens, hemit⟩ := emitSource_blankLine "f" sumClosed (.inr ha) hl
  exact ⟨ha, hl, htokens, by decide +kernel, hemit none ⟨none, [], .tab⟩⟩

end DefToC
