import DefToC.Source.Emit
import DefToC.Proofs.Syntax.ParsedShape
import DefToC.Proofs.Syntax.RoundTrip
import DefToC.Proofs.Typed.Scoping
import Mathlib

/-!
# Typing loses nothing

`erase` reads a typed tree back as a tree of the source: it drops types, sizes and what an
occurrence of a variable does. What comes back is the statement that was typed, up to spans,
with the signs in lists of constants folded into the constants (`Stmt.folded`). So a statement
that is accepted has no second branch at any depth, for there is no place for one in its typed
form.
-/

namespace DefToC

/-! ### Reading typed trees back -/

mutual

/-- The source of a typed expression. -/
def TypedExpr.erase : TypedExpr → Expr
  | .var v span => .name v.name span
  | .constant value span => .constant value span
  | .array elements span => .list (elements.map fun l => .constant l span) span
  | .compare left ops comparators span => .compare left.erase ops (eraseAll comparators) span
  | .binary left op right span => .binary left.erase op right.erase span
  | .unary op operand span => .unary op operand.erase span
  | .boolChain op values span => .boolOp op (eraseAll values) span
  | .subscript value slice span => .subscript value.erase slice.erase span
  | .index value => value.erase
  | .call callee arguments _ span => .call callee (eraseAll arguments) span

/-- The sources of several typed expressions. -/
def TypedExpr.eraseAll : List TypedExpr → List Expr
  | [] => []
  | e :: es => e.erase :: eraseAll es

end

/-- The source of a target, which has no span of its own. -/
def Target.erase : Target → Expr
  | var v => .name v.name .nowhere
  | subscript e => e.erase

mutual

/-- The source of a typed statement. -/
def TypedStmt.erase : TypedStmt → Stmt
  | .assign targets value span => .assign (targets.map Target.erase) value.erase span
  | .augAssign target op value span => .augAssign target.erase op value.erase span
  | .ifThen test body span => .ifThen test.erase (eraseAll body) [] span
  | .whileLoop test body span => .whileLoop test.erase (eraseAll body) [] span
  | .ret value _ span => .ret (value.map TypedExpr.erase) span
  | .expression e span => .expression e.erase span

/-- The sources of the statements of a typed block. -/
def TypedStmt.eraseAll : List TypedStmt → List Stmt
  | [] => []
  | s :: ss => s.erase :: eraseAll ss

end

@[simp] theorem TypedExpr.eraseAll_eq_map (es : List TypedExpr) : eraseAll es = es.map erase := by
  induction es with
  | nil => rfl
  | cons e es ih => rw [eraseAll, ih, List.map_cons]

@[simp] theorem TypedStmt.eraseAll_eq_map (ss : List TypedStmt) : eraseAll ss = ss.map erase := by
  induction ss with
  | nil => rfl
  | cons s ss ih => rw [eraseAll, ih, List.map_cons]

/-! ### Signs in lists of constants -/

/-- A constant with a sign in front of it as one constant. -/
def Expr.foldSign : Expr → Expr
  | .unary .plus (.constant (.int n) _) span => .constant (.int n) span
  | .unary .plus (.constant (.float x) _) span => .constant (.float x) span
  | .unary .minus (.constant (.int n) _) span => .constant (.int (-n)) span
  | .unary .minus (.constant (.float x) _) span => .constant (.float x.neg) span
  | e => e

mutual

/-- The expression with the signs in its lists folded into the constants. -/
def Expr.folded : Expr → Expr
  | .list elements span => .list (elements.map foldSign) span
  | .compare left ops comparators span => .compare left.folded ops (foldedAll comparators) span
  | .binary left op right span => .binary left.folded op right.folded span
  | .unary op operand span => .unary op operand.folded span
  | .boolOp op values span => .boolOp op (foldedAll values) span
  | .subscript value slice span => .subscript value.folded slice.folded span
  | .call callee arguments span => .call callee (foldedAll arguments) span
  | e => e

/-- The expressions with the signs in their lists folded. -/
def Expr.foldedAll : List Expr → List Expr
  | [] => []
  | e :: es => e.folded :: foldedAll es

end

mutual

/-- The statement with the signs in its lists folded. -/
def Stmt.folded : Stmt → Stmt
  | .assign targets value span => .assign (targets.map Expr.folded) value.folded span
  | .augAssign target op value span => .augAssign target.folded op value.folded span
  | .ifThen test body orelse span => .ifThen test.folded (foldedAll body) (foldedAll orelse) span
  | .whileLoop test body orelse span =>
    .whileLoop test.folded (foldedAll body) (foldedAll orelse) span
  | .ret value span => .ret (value.map Expr.folded) span
  | .expression e span => .expression e.folded span

/-- The statements with the signs in their lists folded. -/
def Stmt.foldedAll : List Stmt → List Stmt
  | [] => []
  | s :: ss => s.folded :: foldedAll ss

end

@[simp] theorem Expr.foldedAll_eq_map (es : List Expr) : foldedAll es = es.map folded := by
  induction es with
  | nil => rfl
  | cons e es ih => rw [foldedAll, ih, List.map_cons]

@[simp] theorem Stmt.foldedAll_eq_map (ss : List Stmt) : foldedAll ss = ss.map folded := by
  induction ss with
  | nil => rfl
  | cons s ss ih => rw [foldedAll, ih, List.map_cons]

/-! ### Constants -/

/-- A constant as it is read: if it is an integer, it has 32 bits. -/
def Literal.Small (l : Literal) : Prop := ∀ n, l = .int n → -2147483648 ≤ n ∧ n ≤ 2147483647

theorem Literal.covers_small : Literal.Covers Literal.Small where
  truth b n h := by cases h
  number text v hv n hn := by
    subst hn
    unfold ofNumber? at hv
    simp only at hv
    split at hv
    · simp at hv
    · simp only [Option.map_eq_some_iff, Option.filter_eq_some_iff, Bool.and_eq_true,
        decide_eq_true_eq] at hv
      obtain ⟨m, ⟨-, hm⟩, h⟩ := hv
      cases h
      exact hm

/-- Within 32 bits the negation of 64-bit integers is the true one. -/
theorem Literal.Small.negInt_eq {n : Int} (h : Literal.Small (.int n)) : negInt n = -n := by
  obtain ⟨hlow, hhigh⟩ := h n rfl
  unfold negInt
  rw [Int.bmod_eq_of_le (by omega) (by omega)]

/-- An element of a list is the constant that its folded form is. -/
theorem Expr.bare_foldSign {e : Expr} (he : e.Shaped Literal.Small) {l : Literal}
    (h : e.element = .ok l) : e.foldSign.bare = .constant l .nowhere := by
  unfold element at h
  split at h
  · cases h
    rfl
  · cases h
    rfl
  · cases h
    rfl
  · cases h
    cases he with
    | unary _ hn =>
      cases hn with
      | constant hn => simp [foldSign, bare, hn.negInt_eq]
  · cases h
    rfl
  · cases h

/-! ### Expressions -/

namespace Expr

theorem map_bare_of_forall₂ {es : List Expr} {ts : List TypedExpr}
    (h : List.Forall₂ (fun e t => t.erase.bare = e.folded.bare) es ts) :
    (ts.map TypedExpr.erase).map bare = (es.map folded).map bare := by
  induction h with
  | nil => rfl
  | cons h _ ih => rw [List.map_cons, List.map_cons, ih, h, List.map_cons, List.map_cons]

/-- The elements of a list come back as constants. -/
theorem map_bare_foldSign {es : List Expr} (hes : ∀ e ∈ es, e.Shaped Literal.Small)
    {ls : List Literal} (h : es.mapM element = .ok ls) :
    (es.map foldSign).map bare = ls.map fun l => .constant l .nowhere := by
  induction es generalizing ls with
  | nil =>
    cases h
    rfl
  | cons e es ih =>
    obtain ⟨he, hes⟩ := List.forall_mem_cons.1 hes
    rw [List.mapM_cons] at h
    obtain ⟨l, hl, h⟩ := bind_eq_ok_iff.1 h
    obtain ⟨ls', hls, h⟩ := bind_eq_ok_iff.1 h
    cases h
    simp only [List.map_cons, bare_foldSign he hl, ih hes hls]

/-- **Typing an expression loses nothing**: it comes back from its typed form. -/
theorem Shaped.bare_erase {e : Expr} (he : e.Shaped Literal.Small) {table : SymbolTable} :
    ∀ {t : TypedExpr}, e.lower table = .ok t → t.erase.bare = e.folded.bare := by
  induction he with
  | name =>
    intro t ht
    obtain ⟨v, hv, rfl⟩ := TypedExpr.mkVariable_eq_ok_iff.1 ht
    simp only [TypedExpr.erase, folded, bare, SymbolTable.name_of_lookup hv]
  | constant _ =>
    intro t ht
    obtain ⟨-, rfl⟩ := TypedExpr.mkConstant_eq_ok_iff.1 ht
    rfl
  | list hes _ =>
    intro t ht
    obtain ⟨ls, hls, -, -, rfl⟩ := lower_list_eq_ok_iff.1 ht
    have helements := map_bare_foldSign hes hls
    simp only [TypedExpr.erase, folded, bare, bareAll_eq_map, helements, List.map_map,
      Function.comp_def]
  | compare _ _ _ _ _ ihl ih =>
    intro t ht
    obtain ⟨l, ts, hl, hts, -, -, -, rfl⟩ := lower_compare_eq_ok_iff.1 ht
    have hrest := map_bare_of_forall₂ (forall₂_of_lowersTo ih hts)
    simp only [TypedExpr.erase, folded, bare, TypedExpr.eraseAll_eq_map,
      foldedAll_eq_map, bareAll_eq_map]
    rw [ihl hl, hrest]
  | binary _ _ _ ihl ihr =>
    intro t ht
    obtain ⟨l, r, hl, hr, -, -, rfl⟩ := lower_binary_eq_ok_iff.1 ht
    simp only [TypedExpr.erase, folded, bare]
    rw [ihl hl, ihr hr]
  | unary _ _ ih =>
    intro t ht
    obtain ⟨o, ho, -, rfl⟩ := lower_unary_eq_ok_iff.1 ht
    simp only [TypedExpr.erase, folded, bare]
    rw [ih ho]
  | boolOp _ _ _ ih =>
    intro t ht
    obtain ⟨ts, hts, -, -, rfl⟩ := lower_boolOp_eq_ok_iff.1 ht
    have hvalues := map_bare_of_forall₂ (forall₂_of_lowersTo ih hts)
    simp only [TypedExpr.erase, folded, bare, TypedExpr.eraseAll_eq_map,
      foldedAll_eq_map, bareAll_eq_map, hvalues]
  | subscript _ _ ihv ihs =>
    intro t ht
    obtain ⟨v, i, hv, hi, -, -, -, rfl⟩ := lower_subscript_eq_ok_iff.1 ht
    simp only [TypedExpr.erase, folded, bare]
    rw [ihv hv, ihs hi]
  | call _ ih =>
    intro t ht
    obtain ⟨ts, hts, rfl⟩ := lower_call_eq_ok_iff.1 ht
    have harguments := map_bare_of_forall₂ (forall₂_of_lowersTo ih hts)
    simp only [TypedExpr.erase, folded, bare, TypedExpr.eraseAll_eq_map,
      foldedAll_eq_map, bareAll_eq_map, harguments]

end Expr

/-! ### Targets -/

/-- Settling a target leaves its name. -/
theorem Settles.map_erase {type : ValueType} {size : Option Nat} {found settled : List Target}
    {table table₁ : SymbolTable} (h : Settles type size found table settled table₁) :
    settled.map Target.erase = found.map Target.erase := by
  cases h with
  | existing _ => rfl
  | introduced _ _ _ _ => rfl

theorem Aims.bare_erase {table : SymbolTable} {e : Expr} {t : Target} (h : Aims table e t)
    (he : e.Shaped Literal.Small) : t.erase.bare = e.folded.bare := by
  cases h with
  | bound hv => simp only [Target.erase, Expr.folded, Expr.bare, SymbolTable.name_of_lookup hv]
  | pending _ => rfl
  | element _ ht => exact he.bare_erase ht

theorem Aims.map_bare_erase {table : SymbolTable} {es : List Expr} {ts : List Target}
    (h : List.Forall₂ (Aims table) es ts) (hes : ∀ e ∈ es, e.Shaped Literal.Small) :
    (ts.map Target.erase).map Expr.bare = (es.map Expr.folded).map Expr.bare := by
  induction h with
  | nil => rfl
  | cons h _ ih =>
    obtain ⟨he, hes⟩ := List.forall_mem_cons.1 hes
    simp only [List.map_cons, h.bare_erase he, ih hes]

/-! ### Statements -/

/-- **Typing a block loses nothing.** -/
theorem Lowers.map_bare_erase {table table₁ : SymbolTable} {ss : List Stmt}
    {ts : List TypedStmt} (h : Lowers table ss ts table₁)
    (hss : ∀ s ∈ ss, s.Shaped Literal.Small) :
    (ts.map TypedStmt.erase).map Stmt.bare = (ss.map Stmt.folded).map Stmt.bare := by
  induction h with
  | nil => rfl
  | assign hv _ ha _ hset _ ih =>
    obtain ⟨hs, hss⟩ := List.forall_mem_cons.1 hss
    cases hs with
    | assign _ _ hts hvalue =>
      have htargets := Aims.map_bare_erase ha hts
      have hval := hvalue.bare_erase hv
      simp only [List.map_cons, TypedStmt.erase, Stmt.folded, Stmt.bare, Expr.bareAll_eq_map,
        hset.map_erase, htargets, hval, ih hss]
  | augAssign hv ht _ _ ih =>
    obtain ⟨hs, hss⟩ := List.forall_mem_cons.1 hss
    cases hs with
    | augAssign _ _ htarget hvalue =>
      have htar := htarget.bare_erase ht
      have hval := hvalue.bare_erase hv
      simp only [List.map_cons, TypedStmt.erase, Stmt.folded, Stmt.bare, htar, hval, ih hss]
  | ifThen ht _ _ ihb ih | whileLoop ht _ _ ihb ih =>
    obtain ⟨hs, hss⟩ := List.forall_mem_cons.1 hss
    cases hs
    rename_i htest hbody _
    have hcond := htest.bare_erase ht
    simp only [List.map_cons, TypedStmt.erase, Stmt.folded, Stmt.bare, Stmt.bareAll_eq_map,
      TypedStmt.eraseAll_eq_map, Stmt.foldedAll_eq_map, hcond, ihb hbody, ih hss, List.map_nil]
  | retNone _ ih =>
    obtain ⟨-, hss⟩ := List.forall_mem_cons.1 hss
    simp only [List.map_cons, TypedStmt.erase, Stmt.folded, Stmt.bare, Option.map_none, ih hss]
  | retSome hv _ _ ih =>
    obtain ⟨hs, hss⟩ := List.forall_mem_cons.1 hss
    cases hs with
    | ret hvalue =>
      have hval := (hvalue _ rfl).bare_erase hv
      simp only [List.map_cons, TypedStmt.erase, Stmt.folded, Stmt.bare, Option.map_some, hval,
        ih hss]
  | expression he _ ih =>
    obtain ⟨hs, hss⟩ := List.forall_mem_cons.1 hss
    cases hs with
    | expression hshaped =>
      have hexpr := hshaped.bare_erase he
      simp only [List.map_cons, TypedStmt.erase, Stmt.folded, Stmt.bare, hexpr, ih hss]

/-! ### Second branches -/

mutual

/-- A statement and the statements inside it, at any depth. -/
def Stmt.parts : Stmt → List Stmt
  | .ifThen test body orelse span =>
    .ifThen test body orelse span :: (partsAll body ++ partsAll orelse)
  | .whileLoop test body orelse span =>
    .whileLoop test body orelse span :: (partsAll body ++ partsAll orelse)
  | s => [s]

/-- The statements of a block and those inside them, at any depth. -/
def Stmt.partsAll : List Stmt → List Stmt
  | [] => []
  | s :: ss => s.parts ++ partsAll ss

end

/-- The second branch of a conditional or a loop. -/
def Stmt.orelse : Stmt → List Stmt
  | .ifThen _ _ orelse _ => orelse
  | .whileLoop _ _ orelse _ => orelse
  | _ => []

theorem Stmt.mem_partsAll {s : Stmt} {ss : List Stmt} :
    s ∈ partsAll ss ↔ ∃ s' ∈ ss, s ∈ s'.parts := by
  induction ss with
  | nil => simp [partsAll]
  | cons _ _ ih => simp [partsAll, ih]

/-- What is inside a statement of the grammar's form is of that form. -/
theorem Stmt.Shaped.parts {P : Literal → Prop} {s : Stmt} (h : s.Shaped P) :
    ∀ s' ∈ s.parts, s'.Shaped P := by
  induction h with
  | ifThen ht hb ho ihb iho | whileLoop ht hb ho ihb iho =>
    intro s' hs'
    simp only [Stmt.parts, List.mem_cons, List.mem_append, mem_partsAll] at hs'
    rcases hs' with rfl | ⟨s₁, hs₁, hmem⟩ | ⟨s₁, hs₁, hmem⟩
    · constructor <;> assumption
    · exact ihb s₁ hs₁ s' hmem
    · exact iho s₁ hs₁ s' hmem
  | assign hne ha hts hv => exact List.forall_mem_singleton.2 (.assign hne ha hts hv)
  | augAssign ha hop ht hv => exact List.forall_mem_singleton.2 (.augAssign ha hop ht hv)
  | ret hv => exact List.forall_mem_singleton.2 (.ret hv)
  | expression he => exact List.forall_mem_singleton.2 (.expression he)

/-- **An accepted block has no second branch at any depth.** -/
theorem Lowers.orelse_eq_nil {table table₁ : SymbolTable} {ss : List Stmt}
    {ts : List TypedStmt} (h : Lowers table ss ts table₁) :
    ∀ s ∈ Stmt.partsAll ss, s.orelse = [] := by
  induction h with
  | nil => simp [Stmt.partsAll]
  | assign _ _ _ _ _ _ ih => simpa [Stmt.partsAll, Stmt.parts, Stmt.orelse] using ih
  | augAssign _ _ _ _ ih => simpa [Stmt.partsAll, Stmt.parts, Stmt.orelse] using ih
  | ifThen _ _ _ ihb ih | whileLoop _ _ _ ihb ih =>
    simp only [Stmt.partsAll, Stmt.parts, List.append_nil, List.cons_append]
    exact List.forall_mem_cons.2 ⟨rfl, List.forall_mem_append.2 ⟨ihb, ih⟩⟩
  | retNone _ ih => simpa [Stmt.partsAll, Stmt.parts, Stmt.orelse] using ih
  | retSome _ _ _ ih => simpa [Stmt.partsAll, Stmt.parts, Stmt.orelse] using ih
  | expression _ _ ih => simpa [Stmt.partsAll, Stmt.parts, Stmt.orelse] using ih

/-! ### Programs -/

/-- A function that is written out has a typed body. -/
theorem FunctionDef.exists_lowers_of_emit {f : FunctionDef} {options : Options} {text : String}
    (h : (f.emit options).result = .ok text) :
    ∃ table typed table₁, Lowers table f.body typed table₁ := by
  obtain ⟨params, -, h⟩ := Traced.bind_result_eq_ok.1 h
  obtain ⟨declared, -, h⟩ := Traced.bind_result_eq_ok.1 h
  obtain ⟨typed, hbody, -⟩ := Traced.bind_result_eq_ok.1 h
  obtain ⟨table, table₁, -, hlowers⟩ := lowers_of_lowerBody hbody
  exact ⟨table, typed, table₁, hlowers⟩

/-- **Typing loses nothing.** Each statement of a program that is read, at any depth and under
any table, comes back from its typed form; it has no second branch, nor has anything inside it.
In particular there is none in a function that is written out. -/
theorem Program.erase_lower_of_parse {file : String} {tokens : List Token} {program : Program}
    (hp : (parse file tokens).result = .ok program) {f : FunctionDef}
    (hf : f ∈ program.functions) :
    (∀ s ∈ Stmt.partsAll f.body, ∀ table t, (s.lower table).result = .ok t →
      t.erase.bare = s.folded.bare ∧ ∀ s' ∈ s.parts, s'.orelse = []) ∧
    ∀ options text, (f.emit options).result = .ok text →
      ∀ s ∈ Stmt.partsAll f.body, s.orelse = [] := by
  constructor
  · intro s hs table t ht
    obtain ⟨s₀, hs₀, hpart⟩ := Stmt.mem_partsAll.1 hs
    have hshaped : s.Shaped Literal.Small :=
      (shaped_of_parse Literal.covers_small hp f hf s₀ hs₀).parts s hpart
    have hlowers := lowers_of_lower (Lowering.yields_of_result ht)
    have herase := hlowers.map_bare_erase (List.forall_mem_singleton.2 hshaped)
    have horelse := hlowers.orelse_eq_nil
    exact ⟨by simpa using herase, by simpa [Stmt.partsAll] using horelse⟩
  · intro options text hemit
    obtain ⟨_, _, _, hlowers⟩ := FunctionDef.exists_lowers_of_emit hemit
    exact hlowers.orelse_eq_nil

/-- The setting of weights from a list with signs in it: `w = [1, -2, +3]`. -/
def setWeights : Stmt :=
  let int n := Expr.constant (.int n) .nowhere
  .assign [.name "w" .nowhere] (.list [int 1, .unary .minus (int 2) .nowhere,
    .unary .plus (int 3) .nowhere] .nowhere) .nowhere

/-- The same with floating-point numbers: `v = [0.5, -1.5]`. -/
def setScales : Stmt :=
  let half := Expr.constant (.float ⟨false, 4602678819172646912⟩) .nowhere
  let threeHalves := Expr.constant (.float ⟨false, 4609434218613702656⟩) .nowhere
  .assign [.name "v" .nowhere] (.list [half, .unary .minus threeHalves .nowhere] .nowhere) .nowhere

/-- A function with such lists, and with a conditional in a loop:
`while 0 < n <= 9: if not a[n] == 0: a[n] = -a[n] * w[n % 3] ... n -= 1`. -/
def weigh : FunctionDef where
  name := "weigh"
  params := [⟨"a", some (.applied (.name "list" ⟨"<null>", 0⟩) [.name "int" ⟨"<null>", 0⟩]
    ⟨"<null>", 0⟩), .nowhere⟩, ⟨"n", some (.name "int" ⟨"<null>", 0⟩), .nowhere⟩]
  returns := none
  body :=
    let n := Expr.name "n" .nowhere
    let int k := Expr.constant (.int k) .nowhere
    let item array index := Expr.subscript (.name array .nowhere) index .nowhere
    [setWeights, setScales,
     .whileLoop (.compare (int 0) [.lt, .ltE] [n, int 9] .nowhere)
      [.ifThen (.unary .not (.compare (item "a" n) [.eq] [int 0] .nowhere) .nowhere)
        [.assign [item "a" n] (.binary (.unary .minus (item "a" n) .nowhere) .mult
          (item "w" (.binary n .mod (int 3) .nowhere)) .nowhere) .nowhere] [] .nowhere,
       .augAssign n .sub (int 1) .nowhere] [] .nowhere]
  span := .nowhere

theorem shaped_weigh : (Program.mk [weigh]).Shaped Literal.Printable := by
  refine List.forall_mem_singleton.2 (List.forall_mem_cons.2 ⟨?_, List.forall_mem_cons.2 ⟨?_,
    List.forall_mem_singleton.2 (.whileLoop ?_ (List.forall_mem_cons.2 ⟨?_, ?_⟩) ?_)⟩⟩)
  · refine .assign (by decide) (by decide) (List.forall_mem_singleton.2 .name) (.list ?_)
    refine List.forall_mem_cons.2 ⟨.constant (by decide), List.forall_mem_cons.2
      ⟨.unary (by decide) (.constant (by decide)), List.forall_mem_singleton.2 ?_⟩⟩
    exact .unary (by decide) (.constant (by decide))
  · refine .assign (by decide) (by decide) (List.forall_mem_singleton.2 .name) (.list ?_)
    refine List.forall_mem_cons.2 ⟨.constant (by decide), List.forall_mem_singleton.2 ?_⟩
    exact .unary (by decide) (.constant (by decide))
  · refine .compare (by decide) rfl (by decide) (.constant (by decide)) ?_
    exact List.forall_mem_cons.2 ⟨.name, List.forall_mem_singleton.2 (.constant (by decide))⟩
  · refine .ifThen (.unary (by decide) ?_) (List.forall_mem_singleton.2 ?_) (List.forall_mem_nil _)
    · refine .compare (by decide) rfl (by decide) (.subscript .name .name) ?_
      exact List.forall_mem_singleton.2 (.constant (by decide))
    · refine .assign (by decide) (by decide) ?_ (.binary rfl (.unary (by decide) ?_) ?_)
      · exact List.forall_mem_singleton.2 (.subscript .name .name)
      · exact .subscript .name .name
      · exact .subscript .name (.binary rfl .name (.constant (by decide)))
  · exact List.forall_mem_singleton.2 (.augAssign rfl rfl .name (.constant (by decide)))
  · exact List.forall_mem_nil _

theorem Program.erase_lower_of_parse_weigh :
    (parse "weigh.py" ((Program.mk [weigh]).print.map Lexeme.token)).result = .ok ⟨[weigh]⟩ ∧
    (∃ t, (setWeights.lower .empty).result = .ok t ∧ t.erase.bare = setWeights.folded.bare) ∧
    (∃ t, (setScales.lower .empty).result = .ok t ∧ t.erase.bare = setScales.folded.bare) ∧
    (∃ text, (weigh.emit ⟨none, [], .tab⟩).result = .ok text) ∧
    ∀ s ∈ Stmt.partsAll weigh.body, s.orelse = [] := by
  have hparse := parse_tokens shaped_weigh rfl "weigh.py"
  obtain ⟨hlower, hemit⟩ := erase_lower_of_parse hparse (List.mem_singleton.2 rfl)
  have hweights : setWeights ∈ Stmt.partsAll weigh.body := List.mem_cons_self
  have hscales : setScales ∈ Stmt.partsAll weigh.body := List.mem_cons_of_mem _ List.mem_cons_self
  have htext : ∃ text, (weigh.emit ⟨none, [], .tab⟩).result = .ok text := ⟨_, rfl⟩
  obtain ⟨text, ht⟩ := htext
  exact ⟨hparse, ⟨_, rfl, (hlower _ hweights .empty _ rfl).1⟩,
    ⟨_, rfl, (hlower _ hscales .empty _ rfl).1⟩, ⟨text, ht⟩, hemit _ text ht⟩

end DefToC
