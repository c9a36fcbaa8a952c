import DefToC.Proofs.Syntax.Induction
import DefToC.Proofs.Typed.Steps

/-!
# Derivations of typed blocks

`Lowers table ss ts table₁` says by rules, one for each form of statement, that the statements
`ss` of a block are typed as `ts` and turn `table` into `table₁`. Every successful run of
`Stmt.lowerAll` has such a derivation, so what is to be shown of all accepted blocks is shown
by one induction on derivations. The rules need no fuel and know of no failures and notes.
-/

namespace DefToC

open Lowering

/-- The statements of a block, the typed statements that they become, and the table in front
of them and behind them. -/
inductive Lowers : SymbolTable → List Stmt → List TypedStmt → SymbolTable → Prop where
  /-- A block that is at its end. -/
  | nil {table : SymbolTable} : Lowers table [] [] table
  /-- The value comes first; then the targets are looked up, and then settled. -/
  | assign {table table₁ table₂ table₃ : SymbolTable} {targets : List Expr} {value : Expr}
      {span : Span} {v : TypedExpr} {type : ValueType} {found settled : List Target}
      {ss : List Stmt} {ts : List TypedStmt} :
      value.lower table = .ok v → v.type? = some type → List.Forall₂ (Aims table) targets found →
      table₁.Alike table → Settles type v.arraySize? found table₁ settled table₂ →
      Lowers table₂ ss ts table₃ →
      Lowers table (.assign targets value span :: ss) (.assign settled v span :: ts) table₃
  /-- The value comes first here too. -/
  | augAssign {table table₁ : SymbolTable} {target : Expr} {op : Operator} {value : Expr}
      {span : Span} {t v : TypedExpr} {ss : List Stmt} {ts : List TypedStmt} :
      value.lower table = .ok v → target.lower table = .ok t →
      TypedStmt.mkAugAssign t op v span = .ok (.augAssign t op v span) →
      Lowers table ss ts table₁ →
      Lowers table (.augAssign target op value span :: ss) (.augAssign t op v span :: ts) table₁
  /-- A conditional has no second branch. What its block introduces stays in the table. -/
  | ifThen {table table₁ table₂ : SymbolTable} {test : Expr} {body : List Stmt} {span : Span}
      {t : TypedExpr} {b : List TypedStmt} {ss : List Stmt} {ts : List TypedStmt} :
      test.lower table = .ok t → Lowers table body b table₁ → Lowers table₁ ss ts table₂ →
      Lowers table (.ifThen test body [] span :: ss) (.ifThen t b span :: ts) table₂
  /-- A loop likewise. -/
  | whileLoop {table table₁ table₂ : SymbolTable} {test : Expr} {body : List Stmt} {span : Span}
      {t : TypedExpr} {b : List TypedStmt} {ss : List Stmt} {ts : List TypedStmt} :
      test.lower table = .ok t → Lowers table body b table₁ → Lowers table₁ ss ts table₂ →
      Lowers table (.whileLoop test body [] span :: ss) (.whileLoop t b span :: ts) table₂
  /-- The end of the function without a value. -/
  | retNone {table table₁ : SymbolTable} {span : Span} {ss : List Stmt} {ts : List TypedStmt} :
      Lowers table ss ts table₁ →
      Lowers table (.ret none span :: ss) (.ret none .void span :: ts) table₁
  /-- The end of the function with a value, which has a type. -/
  | retSome {table table₁ : SymbolTable} {value : Expr} {span : Span} {v : TypedExpr}
      {type : ValueType} {ss : List Stmt} {ts : List TypedStmt} :
      value.lower table = .ok v → v.type? = some type → Lowers table ss ts table₁ →
      Lowers table (.ret (some value) span :: ss) (.ret (some v) (.value type) span :: ts) table₁
  /-- An expression on its own needs no type. -/
  | expression {table table₁ : SymbolTable} {e : Expr} {span : Span} {t : TypedExpr}
      {ss : List Stmt} {ts : List TypedStmt} :
      e.lower table = .ok t → Lowers table ss ts table₁ →
      Lowers table (.expression e span :: ss) (.expression t span :: ts) table₁

/-- A statement that succeeds begins a derivation. -/
def Stmt.HasLowering (s : Stmt) : Prop :=
  ∀ {table table₁ table₂ : SymbolTable} {t : TypedStmt} {ss : List Stmt} {ts : List TypedStmt},
    s.lower.Yields table t table₁ → Lowers table₁ ss ts table₂ →
      Lowers table (s :: ss) (t :: ts) table₂

theorem noted_yields {s t : TypedStmt} {table table₁ : SymbolTable}
    (h : (Stmt.noted s).Yields table t table₁) : t = s ∧ table₁ = table := by
  simp only [Stmt.noted, yields_bind, yields_note, yields_pure] at h
  obtain ⟨_, _, rfl, rfl, rfl⟩ := h
  exact ⟨rfl, rfl⟩

theorem mkAugAssign_eq_ok {t v : TypedExpr} {op : Operator} {span : Span} {s : TypedStmt}
    (h : TypedStmt.mkAugAssign t op v span = .ok s) : s = .augAssign t op v span := by
  unfold TypedStmt.mkAugAssign at h
  split at h
  · cases h
  · split at h
    · cases h
    · simp only [bind_eq_ok_iff] at h
      obtain ⟨_, -, _, -, _, -, h⟩ := h
      exact (Except.ok.inj h).symm

theorem checkElse_blockPosition?_eq_ok {orelse : List Stmt} {u : Unit}
    (h : TypedStmt.checkElse (Stmt.blockPosition? orelse) = .ok u) : orelse = [] := by
  cases orelse with
  | nil => rfl
  | cons s ss => simp [Stmt.blockPosition?, TypedStmt.checkElse] at h

theorem mkReturn_some_eq_ok {v : TypedExpr} {span : Span} {s : TypedStmt}
    (h : TypedStmt.mkReturn (some v) span = .ok s) :
    ∃ type, v.type? = some type ∧ s = .ret (some v) (.value type) span := by
  obtain ⟨type, ht, h⟩ := bind_eq_ok_iff.1 h
  exact ⟨type, TypedExpr.resolvedType_eq_ok_iff.1 ht, (Except.ok.inj h).symm⟩

/-- Statements that each begin a derivation make up a derivation of their block. -/
theorem Lowers.of_all {ss : List Stmt} (hs : ∀ s ∈ ss, s.HasLowering) {table table₁ : SymbolTable}
    {ts : List TypedStmt} (h : (Stmt.lowerAll ss).Yields table ts table₁) :
    Lowers table ss ts table₁ := by
  induction ss generalizing table ts with
  | nil =>
    obtain ⟨rfl, rfl⟩ := yields_pure.1 h
    exact .nil
  | cons s ss ih =>
    simp only [Stmt.lowerAll, yields_bind, yields_pure] at h
    obtain ⟨t, table₂, ht, ts, _, hts, rfl, rfl⟩ := h
    obtain ⟨hs, hss⟩ := List.forall_mem_cons.1 hs
    exact hs ht (ih hss hts)

/-- A conditional that is accepted has no second branch, and its block is typed behind its test. -/
theorem Stmt.lower_ifThen_yields {test : Expr} {body orelse : List Stmt} {span : Span}
    {s : TypedStmt} {table table₁ : SymbolTable}
    (h : (Stmt.ifThen test body orelse span).lower.Yields table s table₁) :
    orelse = [] ∧ ∃ t b, test.lower table = .ok t ∧ (lowerAll body).Yields table b table₁ ∧
      s = .ifThen t b span := by
  simp only [lower, yields_bind, yields_reading, TypedStmt.mkIf, bind_eq_ok_iff] at h
  obtain ⟨t, _, ⟨ht, rfl⟩, b, _, hb, s, _, ⟨⟨_, hc, hs⟩, rfl⟩, h⟩ := h
  obtain ⟨rfl, rfl⟩ := noted_yields h
  obtain rfl := Except.ok.inj hs
  exact ⟨checkElse_blockPosition?_eq_ok hc, t, b, ht, hb, rfl⟩

/-- A loop likewise. -/
theorem Stmt.lower_whileLoop_yields {test : Expr} {body orelse : List Stmt} {span : Span}
    {s : TypedStmt} {table table₁ : SymbolTable}
    (h : (Stmt.whileLoop test body orelse span).lower.Yields table s table₁) :
    orelse = [] ∧ ∃ t b, test.lower table = .ok t ∧ (lowerAll body).Yields table b table₁ ∧
      s = .whileLoop t b span := by
  simp only [lower, yields_bind, yields_reading, TypedStmt.mkWhile, bind_eq_ok_iff] at h
  obtain ⟨t, _, ⟨ht, rfl⟩, b, _, hb, s, _, ⟨⟨_, hc, hs⟩, rfl⟩, h⟩ := h
  obtain ⟨rfl, rfl⟩ := noted_yields h
  obtain rfl := Except.ok.inj hs
  exact ⟨checkElse_blockPosition?_eq_ok hc, t, b, ht, hb, rfl⟩

theorem Stmt.hasLowering (s : Stmt) : s.HasLowering := by
  induction s with
  | assign targets value span =>
    intro _ _ _ _ _ _ h hr
    simp only [lower, yields_bind, yields_reading] at h
    obtain ⟨v, _, ⟨hv, rfl⟩, found, _, hf, s, _, hs, h⟩ := h
    obtain ⟨rfl, rfl⟩ := noted_yields h
    obtain ⟨ha, hl⟩ := lowerTargets_yields hf
    obtain ⟨type, settled, ht, rfl, hst⟩ := mkAssign_yields hs
    exact .assign hv ht ha hl hst hr
  | augAssign target op value span =>
    intro _ _ _ _ _ _ h hr
    simp only [lower, yields_bind, yields_reading] at h
    obtain ⟨v, _, ⟨hv, rfl⟩, t, _, ⟨ht, rfl⟩, s, _, ⟨hs, rfl⟩, h⟩ := h
    obtain ⟨rfl, rfl⟩ := noted_yields h
    obtain rfl := mkAugAssign_eq_ok hs
    exact .augAssign hv ht hs hr
  | ifThen test body orelse span ihb _ =>
    intro _ _ _ _ _ _ h hr
    obtain ⟨rfl, t, b, ht, hb, rfl⟩ := lower_ifThen_yields h
    exact .ifThen ht (.of_all ihb hb) hr
  | whileLoop test body orelse span ihb _ =>
    intro _ _ _ _ _ _ h hr
    obtain ⟨rfl, t, b, ht, hb, rfl⟩ := lower_whileLoop_yields h
    exact .whileLoop ht (.of_all ihb hb) hr
  | ret value span =>
    intro _ _ _ _ _ _ h hr
    cases value with
    | none =>
      simp only [lower, yields_bind, yields_reading, TypedStmt.mkReturn] at h
      obtain ⟨s, _, ⟨hs, rfl⟩, h⟩ := h
      obtain ⟨rfl, rfl⟩ := noted_yields h
      obtain rfl := Except.ok.inj hs
      exact .retNone hr
    | some value =>
      simp only [lower, yields_bind, yields_reading] at h
      obtain ⟨v, _, ⟨hv, rfl⟩, s, _, ⟨hs, rfl⟩, h⟩ := h
      obtain ⟨rfl, rfl⟩ := noted_yields h
      obtain ⟨type, ht, rfl⟩ := mkReturn_some_eq_ok hs
      exact .retSome hv ht hr
  | expression e span =>
    intro _ _ _ _ _ _ h hr
    simp only [lower, yields_bind, yields_reading] at h
    obtain ⟨t, _, ⟨ht, rfl⟩, h⟩ := h
    obtain ⟨rfl, rfl⟩ := noted_yields h
    exact .expression ht hr

/-- **Every accepted block has a derivation.** -/
theorem lowers_of_lowerAll {ss : List Stmt} {table table₁ : SymbolTable} {ts : List TypedStmt}
    (h : (Stmt.lowerAll ss).Yields table ts table₁) : Lowers table ss ts table₁ :=
  .of_all (fun s _ => s.hasLowering) h

/-- A statement that is accepted has a derivation as a block of its own. -/
theorem lowers_of_lower {s : Stmt} {table table₁ : SymbolTable} {t : TypedStmt}
    (h : s.lower.Yields table t table₁) : Lowers table [s] [t] table₁ :=
  s.hasLowering h .nil

end DefToC
