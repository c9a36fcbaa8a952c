import DefToC.Proofs.Syntax.Induction
import DefToC.Proofs.Typed.Steps

/-!
# Bindings are permanent, and failures leave no trace

What a step has done to the table stays done when it fails, so a failed statement could leave
something behind. It does leave pending entries. But a pending entry counts as absent, and it is
made anew before a variable gets its type. So tables that differ only in pending entries are alike:
every statement comes to the same on both, and leaves tables that are alike (`Stmt.lower_alike`).
A statement without a block gives a variable its type only when nothing can fail any more, hence
it leaves a table like the one before when it fails (`Stmt.undone_lower`).

No statement takes a type away or changes one (`Stmt.lower_extends`).
-/

namespace DefToC

/-! ### Tables -/

namespace SymbolTable

variable {table table₁ table₂ : SymbolTable} {v : Variable}

/-- All that can be read from the second table can be read from the first. -/
structure Extends (table₁ table : SymbolTable) : Prop where
  lookup : ∀ name v, table.lookup name = some v → table₁.lookup name = some v
  functions : table₁.functions = table.functions

theorem Extends.refl (table : SymbolTable) : table.Extends table := ⟨fun _ _ h => h, rfl⟩

theorem Extends.trans (h₁ : table₂.Extends table₁) (h : table₁.Extends table) :
    table₂.Extends table :=
  ⟨fun name v hv => h₁.lookup name v (h.lookup name v hv), h₁.functions.trans h.functions⟩

theorem Alike.extends (h : table₁.Alike table) : table₁.Extends table :=
  ⟨fun name v hv => by rw [h.lookup, hv], h.functions⟩

theorem alike_target (table : SymbolTable) (name : String) : (table.target name).2.Alike table := by
  unfold target
  split
  · exact .refl table
  · rename_i h
    exact ⟨lookup_insertVariable_pending rfl h, rfl⟩

theorem Alike.target (h : table₁.Alike table) (name : String) :
    (table₁.target name).1 = (table.target name).1 := by
  unfold SymbolTable.target
  rw [h.lookup]
  cases table.lookup name <;> rfl

/-- The variable has a pending entry. -/
structure Awaits (table : SymbolTable) (v : Variable) : Prop where
  pending : v = ⟨v.name, none, none, .fresh⟩
  entry : table.entryOf v.name = some v

theorem Awaits.type_eq_none (h : table.Awaits v) : v.type = none := by rw [h.pending]

theorem Awaits.lookup_eq_none (h : table.Awaits v) : table.lookup v.name = none := by
  rw [lookup, h.entry, Option.filter_some_neg (by simp [h.type_eq_none])]

/-- A pending entry can be given a type. -/
theorem Awaits.bind (h : table.Awaits v) (type : ValueType) (size : Option Nat)
    (position : Position) : table.bind v.name type size position =
      .ok (table.insertVariable { v with type := some type, size }) := by
  rw [SymbolTable.bind, h.entry]
  simp only [h.type_eq_none]

theorem awaits_target {name : String} (h : (table.target name).1.isNew = true) :
    (table.target name).2.Awaits (table.target name).1 := by
  unfold target at h ⊢
  split at h
  · cases h
  · exact ⟨rfl, by rw [entryOf_insertVariable, if_pos rfl]⟩

/-- No target takes a pending entry away. -/
theorem Awaits.target (h : table.Awaits v) (name : String) : (table.target name).2.Awaits v := by
  unfold SymbolTable.target
  split
  · exact h
  · refine ⟨h.pending, ?_⟩
    rw [entryOf_insertVariable]
    split
    · rename_i hname
      subst hname
      exact congrArg some h.pending.symm
    · exact h.entry

/-- A variable that had no type gets one. -/
theorem extends_insertVariable (h : table.lookup v.name = none) (hv : v.type.isSome = true) :
    (table.insertVariable v).Extends table := by
  refine ⟨fun name w hw => ?_, rfl⟩
  have hne : name ≠ v.name := by
    rintro rfl
    rw [h] at hw
    cases hw
  rw [lookup_insertVariable_typed hv, Function.update_of_ne hne, hw]

theorem Alike.insertVariable (h : table₁.Alike table) (hv : v.type.isSome = true) :
    (table₁.insertVariable v).Alike (table.insertVariable v) := by
  refine ⟨?_, h.functions⟩
  rw [lookup_insertVariable_typed hv, lookup_insertVariable_typed hv, h.lookup]

end SymbolTable

/-- Two outcomes of a step that cannot be told apart. -/
structure Lowered.Alike {α : Type} (l₁ l : Lowered α) : Prop where
  result : l₁.result = l.result
  events : l₁.events = l.events
  table : l₁.table.Alike l.table

/-! ### Steps -/

namespace Lowering

variable {α β : Type} {table table₁ : SymbolTable} {step : Lowering α} {f : α → Lowering β}

theorem bind_of_ok {a : α} {events : List Event} (h : step table = ⟨.ok a, table₁, events⟩) :
    (step >>= f) table =
      ⟨(f a table₁).result, (f a table₁).table, events ++ (f a table₁).events⟩ := by
  simp only [Bind.bind, Lowering.bind, h]

/-- What each of two steps does to the table, the two do together. -/
theorem table_bind {R : SymbolTable → SymbolTable → Prop}
    (htrans : ∀ {table₂ table₁ table}, R table₂ table₁ → R table₁ table → R table₂ table)
    (h : R (step table).table table)
    (hf : ∀ a, (step table).result = .ok a → R (f a (step table).table).table (step table).table) :
    R ((step >>= f) table).table table := by
  simp only [Bind.bind, Lowering.bind]
  rcases hstep : step table with ⟨_ | a, table₂, events⟩
  · simpa [hstep] using h
  · rw [hstep] at h hf
    exact htrans (hf a rfl) h

theorem alike_bind (h : (step table₁).Alike (step table))
    (hf : ∀ a, (step table₁).result = .ok a → (step table).result = .ok a →
      (f a (step table₁).table).Alike (f a (step table).table)) :
    ((step >>= f) table₁).Alike ((step >>= f) table) := by
  simp only [Bind.bind, Lowering.bind]
  rcases hstep₁ : step table₁ with ⟨result, table₂, events⟩
  rcases hstep : step table with ⟨result', table₃, events'⟩
  rw [hstep₁, hstep] at h hf
  obtain ⟨rfl, rfl, htable⟩ := h
  cases result with
  | error e => exact ⟨rfl, rfl, htable⟩
  | ok a =>
    obtain ⟨hresult, hevents, htable⟩ := hf a rfl rfl
    exact ⟨hresult, congrArg (events ++ ·) hevents, htable⟩

/-- Where the step fails, the table is like the one before. -/
def Undone (step : Lowering α) (table : SymbolTable) : Prop :=
  ∀ e, (step table).result = .error e → (step table).table.Alike table

theorem undone_bind (h : (step table).table.Alike table)
    (hf : ∀ a, (step table).result = .ok a → (f a).Undone (step table).table) :
    (step >>= f).Undone table := by
  intro e he
  simp only [Bind.bind, Lowering.bind] at he ⊢
  rcases hstep : step table with ⟨_ | a, table₂, events⟩
  · simpa [hstep] using h
  · rw [hstep] at h hf he
    exact (hf a rfl e he).trans h

/-- The step neither reads nor changes the table, and it makes no note. -/
def Still (step : Lowering α) : Prop :=
  ∃ result, ∀ table, step table = ⟨result, table, []⟩

theorem still_pure (a : α) : (pure a : Lowering α).Still := ⟨.ok a, fun _ => rfl⟩

theorem still_fail (e : Error) : (fail e : Lowering α).Still := ⟨.error e, fun _ => rfl⟩

theorem still_reading (result : Except Error α) : (reading fun _ => result).Still :=
  ⟨result, fun _ => rfl⟩

theorem still_bind (h : step.Still)
    (hf : ∀ a, (∃ table, (step table).result = .ok a) → (f a).Still) :
    (step >>= f).Still := by
  obtain ⟨result, hstep⟩ := h
  cases result with
  | error e => exact ⟨.error e, fun table => by simp only [Bind.bind, Lowering.bind, hstep]⟩
  | ok a =>
    obtain ⟨result, hnext⟩ := hf a ⟨.empty, by rw [hstep]⟩
    exact ⟨result, fun table => by simp only [Bind.bind, Lowering.bind, hstep, hnext]; rfl⟩

end Lowering

open Lowering

/-! ### Expressions and targets -/

namespace Expr

variable {table table₁ : SymbolTable}

/-- An expression comes to the same on tables that are alike. -/
theorem lower_congr (h : table₁.Alike table) (e : Expr) : e.lower table₁ = e.lower table := by
  have hall (es : List Expr) (hes : ∀ e ∈ es, e.lower table₁ = e.lower table) :
      lowerAll table₁ es = lowerAll table es := by
    induction es with
    | nil => rfl
    | cons e es ih =>
      obtain ⟨he, hes⟩ := List.forall_mem_cons.1 hes
      rw [lowerAll, lowerAll, he, ih hes]
  induction e with
  | name id span =>
    simp only [lower, TypedExpr.mkVariable, SymbolTable.reference, h.lookup]
  | constant | list => rfl
  | compare left ops comparators span hleft hcomparators =>
    simp only [lower, hleft, hall comparators hcomparators]
  | binary left op right span hleft hright => simp only [lower, hleft, hright]
  | unary op operand span hoperand => simp only [lower, hoperand]
  | boolOp op values span hvalues => simp only [lower, hall values hvalues]
  | subscript value slice span hvalue hslice => simp only [lower, hvalue, hslice]
  | call callee arguments span harguments =>
    simp only [lower, TypedExpr.mkCall, SymbolTable.returnType?, h.functions,
      hall arguments harguments]

theorem reading_alike (h : table₁.Alike table) (e : Expr) :
    (reading (fun table => e.lower table) table₁).Alike
      (reading (fun table => e.lower table) table) :=
  ⟨lower_congr h e, rfl, h⟩

theorem alike_lowerTarget (e : Expr) (table : SymbolTable) :
    (e.lowerTarget table).table.Alike table := by
  unfold lowerTarget
  split
  · exact table_bind .trans (SymbolTable.alike_target table _) fun _ _ => .refl _
  · exact table_bind .trans (.refl _) fun _ _ => .refl _
  · exact .refl _

theorem alike_lowerTargets (es : List Expr) (table : SymbolTable) :
    (lowerTargets es table).table.Alike table := by
  induction es generalizing table with
  | nil => exact .refl _
  | cons e es ih =>
    exact table_bind .trans (alike_lowerTarget e table) fun t _ =>
      table_bind .trans (ih _) fun ts _ => .refl _

theorem lowerTarget_alike (h : table₁.Alike table) (e : Expr) :
    (e.lowerTarget table₁).Alike (e.lowerTarget table) := by
  -- both tables stay alike because neither changes
  have htables : (e.lowerTarget table₁).table.Alike (e.lowerTarget table).table :=
    (alike_lowerTarget e table₁).trans (h.trans (alike_lowerTarget e table).symm)
  cases e with
  | name id span =>
    exact ⟨congrArg (fun v => Except.ok (Target.var v)) (h.target id), rfl, htables⟩
  | subscript value slice span =>
    exact alike_bind (reading_alike h _) fun a _ _ => ⟨rfl, rfl, h⟩
  | _ => exact ⟨rfl, rfl, h⟩

theorem lowerTargets_alike (h : table₁.Alike table) (es : List Expr) :
    (lowerTargets es table₁).Alike (lowerTargets es table) := by
  induction es generalizing table₁ table with
  | nil => exact ⟨rfl, rfl, h⟩
  | cons e es ih =>
    have he := lowerTarget_alike h e
    refine alike_bind he fun t _ _ => ?_
    have hes := ih he.table
    exact alike_bind hes fun ts _ _ => ⟨rfl, rfl, hes.table⟩

/-- A new target has a pending entry from then on. -/
theorem lowerTarget_awaits {e : Expr} {t : Target} (h : e.lowerTarget.Yields table t table₁) :
    (∀ v, t = .var v → v.isNew = true → table₁.Awaits v) ∧
      ∀ v, table.Awaits v → table₁.Awaits v := by
  unfold lowerTarget at h
  split at h
  · rename_i id span
    obtain ⟨w, table₂, hw, h⟩ := yields_bind.1 h
    obtain ⟨rfl, rfl⟩ := yields_pure.1 h
    obtain ⟨rfl, rfl⟩ := Prod.mk.inj (yields_target.1 hw)
    refine ⟨fun v hv hnew => ?_, fun v hv => hv.target id⟩
    obtain rfl := Target.var.inj hv
    exact SymbolTable.awaits_target hnew
  · obtain ⟨t', table₂, ht, h⟩ := yields_bind.1 h
    obtain ⟨rfl, rfl⟩ := yields_pure.1 h
    obtain ⟨-, rfl⟩ := yields_reading.1 ht
    exact ⟨nofun, fun v hv => hv⟩
  · exact absurd h not_yields_fail

theorem lowerTargets_awaits {es : List Expr} {ts : List Target}
    (h : (lowerTargets es).Yields table ts table₁) :
    (∀ v, .var v ∈ ts → v.isNew = true → table₁.Awaits v) ∧
      ∀ v, table.Awaits v → table₁.Awaits v := by
  induction es generalizing table ts with
  | nil =>
    obtain ⟨rfl, rfl⟩ := yields_pure.1 h
    exact ⟨nofun, fun v hv => hv⟩
  | cons e es ih =>
    obtain ⟨t, table₂, ht, h⟩ := yields_bind.1 h
    obtain ⟨ts', table₃, hts, h⟩ := yields_bind.1 h
    obtain ⟨rfl, rfl⟩ := yields_pure.1 h
    obtain ⟨hnew, hkept⟩ := lowerTarget_awaits ht
    obtain ⟨hnews, hkepts⟩ := ih hts
    refine ⟨fun v hv hvn => ?_, fun v hv => hkepts v (hkept v hv)⟩
    rcases List.mem_cons.1 hv with hv | hv
    · exact hkepts v (hnew v hv.symm hvn)
    · exact hnews v hv hvn

end Expr

/-! ### Assignments -/

namespace TypedStmt

variable {type : ValueType} {size : Option Nat} {span : Span} {table table₁ : SymbolTable}
  {targets : List Target} {value : TypedExpr}

/-- A target that exists is only checked, and so is an array without a size. -/
theorem still_settle {t : Target} (h : t.isNew = true → type.isList = true ∧ size = none) :
    (settle type size span t).Still := by
  cases t with
  | subscript e => exact still_reading _
  | var v =>
    by_cases hv : v.isNew = true
    · obtain ⟨hlist, rfl⟩ := h hv
      simp only [settle, introduce, hv, hlist, if_true]
      exact still_fail _
    · simp only [settle, hv]
      exact still_reading _

theorem still_settleAll (h : ∀ t ∈ targets, t.isNew = true → type.isList = true ∧ size = none) :
    (settleAll type size span targets).Still := by
  induction targets with
  | nil => exact still_pure _
  | cons t ts ih =>
    obtain ⟨ht, hts⟩ := List.forall_mem_cons.1 h
    exact still_bind (still_settle ht) fun _ _ => still_bind (ih hts) fun _ _ => still_pure _

/-- A variable with a type, and an array with a size, can be declared. -/
theorem declaration?_isSome (name : String) (h : ¬(type.isList = true ∧ size = none)) :
    (type.toC.declaration? name size).isSome = true := by
  cases type <;>
    simp_all [ValueType.isList, ValueType.toC, CType.declaration?, Option.isSome_iff_ne_none]

theorem introduce_eq {v : Variable} (hv : table.Awaits v)
    (hsize : ¬(type.isList = true ∧ size = none)) :
    introduce type size span v table = ⟨.ok (.var { v with type := some type, size }),
      table.insertVariable { v with type := some type, size }, [.bound v.name type]⟩ := by
  have hupdated : updating (fun table => table.bind v.name type size span.position) table =
      ⟨.ok (), table.insertVariable { v with type := some type, size }, []⟩ := by
    rw [updating, hv.bind]
  have hbound : bindVariable v.name type size span.position table = ⟨.ok (),
      table.insertVariable { v with type := some type, size }, [.bound v.name type]⟩ :=
    bind_of_ok hupdated
  rw [introduce, if_neg (by simpa using hsize)]
  exact bind_of_ok hbound

/-- **An assignment introduces one new variable and then cannot fail**, or it leaves the table as it
is. -/
theorem mkAssign_cases (targets : List Target) (value : TypedExpr) (span : Span) :
    (mkAssign targets value span).Still ∨
      ∃ v type, targets = [.var v] ∧ v.isNew = true ∧ ∀ table : SymbolTable, table.Awaits v →
        mkAssign targets value span table =
          ⟨.ok (.assign [.var { v with type := some type, size := value.arraySize? }] value span),
            table.insertVariable { v with type := some type, size := value.arraySize? },
            [.bound v.name type]⟩ := by
  by_cases h : ∃ v type, targets = [.var v] ∧ v.isNew = true ∧ value.resolvedType = .ok type ∧
    ¬(type.isList = true ∧ value.arraySize? = none)
  · obtain ⟨v, type, rfl, hnew, htype, hsize⟩ := h
    refine .inr ⟨v, type, rfl, hnew, fun table hv => ?_⟩
    have hmode : v.mode = .fresh := by simpa [Variable.isNew] using hnew
    have hsettled : settleAll type value.arraySize? span [.var v] table =
        ⟨.ok [.var { v with type := some type, size := value.arraySize? }],
          table.insertVariable { v with type := some type, size := value.arraySize? },
          [.bound v.name type]⟩ := by
      rw [settleAll, settle, if_pos hnew]
      exact bind_of_ok (introduce_eq hv hsize)
    have hread : reading (fun _ => value.resolvedType) table = ⟨.ok type, table, []⟩ := by
      rw [reading, htype]
    have hchecked :
        reading (fun _ => checkTargets type [.var v] span) table = ⟨.ok (), table, []⟩ :=
      rfl
    have htext : [Target.var { v with type := some type, size := value.arraySize? }].all
        (·.text?.isSome) = true := by
      simpa [Target.text?, Variable.text?, hmode] using declaration?_isSome v.name hsize
    rw [mkAssign, if_neg (by simp), bind_of_ok hread, bind_of_ok hchecked, bind_of_ok hsettled,
      if_pos htext]
    rfl
  · refine .inl ?_
    unfold mkAssign
    split
    · exact still_fail _
    refine still_bind (still_reading _) fun type htype => still_bind (still_reading _)
      fun _ hcheck => still_bind (still_settleAll fun t ht hnew => ?_) fun settled _ => ?_
    · obtain ⟨_, htype⟩ := htype
      obtain ⟨_, hcheck⟩ := hcheck
      -- a new target stands alone, so it is an array without a size
      have hlength : targets.length ≤ 1 := (checkTargets_eq_ok hcheck).resolve_right fun hold => by
        simp [hold t ht] at hnew
      obtain rfl : targets = [t] := by
        obtain ⟨t', rfl⟩ := List.length_eq_one_iff.1
          (Nat.le_antisymm hlength (List.length_pos_of_mem ht))
        rw [List.mem_singleton.1 ht]
      cases t with
      | subscript e => cases hnew
      | var v =>
        by_contra hsize
        exact h ⟨v, type, rfl, hnew, htype, hsize⟩
    · split
      · exact still_pure _
      · exact still_fail _

theorem mkAssign_extends (h : ∀ v, .var v ∈ targets → v.isNew = true → table.Awaits v) :
    (mkAssign targets value span table).table.Extends table := by
  rcases mkAssign_cases targets value span with ⟨result, hstill⟩ | ⟨v, type, rfl, hnew, heq⟩
  · rw [hstill]
    exact .refl table
  · have hv := h v (List.mem_singleton_self _) hnew
    rw [heq table hv]
    exact SymbolTable.extends_insertVariable hv.lookup_eq_none rfl

theorem mkAssign_alike (value : TypedExpr) (span : Span) (h : table₁.Alike table)
    (h₁ : ∀ v, .var v ∈ targets → v.isNew = true → table₁.Awaits v)
    (h₀ : ∀ v, .var v ∈ targets → v.isNew = true → table.Awaits v) :
    (mkAssign targets value span table₁).Alike (mkAssign targets value span table) := by
  rcases mkAssign_cases targets value span with ⟨result, hstill⟩ | ⟨v, type, rfl, hnew, heq⟩
  · rw [hstill, hstill]
    exact ⟨rfl, rfl, h⟩
  · have hv : Target.var v ∈ [Target.var v] := List.mem_singleton_self _
    rw [heq table₁ (h₁ v hv hnew), heq table (h₀ v hv hnew)]
    exact ⟨rfl, rfl, h.insertVariable rfl⟩

theorem undone_mkAssign (h : ∀ v, .var v ∈ targets → v.isNew = true → table.Awaits v) :
    (mkAssign targets value span).Undone table := by
  intro e he
  rcases mkAssign_cases targets value span with ⟨result, hstill⟩ | ⟨v, type, rfl, hnew, heq⟩
  · rw [hstill]
    exact .refl table
  · rw [heq table (h v (List.mem_singleton_self _) hnew)] at he
    cases he

end TypedStmt

/-! ### Statements -/

namespace Stmt

variable {table table₁ : SymbolTable}

/-- Does the statement have a block of statements? -/
def hasBlock : Stmt → Bool
  | ifThen _ _ _ _ | whileLoop _ _ _ _ => true
  | _ => false

/-- **Bindings are permanent.** -/
theorem lower_extends (s : Stmt) (table : SymbolTable) : (s.lower table).table.Extends table := by
  have hall (ss : List Stmt) (hss : ∀ s ∈ ss, ∀ table, (s.lower table).table.Extends table)
      (table : SymbolTable) : (lowerAll ss table).table.Extends table := by
    induction ss generalizing table with
    | nil => exact .refl _
    | cons s ss ih =>
      obtain ⟨hs, hss⟩ := List.forall_mem_cons.1 hss
      exact table_bind .trans (hs table) fun _ _ =>
        table_bind .trans (ih hss _) fun _ _ => .refl _
  induction s generalizing table with
  | assign targets value span =>
    refine table_bind .trans (.refl _) fun value _ =>
      table_bind .trans (Expr.alike_lowerTargets targets _).extends fun targets htargets =>
        table_bind .trans (TypedStmt.mkAssign_extends ?_) fun s _ => .refl _
    exact (Expr.lowerTargets_awaits (yields_of_result htargets)).1
  | augAssign target op value span =>
    exact table_bind .trans (.refl _) fun _ _ => table_bind .trans (.refl _) fun _ _ =>
      table_bind .trans (.refl _) fun _ _ => .refl _
  | ifThen test body orelse span hbody | whileLoop test body orelse span hbody =>
    exact table_bind .trans (.refl _) fun _ _ => table_bind .trans (hall body hbody _) fun _ _ =>
      table_bind .trans (.refl _) fun _ _ => .refl _
  | ret value span =>
    cases value with
    | none => exact table_bind .trans (.refl _) fun _ _ => .refl _
    | some value =>
      exact table_bind .trans (.refl _) fun _ _ => table_bind .trans (.refl _) fun _ _ => .refl _
  | expression e span => exact table_bind .trans (.refl _) fun _ _ => .refl _

/-- **A statement comes to the same on tables that are alike.** -/
theorem lower_alike (h : table₁.Alike table) (s : Stmt) :
    (s.lower table₁).Alike (s.lower table) := by
  have hread {α : Type} {result : Except Error α} {table₁ table : SymbolTable}
      (h : table₁.Alike table) :
      (reading (fun _ => result) table₁).Alike (reading (fun _ => result) table) := ⟨rfl, rfl, h⟩
  have hnoted {s : TypedStmt} {table₁ table : SymbolTable} (h : table₁.Alike table) :
      (noted s table₁).Alike (noted s table) := ⟨rfl, rfl, h⟩
  have hall (ss : List Stmt) (hss : ∀ s ∈ ss, ∀ {table table₁ : SymbolTable},
      table₁.Alike table → (s.lower table₁).Alike (s.lower table)) {table table₁ : SymbolTable}
      (h : table₁.Alike table) : (lowerAll ss table₁).Alike (lowerAll ss table) := by
    induction ss generalizing table₁ table with
    | nil => exact ⟨rfl, rfl, h⟩
    | cons s ss ih =>
      obtain ⟨hs, hss⟩ := List.forall_mem_cons.1 hss
      have hlater := ih hss (hs h).table
      exact alike_bind (hs h) fun _ _ _ => alike_bind hlater fun _ _ _ => ⟨rfl, rfl, hlater.table⟩
  induction s generalizing table₁ table with
  | assign targets value span =>
    refine alike_bind (Expr.reading_alike h value) fun value _ _ => ?_
    have htargets := Expr.lowerTargets_alike h targets
    refine alike_bind htargets fun found hfound₁ hfound => ?_
    have hassign := TypedStmt.mkAssign_alike value span htargets.table
      (Expr.lowerTargets_awaits (yields_of_result hfound₁)).1
      (Expr.lowerTargets_awaits (yields_of_result hfound)).1
    exact alike_bind hassign fun s _ _ => hnoted hassign.table
  | augAssign target op value span =>
    exact alike_bind (Expr.reading_alike h value) fun _ _ _ =>
      alike_bind (Expr.reading_alike h target) fun _ _ _ =>
        alike_bind (hread h) fun _ _ _ => hnoted h
  | ifThen test body orelse span hbody | whileLoop test body orelse span hbody =>
    refine alike_bind (Expr.reading_alike h test) fun _ _ _ => ?_
    have hblock := hall body hbody h
    exact alike_bind hblock fun _ _ _ =>
      alike_bind (hread hblock.table) fun _ _ _ => hnoted hblock.table
  | ret value span =>
    cases value with
    | none => exact alike_bind (hread h) fun _ _ _ => hnoted h
    | some value =>
      exact alike_bind (Expr.reading_alike h value) fun _ _ _ =>
        alike_bind (hread h) fun _ _ _ => hnoted h
  | expression e span => exact alike_bind (Expr.reading_alike h e) fun _ _ _ => hnoted h

/-- A note cannot fail. -/
theorem undone_bind_noted {step : Lowering TypedStmt} (h : step.Undone table) :
    (step >>= noted).Undone table := by
  intro e he
  simp only [Bind.bind, Lowering.bind] at he ⊢
  rcases hstep : step table with ⟨_ | s, table₂, events⟩
  · simpa [hstep] using h _ (congrArg Lowered.result hstep)
  · rw [hstep] at he
    cases he

/-- **A statement without a block leaves no trace where it fails.** -/
theorem undone_lower {s : Stmt} (hs : s.hasBlock = false) (table : SymbolTable) :
    s.lower.Undone table := by
  have hread {α : Type} (f : SymbolTable → Except Error α) (table : SymbolTable) :
      (reading f table).table.Alike table := .refl table
  have hnoted (s : TypedStmt) (table : SymbolTable) : (noted s).Undone table := nofun
  cases s with
  | assign targets value span =>
    refine undone_bind (hread _ _) fun value _ =>
      undone_bind (Expr.alike_lowerTargets targets _) fun targets htargets =>
        undone_bind_noted (TypedStmt.undone_mkAssign ?_)
    exact (Expr.lowerTargets_awaits (yields_of_result htargets)).1
  | augAssign target op value span =>
    exact undone_bind (hread _ _) fun _ _ => undone_bind (hread _ _) fun _ _ =>
      undone_bind (hread _ _) fun _ _ => hnoted _ _
  | ifThen | whileLoop => cases hs
  | ret value span =>
    cases value with
    | none => exact undone_bind (hread _ _) fun _ _ => hnoted _ _
    | some value =>
      exact undone_bind (hread _ _) fun _ _ => undone_bind (hread _ _) fun _ _ => hnoted _ _
  | expression e span => exact undone_bind (hread _ _) fun _ _ => hnoted _ _

theorem lowerEach_alike (h : table₁.Alike table) (ss : List Stmt) :
    List.Forall₂ Lowered.Alike (lowerEach table₁ ss) (lowerEach table ss) := by
  induction ss generalizing table₁ table with
  | nil => exact .nil
  | cons s ss ih =>
    have hs := lower_alike h s
    exact .cons hs (ih hs.table)

/-- **Bindings are permanent, and a failed statement leaves no trace.** -/
theorem lower_leaves_no_trace (table : SymbolTable) (s : Stmt) :
    (∀ name v, table.lookup name = some v → (s.lower table).table.lookup name = some v) ∧
    (∀ name, (s.lower table).table.returnType? name = table.returnType? name) ∧
    ∀ e, s.hasBlock = false → (s.lower table).result = .error e →
      (∀ name, (s.lower table).table.lookup name = table.lookup name) ∧
      -- every statement of a row behind it comes to what it comes to without it
      ∀ ss, List.Forall₂ Lowered.Alike (lowerEach (s.lower table).table ss)
        (lowerEach table ss) := by
  have hkept := lower_extends s table
  refine ⟨hkept.lookup, fun name => ?_, fun e hs he => ?_⟩
  · rw [SymbolTable.returnType?, hkept.functions, SymbolTable.returnType?]
  · have halike := undone_lower hs table e he
    exact ⟨congrFun halike.lookup, lowerEach_alike halike⟩

/-- The result of a function that is not known, assigned to a new variable. -/
def unknownCall : Stmt :=
  .assign [.name "x" ⟨"f", 0, 1⟩] (.call "g" [] ⟨"f", 4, 7⟩) ⟨"f", 0, 7⟩

/-- The statement fails behind its pending entry. -/
theorem lower_leaves_no_trace_unknownCall :
    (unknownCall.lower .empty).table.entries = [⟨"x", none, none, .fresh⟩] ∧
      ∀ ss, List.Forall₂ Lowered.Alike (lowerEach (unknownCall.lower .empty).table ss)
        (lowerEach .empty ss) :=
  ⟨rfl, ((lower_leaves_no_trace .empty unknownCall).2.2 _ rfl rfl).2⟩

end Stmt

end DefToC
