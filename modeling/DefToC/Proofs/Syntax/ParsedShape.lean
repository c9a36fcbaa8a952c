import DefToC.Proofs.Syntax.ProgramReadings
import DefToC.Proofs.Syntax.Shape

/-!
# What is read has the form of the grammar

Every program that is read is `Shaped`: its chains and runs are long enough, its nodes have
operators of their own kind, only names and subscripts are assigned to, and its constants are
truth values or the values of number tokens. This is shown by induction on derivations, once for
expressions and once for statements.
-/

namespace DefToC

variable {P : Literal → Prop} {c c' : Cursor}

/-- The truth values and the values of number tokens satisfy `P`. -/
structure Literal.Covers (P : Literal → Prop) : Prop where
  truth : ∀ b, P (.bool b)
  number : ∀ text v, ofNumber? text = some v → P v

/-! ### Operators -/

namespace Operator

theorem mem_of_ofPrefix? {k : TokenKind} {op : Operator} (h : ofPrefix? k = some op) :
    op ∈ [plus, minus, not] := by
  cases k <;> simp_all [ofPrefix?, eq_comm]

theorem family_of_ofAugmented? {k : TokenKind} {op : Operator} (h : ofAugmented? k = some op) :
    op.family = .arithmetic := by
  cases k <;> simp only [ofAugmented?, Option.some.injEq, reduceCtorEq] at h <;> subst h <;> rfl

theorem family_of_ofComparison? {k : TokenKind} {op : Operator}
    (h : ofComparison? k = some op) : op.family = .comparison := by
  simpa using (Option.filter_eq_some_iff.1 h).2

/-- The forms of the grammar go with the families of the operators. -/
theorem family_of_infixForm {k : TokenKind} {q : Power} {op : Operator}
    (hk : Grammar.standard.infixForm k = some (q, .binary)) (h : ofInfix? k = some op) :
    op.family = .arithmetic := by
  cases k <;> simp only [Grammar.standard, Option.some.injEq, Prod.mk.injEq, reduceCtorEq,
    and_false] at hk <;> cases h <;> rfl

theorem mem_of_infixForm {k : TokenKind} {q : Power} {op : Operator}
    (hk : Grammar.standard.infixForm k = some (q, .boolOp)) (h : ofInfix? k = some op) :
    op ∈ [and, or] := by
  cases k <;> simp only [Grammar.standard, Option.some.injEq, Prod.mk.injEq, reduceCtorEq,
    and_false] at hk <;> cases h <;> decide

end Operator

/-! ### Expressions -/

namespace Expr

/-- All expressions of a phrase are of the grammar's form. What continues an expression keeps its
form, if its token is one that the grammar continues expressions with. -/
def Phrase.Shaped (P : Literal → Prop) (c : Cursor) : Phrase → Prop
  | .expr _ e => e.Shaped P
  | .head _ e => e.Shaped P
  | .rest _ left e => left.Shaped P → e.Shaped P
  | .tail form _ left e => (∃ q, Grammar.standard.infixForm c.kind = some (q, form)) →
      left.Shaped P → e.Shaped P
  | .items _ es => ∀ e ∈ es, e.Shaped P
  | .links _ ops es => ops.length = es.length ∧ (∀ op ∈ ops, op.family = .comparison) ∧
      ∀ e ∈ es, e.Shaped P
  | .operands _ _ es => ∀ e ∈ es, e.Shaped P

theorem Derives.shaped (hP : Literal.Covers P) {p : Phrase} (h : Derives .standard p c c') :
    p.Shaped P c := by
  induction h with
  | expr _ _ _ ihh ihr => exact ihr ihh
  | number _ hv => exact .constant (hP.number _ _ hv)
  | @truth t b c _ => exact .constant (hP.truth b)
  | name _ => exact .name
  | operator hop _ ih => exact .unary (Operator.mem_of_ofPrefix? hop) ih
  | grouping _ _ ih => exact ih
  | list _ _ ih => exact .list ih
  | stop _ => exact id
  | go hk _ _ _ iht ihr => exact fun hl => ihr (iht ⟨_, hk⟩ hl)
  | binary hop _ ih =>
    rintro ⟨q, hk⟩ hl
    exact .binary (Operator.family_of_infixForm hk hop) hl ih
  | compare _ ih =>
    intro _ hl
    obtain ⟨hlen, hops, hes⟩ := ih
    exact .compare (by simp) hlen hops hl hes
  | boolOp hop _ ih =>
    rintro ⟨q, hk⟩ hl
    exact .boolOp (Operator.mem_of_infixForm hk hop) (by simp) (List.forall_mem_cons.2 ⟨hl, ih⟩)
  | call _ _ ih => exact fun _ _ => .call ih
  | subscript _ _ ih => exact fun _ hl => .subscript hl ih
  | itemsNil => exact fun _ h => absurd h List.not_mem_nil
  | itemsLast _ _ _ ih => exact List.forall_mem_singleton.2 ih
  | itemsCons _ _ _ _ ihe ihes => exact List.forall_mem_cons.2 ⟨ihe, ihes⟩
  | linksNil _ => exact ⟨rfl, by simp, by simp⟩
  | linksCons hop _ _ ihe ihes =>
    obtain ⟨hlen, hops, hes⟩ := ihes
    refine ⟨by simp [hlen], ?_, List.forall_mem_cons.2 ⟨ihe, hes⟩⟩
    exact List.forall_mem_cons.2 ⟨Operator.family_of_ofComparison? hop, hops⟩
  | operandsNil _ => exact fun _ h => absurd h List.not_mem_nil
  | operandsCons _ _ ihe ihes => exact List.forall_mem_cons.2 ⟨ihe, ihes⟩

end Expr

/-! ### Statements -/

namespace Stmt

theorem Assigned.shaped (hP : Literal.Covers P) {ts : List Expr} {v : Expr}
    (h : Assigned .standard ts v c c') : (∀ e ∈ ts, e.Shaped P) ∧ v.Shaped P := by
  induction h with
  | value _ hv => exact ⟨by simp, hv.shaped hP⟩
  | target _ he _ ih => exact ⟨List.forall_mem_cons.2 ⟨he.shaped hP, ih.1⟩, ih.2⟩

/-- All statements of a phrase are of the grammar's form. -/
def Phrase.Shaped (P : Literal → Prop) : Phrase → Prop
  | .stmt s => s.Shaped P
  | .conditional s => s.Shaped P
  | .suite ss => ∀ s ∈ ss, s.Shaped P
  | .block ss => ∀ s ∈ ss, s.Shaped P
  | .orelse ss => ∀ s ∈ ss, s.Shaped P

theorem Derives.shaped (hP : Literal.Covers P) {p : Phrase} (h : Derives .standard p c c') :
    p.Shaped P := by
  induction h with
  | assign _ _ hall h =>
    obtain ⟨hts, hv⟩ := h.shaped hP
    exact .assign (by simp) hall hts hv
  | augAssign _ hop _ ha he hv =>
    exact .augAssign ha (Operator.family_of_ofAugmented? hop) (he.shaped hP) (hv.shaped hP)
  | expression _ _ he => exact .expression (he.shaped hP)
  | retNone _ _ => exact .ret (by simp)
  | retSome _ _ _ he =>
    refine .ret fun e h => ?_
    cases h
    exact he.shaped hP
  | whileLoop _ ht _ _ ihb iho => exact .whileLoop (ht.shaped hP) ihb iho
  | conditional _ _ ih => exact ih
  | ifThen _ ht _ _ ihb iho => exact .ifThen (ht.shaped hP) ihb iho
  | ifElif _ ht _ _ ihb ihn => exact .ifThen (ht.shaped hP) ihb (List.forall_mem_singleton.2 ihn)
  | suiteBlock _ _ _ _ _ ih => exact ih
  | suiteLine _ _ _ ih => exact List.forall_mem_singleton.2 ih
  | blockNil _ => exact fun _ h => absurd h List.not_mem_nil
  | blockCons _ _ _ _ ihs ihss => exact List.forall_mem_cons.2 ⟨ihs, ihss⟩
  | orelseNil _ => exact fun _ h => absurd h List.not_mem_nil
  | orelseSuite _ _ ih => exact ih

end Stmt

/-! ### Programs -/

namespace Program

theorem shaped_of_parseFunctions (hP : Literal.Covers P) {fs : List FunctionDef}
    (h : (parseFunctions .standard c).result = .ok fs) : ∀ f ∈ fs, ∀ s ∈ f.body, s.Shaped P := by
  induction fs generalizing c with
  | nil => simp
  | cons f fs ih =>
    rcases parseFunctions_eq_ok.1 h with ⟨-, hnil⟩ | ⟨f', c₁, fs', hf, hfs, heq⟩
    · cases hnil
    · cases heq
      obtain ⟨_, _, _, _, _, _, _, _, _, body, -, -, -, -, -, -, -, hbody, rfl⟩ :=
        FunctionDef.gives_parse.1 hf
      exact List.forall_mem_cons.2 ⟨hbody.shaped hP, ih hfs⟩

/-- Every program that is read is of the grammar's form. -/
theorem shaped_of_parse (hP : Literal.Covers P) {file : String} {tokens : List Token}
    {p : Program} (h : (parse file tokens).result = .ok p) : p.Shaped P := by
  obtain ⟨fs, hfs, hp⟩ := Traced.bind_result_eq_ok.1 h
  obtain rfl := Except.ok.inj hp
  exact shaped_of_parseFunctions hP hfs

end Program

end DefToC
