import DefToC.Proofs.Syntax.Sources
import DefToC.Proofs.Syntax.SpanTrees
import DefToC.Proofs.Source.Positions

/-!
# Constants of a source

A program is read without losing a constant or making one up: the numbers and the truth values among
the tokens of a source, from left to right, are the constants of its functions. This is shown by
induction on derivations, with the constants of the tokens that are still to be read. A number that
is made of digits is an integer, and has a value only if it fits into 32 bits.
-/

namespace DefToC

open Reading

/-! ### Tokens that are constants -/

/-- Is a token of the kind a constant? -/
def TokenKind.isConstant : TokenKind → Bool
  | .number | .trueWord | .falseWord => true
  | _ => false

/-- The constant that a token stands for. A number that is out of range stands for none. -/
def Token.constant? (t : Token) : Option Literal :=
  match t.kind with
  | .number => Literal.ofNumber? t.value
  | .trueWord => some (.bool true)
  | .falseWord => some (.bool false)
  | _ => none

/-- The constants of a row of tokens, in order. -/
def tokenConstants (tokens : List Token) : List (Option Literal) :=
  (tokens.filter (·.kind.isConstant)).map Token.constant?

section

variable {k : TokenKind} {t : Token} {ts us : List Token}

@[simp] theorem tokenConstants_nil : tokenConstants [] = [] := rfl

theorem tokenConstants_append :
    tokenConstants (ts ++ us) = tokenConstants ts ++ tokenConstants us := by
  simp [tokenConstants]

theorem tokenConstants_cons_of_isConstant (h : t.kind.isConstant = true) :
    tokenConstants (t :: ts) = t.constant? :: tokenConstants ts := by
  simp [tokenConstants, h]

theorem tokenConstants_cons_of_not (h : t.kind.isConstant = false) :
    tokenConstants (t :: ts) = tokenConstants ts := by
  simp [tokenConstants, h]

/-! Of the tokens of an expression only the numbers and the truth values are constants. -/

theorem cases_of_isConstant (h : k.isConstant = true) :
    k = .number ∨ k = .trueWord ∨ k = .falseWord := by
  cases k with
  | number => exact .inl rfl
  | trueWord => exact .inr (.inl rfl)
  | falseWord => exact .inr (.inr rfl)
  | _ => cases h

/-- A token is no constant if it has a role that no constant has. -/
theorem not_isConstant_of_role {α : Type} {role : TokenKind → Option α} {a : α}
    (h : role k = some a) (hnumber : role .number = none) (htrue : role .trueWord = none)
    (hfalse : role .falseWord = none) : k.isConstant = false := by
  rw [Bool.eq_false_iff]
  intro hk
  obtain rfl | rfl | rfl := cases_of_isConstant hk
  · cases hnumber.symm.trans h
  · cases htrue.symm.trans h
  · cases hfalse.symm.trans h

theorem not_isConstant_of_prefixForm {form : PrefixForm}
    (h : Grammar.standard.prefixForm k = some form) (hform : form ≠ .primary) :
    k.isConstant = false := by
  rw [Bool.eq_false_iff]
  intro hk
  obtain rfl | rfl | rfl := cases_of_isConstant hk <;> exact hform (Option.some.inj h).symm

end

namespace Cursor

variable {c : Cursor} {t : Token}

/-- The constants of the tokens that are left. -/
def constants (c : Cursor) : List (Option Literal) := tokenConstants c.pending

theorem constants_push_of_isConstant (h : t.kind.isConstant = true) :
    (c.push t).constants = t.constant? :: c.constants :=
  tokenConstants_cons_of_isConstant h

theorem constants_push (h : t.kind.isConstant = false) : (c.push t).constants = c.constants :=
  tokenConstants_cons_of_not h

theorem constants_push_kind {k : TokenKind} (hk : t.kind = k) (h : k.isConstant = false) :
    (c.push t).constants = c.constants :=
  constants_push (hk ▸ h)

end Cursor

/-! ### Expressions -/

namespace Expr

mutual

/-- The constants of an expression, from left to right. -/
def constants : Expr → List Literal
  | name _ _ => []
  | constant value _ => [value]
  | list elements _ => constantsAll elements
  | compare left _ comparators _ => left.constants ++ constantsAll comparators
  | binary left _ right _ => left.constants ++ right.constants
  | unary _ operand _ => operand.constants
  | boolOp _ values _ => constantsAll values
  | subscript value slice _ => value.constants ++ slice.constants
  | call _ arguments _ => constantsAll arguments

/-- The constants of several expressions. -/
def constantsAll : List Expr → List Literal
  | [] => []
  | e :: es => e.constants ++ constantsAll es

end

theorem constantsAll_eq_flatMap (es : List Expr) : constantsAll es = es.flatMap constants := by
  induction es with
  | nil => rfl
  | cons e es ih => rw [constantsAll, ih, List.flatMap_cons]

/-- The constants of the tokens between the two cursors are those that the phrase adds to the tree.
The token that opens a bracket is no constant if it was looked up in the grammar. -/
def Phrase.Keeps (c c' : Cursor) : Phrase → Prop
  | .expr _ e => c.constants = e.constants.map some ++ c'.constants
  | .head form e => (form ≠ .primary → c.kind.isConstant = false) →
      c.constants = e.constants.map some ++ c'.constants
  | .rest _ left e => left.constants.map some ++ c.constants =
      e.constants.map some ++ c'.constants
  | .tail _ _ left e => c.kind.isConstant = false →
      left.constants.map some ++ c.constants = e.constants.map some ++ c'.constants
  | .items _ es => c.constants = (constantsAll es).map some ++ c'.constants
  | .links _ _ es => c.constants = (constantsAll es).map some ++ c'.constants
  | .operands kind _ es => kind.isConstant = false →
      c.constants = (constantsAll es).map some ++ c'.constants

/-- **No constant is lost or made up on the way from tokens to a tree.** -/
theorem Derives.keeps {p : Phrase} {c c' : Cursor} (h : Derives .standard p c c') :
    p.Keeps c c' := by
  induction h with
  | expr hf _ _ ihh ihr => exact (ihh (not_isConstant_of_prefixForm hf)).trans ihr
  | @number t v c hk hv =>
    intro _
    rw [Cursor.constants_push_of_isConstant (by rw [hk]; rfl), Token.constant?, hk]
    simp only [hv, constants, List.map_cons, List.map_nil, List.singleton_append]
  | @truth t b c hk =>
    intro _
    cases b
    all_goals
      simp only [Bool.false_eq_true, if_true, if_false] at hk
      rw [Cursor.constants_push_of_isConstant (by rw [hk]; rfl), Token.constant?, hk]
      rfl
  | name hk =>
    intro _
    exact Cursor.constants_push_kind hk rfl
  | operator hop _ ih =>
    intro _
    exact (Cursor.constants_push (not_isConstant_of_role hop rfl rfl rfl)).trans ih
  | @grouping t _ _ _ _ hk _ ih =>
    intro hopen
    have hkind : t.kind.isConstant = false := hopen nofun
    rw [Cursor.constants_push hkind, ih, Cursor.constants_push_kind hk rfl]
  | @list t _ _ _ _ hk _ ih =>
    intro hopen
    have hkind : t.kind.isConstant = false := hopen nofun
    rw [Cursor.constants_push hkind, ih, Cursor.constants_push_kind hk rfl]
    rfl
  | stop _ => rfl
  | go hf _ _ _ iht ihr => exact (iht (not_isConstant_of_role hf rfl rfl rfl)).trans ihr
  | binary hop _ ih =>
    intro _
    rw [Cursor.constants_push (not_isConstant_of_role hop rfl rfl rfl), ih, constants,
      List.map_append, List.append_assoc]
  | compare _ ih =>
    intro _
    rw [ih, constants, List.map_append, List.append_assoc]
  | @boolOp _ _ left _ _ _ _ hop _ ih =>
    intro _
    rw [ih (not_isConstant_of_role hop rfl rfl rfl), constants, constantsAll.eq_2 left,
      List.map_append, List.append_assoc]
  | call hk _ ih =>
    intro hopen
    rw [Cursor.kind_push] at hopen
    rw [Cursor.constants_push hopen, ih, Cursor.constants_push_kind hk rfl]
    rfl
  | subscript hk _ ih =>
    intro hopen
    rw [Cursor.kind_push] at hopen
    rw [Cursor.constants_push hopen, ih, Cursor.constants_push_kind hk rfl, constants,
      List.map_append, List.append_assoc]
  | itemsNil => rfl
  | itemsLast _ _ _ ih =>
    rw [Phrase.Keeps, ih, constantsAll, constantsAll, List.append_nil]
  | itemsCons _ hk _ _ ihe ihes =>
    rw [Phrase.Keeps, ihe, Cursor.constants_push_kind hk rfl, ihes, constantsAll, List.map_append,
      List.append_assoc]
  | linksNil _ => rfl
  | linksCons hop _ _ ihe ihes =>
    rw [Phrase.Keeps, Cursor.constants_push (not_isConstant_of_role hop rfl rfl rfl), ihe, ihes,
      constantsAll, List.map_append, List.append_assoc]
  | operandsNil _ => exact fun _ => rfl
  | operandsCons _ _ ihe ihes =>
    intro hkind
    rw [Cursor.constants_push hkind, ihe, ihes hkind, constantsAll, List.map_append,
      List.append_assoc]

end Expr

/-! ### Statements -/

namespace Stmt

mutual

/-- The constants of a statement, from left to right. -/
def constants : Stmt → List Literal
  | assign targets value _ => Expr.constantsAll targets ++ value.constants
  | augAssign target _ value _ => target.constants ++ value.constants
  | ifThen test body orelse _ => test.constants ++ (constantsAll body ++ constantsAll orelse)
  | whileLoop test body orelse _ => test.constants ++ (constantsAll body ++ constantsAll orelse)
  | ret value _ => Expr.constantsAll value.toList
  | expression e _ => e.constants

/-- The constants of several statements. -/
def constantsAll : List Stmt → List Literal
  | [] => []
  | s :: ss => s.constants ++ constantsAll ss

end

theorem constantsAll_eq_flatMap (ss : List Stmt) : constantsAll ss = ss.flatMap constants := by
  induction ss with
  | nil => rfl
  | cons s ss ih => rw [constantsAll, ih, List.flatMap_cons]

variable {c c' : Cursor}

theorem Assigned.keeps {ts : List Expr} {v : Expr} (h : Assigned .standard ts v c c') :
    c.constants = (Expr.constantsAll ts).map some ++ (v.constants.map some ++ c'.constants) := by
  induction h with
  | value _ hv => exact hv.keeps
  | target hk he _ ih =>
    rw [he.keeps, Cursor.constants_push_kind hk rfl, ih, Expr.constantsAll, List.map_append,
      List.append_assoc]

/-- The constants of the tokens between the two cursors are those of the phrase. The word that opens
a conditional is no constant if it was looked up in the grammar. -/
def Phrase.Keeps (c c' : Cursor) : Phrase → Prop
  | .stmt s => c.constants = s.constants.map some ++ c'.constants
  | .conditional s => c.kind.isConstant = false →
      c.constants = s.constants.map some ++ c'.constants
  | .suite ss => c.constants = (constantsAll ss).map some ++ c'.constants
  | .block ss => c.constants = (constantsAll ss).map some ++ c'.constants
  | .orelse ss => c.constants = (constantsAll ss).map some ++ c'.constants

theorem Derives.keeps {p : Phrase} (h : Derives .standard p c c') : p.Keeps c c' := by
  induction h with
  | assign _ hk _ h =>
    rw [Phrase.Keeps, h.keeps, Cursor.constants_push_kind hk rfl, constants, List.map_append,
      List.append_assoc]
  | augAssign _ hop hk _ he hv =>
    rw [Phrase.Keeps, he.keeps, Cursor.constants_push (not_isConstant_of_role hop rfl rfl rfl),
      hv.keeps, Cursor.constants_push_kind hk rfl, constants, List.map_append, List.append_assoc]
  | expression _ hk he =>
    rw [Phrase.Keeps, he.keeps, Cursor.constants_push_kind hk rfl, constants]
  | retNone hform hk =>
    rw [Phrase.Keeps, Cursor.constants_push (not_isConstant_of_role hform rfl rfl rfl),
      Cursor.constants_push_kind hk rfl]
    rfl
  | retSome hform _ hk he =>
    rw [Phrase.Keeps, Cursor.constants_push (not_isConstant_of_role hform rfl rfl rfl), he.keeps,
      Cursor.constants_push_kind hk rfl, constants, Option.toList_some, Expr.constantsAll,
      Expr.constantsAll, List.append_nil]
  | whileLoop hform ht _ _ ihb iho =>
    rw [Phrase.Keeps, Cursor.constants_push (not_isConstant_of_role hform rfl rfl rfl), ht.keeps,
      ihb, iho, constants]
    simp only [List.map_append, List.append_assoc]
  | conditional hform _ ih => exact ih (not_isConstant_of_role hform rfl rfl rfl)
  | ifThen _ ht _ _ ihb iho =>
    intro hkind
    rw [Cursor.kind_push] at hkind
    rw [Cursor.constants_push hkind, ht.keeps, ihb, iho, constants]
    simp only [List.map_append, List.append_assoc]
  | ifElif hk ht _ _ ihb ihn =>
    intro hkind
    rw [Cursor.kind_push] at hkind
    rw [Cursor.constants_push hkind, ht.keeps, ihb, ihn (by rw [hk]; rfl), constants]
    simp only [constantsAll, List.append_nil, List.map_append, List.append_assoc]
  | suiteBlock hk hk₁ hk₂ hk₃ _ ih =>
    rw [Phrase.Keeps, Cursor.constants_push_kind hk rfl, Cursor.constants_push_kind hk₁ rfl,
      Cursor.constants_push_kind hk₂ rfl, ih, Cursor.constants_push_kind hk₃ rfl]
  | suiteLine hk _ _ ih =>
    rw [Phrase.Keeps, Cursor.constants_push_kind hk rfl, ih, constantsAll, constantsAll,
      List.append_nil]
  | blockNil _ => rfl
  | blockCons _ _ _ _ ihs ihss =>
    rw [Phrase.Keeps, ihs, ihss, constantsAll, List.map_append, List.append_assoc]
  | orelseNil _ => rfl
  | orelseSuite hk _ ih => exact (Cursor.constants_push_kind hk rfl).trans ih

end Stmt

/-! ### Functions and programs -/

section

variable {c c' : Cursor} {tokens : List Token}

/-- Types and parameters have no constants. -/
theorem Cursor.pastSignature_constants (cs : List (Option Literal)) :
    PastSignature fun c => c.constants = cs := by
  intro t c ht hc
  have hkind : ∀ k ∈ signatureKinds, k.isConstant = false := by decide
  rwa [constants_push (hkind t.kind ht)] at hc

theorem FunctionDef.keeps_of_parse {f : FunctionDef}
    (h : Gives (FunctionDef.parse .standard c) f c') :
    c.constants = (Stmt.constantsAll f.body).map some ++ c'.constants := by
  obtain ⟨_, _, _, _, c₁, c₂, c₃, _, _, _, h₀, h₁, h₂, h₃, rfl, hparams, hreturns, hbody, rfl⟩ :=
    gives_parse.1 h
  have hpast := Cursor.pastSignature_constants c₁.constants
  have hc₂ := Param.keeps_of_parseAll hpast hparams rfl
  rw [Cursor.constants_push_kind h₃ rfl] at hc₂
  have hc₃ := FunctionDef.keeps_of_parseReturns hpast hreturns hc₂
  rw [Cursor.constants_push_kind h₀ rfl, Cursor.constants_push_kind h₁ rfl,
    Cursor.constants_push_kind h₂ rfl, ← hc₃]
  exact hbody.keeps

theorem Cursor.constants_skipNewlines (c : Cursor) : c.skipNewlines.constants = c.constants := by
  obtain ⟨pending, value, span⟩ := c
  induction pending with
  | nil => rfl
  | cons t ts ih =>
    by_cases ht : t.kind = .newline
    · have hskip : (Cursor.mk (t :: ts) value span).skipNewlines =
          (Cursor.mk ts value span).skipNewlines := by
        simp [skipNewlines, ht]
      have hnewline : tokenConstants (t :: ts) = tokenConstants ts :=
        tokenConstants_cons_of_not (by rw [ht]; rfl)
      rw [hskip, ih]
      exact hnewline.symm
    · simp [skipNewlines, ht]

/-- The constants of a program, function by function. -/
def Program.constants (p : Program) : List Literal :=
  p.functions.flatMap fun f => Stmt.constantsAll f.body

/-- The last token is an end mark, and no other token is one. -/
def EndsOnce (tokens : List Token) : Prop :=
  ∃ (front : List Token) (eof : Token), tokens = front ++ [eof] ∧ eof.kind = .eof ∧
    ∀ t ∈ front, t.kind ≠ .eof

theorem endsOnce_of_tokenize {file source : String} (h : tokenize file source = .ok tokens) :
    EndsOnce tokens := by
  obtain ⟨ts, s, hr, rfl⟩ := Scanner.exists_reaches_of_tokenize h
  obtain ⟨front, eof, hfinish, heof, hfront⟩ := Scanner.exists_finish_eq s
  refine ⟨ts ++ front, eof, by rw [hfinish, List.append_assoc], heof, ?_⟩
  refine List.forall_mem_append.2 ⟨fun t ht => ?_, hfront⟩
  obtain ⟨before, after, rfl⟩ := List.append_of_mem ht
  exact (hr.inner before t after rfl).ne_eof

/-- A cursor at an end mark has no tokens left. -/
theorem EndsOnce.pending_eq_nil (h : EndsOnce tokens) (hrow : c.row <:+ tokens)
    (hkind : c.kind = .eof) : c.pending = [] := by
  obtain ⟨front, eof, rfl, -, hfront⟩ := h
  obtain ⟨before, hbefore⟩ := hrow
  rw [Cursor.row, ← List.append_assoc] at hbefore
  obtain ⟨hpending, -⟩ := List.append_inj' hbefore rfl
  obtain ⟨_ | ⟨t, ts⟩, value, span⟩ := c
  · rfl
  · exact absurd hkind (hfront t (hpending ▸ by simp))

theorem Program.constants_of_parseFunctions {fs : List FunctionDef} (htokens : EndsOnce tokens)
    (hrow : c.row <:+ tokens) (h : (parseFunctions .standard c).result = .ok fs) :
    c.constants = (fs.flatMap fun f => Stmt.constantsAll f.body).map some := by
  induction fs generalizing c with
  | nil =>
    rcases parseFunctions_eq_ok.1 h with ⟨heof, -⟩ | ⟨_, _, _, -, -, hnil⟩
    · have hpending := htokens.pending_eq_nil (c.row_skipNewlines.trans hrow) heof
      rw [← c.constants_skipNewlines, Cursor.constants, hpending]
      rfl
    · cases hnil
  | cons f fs ih =>
    rcases parseFunctions_eq_ok.1 h with ⟨-, hnil⟩ | ⟨_, c₁, _, hf, hfs, heq⟩
    · cases hnil
    · obtain ⟨rfl, rfl⟩ := List.cons.inj heq
      have hbehind := (FunctionDef.syntactic_parse c.skipNewlines).row hf
      have hrest := ih (hbehind.trans (c.row_skipNewlines.trans hrow)) hfs
      rw [← c.constants_skipNewlines, FunctionDef.keeps_of_parse hf, hrest, List.flatMap_cons,
        List.map_append]

/-- **The constants of a program are those of its source, in order.** -/
theorem Program.constants_of_parse {file source : String} {p : Program}
    (htokens : tokenize file source = .ok tokens) (hp : (parse file tokens).result = .ok p) :
    tokenConstants tokens = p.constants.map some := by
  obtain ⟨fs, hfs, hp⟩ := Traced.bind_result_eq_ok.1 hp
  obtain rfl := Except.ok.inj hp
  have hrow := row_ofTokens htokens
  have hconstants := constants_of_parseFunctions (endsOnce_of_tokenize htokens) ⟨[], hrow⟩ hfs
  rw [← hrow, Cursor.row, tokenConstants_append, tokenConstants_cons_of_not rfl,
    tokenConstants_nil, List.append_nil]
  exact hconstants

end

/-! ### Integers -/

/-- The value of an integer. -/
def Literal.int? : Literal → Option Int
  | .int n => some n
  | _ => none

/-- Is the token a number that is made of digits only? -/
def Token.isInteger (t : Token) : Bool := t.kind = .number && t.value.toList.all Char.isDigit

/-- The number that the digits of a token stand for. -/
def Token.integer (t : Token) : Nat := Nat.ofDigitChars 10 t.value.toList 0

/-- The integers of several statements. -/
def Stmt.integersAll (ss : List Stmt) : List Int := (constantsAll ss).filterMap Literal.int?

/-- The integers of a program. -/
def Program.integers (p : Program) : List Int := p.constants.filterMap Literal.int?

/-- A number that is made of digits has its decimal value, if that fits into 32 bits, whatever
zeros stand in front. -/
theorem Literal.ofNumber?_digits {text : String} (hne : text.toList ≠ [])
    (h : ∀ c ∈ text.toList, c.isDigit = true) :
    ofNumber? text = if Nat.ofDigitChars 10 text.toList 0 ≤ 2147483647 then
      some (.int (Nat.ofDigitChars 10 text.toList 0)) else none := by
  have hmark : text.toList.any (fun c => c == '.' || c == 'e' || c == 'E') = false := by
    rw [List.any_eq_false]
    intro c hc hmark
    simp only [Bool.or_eq_true, beq_iff_eq] at hmark
    rcases hmark with (rfl | rfl) | rfl <;> cases h _ hc
  simp only [ofNumber?, hmark, Bool.false_eq_true, if_false, readInteger?_digits hne h,
    digitsValue_eq]
  split
  · rw [Option.filter_some, if_pos (by simp; omega)]
    rfl
  · rw [Option.filter_some, if_neg (by simp; omega)]
    rfl

/-- A number with the value of an integer begins with a sign or is made of digits. -/
theorem Literal.isDigit_of_ofNumber? {text : String} {c : Char} {cs : List Char} {n : Int}
    (htext : text.toList = c :: cs) (hc : c.isDigit = true) (h : ofNumber? text = some (.int n)) :
    ∀ d ∈ text.toList, d.isDigit = true := by
  unfold ofNumber? at h
  simp only [htext] at h ⊢
  split at h
  · simp at h
  · obtain ⟨m, hm, -⟩ := Option.map_eq_some_iff.1 h
    obtain ⟨hread, -⟩ := Option.filter_eq_some_iff.1 hm
    simp only [readInteger?, takeSign_of_isDigit hc, Option.ite_none_right_eq_some] at hread
    exact List.all_eq_true.1 hread.1.2

namespace Token

variable {t : Token} {ts : List Token}

theorem isInteger_iff :
    t.isInteger = true ↔ t.kind = .number ∧ ∀ c ∈ t.value.toList, c.isDigit = true := by
  simp [isInteger]

/-- A number of a source that is made of digits has its decimal value, or none. -/
theorem Lexical.ofNumber?_value (h : t.Lexical) (ht : t.isInteger = true) :
    Literal.ofNumber? t.value =
      if t.integer ≤ 2147483647 then some (.int t.integer) else none := by
  obtain ⟨hkind, hdigits⟩ := isInteger_iff.1 ht
  obtain ⟨c, cs, hcs, -⟩ := h.isDigit hkind
  exact Literal.ofNumber?_digits (by simp [hcs]) hdigits

theorem constant?_of_isInteger (ht : t.isInteger = true) :
    t.constant? = Literal.ofNumber? t.value := by
  rw [constant?, (isInteger_iff.1 ht).1]

/-- The integers among the constants are the numbers that are made of digits. -/
theorem Lexical.int?_constant (h : t.Lexical) {l : Literal} (hl : t.constant? = some l) :
    l.int? = if t.isInteger then some (t.integer : Int) else none := by
  split
  · rename_i ht
    rw [constant?_of_isInteger ht, h.ofNumber?_value ht] at hl
    split at hl
    · cases hl
      rfl
    · cases hl
  · rename_i ht
    cases l with
    | bool _ | float _ => rfl
    | int n =>
      -- an integer is read from a number that begins with a digit, so all of it is digits
      have hkind : t.kind = .number := by
        unfold constant? at hl
        split at hl <;> first
          | assumption
          | cases hl
      rw [constant?, hkind] at hl
      obtain ⟨c, cs, hcs, hc⟩ := h.isDigit hkind
      have hdigits := Literal.isDigit_of_ofNumber? hcs hc hl
      exact absurd (isInteger_iff.2 ⟨hkind, hdigits⟩) ht

theorem not_isInteger_of_not_isConstant (h : t.kind.isConstant = false) : t.isInteger = false := by
  rw [← Bool.not_eq_true, isInteger_iff]
  rintro ⟨hkind, -⟩
  rw [hkind] at h
  cases h

/-- The integers among the constants of a row of tokens. -/
theorem map_integer_of_tokenConstants {ls : List Literal} (hts : ∀ t ∈ ts, t.Lexical)
    (h : tokenConstants ts = ls.map some) :
    (ts.filter isInteger).map (fun t => (t.integer : Int)) = ls.filterMap Literal.int? := by
  induction ts generalizing ls with
  | nil =>
    rw [tokenConstants_nil, eq_comm, List.map_eq_nil_iff] at h
    rw [h]
    rfl
  | cons t ts ih =>
    obtain ⟨ht, hts⟩ := List.forall_mem_cons.1 hts
    cases hkind : t.kind.isConstant with
    | false =>
      rw [tokenConstants_cons_of_not hkind] at h
      rw [List.filter_cons_of_neg (by simp [not_isInteger_of_not_isConstant hkind]), ih hts h]
    | true =>
      rw [tokenConstants_cons_of_isConstant hkind] at h
      obtain _ | ⟨l, ls⟩ := ls
      · cases h
      · obtain ⟨hl, hls⟩ := List.cons.inj h
        have hint := ht.int?_constant hl
        cases hinteger : t.isInteger with
        | true =>
          rw [hinteger, if_pos rfl] at hint
          rw [List.filter_cons_of_pos hinteger, List.map_cons, ih hts hls,
            List.filterMap_cons_some hint]
        | false =>
          rw [hinteger, if_neg Bool.false_ne_true] at hint
          rw [List.filter_cons_of_neg (by simp [hinteger]), ih hts hls,
            List.filterMap_cons_none hint]

/-- The constants of a source have no sign, and fit into 32 bits if they are integers. -/
theorem Lexical.printable (h : t.Lexical) {l : Literal} (hl : t.constant? = some l) :
    l.Printable := by
  unfold constant? at hl
  split at hl
  · rename_i hkind
    obtain ⟨c, cs, hcs, hc⟩ := h.isDigit hkind
    exact Literal.printable_of_ofNumber? hcs hc hl
  · cases hl
    trivial
  · cases hl
    trivial
  · cases hl

end Token

namespace Program

variable {file source : String} {tokens : List Token} {p : Program}

/-- **The integers of a program are the numbers of its source that are made of digits**, in
order. -/
theorem integers_of_parse (htokens : tokenize file source = .ok tokens)
    (hp : (parse file tokens).result = .ok p) :
    (tokens.filter Token.isInteger).map (fun t => (t.integer : Int)) = p.integers :=
  Token.map_integer_of_tokenConstants (lexical_of_tokenize htokens) (constants_of_parse htokens hp)

theorem printable_of_parse (htokens : tokenize file source = .ok tokens)
    (hp : (parse file tokens).result = .ok p) : ∀ l ∈ p.constants, l.Printable := by
  intro l hl
  have hmem : some l ∈ tokenConstants tokens := by
    rw [constants_of_parse htokens hp]
    exact List.mem_map_of_mem hl
  obtain ⟨t, ht, hconstant⟩ := List.mem_map.1 hmem
  exact (lexical_of_tokenize htokens t (List.mem_of_mem_filter ht)).printable hconstant

/-- Every integer of a program that is read fits into 32 bits and has no sign. -/
theorem integers_le_of_parse (htokens : tokenize file source = .ok tokens)
    (hp : (parse file tokens).result = .ok p) : ∀ n ∈ p.integers, 0 ≤ n ∧ n ≤ 2147483647 := by
  intro n hn
  obtain ⟨l, hl, hint⟩ := List.mem_filterMap.1 hn
  have hprintable := printable_of_parse htokens hp l hl
  cases l with
  | int m =>
    cases hint
    exact hprintable
  | bool _ | float _ => cases hint

end Program

/-! ### Reading an integer -/

namespace Expr

variable {t : Token} {c : Cursor}

/-- A number that is made of digits is read as its value, if that fits into 32 bits. -/
theorem gives_parsePrimary_integer (h : t.Lexical) (ht : t.isInteger = true)
    (hle : t.integer ≤ 2147483647) :
    Gives (parsePrimary (c.push t)) (.constant (.int t.integer) t.span) c := by
  have hvalue := h.ofNumber?_value ht
  rw [if_pos hle] at hvalue
  exact gives_parsePrimary.2 ⟨t, rfl, .inl ⟨_, (Token.isInteger_iff.1 ht).1, hvalue, rfl⟩⟩

/-- Otherwise no expression begins with it. -/
theorem parse_integer_error (h : t.Lexical) (ht : t.isInteger = true)
    (hlt : 2147483647 < t.integer) (power : Power) :
    parse .standard power (c.push t) =
      .error ⟨⟨.numberParseError t.value, t.span.position⟩, c.push t⟩ := by
  have hkind : (c.push t).kind = .number := (Token.isInteger_iff.1 ht).1
  have hvalue : Literal.ofNumber? t.value = none := by
    rw [h.ofNumber?_value ht, if_neg (by omega)]
  have hprimary : parsePrimary (c.push t) =
      .error ⟨⟨.numberParseError t.value, t.span.position⟩, c.push t⟩ := by
    simp only [parsePrimary, hkind, Cursor.current_push, hvalue]
  have hform : Grammar.standard.prefixForm (c.push t).kind = some .primary := by
    rw [hkind]
    rfl
  rw [parse]
  simp only [hform, hprimary]
  rfl

end Expr

end DefToC
