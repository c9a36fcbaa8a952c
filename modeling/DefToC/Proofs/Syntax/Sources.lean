import DefToC.Proofs.Number.ReadBack
import DefToC.Proofs.Syntax.ProgramReadings
import DefToC.Proofs.Token.Blocks

/-!
# Expressions of a source

The tokens of a source have texts of their kinds: a name is a word and a number begins with a digit.
So the expressions that are read from a source have words for names, and constants without a sign.
This is shown by induction on derivations, along which the tokens still to be read stay what they
are. The readers of types and parameters are looked at only because the body of a function comes
behind them.
-/

namespace DefToC

open Reading

/-! ### Tokens of a source -/

/-- The token is layout or the end of the text, or its text is one of its kind. -/
def Token.Lexical (t : Token) : Prop :=
  t.kind.isLayout = true ∨ t.kind = .eof ∨ t.kind.Spelled t.value.toList

namespace Cursor

/-- All tokens that are left are tokens of a source. -/
def Lexical (c : Cursor) : Prop := ∀ t ∈ c.pending, t.Lexical

theorem lexical_push {c : Cursor} {t : Token} : (c.push t).Lexical ↔ t.Lexical ∧ c.Lexical :=
  List.forall_mem_cons

theorem Lexical.advance {c : Cursor} {t : Token} (h : (c.push t).Lexical) : c.Lexical :=
  (lexical_push.1 h).2

end Cursor

namespace Scanner

variable {file source : String} {ts us : List Token} {s s' : Scanner} {piece rest cs : List Char}

theorem lexical_leaves (h : s.Leaves piece rest us s') : ∀ t ∈ us, t.Lexical := by
  cases h with
  | separators | joinedLine | comment | inside | blank => exact List.forall_mem_nil _
  | newline => exact List.forall_mem_singleton.2 (.inl rfl)
  | token hkind =>
    refine List.forall_mem_singleton.2 (.inr (.inr ?_))
    rwa [token, String.toList_ofList]

theorem lexical_step (h : s.Step piece rest us s') : ∀ t ∈ us, t.Lexical := by
  cases h with
  | blank => exact List.forall_mem_nil _
  | line _ _ _ _ hadjust =>
    exact fun t ht => .inl (TokenKind.isLayout_of_block (blocks_of_adjustIndents hadjust t ht))
  | lexeme _ hfirst => exact lexical_leaves (s.leaves_take hfirst)

theorem Reaches.lexical (h : Reaches file source ts s cs) : ∀ t ∈ ts, t.Lexical := by
  induction h with
  | start => exact List.forall_mem_nil _
  | step _ hstep ih => exact List.forall_mem_append.2 ⟨ih, lexical_step hstep⟩

end Scanner

theorem lexical_of_tokenize {file source : String} {tokens : List Token}
    (h : tokenize file source = .ok tokens) : ∀ t ∈ tokens, t.Lexical := by
  obtain ⟨ts, s, hr, rfl⟩ := Scanner.exists_reaches_of_tokenize h
  refine List.forall_mem_append.2 ⟨hr.lexical, fun t ht => ?_⟩
  rcases (Scanner.mem_finish ht).2 with h | h
  · exact .inl h
  · exact .inr (.inl h)

/-! ### Names and numbers -/

namespace Token

variable {t : Token}

theorem Lexical.spelled (h : t.Lexical) (hlayout : t.kind.isLayout = false) (heof : t.kind ≠ .eof) :
    t.kind.Spelled t.value.toList := by
  rcases h with h | h | h
  · cases hlayout.symm.trans h
  · exact absurd h heof
  · exact h

theorem Lexical.isName (h : t.Lexical) (hk : t.kind = .identifier) : IsName t.value.toList := by
  have hs := h.spelled (by rw [hk]; rfl) (by rw [hk]; nofun)
  rw [hk] at hs
  exact hs.isName

theorem Lexical.isWritten (h : t.Lexical) (hk : t.kind = .number) :
    ∃ d, Decimal.IsWritten t.value.toList d := by
  have hs := h.spelled (by rw [hk]; rfl) (by rw [hk]; nofun)
  rw [hk] at hs
  exact hs.isWritten

theorem Lexical.isDigit (h : t.Lexical) (hk : t.kind = .number) :
    ∃ c cs, t.value.toList = c :: cs ∧ c.isDigit = true := by
  obtain ⟨d, hd⟩ := h.isWritten hk
  exact hd.isDigit

end Token

section

variable {c : Char} {cs : List Char}

theorem readInteger?_nonneg {n : Int} (hc : c.isDigit = true)
    (h : readInteger? (c :: cs) = some n) : 0 ≤ n := by
  simp only [readInteger?, takeSign_of_isDigit hc, Option.ite_none_right_eq_some,
    Option.some.injEq] at h
  rw [← h.2]
  exact Int.natCast_nonneg _

theorem Double.negative_of_read? {x : Double} (hc : c.isDigit = true)
    (h : read? (c :: cs) = some x) : x.negative = false := by
  obtain ⟨⟨negative, d⟩, hd, rfl⟩ := Option.map_eq_some_iff.1 h
  simp only [Decimal.read?, takeSign_of_isDigit hc, Option.bind_eq_bind,
    Option.bind_eq_some_iff] at hd
  obtain ⟨_, -, hd⟩ := hd
  split at hd
  · cases hd
  · obtain ⟨rfl, -⟩ := Prod.mk.inj (Option.some.inj hd)
    rfl

/-- A number that begins with a digit has no sign. -/
theorem Literal.printable_of_ofNumber? {text : String} {v : Literal}
    (htext : text.toList = c :: cs) (hc : c.isDigit = true) (h : ofNumber? text = some v) :
    v.Printable := by
  unfold ofNumber? at h
  simp only [htext] at h
  split at h
  · obtain ⟨x, hx, rfl⟩ := Option.map_eq_some_iff.1 h
    obtain ⟨hread, hfinite⟩ := Option.filter_eq_some_iff.1 hx
    exact ⟨hfinite, Double.negative_of_read? hc hread⟩
  · obtain ⟨n, hn, rfl⟩ := Option.map_eq_some_iff.1 h
    obtain ⟨hread, hrange⟩ := Option.filter_eq_some_iff.1 hn
    exact ⟨readInteger?_nonneg hc hread, by simpa using (Bool.and_eq_true_iff.1 hrange).2⟩

end

/-! ### Expressions -/

namespace Expr

/-- Names are words, and constants have no sign. -/
inductive Worded : Expr → Prop where
  | name {id span} : IsName id.toList → Worded (.name id span)
  | constant {value : Literal} {span} : value.Printable → Worded (.constant value span)
  | list {elements span} : (∀ e ∈ elements, Worded e) → Worded (.list elements span)
  | compare {left ops comparators span} : Worded left → (∀ e ∈ comparators, Worded e) →
      Worded (.compare left ops comparators span)
  | binary {left op right span} : Worded left → Worded right → Worded (.binary left op right span)
  | unary {op operand span} : Worded operand → Worded (.unary op operand span)
  | boolOp {op values span} : (∀ e ∈ values, Worded e) → Worded (.boolOp op values span)
  | subscript {value slice span} : Worded value → Worded slice →
      Worded (.subscript value slice span)
  | call {callee arguments span} : IsName callee.toList → (∀ e ∈ arguments, Worded e) →
      Worded (.call callee arguments span)

/-- All expressions of a phrase have words for names, and constants without a sign. -/
def Phrase.Worded : Phrase → Prop
  | .expr _ e => e.Worded
  | .head _ e => e.Worded
  | .rest _ left e => left.Worded → e.Worded
  | .tail _ _ left e => left.Worded → e.Worded
  | .items _ es => ∀ e ∈ es, e.Worded
  | .links _ _ es => ∀ e ∈ es, e.Worded
  | .operands _ _ es => ∀ e ∈ es, e.Worded

variable {g : Grammar} {c c' : Cursor}

theorem Derives.worded {p : Phrase} (h : Derives g p c c') :
    c.Lexical → c'.Lexical ∧ p.Worded := by
  induction h with
  | expr _ _ _ ihh ihr =>
    intro hc
    obtain ⟨hc₁, hl⟩ := ihh hc
    obtain ⟨hc₂, he⟩ := ihr hc₁
    exact ⟨hc₂, he hl⟩
  | number hk hv =>
    intro hc
    obtain ⟨ht, hc⟩ := Cursor.lexical_push.1 hc
    obtain ⟨d, ds, hds, hd⟩ := ht.isDigit hk
    exact ⟨hc, .constant (Literal.printable_of_ofNumber? hds hd hv)⟩
  | truth hk =>
    intro hc
    exact ⟨hc.advance, .constant trivial⟩
  | name hk =>
    intro hc
    obtain ⟨ht, hc⟩ := Cursor.lexical_push.1 hc
    exact ⟨hc, .name (ht.isName hk)⟩
  | operator _ _ ih =>
    intro hc
    obtain ⟨hc₁, he⟩ := ih hc.advance
    exact ⟨hc₁, .unary he⟩
  | grouping _ _ ih =>
    intro hc
    obtain ⟨hc₁, he⟩ := ih hc.advance
    exact ⟨hc₁.advance, he⟩
  | list _ _ ih =>
    intro hc
    obtain ⟨hc₁, hes⟩ := ih hc.advance
    exact ⟨hc₁.advance, .list hes⟩
  | stop _ => exact fun hc => ⟨hc, id⟩
  | go _ _ _ _ iht ihr =>
    intro hc
    obtain ⟨hc₁, hm⟩ := iht hc
    obtain ⟨hc₂, he⟩ := ihr hc₁
    exact ⟨hc₂, fun hl => he (hm hl)⟩
  | binary _ _ ih =>
    intro hc
    obtain ⟨hc₁, hr⟩ := ih hc.advance
    exact ⟨hc₁, fun hl => .binary hl hr⟩
  | compare _ ih =>
    intro hc
    obtain ⟨hc₁, hes⟩ := ih hc
    exact ⟨hc₁, fun hl => .compare hl hes⟩
  | boolOp _ _ ih =>
    intro hc
    obtain ⟨hc₁, hes⟩ := ih hc
    exact ⟨hc₁, fun hl => .boolOp (List.forall_mem_cons.2 ⟨hl, hes⟩)⟩
  | call _ _ ih =>
    intro hc
    obtain ⟨hc₁, hes⟩ := ih hc.advance
    refine ⟨hc₁.advance, fun hl => ?_⟩
    cases hl with
    | name hname => exact .call hname hes
  | subscript _ _ ih =>
    intro hc
    obtain ⟨hc₁, hs⟩ := ih hc.advance
    exact ⟨hc₁.advance, fun hl => .subscript hl hs⟩
  | itemsNil => exact fun hc => ⟨hc, List.forall_mem_nil _⟩
  | itemsLast _ _ _ ih =>
    intro hc
    obtain ⟨hc₁, he⟩ := ih hc
    exact ⟨hc₁, List.forall_mem_singleton.2 he⟩
  | itemsCons _ _ _ _ ihe ihes =>
    intro hc
    obtain ⟨hc₁, he⟩ := ihe hc
    obtain ⟨hc₂, hes⟩ := ihes hc₁.advance
    exact ⟨hc₂, List.forall_mem_cons.2 ⟨he, hes⟩⟩
  | linksNil _ => exact fun hc => ⟨hc, List.forall_mem_nil _⟩
  | linksCons _ _ _ ihe ihes | operandsCons _ _ ihe ihes =>
    intro hc
    obtain ⟨hc₁, he⟩ := ihe hc.advance
    obtain ⟨hc₂, hes⟩ := ihes hc₁
    exact ⟨hc₂, List.forall_mem_cons.2 ⟨he, hes⟩⟩
  | operandsNil _ => exact fun hc => ⟨hc, List.forall_mem_nil _⟩

end Expr

/-! ### Statements -/

namespace Stmt

mutual

/-- The expressions of a statement and of the statements in it. -/
def exprs : Stmt → List Expr
  | assign targets value _ => value :: targets
  | augAssign target _ value _ => [target, value]
  | ifThen test body orelse _ => test :: (exprsAll body ++ exprsAll orelse)
  | whileLoop test body orelse _ => test :: (exprsAll body ++ exprsAll orelse)
  | ret value _ => value.toList
  | expression e _ => [e]

/-- The expressions of several statements. -/
def exprsAll : List Stmt → List Expr
  | [] => []
  | s :: ss => exprs s ++ exprsAll ss

end

variable {g : Grammar} {c c' : Cursor}

theorem Assigned.worded {ts : List Expr} {v : Expr} (h : Assigned g ts v c c') :
    c.Lexical → c'.Lexical ∧ ∀ e ∈ v :: ts, e.Worded := by
  induction h with
  | value _ hv =>
    intro hc
    obtain ⟨hc₁, hv⟩ := hv.worded hc
    exact ⟨hc₁, List.forall_mem_singleton.2 hv⟩
  | target _ he _ ih =>
    intro hc
    obtain ⟨hc₁, he⟩ := he.worded hc
    obtain ⟨hc₂, hts⟩ := ih hc₁.advance
    refine ⟨hc₂, ?_⟩
    simp only [List.forall_mem_cons] at hts ⊢
    exact ⟨hts.1, he, hts.2⟩

/-- The expressions of a phrase. -/
def Phrase.exprs : Phrase → List Expr
  | .stmt s => s.exprs
  | .conditional s => s.exprs
  | .suite ss => exprsAll ss
  | .block ss => exprsAll ss
  | .orelse ss => exprsAll ss

theorem Derives.worded {p : Phrase} (h : Derives g p c c') :
    c.Lexical → c'.Lexical ∧ ∀ e ∈ p.exprs, e.Worded := by
  induction h with
  | assign _ _ _ h =>
    intro hc
    obtain ⟨hc₁, hes⟩ := h.worded hc
    exact ⟨hc₁.advance, hes⟩
  | augAssign _ _ _ _ he hv =>
    intro hc
    obtain ⟨hc₁, he⟩ := he.worded hc
    obtain ⟨hc₂, hv⟩ := hv.worded hc₁.advance
    refine ⟨hc₂.advance, ?_⟩
    simp only [Phrase.exprs, exprs, List.forall_mem_cons]
    exact ⟨he, hv, List.forall_mem_nil _⟩
  | expression _ _ he =>
    intro hc
    obtain ⟨hc₁, he⟩ := he.worded hc
    exact ⟨hc₁.advance, List.forall_mem_singleton.2 he⟩
  | retNone _ _ => exact fun hc => ⟨hc.advance.advance, List.forall_mem_nil _⟩
  | retSome _ _ _ he =>
    intro hc
    obtain ⟨hc₁, he⟩ := he.worded hc.advance
    exact ⟨hc₁.advance, List.forall_mem_singleton.2 he⟩
  | whileLoop _ ht _ _ ihb iho =>
    intro hc
    obtain ⟨hc₁, ht⟩ := ht.worded hc.advance
    obtain ⟨hc₂, hb⟩ := ihb hc₁
    obtain ⟨hc₃, ho⟩ := iho hc₂
    exact ⟨hc₃, List.forall_mem_cons.2 ⟨ht, List.forall_mem_append.2 ⟨hb, ho⟩⟩⟩
  | conditional _ _ ih => exact ih
  | ifThen _ ht _ _ ihb iho =>
    intro hc
    obtain ⟨hc₁, ht⟩ := ht.worded hc.advance
    obtain ⟨hc₂, hb⟩ := ihb hc₁
    obtain ⟨hc₃, ho⟩ := iho hc₂
    exact ⟨hc₃, List.forall_mem_cons.2 ⟨ht, List.forall_mem_append.2 ⟨hb, ho⟩⟩⟩
  | ifElif _ ht _ _ ihb ihn =>
    intro hc
    obtain ⟨hc₁, ht⟩ := ht.worded hc.advance
    obtain ⟨hc₂, hb⟩ := ihb hc₁
    obtain ⟨hc₃, hn⟩ := ihn hc₂
    refine ⟨hc₃, List.forall_mem_cons.2 ⟨ht, List.forall_mem_append.2 ⟨hb, ?_⟩⟩⟩
    simpa [Phrase.exprs, exprsAll] using hn
  | suiteBlock _ _ _ _ _ ih =>
    intro hc
    obtain ⟨hc₁, hss⟩ := ih hc.advance.advance.advance
    exact ⟨hc₁.advance, hss⟩
  | suiteLine _ _ _ ih =>
    intro hc
    obtain ⟨hc₁, hs⟩ := ih hc.advance
    exact ⟨hc₁, by simpa [Phrase.exprs, exprsAll] using hs⟩
  | blockNil _ => exact fun hc => ⟨hc, List.forall_mem_nil _⟩
  | blockCons _ _ _ _ ihs ihss =>
    intro hc
    obtain ⟨hc₁, hs⟩ := ihs hc
    obtain ⟨hc₂, hss⟩ := ihss hc₁
    exact ⟨hc₂, List.forall_mem_append.2 ⟨hs, hss⟩⟩
  | orelseNil _ => exact fun hc => ⟨hc, List.forall_mem_nil _⟩
  | orelseSuite _ _ ih => exact fun hc => ih hc.advance

end Stmt

/-! ### Types and parameters -/

section

variable {c c' : Cursor}

/-- The kinds of tokens that types and parameters are made of. -/
def signatureKinds : List TokenKind :=
  [.identifier, .openBracket, .closeBracket, .comma, .colon, .arrow]

/-- What holds in front of a token of a signature holds behind it. -/
def Cursor.PastSignature (P : Cursor → Prop) : Prop :=
  ∀ ⦃t : Token⦄ ⦃c : Cursor⦄, t.kind ∈ signatureKinds → P (c.push t) → P c

theorem Cursor.pastSignature_lexical : PastSignature Lexical := fun _ _ _ hc => hc.advance

variable {P : Cursor → Prop}

theorem Cursor.PastSignature.advance (hP : PastSignature P) {t : Token} {k : TokenKind}
    (ht : t.kind = k) (hk : k ∈ signatureKinds) (hc : P (c.push t)) : P c :=
  hP (ht ▸ hk) hc

/-- The readers of types go forward in the tokens of a signature. -/
structure TypeExpr.Keeps (P : Cursor → Prop) (c : Cursor) : Prop where
  parse {a c'} : Gives (TypeExpr.parse .standard .default c) a c' → P c'
  parseRest {base a c'} : Gives (TypeExpr.parseRest .standard .default base c) a c' → P c'
  parseArguments {as c'} : Gives (TypeExpr.parseArguments .standard c) as c' → P c'

theorem TypeExpr.keeps (hP : Cursor.PastSignature P) (hc : P c) : Keeps P c := by
  -- each reader calls the next one behind a token, but an argument begins where its list does
  induction hn : c.size using Nat.strong_induction_on generalizing c with
  | _ n ih =>
    subst hn
    have hparse {a : TypeExpr} {c' : Cursor}
        (h : Gives (TypeExpr.parse .standard .default c) a c') : P c' := by
      obtain ⟨t, c₁, ht, rfl, hrest⟩ := gives_parse.1 h
      exact (ih c₁.size (Nat.lt_succ_self _) (hP.advance ht (by decide) hc) rfl).parseRest hrest
    refine ⟨hparse, fun {base a c'} h => ?_, fun {as c'} h => ?_⟩
    · by_cases hk : c.kind = .openBracket
      · obtain ⟨c₁, hc₁⟩ := Cursor.exists_push_of_kind hk nofun
        rw [hc₁] at h hc ih
        obtain ⟨as, c₂, t', ht', has, h⟩ := (gives_parseRest_go hk).1 h
        have hsize := has.size_lt
        simp only [Cursor.size_push] at hsize ih
        have hopen := hP.advance hk (by decide) hc
        have hc₂ := (ih c₁.size (by omega) hopen rfl).parseArguments has
        exact (ih c₂.size (by omega) (hP.advance ht' (by decide) hc₂) rfl).parseRest h
      · obtain ⟨-, rfl⟩ := (gives_parseRest_stop hk).1 h
        exact hc
    · rcases gives_parseArguments.1 h with
        ⟨-, -, rfl⟩ | ⟨-, a, ⟨c₁, t, as', ht, ha, has, -⟩ | ⟨-, -, ha, -⟩⟩
      · exact hc
      · have hsize := ha.size_lt
        simp only [Cursor.size_push] at hsize
        have hcomma := hP.advance ht (by decide) (hparse ha)
        exact (ih c₁.size (by omega) hcomma rfl).parseArguments has
      · exact hparse ha

theorem TypeExpr.keepsLexical (hc : c.Lexical) : Keeps Cursor.Lexical c :=
  keeps Cursor.pastSignature_lexical hc

theorem Param.keeps_of_parse (hP : Cursor.PastSignature P) {p : Param}
    (h : Gives (Param.parse .standard c) p c') (hc : P c) : P c' := by
  obtain ⟨t, c₁, ht, rfl, ⟨-, rfl, -⟩ | ⟨t', c₂, a, ht', rfl, ha, -⟩⟩ := gives_parse.1 h
  · exact hP.advance ht (by decide) hc
  · have hcolon := hP.advance ht (by decide) hc
    exact (TypeExpr.keeps hP (hP.advance ht' (by decide) hcolon)).parse ha

theorem Param.keeps_of_parseAll (hP : Cursor.PastSignature P) {ps : List Param}
    (h : Gives (Param.parseAll .standard c) ps c') (hc : P c) : P c' := by
  induction ps generalizing c with
  | nil =>
    rcases gives_parseAll.1 h with ⟨-, -, rfl⟩ | ⟨-, p, ⟨_, _, _, -, -, -, hps⟩ | ⟨-, -, -, hps⟩⟩
    · exact hc
    · cases hps
    · cases hps
  | cons p ps ih =>
    rcases gives_parseAll.1 h with
      ⟨-, -, rfl⟩ | ⟨-, p, ⟨c₁, t, ps', ht, hp, hps, heq⟩ | ⟨-, -, hp, -⟩⟩
    · exact hc
    · obtain ⟨-, rfl⟩ := List.cons.inj heq
      exact ih hps (hP.advance ht (by decide) (Param.keeps_of_parse hP hp hc))
    · exact Param.keeps_of_parse hP hp hc

theorem FunctionDef.keeps_of_parseReturns (hP : Cursor.PastSignature P) {r : Option TypeExpr}
    (h : Gives (FunctionDef.parseReturns .standard c) r c') (hc : P c) : P c' := by
  rcases gives_parseReturns.1 h with ⟨-, -, rfl⟩ | ⟨t, c₁, a, ht, rfl, ha, -⟩
  · exact hc
  · exact (TypeExpr.keeps hP (hP.advance ht (by decide) hc)).parse ha

/-! ### Functions and programs -/

theorem FunctionDef.worded_of_parse {f : FunctionDef}
    (h : Gives (FunctionDef.parse .standard c) f c') (hc : c.Lexical) :
    c'.Lexical ∧ ∀ e ∈ Stmt.exprsAll f.body, e.Worded := by
  obtain ⟨_, _, _, _, _, _, _, _, _, _, -, -, -, -, rfl, hparams, hreturns, hbody, rfl⟩ :=
    gives_parse.1 h
  have hc₁ := Param.keeps_of_parseAll Cursor.pastSignature_lexical hparams
    hc.advance.advance.advance
  exact hbody.worded
    (FunctionDef.keeps_of_parseReturns Cursor.pastSignature_lexical hreturns hc₁.advance)

theorem Param.isName_of_parseAll {ps : List Param} (h : Gives (Param.parseAll .standard c) ps c')
    (hc : c.Lexical) : ∀ p ∈ ps, IsName p.name.toList := by
  have hname {p : Param} {c c' : Cursor} (h : Gives (Param.parse .standard c) p c')
      (hc : c.Lexical) : IsName p.name.toList := by
    obtain ⟨t, c₁, ht, rfl, ⟨-, -, rfl⟩ | ⟨t', c₂, a, -, -, -, rfl⟩⟩ := gives_parse.1 h
    · exact (Cursor.lexical_push.1 hc).1.isName ht
    · exact (Cursor.lexical_push.1 hc).1.isName ht
  induction ps generalizing c with
  | nil => exact List.forall_mem_nil _
  | cons p ps ih =>
    rcases gives_parseAll.1 h with ⟨-, hps, -⟩ | ⟨-, p', ⟨c₁, t, ps', -, hp, hrest, hps⟩ |
      ⟨-, -, hp, hps⟩⟩
    · cases hps
    · cases hps
      have hc₁ := (Param.keeps_of_parse Cursor.pastSignature_lexical hp hc).advance
      exact List.forall_mem_cons.2 ⟨hname hp hc, ih hrest hc₁⟩
    · cases hps
      exact List.forall_mem_singleton.2 (hname hp hc)

/-- The names of a function and of its parameters are words. -/
theorem FunctionDef.isName_of_parse {f : FunctionDef}
    (h : Gives (FunctionDef.parse .standard c) f c') (hc : c.Lexical) :
    IsName f.name.toList ∧ ∀ p ∈ f.params, IsName p.name.toList := by
  obtain ⟨_, t, _, _, _, _, _, _, _, _, -, ht, -, -, rfl, hparams, -, -, rfl⟩ := gives_parse.1 h
  exact ⟨(Cursor.lexical_push.1 hc.advance).1.isName ht,
    Param.isName_of_parseAll hparams hc.advance.advance.advance⟩

theorem Cursor.Lexical.skipNewlines (hc : c.Lexical) : c.skipNewlines.Lexical :=
  fun t ht => hc t (List.dropWhile_subset _ ht)

theorem Program.exists_lexical_of_mem {fs : List FunctionDef}
    (h : (parseFunctions .standard c).result = .ok fs) (hc : c.Lexical) :
    ∀ f ∈ fs, ∃ c₁ c₂, c₁.Lexical ∧ Gives (FunctionDef.parse .standard c₁) f c₂ := by
  induction fs generalizing c with
  | nil => exact List.forall_mem_nil _
  | cons f fs ih =>
    rcases parseFunctions_eq_ok.1 h with ⟨-, hnil⟩ | ⟨f', c₁, fs', hf, hfs, heq⟩
    · cases hnil
    · obtain ⟨rfl, rfl⟩ := List.cons.inj heq
      have hc₁ := (FunctionDef.worded_of_parse hf hc.skipNewlines).1
      exact List.forall_mem_cons.2 ⟨⟨_, _, hc.skipNewlines, hf⟩, ih hfs hc₁⟩

theorem Cursor.lexical_ofTokens {file : String} {tokens : List Token}
    (h : ∀ t ∈ tokens, t.Lexical) : (Cursor.ofTokens file tokens).Lexical := by
  unfold ofTokens
  split
  · exact List.forall_mem_nil _
  · split
    · exact fun t ht => h t ((List.dropLast_sublist tokens).subset ht)
    · exact h

end

/-- Every function of a program is read from tokens of the source. -/
theorem Program.exists_lexical_of_parse {file source : String} {tokens : List Token} {p : Program}
    (htokens : tokenize file source = .ok tokens)
    (hp : (Program.parse file tokens).result = .ok p) :
    ∀ f ∈ p.functions, ∃ c₁ c₂, c₁.Lexical ∧ Gives (FunctionDef.parse .standard c₁) f c₂ := by
  obtain ⟨fs, hfs, hp⟩ := Traced.bind_result_eq_ok.1 hp
  obtain rfl := Except.ok.inj hp
  exact Program.exists_lexical_of_mem hfs (Cursor.lexical_ofTokens (lexical_of_tokenize htokens))

/-! ### Expressions of a source -/

/-- The expression is read from a source. -/
inductive Expr.FromSource : Expr → Prop where
  /-- It is read at some place in the tokens of the source. -/
  | read {file source : String} {tokens : List Token} {power : Power} {e : Expr} {c c' : Cursor} :
      tokenize file source = .ok tokens → c.pending <:+ (Cursor.ofTokens file tokens).pending →
      Gives (Expr.parse .standard power c) e c' → FromSource e
  /-- It is an expression of a function that is read from the source. -/
  | program {file source : String} {tokens : List Token} {p : Program} {f : FunctionDef}
      {e : Expr} :
      tokenize file source = .ok tokens → (Program.parse file tokens).result = .ok p →
      f ∈ p.functions → e ∈ Stmt.exprsAll f.body → FromSource e

/-- **Expressions of a source have words for names, and constants without a sign.** -/
theorem Expr.FromSource.worded {e : Expr} (h : e.FromSource) : e.Worded := by
  cases h with
  | @read file _ tokens _ _ c _ htokens hc he =>
    have hlexical : c.Lexical := fun t ht =>
      Cursor.lexical_ofTokens (lexical_of_tokenize htokens) t (hc.subset ht)
    exact ((Expr.gives_parse_iff.1 he).worded hlexical).2
  | program htokens hp hf he =>
    obtain ⟨_, _, hlexical, hparse⟩ := Program.exists_lexical_of_parse htokens hp _ hf
    exact (FunctionDef.worded_of_parse hparse hlexical).2 _ he

end DefToC
