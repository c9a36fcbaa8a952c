import DefToC.Proofs.Syntax.Readings
import DefToC.Syntax.ExprParser

/-!
# Derivations of expressions

The reader of expressions as a set of rules. `Derives g p c c'` says that the phrase `p` stands
between the cursors `c` and `c'`, with one rule for each way in which the reader can go on. A
phrase is derived exactly if the reader gives it (`derives_iff`), so what holds of everything
that is read is shown by induction on derivations, and what is read from given tokens by
building a derivation.
-/

namespace DefToC.Expr

open Reading

/-- What the reader of expressions and its helpers look for. -/
inductive Phrase where
  /-- An expression whose operators bind more strongly than `power`. -/
  | expr (power : Power) (e : Expr)
  /-- A form that begins an expression. -/
  | head (form : PrefixForm) (e : Expr)
  /-- What makes `e` out of `left`, as far as it binds more strongly than `power`. -/
  | rest (power : Power) (left e : Expr)
  /-- One form that continues `left` to `e`. -/
  | tail (form : InfixForm) (power : Power) (left e : Expr)
  /-- Expressions with commas between them, up to a closing bracket. -/
  | items (close : TokenKind) (es : List Expr)
  /-- Comparisons, each with its operator in front. -/
  | links (power : Power) (ops : List Operator) (es : List Expr)
  /-- Operands, each with a token of the given kind in front. -/
  | operands (kind : TokenKind) (power : Power) (es : List Expr)

/-- The phrase stands between the two cursors. -/
inductive Derives (g : Grammar) : Phrase → Cursor → Cursor → Prop where
  /-- An expression is a form that begins one, and what continues it. -/
  | expr {power form left e c c₁ c₂} : g.prefixForm c.kind = some form →
      Derives g (.head form left) c c₁ → Derives g (.rest power left e) c₁ c₂ →
      Derives g (.expr power e) c c₂
  /-- A number. -/
  | number {t : Token} {v c} : t.kind = .number → Literal.ofNumber? t.value = some v →
      Derives g (.head .primary (.constant v t.span)) (c.push t) c
  /-- A truth value. -/
  | truth {t : Token} {b c} : t.kind = (if b then .trueWord else .falseWord) →
      Derives g (.head .primary (.constant (.bool b) t.span)) (c.push t) c
  /-- A name. -/
  | name {t : Token} {c} : t.kind = .identifier →
      Derives g (.head .primary (.name t.value t.span)) (c.push t) c
  /-- An operator in front of its operand. -/
  | operator {t : Token} {op e c c₁} : Operator.ofPrefix? t.kind = some op →
      Derives g (.expr (operandPower op) e) c c₁ →
      Derives g (.head .operator (.unary op e (t.span.through e.span))) (c.push t) c₁
  /-- An expression in parentheses. -/
  | grouping {t t' : Token} {e c} {c₁ : Cursor} : t'.kind = .closeParen →
      Derives g (.expr .default e) c (c₁.push t') → Derives g (.head .grouping e) (c.push t) c₁
  /-- A list in square brackets. -/
  | list {t t' : Token} {es c} {c₁ : Cursor} : t'.kind = .closeBracket →
      Derives g (.items .closeBracket es) c (c₁.push t') →
      Derives g (.head .list (.list es (t.span.through t'.span))) (c.push t) c₁
  /-- Nothing that binds strongly enough continues the expression. -/
  | stop {power left c} : (∀ q form, g.infixForm c.kind = some (q, form) → q.rank ≤ power.rank) →
      Derives g (.rest power left left) c c
  /-- A form continues the expression, and more may follow. -/
  | go {power q form left middle e c c₁ c₂} : g.infixForm c.kind = some (q, form) →
      power.rank < q.rank → Derives g (.tail form q left middle) c c₁ →
      Derives g (.rest power middle e) c₁ c₂ → Derives g (.rest power left e) c c₂
  /-- An operator and its right operand. -/
  | binary {t : Token} {power op left right c c₁} : Operator.ofInfix? t.kind = some op →
      Derives g (.expr power right) c c₁ →
      Derives g (.tail .binary power left (.binary left op right (left.span.through right.span)))
        (c.push t) c₁
  /-- A chain of comparisons has one at least. -/
  | compare {power op ops left e es c c₁} : Derives g (.links power (op :: ops) (e :: es)) c c₁ →
      Derives g (.tail .compare power left
        (.compare left (op :: ops) (e :: es) (left.span.through (es.getLastD e).span))) c c₁
  /-- A run of one boolean operator. -/
  | boolOp {power op left e es c c₁} : Operator.ofInfix? c.kind = some op →
      Derives g (.operands c.kind power (e :: es)) c c₁ →
      Derives g (.tail .boolOp power left
        (.boolOp op (left :: e :: es) (left.span.through (es.getLastD e).span))) c c₁
  /-- The arguments of a call. -/
  | call {t t' : Token} {power callee args span c} {c₁ : Cursor} : t'.kind = .closeParen →
      Derives g (.items .closeParen args) c (c₁.push t') →
      Derives g (.tail .call power (.name callee span)
        (.call callee args (span.through t'.span))) (c.push t) c₁
  /-- An index in square brackets. -/
  | subscript {t t' : Token} {power left slice c} {c₁ : Cursor} : t'.kind = .closeBracket →
      Derives g (.expr .default slice) c (c₁.push t') →
      Derives g (.tail .subscript power left
        (.subscript left slice (left.span.through t'.span))) (c.push t) c₁
  /-- No further item. -/
  | itemsNil {c : Cursor} : Derives g (.items c.kind []) c c
  /-- The last item, without a comma behind it. -/
  | itemsLast {e c} {c₁ : Cursor} : c.kind ≠ c₁.kind → c₁.kind ≠ .comma →
      Derives g (.expr .default e) c c₁ → Derives g (.items c₁.kind [e]) c c₁
  /-- An item with a comma behind it. -/
  | itemsCons {t : Token} {close e es c} {c₁ c₂ : Cursor} : c.kind ≠ close → t.kind = .comma →
      Derives g (.expr .default e) c (c₁.push t) → Derives g (.items close es) c₁ c₂ →
      Derives g (.items close (e :: es)) c c₂
  /-- No further comparison. -/
  | linksNil {power c} : Operator.ofComparison? c.kind = none → Derives g (.links power [] []) c c
  /-- A further comparison. -/
  | linksCons {t : Token} {power op ops e es c c₁ c₂} : Operator.ofComparison? t.kind = some op →
      Derives g (.expr power e) c c₁ → Derives g (.links power ops es) c₁ c₂ →
      Derives g (.links power (op :: ops) (e :: es)) (c.push t) c₂
  /-- No further operand. -/
  | operandsNil {kind power c} : c.kind ≠ kind → Derives g (.operands kind power []) c c
  /-- A further operand. -/
  | operandsCons {t : Token} {power e es c c₁ c₂} : Derives g (.expr power e) c c₁ →
      Derives g (.operands t.kind power es) c₁ c₂ →
      Derives g (.operands t.kind power (e :: es)) (c.push t) c₂

/-! ### The readers -/

/-- Read a form that begins an expression. -/
def parseHead (g : Grammar) : PrefixForm → (c : Cursor) → Reading Expr c.size
  | .primary, c => parsePrimary c
  | .operator, c => parseOperator g c
  | .grouping, c => parseGrouping g c
  | .list, c => parseList g c

/-- Read a form that continues an expression. -/
def parseInfix (g : Grammar) (power : Power) (left : Expr) :
    InfixForm → (c : Cursor) → Reading Expr c.size
  | .binary, c => parseBinary g left power c
  | .compare, c => parseCompare g left power c
  | .boolOp, c => parseBoolOp g left power c
  | .call, c => parseCall g left c
  | .subscript, c => parseSubscript g left c

/-- The reader gives the phrase. -/
def Phrase.Given (g : Grammar) : Phrase → Cursor → Cursor → Prop
  | .expr power e, c, c' => Gives (parse g power c) e c'
  | .head form e, c, c' => Gives (parseHead g form c) e c'
  | .rest power left e, c, c' => Gives (parseRest g power left c) e c'
  | .tail form power left e, c, c' => Gives (parseInfix g power left form c) e c'
  | .items close es, c, c' => Gives (parseItems g close c) es c'
  | .links power ops es, c, c' => Gives (parseComparisons g power c) (ops, es) c'
  | .operands kind power es, c, c' => Gives (parseOperands g kind power c) es c'

variable {g : Grammar} {power q : Power} {form : InfixForm} {e left : Expr} {es : List Expr}
variable {c c' : Cursor}

theorem gives_parse {form : PrefixForm} (h : g.prefixForm c.kind = some form) :
    Gives (parse g power c) e c' ↔
      ∃ left c₁, Gives (parseHead g form c) left c₁ ∧ Gives (parseRest g power left c₁) e c' := by
  rw [parse]
  cases form <;>
    simp only [h, gives_bind, gives_within, gives_pure, exists_prop, parseHead] <;> simp

theorem gives_parseRest_stop
    (h : ∀ q form, g.infixForm c.kind = some (q, form) → q.rank ≤ power.rank) :
    Gives (parseRest g power left c) e c' ↔ e = left ∧ c' = c := by
  rw [parseRest]
  split
  · exact gives_here
  · rename_i hq
    rw [if_pos (h _ _ hq)]
    exact gives_here

theorem gives_parseRest_go (h : g.infixForm c.kind = some (q, form))
    (hq : power.rank < q.rank) :
    Gives (parseRest g power left c) e c' ↔ ∃ middle c₁,
      Gives (parseInfix g q left form c) middle c₁ ∧ Gives (parseRest g power middle c₁) e c' := by
  rw [parseRest]
  cases form <;> simp only [h, Nat.not_le.2 hq, if_false, gives_weaken, gives_bind, gives_within,
    gives_pure, exists_prop, parseInfix] <;> simp

theorem gives_parseOperator : Gives (parseOperator g c) e c' ↔ ∃ t c₁ op a,
    c = Cursor.push t c₁ ∧ Operator.ofPrefix? t.kind = some op ∧
    Gives (parse g (operandPower op) c₁) a c' ∧ e = .unary op a (t.span.through a.span) := by
  rw [parseOperator]
  simp only [gives_bind, Cursor.gives_shift]
  constructor
  · rintro ⟨t, c₁, hc, h⟩
    split at h
    · exact absurd h not_gives_error
    · rename_i op hop
      simp only [gives_bind, gives_below, gives_pure, exists_prop] at h
      obtain ⟨a, c₂, ha, rfl, rfl⟩ := h
      exact ⟨t, c₁, op, a, hc, hop, ha, rfl⟩
  · rintro ⟨t, c₁, op, a, hc, hop, ha, rfl⟩
    refine ⟨t, c₁, hc, ?_⟩
    simp only [hop, gives_bind, gives_below, gives_pure, exists_prop]
    exact ⟨a, c', ha, rfl, rfl⟩

theorem gives_parseGrouping : Gives (parseGrouping g c) e c' ↔ ∃ t c₁ t',
    c = Cursor.push t c₁ ∧ t'.kind = .closeParen ∧ Gives (parse g .default c₁) e (c'.push t') := by
  rw [parseGrouping]
  simp only [gives_bind, gives_below, Cursor.gives_shift, Cursor.gives_take, gives_pure,
    exists_prop]
  constructor
  · rintro ⟨t, c₁, hc, a, c₂, ha, t', c₃, ⟨ht, rfl⟩, rfl, rfl⟩
    exact ⟨t, c₁, t', hc, ht, ha⟩
  · rintro ⟨t, c₁, t', hc, ht, ha⟩
    exact ⟨t, c₁, hc, e, _, ha, t', c', ⟨ht, rfl⟩, rfl, rfl⟩

theorem gives_parseList : Gives (parseList g c) e c' ↔ ∃ t c₁ t' es,
    c = Cursor.push t c₁ ∧ t'.kind = .closeBracket ∧
    Gives (parseItems g .closeBracket c₁) es (c'.push t') ∧
    e = .list es (t.span.through t'.span) := by
  rw [parseList]
  simp only [gives_bind, gives_within, gives_below, Cursor.gives_shift, Cursor.gives_take,
    gives_pure, exists_prop]
  constructor
  · rintro ⟨t, c₁, hc, es, c₂, hes, t', c₃, ⟨ht, rfl⟩, rfl, rfl⟩
    exact ⟨t, c₁, t', es, hc, ht, hes, rfl⟩
  · rintro ⟨t, c₁, t', es, hc, ht, hes, rfl⟩
    exact ⟨t, c₁, hc, es, _, hes, t', c', ⟨ht, rfl⟩, rfl, rfl⟩

theorem gives_parsePrimary : Gives (parsePrimary c) e c' ↔ ∃ t, c = c'.push t ∧
    ((∃ v, t.kind = .number ∧ Literal.ofNumber? t.value = some v ∧ e = .constant v t.span) ∨
    (∃ b : Bool, t.kind = (if b then .trueWord else .falseWord) ∧
      e = .constant (.bool b) t.span) ∨
    (t.kind = .identifier ∧ e = .name t.value t.span)) := by
  constructor
  · intro h
    unfold parsePrimary at h
    split at h
    · rename_i hk
      split at h
      · exact absurd h not_gives_error
      · rename_i v hv
        simp only [gives_bind, Cursor.gives_shift, gives_pure, exists_prop] at h
        obtain ⟨t, _, rfl, rfl, rfl⟩ := h
        exact ⟨t, rfl, .inl ⟨v, hk, hv, rfl⟩⟩
    · rename_i hk
      simp only [gives_bind, Cursor.gives_shift, gives_pure, exists_prop] at h
      obtain ⟨t, _, rfl, rfl, rfl⟩ := h
      exact ⟨t, rfl, .inr (.inl ⟨true, hk, rfl⟩)⟩
    · rename_i hk
      simp only [gives_bind, Cursor.gives_shift, gives_pure, exists_prop] at h
      obtain ⟨t, _, rfl, rfl, rfl⟩ := h
      exact ⟨t, rfl, .inr (.inl ⟨false, hk, rfl⟩)⟩
    · rename_i hk
      simp only [gives_bind, Cursor.gives_shift, gives_pure, exists_prop] at h
      obtain ⟨t, _, rfl, rfl, rfl⟩ := h
      exact ⟨t, rfl, .inr (.inr ⟨hk, rfl⟩)⟩
    · exact absurd h not_gives_error
  · rintro ⟨t, rfl, ⟨v, hk, hv, rfl⟩ | ⟨b, hk, rfl⟩ | ⟨hk, rfl⟩⟩
    · simp only [parsePrimary, Cursor.kind_push, Cursor.current_push, hk, hv]
      simp only [gives_bind, Cursor.gives_shift, gives_pure, exists_prop]
      exact ⟨t, c', rfl, rfl, rfl⟩
    · cases b <;> simp only [Bool.false_eq_true, if_true, if_false] at hk <;>
        simp only [parsePrimary, Cursor.kind_push, hk, gives_bind, Cursor.gives_shift, gives_pure,
          exists_prop] <;> exact ⟨t, c', rfl, rfl, rfl⟩
    · simp only [parsePrimary, Cursor.kind_push, hk]
      simp only [gives_bind, Cursor.gives_shift, gives_pure, exists_prop]
      exact ⟨t, c', rfl, rfl, rfl⟩

theorem gives_parseBinary : Gives (parseBinary g left power c) e c' ↔ ∃ t c₁ op right,
    c = Cursor.push t c₁ ∧ Operator.ofInfix? t.kind = some op ∧
    Gives (parse g power c₁) right c' ∧
    e = .binary left op right (left.span.through right.span) := by
  rw [parseBinary]
  simp only [gives_bind, Cursor.gives_shift]
  constructor
  · rintro ⟨t, c₁, hc, h⟩
    split at h
    · exact absurd h not_gives_error
    · rename_i op hop
      simp only [gives_bind, gives_below, gives_pure, exists_prop] at h
      obtain ⟨a, c₂, ha, rfl, rfl⟩ := h
      exact ⟨t, c₁, op, a, hc, hop, ha, rfl⟩
  · rintro ⟨t, c₁, op, a, hc, hop, ha, rfl⟩
    refine ⟨t, c₁, hc, ?_⟩
    simp only [hop, gives_bind, gives_below, gives_pure, exists_prop]
    exact ⟨a, c', ha, rfl, rfl⟩

theorem gives_parseComparisons_stop {r : List Operator × List Expr}
    (h : Operator.ofComparison? c.kind = none) :
    Gives (parseComparisons g power c) r c' ↔ r = ([], []) ∧ c' = c := by
  rw [parseComparisons]
  simp only [h]
  exact gives_here

theorem gives_parseComparisons_go {r : List Operator × List Expr} {t : Token} {op : Operator}
    (h : Operator.ofComparison? t.kind = some op) :
    Gives (parseComparisons g power (c.push t)) r c' ↔ ∃ e c₁ ops es,
      Gives (parse g power c) e c₁ ∧ Gives (parseComparisons g power c₁) (ops, es) c' ∧
      r = (op :: ops, e :: es) := by
  rw [parseComparisons]
  simp only [Cursor.kind_push, h, gives_weaken, gives_bind, gives_below, gives_within,
    Cursor.gives_shift, gives_pure, exists_prop, Prod.exists]
  constructor
  · rintro ⟨_, _, hc, e, c₁, he, ops, es, _, hes, rfl, rfl⟩
    obtain ⟨rfl, rfl⟩ := Cursor.push_inj hc
    exact ⟨e, c₁, ops, es, he, hes, rfl⟩
  · rintro ⟨e, c₁, ops, es, he, hes, rfl⟩
    exact ⟨t, c, rfl, e, c₁, he, ops, es, c', hes, rfl, rfl⟩

theorem gives_parseCompare {t : Token} {op : Operator}
    (h : Operator.ofComparison? t.kind = some op) :
    Gives (parseCompare g left power (c.push t)) e c' ↔ ∃ a c₁ ops es,
      Gives (parse g power c) a c₁ ∧ Gives (parseComparisons g power c₁) (ops, es) c' ∧
      e = .compare left (op :: ops) (a :: es) (left.span.through (es.getLastD a).span) := by
  rw [parseCompare]
  simp only [Cursor.kind_push, h, gives_bind, gives_below, gives_within, Cursor.gives_shift,
    gives_pure, exists_prop, Prod.exists]
  constructor
  · rintro ⟨_, _, hc, a, c₁, ha, ops, es, _, hes, rfl, rfl⟩
    obtain ⟨rfl, rfl⟩ := Cursor.push_inj hc
    exact ⟨a, c₁, ops, es, ha, hes, rfl⟩
  · rintro ⟨a, c₁, ops, es, ha, hes, rfl⟩
    exact ⟨t, c, rfl, a, c₁, ha, ops, es, c', hes, rfl, rfl⟩

theorem gives_parseOperands_stop {k : TokenKind} (h : c.kind ≠ k) :
    Gives (parseOperands g k power c) es c' ↔ es = [] ∧ c' = c := by
  rw [parseOperands, if_neg h]
  exact gives_here

theorem gives_parseOperands_go : Gives (parseOperands g c.kind power c) es c' ↔
    ∃ t c₀ a c₁ as, c = Cursor.push t c₀ ∧ Gives (parse g power c₀) a c₁ ∧
      Gives (parseOperands g t.kind power c₁) as c' ∧ es = a :: as := by
  rw [parseOperands, if_pos rfl]
  simp only [gives_weaken, gives_bind, gives_below, gives_within, Cursor.gives_shift, gives_pure,
    exists_prop]
  constructor
  · rintro ⟨t, c₀, rfl, a, c₁, ha, as, _, has, rfl, rfl⟩
    exact ⟨t, c₀, a, c₁, as, rfl, ha, has, rfl⟩
  · rintro ⟨t, c₀, a, c₁, as, rfl, ha, has, rfl⟩
    exact ⟨t, c₀, rfl, a, c₁, ha, as, c', has, rfl, rfl⟩

theorem gives_parseBoolOp {t : Token} {op : Operator} (h : Operator.ofInfix? t.kind = some op) :
    Gives (parseBoolOp g left power (c.push t)) e c' ↔ ∃ a c₁ as,
      Gives (parse g power c) a c₁ ∧ Gives (parseOperands g t.kind power c₁) as c' ∧
      e = .boolOp op (left :: a :: as) (left.span.through (as.getLastD a).span) := by
  rw [parseBoolOp]
  simp only [Cursor.kind_push, h, gives_bind, gives_below, gives_within, Cursor.gives_shift,
    gives_pure, exists_prop]
  constructor
  · rintro ⟨_, _, hc, a, c₁, ha, as, _, has, rfl, rfl⟩
    obtain ⟨rfl, rfl⟩ := Cursor.push_inj hc
    exact ⟨a, c₁, as, ha, has, rfl⟩
  · rintro ⟨a, c₁, as, ha, has, rfl⟩
    exact ⟨t, c, rfl, a, c₁, ha, as, c', has, rfl, rfl⟩

theorem gives_parseCall : Gives (parseCall g left c) e c' ↔ ∃ callee span t c₁ t' args,
    left = .name callee span ∧ c = Cursor.push t c₁ ∧ t'.kind = .closeParen ∧
    Gives (parseItems g .closeParen c₁) args (c'.push t') ∧
    e = .call callee args (span.through t'.span) := by
  cases left with
  | name callee span =>
    rw [parseCall]
    simp only [gives_bind, gives_within, gives_below, Cursor.gives_shift, Cursor.gives_take,
      gives_pure, exists_prop, Expr.name.injEq]
    constructor
    · rintro ⟨t, c₁, hc, args, _, hargs, t', _, ⟨ht, rfl⟩, rfl, rfl⟩
      exact ⟨callee, span, t, c₁, t', args, ⟨rfl, rfl⟩, hc, ht, hargs, rfl⟩
    · rintro ⟨_, _, t, c₁, t', args, ⟨rfl, rfl⟩, hc, ht, hargs, rfl⟩
      exact ⟨t, c₁, hc, args, _, hargs, t', c', ⟨ht, rfl⟩, rfl, rfl⟩
  | _ => simp [parseCall, not_gives_error]

theorem gives_parseSubscript : Gives (parseSubscript g left c) e c' ↔ ∃ t c₁ t' slice,
    c = Cursor.push t c₁ ∧ t'.kind = .closeBracket ∧
    Gives (parse g .default c₁) slice (c'.push t') ∧
    e = .subscript left slice (left.span.through t'.span) := by
  rw [parseSubscript]
  simp only [gives_bind, gives_below, Cursor.gives_shift, Cursor.gives_take, gives_pure,
    exists_prop]
  constructor
  · rintro ⟨t, c₁, hc, a, c₂, ha, t', c₃, ⟨ht, rfl⟩, rfl, rfl⟩
    exact ⟨t, c₁, t', a, hc, ht, ha, rfl⟩
  · rintro ⟨t, c₁, t', a, hc, ht, ha, rfl⟩
    exact ⟨t, c₁, hc, a, _, ha, t', c', ⟨ht, rfl⟩, rfl, rfl⟩

theorem gives_parseItems {close : TokenKind} : Gives (parseItems g close c) es c' ↔
    (c.kind = close ∧ es = [] ∧ c' = c) ∨
    (c.kind ≠ close ∧ ∃ a, (∃ c₁ t as, t.kind = .comma ∧
      Gives (parse g .default c) a (Cursor.push t c₁) ∧ Gives (parseItems g close c₁) as c' ∧
      es = a :: as) ∨
      c'.kind ≠ .comma ∧ c'.kind = close ∧ Gives (parse g .default c) a c' ∧ es = [a]) := by
  rw [parseItems]
  by_cases hc : c.kind = close
  · simp [hc, gives_here]
  · rw [if_neg hc, gives_weaken]
    refine (gives_item (parse g .default c) close (parseItems g close)
      ("expected `,` or " ++ close.name)).trans ?_
    simp only [hc, false_and, false_or, ne_eq, not_false_iff, true_and]

/-! ### Rules and readers agree -/

variable {p : Phrase}

/-- What is derived is read. -/
theorem Derives.given (h : Derives g p c c') : p.Given g c c' := by
  induction h with
  | expr hf _ _ hl hr => exact (gives_parse hf).2 ⟨_, _, hl, hr⟩
  | number hk hv => exact gives_parsePrimary.2 ⟨_, rfl, .inl ⟨_, hk, hv, rfl⟩⟩
  | truth hk => exact gives_parsePrimary.2 ⟨_, rfl, .inr (.inl ⟨_, hk, rfl⟩)⟩
  | name hk => exact gives_parsePrimary.2 ⟨_, rfl, .inr (.inr ⟨hk, rfl⟩)⟩
  | operator hop _ he => exact gives_parseOperator.2 ⟨_, _, _, _, rfl, hop, he, rfl⟩
  | grouping hk _ he => exact gives_parseGrouping.2 ⟨_, _, _, rfl, hk, he⟩
  | list hk _ hes => exact gives_parseList.2 ⟨_, _, _, _, rfl, hk, hes, rfl⟩
  | stop hstop => exact (gives_parseRest_stop hstop).2 ⟨rfl, rfl⟩
  | go hf hq _ _ hm he => exact (gives_parseRest_go hf hq).2 ⟨_, _, hm, he⟩
  | binary hop _ he => exact gives_parseBinary.2 ⟨_, _, _, _, rfl, hop, he, rfl⟩
  | compare hl ih =>
    cases hl with
    | linksCons hop =>
      obtain ⟨a, c₁, ops, es, ha, hes, heq⟩ := (gives_parseComparisons_go hop).1 ih
      cases heq
      exact (gives_parseCompare hop).2 ⟨_, _, _, _, ha, hes, rfl⟩
  | boolOp hop hl ih =>
    generalize hk : Cursor.kind _ = k at hl
    cases hl with
    | operandsCons =>
      obtain ⟨t, c₀, a, c₁, as, hc, ha, has, heq⟩ := gives_parseOperands_go.1 ih
      obtain ⟨rfl, rfl⟩ := Cursor.push_inj hc
      cases heq
      exact (gives_parseBoolOp hop).2 ⟨_, _, _, ha, has, rfl⟩
  | call hk _ hargs => exact gives_parseCall.2 ⟨_, _, _, _, _, _, rfl, rfl, hk, hargs, rfl⟩
  | subscript hk _ he => exact gives_parseSubscript.2 ⟨_, _, _, _, rfl, hk, he, rfl⟩
  | itemsNil => exact gives_parseItems.2 (.inl ⟨rfl, rfl, rfl⟩)
  | itemsLast hne hk _ he => exact gives_parseItems.2 (.inr ⟨hne, _, .inr ⟨hk, rfl, he, rfl⟩⟩)
  | itemsCons hne hk _ _ he hes =>
    exact gives_parseItems.2 (.inr ⟨hne, _, .inl ⟨_, _, _, hk, he, hes, rfl⟩⟩)
  | linksNil hk => exact (gives_parseComparisons_stop hk).2 ⟨rfl, rfl⟩
  | linksCons hop _ _ he hes =>
    exact (gives_parseComparisons_go hop).2 ⟨_, _, _, _, he, hes, rfl⟩
  | operandsNil hk => exact (gives_parseOperands_stop hk).2 ⟨rfl, rfl⟩
  | operandsCons _ _ he hes =>
    exact gives_parseOperands_go (c := Cursor.push _ _).2 ⟨_, _, _, _, _, rfl, he, hes, rfl⟩

/-- The order in which the readers call each other at one cursor. -/
def Phrase.weight : Phrase → Nat
  | .expr .. => 2
  | .rest .. => 1
  | .items .. => 3
  | _ => 0

/-- A token that is an operator between operands is not the end mark. -/
theorem exists_push_of_ofInfix? {op : Operator} (h : Operator.ofInfix? c.kind = some op) :
    ∃ c₁ : Cursor, c = c₁.push c.current := by
  refine Cursor.exists_push_of_kind rfl ?_
  intro hk
  rw [hk] at h
  cases h

theorem ofInfix?_of_ofComparison? {k : TokenKind} {op : Operator}
    (h : Operator.ofComparison? k = some op) : Operator.ofInfix? k = some op :=
  (Option.filter_eq_some_iff.1 h).1

/-- The phrases that begin where `p` begins and are asked for by its reader, and all phrases
that begin later, are derived if they are given. -/
def Phrase.Below (g : Grammar) (p : Phrase) (c : Cursor) : Prop :=
  ∀ p₁ c₁ c₂, 4 * c₁.size + p₁.weight < 4 * c.size + p.weight → p₁.Given g c₁ c₂ →
    Derives g p₁ c₁ c₂

theorem Phrase.weight_le : p.weight ≤ 3 := by
  cases p <;> simp [weight]

theorem Phrase.Below.later {p₁ : Phrase} {c₁ c₂ : Cursor} (ih : p.Below g c)
    (hc : c₁.size < c.size) (h : p₁.Given g c₁ c₂) : Derives g p₁ c₁ c₂ := by
  have := p₁.weight_le
  exact ih _ _ _ (by omega) h

theorem derives_head {form : PrefixForm} (h : Gives (parseHead g form c) e c')
    (ih : (Phrase.head form e).Below g c) : Derives g (.head form e) c c' := by
  cases form with
  | primary =>
    obtain ⟨t, rfl, ⟨v, hk, hv, rfl⟩ | ⟨b, hk, rfl⟩ | ⟨hk, rfl⟩⟩ := gives_parsePrimary.1 h
    · exact .number hk hv
    · exact .truth hk
    · exact .name hk
  | operator =>
    obtain ⟨t, c₁, op, a, rfl, hop, ha, rfl⟩ := gives_parseOperator.1 h
    exact .operator hop (ih.later (by simp) ha)
  | grouping =>
    obtain ⟨t, c₁, t', rfl, hk, he⟩ := gives_parseGrouping.1 h
    exact .grouping hk (ih.later (by simp) he)
  | list =>
    obtain ⟨t, c₁, t', es, rfl, hk, hes, rfl⟩ := gives_parseList.1 h
    exact .list hk (ih.later (by simp) hes)

theorem derives_links {ops : List Operator} (h : Gives (parseComparisons g power c) (ops, es) c')
    (ih : (Phrase.links power ops es).Below g c) : Derives g (.links power ops es) c c' := by
  cases hop : Operator.ofComparison? c.kind with
  | none =>
    obtain ⟨heq, rfl⟩ := (gives_parseComparisons_stop hop).1 h
    cases heq
    exact .linksNil hop
  | some op =>
    obtain ⟨c₀, hc⟩ := exists_push_of_ofInfix? (ofInfix?_of_ofComparison? hop)
    rw [hc] at h ih ⊢
    obtain ⟨a, c₁, ops', es', ha, hes, heq⟩ := (gives_parseComparisons_go hop).1 h
    cases heq
    have := ha.size_lt
    exact .linksCons hop (ih.later (by simp) ha) (ih.later (by simp; omega) hes)

theorem derives_operands {k : TokenKind} (h : Gives (parseOperands g k power c) es c')
    (ih : (Phrase.operands k power es).Below g c) : Derives g (.operands k power es) c c' := by
  by_cases hk : c.kind = k
  · subst hk
    obtain ⟨t, c₀, a, c₁, as, rfl, ha, has, rfl⟩ := gives_parseOperands_go.1 h
    have := ha.size_lt
    exact .operandsCons (ih.later (by simp) ha) (ih.later (by simp; omega) has)
  · obtain ⟨rfl, rfl⟩ := (gives_parseOperands_stop hk).1 h
    exact .operandsNil hk

theorem derives_rest (h : Gives (parseRest g power left c) e c')
    (ih : (Phrase.rest power left e).Below g c) : Derives g (.rest power left e) c c' := by
  by_cases hstop : ∀ q form, g.infixForm c.kind = some (q, form) → q.rank ≤ power.rank
  · obtain ⟨rfl, rfl⟩ := (gives_parseRest_stop hstop).1 h
    exact .stop hstop
  · simp only [not_forall, Nat.not_le, exists_prop] at hstop
    obtain ⟨q, form, hf, hq⟩ := hstop
    obtain ⟨middle, c₁, hm, he⟩ := (gives_parseRest_go hf hq).1 h
    exact .go hf hq (ih (.tail form q left middle) _ _ (by simp [Phrase.weight]) hm)
      (ih.later hm.size_lt he)

theorem derives_tail (h : Gives (parseInfix g power left form c) e c')
    (ih : (Phrase.tail form power left e).Below g c) :
    Derives g (.tail form power left e) c c' := by
  cases form with
  | binary =>
    obtain ⟨t, c₁, op, right, rfl, hop, hr, rfl⟩ := gives_parseBinary.1 h
    exact .binary hop (ih.later (by simp) hr)
  | compare =>
    cases hop : Operator.ofComparison? c.kind with
    | none =>
      rw [parseInfix, parseCompare, hop] at h
      exact absurd h not_gives_error
    | some op =>
      obtain ⟨c₀, hc⟩ := exists_push_of_ofInfix? (ofInfix?_of_ofComparison? hop)
      rw [hc] at h ih ⊢
      obtain ⟨a, c₁, ops, es, ha, hes, rfl⟩ := (gives_parseCompare hop).1 h
      have := ha.size_lt
      exact .compare (.linksCons hop (ih.later (by simp) ha) (ih.later (by simp; omega) hes))
  | boolOp =>
    cases hop : Operator.ofInfix? c.kind with
    | none =>
      rw [parseInfix, parseBoolOp, hop] at h
      exact absurd h not_gives_error
    | some op =>
      obtain ⟨c₀, hc⟩ := exists_push_of_ofInfix? hop
      rw [hc] at h ih ⊢
      obtain ⟨a, c₁, as, ha, has, rfl⟩ := (gives_parseBoolOp hop).1 h
      have := ha.size_lt
      exact .boolOp hop (.operandsCons (ih.later (by simp) ha) (ih.later (by simp; omega) has))
  | call =>
    obtain ⟨callee, span, t, c₁, t', args, rfl, rfl, hk, hargs, rfl⟩ := gives_parseCall.1 h
    exact .call hk (ih.later (by simp) hargs)
  | subscript =>
    obtain ⟨t, c₁, t', slice, rfl, hk, he, rfl⟩ := gives_parseSubscript.1 h
    exact .subscript hk (ih.later (by simp) he)

theorem derives_items {close : TokenKind} (h : Gives (parseItems g close c) es c')
    (ih : (Phrase.items close es).Below g c) : Derives g (.items close es) c c' := by
  obtain ⟨rfl, rfl, rfl⟩ | ⟨hne, a, ⟨c₁, t, as, hk, ha, has, rfl⟩ | ⟨hk, rfl, ha, rfl⟩⟩ :=
    gives_parseItems.1 h
  · exact .itemsNil
  · have := ha.size_lt
    rw [Cursor.size_push] at this
    exact .itemsCons hne hk (ih (.expr .default a) _ _ (by simp [Phrase.weight]) ha)
      (ih.later (by omega) has)
  · exact .itemsLast hne hk (ih (.expr .default a) _ _ (by simp [Phrase.weight]) ha)

/-- If every phrase that a reader asks for is derived, so is the one that it gives. -/
theorem Phrase.Given.derives_step (h : p.Given g c c') (ih : p.Below g c) : Derives g p c c' := by
  cases p with
  | expr power e =>
    cases hf : g.prefixForm c.kind with
    | none =>
      simp only [Given, parse, hf] at h
      exact absurd h not_gives_error
    | some form =>
      obtain ⟨left, c₁, hl, hr⟩ := (gives_parse hf).1 h
      exact .expr hf (ih (.head form left) _ _ (by simp [weight]) hl) (ih.later hl.size_lt hr)
  | head form e => exact derives_head h ih
  | rest power left e => exact derives_rest h ih
  | tail form power left e => exact derives_tail h ih
  | items close es => exact derives_items h ih
  | links power ops es => exact derives_links h ih
  | operands kind power es => exact derives_operands h ih

/-- **A phrase is derived exactly if its reader gives it.** -/
theorem derives_iff : Derives g p c c' ↔ p.Given g c c' := by
  refine ⟨Derives.given, ?_⟩
  induction hn : 4 * c.size + p.weight using Nat.strongRecOn generalizing p c c' with
  | ind n ih =>
    subst hn
    exact fun h => h.derives_step fun p₁ c₁ c₂ hlt => ih _ hlt rfl

/-- What the reader of expressions gives. -/
theorem gives_parse_iff : Gives (parse g power c) e c' ↔ Derives g (.expr power e) c c' :=
  (derives_iff (p := .expr power e)).symm

end DefToC.Expr
