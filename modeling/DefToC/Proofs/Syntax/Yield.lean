import DefToC.Proofs.Syntax.ExprRoundTrip
import DefToC.Proofs.Syntax.Sources
import Mathlib

/-!
# Tokens and the trees that are read from them

The reader of expressions takes tokens from the front of a row and gives a tree. Nothing is lost
and nothing is made up on the way: the tokens that it takes are those of the tree from left to
right (`Expr.yield`), up to the parentheses around expressions and the commas behind last items,
which leave no trace in the tree.

Which parentheses these are can be told without reading an expression. A row is gone through from
left to right (`ungroup`), with the brackets that are open at each token and with whether an operand
comes next; a parenthesis that is opened where an operand comes is put around an expression, and
any other one opens the arguments of a call.

A number says its value, which is what the reader of numbers gives. For a number that is made of
digits this is the number that they stand for (`Literal.ofNumber?_digits`), and for one with a point
or an exponent it is the nearest double (`Token.Lexical.terminal?_of_mark`).
-/

namespace DefToC

/-! ### The tokens of a tree -/

/-- What a token says in an expression. -/
inductive Terminal where
  /-- An operator, a bracket or a comma. -/
  | mark (kind : TokenKind)
  /-- The name of a variable or of a function that is called. -/
  | name (id : String)
  /-- A truth value or the value of a number. -/
  | constant (value : Literal)

/-- What a token says. A number without a value says nothing. -/
def Token.terminal? (t : Token) : Option Terminal :=
  match t.kind with
  | .number => (Literal.ofNumber? t.value).map .constant
  | .trueWord => some (.constant (.bool true))
  | .falseWord => some (.constant (.bool false))
  | .identifier => some (.name t.value)
  | kind => some (.mark kind)

/-- **What a number of a source with a point or an exponent says.** It is written as a decimal
number, and it says the nearest double to the value of that, if one is finite, and nothing
otherwise. -/
theorem Token.Lexical.terminal?_of_mark {t : Token} (h : t.Lexical) (hkind : t.kind = .number)
    (hmark : ¬∀ c ∈ t.value.toList, c.isDigit) :
    ∃ d, Decimal.IsWritten t.value.toList d ∧ ∀ terminal, t.terminal? = some terminal ↔
      ∃ p < Double.infinity, Double.IsNearest d.value p ∧
        terminal = .constant (.float ⟨false, p⟩) := by
  obtain ⟨d, hd⟩ := h.isWritten hkind
  refine ⟨d, hd, fun terminal => ?_⟩
  rw [terminal?, hkind, Option.map_eq_some_iff]
  simp only [Literal.ofNumber?_eq_some_iff hd hmark]
  constructor
  · rintro ⟨l, ⟨p, hp, hnearest, rfl⟩, rfl⟩
    exact ⟨p, hp, hnearest, rfl⟩
  · rintro ⟨p, hp, hnearest, rfl⟩
    exact ⟨_, ⟨p, hp, hnearest, rfl⟩, rfl⟩

namespace Expr

mutual

/-- What the tokens of an expression say, from left to right. -/
def yield : Expr → List Terminal
  | name id _ => [.name id]
  | constant value _ => [.constant value]
  | list elements _ =>
    .mark .openBracket :: [.mark .comma].intercalate (yieldAll elements) ++ [.mark .closeBracket]
  | compare left ops comparators _ =>
    left.yield ++
      (List.zipWith (fun op xs => .mark op.mark :: xs) ops (yieldAll comparators)).flatten
  | binary left op right _ => left.yield ++ .mark op.mark :: right.yield
  | unary op operand _ => .mark op.mark :: operand.yield
  | boolOp op values _ => [.mark op.mark].intercalate (yieldAll values)
  | subscript value slice _ =>
    value.yield ++ .mark .openBracket :: slice.yield ++ [.mark .closeBracket]
  | call callee arguments _ =>
    .name callee :: .mark .openParen :: [.mark .comma].intercalate (yieldAll arguments) ++
      [.mark .closeParen]

/-- What the tokens of several expressions say. -/
def yieldAll : List Expr → List (List Terminal)
  | [] => []
  | e :: es => e.yield :: yieldAll es

end

@[simp] theorem yieldAll_eq_map (es : List Expr) : yieldAll es = es.map yield := by
  induction es with
  | nil => rfl
  | cons e es ih => rw [yieldAll, ih, List.map_cons]

end Expr

/-! ### Parentheses around expressions -/

/-- What an open bracket is for. -/
inductive Opening where
  /-- Parentheses around an expression. -/
  | grouping
  /-- The arguments of a call. -/
  | call
  /-- The elements of a list. -/
  | list
  /-- An index. -/
  | index
  deriving DecidableEq

namespace Opening

/-- The token that closes a bracket. -/
def close : Opening → TokenKind
  | grouping | call => .closeParen
  | list | index => .closeBracket

/-- Do items with commas between them stand in a bracket? -/
def hasItems : Opening → Bool
  | call | list => true
  | grouping | index => false

end Opening

/-- Do the items of the innermost open bracket end in front of these tokens? -/
def itemsEnd : List Opening → List Token → Bool
  | b :: _, t :: _ => b.hasItems && t.kind = b.close
  | _, _ => false

/-- The tokens of a row without the parentheses around expressions and the commas behind last items.
The brackets that are open are given from the innermost one on, and `operand` tells whether an
operand comes next. There is no result unless every bracket is closed by a token of its own. -/
def ungroup (opened : List Opening) (operand : Bool) : List Token → Option (List Token)
  | [] => if opened.isEmpty then some [] else none
  | t :: ts =>
    match t.kind with
    | .openParen =>
      if operand then ungroup (.grouping :: opened) true ts
      else (ungroup (.call :: opened) true ts).map (t :: ·)
    | .openBracket =>
      (ungroup ((if operand then .list else .index) :: opened) true ts).map (t :: ·)
    | .closeParen | .closeBracket =>
      match opened with
      | [] => none
      | b :: outer =>
        if t.kind ≠ b.close then none
        else if b = .grouping then ungroup outer false ts
        else (ungroup outer false ts).map (t :: ·)
    | .comma =>
      if itemsEnd opened ts then ungroup opened true ts
      else (ungroup opened true ts).map (t :: ·)
    | .number | .identifier | .trueWord | .falseWord => (ungroup opened false ts).map (t :: ·)
    | _ => (ungroup opened true ts).map (t :: ·)

section

variable {opened outer : List Opening} {operand : Bool} {t : Token} {ts : List Token}

theorem ungroup_word (h : t.kind ∈ [.number, .identifier, .trueWord, .falseWord]) :
    ungroup opened operand (t :: ts) = (ungroup opened false ts).map (t :: ·) := by
  simp only [List.mem_cons, List.not_mem_nil, or_false] at h
  obtain h | h | h | h := h <;> simp only [ungroup, h]

/-- The token is an operator, in front of an operand or between two. -/
def Token.IsOperator (t : Token) (op : Operator) : Prop :=
  Operator.ofPrefix? t.kind = some op ∨ Operator.ofInfix? t.kind = some op

theorem Token.IsOperator.ungroup {op : Operator} (h : t.IsOperator op) :
    ungroup opened operand (t :: ts) = (DefToC.ungroup opened true ts).map (t :: ·) := by
  obtain ⟨kind, value, span⟩ := t
  cases kind <;> first
    | rfl
    | (obtain h | h := h <;> cases h)

theorem Token.IsOperator.terminal? {op : Operator} (h : t.IsOperator op) :
    t.terminal? = some (.mark op.mark) := by
  obtain ⟨kind, value, span⟩ := t
  cases kind <;> obtain h | h := h <;> cases h <;> rfl

theorem ungroup_openParen_operand (h : t.kind = .openParen) :
    ungroup opened true (t :: ts) = ungroup (.grouping :: opened) true ts := by
  simp only [ungroup, h, if_true]

theorem ungroup_openParen (h : t.kind = .openParen) :
    ungroup opened false (t :: ts) = (ungroup (.call :: opened) true ts).map (t :: ·) := by
  simp only [ungroup, h, Bool.false_eq_true, if_false]

theorem ungroup_openBracket (h : t.kind = .openBracket) :
    ungroup opened operand (t :: ts) =
      (ungroup ((if operand then .list else .index) :: opened) true ts).map (t :: ·) := by
  simp only [ungroup, h]

theorem ungroup_close {b : Opening} (h : t.kind = b.close) :
    ungroup (b :: outer) operand (t :: ts) =
      if b = .grouping then ungroup outer false ts
      else (ungroup outer false ts).map (t :: ·) := by
  have hkind : t.kind = .closeParen ∨ t.kind = .closeBracket := by
    rw [h]
    cases b <;> simp [Opening.close]
  have hclose : ¬t.kind ≠ b.close := not_not.2 h
  obtain hk | hk := hkind <;>
  · rw [hk] at hclose
    simp only [ungroup, hk, if_neg hclose]

theorem ungroup_comma (h : t.kind = .comma) :
    ungroup opened operand (t :: ts) =
      if itemsEnd opened ts then ungroup opened true ts
      else (ungroup opened true ts).map (t :: ·) := by
  simp only [ungroup, h]

end

/-! ### What rows of tokens say -/

/-- Whatever brackets are open and whatever follows, the tokens say these terminals and end an
operand. They begin where an operand comes next or not. -/
def Says (operand : Bool) (ts : List Token) (xs : List Terminal) : Prop :=
  ∃ kept, kept.map Token.terminal? = xs.map some ∧ ∀ opened rest,
    ungroup opened operand (ts ++ rest) = (ungroup opened false rest).map (kept ++ ·)

/-- The tokens are items with commas between them, which say these terminals in front of the token
that closes their bracket. -/
def SaysItems (close : TokenKind) (ts : List Token) (xs : List Terminal) : Prop :=
  ∃ kept, kept.map Token.terminal? = xs.map some ∧ ∀ (b : Opening) outer (t : Token) rest,
    b.hasItems = true → b.close = close → t.kind = close →
    ungroup (b :: outer) true (ts ++ t :: rest) =
      (ungroup (b :: outer) false (t :: rest)).map (kept ++ ·)

section

variable {operand : Bool} {ts us : List Token} {xs ys : List Terminal} {t t' : Token}

theorem says_nil : Says false [] [] := ⟨[], rfl, fun opened rest => by simp⟩

theorem Says.append (h : Says operand ts xs) (h' : Says false us ys) :
    Says operand (ts ++ us) (xs ++ ys) := by
  obtain ⟨kept, hkept, hts⟩ := h
  obtain ⟨kept', hkept', hus⟩ := h'
  refine ⟨kept ++ kept', by simp [hkept, hkept'], fun opened rest => ?_⟩
  rw [List.append_assoc, hts, hus, Option.map_map]
  congr 1
  funext ks
  exact (List.append_assoc kept kept' ks).symm

theorem says_word {x : Terminal} (h : t.kind ∈ [.number, .identifier, .trueWord, .falseWord])
    (hx : t.terminal? = some x) : Says true [t] [x] :=
  ⟨[t], by simp [hx], fun opened rest => ungroup_word h⟩

/-- An operator and what follows it. -/
theorem Says.operator {op : Operator} (h : Says true ts xs) (ht : t.IsOperator op) :
    Says operand (t :: ts) (.mark op.mark :: xs) := by
  obtain ⟨kept, hkept, hts⟩ := h
  refine ⟨t :: kept, by simp [hkept, ht.terminal?], fun opened rest => ?_⟩
  rw [List.cons_append, ht.ungroup, hts, Option.map_map]
  rfl

/-- Parentheses around an expression are not kept. -/
theorem Says.grouping (h : Says true ts xs) (ht : t.kind = .openParen)
    (ht' : t'.kind = .closeParen) : Says true (t :: ts ++ [t']) xs := by
  obtain ⟨kept, hkept, hts⟩ := h
  refine ⟨kept, hkept, fun opened rest => ?_⟩
  rw [List.cons_append, List.cons_append, List.append_assoc, ungroup_openParen_operand ht, hts,
    List.singleton_append, ungroup_close (b := .grouping) ht', if_pos rfl]

theorem terminal?_bracket (h : t.kind ∈ [.openParen, .openBracket, .closeParen, .closeBracket]) :
    t.terminal? = some (.mark t.kind) := by
  simp only [List.mem_cons, List.not_mem_nil, or_false] at h
  obtain h | h | h | h := h <;> simp only [Token.terminal?, h]

/-- What stands in a bracket is kept with the two tokens of the bracket. -/
theorem says_bracket {b : Opening} {kept : List Token} (hb : b ≠ .grouping)
    (ht : t.kind ∈ [.openParen, .openBracket]) (ht' : t'.kind = b.close)
    (hopen : ∀ opened ts,
      ungroup opened operand (t :: ts) = (ungroup (b :: opened) true ts).map (t :: ·))
    (hkept : kept.map Token.terminal? = xs.map some)
    (hts : ∀ opened rest, ungroup (b :: opened) true (ts ++ t' :: rest) =
      (ungroup (b :: opened) false (t' :: rest)).map (kept ++ ·)) :
    Says operand (t :: ts ++ [t']) (.mark t.kind :: xs ++ [.mark b.close]) := by
  have hfirst : t.terminal? = some (.mark t.kind) :=
    terminal?_bracket (by simp only [List.mem_cons] at ht ⊢; tauto)
  have hlast : t'.terminal? = some (.mark b.close) := by
    rw [← ht']
    refine terminal?_bracket ?_
    rw [ht']
    cases b <;> decide
  refine ⟨t :: kept ++ [t'], by simp [hkept, hfirst, hlast], fun opened rest => ?_⟩
  rw [List.cons_append, List.cons_append, List.append_assoc, List.singleton_append, hopen, hts,
    ungroup_close ht', if_neg hb, Option.map_map, Option.map_map]
  congr 1
  funext ks
  simp

theorem Says.index (h : Says true ts xs) (ht : t.kind = .openBracket)
    (ht' : t'.kind = .closeBracket) :
    Says false (t :: ts ++ [t']) (.mark .openBracket :: xs ++ [.mark .closeBracket]) := by
  obtain ⟨kept, hkept, hts⟩ := h
  rw [← ht]
  exact says_bracket (b := .index) nofun (by simp [ht]) ht' (fun _ _ => ungroup_openBracket ht)
    hkept fun opened rest => hts (.index :: opened) (t' :: rest)

theorem SaysItems.list (h : SaysItems .closeBracket ts xs) (ht : t.kind = .openBracket)
    (ht' : t'.kind = .closeBracket) :
    Says true (t :: ts ++ [t']) (.mark .openBracket :: xs ++ [.mark .closeBracket]) := by
  obtain ⟨kept, hkept, hts⟩ := h
  rw [← ht]
  exact says_bracket (b := .list) nofun (by simp [ht]) ht' (fun _ _ => ungroup_openBracket ht)
    hkept fun opened rest => hts .list opened t' rest rfl rfl ht'

theorem SaysItems.call (h : SaysItems .closeParen ts xs) (ht : t.kind = .openParen)
    (ht' : t'.kind = .closeParen) :
    Says false (t :: ts ++ [t']) (.mark .openParen :: xs ++ [.mark .closeParen]) := by
  obtain ⟨kept, hkept, hts⟩ := h
  rw [← ht]
  exact says_bracket (b := .call) nofun (by simp [ht]) ht' (fun _ _ => ungroup_openParen ht)
    hkept fun opened rest => hts .call opened t' rest rfl rfl ht'

/-! ### Items -/

variable {close : TokenKind}

/-- In front of the token that closes a bracket it does not matter what comes next. -/
theorem saysItems_nil : SaysItems close [] [] := by
  refine ⟨[], rfl, ?_⟩
  rintro b outer t rest - rfl ht
  rw [List.nil_append, ungroup_close ht, ungroup_close ht]
  simp

theorem Says.saysItems (h : Says true ts xs) : SaysItems close ts xs := by
  obtain ⟨kept, hkept, hts⟩ := h
  exact ⟨kept, hkept, fun b outer t rest _ _ _ => hts _ _⟩

/-- A comma behind the last item is not kept. -/
theorem Says.trailingComma (h : Says true ts xs) (ht : t.kind = .comma) :
    SaysItems close (ts ++ [t]) xs := by
  obtain ⟨kept, hkept, hts⟩ := h
  refine ⟨kept, hkept, ?_⟩
  rintro b outer t' rest hb rfl ht'
  have hend : itemsEnd (b :: outer) (t' :: rest) = true := by simp [itemsEnd, hb, ht']
  rw [List.append_assoc, List.singleton_append, hts, ungroup_comma ht, if_pos hend,
    ungroup_close ht', ungroup_close ht']

/-- A comma in front of a further item is kept. -/
theorem Says.comma (h : Says true ts xs) (ht : t.kind = .comma) (h' : SaysItems close us ys)
    (hus : us ≠ []) (hnext : ∀ u ∈ us.head?, u.kind ≠ close) :
    SaysItems close (ts ++ t :: us) (xs ++ .mark .comma :: ys) := by
  obtain ⟨kept, hkept, hts⟩ := h
  obtain ⟨kept', hkept', hus'⟩ := h'
  have hterminal : t.terminal? = some (.mark .comma) := by simp only [Token.terminal?, ht]
  refine ⟨kept ++ t :: kept', by simp [hkept, hkept', hterminal], ?_⟩
  rintro b outer t' rest hb rfl ht'
  have hgoesOn : itemsEnd (b :: outer) (us ++ t' :: rest) = false := by
    obtain _ | ⟨u, us⟩ := us
    · exact absurd rfl hus
    · simp [itemsEnd, hnext u rfl]
  rw [List.append_assoc, List.cons_append, hts, ungroup_comma ht, hgoesOn,
    if_neg Bool.false_ne_true, hus' b outer t' rest hb rfl ht', Option.map_map, Option.map_map]
  congr 1
  funext ks
  simp

end

/-! ### Derivations -/

namespace Expr

open Cursor Reading

theorem ne_nil_of_foldr_push {ts : List Token} {c c' : Cursor} (h : c = ts.foldr push c')
    (hk : c.kind ≠ c'.kind) : ts ≠ [] := by
  rintro rfl
  exact hk (congrArg kind h)

theorem kind_of_foldr_push {ts : List Token} {t : Token} {c c' : Cursor}
    (h : c = ts.foldr push c') (ht : t ∈ ts.head?) : t.kind = c.kind := by
  obtain _ | ⟨u, us⟩ := ts
  · cases ht
  · obtain rfl : u = t := Option.some.inj ht
    rw [h, List.foldr_cons, kind_push]

theorem infixRank_le {k : TokenKind} {n : Nat}
    (h : ∀ q form, Grammar.standard.infixForm k = some (q, form) → q.rank ≤ n) :
    infixRank k ≤ n := by
  unfold infixRank
  cases hk : Grammar.standard.infixForm k with
  | none => exact Nat.zero_le n
  | some entry => exact h entry.1 entry.2 hk

/-- The forms in brackets are read at their brackets. -/
theorem kind_of_bracketed {k : TokenKind} :
    (Grammar.standard.prefixForm k = some .grouping → k = .openParen) ∧
    (Grammar.standard.prefixForm k = some .list → k = .openBracket) ∧
    (∀ q, Grammar.standard.infixForm k = some (q, .call) → k = .openParen) ∧
    ∀ q, Grammar.standard.infixForm k = some (q, .subscript) → k = .openBracket := by
  cases k <;> simp [Grammar.standard]

/-- The tokens between the two cursors say what the phrase adds to the tree. An expression ends in
front of a token that does not continue it. -/
def Phrase.Said (c c' : Cursor) : Phrase → Prop
  | .expr power e => infixRank c'.kind ≤ power.rank ∧
      ∃ ts, c = ts.foldr push c' ∧ Says true ts e.yield
  | .head form e => Grammar.standard.prefixForm c.kind = some form →
      ∃ ts, c = ts.foldr push c' ∧ Says true ts e.yield
  | .rest power left e => infixRank c'.kind ≤ power.rank ∧
      ∃ ts xs, c = ts.foldr push c' ∧ Says false ts xs ∧ e.yield = left.yield ++ xs
  | .tail form _ left e => (∃ q, Grammar.standard.infixForm c.kind = some (q, form)) →
      ∃ ts xs, c = ts.foldr push c' ∧ Says false ts xs ∧ e.yield = left.yield ++ xs
  | .items close es => c'.kind = close ∧ (es ≠ [] → c.kind ≠ close) ∧
      ∃ ts, c = ts.foldr push c' ∧ (es = [] → ts = []) ∧
        SaysItems close ts ([.mark .comma].intercalate (es.map yield))
  | .links _ ops es => ∃ ts, c = ts.foldr push c' ∧
      Says false ts (List.zipWith (fun op xs => .mark op.mark :: xs) ops (es.map yield)).flatten
  | .operands kind _ es => ∀ op, Operator.ofInfix? kind = some op →
      ∃ ts xs, c = ts.foldr push c' ∧ Says false ts xs ∧
        ∀ ys, [.mark op.mark].intercalate (ys :: es.map yield) = ys ++ xs

/-- **The tokens of a phrase are those of its tree.** -/
theorem Derives.said {p : Phrase} {c c' : Cursor} (h : Derives .standard p c c') :
    p.Said c c' := by
  induction h with
  | expr hf _ _ ihh ihr =>
    obtain ⟨ts, rfl, hts⟩ := ihh hf
    obtain ⟨hrank, us, xs, rfl, hus, heq⟩ := ihr
    exact ⟨hrank, ts ++ us, List.foldr_append.symm, heq ▸ hts.append hus⟩
  | @number t v c hk hv =>
    refine fun _ => ⟨[t], rfl, says_word (by simp [hk]) ?_⟩
    simp only [Token.terminal?, hk, hv, Option.map_some]
  | @truth t b c hk =>
    refine fun _ => ⟨[t], rfl, ?_⟩
    cases b <;> exact says_word (by simp [hk]) (by simp [Token.terminal?, hk])
  | @name t c hk =>
    exact fun _ => ⟨[t], rfl, says_word (by simp [hk]) (by simp [Token.terminal?, hk])⟩
  | @operator t op e c c₁ hop _ ih =>
    obtain ⟨-, ts, rfl, hts⟩ := ih
    exact fun _ => ⟨t :: ts, rfl, hts.operator (.inl hop)⟩
  | @grouping t t' e c c₁ hk _ ih =>
    intro hf
    obtain ⟨-, ts, rfl, hts⟩ := ih
    exact ⟨t :: ts ++ [t'], by simp, hts.grouping (kind_of_bracketed.1 hf) hk⟩
  | @list t t' es c c₁ hk _ ih =>
    intro hf
    obtain ⟨-, -, ts, rfl, -, hts⟩ := ih
    refine ⟨t :: ts ++ [t'], by simp, ?_⟩
    rw [yield, yieldAll_eq_map]
    exact hts.list (kind_of_bracketed.2.1 hf) hk
  | stop hstop => exact ⟨infixRank_le hstop, [], [], rfl, says_nil, (List.append_nil _).symm⟩
  | go hf _ _ _ iht ihr =>
    obtain ⟨ts, xs, rfl, hts, hmiddle⟩ := iht ⟨_, hf⟩
    obtain ⟨hrank, us, ys, rfl, hus, heq⟩ := ihr
    refine ⟨hrank, ts ++ us, xs ++ ys, List.foldr_append.symm, hts.append hus, ?_⟩
    rw [heq, hmiddle, List.append_assoc]
  | @binary t power op left right c c₁ hop _ ih =>
    obtain ⟨-, ts, rfl, hts⟩ := ih
    exact fun _ => ⟨t :: ts, _, rfl, hts.operator (.inr hop), by rw [yield]⟩
  | compare _ ih =>
    obtain ⟨ts, hc, hts⟩ := ih
    exact fun _ => ⟨ts, _, hc, hts, by rw [yield, yieldAll_eq_map]⟩
  | boolOp hop _ ih =>
    obtain ⟨ts, xs, hc, hts, heq⟩ := ih _ hop
    refine fun _ => ⟨ts, xs, hc, hts, ?_⟩
    rw [yield, yieldAll_eq_map, List.map_cons, heq]
  | @call t t' power callee args span c c₁ hk _ ih =>
    rintro ⟨q, hf⟩
    obtain ⟨-, -, ts, rfl, -, hts⟩ := ih
    refine ⟨t :: ts ++ [t'], _, by simp, hts.call (kind_of_bracketed.2.2.1 _ hf) hk, ?_⟩
    rw [yield, yield, yieldAll_eq_map]
    rfl
  | @subscript t t' power left slice c c₁ hk _ ih =>
    rintro ⟨q, hf⟩
    obtain ⟨-, ts, rfl, hts⟩ := ih
    refine ⟨t :: ts ++ [t'], _, by simp, hts.index (kind_of_bracketed.2.2.2 _ hf) hk, ?_⟩
    rw [yield]
    simp
  | itemsNil => exact ⟨rfl, fun hne => absurd rfl hne, [], rfl, fun _ => rfl, saysItems_nil⟩
  | itemsLast hne _ _ ih =>
    obtain ⟨-, ts, hc, hts⟩ := ih
    refine ⟨rfl, fun _ => hne, ts, hc, fun hes => absurd hes (List.cons_ne_nil _ _), ?_⟩
    rw [List.map_cons, List.map_nil, List.intercalate_singleton]
    exact hts.saysItems
  | @itemsCons t close e es c c₁ c₂ hne hk _ _ ihe ihes =>
    obtain ⟨-, ts, rfl, hts⟩ := ihe
    obtain ⟨hclose, hnext, us, hc, hnil, hus⟩ := ihes
    refine ⟨hclose, fun _ => hne, ts ++ t :: us, by rw [hc]; simp,
      fun hes => absurd hes (List.cons_ne_nil _ _), ?_⟩
    obtain _ | ⟨e₁, es⟩ := es
    · -- the comma stands behind the last item
      rw [hnil rfl, List.map_cons, List.map_nil, List.intercalate_singleton]
      exact hts.trailingComma hk
    · have hkind : c₁.kind ≠ close := hnext (List.cons_ne_nil _ _)
      rw [List.map_cons, List.map_cons, List.intercalate_cons_cons, List.append_assoc]
      refine hts.comma hk hus (ne_nil_of_foldr_push hc (hclose ▸ hkind)) fun u hu => ?_
      rwa [kind_of_foldr_push hc hu]
  | linksNil _ => exact ⟨[], rfl, says_nil⟩
  | @linksCons t power op ops e es c c₁ c₂ hop _ _ ihe ihes =>
    obtain ⟨-, ts, rfl, hts⟩ := ihe
    obtain ⟨us, rfl, hus⟩ := ihes
    refine ⟨t :: ts ++ us, by simp, ?_⟩
    exact (hts.operator (.inr (ofInfix?_of_ofComparison? hop))).append hus
  | operandsNil _ => exact fun _ _ => ⟨[], [], rfl, says_nil, fun ys => by simp⟩
  | @operandsCons t power e es c c₁ c₂ _ _ ihe ihes =>
    intro op hop
    obtain ⟨-, ts, rfl, hts⟩ := ihe
    obtain ⟨us, xs, rfl, hus, heq⟩ := ihes op hop
    refine ⟨t :: ts ++ us, _, by simp, (hts.operator (.inr hop)).append hus, fun ys => ?_⟩
    rw [List.map_cons, List.intercalate_cons_cons, heq]
    simp

/-- **The reader of expressions neither drops nor makes up tokens.** It takes tokens from the front
of the row. Without the parentheses around expressions and the commas behind last items, all of
them matched, they say what the tree says from left to right, and the next token does not bind more
strongly than asked for. -/
theorem parse_takes_yield {power : Power} {c c' : Cursor} {e : Expr}
    (h : Gives (parse .standard power c) e c') :
    ∃ taken kept, c = taken.foldr push c' ∧ ungroup [] true taken = some kept ∧
      kept.map Token.terminal? = e.yield.map some ∧ infixRank c'.kind ≤ power.rank := by
  obtain ⟨hrank, taken, hc, kept, hkept, htaken⟩ := (gives_parse_iff.1 h).said
  have hrow : ungroup [] true taken = some kept := by simpa [ungroup] using htaken [] []
  exact ⟨taken, kept, hc, hrow, hkept, hrank⟩

/-- The call in `f((n), [1,],) or` is read up to the operator. -/
theorem parse_takes_yield_call :
    ∃ taken kept, (⟨[⟨.identifier, "f", ⟨"m", 0, 1⟩⟩, ⟨.openParen, "(", ⟨"m", 1, 2⟩⟩,
        ⟨.openParen, "(", ⟨"m", 2, 3⟩⟩, ⟨.identifier, "n", ⟨"m", 3, 4⟩⟩,
        ⟨.closeParen, ")", ⟨"m", 4, 5⟩⟩, ⟨.comma, ",", ⟨"m", 5, 6⟩⟩,
        ⟨.openBracket, "[", ⟨"m", 7, 8⟩⟩, ⟨.number, "1", ⟨"m", 8, 9⟩⟩,
        ⟨.comma, ",", ⟨"m", 9, 10⟩⟩, ⟨.closeBracket, "]", ⟨"m", 10, 11⟩⟩,
        ⟨.comma, ",", ⟨"m", 11, 12⟩⟩, ⟨.closeParen, ")", ⟨"m", 12, 13⟩⟩,
        ⟨.orWord, "or", ⟨"m", 14, 16⟩⟩], "EOF", ⟨"m", 16, 16⟩⟩ : Cursor) =
          taken.foldr push ⟨[⟨.orWord, "or", ⟨"m", 14, 16⟩⟩], "EOF", ⟨"m", 16, 16⟩⟩ ∧
      ungroup [] true taken = some kept ∧
      kept.map Token.terminal? =
        [some (.name "f"), some (.mark .openParen), some (.name "n"), some (.mark .comma),
          some (.mark .openBracket), some (.constant (.int 1)), some (.mark .closeBracket),
          some (.mark .closeParen)] ∧
      infixRank .orWord ≤ Power.logicalAnd.rank :=
  parse_takes_yield (e := .call "f" [.name "n" ⟨"m", 3, 4⟩,
    .list [.constant (.int 1) ⟨"m", 8, 9⟩] ⟨"m", 7, 11⟩] ⟨"m", 0, 13⟩) ⟨by decide, by cbv⟩

end Expr

end DefToC
