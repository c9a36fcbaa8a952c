import DefToC.Proofs.Number.ReadBack
import DefToC.Proofs.Syntax.ExprDerivations
import DefToC.Proofs.Syntax.Printer
import DefToC.Proofs.Syntax.Shape

/-!
# Reading printed expressions

A printed expression is read as itself, up to spans. What is shown by induction on the
expression is that the reader, having come to its end, stands as if it had just read the
expression as the left part of a longer one: all that is needed of the next token is that it
does not bind the last operand more strongly than the expression does.
-/

namespace DefToC

/-! ### Rows of lexemes between cursors -/

/-- Tokens that are what the lexemes say stand between the two cursors. -/
def Cursor.Shows : List Lexeme → Cursor → Cursor → Prop
  | [], c, c' => c = c'
  | x :: xs, c, c' => ∃ t c₁, Token.Is t x ∧ c = Cursor.push t c₁ ∧ Cursor.Shows xs c₁ c'

namespace Cursor

variable {xs ys : List Lexeme} {c c' : Cursor}

@[simp] theorem shows_nil : Shows [] c c' ↔ c = c' := Iff.rfl

theorem shows_cons {x : Lexeme} : Shows (x :: xs) c c' ↔
    ∃ t c₁, t.Is x ∧ c = Cursor.push t c₁ ∧ Shows xs c₁ c' := Iff.rfl

theorem shows_append : Shows (xs ++ ys) c c' ↔ ∃ c₁, Shows xs c c₁ ∧ Shows ys c₁ c' := by
  induction xs generalizing c with
  | nil => simp
  | cons x xs ih =>
    simp only [List.cons_append, shows_cons, ih]
    constructor
    · rintro ⟨t, c₁, ht, hc, c₂, hxs, hys⟩
      exact ⟨c₂, ⟨t, c₁, ht, hc, hxs⟩, hys⟩
    · rintro ⟨c₂, ⟨t, c₁, ht, hc, hxs⟩, hys⟩
      exact ⟨t, c₁, ht, hc, c₂, hxs, hys⟩

theorem shows_singleton {x : Lexeme} : Shows [x] c c' ↔ ∃ t, t.Is x ∧ c = c'.push t := by
  simp only [shows_cons, shows_nil]
  constructor
  · rintro ⟨t, _, ht, hc, rfl⟩
    exact ⟨t, ht, hc⟩
  · rintro ⟨t, ht, hc⟩
    exact ⟨t, c', ht, hc, rfl⟩

/-- A printed row of items with commas between them is read as itself, if every item is and the
reader of rows goes from item to item. -/
theorem separated_of_shows {α β : Type} {close : TokenKind} {print : α → List Lexeme} {f : α → β}
    {R : α → Cursor → Cursor → Prop} {L : List α → Cursor → Cursor → Prop} {as : List α}
    (hnil : ∀ c, c.kind = close → L [] c c)
    (hlast : ∀ a c c₁, c₁.kind = close → R a c c₁ → L [a] c c₁)
    (hcons : ∀ a as t c c₁ c₂, t.kind = .comma → R a c (push t c₁) → L as c₁ c₂ →
      L (a :: as) c c₂)
    (has : ∀ a ∈ as, ∀ c c₁, Shows (print a) c c₁ → (c₁.kind = .comma ∨ c₁.kind = close) →
      ∃ a', f a' = f a ∧ R a' c c₁)
    (hs : Shows (separated (.mark .comma) (as.map print)) c c') (hk : c'.kind = close) :
    ∃ as', as'.map f = as.map f ∧ L as' c c' := by
  induction as generalizing c with
  | nil =>
    obtain rfl : c = c' := hs
    exact ⟨[], rfl, hnil c hk⟩
  | cons a as ih =>
    have ha := has a List.mem_cons_self
    obtain _ | ⟨a₁, as⟩ := as
    · -- the last item
      rw [List.map_cons, List.map_nil, separated, List.flatMap_nil, List.append_nil] at hs
      obtain ⟨a', hfa, hd⟩ := ha _ _ hs (.inr hk)
      exact ⟨[a'], by simp [hfa], hlast a' c c' hk hd⟩
    · rw [List.map_cons, separated, shows_append] at hs
      obtain ⟨_, hs₁, t, c₃, ht, rfl, hs⟩ := hs
      obtain ⟨a', hfa, hd⟩ := ha _ _ hs₁ (.inl ht)
      obtain ⟨as', hfas, hds⟩ := ih (fun a ha => has a (List.mem_cons_of_mem _ ha)) hs
      exact ⟨a' :: as', by simp [hfa, hfas], hcons a' as' t c c₃ c' ht hd hds⟩

end Cursor

namespace Expr

open Cursor

/-! ### Levels and tokens -/

/-- How strongly a token binds what stands on its left, and zero if it does not. -/
def infixRank (k : TokenKind) : Nat := ((Grammar.standard.infixForm k).map (·.1.rank)).getD 0

/-- A token that may follow an expression of level `n`: it does not bind its last operand more
strongly than the expression does. Comparisons and boolean operators do not go on with an
operator of their own level. -/
def Closes (n : Nat) (k : TokenKind) : Prop := infixRank k < n ∨ (infixRank k = n ∧ 4 < n)

theorem Closes.mono {m n : Nat} {k : TokenKind} (h : Closes m k) (hmn : m ≤ n) : Closes n k := by
  unfold Closes at *
  omega

theorem rank_le_of_infixRank {k : TokenKind} {n : Nat} (h : infixRank k ≤ n) :
    ∀ q form, Grammar.standard.infixForm k = some (q, form) → q.rank ≤ n := by
  intro q form hk
  simpa [infixRank, hk] using h

theorem infixRank_eq {k : TokenKind} {q : Power} {form : InfixForm}
    (h : Grammar.standard.infixForm k = some (q, form)) : infixRank k = q.rank := by
  simp [infixRank, h]

/-- An expression in a position that asks for `min` may be read with the power `p`: a prefix
operator is read with any power. -/
def Admits (p : Power) (min : Nat) : Prop := p.rank < min ∨ (p.rank = min ∧ (min = 3 ∨ min = 7))

/-- A printed expression is read as itself with every power below its level, and with every
power if it begins with a prefix operator. The reader then goes on behind it. -/
def Readable (e : Expr) : Prop :=
  ∀ (p : Power) (c c₁ : Cursor), Shows e.print c c₁ →
    (p.rank < e.level ∨ e.level = 3 ∨ e.level = 7) → Closes e.level c₁.kind →
    ∃ e', e'.bare = e.bare ∧ ∀ r c',
      Derives .standard (.rest p e' r) c₁ c' → Derives .standard (.expr p r) c c'

variable {e : Expr} {p : Power} {c c₁ : Cursor}

theorem Readable.free (h : Readable e) (hlevel : 1 ≤ e.level) (hs : Shows e.print c c₁)
    (hk : infixRank c₁.kind = 0) :
    ∃ e', e'.bare = e.bare ∧ Derives .standard (.expr .default e') c c₁ := by
  obtain ⟨e', hbare, hd⟩ := h .default _ _ hs (.inl hlevel) (.inl (by omega))
  exact ⟨e', hbare, hd _ _ (.stop (rank_le_of_infixRank (by simp [hk])))⟩

theorem level_pos (e : Expr) : 1 ≤ e.level := by
  cases e with
  | boolOp op _ _ => cases op <;> simp [level, infixLevel]
  | binary _ op _ _ => cases op <;> simp [level, infixLevel]
  | unary op _ _ => cases op <;> simp [level, prefixLevel]
  | _ => simp [level]

/-- A part of an expression is read as itself, in parentheses or not. -/
theorem Readable.at {n : Nat} (h : Readable e) (hs : Shows (e.printAt n) c c₁)
    (hp : Admits p n) (hk : Closes n c₁.kind) : ∃ e', e'.bare = e.bare ∧ ∀ r c',
      Derives .standard (.rest p e' r) c₁ c' → Derives .standard (.expr p r) c c' := by
  unfold printAt wrap at hs
  split at hs
  · rw [List.cons_append, shows_cons] at hs
    obtain ⟨t, c₂, ht, rfl, hs⟩ := hs
    obtain ⟨c₃, hs, hclose⟩ := shows_append.1 hs
    obtain ⟨t', ht', rfl⟩ := shows_singleton.1 hclose
    have hrank : infixRank (c₁.push t').kind = 0 := by
      rw [kind_push, ht']
      rfl
    obtain ⟨e', hbare, hd⟩ := h.free e.level_pos hs hrank
    refine ⟨e', hbare, fun r c' hr => .expr ?_ (.grouping ht' hd) hr⟩
    rw [kind_push, ht]
    rfl
  · rename_i hle
    refine h p _ _ hs ?_ (hk.mono (by omega))
    unfold Admits at hp
    omega

/-- A part of an expression that ends where it stands is read as itself. -/
theorem Readable.closed {n : Nat} (h : Readable e) (hs : Shows (e.printAt n) c c₁)
    (hp : Admits p n) (hk : Closes n c₁.kind) (hrank : infixRank c₁.kind ≤ p.rank) :
    ∃ e', e'.bare = e.bare ∧ Derives .standard (.expr p e') c c₁ := by
  obtain ⟨e', hbare, hd⟩ := h.at hs hp hk
  exact ⟨e', hbare, hd _ _ (.stop (rank_le_of_infixRank hrank))⟩

/-! ### Operators -/

theorem infixForm_mark_arithmetic {op : Operator} (h : op.family = .arithmetic) :
    ∃ q, Grammar.standard.infixForm op.mark = some (q, .binary) ∧ q.rank = infixLevel op ∧
      Operator.ofInfix? op.mark = some op := by
  cases op <;> first
    | exact ⟨_, rfl, rfl, rfl⟩
    | cases h

theorem infixForm_of_ofComparison? {k : TokenKind} {op : Operator}
    (h : Operator.ofComparison? k = some op) :
    Grammar.standard.infixForm k = some (.relational, .compare) := by
  cases k <;> first
    | rfl
    | cases h

theorem infixForm_mark_comparison {op : Operator} (h : op.family = .comparison) :
    Grammar.standard.infixForm op.mark = some (.relational, .compare) ∧
      Operator.ofComparison? op.mark = some op := by
  cases op <;> first
    | exact ⟨rfl, rfl⟩
    | cases h

theorem infixForm_mark_boolOp {op : Operator} (h : op ∈ [.and, .or]) :
    ∃ q, Grammar.standard.infixForm op.mark = some (q, .boolOp) ∧ q.rank = infixLevel op ∧
      Operator.ofInfix? op.mark = some op ∧ infixLevel op < 3 := by
  simp only [List.mem_cons, List.not_mem_nil, or_false] at h
  obtain rfl | rfl := h
  · exact ⟨.logicalAnd, rfl, rfl, rfl, by decide⟩
  · exact ⟨.logicalOr, rfl, rfl, rfl, by decide⟩

theorem prefixForm_mark {op : Operator} (h : op ∈ [.plus, .minus, .not]) :
    Grammar.standard.prefixForm op.mark = some .operator ∧ Operator.ofPrefix? op.mark = some op ∧
      (operandPower op).rank = prefixLevel op ∧ (prefixLevel op = 3 ∨ prefixLevel op = 7) := by
  simp only [List.mem_cons, List.not_mem_nil, or_false] at h
  obtain rfl | rfl | rfl := h <;> exact ⟨rfl, rfl, rfl, by decide⟩

theorem ofComparison?_of_infixRank {k : TokenKind} (h : infixRank k < 4) :
    Operator.ofComparison? k = none := by
  revert h
  cases k <;> decide

/-- An expression begins with a token that a form is known for. -/
theorem Derives.prefixForm {g : Grammar} (h : Derives g (.expr p e) c c₁) :
    ∃ form, g.prefixForm c.kind = some form := by
  cases h with
  | expr hf => exact ⟨_, hf⟩

/-! ### Rows of expressions -/

theorem shows_flatMap_kind {k : TokenKind} {rows : List (List Lexeme)}
    (h : Shows (rows.flatMap (.mark k :: ·)) c c₁) : c.kind = k ∨ c = c₁ := by
  cases rows with
  | nil => exact .inr h
  | cons xs rows =>
    obtain ⟨t, c₂, ht, rfl, -⟩ := h
    exact .inl ht

/-- Further operands of a boolean operator are read as themselves. -/
theorem operands_of_shows {q : Power} {k : TokenKind} {es : List Expr}
    (hes : ∀ e ∈ es, Readable e)
    (hs : Shows ((es.map (printAt (q.rank + 1))).flatMap (.mark k :: ·)) c c₁)
    (hk : infixRank k ≤ q.rank) (hrank : infixRank c₁.kind ≤ q.rank) (hne : c₁.kind ≠ k) :
    ∃ es', es'.map bare = es.map bare ∧ Derives .standard (.operands k q es') c c₁ := by
  induction es generalizing c with
  | nil =>
    obtain rfl : c = c₁ := hs
    exact ⟨[], rfl, .operandsNil hne⟩
  | cons e es ih =>
    rw [List.map_cons, List.flatMap_cons, List.cons_append, shows_cons] at hs
    obtain ⟨t, c₂, rfl, rfl, hs⟩ := hs
    obtain ⟨c₃, he, hs⟩ := shows_append.1 hs
    have hrank₃ : infixRank c₃.kind ≤ q.rank := by
      obtain hk₃ | rfl := shows_flatMap_kind hs
      · rwa [hk₃]
      · exact hrank
    obtain ⟨e', hbare, hd⟩ := (hes e List.mem_cons_self).closed he (.inl (Nat.lt_succ_self _))
      (.inl (Nat.lt_succ_of_le hrank₃)) hrank₃
    obtain ⟨es', hbares, hds⟩ := ih (fun e he => hes e (List.mem_cons_of_mem _ he)) hs
    exact ⟨e' :: es', by simp [hbare, hbares], .operandsCons hd hds⟩

theorem infixRank_of_shows_links {ops : List Operator} {rows : List (List Lexeme)}
    (hops : ∀ op ∈ ops, op.family = .comparison)
    (hs : Shows (List.zipWith (fun op xs => .mark op.mark :: xs) ops rows).flatten c c₁)
    (hrank : infixRank c₁.kind < 4) : infixRank c.kind ≤ 4 := by
  obtain _ | ⟨op, ops⟩ := ops
  · obtain rfl : c = c₁ := hs
    omega
  · obtain _ | ⟨xs, rows⟩ := rows
    · obtain rfl : c = c₁ := hs
      omega
    · obtain ⟨t, c₂, ht, rfl, -⟩ := hs
      have hop := (infixForm_mark_comparison (hops op List.mem_cons_self)).1
      rw [kind_push, show t.kind = op.mark from ht, infixRank_eq hop]
      decide

/-- The comparisons of a chain are read as themselves. -/
theorem links_of_shows {ops : List Operator} {es : List Expr}
    (hlen : ops.length = es.length) (hops : ∀ op ∈ ops, op.family = .comparison)
    (hes : ∀ e ∈ es, Readable e)
    (hs : Shows (List.zipWith (fun op xs => .mark op.mark :: xs) ops
      (es.map (printAt 5))).flatten c c₁) (hrank : infixRank c₁.kind < 4) :
    ∃ es', es'.map bare = es.map bare ∧ Derives .standard (.links .relational ops es') c c₁ := by
  induction es generalizing ops c with
  | nil =>
    obtain rfl := List.eq_nil_of_length_eq_zero hlen
    obtain rfl : c = c₁ := hs
    exact ⟨[], rfl, .linksNil (ofComparison?_of_infixRank hrank)⟩
  | cons e es ih =>
    obtain _ | ⟨op, ops⟩ := ops
    · cases hlen
    · rw [List.map_cons, List.zipWith_cons_cons, List.flatten_cons, List.cons_append,
        shows_cons] at hs
      obtain ⟨t, c₂, ht, rfl, hs⟩ := hs
      obtain ⟨c₃, he, hs⟩ := shows_append.1 hs
      have hop := (infixForm_mark_comparison (hops op List.mem_cons_self)).2
      have hrank₃ := infixRank_of_shows_links
        (fun op hop => hops op (List.mem_cons_of_mem _ hop)) hs hrank
      obtain ⟨e', hbare, hd⟩ := (hes e List.mem_cons_self).closed (p := .relational) he
        (.inl (by decide)) (.inl (by omega)) hrank₃
      obtain ⟨es', hbares, hds⟩ := ih (Nat.succ.inj hlen)
        (fun op hop => hops op (List.mem_cons_of_mem _ hop))
        (fun e he => hes e (List.mem_cons_of_mem _ he)) hs
      refine ⟨e' :: es', by simp [hbare, hbares], .linksCons ?_ hd hds⟩
      rw [show t.kind = op.mark from ht, hop]

/-- Expressions with commas between them are read as themselves. -/
theorem items_of_shows {close : TokenKind} {es : List Expr} (hes : ∀ e ∈ es, Readable e)
    (hs : Shows (separated (.mark .comma) (es.map (printAt 1))) c c₁) (hk : c₁.kind = close)
    (hclose : close = .closeParen ∨ close = .closeBracket) :
    ∃ es', es'.map bare = es.map bare ∧ Derives .standard (.items close es') c c₁ := by
  obtain ⟨hcomma, hrank, hform⟩ : close ≠ .comma ∧ infixRank close = 0 ∧
      Grammar.standard.prefixForm close = none := by
    obtain rfl | rfl := hclose <;> exact ⟨by decide, rfl, rfl⟩
  have hne {a : Expr} {c c₂ : Cursor} (hd : Derives .standard (.expr .default a) c c₂) :
      c.kind ≠ close := by
    rintro rfl
    obtain ⟨form, hf⟩ := hd.prefixForm
    rw [hform] at hf
    cases hf
  refine separated_of_shows (R := fun e => Derives .standard (.expr .default e))
    ?_ ?_ ?_ ?_ hs hk
  · rintro c rfl
    exact .itemsNil
  · rintro a c c₁ rfl hd
    exact .itemsLast (hne hd) hcomma hd
  · intro a as t c c₁ c₂ ht hd hds
    exact .itemsCons (hne hd) ht hd hds
  · intro a ha c c₁ hs hnext
    have hzero : infixRank c₁.kind = 0 := by
      obtain hk | hk := hnext <;> rw [hk]
      · rfl
      · exact hrank
    exact (hes a ha).closed hs (.inl Nat.zero_lt_one) (.inl (by omega)) (by omega)

/-! ### One case per form -/

variable {left right : Expr} {es : List Expr} {op : Operator} {ops : List Operator} {span : Span}

theorem readable_name {id : String} : Readable (.name id span) := by
  intro p c c₁ hs _ _
  obtain ⟨t, ⟨ht, rfl⟩, rfl⟩ := shows_singleton.1 hs
  refine ⟨.name t.value t.span, rfl, fun r c' hr => .expr ?_ (.name ht) hr⟩
  rw [kind_push, ht]
  rfl

theorem readable_constant {v : Literal} (h : v.Printable) : Readable (.constant v span) := by
  intro p c c₁ hs _ _
  obtain ⟨t, ht, rfl⟩ := shows_singleton.1 hs
  refine ⟨.constant v t.span, rfl, fun r c' hr => ?_⟩
  cases v with
  | bool b =>
    have hk : t.kind = if b then .trueWord else .falseWord := ht
    refine .expr ?_ (.truth hk) hr
    rw [kind_push, hk]
    cases b <;> rfl
  | int n =>
    obtain ⟨hk, hv⟩ := ht
    refine .expr ?_ (.number hk (hv ▸ Literal.ofNumber?_int h)) hr
    rw [kind_push, hk]
    rfl
  | float x =>
    obtain ⟨hk, hv⟩ := ht
    refine .expr ?_ (.number hk (hv ▸ Literal.ofNumber?_float h)) hr
    rw [kind_push, hk]
    rfl

theorem readable_list (hes : ∀ e ∈ es, Readable e) : Readable (.list es span) := by
  intro p c c₁ hs _ _
  rw [print, printAll_eq_map, List.cons_append, shows_cons] at hs
  obtain ⟨t, c₂, ht, rfl, hs⟩ := hs
  obtain ⟨c₃, hs, hclose⟩ := shows_append.1 hs
  obtain ⟨t', ht', rfl⟩ := shows_singleton.1 hclose
  obtain ⟨es', hbares, hds⟩ := items_of_shows hes hs ht' (.inr rfl)
  refine ⟨.list es' (t.span.through t'.span), by simp [bare, hbares], fun r c' hr => ?_⟩
  refine .expr ?_ (.list ht' hds) hr
  rw [kind_push, ht]
  rfl

theorem readable_call {callee : String} (hes : ∀ e ∈ es, Readable e) :
    Readable (.call callee es span) := by
  intro p c c₁ hs hp _
  have hlow : p.rank < 8 := by simpa [level] using hp
  rw [print, printAll_eq_map, List.cons_append, List.cons_append, shows_cons] at hs
  obtain ⟨t, _, ⟨ht, rfl⟩, rfl, t₁, c₂, ht₁, rfl, hs⟩ := hs
  obtain ⟨c₃, hs, hclose⟩ := shows_append.1 hs
  obtain ⟨t', ht', rfl⟩ := shows_singleton.1 hclose
  obtain ⟨es', hbares, hds⟩ := items_of_shows hes hs ht' (.inl rfl)
  refine ⟨.call t.value es' (t.span.through t'.span), by simp [bare, hbares], fun r c' hr => ?_⟩
  refine .expr ?_ (.name ht) (.go (q := .call) ?_ hlow
    (.call ht' hds) hr)
  · rw [kind_push, ht]
    rfl
  · rw [kind_push, ht₁]
    rfl

theorem readable_subscript (hv : Readable left) (hs : Readable right) :
    Readable (.subscript left right span) := by
  intro p c c₁ h hp _
  rw [print, List.append_assoc, shows_append] at h
  obtain ⟨c₂, hleft, h⟩ := h
  obtain ⟨t, c₃, ht, rfl, h⟩ := h
  obtain ⟨c₄, hright, hclose⟩ := shows_append.1 h
  obtain ⟨t', ht', rfl⟩ := shows_singleton.1 hclose
  have hform : Grammar.standard.infixForm (c₃.push t).kind = some (.call, .subscript) := by
    rw [kind_push, ht]
    rfl
  have hlow : p.rank < 8 := by simpa [level] using hp
  obtain ⟨v', hbare, hd⟩ := hv.at (n := 8) hleft (.inl hlow)
    (.inr ⟨infixRank_eq hform, by decide⟩)
  obtain ⟨s', hbares, hds⟩ := hs.free right.level_pos hright (by rw [kind_push, ht']; rfl)
  refine ⟨.subscript v' s' (v'.span.through t'.span), by simp [bare, hbare, hbares],
    fun r c' hr => hd _ _ (.go hform hlow (.subscript ht' hds) hr)⟩

theorem readable_unary (hop : op ∈ [.plus, .minus, .not]) (h : Readable left) :
    Readable (.unary op left span) := by
  intro p c c₁ hs _ hk
  obtain ⟨hform, hprefix, hrank, hlevel⟩ := prefixForm_mark hop
  obtain ⟨t, c₂, ht, rfl, hs⟩ := hs
  have ht : t.kind = op.mark := ht
  have hle : infixRank c₁.kind ≤ prefixLevel op := by
    simp only [level, Closes] at hk
    omega
  obtain ⟨e', hbare, hd⟩ := h.closed (p := operandPower op) (n := prefixLevel op) hs
    (.inr ⟨hrank, hlevel⟩) hk (hrank ▸ hle)
  refine ⟨.unary op e' (t.span.through e'.span), by simp [bare, hbare], fun r c' hr => ?_⟩
  refine .expr ?_ (.operator ?_ hd) hr
  · rw [kind_push, ht, hform]
  · rw [ht, hprefix]

theorem readable_binary (hop : op.family = .arithmetic) (hl : Readable left)
    (hr : Readable right) : Readable (.binary left op right span) := by
  intro p c c₁ hs hp hk
  obtain ⟨q, hform, hrank, hinfix⟩ := infixForm_mark_arithmetic hop
  have h4 : 4 < infixLevel op ∧ infixLevel op ≠ 7 := by
    cases op <;> first
      | exact ⟨by decide, by decide⟩
      | cases hop
  rw [print, shows_append] at hs
  obtain ⟨c₂, hleft, t, c₃, ht, rfl, hright⟩ := hs
  have ht : t.kind = op.mark := ht
  have hform' : Grammar.standard.infixForm (c₃.push t).kind = some (q, .binary) := by
    rw [kind_push, ht, hform]
  have hlow : p.rank < infixLevel op := by
    simp only [level] at hp
    omega
  have hle : infixRank c₁.kind ≤ infixLevel op := by
    simp only [level, Closes] at hk
    omega
  obtain ⟨l', hbare, hd⟩ := hl.at (n := infixLevel op) hleft (.inl hlow)
    (.inr ⟨hrank ▸ infixRank_eq hform', h4.1⟩)
  obtain ⟨r', hbares, hds⟩ := hr.closed (p := q) (n := infixLevel op + 1) hright
    (.inl (by omega)) (.inl (by omega)) (by omega)
  refine ⟨.binary l' op r' (l'.span.through r'.span), by simp [bare, hbare, hbares],
    fun r c' h => hd _ _ (.go hform' (by omega) (.binary ?_ hds) h)⟩
  rw [ht, hinfix]

theorem readable_compare (hne : ops ≠ []) (hlen : ops.length = es.length)
    (hops : ∀ op ∈ ops, op.family = .comparison) (hl : Readable left)
    (hes : ∀ e ∈ es, Readable e) : Readable (.compare left ops es span) := by
  intro p c c₁ hs hp hk
  rw [print, printAll_eq_map, shows_append] at hs
  obtain ⟨c₂, hleft, hs⟩ := hs
  have hlow : p.rank < 4 := by simpa [level] using hp
  have hrank : infixRank c₁.kind < 4 := by
    simp only [level, Closes] at hk
    omega
  obtain ⟨es', hbares, hds⟩ := links_of_shows hlen hops hes hs hrank
  obtain ⟨op, ops, rfl⟩ := List.exists_cons_of_ne_nil hne
  cases hds with
  | @linksCons t _ _ _ e' es' c₀ _ _ hop hd hds =>
    have hform : Grammar.standard.infixForm (c₀.push t).kind = some (.relational, .compare) :=
      infixForm_of_ofComparison? hop
    obtain ⟨l', hbare, hd'⟩ := hl.at (p := p) (n := 5) hleft (.inl (by omega))
      (.inl (by rw [infixRank_eq hform]; decide))
    refine ⟨.compare l' (op :: ops) (e' :: es') (l'.span.through (es'.getLastD e').span),
      by simpa [bare, hbare] using hbares,
      fun r c' h => hd' _ _ (.go hform hlow (.compare (.linksCons hop hd hds)) h)⟩

theorem readable_boolOp (hop : op ∈ [.and, .or]) (hlen : 2 ≤ es.length)
    (hes : ∀ e ∈ es, Readable e) : Readable (.boolOp op es span) := by
  intro p c c₁ hs hp hk
  obtain ⟨q, hform, hrank, hinfix, h3⟩ := infixForm_mark_boolOp hop
  obtain _ | ⟨v, _ | ⟨w, es⟩⟩ := es
  · cases hlen
  · exact absurd hlen (by simp)
  rw [print, printAll_eq_map, List.map_cons, separated, shows_append] at hs
  obtain ⟨c₂, hleft, hs⟩ := hs
  have hkind : c₂.kind = op.mark := by
    obtain ⟨t, _, ht, rfl, -⟩ := hs
    exact ht
  have hform' : Grammar.standard.infixForm c₂.kind = some (q, .boolOp) := by rw [hkind, hform]
  have hlt : infixRank c₁.kind < infixLevel op := by
    simp only [level, Closes] at hk
    omega
  have hlow : p.rank < infixLevel op := by
    simp only [level] at hp
    omega
  obtain ⟨v', hbare, hd⟩ := (hes v List.mem_cons_self).at (p := p) (n := infixLevel op + 1) hleft
    (.inl (by omega)) (.inl (by rw [infixRank_eq hform']; omega))
  rw [← hrank] at hs
  have hne : c₁.kind ≠ op.mark := by
    intro hc
    rw [hc, infixRank_eq hform] at hlt
    omega
  obtain ⟨es', hbares, hds⟩ := operands_of_shows (fun e he => hes e (List.mem_cons_of_mem _ he)) hs
    (Nat.le_of_eq (infixRank_eq hform)) (by omega) hne
  obtain ⟨w', es', rfl⟩ : ∃ w' ws', es' = w' :: ws' := by
    cases es' with
    | nil => cases hbares
    | cons w' ws' => exact ⟨w', ws', rfl⟩
  rw [← hkind] at hds hinfix
  refine ⟨.boolOp op (v' :: w' :: es') (v'.span.through (es'.getLastD w').span), ?_,
    fun r c' h => hd _ _ (.go hform' (by omega) (.boolOp hinfix hds) h)⟩
  simpa [bare, hbare] using hbares

/-- **A printed expression is read as itself, and the reader goes on behind it.** -/
theorem Shaped.readable (h : e.Shaped Literal.Printable) : Readable e := by
  induction h with
  | name => exact readable_name
  | constant hv => exact readable_constant hv
  | list _ hes => exact readable_list hes
  | compare hne hlen hops _ _ hl hes => exact readable_compare hne hlen hops hl hes
  | binary hop _ _ hl hr => exact readable_binary hop hl hr
  | unary hop _ h => exact readable_unary hop h
  | boolOp hop hlen _ hes => exact readable_boolOp hop hlen hes
  | subscript _ _ hv hs => exact readable_subscript hv hs
  | call _ hes => exact readable_call hes

end Expr

end DefToC
