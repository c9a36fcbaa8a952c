import DefToC.Proofs.Syntax.Shape
import DefToC.Syntax.ProgramParser

/-!
# Reading does not look at spans

The readers look at the kinds and the texts of tokens, and they go forward. So tokens without spans
are read as the tree without spans, or reading fails for the same cause; both readings stop at the
same token, and it is one of the tokens from the first one on (`Reading.Agrees`). This is shown
along the recursion of the readers, one lemma for each.
-/

namespace DefToC

/-! ### Forgetting spans -/

/-- The token without its span. -/
def Token.bare (t : Token) : Token := { t with span := .nowhere }

/-- The error without its place. -/
def Error.bare (e : Error) : Error := { e with position := Span.nowhere.position }

theorem Expr.span_bare (e : Expr) : e.bare.span = .nowhere := by
  cases e <;> rfl

theorem TypeExpr.position_bare (a : TypeExpr) : a.bare.position = Span.nowhere.position := by
  cases a <;> rfl

theorem Expr.isAssignable_bare (e : Expr) : e.bare.isAssignable = e.isAssignable := by
  cases e <;> rfl

theorem Expr.getLastD_bare (es : List Expr) (e : Expr) :
    (es.map bare).getLastD e.bare = (es.getLastD e).bare := by
  rw [List.getLastD_eq_getLast?, List.getLastD_eq_getLast?, List.getLast?_map]
  cases es.getLast? <;> rfl

namespace Cursor

/-- The tokens without their spans. -/
def bare (c : Cursor) : Cursor := ⟨c.pending.map Token.bare, c.endValue, .nowhere⟩

/-- The tokens from the cursor on, with the end mark. -/
def row (c : Cursor) : List Token := c.pending ++ [c.endToken]

variable (c : Cursor)

theorem current_bare : c.bare.current = c.current.bare := by
  obtain ⟨_ | ⟨t, ts⟩, v, s⟩ := c <;> rfl

theorem kind_bare : c.bare.kind = c.kind := by
  rw [kind, current_bare]
  rfl

theorem value_bare : c.bare.current.value = c.current.value := by
  rw [current_bare]
  rfl

theorem span_bare : c.bare.current.span = .nowhere := by
  rw [current_bare]
  rfl

theorem advance_bare : c.bare.advance = c.advance.bare := by
  obtain ⟨_ | ⟨t, ts⟩, v, s⟩ := c <;> rfl

theorem skipNewlines_bare : c.bare.skipNewlines = c.skipNewlines.bare := by
  simp only [bare, skipNewlines, List.dropWhile_map]
  rfl

theorem hasTokens_bare : c.bare.hasTokens = c.hasTokens := by
  rw [hasTokens, kind_bare, hasTokens]

theorem unexpected_bare : c.bare.unexpected = ⟨c.unexpected.error.bare, c.bare⟩ := by
  rw [unexpected, current_bare]
  rfl

theorem unexpectedDetailed_bare (message : String) :
    c.bare.unexpectedDetailed message = ⟨(c.unexpectedDetailed message).error.bare, c.bare⟩ := by
  rw [unexpectedDetailed, current_bare]
  rfl

theorem bare_ofTokens (file : String) (tokens : List Token) :
    (ofTokens file tokens).bare = (ofTokens file (tokens.map Token.bare)).bare := by
  have hbare (t : Token) : t.bare.bare = t.bare := rfl
  unfold ofTokens
  rw [List.getLast?_map]
  cases tokens.getLast? with
  | none => rfl
  | some last =>
    dsimp only [Option.map, Token.bare]
    split
    · simp only [bare, ← List.map_dropLast, List.map_map, Function.comp_def, hbare]
    · simp only [bare, List.map_map, Function.comp_def, hbare]

theorem row_advance : c.advance.row <:+ c.row := by
  obtain ⟨_ | ⟨t, ts⟩, v, s⟩ := c
  · exact List.suffix_refl _
  · exact List.suffix_cons t _

theorem row_skipNewlines : c.skipNewlines.row <:+ c.row := by
  obtain ⟨front, hfront⟩ := c.pending.dropWhile_suffix (·.kind = .newline)
  refine ⟨front, ?_⟩
  rw [row, row, ← List.append_assoc]
  exact congrArg (· ++ [c.endToken]) hfront

end Cursor

/-! ### Two readings side by side -/

namespace Reading

variable {α β γ δ : Type} {n n' l l' : Nat} {b c : Cursor} {f : α → γ} {h : β → δ}

/-- A reading, and a reading of the same tokens without spans. They read the same up to spans or
fail for the same cause, and they stop at the same token of the row that begins at `b`. -/
inductive Agrees (b : Cursor) (f : α → γ) : Reading α n → Reading γ n' → Prop where
  | ok {p : Parsed α n} {p' : Parsed γ n'} : p'.value = f p.value → p'.next = p.next.bare →
      p.next.row <:+ b.row → Agrees b f (.ok p) (.ok p')
  | error {e e' : Failure} : e'.error = e.error.bare → e'.cursor = e.cursor.bare →
      e.cursor.row <:+ b.row → Agrees b f (.error e) (.error e')

theorem agrees_pure {a : α} {a' : γ} {hc : c.size < n} {hc' : c.bare.size < n'}
    (ha : a' = f a) (hb : c.row <:+ b.row) :
    Agrees b f (pure ⟨a, c, hc⟩ : Reading α n) (pure ⟨a', c.bare, hc'⟩ : Reading γ n') :=
  .ok ha rfl hb

theorem agrees_here {a : α} {a' : γ} (ha : a' = f a) (hb : c.row <:+ b.row) :
    Agrees b f (here c a) (here c.bare a') :=
  .ok ha rfl hb

theorem agrees_unexpected (hb : c.row <:+ b.row) :
    Agrees b f (.error c.unexpected : Reading α n) (.error c.bare.unexpected : Reading γ n') := by
  rw [c.unexpected_bare]
  exact .error rfl rfl hb

theorem agrees_unexpectedDetailed (message : String) (hb : c.row <:+ b.row) :
    Agrees b f (.error (c.unexpectedDetailed message) : Reading α n)
      (.error (c.bare.unexpectedDetailed message) : Reading γ n') := by
  rw [c.unexpectedDetailed_bare]
  exact .error rfl rfl hb

/-- Going on from what was read keeps two readings together. -/
theorem Agrees.bind {r : Reading α n} {r' : Reading γ n'} {k : Parsed α n → Reading β l}
    {k' : Parsed γ n' → Reading δ l'} (hr : Agrees b f r r')
    (hk : ∀ (a : α) (c : Cursor) (hc : c.size < n) (hc' : c.bare.size < n'), c.row <:+ b.row →
      Agrees b h (k ⟨a, c, hc⟩) (k' ⟨f a, c.bare, hc'⟩)) : Agrees b h (r >>= k) (r' >>= k') := by
  cases hr with
  | error herror hcursor hb => exact .error herror hcursor hb
  | @ok p p' hvalue hnext hb =>
    obtain ⟨a, c, hc⟩ := p
    obtain ⟨a', c', hc'⟩ := p'
    obtain rfl : a' = f a := hvalue
    obtain rfl : c' = c.bare := hnext
    exact hk a c hc hc' hb

theorem Agrees.within {c' : Cursor} {r : Reading α (c.size + 1)} {r' : Reading γ (c'.size + 1)}
    {hc : c.size < n} {hc' : c'.size < n'} (hr : Agrees b f r r') :
    Agrees b f (r.within hc) (r'.within hc') := by
  cases hr with
  | error herror hcursor hb => exact .error herror hcursor hb
  | ok hvalue hnext hb => exact .ok hvalue hnext hb

theorem Agrees.weaken {c' : Cursor} {r : Reading α c.size} {r' : Reading γ c'.size}
    (hr : Agrees b f r r') : Agrees b f r.weaken r'.weaken := by
  cases hr with
  | error herror hcursor hb => exact .error herror hcursor hb
  | ok hvalue hnext hb => exact .ok hvalue hnext hb

theorem Agrees.below {c' : Cursor} {r : Reading α c.size} {r' : Reading γ c'.size}
    {hc : c.size < n} {hc' : c'.size < n'} (hr : Agrees b f r r') :
    Agrees b f (r.below hc) (r'.below hc') :=
  hr.weaken.within

/-- The second reader goes on from the value and the cursor of the first, and its value counts. -/
theorem Agrees.andThen {r : Reading α n} {r' : Reading γ n'}
    {next : α → (c : Cursor) → Reading β (c.size + 1)}
    {next' : γ → (c : Cursor) → Reading δ (c.size + 1)} (hr : Agrees b f r r')
    (hnext : ∀ (a : α) (c : Cursor), c.size < n → c.row <:+ b.row →
      Agrees b h (next a c) (next' (f a) c.bare)) :
    Agrees b h
      (do
        let ⟨a, c₁, h₁⟩ ← r
        let ⟨v, c₂, h₂⟩ ← (next a c₁).within h₁
        return ⟨v, c₂, h₂⟩ : Reading β n)
      (do
        let ⟨a, c₁, h₁⟩ ← r'
        let ⟨v, c₂, h₂⟩ ← (next' a c₁).within h₁
        return ⟨v, c₂, h₂⟩ : Reading δ n') :=
  hr.bind fun a c hc _ hb => (hnext a c hc hb).within.bind fun _ _ _ _ hb => agrees_pure rfl hb

theorem agrees_ite {p : Prop} [Decidable p] {r s : Reading α n} {r' s' : Reading γ n'}
    (hr : p → Agrees b f r r') (hs : ¬p → Agrees b f s s') :
    Agrees b f (if p then r else s) (if p then r' else s') := by
  by_cases hp : p
  · rw [if_pos hp, if_pos hp]
    exact hr hp
  · rw [if_neg hp, if_neg hp]
    exact hs hp

theorem agrees_shift (hb : c.row <:+ b.row) : Agrees b Token.bare c.shift c.bare.shift := by
  unfold Cursor.shift
  by_cases hc : c.pending = []
  · rw [dif_pos hc, dif_pos (by rw [Cursor.bare, hc]; rfl)]
    exact agrees_unexpected hb
  · rw [dif_neg hc, dif_neg (by simpa [Cursor.bare] using hc)]
    exact .ok c.current_bare c.advance_bare (c.row_advance.trans hb)

theorem agrees_takeOr (kind : TokenKind) (message : String) (hb : c.row <:+ b.row) :
    Agrees b Token.bare (c.takeOr kind message) (c.bare.takeOr kind message) := by
  unfold Cursor.takeOr
  rw [c.kind_bare]
  exact agrees_ite (fun _ => agrees_shift hb) fun _ => agrees_unexpectedDetailed message hb

theorem agrees_take (kind : TokenKind) (hb : c.row <:+ b.row) :
    Agrees b Token.bare (c.take kind) (c.bare.take kind) :=
  agrees_takeOr kind _ hb

end Reading

open Reading

/-! ### Expressions -/

namespace Expr

variable {g : Grammar} {b c : Cursor}

theorem agrees_parsePrimary (hb : c.row <:+ b.row) :
    Agrees b bare (parsePrimary c) (parsePrimary c.bare) := by
  unfold parsePrimary
  rw [c.kind_bare, c.value_bare]
  split
  · split
    · rw [c.span_bare]
      exact .error rfl rfl hb
    · exact (agrees_shift hb).bind fun _ _ _ _ hc => agrees_pure rfl hc
  · exact (agrees_shift hb).bind fun _ _ _ _ hc => agrees_pure rfl hc
  · exact (agrees_shift hb).bind fun _ _ _ _ hc => agrees_pure rfl hc
  · exact (agrees_shift hb).bind fun _ _ _ _ hc => agrees_pure rfl hc
  · exact agrees_unexpected hb

theorem parseCall_eq_error {left : Expr} (h : ∀ callee span, left ≠ name callee span) :
    parseCall g left c = .error (c.unexpectedDetailed "only named functions can be called") := by
  rw [parseCall.eq_def]
  split
  · exact absurd rfl (h _ _)
  · rfl

mutual

theorem agrees_parse (power : Power) (c : Cursor) (hb : c.row <:+ b.row) :
    Agrees b bare (parse g power c) (parse g power c.bare) := by
  rw [parse, parse, c.kind_bare]
  cases g.prefixForm c.kind with
  | none => exact agrees_unexpected hb
  | some form =>
    have hrest (left : Expr) (c₁ : Cursor) (_ : c₁.size < c.size) (hb₁ : c₁.row <:+ b.row) :
        Agrees b bare (parseRest g power left c₁) (parseRest g power left.bare c₁.bare) :=
      agrees_parseRest power left c₁ hb₁
    cases form with
    | primary => exact (agrees_parsePrimary hb).andThen hrest
    | operator => exact (agrees_parseOperator c hb).andThen hrest
    | grouping => exact (agrees_parseGrouping c hb).andThen hrest
    | list => exact (agrees_parseList c hb).andThen hrest
termination_by 4 * c.size + 2

theorem agrees_parseRest (power : Power) (left : Expr) (c : Cursor) (hb : c.row <:+ b.row) :
    Agrees b bare (parseRest g power left c) (parseRest g power left.bare c.bare) := by
  rw [parseRest, parseRest, c.kind_bare]
  cases g.infixForm c.kind with
  | none => exact agrees_here rfl hb
  | some entry =>
    obtain ⟨tokenPower, form⟩ := entry
    refine agrees_ite (fun _ => agrees_here rfl hb) fun _ => Agrees.weaken ?_
    have hrest (left : Expr) (c₁ : Cursor) (_ : c₁.size < c.size) (hb₁ : c₁.row <:+ b.row) :
        Agrees b bare (parseRest g power left c₁) (parseRest g power left.bare c₁.bare) :=
      agrees_parseRest power left c₁ hb₁
    cases form with
    | binary => exact (agrees_parseBinary left tokenPower c hb).andThen hrest
    | compare => exact (agrees_parseCompare left tokenPower c hb).andThen hrest
    | boolOp => exact (agrees_parseBoolOp left tokenPower c hb).andThen hrest
    | call => exact (agrees_parseCall left c hb).andThen hrest
    | subscript => exact (agrees_parseSubscript left c hb).andThen hrest
termination_by 4 * c.size + 1

theorem agrees_parseOperator (c : Cursor) (hb : c.row <:+ b.row) :
    Agrees b bare (parseOperator g c) (parseOperator g c.bare) := by
  rw [parseOperator, parseOperator]
  refine (agrees_shift hb).bind fun token c₁ h₁ _ hb₁ => ?_
  dsimp only [Token.bare]
  cases Operator.ofPrefix? token.kind with
  | none => exact .error rfl rfl hb₁
  | some op =>
    refine (agrees_parse _ c₁ hb₁).below.bind fun operand _ _ _ hb₂ => agrees_pure ?_ hb₂
    rw [operand.span_bare]
    rfl
termination_by 4 * c.size

theorem agrees_parseGrouping (c : Cursor) (hb : c.row <:+ b.row) :
    Agrees b bare (parseGrouping g c) (parseGrouping g c.bare) := by
  rw [parseGrouping, parseGrouping]
  exact (agrees_shift hb).bind fun _ c₁ h₁ _ hb₁ =>
    (agrees_parse _ c₁ hb₁).below.bind fun _ _ _ _ hb₂ =>
      (agrees_take _ hb₂).below.bind fun _ _ _ _ hb₃ => agrees_pure rfl hb₃
termination_by 4 * c.size

theorem agrees_parseItems (close : TokenKind) (c : Cursor) (hb : c.row <:+ b.row) :
    Agrees b (List.map bare) (parseItems g close c) (parseItems g close c.bare) := by
  rw [parseItems, parseItems, c.kind_bare]
  refine agrees_ite (fun _ => agrees_here rfl hb) fun _ => Agrees.weaken ?_
  refine (agrees_parse _ c hb).bind fun item c₁ h₁ _ hb₁ => ?_
  dsimp only
  rw [c₁.kind_bare]
  refine agrees_ite (fun _ => ?_) fun _ => agrees_ite (fun _ => agrees_pure rfl hb₁) fun _ =>
    agrees_unexpectedDetailed _ hb₁
  exact (agrees_shift hb₁).below.bind fun _ c₂ h₂ _ hb₂ =>
    (agrees_parseItems close c₂ hb₂).within.bind fun _ _ _ _ hb₃ => agrees_pure rfl hb₃
termination_by 4 * c.size + 3

theorem agrees_parseList (c : Cursor) (hb : c.row <:+ b.row) :
    Agrees b bare (parseList g c) (parseList g c.bare) := by
  rw [parseList, parseList]
  refine (agrees_shift hb).bind fun _ c₁ h₁ _ hb₁ =>
    (agrees_parseItems _ c₁ hb₁).within.bind fun elements _ _ _ hb₂ =>
      (agrees_take _ hb₂).below.bind fun _ _ _ _ hb₃ => agrees_pure ?_ hb₃
  rw [bare, bareAll_eq_map]
  rfl
termination_by 4 * c.size

theorem agrees_parseBinary (left : Expr) (power : Power) (c : Cursor) (hb : c.row <:+ b.row) :
    Agrees b bare (parseBinary g left power c) (parseBinary g left.bare power c.bare) := by
  rw [parseBinary, parseBinary]
  refine (agrees_shift hb).bind fun token c₁ h₁ _ hb₁ => ?_
  dsimp only [Token.bare]
  cases Operator.ofInfix? token.kind with
  | none => exact .error rfl rfl hb₁
  | some op =>
    refine (agrees_parse _ c₁ hb₁).below.bind fun right _ _ _ hb₂ => agrees_pure ?_ hb₂
    rw [left.span_bare, right.span_bare]
    rfl
termination_by 4 * c.size

theorem agrees_parseCompare (left : Expr) (power : Power) (c : Cursor) (hb : c.row <:+ b.row) :
    Agrees b bare (parseCompare g left power c) (parseCompare g left.bare power c.bare) := by
  rw [parseCompare, parseCompare, c.kind_bare]
  cases Operator.ofComparison? c.kind with
  | none => exact agrees_unexpected hb
  | some op =>
    refine (agrees_shift hb).bind fun _ c₁ h₁ _ hb₁ =>
      (agrees_parse _ c₁ hb₁).below.bind fun e c₂ h₂ _ hb₂ =>
        (agrees_parseComparisons _ c₂ hb₂).within.bind fun rest _ _ _ hb₃ => agrees_pure ?_ hb₃
    obtain ⟨ops, es⟩ := rest
    simp only [id, left.span_bare, getLastD_bare, span_bare, bare, bareAll_eq_map,
      List.map_cons]
    rfl
termination_by 4 * c.size

theorem agrees_parseComparisons (power : Power) (c : Cursor) (hb : c.row <:+ b.row) :
    Agrees b (Prod.map id (List.map bare)) (parseComparisons g power c)
      (parseComparisons g power c.bare) := by
  rw [parseComparisons, parseComparisons, c.kind_bare]
  cases Operator.ofComparison? c.kind with
  | none => exact agrees_here rfl hb
  | some op =>
    exact Agrees.weaken ((agrees_shift hb).bind fun _ c₁ h₁ _ hb₁ =>
      (agrees_parse _ c₁ hb₁).below.bind fun e c₂ h₂ _ hb₂ =>
        (agrees_parseComparisons _ c₂ hb₂).within.bind fun _ _ _ _ hb₃ => agrees_pure rfl hb₃)
termination_by 4 * c.size

theorem agrees_parseBoolOp (left : Expr) (power : Power) (c : Cursor) (hb : c.row <:+ b.row) :
    Agrees b bare (parseBoolOp g left power c) (parseBoolOp g left.bare power c.bare) := by
  rw [parseBoolOp, parseBoolOp, c.kind_bare]
  cases Operator.ofInfix? c.kind with
  | none => exact agrees_unexpected hb
  | some op =>
    refine (agrees_shift hb).bind fun token c₁ h₁ _ hb₁ =>
      (agrees_parse _ c₁ hb₁).below.bind fun e c₂ h₂ _ hb₂ =>
        (agrees_parseOperands token.kind _ c₂ hb₂).within.bind fun es _ _ _ hb₃ =>
          agrees_pure ?_ hb₃
    simp only [left.span_bare, getLastD_bare, span_bare, bare, bareAll_eq_map, List.map_cons]
    rfl
termination_by 4 * c.size

theorem agrees_parseOperands (kind : TokenKind) (power : Power) (c : Cursor)
    (hb : c.row <:+ b.row) :
    Agrees b (List.map bare) (parseOperands g kind power c)
      (parseOperands g kind power c.bare) := by
  rw [parseOperands, parseOperands, c.kind_bare]
  refine agrees_ite (fun _ => Agrees.weaken ?_) fun _ => agrees_here rfl hb
  exact (agrees_shift hb).bind fun _ c₁ h₁ _ hb₁ =>
    (agrees_parse _ c₁ hb₁).below.bind fun e c₂ h₂ _ hb₂ =>
      (agrees_parseOperands kind _ c₂ hb₂).within.bind fun _ _ _ _ hb₃ => agrees_pure rfl hb₃
termination_by 4 * c.size

theorem agrees_parseCall (left : Expr) (c : Cursor) (hb : c.row <:+ b.row) :
    Agrees b bare (parseCall g left c) (parseCall g left.bare c.bare) := by
  by_cases hleft : ∃ callee span, left = name callee span
  · obtain ⟨callee, span, rfl⟩ := hleft
    rw [bare, parseCall, parseCall]
    refine (agrees_shift hb).bind fun _ c₁ h₁ _ hb₁ =>
      (agrees_parseItems _ c₁ hb₁).within.bind fun _ _ _ _ hb₂ =>
        (agrees_take _ hb₂).below.bind fun _ _ _ _ hb₃ => agrees_pure ?_ hb₃
    rw [bare, bareAll_eq_map]
    rfl
  · have hleft' : ∀ callee span, left ≠ name callee span :=
      fun callee span h => hleft ⟨callee, span, h⟩
    have hbare : ∀ callee span, left.bare ≠ name callee span := by
      intro callee span h
      cases left with
      | name id s => exact hleft' id s rfl
      | _ => cases h
    rw [parseCall_eq_error hleft', parseCall_eq_error hbare]
    exact agrees_unexpectedDetailed _ hb
termination_by 4 * c.size

theorem agrees_parseSubscript (left : Expr) (c : Cursor) (hb : c.row <:+ b.row) :
    Agrees b bare (parseSubscript g left c) (parseSubscript g left.bare c.bare) := by
  rw [parseSubscript, parseSubscript]
  refine (agrees_shift hb).bind fun _ c₁ h₁ _ hb₁ =>
    (agrees_parse _ c₁ hb₁).below.bind fun _ _ _ _ hb₂ =>
      (agrees_take _ hb₂).below.bind fun _ _ _ _ hb₃ => agrees_pure ?_ hb₃
  rw [left.span_bare]
  rfl
termination_by 4 * c.size

end

end Expr

/-! ### Statements -/

namespace Stmt

variable {g : Grammar} {b c : Cursor}

theorem agrees_parseTargets (targets : List Expr) (value : Expr) (c : Cursor)
    (hb : c.row <:+ b.row) :
    Agrees b (Prod.map (List.map Expr.bare) Expr.bare) (parseTargets g targets value c)
      (parseTargets g (targets.map Expr.bare) value.bare c.bare) := by
  rw [parseTargets, parseTargets, c.kind_bare]
  refine agrees_ite (fun _ => Agrees.weaken ?_) fun _ => agrees_here rfl hb
  refine (agrees_shift hb).bind fun _ c₁ h₁ _ hb₁ =>
    (Expr.agrees_parse _ c₁ hb₁).below.bind fun next c₂ h₂ _ hb₂ => ?_
  have hrest := agrees_parseTargets (targets ++ [value]) next c₂ hb₂
  rw [List.map_append, List.map_singleton] at hrest
  exact hrest.within.bind fun _ _ _ _ hb₃ => agrees_pure rfl hb₃
termination_by c.size

theorem find?_bare (targets : List Expr) :
    (targets.map Expr.bare).find? (!·.isAssignable) =
      (targets.find? (!·.isAssignable)).map Expr.bare := by
  rw [List.find?_map]
  simp only [Function.comp_def, Expr.isAssignable_bare]

theorem agrees_parseTail (first : Span) (e : Expr) (c : Cursor) (hb : c.row <:+ b.row) :
    Agrees b bare (parseTail g first e c) (parseTail g .nowhere e.bare c.bare) := by
  unfold parseTail
  rw [c.kind_bare]
  refine agrees_ite (fun _ => ?_) fun _ => ?_
  · refine (agrees_parseTargets [] e c hb).bind fun result c₁ _ _ hb₁ => ?_
    obtain ⟨targets, value⟩ := result
    dsimp only [Prod.map]
    rw [find?_bare]
    cases targets.find? (!·.isAssignable) with
    | some target =>
      refine .error ?_ rfl hb₁
      simp only [target.span_bare]
      rfl
    | none =>
      refine agrees_pure ?_ hb₁
      rw [value.span_bare, bare, Expr.bareAll_eq_map]
      rfl
  · cases Operator.ofAugmented? c.kind with
    | none =>
      refine agrees_here ?_ hb
      rw [e.span_bare]
      rfl
    | some op =>
      dsimp only
      rw [e.isAssignable_bare]
      refine agrees_ite (fun _ => Agrees.weaken ?_) fun _ => agrees_unexpectedDetailed _ hb
      refine (agrees_shift hb).bind fun _ c₁ _ _ hb₁ =>
        (Expr.agrees_parse _ c₁ hb₁).below.bind fun value _ _ _ hb₂ => agrees_pure ?_ hb₂
      rw [value.span_bare]
      rfl

theorem agrees_parseSimple (hb : c.row <:+ b.row) :
    Agrees b bare (parseSimple g c) (parseSimple g c.bare) := by
  unfold parseSimple
  rw [c.span_bare]
  exact (Expr.agrees_parse _ c hb).bind fun e c₁ _ _ hb₁ =>
    (agrees_parseTail _ e c₁ hb₁).within.bind fun _ _ _ _ hb₂ =>
      (agrees_take _ hb₂).below.bind fun _ _ _ _ hb₃ => agrees_pure rfl hb₃

theorem agrees_parseReturn (hb : c.row <:+ b.row) :
    Agrees b bare (parseReturn g c) (parseReturn g c.bare) := by
  unfold parseReturn
  refine (agrees_shift hb).bind fun token c₁ _ _ hb₁ => ?_
  dsimp only
  rw [c₁.kind_bare]
  refine agrees_ite (fun _ => ?_) fun _ => ?_
  · exact (agrees_take _ hb₁).below.bind fun _ _ _ _ hb₂ => agrees_pure rfl hb₂
  · refine (Expr.agrees_parse _ c₁ hb₁).below.bind fun value _ _ _ hb₂ =>
      (agrees_take _ hb₂).below.bind fun _ _ _ _ hb₃ => agrees_pure ?_ hb₃
    rw [value.span_bare]
    rfl

mutual

theorem agrees_parse (c : Cursor) (hb : c.row <:+ b.row) :
    Agrees b bare (parse g c) (parse g c.bare) := by
  rw [parse, parse, c.kind_bare]
  split
  · exact agrees_parseIf c hb
  · exact agrees_parseWhile c hb
  · exact agrees_parseReturn hb
  · exact agrees_parseSimple hb
termination_by 4 * c.size + 1

theorem agrees_parseSuite (c : Cursor) (hb : c.row <:+ b.row) :
    Agrees b (List.map bare) (parseSuite g c) (parseSuite g c.bare) := by
  rw [parseSuite, parseSuite]
  refine (agrees_take _ hb).bind fun _ c₁ h₁ _ hb₁ => ?_
  dsimp only
  rw [c₁.kind_bare]
  refine agrees_ite (fun _ => ?_) fun _ => ?_
  · exact (agrees_shift hb₁).below.bind fun _ _ _ _ hb₂ =>
      (agrees_take _ hb₂).below.bind fun _ c₃ h₃ _ hb₃ =>
        (agrees_parseBlock c₃ hb₃).within.bind fun _ _ _ _ hb₄ =>
          (agrees_take _ hb₄).below.bind fun _ _ _ _ hb₅ => agrees_pure rfl hb₅
  · exact (agrees_parse c₁ hb₁).below.bind fun _ _ _ _ hb₂ => agrees_pure rfl hb₂
termination_by 4 * c.size

theorem agrees_parseBlock (c : Cursor) (hb : c.row <:+ b.row) :
    Agrees b (List.map bare) (parseBlock g c) (parseBlock g c.bare) := by
  rw [parseBlock, parseBlock, c.kind_bare, c.hasTokens_bare]
  refine agrees_ite (fun _ => agrees_here rfl hb) fun _ => agrees_ite (fun _ => Agrees.weaken ?_)
    fun _ => agrees_unexpectedDetailed _ hb
  exact (agrees_parse c hb).bind fun _ c₁ h₁ _ hb₁ =>
    (agrees_parseBlock c₁ hb₁).within.bind fun _ _ _ _ hb₂ => agrees_pure rfl hb₂
termination_by 4 * c.size + 2

theorem agrees_parseElse (c : Cursor) (hb : c.row <:+ b.row) :
    Agrees b (List.map bare) (parseElse g c) (parseElse g c.bare) := by
  rw [parseElse, parseElse, c.kind_bare]
  refine agrees_ite (fun _ => Agrees.weaken ?_) fun _ => agrees_here rfl hb
  exact (agrees_shift hb).bind fun _ c₁ h₁ _ hb₁ =>
    (agrees_parseSuite c₁ hb₁).below.bind fun _ _ _ _ hb₂ => agrees_pure rfl hb₂
termination_by 4 * c.size

theorem agrees_parseIf (c : Cursor) (hb : c.row <:+ b.row) :
    Agrees b bare (parseIf g c) (parseIf g c.bare) := by
  rw [parseIf, parseIf]
  refine (agrees_shift hb).bind fun token c₁ h₁ _ hb₁ =>
    (Expr.agrees_parse _ c₁ hb₁).below.bind fun test c₂ h₂ _ hb₂ =>
      (agrees_parseSuite c₂ hb₂).below.bind fun body c₃ h₃ _ hb₃ => ?_
  dsimp only
  rw [c₃.kind_bare]
  refine agrees_ite (fun _ => ?_) fun _ => ?_
  · refine (agrees_parseIf c₃ hb₃).below.bind fun next c₄ _ _ hb₄ => agrees_pure ?_ hb₄
    rw [c₄.span_bare, bare, bareAll_eq_map, bareAll_eq_map]
    rfl
  · refine (agrees_parseElse c₃ hb₃).within.bind fun orelse c₄ _ _ hb₄ => agrees_pure ?_ hb₄
    rw [c₄.span_bare, bare, bareAll_eq_map, bareAll_eq_map]
    rfl
termination_by 4 * c.size

theorem agrees_parseWhile (c : Cursor) (hb : c.row <:+ b.row) :
    Agrees b bare (parseWhile g c) (parseWhile g c.bare) := by
  rw [parseWhile, parseWhile]
  refine (agrees_shift hb).bind fun token c₁ h₁ _ hb₁ =>
    (Expr.agrees_parse _ c₁ hb₁).below.bind fun test c₂ h₂ _ hb₂ =>
      (agrees_parseSuite c₂ hb₂).below.bind fun body c₃ h₃ _ hb₃ =>
        (agrees_parseElse c₃ hb₃).within.bind fun orelse c₄ _ _ hb₄ => agrees_pure ?_ hb₄
  rw [c₄.span_bare, bare, bareAll_eq_map, bareAll_eq_map]
  rfl
termination_by 4 * c.size

end

end Stmt

/-! ### Types -/

namespace TypeExpr

variable {g : Grammar} {b c : Cursor}

theorem agrees_parseName (hb : c.row <:+ b.row) :
    Agrees b bare (parseName c) (parseName c.bare) :=
  (agrees_take _ hb).bind fun _ _ _ _ hb₁ => agrees_pure rfl hb₁

mutual

theorem agrees_parse (power : Power) (c : Cursor) (hb : c.row <:+ b.row) :
    Agrees b bare (parse g power c) (parse g power c.bare) := by
  rw [parse, parse, c.kind_bare]
  refine agrees_ite (fun _ => ?_) fun _ => agrees_unexpectedDetailed _ hb
  exact (agrees_parseName hb).andThen fun base c₁ _ hb₁ => agrees_parseRest power base c₁ hb₁
termination_by 4 * c.size + 2

theorem agrees_parseRest (power : Power) (base : TypeExpr) (c : Cursor) (hb : c.row <:+ b.row) :
    Agrees b bare (parseRest g power base c) (parseRest g power base.bare c.bare) := by
  rw [parseRest, parseRest, c.kind_bare]
  cases g.typeArguments c.kind with
  | none => exact agrees_here rfl hb
  | some tokenPower =>
    refine agrees_ite (fun _ => agrees_here rfl hb) fun _ => Agrees.weaken ?_
    exact (agrees_parseApplied base c hb).andThen fun base c₁ _ hb₁ =>
      agrees_parseRest power base c₁ hb₁
termination_by 4 * c.size + 1

theorem agrees_parseApplied (base : TypeExpr) (c : Cursor) (hb : c.row <:+ b.row) :
    Agrees b bare (parseApplied g base c) (parseApplied g base.bare c.bare) := by
  rw [parseApplied, parseApplied]
  refine (agrees_take _ hb).bind fun _ c₁ h₁ _ hb₁ =>
    (agrees_parseArguments c₁ hb₁).within.bind fun arguments _ _ _ hb₂ =>
      (agrees_take _ hb₂).below.bind fun _ _ _ _ hb₃ => agrees_pure ?_ hb₃
  rw [base.position_bare, bare, bareAll_eq_map]
termination_by 4 * c.size

theorem agrees_parseArguments (c : Cursor) (hb : c.row <:+ b.row) :
    Agrees b (List.map bare) (parseArguments g c) (parseArguments g c.bare) := by
  rw [parseArguments, parseArguments, c.kind_bare]
  refine agrees_ite (fun _ => agrees_here rfl hb) fun _ => Agrees.weaken ?_
  refine (agrees_parse _ c hb).bind fun type c₁ h₁ _ hb₁ => ?_
  dsimp only
  rw [c₁.kind_bare]
  refine agrees_ite (fun _ => ?_) fun _ => agrees_ite (fun _ => agrees_pure rfl hb₁) fun _ =>
    agrees_unexpectedDetailed _ hb₁
  exact (agrees_shift hb₁).below.bind fun _ c₂ h₂ _ hb₂ =>
    (agrees_parseArguments c₂ hb₂).within.bind fun _ _ _ _ hb₃ => agrees_pure rfl hb₃
termination_by 4 * c.size + 3

end

end TypeExpr

/-! ### Functions -/

section

variable {g : Grammar} {b c : Cursor}

theorem Param.agrees_parse (hb : c.row <:+ b.row) :
    Agrees b Param.bare (Param.parse g c) (Param.parse g c.bare) := by
  unfold Param.parse
  refine (agrees_takeOr _ _ hb).bind fun token c₁ _ _ hb₁ => ?_
  dsimp only
  rw [c₁.kind_bare]
  refine agrees_ite (fun _ => ?_) fun _ => ?_
  · refine (agrees_shift hb₁).below.bind fun _ c₂ _ _ hb₂ =>
      (TypeExpr.agrees_parse _ c₂ hb₂).below.bind fun type c₃ _ _ hb₃ => agrees_pure ?_ hb₃
    rw [c₃.span_bare]
    rfl
  · refine agrees_pure ?_ hb₁
    rw [c₁.span_bare]
    rfl

theorem Param.agrees_parseAll (c : Cursor) (hb : c.row <:+ b.row) :
    Agrees b (List.map Param.bare) (Param.parseAll g c) (Param.parseAll g c.bare) := by
  rw [Param.parseAll, Param.parseAll, c.kind_bare]
  refine agrees_ite (fun _ => agrees_here rfl hb) fun _ => Agrees.weaken ?_
  refine (Param.agrees_parse hb).bind fun param c₁ h₁ _ hb₁ => ?_
  dsimp only
  rw [c₁.kind_bare]
  refine agrees_ite (fun _ => ?_) fun _ => agrees_ite (fun _ => agrees_pure rfl hb₁) fun _ =>
    agrees_unexpectedDetailed _ hb₁
  exact (agrees_shift hb₁).below.bind fun _ c₂ h₂ _ hb₂ =>
    (Param.agrees_parseAll c₂ hb₂).within.bind fun _ _ _ _ hb₃ => agrees_pure rfl hb₃
termination_by c.size

theorem FunctionDef.agrees_parseReturns (hb : c.row <:+ b.row) :
    Agrees b (Option.map TypeExpr.bare) (FunctionDef.parseReturns g c)
      (FunctionDef.parseReturns g c.bare) := by
  unfold FunctionDef.parseReturns
  rw [c.kind_bare]
  refine agrees_ite (fun _ => Agrees.weaken ?_) fun _ => agrees_here rfl hb
  exact (agrees_shift hb).bind fun _ c₁ _ _ hb₁ =>
    (TypeExpr.agrees_parse _ c₁ hb₁).below.bind fun _ _ _ _ hb₂ => agrees_pure rfl hb₂

theorem FunctionDef.agrees_parse (hb : c.row <:+ b.row) :
    Agrees b FunctionDef.bare (FunctionDef.parse g c) (FunctionDef.parse g c.bare) := by
  unfold FunctionDef.parse
  refine (agrees_take _ hb).bind fun _ _ _ _ hb₁ =>
    (agrees_takeOr _ _ hb₁).below.bind fun _ _ _ _ hb₂ =>
      (agrees_take _ hb₂).below.bind fun _ c₃ _ _ hb₃ =>
        (Param.agrees_parseAll c₃ hb₃).within.bind fun _ _ _ _ hb₄ =>
          (agrees_take _ hb₄).below.bind fun _ _ _ _ hb₅ =>
            (FunctionDef.agrees_parseReturns hb₅).within.bind fun _ c₆ _ _ hb₆ =>
              (Stmt.agrees_parseSuite c₆ hb₆).below.bind fun _ c₇ _ _ hb₇ => agrees_pure ?_ hb₇
  rw [c₇.span_bare]
  rfl

end

/-! ### Programs -/

section

variable {α β γ δ : Type}

/-- The value up to places, or the error without its place. -/
def bareResult (f : α → γ) : Except Error α → Except Error γ
  | .error e => .error e.bare
  | .ok a => .ok (f a)

theorem bareResult_eq_ok_iff {x : Except Error α} {f : α → γ} {c : γ} :
    bareResult f x = .ok c ↔ ∃ a, x = .ok a ∧ f a = c := by
  cases x <;> simp [bareResult]

theorem bareResult_bind {x : Except Error α} {k : α → Except Error β} {k' : γ → Except Error δ}
    {f : α → γ} {h : β → δ} (hk : ∀ a, k' (f a) = bareResult h (k a)) :
    bareResult f x >>= k' = bareResult h (x >>= k) := by
  cases x with
  | error e => rfl
  | ok a => exact hk a

namespace Traced

/-- What is left of a result and its notes without places. -/
def bare (f : α → γ) (t : Traced Error α) : Traced Error γ := ⟨bareResult f t.result, t.events⟩

theorem ofExcept_bareResult (f : α → γ) (x : Except Error α) :
    ofExcept (bareResult f x) = (ofExcept x).bare f := rfl

theorem bare_bare (t : Traced Error α) : (t.bare id).bare id = t.bare id := by
  obtain ⟨_ | a, events⟩ := t <;> rfl

theorem bare_bind {t : Traced Error α} {k : α → Traced Error β} {k' : γ → Traced Error δ}
    {f : α → γ} {h : β → δ} (hk : ∀ a, k' (f a) = (k a).bare h) :
    t.bare f >>= k' = (t >>= k).bare h := by
  obtain ⟨_ | a, events⟩ := t
  · rfl
  · show (⟨(k' (f a)).result, events ++ (k' (f a)).events⟩ : Traced Error δ) = _
    rw [hk a]
    rfl

end Traced

end

namespace Program

variable {g : Grammar} {c : Cursor}

theorem parseFunctions_of_end (h : c.skipNewlines.hasTokens = false) :
    parseFunctions g c = pure [] := by
  rw [parseFunctions, if_pos (by rw [h]; rfl)]

theorem parseFunctions_of_stray (h : c.skipNewlines.hasTokens = true)
    (hk : c.skipNewlines.kind ≠ .defWord) :
    parseFunctions g c = .ofExcept
      (.error (c.skipNewlines.unexpectedDetailed "expected a function definition").error) := by
  rw [parseFunctions, if_neg (by simp [h]), if_pos hk]

theorem parseFunctions_of_error {failure : Failure} (hk : c.skipNewlines.kind = .defWord)
    (hf : FunctionDef.parse g c.skipNewlines = .error failure) :
    parseFunctions g c = .ofExcept (.error failure.error) := by
  rw [parseFunctions, if_neg (by simp [Cursor.hasTokens, hk]), if_neg (not_not_intro hk), hf]

theorem parseFunctions_of_ok {p : Parsed FunctionDef c.skipNewlines.size}
    (hk : c.skipNewlines.kind = .defWord) (hf : FunctionDef.parse g c.skipNewlines = .ok p) :
    parseFunctions g c = (do
      Traced.note (.parsed p.value.name p.value.body.length)
      let functions ← parseFunctions g p.next
      return p.value :: functions) := by
  rw [parseFunctions, if_neg (by simp [Cursor.hasTokens, hk]), if_neg (not_not_intro hk), hf]

theorem agrees_parse_skipNewlines (g : Grammar) (c : Cursor) :
    Agrees c FunctionDef.bare (FunctionDef.parse g c.skipNewlines)
      (FunctionDef.parse g c.bare.skipNewlines) := by
  rw [c.skipNewlines_bare]
  exact FunctionDef.agrees_parse c.row_skipNewlines

/-- **Functions are read without looking at spans.** -/
theorem parseFunctions_bare (g : Grammar) (c : Cursor) :
    parseFunctions g c.bare = (parseFunctions g c).bare (List.map FunctionDef.bare) := by
  fun_induction parseFunctions g c with
  | case1 c h =>
    rw [parseFunctions_of_end]
    · rfl
    · simpa [c.skipNewlines_bare, Cursor.hasTokens_bare] using h
  | case2 c h hk =>
    rw [parseFunctions_of_stray]
    · rw [c.skipNewlines_bare, Cursor.unexpectedDetailed_bare]
      rfl
    · simpa [c.skipNewlines_bare, Cursor.hasTokens_bare] using h
    · rwa [c.skipNewlines_bare, Cursor.kind_bare]
  | case3 c h hk failure hf =>
    have hagrees := agrees_parse_skipNewlines g c
    rw [hf] at hagrees
    generalize hf' : FunctionDef.parse g c.bare.skipNewlines = r' at hagrees
    cases hagrees with
    | error herror _ _ =>
      rw [parseFunctions_of_error _ hf', herror]
      · rfl
      · rw [c.skipNewlines_bare, Cursor.kind_bare]
        exact Decidable.not_not.1 hk
  | case4 c h hk f c₁ h₁ hf _ ih =>
    have hagrees := agrees_parse_skipNewlines g c
    rw [hf] at hagrees
    generalize hf' : FunctionDef.parse g c.bare.skipNewlines = r' at hagrees
    cases hagrees with
    | ok hvalue hnext _ =>
      rw [parseFunctions_of_ok _ hf', hvalue, hnext, ih]
      · have hlength : f.bare.body.length = f.body.length := List.length_map _
        rw [hlength]
        exact Traced.bare_bind (t := .note _) (f := id) fun _ => Traced.bare_bind fun _ => rfl
      · rw [c.skipNewlines_bare, Cursor.kind_bare]
        exact Decidable.not_not.1 hk

theorem bare_parse (file : String) (tokens : List Token) :
    (parse file tokens).bare Program.bare =
      parseFunctions .standard (Cursor.ofTokens file tokens).bare >>= fun fs => pure ⟨fs⟩ := by
  rw [parseFunctions_bare]
  symm
  exact Traced.bare_bind fun _ => rfl

/-- **Programs are read without looking at spans.** -/
theorem parse_eq_of_bare {file : String} {tokens tokens' : List Token}
    (h : tokens'.map Token.bare = tokens.map Token.bare) :
    (parse file tokens').bare Program.bare = (parse file tokens).bare Program.bare := by
  rw [bare_parse, bare_parse, Cursor.bare_ofTokens, h, ← Cursor.bare_ofTokens]

/-- A program that is read from tokens without spans has none. -/
theorem bare_of_parse {file : String} {tokens : List Token} {p : Program}
    (h : (Cursor.ofTokens file tokens).bare = Cursor.ofTokens file tokens)
    (hp : (parse file tokens).result = .ok p) : p.bare = p := by
  have hbare := bare_parse file tokens
  rw [h] at hbare
  have hresult : bareResult bare (parse file tokens).result = (parse file tokens).result :=
    congrArg Traced.result hbare
  rw [hp] at hresult
  exact Except.ok.inj hresult

end Program

end DefToC
