import DefToC.Proofs.Syntax.StmtDerivations
import DefToC.Syntax.ProgramParser

/-!
# What the readers of types, parameters and functions give

One lemma for each reader, which says when it gives a result and what that is.
-/

namespace DefToC

open Reading

variable {c c' : Cursor}

/-! ### Types -/

namespace TypeExpr

variable {a base : TypeExpr} {as : List TypeExpr}

theorem gives_parse : Gives (parse .standard .default c) a c' ↔ ∃ t c₁, t.kind = .identifier ∧
    c = Cursor.push t c₁ ∧
    Gives (parseRest .standard .default (.name t.value t.span.position) c₁) a c' := by
  have hname {k : TokenKind} : Grammar.standard.typeName k = true ↔ k = .identifier := by
    cases k <;> simp [Grammar.standard]
  rw [parse]
  split
  · simp only [parseName, gives_bind, gives_within, gives_pure, Cursor.gives_take, exists_prop]
    constructor
    · rintro ⟨_, _, ⟨t, c₁, ⟨hk, hc⟩, rfl, rfl⟩, _, _, h, rfl, rfl⟩
      exact ⟨t, _, hk, hc, h⟩
    · rintro ⟨t, c₁, hk, hc, h⟩
      exact ⟨_, _, ⟨t, c₁, ⟨hk, hc⟩, rfl, rfl⟩, _, _, h, rfl, rfl⟩
  · rename_i hn
    refine ⟨fun h => absurd h not_gives_error, ?_⟩
    rintro ⟨t, c₁, hk, rfl, -⟩
    exact absurd (hname.2 hk) hn

theorem gives_parseRest_stop (h : c.kind ≠ .openBracket) :
    Gives (parseRest .standard .default base c) a c' ↔ a = base ∧ c' = c := by
  have hnone {k : TokenKind} (hk : k ≠ .openBracket) : Grammar.standard.typeArguments k = none := by
    cases k <;> first
      | rfl
      | exact absurd rfl hk
  rw [parseRest, hnone h]
  exact gives_here

theorem gives_parseRest_go {t : Token} (h : t.kind = .openBracket) :
    Gives (parseRest .standard .default base (c.push t)) a c' ↔ ∃ as c₁ t',
      t'.kind = .closeBracket ∧ Gives (parseArguments .standard c) as (Cursor.push t' c₁) ∧
      Gives (parseRest .standard .default (.applied base as base.position) c₁) a c' := by
  have hsome : Grammar.standard.typeArguments (c.push t).kind = some .call := by
    rw [Cursor.kind_push, h]
    rfl
  rw [parseRest]
  simp only [hsome, show ¬Power.call.rank ≤ Power.default.rank by decide, if_false, parseApplied,
    gives_weaken, gives_bind, gives_within, gives_below, gives_pure, Cursor.gives_take, exists_prop]
  constructor
  · rintro ⟨_, _, ⟨_, _, ⟨-, hc⟩, as, _, has, t', c₁, ⟨hk, rfl⟩, rfl, rfl⟩, _, _, ha, rfl, rfl⟩
    obtain ⟨rfl, rfl⟩ := Cursor.push_inj hc
    exact ⟨as, _, t', hk, has, ha⟩
  · rintro ⟨as, c₁, t', hk, has, ha⟩
    exact ⟨_, _, ⟨t, c, ⟨h, rfl⟩, as, _, has, t', c₁, ⟨hk, rfl⟩, rfl, rfl⟩, _, _, ha, rfl, rfl⟩

theorem gives_parseArguments : Gives (parseArguments .standard c) as c' ↔
    (c.kind = .closeBracket ∧ as = [] ∧ c' = c) ∨
    (c.kind ≠ .closeBracket ∧ ∃ a, (∃ c₁ t as', t.kind = .comma ∧
      Gives (parse .standard .default c) a (Cursor.push t c₁) ∧
      Gives (parseArguments .standard c₁) as' c' ∧ as = a :: as') ∨
      c'.kind ≠ .comma ∧ c'.kind = .closeBracket ∧
      Gives (parse .standard .default c) a c' ∧ as = [a]) := by
  rw [parseArguments]
  by_cases hc : c.kind = .closeBracket
  · simp [hc, gives_here]
  · rw [if_neg hc, gives_weaken]
    refine (gives_item (parse .standard .default c) .closeBracket (parseArguments .standard)
      "expected `,` or `]` in a type").trans ?_
    simp only [hc, false_and, false_or, ne_eq, not_false_iff, true_and]

end TypeExpr

/-! ### Parameters -/

namespace Param

variable {p : Param} {ps : List Param}

theorem gives_parse : Gives (parse .standard c) p c' ↔ ∃ t c₁, t.kind = .identifier ∧
    c = Cursor.push t c₁ ∧
    ((c₁.kind ≠ .colon ∧ c' = c₁ ∧ p = ⟨t.value, none, t.span.upTo c'.current.span⟩) ∨
    ∃ t' c₂ a, t'.kind = .colon ∧ c₁ = Cursor.push t' c₂ ∧
      Gives (TypeExpr.parse .standard .default c₂) a c' ∧
      p = ⟨t.value, some a, t.span.upTo c'.current.span⟩) := by
  rw [parse]
  simp only [gives_bind, Cursor.gives_takeOr]
  constructor
  · rintro ⟨t, c₁, ⟨hk, hc⟩, h⟩
    refine ⟨t, c₁, hk, hc, ?_⟩
    split at h
    · rename_i hcolon
      simp only [gives_bind, gives_below, Cursor.gives_shift, gives_pure, exists_prop] at h
      obtain ⟨t', c₂, rfl, a, _, ha, rfl, rfl⟩ := h
      exact .inr ⟨t', c₂, a, hcolon, rfl, ha, rfl⟩
    · rename_i hcolon
      rw [gives_pure] at h
      obtain ⟨rfl, rfl⟩ := h
      exact .inl ⟨hcolon, rfl, rfl⟩
  · rintro ⟨t, c₁, hk, hc, ⟨hcolon, rfl, rfl⟩ | ⟨t', c₂, a, hcolon, rfl, ha, rfl⟩⟩
    · refine ⟨t, _, ⟨hk, hc⟩, ?_⟩
      rw [if_neg hcolon]
      exact gives_pure.2 ⟨rfl, rfl⟩
    · refine ⟨t, _, ⟨hk, hc⟩, ?_⟩
      rw [if_pos (by rw [Cursor.kind_push, hcolon])]
      simp only [gives_bind, gives_below, Cursor.gives_shift, gives_pure, exists_prop]
      exact ⟨t', c₂, rfl, a, c', ha, rfl, rfl⟩

theorem gives_parseAll : Gives (parseAll .standard c) ps c' ↔
    (c.kind = .closeParen ∧ ps = [] ∧ c' = c) ∨
    (c.kind ≠ .closeParen ∧ ∃ p, (∃ c₁ t ps', t.kind = .comma ∧
      Gives (parse .standard c) p (Cursor.push t c₁) ∧ Gives (parseAll .standard c₁) ps' c' ∧
      ps = p :: ps') ∨
      c'.kind ≠ .comma ∧ c'.kind = .closeParen ∧ Gives (parse .standard c) p c' ∧ ps = [p]) := by
  rw [parseAll]
  by_cases hc : c.kind = .closeParen
  · simp [hc, gives_here]
  · rw [if_neg hc, gives_weaken]
    refine (gives_item (parse .standard c) .closeParen (parseAll .standard)
      "expected `,` or `)` after a parameter").trans ?_
    simp only [hc, false_and, false_or, ne_eq, not_false_iff, true_and]

end Param

/-! ### Functions -/

namespace FunctionDef

theorem gives_parseReturns {r : Option TypeExpr} : Gives (parseReturns .standard c) r c' ↔
    (c.kind ≠ .arrow ∧ r = none ∧ c' = c) ∨ ∃ t c₁ a, t.kind = .arrow ∧ c = Cursor.push t c₁ ∧
      Gives (TypeExpr.parse .standard .default c₁) a c' ∧ r = some a := by
  rw [parseReturns]
  split
  · rename_i hk
    simp only [gives_weaken, gives_bind, gives_below, Cursor.gives_shift, gives_pure, exists_prop,
      hk, ne_eq, not_true_eq_false, false_and, false_or]
    constructor
    · rintro ⟨t, c₁, rfl, a, _, ha, rfl, rfl⟩
      exact ⟨t, c₁, a, hk, rfl, ha, rfl⟩
    · rintro ⟨t, c₁, a, -, hc, ha, rfl⟩
      exact ⟨t, c₁, hc, a, c', ha, rfl, rfl⟩
  · rename_i hk
    rw [gives_here]
    constructor
    · exact fun h => .inl ⟨hk, h⟩
    · rintro (⟨-, h⟩ | ⟨t, c₁, a, ht, rfl, -⟩)
      · exact h
      · exact absurd ht hk

theorem gives_parse {f : FunctionDef} : Gives (parse .standard c) f c' ↔
    ∃ t₀ t₁ t₂ t₃ c₁ c₂ c₃ params returns body, t₀.kind = .defWord ∧ t₁.kind = .identifier ∧
      t₂.kind = .openParen ∧ t₃.kind = .closeParen ∧
      c = ((Cursor.push t₂ c₁).push t₁).push t₀ ∧
      Gives (Param.parseAll .standard c₁) params (Cursor.push t₃ c₂) ∧
      Gives (parseReturns .standard c₂) returns c₃ ∧
      Stmt.Derives .standard (.suite body) c₃ c' ∧
      f = ⟨t₁.value, params, returns, body, t₀.span.upTo c'.current.span⟩ := by
  rw [parse]
  simp only [gives_bind, gives_below, gives_within, Cursor.gives_take, Cursor.gives_takeOr,
    gives_pure, exists_prop, Stmt.gives_parseSuite_iff]
  constructor
  · rintro ⟨t₀, _, ⟨h₀, rfl⟩, t₁, _, ⟨h₁, rfl⟩, t₂, c₁, ⟨h₂, rfl⟩, params, _, hp, t₃, c₂, ⟨h₃, rfl⟩,
      returns, c₃, hr, body, _, hb, rfl, rfl⟩
    exact ⟨t₀, t₁, t₂, t₃, c₁, c₂, c₃, params, returns, body, h₀, h₁, h₂, h₃, rfl, hp, hr, hb, rfl⟩
  · rintro ⟨t₀, t₁, t₂, t₃, c₁, c₂, c₃, params, returns, body, h₀, h₁, h₂, h₃, rfl, hp, hr, hb, rfl⟩
    exact ⟨t₀, _, ⟨h₀, rfl⟩, t₁, _, ⟨h₁, rfl⟩, t₂, c₁, ⟨h₂, rfl⟩, params, _, hp, t₃, c₂, ⟨h₃, rfl⟩,
      returns, c₃, hr, body, c', hb, rfl, rfl⟩

end FunctionDef

/-! ### Programs -/

theorem Traced.bind_result_eq_ok {ε α β : Type} {t : Traced ε α} {f : α → Traced ε β} {b : β} :
    (t >>= f).result = .ok b ↔ ∃ a, t.result = .ok a ∧ (f a).result = .ok b := by
  obtain ⟨_ | a, events⟩ := t
  · constructor
    · intro h
      cases h
    · rintro ⟨_, ha, -⟩
      cases ha
  · constructor
    · exact fun h => ⟨a, rfl, h⟩
    · rintro ⟨_, ha, h⟩
      cases ha
      exact h

theorem result_scanSource (file source : String) :
    (scanSource file source).result = tokenize file source := by
  unfold scanSource
  cases tokenize file source <;> rfl

namespace Program

/-- A program is read if functions, with line ends in front of them, follow one another up to
the end mark. -/
theorem parseFunctions_eq_ok {fs : List FunctionDef} :
    (parseFunctions .standard c).result = .ok fs ↔
      (c.skipNewlines.kind = .eof ∧ fs = []) ∨
      ∃ f c₁ fs', Gives (FunctionDef.parse .standard c.skipNewlines) f c₁ ∧
        (parseFunctions .standard c₁).result = .ok fs' ∧ fs = f :: fs' := by
  have hdef {f : FunctionDef} {c₁ : Cursor}
      (hf : Gives (FunctionDef.parse .standard c.skipNewlines) f c₁) :
      c.skipNewlines.kind = .defWord := by
    obtain ⟨t₀, t₁, t₂, _, _, _, _, _, _, _, h₀, _, _, _, hc, -⟩ := FunctionDef.gives_parse.1 hf
    rw [hc, Cursor.kind_push, h₀]
  rw [parseFunctions]
  split
  · rename_i hend
    have heof : c.skipNewlines.kind = .eof := by simpa [Cursor.hasTokens] using hend
    constructor
    · intro h
      cases h
      exact .inl ⟨heof, rfl⟩
    · rintro (⟨-, rfl⟩ | ⟨f, c₁, fs', hf, -⟩)
      · rfl
      · exact absurd ((hdef hf).symm.trans heof) (by decide)
  · rename_i hend
    have hne : c.skipNewlines.kind ≠ .eof := by simpa [Cursor.hasTokens] using hend
    split
    · rename_i hnot
      constructor
      · intro h
        cases h
      · rintro (⟨heof, -⟩ | ⟨f, c₁, fs', hf, -⟩)
        · exact absurd heof hne
        · exact absurd (hdef hf) hnot
    · split
      · rename_i failure hfail
        constructor
        · intro h
          cases h
        · rintro (⟨heof, -⟩ | ⟨f, c₁, fs', ⟨_, hf⟩, -⟩)
          · exact absurd heof hne
          · cases hfail.symm.trans hf
      · rename_i f c₁ hlt hok
        simp only [Traced.bind_result_eq_ok]
        constructor
        · rintro ⟨_, -, fs', hfs, h⟩
          cases h
          exact .inr ⟨f, c₁, fs', ⟨hlt, hok⟩, hfs, rfl⟩
        · rintro (⟨heof, -⟩ | ⟨f', c₂, fs', ⟨_, hf⟩, hfs, rfl⟩)
          · exact absurd heof hne
          · cases hok.symm.trans hf
            exact ⟨(), rfl, fs', hfs, rfl⟩

end Program

end DefToC
