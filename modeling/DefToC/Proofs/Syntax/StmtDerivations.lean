import DefToC.Proofs.Syntax.ExprDerivations
import DefToC.Syntax.StmtParser

/-!
# Derivations of statements

The reader of statements as a set of rules, in the manner of the rules for expressions. A
phrase is derived exactly if the reader gives it (`derives_iff`).
-/

namespace DefToC.Stmt

open Reading

/-- The expressions of an assignment stand between the two cursors: the targets, each with an
equals sign behind it, and the value. -/
inductive Assigned (g : Grammar) : List Expr → Expr → Cursor → Cursor → Prop where
  /-- No equals sign follows the value. -/
  | value {v c} {c₁ : Cursor} : c₁.kind ≠ .assignment → Expr.Derives g (.expr .default v) c c₁ →
      Assigned g [] v c c₁
  /-- An expression with an equals sign behind it is a target. -/
  | target {t : Token} {e ts v c} {c₁ c₂ : Cursor} : t.kind = .assignment →
      Expr.Derives g (.expr .default e) c (c₁.push t) → Assigned g ts v c₁ c₂ →
      Assigned g (e :: ts) v c c₂

/-- What the reader of statements and its helpers look for. -/
inductive Phrase where
  /-- A statement. -/
  | stmt (s : Stmt)
  /-- A conditional, from the word in front of its condition on. -/
  | conditional (s : Stmt)
  /-- The statements behind a header, from its colon on. -/
  | suite (ss : List Stmt)
  /-- The statements of a block, up to its end. -/
  | block (ss : List Stmt)
  /-- The second branch, if there is one. -/
  | orelse (ss : List Stmt)

/-- The phrase stands between the two cursors. -/
inductive Derives (g : Grammar) : Phrase → Cursor → Cursor → Prop where
  /-- An assignment to one or more targets. -/
  | assign {t : Token} {e ts v c} {c₁ : Cursor} : g.stmtForm c.kind = none → t.kind = .newline →
      (∀ target ∈ e :: ts, target.isAssignable) → Assigned g (e :: ts) v c (c₁.push t) →
      Derives g (.stmt (.assign (e :: ts) v (c.current.span.through v.span))) c c₁
  /-- An operator applied in place. -/
  | augAssign {t t' : Token} {e op v c} {c₁ c₂ : Cursor} : g.stmtForm c.kind = none →
      Operator.ofAugmented? t.kind = some op → t'.kind = .newline → e.isAssignable →
      Expr.Derives g (.expr .default e) c (c₁.push t) →
      Expr.Derives g (.expr .default v) c₁ (c₂.push t') →
      Derives g (.stmt (.augAssign e op v (c.current.span.through v.span))) c c₂
  /-- An expression on its own. -/
  | expression {t : Token} {e c} {c₁ : Cursor} : g.stmtForm c.kind = none → t.kind = .newline →
      Expr.Derives g (.expr .default e) c (c₁.push t) →
      Derives g (.stmt (.expression e e.span)) c c₁
  /-- A result without a value. -/
  | retNone {t t' : Token} {c : Cursor} : g.stmtForm t.kind = some .ret → t'.kind = .newline →
      Derives g (.stmt (.ret none t.span)) ((c.push t').push t) c
  /-- A result with a value. -/
  | retSome {t t' : Token} {e c} {c₁ : Cursor} : g.stmtForm t.kind = some .ret →
      c.kind ≠ .newline → t'.kind = .newline → Expr.Derives g (.expr .default e) c (c₁.push t') →
      Derives g (.stmt (.ret (some e) (t.span.through e.span))) (c.push t) c₁
  /-- A loop. -/
  | whileLoop {t : Token} {test body orelse c c₁ c₂ c₃} : g.stmtForm t.kind = some .whileLoop →
      Expr.Derives g (.expr .default test) c c₁ → Derives g (.suite body) c₁ c₂ →
      Derives g (.orelse orelse) c₂ c₃ →
      Derives g (.stmt (.whileLoop test body orelse (t.span.upTo c₃.current.span))) (c.push t) c₃
  /-- A statement that is a conditional. -/
  | conditional {s c c₁} : g.stmtForm c.kind = some .ifThen → Derives g (.conditional s) c c₁ →
      Derives g (.stmt s) c c₁
  /-- A conditional. -/
  | ifThen {t : Token} {test body orelse c c₁ c₂ c₃} : c₂.kind ≠ .elifWord →
      Expr.Derives g (.expr .default test) c c₁ → Derives g (.suite body) c₁ c₂ →
      Derives g (.orelse orelse) c₂ c₃ →
      Derives g (.conditional (.ifThen test body orelse (t.span.upTo c₃.current.span)))
        (c.push t) c₃
  /-- A conditional whose second branch is a further condition. -/
  | ifElif {t : Token} {test body next c c₁ c₂ c₃} : c₂.kind = .elifWord →
      Expr.Derives g (.expr .default test) c c₁ → Derives g (.suite body) c₁ c₂ →
      Derives g (.conditional next) c₂ c₃ →
      Derives g (.conditional (.ifThen test body [next] (t.span.upTo c₃.current.span)))
        (c.push t) c₃
  /-- An indented block below the header. -/
  | suiteBlock {t t₁ t₂ t₃ : Token} {ss} {c c₁ : Cursor} : t.kind = .colon → t₁.kind = .newline →
      t₂.kind = .indent → t₃.kind = .dedent → Derives g (.block ss) c (c₁.push t₃) →
      Derives g (.suite ss) (((c.push t₂).push t₁).push t) c₁
  /-- A single statement on the line of the header. -/
  | suiteLine {t : Token} {s c c₁} : t.kind = .colon → c.kind ≠ .newline →
      Derives g (.stmt s) c c₁ → Derives g (.suite [s]) (c.push t) c₁
  /-- The end of a block. -/
  | blockNil {c : Cursor} : c.kind = .dedent → Derives g (.block []) c c
  /-- A further statement of a block. -/
  | blockCons {s ss} {c c₁ c₂ : Cursor} : c.kind ≠ .dedent → c.kind ≠ .eof →
      Derives g (.stmt s) c c₁ → Derives g (.block ss) c₁ c₂ → Derives g (.block (s :: ss)) c c₂
  /-- No second branch. -/
  | orelseNil {c : Cursor} : c.kind ≠ .elseWord → Derives g (.orelse []) c c
  /-- A second branch. -/
  | orelseSuite {t : Token} {ss c c₁} : t.kind = .elseWord → Derives g (.suite ss) c c₁ →
      Derives g (.orelse ss) (c.push t) c₁

/-- The reader gives the phrase. -/
def Phrase.Given (g : Grammar) : Phrase → Cursor → Cursor → Prop
  | .stmt s, c, c' => Gives (parse g c) s c'
  | .conditional s, c, c' => Gives (parseIf g c) s c'
  | .suite ss, c, c' => Gives (parseSuite g c) ss c'
  | .block ss, c, c' => Gives (parseBlock g c) ss c'
  | .orelse ss, c, c' => Gives (parseElse g c) ss c'

variable {g : Grammar} {s : Stmt} {ss : List Stmt} {c c' : Cursor}

/-! ### Assignments -/

theorem gives_parseTargets_stop {targets : List Expr} {v : Expr} {r : List Expr × Expr}
    (h : c.kind ≠ .assignment) :
    Gives (parseTargets g targets v c) r c' ↔ r = (targets, v) ∧ c' = c := by
  rw [parseTargets, if_neg h]
  exact gives_here

theorem gives_parseTargets_go {t : Token} {targets : List Expr} {v : Expr}
    {r : List Expr × Expr} (h : t.kind = .assignment) :
    Gives (parseTargets g targets v (c.push t)) r c' ↔ ∃ e c₁,
      Expr.Derives g (.expr .default e) c c₁ ∧
      Gives (parseTargets g (targets ++ [v]) e c₁) r c' := by
  rw [parseTargets, if_pos (show (c.push t).kind = .assignment from h)]
  simp only [gives_weaken, gives_bind, gives_below, gives_within, Cursor.gives_shift, gives_pure,
    exists_prop, Expr.gives_parse_iff]
  constructor
  · rintro ⟨_, _, hc, e, c₁, he, r', _, hr, rfl, rfl⟩
    obtain ⟨rfl, rfl⟩ := Cursor.push_inj hc
    exact ⟨e, c₁, he, hr⟩
  · rintro ⟨e, c₁, he, hr⟩
    exact ⟨t, c, rfl, e, c₁, he, r, c', hr, rfl, rfl⟩

theorem Assigned.parseTargets {ts : List Expr} {v : Expr} (h : Assigned g ts v c c') {t : Token}
    (ht : t.kind = .assignment) (targets : List Expr) (e : Expr) :
    Gives (parseTargets g targets e (c.push t)) (targets ++ e :: ts, v) c' := by
  induction h generalizing t targets e with
  | value hk hv =>
    exact (gives_parseTargets_go ht).2 ⟨_, _, hv, (gives_parseTargets_stop hk).2 ⟨rfl, rfl⟩⟩
  | target hk he _ ih =>
    refine (gives_parseTargets_go ht).2 ⟨_, _, he, ?_⟩
    simpa using ih hk (targets ++ [e]) _

/-- The loop over equals signs reads the targets behind those that it has. -/
theorem assigned_of_parseTargets {t : Token} {targets us : List Expr} {e v : Expr}
    (ht : t.kind = .assignment) (h : Gives (parseTargets g targets e (c.push t)) (us, v) c') :
    ∃ ts, us = targets ++ e :: ts ∧ Assigned g ts v c c' := by
  induction hn : c.size using Nat.strongRecOn generalizing targets e c t with
  | ind n ih =>
    obtain ⟨e₁, c₁, he₁, h⟩ := (gives_parseTargets_go ht).1 h
    by_cases hk : c₁.kind = .assignment
    · obtain ⟨c₀, hc⟩ := Cursor.exists_push_of_kind hk (by decide)
      rw [hc] at h he₁
      have hlt : c₀.size < n := by
        have := (Expr.gives_parse_iff.2 he₁).size_lt
        rw [Cursor.size_push] at this
        omega
      obtain ⟨ts, rfl, hts⟩ := ih _ hlt hk h rfl
      exact ⟨e₁ :: ts, by simp, .target hk he₁ hts⟩
    · obtain ⟨heq, rfl⟩ := (gives_parseTargets_stop hk).1 h
      cases heq
      exact ⟨[], rfl, .value hk he₁⟩

/-! ### Statements that begin with an expression -/

theorem gives_parseTail_assign {t : Token} {first : Span} {e : Expr} (ht : t.kind = .assignment) :
    Gives (parseTail g first e (c.push t)) s c' ↔ ∃ ts v, Assigned g ts v c c' ∧
      (∀ target ∈ e :: ts, target.isAssignable) ∧
      s = .assign (e :: ts) v (first.through v.span) := by
  rw [parseTail, if_pos (show (c.push t).kind = .assignment from ht)]
  simp only [gives_bind, Prod.exists]
  constructor
  · rintro ⟨us, v, c₁, h, hs⟩
    obtain ⟨ts, rfl, hts⟩ := assigned_of_parseTargets ht h
    split at hs
    · exact absurd hs not_gives_error
    · rename_i hfind
      rw [gives_pure] at hs
      obtain ⟨rfl, rfl⟩ := hs
      exact ⟨ts, v, hts, by simpa using hfind, rfl⟩
  · rintro ⟨ts, v, hts, hall, rfl⟩
    refine ⟨e :: ts, v, c', hts.parseTargets ht [] e, ?_⟩
    have hfind : (e :: ts).find? (!·.isAssignable) = none := by simpa using hall
    rw [hfind]
    exact gives_pure.2 ⟨rfl, rfl⟩

theorem gives_parseTail_augAssign {t : Token} {op : Operator} {first : Span} {e : Expr}
    (ht : Operator.ofAugmented? t.kind = some op) :
    Gives (parseTail g first e (c.push t)) s c' ↔ e.isAssignable ∧ ∃ v,
      Expr.Derives g (.expr .default v) c c' ∧ s = .augAssign e op v (first.through v.span) := by
  have hk : (c.push t).kind ≠ .assignment := by
    intro hk
    rw [Cursor.kind_push] at hk
    rw [hk] at ht
    cases ht
  rw [parseTail, if_neg hk]
  simp only [Cursor.kind_push, ht]
  split
  · rename_i he
    simp only [gives_weaken, gives_bind, gives_below, Cursor.gives_shift, gives_pure, exists_prop,
      Expr.gives_parse_iff, he, true_and]
    constructor
    · rintro ⟨_, _, hc, v, _, hv, rfl, rfl⟩
      obtain ⟨rfl, rfl⟩ := Cursor.push_inj hc
      exact ⟨v, hv, rfl⟩
    · rintro ⟨v, hv, rfl⟩
      exact ⟨t, c, rfl, v, c', hv, rfl, rfl⟩
  · rename_i he
    simp [not_gives_error, he]

theorem gives_parseTail_expression {first : Span} {e : Expr} (hk : c.kind ≠ .assignment)
    (ht : Operator.ofAugmented? c.kind = none) :
    Gives (parseTail g first e c) s c' ↔ s = .expression e e.span ∧ c' = c := by
  rw [parseTail, if_neg hk, ht]
  exact gives_here

theorem gives_parseSimple : Gives (parseSimple g c) s c' ↔ ∃ e c₁ t,
    t.kind = .newline ∧ Expr.Derives g (.expr .default e) c c₁ ∧
    Gives (parseTail g c.current.span e c₁) s (c'.push t) := by
  rw [parseSimple]
  simp only [gives_bind, gives_below, gives_within, Cursor.gives_take, gives_pure, exists_prop,
    Expr.gives_parse_iff]
  constructor
  · rintro ⟨e, c₁, he, s', _, hs, t, _, ⟨hk, rfl⟩, rfl, rfl⟩
    exact ⟨e, c₁, t, hk, he, hs⟩
  · rintro ⟨e, c₁, t, hk, he, hs⟩
    exact ⟨e, c₁, he, s, _, hs, t, c', ⟨hk, rfl⟩, rfl, rfl⟩

theorem derives_of_parseSimple (hf : g.stmtForm c.kind = none) (h : Gives (parseSimple g c) s c') :
    Derives g (.stmt s) c c' := by
  obtain ⟨e, c₁, t, hk, he, hs⟩ := gives_parseSimple.1 h
  by_cases ht : c₁.kind = .assignment
  · obtain ⟨c₀, hc⟩ := Cursor.exists_push_of_kind ht (by decide)
    rw [hc] at hs he
    obtain ⟨ts, v, hts, hall, rfl⟩ := (gives_parseTail_assign ht).1 hs
    exact .assign hf hk hall (.target ht he hts)
  · cases hop : Operator.ofAugmented? c₁.kind with
    | none =>
      obtain ⟨rfl, rfl⟩ := (gives_parseTail_expression ht hop).1 hs
      exact .expression hf hk he
    | some op =>
      obtain ⟨c₀, hc⟩ := Cursor.exists_push_of_kind (c := c₁) rfl (by
        intro hk
        rw [hk] at hop
        cases hop)
      rw [hc] at hs he
      obtain ⟨hass, v, hv, rfl⟩ := (gives_parseTail_augAssign hop).1 hs
      exact .augAssign hf hop hk hass he hv

/-! ### Statements with a word of their own -/

theorem gives_parseReturn : Gives (parseReturn g c) s c' ↔ ∃ t t' c₁, t'.kind = .newline ∧
    c = Cursor.push t c₁ ∧ ((c₁ = c'.push t' ∧ s = .ret none t.span) ∨
      (c₁.kind ≠ .newline ∧ ∃ e, Expr.Derives g (.expr .default e) c₁ (c'.push t') ∧
        s = .ret (some e) (t.span.through e.span))) := by
  rw [parseReturn]
  simp only [gives_bind, Cursor.gives_shift]
  constructor
  · rintro ⟨t, c₁, hc, h⟩
    split at h
    · simp only [gives_bind, gives_below, Cursor.gives_take, gives_pure, exists_prop] at h
      obtain ⟨t', _, ⟨hk, hc₁⟩, rfl, rfl⟩ := h
      exact ⟨t, t', c₁, hk, hc, .inl ⟨hc₁, rfl⟩⟩
    · rename_i hn
      simp only [gives_bind, gives_below, Cursor.gives_take, gives_pure, exists_prop,
        Expr.gives_parse_iff] at h
      obtain ⟨e, _, he, t', _, ⟨hk, rfl⟩, rfl, rfl⟩ := h
      exact ⟨t, t', c₁, hk, hc, .inr ⟨hn, e, he, rfl⟩⟩
  · rintro ⟨t, t', c₁, hk, hc, ⟨rfl, rfl⟩ | ⟨hn, e, he, rfl⟩⟩
    · refine ⟨t, _, hc, ?_⟩
      rw [if_pos (by rw [Cursor.kind_push, hk])]
      simp only [gives_bind, gives_below, Cursor.gives_take, gives_pure, exists_prop]
      exact ⟨t', c', ⟨hk, rfl⟩, trivial, rfl⟩
    · refine ⟨t, c₁, hc, ?_⟩
      rw [if_neg hn]
      simp only [gives_bind, gives_below, Cursor.gives_take, gives_pure, exists_prop,
        Expr.gives_parse_iff]
      exact ⟨e, _, he, t', c', ⟨hk, rfl⟩, rfl, rfl⟩

theorem gives_parseWhile : Gives (parseWhile g c) s c' ↔ ∃ t c₀ test c₁ body c₂ orelse,
    c = Cursor.push t c₀ ∧ Expr.Derives g (.expr .default test) c₀ c₁ ∧
    Gives (parseSuite g c₁) body c₂ ∧ Gives (parseElse g c₂) orelse c' ∧
    s = .whileLoop test body orelse (t.span.upTo c'.current.span) := by
  rw [parseWhile]
  simp only [gives_bind, gives_below, gives_within, Cursor.gives_shift, gives_pure, exists_prop,
    Expr.gives_parse_iff]
  constructor
  · rintro ⟨t, c₀, hc, test, c₁, ht, body, c₂, hb, orelse, _, ho, rfl, rfl⟩
    exact ⟨t, c₀, test, c₁, body, c₂, orelse, hc, ht, hb, ho, rfl⟩
  · rintro ⟨t, c₀, test, c₁, body, c₂, orelse, hc, ht, hb, ho, rfl⟩
    exact ⟨t, c₀, hc, test, c₁, ht, body, c₂, hb, orelse, c', ho, rfl, rfl⟩

theorem gives_parseIf : Gives (parseIf g c) s c' ↔ ∃ t c₀ test c₁ body c₂,
    c = Cursor.push t c₀ ∧ Expr.Derives g (.expr .default test) c₀ c₁ ∧
    Gives (parseSuite g c₁) body c₂ ∧
    ((c₂.kind = .elifWord ∧ ∃ next, Gives (parseIf g c₂) next c' ∧
      s = .ifThen test body [next] (t.span.upTo c'.current.span)) ∨
    (c₂.kind ≠ .elifWord ∧ ∃ orelse, Gives (parseElse g c₂) orelse c' ∧
      s = .ifThen test body orelse (t.span.upTo c'.current.span))) := by
  rw [parseIf]
  simp only [gives_bind, gives_below, Cursor.gives_shift, Expr.gives_parse_iff]
  constructor
  · rintro ⟨t, c₀, hc, test, c₁, ht, body, c₂, hb, h⟩
    refine ⟨t, c₀, test, c₁, body, c₂, hc, ht, hb, ?_⟩
    split at h
    · rename_i hk
      simp only [gives_bind, gives_below, gives_pure, exists_prop] at h
      obtain ⟨next, _, hn, rfl, rfl⟩ := h
      exact .inl ⟨hk, next, hn, rfl⟩
    · rename_i hk
      simp only [gives_bind, gives_within, gives_pure, exists_prop] at h
      obtain ⟨orelse, _, ho, rfl, rfl⟩ := h
      exact .inr ⟨hk, orelse, ho, rfl⟩
  · rintro ⟨t, c₀, test, c₁, body, c₂, hc, ht, hb, h⟩
    refine ⟨t, c₀, hc, test, c₁, ht, body, c₂, hb, ?_⟩
    obtain ⟨hk, next, hn, rfl⟩ | ⟨hk, orelse, ho, rfl⟩ := h
    · rw [if_pos hk]
      simp only [gives_bind, gives_below, gives_pure, exists_prop]
      exact ⟨next, c', hn, rfl, rfl⟩
    · rw [if_neg hk]
      simp only [gives_bind, gives_within, gives_pure, exists_prop]
      exact ⟨orelse, c', ho, rfl, rfl⟩

/-! ### Blocks -/

theorem gives_parseSuite : Gives (parseSuite g c) ss c' ↔ ∃ t c₀, t.kind = .colon ∧
    c = Cursor.push t c₀ ∧
    ((∃ t₁ t₂ t₃ c₁, t₁.kind = .newline ∧ t₂.kind = .indent ∧ t₃.kind = .dedent ∧
      c₀ = (Cursor.push t₂ c₁).push t₁ ∧ Gives (parseBlock g c₁) ss (c'.push t₃)) ∨
    (c₀.kind ≠ .newline ∧ ∃ s, Gives (parse g c₀) s c' ∧ ss = [s])) := by
  rw [parseSuite]
  simp only [gives_bind, Cursor.gives_take]
  constructor
  · rintro ⟨t, c₀, ⟨hk, hc⟩, h⟩
    refine ⟨t, c₀, hk, hc, ?_⟩
    split at h
    · rename_i hn
      simp only [gives_bind, gives_below, gives_within, Cursor.gives_shift, Cursor.gives_take,
        gives_pure, exists_prop] at h
      obtain ⟨t₁, _, rfl, t₂, c₁, ⟨h₂, rfl⟩, ss', _, hss, t₃, _, ⟨h₃, rfl⟩, rfl, rfl⟩ := h
      exact .inl ⟨t₁, t₂, t₃, c₁, hn, h₂, h₃, rfl, hss⟩
    · rename_i hn
      simp only [gives_bind, gives_below, gives_pure, exists_prop] at h
      obtain ⟨s, _, hs, rfl, rfl⟩ := h
      exact .inr ⟨hn, s, hs, rfl⟩
  · rintro ⟨t, c₀, hk, hc, ⟨t₁, t₂, t₃, c₁, h₁, h₂, h₃, rfl, hss⟩ | ⟨hn, s, hs, rfl⟩⟩
    · refine ⟨t, _, ⟨hk, hc⟩, ?_⟩
      rw [if_pos (by rw [Cursor.kind_push, h₁])]
      simp only [gives_bind, gives_below, gives_within, Cursor.gives_shift, Cursor.gives_take,
        gives_pure, exists_prop]
      exact ⟨t₁, _, rfl, t₂, c₁, ⟨h₂, rfl⟩, ss, _, hss, t₃, c', ⟨h₃, rfl⟩, rfl, rfl⟩
    · refine ⟨t, c₀, ⟨hk, hc⟩, ?_⟩
      rw [if_neg hn]
      simp only [gives_bind, gives_below, gives_pure, exists_prop]
      exact ⟨s, c', hs, rfl, rfl⟩

theorem gives_parseBlock : Gives (parseBlock g c) ss c' ↔
    (c.kind = .dedent ∧ ss = [] ∧ c' = c) ∨ (c.kind ≠ .dedent ∧ c.kind ≠ .eof ∧ ∃ s c₁ ss',
      Gives (parse g c) s c₁ ∧ Gives (parseBlock g c₁) ss' c' ∧ ss = s :: ss') := by
  rw [parseBlock]
  by_cases hk : c.kind = .dedent
  · simp [hk, gives_here]
  · by_cases he : c.kind = .eof
    · simp [he, Cursor.hasTokens, not_gives_error]
    · rw [if_neg hk, if_pos (by simp [Cursor.hasTokens, he])]
      simp only [hk, he, gives_weaken, gives_bind, gives_within, gives_pure, exists_prop, false_and,
        false_or, ne_eq, not_false_iff, true_and]
      constructor
      · rintro ⟨s, c₁, hs, ss', _, hss, rfl, rfl⟩
        exact ⟨s, c₁, ss', hs, hss, rfl⟩
      · rintro ⟨s, c₁, ss', hs, hss, rfl⟩
        exact ⟨s, c₁, hs, ss', c', hss, rfl, rfl⟩

theorem gives_parseElse : Gives (parseElse g c) ss c' ↔ (c.kind ≠ .elseWord ∧ ss = [] ∧ c' = c) ∨
    ∃ t c₀, t.kind = .elseWord ∧ c = Cursor.push t c₀ ∧ Gives (parseSuite g c₀) ss c' := by
  rw [parseElse]
  split
  · rename_i hk
    simp only [gives_weaken, gives_bind, gives_below, Cursor.gives_shift, gives_pure, exists_prop,
      hk, ne_eq, not_true_eq_false, false_and, false_or]
    constructor
    · rintro ⟨t, c₀, rfl, ss', _, hss, rfl, rfl⟩
      exact ⟨t, c₀, hk, rfl, hss⟩
    · rintro ⟨t, c₀, -, hc, hss⟩
      exact ⟨t, c₀, hc, ss, c', hss, rfl, rfl⟩
  · rename_i hk
    rw [gives_here]
    constructor
    · exact fun h => .inl ⟨hk, h⟩
    · rintro (⟨-, h⟩ | ⟨t, c₀, ht, rfl, -⟩)
      · exact h
      · exact absurd ht hk

/-! ### Rules and readers agree -/

variable {p : Phrase}

theorem gives_parse_simple (hf : g.stmtForm c.kind = none) :
    Gives (parse g c) s c' ↔ Gives (parseSimple g c) s c' := by
  rw [parse, hf]

theorem gives_parse_form {form : StmtForm} (hf : g.stmtForm c.kind = some form) :
    Gives (parse g c) s c' ↔ Gives (match form with
      | .ifThen => parseIf g c
      | .whileLoop => parseWhile g c
      | .ret => parseReturn g c) s c' := by
  cases form <;> rw [parse, hf]

/-- What is derived is read. -/
theorem Derives.given (h : Derives g p c c') : p.Given g c c' := by
  induction h with
  | assign hf hk hall h =>
    cases h with
    | target ht he h =>
      exact (gives_parse_simple hf).2 (gives_parseSimple.2
        ⟨_, _, _, hk, he, (gives_parseTail_assign ht).2 ⟨_, _, h, hall, rfl⟩⟩)
  | augAssign hf hop hk hass he hv =>
    exact (gives_parse_simple hf).2 (gives_parseSimple.2
      ⟨_, _, _, hk, he, (gives_parseTail_augAssign hop).2 ⟨hass, _, hv, rfl⟩⟩)
  | expression hf hk he =>
    refine (gives_parse_simple hf).2 (gives_parseSimple.2 ⟨_, _, _, hk, he, ?_⟩)
    refine (gives_parseTail_expression ?_ ?_).2 ⟨rfl, rfl⟩ <;> rw [Cursor.kind_push, hk]
    · decide
    · rfl
  | retNone hf hk =>
    refine (gives_parse_form (c := Cursor.push _ _) hf).2 ?_
    exact gives_parseReturn.2 ⟨_, _, _, hk, rfl, .inl ⟨rfl, rfl⟩⟩
  | retSome hf hn hk he =>
    refine (gives_parse_form (c := Cursor.push _ _) hf).2 ?_
    exact gives_parseReturn.2 ⟨_, _, _, hk, rfl, .inr ⟨hn, _, he, rfl⟩⟩
  | whileLoop hf ht _ _ hb ho =>
    refine (gives_parse_form (c := Cursor.push _ _) hf).2 ?_
    exact gives_parseWhile.2 ⟨_, _, _, _, _, _, _, rfl, ht, hb, ho, rfl⟩
  | conditional hf _ h => exact (gives_parse_form hf).2 h
  | ifThen hk ht _ _ hb ho =>
    exact gives_parseIf.2 ⟨_, _, _, _, _, _, rfl, ht, hb, .inr ⟨hk, _, ho, rfl⟩⟩
  | ifElif hk ht _ _ hb hn =>
    exact gives_parseIf.2 ⟨_, _, _, _, _, _, rfl, ht, hb, .inl ⟨hk, _, hn, rfl⟩⟩
  | suiteBlock hk h₁ h₂ h₃ _ h =>
    exact gives_parseSuite.2 ⟨_, _, hk, rfl, .inl ⟨_, _, _, _, h₁, h₂, h₃, rfl, h⟩⟩
  | suiteLine hk hn _ h => exact gives_parseSuite.2 ⟨_, _, hk, rfl, .inr ⟨hn, _, h, rfl⟩⟩
  | blockNil hk => exact gives_parseBlock.2 (.inl ⟨hk, rfl, rfl⟩)
  | blockCons hk he _ _ hs hss =>
    exact gives_parseBlock.2 (.inr ⟨hk, he, _, _, _, hs, hss, rfl⟩)
  | orelseNil hk => exact gives_parseElse.2 (.inl ⟨hk, rfl, rfl⟩)
  | orelseSuite hk _ h => exact gives_parseElse.2 (.inr ⟨_, _, hk, rfl, h⟩)

/-- The order in which the readers call each other at one cursor. -/
def Phrase.weight : Phrase → Nat
  | .stmt _ => 1
  | .block _ => 2
  | _ => 0

/-- The phrases that begin where `p` begins and are asked for by its reader, and all phrases
that begin later, are derived if they are given. -/
def Phrase.Below (g : Grammar) (p : Phrase) (c : Cursor) : Prop :=
  ∀ p₁ c₁ c₂, 4 * c₁.size + p₁.weight < 4 * c.size + p.weight → p₁.Given g c₁ c₂ →
    Derives g p₁ c₁ c₂

theorem Phrase.Below.later {p₁ : Phrase} {c₁ c₂ : Cursor} (ih : p.Below g c)
    (hc : c₁.size < c.size) (h : p₁.Given g c₁ c₂) : Derives g p₁ c₁ c₂ := by
  have : p₁.weight ≤ 2 := by cases p₁ <;> simp [weight]
  exact ih _ _ _ (by omega) h

theorem derives_stmt (h : Gives (parse g c) s c') (ih : (Phrase.stmt s).Below g c) :
    Derives g (.stmt s) c c' := by
  cases hf : g.stmtForm c.kind with
  | none => exact derives_of_parseSimple hf ((gives_parse_simple hf).1 h)
  | some form =>
    rw [gives_parse_form hf] at h
    cases form with
    | ifThen => exact .conditional hf (ih (.conditional s) _ _ (by simp [Phrase.weight]) h)
    | whileLoop =>
      obtain ⟨t, c₀, test, c₁, body, c₂, orelse, rfl, ht, hb, ho, rfl⟩ := gives_parseWhile.1 h
      have hlt₁ := (Expr.gives_parse_iff.2 ht).size_lt
      have hlt₂ := hb.size_lt
      exact .whileLoop hf ht (ih.later (by simp; omega) hb) (ih.later (by simp; omega) ho)
    | ret =>
      obtain ⟨t, t', c₁, hk, rfl, ⟨rfl, rfl⟩ | ⟨hn, e, he, rfl⟩⟩ := gives_parseReturn.1 h
      · exact .retNone hf hk
      · exact .retSome hf hn hk he

/-- If every phrase that a reader asks for is derived, so is the one that it gives. -/
theorem Phrase.Given.derives_step (h : p.Given g c c') (ih : p.Below g c) : Derives g p c c' := by
  cases p with
  | stmt s => exact derives_stmt h ih
  | conditional s =>
    obtain ⟨t, c₀, test, c₁, body, c₂, rfl, ht, hb, h⟩ := gives_parseIf.1 h
    have hlt₁ := (Expr.gives_parse_iff.2 ht).size_lt
    have hlt₂ := hb.size_lt
    obtain ⟨hk, next, hn, rfl⟩ | ⟨hk, orelse, ho, rfl⟩ := h
    · exact .ifElif hk ht (ih.later (by simp; omega) hb) (ih.later (by simp; omega) hn)
    · exact .ifThen hk ht (ih.later (by simp; omega) hb) (ih.later (by simp; omega) ho)
  | suite ss =>
    obtain ⟨t, c₀, hk, rfl, ⟨t₁, t₂, t₃, c₁, h₁, h₂, h₃, rfl, hss⟩ | ⟨hn, s, hs, rfl⟩⟩ :=
      gives_parseSuite.1 h
    · exact .suiteBlock hk h₁ h₂ h₃ (ih.later (by simp; omega) hss)
    · exact .suiteLine hk hn (ih.later (by simp) hs)
  | block ss =>
    obtain ⟨hk, rfl, rfl⟩ | ⟨hk, he, s, c₁, ss', hs, hss, rfl⟩ := gives_parseBlock.1 h
    · exact .blockNil hk
    · exact .blockCons hk he (ih (.stmt s) _ _ (by simp [weight]) hs) (ih.later hs.size_lt hss)
  | orelse ss =>
    obtain ⟨hk, rfl, rfl⟩ | ⟨t, c₀, hk, rfl, hss⟩ := gives_parseElse.1 h
    · exact .orelseNil hk
    · exact .orelseSuite hk (ih.later (by simp) hss)

/-- **A phrase is derived exactly if its reader gives it.** -/
theorem derives_iff : Derives g p c c' ↔ p.Given g c c' := by
  refine ⟨Derives.given, ?_⟩
  induction hn : 4 * c.size + p.weight using Nat.strongRecOn generalizing p c c' with
  | ind n ih =>
    subst hn
    exact fun h => h.derives_step fun p₁ c₁ c₂ hlt => ih _ hlt rfl

/-- What the reader of blocks behind a header gives. -/
theorem gives_parseSuite_iff : Gives (parseSuite g c) ss c' ↔ Derives g (.suite ss) c c' :=
  (derives_iff (p := .suite ss)).symm

end DefToC.Stmt
