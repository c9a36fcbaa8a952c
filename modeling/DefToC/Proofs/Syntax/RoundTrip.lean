import DefToC.Proofs.Syntax.ProgramReadings
import DefToC.Proofs.Syntax.Spans
import DefToC.Proofs.Syntax.StmtRoundTrip
import Mathlib.Data.List.Forall2

/-!
# Reading undoes printing

Every program of the grammar's form is read from its printed tokens as itself, up to spans. The
parentheses that are printed are those that the levels of the operators ask for, so this is also
what the levels mean: `or` binds least, then `and`, `not`, the comparisons, `+` and `-`, the
operators of multiplication, the signs, and calls and subscripts most.
-/

namespace DefToC

open Cursor Reading

variable {c c₁ : Cursor}

/-! ### Types -/

namespace TypeExpr

/-- A printed type is read as itself, and the reader goes on behind it. -/
def Readable (a : TypeExpr) : Prop :=
  ∀ c c₁, Shows a.print c c₁ → ∃ a', a'.bare = a.bare ∧ ∀ r c',
    Gives (parseRest .standard .default a' c₁) r c' → Gives (parse .standard .default c) r c'

theorem Readable.closed {a : TypeExpr} (h : Readable a) (hs : Shows a.print c c₁)
    (hk : c₁.kind ≠ .openBracket) :
    ∃ a', a'.bare = a.bare ∧ Gives (parse .standard .default c) a' c₁ := by
  obtain ⟨a', hbare, hd⟩ := h _ _ hs
  exact ⟨a', hbare, hd _ _ ((gives_parseRest_stop hk).2 ⟨rfl, rfl⟩)⟩

theorem kind_of_gives_parse {a : TypeExpr} (h : Gives (parse .standard .default c) a c₁) :
    c.kind = .identifier := by
  obtain ⟨t, _, ht, rfl, -⟩ := gives_parse.1 h
  exact ht

theorem arguments_of_shows {as : List TypeExpr} (has : ∀ a ∈ as, Readable a)
    (hs : Shows (separated (.mark .comma) (as.map print)) c c₁) (hk : c₁.kind = .closeBracket) :
    ∃ as', as'.map bare = as.map bare ∧ Gives (parseArguments .standard c) as' c₁ := by
  have hne {a : TypeExpr} {c c₂ : Cursor} (h : Gives (parse .standard .default c) a c₂) :
      c.kind ≠ .closeBracket := by
    rw [kind_of_gives_parse h]
    decide
  refine separated_of_shows (R := fun a c c₁ => Gives (parse .standard .default c) a c₁)
    (L := fun as c c₁ => Gives (parseArguments .standard c) as c₁) ?_ ?_ ?_ ?_ hs hk
  · exact fun c hk => gives_parseArguments.2 (.inl ⟨hk, rfl, rfl⟩)
  · intro a c c₁ hk ha
    exact gives_parseArguments.2
      (.inr ⟨hne ha, a, .inr ⟨by rw [hk]; decide, hk, ha, rfl⟩⟩)
  · intro a as t c c₁ c₂ ht ha has
    exact gives_parseArguments.2 (.inr ⟨hne ha, a, .inl ⟨c₁, t, as, ht, ha, has, rfl⟩⟩)
  · intro a ha c c₁ hs hnext
    refine (has a ha).closed hs ?_
    obtain hk | hk := hnext <;> rw [hk] <;> decide

theorem readable (a : TypeExpr) : Readable a := by
  induction a with
  | name id position =>
    intro c c₁ hs
    obtain ⟨t, ⟨ht, rfl⟩, rfl⟩ := shows_singleton.1 hs
    exact ⟨.name t.value t.span.position, rfl, fun r c' h => gives_parse.2 ⟨t, c₁, ht, rfl, h⟩⟩
  | applied base as position hbase has =>
    intro c c₁ hs
    rw [print, printAll_eq_map, List.append_assoc, shows_append] at hs
    obtain ⟨c₂, hs₁, t, c₃, ht, rfl, hs⟩ := hs
    obtain ⟨c₄, hs₂, hclose⟩ := shows_append.1 hs
    obtain ⟨t', ht', rfl⟩ := shows_singleton.1 hclose
    obtain ⟨base', hbare, hd⟩ := hbase _ _ hs₁
    obtain ⟨as', hbares, hds⟩ := arguments_of_shows has hs₂ ht'
    exact ⟨.applied base' as' base'.position, by simp [bare, hbare, hbares], fun r c' h =>
      hd _ _ ((gives_parseRest_go ht).2 ⟨as', c₁, t', ht', hds, h⟩)⟩

end TypeExpr

/-! ### Functions -/

theorem Param.param_of_shows {p : Param} (hs : Shows p.print c c₁)
    (hk : c₁.kind = .comma ∨ c₁.kind = .closeParen) :
    ∃ p', p'.bare = p.bare ∧ Gives (Param.parse .standard c) p' c₁ := by
  obtain ⟨name, type, span⟩ := p
  obtain ⟨t, c₂, ⟨ht, rfl⟩, rfl, hs⟩ := hs
  obtain _ | a := type
  · obtain rfl : c₂ = c₁ := hs
    refine ⟨⟨t.value, none, t.span.upTo c₂.current.span⟩, rfl,
      Param.gives_parse.2 ⟨t, c₂, ht, rfl, .inl ⟨?_, rfl, rfl⟩⟩⟩
    obtain hk | hk := hk <;> rw [hk] <;> decide
  · obtain ⟨t', c₃, ht', rfl, hs⟩ := hs
    obtain ⟨a', hbare, ha⟩ := a.readable.closed hs (by obtain hk | hk := hk <;> rw [hk] <;> decide)
    exact ⟨⟨t.value, some a', _⟩, by simp [Param.bare, hbare],
      Param.gives_parse.2 ⟨t, _, ht, rfl, .inr ⟨t', c₃, a', ht', rfl, ha, rfl⟩⟩⟩

theorem Param.params_of_shows {ps : List Param}
    (hs : Shows (separated (.mark .comma) (ps.map Param.print)) c c₁)
    (hk : c₁.kind = .closeParen) :
    ∃ ps', ps'.map Param.bare = ps.map Param.bare ∧ Gives (Param.parseAll .standard c) ps' c₁ := by
  have hne {p : Param} {c c₂ : Cursor} (h : Gives (Param.parse .standard c) p c₂) :
      c.kind ≠ .closeParen := by
    obtain ⟨t, _, ht, rfl, -⟩ := Param.gives_parse.1 h
    rw [kind_push, ht]
    decide
  refine separated_of_shows (R := fun p c c₁ => Gives (Param.parse .standard c) p c₁)
    (L := fun ps c c₁ => Gives (Param.parseAll .standard c) ps c₁) ?_ ?_ ?_ ?_ hs hk
  · exact fun c hk => Param.gives_parseAll.2 (.inl ⟨hk, rfl, rfl⟩)
  · intro p c c₁ hk hp
    exact Param.gives_parseAll.2 (.inr ⟨hne hp, p, .inr ⟨by rw [hk]; decide, hk, hp, rfl⟩⟩)
  · intro p ps t c c₁ c₂ ht hp hps
    exact Param.gives_parseAll.2 (.inr ⟨hne hp, p, .inl ⟨c₁, t, ps, ht, hp, hps, rfl⟩⟩)
  · exact fun p _ c c₁ hs hnext => Param.param_of_shows hs hnext

namespace FunctionDef

theorem returns_of_shows {r : Option TypeExpr}
    (hs : Shows (r.elim [] fun type => .mark .arrow :: type.print) c c₁) (hk : c₁.kind = .colon) :
    ∃ r', r'.map TypeExpr.bare = r.map TypeExpr.bare ∧ Gives (parseReturns .standard c) r' c₁ := by
  obtain _ | a := r
  · obtain rfl : c = c₁ := hs
    exact ⟨none, rfl, gives_parseReturns.2 (.inl ⟨by rw [hk]; decide, rfl, rfl⟩)⟩
  · obtain ⟨t, c₂, ht, rfl, hs⟩ := hs
    obtain ⟨a', hbare, ha⟩ := a.readable.closed hs (by rw [hk]; decide)
    exact ⟨some a', by simp [hbare], gives_parseReturns.2 (.inr ⟨t, c₂, a', ht, rfl, ha, rfl⟩)⟩

/-- A printed function is read as itself. -/
theorem function_of_shows {f : FunctionDef} (hf : ∀ s ∈ f.body, s.Shaped Literal.Printable)
    (hs : Shows f.print c c₁) : ∃ f', f'.bare = f.bare ∧ Gives (parse .standard c) f' c₁ := by
  obtain ⟨c₃, hhead, hbody⟩ := shows_append.1 hs
  obtain ⟨c₂, hparams, hreturns⟩ := shows_append.1 hhead
  obtain ⟨t₀, _, h₀, rfl, t₁, _, ⟨h₁, hname⟩, rfl, t₂, c₄, h₂, rfl, hparams⟩ := hparams
  obtain ⟨t₃, c₅, h₃, rfl, hreturns⟩ := hreturns
  have hcolon : c₃.kind = .colon := by
    obtain ⟨t, _, ht, rfl, -⟩ := hbody
    exact ht
  obtain ⟨params, hbarep, hp⟩ := Param.params_of_shows hparams h₃
  obtain ⟨returns, hbarer, hr⟩ := returns_of_shows hreturns hcolon
  obtain ⟨body, hbareb, hb⟩ := Stmt.suite_of_shows (fun s hs => (hf s hs).readable) hbody
  refine ⟨⟨t₁.value, params, returns, body, t₀.span.upTo c₁.current.span⟩, ?_, gives_parse.2
    ⟨t₀, t₁, t₂, t₃, c₄, c₅, c₃, params, returns, body, h₀, h₁, h₂, h₃, rfl, hp, hr, hb, rfl⟩⟩
  simp only [bare, hname, hbarep, hbarer, hbareb]

end FunctionDef

/-! ### Programs -/

namespace Program

theorem skipNewlines_eq_self (h : c.kind ≠ .newline) : c.skipNewlines = c := by
  obtain ⟨_ | ⟨t, ts⟩, v, span⟩ := c
  · rfl
  · have ht : t.kind ≠ .newline := h
    simp [Cursor.skipNewlines, ht]

theorem functions_of_shows {fs : List FunctionDef}
    (hfs : ∀ f ∈ fs, ∀ s ∈ f.body, s.Shaped Literal.Printable)
    (hs : Shows (fs.flatMap FunctionDef.print) c c₁) (hk : c₁.kind = .eof) :
    ∃ fs', fs'.map FunctionDef.bare = fs.map FunctionDef.bare ∧
      (parseFunctions .standard c).result = .ok fs' := by
  induction fs generalizing c with
  | nil =>
    obtain rfl : c = c₁ := hs
    refine ⟨[], rfl, parseFunctions_eq_ok.2 (.inl ⟨?_, rfl⟩)⟩
    rw [skipNewlines_eq_self (by rw [hk]; decide), hk]
  | cons f fs ih =>
    rw [List.flatMap_cons, shows_append] at hs
    obtain ⟨c₂, hf, hs⟩ := hs
    have hdef : c.kind ≠ .newline := by
      obtain ⟨t, _, ht, rfl, -⟩ := hf
      rw [kind_push, ht]
      decide
    obtain ⟨f', hbare, hf'⟩ := FunctionDef.function_of_shows (hfs f List.mem_cons_self) hf
    obtain ⟨fs', hbares, hfs'⟩ := ih (fun f hf => hfs f (List.mem_cons_of_mem _ hf)) hs
    refine ⟨f' :: fs', by simp [hbare, hbares],
      parseFunctions_eq_ok.2 (.inr ⟨f', c₂, fs', ?_, hfs', rfl⟩)⟩
    rwa [skipNewlines_eq_self hdef]

theorem shows_of_forall₂ {ts : List Token} {xs : List Lexeme} (h : List.Forall₂ Token.Is ts xs)
    (c : Cursor) : Shows xs { c with pending := ts ++ c.pending } c := by
  induction h with
  | nil => rfl
  | cons ht _ ih => exact ⟨_, _, ht, rfl, ih⟩

theorem ofTokens_concat_eof (file : String) (ts : List Token) {t : Token} (ht : t.kind = .eof) :
    ofTokens file (ts ++ [t]) = ⟨ts, t.value, t.span⟩ := by
  simp [ofTokens, ht]

/-- A printed program is read as itself, up to spans, in front of any end mark. -/
theorem parse_of_forall₂ {p : Program} (hp : p.Shaped Literal.Printable) (file : String)
    {ts : List Token} {t : Token} (ht : t.kind = .eof)
    (hts : List.Forall₂ Token.Is ts (p.functions.flatMap FunctionDef.print)) :
    ∃ p', (parse file (ts ++ [t])).result = .ok p' ∧ p'.bare = p.bare := by
  have hshows := shows_of_forall₂ hts ⟨[], t.value, t.span⟩
  rw [List.append_nil] at hshows
  obtain ⟨fs, hbares, hfs⟩ := functions_of_shows hp hshows rfl
  refine ⟨⟨fs⟩, ?_, by simp only [bare, hbares]⟩
  rw [parse, ofTokens_concat_eof file ts ht]
  exact Traced.bind_result_eq_ok.2 ⟨fs, hfs, rfl⟩

theorem forall₂_token_is (xs : List Lexeme) : List.Forall₂ Token.Is (xs.map Lexeme.token) xs :=
  List.forall₂_map_left_iff.2 (List.forall₂_same.2 fun x _ => x.token_is)

/-- A program without spans is read as itself. -/
theorem parse_tokens {p : Program} (hp : p.Shaped Literal.Printable) (hbare : p.bare = p)
    (file : String) : (parse file (p.print.map Lexeme.token)).result = .ok p := by
  rw [print, List.map_append, List.map_singleton]
  have heof : (Lexeme.mark .eof).token.kind = .eof := rfl
  obtain ⟨p', hparse, hp'⟩ := parse_of_forall₂ hp file heof (forall₂_token_is _)
  have htoken (x : Lexeme) : x.token.bare = x.token := by cases x <;> rfl
  have hread := bare_of_parse ?_ hparse
  · rwa [← hread, hp', hbare] at hparse
  · rw [ofTokens_concat_eof file _ heof]
    simp only [Cursor.bare, List.map_map, Function.comp_def, htoken]
    rfl

/-- **Reading undoes printing.** Whatever the spans of the tokens are, and whatever the texts of
those that are neither names nor numbers, a printed program is read as itself, up to spans. -/
theorem parse_print {p : Program} (hp : p.Shaped Literal.Printable) (file : String)
    {tokens : List Token} (ht : List.Forall₂ Token.Is tokens p.print) :
    ∃ p', (parse file tokens).result = .ok p' ∧ p'.bare = p.bare := by
  obtain ⟨ts, t, htoken, rfl, hts⟩ : ∃ ts t, t.kind = .eof ∧ tokens = ts ++ [t] ∧
      List.Forall₂ Token.Is ts (p.functions.flatMap FunctionDef.print) := by
    have hfront := List.forall₂_take_append _ _ _ ht
    have hback := List.forall₂_drop_append _ _ _ ht
    obtain ⟨t, _, htoken, hnil, heq⟩ := List.forall₂_cons_right_iff.1 hback
    rw [List.forall₂_nil_right_iff.1 hnil] at heq
    refine ⟨_, t, htoken, ?_, hfront⟩
    rw [← heq, List.take_append_drop]
  exact parse_of_forall₂ hp file htoken hts

/-- A function whose loop needs some parentheses and has no use for others:
`while not n < 10 <= n or (m or n) and m: a[n - (m - 1)] = m = (m + 2) * -n // 2 ...`. -/
def countdown : Program :=
  let n : Expr := .name "n" .nowhere
  let m : Expr := .name "m" .nowhere
  let int (k : Int) : Expr := .constant (.int k) .nowhere
  let binary (l : Expr) (op : Operator) (r : Expr) : Expr := .binary l op r .nowhere
  ⟨[⟨"countdown", [⟨"a", some (.applied (.name "list" ⟨"", 0⟩) [.name "int" ⟨"", 0⟩] ⟨"", 0⟩),
      .nowhere⟩, ⟨"n", none, .nowhere⟩], some (.name "int" ⟨"", 0⟩),
    [.whileLoop
      (.boolOp .or [.unary .not (.compare n [.lt, .ltE] [int 10, n] .nowhere) .nowhere,
        .boolOp .and [.boolOp .or [m, n] .nowhere, m] .nowhere] .nowhere)
      [.assign [.subscript (.name "a" .nowhere) (binary n .sub (binary m .sub (int 1))) .nowhere, m]
        (binary (binary (binary m .add (int 2)) .mult (.unary .minus n .nowhere)) .floorDiv (int 2))
        .nowhere]
      [.ret (some (.constant (.float ⟨false, 4612811918334230528⟩) .nowhere)) .nowhere]
      .nowhere], .nowhere⟩]⟩

theorem parse_print_countdown : countdown.Shaped Literal.Printable ∧
    ∃ p', (parse "countdown.py" (countdown.print.map Lexeme.token)).result = .ok p' ∧
      p'.bare = countdown.bare := by
  have hshaped : countdown.Shaped Literal.Printable := by
    refine List.forall_mem_singleton.2 (List.forall_mem_singleton.2 (.whileLoop ?_ ?_ ?_))
    · refine .boolOp (by decide) (by decide) ?_
      refine List.forall_mem_cons.2 ⟨.unary (by decide) ?_, List.forall_mem_singleton.2 ?_⟩
      · refine .compare (by decide) rfl (by decide) .name ?_
        exact List.forall_mem_cons.2 ⟨.constant (by decide), List.forall_mem_singleton.2 .name⟩
      · refine .boolOp (by decide) (by decide) ?_
        refine List.forall_mem_cons.2 ⟨.boolOp (by decide) (by decide) ?_, ?_⟩
        · exact List.forall_mem_cons.2 ⟨.name, List.forall_mem_singleton.2 .name⟩
        · exact List.forall_mem_singleton.2 .name
    · refine List.forall_mem_singleton.2 (.assign (by decide) (by decide) ?_ ?_)
      · refine List.forall_mem_cons.2 ⟨.subscript .name (.binary rfl .name ?_), ?_⟩
        · exact .binary rfl .name (.constant (by decide))
        · exact List.forall_mem_singleton.2 .name
      · refine .binary rfl (.binary rfl (.binary rfl .name ?_) (.unary (by decide) .name)) ?_
        · exact .constant (by decide)
        · exact .constant (by decide)
    · exact List.forall_mem_singleton.2 (.ret fun e he => by
        cases he
        exact .constant (by decide))
  exact ⟨hshaped, parse_print hshaped "countdown.py" (forall₂_token_is _)⟩

end Program

end DefToC
