import DefToC.Proofs.Syntax.Spans

/-!
# Reading goes forward

A reader that stands at some place of a row of tokens stops at a place of the same row, not in front
of the first one, and behind it if it has read something. So it never passes the end mark, and the
current token is always one of the row. The loops over functions and over types begin each round
further on than the one before. They stop on every row of tokens, after no more rounds than there
are tokens.
-/

namespace DefToC

/-! ### Places in a row -/

namespace Cursor

variable {tokens : List Token} {i : Nat} {c : Cursor}

/-- The cursor stands at place `i` of a row of tokens. -/
def IsAt (tokens : List Token) (i : Nat) (c : Cursor) : Prop := tokens.drop i = c.row

theorem isAt_append (front : List Token) (c : Cursor) : c.IsAt (front ++ c.row) front.length :=
  List.drop_left

theorem getElem?_row (c : Cursor) : c.row[0]? = some c.current := by
  obtain ⟨_ | ⟨t, ts⟩, v, s⟩ := c <;> rfl

theorem IsAt.getElem? (h : c.IsAt tokens i) : tokens[i]? = some c.current := by
  rw [← c.getElem?_row, ← h, List.getElem?_drop, Nat.add_zero]

theorem length_row (c : Cursor) : c.row.length = c.size + 1 := List.length_append

theorem size_le_of_row {c c' : Cursor} (h : c'.row <:+ c.row) : c'.size ≤ c.size := by
  have hlength := h.length_le
  rw [length_row, length_row] at hlength
  omega

end Cursor

namespace Reading

variable {α γ : Type} {n n' : Nat} {f : α → γ} {c c' : Cursor}

/-- The reading begins at place `i` of a row of tokens. It stops at a place of the row, which is
behind `i` if something is read. -/
def Progresses (tokens : List Token) (i : Nat) : Reading α n → Prop
  | .ok p => ∃ j, i < j ∧ j < tokens.length ∧ p.next.IsAt tokens j ∧
      tokens[j]? = some p.next.current
  | .error failure => ∃ j, i ≤ j ∧ j < tokens.length ∧ failure.cursor.IsAt tokens j ∧
      tokens[j]? = some failure.cursor.current

/-- A cursor that is left further on in the row stands at a place of it. -/
theorem exists_isAt (front : List Token) (h : c'.row <:+ c.row) :
    ∃ j, j = front.length + (c.size - c'.size) ∧ j < (front ++ c.row).length ∧
      c'.IsAt (front ++ c.row) j ∧ (front ++ c.row)[j]? = some c'.current := by
  have hsize := Cursor.size_le_of_row h
  obtain ⟨taken, htaken⟩ := h
  have htokens : front ++ c.row = (front ++ taken) ++ c'.row := by
    rw [List.append_assoc, htaken]
  have hlength := congrArg List.length htaken
  rw [List.length_append, Cursor.length_row, Cursor.length_row] at hlength
  have hplace : front.length + (c.size - c'.size) = (front ++ taken).length := by
    rw [List.length_append]
    omega
  have hat : c'.IsAt (front ++ c.row) (front.length + (c.size - c'.size)) := by
    rw [htokens, hplace]
    exact c'.isAt_append _
  obtain ⟨hlt, -⟩ := List.getElem?_eq_some_iff.1 hat.getElem?
  exact ⟨_, rfl, hlt, hat, hat.getElem?⟩

theorem Agrees.row_of_ok {b : Cursor} {r : Reading α n} {r' : Reading γ n'} {p : Parsed α n}
    (h : Agrees b f r r') (hp : r = .ok p) : p.next.row <:+ b.row := by
  cases h with
  | error => cases hp
  | ok _ _ hrow =>
    cases hp
    exact hrow

theorem Agrees.row_of_error {b : Cursor} {r : Reading α n} {r' : Reading γ n'} {failure : Failure}
    (h : Agrees b f r r') (hr : r = .error failure) : failure.cursor.row <:+ b.row := by
  cases h with
  | ok => cases hr
  | error _ _ hrow =>
    cases hr
    exact hrow

/-- A reader that takes tokens from `c` on goes forward in every row that `c` stands in. -/
theorem Agrees.progresses {r : Reading α c.size} {r' : Reading γ n'} (h : Agrees c f r r')
    (front : List Token) : r.Progresses (front ++ c.row) front.length := by
  cases h with
  | @ok p _ _ _ hrow =>
    obtain ⟨j, hj, hplace⟩ := exists_isAt front hrow
    have hsize := p.size_lt
    exact ⟨j, by omega, hplace⟩
  | error _ _ hrow =>
    obtain ⟨j, hj, hplace⟩ := exists_isAt front hrow
    exact ⟨j, by omega, hplace⟩

end Reading

open Reading

/-! ### Loops -/

/-- The loop over functions: from a cursor on it goes round so many times and stops at another
cursor with a result. -/
inductive Program.Loop (g : Grammar) :
    Cursor → Nat → Cursor → Except Error (List FunctionDef) → Prop where
  | done {c : Cursor} : c.skipNewlines.hasTokens = false → Loop g c 0 c.skipNewlines (.ok [])
  | stray {c : Cursor} : c.skipNewlines.hasTokens = true → c.skipNewlines.kind ≠ .defWord →
      Loop g c 0 c.skipNewlines
        (.error (c.skipNewlines.unexpectedDetailed "expected a function definition").error)
  | failed {c : Cursor} {failure : Failure} : c.skipNewlines.kind = .defWord →
      FunctionDef.parse g c.skipNewlines = .error failure →
      Loop g c 0 failure.cursor (.error failure.error)
  | round {c c' : Cursor} {p : Parsed FunctionDef c.skipNewlines.size} {n : Nat}
      {r : Except Error (List FunctionDef)} : c.skipNewlines.kind = .defWord →
      FunctionDef.parse g c.skipNewlines = .ok p → Loop g p.next n c' r →
      Loop g c (n + 1) c' (r.map (p.value :: ·))

/-- The loop over types with commas between them. -/
inductive TypeExpr.Loop (g : Grammar) :
    Cursor → Nat → Cursor → Except Error (List TypeExpr) → Prop where
  | done {c : Cursor} : c.hasTokens = false → Loop g c 0 c (.ok [])
  | failed {c : Cursor} {failure : Failure} : c.hasTokens = true →
      parse g .default c = .error failure → Loop g c 0 failure.cursor (.error failure.error)
  | stray {c : Cursor} {p : Parsed TypeExpr c.size} : c.hasTokens = true →
      parse g .default c = .ok p → p.next.kind ∉ [.comma, .newline, .eof] →
      Loop g c 0 p.next (.error p.next.unexpected.error)
  | comma {c c' : Cursor} {p : Parsed TypeExpr c.size} {n : Nat}
      {r : Except Error (List TypeExpr)} : c.hasTokens = true → parse g .default c = .ok p →
      p.next.kind = .comma → Loop g p.next.advance n c' r →
      Loop g c (n + 1) c' (r.map (p.value :: ·))
  | lineEnd {c c' : Cursor} {p : Parsed TypeExpr c.size} {n : Nat}
      {r : Except Error (List TypeExpr)} : c.hasTokens = true → parse g .default c = .ok p →
      p.next.kind ∈ [.newline, .eof] → Loop g p.next.skipNewlines n c' r →
      Loop g c (n + 1) c' (r.map (p.value :: ·))

theorem Traced.result_note_cons {α : Type} (event : Event) (a : α) (t : Traced Error (List α)) :
    (do
      Traced.note event
      let as ← t
      return a :: as : Traced Error (List α)).result = t.result.map (a :: ·) := by
  obtain ⟨_ | as, events⟩ := t <;> rfl

/-- The loop over functions stops on every row of tokens, and what it has read is what the program
is read as. -/
theorem Program.exists_loop (g : Grammar) (c : Cursor) :
    ∃ n c', Loop g c n c' (parseFunctions g c).result ∧ c'.row <:+ c.row ∧
      n + c'.size ≤ c.size := by
  fun_induction parseFunctions g c with
  | case1 c h =>
    exact ⟨0, _, .done (by simpa using h), c.row_skipNewlines,
      by simpa using c.skipNewlines_size_le⟩
  | case2 c h hk =>
    exact ⟨0, _, .stray (by simpa using h) hk, c.row_skipNewlines,
      by simpa using c.skipNewlines_size_le⟩
  | case3 c h hk failure hf =>
    have hrow := (agrees_parse_skipNewlines g c).row_of_error hf
    refine ⟨0, failure.cursor, .failed (Decidable.not_not.1 hk) hf, hrow, ?_⟩
    rw [Nat.zero_add]
    exact Cursor.size_le_of_row hrow
  | case4 c h hk f c₁ h₁ hf hle ih =>
    obtain ⟨n, c', hloop, hrow, hsize⟩ := ih
    rw [Traced.result_note_cons]
    have hrow₁ := (agrees_parse_skipNewlines g c).row_of_ok hf
    refine ⟨n + 1, c', .round (Decidable.not_not.1 hk) hf hloop, hrow.trans hrow₁, ?_⟩
    omega

theorem Program.result_parse (file : String) (tokens : List Token) :
    (parse file tokens).result.map functions =
      (parseFunctions .standard (.ofTokens file tokens)).result := by
  unfold parse
  generalize parseFunctions .standard (.ofTokens file tokens) = read
  obtain ⟨_ | fs, events⟩ := read <;> rfl

theorem cons_bind_eq_map {α : Type} (a : α) (x : Except Error (List α)) :
    (do return a :: (← x) : Except Error (List α)) = x.map (a :: ·) := by
  cases x <;> rfl

/-- The loop over types stops on every row of tokens. -/
theorem TypeExpr.exists_loop (g : Grammar) (c : Cursor) :
    ∃ n c', Loop g c n c' (parseList g c) ∧ c'.row <:+ c.row ∧ n + c'.size ≤ c.size := by
  have hagrees (c : Cursor) : Agrees c bare (parse g .default c) (parse g .default c.bare) :=
    agrees_parse .default c (List.suffix_refl _)
  fun_induction parseList g c with
  | case1 c h failure hf =>
    have hrow := (hagrees c).row_of_error hf
    refine ⟨0, failure.cursor, .failed h hf, hrow, ?_⟩
    rw [Nat.zero_add]
    exact Cursor.size_le_of_row hrow
  | case2 c h type c₁ h₁ hf hle hk hlt ih =>
    obtain ⟨n, c', hloop, hrow, hsize⟩ := ih
    rw [cons_bind_eq_map]
    have hrow₁ := (hagrees c).row_of_ok hf
    refine ⟨n + 1, c', .comma h hf hk hloop, hrow.trans (c₁.row_advance.trans hrow₁), ?_⟩
    omega
  | case3 c h type c₁ h₁ hf hle hk hend ih =>
    obtain ⟨n, c', hloop, hrow, hsize⟩ := ih
    rw [cons_bind_eq_map]
    have hrow₁ := (hagrees c).row_of_ok hf
    refine ⟨n + 1, c', .lineEnd h hf (by simpa using hend) hloop,
      hrow.trans (c₁.row_skipNewlines.trans hrow₁), ?_⟩
    omega
  | case4 c h type c₁ h₁ hf hle hk hend =>
    have hrow₁ := (hagrees c).row_of_ok hf
    refine ⟨0, c₁, .stray h hf (by simpa [hk] using hend), hrow₁, ?_⟩
    omega
  | case5 c h =>
    exact ⟨0, c, .done (by simpa using h), List.suffix_refl _, Nat.le_of_eq (Nat.zero_add _)⟩

/-! ### Every row of tokens -/

namespace Cursor

variable (file : String) (tokens : List Token)

/-- The row begins with the given tokens. An end mark is put behind them if they have none. -/
theorem isPrefix_row_ofTokens : tokens <+: (ofTokens file tokens).row := by
  unfold ofTokens
  split
  · rename_i h
    rw [List.getLast?_eq_none_iff.1 h]
    exact List.nil_prefix
  · rename_i last h
    split
    · rename_i heof
      obtain ⟨front, rfl⟩ := List.getLast?_eq_some_iff.1 h
      obtain ⟨kind, value, span⟩ := last
      obtain rfl : kind = .eof := heof
      rw [row, List.dropLast_concat]
      exact List.prefix_rfl
    · exact List.prefix_append _ _

theorem size_ofTokens_le : (ofTokens file tokens).size ≤ tokens.length := by
  unfold ofTokens
  split
  · exact Nat.zero_le _
  · split
    · exact (List.dropLast_sublist tokens).length_le
    · exact Nat.le_refl _

end Cursor

/-- **Reading goes forward and comes to an end.** Wherever the readers of expressions, types,
statements and functions stand in a row of tokens, they stop at a place of it, behind the first one
if they have read something. The loop over functions stops on every row of tokens, and the loop over
types on the tokens of every source. -/
theorem readers_progress :
    (∀ (front : List Token) (c : Cursor),
      (∀ power, (Expr.parse .standard power c).Progresses (front ++ c.row) front.length) ∧
      (∀ power, (TypeExpr.parse .standard power c).Progresses (front ++ c.row) front.length) ∧
      (Stmt.parse .standard c).Progresses (front ++ c.row) front.length ∧
      (Stmt.parseSuite .standard c).Progresses (front ++ c.row) front.length ∧
      (Stmt.parseIf .standard c).Progresses (front ++ c.row) front.length ∧
      (Stmt.parseWhile .standard c).Progresses (front ++ c.row) front.length ∧
      (Stmt.parseReturn .standard c).Progresses (front ++ c.row) front.length ∧
      (FunctionDef.parse .standard c).Progresses (front ++ c.row) front.length) ∧
    (∀ (file : String) (tokens : List Token), ∃ n c',
      Program.Loop .standard (.ofTokens file tokens) n c'
        ((Program.parse file tokens).result.map Program.functions) ∧
      n ≤ tokens.length ∧ tokens <+: (Cursor.ofTokens file tokens).row ∧
      c'.row <:+ (Cursor.ofTokens file tokens).row) ∧
    ∀ source : String,
      (∃ e, (scanSource "<types>" (String.ofList (trim source.toList))).result = .error e ∧
        (TypeExpr.readAll source).result = .error e) ∨
      ∃ tokens n c',
        (scanSource "<types>" (String.ofList (trim source.toList))).result = .ok tokens ∧
        TypeExpr.Loop .standard (Cursor.ofTokens "<types>" tokens).skipNewlines n c'
          (TypeExpr.readAll source).result ∧
        n ≤ tokens.length ∧ c'.row <:+ (Cursor.ofTokens "<types>" tokens).row := by
  refine ⟨fun front c => ?_, fun file tokens => ?_, fun source => ?_⟩
  · have hc := List.suffix_refl c.row
    exact ⟨fun power => (Expr.agrees_parse power c hc).progresses front,
      fun power => (TypeExpr.agrees_parse power c hc).progresses front,
      (Stmt.agrees_parse c hc).progresses front, (Stmt.agrees_parseSuite c hc).progresses front,
      (Stmt.agrees_parseIf c hc).progresses front, (Stmt.agrees_parseWhile c hc).progresses front,
      (Stmt.agrees_parseReturn hc).progresses front, (FunctionDef.agrees_parse hc).progresses front⟩
  · obtain ⟨n, c', hloop, hrow, hsize⟩ := Program.exists_loop .standard (.ofTokens file tokens)
    have htokens := Cursor.size_ofTokens_le file tokens
    rw [Program.result_parse]
    exact ⟨n, c', hloop, by omega, Cursor.isPrefix_row_ofTokens file tokens, hrow⟩
  · dsimp only [TypeExpr.readAll]
    generalize scanSource "<types>" (String.ofList (trim source.toList)) = scanned
    obtain ⟨e | tokens, events⟩ := scanned
    · exact .inl ⟨e, rfl, rfl⟩
    · obtain ⟨n, c', hloop, hrow, hsize⟩ :=
        TypeExpr.exists_loop .standard (Cursor.ofTokens "<types>" tokens).skipNewlines
      have htokens := Cursor.size_ofTokens_le "<types>" tokens
      have hskip := (Cursor.ofTokens "<types>" tokens).skipNewlines_size_le
      exact .inr ⟨tokens, n, c', rfl, hloop, by omega, hrow.trans (Cursor.row_skipNewlines _)⟩

end DefToC
