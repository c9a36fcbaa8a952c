import DefToC.Proofs.Number.ReadBack
import DefToC.Source.Line
import DefToC.Token.Scan
import Mathlib.Data.List.Basic
import Mathlib.Data.List.TakeWhile

/-!
# What a lexeme leaves

A lexeme is a piece of text that a pattern of the table takes. `Scanner.Leaves` says by cases what
the scanner does with it: separators, comments and joined lines leave nothing, a line end leaves a
token if it closes a logical line, and everything else leaves one token with the lexeme as its
value. `Scanner.leaves_take` shows that these are all cases, so later proofs look neither into the
table nor at the lengths that the patterns count.
-/

namespace DefToC

/-! ### Spellings of tokens -/

/-- The number of open brackets behind a token. Where none is open, a closing bracket is ignored. -/
def TokenKind.nest (kind : TokenKind) (depth : Nat) : Nat :=
  match kind with
  | .openBracket | .openParen => depth + 1
  | .closeBracket | .closeParen => depth - 1
  | _ => depth

theorem isWordPart_of_isWordStart {c : Char} (h : isWordStart c = true) : isWordPart c = true := by
  simp only [isWordStart, isWordPart, Char.isAlphanum, Bool.or_eq_true] at h ⊢
  exact h.imp_left .inl

theorem not_isDigit_of_isWordStart {c : Char} (h : isWordStart c = true) : c.isDigit = false := by
  by_contra hd
  obtain ⟨hlow, hhigh⟩ := Char.isDigit_iff_toNat.1 (eq_true_of_ne_false hd)
  have hdigits : ∀ n ≤ 57, 48 ≤ n → isWordStart (Char.ofNat n) = false := by decide
  have hnot := hdigits c.toNat hhigh hlow
  rw [Char.ofNat_toNat, h] at hnot
  cases hnot

theorem toNat_le_of_isWordPart {c : Char} (h : isWordPart c = true) : c.toNat ≤ 122 := by
  have hclasses : (((c.isUpper || c.isLower) || c.isDigit) || c == '_') = true := h
  simp only [Bool.or_eq_true, beq_iff_eq] at hclasses
  rcases hclasses with ((h | h) | h) | rfl
  · exact (UInt32.le_iff_toNat_le.1 (of_decide_eq_true h).2).trans (by decide)
  · have hlast := of_decide_eq_true (Bool.and_eq_true_iff.1 h).2
    exact (UInt32.le_iff_toNat_le.1 hlast).trans (by decide)
  · exact (Char.isDigit_iff_toNat.1 h).2.trans (by decide)
  · decide

theorem not_isBlank_of_isWordPart {c : Char} (h : isWordPart c = true) : isBlank c = false := by
  have hle := toNat_le_of_isWordPart h
  have hall : ∀ n ≤ 122, isWordPart (Char.ofNat n) = true → isBlank (Char.ofNat n) = false := by
    decide
  rw [← c.ofNat_toNat] at h ⊢
  exact hall _ hle h

/-- The texts of names. -/
def IsName (cs : List Char) : Prop :=
  ∃ c cs', cs = c :: cs' ∧ isWordStart c = true ∧ ∀ d ∈ cs', isWordPart d = true

/-- The texts that tokens of a kind can have. -/
inductive TokenKind.Spelled : TokenKind → List Char → Prop where
  | word {c : Char} {cs : List Char} : isWordStart c = true → (∀ d ∈ cs, isWordPart d = true) →
      Spelled (.ofWord (String.ofList (c :: cs))) (c :: cs)
  | number {cs : List Char} {d : Decimal} : Decimal.IsWritten cs d → Spelled .number cs
  | opening {c : Char} {kind : TokenKind} : .opening c kind ∈ Pattern.table → Spelled kind [c]
  | closing {c : Char} {kind : TokenKind} : .closing c kind ∈ Pattern.table → Spelled kind [c]
  | mark {text : String} {kind : TokenKind} : .mark text kind ∈ Pattern.table →
      Spelled kind text.toList

/-- A word is a name or has a kind of its own. -/
theorem TokenKind.ofWord_mem (word : String) :
    ofWord word ∈ identifier :: reserved.map Prod.snd := by
  unfold ofWord
  cases h : reserved.lookup word with
  | none => exact List.mem_cons_self
  | some kind =>
    obtain ⟨front, back, heq, -⟩ := List.lookup_eq_some_iff.1 h
    have hmem : (word, kind) ∈ reserved := by simp [heq]
    exact List.mem_cons_of_mem _ (List.mem_map_of_mem hmem)

namespace Pattern

/-- The brackets have the kinds of brackets. The marks are neither brackets nor layout, and are told
from words and numbers. -/
def kindFits : Pattern → Bool
  | opening _ kind => kind ∈ [.openBracket, .openParen]
  | closing _ kind => kind ∈ [.closeBracket, .closeParen]
  | mark _ kind => kind ∉ [.openBracket, .openParen, .closeBracket, .closeParen, .newline, .indent,
      .dedent, .eof, .number, .identifier]
  | _ => true

theorem kindFits_of_mem {p : Pattern} (h : p ∈ table) : p.kindFits = true := by
  have hall : table.all kindFits = true := by decide
  exact List.all_eq_true.1 hall p h

theorem kind_of_opening {c : Char} {kind : TokenKind} (h : opening c kind ∈ table) :
    kind = .openBracket ∨ kind = .openParen := by
  simpa [kindFits] using kindFits_of_mem h

theorem kind_of_closing {c : Char} {kind : TokenKind} (h : closing c kind ∈ table) :
    kind = .closeBracket ∨ kind = .closeParen := by
  simpa [kindFits] using kindFits_of_mem h

theorem kind_of_mark {text : String} {kind : TokenKind} (h : mark text kind ∈ table) :
    kind ∉ [.openBracket, .openParen, .closeBracket, .closeParen, .newline, .indent, .dedent, .eof,
      .number, .identifier] :=
  of_decide_eq_true (kindFits_of_mem h)

end Pattern

namespace TokenKind

variable {kind : TokenKind} {cs : List Char}

theorem Spelled.ne_nil (h : kind.Spelled cs) : cs ≠ [] := by
  cases h with
  | number hd =>
    obtain ⟨c, cs, rfl, -⟩ := hd.isDigit
    exact List.cons_ne_nil c cs
  | mark hp => exact Pattern.mark_ne_nil hp
  | _ => simp

/-- No layout and no end has a text. -/
theorem Spelled.visible (h : kind.Spelled cs) : kind.isLayout = false ∧ kind ≠ .eof := by
  cases h with
  | @word c cs _ _ =>
    have hall : ∀ kind ∈ identifier :: reserved.map Prod.snd,
        kind.isLayout = false ∧ kind ≠ .eof := by decide
    exact hall _ (ofWord_mem _)
  | number _ => decide
  | opening hp => rcases Pattern.kind_of_opening hp with rfl | rfl <;> decide
  | closing hp => rcases Pattern.kind_of_closing hp with rfl | rfl <;> decide
  | mark hp =>
    have hkind := Pattern.kind_of_mark hp
    cases kind <;> simp_all [isLayout]

/-- A token is a name or a reserved word, a number, or neither. -/
theorem Spelled.word_or_number (h : kind.Spelled cs) :
    (kind ≠ .number ∧ IsName cs) ∨ (kind = .number ∧ ∃ d, Decimal.IsWritten cs d) ∨
      kind ∉ [.number, .identifier] := by
  cases h with
  | word hc hcs =>
    have hall : ∀ kind ∈ identifier :: reserved.map Prod.snd, kind ≠ .number := by decide
    exact .inl ⟨hall _ (ofWord_mem _), _, _, rfl, hc, hcs⟩
  | number hd => exact .inr (.inl ⟨rfl, _, hd⟩)
  | opening hp => rcases Pattern.kind_of_opening hp with rfl | rfl <;> exact .inr (.inr (by decide))
  | closing hp => rcases Pattern.kind_of_closing hp with rfl | rfl <;> exact .inr (.inr (by decide))
  | mark hp =>
    refine .inr (.inr fun hmem => Pattern.kind_of_mark hp ?_)
    exact List.mem_of_mem_drop (i := 8) hmem

theorem Spelled.isName (h : TokenKind.identifier.Spelled cs) : IsName cs := by
  rcases h.word_or_number with ⟨-, hname⟩ | ⟨hnumber, -⟩ | hmark
  · exact hname
  · cases hnumber
  · exact absurd (by decide) hmark

theorem Spelled.isWritten (h : TokenKind.number.Spelled cs) : ∃ d, Decimal.IsWritten cs d := by
  rcases h.word_or_number with ⟨hword, -⟩ | ⟨-, hwritten⟩ | hmark
  · exact absurd rfl hword
  · exact hwritten
  · exact absurd (by decide) hmark

/-- Only brackets change the number of open brackets. -/
theorem nest_eq_self {depth : Nat}
    (h : kind ∉ [openBracket, openParen, closeBracket, closeParen]) : kind.nest depth = depth := by
  unfold nest
  split
  · exact absurd h (by decide)
  · exact absurd h (by decide)
  · exact absurd h (by decide)
  · exact absurd h (by decide)
  · rfl

theorem nest_ofWord (word : String) (depth : Nat) : (ofWord word).nest depth = depth := by
  have hall : ∀ kind ∈ TokenKind.identifier :: reserved.map Prod.snd,
      kind ∉ [openBracket, openParen, closeBracket, closeParen] := by decide
  exact nest_eq_self (hall _ (ofWord_mem word))

end TokenKind

/-! ### Lengths of lexemes -/

namespace Pattern

variable {cs lexeme rest : List Char} {n : Nat}

/-- A fraction is nothing, or a point and digits. -/
theorem exists_fraction (cs : List Char) :
    ∃ front rest, cs = front ++ rest ∧ front.length = fractionLength cs ∧
      (front = [] ∨ ∃ digits, front = '.' :: digits ∧ ∀ c ∈ digits, c.isDigit) := by
  unfold fractionLength
  split
  · rename_i cs
    refine ⟨'.' :: cs.takeWhile Char.isDigit, cs.dropWhile Char.isDigit, ?_, Nat.add_comm _ _,
      .inr ⟨_, rfl, fun c hc => List.mem_takeWhile_imp hc⟩⟩
    rw [List.cons_append, List.takeWhile_append_dropWhile]
  · exact ⟨[], _, rfl, rfl, .inl rfl⟩

theorem fractionLength_le (cs : List Char) : fractionLength cs ≤ cs.length := by
  obtain ⟨front, rest, hcs, hlength, -⟩ := exists_fraction cs
  rw [← hlength, hcs, List.length_append]
  exact Nat.le_add_right _ _

theorem exists_sign (cs : List Char) :
    ∃ sign rest, cs = sign ++ rest ∧ sign.length = signLength cs ∧
      (sign = [] ∨ sign = ['+'] ∨ sign = ['-']) := by
  unfold signLength
  split
  · exact ⟨['+'], _, rfl, rfl, .inr (.inl rfl)⟩
  · exact ⟨['-'], _, rfl, rfl, .inr (.inr rfl)⟩
  · exact ⟨[], _, rfl, rfl, .inl rfl⟩

theorem signLength_le (cs : List Char) : signLength cs ≤ cs.length := by
  obtain ⟨sign, rest, hcs, hlength, -⟩ := exists_sign cs
  rw [← hlength, hcs, List.length_append]
  exact Nat.le_add_right _ _

theorem exists_exponent (cs : List Char) :
    ∃ tail rest e, cs = tail ++ rest ∧ tail.length = exponentLength cs ∧
      Decimal.IsWrittenExponent tail e := by
  unfold exponentLength
  split
  · exact ⟨[], [], 0, rfl, rfl, .none⟩
  · rename_i letter cs
    obtain ⟨sign, rest, rfl, hlength, hsign⟩ := exists_sign cs
    simp only [← hlength, List.drop_left]
    split
    · rename_i h
      refine ⟨letter :: (sign ++ rest.takeWhile Char.isDigit), rest.dropWhile Char.isDigit, _, ?_,
        ?_, .some h.1 hsign h.2 fun c hc => List.mem_takeWhile_imp hc⟩
      · rw [List.cons_append, List.append_assoc, List.takeWhile_append_dropWhile]
      · rw [List.length_cons, List.length_append]
        omega
    · exact ⟨[], _, 0, rfl, rfl, .none⟩

/-- What the pattern of numbers takes is a written number. -/
theorem exists_number (h : numberLength? cs = some n) :
    ∃ front rest d, cs = front ++ rest ∧ front.length = n ∧ Decimal.IsWritten front d := by
  simp only [numberLength?, Option.ite_none_left_eq_some, Option.some.injEq,
    List.length_eq_zero_iff] at h
  obtain ⟨hne, rfl⟩ := h
  have hwhole : ∀ c ∈ cs.takeWhile Char.isDigit, c.isDigit = true :=
    fun c hc => List.mem_takeWhile_imp hc
  have hcs := (List.takeWhile_append_dropWhile (p := Char.isDigit) (l := cs)).symm
  generalize cs.takeWhile Char.isDigit = whole at hne hwhole hcs ⊢
  obtain ⟨point, rest, hrest, hpoint, hfraction⟩ := exists_fraction (cs.dropWhile Char.isDigit)
  obtain ⟨tail, rest', e, rfl, htail, hexponent⟩ := exists_exponent rest
  rw [hrest] at hcs hpoint
  have hdrop : cs.drop (whole.length + point.length) = tail ++ rest' := by
    rw [hcs, ← List.append_assoc, ← List.length_append, List.drop_left]
  have hlength : cs.drop whole.length = point ++ (tail ++ rest') := by rw [hcs, List.drop_left]
  rw [hlength, ← hpoint, hdrop, ← htail]
  have hfront : cs = (whole ++ (point ++ tail)) ++ rest' := by simp [hcs]
  have hsum : (whole ++ (point ++ tail)).length = whole.length + point.length + tail.length := by
    simp [Nat.add_assoc]
  rcases hfraction with rfl | ⟨digits, rfl, hdigits⟩
  · exact ⟨_, rest', _, hfront, hsum, .whole hne hwhole hexponent⟩
  · exact ⟨_, rest', _, hfront, hsum, .point hne hwhole hdigits hexponent⟩

theorem lineEndLength?_le (h : lineEndLength? cs = some n) : n ≤ cs.length := by
  unfold lineEndLength? at h
  split at h <;> simp at h <;> simp [← h]

theorem runLength?_le {start part : Char → Bool} (h : runLength? start part cs = some n) :
    n ≤ cs.length := by
  unfold runLength? at h
  split at h
  · cases h
  · rename_i c cs
    have hrun := (cs.takeWhile_sublist part).length_le
    split at h <;> simp at h
    simp only [List.length_cons]
    omega

/-- No pattern takes more characters than there are. -/
theorem match?_le {p : Pattern} (h : p.match? cs = some n) : n ≤ cs.length := by
  have htext {text : List Char} (h : textLength? text cs = some n) : n ≤ cs.length := by
    obtain ⟨rest, rfl, rfl⟩ := textLength?_append h
    simp
  cases p with
  | word | separators | comment => exact runLength?_le h
  | number =>
    obtain ⟨front, rest, -, rfl, rfl, -⟩ := exists_number h
    simp
  | lineEnd => exact lineEndLength?_le h
  | joinedLine =>
    simp only [match?, joinedLineLength?] at h
    split at h
    · rename_i cs
      obtain ⟨m, hm, rfl⟩ := Option.map_eq_some_iff.1 h
      have := lineEndLength?_le hm
      simp only [List.length_cons]
      omega
    · cases h
  | opening | closing | mark => exact htext h

/-! ### Forms of lexemes -/

/-- A run that is a whole lexeme cannot go on. -/
theorem runLength?_append {start part : Char → Bool}
    (h : runLength? start part (lexeme ++ rest) = some lexeme.length) :
    ∃ c cs, lexeme = c :: cs ∧ start c = true ∧ (∀ d ∈ cs, part d = true) ∧
      ∀ d ∈ rest.head?, part d = false := by
  cases lexeme with
  | nil => exact absurd (runLength?_pos h) (Nat.lt_irrefl 0)
  | cons c cs =>
    simp only [List.cons_append, runLength?, Option.ite_none_right_eq_some, Option.some.injEq,
      List.length_cons, List.takeWhile_append] at h
    obtain ⟨hc, hlen⟩ := h
    split at hlen
    · rename_i hcs
      have hall := (cs.takeWhile_sublist part).eq_of_length hcs
      refine ⟨c, cs, rfl, hc, List.takeWhile_eq_self_iff.1 hall, fun d hd => ?_⟩
      have hnil : (rest.takeWhile part).length = 0 := by
        rw [List.length_append] at hlen
        omega
      cases rest with
      | nil => cases hd
      | cons e rest =>
        cases hd
        simpa using hnil
    · omega

/-- The ends of lines. -/
def IsLineEnd (cs : List Char) : Prop := cs = ['\n'] ∨ cs = ['\r', '\n']

theorem isLineEnd_of_lineEndLength?
    (h : lineEndLength? (lexeme ++ rest) = some lexeme.length) : IsLineEnd lexeme := by
  unfold lineEndLength? at h
  split at h
  · rename_i heq
    obtain ⟨c, rfl⟩ := List.length_eq_one_iff.1 (Option.some.inj h).symm
    simp_all [IsLineEnd]
  · rename_i heq
    obtain ⟨c, d, rfl⟩ := List.length_eq_two.1 (Option.some.inj h).symm
    simp_all [IsLineEnd]
  · cases h

theorem isLineEnd_of_joinedLineLength?
    (h : joinedLineLength? (lexeme ++ rest) = some lexeme.length) :
    ∃ lineEnd, lexeme = '\\' :: lineEnd ∧ IsLineEnd lineEnd := by
  cases lexeme with
  | nil => exact absurd (joinedLineLength?_pos h) (Nat.lt_irrefl 0)
  | cons c lineEnd =>
    simp only [joinedLineLength?, List.cons_append] at h
    split at h
    · rename_i cs heq
      obtain ⟨rfl, rfl⟩ := List.cons.inj heq
      obtain ⟨n, hn, hlen⟩ := Option.map_eq_some_iff.1 h
      obtain rfl : n = lineEnd.length := by
        simp only [List.length_cons] at hlen
        omega
      exact ⟨lineEnd, rfl, isLineEnd_of_lineEndLength? hn⟩
    · cases h

theorem isWritten_of_numberLength? (h : numberLength? (lexeme ++ rest) = some lexeme.length) :
    ∃ d, Decimal.IsWritten lexeme d := by
  obtain ⟨front, back, d, hfront, hlength, hd⟩ := exists_number h
  obtain rfl := (List.append_inj hfront hlength.symm).1
  exact ⟨d, hd⟩

theorem eq_of_textLength? {text : List Char}
    (h : textLength? text (lexeme ++ rest) = some lexeme.length) : lexeme = text := by
  obtain ⟨back, hcs, hlen⟩ := textLength?_append h
  exact (List.append_inj hcs hlen).1

end Pattern

/-! ### What a lexeme leaves -/

namespace Scanner

open Pattern

/-- What the scanner does with a lexeme in front of the text that follows it: the tokens that it
leaves, and the state behind it. -/
inductive Leaves (s : Scanner) : List Char → List Char → List Token → Scanner → Prop where
  | separators {lexeme rest : List Char} : (∀ c ∈ lexeme, isSeparator c = true) →
      Leaves s lexeme rest [] (s.skip lexeme)
  | joinedLine {lineEnd rest : List Char} : IsLineEnd lineEnd →
      Leaves s ('\\' :: lineEnd) rest [] (s.skip ('\\' :: lineEnd))
  /-- A comment goes on to the end of the line. -/
  | comment {text rest : List Char} : '\n' ∉ text → (∀ c ∈ rest.head?, c = '\n') →
      Leaves s ('#' :: text) rest [] (s.skip ('#' :: text))
  /-- Inside brackets the end of a line does not count. -/
  | inside {lineEnd rest : List Char} : IsLineEnd lineEnd → 0 < s.depth →
      Leaves s lineEnd rest [] (s.skip lineEnd)
  /-- Nor does that of a line without a token, but the next line is another one. -/
  | blank {lineEnd rest : List Char} : IsLineEnd lineEnd → s.depth = 0 → s.lineEmpty = true →
      Leaves s lineEnd rest [] { s.skip lineEnd with lineStart := true, lineEmpty := true }
  /-- The end of a logical line. -/
  | newline {lineEnd rest : List Char} : IsLineEnd lineEnd → s.depth = 0 → s.lineEmpty = false →
      Leaves s lineEnd rest [⟨.newline, "\\n", s.span (byteLength lineEnd)⟩]
        { s.skip lineEnd with lineStart := true, lineEmpty := true }
  | token {kind : TokenKind} {lexeme rest : List Char} : kind.Spelled lexeme →
      Leaves s lexeme rest [s.token kind lexeme]
        { s.skip lexeme with lineEmpty := false, depth := kind.nest s.depth }

/-- **A lexeme leaves one of these.** -/
theorem leaves_take (s : Scanner) {p : Pattern} {lexeme rest : List Char}
    (h : first? (lexeme ++ rest) = some (p, lexeme.length)) :
    s.Leaves lexeme rest (s.take lexeme p).1 (s.take lexeme p).2 := by
  obtain ⟨hp, hm⟩ := match?_of_first? h
  cases p with
  | word =>
    obtain ⟨c, cs, rfl, hc, hcs, -⟩ := runLength?_append hm
    have htoken : s.Leaves (c :: cs) rest _ _ := .token (.word hc hcs)
    rwa [TokenKind.nest_ofWord] at htoken
  | number =>
    obtain ⟨d, hd⟩ := isWritten_of_numberLength? hm
    exact .token (.number hd)
  | lineEnd =>
    have hend := isLineEnd_of_lineEndLength? hm
    by_cases hd : s.depth = 0
    · by_cases he : s.lineEmpty = true
      · simp only [take, hd, he, if_true]
        exact .blank hend hd he
      · simp only [take, hd, he, if_true]
        exact .newline hend hd (by simpa using he)
    · simp only [take, hd, if_false]
      exact .inside hend (Nat.pos_of_ne_zero hd)
  | separators =>
    obtain ⟨c, cs, rfl, hc, hcs, -⟩ := runLength?_append hm
    exact .separators (List.forall_mem_cons.2 ⟨hc, hcs⟩)
  | joinedLine =>
    obtain ⟨lineEnd, rfl, hend⟩ := isLineEnd_of_joinedLineLength? hm
    exact .joinedLine hend
  | comment =>
    obtain ⟨c, cs, rfl, hc, hcs, hrest⟩ := runLength?_append hm
    obtain rfl : c = '#' := by simpa using hc
    refine .comment (fun hmem => ?_) fun c hc => by simpa using hrest c hc
    simpa using hcs _ hmem
  | opening c kind =>
    obtain rfl := eq_of_textLength? hm
    have htoken : s.Leaves [c] rest _ _ := .token (.opening hp)
    rcases kind_of_opening hp with rfl | rfl <;> exact htoken
  | closing c kind =>
    obtain rfl := eq_of_textLength? hm
    have htoken : s.Leaves [c] rest _ _ := .token (.closing hp)
    rcases kind_of_closing hp with rfl | rfl <;> exact htoken
  | mark text kind =>
    obtain rfl := eq_of_textLength? hm
    have htoken : s.Leaves text.toList rest _ _ := .token (.mark hp)
    have hnest : kind.nest s.depth = s.depth :=
      TokenKind.nest_eq_self fun hmem => kind_of_mark hp (List.mem_of_mem_take (i := 4) hmem)
    rwa [hnest] at htoken

theorem Leaves.offset_eq {s s' : Scanner} {lexeme rest : List Char} {us : List Token}
    (h : s.Leaves lexeme rest us s') : s'.offset = s.offset + byteLength lexeme := by
  cases h <;> rfl

/-- Behind a lexeme the scanner has passed over the lexeme, also if it went on by a text of the
pattern's own. -/
theorem offset_take (s : Scanner) {p : Pattern} {lexeme rest : List Char}
    (h : first? (lexeme ++ rest) = some (p, lexeme.length)) :
    (s.take lexeme p).2.offset = s.offset + byteLength lexeme :=
  (s.leaves_take h).offset_eq

/-! ### What an indentation leaves -/

/-- The characters that indent a line take one byte each. -/
theorem byteLength_indentation {cs : List Char} (h : ∀ c ∈ cs, isIndentation c = true) :
    byteLength cs = cs.length := by
  induction cs with
  | nil => rfl
  | cons c cs ih =>
    obtain ⟨hc, hcs⟩ := List.forall_mem_cons.1 h
    simp only [isIndentation, Bool.or_eq_true, beq_iff_eq] at hc
    have hone : c.utf8Size = 1 := by rcases hc with (rfl | rfl) | rfl <;> rfl
    rw [byteLength, ih hcs, hone, List.length_cons, Nat.add_comm]

theorem offset_indent (s : Scanner) {cs : List Char} (h : ∀ c ∈ cs, isIndentation c = true) :
    (s.indent cs).offset = s.offset + byteLength cs :=
  congrArg (s.offset + ·) (byteLength_indentation h).symm

end Scanner

end DefToC
