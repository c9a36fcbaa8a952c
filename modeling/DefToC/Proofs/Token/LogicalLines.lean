import DefToC.Proofs.Token.Coverage
import DefToC.Source.Line

/-!
# Logical lines

A source is a row of physical lines. A physical line starts a logical line unless it stands inside
brackets or behind a line that ends in a backslash. Both can be seen from the characters of the
lines before it alone (`logicalStarts`): brackets count where they are not in a comment, and so does
a backslash in front of a line end.

The scanner works on lexemes and knows of no lines. `Scanner.ahead` is what is still to come of the
logical lines in front of which it stands. A lexeme does not change it (`ahead_take`), and the
indentation of a line takes off the first of them (`ahead_indent`).
-/

namespace DefToC

/-! ### Physical lines -/

/-- The first line of a text, with its line feed if it has one. -/
def firstLine (cs : List Char) : List Char := (splitLines cs).headD []

/-- The lines behind the first one. -/
def laterLines (cs : List Char) : List (List Char) := (splitLines cs).tail

section

variable {cs piece rest lineEnd : List Char}

theorem splitLines_eq_cons (h : cs ≠ []) : splitLines cs = firstLine cs :: laterLines cs := by
  have hne : splitLines cs ≠ [] := by
    obtain ⟨c, cs, rfl⟩ := List.exists_cons_of_ne_nil h
    rw [splitLines]
    split
    · simp
    · split <;> simp
  obtain ⟨line, lines, hlines⟩ := List.exists_cons_of_ne_nil hne
  simp [firstLine, laterLines, hlines]

theorem firstLine_cons {c : Char} (h : c ≠ '\n') : firstLine (c :: cs) = c :: firstLine cs := by
  simp only [firstLine, splitLines, h, if_false]
  cases splitLines cs <;> rfl

theorem laterLines_cons {c : Char} (h : c ≠ '\n') : laterLines (c :: cs) = laterLines cs := by
  simp only [laterLines, splitLines, h, if_false]
  cases splitLines cs <;> rfl

theorem head?_firstLine (cs : List Char) : (firstLine cs).head? = cs.head? := by
  cases cs with
  | nil => rfl
  | cons c cs =>
    by_cases h : c = '\n'
    · rw [h]
      rfl
    · rw [firstLine_cons h]
      rfl

/-- A piece without a line feed is part of the first line. -/
theorem firstLine_append (h : '\n' ∉ piece) : firstLine (piece ++ cs) = piece ++ firstLine cs := by
  induction piece with
  | nil => rfl
  | cons c piece ih =>
    obtain ⟨hc, hpiece⟩ := not_or.1 (List.mem_cons.not.1 h)
    rw [List.cons_append, firstLine_cons (Ne.symm hc), ih hpiece, List.cons_append]

theorem laterLines_append (h : '\n' ∉ piece) : laterLines (piece ++ cs) = laterLines cs := by
  induction piece with
  | nil => rfl
  | cons c piece ih =>
    obtain ⟨hc, hpiece⟩ := not_or.1 (List.mem_cons.not.1 h)
    rw [List.cons_append, laterLines_cons (Ne.symm hc), ih hpiece]

/-- A line end is the last piece of the first line. -/
theorem firstLine_lineEnd (h : Pattern.IsLineEnd lineEnd) (cs : List Char) :
    firstLine (lineEnd ++ cs) = lineEnd ∧ laterLines (lineEnd ++ cs) = splitLines cs := by
  rcases h with rfl | rfl
  · exact ⟨rfl, rfl⟩
  · exact ⟨firstLine_cons (by decide), laterLines_cons (by decide)⟩

end

/-! ### Brackets and joined lines -/

/-- The part of a line in front of a comment. -/
def codeOf (line : List Char) : List Char := line.takeWhile (· != '#')

/-- The number of brackets that are open behind a character. Where none is open, a closing bracket
is ignored. -/
def nestChar (depth : Nat) (c : Char) : Nat :=
  if c = '(' ∨ c = '[' then depth + 1
  else if c = ')' ∨ c = ']' then depth - 1
  else depth

/-- The number of brackets that are open behind a line. -/
def depthAfter (depth : Nat) (line : List Char) : Nat := (codeOf line).foldl nestChar depth

/-- Does a backslash at the end of the line join the next line to it? -/
def isJoined (line : List Char) : Bool :=
  ['\\', '\n'].isSuffixOf (codeOf line) || ['\\', '\r', '\n'].isSuffixOf (codeOf line)

/-- A line and the byte of the source where it begins. -/
structure LineAt where
  /-- The byte where the line begins. -/
  offset : Nat
  /-- The line, with its line feed if it has one. -/
  text : List Char
  deriving DecidableEq

/-- The physical lines that start a logical line: no bracket is open in front of them, and they are
not joined to the line before. -/
def logicalStarts (depth : Nat) (joined : Bool) (offset : Nat) : List (List Char) → List LineAt
  | [] => []
  | line :: lines =>
    let later :=
      logicalStarts (depthAfter depth line) (isJoined line) (offset + byteLength line) lines
    if depth = 0 ∧ joined = false then ⟨offset, line⟩ :: later else later

/-- Characters that tell nothing about where lines begin: no line feed, no hash sign, no backslash
and no bracket. -/
def isInert (c : Char) : Bool := c ∉ ['\n', '#', '\\', '(', '[', ')', ']']

section

variable {depth offset : Nat} {joined : Bool} {cs piece line : List Char}

theorem nestChar_of_isInert {c : Char} (h : isInert c = true) : nestChar depth c = depth := by
  simp only [isInert, List.mem_cons, List.not_mem_nil, or_false, not_or, decide_eq_true_eq] at h
  simp [nestChar, h]

theorem foldl_nestChar_of_isInert (h : ∀ c ∈ piece, isInert c = true) :
    piece.foldl nestChar depth = depth := by
  induction piece with
  | nil => rfl
  | cons c piece ih =>
    obtain ⟨hc, hpiece⟩ := List.forall_mem_cons.1 h
    rw [List.foldl_cons, nestChar_of_isInert hc, ih hpiece]

theorem codeOf_append (h : '#' ∉ piece) : codeOf (piece ++ line) = piece ++ codeOf line := by
  refine List.takeWhile_append_of_pos fun c hc => ?_
  simpa using ne_of_mem_of_not_mem hc h

theorem depthAfter_append (h : '#' ∉ piece) :
    depthAfter depth (piece ++ line) = depthAfter (piece.foldl nestChar depth) line := by
  rw [depthAfter, codeOf_append h, List.foldl_append, depthAfter]

/-- A text that begins with a backslash ends a line where it ends the part of the line behind the
last other backslash. -/
theorem isSuffixOf_append {text : List Char} (h : '\\' ∉ piece) :
    ('\\' :: text).isSuffixOf (piece ++ line) = ('\\' :: text).isSuffixOf line := by
  rw [Bool.eq_iff_iff, List.isSuffixOf_iff_suffix, List.isSuffixOf_iff_suffix]
  constructor
  · rintro ⟨front, heq⟩
    rcases List.append_eq_append_iff.1 heq with ⟨back, rfl, hback⟩ | ⟨front', rfl, hline⟩
    · cases back with
      | nil => exact ⟨[], hback⟩
      | cons c back =>
        obtain ⟨rfl, -⟩ := List.cons.inj hback
        simp at h
    · exact ⟨front', hline.symm⟩
  · rintro ⟨front, rfl⟩
    exact ⟨piece ++ front, List.append_assoc _ _ _⟩

theorem isJoined_append (hhash : '#' ∉ piece) (hslash : '\\' ∉ piece) :
    isJoined (piece ++ line) = isJoined line := by
  simp only [isJoined, codeOf_append hhash, isSuffixOf_append hslash]

/-- Inside brackets and behind a backslash the next physical line starts no logical line. -/
theorem logicalStarts_inside (h : 0 < depth ∨ joined = true) :
    logicalStarts depth joined offset (splitLines cs) =
      logicalStarts (depthAfter depth (firstLine cs)) (isJoined (firstLine cs))
        (offset + byteLength (firstLine cs)) (laterLines cs) := by
  cases cs with
  | nil => rfl
  | cons c cs =>
    have hinside : ¬(depth = 0 ∧ joined = false) := by
      rintro ⟨rfl, rfl⟩
      simp at h
    rw [splitLines_eq_cons (List.cons_ne_nil c cs), logicalStarts, if_neg hinside]

end

/-! ### The characters of lexemes -/

namespace Pattern

variable {cs lexeme rest : List Char} {p : Pattern}

theorem isInert_of_isWordPart {c : Char} (h : isWordPart c = true) : isInert c = true := by
  by_contra hc
  have hall : ['\n', '#', '\\', '(', '[', ')', ']'].all (fun c => !isWordPart c) = true := by decide
  simp only [isInert, decide_eq_true_eq, not_not] at hc
  simpa [h] using List.all_eq_true.1 hall c hc

theorem isInert_of_isSeparator {c : Char} (h : isSeparator c = true) : isInert c = true := by
  by_contra hc
  have hall : ['\n', '#', '\\', '(', '[', ')', ']'].all (fun c => !isSeparator c) = true := by
    decide
  simp only [isInert, decide_eq_true_eq, not_not] at hc
  simpa [h] using List.all_eq_true.1 hall c hc

theorem isInert_of_isDigit {c : Char} (h : c.isDigit = true) : isInert c = true :=
  isInert_of_isWordPart (by simp [isWordPart, Char.isAlphanum, h])

theorem take_length_takeWhile (p : Char → Bool) (cs : List Char) :
    cs.take (cs.takeWhile p).length = cs.takeWhile p := by
  have hfront : cs.takeWhile p <+: cs := List.takeWhile_prefix p
  exact (List.prefix_iff_eq_take.1 hfront).symm

theorem isInert_of_mem_fraction (cs : List Char) :
    ∀ c ∈ cs.take (fractionLength cs), isInert c = true := by
  unfold fractionLength
  split
  · rename_i cs
    rw [Nat.add_comm, List.take_succ_cons, List.forall_mem_cons]
    refine ⟨by decide, fun c hc => isInert_of_isDigit ?_⟩
    rw [take_length_takeWhile] at hc
    exact List.mem_takeWhile_imp hc
  · simp

theorem isInert_of_mem_exponent (cs : List Char) :
    ∀ c ∈ cs.take (exponentLength cs), isInert c = true := by
  unfold exponentLength
  split
  · simp
  · rename_i c cs
    dsimp only
    split
    · rename_i hexponent
      have hsign : ∀ c ∈ cs.take (signLength cs), isInert c = true := by
        unfold signLength
        split <;> simp [isInert]
      rw [Nat.add_assoc, Nat.add_comm, List.take_succ_cons, List.take_add, List.forall_mem_cons,
        List.forall_mem_append, take_length_takeWhile]
      refine ⟨?_, hsign, fun d hd => isInert_of_isDigit (List.mem_takeWhile_imp hd)⟩
      rcases hexponent.1 with rfl | rfl <;> decide
    · simp

theorem isInert_of_numberLength? (h : numberLength? (lexeme ++ rest) = some lexeme.length) :
    ∀ c ∈ lexeme, isInert c = true := by
  simp only [numberLength?, Option.ite_none_left_eq_some, Option.some.injEq] at h
  have hlexeme : lexeme = (lexeme ++ rest).take lexeme.length := by simp
  rw [hlexeme, ← h.2, List.take_add, List.take_add, List.forall_mem_append, List.forall_mem_append]
  refine ⟨⟨fun c hc => ?_, isInert_of_mem_fraction _⟩, isInert_of_mem_exponent _⟩
  rw [take_length_takeWhile] at hc
  exact isInert_of_isDigit (List.mem_takeWhile_imp hc)

/-- The brackets are the characters that are counted, and no mark has one of them. -/
def textFits : Pattern → Bool
  | opening bracket _ => bracket ∈ ['(', '[']
  | closing bracket _ => bracket ∈ [')', ']']
  | mark text _ => text.toList.all isInert
  | _ => true

theorem textFits_of_mem (h : p ∈ table) : p.textFits = true := by
  have hall : table.all textFits = true := by decide +kernel
  exact List.all_eq_true.1 hall p h

end Pattern

/-! ### The scanner and the lines ahead of it -/

namespace Scanner

open Pattern

variable {s s' : Scanner} {lexeme piece rest : List Char}

/-- The logical lines that the scanner still comes to. The line that it stands on is not one of them
unless it stands at its start. -/
def ahead (s : Scanner) (cs : List Char) : List LineAt :=
  if s.lineStart then logicalStarts 0 false s.offset (splitLines cs)
  else logicalStarts (depthAfter s.depth (firstLine cs)) (isJoined (firstLine cs))
    (s.offset + byteLength (firstLine cs)) (laterLines cs)

theorem ahead_nil (s : Scanner) : s.ahead [] = [] := by
  unfold ahead
  split <;> rfl

theorem ahead_of_lineStart {cs : List Char} (h : s.lineStart = true) :
    s.ahead cs = logicalStarts 0 false s.offset (splitLines cs) := if_pos h

theorem ahead_of_not_lineStart {cs : List Char} (h : s.lineStart = false) :
    s.ahead cs = logicalStarts (depthAfter s.depth (firstLine cs)) (isJoined (firstLine cs))
      (s.offset + byteLength (firstLine cs)) (laterLines cs) := if_neg (by simp [h])

/-- A piece that stays on its line changes at most the number of open brackets. -/
theorem ahead_on_line (hstart : s.lineStart = false) (hstart' : s'.lineStart = false)
    (hfeed : '\n' ∉ piece) (hhash : '#' ∉ piece) (hslash : '\\' ∉ piece)
    (hdepth : s'.depth = piece.foldl nestChar s.depth)
    (hoffset : s'.offset = s.offset + byteLength piece) :
    s'.ahead rest = s.ahead (piece ++ rest) := by
  rw [ahead_of_not_lineStart hstart', ahead_of_not_lineStart hstart, firstLine_append hfeed,
    laterLines_append hfeed, depthAfter_append hhash, isJoined_append hhash hslash,
    byteLength_append, hdepth, hoffset, Nat.add_assoc]

theorem ahead_inert (hstart : s.lineStart = false) (hstart' : s'.lineStart = false)
    (hpiece : ∀ c ∈ piece, isInert c = true) (hdepth : s'.depth = s.depth)
    (hoffset : s'.offset = s.offset + byteLength piece) :
    s'.ahead rest = s.ahead (piece ++ rest) := by
  have hnot (c : Char) (hc : isInert c = false) : c ∉ piece := fun hmem => by
    simp [hpiece c hmem] at hc
  refine ahead_on_line hstart hstart' (hnot _ (by decide)) (hnot _ (by decide))
    (hnot _ (by decide)) ?_ hoffset
  rw [foldl_nestChar_of_isInert hpiece, hdepth]

theorem ahead_bracket {c : Char} (hstart : s.lineStart = false) (hstart' : s'.lineStart = false)
    (hc : c ∈ ['(', '[', ')', ']']) (hdepth : s'.depth = nestChar s.depth c)
    (hoffset : s'.offset = s.offset + byteLength [c]) : s'.ahead rest = s.ahead ([c] ++ rest) := by
  have hnot (d : Char) (hd : d ∉ ['(', '[', ')', ']']) : d ∉ [c] := by
    rw [List.mem_singleton]
    rintro rfl
    exact hd hc
  exact ahead_on_line hstart hstart' (hnot _ (by decide)) (hnot _ (by decide)) (hnot _ (by decide))
    hdepth hoffset

theorem ahead_comment {text : List Char} (hstart : s.lineStart = false) (htext : '\n' ∉ text)
    (hrest : ∀ c ∈ rest.head?, c = '\n') :
    (s.skip ('#' :: text)).ahead rest = s.ahead ('#' :: text ++ rest) := by
  have hfeed : '\n' ∉ '#' :: text := by simpa using htext
  -- behind a comment there is at most a line feed on the line
  have hline : firstLine rest = [] ∨ firstLine rest = ['\n'] := by
    cases rest with
    | nil => exact .inl rfl
    | cons c rest =>
      obtain rfl := hrest c rfl
      exact .inr rfl
  have hdepth : depthAfter s.depth (firstLine rest) = s.depth := by
    rcases hline with h | h <;> rw [h] <;> rfl
  have hjoined : isJoined (firstLine rest) = false := by
    rcases hline with h | h <;> rw [h] <;> rfl
  rw [ahead_of_not_lineStart (s := s.skip _) hstart, ahead_of_not_lineStart hstart,
    firstLine_append hfeed, laterLines_append hfeed, byteLength_append, ← Nat.add_assoc]
  simp only [skip, hdepth, hjoined]
  rfl

/-- A backslash and the line end behind it are the rest of their line. -/
theorem ahead_joinedLine {lineEnd : List Char} (hstart : s.lineStart = false)
    (h : IsLineEnd lineEnd) :
    (s.skip ('\\' :: lineEnd)).ahead rest = s.ahead ('\\' :: lineEnd ++ rest) := by
  obtain ⟨hfirst, hlater⟩ := firstLine_lineEnd h rest
  have hdepth : depthAfter s.depth ('\\' :: lineEnd) = s.depth := by rcases h with rfl | rfl <;> rfl
  have hjoined : isJoined ('\\' :: lineEnd) = true := by rcases h with rfl | rfl <;> rfl
  rw [ahead_of_not_lineStart (s := s.skip _) hstart, ahead_of_not_lineStart hstart,
    List.cons_append, firstLine_cons (by decide), laterLines_cons (by decide), hfirst, hlater,
    hdepth, hjoined, logicalStarts_inside (.inr rfl)]
  rfl

theorem depthAfter_lineEnd {lineEnd : List Char} (h : IsLineEnd lineEnd) (depth : Nat) :
    depthAfter depth lineEnd = depth ∧ isJoined lineEnd = false := by
  rcases h with rfl | rfl <;> exact ⟨rfl, rfl⟩

theorem ahead_lineEnd {lineEnd : List Char} (hstart : s.lineStart = false) (h : IsLineEnd lineEnd) :
    (s.take lineEnd .lineEnd).2.ahead rest = s.ahead (lineEnd ++ rest) := by
  obtain ⟨hfirst, hlater⟩ := firstLine_lineEnd h rest
  obtain ⟨hdepth, hjoined⟩ := depthAfter_lineEnd h s.depth
  rw [ahead_of_not_lineStart hstart, hfirst, hlater, hdepth, hjoined]
  by_cases hd : s.depth = 0
  · simp only [take, hd, if_true]
    exact ahead_of_lineStart rfl
  · simp only [take, hd, if_false]
    rw [ahead_of_not_lineStart (s := s.skip _) hstart,
      logicalStarts_inside (.inl (Nat.pos_of_ne_zero hd))]
    rfl

/-- **A lexeme does not change the logical lines ahead.** -/
theorem ahead_take {p : Pattern} (hstart : s.lineStart = false)
    (h : first? (lexeme ++ rest) = some (p, lexeme.length)) :
    (s.take lexeme p).2.ahead rest = s.ahead (lexeme ++ rest) := by
  obtain ⟨hp, hm⟩ := match?_of_first? h
  cases p with
  | word =>
    obtain ⟨c, cs, rfl, hc, hcs, -⟩ := runLength?_append hm
    have hpart : isWordPart c = true := by
      simp only [isWordStart, isWordPart, Char.isAlphanum, Bool.or_eq_true] at hc ⊢
      tauto
    have hall : ∀ d ∈ c :: cs, isWordPart d = true := List.forall_mem_cons.2 ⟨hpart, hcs⟩
    exact ahead_inert hstart hstart (fun d hd => isInert_of_isWordPart (hall d hd)) rfl rfl
  | number => exact ahead_inert hstart hstart (isInert_of_numberLength? hm) rfl rfl
  | separators =>
    obtain ⟨c, cs, rfl, hc, hcs, -⟩ := runLength?_append hm
    have hall : ∀ d ∈ c :: cs, isSeparator d = true := List.forall_mem_cons.2 ⟨hc, hcs⟩
    exact ahead_inert hstart hstart (fun d hd => isInert_of_isSeparator (hall d hd)) rfl rfl
  | mark text kind =>
    obtain rfl := eq_of_textLength? hm
    exact ahead_inert hstart hstart (List.all_eq_true.1 (textFits_of_mem hp)) rfl rfl
  | opening c kind =>
    obtain rfl := eq_of_textLength? hm
    have hc : c = '(' ∨ c = '[' := by simpa [textFits] using textFits_of_mem hp
    rcases hc with rfl | rfl
    · exact ahead_bracket hstart hstart (by decide) rfl rfl
    · exact ahead_bracket hstart hstart (by decide) rfl rfl
  | closing c kind =>
    obtain rfl := eq_of_textLength? hm
    have hc : c = ')' ∨ c = ']' := by simpa [textFits] using textFits_of_mem hp
    rcases hc with rfl | rfl
    · exact ahead_bracket hstart hstart (by decide) rfl rfl
    · exact ahead_bracket hstart hstart (by decide) rfl rfl
  | lineEnd => exact ahead_lineEnd hstart (isLineEnd_of_lineEndLength? hm)
  | comment =>
    obtain ⟨c, cs, rfl, hc, hcs, hrest⟩ := runLength?_append hm
    obtain rfl : c = '#' := by simpa using hc
    refine ahead_comment hstart (fun hmem => ?_) fun c hc => by simpa using hrest c hc
    simpa using hcs _ hmem
  | joinedLine =>
    obtain ⟨lineEnd, rfl, hend⟩ := isLineEnd_of_joinedLineLength? hm
    exact ahead_joinedLine hstart hend

/-- **The indentation of a line takes off the first logical line ahead.** -/
theorem ahead_indent {indentation : List Char} (hstart : s.lineStart = true)
    (hne : indentation ++ rest ≠ []) (hdepth : s.depth = 0)
    (hindent : ∀ c ∈ indentation, isIndentation c = true) :
    s.ahead (indentation ++ rest) =
      ⟨s.offset, indentation ++ firstLine rest⟩ :: (s.indent indentation).ahead rest := by
  have hinert : ∀ c ∈ indentation, isInert c = true := fun c hc =>
    isInert_of_isSeparator (isSeparator_of_isIndentation (hindent c hc))
  have hfeed : '\n' ∉ indentation := fun hmem => absurd (hinert _ hmem) (by decide)
  -- behind the indentation the scanner stands on the line itself
  have hbehind : (s.indent indentation).ahead rest =
      Scanner.ahead { s with lineStart := false } (indentation ++ rest) :=
    ahead_inert rfl rfl hinert rfl (offset_indent s hindent)
  rw [ahead_of_lineStart hstart, splitLines_eq_cons hne, logicalStarts, if_pos ⟨rfl, rfl⟩, hbehind,
    ahead_of_not_lineStart rfl, hdepth, firstLine_append hfeed]

end Scanner

end DefToC
