import DefToC.Proofs.Token.LogicalLines

/-!
# Blocks follow the indentation of lines

Where blocks begin and end is laid down by a rule about lines that knows nothing of tokens. Of the
physical lines that start a logical line, those that are blank or hold only a comment do not count.
Every other line has a width, which is compared with the widths of the open blocks: a wider line
opens a block, and a narrower one closes every wider block and then has to fit the innermost block
that is left (`alignLines`).

The scanner decides by the one character behind its indentation whether a line counts. A carriage
return there makes it pass over the line, also where the line goes on and is not blank. So it does
not keep to the rule on all sources (`blocks_left_open`). It keeps to it on the lines that count and
do not begin so, and it refuses a source for its indentation where the rule does
(`blocks_follow_layout`).
-/

namespace DefToC

/-! ### The rule -/

/-- The width of a line from some column on: a space counts one, a tab goes on to the next multiple
of eight, and a form feed starts again from zero. -/
def columnFrom (column : Nat) : List Char → Nat
  | ' ' :: cs => columnFrom (column + 1) cs
  | '\t' :: cs => columnFrom (column + (8 - column % 8)) cs
  | '\x0c' :: cs => columnFrom 0 cs
  | _ => column

/-- A line that holds nothing but white space, or white space and a comment. -/
def isBlankOrComment (line : List Char) : Bool :=
  match line.dropWhile isSeparator with
  | [] => true
  | c :: _ => c == '\n' || c == '#'

/-- A start or an end of a block, and the byte where it stands. -/
structure BlockMark where
  /-- Does a block start or end here? -/
  kind : TokenKind
  /-- The byte where it does. -/
  offset : Nat
  deriving DecidableEq

/-- Close every block that is wider than a line. The line has to fit the innermost block that is
left. -/
def closeBlocks (width : Nat) : List Nat → Option (List TokenKind × List Nat)
  | [] => none
  | top :: below =>
    if width < top then
      (closeBlocks width below).map fun (kinds, stack) => (.dedent :: kinds, stack)
    else if top = width then some ([], top :: below)
    else none

/-- What a line does to the widths of the open blocks, innermost first. -/
def alignLine (stack : List Nat) (width : Nat) : Option (List TokenKind × List Nat) :=
  if stack.headD 0 < width then some ([.indent], width :: stack) else closeBlocks width stack

/-- The byte behind the indentation of a line. -/
def LineAt.indentEnd (line : LineAt) : Nat :=
  line.offset + byteLength (line.text.takeWhile isIndentation)

/-- The starts and ends of blocks at lines that count, and the widths of the blocks that are open
behind them. -/
def alignLines (stack : List Nat) : List LineAt → Option (List BlockMark × List Nat)
  | [] => some ([], stack)
  | line :: lines => do
    let (kinds, stack) ← alignLine stack (columnFrom 0 line.text)
    let (marks, stack) ← alignLines stack lines
    return (kinds.map (⟨·, line.indentEnd⟩) ++ marks, stack)

/-- The lines of a source that count: they start a logical line and are not blank. -/
def countedLines (source : String) : List LineAt :=
  (logicalStarts 0 false 0 (splitLines source.toList)).filter fun line =>
    !isBlankOrComment line.text

/-- Does a carriage return stand behind the indentation of a line? -/
def LineAt.beginsWithReturn (line : LineAt) : Bool :=
  (line.text.dropWhile isIndentation).head? == some '\r'

/-- The lines that count and do not begin with a carriage return. -/
def heededLines (source : String) : List LineAt :=
  (countedLines source).filter fun line => !line.beginsWithReturn

/-- The starts and ends of blocks among tokens. -/
def blockMarks (tokens : List Token) : List BlockMark :=
  (tokens.filter fun t => t.kind = .indent ∨ t.kind = .dedent).map fun t => ⟨t.kind, t.span.start⟩

/-! ### One line -/

section

variable {stack : List Nat} {width : Nat} {indentation rest : List Char}

theorem columnFrom_eq (column : Nat) (line : List Char) :
    columnFrom column line = (line.takeWhile isIndentation).foldl (fun width c =>
      if c = ' ' then width + 1
      else if c = '\t' then (width / 8 + 1) * 8
      else 0) column := by
  fun_induction columnFrom column line with
  | case1 column cs ih => simpa [isIndentation] using ih
  | case2 column cs ih =>
    have htab : column + (8 - column % 8) = (column / 8 + 1) * 8 := by omega
    simpa [isIndentation, htab] using ih
  | case3 column cs ih => simpa [isIndentation] using ih
  | case4 line column hspace htab hfeed =>
    have hnil : line.takeWhile isIndentation = [] := by
      cases line with
      | nil => rfl
      | cons c cs =>
        have hc : isIndentation c = false := by
          by_contra hc
          simp only [isIndentation, Bool.not_eq_false, Bool.or_eq_true, beq_iff_eq] at hc
          rcases hc with (rfl | rfl) | rfl
          · exact hspace cs rfl
          · exact htab cs rfl
          · exact hfeed cs rfl
        exact List.takeWhile_cons_of_neg (by simp [hc])
    rw [hnil, List.foldl_nil]

theorem columnFrom_zero (line : List Char) :
    columnFrom 0 line = indentWidth (line.takeWhile isIndentation) := columnFrom_eq 0 line

/-- Blocks are closed one after another, down to the first that is not wider. -/
theorem closeBlocks_eq (hbottom : stack.getLast? = some 0) :
    closeBlocks width stack =
      if (stack.dropWhile (width < ·)).headD 0 = width then
        some ((stack.takeWhile (width < ·)).map fun _ => .dedent, stack.dropWhile (width < ·))
      else none := by
  induction stack with
  | nil => cases hbottom
  | cons top below ih =>
    rw [closeBlocks]
    by_cases htop : width < top
    · -- a block that is wider is not the outermost one
      have hbelow : below.getLast? = some 0 := by
        cases below with
        | nil =>
          obtain rfl : top = 0 := by simpa using hbottom
          exact absurd htop (Nat.not_lt_zero _)
        | cons next below => simpa using hbottom
      rw [if_pos htop, ih hbelow, List.dropWhile_cons_of_pos (by simpa using htop),
        List.takeWhile_cons_of_pos (by simpa using htop)]
      split <;> rfl
    · rw [if_neg htop, List.dropWhile_cons_of_neg (by simpa using htop),
        List.takeWhile_cons_of_neg (by simpa using htop)]
      rfl

theorem alignLines_cons (stack : List Nat) (line : LineAt) (lines : List LineAt) :
    alignLines stack (line :: lines) =
      (alignLine stack (columnFrom 0 line.text)).bind fun (kinds, stack) =>
        (alignLines stack lines).map (Prod.map (kinds.map (⟨·, line.indentEnd⟩) ++ ·) id) := by
  rw [alignLines]
  refine Option.bind_congr fun (kinds, stack) _ => ?_
  exact Option.map_eq_bind.symm

theorem alignLine_eq (h : IsStack stack) : alignLine stack width = adjustIndents stack width := by
  rw [alignLine, adjustIndents, closeBlocks_eq h.bottom]

/-- The scanner passes over lines that do not count, and over those that begin with a carriage
return. -/
theorem isBlankLine_dropWhile (line : LineAt) :
    isBlankLine (line.text.dropWhile isIndentation) =
      (isBlankOrComment line.text || line.beginsWithReturn) := by
  obtain ⟨offset, text⟩ := line
  -- separators are the characters of indentation and the carriage return
  have hdrop : text.dropWhile isSeparator =
      (text.dropWhile isIndentation).dropWhile isSeparator := by
    induction text with
    | nil => rfl
    | cons c cs ih =>
      by_cases hc : isIndentation c = true
      · rw [List.dropWhile_cons_of_pos (Scanner.isSeparator_of_isIndentation hc),
          List.dropWhile_cons_of_pos hc, ih]
      · rw [List.dropWhile_cons_of_neg hc]
  have hhead := List.head?_dropWhile_not isIndentation text
  simp only [isBlankOrComment, LineAt.beginsWithReturn, hdrop]
  cases hbehind : text.dropWhile isIndentation with
  | nil => rfl
  | cons c cs =>
    rw [hbehind] at hhead
    by_cases hreturn : (c == '\r') = true
    · simp [isBlankLine, hreturn]
    · have hc : isSeparator c = false := by
        simp only [List.head?_cons, isIndentation, isSeparator] at hhead ⊢
        simpa [hreturn] using hhead
      rw [Bool.not_eq_true] at hreturn
      simp [isBlankLine, hreturn, hc]

theorem isBlankLine_firstLine (cs : List Char) : isBlankLine (firstLine cs) = isBlankLine cs := by
  have hhead := head?_firstLine cs
  cases cs with
  | nil => rfl
  | cons c cs =>
    obtain ⟨line, hline⟩ := List.head?_eq_some_iff.1 hhead
    rw [hline]
    rfl

theorem isIndentation_of_isBlankLine (h : isBlankLine rest = true) :
    ∀ c ∈ rest.head?, isIndentation c = false := by
  cases rest with
  | nil => exact nofun
  | cons c cs =>
    rintro _ ⟨⟩
    simp only [isBlankLine, Bool.or_eq_true, beq_iff_eq] at h
    rcases h with (rfl | rfl) | rfl <;> rfl

/-- The indentation of a line is found again in the line. -/
theorem takeWhile_indentation (hindent : ∀ c ∈ indentation, isIndentation c = true)
    (hrest : ∀ c ∈ rest.head?, isIndentation c = false) :
    (indentation ++ firstLine rest).takeWhile isIndentation = indentation ∧
      (indentation ++ firstLine rest).dropWhile isIndentation = firstLine rest := by
  rw [List.takeWhile_append_of_pos hindent, List.dropWhile_append_of_pos hindent]
  rw [← head?_firstLine] at hrest
  cases hline : firstLine rest with
  | nil => exact ⟨List.append_nil _, rfl⟩
  | cons c cs =>
    have hc : ¬isIndentation c = true := by simpa using hrest c (by rw [hline]; rfl)
    rw [List.takeWhile_cons_of_neg hc, List.dropWhile_cons_of_neg hc, List.append_nil]
    exact ⟨rfl, rfl⟩

end

/-! ### Runs of the scanner -/

namespace Scanner

variable {file source : String} {ts us : List Token} {s s' : Scanner} {piece rest cs : List Char}

/-- What the rule says of the lines that the scanner still comes to and does not pass over. -/
def alignAhead (s : Scanner) (cs : List Char) : Option (List BlockMark × List Nat) :=
  alignLines s.widths
    ((s.ahead cs).filter fun line => !isBlankLine (line.text.dropWhile isIndentation))

theorem blockMarks_append (ts us : List Token) :
    blockMarks (ts ++ us) = blockMarks ts ++ blockMarks us := by
  rw [blockMarks, List.filter_append, List.map_append, blockMarks, blockMarks]

theorem blockMarks_eq_nil (h : ∀ t ∈ us, t.kind ≠ .indent ∧ t.kind ≠ .dedent) :
    blockMarks us = [] := by
  have hnone : us.filter (fun t => t.kind = .indent ∨ t.kind = .dedent) = [] :=
    List.filter_eq_nil_iff.2 fun t ht => by simpa using h t ht
  rw [blockMarks, hnone, List.map_nil]

theorem blockMarks_mark {kinds : List TokenKind} (s : Scanner)
    (h : ∀ t ∈ kinds.map s.mark, t.kind = .indent ∨ t.kind = .dedent) :
    blockMarks (kinds.map s.mark) = kinds.map (⟨·, s.offset⟩) := by
  rw [blockMarks, List.filter_eq_self.2 fun t ht => by simpa using h t ht, List.map_map]
  rfl

/-- A line that is passed over changes no block. -/
theorem alignAhead_blank {indentation : List Char} (hstart : s.lineStart = true)
    (hne : indentation ++ rest ≠ []) (hdepth : s.depth = 0)
    (hindent : ∀ c ∈ indentation, isIndentation c = true) (hblank : isBlankLine rest = true) :
    s.alignAhead (indentation ++ rest) = (s.indent indentation).alignAhead rest := by
  obtain ⟨-, hbehind⟩ := takeWhile_indentation hindent (isIndentation_of_isBlankLine hblank)
  rw [alignAhead, ahead_indent hstart hne hdepth hindent, List.filter_cons_of_neg]
  · rfl
  · simp only [hbehind, isBlankLine_firstLine, hblank, Bool.not_true, Bool.false_eq_true,
      not_false_eq_true]

/-- Any other line changes blocks by its width. -/
theorem alignAhead_line {indentation : List Char} (hstart : s.lineStart = true)
    (hdepth : s.depth = 0) (hindent : ∀ c ∈ indentation, isIndentation c = true)
    (hrest : ∀ c ∈ rest.head?, isIndentation c = false) (hblank : isBlankLine rest = false) :
    s.alignAhead (indentation ++ rest) =
      (alignLine s.widths (indentWidth indentation)).bind fun (kinds, widths) =>
        (Scanner.alignAhead { s.indent indentation with widths } rest).map
          (Prod.map (kinds.map (⟨·, (s.indent indentation).offset⟩) ++ ·) id) := by
  obtain ⟨hfront, hbehind⟩ := takeWhile_indentation hindent hrest
  have hne : indentation ++ rest ≠ [] := by
    intro hnil
    rw [(List.append_eq_nil_iff.1 hnil).2] at hblank
    cases hblank
  rw [offset_indent s hindent, alignAhead, ahead_indent hstart hne hdepth hindent,
    List.filter_cons_of_pos]
  · rw [alignLines_cons, columnFrom_zero, LineAt.indentEnd, hfront]
    rfl
  · simp only [hbehind, isBlankLine_firstLine, hblank, Bool.not_false]

/-- **A step leaves the marks that the rule lays down for its piece of the text.** -/
theorem alignAhead_step (hdepth : s.lineStart = true → s.depth = 0) (hstack : IsStack s.widths)
    (hstep : s.Step piece rest us s') :
    s.alignAhead (piece ++ rest) =
      (s'.alignAhead rest).map (Prod.map (blockMarks us ++ ·) id) := by
  cases hstep with
  | blank hstart hne hindent hblank =>
    rw [alignAhead_blank hstart hne (hdepth hstart) hindent hblank]
    exact Option.map_id'.symm
  | line hstart hindent hrest hblank hadjust =>
    rw [alignAhead_line hstart (hdepth hstart) hindent hrest hblank, alignLine_eq hstack, hadjust,
      blockMarks_mark _ (blocks_of_adjustIndents hadjust)]
    rfl
  | lexeme hstart hfirst =>
    obtain ⟨hwidths, hus⟩ := (s.leaves_take hfirst).not_block
    rw [alignAhead, alignAhead, ahead_take hstart hfirst, hwidths, blockMarks_eq_nil hus]
    exact Option.map_id'.symm

/-- **A run leaves the marks that the rule lays down for the text behind it.** -/
theorem Reaches.aligned (h : Reaches file source ts s cs) :
    (Scanner.start file).alignAhead source.toList =
      (s.alignAhead cs).map (Prod.map (blockMarks ts ++ ·) id) := by
  induction h with
  | start => exact Option.map_id'.symm
  | step hr hstep ih =>
    rw [ih, alignAhead_step (fun hstart => (hr.agrees.lineStart hstart).1) hr.nested.stack hstep,
      Option.map_map, Prod.map_comp_map, Function.comp_id, blockMarks_append]
    simp only [Function.comp_def, List.append_assoc]

theorem alignAhead_start (file source : String) :
    (Scanner.start file).alignAhead source.toList = alignLines [0] (heededLines source) := by
  rw [alignAhead, ahead_of_lineStart rfl, heededLines, countedLines, List.filter_filter]
  simp only [isBlankLine_dropWhile, Bool.not_or, Bool.and_comm]
  rfl

theorem blockMarks_finish (s : Scanner) :
    blockMarks s.finish = s.widths.tail.map fun _ => ⟨.dedent, s.offset⟩ := by
  have hnewline : blockMarks (if s.lineEmpty then [] else [s.mark .newline]) = [] := by
    split <;> rfl
  have hdedents : blockMarks ((s.widths.drop 1).map fun _ => s.mark .dedent) =
      (s.widths.drop 1).map fun _ => ⟨.dedent, s.offset⟩ := by
    simp [blockMarks, mark, span]
  rw [finish, blockMarks_append, blockMarks_append, hnewline, hdedents, List.drop_one]
  exact List.append_nil _

end Scanner

/-! ### The blocks of a source -/

open Scanner

/-- **Blocks follow the indentation of lines.** The places of the marks are natural numbers; where
they are kept in 32 bits, this holds of sources of fewer than `2 ^ 32` bytes. -/
theorem blocks_follow_layout (file source : String) :
    -- blocks start and end at the lines where the rule says, and those left open end with the text
    (∀ tokens, tokenize file source = .ok tokens →
      ∃ marks stack, alignLines [0] (heededLines source) = some (marks, stack) ∧
        blockMarks tokens =
          marks ++ stack.tail.map fun _ => ⟨.dedent, byteLength source.toList⟩) ∧
    -- the indentation is refused where the rule refuses it
    ((∀ c position, tokenize file source ≠ .error ⟨.unrecognisedToken c, position⟩) →
      ((∃ position, tokenize file source = .error ⟨.inconsistentIndentation, position⟩) ↔
        alignLines [0] (heededLines source) = none)) := by
  obtain ⟨ts, s, cs, last, hr, hends, hrun⟩ :=
    exists_ends_of_run (.start : Reaches file source _ _ _)
  have haligned := hr.aligned
  rw [alignAhead_start, List.nil_append] at haligned
  rw [haligned, tokenize, hrun]
  cases hends with
  | finished =>
    have hnil : s.alignAhead [] = some ([], s.widths) := by
      rw [alignAhead, ahead_nil]
      rfl
    have hend : s.offset = byteLength source.toList := hr.covered.text.offset_add
    rw [hnil]
    constructor
    · rintro _ ⟨⟩
      refine ⟨_, _, rfl, ?_⟩
      rw [blockMarks_append, blockMarks_finish, hend]
      simp
    · intro _
      constructor
      · rintro ⟨_, ⟨⟩⟩
      · rintro ⟨⟩
  | misaligned hstart hindent hrest hblank hadjust =>
    rw [alignAhead_line hstart (hr.agrees.lineStart hstart).1 hindent hrest hblank,
      alignLine_eq hr.nested.stack, hadjust]
    constructor
    · rintro _ ⟨⟩
    · exact fun _ => ⟨fun _ => rfl, fun _ => ⟨_, rfl⟩⟩
  | unrecognised =>
    constructor
    · rintro _ ⟨⟩
    · exact fun h => absurd rfl (h _ _)

/-- A tab is wider than four spaces, and the outermost block narrower. -/
theorem blocks_follow_layout_misaligned :
    (∃ position, tokenize "f" "if a:\n\tb\n    c\n" = .error ⟨.inconsistentIndentation, position⟩) ∧
      alignLines [0] (heededLines "if a:\n\tb\n    c\n") = none :=
  have h : tokenize "f" "if a:\n\tb\n    c\n" =
      .error ⟨.inconsistentIndentation, ⟨"f", 13⟩⟩ := by decide +kernel
  ⟨⟨_, h⟩, ((blocks_follow_layout "f" "if a:\n\tb\n    c\n").2
    fun _ _ hother => nomatch h.symm.trans hother).1 ⟨_, h⟩⟩

/-- A carriage return behind the indentation hides a line that opens a block. -/
theorem blocks_left_open :
    (tokenize "f" "a\n  \rb\n").map blockMarks = .ok [] ∧
      alignLines [0] (countedLines "a\n  \rb\n") = some ([⟨.indent, 4⟩], [2, 0]) := by
  decide +kernel

end DefToC
