import DefToC.Diagnostic
import DefToC.Proofs.Source.Lines
import DefToC.Proofs.Source.Positions
import DefToC.Proofs.Token.Regex
import Mathlib

/-!
# The caret of a diagnostic

A diagnostic shows the line of an error without the blanks around it, and a caret under the line.
The caret is placed by counting the bytes of the line in front of the error, less the spaces and
tabs at the start of the line. So it stands under the character at fault if two things hold: each
character in front of it has one byte, and the line begins with no other blanks.

The first always holds: only comments have longer characters, and nothing but the end of the line
follows a comment (`OnLine`). The second does not, because form feeds and carriage returns may begin
a line as well. `caret_column` counts by how much they move the caret, and `caret_moved` is a line
where they do.
-/

namespace DefToC

/-! ### Characters of one byte -/

/-- A character of one byte that does not end a line. -/
def IsNarrow (c : Char) : Prop := c.utf8Size = 1 ∧ c ≠ '\n'

theorem isNarrow_of_toNat_le {c : Char} (hle : c.toNat ≤ 127) (hfeed : c ≠ '\n') : IsNarrow c :=
  ⟨Char.utf8Size_eq_one_iff.2 hle, hfeed⟩

theorem isNarrow_of_isWordPart {c : Char} (h : isWordPart c = true) : IsNarrow c := by
  refine isNarrow_of_toNat_le ((toNat_le_of_isWordPart h).trans (by decide)) ?_
  rintro rfl
  cases h

theorem isNarrow_of_isDigit {c : Char} (h : c.isDigit = true) : IsNarrow c := by
  apply isNarrow_of_isWordPart
  simp [isWordPart, Char.isAlphanum, h]

theorem isNarrow_of_isSeparator {c : Char} (h : isSeparator c = true) : IsNarrow c := by
  simp only [isSeparator, Bool.or_eq_true, beq_iff_eq] at h
  rcases h with ((rfl | rfl) | rfl) | rfl <;> exact ⟨rfl, by decide⟩

theorem byteLength_of_narrow {cs : List Char} (h : ∀ c ∈ cs, c.utf8Size = 1) :
    byteLength cs = cs.length := by
  induction cs with
  | nil => rfl
  | cons c cs ih =>
    obtain ⟨hc, hcs⟩ := List.forall_mem_cons.1 h
    rw [byteLength, hc, ih hcs, List.length_cons, Nat.add_comm]

namespace Pattern

variable {p : Pattern}

theorem isNarrow_of_fixed? {t : List Char} (hp : p ∈ table) (h : p.fixed? = some t) :
    ∀ c ∈ t, IsNarrow c := by
  have hall : table.all (fun q => q.fixed?.all
      (·.all fun c => c.toNat ≤ 127 && c != '\n')) = true := by
    decide
  have ht := List.all_eq_true.1 hall p hp
  rw [h] at ht
  intro c hc
  have hchar := List.all_eq_true.1 ht c hc
  simp only [Bool.and_eq_true, decide_eq_true_eq, bne_iff_ne] at hchar
  exact isNarrow_of_toNat_le hchar.1 hchar.2

/-- A lexeme that has no line end and is no comment is made of characters of one byte. -/
theorem within_isNarrow (hp : p ∈ table) (hend : p ∉ [lineEnd, joinedLine, comment]) :
    p.regex.Within IsNarrow := by
  cases p with
  | word =>
    exact ⟨fun c hc => isNarrow_of_isWordPart (isWordPart_of_isWordStart hc),
      fun c hc => isNarrow_of_isWordPart hc⟩
  | number =>
    have hdigits : (Regex.plus Char.isDigit).Within IsNarrow :=
      ⟨fun c hc => isNarrow_of_isDigit hc, fun c hc => isNarrow_of_isDigit hc⟩
    have hsign : Regex.sign.Within IsNarrow := by
      intro c hc
      simp only [Bool.or_eq_true, beq_iff_eq] at hc
      rcases hc with rfl | rfl <;> exact ⟨rfl, by decide⟩
    have hfraction : Regex.fraction.Within IsNarrow := by
      refine ⟨fun c hc => ?_, fun c hc => isNarrow_of_isDigit hc⟩
      rw [beq_iff_eq.1 hc]
      exact ⟨rfl, by decide⟩
    have hexponent : Regex.exponent.Within IsNarrow := by
      refine ⟨fun c hc => ?_, hsign, hdigits⟩
      simp only [Bool.or_eq_true, beq_iff_eq] at hc
      rcases hc with rfl | rfl <;> exact ⟨rfl, by decide⟩
    exact ⟨hdigits, hfraction, hexponent⟩
  | separators =>
    exact ⟨fun c hc => isNarrow_of_isSeparator hc, fun c hc => isNarrow_of_isSeparator hc⟩
  | lineEnd => simp at hend
  | joinedLine => simp at hend
  | comment => simp at hend
  | opening bracket _ => exact Regex.within_text (isNarrow_of_fixed? hp rfl)
  | closing bracket _ => exact Regex.within_text (isNarrow_of_fixed? hp rfl)
  | mark fixed _ => exact Regex.within_text (isNarrow_of_fixed? hp rfl)

end Pattern

/-! ### Places on their lines -/

/-- A front part of a text that does not stop inside a line. -/
def WholeLines (cs : List Char) : Prop := ∀ c ∈ cs.getLast?, c = '\n'

/-- The text from a byte of the source, seen from its line: in front of it the line has characters
of one byte only, unless it ends there. -/
def OnLine (source : String) (offset : Nat) (cs : List Char) : Prop :=
  ∃ earlier front, source.toList = earlier ++ (front ++ cs) ∧
    byteLength (earlier ++ front) = offset ∧ WholeLines earlier ∧ '\n' ∉ front ∧
    ((∀ c ∈ front, c.utf8Size = 1) ∨ ∀ c ∈ cs.head?, c = '\n')

namespace OnLine

variable {source : String} {offset : Nat} {piece rest cs : List Char}

theorem start (source : String) : OnLine source 0 source.toList :=
  ⟨[], [], rfl, rfl, by simp [WholeLines], List.not_mem_nil, .inl (List.forall_mem_nil _)⟩

theorem narrow (h : OnLine source offset (piece ++ rest)) (hpiece : ∀ c ∈ piece, IsNarrow c) :
    OnLine source (offset + byteLength piece) rest := by
  obtain ⟨earlier, front, hsource, rfl, hwhole, hfeed, hline⟩ := h
  refine ⟨earlier, front ++ piece, by simp [hsource], by simp [byteLength_append, Nat.add_assoc],
    hwhole, ?_, ?_⟩
  · rw [List.mem_append, not_or]
    exact ⟨hfeed, fun hmem => (hpiece _ hmem).2 rfl⟩
  · cases piece with
    | nil => simpa using hline
    | cons c piece =>
      have hc : c ≠ '\n' := (hpiece c List.mem_cons_self).2
      have hfront := hline.resolve_right fun hhead => hc (hhead c rfl)
      exact .inl (List.forall_mem_append.2 ⟨hfront, fun d hd => (hpiece d hd).1⟩)

theorem comment (h : OnLine source offset (piece ++ rest)) (hpiece : '\n' ∉ piece)
    (hrest : ∀ c ∈ rest.head?, c = '\n') : OnLine source (offset + byteLength piece) rest := by
  obtain ⟨earlier, front, hsource, rfl, hwhole, hfeed, -⟩ := h
  refine ⟨earlier, front ++ piece, by simp [hsource], by simp [byteLength_append, Nat.add_assoc],
    hwhole, ?_, .inr hrest⟩
  rw [List.mem_append, not_or]
  exact ⟨hfeed, hpiece⟩

theorem lineEnd (h : OnLine source offset (piece ++ rest)) (hpiece : piece.getLast? = some '\n') :
    OnLine source (offset + byteLength piece) rest := by
  obtain ⟨earlier, front, hsource, rfl, -⟩ := h
  refine ⟨earlier ++ front ++ piece, [], by simp [hsource],
    by simp [byteLength_append, Nat.add_assoc], ?_, List.not_mem_nil,
    .inl (List.forall_mem_nil _)⟩
  intro c hc
  rw [List.getLast?_append, hpiece] at hc
  exact (Option.some.inj hc).symm

end OnLine

namespace Scanner

open Pattern

variable {file source : String} {ts us : List Token} {s s' : Scanner}
  {piece rest cs lexeme : List Char}

theorem onLine_lexeme {p : Pattern} {offset : Nat} (h : OnLine source offset (lexeme ++ rest))
    (hfirst : first? (lexeme ++ rest) = some (p, lexeme.length)) :
    OnLine source (offset + byteLength lexeme) rest := by
  obtain ⟨hp, hm⟩ := match?_of_first? hfirst
  by_cases hend : p ∉ [.lineEnd, .joinedLine, .comment]
  · apply h.narrow
    have hagrees := agrees_match? p (lexeme ++ rest)
    rw [hm] at hagrees
    have hways := List.mem_of_mem_head? hagrees.first
    simpa using (within_isNarrow hp hend).forall_mem_take hways
  · have hmem := not_not.1 hend
    simp only [List.mem_cons, List.not_mem_nil, or_false] at hmem
    rcases hmem with rfl | rfl | rfl
    · apply h.lineEnd
      rcases isLineEnd_of_lineEndLength? hm with rfl | rfl <;> rfl
    · apply h.lineEnd
      obtain ⟨lineEnd, rfl, hlineEnd⟩ := isLineEnd_of_joinedLineLength? hm
      rcases hlineEnd with rfl | rfl <;> rfl
    · obtain ⟨c, text, rfl, hc, htext, hrest⟩ := runLength?_append hm
      refine h.comment ?_ fun d hd => by simpa using hrest d hd
      rw [List.mem_cons, not_or]
      refine ⟨?_, fun hmem => by simpa using htext _ hmem⟩
      rintro rfl
      cases hc

theorem onLine_indentation {indentation : List Char}
    (h : OnLine source s.offset (indentation ++ rest))
    (hindent : ∀ c ∈ indentation, isIndentation c = true) :
    OnLine source (s.indent indentation).offset rest := by
  rw [offset_indent s hindent]
  exact h.narrow fun c hc => isNarrow_of_isSeparator (isSeparator_of_isIndentation (hindent c hc))

theorem onLine_step (h : OnLine source s.offset (piece ++ rest)) (hstep : s.Step piece rest us s') :
    OnLine source s'.offset rest := by
  cases hstep with
  | blank _ _ hindent _ => exact onLine_indentation h hindent
  | line _ hindent _ _ _ => exact onLine_indentation h hindent
  | @lexeme p _ _ _ hfirst =>
    rw [offset_take s hfirst]
    exact onLine_lexeme h hfirst

/-- Tokens begin and end where the scanner stands in front of a step or behind it. -/
theorem span_of_step (hstep : s.Step piece rest us s') : ∀ t ∈ us,
    (t.span.start = s.offset ∨ t.span.start = s'.offset) ∧ t.span.stop = s'.offset := by
  intro t ht
  cases hstep with
  | blank => cases ht
  | line =>
    obtain ⟨kind, -, rfl⟩ := List.mem_map.1 ht
    exact ⟨.inr rfl, rfl⟩
  | @lexeme p _ _ _ hfirst =>
    have hleaves := s.leaves_take hfirst
    generalize (s.take piece p).1 = us, (s.take piece p).2 = s₂ at hleaves ht ⊢
    cases hleaves with
    | newline =>
      rw [List.mem_singleton.1 ht]
      exact ⟨.inl rfl, rfl⟩
    | token =>
      rw [List.mem_singleton.1 ht]
      exact ⟨.inl rfl, rfl⟩
    | _ => cases ht

theorem Reaches.onLine (h : Reaches file source ts s cs) :
    OnLine source s.offset cs ∧
      ∀ offset, TokenBoundary ts offset → ∃ ds, OnLine source offset ds := by
  induction h with
  | start =>
    refine ⟨.start source, ?_⟩
    rintro offset ⟨t, ht, -⟩
    cases ht
  | @step ts us s s' piece rest _ hstep ih =>
    obtain ⟨hline, hts⟩ := ih
    have hnext := onLine_step hline hstep
    refine ⟨hnext, ?_⟩
    rintro offset ⟨t, ht, hoffset⟩
    rcases List.mem_append.1 ht with ht | ht
    · exact hts offset ⟨t, ht, hoffset⟩
    · obtain ⟨hstart, hstop⟩ := span_of_step hstep t ht
      rcases hoffset with rfl | rfl
      · rcases hstart with hstart | hstart
        · exact ⟨_, hstart ▸ hline⟩
        · exact ⟨_, hstart ▸ hnext⟩
      · exact ⟨_, hstop ▸ hnext⟩

end Scanner

open Scanner

/-- Where errors are, the line in front of them has characters of one byte only. -/
theorem reportable_onLine (source file : String) :
    Reportable source file fun p => ∃ cs, OnLine source p.offset cs where
  start := ⟨source.toList, .start source⟩
  scan := by
    obtain ⟨us, s, cs, last, hr, hends, hrun⟩ :=
      exists_ends_of_run (.start : Reaches file source _ _ _)
    rw [tokenize, hrun]
    cases hends with
    | finished => exact failsIn_ok _
    | misaligned _ hindent => exact failsIn_error ⟨_, onLine_indentation hr.onLine.1 hindent⟩
    | unrecognised => exact failsIn_error ⟨_, hr.onLine.1⟩
  boundary tokens offset h hoffset := by
    obtain ⟨ts, s, hr, rfl⟩ := exists_reaches_of_tokenize h
    obtain ⟨t, ht, hoffset⟩ := hoffset
    rcases List.mem_append.1 ht with ht | ht
    · exact hr.onLine.2 offset ⟨t, ht, hoffset⟩
    · rw [(mem_finish ht).1] at hoffset
      rcases hoffset with rfl | rfl <;> exact ⟨[], hr.onLine.1⟩

/-! ### Finding the line -/

theorem TextFrom.unique {source : String} {offset : Nat} {cs ds : List Char}
    (hcs : TextFrom source offset cs) (hds : TextFrom source offset ds) : cs = ds := by
  obtain ⟨a, ha, halen⟩ := hcs
  obtain ⟨b, hb, hblen⟩ := hds
  have hnil {x : List Char} (h : byteLength x = 0) : x = [] := by
    by_contra hne
    have := byteLength_pos hne
    omega
  rcases List.append_eq_append_iff.1 (ha.symm.trans hb) with ⟨x, rfl, rfl⟩ | ⟨x, rfl, rfl⟩
  · rw [byteLength_append] at hblen
    rw [hnil (x := x) (by omega), List.nil_append]
  · rw [byteLength_append] at halen
    rw [hnil (x := x) (by omega), List.nil_append]

namespace CutInto

variable {earlier rest : List Char} {pieces later : List (List Char)}

/-- Whole lines are cut on their own, after each of their line feeds. -/
theorem append (h : CutInto earlier pieces) (hwhole : WholeLines earlier)
    (hrest : CutInto rest later) :
    CutInto (earlier ++ rest) (pieces ++ later) ∧ pieces.length = earlier.count '\n' := by
  induction h with
  | nil => exact ⟨hrest, rfl⟩
  | @last cs hne hcs =>
    have hlast := hwhole _ (List.getLast?_eq_getLast_of_ne_nil hne)
    exact absurd (hlast ▸ List.getLast_mem hne) hcs
  | @line cs back pieces hcs _ ih =>
    have hback : WholeLines back := by
      intro c hc
      apply hwhole
      simp [List.getLast?_append, List.getLast?_cons, Option.mem_def.1 hc]
    obtain ⟨hcut, hlen⟩ := ih hback
    constructor
    · rw [List.append_assoc]
      exact .line hcs hcut
    · simp [hlen, List.count_eq_zero_of_not_mem hcs]

end CutInto

theorem locate_onLine {source : String} {earlier front rest : List Char} {c : Char}
    (hsource : source.toList = earlier ++ (front ++ c :: rest)) (hwhole : WholeLines earlier)
    (hfront : '\n' ∉ front) (hc : c ≠ '\n') :
    ∃ bare tail, '\n' ∉ bare ∧ (tail = bare ∨ tail = bare ++ ['\n']) ∧ bare <+: rest ∧
      locate source (byteLength (earlier ++ front)) =
        ⟨earlier.count '\n' + 1, front ++ c :: tail, byteLength front⟩ := by
  have hline {bare : List Char} (hbare : '\n' ∉ bare) : '\n' ∉ front ++ c :: bare := by
    simp [hfront, hbare, Ne.symm hc]
  have hfound {tail : List Char} {later : List (List Char)}
      (hcut : CutInto (front ++ c :: rest) ((front ++ c :: tail) :: later)) :
      locate source (byteLength (earlier ++ front)) =
        ⟨earlier.count '\n' + 1, front ++ c :: tail, byteLength front⟩ := by
    have hearlier := cutInto_splitLines earlier
    obtain ⟨hall, hlen⟩ := hearlier.append hwhole hcut
    rw [← hsource] at hall
    have hpos := c.utf8Size_pos
    have hlt : byteLength front < byteLength (front ++ c :: tail) := by
      rw [byteLength_append, byteLength]
      omega
    rw [byteLength_append, ← hlen, ← hall.locate_append hlt, hearlier.flatten_eq]
  by_cases hrest : '\n' ∈ rest
  · obtain ⟨bare, more, rfl, hbare⟩ := List.eq_append_cons_of_mem hrest
    have hcut := CutInto.line (hline hbare) (cutInto_splitLines more)
    rw [List.append_assoc, List.append_assoc, List.cons_append, List.cons_append] at hcut
    exact ⟨bare, bare ++ ['\n'], hbare, .inr rfl, List.prefix_append _ _, hfound hcut⟩
  · exact ⟨rest, rest, hrest, .inl rfl, List.prefix_rfl, hfound (.last (by simp) (hline hrest))⟩

/-! ### Showing the line -/

section

variable {p : Char → Bool} {front tail : List Char} {c : Char}

theorem takeWhile_append_cons (hc : p c = false) (front tail : List Char) :
    (front ++ c :: tail).takeWhile p = front.takeWhile p := by
  induction front with
  | nil => simp [hc]
  | cons d front ih => by_cases hd : p d = true <;> simp [hd, ih]

theorem dropWhile_append_cons (hc : p c = false) (front tail : List Char) :
    (front ++ c :: tail).dropWhile p = front.dropWhile p ++ c :: tail := by
  induction front with
  | nil => simp [hc]
  | cons d front ih => by_cases hd : p d = true <;> simp [hd, ih]

theorem isBlank_of_isMargin {c : Char} (h : isMargin c = true) : isBlank c = true := by
  simp only [isMargin, Bool.or_eq_true, beq_iff_eq] at h
  rcases h with rfl | rfl <;> decide

/-- What is behind the spaces and tabs of a line: its other first blanks, and the rest. -/
theorem dropWhile_isMargin (front : List Char) : front.dropWhile isMargin =
    (front.takeWhile isBlank).dropWhile isMargin ++ front.dropWhile isBlank := by
  induction front with
  | nil => rfl
  | cons d front ih =>
    by_cases hd : isMargin d = true
    · simp [hd, isBlank_of_isMargin hd, ih]
    · by_cases hblank : isBlank d = true
      · simp [hd, hblank]
      · simp [hd, hblank]

theorem dropWhile_isBlank (front : List Char) :
    (front.dropWhile isMargin).dropWhile isBlank = front.dropWhile isBlank := by
  induction front with
  | nil => rfl
  | cons d front ih =>
    by_cases hd : isMargin d = true
    · simp [hd, isBlank_of_isMargin hd, ih]
    · simp [hd]

/-- The blanks around a line are not shown, and a character that is not blank is. -/
theorem trim_line (hc : isBlank c = false) (front tail : List Char) :
    trim ((front ++ c :: tail).dropWhile isMargin) =
      front.dropWhile isBlank ++ c :: (tail.reverse.dropWhile isBlank).reverse := by
  rw [trim, dropWhile_isBlank, dropWhile_append_cons hc, List.reverse_append, List.reverse_cons,
    List.append_assoc, List.singleton_append, dropWhile_append_cons hc, List.reverse_append,
    List.reverse_cons, List.reverse_reverse, List.append_assoc, List.singleton_append]

/-- What is shown of the end of a line. -/
theorem trim_bare {bare : List Char} (htail : tail = bare ∨ tail = bare ++ ['\n']) :
    (tail.reverse.dropWhile isBlank).reverse <+: bare := by
  have hsuffix : tail.reverse.dropWhile isBlank <:+ bare.reverse := by
    rcases htail with rfl | rfl
    · exact List.dropWhile_suffix _
    · have hfeed : isBlank '\n' = true := by decide
      rw [List.reverse_append, List.reverse_singleton, List.singleton_append,
        List.dropWhile_cons_of_pos hfeed]
      exact List.dropWhile_suffix _
  simpa using List.reverse_prefix.2 hsuffix

end

namespace Error

/-- The diagnostic ends with the numbered line and a caret under it. -/
def Shows (e : Error) (source : String) (number : Nat) (line : List Char) (column : Nat) : Prop :=
  ∃ top : String, e.diagnostic source =
    top ++ "\n" ++ toString number ++ " | " ++ String.ofList line ++ "\n" ++
      String.ofList (List.replicate ((toString number).length + 1) ' ') ++ "| " ++
      String.ofList (List.replicate column '-') ++ "^\n"

theorem shows_of_locate {e : Error} {source : String} {place : LinePlace}
    (h : locate source e.position.offset = place) :
    e.Shows source place.number (trim (place.text.dropWhile isMargin))
      (place.column - (place.text.takeWhile isMargin).length) := by
  subst h
  refine ⟨e.headline ++ "\n" ++ ("-> " ++ e.position.file) ++ "\n" ++
    String.ofList
      (['|'].leftpad ((toString (locate source e.position.offset).number).length + 2) ' '),
    String.toList_inj.1 ?_⟩
  simp [diagnostic, diagnosticLines, String.join, List.leftpad]

end Error

/-- **The caret of a diagnostic.** The character at fault is shown on its line, and the caret stands
as many columns behind it as the line has blanks at its start from the first on that is neither a
space nor a tab. So it stands under the character exactly if there is none.

Offsets are natural numbers; where they are kept in 32 bits, this holds of sources of fewer than
`2 ^ 32` bytes. -/
theorem caret_column {source file : String} {name : Option String} {options : Options} {e : Error}
    {c : Char} {rest : List Char} (he : (emitSource source file name options).result = .error e)
    (hplace : TextFrom source e.position.offset (c :: rest)) (hc : isBlank c = false) :
    ∃ earlier front after column, source.toList = earlier ++ (front ++ c :: rest) ∧
      (∀ d ∈ earlier.getLast?, d = '\n') ∧ '\n' ∉ front ++ c :: after ∧ after <+: rest ∧
      e.Shows source (earlier.count '\n' + 1) (front.dropWhile isBlank ++ c :: after) column ∧
      column = (front.dropWhile isBlank).length +
        ((front.takeWhile isBlank).dropWhile isMargin).length ∧
      (column = (front.dropWhile isBlank).length ↔
        ∀ d ∈ front.takeWhile isBlank, isMargin d = true) := by
  have hfeed : c ≠ '\n' := by
    rintro rfl
    cases hc
  obtain ⟨cs, earlier, front, hsource, hoffset, hwhole, hfront, hnarrow⟩ :=
    (reportable_onLine source file).failsAt_emitSource name options e he
  obtain rfl : cs = c :: rest :=
    TextFrom.unique ⟨earlier ++ front, by simp [hsource], hoffset⟩ hplace
  have hnarrow := hnarrow.resolve_right fun hhead => hfeed (hhead c rfl)
  obtain ⟨bare, tail, hbare, htail, hrest, hlocate⟩ := locate_onLine hsource hwhole hfront hfeed
  rw [hoffset] at hlocate
  have hafter := trim_bare htail
  have hmargin : isMargin c = false := by
    by_contra hmargin
    rw [isBlank_of_isMargin (eq_true_of_ne_false hmargin)] at hc
    cases hc
  have hcolumn : byteLength front - (front.takeWhile isMargin).length =
      (front.dropWhile isBlank).length + ((front.takeWhile isBlank).dropWhile isMargin).length := by
    have hlen := congrArg List.length (List.takeWhile_append_dropWhile (p := isMargin) (l := front))
    have hsplit := congrArg List.length (dropWhile_isMargin front)
    rw [List.length_append] at hlen hsplit
    rw [byteLength_of_narrow hnarrow]
    omega
  have hshows := Error.shows_of_locate hlocate
  rw [trim_line hc, takeWhile_append_cons hmargin, hcolumn] at hshows
  refine ⟨earlier, front, _, _, hsource, hwhole, ?_, hafter.trans hrest, hshows, rfl, ?_⟩
  · have hnot : '\n' ∉ (tail.reverse.dropWhile isBlank).reverse := fun hmem =>
      hbare (hafter.subset hmem)
    simp only [List.mem_append, List.mem_cons, not_or]
    exact ⟨hfront, Ne.symm hfeed, hnot⟩
  · rw [Nat.add_eq_left, List.length_eq_zero_iff, List.dropWhile_eq_nil_iff]

/-- A line behind a comment with a letter of two bytes, indented by a space and a tab. -/
theorem caret_column_comment :
    (emitSource "def f():\n  # é\n \treturn x\n" "t.py" none ⟨none, [], .tab⟩).result =
      .error ⟨.undefinedVariable "x", ⟨"t.py", 25⟩⟩ ∧
    TextFrom "def f():\n  # é\n \treturn x\n" 25 ['x', '\n'] ∧ isBlank 'x' = false ∧
    ∃ earlier front after column,
      "def f():\n  # é\n \treturn x\n".toList = earlier ++ (front ++ ['x', '\n']) ∧
      (∀ d ∈ earlier.getLast?, d = '\n') ∧ '\n' ∉ front ++ 'x' :: after ∧ after <+: ['\n'] ∧
      Error.Shows ⟨.undefinedVariable "x", ⟨"t.py", 25⟩⟩ "def f():\n  # é\n \treturn x\n"
        (earlier.count '\n' + 1) (front.dropWhile isBlank ++ 'x' :: after) column ∧
      column = (front.dropWhile isBlank).length +
        ((front.takeWhile isBlank).dropWhile isMargin).length ∧
      (column = (front.dropWhile isBlank).length ↔
        ∀ d ∈ front.takeWhile isBlank, isMargin d = true) := by
  have herror : (emitSource "def f():\n  # é\n \treturn x\n" "t.py" none ⟨none, [], .tab⟩).result =
      .error ⟨.undefinedVariable "x", ⟨"t.py", 25⟩⟩ := by decide +kernel
  have htext : TextFrom "def f():\n  # é\n \treturn x\n" 25 ['x', '\n'] :=
    ⟨"def f():\n  # é\n \treturn ".toList, by decide, by decide⟩
  exact ⟨herror, htext, rfl, caret_column herror htext rfl⟩

/-- A form feed at the start of a line is not shown, but the caret is placed as if it were, and the
two spaces behind it too. -/
theorem caret_moved :
    (emitSource "def f():\n\x0c  return x\n" "t.py" none ⟨none, [], .tab⟩).result =
      .error ⟨.undefinedVariable "x", ⟨"t.py", 19⟩⟩ ∧
    TextFrom "def f():\n\x0c  return x\n" 19 ['x', '\n'] ∧ isBlank 'x' = false ∧
    Error.diagnostic ⟨.undefinedVariable "x", ⟨"t.py", 19⟩⟩ "def f():\n\x0c  return x\n" =
      "Error: UndefinedVariable (Variable `x` must be assigned before it is used)\n" ++
      "-> t.py\n" ++ "  |\n" ++ "2 | return x\n" ++ "  | ----------^\n" := by
  refine ⟨by decide +kernel, ⟨"def f():\n\x0c  return ".toList, by decide, by decide⟩, rfl, ?_⟩
  decide +kernel

end DefToC
