import DefToC.Proofs.Token.LineEndings

/-!
# Blank lines

A line of blanks, with or without a comment, leaves no token, wherever it stands. No lexeme goes on
behind a line feed, so the scanner comes to the end of each line. If no backslash joins the next
line, it is then at the start of a line whose indentation counts, or inside brackets
(`Scanner.run_append`). In both cases it passes over a blank line and is as before, only further on
in the text (`Scanner.run_blankLine`), and the tokens of the rest do not depend on where it stands
(`tokenize_blankLine`).
-/

namespace DefToC

namespace Pattern

/-! ### No lexeme goes on behind a line feed -/

variable {p : Pattern} {a : List Char}

/-- All lexemes but the ends of lines stop in front of a line feed. -/
theorem match?_feed (hp : p ∈ table) (hend : p ≠ lineEnd) (hjoined : p ≠ joinedLine)
    (u w : List Char) : p.match? (u ++ '\n' :: w) = p.match? u := by
  have hbreaks : Breaks ('\n' :: w) := fun d hd => .inl (Option.some.inj hd).symm
  have hfeed {part : Char → Bool} (h : part '\n' = false) :
      ∀ d ∈ ('\n' :: w).head?, part d = false := by
    rintro d ⟨⟩
    exact h
  cases p with
  | word | number | opening | closing | mark => exact match?_stop hp rfl hbreaks.stops u
  | separators => exact runLength?_stop u (hfeed rfl) (hfeed rfl)
  | comment => exact runLength?_stop u (hfeed rfl) (hfeed rfl)
  | lineEnd => exact absurd rfl hend
  | joinedLine => exact absurd rfl hjoined

theorem lineEndLength?_append (h : '\n' ∈ a) (x : List Char) :
    lineEndLength? (a ++ x) = lineEndLength? a := by
  cases a with
  | nil => cases h
  | cons c a =>
    by_cases hfeed : c = '\n'
    · rw [hfeed]
      rfl
    · by_cases hreturn : c = '\r'
      · subst hreturn
        have htail : '\n' ∈ a := List.mem_of_ne_of_mem (by decide) h
        obtain ⟨d, a, rfl⟩ := List.exists_cons_of_ne_nil (List.ne_nil_of_mem htail)
        by_cases hd : d = '\n'
        · rw [hd]
          rfl
        · simp [lineEndLength?, hd]
      · simp [lineEndLength?, hfeed, hreturn]

theorem match?_append (hp : p ∈ table) (h : '\n' ∈ a) (x : List Char) :
    p.match? (a ++ x) = p.match? a := by
  by_cases hend : p = lineEnd
  · rw [hend]
    exact lineEndLength?_append h x
  · by_cases hjoined : p = joinedLine
    · subst hjoined
      cases a with
      | nil => cases h
      | cons c a =>
        by_cases hc : c = '\\'
        · subst hc
          have htail : '\n' ∈ a := List.mem_of_ne_of_mem (by decide) h
          show (lineEndLength? (a ++ x)).map _ = (lineEndLength? a).map _
          rw [lineEndLength?_append htail]
        · simp [match?, joinedLineLength?, hc]
    · obtain ⟨u, w, rfl⟩ := List.append_of_mem h
      rw [List.append_assoc, List.cons_append, match?_feed hp hend hjoined,
        match?_feed hp hend hjoined]

/-- What stands behind a line feed does not count for the first lexeme. -/
theorem first?_append (h : '\n' ∈ a) (x : List Char) : first? (a ++ x) = first? a := by
  have hall : ∀ p ∈ table, p.match? (a ++ x) = p.match? a := fun p hp => match?_append hp h x
  unfold first?
  generalize table = ps at hall
  induction ps with
  | nil => rfl
  | cons p ps ih =>
    obtain ⟨hp, hps⟩ := List.forall_mem_cons.1 hall
    rw [List.findSome?_cons, List.findSome?_cons, hp, ih hps]

/-- A lexeme with a line feed ends a line. -/
theorem ends_of_match? (hp : p ∈ table) (h : '\n' ∈ a) (hmatch : p.match? a = some a.length) :
    p = lineEnd ∨ p = joinedLine := by
  by_contra hnot
  obtain ⟨hend, hjoined⟩ := not_or.1 hnot
  obtain ⟨u, w, rfl⟩ := List.append_of_mem h
  rw [match?_feed hp hend hjoined] at hmatch
  have hle := match?_le hmatch
  rw [List.length_append, List.length_cons] at hle
  omega

end Pattern

open Pattern

/-! ### Ends of lines -/

/-- The text ends with a line end, and no backslash stands in front of it. -/
structure EndsLine (cs : List Char) : Prop where
  feed : ['\n'] <:+ cs
  not_joined : ¬['\\', '\n'] <:+ cs
  not_joined_return : ¬['\\', '\r', '\n'] <:+ cs

theorem EndsLine.feed_mem {cs : List Char} (h : EndsLine cs) : '\n' ∈ cs :=
  h.feed.subset List.mem_cons_self

theorem EndsLine.of_suffix {cs rest : List Char} (h : EndsLine cs) (hrest : rest <:+ cs)
    (hne : rest ≠ []) : EndsLine rest where
  feed := List.suffix_of_suffix_length_le h.feed hrest (List.length_pos_iff.2 hne)
  not_joined hjoined := h.not_joined (hjoined.trans hrest)
  not_joined_return hjoined := h.not_joined_return (hjoined.trans hrest)

namespace Scanner

variable {s s₁ : Scanner} {a l : List Char}

/-- The scanner is between two lines: at the start of a line whose indentation counts, or inside
brackets. -/
inductive BetweenLines (s : Scanner) : Prop where
  | outside : s.lineStart = true → s.depth = 0 → s.lineEmpty = true → BetweenLines s
  | inside : s.lineStart = false → 0 < s.depth → BetweenLines s

theorem betweenLines_start (file : String) : (start file).BetweenLines := .outside rfl rfl rfl

/-- Behind a line that is not joined to the next one, the scanner is between two lines. -/
theorem betweenLines_take {p : Pattern} (ha : EndsLine a) (hstart : s.lineStart = false)
    (hfirst : first? a = some (p, a.length)) : (s.take a p).2.BetweenLines := by
  obtain ⟨hp, hmatch⟩ := match?_of_first? hfirst
  rcases ends_of_match? hp ha.feed_mem hmatch with rfl | rfl
  · by_cases hdepth : s.depth = 0
    · simp only [take, hdepth, if_true]
      exact .outside rfl hdepth rfl
    · simp only [take, hdepth, if_false]
      exact .inside hstart (Nat.pos_of_ne_zero hdepth)
  · have hjoined : joinedLineLength? (a ++ []) = some a.length := by
      rw [List.append_nil]
      exact hmatch
    obtain ⟨e, rfl, he⟩ := isLineEnd_of_joinedLineLength? hjoined
    rcases he with rfl | rfl
    · exact absurd (List.suffix_refl _) ha.not_joined
    · exact absurd (List.suffix_refl _) ha.not_joined_return

theorem split_indentation (h : '\n' ∈ a) (x : List Char) :
    (a ++ x).takeWhile isIndentation = a.takeWhile isIndentation ∧
      (a ++ x).dropWhile isIndentation = a.dropWhile isIndentation ++ x ∧
      a.dropWhile isIndentation ≠ [] := by
  induction a with
  | nil => cases h
  | cons c a ih =>
    by_cases hc : isIndentation c = true
    · have hfeed : '\n' ≠ c := by
        rintro rfl
        cases hc
      simpa [List.takeWhile_cons, List.dropWhile_cons, hc] using
        ih (List.mem_of_ne_of_mem hfeed h)
    · simp [hc]

/-- Whether a line is blank does not depend on what follows it. -/
theorem isBlankLine_append (h : '\n' ∈ a) (x : List Char) :
    isBlankLine ((a ++ x).dropWhile isIndentation) =
      isBlankLine (a.dropWhile isIndentation) := by
  obtain ⟨-, hdrop, hrest⟩ := split_indentation h x
  rw [hdrop]
  cases hcs : a.dropWhile isIndentation with
  | nil => exact absurd hcs hrest
  | cons => rfl

theorem map_nil_append (x : Except Error (List Token)) : x.map ([] ++ ·) = x := by
  cases x <;> rfl

/-- What the scanner does with the text does not depend on what follows: it fails, or it leaves
tokens and is between two lines. -/
def Completes (s : Scanner) (a : List Char) : Prop :=
  (∃ e, ∀ x, s.run (a ++ x) = .error e) ∨
    ∃ (ts : List Token) (s₁ : Scanner), s₁.BetweenLines ∧
      ∀ x, s.run (a ++ x) = (s₁.run x).map (ts ++ ·)

/-- A step in front of the rest of the text. -/
theorem Completes.step {b : List Char} (h : s₁.Completes b) (us : List Token)
    (hrun : ∀ x, s.run (a ++ x) = (s₁.run (b ++ x)).map (us ++ ·)) : s.Completes a := by
  rcases h with ⟨e, he⟩ | ⟨ts, s₂, hs₂, hts⟩
  · refine .inl ⟨e, fun x => ?_⟩
    rw [hrun, he]
    rfl
  · refine .inr ⟨us ++ ts, s₂, hs₂, fun x => ?_⟩
    rw [hrun, hts, map_append_map]

/-- **The scanner works on a text line by line**: it comes to the end of each line, whatever follows
the line. -/
theorem run_append (h : a = [] ∧ s.BetweenLines ∨ EndsLine a) : s.Completes a := by
  fun_induction run s a with
  | case1 s =>
    rcases h with ⟨-, hs⟩ | ha
    · exact .inr ⟨[], s, hs, fun x => (map_nil_append _).symm⟩
    · cases ha.feed_mem
  | case2 s a hne hstart =>
    rename_i hblank ih
    have ha := h.resolve_left fun hnil => hne hnil.1
    have hsplit := split_indentation ha.feed_mem
    have hrest := (hsplit []).2.2
    refine (ih (.inr (ha.of_suffix (a.dropWhile_suffix isIndentation) hrest))).step [] fun x => ?_
    obtain ⟨htake, hdrop, -⟩ := hsplit x
    have hblank' := (isBlankLine_append ha.feed_mem x).trans hblank
    rw [run_of_blank (by simp [hne]) hstart hblank', htake, hdrop]
    exact (map_nil_append _).symm
  | case3 s a hne hstart =>
    rename_i hblank hadjust
    have ha := h.resolve_left fun hnil => hne hnil.1
    have hsplit := split_indentation ha.feed_mem
    refine .inl ⟨⟨.inconsistentIndentation,
      ((s.indent (a.takeWhile isIndentation)).span 0).position⟩, fun x => ?_⟩
    obtain ⟨htake, -⟩ := hsplit x
    have hblank' := (isBlankLine_append ha.feed_mem x).trans (Bool.eq_false_iff.2 hblank)
    rw [run_of_misaligned (by simp [hne]) hstart hblank' (by rw [htake]; exact hadjust), htake]
  | case4 s a hne hstart =>
    rename_i hblank kinds widths hadjust ih
    have ha := h.resolve_left fun hnil => hne hnil.1
    have hsplit := split_indentation ha.feed_mem
    have hrest := (hsplit []).2.2
    refine (ih (.inr (ha.of_suffix (a.dropWhile_suffix isIndentation) hrest))).step
      (kinds.map (s.indent (a.takeWhile isIndentation)).mark) fun x => ?_
    obtain ⟨htake, hdrop, -⟩ := hsplit x
    have hblank' := (isBlankLine_append ha.feed_mem x).trans (Bool.eq_false_iff.2 hblank)
    rw [run_of_line (by simp [hne]) hstart hblank' (by rw [htake]; exact hadjust), htake, hdrop]
  | case5 s a hne hstart hfirst =>
    have ha := h.resolve_left fun hnil => hne hnil.1
    refine .inl ⟨⟨.unrecognisedToken (String.ofList (a.take 1)), (s.span 0).position⟩, fun x => ?_⟩
    rw [run_of_unrecognised (by simp [hne]) (Bool.eq_false_iff.2 hstart)
      ((first?_append ha.feed_mem x).trans hfirst),
      List.take_append_of_le_length (List.length_pos_iff.2 hne)]
  | case6 s a hne hstart p n hfirst =>
    rename_i ih
    rw [advance_of_first? hfirst] at ih
    have ha := h.resolve_left fun hnil => hne hnil.1
    have hle : n ≤ a.length := match?_le (match?_of_first? hfirst).2
    have hstart' := Bool.eq_false_iff.2 hstart
    refine (ih ?_).step (s.take (a.take n) p).1 fun x => ?_
    · by_cases hrest : a.drop n = []
      · refine .inl ⟨hrest, ?_⟩
        obtain rfl : n = a.length := Nat.le_antisymm hle (List.drop_eq_nil_iff.1 hrest)
        show (s.take (a.take a.length) p).2.BetweenLines
        rw [List.take_length]
        exact betweenLines_take ha hstart' hfirst
      · exact .inr (ha.of_suffix (a.drop_suffix n) hrest)
    · rw [run_of_lexeme hstart' ((first?_append ha.feed_mem x).trans hfirst),
        List.take_append_of_le_length hle, List.drop_append_of_le_length hle]

end Scanner

/-! ### Passing over a blank line -/

/-- A comment up to the end of its line, or none. -/
def IsComment (cs : List Char) : Prop := cs = [] ∨ ∃ text, cs = '#' :: text ∧ '\n' ∉ text

/-- A line of spaces, tabs and form feeds, with or without a comment behind them. -/
inductive BlankLine : List Char → Prop where
  | mk {indentation comment e : List Char} : (∀ c ∈ indentation, c ∈ [' ', '\t', '\x0c']) →
      IsComment comment → IsLineEnd e → BlankLine (indentation ++ (comment ++ e))

theorem isIndentation_and_isSeparator {c : Char} (h : c ∈ [' ', '\t', '\x0c']) :
    isIndentation c = true ∧ isSeparator c = true := by
  simp only [List.mem_cons, List.not_mem_nil, or_false] at h
  rcases h with rfl | rfl | rfl <;> exact ⟨rfl, rfl⟩

theorem length_run {part : Char → Bool} {run : List Char} {d : Char}
    (hrun : ∀ c ∈ run, part c = true) (hd : part d = false) (x : List Char) :
    1 + ((run ++ d :: x).takeWhile part).length = run.length + 1 := by
  have hnot : ¬part d = true := by simp [hd]
  rw [List.takeWhile_append_of_pos hrun, List.takeWhile_cons_of_neg hnot, List.append_nil,
    Nat.add_comm]

theorem first?_comment {text : List Char} (htext : '\n' ∉ text) (x : List Char) :
    first? ('#' :: text ++ '\n' :: x) = some (.comment, ('#' :: text).length) := by
  have hfirst (cs : List Char) :
      first? ('#' :: cs) = some (.comment, 1 + (cs.takeWhile (· != '\n')).length) := rfl
  have hall : ∀ c ∈ text, (c != '\n') = true := fun c hc =>
    bne_iff_ne.2 fun hfeed => htext (hfeed ▸ hc)
  rw [List.cons_append, hfirst, length_run hall rfl, List.length_cons]

theorem first?_separators {c d : Char} {seps : List Char} (hc : c ∈ [' ', '\t', '\x0c'])
    (hseps : ∀ c ∈ seps, isSeparator c = true) (hd : isSeparator d = false) (x : List Char) :
    first? (c :: seps ++ d :: x) = some (.separators, (c :: seps).length) := by
  have hfirst (cs : List Char) :
      first? (c :: cs) = some (.separators, 1 + (cs.takeWhile isSeparator).length) := by
    simp only [List.mem_cons, List.not_mem_nil, or_false] at hc
    rcases hc with rfl | rfl | rfl <;> rfl
  rw [List.cons_append, hfirst, length_run hseps hd, List.length_cons]

namespace Scanner

variable {s : Scanner} {t indentation comment e : List Char}

/-- The scanner is on a line, and the end of the line leaves no token. -/
structure OnQuietLine (s : Scanner) : Prop where
  lineStart : s.lineStart = false
  lineEmpty : s.depth = 0 → s.lineEmpty = true

theorem OnQuietLine.skip (hs : s.OnQuietLine) (lexeme : List Char) :
    (s.skip lexeme).OnQuietLine := ⟨hs.lineStart, hs.lineEmpty⟩

/-- The scanner passes over the text without leaving a token. If the indentation of lines counts, it
is then at the start of a line. -/
def Passes (s : Scanner) (t : List Char) : Prop :=
  ∃ s' : Scanner, s'.widths = s.widths ∧ s'.depth = s.depth ∧ s'.lineEmpty = s.lineEmpty ∧
    s'.lineStart = decide (s.depth = 0) ∧ ∀ x, s.run (t ++ x) = s'.run x

theorem passes_lineEnd (hs : s.OnQuietLine) (he : IsLineEnd e) : s.Passes e := by
  have hrun (x : List Char) : s.run (e ++ x) =
      ((s.take e .lineEnd).2.run x).map ((s.take e .lineEnd).1 ++ ·) := by
    rw [run_of_lexeme hs.lineStart (first?_lineEnd he x), List.take_left, List.drop_left]
  by_cases hdepth : s.depth = 0
  · have hempty := hs.lineEmpty hdepth
    simp only [take, hdepth, hempty, if_true] at hrun
    refine ⟨{ s.skip e with lineStart := true, lineEmpty := true }, rfl, rfl, hempty.symm, ?_,
      fun x => (hrun x).trans (map_nil_append _)⟩
    rw [decide_eq_true hdepth]
  · simp only [take, hdepth, if_false] at hrun
    refine ⟨s.skip e, rfl, rfl, rfl, ?_, fun x => (hrun x).trans (map_nil_append _)⟩
    rw [decide_eq_false hdepth]
    exact hs.lineStart

/-- A run of separators or a comment leaves no token in front of a text that is passed over. -/
theorem Passes.of_skip {p : Pattern} {lexeme : List Char} (hs : s.OnQuietLine)
    (h : (s.skip lexeme).Passes t) (hp : p = .separators ∨ p = .comment)
    (hfirst : ∀ x, first? (lexeme ++ (t ++ x)) = some (p, lexeme.length)) :
    s.Passes (lexeme ++ t) := by
  obtain ⟨s', hwidths, hdepth, hempty, hstart, hpass⟩ := h
  refine ⟨s', hwidths, hdepth, hempty, hstart, fun x => ?_⟩
  have htake : s.take lexeme p = ([], s.skip lexeme) := by rcases hp with rfl | rfl <;> rfl
  rw [List.append_assoc, run_of_lexeme hs.lineStart (hfirst x), List.take_left, List.drop_left,
    htake, map_nil_append, hpass]

theorem passes_comment (hs : s.OnQuietLine) (hcomment : IsComment comment) (he : IsLineEnd e) :
    s.Passes (comment ++ e) := by
  have hpass {text : List Char} (htext : '\n' ∉ text) : s.Passes ('#' :: text ++ ['\n']) :=
    Passes.of_skip hs (passes_lineEnd (hs.skip _) (.inl rfl)) (.inr rfl) (first?_comment htext)
  rcases hcomment with rfl | ⟨text, rfl, htext⟩
  · exact passes_lineEnd hs he
  · rcases he with rfl | rfl
    · exact hpass htext
    · -- the comment takes the carriage return of the line end
      have hreturn : '\n' ∉ text ++ ['\r'] := by simp [htext]
      simpa using hpass hreturn

/-- Inside a line the blanks are separators. -/
theorem passes_blanks (hs : s.OnQuietLine)
    (hindentation : ∀ c ∈ indentation, c ∈ [' ', '\t', '\x0c']) (hcomment : IsComment comment)
    (he : IsLineEnd e) : s.Passes (indentation ++ (comment ++ e)) := by
  cases indentation with
  | nil =>
    show s.Passes (comment ++ e)
    exact passes_comment hs hcomment he
  | cons c indentation =>
    obtain ⟨hc, hrest⟩ := List.forall_mem_cons.1 hindentation
    have hseps : ∀ d ∈ indentation, isSeparator d = true := fun d hd =>
      (isIndentation_and_isSeparator (hrest d hd)).2
    have hpass := passes_comment (hs.skip (c :: indentation)) hcomment he
    rcases hcomment with rfl | ⟨text, rfl, htext⟩
    · rcases he with rfl | rfl
      · exact .of_skip hs hpass (.inl rfl) (first?_separators hc hseps rfl)
      · -- the carriage return of the line end is one more separator
        have hseps' : ∀ d ∈ indentation ++ ['\r'], isSeparator d = true :=
          List.forall_mem_append.2 ⟨hseps, List.forall_mem_singleton.2 rfl⟩
        simpa using Passes.of_skip hs (passes_lineEnd (hs.skip _) (.inl rfl)) (.inl rfl)
          (first?_separators hc hseps' rfl)
    · exact .of_skip hs hpass (.inl rfl) fun x => first?_separators hc hseps rfl _

/-- At the start of a line the blanks are its indentation, and the line is known to be blank by what
follows them. -/
theorem run_blanks (hstart : s.lineStart = true)
    (hindentation : ∀ c ∈ indentation, c ∈ [' ', '\t', '\x0c']) (hcomment : IsComment comment)
    (he : IsLineEnd e) (x : List Char) : s.run (indentation ++ (comment ++ e) ++ x) =
      (s.indent indentation).run (comment ++ e ++ x) := by
  obtain ⟨d, t, ht, hd, hblank⟩ : ∃ d t, comment ++ e ++ x = d :: t ∧ isIndentation d = false ∧
      isBlankLine (d :: t) = true := by
    rcases hcomment with rfl | ⟨text, rfl, -⟩
    · rcases he with rfl | rfl <;> exact ⟨_, _, rfl, rfl, rfl⟩
    · exact ⟨_, _, rfl, rfl, rfl⟩
  have hall : ∀ c ∈ indentation, isIndentation c = true := fun c hc =>
    (isIndentation_and_isSeparator (hindentation c hc)).1
  have hnot : ¬isIndentation d = true := by simp [hd]
  have hdrop : (indentation ++ d :: t).dropWhile isIndentation = d :: t := by
    rw [List.dropWhile_append_of_pos hall, List.dropWhile_cons_of_neg hnot]
  have htake : (indentation ++ d :: t).takeWhile isIndentation = indentation := by
    rw [List.takeWhile_append_of_pos hall, List.takeWhile_cons_of_neg hnot, List.append_nil]
  rw [List.append_assoc, ht, run_of_blank (by simp) hstart (by rw [hdrop, hblank]), hdrop, htake]

/-- **A blank line between two lines changes nothing** but the place where the scanner stands. -/
theorem run_blankLine {l : List Char} (hs : s.BetweenLines) (hl : BlankLine l) :
    ∃ s', s.Alike s' ∧ ∀ x, s.run (l ++ x) = s'.run x := by
  obtain @⟨indentation, comment, e, hindentation, hcomment, he⟩ := hl
  cases hs with
  | outside hstart hdepth hempty =>
    obtain ⟨s', hwidths, hdepth', hempty', hstart', hrun⟩ :=
      passes_comment (s := s.indent indentation) ⟨rfl, fun _ => hempty⟩ hcomment he
    refine ⟨s', ⟨hwidths, hdepth', ?_, hempty'⟩, fun x => ?_⟩
    · rw [hstart', hstart]
      exact decide_eq_true hdepth
    · rw [run_blanks hstart hindentation hcomment he, hrun]
  | inside hstart hdepth =>
    have hquiet : s.OnQuietLine := ⟨hstart, fun h => absurd h hdepth.ne'⟩
    obtain ⟨s', hwidths, hdepth', hempty, hstart', hrun⟩ :=
      passes_blanks hquiet hindentation hcomment he
    refine ⟨s', ⟨hwidths, hdepth', ?_, hempty⟩, hrun⟩
    rw [hstart', decide_eq_false hdepth.ne', hstart]

end Scanner

/-- **Blank lines leave no token**, wherever they stand between two lines. -/
theorem tokenize_blankLine {a l : String} (file b : String)
    (ha : a = "" ∨ EndsLine a.toList) (hl : BlankLine l.toList) :
    bareResult (List.map Token.bare) (tokenize file (a ++ l ++ b)) =
      bareResult (List.map Token.bare) (tokenize file (a ++ b)) := by
  have hstart := Scanner.betweenLines_start file
  unfold tokenize
  rw [String.toList_append, String.toList_append, String.toList_append, List.append_assoc]
  have hlines : a.toList = [] ∧ (Scanner.start file).BetweenLines ∨ EndsLine a.toList :=
    ha.imp_left fun hempty => ⟨String.toList_eq_nil_iff.2 hempty, hstart⟩
  rcases Scanner.run_append hlines with ⟨e, herror⟩ | ⟨ts, s, hs, hrun⟩
  · rw [herror, herror]
  · obtain ⟨s', halike, hpass⟩ := Scanner.run_blankLine hs hl
    rw [hrun, hrun, hpass, bareResult_map_append, bareResult_map_append,
      Scanner.run_alike indistinct_eq rfl halike]

end DefToC
