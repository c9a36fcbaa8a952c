import DefToC.Proofs.Syntax.Sources
import DefToC.Proofs.Token.LineEndings

/-!
# Tokens with blanks between them

A token can be taken out of its source: the pattern that took its text there takes the same text
where nothing or a blank follows it (`Token.CutOff.spaced`). For a number this is so because a
fraction or an exponent that was left behind does not come back, and for a mark because no mark has
a blank in it. So a row of tokens of a source, written with single blanks between them, is cut into
the same tokens again, and its end adds only the end of one line.
-/

namespace DefToC

namespace Pattern

variable {u v w lexeme rest : List Char} {n : Nat} {p : Pattern} {kind : TokenKind}

/-! ### A lexeme is found without what follows it -/

theorem takeWhile_front {part : Char → Bool}
    (h : ((u ++ v).takeWhile part).length ≤ u.length) :
    (u ++ v).takeWhile part = u.takeWhile part := by
  rw [List.takeWhile_append] at h ⊢
  split
  · rename_i hall
    rw [if_pos hall, List.length_append] at h
    have hnil : v.takeWhile part = [] := List.length_eq_zero_iff.1 (by omega)
    rw [hnil, List.append_nil, (u.takeWhile_sublist part).eq_of_length hall]
  · rfl

theorem runLength?_front {start part : Char → Bool}
    (h : runLength? start part (u ++ v) = some n) (hn : n ≤ u.length) :
    runLength? start part u = some n := by
  cases u with
  | nil => exact absurd (runLength?_pos h) (Nat.not_lt.2 hn)
  | cons c u =>
    simp only [List.cons_append, runLength?, Option.ite_none_right_eq_some, Option.some.injEq,
      List.length_cons] at h hn ⊢
    rw [← takeWhile_front (v := v) (by omega)]
    exact h

theorem fractionLength_front (h : fractionLength (u ++ v) ≤ u.length) :
    fractionLength (u ++ v) = fractionLength u := by
  cases u with
  | nil => exact Nat.le_zero.1 h
  | cons c u =>
    by_cases hc : c = '.'
    · subst hc
      simp only [List.cons_append, fractionLength, List.length_cons] at h ⊢
      rw [takeWhile_front (by omega)]
    · simp [fractionLength, hc]

theorem signLength_front (h : u ≠ []) : signLength (u ++ v) = signLength u := by
  obtain ⟨c, u, rfl⟩ := List.exists_cons_of_ne_nil h
  by_cases hplus : c = '+'
  · rw [hplus]
    rfl
  · by_cases hminus : c = '-'
    · rw [hminus]
      rfl
    · simp [signLength, hplus, hminus]

theorem exponentLength_front (h : exponentLength (u ++ v) ≤ u.length) :
    exponentLength (u ++ v) = exponentLength u := by
  cases u with
  | nil => exact Nat.le_zero.1 h
  | cons c u =>
    rw [List.cons_append] at h ⊢
    by_cases hu : u = []
    · -- a letter on its own is no exponent, and an exponent is longer than one letter
      subst hu
      simp only [exponentLength, List.nil_append, List.length_singleton] at h ⊢
      split at h
      · rename_i hexp
        have := List.length_pos_iff.2 hexp.2
        omega
      · simp_all
    · have hsign := signLength_le u
      simp only [exponentLength, signLength_front hu, List.drop_append_of_le_length hsign,
        List.length_cons] at h ⊢
      by_cases hdigits : ((u.drop (signLength u) ++ v).takeWhile Char.isDigit).length ≤
          (u.drop (signLength u)).length
      · rw [takeWhile_front hdigits]
      · -- digits beyond the cut would make the exponent too long
        have hpos := (Nat.zero_le _).trans_lt (Nat.lt_of_not_le hdigits)
        have hne := List.length_pos_iff.1 hpos
        rw [List.length_drop] at hdigits
        by_cases hc : c = 'e' ∨ c = 'E'
        · rw [if_pos ⟨hc, hne⟩] at h
          omega
        · simp [hc]

theorem numberLength?_front (h : numberLength? (u ++ v) = some n) (hn : n ≤ u.length) :
    numberLength? u = some n := by
  simp only [numberLength?, Option.ite_none_left_eq_some, Option.some.injEq] at h ⊢
  obtain ⟨hwhole, rfl⟩ := h
  have hdigits : (u ++ v).takeWhile Char.isDigit = u.takeWhile Char.isDigit :=
    takeWhile_front (by omega)
  rw [hdigits] at hwhole hn ⊢
  refine ⟨hwhole, ?_⟩
  rw [List.drop_append_of_le_length (by omega)] at hn ⊢
  have hfraction := fractionLength_front (u := u.drop (u.takeWhile Char.isDigit).length) (v := v)
    (by rw [List.length_drop]; omega)
  rw [hfraction] at hn ⊢
  rw [List.drop_append_of_le_length (by omega)] at hn ⊢
  rw [exponentLength_front (by rw [List.length_drop]; omega)]

theorem textLength?_front {text : List Char} (h : textLength? text (u ++ v) = some n)
    (hn : n ≤ u.length) : textLength? text u = some n := by
  obtain ⟨rest, heq, rfl⟩ := textLength?_append h
  have hfront : text <+: u :=
    List.prefix_of_prefix_length_le ⟨rest, heq.symm⟩ (List.prefix_append u v) hn
  rw [textLength?, if_pos hfront]

/-- **A pattern takes the same text if what follows is cut off.** -/
theorem match?_front (hverbatim : p.isVerbatim = true) (h : p.match? (u ++ v) = some n)
    (hn : n ≤ u.length) : p.match? u = some n := by
  cases p with
  | word => exact runLength?_front h hn
  | number => exact numberLength?_front h hn
  | opening | closing | mark => exact textLength?_front h hn
  | lineEnd | separators | joinedLine | comment => cases hverbatim

theorem lineEndLength?_none (h : lineEndLength? (u ++ v) = none) : lineEndLength? u = none := by
  unfold lineEndLength? at h ⊢
  split
  · cases h
  · cases h
  · rfl

/-- A pattern that does not fit a text does not fit a front part of it. -/
theorem match?_none_front (h : p.match? (u ++ v) = none) : p.match? u = none := by
  have hrun {start part : Char → Bool} (h : runLength? start part (u ++ v) = none) :
      runLength? start part u = none := by
    cases u with
    | nil => rfl
    | cons c u => simpa [runLength?] using h
  have htext {text : List Char} (h : textLength? text (u ++ v) = none) :
      textLength? text u = none := by
    simp only [textLength?, ite_eq_right_iff, reduceCtorEq, imp_false] at h ⊢
    exact fun hfront => h (hfront.trans (List.prefix_append u v))
  cases p with
  | word | separators | comment => exact hrun h
  | number =>
    simp only [match?, numberLength?, ite_eq_left_iff, reduceCtorEq, imp_false, not_not,
      List.length_eq_zero_iff] at h ⊢
    rw [← takeWhile_front (v := v) (by simp [h]), h]
  | lineEnd => exact lineEndLength?_none h
  | joinedLine =>
    cases u with
    | nil => rfl
    | cons c u =>
      by_cases hc : c = '\\'
      · subst hc
        simp only [match?, joinedLineLength?, List.cons_append, Option.map_eq_none_iff] at h ⊢
        exact lineEndLength?_none h
      · simp [match?, joinedLineLength?, hc]
  | opening | closing | mark => exact htext h

/-! ### A blank behind a lexeme -/

/-- The text is at its end or goes on with a blank. -/
def Spaced (cs : List Char) : Prop := ∀ d ∈ cs.head?, d = ' '

theorem Spaced.stops (hw : Spaced w) : Stops w := by
  intro d hd
  rw [hw d hd]
  exact .inr rfl

theorem lineEndLength?_spaced (hw : Spaced w) (h : lineEndLength? u = none) :
    lineEndLength? (u ++ w) = none := by
  rcases u with _ | ⟨c, _ | ⟨d, u⟩⟩
  · cases w with
    | nil => rfl
    | cons d w => rw [hw d rfl]; rfl
  · by_cases hc : c = '\n'
    · rw [hc] at h
      cases h
    · cases w with
      | nil => simpa using h
      | cons d w => simp [hw d rfl, lineEndLength?, hc]
  · unfold lineEndLength? at h ⊢
    split
    · simp_all
    · simp_all
    · rfl

/-- A pattern that does not fit a text does not fit it with a blank behind it. -/
theorem match?_none_spaced (hp : p ∈ table) (hne : u ≠ []) (hw : Spaced w)
    (h : p.match? u = none) : p.match? (u ++ w) = none := by
  obtain ⟨c, u, rfl⟩ := List.exists_cons_of_ne_nil hne
  cases p with
  | word | number | opening | closing | mark => rw [match?_stop hp rfl hw.stops, h]
  | separators | comment => simpa [match?, runLength?] using h
  | lineEnd => exact lineEndLength?_spaced hw h
  | joinedLine =>
    by_cases hc : c = '\\'
    · subst hc
      simp only [match?, joinedLineLength?, List.cons_append, Option.map_eq_none_iff] at h ⊢
      exact lineEndLength?_spaced hw h
    · simp [match?, joinedLineLength?, hc]

/-- The first pattern that fits is the one behind patterns that do not. -/
theorem first?_eq_some_iff {cs : List Char} : first? cs = some (p, n) ↔
    ∃ before after, table = before ++ p :: after ∧ p.match? cs = some n ∧
      ∀ q ∈ before, q.match? cs = none := by
  simp only [first?, List.findSome?_eq_some_iff, Option.map_eq_some_iff, Option.map_eq_none_iff,
    Prod.mk.injEq]
  constructor
  · rintro ⟨before, q, after, htable, ⟨m, hm, rfl, rfl⟩, hbefore⟩
    exact ⟨before, after, htable, hm, hbefore⟩
  · rintro ⟨before, after, htable, hm, hbefore⟩
    exact ⟨before, p, after, htable, ⟨n, hm, rfl, rfl⟩, hbefore⟩

/-- **A lexeme of a text is one on its own, and with a blank behind it.** -/
theorem first?_spaced (hverbatim : p.isVerbatim = true)
    (h : first? (lexeme ++ rest) = some (p, lexeme.length)) (hw : Spaced w) :
    first? (lexeme ++ w) = some (p, lexeme.length) := by
  have hne : lexeme ≠ [] := List.length_pos_iff.1 (first?_pos h)
  obtain ⟨hp, -⟩ := match?_of_first? h
  obtain ⟨before, after, htable, hm, hbefore⟩ := first?_eq_some_iff.1 h
  refine first?_eq_some_iff.2 ⟨before, after, htable, ?_, fun q hq => ?_⟩
  · rw [match?_stop hp hverbatim hw.stops]
    exact match?_front hverbatim hm le_rfl
  · have hmem : q ∈ table := by simp [htable, hq]
    exact match?_none_spaced hmem hne hw (match?_none_front (hbefore q hq))

/-- The kind of the token with a lexeme for its text, if the lexeme leaves such a token. -/
def kind? (lexeme : List Char) : Pattern → Option TokenKind
  | word => some (.ofWord (String.ofList lexeme))
  | number => some .number
  | opening _ kind | closing _ kind | mark _ kind => some kind
  | lineEnd | separators | joinedLine | comment => none

theorem isVerbatim_of_kind? (h : p.kind? lexeme = some kind) : p.isVerbatim = true := by
  cases p <;> first
    | rfl
    | cases h

end Pattern

open Pattern

/-! ### Tokens that are cut off -/

/-- The token is cut off from its text in front of `rest`. -/
def Token.CutOff (t : Token) (rest : List Char) : Prop :=
  ∃ p, first? (t.value.toList ++ rest) = some (p, t.value.toList.length) ∧
    p.kind? t.value.toList = some t.kind

theorem Token.CutOff.spaced {t : Token} {rest w : List Char} (h : t.CutOff rest) (hw : Spaced w) :
    t.CutOff w := by
  obtain ⟨p, hfirst, hkind⟩ := h
  exact ⟨p, first?_spaced (isVerbatim_of_kind? hkind) hfirst hw, hkind⟩

/-- The characters that may indent a line or leave it blank. -/
def isLeading (c : Char) : Bool := c ∈ [' ', '\t', '\x0c', '\n', '\r', '#']

theorem not_isSeparator_of_not_isLeading {c : Char} (h : isLeading c = false) :
    isSeparator c = false := by
  simp only [isLeading, List.mem_cons, List.not_mem_nil, or_false, decide_eq_false_iff_not,
    not_or] at h
  simp [isSeparator, h]

theorem not_isLeading_of_isWordPart {c : Char} (h : isWordPart c = true) : isLeading c = false := by
  by_contra hc
  have hall : [' ', '\t', '\x0c', '\n', '\r', '#'].all (fun c => !isWordPart c) = true := by decide
  simp only [isLeading, decide_eq_false_iff_not, not_not] at hc
  simpa [h] using List.all_eq_true.1 hall c hc

theorem not_isLeading_of_fixed? {p : Pattern} (hp : p ∈ table) {text : List Char}
    (htext : p.fixed? = some text) : ∀ c ∈ text, isLeading c = false := by
  have hall : table.all (fun p => p.fixed?.all (·.all fun c => !isLeading c)) = true := by
    decide +kernel
  intro c hc
  have hall' := List.all_eq_true.1 hall p hp
  rw [htext] at hall'
  simpa using List.all_eq_true.1 hall' c hc

/-- No token begins with such a character. -/
theorem Token.CutOff.exists_head {t : Token} {rest : List Char} (h : t.CutOff rest) :
    ∃ c cs, t.value.toList = c :: cs ∧ isLeading c = false := by
  obtain ⟨p, hfirst, hkind⟩ := h
  obtain ⟨hp, hm⟩ := match?_of_first? hfirst
  obtain ⟨c, cs, hcs⟩ := List.exists_cons_of_length_pos (first?_pos hfirst)
  refine ⟨c, cs, hcs, ?_⟩
  have htext {text : List Char} (htext : p.fixed? = some text) (heq : t.value.toList = text) :
      isLeading c = false :=
    not_isLeading_of_fixed? hp htext c (by simp [← heq, hcs])
  cases p with
  | word =>
    obtain ⟨d, ds, hds, hd, -⟩ := runLength?_append hm
    obtain ⟨rfl, -⟩ := List.cons.inj (hcs.symm.trans hds)
    exact not_isLeading_of_isWordPart (isWordPart_of_isWordStart hd)
  | number =>
    obtain ⟨_, hwritten⟩ := isWritten_of_numberLength? hm
    obtain ⟨d, ds, hds, hd⟩ := hwritten.isDigit
    obtain ⟨rfl, -⟩ := List.cons.inj (hcs.symm.trans hds)
    exact not_isLeading_of_isWordPart (by simp [isWordPart, Char.isAlphanum, hd])
  | opening | closing | mark => exact htext rfl (eq_of_textLength? hm)
  | lineEnd | separators | joinedLine | comment => cases hkind

namespace Scanner

variable {file source : String} {s s' : Scanner} {piece rest cs lexeme : List Char}
  {ts us tokens : List Token} {p : Pattern} {kind : TokenKind}

/-- A lexeme that is the text of a token leaves that token, and the line has a token. -/
theorem take_of_kind? (s : Scanner) (hfirst : first? (lexeme ++ rest) = some (p, lexeme.length))
    (h : p.kind? lexeme = some kind) :
    ∃ s' : Scanner, s.take lexeme p = ([s.token kind lexeme], s') ∧
      s'.lineStart = s.lineStart ∧ s'.widths = s.widths ∧ s'.lineEmpty = false := by
  obtain ⟨-, hm⟩ := match?_of_first? hfirst
  cases p with
  | word | number =>
    cases h
    exact ⟨_, rfl, rfl, rfl, rfl⟩
  | opening | closing | mark =>
    obtain rfl := eq_of_textLength? hm
    cases h
    exact ⟨_, rfl, rfl, rfl, rfl⟩
  | lineEnd | separators | joinedLine | comment => cases h

/-- What a step leaves is layout, or it is cut off where the step ends. -/
theorem cutOff_step (h : s.Step piece rest us s') :
    ∀ t ∈ us, t.kind.isLayout = true ∨ t.CutOff rest := by
  cases h with
  | blank => exact List.forall_mem_nil _
  | line _ _ _ _ hadjust =>
    exact fun t ht => .inl (TokenKind.isLayout_of_block (blocks_of_adjustIndents hadjust t ht))
  | @lexeme p _ _ _ hfirst =>
    have hcut {kind : TokenKind} (hkind : p.kind? piece = some kind) :
        ∀ t ∈ (s.take piece p).1, t.kind.isLayout = true ∨ t.CutOff rest := by
      obtain ⟨s', htake, -⟩ := s.take_of_kind? hfirst hkind
      rw [htake]
      refine List.forall_mem_singleton.2 (.inr ⟨p, ?_, ?_⟩)
      · rwa [token, String.toList_ofList]
      · rwa [token, String.toList_ofList]
    cases p with
    | word | number | opening | closing | mark => exact hcut rfl
    | separators | joinedLine | comment => exact List.forall_mem_nil _
    | lineEnd =>
      intro t ht
      simp only [take] at ht
      split at ht
      · split at ht
        · cases ht
        · rw [List.mem_singleton.1 ht]
          exact .inl rfl
      · cases ht

theorem Reaches.cutOff (h : Reaches file source ts s cs) :
    ∀ t ∈ ts, t.kind.isLayout = true ∨ ∃ rest, t.CutOff rest := by
  induction h with
  | start => exact List.forall_mem_nil _
  | step _ hstep ih =>
    refine List.forall_mem_append.2 ⟨ih, fun t ht => ?_⟩
    exact (cutOff_step hstep t ht).imp_right fun hcut => ⟨_, hcut⟩

end Scanner

/-- Every token of a source that is written there is cut off from its text. -/
theorem cutOff_of_tokenize {file source : String} {tokens : List Token}
    (h : tokenize file source = .ok tokens) {t : Token} (ht : t ∈ tokens)
    (hlayout : t.kind.isLayout = false) (heof : t.kind ≠ .eof) : ∃ rest, t.CutOff rest := by
  obtain ⟨ts, s, hr, rfl⟩ := Scanner.exists_reaches_of_tokenize h
  have hwritten : ¬t.kind.isLayout = true := by simp [hlayout]
  rcases List.mem_append.1 ht with ht | ht
  · exact (hr.cutOff t ht).resolve_left hwritten
  · exact absurd ((Scanner.mem_finish ht).2.resolve_left hwritten) heof

/-! ### Rows of tokens -/

/-- The text is the tokens one after another, perhaps with a blank in front of some of them. -/
inductive IsRow : List Token → List Char → Prop where
  | nil : IsRow [] []
  | blank {ts : List Token} {rest : List Char} : (∀ d ∈ rest.head?, isSeparator d = false) →
      IsRow ts rest → IsRow ts (' ' :: rest)
  | token {t : Token} {ts : List Token} {rest : List Char} : t.CutOff rest → IsRow ts rest →
      IsRow (t :: ts) (t.value.toList ++ rest)

/-- The tokens at the end of a text of one line, without their places. An empty line is not
closed. -/
def lineClosing (isEmpty : Bool) : List Token :=
  (if isEmpty then [] else [⟨.newline, "", .nowhere⟩]) ++ [⟨.eof, "EOF", .nowhere⟩]

namespace Scanner

variable {s : Scanner} {ts : List Token} {cs : List Char}

theorem bare_finish (hw : s.widths.length = 1) :
    s.finish.map Token.bare = lineClosing s.lineEmpty := by
  have hnil : s.widths.drop 1 = [] := List.drop_eq_nil_of_le hw.le
  rw [finish, hnil, lineClosing]
  cases s.lineEmpty <;> rfl

theorem first?_blank {rest : List Char} (h : ∀ d ∈ rest.head?, isSeparator d = false) :
    first? (' ' :: rest) = some (.separators, 1) := by
  have hfirst : first? (' ' :: rest) =
      some (.separators, 1 + (rest.takeWhile isSeparator).length) := rfl
  have hnil : rest.takeWhile isSeparator = [] := by
    cases rest with
    | nil => rfl
    | cons d rest => simp [h d rfl]
  rw [hfirst, hnil]
  rfl

/-- A row of tokens on a line that is begun is cut into these tokens, and the line is closed. -/
theorem run_isRow (h : IsRow ts cs) (hstart : s.lineStart = false)
    (hw : s.widths.length = 1) :
    bareResult (List.map Token.bare) (s.run cs) =
      .ok (ts.map Token.bare ++ lineClosing (s.lineEmpty && ts.isEmpty)) := by
  induction h generalizing s with
  | nil =>
    rw [run_nil, List.isEmpty_nil, Bool.and_true, ← bare_finish hw]
    rfl
  | blank hrest _ ih =>
    have hnext := ih (s := s.skip [' ']) hstart hw
    rw [run_of_lexeme hstart (first?_blank hrest), bareResult_map_append]
    exact (congrArg (Except.map _) hnext).trans rfl
  | @token t ts rest hcut _ ih =>
    obtain ⟨p, hfirst, hkind⟩ := hcut
    obtain ⟨s', htake, hstart', hwidths, hempty⟩ := s.take_of_kind? hfirst hkind
    rw [run_of_lexeme hstart hfirst, List.take_left, List.drop_left, htake, bareResult_map_append,
      ih (hstart'.trans hstart) (by rw [hwidths, hw]), hempty]
    simp [Except.map, token, Token.bare]

end Scanner

/-- A text that is a row of tokens is cut into them. -/
theorem tokenize_of_isRow (file : String) {source : String} {ts : List Token}
    (h : IsRow ts source.toList) (hhead : source.toList.head? ≠ some ' ') :
    bareResult (List.map Token.bare) (tokenize file source) =
      .ok (ts.map Token.bare ++ lineClosing ts.isEmpty) := by
  unfold tokenize
  generalize source.toList = cs at h hhead
  cases h with
  | nil =>
    rw [Scanner.run_nil]
    rfl
  | blank => exact absurd rfl hhead
  | @token t ts rest hcut hrest =>
    -- the line has no indentation and is not blank, so it opens no block
    obtain ⟨c, cs, hcs, hc⟩ := hcut.exists_head
    obtain ⟨hindent, hblank⟩ :
        isIndentation c = false ∧ isBlankLine (c :: (cs ++ rest)) = false := by
      simp only [isLeading, List.mem_cons, List.not_mem_nil, or_false, decide_eq_false_iff_not,
        not_or] at hc
      simp [isIndentation, isBlankLine, hc]
    have hrow := IsRow.token hcut hrest
    rw [hcs, List.cons_append] at hrow ⊢
    have htake : (c :: (cs ++ rest)).takeWhile isIndentation = [] := by simp [hindent]
    have hdrop : (c :: (cs ++ rest)).dropWhile isIndentation = c :: (cs ++ rest) := by
      simp [hindent]
    have hadjust : adjustIndents (Scanner.start file).widths
        (indentWidth ((c :: (cs ++ rest)).takeWhile isIndentation)) = some ([], [0]) := by
      rw [htake]
      rfl
    rw [Scanner.run_of_line (List.cons_ne_nil _ _) rfl (by rw [hdrop, hblank]) hadjust, hdrop,
      bareResult_map_append, Scanner.run_isRow hrow rfl rfl]
    rfl

theorem head?_intercalate_cons (sep : List Char) (c : Char) (cs : List Char)
    (css : List (List Char)) : (sep.intercalate ((c :: cs) :: css)).head? = some c := by
  cases css with
  | nil => simp
  | cons ds css => simp [List.intercalate_cons_cons]

theorem isRow_spaced {ts : List Token} (h : ∀ t ∈ ts, ∃ rest, t.CutOff rest) :
    IsRow ts ([' '].intercalate (ts.map fun t => t.value.toList)) := by
  induction ts with
  | nil => exact .nil
  | cons t ts ih =>
    obtain ⟨⟨_, ht⟩, hts⟩ := List.forall_mem_cons.1 h
    cases ts with
    | nil =>
      have hsingle : IsRow [t] (t.value.toList ++ []) := .token (ht.spaced nofun) .nil
      simpa using hsingle
    | cons t' ts =>
      obtain ⟨_, ht'⟩ := hts t' List.mem_cons_self
      obtain ⟨c, cs, hcs, hc⟩ := ht'.exists_head
      have hnext := ih hts
      rw [List.map_cons, hcs] at hnext
      rw [List.map_cons, List.map_cons, hcs, List.intercalate_cons_cons, List.append_assoc]
      refine .token (ht.spaced fun d hd => (Option.some.inj hd).symm)
        (.blank (fun d hd => ?_) hnext)
      obtain rfl : c = d := Option.some.inj ((head?_intercalate_cons _ c cs _).symm.trans hd)
      exact not_isSeparator_of_not_isLeading hc

/-- **Tokens of a source are read again from their texts.** Tokens that are written in a source,
brackets closed or not, are cut into the same tokens again when their texts stand one after another
with single blanks between them. Only the end of the line is added, and the end of the text. -/
theorem tokenize_spaced {file source : String} {tokens ts : List Token}
    (h : tokenize file source = .ok tokens) (hts : ts.Sublist tokens)
    (hwritten : ∀ t ∈ ts, t.kind.isLayout = false ∧ t.kind ≠ .eof) (file' : String) :
    ∃ tokens', tokenize file' (" ".intercalate (ts.map Token.value)) = .ok tokens' ∧
      tokens'.map Token.bare = ts.map Token.bare ++ lineClosing ts.isEmpty := by
  have hcut : ∀ t ∈ ts, ∃ rest, t.CutOff rest := fun t ht =>
    cutOff_of_tokenize h (hts.subset ht) (hwritten t ht).1 (hwritten t ht).2
  have htext : (" ".intercalate (ts.map Token.value)).toList =
      [' '].intercalate (ts.map fun t => t.value.toList) := by
    rw [String.toList_intercalate, List.map_map]
    rfl
  have hhead : (" ".intercalate (ts.map Token.value)).toList.head? ≠ some ' ' := by
    rw [htext]
    cases ts with
    | nil => nofun
    | cons t ts =>
      obtain ⟨_, ht⟩ := hcut t List.mem_cons_self
      obtain ⟨c, cs, hcs, hc⟩ := ht.exists_head
      rw [List.map_cons, hcs, head?_intercalate_cons]
      rintro ⟨⟩
      cases hc
  exact bareResult_eq_ok_iff.1 (tokenize_of_isRow file' (htext ▸ isRow_spaced hcut) hhead)

/-- The tokens of `x//=1.e-(2.5E+3[if` on a line that is indented. -/
def unclosedTokens : List Token :=
  [⟨.indent, "", ⟨"f", 2, 2⟩⟩, ⟨.identifier, "x", ⟨"f", 2, 3⟩⟩,
   ⟨.slashSlashEquals, "//=", ⟨"f", 3, 6⟩⟩, ⟨.number, "1.", ⟨"f", 6, 8⟩⟩,
   ⟨.identifier, "e", ⟨"f", 8, 9⟩⟩, ⟨.dash, "-", ⟨"f", 9, 10⟩⟩, ⟨.openParen, "(", ⟨"f", 10, 11⟩⟩,
   ⟨.number, "2.5E+3", ⟨"f", 11, 17⟩⟩, ⟨.openBracket, "[", ⟨"f", 17, 18⟩⟩,
   ⟨.ifWord, "if", ⟨"f", 18, 20⟩⟩, ⟨.newline, "", ⟨"f", 21, 21⟩⟩, ⟨.dedent, "", ⟨"f", 21, 21⟩⟩,
   ⟨.eof, "EOF", ⟨"f", 21, 21⟩⟩]

theorem tokenize_spaced_unclosed :
    tokenize "f" "  x//=1.e-(2.5E+3[if\n" = .ok unclosedTokens ∧
      ∃ tokens', tokenize "g" "x //= 1. e - ( 2.5E+3 [ if" = .ok tokens' ∧
        tokens'.map Token.bare = ((unclosedTokens.drop 1).take 9).map Token.bare ++
          [⟨.newline, "", .nowhere⟩, ⟨.eof, "EOF", .nowhere⟩] := by
  have htokens : tokenize "f" "  x//=1.e-(2.5E+3[if\n" = .ok unclosedTokens := by decide +kernel
  have hsublist : ((unclosedTokens.drop 1).take 9).Sublist unclosedTokens :=
    (List.take_sublist _ _).trans (List.drop_sublist _ _)
  exact ⟨htokens, tokenize_spaced htokens hsublist (by decide) "g"⟩

end DefToC
