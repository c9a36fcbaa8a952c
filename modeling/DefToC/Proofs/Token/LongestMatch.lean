import DefToC.Proofs.Token.Coverage
import DefToC.Proofs.Token.Regex
import DefToC.Proofs.Token.Simulation

/-!
# The first match is the longest

The scanner takes the first pattern of the table that matches. The order of the table is such that
no pattern behind it has a longer match, so the scanner always takes as many characters as any
pattern can.

Two patterns that match in front of the same text begin with the same character. This tells most of
them apart (`Pattern.lead`). What is left are the line end, which comes in front of the separators
because of the carriage return, and the fixed texts: of two that begin alike the longer one comes
first (`Pattern.yields_of_table`).

The scanner works in rounds. One round passes over the indentation of a line, if there is one to be
counted, and takes a lexeme. `Scanner.Round` says what a round does, and every round takes
characters from the text.
-/

namespace DefToC

namespace Pattern

variable {p q : Pattern} {c : Char} {cs : List Char} {n m : Nat}

/-! ### Patterns that match the same text -/

/-- What a pattern can begin with. -/
inductive Lead where
  | word
  | digit
  /-- A separator or a line feed. -/
  | blank
  | backslash
  | comment
  | sign
  deriving DecidableEq

def Lead.of (c : Char) : Lead :=
  if isWordStart c then .word
  else if c.isDigit then .digit
  else if isSeparator c || c == '\n' then .blank
  else if c = '\\' then .backslash
  else if c = '#' then .comment
  else .sign

def lead : Pattern → Lead
  | word => .word
  | number => .digit
  | lineEnd | separators => .blank
  | joinedLine => .backslash
  | comment => .comment
  | opening _ _ | closing _ _ | mark _ _ => .sign

theorem lead_of_fixed? {t : List Char} (h : p.fixed? = some t) : p.lead = .sign := by
  cases p <;> first | rfl | cases h

/-- Every fixed text begins with a sign. -/
theorem of_fixed? (hp : p ∈ table) (h : p.fixed? = some (c :: cs)) : Lead.of c = .sign := by
  have hall : table.all (fun q => (q.fixed?.bind List.head?).all (Lead.of · = .sign)) = true := by
    decide
  simpa [h] using List.all_eq_true.1 hall p hp

theorem of_runLength? {start part : Char → Bool} (h : runLength? start part (c :: cs) = some n) :
    start c = true := by
  by_contra hc
  simp [runLength?, hc] at h

theorem of_blank (h : isSeparator c = true ∨ c = '\n') : Lead.of c = .blank := by
  simp only [isSeparator, Bool.or_eq_true, beq_iff_eq] at h
  rcases h with (((rfl | rfl) | rfl) | rfl) | rfl <;> decide

theorem lead_eq (hp : p ∈ table) (h : p.match? (c :: cs) = some n) : p.lead = Lead.of c := by
  have hfixed {t : List Char} (ht : p.fixed? = some t) : p.lead = Lead.of c := by
    rw [match?_of_fixed? ht] at h
    obtain ⟨rest, heq, rfl⟩ := textLength?_append h
    cases t with
    | nil => exact absurd (match?_pos hp (by rw [match?_of_fixed? ht, h])) (by simp)
    | cons d t =>
      obtain ⟨rfl, -⟩ := List.cons.inj heq
      rw [of_fixed? hp ht, lead_of_fixed? ht]
  cases p with
  | word =>
    have hc : isWordStart c = true := of_runLength? h
    simp [lead, Lead.of, hc]
  | number =>
    obtain ⟨hne, -⟩ : ((c :: cs).takeWhile Char.isDigit).length ≠ 0 ∧ _ := by
      simpa [match?, numberLength?] using h
    have hc : c.isDigit = true := by
      by_contra hc
      simp [hc] at hne
    have hword : isWordStart c = false := by
      by_contra hword
      rw [not_isDigit_of_isWordStart (eq_true_of_ne_false hword)] at hc
      cases hc
    simp [lead, Lead.of, hc, hword]
  | lineEnd =>
    have hc : isSeparator c = true ∨ c = '\n' := by
      simp only [match?, lineEndLength?] at h
      split at h
      · simp_all
      · simp_all [isSeparator]
      · cases h
    exact (of_blank hc).symm
  | separators => exact (of_blank (.inl (of_runLength? h))).symm
  | joinedLine =>
    have hc : c = '\\' := by
      simp only [match?, joinedLineLength?] at h
      split at h
      · simp_all
      · cases h
    subst hc
    decide
  | comment =>
    obtain rfl : c = '#' := by simpa using of_runLength? h
    decide
  | opening bracket _ => exact hfixed rfl
  | closing bracket _ => exact hfixed rfl
  | mark text _ => exact hfixed rfl

/-- What the order of two patterns rests on. -/
def yields : Pattern → Pattern → Bool
  | lineEnd, separators => true
  | p, q =>
    match p.fixed?, q.fixed? with
    | some t, some u => !(t.isPrefixOf u)
    | _, _ => p.lead ≠ q.lead

theorem yields_of_table : table.Pairwise fun p q => p.yields q = true := by
  decide

/-- In front of a carriage return and a line feed the line end takes both, the separators only the
first. -/
theorem separators_le_lineEnd (hp : lineEndLength? cs = some n)
    (hq : runLength? isSeparator isSeparator cs = some m) : m ≤ n := by
  unfold lineEndLength? at hp
  split at hp
  · cases hq
  · rename_i cs
    obtain rfl : 1 = m := Option.some.inj hq
    obtain rfl : 2 = n := Option.some.inj hp
    decide
  · cases hp

theorem le_of_yields (hp : p ∈ table) (hq : q ∈ table) (hyields : p.yields q = true)
    (hn : p.match? cs = some n) (hm : q.match? cs = some m) : m ≤ n := by
  have hlead : p.lead = q.lead := by
    cases cs with
    | nil => exact absurd (match?_pos hp hn) (Nat.not_lt.2 (match?_le hn))
    | cons c cs => rw [lead_eq hp hn, lead_eq hq hm]
  unfold yields at hyields
  split at hyields
  · exact separators_le_lineEnd hn hm
  · split at hyields
    · rename_i t u ht hu
      rw [match?_of_fixed? ht] at hn
      rw [match?_of_fixed? hu] at hm
      obtain ⟨front, hfront, rfl⟩ := textLength?_append hn
      obtain ⟨back, hback, rfl⟩ := textLength?_append hm
      -- the one text continues the other, and the first does not continue in the second
      rcases List.prefix_or_prefix_of_prefix ⟨front, hfront.symm⟩ ⟨back, hback.symm⟩ with htu | hut
      · rw [List.isPrefixOf_iff_prefix.2 htu] at hyields
        cases hyields
      · exact hut.length_le
    · exact absurd hlead (by simpa using hyields)

/-! ### The first match -/

theorem exists_split_of_first? (h : first? cs = some (p, n)) :
    ∃ before after, table = before ++ p :: after ∧ (∀ q ∈ before, q.match? cs = none) ∧
      p.match? cs = some n := by
  obtain ⟨before, p', after, htable, hp, hbefore⟩ := List.findSome?_eq_some_iff.1 h
  obtain ⟨n', hn, heq⟩ := Option.map_eq_some_iff.1 hp
  obtain ⟨rfl, rfl⟩ := Prod.mk.inj heq
  exact ⟨before, after, htable, fun q hq => by simpa using hbefore q hq, hn⟩

/-- **The first match is the longest.** -/
theorem match?_le_first? (h : first? cs = some (p, n)) (hq : q ∈ table)
    (hm : q.match? cs = some m) : m ≤ n := by
  obtain ⟨hp, -⟩ := match?_of_first? h
  obtain ⟨before, after, htable, hbefore, hn⟩ := exists_split_of_first? h
  have hpairs := yields_of_table
  rw [htable] at hq hpairs
  rcases List.mem_append.1 hq with hq | hq
  · cases (hbefore q hq).symm.trans hm
  · rcases List.mem_cons.1 hq with rfl | hq
    · exact (Option.some.inj (hm.symm.trans hn)).le
    · have hyields := List.rel_of_pairwise_cons (List.pairwise_append.1 hpairs).2.1 hq
      exact le_of_yields hp (htable ▸ by simp [hq]) hyields hn hm

theorem ways_le_first? (h : first? cs = some (p, n)) (hq : q ∈ table)
    (hm : m ∈ q.regex.ways cs) : m ≤ n := by
  have hagrees := agrees_match? q cs
  cases hmatch : q.match? cs with
  | none =>
    rw [hmatch, Regex.agrees_none] at hagrees
    rw [hagrees] at hm
    cases hm
  | some k =>
    rw [hmatch] at hagrees
    exact (hagrees.longest m hm).trans (match?_le_first? h hq hmatch)

theorem exists_first?_of_ways (hq : q ∈ table) (hways : q.regex.ways cs ≠ []) :
    ∃ p n, first? cs = some (p, n) := by
  cases hfirst : first? cs with
  | none =>
    have hnone : q.match? cs = none := by
      simpa using List.findSome?_eq_none_iff.1 hfirst q hq
    have hagrees := agrees_match? q cs
    rw [hnone] at hagrees
    exact absurd hagrees hways
  | some found => exact ⟨found.1, found.2, rfl⟩

end Pattern

/-! ### Rounds of the scanner -/

namespace Scanner

open Pattern

variable {file source : String} {ts us : List Token} {s s' : Scanner} {cs piece rest : List Char}

/-- One round in front of a text: the piece that it passes over and what follows the piece, the
tokens that it leaves, and the state behind the piece. -/
inductive Round (s : Scanner) : List Char → List Char → List Token → Scanner → Prop where
  /-- Inside a line a round takes a lexeme. -/
  | lexeme {piece rest : List Char} {us : List Token} {s' : Scanner} : s.lineStart = false →
      s.Step piece rest us s' → Round s piece rest us s'
  /-- At the start of a line it passes over the indentation first. -/
  | line {indentation piece rest : List Char} {ts us : List Token} {s₁ s₂ : Scanner} :
      s.lineStart = true → s.Step indentation (piece ++ rest) ts s₁ → s₁.Step piece rest us s₂ →
      Round s (indentation ++ piece) rest (ts ++ us) s₂
  /-- Nothing may follow the indentation. -/
  | last {indentation : List Char} {ts : List Token} {s₁ : Scanner} : s.lineStart = true →
      s.Step indentation [] ts s₁ → Round s indentation [] ts s₁

/-- A round that fails, at its start or behind the indentation of a line. -/
inductive Stops (s : Scanner) : List Char → Error → Prop where
  | start {cs : List Char} {e : Error} : s.Ends cs (.error e) → Stops s cs e
  | behind {indentation cs : List Char} {ts : List Token} {s₁ : Scanner} {e : Error} :
      s.lineStart = true → s.Step indentation cs ts s₁ → cs ≠ [] → s₁.Ends cs (.error e) →
      Stops s (indentation ++ cs) e

/-- **Every round takes characters.** -/
theorem Round.ne_nil (h : s.Round piece rest us s') : piece ≠ [] := by
  cases h with
  | lexeme hstart hstep => exact hstep.ne_nil hstart
  | line hstart hindent hstep =>
    have hpiece := hstep.ne_nil (hindent.lineStart_eq hstart)
    simp [hpiece]
  | last hstart hindent =>
    cases hindent with
    | blank _ hne => simpa using hne
    | line _ _ _ hblank => cases hblank
    | lexeme hline => simp [hstart] at hline

/-- The scanner makes a round in front of every text, or fails in it. -/
theorem run_round (hne : cs ≠ []) :
    (∃ piece rest us s', cs = piece ++ rest ∧ s.Round piece rest us s' ∧
      s.run cs = (s'.run rest).map (us ++ ·)) ∨
    ∃ e, s.Stops cs e ∧ s.run cs = .error e := by
  rcases run_step (s := s) hne with ⟨piece, rest, us, s', rfl, hstep, hrun⟩ | ⟨e, hends, hrun⟩
  · cases hstart : s.lineStart with
    | false => exact .inl ⟨piece, rest, us, s', rfl, .lexeme hstart hstep, hrun⟩
    | true =>
      by_cases hrest : rest = []
      · subst hrest
        exact .inl ⟨piece, [], us, s', rfl, .last hstart hstep, hrun⟩
      · rcases run_step (s := s') hrest with ⟨lexeme, back, vs, s₂, rfl, hlexeme, hnext⟩ |
          ⟨e, hends, hnext⟩
        · refine .inl ⟨piece ++ lexeme, back, us ++ vs, s₂, by simp, .line hstart hstep hlexeme, ?_⟩
          rw [hrun, hnext, map_append_map]
        · refine .inr ⟨e, .behind hstart hstep hrest hends, ?_⟩
          rw [hrun, hnext]
          rfl
  · exact .inr ⟨e, .start hends, hrun⟩

/-! ### Tokens and their lexemes -/

/-- A token of a lexeme stands where a pattern takes just its text first. -/
def Taken (source : String) (t : Token) : Prop :=
  t.kind.isLayout = false → t.kind ≠ .eof →
    ∃ p rest, TextFrom source t.span.start (t.value.toList ++ rest) ∧
      TextFrom source t.span.stop rest ∧
      first? (t.value.toList ++ rest) = some (p, t.value.toList.length)

theorem taken_of_layout {t : Token} (h : t.kind.isLayout = true ∨ t.kind = .eof) :
    Taken source t := by
  intro hlayout heof
  rcases h with h | h
  · simp [hlayout] at h
  · exact absurd h heof

theorem taken_step (htext : TextFrom source s.offset (piece ++ rest))
    (h : s.Step piece rest us s') : ∀ t ∈ us, Taken source t := by
  intro t ht
  cases h with
  | blank => cases ht
  | line _ _ _ _ hadjust =>
    exact taken_of_layout
      (.inl (TokenKind.isLayout_of_block (blocks_of_adjustIndents hadjust t ht)))
  | @lexeme p _ _ _ hfirst =>
    have hleaves := s.leaves_take hfirst
    generalize (s.take piece p).1 = us, (s.take piece p).2 = s₂ at hleaves ht
    cases hleaves with
    | newline =>
      rw [List.mem_singleton.1 ht]
      exact taken_of_layout (.inl rfl)
    | token hkind =>
      rw [List.mem_singleton.1 ht]
      intro _ _
      have hvalue : (String.ofList piece).toList = piece := String.toList_ofList
      refine ⟨p, rest, ?_, htext.drop, ?_⟩
      · exact hvalue.symm ▸ htext
      · exact hvalue.symm ▸ hfirst
    | _ => cases ht

theorem Reaches.taken (h : Reaches file source ts s cs) : ∀ t ∈ ts, Taken source t := by
  induction h with
  | start => exact List.forall_mem_nil _
  | step hr hstep ih => exact List.forall_mem_append.2 ⟨ih, taken_step hr.covered.text hstep⟩

theorem taken_of_tokenize {tokens : List Token} (h : tokenize file source = .ok tokens) :
    ∀ t ∈ tokens, Taken source t := by
  obtain ⟨ts, s, hr, rfl⟩ := exists_reaches_of_tokenize h
  refine List.forall_mem_append.2 ⟨hr.taken, fun t ht => ?_⟩
  exact taken_of_layout (mem_finish ht).2

end Scanner

open Scanner

/-- **The scanner takes the longest match in every round.** -/
theorem scanner_takes_longest :
    -- of the patterns that match, the first one of the table has a longest match, and it takes it
    (∀ (cs : List Char) (q : Pattern), q ∈ Pattern.table → q.regex.ways cs ≠ [] →
      ∃ before p after n, Pattern.table = before ++ p :: after ∧
        (∀ r ∈ before, r.regex.ways cs = []) ∧ (p.regex.ways cs).head? = some n ∧
        0 < n ∧ n ≤ cs.length ∧ (∀ r ∈ Pattern.table, ∀ m ∈ r.regex.ways cs, m ≤ n) ∧
        (∀ t ∈ p.fixed?, cs.take n = t) ∧
        ∀ s : Scanner, (s.take (cs.take n) p).2.offset = s.offset + byteLength (cs.take n) ∧
          (s.lineStart = false → s.run cs =
            ((s.take (cs.take n) p).2.run (cs.drop n)).map ((s.take (cs.take n) p).1 ++ ·))) ∧
    -- so where a token stands no pattern has a longer match
    (∀ (file source : String) (tokens : List Token), tokenize file source = .ok tokens →
      ∀ t ∈ tokens, t.kind.isLayout = false → t.kind ≠ .eof →
        ∃ rest, TextFrom source t.span.start (t.value.toList ++ rest) ∧
          TextFrom source t.span.stop rest ∧ ∀ q ∈ Pattern.table,
            ∀ m ∈ q.regex.ways (t.value.toList ++ rest), m ≤ t.value.toList.length) ∧
    -- and every round takes something from the text, unless it fails
    ∀ (s : Scanner) (cs : List Char), cs ≠ [] →
      (∃ piece rest us s', cs = piece ++ rest ∧ piece ≠ [] ∧ s.Round piece rest us s' ∧
        s.run cs = (s'.run rest).map (us ++ ·)) ∨
      ∃ e, s.Stops cs e ∧ s.run cs = .error e := by
  refine ⟨fun cs q hq hways => ?_, fun file source tokens h t ht hlayout heof => ?_,
    fun s cs hne => ?_⟩
  · obtain ⟨p, n, hfirst⟩ := Pattern.exists_first?_of_ways hq hways
    obtain ⟨before, after, htable, hbefore, hn⟩ := Pattern.exists_split_of_first? hfirst
    have hagrees := Pattern.agrees_match? p cs
    rw [hn] at hagrees
    have hlexeme : Pattern.first? (cs.take n ++ cs.drop n) = some (p, (cs.take n).length) := by
      rw [List.take_append_drop, List.length_take_of_le (Pattern.match?_le hn), hfirst]
    refine ⟨before, p, after, n, htable, fun r hr => ?_, hagrees.first, Pattern.first?_pos hfirst,
      Pattern.match?_le hn, fun r hr m hm => Pattern.ways_le_first? hfirst hr hm,
      fun t ht => Pattern.take_eq_of_fixed? hn ht,
      fun s => ⟨offset_take s hlexeme, fun hstart => run_of_lexeme hstart hfirst⟩⟩
    have hnone := Pattern.agrees_match? r cs
    rwa [hbefore r hr] at hnone
  · obtain ⟨p, rest, hstart, hstop, hfirst⟩ := taken_of_tokenize h t ht hlayout heof
    exact ⟨rest, hstart, hstop, fun q hq m hm => Pattern.ways_le_first? hfirst hq hm⟩
  · rcases run_round (s := s) hne with ⟨piece, rest, us, s', hcs, hround, hrun⟩ | hstops
    · exact .inl ⟨piece, rest, us, s', hcs, hround.ne_nil, hround, hrun⟩
    · exact .inr hstops

/-- The tokens of a division that changes a variable. -/
def divisionTokens : List Token :=
  [⟨.identifier, "a", ⟨"f", 0, 1⟩⟩, ⟨.slashSlashEquals, "//=", ⟨"f", 1, 4⟩⟩,
   ⟨.number, "1.5e3", ⟨"f", 4, 9⟩⟩, ⟨.newline, "", ⟨"f", 9, 9⟩⟩, ⟨.eof, "EOF", ⟨"f", 9, 9⟩⟩]

theorem scanner_takes_longest_division :
    tokenize "f" "a//=1.5e3" = .ok divisionTokens ∧
      ∀ t ∈ divisionTokens, t.kind.isLayout = false → t.kind ≠ .eof →
        ∃ rest, TextFrom "a//=1.5e3" t.span.start (t.value.toList ++ rest) ∧
          TextFrom "a//=1.5e3" t.span.stop rest ∧ ∀ q ∈ Pattern.table,
            ∀ m ∈ q.regex.ways (t.value.toList ++ rest), m ≤ t.value.toList.length :=
  have h : tokenize "f" "a//=1.5e3" = .ok divisionTokens := by decide +kernel
  ⟨h, scanner_takes_longest.2.1 "f" "a//=1.5e3" divisionTokens h⟩

end DefToC
