import DefToC.Proofs.Token.Lexemes

/-!
# Runs of the scanner

The scanner works on a text piece by piece. `Scanner.Step` is one step: it passes over a piece at
the front of the text, leaves tokens and changes the state. `Scanner.Ends` is what the scanner comes
to where it makes no further step: the end of the text, or a piece that is wrong. In front of every
text it does one or the other (`Scanner.run_step`).

`Scanner.Reaches` collects the states that are reached from the start of a source text, with the
tokens left on the way, so what holds at the start and is kept by every step holds throughout every
run. A source that is cut into tokens is one whose end is reached, and its tokens are those left on
the way and those that close the text.
-/

namespace DefToC

namespace Scanner

open Pattern

/-! ### Steps and runs -/

/-- One step in front of a text: the piece that it passes over and what follows the piece, the
tokens that it leaves, and the state behind the piece. -/
inductive Step (s : Scanner) : List Char → List Char → List Token → Scanner → Prop where
  /-- The indentation of a blank line does not count. -/
  | blank {indentation rest : List Char} : s.lineStart = true → indentation ++ rest ≠ [] →
      (∀ c ∈ indentation, isIndentation c = true) → isBlankLine rest = true →
      Step s indentation rest [] (s.indent indentation)
  /-- The indentation of any other line opens or closes blocks. -/
  | line {indentation rest : List Char} {kinds : List TokenKind} {widths : List Nat} :
      s.lineStart = true → (∀ c ∈ indentation, isIndentation c = true) →
      (∀ c ∈ rest.head?, isIndentation c = false) → isBlankLine rest = false →
      adjustIndents s.widths (indentWidth indentation) = some (kinds, widths) →
      Step s indentation rest (kinds.map (s.indent indentation).mark)
        { s.indent indentation with widths }
  | lexeme {p : Pattern} {lexeme rest : List Char} : s.lineStart = false →
      Pattern.first? (lexeme ++ rest) = some (p, lexeme.length) →
      Step s lexeme rest (s.take lexeme p).1 (s.take lexeme p).2

/-- The state that stands in front of the given text, with the tokens left on the way to it. -/
inductive Reaches (file source : String) : List Token → Scanner → List Char → Prop where
  | start : Reaches file source [] (start file) source.toList
  | step {ts us : List Token} {s s' : Scanner} {piece rest : List Char} :
      Reaches file source ts s (piece ++ rest) → s.Step piece rest us s' →
      Reaches file source (ts ++ us) s' rest

/-- What a run comes to in front of a text where it makes no further step. -/
inductive Ends (s : Scanner) : List Char → Except Error (List Token) → Prop where
  | finished : Ends s [] (.ok s.finish)
  /-- A line goes back to a width that no open block has. -/
  | misaligned {indentation rest : List Char} : s.lineStart = true →
      (∀ c ∈ indentation, isIndentation c = true) →
      (∀ c ∈ rest.head?, isIndentation c = false) → isBlankLine rest = false →
      adjustIndents s.widths (indentWidth indentation) = none →
      Ends s (indentation ++ rest)
        (.error ⟨.inconsistentIndentation, ((s.indent indentation).span 0).position⟩)
  /-- No pattern of the table fits. -/
  | unrecognised {cs : List Char} : s.lineStart = false → Pattern.first? cs = none →
      Ends s cs (.error ⟨.unrecognisedToken (String.ofList (cs.take 1)), (s.span 0).position⟩)

variable {file source : String} {ts us tokens : List Token} {s s' : Scanner} {cs : List Char}

/-! ### The equations of a run -/

theorem run_nil (s : Scanner) : s.run [] = .ok s.finish := by
  rw [run, if_pos rfl]

theorem run_of_blank (hne : cs ≠ []) (hstart : s.lineStart = true)
    (hblank : isBlankLine (cs.dropWhile isIndentation) = true) :
    s.run cs = (s.indent (cs.takeWhile isIndentation)).run (cs.dropWhile isIndentation) := by
  rw [run, if_neg hne, if_pos hstart, if_pos hblank]

theorem run_of_misaligned (hne : cs ≠ []) (hstart : s.lineStart = true)
    (hblank : isBlankLine (cs.dropWhile isIndentation) = false)
    (hadjust : adjustIndents s.widths (indentWidth (cs.takeWhile isIndentation)) = none) :
    s.run cs = .error ⟨.inconsistentIndentation,
      ((s.indent (cs.takeWhile isIndentation)).span 0).position⟩ := by
  rw [run, if_neg hne, if_pos hstart, if_neg (by simp [hblank])]
  simp only [hadjust]

theorem run_of_line {kinds : List TokenKind} {widths : List Nat} (hne : cs ≠ [])
    (hstart : s.lineStart = true) (hblank : isBlankLine (cs.dropWhile isIndentation) = false)
    (hadjust : adjustIndents s.widths (indentWidth (cs.takeWhile isIndentation)) =
      some (kinds, widths)) :
    s.run cs = ({ s.indent (cs.takeWhile isIndentation) with widths }.run
      (cs.dropWhile isIndentation)).map
        (kinds.map (s.indent (cs.takeWhile isIndentation)).mark ++ ·) := by
  rw [run, if_neg hne, if_pos hstart, if_neg (by simp [hblank])]
  simp only [hadjust]
  rfl

theorem run_of_unrecognised (hne : cs ≠ []) (hstart : s.lineStart = false)
    (hfirst : first? cs = none) :
    s.run cs = .error ⟨.unrecognisedToken (String.ofList (cs.take 1)), (s.span 0).position⟩ := by
  rw [run, if_neg hne, if_neg (by simp [hstart])]
  split
  · rfl
  · simp_all

theorem run_of_lexeme {p : Pattern} {n : Nat} (hstart : s.lineStart = false)
    (hfirst : first? cs = some (p, n)) :
    s.run cs = ((s.take (cs.take n) p).2.run (cs.drop n)).map ((s.take (cs.take n) p).1 ++ ·) := by
  have hne : cs ≠ [] := by
    rintro rfl
    have hnil : first? [] = none := rfl
    cases hnil.symm.trans hfirst
  have hadvance := advance_of_first? hfirst
  rw [run, if_neg hne, if_neg (by simp [hstart])]
  split
  · simp_all
  · rename_i hfirst'
    obtain ⟨rfl, rfl⟩ := Prod.mk.inj (Option.some.inj (hfirst.symm.trans hfirst'))
    change ((s.take (cs.take n) p).2.run (cs.drop (p.advance n))).map _ = _
    rw [hadvance]

/-! ### One step -/

theorem isIndentation_of_mem_takeWhile {c : Char} (h : c ∈ cs.takeWhile isIndentation) :
    isIndentation c = true :=
  List.mem_takeWhile_imp h

/-- No character that could indent a line stands behind the indentation. -/
theorem not_isIndentation_of_head? {c : Char} (h : c ∈ (cs.dropWhile isIndentation).head?) :
    isIndentation c = false := by
  have hnot := List.head?_dropWhile_not isIndentation cs
  rw [Option.mem_def.1 h] at hnot
  exact hnot

/-- **In front of a text the scanner makes a step or fails.** -/
theorem run_step (hne : cs ≠ []) :
    (∃ piece rest us s', cs = piece ++ rest ∧ s.Step piece rest us s' ∧
      s.run cs = (s'.run rest).map (us ++ ·)) ∨
    ∃ e, s.Ends cs (.error e) ∧ s.run cs = .error e := by
  have hsplit : cs.takeWhile isIndentation ++ cs.dropWhile isIndentation = cs :=
    List.takeWhile_append_dropWhile
  cases hstart : s.lineStart with
  | true =>
    cases hblank : isBlankLine (cs.dropWhile isIndentation) with
    | true =>
      refine .inl ⟨_, _, [], _, hsplit.symm, .blank hstart (by simpa [hsplit])
        (fun _ => isIndentation_of_mem_takeWhile) hblank, ?_⟩
      rw [run_of_blank hne hstart hblank]
      cases (s.indent (cs.takeWhile isIndentation)).run (cs.dropWhile isIndentation) <;> rfl
    | false =>
      cases hadjust : adjustIndents s.widths (indentWidth (cs.takeWhile isIndentation)) with
      | none =>
        refine .inr ⟨_, ?_, run_of_misaligned hne hstart hblank hadjust⟩
        have hends := Ends.misaligned hstart (fun _ => isIndentation_of_mem_takeWhile)
          (fun _ => not_isIndentation_of_head?) hblank hadjust
        rwa [hsplit] at hends
      | some found =>
        exact .inl ⟨_, _, _, _, hsplit.symm, .line hstart (fun _ => isIndentation_of_mem_takeWhile)
          (fun _ => not_isIndentation_of_head?) hblank hadjust,
          run_of_line hne hstart hblank hadjust⟩
  | false =>
    cases hfirst : first? cs with
    | none => exact .inr ⟨_, .unrecognised hstart hfirst, run_of_unrecognised hne hstart hfirst⟩
    | some found =>
      obtain ⟨p, n⟩ := found
      have hlen : (cs.take n).length = n :=
        List.length_take_of_le (match?_le (match?_of_first? hfirst).2)
      refine .inl ⟨_, _, _, _, (List.take_append_drop n cs).symm, .lexeme hstart ?_,
        run_of_lexeme hstart hfirst⟩
      rw [List.take_append_drop, hlen, hfirst]

theorem Step.lineStart_eq {piece rest : List Char} (h : s.Step piece rest us s')
    (hstart : s.lineStart = true) : s'.lineStart = false := by
  cases h with
  | blank => rfl
  | line => rfl
  | lexeme hline => simp [hstart] at hline

theorem Step.ne_nil {piece rest : List Char} (h : s.Step piece rest us s')
    (hstart : s.lineStart = false) : piece ≠ [] := by
  cases h with
  | blank hline => simp [hstart] at hline
  | line hline => simp [hstart] at hline
  | lexeme _ hfirst => exact List.ne_nil_of_length_pos (first?_pos hfirst)

/-- A step takes characters from the text, or it is no longer at the start of a line. -/
theorem Step.measure_lt {piece rest : List Char} (h : s.Step piece rest us s') :
    2 * rest.length + s'.lineStart.toNat < 2 * (piece ++ rest).length + s.lineStart.toNat := by
  rw [List.length_append]
  cases hstart : s.lineStart with
  | true =>
    rw [h.lineStart_eq hstart, Bool.toNat_false, Bool.toNat_true]
    omega
  | false =>
    have hpiece := List.length_pos_iff.2 (h.ne_nil hstart)
    have hle := Bool.toNat_le s'.lineStart
    omega

/-! ### All steps -/

/-- The tokens of a step stand in front of those of what the rest of the run comes to. -/
theorem map_append_map (us vs : List Token) (last : Except Error (List Token)) :
    (last.map (vs ++ ·)).map (us ++ ·) = last.map ((us ++ vs) ++ ·) := by
  cases last with
  | error e => rfl
  | ok ws => exact congrArg Except.ok (List.append_assoc us vs ws).symm

/-- **Every run comes to an end**, and gives what it comes to there behind the tokens left on the
way. -/
theorem exists_ends_of_run (hr : Reaches file source ts s cs) :
    ∃ us s' cs' last, Reaches file source (ts ++ us) s' cs' ∧ s'.Ends cs' last ∧
      s.run cs = last.map (us ++ ·) := by
  generalize hm : 2 * cs.length + s.lineStart.toNat = m
  induction m using Nat.strong_induction_on generalizing ts s cs with
  | _ m ih =>
    by_cases hne : cs = []
    · subst hne
      exact ⟨[], s, [], _, by simpa using hr, .finished, run_nil s⟩
    · rcases run_step (s := s) hne with ⟨piece, rest, us, s', rfl, hstep, hrun⟩ | ⟨e, hends, hrun⟩
      · obtain ⟨vs, s₁, cs₁, last, hr₁, hends, hrest⟩ :=
          ih _ (hm ▸ hstep.measure_lt) (hr.step hstep) rfl
        rw [List.append_assoc] at hr₁
        exact ⟨us ++ vs, s₁, cs₁, last, hr₁, hends, by rw [hrun, hrest, map_append_map]⟩
      · exact ⟨[], s, cs, _, by simpa using hr, hends, hrun⟩

/-- **The tokens of a source** are those left on the way to its end and those that close it. -/
theorem exists_reaches_of_tokenize (h : tokenize file source = .ok tokens) :
    ∃ ts s, Reaches file source ts s [] ∧ tokens = ts ++ s.finish := by
  obtain ⟨ts, s, cs, last, hr, hends, hrun⟩ :=
    exists_ends_of_run (.start : Reaches file source _ _ _)
  rw [tokenize, hrun] at h
  cases hends with
  | finished => exact ⟨ts, s, hr, (Except.ok.inj h).symm⟩
  | misaligned => cases h
  | unrecognised => cases h

end Scanner

end DefToC
