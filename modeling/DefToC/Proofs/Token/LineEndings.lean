import DefToC.Proofs.Token.Simulation

/-!
# Line endings

A line ends with a line feed, and a carriage return may stand in front of it. The scanner does not
tell the two apart (`LineEndsVary.indistinct`), although it comes upon a carriage return in several
ways: it may begin a line end, be the last of a run of separators or of the characters of a comment,
follow a backslash, or leave a line blank. Words, numbers and marks stop in front of either
character (`Pattern.match?_stop`), so what is special about line ends is in the few patterns that
leave no text.
-/

namespace DefToC

namespace Pattern

/-! ### Lexemes stop at separators and line ends -/

/-- The text is at its end, or goes on with a separator or a line feed. -/
def Stops (cs : List Char) : Prop := ∀ d ∈ cs.head?, d = '\n' ∨ isSeparator d = true

/-- The text is at its end, or goes on with a character of a line end. -/
def Breaks (cs : List Char) : Prop := ∀ d ∈ cs.head?, d = '\n' ∨ d = '\r'

theorem Stops.eq {cs : List Char} (h : Stops cs) {d : Char} (hd : d ∈ cs.head?) :
    d = '\n' ∨ d = ' ' ∨ d = '\t' ∨ d = '\r' ∨ d = '\x0c' := by
  simpa [isSeparator, or_assoc] using h d hd

theorem Breaks.stops {cs : List Char} (h : Breaks cs) : Stops cs := by
  intro d hd
  rcases h d hd with rfl | rfl
  · exact .inl rfl
  · exact .inr rfl

section

variable {start part : Char → Bool} {w text : List Char} (u : List Char)

theorem takeWhile_stop (h : ∀ d ∈ w.head?, part d = false) :
    (u ++ w).takeWhile part = u.takeWhile part := by
  induction u with
  | nil =>
    cases w with
    | nil => rfl
    | cons d w => simp [h d rfl]
  | cons c u ih => rw [List.cons_append, List.takeWhile_cons, List.takeWhile_cons, ih]

theorem runLength?_stop (hstart : ∀ d ∈ w.head?, start d = false)
    (hpart : ∀ d ∈ w.head?, part d = false) :
    runLength? start part (u ++ w) = runLength? start part u := by
  cases u with
  | nil =>
    cases w with
    | nil => rfl
    | cons d w => simp [runLength?, hstart d rfl]
  | cons c u => rw [List.cons_append, runLength?, runLength?, takeWhile_stop u hpart]

theorem textLength?_stop (h : ∀ d ∈ w.head?, d ∉ text) :
    textLength? text (u ++ w) = textLength? text u := by
  have hiff : text <+: u ++ w ↔ text <+: u := by
    constructor
    · rintro ⟨rest, heq⟩
      rcases List.append_eq_append_iff.1 heq with ⟨back, hu, -⟩ | ⟨back, htext, hw⟩
      · exact ⟨back, hu.symm⟩
      · cases back with
        | nil => exact ⟨[], by simpa using htext⟩
        | cons d back =>
          rw [hw] at h
          exact absurd (by simp [htext]) (h d rfl)
    · exact fun h => h.trans (List.prefix_append u w)
  simp only [textLength?, hiff]

variable (hw : Stops w)
include hw

theorem digits_stop : (u ++ w).takeWhile Char.isDigit = u.takeWhile Char.isDigit :=
  takeWhile_stop u fun d hd => by rcases hw.eq hd with rfl | rfl | rfl | rfl | rfl <;> rfl

theorem fractionLength_stop : fractionLength (u ++ w) = fractionLength u := by
  cases u with
  | nil =>
    cases w with
    | nil => rfl
    | cons d w => rcases hw.eq rfl with rfl | rfl | rfl | rfl | rfl <;> rfl
  | cons c u =>
    by_cases hc : c = '.'
    · rw [hc, List.cons_append, fractionLength, fractionLength, digits_stop u hw]
    · simp [fractionLength, hc]

theorem signLength_stop : signLength (u ++ w) = signLength u := by
  cases u with
  | nil =>
    cases w with
    | nil => rfl
    | cons d w => rcases hw.eq rfl with rfl | rfl | rfl | rfl | rfl <;> rfl
  | cons c u =>
    by_cases hplus : c = '+'
    · rw [hplus]
      rfl
    · by_cases hminus : c = '-'
      · rw [hminus]
        rfl
      · simp [signLength, hplus, hminus]

theorem exponentLength_stop : exponentLength (u ++ w) = exponentLength u := by
  cases u with
  | nil =>
    cases w with
    | nil => rfl
    | cons d w => rcases hw.eq rfl with rfl | rfl | rfl | rfl | rfl <;> simp [exponentLength]
  | cons c u =>
    rw [List.cons_append, exponentLength, exponentLength, signLength_stop u hw,
      List.drop_append_of_le_length (signLength_le u), digits_stop _ hw]

theorem numberLength?_stop : numberLength? (u ++ w) = numberLength? u := by
  have hwhole : (u.takeWhile Char.isDigit).length ≤ u.length :=
    (u.takeWhile_sublist Char.isDigit).length_le
  unfold numberLength?
  simp only [digits_stop u hw, List.drop_append_of_le_length hwhole, fractionLength_stop _ hw]
  have hfraction := fractionLength_le (u.drop (u.takeWhile Char.isDigit).length)
  rw [List.length_drop] at hfraction
  rw [List.drop_append_of_le_length (by omega), exponentLength_stop _ hw]

end

theorem not_mem_of_fixed? {p : Pattern} (hp : p ∈ table) {text : List Char}
    (htext : p.fixed? = some text) {d : Char} (hd : d = '\n' ∨ isSeparator d = true) :
    d ∉ text := by
  have hall : table.all (fun p => p.fixed?.all
      (·.all fun c => c != '\n' && !isSeparator c)) = true := by
    decide +kernel
  intro hmem
  have hall' := List.all_eq_true.1 hall p hp
  rw [htext] at hall'
  have hd' := List.all_eq_true.1 hall' d hmem
  simp only [Bool.and_eq_true, bne_iff_ne, Bool.not_eq_true'] at hd'
  rcases hd with rfl | hd
  · exact hd'.1 rfl
  · cases hd.symm.trans hd'.2

/-- **Words, numbers, brackets and marks stop at separators and at the end of a line.** -/
theorem match?_stop {p : Pattern} (hp : p ∈ table) (hverbatim : p.isVerbatim = true)
    {w : List Char} (hw : Stops w) (u : List Char) : p.match? (u ++ w) = p.match? u := by
  have htext {text : List Char} (htext : p.fixed? = some text) : ∀ d ∈ w.head?, d ∉ text :=
    fun d hd => not_mem_of_fixed? hp htext (hw d hd)
  cases p with
  | word =>
    exact runLength?_stop u
      (fun d hd => by rcases hw.eq hd with rfl | rfl | rfl | rfl | rfl <;> rfl)
      fun d hd => by rcases hw.eq hd with rfl | rfl | rfl | rfl | rfl <;> rfl
  | number => exact numberLength?_stop u hw
  | opening | closing | mark => exact textLength?_stop u (htext rfl)
  | lineEnd | separators | joinedLine | comment => cases hverbatim

theorem first?_lineEnd {e : List Char} (he : IsLineEnd e) (cs : List Char) :
    first? (e ++ cs) = some (lineEnd, e.length) := by
  rcases he with rfl | rfl <;> rfl

/-! ### Patterns that fit two texts -/

/-- The pattern fits both texts or neither. Where it fits, `R` relates what it leaves of them. -/
inductive Fits (R : List Char → List Char → Prop) (cs cs' : List Char) (p : Pattern) : Prop where
  | neither : p.match? cs = none → p.match? cs' = none → Fits R cs cs' p
  | both {n n' : Nat} : p.match? cs = some n → p.match? cs' = some n' →
      R (cs.drop n) (cs'.drop n') → (p.isVerbatim = true → cs'.take n' = cs.take n) →
      Fits R cs cs' p

variable {R : List Char → List Char → Prop} {cs cs' : List Char}

/-- If all patterns of the table fit both texts or neither, the first one that fits is the same. -/
theorem first?_of_fits (h : ∀ p ∈ table, Fits R cs cs' p) :
    (first? cs = none ∧ first? cs' = none) ∨
      ∃ p n n', first? cs = some (p, n) ∧ first? cs' = some (p, n') ∧
        R (cs.drop n) (cs'.drop n') ∧ (p.isVerbatim = true → cs'.take n' = cs.take n) := by
  unfold first?
  generalize table = ps at h
  induction ps with
  | nil => exact .inl ⟨rfl, rfl⟩
  | cons p ps ih =>
    obtain ⟨hp, hps⟩ := List.forall_mem_cons.1 h
    rw [List.findSome?_cons, List.findSome?_cons]
    cases hp with
    | neither hcs hcs' =>
      rw [hcs, hcs']
      exact ih hps
    | @both n n' hcs hcs' hrest hlexeme =>
      rw [hcs, hcs']
      exact .inr ⟨p, n, n', rfl, rfl, hrest, hlexeme⟩

end Pattern

open Pattern

/-! ### Texts with other line endings -/

/-- The second text is the first one with other line ends. The first one has no carriage return, so
each of its line feeds is a line end. -/
inductive LineEndsVary : List Char → List Char → Prop where
  | nil : LineEndsVary [] []
  | char {c : Char} {cs cs' : List Char} : c ≠ '\n' → c ≠ '\r' → LineEndsVary cs cs' →
      LineEndsVary (c :: cs) (c :: cs')
  | lineEnd {e cs cs' : List Char} : IsLineEnd e → LineEndsVary cs cs' →
      LineEndsVary ('\n' :: cs) (e ++ cs')

namespace LineEndsVary

variable {u cs cs' : List Char}

theorem append (hu : ∀ c ∈ u, c ≠ '\n' ∧ c ≠ '\r') (h : LineEndsVary cs cs') :
    LineEndsVary (u ++ cs) (u ++ cs') := by
  induction u with
  | nil => exact h
  | cons c u ih =>
    obtain ⟨hc, hu⟩ := List.forall_mem_cons.1 hu
    exact .char hc.1 hc.2 (ih hu)

/-- The texts are both at their ends or both at a line end. -/
inductive AtBreak : List Char → List Char → Prop where
  | nil : AtBreak [] []
  | lineEnd {e cs cs' : List Char} : IsLineEnd e → LineEndsVary cs cs' →
      AtBreak ('\n' :: cs) (e ++ cs')

theorem AtBreak.vary (h : AtBreak cs cs') : LineEndsVary cs cs' := by
  cases h with
  | nil => exact .nil
  | lineEnd he h => exact .lineEnd he h

theorem AtBreak.breaks (h : AtBreak cs cs') : Breaks cs ∧ Breaks cs' := by
  cases h with
  | nil =>
    have hnil : Breaks [] := by rintro d ⟨⟩
    exact ⟨hnil, hnil⟩
  | lineEnd he h =>
    refine ⟨fun d hd => .inl (Option.some.inj hd).symm, fun d hd => ?_⟩
    rcases he with rfl | rfl
    · exact .inl (Option.some.inj hd).symm
    · exact .inr (Option.some.inj hd).symm

/-- Up to the end of the first line the texts are the same. -/
theorem exists_line (h : LineEndsVary cs cs') :
    ∃ u v v', cs = u ++ v ∧ cs' = u ++ v' ∧ (∀ c ∈ u, c ≠ '\n' ∧ c ≠ '\r') ∧ AtBreak v v' := by
  induction h with
  | nil => exact ⟨[], [], [], rfl, rfl, List.forall_mem_nil _, .nil⟩
  | lineEnd he h _ => exact ⟨[], _, _, rfl, rfl, List.forall_mem_nil _, .lineEnd he h⟩
  | char hfeed hreturn _ ih =>
    obtain ⟨u, v, v', rfl, rfl, hu, hv⟩ := ih
    exact ⟨_ :: u, v, v', rfl, rfl, List.forall_mem_cons.2 ⟨⟨hfeed, hreturn⟩, hu⟩, hv⟩

section

variable {c : Char} {v v' : List Char} (hu : ∀ d ∈ c :: u, d ≠ '\n' ∧ d ≠ '\r')
  (hv : AtBreak v v')
include hu hv

theorem fits_verbatim {p : Pattern} (hp : p ∈ table) (hverbatim : p.isVerbatim = true) :
    Fits LineEndsVary (c :: u ++ v) (c :: u ++ v') p := by
  have hcs := match?_stop hp hverbatim hv.breaks.1.stops (c :: u)
  have hcs' := match?_stop hp hverbatim hv.breaks.2.stops (c :: u)
  cases hmatch : p.match? (c :: u) with
  | none => exact .neither (hcs.trans hmatch) (hcs'.trans hmatch)
  | some n =>
    have hle := match?_le hmatch
    refine .both (hcs.trans hmatch) (hcs'.trans hmatch) ?_ fun _ => ?_
    · rw [List.drop_append_of_le_length hle, List.drop_append_of_le_length hle]
      exact append (fun d hd => hu d (List.mem_of_mem_drop hd)) hv.vary
    · rw [List.take_append_of_le_length hle, List.take_append_of_le_length hle]

/-- A run that may take a carriage return takes that of the line end, and leaves the line feed. -/
theorem fits_run {start part : Char → Bool} {p : Pattern}
    (hp : ∀ cs, p.match? cs = runLength? start part cs) (hverbatim : p.isVerbatim = false)
    (hfeed : part '\n' = false) (hreturn : part '\r' = true) :
    Fits LineEndsVary (c :: u ++ v) (c :: u ++ v') p := by
  have hnot : ¬p.isVerbatim = true := by simp [hverbatim]
  by_cases hstart : start c = true
  · have hmatch (w : List Char) :
        p.match? (c :: u ++ w) = some (1 + ((u ++ w).takeWhile part).length) := by
      rw [hp, List.cons_append, runLength?, if_pos hstart]
    refine .both (hmatch v) (hmatch v') ?_ fun h => absurd h hnot
    simp only [List.takeWhile_append]
    by_cases hall : (u.takeWhile part).length = u.length
    · -- the run goes on to the line end
      have hdrop (w : List Char) (k : Nat) :
          (c :: u ++ w).drop (1 + (u.length + k)) = w.drop k := by
        have hlength : 1 + (u.length + k) = (c :: u).length + k := by
          rw [List.length_cons]
          omega
        rw [hlength, List.drop_length_add_append]
      simp only [hall, if_true, List.length_append, hdrop]
      cases hv with
      | nil => exact .nil
      | lineEnd he h =>
        rcases he with rfl | rfl
        · simp only [List.takeWhile_cons, List.cons_append, List.nil_append, hfeed]
          exact .lineEnd (.inl rfl) h
        · simp only [List.takeWhile_cons, List.cons_append, List.nil_append, hfeed, hreturn]
          exact .lineEnd (.inl rfl) h
    · -- the run ends on the line
      have hle : 1 + (u.takeWhile part).length ≤ (c :: u).length := by
        have := (u.takeWhile_sublist part).length_le
        rw [List.length_cons]
        omega
      rw [if_neg hall, if_neg hall, List.drop_append_of_le_length hle,
        List.drop_append_of_le_length hle]
      exact append (fun d hd => hu d (List.mem_of_mem_drop hd)) hv.vary
  · have hmatch (w : List Char) : p.match? (c :: u ++ w) = none := by
      rw [hp, List.cons_append, runLength?, if_neg hstart]
    exact .neither (hmatch v) (hmatch v')

theorem fits_joinedLine : Fits LineEndsVary (c :: u ++ v) (c :: u ++ v') .joinedLine := by
  by_cases hc : c = '\\'
  · subst hc
    have hmatch (w : List Char) :
        match? ('\\' :: u ++ w) .joinedLine = (lineEndLength? (u ++ w)).map (1 + ·) := rfl
    cases u with
    | cons d u =>
      obtain ⟨hfeed, hreturn⟩ := hu d (List.mem_cons_of_mem _ List.mem_cons_self)
      have hnone (w : List Char) : lineEndLength? (d :: u ++ w) = none := by
        simp [lineEndLength?, hfeed, hreturn]
      exact .neither (by rw [hmatch, hnone]; rfl) (by rw [hmatch, hnone]; rfl)
    | nil =>
      cases hv with
      | nil => exact .neither rfl rfl
      | lineEnd he h => rcases he with rfl | rfl <;> exact .both rfl rfl h nofun
  · exact .neither (by simp [match?, joinedLineLength?, hc])
      (by simp [match?, joinedLineLength?, hc])

omit hv in
theorem fits_lineEnd : Fits LineEndsVary (c :: u ++ v) (c :: u ++ v') .lineEnd := by
  obtain ⟨hfeed, hreturn⟩ := hu c List.mem_cons_self
  exact .neither (by simp [match?, lineEndLength?, hfeed, hreturn])
    (by simp [match?, lineEndLength?, hfeed, hreturn])

/-- Every pattern fits both texts or neither where they do not begin with a line end. -/
theorem fits {p : Pattern} (hp : p ∈ table) :
    Fits LineEndsVary (c :: u ++ v) (c :: u ++ v') p := by
  cases p with
  | word | number | opening | closing | mark => exact fits_verbatim hu hv hp rfl
  | lineEnd => exact fits_lineEnd hu
  | separators => exact fits_run hu hv (fun _ => rfl) rfl rfl rfl
  | joinedLine => exact fits_joinedLine hu hv
  | comment => exact fits_run hu hv (fun _ => rfl) rfl rfl rfl

end

/-- The same pattern takes the first lexeme of both texts. -/
theorem first?_vary (h : LineEndsVary cs cs') :
    (first? cs = none ∧ first? cs' = none ∧ cs'.take 1 = cs.take 1) ∨
      ∃ p n n', first? cs = some (p, n) ∧ first? cs' = some (p, n') ∧
        LineEndsVary (cs.drop n) (cs'.drop n') ∧
        (p.isVerbatim = true → cs'.take n' = cs.take n) := by
  obtain ⟨u, v, v', rfl, rfl, hu, hv⟩ := exists_line h
  cases u with
  | nil =>
    cases hv with
    | nil => exact .inl ⟨rfl, rfl, rfl⟩
    | @lineEnd e cs cs' he hrest =>
      refine .inr ⟨.lineEnd, 1, e.length, first?_lineEnd (.inl rfl) cs, first?_lineEnd he cs', ?_,
        nofun⟩
      rw [List.nil_append, List.nil_append, List.drop_left]
      exact hrest
  | cons c u =>
    rcases first?_of_fits fun p hp => fits hu hv hp with ⟨hnone, hnone'⟩ | hsome
    · exact .inl ⟨hnone, hnone', rfl⟩
    · exact .inr hsome

/-- **The scanner does not see which line ends a text has.** -/
theorem indistinct : Indistinct LineEndsVary where
  nil_iff h := by
    cases h with
    | nil => exact Iff.rfl
    | char => simp
    | lineEnd he h => rcases he with rfl | rfl <;> simp
  indentation h := by
    induction h with
    | nil => exact ⟨rfl, .nil⟩
    | lineEnd he h _ =>
      have hend := LineEndsVary.lineEnd he h
      rcases he with rfl | rfl <;> exact ⟨rfl, hend⟩
    | @char c cs cs' hfeed hreturn h ih =>
      by_cases hc : isIndentation c = true
      · simpa [List.takeWhile_cons, List.dropWhile_cons, hc] using ih
      · simpa [List.takeWhile_cons, List.dropWhile_cons, hc] using .char hfeed hreturn h
  blank h := by
    cases h with
    | nil => rfl
    | char => rfl
    | lineEnd he h => rcases he with rfl | rfl <;> rfl
  unrecognised h hfirst := by
    rcases first?_vary h with ⟨-, hnone, htake⟩ | ⟨p, n, n', hsome, -⟩
    · exact ⟨hnone, htake⟩
    · cases hfirst.symm.trans hsome
  lexeme h hfirst := by
    rcases first?_vary h with ⟨hnone, -⟩ | ⟨p, n, n', hsome, hrest⟩
    · cases hnone.symm.trans hfirst
    · obtain ⟨rfl, rfl⟩ := Prod.mk.inj (Option.some.inj (hfirst.symm.trans hsome))
      exact ⟨n', hrest⟩

end LineEndsVary

/-- The text with a carriage return in front of every line feed. -/
def withReturns (source : String) : String :=
  String.ofList (source.toList.flatMap fun c => if c = '\n' then ['\r', '\n'] else [c])

theorem lineEndsVary_flatMap {cs : List Char} (h : '\r' ∉ cs) :
    LineEndsVary cs (cs.flatMap fun c => if c = '\n' then ['\r', '\n'] else [c]) := by
  induction cs with
  | nil => exact .nil
  | cons c cs ih =>
    rw [List.mem_cons, not_or] at h
    rw [List.flatMap_cons]
    by_cases hc : c = '\n'
    · rw [if_pos hc, hc]
      exact .lineEnd (.inr rfl) (ih h.2)
    · rw [if_neg hc]
      exact .char hc (Ne.symm h.1) (ih h.2)

theorem tokenize_withReturns {source : String} (file : String) (h : '\r' ∉ source.toList) :
    bareResult (List.map Token.bare) (tokenize file (withReturns source)) =
      bareResult (List.map Token.bare) (tokenize file source) := by
  unfold tokenize withReturns
  rw [String.toList_ofList]
  exact Scanner.run_alike LineEndsVary.indistinct (lineEndsVary_flatMap h) ⟨rfl, rfl, rfl, rfl⟩

end DefToC
