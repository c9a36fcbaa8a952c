import DefToC.Proofs.Syntax.Spans
import DefToC.Proofs.Token.Traces

/-!
# Scanning two texts side by side

Two texts may differ in a way that the scanner does not see. `Pattern.Indistinct R` says that of the
texts that `R` relates: they begin with the same indentation, the same pattern of the table fits
both, and `R` relates what is left of them. Then two scanners that differ only in the places where
they stand cut both texts into the same tokens, up to spans (`Scanner.run_alike`). In particular the
tokens of a text do not depend on where it stands.
-/

namespace DefToC

namespace Scanner

open Pattern

/-! ### Scanners that stand at different places -/

/-- The scanners differ at most in the places where they stand. -/
structure Alike (s s' : Scanner) : Prop where
  widths : s'.widths = s.widths
  depth : s'.depth = s.depth
  lineStart : s'.lineStart = s.lineStart
  lineEmpty : s'.lineEmpty = s.lineEmpty

variable {s s' : Scanner} {lexeme lexeme' indentation indentation' : List Char}

theorem Alike.indent (h : s.Alike s') :
    (s.indent indentation).Alike (s'.indent indentation') :=
  ⟨h.widths, h.depth, rfl, h.lineEmpty⟩

theorem map_bare_mark (s s' : Scanner) (kinds : List TokenKind) :
    (kinds.map s'.mark).map Token.bare = (kinds.map s.mark).map Token.bare := by
  rw [List.map_map, List.map_map]
  rfl

theorem Alike.finish (h : s.Alike s') : s'.finish.map Token.bare = s.finish.map Token.bare := by
  unfold Scanner.finish
  rw [h.widths, h.lineEmpty]
  cases s.lineEmpty <;> simp [Token.bare, mark]

end Scanner

namespace Pattern

/-- The patterns whose lexemes are the texts of their tokens. -/
def isVerbatim : Pattern → Bool
  | word | number | opening _ _ | closing _ _ | mark _ _ => true
  | lineEnd | separators | joinedLine | comment => false

end Pattern

namespace Scanner

open Pattern

variable {s s' : Scanner} {lexeme lexeme' : List Char} {p : Pattern}

theorem Alike.take (h : s.Alike s') (hlexeme : p.isVerbatim = true → lexeme' = lexeme) :
    (s'.take lexeme' p).1.map Token.bare = (s.take lexeme p).1.map Token.bare ∧
      (s.take lexeme p).2.Alike (s'.take lexeme' p).2 := by
  obtain ⟨hwidths, hdepth, hstart, hempty⟩ := h
  cases p with
  | word | number | mark =>
    obtain rfl := hlexeme rfl
    exact ⟨rfl, hwidths, hdepth, hstart, rfl⟩
  | opening =>
    obtain rfl := hlexeme rfl
    exact ⟨rfl, hwidths, congrArg (· + 1) hdepth, hstart, rfl⟩
  | closing =>
    obtain rfl := hlexeme rfl
    exact ⟨rfl, hwidths, congrArg (· - 1) hdepth, hstart, rfl⟩
  | lineEnd =>
    simp only [Scanner.take, hdepth, hempty]
    split
    · cases s.lineEmpty <;> exact ⟨rfl, hwidths, hdepth, rfl, rfl⟩
    · exact ⟨rfl, hwidths, hdepth, hstart, hempty⟩
  | separators | joinedLine | comment => exact ⟨rfl, hwidths, hdepth, hstart, hempty⟩

end Scanner

/-! ### Texts that cannot be told apart -/

/-- The scanner cannot tell apart the texts that are related. -/
structure Pattern.Indistinct (R : List Char → List Char → Prop) : Prop where
  nil_iff {cs cs' : List Char} : R cs cs' → (cs' = [] ↔ cs = [])
  indentation {cs cs' : List Char} : R cs cs' →
    cs'.takeWhile isIndentation = cs.takeWhile isIndentation ∧
      R (cs.dropWhile isIndentation) (cs'.dropWhile isIndentation)
  blank {cs cs' : List Char} : R cs cs' → isBlankLine cs' = isBlankLine cs
  unrecognised {cs cs' : List Char} : R cs cs' → first? cs = none →
    first? cs' = none ∧ cs'.take 1 = cs.take 1
  lexeme {cs cs' : List Char} {p : Pattern} {n : Nat} : R cs cs' → first? cs = some (p, n) →
    ∃ n', first? cs' = some (p, n') ∧ R (cs.drop n) (cs'.drop n') ∧
      (p.isVerbatim = true → cs'.take n' = cs.take n)

theorem Pattern.indistinct_eq : Indistinct Eq where
  nil_iff h := by rw [h]
  indentation h := by rw [h]; exact ⟨rfl, rfl⟩
  blank h := by rw [h]
  unrecognised h hfirst := by rw [← h]; exact ⟨hfirst, rfl⟩
  lexeme h hfirst := by rw [← h]; exact ⟨_, hfirst, rfl, fun _ => rfl⟩

theorem bareResult_map_append (ts : List Token) (x : Except Error (List Token)) :
    bareResult (List.map Token.bare) (x.map (ts ++ ·)) =
      (bareResult (List.map Token.bare) x).map (ts.map Token.bare ++ ·) := by
  cases x with
  | error e => rfl
  | ok us => exact congrArg Except.ok List.map_append

namespace Scanner

open Pattern

variable {R : List Char → List Char → Prop} {s s' : Scanner} {cs cs' : List Char}

/-- **Texts that cannot be told apart have the same tokens**, up to spans. -/
theorem run_alike (hR : Indistinct R) (hcs : R cs cs') (hs : s.Alike s') :
    bareResult (List.map Token.bare) (s'.run cs') =
      bareResult (List.map Token.bare) (s.run cs) := by
  have hne {cs cs' : List Char} (h : R cs cs') (hcs : cs ≠ []) : cs' ≠ [] :=
    fun hnil => hcs ((hR.nil_iff h).1 hnil)
  fun_induction run s cs generalizing s' cs' with
  | case1 s =>
    obtain rfl := (hR.nil_iff hcs).2 rfl
    rw [run_nil]
    exact congrArg Except.ok hs.finish
  | case2 s cs hcs₀ hstart =>
    rename_i hblank ih
    obtain ⟨hindent, hrest⟩ := hR.indentation hcs
    rw [run_of_blank (hne hcs hcs₀) (hs.lineStart.trans hstart) ((hR.blank hrest).trans hblank)]
    exact ih hrest hs.indent
  | case3 s cs hcs₀ hstart =>
    rename_i hblank hadjust
    obtain ⟨hindent, hrest⟩ := hR.indentation hcs
    have hblank' := (hR.blank hrest).trans (Bool.eq_false_iff.2 hblank)
    rw [run_of_misaligned (hne hcs hcs₀) (hs.lineStart.trans hstart) hblank'
      (by rw [hs.widths, hindent]; exact hadjust)]
    rfl
  | case4 s cs hcs₀ hstart =>
    rename_i hblank kinds widths hadjust ih
    obtain ⟨hindent, hrest⟩ := hR.indentation hcs
    have hblank' := (hR.blank hrest).trans (Bool.eq_false_iff.2 hblank)
    have hs₁ : Alike { s.indent (cs.takeWhile isIndentation) with widths }
        { s'.indent (cs'.takeWhile isIndentation) with widths } :=
      ⟨rfl, hs.depth, rfl, hs.lineEmpty⟩
    rw [run_of_line (hne hcs hcs₀) (hs.lineStart.trans hstart) hblank'
      (by rw [hs.widths, hindent]; exact hadjust), bareResult_map_append,
      map_bare_mark (s.indent (cs.takeWhile isIndentation)), ih hrest hs₁,
      ← bareResult_map_append]
    rfl
  | case5 s cs hcs₀ hstart hfirst =>
    obtain ⟨hfirst', htake⟩ := hR.unrecognised hcs hfirst
    rw [run_of_unrecognised (hne hcs hcs₀) (hs.lineStart.trans (Bool.eq_false_iff.2 hstart))
      hfirst', htake]
    rfl
  | case6 s cs hcs₀ hstart p n hfirst =>
    rename_i ih
    rw [advance_of_first? hfirst] at ih ⊢
    obtain ⟨n', hfirst', hrest, hlexeme⟩ := hR.lexeme hcs hfirst
    obtain ⟨htokens, hs'⟩ := hs.take hlexeme
    rw [run_of_lexeme (hs.lineStart.trans (Bool.eq_false_iff.2 hstart)) hfirst',
      bareResult_map_append, htokens, ih hrest hs', ← bareResult_map_append]
    rfl

end Scanner

end DefToC
