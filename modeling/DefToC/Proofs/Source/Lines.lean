import DefToC.Proofs.Token.Coverage
import DefToC.Source.Line

/-!
# Lines and places on them

A text is cut into lines after each line feed, in one way only (`CutInto`). A place in the text that
is not behind its last byte lies on one of these lines, and looking it up finds the number of the
line and the bytes of the line in front of the place. So the lines in front of it and these bytes
add up to the place again.
-/

namespace DefToC

/-! ### Cutting a text -/

/-- The pieces of a text that is cut after each line feed. -/
inductive CutInto : List Char → List (List Char) → Prop where
  | nil : CutInto [] []
  /-- A text may end without a line feed. -/
  | last {cs : List Char} : cs ≠ [] → '\n' ∉ cs → CutInto cs [cs]
  | line {cs rest : List Char} {pieces : List (List Char)} : '\n' ∉ cs → CutInto rest pieces →
      CutInto (cs ++ '\n' :: rest) ((cs ++ ['\n']) :: pieces)

theorem splitLines_append {cs : List Char} (h : '\n' ∉ cs) (rest : List Char) :
    splitLines (cs ++ '\n' :: rest) = (cs ++ ['\n']) :: splitLines rest := by
  induction cs with
  | nil => simp [splitLines]
  | cons c cs ih =>
    rw [List.mem_cons, not_or] at h
    rw [List.cons_append, splitLines, if_neg (Ne.symm h.1), ih h.2]
    rfl

theorem cutInto_splitLines (cs : List Char) : CutInto cs (splitLines cs) := by
  induction cs with
  | nil => exact .nil
  | cons c cs ih =>
    by_cases hc : c = '\n'
    · subst hc
      rw [splitLines, if_pos rfl]
      exact .line (List.not_mem_nil) ih
    · -- the character belongs to the first piece of what follows it
      rw [splitLines, if_neg hc]
      generalize splitLines cs = pieces at ih
      cases ih with
      | nil => exact .last (by simp) (by simp [Ne.symm hc])
      | last _ hcs => exact .last (by simp) (by simp [Ne.symm hc, hcs])
      | @line front rest pieces hfront hrest =>
        have hline : '\n' ∉ c :: front := by simp [Ne.symm hc, hfront]
        exact .line hline hrest

namespace CutInto

variable {cs : List Char} {pieces : List (List Char)}

/-- The pieces in order are the text. -/
theorem flatten_eq (h : CutInto cs pieces) : pieces.flatten = cs := by
  induction h with
  | nil => rfl
  | last => simp
  | line _ _ ih => simp [ih]

/-- A piece has no line feed but at its end. -/
theorem exists_bare (h : CutInto cs pieces) :
    ∀ line ∈ pieces, ∃ bare, '\n' ∉ bare ∧ (line = bare ∨ line = bare ++ ['\n']) := by
  induction h with
  | nil => exact List.forall_mem_nil _
  | @last cs _ hcs => exact List.forall_mem_singleton.2 ⟨cs, hcs, .inl rfl⟩
  | @line cs _ _ hcs _ ih => exact List.forall_mem_cons.2 ⟨⟨cs, hcs, .inr rfl⟩, ih⟩

/-- There is only one way to cut a text. -/
theorem eq_splitLines (h : CutInto cs pieces) : pieces = splitLines cs := by
  induction h with
  | nil => rfl
  | @last cs hne hcs =>
    -- a text without a line feed is not cut
    induction cs with
    | nil => exact absurd rfl hne
    | cons c cs ih =>
      rw [List.mem_cons, not_or] at hcs
      rw [splitLines, if_neg (Ne.symm hcs.1)]
      cases cs with
      | nil => rfl
      | cons d cs => rw [← ih (List.cons_ne_nil d cs) hcs.2]
  | line hcs _ ih => rw [splitLines_append hcs, ih]

end CutInto

/-! ### Looking up a place -/

theorem bareLength_eq {bare : List Char} (h : '\n' ∉ bare) :
    bareLength bare = byteLength bare ∧ bareLength (bare ++ ['\n']) = byteLength bare := by
  have hdrop : bare.reverse.dropWhile (· == '\n') = bare.reverse := by
    rw [List.dropWhile_eq_self_iff]
    intro hpos
    have hlast : bare.reverse[0] ∈ bare := List.mem_reverse.1 (List.getElem_mem hpos)
    simp only [beq_iff_eq]
    intro heq
    exact h (heq ▸ hlast)
  constructor
  · rw [bareLength, hdrop, List.reverse_reverse]
  · rw [bareLength, List.reverse_append, List.reverse_singleton, List.singleton_append,
      List.dropWhile_cons_of_pos rfl, hdrop, List.reverse_reverse]

section

variable {last : LinePlace} {number offset k : Nat} {line : List Char}
  {pieces earlier later : List (List Char)}

/-- A place on a line is found there, behind all earlier lines. -/
theorem locateIn_append (hk : k < byteLength line) :
    locateIn last number (earlier ++ line :: later) (byteLength earlier.flatten + k) =
      ⟨number + earlier.length, line, k⟩ := by
  induction earlier generalizing last number with
  | nil => simp [locateIn, byteLength, hk]
  | cons piece earlier ih =>
    rw [List.cons_append, locateIn, List.flatten_cons, byteLength_append, if_neg (by omega),
      Nat.add_assoc, Nat.add_sub_cancel_left, ih, List.length_cons]
    congr 1
    omega

/-- Behind all lines the place is at the end of the last one. -/
theorem locateIn_of_le (h : byteLength (earlier ++ [line]).flatten ≤ offset) :
    locateIn last number (earlier ++ [line]) offset =
      ⟨number + earlier.length, line, bareLength line⟩ := by
  induction earlier generalizing last number offset with
  | nil =>
    have hline : ¬offset < byteLength line := by simpa using h
    simp [locateIn, hline]
  | cons piece earlier ih =>
    rw [List.cons_append, List.flatten_cons, byteLength_append] at h
    rw [List.cons_append, locateIn, if_neg (by omega), ih (by omega), List.length_cons]
    congr 1
    omega

/-- Every place in front of the end lies on a line. -/
theorem exists_line_of_lt (h : offset < byteLength pieces.flatten) :
    ∃ earlier line later k, pieces = earlier ++ line :: later ∧ k < byteLength line ∧
      byteLength earlier.flatten + k = offset := by
  induction pieces generalizing offset with
  | nil => exact absurd h (Nat.not_lt_zero _)
  | cons piece pieces ih =>
    rw [List.flatten_cons, byteLength_append] at h
    by_cases hpiece : offset < byteLength piece
    · exact ⟨[], piece, pieces, offset, rfl, hpiece, Nat.zero_add _⟩
    · have hrest : offset - byteLength piece < byteLength pieces.flatten := by omega
      obtain ⟨earlier, line, later, k, rfl, hk, hoffset⟩ := ih hrest
      refine ⟨piece :: earlier, line, later, k, rfl, hk, ?_⟩
      rw [List.flatten_cons, byteLength_append]
      omega

end

theorem CutInto.locate_append {text : String} {earlier later : List (List Char)} {line : List Char}
    (h : CutInto text.toList (earlier ++ line :: later)) {k : Nat} (hk : k < byteLength line) :
    locate text (byteLength earlier.flatten + k) = ⟨earlier.length + 1, line, k⟩ := by
  rw [locate, ← h.eq_splitLines, locateIn_append hk, Nat.add_comm]

theorem CutInto.locate_of_le {text : String} {earlier : List (List Char)} {line : List Char}
    (h : CutInto text.toList (earlier ++ [line])) {offset : Nat}
    (hoffset : byteLength text.toList ≤ offset) :
    locate text offset = ⟨earlier.length + 1, line, bareLength line⟩ := by
  rw [← h.flatten_eq] at hoffset
  rw [locate, ← h.eq_splitLines, locateIn_of_le hoffset, Nat.add_comm]

/-- **Looking up a place inverts cutting a text into lines.** A place in front of the end is on the
line with the number that is found, as many bytes behind the earlier lines as is found. Any other
place is at the end of the last line, in front of its line feed. A text without lines has one
place. -/
theorem locate_inverts_cutting (text : String) :
    ∃ pieces, CutInto text.toList pieces ∧ ∀ offset,
      (offset < byteLength text.toList → ∀ number line k,
        locate text offset = ⟨number, line, k⟩ ↔ ∃ earlier later,
          pieces = earlier ++ line :: later ∧ number = earlier.length + 1 ∧ k < byteLength line ∧
            byteLength earlier.flatten + k = offset) ∧
      (byteLength text.toList ≤ offset → text ≠ "" → ∃ earlier line bare,
        pieces = earlier ++ [line] ∧ '\n' ∉ bare ∧ (line = bare ∨ line = bare ++ ['\n']) ∧
          locate text offset = ⟨earlier.length + 1, line, byteLength bare⟩) ∧
      (text = "" → locate text offset = ⟨1, [], 0⟩) := by
  have hcut := cutInto_splitLines text.toList
  refine ⟨splitLines text.toList, hcut, fun offset => ⟨fun hlt number line k => ?_, ?_, ?_⟩⟩
  · constructor
    · intro h
      rw [← hcut.flatten_eq] at hlt
      obtain ⟨earlier, line', later, k', hpieces, hk, hoffset⟩ := exists_line_of_lt hlt
      rw [hpieces] at hcut
      rw [← hoffset, hcut.locate_append hk] at h
      cases h
      exact ⟨earlier, later, hpieces, rfl, hk, hoffset⟩
    · rintro ⟨earlier, later, hpieces, rfl, hk, rfl⟩
      rw [hpieces] at hcut
      exact hcut.locate_append hk
  · intro hle hne
    rcases List.eq_nil_or_concat' (splitLines text.toList) with hnil | ⟨earlier, line, hlast⟩
    · rw [hnil] at hcut
      exact absurd (by simpa using hcut.flatten_eq.symm) hne
    · obtain ⟨bare, hbare, hline⟩ := hcut.exists_bare line (by simp [hlast])
      refine ⟨earlier, line, bare, hlast, hbare, hline, ?_⟩
      rw [hlast] at hcut
      rw [hcut.locate_of_le hle]
      rcases hline with rfl | rfl
      · rw [(bareLength_eq hbare).1]
      · rw [(bareLength_eq hbare).2]
  · rintro rfl
    rfl

/-- A place behind a letter of two bytes on the second of three lines, and one behind the end. -/
theorem locate_inverts_cutting_three :
    ∃ pieces, CutInto "if\né x\nend".toList pieces ∧
      (∃ earlier later, pieces = earlier ++ "é x\n".toList :: later ∧ 2 = earlier.length + 1 ∧
        3 < byteLength "é x\n".toList ∧ byteLength earlier.flatten + 3 = 6) ∧
      ∃ earlier line bare, pieces = earlier ++ [line] ∧ '\n' ∉ bare ∧
        (line = bare ∨ line = bare ++ ['\n']) ∧
          locate "if\né x\nend" 100 = ⟨earlier.length + 1, line, byteLength bare⟩ := by
  obtain ⟨pieces, hcut, hplaces⟩ := locate_inverts_cutting "if\né x\nend"
  have hfound : locate "if\né x\nend" 6 = ⟨2, "é x\n".toList, 3⟩ := by decide
  exact ⟨pieces, hcut, ((hplaces 6).1 (by decide) _ _ _).1 hfound,
    (hplaces 100).2.1 (by decide) (by decide)⟩

end DefToC
