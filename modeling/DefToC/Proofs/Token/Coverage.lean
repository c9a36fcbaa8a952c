import DefToC.Proofs.Token.Blocks

/-!
# Tokens cover the source

Every character of a source is either in the span of a token or in a gap between two spans. A token
that is neither layout nor the end of the text is the text of its span. A gap holds what leaves no
token: separators, comments, joined lines, and line ends inside brackets or on lines without a
token. So nothing else of the source is lost, and nothing is taken twice or out of its order.

Spans count bytes, and a text is a list of characters, so `TextFrom` ties a byte to the text that
follows it. In front of every piece of text the scanner stands at such a byte, and what lies between
the last token and that byte is the beginning of a gap (`Covered`).
-/

namespace DefToC

/-! ### Places in the source -/

theorem byteLength_append (cs ds : List Char) :
    byteLength (cs ++ ds) = byteLength cs + byteLength ds := by
  induction cs with
  | nil => simp [byteLength]
  | cons c cs ih => simp [byteLength, ih, Nat.add_assoc]

/-- The text that begins at a byte of the source. There is none if the byte is inside a
character. -/
def TextFrom (source : String) (offset : Nat) (cs : List Char) : Prop :=
  ∃ front, source.toList = front ++ cs ∧ byteLength front = offset

/-- The text between two bytes of the source. -/
def Slice (source : String) (start stop : Nat) (cs : List Char) : Prop :=
  ∃ rest, TextFrom source start (cs ++ rest) ∧ TextFrom source stop rest

section

variable {source : String} {offset start stop : Nat} {cs piece rest : List Char}

theorem TextFrom.drop (h : TextFrom source offset (piece ++ rest)) :
    TextFrom source (offset + byteLength piece) rest := by
  obtain ⟨front, hsource, rfl⟩ := h
  exact ⟨front ++ piece, by rw [hsource, List.append_assoc], byteLength_append front piece⟩

theorem TextFrom.offset_add (h : TextFrom source offset cs) :
    offset + byteLength cs = byteLength source.toList := by
  obtain ⟨front, hsource, rfl⟩ := h
  rw [hsource, byteLength_append]

theorem Slice.start_le (h : Slice source start stop cs) : start ≤ stop := by
  obtain ⟨rest, hstart, hstop⟩ := h
  have hwhole := hstart.offset_add
  have hrest := hstop.offset_add
  rw [byteLength_append] at hwhole
  omega

end

/-! ### Gaps -/

/-- The texts that leave no token, in front of what follows them. Line ends are among them only
where they do not end a logical line. -/
inductive Skips (lineEnds : Prop) : List Char → List Char → Prop where
  | refl {cs : List Char} : Skips lineEnds cs cs
  | separator {c : Char} {cs rest : List Char} : isSeparator c = true → Skips lineEnds cs rest →
      Skips lineEnds (c :: cs) rest
  /-- A comment goes on to the end of the line. -/
  | comment {text cs rest : List Char} : '\n' ∉ text → (∀ c ∈ cs.head?, c = '\n') →
      Skips lineEnds cs rest → Skips lineEnds ('#' :: text ++ cs) rest
  | joinedLine {lineEnd cs rest : List Char} : Pattern.IsLineEnd lineEnd →
      Skips lineEnds cs rest → Skips lineEnds ('\\' :: lineEnd ++ cs) rest
  | lineEnd {lineEnd cs rest : List Char} : lineEnds → Pattern.IsLineEnd lineEnd →
      Skips lineEnds cs rest → Skips lineEnds (lineEnd ++ cs) rest

namespace Skips

variable {lineEnds : Prop} {cs ds rest piece : List Char}

theorem trans (h₁ : Skips lineEnds cs ds) (h₂ : Skips lineEnds ds rest) :
    Skips lineEnds cs rest := by
  induction h₁ with
  | refl => exact h₂
  | separator hc _ ih => exact .separator hc (ih h₂)
  | comment htext hend _ ih => exact .comment htext hend (ih h₂)
  | joinedLine hend _ ih => exact .joinedLine hend (ih h₂)
  | lineEnd hends hend _ ih => exact .lineEnd hends hend (ih h₂)

theorem separators (h : ∀ c ∈ piece, isSeparator c = true) :
    Skips lineEnds (piece ++ rest) rest := by
  induction piece with
  | nil => exact .refl
  | cons c piece ih =>
    obtain ⟨hc, hpiece⟩ := List.forall_mem_cons.1 h
    exact .separator hc (ih hpiece)

theorem byteLength_le (h : Skips lineEnds cs rest) : byteLength rest ≤ byteLength cs := by
  induction h with
  | refl => exact Nat.le_refl _
  | separator _ _ ih => exact Nat.le_trans ih (Nat.le_add_left _ _)
  | comment _ _ _ ih | joinedLine _ _ ih | lineEnd _ _ _ ih =>
    rw [byteLength_append]
    exact Nat.le_trans ih (Nat.le_add_left _ _)

end Skips

/-- A line end leaves no token inside brackets, nor where its logical line has none. -/
def HidesLineEnds (tokens : List Token) : Prop :=
  0 < openBrackets tokens ∨ betweenLines tokens = true

/-- Between two bytes of the source there is only what leaves no token. -/
def Gap (source : String) (lineEnds : Prop) (start stop : Nat) : Prop :=
  ∃ cs rest, TextFrom source start cs ∧ TextFrom source stop rest ∧ Skips lineEnds cs rest

theorem Gap.start_le {source : String} {lineEnds : Prop} {start stop : Nat}
    (h : Gap source lineEnds start stop) : start ≤ stop := by
  obtain ⟨cs, rest, hstart, hstop, hskips⟩ := h
  have hcs := hstart.offset_add
  have hrest := hstop.offset_add
  have hle := hskips.byteLength_le
  omega

/-! ### Tokens and what they cover -/

/-- The byte behind the last token. -/
def endOf (tokens : List Token) : Nat := (tokens.getLast?.map (·.span.stop)).getD 0

/-- What a token may cover. -/
structure Token.Covers (t : Token) (cs : List Char) : Prop where
  /-- A token that is neither layout nor the end is the text that it covers. -/
  text : t.kind.isLayout = false → t.kind ≠ .eof → cs ≠ [] ∧ t.value = String.ofList cs
  /-- A line end is covered where it stands, and nothing if the source stops without one. -/
  newline : t.kind = .newline → cs = [] ∨ Pattern.IsLineEnd cs
  nothing : t.kind = .indent ∨ t.kind = .dedent ∨ t.kind = .eof → cs = []

theorem Token.covers_nil {t : Token} (h : t.kind.isLayout = true ∨ t.kind = .eof) : t.Covers [] :=
  ⟨fun hlayout heof => by simp_all, fun _ => .inl rfl, fun _ => rfl⟩

/-- A token stands at what it covers, and a gap leads to it. -/
structure Placed (source : String) (front : List Token) (t : Token) : Prop where
  gap : Gap source (HidesLineEnds front) (endOf front) t.span.start
  slice : ∃ cs, Slice source t.span.start t.span.stop cs ∧ t.Covers cs

/-- The tokens cover the source up to the given byte, but for gaps. -/
structure Covered (source : String) (tokens : List Token) (offset : Nat) (cs : List Char) :
    Prop where
  text : TextFrom source offset cs
  placed : EachAfter (Placed source) tokens
  /-- The gap that has begun behind the last token. -/
  pending : ∃ ds, TextFrom source (endOf tokens) ds ∧ Skips (HidesLineEnds tokens) ds cs

namespace Covered

variable {source : String} {ts us : List Token} {t : Token} {offset : Nat}
  {piece rest cs : List Char}

theorem skip (h : Covered source ts offset (piece ++ rest))
    (hskips : Skips (HidesLineEnds ts) (piece ++ rest) rest) :
    Covered source ts (offset + byteLength piece) rest := by
  obtain ⟨ds, hds, hpending⟩ := h.pending
  exact ⟨h.text.drop, h.placed, ds, hds, hpending.trans hskips⟩

theorem concat (h : Covered source ts offset (piece ++ rest)) (hstart : t.span.start = offset)
    (hstop : t.span.stop = offset + byteLength piece) (ht : t.Covers piece) :
    Covered source (ts ++ [t]) (offset + byteLength piece) rest := by
  obtain ⟨ds, hds, hpending⟩ := h.pending
  have hend : endOf (ts ++ [t]) = offset + byteLength piece := by simp [endOf, hstop]
  refine ⟨h.text.drop, h.placed.append (.singleton ⟨?_, piece, ⟨rest, ?_, ?_⟩, ht⟩),
    rest, hend ▸ h.text.drop, .refl⟩
  · rw [List.append_nil]
    exact ⟨ds, _, hds, hstart ▸ h.text, hpending⟩
  · exact hstart ▸ h.text
  · exact hstop ▸ h.text.drop

/-- Tokens that cover nothing stand one behind the other at the same byte. -/
theorem append (h : Covered source ts offset cs)
    (hus : ∀ t ∈ us, t.span.start = offset ∧ t.span.stop = offset ∧ t.Covers []) :
    Covered source (ts ++ us) offset cs := by
  induction us generalizing ts with
  | nil => rwa [List.append_nil]
  | cons t us ih =>
    obtain ⟨⟨hstart, hstop, ht⟩, hus⟩ := List.forall_mem_cons.1 hus
    have h' : Covered source ts offset ([] ++ cs) := h
    rw [List.append_cons]
    exact ih (h'.concat hstart hstop ht) hus

end Covered

/-! ### Runs of the scanner -/

namespace Scanner

variable {file source : String} {ts us : List Token} {s s' : Scanner} {piece rest cs : List Char}

theorem isSeparator_of_isIndentation {c : Char} (h : isIndentation c = true) :
    isSeparator c = true := by
  simp only [isIndentation, isSeparator, Bool.or_eq_true] at h ⊢
  tauto

theorem covers_token {kind : TokenKind} (h : kind.Spelled piece) :
    (s.token kind piece).Covers piece := by
  obtain ⟨hlayout, heof⟩ := h.visible
  refine ⟨fun _ _ => ⟨h.ne_nil, rfl⟩, ?_, ?_⟩
  · rintro rfl
    cases hlayout
  · rintro (rfl | rfl | rfl)
    · cases hlayout
    · cases hlayout
    · exact absurd rfl heof

theorem covered_leaves (h : Covered source ts s.offset (piece ++ rest)) (ha : s.Agrees ts)
    (hl : s.Leaves piece rest us s') : Covered source (ts ++ us) s'.offset rest := by
  cases hl with
  | separators hpiece =>
    rw [List.append_nil]
    exact h.skip (.separators hpiece)
  | joinedLine hend =>
    rw [List.append_nil]
    exact h.skip (.joinedLine hend .refl)
  | comment htext hrest =>
    rw [List.append_nil]
    exact h.skip (.comment htext hrest .refl)
  | inside hend hdepth =>
    rw [List.append_nil]
    exact h.skip (.lineEnd (.inl (ha.depth ▸ hdepth)) hend .refl)
  | blank hend _ hempty =>
    rw [List.append_nil]
    exact h.skip (.lineEnd (.inr (ha.lineEmpty ▸ hempty)) hend .refl)
  | newline hend _ _ =>
    exact h.concat rfl rfl ⟨nofun, fun _ => .inr hend, by simp⟩
  | token hkind => exact h.concat rfl rfl (covers_token hkind)

theorem covered_indent (h : Covered source ts s.offset (piece ++ rest))
    (hpiece : ∀ c ∈ piece, isIndentation c = true) :
    Covered source ts (s.indent piece).offset rest := by
  rw [offset_indent s hpiece]
  exact h.skip (.separators fun c hc => isSeparator_of_isIndentation (hpiece c hc))

theorem covered_step (h : Covered source ts s.offset (piece ++ rest)) (ha : s.Agrees ts)
    (hstep : s.Step piece rest us s') : Covered source (ts ++ us) s'.offset rest := by
  cases hstep with
  | blank _ _ hpiece _ =>
    rw [List.append_nil]
    exact covered_indent h hpiece
  | line _ hpiece _ _ hadjust =>
    refine (covered_indent h hpiece).append fun t ht => ⟨?_, ?_, Token.covers_nil (.inl ?_)⟩
    · obtain ⟨kind, -, rfl⟩ := List.mem_map.1 ht
      rfl
    · obtain ⟨kind, -, rfl⟩ := List.mem_map.1 ht
      rfl
    · exact TokenKind.isLayout_of_block (blocks_of_adjustIndents hadjust t ht)
  | lexeme _ hfirst => exact covered_leaves h ha (s.leaves_take hfirst)

theorem Reaches.covered (h : Reaches file source ts s cs) : Covered source ts s.offset cs := by
  induction h with
  | start => exact ⟨⟨[], rfl, rfl⟩, .nil, source.toList, ⟨[], rfl, rfl⟩, .refl⟩
  | step hr hstep ih => exact covered_step ih hr.agrees hstep

theorem covered_finish (h : Covered source ts s.offset cs) :
    Covered source (ts ++ s.finish) s.offset cs := by
  refine h.append fun t ht => ?_
  obtain ⟨hspan, hkind⟩ := mem_finish ht
  rw [hspan]
  exact ⟨rfl, rfl, Token.covers_nil hkind⟩

end Scanner

/-! ### The tokens of a source -/

open Scanner

/-- **Tokens cover the source.** -/
theorem coverage_of_tokenize {file source : String} {tokens : List Token}
    (h : tokenize file source = .ok tokens) :
    -- the spans follow one another, with nothing between them that leaves a token
    (∀ (front : List Token) (t : Token) (back : List Token), tokens = front ++ t :: back →
      endOf front ≤ t.span.start ∧ t.span.start ≤ t.span.stop ∧
      Gap source (0 < openBrackets front ∨ betweenLines front = true) (endOf front) t.span.start ∧
      ∃ cs, Slice source t.span.start t.span.stop cs ∧ t.Covers cs) ∧
    -- the last of them is at the end of the source
    (∃ (front : List Token) (eof : Token), tokens = front ++ [eof] ∧ eof.kind = .eof ∧
      eof.span.start = byteLength source.toList ∧ eof.span.stop = byteLength source.toList) ∧
    -- throughout the run the scanner stands in front of a character
    ∀ ts s cs, Reaches file source ts s cs → TextFrom source s.offset cs := by
  obtain ⟨ts, s, hr, rfl⟩ := exists_reaches_of_tokenize h
  have hcovered := covered_finish hr.covered
  refine ⟨fun front t back heq => ?_, ?_, fun ts s cs hr => hr.covered.text⟩
  · obtain ⟨hgap, cs, hslice, hcovers⟩ := hcovered.placed front t back heq
    exact ⟨hgap.start_le, hslice.start_le, hgap, cs, hslice, hcovers⟩
  · obtain ⟨front, eof, hfinish, heof, -⟩ := exists_finish_eq s
    obtain ⟨hspan, -⟩ : eof.span = s.span 0 ∧ _ := mem_finish (by simp [hfinish])
    have hend : s.offset = byteLength source.toList := hcovered.text.offset_add
    refine ⟨ts ++ front, eof, by rw [hfinish, List.append_assoc], heof, ?_, ?_⟩ <;>
    · rw [hspan]
      exact hend

/-- The tokens of a call behind a comment, with a line end in its brackets and a joined line. -/
def commentedCallTokens : List Token :=
  [⟨.identifier, "g", ⟨"f", 5, 6⟩⟩, ⟨.openParen, "(", ⟨"f", 6, 7⟩⟩, ⟨.number, "1", ⟨"f", 8, 9⟩⟩,
   ⟨.closeParen, ")", ⟨"f", 9, 10⟩⟩, ⟨.newline, "", ⟨"f", 13, 13⟩⟩, ⟨.eof, "EOF", ⟨"f", 13, 13⟩⟩]

theorem coverage_of_tokenize_commentedCall :
    tokenize "f" "# é\ng(\n1) \\\n" = .ok commentedCallTokens ∧
      ∀ (front : List Token) (t : Token) (back : List Token),
        commentedCallTokens = front ++ t :: back →
        Gap "# é\ng(\n1) \\\n" (0 < openBrackets front ∨ betweenLines front = true) (endOf front)
          t.span.start ∧
        ∃ cs, Slice "# é\ng(\n1) \\\n" t.span.start t.span.stop cs ∧ t.Covers cs :=
  have h : tokenize "f" "# é\ng(\n1) \\\n" = .ok commentedCallTokens := by decide +kernel
  ⟨h, fun front t back heq => ((coverage_of_tokenize h).1 front t back heq).2.2⟩

end DefToC
