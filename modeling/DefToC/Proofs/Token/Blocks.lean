import DefToC.Proofs.Token.Traces

/-!
# Layout tokens are well bracketed

Line ends, and the starts and ends of blocks, are the tokens from which statements are put together.
The scanner decides about them by four parts of its state: the number of open brackets, the stack of
block widths, and the two marks that tell whether a line has begun. Each of these is a function of
the tokens already left (`Scanner.Agrees`, `Scanner.Nested`), so what the scanner does with a piece
of text can be said of the tokens alone:

* blocks are opened and closed in turn, and all are closed in the end,
* a line end follows a token of its line, and blocks change only between lines,
* inside brackets there is no layout at all.

Each is a step lemma, and a run lemma by induction on `Scanner.Reaches`. The tokens that close the
text come last and are looked at on their own.
-/

namespace DefToC

/-! ### What the tokens tell -/

/-- The number of brackets that are open behind the tokens. -/
def openBrackets (tokens : List Token) : Nat := tokens.foldl (fun depth t => t.kind.nest depth) 0

/-- Do the tokens stop between two lines? Then there is none, or the last one is layout. -/
def betweenLines (tokens : List Token) : Bool := tokens.getLast?.all (·.kind.isLayout)

/-- How many of the tokens are of a kind. -/
def kindCount (kind : TokenKind) (tokens : List Token) : Nat := (tokens.map Token.kind).count kind

/-- A condition on every token and the tokens in front of it. -/
def EachAfter (P : List Token → Token → Prop) (tokens : List Token) : Prop :=
  ∀ front t back, tokens = front ++ t :: back → P front t

section

variable {ts us : List Token} {t : Token} {kind : TokenKind} {P : List Token → Token → Prop}

theorem TokenKind.nest_of_isLayout (h : kind.isLayout = true) (depth : Nat) :
    kind.nest depth = depth := by
  cases kind <;> simp_all [isLayout, nest]

theorem TokenKind.isLayout_of_block (h : kind = .indent ∨ kind = .dedent) :
    kind.isLayout = true := by
  rcases h with rfl | rfl <;> rfl

@[simp]
theorem openBrackets_concat : openBrackets (ts ++ [t]) = t.kind.nest (openBrackets ts) := by
  simp [openBrackets]

theorem openBrackets_append_layout (hus : ∀ t ∈ us, t.kind.isLayout = true) :
    openBrackets (ts ++ us) = openBrackets ts := by
  induction us generalizing ts with
  | nil => rw [List.append_nil]
  | cons t us ih =>
    obtain ⟨ht, hus⟩ := List.forall_mem_cons.1 hus
    rw [List.append_cons, ih hus, openBrackets_concat, TokenKind.nest_of_isLayout ht]

@[simp]
theorem betweenLines_concat : betweenLines (ts ++ [t]) = t.kind.isLayout := by
  simp [betweenLines]

theorem betweenLines_iff : betweenLines ts = true ↔
    ∀ last, ts.getLast? = some last → last.kind.isLayout = true := by
  unfold betweenLines
  cases ts.getLast? <;> simp

theorem betweenLines_append_layout (hts : betweenLines ts = true)
    (hus : ∀ t ∈ us, t.kind.isLayout = true) : betweenLines (ts ++ us) = true := by
  rcases List.eq_nil_or_concat' us with rfl | ⟨us, t, rfl⟩
  · rwa [List.append_nil]
  · rw [← List.append_assoc, betweenLines_concat]
    exact hus t (by simp)

@[simp]
theorem kindCount_append :
    kindCount kind (ts ++ us) = kindCount kind ts + kindCount kind us := by
  rw [kindCount, List.map_append, List.count_append]
  rfl

theorem kindCount_eq_zero (h : ∀ t ∈ ts, t.kind ≠ kind) : kindCount kind ts = 0 :=
  List.count_eq_zero.2 fun hmem =>
    have ⟨t, ht, heq⟩ := List.mem_map.1 hmem
    h t ht heq

theorem EachAfter.nil : EachAfter P [] := by
  intro front t back h
  simp at h

theorem EachAfter.singleton (h : P [] t) : EachAfter P [t] := by
  intro front u back heq
  obtain ⟨rfl, rfl, -⟩ : front = [] ∧ u = t ∧ back = [] := by
    simpa [List.singleton_eq_append_iff, and_assoc] using heq
  exact h

theorem EachAfter.append (hts : EachAfter P ts)
    (hus : EachAfter (fun front t => P (ts ++ front) t) us) : EachAfter P (ts ++ us) := by
  intro front t back heq
  rcases List.append_eq_append_iff.1 heq with ⟨front', rfl, hus'⟩ | ⟨back', hts', hback⟩
  · exact hus front' t back hus'
  · cases back' with
    | nil =>
      obtain rfl : ts = front := by simpa using hts'
      simpa using hus [] t back (by simpa using hback.symm)
    | cons u back' =>
      obtain ⟨rfl, rfl⟩ := List.cons.inj hback
      exact hts front t back' hts'

theorem EachAfter.mono {Q : List Token → Token → Prop} (h : EachAfter P ts)
    (hPQ : ∀ front t, P front t → Q front t) : EachAfter Q ts :=
  fun front t back heq => hPQ front t (h front t back heq)

end

/-! ### The stack of block widths -/

/-- A stack of block widths: every block is wider than the one around it, and the outermost one has
the width zero. -/
structure IsStack (widths : List Nat) : Prop where
  decreasing : widths.Pairwise (· > ·)
  bottom : widths.getLast? = some 0

section

variable {widths widths' : List Nat} {width : Nat} {kinds : List TokenKind}

/-- What a line does to the stack: it opens one block, or it closes those that are wider. -/
theorem adjustIndents_eq_some (h : adjustIndents widths width = some (kinds, widths')) :
    (widths.headD 0 < width ∧ kinds = [.indent] ∧ widths' = width :: widths) ∨
      ∃ closed, widths = closed ++ widths' ∧ (∀ w ∈ closed, width < w) ∧
        widths'.headD 0 = width ∧ kinds = closed.map fun _ => .dedent := by
  unfold adjustIndents at h
  split at h
  · obtain ⟨rfl, rfl⟩ := Prod.mk.inj (Option.some.inj h)
    exact .inl ⟨‹_›, rfl, rfl⟩
  · simp only [Option.ite_none_right_eq_some, Option.some.injEq, Prod.mk.injEq] at h
    obtain ⟨hwidth, rfl, rfl⟩ := h
    refine .inr ⟨_, List.takeWhile_append_dropWhile.symm, fun w hw => ?_, hwidth, rfl⟩
    simpa using List.mem_takeWhile_imp hw

theorem IsStack.ne_nil (h : IsStack widths) : widths ≠ [] := by
  rintro rfl
  cases h.bottom

theorem IsStack.adjust (h : IsStack widths)
    (hadjust : adjustIndents widths width = some (kinds, widths')) : IsStack widths' := by
  rcases adjustIndents_eq_some hadjust with ⟨hlt, -, rfl⟩ | ⟨closed, rfl, hclosed, -, -⟩
  · obtain ⟨top, below, rfl⟩ := List.exists_cons_of_ne_nil h.ne_nil
    refine ⟨List.pairwise_cons.2 ⟨fun w hw => ?_, h.decreasing⟩, by simpa using h.bottom⟩
    rcases List.mem_cons.1 hw with rfl | hw
    · exact hlt
    · exact Nat.lt_trans (List.rel_of_pairwise_cons h.decreasing hw) hlt
  · -- the outermost block has the width zero, so no line closes it
    have hne : widths' ≠ [] := by
      rintro rfl
      have hzero : 0 ∈ closed := List.mem_of_getLast? (by simpa using h.bottom)
      exact absurd (hclosed 0 hzero) (Nat.not_lt_zero _)
    refine ⟨(List.pairwise_append.1 h.decreasing).2.1, ?_⟩
    rw [← List.getLast?_append_of_ne_nil closed hne]
    exact h.bottom

end

/-! ### The state and the tokens -/

namespace Scanner

variable {file source : String} {ts us : List Token} {s s' : Scanner} {piece rest cs : List Char}

/-- What the state remembers of the tokens already left. -/
structure Agrees (s : Scanner) (tokens : List Token) : Prop where
  depth : s.depth = openBrackets tokens
  lineEmpty : s.lineEmpty = betweenLines tokens
  /-- Indentation counts only between lines. -/
  lineStart : s.lineStart = true → s.depth = 0 ∧ s.lineEmpty = true

theorem Agrees.leaves (h : s.Agrees ts) (hstart : s.lineStart = false)
    (hl : s.Leaves piece rest us s') : s'.Agrees (ts ++ us) := by
  cases hl with
  | separators | joinedLine | comment | inside =>
    rw [List.append_nil]
    exact ⟨h.depth, h.lineEmpty, h.lineStart⟩
  | blank _ hdepth hempty =>
    rw [List.append_nil]
    exact ⟨h.depth, hempty ▸ h.lineEmpty, fun _ => ⟨hdepth, rfl⟩⟩
  | newline _ hdepth _ =>
    refine ⟨?_, by simp [TokenKind.isLayout], fun _ => ⟨hdepth, rfl⟩⟩
    rw [openBrackets_concat]
    exact h.depth
  | token hkind =>
    refine ⟨?_, ?_, fun hs => absurd hs (by simpa [skip] using hstart)⟩
    · rw [openBrackets_concat, ← h.depth]
      rfl
    · rw [betweenLines_concat]
      exact hkind.visible.1.symm

theorem blocks_of_adjustIndents {width : Nat} {kinds : List TokenKind} {widths widths' : List Nat}
    (h : adjustIndents widths width = some (kinds, widths')) :
    ∀ t ∈ kinds.map s.mark, t.kind = .indent ∨ t.kind = .dedent := by
  intro t ht
  obtain ⟨kind, hkind, rfl⟩ := List.mem_map.1 ht
  rcases adjustIndents_eq_some h with ⟨-, rfl, -⟩ | ⟨closed, -, -, -, rfl⟩
  · exact .inl (List.mem_singleton.1 hkind)
  · obtain ⟨w, -, rfl⟩ := List.mem_map.1 hkind
    exact .inr rfl

theorem Agrees.step (h : s.Agrees ts) (hstep : s.Step piece rest us s') : s'.Agrees (ts ++ us) := by
  cases hstep with
  | blank =>
    rw [List.append_nil]
    exact ⟨h.depth, h.lineEmpty, nofun⟩
  | line hstart _ _ _ hadjust =>
    have hblocks := blocks_of_adjustIndents (s := s.indent piece) hadjust
    have hlayout := fun t ht => TokenKind.isLayout_of_block (hblocks t ht)
    obtain ⟨-, hempty⟩ := h.lineStart hstart
    refine ⟨?_, ?_, nofun⟩
    · rw [openBrackets_append_layout hlayout]
      exact h.depth
    · rw [betweenLines_append_layout (h.lineEmpty ▸ hempty) hlayout]
      exact hempty
  | lexeme hstart hfirst => exact h.leaves hstart (s.leaves_take hfirst)

theorem Reaches.agrees (h : Reaches file source ts s cs) : s.Agrees ts := by
  induction h with
  | start => exact ⟨rfl, rfl, fun _ => ⟨rfl, rfl⟩⟩
  | step _ hstep ih => exact ih.step hstep

/-! ### Blocks are opened and closed in turn -/

/-- No block is closed that was not opened. -/
def Balanced (tokens : List Token) : Prop :=
  ∀ front, front <+: tokens → kindCount .dedent front ≤ kindCount .indent front

/-- It is enough to look at the end of tokens that only open or only close blocks. -/
theorem Balanced.append (hts : Balanced ts)
    (hus : kindCount .indent us = 0 ∨ kindCount .dedent us = 0)
    (hall : kindCount .dedent (ts ++ us) ≤ kindCount .indent (ts ++ us)) : Balanced (ts ++ us) := by
  rintro front ⟨back, heq⟩
  rcases List.append_eq_append_iff.1 heq with ⟨back', rfl, -⟩ | ⟨front', rfl, rfl⟩
  · exact hts front ⟨back', rfl⟩
  · have hwhole := hts ts (List.prefix_refl ts)
    simp only [kindCount_append] at hus hall ⊢
    omega

/-- The stack holds the blocks that the tokens have opened and not closed. -/
structure Nested (s : Scanner) (tokens : List Token) : Prop where
  stack : IsStack s.widths
  length : s.widths.length + kindCount .dedent tokens = 1 + kindCount .indent tokens
  balanced : Balanced tokens

theorem Nested.append (h : s.Nested ts) (hstack : IsStack s'.widths)
    (hlength : s'.widths.length + kindCount .dedent us = s.widths.length + kindCount .indent us)
    (hus : kindCount .indent us = 0 ∨ kindCount .dedent us = 0) : s'.Nested (ts ++ us) := by
  have hpos := List.length_pos_iff.2 hstack.ne_nil
  have hbefore := h.length
  refine ⟨hstack, ?_, h.balanced.append hus ?_⟩ <;>
  · simp only [kindCount_append]
    omega

/-- A lexeme neither opens nor closes a block. -/
theorem Leaves.not_block (hl : s.Leaves piece rest us s') :
    s'.widths = s.widths ∧ ∀ t ∈ us, t.kind ≠ .indent ∧ t.kind ≠ .dedent := by
  refine ⟨by cases hl <;> rfl, ?_⟩
  cases hl with
  | separators | joinedLine | comment | inside | blank => exact List.forall_mem_nil _
  | newline => simp
  | token hkind =>
    have hlayout := hkind.visible.1
    refine List.forall_mem_singleton.2 ⟨?_, ?_⟩ <;>
    · rintro rfl
      cases hlayout

theorem Nested.leaves (h : s.Nested ts) (hl : s.Leaves piece rest us s') :
    s'.Nested (ts ++ us) := by
  obtain ⟨hwidths, hus⟩ := hl.not_block
  have hindent : kindCount .indent us = 0 := kindCount_eq_zero fun t ht => (hus t ht).1
  have hdedent : kindCount .dedent us = 0 := kindCount_eq_zero fun t ht => (hus t ht).2
  exact h.append (hwidths ▸ h.stack) (by rw [hwidths, hindent, hdedent]) (.inl hindent)

/-- The indentation of a line opens one block or closes some. -/
theorem Nested.line {width : Nat} {kinds : List TokenKind} (h : s.Nested ts)
    (hadjust : adjustIndents s.widths width = some (kinds, s'.widths))
    (hus : us.map Token.kind = kinds) : s'.Nested (ts ++ us) := by
  refine h.append (h.stack.adjust hadjust) ?_ ?_ <;>
    rcases adjustIndents_eq_some hadjust with ⟨-, rfl, hwidths⟩ | ⟨closed, hwidths, -, -, rfl⟩
  all_goals
    simp [kindCount, hus, hwidths, List.map_const', List.count_replicate]
  omega

theorem map_kind_mark (s : Scanner) (kinds : List TokenKind) :
    (kinds.map s.mark).map Token.kind = kinds := by
  rw [List.map_map]
  exact List.map_id kinds

theorem Nested.step (h : s.Nested ts) (hstep : s.Step piece rest us s') : s'.Nested (ts ++ us) := by
  cases hstep with
  | blank => exact h.append h.stack rfl (.inl rfl)
  | line _ _ _ _ hadjust => exact h.line hadjust (map_kind_mark _ _)
  | lexeme _ hfirst => exact h.leaves (s.leaves_take hfirst)

theorem Reaches.nested (h : Reaches file source ts s cs) : s.Nested ts := by
  induction h with
  | start => exact ⟨⟨List.pairwise_singleton _ _, rfl⟩, rfl, by simp [Balanced, kindCount]⟩
  | step _ hstep ih => exact ih.step hstep

/-! ### Where layout stands -/

/-- A line end follows a token of its line, and blocks change between lines. -/
structure Fits (front : List Token) (t : Token) : Prop where
  newline : t.kind = .newline → betweenLines front = false
  block : t.kind = .indent ∨ t.kind = .dedent → betweenLines front = true

/-- A token that is left before the end of the text. -/
structure Inner (front : List Token) (t : Token) : Prop extends Fits front t where
  /-- Inside brackets there is no layout. -/
  outside : t.kind.isLayout = true → openBrackets front = 0
  ne_eof : t.kind ≠ .eof

theorem fits_of_visible {front : List Token} {t : Token} (h : t.kind.isLayout = false) :
    Fits front t := by
  refine ⟨fun hkind => ?_, fun hkind => ?_⟩
  · rw [hkind] at h
    cases h
  · rw [TokenKind.isLayout_of_block hkind] at h
    cases h

/-- The marks of blocks fit between lines, any number of them. -/
theorem fits_blocks (hts : betweenLines ts = true)
    (hus : ∀ t ∈ us, t.kind = .indent ∨ t.kind = .dedent) :
    EachAfter (fun front t => Fits (ts ++ front) t) us := by
  rintro front t back rfl
  have hfront : betweenLines (ts ++ front) = true :=
    betweenLines_append_layout hts fun u hu => TokenKind.isLayout_of_block (hus u (by simp [hu]))
  refine ⟨fun hnewline => ?_, fun _ => hfront⟩
  rcases hus t (by simp) with h | h <;> cases hnewline.symm.trans h

theorem Agrees.inner_leaves (h : s.Agrees ts) (hl : s.Leaves piece rest us s') :
    EachAfter (fun front t => Inner (ts ++ front) t) us := by
  cases hl with
  | separators | joinedLine | comment | inside | blank => exact .nil
  | newline _ hdepth hempty =>
    refine .singleton ⟨⟨fun _ => ?_, nofun⟩, fun _ => ?_, nofun⟩
    · rw [List.append_nil, ← h.lineEmpty, hempty]
    · rw [List.append_nil, ← h.depth, hdepth]
  | token hkind =>
    obtain ⟨hvisible, heof⟩ := hkind.visible
    exact .singleton ⟨fits_of_visible hvisible, fun h => absurd (hvisible.symm.trans h) nofun, heof⟩

theorem Agrees.inner_step (h : s.Agrees ts) (hstep : s.Step piece rest us s') :
    EachAfter (fun front t => Inner (ts ++ front) t) us := by
  cases hstep with
  | blank => exact .nil
  | line hstart _ _ _ hadjust =>
    obtain ⟨hdepth, hempty⟩ := h.lineStart hstart
    have hblocks := blocks_of_adjustIndents (s := s.indent piece) hadjust
    intro front t back heq
    have hmem : ∀ u ∈ front ++ [t], u.kind = .indent ∨ u.kind = .dedent :=
      fun u hu => hblocks u (by rw [heq]; simp at hu ⊢; tauto)
    refine ⟨fits_blocks (h.lineEmpty ▸ hempty) hblocks front t back heq, fun _ => ?_, ?_⟩
    · rw [openBrackets_append_layout fun u hu =>
        TokenKind.isLayout_of_block (hmem u (List.mem_append_left _ hu)), ← h.depth, hdepth]
    · rcases hmem t (by simp) with hkind | hkind <;> simp [hkind]
  | lexeme _ hfirst => exact h.inner_leaves (s.leaves_take hfirst)

theorem Reaches.inner (h : Reaches file source ts s cs) : EachAfter Inner ts := by
  induction h with
  | start => exact .nil
  | step hr hstep ih => exact ih.append (hr.agrees.inner_step hstep)

/-! ### The end of the text -/

theorem Agrees.fits_finish (h : s.Agrees ts) :
    EachAfter (fun front t => Fits (ts ++ front) t) s.finish := by
  -- a line that has begun is ended first
  have hnewline : EachAfter (fun front t => Fits (ts ++ front) t)
        (if s.lineEmpty then [] else [s.mark .newline]) ∧
      betweenLines (ts ++ if s.lineEmpty then [] else [s.mark .newline]) = true := by
    split
    · exact ⟨.nil, by rwa [List.append_nil, ← h.lineEmpty]⟩
    · refine ⟨.singleton ⟨fun _ => ?_, nofun⟩, by simp [mark, TokenKind.isLayout]⟩
      rw [List.append_nil, ← h.lineEmpty]
      simpa using ‹¬s.lineEmpty = true›
  have hdedents : ∀ t ∈ (s.widths.drop 1).map fun _ => s.mark .dedent,
      t.kind = .indent ∨ t.kind = .dedent := by
    intro t ht
    obtain ⟨w, -, rfl⟩ := List.mem_map.1 ht
    exact .inr rfl
  refine (hnewline.1.append ?_).append (.singleton (fits_of_visible rfl))
  simpa only [List.append_assoc] using fits_blocks hnewline.2 hdedents

theorem kindCount_finish (s : Scanner) :
    kindCount .indent s.finish = 0 ∧ kindCount .dedent s.finish = s.widths.length - 1 := by
  by_cases h : s.lineEmpty = true <;>
    simp [finish, h, kindCount, mark, List.map_const', List.count_replicate]

/-- All blocks are closed at the end of the text. -/
theorem Nested.finish (h : s.Nested ts) :
    Balanced (ts ++ s.finish) ∧
      kindCount .dedent (ts ++ s.finish) = kindCount .indent (ts ++ s.finish) := by
  obtain ⟨hindent, hdedent⟩ := kindCount_finish s
  have hpos := List.length_pos_iff.2 h.stack.ne_nil
  have hlength := h.length
  have heq : kindCount .dedent (ts ++ s.finish) = kindCount .indent (ts ++ s.finish) := by
    rw [kindCount_append, kindCount_append, hindent, hdedent]
    omega
  exact ⟨h.balanced.append (.inl hindent) heq.le, heq⟩

theorem mem_finish {t : Token} (ht : t ∈ s.finish) :
    t.span = s.span 0 ∧ (t.kind.isLayout = true ∨ t.kind = .eof) := by
  simp only [finish, List.mem_append, List.mem_map, List.mem_singleton] at ht
  rcases ht with (ht | ⟨w, -, rfl⟩) | rfl
  · split at ht
    · cases ht
    · rw [List.mem_singleton.1 ht]
      exact ⟨rfl, .inl rfl⟩
  · exact ⟨rfl, .inl rfl⟩
  · exact ⟨rfl, .inr rfl⟩

theorem exists_finish_eq (s : Scanner) :
    ∃ (front : List Token) (eof : Token), s.finish = front ++ [eof] ∧ eof.kind = .eof ∧
      ∀ t ∈ front, t.kind ≠ .eof := by
  refine ⟨_, _, rfl, rfl, fun t ht => ?_⟩
  rcases List.mem_append.1 ht with ht | ht
  · split at ht
    · cases ht
    · rw [List.mem_singleton.1 ht]
      exact nofun
  · obtain ⟨w, -, rfl⟩ := List.mem_map.1 ht
    exact nofun

end Scanner

/-! ### The tokens of a source -/

open Scanner

/-- **Layout tokens are well bracketed.** -/
theorem layout_of_tokenize {file source : String} {tokens : List Token}
    (h : tokenize file source = .ok tokens) :
    -- the end of the text is one token, and the last
    (∃ (front : List Token) (eof : Token), tokens = front ++ [eof] ∧ eof.kind = .eof ∧
      ∀ t ∈ front, t.kind ≠ .eof) ∧
    -- every block that is closed was opened, and all are closed
    (∀ front, front <+: tokens → kindCount .dedent front ≤ kindCount .indent front) ∧
    kindCount .dedent tokens = kindCount .indent tokens ∧
    -- a line end follows a token of its line, and blocks change between lines
    (∀ (front : List Token) (t : Token) (back : List Token), tokens = front ++ t :: back →
      (t.kind = .newline →
        ∃ last, front.getLast? = some last ∧ last.kind.isLayout = false) ∧
      (t.kind = .indent ∨ t.kind = .dedent →
        ∀ last, front.getLast? = some last → last.kind.isLayout = true)) ∧
    -- inside brackets there is no layout before the end of the text
    (∃ ts s, Reaches file source ts s [] ∧ tokens = ts ++ s.finish ∧
      ∀ (front : List Token) (t : Token) (back : List Token), ts = front ++ t :: back →
        0 < openBrackets front → t.kind.isLayout = false) ∧
    -- throughout the run the stack holds the open blocks, each wider than the one around it
    ∀ ts s cs, Reaches file source ts s cs →
      s.widths.getLast? = some 0 ∧ s.widths.Pairwise (· > ·) ∧
        s.widths.length + kindCount .dedent ts = 1 + kindCount .indent ts := by
  obtain ⟨ts, s, hr, rfl⟩ := exists_reaches_of_tokenize h
  have hfits : EachAfter Fits (ts ++ s.finish) :=
    (hr.inner.mono fun _ _ h => h.toFits).append hr.agrees.fits_finish
  obtain ⟨hbalanced, hcount⟩ := hr.nested.finish
  refine ⟨?_, hbalanced, hcount, fun front t back heq => ⟨fun hkind => ?_, fun hkind => ?_⟩,
    ⟨ts, s, hr, rfl, fun front t back heq hopen => ?_⟩,
    fun ts s cs hr => ⟨hr.nested.stack.bottom, hr.nested.stack.decreasing, hr.nested.length⟩⟩
  · obtain ⟨front, eof, hfinish, heof, hfront⟩ := exists_finish_eq s
    refine ⟨ts ++ front, eof, by rw [hfinish, List.append_assoc], heof, fun t ht => ?_⟩
    rcases List.mem_append.1 ht with ht | ht
    · obtain ⟨before, after, rfl⟩ := List.append_of_mem ht
      exact (hr.inner before t after rfl).ne_eof
    · exact hfront t ht
  · have hlines := (hfits front t back heq).newline hkind
    rw [← Bool.not_eq_true, betweenLines_iff] at hlines
    simpa using hlines
  · exact betweenLines_iff.1 ((hfits front t back heq).block hkind)
  · by_contra hlayout
    rw [(hr.inner front t back heq).outside (by simpa using hlayout)] at hopen
    exact Nat.lt_irrefl 0 hopen

/-- The tokens of a block with a call that goes on over a line end. -/
def splitCallTokens : List Token :=
  [⟨.ifWord, "if", ⟨"f", 0, 2⟩⟩, ⟨.identifier, "a", ⟨"f", 3, 4⟩⟩, ⟨.colon, ":", ⟨"f", 4, 5⟩⟩,
   ⟨.newline, "\\n", ⟨"f", 5, 6⟩⟩, ⟨.indent, "", ⟨"f", 7, 7⟩⟩, ⟨.identifier, "g", ⟨"f", 7, 8⟩⟩,
   ⟨.openParen, "(", ⟨"f", 8, 9⟩⟩, ⟨.number, "1", ⟨"f", 10, 11⟩⟩, ⟨.closeParen, ")", ⟨"f", 11, 12⟩⟩,
   ⟨.newline, "", ⟨"f", 12, 12⟩⟩, ⟨.dedent, "", ⟨"f", 12, 12⟩⟩, ⟨.eof, "EOF", ⟨"f", 12, 12⟩⟩]

theorem layout_of_tokenize_splitCall :
    tokenize "f" "if a:\n g(\n1)" = .ok splitCallTokens ∧
      (∀ front, front <+: splitCallTokens → kindCount .dedent front ≤ kindCount .indent front) ∧
      kindCount .dedent splitCallTokens = kindCount .indent splitCallTokens :=
  have h : tokenize "f" "if a:\n g(\n1)" = .ok splitCallTokens := by decide +kernel
  have ⟨_, hbalanced, hcount, _⟩ := layout_of_tokenize h
  ⟨h, hbalanced, hcount⟩

end DefToC
