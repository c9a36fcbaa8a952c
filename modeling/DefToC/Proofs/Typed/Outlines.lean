import DefToC.Token.Pattern
import Mathlib.Data.List.TakeWhile

/-!
# Outlines of texts

The text of an expression is a word, or parts in brackets with separators in front of them and
perhaps a word in front of the bracket. An `Outline` keeps only that. What separates the parts is
chosen so that the outline can be found again from the text: no word can be longer than it is in
front of what may follow it, and no separator is confused with a longer one or with the part behind
it. `Outline.text_inj` says so: if two well-formed outlines have the same text, with anything behind
it that may follow an expression, then they are the same outline.
-/

namespace DefToC

/-- The brackets of the output language. -/
inductive Bracket where
  | round
  | square
  | curly
  deriving DecidableEq

namespace Bracket

def opening : Bracket → Char
  | round => '('
  | square => '['
  | curly => '\x7b'

def closing : Bracket → Char
  | round => ')'
  | square => ']'
  | curly => '\x7d'

theorem opening_inj {b b' : Bracket} (h : b.opening = b'.opening) : b = b' := by
  cases b <;> cases b' <;> simp_all [opening]

end Bracket

/-- The outline of a text. -/
inductive Outline where
  | word (cs : List Char)
  /-- A word or nothing, and in brackets behind it the parts, each with its separator. -/
  | group (lead : List Char) (bracket : Bracket) (parts : List (List Char × Outline))

namespace Outline

/-- Induction on outlines. -/
@[elab_as_elim, induction_eliminator]
theorem induction {motive : Outline → Prop} (word : ∀ cs, motive (.word cs))
    (group : ∀ lead bracket parts, (∀ p ∈ parts, motive p.2) → motive (.group lead bracket parts))
    (d : Outline) : motive d := by
  refine @Outline.rec motive (fun parts => ∀ p ∈ parts, motive p.2) (fun p => motive p.2) word group
    ?_ ?_ ?_ d
  · exact fun _ h => absurd h List.not_mem_nil
  · exact fun p ps hp hps => List.forall_mem_cons.2 ⟨hp, hps⟩
  · exact fun _ _ h => h

mutual

/-- The text of an outline. -/
def text : Outline → List Char
  | word cs => cs
  | group lead bracket parts => lead ++ bracket.opening :: (textAll parts ++ [bracket.closing])

/-- The texts of several parts, with their separators. -/
def textAll : List (List Char × Outline) → List Char
  | [] => []
  | (sep, d) :: parts => sep ++ (text d ++ textAll parts)

end

/-! ### Words -/

variable {cs rest rest' sep sep' : List Char}

/-- The characters of names and numbers. -/
def isAtom (c : Char) : Bool := isWordPart c || c == '.' || c == '-'

/-- A name, or a number without a sign. -/
def IsWord (cs : List Char) : Prop :=
  (∃ c ∈ cs.head?, isWordPart c = true) ∧ ∀ c ∈ cs, isAtom c = true

/-- What may stand behind an expression. -/
def Ends (cs : List Char) : Prop := ∀ c ∈ cs.head?, c ∈ [' ', ',', ')', ']', '\x7d']

/-- What may stand at the front of an expression. -/
def Starts (cs : List Char) : Prop :=
  ∃ c ∈ cs.head?, isWordPart c = true ∨ c ∈ ['(', '[', '\x7b']

/-- Two rows of characters of a kind are the same, if they stop in front of other characters in
the same text. -/
theorem append_inj_of_stop {p : Char → Bool} {cs' : List Char}
    (hcs : ∀ c ∈ cs, p c = true) (hcs' : ∀ c ∈ cs', p c = true)
    (hrest : ∀ c ∈ rest.head?, p c = false) (hrest' : ∀ c ∈ rest'.head?, p c = false)
    (h : cs ++ rest = cs' ++ rest') : cs = cs' ∧ rest = rest' := by
  have htake {cs rest : List Char} (hcs : ∀ c ∈ cs, p c = true)
      (hrest : ∀ c ∈ rest.head?, p c = false) : (cs ++ rest).takeWhile p = cs := by
    rw [List.takeWhile_append_of_pos hcs]
    cases rest with
    | nil => simp
    | cons c rest => simp [hrest c rfl]
  have heq : cs = cs' := by rw [← htake hcs hrest, h, htake hcs' hrest']
  subst heq
  exact ⟨rfl, List.append_cancel_left h⟩

theorem Ends.not_isAtom (h : Ends cs) : ∀ c ∈ cs.head?, isAtom c = false := by
  intro c hc
  have hall : [' ', ',', ')', ']', '\x7d'].all (!isAtom ·) = true := rfl
  simpa using List.all_eq_true.1 hall c (h c hc)

theorem not_ends_opening (b : Bracket) : ¬Ends (b.opening :: cs) := by
  intro h
  have hmem := h _ rfl
  cases b <;> simp [Bracket.opening] at hmem

theorem ends_closing (b : Bracket) : Ends (b.closing :: cs) := by
  cases b <;> simp [Ends, Bracket.closing]

theorem starts_opening (b : Bracket) : Starts (b.opening :: cs) := by
  cases b <;> simp [Starts, Bracket.opening]

theorem IsWord.starts (h : IsWord cs) : Starts (cs ++ rest) := by
  obtain ⟨c, hc, hword⟩ := h.1
  exact ⟨c, by simp [Option.mem_def.1 hc], .inl hword⟩

theorem IsWord.ne_nil (h : IsWord cs) : cs ≠ [] := by
  rintro rfl
  obtain ⟨c, hc, -⟩ := h.1
  cases hc

/-- An expression begins with no sign. -/
theorem not_starts_sign {c : Char} (hc : c ∈ ['+', '-', '!']) : ¬Starts (c :: cs) := by
  rintro ⟨_, ⟨rfl⟩, hstart⟩
  simp only [List.mem_cons, List.not_mem_nil, or_false] at hc
  revert hstart
  rcases hc with rfl | rfl | rfl <;> decide

theorem not_starts_closing (b : Bracket) : ¬Starts (b.closing :: cs) := by
  rintro ⟨_, ⟨rfl⟩, hstart⟩
  revert hstart
  cases b <;> decide

/-! ### Separators -/

/-- The conversion of a number. -/
def castText : List Char := ['(', 'd', 'o', 'u', 'b', 'l', 'e', ')']

/-- What stands between the bracket and the first part. -/
inductive Opens : List Char → Prop where
  | none : Opens []
  | sign {c : Char} : c ∈ ['+', '-', '!'] → Opens [c]
  | cast : Opens castText

/-- What stands between two parts. -/
inductive Joins : List Char → Prop where
  | comma : Joins [',', ' ']
  | commaSign : Joins [',', ' ', '-']
  | spaced {mark : List Char} : ' ' ∉ mark → Joins (' ' :: (mark ++ [' ']))

theorem Joins.ends (h : Joins sep) : Ends (sep ++ rest) := by
  cases h <;> simp [Ends]

theorem Joins.ne_closing (h : Joins sep) (b : Bracket) : sep ++ rest ≠ b.closing :: rest' := by
  cases h <;> cases b <;> simp [Bracket.closing]

theorem Joins.inj (h : Joins sep) (h' : Joins sep') (hrest : Starts rest) (hrest' : Starts rest')
    (heq : sep ++ rest = sep' ++ rest') : sep = sep' ∧ rest = rest' := by
  cases h with
  | comma =>
    cases h' with
    | comma => simpa using heq
    | commaSign =>
      obtain rfl : rest = '-' :: rest' := by simpa using heq
      exact absurd hrest (not_starts_sign (by simp))
    | spaced => simp at heq
  | commaSign =>
    cases h' with
    | comma =>
      obtain rfl : '-' :: rest = rest' := by simpa using heq
      exact absurd hrest' (not_starts_sign (by simp))
    | commaSign => simpa using heq
    | spaced => simp at heq
  | @spaced mark hmark =>
    cases h' with
    | comma | commaSign => simp at heq
    | @spaced mark' hmark' =>
      have hnot {mark : List Char} (h : ' ' ∉ mark) : ∀ c ∈ mark, (c != ' ') = true := by
        intro c hc
        rw [bne_iff_ne]
        rintro rfl
        exact h hc
      have heq' : mark ++ (' ' :: rest) = mark' ++ (' ' :: rest') := by simpa using heq
      obtain ⟨rfl, hrest⟩ :=
        append_inj_of_stop (hnot hmark) (hnot hmark') (by simp) (by simp) heq'
      exact ⟨rfl, (List.cons.inj hrest).2⟩

theorem Opens.ne_closing (h : Opens sep) (hrest : Starts rest) (b : Bracket) :
    sep ++ rest ≠ b.closing :: rest' := by
  intro heq
  cases h with
  | none =>
    rw [List.nil_append] at heq
    exact not_starts_closing b (heq ▸ hrest)
  | sign hc =>
    obtain ⟨rfl, -⟩ := List.cons.inj heq
    cases b <;> simp [Bracket.closing] at hc
  | cast => cases b <;> cases heq

theorem Opens.inj (h : Opens sep) (h' : Opens sep') (hrest : Starts rest) (hrest' : Starts rest')
    (hcast : ¬castText <+: rest) (hcast' : ¬castText <+: rest')
    (heq : sep ++ rest = sep' ++ rest') : sep = sep' ∧ rest = rest' := by
  cases h with
  | none =>
    cases h' with
    | none => exact ⟨rfl, heq⟩
    | sign hc =>
      rw [List.nil_append] at heq
      exact absurd (heq ▸ hrest) (not_starts_sign hc)
    | cast => exact absurd ⟨rest', heq.symm⟩ hcast
  | sign hc =>
    cases h' with
    | none =>
      rw [List.nil_append] at heq
      exact absurd (heq ▸ hrest') (not_starts_sign hc)
    | sign => simpa using heq
    | cast =>
      obtain ⟨rfl, -⟩ := List.cons.inj heq
      simp at hc
  | cast =>
    cases h' with
    | none => exact absurd ⟨rest, heq⟩ hcast'
    | sign hc =>
      obtain ⟨rfl, -⟩ := List.cons.inj heq
      simp at hc
    | cast => exact ⟨rfl, List.append_cancel_left heq⟩

/-! ### Well-formed outlines -/

/-- The separators of the parts in brackets. A single part in round brackets has a sign or a word
in front of it, so that no text in brackets looks like a conversion. -/
def Separated (lead : List Char) (bracket : Bracket) : List (List Char) → Prop
  | [] => True
  | first :: later => Opens first ∧ (∀ sep ∈ later, Joins sep) ∧
      (lead = [] → bracket = .round → first = [] → later ≠ [])

inductive Formed : Outline → Prop where
  | word {cs : List Char} : IsWord cs → Formed (.word cs)
  | group {lead : List Char} {bracket : Bracket} {parts : List (List Char × Outline)} :
      (lead = [] ∨ IsWord lead) → Separated lead bracket (parts.map Prod.fst) →
      (∀ p ∈ parts, Formed p.2) → Formed (.group lead bracket parts)

/-- The word at the front of an outline. -/
def lead : Outline → List Char
  | word cs => cs
  | group lead _ _ => lead

/-- What follows the word at the front. -/
def body : Outline → List Char
  | word _ => []
  | group _ bracket parts => bracket.opening :: (textAll parts ++ [bracket.closing])

variable {d d' : Outline} {parts parts' : List (List Char × Outline)}

theorem text_eq (d : Outline) : d.text = d.lead ++ d.body := by
  cases d with
  | word cs => rw [text, lead, body, List.append_nil]
  | group lead bracket parts => rw [text, Outline.lead, body]

theorem Formed.isAtom_lead (h : d.Formed) : ∀ c ∈ d.lead, isAtom c = true := by
  cases h with
  | word hword => exact hword.2
  | group hlead _ _ =>
    rcases hlead with rfl | hlead
    · nofun
    · exact hlead.2

theorem Formed.starts (h : d.Formed) : Starts (d.text ++ rest) := by
  cases h with
  | word hword => exact hword.starts
  | group hlead _ _ =>
    rw [text, List.append_assoc]
    rcases hlead with rfl | hlead
    · exact starts_opening _
    · exact hlead.starts

/-- A word at the front stops at a bracket, or where the expression does. -/
theorem not_isAtom_body (d : Outline) (hrest : Ends rest) :
    ∀ c ∈ (d.body ++ rest).head?, isAtom c = false := by
  cases d with
  | word cs => exact hrest.not_isAtom
  | group lead bracket parts =>
    rintro c ⟨rfl⟩
    cases bracket <;> rfl

theorem ends_textAll (h : ∀ p ∈ parts, Joins p.1) (b : Bracket) :
    Ends (textAll parts ++ b.closing :: rest) := by
  cases parts with
  | nil => exact ends_closing b
  | cons p parts =>
    rw [textAll, List.append_assoc]
    exact (h p List.mem_cons_self).ends

/-- If the texts are the same, then so are the words in front and what follows them. -/
theorem Formed.lead_inj (h : d.Formed) (h' : d'.Formed) (hrest : Ends rest) (hrest' : Ends rest')
    (heq : d.text ++ rest = d'.text ++ rest') :
    d.lead = d'.lead ∧ d.body ++ rest = d'.body ++ rest' := by
  rw [text_eq, text_eq, List.append_assoc, List.append_assoc] at heq
  exact append_inj_of_stop h.isAtom_lead h'.isAtom_lead (not_isAtom_body d hrest)
    (not_isAtom_body d' hrest') heq

theorem IsWord.not_cast (h : IsWord cs) : ¬castText <+: cs ++ rest := by
  rintro ⟨back, heq⟩
  obtain ⟨c, hc, hword⟩ := h.1
  obtain ⟨cs, rfl⟩ := List.head?_eq_some_iff.1 hc
  obtain ⟨rfl, -⟩ := List.cons.inj heq
  cases hword

/-- The text of an outline begins with no conversion: a single part in round brackets is no word. -/
theorem Formed.not_cast (h : d.Formed) : ¬castText <+: d.text ++ rest := by
  cases h with
  | word hword => exact hword.not_cast
  | @group lead bracket parts hlead hseps hparts =>
    rcases hlead with rfl | hlead
    · rintro ⟨back, heq⟩
      obtain ⟨hopening, hbody⟩ : '(' = bracket.opening ∧
          ['d', 'o', 'u', 'b', 'l', 'e'] ++ ')' :: back =
          textAll parts ++ bracket.closing :: rest := by simpa [castText, text] using heq
      obtain rfl : .round = bracket := Bracket.opening_inj hopening
      cases parts with
      | nil => simp [textAll, Bracket.closing] at hbody
      | cons p parts =>
        obtain ⟨sep, d⟩ := p
        obtain ⟨hfirst, hlater, hsingle⟩ := hseps
        simp only [textAll, List.append_assoc] at hbody
        cases hfirst with
        | none =>
          have hd : d.Formed := hparts _ List.mem_cons_self
          have hdouble : Formed (.word ['d', 'o', 'u', 'b', 'l', 'e']) :=
            .word ⟨⟨'d', rfl, rfl⟩, List.all_eq_true.1 rfl⟩
          have hjoins : ∀ p ∈ parts, Joins p.1 := fun p hp => hlater _ (List.mem_map_of_mem hp)
          obtain ⟨-, hend⟩ := hdouble.lead_inj hd (ends_closing .round)
            (ends_textAll hjoins .round) hbody
          cases d with
          | word cs =>
            obtain ⟨p, parts, rfl⟩ := List.exists_cons_of_ne_nil
              (List.map_eq_nil_iff.not.1 (hsingle rfl rfl rfl))
            simp only [body, textAll, List.nil_append, List.append_assoc] at hend
            exact (hjoins p List.mem_cons_self).ne_closing .round hend.symm
          | group lead b parts =>
            obtain ⟨hclosing, -⟩ := List.cons.inj hend
            cases b <;> cases hclosing
        | sign hc =>
          obtain ⟨rfl, -⟩ := List.cons.inj hbody
          simp at hc
        | cast => simp at hbody
    · rw [text, List.append_assoc]
      exact hlead.not_cast

/-! ### Outlines are found again -/

/-- The outline is the only one with its text. -/
def Unique (d : Outline) : Prop :=
  ∀ {d' rest rest'}, d.Formed → d'.Formed → Ends rest → Ends rest' →
    d.text ++ rest = d'.text ++ rest' → d = d' ∧ rest = rest'

theorem later_inj {b : Bracket} (hunique : ∀ p ∈ parts, p.2.Unique)
    (h : ∀ p ∈ parts, Joins p.1 ∧ p.2.Formed) (h' : ∀ p ∈ parts', Joins p.1 ∧ p.2.Formed)
    (heq : textAll parts ++ b.closing :: rest = textAll parts' ++ b.closing :: rest') :
    parts = parts' ∧ rest = rest' := by
  have hne {p : List Char × Outline} {ps : List (List Char × Outline)} {r r' : List Char}
      (hp : Joins p.1) : textAll (p :: ps) ++ r ≠ b.closing :: r' := by
    rw [textAll, List.append_assoc]
    exact hp.ne_closing b
  induction parts generalizing parts' with
  | nil =>
    cases parts' with
    | nil => exact ⟨rfl, (List.cons.inj heq).2⟩
    | cons p' parts' => exact absurd heq.symm (hne (h' p' List.mem_cons_self).1)
  | cons p parts ih =>
    cases parts' with
    | nil => exact absurd heq (hne (h p List.mem_cons_self).1)
    | cons p' parts' =>
      obtain ⟨sep, d⟩ := p
      obtain ⟨sep', d'⟩ := p'
      simp only [List.forall_mem_cons] at h h' hunique
      obtain ⟨⟨hsep, hd⟩, h⟩ := h
      obtain ⟨⟨hsep', hd'⟩, h'⟩ := h'
      simp only [textAll, List.append_assoc] at heq
      obtain ⟨rfl, hpart⟩ := hsep.inj hsep' hd.starts hd'.starts heq
      obtain ⟨rfl, htail⟩ := hunique.1 hd hd' (ends_textAll (fun p hp => (h p hp).1) b)
        (ends_textAll (fun p hp => (h' p hp).1) b) hpart
      obtain ⟨rfl, rfl⟩ := ih hunique.2 h h' htail
      exact ⟨rfl, rfl⟩

theorem parts_inj {lead : List Char} {b : Bracket} (hunique : ∀ p ∈ parts, p.2.Unique)
    (hseps : Separated lead b (parts.map Prod.fst)) (hparts : ∀ p ∈ parts, p.2.Formed)
    (hseps' : Separated lead b (parts'.map Prod.fst)) (hparts' : ∀ p ∈ parts', p.2.Formed)
    (heq : textAll parts ++ b.closing :: rest = textAll parts' ++ b.closing :: rest') :
    parts = parts' ∧ rest = rest' := by
  have hne {sep r r' : List Char} {d : Outline} {ps : List (List Char × Outline)} (hsep : Opens sep)
      (hd : d.Formed) : textAll ((sep, d) :: ps) ++ r ≠ b.closing :: r' := by
    rw [textAll, List.append_assoc, List.append_assoc]
    exact hsep.ne_closing hd.starts b
  rcases parts with _ | ⟨⟨sep, d⟩, parts⟩ <;> rcases parts' with _ | ⟨⟨sep', d'⟩, parts'⟩
  · exact ⟨rfl, (List.cons.inj heq).2⟩
  · exact absurd heq.symm (hne hseps'.1 (hparts' _ List.mem_cons_self))
  · exact absurd heq (hne hseps.1 (hparts _ List.mem_cons_self))
  · simp only [List.forall_mem_cons] at hunique hparts hparts'
    obtain ⟨hsep, hlater, -⟩ := hseps
    obtain ⟨hsep', hlater', -⟩ := hseps'
    have hjoins : ∀ p ∈ parts, Joins p.1 := fun p hp => hlater _ (List.mem_map_of_mem hp)
    have hjoins' : ∀ p ∈ parts', Joins p.1 := fun p hp => hlater' _ (List.mem_map_of_mem hp)
    simp only [textAll, List.append_assoc] at heq
    obtain ⟨rfl, hpart⟩ := hsep.inj hsep' hparts.1.starts hparts'.1.starts
      hparts.1.not_cast hparts'.1.not_cast heq
    obtain ⟨rfl, htail⟩ := hunique.1 hparts.1 hparts'.1 (ends_textAll hjoins b)
      (ends_textAll hjoins' b) hpart
    obtain ⟨rfl, rfl⟩ := later_inj hunique.2 (fun p hp => ⟨hjoins p hp, hparts.2 p hp⟩)
      (fun p hp => ⟨hjoins' p hp, hparts'.2 p hp⟩) htail
    exact ⟨rfl, rfl⟩

/-- **Outlines are found again from their texts.** -/
theorem text_inj (d : Outline) : d.Unique := by
  induction d with
  | word cs =>
    intro d' rest rest' h h' hrest hrest' heq
    obtain ⟨hlead, hbody⟩ := h.lead_inj h' hrest hrest' heq
    cases d' with
    | word cs' => exact ⟨congrArg word hlead, hbody⟩
    | group lead' b' parts' =>
      obtain rfl : rest = _ := hbody
      exact absurd hrest (not_ends_opening b')
  | group lead b parts ih =>
    intro d' rest rest' h h' hrest hrest' heq
    obtain ⟨hlead, hbody⟩ := h.lead_inj h' hrest hrest' heq
    cases d' with
    | word cs' =>
      obtain rfl : _ = rest' := hbody
      exact absurd hrest' (not_ends_opening b)
    | group lead' b' parts' =>
      obtain rfl : lead = lead' := hlead
      obtain ⟨hopening, hbody⟩ : b.opening = b'.opening ∧ textAll parts ++ b.closing :: rest =
          textAll parts' ++ b'.closing :: rest' := by simpa [body] using hbody
      obtain rfl := Bracket.opening_inj hopening
      cases h with
      | group _ hseps hparts =>
        cases h' with
        | group _ hseps' hparts' =>
          obtain ⟨rfl, rfl⟩ := parts_inj ih hseps hparts hseps' hparts' hbody
          exact ⟨rfl, rfl⟩

end Outline

end DefToC
