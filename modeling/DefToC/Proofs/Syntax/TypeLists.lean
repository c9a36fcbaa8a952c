import DefToC.Proofs.Syntax.Progress
import DefToC.Proofs.Syntax.RoundTrip
import DefToC.Proofs.Token.Spacing
import Mathlib

/-!
# Lists of types

A list of types is written with commas between the types, and read from that text as itself, up to
places. The names in the types have to be names of the language, and those of every list that is
read from a source are.
-/

namespace DefToC

open Cursor Reading Pattern

/-! ### White space around a text -/

theorem trim_eq_self {cs : List Char} (hfirst : ∀ c ∈ cs.head?, isBlank c = false)
    (hlast : ∀ c ∈ cs.getLast?, isBlank c = false) : trim cs = cs := by
  have hdrop (ds : List Char) (h : ∀ c ∈ ds.head?, isBlank c = false) :
      ds.dropWhile isBlank = ds := by
    cases ds with
    | nil => rfl
    | cons d ds => simp [h d rfl]
  rw [trim, hdrop cs hfirst, hdrop cs.reverse (by simpa using hlast), List.reverse_reverse]

/-! ### Names of the language -/

namespace TokenKind

/-- The words that are names are those that are not reserved. -/
theorem ofWord_eq_identifier_iff {word : String} :
    ofWord word = .identifier ↔ word ∉ reserved.map Prod.fst := by
  constructor
  · have hreserved : ∀ word ∈ reserved.map Prod.fst, ofWord word ≠ .identifier := by decide
    exact fun h hmem => hreserved word hmem h
  · intro h
    unfold ofWord
    cases hlookup : reserved.lookup word with
    | none => rfl
    | some kind =>
      obtain ⟨front, back, heq, -⟩ := List.lookup_eq_some_iff.1 hlookup
      have hmem : (word, kind) ∈ reserved := by simp [heq]
      exact absurd (List.mem_map_of_mem hmem) h

theorem Spelled.not_reserved {kind : TokenKind} {cs : List Char} (h : kind.Spelled cs)
    (hkind : kind = .identifier) : String.ofList cs ∉ reserved.map Prod.fst := by
  cases h with
  | word => exact ofWord_eq_identifier_iff.1 hkind
  | number => cases hkind
  | opening hp => rcases kind_of_opening hp with rfl | rfl <;> cases hkind
  | closing hp => rcases kind_of_closing hp with rfl | rfl <;> cases hkind
  | mark hp => exact absurd (by simp [hkind]) (kind_of_mark hp)

end TokenKind

/-- A name is cut off in front of what cannot continue it. -/
theorem Token.cutOff_name {id : String} {rest : List Char} (hid : IsName id.toList)
    (hword : id ∉ TokenKind.reserved.map Prod.fst) (hrest : ∀ d ∈ rest.head?, isWordPart d = false)
    (span : Span) : Token.CutOff ⟨.identifier, id, span⟩ rest := by
  obtain ⟨c, cs, hcs, hc, hparts⟩ := hid
  have htake : (cs ++ rest).takeWhile isWordPart = cs := by
    rw [takeWhile_stop cs hrest]
    exact List.takeWhile_eq_self_iff.2 hparts
  refine ⟨.word, ?_, ?_⟩
  · have hrun : runLength? isWordStart isWordPart (c :: (cs ++ rest)) = some (c :: cs).length := by
      rw [runLength?, if_pos hc, htake, List.length_cons, Nat.add_comm]
    simp only [hcs, List.cons_append]
    rw [first?, table, List.findSome?_cons, match?, hrun]
    rfl
  · simp only [kind?, String.ofList_toList]
    rw [TokenKind.ofWord_eq_identifier_iff.2 hword]

/-! ### Texts of lexemes -/

/-- The text is a row of tokens that are what the lexemes say. -/
def WrittenAs (xs : List Lexeme) (cs : List Char) : Prop :=
  ∃ ts, List.Forall₂ Token.Is ts xs ∧ IsRow ts cs

namespace WrittenAs

variable {xs : List Lexeme} {rest : List Char}

theorem nil : WrittenAs [] [] := ⟨[], .nil, .nil⟩

theorem blank (hrest : ∀ d ∈ rest.head?, isSeparator d = false) (h : WrittenAs xs rest) :
    WrittenAs xs (' ' :: rest) := by
  obtain ⟨ts, hts, hrow⟩ := h
  exact ⟨ts, hts, .blank hrest hrow⟩

theorem token {t : Token} {x : Lexeme} (h : WrittenAs xs rest) (ht : t.Is x)
    (hcut : t.CutOff rest) : WrittenAs (x :: xs) (t.value.toList ++ rest) := by
  obtain ⟨ts, hts, hrow⟩ := h
  exact ⟨t :: ts, .cons ht hts, .token hcut hrow⟩

theorem openBracket (h : WrittenAs xs rest) : WrittenAs (.mark .openBracket :: xs) ('[' :: rest) :=
  h.token (t := ⟨.openBracket, "[", .nowhere⟩) rfl ⟨.opening '[' .openBracket, rfl, rfl⟩

theorem closeBracket (h : WrittenAs xs rest) :
    WrittenAs (.mark .closeBracket :: xs) (']' :: rest) :=
  h.token (t := ⟨.closeBracket, "]", .nowhere⟩) rfl ⟨.closing ']' .closeBracket, rfl, rfl⟩

theorem comma (h : WrittenAs xs rest) : WrittenAs (.mark .comma :: xs) (',' :: rest) :=
  h.token (t := ⟨.comma, ",", .nowhere⟩) rfl ⟨.mark "," .comma, rfl, rfl⟩

end WrittenAs

theorem Token.is_bare {t : Token} {x : Lexeme} : t.bare.Is x ↔ t.Is x := by
  cases x <;> rfl

/-- A text of lexemes is cut into tokens that are what they say, and the line is closed. -/
theorem WrittenAs.exists_shows {xs : List Lexeme} {source : String}
    (h : WrittenAs xs source.toList) (hhead : source.toList.head? ≠ some ' ') (file : String) :
    ∃ tokens c, tokenize file source = .ok tokens ∧ Shows xs (Cursor.ofTokens file tokens) c ∧
      (c.kind = .newline ∨ c.kind = .eof) ∧ c.skipNewlines.kind = .eof := by
  obtain ⟨ts, hts, hrow⟩ := h
  obtain ⟨tokens, htokens, hbare⟩ := bareResult_eq_ok_iff.1 (tokenize_of_isRow file hrow hhead)
  obtain ⟨us, _, rfl, hus, hclosing⟩ := List.map_eq_append_iff.1 hbare
  obtain ⟨es, _, rfl, hes, hend⟩ := List.map_eq_append_iff.1 hclosing
  obtain ⟨t, rfl, ht⟩ := List.map_eq_singleton_iff.1 hend
  have hshows : List.Forall₂ Token.Is us xs := by
    have hbares : List.Forall₂ Token.Is (ts.map Token.bare) xs :=
      List.forall₂_map_left_iff.2 (hts.imp fun _ _ h => Token.is_bare.2 h)
    rw [← hus] at hbares
    exact (List.forall₂_map_left_iff.1 hbares).imp fun _ _ h => Token.is_bare.1 h
  have heof : t.kind = .eof := congrArg Token.kind ht
  refine ⟨_, ⟨es, t.value, t.span⟩, htokens, ?_, ?_⟩
  · rw [← List.append_assoc, Program.ofTokens_concat_eof file _ heof]
    exact Program.shows_of_forall₂ hshows ⟨es, t.value, t.span⟩
  · -- the line is closed only if it holds a token
    cases ts with
    | nil =>
      obtain rfl := List.map_eq_nil_iff.1 hes
      exact ⟨.inr rfl, rfl⟩
    | cons =>
      obtain ⟨n, rfl, hn⟩ := List.map_eq_singleton_iff.1 hes
      have hkind : n.kind = .newline := congrArg Token.kind hn
      have hskip : [n].dropWhile (·.kind = .newline) = [] := by simp [hkind]
      refine ⟨.inl hkind, ?_⟩
      rw [Cursor.skipNewlines, hskip]
      rfl

namespace TypeExpr

/-! ### Texts of types -/

/-- All names in the type are names of the language. -/
inductive Named : TypeExpr → Prop where
  | name {id : String} {position : Position} : IsName id.toList →
      id ∉ TokenKind.reserved.map Prod.fst → Named (.name id position)
  | applied {base : TypeExpr} {arguments : List TypeExpr} {position : Position} : Named base →
      (∀ a ∈ arguments, Named a) → Named (.applied base arguments position)

variable {a : TypeExpr} {as : List TypeExpr} {xs : List Lexeme} {rest : List Char}

theorem texts_eq_map (as : List TypeExpr) : texts as = as.map text := by
  induction as with
  | nil => rfl
  | cons a as ih => rw [texts, ih, List.map_cons]

/-- Several types as text, as a list of characters. -/
theorem toList_intercalate_texts (as : List TypeExpr) :
    (", ".intercalate (texts as)).toList =
      [',', ' '].intercalate (as.map fun a => a.text.toList) := by
  rw [String.toList_intercalate, texts_eq_map, List.map_map]
  rfl

theorem Named.exists_head (h : a.Named) :
    ∃ c cs, a.text.toList = c :: cs ∧ isWordStart c = true := by
  induction h with
  | name hid _ =>
    obtain ⟨c, cs, hcs, hc, -⟩ := hid
    exact ⟨c, cs, hcs, hc⟩
  | @applied base arguments _ _ _ ih _ =>
    obtain ⟨c, cs, hcs, hc⟩ := ih
    refine ⟨c, cs ++ ("[" ++ ", ".intercalate (texts arguments) ++ "]").toList, ?_, hc⟩
    simp [text, hcs]

theorem Named.exists_last (h : a.Named) :
    ∃ cs c, a.text.toList = cs ++ [c] ∧ isBlank c = false := by
  cases h with
  | @name id _ hid _ =>
    obtain ⟨c, cs, hcs, hc, hparts⟩ := hid
    have hparts : ∀ d ∈ id.toList, isWordPart d = true := by
      rw [hcs]
      exact List.forall_mem_cons.2 ⟨isWordPart_of_isWordStart hc, hparts⟩
    have hne : id.toList ≠ [] := by simp [hcs]
    refine ⟨_, id.toList.getLast hne, (List.dropLast_append_getLast hne).symm, ?_⟩
    exact not_isBlank_of_isWordPart (hparts _ (List.getLast_mem hne))
  | @applied base arguments _ _ _ =>
    refine ⟨base.text.toList ++ '[' :: (", ".intercalate (texts arguments)).toList, ']', ?_, rfl⟩
    simp [text]

/-- The text of the type is written as the type is printed, in front of all that cannot continue a
name. -/
def TextAsPrinted (a : TypeExpr) : Prop :=
  ∀ ⦃xs : List Lexeme⦄ ⦃rest : List Char⦄, WrittenAs xs rest →
    (∀ d ∈ rest.head?, isWordPart d = false) → WrittenAs (a.print ++ xs) (a.text.toList ++ rest)

theorem writtenAs_separated (hnamed : ∀ a ∈ as, a.Named) (has : ∀ a ∈ as, a.TextAsPrinted)
    (h : WrittenAs xs rest) (hrest : ∀ d ∈ rest.head?, isWordPart d = false) :
    WrittenAs (separated (.mark .comma) (as.map print) ++ xs)
      ((", ".intercalate (texts as)).toList ++ rest) := by
  rw [toList_intercalate_texts]
  induction as with
  | nil => exact h
  | cons a as ih =>
    obtain ⟨ha, has⟩ := List.forall_mem_cons.1 has
    cases as with
    | nil => simpa [separated] using ha h hrest
    | cons b bs =>
      obtain ⟨-, hnamed⟩ := List.forall_mem_cons.1 hnamed
      obtain ⟨c, cs, hcs, hc⟩ := (hnamed b List.mem_cons_self).exists_head
      have hcomma := ((ih hnamed has).blank ?_).comma
      · have hall := ha hcomma (by simp [isWordPart])
        simpa [separated, List.intercalate_cons_cons] using hall
      · intro d hd
        have hhead := head?_intercalate_cons [',', ' '] c cs (bs.map fun a => a.text.toList)
        rw [List.map_cons, hcs, List.head?_append, hhead] at hd
        obtain rfl : c = d := Option.some.inj hd
        exact not_isSeparator_of_not_isLeading
          (not_isLeading_of_isWordPart (isWordPart_of_isWordStart hc))

theorem Named.textAsPrinted (h : a.Named) : a.TextAsPrinted := by
  induction h with
  | @name id _ hid hword =>
    intro xs rest hxs hrest
    have hname : Token.Is ⟨.identifier, id, .nowhere⟩ (.name id) := ⟨rfl, rfl⟩
    have htoken := hxs.token hname (Token.cutOff_name hid hword hrest .nowhere)
    rw [print, text]
    exact htoken
  | applied _ hnamed hbase harguments =>
    intro xs rest hxs hrest
    have hclose := writtenAs_separated hnamed harguments hxs.closeBracket (by simp [isWordPart])
    have hopen := hbase hclose.openBracket (by simp [isWordPart])
    simpa [print, text] using hopen

theorem isWordStart_of_texts (has : ∀ a ∈ as, a.Named) :
    ∀ c ∈ (", ".intercalate (texts as)).toList.head?, isWordStart c = true := by
  rw [toList_intercalate_texts]
  intro c hc
  cases as with
  | nil => cases hc
  | cons a as =>
    obtain ⟨d, ds, hds, hd⟩ := (has a List.mem_cons_self).exists_head
    rw [List.map_cons, hds, head?_intercalate_cons] at hc
    obtain rfl : d = c := Option.some.inj hc
    exact hd

theorem exists_last_texts (ha : a.Named) (has : ∀ a ∈ as, a.Named) :
    ∃ cs c, [',', ' '].intercalate ((a :: as).map fun a => a.text.toList) = cs ++ [c] ∧
      isBlank c = false := by
  induction as generalizing a with
  | nil => simpa using ha.exists_last
  | cons b bs ih =>
    obtain ⟨hb, hbs⟩ := List.forall_mem_cons.1 has
    obtain ⟨cs, c, hcs, hc⟩ := ih hb hbs
    rw [List.map_cons] at hcs
    refine ⟨a.text.toList ++ ([',', ' '] ++ cs), c, ?_, hc⟩
    simp [List.intercalate_cons_cons, hcs]

/-- There is no white space around the text of a list of types. -/
theorem trim_texts (has : ∀ a ∈ as, a.Named) :
    trim (", ".intercalate (texts as)).toList = (", ".intercalate (texts as)).toList := by
  refine trim_eq_self (fun c hc => ?_) ?_
  · exact not_isBlank_of_isWordPart (isWordPart_of_isWordStart (isWordStart_of_texts has c hc))
  · rw [toList_intercalate_texts]
    cases as with
    | nil => nofun
    | cons a as =>
      obtain ⟨ha, has⟩ := List.forall_mem_cons.1 has
      obtain ⟨ds, d, hds, hd⟩ := exists_last_texts ha has
      rw [hds, List.getLast?_concat]
      rintro c ⟨⟩
      exact hd

/-! ### Reading types -/

variable {c c₁ : Cursor}

theorem parseList_of_eof (h : c.kind = .eof) : parseList .standard c = .ok [] := by
  rw [parseList, if_neg (by simp [hasTokens, h])]

/-- The list goes on behind a comma and at the end of a line. -/
theorem parseList_of_gives (h : Gives (parse .standard .default c) a c₁) :
    (c₁.kind = .comma →
      parseList .standard c = (parseList .standard c₁.advance).map (a :: ·)) ∧
    (c₁.kind = .newline ∨ c₁.kind = .eof →
      parseList .standard c = (parseList .standard c₁.skipNewlines).map (a :: ·)) := by
  have htokens : c.hasTokens = true := by simp [hasTokens, kind_of_gives_parse h]
  obtain ⟨_, hparse⟩ := h
  constructor
  · intro hk
    rw [parseList, if_pos htokens, hparse]
    simp only [hk, ↓reduceDIte]
    exact cons_bind_eq_map _ _
  · intro hk
    have hcomma : c₁.kind ≠ .comma := by
      rcases hk with hk | hk <;> simp [hk]
    rw [parseList, if_pos htokens, hparse]
    simp only [hcomma, ↓reduceDIte, hk, ↓reduceIte]
    exact cons_bind_eq_map _ _

/-- Printed types with commas between them are read as themselves. -/
theorem parseList_of_shows (hs : Shows (separated (.mark .comma) ((a :: as).map print)) c c₁)
    (hline : c₁.kind = .newline ∨ c₁.kind = .eof) (heof : c₁.skipNewlines.kind = .eof) :
    c.kind = .identifier ∧
      ∃ as', as'.map bare = (a :: as).map bare ∧ parseList .standard c = .ok as' := by
  induction as generalizing a c with
  | nil =>
    rw [List.map_singleton, separated, List.flatMap_nil, List.append_nil] at hs
    have hclosed : c₁.kind ≠ .openBracket := by rcases hline with h | h <;> simp [h]
    obtain ⟨a', hbare, ha⟩ := a.readable.closed hs hclosed
    refine ⟨kind_of_gives_parse ha, [a'], by simp [hbare], ?_⟩
    rw [(parseList_of_gives ha).2 hline, parseList_of_eof heof]
    rfl
  | cons b bs ih =>
    rw [List.map_cons, separated, shows_append] at hs
    obtain ⟨_, hs₁, t, c₂, ht, rfl, hs⟩ := hs
    have ht : t.kind = .comma := ht
    obtain ⟨a', hbare, ha⟩ := a.readable.closed hs₁ (by rw [kind_push, ht]; decide)
    obtain ⟨-, as', hbares, has⟩ := ih hs
    refine ⟨kind_of_gives_parse ha, a' :: as', by simp [hbare, hbares], ?_⟩
    rw [(parseList_of_gives ha).1 ht, advance_push, has]
    rfl

theorem readAll_eq_ok_iff {source : String} : (readAll source).result = .ok as ↔
    ∃ tokens, tokenize "<types>" (String.ofList (trim source.toList)) = .ok tokens ∧
      parseList .standard (Cursor.ofTokens "<types>" tokens).skipNewlines = .ok as := by
  rw [← result_scanSource]
  exact Traced.bind_result_eq_ok

/-- Types with names of the language are read from their texts as themselves. -/
theorem readAll_texts (has : ∀ a ∈ as, a.Named) :
    ∃ as', (readAll (", ".intercalate (texts as))).result = .ok as' ∧
      as'.map bare = as.map bare := by
  have htext : String.ofList (trim (", ".intercalate (texts as)).toList) =
      ", ".intercalate (texts as) := by rw [trim_texts has, String.ofList_toList]
  have hrow : WrittenAs (separated (.mark .comma) (as.map print))
      (", ".intercalate (texts as)).toList := by
    have hall := writtenAs_separated has (fun a ha => (has a ha).textAsPrinted) .nil nofun
    rwa [List.append_nil, List.append_nil] at hall
  have hhead : (", ".intercalate (texts as)).toList.head? ≠ some ' ' := by
    intro hhead
    exact absurd (isWordStart_of_texts has ' ' hhead) (by decide)
  obtain ⟨tokens, c, htokens, hshows, hline, heof⟩ := hrow.exists_shows hhead "<types>"
  simp only [readAll_eq_ok_iff, htext]
  cases as with
  | nil =>
    obtain rfl : Cursor.ofTokens "<types>" tokens = c := hshows
    exact ⟨[], ⟨tokens, htokens, parseList_of_eof heof⟩, rfl⟩
  | cons a as =>
    obtain ⟨hkind, as', hbare, hlist⟩ := parseList_of_shows hshows hline heof
    refine ⟨as', ⟨tokens, htokens, ?_⟩, hbare⟩
    rwa [Program.skipNewlines_eq_self (by rw [hkind]; decide)]

/-! ### Types of a source -/

theorem Named.of_token {t : Token} (h : t.Lexical) (hk : t.kind = .identifier)
    (position : Position) : Named (.name t.value position) := by
  have hspelled := h.spelled (by rw [hk]; rfl) (by rw [hk]; nofun)
  have hword := hspelled.not_reserved hk
  rw [String.ofList_toList] at hword
  exact .name (h.isName hk) hword

/-- What the readers of types read from tokens of a source are types with names of the language. -/
structure ReadsNamed (c : Cursor) : Prop where
  parse {a c'} : Gives (TypeExpr.parse .standard .default c) a c' → a.Named
  parseRest {base a c'} : Gives (TypeExpr.parseRest .standard .default base c) a c' → base.Named →
    a.Named
  parseArguments {as c'} : Gives (TypeExpr.parseArguments .standard c) as c' → ∀ a ∈ as, a.Named

theorem readsNamed (hc : c.Lexical) : ReadsNamed c := by
  induction hn : c.size using Nat.strong_induction_on generalizing c with
  | _ n ih =>
    subst hn
    have hparse {a : TypeExpr} {c' : Cursor}
        (h : Gives (TypeExpr.parse .standard .default c) a c') : a.Named := by
      obtain ⟨t, c₁, ht, rfl, hrest⟩ := gives_parse.1 h
      exact (ih c₁.size (Nat.lt_succ_self _) hc.advance rfl).parseRest hrest
        (.of_token (lexical_push.1 hc).1 ht _)
    refine ⟨hparse, fun {base a c'} h hbase => ?_, fun {as c'} h => ?_⟩
    · by_cases hk : c.kind = .openBracket
      · obtain ⟨c₁, hc₁⟩ := Cursor.exists_push_of_kind hk nofun
        rw [hc₁] at h hc ih
        obtain ⟨as, c₂, t', -, has, h⟩ := (gives_parseRest_go hk).1 h
        have hsize := has.size_lt
        simp only [Cursor.size_push] at hsize ih
        have hc₂ := (keepsLexical hc.advance).parseArguments has
        exact (ih c₂.size (by omega) hc₂.advance rfl).parseRest h
          (.applied hbase ((ih c₁.size (by omega) hc.advance rfl).parseArguments has))
      · obtain ⟨rfl, -⟩ := (gives_parseRest_stop hk).1 h
        exact hbase
    · rcases gives_parseArguments.1 h with
        ⟨-, rfl, -⟩ | ⟨-, a, ⟨c₁, t, as', -, ha, has, rfl⟩ | ⟨-, -, ha, rfl⟩⟩
      · exact List.forall_mem_nil _
      · have hsize := ha.size_lt
        simp only [Cursor.size_push] at hsize
        have hc₁ := ((keepsLexical hc).parse ha).advance
        exact List.forall_mem_cons.2
          ⟨hparse ha, (ih c₁.size (by omega) hc₁ rfl).parseArguments has⟩
      · exact List.forall_mem_singleton.2 (hparse ha)

/-- The loop over types reads types with names of the language. -/
theorem named_of_loop {n : Nat} {r : Except Error (List TypeExpr)} (h : Loop .standard c n c₁ r)
    (hc : c.Lexical) (hr : r = .ok as) : ∀ a ∈ as, a.Named := by
  induction h generalizing as with
  | done =>
    cases hr
    exact List.forall_mem_nil _
  | failed => cases hr
  | stray => cases hr
  | @comma c _ p _ r _ hparse hk _ ih =>
    obtain ⟨a, c₁, hlt⟩ := p
    obtain _ | as := r <;> cases hr
    have hnext := (keepsLexical hc).parse ⟨hlt, hparse⟩
    have hadvance : c₁.advance.Lexical := fun t ht => hnext t (List.mem_of_mem_tail ht)
    exact List.forall_mem_cons.2 ⟨(readsNamed hc).parse ⟨hlt, hparse⟩, ih hadvance rfl⟩
  | @lineEnd c _ p _ r _ hparse hk _ ih =>
    obtain ⟨a, c₁, hlt⟩ := p
    obtain _ | as := r <;> cases hr
    have hnext := (keepsLexical hc).parse ⟨hlt, hparse⟩
    exact List.forall_mem_cons.2 ⟨(readsNamed hc).parse ⟨hlt, hparse⟩, ih hnext.skipNewlines rfl⟩

theorem named_of_readAll {source : String} (h : (readAll source).result = .ok as) :
    ∀ a ∈ as, a.Named := by
  obtain ⟨tokens, htokens, hlist⟩ := readAll_eq_ok_iff.1 h
  obtain ⟨n, c', hloop, -⟩ := exists_loop .standard (Cursor.ofTokens "<types>" tokens).skipNewlines
  exact named_of_loop hloop (lexical_ofTokens (lexical_of_tokenize htokens)).skipNewlines hlist

/-- **Lists of types are read from their texts.** Any list of types whose names are names of the
language is read from its text as itself, up to places, and so is every list that is read from a
source. -/
theorem readAll_displays :
    (∀ as : List TypeExpr, (∀ a ∈ as, a.Named) →
      ∃ as', (readAll (", ".intercalate (texts as))).result = .ok as' ∧
        as'.map bare = as.map bare) ∧
    ∀ (source : String) (as : List TypeExpr), (readAll source).result = .ok as →
      ∃ as', (readAll (", ".intercalate (texts as))).result = .ok as' ∧
        as'.map bare = as.map bare := by
  refine ⟨fun as has => readAll_texts has, fun source as h => ?_⟩
  exact readAll_texts (named_of_readAll h)

/-- The tokens of `list[int,], f[][a]`, and of `float` two lines below. -/
def listedTokens : List Token :=
  [⟨.identifier, "list", ⟨"<types>", 0, 4⟩⟩, ⟨.openBracket, "[", ⟨"<types>", 4, 5⟩⟩,
   ⟨.identifier, "int", ⟨"<types>", 5, 8⟩⟩, ⟨.comma, ",", ⟨"<types>", 8, 9⟩⟩,
   ⟨.closeBracket, "]", ⟨"<types>", 9, 10⟩⟩, ⟨.comma, ",", ⟨"<types>", 10, 11⟩⟩,
   ⟨.identifier, "f", ⟨"<types>", 12, 13⟩⟩, ⟨.openBracket, "[", ⟨"<types>", 13, 14⟩⟩,
   ⟨.closeBracket, "]", ⟨"<types>", 14, 15⟩⟩, ⟨.openBracket, "[", ⟨"<types>", 15, 16⟩⟩,
   ⟨.identifier, "a", ⟨"<types>", 16, 17⟩⟩, ⟨.closeBracket, "]", ⟨"<types>", 17, 18⟩⟩,
   ⟨.newline, "\\n", ⟨"<types>", 18, 19⟩⟩, ⟨.identifier, "float", ⟨"<types>", 20, 25⟩⟩,
   ⟨.newline, "", ⟨"<types>", 25, 25⟩⟩, ⟨.eof, "EOF", ⟨"<types>", 25, 25⟩⟩]

/-- The types that are read from them. -/
def listedTypes : List TypeExpr :=
  [.applied (.name "list" ⟨"<types>", 0⟩) [.name "int" ⟨"<types>", 5⟩] ⟨"<types>", 0⟩,
   .applied (.applied (.name "f" ⟨"<types>", 12⟩) [] ⟨"<types>", 12⟩) [.name "a" ⟨"<types>", 16⟩]
     ⟨"<types>", 12⟩,
   .name "float" ⟨"<types>", 20⟩]

theorem readAll_displays_listed :
    (∀ a ∈ [applied (.name "_x1" ⟨"", 0⟩) [] ⟨"", 0⟩], a.Named) ∧
    (∃ as, (readAll "_x1[]").result = .ok as ∧
      as.map bare = [applied (.name "_x1" ⟨"", 0⟩) [] ⟨"", 0⟩].map bare) ∧
    (readAll " list[int,], f[][a]\n\nfloat\n").result = .ok listedTypes ∧
    ∃ as, (readAll "list[int], f[][a], float").result = .ok as ∧
      as.map bare = listedTypes.map bare := by
  have hnamed : ∀ a ∈ [applied (.name "_x1" ⟨"", 0⟩) [] ⟨"", 0⟩], a.Named := by
    refine List.forall_mem_singleton.2 (.applied (.name ⟨'_', ['x', '1'], rfl, rfl, ?_⟩ ?_) ?_)
    · exact List.all_eq_true.1 rfl
    · decide
    · exact List.forall_mem_nil _
  have hlisted : (readAll " list[int,], f[][a]\n\nfloat\n").result = .ok listedTypes :=
    readAll_eq_ok_iff.2 ⟨listedTokens, by decide +kernel, by cbv⟩
  have hone : ", ".intercalate (texts [applied (.name "_x1" ⟨"", 0⟩) [] ⟨"", 0⟩]) = "_x1[]" := by
    decide +kernel
  have hthree : ", ".intercalate (texts listedTypes) = "list[int], f[][a], float" := by
    decide +kernel
  have hdisplays := readAll_displays.2 _ _ hlisted
  rw [hthree] at hdisplays
  exact ⟨hnamed, hone ▸ readAll_displays.1 _ hnamed, hlisted, hdisplays⟩

end TypeExpr

end DefToC
