import DefToC.Operator
import DefToC.Proofs.Meaning.COutput
import DefToC.Proofs.Number.ReadBack
import DefToC.Proofs.Token.Lexemes

/-!
# The grammar of the output's expressions

The grammar has one class of expressions for each level of binding, and `read_of_derives` shows
that the reader by operator precedence finds the tree of every derivation. `Written` says of a
text that it is one of a derivation; it has a lemma for each way of writing an expression.
-/

namespace DefToC

namespace C

/-! ### Trees from tokens -/

/-- The expressions of a level: those whose operators outside of parentheses bind at least so
strongly. Operators in front of an operand have level 7, single operands level 8. -/
inductive Derives : Nat → List Token → Tree → Prop where
  | number (n : Nat) : Derives 8 [.number n] (.number n)
  | name (id : String) : Derives 8 [.name id] (.name id)
  | paren {tokens : List Token} {e : Tree} : Derives 0 tokens e →
      Derives 8 (.mark .openParen :: (tokens ++ [.mark .closeParen])) e
  | unary {m : Mark} {op : UnOp} {tokens : List Token} {e : Tree} : m.unary? = some op →
      Derives 7 tokens e → Derives 7 (.mark m :: tokens) (.unary op e)
  /-- Operators of one level are grouped to the left. -/
  | binary {m : Mark} {op : BinOp} {left right : List Token} {l r : Tree} :
      m.binary? = some op → Derives op.level left l → Derives (op.level + 1) right r →
      Derives op.level (left ++ .mark m :: right) (.binary op l r)
  | weaken {n : Nat} {tokens : List Token} {e : Tree} : Derives (n + 1) tokens e →
      Derives n tokens e

/-- What stands open binds less strongly than the expressions of a level. -/
def Below (n : Nat) : List Frame → Prop
  | .unary _ :: _ => 7 ≤ n
  | .binary _ op :: _ => op.level < n
  | _ => True

theorem Below.mono {n : Nat} {frames : List Frame} (h : Below n frames) :
    Below (n + 1) frames := by
  unfold Below at h ⊢
  split at h
  · omega
  · omega
  · trivial

theorem BinOp.level_le (op : BinOp) : op.level ≤ 6 := by
  cases op <;> decide

/-- An operator closes nothing that binds less strongly. -/
theorem close_of_below {n : Nat} {frames : List Frame} (hn : n ≤ 6) (h : Below n frames)
    (e : Tree) : close n e frames = (e, frames) := by
  unfold Below at h
  split at h
  · omega
  · rw [close, if_neg (by omega)]
  · unfold close
    split <;> simp_all

theorem read_unary {m : Mark} {op : UnOp} (h : m.unary? = some op) (frames : List Frame)
    (tokens : List Token) :
    read none frames (.mark m :: tokens) = read none (.unary op :: frames) tokens := by
  cases m <;> simp_all [Mark.unary?, read]

theorem read_binary {m : Mark} {op : BinOp} (h : m.binary? = some op) {e l : Tree}
    {frames frames' : List Frame} (hc : close op.level e frames = (l, frames'))
    (tokens : List Token) :
    read (some e) frames (.mark m :: tokens) = read none (.binary l op :: frames') tokens := by
  cases m <;> simp_all [Mark.binary?, read]

/-- An expression of a level is read completely where what stands open binds less strongly.
Its last operators may stay open, but whatever binds no more strongly than the level finds the
expression when it closes them. -/
theorem read_of_derives {n : Nat} {tokens : List Token} {e : Tree} (h : Derives n tokens e) :
    ∀ frames rest, Below n frames → ∃ e' frames',
      read none frames (tokens ++ rest) = read (some e') frames' rest ∧
        ∀ m ≤ n, close m e' frames' = close m e frames := by
  induction h with
  | number n => exact fun frames rest _ => ⟨_, frames, rfl, fun _ _ => rfl⟩
  | name id => exact fun frames rest _ => ⟨_, frames, rfl, fun _ _ => rfl⟩
  | @paren tokens e _ ih =>
    intro frames rest _
    obtain ⟨e', frames', hr, hc⟩ := ih (.paren :: frames) (.mark .closeParen :: rest) trivial
    refine ⟨e, frames, ?_, fun _ _ => rfl⟩
    have hclose : close 0 e' frames' = (e, .paren :: frames) := hc 0 le_rfl
    simp only [List.cons_append, List.append_assoc, List.nil_append, read, hr, hclose]
  | @unary m op tokens e hm _ ih =>
    intro frames rest _
    obtain ⟨e', frames', hr, hc⟩ := ih (.unary op :: frames) rest le_rfl
    exact ⟨e', frames', (read_unary hm frames _).trans hr, fun k hk => hc k hk⟩
  | @binary m op left right l r hm _ _ ihl ihr =>
    intro frames rest hb
    obtain ⟨l', framesl, hrl, hcl⟩ := ihl frames (.mark m :: (right ++ rest)) hb
    have hclose : close op.level l' framesl = (l, frames) :=
      (hcl _ le_rfl).trans (close_of_below op.level_le hb l)
    obtain ⟨e', frames', hrr, hcr⟩ := ihr (.binary l op :: frames) rest (Nat.lt_succ_self _)
    refine ⟨e', frames', ?_, fun k hk => ?_⟩
    · rw [List.append_assoc, List.cons_append, hrl, read_binary hm hclose, hrr]
    · rw [hcr k (Nat.le_succ_of_le hk), close, if_pos hk]
  | weaken _ ih =>
    intro frames rest hb
    obtain ⟨e', frames', hr, hc⟩ := ih frames rest hb.mono
    exact ⟨e', frames', hr, fun k hk => hc k (Nat.le_succ_of_le hk)⟩

/-- The reader finds the tree of every derivation. -/
theorem read_eq_some_of_derives {tokens : List Token} {e : Tree} (h : Derives 0 tokens e) :
    read none [] tokens = some e := by
  obtain ⟨e', frames', hr, hc⟩ := read_of_derives h [] [] trivial
  rw [List.append_nil] at hr
  have hclose : close 0 e' frames' = (e, []) := hc 0 le_rfl
  simp [hr, read, hclose]

theorem Derives.mono {n k : Nat} {tokens : List Token} {e : Tree} (h : Derives n tokens e)
    (hk : k ≤ n) : Derives k tokens e := by
  induction n with
  | zero => rwa [Nat.le_zero.1 hk]
  | succ n ih =>
    rcases Nat.lt_or_eq_of_le hk with hlt | rfl
    · exact ih h.weaken (Nat.le_of_lt_succ hlt)
    · exact h

/-! ### Tokens from characters -/

/-- A text that ends the word in front of it and joins no mark. -/
def Ends (cs : List Char) : Prop := ∀ c ∈ cs.head?, c = ' ' ∨ c = ')'

/-- A text that begins an operand, which is a word or stands in parentheses. -/
def Starts (cs : List Char) : Prop := ∃ c ∈ cs.head?, isWordPart c = true ∨ c = '('

variable {keywords : List String}

theorem lex_cons_of_not_word {c : Char} (h : isWordPart c = false) (word cs : List Char) :
    lex keywords word (c :: cs) = endWord keywords word (lex keywords [] (c :: cs)) := by
  cases cs <;> simp [lex, h, endWord]

theorem lex_word {word cs rest : List Char} (h : ∀ c ∈ cs, isWordPart c = true)
    (hr : Ends rest) :
    lex keywords word (cs ++ rest) = endWord keywords (word ++ cs) (lex keywords [] rest) := by
  induction cs generalizing word with
  | nil =>
    cases rest with
    | nil => simp [lex, endWord]
    | cons c rest =>
      have hc : isWordPart c = false := by
        rcases hr c rfl with rfl | rfl <;> decide
      rw [List.nil_append, List.append_nil, lex_cons_of_not_word hc]
  | cons c cs ih =>
    obtain ⟨hc, hcs⟩ := List.forall_mem_cons.1 h
    have hstep : lex keywords word (c :: (cs ++ rest)) =
        lex keywords (word ++ [c]) (cs ++ rest) := by
      cases cs ++ rest <;> simp [lex, hc]
    rw [List.cons_append, hstep, ih hcs, List.append_assoc, List.singleton_append]

theorem lex_space (cs : List Char) : lex keywords [] (' ' :: cs) = lex keywords [] cs := by
  have hw : isWordPart ' ' = false := by decide
  have hs : isSeparator ' ' = true := by decide
  cases cs <;> simp [lex, hw, hs, endWord]

theorem lex_mark {c : Char} {m : Mark} {cs : List Char} (hw : isWordPart c = false)
    (hs : isSeparator c = false) (hm : Mark.ofChar? c = some m)
    (hp : ∀ d ∈ cs.head?, (c, d) ∉ pairs) :
    lex keywords [] (c :: cs) = (lex keywords [] cs).map (.mark m :: ·) := by
  cases cs with
  | nil => simp [lex, hw, hs, hm, endWord]
  | cons d cs =>
    have hd : (c, d) ∉ pairs := hp d rfl
    cases h : lex keywords [] (d :: cs) <;> simp [lex, hw, hs, hm, hd, h, endWord]

theorem lex_pair {c d : Char} {m : Mark} (hw : isWordPart c = false) (hs : isSeparator c = false)
    (hp : (c, d) ∈ pairs) (hm : Mark.ofPair? (c, d) = some m) (cs : List Char) :
    lex keywords [] (c :: d :: cs) = (lex keywords [] cs).map (.mark m :: ·) := by
  cases h : lex keywords [] cs <;> simp [lex, hw, hs, hp, hm, h, endWord]

theorem lex_openParen (cs : List Char) :
    lex keywords [] ('(' :: cs) = (lex keywords [] cs).map (.mark .openParen :: ·) :=
  lex_mark (by decide) (by decide) rfl (by simp [pairs])

theorem lex_closeParen (cs : List Char) :
    lex keywords [] (')' :: cs) = (lex keywords [] cs).map (.mark .closeParen :: ·) :=
  lex_mark (by decide) (by decide) rfl (by simp [pairs])

end C

/-- The mark that an operator is written with. -/
def Operator.outputMark : Operator → C.Mark
  | add | plus => .plus
  | sub | minus => .minus
  | mult => .star
  | div | floorDiv => .slash
  | mod => .percent
  | eq => .equals
  | notEq => .notEquals
  | lt => .less
  | ltE => .lessEquals
  | gt => .greater
  | gtE => .greaterEquals
  | not => .bang
  | and => .ampersands
  | or => .bars

namespace C

variable {keywords : List String}

/-- An operator between blanks is the mark of the operator. -/
theorem lex_spelling (op : Operator) (cs : List Char) :
    lex keywords [] (op.spelling.toList ++ ' ' :: cs) =
      (lex keywords [] cs).map (.mark op.outputMark :: ·) := by
  rw [← lex_space cs]
  cases op with
  | eq => exact lex_pair (by decide) (by decide) (by decide) rfl _
  | notEq => exact lex_pair (by decide) (by decide) (by decide) rfl _
  | ltE => exact lex_pair (by decide) (by decide) (by decide) rfl _
  | gtE => exact lex_pair (by decide) (by decide) (by decide) rfl _
  | and => exact lex_pair (by decide) (by decide) (by decide) rfl _
  | or => exact lex_pair (by decide) (by decide) (by decide) rfl _
  | _ => exact lex_mark (by decide) (by decide) rfl (by simp [pairs])

/-- The beginning of an operand joins no mark in front of it. -/
theorem not_mem_pairs_of_starts {cs : List Char} (h : Starts cs) (c : Char) :
    ∀ d ∈ cs.head?, (c, d) ∉ pairs := by
  intro d hd hmem
  obtain ⟨d', hd', hstart⟩ := h
  obtain rfl : d' = d := Option.some.inj (hd'.symm.trans hd)
  have hpairs : ∀ p ∈ pairs, isWordPart p.2 = false ∧ p.2 ≠ '(' := by decide
  obtain ⟨hword, hparen⟩ := hpairs _ hmem
  rcases hstart with hstart | hstart
  · simp [hword] at hstart
  · exact hparen hstart

/-- An operator right in front of an operand is the mark of the operator. -/
theorem lex_spelling_operand {op : Operator} {o : UnOp} (h : op.outputMark.unary? = some o)
    {cs : List Char} (hcs : Starts cs) :
    lex keywords [] (op.spelling.toList ++ cs) =
      (lex keywords [] cs).map (.mark op.outputMark :: ·) := by
  have hp := not_mem_pairs_of_starts hcs
  cases op with
  | add => exact lex_mark (by decide) (by decide) rfl (hp _)
  | plus => exact lex_mark (by decide) (by decide) rfl (hp _)
  | sub => exact lex_mark (by decide) (by decide) rfl (hp _)
  | minus => exact lex_mark (by decide) (by decide) rfl (hp _)
  | not => exact lex_mark (by decide) (by decide) rfl (hp _)
  | _ => cases h

/-! ### Written expressions -/

/-- A text is read as an expression of a level, whatever follows it. -/
structure Written (keywords : List String) (text : String) (n : Nat) (e : Tree) : Prop where
  starts : Starts text.toList
  reads : ∃ tokens, Derives n tokens e ∧ ∀ rest, Ends rest →
    lex keywords [] (text.toList ++ rest) = (lex keywords [] rest).map (tokens ++ ·)

/-- A written expression is read as what is written. -/
theorem Written.parse? {text : String} {n : Nat} {e : Tree} (h : Written keywords text n e) :
    parse? keywords text = some e := by
  obtain ⟨tokens, hd, hl⟩ := h.reads
  have hlex : lex keywords [] text.toList = some tokens := by
    simpa [lex, endWord] using hl [] (by simp [Ends])
  simp [C.parse?, hlex, read_eq_some_of_derives (hd.mono (Nat.zero_le n))]

theorem Written.mono {text : String} {n k : Nat} {e : Tree} (h : Written keywords text n e)
    (hk : k ≤ n) : Written keywords text k e := by
  obtain ⟨tokens, hd, hl⟩ := h.reads
  exact ⟨h.starts, tokens, hd.mono hk, hl⟩

/-- A word is written as its token. -/
theorem Written.word {text : String} {token : Token} {e : Tree} (hne : text.toList ≠ [])
    (hw : ∀ c ∈ text.toList, isWordPart c = true)
    (ht : word? keywords text.toList = some token) (hd : Derives 8 [token] e) :
    Written keywords text 8 e := by
  refine ⟨?_, [token], hd, fun rest hr => ?_⟩
  · obtain ⟨c, cs, hcs⟩ := List.exists_cons_of_ne_nil hne
    exact ⟨c, by simp [hcs], .inl (hw c (by simp [hcs]))⟩
  · rw [lex_word hw hr, List.nil_append, endWord, if_neg hne, ht]
    cases lex keywords [] rest <;> rfl

theorem Written.paren {text : String} {e : Tree} (h : Written keywords text 0 e) :
    Written keywords ("(" ++ text ++ ")") 8 e := by
  obtain ⟨tokens, hd, hl⟩ := h.reads
  refine ⟨⟨'(', by simp, .inr rfl⟩, _, .paren hd, fun rest _ => ?_⟩
  have hend : Ends (')' :: rest) := by simp [Ends]
  have hcs : ("(" ++ text ++ ")").toList ++ rest = '(' :: (text.toList ++ ')' :: rest) := by
    simp
  rw [hcs, lex_openParen, hl _ hend, lex_closeParen]
  simp [Function.comp_def]

/-- An operator in front of an operand, in parentheses. -/
theorem Written.unary {op : Operator} {o : UnOp} (ho : op.outputMark.unary? = some o)
    {text : String} {e : Tree} (h : Written keywords text 8 e) :
    Written keywords ("(" ++ op.spelling ++ text ++ ")") 8 (.unary o e) := by
  obtain ⟨tokens, hd, hl⟩ := h.reads
  refine ⟨⟨'(', by simp, .inr rfl⟩, _,
    .paren ((Derives.unary ho hd.weaken).mono (Nat.zero_le 7)), fun rest _ => ?_⟩
  have hend : Ends (')' :: rest) := by simp [Ends]
  have hstart : Starts (text.toList ++ ')' :: rest) := by
    obtain ⟨c, hc, hs⟩ := h.starts
    exact ⟨c, by simp_all, hs⟩
  have hcs : ("(" ++ op.spelling ++ text ++ ")").toList ++ rest =
      '(' :: (op.spelling.toList ++ (text.toList ++ ')' :: rest)) := by
    simp
  rw [hcs, lex_openParen, lex_spelling_operand ho hstart, hl _ hend, lex_closeParen]
  simp [Function.comp_def]

/-- An operator between two operands. The left one may be of its own level. -/
theorem Written.binary {op : Operator} {o : BinOp} (ho : op.outputMark.binary? = some o)
    {left right : String} {l r : Tree} (hleft : Written keywords left o.level l)
    (hright : Written keywords right (o.level + 1) r) :
    Written keywords (left ++ " " ++ op.spelling ++ " " ++ right) o.level (.binary o l r) := by
  obtain ⟨ls, hdl, hll⟩ := hleft.reads
  obtain ⟨rs, hdr, hlr⟩ := hright.reads
  refine ⟨?_, _, .binary ho hdl hdr, fun rest hr => ?_⟩
  · obtain ⟨c, hc, hs⟩ := hleft.starts
    exact ⟨c, by simp_all, hs⟩
  have hend : Ends (' ' :: (op.spelling.toList ++ ' ' :: (right.toList ++ rest))) := by
    simp [Ends]
  have hcs : (left ++ " " ++ op.spelling ++ " " ++ right).toList ++ rest =
      left.toList ++ ' ' :: (op.spelling.toList ++ ' ' :: (right.toList ++ rest)) := by
    simp
  rw [hcs, hll _ hend, lex_space, lex_spelling, hlr _ hr]
  simp [Function.comp_def]

/-- Two texts in front of others may be joined first. -/
theorem intercalate_cons_cons_eq (sep s t : String) (texts : List String) :
    sep.intercalate (s :: t :: texts) = sep.intercalate ((s ++ sep ++ t) :: texts) := by
  cases texts with
  | nil => simp [String.intercalate_cons_cons, String.intercalate_singleton]
  | cons u texts => simp [String.intercalate_cons_cons, String.append_assoc]

/-- A run of operands of one operator is grouped to the left. -/
theorem Written.run {op : Operator} {o : BinOp} (ho : op.outputMark.binary? = some o)
    {first : String} {e : Tree} (hfirst : Written keywords first o.level e)
    {texts : List String} {trees : List Tree}
    (h : List.Forall₂ (fun text tree => Written keywords text (o.level + 1) tree) texts trees) :
    Written keywords ((" " ++ op.spelling ++ " ").intercalate (first :: texts)) o.level
      (trees.foldl (Tree.binary o) e) := by
  induction h generalizing first e with
  | nil => simpa [String.intercalate_singleton] using hfirst
  | @cons text tree _ _ htext _ ih =>
    rw [intercalate_cons_cons_eq, List.foldl_cons]
    apply ih
    simpa [String.append_assoc] using Written.binary ho hfirst htext

/-! ### Words -/

/-- A word that names something and is not one of the language. -/
def IsName (keywords : List String) (id : String) : Prop :=
  id.toList.head?.any isWordStart = true ∧ id.toList.all isWordPart = true ∧
    id ≠ "true" ∧ id ≠ "false" ∧ id ∉ keywords

instance (keywords : List String) : DecidablePred (IsName keywords) :=
  fun _ => inferInstanceAs (Decidable (_ ∧ _))

theorem isWordPart_of_isDigit {c : Char} (h : c.isDigit = true) : isWordPart c = true := by
  simp [isWordPart, Char.isAlphanum, h]

theorem Written.name {id : String} (h : IsName keywords id) :
    Written keywords id 8 (.name id) := by
  obtain ⟨hstart, hpart, htrue, hfalse, hkey⟩ := h
  obtain ⟨c, hc, hword⟩ := (Option.any_eq_true isWordStart id.toList.head?).1 hstart
  have hne : id.toList ≠ [] := by
    intro hnil
    simp [hnil] at hc
  refine .word hne (List.all_eq_true.1 hpart) ?_ (.name id)
  simp [word?, hc, not_isDigit_of_isWordStart hword, htrue, hfalse, hkey]

/-- Only zero begins with a zero. -/
theorem head?_toDigits_ne_zero {n : Nat} (h : 0 < n) : (Nat.toDigits 10 n).head? ≠ some '0' := by
  induction n using Nat.strongRecOn with
  | ind n ih =>
    by_cases hn : n < 10
    · have hdigit : ∀ k < 10, 0 < k → k.digitChar ≠ '0' := by decide
      simpa [Nat.toDigits_of_lt_base hn] using hdigit n hn h
    · rw [Nat.toDigits_of_base_le (by decide) (by omega)]
      have hhead := ih (n / 10) (by omega) (by omega)
      obtain ⟨c, cs, hcs⟩ :=
        List.exists_cons_of_ne_nil (Nat.toDigits_ne_nil (b := 10) (n := n / 10))
      simpa [hcs] using hhead

theorem constant?_toDigits (n : Nat) : constant? (Nat.toDigits 10 n) = some n := by
  have hdigits : (Nat.toDigits 10 n).all Char.isDigit = true :=
    List.all_eq_true.2 fun c hc => isDigit_of_mem_toDigits hc
  rcases Nat.eq_zero_or_pos n with rfl | hn
  · decide
  · simp [constant?, hdigits, head?_toDigits_ne_zero hn, Nat.ofDigitChars_ten_toDigits]

theorem Written.number (n : Nat) : Written keywords (toString (n : Int)) 8 (.number n) := by
  have htext := toList_toString_natCast n
  have hdigit : ∀ c ∈ Nat.toDigits 10 n, c.isDigit = true := fun c hc => isDigit_of_mem_toDigits hc
  refine .word (htext ▸ Nat.toDigits_ne_nil) ?_ ?_ (.number n)
  · exact fun c hc => isWordPart_of_isDigit (hdigit c (htext ▸ hc))
  · obtain ⟨c, cs, hcs⟩ := List.exists_cons_of_ne_nil (Nat.toDigits_ne_nil (b := 10) (n := n))
    have hhead : (Nat.toDigits 10 n).head?.any Char.isDigit = true := by
      simp [hcs, hdigit c (by simp [hcs])]
    rw [htext, word?, if_pos hhead, constant?_toDigits, Option.map_some]

/-- The truth values are written as words that stand for numbers. -/
theorem Written.truth (b : Bool) :
    Written keywords (if b then "true" else "false") 8 (.number (C.truth b).toNat) := by
  cases b with
  | false => exact .word (by decide) (List.all_eq_true.1 rfl) rfl (.number 0)
  | true => exact .word (by decide) (List.all_eq_true.1 rfl) rfl (.number 1)

end C

end DefToC
