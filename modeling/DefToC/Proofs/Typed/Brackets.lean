import DefToC.Proofs.Typed.ExprOutlines
import DefToC.Proofs.Typed.Lowers
import Mathlib

/-!
# Brackets in the output

A text is read from left to right with a list of the brackets that are still open. It is balanced if
every bracket is closed by one of its kind and none is left open. The text of an expression is
balanced, and it either is one group in parentheses or begins with none. So there is one pair of
parentheses around the condition of a conditional or a loop, never two.
-/

namespace DefToC

namespace Bracket

/-! ### Open brackets -/

/-- Close the innermost of the brackets that are open. It has to be of the given kind. -/
def close (b : Bracket) : List Bracket → Option (List Bracket)
  | [] => none
  | b' :: opened => if b = b' then some opened else none

/-- The brackets that are open behind a character, the innermost first. -/
def next (opened : List Bracket) (c : Char) : Option (List Bracket) :=
  match [round, square, curly].find? (·.opening = c) with
  | some b => some (b :: opened)
  | none =>
    match [round, square, curly].find? (·.closing = c) with
    | some b => close b opened
    | none => some opened

/-- The brackets that are open behind a text. -/
def scan (opened : List Bracket) (cs : List Char) : Option (List Bracket) := cs.foldlM next opened

/-- Is the character a bracket? -/
def isBracket (c : Char) : Bool := c ∈ ['(', ')', '[', ']', '\x7b', '\x7d']

variable {b : Bracket} {opened opened' : List Bracket} {c : Char} {cs ds u v : List Char}

@[simp] theorem next_opening : next opened b.opening = some (b :: opened) := by
  cases b <;> rfl

@[simp] theorem next_closing : next (b :: opened) b.closing = some opened := by
  cases b <;> rfl

theorem next_of_not_isBracket (h : isBracket c = false) : next opened c = some opened := by
  simp only [isBracket, List.mem_cons, List.not_mem_nil, or_false, decide_eq_false_iff_not,
    not_or] at h
  simp [next, opening, closing, eq_comm, h]

theorem close_append (h : close b opened = some opened') (outer : List Bracket) :
    close b (opened ++ outer) = some (opened' ++ outer) := by
  cases opened with
  | nil => cases h
  | cons b' opened =>
    simp only [close, Option.ite_none_right_eq_some, Option.some.injEq] at h
    simp [close, h]

/-- What is open further outside does not matter. -/
theorem next_append (h : next opened c = some opened') (outer : List Bracket) :
    next (opened ++ outer) c = some (opened' ++ outer) := by
  unfold next at h ⊢
  split at h
  · cases h
    rfl
  · split at h
    · exact close_append h outer
    · cases h
      rfl

@[simp] theorem scan_nil : scan opened [] = some opened := rfl

@[simp] theorem scan_cons : scan opened (c :: cs) = (next opened c).bind (scan · cs) := rfl

theorem scan_append : scan opened (u ++ v) = (scan opened u).bind (scan · v) :=
  List.foldlM_append

theorem scan_outer (h : scan opened cs = some opened') (outer : List Bracket) :
    scan (opened ++ outer) cs = some (opened' ++ outer) := by
  induction cs generalizing opened with
  | nil => simpa using h
  | cons c cs ih =>
    rw [scan_cons, Option.bind_eq_some_iff] at h
    obtain ⟨opened₁, hc, hcs⟩ := h
    rw [scan_cons, next_append hc, Option.bind_some, ih hcs]

/-! ### Balanced texts -/

/-- Every bracket of the text is closed in it by one of its kind. -/
def Balanced (cs : List Char) : Prop := scan [] cs = some []

instance : DecidablePred Balanced := fun cs => inferInstanceAs (Decidable (scan [] cs = some []))

theorem Balanced.scan (h : Balanced cs) (opened : List Bracket) : scan opened cs = some opened :=
  scan_outer h opened

theorem Balanced.append (hu : Balanced u) (hv : Balanced v) : Balanced (u ++ v) := by
  rw [Balanced, scan_append, hu, Option.bind_some]
  exact hv

theorem balanced_of_not_isBracket (h : ∀ c ∈ cs, isBracket c = false) : Balanced cs := by
  induction cs with
  | nil => rfl
  | cons c cs ih =>
    obtain ⟨hc, hcs⟩ := List.forall_mem_cons.1 h
    rw [Balanced, scan_cons, next_of_not_isBracket hc, Option.bind_some]
    exact ih hcs

theorem Balanced.group (h : Balanced cs) (b : Bracket) :
    Balanced (b.opening :: (cs ++ [b.closing])) := by
  simp [Balanced, scan_append, h.scan [b]]

/-! ### Groups -/

/-- The text begins with the bracket, and this one is closed by the last character only: the whole
text is the first beginning of it that leaves nothing open. -/
def Encloses (b : Bracket) (cs : List Char) : Prop :=
  cs.head? = some b.opening ∧ ∀ u v, u ++ v = cs → u ≠ [] → (Balanced u ↔ v = [])

theorem Encloses.balanced (h : b.Encloses cs) : Balanced cs := by
  obtain ⟨hhead, hfront⟩ := h
  have hne : cs ≠ [] := by
    rintro rfl
    cases hhead
  exact (hfront cs [] (List.append_nil cs) hne).2 rfl

theorem Balanced.encloses (h : Balanced cs) (b : Bracket) :
    b.Encloses (b.opening :: (cs ++ [b.closing])) := by
  refine ⟨rfl, fun u v huv hu => ?_⟩
  obtain ⟨c, u, rfl⟩ := List.exists_cons_of_ne_nil hu
  rw [List.cons_append] at huv
  obtain ⟨rfl, hrest⟩ := List.cons.inj huv
  rcases List.eq_nil_or_concat v with rfl | ⟨v, d, rfl⟩
  · rw [List.append_nil] at hrest
    rw [hrest]
    exact iff_of_true (h.group b) rfl
  · -- the bracket is still open in front of the last character
    rw [List.concat_eq_append, ← List.append_assoc] at hrest
    obtain ⟨rfl, -⟩ := List.append_inj' hrest rfl
    rw [Balanced, scan_append, Option.bind_eq_some_iff] at h
    obtain ⟨opened, hopened, -⟩ := h
    have hscan := scan_outer hopened [b]
    rw [List.nil_append] at hscan
    simp [Balanced, hscan]

theorem not_encloses_append (hu : Balanced u) (hne : u ≠ []) (hv : v ≠ []) :
    ¬b.Encloses (u ++ v) :=
  fun h => hv ((h.2 u v rfl hne).1 hu)

end Bracket

open Outline DefToC.Bracket

/-! ### Texts put together -/

/-- What holds of the parts of a text holds of all of it. -/
structure Joins (P : List Char → Prop) : Prop where
  nil : P []
  append {u v : List Char} : P u → P v → P (u ++ v)

theorem joins_balanced : Joins Balanced := ⟨rfl, Balanced.append⟩

namespace Joins

variable {P : List Char → Prop}

theorem intercalate (hP : Joins P) {sep : String} {texts : List String} (hsep : P sep.toList)
    (h : ∀ text ∈ texts, P text.toList) : P (sep.intercalate texts).toList := by
  rw [String.toList_intercalate]
  induction texts with
  | nil => exact hP.nil
  | cons text texts ih =>
    obtain ⟨htext, htexts⟩ := List.forall_mem_cons.1 h
    cases texts with
    | nil => simpa using htext
    | cons text' texts =>
      rw [List.map_cons, List.map_cons, List.intercalate_cons_cons]
      exact hP.append (hP.append htext hsep) (ih htexts)

theorem intercalate_texts (hP : Joins P) {sep : String} {ts : List TypedExpr} (hsep : P sep.toList)
    (h : ∀ t ∈ ts, P t.text.toList) : P (sep.intercalate (TypedExpr.texts ts)).toList := by
  rw [TypedExpr.texts_eq_map]
  exact hP.intercalate hsep (List.forall_mem_map.2 h)

/-- A comparison of a chain is an operator between two operands. -/
theorem links (hP : Joins P) (hjoint : ∀ op : Operator, P op.joint) {left : TypedExpr}
    {ops : List Operator} {ts : List TypedExpr} (hleft : P left.text.toList)
    (hts : ∀ t ∈ ts, P t.text.toList) :
    ∀ link ∈ TypedExpr.links left.text ops (TypedExpr.texts ts), P link.toList := by
  induction ops generalizing left ts with
  | nil => simp [TypedExpr.links]
  | cons op ops ih =>
    cases ts with
    | nil => simp [TypedExpr.links, TypedExpr.texts]
    | cons t ts =>
      obtain ⟨ht, hts⟩ := List.forall_mem_cons.1 hts
      rw [TypedExpr.texts, TypedExpr.links]
      refine List.forall_mem_cons.2 ⟨?_, ih ht hts⟩
      have hlink := hP.append (hP.append hleft (hjoint op)) ht
      simpa [Operator.joint] using hlink

end Joins

/-! ### Words -/

theorem not_isBracket_of_isAtom {c : Char} (h : isAtom c = true) : isBracket c = false := by
  by_contra hc
  have hall : ['(', ')', '[', ']', '\x7b', '\x7d'].all (fun c => !isAtom c) = true := rfl
  simp only [isBracket, decide_eq_false_iff_not, not_not] at hc
  simpa [h] using List.all_eq_true.1 hall c hc

theorem balanced_of_isAtom {cs : List Char} (h : ∀ c ∈ cs, isAtom c = true) : Balanced cs :=
  balanced_of_not_isBracket fun c hc => not_isBracket_of_isAtom (h c hc)

theorem Literal.Finite.isAtom {l : Literal} (h : l.Finite) :
    ∀ c ∈ l.text.toList, Outline.isAtom c = true := by
  by_cases hb : ∀ b, l ≠ .bool b
  · rcases l.number_text h hb with hnumeral | ⟨cs, hcs, hnumeral⟩
    · exact hnumeral.isWord.2
    · rw [hcs]
      exact List.forall_mem_cons.2 ⟨rfl, hnumeral.isWord.2⟩
  · obtain ⟨b, hb⟩ := not_forall.1 hb
    obtain rfl := not_not.1 hb
    have hprintable : (Literal.bool b).Printable := trivial
    exact hprintable.isWord.2

theorem Operator.balanced_joint (op : Operator) : Balanced op.joint := by
  cases op <;> decide

namespace TypedExpr

/-! ### Expressions in parentheses -/

/-- The text is one group in parentheses, and these are not doubled. -/
def Grouped (cs : List Char) : Prop :=
  ∃ inner, cs = '(' :: (inner ++ [')']) ∧ Balanced inner ∧ ¬round.Encloses inner

theorem Grouped.encloses {cs : List Char} (h : Grouped cs) : round.Encloses cs := by
  obtain ⟨inner, rfl, hinner, -⟩ := h
  exact hinner.encloses .round

variable {table : SymbolTable} {left right operand t : TypedExpr} {ts : List TypedExpr}
  {op : Operator} {ops : List Operator} {span : Span}

theorem grouped_compare (hne : left.text.toList ≠ []) (hleft : Balanced left.text.toList)
    (hts : ∀ t ∈ ts, Balanced t.text.toList) (hops : ops ≠ []) (hlen : ops.length = ts.length) :
    Grouped (compare left ops ts span).text.toList := by
  obtain ⟨op, ops, rfl⟩ := List.exists_cons_of_ne_nil hops
  cases ts with
  | nil => cases hlen
  | cons t ts =>
    refine ⟨(" && ".intercalate (links left.text (op :: ops) (texts (t :: ts)))).toList,
      by simp [text], ?_, ?_⟩
    · exact joins_balanced.intercalate (by decide)
        (joins_balanced.links Operator.balanced_joint hleft hts)
    · -- what stands in front of the first comparison is closed there
      rw [texts, links, String.toList_intercalate, List.map_cons, intercalate_cons_eq]
      simp only [String.toList_append, List.append_assoc]
      exact not_encloses_append hleft hne (by simp)

theorem grouped_binary (hne : left.text.toList ≠ []) (hleft : Balanced left.text.toList)
    (hright : Balanced right.text.toList) : Grouped (binary left op right span).text.toList := by
  have hgroup (cast : List Char) (hcast : Balanced cast) :
      Grouped ('(' :: (cast ++ left.text.toList ++ (op.joint ++ right.text.toList) ++ [')'])) := by
    have hfront := hcast.append hleft
    refine ⟨_, rfl, hfront.append (op.balanced_joint.append hright), ?_⟩
    exact not_encloses_append hfront (by simp [hne]) (by simp [Operator.joint])
  rw [text]
  split
  · simpa [castText, Operator.joint] using hgroup castText (by decide)
  · simpa [Operator.joint] using hgroup [] rfl

theorem grouped_unary (hop : op = .plus ∨ op = .minus ∨ op = .not)
    (h : Balanced operand.text.toList) : Grouped (unary op operand span).text.toList := by
  refine ⟨op.spelling.toList ++ operand.text.toList, by simp [text], ?_, ?_⟩
  · rcases hop with rfl | rfl | rfl <;> exact Balanced.append (by decide) h
  · rintro ⟨hhead, -⟩
    rcases hop with rfl | rfl | rfl <;> cases hhead

theorem grouped_boolChain (hne : ∀ t ∈ ts, t.text.toList ≠ [])
    (hts : ∀ t ∈ ts, Balanced t.text.toList) (hlen : 2 ≤ ts.length) :
    Grouped (boolChain op ts span).text.toList := by
  refine ⟨((" " ++ op.spelling ++ " ").intercalate (texts ts)).toList, by simp [text], ?_, ?_⟩
  · refine joins_balanced.intercalate_texts ?_ hts
    rw [Operator.toList_joint]
    exact op.balanced_joint
  · obtain _ | ⟨t, _ | ⟨t', ts⟩⟩ := ts
    · cases hlen
    · exact absurd hlen (by simp)
    · obtain ⟨ht, -⟩ := List.forall_mem_cons.1 hts
      rw [String.toList_intercalate, texts, texts, List.map_cons, List.map_cons,
        intercalate_cons_eq]
      exact not_encloses_append ht (hne t List.mem_cons_self) (by simp)

theorem Proper.text_ne_nil (h : t.Proper table) : t.text.toList ≠ [] := by
  obtain ⟨c, hc, -⟩ : Starts (t.outline.text ++ []) := h.formed.starts
  rw [List.append_nil, h.outlined] at hc
  intro hnil
  rw [hnil] at hc
  cases hc

theorem Proper.isName_text {v : Variable} (h : (TypedExpr.var v span).Proper table) :
    IsName (TypedExpr.var v span).text.toList := by
  cases h with
  | var hv hname =>
    rw [← SymbolTable.name_of_lookup hv] at hname
    exact hname

theorem balanced_elements {ls : List Literal} (h : ∀ l ∈ ls, l.Finite) :
    Balanced (", ".intercalate (ls.map Literal.text)).toList :=
  joins_balanced.intercalate (by decide)
    (List.forall_mem_map.2 fun l hl => balanced_of_isAtom (h l hl).isAtom)

theorem balanced_arguments (h : ∀ t ∈ ts, Balanced t.text.toList) :
    Balanced (", ".intercalate (texts ts)).toList :=
  joins_balanced.intercalate_texts (by decide) h

theorem Proper.balanced (h : t.Proper table) : Balanced t.text.toList := by
  induction h with
  | @var _ v span hv hname =>
    have hvar : (TypedExpr.var { v with mode := .reuse } span).Proper table := .var hv hname
    exact balanced_of_isAtom hvar.isName_text.isWord.2
  | constant hvalue => exact balanced_of_isAtom hvalue.isWord.2
  | array hls =>
    simpa [text, opening, closing] using (balanced_elements hls).group .curly
  | compare hne hlen _ hleft _ ihl ihts =>
    exact (grouped_compare hleft.text_ne_nil ihl ihts hne hlen).encloses.balanced
  | binary _ _ _ _ hleft _ ihl ihr =>
    exact (grouped_binary hleft.text_ne_nil ihl ihr).encloses.balanced
  | unary hop _ ih => exact (grouped_unary hop ih).encloses.balanced
  | boolChain _ hlen hts ih =>
    exact (grouped_boolChain (fun t ht => (hts t ht).text_ne_nil) ih hlen).encloses.balanced
  | subscript _ _ _ ihv ihs =>
    simpa [text, opening, closing] using ihv.append (ihs.group .square)
  | call hname _ ih =>
    have hcallee := balanced_of_isAtom hname.isWord.2
    simpa [text, opening, closing] using hcallee.append ((balanced_arguments ih).group .round)

theorem Proper.grouped (h : t.Proper table) (hp : t.isParenthesized = true) :
    Grouped t.text.toList := by
  cases h with
  | compare hne hlen _ hleft hts =>
    exact grouped_compare hleft.text_ne_nil hleft.balanced (fun t ht => (hts t ht).balanced) hne
      hlen
  | binary _ _ _ _ hleft hright =>
    exact grouped_binary hleft.text_ne_nil hleft.balanced hright.balanced
  | unary hop h => exact grouped_unary hop h.balanced
  | boolChain _ hlen hts =>
    exact grouped_boolChain (fun t ht => (hts t ht).text_ne_nil) (fun t ht => (hts t ht).balanced)
      hlen
  | var | constant | array | subscript | call => cases hp

/-! ### Expressions without parentheses of their own -/

/-- The texts that have no parentheses around them: a name, a literal, a call, an element of an
array or a list in braces. -/
inductive Unwrapped : List Char → Prop where
  | name {cs : List Char} : IsName cs → Unwrapped cs
  | literal {l : Literal} : l.Printable → Unwrapped l.text.toList
  | call {callee arguments : List Char} : IsName callee → round.Encloses arguments →
      Unwrapped (callee ++ arguments)
  | subscript {array index : List Char} : IsName array → square.Encloses index →
      Unwrapped (array ++ index)
  | list {cs : List Char} : curly.Encloses cs → Unwrapped cs

theorem Unwrapped.head?_ne {cs : List Char} (h : Unwrapped cs) : cs.head? ≠ some '(' := by
  have hword {cs : List Char} (rest : List Char) (h : IsWord cs) :
      (cs ++ rest).head? ≠ some '(' := by
    obtain ⟨⟨c, hc, hpart⟩, -⟩ := h
    rw [List.head?_append, hc]
    rintro ⟨⟩
    cases hpart
  cases h with
  | name h => simpa using hword [] h.isWord
  | literal h => simpa using hword [] h.isWord
  | call h _ => exact hword _ h.isWord
  | subscript h _ => exact hword _ h.isWord
  | list h =>
    rw [h.1]
    nofun

theorem Proper.unwrapped (h : t.Proper table) (hp : t.isParenthesized = false) :
    Unwrapped t.text.toList := by
  cases h with
  | @var _ v span hv hname =>
    have hvar : (TypedExpr.var { v with mode := .reuse } span).Proper table := .var hv hname
    exact .name hvar.isName_text
  | constant hvalue => exact .literal hvalue
  | array hls =>
    have hlist := Unwrapped.list ((balanced_elements hls).encloses .curly)
    simpa [text, opening, closing] using hlist
  | @subscript value slice _ hvar hvalue hslice =>
    cases value <;> cases hvar
    have hsub := Unwrapped.subscript hvalue.isName_text (hslice.balanced.encloses .square)
    simpa [text, opening, closing] using hsub
  | call hname hts =>
    have hcall := Unwrapped.call hname
      ((balanced_arguments fun t ht => (hts t ht).balanced).encloses .round)
    simpa [text, opening, closing] using hcall
  | compare | binary | unary | boolChain => cases hp

/-! ### Conditions -/

theorem Proper.grouped_conditionText (h : t.Proper table) : Grouped t.conditionText.toList := by
  unfold conditionText
  split
  · rename_i hp
    exact h.grouped hp
  · rename_i hp
    refine ⟨t.text.toList, by simp, h.balanced, fun hencloses => ?_⟩
    exact (h.unwrapped (Bool.eq_false_of_not_eq_true hp)).head?_ne hencloses.1

end TypedExpr

/-- The header of a block: the keyword, a condition and the brace. The condition is one group in
parentheses, and what is inside them is not one again. -/
def IsHeader (keyword header : String) : Prop :=
  ∃ condition, header = keyword ++ " " ++ condition ++ " \x7b" ∧ round.Encloses condition.toList ∧
    ¬round.Encloses condition.toList.tail.dropLast

theorem TypedExpr.Grouped.isHeader {condition : String} (h : Grouped condition.toList)
    (keyword : String) : IsHeader keyword (keyword ++ " " ++ condition ++ " \x7b") := by
  refine ⟨condition, rfl, h.encloses, ?_⟩
  obtain ⟨inner, hcondition, -, hinner⟩ := h
  rwa [hcondition, List.tail_cons, List.dropLast_concat]

namespace Expr

/-- **Brackets of the output.** The text of an expression of a source is balanced. It is one group
in parentheses if the expression has its own, and otherwise it is a name, a literal, a call, an
element of an array or a list, and begins with no parenthesis. So the header of a conditional or a
loop has one pair of parentheses around its condition. -/
theorem lower_brackets {e : Expr} (he : e.FromSource) (table : SymbolTable) :
    (∀ t, e.lower table = .ok t → t.isIndex = false ∧ Balanced t.text.toList ∧
      (t.isParenthesized = true → round.Encloses t.text.toList) ∧
      (t.isParenthesized = false →
        TypedExpr.Unwrapped t.text.toList ∧ t.text.toList.head? ≠ some '(')) ∧
    ∀ (body orelse : List Stmt) (span : Span) (s : TypedStmt) (table₁ : SymbolTable),
      ((Stmt.ifThen e body orelse span).lower.Yields table s table₁ →
        ∃ header, s.text = .block header "\x7d" ∧ IsHeader "if" header) ∧
      ((Stmt.whileLoop e body orelse span).lower.Yields table s table₁ →
        ∃ header, s.text = .block header "\x7d" ∧ IsHeader "while" header) := by
  constructor
  · intro t ht
    have hproper := he.worded.proper ht
    refine ⟨?_, hproper.balanced, fun hp => (hproper.grouped hp).encloses, fun hp => ?_⟩
    · cases hproper <;> rfl
    · have hunwrapped := hproper.unwrapped hp
      exact ⟨hunwrapped, hunwrapped.head?_ne⟩
  · intro body orelse span s table₁
    constructor
    · intro h
      cases lowers_of_lower h with
      | ifThen ht _ _ =>
        exact ⟨_, rfl, (he.worded.proper ht).grouped_conditionText.isHeader "if"⟩
    · intro h
      cases lowers_of_lower h with
      | whileLoop ht _ _ =>
        exact ⟨_, rfl, (he.worded.proper ht).grouped_conditionText.isHeader "while"⟩

/-- The tokens of `(n / 2) * n < f(n)`. -/
def quotientTokens : List Token :=
  [⟨.openParen, "(", ⟨"f", 0, 1⟩⟩, ⟨.identifier, "n", ⟨"f", 1, 2⟩⟩, ⟨.slash, "/", ⟨"f", 3, 4⟩⟩,
   ⟨.number, "2", ⟨"f", 5, 6⟩⟩, ⟨.closeParen, ")", ⟨"f", 6, 7⟩⟩, ⟨.star, "*", ⟨"f", 8, 9⟩⟩,
   ⟨.identifier, "n", ⟨"f", 10, 11⟩⟩, ⟨.less, "<", ⟨"f", 12, 13⟩⟩,
   ⟨.identifier, "f", ⟨"f", 14, 15⟩⟩, ⟨.openParen, "(", ⟨"f", 15, 16⟩⟩,
   ⟨.identifier, "n", ⟨"f", 16, 17⟩⟩, ⟨.closeParen, ")", ⟨"f", 17, 18⟩⟩,
   ⟨.newline, "", ⟨"f", 18, 18⟩⟩, ⟨.eof, "EOF", ⟨"f", 18, 18⟩⟩]

/-- The expression that is read from them. -/
def quotient : Expr :=
  .compare
    (.binary (.binary (.name "n" ⟨"f", 1, 2⟩) .div (.constant (.int 2) ⟨"f", 5, 6⟩) ⟨"f", 1, 6⟩)
      .mult (.name "n" ⟨"f", 10, 11⟩) ⟨"f", 1, 11⟩)
    [.lt] [.call "f" [.name "n" ⟨"f", 16, 17⟩] ⟨"f", 14, 18⟩] ⟨"f", 1, 18⟩

theorem lower_brackets_quotient :
    quotient.FromSource ∧
    (∃ t, quotient.lower (SymbolTable.empty.declareParameter "n" .int) = .ok t ∧
      t.text = "((((double)n / 2) * n) < f(n))" ∧ round.Encloses t.text.toList) ∧
    ∃ s table₁, (Stmt.whileLoop quotient [] [] .nowhere).lower.Yields
        (SymbolTable.empty.declareParameter "n" .int) s table₁ ∧
      s.text = .block "while ((((double)n / 2) * n) < f(n)) \x7b" "\x7d" ∧
      IsHeader "while" "while ((((double)n / 2) * n) < f(n)) \x7b" := by
  have hparse : Reading.Gives
      (parse .standard .default (Cursor.ofTokens "f" quotientTokens)) quotient
      ⟨[⟨.newline, "", ⟨"f", 18, 18⟩⟩], "EOF", ⟨"f", 18, 18⟩⟩ := ⟨by decide, by cbv⟩
  have htokens : tokenize "f" "(n / 2) * n < f(n)" = .ok quotientTokens := by decide +kernel
  have hread : quotient.FromSource := .read htokens (List.suffix_refl _) hparse
  have hbrackets := lower_brackets hread (SymbolTable.empty.declareParameter "n" .int)
  refine ⟨hread, ⟨_, rfl, by decide +kernel, (hbrackets.1 _ rfl).2.2.1 rfl⟩, ?_⟩
  obtain ⟨header, htext, hheader⟩ := (hbrackets.2 [] [] .nowhere _ _).2 ⟨rfl, rfl⟩
  obtain rfl : "while ((((double)n / 2) * n) < f(n)) \x7b" = header := by
    rw [← (StmtText.block.inj htext).1]
    decide +kernel
  exact ⟨_, _, ⟨rfl, rfl⟩, htext, hheader⟩

end Expr

end DefToC
