import DefToC.Proofs.Meaning.Grammar
import DefToC.Proofs.Number.Numerals
import DefToC.Proofs.Syntax.Sources
import DefToC.Proofs.Typed.Outlines

/-!
# Outlines of typed expressions

The text of a typed expression has an outline: names and literals are words, and brackets stand
around everything else. `TypedExpr.Proper` says what lowering leaves of the expressions of a source.
For such an expression the outline has the text of the expression (`Proper.outlined`) and is well
formed (`Proper.formed`), so it can be found again from the text.
-/

namespace DefToC

/-! ### Operators in the output -/

namespace Operator

/-- The operators that stand between two operands. -/
def infixes : List Operator :=
  [add, sub, mult, div, floorDiv, mod, eq, notEq, lt, ltE, gt, gtE, and, or]

/-- The operator that is spelled for this one: both divisions are spelled alike. -/
def shared (op : Operator) : Operator := if op = floorDiv then div else op

/-- An operator with blanks around it. -/
def joint (op : Operator) : List Char := ' ' :: (op.spelling.toList ++ [' '])

variable {op op' : Operator}

theorem mem_infixes (h : op.family = .arithmetic ∨ op.family = .comparison ∨ op = .and ∨ op = .or) :
    op ∈ infixes := by
  cases op <;> simp_all [infixes, family]

theorem toList_joint (op : Operator) : (" " ++ op.spelling ++ " ").toList = op.joint := by
  simp [joint]

theorem joins_joint (op : Operator) : Outline.Joins op.joint :=
  .spaced (by cases op <;> decide)

/-- The spelling of an operator determines it but for the kind of division. -/
theorem find?_joint : ∀ op ∈ infixes, infixes.find? (·.joint = op.joint) = some op.shared := by
  decide

theorem shared_of_joint (hop : op ∈ infixes) (hop' : op' ∈ infixes) (h : op.joint = op'.joint) :
    op.shared = op'.shared := by
  have hfound := find?_joint op hop
  rw [h, find?_joint op' hop'] at hfound
  exact (Option.some.inj hfound).symm

theorem family_shared (op : Operator) : op.shared.family = op.family := by
  cases op <;> rfl

theorem eq_of_joint (hop : op ∈ infixes) (hop' : op' ∈ infixes) (hfamily : op.family ≠ .arithmetic)
    (h : op.joint = op'.joint) : op = op' := by
  have hshared {op : Operator} (hop : op.family ≠ .arithmetic) : op.shared = op :=
    if_neg (by rintro rfl; exact hop rfl)
  have heq := shared_of_joint hop hop' h
  have hfamily' : op'.family ≠ .arithmetic := by rwa [← family_shared, ← heq, family_shared]
  rw [← hshared hfamily, heq, hshared hfamily']

theorem eq_of_spelling : ∀ op ∈ [plus, minus, not], ∀ op' ∈ [plus, minus, not],
    op.spelling = op'.spelling → op = op' := by
  decide

/-- Where both divisions are possible, only one of them converts an operand. -/
theorem eq_of_shared {a b : ValueType} (h : op.shared = op'.shared)
    (hop : (op.resultType? a b).isSome = true) (hop' : (op'.resultType? a b).isSome = true)
    (hcast : (op = .div ∧ a = .int ∧ b = .int) ↔ (op' = .div ∧ a = .int ∧ b = .int)) :
    op = op' := by
  have hint (h : (floorDiv.resultType? a b).isSome = true) : a = .int ∧ b = .int := by
    revert h
    cases a <;> cases b <;> decide
  by_cases hf : op = floorDiv <;> by_cases hf' : op' = floorDiv
  · rw [hf, hf']
  · subst hf
    obtain rfl : div = op' := by simpa [shared, hf'] using h
    exact absurd (hcast.2 ⟨rfl, hint hop⟩).1 (by decide)
  · subst hf'
    obtain rfl : op = div := by simpa [shared, hf] using h
    exact absurd (hcast.1 ⟨rfl, hint hop'⟩).1 (by decide)
  · simpa [shared, hf, hf'] using h

end Operator

/-! ### Outlines of expressions -/

namespace Outline

/-- Parts that are all separated alike. -/
def joined (sep : List Char) : List Outline → List (List Char × Outline)
  | [] => []
  | d :: ds => ([], d) :: ds.map (sep, ·)

/-- The parts of a chain of comparisons. A part between two comparisons stands in both. -/
def linked (sep : List Char) (left : Outline) :
    List Operator → List Outline → List (List Char × Outline)
  | op :: ops, right :: rights =>
    (sep, left) :: (op.joint, right) :: linked Operator.and.joint right ops rights
  | _, _ => []

/-- A literal as a part of an array: a minus sign belongs to its separator. -/
def signed (sep : List Char) (l : Literal) : List Char × Outline :=
  match l.text.toList with
  | '-' :: cs => (sep ++ ['-'], .word cs)
  | cs => (sep, .word cs)

/-- The parts of an array. -/
def listed : List Literal → List (List Char × Outline)
  | [] => []
  | l :: ls => signed [] l :: ls.map (signed [',', ' '])

end Outline

namespace TypedExpr

open Outline

mutual

/-- The outline of the text of an expression. -/
def outline : TypedExpr → Outline
  | var v _ => .word (v.text?.getD "").toList
  | constant value _ => .word value.text.toList
  | array elements _ => .group [] .curly (listed elements)
  | compare left ops comparators _ =>
    .group [] .round (linked [] left.outline ops (outlineAll comparators))
  | binary left op right _ =>
    let cast := op = .div ∧ left.type? = some .int ∧ right.type? = some .int
    .group [] .round [(if cast then castText else [], left.outline), (op.joint, right.outline)]
  | unary op operand _ => .group [] .round [(op.spelling.toList, operand.outline)]
  | boolChain op values _ => .group [] .round (joined op.joint (outlineAll values))
  | subscript value slice _ => .group value.text.toList .square [([], slice.outline)]
  | index value => value.outline
  | call callee arguments _ _ =>
    .group callee.toList .round (joined [',', ' '] (outlineAll arguments))

/-- The outlines of several expressions. -/
def outlineAll : List TypedExpr → List Outline
  | [] => []
  | t :: ts => t.outline :: outlineAll ts

end

theorem texts_eq_map (ts : List TypedExpr) : texts ts = ts.map text := by
  induction ts with
  | nil => rfl
  | cons t ts ih => rw [texts, ih, List.map_cons]

theorem outlineAll_eq_map (ts : List TypedExpr) : outlineAll ts = ts.map outline := by
  induction ts with
  | nil => rfl
  | cons t ts ih => rw [outlineAll, ih, List.map_cons]

/-- The expressions that come from a source: names are words that the table knows, constants have
no sign, and every node has operators and operands of its own kind. -/
inductive Proper (table : SymbolTable) : TypedExpr → Prop where
  | var {name : String} {v : Variable} {span : Span} : table.lookup name = some v →
      IsName name.toList → Proper table (.var { v with mode := .reuse } span)
  | constant {value : Literal} {span : Span} : value.Printable →
      Proper table (.constant value span)
  | array {elements : List Literal} {span : Span} : (∀ l ∈ elements, l.Finite) →
      Proper table (.array elements span)
  | compare {left : TypedExpr} {ops : List Operator} {ts : List TypedExpr} {span : Span} :
      ops ≠ [] → ops.length = ts.length → (∀ op ∈ ops, op.family = .comparison) →
      Proper table left → (∀ t ∈ ts, Proper table t) → Proper table (.compare left ops ts span)
  | binary {left right : TypedExpr} {op : Operator} {span : Span} {a b : ValueType} :
      op.family = .arithmetic → left.type? = some a → right.type? = some b →
      (op.resultType? a b).isSome = true → Proper table left → Proper table right →
      Proper table (.binary left op right span)
  | unary {op : Operator} {operand : TypedExpr} {span : Span} :
      op = .plus ∨ op = .minus ∨ op = .not → Proper table operand →
      Proper table (.unary op operand span)
  | boolChain {op : Operator} {ts : List TypedExpr} {span : Span} : op = .and ∨ op = .or →
      2 ≤ ts.length → (∀ t ∈ ts, Proper table t) → Proper table (.boolChain op ts span)
  | subscript {value slice : TypedExpr} {span : Span} : value.isVariable = true →
      Proper table value → Proper table slice → Proper table (.subscript value (.index slice) span)
  | call {callee : String} {ts : List TypedExpr} {span : Span} : IsName callee.toList →
      (∀ t ∈ ts, Proper table t) → Proper table (.call callee ts (table.returnType? callee) span)

end TypedExpr

namespace Expr

variable {table : SymbolTable}

theorem Worded.proper {e : Expr} (he : e.Worded) {t : TypedExpr} (h : e.lower table = .ok t) :
    t.Proper table := by
  have hall {es : List Expr} {ts : List TypedExpr}
      (ih : ∀ e ∈ es, ∀ {t}, e.lower table = .ok t → t.Proper table)
      (hts : List.Forall₂ (LowersTo table) es ts) : ∀ t ∈ ts, t.Proper table := by
    intro t ht
    obtain ⟨e, he, hp⟩ := exists_of_mem_right (forall₂_of_lowersTo ih hts) ht
    exact hp
  induction he generalizing t with
  | name hname =>
    obtain ⟨v, hv, rfl⟩ := TypedExpr.mkVariable_eq_ok_iff.1 h
    exact .var hv hname
  | constant hvalue =>
    obtain ⟨-, rfl⟩ := TypedExpr.mkConstant_eq_ok_iff.1 h
    exact .constant hvalue
  | list _ _ =>
    obtain ⟨ls, -, -, ⟨type, -, hls⟩, rfl⟩ := lower_list_eq_ok_iff.1 h
    exact .array fun l hl => (hls l hl).1
  | compare _ _ ihl ihes =>
    obtain ⟨l, ts, hl, hts, hne, hlen, hops, rfl⟩ := lower_compare_eq_ok_iff.1 h
    exact .compare hne (hlen.trans hts.length_eq) hops (ihl hl) (hall (fun e he => ihes e he) hts)
  | binary _ _ ihl ihr =>
    obtain ⟨l, r, hl, hr, hop, ⟨a, b, ha, hb, hab⟩, rfl⟩ := lower_binary_eq_ok_iff.1 h
    exact .binary hop ha hb hab (ihl hl) (ihr hr)
  | unary _ ih =>
    obtain ⟨o, ho, hop, rfl⟩ := lower_unary_eq_ok_iff.1 h
    exact .unary hop (ih ho)
  | boolOp _ ih =>
    obtain ⟨ts, hts, hop, hlen, rfl⟩ := lower_boolOp_eq_ok_iff.1 h
    exact .boolChain hop (hts.length_eq ▸ hlen) (hall (fun e he => ih e he) hts)
  | subscript _ _ ihv ihi =>
    obtain ⟨v, i, hv, hi, -, hvar, -, rfl⟩ := lower_subscript_eq_ok_iff.1 h
    exact .subscript hvar (ihv hv) (ihi hi)
  | call hname _ ih =>
    obtain ⟨ts, hts, rfl⟩ := lower_call_eq_ok_iff.1 h
    exact .call hname (hall (fun e he => ih e he) hts)

end Expr

/-! ### The outline has the text of the expression -/

namespace Outline

theorem intercalate_cons_eq (sep cs : List Char) (css : List (List Char)) :
    sep.intercalate (cs :: css) = cs ++ css.flatMap (sep ++ ·) := by
  induction css generalizing cs with
  | nil => simp
  | cons ds css ih => rw [List.intercalate_cons_cons, ih, List.flatMap_cons, List.append_assoc,
      List.append_assoc]

theorem textAll_map {α : Type} {f : α → List Char × Outline} {g : α → List Char} {as : List α}
    (h : ∀ a ∈ as, (f a).1 ++ (f a).2.text = g a) : textAll (as.map f) = as.flatMap g := by
  induction as with
  | nil => rfl
  | cons a as ih =>
    obtain ⟨ha, has⟩ := List.forall_mem_cons.1 h
    rw [List.map_cons, List.flatMap_cons, textAll, ih has, ← List.append_assoc, ha]

theorem text_signed (sep : List Char) (l : Literal) :
    (signed sep l).1 ++ (signed sep l).2.text = sep ++ l.text.toList := by
  unfold signed
  split
  · rename_i cs hcs
    rw [hcs, text, List.append_assoc]
    rfl
  · rfl

theorem textAll_listed (ls : List Literal) :
    textAll (listed ls) = (", ".intercalate (ls.map Literal.text)).toList := by
  cases ls with
  | nil => rfl
  | cons l ls =>
    rw [listed, textAll, textAll_map fun l _ => text_signed _ l, String.toList_intercalate,
      List.map_cons, List.map_cons, intercalate_cons_eq, ← List.append_assoc, text_signed]
    simp [List.flatMap_map, Function.comp_def]

end Outline

namespace TypedExpr

open Outline

/-- The outline of the expression has its text. -/
def Outlined (t : TypedExpr) : Prop := t.outline.text = t.text.toList

variable {ts : List TypedExpr}

theorem textAll_joined (sep : String) (h : ∀ t ∈ ts, t.Outlined) :
    textAll (joined sep.toList (outlineAll ts)) = (sep.intercalate (texts ts)).toList := by
  cases ts with
  | nil => rfl
  | cons t ts =>
    obtain ⟨ht, hts⟩ := List.forall_mem_cons.1 h
    have hrest : textAll ((ts.map outline).map (sep.toList, ·)) =
        ts.flatMap fun t => sep.toList ++ t.text.toList := by
      rw [List.map_map]
      exact textAll_map fun t ht => congrArg (sep.toList ++ ·) (hts t ht)
    rw [outlineAll_eq_map, texts_eq_map, String.toList_intercalate, List.map_cons, List.map_cons,
      List.map_cons, joined, textAll, hrest, ht, intercalate_cons_eq]
    simp [List.flatMap_map]

theorem textAll_linked {left : TypedExpr} {ops : List Operator} (hleft : left.Outlined)
    (h : ∀ t ∈ ts, t.Outlined) :
    textAll (linked Operator.and.joint left.outline ops (outlineAll ts)) =
      (links left.text ops (texts ts)).flatMap fun link => Operator.and.joint ++ link.toList := by
  induction ops generalizing left ts with
  | nil => simp [linked, links, textAll]
  | cons op ops ih =>
    cases ts with
    | nil => simp [outlineAll, texts, linked, links, textAll]
    | cons t ts =>
      obtain ⟨ht, hts⟩ := List.forall_mem_cons.1 h
      rw [outlineAll, texts, linked, links, textAll, textAll, ih ht hts, hleft, ht]
      simp [Operator.joint, List.append_assoc]

theorem Proper.outlined {table : SymbolTable} {t : TypedExpr} (h : t.Proper table) :
    t.Outlined := by
  induction h with
  | var => rfl
  | constant => rfl
  | array =>
    rw [Outlined, outline, Outline.text, textAll_listed, text]
    simp [Bracket.opening, Bracket.closing]
  | @compare left ops ts _ hne hlen _ _ _ ihl ihts =>
    obtain ⟨op, ops, rfl⟩ := List.exists_cons_of_ne_nil hne
    cases ts with
    | nil => cases hlen
    | cons t ts =>
      obtain ⟨ht, hts⟩ := List.forall_mem_cons.1 ihts
      rw [Outlined, outline, outlineAll, linked, Outline.text, textAll, textAll,
        textAll_linked ht hts, ihl, ht, text, texts, links]
      simp [String.toList_intercalate, intercalate_cons_eq, Operator.joint, List.flatMap_map,
        Bracket.opening, Bracket.closing]
      rfl
  | binary _ _ _ _ _ _ ihl ihr =>
    simp only [Outlined, outline, text, Outline.text, textAll, String.toList_append]
    rw [ihl, ihr]
    split <;> simp [castText, Operator.joint, Bracket.opening, Bracket.closing]
  | unary _ _ ih =>
    rw [Outlined, outline, Outline.text, textAll, textAll, ih, text]
    simp [Bracket.opening, Bracket.closing]
  | boolChain _ _ _ ih =>
    rw [Outlined, outline, Outline.text, ← Operator.toList_joint, textAll_joined _ ih, text]
    simp [Bracket.opening, Bracket.closing]
  | subscript _ _ _ _ ih =>
    rw [Outlined, outline, outline, Outline.text, textAll, textAll, ih, text, text]
    simp [Bracket.opening, Bracket.closing]
  | call _ _ ih =>
    rw [Outlined, outline, Outline.text, show [',', ' '] = ", ".toList from rfl,
      textAll_joined _ ih, text]
    simp [Bracket.opening, Bracket.closing]

end TypedExpr

/-! ### Words -/

section

open Outline

variable {cs : List Char} {l : Literal}

theorem isAtom_of_isWordPart {c : Char} (h : isWordPart c = true) : isAtom c = true := by
  simp [isAtom, h]

theorem IsName.isWord (h : IsName cs) : IsWord cs := by
  obtain ⟨c, cs, rfl, hc, hcs⟩ := h
  have hc := isWordPart_of_isWordStart hc
  exact ⟨⟨c, rfl, hc⟩,
    List.forall_mem_cons.2 ⟨isAtom_of_isWordPart hc, fun d hd => isAtom_of_isWordPart (hcs d hd)⟩⟩

theorem IsNumeral.isWord (h : IsNumeral cs) : IsWord cs := by
  obtain ⟨c, cs, rfl, hc, hcs⟩ := h
  have hdigit {d : Char} (hd : d.isDigit = true) : isAtom d = true :=
    isAtom_of_isWordPart (C.isWordPart_of_isDigit hd)
  refine ⟨⟨c, rfl, C.isWordPart_of_isDigit hc⟩, List.forall_mem_cons.2 ⟨hdigit hc, fun d hd => ?_⟩⟩
  rcases hcs d hd with hd | hd
  · exact hdigit hd
  · have hall : ∀ d ∈ ['.', 'e', '-'], isAtom d = true := List.all_eq_true.1 rfl
    exact hall d hd

namespace Literal

theorem Printable.finite (h : l.Printable) : l.Finite := by
  rintro x rfl
  exact h.1

theorem Printable.isNumeral (h : l.Printable) (hb : ∀ b, l ≠ .bool b) :
    IsNumeral l.text.toList := by
  cases l with
  | bool b => exact absurd rfl (hb b)
  | int n =>
    rcases toString_int_cases n with ⟨m, hm, -⟩ | ⟨m, -, hneg⟩
    · rw [text, hm]
      exact isNumeral_toDigits m
    · exact absurd h.1 (Int.not_le.2 hneg)
  | float x => exact Double.isNumeral_text h.1 h.2

theorem Printable.isWord (h : l.Printable) : IsWord l.text.toList := by
  cases l with
  | bool b => cases b <;> exact ⟨⟨_, rfl, rfl⟩, List.all_eq_true.1 rfl⟩
  | int n => exact (h.isNumeral nofun).isWord
  | float x => exact (h.isNumeral nofun).isWord

/-- Literals are not written like names. -/
theorem Printable.text_ne_name (h : l.Printable) {name : String} (hname : IsName name.toList)
    (htrue : name ≠ "true") (hfalse : name ≠ "false") : l.text ≠ name := by
  rintro rfl
  have hnumber (hb : ∀ b, l ≠ .bool b) : False := by
    obtain ⟨c, cs, hcs, hc, -⟩ := h.isNumeral hb
    obtain ⟨d, ds, hds, hd, -⟩ := hname
    obtain ⟨rfl, -⟩ := List.cons.inj (hcs.symm.trans hds)
    rw [not_isDigit_of_isWordStart hd] at hc
    cases hc
  cases l with
  | bool b =>
    cases b with
    | false => exact hfalse rfl
    | true => exact htrue rfl
  | int n => exact hnumber nofun
  | float x => exact hnumber nofun

end Literal

end

/-! ### The outline is well formed -/

namespace Outline

variable {sep lead : List Char} {bracket : Bracket} {ds : List Outline}

/-- A literal of an array is a word, perhaps with a minus sign at the end of its separator. -/
theorem signed_cases (sep : List Char) {l : Literal} (hl : l.Finite) :
    ((signed sep l).1 = sep ∨ (signed sep l).1 = sep ++ ['-']) ∧ (signed sep l).2.Formed := by
  unfold signed
  split
  · rename_i cs hcs
    refine ⟨.inr rfl, .word ?_⟩
    have hb : ∀ b, l ≠ .bool b := by
      rintro b rfl
      cases b <;> cases hcs
    rcases l.number_text hl hb with ⟨c, cs', hcs', hc, -⟩ | ⟨cs', hcs', hnumeral⟩
    · obtain ⟨rfl, -⟩ := List.cons.inj (hcs.symm.trans hcs')
      cases hc
    · obtain ⟨-, rfl⟩ := List.cons.inj (hcs.symm.trans hcs')
      exact hnumeral.isWord
  · rename_i hsign
    refine ⟨.inl rfl, .word ?_⟩
    by_cases hb : ∀ b, l ≠ .bool b
    · rcases l.number_text hl hb with hnumeral | ⟨cs, hcs, -⟩
      · exact hnumeral.isWord
      · exact absurd hcs (hsign cs)
    · obtain ⟨b, hb⟩ := not_forall.1 hb
      obtain rfl := not_not.1 hb
      have hprintable : (Literal.bool b).Printable := trivial
      exact hprintable.isWord

theorem formed_listed {ls : List Literal} (hls : ∀ l ∈ ls, l.Finite) :
    Formed (.group [] .curly (listed ls)) := by
  cases ls with
  | nil => exact .group (.inl rfl) trivial nofun
  | cons l ls =>
    obtain ⟨hl, hls⟩ := List.forall_mem_cons.1 hls
    obtain ⟨hsep, hformed⟩ := signed_cases [] hl
    have hlater : ∀ p ∈ ls.map (signed [',', ' ']), Joins p.1 ∧ p.2.Formed := by
      intro p hp
      obtain ⟨l, hl, rfl⟩ := List.mem_map.1 hp
      obtain ⟨hsep, hformed⟩ := signed_cases [',', ' '] (hls l hl)
      refine ⟨?_, hformed⟩
      rcases hsep with hsep | hsep <;> rw [hsep]
      · exact .comma
      · exact .commaSign
    refine .group (.inl rfl) ⟨?_, List.forall_mem_map.2 fun p hp => (hlater p hp).1, nofun⟩
      (List.forall_mem_cons.2 ⟨hformed, fun p hp => (hlater p hp).2⟩)
    rcases hsep with hsep | hsep <;> rw [hsep]
    · exact .none
    · exact .sign (by simp)

theorem formed_joined (hlead : lead = [] ∨ IsWord lead) (hsep : Joins sep)
    (hds : ∀ d ∈ ds, d.Formed) (hlen : lead = [] → 2 ≤ ds.length) :
    Formed (.group lead .round (joined sep ds)) := by
  cases ds with
  | nil => exact .group hlead trivial nofun
  | cons d ds =>
    obtain ⟨hd, hds⟩ := List.forall_mem_cons.1 hds
    have hlater : ∀ p ∈ ds.map (sep, ·), Joins p.1 ∧ p.2.Formed :=
      List.forall_mem_map.2 fun d hd => ⟨hsep, hds d hd⟩
    refine .group hlead ⟨.none, List.forall_mem_map.2 fun p hp => (hlater p hp).1, ?_⟩
      (List.forall_mem_cons.2 ⟨hd, fun p hp => (hlater p hp).2⟩)
    intro hnil _ _ hmap
    obtain rfl : ds = [] := by simpa using hmap
    exact Nat.not_succ_le_self 1 (hlen hnil)

theorem joins_linked {left : Outline} {ops : List Operator} :
    ∀ p ∈ linked Operator.and.joint left ops ds, Joins p.1 := by
  induction ops generalizing left ds with
  | nil => simp [linked]
  | cons op ops ih =>
    cases ds with
    | nil => simp [linked]
    | cons d ds =>
      simp only [linked, List.forall_mem_cons]
      exact ⟨Operator.joins_joint _, Operator.joins_joint _, ih⟩

theorem formed_of_mem_linked {left : Outline} {ops : List Operator} (hleft : left.Formed)
    (hds : ∀ d ∈ ds, d.Formed) : ∀ p ∈ linked sep left ops ds, p.2.Formed := by
  induction ops generalizing sep left ds with
  | nil => simp [linked]
  | cons op ops ih =>
    cases ds with
    | nil => simp [linked]
    | cons d ds =>
      obtain ⟨hd, hds⟩ := List.forall_mem_cons.1 hds
      simp only [linked, List.forall_mem_cons]
      exact ⟨hleft, hd, ih hd hds⟩

end Outline

namespace TypedExpr

open Outline

variable {table : SymbolTable} {t t' : TypedExpr}

theorem Proper.formed (h : t.Proper table) : t.outline.Formed := by
  induction h with
  | var hv hname =>
    rw [← SymbolTable.name_of_lookup hv] at hname
    exact .word hname.isWord
  | constant hvalue => exact .word hvalue.isWord
  | array hls => exact formed_listed hls
  | @compare left ops ts _ hne hlen _ _ _ ihl ihts =>
    obtain ⟨op, ops, rfl⟩ := List.exists_cons_of_ne_nil hne
    cases ts with
    | nil => cases hlen
    | cons t ts =>
      obtain ⟨ht, hts⟩ := List.forall_mem_cons.1 ihts
      have hds : ∀ d ∈ outlineAll ts, d.Formed := by
        rw [outlineAll_eq_map]
        exact List.forall_mem_map.2 hts
      refine .group (.inl rfl) ⟨.none, List.forall_mem_cons.2 ⟨op.joins_joint, ?_⟩, nofun⟩
        (List.forall_mem_cons.2 ⟨ihl, List.forall_mem_cons.2 ⟨ht, formed_of_mem_linked ht hds⟩⟩)
      exact List.forall_mem_map.2 joins_linked
  | @binary left right op _ _ _ _ _ _ _ _ _ ihl ihr =>
    refine .group (.inl rfl) ⟨?_, List.forall_mem_singleton.2 op.joins_joint, nofun⟩
      (List.forall_mem_cons.2 ⟨ihl, List.forall_mem_singleton.2 ihr⟩)
    dsimp only
    split
    · exact .cast
    · exact .none
  | unary hop _ ih =>
    refine .group (.inl rfl) ?_ (List.forall_mem_singleton.2 ih)
    rcases hop with rfl | rfl | rfl <;> exact ⟨.sign (by decide), nofun, nofun⟩
  | @boolChain op ts _ _ hlen _ ih =>
    rw [outline, outlineAll_eq_map]
    exact formed_joined (.inl rfl) op.joins_joint (List.forall_mem_map.2 ih)
      fun _ => by simpa using hlen
  | @subscript value _ _ hvar _ _ ihv ihi =>
    have hword : IsWord value.text.toList := by
      cases value <;> cases hvar
      cases ihv with
      | word hword => exact hword
    exact .group (.inr hword) ⟨.none, nofun, nofun⟩ (List.forall_mem_singleton.2 ihi)
  | call hname _ ih =>
    rw [outline, outlineAll_eq_map]
    exact formed_joined (.inr hname.isWord) .comma (List.forall_mem_map.2 ih)
      fun hnil => absurd hnil hname.isWord.ne_nil

end TypedExpr

end DefToC
