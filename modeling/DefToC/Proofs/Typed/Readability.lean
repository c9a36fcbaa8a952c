import DefToC.Proofs.Typed.ExprOutlines
import Mathlib

/-!
# Texts are read in one way

Two expressions of a source that are written alike in the output are the same expression up to
spans. Their outlines are the same, since well-formed outlines are found again from their texts. So
it is left to show that the outline determines the expression:

* names and literals are told apart by their first characters,
* brackets and the words in front of them tell calls, subscripts and arrays from operators,
* the first separator tells comparisons, arithmetic and boolean operators apart, and
* the two divisions, which are spelled alike, differ in the conversion of the first operand.
-/

namespace DefToC

/-- What two functions tell of the members of a list, if one of them decides the other. -/
theorem map_eq_of_map_eq {α β γ : Type} {f : α → β} {g : α → γ} {as as' : List α}
    (h : as.map f = as'.map f) (hg : ∀ a ∈ as, ∀ a' ∈ as', f a = f a' → g a = g a') :
    as.map g = as'.map g := by
  induction as generalizing as' with
  | nil =>
    obtain rfl : as' = [] := by simpa using h.symm
    rfl
  | cons a as ih =>
    cases as' with
    | nil => cases h
    | cons a' as' =>
      obtain ⟨hhead, htail⟩ := List.cons.inj h
      have hgs := ih htail fun b hb b' hb' =>
        hg b (List.mem_cons_of_mem a hb) b' (List.mem_cons_of_mem a' hb')
      rw [List.map_cons, List.map_cons, hgs, hg a List.mem_cons_self a' List.mem_cons_self hhead]

theorem exists_cons_cons_of_two_le {α : Type} {as : List α} (h : 2 ≤ as.length) :
    ∃ a b bs, as = a :: b :: bs := by
  obtain ⟨a, as, rfl⟩ := List.exists_cons_of_length_pos (Nat.lt_of_lt_of_le Nat.two_pos h)
  obtain ⟨b, bs, rfl⟩ := List.exists_cons_of_length_pos (Nat.le_of_succ_le_succ h)
  exact ⟨a, b, bs, rfl⟩

/-! ### Forgetting spans -/

namespace TypedExpr

mutual

/-- The expression without spans. -/
def bare : TypedExpr → TypedExpr
  | var v _ => .var v .nowhere
  | constant value _ => .constant value .nowhere
  | array elements _ => .array elements .nowhere
  | compare left ops comparators _ => .compare left.bare ops (bareAll comparators) .nowhere
  | binary left op right _ => .binary left.bare op right.bare .nowhere
  | unary op operand _ => .unary op operand.bare .nowhere
  | boolChain op values _ => .boolChain op (bareAll values) .nowhere
  | subscript value slice _ => .subscript value.bare slice.bare .nowhere
  | index value => .index value.bare
  | call callee arguments returns _ => .call callee (bareAll arguments) returns .nowhere

/-- The expressions without spans. -/
def bareAll : List TypedExpr → List TypedExpr
  | [] => []
  | t :: ts => t.bare :: bareAll ts

end

theorem bareAll_eq_map (ts : List TypedExpr) : bareAll ts = ts.map bare := by
  induction ts with
  | nil => rfl
  | cons t ts ih => rw [bareAll, ih, List.map_cons]

/-- The type of an expression does not depend on spans. -/
theorem type?_bare (t : TypedExpr) : t.bare.type? = t.type? := by
  fun_induction type? t <;> simp_all [bare, type?]

theorem type?_eq_of_bare {t t' : TypedExpr} (h : t.bare = t'.bare) : t.type? = t'.type? := by
  rw [← type?_bare, h, type?_bare]

end TypedExpr

namespace TypedExpr

mutual

/-- Texts do not depend on spans. -/
theorem text_bare : ∀ t : TypedExpr, t.bare.text = t.text
  | var _ _ => rfl
  | constant _ _ => rfl
  | array _ _ => rfl
  | compare left _ comparators _ => by rw [bare, text, text, text_bare left, texts_bare comparators]
  | binary left _ right _ => by simp only [bare, text, type?_bare, text_bare left, text_bare right]
  | unary _ operand _ => by rw [bare, text, text, text_bare operand]
  | boolChain _ values _ => by rw [bare, text, text, texts_bare values]
  | subscript value slice _ => by rw [bare, text, text, text_bare value, text_bare slice]
  | index value => by rw [bare, text, text, text_bare value]
  | call _ arguments _ _ => by rw [bare, text, text, texts_bare arguments]

theorem texts_bare : ∀ ts : List TypedExpr, texts (bareAll ts) = texts ts
  | [] => rfl
  | t :: ts => by rw [bareAll, texts, texts, text_bare t, texts_bare ts]

end

end TypedExpr

/-! ### The outline determines the expression -/

/-- What kind of expression a text is written for. -/
inductive Form where
  | atom
  | array
  | subscript
  | call
  | sign
  | operators (family : OperatorFamily)

namespace Outline

/-- The form of an expression can be seen in its outline. -/
def form : Outline → Form
  | word _ => .atom
  | group _ .curly _ => .array
  | group _ .square _ => .subscript
  | group (_ :: _) .round _ => .call
  | group [] .round (_ :: (sep, _) :: _) =>
    (Operator.infixes.find? (·.joint = sep)).elim .sign fun op => .operators op.family
  | group [] .round _ => .sign

theorem form_operators {op : Operator} (hop : op ∈ Operator.infixes) {sep : List Char}
    {d d' : Outline} {parts : List (List Char × Outline)} :
    form (.group [] .round ((sep, d) :: (op.joint, d') :: parts)) = .operators op.family := by
  rw [form, Operator.find?_joint op hop, Option.elim, op.family_shared]

theorem iff_of_castText {p q : Prop} [Decidable p] [Decidable q]
    (h : (if p then castText else []) = if q then castText else []) : p ↔ q := by
  by_cases hp : p <;> by_cases hq : q <;> simp_all [castText]

theorem joined_inj {sep sep' : List Char} {ds ds' : List Outline}
    (h : joined sep ds = joined sep' ds') : ds = ds' ∧ (2 ≤ ds.length → sep = sep') := by
  have hsnd (sep : List Char) (ds : List Outline) : (joined sep ds).map Prod.snd = ds := by
    cases ds <;> simp [joined, Function.comp_def]
  obtain rfl : ds = ds' := by rw [← hsnd sep ds, h, hsnd]
  refine ⟨rfl, fun hlen => ?_⟩
  obtain ⟨d, d', ds, rfl⟩ := exists_cons_cons_of_two_le hlen
  simp only [joined, List.map_cons, List.cons.injEq, Prod.mk.injEq] at h
  exact h.2.1.1

theorem linked_inj {sep : List Char} {left left' : Outline} {ops ops' : List Operator}
    {ds ds' : List Outline} (hlen : ops.length = ds.length) (hlen' : ops'.length = ds'.length)
    (hops : ∀ op ∈ ops, op.family = .comparison) (hops' : ∀ op ∈ ops', op.family = .comparison)
    (h : linked sep left ops ds = linked sep left' ops' ds') :
    ops = ops' ∧ ds = ds' ∧ (ops ≠ [] → left = left') := by
  induction ops generalizing sep left left' ops' ds ds' with
  | nil =>
    obtain rfl : ds = [] := List.length_eq_zero_iff.1 hlen.symm
    cases ops' with
    | nil => exact ⟨rfl, (List.length_eq_zero_iff.1 hlen'.symm).symm, nofun⟩
    | cons op' ops' =>
      obtain ⟨d', ds', rfl⟩ := List.exists_cons_of_length_eq_add_one hlen'.symm
      cases h
  | cons op ops ih =>
    obtain ⟨d, ds, rfl⟩ := List.exists_cons_of_length_eq_add_one hlen.symm
    cases ops' with
    | nil =>
      obtain rfl : ds' = [] := List.length_eq_zero_iff.1 hlen'.symm
      cases h
    | cons op' ops' =>
      obtain ⟨d', ds', rfl⟩ := List.exists_cons_of_length_eq_add_one hlen'.symm
      obtain ⟨hop, hrest⟩ := List.forall_mem_cons.1 hops
      obtain ⟨hop', hrest'⟩ := List.forall_mem_cons.1 hops'
      simp only [linked, List.cons.injEq, Prod.mk.injEq, true_and] at h
      obtain ⟨rfl, ⟨hjoint, rfl⟩, h⟩ := h
      obtain rfl := Operator.eq_of_joint (Operator.mem_infixes (.inr (.inl hop)))
        (Operator.mem_infixes (.inr (.inl hop'))) (by rw [hop]; decide) hjoint
      obtain ⟨rfl, rfl, -⟩ := ih (Nat.succ.inj hlen) (Nat.succ.inj hlen') hrest hrest' h
      exact ⟨rfl, rfl, fun _ => rfl⟩

theorem listed_inj {ls ls' : List Literal} (hls : ∀ l ∈ ls, l.Finite) (hls' : ∀ l ∈ ls', l.Finite)
    (h : listed ls = listed ls') : ls = ls' := by
  -- what a part of an array adds to the text is its separator and the text of its literal
  have hsigned {sep : List Char} {l l' : Literal} (hl : l.Finite) (hl' : l'.Finite)
      (h : signed sep l = signed sep l') : l = l' := by
    have htext := text_signed sep l
    rw [h, text_signed] at htext
    exact (Literal.text_inj hl' hl (String.toList_inj.1 (List.append_cancel_left htext))).symm
  cases ls with
  | nil =>
    cases ls' with
    | nil => rfl
    | cons l' ls' => cases h
  | cons l ls =>
    cases ls' with
    | nil => cases h
    | cons l' ls' =>
      obtain ⟨hl, hls⟩ := List.forall_mem_cons.1 hls
      obtain ⟨hl', hls'⟩ := List.forall_mem_cons.1 hls'
      obtain ⟨hhead, htail⟩ := List.cons.inj h
      have hmap := map_eq_of_map_eq (g := id) htail
        fun l hl l' hl' => hsigned (hls l hl) (hls' l' hl')
      rw [hsigned hl hl' hhead, ← List.map_id ls, hmap, List.map_id]

end Outline

namespace TypedExpr

open Outline

/-- The form of an expression. -/
def form : TypedExpr → Form
  | var _ _ => .atom
  | constant _ _ => .atom
  | array _ _ => .array
  | compare _ _ _ _ => .operators .comparison
  | binary _ _ _ _ => .operators .arithmetic
  | unary _ _ _ => .sign
  | boolChain _ _ _ => .operators .boolean
  | subscript _ _ _ => .subscript
  | index value => value.form
  | call _ _ _ _ => .call

variable {table : SymbolTable} {t t' : TypedExpr}

theorem Proper.form_outline (h : t.Proper table) : t.outline.form = t.form := by
  cases h with
  | var => rfl
  | constant => rfl
  | array => rfl
  | @compare _ ops ts _ hne hlen hops =>
    obtain ⟨op, ops, rfl⟩ := List.exists_cons_of_ne_nil hne
    obtain ⟨t, ts, rfl⟩ := List.exists_cons_of_length_eq_add_one hlen.symm
    have hop := hops op List.mem_cons_self
    exact (form_operators (Operator.mem_infixes (.inr (.inl hop)))).trans (by rw [hop]; rfl)
  | binary hop =>
    exact (form_operators (Operator.mem_infixes (.inl hop))).trans (by rw [hop]; rfl)
  | unary => rfl
  | @boolChain op ts _ hop hlen =>
    obtain ⟨t, t', ts, rfl⟩ := exists_cons_cons_of_two_le hlen
    have hboolean : op.family = .boolean := by rcases hop with rfl | rfl <;> rfl
    exact (form_operators (Operator.mem_infixes (.inr (.inr hop)))).trans (by rw [hboolean]; rfl)
  | subscript => rfl
  | call hname =>
    obtain ⟨c, cs, hcs, -⟩ := hname
    rw [outline, hcs]
    rfl

theorem Proper.form_eq (h : t.Proper table) (h' : t'.Proper table) (ho : t.outline = t'.outline) :
    t.form = t'.form := by
  rw [← h.form_outline, ho, h'.form_outline]

theorem outline_var {name : String} {v : Variable} {span : Span} (hv : table.lookup name = some v) :
    (var { v with mode := .reuse } span).outline = .word name.toList := by
  rw [← SymbolTable.name_of_lookup hv]
  rfl

theorem outline_of_isVariable (h : t.isVariable = true) : t.outline = .word t.text.toList := by
  cases t <;> cases h
  rfl

theorem outline_constant_ne (htrue : table.lookup "true" = none)
    (hfalse : table.lookup "false" = none) {name : String} {v : Variable}
    (hv : table.lookup name = some v) (hname : IsName name.toList) {value : Literal}
    (hvalue : value.Printable) {span : Span} :
    (constant value span).outline ≠ .word name.toList := by
  intro ho
  have hne {word : String} (hword : table.lookup word = none) : name ≠ word := by
    rintro rfl
    cases hv.symm.trans hword
  exact hvalue.text_ne_name hname (hne htrue) (hne hfalse)
    (String.toList_inj.1 (Outline.word.inj ho))

theorem Proper.bare_eq (htrue : table.lookup "true" = none) (hfalse : table.lookup "false" = none)
    (h : t.Proper table) (h' : t'.Proper table) (ho : t.outline = t'.outline) :
    t.bare = t'.bare := by
  induction h generalizing t' with
  | var hv hname =>
    have hform := form_eq (.var hv hname) h' ho
    cases h' with
    | var hv' hname' =>
      rw [outline_var hv, outline_var hv'] at ho
      obtain rfl := String.toList_inj.1 (Outline.word.inj ho)
      obtain rfl := Option.some.inj (hv.symm.trans hv')
      rfl
    | constant hl =>
      rw [outline_var hv] at ho
      exact absurd ho.symm (outline_constant_ne htrue hfalse hv hname hl)
    | _ => cases hform
  | constant hl =>
    have hform := form_eq (.constant hl) h' ho
    cases h' with
    | var hv' hname' =>
      rw [outline_var hv'] at ho
      exact absurd ho (outline_constant_ne htrue hfalse hv' hname' hl)
    | constant hl' =>
      obtain rfl := Literal.text_inj hl.finite hl'.finite
        (String.toList_inj.1 (Outline.word.inj ho))
      rfl
    | _ => cases hform
  | array hls =>
    have hform := form_eq (.array hls) h' ho
    cases h' with
    | array hls' =>
      obtain rfl := listed_inj hls hls' (by simpa [outline] using ho)
      rfl
    | _ => cases hform
  | compare hne hlen hops hleft hts ihl ihts =>
    have hform := form_eq (.compare hne hlen hops hleft hts) h' ho
    cases h' with
    | compare hne' hlen' hops' hleft' hts' =>
      simp only [outline, outlineAll_eq_map, Outline.group.injEq, true_and] at ho
      obtain ⟨rfl, hos, ho⟩ := linked_inj (by simpa using hlen) (by simpa using hlen') hops hops' ho
      have hbare := map_eq_of_map_eq hos fun t ht t' ht' => ihts t ht (hts' t' ht')
      rw [bare, bare, ihl hleft' (ho hne), bareAll_eq_map, bareAll_eq_map, hbare]
    | _ => cases hform
  | binary hop ha hb hab hl hr ihl ihr =>
    have hform := form_eq (.binary hop ha hb hab hl hr) h' ho
    cases h' with
    | binary hop' ha' hb' hab' hl' hr' =>
      simp only [outline, ha, hb, ha', hb', Option.some.injEq, Outline.group.injEq,
        List.cons.injEq, Prod.mk.injEq, true_and, and_true] at ho
      obtain ⟨⟨hcast, hol⟩, hjoint, hor⟩ := ho
      have hleft := ihl hl' hol
      have hright := ihr hr' hor
      obtain rfl := Option.some.inj (ha.symm.trans ((type?_eq_of_bare hleft).trans ha'))
      obtain rfl := Option.some.inj (hb.symm.trans ((type?_eq_of_bare hright).trans hb'))
      have hshared := Operator.shared_of_joint (Operator.mem_infixes (.inl hop))
        (Operator.mem_infixes (.inl hop')) hjoint
      obtain rfl := Operator.eq_of_shared hshared hab hab' (iff_of_castText hcast)
      rw [bare, bare, hleft, hright]
    | _ => cases hform
  | unary hop hx ih =>
    have hform := form_eq (.unary hop hx) h' ho
    cases h' with
    | unary hop' hx' =>
      simp only [outline, Outline.group.injEq, List.cons.injEq, Prod.mk.injEq, true_and,
        and_true] at ho
      obtain rfl := Operator.eq_of_spelling _ (by simpa using hop) _ (by simpa using hop')
        (String.toList_inj.1 ho.1)
      rw [bare, bare, ih hx' ho.2]
    | _ => cases hform
  | boolChain hop hlen hts ih =>
    have hform := form_eq (.boolChain hop hlen hts) h' ho
    cases h' with
    | boolChain hop' hlen' hts' =>
      simp only [outline, outlineAll_eq_map, Outline.group.injEq, true_and] at ho
      obtain ⟨hos, hjoint⟩ := joined_inj ho
      obtain rfl := Operator.eq_of_joint (Operator.mem_infixes (.inr (.inr hop)))
        (Operator.mem_infixes (.inr (.inr hop'))) (by rcases hop with rfl | rfl <;> decide)
        (hjoint (by simpa using hlen))
      have hbare := map_eq_of_map_eq hos fun t ht t' ht' => ih t ht (hts' t' ht')
      rw [bare, bare, bareAll_eq_map, bareAll_eq_map, hbare]
    | _ => cases hform
  | subscript hvar hv hi ihv ihi =>
    have hform := form_eq (.subscript hvar hv hi) h' ho
    cases h' with
    | subscript hvar' hv' hi' =>
      simp only [outline, Outline.group.injEq, List.cons.injEq, Prod.mk.injEq, true_and,
        and_true] at ho
      have hvalue := ihv hv' (by rw [outline_of_isVariable hvar, ho.1, outline_of_isVariable hvar'])
      rw [bare, bare, bare, bare, hvalue, ihi hi' ho.2]
    | _ => cases hform
  | call hname hts ih =>
    have hform := form_eq (.call hname hts) h' ho
    cases h' with
    | call hname' hts' =>
      simp only [outline, outlineAll_eq_map, Outline.group.injEq, true_and] at ho
      obtain rfl := String.toList_inj.1 ho.1
      have hbare := map_eq_of_map_eq (joined_inj ho.2).1 fun t ht t' ht' => ih t ht (hts' t' ht')
      rw [bare, bare, bareAll_eq_map, bareAll_eq_map, hbare]
    | _ => cases hform

end TypedExpr

namespace Expr

open Reading

variable {table : SymbolTable} {e e' : Expr} {t t' : TypedExpr}

/-- **The output can be read in one way**: expressions of a source are written alike exactly if they
are lowered to the same expression up to spans. -/
theorem text_eq_iff_bare_eq (htrue : table.lookup "true" = none)
    (hfalse : table.lookup "false" = none) (he : e.FromSource) (he' : e'.FromSource)
    (ht : e.lower table = .ok t) (ht' : e'.lower table = .ok t') :
    t.text = t'.text ↔ t.bare = t'.bare := by
  have hp := he.worded.proper ht
  have hp' := he'.worded.proper ht'
  constructor
  · intro h
    have htext : t.outline.text ++ [] = t'.outline.text ++ [] := by
      rw [hp.outlined, hp'.outlined, h]
    have hnil : Outline.Ends [] := nofun
    obtain ⟨ho, -⟩ := t.outline.text_inj hp.formed hp'.formed hnil hnil htext
    exact hp.bare_eq htrue hfalse hp' ho
  · intro h
    rw [← t.text_bare, h, t'.text_bare]

/-- The chain `0 < n <= n / 2`, at the given places. -/
def chain (zero n m two quotient whole : Span) : Expr :=
  .compare (.constant (.int 0) zero) [.lt, .ltE]
    [.name "n" n, .binary (.name "n" m) .div (.constant (.int 2) two) quotient] whole

/-- The chain in `0 < n <= n / 2`. -/
def spacedChain : Expr :=
  chain ⟨"f", 0, 1⟩ ⟨"f", 4, 5⟩ ⟨"f", 9, 10⟩ ⟨"f", 13, 14⟩ ⟨"f", 9, 14⟩ ⟨"f", 0, 14⟩

/-- The chain in `0<n<=(n/2)`. -/
def denseChain : Expr :=
  chain ⟨"g", 0, 1⟩ ⟨"g", 2, 3⟩ ⟨"g", 6, 7⟩ ⟨"g", 8, 9⟩ ⟨"g", 6, 9⟩ ⟨"g", 0, 9⟩

/-- The tokens of the chain with blanks between them. -/
def spacedTokens : List Token :=
  [⟨.number, "0", ⟨"f", 0, 1⟩⟩, ⟨.less, "<", ⟨"f", 2, 3⟩⟩, ⟨.identifier, "n", ⟨"f", 4, 5⟩⟩,
   ⟨.lessEquals, "<=", ⟨"f", 6, 8⟩⟩, ⟨.identifier, "n", ⟨"f", 9, 10⟩⟩, ⟨.slash, "/", ⟨"f", 11, 12⟩⟩,
   ⟨.number, "2", ⟨"f", 13, 14⟩⟩, ⟨.newline, "", ⟨"f", 14, 14⟩⟩, ⟨.eof, "EOF", ⟨"f", 14, 14⟩⟩]

/-- The tokens of the chain without blanks, with its quotient in parentheses. -/
def denseTokens : List Token :=
  [⟨.number, "0", ⟨"g", 0, 1⟩⟩, ⟨.less, "<", ⟨"g", 1, 2⟩⟩, ⟨.identifier, "n", ⟨"g", 2, 3⟩⟩,
   ⟨.lessEquals, "<=", ⟨"g", 3, 5⟩⟩, ⟨.openParen, "(", ⟨"g", 5, 6⟩⟩,
   ⟨.identifier, "n", ⟨"g", 6, 7⟩⟩, ⟨.slash, "/", ⟨"g", 7, 8⟩⟩, ⟨.number, "2", ⟨"g", 8, 9⟩⟩,
   ⟨.closeParen, ")", ⟨"g", 9, 10⟩⟩, ⟨.newline, "", ⟨"g", 10, 10⟩⟩, ⟨.eof, "EOF", ⟨"g", 10, 10⟩⟩]

theorem text_eq_iff_bare_eq_chain :
    spacedChain ≠ denseChain ∧ spacedChain.FromSource ∧ denseChain.FromSource ∧
      ∃ t t', spacedChain.lower (SymbolTable.empty.declareParameter "n" .int) = .ok t ∧
        denseChain.lower (SymbolTable.empty.declareParameter "n" .int) = .ok t' ∧
        t.text = "(0 < n && n <= ((double)n / 2))" ∧ t.text = t'.text ∧ t.bare = t'.bare := by
  have hspaced : Gives (parse .standard .default (Cursor.ofTokens "f" spacedTokens)) spacedChain
      ⟨[⟨.newline, "", ⟨"f", 14, 14⟩⟩], "EOF", ⟨"f", 14, 14⟩⟩ := ⟨by decide, by cbv⟩
  have hdense : Gives (parse .standard .default (Cursor.ofTokens "g" denseTokens)) denseChain
      ⟨[⟨.newline, "", ⟨"g", 10, 10⟩⟩], "EOF", ⟨"g", 10, 10⟩⟩ := ⟨by decide, by cbv⟩
  have htokens : tokenize "f" "0 < n <= n / 2" = .ok spacedTokens := by decide +kernel
  have htokens' : tokenize "g" "0<n<=(n/2)" = .ok denseTokens := by decide +kernel
  have hread : spacedChain.FromSource := .read htokens (List.suffix_refl _) hspaced
  have hread' : denseChain.FromSource := .read htokens' (List.suffix_refl _) hdense
  have htrue : (SymbolTable.empty.declareParameter "n" .int).lookup "true" = none := rfl
  have htext := text_eq_iff_bare_eq htrue rfl hread hread' rfl rfl
  exact ⟨by simp [spacedChain, denseChain, chain], hread, hread', _, _, rfl, rfl,
    by decide +kernel, by decide +kernel, htext.1 (by decide +kernel)⟩

end Expr

end DefToC
