import DefToC.Proofs.Syntax.ProgramReadings
import DefToC.Proofs.Syntax.SyntaxErrors

/-!
# The spans of a tree

A node is read from a stretch of tokens, and so are its children, one behind the other. So if the
tokens stand in order, the spans of the children of a node stand in order inside its span. No node
is empty, and each begins and ends where a token does. This is shown along derivations: what is read
between two cursors lies between the places where their tokens begin (`SpanTree.Laid`).

A span is made from what stands at its two ends. What is at the ends need not be a child: it may be
a token, and the end may be where the next token begins. There is one lemma for each way.
-/

namespace DefToC

/-! ### Trees of spans -/

/-- A stretch of the named text that is not empty and goes from a boundary to a boundary. -/
structure Span.Fits (file : String) (boundary : Nat → Prop) (s : Span) : Prop where
  file : s.file = file
  start_lt : s.start < s.stop
  start : boundary s.start
  stop : boundary s.stop

/-- The spans of the nodes of a tree. Children are in the order in which they are written. -/
inductive SpanTree where
  | node (span : Span) (children : List SpanTree)

namespace SpanTree

/-- The span of the whole tree. -/
def span : SpanTree → Span
  | node s _ => s

/-- The spans fit. The spans of children lie inside the span of their node, in their order and
without an overlap. -/
inductive Sound (file : String) (boundary : Nat → Prop) : SpanTree → Prop where
  | node {span : Span} {children : List SpanTree} : span.Fits file boundary →
      (∀ t ∈ children, Sound file boundary t) →
      (∀ t ∈ children, span.start ≤ t.span.start ∧ t.span.stop ≤ span.stop) →
      children.Pairwise (fun t u => t.span.stop ≤ u.span.start) →
      Sound file boundary (.node span children)

/-- All spans of the tree satisfy `P`. -/
inductive All (P : Span → Prop) : SpanTree → Prop where
  | node {span : Span} {children : List SpanTree} : P span → (∀ t ∈ children, All P t) →
      All P (.node span children)

/-- The trees are sound and lie one behind the other between two places. -/
inductive Laid (file : String) (boundary : Nat → Prop) : Nat → List SpanTree → Nat → Prop where
  | nil {lo hi : Nat} : lo ≤ hi → Laid file boundary lo [] hi
  | cons {lo hi : Nat} {t : SpanTree} {ts : List SpanTree} : lo ≤ t.span.start →
      t.Sound file boundary → Laid file boundary t.span.stop ts hi →
      Laid file boundary lo (t :: ts) hi

variable {file : String} {boundary : Nat → Prop} {lo lo' mid hi hi' : Nat} {t : SpanTree}
  {ts us : List SpanTree} {s : Span} {P : Span → Prop}

theorem Sound.fits (h : t.Sound file boundary) : t.span.Fits file boundary := by
  cases h with
  | node hfits => exact hfits

theorem Sound.all (h : t.Sound file boundary) (hP : ∀ s : Span, s.Fits file boundary → P s) :
    t.All P := by
  induction h with
  | node hfits _ _ _ ih => exact .node (hP _ hfits) ih

theorem All.root (h : t.All P) : P t.span := by
  cases h with
  | node hspan => exact hspan

theorem All.children (h : (SpanTree.node s ts).All P) : ∀ t ∈ ts, t.All P := by
  cases h with
  | node _ hchildren => exact hchildren

namespace Laid

theorem le (h : Laid file boundary lo ts hi) : lo ≤ hi := by
  induction h with
  | nil hle => exact hle
  | cons hlo ht _ ih =>
    have hlt := ht.fits.start_lt
    omega

theorem lt (h : Laid file boundary lo (t :: ts) hi) : lo < hi := by
  cases h with
  | cons hlo ht hts =>
    have hlt := ht.fits.start_lt
    have hle := hts.le
    omega

theorem mono (h : Laid file boundary lo ts hi) (hlo : lo' ≤ lo) (hhi : hi ≤ hi') :
    Laid file boundary lo' ts hi' := by
  induction h generalizing lo' with
  | nil hle => exact .nil (by omega)
  | cons hle ht _ ih => exact .cons (by omega) ht (ih (Nat.le_refl _) hhi)

theorem append (h : Laid file boundary lo ts mid) (h' : Laid file boundary mid us hi) :
    Laid file boundary lo (ts ++ us) hi := by
  induction h with
  | nil hle => exact h'.mono hle (Nat.le_refl _)
  | cons hle ht _ ih => exact .cons hle ht (ih h')

/-- Nothing lies behind the end of the last tree. -/
theorem upToLast (h : Laid file boundary lo ts hi) (hs : (ts.map span).getLast? = some s) :
    Laid file boundary lo ts s.stop ∧ s.Fits file boundary ∧ s.stop ≤ hi := by
  induction h with
  | nil => cases hs
  | @cons _ _ t ts hle ht hts ih =>
    cases ts with
    | nil =>
      cases hs
      exact ⟨.cons hle ht (.nil (Nat.le_refl _)), ht.fits, hts.le⟩
    | cons u us =>
      obtain ⟨hlast, hfits, hstop⟩ := ih (by simpa using hs)
      exact ⟨.cons hle ht hlast, hfits, hstop⟩

theorem sound (h : Laid file boundary lo ts hi) : ∀ t ∈ ts, t.Sound file boundary := by
  induction h with
  | nil => exact List.forall_mem_nil _
  | cons _ ht _ ih => exact List.forall_mem_cons.2 ⟨ht, ih⟩

theorem within (h : Laid file boundary lo ts hi) :
    ∀ t ∈ ts, lo ≤ t.span.start ∧ t.span.stop ≤ hi := by
  induction h with
  | nil => exact List.forall_mem_nil _
  | cons hle ht hts ih =>
    refine List.forall_mem_cons.2 ⟨⟨hle, hts.le⟩, fun u hu => ?_⟩
    have hlt := ht.fits.start_lt
    obtain ⟨hstart, hstop⟩ := ih u hu
    exact ⟨by omega, hstop⟩

theorem ordered (h : Laid file boundary lo ts hi) :
    ts.Pairwise (fun t u => t.span.stop ≤ u.span.start) := by
  induction h with
  | nil => exact .nil
  | cons _ _ hts ih => exact .cons (fun u hu => (hts.within u hu).1) ih

/-- A node whose children lie inside its span is sound. -/
theorem node (h : Laid file boundary s.start ts s.stop) (hs : s.Fits file boundary)
    (hlo : lo ≤ s.start) (hhi : s.stop ≤ hi) : Laid file boundary lo [.node s ts] hi :=
  .cons hlo (.node hs h.sound h.within h.ordered) (.nil hhi)

/-- A node that goes from the start of its first child to the end of its last. -/
theorem enclose (h : Laid file boundary lo (t :: ts) hi)
    (hs : ((t :: ts).map span).getLast? = some s) :
    Laid file boundary lo [.node (t.span.through s) (t :: ts)] hi := by
  obtain ⟨hlast, hfits, hstop⟩ := h.upToLast hs
  cases hlast with
  | cons hle ht hts =>
    have hinner : Laid file boundary t.span.start (t :: ts) s.stop :=
      .cons (Nat.le_refl _) ht hts
    exact node hinner ⟨ht.fits.file, hinner.lt, ht.fits.start, hfits.stop⟩ hle hstop

end Laid

end SpanTree

open SpanTree

/-! ### Rows of tokens -/

/-- A token of the named text that goes from a boundary to a boundary. It is not empty if it is
written. -/
structure Token.Stands (file : String) (boundary : Nat → Prop) (t : Token) : Prop where
  file : t.span.file = file
  start_le : t.span.start ≤ t.span.stop
  start : boundary t.span.start
  stop : boundary t.span.stop
  start_lt : t.kind.isLayout = false → t.kind ≠ .eof → t.span.start < t.span.stop

theorem Token.Stands.fits {file : String} {boundary : Nat → Prop} {t : Token} {kind : TokenKind}
    (h : t.Stands file boundary) (hk : t.kind = kind)
    (hwritten : kind.isLayout = false ∧ kind ≠ .eof) : t.span.Fits file boundary := by
  subst hk
  exact ⟨h.file, h.start_lt hwritten.1 hwritten.2, h.start, h.stop⟩

namespace Cursor

/-- Where the current token begins. -/
def here (c : Cursor) : Nat := c.current.span.start

/-- The tokens from the cursor on stand in order. -/
structure Aligned (file : String) (boundary : Nat → Prop) (c : Cursor) : Prop where
  stands : ∀ t ∈ c.row, t.Stands file boundary
  ordered : c.row.Pairwise (fun t u => t.span.stop ≤ u.span.start)

theorem head?_row (c : Cursor) : c.row.head? = some c.current := by
  obtain ⟨_ | ⟨t, ts⟩, v, s⟩ := c <;> rfl

namespace Aligned

variable {file : String} {boundary : Nat → Prop} {c c' : Cursor} {t : Token} {hi : Nat}
  {ts : List SpanTree} {s : Span}

theorem suffix (h : c.Aligned file boundary) (hrow : c'.row <:+ c.row) :
    c'.Aligned file boundary :=
  ⟨fun t ht => h.stands t (hrow.subset ht), h.ordered.sublist hrow.sublist⟩

theorem current (h : c.Aligned file boundary) : c.current.Stands file boundary :=
  h.stands _ c.current_mem_row

theorem rest (h : (c.push t).Aligned file boundary) : c.Aligned file boundary :=
  h.suffix row_push

theorem stop_le (h : (c.push t).Aligned file boundary) : t.span.stop ≤ c.here :=
  List.rel_of_pairwise_cons h.ordered c.current_mem_row

theorem start_le (h : (c.push t).Aligned file boundary) : t.span.start ≤ c.here :=
  Nat.le_trans h.current.start_le h.stop_le

/-- Later tokens begin later. -/
theorem here_le (h : c.Aligned file boundary) (hrow : c'.row <:+ c.row) : c.here ≤ c'.here := by
  obtain ⟨front, hfront⟩ := hrow
  have hhead := c.head?_row
  have hordered := h.ordered
  rw [← hfront] at hhead hordered
  cases front with
  | nil =>
    have hcurrent : c'.current = c.current := Option.some.inj (c'.head?_row.symm.trans hhead)
    exact Nat.le_of_eq (congrArg (·.span.start) hcurrent.symm)
  | cons t front =>
    cases hhead
    have hle := List.rel_of_pairwise_cons hordered
      (List.mem_append_right front c'.current_mem_row)
    exact Nat.le_trans h.current.start_le hle

/-- A node without children that is read from one token. -/
theorem leaf {kind : TokenKind} (h : (c.push t).Aligned file boundary) (hk : t.kind = kind)
    (hwritten : kind.isLayout = false ∧ kind ≠ .eof) :
    Laid file boundary t.span.start [.node t.span []] c.here :=
  have hfits := h.current.fits hk hwritten
  .node (.nil (Nat.le_of_lt hfits.start_lt)) hfits (Nat.le_refl _) h.stop_le

/-- A node that goes from the current token to the end of its last child. -/
theorem headed (h : c.Aligned file boundary) (hts : Laid file boundary c.here ts hi)
    (hs : (ts.map span).getLast? = some s) :
    Laid file boundary c.here [.node (c.current.span.through s) ts] hi := by
  obtain ⟨hlast, hfits, hstop⟩ := hts.upToLast hs
  cases ts with
  | nil => cases hs
  | cons t ts =>
    exact hlast.node ⟨h.current.file, hlast.lt, h.current.start, hfits.stop⟩ (Nat.le_refl _) hstop

/-- A node that goes from one token up to another. -/
theorem upTo (h : c.Aligned file boundary) (h' : c'.Aligned file boundary)
    (hts : Laid file boundary c.here ts c'.here) (hlt : c.here < c'.here) :
    Laid file boundary c.here [.node (c.current.span.upTo c'.current.span) ts] c'.here :=
  hts.node ⟨h.current.file, hlt, h.current.start, h'.current.start⟩ (Nat.le_refl _) (Nat.le_refl _)

/-- A node that goes from the start of `s` to the end of the token that closes it. -/
theorem closed {kind : TokenKind} {lo : Nat} (h : (c.push t).Aligned file boundary)
    (hk : t.kind = kind) (hwritten : kind.isLayout = false ∧ kind ≠ .eof) (hfile : s.file = file)
    (hstart : boundary s.start) (hlo : lo ≤ s.start)
    (hts : Laid file boundary s.start ts t.span.start) :
    Laid file boundary lo [.node (s.through t.span) ts] c.here := by
  have hfits := h.current.fits hk hwritten
  have hlt : s.start < t.span.stop := Nat.lt_of_le_of_lt hts.le hfits.start_lt
  have hinner := hts.mono (Nat.le_refl _) (Nat.le_of_lt hfits.start_lt)
  exact hinner.node ⟨hfile, hlt, hstart, hfits.stop⟩ hlo h.stop_le

end Aligned

end Cursor

/-! ### Expressions -/

namespace Expr

mutual

/-- The spans of an expression. -/
def tree : Expr → SpanTree
  | name _ s | constant _ s => .node s []
  | list elements s => .node s (treeAll elements)
  | compare left _ comparators s => .node s (left.tree :: treeAll comparators)
  | binary left _ right s => .node s [left.tree, right.tree]
  | unary _ operand s => .node s [operand.tree]
  | boolOp _ values s => .node s (treeAll values)
  | subscript value slice s => .node s [value.tree, slice.tree]
  | call _ arguments s => .node s (treeAll arguments)

/-- The spans of several expressions. -/
def treeAll : List Expr → List SpanTree
  | [] => []
  | e :: es => e.tree :: treeAll es

end

theorem treeAll_eq_map (es : List Expr) : treeAll es = es.map tree := by
  induction es with
  | nil => rfl
  | cons e es ih => rw [treeAll, ih, List.map_cons]

theorem span_tree (e : Expr) : e.tree.span = e.span := by
  cases e <;> rw [tree] <;> rfl

theorem getLast?_trees (e : Expr) (es : List Expr) :
    (((e :: es).map tree).map SpanTree.span).getLast? = some (es.getLastD e).span := by
  rw [List.map_map, List.getLast?_map, List.getLast?_cons, ← List.getLastD_eq_getLast?]
  exact congrArg some (span_tree _)

variable {g : Grammar} {file : String} {boundary : Nat → Prop}

/-- What is read between two cursors lies between their tokens. What continues an expression lies
behind it, wherever that begins. -/
def Phrase.Spanned (file : String) (boundary : Nat → Prop) : Phrase → Cursor → Cursor → Prop
  | .expr _ e, c, c' | .head _ e, c, c' => Laid file boundary c.here [e.tree] c'.here
  | .rest _ left e, c, c' | .tail _ _ left e, c, c' =>
    ∀ lo, Laid file boundary lo [left.tree] c.here → Laid file boundary lo [e.tree] c'.here
  | .items _ es, c, c' | .links _ _ es, c, c' | .operands _ _ es, c, c' =>
    Laid file boundary c.here (es.map tree) c'.here

/-- The operands of a chain or a run lie behind the first one. -/
theorem laid_operands {left e : Expr} {es : List Expr} {lo mid hi : Nat}
    (hleft : Laid file boundary lo [left.tree] mid)
    (hes : Laid file boundary mid ((e :: es).map tree) hi) :
    Laid file boundary lo
      [.node (left.span.through (es.getLastD e).span) (left.tree :: treeAll (e :: es))] hi := by
  rw [treeAll_eq_map, ← left.span_tree]
  exact (hleft.append hes).enclose (List.getLast?_cons_cons.trans (getLast?_trees e es))

/-- **An expression lies between its tokens.** -/
theorem Derives.spanned {p : Phrase} {c c' : Cursor} (h : Derives g p c c')
    (hc : c.Aligned file boundary) : p.Spanned file boundary c c' := by
  induction h with
  | expr _ hhead _ ihh ihr => exact ihr (hc.suffix hhead.row) _ (ihh hc)
  | number hk _ => exact hc.leaf hk (by decide)
  | @truth _ b _ hk => cases b <;> exact hc.leaf hk (by decide)
  | name hk => exact hc.leaf hk (by decide)
  | @operator _ _ e _ _ _ _ ih =>
    have hoperand := (ih hc.rest).mono hc.start_le (Nat.le_refl _)
    exact hc.headed hoperand (congrArg some e.span_tree)
  | grouping _ hexpr ih =>
    have hclose := hc.rest.suffix hexpr.row
    exact (ih hc.rest).mono hc.start_le hclose.start_le
  | @list t _ es _ _ hk hitems ih =>
    have hclose := hc.rest.suffix hitems.row
    have hes := (ih hc.rest).mono hc.start_le (Nat.le_refl _)
    rw [← treeAll_eq_map] at hes
    exact hclose.closed hk (by decide) hc.current.file hc.current.start (Nat.le_refl _) hes
  | stop => exact fun _ hleft => hleft
  | go _ _ htail _ iht ihr => exact fun lo hleft => ihr (hc.suffix htail.row) lo (iht hc lo hleft)
  | @binary _ _ _ left right _ _ _ _ ih =>
    intro lo hleft
    have hright := (ih hc.rest).mono hc.start_le (Nat.le_refl _)
    have hnode := (hleft.append hright).enclose (congrArg some right.span_tree)
    rwa [left.span_tree] at hnode
  | compare _ ih => exact fun lo hleft => laid_operands hleft (ih hc)
  | boolOp _ _ ih => exact fun lo hleft => laid_operands hleft (ih hc)
  | @call t _ _ callee args span _ _ hk hitems ih =>
    intro lo hleft
    have hclose := hc.rest.suffix hitems.row
    cases hleft with
    | cons hlo hname hstop =>
      have hfits : span.Fits file boundary := hname.fits
      have hstart : span.start ≤ Cursor.here _ :=
        Nat.le_trans (Nat.le_of_lt hfits.start_lt) (Nat.le_trans hstop.le hc.start_le)
      have hargs := (ih hc.rest).mono hstart (Nat.le_refl _)
      rw [← treeAll_eq_map] at hargs
      exact hclose.closed hk (by decide) hfits.file hfits.start hlo hargs
  | @subscript t _ _ left slice _ _ hk hexpr ih =>
    intro lo hleft
    have hclose := hc.rest.suffix hexpr.row
    cases hleft with
    | cons hlo hsound hstop =>
      have hslice := (ih hc.rest).mono hc.start_le (Nat.le_refl _)
      have hfits := hsound.fits
      have hboth := Laid.append (.cons (Nat.le_refl _) hsound hstop) hslice
      rw [left.span_tree] at hboth hfits hlo
      exact hclose.closed hk (by decide) hfits.file hfits.start hlo hboth
  | itemsNil | linksNil | operandsNil => exact .nil (Nat.le_refl _)
  | itemsLast _ _ _ ih => exact ih hc
  | itemsCons _ _ hexpr _ ihe ihs =>
    have hcomma := hc.suffix hexpr.row
    exact (ihe hc).append ((ihs hcomma.rest).mono hcomma.start_le (Nat.le_refl _))
  | linksCons _ hexpr _ ihe ihs =>
    have hlaid := (ihe hc.rest).append (ihs (hc.rest.suffix hexpr.row))
    exact hlaid.mono hc.start_le (Nat.le_refl _)
  | operandsCons hexpr _ ihe ihs =>
    have hlaid := (ihe hc.rest).append (ihs (hc.rest.suffix hexpr.row))
    exact hlaid.mono hc.start_le (Nat.le_refl _)

theorem Derives.laid {power : Power} {e : Expr} {c c' : Cursor}
    (h : Derives g (.expr power e) c c') (hc : c.Aligned file boundary) :
    Laid file boundary c.here [e.tree] c'.here :=
  h.spanned hc

end Expr

/-! ### Statements -/

namespace Stmt

mutual

/-- The spans of a statement. -/
def tree : Stmt → SpanTree
  | assign targets value s => .node s (targets.map Expr.tree ++ [value.tree])
  | augAssign target _ value s => .node s [target.tree, value.tree]
  | ifThen test body orelse s => .node s (test.tree :: (treeAll body ++ treeAll orelse))
  | whileLoop test body orelse s => .node s (test.tree :: (treeAll body ++ treeAll orelse))
  | ret value s => .node s (value.toList.map Expr.tree)
  | expression e s => .node s [e.tree]

/-- The spans of several statements. -/
def treeAll : List Stmt → List SpanTree
  | [] => []
  | s :: ss => s.tree :: treeAll ss

end

theorem treeAll_eq_map (ss : List Stmt) : treeAll ss = ss.map tree := by
  induction ss with
  | nil => rfl
  | cons s ss ih => rw [treeAll, ih, List.map_cons]

variable {g : Grammar} {file : String} {boundary : Nat → Prop}

theorem Assigned.row {ts : List Expr} {v : Expr} {c c' : Cursor} (h : Assigned g ts v c c') :
    c'.row <:+ c.row := by
  induction h with
  | value _ hv => exact hv.row
  | target _ he _ ih => exact ih.trans (Cursor.row_push.trans he.row)

theorem Assigned.spanned {ts : List Expr} {v : Expr} {c c' : Cursor} (h : Assigned g ts v c c')
    (hc : c.Aligned file boundary) :
    Laid file boundary c.here (ts.map Expr.tree ++ [v.tree]) c'.here := by
  induction h with
  | value _ hv => exact hv.laid hc
  | target _ he _ ih =>
    have hequals := hc.suffix he.row
    have hlater := (ih hequals.rest).mono hequals.start_le (Nat.le_refl _)
    exact (he.laid hc).append hlater

theorem Derives.row {p : Phrase} {c c' : Cursor} (h : Derives g p c c') : c'.row <:+ c.row := by
  induction h with
  | assign _ _ _ hassigned => exact Cursor.row_push.trans hassigned.row
  | augAssign _ _ _ _ he hv =>
    have hvalue := Cursor.row_push.trans hv.row
    exact hvalue.trans (Cursor.row_push.trans he.row)
  | expression _ _ he => exact Cursor.row_push.trans he.row
  | retNone => exact Cursor.row_push.trans Cursor.row_push
  | retSome _ _ _ he =>
    exact Cursor.row_push.trans (he.row.trans Cursor.row_push)
  | whileLoop _ htest _ _ ihb iho | ifThen _ htest _ _ ihb iho | ifElif _ htest _ _ ihb iho =>
    exact iho.trans (ihb.trans (htest.row.trans Cursor.row_push))
  | conditional _ _ ih => exact ih
  | suiteBlock _ _ _ _ _ ih =>
    have hblock := Cursor.row_push.trans ih
    exact hblock.trans (Cursor.row_push.trans (Cursor.row_push.trans Cursor.row_push))
  | suiteLine _ _ _ ih | orelseSuite _ _ ih => exact ih.trans Cursor.row_push
  | blockNil | orelseNil => exact List.suffix_refl _
  | blockCons _ _ _ _ ihs ihss => exact ihss.trans ihs

/-- What is read between two cursors lies between their tokens. -/
def Phrase.Spanned (file : String) (boundary : Nat → Prop) : Phrase → Cursor → Cursor → Prop
  | .stmt s, c, c' | .conditional s, c, c' => Laid file boundary c.here [s.tree] c'.here
  | .suite ss, c, c' | .block ss, c, c' | .orelse ss, c, c' =>
    Laid file boundary c.here (ss.map tree) c'.here

/-- A conditional or a loop goes up to the token behind its branches. -/
theorem laid_branches {t : Token} {test : Expr} {body orelse : List Stmt} {c c₁ c₂ c₃ : Cursor}
    (hc : (c.push t).Aligned file boundary) (hc₃ : c₃.Aligned file boundary)
    (htest : Laid file boundary c.here [test.tree] c₁.here)
    (hbody : Laid file boundary c₁.here (body.map tree) c₂.here)
    (horelse : Laid file boundary c₂.here (orelse.map tree) c₃.here) :
    Laid file boundary t.span.start
      [.node (t.span.upTo c₃.current.span) (test.tree :: (treeAll body ++ treeAll orelse))]
      c₃.here := by
  rw [treeAll_eq_map, treeAll_eq_map]
  have hall := (htest.append (hbody.append horelse)).mono hc.start_le (Nat.le_refl _)
  exact hc.upTo hc₃ hall hall.lt

/-- **A statement lies between its tokens.** -/
theorem Derives.spanned {p : Phrase} {c c' : Cursor} (h : Derives .standard p c c')
    (hc : c.Aligned file boundary) : p.Spanned file boundary c c' := by
  induction h with
  | @assign _ _ _ v _ _ _ _ _ hassigned =>
    have hend := hc.suffix hassigned.row
    have hall := (hassigned.spanned hc).mono (Nat.le_refl _) hend.start_le
    refine hc.headed hall ?_
    rw [List.map_append, List.map_singleton, List.getLast?_concat, v.span_tree]
  | @augAssign _ _ _ _ v _ _ _ _ _ _ _ he hv =>
    have hop := hc.suffix he.row
    have hend := hop.rest.suffix hv.row
    have hvalue := (hv.laid hop.rest).mono hop.start_le hend.start_le
    exact hc.headed ((he.laid hc).append hvalue) (congrArg some v.span_tree)
  | @expression _ e _ _ _ _ he =>
    have hend := hc.suffix he.row
    have hnode := (he.laid hc).enclose (congrArg some e.span_tree)
    rw [e.span_tree] at hnode
    exact hnode.mono (Nat.le_refl _) hend.start_le
  | @retNone t _ _ hk _ =>
    have hreturn : t.kind = .returnWord := by
      generalize t.kind = kind at hk
      cases kind <;> first | rfl | cases hk
    exact (hc.leaf hreturn (by decide)).mono (Nat.le_refl _) hc.rest.start_le
  | @retSome _ _ e _ _ _ _ _ he =>
    have hend := hc.rest.suffix he.row
    have hvalue := (he.laid hc.rest).mono hc.start_le hend.start_le
    exact hc.headed hvalue (congrArg some e.span_tree)
  | whileLoop _ htest hbody horelse ihb iho | ifThen _ htest hbody horelse ihb iho
  | ifElif _ htest hbody horelse ihb iho =>
    have hbodyStart := hc.rest.suffix htest.row
    have helseStart := hbodyStart.suffix hbody.row
    exact laid_branches hc (helseStart.suffix horelse.row) (htest.laid hc.rest)
      (ihb hbodyStart) (iho helseStart)
  | conditional _ _ ih => exact ih hc
  | suiteBlock _ _ _ _ hblock ih =>
    have hstart := hc.rest.rest.rest
    have hbefore := Nat.le_trans hc.start_le (Nat.le_trans hc.rest.start_le hc.rest.rest.start_le)
    exact (ih hstart).mono hbefore (hstart.suffix hblock.row).start_le
  | suiteLine _ _ _ ih => exact (ih hc.rest).mono hc.start_le (Nat.le_refl _)
  | blockNil | orelseNil => exact .nil (Nat.le_refl _)
  | blockCons _ _ hs _ ihs ihss => exact Laid.append (ihs hc) (ihss (hc.suffix hs.row))
  | orelseSuite _ _ ih => exact (ih hc.rest).mono hc.start_le (Nat.le_refl _)

end Stmt

/-! ### Functions -/

theorem Reading.Syntactic.row {α : Type} {n : Nat} {c c' : Cursor} {r : Reading α n} {a : α}
    (hr : r.Syntactic c) (h : r.Gives a c') : c'.row <:+ c.row := by
  obtain ⟨hsize, hok⟩ := h
  exact hr.stops _ hok

/-- The span of a parameter. -/
def Param.tree (p : Param) : SpanTree := .node p.span []

/-- The spans of a function. -/
def FunctionDef.tree (f : FunctionDef) : SpanTree :=
  .node f.span (f.params.map Param.tree ++ f.body.map Stmt.tree)

section

variable {file : String} {boundary : Nat → Prop} {c c' : Cursor}

theorem Param.spanned_of_parse {p : Param} (h : (Param.parse .standard c).Gives p c')
    (hc : c.Aligned file boundary) : Laid file boundary c.here [p.tree] c'.here := by
  have hc' := hc.suffix ((Param.syntactic_parse c).row h)
  obtain ⟨t, c₁, hk, rfl, hrest⟩ := Param.gives_parse.1 h
  have hlt : t.span.start < t.span.stop := (hc.current.fits hk (by decide)).start_lt
  have hnode (hle : c₁.here ≤ c'.here) :
      Laid file boundary t.span.start [.node (t.span.upTo c'.current.span) []] c'.here := by
    have hstart : t.span.start < c'.here :=
      Nat.lt_of_lt_of_le hlt (Nat.le_trans hc.stop_le hle)
    exact hc.upTo hc' (.nil (Nat.le_of_lt hstart)) hstart
  rcases hrest with ⟨-, rfl, rfl⟩ | ⟨t', c₂, a, -, rfl, ha, rfl⟩
  · exact hnode (Nat.le_refl _)
  · have hrow := (TypeExpr.syntactic_parse .default c₂).row ha
    exact hnode (hc.rest.here_le (hrow.trans Cursor.row_push))

theorem Param.spanned_of_parseAll {ps : List Param} (h : (Param.parseAll .standard c).Gives ps c')
    (hc : c.Aligned file boundary) : Laid file boundary c.here (ps.map Param.tree) c'.here := by
  induction ps generalizing c with
  | nil =>
    rcases Param.gives_parseAll.1 h with
      ⟨-, -, rfl⟩ | ⟨-, p, ⟨_, _, _, -, -, -, hps⟩ | ⟨-, -, -, hps⟩⟩
    · exact .nil (Nat.le_refl _)
    · cases hps
    · cases hps
  | cons p ps ih =>
    rcases Param.gives_parseAll.1 h with ⟨-, hps, -⟩ | ⟨-, p', ⟨c₁, t, ps', -, hp, hrest, hps⟩ |
      ⟨-, -, hp, hps⟩⟩
    · cases hps
    · cases hps
      have hcomma := hc.suffix ((Param.syntactic_parse c).row hp)
      have hlater := (ih hrest hcomma.rest).mono hcomma.start_le (Nat.le_refl _)
      exact (Param.spanned_of_parse hp hc).append hlater
    · cases hps
      exact Param.spanned_of_parse hp hc

/-- **A function lies between its tokens.** -/
theorem FunctionDef.spanned_of_parse {f : FunctionDef}
    (h : (FunctionDef.parse .standard c).Gives f c') (hc : c.Aligned file boundary) :
    Laid file boundary c.here [f.tree] c'.here := by
  have hc' := hc.suffix ((FunctionDef.syntactic_parse c).row h)
  obtain ⟨t₀, t₁, t₂, t₃, c₁, c₂, c₃, params, returns, body, hk, -, -, -, rfl, hparams, hreturns,
    hbody, rfl⟩ := FunctionDef.gives_parse.1 h
  have hopen := hc.rest.rest.rest
  have hclose := hopen.suffix ((Param.syntactic_parseAll c₁).row hparams)
  have hrow := (FunctionDef.syntactic_parseReturns c₂).row hreturns
  have hcolon := hclose.rest.suffix hrow
  have hbetween := Nat.le_trans hclose.start_le (hclose.rest.here_le hrow)
  have hlaid := (Param.spanned_of_parseAll hparams hopen).append
    (Laid.mono (hbody.spanned hcolon) hbetween (Nat.le_refl _))
  have hbefore := Nat.le_trans hc.rest.start_le hc.rest.rest.start_le
  have hlt : t₀.span.start < c'.here := by
    have hword := (hc.current.fits hk (by decide)).start_lt
    have hname := hc.stop_le
    have hend := hlaid.le
    exact Nat.lt_of_lt_of_le hword (Nat.le_trans hname (Nat.le_trans hbefore hend))
  exact hc.upTo hc' (hlaid.mono (Nat.le_trans hc.start_le hbefore) (Nat.le_refl _)) hlt

/-- **Functions lie one behind the other between their tokens.** -/
theorem Program.spanned_of_parseFunctions {fs : List FunctionDef}
    (h : (Program.parseFunctions .standard c).result = .ok fs) (hc : c.Aligned file boundary) :
    ∃ hi, Laid file boundary c.here (fs.map FunctionDef.tree) hi := by
  induction fs generalizing c with
  | nil => exact ⟨c.here, .nil (Nat.le_refl _)⟩
  | cons f fs ih =>
    rcases Program.parseFunctions_eq_ok.1 h with ⟨-, hfs⟩ | ⟨f', c₁, fs', hf, hrest, hfs⟩
    · cases hfs
    · cases hfs
      have hstart := hc.suffix c.row_skipNewlines
      have hnext := hstart.suffix ((FunctionDef.syntactic_parse c.skipNewlines).row hf)
      obtain ⟨hi, hlater⟩ := ih hrest hnext
      have hlaid := (FunctionDef.spanned_of_parse hf hstart).append hlater
      exact ⟨hi, hlaid.mono (hc.here_le c.row_skipNewlines) (Nat.le_refl _)⟩

/-! ### Types -/

/-- The types that are written in a function. -/
def FunctionDef.annotations (f : FunctionDef) : List TypeExpr :=
  f.params.filterMap Param.type ++ f.returns.toList

theorem TypeExpr.position_of_parseRest {base a : TypeExpr}
    (h : (TypeExpr.parseRest .standard .default base c).Gives a c') :
    a.position = base.position := by
  induction hn : c.size using Nat.strongRecOn generalizing base c with
  | ind n ih =>
    by_cases hk : c.kind = .openBracket
    · obtain ⟨c₀, hc⟩ := Cursor.exists_push_of_kind hk (by decide)
      rw [hc] at h hn
      obtain ⟨as, c₁, t', -, has, ha⟩ := (TypeExpr.gives_parseRest_go hk).1 h
      have hlt : c₁.size < n := by
        have hsize := has.size_lt
        rw [Cursor.size_push] at hsize hn
        omega
      have happlied := ih _ hlt ha rfl
      exact happlied
    · obtain ⟨rfl, -⟩ := (TypeExpr.gives_parseRest_stop hk).1 h
      rfl

theorem TypeExpr.begins_of_parse {a : TypeExpr}
    (h : (TypeExpr.parse .standard .default c).Gives a c') :
    ∃ t ∈ c.row, a.position = t.span.position := by
  obtain ⟨t, c₁, -, rfl, hrest⟩ := TypeExpr.gives_parse.1 h
  exact ⟨t, List.mem_cons_self, TypeExpr.position_of_parseRest hrest⟩

theorem Param.begins_of_parse {p : Param} (h : (Param.parse .standard c).Gives p c') :
    ∀ a ∈ p.type, ∃ t ∈ c.row, a.position = t.span.position := by
  obtain ⟨t, c₁, -, rfl, ⟨-, -, rfl⟩ | ⟨t', c₂, a, -, rfl, ha, rfl⟩⟩ := Param.gives_parse.1 h
  · exact nofun
  · rintro _ ⟨⟩
    obtain ⟨first, hfirst, hposition⟩ := TypeExpr.begins_of_parse ha
    exact ⟨first, List.mem_cons_of_mem t (List.mem_cons_of_mem t' hfirst), hposition⟩

theorem Param.begins_of_parseAll {ps : List Param} (h : (Param.parseAll .standard c).Gives ps c') :
    ∀ p ∈ ps, ∀ a ∈ p.type, ∃ t ∈ c.row, a.position = t.span.position := by
  induction ps generalizing c with
  | nil => exact List.forall_mem_nil _
  | cons p ps ih =>
    rcases Param.gives_parseAll.1 h with ⟨-, hps, -⟩ | ⟨-, p', ⟨c₁, t, ps', -, hp, hrest, hps⟩ |
      ⟨-, -, hp, hps⟩⟩
    · cases hps
    · cases hps
      refine List.forall_mem_cons.2 ⟨Param.begins_of_parse hp, fun q hq a ha => ?_⟩
      obtain ⟨first, hfirst, hposition⟩ := ih hrest q hq a ha
      have hrow := (Param.syntactic_parse c).row hp
      exact ⟨first, hrow.subset (List.mem_cons_of_mem t hfirst), hposition⟩
    · cases hps
      exact List.forall_mem_singleton.2 (Param.begins_of_parse hp)

/-- **The types of a function begin at its tokens.** -/
theorem FunctionDef.begins_of_parse {f : FunctionDef}
    (h : (FunctionDef.parse .standard c).Gives f c') :
    ∀ a ∈ f.annotations, ∃ t ∈ c.row, a.position = t.span.position := by
  obtain ⟨t₀, t₁, t₂, t₃, c₁, c₂, c₃, params, returns, body, -, -, -, -, rfl, hparams, hreturns,
    hbody, rfl⟩ := FunctionDef.gives_parse.1 h
  have hopen : c₁.row <:+ (((c₁.push t₂).push t₁).push t₀).row :=
    Cursor.row_push.trans (Cursor.row_push.trans Cursor.row_push)
  intro a ha
  rcases List.mem_append.1 ha with ha | ha
  · obtain ⟨p, hp, ha⟩ := List.mem_filterMap.1 ha
    obtain ⟨first, hfirst, hposition⟩ := Param.begins_of_parseAll hparams p hp a ha
    exact ⟨first, hopen.subset hfirst, hposition⟩
  · have hclose := Cursor.row_push.trans ((Param.syntactic_parseAll c₁).row hparams)
    rcases FunctionDef.gives_parseReturns.1 hreturns with ⟨-, rfl, -⟩ | ⟨t, c₄, b, -, rfl, hb, rfl⟩
    · cases ha
    · obtain rfl := List.mem_singleton.1 ha
      obtain ⟨first, hfirst, hposition⟩ := TypeExpr.begins_of_parse hb
      exact ⟨first, hopen.subset (hclose.subset (List.mem_cons_of_mem t hfirst)), hposition⟩

/-- Every function of a program is read from some place on. -/
theorem Program.exists_parse_of_mem {fs : List FunctionDef}
    (h : (Program.parseFunctions .standard c).result = .ok fs) {f : FunctionDef} (hf : f ∈ fs) :
    ∃ c₁ c₂, c₁.row <:+ c.row ∧ (FunctionDef.parse .standard c₁).Gives f c₂ := by
  induction fs generalizing c with
  | nil => cases hf
  | cons f' fs ih =>
    rcases Program.parseFunctions_eq_ok.1 h with ⟨-, hfs⟩ | ⟨_, c₁, _, hparse, hrest, hfs⟩
    · cases hfs
    · cases hfs
      have hrow := c.row_skipNewlines
      rcases List.mem_cons.1 hf with rfl | hf
      · exact ⟨c.skipNewlines, c₁, hrow, hparse⟩
      · obtain ⟨c₂, c₃, hrow', hgives⟩ := ih hrest hf
        have hlater := hrow'.trans ((FunctionDef.syntactic_parse c.skipNewlines).row hparse)
        exact ⟨c₂, c₃, hlater.trans hrow, hgives⟩

end

end DefToC
