import DefToC.Proofs.Function.ReturnTypes
import DefToC.Proofs.Source.ErrorOrigins
import DefToC.Proofs.Token.Coverage
import DefToC.Proofs.Typed.ErrorPlaces
import Mathlib

/-!
# Places in a source text

Tokens begin and end at characters of the source and stand in order, so the spans of a tree do too.
An error is where a token or a node begins, where the scanner stands, or at the start of the source.
So every place that is told to the user is one of the source text: it has the name of the text and
is in front of a character or at the end.
-/

namespace DefToC

/-! ### Tokens -/

theorem byteLength_pos {cs : List Char} (h : cs ≠ []) : 0 < byteLength cs := by
  cases cs with
  | nil => exact absurd rfl h
  | cons c cs => exact Nat.add_pos_left c.utf8Size_pos _

theorem Slice.start_lt {source : String} {start stop : Nat} {cs : List Char}
    (h : Slice source start stop cs) (hne : cs ≠ []) : start < stop := by
  obtain ⟨rest, hstart, hstop⟩ := h
  have hpos := byteLength_pos hne
  have hwhole := hstart.offset_add
  have hrest := hstop.offset_add
  rw [byteLength_append] at hwhole
  omega

/-- A place of the named text, in front of a character or at the end. -/
structure Position.InText (source file : String) (p : Position) : Prop where
  file : p.file = file
  text : ∃ cs, TextFrom source p.offset cs

theorem Position.InText.offset_le {source file : String} {p : Position} (h : p.InText source file) :
    p.offset ≤ byteLength source.toList := by
  obtain ⟨cs, hcs⟩ := h.text
  have hwhole := hcs.offset_add
  omega

/-- The places where tokens begin and end. -/
def TokenBoundary (tokens : List Token) (offset : Nat) : Prop :=
  ∃ t ∈ tokens, offset = t.span.start ∨ offset = t.span.stop

namespace Scanner

variable {file source : String} {ts us : List Token} {s s' : Scanner} {piece rest cs : List Char}

theorem file_of_leaves (h : s.Leaves piece rest us s') :
    s'.file = s.file ∧ ∀ t ∈ us, t.span.file = s.file := by
  cases h with
  | newline => exact ⟨rfl, List.forall_mem_singleton.2 rfl⟩
  | token => exact ⟨rfl, List.forall_mem_singleton.2 rfl⟩
  | _ => exact ⟨rfl, List.forall_mem_nil _⟩

theorem file_of_step (h : s.Step piece rest us s') :
    s'.file = s.file ∧ ∀ t ∈ us, t.span.file = s.file := by
  cases h with
  | blank => exact ⟨rfl, List.forall_mem_nil _⟩
  | line =>
    refine ⟨rfl, fun t ht => ?_⟩
    obtain ⟨kind, -, rfl⟩ := List.mem_map.1 ht
    rfl
  | lexeme _ hfirst => exact file_of_leaves (s.leaves_take hfirst)

/-- The scanner knows the name of its text, and gives it to all tokens. -/
theorem Reaches.file_eq (h : Reaches file source ts s cs) :
    s.file = file ∧ ∀ t ∈ ts, t.span.file = file := by
  induction h with
  | start => exact ⟨rfl, List.forall_mem_nil _⟩
  | step _ hstep ih =>
    obtain ⟨hfile, hts⟩ := ih
    obtain ⟨hnext, hus⟩ := file_of_step hstep
    refine ⟨hnext.trans hfile, List.forall_mem_append.2 ⟨hts, fun t ht => ?_⟩⟩
    exact (hus t ht).trans hfile

end Scanner

open Scanner

section

variable {source file : String} {tokens : List Token}

/-- Tokens with gaps between them stand in order. -/
theorem ordered_of_placed (h : EachAfter (Placed source) tokens) :
    tokens.Pairwise (fun t u => t.span.stop ≤ u.span.start) ∧
      ∀ t ∈ tokens, t.span.stop ≤ endOf tokens := by
  induction tokens using List.reverseRecOn with
  | nil => exact ⟨.nil, List.forall_mem_nil _⟩
  | append_singleton ts t ih =>
    obtain ⟨hordered, hends⟩ := ih fun front u back heq => h front u (back ++ [t]) (by simp [heq])
    have hplaced := h ts t [] rfl
    obtain ⟨cs, hslice, -⟩ := hplaced.slice
    have hgap := hplaced.gap.start_le
    have hle := hslice.start_le
    have hend : endOf (ts ++ [t]) = t.span.stop := by simp [endOf]
    constructor
    · refine List.pairwise_append.2 ⟨hordered, List.pairwise_singleton _ _, fun u hu => ?_⟩
      exact List.forall_mem_singleton.2 (Nat.le_trans (hends u hu) hgap)
    · rw [hend]
      refine List.forall_mem_append.2 ⟨fun u hu => ?_, List.forall_mem_singleton.2 (Nat.le_refl _)⟩
      have hstop := hends u hu
      omega

theorem placed_of_tokenize (h : tokenize file source = .ok tokens) :
    EachAfter (Placed source) tokens ∧ ∀ t ∈ tokens, t.span.file = file := by
  obtain ⟨ts, s, hr, rfl⟩ := exists_reaches_of_tokenize h
  obtain ⟨hfile, hts⟩ := hr.file_eq
  refine ⟨(covered_finish hr.covered).placed, List.forall_mem_append.2 ⟨hts, fun t ht => ?_⟩⟩
  rw [(mem_finish ht).1]
  exact hfile

/-- The tokens of a source begin and end at characters of it. -/
theorem text_of_boundary (h : tokenize file source = .ok tokens) {offset : Nat}
    (hoffset : TokenBoundary tokens offset) : ∃ cs, TextFrom source offset cs := by
  obtain ⟨t, ht, hoffset⟩ := hoffset
  obtain ⟨front, back, heq⟩ := List.append_of_mem ht
  obtain ⟨cs, ⟨rest, hstart, hstop⟩, -⟩ := ((placed_of_tokenize h).1 front t back heq).slice
  rcases hoffset with rfl | rfl
  · exact ⟨_, hstart⟩
  · exact ⟨_, hstop⟩

theorem position_inText (h : tokenize file source = .ok tokens) {p : Position}
    (hfile : p.file = file) (hoffset : TokenBoundary tokens p.offset) : p.InText source file :=
  ⟨hfile, text_of_boundary h hoffset⟩

theorem boundary_le (h : tokenize file source = .ok tokens) {offset : Nat}
    (hoffset : TokenBoundary tokens offset) : offset ≤ byteLength source.toList :=
  (position_inText (p := ⟨file, offset⟩) h rfl hoffset).offset_le

theorem stands_of_tokenize (h : tokenize file source = .ok tokens) {t : Token} (ht : t ∈ tokens) :
    t.Stands file (TokenBoundary tokens) := by
  obtain ⟨hplaced, hfile⟩ := placed_of_tokenize h
  obtain ⟨front, back, heq⟩ := List.append_of_mem ht
  obtain ⟨cs, hslice, hcovers⟩ := (hplaced front t back heq).slice
  refine ⟨hfile t ht, hslice.start_le, ⟨t, ht, .inl rfl⟩, ⟨t, ht, .inr rfl⟩, ?_⟩
  intro hlayout heof
  exact hslice.start_lt (hcovers.text hlayout heof).1

theorem row_ofTokens (h : tokenize file source = .ok tokens) :
    (Cursor.ofTokens file tokens).row = tokens := by
  obtain ⟨ts, s, -, rfl⟩ := exists_reaches_of_tokenize h
  obtain ⟨front, eof, hfinish, heof, -⟩ := exists_finish_eq s
  obtain ⟨kind, value, span⟩ := eof
  cases heof
  rw [hfinish, ← List.append_assoc]
  simp [Cursor.ofTokens, Cursor.row, Cursor.endToken]

/-- **The tokens of a source stand in order.** -/
theorem aligned_of_tokenize (h : tokenize file source = .ok tokens) :
    (Cursor.ofTokens file tokens).Aligned file (TokenBoundary tokens) := by
  refine ⟨fun t ht => ?_, ?_⟩
  · rw [row_ofTokens h] at ht
    exact stands_of_tokenize h ht
  · rw [row_ofTokens h]
    exact (ordered_of_placed (placed_of_tokenize h).1).1

/-- A source that cannot be cut into tokens is wrong where the scanner stands. -/
theorem failsAt_tokenize (source file : String) :
    FailsAt (Position.InText source file) (tokenize file source) := by
  obtain ⟨us, s, cs, last, hr, hends, hrun⟩ :=
    exists_ends_of_run (.start : Reaches file source _ _ _)
  obtain ⟨hfile, -⟩ := hr.file_eq
  have htext := hr.covered.text
  rw [tokenize, hrun]
  cases hends with
  | finished => exact failsIn_ok _
  | misaligned _ hindent =>
    have hoffset := offset_indent s hindent
    exact failsIn_error ⟨hfile, _, hoffset.symm ▸ htext.drop⟩
  | unrecognised => exact failsIn_error ⟨hfile, _, htext⟩

end

/-- `P` holds of the places that errors can have: the start of the source, the places where the
scanner fails and those where tokens begin and end. -/
structure Reportable (source file : String) (P : Position → Prop) : Prop where
  start : P ⟨file, 0⟩
  scan : FailsAt P (tokenize file source)
  boundary : ∀ tokens offset, tokenize file source = .ok tokens → TokenBoundary tokens offset →
    P ⟨file, offset⟩

theorem reportable_inText (source file : String) :
    Reportable source file (Position.InText source file) where
  start := ⟨rfl, source.toList, [], rfl, rfl⟩
  scan := failsAt_tokenize source file
  boundary _ _ h hoffset := position_inText h rfl hoffset

section

variable {source file : String} {tokens : List Token} {P : Position → Prop}

theorem Reportable.position (hP : Reportable source file P) (h : tokenize file source = .ok tokens)
    {p : Position} (hfile : p.file = file) (hoffset : TokenBoundary tokens p.offset) : P p := by
  obtain ⟨file', offset⟩ := p
  cases hfile
  exact hP.boundary tokens offset h hoffset

/-- A source that cannot be read is wrong at one of its tokens. -/
theorem Reportable.failsAt_parse (hP : Reportable source file P)
    (h : tokenize file source = .ok tokens) : FailsAt P (Program.parse file tokens).result := by
  refine failsIn_bind_traced (fun e he => ?_) fun _ _ => failsIn_ok _
  obtain ⟨t, ht, hposition⟩ := (Program.isSyntactic_of_parseFunctions _ _ e he).place
  rw [row_ofTokens h] at ht
  rw [hposition]
  have hstands := stands_of_tokenize h ht
  exact hP.position h hstands.file hstands.start

end

/-! ### Functions -/

variable {P : Position → Prop}

theorem TypeExpr.failsAt_valueType {a : TypeExpr} (h : P a.position) : FailsAt P a.valueType := by
  unfold valueType
  split
  · exact failsIn_ok _
  · exact failsIn_error h

theorem Param.failsAt_typed {p : Param} (hp : P p.span.position)
    (htype : ∀ a ∈ p.type, P a.position) : FailsAt P p.typed := by
  unfold typed
  split
  · rename_i a ha
    exact failsIn_bind (TypeExpr.failsAt_valueType (htype a ha)) fun _ _ => failsIn_ok _
  · exact failsIn_error hp

namespace Stmt

theorem position_of_returnSpansAll {ss : List Stmt}
    (h : ∀ s ∈ ss, ∀ span ∈ s.returnSpans, P span.position) :
    ∀ span ∈ returnSpansAll ss, P span.position := by
  induction ss with
  | nil => exact List.forall_mem_nil _
  | cons s ss ih =>
    obtain ⟨hs, hss⟩ := List.forall_mem_cons.1 h
    exact List.forall_mem_append.2 ⟨hs, ih hss⟩

theorem position_of_returnSpans {s : Stmt} (hs : s.NodesAt P) :
    ∀ span ∈ s.returnSpans, P span.position := by
  induction s with
  | ret value span => exact List.forall_mem_singleton.2 hs.root
  | ifThen test body orelse span ihb iho | whileLoop test body orelse span ihb iho =>
    obtain ⟨-, hblocks⟩ := List.forall_mem_cons.1 hs.children
    obtain ⟨hbody, horelse⟩ := List.forall_mem_append.1 hblocks
    have hbody := nodesAt_of_treeAll hbody
    have horelse := nodesAt_of_treeAll horelse
    rw [returnSpans]
    refine List.forall_mem_append.2 ⟨?_, ?_⟩
    · exact position_of_returnSpansAll fun s hs => ihb s hs (hbody s hs)
    · exact position_of_returnSpansAll fun s hs => iho s hs (horelse s hs)
  | _ => exact List.forall_mem_nil _

end Stmt

namespace FunctionDef

/-- All nodes of the function and all types in it begin at places that satisfy `P`. -/
structure NodesAt (P : Position → Prop) (f : FunctionDef) : Prop where
  tree : f.tree.All fun s => P s.position
  annotations : ∀ a ∈ f.annotations, P a.position

namespace NodesAt

variable {f : FunctionDef} {params : List TypedParam} {externs : List (String × ReturnType)}
  {declared : Option (ReturnType × Position)} {body : List TypedStmt}

theorem position_param (hf : f.NodesAt P) : ∀ p ∈ f.params, P p.span.position := by
  intro p hp
  have hchild := hf.tree.children p.tree (List.mem_append_left _ (List.mem_map_of_mem hp))
  exact hchild.root

theorem nodesAt_stmt (hf : f.NodesAt P) : ∀ s ∈ f.body, s.NodesAt P :=
  fun _ hs => hf.tree.children _ (List.mem_append_right _ (List.mem_map_of_mem hs))

theorem failsAt_typedParams (hf : f.NodesAt P) (options : Options) :
    FailsAt P (f.typedParams options) := by
  unfold typedParams
  split
  · refine failsIn_mapM fun p hp => Param.failsAt_typed (hf.position_param p hp) fun a ha => ?_
    exact hf.annotations a (List.mem_append_left _ (List.mem_filterMap.2 ⟨p, hp, ha⟩))
  · split
    · exact failsIn_ok _
    · exact failsIn_error hf.tree.root

theorem failsAt_declaredReturn (hf : f.NodesAt P) : FailsAt P f.declaredReturn := by
  unfold declaredReturn
  split
  · exact failsIn_ok _
  · rename_i a ha
    have hposition : P a.position := hf.annotations a (List.mem_append_right _ (by simp [ha]))
    split
    · exact failsIn_ok _
    · exact failsIn_bind (TypeExpr.failsAt_valueType hposition) fun _ _ => failsIn_ok _

theorem failsAt_lowerBody (hf : f.NodesAt P) (table : SymbolTable) :
    FailsAt P (f.lowerBody params externs declared table).result :=
  failsIn_bind_lowering (Lowering.failsIn_declareParameters _ _) fun _ _ =>
    failsIn_bind_lowering (Lowering.failsIn_declareFunctions _ _) fun _ _ =>
      failsIn_bind_lowering (Lowering.failsIn_declareFunctions _ _) fun _ _ =>
        Stmt.failsAt_lowerAll fun s hs => Stmt.failsAt_lower (hf.nodesAt_stmt s hs)

/-- Results of different types are refused at a return statement of the source. -/
theorem failsAt_unifyAll (hf : f.NodesAt P)
    (hbody : (f.lowerBody params externs declared .empty).result = .ok body) :
    FailsAt P (TypedStmt.unifyAll none body).result := by
  intro e he
  rw [TypedStmt.unifyAll_result, Returned.scan_eq_error_iff] at he
  obtain ⟨first, front, other, back, hreturned, -, -, rfl⟩ := he
  obtain ⟨table, table₁, hlower⟩ := lowerAll_of_lowerBody hbody
  have hspans := (lowers_of_lowerAll hlower).returnedAll.1
  have hother : other.span ∈ Stmt.returnSpansAll f.body := by
    rw [← hspans, hreturned]
    exact List.mem_map_of_mem (by simp)
  exact Stmt.position_of_returnSpansAll
    (fun s hs => Stmt.position_of_returnSpans (hf.nodesAt_stmt s hs)) _ hother

theorem failsAt_checkDeclared (hf : f.NodesAt P) (hdeclared : f.declaredReturn = .ok declared)
    (returns : ReturnType) : FailsAt P (checkDeclared declared returns) := by
  intro e he
  obtain ⟨expected, position, hsome, -, rfl⟩ := checkDeclared_eq_error_iff.1 he
  obtain ⟨a, ha, rfl⟩ := exists_returns_of_declared hdeclared hsome
  exact hf.annotations a (List.mem_append_right _ (by simp [ha]))

/-- **A function that cannot be written out** is wrong where one of its nodes or types begins. -/
theorem failsAt_emit (hf : f.NodesAt P) (options : Options) :
    FailsAt P (f.emit options).result := by
  rw [emit_result]
  refine failsIn_bind (hf.failsAt_typedParams options) fun params _ => ?_
  refine failsIn_bind hf.failsAt_declaredReturn fun declared hdeclared => ?_
  refine failsIn_bind (hf.failsAt_lowerBody _) fun body hbody => ?_
  refine failsIn_bind (hf.failsAt_unifyAll hbody) fun unified _ => ?_
  exact failsIn_bind (hf.failsAt_checkDeclared hdeclared _) fun _ _ => failsIn_ok _

end NodesAt

end FunctionDef

/-! ### Source texts -/

section

variable {source file : String} {tokens : List Token} {program : Program}

theorem Program.spanned_of_parse (htokens : tokenize file source = .ok tokens)
    (h : (Program.parse file tokens).result = .ok program) :
    ∃ lo hi, SpanTree.Laid file (TokenBoundary tokens) lo (program.functions.map FunctionDef.tree)
      hi := by
  obtain ⟨fs, hfs, hp⟩ := Traced.bind_result_eq_ok.1 h
  cases hp
  exact ⟨_, Program.spanned_of_parseFunctions hfs (aligned_of_tokenize htokens)⟩

/-- The functions of a source stand at places of it. -/
theorem Reportable.nodesAt_of_parse (hP : Reportable source file P)
    (htokens : tokenize file source = .ok tokens)
    (h : (Program.parse file tokens).result = .ok program) :
    ∀ f ∈ program.functions, f.NodesAt P := by
  intro f hf
  constructor
  · obtain ⟨lo, hi, hlaid⟩ := Program.spanned_of_parse htokens h
    exact (hlaid.sound _ (List.mem_map_of_mem hf)).all fun s hs =>
      hP.position htokens hs.file hs.start
  · obtain ⟨fs, hfs, hp⟩ := Traced.bind_result_eq_ok.1 h
    cases hp
    obtain ⟨c₁, c₂, hrow, hgives⟩ := Program.exists_parse_of_mem hfs hf
    intro a ha
    obtain ⟨t, ht, hposition⟩ := FunctionDef.begins_of_parse hgives a ha
    rw [row_ofTokens htokens] at hrow
    have hstands := stands_of_tokenize htokens (hrow.subset ht)
    rw [hposition]
    exact hP.position htokens hstands.file hstands.start

theorem Reportable.failsAt_select (hP : Reportable source file P) (p : Program)
    (name : Option String) : FailsAt P (p.select name file) := by
  unfold Program.select
  dsimp only
  split
  · exact failsIn_ok _
  · exact failsIn_error hP.start

/-- **Errors have the places that errors can have.** -/
theorem Reportable.failsAt_emitSource (hP : Reportable source file P) (name : Option String)
    (options : Options) : FailsAt P (emitSource source file name options).result := by
  refine failsIn_bind_traced ?_ fun tokens hscan => ?_
  · exact failsIn_bind_traced hP.scan fun _ _ =>
      failsIn_bind_traced (failsIn_ok _) fun _ _ => failsIn_ok _
  · have htokens := (result_scanSource _ _).symm.trans hscan
    refine failsIn_bind_traced (hP.failsAt_parse htokens) fun program hprogram =>
      failsIn_bind_traced (hP.failsAt_select program name) fun f hf => ?_
    have hnodes := hP.nodesAt_of_parse htokens hprogram f (Program.mem_of_select hf)
    exact hnodes.failsAt_emit options

theorem failsAt_emitSource (source file : String) (name : Option String) (options : Options) :
    FailsAt (Position.InText source file) (emitSource source file name options).result :=
  (reportable_inText source file).failsAt_emitSource name options

end

/-- **Places are sound.** If a source can be read, then no node is empty, every node begins and ends
where tokens do, which is inside the text, and has the name of the text; children lie inside their
node, and siblings lie one behind the other in their order, functions among them. Whatever is wrong
with a source and whatever is asked of it, the error has the name of the text and a place in front
of one of its characters or at its end. -/
theorem emitSource_positions (source file : String) :
    (∀ tokens program, tokenize file source = .ok tokens →
      (Program.parse file tokens).result = .ok program →
      (∀ offset, TokenBoundary tokens offset → offset ≤ byteLength source.toList) ∧
      (∀ f ∈ program.functions, f.tree.Sound file (TokenBoundary tokens)) ∧
      program.functions.Pairwise fun f g => f.span.stop ≤ g.span.start) ∧
    ∀ name options e, (emitSource source file name options).result = .error e →
      e.position.file = file ∧ e.position.offset ≤ byteLength source.toList ∧
      ∃ cs, TextFrom source e.position.offset cs := by
  constructor
  · intro tokens program htokens hprogram
    obtain ⟨lo, hi, hlaid⟩ := Program.spanned_of_parse htokens hprogram
    refine ⟨fun offset => boundary_le htokens, fun f hf => ?_, List.pairwise_map.1 hlaid.ordered⟩
    exact hlaid.sound _ (List.mem_map_of_mem hf)
  · intro name options e he
    have hplace := failsAt_emitSource source file name options e he
    exact ⟨hplace.file, hplace.offset_le, hplace.text⟩

/-- The tokens of a function that gives back a list, behind a comment:
`def f(a): return [1, -(a)]`. -/
def listTokens : List Token :=
  [⟨.defWord, "def", ⟨"m", 5, 8⟩⟩, ⟨.identifier, "f", ⟨"m", 9, 10⟩⟩,
   ⟨.openParen, "(", ⟨"m", 10, 11⟩⟩, ⟨.identifier, "a", ⟨"m", 11, 12⟩⟩,
   ⟨.closeParen, ")", ⟨"m", 12, 13⟩⟩, ⟨.colon, ":", ⟨"m", 13, 14⟩⟩,
   ⟨.newline, "\\n", ⟨"m", 14, 15⟩⟩, ⟨.indent, "", ⟨"m", 17, 17⟩⟩,
   ⟨.returnWord, "return", ⟨"m", 17, 23⟩⟩, ⟨.openBracket, "[", ⟨"m", 24, 25⟩⟩,
   ⟨.number, "1", ⟨"m", 25, 26⟩⟩, ⟨.comma, ",", ⟨"m", 26, 27⟩⟩, ⟨.dash, "-", ⟨"m", 28, 29⟩⟩,
   ⟨.openParen, "(", ⟨"m", 29, 30⟩⟩, ⟨.identifier, "a", ⟨"m", 30, 31⟩⟩,
   ⟨.closeParen, ")", ⟨"m", 31, 32⟩⟩, ⟨.closeBracket, "]", ⟨"m", 32, 33⟩⟩,
   ⟨.newline, "\\n", ⟨"m", 33, 34⟩⟩, ⟨.dedent, "", ⟨"m", 34, 34⟩⟩, ⟨.eof, "EOF", ⟨"m", 34, 34⟩⟩]

/-- The function that they are read as. -/
def listFunction : FunctionDef :=
  ⟨"f", [⟨"a", none, ⟨"m", 11, 12⟩⟩], none,
    [.ret (some (.list [.constant (.int 1) ⟨"m", 25, 26⟩,
      .unary .minus (.name "a" ⟨"m", 30, 31⟩) ⟨"m", 28, 31⟩] ⟨"m", 24, 33⟩)) ⟨"m", 17, 33⟩],
    ⟨"m", 5, 34⟩⟩

theorem emitSource_positions_list :
    tokenize "m" "# é\ndef f(a):\n  return [1, -(a)]\n" = .ok listTokens ∧
    (Program.parse "m" listTokens).result = .ok ⟨[listFunction]⟩ ∧
    listFunction.tree.Sound "m" (TokenBoundary listTokens) ∧
    (emitSource "# é\ndef f(a):\n  return [1, -(a)]\n" "m" none
        ⟨some [.int], [], .spaces 4⟩).result =
      .error ⟨.malformedNode "Array literal elements must be numeric constants", ⟨"m", 28⟩⟩ ∧
    ∃ cs, TextFrom "# é\ndef f(a):\n  return [1, -(a)]\n" 28 cs := by
  have htokens : tokenize "m" "# é\ndef f(a):\n  return [1, -(a)]\n" = .ok listTokens := by
    decide +kernel
  have hparse : (Program.parse "m" listTokens).result = .ok ⟨[listFunction]⟩ := by cbv
  have herror : (emitSource "# é\ndef f(a):\n  return [1, -(a)]\n" "m" none
      ⟨some [.int], [], .spaces 4⟩).result =
        .error ⟨.malformedNode "Array literal elements must be numeric constants", ⟨"m", 28⟩⟩ := by
    decide +kernel
  have hpositions := emitSource_positions "# é\ndef f(a):\n  return [1, -(a)]\n" "m"
  obtain ⟨-, hsound, -⟩ := hpositions.1 _ _ htokens hparse
  exact ⟨htokens, hparse, hsound _ (List.mem_singleton_self _), herror,
    (hpositions.2 _ _ _ herror).2.2⟩

end DefToC
