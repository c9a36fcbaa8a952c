import DefToC.Proofs.Function.Emission
import DefToC.Proofs.Source.ErrorOrigins
import DefToC.Proofs.Source.Lines
import DefToC.Proofs.Typed.LineTexts

/-!
# The layout of the output

The output for a function is its signature, the lines of its statements and a brace. A statement
without a block is one line. A conditional or a loop is a header, the lines of its block one level
deeper, and a brace. `Laid` says so by rules. The braces tell how deep a line stands: as deep as
there are blocks opened by the lines in front of it and not closed up to it. The depth is written in
front of the line, and is all that depends on how the output is indented.
-/

namespace DefToC

open Lowering

/-! ### What lines are there for -/

/-- What a line of the output is there for. -/
inductive LineRole where
  /-- The signature of a function. -/
  | signature (f : FunctionDef)
  /-- A statement without a block. -/
  | simple (s : Stmt)
  /-- The header of a conditional or a loop. -/
  | header (s : Stmt)
  /-- The end of a block. -/
  | closing

namespace LineRole

/-- Does the line open a block? -/
def isHeader : LineRole → Bool
  | signature _ | header _ => true
  | simple _ | closing => false

/-- The text is one for a line of the role: the signature of the function, or what is written for
the typed form of the statement. -/
inductive Fits : LineRole → String → Prop where
  | signature {f : FunctionDef} {params : List TypedParam} {returns : ReturnType} :
      params.map TypedParam.name = f.params.map Param.name →
      Fits (.signature f) (returns.spelling ++ " " ++ f.name ++ "(" ++
        ", ".intercalate (params.map TypedParam.text) ++ ") \x7b")
  | simple {s : Stmt} {t : TypedStmt} {table table₁ : SymbolTable} {text : String} :
      s.lower.Yields table t table₁ → t.text = .line text → (∃ front, text = front ++ ";") →
      Fits (.simple s) text
  | header {s : Stmt} {t : TypedStmt} {table table₁ : SymbolTable} {text : String} :
      s.lower.Yields table t table₁ → t.text = .block text "\x7d" →
      (∃ front, text = front ++ " \x7b") → Fits (.header s) text
  | closing : Fits .closing "\x7d"

variable {role : LineRole} {text : String}

theorem Fits.getLast?_header (h : role.Fits text) (hrole : role.isHeader = true) :
    text.toList.getLast? = some '\x7b' := by
  cases h with
  | signature =>
    rw [String.toList_append, List.getLast?_append]
    rfl
  | header _ _ hfront =>
    obtain ⟨front, rfl⟩ := hfront
    rw [String.toList_append, List.getLast?_append]
    rfl
  | simple | closing => cases hrole

theorem Fits.getLast?_simple {s : Stmt} (h : (LineRole.simple s).Fits text) :
    text.toList.getLast? = some ';' := by
  cases h with
  | simple _ _ hfront =>
    obtain ⟨front, rfl⟩ := hfront
    rw [String.toList_append, List.getLast?_append]
    rfl

end LineRole

namespace Stmt

mutual

/-- The lines of a statement and of the statements in it, in order. -/
def roles : Stmt → List LineRole
  | s@(ifThen _ body orelse _) => .header s :: (rolesAll body ++ .closing :: rolesAll orelse)
  | s@(whileLoop _ body orelse _) => .header s :: (rolesAll body ++ .closing :: rolesAll orelse)
  | s => [.simple s]

/-- The lines of several statements. -/
def rolesAll : List Stmt → List LineRole
  | [] => []
  | s :: ss => roles s ++ rolesAll ss

end

end Stmt

/-- The lines of a function, in order. -/
def FunctionDef.roles (f : FunctionDef) : List LineRole :=
  .signature f :: (Stmt.rolesAll f.body ++ [.closing])

/-! ### Depths -/

/-- How many of the lines open a block. -/
def opened (lines : List OutputLine) : Nat :=
  lines.countP fun line => line.text.toList.getLast? = some '\x7b'

/-- How many of the lines close one. -/
def closed (lines : List OutputLine) : Nat := lines.countP fun line => line.text = "\x7d"

@[simp] theorem opened_append (lines lines' : List OutputLine) :
    opened (lines ++ lines') = opened lines + opened lines' :=
  List.countP_append

@[simp] theorem closed_append (lines lines' : List OutputLine) :
    closed (lines ++ lines') = closed lines + closed lines' :=
  List.countP_append

theorem ne_closing {text : String} {c : Char} (h : text.toList.getLast? = some c)
    (hc : c ≠ '\x7d') : text ≠ "\x7d" := by
  rintro rfl
  exact hc (Option.some.inj h).symm

/-- A line that ends with a brace opens a block. -/
theorem counts_cons_header (depth : Nat) {text : String} (lines : List OutputLine)
    (h : text.toList.getLast? = some '\x7b') :
    opened (⟨depth, text⟩ :: lines) = opened lines + 1 ∧
      closed (⟨depth, text⟩ :: lines) = closed lines := by
  simp [opened, closed, h, ne_closing h]

/-- A line that ends with a semicolon neither opens nor closes one. -/
theorem counts_cons_simple (depth : Nat) {text : String} (lines : List OutputLine)
    (h : text.toList.getLast? = some ';') :
    opened (⟨depth, text⟩ :: lines) = opened lines ∧
      closed (⟨depth, text⟩ :: lines) = closed lines := by
  simp [opened, closed, h, ne_closing h]

theorem counts_cons_closing (depth : Nat) (lines : List OutputLine) :
    opened (⟨depth, "\x7d"⟩ :: lines) = opened lines ∧
      closed (⟨depth, "\x7d"⟩ :: lines) = closed lines + 1 := by
  simp [opened, closed]

/-- Lines of the given roles, laid out from a depth on. -/
inductive Laid : Nat → List LineRole → List OutputLine → Prop where
  | nil {depth : Nat} : Laid depth [] []
  | simple {depth : Nat} {s : Stmt} {text : String} {roles : List LineRole}
      {lines : List OutputLine} : (LineRole.simple s).Fits text → IsLine text.toList →
      Laid depth roles lines → Laid depth (.simple s :: roles) (⟨depth, text⟩ :: lines)
  /-- The lines of a block stand one level deeper than its header and its end. -/
  | block {depth : Nat} {role : LineRole} {text : String} {inner roles : List LineRole}
      {innerLines lines : List OutputLine} : role.isHeader = true → role.Fits text →
      IsLine text.toList → Laid (depth + 1) inner innerLines → Laid depth roles lines →
      Laid depth (role :: (inner ++ .closing :: roles))
        (⟨depth, text⟩ :: (innerLines ++ ⟨depth, "\x7d"⟩ :: lines))

namespace Laid

variable {depth : Nat} {roles roles' : List LineRole} {lines lines' : List OutputLine}

theorem append (h : Laid depth roles lines) (h' : Laid depth roles' lines') :
    Laid depth (roles ++ roles') (lines ++ lines') := by
  induction h with
  | nil => exact h'
  | simple hfits hline _ ih => exact .simple hfits hline (ih h')
  | block hrole hfits hline hinner _ _ ih =>
    have hblock := Laid.block hrole hfits hline hinner (ih h')
    simpa using hblock

theorem fits (h : Laid depth roles lines) :
    List.Forall₂ LineRole.Fits roles (lines.map OutputLine.text) := by
  induction h with
  | nil => exact .nil
  | simple hfits _ _ ih => exact .cons hfits ih
  | block _ hfits _ _ _ ihinner ih =>
    rw [List.map_cons, List.map_append, List.map_cons]
    exact .cons hfits (List.rel_append ihinner (.cons .closing ih))

theorem isLine (h : Laid depth roles lines) : ∀ line ∈ lines, IsLine line.text.toList := by
  induction h with
  | nil => exact List.forall_mem_nil _
  | simple _ hline _ ih => exact List.forall_mem_cons.2 ⟨hline, ih⟩
  | block _ _ hline _ _ ihinner ih =>
    have hclosing : IsLine "\x7d".toList := ⟨by decide, '\x7d', rfl, rfl⟩
    refine List.forall_mem_cons.2 ⟨hline, List.forall_mem_append.2 ⟨ihinner, ?_⟩⟩
    exact List.forall_mem_cons.2 ⟨hclosing, ih⟩

/-- Every block that is opened is closed. -/
theorem opened_eq_closed (h : Laid depth roles lines) : opened lines = closed lines := by
  induction h with
  | nil => rfl
  | @simple depth _ _ _ lines hfits _ _ ih =>
    obtain ⟨hopened, hclosed⟩ := counts_cons_simple depth lines hfits.getLast?_simple
    rw [hopened, hclosed, ih]
  | @block depth _ _ _ _ inner lines hrole hfits _ _ _ ihinner ih =>
    obtain ⟨hopened, hclosed⟩ := counts_cons_header depth
      (inner ++ ⟨depth, "\x7d"⟩ :: lines) (hfits.getLast?_header hrole)
    obtain ⟨hend, hends⟩ := counts_cons_closing depth lines
    rw [hopened, hclosed, opened_append, closed_append, hend, hends, ihinner, ih]
    omega

/-- **The braces tell the depth**: as deep as a line stands, so many blocks are opened in front of
it and not closed up to it. -/
theorem depth_eq (h : Laid depth roles lines) {front back : List OutputLine} {line : OutputLine}
    (hsplit : lines = front ++ line :: back) :
    line.depth + closed (front ++ [line]) = depth + opened front := by
  induction h generalizing front back with
  | nil => simp at hsplit
  | @simple depth _ _ _ _ hfits _ _ ih =>
    cases front with
    | nil =>
      obtain ⟨rfl, rfl⟩ := List.cons.inj hsplit
      rw [List.nil_append, (counts_cons_simple depth [] hfits.getLast?_simple).2]
      rfl
    | cons first front =>
      obtain ⟨rfl, rfl⟩ := List.cons.inj hsplit
      have hrest := ih rfl
      rw [List.cons_append, (counts_cons_simple depth _ hfits.getLast?_simple).2,
        (counts_cons_simple depth _ hfits.getLast?_simple).1, hrest]
  | @block depth _ _ _ _ inner _ hrole hfits _ hinner _ ihinner ih =>
    have hlast := hfits.getLast?_header hrole
    cases front with
    | nil =>
      obtain ⟨rfl, -⟩ := List.cons.inj hsplit
      rw [List.nil_append, (counts_cons_header depth [] hlast).2]
      rfl
    | cons first front =>
      obtain ⟨rfl, hrest⟩ := List.cons.inj hsplit
      rw [List.cons_append, (counts_cons_header depth _ hlast).2,
        (counts_cons_header depth _ hlast).1]
      have hbalance := hinner.opened_eq_closed
      have hend : depth + closed (inner ++ [⟨depth, "\x7d"⟩]) = depth + (opened inner + 1) := by
        rw [closed_append, (counts_cons_closing depth []).2, hbalance]
        rfl
      -- the line stands in the block, or at its end, or behind it
      rcases List.append_eq_append_iff.1 hrest with ⟨later, rfl, hlater⟩ | ⟨later, rfl, hlater⟩
      · cases later with
        | nil =>
          obtain ⟨rfl, -⟩ := List.cons.inj hlater
          rwa [List.append_nil]
        | cons _ later =>
          obtain ⟨rfl, rfl⟩ := List.cons.inj hlater
          have hbehind := ih rfl
          rw [List.append_assoc, closed_append, opened_append, List.cons_append,
            (counts_cons_closing depth _).1, (counts_cons_closing depth _).2]
          omega
      · cases later with
        | nil =>
          obtain ⟨rfl, -⟩ := List.cons.inj hlater
          rwa [List.append_nil] at hend
        | cons _ later =>
          obtain ⟨rfl, -⟩ := List.cons.inj hlater
          have hinside := ihinner rfl
          omega

end Laid

/-! ### Statements and functions -/

namespace Stmt

/-- If the statement is accepted, its lines are laid out. -/
def IsLaid (s : Stmt) : Prop :=
  ∀ ⦃t : TypedStmt⦄ ⦃table table₁ : SymbolTable⦄, (∀ e ∈ s.exprs, e.Worded) →
    s.lower.Yields table t table₁ → ∀ depth, Laid depth s.roles (t.lines depth)

theorem laid_of_all {ss : List Stmt} {ts : List TypedStmt} {table table₁ : SymbolTable}
    (hss : ∀ s ∈ ss, s.IsLaid) (hw : ∀ e ∈ exprsAll ss, e.Worded)
    (h : (lowerAll ss).Yields table ts table₁) (depth : Nat) :
    Laid depth (rolesAll ss) (TypedStmt.linesOf depth ts) := by
  induction ss generalizing table ts with
  | nil =>
    obtain ⟨rfl, -⟩ := yields_pure.1 h
    exact .nil
  | cons s ss ih =>
    simp only [lowerAll, yields_bind, yields_pure] at h
    obtain ⟨t, table₂, ht, ts, _, hts, rfl, rfl⟩ := h
    obtain ⟨hs, hss⟩ := List.forall_mem_cons.1 hss
    obtain ⟨hws, hwss⟩ := List.forall_mem_append.1 hw
    exact (hs hws ht depth).append (ih hss hwss hts)

theorem laid_simple {s : Stmt} {t : TypedStmt} {table table₁ : SymbolTable} {text : String}
    (hs : ∀ e ∈ s.exprs, e.Worded) (h : s.lower.Yields table t table₁) (ht : t.text = .line text)
    (depth : Nat) : Laid depth [.simple s] [⟨depth, text⟩] := by
  have htidy := tidy_of_lower hs h
  rw [ht] at htidy
  exact .simple (.simple h ht htidy.2) htidy.1 .nil

theorem laid_block {s : Stmt} {t : TypedStmt} {table table₁ table₂ table₃ : SymbolTable}
    {header tail : String} {body : List Stmt} {inner : List TypedStmt}
    (hs : ∀ e ∈ s.exprs, e.Worded) (h : s.lower.Yields table t table₁)
    (ht : t.text = .block header tail) (hexprs : exprsAll body ⊆ s.exprs)
    (ihbody : ∀ s ∈ body, s.IsLaid) (hbody : (lowerAll body).Yields table₂ inner table₃)
    (depth : Nat) :
    Laid depth (.header s :: (rolesAll body ++ [.closing]))
      (⟨depth, header⟩ :: (TypedStmt.linesOf (depth + 1) inner ++ [⟨depth, tail⟩])) := by
  have hinner := laid_of_all ihbody (fun e he => hs e (hexprs he)) hbody (depth + 1)
  have htidy := tidy_of_lower hs h
  rw [ht] at htidy
  obtain ⟨hline, hfront, rfl⟩ := htidy
  exact .block rfl (.header h ht hfront) hline hinner .nil

theorem isLaid (s : Stmt) : s.IsLaid := by
  induction s with
  | assign =>
    intro t table table₁ hs h depth
    cases lowers_of_lower h with
    | assign => exact laid_simple hs h rfl depth
  | augAssign =>
    intro t table table₁ hs h depth
    cases lowers_of_lower h with
    | augAssign => exact laid_simple hs h rfl depth
  | ifThen test body orelse span ihbody _ =>
    intro t table table₁ hs h depth
    obtain ⟨rfl, test', body', -, hbody, rfl⟩ := lower_ifThen_yields h
    exact laid_block hs h rfl (by simp [exprs]) ihbody hbody depth
  | whileLoop test body orelse span ihbody _ =>
    intro t table table₁ hs h depth
    obtain ⟨rfl, test', body', -, hbody, rfl⟩ := lower_whileLoop_yields h
    exact laid_block hs h rfl (by simp [exprs]) ihbody hbody depth
  | ret value =>
    intro t table table₁ hs h depth
    cases lowers_of_lower h with
    | retNone => exact laid_simple hs h rfl depth
    | retSome => exact laid_simple hs h rfl depth
  | expression =>
    intro t table table₁ hs h depth
    cases lowers_of_lower h with
    | expression => exact laid_simple hs h rfl depth

end Stmt

theorem Param.name_of_typed {q : Param} {p : TypedParam} (h : q.typed = .ok p) :
    p.name = q.name := by
  unfold typed at h
  split at h
  · obtain ⟨type, -, h⟩ := bind_eq_ok_iff.1 h
    rw [← Except.ok.inj h]
  · cases h

namespace FunctionDef

variable {f : FunctionDef} {options : Options} {params : List TypedParam}

/-- The parameters are those of the function, in order. -/
theorem names_of_typedParams (h : f.typedParams options = .ok params) :
    params.map TypedParam.name = f.params.map Param.name := by
  unfold typedParams at h
  split at h
  · have hnames : List.Forall₂ (fun q p => p.name = q.name) f.params params :=
      (mapM_eq_ok_iff.1 h).imp fun _ _ => Param.name_of_typed
    rw [← List.forall₂_eq_eq_eq, List.forall₂_map_left_iff, List.forall₂_map_right_iff]
    exact hnames.flip
  · split at h
    · rename_i types hlength
      have hname : TypedParam.name ∘ Function.uncurry (fun (p : Param) type => ⟨p.name, type⟩) =
          Param.name ∘ Prod.fst := rfl
      rw [← Except.ok.inj h, ← List.map_uncurry_zip_eq_zipWith, List.map_map, hname,
        ← List.map_map, List.map_fst_zip hlength.ge]
    · cases h

theorem unbroken_parameter {p : TypedParam} (h : IsName p.name.toList) : '\n' ∉ p.text.toList := by
  have hspelling := (CType.isLine_spelling p.type.toC.scalar).unbroken
  have hname := h.isLine.unbroken
  unfold TypedParam.text CType.parameter
  split <;> simp [hspelling, hname]

theorem isLine_spelling (returns : ReturnType) : IsLine returns.spelling.toList := by
  cases returns with
  | void => exact ⟨by decide, 'v', rfl, rfl⟩
  | value type => cases type <;> exact ⟨by decide, _, rfl, rfl⟩

/-- The lines of a function whose body is accepted are laid out. -/
theorem laid_functionLines {body : List TypedStmt} {externs : List (String × ReturnType)}
    {declared : Option (ReturnType × Position)} (hname : IsName f.name.toList)
    (hnames : ∀ p ∈ f.params, IsName p.name.toList)
    (hw : ∀ e ∈ Stmt.exprsAll f.body, e.Worded) (hparams : f.typedParams options = .ok params)
    (hbody : (f.lowerBody params externs declared .empty).result = .ok body)
    (returns : ReturnType) : Laid 0 f.roles (functionLines f.name params returns body) := by
  obtain ⟨table, table₁, hlower⟩ := lowerAll_of_lowerBody hbody
  have hinner := Stmt.laid_of_all (fun s _ => s.isLaid) hw hlower 1
  -- the body is the block of the signature
  have hparameterNames := names_of_typedParams hparams
  refine .block rfl (.signature hparameterNames) ?_ hinner .nil
  have hparameters : '\n' ∉ (", ".intercalate (params.map TypedParam.text)).toList := by
    refine joins_unbroken.intercalate (by decide) (List.forall_mem_map.2 fun p hp => ?_)
    obtain ⟨q, hq, hqp⟩ := List.mem_map.1 (hparameterNames ▸ List.mem_map_of_mem hp)
    exact unbroken_parameter (hqp ▸ hnames q hq)
  have hline := (isLine_spelling returns).append (v := " ".toList ++ f.name.toList ++ "(".toList ++
    (", ".intercalate (params.map TypedParam.text)).toList ++ ") \x7b".toList) (by
      simpa [hname.isLine.unbroken] using hparameters)
  simpa using hline

end FunctionDef

/-! ### Writing lines -/

section

variable {lines : List OutputLine} {line : OutputLine}

/-- What stands in front of a line of the given depth. -/
def indentation (style : IndentStyle) (depth : Nat) : List Char :=
  (List.replicate depth style.unit).flatten

theorem unbroken_indentation (style : IndentStyle) (depth : Nat) :
    '\n' ∉ indentation style depth := by
  have hunit : '\n' ∉ style.unit := by
    cases style with
    | tab => decide
    | spaces count => exact fun h => absurd (List.eq_of_mem_replicate h) (by decide)
  intro h
  obtain ⟨unit, hmem, h⟩ := List.mem_flatten.1 h
  rw [List.eq_of_mem_replicate hmem] at h
  exact hunit h

theorem toList_render (style : IndentStyle) (line : OutputLine) :
    (line.render style).toList = indentation style line.depth ++ line.text.toList ++ ['\n'] := by
  simp [OutputLine.render, indentation]

/-- The output as it is written, cut into lines again. -/
theorem splitLines_join (h : ∀ line ∈ lines, IsLine line.text.toList) (style : IndentStyle) :
    splitLines (String.join (lines.map (OutputLine.render style))).toList =
      lines.map fun line => indentation style line.depth ++ line.text.toList ++ ['\n'] := by
  induction lines with
  | nil => rfl
  | cons line lines ih =>
    obtain ⟨hline, hlines⟩ := List.forall_mem_cons.1 h
    have hunbroken : '\n' ∉ indentation style line.depth ++ line.text.toList := by
      simp [unbroken_indentation, hline.unbroken]
    rw [List.map_cons, List.map_cons, String.join_cons, String.toList_append, toList_render,
      List.append_assoc _ ['\n'], List.singleton_append, splitLines_append hunbroken, ih hlines]

theorem getLast?_join (style : IndentStyle) (lines : List OutputLine) (line : OutputLine) :
    (String.join ((lines ++ [line]).map (OutputLine.render style))).toList.getLast? =
      some '\n' := by
  induction lines with
  | nil => simp [String.join_cons, toList_render]
  | cons _ lines ih =>
    rw [List.cons_append, List.map_cons, String.join_cons, String.toList_append,
      List.getLast?_append, ih]
    rfl

/-- A line with so many spaces in place of each tab in front of it. -/
def spacedLine (count : Nat) (line : List Char) : List Char :=
  (line.takeWhile (· = '\t')).flatMap (fun _ => List.replicate count ' ') ++
    line.dropWhile (· = '\t')

/-- A text with so many spaces in place of each tab in front of a line. -/
def spacedText (count : Nat) (text : String) : String :=
  String.ofList ((splitLines text.toList).flatMap (spacedLine count))

/-- Only the indentation is replaced, since the text does not begin with a tab. -/
theorem spacedLine_indentation {cs : List Char} (h : ∀ c ∈ cs.head?, c ≠ '\t') (count depth : Nat) :
    spacedLine count (indentation .tab depth ++ cs) = indentation (.spaces count) depth ++ cs := by
  induction depth with
  | zero =>
    cases cs with
    | nil => rfl
    | cons c cs => simp [spacedLine, indentation, h c rfl]
  | succ depth ih =>
    have htab : indentation .tab (depth + 1) = '\t' :: indentation .tab depth := rfl
    have hspaces : indentation (.spaces count) (depth + 1) =
        List.replicate count ' ' ++ indentation (.spaces count) depth := rfl
    rw [hspaces, List.append_assoc, ← ih, htab]
    simp [spacedLine]

theorem IsLine.spacedLine_eq (h : IsLine line.text.toList) (count : Nat) :
    spacedLine count (indentation .tab line.depth ++ line.text.toList ++ ['\n']) =
      (line.render (.spaces count)).toList := by
  rw [toList_render, List.append_assoc, List.append_assoc]
  refine spacedLine_indentation (fun c hc => ?_) count line.depth
  obtain ⟨d, hd, hblank⟩ := h.begins
  rw [List.head?_append, hd] at hc
  obtain rfl : d = c := Option.some.inj hc
  rintro rfl
  cases hblank

theorem spacedText_join (h : ∀ line ∈ lines, IsLine line.text.toList) (count : Nat) :
    spacedText count (String.join (lines.map (OutputLine.render .tab))) =
      String.join (lines.map (OutputLine.render (.spaces count))) := by
  rw [spacedText, splitLines_join h]
  induction lines with
  | nil => rfl
  | cons line lines ih =>
    obtain ⟨hline, hlines⟩ := List.forall_mem_cons.1 h
    rw [List.map_cons, List.flatMap_cons, hline.spacedLine_eq, String.ofList_append,
      String.ofList_toList, ih hlines, List.map_cons, String.join_cons]

end

/-! ### The output of a source -/

/-- The function has words for its names, and its expressions do. -/
structure FunctionDef.Worded (f : FunctionDef) : Prop where
  name : IsName f.name.toList
  params : ∀ p ∈ f.params, IsName p.name.toList
  exprs : ∀ e ∈ Stmt.exprsAll f.body, e.Worded

theorem Program.worded_of_parse {file source : String} {tokens : List Token} {p : Program}
    (htokens : tokenize file source = .ok tokens)
    (hp : (Program.parse file tokens).result = .ok p) : ∀ f ∈ p.functions, f.Worded := by
  intro f hf
  obtain ⟨c₁, c₂, hc, hparse⟩ := Program.exists_lexical_of_parse htokens hp f hf
  obtain ⟨hname, hparams⟩ := FunctionDef.isName_of_parse hparse hc
  exact ⟨hname, hparams, (FunctionDef.worded_of_parse hparse hc).2⟩

theorem FunctionDef.IsChosen.worded {source file : String} {name : Option String} {f : FunctionDef}
    (h : f.IsChosen source file name) : f.Worded := by
  obtain ⟨tokens, program, htokens, hprogram, hf⟩ := h
  exact Program.worded_of_parse htokens hprogram f (Program.mem_of_select hf)

theorem emitSource_result (source file : String) (name : Option String) (options : Options) :
    (emitSource source file name options).result = (do
      let tokens ← tokenize file source
      let program ← (Program.parse file tokens).result
      let f ← program.select name file
      (f.emit options).result) := by
  simp only [emitSource, Program.emit, Traced.bind_result, result_scanSource]
  rfl

theorem exists_isChosen_of_emitSource {source file : String} {name : Option String}
    {options : Options} {out : String}
    (h : (emitSource source file name options).result = .ok out) :
    ∃ f : FunctionDef, f.IsChosen source file name ∧ (f.emit options).result = .ok out := by
  rw [emitSource_result] at h
  obtain ⟨tokens, htokens, h⟩ := bind_eq_ok_iff.1 h
  obtain ⟨program, hprogram, h⟩ := bind_eq_ok_iff.1 h
  obtain ⟨f, hf, hout⟩ := bind_eq_ok_iff.1 h
  exact ⟨f, ⟨tokens, program, htokens, hprogram, hf⟩, hout⟩

/-- The output for a function, cut into lines. -/
structure FunctionDef.LaidOut (f : FunctionDef) (style : IndentStyle) (out : String)
    (lines : List OutputLine) : Prop where
  /-- A line of the output is its indentation, its text and a line feed. -/
  written : splitLines out.toList =
    lines.map fun line => indentation style line.depth ++ line.text.toList ++ ['\n']
  /-- No text has a line feed in it, or a blank in front. -/
  isLine : ∀ line ∈ lines, IsLine line.text.toList
  /-- There are the lines that the statements of the function call for, in order. -/
  fits : List.Forall₂ LineRole.Fits f.roles (lines.map OutputLine.text)
  /-- A line stands as deep as blocks are opened in front of it and not closed up to it. -/
  depth : ∀ (front : List OutputLine) (line : OutputLine) (back : List OutputLine),
    lines = front ++ line :: back → line.depth + closed (front ++ [line]) = opened front
  /-- The last line is a brace, and is not indented. -/
  last : ∃ front, lines = front ++ [⟨0, "\x7d"⟩]
  /-- The output ends with a line feed. -/
  ends : out.toList.getLast? = some '\n'

theorem FunctionDef.Worded.exists_laidOut {f : FunctionDef} (hf : f.Worded) {options : Options}
    {out : String} (h : (f.emit options).result = .ok out) :
    ∃ lines, f.LaidOut options.indent out lines := by
  obtain ⟨params, declared, body, unified, hparams, -, hbody, -, -, rfl⟩ := emit_eq_ok_iff.1 h
  have hlaid := laid_functionLines hf.name hf.params hf.exprs hparams hbody (unified.getD .void)
  exact ⟨_, {
    written := splitLines_join hlaid.isLine options.indent
    isLine := hlaid.isLine
    fits := hlaid.fits
    depth := fun front line back hsplit => (hlaid.depth_eq hsplit).trans (Nat.zero_add _)
    last := ⟨_, rfl⟩
    ends := getLast?_join _ _ _ }⟩

theorem map_bind_congr {ε α β γ : Type} {x : Except ε α} {g : α → Except ε γ} {k : α → Except ε β}
    {h : β → γ} (hg : ∀ a, x = .ok a → g a = (k a).map h) : x >>= g = (x >>= k).map h := by
  cases x with
  | error e => rfl
  | ok a => exact hg a rfl

/-- The indentation is the only thing that depends on its style. -/
theorem FunctionDef.Worded.emit_spaces {f : FunctionDef} (hf : f.Worded) (options : Options)
    (count : Nat) : (f.emit { options with indent := .spaces count }).result =
      (f.emit { options with indent := .tab }).result.map (spacedText count) := by
  rw [emit_result, emit_result]
  -- up to the lines the style is not looked at, so both ways fail alike
  refine map_bind_congr fun params hparams => map_bind_congr fun declared _ =>
    map_bind_congr fun body hbody => map_bind_congr fun unified _ => map_bind_congr fun _ _ => ?_
  have hlaid := laid_functionLines hf.name hf.params hf.exprs hparams hbody (unified.getD .void)
  exact congrArg Except.ok (spacedText_join hlaid.isLine count).symm

/-- **The layout of the output follows the blocks of the function.** The output is laid out as the
statements of the chosen function call for, whatever the indentation. With spaces it is the output
with tabs, with so many spaces in place of each tab in front of a line. -/
theorem emitSource_laidOut (source file : String) (name : Option String) (options : Options) :
    (∀ out, (emitSource source file name options).result = .ok out →
      ∃ (f : FunctionDef) (lines : List OutputLine), f.IsChosen source file name ∧
        f.LaidOut options.indent out lines) ∧
    ∀ count, (emitSource source file name { options with indent := .spaces count }).result =
      (emitSource source file name { options with indent := .tab }).result.map
        (spacedText count) := by
  refine ⟨fun out h => ?_, fun count => ?_⟩
  · obtain ⟨f, hf, hout⟩ := exists_isChosen_of_emitSource h
    obtain ⟨lines, hlines⟩ := hf.worded.exists_laidOut hout
    exact ⟨f, lines, hf, hlines⟩
  · rw [emitSource_result, emitSource_result]
    refine map_bind_congr fun tokens htokens => map_bind_congr fun program hprogram =>
      map_bind_congr fun f hf => ?_
    have hchosen : f.IsChosen source file name := ⟨tokens, program, htokens, hprogram, hf⟩
    exact hchosen.worded.emit_spaces options count

/-- A function with a list, whose braces are no block, and with a conditional in a loop. -/
def nestedBlocks : String :=
  "def f(n):\n a = [1, 2]\n while n:\n  if n > 2:\n   n -= 1\n  n -= 1\n return n\n"

theorem emitSource_laidOut_nestedBlocks :
    (∃ (f : FunctionDef) (lines : List OutputLine), f.IsChosen nestedBlocks "f" none ∧
      f.LaidOut .tab ("int f(int n) \x7b\n\tint a[2] = \x7b1, 2\x7d;\n\twhile (n) \x7b\n" ++
        "\t\tif (n > 2) \x7b\n\t\t\tn -= 1;\n\t\t\x7d\n\t\tn -= 1;\n\t\x7d\n" ++
        "\treturn n;\n\x7d\n") lines) ∧
    (emitSource nestedBlocks "f" none ⟨some [.int], [], .spaces 2⟩).result =
      .ok ("int f(int n) \x7b\n  int a[2] = \x7b1, 2\x7d;\n  while (n) \x7b\n" ++
        "    if (n > 2) \x7b\n      n -= 1;\n    \x7d\n    n -= 1;\n  \x7d\n" ++
        "  return n;\n\x7d\n") := by
  have h : (emitSource nestedBlocks "f" none ⟨some [.int], [], .tab⟩).result =
      .ok ("int f(int n) \x7b\n\tint a[2] = \x7b1, 2\x7d;\n\twhile (n) \x7b\n" ++
        "\t\tif (n > 2) \x7b\n\t\t\tn -= 1;\n\t\t\x7d\n\t\tn -= 1;\n\t\x7d\n" ++
        "\treturn n;\n\x7d\n") := by
    decide +kernel
  obtain ⟨hlaid, hspaces⟩ := emitSource_laidOut nestedBlocks "f" none ⟨some [.int], [], .tab⟩
  refine ⟨hlaid _ h, (hspaces 2).trans ?_⟩
  rw [h]
  decide +kernel

end DefToC
