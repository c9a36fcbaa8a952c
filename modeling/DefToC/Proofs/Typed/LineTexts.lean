import DefToC.Proofs.Typed.Brackets

/-!
# Statements stand on lines

The text of an expression has no line feed and no white space in front of it. So the text of a
statement is one line, or a header and a closing line around its block. A line of its own ends with
a semicolon, and a header with a brace.
-/

namespace DefToC

open Outline

/-- The text stands on one line, with no white space in front of it. -/
structure IsLine (cs : List Char) : Prop where
  unbroken : '\n' ∉ cs
  begins : ∃ c ∈ cs.head?, isBlank c = false

theorem IsLine.append {u v : List Char} (h : IsLine u) (hv : '\n' ∉ v) : IsLine (u ++ v) := by
  obtain ⟨hu, c, hc, hblank⟩ := h
  refine ⟨by simp [hu, hv], c, ?_, hblank⟩
  rw [List.head?_append, hc]
  rfl

theorem unbroken_of_isAtom {cs : List Char} (h : ∀ c ∈ cs, isAtom c = true) : '\n' ∉ cs := by
  intro hmem
  cases h _ hmem

theorem IsName.isLine {cs : List Char} (h : IsName cs) : IsLine cs := by
  obtain ⟨⟨c, hc, hpart⟩, hatoms⟩ := h.isWord
  exact ⟨unbroken_of_isAtom hatoms, c, hc, not_isBlank_of_isWordPart hpart⟩

theorem joins_unbroken : Joins ('\n' ∉ ·) := ⟨by simp, fun hu hv => by simp [hu, hv]⟩

theorem Operator.unbroken_spelling (op : Operator) : '\n' ∉ op.spelling.toList := by
  cases op <;> decide

theorem Operator.unbroken_joint (op : Operator) : '\n' ∉ op.joint := by
  simp [joint, op.unbroken_spelling]

/-! ### Expressions -/

namespace TypedExpr

variable {table : SymbolTable} {t : TypedExpr}

theorem Proper.unbroken (h : t.Proper table) : '\n' ∉ t.text.toList := by
  induction h with
  | @var _ v span hv hname =>
    have hvar : (TypedExpr.var { v with mode := .reuse } span).Proper table := .var hv hname
    exact hvar.isName_text.isLine.unbroken
  | constant hvalue => exact unbroken_of_isAtom hvalue.isWord.2
  | @array elements _ hls =>
    have helements : '\n' ∉ (", ".intercalate (elements.map Literal.text)).toList :=
      joins_unbroken.intercalate (by decide)
        (List.forall_mem_map.2 fun l hl => unbroken_of_isAtom (hls l hl).isAtom)
    simpa [text] using helements
  | @compare left ops ts _ _ _ _ _ _ ihl ihts =>
    have hlinks : '\n' ∉ (" && ".intercalate (links left.text ops (texts ts))).toList :=
      joins_unbroken.intercalate (by decide)
        (joins_unbroken.links Operator.unbroken_joint ihl ihts)
    simpa [text] using hlinks
  | @binary _ _ op _ _ _ _ _ _ _ _ _ ihl ihr =>
    rw [text]
    split <;> simp [ihl, ihr, op.unbroken_spelling]
  | @unary op _ _ _ _ ih => simp [text, ih, op.unbroken_spelling]
  | @boolChain op ts _ _ _ _ ih =>
    have hvalues : '\n' ∉ ((" " ++ op.spelling ++ " ").intercalate (texts ts)).toList :=
      joins_unbroken.intercalate_texts (by simp [op.unbroken_spelling]) ih
    simpa [text] using hvalues
  | subscript _ _ _ ihv ihs => simp [text, ihv, ihs]
  | @call _ ts _ hname _ ih =>
    have harguments : '\n' ∉ (", ".intercalate (texts ts)).toList :=
      joins_unbroken.intercalate_texts (by decide) ih
    simpa [text, hname.isLine.unbroken] using harguments

/-- The text of an expression can begin a line. -/
theorem Proper.isLine (h : t.Proper table) : IsLine t.text.toList := by
  refine ⟨h.unbroken, ?_⟩
  -- a text begins as its outline does, with a word or a bracket
  obtain ⟨c, hc, hstart⟩ : Starts (t.outline.text ++ []) := h.formed.starts
  rw [List.append_nil, h.outlined] at hc
  refine ⟨c, hc, ?_⟩
  rcases hstart with hpart | hbracket
  · exact not_isBlank_of_isWordPart hpart
  · have hall : ['(', '[', '\x7b'].all (!isBlank ·) = true := rfl
    simpa using List.all_eq_true.1 hall c hbracket

end TypedExpr

/-! ### Targets -/

namespace CType

theorem isLine_spelling (scalar : CScalar) : IsLine scalar.spelling.toList := by
  cases scalar <;> exact ⟨by decide, _, rfl, rfl⟩

/-- The declaration of a variable is there if an array has a size, and is a line. -/
theorem isLine_declaration {t : CType} {name : String} {size : Option Nat}
    (hname : IsName name.toList) (hsize : t.isArray = true → size.isSome = true) :
    ∃ text, t.declaration? name size = some text ∧ IsLine text.toList := by
  have hname := hname.isLine.unbroken
  unfold declaration?
  split
  · rename_i harray
    obtain ⟨n, rfl⟩ := Option.isSome_iff_exists.1 (hsize harray)
    have hdigits := unbroken_of_isAtom (isNumeral_toDigits n).isWord.2
    refine ⟨_, rfl, ?_⟩
    have hline := (isLine_spelling t.scalar).append
      (v := " ".toList ++ name.toList ++ "[".toList ++ (toString n).toList ++ "]".toList)
      (by simp [hname, hdigits])
    simpa using hline
  · refine ⟨_, rfl, ?_⟩
    have hline := (isLine_spelling t.scalar).append (v := " ".toList ++ name.toList)
      (by simp [hname])
    simpa using hline

end CType

theorem isList_iff_isArray (type : ValueType) : type.toC.isArray = type.isList := by
  cases type <;> rfl

/-- A target that exists is written as a name or as an element of an array. -/
theorem Aims.isLine {table : SymbolTable} {e : Expr} {target : Target} (h : Aims table e target)
    (he : e.Worded) (hold : target.isNew = false) :
    ∃ text, target.text? = some text ∧ IsLine text.toList := by
  cases h with
  | bound hv =>
    cases he with
    | name hname =>
      rw [← SymbolTable.name_of_lookup hv] at hname
      exact ⟨_, rfl, hname.isLine⟩
  | pending => cases hold
  | element _ ht => exact ⟨_, rfl, (he.proper ht).isLine⟩

/-- Every target of an assignment has a text, which is a line. -/
theorem Settles.isLine {table table₁ table₂ : SymbolTable} {type : ValueType} {size : Option Nat}
    {es : List Expr} {found settled : List Target} (haims : List.Forall₂ (Aims table) es found)
    (hes : ∀ e ∈ es, e.Worded) (h : Settles type size found table₁ settled table₂) :
    ∀ target ∈ settled, ∃ text, target.text? = some text ∧ IsLine text.toList := by
  cases h with
  | existing hold =>
    intro target htarget
    obtain ⟨e, he, haim⟩ := exists_of_mem_right haims htarget
    exact haim.isLine (hes e he) (hold target htarget).1
  | introduced hnew hsize _ _ =>
    obtain ⟨e, he, haim⟩ := exists_of_mem_right haims List.mem_cons_self
    refine List.forall_mem_singleton.2 ?_
    -- a new variable is declared, and an array is one with a size
    cases haim with
    | bound => cases hnew
    | pending =>
      cases hes _ he with
      | name hname =>
        rw [← isList_iff_isArray] at hsize
        exact CType.isLine_declaration hname hsize

/-! ### Statements -/

/-- The text of a statement stands on lines: one that ends with a semicolon, or a header that ends
with a brace and a line with the brace that closes it. -/
def StmtText.Tidy : StmtText → Prop
  | .line text => IsLine text.toList ∧ ∃ front, text = front ++ ";"
  | .block header tail =>
    IsLine header.toList ∧ (∃ front, header = front ++ " \x7b") ∧ tail = "\x7d"

theorem StmtText.tidy_line {text : String} (h : IsLine text.toList) :
    (line (text ++ ";")).Tidy := by
  refine ⟨?_, text, rfl⟩
  rw [String.toList_append]
  exact h.append (by decide)

theorem TypedExpr.Proper.tidy_block {table : SymbolTable} {t : TypedExpr} (h : t.Proper table)
    {keyword : String} (hkeyword : IsLine keyword.toList) :
    (StmtText.block (keyword ++ t.conditionText ++ " \x7b") "\x7d").Tidy := by
  have hcondition : '\n' ∉ t.conditionText.toList := by
    unfold conditionText
    split <;> simp [h.unbroken]
  refine ⟨?_, ⟨_, rfl⟩, rfl⟩
  rw [String.toList_append, String.toList_append]
  exact (hkeyword.append hcondition).append (by decide)

/-- Targets with their equality signs, in front of what is stored in them. -/
theorem isLine_targets {targets : List Target} {rest : List Char}
    (h : ∀ target ∈ targets, ∃ text, target.text? = some text ∧ IsLine text.toList)
    (hrest : IsLine rest) :
    IsLine ((String.join (targets.map fun t => t.text?.getD "" ++ " = ")).toList ++ rest) := by
  induction targets with
  | nil => simpa using hrest
  | cons target targets ih =>
    obtain ⟨⟨text, htext, hline⟩, htargets⟩ := List.forall_mem_cons.1 h
    have hlater := (ih htargets).unbroken
    have hall := hline.append (v := " = ".toList ++
      ((String.join (targets.map fun t => t.text?.getD "" ++ " = ")).toList ++ rest))
      (by simpa using hlater)
    simpa [htext] using hall

/-- **Statements of a source are written on lines.** -/
theorem Stmt.tidy_of_lower {s : Stmt} {t : TypedStmt} {table table₁ : SymbolTable}
    (hs : ∀ e ∈ s.exprs, e.Worded) (h : s.lower.Yields table t table₁) : t.text.Tidy := by
  cases lowers_of_lower h with
  | assign hv _ haims _ hsettles _ =>
    obtain ⟨hvalue, htargets⟩ := List.forall_mem_cons.1 hs
    have hline := isLine_targets (hsettles.isLine haims htargets) (hvalue.proper hv).isLine
    rw [← String.toList_append] at hline
    exact StmtText.tidy_line hline
  | @augAssign _ _ _ op _ _ t v _ _ hv ht _ _ =>
    obtain ⟨htarget, hvalue⟩ := List.forall_mem_cons.1 hs
    have hvalue := (List.forall_mem_singleton.1 hvalue).proper hv
    have hline := (htarget.proper ht).isLine.append
      (v := " ".toList ++ op.spelling.toList ++ "= ".toList ++ v.text.toList)
      (by simp [op.unbroken_spelling, hvalue.unbroken])
    exact StmtText.tidy_line (by simpa using hline)
  | ifThen ht _ _ =>
    obtain ⟨htest, -⟩ := List.forall_mem_cons.1 hs
    exact (htest.proper ht).tidy_block ⟨by decide, 'i', rfl, rfl⟩
  | whileLoop ht _ _ =>
    obtain ⟨htest, -⟩ := List.forall_mem_cons.1 hs
    exact (htest.proper ht).tidy_block ⟨by decide, 'w', rfl, rfl⟩
  | retNone =>
    have hreturn : IsLine "return".toList := ⟨by decide, 'r', rfl, rfl⟩
    exact StmtText.tidy_line hreturn
  | retSome hv _ _ =>
    have hvalue := (hs _ List.mem_cons_self).proper hv
    have hreturn : IsLine "return ".toList := ⟨by decide, 'r', rfl, rfl⟩
    refine StmtText.tidy_line ?_
    rw [String.toList_append]
    exact hreturn.append hvalue.unbroken
  | expression ht _ =>
    exact StmtText.tidy_line ((hs _ List.mem_cons_self).proper ht).isLine

end DefToC
