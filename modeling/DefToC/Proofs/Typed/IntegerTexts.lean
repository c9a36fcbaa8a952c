import DefToC.Proofs.Meaning.CWords
import DefToC.Proofs.Source.OutputLayout
import DefToC.Proofs.Syntax.Constants
import DefToC.Proofs.Typed.Erasure
import Mathlib

/-!
# Integers in the output

Which integer constants the output has, if it is read as C: in which order, and with which signs.
The text of an expression shows the integers of the expression from left to right. A constant has
the sign that is folded into it, as in a list, or the minus of an operator directly in front of it.
An operand in the middle of a chain of comparisons is written twice. The text of a statement shows
the integers of its expressions, and a declaration of an array also shows its size.

Up to signs and repetitions, what is written are the integers of the tree and the sizes of arrays
(`TypedStmt.mem_writtenAll`).
-/

namespace DefToC

/-! ### Absolute values -/

/-- The absolute value of an integer. -/
def Literal.magnitude? : Literal → Option Nat
  | .int n => some n.natAbs
  | _ => none

/-- The absolute values of the integers among constants. -/
def magnitudes (ls : List Literal) : List Nat := ls.filterMap Literal.magnitude?

@[simp] theorem magnitudes_nil : magnitudes [] = [] := rfl

@[simp] theorem magnitudes_append (ls ls' : List Literal) :
    magnitudes (ls ++ ls') = magnitudes ls ++ magnitudes ls' :=
  List.filterMap_append

theorem magnitudes_cons (l : Literal) (ls : List Literal) :
    magnitudes (l :: ls) = l.magnitude?.toList ++ magnitudes ls := by
  cases h : l.magnitude? <;> simp [magnitudes, h]

theorem Literal.map_natAbs_written (l : Literal) (negative : Bool) :
    (l.written negative).map Int.natAbs = l.magnitude?.toList := by
  cases l with
  | int n => cases negative <;> simp [written, magnitude?, Int.natAbs_abs]
  | bool _ | float _ => rfl

/-! ### What is written -/

/-- Several lists one after another, all but the last twice. -/
def doubled {α : Type} : List (List α) → List α
  | [] => []
  | [last] => last
  | front :: next :: rest => front ++ front ++ doubled (next :: rest)

theorem mem_doubled {α : Type} {a : α} (lists : List (List α)) :
    a ∈ doubled lists ↔ a ∈ lists.flatten := by
  fun_induction doubled lists with
  | case1 => rfl
  | case2 last => rw [List.flatten_singleton]
  | case3 front next rest ih =>
    rw [List.flatten_cons, List.mem_append, List.mem_append, List.mem_append, or_self, ih]

theorem map_doubled {α β : Type} (f : α → β) (lists : List (List α)) :
    (doubled lists).map f = doubled (lists.map (List.map f)) := by
  fun_induction doubled lists with
  | case1 => rfl
  | case2 last => rfl
  | case3 front next rest ih =>
    rw [List.map_append, List.map_append, ih]
    rfl

namespace TypedExpr

mutual

/-- The integers that the text of an expression is written with, in order and with their signs,
behind a minus or not. -/
def written (negative : Bool) : TypedExpr → List Int
  | var _ _ => []
  | constant value _ => value.written negative
  | array elements _ => elements.flatMap (Literal.written false)
  | compare left _ comparators _ => left.written false ++ doubled (writtenEach comparators)
  | binary left _ right _ => left.written false ++ right.written false
  | unary op operand _ => operand.written (op = .minus)
  | boolChain _ values _ => (writtenEach values).flatten
  | subscript value slice _ => value.written negative ++ slice.written false
  | index value => value.written negative
  | call _ arguments _ _ => (writtenEach arguments).flatten

/-- What each of several expressions is written with. -/
def writtenEach : List TypedExpr → List (List Int)
  | [] => []
  | e :: es => e.written false :: writtenEach es

end

theorem writtenEach_eq_map (ts : List TypedExpr) : writtenEach ts = ts.map (written false) := by
  induction ts with
  | nil => rfl
  | cons t ts ih => rw [writtenEach, ih, List.map_cons]

mutual

/-- **Up to signs and repetitions, an expression is written with its integers.** -/
theorem mem_written (m : Nat) (negative : Bool) :
    ∀ t : TypedExpr, m ∈ (t.written negative).map Int.natAbs ↔ m ∈ magnitudes t.erase.constants
  | var _ _ => Iff.rfl
  | constant value _ => by
    rw [written, value.map_natAbs_written, erase, Expr.constants, magnitudes_cons, magnitudes_nil,
      List.append_nil]
  | array elements _ => by
    have hwritten : (elements.flatMap (Literal.written false)).map Int.natAbs =
        magnitudes elements := by
      simp only [List.map_flatMap, Literal.map_natAbs_written, magnitudes,
        List.filterMap_eq_flatMap_toList]
    rw [written, hwritten]
    simp [erase, Expr.constants, Expr.constantsAll_eq_flatMap, List.flatMap_map]
  | compare left _ comparators _ => by
    rw [written, List.map_append, List.mem_append, mem_written m false left, map_doubled,
      mem_doubled, ← List.map_flatten, mem_writtenEach m comparators, erase, Expr.constants,
      magnitudes_append, List.mem_append]
  | binary left _ right _ => by
    rw [written, List.map_append, List.mem_append, mem_written m false left,
      mem_written m false right, erase, Expr.constants, magnitudes_append, List.mem_append]
  | unary op operand _ => mem_written m _ operand
  | boolChain _ values _ => mem_writtenEach m values
  | subscript value slice _ => by
    rw [written, List.map_append, List.mem_append, mem_written m negative value,
      mem_written m false slice, erase, Expr.constants, magnitudes_append, List.mem_append]
  | index value => mem_written m negative value
  | call _ arguments _ _ => mem_writtenEach m arguments

theorem mem_writtenEach (m : Nat) : ∀ ts : List TypedExpr,
    m ∈ (writtenEach ts).flatten.map Int.natAbs ↔
      m ∈ magnitudes (Expr.constantsAll (eraseAll ts))
  | [] => Iff.rfl
  | t :: ts => by
    rw [writtenEach, List.flatten_cons, List.map_append, List.mem_append, mem_written m false t,
      mem_writtenEach m ts, eraseAll, Expr.constantsAll, magnitudes_append, List.mem_append]

end

end TypedExpr

/-- The size that a target is declared with, if it is a new array. -/
def Target.declaredSize? : Target → Option Nat
  | var v => if v.isNew && v.type.any ValueType.isList then v.size else none
  | subscript _ => none

/-- The integers that a target is written with: those of its index, or the size of an array. -/
def Target.written : Target → List Int
  | var v => (declaredSize? (var v)).toList.map Int.ofNat
  | subscript e => e.written false

theorem Target.mem_written (m : Nat) (target : Target) :
    m ∈ target.written.map Int.natAbs ↔
      m ∈ magnitudes target.erase.constants ++ target.declaredSize?.toList := by
  cases target with
  | var v => simp [written, erase, Expr.constants]
  | subscript e =>
    rw [written, e.mem_written, declaredSize?, Option.toList_none, List.append_nil]
    rfl

theorem Target.mem_written_of_all (m : Nat) (targets : List Target) :
    m ∈ (targets.flatMap written).map Int.natAbs ↔
      m ∈ magnitudes (Expr.constantsAll (targets.map erase)) ++
        targets.filterMap declaredSize? := by
  induction targets with
  | nil => simp [Expr.constantsAll]
  | cons target targets ih =>
    rw [List.flatMap_cons, List.map_append, List.mem_append, target.mem_written, ih, List.map_cons,
      Expr.constantsAll, magnitudes_append]
    simp only [List.filterMap_eq_flatMap_toList, List.flatMap_cons, List.mem_append]
    exact or_or_or_comm

namespace TypedStmt

mutual

/-- The sizes that are declared in a statement. -/
def sizes : TypedStmt → List Nat
  | assign targets _ _ => targets.filterMap Target.declaredSize?
  | ifThen _ body _ => sizesAll body
  | whileLoop _ body _ => sizesAll body
  | _ => []

/-- The sizes that are declared in a block. -/
def sizesAll : List TypedStmt → List Nat
  | [] => []
  | s :: ss => s.sizes ++ sizesAll ss

end

mutual

/-- The integers that a statement is written with, in order and with their signs. -/
def written : TypedStmt → List Int
  | assign targets value _ => targets.flatMap Target.written ++ value.written false
  | augAssign target _ value _ => target.written false ++ value.written false
  | ifThen test body _ => test.written false ++ writtenAll body
  | whileLoop test body _ => test.written false ++ writtenAll body
  | ret value _ _ => value.toList.flatMap (TypedExpr.written false)
  | expression e _ => e.written false

/-- The integers that a block is written with. -/
def writtenAll : List TypedStmt → List Int
  | [] => []
  | s :: ss => s.written ++ writtenAll ss

end

/-- The numbers that a typed block is written with: the absolute values of its integers and the
sizes of the arrays that it declares. -/
def numbersAll (ts : List TypedStmt) : List Nat :=
  magnitudes (Stmt.constantsAll (ts.map erase)) ++ sizesAll ts

mutual

theorem mem_written (m : Nat) : ∀ t : TypedStmt,
    m ∈ t.written.map Int.natAbs ↔ m ∈ magnitudes t.erase.constants ++ t.sizes
  | assign targets value _ => by
    rw [written, List.map_append, List.mem_append, Target.mem_written_of_all, value.mem_written]
    simp only [erase, sizes, Stmt.constants, magnitudes_append, List.mem_append]
    exact or_right_comm
  | augAssign target _ value _ => by
    rw [written, List.map_append, List.mem_append, target.mem_written, value.mem_written]
    simp [erase, sizes, Stmt.constants]
  | ifThen test body _ => by
    rw [written, List.map_append, List.mem_append, test.mem_written, mem_writtenAll m body]
    simp [erase, sizes, numbersAll, Stmt.constants, Stmt.constantsAll]
  | whileLoop test body _ => by
    rw [written, List.map_append, List.mem_append, test.mem_written, mem_writtenAll m body]
    simp [erase, sizes, numbersAll, Stmt.constants, Stmt.constantsAll]
  | ret none _ _ => by simp [written, erase, sizes, Stmt.constants, Expr.constantsAll]
  | ret (some value) _ _ => by
    have hvalue := value.mem_written m false
    simpa [written, erase, sizes, Stmt.constants, Expr.constantsAll] using hvalue
  | expression e _ => by
    rw [written, e.mem_written]
    simp [erase, sizes, Stmt.constants]

/-- **Up to signs and repetitions, a block is written with its integers and the sizes of its
arrays.** -/
theorem mem_writtenAll (m : Nat) : ∀ ts : List TypedStmt,
    m ∈ (writtenAll ts).map Int.natAbs ↔ m ∈ numbersAll ts
  | [] => by simp [writtenAll, numbersAll, Stmt.constantsAll, sizesAll]
  | t :: ts => by
    rw [writtenAll, List.map_append, List.mem_append, mem_written m t, mem_writtenAll m ts]
    simp only [numbersAll, List.map_cons, Stmt.constantsAll, sizesAll, magnitudes_append,
      List.mem_append]
    exact or_or_or_comm

end

end TypedStmt

/-! ### Texts of expressions -/

/-- The integer constants of the text are the given ones, in order and with their signs. -/
def Shows (text : String) (ns : List Int) : Prop :=
  C.signedIntegers false text.toList = ns.map some

theorem shows_name {text : String} (h : IsName text.toList) : Shows text [] :=
  C.signedIntegers_name h

/-- A text with marks behind it. -/
theorem Shows.ended {text sep : String} {ns : List Int} (h : Shows text ns)
    (hsep : C.separates sep.toList = true) : Shows (text ++ sep) ns := by
  rw [Shows, String.toList_append, C.signedIntegers_append_separator hsep, h]

/-- Two texts with marks between them. -/
theorem Shows.joined {text sep text' : String} {ns ns' : List Int} (h : Shows text ns)
    (hsep : C.separates sep.toList = true) (h' : Shows text' ns') :
    Shows (text ++ sep ++ text') (ns ++ ns') := by
  rw [Shows, String.toList_append, String.toList_append, C.signedIntegers_separated hsep, h, h',
    List.map_append]

/-- Without signs, the integer constants are the absolute values of those that are shown. -/
theorem Shows.mem_integers {text : String} {ns : List Int} {ms : List Nat} (h : Shows text ns)
    (hms : ∀ m, m ∈ ns.map Int.natAbs ↔ m ∈ ms) (x : Option Nat) :
    x ∈ C.integers text.toList ↔ x ∈ ms.map some := by
  have hvalues : C.integers text.toList = (ns.map Int.natAbs).map some := by
    rw [C.integers_eq_map false, h, List.map_map, List.map_map]
    rfl
  rw [hvalues, List.mem_map, List.mem_map]
  simp only [hms]

theorem Operator.separates_joint (op : Operator) : C.separates op.joint = true := by
  cases op <;> rfl

namespace TypedExpr

variable {table : SymbolTable} {t : TypedExpr} {b : Bool}

/-- A text in parentheses. -/
theorem signedIntegers_group {opening closing : String} (text : String)
    (hopening : C.isMarks opening.toList = true) (hsign : C.endsMinus b opening.toList = false)
    (hclosing : C.separates closing.toList = true) :
    C.signedIntegers b (opening ++ text ++ closing).toList =
      C.signedIntegers false text.toList := by
  rw [String.toList_append, C.signedIntegers_append_separator hclosing, String.toList_append,
    C.signedIntegers_append_marks hopening, hsign]

theorem signedIntegers_intercalate {sep : String} (hsep : C.separates sep.toList = true)
    (texts : List String) : C.signedIntegers false (sep.intercalate texts).toList =
      (texts.map fun text => C.signedIntegers false text.toList).flatten := by
  rw [String.toList_intercalate, C.signedIntegers_intercalate hsep, List.flatMap_map,
    List.flatMap_def]

/-- Two operands with an operator between them. -/
theorem signedIntegers_joint (left right : String) (op : Operator) :
    C.signedIntegers b (left ++ " " ++ op.spelling ++ " " ++ right).toList =
      C.signedIntegers b left.toList ++ C.signedIntegers false right.toList := by
  have htext : (left ++ " " ++ op.spelling ++ " " ++ right).toList =
      left.toList ++ op.joint ++ right.toList := by
    simp [Operator.joint]
  rw [htext, C.signedIntegers_separated op.separates_joint]

theorem signedIntegers_elements {elements : List Literal} (h : ∀ l ∈ elements, l.Finite) :
    ((elements.map Literal.text).map fun text => C.signedIntegers false text.toList).flatten =
      (elements.flatMap (Literal.written false)).map some := by
  rw [List.map_map, ← List.flatMap_def, List.map_flatMap]
  exact List.flatMap_congr fun l hl => Literal.signedIntegers_text (h l hl) false

theorem signedIntegers_cast (cs : List Char) :
    C.signedIntegers b (("(" ++ "(double)").toList ++ cs) = C.signedIntegers false cs := by
  have hclose : C.separates [')'] = true := rfl
  have hname : C.signedIntegers b "((double".toList = [] := by cases b <;> rfl
  have hcast := C.signedIntegers_separated (b := b) (u := "((double".toList) (v := cs) hclose
  rwa [hname, List.nil_append] at hcast

/-- A chain of comparisons shows its operands in the middle twice. -/
theorem signedIntegers_links {ops : List Operator} {left : String} {rights : List String}
    (hops : ops ≠ []) (hlength : ops.length = rights.length) :
    ((links left ops rights).map fun link => C.signedIntegers false link.toList).flatten =
      C.signedIntegers false left.toList ++
        doubled (rights.map fun right => C.signedIntegers false right.toList) := by
  induction ops generalizing left rights with
  | nil => exact absurd rfl hops
  | cons op ops ih =>
    obtain _ | ⟨right, rights⟩ := rights
    · cases hlength
    · have hrest : ops.length = rights.length := Nat.succ.inj hlength
      rw [links, List.map_cons, List.flatten_cons, signedIntegers_joint, List.append_assoc]
      obtain _ | ⟨op', ops⟩ := ops
      · obtain rfl := List.length_eq_zero_iff.1 hrest.symm
        simp [links, doubled]
      · obtain _ | ⟨next, rights⟩ := rights
        · cases hrest
        · rw [ih (List.cons_ne_nil _ _) hrest]
          simp [doubled]

/-- **The text of an expression shows the integers that it is written with.** -/
theorem Proper.signedIntegers_text (h : t.Proper table) (b : Bool) :
    C.signedIntegers b t.text.toList = (t.written b).map some := by
  have heach {ts : List TypedExpr}
      (ih : ∀ t ∈ ts, ∀ b, C.signedIntegers b t.text.toList = (t.written b).map some) :
      (texts ts).map (fun text => C.signedIntegers false text.toList) =
        (writtenEach ts).map (List.map some) := by
    rw [texts_eq_map, writtenEach_eq_map, List.map_map, List.map_map]
    exact List.map_congr_left fun t ht => ih t ht false
  have hopen : C.separates "(".toList = true := rfl
  have hclose : C.separates ")".toList = true := rfl
  induction h generalizing b with
  | @var _ v span hv hname =>
    have hvar : (TypedExpr.var { v with mode := .reuse } span).Proper table := .var hv hname
    exact C.signedIntegers_name hvar.isName_text
  | constant hvalue => exact Literal.signedIntegers_text hvalue.finite b
  | array hls =>
    rw [text, signedIntegers_group _ rfl rfl rfl, signedIntegers_intercalate rfl,
      signedIntegers_elements hls, written]
  | @compare left ops ts _ hne hlength _ _ _ ihl ihts =>
    have hlinks : ops.length = (texts ts).length := by rw [texts_eq_map, List.length_map, hlength]
    rw [text, signedIntegers_group _ rfl rfl rfl, signedIntegers_intercalate rfl,
      signedIntegers_links hne hlinks, ihl, heach ihts, written, List.map_append, map_doubled]
  | binary _ _ _ _ _ _ ihl ihr =>
    rw [text, String.toList_append, C.signedIntegers_append_separator hclose,
      signedIntegers_joint, ihr, written, List.map_append]
    congr 1
    -- a division of integers converts its first operand, which adds the name of a type
    split
    · rw [String.toList_append, signedIntegers_cast]
      exact ihl _
    · rw [String.toList_append, C.signedIntegers_append_marks rfl]
      exact ihl _
  | @unary op operand _ hop _ ih =>
    rw [text, String.toList_append, C.signedIntegers_append_separator hclose, String.toList_append]
    rcases hop with rfl | rfl | rfl <;> rw [C.signedIntegers_append_marks rfl, ih] <;> rfl
  | @boolChain op ts _ hop _ _ ih =>
    have hjoint : C.separates (" " ++ op.spelling ++ " ").toList = true := by
      rw [op.toList_joint]
      exact op.separates_joint
    rw [text, signedIntegers_group _ rfl rfl rfl, signedIntegers_intercalate hjoint, heach ih,
      ← List.map_flatten, written]
  | @subscript value slice _ _ _ _ ihv ihs =>
    have hopen : C.separates "[".toList = true := rfl
    have hclose : C.separates "]".toList = true := rfl
    rw [text, text, String.toList_append, C.signedIntegers_append_separator hclose,
      String.toList_append, String.toList_append, C.signedIntegers_separated hopen, ihv, ihs,
      ← List.map_append, written, written]
  | @call callee ts _ hname _ ih =>
    rw [text, String.toList_append, C.signedIntegers_append_separator hclose, String.toList_append,
      String.toList_append, C.signedIntegers_separated hopen, C.signedIntegers_name hname,
      List.nil_append, signedIntegers_intercalate rfl, heach ih, ← List.map_flatten, written]

end TypedExpr

/-! ### Texts of targets -/

theorem isName_spelling (scalar : CScalar) : IsName scalar.spelling.toList := by
  cases scalar <;> exact ⟨_, _, rfl, rfl, List.all_eq_true.1 rfl⟩

/-- A declaration shows the size of an array. -/
theorem CType.shows_declaration {t : CType} {name : String} {size : Option Nat}
    (hname : IsName name.toList) (hsize : t.isArray = true → size.isSome = true) :
    ∃ text, t.declaration? name size = some text ∧
      Shows text ((if t.isArray then size.toList else []).map Int.ofNat) := by
  have hnames : Shows (t.scalar.spelling ++ " " ++ name) [] :=
    (shows_name (isName_spelling t.scalar)).joined rfl (shows_name hname)
  unfold declaration?
  split
  · rename_i harray
    obtain ⟨n, rfl⟩ := Option.isSome_iff_exists.1 (hsize harray)
    have hdigits : (toString n).toList = Nat.toDigits 10 n := toList_toString_natCast n
    have hcount : Shows (toString n) [Int.ofNat n] := by
      rw [Shows, hdigits, C.signedIntegers_toDigits]
      rfl
    exact ⟨_, rfl, (hnames.joined rfl hcount).ended rfl⟩
  · exact ⟨_, rfl, hnames⟩

/-- The text of a target shows what it is written with. -/
def Target.IsShown (target : Target) : Prop :=
  ∃ text, target.text? = some text ∧ Shows text target.written

theorem Aims.isShown {table : SymbolTable} {e : Expr} {target : Target} (h : Aims table e target)
    (he : e.Worded) (hold : target.isNew = false) : target.IsShown := by
  cases h with
  | bound hv =>
    cases he with
    | name hname =>
      rw [← SymbolTable.name_of_lookup hv] at hname
      exact ⟨_, rfl, shows_name hname⟩
  | pending => cases hold
  | element _ ht => exact ⟨_, rfl, (he.proper ht).signedIntegers_text false⟩

theorem Settles.isShown {table table₁ table₂ : SymbolTable} {type : ValueType} {size : Option Nat}
    {es : List Expr} {found settled : List Target} (haims : List.Forall₂ (Aims table) es found)
    (hes : ∀ e ∈ es, e.Worded) (h : Settles type size found table₁ settled table₂) :
    ∀ target ∈ settled, target.IsShown := by
  cases h with
  | existing hold =>
    intro target htarget
    obtain ⟨e, he, haim⟩ := exists_of_mem_right haims htarget
    exact haim.isShown (hes e he) (hold target htarget).1
  | introduced hnew hsize _ _ =>
    obtain ⟨e, he, haim⟩ := exists_of_mem_right haims List.mem_cons_self
    refine List.forall_mem_singleton.2 ?_
    cases haim with
    | bound => cases hnew
    | pending =>
      cases hes _ he with
      | name hname =>
        rw [← isList_iff_isArray] at hsize
        obtain ⟨text, htext, hshows⟩ := CType.shows_declaration hname hsize
        refine ⟨text, htext, ?_⟩
        rw [isList_iff_isArray] at hshows
        cases hlist : type.isList <;> simpa [Target.written, Target.declaredSize?,
          Variable.isNew, hlist] using hshows

/-! ### Texts of statements -/

/-- The integer constants of lines, with their signs. -/
def lineIntegers (lines : List OutputLine) : List (Option Int) :=
  lines.flatMap fun line => C.signedIntegers false line.text.toList

/-- The integer constants of the lines are the given ones, in order and with their signs. -/
def ShowsLines (lines : List OutputLine) (ns : List Int) : Prop := lineIntegers lines = ns.map some

theorem ShowsLines.append {lines lines' : List OutputLine} {ns ns' : List Int}
    (h : ShowsLines lines ns) (h' : ShowsLines lines' ns') :
    ShowsLines (lines ++ lines') (ns ++ ns') := by
  rw [ShowsLines, lineIntegers, List.flatMap_append, List.map_append, ← h, ← h']
  rfl

theorem Shows.line {text : String} {ns : List Int} (h : Shows text ns) (depth : Nat) :
    ShowsLines [⟨depth, text⟩] ns := by
  rw [ShowsLines, lineIntegers, List.flatMap_singleton]
  exact h

/-- A word in front of a text. -/
theorem Shows.keyword {text : String} {ns : List Int} (h : Shows text ns) :
    ∀ word ∈ ["if ", "while ", "return "], Shows (word ++ text) ns := by
  have hfront {u : String} (hu : IsName u.toList) : Shows (u ++ " " ++ text) ns :=
    (shows_name hu).joined rfl h
  have hif : IsName "if".toList := ⟨_, _, rfl, rfl, List.all_eq_true.1 rfl⟩
  have hwhile : IsName "while".toList := ⟨_, _, rfl, rfl, List.all_eq_true.1 rfl⟩
  have hreturn : IsName "return".toList := ⟨_, _, rfl, rfl, List.all_eq_true.1 rfl⟩
  simpa using And.intro (hfront hif) (And.intro (hfront hwhile) (hfront hreturn))

/-- Targets with their equality signs, in front of what is stored in them. -/
theorem shows_targets {targets : List Target} (h : ∀ target ∈ targets, target.IsShown)
    {text : String} {ns : List Int} (htext : Shows text ns) :
    Shows (String.join (targets.map fun t => t.text?.getD "" ++ " = ") ++ text)
      (targets.flatMap Target.written ++ ns) := by
  induction targets with
  | nil => simpa using htext
  | cons target targets ih =>
    obtain ⟨⟨shown, hshown, hshows⟩, htargets⟩ := List.forall_mem_cons.1 h
    rw [List.map_cons, String.join_cons, hshown, Option.getD_some, String.append_assoc,
      List.flatMap_cons, List.append_assoc]
    exact hshows.joined rfl (ih htargets)

namespace TypedStmt

variable {t : TypedStmt} {ts : List TypedStmt} {depth : Nat}

/-- A statement in front of others. -/
theorem showsLines_cons (ht : ShowsLines (t.lines depth) t.written)
    (hts : ShowsLines (linesOf depth ts) (writtenAll ts)) :
    ShowsLines (linesOf depth (t :: ts)) (writtenAll (t :: ts)) := by
  rw [linesOf, writtenAll]
  exact ht.append hts

theorem shows_conditionText {table : SymbolTable} {test : TypedExpr} (h : test.Proper table) :
    Shows test.conditionText (test.written false) := by
  unfold Shows TypedExpr.conditionText
  split
  · exact h.signedIntegers_text false
  · rw [TypedExpr.signedIntegers_group _ rfl rfl rfl, h.signedIntegers_text]

/-- A block shows what its header shows and what its statements show. -/
theorem showsLines_frame {header : String} {ns : List Int} (hheader : Shows header ns)
    (hbody : ShowsLines (linesOf (depth + 1) ts) (writtenAll ts)) :
    ShowsLines (frame depth (.block header "\x7d") (linesOf (depth + 1) ts))
      (ns ++ writtenAll ts) := by
  have hbrace : Shows "\x7d" [] := rfl
  have hlines := ((hheader.line depth).append hbody).append (hbrace.line depth)
  rwa [List.append_nil] at hlines

end TypedStmt

open TypedStmt in
/-- **The lines of a block show the integers that it is written with**, and nothing else. -/
theorem Lowers.showsLines {table table₁ : SymbolTable} {ss : List Stmt} {ts : List TypedStmt}
    (h : Lowers table ss ts table₁) (hss : ∀ e ∈ Stmt.exprsAll ss, e.Worded) (depth : Nat) :
    ShowsLines (linesOf depth ts) (writtenAll ts) := by
  induction h generalizing depth with
  | nil => rfl
  | assign hv _ haims _ hsettles _ ih =>
    obtain ⟨hs, hss⟩ := List.forall_mem_append.1 hss
    obtain ⟨hvalue, htargets⟩ := List.forall_mem_cons.1 hs
    have hstored := shows_targets (hsettles.isShown haims htargets)
      ((hvalue.proper hv).signedIntegers_text false)
    exact showsLines_cons ((hstored.ended rfl).line depth) (ih hss depth)
  | @augAssign _ _ _ op _ _ target value _ _ hv ht _ _ ih =>
    obtain ⟨hs, hss⟩ := List.forall_mem_append.1 hss
    obtain ⟨htarget, hvalue⟩ := List.forall_mem_cons.1 hs
    have hvalue := (List.forall_mem_singleton.1 hvalue).proper hv
    have hop : C.separates (" " ++ op.spelling ++ "= ").toList = true := by cases op <;> rfl
    have hupdate := Shows.joined ((htarget.proper ht).signedIntegers_text false) hop
      (hvalue.signedIntegers_text false)
    simp only [← String.append_assoc] at hupdate
    exact showsLines_cons ((hupdate.ended rfl).line depth) (ih hss depth)
  | ifThen ht _ _ ihb ih | whileLoop ht _ _ ihb ih =>
    obtain ⟨hs, hss⟩ := List.forall_mem_append.1 hss
    obtain ⟨htest, hs⟩ := List.forall_mem_cons.1 hs
    obtain ⟨hbody, -⟩ := List.forall_mem_append.1 hs
    refine showsLines_cons ?_ (ih hss depth)
    rw [lines, TypedStmt.text, written]
    have hcondition := shows_conditionText (htest.proper ht)
    refine showsLines_frame (.ended (hcondition.keyword _ ?_) ?_) (ihb hbody (depth + 1))
    · simp
    · rfl
  | retNone _ ih =>
    obtain ⟨-, hss⟩ := List.forall_mem_append.1 hss
    have hreturn : Shows "return;" [] := rfl
    exact showsLines_cons (hreturn.line depth) (ih hss depth)
  | @retSome _ _ _ _ v _ _ _ hv _ _ ih =>
    obtain ⟨hs, hss⟩ := List.forall_mem_append.1 hss
    have hvalue : Shows v.text (v.written false) :=
      ((hs _ List.mem_cons_self).proper hv).signedIntegers_text false
    have hline : Shows ("return " ++ v.text ++ ";") (v.written false) :=
      (hvalue.keyword "return " (by simp)).ended rfl
    rw [← List.append_nil (v.written false)] at hline
    exact showsLines_cons (hline.line depth) (ih hss depth)
  | expression ht _ ih =>
    obtain ⟨hs, hss⟩ := List.forall_mem_append.1 hss
    have hexpr := ((hs _ List.mem_cons_self).proper ht).signedIntegers_text false
    exact showsLines_cons ((Shows.ended hexpr rfl).line depth) (ih hss depth)

/-! ### Texts of functions -/

/-- Neither a word nor a sign stands in an indentation. -/
theorem signedIntegers_indentation (style : IndentStyle) (depth : Nat) (cs : List Char) :
    C.signedIntegers false (indentation style depth ++ cs) = C.signedIntegers false cs := by
  have hunit : ∀ c ∈ style.unit, c = '\t' ∨ c = ' ' := by
    cases style with
    | tab => exact List.forall_mem_singleton.2 (.inl rfl)
    | spaces count => exact fun c hc => .inr (List.eq_of_mem_replicate hc)
  have hblank : ∀ c ∈ indentation style depth, c = '\t' ∨ c = ' ' := by
    intro c hc
    obtain ⟨unit, hmem, hc⟩ := List.mem_flatten.1 hc
    rw [List.eq_of_mem_replicate hmem] at hc
    exact hunit c hc
  generalize indentation style depth = blanks at hblank
  induction blanks with
  | nil => rfl
  | cons c blanks ih =>
    obtain ⟨hc, hrest⟩ := List.forall_mem_cons.1 hblank
    have hone : C.signedIntegers false ([c] ++ (blanks ++ cs)) =
        C.signedIntegers false (blanks ++ cs) := by
      rcases hc with rfl | rfl <;> exact C.signedIntegers_append_marks rfl
    exact hone.trans (ih hrest)

/-- The output has the integer constants of its lines. -/
theorem signedIntegers_join (style : IndentStyle) (lines : List OutputLine) :
    C.signedIntegers false (String.join (lines.map (OutputLine.render style))).toList =
      lineIntegers lines := by
  have hend : C.separates ['\n'] = true := rfl
  induction lines with
  | nil => rfl
  | cons line lines ih =>
    rw [List.map_cons, String.join_cons, String.toList_append, toList_render,
      C.signedIntegers_separated hend, signedIntegers_indentation, ih]
    rfl

theorem TypedParam.shows_text {p : TypedParam} (h : IsName p.name.toList) : Shows p.text [] := by
  unfold text CType.parameter
  split <;> exact (shows_name (isName_spelling _)).joined rfl (shows_name h)

theorem ReturnType.shows_spelling (returns : ReturnType) : Shows returns.spelling [] := by
  cases returns with
  | void => rfl
  | value type => cases type <;> rfl

/-- A signature shows nothing. -/
theorem shows_signature {name : String} {params : List TypedParam} (hname : IsName name.toList)
    (hparams : ∀ p ∈ params, IsName p.name.toList) (returns : ReturnType) :
    Shows (returns.spelling ++ " " ++ name ++ "(" ++
      ", ".intercalate (params.map TypedParam.text) ++ ") \x7b") [] := by
  have hnone : Shows (", ".intercalate (params.map TypedParam.text)) [] := by
    rw [Shows, TypedExpr.signedIntegers_intercalate rfl, List.map_map, List.map_nil,
      List.flatten_eq_nil_iff, List.forall_mem_map]
    exact fun p hp => TypedParam.shows_text (hparams p hp)
  have hfront : Shows (returns.spelling ++ " " ++ name) [] :=
    returns.shows_spelling.joined rfl (shows_name hname)
  exact (hfront.joined rfl hnone).ended rfl

/-- **The output of a function shows the integers that its body is written with**, and nothing
else. -/
theorem FunctionDef.Worded.exists_shows {f : FunctionDef} (hf : f.Worded) {options : Options}
    {out : String} (h : (f.emit options).result = .ok out) :
    ∃ params returns table body table₁,
      out = String.join ((functionLines f.name params returns body).map
        (OutputLine.render options.indent)) ∧
      Lowers table f.body body table₁ ∧ Shows out (TypedStmt.writtenAll body) := by
  obtain ⟨params, declared, body, unified, hparams, -, hbody, -, -, rfl⟩ := emit_eq_ok_iff.1 h
  obtain ⟨table, table₁, hlower⟩ := lowerAll_of_lowerBody hbody
  have hlowers := lowers_of_lowerAll hlower
  refine ⟨params, unified.getD .void, table, body, table₁, rfl, hlowers, ?_⟩
  have hnames : ∀ p ∈ params, IsName p.name.toList := by
    intro p hp
    obtain ⟨q, hq, hqp⟩ := List.mem_map.1 (names_of_typedParams hparams ▸ List.mem_map_of_mem hp)
    exact hqp ▸ hf.params q hq
  have hsignature := shows_signature hf.name hnames (unified.getD .void)
  rw [Shows, signedIntegers_join]
  exact TypedStmt.showsLines_frame hsignature (hlowers.showsLines hf.exprs 1)

end DefToC
