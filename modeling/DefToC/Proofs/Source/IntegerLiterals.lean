import DefToC.Proofs.Typed.IntegerTexts
import Mathlib

/-!
# Integer literals keep their values

An integer goes from the source to the output in three steps. It is read from a number that is made
of digits, where it has to fit into 32 bits. It becomes a constant of a typed tree, where a sign in
a list is folded into it. And it is written in decimal digits, without a zero in front. So the
integers of the output, read as C, are those of the source with their signs, and none of them is too
large.
-/

namespace DefToC

open Reading

/-! ### Constants of typed trees -/

theorem magnitudes_flatMap {α : Type} (as : List α) (f : α → List Literal) :
    magnitudes (as.flatMap f) = as.flatMap fun a => magnitudes (f a) :=
  List.filterMap_flatMap

namespace Expr

theorem constantsAll_map {f : Expr → Expr} {es : List Expr}
    (h : ∀ e ∈ es, (f e).constants = e.constants) :
    constantsAll (es.map f) = constantsAll es := by
  rw [constantsAll_eq_flatMap, constantsAll_eq_flatMap, List.flatMap_map]
  exact List.flatMap_congr h

theorem magnitudes_constantsAll_map {f : Expr → Expr} {es : List Expr}
    (h : ∀ e ∈ es, magnitudes (f e).constants = magnitudes e.constants) :
    magnitudes (constantsAll (es.map f)) = magnitudes (constantsAll es) := by
  rw [constantsAll_eq_flatMap, constantsAll_eq_flatMap, List.flatMap_map, magnitudes_flatMap,
    magnitudes_flatMap]
  exact List.flatMap_congr h

/-- Constants do not depend on spans. -/
theorem constants_bare (e : Expr) : e.bare.constants = e.constants := by
  induction e with
  | name | constant => rfl
  | list _ _ ih => simp only [bare, constants, bareAll_eq_map, constantsAll_map ih]
  | compare _ _ _ _ ihl ih => simp only [bare, constants, bareAll_eq_map, ihl, constantsAll_map ih]
  | binary _ _ _ _ ihl ihr => simp only [bare, constants, ihl, ihr]
  | unary _ _ _ ih => simp only [bare, constants, ih]
  | boolOp _ _ _ ih => simp only [bare, constants, bareAll_eq_map, constantsAll_map ih]
  | subscript _ _ _ ihv ihs => simp only [bare, constants, ihv, ihs]
  | call _ _ _ ih => simp only [bare, constants, bareAll_eq_map, constantsAll_map ih]

/-- A sign does not change an absolute value. -/
theorem magnitudes_foldSign (e : Expr) :
    magnitudes e.foldSign.constants = magnitudes e.constants := by
  unfold foldSign
  split
  · rfl
  · rfl
  · simp [constants, magnitudes, Literal.magnitude?]
  · rfl
  · rfl

theorem magnitudes_folded (e : Expr) : magnitudes e.folded.constants = magnitudes e.constants := by
  induction e with
  | name | constant => rfl
  | list elements _ _ =>
    have helements : magnitudes (constantsAll (elements.map foldSign)) =
        magnitudes (constantsAll elements) :=
      magnitudes_constantsAll_map fun e _ => e.magnitudes_foldSign
    simp only [folded, constants, helements]
  | compare _ _ _ _ ihl ih =>
    simp only [folded, constants, foldedAll_eq_map, magnitudes_append, ihl,
      magnitudes_constantsAll_map ih]
  | binary _ _ _ _ ihl ihr => simp only [folded, constants, magnitudes_append, ihl, ihr]
  | unary _ _ _ ih => simp only [folded, constants, ih]
  | boolOp _ _ _ ih =>
    simp only [folded, constants, foldedAll_eq_map, magnitudes_constantsAll_map ih]
  | subscript _ _ _ ihv ihs => simp only [folded, constants, magnitudes_append, ihv, ihs]
  | call _ _ _ ih =>
    simp only [folded, constants, foldedAll_eq_map, magnitudes_constantsAll_map ih]

end Expr

namespace Stmt

theorem constantsAll_map {f : Stmt → Stmt} {ss : List Stmt}
    (h : ∀ s ∈ ss, (f s).constants = s.constants) :
    constantsAll (ss.map f) = constantsAll ss := by
  rw [constantsAll_eq_flatMap, constantsAll_eq_flatMap, List.flatMap_map]
  exact List.flatMap_congr h

theorem magnitudes_constantsAll_map {f : Stmt → Stmt} {ss : List Stmt}
    (h : ∀ s ∈ ss, magnitudes (f s).constants = magnitudes s.constants) :
    magnitudes (constantsAll (ss.map f)) = magnitudes (constantsAll ss) := by
  rw [constantsAll_eq_flatMap, constantsAll_eq_flatMap, List.flatMap_map, magnitudes_flatMap,
    magnitudes_flatMap]
  exact List.flatMap_congr h

theorem constants_bare (s : Stmt) : s.bare.constants = s.constants := by
  have hexprs (es : List Expr) : Expr.constantsAll (es.map Expr.bare) = Expr.constantsAll es :=
    Expr.constantsAll_map fun e _ => e.constants_bare
  induction s with
  | assign => simp only [bare, constants, Expr.bareAll_eq_map, hexprs, Expr.constants_bare]
  | augAssign => simp only [bare, constants, Expr.constants_bare]
  | ifThen _ _ _ _ ihb iho | whileLoop _ _ _ _ ihb iho =>
    simp only [bare, constants, bareAll_eq_map, Expr.constants_bare, constantsAll_map ihb,
      constantsAll_map iho]
  | ret value =>
    have hvalue := hexprs value.toList
    cases value with
    | none => rfl
    | some value => exact hvalue
  | expression => simp only [bare, constants, Expr.constants_bare]

theorem magnitudes_folded (s : Stmt) : magnitudes s.folded.constants = magnitudes s.constants := by
  have hexprs (es : List Expr) : magnitudes (Expr.constantsAll (es.map Expr.folded)) =
      magnitudes (Expr.constantsAll es) :=
    Expr.magnitudes_constantsAll_map fun e _ => e.magnitudes_folded
  induction s with
  | assign => simp only [folded, constants, magnitudes_append, hexprs, Expr.magnitudes_folded]
  | augAssign => simp only [folded, constants, magnitudes_append, Expr.magnitudes_folded]
  | ifThen _ _ _ _ ihb iho | whileLoop _ _ _ _ ihb iho =>
    simp only [folded, constants, foldedAll_eq_map, magnitudes_append, Expr.magnitudes_folded,
      magnitudes_constantsAll_map ihb, magnitudes_constantsAll_map iho]
  | ret value =>
    have hvalue := hexprs value.toList
    cases value with
    | none => rfl
    | some value => exact hvalue
  | expression => simp only [folded, constants, Expr.magnitudes_folded]

end Stmt

/-- **A typed block has the constants of its source**, with the signs in lists folded into them. -/
theorem Lowers.constants_erase {table table₁ : SymbolTable} {ss : List Stmt} {ts : List TypedStmt}
    (h : Lowers table ss ts table₁) (hss : ∀ s ∈ ss, s.Shaped Literal.Small) :
    Stmt.constantsAll (ts.map TypedStmt.erase) = Stmt.constantsAll (ss.map Stmt.folded) := by
  have hbare (ss : List Stmt) : Stmt.constantsAll (ss.map Stmt.bare) = Stmt.constantsAll ss :=
    Stmt.constantsAll_map fun s _ => s.constants_bare
  rw [← hbare (ts.map _), h.map_bare_erase hss, hbare]

/-! ### Sizes of arrays -/

/-- Only a list becomes an array. -/
theorem Expr.exists_list_of_folded {value : Expr} {es : List Expr} {span : Span}
    (h : value.folded.bare = .list es span) :
    ∃ elements inner, value = .list elements inner ∧ elements.length = es.length := by
  cases value with
  | list elements inner =>
    simp only [folded, bare, bareAll_eq_map, list.injEq] at h
    exact ⟨elements, inner, rfl, by simp [← h.1]⟩
  | _ => cases h

theorem Settles.arraySize?_of_mem {table table₁ : SymbolTable} {type : ValueType}
    {size : Option Nat} {found settled : List Target} {n : Nat}
    (h : Settles type size found table settled table₁)
    (hn : n ∈ settled.filterMap Target.declaredSize?) : size = some n := by
  obtain ⟨target, htarget, hsize⟩ := List.mem_filterMap.1 hn
  cases h with
  | existing hold =>
    have hnew := (hold target htarget).1
    cases target with
    | var v =>
      have hv : v.isNew = false := hnew
      simp [Target.declaredSize?, hv] at hsize
    | subscript e => cases hsize
  | introduced =>
    obtain rfl := List.mem_singleton.1 htarget
    exact (Option.ite_none_right_eq_some.1 hsize).2

/-- The sizes that are declared are those of lists in the source. -/
theorem Lowers.exists_list_of_mem_sizesAll {table table₁ : SymbolTable} {ss : List Stmt}
    {ts : List TypedStmt} (h : Lowers table ss ts table₁)
    (hss : ∀ s ∈ ss, s.Shaped Literal.Small) {n : Nat} (hn : n ∈ TypedStmt.sizesAll ts) :
    ∃ elements span, Expr.list elements span ∈ Stmt.exprsAll ss ∧ elements.length = n := by
  induction h with
  | nil => cases hn
  | @assign _ _ _ _ _ value _ v _ _ _ _ _ hv _ _ _ hsettles _ ih =>
    obtain ⟨hs, hss⟩ := List.forall_mem_cons.1 hss
    rcases List.mem_append.1 hn with hn | hn
    · cases hs with
      | assign _ _ _ hvalue =>
        have hsize := hsettles.arraySize?_of_mem hn
        have herase := hvalue.bare_erase hv
        cases v with
        | array ls inner =>
          obtain ⟨elements, span, rfl, hlength⟩ := Expr.exists_list_of_folded herase.symm
          refine ⟨elements, span, List.mem_append_left _ List.mem_cons_self, ?_⟩
          rw [hlength, ← Option.some.inj hsize]
          simp
        | _ => cases hsize
    · obtain ⟨elements, span, hmem, hlength⟩ := ih hss hn
      exact ⟨elements, span, List.mem_append_right _ hmem, hlength⟩
  | ifThen _ _ _ ihb ih | whileLoop _ _ _ ihb ih =>
    obtain ⟨hs, hss⟩ := List.forall_mem_cons.1 hss
    rcases List.mem_append.1 hn with hn | hn
    · cases hs
      rename_i hbody _
      obtain ⟨elements, span, hmem, hlength⟩ := ihb hbody hn
      exact ⟨elements, span, by simp [Stmt.exprsAll, Stmt.exprs, hmem], hlength⟩
    · obtain ⟨elements, span, hmem, hlength⟩ := ih hss hn
      exact ⟨elements, span, List.mem_append_right _ hmem, hlength⟩
  | augAssign _ _ _ _ ih | retNone _ ih | retSome _ _ _ ih | expression _ _ ih =>
    obtain ⟨elements, span, hmem, hlength⟩ := ih (List.forall_mem_cons.1 hss).2 hn
    exact ⟨elements, span, List.mem_append_right _ hmem, hlength⟩

/-! ### Texts of integers -/

/-- The value of an integer with or without a sign, as C reads it. -/
def C.signed? : List Char → Option Int
  | '-' :: cs => (constant? cs).map fun n => -(n : Int)
  | cs => (constant? cs).map fun n => (n : Int)

/-- **The text of an integer is read as that integer by C.** -/
theorem C.signed?_text (n : Int) : signed? (Literal.int n).text.toList = some n := by
  obtain ⟨m, rfl | rfl⟩ := n.eq_nat_or_neg
  · rw [Literal.text, toList_toString_natCast]
    have hdigit : ∀ c ∈ Nat.toDigits 10 m, c.isDigit = true :=
      fun c hc => isDigit_of_mem_toDigits hc
    unfold signed?
    split
    · rename_i htext
      rw [htext] at hdigit
      cases hdigit '-' List.mem_cons_self
    · rw [constant?_toDigits]
      rfl
  · cases m with
    | zero => rfl
    | succ m =>
      rw [Literal.text, toList_toString_neg, signed?, constant?_toDigits]
      rfl

theorem magnitudes_eq_map_natAbs (ls : List Literal) :
    magnitudes ls = (ls.filterMap Literal.int?).map Int.natAbs := by
  induction ls with
  | nil => rfl
  | cons l ls ih =>
    cases l with
    | int n => rw [magnitudes_cons, ih]; rfl
    | bool _ | float _ => exact ih

/-! ### From the source to the output -/

/-- The function is written out with the integers of its source: the typed body is what the output
is made from. -/
structure FunctionDef.KeepsIntegers (f : FunctionDef) (style : IndentStyle) (out : String)
    (body : List TypedStmt) : Prop where
  /-- The output is made of the lines of the typed body. -/
  written : ∃ params returns, out =
    String.join ((functionLines f.name params returns body).map (OutputLine.render style))
  /-- The typed body has the constants of the function, with the signs in lists folded into them. -/
  constants : Stmt.constantsAll (body.map TypedStmt.erase) =
    Stmt.constantsAll (f.body.map Stmt.folded)
  /-- Its integers fit into 32 bits with either sign, and C reads their texts as they are. -/
  integers : ∀ n ∈ Stmt.integersAll (body.map TypedStmt.erase),
    n.natAbs ≤ 2147483647 ∧ C.signed? (Literal.int n).text.toList = some n
  /-- The integer constants of the output, in the order of the text and each with the sign directly
  in front of it, are those that the typed body is written with. So an element of a list has there
  the sign that is folded into it. -/
  signed : C.signedIntegers false out.toList = (TypedStmt.writtenAll body).map some
  /-- Without signs, they are those of the function and the sizes of arrays. -/
  shown : ∀ x, x ∈ C.integers out.toList ↔
    x ∈ ((Stmt.integersAll f.body).map Int.natAbs ++ TypedStmt.sizesAll body).map some
  /-- The size of an array is the number of elements of a list. -/
  sizes : ∀ n ∈ TypedStmt.sizesAll body,
    ∃ elements span, Expr.list elements span ∈ Stmt.exprsAll f.body ∧ elements.length = n

theorem Program.mem_integers {p : Program} {f : FunctionDef} (hf : f ∈ p.functions) {n : Int}
    (hn : n ∈ Stmt.integersAll f.body) : n ∈ p.integers := by
  obtain ⟨l, hl, hint⟩ := List.mem_filterMap.1 hn
  exact List.mem_filterMap.2 ⟨l, List.mem_flatMap.2 ⟨f, hf, hl⟩, hint⟩

theorem FunctionDef.IsChosen.exists_keepsIntegers {source file : String} {name : Option String}
    {f : FunctionDef} (hf : f.IsChosen source file name) {options : Options} {out : String}
    (h : (f.emit options).result = .ok out) :
    ∃ body, f.KeepsIntegers options.indent out body := by
  obtain ⟨params, returns, table, body, table₁, hout, hlowers, hshows⟩ := hf.worded.exists_shows h
  obtain ⟨tokens, program, htokens, hprogram, hselect⟩ := hf
  have hmem := Program.mem_of_select hselect
  have hshaped := Program.shaped_of_parse Literal.covers_small hprogram f hmem
  have hconstants := hlowers.constants_erase hshaped
  have hmagnitudes : magnitudes (Stmt.constantsAll (body.map TypedStmt.erase)) =
      (Stmt.integersAll f.body).map Int.natAbs := by
    rw [hconstants, Stmt.magnitudes_constantsAll_map fun s _ => s.magnitudes_folded]
    exact magnitudes_eq_map_natAbs _
  refine ⟨body, ⟨params, returns, hout⟩, hconstants, fun n hn => ⟨?_, C.signed?_text n⟩, hshows,
    fun x => ?_, fun n hn => hlowers.exists_list_of_mem_sizesAll hshaped hn⟩
  · -- up to its sign, an integer of the body is one of the source
    have habs : n.natAbs ∈ (Stmt.integersAll f.body).map Int.natAbs := by
      rw [← hmagnitudes, magnitudes_eq_map_natAbs]
      exact List.mem_map_of_mem hn
    obtain ⟨m, hm, hnm⟩ := List.mem_map.1 habs
    have hrange := Program.integers_le_of_parse htokens hprogram m (Program.mem_integers hmem hm)
    omega
  · rw [hshows.mem_integers fun m => TypedStmt.mem_writtenAll m body, TypedStmt.numbersAll,
      hmagnitudes]

/-- **Integers keep their values.** A number of the source that is made of digits is read as its
decimal value, whatever zeros stand in front, if that fits into 32 bits; otherwise no expression
begins with it. So the integers of a program are the numbers of its source, in order, all of them
fit into 32 bits, and none is changed by the negation of 64 bits other than in its sign. The output
is written with these integers, each with its sign, and has no others than the sizes of arrays. -/
theorem integers_keep_value {source file : String} {tokens : List Token}
    (htokens : tokenize file source = .ok tokens) :
    (∀ t ∈ tokens, t.isInteger = true → ∀ c : Cursor,
      (t.integer ≤ 2147483647 →
        Gives (Expr.parsePrimary (c.push t)) (.constant (.int t.integer) t.span) c) ∧
      (2147483647 < t.integer → ∀ power, Expr.parse .standard power (c.push t) =
        .error ⟨⟨.numberParseError t.value, t.span.position⟩, c.push t⟩)) ∧
    (∀ program, (Program.parse file tokens).result = .ok program →
      (tokens.filter Token.isInteger).map (fun t => (t.integer : Int)) = program.integers ∧
      ∀ n ∈ program.integers, 0 ≤ n ∧ n ≤ 2147483647 ∧ Literal.negInt n = -n) ∧
    ∀ name options out, (emitSource source file name options).result = .ok out →
      ∃ (f : FunctionDef) (body : List TypedStmt), f.IsChosen source file name ∧
        f.KeepsIntegers options.indent out body := by
  refine ⟨fun t ht hinteger c => ⟨fun hle => ?_, fun hlt power => ?_⟩, fun program hp =>
    ⟨Program.integers_of_parse htokens hp, fun n hn => ?_⟩, fun name options out h => ?_⟩
  · exact Expr.gives_parsePrimary_integer (lexical_of_tokenize htokens t ht) hinteger hle
  · exact Expr.parse_integer_error (lexical_of_tokenize htokens t ht) hinteger hlt power
  · obtain ⟨hlow, hhigh⟩ := Program.integers_le_of_parse htokens hp n hn
    have hsmall : Literal.Small (.int n) := by
      rintro _ ⟨⟩
      omega
    exact ⟨hlow, hhigh, hsmall.negInt_eq⟩
  · obtain ⟨f, hf, hout⟩ := exists_isChosen_of_emitSource h
    obtain ⟨body, hbody⟩ := hf.exists_keepsIntegers hout
    exact ⟨f, body, hf, hbody⟩

/-- A function with zeros in front of its integers, and with a sign in its list. -/
def paddedIntegers : String := "def f():\n a = [007, -2147483647]\n return 08\n"

theorem integers_keep_value_padded :
    ∃ tokens program, tokenize "f" paddedIntegers = .ok tokens ∧
      (Program.parse "f" tokens).result = .ok program ∧ program.integers = [7, 2147483647, 8] ∧
      (∀ n ∈ program.integers, 0 ≤ n ∧ n ≤ 2147483647 ∧ Literal.negInt n = -n) ∧
      ∃ (f : FunctionDef) (body : List TypedStmt), f.IsChosen paddedIntegers "f" none ∧
        f.KeepsIntegers .tab
          "int f() \x7b\n\tint a[2] = \x7b7, -2147483647\x7d;\n\treturn 8;\n\x7d\n" body ∧
        TypedStmt.writtenAll body = [2, 7, -2147483647, 8] := by
  have hvalues : (tokenize "f" paddedIntegers).map (fun tokens =>
      (tokens.filter Token.isInteger).map fun t => (t.integer : Int)) =
        .ok [7, 2147483647, 8] := by
    decide +kernel
  have hout : (emitSource paddedIntegers "f" none ⟨none, [], .tab⟩).result =
      .ok "int f() \x7b\n\tint a[2] = \x7b7, -2147483647\x7d;\n\treturn 8;\n\x7d\n" := by
    decide +kernel
  have hsteps := hout
  rw [emitSource_result] at hsteps
  obtain ⟨tokens, htokens, hsteps⟩ := bind_eq_ok_iff.1 hsteps
  obtain ⟨program, hprogram, -⟩ := bind_eq_ok_iff.1 hsteps
  obtain ⟨-, htrees, houtput⟩ := integers_keep_value htokens
  obtain ⟨hintegers, hrange⟩ := htrees program hprogram
  rw [htokens] at hvalues
  obtain ⟨f, body, hf, hkeeps⟩ := houtput none _ _ hout
  have hread : (TypedStmt.writtenAll body).map some = [2, 7, -2147483647, 8].map some :=
    hkeeps.signed.symm.trans (by decide +kernel)
  exact ⟨tokens, program, htokens, hprogram, hintegers.symm.trans (Except.ok.inj hvalues), hrange,
    f, body, hf, hkeeps, List.map_injective_iff.2 (Option.some_injective Int) hread⟩

end DefToC
