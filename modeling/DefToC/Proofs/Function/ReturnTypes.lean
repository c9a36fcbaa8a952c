import DefToC.Proofs.Function.Emission

/-!
# The type of a function's results

The results of a function are unified on a walk through its blocks, which takes the type that is
fixed so far along and ends at the first difference. The walk does what a scan of the return
statements of all depths does that knows nothing of blocks (`TypedStmt.unifyAll_result`), and such a
scan compares each of them with the first one (`Returned.scan_some`). So a function fails at its
first return statement that differs from the first, or else where it declares another type, and is
otherwise written with the type of its first return statement.
-/

namespace DefToC

/-- A return statement of the output. -/
structure Returned where
  /-- What is given back. -/
  value : Option TypedExpr
  /-- The type that the statement has. -/
  type : ReturnType
  /-- Where it stands. -/
  span : Span

namespace TypedStmt

mutual

/-- The return statements in a statement, of all depths and in order. -/
def returned : TypedStmt → List Returned
  | ret value type span => [⟨value, type, span⟩]
  | ifThen _ body _ => returnedAll body
  | whileLoop _ body _ => returnedAll body
  | _ => []

/-- The return statements in the statements of a block. -/
def returnedAll : List TypedStmt → List Returned
  | [] => []
  | s :: ss => s.returned ++ returnedAll ss

end

end TypedStmt

namespace Returned

/-- The type of the first of several return statements. There is no result if there is none. -/
def commonType (rs : List Returned) : ReturnType := (rs.head?.map type).getD .void

/-- All return statements have one type. -/
def Uniform (rs : List Returned) : Prop := ∀ r ∈ rs, r.type = commonType rs

/-- The error tells of the first return statement that has not the type of the first one. -/
def Conflict (rs : List Returned) (e : Error) : Prop :=
  ∃ first front other back, rs = first :: (front ++ other :: back) ∧
    (∀ r ∈ front, r.type = first.type) ∧ other.type ≠ first.type ∧
    e = ⟨.inconsistentReturnType first.type.spelling other.type.spelling, other.span.position⟩

/-- The return statement gives back a value of the type, or none if there is no result. -/
def HasType (r : Returned) : ReturnType → Prop
  | .void => r.value = none
  | .value type => ∃ v, r.value = some v ∧ v.type? = some type

variable {first : Returned} {rest rs : List Returned} {e : Error}

theorem uniform_nil : Uniform [] := List.forall_mem_nil _

/-! The first of several return statements is compared with each of the others in order. -/

theorem uniform_cons_iff :
    Uniform (first :: rest) ↔ rest.find? (·.type ≠ first.type) = none := by
  simp [Uniform, commonType]

theorem not_conflict_nil : ¬Conflict [] e := by
  rintro ⟨first, front, other, back, h, -⟩
  cases h

theorem conflict_cons_iff :
    Conflict (first :: rest) e ↔ ∃ other, rest.find? (·.type ≠ first.type) = some other ∧
      e = ⟨.inconsistentReturnType first.type.spelling other.type.spelling,
        other.span.position⟩ := by
  constructor
  · rintro ⟨_, front, other, back, hrs, hfront, hother, rfl⟩
    obtain ⟨rfl, rfl⟩ := List.cons.inj hrs
    refine ⟨other, List.find?_eq_some_iff_append.2 ⟨?_, front, back, rfl, ?_⟩, rfl⟩
    · simpa using hother
    · simpa using hfront
  · rintro ⟨other, hfind, rfl⟩
    obtain ⟨hother, front, back, rfl, hfront⟩ := List.find?_eq_some_iff_append.1 hfind
    exact ⟨first, front, other, back, rfl, by simpa using hfront, by simpa using hother, rfl⟩

theorem exists_conflict_iff_not_uniform : (∃ e, Conflict rs e) ↔ ¬Uniform rs := by
  obtain _ | ⟨first, rest⟩ := rs
  · exact iff_of_false (not_exists.2 fun _ => not_conflict_nil) (not_not.2 uniform_nil)
  · simp only [uniform_cons_iff, conflict_cons_iff]
    cases rest.find? (·.type ≠ first.type) <;> simp

theorem exists_conflict_iff :
    (∃ e, Conflict rs e) ↔ ∃ r ∈ rs, ∃ r' ∈ rs, r.type ≠ r'.type := by
  constructor
  · rintro ⟨e, first, front, other, back, rfl, -, hne, -⟩
    exact ⟨other, by simp, first, by simp, hne⟩
  · rintro ⟨r, hr, r', hr', hne⟩
    refine exists_conflict_iff_not_uniform.2 fun h => hne ?_
    rw [h r hr, h r' hr']

/-! ### Scanning -/

/-- Unify return statements one after another. -/
def scan (unified : Option ReturnType) (rs : List Returned) : Except Error (Option ReturnType) :=
  rs.foldlM (fun unified r => (TypedStmt.unifyReturn unified r.type r.span).result) unified

theorem scan_append {unified : Option ReturnType} {rs' : List Returned} :
    scan unified (rs ++ rs') = scan unified rs >>= fun unified => scan unified rs' :=
  List.foldlM_append

theorem scan_cons {unified : Option ReturnType} :
    scan unified (first :: rest) =
      (TypedStmt.unifyReturn unified first.type first.span).result >>= fun unified =>
        scan unified rest :=
  List.foldlM_cons

/-- Once the type is fixed, a scan looks for a return statement of another type. -/
theorem scan_some {expected : ReturnType} :
    scan (some expected) rs =
      match rs.find? (·.type ≠ expected) with
      | none => .ok (some expected)
      | some other => .error ⟨.inconsistentReturnType expected.spelling other.type.spelling,
          other.span.position⟩ := by
  induction rs with
  | nil => rfl
  | cons r rs ih =>
    rw [scan_cons, TypedStmt.unifyReturn]
    by_cases h : expected = r.type
    · rw [if_pos h, List.find?_cons_of_neg (by simp [h])]
      exact ih
    · rw [if_neg h, List.find?_cons_of_pos (by simpa using Ne.symm h)]
      rfl

theorem scan_none_cons : scan none (first :: rest) = scan (some first.type) rest := scan_cons

theorem scan_eq_error_iff : scan none rs = .error e ↔ Conflict rs e := by
  obtain _ | ⟨first, rest⟩ := rs
  · exact iff_of_false nofun not_conflict_nil
  · rw [scan_none_cons, scan_some, conflict_cons_iff]
    cases rest.find? (·.type ≠ first.type) with
    | none => simp
    | some other => simp [eq_comm]

theorem scan_eq_ok_iff {unified : Option ReturnType} :
    scan none rs = .ok unified ↔ Uniform rs ∧ unified = rs.head?.map type := by
  obtain _ | ⟨first, rest⟩ := rs
  · simp [scan, uniform_nil, pure, Except.pure, eq_comm]
  · rw [scan_none_cons, scan_some, uniform_cons_iff]
    cases rest.find? (·.type ≠ first.type) with
    | none => simp [eq_comm]
    | some other => simp

end Returned

/-! ### Blocks -/

namespace TypedStmt

mutual

theorem unify_result (unified : Option ReturnType) :
    ∀ s : TypedStmt, (s.unify unified).result = Returned.scan unified s.returned
  | ret value type span => by
    rw [unify, returned, Returned.scan_cons]
    exact (bind_pure _).symm
  | ifThen _ body _ => by rw [unify, returned, unifyAll_result unified body]
  | whileLoop _ body _ => by rw [unify, returned, unifyAll_result unified body]
  | assign _ _ _ => rfl
  | augAssign _ _ _ _ => rfl
  | expression _ _ => rfl

/-- **Unifying the results of nested blocks** is scanning the return statements of all depths. -/
theorem unifyAll_result (unified : Option ReturnType) :
    ∀ ss : List TypedStmt, (unifyAll unified ss).result = Returned.scan unified (returnedAll ss)
  | [] => rfl
  | s :: ss => by
    rw [unifyAll, Traced.bind_result, unify_result unified s, returnedAll, Returned.scan_append]
    congr 1
    funext unified
    exact unifyAll_result unified ss

end

end TypedStmt

namespace Stmt

mutual

/-- The spans of the return statements in a statement of the source, of all depths and in order. -/
def returnSpans : Stmt → List Span
  | ret _ span => [span]
  | ifThen _ body orelse _ => returnSpansAll body ++ returnSpansAll orelse
  | whileLoop _ body orelse _ => returnSpansAll body ++ returnSpansAll orelse
  | _ => []

/-- The spans of the return statements in the statements of a block. -/
def returnSpansAll : List Stmt → List Span
  | [] => []
  | s :: ss => s.returnSpans ++ returnSpansAll ss

end

end Stmt

/-- The return statements of an accepted block are those of its source, and each has the type of
what it gives back. -/
theorem Lowers.returnedAll {ss : List Stmt} {ts : List TypedStmt} {table table₁ : SymbolTable}
    (h : Lowers table ss ts table₁) :
    (TypedStmt.returnedAll ts).map Returned.span = Stmt.returnSpansAll ss ∧
      ∀ r ∈ TypedStmt.returnedAll ts, r.HasType r.type := by
  induction h with
  | nil => exact ⟨rfl, List.forall_mem_nil _⟩
  | assign _ _ _ _ _ _ ih => exact ih
  | augAssign _ _ _ _ ih => exact ih
  | expression _ _ ih => exact ih
  | ifThen _ _ _ ihb ih | whileLoop _ _ _ ihb ih =>
    simp only [TypedStmt.returnedAll, TypedStmt.returned, Stmt.returnSpansAll, Stmt.returnSpans,
      List.map_append, ihb.1, ih.1, List.append_nil, List.forall_mem_append]
    exact ⟨trivial, ihb.2, ih.2⟩
  | retNone _ ih => exact ⟨congrArg _ ih.1, List.forall_mem_cons.2 ⟨rfl, ih.2⟩⟩
  | retSome _ htype _ ih =>
    exact ⟨congrArg _ ih.1, List.forall_mem_cons.2 ⟨⟨_, rfl, htype⟩, ih.2⟩⟩

/-! ### Functions -/

theorem checkDeclared_eq_error_iff {declared : Option (ReturnType × Position)}
    {returns : ReturnType} {e : Error} :
    checkDeclared declared returns = .error e ↔ ∃ expected position,
      declared = some (expected, position) ∧ expected ≠ returns ∧
      e = ⟨.inconsistentReturnType expected.spelling returns.spelling, position⟩ := by
  obtain _ | ⟨expected, position⟩ := declared
  · simp [checkDeclared]
  · rw [checkDeclared]
    split <;> simp_all [eq_comm]

section

variable {rs : List Returned} {declared : Option (ReturnType × Position)}
  {text : Option ReturnType → String}

/-- Unifying return statements and checking the declared result fails with a conflict between two
return statements, or between all of them and the declared result. -/
theorem scan_checkDeclared_eq_error_iff {e : Error} :
    (Returned.scan none rs >>= fun unified => checkDeclared declared (unified.getD .void) >>=
      fun _ => .ok (text unified)) = .error e ↔
      Returned.Conflict rs e ∨ Returned.Uniform rs ∧ ∃ expected position,
        declared = some (expected, position) ∧ expected ≠ Returned.commonType rs ∧
        e = ⟨.inconsistentReturnType expected.spelling (Returned.commonType rs).spelling,
          position⟩ := by
  rw [bind_eq_error_iff, Returned.scan_eq_error_iff]
  refine or_congr Iff.rfl ?_
  constructor
  · rintro ⟨unified, hscan, h⟩
    obtain ⟨huniform, rfl⟩ := Returned.scan_eq_ok_iff.1 hscan
    obtain h | ⟨_, -, h⟩ := bind_eq_error_iff.1 h
    · exact ⟨huniform, checkDeclared_eq_error_iff.1 h⟩
    · cases h
  · rintro ⟨huniform, h⟩
    refine ⟨_, Returned.scan_eq_ok_iff.2 ⟨huniform, rfl⟩, bind_eq_error_iff.2 (.inl ?_)⟩
    exact checkDeclared_eq_error_iff.2 h

theorem scan_checkDeclared_eq_ok_iff {t : String} :
    (Returned.scan none rs >>= fun unified => checkDeclared declared (unified.getD .void) >>=
      fun _ => .ok (text unified)) = .ok t ↔
      Returned.Uniform rs ∧ (∀ d ∈ declared, d.1 = Returned.commonType rs) ∧
        t = text (rs.head?.map Returned.type) := by
  rw [bind_eq_ok_iff]
  constructor
  · rintro ⟨unified, hscan, h⟩
    obtain ⟨huniform, rfl⟩ := Returned.scan_eq_ok_iff.1 hscan
    obtain ⟨_, hcheck, h⟩ := bind_eq_ok_iff.1 h
    exact ⟨huniform, checkDeclared_eq_ok_iff.1 hcheck, (Except.ok.inj h).symm⟩
  · rintro ⟨huniform, hd, rfl⟩
    refine ⟨_, Returned.scan_eq_ok_iff.2 ⟨huniform, rfl⟩, bind_eq_ok_iff.2 ⟨(), ?_, rfl⟩⟩
    exact checkDeclared_eq_ok_iff.2 hd

end

namespace FunctionDef

variable {f : FunctionDef} {options : Options} {params : List TypedParam}
  {declared : Option (ReturnType × Position)} {body : List TypedStmt}

/-- The place where a function declares its result is that of the written type. -/
theorem exists_returns_of_declared (h : f.declaredReturn = .ok declared) {expected : ReturnType}
    {position : Position} (hd : declared = some (expected, position)) :
    ∃ a, f.returns = some a ∧ position = a.position := by
  have hplace := map_position_declaredReturn h
  rw [hd, Option.map_some, eq_comm, Option.map_eq_some_iff] at hplace
  obtain ⟨a, ha, hposition⟩ := hplace
  exact ⟨a, ha, hposition.symm⟩

/-- What comes of a function whose signature and body are typed. -/
theorem emit_result_of_lowerBody (hparams : f.typedParams options = .ok params)
    (hdeclared : f.declaredReturn = .ok declared)
    (hbody : (f.lowerBody params options.externs declared .empty).result = .ok body) :
    (f.emit options).result = Returned.scan none (TypedStmt.returnedAll body) >>= fun unified =>
      checkDeclared declared (unified.getD .void) >>= fun _ =>
        .ok (String.join ((functionLines f.name params (unified.getD .void) body).map
          (OutputLine.render options.indent))) := by
  simp only [emit_result, hparams, hdeclared, ok_bind, hbody, TypedStmt.unifyAll_result]
  rfl

/-- The text of a function begins with its signature, and that with the type of its results. -/
theorem join_functionLines (name : String) (params : List TypedParam) (returns : ReturnType)
    (body : List TypedStmt) (style : IndentStyle) :
    String.join ((functionLines name params returns body).map (OutputLine.render style)) =
      returns.spelling ++ " " ++ name ++ "(" ++ ", ".intercalate (params.map TypedParam.text) ++
        ") \x7b\n" ++ String.join ((TypedStmt.linesOf 1 body).map (OutputLine.render style)) ++
        "\x7d\n" := by
  rw [← String.toList_inj]
  simp [functionLines, OutputLine.render]

/-- **The results of a function are those of its flat list of return statements.** Take the return
statements of all depths of a body that is typed, in the order of the text. The function fails with
the first of them that differs from the first one, so exactly if two of them differ; or it fails
where it declares a type that is not theirs. Otherwise its signature begins with the spelling of
their type, which each of them gives back, and with that of no result if there is no return
statement. -/
theorem emit_unifies_returns {rs : List Returned} (hparams : f.typedParams options = .ok params)
    (hdeclared : f.declaredReturn = .ok declared)
    (hbody : (f.lowerBody params options.externs declared .empty).result = .ok body)
    (hrs : rs = TypedStmt.returnedAll body) :
    rs.map Returned.span = Stmt.returnSpansAll f.body ∧
    (∀ e, (f.emit options).result = .error e ↔
      Returned.Conflict rs e ∨ Returned.Uniform rs ∧ ∃ a expected, f.returns = some a ∧
        declared = some (expected, a.position) ∧ expected ≠ Returned.commonType rs ∧
        e = ⟨.inconsistentReturnType expected.spelling (Returned.commonType rs).spelling,
          a.position⟩) ∧
    ((∃ e, Returned.Conflict rs e) ↔ ∃ r ∈ rs, ∃ r' ∈ rs, r.type ≠ r'.type) ∧
    (∀ text, (f.emit options).result = .ok text ↔
      Returned.Uniform rs ∧ (∀ d ∈ declared, d.1 = Returned.commonType rs) ∧
        text = String.join ((functionLines f.name params (Returned.commonType rs) body).map
          (OutputLine.render options.indent))) ∧
    (∀ text, (f.emit options).result = .ok text →
      text = (Returned.commonType rs).spelling ++ " " ++ f.name ++ "(" ++
        ", ".intercalate (params.map TypedParam.text) ++ ") \x7b\n" ++
        String.join ((TypedStmt.linesOf 1 body).map (OutputLine.render options.indent)) ++
        "\x7d\n") ∧
    (Returned.Uniform rs → ∀ r ∈ rs, r.HasType (Returned.commonType rs)) ∧
    (rs = [] → Returned.commonType rs = .void) := by
  obtain ⟨table, table₁, hlower⟩ := lowerAll_of_lowerBody hbody
  obtain ⟨hspans, htypes⟩ := (lowers_of_lowerAll hlower).returnedAll
  have hresult := emit_result_of_lowerBody hparams hdeclared hbody
  subst hrs
  refine ⟨hspans, fun e => ?_, Returned.exists_conflict_iff, fun text => ?_, fun text htext => ?_,
    ?_, ?_⟩
  · rw [hresult, scan_checkDeclared_eq_error_iff]
    refine or_congr Iff.rfl (and_congr Iff.rfl ?_)
    constructor
    · rintro ⟨expected, position, hd, hne, rfl⟩
      obtain ⟨a, ha, rfl⟩ := exists_returns_of_declared hdeclared hd
      exact ⟨a, expected, ha, hd, hne, rfl⟩
    · rintro ⟨a, expected, -, hd, hne, rfl⟩
      exact ⟨expected, a.position, hd, hne, rfl⟩
  · rw [hresult]
    exact scan_checkDeclared_eq_ok_iff
  · rw [hresult, scan_checkDeclared_eq_ok_iff] at htext
    obtain ⟨-, -, rfl⟩ := htext
    exact join_functionLines _ _ _ _ _
  · intro huniform r hr
    exact huniform r hr ▸ htypes r hr
  · intro hnil
    rw [hnil]
    rfl

/-- The function that is written

```
def f(n: int) -> int:
    while n > 0:
        return n
    return
```
-/
def emptyHanded : FunctionDef where
  name := "f"
  params := [⟨"n", some (.name "int" ⟨"m", 9⟩), ⟨"m", 6, 12⟩⟩]
  returns := some (.name "int" ⟨"m", 17⟩)
  body :=
    let test := Expr.compare (.name "n" ⟨"m", 32, 33⟩) [.gt] [.constant (.int 0) ⟨"m", 36, 37⟩]
      ⟨"m", 32, 37⟩
    [.whileLoop test [.ret (some (.name "n" ⟨"m", 54, 55⟩)) ⟨"m", 47, 55⟩] [] ⟨"m", 26, 55⟩,
     .ret none ⟨"m", 60, 66⟩]
  span := ⟨"m", 0, 66⟩

/-- The same with `return 0` at its end. -/
def evenHanded : FunctionDef :=
  { emptyHanded with
    body := emptyHanded.body.dropLast ++ [.ret (some (.constant (.int 0) ⟨"m", 67, 68⟩))
      ⟨"m", 60, 68⟩]
    span := ⟨"m", 0, 68⟩ }

theorem emit_unifies_returns_emptyHanded :
    (emptyHanded.emit ⟨none, [], .spaces 4⟩).result =
      .error ⟨.inconsistentReturnType "int" "void", ⟨"m", 60⟩⟩ ∧
    (evenHanded.emit ⟨none, [], .spaces 4⟩).result =
      .ok ("int f(int n) \x7b\n    while (n > 0) \x7b\n        return n;\n    \x7d\n" ++
        "    return 0;\n\x7d\n") := by
  constructor
  · exact ((emit_unifies_returns (f := emptyHanded) rfl rfl rfl rfl).2.1 _).2
      (.inl ⟨_, [], _, [], rfl, List.forall_mem_nil _, nofun, rfl⟩)
  · refine ((emit_unifies_returns (f := evenHanded) rfl rfl rfl rfl).2.2.2.1 _).2 ⟨?_, ?_, ?_⟩
    · exact List.forall_mem_cons.2 ⟨rfl, List.forall_mem_singleton.2 rfl⟩
    · rintro _ ⟨⟩
      rfl
    · rfl

end FunctionDef

end DefToC
