import DefToC.Proofs.Syntax.Spans
import DefToC.Proofs.Syntax.StmtDerivations

/-!
# What is wrong with a text that cannot be read

Reading fails at a token that cannot stand where it stands, or at a number that is too large. So
the causes that a reader can give are few (`Cause.isSyntactic`), and the place of an error is that
of one of the tokens from the first one on. This is shown along the recursion of the readers: each
of them fails with the failure of a reader that it uses, or with one of its own. An assignment to
something else than a variable or an element is refused where that expression begins, and every
expression begins where one of its tokens does (`Expr.Derives.begins`).
-/

namespace DefToC

/-- Whatever is wrong, it satisfies `P`. -/
def FailsIn {ε α : Type} (P : ε → Prop) (r : Except ε α) : Prop := ∀ e, r = .error e → P e

section

variable {ε α β : Type} {P : ε → Prop}

theorem failsIn_ok (a : α) : FailsIn P (.ok a : Except ε α) := nofun

theorem failsIn_error {e : ε} (h : P e) : FailsIn P (.error e : Except ε α) := by
  rintro _ ⟨⟩
  exact h

theorem failsIn_bind {x : Except ε α} {f : α → Except ε β} (hx : FailsIn P x)
    (hf : ∀ a, x = .ok a → FailsIn P (f a)) : FailsIn P (x >>= f) := by
  cases x with
  | error e => exact failsIn_error (hx e rfl)
  | ok a => exact hf a rfl

end

/-- The causes that a reader can give. -/
def Cause.isSyntactic : Cause → Bool
  | unexpectedToken _ | unexpectedTokenDetailed _ _ | numberParseError _ => true
  | _ => false

/-- An error of a reader that stands in front of the given tokens. -/
structure Error.IsSyntactic (row : List Token) (e : Error) : Prop where
  cause : e.cause.isSyntactic = true
  /-- The error is at one of the tokens. -/
  place : ∃ t ∈ row, e.position = t.span.position

theorem Error.IsSyntactic.mono {row row' : List Token} {e : Error} (h : e.IsSyntactic row)
    (hrow : row <:+ row') : e.IsSyntactic row' := by
  obtain ⟨t, ht, hposition⟩ := h.place
  exact ⟨h.cause, t, hrow.subset ht, hposition⟩

theorem Cursor.current_mem_row (c : Cursor) : c.current ∈ c.row := by
  obtain ⟨_ | ⟨t, ts⟩, v, s⟩ := c
  · exact List.mem_singleton_self _
  · exact List.mem_cons_self

theorem Cursor.row_push {c : Cursor} {t : Token} : c.row <:+ (c.push t).row :=
  List.suffix_cons t c.row

namespace Reading

variable {α β : Type} {m n : Nat} {c c₁ : Cursor}

/-- The reader fails for a cause that a reader can give and at one of the tokens from the cursor on,
or it stops at one of them. -/
structure Syntactic (c : Cursor) (r : Reading α n) : Prop where
  fails : FailsIn (fun failure : Failure => failure.error.IsSyntactic c.row) r
  stops : ∀ p, r = .ok p → p.next.row <:+ c.row

theorem syntactic_ok {a : α} {h : c.size < n} : Syntactic c (.ok ⟨a, c, h⟩ : Reading α n) := by
  refine ⟨failsIn_ok _, ?_⟩
  rintro _ ⟨⟩
  exact List.suffix_refl _

theorem syntactic_error {failure : Failure} (h : failure.error.IsSyntactic c.row) :
    Syntactic c (.error failure : Reading α n) :=
  ⟨failsIn_error h, nofun⟩

theorem syntactic_unexpected (c : Cursor) : Syntactic c (.error c.unexpected : Reading α n) :=
  syntactic_error ⟨rfl, c.current, c.current_mem_row, rfl⟩

theorem syntactic_unexpectedDetailed (c : Cursor) (message : String) :
    Syntactic c (.error (c.unexpectedDetailed message) : Reading α n) :=
  syntactic_error ⟨rfl, c.current, c.current_mem_row, rfl⟩

theorem Syntactic.mono {r : Reading α n} (hr : r.Syntactic c₁) (hrow : c₁.row <:+ c.row) :
    r.Syntactic c :=
  ⟨fun failure h => (hr.fails failure h).mono hrow, fun p hp => (hr.stops p hp).trans hrow⟩

theorem syntactic_bind_of_ok {r : Reading α n} {f : Parsed α n → Reading β m}
    (hr : r.Syntactic c) (hf : ∀ p, r = .ok p → (f p).Syntactic c) : Syntactic c (r >>= f) := by
  cases r with
  | error failure => exact syntactic_error (hr.fails failure rfl)
  | ok p => exact hf p rfl

theorem syntactic_bind {r : Reading α n} {f : Parsed α n → Reading β m} (hr : r.Syntactic c)
    (hf : ∀ p, (f p).Syntactic p.next) : Syntactic c (r >>= f) :=
  syntactic_bind_of_ok hr fun p hp => (hf p).mono (hr.stops p hp)

theorem Syntactic.within {r : Reading α (c₁.size + 1)} (hr : r.Syntactic c) (h : c₁.size < n) :
    (r.within h).Syntactic c := by
  cases r with
  | error failure => exact syntactic_error (hr.fails failure rfl)
  | ok p => exact syntactic_ok.mono (hr.stops p rfl)

theorem Syntactic.weaken {r : Reading α c₁.size} (hr : r.Syntactic c) : r.weaken.Syntactic c := by
  cases r with
  | error failure => exact syntactic_error (hr.fails failure rfl)
  | ok p => exact syntactic_ok.mono (hr.stops p rfl)

theorem Syntactic.below {r : Reading α c₁.size} (hr : r.Syntactic c) (h : c₁.size < n) :
    (r.below h).Syntactic c :=
  hr.weaken.within h

theorem syntactic_shift (c : Cursor) : c.shift.Syntactic c := by
  unfold Cursor.shift
  split
  · exact syntactic_unexpected c
  · exact syntactic_ok.mono c.row_advance

/-- A token that is taken was the first one. -/
theorem row_of_shift {p : Parsed Token c.size} (h : c.shift = .ok p) :
    c.row = p.value :: p.next.row := by
  have hc : c = p.next.push p.value := Cursor.gives_shift.1 ⟨p.size_lt, h⟩
  exact congrArg Cursor.row hc

theorem syntactic_takeOr (c : Cursor) (kind : TokenKind) (message : String) :
    (c.takeOr kind message).Syntactic c := by
  unfold Cursor.takeOr
  split
  · exact syntactic_shift c
  · exact syntactic_unexpectedDetailed c message

theorem syntactic_take (c : Cursor) (kind : TokenKind) : (c.take kind).Syntactic c :=
  syntactic_takeOr c kind _

end Reading

open Reading

/-! ### Expressions -/

namespace Expr

variable {g : Grammar}

theorem syntactic_parsePrimary (c : Cursor) : (parsePrimary c).Syntactic c := by
  unfold parsePrimary
  split
  · split
    · exact syntactic_error ⟨rfl, c.current, c.current_mem_row, rfl⟩
    · exact syntactic_bind (syntactic_shift c) fun _ => syntactic_ok
  · exact syntactic_bind (syntactic_shift c) fun _ => syntactic_ok
  · exact syntactic_bind (syntactic_shift c) fun _ => syntactic_ok
  · exact syntactic_bind (syntactic_shift c) fun _ => syntactic_ok
  · exact syntactic_unexpected c

mutual

theorem syntactic_parse (power : Power) (c : Cursor) : (parse g power c).Syntactic c := by
  rw [parse]
  split
  · exact syntactic_unexpected c
  · rename_i form _
    have hrest : ∀ p : Parsed Expr c.size,
        ((parseRest g power p.value p.next).within p.size_lt).Syntactic p.next :=
      fun ⟨left, c₁, h₁⟩ => (syntactic_parseRest power left c₁).within h₁
    have hlater := fun p => syntactic_bind (hrest p) fun q =>
      syntactic_ok (a := q.value) (h := q.size_lt)
    cases form with
    | primary => exact syntactic_bind (syntactic_parsePrimary c) hlater
    | operator => exact syntactic_bind (syntactic_parseOperator c) hlater
    | grouping => exact syntactic_bind (syntactic_parseGrouping c) hlater
    | list => exact syntactic_bind (syntactic_parseList c) hlater
termination_by 4 * c.size + 2

theorem syntactic_parseRest (power : Power) (left : Expr) (c : Cursor) :
    (parseRest g power left c).Syntactic c := by
  rw [parseRest]
  split
  · exact syntactic_ok
  · split
    · exact syntactic_ok
    · rename_i form _ _
      have hrest : ∀ p : Parsed Expr c.size,
          ((parseRest g power p.value p.next).within p.size_lt).Syntactic p.next :=
        fun ⟨left, c₁, h₁⟩ => (syntactic_parseRest power left c₁).within h₁
      have hlater := fun p => syntactic_bind (hrest p) fun q =>
        syntactic_ok (a := q.value) (h := q.size_lt)
      refine Syntactic.weaken ?_
      cases form with
      | binary => exact syntactic_bind (syntactic_parseBinary left _ c) hlater
      | compare => exact syntactic_bind (syntactic_parseCompare left _ c) hlater
      | boolOp => exact syntactic_bind (syntactic_parseBoolOp left _ c) hlater
      | call => exact syntactic_bind (syntactic_parseCall left c) hlater
      | subscript => exact syntactic_bind (syntactic_parseSubscript left c) hlater
termination_by 4 * c.size + 1

theorem syntactic_parseOperator (c : Cursor) : (parseOperator g c).Syntactic c := by
  rw [parseOperator]
  refine syntactic_bind_of_ok (syntactic_shift c) fun ⟨token, c₁, h₁⟩ htoken => ?_
  have hrow := row_of_shift htoken
  dsimp only
  split
  · exact syntactic_error ⟨rfl, token, hrow ▸ List.mem_cons_self, rfl⟩
  · refine Syntactic.mono ?_ (hrow ▸ List.suffix_cons token c₁.row)
    exact syntactic_bind ((syntactic_parse _ c₁).below h₁) fun _ => syntactic_ok
termination_by 4 * c.size

theorem syntactic_parseGrouping (c : Cursor) : (parseGrouping g c).Syntactic c := by
  rw [parseGrouping]
  exact syntactic_bind (syntactic_shift c) fun ⟨_, c₁, h₁⟩ =>
    syntactic_bind ((syntactic_parse _ c₁).below h₁) fun ⟨_, c₂, h₂⟩ =>
      syntactic_bind ((syntactic_take c₂ _).below h₂) fun _ => syntactic_ok
termination_by 4 * c.size

theorem syntactic_parseItems (close : TokenKind) (c : Cursor) :
    (parseItems g close c).Syntactic c := by
  rw [parseItems]
  split
  · exact syntactic_ok
  · refine Syntactic.weaken (syntactic_bind (syntactic_parse _ c) fun ⟨item, c₁, h₁⟩ => ?_)
    dsimp only
    split
    · exact syntactic_bind ((syntactic_shift c₁).below h₁) fun ⟨_, c₂, h₂⟩ =>
        syntactic_bind ((syntactic_parseItems close c₂).within h₂) fun _ => syntactic_ok
    · split
      · exact syntactic_ok
      · exact syntactic_unexpectedDetailed c₁ _
termination_by 4 * c.size + 3

theorem syntactic_parseList (c : Cursor) : (parseList g c).Syntactic c := by
  rw [parseList]
  exact syntactic_bind (syntactic_shift c) fun ⟨_, c₁, h₁⟩ =>
    syntactic_bind ((syntactic_parseItems _ c₁).within h₁) fun ⟨_, c₂, h₂⟩ =>
      syntactic_bind ((syntactic_take c₂ _).below h₂) fun _ => syntactic_ok
termination_by 4 * c.size

theorem syntactic_parseBinary (left : Expr) (power : Power) (c : Cursor) :
    (parseBinary g left power c).Syntactic c := by
  rw [parseBinary]
  refine syntactic_bind_of_ok (syntactic_shift c) fun ⟨token, c₁, h₁⟩ htoken => ?_
  have hrow := row_of_shift htoken
  dsimp only
  split
  · exact syntactic_error ⟨rfl, token, hrow ▸ List.mem_cons_self, rfl⟩
  · refine Syntactic.mono ?_ (hrow ▸ List.suffix_cons token c₁.row)
    exact syntactic_bind ((syntactic_parse _ c₁).below h₁) fun _ => syntactic_ok
termination_by 4 * c.size

theorem syntactic_parseCompare (left : Expr) (power : Power) (c : Cursor) :
    (parseCompare g left power c).Syntactic c := by
  rw [parseCompare]
  split
  · exact syntactic_unexpected c
  · exact syntactic_bind (syntactic_shift c) fun ⟨_, c₁, h₁⟩ =>
      syntactic_bind ((syntactic_parse _ c₁).below h₁) fun ⟨_, c₂, h₂⟩ =>
        syntactic_bind ((syntactic_parseComparisons _ c₂).within h₂) fun _ => syntactic_ok
termination_by 4 * c.size

theorem syntactic_parseComparisons (power : Power) (c : Cursor) :
    (parseComparisons g power c).Syntactic c := by
  rw [parseComparisons]
  split
  · exact syntactic_ok
  · exact Syntactic.weaken (syntactic_bind (syntactic_shift c) fun ⟨_, c₁, h₁⟩ =>
      syntactic_bind ((syntactic_parse _ c₁).below h₁) fun ⟨_, c₂, h₂⟩ =>
        syntactic_bind ((syntactic_parseComparisons _ c₂).within h₂) fun _ => syntactic_ok)
termination_by 4 * c.size

theorem syntactic_parseBoolOp (left : Expr) (power : Power) (c : Cursor) :
    (parseBoolOp g left power c).Syntactic c := by
  rw [parseBoolOp]
  split
  · exact syntactic_unexpected c
  · exact syntactic_bind (syntactic_shift c) fun ⟨token, c₁, h₁⟩ =>
      syntactic_bind ((syntactic_parse _ c₁).below h₁) fun ⟨_, c₂, h₂⟩ =>
        syntactic_bind ((syntactic_parseOperands token.kind _ c₂).within h₂) fun _ => syntactic_ok
termination_by 4 * c.size

theorem syntactic_parseOperands (kind : TokenKind) (power : Power) (c : Cursor) :
    (parseOperands g kind power c).Syntactic c := by
  rw [parseOperands]
  split
  · exact Syntactic.weaken (syntactic_bind (syntactic_shift c) fun ⟨_, c₁, h₁⟩ =>
      syntactic_bind ((syntactic_parse _ c₁).below h₁) fun ⟨_, c₂, h₂⟩ =>
        syntactic_bind ((syntactic_parseOperands kind _ c₂).within h₂) fun _ => syntactic_ok)
  · exact syntactic_ok
termination_by 4 * c.size

theorem syntactic_parseCall (left : Expr) (c : Cursor) : (parseCall g left c).Syntactic c := by
  rw [parseCall.eq_def]
  split
  · exact syntactic_bind (syntactic_shift c) fun ⟨_, c₁, h₁⟩ =>
      syntactic_bind ((syntactic_parseItems _ c₁).within h₁) fun ⟨_, c₂, h₂⟩ =>
        syntactic_bind ((syntactic_take c₂ _).below h₂) fun _ => syntactic_ok
  · exact syntactic_unexpectedDetailed c _
termination_by 4 * c.size

theorem syntactic_parseSubscript (left : Expr) (c : Cursor) :
    (parseSubscript g left c).Syntactic c := by
  rw [parseSubscript]
  exact syntactic_bind (syntactic_shift c) fun ⟨_, c₁, h₁⟩ =>
    syntactic_bind ((syntactic_parse _ c₁).below h₁) fun ⟨_, c₂, h₂⟩ =>
      syntactic_bind ((syntactic_take c₂ _).below h₂) fun _ => syntactic_ok
termination_by 4 * c.size

end

/-- An expression begins at one of its tokens, and what continues an expression begins where that
does. -/
def Phrase.Begins (c : Cursor) : Phrase → Prop
  | .expr _ e | .head _ e => ∃ t ∈ c.row, e.span.position = t.span.position
  | .rest _ left e | .tail _ _ left e => e.span.position = left.span.position
  | _ => True

theorem Derives.begins {p : Phrase} {c c' : Cursor} (h : Derives g p c c') : p.Begins c := by
  induction h with
  | expr _ _ _ ihh ihr =>
    obtain ⟨t, ht, hposition⟩ := ihh
    exact ⟨t, ht, ihr.trans hposition⟩
  | number | truth | name | operator | list => exact ⟨_, List.mem_cons_self, rfl⟩
  | grouping _ _ ih =>
    obtain ⟨t, ht, hposition⟩ := ih
    exact ⟨t, List.mem_cons_of_mem _ ht, hposition⟩
  | go _ _ _ _ iht ihr => exact ihr.trans iht
  | stop | binary | compare | boolOp | call | subscript => rfl
  | _ => trivial

/-- Behind a phrase stand some of the tokens that stand in front of it. -/
theorem Derives.row {p : Phrase} {c c' : Cursor} (h : Derives g p c c') : c'.row <:+ c.row := by
  induction h with
  | expr _ _ _ ihh ihr => exact ihr.trans ihh
  | number | truth | name => exact Cursor.row_push
  | operator _ _ ih | binary _ _ ih => exact ih.trans Cursor.row_push
  | grouping _ _ ih | list _ _ ih | call _ _ ih | subscript _ _ ih =>
    exact Cursor.row_push.trans (ih.trans Cursor.row_push)
  | go _ _ _ _ iht ihr => exact ihr.trans iht
  | compare _ ih | boolOp _ _ ih | itemsLast _ _ _ ih => exact ih
  | itemsCons _ _ _ _ ihe ihs => exact ihs.trans (Cursor.row_push.trans ihe)
  | linksCons _ _ _ ihe ihs | operandsCons _ _ ihe ihs =>
    exact ihs.trans (ihe.trans Cursor.row_push)
  | stop | itemsNil | linksNil | operandsNil => exact List.suffix_refl _

end Expr

/-! ### Statements -/

namespace Stmt

variable {g : Grammar}

theorem Assigned.begins {ts : List Expr} {v : Expr} {c c' : Cursor} (h : Assigned g ts v c c') :
    ∀ e ∈ ts, ∃ t ∈ c.row, e.span.position = t.span.position := by
  induction h with
  | value => exact List.forall_mem_nil _
  | target _ he _ ih =>
    refine List.forall_mem_cons.2 ⟨he.begins, fun e hmem => ?_⟩
    obtain ⟨t, ht, hposition⟩ := ih e hmem
    exact ⟨t, he.row.subset (List.mem_cons_of_mem _ ht), hposition⟩

theorem syntactic_parseTargets (targets : List Expr) (value : Expr) (c : Cursor) :
    (parseTargets g targets value c).Syntactic c := by
  rw [parseTargets]
  split
  · exact Syntactic.weaken (syntactic_bind (syntactic_shift c) fun ⟨_, c₁, h₁⟩ =>
      syntactic_bind ((Expr.syntactic_parse _ c₁).below h₁) fun ⟨next, c₂, h₂⟩ =>
        syntactic_bind ((syntactic_parseTargets (targets ++ [value]) next c₂).within h₂) fun _ =>
          syntactic_ok)
  · exact syntactic_ok
termination_by c.size

/-- The targets of an assignment begin at tokens. -/
theorem begins_of_parseTargets {e : Expr} {c : Cursor}
    {p : Parsed (List Expr × Expr) (c.size + 1)} (hk : c.kind = .assignment)
    (h : parseTargets g [] e c = .ok p) :
    ∀ target ∈ p.value.1, target = e ∨
      ∃ t ∈ c.row, target.span.position = t.span.position := by
  obtain ⟨c₁, hc⟩ := Cursor.exists_push_of_kind hk (by decide)
  have hgives : Reading.Gives (parseTargets g [] e (c₁.push c.current)) p.value p.next :=
    hc ▸ ⟨p.size_lt, h⟩
  obtain ⟨ts, hts, hassigned⟩ := assigned_of_parseTargets hk hgives
  rw [hts]
  refine List.forall_mem_cons.2 ⟨.inl rfl, fun target htarget => .inr ?_⟩
  obtain ⟨t, ht, hposition⟩ := hassigned.begins target htarget
  exact ⟨t, hc ▸ List.mem_cons_of_mem _ ht, hposition⟩

theorem syntactic_parseTail (first : Span) {e : Expr} {c c₁ : Cursor} (hrow : c₁.row <:+ c.row)
    (he : ∃ t ∈ c.row, e.span.position = t.span.position) :
    (parseTail g first e c₁).Syntactic c := by
  unfold parseTail
  split
  · rename_i hk
    refine syntactic_bind_of_ok ((syntactic_parseTargets [] e c₁).mono hrow) fun p hp => ?_
    have htargets := begins_of_parseTargets hk hp
    have hstops := ((syntactic_parseTargets [] e c₁).stops p hp).trans hrow
    obtain ⟨⟨targets, value⟩, c₂, h₂⟩ := p
    dsimp only
    split
    · rename_i target hfind
      refine syntactic_error ⟨rfl, ?_⟩
      obtain rfl | ⟨t, ht, hposition⟩ := htargets target (List.mem_of_find?_eq_some hfind)
      · exact he
      · exact ⟨t, hrow.subset ht, hposition⟩
    · exact syntactic_ok.mono hstops
  · refine Syntactic.mono ?_ hrow
    split
    · exact syntactic_ok
    · split
      · exact Syntactic.weaken (syntactic_bind (syntactic_shift c₁) fun ⟨_, c₂, h₂⟩ =>
          syntactic_bind ((Expr.syntactic_parse _ c₂).below h₂) fun _ => syntactic_ok)
      · exact syntactic_unexpectedDetailed c₁ _

theorem syntactic_parseSimple (c : Cursor) : (parseSimple g c).Syntactic c := by
  refine syntactic_bind_of_ok (Expr.syntactic_parse _ c) fun ⟨e, c₁, h₁⟩ he => ?_
  have hbegins := (Expr.gives_parse_iff.1 ⟨h₁, he⟩).begins
  have hrow := (Expr.syntactic_parse _ c).stops _ he
  exact syntactic_bind ((syntactic_parseTail _ hrow hbegins).within h₁) fun ⟨_, c₂, h₂⟩ =>
    syntactic_bind ((syntactic_take c₂ _).below h₂) fun _ => syntactic_ok

theorem syntactic_parseReturn (c : Cursor) : (parseReturn g c).Syntactic c := by
  unfold parseReturn
  refine syntactic_bind (syntactic_shift c) fun ⟨_, c₁, h₁⟩ => ?_
  dsimp only
  split
  · exact syntactic_bind ((syntactic_take c₁ _).below h₁) fun _ => syntactic_ok
  · exact syntactic_bind ((Expr.syntactic_parse _ c₁).below h₁) fun ⟨_, c₂, h₂⟩ =>
      syntactic_bind ((syntactic_take c₂ _).below h₂) fun _ => syntactic_ok

mutual

theorem syntactic_parse (c : Cursor) : (parse g c).Syntactic c := by
  rw [parse]
  split
  · exact syntactic_parseIf c
  · exact syntactic_parseWhile c
  · exact syntactic_parseReturn c
  · exact syntactic_parseSimple c
termination_by 4 * c.size + 1

theorem syntactic_parseSuite (c : Cursor) : (parseSuite g c).Syntactic c := by
  rw [parseSuite]
  refine syntactic_bind (syntactic_take c _) fun ⟨_, c₁, h₁⟩ => ?_
  dsimp only
  split
  · exact syntactic_bind ((syntactic_shift c₁).below h₁) fun ⟨_, c₂, h₂⟩ =>
      syntactic_bind ((syntactic_take c₂ _).below h₂) fun ⟨_, c₃, h₃⟩ =>
        syntactic_bind ((syntactic_parseBlock c₃).within h₃) fun ⟨_, c₄, h₄⟩ =>
          syntactic_bind ((syntactic_take c₄ _).below h₄) fun _ => syntactic_ok
  · exact syntactic_bind ((syntactic_parse c₁).below h₁) fun _ => syntactic_ok
termination_by 4 * c.size

theorem syntactic_parseBlock (c : Cursor) : (parseBlock g c).Syntactic c := by
  rw [parseBlock]
  split
  · exact syntactic_ok
  · split
    · exact Syntactic.weaken (syntactic_bind (syntactic_parse c) fun ⟨_, c₁, h₁⟩ =>
        syntactic_bind ((syntactic_parseBlock c₁).within h₁) fun _ => syntactic_ok)
    · exact syntactic_unexpectedDetailed c _
termination_by 4 * c.size + 2

theorem syntactic_parseElse (c : Cursor) : (parseElse g c).Syntactic c := by
  rw [parseElse]
  split
  · exact Syntactic.weaken (syntactic_bind (syntactic_shift c) fun ⟨_, c₁, h₁⟩ =>
      syntactic_bind ((syntactic_parseSuite c₁).below h₁) fun _ => syntactic_ok)
  · exact syntactic_ok
termination_by 4 * c.size

theorem syntactic_parseIf (c : Cursor) : (parseIf g c).Syntactic c := by
  rw [parseIf]
  refine syntactic_bind (syntactic_shift c) fun ⟨_, c₁, h₁⟩ =>
    syntactic_bind ((Expr.syntactic_parse _ c₁).below h₁) fun ⟨_, c₂, h₂⟩ =>
      syntactic_bind ((syntactic_parseSuite c₂).below h₂) fun ⟨_, c₃, h₃⟩ => ?_
  dsimp only
  split
  · exact syntactic_bind ((syntactic_parseIf c₃).below h₃) fun _ => syntactic_ok
  · exact syntactic_bind ((syntactic_parseElse c₃).within h₃) fun _ => syntactic_ok
termination_by 4 * c.size

theorem syntactic_parseWhile (c : Cursor) : (parseWhile g c).Syntactic c := by
  rw [parseWhile]
  exact syntactic_bind (syntactic_shift c) fun ⟨_, c₁, h₁⟩ =>
    syntactic_bind ((Expr.syntactic_parse _ c₁).below h₁) fun ⟨_, c₂, h₂⟩ =>
      syntactic_bind ((syntactic_parseSuite c₂).below h₂) fun ⟨_, c₃, h₃⟩ =>
        syntactic_bind ((syntactic_parseElse c₃).within h₃) fun _ => syntactic_ok
termination_by 4 * c.size

end

end Stmt

/-! ### Types -/

namespace TypeExpr

variable {g : Grammar}

mutual

theorem syntactic_parse (power : Power) (c : Cursor) : (parse g power c).Syntactic c := by
  rw [parse]
  split
  · exact syntactic_bind (syntactic_bind (syntactic_take c _) fun _ => syntactic_ok)
      fun ⟨base, c₁, h₁⟩ =>
        syntactic_bind ((syntactic_parseRest power base c₁).within h₁) fun _ => syntactic_ok
  · exact syntactic_unexpectedDetailed c _
termination_by 4 * c.size + 2

theorem syntactic_parseRest (power : Power) (base : TypeExpr) (c : Cursor) :
    (parseRest g power base c).Syntactic c := by
  rw [parseRest]
  split
  · exact syntactic_ok
  · split
    · exact syntactic_ok
    · exact Syntactic.weaken (syntactic_bind (syntactic_parseApplied base c) fun ⟨base, c₁, h₁⟩ =>
        syntactic_bind ((syntactic_parseRest power base c₁).within h₁) fun _ => syntactic_ok)
termination_by 4 * c.size + 1

theorem syntactic_parseApplied (base : TypeExpr) (c : Cursor) :
    (parseApplied g base c).Syntactic c := by
  rw [parseApplied]
  exact syntactic_bind (syntactic_take c _) fun ⟨_, c₁, h₁⟩ =>
    syntactic_bind ((syntactic_parseArguments c₁).within h₁) fun ⟨_, c₂, h₂⟩ =>
      syntactic_bind ((syntactic_take c₂ _).below h₂) fun _ => syntactic_ok
termination_by 4 * c.size

theorem syntactic_parseArguments (c : Cursor) : (parseArguments g c).Syntactic c := by
  rw [parseArguments]
  split
  · exact syntactic_ok
  · refine Syntactic.weaken (syntactic_bind (syntactic_parse _ c) fun ⟨_, c₁, h₁⟩ => ?_)
    dsimp only
    split
    · exact syntactic_bind ((syntactic_shift c₁).below h₁) fun ⟨_, c₂, h₂⟩ =>
        syntactic_bind ((syntactic_parseArguments c₂).within h₂) fun _ => syntactic_ok
    · split
      · exact syntactic_ok
      · exact syntactic_unexpectedDetailed c₁ _
termination_by 4 * c.size + 3

end

end TypeExpr

/-! ### Functions -/

section

variable {g : Grammar}

theorem Param.syntactic_parse (c : Cursor) : (Param.parse g c).Syntactic c := by
  unfold Param.parse
  refine syntactic_bind (syntactic_takeOr c _ _) fun ⟨_, c₁, h₁⟩ => ?_
  dsimp only
  split
  · exact syntactic_bind ((syntactic_shift c₁).below h₁) fun ⟨_, c₂, h₂⟩ =>
      syntactic_bind ((TypeExpr.syntactic_parse _ c₂).below h₂) fun _ => syntactic_ok
  · exact syntactic_ok

theorem Param.syntactic_parseAll (c : Cursor) : (Param.parseAll g c).Syntactic c := by
  rw [Param.parseAll]
  split
  · exact syntactic_ok
  · refine Syntactic.weaken (syntactic_bind (Param.syntactic_parse c) ?_)
    rintro ⟨_, c₁, h₁⟩
    dsimp only
    split
    · refine syntactic_bind ((syntactic_shift c₁).below h₁) ?_
      rintro ⟨_, c₂, h₂⟩
      exact syntactic_bind ((Param.syntactic_parseAll c₂).within h₂) fun _ => syntactic_ok
    · split
      · exact syntactic_ok
      · exact syntactic_unexpectedDetailed c₁ _
termination_by c.size

theorem FunctionDef.syntactic_parseReturns (c : Cursor) :
    (FunctionDef.parseReturns g c).Syntactic c := by
  unfold FunctionDef.parseReturns
  split
  · exact Syntactic.weaken (syntactic_bind (syntactic_shift c) fun ⟨_, c₁, h₁⟩ =>
      syntactic_bind ((TypeExpr.syntactic_parse _ c₁).below h₁) fun _ => syntactic_ok)
  · exact syntactic_ok

theorem FunctionDef.syntactic_parse (c : Cursor) : (FunctionDef.parse g c).Syntactic c :=
  syntactic_bind (syntactic_take c _) fun ⟨_, c₁, h₁⟩ =>
    syntactic_bind ((syntactic_takeOr c₁ _ _).below h₁) fun ⟨_, c₂, h₂⟩ =>
      syntactic_bind ((syntactic_take c₂ _).below h₂) fun ⟨_, c₃, h₃⟩ =>
        syntactic_bind ((Param.syntactic_parseAll c₃).within h₃) fun ⟨_, c₄, h₄⟩ =>
          syntactic_bind ((syntactic_take c₄ _).below h₄) fun ⟨_, c₅, h₅⟩ =>
            syntactic_bind ((syntactic_parseReturns c₅).within h₅) fun ⟨_, c₆, h₆⟩ =>
              syntactic_bind ((Stmt.syntactic_parseSuite c₆).below h₆) fun _ => syntactic_ok

end

/-! ### Programs -/

theorem failsIn_bind_traced {ε α β : Type} {P : ε → Prop} {t : Traced ε α} {f : α → Traced ε β}
    (ht : FailsIn P t.result) (hf : ∀ a, t.result = .ok a → FailsIn P (f a).result) :
    FailsIn P (t >>= f).result := by
  obtain ⟨_ | a, events⟩ := t
  · exact failsIn_error (ht _ rfl)
  · exact hf a rfl

namespace Program

theorem isSyntactic_of_parseFunctions (g : Grammar) (c : Cursor) :
    FailsIn (Error.IsSyntactic c.row) (parseFunctions g c).result := by
  fun_induction parseFunctions g c with
  | case1 => exact failsIn_ok _
  | case2 c =>
    refine failsIn_error (Error.IsSyntactic.mono ?_ c.row_skipNewlines)
    exact ⟨rfl, c.skipNewlines.current, c.skipNewlines.current_mem_row, rfl⟩
  | case3 c _ _ failure hfailure =>
    refine failsIn_error (Error.IsSyntactic.mono ?_ c.row_skipNewlines)
    exact (FunctionDef.syntactic_parse c.skipNewlines).fails failure hfailure
  | case4 c _ _ function c₁ _ hfunction _ ih =>
    have hrow := ((FunctionDef.syntactic_parse c.skipNewlines).stops _ hfunction).trans
      c.row_skipNewlines
    refine failsIn_bind_traced (failsIn_ok _) fun _ _ =>
      failsIn_bind_traced (fun e he => ?_) fun _ _ => failsIn_ok _
    exact (ih e he).mono hrow

/-- **A row of tokens that cannot be read** has a token where it cannot stand, or a number that is
too large. -/
theorem isSyntactic_of_parse {file : String} {tokens : List Token} {e : Error}
    (h : (parse file tokens).result = .error e) : e.cause.isSyntactic = true :=
  (failsIn_bind_traced (isSyntactic_of_parseFunctions _ _) (fun _ _ => failsIn_ok _) e h).cause

end Program

end DefToC
