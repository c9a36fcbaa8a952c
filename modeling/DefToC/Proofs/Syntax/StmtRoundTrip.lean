import DefToC.Proofs.Syntax.ExprRoundTrip
import DefToC.Proofs.Syntax.StmtDerivations

/-!
# Reading printed statements

A printed statement is read as itself, up to spans, if no `else` or `elif` follows it: either
word would be read as part of a conditional at its end.
-/

namespace DefToC.Stmt

open Cursor

variable {e : Expr} {s : Stmt} {ss : List Stmt} {c c₁ : Cursor}

/-! ### First tokens -/

theorem stmtForm_of_prefixForm {k : TokenKind} {form : PrefixForm}
    (h : Grammar.standard.prefixForm k = some form) : Grammar.standard.stmtForm k = none := by
  cases k <;> first
    | rfl
    | cases h

/-- A token that a statement can begin with. -/
def Starts (k : TokenKind) : Prop :=
  (Grammar.standard.stmtForm k).isSome ∨ (Grammar.standard.prefixForm k).isSome

instance : DecidablePred Starts := fun _ => inferInstanceAs (Decidable (_ ∨ _))

theorem starts_of_derives {v : Expr} {p : Power}
    (h : Expr.Derives .standard (.expr p v) c c₁) : Starts c.kind := by
  obtain ⟨form, hf⟩ := h.prefixForm
  exact .inr (by rw [hf]; rfl)

theorem starts_of_form {t : Token} {form : StmtForm}
    (h : Grammar.standard.stmtForm t.kind = some form) : Starts (c.push t).kind :=
  .inl (by rw [kind_push, h]; rfl)

theorem Assigned.starts {ts : List Expr} {v : Expr} (h : Assigned .standard ts v c c₁) :
    Starts c.kind := by
  cases h with
  | value _ hv => exact starts_of_derives hv
  | target _ he => exact starts_of_derives he

theorem Derives.starts (h : Derives .standard (.stmt s) c c₁) : Starts c.kind := by
  cases h with
  | assign _ _ _ h => exact h.starts
  | augAssign _ _ _ _ he => exact starts_of_derives he
  | expression _ _ he => exact starts_of_derives he
  | retNone hf => exact starts_of_form hf
  | retSome hf => exact starts_of_form hf
  | whileLoop hf => exact starts_of_form hf
  | conditional hf => exact .inl (by rw [hf]; rfl)

/-- A token that no second branch begins with. -/
def EndsBranches (k : TokenKind) : Prop := k ≠ .elseWord ∧ k ≠ .elifWord

theorem Starts.endsBranches {k : TokenKind} (h : Starts k) : EndsBranches k := by
  constructor <;> rintro rfl <;> exact absurd h (by decide)

/-! ### Statements without a block -/

/-- An expression that ends with the line is read as itself. -/
theorem line_of_shows (he : e.Shaped Literal.Printable)
    (hs : Shows (e.print ++ [.mark .newline]) c c₁) :
    ∃ e' t, e'.bare = e.bare ∧ t.kind = .newline ∧
      Expr.Derives .standard (.expr .default e') c (c₁.push t) := by
  obtain ⟨c₂, hs, hend⟩ := shows_append.1 hs
  obtain ⟨t, ht, rfl⟩ := shows_singleton.1 hend
  obtain ⟨e', hbare, hd⟩ := he.readable.free e.level_pos hs (by rw [kind_push, ht]; rfl)
  exact ⟨e', t, hbare, ht, hd⟩

/-- The targets and the value of an assignment are read as themselves. -/
theorem assigned_of_shows {targets : List Expr} {v : Expr}
    (ht : ∀ e ∈ targets, e.Shaped Literal.Printable) (hv : v.Shaped Literal.Printable)
    (hs : Shows (targets.flatMap (fun e => e.print ++ [.mark .assignment]) ++
      (v.print ++ [.mark .newline])) c c₁) :
    ∃ ts v' t, ts.map Expr.bare = targets.map Expr.bare ∧ v'.bare = v.bare ∧ t.kind = .newline ∧
      Assigned .standard ts v' c (c₁.push t) := by
  induction targets generalizing c with
  | nil =>
    obtain ⟨v', t, hbare, hk, hd⟩ := line_of_shows hv hs
    refine ⟨[], v', t, rfl, hbare, hk, .value ?_ hd⟩
    rw [kind_push, hk]
    decide
  | cons e es ih =>
    rw [List.flatMap_cons, List.append_assoc, List.append_assoc, shows_append] at hs
    obtain ⟨c₂, he, hs⟩ := hs
    obtain ⟨t, c₃, hk, rfl, hs⟩ := hs
    have hrank : Expr.infixRank (c₃.push t).kind = 0 := by
      rw [kind_push, hk]
      rfl
    obtain ⟨e', hbare, hd⟩ :=
      (ht e List.mem_cons_self).readable.free e.level_pos he hrank
    obtain ⟨ts, v', t', hbares, hbarev, hk', has⟩ :=
      ih (fun e he => ht e (List.mem_cons_of_mem _ he)) hs
    exact ⟨e' :: ts, v', t', by simp [hbare, hbares], hbarev, hk', .target hk hd has⟩

theorem ofAugmented?_inPlaceMark {op : Operator} (h : op.family = .arithmetic) :
    Operator.ofAugmented? op.inPlaceMark = some op ∧ Expr.infixRank op.inPlaceMark = 0 := by
  cases op <;> first
    | exact ⟨rfl, rfl⟩
    | cases h

/-! ### Blocks -/

/-- A printed statement is read as itself, if no second branch follows it. -/
def Readable (s : Stmt) : Prop :=
  ∀ c c₁, Shows s.print c c₁ → EndsBranches c₁.kind →
    ∃ s', s'.bare = s.bare ∧ Derives .standard (.stmt s') c c₁

theorem endsBranches_of_block (h : Derives .standard (.block ss) c c₁) (hk : c₁.kind = .dedent) :
    EndsBranches c.kind := by
  cases h with
  | blockNil =>
    rw [hk]
    exact ⟨by decide, by decide⟩
  | blockCons _ _ hs => exact hs.starts.endsBranches

theorem block_of_shows (hss : ∀ s ∈ ss, Readable s) (hs : Shows (printAll ss) c c₁)
    (hk : c₁.kind = .dedent) :
    ∃ ss', ss'.map bare = ss.map bare ∧ Derives .standard (.block ss') c c₁ := by
  induction ss generalizing c with
  | nil =>
    obtain rfl : c = c₁ := hs
    exact ⟨[], rfl, .blockNil hk⟩
  | cons s ss ih =>
    obtain ⟨c₂, hs, hss'⟩ := shows_append.1 hs
    obtain ⟨ss', hbares, hds⟩ := ih (fun s hs => hss s (List.mem_cons_of_mem _ hs)) hss'
    obtain ⟨s', hbare, hd⟩ := hss s List.mem_cons_self _ _ hs (endsBranches_of_block hds hk)
    have hstarts := hd.starts
    refine ⟨s' :: ss', by simp [hbare, hbares], .blockCons ?_ ?_ hd hds⟩
    · intro hc
      rw [hc] at hstarts
      exact absurd hstarts (by decide)
    · intro hc
      rw [hc] at hstarts
      exact absurd hstarts (by decide)

theorem suite_of_shows (hss : ∀ s ∈ ss, Readable s) (hs : Shows (suite (printAll ss)) c c₁) :
    ∃ ss', ss'.map bare = ss.map bare ∧ Derives .standard (.suite ss') c c₁ := by
  obtain ⟨c₂, hopen, hend⟩ := shows_append.1 hs
  obtain ⟨t₃, h₃, rfl⟩ := shows_singleton.1 hend
  obtain ⟨t, _, ht, rfl, t₁, _, h₁, rfl, t₂, c₃, h₂, rfl, hbody⟩ := hopen
  obtain ⟨ss', hbares, hds⟩ := block_of_shows hss hbody h₃
  exact ⟨ss', hbares, .suiteBlock ht h₁ h₂ h₃ hds⟩

/-- A second branch is read as itself, and no further condition is seen in front of it. -/
theorem orelse_of_shows (hss : ∀ s ∈ ss, Readable s)
    (hs : Shows (otherwise ss.isEmpty (printAll ss)) c c₁) (hk : EndsBranches c₁.kind) :
    c.kind ≠ .elifWord ∧
      ∃ ss', ss'.map bare = ss.map bare ∧ Derives .standard (.orelse ss') c c₁ := by
  obtain _ | ⟨s, ss⟩ := ss
  · obtain rfl : c = c₁ := hs
    exact ⟨hk.2, [], rfl, .orelseNil hk.1⟩
  · obtain ⟨t, c₂, ht, rfl, hs⟩ := hs
    obtain ⟨ss', hbares, hds⟩ := suite_of_shows hss hs
    refine ⟨?_, ss', hbares, .orelseSuite ht hds⟩
    rw [kind_push, show t.kind = .elseWord from ht]
    decide

/-! ### One case per form -/

variable {span : Span}

theorem readable_assign {targets : List Expr} {v : Expr} (hne : targets ≠ [])
    (hass : ∀ e ∈ targets, e.isAssignable) (ht : ∀ e ∈ targets, e.Shaped Literal.Printable)
    (hv : v.Shaped Literal.Printable) : Readable (.assign targets v span) := by
  intro c c₁ hs _
  rw [print, List.append_assoc] at hs
  obtain ⟨ts, v', t, hbares, hbare, hk, has⟩ := assigned_of_shows ht hv hs
  obtain _ | ⟨e', ts⟩ := ts
  · exact absurd (List.map_eq_nil_iff.1 hbares.symm) hne
  · refine ⟨.assign (e' :: ts) v' _, by simp [bare, hbare, ← hbares], .assign ?_ hk ?_ has⟩
    · cases has with
      | target _ he =>
        obtain ⟨form, hf⟩ := he.prefixForm
        exact stmtForm_of_prefixForm hf
    · intro e he
      have hmem : e.bare ∈ targets.map Expr.bare := hbares ▸ List.mem_map_of_mem he
      obtain ⟨e₀, he₀, hbare₀⟩ := List.mem_map.1 hmem
      rw [Expr.isAssignable_of_bare hbare₀.symm, hass e₀ he₀]

theorem readable_augAssign {v : Expr} {op : Operator} (hass : e.isAssignable)
    (hop : op.family = .arithmetic) (he : e.Shaped Literal.Printable)
    (hv : v.Shaped Literal.Printable) : Readable (.augAssign e op v span) := by
  intro c c₁ hs _
  rw [print, List.append_assoc, shows_append] at hs
  obtain ⟨c₂, hs, t, c₃, ht, rfl, hline⟩ := hs
  obtain ⟨hop, hrank⟩ := ofAugmented?_inPlaceMark hop
  have ht : t.kind = op.inPlaceMark := ht
  obtain ⟨e', hbare, hd⟩ := he.readable.free e.level_pos hs (by rw [kind_push, ht, hrank])
  obtain ⟨v', t', hbarev, hk, hdv⟩ := line_of_shows hv hline
  obtain ⟨form, hf⟩ := hd.prefixForm
  refine ⟨.augAssign e' op v' _, by simp [bare, hbare, hbarev],
    .augAssign (stmtForm_of_prefixForm hf) (ht ▸ hop) hk ?_ hd hdv⟩
  rw [Expr.isAssignable_of_bare hbare, hass]

theorem readable_expression (he : e.Shaped Literal.Printable) :
    Readable (.expression e span) := by
  intro c c₁ hs _
  obtain ⟨e', t, hbare, hk, hd⟩ := line_of_shows he hs
  obtain ⟨form, hf⟩ := hd.prefixForm
  exact ⟨.expression e' _, by simp [bare, hbare], .expression (stmtForm_of_prefixForm hf) hk hd⟩

theorem readable_ret {value : Option Expr} (h : ∀ e ∈ value, e.Shaped Literal.Printable) :
    Readable (.ret value span) := by
  intro c c₁ hs _
  obtain _ | e := value
  · obtain ⟨t, _, ht, rfl, hs⟩ := hs
    obtain ⟨t', ht', rfl⟩ := shows_singleton.1 hs
    refine ⟨.ret none t.span, rfl, .retNone ?_ ht'⟩
    rw [show t.kind = .returnWord from ht]
    rfl
  · obtain ⟨t, c₂, ht, rfl, hs⟩ := hs
    obtain ⟨e', t', hbare, hk, hd⟩ := line_of_shows (h e rfl) hs
    obtain ⟨form, hf⟩ := hd.prefixForm
    refine ⟨.ret (some e') _, by simp [bare, hbare], .retSome ?_ ?_ hk hd⟩
    · rw [show t.kind = .returnWord from ht]
      rfl
    · intro hc
      rw [hc] at hf
      cases hf

/-- The condition and the branches of a conditional or a loop are read as themselves. -/
theorem branches_of_shows {body orelse : List Stmt} (he : e.Shaped Literal.Printable)
    (hb : ∀ s ∈ body, Readable s) (ho : ∀ s ∈ orelse, Readable s)
    (hs : Shows (e.print ++ suite (printAll body) ++
      otherwise orelse.isEmpty (printAll orelse)) c c₁) (hk : EndsBranches c₁.kind) :
    ∃ e' body' orelse' c₂ c₃, e'.bare = e.bare ∧ body'.map bare = body.map bare ∧
      orelse'.map bare = orelse.map bare ∧ Cursor.kind c₃ ≠ .elifWord ∧
      Expr.Derives .standard (.expr .default e') c c₂ ∧ Derives .standard (.suite body') c₂ c₃ ∧
      Derives .standard (.orelse orelse') c₃ c₁ := by
  obtain ⟨c₃, hhead, horelse⟩ := shows_append.1 hs
  obtain ⟨c₂, htest, hbody⟩ := shows_append.1 hhead
  have hrank : Expr.infixRank c₂.kind = 0 := by
    obtain ⟨t, _, ht, rfl, -⟩ := hbody
    rw [kind_push, ht]
    rfl
  obtain ⟨e', hbare, hd⟩ := he.readable.free e.level_pos htest hrank
  obtain ⟨body', hbarebody, hdb⟩ := suite_of_shows hb hbody
  obtain ⟨hne, orelse', hbareorelse, hdo⟩ := orelse_of_shows ho horelse hk
  exact ⟨e', body', orelse', c₂, c₃, hbare, hbarebody, hbareorelse, hne, hd, hdb, hdo⟩

theorem readable_ifThen {body orelse : List Stmt} (he : e.Shaped Literal.Printable)
    (hb : ∀ s ∈ body, Readable s) (ho : ∀ s ∈ orelse, Readable s) :
    Readable (.ifThen e body orelse span) := by
  intro c c₁ hs hk
  obtain ⟨t, c₀, ht, rfl, hs⟩ := hs
  obtain ⟨e', body', orelse', c₂, c₃, hbare, hbareb, hbareo, hne, hd, hdb, hdo⟩ :=
    branches_of_shows he hb ho hs hk
  refine ⟨.ifThen e' body' orelse' _, by simp [bare, hbare, hbareb, hbareo],
    .conditional ?_ (.ifThen hne hd hdb hdo)⟩
  rw [kind_push, show t.kind = .ifWord from ht]
  rfl

theorem readable_whileLoop {body orelse : List Stmt} (he : e.Shaped Literal.Printable)
    (hb : ∀ s ∈ body, Readable s) (ho : ∀ s ∈ orelse, Readable s) :
    Readable (.whileLoop e body orelse span) := by
  intro c c₁ hs hk
  obtain ⟨t, c₀, ht, rfl, hs⟩ := hs
  obtain ⟨e', body', orelse', c₂, c₃, hbare, hbareb, hbareo, -, hd, hdb, hdo⟩ :=
    branches_of_shows he hb ho hs hk
  refine ⟨.whileLoop e' body' orelse' _, by simp [bare, hbare, hbareb, hbareo],
    .whileLoop ?_ hd hdb hdo⟩
  rw [show t.kind = .whileWord from ht]
  rfl

/-- **A printed statement is read as itself.** -/
theorem Shaped.readable (h : s.Shaped Literal.Printable) : Readable s := by
  induction h with
  | assign hne hass ht hv => exact readable_assign hne hass ht hv
  | augAssign hass hop he hv => exact readable_augAssign hass hop he hv
  | ifThen he _ _ hb ho => exact readable_ifThen he hb ho
  | whileLoop he _ _ hb ho => exact readable_whileLoop he hb ho
  | ret h => exact readable_ret h
  | expression he => exact readable_expression he

end DefToC.Stmt
