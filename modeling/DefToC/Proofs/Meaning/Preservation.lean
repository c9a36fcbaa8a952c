import DefToC.Proofs.Meaning.Evaluation
import DefToC.Proofs.Meaning.Grammar
import DefToC.Proofs.Typed.Steps
import Mathlib.Data.Int.Order.Basic

/-!
# The output means what the source means

An expression over integers and truth values is written as a C expression of the same value,
wherever the evaluation of the source meets only integers of 32 bits and divisions that come out
alike in both languages (`read_eval_of_eval`). The proof finds, by induction on the expression,
the tree that its text is read as, and compares the two evaluations operator by operator.
-/

namespace DefToC

/-! ### Division -/

/-- A quotient of operands of one sign, or an exact one, is rounded down by cutting it off. -/
theorem fdiv_eq_tdiv_of_alike {a b : Int} (h : a.sign = b.sign ∨ b ∣ a) :
    a.fdiv b = a.tdiv b := by
  rw [Int.fdiv_eq_tdiv]
  rcases h with h | h
  · rcases lt_trichotomy b 0 with hb | rfl | hb
    · have ha : a < 0 := Int.sign_eq_neg_one_iff_neg.1 (h.trans (Int.sign_eq_neg_one_of_neg hb))
      simp [not_le.2 ha, not_le.2 hb, Int.sign_eq_neg_one_of_neg hb]
    · simp
    · have ha : 0 < a := Int.sign_eq_one_iff_pos.1 (h.trans (Int.sign_eq_one_of_pos hb))
      simp [ha.le, hb.le]
  · simp [h]

theorem fmod_eq_tmod_of_alike {a b : Int} (h : a.sign = b.sign ∨ b ∣ a) :
    a.fmod b = a.tmod b := by
  rw [Int.fmod_def, Int.tmod_def, fdiv_eq_tdiv_of_alike h]

/-- The one quotient of integers of 32 bits that does not fit is that of the least of them by
minus one. -/
theorem C.inRange_tdiv {a b : Int} (ha : C.InRange a) (h : ¬(a = -2147483648 ∧ b = -1)) :
    C.InRange (a.tdiv b) := by
  by_contra hout
  -- The quotient is no larger than the dividend, so it can only be one too large.
  have hbound : (a.tdiv b).natAbs ≤ a.natAbs := Int.natAbs_tdiv_le_natAbs a b
  have hquotient : a.tdiv b = 2147483648 := by
    unfold C.InRange at ha hout
    omega
  have hdividend : a = -2147483648 := by
    unfold C.InRange at ha
    omega
  have hdivision : b * a.tdiv b + a.tmod b = a := Int.mul_tdiv_add_tmod a b
  have hrest : (a.tmod b).natAbs < b.natAbs := by
    rw [Int.natAbs_tmod]
    refine Nat.mod_lt _ (Int.natAbs_pos.2 ?_)
    rintro rfl
    simp at hquotient
  rw [hquotient] at hdivision
  exact h ⟨hdividend, by omega⟩

/-! ### Operators -/

theorem C.fit_of_inRange {n : Int} (h : C.InRange n) : C.fit n = some n := if_pos h

/-- An arithmetic operator is written as one that gives the same results. -/
theorem Operator.exists_arithmetic {op : Operator} (hf : op.family = .arithmetic) :
    ∃ o : C.BinOp, op.outputMark.binary? = some o ∧ 2 < o.level ∧ ∀ a b n,
      op.arithmetic? a b = some n → C.InRange a → op.DividesAlike a b → C.InRange n →
        o.apply a b = some n := by
  cases op with
  | add =>
    refine ⟨.add, rfl, by decide, fun a b n h _ _ hn => ?_⟩
    obtain rfl : a + b = n := by simpa [arithmetic?] using h
    exact C.fit_of_inRange hn
  | sub =>
    refine ⟨.sub, rfl, by decide, fun a b n h _ _ hn => ?_⟩
    obtain rfl : a - b = n := by simpa [arithmetic?] using h
    exact C.fit_of_inRange hn
  | mult =>
    refine ⟨.mul, rfl, by decide, fun a b n h _ _ hn => ?_⟩
    obtain rfl : a * b = n := by simpa [arithmetic?] using h
    exact C.fit_of_inRange hn
  | div => exact ⟨.div, rfl, by decide, fun a b n h => by simp [arithmetic?] at h⟩
  | floorDiv =>
    refine ⟨.div, rfl, by decide, fun a b n h _ halike hn => ?_⟩
    obtain ⟨hb, rfl⟩ : b ≠ 0 ∧ a.fdiv b = n := by simpa [arithmetic?] using h
    obtain ⟨hsign, -⟩ := halike (.inl rfl)
    rw [fdiv_eq_tdiv_of_alike hsign] at hn ⊢
    rw [C.BinOp.apply, if_neg hb, C.fit_of_inRange hn]
  | mod =>
    refine ⟨.mod, rfl, by decide, fun a b n h ha halike hn => ?_⟩
    obtain ⟨hb, rfl⟩ : b ≠ 0 ∧ a.fmod b = n := by simpa [arithmetic?] using h
    obtain ⟨hsign, hleast⟩ := halike (.inr rfl)
    rw [fmod_eq_tmod_of_alike hsign] at hn ⊢
    rw [C.BinOp.apply, if_neg hb, C.fit_of_inRange (C.inRange_tdiv ha hleast),
      Option.bind_some, C.fit_of_inRange hn]
  | _ => cases hf

/-- An operator is written as one of the output that holds of the same integers. -/
def Operator.Compares (op : Operator) (o : C.BinOp) : Prop :=
  op.outputMark.binary? = some o ∧ 2 < o.level ∧ ∀ a b r,
    op.relation? a b = some r → o.apply a b = some (C.truth r)

theorem Operator.exists_compares {op : Operator} (hf : op.family = .comparison) :
    ∃ o, op.Compares o := by
  cases op with
  | eq => exact ⟨.eq, rfl, by decide, fun a b r h => by cases h; rfl⟩
  | notEq => exact ⟨.ne, rfl, by decide, fun a b r h => by cases h; rfl⟩
  | lt => exact ⟨.lt, rfl, by decide, fun a b r h => by cases h; rfl⟩
  | ltE => exact ⟨.le, rfl, by decide, fun a b r h => by cases h; rfl⟩
  | gt => exact ⟨.gt, rfl, by decide, fun a b r h => by cases h; rfl⟩
  | gtE => exact ⟨.ge, rfl, by decide, fun a b r h => by cases h; rfl⟩
  | _ => cases hf

/-- An operator in front of an operand is written as one that gives the same results. -/
theorem Operator.exists_onValue {op : Operator} (h : op = .plus ∨ op = .minus ∨ op = .not) :
    ∃ o : C.UnOp, op.outputMark.unary? = some o ∧ ∀ v w,
      op.onValue? v = some w → (∀ n, w = .int n → C.InRange n) →
        o.apply v.toInt = some w.toInt := by
  rcases h with rfl | rfl | rfl
  · refine ⟨.plus, rfl, fun v w h hw => ?_⟩
    cases v with
    | int a =>
      obtain rfl : .int a = w := by simpa [onValue?] using h
      exact C.fit_of_inRange (hw a rfl)
    | bool b => simp [onValue?] at h
  · refine ⟨.minus, rfl, fun v w h hw => ?_⟩
    cases v with
    | int a =>
      obtain rfl : .int (-a) = w := by simpa [onValue?] using h
      exact C.fit_of_inRange (hw (-a) rfl)
    | bool b => simp [onValue?] at h
  · refine ⟨.not, rfl, fun v w h _ => ?_⟩
    cases v with
    | int a => simp [onValue?] at h
    | bool b =>
      obtain rfl : .bool (!b) = w := by simpa [onValue?] using h
      cases b <;> rfl

theorem Operator.exists_all_compares {ops : List Operator}
    (h : ∀ op ∈ ops, op.family = .comparison) : ∃ os, List.Forall₂ Operator.Compares ops os := by
  induction ops with
  | nil => exact ⟨[], .nil⟩
  | cons op ops ih =>
    obtain ⟨hop, hops⟩ := List.forall_mem_cons.1 h
    obtain ⟨o, ho⟩ := exists_compares hop
    obtain ⟨os, hos⟩ := ih hops
    exact ⟨o :: os, .cons ho hos⟩

/-! ### Chains -/

namespace C

variable {env : String → Option Int}

/-- An operator that is not `&&` or `||` evaluates both operands. -/
theorem eval_binary {op : BinOp} (hop : 2 < op.level) {l r : Tree} {a b : Int}
    (hl : l.eval env = some a) (hr : r.eval env = some b) :
    (Tree.binary op l r).eval env = op.apply a b := by
  have hand : op ≠ .and := by rintro rfl; exact absurd hop (by decide)
  have hor : op ≠ .or := by rintro rfl; exact absurd hop (by decide)
  simp [Tree.eval, hl, hr, hand, hor]

/-- The operator of a chain that ends with the first operand whose value is `stop`. -/
def junction (stop : Bool) : BinOp := if stop then .or else .and

theorem eval_junction_stop {stop : Bool} {l : Tree} (hl : l.eval env = some (truth stop))
    (r : Tree) : (Tree.binary (junction stop) l r).eval env = some (truth stop) := by
  cases stop <;> simp [junction, Tree.eval, hl, truth]

theorem eval_junction_go {stop b : Bool} {l r : Tree} (hl : l.eval env = some (truth !stop))
    (hr : r.eval env = some (truth b)) :
    (Tree.binary (junction stop) l r).eval env = some (truth b) := by
  cases stop <;> cases b <;> simp [junction, Tree.eval, BinOp.apply, hl, hr, truth]

/-- What has been decided is not changed by the rest of a chain. -/
theorem eval_foldl_stop {stop : Bool} (trees : List Tree) {e : Tree}
    (he : e.eval env = some (truth stop)) :
    (trees.foldl (Tree.binary (junction stop)) e).eval env = some (truth stop) := by
  induction trees generalizing e with
  | nil => exact he
  | cons r trees ih => exact ih (eval_junction_stop he r)

end C

/-- The valuation of the names in the output. -/
def outputEnv (env : String → Option Value) (id : String) : Option Int :=
  (env id).map Value.toInt

/-- A tree of the output that has the value of an expression wherever the two languages agree. -/
def Faithful (e : Expr) (tree : C.Tree) : Prop :=
  ∀ env v, e.eval env = some v → e.Safe env → tree.eval (outputEnv env) = some v.toInt

namespace Expr

variable {env : String → Option Value}

theorem Safe.inRange {e : Expr} {n : Int} (hs : e.Safe env) (he : e.eval env = some (.int n)) :
    C.InRange n := by
  cases e with
  | binary l op r span =>
    obtain ⟨-, -, -, hfits⟩ := hs
    exact hfits n he
  | unary op e span => exact hs.2 n he
  | compare l ops es span =>
    obtain ⟨_, -, _, -, hv⟩ := eval_compare_eq_some_iff.1 he
    cases hv
  | boolOp op es span =>
    obtain ⟨-, _, -, hv⟩ := eval_boolOp_eq_some_iff.1 he
    cases hv
  | _ => exact hs n he

/-- A run of operands that goes on behind a first one with the value `b`. -/
theorem eval_run {stop b r : Bool} {es : List Expr} {trees : List C.Tree} {first : C.Tree}
    (hfirst : first.eval (outputEnv env) = some (C.truth b))
    (hrun : (if b = stop then some stop else evalRun env stop es) = some r)
    (hsafe : b ≠ stop → SafeRun env stop es) (h : List.Forall₂ Faithful es trees) :
    (trees.foldl (C.Tree.binary (C.junction stop)) first).eval (outputEnv env) =
      some (C.truth r) := by
  induction h generalizing first b with
  | nil =>
    obtain rfl : b = r := by
      by_cases hb : b = stop <;> simp_all [evalRun]
    exact hfirst
  | @cons e tree es trees he _ ih =>
    by_cases hb : b = stop
    · obtain rfl : stop = r := by simpa [hb] using hrun
      exact C.eval_foldl_stop _ (hb ▸ hfirst)
    · rw [if_neg hb] at hrun
      obtain rfl : b = !stop := Bool.eq_not_of_ne hb
      obtain ⟨hse, hses⟩ := hsafe hb
      obtain ⟨b, hev, hrest⟩ := evalRun_cons_eq_some_iff.1 hrun
      have hnext := C.eval_junction_go hfirst (he env _ hev hse)
      apply ih hnext hrest
      intro hne
      apply hses
      simpa [hev] using hne

/-- The comparisons of a chain, each between two neighbours. -/
def linkTrees (left : C.Tree) : List C.BinOp → List C.Tree → List C.Tree
  | o :: os, right :: rights => .binary o left right :: linkTrees right os rights
  | _, _ => []

/-- A chain of comparisons that goes on behind a first part with the value `s`. -/
theorem eval_chain {a : Int} {s r : Bool} {ops : List Operator} {os : List C.BinOp}
    {es : List Expr} {trees : List C.Tree} {first left : C.Tree}
    (hfirst : first.eval (outputEnv env) = some (C.truth s))
    (hleft : left.eval (outputEnv env) = some a)
    (hchain : (if s then evalLinks env a ops es else some false) = some r)
    (hsafe : s = true → SafeLinks env a ops es) (hops : List.Forall₂ Operator.Compares ops os)
    (h : List.Forall₂ Faithful es trees) :
    ((linkTrees left os trees).foldl (C.Tree.binary (C.junction false)) first).eval
      (outputEnv env) = some (C.truth r) := by
  induction h generalizing first left a s ops os with
  | nil =>
    have hlinks : linkTrees left os [] = [] := by cases os <;> rfl
    obtain rfl : s = r := by
      cases ops <;> cases s <;> simp_all [evalLinks]
    rw [hlinks]
    exact hfirst
  | @cons e tree es trees he _ ih =>
    cases s with
    | false =>
      obtain rfl : false = r := by simpa using hchain
      exact C.eval_foldl_stop _ hfirst
    | true =>
      cases hops with
      | nil =>
        obtain rfl : true = r := by simpa [evalLinks] using hchain
        exact hfirst
      | @cons op o ops os hop hops =>
        obtain ⟨hse, hses⟩ := hsafe rfl
        obtain ⟨b, hev, s, hrel, hrest⟩ := evalLinks_cons_eq_some_iff.1 hchain
        obtain ⟨-, hlevel, happly⟩ := hop
        have hright : tree.eval (outputEnv env) = some b := he env _ hev hse
        have hlink := (C.eval_binary hlevel hleft hright).trans (happly a b s hrel)
        apply ih (C.eval_junction_go hfirst hlink) hright hrest _ hops
        rintro rfl
        exact hses b hev hrel

end Expr

/-! ### Texts -/

section

open C (Written)

variable {keywords : List String}

/-- The links of a chain are written between its operands. -/
theorem written_links {ops : List Operator} {os : List C.BinOp}
    (hops : List.Forall₂ Operator.Compares ops os) {left : String} {l : C.Tree}
    (hleft : Written keywords left 8 l) {texts : List String} {trees : List C.Tree}
    (h : List.Forall₂ (fun text tree => Written keywords text 8 tree) texts trees) :
    List.Forall₂ (fun text tree => Written keywords text 3 tree)
      (TypedExpr.links left ops texts) (Expr.linkTrees l os trees) := by
  induction hops generalizing left l texts trees with
  | nil => exact .nil
  | @cons op o ops os hop _ ih =>
    cases h with
    | nil => exact .nil
    | cons hright h =>
      obtain ⟨hmark, hlevel, -⟩ := hop
      have hle := o.level_le
      have hlink := Written.binary hmark (hleft.mono (by omega)) (hright.mono (by omega))
      exact .cons (hlink.mono hlevel) (ih hright h)

/-! ### Expressions -/

/-- The expressions over integers and truth values: names, constants, all operators but the
division that keeps the fraction, comparisons and runs of conditions. Constants have no sign;
that is an operator in front of them. -/
inductive Expr.Scalar (keywords : List String) : Expr → Prop where
  | name {id : String} {span : Span} : C.IsName keywords id → Scalar keywords (.name id span)
  | int (n : Nat) {span : Span} : Scalar keywords (.constant (.int n) span)
  | bool (b : Bool) {span : Span} : Scalar keywords (.constant (.bool b) span)
  | binary {left right : Expr} {op : Operator} {span : Span} : op ≠ .div →
      Scalar keywords left → Scalar keywords right → Scalar keywords (.binary left op right span)
  | unary {op : Operator} {operand : Expr} {span : Span} :
      Scalar keywords operand → Scalar keywords (.unary op operand span)
  | compare {left : Expr} {ops : List Operator} {comparators : List Expr} {span : Span} :
      Scalar keywords left → (∀ e ∈ comparators, Scalar keywords e) →
      Scalar keywords (.compare left ops comparators span)
  | boolOp {op : Operator} {values : List Expr} {span : Span} :
      (∀ e ∈ values, Scalar keywords e) → Scalar keywords (.boolOp op values span)

/-- An expression is written in such a way that it is read as a tree of the same meaning. -/
def Realized (keywords : List String) (e : Expr) (t : TypedExpr) : Prop :=
  ∃ tree, Written keywords t.text 8 tree ∧ Faithful e tree

/-- Operands that are realized one by one are realized together. -/
theorem exists_trees {es : List Expr} {ts : List TypedExpr}
    (h : List.Forall₂ (Realized keywords) es ts) :
    ∃ trees, List.Forall₂ (fun text tree => Written keywords text 8 tree)
      (TypedExpr.texts ts) trees ∧ List.Forall₂ Faithful es trees := by
  induction h with
  | nil => exact ⟨[], .nil, .nil⟩
  | cons h _ ih =>
    obtain ⟨tree, hw, hf⟩ := h
    obtain ⟨trees, hws, hfs⟩ := ih
    exact ⟨tree :: trees, .cons hw hws, .cons hf hfs⟩

variable {span : Span}

theorem realized_name {id : String} (h : C.IsName keywords id) {v : Variable}
    (hv : v.name = id) :
    Realized keywords (.name id span) (.var { v with mode := .reuse } span) := by
  refine ⟨.name id, ?_, fun env w hw _ => ?_⟩
  · simpa [TypedExpr.text, Variable.text?, hv] using Written.name h
  · have hw : env id = some w := hw
    simp [C.Tree.eval, outputEnv, hw]

theorem realized_int (n : Nat) :
    Realized keywords (.constant (.int n) span) (.constant (.int n) span) := by
  refine ⟨.number n, Written.number n, fun env v hv hs => ?_⟩
  obtain rfl : .int n = v := by simpa [Expr.eval] using hv
  exact C.fit_of_inRange (hs.inRange hv)

theorem realized_bool (b : Bool) :
    Realized keywords (.constant (.bool b) span) (.constant (.bool b) span) := by
  refine ⟨.number (C.truth b).toNat, Written.truth b, fun env v hv _ => ?_⟩
  obtain rfl : .bool b = v := by simpa [Expr.eval] using hv
  cases b <;> rfl

theorem realized_binary {left right : Expr} {op : Operator} {l r : TypedExpr}
    (hop : op ≠ .div) (hf : op.family = .arithmetic) (hl : Realized keywords left l)
    (hr : Realized keywords right r) :
    Realized keywords (.binary left op right span) (.binary l op r span) := by
  obtain ⟨tl, hwl, hfl⟩ := hl
  obtain ⟨tr, hwr, hfr⟩ := hr
  obtain ⟨o, hmark, hlevel, happly⟩ := Operator.exists_arithmetic hf
  have hle := o.level_le
  refine ⟨.binary o tl tr, ?_, fun env v hv hs => ?_⟩
  · have hw := Written.binary hmark (hwl.mono (by omega)) (hwr.mono (by omega))
    simpa [TypedExpr.text, hop, String.append_assoc] using (hw.mono (Nat.zero_le _)).paren
  · obtain ⟨a, ha, b, hb, n, hn, rfl⟩ := Expr.eval_binary_eq_some_iff.1 hv
    have hrange := hs.inRange hv
    obtain ⟨hsl, hsr, halike, -⟩ := hs
    rw [C.eval_binary hlevel (hfl env _ ha hsl) (hfr env _ hb hsr)]
    exact happly a b n hn (hsl.inRange ha) (halike a b ha hb) hrange

theorem realized_unary {op : Operator} {operand : Expr} {t : TypedExpr}
    (hop : op = .plus ∨ op = .minus ∨ op = .not) (h : Realized keywords operand t) :
    Realized keywords (.unary op operand span) (.unary op t span) := by
  obtain ⟨tree, hw, hf⟩ := h
  obtain ⟨o, hmark, happly⟩ := Operator.exists_onValue hop
  refine ⟨.unary o tree, hw.unary hmark, fun env v hv hs => ?_⟩
  obtain ⟨w, hev, hon⟩ := Expr.eval_unary_eq_some_iff.1 hv
  obtain ⟨hse, hfits⟩ := hs
  simp only [C.Tree.eval, hf env w hev hse, Option.bind_eq_bind, Option.bind_some]
  exact happly w v hon fun n hn => hfits n (hn ▸ hv)

theorem realized_boolOp {op : Operator} {es : List Expr} {ts : List TypedExpr}
    (hop : op = .and ∨ op = .or) (hne : es ≠ []) (h : List.Forall₂ (Realized keywords) es ts) :
    Realized keywords (.boolOp op es span) (.boolChain op ts span) := by
  obtain ⟨trees, hw, hf⟩ := exists_trees h
  cases hf with
  | nil => exact absurd rfl hne
  | @cons e first es trees he hf =>
    cases h with
    | @cons _ t _ ts _ _ =>
      cases hw with
      | cons hw hws =>
        have hmark : op.outputMark.binary? = some (C.junction (op = .or)) := by
          rcases hop with rfl | rfl <;> rfl
        have hlevel := (C.junction (op = .or)).level_le
        have hrun := Written.run hmark (hw.mono (by omega))
          (hws.imp fun _ _ hw => hw.mono (by omega))
        refine ⟨_, (hrun.mono (Nat.zero_le _)).paren, fun env v hv hs => ?_⟩
        obtain ⟨-, r, hr, rfl⟩ := Expr.eval_boolOp_eq_some_iff.1 hv
        obtain ⟨b, hb, hrest⟩ := Expr.evalRun_cons_eq_some_iff.1 hr
        obtain ⟨hse, hses⟩ := hs
        apply Expr.eval_run (he env _ hb hse) hrest _ hf
        intro hne
        apply hses
        simpa [hb] using hne

theorem realized_compare {left : Expr} {l : TypedExpr} {ops : List Operator} {es : List Expr}
    {ts : List TypedExpr} (hne : ops ≠ []) (hlen : ops.length = es.length)
    (hops : ∀ op ∈ ops, op.family = .comparison) (hl : Realized keywords left l)
    (h : List.Forall₂ (Realized keywords) es ts) :
    Realized keywords (.compare left ops es span) (.compare l ops ts span) := by
  obtain ⟨tl, hwl, hfl⟩ := hl
  obtain ⟨trees, hw, hf⟩ := exists_trees h
  obtain ⟨os, hos⟩ := Operator.exists_all_compares hops
  have hlinks := written_links hos hwl hw
  cases hos with
  | nil => exact absurd rfl hne
  | @cons op o ops os hop hos =>
    cases hf with
    | nil => simp at hlen
    | @cons e tree es trees he hf =>
      cases h with
      | @cons _ t _ ts _ _ =>
        -- The first link starts the conjunction, and the others are added to it.
        obtain ⟨hfirst, hrest⟩ := List.forall₂_cons.1 hlinks
        have hmark : Operator.and.outputMark.binary? = some (C.junction false) := rfl
        have hrun := Written.run hmark (hfirst.mono (by decide)) hrest
        refine ⟨_, (hrun.mono (Nat.zero_le _)).paren, fun env v hv hs => ?_⟩
        obtain ⟨a, ha, r, hr, rfl⟩ := Expr.eval_compare_eq_some_iff.1 hv
        obtain ⟨b, hb, s, hrel, hchain⟩ := Expr.evalLinks_cons_eq_some_iff.1 hr
        obtain ⟨hsl, hslinks⟩ := hs
        obtain ⟨hse, hses⟩ := hslinks a ha
        obtain ⟨-, hlevel, happly⟩ := hop
        have hleft : tl.eval (outputEnv env) = some a := hfl env _ ha hsl
        have hright : tree.eval (outputEnv env) = some b := he env _ hb hse
        have hlink := (C.eval_binary hlevel hleft hright).trans (happly a b s hrel)
        apply Expr.eval_chain hlink hright hchain _ hos hf
        rintro rfl
        exact hses b hb hrel

/-- Every expression over integers and truth values that has a typed form is realized by it. -/
theorem Expr.Scalar.realized {e : Expr} (he : e.Scalar keywords) {table : SymbolTable} :
    ∀ {t : TypedExpr}, e.lower table = .ok t → Realized keywords e t := by
  induction he with
  | name hid =>
    intro t ht
    obtain ⟨v, hv, rfl⟩ := TypedExpr.mkVariable_eq_ok_iff.1 ht
    exact realized_name hid (SymbolTable.name_of_lookup hv)
  | int n =>
    intro t ht
    obtain ⟨-, rfl⟩ := TypedExpr.mkConstant_eq_ok_iff.1 ht
    exact realized_int n
  | bool b =>
    intro t ht
    obtain ⟨-, rfl⟩ := TypedExpr.mkConstant_eq_ok_iff.1 ht
    exact realized_bool b
  | binary hop _ _ ihl ihr =>
    intro t ht
    obtain ⟨l, r, hl, hr, hf, -, rfl⟩ := lower_binary_eq_ok_iff.1 ht
    exact realized_binary hop hf (ihl hl) (ihr hr)
  | unary _ ih =>
    intro t ht
    obtain ⟨o, ho, hop, rfl⟩ := lower_unary_eq_ok_iff.1 ht
    exact realized_unary hop (ih ho)
  | compare _ _ ihl ih =>
    intro t ht
    obtain ⟨l, ts, hl, hts, hne, hlen, hops, rfl⟩ := lower_compare_eq_ok_iff.1 ht
    exact realized_compare hne hlen hops (ihl hl) (forall₂_of_lowersTo ih hts)
  | boolOp _ ih =>
    intro t ht
    obtain ⟨ts, hts, hop, hlen, rfl⟩ := lower_boolOp_eq_ok_iff.1 ht
    refine realized_boolOp hop ?_ (forall₂_of_lowersTo ih hts)
    rintro rfl
    simp at hlen

/-- **The output means what the source means.** Whatever words the output language keeps for
itself, the text of a typed expression is read as an expression whose value is defined and is the
value of the source. -/
theorem read_eval_of_eval {e : Expr} (he : e.Scalar keywords) {table : SymbolTable}
    {t : TypedExpr} (ht : e.lower table = .ok t) {env : String → Option Value} {v : Value}
    (hv : e.eval env = some v) (hs : e.Safe env) :
    (C.parse? keywords t.text).bind (C.Tree.eval (outputEnv env)) = some v.toInt := by
  obtain ⟨tree, hw, hf⟩ := he.realized ht
  rw [hw.parse?, Option.bind_some]
  exact hf env v hv hs

end

/-- A condition whose last division is not reached:
`x // y < 5 <= -z + 9 % 4 and (not done or x // zero == 1)`. -/
def guardedDivision : Expr :=
  let name (id : String) : Expr := .name id .nowhere
  let int (k : Nat) : Expr := .constant (.int k) .nowhere
  let binary (l : Expr) (op : Operator) (r : Expr) : Expr := .binary l op r .nowhere
  .boolOp .and
    [.compare (binary (name "x") .floorDiv (name "y")) [.lt, .ltE]
      [int 5, binary (.unary .minus (name "z") .nowhere) .add (binary (int 9) .mod (int 4))]
      .nowhere,
     .boolOp .or [.unary .not (name "done") .nowhere,
      .compare (binary (name "x") .floorDiv (name "zero")) [.eq] [int 1] .nowhere] .nowhere]
    .nowhere

theorem read_eval_of_eval_guardedDivision :
    let keywords := ["int", "double", "return", "while", "if", "else", "void"]
    let table : SymbolTable := ⟨⟨"done", some .bool, none, .reuse⟩ ::
      ["x", "y", "z", "zero"].map fun id => ⟨id, some .int, none, .reuse⟩, []⟩
    let env := fun id => List.lookup id [("x", Value.int (-7)), ("y", .int (-2)), ("z", .int (-5)),
      ("zero", .int 0), ("done", .bool false)]
    ∃ t, guardedDivision.Scalar keywords ∧ guardedDivision.lower table = .ok t ∧
      guardedDivision.eval env = some (.bool true) ∧ guardedDivision.Safe env ∧
      t.text = "(((x / y) < 5 && 5 <= ((-z) + (9 % 4))) && ((!done) || ((x / zero) == 1)))" ∧
      (C.parse? keywords t.text).bind (C.Tree.eval (outputEnv env)) = some 1 := by
  intro keywords table env
  have hscalar : guardedDivision.Scalar keywords := by
    refine .boolOp (List.forall_mem_cons.2 ⟨.compare ?_ ?_, List.forall_mem_singleton.2 ?_⟩)
    · exact .binary (by decide) (.name (by decide)) (.name (by decide))
    · refine List.forall_mem_cons.2 ⟨.int 5, List.forall_mem_singleton.2 ?_⟩
      exact .binary (by decide) (.unary (.name (by decide))) (.binary (by decide) (.int 9) (.int 4))
    · refine .boolOp (List.forall_mem_cons.2 ⟨.unary (.name (by decide)), ?_⟩)
      refine List.forall_mem_singleton.2 (.compare ?_ (List.forall_mem_singleton.2 (.int 1)))
      exact .binary (by decide) (.name (by decide)) (.name (by decide))
  have hlower : ∃ t, guardedDivision.lower table = .ok t ∧
      t.text = "(((x / y) < 5 && 5 <= ((-z) + (9 % 4))) && ((!done) || ((x / zero) == 1)))" := by
    exact ⟨_, rfl, by decide⟩
  have heval : guardedDivision.eval env = some (.bool true) := by decide
  have hsafe : guardedDivision.Safe env := by
    simp [guardedDivision, Expr.Safe, Expr.SafeRun, Expr.SafeLinks, Expr.Fits, Expr.eval, env,
      List.lookup_cons, Value.int?, Operator.arithmetic?, Operator.onValue?, Operator.DividesAlike,
      C.InRange]
    decide
  obtain ⟨t, ht, htext⟩ := hlower
  exact ⟨t, hscalar, ht, heval, hsafe, htext, read_eval_of_eval hscalar ht heval hsafe⟩

end DefToC
