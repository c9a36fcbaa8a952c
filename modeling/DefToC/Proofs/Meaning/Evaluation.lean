import DefToC.Syntax.Tree
import DefToC.Proofs.Meaning.COutput

/-!
# Evaluation of source expressions

What an expression over integers and truth values means in the source language. Quotients are
rounded down, comparisons are chained, and an operand that a chain does not need is left alone.
Integers have no bounds here; `Expr.Safe` says that an evaluation meets none of the integers and
divisions on which the two languages differ.
-/

namespace DefToC

/-- A value: an integer or a truth value. -/
inductive Value where
  | int (n : Int)
  | bool (b : Bool)
  deriving DecidableEq

namespace Value

def int? : Value → Option Int
  | int n => some n
  | bool _ => none

def bool? : Value → Option Bool
  | int _ => none
  | bool b => some b

/-- The integer that stands for a value in the output. -/
def toInt : Value → Int
  | int n => n
  | bool b => C.truth b

theorem exists_int?_iff {x : Option Value} {P : Int → Prop} :
    (∃ v, x = some v ∧ ∃ n, v.int? = some n ∧ P n) ↔ ∃ n, x = some (int n) ∧ P n := by
  rcases x with _ | _ | _ <;> simp [int?]

theorem exists_bool?_iff {x : Option Value} {P : Bool → Prop} :
    (∃ v, x = some v ∧ ∃ b, v.bool? = some b ∧ P b) ↔ ∃ b, x = some (bool b) ∧ P b := by
  rcases x with _ | _ | _ | _ <;> simp [bool?]

end Value

namespace Operator

/-- The result of an operator between two integers. -/
def arithmetic? : Operator → Int → Int → Option Int
  | add, a, b => some (a + b)
  | sub, a, b => some (a - b)
  | mult, a, b => some (a * b)
  | floorDiv, a, b => if b = 0 then none else some (a.fdiv b)
  | mod, a, b => if b = 0 then none else some (a.fmod b)
  | _, _, _ => none

/-- Does a comparison hold between two integers? -/
def relation? : Operator → Int → Int → Option Bool
  | eq, a, b => some (a = b)
  | notEq, a, b => some (a ≠ b)
  | lt, a, b => some (a < b)
  | ltE, a, b => some (a ≤ b)
  | gt, a, b => some (a > b)
  | gtE, a, b => some (a ≥ b)
  | _, _, _ => none

/-- The result of an operator in front of a value. -/
def onValue? : Operator → Value → Option Value
  | plus, .int a => some (.int a)
  | minus, .int a => some (.int (-a))
  | not, .bool b => some (.bool !b)
  | _, _ => none

/-- A division that comes out alike in both languages: the operands have one sign or the
quotient is exact, and it is not the one whose quotient has no place in 32 bits. -/
def DividesAlike (op : Operator) (a b : Int) : Prop :=
  op = floorDiv ∨ op = mod → (a.sign = b.sign ∨ b ∣ a) ∧ ¬(a = -2147483648 ∧ b = -1)

end Operator

namespace Expr

mutual

/-- The value of an expression. -/
def eval (env : String → Option Value) : Expr → Option Value
  | name id _ => env id
  | constant (.int n) _ => some (.int n)
  | constant (.bool b) _ => some (.bool b)
  | binary left op right _ => do
    let a ← (← left.eval env).int?
    let b ← (← right.eval env).int?
    return .int (← op.arithmetic? a b)
  | unary op operand _ => do op.onValue? (← operand.eval env)
  | compare left ops comparators _ => do
    let a ← (← left.eval env).int?
    return .bool (← evalLinks env a ops comparators)
  | boolOp .and values _ => do return .bool (← evalRun env false values)
  | boolOp .or values _ => do return .bool (← evalRun env true values)
  | _ => none

/-- Do the links of a chain of comparisons hold, behind an operand? The first that does not
ends the chain. -/
def evalLinks (env : String → Option Value) (a : Int) : List Operator → List Expr → Option Bool
  | op :: ops, e :: es => do
    let b ← (← e.eval env).int?
    if ← op.relation? a b then evalLinks env b ops es else return false
  | _, _ => some true

/-- The value of a run of operands, which ends with the first whose value is `stop`. -/
def evalRun (env : String → Option Value) (stop : Bool) : List Expr → Option Bool
  | [] => some !stop
  | e :: es => do
    let b ← (← e.eval env).bool?
    if b = stop then return stop else evalRun env stop es

end

section

variable {env : String → Option Value} {span : Span} {v : Value}

theorem eval_binary_eq_some_iff {left right : Expr} {op : Operator} :
    (binary left op right span).eval env = some v ↔ ∃ a, left.eval env = some (.int a) ∧
      ∃ b, right.eval env = some (.int b) ∧ ∃ n, op.arithmetic? a b = some n ∧ .int n = v := by
  simp only [eval, Option.bind_eq_bind, Value.exists_int?_iff, Option.bind_eq_some_iff,
    Option.pure_def, Option.some.injEq]

theorem eval_unary_eq_some_iff {op : Operator} {operand : Expr} :
    (unary op operand span).eval env = some v ↔
      ∃ w, operand.eval env = some w ∧ op.onValue? w = some v := by
  simp only [eval, Option.bind_eq_bind, Option.bind_eq_some_iff]

theorem eval_compare_eq_some_iff {left : Expr} {ops : List Operator} {es : List Expr} :
    (compare left ops es span).eval env = some v ↔ ∃ a, left.eval env = some (.int a) ∧
      ∃ r, evalLinks env a ops es = some r ∧ .bool r = v := by
  simp only [eval, Option.bind_eq_bind, Value.exists_int?_iff, Option.bind_eq_some_iff,
    Option.pure_def, Option.some.injEq]

theorem eval_boolOp_eq_some_iff {op : Operator} {es : List Expr} :
    (boolOp op es span).eval env = some v ↔ (op = .and ∨ op = .or) ∧
      ∃ r, evalRun env (op = .or) es = some r ∧ .bool r = v := by
  cases op with
  | and => simp [eval, Option.bind_eq_some_iff]
  | or => simp [eval, Option.bind_eq_some_iff]
  | _ => simp [eval]

theorem evalLinks_cons_eq_some_iff {a : Int} {op : Operator} {ops : List Operator} {e : Expr}
    {es : List Expr} {r : Bool} :
    evalLinks env a (op :: ops) (e :: es) = some r ↔ ∃ b, e.eval env = some (.int b) ∧
      ∃ s, op.relation? a b = some s ∧
        (if s then evalLinks env b ops es else some false) = some r := by
  simp only [evalLinks, Option.bind_eq_bind, Value.exists_int?_iff,
    Option.bind_eq_some_iff, Option.pure_def]

theorem evalRun_cons_eq_some_iff {stop r : Bool} {e : Expr} {es : List Expr} :
    evalRun env stop (e :: es) = some r ↔ ∃ b, e.eval env = some (.bool b) ∧
      (if b = stop then some stop else evalRun env stop es) = some r := by
  simp only [evalRun, Option.bind_eq_bind, Option.bind_eq_some_iff, Option.pure_def,
    Value.exists_bool?_iff]

end

/-- A value that is no integer beyond 32 bits. -/
def Fits (v : Option Value) : Prop := ∀ n, v = some (.int n) → C.InRange n

mutual

/-- Every integer that the evaluation meets has 32 bits, and every division it makes comes out
alike in both languages. Operands that are left alone do not count. -/
def Safe (env : String → Option Value) : Expr → Prop
  | binary left op right span =>
    left.Safe env ∧ right.Safe env ∧
      (∀ a b, left.eval env = some (.int a) → right.eval env = some (.int b) →
        op.DividesAlike a b) ∧
      Fits ((binary left op right span).eval env)
  | unary op operand span => operand.Safe env ∧ Fits ((unary op operand span).eval env)
  | compare left ops comparators _ =>
    left.Safe env ∧ ∀ a, left.eval env = some (.int a) → SafeLinks env a ops comparators
  | boolOp op values _ => SafeRun env (op = .or) values
  | e => Fits (e.eval env)

/-- The operands of a chain that are evaluated behind `a` are safe. -/
def SafeLinks (env : String → Option Value) (a : Int) : List Operator → List Expr → Prop
  | op :: ops, e :: es =>
    e.Safe env ∧ ∀ b, e.eval env = some (.int b) → op.relation? a b = some true →
      SafeLinks env b ops es
  | _, _ => True

/-- The operands of a run that are evaluated are safe. -/
def SafeRun (env : String → Option Value) (stop : Bool) : List Expr → Prop
  | [] => True
  | e :: es => e.Safe env ∧ (e.eval env ≠ some (.bool stop) → SafeRun env stop es)

end

end Expr

end DefToC
