import Mathlib.Data.Int.Bitwise

/-!
# Integer expressions of TIR

The expressions that the analyzers of `arith` visit, read with mathematical integers: a cast
between integer types keeps the value, a truth value is `0` or `1`.  Evaluation is `none` at a
zero divisor and at a negative shift amount.  A `Select` evaluates the chosen value only.
-/

namespace Tvm.Arith

/-- A variable is the identity of its node. -/
abbrev Var := Nat

abbrev Env := Var → Int

/-- The binary operators. `div` and `mod` truncate. -/
inductive BinOp where
  | add | sub | mul | div | mod | floorDiv | floorMod | min | max
  | eq | ne | lt | le | gt | ge | and | or
  | shiftLeft | shiftRight | bitwiseAnd
  deriving DecidableEq, Repr

/-- `other` stands for every node that the analyzers here do not look into. -/
inductive PrimExpr where
  | var (v : Var)
  | intImm (value : Int)
  | binary (op : BinOp) (a b : PrimExpr)
  | not (a : PrimExpr)
  | select (condition trueValue falseValue : PrimExpr)
  | letIn (v : Var) (value body : PrimExpr)
  | cast (value : PrimExpr)
  | other (node : Nat)
  deriving DecidableEq, Repr

def truth (p : Prop) [Decidable p] : Int :=
  if p then 1 else 0

@[simp]
theorem truth_eq_one {p : Prop} [Decidable p] : truth p = 1 ↔ p := by
  rw [truth]
  split <;> simp_all

@[simp]
theorem truth_eq_zero {p : Prop} {_ : Decidable p} : truth p = 0 ↔ ¬p := by
  rw [truth]
  split <;> simp_all

def BinOp.eval : BinOp → Int → Int → Option Int
  | .add, a, b => some (a + b)
  | .sub, a, b => some (a - b)
  | .mul, a, b => some (a * b)
  | .div, a, b => if b = 0 then none else some (a.tdiv b)
  | .mod, a, b => if b = 0 then none else some (a.tmod b)
  | .floorDiv, a, b => if b = 0 then none else some (a.fdiv b)
  | .floorMod, a, b => if b = 0 then none else some (a.fmod b)
  | .min, a, b => some (Min.min a b)
  | .max, a, b => some (Max.max a b)
  | .eq, a, b => some (truth (a = b))
  | .ne, a, b => some (truth (a ≠ b))
  | .lt, a, b => some (truth (a < b))
  | .le, a, b => some (truth (a ≤ b))
  | .gt, a, b => some (truth (a > b))
  | .ge, a, b => some (truth (a ≥ b))
  | .and, a, b => some (truth (a ≠ 0 ∧ b ≠ 0))
  | .or, a, b => some (truth (a ≠ 0 ∨ b ≠ 0))
  | .shiftLeft, a, b => if b < 0 then none else some (a * 2 ^ b.toNat)
  | .shiftRight, a, b => if b < 0 then none else some (a.fdiv (2 ^ b.toNat))
  | .bitwiseAnd, a, b => some (Int.land a b)

namespace PrimExpr

/-- The value of an expression; `interp` gives the value of the nodes not looked into. -/
def eval (interp : Nat → Env → Option Int) (env : Env) : PrimExpr → Option Int
  | .var v => some (env v)
  | .intImm value => some value
  | .binary op a b => (eval interp env a).bind fun x => (eval interp env b).bind (op.eval x)
  | .not a => (eval interp env a).map fun x => truth (x = 0)
  | .select condition trueValue falseValue =>
    (eval interp env condition).bind fun chosen =>
      if chosen ≠ 0 then eval interp env trueValue else eval interp env falseValue
  | .letIn v value body =>
    (eval interp env value).bind fun x => eval interp (Function.update env v x) body
  | .cast value => eval interp env value
  | .other node => interp node env

end PrimExpr

end Tvm.Arith

/-!
## Sorts of expressions

Scalar index expressions and conditions over them, built from a given set of operators.
-/

namespace Tvm.Arith

inductive ExprSort where
  | int | bool
  deriving DecidableEq, Repr

def BinOp.operandSort : BinOp → ExprSort
  | .and | .or => .bool
  | _ => .int

def BinOp.resultSort : BinOp → ExprSort
  | .eq | .ne | .lt | .le | .gt | .ge | .and | .or => .bool
  | _ => .int

/-- Expressions of a sort whose operators are all `allowed`.  A literal is a condition where it
is a truth value. -/
def WellSorted (allowed : BinOp → Bool) : ExprSort → PrimExpr → Bool
  | .int, .var _ => true
  | .int, .intImm _ => true
  | .bool, .intImm value => value == 0 || value == 1
  | sort, .binary op a b =>
    allowed op && op.resultSort == sort && WellSorted allowed op.operandSort a &&
      WellSorted allowed op.operandSort b
  | .bool, .not a => WellSorted allowed .bool a
  | sort, .select condition trueValue falseValue =>
    WellSorted allowed .bool condition && WellSorted allowed sort trueValue &&
      WellSorted allowed sort falseValue
  | _, _ => false

variable {allowed : BinOp → Bool} {interp : Nat → Env → Option Int} {env : Env}

theorem truth_cases (p : Prop) [Decidable p] : truth p = 0 ∨ truth p = 1 := by
  rw [truth]
  split
  · exact Or.inr rfl
  · exact Or.inl rfl

theorem BinOp.eval_truth {op : BinOp} {x y v : Int} (logical : op.resultSort = .bool)
    (evaluates : op.eval x y = some v) : v = 0 ∨ v = 1 := by
  cases op <;> simp only [BinOp.resultSort, reduceCtorEq] at logical
  all_goals
    cases evaluates
    exact truth_cases _

theorem eval_truth {e : PrimExpr} {v : Int} (sorted : WellSorted allowed .bool e = true)
    (evaluates : e.eval interp env = some v) : v = 0 ∨ v = 1 := by
  induction e generalizing v with
  | var v => cases sorted
  | intImm value =>
    cases evaluates
    simpa [WellSorted] using sorted
  | binary op a b =>
    simp only [PrimExpr.eval, Option.bind_eq_some_iff] at evaluates
    obtain ⟨x, -, y, -, evaluates⟩ := evaluates
    simp only [WellSorted, Bool.and_eq_true, beq_iff_eq] at sorted
    exact BinOp.eval_truth sorted.1.1.2 evaluates
  | not a =>
    rw [PrimExpr.eval, Option.map_eq_some_iff] at evaluates
    obtain ⟨x, -, rfl⟩ := evaluates
    exact truth_cases _
  | select condition trueValue falseValue _ trueHypothesis falseHypothesis =>
    rw [PrimExpr.eval, Option.bind_eq_some_iff] at evaluates
    obtain ⟨chosen, -, evaluates⟩ := evaluates
    simp only [WellSorted, Bool.and_eq_true] at sorted
    split at evaluates
    · exact trueHypothesis sorted.1.2 evaluates
    · exact falseHypothesis sorted.2 evaluates
  | letIn => cases sorted
  | cast => cases sorted
  | other => cases sorted

end Tvm.Arith
