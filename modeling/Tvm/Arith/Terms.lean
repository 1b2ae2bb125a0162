import Mathlib
import Tvm.Arith.IntervalSet

/-!
# Terms over variables

The values of well-sorted expressions, the variables they mention, the operator overloads and
`Substitute` of `stmt_functor.h`.
-/

namespace Tvm.Arith

namespace PrimExpr

def Sorted (sort : ExprSort) (e : PrimExpr) : Prop :=
  WellSorted (fun _ => true) sort e = true

/-- The value of an expression without nodes that are not looked into. -/
def value (env : Env) (e : PrimExpr) : Option Int :=
  e.eval (fun _ _ => none) env

def vars : PrimExpr → List Var
  | .var v => [v]
  | .intImm _ | .other _ => []
  | .binary _ a b => a.vars ++ b.vars
  | .not a | .cast a => a.vars
  | .select condition trueValue falseValue => condition.vars ++ trueValue.vars ++ falseValue.vars
  | .letIn v value body => v :: value.vars ++ body.vars

def make (op : BinOp) (a b : PrimExpr) : PrimExpr :=
  (makeBinary op a b).getD (.binary op a b)

def negate (a : PrimExpr) : PrimExpr :=
  a.neg.getD (.binary .sub (.intImm 0) a)

end PrimExpr

open PrimExpr

section Values

variable {env env' : Env} {sort : ExprSort} {op : BinOp} {e a b : PrimExpr} {x y v : Int}

theorem value_var (env : Env) (w : Var) : (PrimExpr.var w).value env = some (env w) :=
  rfl

theorem value_intImm (env : Env) (n : Int) : (PrimExpr.intImm n).value env = some n :=
  rfl

theorem value_binary (op : BinOp) (a b : PrimExpr) (env : Env) :
    (PrimExpr.binary op a b).value env =
      (a.value env).bind fun x => (b.value env).bind (op.eval x) :=
  rfl

theorem sorted_binary : (PrimExpr.binary op a b).Sorted sort ↔
    op.resultSort = sort ∧ a.Sorted op.operandSort ∧ b.Sorted op.operandSort := by
  cases sort <;> simp [Sorted, WellSorted, and_assoc]

theorem sorted_select {condition trueValue falseValue : PrimExpr} :
    (PrimExpr.select condition trueValue falseValue).Sorted sort ↔
      condition.Sorted .bool ∧ trueValue.Sorted sort ∧ falseValue.Sorted sort := by
  cases sort <;> simp [Sorted, WellSorted, and_assoc]

theorem value_congr (sorted : e.Sorted sort) (agree : ∀ w ∈ e.vars, env w = env' w) :
    e.value env = e.value env' := by
  induction e generalizing sort with
  | var w =>
    rw [value_var, value_var, agree w (List.mem_singleton_self w)]
  | intImm n => rfl
  | binary op a b left right =>
    obtain ⟨-, sortedA, sortedB⟩ := sorted_binary.mp sorted
    rw [value_binary, value_binary,
      left sortedA fun w member => agree w (List.mem_append_left _ member),
      right sortedB fun w member => agree w (List.mem_append_right _ member)]
  | not a ih =>
    cases sort with
    | int => cases sorted
    | bool =>
      have sortedOperand : a.Sorted .bool := sorted
      have operand := ih sortedOperand agree
      simp only [PrimExpr.value, PrimExpr.eval] at operand ⊢
      rw [operand]
  | select condition trueValue falseValue chosen first second =>
    have parts := sorted_select.mp sorted
    have conditionValue := chosen parts.1 fun w member =>
      agree w (List.mem_append_left _ (List.mem_append_left _ member))
    have trueIs := first parts.2.1 fun w member =>
      agree w (List.mem_append_left _ (List.mem_append_right _ member))
    have falseIs := second parts.2.2 fun w member => agree w (List.mem_append_right _ member)
    simp only [PrimExpr.value, PrimExpr.eval] at conditionValue trueIs falseIs ⊢
    rw [conditionValue, trueIs, falseIs]
  | letIn => cases sort <;> cases sorted
  | cast => cases sort <;> cases sorted
  | other => cases sort <;> cases sorted

theorem eval_make {interp : Nat → Env → Option Int} (left : a.eval interp env = some x)
    (right : b.eval interp env = some y) (admits : op.Admits x y)
    (evaluates : op.eval x y = some v) : (make op a b).eval interp env = some v := by
  rw [make]
  cases made : makeBinary op a b with
  | none => rw [Option.getD_none, PrimExpr.eval, left, right, Option.bind_some, Option.bind_some,
      evaluates]
  | some r => exact makeBinary_sound made left right admits evaluates

theorem value_make (left : a.value env = some x) (right : b.value env = some y)
    (admits : op.Admits x y) (evaluates : op.eval x y = some v) :
    (make op a b).value env = some v :=
  eval_make left right admits evaluates

theorem admits_int (logical : op.operandSort = .int) (x y : Int) : op.Admits x y := by
  intro bool
  rw [logical] at bool
  cases bool

theorem value_add (left : a.value env = some x) (right : b.value env = some y) :
    (make .add a b).value env = some (x + y) :=
  value_make left right (admits_int rfl x y) rfl

theorem value_sub (left : a.value env = some x) (right : b.value env = some y) :
    (make .sub a b).value env = some (x - y) :=
  value_make left right (admits_int rfl x y) rfl

theorem value_mul (left : a.value env = some x) (right : b.value env = some y) :
    (make .mul a b).value env = some (x * y) :=
  value_make left right (admits_int rfl x y) rfl

theorem eval_negate {interp : Nat → Env → Option Int} (operand : a.eval interp env = some x) :
    (negate a).eval interp env = some (-x) := by
  have general : (make .sub (.intImm 0) a).eval interp env = some (-x) := by
    rw [← zero_sub]
    exact eval_make rfl operand (admits_int rfl 0 x) rfl
  cases a with
  | intImm n =>
    cases operand
    rfl
  | _ => exact general

theorem value_negate (operand : a.value env = some x) : (negate a).value env = some (-x) :=
  eval_negate operand

theorem sorted_intImm (n : Int) : (PrimExpr.intImm n).Sorted .int :=
  rfl

theorem sorted_make (op : BinOp) (left : a.Sorted op.operandSort) (right : b.Sorted op.operandSort) :
    (make op a b).Sorted op.resultSort := by
  rw [make]
  cases made : makeBinary op a b with
  | none => exact sorted_binary.mpr ⟨rfl, left, right⟩
  | some r => exact makeBinary_sorted made rfl left right

end Values

section Made

variable {op : BinOp} {a b r : PrimExpr}

theorem foldLeft_cases {m : Int} (folded : foldLeft op m b = some r) :
    r = b ∨ ∃ n, r = .intImm n := by
  cases op <;> simp only [foldLeft, reduceCtorEq] at folded
  all_goals
    repeat' split at folded
    all_goals
      cases folded
      try first | exact Or.inl rfl | exact Or.inr ⟨_, rfl⟩

theorem foldRight_cases {m : Int} (folded : foldRight op a m = some (some r)) :
    r = a ∨ ∃ n, r = .intImm n := by
  cases op <;> simp only [foldRight, reduceCtorEq, Option.some.injEq] at folded
  all_goals
    repeat' split at folded
    all_goals
      cases folded
      try first | exact Or.inl rfl | exact Or.inr ⟨_, rfl⟩

theorem makeBinary_cases (made : makeBinary op a b = some r) :
    r = a ∨ r = b ∨ (∃ n, r = .intImm n) ∨ r = .binary op a b := by
  rw [makeBinary, Option.map_eq_some_iff] at made
  obtain ⟨folded, foldedIs, rfl⟩ := made
  cases folded with
  | none => exact Or.inr (Or.inr (Or.inr rfl))
  | some found =>
    rw [Option.getD_some]
    rw [tryConstFold.eq_def] at foldedIs
    split at foldedIs
    · split at foldedIs
      · obtain ⟨n, -, same⟩ := Option.map_eq_some_iff.mp foldedIs
        cases same
        exact Or.inr (Or.inr (Or.inl ⟨n, rfl⟩))
      · exact Or.inr ((foldLeft_cases (Option.some.inj foldedIs)).imp_right Or.inl)
    · exact Or.inr ((foldLeft_cases (Option.some.inj foldedIs)).imp_right Or.inl)
    · rcases foldRight_cases foldedIs with same | literal
      · exact Or.inl same
      · exact Or.inr (Or.inr (Or.inl literal))
    · split at foldedIs
      · cases foldedIs
        exact Or.inl rfl
      · cases foldedIs

theorem make_cases (op : BinOp) (a b : PrimExpr) :
    make op a b = a ∨ make op a b = b ∨ (∃ n, make op a b = .intImm n) ∨
      make op a b = .binary op a b := by
  rw [make]
  cases made : makeBinary op a b with
  | none => exact Or.inr (Or.inr (Or.inr rfl))
  | some r => exact makeBinary_cases made

theorem vars_make {w : Var} (member : w ∈ (make op a b).vars) : w ∈ a.vars ∨ w ∈ b.vars := by
  rcases make_cases op a b with same | same | ⟨n, same⟩ | same
  · exact Or.inl (same ▸ member)
  · exact Or.inr (same ▸ member)
  · rw [same] at member
    cases member
  · rw [same] at member
    exact List.mem_append.mp member

end Made

end Tvm.Arith
