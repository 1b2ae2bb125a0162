import Tvm.Lib.AssocList
import Tvm.Arith.IntervalSetSound
import Tvm.Arith.Terms

/-!
# Integer constraints

`IntConstraints` and `IntConstraintsTransform` of `int_solver.h`, their solutions, and the analyzer
that the solvers ask.
-/

namespace Tvm.Arith

open PrimExpr

structure Range where
  min : PrimExpr
  extent : PrimExpr
  deriving DecidableEq, Repr

abbrev Ranges := List (Var × Range)

def PrimExpr.IsTrue (env : Env) (e : PrimExpr) : Prop :=
  ∃ v, e.value env = some v ∧ v ≠ 0

def Range.Contains (env : Env) (range : Range) (x : Int) : Prop :=
  ∃ lower extent, range.min.value env = some lower ∧ range.extent.value env = some extent ∧
    lower ≤ x ∧ x < lower + extent

def Range.vars (range : Range) : List Var :=
  range.min.vars ++ range.extent.vars

def Ranges.Hold (env : Env) (ranges : Ranges) : Prop :=
  ∀ entry ∈ ranges, entry.2.Contains env (env entry.1)

def Ranges.vars (ranges : Ranges) : List Var :=
  ranges.flatMap fun entry => entry.2.vars

/-- `Analyzer::Simplify` with a number of steps, `CanProve`, `CanProveGreaterEqual` with the given
ranges bound, and `EvalSet`. -/
structure Analyzer where
  simplify : Nat → Ranges → PrimExpr → PrimExpr
  canProve : Ranges → PrimExpr → Bool
  canProveGreaterEqual : Ranges → PrimExpr → Int → Bool
  evalSet : Ranges → PrimExpr → IntervalSet

/-- A simplification that is right: it keeps the value where the ranges hold and divides by nothing
new. -/
structure Analyzer.SimplifiesAt (analyzer : Analyzer) (steps : Nat) (ranges : Ranges)
    (e : PrimExpr) : Prop where
  value : ∀ env v, ranges.Hold env → e.value env = some v →
    (analyzer.simplify steps ranges e).value env = some v
  defined : ∀ env v, e.value env = some v →
    ∃ w, (analyzer.simplify steps ranges e).value env = some w
  vars : ∀ w ∈ (analyzer.simplify steps ranges e).vars, w ∈ e.vars ∨ w ∈ ranges.vars
  sorted : ∀ sort, e.Sorted sort → (analyzer.simplify steps ranges e).Sorted sort

theorem Analyzer.SimplifiesAt.of_eq {analyzer : Analyzer} {steps : Nat} {ranges : Ranges}
    {e : PrimExpr} (same : analyzer.simplify steps ranges e = e) : analyzer.SimplifiesAt steps ranges e := by
  constructor
  · exact fun env v _ isValue => same.symm ▸ isValue
  · exact fun env v isValue => ⟨v, same.symm ▸ isValue⟩
  · exact fun w member => Or.inl (same ▸ member)
  · exact fun sort sorted => same.symm ▸ sorted

def Limit.exprs : Limit → List PrimExpr
  | .expr e => [e]
  | _ => []

/-- An interval set that is right: it contains the value where the ranges hold and the variables
with a range are relaxed. -/
structure Analyzer.EvaluatesAt (analyzer : Analyzer) (ranges : Ranges) (e : PrimExpr) : Prop where
  contains : ∀ env v, ranges.Hold env → e.value env = some v →
    (analyzer.evalSet ranges e).Contains (fun _ _ => none) env v
  bound : ∀ bound ∈ (analyzer.evalSet ranges e).minValue.exprs ++
      (analyzer.evalSet ranges e).maxValue.exprs, bound.Sorted .int ∧
    ∀ w ∈ bound.vars, (w ∈ e.vars ∧ ranges.lookup w = none) ∨ w ∈ ranges.vars

/-- The answers of an analyzer are right: a simplification keeps the value, what is proved is true
and an interval contains the value, wherever the ranges hold. -/
structure Analyzer.Sound (analyzer : Analyzer) : Prop where
  simplifies : ∀ steps ranges e, analyzer.SimplifiesAt steps ranges e
  proves : ∀ ranges e, analyzer.canProve ranges e = true → ∀ env v, ranges.Hold env →
    e.value env = some v → v ≠ 0
  evaluates : ∀ ranges e, analyzer.EvaluatesAt ranges e

def Analyzer.constant : Analyzer where
  simplify := fun _ _ e => e
  canProve := fun _ e =>
    match e with
    | .intImm n => decide (n ≠ 0)
    | _ => false
  canProveGreaterEqual := fun _ _ _ => false
  evalSet := fun _ _ => .everything

theorem Analyzer.constant_sound : Analyzer.constant.Sound where
  simplifies := fun _ _ _ => .of_eq rfl
  proves := by
    intro ranges e proved env v _ value
    cases e with
    | intImm n =>
      cases value
      exact of_decide_eq_true proved
    | _ => cases proved
  evaluates := by
    intro ranges e
    constructor
    · exact fun env v _ _ => ⟨trivial, trivial⟩
    · exact fun bound absurd => by cases absurd

section Holds

variable {env : Env} {e a b : PrimExpr} {x y : Int}

theorem isTrue_iff {v : Int} (value : e.value env = some v) : e.IsTrue env ↔ v ≠ 0 := by
  constructor
  · rintro ⟨w, isValue, nonzero⟩
    rw [value] at isValue
    cases isValue
    exact nonzero
  · exact fun nonzero => ⟨v, value, nonzero⟩

theorem value_eq (left : a.value env = some x) (right : b.value env = some y) :
    (make .eq a b).value env = some (truth (x = y)) :=
  value_make left right (admits_int rfl x y) rfl

theorem value_lt (left : a.value env = some x) (right : b.value env = some y) :
    (make .lt a b).value env = some (truth (x < y)) :=
  value_make left right (admits_int rfl x y) rfl

theorem truth_ne_zero {p : Prop} [Decidable p] : truth p ≠ 0 ↔ p := by
  rw [ne_eq, truth_eq_zero, not_not]

end Holds

end Tvm.Arith
