import Mathlib
import Tvm.Arith.IntConstraints

/-!
# Deducing the bound of a variable

`BoundDeducer` and `DeduceBound` of `bound_deducer.cc`, over mathematical integers.  The analyzer,
`EvalSet` and the types of the operands are parameters; `none` is the empty set that reports a
failure, or a failed check.
-/

namespace Tvm.Arith

open PrimExpr

inductive CompareOp where
  | greater
  | less
  | equal
  deriving DecidableEq, Repr

def CompareOp.reverse : CompareOp → CompareOp
  | .greater => .less
  | .less => .greater
  | .equal => .equal

inductive SignType where
  | positive
  | negative
  | zero
  | unknown
  deriving DecidableEq, Repr

/-- What is asked of `EvalSet`, of the analyzers and of the types: `samePoint` is `same_as` or
`CanProveEqual` of a fresh analyzer, `isUInt` is `dtype().is_uint()`. -/
structure BoundQueries where
  evalSet : DomMap → PrimExpr → IntervalSet
  simplify : PrimExpr → PrimExpr
  canProve : PrimExpr → Bool
  samePoint : PrimExpr → PrimExpr → Bool
  isUInt : PrimExpr → Bool

def targetCount (target : Var) : PrimExpr → Nat
  | .var v => if v = target then 1 else 0
  | .intImm _ | .other _ => 0
  | .binary _ a b => targetCount target a + targetCount target b
  | .not a | .cast a => targetCount target a
  | .select condition trueValue falseValue =>
    targetCount target condition + targetCount target trueValue + targetCount target falseValue
  | .letIn _ value body => targetCount target value + targetCount target body

variable (q : BoundQueries)

/-- `is_positive_const` and `is_negative_const` of a simplified bound. -/
def simplifiedTo (holds : Int → Bool) : Limit → Bool
  | .expr e =>
    match q.simplify e with
    | .intImm n => holds n
    | _ => false
  | _ => false

/-- `IsSinglePoint() && is_zero(PointValue())`. -/
def isZeroPoint (set : IntervalSet) : Bool :=
  match set.minValue, set.maxValue with
  | .expr a, .expr b => q.samePoint a b && decide (a = .intImm 0)
  | _, _ => false

def getSignType (set : IntervalSet) : SignType :=
  if simplifiedTo q (fun n => decide (0 < n)) set.minValue then .positive
  else if simplifiedTo q (fun n => decide (n < 0)) set.maxValue then .negative
  else if isZeroPoint q set then .zero
  else .unknown

def signOperand (hintMap : DomMap) (operand : PrimExpr) : SignType :=
  if q.isUInt operand then .positive else getSignType q (q.evalSet hintMap operand)

/-- What `VisitExpr_(MulNode)` makes of the result and of the operator. -/
def divideResult (hintMap : DomMap) (operand result : PrimExpr) (compareOp : CompareOp) :
    Option (PrimExpr × CompareOp) :=
  if signOperand q hintMap operand = .unknown then none
  else do
    let compareOp :=
      if signOperand q hintMap operand = .negative then compareOp.reverse else compareOp
    let remainder ← makeBinary .floorMod result operand
    let quotient ← makeBinary .floorDiv result operand
    if q.canProve (make .eq remainder (.intImm 0)) then return (quotient, compareOp)
    else
      match compareOp with
      | .greater => return (make .add quotient (.intImm 1), compareOp)
      | .less => return (quotient, compareOp)
      | .equal => none

def visitBound (hintMap : DomMap) (target : Var) :
    PrimExpr → PrimExpr → CompareOp → Option (PrimExpr × CompareOp)
  | .var v, result, compareOp => if v = target then some (result, compareOp) else none
  | .binary .add a b, result, compareOp =>
    if targetCount target a = 0 then visitBound hintMap target b (make .sub result a) compareOp
    else visitBound hintMap target a (make .sub result b) compareOp
  | .binary .sub a b, result, compareOp =>
    if targetCount target a = 0 then
      visitBound hintMap target b (negate (make .sub result a)) compareOp.reverse
    else visitBound hintMap target a (make .add result b) compareOp
  | .binary .mul a b, result, compareOp =>
    if targetCount target a = 0 then do
      let next ← divideResult q hintMap a result compareOp
      visitBound hintMap target b next.1 next.2
    else do
      let next ← divideResult q hintMap b result compareOp
      visitBound hintMap target a next.1 next.2
  | _, _, _ => none

/-- `Transform`: the operator, `expr_` and `result_`. -/
def transform (target : Var) : PrimExpr → Option (CompareOp × PrimExpr × PrimExpr)
  | .binary .lt a b =>
    if targetCount target a = 0 then some (.greater, b, make .add a (.intImm 1))
    else some (.less, a, make .sub b (.intImm 1))
  | .binary .le a b =>
    if targetCount target a = 0 then some (.greater, b, a) else some (.less, a, b)
  | .binary .gt a b =>
    if targetCount target a = 0 then some (.less, b, make .sub a (.intImm 1))
    else some (.greater, a, make .add b (.intImm 1))
  | .binary .ge a b =>
    if targetCount target a = 0 then some (.less, b, a) else some (.greater, a, b)
  | .binary .eq a b =>
    if targetCount target a = 0 then some (.equal, b, a) else some (.equal, a, b)
  | _ => none

/-- `CanProve(min() == max())`. -/
def provedPoint (set : IntervalSet) : Bool :=
  match set.minValue, set.maxValue with
  | .expr a, .expr b => q.canProve (make .eq a b)
  | _, _ => false

def relaxSides (relaxMap : DomMap) (compareOp : CompareOp) (expr result : PrimExpr) :
    Option (Limit × Limit) :=
  let a := q.evalSet relaxMap expr
  let b := q.evalSet relaxMap result
  if a.isEverything || b.isEverything then none
  else if decide (compareOp = .equal) && (!provedPoint q b || !provedPoint q a) then none
  else if compareOp = .greater then some (a.minValue, b.maxValue)
  else some (a.maxValue, b.minValue)

def relaxedComparison (target : Var) (e : PrimExpr) (relaxMap : DomMap) :
    Option (CompareOp × Limit × Limit) :=
  if targetCount target e = 1 then do
    let sides ← transform target e
    let relaxed ← relaxSides q relaxMap sides.1 sides.2.1 sides.2.2
    return (sides.1, relaxed.1, relaxed.2)
  else none

/-- `Deduce`; a result that is infinite is not computed with. -/
def deduce (target : Var) (e : PrimExpr) (hintMap relaxMap : DomMap) :
    Option (Limit × CompareOp) := do
  let relaxed ← relaxedComparison q target e relaxMap
  match relaxed.2.1 with
  | .expr expr =>
    if targetCount target expr = 0 then none
    else
      match relaxed.2.2 with
      | .expr result => do
        let deduced ← visitBound q hintMap target expr result relaxed.1
        return (.expr deduced.1, deduced.2)
      | limit => if expr = .var target then some (limit, relaxed.1) else none
  | _ => none

def deduceBound (target : Var) (e : PrimExpr) (hintMap relaxMap : DomMap) :
    Option IntervalSet := do
  let deduced ← deduce q target e hintMap relaxMap
  match deduced.2 with
  | .equal => return ⟨deduced.1, deduced.1⟩
  | .greater => return ⟨deduced.1, .posInf⟩
  | .less => return ⟨.negInf, deduced.1⟩

end Tvm.Arith
