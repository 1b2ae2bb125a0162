import Tvm.Arith.ConstFold

/-!
# Interval sets

`IntervalSetEvaluator` of `int_set.cc` with `Combine`, `Union` and the methods of
`IntervalSetNode`, over mathematical integers.  `none` is a failed `ICHECK`, a `LOG(FATAL)` or an
analyzer that gives no answer.  There are no `dom_constraints_`.
-/

namespace Tvm.Arith

/-- A bound: `SymbolicLimits::neg_inf_`, `SymbolicLimits::pos_inf_` or an expression. -/
inductive Limit where
  | negInf
  | posInf
  | expr (e : PrimExpr)
  deriving DecidableEq, Repr

structure IntervalSet where
  minValue : Limit
  maxValue : Limit
  deriving DecidableEq, Repr

/-- What is asked of the analyzer, of the analyzer that `IsSinglePoint` creates, and of the
identity of nodes. -/
structure IntervalQueries where
  canProveGreaterEqual : PrimExpr → Int → Option Bool
  canProve : PrimExpr → Option Bool
  freshCanProve : PrimExpr → Option Bool
  sameAs : PrimExpr → PrimExpr → Bool

def Limit.min : Limit → Limit → Option Limit
  | .posInf, b => some b
  | .negInf, _ => some .negInf
  | a, .posInf => some a
  | _, .negInf => some .negInf
  | .expr x, .expr y => (makeBinary .min x y).map .expr

def Limit.max : Limit → Limit → Option Limit
  | .posInf, _ => some .posInf
  | .negInf, b => some b
  | _, .posInf => some .posInf
  | a, .negInf => some a
  | .expr x, .expr y => (makeBinary .max x y).map .expr

def PrimExpr.neg : PrimExpr → Option PrimExpr
  | .intImm value => some (.intImm (-value))
  | a => makeBinary .sub (.intImm 0) a

def PrimExpr.abs : PrimExpr → Option PrimExpr
  | .intImm value => some (.intImm value.natAbs)
  | x => do
      let sign ← makeBinary .ge x (.intImm 0)
      let negated ← x.neg
      some (.select sign x negated)

/-- `Analyzer::CanProveEqual` on the analyzer that `IsSinglePoint` creates. -/
def IntervalQueries.canProveEqual (q : IntervalQueries) : PrimExpr → PrimExpr → Option Bool
  | .intImm x, .intImm y => some (x = y)
  | lhs, rhs => do
      let difference ← makeBinary .sub lhs rhs
      let equal ← makeBinary .eq difference (.intImm 0)
      q.freshCanProve equal

namespace IntervalSet

def singlePoint (value : PrimExpr) : IntervalSet :=
  ⟨.expr value, .expr value⟩

def everything : IntervalSet :=
  ⟨.negInf, .posInf⟩

def isEmpty (set : IntervalSet) : Bool :=
  set.minValue == .posInf || set.maxValue == .negInf

def isEverything (set : IntervalSet) : Bool :=
  set.minValue == .negInf && set.maxValue == .posInf

def isSinglePoint (q : IntervalQueries) (set : IntervalSet) : Option Bool :=
  match set.minValue, set.maxValue with
  | .expr lower, .expr upper =>
    if q.sameAs lower upper then some true else q.canProveEqual lower upper
  | lower, upper => some (lower = upper)

def lowerBound (set : IntervalSet) : Option PrimExpr :=
  match set.minValue with
  | .expr lower => if set.isEmpty then none else some lower
  | _ => none

def upperBound (set : IntervalSet) : Option PrimExpr :=
  match set.maxValue with
  | .expr upper => if set.isEmpty then none else some upper
  | _ => none

def union (a b : IntervalSet) : Option IntervalSet :=
  if a.isEmpty then some b
  else if b.isEmpty then some a
  else do
    let maxValue ← a.maxValue.max b.maxValue
    let minValue ← a.minValue.min b.minValue
    some ⟨minValue, maxValue⟩

end IntervalSet

/-- An operator on two bounds, or the limit where a bound is missing. -/
def boundBy (limit : Limit) (op : BinOp) : Option PrimExpr → Option PrimExpr → Option Limit
  | some x, some y => (makeBinary op x y).map .expr
  | _, _ => some limit

def combinePoints (op : BinOp) (a b : IntervalSet) : Option IntervalSet :=
  match a.minValue, b.minValue with
  | .expr x, .expr y => (makeBinary op x y).map .singlePoint
  | _, _ => none

section Combine

variable (q : IntervalQueries)

def bothPoints (a b : IntervalSet) : Option Bool := do
  if ← a.isSinglePoint q then b.isSinglePoint q else some false

def combineWith (op : BinOp) (ranges : IntervalSet → IntervalSet → Option IntervalSet)
    (a b : IntervalSet) : Option IntervalSet := do
  if ← bothPoints q a b then combinePoints op a b
  else if a.isEmpty then some a
  else if b.isEmpty then some b
  else ranges a b

def combineLogical (op : BinOp) (a b : IntervalSet) : Option IntervalSet := do
  if ← bothPoints q a b then combinePoints op a b
  else some ⟨.expr (.intImm 0), .expr (.intImm 1)⟩

def combineAdd : IntervalSet → IntervalSet → Option IntervalSet :=
  combineWith q .add fun a b => do
    let minValue ← boundBy .negInf .add a.lowerBound b.lowerBound
    let maxValue ← boundBy .posInf .add a.upperBound b.upperBound
    some ⟨minValue, maxValue⟩

def combineSub : IntervalSet → IntervalSet → Option IntervalSet :=
  combineWith q .sub fun a b => do
    let minValue ← boundBy .negInf .sub a.lowerBound b.upperBound
    let maxValue ← boundBy .posInf .sub a.upperBound b.lowerBound
    some ⟨minValue, maxValue⟩

def scaleBySign (op : BinOp) (a : IntervalSet) (d : PrimExpr) : Option IntervalSet := do
  if ← q.canProveGreaterEqual d 0 then
    let minValue ← boundBy .negInf op a.lowerBound (some d)
    let maxValue ← boundBy .posInf op a.upperBound (some d)
    some ⟨minValue, maxValue⟩
  else
    let negated ← d.neg
    if ← q.canProveGreaterEqual negated 1 then
      let minValue ← boundBy .negInf op a.upperBound (some d)
      let maxValue ← boundBy .posInf op a.lowerBound (some d)
      some ⟨minValue, maxValue⟩
    else
      match a.lowerBound, a.upperBound with
      | some lower, some upper =>
        let sign ← makeBinary .ge d (.intImm 0)
        let e1 ← makeBinary op lower d
        let e2 ← makeBinary op upper d
        some ⟨.expr (.select sign e1 e2), .expr (.select sign e2 e1)⟩
      | _, _ => some .everything

/-- What is done where `b` is a single point; `Everything` where it is not. -/
def withPoint (b : IntervalSet) (onPoint : PrimExpr → Option IntervalSet) : Option IntervalSet := do
  if ← b.isSinglePoint q then
    match b.minValue with
    | .expr d => onPoint d
    | _ => none
  else some .everything

def mulByPoint (a b : IntervalSet) : Option IntervalSet :=
  withPoint q b fun d =>
    if d = .intImm 0 then some b
    else if d = .intImm 1 then some a
    else scaleBySign q .mul a d

def combineMul : IntervalSet → IntervalSet → Option IntervalSet :=
  combineWith q .mul fun a b => do
    if ← a.isSinglePoint q then mulByPoint q b a else mulByPoint q a b

/-- `Combine` of the two divisions. -/
def combineQuotient (op : BinOp) : IntervalSet → IntervalSet → Option IntervalSet :=
  combineWith q op fun a b =>
    withPoint q b fun d =>
      if d = .intImm 0 then none
      else if d = .intImm 1 then some a
      else scaleBySign q op a d

def combineDiv : IntervalSet → IntervalSet → Option IntervalSet :=
  combineQuotient q .div

def combineFloorDiv : IntervalSet → IntervalSet → Option IntervalSet :=
  combineQuotient q .floorDiv

def belowDivisor (divisor : PrimExpr) : Option IntervalSet :=
  (makeBinary .sub divisor (.intImm 1)).map fun upper => ⟨.expr (.intImm 0), .expr upper⟩

/-- `[-bound, bound]` with `bound = abs(divisor) - 1`. -/
def withinDivisor (divisor : PrimExpr) : Option IntervalSet := do
  let magnitude ← divisor.abs
  let bound ← makeBinary .sub magnitude (.intImm 1)
  let lower ← bound.neg
  some ⟨.expr lower, .expr bound⟩

def combineMod : IntervalSet → IntervalSet → Option IntervalSet :=
  combineWith q .mod fun _ b =>
    withPoint q b fun divisor => do
      if divisor = .intImm 0 then none
      else if ← q.canProveGreaterEqual divisor 0 then belowDivisor divisor
      else withinDivisor divisor

def residueBound (divisor quotient : PrimExpr) : Limit → Option Limit
  | .expr bound => do
      let multiple ← makeBinary .mul divisor quotient
      (makeBinary .sub bound multiple).map .expr
  | _ => none

/-- The residues where both bounds of `a` have one quotient.  The limits are never proved equal. -/
def sameQuotient (a : IntervalSet) (divisor : PrimExpr) : Option (Option IntervalSet) := do
  let qmax ← boundBy .posInf .floorDiv a.upperBound (some divisor)
  let qmin ← boundBy .negInf .floorDiv a.lowerBound (some divisor)
  match qmax, qmin with
  | .expr upper, .expr lower =>
    let equal ← makeBinary .eq upper lower
    if ← q.canProve equal then
      let tmax ← residueBound divisor lower a.maxValue
      let tmin ← residueBound divisor lower a.minValue
      some (some ⟨tmin, tmax⟩)
    else some none
  | _, _ => some none

def combineFloorMod : IntervalSet → IntervalSet → Option IntervalSet :=
  combineWith q .floorMod fun a b =>
    withPoint q b fun divisor => do
      if divisor = .intImm 0 then none
      else if ← q.canProveGreaterEqual divisor 0 then
        match divisor with
        | .intImm _ =>
          let residues ← sameQuotient q a divisor
          match residues with
          | some set => some set
          | none => belowDivisor divisor
        | _ => belowDivisor divisor
      else withinDivisor divisor

def combineMax : IntervalSet → IntervalSet → Option IntervalSet :=
  combineWith q .max fun a b => do
    let minValue ← a.minValue.max b.minValue
    let maxValue ← a.maxValue.max b.maxValue
    some ⟨minValue, maxValue⟩

def combineMin : IntervalSet → IntervalSet → Option IntervalSet :=
  combineWith q .min fun a b => do
    let minValue ← a.minValue.min b.minValue
    let maxValue ← a.maxValue.min b.maxValue
    some ⟨minValue, maxValue⟩

/-- `Combine` by the operator; a shift or a bitwise operator is a call. -/
def combine (op : BinOp) (a b : IntervalSet) : Option IntervalSet :=
  match op with
  | .add => combineAdd q a b
  | .sub => combineSub q a b
  | .mul => combineMul q a b
  | .div => combineDiv q a b
  | .mod => combineMod q a b
  | .floorDiv => combineFloorDiv q a b
  | .floorMod => combineFloorMod q a b
  | .max => combineMax q a b
  | .min => combineMin q a b
  | .shiftLeft | .shiftRight | .bitwiseAnd => some .everything
  | .eq | .ne | .lt | .le | .gt | .ge | .and | .or => combineLogical q op a b

end Combine

abbrev DomMap := List (Var × IntervalSet)

def DomMap.find (domMap : DomMap) (v : Var) : Option IntervalSet :=
  domMap.lookup v

section Evaluator

variable (q : IntervalQueries)

def matchPoint (set : IntervalSet) (value : PrimExpr) : Bool :=
  match set.minValue, set.maxValue with
  | .expr lower, .expr upper => q.sameAs lower value && q.sameAs upper value
  | _, _ => false

def castBound (limit : Limit) : Option PrimExpr → Limit
  | some (.intImm value) => .expr (.intImm value)
  | some bound => .expr (.cast bound)
  | none => limit

def castSet (set : IntervalSet) : IntervalSet :=
  ⟨castBound .negInf set.lowerBound, castBound .posInf set.upperBound⟩

/-- A `Call` that the evaluator does not look into. -/
def BinOp.isCall : BinOp → Bool
  | .shiftLeft | .shiftRight | .bitwiseAnd => true
  | _ => false

variable (domMap : DomMap) (loads : Nat → Bool)

/-- `VisitExpr` on scalars; `relax` is `Eval` of an interval.  `loads` are the loads from integer
buffers whose indices use no mapped variable. -/
def visitSet (relax : IntervalSet → Option IntervalSet) : PrimExpr → Option IntervalSet
  | .intImm value => some (.singlePoint (.intImm value))
  | .var v =>
    match domMap.find v with
    | none => some (.singlePoint (.var v))
    | some set => if matchPoint q set (.var v) then some set else relax set
  | .binary op a b =>
    if op.isCall then some .everything
    else do
      let aSet ← visitSet relax a
      let bSet ← visitSet relax b
      if matchPoint q aSet a && matchPoint q bSet b then some (.singlePoint (.binary op a b))
      else combine q op aSet bSet
  | .select _ trueValue falseValue => do
      let trueSet ← visitSet relax trueValue
      let falseSet ← visitSet relax falseValue
      falseSet.union trueSet
  | .cast value => (visitSet relax value).map castSet
  | .other node => some (if loads node then .singlePoint (.other node) else .everything)
  | .not _ | .letIn _ _ _ => some .everything

/-- A bound of a mapped set is an expression as well; no variable is a limit. -/
def visitLimit (relax : IntervalSet → Option IntervalSet) : Limit → Option IntervalSet
  | .expr e => visitSet q domMap loads relax e
  | limit => some ⟨limit, limit⟩

/-- `Eval` of an interval; `depth` is how far `recur_depth_` is from the size of the map. -/
def relax : Nat → IntervalSet → Option IntervalSet
  | 0, set => some set
  | depth + 1, set => do
      let minSet ← visitLimit q domMap loads (relax depth) set.minValue
      let maxSet ← visitLimit q domMap loads (relax depth) set.maxValue
      some ⟨minSet.minValue, maxSet.maxValue⟩

def evalScalar : PrimExpr → Option IntervalSet :=
  visitSet q domMap loads (relax q domMap loads domMap.length)

end Evaluator

/-- A scalar or a vector.  A vector that the evaluator does not look into is `scalar` of an
`other` node. -/
inductive LanedExpr where
  | scalar (e : PrimExpr)
  | ramp (base stride : PrimExpr) (lanes : Nat)
  | broadcast (value : PrimExpr) (lanes : Nat)
  | binary (op : BinOp) (a b : LanedExpr)
  | select (condition trueValue falseValue : LanedExpr)
  | cast (value : LanedExpr)
  deriving DecidableEq, Repr

def LanedExpr.lane (interp : Nat → Env → Option Int) (env : Env) (i : Nat) :
    LanedExpr → Option Int
  | .scalar e => e.eval interp env
  | .ramp base stride _ =>
    (base.eval interp env).bind fun b => (stride.eval interp env).map fun s => b + i * s
  | .broadcast value _ => value.eval interp env
  | .binary op a b => (lane interp env i a).bind fun x => (lane interp env i b).bind (op.eval x)
  | .select condition trueValue falseValue =>
    (lane interp env i condition).bind fun chosen =>
      if chosen ≠ 0 then lane interp env i trueValue else lane interp env i falseValue
  | .cast value => lane interp env i value

def LanedExpr.hasLane (i : Nat) : LanedExpr → Prop
  | .scalar _ => True
  | .ramp _ _ lanes | .broadcast _ lanes => i < lanes
  | .binary _ a b => hasLane i a ∧ hasLane i b
  | .select condition trueValue falseValue =>
    hasLane i condition ∧ hasLane i trueValue ∧ hasLane i falseValue
  | .cast value => hasLane i value

def rampOffsets (stride : Int) (lanes : Nat) : IntervalSet :=
  if stride > 0 then ⟨.expr (.intImm 0), .expr (.intImm (stride * (lanes - 1)))⟩
  else ⟨.expr (.intImm (stride * (lanes - 1))), .expr (.intImm 0)⟩

section Vectors

variable (q : IntervalQueries) (domMap : DomMap) (loads : Nat → Bool)

/-- `IntervalSetEvaluator::Eval`; vectors are accepted where `evalVec`.  A bound is a scalar, so no
bound is the vector that is visited. -/
def evalSet (evalVec : Bool) : LanedExpr → Option IntervalSet
  | .scalar e => evalScalar q domMap loads e
  | .ramp base stride lanes =>
    if evalVec then do
      let baseSet ← evalScalar q domMap loads base
      match stride with
      | .intImm vstride => combineAdd q baseSet (rampOffsets vstride lanes)
      | _ => some .everything
    else none
  | .broadcast value _ => if evalVec then evalScalar q domMap loads value else none
  | .binary op a b =>
    if op.isCall then some .everything
    else do
      let aSet ← evalSet evalVec a
      let bSet ← evalSet evalVec b
      combine q op aSet bSet
  | .select _ trueValue falseValue => do
      let trueSet ← evalSet evalVec trueValue
      let falseSet ← evalSet evalVec falseValue
      falseSet.union trueSet
  | .cast value => (evalSet evalVec value).map castSet

end Vectors

end Tvm.Arith
