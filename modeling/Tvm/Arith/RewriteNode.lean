import Tvm.Arith.ModularSet
import Tvm.Arith.RewriteRulesDiv
import Tvm.Arith.RewriteRulesLogic
import Tvm.Arith.RewriteRulesMinMax

/-!
# Rewriting one node

What `VisitExpr_` of `rewrite_simplify.cc` does with a node whose operands are simplified: the
tables of rules and, between them, the pieces of code that ask the other analyses.  The answers
of the analyzer are a parameter; an answer is `none` where the call that computes it fails.
-/

namespace Tvm.Arith

/-- `none` stands for `kNegInf` and for `kPosInf`. -/
structure ConstIntBound where
  minValue : Option Int
  maxValue : Option Int
  deriving DecidableEq, Repr

namespace ConstIntBound

def everything : ConstIntBound :=
  ⟨none, none⟩

/-- `min_value >= n`. -/
def atLeast (bound : ConstIntBound) (n : Int) : Bool :=
  bound.minValue.any (n ≤ ·)

/-- `max_value <= n`. -/
def atMost (bound : ConstIntBound) (n : Int) : Bool :=
  bound.maxValue.any (· ≤ n)

/-- `a->max_value <= b->min_value`. -/
def below (a b : ConstIntBound) : Bool :=
  a.maxValue.any b.atLeast

/-- The value where `max_value == min_value`. -/
def constant (bound : ConstIntBound) : Option Int :=
  if bound.minValue = bound.maxValue then bound.minValue else none

def Contains (bound : ConstIntBound) (value : Int) : Prop :=
  (∀ n, bound.minValue = some n → n ≤ value) ∧ ∀ n, bound.maxValue = some n → value ≤ n

end ConstIntBound

inductive CompareResult where
  | kUnknown | kEQ | kGT | kGE | kLT | kLE | kNE
  deriving DecidableEq, Repr

structure Queries where
  canProveGreaterEqual : PrimExpr → Int → Option Bool
  canProveLess : PrimExpr → Int → Option Bool
  tryCompare : PrimExpr → Int → Option CompareResult
  constIntBound : PrimExpr → ConstIntBound
  modularSet : PrimExpr → ModularSet.Entry
  literalConstraints : List PrimExpr

/-- What rewrote a node: constant folding, a literal constraint, a rule, or code that asked an
analysis. -/
inductive Firing where
  | constFold (result : PrimExpr)
  | literalConstraint (result : PrimExpr)
  | rule (rule : Rule) (bindings : Bindings) (result : PrimExpr)
  | analysis (result : PrimExpr)

namespace Firing

def result : Firing → PrimExpr
  | .constFold result | .literalConstraint result | .rule _ _ result | .analysis result => result

def recursive : Firing → Bool
  | .rule fired _ _ => fired.recursive
  | _ => false

end Firing

section Rules

variable (queries : Queries)

def Queries.canProveEqual (e : PrimExpr) (val : Int) : Option Bool :=
  (queries.tryCompare e val).map (· == .kEQ)

def Query.ask (bindings : Bindings) : Query → Option Bool
  | .canProveGreaterEqual e bound =>
    (e.eval bindings).bind fun x => queries.canProveGreaterEqual x (bound bindings.consts)
  | .canProveEqualZero e => (e.eval bindings).bind fun x => queries.canProveEqual x 0

def askAll (bindings : Bindings) : List Query → Option Bool
  | [] => some true
  | query :: rest =>
    (query.ask queries bindings).bind fun proved =>
      if proved then askAll bindings rest else some false

/-- The inner `none` where the rule does not fire. -/
def Rule.tryRule (rule : Rule) (e : PrimExpr) : Option (Option Firing) :=
  match rule.source.matchExpr e Bindings.empty with
  | none => some none
  | some bindings =>
    if rule.cond bindings.consts then
      (askAll queries bindings rule.queries).bind fun proved =>
        if proved then
          (rule.result.eval bindings).map fun result => some (.rule rule bindings result)
        else some none
    else some none

def tryRules : List Rule → PrimExpr → Option (Option Firing)
  | [], _ => some none
  | rule :: rest, e =>
    (rule.tryRule queries e).bind fun fired =>
      match fired with
      | none => tryRules rest e
      | some firing => some (some firing)

end Rules

section Analyses

variable (queries : Queries)

def tryMatchLiteralConstraint (e : PrimExpr) : List PrimExpr → Option PrimExpr
  | [] => none
  | constraint :: rest =>
    if constraint = e then some (.intImm 1)
    else if constraint = .not e then some (.intImm 0)
    else tryMatchLiteralConstraint e rest

/-- "try modular analysis" of `ModNode` and `FloorModNode`. -/
def modularAnalysis : PrimExpr → Option (Option PrimExpr)
  | .binary .mod x (.intImm c1) =>
    if (queries.modularSet x).coeff.tmod c1 = 0 ∧ c1 > 0 then
      (queries.canProveGreaterEqual x 0).bind fun nonneg =>
        if nonneg then
          (makeBinary .mod (.intImm (queries.modularSet x).base) (.intImm c1)).map some
        else some none
    else some none
  | .binary .floorMod x (.intImm c1) =>
    if (queries.modularSet x).coeff.tmod c1 = 0 ∧ c1 > 0 then
      (makeBinary .floorMod (.intImm (queries.modularSet x).base) (.intImm c1)).map some
    else some none
  | _ => some none

/-- The operands of the dividend `x * c1 + y`. -/
structure ScaledSum where
  x : PrimExpr
  c1 : Int
  y : PrimExpr

/-- `x * c1 + y`, `x * c1` or `y + x * c1`. -/
def scaledSum : PrimExpr → Option ScaledSum
  | .binary .add (.binary .mul x (.intImm c1)) y => some ⟨x, c1, y⟩
  | .binary .mul x (.intImm c1) => some ⟨x, c1, .intImm 0⟩
  | .binary .add y (.binary .mul x (.intImm c1)) => some ⟨x, c1, y⟩
  | _ => none

/-- `floordiv(x * floormod(c1, c2) + floormod(y, c2), c2)`. -/
def residue (sum : ScaledSum) (c2 : Int) : Option PrimExpr := do
  let factor ← makeBinary .floorMod (.intImm sum.c1) (.intImm c2)
  let product ← makeBinary .mul sum.x factor
  let rest ← makeBinary .floorMod sum.y (.intImm c2)
  let dividend ← makeBinary .add product rest
  makeBinary .floorDiv dividend (.intImm c2)

/-- `CanProveEqual(floordiv(y, c2), 0) ? 0 : floordiv(y, c2)`. -/
def yDiv (y : PrimExpr) (c2 : Int) : Option PrimExpr := do
  let quotient ← makeBinary .floorDiv y (.intImm c2)
  let zero ← queries.canProveEqual quotient 0
  some (if zero then .intImm 0 else quotient)

/-- "try eliminate residue part". -/
def eliminateResidue (sum : ScaledSum) (c2 bound : Int) (yDiv : PrimExpr) : Option PrimExpr := do
  let factor ← makeBinary .floorDiv (.intImm sum.c1) (.intImm c2)
  let product ← makeBinary .mul sum.x factor
  let rest ← makeBinary .add yDiv (.intImm bound)
  makeBinary .add product rest

def simplifyDivisor (sum : ScaledSum) (c2 : Int) (yDiv : PrimExpr) : Option (Option PrimExpr) :=
  if sum.c1 > 0 ∧ c2 > 0 ∧ c2.tmod sum.c1 = 0 then do
    let rest ← makeBinary .floorMod sum.y (.intImm c2)
    let less ← queries.canProveLess rest sum.c1
    if less then do
      let divisor ← makeBinary .floorDiv (.intImm c2) (.intImm sum.c1)
      let quotient ← makeBinary .floorDiv sum.x divisor
      let result ← makeBinary .add quotient yDiv
      some (some result)
    else some none
  else some none

/-- The residue and the divisor of `FloorDivNode`. -/
def floorDivParts : PrimExpr → Option (Option PrimExpr)
  | .binary .floorDiv a (.intImm c2) =>
    match scaledSum a with
    | none => some none
    | some sum =>
      if c2 = 0 then some (some (.binary .floorDiv a (.intImm c2)))
      else do
        let residue ← residue sum c2
        let yDiv ← yDiv queries sum.y c2
        match (queries.constIntBound residue).constant with
        | some bound => (eliminateResidue sum c2 bound yDiv).map some
        | none => simplifyDivisor queries sum c2 yDiv
  | _ => some none

/-- "constant int bound" of `MinNode` and `MaxNode`. -/
def constBounds : PrimExpr → Option PrimExpr
  | .binary .min a b =>
    if (queries.constIntBound a).below (queries.constIntBound b) then some a
    else if (queries.constIntBound b).below (queries.constIntBound a) then some b
    else none
  | .binary .max a b =>
    if (queries.constIntBound b).below (queries.constIntBound a) then some a
    else if (queries.constIntBound a).below (queries.constIntBound b) then some b
    else none
  | _ => none

/-- `TryCompare(a - b, 0)` in `EQNode` and `LTNode`. -/
def compareOperands : PrimExpr → Option (Option PrimExpr)
  | .binary .eq a b => do
      let difference ← makeBinary .sub a b
      let result ← queries.tryCompare difference 0
      some (match result with
        | .kEQ => some (.intImm 1)
        | .kNE | .kGT | .kLT => some (.intImm 0)
        | _ => none)
  | .binary .lt a b => do
      let difference ← makeBinary .sub a b
      let result ← queries.tryCompare difference 0
      some (match result with
        | .kLT => some (.intImm 1)
        | .kEQ | .kGT | .kGE => some (.intImm 0)
        | _ => none)
  | _ => some none

end Analyses

/-- `TryConstFold` of a node. -/
def constFold : PrimExpr → Option (Option PrimExpr)
  | .binary op a b => tryConstFold op a b
  | .not a => some (tryConstFoldNot a)
  | _ => some none

/-- A node is rewritten by the first stage that returns. -/
inductive Stage where
  | constFold | literalConstraint | modularAnalysis | floorDivParts | constBounds
  | compareOperands
  | table (rules : List Rule)

def Stage.run (queries : Queries) (e : PrimExpr) : Stage → Option (Option Firing)
  | .constFold => (Tvm.Arith.constFold e).map (Option.map .constFold)
  | .literalConstraint =>
    some ((tryMatchLiteralConstraint e queries.literalConstraints).map .literalConstraint)
  | .modularAnalysis => (Tvm.Arith.modularAnalysis queries e).map (Option.map .analysis)
  | .floorDivParts => (Tvm.Arith.floorDivParts queries e).map (Option.map .analysis)
  | .constBounds => some ((Tvm.Arith.constBounds queries e).map .analysis)
  | .compareOperands => (Tvm.Arith.compareOperands queries e).map (Option.map .analysis)
  | .table rules => tryRules queries rules e

def runStages (queries : Queries) (e : PrimExpr) : List Stage → Option (Option Firing)
  | [] => some none
  | stage :: rest =>
    (stage.run queries e).bind fun fired =>
      match fired with
      | none => runStages queries e rest
      | some firing => some (some firing)

/-- `VisitExpr_` of the binary nodes after their operands.  The remaining comparisons are
replaced before their operands are visited. -/
def BinOp.stages : BinOp → List Stage
  | .add => [.constFold, .table Rules.addRules]
  | .sub => [.constFold, .table Rules.subRules]
  | .mul => [.constFold, .table Rules.mulRules]
  | .div => [.constFold, .table Rules.divRules]
  | .mod => [.constFold, .table Rules.modRules, .modularAnalysis]
  | .floorDiv =>
    [.constFold, .table Rules.floorDivNestedRules, .floorDivParts, .table Rules.floorDivRules]
  | .floorMod => [.constFold, .table Rules.floorModRules, .modularAnalysis]
  | .min => [.constFold, .table Rules.minSelfRules, .constBounds, .table Rules.minRules]
  | .max => [.constFold, .table Rules.maxSelfRules, .constBounds, .table Rules.maxRules]
  | .eq => [.constFold, .literalConstraint, .compareOperands, .table Rules.eqRules]
  | .lt => [.constFold, .literalConstraint, .compareOperands, .table Rules.ltRules]
  | .and => [.constFold, .literalConstraint, .table Rules.andRules]
  | .or => [.constFold, .literalConstraint, .table Rules.orRules]
  | _ => []

def notStages : List Stage :=
  [.constFold, .literalConstraint, .table Rules.notRules]

def selectStages : List Stage :=
  [.table Rules.selectRules]

end Tvm.Arith
