import Tvm.Arith.RewriteNode

/-!
# The rewriting simplifier

`RewriteSimplifier::Impl` of `rewrite_simplify.cc` with what it uses of `Analyzer`,
`ConstraintContext` and `IRMutatorWithAnalyzer`.  A visit has a fuel; it is `none` where the fuel
is used up, where an `ICHECK` fails and at a node that is not a scalar index expression.

A run may be guarded: it is `none` as well where something fires that the guard does not permit.
The simplifier itself permits everything.
-/

namespace Tvm.Arith

/-- The answers of the bound and the modular set analyzers under the constraints they were
given. -/
structure SubAnalyses where
  constIntBound : List PrimExpr → PrimExpr → ConstIntBound
  modularSet : List PrimExpr → PrimExpr → ModularSet.Entry

/-- The state of the simplifier; `entered` are the constraints of the enclosing
`ConstraintContext`s. -/
structure Impl where
  analyses : SubAnalyses
  varMap : Var → Option PrimExpr
  entered : List PrimExpr
  literalConstraints : List PrimExpr
  recurDepth : Nat

namespace Impl

def maxRecurDepth : Nat := 5

def start (analyses : SubAnalyses) (varMap : Var → Option PrimExpr) : Impl :=
  ⟨analyses, varMap, [], [], 0⟩

def constIntBound (impl : Impl) (e : PrimExpr) : ConstIntBound :=
  impl.analyses.constIntBound impl.entered e

def modularSet (impl : Impl) (e : PrimExpr) : ModularSet.Entry :=
  impl.analyses.modularSet impl.entered e

def pushLiteral (impl : Impl) (constraint : PrimExpr) : Impl :=
  { impl with literalConstraints := impl.literalConstraints ++ [constraint] }

end Impl

abbrev Visit := Impl → PrimExpr → Option PrimExpr

section Visit

variable (visit : Visit)

/-- `RewriteSimplifier::operator()`: at most two passes. -/
def rewriteSimplify (impl : Impl) (e : PrimExpr) : Option PrimExpr := do
  let first ← visit impl e
  if first = e then some e else visit impl first

def tryCompare (impl : Impl) (x : PrimExpr) (val : Int) : Option CompareResult :=
  (visit impl x).map fun diff =>
    match diff with
    | .intImm value => if value = val then .kEQ else if value > val then .kGT else .kLT
    | _ =>
      let bound := impl.constIntBound diff
      if bound.minValue = some val ∧ bound.maxValue = some val then .kEQ
      else if bound.minValue.any (· > val) then .kGT
      else if bound.maxValue.any (· < val) then .kLT
      else if bound.atLeast val then .kGE
      else if bound.atMost val then .kLE
      else if val = 0 ∧ (impl.modularSet diff).base ≠ 0 then .kNE
      else .kUnknown

def canProveGreaterEqual (impl : Impl) (e : PrimExpr) (lowerBound : Int) : Option Bool :=
  match e with
  | .intImm value => some (value ≥ lowerBound)
  | _ => (rewriteSimplify visit impl e).map fun simplified =>
    (impl.constIntBound simplified).atLeast lowerBound

def canProveLess (impl : Impl) (e : PrimExpr) (upperBound : Int) : Option Bool :=
  match e with
  | .intImm value => some (value < upperBound)
  | _ => (rewriteSimplify visit impl e).map fun simplified =>
    (impl.constIntBound simplified).maxValue.any (· < upperBound)

def Impl.queries (impl : Impl) : Queries where
  canProveGreaterEqual := Tvm.Arith.canProveGreaterEqual visit impl
  canProveLess := Tvm.Arith.canProveLess visit impl
  tryCompare := Tvm.Arith.tryCompare visit impl
  constIntBound := impl.constIntBound
  modularSet := impl.modularSet
  literalConstraints := impl.literalConstraints

def recursiveRewrite (impl : Impl) (x : PrimExpr) : Option PrimExpr :=
  if impl.recurDepth ≥ Impl.maxRecurDepth then some x
  else visit { impl with recurDepth := impl.recurDepth + 1 } x

/-- What is done with a node whose operands are simplified. -/
def rewriteNode (permits : Impl → Firing → Bool) (impl : Impl) (e : PrimExpr) (stages : List Stage) :
    Option PrimExpr := do
  let fired ← runStages (impl.queries visit) e stages
  match fired with
  | none => some e
  | some firing =>
    if permits impl firing then
      if firing.recursive then recursiveRewrite visit impl firing.result
      else some firing.result
    else none

/-- `CollectConstraints`, with the `rewrite_simplify` of an analyzer of its own. -/
def collectConstraints (simplify : PrimExpr → Option PrimExpr) :
    Nat → PrimExpr → Option (List PrimExpr)
  | 0, _ => none
  | fuel + 1, e =>
    match e with
    | .binary .and x y => do
        let first ← collectConstraints simplify fuel x
        let second ← collectConstraints simplify fuel y
        some (e :: (first ++ second))
    | .not (.binary .or x y) => do
        let notX ← simplify (.not x)
        let first ← collectConstraints simplify fuel notX
        let notY ← simplify (.not y)
        let second ← collectConstraints simplify fuel notY
        some (e :: (first ++ second))
    | _ => some [e]

variable (fresh : SubAnalyses) (fuel : Nat)

/-- `fresh` is what the analyses of a new analyzer answer. -/
def extractConstraints (e : PrimExpr) : Option (List PrimExpr) :=
  collectConstraints (rewriteSimplify visit (.start fresh fun _ => none)) fuel e

/-- The loop of `EnterConstraint`: each subconstraint and its simplified negation, negated. -/
def pushConstraints : Impl → List PrimExpr → Option Impl
  | impl, [] => some impl
  | impl, subconstraint :: rest => do
      let pushed := impl.pushLiteral subconstraint
      let negation ← visit pushed (.not subconstraint)
      pushConstraints (pushed.pushLiteral (.not negation)) rest

/-- `ConstraintContext::EnterWithScope`: the other analyses first, then `EnterConstraint`. -/
def enterConstraint (impl : Impl) (constraint : PrimExpr) : Option Impl := do
  let known := { impl with entered := impl.entered ++ [constraint] }
  let newConstraint ← visit known constraint
  let subconstraints ← extractConstraints visit fresh fuel newConstraint
  pushConstraints visit known subconstraints

/-- `VisitExpr_(SelectNode)` of `IRMutatorWithAnalyzer`. -/
def visitSelect (impl : Impl) (condition trueValue falseValue : PrimExpr) : Option PrimExpr := do
  let cond ← visit impl condition
  let whenTrue ← enterConstraint visit fresh fuel impl cond
  let trueValue ← visit whenTrue trueValue
  let negated ← rewriteSimplify visit impl (.not cond)
  let whenFalse ← enterConstraint visit fresh fuel impl negated
  let falseValue ← visit whenFalse falseValue
  some (if cond = .intImm 0 then falseValue
    else if cond = .intImm 1 then trueValue
    else .select cond trueValue falseValue)

def visitNode (permits : Impl → Firing → Bool) (impl : Impl) : PrimExpr → Option PrimExpr
  | .var v => some ((impl.varMap v).getD (.var v))
  | .intImm value => some (.intImm value)
  | .binary .ne a b => do
      let equal ← makeBinary .eq a b
      visit impl (.not equal)
  | .binary .le a b => do
      let less ← makeBinary .lt b a
      visit impl (.not less)
  | .binary .gt a b => do
      let less ← makeBinary .lt b a
      visit impl less
  | .binary .ge a b => do
      let less ← makeBinary .lt a b
      visit impl (.not less)
  | .binary .shiftLeft _ _ | .binary .shiftRight _ _ | .binary .bitwiseAnd _ _ => none
  | .binary op a b => do
      let a ← visit impl a
      let b ← visit impl b
      rewriteNode visit permits impl (.binary op a b) op.stages
  | .not a => do
      let a ← visit impl a
      rewriteNode visit permits impl (.not a) notStages
  | .select condition trueValue falseValue => do
      let ret ← visitSelect visit fresh fuel impl condition trueValue falseValue
      rewriteNode visit permits impl ret selectStages
  | _ => none

end Visit

section Run

variable (fresh : SubAnalyses) (permits : Impl → Firing → Bool)

def visitExpr : Nat → Visit
  | 0, _, _ => none
  | fuel + 1, impl, e => visitNode (visitExpr fuel) fresh fuel permits impl e

/-- The constraints of nested `ConstraintContext`s, outermost first. -/
def enterConstraints (fuel : Nat) : Impl → List PrimExpr → Option Impl
  | impl, [] => some impl
  | impl, constraint :: rest => do
      let entered ← enterConstraint (visitExpr fresh permits fuel) fresh fuel impl constraint
      enterConstraints fuel entered rest

/-- `Analyzer::CanProve`; `canonicalSimplify` is the second step of `Simplify`. -/
def canProve (canonicalSimplify : Impl → PrimExpr → Option PrimExpr) (fuel : Nat) (impl : Impl)
    (e : PrimExpr) : Option Bool :=
  match e with
  | .intImm value => some (value ≠ 0)
  | _ => do
      let simplified ← rewriteSimplify (visitExpr fresh permits fuel) impl e
      match simplified with
      | .intImm value => some (value ≠ 0)
      | _ => do
          let simplified ← canonicalSimplify impl simplified
          match simplified with
          | .intImm value => some (value ≠ 0)
          | _ => some false

end Run

end Tvm.Arith
