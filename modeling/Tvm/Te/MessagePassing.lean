import Mathlib
import Tvm.Arith.IntConstraints

/-!
# Message passing over the iteration variables of a stage

`PassDownDomain`, `PassUpIndex`, `PassUpBoundCheck` and `MakeBoundCheck` of `message_passing.cc`,
over mathematical integers, for stages without `Transform`.  An iteration variable is known by its
variable.  `none` is a failed check.  Casts between integer types, which keep the value, are left
out.
-/

namespace Tvm.Te

open Arith PrimExpr

/-- The `factor` or the `nparts` of a split, whichever is defined. -/
inductive SplitAmount where
  | factor (amount : PrimExpr)
  | nparts (amount : PrimExpr)
  deriving DecidableEq, Repr

inductive IterVarRelation where
  | split (parent outer inner : Var) (amount : SplitAmount)
  | fuse (outer inner fused : Var)
  | rebase (parent rebased : Var)
  | singleton (iter : Var)
  deriving DecidableEq, Repr

/-- A stage; `isOpaque` is `iter_type == kOpaque`, `bindThread` the attributes whose `bind_thread`
is defined and `dom` the `dom` of the root variables. -/
structure Stage where
  rootIterVars : List Var
  relations : List IterVarRelation
  allIterVars : List Var
  leafIterVars : List Var
  isOpaque : Var → Bool
  dom : Var → Option Range
  bindThread : List (Var × Var)

def isZero (e : PrimExpr) : Bool :=
  decide (e = .intImm 0)

def fromExtent (extent : PrimExpr) : Range :=
  ⟨.intImm 0, extent⟩

/-- The state of `PassDownDomain`: the ranges and what the analyzer has bound. -/
structure DomainState where
  state : Ranges
  bound : Ranges

variable (analyzer : Analyzer)

def update (current : DomainState) (iv : Var) (range : Range) : Option DomainState :=
  match current.state.lookup iv with
  | none => some ⟨(iv, range) :: current.state, (iv, range) :: current.bound⟩
  | some known =>
    if isZero known.min && analyzer.canProve current.bound
        (make .eq (make .sub range.extent known.extent) (.intImm 0)) then
      some current
    else none

def passUpThread (relation : IterVarRelation) (state : Var → Bool) : Var → Bool :=
  match relation with
  | .split parent outer inner _ => Function.update state parent (state inner || state outer)
  | .fuse outer inner fused =>
    Function.update (Function.update state inner (state fused)) outer (state fused)
  | .rebase parent rebased => Function.update state parent (state rebased)
  | .singleton _ => state

def passUpThreadBinding (stage : Stage) : Var → Bool :=
  stage.relations.foldr passUpThread fun iv =>
    decide (iv ∈ stage.leafIterVars) && (stage.bindThread.lookup iv).isSome

/-- `ceil_div` of `PassDownDomain`; the folding of a division by the literal zero fails. -/
def ceilDiv (bound : Ranges) (a b : PrimExpr) : Option PrimExpr := do
  let remainder ← makeBinary .floorMod a b
  if analyzer.canProve bound (make .eq remainder (.intImm 0)) then
    let quotient ← makeBinary .floorDiv a b
    return analyzer.simplify 2 bound quotient
  else
    let quotient ← makeBinary .floorDiv (make .add a (make .sub b (.intImm 1))) b
    return analyzer.simplify 2 bound quotient

def minimumOrLater (bound : Ranges) (a b : PrimExpr) : PrimExpr :=
  if analyzer.canProve bound (make .lt a b) then
    analyzer.simplify 2 bound a
  else
    analyzer.simplify 2 bound b

def resolveMinExtentForSplit (dominatingThread : Var → Bool) (allowMissing : Bool)
    (bound : Ranges) (parentExtent : PrimExpr) (iv : Var) (factorOrNparts : PrimExpr) : PrimExpr :=
  if dominatingThread iv || allowMissing || isZero parentExtent then factorOrNparts
  else minimumOrLater analyzer bound parentExtent factorOrNparts

def passDownRelation (dominatingThread : Var → Bool) (allowMissing : Bool)
    (current : DomainState) (relation : IterVarRelation) : Option DomainState :=
  match relation with
  | .split parent outer inner amount =>
    match current.state.lookup parent with
    | none => if allowMissing then some current else none
    | some rangeParent =>
      if (current.state.lookup inner).isSome then none
      else
        match amount with
        | .factor factor => do
          let next ← update analyzer current inner (fromExtent (resolveMinExtentForSplit analyzer
            dominatingThread allowMissing current.bound rangeParent.extent inner factor))
          let extent ← ceilDiv analyzer next.bound rangeParent.extent factor
          update analyzer next outer (fromExtent extent)
        | .nparts nparts => do
          let next ← update analyzer current outer (fromExtent (resolveMinExtentForSplit analyzer
            dominatingThread allowMissing current.bound rangeParent.extent outer nparts))
          let extent ← ceilDiv analyzer next.bound rangeParent.extent nparts
          update analyzer next inner (fromExtent extent)
  | .fuse outer inner fused =>
    match current.state.lookup outer, current.state.lookup inner with
    | some rangeOuter, some rangeInner =>
      some ⟨(fused, fromExtent (make .mul rangeOuter.extent rangeInner.extent)) :: current.state,
        current.bound⟩
    | _, _ => if allowMissing then some current else none
  | .rebase parent rebased =>
    match current.state.lookup parent with
    | none => if allowMissing then some current else none
    | some range => update analyzer current rebased (fromExtent range.extent)
  | .singleton iter => update analyzer current iter (fromExtent (.intImm 1))

def updateThread (current : DomainState) (entry : Var × Var) : Option DomainState := do
  let range ← current.state.lookup entry.1
  update analyzer current entry.2 range

/-- `PassDownDomain`, from the ranges of the state and what the analyzer has bound before. -/
def passDownDomain (stage : Stage) (start : DomainState) (allowMissing : Bool) :
    Option DomainState := do
  let derived ← stage.relations.foldlM
    (passDownRelation analyzer (passUpThreadBinding stage) allowMissing) start
  stage.bindThread.foldlM (updateThread analyzer) derived

def addMin (value min : PrimExpr) : PrimExpr :=
  if isZero min then value else make .add value min

def passUpRelation (domMap : Ranges) (allowMissing : Bool) (state : Var → Option PrimExpr)
    (relation : IterVarRelation) : Option (Var → Option PrimExpr) :=
  match relation with
  | .split parent outer inner _ =>
    match state outer, state inner with
    | some outerValue, some innerValue => do
      let rangeInner ← domMap.lookup inner
      let rangeParent ← domMap.lookup parent
      return Function.update state parent (some (addMin
        (make .add innerValue (make .mul outerValue rangeInner.extent)) rangeParent.min))
    | _, _ => if allowMissing then some state else none
  | .fuse outer inner fused =>
    match state fused with
    | none => if allowMissing then some state else none
    | some value => do
      let rangeInner ← domMap.lookup inner
      let rangeOuter ← domMap.lookup outer
      let quotient ← makeBinary .floorDiv value rangeInner.extent
      let remainder ← makeBinary .floorMod value rangeInner.extent
      return Function.update (Function.update state outer (some (addMin quotient rangeOuter.min)))
        inner (some (addMin remainder rangeInner.min))
  | .rebase parent rebased =>
    match state rebased with
    | none => if allowMissing then some state else none
    | some value => do
      let rangeParent ← domMap.lookup parent
      return Function.update state parent (some (addMin value rangeParent.min))
  | .singleton _ => some state

def passUpIndex (stage : Stage) (domMap : Ranges) (state : Var → Option PrimExpr)
    (allowMissing : Bool) : Option (Var → Option PrimExpr) :=
  stage.relations.reverse.foldlM (passUpRelation domMap allowMissing) state

/-- The state of the leaves before `PassUpIndex`: each is its variable. -/
def leafValues (stage : Stage) (iv : Var) : Option PrimExpr :=
  if iv ∈ stage.leafIterVars then some (.var iv) else none

def passUpCheck (domMap : Ranges) (bound : Ranges) (state : Var → Option Bool)
    (relation : IterVarRelation) : Option (Var → Option Bool) :=
  match relation with
  | .split parent outer inner _ => do
    let outerCheck ← state outer
    let innerCheck ← state inner
    match domMap.lookup inner, domMap.lookup outer with
    | some rangeInner, some rangeOuter =>
      if outerCheck || innerCheck then
        return Function.update state parent (some true)
      else
        let rangeParent ← domMap.lookup parent
        if analyzer.canProve bound (make .eq rangeParent.extent
            (make .mul rangeInner.extent rangeOuter.extent)) then
          return Function.update state parent (some false)
        else
          return Function.update state parent (some true)
    | _, _ => return Function.update state parent (some true)
  | .fuse outer inner fused => do
    let fusedCheck ← state fused
    return Function.update (Function.update state outer (some fusedCheck)) inner (some fusedCheck)
  | .rebase parent rebased => do
    let rebasedCheck ← state rebased
    return Function.update state parent (some rebasedCheck)
  | .singleton _ => some state

def passUpBoundCheck (stage : Stage) (domMap : Ranges) (bound : Ranges)
    (state : Var → Option Bool) : Option (Var → Option Bool) :=
  stage.relations.reverse.foldlM (passUpCheck analyzer domMap bound) state

/-- `IsRangeSame`; `sameAs` is the identity of the nodes. -/
def isRangeSame (sameAs : Range → Range → Bool) (first second : Range) : Bool :=
  sameAs first second || analyzer.canProve [] (make .eq first.min second.min) &&
    analyzer.canProve [] (make .eq first.extent second.extent)

/-- The predicate that a value is below an extent, unless the maximum of the value is proved to
be. -/
def upperCheck (domMap : Ranges) (value extent : PrimExpr) : List PrimExpr :=
  match (analyzer.evalSet domMap value).maxValue with
  | .expr vmax =>
    if analyzer.canProve domMap (make .lt vmax extent) then [] else [make .lt value extent]
  | _ => [make .lt value extent]

/-- The predicate that a value is not negative, unless its minimum is proved to be so. -/
def lowerCheck (domMap : Ranges) (value : PrimExpr) : List PrimExpr :=
  match (analyzer.evalSet domMap value).minValue with
  | .expr vmin =>
    if analyzer.canProve domMap (make .ge vmin (.intImm 0)) then []
    else [make .ge value (.intImm 0)]
  | _ => [make .ge value (.intImm 0)]

/-- The first loop of `MakeBoundCheck`. -/
def derivedCheck (stage : Stage) (domMap : Ranges) (valueMap : Var → Option PrimExpr)
    (boundState : Var → Option Bool) (skipIter : List Var) (iv : Var) : Option (List PrimExpr) :=
  if decide (iv ∈ skipIter) || stage.isOpaque iv then some []
  else do
    let check ← boundState iv
    if check then
      let dom ← domMap.lookup iv
      let value ← valueMap iv
      return upperCheck analyzer domMap (make .sub value dom.min) dom.extent
    else
      return []

/-- The second loop of `MakeBoundCheck`. -/
def rootCheck (sameAs : Range → Range → Bool) (stage : Stage) (domMap : Ranges)
    (valueMap : Var → Option PrimExpr) (skipIvarDomain : Bool) (skipIter : List Var) (iv : Var) :
    Option (List PrimExpr) :=
  if decide (iv ∈ skipIter) || stage.isOpaque iv then some []
  else do
    let dom ← domMap.lookup iv
    let ownDom ← stage.dom iv
    if !skipIvarDomain && !isRangeSame analyzer sameAs ownDom dom then
      let value ← valueMap iv
      let shifted := make .sub value ownDom.min
      return lowerCheck analyzer domMap shifted ++ upperCheck analyzer domMap shifted ownDom.extent
    else
      return []

def makeBoundCheck (sameAs : Range → Range → Bool) (stage : Stage) (domMap : Ranges)
    (valueMap : Var → Option PrimExpr) (skipIvarDomain : Bool) (skipIter : List Var) :
    Option (List PrimExpr) := do
  let boundState ← passUpBoundCheck analyzer stage domMap [] fun iv =>
    if iv ∈ stage.leafIterVars then some false else none
  let derived ← stage.allIterVars.mapM
    (derivedCheck analyzer stage domMap valueMap boundState skipIter)
  let roots ← stage.rootIterVars.mapM
    (rootCheck analyzer sameAs stage domMap valueMap skipIvarDomain skipIter)
  return derived.flatten ++ roots.flatten

end Tvm.Te
