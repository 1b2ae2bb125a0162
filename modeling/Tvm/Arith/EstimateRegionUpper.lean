import Mathlib
import Tvm.Arith.EstimateRegion
import Tvm.Arith.IntervalEvaluation

/-!
# The upper bound of a region

`EstimateRegionUpperBound` and `EvalSet` of a range of `int_set.cc`.  The interval evaluation leaves
no variable that is mapped.  The extent of a dimension is relaxed, but `EvalIterSum` is given the one
that is not.
-/

namespace Tvm.Arith

open PrimExpr Tvm.Lib

/-- The literals are in the class, and the nodes that the evaluator makes of what is in it. -/
structure NodeClosed (keep : PrimExpr → Prop) : Prop where
  intImm : ∀ n, keep (.intImm n)
  binary : ∀ op a b, keep a → keep b → keep (.binary op a b)
  select : ∀ condition trueValue falseValue, keep condition → keep trueValue → keep falseValue →
    keep (.select condition trueValue falseValue)
  cast : ∀ a, keep a → keep (.cast a)

def Limit.Within (keep : PrimExpr → Prop) : Limit → Prop
  | .expr e => keep e
  | _ => True

structure IntervalSet.Within (keep : PrimExpr → Prop) (set : IntervalSet) : Prop where
  min : set.minValue.Within keep
  max : set.maxValue.Within keep

section Combine

variable {keep : PrimExpr → Prop} {q : IntervalQueries} {a b : IntervalSet} {d e : PrimExpr}
  {op : BinOp}

theorem negInf_within : Limit.negInf.Within keep :=
  trivial

theorem posInf_within : Limit.posInf.Within keep :=
  trivial

theorem singlePoint_within (inside : keep e) : (IntervalSet.singlePoint e).Within keep :=
  ⟨inside, inside⟩

theorem everything_within : IntervalSet.everything.Within keep :=
  ⟨negInf_within, posInf_within⟩

theorem makeBinary_within (closed : NodeClosed keep) (left : keep d) (right : keep e) :
    Ensures keep (makeBinary op d e) := by
  intro r made
  rcases makeBinary_cases made with rfl | rfl | ⟨n, rfl⟩ | rfl
  · exact left
  · exact right
  · exact closed.intImm n
  · exact closed.binary op _ _ left right

theorem make_within (closed : NodeClosed keep) (left : keep d) (right : keep e) :
    keep (make op d e) := by
  rw [make]
  cases made : makeBinary op d e with
  | none => exact closed.binary op _ _ left right
  | some r => exact makeBinary_within closed left right r made

theorem neg_within (closed : NodeClosed keep) (inside : keep d) : Ensures keep d.neg := by
  rw [PrimExpr.neg.eq_def]
  split
  · exact .some (closed.intImm _)
  · exact makeBinary_within closed (closed.intImm 0) inside

theorem abs_within (closed : NodeClosed keep) (inside : keep d) : Ensures keep d.abs := by
  rw [PrimExpr.abs.eq_def]
  split
  · exact .some (closed.intImm _)
  · refine (makeBinary_within closed inside (closed.intImm 0)).bind fun sign signInside => ?_
    refine (neg_within closed inside).bind fun negated negatedInside => ?_
    exact .some (closed.select _ _ _ signInside inside negatedInside)

theorem Limit.min_within (closed : NodeClosed keep) {a b : Limit} (left : a.Within keep)
    (right : b.Within keep) : Ensures (Limit.Within keep) (a.min b) := by
  cases a with
  | negInf => cases b <;> exact .some trivial
  | posInf => cases b <;> exact .some right
  | expr x =>
    cases b with
    | negInf | posInf => exact .some ‹_›
    | expr y => exact (makeBinary_within closed left right).map fun _ inside => inside

theorem Limit.max_within (closed : NodeClosed keep) {a b : Limit} (left : a.Within keep)
    (right : b.Within keep) : Ensures (Limit.Within keep) (a.max b) := by
  cases a with
  | negInf => cases b <;> exact .some right
  | posInf => cases b <;> exact .some trivial
  | expr x =>
    cases b with
    | negInf | posInf => exact .some ‹_›
    | expr y => exact (makeBinary_within closed left right).map fun _ inside => inside

theorem limits_within {lower upper : Option Limit} (first : Ensures (Limit.Within keep) lower)
    (second : Ensures (Limit.Within keep) upper) : Ensures (IntervalSet.Within keep)
      (lower.bind fun minValue => upper.bind fun maxValue => some ⟨minValue, maxValue⟩) := by
  refine first.bind fun minValue minInside => ?_
  refine second.bind fun maxValue maxInside => ?_
  exact .some ⟨minInside, maxInside⟩

theorem union_within (closed : NodeClosed keep) (left : a.Within keep) (right : b.Within keep) :
    Ensures (IntervalSet.Within keep) (a.union b) := by
  rw [IntervalSet.union]
  refine .ite (fun _ => .some right) fun _ => .ite (fun _ => .some left) fun _ => ?_
  refine (Limit.max_within closed left.max right.max).bind fun maxValue maxInside => ?_
  refine (Limit.min_within closed left.min right.min).bind fun minValue minInside => ?_
  exact .some ⟨minInside, maxInside⟩

theorem lowerBound_within (inside : a.Within keep) : Ensures keep a.lowerBound := by
  intro e found
  have least := inside.min
  rw [IntervalSet.lowerBound] at found
  split at found
  · rename_i lower isLower
    rw [isLower] at least
    split at found
    · cases found
    · cases found
      exact least
  · cases found

theorem upperBound_within (inside : a.Within keep) : Ensures keep a.upperBound := by
  intro e found
  have greatest := inside.max
  rw [IntervalSet.upperBound] at found
  split at found
  · rename_i upper isUpper
    rw [isUpper] at greatest
    split at found
    · cases found
    · cases found
      exact greatest
  · cases found

theorem boundBy_within (closed : NodeClosed keep) {limit : Limit} (absent : limit.Within keep)
    {x y : Option PrimExpr} (left : Ensures keep x) (right : Ensures keep y) :
    Ensures (Limit.Within keep) (boundBy limit op x y) := by
  rw [boundBy.eq_def]
  split
  · rename_i first second
    exact (makeBinary_within closed (left first rfl) (right second rfl)).map fun _ inside => inside
  · exact .some absent

theorem combinePoints_within (closed : NodeClosed keep) (left : a.Within keep) (right : b.Within keep) :
    Ensures (IntervalSet.Within keep) (combinePoints op a b) := by
  have first := left.min
  have second := right.min
  rw [combinePoints.eq_def]
  split
  · rename_i x y isLeft isRight
    rw [isLeft] at first
    rw [isRight] at second
    exact (makeBinary_within closed first second).map fun _ => singlePoint_within
  · exact .none

theorem combineWith_within (closed : NodeClosed keep) (left : a.Within keep) (right : b.Within keep)
    {ranges : IntervalSet → IntervalSet → Option IntervalSet}
    (inside : Ensures (IntervalSet.Within keep) (ranges a b)) :
    Ensures (IntervalSet.Within keep) (combineWith q op ranges a b) := by
  refine Ensures.bindAny fun points => ?_
  refine .ite (fun _ => combinePoints_within closed left right) fun _ => ?_
  exact .ite (fun _ => .some left) fun _ => .ite (fun _ => .some right) fun _ => inside

theorem withPoint_within (inside : b.Within keep) {onPoint : PrimExpr → Option IntervalSet}
    (point : ∀ d, keep d → Ensures (IntervalSet.Within keep) (onPoint d)) :
    Ensures (IntervalSet.Within keep) (withPoint q b onPoint) := by
  refine Ensures.bindAny fun single => ?_
  refine .ite (fun _ => ?_) fun _ => .some everything_within
  have least := inside.min
  split
  · rename_i d isPoint
    rw [isPoint] at least
    exact point d least
  · exact .none

theorem scaleBySign_within (closed : NodeClosed keep) (inside : a.Within keep) (factor : keep d) :
    Ensures (IntervalSet.Within keep) (scaleBySign q op a d) := by
  have lower := lowerBound_within inside
  have upper := upperBound_within inside
  have scaled {x y : Option PrimExpr} (low : Ensures keep x) (high : Ensures keep y) :
      Ensures (IntervalSet.Within keep) ((boundBy .negInf op x (some d)).bind fun minValue =>
        (boundBy .posInf op y (some d)).bind fun maxValue => some ⟨minValue, maxValue⟩) :=
    limits_within (boundBy_within closed negInf_within low (.some factor))
      (boundBy_within closed posInf_within high (.some factor))
  refine Ensures.bindAny fun nonneg => .ite (fun _ => scaled lower upper) fun _ => ?_
  refine Ensures.bindAny fun negated => ?_
  refine Ensures.bindAny fun positive => .ite (fun _ => scaled upper lower) fun _ => ?_
  -- the sign is not known
  split
  · rename_i low high isLow isHigh
    refine (makeBinary_within closed factor (closed.intImm 0)).bind fun sign signInside => ?_
    refine (makeBinary_within closed (lower low isLow) factor).bind fun e1 first => ?_
    refine (makeBinary_within closed (upper high isHigh) factor).bind fun e2 second => ?_
    exact .some ⟨closed.select _ _ _ signInside first second,
      closed.select _ _ _ signInside second first⟩
  · exact .some everything_within

theorem mulByPoint_within (closed : NodeClosed keep) (left : a.Within keep) (right : b.Within keep) :
    Ensures (IntervalSet.Within keep) (mulByPoint q a b) := by
  refine withPoint_within right fun d inside => ?_
  exact .ite (fun _ => .some right) fun _ => .ite (fun _ => .some left) fun _ =>
    scaleBySign_within closed left inside

theorem combineQuotient_within (closed : NodeClosed keep) (left : a.Within keep)
    (right : b.Within keep) : Ensures (IntervalSet.Within keep) (combineQuotient q op a b) := by
  refine combineWith_within closed left right ?_
  refine withPoint_within right fun d inside => ?_
  exact .ite (fun _ => .none) fun _ => .ite (fun _ => .some left) fun _ =>
    scaleBySign_within closed left inside

theorem belowDivisor_within (closed : NodeClosed keep) (inside : keep d) :
    Ensures (IntervalSet.Within keep) (belowDivisor d) :=
  (makeBinary_within closed inside (closed.intImm 1)).map fun _ upper => ⟨closed.intImm 0, upper⟩

theorem withinDivisor_within (closed : NodeClosed keep) (inside : keep d) :
    Ensures (IntervalSet.Within keep) (withinDivisor d) := by
  refine (abs_within closed inside).bind fun magnitude magnitudeInside => ?_
  refine (makeBinary_within closed magnitudeInside (closed.intImm 1)).bind fun bound boundInside => ?_
  refine (neg_within closed boundInside).bind fun lower lowerInside => ?_
  exact .some ⟨lowerInside, boundInside⟩

theorem residueBound_within (closed : NodeClosed keep) (divisor : keep d) (quotient : keep e)
    {limit : Limit} (inside : limit.Within keep) :
    Ensures (Limit.Within keep) (residueBound d e limit) := by
  cases limit with
  | negInf | posInf => exact .none
  | expr bound =>
    refine (makeBinary_within closed divisor quotient).bind fun multiple multipleInside => ?_
    exact (makeBinary_within closed inside multipleInside).map fun _ inside => inside

theorem sameQuotient_within (closed : NodeClosed keep) (inside : a.Within keep) (divisor : keep d) :
    Ensures (fun residues => ∀ set, residues = some set → set.Within keep) (sameQuotient q a d) := by
  have quotient {limit : Limit} (absent : limit.Within keep) {x : Option PrimExpr}
      (bound : Ensures keep x) : Ensures (Limit.Within keep) (boundBy limit .floorDiv x (some d)) :=
    boundBy_within closed absent bound (.some divisor)
  refine (quotient posInf_within (upperBound_within inside)).bind fun qmax upper => ?_
  refine (quotient negInf_within (lowerBound_within inside)).bind fun qmin lower => ?_
  have absent : ∀ set : IntervalSet, none = some set → set.Within keep :=
    fun set none => by cases none
  cases qmax with
  | negInf | posInf => exact .some absent
  | expr high =>
    cases qmin with
    | negInf | posInf => exact .some absent
    | expr low =>
      refine Ensures.bindAny fun equal => ?_
      refine Ensures.bindAny fun proved => ?_
      refine .ite (fun _ => ?_) fun _ => .some absent
      refine (residueBound_within closed divisor lower inside.max).bind fun tmax maxInside => ?_
      refine (residueBound_within closed divisor lower inside.min).bind fun tmin minInside => ?_
      refine .some fun set isSet => ?_
      cases isSet
      exact ⟨minInside, maxInside⟩

theorem combineFloorMod_within (closed : NodeClosed keep) (left : a.Within keep)
    (right : b.Within keep) : Ensures (IntervalSet.Within keep) (combineFloorMod q a b) := by
  refine combineWith_within closed left right ?_
  refine withPoint_within right fun divisor inside => ?_
  refine .ite (fun _ => .none) fun _ => Ensures.bindAny fun nonneg =>
    .ite (fun _ => ?_) fun _ => withinDivisor_within closed inside
  split
  · refine (sameQuotient_within closed left inside).bind fun residues residuesInside => ?_
    split
    · exact .some (residuesInside _ rfl)
    · exact belowDivisor_within closed inside
  · exact belowDivisor_within closed inside

theorem combineLogical_within (closed : NodeClosed keep) (left : a.Within keep) (right : b.Within keep) :
    Ensures (IntervalSet.Within keep) (combineLogical q op a b) := by
  refine Ensures.bindAny fun points => ?_
  exact .ite (fun _ => combinePoints_within closed left right) fun _ =>
    .some ⟨closed.intImm 0, closed.intImm 1⟩

theorem combine_within (closed : NodeClosed keep) (op : BinOp) (left : a.Within keep)
    (right : b.Within keep) : Ensures (IntervalSet.Within keep) (combine q op a b) := by
  have lower := lowerBound_within left
  have upper := upperBound_within left
  have lower' := lowerBound_within right
  have upper' := upperBound_within right
  cases op with
  | add =>
    change Ensures _ (combineAdd q a b)
    refine combineWith_within closed left right ?_
    exact limits_within (boundBy_within closed negInf_within lower lower')
      (boundBy_within closed posInf_within upper upper')
  | sub =>
    change Ensures _ (combineSub q a b)
    refine combineWith_within closed left right ?_
    exact limits_within (boundBy_within closed negInf_within lower upper')
      (boundBy_within closed posInf_within upper lower')
  | mul =>
    change Ensures _ (combineMul q a b)
    refine combineWith_within closed left right ?_
    exact Ensures.bindAny fun point => .ite (fun _ => mulByPoint_within closed right left)
      fun _ => mulByPoint_within closed left right
  | div | floorDiv => exact combineQuotient_within closed left right
  | mod =>
    change Ensures _ (combineMod q a b)
    refine combineWith_within closed left right ?_
    refine withPoint_within right fun divisor inside => .ite (fun _ => .none) fun _ => ?_
    exact Ensures.bindAny fun nonneg => .ite (fun _ => belowDivisor_within closed inside)
      fun _ => withinDivisor_within closed inside
  | floorMod => exact combineFloorMod_within closed left right
  | max =>
    change Ensures _ (combineMax q a b)
    refine combineWith_within closed left right ?_
    exact limits_within (Limit.max_within closed left.min right.min)
      (Limit.max_within closed left.max right.max)
  | min =>
    change Ensures _ (combineMin q a b)
    refine combineWith_within closed left right ?_
    exact limits_within (Limit.min_within closed left.min right.min)
      (Limit.min_within closed left.max right.max)
  | shiftLeft | shiftRight | bitwiseAnd => exact .some everything_within
  | eq | ne | lt | le | gt | ge | and | or => exact combineLogical_within closed left right

end Combine

section Evaluator

variable {keep : PrimExpr → Prop} {q : IntervalQueries} {domMap : DomMap} {loads : Nat → Bool}

theorem castSet_within (closed : NodeClosed keep) {set : IntervalSet} (inside : set.Within keep) :
    (castSet set).Within keep := by
  have bound (limit : Limit) (absent : limit.Within keep) {e : Option PrimExpr}
      (found : Ensures keep e) : (castBound limit e).Within keep := by
    rw [castBound.eq_def]
    split
    · exact closed.intImm _
    · exact closed.cast _ (found _ rfl)
    · exact absent
  exact ⟨bound .negInf trivial (lowerBound_within inside),
    bound .posInf trivial (upperBound_within inside)⟩

/-- The class has the variables that are not mapped, the sets of those that are, and the loads. -/
structure Mapped (keep : PrimExpr → Prop) (domMap : DomMap) (loads : Nat → Bool) : Prop where
  unmapped : ∀ v, domMap.find v = none → keep (.var v)
  mapped : ∀ v set, domMap.find v = some set → set.Within keep
  loaded : ∀ node, loads node = true → keep (.other node)

theorem visitSet_within (closed : NodeClosed keep) (identity : ∀ a b, q.sameAs a b = true → a = b)
    (mapped : Mapped keep domMap loads) {relax : IntervalSet → Option IntervalSet}
    (relaxes : ∀ s, s.Within keep → Ensures (IntervalSet.Within keep) (relax s)) (e : PrimExpr) :
    Ensures (IntervalSet.Within keep) (visitSet q domMap loads relax e) := by
  induction e with
  | var v =>
    rw [visitSet]
    split
    · rename_i absent
      exact .some (singlePoint_within (mapped.unmapped v absent))
    · rename_i set found
      have inside := mapped.mapped v set found
      exact .ite (fun _ => .some inside) fun _ => relaxes set inside
  | intImm n => exact .some (singlePoint_within (closed.intImm n))
  | binary op a b left right =>
    rw [visitSet]
    refine .ite (fun _ => .some everything_within) fun _ => left.bind fun aSet aInside =>
      right.bind fun bSet bInside => .ite (fun matched => ?_) fun _ =>
        combine_within closed op aInside bInside
    -- the operands are the bounds of their sets
    obtain ⟨matchedA, matchedB⟩ := (Bool.and_eq_true _ _).mp matched
    rw [matchPoint_value identity matchedA] at aInside
    rw [matchPoint_value identity matchedB] at bInside
    exact .some (singlePoint_within (closed.binary op a b aInside.min bInside.min))
  | select condition trueValue falseValue _ whenTrue whenFalse =>
    refine whenTrue.bind fun trueSet trueInside => ?_
    refine whenFalse.bind fun falseSet falseInside => ?_
    exact union_within closed falseInside trueInside
  | cast value operand => exact operand.map fun _ => castSet_within closed
  | other node =>
    rw [visitSet]
    refine .some ?_
    split
    · exact singlePoint_within (mapped.loaded node ‹_›)
    · exact everything_within
  | not a => exact .some everything_within
  | letIn v value body => exact .some everything_within

theorem relax_within (closed : NodeClosed keep) (identity : ∀ a b, q.sameAs a b = true → a = b)
    (mapped : Mapped keep domMap loads) (depth : Nat) :
    (∀ s, s.Within keep → Ensures (IntervalSet.Within keep) (relax q domMap loads depth s)) ∧
      ∀ s, Ensures (IntervalSet.Within keep) (relax q domMap loads (depth + 1) s) := by
  have next (depth : Nat) (relaxes : ∀ s, s.Within keep →
      Ensures (IntervalSet.Within keep) (relax q domMap loads depth s)) (s : IntervalSet) :
      Ensures (IntervalSet.Within keep) (relax q domMap loads (depth + 1) s) := by
    have visits (limit : Limit) : Ensures (IntervalSet.Within keep)
        (visitLimit q domMap loads (relax q domMap loads depth) limit) := by
      cases limit with
      | negInf | posInf => exact .some ⟨trivial, trivial⟩
      | expr e => exact visitSet_within closed identity mapped relaxes e
    refine (visits s.minValue).bind fun minSet minInside => ?_
    refine (visits s.maxValue).bind fun maxSet maxInside => ?_
    exact .some ⟨minInside.min, maxInside.max⟩
  have all : ∀ s, s.Within keep →
      Ensures (IntervalSet.Within keep) (relax q domMap loads depth s) := by
    induction depth with
    | zero => exact fun s inside => .some inside
    | succ depth ih => exact fun s _ => next depth ih s
  exact ⟨all, next depth all⟩

theorem evalScalar_within (closed : NodeClosed keep) (identity : ∀ a b, q.sameAs a b = true → a = b)
    (mapped : Mapped keep domMap loads) (e : PrimExpr) :
    Ensures (IntervalSet.Within keep) (evalScalar q domMap loads e) :=
  visitSet_within closed identity mapped (relax_within closed identity mapped domMap.length).1 e

end Evaluator

def fromRange (range : Range) : IntervalSet :=
  if range.extent = .intImm 1 then .singlePoint range.min
  else ⟨.expr range.min, .expr (make .sub (make .add range.extent range.min) (.intImm 1))⟩

def asIntSet (varDom : Ranges) : DomMap :=
  varDom.map fun entry => (entry.1, fromRange entry.2)

/-- The analyzers that `EvalSet` creates; `nodeVars` are the variables in a node that is not looked
into, `integerLoad` tells the loads from integer buffers. -/
structure UpperAnalyzer extends RegionAnalyzer where
  simplify : PrimExpr → PrimExpr
  queries : IntervalQueries
  integerLoad : Nat → Bool
  nodeVars : Nat → List Var

section Model

variable (analyzer : UpperAnalyzer)

def UpperAnalyzer.loads (domMap : DomMap) (node : Nat) : Bool :=
  analyzer.integerLoad node && (analyzer.nodeVars node).all fun v => (domMap.find v).isNone

/-- `r->min + r->extent - 1`. -/
def lastIndex (range : Range) : PrimExpr :=
  make .sub (make .add range.min range.extent) (.intImm 1)

def evalSetRange (domMap : DomMap) (range : Range) : Option IntervalSet := do
  if ← analyzer.queries.canProveEqual range.extent (.intImm 1) then
    evalScalar analyzer.queries domMap (analyzer.loads domMap) range.min
  else
    relax analyzer.queries domMap (analyzer.loads domMap) domMap.length
      ⟨.expr range.min, .expr (analyzer.simplify (lastIndex range))⟩

/-- The maximum of an extent that is no number; it is checked to have one. -/
def relaxedExtent (domMap : DomMap) (extent : PrimExpr) : Option PrimExpr :=
  if isConstNumber extent then some extent
  else do
    let relaxed ← evalScalar analyzer.queries domMap (analyzer.loads domMap) extent
    relaxed.upperBound

/-- The body of the loop over the dimensions.  The relaxed extent is not used. -/
def estimateDimension (varDom : Ranges) (predicate : PrimExpr) (range : Range) :
    Option IntervalSet :=
  match analyzer.detectIterMap [range.min] varDom predicate with
  | [] => evalSetRange analyzer (asIntSet varDom) range
  | [sumExpr] => do
    let _extent ← relaxedExtent analyzer (asIntSet varDom) range.extent
    match ← evalIterSum analyzer.toRegionAnalyzer sumExpr range.extent with
    | some set => some set
    | none => evalSetRange analyzer (asIntSet varDom) range
  | _ => none

def estimateRegionUpperBound (region : List Range) (varDom : Ranges) (predicate : PrimExpr) :
    Option (List IntervalSet) := do
  match ← estimateRegionStrictBound analyzer.toRegionAnalyzer region varDom predicate with
  | some result => some result
  | none => region.mapM (estimateDimension analyzer varDom predicate)

/-- `EvalIterSum` takes what is found for the minimum alone. -/
def takesIterSum (varDom : Ranges) (predicate : PrimExpr) (range : Range) : Bool :=
  match analyzer.detectIterMap [range.min] varDom predicate with
  | [sumExpr] =>
    match sumExpr.args with
    | [] => true
    | [split] => analyzer.proves (make .ge range.extent (.intImm split.scale))
    | _ => false
  | _ => false

end Model

/-- The variables of an expression with those of the nodes that are not looked into. -/
def PrimExpr.usedVars (nodeVars : Nat → List Var) : PrimExpr → List Var
  | .var v => [v]
  | .intImm _ => []
  | .binary _ a b => usedVars nodeVars a ++ usedVars nodeVars b
  | .not a | .cast a => usedVars nodeVars a
  | .select condition trueValue falseValue =>
    usedVars nodeVars condition ++ usedVars nodeVars trueValue ++ usedVars nodeVars falseValue
  | .letIn v value body => v :: usedVars nodeVars value ++ usedVars nodeVars body
  | .other node => nodeVars node

def PrimExpr.FreeOf (nodeVars : Nat → List Var) (varDom : Ranges) (e : PrimExpr) : Prop :=
  ∀ v ∈ e.usedVars nodeVars, varDom.lookup v = none

abbrev IntervalSet.FreeOf (nodeVars : Nat → List Var) (varDom : Ranges) (set : IntervalSet) : Prop :=
  set.Within (PrimExpr.FreeOf nodeVars varDom)

def ReadsVars (interp : Nat → Env → Option Int) (nodeVars : Nat → List Var) : Prop :=
  ∀ node env env', (∀ v ∈ nodeVars node, env v = env' v) → interp node env = interp node env'

section Variables

variable {interp : Nat → Env → Option Int} {nodeVars : Nat → List Var} {varDom : Ranges}
  {predicate : PrimExpr} {env env' : Env} {e a b : PrimExpr} {set : IntervalSet}

theorem eval_usedVars (reads : ReadsVars interp nodeVars)
    (agree : ∀ v ∈ e.usedVars nodeVars, env v = env' v) :
    e.eval interp env = e.eval interp env' := by
  induction e generalizing env env' with
  | var v => exact congrArg some (agree v (List.mem_singleton_self v))
  | intImm n => rfl
  | binary op a b left right =>
    rw [PrimExpr.eval, PrimExpr.eval, left fun v member => agree v (List.mem_append_left _ member),
      right fun v member => agree v (List.mem_append_right _ member)]
  | not a operand => rw [PrimExpr.eval, PrimExpr.eval, operand agree]
  | cast a operand => exact operand agree
  | select condition trueValue falseValue chosen whenTrue whenFalse =>
    rw [PrimExpr.eval, PrimExpr.eval,
      chosen fun v member => agree v (List.mem_append_left _ (List.mem_append_left _ member)),
      whenTrue fun v member => agree v (List.mem_append_left _ (List.mem_append_right _ member)),
      whenFalse fun v member => agree v (List.mem_append_right _ member)]
  | letIn x value body bound inside =>
    have outer : value.eval interp env = value.eval interp env' := bound fun v member =>
      agree v (List.mem_append_left _ (List.mem_cons_of_mem _ member))
    have inner (n : Int) : body.eval interp (Function.update env x n) =
        body.eval interp (Function.update env' x n) := by
      apply inside
      intro v member
      by_cases same : v = x
      · rw [same, Function.update_self, Function.update_self]
      · rw [Function.update_of_ne same, Function.update_of_ne same]
        exact agree v (List.mem_append_right _ member)
    rw [PrimExpr.eval, PrimExpr.eval, outer]
    simp only [inner]
  | other node => exact reads node env env' agree

theorem freeOf_binary {op : BinOp} : (PrimExpr.binary op a b).FreeOf nodeVars varDom ↔
    a.FreeOf nodeVars varDom ∧ b.FreeOf nodeVars varDom :=
  List.forall_mem_append

theorem freeOf_intImm (n : Int) : (PrimExpr.intImm n).FreeOf nodeVars varDom :=
  fun v member => by cases member

theorem freeOf_nodeClosed : NodeClosed (PrimExpr.FreeOf nodeVars varDom) where
  intImm := freeOf_intImm
  binary _ _ _ left right := freeOf_binary.mpr ⟨left, right⟩
  select _ _ _ chosen whenTrue whenFalse :=
    List.forall_mem_append.mpr ⟨List.forall_mem_append.mpr ⟨chosen, whenTrue⟩, whenFalse⟩
  cast _ inside := inside

theorem freeOf_make {op : BinOp} (linear : op = .add ∨ op = .sub) :
    (make op a b).FreeOf nodeVars varDom ↔
      a.FreeOf nodeVars varDom ∧ b.FreeOf nodeVars varDom := by
  refine ⟨fun inside => ?_, fun both => make_within freeOf_nodeClosed both.1 both.2⟩
  rw [make] at inside
  cases made : makeBinary op a b with
  | none =>
    rw [made] at inside
    exact freeOf_binary.mp inside
  | some r =>
    rw [made, Option.getD_some] at inside
    rw [makeBinary, Option.map_eq_some_iff] at made
    obtain ⟨folded, foldedIs, rfl⟩ := made
    cases folded with
    | none => exact freeOf_binary.mp inside
    | some found =>
      rw [Option.getD_some] at inside
      rw [tryConstFold.eq_def] at foldedIs
      split at foldedIs
      · exact ⟨freeOf_intImm _, freeOf_intImm _⟩
      · rcases linear with rfl | rfl <;> simp_all [foldLeft, freeOf_intImm]
      · rcases linear with rfl | rfl <;> simp_all [foldRight, freeOf_intImm]
      · rcases linear with rfl | rfl <;> simp at foldedIs

theorem FreeOf.eval_eq (reads : ReadsVars interp nodeVars) (free : e.FreeOf nodeVars varDom)
    (assigns : Assigns interp varDom predicate env env') :
    e.eval interp env' = e.eval interp env :=
  eval_usedVars reads fun v member => assigns.others v (free v member)

theorem FreeOf.contains (reads : ReadsVars interp nodeVars) (free : set.FreeOf nodeVars varDom)
    (assigns : Assigns interp varDom predicate env env') {x : Int}
    (inside : set.Contains interp env' x) : set.Contains interp env x := by
  obtain ⟨lower, upper⟩ := set
  obtain ⟨below, above⟩ := inside
  constructor
  · cases lower with
    | negInf => trivial
    | posInf => exact below.elim
    | expr e =>
      obtain ⟨m, value, le⟩ := below
      exact ⟨m, (FreeOf.eval_eq reads free.min assigns).symm.trans value, le⟩
  · cases upper with
    | negInf => exact above.elim
    | posInf => trivial
    | expr e =>
      obtain ⟨m, value, le⟩ := above
      exact ⟨m, (FreeOf.eval_eq reads free.max assigns).symm.trans value, le⟩

end Variables

def Ranges.Constant (varDom : Ranges) : Prop :=
  ∀ v range, varDom.lookup v = some range → ∃ low n, range = ⟨.intImm low, .intImm n⟩

section Assumptions

variable (interp : Nat → Env → Option Int) (analyzer : UpperAnalyzer) (varDom : Ranges)
  (predicate : PrimExpr) (env : Env)

/-- What `DetectIterMap` finds is the index in every assignment, without the loop variables. -/
structure Detects (indices : List PrimExpr) (sums : List IterSumExpr) : Prop where
  covers : ∀ env', Assigns interp varDom predicate env env' →
    ∀ (i : Nat) (index : PrimExpr) (sum : IterSumExpr), indices[i]? = some index → sums[i]? = some sum →
      ∃ v, index.eval interp env' = some v ∧ sum.Reaches interp env v
  free : ∀ sum ∈ sums, sum.base.FreeOf analyzer.nodeVars varDom ∧
    ∀ split ∈ sum.args, split.extent.FreeOf analyzer.nodeVars varDom

/-- The interval evaluation contains the value of the expression in every assignment. -/
def OverApproximates (e : PrimExpr) : Prop :=
  ∀ env' depth set v, Assigns interp varDom predicate env env' → e.eval interp env' = some v →
    visitSet analyzer.queries (asIntSet varDom) (analyzer.loads (asIntSet varDom))
      (relax analyzer.queries (asIntSet varDom) (analyzer.loads (asIntSet varDom)) depth) e = some set →
    set.Contains interp env' v

structure SoundFor (region : List Range) : Prop where
  identity : ∀ a b, analyzer.queries.sameAs a b = true → a = b
  queries : ∀ env', Assigns interp varDom predicate env env' → analyzer.queries.Sound interp env'
  joint : Detects interp analyzer varDom predicate env (region.map Range.min)
    (analyzer.detectIterMap (region.map Range.min) varDom predicate)
  single : ∀ range ∈ region, Detects interp analyzer varDom predicate env [range.min]
    (analyzer.detectIterMap [range.min] varDom predicate)
  simplifies : ∀ range ∈ region, ∀ env' v, Assigns interp varDom predicate env env' →
    (lastIndex range).eval interp env' = some v →
      (analyzer.simplify (lastIndex range)).eval interp env' = some v
  evaluates : ∀ range ∈ region, OverApproximates interp analyzer varDom predicate env range.min ∧
    OverApproximates interp analyzer varDom predicate env (analyzer.simplify (lastIndex range))

end Assumptions

/-- The interval mentions no loop variable and has every index that the range touches in an
assignment. -/
structure Range.Covered (interp : Nat → Env → Option Int) (nodeVars : Nat → List Var)
    (varDom : Ranges) (predicate : PrimExpr) (env : Env) (range : Range) (set : IntervalSet) :
    Prop where
  free : set.FreeOf nodeVars varDom
  contains : ∀ env', Assigns interp varDom predicate env env' →
    ∀ x, range.Touches interp env' x → set.Contains interp env x

section Dimension

variable {interp : Nat → Env → Option Int} {analyzer : UpperAnalyzer} {varDom : Ranges}
  {predicate : PrimExpr} {env env' : Env} {region : List Range} {range : Range}
  {set : IntervalSet} {sum : IterSumExpr} {extent : PrimExpr}

theorem asIntSet_find (varDom : Ranges) (v : Var) :
    (asIntSet varDom).find v = (varDom.lookup v).map fromRange := by
  rw [DomMap.find]
  induction varDom with
  | nil => rfl
  | cons entry rest ih =>
    obtain ⟨w, range⟩ := entry
    rw [asIntSet, List.map_cons, List.lookup_cons, List.lookup_cons]
    cases v == w with
    | true => rfl
    | false => exact ih

theorem fromRange_constant (low n : Int) : ∃ last : Int,
    fromRange ⟨.intImm low, .intImm n⟩ = ⟨.expr (.intImm low), .expr (.intImm last)⟩ ∧
      last = n + low - 1 := by
  rw [fromRange]
  split
  · rename_i one
    cases one
    exact ⟨low, rfl, by omega⟩
  · exact ⟨n + low - 1, rfl, rfl⟩

theorem asIntSet_mapped (constant : varDom.Constant) :
    Mapped (PrimExpr.FreeOf analyzer.nodeVars varDom) (asIntSet varDom)
      (analyzer.loads (asIntSet varDom)) where
  unmapped v absent := by
    rw [asIntSet_find, Option.map_eq_none_iff] at absent
    intro w member
    rwa [List.mem_singleton.mp member]
  mapped v set found := by
    rw [asIntSet_find] at found
    obtain ⟨range, isRange, rfl⟩ := Option.map_eq_some_iff.mp found
    obtain ⟨low, n, rfl⟩ := constant v range isRange
    obtain ⟨last, is, -⟩ := fromRange_constant low n
    rw [is]
    exact ⟨freeOf_intImm low, freeOf_intImm last⟩
  loaded node load := by
    intro v member
    have unmapped := List.all_eq_true.mp ((Bool.and_eq_true _ _).mp load).2 v member
    rwa [asIntSet_find, Option.isNone_map, Option.isNone_iff_eq_none] at unmapped

theorem asIntSet_holds (constant : varDom.Constant)
    (assigns : Assigns interp varDom predicate env env') : (asIntSet varDom).HoldsAt interp env' := by
  intro v set found
  rw [asIntSet_find] at found
  obtain ⟨range, isRange, rfl⟩ := Option.map_eq_some_iff.mp found
  obtain ⟨low, n, rfl⟩ := constant v range isRange
  obtain ⟨low', n', isLow, isExtent, lower, upper⟩ := assigns.ranges v _ isRange
  cases isLow
  cases isExtent
  obtain ⟨last, is, isLast⟩ := fromRange_constant low n
  rw [is]
  exact ⟨⟨⟨low, rfl, lower⟩, last, rfl, by omega⟩, trivial, trivial⟩

theorem overApproximates_of_proper (constant : varDom.Constant)
    (sound : ∀ env', Assigns interp varDom predicate env env' → analyzer.queries.Sound interp env')
    {e : PrimExpr} (proper : ∀ env', Assigns interp varDom predicate env env' → e.Proper interp env') :
    OverApproximates interp analyzer varDom predicate env e := by
  intro env' depth set v assigns value run
  have holds := asIntSet_holds constant assigns
  exact visitSet_contains (sound env' assigns) holds (relax_contains (sound env' assigns) holds depth)
    (proper env' assigns) value run

theorem evalSetRange_free (constant : varDom.Constant)
    (identity : ∀ a b, analyzer.queries.sameAs a b = true → a = b) (range : Range) :
    Ensures (IntervalSet.FreeOf analyzer.nodeVars varDom)
      (evalSetRange analyzer (asIntSet varDom) range) := by
  have mapped : Mapped (PrimExpr.FreeOf analyzer.nodeVars varDom) (asIntSet varDom)
      (analyzer.loads (asIntSet varDom)) := asIntSet_mapped constant
  refine Ensures.bindAny fun one => .ite (fun _ => ?_) fun _ => ?_
  · exact evalScalar_within freeOf_nodeClosed identity mapped range.min
  · cases size : (asIntSet varDom).length with
    | zero =>
      -- no variable is mapped
      have empty : varDom = [] := List.length_eq_zero_iff.mp (by
        rwa [asIntSet, List.length_map] at size)
      subst empty
      exact .some ⟨fun _ _ => rfl, fun _ _ => rfl⟩
    | succ depth => exact (relax_within freeOf_nodeClosed identity mapped depth).2 _

theorem evalSetRange_contains (sound : SoundFor interp analyzer varDom predicate env region)
    (member : range ∈ region) (run : evalSetRange analyzer (asIntSet varDom) range = some set)
    (assigns : Assigns interp varDom predicate env env') {x : Int}
    (touches : range.Touches interp env' x) : set.Contains interp env' x := by
  obtain ⟨low, n, isLow, isExtent, lower, upper⟩ := touches
  have ⟨evaluatesMin, evaluatesLast⟩ := sound.evaluates range member
  obtain ⟨one, isOne, run⟩ := Option.bind_eq_some_iff.mp run
  split at run
  · rename_i proved
    subst proved
    have single : n = 1 := canProveEqual_sound (sound.queries env' assigns) isOne isExtent rfl
    have isMin : low = x := by omega
    rw [← isMin]
    exact evaluatesMin env' _ set low assigns isLow run
  · have isSum : (make .add range.min range.extent).eval interp env' = some (low + n) :=
      eval_make isLow isExtent (admits_int rfl _ _) rfl
    have isLast : (lastIndex range).eval interp env' = some (low + n - 1) :=
      eval_make isSum rfl (admits_int rfl _ _) rfl
    have simplified := sound.simplifies range member env' _ assigns isLast
    cases size : (asIntSet varDom).length with
    | zero =>
      rw [size] at run
      cases run
      exact ⟨⟨low, isLow, lower⟩, _, simplified, by omega⟩
    | succ depth =>
      rw [size] at run
      obtain ⟨minSet, minRun, run⟩ := Option.bind_eq_some_iff.mp run
      obtain ⟨maxSet, maxRun, run⟩ := Option.bind_eq_some_iff.mp run
      cases run
      have inMin := evaluatesMin env' depth minSet low assigns isLow minRun
      have inMax := evaluatesLast env' depth maxSet _ assigns simplified maxRun
      exact ⟨inMin.below.trans lower, inMax.above.trans (by omega)⟩

theorem fromMinExtent_free {min : PrimExpr} (free : min.FreeOf analyzer.nodeVars varDom) :
    (fromMinExtent min extent).FreeOf analyzer.nodeVars varDom ↔
      extent.FreeOf analyzer.nodeVars varDom := by
  rw [fromMinExtent]
  split
  · rename_i one
    subst one
    exact iff_of_true (singlePoint_within free) (freeOf_intImm 1)
  · constructor
    · intro inside
      have total := ((freeOf_make (.inr rfl)).mp inside.max).1
      exact ((freeOf_make (.inl rfl)).mp total).1
    · intro inside
      refine ⟨free, (freeOf_make (.inr rfl)).mpr ⟨?_, freeOf_intImm 1⟩⟩
      exact (freeOf_make (.inl rfl)).mpr ⟨inside, free⟩

theorem evalIterSum_free (base : sum.base.FreeOf analyzer.nodeVars varDom)
    (counts : ∀ split ∈ sum.args, split.extent.FreeOf analyzer.nodeVars varDom)
    (made : evalIterSum analyzer.toRegionAnalyzer sum extent = some (some set)) :
    set.FreeOf analyzer.nodeVars varDom ↔ extent.FreeOf analyzer.nodeVars varDom := by
  cases args : sum.args with
  | nil =>
    rw [evalIterSum, args] at made
    cases made
    exact fromMinExtent_free base
  | cons split others =>
    cases others with
    | nil =>
      have count := counts split (args ▸ List.mem_singleton_self split)
      have less : (make .sub split.extent (.intImm 1)).FreeOf analyzer.nodeVars varDom :=
        (freeOf_make (.inr rfl)).mpr ⟨count, freeOf_intImm 1⟩
      have varExtent : (make .mul (make .sub split.extent (.intImm 1)) (.intImm split.scale)).FreeOf
          analyzer.nodeVars varDom := make_within freeOf_nodeClosed less (freeOf_intImm _)
      rw [evalIterSum_eq args] at made
      split at made
      · split at made
        · cases made
          rw [fromMinExtent_free ((freeOf_make (.inl rfl)).mpr ⟨base, varExtent⟩),
            freeOf_make (.inr rfl), and_iff_left varExtent]
        · cases made
          rw [fromMinExtent_free base, freeOf_make (.inl rfl), and_iff_left varExtent]
      · cases made
    | cons =>
      rw [evalIterSum, args] at made
      cases made

theorem evalIterSum_covered (reads : ReadsVars interp analyzer.nodeVars)
    (base : sum.base.FreeOf analyzer.nodeVars varDom)
    (counts : ∀ split ∈ sum.args, split.extent.FreeOf analyzer.nodeVars varDom)
    (reaches : ∀ env', Assigns interp varDom predicate env env' →
      ∃ v, range.min.eval interp env' = some v ∧ sum.Reaches interp env v)
    (free : range.extent.FreeOf analyzer.nodeVars varDom)
    (made : evalIterSum analyzer.toRegionAnalyzer sum range.extent = some (some set)) :
    range.Covered interp analyzer.nodeVars varDom predicate env set := by
  refine ⟨(evalIterSum_free base counts made).mpr free, ?_⟩
  rintro env' assigns x ⟨low, n, isLow, isExtent, lower, upper⟩
  obtain ⟨v, isIndex, reached⟩ := reaches env' assigns
  cases isLow.symm.trans isIndex
  rw [FreeOf.eval_eq reads free assigns] at isExtent
  exact evalIterSum_covers reached isExtent made lower upper

theorem evalSetRange_covered (constant : varDom.Constant) (reads : ReadsVars interp analyzer.nodeVars)
    (sound : SoundFor interp analyzer varDom predicate env region) (member : range ∈ region)
    (run : evalSetRange analyzer (asIntSet varDom) range = some set) :
    range.Covered interp analyzer.nodeVars varDom predicate env set := by
  have free := evalSetRange_free constant sound.identity range set run
  refine ⟨free, fun env' assigns x touches => ?_⟩
  exact FreeOf.contains reads free assigns (evalSetRange_contains sound member run assigns touches)

theorem takesIterSum_iff (found : analyzer.detectIterMap [range.min] varDom predicate = [sum]) :
    takesIterSum analyzer varDom predicate range = true ↔
      ∃ set, evalIterSum analyzer.toRegionAnalyzer sum range.extent = some (some set) := by
  have taken : takesIterSum analyzer varDom predicate range =
      match sum.args with
      | [] => true
      | [split] => analyzer.proves (make .ge range.extent (.intImm split.scale))
      | _ => false := by
    rw [takesIterSum, found]
  cases args : sum.args with
  | nil =>
    rw [args] at taken
    refine iff_of_true taken ⟨fromMinExtent sum.base range.extent, ?_⟩
    rw [evalIterSum, args]
  | cons split others =>
    rw [args] at taken
    cases others with
    | nil =>
      rw [evalIterSum_eq args]
      by_cases proved : analyzer.proves (make .ge range.extent (.intImm split.scale)) = true
      · rw [if_pos proved]
        refine iff_of_true (taken.trans proved) ?_
        split
        · exact ⟨_, rfl⟩
        · exact ⟨_, rfl⟩
      · rw [if_neg proved]
        refine iff_of_false (fun isTaken => proved (taken.symm.trans isTaken)) ?_
        rintro ⟨set, made⟩
        cases made
    | cons =>
      refine iff_of_false (by rw [taken]; exact Bool.false_ne_true) ?_
      rintro ⟨set, made⟩
      rw [evalIterSum, args] at made
      cases made

theorem estimateDimension_cases (run : estimateDimension analyzer varDom predicate range = some set) :
    (∃ sum, analyzer.detectIterMap [range.min] varDom predicate = [sum] ∧
      evalIterSum analyzer.toRegionAnalyzer sum range.extent = some (some set)) ∨
    (takesIterSum analyzer varDom predicate range = false ∧
      evalSetRange analyzer (asIntSet varDom) range = some set) := by
  rw [estimateDimension] at run
  split at run
  · rename_i none
    exact .inr ⟨by rw [takesIterSum, none], run⟩
  · rename_i sum found
    obtain ⟨extent, -, run⟩ := Option.bind_eq_some_iff.mp run
    obtain ⟨made, isMade, run⟩ := Option.bind_eq_some_iff.mp run
    cases made with
    | some made =>
      cases run
      exact .inl ⟨sum, found, isMade⟩
    | none =>
      refine .inr ⟨Bool.eq_false_iff.mpr fun taken => ?_, run⟩
      obtain ⟨set, made⟩ := (takesIterSum_iff found).mp taken
      rw [isMade] at made
      cases made
  · cases run

/-- The interval of a dimension is right where, and only where, no extent with a loop variable is
given to `EvalIterSum`. -/
theorem estimateDimension_covered_iff (constant : varDom.Constant)
    (reads : ReadsVars interp analyzer.nodeVars)
    (sound : SoundFor interp analyzer varDom predicate env region) (member : range ∈ region)
    (run : estimateDimension analyzer varDom predicate range = some set) :
    range.Covered interp analyzer.nodeVars varDom predicate env set ↔
      (takesIterSum analyzer varDom predicate range = true →
        range.extent.FreeOf analyzer.nodeVars varDom) := by
  rcases estimateDimension_cases run with ⟨sum, found, made⟩ | ⟨refused, plain⟩
  · have detects := sound.single range member
    rw [found] at detects
    have ⟨base, counts⟩ := detects.free sum (List.mem_singleton_self sum)
    have taken := (takesIterSum_iff found).mpr ⟨set, made⟩
    rw [taken]
    constructor
    · exact fun covered _ => (evalIterSum_free base counts made).mp covered.free
    · intro free
      refine evalIterSum_covered reads base counts (fun env' assigns => ?_) (free rfl) made
      exact detects.covers env' assigns 0 range.min sum rfl rfl
  · rw [refused]
    exact iff_of_true (evalSetRange_covered constant reads sound member plain) fun taken => by
      cases taken

end Dimension

section Region

variable {interp : Nat → Env → Option Int} {analyzer : UpperAnalyzer} {varDom : Ranges}
  {predicate : PrimExpr} {env : Env} {region : List Range} {sets : List IntervalSet}

theorem strictBound_extents {analyzer : RegionAnalyzer}
    (found : estimateRegionStrictBound analyzer region varDom predicate = some (some sets))
    {range : Range} (member : range ∈ region) : ∃ n, range.extent = .intImm n := by
  rw [estimateRegionStrictBound] at found
  split at found
  · rename_i numbers
    have number := List.all_eq_true.mp numbers range member
    cases isExtent : range.extent with
    | intImm n => exact ⟨n, rfl⟩
    | _ =>
      rw [isExtent] at number
      cases number
  · cases found

theorem strictBound_covered (reads : ReadsVars interp analyzer.nodeVars)
    (sound : SoundFor interp analyzer varDom predicate env region)
    (found : estimateRegionStrictBound analyzer.toRegionAnalyzer region varDom predicate =
      some (some sets)) {i : Nat} {range : Range} {set : IntervalSet} (isRange : region[i]? = some range)
    (isSet : sets[i]? = some set) :
    range.Covered interp analyzer.nodeVars varDom predicate env set := by
  obtain ⟨n, literal⟩ := strictBound_extents found (List.mem_of_getElem? isRange)
  obtain ⟨sums, detected, -, same, made⟩ := estimateRegionStrictBound_found found
  have detects := sound.joint
  rw [detected] at detects
  rcases exists_dimension same made i with ⟨-, none, -⟩ | ⟨sum, range', set', dimension⟩
  · rw [none] at isRange
    cases isRange
  · cases dimension.isRange.symm.trans isRange
    cases dimension.isSet.symm.trans isSet
    have ⟨base, counts⟩ := detects.free sum (List.mem_of_getElem? dimension.isSum)
    refine evalIterSum_covered reads base counts (fun env' assigns => ?_) ?_ dimension.made
    · refine detects.covers env' assigns i range.min sum ?_ dimension.isSum
      rw [List.getElem?_map, isRange, Option.map_some]
    · rw [literal]
      exact freeOf_intImm n

/-- Every interval covers its range where, and only where, no extent that mentions a loop variable
is given to `EvalIterSum`. -/
theorem estimateRegionUpperBound_covers_iff (constant : varDom.Constant)
    (reads : ReadsVars interp analyzer.nodeVars)
    (sound : SoundFor interp analyzer varDom predicate env region)
    (found : estimateRegionUpperBound analyzer region varDom predicate = some sets) :
    (∀ (i : Nat) (range : Range) (set : IntervalSet), region[i]? = some range → sets[i]? = some set →
      range.Covered interp analyzer.nodeVars varDom predicate env set) ↔
    ∀ range ∈ region, takesIterSum analyzer varDom predicate range = true →
      range.extent.FreeOf analyzer.nodeVars varDom := by
  obtain ⟨strict, isStrict, found⟩ := Option.bind_eq_some_iff.mp found
  cases strict with
  | some strict =>
    cases found
    apply iff_of_true
    · exact fun i range set isRange isSet => strictBound_covered reads sound isStrict isRange isSet
    · intro range member _
      obtain ⟨n, literal⟩ := strictBound_extents isStrict member
      rw [literal]
      exact freeOf_intImm n
  | none =>
    have images := mapM_eq_some_iff.mp found
    constructor
    · intro covered range member
      obtain ⟨i, inside, rfl⟩ := List.getElem_of_mem member
      have inSets : i < sets.length := images.length_eq ▸ inside
      have run := images.get inside inSets
      apply (estimateDimension_covered_iff constant reads sound member run).mp
      exact covered i _ _ (List.getElem?_eq_getElem inside) (List.getElem?_eq_getElem inSets)
    · intro free i range set isRange isSet
      obtain ⟨inside, rfl⟩ := List.getElem?_eq_some_iff.mp isRange
      obtain ⟨inSets, rfl⟩ := List.getElem?_eq_some_iff.mp isSet
      have member := List.getElem_mem inside
      have run := images.get inside inSets
      exact (estimateDimension_covered_iff constant reads sound member run).mpr (free _ member)

end Region

section Runs

def belowEight : Ranges :=
  [(0, ⟨.intImm 0, .intImm 8⟩)]

/-- From `i`, `n` elements. -/
def symbolicExtent : List Range :=
  [⟨.var 0, .var 1⟩]

def growingExtent : List Range :=
  [⟨.intImm 0, .binary .add (.var 0) (.intImm 1)⟩]

/-- `DetectIterMap` finds a constant and `i`; nothing else is proved. -/
def loopAnalyzer : UpperAnalyzer where
  detectIterMap indices _ _ :=
    if indices = [.intImm 0] then [⟨[], .intImm 0⟩]
    else if indices = [.var 0] then [⟨[⟨.intImm 8, 1⟩], .intImm 0⟩]
    else []
  canProve _ := false
  simplify e := e
  queries := ⟨fun _ _ => some false, fun _ => some false, fun _ => some false, fun a b => a = b⟩
  integerLoad _ := false
  nodeVars _ := []

variable {env env' : Env} {predicate : PrimExpr}

theorem belowEight_constant : belowEight.Constant := by
  intro v range found
  rw [belowEight, List.lookup_cons] at found
  split at found
  · cases found
    exact ⟨0, 8, rfl⟩
  · cases found

theorem loopAnalyzer_queries (env : Env) : loopAnalyzer.queries.Sound (fun _ _ => none) env where
  canProveGreaterEqual _ _ _ proved := by cases proved
  canProve _ _ proved := by cases proved
  freshCanProve _ _ proved := by cases proved
  sameAs _ _ same := of_decide_eq_true same

theorem detects_constant :
    Detects (fun _ _ => none) loopAnalyzer belowEight predicate env [.intImm 0] [⟨[], .intImm 0⟩] where
  covers env' assigns i index sum isIndex isSum := by
    cases i with
    | zero =>
      cases isIndex
      cases isSum
      exact ⟨0, rfl, 0, rfl, rfl⟩
    | succ i => cases isIndex
  free sum member := by
    cases List.mem_singleton.mp member
    exact ⟨freeOf_intImm 0, fun split none => by cases none⟩

theorem detects_loop : Detects (fun _ _ => none) loopAnalyzer belowEight predicate env [.var 0]
    [⟨[⟨.intImm 8, 1⟩], .intImm 0⟩] where
  covers env' assigns i index sum isIndex isSum := by
    cases i with
    | zero =>
      cases isIndex
      cases isSum
      obtain ⟨low, extent, isLow, isExtent, lower, upper⟩ := assigns.ranges 0 _ rfl
      cases isLow
      cases isExtent
      refine ⟨env' 0, rfl, 0, rfl, 8, env' 0, rfl, lower, by omega, ?_⟩
      rw [mul_one, zero_add]
    | succ i => cases isIndex
  free sum member := by
    cases List.mem_singleton.mp member
    refine ⟨freeOf_intImm 0, fun split member => ?_⟩
    cases List.mem_singleton.mp member
    exact freeOf_intImm 8

theorem loopAnalyzer_evaluates {e : PrimExpr} (proper : ∀ env', e.Proper (fun _ _ => none) env') :
    OverApproximates (fun _ _ => none) loopAnalyzer belowEight predicate env e :=
  overApproximates_of_proper belowEight_constant (fun env' _ => loopAnalyzer_queries env')
    fun env' _ => proper env'

theorem proper_linear {a b : PrimExpr} {op : BinOp} (linear : op = .add ∨ op = .sub)
    (left : a.Proper (fun _ _ => none) env) (right : b.Proper (fun _ _ => none) env) :
    (PrimExpr.binary op a b).Proper (fun _ _ => none) env := by
  refine ⟨left, right, fun x y _ _ => ?_⟩
  rcases linear with rfl | rfl
  · exact ⟨admits_int rfl x y, fun isMod => (by cases isMod), rfl⟩
  · exact ⟨admits_int rfl x y, fun isMod => (by cases isMod), rfl⟩

theorem symbolicExtent_sound :
    SoundFor (fun _ _ => none) loopAnalyzer belowEight (.intImm 1) env symbolicExtent where
  identity _ _ same := of_decide_eq_true same
  queries env' _ := loopAnalyzer_queries env'
  joint := detects_loop
  single range member := by
    cases List.mem_singleton.mp member
    exact detects_loop
  simplifies _ _ _ _ _ value := value
  evaluates range member := by
    cases List.mem_singleton.mp member
    exact ⟨loopAnalyzer_evaluates fun _ => trivial, loopAnalyzer_evaluates fun _ =>
      proper_linear (.inr rfl) (proper_linear (.inl rfl) trivial trivial) trivial⟩

/-- From `i` below eight, `n` elements are in `[0, 7 + n - 1]`. -/
theorem estimateRegionUpperBound_covers_symbolic :
    ∃ sets, estimateRegionUpperBound loopAnalyzer symbolicExtent belowEight (.intImm 1) = some sets ∧
      ∀ (i : Nat) (range : Range) (set : IntervalSet), symbolicExtent[i]? = some range →
        sets[i]? = some set →
          range.Covered (fun _ _ => none) loopAnalyzer.nodeVars belowEight (.intImm 1) (fun _ => 5) set := by
  have found : estimateRegionUpperBound loopAnalyzer symbolicExtent belowEight (.intImm 1) =
      some [⟨.expr (.intImm 0), .expr (.binary .sub (.binary .add (.intImm 7) (.var 1)) (.intImm 1))⟩] := by
    decide +kernel
  refine ⟨_, found, ?_⟩
  apply (estimateRegionUpperBound_covers_iff belowEight_constant (fun _ _ _ _ => rfl)
    symbolicExtent_sound found).mpr
  intro range member taken v used
  cases List.mem_singleton.mp member
  cases List.mem_singleton.mp used
  rfl

theorem growingExtent_sound :
    SoundFor (fun _ _ => none) loopAnalyzer belowEight (.intImm 1) env growingExtent where
  identity _ _ same := of_decide_eq_true same
  queries env' _ := loopAnalyzer_queries env'
  joint := detects_constant
  single range member := by
    cases List.mem_singleton.mp member
    exact detects_constant
  simplifies _ _ _ _ _ value := value
  evaluates range member := by
    cases List.mem_singleton.mp member
    have grown : ∀ env', (PrimExpr.binary .add (.var 0) (.intImm 1)).Proper (fun _ _ => none) env' :=
      fun _ => proper_linear (.inl rfl) trivial trivial
    exact ⟨loopAnalyzer_evaluates fun _ => trivial, loopAnalyzer_evaluates fun env' =>
      proper_linear (.inr rfl) (grown env') trivial⟩

/-- For `i + 1` elements the bound is `[0, (i + 1) - 1]`. -/
theorem estimateRegionUpperBound_unrelaxed :
    ∃ sets, estimateRegionUpperBound loopAnalyzer growingExtent belowEight (.intImm 1) = some sets ∧
      belowEight.Constant ∧ ReadsVars (fun _ _ => none) loopAnalyzer.nodeVars ∧
      SoundFor (fun _ _ => none) loopAnalyzer belowEight (.intImm 1) (fun _ => 0) growingExtent ∧
      ¬∀ (i : Nat) (range : Range) (set : IntervalSet), growingExtent[i]? = some range →
        sets[i]? = some set →
          range.Covered (fun _ _ => none) loopAnalyzer.nodeVars belowEight (.intImm 1) (fun _ => 0) set := by
  have found : estimateRegionUpperBound loopAnalyzer growingExtent belowEight (.intImm 1) =
      some [⟨.expr (.intImm 0), .expr (.binary .sub (.binary .add (.var 0) (.intImm 1)) (.intImm 1))⟩] := by
    decide +kernel
  refine ⟨_, found, belowEight_constant, fun _ _ _ _ => rfl, growingExtent_sound, fun covered => ?_⟩
  have free := (covered 0 _ _ rfl rfl).free.max
  have mentioned := free 0 (List.mem_append_left _ (List.mem_append_left _ (List.mem_singleton_self 0)))
  cases mentioned

end Runs

end Tvm.Arith
