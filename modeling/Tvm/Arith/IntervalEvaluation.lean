import Tvm.Arith.IntervalSetSound
import Tvm.Arith.RewriteResults

/-!
# Interval evaluation

The evaluator contains the value of every expression, in every run in which the analyzer proves
nothing that is false at the assignment.  With the rewriting simplifier as its analyzer it can
take an interval for a single point that has other values in it.
-/

namespace Tvm.Arith

open Tvm.Lib

/-- Every part has a value, no divisor is zero, the dividends of truncated remainders are not
negative and the operands of logical operators are truth values. -/
def PrimExpr.Proper (interp : Nat → Env → Option Int) : Env → PrimExpr → Prop
  | _, .var _ => True
  | _, .intImm _ => True
  | env, .binary op a b =>
    Proper interp env a ∧ Proper interp env b ∧ ∀ x y, a.eval interp env = some x →
      b.eval interp env = some y →
        op.Admits x y ∧ (op = .mod → 0 ≤ x) ∧ (op.eval x y).isSome = true
  | env, .not a => Proper interp env a
  | env, .select condition trueValue falseValue =>
    Proper interp env condition ∧ Proper interp env trueValue ∧ Proper interp env falseValue
  | env, .letIn v value body =>
    Proper interp env value ∧ ∀ x, value.eval interp env = some x →
      Proper interp (Function.update env v x) body
  | env, .cast value => Proper interp env value
  | env, .other node => (interp node env).isSome = true

def Limit.Proper (interp : Nat → Env → Option Int) (env : Env) : Limit → Prop
  | .expr e => e.Proper interp env
  | _ => True

/-- Each mapped variable lies in its set. -/
def DomMap.HoldsAt (domMap : DomMap) (interp : Nat → Env → Option Int) (env : Env) : Prop :=
  ∀ v set, domMap.find v = some set → set.Contains interp env (env v) ∧
    set.minValue.Proper interp env ∧ set.maxValue.Proper interp env

def LanedExpr.Proper (interp : Nat → Env → Option Int) (env : Env) (i : Nat) : LanedExpr → Prop
  | .scalar e => e.Proper interp env
  | .ramp base stride _ => base.Proper interp env ∧ stride.Proper interp env
  | .broadcast value _ => value.Proper interp env
  | .binary op a b =>
    Proper interp env i a ∧ Proper interp env i b ∧ ∀ x y, a.lane interp env i = some x →
      b.lane interp env i = some y →
        op.Admits x y ∧ (op = .mod → 0 ≤ x) ∧ (op.eval x y).isSome = true
  | .select condition trueValue falseValue =>
    Proper interp env i condition ∧ Proper interp env i trueValue ∧ Proper interp env i falseValue
  | .cast value => Proper interp env i value

theorem PrimExpr.Proper.value {interp : Nat → Env → Option Int} {e : PrimExpr} :
    ∀ {env : Env}, e.Proper interp env → ∃ v, e.eval interp env = some v := by
  induction e with
  | var v => exact fun _ => ⟨_, rfl⟩
  | intImm value => exact fun _ => ⟨_, rfl⟩
  | binary op a b left right =>
    rintro env ⟨properA, properB, proper⟩
    obtain ⟨x, leftValue⟩ := left properA
    obtain ⟨y, rightValue⟩ := right properB
    obtain ⟨-, -, defined⟩ := proper x y leftValue rightValue
    obtain ⟨v, evaluates⟩ := Option.isSome_iff_exists.mp defined
    exact ⟨v, by rw [eval, leftValue, rightValue, Option.bind_some, Option.bind_some, evaluates]⟩
  | not a operand =>
    intro env proper
    obtain ⟨x, value⟩ := operand proper
    exact ⟨_, by rw [eval, value, Option.map_some]⟩
  | select condition trueValue falseValue chosen whenTrue whenFalse =>
    rintro env ⟨properC, properT, properF⟩
    obtain ⟨c, conditionValue⟩ := chosen properC
    rw [eval, conditionValue, Option.bind_some]
    split
    · exact whenTrue properT
    · exact whenFalse properF
  | letIn v value body bound inside =>
    rintro env ⟨properV, properB⟩
    obtain ⟨x, boundValue⟩ := bound properV
    rw [eval, boundValue, Option.bind_some]
    exact inside (properB x boundValue)
  | cast value operand => exact operand
  | other node => exact fun proper => Option.isSome_iff_exists.mp proper

variable {interp : Nat → Env → Option Int} {env : Env}

theorem LanedExpr.Proper.value {i : Nat} {e : LanedExpr} (proper : e.Proper interp env i) :
    ∃ v, e.lane interp env i = some v := by
  induction e with
  | scalar e => exact PrimExpr.Proper.value proper
  | ramp base stride lanes =>
    obtain ⟨b, baseValue⟩ := PrimExpr.Proper.value proper.1
    obtain ⟨s, strideValue⟩ := PrimExpr.Proper.value proper.2
    exact ⟨_, by rw [lane, baseValue, strideValue, Option.bind_some, Option.map_some]⟩
  | broadcast value lanes => exact PrimExpr.Proper.value proper
  | binary op a b left right =>
    obtain ⟨properA, properB, proper⟩ := proper
    obtain ⟨x, leftValue⟩ := left properA
    obtain ⟨y, rightValue⟩ := right properB
    obtain ⟨-, -, defined⟩ := proper x y leftValue rightValue
    obtain ⟨v, evaluates⟩ := Option.isSome_iff_exists.mp defined
    exact ⟨v, by rw [lane, leftValue, rightValue, Option.bind_some, Option.bind_some, evaluates]⟩
  | select condition trueValue falseValue chosen whenTrue whenFalse =>
    obtain ⟨properC, properT, properF⟩ := proper
    obtain ⟨c, conditionValue⟩ := chosen properC
    rw [lane, conditionValue, Option.bind_some]
    split
    · exact whenTrue properT
    · exact whenFalse properF
  | cast value operand => exact operand proper

section Visit

variable {q : IntervalQueries} {domMap : DomMap} {loads : Nat → Bool} {set : IntervalSet}
  {e : PrimExpr} {v : Int}

theorem castBound_value (limit : Limit) {bound : PrimExpr}
    (value : bound.eval interp env = some v) :
    ∃ e, castBound limit (some bound) = .expr e ∧ e.eval interp env = some v := by
  cases bound with
  | intImm n => exact ⟨_, rfl, value⟩
  | _ => exact ⟨_, rfl, value⟩

theorem castSet_contains (contains : set.Contains interp env v) :
    (castSet set).Contains interp env v := by
  constructor
  · change (castBound .negInf set.lowerBound).Below interp env v
    rcases contains.lowerBound_cases with ⟨missing, -⟩ | ⟨bound, m, found, -, value, le⟩
    · rw [missing]
      trivial
    · obtain ⟨e, castIs, castValue⟩ := castBound_value .negInf value
      rw [found, castIs]
      exact ⟨m, castValue, le⟩
  · change (castBound .posInf set.upperBound).Above interp env v
    rcases contains.upperBound_cases with ⟨missing, -⟩ | ⟨bound, m, found, -, value, le⟩
    · rw [missing]
      trivial
    · obtain ⟨e, castIs, castValue⟩ := castBound_value .posInf value
      rw [found, castIs]
      exact ⟨m, castValue, le⟩

theorem matchPoint_value (identity : ∀ a b, q.sameAs a b = true → a = b)
    (matched : matchPoint q set e = true) : set = .singlePoint e := by
  obtain ⟨lower, upper⟩ := set
  rw [matchPoint.eq_def] at matched
  split at matched
  · rename_i d d' lowerIs upperIs
    obtain ⟨left, right⟩ := (Bool.and_eq_true _ _).mp matched
    dsimp only at lowerIs upperIs
    rw [lowerIs, upperIs, identity d e left, identity d' e right, IntervalSet.singlePoint]
  · cases matched

theorem visitSet_contains (sound : q.Sound interp env) (holds : domMap.HoldsAt interp env)
    {relax : IntervalSet → Option IntervalSet}
    (relaxes : ∀ s t v, s.Contains interp env v → s.minValue.Proper interp env →
      s.maxValue.Proper interp env → relax s = some t → t.Contains interp env v)
    (proper : e.Proper interp env) (value : e.eval interp env = some v)
    (run : visitSet q domMap loads relax e = some set) : set.Contains interp env v := by
  induction e generalizing set v with
  | var x =>
    cases value
    rw [visitSet] at run
    split at run
    · cases run
      exact IntervalSet.singlePoint_contains rfl
    · rename_i mapped found
      obtain ⟨contains, properMin, properMax⟩ := holds x mapped found
      split at run
      · cases run
        exact contains
      · exact relaxes mapped set _ contains properMin properMax run
  | intImm n =>
    cases run
    exact IntervalSet.singlePoint_contains value
  | binary op a b left right =>
    obtain ⟨properA, properB, proper⟩ := proper
    rw [visitSet] at run
    split at run
    · cases run
      exact IntervalSet.everything_contains
    · obtain ⟨x, leftValue⟩ := properA.value
      obtain ⟨y, rightValue⟩ := properB.value
      obtain ⟨admits, dividend, -⟩ := proper x y leftValue rightValue
      obtain ⟨aSet, aRun, run⟩ := Option.bind_eq_some_iff.mp run
      obtain ⟨bSet, bRun, run⟩ := Option.bind_eq_some_iff.mp run
      split at run
      · cases run
        exact IntervalSet.singlePoint_contains value
      · rw [PrimExpr.eval, leftValue, rightValue] at value
        exact combine_contains sound run (left properA leftValue aRun)
          (right properB rightValue bRun) admits dividend value
  | not a =>
    cases run
    exact IntervalSet.everything_contains
  | select condition trueValue falseValue chosen whenTrue whenFalse =>
    obtain ⟨properC, properT, properF⟩ := proper
    obtain ⟨x, trueIs⟩ := properT.value
    obtain ⟨y, falseIs⟩ := properF.value
    obtain ⟨trueSet, trueRun, run⟩ := Option.bind_eq_some_iff.mp run
    obtain ⟨falseSet, falseRun, run⟩ := Option.bind_eq_some_iff.mp run
    obtain ⟨inFalse, inTrue⟩ := IntervalSet.union_contains run
      (whenFalse properF falseIs falseRun) (whenTrue properT trueIs trueRun)
    obtain ⟨c, -, value⟩ := Option.bind_eq_some_iff.mp value
    split at value
    · rw [trueIs] at value
      cases value
      exact inTrue
    · rw [falseIs] at value
      cases value
      exact inFalse
  | letIn x bound body =>
    cases run
    exact IntervalSet.everything_contains
  | cast inner operand =>
    obtain ⟨innerSet, innerRun, rfl⟩ := Option.map_eq_some_iff.mp run
    exact castSet_contains (operand proper value innerRun)
  | other node =>
    cases run
    split
    · exact IntervalSet.singlePoint_contains value
    · exact IntervalSet.everything_contains

theorem relax_contains (sound : q.Sound interp env) (holds : domMap.HoldsAt interp env)
    (depth : Nat) : ∀ s t v, s.Contains interp env v → s.minValue.Proper interp env →
      s.maxValue.Proper interp env → relax q domMap loads depth s = some t →
        t.Contains interp env v := by
  induction depth with
  | zero =>
    intro s t v contains _ _ run
    cases run
    exact contains
  | succ depth ih =>
    intro s t v contains properMin properMax run
    obtain ⟨minSet, minRun, run⟩ := Option.bind_eq_some_iff.mp run
    obtain ⟨maxSet, maxRun, run⟩ := Option.bind_eq_some_iff.mp run
    cases run
    obtain ⟨lower, upper⟩ := s
    obtain ⟨below, above⟩ := contains
    constructor
    · cases lower with
      | negInf =>
        cases minRun
        trivial
      | posInf => exact below.elim
      | expr e =>
        obtain ⟨m, value, le⟩ := below
        exact (visitSet_contains sound holds ih properMin value
          minRun).below.trans le
    · cases upper with
      | negInf => exact above.elim
      | posInf =>
        cases maxRun
        trivial
      | expr e =>
        obtain ⟨m, value, le⟩ := above
        exact (visitSet_contains sound holds ih properMax value
          maxRun).above.trans le

theorem evalScalar_contains (sound : q.Sound interp env) (holds : domMap.HoldsAt interp env)
    (proper : e.Proper interp env) (value : e.eval interp env = some v)
    (run : evalScalar q domMap loads e = some set) : set.Contains interp env v :=
  visitSet_contains sound holds (relax_contains sound holds domMap.length) proper value run

theorem rampOffsets_contains {i lanes : Nat} (lane : i < lanes) (stride : Int) :
    (rampOffsets stride lanes).Contains interp env (i * stride) := by
  have last : (i : Int) ≤ lanes - 1 := by omega
  have start : (0 : Int) ≤ i := Int.natCast_nonneg i
  rw [rampOffsets]
  split
  · refine ⟨⟨0, rfl, by positivity⟩, _, rfl, ?_⟩
    rw [mul_comm]
    exact mul_le_mul_of_nonneg_left last (by omega)
  · refine ⟨⟨_, rfl, ?_⟩, 0, rfl, mul_nonpos_of_nonneg_of_nonpos start (by omega)⟩
    rw [mul_comm (i : Int)]
    exact mul_le_mul_of_nonpos_left last (by omega)

theorem evalSet_contains (sound : q.Sound interp env) (holds : domMap.HoldsAt interp env)
    {evalVec : Bool} {e : LanedExpr} {i : Nat} (inLanes : e.hasLane i)
    (proper : e.Proper interp env i) (value : e.lane interp env i = some v)
    (run : evalSet q domMap loads evalVec e = some set) : set.Contains interp env v := by
  induction e generalizing set v with
  | scalar e => exact evalScalar_contains sound holds proper value run
  | ramp base stride lanes =>
    obtain ⟨b, baseValue⟩ := PrimExpr.Proper.value proper.1
    rw [LanedExpr.lane, baseValue, Option.bind_some, Option.map_eq_some_iff] at value
    obtain ⟨s, strideValue, rfl⟩ := value
    rw [evalSet] at run
    split at run
    · obtain ⟨baseSet, baseRun, run⟩ := Option.bind_eq_some_iff.mp run
      have inBase := evalScalar_contains sound holds proper.1 baseValue baseRun
      split at run
      · cases strideValue
        exact combineAdd_contains sound run inBase (rampOffsets_contains inLanes _)
      · cases run
        exact IntervalSet.everything_contains
    · cases run
  | broadcast inner lanes =>
    rw [evalSet] at run
    split at run
    · exact evalScalar_contains sound holds proper value run
    · cases run
  | binary op a b left right =>
    obtain ⟨properA, properB, proper⟩ := proper
    rw [evalSet] at run
    split at run
    · cases run
      exact IntervalSet.everything_contains
    · obtain ⟨x, leftValue⟩ := properA.value
      obtain ⟨y, rightValue⟩ := properB.value
      obtain ⟨admits, dividend, -⟩ := proper x y leftValue rightValue
      obtain ⟨aSet, aRun, run⟩ := Option.bind_eq_some_iff.mp run
      obtain ⟨bSet, bRun, run⟩ := Option.bind_eq_some_iff.mp run
      rw [LanedExpr.lane, leftValue, rightValue] at value
      exact combine_contains sound run (left inLanes.1 properA leftValue aRun)
        (right inLanes.2 properB rightValue bRun) admits dividend value
  | select condition trueValue falseValue chosen whenTrue whenFalse =>
    obtain ⟨properC, properT, properF⟩ := proper
    obtain ⟨-, lanesT, lanesF⟩ := inLanes
    obtain ⟨x, trueIs⟩ := properT.value
    obtain ⟨y, falseIs⟩ := properF.value
    obtain ⟨trueSet, trueRun, run⟩ := Option.bind_eq_some_iff.mp run
    obtain ⟨falseSet, falseRun, run⟩ := Option.bind_eq_some_iff.mp run
    obtain ⟨inFalse, inTrue⟩ := IntervalSet.union_contains run
      (whenFalse lanesF properF falseIs falseRun) (whenTrue lanesT properT trueIs trueRun)
    obtain ⟨c, -, value⟩ := Option.bind_eq_some_iff.mp value
    split at value
    · rw [trueIs] at value
      cases value
      exact inTrue
    · rw [falseIs] at value
      cases value
      exact inFalse
  | cast inner operand =>
    obtain ⟨innerSet, innerRun, rfl⟩ := Option.map_eq_some_iff.mp run
    exact castSet_contains (operand inLanes proper value innerRun)

end Visit

/-- The answers of the second are those of the first wherever the first has one. -/
structure IntervalQueries.Extends (first second : IntervalQueries) : Prop where
  canProveGreaterEqual : ∀ e n,
    Lib.Extends (first.canProveGreaterEqual e n) (second.canProveGreaterEqual e n)
  canProve : ∀ e, Lib.Extends (first.canProve e) (second.canProve e)
  freshCanProve : ∀ e, Lib.Extends (first.freshCanProve e) (second.freshCanProve e)
  sameAs : first.sameAs = second.sameAs

section Extends

variable {first second : IntervalQueries} {a b set : IntervalSet}

theorem canProveEqual_extends (extended : first.Extends second) (lhs rhs : PrimExpr) :
    Extends (first.canProveEqual lhs rhs) (second.canProveEqual lhs rhs) := by
  rw [IntervalQueries.canProveEqual.eq_def, IntervalQueries.canProveEqual.eq_def]
  split
  · exact .refl _
  · exact (Extends.refl _).bind fun _ => (Extends.refl _).bind fun equal =>
      extended.freshCanProve equal

theorem isSinglePoint_extends (extended : first.Extends second) (set : IntervalSet) :
    Extends (set.isSinglePoint first) (set.isSinglePoint second) := by
  rw [IntervalSet.isSinglePoint.eq_def, IntervalSet.isSinglePoint.eq_def, extended.sameAs]
  split
  · exact .ite (.refl _) (canProveEqual_extends extended _ _)
  · exact .refl _

theorem bothPoints_extends (extended : first.Extends second) (a b : IntervalSet) :
    Extends (bothPoints first a b) (bothPoints second a b) :=
  (isSinglePoint_extends extended a).bind fun _ => .ite (isSinglePoint_extends extended b) (.refl _)

theorem combineWith_extends (extended : first.Extends second) (op : BinOp)
    {ranges ranges' : IntervalSet → IntervalSet → Option IntervalSet}
    (rest : Extends (ranges a b) (ranges' a b)) :
    Extends (combineWith first op ranges a b) (combineWith second op ranges' a b) :=
  (bothPoints_extends extended a b).bind fun _ =>
    .ite (.refl _) (.ite (.refl _) (.ite (.refl _) rest))

theorem scaleBySign_extends (extended : first.Extends second) (op : BinOp) (a : IntervalSet)
    (d : PrimExpr) : Extends (scaleBySign first op a d) (scaleBySign second op a d) :=
  (extended.canProveGreaterEqual d 0).bind fun _ => .ite (.refl _)
    ((Extends.refl _).bind fun negated =>
      (extended.canProveGreaterEqual negated 1).bind fun _ => .refl _)

theorem withPoint_extends (extended : first.Extends second) (b : IntervalSet)
    {onPoint onPoint' : PrimExpr → Option IntervalSet}
    (rest : ∀ d, Extends (onPoint d) (onPoint' d)) :
    Extends (withPoint first b onPoint) (withPoint second b onPoint') := by
  refine (isSinglePoint_extends extended b).bind fun _ => .ite ?_ (.refl _)
  cases b.minValue with
  | negInf | posInf => exact .refl _
  | expr d => exact rest d

theorem mulByPoint_extends (extended : first.Extends second) (a b : IntervalSet) :
    Extends (mulByPoint first a b) (mulByPoint second a b) :=
  withPoint_extends extended b fun d => .ite (.refl _) (.ite (.refl _)
    (scaleBySign_extends extended .mul a d))

theorem combineQuotient_extends (extended : first.Extends second) (op : BinOp) :
    Extends (combineQuotient first op a b) (combineQuotient second op a b) :=
  combineWith_extends extended op (withPoint_extends extended b fun d =>
    .ite (.refl _) (.ite (.refl _) (scaleBySign_extends extended op a d)))

theorem sameQuotient_extends (extended : first.Extends second) (a : IntervalSet) (d : PrimExpr) :
    Extends (sameQuotient first a d) (sameQuotient second a d) := by
  refine (Extends.refl _).bind fun qmax => (Extends.refl _).bind fun qmin => ?_
  split
  · exact (Extends.refl _).bind fun equal => (extended.canProve equal).bind fun _ => .refl _
  · exact .refl _

theorem combineFloorMod_extends (extended : first.Extends second) :
    Extends (combineFloorMod first a b) (combineFloorMod second a b) := by
  refine combineWith_extends extended .floorMod (withPoint_extends extended b fun d => ?_)
  refine .ite (.refl _) ((extended.canProveGreaterEqual d 0).bind fun _ => .ite ?_ (.refl _))
  split
  · exact (sameQuotient_extends extended a _).bind fun _ => .refl _
  · exact .refl _

theorem combine_extends (extended : first.Extends second) (op : BinOp) (a b : IntervalSet) :
    Extends (combine first op a b) (combine second op a b) := by
  cases op with
  | add =>
    change Extends (combineAdd first a b) (combineAdd second a b)
    exact combineWith_extends extended .add (.refl _)
  | sub =>
    change Extends (combineSub first a b) (combineSub second a b)
    exact combineWith_extends extended .sub (.refl _)
  | min =>
    change Extends (combineMin first a b) (combineMin second a b)
    exact combineWith_extends extended .min (.refl _)
  | max =>
    change Extends (combineMax first a b) (combineMax second a b)
    exact combineWith_extends extended .max (.refl _)
  | mul =>
    change Extends (combineMul first a b) (combineMul second a b)
    refine combineWith_extends extended .mul ?_
    exact (isSinglePoint_extends extended a).bind fun _ =>
      .ite (mulByPoint_extends extended b a) (mulByPoint_extends extended a b)
  | div | floorDiv => exact combineQuotient_extends extended _
  | mod =>
    change Extends (combineMod first a b) (combineMod second a b)
    refine combineWith_extends extended .mod ?_
    exact withPoint_extends extended b fun d =>
      .ite (.refl _) ((extended.canProveGreaterEqual d 0).bind fun _ => .refl _)
  | floorMod => exact combineFloorMod_extends extended
  | shiftLeft | shiftRight | bitwiseAnd => exact .refl _
  | eq | ne | lt | le | gt | ge | and | or =>
    exact (bothPoints_extends extended a b).bind fun _ => .refl _

theorem matchPoint_eq (extended : first.Extends second) (set : IntervalSet) (e : PrimExpr) :
    matchPoint first set e = matchPoint second set e := by
  rw [matchPoint, matchPoint, extended.sameAs]

variable {domMap : DomMap} {loads : Nat → Bool}

theorem visitSet_extends (extended : first.Extends second)
    {relax relax' : IntervalSet → Option IntervalSet} (relaxes : ∀ s, Extends (relax s) (relax' s))
    (e : PrimExpr) :
    Extends (visitSet first domMap loads relax e) (visitSet second domMap loads relax' e) := by
  induction e with
  | var v =>
    rw [visitSet, visitSet]
    split
    · exact .refl _
    · rw [matchPoint_eq extended]
      exact .ite (.refl _) (relaxes _)
  | binary op a b left right =>
    rw [visitSet, visitSet]
    refine .ite (.refl _) (left.bind fun aSet => right.bind fun bSet => ?_)
    rw [matchPoint_eq extended, matchPoint_eq extended]
    exact .ite (.refl _) (combine_extends extended op aSet bSet)
  | select condition trueValue falseValue _ whenTrue whenFalse =>
    exact whenTrue.bind fun _ => whenFalse.bind fun _ => .refl _
  | cast value operand => exact operand.map
  | intImm _ | not _ | letIn _ _ _ | other _ => exact .refl _

theorem relax_extends (extended : first.Extends second) (depth : Nat) : ∀ s,
    Extends (relax first domMap loads depth s) (relax second domMap loads depth s) := by
  induction depth with
  | zero => exact fun _ => .refl _
  | succ depth ih =>
    have visits (limit : Limit) : Extends (visitLimit first domMap loads
        (relax first domMap loads depth) limit) (visitLimit second domMap loads
        (relax second domMap loads depth) limit) := by
      cases limit with
      | negInf | posInf => exact .refl _
      | expr e => exact visitSet_extends extended ih e
    exact fun s => (visits s.minValue).bind fun _ => (visits s.maxValue).bind fun _ => .refl _

theorem evalScalar_extends (extended : first.Extends second) (e : PrimExpr) :
    Extends (evalScalar first domMap loads e) (evalScalar second domMap loads e) :=
  visitSet_extends extended (relax_extends extended domMap.length) e

theorem evalSet_extends (extended : first.Extends second) (evalVec : Bool) (e : LanedExpr) :
    Extends (evalSet first domMap loads evalVec e) (evalSet second domMap loads evalVec e) := by
  induction e with
  | scalar e => exact evalScalar_extends extended e
  | ramp base stride lanes =>
    rw [evalSet, evalSet]
    refine .ite ((evalScalar_extends extended base).bind fun baseSet => ?_) (.refl _)
    split
    · exact combineWith_extends extended .add (.refl _)
    · exact .refl _
  | broadcast value lanes => exact .ite (evalScalar_extends extended value) (.refl _)
  | binary op a b left right =>
    exact .ite (.refl _) (left.bind fun aSet => right.bind fun bSet =>
      combine_extends extended op aSet bSet)
  | select condition trueValue falseValue _ whenTrue whenFalse =>
    exact whenTrue.bind fun _ => whenFalse.bind fun _ => .refl _
  | cast value operand => exact operand.map

end Extends

def refused (holds : Bool) (answer : Option Bool) : Option Bool :=
  answer.bind fun proved => if proved && !holds then none else some proved

theorem refused_extends (holds : Bool) (answer : Option Bool) :
    Extends (refused holds answer) answer := by
  intro given refusedIs
  obtain ⟨proved, answerIs, givenIs⟩ := Option.bind_eq_some_iff.mp refusedIs
  split at givenIs
  · cases givenIs
  · cases givenIs
    exact answerIs

theorem refused_holds {holds : Bool} {answer : Option Bool}
    (proved : refused holds answer = some true) : holds = true := by
  obtain ⟨given, -, givenIs⟩ := Option.bind_eq_some_iff.mp proved
  split at givenIs
  · cases givenIs
  · rename_i kept
    cases givenIs
    simpa using kept

/-- The analyzer that gives no answer where it would prove something false at the assignment. -/
def IntervalQueries.truthful (q : IntervalQueries) (interp : Nat → Env → Option Int) (env : Env) :
    IntervalQueries where
  canProveGreaterEqual e n :=
    refused ((e.eval interp env).all fun v => n ≤ v) (q.canProveGreaterEqual e n)
  canProve e := refused ((e.eval interp env).all fun v => v ≠ 0) (q.canProve e)
  freshCanProve e := refused ((e.eval interp env).all fun v => v ≠ 0) (q.freshCanProve e)
  sameAs := q.sameAs

theorem truthful_extends (q : IntervalQueries) (interp : Nat → Env → Option Int) (env : Env) :
    (q.truthful interp env).Extends q where
  canProveGreaterEqual _ _ := refused_extends _ _
  canProve _ := refused_extends _ _
  freshCanProve _ := refused_extends _ _
  sameAs := rfl

theorem truthful_sound {q : IntervalQueries} (identity : ∀ a b, q.sameAs a b = true → a = b) :
    (q.truthful interp env).Sound interp env where
  canProveGreaterEqual e n v proved value := by
    have holds := refused_holds proved
    rw [value] at holds
    simpa using holds
  canProve e v proved value := by
    have holds := refused_holds proved
    rw [value] at holds
    simpa using holds
  freshCanProve e v proved value := by
    have holds := refused_holds proved
    rw [value] at holds
    simpa using holds
  sameAs := identity

/-- The interval of an expression contains its value, lane by lane, in every evaluation in which
the analyzer proves nothing that is false at the assignment. -/
theorem intervalEvaluation_contains {q : IntervalQueries}
    (identity : ∀ a b, q.sameAs a b = true → a = b) {domMap : DomMap} {loads : Nat → Bool}
    {evalVec : Bool} {e : LanedExpr} {set : IntervalSet} {i : Nat} {v : Int}
    (holds : domMap.HoldsAt interp env) (inLanes : e.hasLane i) (proper : e.Proper interp env i)
    (value : e.lane interp env i = some v) (run : evalSet q domMap loads evalVec e = some set)
    (kept : evalSet (q.truthful interp env) domMap loads evalVec e ≠ none) :
    set.Contains interp env v := by
  obtain ⟨keptSet, keptRun⟩ := Option.ne_none_iff_exists'.mp kept
  have same := evalSet_extends (truthful_extends q interp env) evalVec e keptSet keptRun
  rw [run, Option.some.injEq] at same
  subst same
  exact evalSet_contains (truthful_sound identity) holds inLanes proper value keptRun

/-- The rewriting simplifier as the analyzer, with node identity as equality. -/
def IntervalQueries.ofSimplifier (fresh : SubAnalyses)
    (canonicalSimplify : Impl → PrimExpr → Option PrimExpr) (fuel : Nat) (impl : Impl) :
    IntervalQueries where
  canProveGreaterEqual := Tvm.Arith.canProveGreaterEqual (visitExpr fresh permitsAll fuel) impl
  canProve := Tvm.Arith.canProve fresh permitsAll canonicalSimplify fuel impl
  freshCanProve := Tvm.Arith.canProve fresh permitsAll canonicalSimplify fuel
    (.start fresh fun _ => none)
  sameAs a b := a = b

/-- `v` in `[0, 9]` gives `v + 1` in `[1, 10]`. -/
theorem intervalEvaluation_contains_range :
    IntervalSet.Contains (fun _ _ => none) (fun _ => 7)
      ⟨.expr (.intImm 1), .expr (.intImm 10)⟩ 8 := by
  have holds : DomMap.HoldsAt [(0, ⟨.expr (.intImm 0), .expr (.intImm 9)⟩)] (fun _ _ => none)
      fun _ => 7 := by
    intro v set found
    simp only [DomMap.find, List.lookup_cons, List.lookup_nil] at found
    split at found
    · cases found
      exact ⟨⟨⟨0, rfl, by norm_num⟩, 9, rfl, by norm_num⟩, trivial, trivial⟩
    · cases found
  have proper : (LanedExpr.scalar (.binary .add (.var 0) (.intImm 1))).Proper (fun _ _ => none)
      (fun _ => 7) 0 :=
    ⟨trivial, trivial, fun _ _ _ _ => ⟨(fun logical => by cases logical),
      (fun isMod => by cases isMod), rfl⟩⟩
  have run : evalSet (.ofSimplifier .unknown (fun _ e => some e) 8 (.start .unknown fun _ => none))
      [(0, ⟨.expr (.intImm 0), .expr (.intImm 9)⟩)] (fun _ => false) false
      (.scalar (.binary .add (.var 0) (.intImm 1))) =
        some ⟨.expr (.intImm 1), .expr (.intImm 10)⟩ := by decide +kernel
  have inLanes : (LanedExpr.scalar (.binary .add (.var 0) (.intImm 1))).hasLane 0 := trivial
  exact intervalEvaluation_contains (fun _ _ same => of_decide_eq_true same) holds inLanes proper
    rfl run (by decide +kernel)

/-- `v + 1` for `v` in `[min(floordiv(x + 1, 2) * 2, max(x, 2)), max(x, 2)]` is taken for the
single point `1` at `x = 0`, where `v` may be `2`. -/
theorem intervalEvaluation_unsound :
    ¬∀ (interp : Nat → Env → Option Int) (env : Env) (analyses fresh : SubAnalyses)
      (canonicalSimplify : Impl → PrimExpr → Option PrimExpr) (fuel : Nat) (domMap : DomMap)
      (loads : Nat → Bool) (evalVec : Bool) (e : LanedExpr) (set : IntervalSet) (i : Nat) (v : Int),
      analyses.Sound BinOp.indexFragment interp env → fresh.Sound BinOp.indexFragment interp env →
      CanonicalSound canonicalSimplify BinOp.indexFragment interp env →
      domMap.HoldsAt interp env → e.hasLane i → e.Proper interp env i →
      e.lane interp env i = some v →
      evalSet (.ofSimplifier fresh canonicalSimplify fuel (.start analyses fun _ => none)) domMap
        loads evalVec e = some set → set.Contains interp env v := by
  intro sound
  have contained := sound (fun _ _ => none) (fun v => if v = 1 then 2 else 0) .unknown .unknown
    (fun _ e => some e) 12 [(1, ⟨.expr (.binary .min (.binary .mul (.binary .floorDiv
      (.binary .add (.var 0) (.intImm 1)) (.intImm 2)) (.intImm 2))
      (.binary .max (.var 0) (.intImm 2))), .expr (.binary .max (.var 0) (.intImm 2))⟩)]
    (fun _ => false) false (.scalar (.binary .add (.var 1) (.intImm 1))) _ 0 3
    SubAnalyses.unknown_sound SubAnalyses.unknown_sound ?_ ?_ trivial
    ⟨trivial, trivial, fun _ _ _ _ => ⟨(fun logical => by cases logical),
      (fun isMod => by cases isMod), rfl⟩⟩ rfl (by decide +kernel : _ = some (.singlePoint (.binary
        .add (.binary .min (.binary .mul (.binary .floorDiv (.binary .add (.var 0) (.intImm 1))
          (.intImm 2)) (.intImm 2)) (.binary .max (.var 0) (.intImm 2))) (.intImm 1))))
  · obtain ⟨m, value, bound⟩ := contained.above
    have isOne : m = 1 := by
      rw [show PrimExpr.eval _ _ _ = some 1 from rfl] at value
      exact (Option.some.inj value).symm
    omega
  · intro impl e r v _ _ same evaluates
    cases same
    exact evaluates
  · intro v set found
    simp only [DomMap.find, List.lookup_cons, List.lookup_nil] at found
    split at found
    · cases found
      have isOne : v = 1 := by simpa using ‹(v == 1) = true›
      subst isOne
      refine ⟨⟨⟨0, by decide, by decide⟩, 2, by decide, by decide⟩, ?_, ?_⟩
      · simp [Limit.Proper, PrimExpr.Proper, PrimExpr.eval, BinOp.eval, BinOp.Admits,
          BinOp.operandSort]
      · simp [Limit.Proper, PrimExpr.Proper, PrimExpr.eval, BinOp.eval, BinOp.Admits,
          BinOp.operandSort]
    · cases found

end Tvm.Arith
