import Tvm.Arith.RewriteFirings
import Tvm.Arith.RewriteSimplify

/-!
# Soundness of the rewriting simplifier

A visit keeps the sort of an expression and, at an assignment that agrees with the state of the
analyzer, its value.  The induction is on the fuel; every function of the simplifier is followed
given that the visits it makes are sound.
-/

namespace Tvm.Arith

/-- The answers are true at the assignment, wherever the constraints hold. -/
structure SubAnalyses.Sound (analyses : SubAnalyses) (allowed : BinOp → Bool)
    (interp : Nat → Env → Option Int) (env : Env) : Prop where
  constIntBound : ∀ entered e v, (∀ constraint ∈ entered, constraint.Holds interp env) →
    WellSorted allowed .int e = true → e.eval interp env = some v →
    (analyses.constIntBound entered e).Contains v
  modularSet : ∀ entered e v, (∀ constraint ∈ entered, constraint.Holds interp env) →
    WellSorted allowed .int e = true → e.eval interp env = some v →
    (analyses.modularSet entered e).Contains v

namespace Impl

structure Sorted (impl : Impl) (allowed : BinOp → Bool) : Prop where
  varMap : ∀ v info, impl.varMap v = some info → WellSorted allowed .int info = true

structure HoldsAt (impl : Impl) (allowed : BinOp → Bool) (interp : Nat → Env → Option Int)
    (env : Env) : Prop where
  analyses : impl.analyses.Sound allowed interp env
  varMap : ∀ v info, impl.varMap v = some info → info.eval interp env = some (env v)
  entered : ∀ constraint ∈ impl.entered, constraint.Holds interp env
  literalConstraints : ∀ constraint ∈ impl.literalConstraints, constraint.Holds interp env

end Impl

/-- The simplified expression has the sort of the expression and its value. -/
structure Simplified (allowed : BinOp → Bool) (interp : Nat → Env → Option Int) (env : Env)
    (impl : Impl) (sort : ExprSort) (e r : PrimExpr) : Prop where
  sorted : WellSorted allowed sort r = true
  value : impl.HoldsAt allowed interp env → ∀ v, e.eval interp env = some v →
    r.eval interp env = some v

/-- What a visit does to every expression, in every state. -/
def Visit.Sound (visit : Visit) (allowed : BinOp → Bool) (interp : Nat → Env → Option Int)
    (env : Env) : Prop :=
  ∀ impl sort e r, impl.Sorted allowed → WellSorted allowed sort e = true →
    visit impl e = some r → Simplified allowed interp env impl sort e r

def NodeStages (stages : List Stage) : Prop :=
  (∃ op : BinOp, stages = op.stages) ∨ stages = notStages ∨ stages = selectStages

/-- Whatever the guard permits keeps the value at the assignment. -/
def Guards (permits : Impl → Firing → Bool) (allowed : BinOp → Bool)
    (interp : Nat → Env → Option Int) (env : Env) : Prop :=
  ∀ impl queries sort e stages firing, NodeStages stages → WellSorted allowed sort e = true →
    runStages queries e stages = some (some firing) → permits impl firing = true →
    (∀ constraint ∈ impl.entered, constraint.Holds interp env) → firing.meets interp env = true

namespace ConstIntBound

variable {bound : ConstIntBound} {n v : Int}

theorem Contains.atLeast (contains : bound.Contains v) (least : bound.atLeast n = true) :
    n ≤ v := by
  obtain ⟨m, isBound, ordered⟩ := (Option.any_eq_true _ _).mp least
  exact (of_decide_eq_true ordered).trans (contains.1 m isBound)

theorem Contains.atMost (contains : bound.Contains v) (most : bound.atMost n = true) : v ≤ n := by
  obtain ⟨m, isBound, ordered⟩ := (Option.any_eq_true _ _).mp most
  exact (contains.2 m isBound).trans (of_decide_eq_true ordered)

theorem Contains.above (contains : bound.Contains v) (above : bound.minValue.any (· > n) = true) :
    n < v := by
  obtain ⟨m, isBound, ordered⟩ := (Option.any_eq_true _ _).mp above
  exact (of_decide_eq_true ordered).trans_le (contains.1 m isBound)

theorem Contains.under (contains : bound.Contains v) (under : bound.maxValue.any (· < n) = true) :
    v < n := by
  obtain ⟨m, isBound, ordered⟩ := (Option.any_eq_true _ _).mp under
  exact (contains.2 m isBound).trans_lt (of_decide_eq_true ordered)

end ConstIntBound

theorem ModularSet.Entry.ne_zero_of_contains {entry : ModularSet.Entry} {v : Int}
    (contains : entry.Contains v) (base : entry.base ≠ 0) : v ≠ 0 := by
  intro isZero
  have congruent := ModularSet.Entry.contains_iff.mp contains
  rw [isZero] at congruent
  rcases entry.coeff_nonneg.eq_or_lt with zero | positive
  · rw [← zero, Int.modEq_zero_iff] at congruent
    exact base congruent.symm
  · obtain ⟨nonneg, small⟩ := entry.base_range positive
    rw [Int.ModEq, Int.zero_emod, Int.emod_eq_of_lt nonneg small] at congruent
    exact base congruent.symm

section Steps

variable {allowed : BinOp → Bool} {interp : Nat → Env → Option Int} {env : Env}
  {visit : Visit} {impl : Impl} {sort : ExprSort} {e r : PrimExpr} {v : Int}

theorem Simplified.refl (sorted : WellSorted allowed sort e = true) :
    Simplified allowed interp env impl sort e e :=
  ⟨sorted, fun _ _ evaluates => evaluates⟩

theorem Simplified.trans {middle : PrimExpr}
    (first : Simplified allowed interp env impl sort e middle)
    (second : Simplified allowed interp env impl sort middle r) :
    Simplified allowed interp env impl sort e r :=
  ⟨second.sorted, fun holds v evaluates => second.value holds v (first.value holds v evaluates)⟩

theorem Simplified.holds (simplified : Simplified allowed interp env impl sort e r)
    (agrees : impl.HoldsAt allowed interp env) (holds : e.Holds interp env) :
    r.Holds interp env := by
  obtain ⟨v, evaluates, nonzero⟩ := holds
  exact ⟨v, simplified.value agrees v evaluates, nonzero⟩

theorem rewriteSimplify_sound (sound : visit.Sound allowed interp env)
    (implSorted : impl.Sorted allowed) (sorted : WellSorted allowed sort e = true)
    (run : rewriteSimplify visit impl e = some r) :
    Simplified allowed interp env impl sort e r := by
  simp only [rewriteSimplify, Option.bind_eq_bind, Option.bind_eq_some_iff] at run
  obtain ⟨first, firstRun, run⟩ := run
  have firstSound := sound impl sort e first implSorted sorted firstRun
  split at run
  · cases run
    exact .refl sorted
  · exact firstSound.trans (sound impl sort first r implSorted firstSound.sorted run)

theorem tryCompare_sound (sound : visit.Sound allowed interp env) (implSorted : impl.Sorted allowed)
    (agrees : impl.HoldsAt allowed interp env) {val : Int} {result : CompareResult}
    (sorted : WellSorted allowed .int e = true) (run : tryCompare visit impl e val = some result)
    (evaluates : e.eval interp env = some v) : result.Says v val := by
  obtain ⟨diff, visited, resultIs⟩ := Option.map_eq_some_iff.mp run
  have diffSound := sound impl .int e diff implSorted sorted visited
  have value := diffSound.value agrees v evaluates
  have bounds := agrees.analyses.constIntBound impl.entered diff v agrees.entered
    diffSound.sorted value
  have modular := agrees.analyses.modularSet impl.entered diff v agrees.entered
    diffSound.sorted value
  split at resultIs
  · rw [PrimExpr.eval, Option.some.injEq] at value
    subst value
    split at resultIs
    · subst resultIs
      assumption
    · split at resultIs <;> subst resultIs
      · assumption
      · exact lt_of_le_of_ne (not_lt.mp ‹_›) ‹_›
  · dsimp only at resultIs
    split at resultIs
    · rename_i exactly
      subst resultIs
      exact le_antisymm (bounds.2 val exactly.2) (bounds.1 val exactly.1)
    split at resultIs
    · subst resultIs
      exact bounds.above ‹_›
    split at resultIs
    · subst resultIs
      exact bounds.under ‹_›
    split at resultIs
    · subst resultIs
      exact bounds.atLeast ‹_›
    split at resultIs
    · subst resultIs
      exact bounds.atMost ‹_›
    split at resultIs
    · rename_i base
      subst resultIs
      rw [base.1]
      exact ModularSet.Entry.ne_zero_of_contains modular base.2
    · subst resultIs
      trivial

theorem canProveGreaterEqual_sound (sound : visit.Sound allowed interp env)
    (implSorted : impl.Sorted allowed) (agrees : impl.HoldsAt allowed interp env)
    {lowerBound : Int} (sorted : WellSorted allowed .int e = true)
    (proved : canProveGreaterEqual visit impl e lowerBound = some true)
    (evaluates : e.eval interp env = some v) : lowerBound ≤ v := by
  rw [canProveGreaterEqual.eq_def] at proved
  split at proved
  · cases evaluates
    simpa using proved
  · obtain ⟨simplified, run, answer⟩ := Option.map_eq_some_iff.mp proved
    have simplifies := rewriteSimplify_sound sound implSorted sorted run
    exact (agrees.analyses.constIntBound _ _ v agrees.entered simplifies.sorted
      (simplifies.value agrees v evaluates)).atLeast answer

theorem canProveLess_sound (sound : visit.Sound allowed interp env)
    (implSorted : impl.Sorted allowed) (agrees : impl.HoldsAt allowed interp env)
    {upperBound : Int} (sorted : WellSorted allowed .int e = true)
    (proved : canProveLess visit impl e upperBound = some true)
    (evaluates : e.eval interp env = some v) : v < upperBound := by
  rw [canProveLess.eq_def] at proved
  split at proved
  · cases evaluates
    simpa using proved
  · obtain ⟨simplified, run, answer⟩ := Option.map_eq_some_iff.mp proved
    have simplifies := rewriteSimplify_sound sound implSorted sorted run
    exact (agrees.analyses.constIntBound _ _ v agrees.entered simplifies.sorted
      (simplifies.value agrees v evaluates)).under answer

theorem Impl.queries_sound (sound : visit.Sound allowed interp env)
    (implSorted : impl.Sorted allowed) (agrees : impl.HoldsAt allowed interp env) :
    (impl.queries visit).Sound allowed interp env where
  canProveGreaterEqual _ _ _ sorted proved evaluates :=
    canProveGreaterEqual_sound sound implSorted agrees sorted proved evaluates
  canProveLess _ _ _ sorted proved evaluates :=
    canProveLess_sound sound implSorted agrees sorted proved evaluates
  tryCompare _ _ _ _ sorted compared evaluates :=
    tryCompare_sound sound implSorted agrees sorted compared evaluates
  constIntBound e v sorted evaluates :=
    agrees.analyses.constIntBound _ e v agrees.entered sorted evaluates
  modularSet e v sorted evaluates :=
    agrees.analyses.modularSet _ e v agrees.entered sorted evaluates
  literalConstraints := agrees.literalConstraints

theorem recursiveRewrite_sound (sound : visit.Sound allowed interp env)
    (implSorted : impl.Sorted allowed) (sorted : WellSorted allowed sort e = true)
    (run : recursiveRewrite visit impl e = some r) :
    Simplified allowed interp env impl sort e r := by
  rw [recursiveRewrite] at run
  split at run
  · cases run
    exact .refl sorted
  · have visited := sound { impl with recurDepth := impl.recurDepth + 1 } sort e r
      ⟨implSorted.varMap⟩ sorted run
    exact ⟨visited.sorted, fun agrees =>
      visited.value ⟨agrees.analyses, agrees.varMap, agrees.entered, agrees.literalConstraints⟩⟩

theorem rewriteNode_sound {permits : Impl → Firing → Bool} {stages : List Stage}
    (base : ∀ op, op.floorFragment = true → allowed op = true)
    (guards : Guards permits allowed interp env) (sound : visit.Sound allowed interp env)
    (implSorted : impl.Sorted allowed) (nodeStages : NodeStages stages)
    (fit : FitStages allowed sort stages) (sorted : WellSorted allowed sort e = true)
    (run : rewriteNode visit permits impl e stages = some r) :
    Simplified allowed interp env impl sort e r := by
  simp only [rewriteNode, Option.bind_eq_bind, Option.bind_eq_some_iff] at run
  obtain ⟨fired, stagesRun, run⟩ := run
  cases fired with
  | none =>
    cases run
    exact .refl sorted
  | some firing =>
    dsimp only at run
    split at run
    · rename_i permitted
      have fires : Simplified allowed interp env impl sort e firing.result := by
        refine ⟨runStages_sorted base fit sorted stagesRun, fun agrees v evaluates => ?_⟩
        obtain ⟨w, value, same⟩ := runStages_exact base fit
          (Impl.queries_sound sound implSorted agrees) sorted stagesRun evaluates
        rw [value, same.mpr (guards impl _ sort e stages firing nodeStages sorted stagesRun
          permitted agrees.entered)]
      split at run
      · exact fires.trans (recursiveRewrite_sound sound implSorted fires.sorted run)
      · cases run
        exact fires
    · cases run

theorem holds_and {a b : PrimExpr} (holds : (PrimExpr.binary .and a b).Holds interp env) :
    a.Holds interp env ∧ b.Holds interp env := by
  obtain ⟨v, evaluates, nonzero⟩ := holds
  simp only [PrimExpr.eval, Option.bind_eq_some_iff, BinOp.eval, Option.some.injEq] at evaluates
  obtain ⟨x, xIs, y, yIs, rfl⟩ := evaluates
  rw [ne_eq, truth_eq_zero, not_not] at nonzero
  exact ⟨⟨x, xIs, nonzero.1⟩, ⟨y, yIs, nonzero.2⟩⟩

theorem holds_not_of_eval (evaluates : e.eval interp env = some 0) :
    (PrimExpr.not e).Holds interp env :=
  ⟨1, by rw [PrimExpr.eval, evaluates]; rfl, one_ne_zero⟩

theorem holds_not_or {a b : PrimExpr} (holds : (PrimExpr.not (.binary .or a b)).Holds interp env) :
    (PrimExpr.not a).Holds interp env ∧ (PrimExpr.not b).Holds interp env := by
  obtain ⟨v, evaluates, nonzero⟩ := holds
  simp only [PrimExpr.eval, Option.map_eq_some_iff, Option.bind_eq_some_iff, BinOp.eval,
    Option.some.injEq] at evaluates
  obtain ⟨_, ⟨x, xIs, y, yIs, rfl⟩, rfl⟩ := evaluates
  simp only [ne_eq, truth_eq_zero, not_not, not_or] at nonzero
  exact ⟨holds_not_of_eval (nonzero.1 ▸ xIs), holds_not_of_eval (nonzero.2 ▸ yIs)⟩

theorem holds_not_of_simplified {negation : PrimExpr} (agrees : impl.HoldsAt allowed interp env)
    (simplified : Simplified allowed interp env impl .bool (.not e) negation)
    (holds : e.Holds interp env) : (PrimExpr.not negation).Holds interp env := by
  obtain ⟨v, evaluates, nonzero⟩ := holds
  refine holds_not_of_eval (simplified.value agrees 0 ?_)
  rw [PrimExpr.eval, evaluates, Option.map_some, truth_eq_zero.mpr nonzero]

theorem collectConstraints_sound {simplify : PrimExpr → Option PrimExpr} {fuel : Nat}
    {collect : List PrimExpr}
    (sound : ∀ e r, WellSorted allowed .bool e = true → simplify e = some r →
      WellSorted allowed .bool r = true ∧ (e.Holds interp env → r.Holds interp env))
    (sorted : WellSorted allowed .bool e = true)
    (run : collectConstraints simplify fuel e = some collect) :
    (∀ c ∈ collect, WellSorted allowed .bool c = true) ∧
      (e.Holds interp env → ∀ c ∈ collect, c.Holds interp env) := by
  induction fuel generalizing e collect with
  | zero => cases run
  | succ fuel ih =>
    rw [collectConstraints.eq_def] at run
    dsimp only at run
    split at run
    · rename_i x y
      simp only [Option.bind_eq_bind, Option.bind_eq_some_iff, Option.some.injEq] at run
      obtain ⟨first, firstRun, second, secondRun, rfl⟩ := run
      obtain ⟨-, xSorted, ySorted⟩ := operands_sorted sorted
      obtain ⟨firstSorted, firstHolds⟩ := ih xSorted firstRun
      obtain ⟨secondSorted, secondHolds⟩ := ih ySorted secondRun
      simp only [List.forall_mem_cons, List.forall_mem_append]
      refine ⟨⟨sorted, firstSorted, secondSorted⟩, fun holds => ?_⟩
      obtain ⟨xHolds, yHolds⟩ := holds_and holds
      exact ⟨holds, firstHolds xHolds, secondHolds yHolds⟩
    · rename_i x y
      simp only [Option.bind_eq_bind, Option.bind_eq_some_iff, Option.some.injEq] at run
      obtain ⟨notX, notXIs, first, firstRun, notY, notYIs, second, secondRun, rfl⟩ := run
      obtain ⟨-, xSorted, ySorted⟩ := operands_sorted (show WellSorted allowed .bool _ = true from sorted)
      obtain ⟨notXSorted, notXHolds⟩ := sound (.not x) notX xSorted notXIs
      obtain ⟨notYSorted, notYHolds⟩ := sound (.not y) notY ySorted notYIs
      obtain ⟨firstSorted, firstHolds⟩ := ih notXSorted firstRun
      obtain ⟨secondSorted, secondHolds⟩ := ih notYSorted secondRun
      simp only [List.forall_mem_cons, List.forall_mem_append]
      refine ⟨⟨sorted, firstSorted, secondSorted⟩, fun holds => ?_⟩
      obtain ⟨xHolds, yHolds⟩ := holds_not_or holds
      exact ⟨holds, firstHolds (notXHolds xHolds), secondHolds (notYHolds yHolds)⟩
    · cases run
      simp only [List.forall_mem_singleton]
      exact ⟨sorted, id⟩

variable {fresh : SubAnalyses} {fuel : Nat}

theorem start_sorted {analyses : SubAnalyses} : (Impl.start analyses fun _ => none).Sorted allowed :=
  ⟨fun _ _ bound => by cases bound⟩

theorem start_holdsAt {analyses : SubAnalyses} (sound : analyses.Sound allowed interp env) :
    (Impl.start analyses fun _ => none).HoldsAt allowed interp env where
  analyses := sound
  varMap _ _ bound := by cases bound
  entered _ member := by cases member
  literalConstraints _ member := by cases member

theorem extractConstraints_sound (freshSound : fresh.Sound allowed interp env)
    (sound : visit.Sound allowed interp env) {subconstraints : List PrimExpr}
    (sorted : WellSorted allowed .bool e = true)
    (run : extractConstraints visit fresh fuel e = some subconstraints) :
    (∀ c ∈ subconstraints, WellSorted allowed .bool c = true) ∧
      (e.Holds interp env → ∀ c ∈ subconstraints, c.Holds interp env) := by
  refine collectConstraints_sound (fun e r sorted run => ?_) sorted run
  have simplified := rewriteSimplify_sound sound start_sorted sorted run
  exact ⟨simplified.sorted, simplified.holds (start_holdsAt freshSound)⟩

theorem pushLiteral_holdsAt {c : PrimExpr} (agrees : impl.HoldsAt allowed interp env)
    (holds : c.Holds interp env) : (impl.pushLiteral c).HoldsAt allowed interp env where
  analyses := agrees.analyses
  varMap := agrees.varMap
  entered := agrees.entered
  literalConstraints := by
    simp only [Impl.pushLiteral, List.forall_mem_append, List.forall_mem_singleton]
    exact ⟨agrees.literalConstraints, holds⟩

theorem pushConstraints_sound (sound : visit.Sound allowed interp env)
    {subconstraints : List PrimExpr} {result : Impl} (implSorted : impl.Sorted allowed)
    (sorted : ∀ c ∈ subconstraints, WellSorted allowed .bool c = true)
    (run : pushConstraints visit impl subconstraints = some result) :
    result.Sorted allowed ∧
      (impl.HoldsAt allowed interp env → (∀ c ∈ subconstraints, c.Holds interp env) →
        result.HoldsAt allowed interp env) := by
  induction subconstraints generalizing impl with
  | nil =>
    cases run
    exact ⟨implSorted, fun agrees _ => agrees⟩
  | cons subconstraint rest ih =>
    simp only [pushConstraints, Option.bind_eq_bind, Option.bind_eq_some_iff] at run
    obtain ⟨negation, visited, run⟩ := run
    obtain ⟨firstSorted, restSorted⟩ := List.forall_mem_cons.mp sorted
    have pushedSorted : (impl.pushLiteral subconstraint).Sorted allowed := ⟨implSorted.varMap⟩
    have negated := sound _ .bool (.not subconstraint) negation pushedSorted firstSorted visited
    have nextSorted :
        ((impl.pushLiteral subconstraint).pushLiteral (.not negation)).Sorted allowed :=
      ⟨implSorted.varMap⟩
    obtain ⟨resultSorted, resultHolds⟩ := ih nextSorted restSorted run
    refine ⟨resultSorted, fun agrees holds => ?_⟩
    obtain ⟨firstHolds, restHolds⟩ := List.forall_mem_cons.mp holds
    have pushedAgrees := pushLiteral_holdsAt agrees firstHolds
    exact resultHolds
      (pushLiteral_holdsAt pushedAgrees (holds_not_of_simplified pushedAgrees negated firstHolds))
      restHolds

theorem enterConstraint_sound (freshSound : fresh.Sound allowed interp env)
    (sound : visit.Sound allowed interp env) {constraint : PrimExpr} {result : Impl}
    (implSorted : impl.Sorted allowed) (sorted : WellSorted allowed .bool constraint = true)
    (run : enterConstraint visit fresh fuel impl constraint = some result) :
    result.Sorted allowed ∧
      (impl.HoldsAt allowed interp env → constraint.Holds interp env →
        result.HoldsAt allowed interp env) := by
  simp only [enterConstraint, Option.bind_eq_bind, Option.bind_eq_some_iff] at run
  obtain ⟨newConstraint, visited, subconstraints, extracted, run⟩ := run
  have knownSorted : Impl.Sorted { impl with entered := impl.entered ++ [constraint] } allowed :=
    ⟨implSorted.varMap⟩
  have simplified := sound _ .bool constraint newConstraint knownSorted sorted visited
  obtain ⟨subSorted, subHolds⟩ :=
    extractConstraints_sound freshSound sound simplified.sorted extracted
  obtain ⟨resultSorted, resultHolds⟩ := pushConstraints_sound sound knownSorted subSorted run
  refine ⟨resultSorted, fun agrees holds => ?_⟩
  have known : Impl.HoldsAt { impl with entered := impl.entered ++ [constraint] } allowed interp
      env := by
    refine ⟨agrees.analyses, agrees.varMap, ?_, agrees.literalConstraints⟩
    simp only [List.forall_mem_append, List.forall_mem_singleton]
    exact ⟨agrees.entered, holds⟩
  exact resultHolds known (subHolds (simplified.holds known holds))

theorem visitSelect_sound (freshSound : fresh.Sound allowed interp env)
    (sound : visit.Sound allowed interp env) {c t f : PrimExpr} (implSorted : impl.Sorted allowed)
    (sorted : WellSorted allowed sort (.select c t f) = true)
    (run : visitSelect visit fresh fuel impl c t f = some r) :
    Simplified allowed interp env impl sort (.select c t f) r := by
  simp only [visitSelect, Option.bind_eq_bind, Option.bind_eq_some_iff, Option.some.injEq] at run
  obtain ⟨cond, condRun, whenTrue, trueEntered, trueValue, trueRun, negated, negatedRun, whenFalse,
    falseEntered, falseValue, falseRun, rfl⟩ := run
  simp only [WellSorted, Bool.and_eq_true] at sorted
  obtain ⟨⟨cSorted, tSorted⟩, fSorted⟩ := sorted
  have condSound := sound impl .bool c cond implSorted cSorted condRun
  have negatedSound := rewriteSimplify_sound sound implSorted
    (show WellSorted allowed .bool (.not cond) = true from condSound.sorted) negatedRun
  obtain ⟨trueSorted, trueHolds⟩ :=
    enterConstraint_sound freshSound sound implSorted condSound.sorted trueEntered
  obtain ⟨falseSorted, falseHolds⟩ :=
    enterConstraint_sound freshSound sound implSorted negatedSound.sorted falseEntered
  have trueSound := sound whenTrue sort t trueValue trueSorted tSorted trueRun
  have falseSound := sound whenFalse sort f falseValue falseSorted fSorted falseRun
  constructor
  · split
    · exact falseSound.sorted
    split
    · exact trueSound.sorted
    · simp only [WellSorted, condSound.sorted, trueSound.sorted, falseSound.sorted, Bool.and_self]
  · intro agrees v evaluates
    rw [PrimExpr.eval, Option.bind_eq_some_iff] at evaluates
    obtain ⟨chosen, chosenIs, evaluates⟩ := evaluates
    have condIs := condSound.value agrees chosen chosenIs
    split at evaluates
    · rename_i nonzero
      have value := trueSound.value (trueHolds agrees ⟨chosen, condIs, nonzero⟩) v evaluates
      split
      · rename_i isZero
        rw [isZero, PrimExpr.eval, Option.some.injEq] at condIs
        exact absurd condIs.symm nonzero
      split
      · exact value
      · rw [PrimExpr.eval, condIs, Option.bind_some, if_pos nonzero, value]
    · rename_i isZero
      rw [not_not] at isZero
      subst isZero
      have value := falseSound.value (falseHolds agrees
        (negatedSound.holds agrees (holds_not_of_eval condIs))) v evaluates
      split
      · exact value
      split
      · rename_i isOne
        rw [isOne, PrimExpr.eval, Option.some.injEq] at condIs
        cases condIs
      · rw [PrimExpr.eval, condIs, Option.bind_some, if_neg (not_not.mpr rfl), value]

theorem visit_sound_of_eval (sound : visit.Sound allowed interp env)
    (implSorted : impl.Sorted allowed) {other : PrimExpr}
    (sorted : WellSorted allowed sort other = true) (run : visit impl other = some r)
    (same : ∀ v, e.eval interp env = some v → other.eval interp env = some v) :
    Simplified allowed interp env impl sort e r := by
  have visited := sound impl sort other r implSorted sorted run
  exact ⟨visited.sorted, fun agrees v evaluates => visited.value agrees v (same v evaluates)⟩

theorem makeBinary_permitted {op : BinOp} {a b : PrimExpr}
    (base : ∀ op, op.floorFragment = true → allowed op = true) (inBase : op.floorFragment = true)
    (operands : op.operandSort = .int) (made : makeBinary op a b = some r)
    (aSorted : WellSorted allowed .int a = true) (bSorted : WellSorted allowed .int b = true) :
    WellSorted allowed op.resultSort r = true := by
  refine makeBinary_sorted made (base op inBase) ?_ ?_
  · rwa [operands]
  · rwa [operands]

theorem visitNode_sound {permits : Impl → Firing → Bool} (closed : Closed allowed)
    (guards : Guards permits allowed interp env) (freshSound : fresh.Sound allowed interp env)
    (sound : visit.Sound allowed interp env) (implSorted : impl.Sorted allowed)
    (sorted : WellSorted allowed sort e = true)
    (run : visitNode visit fresh fuel permits impl e = some r) :
    Simplified allowed interp env impl sort e r := by
  rw [visitNode.eq_def] at run
  split at run
  · rename_i v
    cases run
    cases sort with
    | int =>
      cases bound : impl.varMap v with
      | none => exact .refl sorted
      | some info =>
        refine ⟨implSorted.varMap v info bound, fun agrees value evaluates => ?_⟩
        rw [PrimExpr.eval, Option.some.injEq] at evaluates
        rw [Option.getD_some, agrees.varMap v info bound, evaluates]
    | bool => cases sorted
  · cases run
    exact .refl sorted
  · rename_i a b
    obtain ⟨rfl, aSorted, bSorted⟩ := operands_sorted sorted
    obtain ⟨equal, made, run⟩ := Option.bind_eq_some_iff.mp run
    have equalSorted := makeBinary_permitted closed.base rfl rfl made aSorted bSorted
    refine visit_sound_of_eval sound implSorted
      (show WellSorted allowed .bool (.not equal) = true from equalSorted) run fun v evaluates => ?_
    simp only [PrimExpr.eval, Option.bind_eq_some_iff, BinOp.eval, Option.some.injEq] at evaluates
    obtain ⟨x, xIs, y, yIs, rfl⟩ := evaluates
    rw [PrimExpr.eval, makeBinary_int made rfl xIs yIs rfl, Option.map_some]
    simp
  · rename_i a b
    obtain ⟨rfl, aSorted, bSorted⟩ := operands_sorted sorted
    obtain ⟨less, made, run⟩ := Option.bind_eq_some_iff.mp run
    have lessSorted := makeBinary_permitted closed.base rfl rfl made bSorted aSorted
    refine visit_sound_of_eval sound implSorted
      (show WellSorted allowed .bool (.not less) = true from lessSorted) run fun v evaluates => ?_
    simp only [PrimExpr.eval, Option.bind_eq_some_iff, BinOp.eval, Option.some.injEq] at evaluates
    obtain ⟨x, xIs, y, yIs, rfl⟩ := evaluates
    rw [PrimExpr.eval, makeBinary_int made rfl yIs xIs rfl, Option.map_some]
    simp
  · rename_i a b
    obtain ⟨rfl, aSorted, bSorted⟩ := operands_sorted sorted
    obtain ⟨less, made, run⟩ := Option.bind_eq_some_iff.mp run
    have lessSorted := makeBinary_permitted closed.base rfl rfl made bSorted aSorted
    refine visit_sound_of_eval sound implSorted lessSorted run fun v evaluates => ?_
    simp only [PrimExpr.eval, Option.bind_eq_some_iff, BinOp.eval, Option.some.injEq] at evaluates
    obtain ⟨x, xIs, y, yIs, rfl⟩ := evaluates
    exact makeBinary_int made rfl yIs xIs rfl
  · rename_i a b
    obtain ⟨rfl, aSorted, bSorted⟩ := operands_sorted sorted
    obtain ⟨less, made, run⟩ := Option.bind_eq_some_iff.mp run
    have lessSorted := makeBinary_permitted closed.base rfl rfl made aSorted bSorted
    refine visit_sound_of_eval sound implSorted
      (show WellSorted allowed .bool (.not less) = true from lessSorted) run fun v evaluates => ?_
    simp only [PrimExpr.eval, Option.bind_eq_some_iff, BinOp.eval, Option.some.injEq] at evaluates
    obtain ⟨x, xIs, y, yIs, rfl⟩ := evaluates
    rw [PrimExpr.eval, makeBinary_int made rfl xIs yIs rfl, Option.map_some]
    simp
  · cases run
  · cases run
  · cases run
  · rename_i op a b _ _ _ _ _ _ _
    have permitted : allowed op = true := by
      simp only [WellSorted, Bool.and_eq_true] at sorted
      exact sorted.1.1.1
    obtain ⟨rfl, aSorted, bSorted⟩ := operands_sorted sorted
    simp only [Option.bind_eq_bind, Option.bind_eq_some_iff] at run
    obtain ⟨a', aRun, b', bRun, run⟩ := run
    have aSound := sound impl _ a a' implSorted aSorted aRun
    have bSound := sound impl _ b b' implSorted bSorted bRun
    have operands : Simplified allowed interp env impl op.resultSort (.binary op a b)
        (.binary op a' b') := by
      constructor
      · simp only [WellSorted, permitted, aSound.sorted, bSound.sorted, beq_self_eq_true,
          Bool.and_self]
      · intro agrees v evaluates
        simp only [PrimExpr.eval, Option.bind_eq_some_iff] at evaluates
        obtain ⟨x, xIs, y, yIs, evaluates⟩ := evaluates
        rw [PrimExpr.eval, aSound.value agrees x xIs, bSound.value agrees y yIs, Option.bind_some,
          Option.bind_some, evaluates]
    exact operands.trans (rewriteNode_sound closed.base guards sound implSorted (Or.inl ⟨op, rfl⟩)
      (closed.binary_fit op) operands.sorted run)
  · rename_i a
    cases sort with
    | int => cases sorted
    | bool =>
      obtain ⟨a', aRun, run⟩ := Option.bind_eq_some_iff.mp run
      have aSound := sound impl .bool a a' implSorted sorted aRun
      have operand : Simplified allowed interp env impl .bool (.not a) (.not a') := by
        refine ⟨aSound.sorted, fun agrees v evaluates => ?_⟩
        obtain ⟨x, xIs, rfl⟩ := Option.map_eq_some_iff.mp evaluates
        rw [PrimExpr.eval, aSound.value agrees x xIs, Option.map_some]
      exact operand.trans (rewriteNode_sound closed.base guards sound implSorted
        (Or.inr (Or.inl rfl)) closed.not_fit operand.sorted run)
  · rename_i condition trueValue falseValue
    obtain ⟨ret, selectRun, run⟩ := Option.bind_eq_some_iff.mp run
    have selected := visitSelect_sound freshSound sound implSorted sorted selectRun
    exact selected.trans (rewriteNode_sound closed.base guards sound implSorted
      (Or.inr (Or.inr rfl)) closed.select_fit selected.sorted run)
  · cases run

theorem visitExpr_sound {permits : Impl → Firing → Bool} (closed : Closed allowed)
    (guards : Guards permits allowed interp env) (freshSound : fresh.Sound allowed interp env) :
    (visitExpr fresh permits fuel).Sound allowed interp env := by
  induction fuel with
  | zero =>
    intro impl sort e r _ _ run
    cases run
  | succ fuel ih =>
    intro impl sort e r implSorted sorted run
    exact visitNode_sound closed guards freshSound ih implSorted sorted run

end Steps

end Tvm.Arith
