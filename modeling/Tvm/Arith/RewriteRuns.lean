import Tvm.Arith.RewriteSimplify
import Tvm.Lib.Extends

/-!
# Runs with more fuel and fewer guards

A visit that returns returns the same with more fuel and under a guard that permits more, so a
guarded run that returns is the run of the simplifier.
-/

namespace Tvm.Arith

open Tvm.Lib

/-- The answers of the second are those of the first wherever the first has one. -/
structure Queries.Extends (first second : Queries) : Prop where
  canProveGreaterEqual : ∀ e n,
    Lib.Extends (first.canProveGreaterEqual e n) (second.canProveGreaterEqual e n)
  canProveLess : ∀ e n, Lib.Extends (first.canProveLess e n) (second.canProveLess e n)
  tryCompare : ∀ e n, Lib.Extends (first.tryCompare e n) (second.tryCompare e n)
  constIntBound : first.constIntBound = second.constIntBound
  modularSet : first.modularSet = second.modularSet
  literalConstraints : first.literalConstraints = second.literalConstraints

section Stages

variable {first second : Queries} {bindings : Bindings} {e : PrimExpr}

theorem Query.ask_extends (extended : first.Extends second) (query : Query) :
    Extends (query.ask first bindings) (query.ask second bindings) := by
  cases query with
  | canProveGreaterEqual e bound =>
    exact (Extends.refl _).bind fun x => extended.canProveGreaterEqual x _
  | canProveEqualZero e =>
    exact (Extends.refl _).bind fun x => (extended.tryCompare x 0).map

theorem askAll_extends (extended : first.Extends second) (asked : List Query) :
    Extends (askAll first bindings asked) (askAll second bindings asked) := by
  induction asked with
  | nil => exact .refl _
  | cons query rest ih =>
    exact (query.ask_extends extended).bind fun _ => .ite ih (.refl _)

theorem Rule.tryRule_extends (extended : first.Extends second) (rule : Rule) :
    Extends (rule.tryRule first e) (rule.tryRule second e) := by
  rw [tryRule, tryRule]
  cases rule.source.matchExpr e Bindings.empty with
  | none => exact .refl _
  | some bindings =>
    exact .ite ((askAll_extends extended rule.queries).bind fun _ => .refl _) (.refl _)

theorem tryRules_extends (extended : first.Extends second) (rules : List Rule) :
    Extends (tryRules first rules e) (tryRules second rules e) := by
  induction rules with
  | nil => exact .refl _
  | cons rule rest ih =>
    refine (rule.tryRule_extends extended).bind fun fired => ?_
    cases fired with
    | none => exact ih
    | some firing => exact .refl _

theorem modularAnalysis_extends (extended : first.Extends second) :
    Extends (modularAnalysis first e) (modularAnalysis second e) := by
  rw [modularAnalysis.eq_def, modularAnalysis.eq_def, extended.modularSet]
  split
  · exact .ite ((extended.canProveGreaterEqual _ _).bind fun _ => .refl _) (.refl _)
  · exact .refl _
  · exact .refl _

theorem yDiv_extends (extended : first.Extends second) (y : PrimExpr) (c2 : Int) :
    Extends (yDiv first y c2) (yDiv second y c2) :=
  (Extends.refl _).bind fun quotient => ((extended.tryCompare quotient 0).map).bind fun _ => .refl _

theorem simplifyDivisor_extends (extended : first.Extends second) (sum : ScaledSum) (c2 : Int)
    (d : PrimExpr) :
    Extends (simplifyDivisor first sum c2 d) (simplifyDivisor second sum c2 d) :=
  .ite ((Extends.refl _).bind fun rest => (extended.canProveLess rest _).bind fun _ => .refl _)
    (.refl _)

theorem floorDivParts_extends (extended : first.Extends second) :
    Extends (floorDivParts first e) (floorDivParts second e) := by
  rw [floorDivParts.eq_def, floorDivParts.eq_def, extended.constIntBound]
  split
  · rename_i a c2
    cases scaledSum a with
    | none => exact .refl _
    | some sum =>
      refine .ite (.refl _) ((Extends.refl _).bind fun residue =>
        (yDiv_extends extended sum.y c2).bind fun d => ?_)
      split
      · exact .refl _
      · exact simplifyDivisor_extends extended sum c2 d
  · exact .refl _

theorem constBounds_eq (extended : first.Extends second) :
    constBounds first e = constBounds second e := by
  rw [constBounds.eq_def, constBounds.eq_def, extended.constIntBound]

theorem compareOperands_extends (extended : first.Extends second) :
    Extends (compareOperands first e) (compareOperands second e) := by
  rw [compareOperands.eq_def, compareOperands.eq_def]
  split
  · exact (Extends.refl _).bind fun difference =>
      (extended.tryCompare difference 0).bind fun _ => .refl _
  · exact (Extends.refl _).bind fun difference =>
      (extended.tryCompare difference 0).bind fun _ => .refl _
  · exact .refl _

theorem Stage.run_extends (extended : first.Extends second) (stage : Stage) :
    Extends (stage.run first e) (stage.run second e) := by
  cases stage with
  | constFold => exact .refl _
  | literalConstraint =>
    rw [Stage.run, Stage.run, extended.literalConstraints]
    exact .refl _
  | modularAnalysis => exact (modularAnalysis_extends extended).map
  | floorDivParts => exact (floorDivParts_extends extended).map
  | constBounds =>
    rw [Stage.run, Stage.run, constBounds_eq extended]
    exact .refl _
  | compareOperands => exact (compareOperands_extends extended).map
  | table rules => exact tryRules_extends extended rules

theorem runStages_extends (extended : first.Extends second) (stages : List Stage) :
    Extends (runStages first e stages) (runStages second e stages) := by
  induction stages with
  | nil => exact .refl _
  | cons stage rest ih =>
    refine (stage.run_extends extended).bind fun fired => ?_
    cases fired with
    | none => exact ih
    | some firing => exact .refl _

end Stages

def Visit.Extends (visit visit' : Visit) : Prop :=
  ∀ impl e, Lib.Extends (visit impl e) (visit' impl e)

section Visits

variable {visit visit' : Visit} {permits permits' : Impl → Firing → Bool} {impl : Impl}
  {e : PrimExpr} {fresh : SubAnalyses} {fuel fuel' : Nat}

theorem rewriteSimplify_extends (extended : visit.Extends visit') (impl : Impl) (e : PrimExpr) :
    Extends (rewriteSimplify visit impl e) (rewriteSimplify visit' impl e) :=
  (extended impl e).bind fun first => .ite (.refl _) (extended impl first)

theorem Impl.queries_extends (extended : visit.Extends visit') (impl : Impl) :
    (impl.queries visit).Extends (impl.queries visit') where
  canProveGreaterEqual e n := by
    simp only [Impl.queries, canProveGreaterEqual.eq_def]
    split
    · exact .refl _
    · exact (rewriteSimplify_extends extended impl e).map
  canProveLess e n := by
    simp only [Impl.queries, canProveLess.eq_def]
    split
    · exact .refl _
    · exact (rewriteSimplify_extends extended impl e).map
  tryCompare e n := (extended impl e).map
  constIntBound := rfl
  modularSet := rfl
  literalConstraints := rfl

theorem recursiveRewrite_extends (extended : visit.Extends visit') (impl : Impl) (x : PrimExpr) :
    Extends (recursiveRewrite visit impl x) (recursiveRewrite visit' impl x) :=
  .ite (.refl _) (extended _ x)

theorem rewriteNode_extends (extended : visit.Extends visit')
    (weaker : ∀ impl firing, permits impl firing = true → permits' impl firing = true)
    (impl : Impl) (e : PrimExpr) (stages : List Stage) :
    Extends (rewriteNode visit permits impl e stages)
      (rewriteNode visit' permits' impl e stages) := by
  refine (runStages_extends (impl.queries_extends extended) stages).bind fun fired => ?_
  cases fired with
  | none => exact .refl _
  | some firing =>
    dsimp only
    cases permitted : permits impl firing with
    | false => exact .none
    | true =>
      rw [weaker impl firing permitted]
      exact .ite (.ite (recursiveRewrite_extends extended impl firing.result) (.refl _))
        (.refl _)

theorem collectConstraints_extends {simplify simplify' : PrimExpr → Option PrimExpr}
    (extended : ∀ e, Extends (simplify e) (simplify' e)) (enough : fuel ≤ fuel') (e : PrimExpr) :
    Extends (collectConstraints simplify fuel e) (collectConstraints simplify' fuel' e) := by
  induction fuel generalizing e fuel' with
  | zero => exact .none
  | succ fuel ih =>
    cases fuel' with
    | zero => cases enough
    | succ fuel' =>
      have collected := fun e => ih (Nat.le_of_succ_le_succ enough) e
      rw [collectConstraints.eq_def, collectConstraints.eq_def simplify']
      dsimp only
      split
      · exact (collected _).bind fun _ => (collected _).bind fun _ => .refl _
      · exact (extended _).bind fun notX => (collected notX).bind fun _ =>
          (extended _).bind fun notY => (collected notY).bind fun _ => .refl _
      · exact .refl _

theorem pushConstraints_extends (extended : visit.Extends visit') (impl : Impl)
    (subconstraints : List PrimExpr) :
    Extends (pushConstraints visit impl subconstraints)
      (pushConstraints visit' impl subconstraints) := by
  induction subconstraints generalizing impl with
  | nil => exact .refl _
  | cons subconstraint rest ih =>
    exact (extended _ _).bind fun negation => ih _

theorem enterConstraint_extends (extended : visit.Extends visit') (enough : fuel ≤ fuel')
    (impl : Impl) (constraint : PrimExpr) :
    Extends (enterConstraint visit fresh fuel impl constraint)
      (enterConstraint visit' fresh fuel' impl constraint) :=
  (extended _ constraint).bind fun newConstraint =>
    (collectConstraints_extends (rewriteSimplify_extends extended _) enough newConstraint).bind
      fun subconstraints => pushConstraints_extends extended _ subconstraints

theorem visitSelect_extends (extended : visit.Extends visit') (enough : fuel ≤ fuel')
    (impl : Impl) (c t f : PrimExpr) :
    Extends (visitSelect visit fresh fuel impl c t f)
      (visitSelect visit' fresh fuel' impl c t f) :=
  (extended impl c).bind fun cond =>
    (enterConstraint_extends extended enough impl cond).bind fun whenTrue =>
      (extended whenTrue t).bind fun _ =>
        (rewriteSimplify_extends extended impl (.not cond)).bind fun negated =>
          (enterConstraint_extends extended enough impl negated).bind fun whenFalse =>
            (extended whenFalse f).bind fun _ => .refl _

theorem visitNode_extends (extended : visit.Extends visit') (enough : fuel ≤ fuel')
    (weaker : ∀ impl firing, permits impl firing = true → permits' impl firing = true)
    (impl : Impl) (e : PrimExpr) :
    Extends (visitNode visit fresh fuel permits impl e)
      (visitNode visit' fresh fuel' permits' impl e) := by
  rw [visitNode.eq_def, visitNode.eq_def visit']
  split
  · exact .refl _
  · exact .refl _
  · exact (Extends.refl _).bind fun _ => extended impl _
  · exact (Extends.refl _).bind fun _ => extended impl _
  · exact (Extends.refl _).bind fun _ => extended impl _
  · exact (Extends.refl _).bind fun _ => extended impl _
  · exact .refl _
  · exact .refl _
  · exact .refl _
  · exact (extended impl _).bind fun a => (extended impl _).bind fun b =>
      rewriteNode_extends extended weaker impl _ _
  · exact (extended impl _).bind fun a => rewriteNode_extends extended weaker impl _ _
  · exact (visitSelect_extends extended enough impl _ _ _).bind fun ret =>
      rewriteNode_extends extended weaker impl ret _
  · exact .refl _

theorem visitExpr_extends (enough : fuel ≤ fuel')
    (weaker : ∀ impl firing, permits impl firing = true → permits' impl firing = true) :
    Visit.Extends (visitExpr fresh permits fuel) (visitExpr fresh permits' fuel') := by
  induction fuel generalizing fuel' with
  | zero => exact fun _ _ => .none
  | succ fuel ih =>
    cases fuel' with
    | zero => cases enough
    | succ fuel' =>
      have smaller := Nat.le_of_succ_le_succ enough
      exact visitNode_extends (ih smaller) smaller weaker

theorem enterConstraints_extends (enough : fuel ≤ fuel')
    (weaker : ∀ impl firing, permits impl firing = true → permits' impl firing = true)
    (impl : Impl) (constraints : List PrimExpr) :
    Extends (enterConstraints fresh permits fuel impl constraints)
      (enterConstraints fresh permits' fuel' impl constraints) := by
  induction constraints generalizing impl with
  | nil => exact .refl _
  | cons constraint rest ih =>
    exact (enterConstraint_extends (visitExpr_extends enough weaker) enough impl constraint).bind
      fun entered => ih entered

theorem canProve_extends {canonicalSimplify : Impl → PrimExpr → Option PrimExpr}
    (enough : fuel ≤ fuel')
    (weaker : ∀ impl firing, permits impl firing = true → permits' impl firing = true)
    (impl : Impl) (e : PrimExpr) :
    Extends (canProve fresh permits canonicalSimplify fuel impl e)
      (canProve fresh permits' canonicalSimplify fuel' impl e) := by
  rw [canProve.eq_def, canProve.eq_def fresh permits']
  split
  · exact .refl _
  · exact (rewriteSimplify_extends (visitExpr_extends enough weaker) impl e).bind fun _ => .refl _

end Visits

end Tvm.Arith
