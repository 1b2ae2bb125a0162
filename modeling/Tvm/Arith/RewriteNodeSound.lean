import Tvm.Arith.ModularSetSound
import Tvm.Arith.RewriteNode
import Tvm.Arith.RewriteRulesDivSound
import Tvm.Arith.RewriteRulesLogicSound
import Tvm.Arith.RewriteRulesMinMaxSound

/-!
# Soundness of rewriting one node

At an assignment where the answers of the analyzer are true, a rewritten node has a value
wherever the node has one, and it is the same value exactly where the rule that fired keeps it.
-/

namespace Tvm.Arith

open Tvm.Lib

def CompareResult.Says (value val : Int) : CompareResult → Prop
  | .kUnknown => True
  | .kEQ => value = val
  | .kGT => val < value
  | .kGE => val ≤ value
  | .kLT => value < val
  | .kLE => value ≤ val
  | .kNE => value ≠ val

def PrimExpr.Holds (interp : Nat → Env → Option Int) (env : Env) (e : PrimExpr) : Prop :=
  ∃ v, e.eval interp env = some v ∧ v ≠ 0

structure Queries.Sound (queries : Queries) (allowed : BinOp → Bool)
    (interp : Nat → Env → Option Int) (env : Env) : Prop where
  canProveGreaterEqual : ∀ e n v, WellSorted allowed .int e = true →
    queries.canProveGreaterEqual e n = some true → e.eval interp env = some v → n ≤ v
  canProveLess : ∀ e n v, WellSorted allowed .int e = true →
    queries.canProveLess e n = some true → e.eval interp env = some v → v < n
  tryCompare : ∀ e n v result, WellSorted allowed .int e = true →
    queries.tryCompare e n = some result → e.eval interp env = some v → result.Says v n
  constIntBound : ∀ e v, WellSorted allowed .int e = true →
    e.eval interp env = some v → (queries.constIntBound e).Contains v
  modularSet : ∀ e v, WellSorted allowed .int e = true →
    e.eval interp env = some v → (queries.modularSet e).Contains v
  literalConstraints : ∀ e ∈ queries.literalConstraints, e.Holds interp env

/-- The rule that fired keeps the value at the assignment. -/
def Firing.meets (interp : Nat → Env → Option Int) (env : Env) : Firing → Bool
  | .rule fired bindings _ => fired.meets (bindings.values interp env) bindings.consts
  | _ => true

/-- The operators that rewriting introduces by itself. -/
def BinOp.floorFragment : BinOp → Bool
  | .add | .sub | .mul | .floorDiv | .floorMod => true
  | .eq | .ne | .lt | .le | .gt | .ge | .and | .or => true
  | _ => false

def Query.closed (allowed : BinOp → Bool) (occurrences : List (PVar × ExprSort)) : Query → Bool
  | .canProveGreaterEqual e _ | .canProveEqualZero e =>
    e.wellSorted allowed .int && (e.occurs .int).all (occurrences.contains ·)

/-- Where the source matches an expression of the allowed operators, the result and the queries
are such expressions. -/
def Rule.closed (allowed : BinOp → Bool) (sort : ExprSort) (rule : Rule) : Bool :=
  !rule.source.opsAllowed allowed ||
    rule.result.wellSorted allowed sort &&
      (rule.result.occurs sort).all ((rule.source.occurs sort).contains ·) &&
      rule.queries.all (Query.closed allowed (rule.source.occurs sort))

section Tables

variable {allowed : BinOp → Bool} {interp : Nat → Env → Option Int} {env : Env}
  {queries : Queries} {sort : ExprSort} {bindings : Bindings}

theorem bound_of_all {occurrences wanted : List (PVar × ExprSort)}
    (bound : Pat.Bound allowed bindings occurrences)
    (all : wanted.all (occurrences.contains ·) = true) : Pat.Bound allowed bindings wanted := by
  intro v sort member
  exact bound v sort (List.contains_iff_mem.mp (List.all_eq_true.mp all _ member))

theorem Query.ask_sound {query : Query} {occurrences : List (PVar × ExprSort)}
    (sound : queries.Sound allowed interp env) (bound : Pat.Bound allowed bindings occurrences)
    (closed : query.closed allowed occurrences = true)
    (asked : query.ask queries bindings = some true) :
    query.Holds (bindings.values interp env) bindings.consts := by
  cases query with
  | canProveGreaterEqual e least =>
    obtain ⟨sorted, occurs⟩ := Bool.and_eq_true_iff.mp closed
    obtain ⟨x, built, proved⟩ := Option.bind_eq_some_iff.mp asked
    obtain ⟨xSorted, value⟩ := Pat.eval_sound sorted (bound_of_all bound occurs) built
    intro v denotes
    exact sound.canProveGreaterEqual x _ v xSorted proved (value v denotes)
  | canProveEqualZero e =>
    obtain ⟨sorted, occurs⟩ := Bool.and_eq_true_iff.mp closed
    obtain ⟨x, built, proved⟩ := Option.bind_eq_some_iff.mp asked
    obtain ⟨xSorted, value⟩ := Pat.eval_sound sorted (bound_of_all bound occurs) built
    obtain ⟨result, compared, isEqual⟩ := Option.map_eq_some_iff.mp proved
    intro v denotes
    have meaning := sound.tryCompare x 0 v result xSorted compared (value v denotes)
    rwa [beq_iff_eq.mp isEqual] at meaning

theorem askAll_sound {asked : List Query} {occurrences : List (PVar × ExprSort)}
    (sound : queries.Sound allowed interp env) (bound : Pat.Bound allowed bindings occurrences)
    (closed : asked.all (Query.closed allowed occurrences) = true)
    (proved : askAll queries bindings asked = some true) :
    ∀ query ∈ asked, query.Holds (bindings.values interp env) bindings.consts := by
  induction asked with
  | nil =>
    intro query member
    cases member
  | cons first rest ih =>
    obtain ⟨firstClosed, restClosed⟩ := Bool.and_eq_true_iff.mp closed
    obtain ⟨answer, firstAsked, restProved⟩ := Option.bind_eq_some_iff.mp proved
    cases answer with
    | false => cases restProved
    | true =>
      intro query member
      rcases List.mem_cons.mp member with rfl | member
      · exact Query.ask_sound sound bound firstClosed firstAsked
      · exact ih restClosed restProved query member

theorem truthful_of_bound {rule : Rule} (bound : Pat.Bound allowed bindings (rule.source.occurs sort)) :
    rule.Truthful sort (bindings.values interp env) := by
  intro v n member value
  obtain ⟨e, found, sorted⟩ := bound v .bool member
  rw [Bindings.values, found, Option.bind_some] at value
  exact eval_truth sorted value

theorem Rule.tryRule_cases {rule : Rule} {e : PrimExpr} {firing : Firing}
    (run : rule.tryRule queries e = some (some firing)) :
    ∃ bindings result, rule.source.matchExpr e Bindings.empty = some bindings ∧
      rule.cond bindings.consts = true ∧ askAll queries bindings rule.queries = some true ∧
      rule.result.eval bindings = some result ∧ firing = .rule rule bindings result := by
  rw [tryRule] at run
  split at run
  · cases run
  · rename_i bindings matched
    split at run
    · rename_i cond
      obtain ⟨answer, asked, run⟩ := Option.bind_eq_some_iff.mp run
      cases answer with
      | false => cases run
      | true =>
        obtain ⟨result, built, firingIs⟩ := Option.map_eq_some_iff.mp run
        exact ⟨bindings, result, matched, cond, asked, built, (Option.some.inj firingIs).symm⟩
    · cases run

variable {rule : Rule} {e : PrimExpr} {firing : Firing} {v : Int}

theorem Rule.tryRule_sorted (closed : rule.closed allowed sort = true)
    (sorted : WellSorted allowed sort e = true)
    (run : rule.tryRule queries e = some (some firing)) :
    WellSorted allowed sort firing.result = true := by
  obtain ⟨bindings, result, matched, -, -, built, rfl⟩ := tryRule_cases run
  obtain ⟨bound, permitted⟩ := Pat.bound_of_matchExpr sorted matched
  simp only [Rule.closed, permitted, Bool.not_true, Bool.false_or, Bool.and_eq_true] at closed
  exact Pat.eval_sorted closed.1.1 (bound_of_all bound closed.1.2) built

theorem Rule.tryRule_exact (exact : rule.Exact sort) (closed : rule.closed allowed sort = true)
    (sound : queries.Sound allowed interp env) (sorted : WellSorted allowed sort e = true)
    (run : rule.tryRule queries e = some (some firing)) (evaluates : e.eval interp env = some v) :
    ∃ w, firing.result.eval interp env = some w ∧ (w = v ↔ firing.meets interp env = true) := by
  obtain ⟨bindings, result, matched, cond, asked, built, rfl⟩ := tryRule_cases run
  obtain ⟨bound, permitted⟩ := Pat.bound_of_matchExpr sorted matched
  simp only [Rule.closed, permitted, Bool.not_true, Bool.false_or, Bool.and_eq_true] at closed
  have denotes : rule.source.denote (bindings.values interp env) bindings.consts =
      e.eval interp env := Pat.denote_of_matchExpr matched (.refl bindings)
  have admits : rule.Admits sort (bindings.values interp env) bindings.consts :=
    ⟨cond, askAll_sound sound bound closed.2 asked, truthful_of_bound bound⟩
  obtain ⟨w, resultDenotes, same⟩ := exact _ _ v admits (denotes.trans evaluates)
  obtain ⟨-, value⟩ := Pat.eval_sound closed.1.1 (bound_of_all bound closed.1.2) built
  exact ⟨w, value w resultDenotes, same⟩

theorem tryRules_fires {rules : List Rule}
    (run : tryRules queries rules e = some (some firing)) :
    ∃ rule ∈ rules, rule.tryRule queries e = some (some firing) := by
  induction rules with
  | nil => cases run
  | cons first rest ih =>
    obtain ⟨fired, firstRun, run⟩ := Option.bind_eq_some_iff.mp run
    cases fired with
    | none =>
      obtain ⟨rule, member, fires⟩ := ih run
      exact ⟨rule, List.mem_cons_of_mem _ member, fires⟩
    | some found =>
      cases run
      exact ⟨first, List.mem_cons_self, firstRun⟩

end Tables

section Analyses

variable {allowed : BinOp → Bool} {interp : Nat → Env → Option Int} {env : Env}
  {queries : Queries} {sort : ExprSort} {e a b r : PrimExpr} {x y v : Int}

theorem operands_sorted {op : BinOp} (sorted : WellSorted allowed sort (.binary op a b) = true) :
    op.resultSort = sort ∧ WellSorted allowed op.operandSort a = true ∧
      WellSorted allowed op.operandSort b = true := by
  simp only [WellSorted, Bool.and_eq_true, beq_iff_eq] at sorted
  exact ⟨sorted.1.1.2, sorted.1.2, sorted.2⟩

theorem makeBinary_int {op : BinOp} (made : makeBinary op a b = some r)
    (operands : op.operandSort = .int) (left : a.eval interp env = some x)
    (right : b.eval interp env = some y) (evaluates : op.eval x y = some v) :
    r.eval interp env = some v := by
  refine makeBinary_sound made left right ?_ evaluates
  intro logical
  rw [operands] at logical
  cases logical

theorem tryMatchLiteralConstraint_sound {constraints : List PrimExpr}
    (true_constraints : ∀ constraint ∈ constraints, constraint.Holds interp env)
    (truthValue : v = 0 ∨ v = 1) (evaluates : e.eval interp env = some v)
    (matched : tryMatchLiteralConstraint e constraints = some r) :
    r.eval interp env = some v := by
  induction constraints with
  | nil => cases matched
  | cons constraint rest ih =>
    obtain ⟨w, value, nonzero⟩ := true_constraints constraint List.mem_cons_self
    rw [tryMatchLiteralConstraint] at matched
    split at matched
    · rename_i same
      cases matched
      rw [same, evaluates] at value
      cases value
      rw [PrimExpr.eval, truthValue.resolve_left nonzero]
    · split at matched
      · rename_i negated
        cases matched
        rw [negated, PrimExpr.eval, evaluates] at value
        cases value
        rw [ne_eq, truth_eq_zero, not_not] at nonzero
        rw [PrimExpr.eval, nonzero]
      · exact ih
          (fun constraint member => true_constraints constraint (List.mem_cons_of_mem _ member))
          matched

theorem tryMatchLiteralConstraint_sorted {constraints : List PrimExpr}
    (matched : tryMatchLiteralConstraint e constraints = some r) :
    WellSorted allowed .bool r = true := by
  induction constraints with
  | nil => cases matched
  | cons constraint rest ih =>
    rw [tryMatchLiteralConstraint] at matched
    split at matched
    · cases matched
      rfl
    · split at matched
      · cases matched
        rfl
      · exact ih matched

theorem emod_of_contains {entry : ModularSet.Entry} {c : Int} (contains : entry.Contains v)
    (multiple : entry.coeff.tmod c = 0) : v % c = entry.base % c := by
  have congruent := ModularSet.Entry.contains_iff.mp contains
  exact congruent.of_dvd (Int.dvd_of_tmod_eq_zero multiple)

theorem base_nonneg {entry : ModularSet.Entry} (contains : entry.Contains v) (nonneg : 0 ≤ v) :
    0 ≤ entry.base := by
  rcases entry.coeff_nonneg.eq_or_lt with zero | positive
  · have congruent := ModularSet.Entry.contains_iff.mp contains
    rw [← zero, Int.modEq_zero_iff] at congruent
    exact congruent ▸ nonneg
  · exact (entry.base_range positive).1

theorem modularAnalysis_sound (sound : queries.Sound allowed interp env)
    (sorted : WellSorted allowed sort e = true)
    (run : modularAnalysis queries e = some (some r)) (evaluates : e.eval interp env = some v) :
    r.eval interp env = some v := by
  rw [modularAnalysis.eq_def] at run
  split at run
  · rename_i a c1
    split at run
    · rename_i guard
      obtain ⟨answer, proved, run⟩ := Option.bind_eq_some_iff.mp run
      cases answer with
      | false => cases run
      | true =>
        obtain ⟨built, made, builtIs⟩ := Option.map_eq_some_iff.mp run
        cases builtIs
        simp only [PrimExpr.eval, Option.bind_eq_some_iff, Option.some.injEq] at evaluates
        obtain ⟨x, xIs, _, rfl, evaluates⟩ := evaluates
        obtain ⟨-, aSorted, -⟩ := operands_sorted sorted
        have contains := sound.modularSet a x aSorted xIs
        have nonneg := sound.canProveGreaterEqual a 0 x aSorted proved xIs
        refine makeBinary_int made rfl rfl rfl ?_
        simp only [BinOp.eval, guard.2.ne', if_false] at evaluates ⊢
        rw [← evaluates, Int.tmod_eq_emod_of_nonneg nonneg,
          Int.tmod_eq_emod_of_nonneg (base_nonneg contains nonneg),
          emod_of_contains contains guard.1]
    · cases run
  · rename_i a c1
    split at run
    · rename_i guard
      obtain ⟨built, made, builtIs⟩ := Option.map_eq_some_iff.mp run
      cases builtIs
      simp only [PrimExpr.eval, Option.bind_eq_some_iff, Option.some.injEq] at evaluates
      obtain ⟨x, xIs, _, rfl, evaluates⟩ := evaluates
      obtain ⟨-, aSorted, -⟩ := operands_sorted sorted
      have contains := sound.modularSet a x aSorted xIs
      refine makeBinary_int made rfl rfl rfl ?_
      simp only [BinOp.eval, guard.2.ne', if_false] at evaluates ⊢
      rw [← evaluates, fmod_eq_emod guard.2, fmod_eq_emod guard.2,
        emod_of_contains contains guard.1]
    · cases run
  · cases run

theorem modularAnalysis_sorted (sorted : WellSorted allowed sort e = true)
    (run : modularAnalysis queries e = some (some r)) : WellSorted allowed sort r = true := by
  rw [modularAnalysis.eq_def] at run
  split at run
  · split at run
    · obtain ⟨answer, -, run⟩ := Option.bind_eq_some_iff.mp run
      cases answer with
      | false => cases run
      | true =>
        obtain ⟨built, made, builtIs⟩ := Option.map_eq_some_iff.mp run
        obtain ⟨n, -, rfl⟩ := makeBinary_literals made rfl
        cases builtIs
        obtain ⟨rfl, -, -⟩ := operands_sorted sorted
        rfl
    · cases run
  · split at run
    · obtain ⟨built, made, builtIs⟩ := Option.map_eq_some_iff.mp run
      obtain ⟨n, -, rfl⟩ := makeBinary_literals made rfl
      cases builtIs
      obtain ⟨rfl, -, -⟩ := operands_sorted sorted
      rfl
    · cases run
  · cases run

theorem scaledSum_sound {sum : ScaledSum} (found : scaledSum a = some sum)
    (evaluates : a.eval interp env = some v) :
    ∃ x y, sum.x.eval interp env = some x ∧ sum.y.eval interp env = some y ∧
      v = x * sum.c1 + y := by
  rw [scaledSum.eq_def] at found
  split at found
  all_goals cases found
  all_goals
    simp only [PrimExpr.eval, Option.bind_eq_some_iff, BinOp.eval, Option.some.injEq] at evaluates
  · obtain ⟨_, ⟨x, xIs, _, rfl, rfl⟩, y, yIs, rfl⟩ := evaluates
    exact ⟨x, y, xIs, yIs, rfl⟩
  · obtain ⟨x, xIs, _, rfl, rfl⟩ := evaluates
    exact ⟨x, 0, xIs, rfl, (add_zero _).symm⟩
  · obtain ⟨y, yIs, _, ⟨x, xIs, _, rfl, rfl⟩, rfl⟩ := evaluates
    exact ⟨x, y, xIs, yIs, add_comm _ _⟩

theorem scaledSum_sorted {sum : ScaledSum} (found : scaledSum a = some sum)
    (sorted : WellSorted allowed .int a = true) :
    WellSorted allowed .int sum.x = true ∧ WellSorted allowed .int sum.y = true := by
  rw [scaledSum.eq_def] at found
  split at found
  all_goals cases found
  all_goals
    simp only [WellSorted, Bool.and_eq_true, BinOp.operandSort] at sorted
  · exact ⟨sorted.1.2.1.2, sorted.2⟩
  · exact ⟨sorted.1.2, rfl⟩
  · exact ⟨sorted.2.1.2, sorted.1.2⟩

variable {sum : ScaledSum} {c2 : Int}

theorem residue_sound (run : residue sum c2 = some r) (nonzero : c2 ≠ 0)
    (xIs : sum.x.eval interp env = some x) (yIs : sum.y.eval interp env = some y) :
    r.eval interp env = some ((x * sum.c1.fmod c2 + y.fmod c2).fdiv c2) := by
  simp only [residue, Option.bind_eq_bind, Option.bind_eq_some_iff] at run
  obtain ⟨factor, factorIs, product, productIs, rest, restIs, dividend, dividendIs, made⟩ := run
  have remainder (n : Int) : BinOp.floorMod.eval n c2 = some (n.fmod c2) := if_neg nonzero
  have factorValue : factor.eval interp env = some (sum.c1.fmod c2) :=
    makeBinary_int factorIs rfl rfl rfl (remainder sum.c1)
  have productValue := makeBinary_int productIs rfl xIs factorValue rfl
  have restValue := makeBinary_int restIs rfl yIs rfl (remainder y)
  have dividendValue := makeBinary_int dividendIs rfl productValue restValue rfl
  exact makeBinary_int made rfl dividendValue rfl (if_neg nonzero)

theorem yDiv_sound {b : PrimExpr} (sound : queries.Sound allowed interp env)
    (permitted : allowed .floorDiv = true) (sorted : WellSorted allowed .int b = true)
    (run : yDiv queries b c2 = some r) (nonzero : c2 ≠ 0) (yIs : b.eval interp env = some y) :
    r.eval interp env = some (y.fdiv c2) := by
  simp only [yDiv, Option.bind_eq_bind, Option.bind_eq_some_iff, Option.some.injEq] at run
  obtain ⟨quotient, quotientIs, answer, asked, rfl⟩ := run
  have quotientSorted := makeBinary_sorted quotientIs permitted sorted rfl
  have quotientValue := makeBinary_int quotientIs rfl yIs rfl (if_neg nonzero)
  cases answer with
  | false => exact quotientValue
  | true =>
    obtain ⟨result, compared, isEqual⟩ := Option.map_eq_some_iff.mp asked
    have meaning := sound.tryCompare quotient 0 _ result quotientSorted compared quotientValue
    rw [beq_iff_eq.mp isEqual] at meaning
    rw [if_pos rfl, PrimExpr.eval, ← meaning]

theorem yDiv_sorted {b : PrimExpr} (permitted : allowed .floorDiv = true)
    (sorted : WellSorted allowed .int b = true) (run : yDiv queries b c2 = some r) :
    WellSorted allowed .int r = true := by
  simp only [yDiv, Option.bind_eq_bind, Option.bind_eq_some_iff, Option.some.injEq] at run
  obtain ⟨quotient, quotientIs, answer, -, rfl⟩ := run
  cases answer with
  | false => exact makeBinary_sorted quotientIs permitted sorted rfl
  | true => rfl

variable {bound : Int} {d : PrimExpr}

theorem eliminateResidue_sound (run : eliminateResidue sum c2 bound d = some r)
    (nonzero : c2 ≠ 0) (xIs : sum.x.eval interp env = some x)
    (yDivIs : d.eval interp env = some (y.fdiv c2))
    (boundIs : bound = (x * sum.c1.fmod c2 + y.fmod c2).fdiv c2) :
    r.eval interp env = some ((x * sum.c1 + y).fdiv c2) := by
  simp only [eliminateResidue, Option.bind_eq_bind, Option.bind_eq_some_iff] at run
  obtain ⟨factor, factorIs, product, productIs, rest, restIs, made⟩ := run
  have factorValue : factor.eval interp env = some (sum.c1.fdiv c2) :=
    makeBinary_int factorIs rfl rfl rfl (if_neg nonzero)
  have productValue := makeBinary_int productIs rfl xIs factorValue rfl
  have restValue := makeBinary_int restIs rfl yDivIs rfl rfl
  refine makeBinary_int made rfl productValue restValue ?_
  rw [fdiv_mul_add_residue nonzero, boundIs, BinOp.eval]

theorem eliminateResidue_sorted (base : ∀ op, op.floorFragment = true → allowed op = true)
    (run : eliminateResidue sum c2 bound d = some r)
    (xSorted : WellSorted allowed .int sum.x = true) (yDivSorted : WellSorted allowed .int d = true) :
    WellSorted allowed .int r = true := by
  simp only [eliminateResidue, Option.bind_eq_bind, Option.bind_eq_some_iff] at run
  obtain ⟨factor, factorIs, product, productIs, rest, restIs, made⟩ := run
  have factorSorted := makeBinary_sorted factorIs (base .floorDiv rfl) rfl rfl
  have productSorted := makeBinary_sorted productIs (base .mul rfl) xSorted factorSorted
  have restSorted := makeBinary_sorted restIs (base .add rfl) yDivSorted rfl
  exact makeBinary_sorted made (base .add rfl) productSorted restSorted

theorem simplifyDivisor_sound (sound : queries.Sound allowed interp env)
    (permitted : allowed .floorMod = true) (ySorted : WellSorted allowed .int sum.y = true)
    (run : simplifyDivisor queries sum c2 d = some (some r))
    (xIs : sum.x.eval interp env = some x) (yIs : sum.y.eval interp env = some y)
    (yDivIs : d.eval interp env = some (y.fdiv c2)) :
    r.eval interp env = some ((x * sum.c1 + y).fdiv c2) := by
  rw [simplifyDivisor] at run
  split at run
  · rename_i guard
    obtain ⟨firstPositive, secondPositive, multiple⟩ := guard
    simp only [Option.bind_eq_bind, Option.bind_eq_some_iff] at run
    obtain ⟨rest, restIs, answer, asked, run⟩ := run
    cases answer with
    | false => cases run
    | true =>
      rw [if_pos rfl] at run
      simp only [Option.bind_eq_some_iff, Option.some.injEq] at run
      obtain ⟨divisor, divisorIs, quotient, quotientIs, _, made, rfl⟩ := run
      have restSorted := makeBinary_sorted restIs permitted ySorted rfl
      have restValue := makeBinary_int restIs rfl yIs rfl (if_neg secondPositive.ne')
      have small := sound.canProveLess rest _ _ restSorted asked restValue
      obtain ⟨k, c2Is⟩ := Int.dvd_of_tmod_eq_zero multiple
      rw [c2Is] at secondPositive small divisorIs yDivIs ⊢
      have kPositive : 0 < k := pos_of_mul_pos_right secondPositive firstPositive.le
      have divisorValue : divisor.eval interp env = some k := by
        refine makeBinary_int divisorIs rfl rfl rfl ?_
        rw [BinOp.eval, if_neg firstPositive.ne', Int.mul_fdiv_cancel_left _ firstPositive.ne']
      have quotientValue := makeBinary_int quotientIs rfl xIs divisorValue
        (if_neg kPositive.ne')
      refine makeBinary_int made rfl quotientValue yDivIs ?_
      rw [fdiv_mul_add_of_fmod_lt firstPositive kPositive small, BinOp.eval]
  · cases run

theorem simplifyDivisor_sorted (base : ∀ op, op.floorFragment = true → allowed op = true)
    (run : simplifyDivisor queries sum c2 d = some (some r))
    (xSorted : WellSorted allowed .int sum.x = true) (yDivSorted : WellSorted allowed .int d = true) :
    WellSorted allowed .int r = true := by
  rw [simplifyDivisor] at run
  split at run
  · simp only [Option.bind_eq_bind, Option.bind_eq_some_iff] at run
    obtain ⟨rest, -, answer, -, run⟩ := run
    cases answer with
    | false => cases run
    | true =>
      rw [if_pos rfl] at run
      simp only [Option.bind_eq_some_iff, Option.some.injEq] at run
      obtain ⟨divisor, divisorIs, quotient, quotientIs, _, made, rfl⟩ := run
      have divisorSorted := makeBinary_sorted divisorIs (base .floorDiv rfl) rfl rfl
      have quotientSorted :=
        makeBinary_sorted quotientIs (base .floorDiv rfl) xSorted divisorSorted
      exact makeBinary_sorted made (base .add rfl) quotientSorted yDivSorted
  · cases run

theorem residue_sorted (base : ∀ op, op.floorFragment = true → allowed op = true)
    (run : residue sum c2 = some r) (xSorted : WellSorted allowed .int sum.x = true)
    (ySorted : WellSorted allowed .int sum.y = true) : WellSorted allowed .int r = true := by
  simp only [residue, Option.bind_eq_bind, Option.bind_eq_some_iff] at run
  obtain ⟨factor, factorIs, product, productIs, rest, restIs, dividend, dividendIs, made⟩ := run
  have factorSorted := makeBinary_sorted factorIs (base .floorMod rfl) rfl rfl
  have productSorted := makeBinary_sorted productIs (base .mul rfl) xSorted factorSorted
  have restSorted := makeBinary_sorted restIs (base .floorMod rfl) ySorted rfl
  have dividendSorted := makeBinary_sorted dividendIs (base .add rfl) productSorted restSorted
  exact makeBinary_sorted made (base .floorDiv rfl) dividendSorted rfl

theorem ConstIntBound.eq_of_constant {b : ConstIntBound} (constant : b.constant = some bound)
    (contains : b.Contains v) : bound = v := by
  rw [ConstIntBound.constant] at constant
  split at constant
  · rename_i same
    exact le_antisymm (contains.1 bound constant) (contains.2 bound (same ▸ constant))
  · cases constant

theorem floorDivParts_sound (base : ∀ op, op.floorFragment = true → allowed op = true)
    (sound : queries.Sound allowed interp env) (sorted : WellSorted allowed sort e = true)
    (run : floorDivParts queries e = some (some r)) (evaluates : e.eval interp env = some v) :
    r.eval interp env = some v := by
  rw [floorDivParts.eq_def] at run
  split at run
  · rename_i a c2
    split at run
    · cases run
    · rename_i sum found
      split at run
      · cases run
        exact evaluates
      · rename_i nonzero
        simp only [Option.bind_eq_bind, Option.bind_eq_some_iff] at run
        obtain ⟨residueExpr, residueIs, yDivExpr, yDivIs, run⟩ := run
        simp only [PrimExpr.eval, Option.bind_eq_some_iff, Option.some.injEq] at evaluates
        obtain ⟨dividend, dividendIs, _, rfl, evaluates⟩ := evaluates
        rw [BinOp.eval, if_neg nonzero, Option.some.injEq] at evaluates
        obtain ⟨x, y, xIs, yIs, rfl⟩ := scaledSum_sound found dividendIs
        obtain ⟨-, aSorted, -⟩ := operands_sorted sorted
        obtain ⟨xSorted, ySorted⟩ := scaledSum_sorted found aSorted
        have yDivValue := yDiv_sound sound (base .floorDiv rfl) ySorted yDivIs nonzero yIs
        subst evaluates
        split at run
        · rename_i bound constant
          obtain ⟨result, made, resultIs⟩ := Option.map_eq_some_iff.mp run
          cases resultIs
          have contains := sound.constIntBound residueExpr _
            (residue_sorted base residueIs xSorted ySorted)
            (residue_sound residueIs nonzero xIs yIs)
          exact eliminateResidue_sound made nonzero xIs yDivValue
            (ConstIntBound.eq_of_constant constant contains)
        · exact simplifyDivisor_sound sound (base .floorMod rfl) ySorted run xIs yIs yDivValue
  · cases run

theorem floorDivParts_sorted (base : ∀ op, op.floorFragment = true → allowed op = true)
    (sorted : WellSorted allowed sort e = true)
    (run : floorDivParts queries e = some (some r)) : WellSorted allowed sort r = true := by
  rw [floorDivParts.eq_def] at run
  split at run
  · rename_i a c2
    split at run
    · cases run
    · rename_i sum found
      split at run
      · cases run
        exact sorted
      · simp only [Option.bind_eq_bind, Option.bind_eq_some_iff] at run
        obtain ⟨residueExpr, residueIs, yDivExpr, yDivIs, run⟩ := run
        obtain ⟨rfl, aSorted, -⟩ := operands_sorted sorted
        obtain ⟨xSorted, ySorted⟩ := scaledSum_sorted found aSorted
        have yDivSorted := yDiv_sorted (base .floorDiv rfl) ySorted yDivIs
        split at run
        · obtain ⟨result, made, resultIs⟩ := Option.map_eq_some_iff.mp run
          cases resultIs
          exact eliminateResidue_sorted base made xSorted yDivSorted
        · exact simplifyDivisor_sorted base run xSorted yDivSorted
  · cases run

theorem ConstIntBound.le_of_below {first second : ConstIntBound} (below : first.below second = true)
    (firstContains : first.Contains x) (secondContains : second.Contains y) : x ≤ y := by
  rw [ConstIntBound.below, Option.any_eq_true] at below
  obtain ⟨greatest, greatestIs, below⟩ := below
  rw [ConstIntBound.atLeast, Option.any_eq_true] at below
  obtain ⟨least, leastIs, ordered⟩ := below
  exact (firstContains.2 greatest greatestIs).trans
    ((of_decide_eq_true ordered).trans (secondContains.1 least leastIs))

theorem constBounds_sound (sound : queries.Sound allowed interp env)
    (sorted : WellSorted allowed sort e = true) (run : constBounds queries e = some r)
    (evaluates : e.eval interp env = some v) : r.eval interp env = some v := by
  rw [constBounds.eq_def] at run
  split at run
  all_goals
    try cases run
  all_goals
    obtain ⟨-, aSorted, bSorted⟩ := operands_sorted sorted
    simp only [PrimExpr.eval, Option.bind_eq_some_iff, BinOp.eval, Option.some.injEq] at evaluates
    obtain ⟨x, xIs, y, yIs, rfl⟩ := evaluates
    have aContains := sound.constIntBound _ x aSorted xIs
    have bContains := sound.constIntBound _ y bSorted yIs
  · split at run
    · rename_i below
      cases run
      rw [xIs, min_eq_left (ConstIntBound.le_of_below below aContains bContains)]
    · split at run
      · rename_i below
        cases run
        rw [yIs, min_eq_right (ConstIntBound.le_of_below below bContains aContains)]
      · cases run
  · split at run
    · rename_i below
      cases run
      rw [xIs, max_eq_left (ConstIntBound.le_of_below below bContains aContains)]
    · split at run
      · rename_i below
        cases run
        rw [yIs, max_eq_right (ConstIntBound.le_of_below below aContains bContains)]
      · cases run

theorem constBounds_sorted (sorted : WellSorted allowed sort e = true)
    (run : constBounds queries e = some r) : WellSorted allowed sort r = true := by
  rw [constBounds.eq_def] at run
  split at run
  all_goals
    try cases run
  all_goals
    obtain ⟨rfl, aSorted, bSorted⟩ := operands_sorted sorted
    split at run
    · cases run
      assumption
    · split at run
      · cases run
        assumption
      · cases run

theorem compareOperands_sound (permitted : allowed .sub = true)
    (sound : queries.Sound allowed interp env) (sorted : WellSorted allowed sort e = true)
    (run : compareOperands queries e = some (some r)) (evaluates : e.eval interp env = some v) :
    r.eval interp env = some v := by
  rw [compareOperands.eq_def] at run
  split at run
  all_goals
    try cases run
  all_goals
    obtain ⟨-, aSorted, bSorted⟩ := operands_sorted sorted
    simp only [PrimExpr.eval, Option.bind_eq_some_iff, BinOp.eval, Option.some.injEq] at evaluates
    obtain ⟨x, xIs, y, yIs, rfl⟩ := evaluates
    simp only [Option.bind_eq_bind, Option.bind_eq_some_iff, Option.some.injEq] at run
    obtain ⟨difference, made, result, compared, run⟩ := run
    have differenceSorted := makeBinary_sorted made permitted aSorted bSorted
    have differenceValue := makeBinary_int made rfl xIs yIs rfl
    have meaning := sound.tryCompare difference 0 _ result differenceSorted compared differenceValue
    cases result <;> cases run <;> simp only [CompareResult.Says] at meaning
  all_goals
    rw [PrimExpr.eval, Option.some.injEq, truth]
    split <;> omega

theorem compareOperands_sorted (sorted : WellSorted allowed sort e = true)
    (run : compareOperands queries e = some (some r)) : WellSorted allowed sort r = true := by
  rw [compareOperands.eq_def] at run
  split at run
  all_goals
    try cases run
  all_goals
    obtain ⟨rfl, -, -⟩ := operands_sorted sorted
    simp only [Option.bind_eq_bind, Option.bind_eq_some_iff, Option.some.injEq] at run
    obtain ⟨difference, made, result, compared, run⟩ := run
    cases result <;> cases run <;> rfl

theorem constFold_sound (sorted : WellSorted allowed sort e = true)
    (run : constFold e = some (some r)) (evaluates : e.eval interp env = some v) :
    r.eval interp env = some v := by
  rw [constFold.eq_def] at run
  split at run
  · rename_i op a b
    obtain ⟨-, aSorted, bSorted⟩ := operands_sorted sorted
    simp only [PrimExpr.eval, Option.bind_eq_some_iff] at evaluates
    obtain ⟨x, xIs, y, yIs, evaluates⟩ := evaluates
    refine tryConstFold_sound run xIs yIs ?_ evaluates
    intro logical
    rw [logical] at aSorted bSorted
    exact ⟨eval_truth aSorted xIs, eval_truth bSorted yIs⟩
  · rename_i a
    rw [tryConstFoldNot.eq_def] at run
    split at run
    · cases run
      exact evaluates
    · cases run
  · cases run

theorem constFold_sorted (sorted : WellSorted allowed sort e = true)
    (run : constFold e = some (some r)) : WellSorted allowed sort r = true := by
  rw [constFold.eq_def] at run
  split at run
  · rename_i op a b
    have permitted : allowed op = true := by
      simp only [WellSorted, Bool.and_eq_true] at sorted
      exact sorted.1.1.1
    obtain ⟨rfl, aSorted, bSorted⟩ := operands_sorted sorted
    exact makeBinary_sorted (by rw [makeBinary, run]; rfl) permitted aSorted bSorted
  · rename_i a
    rw [tryConstFoldNot.eq_def] at run
    split at run
    · rename_i n
      cases run
      cases sort with
      | int => cases sorted
      | bool => rcases truth_cases (n = 0) with isZero | isOne <;> simp [WellSorted, *]
    · cases run
  · cases run

end Analyses

end Tvm.Arith
