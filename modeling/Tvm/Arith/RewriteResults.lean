import Tvm.Arith.RewriteRuns
import Tvm.Arith.RewriteSimplifySound

/-!
# What the rewriting simplifier preserves

Floor arithmetic keeps its value.  A condition keeps its truth value, and is proved only where it
is true, in every run in which no rule fires where it changes a value.
-/

namespace Tvm.Arith

def permitsAll (_ : Impl) (_ : Firing) : Bool :=
  true

def SubAnalyses.unknown : SubAnalyses :=
  ⟨fun _ _ => .everything, fun _ _ => .everything⟩

theorem SubAnalyses.unknown_sound {allowed : BinOp → Bool} {interp : Nat → Env → Option Int}
    {env : Env} : SubAnalyses.unknown.Sound allowed interp env where
  constIntBound _ _ _ _ _ _ := by
    constructor <;> intro n isBound <;> cases isBound
  modularSet _ _ _ _ _ _ := by
    rw [unknown, ModularSet.Entry.contains_iff]
    exact Int.modEq_one

/-- The rules of the stages that can match allowed operators are not singled out. -/
def plainStages (allowed : BinOp → Bool) (stages : List Stage) : Bool :=
  stages.all fun stage => stage.rules.all fun rule =>
    !rule.source.opsAllowed allowed || rule.label == .plain

theorem meets_of_plainStages {allowed : BinOp → Bool} {interp : Nat → Env → Option Int} {env : Env}
    {queries : Queries} {sort : ExprSort} {e : PrimExpr} {stages : List Stage} {firing : Firing}
    (plain : plainStages allowed stages = true) (sorted : WellSorted allowed sort e = true)
    (run : runStages queries e stages = some (some firing)) :
    firing.meets interp env = true := by
  cases firing with
  | rule fired bindings result =>
    obtain ⟨stage, member, fires⟩ := runStages_fires run
    have stagePlain := List.all_eq_true.mp plain stage member
    cases stage with
    | table rules =>
      obtain ⟨rule, ruleMember, ruleFires⟩ := tryRules_fires fires
      obtain ⟨_, _, matched, -, -, -, firingIs⟩ := Rule.tryRule_cases ruleFires
      cases firingIs
      obtain ⟨-, permitted⟩ := Pat.bound_of_matchExpr sorted matched
      have rulePlain := List.all_eq_true.mp stagePlain _ ruleMember
      rw [permitted, Bool.not_true, Bool.false_or, beq_iff_eq] at rulePlain
      exact Rule.meets_plain rulePlain
    | constFold | literalConstraint | modularAnalysis | floorDivParts | constBounds
    | compareOperands => simp [Stage.run] at fires
  | constFold | literalConstraint | analysis => rfl

theorem plainStages_floorFragment {stages : List Stage} (nodeStages : NodeStages stages) :
    plainStages BinOp.floorFragment stages = true := by
  rcases nodeStages with ⟨op, rfl⟩ | rfl | rfl
  · cases op <;> rfl
  · rfl
  · rfl

theorem guards_floorFragment {interp : Nat → Env → Option Int} {env : Env} :
    Guards permitsAll BinOp.floorFragment interp env := by
  intro impl queries sort e stages firing nodeStages sorted run _ _
  exact meets_of_plainStages (plainStages_floorFragment nodeStages) sorted run

/-- On floor arithmetic, what rewrites a node keeps its value, also through recursive rewrites,
and so does the simplifier on a whole expression. -/
theorem rewriteSimplifier_floor {interp : Nat → Env → Option Int} {env : Env}
    {fresh : SubAnalyses} {impl : Impl} (fuel : Nat)
    (freshSound : fresh.Sound BinOp.floorFragment interp env)
    (implSorted : impl.Sorted BinOp.floorFragment)
    (agrees : impl.HoldsAt BinOp.floorFragment interp env) :
    (∀ (op : BinOp) (a b : PrimExpr) (v : Int),
      op ∈ [BinOp.add, .sub, .mul, .floorDiv, .floorMod] →
      WellSorted BinOp.floorFragment .int (.binary op a b) = true →
      (PrimExpr.binary op a b).eval interp env = some v →
      (∀ firing, runStages (impl.queries (visitExpr fresh permitsAll fuel)) (.binary op a b)
          op.stages = some (some firing) → firing.result.eval interp env = some v) ∧
        ∀ r, rewriteNode (visitExpr fresh permitsAll fuel) permitsAll impl (.binary op a b)
          op.stages = some r → r.eval interp env = some v) ∧
      ∀ (e r : PrimExpr) (v : Int), WellSorted BinOp.floorFragment .int e = true →
        rewriteSimplify (visitExpr fresh permitsAll fuel) impl e = some r →
        e.eval interp env = some v → r.eval interp env = some v := by
  have visits : (visitExpr fresh permitsAll fuel).Sound BinOp.floorFragment interp env :=
    visitExpr_sound closed_floorFragment guards_floorFragment freshSound
  refine ⟨fun op a b v _ sorted evaluates => ⟨fun firing run => ?_, fun r run => ?_⟩,
    fun e r v sorted run evaluates => ?_⟩
  · have plain := plainStages_floorFragment (Or.inl ⟨op, rfl⟩)
    exact (runStages_keeps closed_floorFragment (Impl.queries_sound visits implSorted agrees) sorted
      run evaluates).mpr (meets_of_plainStages plain sorted run)
  · obtain ⟨sort, -, -⟩ := operands_sorted sorted
    have fit := closed_floorFragment.binary_fit op
    rw [sort] at fit
    exact (rewriteNode_sound closed_floorFragment.base guards_floorFragment visits implSorted
      (Or.inl ⟨op, rfl⟩) fit sorted run).value agrees v evaluates
  · exact (rewriteSimplify_sound visits implSorted sorted run).value agrees v evaluates

/-- `floordiv(x * 4 + 8, 4)` at `x = 5`. -/
theorem rewriteSimplifier_floor_quotient :
    ∃ r, rewriteSimplify (visitExpr .unknown permitsAll 8) (.start .unknown fun _ => none)
        (.binary .floorDiv (.binary .add (.binary .mul (.var 0) (.intImm 4)) (.intImm 8))
          (.intImm 4)) = some r ∧
      r.eval (fun _ _ => none) (fun _ => 5) = some 7 := by
  have unknownSound : SubAnalyses.unknown.Sound BinOp.floorFragment (fun _ _ => none) fun _ => 5 :=
    SubAnalyses.unknown_sound
  have startSorted : (Impl.start .unknown fun _ => none).Sorted BinOp.floorFragment := start_sorted
  have preserved := rewriteSimplifier_floor 8 unknownSound startSorted
    (start_holdsAt unknownSound)
  exact ⟨_, rfl, preserved.2 (.binary .floorDiv (.binary .add (.binary .mul (.var 0) (.intImm 4))
    (.intImm 8)) (.intImm 4)) _ 7 rfl rfl rfl⟩

def PrimExpr.holdsAt (interp : Nat → Env → Option Int) (env : Env) (e : PrimExpr) : Bool :=
  (e.eval interp env).any (· ≠ 0)

theorem PrimExpr.holdsAt_iff {interp : Nat → Env → Option Int} {env : Env} {e : PrimExpr} :
    e.holdsAt interp env = true ↔ e.Holds interp env := by
  simp [holdsAt, Holds, Option.any_eq_true]

/-- The guard under which a run stops where a rule fires that changes a value at the assignment,
while the constraints entered there hold. -/
def keepsValues (interp : Nat → Env → Option Int) (env : Env) (impl : Impl) (firing : Firing) :
    Bool :=
  !impl.entered.all (PrimExpr.holdsAt interp env) || firing.meets interp env

theorem guards_keepsValues {allowed : BinOp → Bool} {interp : Nat → Env → Option Int} {env : Env} :
    Guards (keepsValues interp env) allowed interp env := by
  intro impl queries sort e stages firing _ _ _ permitted holds
  have entered : impl.entered.all (PrimExpr.holdsAt interp env) = true := by
    rw [List.all_eq_true]
    intro constraint member
    exact PrimExpr.holdsAt_iff.mpr (holds constraint member)
  simpa [keepsValues, entered] using permitted

section Conditions

variable {interp : Nat → Env → Option Int} {env : Env} {allowed : BinOp → Bool}
  {fresh : SubAnalyses} {permits : Impl → Firing → Bool} {impl : Impl} {fuel : Nat}

theorem enterConstraints_sound (closed : Closed allowed) (guards : Guards permits allowed interp env)
    (freshSound : fresh.Sound allowed interp env) {constraints : List PrimExpr} {result : Impl}
    (implSorted : impl.Sorted allowed) (agrees : impl.HoldsAt allowed interp env)
    (sorted : ∀ c ∈ constraints, WellSorted allowed .bool c = true)
    (satisfied : ∀ c ∈ constraints, c.Holds interp env)
    (run : enterConstraints fresh permits fuel impl constraints = some result) :
    result.Sorted allowed ∧ result.HoldsAt allowed interp env := by
  induction constraints generalizing impl with
  | nil =>
    cases run
    exact ⟨implSorted, agrees⟩
  | cons constraint rest ih =>
    obtain ⟨entered, firstRun, run⟩ := Option.bind_eq_some_iff.mp run
    obtain ⟨firstSorted, restSorted⟩ := List.forall_mem_cons.mp sorted
    obtain ⟨firstHolds, restHolds⟩ := List.forall_mem_cons.mp satisfied
    obtain ⟨enteredSorted, enteredAgrees⟩ := enterConstraint_sound freshSound
      (visitExpr_sound closed guards freshSound) implSorted firstSorted firstRun
    exact ih enteredSorted (enteredAgrees agrees firstHolds) restSorted restHolds
      run

/-- What `Analyzer::CanProve` relies on in its second step. -/
def CanonicalSound (canonicalSimplify : Impl → PrimExpr → Option PrimExpr)
    (allowed : BinOp → Bool) (interp : Nat → Env → Option Int) (env : Env) : Prop :=
  ∀ impl e r v, impl.HoldsAt allowed interp env → WellSorted allowed .bool e = true →
    canonicalSimplify impl e = some r → e.eval interp env = some v → r.eval interp env = some v

theorem canProve_sound (closed : Closed allowed) (guards : Guards permits allowed interp env)
    (freshSound : fresh.Sound allowed interp env)
    {canonicalSimplify : Impl → PrimExpr → Option PrimExpr}
    (canonicalSound : CanonicalSound canonicalSimplify allowed interp env)
    (implSorted : impl.Sorted allowed) (agrees : impl.HoldsAt allowed interp env) {e : PrimExpr}
    {v : Int} (sorted : WellSorted allowed .bool e = true)
    (proved : canProve fresh permits canonicalSimplify fuel impl e = some true)
    (evaluates : e.eval interp env = some v) : v ≠ 0 := by
  rw [canProve.eq_def] at proved
  split at proved
  · cases evaluates
    simpa using proved
  · obtain ⟨simplified, run, proved⟩ := Option.bind_eq_some_iff.mp proved
    have simplifies := rewriteSimplify_sound (visitExpr_sound closed guards freshSound) implSorted
      sorted run
    have value := simplifies.value agrees v evaluates
    split at proved
    · cases value
      simpa using proved
    · obtain ⟨canonical, canonicalRun, proved⟩ := Option.bind_eq_some_iff.mp proved
      have canonicalValue :=
        canonicalSound impl simplified canonical v agrees simplifies.sorted canonicalRun value
      split at proved
      · cases canonicalValue
        simpa using proved
      · cases proved

end Conditions

/-- In every run of the simplifier in which no rule fires where it changes a value, a condition
under a stack of constraints keeps its truth value, and is proved only if it is true. -/
theorem conditions_sound {interp : Nat → Env → Option Int} {env : Env}
    {analyses fresh : SubAnalyses} {varMap : Var → Option PrimExpr}
    {canonicalSimplify : Impl → PrimExpr → Option PrimExpr} (fuel : Nat)
    {constraints : List PrimExpr} {impl : Impl} (e : PrimExpr) {v : Int}
    (analysesSound : analyses.Sound BinOp.indexFragment interp env)
    (freshSound : fresh.Sound BinOp.indexFragment interp env)
    (canonicalSound : CanonicalSound canonicalSimplify BinOp.indexFragment interp env)
    (varMapSorted : ∀ v info, varMap v = some info →
      WellSorted BinOp.indexFragment .int info = true)
    (varMapAgrees : ∀ v info, varMap v = some info → info.eval interp env = some (env v))
    (constraintsSorted : ∀ c ∈ constraints, WellSorted BinOp.indexFragment .bool c = true)
    (satisfied : ∀ c ∈ constraints, c.Holds interp env)
    (sorted : WellSorted BinOp.indexFragment .bool e = true)
    (evaluates : e.eval interp env = some v)
    (entered : enterConstraints fresh permitsAll fuel (.start analyses varMap) constraints =
      some impl)
    (keptEntering : enterConstraints fresh (keepsValues interp env) fuel (.start analyses varMap)
      constraints ≠ none) :
    (∀ r, rewriteSimplify (visitExpr fresh permitsAll fuel) impl e = some r →
      rewriteSimplify (visitExpr fresh (keepsValues interp env) fuel) impl e ≠ none →
      r.eval interp env = some v) ∧
    (canProve fresh permitsAll canonicalSimplify fuel impl e = some true →
      canProve fresh (keepsValues interp env) canonicalSimplify fuel impl e ≠ none → v ≠ 0) := by
  have weaker : ∀ impl firing, keepsValues interp env impl firing = true →
      permitsAll impl firing = true := fun _ _ _ => rfl
  obtain ⟨guarded, guardedRun⟩ := Option.ne_none_iff_exists'.mp keptEntering
  have same := enterConstraints_extends (le_refl fuel) weaker _ constraints guarded guardedRun
  rw [entered, Option.some.injEq] at same
  subst same
  obtain ⟨implSorted, agrees⟩ := enterConstraints_sound closed_indexFragment guards_keepsValues
    freshSound ⟨varMapSorted⟩ ⟨analysesSound, varMapAgrees, (fun _ member => by cases member),
      fun _ member => by cases member⟩ constraintsSorted satisfied guardedRun
  refine ⟨fun r run kept => ?_, fun proved kept => ?_⟩
  · obtain ⟨r', keptRun⟩ := Option.ne_none_iff_exists'.mp kept
    have same := rewriteSimplify_extends (visitExpr_extends (le_refl fuel) weaker) _ e r' keptRun
    rw [run, Option.some.injEq] at same
    subst same
    exact (rewriteSimplify_sound (visitExpr_sound closed_indexFragment guards_keepsValues
      freshSound) implSorted sorted keptRun).value agrees v evaluates
  · obtain ⟨answer, keptRun⟩ := Option.ne_none_iff_exists'.mp kept
    have same := canProve_extends (le_refl fuel) weaker _ e answer keptRun
    rw [proved, Option.some.injEq] at same
    subst same
    exact canProve_sound closed_indexFragment guards_keepsValues freshSound canonicalSound
      implSorted agrees sorted keptRun evaluates

/-- `min(floordiv(x + 1, 2) * 2, max(x, 2)) >= 1` is proved, and false at `x = 0`. -/
theorem conditions_unsound :
    ¬∀ (interp : Nat → Env → Option Int) (env : Env) (analyses fresh : SubAnalyses)
      (varMap : Var → Option PrimExpr) (canonicalSimplify : Impl → PrimExpr → Option PrimExpr)
      (fuel : Nat) (constraints : List PrimExpr) (impl : Impl) (e : PrimExpr) (v : Int),
      analyses.Sound BinOp.indexFragment interp env → fresh.Sound BinOp.indexFragment interp env →
      CanonicalSound canonicalSimplify BinOp.indexFragment interp env →
      (∀ v info, varMap v = some info → WellSorted BinOp.indexFragment .int info = true) →
      (∀ v info, varMap v = some info → info.eval interp env = some (env v)) →
      (∀ c ∈ constraints, WellSorted BinOp.indexFragment .bool c = true) →
      (∀ c ∈ constraints, c.Holds interp env) →
      WellSorted BinOp.indexFragment .bool e = true → e.eval interp env = some v →
      enterConstraints fresh permitsAll fuel (.start analyses varMap) constraints = some impl →
      canProve fresh permitsAll canonicalSimplify fuel impl e = some true → v ≠ 0 := by
  intro sound
  refine sound (fun _ _ => none) (fun _ => 0) .unknown .unknown (fun _ => none)
    (fun _ e => some e) 12 [] _ (.binary .ge (.binary .min (.binary .mul (.binary .floorDiv
      (.binary .add (.var 0) (.intImm 1)) (.intImm 2)) (.intImm 2))
      (.binary .max (.var 0) (.intImm 2))) (.intImm 1)) 0 SubAnalyses.unknown_sound
    SubAnalyses.unknown_sound ?_ (fun _ _ bound => by cases bound) (fun _ _ bound => by cases bound)
    (fun _ member => by cases member) (fun _ member => by cases member) rfl rfl rfl
    (by decide +kernel) rfl
  intro impl e r v _ _ same evaluates
  cases same
  exact evaluates

/-- `x < 3` under the constraint `x < 3`. -/
theorem conditions_sound_literal :
    ∃ impl, enterConstraints .unknown permitsAll 8 (.start .unknown fun _ => none)
        [.binary .lt (.var 0) (.intImm 3)] = some impl ∧
      canProve .unknown permitsAll (fun _ e => some e) 8 impl
        (.binary .lt (.var 0) (.intImm 3)) = some true ∧ (1 : Int) ≠ 0 := by
  have unknownSound : SubAnalyses.unknown.Sound BinOp.indexFragment (fun _ _ => none) fun _ => 2 :=
    SubAnalyses.unknown_sound
  have canonicalSound : CanonicalSound (fun _ e => some e) BinOp.indexFragment (fun _ _ => none)
      fun _ => 2 := by
    intro impl e r v _ _ same evaluates
    cases same
    exact evaluates
  have unbound : ∀ (v : Var) (info : PrimExpr), (fun _ => none : Var → Option PrimExpr) v =
      some info → WellSorted BinOp.indexFragment .int info = true ∧
        info.eval (fun _ _ => none) (fun _ => 2) = some 2 := fun _ _ bound => by cases bound
  have sorted : ∀ c ∈ [PrimExpr.binary .lt (.var 0) (.intImm 3)],
      WellSorted BinOp.indexFragment .bool c = true := by decide +kernel
  have satisfied : ∀ c ∈ [PrimExpr.binary .lt (.var 0) (.intImm 3)],
      c.Holds (fun _ _ => none) fun _ => 2 := by
    simp only [List.forall_mem_singleton]
    exact ⟨1, rfl, one_ne_zero⟩
  exact ⟨_, rfl, rfl, (conditions_sound 8 (.binary .lt (.var 0) (.intImm 3)) unknownSound unknownSound canonicalSound
    (fun v info bound => (unbound v info bound).1) (fun v info bound => (unbound v info bound).2)
    sorted satisfied rfl rfl rfl (by decide +kernel)).2 rfl (by decide +kernel)⟩

end Tvm.Arith
