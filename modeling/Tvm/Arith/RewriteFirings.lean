import Tvm.Arith.RewriteNodeSound

/-!
# What rewrites a node keeps its value

The stages of every node: the result is an expression of the allowed operators, and its value
is the value of the node exactly where the rule that fired keeps it.
-/

namespace Tvm.Arith

def Stage.rules : Stage → List Rule
  | .table rules => rules
  | _ => []

def closedStages (allowed : BinOp → Bool) (sort : ExprSort) (stages : List Stage) : Bool :=
  stages.all fun stage => stage.rules.all (Rule.closed allowed sort)

/-- Rewriting a node of allowed operators stays within the allowed operators. -/
structure Closed (allowed : BinOp → Bool) : Prop where
  base : ∀ op, op.floorFragment = true → allowed op = true
  binary : ∀ op : BinOp, closedStages allowed op.resultSort op.stages = true
  not : closedStages allowed .bool notStages = true
  select : ∀ sort, closedStages allowed sort selectStages = true

def BinOp.indexFragment : BinOp → Bool
  | .shiftLeft | .shiftRight | .bitwiseAnd => false
  | _ => true

theorem closed_floorFragment : Closed BinOp.floorFragment where
  base _ member := member
  binary op := by cases op <;> rfl
  not := rfl
  select sort := by cases sort <;> rfl

theorem closed_indexFragment : Closed BinOp.indexFragment where
  base op member := by
    cases op <;> first | rfl | cases member
  binary op := by cases op <;> rfl
  not := rfl
  select sort := by cases sort <;> rfl

/-- The rules of the stages keep the value exactly at the values of their labels. -/
def ExactStages (sort : ExprSort) (stages : List Stage) : Prop :=
  ∀ stage ∈ stages, ∀ rule ∈ stage.rules, rule.Exact sort

section Exact

variable {sort : ExprSort}

theorem exactStages_nil : ExactStages sort [] :=
  fun _ member => by cases member

theorem exactStages_cons {stage : Stage} {rest : List Stage}
    (first : ∀ rule ∈ stage.rules, rule.Exact sort) (others : ExactStages sort rest) :
    ExactStages sort (stage :: rest) := by
  intro found member
  rcases List.mem_cons.mp member with rfl | member
  · exact first
  · exact others found member

theorem exactStages_code {stage : Stage} {rest : List Stage} (code : stage.rules = [])
    (others : ExactStages sort rest) : ExactStages sort (stage :: rest) := by
  refine exactStages_cons (fun rule member => ?_) others
  rw [code] at member
  cases member

theorem exact_of_total {rules : List Rule} (plain : plainRules rules = true)
    (total : ∀ rule ∈ rules, rule.TotalSound sort) : ∀ rule ∈ rules, rule.Exact sort :=
  exact_of_sound plain fun rule member => (total rule member).sound

theorem minSelfRules_exact : ∀ rule ∈ Rules.minSelfRules, rule.Exact sort :=
  exact_of_total rfl fun rule member => Rules.minSelfRules_total rule (List.mem_append_left _ member)

theorem maxSelfRules_exact : ∀ rule ∈ Rules.maxSelfRules, rule.Exact sort :=
  exact_of_total rfl fun rule member =>
    Rules.minSelfRules_total rule (List.mem_append_right _ member)

theorem BinOp.stages_exact (op : BinOp) : ExactStages sort op.stages := by
  cases op with
  | add =>
    exact exactStages_code rfl
      (exactStages_cons (exact_of_sound rfl Rules.addRules_sound) exactStages_nil)
  | sub =>
    exact exactStages_code rfl (exactStages_cons Rules.subRules_exact exactStages_nil)
  | mul =>
    exact exactStages_code rfl
      (exactStages_cons (exact_of_total rfl Rules.mulRules_total) exactStages_nil)
  | div =>
    exact exactStages_code rfl
      (exactStages_cons (exact_of_total rfl Rules.divRules_total) exactStages_nil)
  | mod =>
    exact exactStages_code rfl
      (exactStages_cons (exact_of_total rfl Rules.modRules_total)
        (exactStages_code rfl exactStages_nil))
  | floorDiv =>
    exact exactStages_code rfl
      (exactStages_cons (exact_of_total rfl Rules.floorDivNestedRules_total)
        (exactStages_code rfl
          (exactStages_cons (exact_of_total rfl Rules.floorDivRules_total) exactStages_nil)))
  | floorMod =>
    exact exactStages_code rfl
      (exactStages_cons (exact_of_total rfl Rules.floorModRules_total)
        (exactStages_code rfl exactStages_nil))
  | min =>
    exact exactStages_code rfl
      (exactStages_cons minSelfRules_exact
        (exactStages_code rfl (exactStages_cons Rules.minRules_exact exactStages_nil)))
  | max =>
    exact exactStages_code rfl
      (exactStages_cons maxSelfRules_exact
        (exactStages_code rfl
          (exactStages_cons (exact_of_sound rfl Rules.maxRules_sound) exactStages_nil)))
  | eq =>
    exact exactStages_code rfl
      (exactStages_code rfl
        (exactStages_code rfl
          (exactStages_cons (exact_of_total rfl Rules.eqRules_total) exactStages_nil)))
  | lt =>
    exact exactStages_code rfl
      (exactStages_code rfl
        (exactStages_code rfl
          (exactStages_cons (exact_of_total rfl Rules.ltRules_total) exactStages_nil)))
  | and =>
    exact exactStages_code rfl
      (exactStages_code rfl
        (exactStages_cons (exact_of_total rfl Rules.andRules_total) exactStages_nil))
  | or =>
    exact exactStages_code rfl
      (exactStages_code rfl
        (exactStages_cons (exact_of_total rfl Rules.orRules_total) exactStages_nil))
  | ne | le | gt | ge | shiftLeft | shiftRight | bitwiseAnd => exact exactStages_nil

theorem notStages_exact : ExactStages .bool notStages :=
  exactStages_code rfl
    (exactStages_code rfl
      (exactStages_cons (exact_of_total rfl Rules.notRules_total) exactStages_nil))

theorem selectStages_exact : ExactStages sort selectStages :=
  exactStages_cons (exact_of_sound rfl Rules.selectRules_sound) exactStages_nil

end Exact

section Stages

variable {allowed : BinOp → Bool} {interp : Nat → Env → Option Int} {env : Env}
  {queries : Queries} {sort : ExprSort} {e : PrimExpr} {stage : Stage} {stages : List Stage}
  {firing : Firing} {v : Int}

structure FitStages (allowed : BinOp → Bool) (sort : ExprSort) (stages : List Stage) : Prop where
  exact : ExactStages sort stages
  closed : closedStages allowed sort stages = true
  literalConstraint : Stage.literalConstraint ∈ stages → sort = .bool

theorem Closed.binary_fit (closed : Closed allowed) (op : BinOp) :
    FitStages allowed op.resultSort op.stages where
  exact := op.stages_exact
  closed := closed.binary op
  literalConstraint member := by
    cases op <;> first | rfl | simp [BinOp.stages] at member

theorem Closed.not_fit (closed : Closed allowed) : FitStages allowed .bool notStages :=
  ⟨notStages_exact, closed.not, fun _ => rfl⟩

theorem Closed.select_fit (closed : Closed allowed) : FitStages allowed sort selectStages where
  exact := selectStages_exact
  closed := closed.select sort
  literalConstraint member := by simp [selectStages] at member

theorem Stage.run_sorted (base : ∀ op, op.floorFragment = true → allowed op = true)
    (fit : FitStages allowed sort stages) (member : stage ∈ stages)
    (sorted : WellSorted allowed sort e = true)
    (run : stage.run queries e = some (some firing)) :
    WellSorted allowed sort firing.result = true := by
  cases stage with
  | constFold =>
    simp only [Stage.run, Option.map_eq_some_iff] at run
    obtain ⟨_, folded, r, rfl, rfl⟩ := run
    exact constFold_sorted sorted folded
  | literalConstraint =>
    simp only [Stage.run, Option.some.injEq, Option.map_eq_some_iff] at run
    obtain ⟨r, matched, rfl⟩ := run
    rw [fit.literalConstraint member]
    exact tryMatchLiteralConstraint_sorted matched
  | modularAnalysis =>
    simp only [Stage.run, Option.map_eq_some_iff] at run
    obtain ⟨_, analysed, r, rfl, rfl⟩ := run
    exact modularAnalysis_sorted sorted analysed
  | floorDivParts =>
    simp only [Stage.run, Option.map_eq_some_iff] at run
    obtain ⟨_, analysed, r, rfl, rfl⟩ := run
    exact floorDivParts_sorted base sorted analysed
  | constBounds =>
    simp only [Stage.run, Option.some.injEq, Option.map_eq_some_iff] at run
    obtain ⟨r, analysed, rfl⟩ := run
    exact constBounds_sorted sorted analysed
  | compareOperands =>
    simp only [Stage.run, Option.map_eq_some_iff] at run
    obtain ⟨_, analysed, r, rfl, rfl⟩ := run
    exact compareOperands_sorted sorted analysed
  | table rules =>
    obtain ⟨rule, ruleMember, fires⟩ := tryRules_fires run
    have closed := List.all_eq_true.mp (List.all_eq_true.mp fit.closed _ member) rule ruleMember
    exact rule.tryRule_sorted closed sorted fires

theorem Stage.run_exact (base : ∀ op, op.floorFragment = true → allowed op = true)
    (fit : FitStages allowed sort stages) (member : stage ∈ stages)
    (sound : queries.Sound allowed interp env) (sorted : WellSorted allowed sort e = true)
    (run : stage.run queries e = some (some firing)) (evaluates : e.eval interp env = some v) :
    ∃ w, firing.result.eval interp env = some w ∧ (w = v ↔ firing.meets interp env = true) := by
  cases stage with
  | constFold =>
    simp only [Stage.run, Option.map_eq_some_iff] at run
    obtain ⟨_, folded, r, rfl, rfl⟩ := run
    exact ⟨v, constFold_sound sorted folded evaluates, iff_of_true rfl rfl⟩
  | literalConstraint =>
    simp only [Stage.run, Option.some.injEq, Option.map_eq_some_iff] at run
    obtain ⟨r, matched, rfl⟩ := run
    rw [fit.literalConstraint member] at sorted
    exact ⟨v, tryMatchLiteralConstraint_sound sound.literalConstraints
      (eval_truth sorted evaluates) evaluates matched, iff_of_true rfl rfl⟩
  | modularAnalysis =>
    simp only [Stage.run, Option.map_eq_some_iff] at run
    obtain ⟨_, analysed, r, rfl, rfl⟩ := run
    exact ⟨v, modularAnalysis_sound sound sorted analysed evaluates, iff_of_true rfl rfl⟩
  | floorDivParts =>
    simp only [Stage.run, Option.map_eq_some_iff] at run
    obtain ⟨_, analysed, r, rfl, rfl⟩ := run
    exact ⟨v, floorDivParts_sound base sound sorted analysed evaluates, iff_of_true rfl rfl⟩
  | constBounds =>
    simp only [Stage.run, Option.some.injEq, Option.map_eq_some_iff] at run
    obtain ⟨r, analysed, rfl⟩ := run
    exact ⟨v, constBounds_sound sound sorted analysed evaluates, iff_of_true rfl rfl⟩
  | compareOperands =>
    simp only [Stage.run, Option.map_eq_some_iff] at run
    obtain ⟨_, analysed, r, rfl, rfl⟩ := run
    exact ⟨v, compareOperands_sound (base .sub rfl) sound sorted analysed evaluates,
      iff_of_true rfl rfl⟩
  | table rules =>
    obtain ⟨rule, ruleMember, fires⟩ := tryRules_fires run
    have closed := List.all_eq_true.mp (List.all_eq_true.mp fit.closed _ member) rule ruleMember
    exact rule.tryRule_exact (fit.exact _ member rule ruleMember) closed sound sorted fires
      evaluates

theorem runStages_fires (run : runStages queries e stages = some (some firing)) :
    ∃ stage ∈ stages, stage.run queries e = some (some firing) := by
  induction stages with
  | nil => cases run
  | cons first rest ih =>
    obtain ⟨fired, firstRun, run⟩ := Option.bind_eq_some_iff.mp run
    cases fired with
    | none =>
      obtain ⟨stage, member, fires⟩ := ih run
      exact ⟨stage, List.mem_cons_of_mem _ member, fires⟩
    | some found =>
      cases run
      exact ⟨first, List.mem_cons_self, firstRun⟩

theorem runStages_sorted (base : ∀ op, op.floorFragment = true → allowed op = true)
    (fit : FitStages allowed sort stages) (sorted : WellSorted allowed sort e = true)
    (run : runStages queries e stages = some (some firing)) :
    WellSorted allowed sort firing.result = true := by
  obtain ⟨stage, member, fires⟩ := runStages_fires run
  exact stage.run_sorted base fit member sorted fires

/-- What rewrites a node gives a value wherever the node has one, and keeps it exactly where the
rule that fired does. -/
theorem runStages_exact (base : ∀ op, op.floorFragment = true → allowed op = true)
    (fit : FitStages allowed sort stages) (sound : queries.Sound allowed interp env)
    (sorted : WellSorted allowed sort e = true)
    (run : runStages queries e stages = some (some firing))
    (evaluates : e.eval interp env = some v) :
    ∃ w, firing.result.eval interp env = some w ∧ (w = v ↔ firing.meets interp env = true) := by
  obtain ⟨stage, member, fires⟩ := runStages_fires run
  exact stage.run_exact base fit member sound sorted fires evaluates

/-- What rewrites a binary node keeps its value exactly where the rule that fired does. -/
theorem runStages_keeps {op : BinOp} {a b : PrimExpr} (closed : Closed allowed)
    (sound : queries.Sound allowed interp env)
    (sorted : WellSorted allowed sort (.binary op a b) = true)
    (run : runStages queries (.binary op a b) op.stages = some (some firing))
    (evaluates : (PrimExpr.binary op a b).eval interp env = some v) :
    firing.result.eval interp env = some v ↔ firing.meets interp env = true := by
  obtain ⟨rfl, -, -⟩ := operands_sorted sorted
  obtain ⟨w, value, same⟩ :=
    runStages_exact closed.base (closed.binary_fit op) sound sorted run evaluates
  rw [value, Option.some.injEq, same]

def labelledStages (labels : List Label) (stages : List Stage) : Bool :=
  stages.all fun stage => stage.rules.all fun rule => labels.contains rule.label

theorem label_of_runStages {labels : List Label} {fired : Rule} {bindings : Bindings}
    {result : PrimExpr} (labelled : labelledStages labels stages = true)
    (run : runStages queries e stages = some (some (.rule fired bindings result))) :
    fired.label ∈ labels := by
  obtain ⟨stage, member, fires⟩ := runStages_fires run
  have stageLabelled := List.all_eq_true.mp labelled stage member
  cases stage with
  | table rules =>
    obtain ⟨rule, ruleMember, ruleFires⟩ := tryRules_fires fires
    obtain ⟨_, _, -, -, -, -, firingIs⟩ := Rule.tryRule_cases ruleFires
    cases firingIs
    exact List.contains_iff_mem.mp (List.all_eq_true.mp stageLabelled _ ruleMember)
  | constFold | literalConstraint | modularAnalysis | floorDivParts | constBounds
  | compareOperands => simp [Stage.run] at fires

end Stages

def Queries.lowerBound (v : Var) (least : Int) : Queries where
  canProveGreaterEqual e n := some (e = .var v ∧ n ≤ least)
  canProveLess _ _ := some false
  tryCompare _ _ := some .kUnknown
  constIntBound e := if e = .var v then ⟨some least, none⟩ else .everything
  modularSet _ := .everything
  literalConstraints := []

theorem Queries.lowerBound_sound {allowed : BinOp → Bool} {interp : Nat → Env → Option Int}
    {env : Env} {v : Var} {least : Int} (bounded : least ≤ env v) :
    (Queries.lowerBound v least).Sound allowed interp env where
  canProveGreaterEqual e n x _ proved evaluates := by
    simp only [lowerBound, Option.some.injEq, decide_eq_true_eq] at proved
    obtain ⟨rfl, small⟩ := proved
    cases evaluates
    exact small.trans bounded
  canProveLess e n x _ proved _ := by cases proved
  tryCompare e n x result _ compared _ := by
    cases compared
    trivial
  constIntBound e x _ evaluates := by
    by_cases same : e = .var v
    · subst same
      cases evaluates
      simp only [lowerBound, if_true]
      refine ⟨fun n isBound => ?_, fun n isBound => by cases isBound⟩
      cases isBound
      exact bounded
    · simp only [lowerBound, same, if_false]
      constructor <;> intro n isBound <;> cases isBound
  modularSet e x _ _ := by
    rw [lowerBound, ModularSet.Entry.contains_iff]
    exact Int.modEq_one
  literalConstraints e member := by cases member

/-- The difference of truncated quotients was rewritten where the rule is wrong. -/
def Firing.TruncDivSlip (interp : Nat → Env → Option Int) (env : Env) : Firing → Prop
  | .rule fired bindings _ =>
    fired.label = .truncDivDifference ∧ ∃ x, bindings.values interp env .x = some x ∧
      x + bindings.consts.c2.fmod bindings.consts.c3 < 0 ∧
      (x + bindings.consts.c2) % bindings.consts.c3 ≠ 0 ∧
      bindings.consts.c3 ≤ (x + bindings.consts.c2) % bindings.consts.c3 +
        (bindings.consts.c1 - bindings.consts.c2)
  | _ => False

theorem Firing.meets_iff_truncDiv {interp : Nat → Env → Option Int} {env : Env} {firing : Firing}
    (labels : ∀ fired bindings result, firing = .rule fired bindings result →
      fired.label = .plain ∨ fired.label = .truncDivDifference) :
    firing.meets interp env = true ↔ ¬firing.TruncDivSlip interp env := by
  cases firing with
  | rule fired bindings result =>
    rw [TruncDivSlip, meets]
    rcases labels fired bindings result rfl with plain | marked
    · rw [Rule.meets_plain plain, plain]
      exact iff_of_true rfl fun slip => by cases slip.1
    · rw [Rule.meets, marked]
      cases bindings.values interp env .x with
      | none => exact iff_of_true rfl fun slip => by simp at slip
      | some x => simp only [Option.all_some, Label.holdsAt, Option.some.injEq,
          exists_eq_left', true_and, decide_eq_true_eq]
  | constFold | literalConstraint | analysis => exact iff_of_true rfl id

/-- A rewritten sum, difference, truncated quotient or truncated remainder keeps the value of the
node exactly where it is not a difference of truncated quotients rewritten wrongly. -/
theorem truncatedNode_exact {op : BinOp} (covered : op ∈ [BinOp.add, .sub, .div, .mod])
    {interp : Nat → Env → Option Int} {env : Env} {queries : Queries} {a b : PrimExpr}
    {firing : Firing} {v : Int} (sound : queries.Sound BinOp.indexFragment interp env)
    (sorted : WellSorted BinOp.indexFragment .int (.binary op a b) = true)
    (run : runStages queries (.binary op a b) op.stages = some (some firing))
    (evaluates : (PrimExpr.binary op a b).eval interp env = some v) :
    firing.result.eval interp env = some v ↔ ¬firing.TruncDivSlip interp env := by
  have labelled : labelledStages [.plain, .truncDivDifference] op.stages = true := by
    simp only [List.mem_cons, List.not_mem_nil, or_false] at covered
    rcases covered with rfl | rfl | rfl | rfl <;> rfl
  rw [runStages_keeps closed_indexFragment sound sorted run evaluates]
  refine Firing.meets_iff_truncDiv fun fired bindings result firingIs => ?_
  subst firingIs
  simpa using label_of_runStages labelled run

/-- `truncdiv(x + 7, 3) - truncdiv(x + 5, 3)` is 1 at `x = -4`; where `x >= -5` is known it is
rewritten to `truncdiv(truncmod(x + 2, 3) + 2, 3)`, which is 0. -/
theorem truncatedNode_changes :
    ¬∀ (op : BinOp) (interp : Nat → Env → Option Int) (env : Env) (queries : Queries)
      (a b : PrimExpr) (firing : Firing) (v : Int), op ∈ [BinOp.add, .sub, .div, .mod] →
      queries.Sound BinOp.indexFragment interp env →
      WellSorted BinOp.indexFragment .int (.binary op a b) = true →
      runStages queries (.binary op a b) op.stages = some (some firing) →
      (PrimExpr.binary op a b).eval interp env = some v →
      firing.result.eval interp env = some v := by
  intro preserved
  have same := preserved .sub (fun _ _ => none) (fun _ => -4) (.lowerBound 0 (-5))
    (.binary .div (.binary .add (.var 0) (.intImm 7)) (.intImm 3))
    (.binary .div (.binary .add (.var 0) (.intImm 5)) (.intImm 3)) _ 1 (by decide)
    (Queries.lowerBound_sound (by decide)) rfl rfl rfl
  have zero : some (0 : Int) = some 1 := same
  cases zero

/-- A quotient of a scaled variable. -/
theorem truncatedNode_exact_div :
    ∃ firing, runStages (.lowerBound 0 0)
        (.binary .div (.binary .mul (.var 0) (.intImm 6)) (.intImm 3)) BinOp.div.stages =
          some (some firing) ∧
      (firing.result.eval (fun _ _ => none) (fun _ => 5) = some 10 ↔
        ¬firing.TruncDivSlip (fun _ _ => none) fun _ => 5) := by
  have covered : BinOp.div ∈ [BinOp.add, .sub, .div, .mod] := by decide
  have bounded : (0 : Int) ≤ (fun _ => 5 : Env) 0 := by decide
  exact ⟨_, rfl, truncatedNode_exact (a := .binary .mul (.var 0) (.intImm 6)) (b := .intImm 3)
    covered (Queries.lowerBound_sound (v := 0) bounded) rfl rfl rfl⟩

/-- The minimum with a rounded up value was rewritten below one. -/
def Firing.RoundUpMinSlip (interp : Nat → Env → Option Int) (env : Env) : Firing → Prop
  | .rule fired bindings _ =>
    fired.label = .roundUpMin ∧ ∃ x, bindings.values interp env .x = some x ∧ x < 1
  | _ => False

theorem Firing.meets_iff_roundUp {interp : Nat → Env → Option Int} {env : Env} {firing : Firing}
    (labels : ∀ fired bindings result, firing = .rule fired bindings result →
      fired.label = .plain ∨ fired.label = .roundUpMin) :
    firing.meets interp env = true ↔ ¬firing.RoundUpMinSlip interp env := by
  cases firing with
  | rule fired bindings result =>
    rw [RoundUpMinSlip, meets]
    rcases labels fired bindings result rfl with plain | marked
    · rw [Rule.meets_plain plain, plain]
      exact iff_of_true rfl fun slip => by cases slip.1
    · rw [Rule.meets, marked]
      cases bindings.values interp env .x with
      | none => exact iff_of_true rfl fun slip => by simp at slip
      | some x => simp only [Option.all_some, Label.holdsAt, Option.some.injEq,
          exists_eq_left', true_and, decide_eq_true_eq, not_lt]
  | constFold | literalConstraint | analysis => exact iff_of_true rfl id

/-- A rewritten minimum or maximum keeps the value of the node exactly where it is not a minimum
with a rounded up value below one. -/
theorem minMaxNode_exact {op : BinOp} (covered : op ∈ [BinOp.min, .max])
    {interp : Nat → Env → Option Int} {env : Env} {queries : Queries} {a b : PrimExpr}
    {firing : Firing} {v : Int} (sound : queries.Sound BinOp.indexFragment interp env)
    (sorted : WellSorted BinOp.indexFragment .int (.binary op a b) = true)
    (run : runStages queries (.binary op a b) op.stages = some (some firing))
    (evaluates : (PrimExpr.binary op a b).eval interp env = some v) :
    firing.result.eval interp env = some v ↔ ¬firing.RoundUpMinSlip interp env := by
  have labelled : labelledStages [.plain, .roundUpMin] op.stages = true := by
    simp only [List.mem_cons, List.not_mem_nil, or_false] at covered
    rcases covered with rfl | rfl <;> rfl
  rw [runStages_keeps closed_indexFragment sound sorted run evaluates]
  refine Firing.meets_iff_roundUp fun fired bindings result firingIs => ?_
  subst firingIs
  simpa using label_of_runStages labelled run

/-- `min(floordiv(x + 1, 2) * 2, max(x, 2))` is 0 at `x = 0`, and rewritten to `max(x, 2)`. -/
theorem minMaxNode_changes :
    ¬∀ (op : BinOp) (interp : Nat → Env → Option Int) (env : Env) (queries : Queries)
      (a b : PrimExpr) (firing : Firing) (v : Int), op ∈ [BinOp.min, .max] →
      queries.Sound BinOp.indexFragment interp env →
      WellSorted BinOp.indexFragment .int (.binary op a b) = true →
      runStages queries (.binary op a b) op.stages = some (some firing) →
      (PrimExpr.binary op a b).eval interp env = some v →
      firing.result.eval interp env = some v := by
  intro preserved
  have same := preserved .min (fun _ _ => none) (fun _ => 0) (.lowerBound 0 0)
    (.binary .mul (.binary .floorDiv (.binary .add (.var 0) (.intImm 1)) (.intImm 2)) (.intImm 2))
    (.binary .max (.var 0) (.intImm 2)) _ 0 (by decide)
    (Queries.lowerBound_sound (by decide)) rfl rfl rfl
  have two : some (2 : Int) = some 0 := same
  cases two

/-- A maximum with a shifted operand. -/
theorem minMaxNode_exact_max :
    ∃ firing, runStages (.lowerBound 0 0)
        (.binary .max (.binary .add (.var 0) (.intImm 1)) (.var 0)) BinOp.max.stages =
          some (some firing) ∧
      (firing.result.eval (fun _ _ => none) (fun _ => 5) = some 6 ↔
        ¬firing.RoundUpMinSlip (fun _ _ => none) fun _ => 5) := by
  have covered : BinOp.max ∈ [BinOp.min, .max] := by decide
  have bounded : (0 : Int) ≤ (fun _ => 5 : Env) 0 := by decide
  exact ⟨_, rfl, minMaxNode_exact (a := .binary .add (.var 0) (.intImm 1)) (b := .var 0)
    covered (Queries.lowerBound_sound (v := 0) bounded) rfl rfl rfl⟩

end Tvm.Arith
