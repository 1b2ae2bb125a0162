import Mathlib
import Tvm.Te.IndexValues

/-!
# Schedules lose and repeat no iteration

The leaf assignments that pass the bound checks correspond to the points of the root ranges.
-/

namespace Tvm.Te

open Arith PrimExpr Lib

/-- The leaf assignments inside the leaf ranges that satisfy all predicates. -/
def survivors (stage : Stage) (outer : Env) (domMap : Ranges) (preds : List PrimExpr) : Set Env :=
  {env | (∀ v, v ∉ stage.leafIterVars → env v = outer v) ∧
    (∀ leaf ∈ stage.leafIterVars, ∃ range, domMap.lookup leaf = some range ∧
      range.Contains env (env leaf)) ∧ ∀ pred ∈ preds, pred.IsTrue env}

/-- The points of the root ranges: those of the analysis and those of the variables themselves,
which are the same ranges unless the analysis starts from other ones. -/
def rootPoints (stage : Stage) (outer : Env) (start : Ranges) : Set Env :=
  {point | (∀ v, v ∉ stage.roots → point v = outer v) ∧
    ∀ iv ∈ stage.roots, (∃ range, start.lookup iv = some range ∧ range.Contains outer (point iv)) ∧
      ∃ dom, stage.dom iv = some dom ∧ dom.Contains outer (point iv)}

def rootPoint (stage : Stage) (outer : Env) (valueMap : Var → Option PrimExpr) (env : Env) : Env :=
  fun v => if v ∈ stage.roots then ((valueMap v).bind fun e => e.value env).getD 0 else outer v

/-- The indices and the predicates are made, and the surviving leaf assignments are mapped one to
one onto the points of the root ranges. -/
def Stage.Exact (stage : Stage) (analyzer : Analyzer) (sameAs : Range → Range → Bool) (outer : Env)
    (start domMap : Ranges) : Prop :=
  ∃ valueMap preds, passUpIndex stage domMap (leafValues stage) false = some valueMap ∧
    makeBoundCheck analyzer sameAs stage domMap valueMap false [] = some preds ∧
    Set.BijOn (rootPoint stage outer valueMap) (survivors stage outer domMap preds)
      (rootPoints stage outer start)

section Leaves

variable {stage : Stage} {known : Finset Var} {outer env : Env} {start domMap : Ranges}
  {analyzer : Analyzer} {e extent : PrimExpr} {f : Env → Int} {x : Int}

structure LeafPoint (stage : Stage) (outer : Env) (domMap : Ranges) (env : Env) : Prop where
  outside : ∀ v, v ∉ stage.leafIterVars → env v = outer v
  inRange : ∀ leaf ∈ stage.leafIterVars, (domainBounds domMap outer).Contains env leaf

theorem Stage.WellFormed.leaf_known (wellFormed : stage.WellFormed known) {leaf : Var}
    (isLeaf : leaf ∈ stage.leafIterVars) : leaf ∈ known :=
  wellFormed.derived.leaves_subset (List.mem_toFinset.mpr isLeaf)

theorem agrees_of_outside (wellFormed : stage.WellFormed known)
    (outside : ∀ v, v ∉ stage.leafIterVars → env v = outer v) :
    Agrees (stage.variables known) outer env :=
  fun v isOuter => outside v fun isLeaf => isOuter (.inl (wellFormed.leaf_known isLeaf))

/-- The leaf assignment with the first value for every other variable of the stage. -/
def complete (stage : Stage) (outer : Env) (domMap : Ranges) (env : Env) : Env :=
  fun v => if v ∈ stage.leafIterVars then env v else firstValues domMap outer v

theorem Domains.complete_agrees (domains : Domains stage known outer start domMap)
    (wellFormed : stage.WellFormed known) :
    Agrees (stage.variables known) outer (complete stage outer domMap env) := by
  intro v isOuter
  rw [complete, if_neg fun isLeaf => isOuter (.inl (wellFormed.leaf_known isLeaf))]
  exact domains.good.firstValues_agrees v isOuter

theorem Domains.complete_holds (domains : Domains stage known outer start domMap)
    (wellFormed : stage.WellFormed known) (point : LeafPoint stage outer domMap env) :
    domMap.Hold (complete stage outer domMap env) := by
  have agrees : Agrees (stage.variables known) outer (complete stage outer domMap env) :=
    domains.complete_agrees wellFormed
  intro entry member
  obtain ⟨low, extent, fixedMin, fixedExtent, positive⟩ := domains.good.fixed entry member
  have found := (lookup_eq_some_iff_mem domains.good.distinct).mpr member
  refine ⟨low, extent, fixedMin.value_of_agrees agrees, fixedExtent.value_of_agrees agrees, ?_⟩
  rw [complete]
  split
  · rename_i isLeaf
    have contains := point.inRange entry.1 isLeaf
    rwa [AxisBounds.Contains, domainBounds_low found fixedMin.value,
      domainBounds_extent found fixedExtent.value] at contains
  · have first : firstValues domMap outer entry.1 = low := by
      have same : domMap.lookup entry.1 = some entry.2 := found
      rw [firstValues, same]
      show (entry.2.min.value outer).getD 0 = low
      rw [fixedMin.value, Option.getD_some]
    rw [first]
    omega

theorem Computes.complete (computes : Computes (stage.variables known) stage.leafIterVars.toFinset
    outer e f) (domains : Domains stage known outer start domMap)
    (wellFormed : stage.WellFormed known) (point : LeafPoint stage outer domMap env) :
    f (complete stage outer domMap env) = f env :=
  computes.local (domains.complete_agrees wellFormed) (agrees_of_outside wellFormed point.outside)
    fun _ isLeaf => if_pos (List.mem_toFinset.mp isLeaf)

theorem Domains.upperCheck_iff (domains : Domains stage known outer start domMap)
    (wellFormed : stage.WellFormed known) (sound : analyzer.Sound)
    (point : LeafPoint stage outer domMap env)
    (computes : Computes (stage.variables known) stage.leafIterVars.toFinset outer e f)
    (fixed : Fixed (stage.variables known) outer extent x) :
    (∀ pred ∈ upperCheck analyzer domMap e extent, pred.IsTrue env) ↔ f env < x := by
  have agrees := agrees_of_outside wellFormed point.outside
  have holds := domains.complete_holds wellFormed point
  have completeAgrees : Agrees (stage.variables known) outer (complete stage outer domMap env) :=
    domains.complete_agrees wellFormed
  have predicate : (make .lt e extent).IsTrue env ↔ f env < x := by
    rw [isTrue_iff (value_lt (computes.value env agrees) (fixed.value_of_agrees agrees)),
      truth_ne_zero]
  have listed : (∀ pred ∈ [make .lt e extent], pred.IsTrue env) ↔ f env < x := by
    rw [List.forall_mem_singleton, predicate]
  have contains := (sound.evaluates domMap e).contains _ _ holds (computes.value _ completeAgrees)
  rw [computes.complete domains wellFormed point] at contains
  rw [upperCheck]
  cases isMax : (analyzer.evalSet domMap e).maxValue with
  | negInf => exact listed
  | posInf => exact listed
  | expr vmax =>
    simp only
    split
    · rename_i proved
      have above := contains.above
      rw [isMax] at above
      obtain ⟨m, value, bound⟩ := above
      have below := sound.proves domMap _ proved _ _ holds
        (value_lt value (fixed.value_of_agrees completeAgrees))
      rw [truth_ne_zero] at below
      exact iff_of_true (fun pred absurd => by cases absurd) (bound.trans_lt below)
    · exact listed

theorem Domains.lowerCheck_iff (domains : Domains stage known outer start domMap)
    (wellFormed : stage.WellFormed known) (sound : analyzer.Sound)
    (point : LeafPoint stage outer domMap env)
    (computes : Computes (stage.variables known) stage.leafIterVars.toFinset outer e f) :
    (∀ pred ∈ lowerCheck analyzer domMap e, pred.IsTrue env) ↔ 0 ≤ f env := by
  have agrees := agrees_of_outside wellFormed point.outside
  have holds := domains.complete_holds wellFormed point
  have completeAgrees : Agrees (stage.variables known) outer (complete stage outer domMap env) :=
    domains.complete_agrees wellFormed
  have value_ge : ∀ {a : PrimExpr} {given : Env} {y : Int}, a.value given = some y →
      (make .ge a (.intImm 0)).value given = some (truth (y ≥ 0)) := fun left =>
    value_make left (value_intImm _ 0) (admits_int rfl _ _) rfl
  have predicate : (make .ge e (.intImm 0)).IsTrue env ↔ 0 ≤ f env := by
    rw [isTrue_iff (value_ge (computes.value env agrees)), truth_ne_zero]
  have listed : (∀ pred ∈ [make .ge e (.intImm 0)], pred.IsTrue env) ↔ 0 ≤ f env := by
    rw [List.forall_mem_singleton, predicate]
  have contains := (sound.evaluates domMap e).contains _ _ holds (computes.value _ completeAgrees)
  rw [computes.complete domains wellFormed point] at contains
  rw [lowerCheck]
  cases isMin : (analyzer.evalSet domMap e).minValue with
  | negInf => exact listed
  | posInf => exact listed
  | expr vmin =>
    simp only
    split
    · rename_i proved
      have below := contains.below
      rw [isMin] at below
      obtain ⟨m, value, bound⟩ := below
      have nonneg := sound.proves domMap _ proved _ _ holds (value_ge value)
      rw [truth_ne_zero] at nonneg
      exact iff_of_true (fun pred absurd => by cases absurd) (nonneg.trans bound)
    · exact listed

end Leaves

theorem exists_predicates {α β : Type} {f : α → Option (List PrimExpr)} {xs : List α}
    {domain : β → Prop} {holds : β → PrimExpr → Prop} {meaning : β → α → Prop}
    (each : ∀ x ∈ xs, ∃ preds, f x = some preds ∧
      ∀ env, domain env → ((∀ pred ∈ preds, holds env pred) ↔ meaning env x)) :
    ∃ lists, xs.mapM f = some lists ∧
      ∀ env, domain env → ((∀ pred ∈ lists.flatten, holds env pred) ↔ ∀ x ∈ xs, meaning env x) := by
  induction xs with
  | nil =>
    refine ⟨[], rfl, fun env _ => ?_⟩
    exact iff_of_true (fun pred absurd => by cases absurd) (fun x absurd => by cases absurd)
  | cons x rest ih =>
    obtain ⟨preds, first, firstIff⟩ := each x List.mem_cons_self
    obtain ⟨lists, others, othersIff⟩ := ih fun y member => each y (List.mem_cons_of_mem x member)
    refine ⟨preds :: lists, ?_, fun env isPoint => ?_⟩
    · rw [List.mapM_cons, first, others]
      rfl
    · rw [List.flatten_cons, List.forall_mem_append, firstIff env isPoint, othersIff env isPoint,
        List.forall_mem_cons]

section Predicates

variable {stage : Stage} {known : Finset Var} {outer env : Env} {start domMap : Ranges}
  {analyzer : Analyzer} {sameAs : Range → Range → Bool} {iv : Var}

/-- The ranges of the root variables themselves are constants. -/
def Stage.ConstantDoms (stage : Stage) : Prop :=
  ∀ iv ∈ stage.roots, ∃ min extent : Int, stage.dom iv = some ⟨.intImm min, .intImm extent⟩

def stageValues (stage : Stage) (outer : Env) (domMap : Ranges) (env : Env) : Var → Int :=
  AxisRelation.run (domainBounds domMap outer) (stage.relations.map IterVarRelation.axes) env

def Stage.Indexed (stage : Stage) (known : Finset Var) (outer : Env) (domMap : Ranges)
    (valueMap : Var → Option PrimExpr) : Prop :=
  ∀ iv ∈ known, ComputesAt (stage.variables known) stage.leafIterVars.toFinset outer valueMap
    (stageValues stage outer domMap) iv

theorem Domains.exists_indexed (domains : Domains stage known outer start domMap)
    (wellFormed : stage.WellFormed known) :
    ∃ valueMap, Te.passUpIndex stage domMap (leafValues stage) false = some valueMap ∧
      stage.Indexed known outer domMap valueMap := by
  obtain ⟨valueMap, run, indexed, _⟩ := domains.fixedRanges.passUpIndex false wellFormed.derived
    subset_rfl stage.relations rfl (leafValues stage) (fun env => env) (by
      intro leaf isLeaf
      refine ⟨.var leaf, if_pos (List.mem_toFinset.mp isLeaf), ?_⟩
      apply Computes.var isLeaf)
  exact ⟨valueMap, run, indexed⟩

/-- The flags of `PassUpBoundCheck`. -/
structure Stage.Flagged (stage : Stage) (known : Finset Var) (outer : Env) (domMap : Ranges)
    (flags : Var → Option Bool) : Prop where
  flag : ∀ iv ∈ known, ∃ flag, flags iv = some flag
  leaf : ∀ leaf ∈ stage.leafIterVars, flags leaf = some false
  flows : ∀ relation ∈ stage.relations.map IterVarRelation.axes,
    relation.Flows (domainBounds domMap outer) (flagOf flags)

theorem Domains.exists_flagged (domains : Domains stage known outer start domMap)
    (wellFormed : stage.WellFormed known) (sound : analyzer.Sound) :
    ∃ flags, Te.passUpBoundCheck analyzer stage domMap []
        (fun iv => if iv ∈ stage.leafIterVars then some false else none) = some flags ∧
      stage.Flagged known outer domMap flags := by
  have noFlag : ∀ leaf ∈ stage.leafIterVars,
      (if leaf ∈ stage.leafIterVars then some false else none) = some false :=
    fun leaf isLeaf => if_pos isLeaf
  obtain ⟨flags, run, flag, kept, flows⟩ := domains.passUpBoundCheck sound wellFormed.derived
    subset_rfl stage.relations rfl (fun iv => if iv ∈ stage.leafIterVars then some false else none)
    (fun leaf isLeaf => ⟨false, noFlag leaf (List.mem_toFinset.mp isLeaf)⟩)
  refine ⟨flags, run, flag, fun leaf isLeaf => ?_, flows⟩
  rw [kept leaf (.inl (List.mem_toFinset.mpr isLeaf))]
  exact noFlag leaf isLeaf

/-- What the first loop of `MakeBoundCheck` asks of a variable. -/
def Guarded (stage : Stage) (outer : Env) (domMap : Ranges) (flags : Var → Option Bool)
    (env : Env) (iv : Var) : Prop :=
  stage.isOpaque iv = false → flagOf flags iv = true → stageValues stage outer domMap env iv <
    (domainBounds domMap outer).low iv + (domainBounds domMap outer).extent iv

theorem Domains.derivedCheck_iff (domains : Domains stage known outer start domMap)
    (wellFormed : stage.WellFormed known) (sound : analyzer.Sound)
    {valueMap : Var → Option PrimExpr} (indexed : stage.Indexed known outer domMap valueMap)
    {flags : Var → Option Bool} (flagged : stage.Flagged known outer domMap flags)
    (member : iv ∈ stage.allIterVars) :
    ∃ preds, derivedCheck analyzer stage domMap valueMap flags [] iv = some preds ∧
      ∀ env, LeafPoint stage outer domMap env →
        ((∀ pred ∈ preds, pred.IsTrue env) ↔ Guarded stage outer domMap flags env iv) := by
  rw [derivedCheck]
  cases isOpaque : stage.isOpaque iv with
  | true =>
    refine ⟨[], if_pos (Bool.or_true _), fun env _ => iff_of_true (fun _ absurd => by cases absurd) ?_⟩
    intro visible
    rw [isOpaque] at visible
    cases visible
  | false =>
    have isKnown := wellFormed.listed iv member isOpaque
    obtain ⟨flag, isFlag⟩ := flagged.flag iv isKnown
    obtain ⟨e, isValue, computes⟩ := indexed iv isKnown
    obtain ⟨range, found, fixedMin, fixedExtent, _⟩ :=
      domains.exists_fixed (domains.knows iv isKnown)
    have flagIs : flagOf flags iv = flag := by rw [flagOf, isFlag, Option.getD_some]
    simp only [List.not_mem_nil, decide_false, Bool.or_false, Bool.false_eq_true, if_false, isFlag,
      found, isValue, Option.bind_eq_bind, Option.bind_some, Option.pure_def]
    cases flag with
    | false =>
      refine ⟨[], rfl, fun env _ => iff_of_true (fun _ absurd => by cases absurd) ?_⟩
      intro _ isTrue
      rw [flagIs] at isTrue
      cases isTrue
    | true =>
      refine ⟨_, rfl, fun env point => ?_⟩
      rw [domains.upperCheck_iff wellFormed sound point
        (computes.make fixedMin.computes rfl rfl fun _ => rfl) fixedExtent]
      constructor
      · intro below _ _
        omega
      · intro guarded
        have below := guarded isOpaque flagIs
        omega

/-- What the second loop of `MakeBoundCheck` asks of a root variable. -/
def RootGuarded (analyzer : Analyzer) (sameAs : Range → Range → Bool) (stage : Stage) (outer : Env)
    (domMap : Ranges) (env : Env) (iv : Var) : Prop :=
  stage.isOpaque iv = false → ∀ own range, stage.dom iv = some own → domMap.lookup iv = some range →
    isRangeSame analyzer sameAs own range = false →
      own.Contains outer (stageValues stage outer domMap env iv)

theorem contains_const {min extent x : Int} :
    Range.Contains outer ⟨.intImm min, .intImm extent⟩ x ↔ min ≤ x ∧ x < min + extent := by
  constructor
  · rintro ⟨lower, size, isLower, isSize, inside⟩
    cases isLower
    cases isSize
    exact inside
  · exact fun inside => ⟨min, extent, rfl, rfl, inside⟩

theorem mem_roots : iv ∈ stage.roots ↔ iv ∈ stage.rootIterVars ∧ stage.isOpaque iv = false := by
  rw [Stage.roots, List.mem_toFinset, List.mem_filter, Bool.not_eq_true']

theorem Domains.rootCheck_iff (domains : Domains stage known outer start domMap)
    (sameAs : Range → Range → Bool)
    (wellFormed : stage.WellFormed known) (sound : analyzer.Sound) (constants : stage.ConstantDoms)
    {valueMap : Var → Option PrimExpr} (indexed : stage.Indexed known outer domMap valueMap)
    (member : iv ∈ stage.rootIterVars) :
    ∃ preds, rootCheck analyzer sameAs stage domMap valueMap false [] iv = some preds ∧
      ∀ env, LeafPoint stage outer domMap env → ((∀ pred ∈ preds, pred.IsTrue env) ↔
        RootGuarded analyzer sameAs stage outer domMap env iv) := by
  rw [rootCheck]
  cases isOpaque : stage.isOpaque iv with
  | true =>
    refine ⟨[], if_pos (Bool.or_true _), fun env _ => iff_of_true (fun _ absurd => by cases absurd) ?_⟩
    intro visible
    rw [isOpaque] at visible
    cases visible
  | false =>
    have isRoot : iv ∈ stage.roots := mem_roots.mpr ⟨member, isOpaque⟩
    have isKnown := wellFormed.derived.roots_subset isRoot
    obtain ⟨min, extent, isDom⟩ := constants iv isRoot
    obtain ⟨e, isValue, computes⟩ := indexed iv isKnown
    obtain ⟨range, found, _⟩ := domains.exists_fixed (domains.knows iv isKnown)
    simp only [List.not_mem_nil, decide_false, Bool.or_false, Bool.false_eq_true, if_false, isDom,
      found, isValue, Option.bind_eq_bind, Option.bind_some, Option.pure_def, Bool.not_false,
      Bool.true_and]
    cases same : isRangeSame analyzer sameAs ⟨.intImm min, .intImm extent⟩ range with
    | true =>
      refine ⟨[], rfl, fun env _ => iff_of_true (fun _ absurd => by cases absurd) ?_⟩
      intro _ own other isOwn isOther different
      rw [isDom] at isOwn
      rw [found] at isOther
      cases isOwn
      cases isOther
      rw [same] at different
      cases different
    | false =>
      have shifted : Computes (stage.variables known) stage.leafIterVars.toFinset outer
          (make .sub e (.intImm min)) (fun env => stageValues stage outer domMap env iv - min) :=
        computes.make (Fixed.intImm min).computes rfl rfl fun _ => rfl
      refine ⟨_, rfl, fun env point => ?_⟩
      rw [List.forall_mem_append, domains.lowerCheck_iff wellFormed sound point shifted,
        domains.upperCheck_iff wellFormed sound point shifted (.intImm extent)]
      constructor
      · rintro ⟨lower, upper⟩ _ own other isOwn _ _
        rw [isDom] at isOwn
        cases isOwn
        rw [contains_const]
        omega
      · intro guarded
        have inside := guarded isOpaque _ range isDom found same
        rw [contains_const] at inside
        omega

theorem contains_of_isRangeSame (sound : analyzer.Sound)
    (identity : ∀ first second, sameAs first second = true → first = second)
    {min extent low size x : Int}
    (same : isRangeSame analyzer sameAs ⟨.intImm min, .intImm extent⟩
      ⟨.intImm low, .intImm size⟩ = true)
    (inside : low ≤ x ∧ x < low + size) : min ≤ x ∧ x < min + extent := by
  rw [isRangeSame, Bool.or_eq_true, Bool.and_eq_true] at same
  rcases same with isNode | ⟨sameMin, sameExtent⟩
  · have equal := identity _ _ isNode
    simp only [Range.mk.injEq, intImm.injEq] at equal
    omega
  · have holds : Ranges.Hold (fun _ => 0) [] := fun _ absurd => by cases absurd
    have value : ∀ a b : Int, (make .eq (.intImm a) (.intImm b)).value (fun _ => 0) =
        some (truth (a = b)) := fun a b =>
      value_make (value_intImm _ a) (value_intImm _ b) (admits_int rfl _ _) rfl
    have minEqual := sound.proves [] _ sameMin _ _ holds (value min low)
    have extentEqual := sound.proves [] _ sameExtent _ _ holds (value extent size)
    rw [truth_ne_zero] at minEqual extentEqual
    omega

structure InRange (stage : Stage) (known : Finset Var) (outer : Env) (domMap : Ranges)
    (env : Env) : Prop where
  point : LeafPoint stage outer domMap env
  everywhere : ∀ iv ∈ known,
    (domainBounds domMap outer).Contains (stageValues stage outer domMap env) iv
  doms : ∀ iv ∈ stage.roots, ∃ dom, stage.dom iv = some dom ∧
    dom.Contains outer (stageValues stage outer domMap env iv)

theorem Domains.fits_axes (domains : Domains stage known outer start domMap) :
    ∀ relation ∈ stage.relations.map IterVarRelation.axes,
      relation.Fits (domainBounds domMap outer) := by
  intro axes member
  obtain ⟨relation, isRelation, rfl⟩ := List.mem_map.mp member
  exact domains.fits relation isRelation

theorem Stage.WellFormed.children_checked (wellFormed : stage.WellFormed known) :
    ∀ axes ∈ stage.relations.map IterVarRelation.axes, ∀ child ∈ axes.children,
      child ∈ stage.allIterVars ∨ ∃ parent, axes = .shift parent child := by
  intro axes member child isChild
  obtain ⟨relation, isRelation, rfl⟩ := List.mem_map.mp member
  rcases wellFormed.childrenListed relation isRelation child isChild with isListed | ⟨parent, rfl⟩
  · exact .inl isListed
  · exact .inr ⟨parent, rfl⟩

theorem Domains.inRange_of_guarded (domains : Domains stage known outer start domMap)
    (wellFormed : stage.WellFormed known) {flags : Var → Option Bool}
    (flagged : stage.Flagged known outer domMap flags) (point : LeafPoint stage outer domMap env)
    (guards : ∀ iv ∈ stage.allIterVars, Guarded stage outer domMap flags env iv) :
    ∀ iv ∈ known, (domainBounds domMap outer).Contains (stageValues stage outer domMap env) iv := by
  have unflagged := wellFormed.derived.run_unflagged domains.fits_axes flagged.flows
    fun leaf isLeaf => (point.inRange leaf (List.mem_toFinset.mp isLeaf)).imp_right fun upper _ => upper
  have checked := wellFormed.derived.run_flagged domains.fits_axes flagged.flows
    wellFormed.rootsListed wellFormed.children_checked
    fun iv isKnown isListed => guards iv isListed (wellFormed.visible iv isKnown)
  intro iv isKnown
  refine ⟨(unflagged iv isKnown).1, ?_⟩
  cases flag : flagOf flags iv with
  | false => exact (unflagged iv isKnown).2 flag
  | true => exact checked iv isKnown flag

theorem Domains.makeBoundCheck_iff (domains : Domains stage known outer start domMap)
    (wellFormed : stage.WellFormed known) (sound : analyzer.Sound)
    (identity : ∀ first second, sameAs first second = true → first = second)
    (ranges : stage.RootRanges start) (constants : stage.ConstantDoms)
    {valueMap : Var → Option PrimExpr} (indexed : stage.Indexed known outer domMap valueMap) :
    ∃ preds, makeBoundCheck analyzer sameAs stage domMap valueMap false [] = some preds ∧
      ∀ env, LeafPoint stage outer domMap env →
        ((∀ pred ∈ preds, pred.IsTrue env) ↔ InRange stage known outer domMap env) := by
  obtain ⟨flags, runFlags, flagged⟩ := domains.exists_flagged wellFormed sound
  obtain ⟨derived, runDerived, derivedIff⟩ := exists_predicates fun iv member =>
    domains.derivedCheck_iff wellFormed sound indexed flagged member
  obtain ⟨roots, runRoots, rootsIff⟩ := exists_predicates fun iv member =>
    domains.rootCheck_iff sameAs wellFormed sound constants indexed member
  refine ⟨derived.flatten ++ roots.flatten, ?_, fun env point => ?_⟩
  · rw [makeBoundCheck, runFlags]
    simp only [Option.bind_eq_bind, Option.bind_some, runDerived, runRoots, Option.pure_def]
  · rw [List.forall_mem_append, derivedIff env point, rootsIff env point]
    constructor
    · rintro ⟨guards, rootGuards⟩
      have everywhere := domains.inRange_of_guarded wellFormed flagged point guards
      refine ⟨point, everywhere, fun iv isRoot => ?_⟩
      obtain ⟨member, visible⟩ := mem_roots.mp isRoot
      have isKnown := wellFormed.derived.roots_subset isRoot
      obtain ⟨min, extent, isDom⟩ := constants iv isRoot
      obtain ⟨range, found, _⟩ := domains.exists_fixed (domains.knows iv isKnown)
      refine ⟨_, isDom, ?_⟩
      cases same : isRangeSame analyzer sameAs ⟨.intImm min, .intImm extent⟩ range with
      | false => exact rootGuards iv member visible _ _ isDom found same
      | true =>
        obtain ⟨first, isFirst⟩ := Option.ne_none_iff_exists'.mp (ranges.covers iv member)
        have kept := domains.keeps iv first isFirst
        obtain ⟨low, size, rfl, _⟩ := ranges.constant (iv, first)
          ((lookup_eq_some_iff_mem ranges.distinct).mp isFirst)
        obtain rfl := Option.some.inj (kept.symm.trans found)
        have inside := everywhere iv isKnown
        rw [AxisBounds.Contains, domainBounds_low kept rfl, domainBounds_extent kept rfl] at inside
        rw [contains_const]
        exact contains_of_isRangeSame sound identity same inside
    · intro inRange
      refine ⟨fun iv member visible _ => ?_, fun iv member visible own range isOwn _ _ => ?_⟩
      · exact (inRange.everywhere iv (wellFormed.listed iv member visible)).2
      · obtain ⟨dom, isDom, inside⟩ := inRange.doms iv (mem_roots.mpr ⟨member, visible⟩)
        obtain rfl := Option.some.inj (isDom.symm.trans isOwn)
        exact inside

theorem Domains.leafPoint_iff (domains : Domains stage known outer start domMap)
    (wellFormed : stage.WellFormed known) :
    LeafPoint stage outer domMap env ↔ (∀ v, v ∉ stage.leafIterVars → env v = outer v) ∧
      ∀ leaf ∈ stage.leafIterVars, ∃ range, domMap.lookup leaf = some range ∧
        range.Contains env (env leaf) := by
  have contains : (∀ v, v ∉ stage.leafIterVars → env v = outer v) → ∀ leaf ∈ stage.leafIterVars,
      ((domainBounds domMap outer).Contains env leaf ↔ ∃ range, domMap.lookup leaf = some range ∧
        range.Contains env (env leaf)) := by
    intro outside leaf isLeaf
    have agrees := agrees_of_outside wellFormed outside
    obtain ⟨range, found, fixedMin, fixedExtent, _⟩ :=
      domains.exists_fixed (domains.knows leaf (wellFormed.leaf_known isLeaf))
    constructor
    · exact fun inside => ⟨range, found, _, _, fixedMin.value_of_agrees agrees,
        fixedExtent.value_of_agrees agrees, inside⟩
    · rintro ⟨other, isOther, low, extent, isLow, isExtent, inside⟩
      obtain rfl := Option.some.inj (found.symm.trans isOther)
      rw [fixedMin.value_of_agrees agrees] at isLow
      rw [fixedExtent.value_of_agrees agrees] at isExtent
      cases isLow
      cases isExtent
      exact inside
  constructor
  · exact fun point => ⟨point.outside, fun leaf isLeaf =>
      (contains point.outside leaf isLeaf).mp (point.inRange leaf isLeaf)⟩
  · exact fun ⟨outside, inside⟩ => ⟨outside, fun leaf isLeaf =>
      (contains outside leaf isLeaf).mpr (inside leaf isLeaf)⟩

end Predicates

section Correspondence

variable {stage : Stage} {known : Finset Var} {outer env : Env} {start domMap : Ranges}
  {valueMap : Var → Option PrimExpr} {iv : Var}

theorem rootPoint_of_root (wellFormed : stage.WellFormed known)
    (indexed : stage.Indexed known outer domMap valueMap)
    (outside : ∀ v, v ∉ stage.leafIterVars → env v = outer v) (isRoot : iv ∈ stage.roots) :
    rootPoint stage outer valueMap env iv = stageValues stage outer domMap env iv := by
  obtain ⟨e, isValue, computes⟩ := indexed iv (wellFormed.derived.roots_subset isRoot)
  rw [rootPoint, if_pos isRoot, isValue, Option.bind_some,
    computes.value env (agrees_of_outside wellFormed outside), Option.getD_some]

theorem Domains.start_contains (domains : Domains stage known outer start domMap)
    (ranges : stage.RootRanges start) (isRoot : iv ∈ stage.roots) (values : Env) :
    (∃ range, start.lookup iv = some range ∧ range.Contains outer (values iv)) ↔
      (domainBounds domMap outer).Contains values iv := by
  obtain ⟨range, found⟩ := Option.ne_none_iff_exists'.mp (ranges.covers iv (mem_roots.mp isRoot).1)
  have kept := domains.keeps iv range found
  obtain ⟨low, size, rfl, _⟩ :=
    ranges.constant (iv, range) ((lookup_eq_some_iff_mem ranges.distinct).mp found)
  rw [AxisBounds.Contains, domainBounds_low kept rfl, domainBounds_extent kept rfl]
  constructor
  · rintro ⟨other, isOther, inside⟩
    obtain rfl := Option.some.inj (found.symm.trans isOther)
    rwa [contains_const] at inside
  · exact fun inside => ⟨_, found, contains_const.mpr inside⟩

theorem Domains.rootPoint_mem (domains : Domains stage known outer start domMap)
    (wellFormed : stage.WellFormed known) (ranges : stage.RootRanges start)
    (indexed : stage.Indexed known outer domMap valueMap)
    (inRange : InRange stage known outer domMap env) :
    rootPoint stage outer valueMap env ∈ rootPoints stage outer start := by
  refine ⟨fun v notRoot => if_neg notRoot, fun iv isRoot => ?_⟩
  rw [rootPoint_of_root wellFormed indexed inRange.point.outside isRoot]
  refine ⟨?_, inRange.doms iv isRoot⟩
  rw [domains.start_contains ranges isRoot (stageValues stage outer domMap env)]
  exact inRange.everywhere iv (wellFormed.derived.roots_subset isRoot)

theorem Domains.rootPoint_injOn (domains : Domains stage known outer start domMap)
    (wellFormed : stage.WellFormed known)
    (indexed : stage.Indexed known outer domMap valueMap) :
    Set.InjOn (rootPoint stage outer valueMap) {env | InRange stage known outer domMap env} := by
  intro env inRange other otherInRange same
  have onRoots : ∀ root ∈ stage.roots, stageValues stage outer domMap env root =
      stageValues stage outer domMap other root := by
    intro root isRoot
    rw [← rootPoint_of_root wellFormed indexed inRange.point.outside isRoot,
      ← rootPoint_of_root wellFormed indexed otherInRange.point.outside isRoot, same]
  have onKnown := wellFormed.derived.run_injective domains.fits_axes inRange.everywhere
    otherInRange.everywhere onRoots
  funext v
  by_cases isLeaf : v ∈ stage.leafIterVars
  · have place := List.mem_toFinset.mpr isLeaf
    have equal := onKnown v (wellFormed.leaf_known isLeaf)
    rwa [wellFormed.derived.run_of_leaf (.inl place),
      wellFormed.derived.run_of_leaf (.inl place)] at equal
  · rw [inRange.point.outside v isLeaf, otherInRange.point.outside v isLeaf]

theorem Domains.rootPoint_surjOn (domains : Domains stage known outer start domMap)
    (wellFormed : stage.WellFormed known) (ranges : stage.RootRanges start)
    (indexed : stage.Indexed known outer domMap valueMap) :
    Set.SurjOn (rootPoint stage outer valueMap) {env | InRange stage known outer domMap env}
      (rootPoints stage outer start) := by
  rintro point ⟨outside, onRoots⟩
  obtain ⟨values, rootValues, everywhere⟩ := wellFormed.derived.exists_run domains.fits_axes
    fun root isRoot => (domains.start_contains ranges isRoot point).mp (onRoots root isRoot).1
  -- the leaves keep these values and the rest are as outside
  have onKnown : ∀ iv ∈ known, stageValues stage outer domMap values iv =
      stageValues stage outer domMap
        (fun v => if v ∈ stage.leafIterVars then values v else outer v) iv :=
    wellFormed.derived.run_congr fun leaf isLeaf => (if_pos (List.mem_toFinset.mp isLeaf)).symm
  have sameRoots : ∀ root ∈ stage.roots, stageValues stage outer domMap
      (fun v => if v ∈ stage.leafIterVars then values v else outer v) root = point root := by
    intro root isRoot
    rw [← rootValues root isRoot]
    exact (onKnown root (wellFormed.derived.roots_subset isRoot)).symm
  have leafPoint : LeafPoint stage outer domMap
      (fun v => if v ∈ stage.leafIterVars then values v else outer v) := by
    refine ⟨fun v notLeaf => if_neg notLeaf, fun leaf isLeaf => ?_⟩
    have contains := everywhere leaf (wellFormed.leaf_known isLeaf)
    rw [AxisBounds.Contains,
      wellFormed.derived.run_of_leaf (.inl (List.mem_toFinset.mpr isLeaf))] at contains
    rw [AxisBounds.Contains, if_pos isLeaf]
    exact contains
  refine ⟨fun v => if v ∈ stage.leafIterVars then values v else outer v, ⟨leafPoint, ?_, ?_⟩, ?_⟩
  · intro iv isKnown
    rw [AxisBounds.Contains, ← onKnown iv isKnown]
    exact everywhere iv isKnown
  · intro iv isRoot
    rw [sameRoots iv isRoot]
    exact (onRoots iv isRoot).2
  · funext v
    by_cases isRoot : v ∈ stage.roots
    · rw [rootPoint_of_root wellFormed indexed leafPoint.outside isRoot, sameRoots v isRoot]
    · rw [rootPoint, if_neg isRoot, outside v isRoot]

/-- Where the factors are positive the schedule loses and repeats no iteration. -/
theorem passDownDomain_exact {analyzer : Analyzer} (sound : analyzer.Sound)
    {sameAs : Range → Range → Bool}
    (identity : ∀ first second, sameAs first second = true → first = second)
    (wellFormed : stage.WellFormed known) (ranges : stage.RootRanges start)
    (constants : stage.ConstantDoms) {context : Ranges}
    (outside : Outside (stage.variables known) outer context)
    (positive : ∀ relation ∈ stage.relations, relation.Positive (stage.variables known) outer)
    {after : DomainState}
    (run : passDownDomain analyzer stage ⟨start, context⟩ false = some after) :
    stage.Exact analyzer sameAs outer start after.state := by
  have domains := passDownDomain_domains wellFormed ranges sound outside positive run
  obtain ⟨valueMap, isIndex, indexed⟩ := domains.exists_indexed wellFormed
  obtain ⟨preds, isCheck, predsIff⟩ :=
    domains.makeBoundCheck_iff wellFormed sound identity ranges constants indexed
  have survive : survivors stage outer after.state preds =
      {env | InRange stage known outer after.state env} := by
    ext env
    rw [survivors, Set.mem_ofPred_eq, Set.mem_ofPred_eq, ← and_assoc,
      ← domains.leafPoint_iff wellFormed]
    constructor
    · exact fun ⟨point, holds⟩ => (predsIff env point).mp holds
    · exact fun inRange => ⟨inRange.point, (predsIff env inRange.point).mpr inRange⟩
  refine ⟨valueMap, preds, isIndex, isCheck, ?_⟩
  rw [survive]
  exact ⟨fun env inRange => domains.rootPoint_mem wellFormed ranges indexed inRange,
    domains.rootPoint_injOn wellFormed indexed,
    domains.rootPoint_surjOn wellFormed ranges indexed⟩

end Correspondence

def splitStage (factor : Int) : Stage where
  rootIterVars := [0]
  relations := [.split 0 1 2 (.factor (.intImm factor))]
  allIterVars := [0, 1, 2]
  leafIterVars := [1, 2]
  isOpaque := fun _ => false
  dom := fun _ => some ⟨.intImm 0, .intImm 4⟩
  bindThread := []

def splitStart : Ranges :=
  [(0, ⟨.intImm 0, .intImm 4⟩)]

theorem splitStage_wellFormed (factor : Int) : (splitStage factor).WellFormed {0, 1, 2} where
  derived := by
    have roots : (splitStage factor).roots = {0} := rfl
    rw [roots]
    have apart : (1 : Var) ≠ 2 := by decide
    have isLeaf : ({0} : Finset Var) ⊆ {0} := by decide
    have isNew : Disjoint ({1, 2} : Finset Var) {0} := by decide
    exact AxisRelation.Derived.step .start apart isLeaf isNew
  fresh := by
    intro relation member child isChild isRoot
    obtain rfl := List.mem_singleton.mp member
    obtain rfl := List.mem_singleton.mp isRoot
    have apart : (0 : Var) ∉ ({1, 2} : Finset Var) := by decide
    exact apart isChild
  visible := fun _ _ => rfl
  listed := by
    have inside : ∀ iv ∈ ([0, 1, 2] : List Var), iv ∈ ({0, 1, 2} : Finset Var) := by decide
    exact fun iv member _ => inside iv member
  rootsListed := by
    have inside : ∀ iv ∈ ({0} : Finset Var), iv ∈ ([0, 1, 2] : List Var) := by decide
    exact inside
  childrenListed := by
    intro relation member child isChild
    obtain rfl := List.mem_singleton.mp member
    have inside : ∀ iv ∈ ({1, 2} : Finset Var), iv ∈ ([0, 1, 2] : List Var) := by decide
    exact .inl (inside child isChild)

theorem splitStage_ranges (factor : Int) : (splitStage factor).RootRanges splitStart where
  distinct := by decide
  isRoot := by
    intro entry member
    obtain rfl := List.mem_singleton.mp member
    exact List.mem_singleton_self _
  constant := by
    intro entry member
    obtain rfl := List.mem_singleton.mp member
    exact ⟨0, 4, rfl, by decide⟩
  covers := by
    intro iv member
    obtain rfl := List.mem_singleton.mp member
    exact Option.some_ne_none _

theorem splitStage_constantDoms (factor : Int) : (splitStage factor).ConstantDoms :=
  fun _ _ => ⟨0, 4, rfl⟩

theorem passDownDomain_exact_two : ∃ after,
    passDownDomain .constant (splitStage 2) ⟨splitStart, []⟩ false = some after ∧
      (splitStage 2).Exact .constant (fun first second => decide (first = second)) (fun _ => 0)
        splitStart after.state := by
  refine ⟨_, rfl, passDownDomain_exact Analyzer.constant_sound ?_ (splitStage_wellFormed 2)
    (splitStage_ranges 2) (splitStage_constantDoms 2) (.nil _ _) ?_ rfl⟩
  · exact fun first second same => of_decide_eq_true same
  · intro relation member
    obtain rfl := List.mem_singleton.mp member
    exact ⟨2, .intImm 2, by decide⟩

/-- With a negative factor the leaf ranges are empty and all iterations are lost. -/
theorem passDownDomain_loses_negative : ∃ after,
    passDownDomain .constant (splitStage (-2)) ⟨splitStart, []⟩ false = some after ∧
      ¬ (splitStage (-2)).Exact .constant (fun first second => decide (first = second)) (fun _ => 0)
        splitStart after.state := by
  refine ⟨⟨[(1, ⟨.intImm 0, .intImm (-2)⟩), (2, ⟨.intImm 0, .intImm (-2)⟩),
    (0, ⟨.intImm 0, .intImm 4⟩)], [(1, ⟨.intImm 0, .intImm (-2)⟩), (2, ⟨.intImm 0, .intImm (-2)⟩)]⟩,
    rfl, ?_⟩
  rintro ⟨valueMap, preds, _, _, _, _, onto⟩
  have isPoint : (fun _ => 0) ∈ rootPoints (splitStage (-2)) (fun _ => 0) splitStart := by
    refine ⟨fun _ _ => rfl, fun iv isRoot => ?_⟩
    obtain rfl := List.mem_singleton.mp (mem_roots.mp isRoot).1
    refine ⟨⟨_, rfl, contains_const.mpr (by decide)⟩, _, rfl, contains_const.mpr (by decide)⟩
  obtain ⟨env, ⟨_, inRange, _⟩, _⟩ := onto isPoint
  obtain ⟨range, found, contains⟩ := inRange 1 (by decide)
  cases found
  rw [contains_const] at contains
  omega

end Tvm.Te
