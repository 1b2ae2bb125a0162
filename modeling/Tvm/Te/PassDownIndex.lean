import Mathlib
import Tvm.Te.ScheduleExact

/-!
# The values of the leaves from those of the roots

`PassDownIndex` of `message_passing.cc`.  `PassUpIndex` adds the minimum of the parent of a split;
`PassDownIndex` does not subtract it.  Nothing is given to a rebased variable.
-/

namespace Tvm.Te

open Arith PrimExpr Lib

def passDownIndexRelation (domMap : Ranges) (allowMissing : Bool) (state : Var → Option PrimExpr)
    (relation : IterVarRelation) : Option (Var → Option PrimExpr) :=
  match relation with
  | .split parent outer inner _ =>
    match state parent with
    | none => if allowMissing then some state else none
    | some value => do
      let range ← domMap.lookup inner
      guard (isZero range.min)
      let quotient ← makeBinary .floorDiv value range.extent
      let remainder ← makeBinary .floorMod value range.extent
      return Function.update (Function.update state outer (some quotient)) inner (some remainder)
  | .fuse outer inner fused =>
    if (state inner).isNone && (state outer).isNone then
      if allowMissing then some state else none
    else do
      let rangeInner ← domMap.lookup inner
      let rangeOuter ← domMap.lookup outer
      let innerValue ← state inner
      let outerValue ← state outer
      guard (isZero rangeOuter.min)
      guard (isZero rangeInner.min)
      return Function.update state fused
        (some (make .add (make .mul outerValue rangeInner.extent) innerValue))
  | .rebase parent rebased =>
    -- the check is about the rebased variable, which has no value yet
    match state rebased with
    | none => if allowMissing then some state else none
    | some _ => do
      let value ← state parent
      let rangeParent ← domMap.lookup parent
      guard (isZero rangeParent.min)
      return Function.update state rebased (some value)
  | .singleton iter => some (Function.update state iter (some (.intImm 0)))

def passDownIndex (stage : Stage) (domMap : Ranges) (state : Var → Option PrimExpr)
    (allowMissing : Bool) : Option (Var → Option PrimExpr) :=
  stage.relations.foldlM (passDownIndexRelation domMap allowMissing) state

/-- The state has values of the roots that are this point, and no others. -/
structure Stage.At (stage : Stage) (env : Env) (point : Var → Int)
    (state : Var → Option PrimExpr) : Prop where
  roots : ∀ root ∈ stage.roots, ∃ e, state root = some e ∧ e.value env = some (point root)
  others : ∀ v, v ∉ stage.rootIterVars → state v = none

/-- The part of a state that is about the leaves. -/
def Stage.leafState (stage : Stage) (state : Var → Option PrimExpr) (iv : Var) : Option PrimExpr :=
  if iv ∈ stage.leafIterVars then state iv else none

/-- The leaves have values of their ranges, and `PassUpIndex` makes the point of them. -/
structure Stage.GivesBack (stage : Stage) (domMap : Ranges) (env : Env) (allowMissing : Bool)
    (point : Var → Int) (after : Var → Option PrimExpr) : Prop where
  inRange : ∀ leaf ∈ stage.leafIterVars, ∀ e, after leaf = some e →
    ∃ range x, domMap.lookup leaf = some range ∧ e.value env = some x ∧ range.Contains env x
  root : ∃ final, passUpIndex stage domMap (stage.leafState after) allowMissing = some final ∧
    ∀ root ∈ stage.roots, ∃ e, final root = some e ∧ e.value env = some (point root)

def IterVarRelation.Lowered (bounds : AxisBounds Var) (allowMissing : Bool)
    (after : Var → Option PrimExpr) (values : Var → Int) : IterVarRelation → Prop
  | .split parent outer inner _ =>
    (after outer).isSome = (after parent).isSome ∧ (after inner).isSome = (after parent).isSome ∧
      (after parent = none → allowMissing = true) ∧
      values outer = values parent / bounds.extent inner ∧
      values inner = values parent % bounds.extent inner
  | .fuse outer inner fused =>
    (after outer).isSome = (after fused).isSome ∧ (after inner).isSome = (after fused).isSome ∧
      (after fused = none → allowMissing = true) ∧
      (after fused ≠ none → bounds.low outer = 0 ∧ bounds.low inner = 0) ∧
      values fused = values outer * bounds.extent inner + values inner
  | .rebase _ rebased => after rebased = none ∧ allowMissing = true
  | .singleton iter => after iter ≠ none ∧ values iter = 0

section Down

variable {stage : Stage} {known leaves : Finset Var} {outer : Env} {start domMap : Ranges}
  {relation : IterVarRelation} {allowMissing : Bool} {state after : Var → Option PrimExpr}
  {values other : Var → Int} {bounds : AxisBounds Var}

theorem IterVarRelation.Lowered.congr {later : Var → Option PrimExpr}
    (lowered : relation.Lowered bounds allowMissing after values)
    (same : ∀ axis ∈ relation.axes.parents ∪ relation.axes.children,
      later axis = after axis ∧ other axis = values axis) :
    relation.Lowered bounds allowMissing later other := by
  cases relation with
  | split parent axisOuter axisInner amount =>
    obtain ⟨parentState, parentValue⟩ := same parent (by simp [axes, AxisRelation.parents])
    obtain ⟨outerState, outerValue⟩ := same axisOuter (by simp [axes, AxisRelation.children])
    obtain ⟨innerState, innerValue⟩ := same axisInner (by simp [axes, AxisRelation.children])
    rw [Lowered, parentState, parentValue, outerState, outerValue, innerState, innerValue]
    exact lowered
  | fuse axisOuter axisInner fused =>
    obtain ⟨outerState, outerValue⟩ := same axisOuter (by simp [axes, AxisRelation.parents])
    obtain ⟨innerState, innerValue⟩ := same axisInner (by simp [axes, AxisRelation.parents])
    obtain ⟨fusedState, fusedValue⟩ := same fused (by simp [axes, AxisRelation.children])
    rw [Lowered, fusedState, fusedValue, outerState, outerValue, innerState, innerValue]
    exact lowered
  | rebase parent rebased =>
    obtain ⟨rebasedState, _⟩ := same rebased (by simp [axes, AxisRelation.children])
    rw [Lowered, rebasedState]
    exact lowered
  | singleton iter =>
    obtain ⟨iterState, iterValue⟩ := same iter (by simp [axes, AxisRelation.children])
    rw [Lowered, iterState, iterValue]
    exact lowered

def Shows (env : Env) (state : Var → Option PrimExpr) (values : Var → Int) (v : Var) : Prop :=
  ∀ e, state v = some e → e.value env = some (values v)

theorem domainBounds_low_of_isZero {iv : Var} {range : Range}
    (found : domMap.lookup iv = some range) (zero : isZero range.min = true) :
    (domainBounds domMap outer).low iv = 0 := by
  have literal : range.min = .intImm 0 := of_decide_eq_true zero
  exact domainBounds_low found (by rw [literal]; rfl)

structure PassedDown (bounds : AxisBounds Var) (env : Env) (allowMissing : Bool)
    (state after : Var → Option PrimExpr) (values : Var → Int) (relation : IterVarRelation) :
    Prop where
  lowered : relation.Lowered bounds allowMissing after
    (relation.axes.down bounds.fromZero values)
  shows : ∀ child ∈ relation.axes.children,
    Shows env after (relation.axes.down bounds.fromZero values) child
  keeps : ∀ v, v ∉ relation.axes.children → after v = state v

theorem exists_of_ite {p : Bool} {α : Type} {a b : α} (step : (if p then some a else none) = some b) :
    p = true ∧ a = b := by
  simpa [Option.ite_none_right_eq_some] using step

theorem PassedDown.of_missing (fresh : ∀ child ∈ relation.axes.children, state child = none)
    (lowered : relation.Lowered bounds allowMissing state
      (relation.axes.down bounds.fromZero values)) :
    PassedDown bounds outer allowMissing state state values relation where
  lowered := lowered
  shows := by
    intro child isChild e isExpr
    rw [fresh child isChild] at isExpr
    cases isExpr
  keeps := fun _ _ => rfl

theorem Domains.passDownSplit (domains : Domains stage known outer start domMap)
    {parent axisOuter axisInner : Var} {amount : SplitAmount} (distinct : axisOuter ≠ axisInner)
    (notOuter : parent ≠ axisOuter) (notInner : parent ≠ axisInner)
    (found : domMap.lookup axisInner ≠ none) (freshOuter : state axisOuter = none)
    (freshInner : state axisInner = none) (shows : Shows outer state values parent)
    (step : passDownIndexRelation domMap allowMissing state
      (.split parent axisOuter axisInner amount) = some after) :
    PassedDown (domainBounds domMap outer) outer allowMissing state after values
      (.split parent axisOuter axisInner amount) := by
  have isParent : AxisRelation.down (domainBounds domMap outer).fromZero
      (.split parent axisOuter axisInner) values parent = values parent := by
    rw [AxisRelation.down, Function.update_of_ne notInner, Function.update_of_ne notOuter]
  have isOuter : AxisRelation.down (domainBounds domMap outer).fromZero
      (.split parent axisOuter axisInner) values axisOuter =
        values parent / (domainBounds domMap outer).extent axisInner := by
    simp only [AxisRelation.down, AxisBounds.fromZero, sub_zero, Function.update_of_ne distinct,
      Function.update_self]
  have isInner : AxisRelation.down (domainBounds domMap outer).fromZero
      (.split parent axisOuter axisInner) values axisInner =
        values parent % (domainBounds domMap outer).extent axisInner := by
    simp only [AxisRelation.down, AxisBounds.fromZero, sub_zero, Function.update_self]
  rw [Te.passDownIndexRelation] at step
  cases isValue : state parent with
  | none =>
    rw [isValue] at step
    obtain ⟨missing, rfl⟩ := exists_of_ite step
    apply PassedDown.of_missing
    · intro child isChild
      rcases Finset.mem_insert.mp isChild with rfl | isLast
      · exact freshOuter
      · rw [Finset.mem_singleton.mp isLast, freshInner]
    · rw [IterVarRelation.Lowered, IterVarRelation.axes, isParent, isOuter, isInner, freshOuter,
        freshInner, isValue]
      exact ⟨rfl, rfl, fun _ => missing, rfl, rfl⟩
  | some value =>
    obtain ⟨range, isRange, _, fixed, positive⟩ := domains.exists_fixed found
    have evaluates := shows value isValue
    rw [isValue] at step
    simp only [isRange, Option.bind_eq_bind, Option.bind_some,
      exists_makeBinary .floorDiv (.inl rfl) fixed.value positive.ne',
      exists_makeBinary .floorMod (.inr rfl) fixed.value positive.ne', Option.pure_def] at step
    obtain ⟨_, _, same⟩ := Option.bind_eq_some_iff.mp step
    obtain rfl := Option.some.inj same
    have quotient : (make .floorDiv value range.extent).value outer =
        some (values parent / (domainBounds domMap outer).extent axisInner) := by
      apply value_make evaluates fixed.value (admits_int rfl _ _)
      rw [← fdiv_eq_ediv positive]
      exact if_neg positive.ne'
    have remainder : (make .floorMod value range.extent).value outer =
        some (values parent % (domainBounds domMap outer).extent axisInner) := by
      apply value_make evaluates fixed.value (admits_int rfl _ _)
      rw [← fmod_eq_emod positive]
      exact if_neg positive.ne'
    refine ⟨?_, ?_, ?_⟩
    · rw [IterVarRelation.Lowered, IterVarRelation.axes, isParent, isOuter, isInner,
        Function.update_of_ne distinct, Function.update_self, Function.update_self,
        Function.update_of_ne notInner, Function.update_of_ne notOuter, isValue]
      exact ⟨rfl, rfl, (fun absent => by cases absent), rfl, rfl⟩
    · intro child isChild e isExpr
      rcases Finset.mem_insert.mp isChild with rfl | isLast
      · rw [Function.update_of_ne distinct, Function.update_self] at isExpr
        rw [← Option.some.inj isExpr, quotient, IterVarRelation.axes, isOuter]
      · rw [Finset.mem_singleton.mp isLast] at isExpr ⊢
        rw [Function.update_self] at isExpr
        rw [← Option.some.inj isExpr, remainder, IterVarRelation.axes, isInner]
    · intro v outside
      simp only [IterVarRelation.axes, AxisRelation.children, Finset.mem_insert,
        Finset.mem_singleton, not_or] at outside
      rw [Function.update_of_ne outside.2, Function.update_of_ne outside.1]

theorem Domains.passDownFuse (domains : Domains stage known outer start domMap)
    {axisOuter axisInner fused : Var} (notOuter : axisOuter ≠ fused) (notInner : axisInner ≠ fused)
    (foundInner : domMap.lookup axisInner ≠ none) (fresh : state fused = none)
    (showsOuter : Shows outer state values axisOuter)
    (showsInner : Shows outer state values axisInner)
    (step : passDownIndexRelation domMap allowMissing state (.fuse axisOuter axisInner fused) =
      some after) :
    PassedDown (domainBounds domMap outer) outer allowMissing state after values
      (.fuse axisOuter axisInner fused) := by
  have isOuter : AxisRelation.down (domainBounds domMap outer).fromZero
      (.fuse axisOuter axisInner fused) values axisOuter = values axisOuter := by
    rw [AxisRelation.down, Function.update_of_ne notOuter]
  have isInner : AxisRelation.down (domainBounds domMap outer).fromZero
      (.fuse axisOuter axisInner fused) values axisInner = values axisInner := by
    rw [AxisRelation.down, Function.update_of_ne notInner]
  have isFused : AxisRelation.down (domainBounds domMap outer).fromZero
      (.fuse axisOuter axisInner fused) values fused =
        values axisOuter * (domainBounds domMap outer).extent axisInner + values axisInner := by
    simp only [AxisRelation.down, AxisBounds.fromZero, sub_zero, Function.update_self]
  rw [Te.passDownIndexRelation] at step
  by_cases bothMissing : ((state axisInner).isNone && (state axisOuter).isNone) = true
  · rw [if_pos bothMissing] at step
    obtain ⟨missing, rfl⟩ := exists_of_ite step
    obtain ⟨noInner, noOuter⟩ := Bool.and_eq_true_iff.mp bothMissing
    rw [Option.isNone_iff_eq_none] at noInner noOuter
    apply PassedDown.of_missing
    · intro child isChild
      rw [Finset.mem_singleton.mp isChild, fresh]
    · rw [IterVarRelation.Lowered, IterVarRelation.axes, isOuter, isInner, isFused, fresh, noInner,
        noOuter]
      exact ⟨rfl, rfl, fun _ => missing, fun present => absurd rfl present, rfl⟩
  · rw [if_neg bothMissing] at step
    obtain ⟨rangeInner, isRangeInner, step⟩ := Option.bind_eq_some_iff.mp step
    obtain ⟨rangeOuter, isRangeOuter, step⟩ := Option.bind_eq_some_iff.mp step
    obtain ⟨innerValue, hasInner, step⟩ := Option.bind_eq_some_iff.mp step
    obtain ⟨outerValue, hasOuter, step⟩ := Option.bind_eq_some_iff.mp step
    obtain ⟨_, outerZero, step⟩ := Option.bind_eq_some_iff.mp step
    obtain ⟨_, innerZero, step⟩ := Option.bind_eq_some_iff.mp step
    rw [Option.guard_eq_some'] at outerZero innerZero
    obtain rfl := Option.some.inj step
    obtain ⟨range, isRange, _, fixed, positive⟩ := domains.exists_fixed foundInner
    obtain rfl := Option.some.inj (isRangeInner.symm.trans isRange)
    have evaluates : (make .add (make .mul outerValue rangeInner.extent) innerValue).value outer =
        some (values axisOuter * (domainBounds domMap outer).extent axisInner +
          values axisInner) :=
      value_make (value_make (showsOuter _ hasOuter) fixed.value (admits_int rfl _ _) rfl)
        (showsInner _ hasInner) (admits_int rfl _ _) rfl
    refine ⟨?_, ?_, ?_⟩
    · rw [IterVarRelation.Lowered, IterVarRelation.axes, isOuter, isInner, isFused,
        Function.update_self, Function.update_of_ne notOuter, Function.update_of_ne notInner,
        hasInner, hasOuter]
      exact ⟨rfl, rfl, (fun absent => by cases absent), fun _ =>
        ⟨domainBounds_low_of_isZero isRangeOuter outerZero,
          domainBounds_low_of_isZero isRangeInner innerZero⟩, rfl⟩
    · intro child isChild e isExpr
      rw [Finset.mem_singleton.mp isChild] at isExpr ⊢
      rw [Function.update_self] at isExpr
      rw [← Option.some.inj isExpr, evaluates, IterVarRelation.axes, isFused]
    · exact fun v outside =>
        Function.update_of_ne (fun same => outside (Finset.mem_singleton.mpr same)) _ _

theorem Domains.passDownIndexRelation (domains : Domains stage known outer start domMap)
    (distinct : relation.axes.Distinct) (apart : Disjoint relation.axes.children relation.axes.parents)
    (found : ∀ axis ∈ relation.axes.parents ∪ relation.axes.children, domMap.lookup axis ≠ none)
    (fresh : ∀ child ∈ relation.axes.children, state child = none)
    (shows : ∀ parent ∈ relation.axes.parents, Shows outer state values parent)
    (step : passDownIndexRelation domMap allowMissing state relation = some after) :
    PassedDown (domainBounds domMap outer) outer allowMissing state after values relation := by
  have notChild : ∀ parent ∈ relation.axes.parents, ∀ child ∈ relation.axes.children,
      parent ≠ child :=
    fun parent isParent child isChild same =>
      Finset.disjoint_left.mp apart isChild (same ▸ isParent)
  cases relation with
  | split parent axisOuter axisInner amount =>
    have isParent := Finset.mem_singleton_self parent
    have isOuter := Finset.mem_insert_self axisOuter {axisInner}
    have isInner : axisInner ∈ ({axisOuter, axisInner} : Finset Var) :=
      Finset.mem_insert_of_mem (Finset.mem_singleton_self axisInner)
    exact domains.passDownSplit distinct (notChild parent isParent axisOuter isOuter)
      (notChild parent isParent axisInner isInner)
      (found axisInner (Finset.mem_union_right _ isInner)) (fresh axisOuter isOuter)
      (fresh axisInner isInner) (shows parent isParent) step
  | fuse axisOuter axisInner fused =>
    have isOuter := Finset.mem_insert_self axisOuter {axisInner}
    have isInner : axisInner ∈ ({axisOuter, axisInner} : Finset Var) :=
      Finset.mem_insert_of_mem (Finset.mem_singleton_self axisInner)
    have isFused := Finset.mem_singleton_self fused
    exact domains.passDownFuse (notChild axisOuter isOuter fused isFused)
      (notChild axisInner isInner fused isFused)
      (found axisInner (Finset.mem_union_left _ isInner)) (fresh fused isFused)
      (shows axisOuter isOuter) (shows axisInner isInner) step
  | rebase parent rebased =>
    have isFresh := fresh rebased (Finset.mem_singleton_self _)
    rw [Te.passDownIndexRelation, isFresh] at step
    obtain ⟨missing, rfl⟩ := exists_of_ite step
    exact .of_missing fresh ⟨isFresh, missing⟩
  | singleton iter =>
    obtain rfl := Option.some.inj step
    have isZero : AxisRelation.down (domainBounds domMap outer).fromZero (.unit iter) values iter =
        0 := Function.update_self _ _ _
    refine ⟨⟨?_, isZero⟩, ?_, ?_⟩
    · rw [Function.update_self]
      exact Option.some_ne_none _
    · intro child isChild e isExpr
      rw [Finset.mem_singleton.mp isChild] at isExpr ⊢
      rw [Function.update_self] at isExpr
      rw [← Option.some.inj isExpr, IterVarRelation.axes, isZero]
      rfl
    · exact fun v outside =>
        Function.update_of_ne (fun same => outside (Finset.mem_singleton.mpr same)) _ _

/-- What is left of the way down. -/
structure Descended (stage : Stage) (bounds : AxisBounds Var) (env : Env) (allowMissing : Bool)
    (point : Var → Int) (known : Finset Var) (relations : List IterVarRelation)
    (state after : Var → Option PrimExpr) (values : Var → Int) : Prop where
  root : ∀ root ∈ stage.roots, values root = point root
  shows : ∀ v ∈ known, Shows env after values v
  lowered : ∀ relation ∈ relations, relation.Lowered bounds allowMissing after values
  keeps : ∀ v, (∀ relation ∈ relations, v ∉ relation.axes.children) → after v = state v

theorem Domains.passDownIndex {total : Finset Var} {point : Var → Int}
    (domains : Domains stage total outer start domMap) {axes : List (AxisRelation Var)}
    (derived : AxisRelation.Derived stage.roots axes leaves known) (within : known ⊆ total) :
    ∀ relations : List IterVarRelation, relations.map IterVarRelation.axes = axes →
      (∀ relation ∈ relations, ∀ child ∈ relation.axes.children, child ∉ stage.rootIterVars) →
      ∀ state after : Var → Option PrimExpr, stage.At outer point state →
      relations.foldlM (Te.passDownIndexRelation domMap allowMissing) state = some after →
      ∃ values, Descended stage (domainBounds domMap outer) outer allowMissing point known
        relations state after values := by
  induction derived with
  | start =>
    intro relations same _ state after isAt run
    obtain rfl := List.map_eq_nil_iff.mp same
    obtain rfl := Option.some.inj run
    refine ⟨point, fun _ _ => rfl, ?_, fun _ member => absurd member List.not_mem_nil,
      fun _ _ => rfl⟩
    intro root isRoot e isExpr
    obtain ⟨own, isOwn, value⟩ := isAt.roots root isRoot
    rwa [Option.some.inj (isExpr.symm.trans isOwn)]
  | @step axes leaves known axis derived distinct fromLeaves fresh ih =>
    intro relations same notRoots state after isAt run
    obtain ⟨before, rest, rfl, isBefore, isLast⟩ := List.map_eq_append_iff.mp same
    obtain ⟨relation, rfl, rfl⟩ := List.map_eq_singleton_iff.mp isLast
    have isPrefix := fun earlier member => notRoots earlier (List.mem_append_left [relation] member)
    have last : relation ∈ before ++ [relation] :=
      List.mem_append_right _ (List.mem_singleton_self _)
    rw [List.foldlM_append] at run
    obtain ⟨middle, runBefore, runLast⟩ := Option.bind_eq_some_iff.mp run
    rw [List.foldlM_cons] at runLast
    obtain ⟨final, step, ends⟩ := Option.bind_eq_some_iff.mp runLast
    obtain rfl := Option.some.inj ends
    obtain ⟨values, descended⟩ := ih (Finset.subset_union_left.trans within) before isBefore
      isPrefix state middle isAt runBefore
    have inKnown := derived_axes derived
    have fromKnown : relation.axes.parents ⊆ known := fromLeaves.trans derived.leaves_subset
    have isFresh : ∀ child ∈ relation.axes.children, middle child = none := by
      intro child isChild
      rw [descended.keeps child, isAt.others child (notRoots relation last child isChild)]
      intro earlier member isOld
      have place := inKnown earlier.axes (isBefore ▸ List.mem_map_of_mem member)
      exact Finset.disjoint_left.mp fresh isChild (place (Finset.mem_union_right _ isOld))
    have passed := domains.passDownIndexRelation distinct
      (Finset.disjoint_of_subset_right fromKnown fresh)
      (fun place member => domains.knows place (within (Finset.union_subset_union fromKnown
        subset_rfl member)))
      isFresh (fun parent isParent => descended.shows parent (fromKnown isParent)) step
    -- what is known before stays
    have stays : ∀ v ∈ known, final v = middle v ∧ AxisRelation.down
        (domainBounds domMap outer).fromZero relation.axes values v = values v := by
      intro v member
      have notChild := fun isChild => Finset.disjoint_left.mp fresh isChild member
      exact ⟨passed.keeps v notChild, AxisRelation.down_of_notMem notChild⟩
    refine ⟨AxisRelation.down (domainBounds domMap outer).fromZero relation.axes values,
      ?_, ?_, ?_, ?_⟩
    · intro root isRoot
      rw [(stays root (derived.roots_subset isRoot)).2, descended.root root isRoot]
    · intro v member
      rcases Finset.mem_union.mp member with old | new
      · obtain ⟨sameState, sameValue⟩ := stays v old
        intro e isExpr
        rw [sameValue]
        exact descended.shows v old e (sameState ▸ isExpr)
      · exact passed.shows v new
    · intro earlier member
      rcases List.mem_append.mp member with old | new
      · have place := inKnown earlier.axes (isBefore ▸ List.mem_map_of_mem old)
        exact (descended.lowered earlier old).congr fun axis inside => stays axis (place inside)
      · rw [List.mem_singleton.mp new]
        exact passed.lowered
    · intro v outside
      rw [passed.keeps v (outside relation last), descended.keeps v fun earlier member =>
        outside earlier (List.mem_append_left _ member)]

theorem IterVarRelation.Lowered.child_eq (lowered : relation.Lowered bounds allowMissing after values)
    (distinct : relation.axes.Distinct) {child : Var} (isChild : child ∈ relation.axes.children)
    (present : after child ≠ none) :
    values child = relation.axes.down bounds.fromZero values child ∧
      ∀ parent ∈ relation.axes.parents, after parent ≠ none := by
  cases relation with
  | split parent axisOuter axisInner amount =>
    obtain ⟨outerSame, innerSame, _, outerValue, innerValue⟩ := lowered
    have apart : axisOuter ≠ axisInner := distinct
    have isSome := Option.isSome_iff_ne_none.mpr present
    rcases Finset.mem_insert.mp isChild with rfl | isLast
    · constructor
      · simp only [axes, AxisRelation.down, AxisBounds.fromZero, sub_zero,
          Function.update_of_ne apart, Function.update_self, outerValue]
      · intro place isParent
        rw [Finset.mem_singleton.mp isParent, ← Option.isSome_iff_ne_none, ← outerSame]
        exact isSome
    · rw [Finset.mem_singleton.mp isLast] at isSome ⊢
      constructor
      · simp only [axes, AxisRelation.down, AxisBounds.fromZero, sub_zero, Function.update_self,
          innerValue]
      · intro place isParent
        rw [Finset.mem_singleton.mp isParent, ← Option.isSome_iff_ne_none, ← innerSame]
        exact isSome
  | fuse axisOuter axisInner fused =>
    obtain ⟨outerSame, innerSame, _, _, fusedValue⟩ := lowered
    have isSome := Option.isSome_iff_ne_none.mpr present
    rw [Finset.mem_singleton.mp isChild] at isSome ⊢
    constructor
    · simp only [axes, AxisRelation.down, AxisBounds.fromZero, sub_zero, Function.update_self,
        fusedValue]
    · intro place isParent
      rw [← Option.isSome_iff_ne_none]
      rcases Finset.mem_insert.mp isParent with rfl | isLast
      · rw [outerSame]
        exact isSome
      · rw [Finset.mem_singleton.mp isLast, innerSame]
        exact isSome
  | rebase parent rebased =>
    rw [Finset.mem_singleton.mp isChild] at present
    exact absurd lowered.1 present
  | singleton iter =>
    obtain ⟨_, isZero⟩ := lowered
    refine ⟨?_, fun parent isParent => absurd isParent (Finset.notMem_empty _)⟩
    rw [Finset.mem_singleton.mp isChild, isZero]
    have zero : AxisRelation.down bounds.fromZero (.unit iter) values iter = 0 :=
      Function.update_self _ _ _
    exact zero.symm

theorem IterVarRelation.Lowered.contains (lowered : relation.Lowered bounds allowMissing after values)
    (distinct : relation.axes.Distinct) (fits : relation.axes.Fits bounds)
    (apart : Disjoint relation.axes.parents relation.axes.children) {child : Var}
    (isChild : child ∈ relation.axes.children) (present : after child ≠ none)
    (inRange : ∀ parent ∈ relation.axes.parents, after parent ≠ none →
      bounds.fromZero.Contains values parent) : bounds.fromZero.Contains values child := by
  obtain ⟨value, parents⟩ := lowered.child_eq distinct isChild present
  have contains := (AxisRelation.up_down distinct fits.fromZero apart fun parent isParent =>
    inRange parent isParent (parents parent isParent)).2 child isChild
  rw [AxisBounds.Contains, value]
  exact contains

theorem Lowered.contains {roots : Finset Var} {axes : List (AxisRelation Var)}
    (derived : AxisRelation.Derived roots axes leaves known) :
    ∀ relations : List IterVarRelation, relations.map IterVarRelation.axes = axes →
      (∀ relation ∈ relations, relation.Lowered bounds allowMissing after values ∧
        relation.axes.Fits bounds) →
      (∀ relation ∈ relations, ∀ parent ∈ relation.axes.parents, parent ∈ roots →
        (∃ child ∈ relation.axes.children, after child ≠ none) →
          bounds.fromZero.Contains values parent) →
      ∀ v ∈ known, after v ≠ none → v ∈ roots ∨ bounds.fromZero.Contains values v := by
  induction derived with
  | start => exact fun _ _ _ _ v isRoot _ => .inl isRoot
  | @step axes leaves known axis derived distinct fromLeaves fresh ih =>
    intro relations same lowered fromRoots v member present
    obtain ⟨before, rest, rfl, isBefore, isLast⟩ := List.map_eq_append_iff.mp same
    obtain ⟨relation, rfl, rfl⟩ := List.map_eq_singleton_iff.mp isLast
    have last : relation ∈ before ++ [relation] :=
      List.mem_append_right _ (List.mem_singleton_self _)
    have earlier := ih before isBefore
      (fun place inside => lowered place (List.mem_append_left _ inside))
      (fun place inside => fromRoots place (List.mem_append_left _ inside))
    have fromKnown : relation.axes.parents ⊆ known := fromLeaves.trans derived.leaves_subset
    rcases Finset.mem_union.mp member with old | new
    · exact earlier v old present
    · refine .inr ((lowered relation last).1.contains distinct (lowered relation last).2
        (Finset.disjoint_of_subset_left fromKnown fresh.symm) new present ?_)
      intro parent isParent parentPresent
      rcases earlier parent (fromKnown isParent) parentPresent with isRoot | inRange
      · exact fromRoots relation last parent isParent isRoot ⟨v, new, present⟩
      · exact inRange

end Down

def passUpRebase (relation : IterVarRelation) (state : Var → Bool) : Var → Bool :=
  match relation with
  | .split parent outer inner _ => Function.update state parent (state inner || state outer)
  | .fuse outer inner fused =>
    Function.update (Function.update state inner (state fused)) outer (state fused)
  | .rebase parent _ => Function.update state parent true
  | .singleton _ => state

/-- The roots that have a rebased variable below them. -/
def Stage.aboveRebase (stage : Stage) : Var → Bool :=
  stage.relations.foldr passUpRebase fun _ => false

section Up

variable {stage : Stage} {known leaves : Finset Var} {outer : Env} {start domMap : Ranges}
  {relation : IterVarRelation} {allowMissing : Bool} {state after : Var → Option PrimExpr}
  {values target : Var → Int} {flags : Var → Bool}

/-- The value is back, unless it was not there or there is a rebased variable below. -/
def Restored (after : Var → Option PrimExpr) (flags : Var → Bool) (env : Env)
    (state : Var → Option PrimExpr) (target : Var → Int) (v : Var) : Prop :=
  if (after v).isNone || flags v then state v = none
  else ∃ e, state v = some e ∧ e.value env = some (target v)

/-- The fused variable keeps the inner one apart. -/
def IterVarRelation.Separate (bounds : AxisBounds Var) (after : Var → Option PrimExpr)
    (values : Var → Int) : IterVarRelation → Prop
  | .fuse _ inner fused => after fused ≠ none → bounds.fromZero.Contains values inner
  | _ => True

theorem Restored.eq_none {v : Var} (restored : Restored after flags outer state target v)
    (lost : after v = none ∨ flags v = true) : state v = none := by
  rw [Restored, if_pos] at restored
  · exact restored
  · rcases lost with absent | flag
    · rw [absent]
      rfl
    · rw [flag, Bool.or_true]

theorem Restored.exists_value {v : Var} (restored : Restored after flags outer state target v)
    (present : (after v).isSome = true) (free : flags v = false) :
    ∃ e, state v = some e ∧ e.value outer = some (target v) := by
  rw [Restored, if_neg] at restored
  · exact restored
  · rw [free, Bool.or_false, Option.isNone_iff_eq_none]
    exact Option.isSome_iff_ne_none.mp present

theorem Restored.of_lost {v : Var} (lost : after v = none ∨ flags v = true)
    (absent : state v = none) : Restored after flags outer state target v := by
  rw [Restored, if_pos, absent]
  rcases lost with missing | flag
  · rw [missing]
    rfl
  · rw [flag, Bool.or_true]

theorem Restored.of_value {v : Var} {e : PrimExpr} (present : (after v).isSome = true)
    (free : flags v = false) (isValue : state v = some e)
    (value : e.value outer = some (target v)) : Restored after flags outer state target v := by
  rw [Restored, if_neg]
  · exact ⟨e, isValue, value⟩
  · rw [free, Bool.or_false, Option.isNone_iff_eq_none]
    exact Option.isSome_iff_ne_none.mp present

theorem value_addMin {e min : PrimExpr} {x y : Int} (value : e.value outer = some x)
    (minValue : min.value outer = some y) : (addMin e min).value outer = some (x + y) := by
  rw [addMin]
  by_cases zero : isZero min = true
  · have literal : min = .intImm 0 := of_decide_eq_true zero
    rw [literal] at minValue
    rw [if_pos zero, value, ← Option.some.inj minValue, add_zero]
  · rw [if_neg zero]
    exact value_make value minValue (admits_int rfl _ _) rfl

structure PassedUp (after : Var → Option PrimExpr) (flags : Var → Bool) (env : Env)
    (state next : Var → Option PrimExpr) (target : Var → Int) (relation : IterVarRelation) :
    Prop where
  parents : ∀ parent ∈ relation.axes.parents,
    Restored after (passUpRebase relation flags) env next target parent
  keeps : ∀ v, v ∉ relation.axes.parents → next v = state v

theorem Domains.passUpSplit (domains : Domains stage known outer start domMap)
    {parent axisOuter axisInner : Var} {amount : SplitAmount}
    (foundParent : domMap.lookup parent ≠ none) (foundInner : domMap.lookup axisInner ≠ none)
    (lowered : IterVarRelation.Lowered (domainBounds domMap outer) allowMissing after values
      (.split parent axisOuter axisInner amount))
    (flagged : ∀ v, flags v = true → allowMissing = true)
    (outerRestored : Restored after flags outer state values axisOuter)
    (innerRestored : Restored after flags outer state values axisInner)
    (absent : state parent = none)
    (isTarget : target parent = values parent + (domainBounds domMap outer).low parent) :
    ∃ next, Te.passUpRelation domMap allowMissing state (.split parent axisOuter axisInner amount) =
        some next ∧
      PassedUp after flags outer state next target (.split parent axisOuter axisInner amount) := by
  obtain ⟨outerSame, innerSame, missing, outerValue, innerValue⟩ := lowered
  have isFlag : passUpRebase (.split parent axisOuter axisInner amount) flags parent =
      (flags axisInner || flags axisOuter) := Function.update_self _ _ _
  by_cases lost : after parent = none ∨ (flags axisInner || flags axisOuter) = true
  · have skips : allowMissing = true := by
      rcases lost with gone | flag
      · exact missing gone
      · rcases Bool.or_eq_true_iff.mp flag with inner | outer
        · exact flagged _ inner
        · exact flagged _ outer
    have someAbsent : state axisOuter = none ∨ state axisInner = none := by
      rcases lost with gone | flag
      · rw [gone, Option.isSome_none] at outerSame
        exact .inl (outerRestored.eq_none (.inl (Option.isSome_eq_false_iff.mp outerSame |>
          Option.isNone_iff_eq_none.mp)))
      · rcases Bool.or_eq_true_iff.mp flag with inner | outer
        · exact .inr (innerRestored.eq_none (.inr inner))
        · exact .inl (outerRestored.eq_none (.inr outer))
    refine ⟨state, ?_, ?_, fun _ _ => rfl⟩
    · rw [Te.passUpRelation]
      rcases someAbsent with noOuter | noInner
      · rw [noOuter, if_pos skips]
      · rw [noInner]
        cases state axisOuter <;> exact if_pos skips
    · intro place isParent
      rw [Finset.mem_singleton.mp isParent]
      exact .of_lost (by rwa [isFlag]) absent
  · obtain ⟨present, free⟩ := not_or.mp lost
    rw [Bool.not_eq_true, Bool.or_eq_false_iff] at free
    have isSome := Option.isSome_iff_ne_none.mpr present
    obtain ⟨outerExpr, isOuter, outerEvaluates⟩ :=
      outerRestored.exists_value (outerSame.trans isSome) free.2
    obtain ⟨innerExpr, isInner, innerEvaluates⟩ :=
      innerRestored.exists_value (innerSame.trans isSome) free.1
    obtain ⟨rangeInner, isRangeInner, _, fixedInner, _⟩ := domains.exists_fixed foundInner
    obtain ⟨rangeParent, isRangeParent, fixedMin, _⟩ := domains.exists_fixed foundParent
    have sum : (addMin (make .add innerExpr (make .mul outerExpr rangeInner.extent))
        rangeParent.min).value outer = some (target parent) := by
      rw [value_addMin (value_make innerEvaluates
        (value_make outerEvaluates fixedInner.value (admits_int rfl _ _) rfl)
        (admits_int rfl _ _) rfl) fixedMin.value, isTarget, outerValue, innerValue,
        Int.emod_add_ediv_mul]
    refine ⟨_, by rw [Te.passUpRelation, isOuter, isInner]; simp only [isRangeInner, isRangeParent,
      Option.bind_eq_bind, Option.bind_some, Option.pure_def]; rfl, ?_, ?_⟩
    · intro place isParent
      rw [Finset.mem_singleton.mp isParent]
      apply Restored.of_value isSome
      · rw [isFlag, free.1, free.2, Bool.or_false]
      · exact Function.update_self _ _ _
      · exact sum
    · exact fun v outside =>
        Function.update_of_ne (fun same => outside (Finset.mem_singleton.mpr same)) _ _

theorem Domains.passUpFuse (domains : Domains stage known outer start domMap)
    {axisOuter axisInner fused : Var} (distinct : axisOuter ≠ axisInner)
    (foundOuter : domMap.lookup axisOuter ≠ none) (foundInner : domMap.lookup axisInner ≠ none)
    (lowered : IterVarRelation.Lowered (domainBounds domMap outer) allowMissing after values
      (.fuse axisOuter axisInner fused))
    (separate : IterVarRelation.Separate (domainBounds domMap outer) after values
      (.fuse axisOuter axisInner fused))
    (flagged : ∀ v, flags v = true → allowMissing = true)
    (restored : Restored after flags outer state values fused)
    (outerAbsent : state axisOuter = none) (innerAbsent : state axisInner = none)
    (outerTarget : target axisOuter = values axisOuter + (domainBounds domMap outer).low axisOuter)
    (innerTarget : target axisInner =
      values axisInner + (domainBounds domMap outer).low axisInner) :
    ∃ next, Te.passUpRelation domMap allowMissing state (.fuse axisOuter axisInner fused) =
        some next ∧
      PassedUp after flags outer state next target (.fuse axisOuter axisInner fused) := by
  obtain ⟨outerSame, innerSame, missing, _, fusedValue⟩ := lowered
  have innerFlag : passUpRebase (.fuse axisOuter axisInner fused) flags axisInner = flags fused := by
    rw [passUpRebase, Function.update_of_ne distinct.symm, Function.update_self]
  have outerFlag : passUpRebase (.fuse axisOuter axisInner fused) flags axisOuter = flags fused :=
    Function.update_self _ _ _
  by_cases lost : after fused = none ∨ flags fused = true
  · have skips : allowMissing = true := lost.elim missing (flagged _)
    have gone : ∀ v, (after v).isSome = (after fused).isSome →
        passUpRebase (.fuse axisOuter axisInner fused) flags v = flags fused →
          after v = none ∨ passUpRebase (.fuse axisOuter axisInner fused) flags v = true := by
      intro v same flag
      rw [flag]
      refine lost.imp_left fun absent => ?_
      rw [absent, Option.isSome_none] at same
      exact Option.isNone_iff_eq_none.mp (Option.isSome_eq_false_iff.mp same)
    refine ⟨state, ?_, ?_, fun _ _ => rfl⟩
    · rw [Te.passUpRelation, restored.eq_none lost]
      exact if_pos skips
    · intro place isParent
      rcases Finset.mem_insert.mp isParent with rfl | isLast
      · exact .of_lost (gone _ outerSame outerFlag) outerAbsent
      · rw [Finset.mem_singleton.mp isLast]
        exact .of_lost (gone _ innerSame innerFlag) innerAbsent
  · obtain ⟨present, free⟩ := not_or.mp lost
    rw [Bool.not_eq_true] at free
    have isSome := Option.isSome_iff_ne_none.mpr present
    obtain ⟨e, isFused, evaluates⟩ := restored.exists_value isSome free
    obtain ⟨rangeInner, isRangeInner, innerMin, fixedInner, positive⟩ :=
      domains.exists_fixed foundInner
    obtain ⟨rangeOuter, isRangeOuter, outerMin, _⟩ := domains.exists_fixed foundOuter
    obtain ⟨lower, upper⟩ := separate present
    rw [AxisBounds.fromZero, zero_add] at upper
    have quotient : (make .floorDiv e rangeInner.extent).value outer =
        some (values axisOuter) := by
      apply value_make evaluates fixedInner.value (admits_int rfl _ _)
      have same : (values fused).fdiv ((domainBounds domMap outer).extent axisInner) =
          values axisOuter := by
        rw [fdiv_eq_ediv positive, fusedValue, add_comm, Int.add_mul_ediv_right _ _ positive.ne',
          Int.ediv_eq_zero_of_lt lower upper, zero_add]
      rw [← same]
      exact if_neg positive.ne'
    have remainder : (make .floorMod e rangeInner.extent).value outer =
        some (values axisInner) := by
      apply value_make evaluates fixedInner.value (admits_int rfl _ _)
      have same : (values fused).fmod ((domainBounds domMap outer).extent axisInner) =
          values axisInner := by
        rw [fmod_eq_emod positive, fusedValue, add_comm, Int.add_mul_emod_self_right,
          Int.emod_eq_of_lt lower upper]
      rw [← same]
      exact if_neg positive.ne'
    refine ⟨_, by rw [Te.passUpRelation, isFused]; simp only [isRangeInner, isRangeOuter,
      exists_makeBinary .floorDiv (.inl rfl) fixedInner.value positive.ne',
      exists_makeBinary .floorMod (.inr rfl) fixedInner.value positive.ne', Option.bind_eq_bind,
      Option.bind_some, Option.pure_def]; rfl, ?_, ?_⟩
    · intro place isParent
      rcases Finset.mem_insert.mp isParent with rfl | isLast
      · apply Restored.of_value (outerSame.trans isSome) (outerFlag.trans free)
        · rw [Function.update_of_ne distinct, Function.update_self]
        · rw [value_addMin quotient outerMin.value, outerTarget]
      · rw [Finset.mem_singleton.mp isLast]
        apply Restored.of_value (innerSame.trans isSome) (innerFlag.trans free)
        · exact Function.update_self _ _ _
        · rw [value_addMin remainder innerMin.value, innerTarget]
    · intro v outside
      simp only [IterVarRelation.axes, AxisRelation.parents, Finset.mem_insert,
        Finset.mem_singleton, not_or] at outside
      rw [Function.update_of_ne outside.2, Function.update_of_ne outside.1]

theorem Domains.passUpLowered (domains : Domains stage known outer start domMap)
    (distinct : relation.axes.Distinct)
    (found : ∀ axis ∈ relation.axes.parents ∪ relation.axes.children, domMap.lookup axis ≠ none)
    (lowered : relation.Lowered (domainBounds domMap outer) allowMissing after values)
    (separate : relation.Separate (domainBounds domMap outer) after values)
    (flagged : ∀ v, flags v = true → allowMissing = true)
    (children : ∀ child ∈ relation.axes.children, Restored after flags outer state values child)
    (absent : ∀ parent ∈ relation.axes.parents, state parent = none)
    (isTarget : ∀ parent ∈ relation.axes.parents,
      target parent = values parent + (domainBounds domMap outer).low parent) :
    ∃ next, Te.passUpRelation domMap allowMissing state relation = some next ∧
      PassedUp after flags outer state next target relation := by
  cases relation with
  | split parent axisOuter axisInner amount =>
    have isParent := Finset.mem_singleton_self parent
    have isOuter := Finset.mem_insert_self axisOuter {axisInner}
    have isInner : axisInner ∈ ({axisOuter, axisInner} : Finset Var) :=
      Finset.mem_insert_of_mem (Finset.mem_singleton_self axisInner)
    exact domains.passUpSplit (found parent (Finset.mem_union_left _ isParent))
      (found axisInner (Finset.mem_union_right _ isInner)) lowered flagged
      (children axisOuter isOuter) (children axisInner isInner) (absent parent isParent)
      (isTarget parent isParent)
  | fuse axisOuter axisInner fused =>
    have isOuter := Finset.mem_insert_self axisOuter {axisInner}
    have isInner : axisInner ∈ ({axisOuter, axisInner} : Finset Var) :=
      Finset.mem_insert_of_mem (Finset.mem_singleton_self axisInner)
    exact domains.passUpFuse distinct (found axisOuter (Finset.mem_union_left _ isOuter))
      (found axisInner (Finset.mem_union_left _ isInner)) lowered separate flagged
      (children fused (Finset.mem_singleton_self _)) (absent axisOuter isOuter)
      (absent axisInner isInner) (isTarget axisOuter isOuter) (isTarget axisInner isInner)
  | rebase parent rebased =>
    obtain ⟨gone, skips⟩ := lowered
    have isNone := (children rebased (Finset.mem_singleton_self _)).eq_none (.inl gone)
    refine ⟨state, ?_, ?_, fun _ _ => rfl⟩
    · rw [Te.passUpRelation, isNone]
      exact if_pos skips
    · intro place isParent
      rw [Finset.mem_singleton.mp isParent]
      exact .of_lost (.inr (Function.update_self _ _ _)) (absent parent (Finset.mem_singleton_self _))
  | singleton iter =>
    exact ⟨state, rfl, fun parent isParent => absurd isParent (Finset.notMem_empty _),
      fun _ _ => rfl⟩

theorem passUpRebase_of_notMem {v : Var} (outside : v ∉ relation.axes.parents) :
    passUpRebase relation flags v = flags v := by
  cases relation with
  | split parent axisOuter axisInner amount =>
    exact Function.update_of_ne (fun same => outside (Finset.mem_singleton.mpr same)) _ _
  | fuse axisOuter axisInner fused =>
    simp only [IterVarRelation.axes, AxisRelation.parents, Finset.mem_insert,
      Finset.mem_singleton, not_or] at outside
    rw [passUpRebase, Function.update_of_ne outside.1, Function.update_of_ne outside.2]
  | rebase parent rebased =>
    exact Function.update_of_ne (fun same => outside (Finset.mem_singleton.mpr same)) _ _
  | singleton iter => rfl

theorem foldr_passUpRebase_of_notMem {v : Var} (relations : List IterVarRelation)
    (outside : ∀ relation ∈ relations, v ∉ relation.axes.parents) :
    relations.foldr passUpRebase flags v = flags v := by
  induction relations with
  | nil => rfl
  | cons relation rest ih =>
    rw [List.foldr_cons, passUpRebase_of_notMem (outside relation List.mem_cons_self),
      ih fun later member => outside later (List.mem_cons_of_mem _ member)]

theorem foldr_passUpRebase_of_rebase {roots : Finset Var} {axes : List (AxisRelation Var)}
    (derived : AxisRelation.Derived roots axes leaves known) {parent rebased : Var} :
    ∀ relations : List IterVarRelation, relations.map IterVarRelation.axes = axes →
      .rebase parent rebased ∈ relations →
      ∀ flags : Var → Bool, relations.foldr passUpRebase flags parent = true := by
  induction derived with
  | start =>
    intro relations same member
    obtain rfl := List.map_eq_nil_iff.mp same
    exact absurd member List.not_mem_nil
  | @step axes leaves known axis derived distinct fromLeaves fresh ih =>
    intro relations same member flags
    obtain ⟨before, rest, rfl, isBefore, isLast⟩ := List.map_eq_append_iff.mp same
    obtain ⟨relation, rfl, rfl⟩ := List.map_eq_singleton_iff.mp isLast
    rw [List.foldr_append]
    rcases List.mem_append.mp member with old | new
    · exact ih before isBefore old _
    · obtain rfl := List.mem_singleton.mp new
      have isLeaf : parent ∈ leaves := fromLeaves (Finset.mem_singleton_self _)
      rw [foldr_passUpRebase_of_notMem before fun earlier inside isParent =>
        (derived.parent_known _ (isBefore ▸ List.mem_map_of_mem inside) parent isParent).2 isLeaf]
      exact Function.update_self _ _ _

theorem IterVarRelation.Lowered.flagged {bounds : AxisBounds Var}
    (lowered : relation.Lowered bounds allowMissing after values)
    (flagged : ∀ v, flags v = true → allowMissing = true) :
    ∀ v, passUpRebase relation flags v = true → allowMissing = true := by
  intro v flag
  by_cases isParent : v ∈ relation.axes.parents
  · cases relation with
    | split parent axisOuter axisInner amount =>
      rw [Finset.mem_singleton.mp isParent, passUpRebase, Function.update_self] at flag
      rcases Bool.or_eq_true_iff.mp flag with inner | outer
      · exact flagged _ inner
      · exact flagged _ outer
    | fuse axisOuter axisInner fused =>
      by_cases isOuter : v = axisOuter
      · rw [isOuter, passUpRebase, Function.update_self] at flag
        exact flagged _ flag
      · have isInner : v = axisInner := by
          rcases Finset.mem_insert.mp isParent with same | rest
          · exact absurd same isOuter
          · exact Finset.mem_singleton.mp rest
        rw [passUpRebase, Function.update_of_ne isOuter, isInner, Function.update_self] at flag
        exact flagged _ flag
    | rebase parent rebased => exact lowered.2
    | singleton iter => exact absurd isParent (Finset.notMem_empty _)
  · rw [passUpRebase_of_notMem isParent] at flag
    exact flagged v flag

theorem Domains.passUpRestored {total : Finset Var}
    (domains : Domains stage total outer start domMap) {axes : List (AxisRelation Var)}
    (derived : AxisRelation.Derived stage.roots axes leaves known) (within : known ⊆ total) :
    ∀ relations : List IterVarRelation, relations.map IterVarRelation.axes = axes →
      (∀ relation ∈ relations,
        relation.Lowered (domainBounds domMap outer) allowMissing after values ∧
          relation.Separate (domainBounds domMap outer) after values ∧
          (∀ child ∈ relation.axes.children, target child = values child) ∧
          ∀ parent ∈ relation.axes.parents,
            target parent = values parent + (domainBounds domMap outer).low parent) →
      ∀ (flags : Var → Bool) (state : Var → Option PrimExpr),
      (∀ v, flags v = true → allowMissing = true) →
      (∀ leaf ∈ leaves, Restored after flags outer state target leaf) →
      (∀ v ∈ known, v ∉ leaves → state v = none) →
      ∃ final, relations.reverse.foldlM (Te.passUpRelation domMap allowMissing) state =
          some final ∧
        ∀ root ∈ stage.roots,
          Restored after (relations.foldr passUpRebase flags) outer final target root := by
  induction derived with
  | start =>
    intro relations same _ flags state _ restored _
    obtain rfl := List.map_eq_nil_iff.mp same
    exact ⟨state, rfl, restored⟩
  | @step axes leaves known axis derived distinct fromLeaves fresh ih =>
    intro relations same lowered flags state flagged restored absent
    obtain ⟨before, rest, rfl, isBefore, isLast⟩ := List.map_eq_append_iff.mp same
    obtain ⟨relation, rfl, rfl⟩ := List.map_eq_singleton_iff.mp isLast
    obtain ⟨isLowered, separate, childTarget, parentTarget⟩ :=
      lowered relation (List.mem_append_right _ (List.mem_singleton_self _))
    have inKnown := derived_axes (derived.step distinct fromLeaves fresh) relation.axes
      (List.mem_append_right _ (List.mem_singleton_self _))
    have fromKnown : relation.axes.parents ⊆ known := fromLeaves.trans derived.leaves_subset
    have notChild : ∀ v ∈ known, v ∉ relation.axes.children :=
      fun v member isChild => Finset.disjoint_left.mp fresh isChild member
    have children : ∀ child ∈ relation.axes.children,
        Restored after flags outer state values child := by
      intro child isChild
      have own := restored child (Finset.mem_union_right _ isChild)
      rwa [Restored, childTarget child isChild] at own
    have gone : ∀ v ∈ known, (v ∉ leaves ∨ v ∈ relation.axes.parents) → state v = none := by
      intro v member outside
      refine absent v (Finset.mem_union_left _ member) fun isLeaf => ?_
      rcases Finset.mem_union.mp isLeaf with old | new
      · obtain ⟨isOld, notParent⟩ := Finset.mem_sdiff.mp old
        exact outside.elim (fun notLeaf => notLeaf isOld) notParent
      · exact notChild v member new
    obtain ⟨next, step, passed⟩ := domains.passUpLowered distinct
      (fun place member => domains.knows place (within (inKnown member))) isLowered separate flagged
      children (fun parent isParent => gone parent (fromKnown isParent) (.inr isParent))
      parentTarget
    obtain ⟨final, run, roots⟩ := ih (Finset.subset_union_left.trans within) before isBefore
      (fun earlier member => lowered earlier (List.mem_append_left _ member))
      (passUpRebase relation flags) next (isLowered.flagged flagged) (by
        intro leaf isLeaf
        by_cases isParent : leaf ∈ relation.axes.parents
        · exact passed.parents leaf isParent
        · have own := restored leaf
            (Finset.mem_union_left _ (Finset.mem_sdiff.mpr ⟨isLeaf, isParent⟩))
          rwa [Restored, passed.keeps leaf isParent, passUpRebase_of_notMem isParent]) (by
        intro v member notLeaf
        rw [passed.keeps v fun isParent => notLeaf (fromLeaves isParent)]
        exact gone v member (.inl notLeaf))
    refine ⟨final, ?_, ?_⟩
    · rw [List.reverse_append, List.reverse_singleton, List.singleton_append, List.foldlM_cons, step]
      exact run
    · rw [List.foldr_append]
      exact roots

end Up

/-- No minimum is left out and no root has a rebased variable below it. -/
structure Stage.Reversible (stage : Stage) (start : Ranges) : Prop where
  split : ∀ parent outer inner amount, .split parent outer inner amount ∈ stage.relations →
    ∀ range, start.lookup parent = some range → isZero range.min = true
  rebase : ∀ root ∈ stage.roots, stage.aboveRebase root = false

/-- The roots that are split have values of their ranges moved to zero. -/
def Stage.FromZero (stage : Stage) (start : Ranges) (env : Env) (point : Var → Int) : Prop :=
  ∀ parent outer inner amount, .split parent outer inner amount ∈ stage.relations →
    ∀ range, start.lookup parent = some range → (fromExtent range.extent).Contains env (point parent)

def Stage.Unfused (stage : Stage) : Prop :=
  ∀ outer inner fused, .fuse outer inner fused ∉ stage.relations

section Back

variable {stage : Stage} {known : Finset Var} {outer : Env} {start domMap : Ranges}
  {allowMissing : Bool} {point : Var → Int} {state after : Var → Option PrimExpr}
  {values : Var → Int}

/-- The value that comes back: the minimum is added to what has been taken apart. -/
def returned (stage : Stage) (bounds : AxisBounds Var) (values : Var → Int) (v : Var) : Int :=
  values v + if v ∈ stage.leafIterVars then 0 else bounds.low v

def Stage.Inside (stage : Stage) (start : Ranges) (env : Env) (point : Var → Int) : Prop :=
  ∀ root ∈ stage.roots, ∃ range, start.lookup root = some range ∧ range.Contains env (point root)

theorem Stage.Reversible.fromZero (reversible : stage.Reversible start)
    (wellFormed : stage.WellFormed known) (ranges : stage.RootRanges start)
    (inside : stage.Inside start outer point) : stage.FromZero start outer point := by
  intro parent axisOuter axisInner amount member range found
  have isRoot := ranges.isRoot _ ((lookup_eq_some_iff_mem ranges.distinct).mp found)
  have isKnown := (wellFormed.derived.parent_known _ (List.mem_map_of_mem member) parent
    (Finset.mem_singleton_self _)).1
  obtain ⟨own, isOwn, lower, extent, isLower, isExtent, contains⟩ :=
    inside parent (mem_roots.mpr ⟨isRoot, wellFormed.visible parent isKnown⟩)
  obtain rfl := Option.some.inj (found.symm.trans isOwn)
  have literal : range.min = .intImm 0 :=
    of_decide_eq_true (reversible.split _ _ _ _ member range found)
  rw [literal] at isLower
  obtain rfl := Option.some.inj isLower
  exact ⟨0, extent, rfl, isExtent, contains⟩

/-- What the way down leaves, with the ranges of the variables. -/
structure Lowering (stage : Stage) (known : Finset Var) (outer : Env) (start domMap : Ranges)
    (allowMissing : Bool) (point : Var → Int) (after : Var → Option PrimExpr)
    (values : Var → Int) : Prop where
  domains : Domains stage known outer start domMap
  inside : ∀ root ∈ stage.roots, (domainBounds domMap outer).Contains point root
  present : ∀ root ∈ stage.roots, after root ≠ none
  root : ∀ root ∈ stage.roots, values root = point root
  shows : ∀ v ∈ known, Shows outer after values v
  lowered : ∀ relation ∈ stage.relations,
    relation.Lowered (domainBounds domMap outer) allowMissing after values

theorem Domains.exists_lowering (domains : Domains stage known outer start domMap)
    (wellFormed : stage.WellFormed known) (ranges : stage.RootRanges start)
    (inside : stage.Inside start outer point) (isAt : stage.At outer point state)
    (run : Te.passDownIndex stage domMap state allowMissing = some after) :
    ∃ values, Lowering stage known outer start domMap allowMissing point after values := by
  obtain ⟨values, descended⟩ := domains.passDownIndex wellFormed.derived subset_rfl stage.relations
    rfl wellFormed.fresh state after isAt run
  refine ⟨values, domains, ?_, ?_, descended.root, descended.shows, descended.lowered⟩
  · exact fun root isRoot =>
      (domains.start_contains ranges isRoot point).mp (inside root isRoot)
  · intro root isRoot
    obtain ⟨e, isExpr, _⟩ := isAt.roots root isRoot
    rw [descended.keeps root fun relation member isChild =>
      wellFormed.fresh relation member root isChild (mem_roots.mp isRoot).1, isExpr]
    exact Option.some_ne_none e

theorem Lowering.contains_root
    (lowering : Lowering stage known outer start domMap allowMissing point after values)
    (ranges : stage.RootRanges start) (fromZero : stage.FromZero start outer point) :
    ∀ relation ∈ stage.relations, ∀ parent ∈ relation.axes.parents, parent ∈ stage.roots →
      (∃ child ∈ relation.axes.children, after child ≠ none) →
        (domainBounds domMap outer).fromZero.Contains values parent := by
  rintro relation member parent isParent isRoot ⟨child, isChild, present⟩
  have isLowered := lowering.lowered relation member
  rw [AxisBounds.Contains, lowering.root parent isRoot]
  cases relation with
  | split place axisOuter axisInner amount =>
    obtain rfl := Finset.mem_singleton.mp isParent
    obtain ⟨range, found⟩ :=
      Option.ne_none_iff_exists'.mp (ranges.covers parent (mem_roots.mp isRoot).1)
    obtain ⟨lower, extent, isLower, isExtent, contains⟩ :=
      fromZero parent axisOuter axisInner amount member range found
    obtain rfl := Option.some.inj isLower
    have same : (domainBounds domMap outer).extent parent = extent :=
      domainBounds_extent (lowering.domains.keeps parent range found) isExtent
    rw [AxisBounds.fromZero, same]
    exact contains
  | fuse axisOuter axisInner fused =>
    obtain rfl := Finset.mem_singleton.mp isChild
    obtain ⟨outerLow, innerLow⟩ := isLowered.2.2.2.1 present
    have zero : (domainBounds domMap outer).low parent = 0 := by
      rcases Finset.mem_insert.mp isParent with rfl | isLast
      · exact outerLow
      · rw [Finset.mem_singleton.mp isLast, innerLow]
    have contains := lowering.inside parent isRoot
    rw [AxisBounds.Contains, zero] at contains
    exact contains
  | rebase place rebased =>
    rw [Finset.mem_singleton.mp isChild] at present
    exact absurd isLowered.1 present
  | singleton iter => exact absurd isParent (Finset.notMem_empty _)

theorem Lowering.contains
    (lowering : Lowering stage known outer start domMap allowMissing point after values)
    (wellFormed : stage.WellFormed known) (ranges : stage.RootRanges start)
    (fromZero : stage.FromZero start outer point) :
    ∀ v ∈ known, after v ≠ none →
      v ∈ stage.roots ∨ (domainBounds domMap outer).fromZero.Contains values v :=
  Lowered.contains wellFormed.derived stage.relations rfl
    (fun relation member => ⟨lowering.lowered relation member, lowering.domains.fits relation member⟩)
    (lowering.contains_root ranges fromZero)

theorem Lowering.separate
    (lowering : Lowering stage known outer start domMap allowMissing point after values)
    (wellFormed : stage.WellFormed known) (ranges : stage.RootRanges start)
    (apart : stage.Unfused ∨ stage.FromZero start outer point) :
    ∀ relation ∈ stage.relations,
      relation.Separate (domainBounds domMap outer) after values := by
  intro relation member
  cases relation with
  | fuse axisOuter axisInner fused =>
    intro present
    have fromZero := apart.resolve_left fun unfused => unfused _ _ _ member
    have isInner : axisInner ∈ (IterVarRelation.fuse axisOuter axisInner fused).axes.parents :=
      Finset.mem_insert_of_mem (Finset.mem_singleton_self _)
    have innerPresent : after axisInner ≠ none := by
      rw [← Option.isSome_iff_ne_none, (lowering.lowered _ member).2.1]
      exact Option.isSome_iff_ne_none.mpr present
    rcases lowering.contains wellFormed ranges fromZero axisInner
      (wellFormed.derived.parent_known _ (List.mem_map_of_mem member) axisInner isInner).1
      innerPresent with isRoot | inRange
    · exact lowering.contains_root ranges fromZero _ member axisInner isInner isRoot
        ⟨fused, Finset.mem_singleton_self _, present⟩
    · exact inRange
  | split parent axisOuter axisInner amount => trivial
  | rebase parent rebased => trivial
  | singleton iter => trivial

theorem Lowering.passUpIndex
    (lowering : Lowering stage known outer start domMap allowMissing point after values)
    (wellFormed : stage.WellFormed known) (ranges : stage.RootRanges start)
    (apart : stage.Unfused ∨ stage.FromZero start outer point) :
    ∃ final, Te.passUpIndex stage domMap (stage.leafState after) allowMissing = some final ∧
      ∀ root ∈ stage.roots, Restored after stage.aboveRebase outer final
        (returned stage (domainBounds domMap outer) values) root := by
  apply lowering.domains.passUpRestored wellFormed.derived subset_rfl stage.relations rfl
  · intro relation member
    have onAxes := List.mem_map_of_mem (f := IterVarRelation.axes) member
    refine ⟨lowering.lowered relation member, lowering.separate wellFormed ranges apart relation
      member, ?_, ?_⟩
    · intro child isChild
      rw [returned, (lowering.domains.fits relation member).low_child isChild, ite_self, add_zero]
    · intro parent isParent
      rw [returned, if_neg fun isLeaf => (wellFormed.derived.parent_known _ onAxes parent
        isParent).2 (List.mem_toFinset.mpr isLeaf)]
  · exact fun v flag => absurd flag Bool.false_ne_true
  · intro leaf isLeaf
    have inList := List.mem_toFinset.mp isLeaf
    rw [Restored, Bool.or_false, Stage.leafState, if_pos inList]
    cases isValue : after leaf with
    | none => rfl
    | some e =>
      refine ⟨e, rfl, ?_⟩
      rw [lowering.shows leaf (wellFormed.leaf_known inList) e isValue, returned, if_pos inList,
        add_zero]
  · exact fun v _ notLeaf => if_neg fun inList => notLeaf (List.mem_toFinset.mpr inList)

theorem Lowering.leaf_inRange
    (lowering : Lowering stage known outer start domMap allowMissing point after values)
    (wellFormed : stage.WellFormed known) (ranges : stage.RootRanges start)
    (fromZero : stage.FromZero start outer point) {leaf : Var} {e : PrimExpr}
    (isLeaf : leaf ∈ stage.leafIterVars) (isExpr : after leaf = some e) :
    ∃ range x, domMap.lookup leaf = some range ∧ e.value outer = some x ∧
      range.Contains outer x := by
  have isKnown := wellFormed.leaf_known isLeaf
  have present : after leaf ≠ none := by
    rw [isExpr]
    exact Option.some_ne_none e
  have contains : (domainBounds domMap outer).Contains values leaf := by
    rcases wellFormed.derived.cases_known leaf isKnown with isRoot | ⟨axes, member, isChild⟩
    · rw [AxisBounds.Contains, lowering.root leaf isRoot]
      exact lowering.inside leaf isRoot
    · obtain ⟨relation, inside, rfl⟩ := List.mem_map.mp member
      have zero := (lowering.domains.fits relation inside).low_child isChild
      rcases lowering.contains wellFormed ranges fromZero leaf isKnown present with isRoot | inRange
      · exact absurd (mem_roots.mp isRoot).1 (wellFormed.fresh relation inside leaf isChild)
      · rw [AxisBounds.Contains, zero]
        exact inRange
  obtain ⟨range, found, fixedMin, fixedExtent, _⟩ :=
    lowering.domains.exists_fixed (lowering.domains.knows leaf isKnown)
  exact ⟨range, values leaf, found, lowering.shows leaf isKnown e isExpr, _, _, fixedMin.value,
    fixedExtent.value, contains⟩

theorem Lowering.low_eq_zero
    (lowering : Lowering stage known outer start domMap allowMissing point after values)
    (wellFormed : stage.WellFormed known) (ranges : stage.RootRanges start)
    (reversible : stage.Reversible start) {root : Var} (isRoot : root ∈ stage.roots)
    (notLeaf : root ∉ stage.leafIterVars) : (domainBounds domMap outer).low root = 0 := by
  rcases wellFormed.derived.leaf_or_parent root (wellFormed.derived.roots_subset isRoot) with
    isLeaf | ⟨axes, member, isParent⟩
  · exact absurd (List.mem_toFinset.mp isLeaf) notLeaf
  · obtain ⟨relation, inside, rfl⟩ := List.mem_map.mp member
    cases relation with
    | split parent axisOuter axisInner amount =>
      obtain rfl := Finset.mem_singleton.mp isParent
      obtain ⟨range, found⟩ :=
        Option.ne_none_iff_exists'.mp (ranges.covers root (mem_roots.mp isRoot).1)
      exact domainBounds_low_of_isZero (lowering.domains.keeps root range found)
        (reversible.split _ _ _ _ inside range found)
    | fuse axisOuter axisInner fused =>
      obtain ⟨outerSame, innerSame, _, lows, _⟩ := lowering.lowered _ inside
      have isSome := Option.isSome_iff_ne_none.mpr (lowering.present root isRoot)
      rcases Finset.mem_insert.mp isParent with rfl | isLast
      · exact (lows (Option.isSome_iff_ne_none.mp (outerSame ▸ isSome))).1
      · obtain rfl := Finset.mem_singleton.mp isLast
        exact (lows (Option.isSome_iff_ne_none.mp (innerSame ▸ isSome))).2
    | rebase parent rebased =>
      obtain rfl := Finset.mem_singleton.mp isParent
      have flag := foldr_passUpRebase_of_rebase wellFormed.derived stage.relations rfl inside
        fun _ => false
      cases flag.symm.trans (reversible.rebase root isRoot)
    | singleton iter => exact absurd isParent (Finset.notMem_empty _)

theorem Lowering.givesBack
    (lowering : Lowering stage known outer start domMap allowMissing point after values)
    (wellFormed : stage.WellFormed known) (ranges : stage.RootRanges start)
    (fromZero : stage.FromZero start outer point) (reversible : stage.Reversible start) :
    stage.GivesBack domMap outer allowMissing point after := by
  obtain ⟨final, run, roots⟩ := lowering.passUpIndex wellFormed ranges (.inr fromZero)
  refine ⟨fun leaf isLeaf e isExpr => lowering.leaf_inRange wellFormed ranges fromZero isLeaf isExpr,
    final, run, fun root isRoot => ?_⟩
  obtain ⟨e, isExpr, value⟩ := (roots root isRoot).exists_value
    (Option.isSome_iff_ne_none.mpr (lowering.present root isRoot)) (reversible.rebase root isRoot)
  refine ⟨e, isExpr, value.trans ?_⟩
  rw [returned, lowering.root root isRoot]
  by_cases isLeaf : root ∈ stage.leafIterVars
  · rw [if_pos isLeaf, add_zero]
  · rw [if_neg isLeaf, lowering.low_eq_zero wellFormed ranges reversible isRoot isLeaf, add_zero]

theorem Lowering.reversible
    (lowering : Lowering stage known outer start domMap allowMissing point after values)
    (wellFormed : stage.WellFormed known) (ranges : stage.RootRanges start)
    (apart : stage.Unfused ∨ stage.FromZero start outer point)
    (back : stage.GivesBack domMap outer allowMissing point after) : stage.Reversible start := by
  obtain ⟨final, run, roots⟩ := lowering.passUpIndex wellFormed ranges apart
  obtain ⟨other, otherRun, isPoint⟩ := back.root
  obtain rfl := Option.some.inj (run.symm.trans otherRun)
  have free : ∀ root ∈ stage.roots, stage.aboveRebase root = false := by
    intro root isRoot
    by_contra flag
    obtain ⟨e, isExpr, _⟩ := isPoint root isRoot
    rw [(roots root isRoot).eq_none (.inr (Bool.not_eq_false _ ▸ flag))] at isExpr
    cases isExpr
  refine ⟨?_, free⟩
  intro parent axisOuter axisInner amount member range found
  have entry := (lookup_eq_some_iff_mem ranges.distinct).mp found
  obtain ⟨isKnown, notLeaf⟩ := wellFormed.derived.parent_known _
    (List.mem_map_of_mem (f := IterVarRelation.axes) member) parent (Finset.mem_singleton_self _)
  have isRoot := mem_roots.mpr ⟨ranges.isRoot _ entry, wellFormed.visible parent isKnown⟩
  obtain ⟨e, isExpr, value⟩ := (roots parent isRoot).exists_value
    (Option.isSome_iff_ne_none.mpr (lowering.present parent isRoot)) (free parent isRoot)
  obtain ⟨own, isOwn, ownValue⟩ := isPoint parent isRoot
  obtain rfl := Option.some.inj (isExpr.symm.trans isOwn)
  have same := Option.some.inj (value.symm.trans ownValue)
  rw [returned, if_neg fun isLeaf => notLeaf (List.mem_toFinset.mpr isLeaf),
    lowering.root parent isRoot, add_eq_left] at same
  obtain ⟨min, extent, isRange, _⟩ := ranges.constant _ entry
  obtain rfl : range = ⟨.intImm min, .intImm extent⟩ := isRange
  rw [domainBounds_low (lowering.domains.keeps parent _ found) rfl] at same
  rw [same]
  rfl

end Back

def shiftedStart (first : Int) : Ranges :=
  [(0, ⟨.intImm first, .intImm 4⟩)]

def splitState (value : Int) (v : Var) : Option PrimExpr :=
  if v = 0 then some (.intImm value) else none

theorem splitStage_shiftedRanges (factor first : Int) :
    (splitStage factor).RootRanges (shiftedStart first) where
  distinct := List.nodup_singleton 0
  isRoot := by
    intro entry member
    obtain rfl := List.mem_singleton.mp member
    exact List.mem_singleton_self _
  constant := by
    intro entry member
    obtain rfl := List.mem_singleton.mp member
    exact ⟨first, 4, rfl, by decide⟩
  covers := by
    intro iv member
    obtain rfl := List.mem_singleton.mp member
    exact Option.some_ne_none _

theorem splitStage_at (factor value : Int) (env : Env) :
    (splitStage factor).At env (fun _ => value) (splitState value) where
  roots := by
    intro root isRoot
    obtain rfl := List.mem_singleton.mp (mem_roots.mp isRoot).1
    exact ⟨_, rfl, rfl⟩
  others := fun v notRoot => if_neg fun same => notRoot (List.mem_singleton.mpr same)

theorem splitStage_inside {first value : Int} (factor : Int) (env : Env) (lower : first ≤ value)
    (upper : value < first + 4) :
    (splitStage factor).Inside (shiftedStart first) env fun _ => value := by
  intro root isRoot
  obtain rfl := List.mem_singleton.mp (mem_roots.mp isRoot).1
  exact ⟨_, rfl, contains_const.mpr ⟨lower, upper⟩⟩

theorem splitStage_positive (outer : Env) : ∀ relation ∈ (splitStage 2).relations,
    relation.Positive ((splitStage 2).variables {0, 1, 2}) outer := by
  intro relation member
  obtain rfl := List.mem_singleton.mp member
  exact ⟨2, .intImm 2, by decide⟩

/-- The wrong values may cancel: with the outer part fused inside, eight of the iterations from
seven on comes back. -/
example :
    let stage : Stage := { splitStage 4 with
      relations := [.split 0 1 2 (.factor (.intImm 4)), .fuse 2 1 3], leafIterVars := [3] }
    let start : Ranges := [(0, ⟨.intImm 7, .intImm 8⟩)]
    ((passDownDomain .constant stage ⟨start, []⟩ false).bind fun derived =>
      (passDownIndex stage derived.state (splitState 8) false).bind fun after =>
        (passUpIndex stage derived.state (stage.leafState after) false).bind fun final =>
          final 0) = some (.intImm 8) := by
  rfl

end Tvm.Te
