import Mathlib
import Tvm.Te.Domains

/-!
# Values and checks of the iteration variables

The expressions that `PassUpIndex` makes have the values of the relations between the axes, and the
flags of `PassUpBoundCheck` flow along them.
-/

namespace Tvm.Te

open Arith PrimExpr Lib

/-- An expression over the leaves and the outer variables, with its value. -/
structure Computes (inside : Set Var) (leaves : Finset Var) (outer : Env) (e : PrimExpr)
    (f : Env → Int) : Prop where
  sorted : e.Sorted .int
  closed : ∀ v ∈ e.vars, v ∈ leaves ∨ v ∉ inside
  value : ∀ env, Agrees inside outer env → e.value env = some (f env)

section Computes

variable {inside : Set Var} {leaves : Finset Var} {outer : Env} {a b e : PrimExpr}
  {f g : Env → Int} {x y : Int}

theorem Computes.var {v : Var} (isLeaf : v ∈ leaves) :
    Computes inside leaves outer (.var v) (fun env => env v) where
  sorted := rfl
  closed := by
    intro w member
    rw [List.mem_singleton.mp member]
    exact .inl isLeaf
  value := fun _ _ => rfl

theorem Fixed.computes (fixed : Fixed inside outer e x) :
    Computes inside leaves outer e (fun _ => x) where
  sorted := fixed.sorted
  closed := fun v member => .inr (fixed.closed v member)
  value := fun _ agrees => fixed.value_of_agrees agrees

theorem Computes.make {op : BinOp} {h : Env → Int} (left : Computes inside leaves outer a f)
    (right : Computes inside leaves outer b g) (operand : op.operandSort = .int)
    (result : op.resultSort = .int) (evaluates : ∀ env, op.eval (f env) (g env) = some (h env)) :
    Computes inside leaves outer (make op a b) h where
  sorted := by
    have sorted := sorted_make op (a := a) (b := b) (by rw [operand]; exact left.sorted)
      (by rw [operand]; exact right.sorted)
    rwa [result] at sorted
  closed := by
    intro v member
    rcases vars_make member with inLeft | inRight
    · exact left.closed v inLeft
    · exact right.closed v inRight
  value := fun env agrees => value_make (left.value env agrees) (right.value env agrees)
    (admits_int operand _ _) (evaluates env)

theorem Computes.congr (computes : Computes inside leaves outer e f)
    (same : ∀ env, f env = g env) : Computes inside leaves outer e g where
  sorted := computes.sorted
  closed := computes.closed
  value := fun env agrees => by rw [computes.value env agrees, same]

theorem Computes.addMin (computes : Computes inside leaves outer e f)
    (fixed : Fixed inside outer a x) :
    Computes inside leaves outer (addMin e a) (fun env => f env + x) := by
  rw [Te.addMin]
  by_cases zero : isZero a = true
  · rw [if_pos zero]
    have literal : a = .intImm 0 := of_decide_eq_true zero
    have isZero : x = 0 := by
      have value := fixed.value
      rw [literal] at value
      exact (Option.some.inj value).symm
    exact computes.congr fun env => by rw [isZero, add_zero]
  · rw [if_neg zero]
    exact computes.make fixed.computes rfl rfl fun _ => rfl

theorem Computes.fixed (computes : Computes inside ∅ outer e f) : Fixed inside outer e (f outer) where
  sorted := computes.sorted
  closed := fun v member =>
    (computes.closed v member).resolve_left fun isLeaf => Finset.notMem_empty v isLeaf
  value := computes.value outer fun _ _ => rfl

theorem Computes.local (computes : Computes inside leaves outer e f) {env other : Env}
    (agrees : Agrees inside outer env) (otherAgrees : Agrees inside outer other)
    (same : ∀ leaf ∈ leaves, env leaf = other leaf) : f env = f other := by
  have values : e.value env = e.value other := by
    apply value_congr computes.sorted
    intro v member
    rcases computes.closed v member with isLeaf | isOuter
    · exact same v isLeaf
    · rw [agrees v isOuter, otherAgrees v isOuter]
  rw [computes.value env agrees, computes.value other otherAgrees] at values
  exact Option.some.inj values

end Computes

section Values

variable {stage : Stage} {known leaves finalLeaves : Finset Var} {outer : Env}
  {start domMap : Ranges} {iv : Var} {relation : IterVarRelation}

def ComputesAt (inside : Set Var) (leaves : Finset Var) (outer : Env)
    (state : Var → Option PrimExpr) (values : Env → Var → Int) (v : Var) : Prop :=
  ∃ e, state v = some e ∧ Computes inside leaves outer e (fun env => values env v)

theorem Domains.exists_fixed (domains : Domains stage known outer start domMap)
    (found : domMap.lookup iv ≠ none) :
    ∃ range, domMap.lookup iv = some range ∧
      Fixed (stage.variables known) outer range.min ((domainBounds domMap outer).low iv) ∧
      Fixed (stage.variables known) outer range.extent ((domainBounds domMap outer).extent iv) ∧
      0 < (domainBounds domMap outer).extent iv := by
  obtain ⟨range, low, extent, isRange, fixedMin, fixedExtent, positive, lowIs, extentIs⟩ :=
    domains.good.exists_fixed found
  rw [lowIs, extentIs]
  exact ⟨range, isRange, fixedMin, fixedExtent, positive⟩

/-- The known ranges have closed bounds and hold values. -/
def FixedRanges (inside : Set Var) (outer : Env) (domMap : Ranges) (known : Finset Var) : Prop :=
  ∀ iv ∈ known, ∃ range, domMap.lookup iv = some range ∧
    Fixed inside outer range.min ((domainBounds domMap outer).low iv) ∧
    Fixed inside outer range.extent ((domainBounds domMap outer).extent iv) ∧
    0 < (domainBounds domMap outer).extent iv

theorem Domains.fixedRanges (domains : Domains stage known outer start domMap) :
    FixedRanges (stage.variables known) outer domMap known :=
  fun iv isKnown => domains.exists_fixed (domains.knows iv isKnown)

theorem FixedRanges.passUpRelation {inside : Set Var}
    (fixed : FixedRanges inside outer domMap known)
    (allowMissing : Bool) {state : Var → Option PrimExpr} {values : Env → Var → Int}
    (distinct : relation.axes.Distinct)
    (isKnown : relation.axes.parents ∪ relation.axes.children ⊆ known)
    (children : ∀ child ∈ relation.axes.children,
      ComputesAt inside finalLeaves outer state values child) :
    ∃ after, passUpRelation domMap allowMissing state relation = some after ∧
      (∀ parent ∈ relation.axes.parents, ComputesAt inside finalLeaves outer after
        (fun env => relation.axes.up (domainBounds domMap outer) (values env)) parent) ∧
      ∀ v, v ∉ relation.axes.parents → after v = state v := by
  have isParent : ∀ parent ∈ relation.axes.parents, parent ∈ known :=
    fun parent member => isKnown (Finset.mem_union_left _ member)
  have isChild : ∀ child ∈ relation.axes.children, child ∈ known :=
    fun child member => isKnown (Finset.mem_union_right _ member)
  cases relation with
  | split parent axisOuter axisInner amount =>
    have innerMember : axisInner ∈
        (IterVarRelation.split parent axisOuter axisInner amount).axes.children :=
      Finset.mem_insert_of_mem (Finset.mem_singleton_self _)
    obtain ⟨outerValue, isOuter, outerComputes⟩ := children axisOuter (Finset.mem_insert_self _ _)
    obtain ⟨innerValue, isInner, innerComputes⟩ := children axisInner innerMember
    obtain ⟨rangeInner, foundInner, _, fixedInner, _⟩ :=
      fixed _ (isChild axisInner innerMember)
    obtain ⟨rangeParent, foundParent, fixedMin, _⟩ :=
      fixed _ (isParent parent (Finset.mem_singleton_self _))
    refine ⟨_, by rw [Te.passUpRelation, isOuter, isInner]; simp only [foundInner, foundParent,
      Option.bind_eq_bind, Option.bind_some, Option.pure_def]; rfl, ?_, ?_⟩
    · intro axis member
      rw [Finset.mem_singleton.mp member]
      refine ⟨_, Function.update_self _ _ _, Computes.congr (Computes.addMin
        (innerComputes.make (outerComputes.make fixedInner.computes rfl rfl fun _ => rfl) rfl rfl
          fun _ => rfl) fixedMin) ?_⟩
      intro env
      simp only [IterVarRelation.axes, AxisRelation.up, Function.update_self]
    · intro v outside
      exact Function.update_of_ne (fun same => outside (Finset.mem_singleton.mpr same)) _ _
  | fuse axisOuter axisInner fused =>
    have apart : axisOuter ≠ axisInner := distinct
    have innerMember : axisInner ∈
        (IterVarRelation.fuse axisOuter axisInner fused).axes.parents :=
      Finset.mem_insert_of_mem (Finset.mem_singleton_self _)
    obtain ⟨value, isFused, computes⟩ := children fused (Finset.mem_singleton_self _)
    obtain ⟨rangeOuter, foundOuter, fixedOuterMin, _⟩ :=
      fixed _ (isParent axisOuter (Finset.mem_insert_self _ _))
    obtain ⟨rangeInner, foundInner, fixedInnerMin, fixedInner, positive⟩ :=
      fixed _ (isParent axisInner innerMember)
    have quotient : Computes inside finalLeaves outer
        (make .floorDiv value rangeInner.extent)
        (fun env => values env fused / (domainBounds domMap outer).extent axisInner) :=
      computes.make fixedInner.computes rfl rfl fun env => by
        rw [← fdiv_eq_ediv positive]
        exact if_neg positive.ne'
    have remainder : Computes inside finalLeaves outer
        (make .floorMod value rangeInner.extent)
        (fun env => values env fused % (domainBounds domMap outer).extent axisInner) :=
      computes.make fixedInner.computes rfl rfl fun env => by
        rw [← fmod_eq_emod positive]
        exact if_neg positive.ne'
    refine ⟨_, by rw [Te.passUpRelation, isFused]; simp only [foundInner, foundOuter,
      exists_makeBinary .floorDiv (.inl rfl) fixedInner.value positive.ne',
      exists_makeBinary .floorMod (.inr rfl) fixedInner.value positive.ne',
      Option.bind_eq_bind, Option.bind_some, Option.pure_def]; rfl, ?_, ?_⟩
    · intro axis member
      by_cases isInner : axis = axisInner
      · rw [isInner]
        refine ⟨_, Function.update_self _ _ _, (remainder.addMin fixedInnerMin).congr ?_⟩
        intro env
        simp only [IterVarRelation.axes, AxisRelation.up, Function.update_self]
      · have isOuter : axis = axisOuter := by
          rcases Finset.mem_insert.mp member with same | rest
          · exact same
          · exact absurd (Finset.mem_singleton.mp rest) isInner
        rw [isOuter]
        refine ⟨_, ?_, (quotient.addMin fixedOuterMin).congr ?_⟩
        · rw [Function.update_of_ne apart, Function.update_self]
        · intro env
          simp only [IterVarRelation.axes, AxisRelation.up, Function.update_of_ne apart,
            Function.update_self]
    · intro v outside
      simp only [IterVarRelation.axes, AxisRelation.parents, Finset.mem_insert,
        Finset.mem_singleton, not_or] at outside
      rw [Function.update_of_ne outside.2, Function.update_of_ne outside.1]
  | rebase parent rebased =>
    obtain ⟨value, isValue, computes⟩ := children rebased (Finset.mem_singleton_self _)
    obtain ⟨rangeParent, foundParent, fixedMin, _⟩ :=
      fixed _ (isParent parent (Finset.mem_singleton_self _))
    refine ⟨_, by rw [Te.passUpRelation, isValue]; simp only [foundParent, Option.bind_eq_bind,
      Option.bind_some, Option.pure_def]; rfl, ?_, ?_⟩
    · intro axis member
      rw [Finset.mem_singleton.mp member]
      refine ⟨_, Function.update_self _ _ _, (computes.addMin fixedMin).congr ?_⟩
      intro env
      simp only [IterVarRelation.axes, AxisRelation.up, Function.update_self]
    · intro v outside
      exact Function.update_of_ne (fun same => outside (Finset.mem_singleton.mpr same)) _ _
  | singleton iter =>
    exact ⟨state, rfl, fun parent member => absurd member (Finset.notMem_empty _), fun _ _ => rfl⟩

theorem derived_axes {roots : Finset Var} {axes : List (AxisRelation Var)}
    (derived : AxisRelation.Derived roots axes leaves known) :
    ∀ relation ∈ axes, relation.parents ∪ relation.children ⊆ known := by
  induction derived with
  | start => exact fun relation member => absurd member List.not_mem_nil
  | step derived _ fromLeaves _ ih =>
    intro relation member
    rcases List.mem_append.mp member with old | new
    · exact (ih relation old).trans Finset.subset_union_left
    · rw [List.mem_singleton.mp new]
      exact Finset.union_subset_union (fromLeaves.trans derived.leaves_subset) subset_rfl

theorem FixedRanges.passUpIndex {inside : Set Var} {total : Finset Var}
    (fixed : FixedRanges inside outer domMap total) (allowMissing : Bool) {roots : Finset Var}
    {axes : List (AxisRelation Var)}
    (derived : AxisRelation.Derived roots axes leaves known) (within : known ⊆ total) :
    ∀ (relations : List IterVarRelation), relations.map IterVarRelation.axes = axes →
      ∀ (state : Var → Option PrimExpr) (values : Env → Var → Int),
      (∀ leaf ∈ leaves,
        ComputesAt inside finalLeaves outer state values leaf) →
      ∃ after, relations.reverse.foldlM (Te.passUpRelation domMap allowMissing) state = some after ∧
        (∀ v ∈ known, ComputesAt inside finalLeaves outer after
          (fun env => AxisRelation.run (domainBounds domMap outer) axes (values env)) v) ∧
        ∀ v, v ∉ known → after v = state v := by
  induction derived with
  | start =>
    rintro relations same state values computes
    obtain rfl := List.map_eq_nil_iff.mp same
    exact ⟨state, rfl, computes, fun _ _ => rfl⟩
  | @step axes leaves known axis derived distinct fromLeaves fresh ih =>
    intro relations same state values computes
    obtain ⟨before, rest, rfl, isBefore, isLast⟩ := List.map_eq_append_iff.mp same
    obtain ⟨relation, rfl, rfl⟩ := List.map_eq_singleton_iff.mp isLast
    have inKnown := derived_axes (derived.step distinct fromLeaves fresh) relation.axes
      (List.mem_append_right _ (List.mem_singleton_self _))
    obtain ⟨middle, step, parents, others⟩ := fixed.passUpRelation allowMissing distinct
      (inKnown.trans within)
      (fun child member => computes child (Finset.mem_union_right _ member))
    have notParent : ∀ child ∈ relation.axes.children, child ∉ relation.axes.parents :=
      fun child member isParent =>
        Finset.disjoint_left.mp fresh member (derived.leaves_subset (fromLeaves isParent))
    obtain ⟨after, run, onKnown, elsewhere⟩ := ih (Finset.subset_union_left.trans within) before
      isBefore middle (fun env => relation.axes.up (domainBounds domMap outer) (values env)) (by
        intro leaf isLeaf
        by_cases isParent : leaf ∈ relation.axes.parents
        · exact parents leaf isParent
        · obtain ⟨e, isValue, value⟩ := computes leaf
            (Finset.mem_union_left _ (Finset.mem_sdiff.mpr ⟨isLeaf, isParent⟩))
          exact ⟨e, (others leaf isParent).trans isValue,
            value.congr fun env => (AxisRelation.up_of_notMem isParent).symm⟩)
    refine ⟨after, ?_, ?_, ?_⟩
    · rw [List.reverse_append, List.reverse_singleton, List.singleton_append, List.foldlM_cons, step]
      exact run
    · intro v member
      rcases Finset.mem_union.mp member with old | new
      · obtain ⟨e, isValue, value⟩ := onKnown v old
        exact ⟨e, isValue, value.congr fun env => by
          simp only [AxisRelation.run_append]⟩
      · have unknown := Finset.disjoint_left.mp fresh new
        obtain ⟨e, isValue, value⟩ := computes v (Finset.mem_union_right _ new)
        refine ⟨e, ?_, value.congr fun env => ?_⟩
        · rw [elsewhere v unknown, others v (notParent v new), isValue]
        · simp only [AxisRelation.run_append]
          rw [derived.run_of_leaf (.inr unknown), AxisRelation.up_of_notMem (notParent v new)]
    · intro v outside
      rw [elsewhere v fun inside => outside (Finset.mem_union_left _ inside), others v]
      intro isParent
      exact outside (Finset.mem_union_left _ (derived.leaves_subset (fromLeaves isParent)))

/-- The flag of a variable, false where there is none. -/
def flagOf (state : Var → Option Bool) (v : Var) : Bool :=
  (state v).getD false

variable {analyzer : Analyzer}

theorem Domains.passUpCheck (domains : Domains stage known outer start domMap)
    (sound : analyzer.Sound) {state : Var → Option Bool} (distinct : relation.axes.Distinct)
    (found : ∀ axis ∈ relation.axes.parents ∪ relation.axes.children, domMap.lookup axis ≠ none)
    (apart : Disjoint relation.axes.children relation.axes.parents)
    (children : ∀ child ∈ relation.axes.children, ∃ flag, state child = some flag) :
    ∃ after, passUpCheck analyzer domMap [] state relation = some after ∧
      (∀ parent ∈ relation.axes.parents, ∃ flag, after parent = some flag) ∧
      (∀ v, v ∉ relation.axes.parents → after v = state v) ∧
      relation.axes.Flows (domainBounds domMap outer) (flagOf after) := by
  have isParent : ∀ parent ∈ relation.axes.parents, domMap.lookup parent ≠ none :=
    fun parent member => found parent (Finset.mem_union_left _ member)
  have isChild : ∀ child ∈ relation.axes.children, domMap.lookup child ≠ none :=
    fun child member => found child (Finset.mem_union_right _ member)
  cases relation with
  | split parent axisOuter axisInner amount =>
    have outerMember : axisOuter ∈
        (IterVarRelation.split parent axisOuter axisInner amount).axes.children :=
      Finset.mem_insert_self _ _
    have innerMember : axisInner ∈
        (IterVarRelation.split parent axisOuter axisInner amount).axes.children :=
      Finset.mem_insert_of_mem (Finset.mem_singleton_self _)
    have parentMember : parent ∈
        (IterVarRelation.split parent axisOuter axisInner amount).axes.parents :=
      Finset.mem_singleton_self _
    have outerApart : axisOuter ≠ parent := fun same =>
      Finset.disjoint_left.mp apart outerMember (same ▸ parentMember)
    have innerApart : axisInner ≠ parent := fun same =>
      Finset.disjoint_left.mp apart innerMember (same ▸ parentMember)
    obtain ⟨outerFlag, isOuter⟩ := children axisOuter outerMember
    obtain ⟨innerFlag, isInner⟩ := children axisInner innerMember
    obtain ⟨rangeInner, foundInner, _, fixedInner, _⟩ :=
      domains.exists_fixed (isChild axisInner innerMember)
    obtain ⟨rangeOuter, foundOuter, _, fixedOuter, _⟩ :=
      domains.exists_fixed (isChild axisOuter outerMember)
    obtain ⟨rangeParent, foundParent, _, fixedParent, _⟩ :=
      domains.exists_fixed (isParent parent parentMember)
    have result : ∀ flag : Bool, (flag = false → outerFlag = false ∧ innerFlag = false ∧
        (domainBounds domMap outer).extent parent = (domainBounds domMap outer).extent axisInner *
          (domainBounds domMap outer).extent axisOuter) →
        (∀ axis ∈ (IterVarRelation.split parent axisOuter axisInner amount).axes.parents,
          ∃ given, Function.update state parent (some flag) axis = some given) ∧
        (∀ v, v ∉ (IterVarRelation.split parent axisOuter axisInner amount).axes.parents →
          Function.update state parent (some flag) v = state v) ∧
        (IterVarRelation.split parent axisOuter axisInner amount).axes.Flows
          (domainBounds domMap outer) (flagOf (Function.update state parent (some flag))) := by
      intro flag unflagged
      refine ⟨?_, ?_, ?_⟩
      · intro axis member
        rw [Finset.mem_singleton.mp member]
        exact ⟨flag, Function.update_self _ _ _⟩
      · intro v outside
        exact Function.update_of_ne (fun same => outside (Finset.mem_singleton.mpr same)) _ _
      · intro isFalse
        rw [flagOf, Function.update_self, Option.getD_some] at isFalse
        obtain ⟨outerFree, innerFree, exactly⟩ := unflagged isFalse
        rw [flagOf, flagOf, Function.update_of_ne outerApart, Function.update_of_ne innerApart,
          isOuter, isInner]
        exact ⟨outerFree, innerFree, exactly⟩
    rw [Te.passUpCheck]
    simp only [isOuter, isInner, foundInner, foundOuter, foundParent, Option.bind_eq_bind,
      Option.bind_some, Option.pure_def]
    split
    · exact ⟨_, rfl, result true fun absurd => by cases absurd⟩
    · rename_i flags
      rw [Bool.not_eq_true, Bool.or_eq_false_iff] at flags
      split
      · rename_i proved
        refine ⟨_, rfl, result false fun _ => ⟨flags.1, flags.2, ?_⟩⟩
        have noBound : DomainState.Good (stage.variables known) outer [] ⟨domMap, []⟩ :=
          ⟨domains.good.distinct, domains.good.keys, domains.good.fixed,
            fun _ member => absurd member List.not_mem_nil⟩
        have equal := noBound.proves (.nil _ _) sound fixedParent
          (fixedInner.make fixedOuter rfl rfl rfl) rfl rfl proved
        rwa [truth_ne_zero] at equal
      · exact ⟨_, rfl, result true fun absurd => by cases absurd⟩
  | fuse axisOuter axisInner fused =>
    have notInner : axisOuter ≠ axisInner := distinct
    have fusedMember : fused ∈ (IterVarRelation.fuse axisOuter axisInner fused).axes.children :=
      Finset.mem_singleton_self _
    have fusedOuter : fused ≠ axisOuter := fun same =>
      Finset.disjoint_left.mp apart fusedMember (same ▸ Finset.mem_insert_self _ _)
    have fusedInner : fused ≠ axisInner := fun same =>
      Finset.disjoint_left.mp apart fusedMember
        (same ▸ Finset.mem_insert_of_mem (Finset.mem_singleton_self _))
    obtain ⟨flag, isFused⟩ := children fused fusedMember
    refine ⟨_, by rw [Te.passUpCheck, isFused]; rfl, ?_, ?_, ?_⟩
    · intro axis member
      by_cases isInner : axis = axisInner
      · rw [isInner]
        exact ⟨flag, Function.update_self _ _ _⟩
      · have isOuter : axis = axisOuter := by
          rcases Finset.mem_insert.mp member with same | rest
          · exact same
          · exact absurd (Finset.mem_singleton.mp rest) isInner
        rw [isOuter, Function.update_of_ne notInner]
        exact ⟨flag, Function.update_self _ _ _⟩
    · intro v outside
      simp only [IterVarRelation.axes, AxisRelation.parents, Finset.mem_insert,
        Finset.mem_singleton, not_or] at outside
      rw [Function.update_of_ne outside.2, Function.update_of_ne outside.1]
    · simp only [IterVarRelation.axes, AxisRelation.Flows, flagOf, Function.update_self,
        Function.update_of_ne notInner, Function.update_of_ne fusedInner,
        Function.update_of_ne fusedOuter, isFused, and_self]
  | rebase parent rebased =>
    have rebasedMember : rebased ∈ (IterVarRelation.rebase parent rebased).axes.children :=
      Finset.mem_singleton_self _
    have notParent : rebased ≠ parent := fun same =>
      Finset.disjoint_left.mp apart rebasedMember (same ▸ Finset.mem_singleton_self _)
    obtain ⟨flag, isRebased⟩ := children rebased rebasedMember
    refine ⟨_, by rw [Te.passUpCheck, isRebased]; rfl, ?_, ?_, ?_⟩
    · intro axis member
      rw [Finset.mem_singleton.mp member]
      exact ⟨flag, Function.update_self _ _ _⟩
    · intro v outside
      exact Function.update_of_ne (fun same => outside (Finset.mem_singleton.mpr same)) _ _
    · simp only [IterVarRelation.axes, AxisRelation.Flows, flagOf, Function.update_self,
        Function.update_of_ne notParent, isRebased]
  | singleton iter =>
    exact ⟨state, rfl, fun parent member => absurd member (Finset.notMem_empty _), fun _ _ => rfl,
      trivial⟩

theorem flows_congr {bounds : AxisBounds Var} {axes : AxisRelation Var} {flags after : Var → Bool}
    (flows : axes.Flows bounds flags)
    (same : ∀ axis ∈ axes.parents ∪ axes.children, after axis = flags axis) :
    axes.Flows bounds after := by
  cases axes with
  | split parent outer inner =>
    rw [AxisRelation.Flows, same parent (by simp [AxisRelation.parents]),
      same outer (by simp [AxisRelation.children]), same inner (by simp [AxisRelation.children])]
    exact flows
  | fuse outer inner fused =>
    rw [AxisRelation.Flows, same outer (by simp [AxisRelation.parents]),
      same inner (by simp [AxisRelation.parents]), same fused (by simp [AxisRelation.children])]
    exact flows
  | shift parent child =>
    rw [AxisRelation.Flows, same parent (by simp [AxisRelation.parents]),
      same child (by simp [AxisRelation.children])]
    exact flows
  | unit axis => trivial

theorem Domains.passUpBoundCheck {total : Finset Var} (domains : Domains stage total outer start domMap)
    (sound : analyzer.Sound) {roots : Finset Var} {axes : List (AxisRelation Var)}
    (derived : AxisRelation.Derived roots axes leaves known) (within : known ⊆ total) :
    ∀ (relations : List IterVarRelation), relations.map IterVarRelation.axes = axes →
      ∀ state : Var → Option Bool, (∀ leaf ∈ leaves, ∃ flag, state leaf = some flag) →
      ∃ after, relations.reverse.foldlM (Te.passUpCheck analyzer domMap []) state = some after ∧
        (∀ v ∈ known, ∃ flag, after v = some flag) ∧
        (∀ v, v ∈ leaves ∨ v ∉ known → after v = state v) ∧
        ∀ relation ∈ axes, relation.Flows (domainBounds domMap outer) (flagOf after) := by
  induction derived with
  | start =>
    rintro relations same state flags
    obtain rfl := List.map_eq_nil_iff.mp same
    exact ⟨state, rfl, flags, fun _ _ => rfl, fun _ member => absurd member List.not_mem_nil⟩
  | @step axes leaves known axis derived distinct fromLeaves fresh ih =>
    intro relations same state flags
    obtain ⟨before, rest, rfl, isBefore, isLast⟩ := List.map_eq_append_iff.mp same
    obtain ⟨relation, rfl, rfl⟩ := List.map_eq_singleton_iff.mp isLast
    have inKnown := derived_axes (derived.step distinct fromLeaves fresh) relation.axes
      (List.mem_append_right _ (List.mem_singleton_self _))
    have apart : Disjoint relation.axes.children relation.axes.parents :=
      fresh.mono_right (fromLeaves.trans derived.leaves_subset)
    obtain ⟨middle, step, parents, others, flows⟩ := domains.passUpCheck sound distinct
      (fun place member => domains.knows place (within (inKnown member))) apart
      (fun child member => flags child (Finset.mem_union_right _ member))
    obtain ⟨after, run, onKnown, unchanged, flowsBefore⟩ :=
      ih (Finset.subset_union_left.trans within) before isBefore middle (by
        intro leaf isLeaf
        by_cases isParent : leaf ∈ relation.axes.parents
        · exact parents leaf isParent
        · rw [others leaf isParent]
          exact flags leaf (Finset.mem_union_left _ (Finset.mem_sdiff.mpr ⟨isLeaf, isParent⟩)))
    have parentKept : ∀ parent ∈ relation.axes.parents, after parent = middle parent :=
      fun parent member => unchanged parent (.inl (fromLeaves member))
    have childKept : ∀ child ∈ relation.axes.children, after child = state child := by
      intro child member
      rw [unchanged child (.inr (Finset.disjoint_left.mp fresh member)),
        others child (Finset.disjoint_left.mp apart member)]
    refine ⟨after, ?_, ?_, ?_, ?_⟩
    · rw [List.reverse_append, List.reverse_singleton, List.singleton_append, List.foldlM_cons, step]
      exact run
    · intro v member
      rcases Finset.mem_union.mp member with old | new
      · exact onKnown v old
      · rw [childKept v new]
        exact flags v (Finset.mem_union_right _ new)
    · intro v place
      rcases place with member | outside
      · rcases Finset.mem_union.mp member with old | new
        · obtain ⟨isLeaf, notParent⟩ := Finset.mem_sdiff.mp old
          rw [unchanged v (.inl isLeaf), others v notParent]
        · exact childKept v new
      · have unknown : v ∉ known := fun inside => outside (Finset.mem_union_left _ inside)
        rw [unchanged v (.inr unknown), others v fun isParent =>
          unknown (derived.leaves_subset (fromLeaves isParent))]
    · intro earlier member
      rcases List.mem_append.mp member with old | new
      · exact flowsBefore earlier old
      · rw [List.mem_singleton.mp new]
        apply flows_congr flows
        intro place inside
        rcases Finset.mem_union.mp inside with isParent | isChild
        · rw [flagOf, flagOf, parentKept place isParent]
        · rw [flagOf, flagOf, childKept place isChild,
            others place (Finset.disjoint_left.mp apart isChild)]

end Values

end Tvm.Te
