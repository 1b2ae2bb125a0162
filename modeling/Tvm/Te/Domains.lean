import Mathlib
import Tvm.Lib.AxisRelations
import Tvm.Te.MessagePassing

/-!
# The domains of the iteration variables

The ranges that `PassDownDomain` gives have closed bounds, and the extents of the variables of each
relation fit.
-/

namespace Tvm.Te

open Arith PrimExpr Lib

def IterVarRelation.axes : IterVarRelation → AxisRelation Var
  | .split parent outer inner _ => .split parent outer inner
  | .fuse outer inner fused => .fuse outer inner fused
  | .rebase parent rebased => .shift parent rebased
  | .singleton iter => .unit iter

def Stage.roots (stage : Stage) : Finset Var :=
  (stage.rootIterVars.filter fun iv => !stage.isOpaque iv).toFinset

/-- What the scheduling primitives make: every relation takes leaves and gives fresh variables, and
all variables but the rebased ones are listed. -/
structure Stage.WellFormed (stage : Stage) (known : Finset Var) : Prop where
  derived : AxisRelation.Derived stage.roots (stage.relations.map IterVarRelation.axes)
    stage.leafIterVars.toFinset known
  fresh : ∀ relation ∈ stage.relations, ∀ child ∈ relation.axes.children,
    child ∉ stage.rootIterVars
  visible : ∀ iv ∈ known, stage.isOpaque iv = false
  listed : ∀ iv ∈ stage.allIterVars, stage.isOpaque iv = false → iv ∈ known
  rootsListed : ∀ iv ∈ stage.roots, iv ∈ stage.allIterVars
  childrenListed : ∀ relation ∈ stage.relations, ∀ child ∈ relation.axes.children,
    child ∈ stage.allIterVars ∨ ∃ parent, relation = .rebase parent child

def Stage.variables (stage : Stage) (known : Finset Var) : Set Var :=
  {v | v ∈ known ∨ v ∈ stage.rootIterVars ∨ ∃ leaf, (leaf, v) ∈ stage.bindThread}

structure Fixed (inside : Set Var) (outer : Env) (e : PrimExpr) (x : Int) : Prop where
  sorted : e.Sorted .int
  closed : ∀ v ∈ e.vars, v ∉ inside
  value : e.value outer = some x

def Agrees (inside : Set Var) (outer env : Env) : Prop :=
  ∀ v, v ∉ inside → env v = outer v

section Fixed

variable {inside : Set Var} {outer env : Env} {a b e : PrimExpr} {x y : Int}

theorem Fixed.value_of_agrees (fixed : Fixed inside outer e x) (agrees : Agrees inside outer env) :
    e.value env = some x :=
  (value_congr fixed.sorted fun v member => agrees v (fixed.closed v member)).trans fixed.value

theorem Fixed.intImm (n : Int) : Fixed inside outer (.intImm n) n :=
  ⟨rfl, (fun _ absurd => by cases absurd), rfl⟩

theorem Fixed.make {op : BinOp} {v : Int} (left : Fixed inside outer a x)
    (right : Fixed inside outer b y) (operand : op.operandSort = .int) (result : op.resultSort = .int)
    (evaluates : op.eval x y = some v) : Fixed inside outer (make op a b) v where
  sorted := by
    have sorted := sorted_make op (a := a) (b := b) (by rw [operand]; exact left.sorted)
      (by rw [operand]; exact right.sorted)
    rwa [result] at sorted
  closed := by
    intro v member
    rcases vars_make member with inLeft | inRight
    · exact left.closed v inLeft
    · exact right.closed v inRight
  value := value_make left.value right.value (admits_int operand x y) evaluates

theorem exists_makeBinary (op : BinOp) (isDivision : op = .floorDiv ∨ op = .floorMod)
    (right : b.value env = some y) (nonzero : y ≠ 0) : makeBinary op a b = some (make op a b) := by
  rw [PrimExpr.make]
  cases made : makeBinary op a b with
  | some r => rw [Option.getD_some]
  | none =>
    exfalso
    rw [makeBinary, Option.map_eq_none_iff] at made
    have literal : b ≠ .intImm 0 := by
      rintro rfl
      cases right
      exact nonzero rfl
    rw [tryConstFold.eq_def] at made
    rcases isDivision with rfl | rfl
    all_goals
      split at made
      · rename_i m n
        have apart : n ≠ 0 := fun zero => literal (by rw [zero])
        simp [BinOp.computes, BinOp.eval, apart] at made
      · cases made
      · rename_i n _
        have apart : n ≠ 0 := fun zero => literal (by rw [zero])
        simp only [foldRight, if_neg apart] at made
        split at made <;> cases made
      · cases made

end Fixed

/-- The ranges have closed bounds and hold values, and the analyzer has bound no others. -/
structure DomainState.Good (inside : Set Var) (outer : Env) (context : Ranges)
    (current : DomainState) : Prop where
  distinct : (current.state.map Prod.fst).Nodup
  keys : ∀ entry ∈ current.state, entry.1 ∈ inside
  fixed : ∀ entry ∈ current.state, ∃ low extent, Fixed inside outer entry.2.min low ∧
    Fixed inside outer entry.2.extent extent ∧ 0 < extent
  bound : ∀ entry ∈ current.bound, entry ∈ current.state ∨ entry ∈ context

/-- What the analyzer has bound before holds and is about outer variables. -/
structure Outside (inside : Set Var) (outer : Env) (context : Ranges) : Prop where
  holds : ∀ env, Agrees inside outer env → context.Hold env
  closed : ∀ v ∈ context.vars, v ∉ inside

theorem Outside.nil (inside : Set Var) (outer : Env) : Outside inside outer [] where
  holds := fun _ _ _ member => absurd member List.not_mem_nil
  closed := fun _ member => absurd member List.not_mem_nil

/-- The assignment in which every variable has the first value of its range. -/
def firstValues (state : Ranges) (outer : Env) : Env := fun v =>
  match state.lookup v with
  | some range => (range.min.value outer).getD 0
  | none => outer v

section Good

variable {analyzer : Analyzer} {inside : Set Var} {outer : Env} {context : Ranges}
  {current : DomainState} {a b e : PrimExpr} {x y : Int}

theorem DomainState.Good.lookup_inside (good : current.Good inside outer context) {v : Var}
    {range : Range} (found : current.state.lookup v = some range) : v ∈ inside :=
  good.keys (v, range) ((lookup_eq_some_iff_mem good.distinct).mp found)

theorem DomainState.Good.firstValues_agrees (good : current.Good inside outer context) :
    Agrees inside outer (firstValues current.state outer) := by
  intro v isOuter
  rw [firstValues]
  cases found : current.state.lookup v with
  | none => rfl
  | some range => exact absurd (good.lookup_inside found) isOuter

theorem DomainState.Good.firstValues_hold (good : current.Good inside outer context)
    (outside : Outside inside outer context) :
    current.bound.Hold (firstValues current.state outer) := by
  have agrees := good.firstValues_agrees
  intro entry member
  rcases good.bound entry member with inState | inContext
  · obtain ⟨low, extent, fixedMin, fixedExtent, positive⟩ := good.fixed entry inState
    have first : firstValues current.state outer entry.1 = low := by
      rw [firstValues, (lookup_eq_some_iff_mem good.distinct).mpr inState]
      simp only [fixedMin.value, Option.getD_some]
    refine ⟨low, extent, fixedMin.value_of_agrees agrees, fixedExtent.value_of_agrees agrees, ?_⟩
    rw [first]
    omega
  · exact outside.holds _ agrees entry inContext

theorem DomainState.Good.bound_closed (good : current.Good inside outer context)
    (outside : Outside inside outer context) : ∀ v ∈ current.bound.vars, v ∉ inside := by
  intro v member
  obtain ⟨entry, isBound, inRange⟩ := List.mem_flatMap.mp member
  rcases good.bound entry isBound with inState | inContext
  · obtain ⟨low, extent, fixedMin, fixedExtent, _⟩ := good.fixed entry inState
    rcases List.mem_append.mp inRange with inMin | inExtent
    · exact fixedMin.closed v inMin
    · exact fixedExtent.closed v inExtent
  · exact outside.closed v (List.mem_flatMap.mpr ⟨entry, inContext, inRange⟩)

theorem DomainState.Good.simplify (good : current.Good inside outer context)
    (outside : Outside inside outer context) (sound : analyzer.Sound) (fixed : Fixed inside outer e x)
    (steps : Nat) : Fixed inside outer (analyzer.simplify steps current.bound e) x where
  sorted := (sound.simplifies steps current.bound e).sorted .int fixed.sorted
  closed := by
    intro v member
    rcases (sound.simplifies steps current.bound e).vars v member with inTerm | inBound
    · exact fixed.closed v inTerm
    · exact good.bound_closed outside v inBound
  value := by
    have agrees := good.firstValues_agrees
    have kept := (sound.simplifies steps current.bound e).value _ x
      (good.firstValues_hold outside) (fixed.value_of_agrees agrees)
    rw [← kept]
    apply value_congr ((sound.simplifies steps current.bound e).sorted .int fixed.sorted)
    intro v member
    rw [agrees]
    rcases (sound.simplifies steps current.bound e).vars v member with inTerm | inBound
    · exact fixed.closed v inTerm
    · exact good.bound_closed outside v inBound

theorem DomainState.Good.proves (good : current.Good inside outer context)
    (outside : Outside inside outer context) (sound : analyzer.Sound) {op : BinOp} {v : Int}
    (left : Fixed inside outer a x) (right : Fixed inside outer b y)
    (operand : op.operandSort = .int) (evaluates : op.eval x y = some v)
    (proved : analyzer.canProve current.bound (PrimExpr.make op a b) = true) : v ≠ 0 := by
  have agrees := good.firstValues_agrees
  apply sound.proves current.bound _ proved _ v (good.firstValues_hold outside)
  exact value_make (left.value_of_agrees agrees) (right.value_of_agrees agrees)
    (admits_int operand x y) evaluates

theorem DomainState.Good.ceilDiv (good : current.Good inside outer context)
    (outside : Outside inside outer context) (sound : analyzer.Sound) (left : Fixed inside outer a x)
    (right : Fixed inside outer b y) (positive : 0 < y) :
    ∃ extent, ceilDiv analyzer current.bound a b = some extent ∧
      Fixed inside outer extent ((x + (y - 1)) / y) := by
  have remainder : Fixed inside outer (PrimExpr.make .floorMod a b) (x.fmod y) :=
    left.make right rfl rfl (if_neg positive.ne')
  have quotient : Fixed inside outer (PrimExpr.make .floorDiv a b) (x.fdiv y) :=
    left.make right rfl rfl (if_neg positive.ne')
  have above : Fixed inside outer (PrimExpr.make .add a (PrimExpr.make .sub b (.intImm 1)))
      (x + (y - 1)) := left.make (right.make (.intImm 1) rfl rfl rfl) rfl rfl rfl
  have rounded : Fixed inside outer (PrimExpr.make .floorDiv
      (PrimExpr.make .add a (PrimExpr.make .sub b (.intImm 1))) b) ((x + (y - 1)).fdiv y) :=
    above.make right rfl rfl (if_neg positive.ne')
  rw [Te.ceilDiv, exists_makeBinary .floorMod (.inr rfl) right.value positive.ne',
    exists_makeBinary .floorDiv (.inl rfl) right.value positive.ne',
    exists_makeBinary .floorDiv (.inl rfl) right.value positive.ne']
  simp only [Option.bind_eq_bind, Option.bind_some, Option.pure_def]
  by_cases proved : analyzer.canProve current.bound
      (PrimExpr.make .eq (PrimExpr.make .floorMod a b) (.intImm 0)) = true
  · refine ⟨_, by rw [if_pos proved], ?_⟩
    have divides := good.proves outside sound remainder (.intImm 0) rfl rfl proved
    rw [truth_ne_zero, fmod_eq_emod positive] at divides
    have same : (x + (y - 1)) / y = x.fdiv y := by
      rw [fdiv_eq_ediv positive]
      obtain ⟨k, rfl⟩ := Int.dvd_of_emod_eq_zero divides
      rw [Int.mul_ediv_cancel_left k positive.ne', add_comm, Int.add_mul_ediv_left _ _ positive.ne',
        Int.ediv_eq_zero_of_lt (by omega) (by omega), zero_add]
    rw [same]
    exact good.simplify outside sound quotient 2
  · refine ⟨_, by rw [if_neg proved], ?_⟩
    rw [← fdiv_eq_ediv positive]
    exact good.simplify outside sound rounded 2

theorem DomainState.Good.minimumOrLater (good : current.Good inside outer context)
    (outside : Outside inside outer context) (sound : analyzer.Sound) (left : Fixed inside outer a x)
    (right : Fixed inside outer b y) :
    ∃ z, Fixed inside outer (minimumOrLater analyzer current.bound a b) z ∧
      (z = y ∨ z = x ∧ x < y) := by
  rw [Te.minimumOrLater]
  by_cases proved : analyzer.canProve current.bound (PrimExpr.make .lt a b) = true
  · rw [if_pos proved]
    have below := good.proves outside sound left right rfl rfl proved
    rw [truth_ne_zero] at below
    exact ⟨x, good.simplify outside sound left 2, .inr ⟨rfl, below⟩⟩
  · rw [if_neg proved]
    exact ⟨y, good.simplify outside sound right 2, .inl rfl⟩

theorem DomainState.Good.resolve (good : current.Good inside outer context)
    (outside : Outside inside outer context) (sound : analyzer.Sound) (left : Fixed inside outer a x)
    (right : Fixed inside outer b y) (dominatingThread : Var → Bool) (allowMissing : Bool)
    (iv : Var) :
    ∃ z, Fixed inside outer (resolveMinExtentForSplit analyzer dominatingThread allowMissing
      current.bound a iv b) z ∧ (z = y ∨ z = x ∧ x < y) := by
  rw [resolveMinExtentForSplit]
  split
  · exact ⟨y, right, .inl rfl⟩
  · exact good.minimumOrLater outside sound left right

end Good

def domainBounds (state : Ranges) (outer : Env) : AxisBounds Var where
  low := fun v => ((state.lookup v).bind fun range => range.min.value outer).getD 0
  extent := fun v => ((state.lookup v).bind fun range => range.extent.value outer).getD 0

def Extends (state next : Ranges) : Prop :=
  ∀ v range, state.lookup v = some range → next.lookup v = some range

def SplitAmount.expr : SplitAmount → PrimExpr
  | .factor amount => amount
  | .nparts amount => amount

/-- The factor or the number of parts of a split is a positive number over the outer variables. -/
def IterVarRelation.Positive (inside : Set Var) (outer : Env) : IterVarRelation → Prop
  | .split _ _ _ amount => ∃ y, Fixed inside outer amount.expr y ∧ 0 < y
  | _ => True

section Relations

variable {analyzer : Analyzer} {inside : Set Var} {outer : Env} {context : Ranges}
  {current : DomainState} {iv : Var} {range : Range} {state next last : Ranges}

theorem Extends.refl (state : Ranges) : Extends state state :=
  fun _ _ found => found

theorem Extends.trans (first : Extends state next) (second : Extends next last) :
    Extends state last :=
  fun v range found => second v range (first v range found)

theorem Extends.cons (fresh : state.lookup iv = none) : Extends state ((iv, range) :: state) := by
  intro v known found
  have apart : (v == iv) = false := by
    rw [beq_eq_false_iff_ne]
    rintro rfl
    rw [fresh] at found
    cases found
  rw [List.lookup_cons, apart]
  exact found

theorem lookup_cons_self : ((iv, range) :: state).lookup iv = some range := by
  rw [List.lookup_cons, beq_self_eq_true]

theorem lookup_cons_cases {v : Var} (found : ((iv, range) :: state).lookup v ≠ none) :
    state.lookup v ≠ none ∨ v = iv := by
  by_cases same : v = iv
  · exact .inr same
  · rw [List.lookup_cons, beq_eq_false_iff_ne.mpr same] at found
    exact .inl found

theorem domainBounds_low {low : Int} (found : state.lookup iv = some range)
    (value : range.min.value outer = some low) : (domainBounds state outer).low iv = low := by
  simp only [domainBounds, found, Option.bind_some, value, Option.getD_some]

theorem domainBounds_extent {extent : Int} (found : state.lookup iv = some range)
    (value : range.extent.value outer = some extent) :
    (domainBounds state outer).extent iv = extent := by
  simp only [domainBounds, found, Option.bind_some, value, Option.getD_some]

theorem Extends.domainBounds_eq (extended : Extends state next) (found : state.lookup iv ≠ none) :
    (domainBounds next outer).low iv = (domainBounds state outer).low iv ∧
      (domainBounds next outer).extent iv = (domainBounds state outer).extent iv := by
  obtain ⟨range, isRange⟩ := Option.ne_none_iff_exists'.mp found
  simp only [domainBounds, isRange, extended iv range isRange, and_self]

theorem DomainState.Good.cons (good : current.Good inside outer context)
    (fresh : current.state.lookup iv = none) (isInside : iv ∈ inside) {low extent : Int}
    (fixedMin : Fixed inside outer range.min low)
    (fixedExtent : Fixed inside outer range.extent extent) (positive : 0 < extent)
    {bound : Ranges} (bounds : ∀ entry ∈ bound, entry = (iv, range) ∨ entry ∈ current.bound) :
    DomainState.Good inside outer context ⟨(iv, range) :: current.state, bound⟩ where
  distinct := by
    refine List.nodup_cons.mpr ⟨fun member => ?_, good.distinct⟩
    obtain ⟨entry, isEntry, same⟩ := List.mem_map.mp member
    have missing := List.lookup_eq_none_iff.mp fresh entry isEntry
    rw [same, bne_self_eq_false] at missing
    cases missing
  keys := by
    intro entry member
    rcases List.mem_cons.mp member with rfl | old
    · exact isInside
    · exact good.keys entry old
  fixed := by
    intro entry member
    rcases List.mem_cons.mp member with rfl | old
    · exact ⟨low, extent, fixedMin, fixedExtent, positive⟩
    · exact good.fixed entry old
  bound := by
    intro entry member
    rcases bounds entry member with rfl | old
    · exact .inl List.mem_cons_self
    · exact (good.bound entry old).imp_left (List.mem_cons_of_mem _)

theorem DomainState.Good.update (analyzer : Analyzer) (range : Range)
    (good : current.Good inside outer context) (fresh : current.state.lookup iv = none) (isInside : iv ∈ inside) {low extent : Int}
    (fixedMin : Fixed inside outer range.min low)
    (fixedExtent : Fixed inside outer range.extent extent) (positive : 0 < extent) :
    ∃ after, Te.update analyzer current iv range = some after ∧ after.Good inside outer context ∧
      after.state = (iv, range) :: current.state := by
  refine ⟨_, by rw [Te.update, fresh], ?_, rfl⟩
  exact good.cons fresh isInside fixedMin fixedExtent positive fun entry member =>
    (List.mem_cons.mp member)

/-- A split fits: one of the extents is the amount or that of the parent, the other is rounded
up. -/
theorem split_covers {x y z : Int} (parent : 0 < x) (positive : 0 < y)
    (resolved : z = y ∨ z = x ∧ x < y) :
    0 < z ∧ 0 < (x + (y - 1)) / y ∧ x ≤ z * ((x + (y - 1)) / y) := by
  have one : 1 ≤ (x + (y - 1)) / y := by
    rw [Int.le_ediv_iff_mul_le positive]
    omega
  have covers : x ≤ y * ((x + (y - 1)) / y) := by
    have bound := le_fdiv_mul positive x
    rw [fdiv_eq_ediv positive, mul_comm] at bound
    exact bound
  rcases resolved with rfl | ⟨rfl, _⟩
  · exact ⟨positive, one, covers⟩
  · refine ⟨parent, one, ?_⟩
    calc z = z * 1 := (mul_one z).symm
      _ ≤ z * ((z + (y - 1)) / y) := mul_le_mul_of_nonneg_left one parent.le

theorem DomainState.Good.split (good : current.Good inside outer context)
    (outside : Outside inside outer context) (sound : analyzer.Sound) {first second : Var}
    (firstFresh : current.state.lookup first = none)
    (secondFresh : current.state.lookup second = none) (apart : first ≠ second)
    (firstInside : first ∈ inside) (secondInside : second ∈ inside) {a b e : PrimExpr} {x y z : Int}
    (parent : Fixed inside outer a x) (amount : Fixed inside outer b y)
    (resolved : Fixed inside outer e z) (positive : 0 < y) (nonempty : 0 < z)
    (rounded : 0 < (x + (y - 1)) / y) :
    ∃ middle extent after, Te.update analyzer current first (fromExtent e) = some middle ∧
      Te.ceilDiv analyzer middle.bound a b = some extent ∧
      Te.update analyzer middle second (fromExtent extent) = some after ∧
      after.Good inside outer context ∧ extent.value outer = some ((x + (y - 1)) / y) ∧
      after.state = (second, fromExtent extent) :: (first, fromExtent e) :: current.state := by
  have zero : Fixed inside outer (.intImm 0) 0 := .intImm 0
  obtain ⟨middle, made, goodMiddle, stateMiddle⟩ :=
    good.update analyzer (fromExtent e) firstFresh firstInside zero resolved nonempty
  obtain ⟨extent, isExtent, fixedExtent⟩ :=
    goodMiddle.ceilDiv outside sound parent amount positive
  have stillFresh : middle.state.lookup second = none := by
    rw [stateMiddle, List.lookup_cons, beq_eq_false_iff_ne.mpr apart.symm]
    exact secondFresh
  obtain ⟨after, madeAfter, goodAfter, stateAfter⟩ :=
    goodMiddle.update analyzer (fromExtent extent) stillFresh secondInside zero fixedExtent rounded
  rw [stateMiddle] at stateAfter
  exact ⟨middle, extent, after, made, isExtent, madeAfter, goodAfter, fixedExtent.value, stateAfter⟩

theorem DomainState.Good.exists_fixed (good : current.Good inside outer context)
    (found : current.state.lookup iv ≠ none) :
    ∃ range low extent, current.state.lookup iv = some range ∧ Fixed inside outer range.min low ∧
      Fixed inside outer range.extent extent ∧ 0 < extent ∧
      (domainBounds current.state outer).low iv = low ∧
      (domainBounds current.state outer).extent iv = extent := by
  obtain ⟨range, isRange⟩ := Option.ne_none_iff_exists'.mp found
  obtain ⟨low, extent, fixedMin, fixedExtent, positive⟩ :=
    good.fixed (iv, range) ((lookup_eq_some_iff_mem good.distinct).mp isRange)
  exact ⟨range, low, extent, isRange, fixedMin, fixedExtent, positive,
    domainBounds_low isRange fixedMin.value, domainBounds_extent isRange fixedExtent.value⟩

structure DomainState.Passed (inside : Set Var) (outer : Env) (context : Ranges)
    (current after : DomainState) (relation : IterVarRelation) : Prop where
  good : after.Good inside outer context
  keeps : Extends current.state after.state
  children : ∀ child ∈ relation.axes.children, after.state.lookup child ≠ none
  only : ∀ v, after.state.lookup v ≠ none →
    current.state.lookup v ≠ none ∨ v ∈ relation.axes.children
  fits : relation.axes.Fits (domainBounds after.state outer)

theorem DomainState.Good.passDownRelation (good : current.Good inside outer context)
    (outside : Outside inside outer context) (sound : analyzer.Sound)
    (dominatingThread : Var → Bool) (allowMissing : Bool) {relation : IterVarRelation}
    (distinct : relation.axes.Distinct) (positive : relation.Positive inside outer)
    (parents : ∀ parent ∈ relation.axes.parents, current.state.lookup parent ≠ none)
    (fresh : ∀ child ∈ relation.axes.children, current.state.lookup child = none)
    (isInside : ∀ child ∈ relation.axes.children, child ∈ inside) :
    ∃ after, Te.passDownRelation analyzer dominatingThread allowMissing current relation =
      some after ∧ current.Passed inside outer context after relation := by
  have zero : Fixed inside outer (.intImm 0) 0 := .intImm 0
  cases relation with
  | split parent axisOuter axisInner amount =>
    obtain ⟨y, fixedAmount, amountPositive⟩ := positive
    obtain ⟨range, low, x, found, fixedMin, fixedExtent, nonempty, lowIs, extentIs⟩ :=
      good.exists_fixed (parents parent (Finset.mem_singleton_self _))
    have outerMember : axisOuter ∈ (IterVarRelation.split parent axisOuter axisInner amount).axes.children :=
      Finset.mem_insert_self _ _
    have innerMember : axisInner ∈ (IterVarRelation.split parent axisOuter axisInner amount).axes.children :=
      Finset.mem_insert_of_mem (Finset.mem_singleton_self _)
    have apart : axisOuter ≠ axisInner := distinct
    -- the facts that both kinds of split share
    have finish : ∀ {first second : Var} {e extent : PrimExpr} {z w : Int} {after : DomainState},
        (first = axisInner ∧ second = axisOuter ∨ first = axisOuter ∧ second = axisInner) →
        after.Good inside outer context →
        after.state = (second, fromExtent extent) :: (first, fromExtent e) :: current.state →
        e.value outer = some z → extent.value outer = some w → 0 < z → 0 < w → x ≤ z * w →
        current.Passed inside outer context after (.split parent axisOuter axisInner amount) := by
      intro first second e extent z w after places goodAfter stateIs zIs wIs zPositive wPositive covers
      have firstFresh : current.state.lookup first = none := by
        rcases places with ⟨rfl, _⟩ | ⟨rfl, _⟩
        · exact fresh _ innerMember
        · exact fresh _ outerMember
      have secondFresh : ((first, fromExtent e) :: current.state).lookup second = none := by
        rcases places with ⟨rfl, rfl⟩ | ⟨rfl, rfl⟩
        · rw [List.lookup_cons, beq_eq_false_iff_ne.mpr apart]
          exact fresh _ outerMember
        · rw [List.lookup_cons, beq_eq_false_iff_ne.mpr apart.symm]
          exact fresh _ innerMember
      have firstKept : Extends current.state ((first, fromExtent e) :: current.state) :=
        .cons firstFresh
      have secondKept : Extends ((first, fromExtent e) :: current.state) after.state := by
        rw [stateIs]
        exact .cons secondFresh
      have firstRange : after.state.lookup first = some (fromExtent e) :=
        secondKept _ _ lookup_cons_self
      have secondRange : after.state.lookup second = some (fromExtent extent) := by
        rw [stateIs]
        exact lookup_cons_self
      have keeps := firstKept.trans secondKept
      have lowFirst : (domainBounds after.state outer).low first = 0 :=
        domainBounds_low firstRange rfl
      have lowSecond : (domainBounds after.state outer).low second = 0 :=
        domainBounds_low secondRange rfl
      have extentFirst : (domainBounds after.state outer).extent first = z :=
        domainBounds_extent firstRange zIs
      have extentSecond : (domainBounds after.state outer).extent second = w :=
        domainBounds_extent secondRange wIs
      have extentParent : (domainBounds after.state outer).extent parent = x :=
        domainBounds_extent (keeps _ _ found) fixedExtent.value
      refine ⟨goodAfter, keeps, ?_, ?_, ?_⟩
      · intro child member
        have isOne : child = first ∨ child = second := by
          rcases Finset.mem_insert.mp member with rfl | rest
          · exact places.elim (fun both => .inr both.2.symm) (fun both => .inl both.1.symm)
          · rw [Finset.mem_singleton.mp rest]
            exact places.elim (fun both => .inl both.1.symm) (fun both => .inr both.2.symm)
        rcases isOne with rfl | rfl
        · rw [firstRange]
          exact Option.some_ne_none _
        · rw [secondRange]
          exact Option.some_ne_none _
      · intro v known
        rw [stateIs] at known
        have isChild : v = first ∨ v = second →
            v ∈ (IterVarRelation.split parent axisOuter axisInner amount).axes.children := by
          rintro (rfl | rfl)
          · exact places.elim (fun both => both.1 ▸ innerMember) (fun both => both.1 ▸ outerMember)
          · exact places.elim (fun both => both.2 ▸ outerMember) (fun both => both.2 ▸ innerMember)
        rcases lookup_cons_cases known with old | isSecond
        · exact (lookup_cons_cases old).imp_right fun isFirst => isChild (.inl isFirst)
        · exact .inr (isChild (.inr isSecond))
      · rcases places with ⟨rfl, rfl⟩ | ⟨rfl, rfl⟩
        · refine ⟨lowSecond, lowFirst, ?_, ?_⟩
          · rw [extentFirst]
            exact zPositive
          · rw [extentParent, extentFirst, extentSecond]
            exact covers
        · refine ⟨lowFirst, lowSecond, ?_, ?_⟩
          · rw [extentSecond]
            exact wPositive
          · rw [extentParent, extentFirst, extentSecond, mul_comm]
            exact covers
    have innerFresh : (current.state.lookup axisInner).isSome = false := by
      rw [fresh axisInner innerMember]
      rfl
    rw [Te.passDownRelation]
    simp only [found, innerFresh, Bool.false_eq_true, if_false]
    cases amount with
    | factor factor =>
      obtain ⟨z, resolved, cases⟩ := good.resolve outside sound fixedExtent fixedAmount
        dominatingThread allowMissing axisInner
      obtain ⟨zPositive, rounded, covers⟩ := split_covers nonempty amountPositive cases
      obtain ⟨middle, extent, after, first, divided, second, goodAfter, value, stateIs⟩ :=
        good.split outside sound (fresh _ innerMember) (fresh _ outerMember) apart.symm
          (isInside _ innerMember) (isInside _ outerMember) fixedExtent fixedAmount resolved
          amountPositive zPositive rounded
      refine ⟨after, ?_, finish (.inl ⟨rfl, rfl⟩) goodAfter stateIs resolved.value value zPositive
        rounded covers⟩
      simp only [SplitAmount.expr] at first divided
      simp only [first, divided, second, Option.bind_eq_bind, Option.bind_some]
    | nparts nparts =>
      obtain ⟨z, resolved, cases⟩ := good.resolve outside sound fixedExtent fixedAmount
        dominatingThread allowMissing axisOuter
      obtain ⟨zPositive, rounded, covers⟩ := split_covers nonempty amountPositive cases
      obtain ⟨middle, extent, after, first, divided, second, goodAfter, value, stateIs⟩ :=
        good.split outside sound (fresh _ outerMember) (fresh _ innerMember) apart
          (isInside _ outerMember) (isInside _ innerMember) fixedExtent fixedAmount resolved
          amountPositive zPositive rounded
      refine ⟨after, ?_, finish (.inr ⟨rfl, rfl⟩) goodAfter stateIs resolved.value value zPositive
        rounded covers⟩
      simp only [SplitAmount.expr] at first divided
      simp only [first, divided, second, Option.bind_eq_bind, Option.bind_some]
  | fuse axisOuter axisInner fused =>
    obtain ⟨rangeOuter, lowOuter, x, foundOuter, _, fixedOuter, outerPositive, _⟩ :=
      good.exists_fixed (parents axisOuter (Finset.mem_insert_self _ _))
    obtain ⟨rangeInner, lowInner, y, foundInner, _, fixedInner, innerPositive, _⟩ :=
      good.exists_fixed
        (parents axisInner (Finset.mem_insert_of_mem (Finset.mem_singleton_self _)))
    have isFresh := fresh fused (Finset.mem_singleton_self _)
    have product : Fixed inside outer (make .mul rangeOuter.extent rangeInner.extent) (x * y) :=
      fixedOuter.make fixedInner rfl rfl rfl
    have keeps : Extends current.state ((fused, fromExtent
        (make .mul rangeOuter.extent rangeInner.extent)) :: current.state) := .cons isFresh
    refine ⟨_, by rw [Te.passDownRelation, foundOuter, foundInner], ⟨?_, keeps, ?_, ?_, ?_⟩⟩
    · exact good.cons isFresh (isInside fused (Finset.mem_singleton_self _)) zero product
        (mul_pos outerPositive innerPositive) fun entry member => .inr member
    · intro child member
      rw [Finset.mem_singleton.mp member, lookup_cons_self]
      exact Option.some_ne_none _
    · exact fun v known => (lookup_cons_cases known).imp_right Finset.mem_singleton.mpr
    · refine ⟨domainBounds_low lookup_cons_self rfl, ?_, ?_⟩
      · rw [domainBounds_extent (keeps _ _ foundInner) fixedInner.value]
        exact innerPositive
      · rw [domainBounds_extent (keeps _ _ foundInner) fixedInner.value,
          domainBounds_extent (keeps _ _ foundOuter) fixedOuter.value,
          domainBounds_extent lookup_cons_self product.value]
  | rebase parent rebased =>
    obtain ⟨range, low, x, found, _, fixedExtent, nonempty, _⟩ :=
      good.exists_fixed (parents parent (Finset.mem_singleton_self _))
    have isFresh := fresh rebased (Finset.mem_singleton_self _)
    obtain ⟨after, made, goodAfter, stateIs⟩ := good.update analyzer
      (fromExtent range.extent) isFresh (isInside rebased (Finset.mem_singleton_self _)) zero
      fixedExtent nonempty
    have keeps : Extends current.state after.state := by
      rw [stateIs]
      exact .cons isFresh
    have own : after.state.lookup rebased = some (fromExtent range.extent) := by
      rw [stateIs]
      exact lookup_cons_self
    refine ⟨after, by rw [Te.passDownRelation, found]; exact made, goodAfter, keeps, ?_, ?_, ?_⟩
    · intro child member
      rw [Finset.mem_singleton.mp member, own]
      exact Option.some_ne_none _
    · intro v known
      rw [stateIs] at known
      exact (lookup_cons_cases known).imp_right Finset.mem_singleton.mpr
    · refine ⟨domainBounds_low own rfl, ?_⟩
      rw [domainBounds_extent own fixedExtent.value,
        domainBounds_extent (keeps _ _ found) fixedExtent.value]
  | singleton iter =>
    have isFresh := fresh iter (Finset.mem_singleton_self _)
    obtain ⟨after, made, goodAfter, stateIs⟩ := good.update analyzer
      (fromExtent (.intImm 1)) isFresh (isInside iter (Finset.mem_singleton_self _)) zero
      (.intImm 1) one_pos
    have keeps : Extends current.state after.state := by
      rw [stateIs]
      exact .cons isFresh
    have own : after.state.lookup iter = some (fromExtent (.intImm 1)) := by
      rw [stateIs]
      exact lookup_cons_self
    refine ⟨after, made, goodAfter, keeps, ?_, ?_, ?_⟩
    · intro child member
      rw [Finset.mem_singleton.mp member, own]
      exact Option.some_ne_none _
    · intro v known
      rw [stateIs] at known
      exact (lookup_cons_cases known).imp_right Finset.mem_singleton.mpr
    · exact ⟨domainBounds_low own rfl, domainBounds_extent own rfl⟩

structure Stage.RootRanges (stage : Stage) (start : Ranges) : Prop where
  distinct : (start.map Prod.fst).Nodup
  isRoot : ∀ entry ∈ start, entry.1 ∈ stage.rootIterVars
  constant : ∀ entry ∈ start, ∃ min extent : Int,
    entry.2 = ⟨.intImm min, .intImm extent⟩ ∧ 0 < extent
  covers : ∀ iv ∈ stage.rootIterVars, start.lookup iv ≠ none

variable {stage : Stage} {known : Finset Var} {start : Ranges}

theorem Stage.RootRanges.good (ranges : stage.RootRanges start)
    (rootsInside : ∀ iv ∈ stage.rootIterVars, iv ∈ inside) :
    DomainState.Good inside outer context ⟨start, context⟩ where
  distinct := ranges.distinct
  keys := fun entry member => rootsInside _ (ranges.isRoot entry member)
  fixed := by
    intro entry member
    obtain ⟨min, extent, same, positive⟩ := ranges.constant entry member
    rw [same]
    exact ⟨min, extent, .intImm min, .intImm extent, positive⟩
  bound := fun _ member => .inr member

structure DomainState.Reached (inside : Set Var) (outer : Env) (context : Ranges) (start : Ranges)
    (axes : List (AxisRelation Var)) (known : Finset Var) (current : DomainState) : Prop where
  good : current.Good inside outer context
  keeps : Extends start current.state
  knows : ∀ iv ∈ known, current.state.lookup iv ≠ none
  only : ∀ v, current.state.lookup v ≠ none → start.lookup v ≠ none ∨ v ∈ known
  fits : ∀ relation ∈ axes, (∀ axis ∈ relation.parents ∪ relation.children,
    current.state.lookup axis ≠ none) ∧ relation.Fits (domainBounds current.state outer)

theorem Extends.ne_none (extended : Extends state next) (found : state.lookup iv ≠ none) :
    next.lookup iv ≠ none := by
  obtain ⟨range, isRange⟩ := Option.ne_none_iff_exists'.mp found
  rw [extended iv range isRange]
  exact Option.some_ne_none range

theorem Stage.RootRanges.passDown (ranges : stage.RootRanges start)
    (outside : Outside inside outer context) (sound : analyzer.Sound)
    (dominatingThread : Var → Bool) (allowMissing : Bool)
    (rootsInside : ∀ iv ∈ stage.rootIterVars, iv ∈ inside) {axes : List (AxisRelation Var)}
    {leaves : Finset Var} (derived : AxisRelation.Derived stage.roots axes leaves known) :
    ∀ relations : List IterVarRelation, relations.map IterVarRelation.axes = axes →
      (∀ iv ∈ known, iv ∈ inside) → (∀ relation ∈ relations, relation.Positive inside outer) →
      (∀ relation ∈ relations, ∀ child ∈ relation.axes.children, child ∉ stage.rootIterVars) →
      ∃ current, relations.foldlM (Te.passDownRelation analyzer dominatingThread allowMissing)
          ⟨start, context⟩ = some current ∧
        current.Reached inside outer context start axes known := by
  induction derived with
  | start =>
    rintro relations same _ _ _
    obtain rfl := List.map_eq_nil_iff.mp same
    refine ⟨⟨start, context⟩, rfl, ranges.good rootsInside, .refl _, ?_, fun v found => .inl found, ?_⟩
    · intro iv isRoot
      have member := List.mem_filter.mp (List.mem_toFinset.mp isRoot)
      exact ranges.covers iv member.1
    · exact fun relation member => absurd member List.not_mem_nil
  | @step axes leaves known axis derived distinct fromLeaves fresh ih =>
    intro relations same knownInside positive notRoots
    obtain ⟨before, rest, rfl, isBefore, isLast⟩ := List.map_eq_append_iff.mp same
    obtain ⟨relation, rfl, rfl⟩ := List.map_eq_singleton_iff.mp isLast
    obtain ⟨current, run, reached⟩ := ih before isBefore
      (fun iv member => knownInside iv (Finset.mem_union_left _ member))
      (fun earlier member => positive earlier (List.mem_append_left _ member))
      (fun earlier member => notRoots earlier (List.mem_append_left _ member))
    have last : relation ∈ before ++ [relation] :=
      List.mem_append_right _ (List.mem_singleton_self _)
    have isFresh : ∀ child ∈ relation.axes.children, current.state.lookup child = none := by
      intro child member
      by_contra found
      rcases reached.only child found with isRoot | isKnown
      · obtain ⟨range, isRange⟩ := Option.ne_none_iff_exists'.mp isRoot
        have entry := (lookup_eq_some_iff_mem ranges.distinct).mp isRange
        exact notRoots relation last child member (ranges.isRoot _ entry)
      · exact Finset.disjoint_left.mp fresh member isKnown
    obtain ⟨after, step, passed⟩ := reached.good.passDownRelation outside sound dominatingThread
      allowMissing distinct (positive relation last)
      (fun parent member => reached.knows parent (derived.leaves_subset (fromLeaves member)))
      isFresh (fun child member => knownInside child (Finset.mem_union_right _ member))
    refine ⟨after, ?_, passed.good, reached.keeps.trans passed.keeps, ?_, ?_, ?_⟩
    · rw [List.foldlM_append, run]
      simp only [Option.bind_eq_bind, Option.bind_some, List.foldlM_cons, List.foldlM_nil, step,
        Option.pure_def]
    · intro iv member
      rcases Finset.mem_union.mp member with old | new
      · exact passed.keeps.ne_none (reached.knows iv old)
      · exact passed.children iv new
    · intro v found
      rcases passed.only v found with old | new
      · exact (reached.only v old).imp_right (Finset.mem_union_left _)
      · exact .inr (Finset.mem_union_right _ new)
    · intro earlier member
      rcases List.mem_append.mp member with old | new
      · obtain ⟨found, fits⟩ := reached.fits earlier old
        refine ⟨fun place inside => passed.keeps.ne_none (found place inside), fits.congr ?_⟩
        exact fun place inside => passed.keeps.domainBounds_eq (found place inside)
      · rw [List.mem_singleton.mp new]
        refine ⟨fun place inside => ?_, passed.fits⟩
        rcases Finset.mem_union.mp inside with isParent | isChild
        · exact passed.keeps.ne_none
            (reached.knows place (derived.leaves_subset (fromLeaves isParent)))
        · exact passed.children place isChild

theorem DomainState.Good.updateThreads (good : current.Good inside outer context)
    (threads : List (Var × Var)) (threadsInside : ∀ entry ∈ threads, entry.2 ∈ inside)
    {after : DomainState} (run : threads.foldlM (updateThread analyzer) current = some after) :
    after.Good inside outer context ∧ Extends current.state after.state := by
  induction threads generalizing current with
  | nil =>
    cases run
    exact ⟨good, .refl _⟩
  | cons entry rest ih =>
    rw [List.foldlM_cons] at run
    obtain ⟨middle, step, rest⟩ := Option.bind_eq_some_iff.mp run
    have restInside := fun other member => threadsInside other (List.mem_cons_of_mem _ member)
    obtain ⟨range, isRange, updated⟩ := Option.bind_eq_some_iff.mp step
    cases found : current.state.lookup entry.2 with
    | none =>
      obtain ⟨low, extent, fixedMin, fixedExtent, positive⟩ :=
        good.fixed (entry.1, range) ((lookup_eq_some_iff_mem good.distinct).mp isRange)
      obtain ⟨next, made, goodNext, stateIs⟩ := good.update analyzer range found
        (threadsInside entry List.mem_cons_self) fixedMin fixedExtent positive
      obtain rfl := Option.some.inj (made.symm.trans updated)
      obtain ⟨goodAfter, keeps⟩ := ih goodNext restInside rest
      refine ⟨goodAfter, Extends.trans ?_ keeps⟩
      rw [stateIs]
      exact .cons found
    | some known =>
      rw [Te.update, found] at updated
      simp only [Option.ite_none_right_eq_some] at updated
      obtain ⟨_, same⟩ := updated
      obtain rfl := Option.some.inj same
      exact ih good restInside rest

structure Domains (stage : Stage) (known : Finset Var) (outer : Env) (start domMap : Ranges) :
    Prop where
  good : DomainState.Good (stage.variables known) outer [] ⟨domMap, domMap⟩
  keeps : Extends start domMap
  knows : ∀ iv ∈ known, domMap.lookup iv ≠ none
  fits : ∀ relation ∈ stage.relations, relation.axes.Fits (domainBounds domMap outer)

theorem passDownDomain_domains (wellFormed : stage.WellFormed known)
    (ranges : stage.RootRanges start) (sound : analyzer.Sound)
    (outside : Outside (stage.variables known) outer context)
    (positive : ∀ relation ∈ stage.relations, relation.Positive (stage.variables known) outer)
    {allowMissing : Bool} {after : DomainState}
    (run : passDownDomain analyzer stage ⟨start, context⟩ allowMissing = some after) :
    Domains stage known outer start after.state := by
  obtain ⟨derived, isDerived, threads⟩ := Option.bind_eq_some_iff.mp run
  obtain ⟨current, relations, reached⟩ := ranges.passDown outside sound
    (passUpThreadBinding stage) allowMissing (fun iv member => .inr (.inl member)) wellFormed.derived
    stage.relations rfl (fun iv member => .inl member) positive wellFormed.fresh
  obtain rfl := Option.some.inj (relations.symm.trans isDerived)
  obtain ⟨good, keeps⟩ := reached.good.updateThreads stage.bindThread
    (fun entry member => .inr (.inr ⟨entry.1, member⟩)) threads
  refine ⟨⟨good.distinct, good.keys, good.fixed, fun entry member => .inl member⟩,
    reached.keeps.trans keeps, fun iv member => keeps.ne_none (reached.knows iv member), ?_⟩
  intro relation member
  obtain ⟨found, fits⟩ := reached.fits relation.axes (List.mem_map_of_mem member)
  exact fits.congr fun axis inside => keeps.domainBounds_eq (found axis inside)

end Relations

end Tvm.Te
