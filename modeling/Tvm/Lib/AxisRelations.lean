import Mathlib

/-!
# Relations between the axes of a loop nest

Axes are split, fused and shifted, and the values of the axes at the leaves give those at the roots.
Where the extents fit, the leaf values that stay in range everywhere correspond to the points of the
root ranges.
-/

namespace Tvm.Lib

inductive AxisRelation (Axis : Type*) where
  | split (parent outer inner : Axis)
  | fuse (outer inner fused : Axis)
  | shift (parent child : Axis)
  | unit (axis : Axis)

structure AxisBounds (Axis : Type*) where
  low : Axis → Int
  extent : Axis → Int

def AxisBounds.Contains {Axis : Type*} (bounds : AxisBounds Axis) (values : Axis → Int)
    (axis : Axis) : Prop :=
  bounds.low axis ≤ values axis ∧ values axis < bounds.low axis + bounds.extent axis

def AxisBounds.fromZero {Axis : Type*} (bounds : AxisBounds Axis) : AxisBounds Axis where
  low := fun _ => 0
  extent := bounds.extent

theorem emod_add_of_dvd {m t c d : Int} (positive : 0 < d) (divides : c ∣ d) (start : c ∣ m)
    (nonneg : 0 ≤ t) (inside : t < c) : (m + t) % d = m % d + t := by
  have residue : c ∣ m % d := by
    rw [Int.emod_def]
    exact dvd_sub start (dvd_mul_of_dvd_left divides _)
  have room : c ≤ d - m % d :=
    Int.le_of_dvd (Int.sub_pos_of_lt (Int.emod_lt_of_pos m positive)) (dvd_sub divides residue)
  have lower := Int.emod_nonneg m positive.ne'
  rw [← Int.emod_add_emod]
  exact Int.emod_eq_of_lt (by omega) (by omega)

namespace AxisRelation

variable {Axis : Type*} [DecidableEq Axis] {bounds : AxisBounds Axis} {relation : AxisRelation Axis}
  {values other : Axis → Int} {axis : Axis}

def parents : AxisRelation Axis → Finset Axis
  | split parent _ _ => {parent}
  | fuse outer inner _ => {outer, inner}
  | shift parent _ => {parent}
  | unit _ => ∅

def children : AxisRelation Axis → Finset Axis
  | split _ outer inner => {outer, inner}
  | fuse _ _ fused => {fused}
  | shift _ child => {child}
  | unit axis => {axis}

def Distinct : AxisRelation Axis → Prop
  | split _ outer inner => outer ≠ inner
  | fuse outer inner _ => outer ≠ inner
  | shift _ _ => True
  | unit _ => True

def up (bounds : AxisBounds Axis) (relation : AxisRelation Axis) (values : Axis → Int) :
    Axis → Int :=
  match relation with
  | split parent outer inner =>
    Function.update values parent
      (values inner + values outer * bounds.extent inner + bounds.low parent)
  | fuse outer inner fused =>
    Function.update (Function.update values outer
      (values fused / bounds.extent inner + bounds.low outer)) inner
      (values fused % bounds.extent inner + bounds.low inner)
  | shift parent child => Function.update values parent (values child + bounds.low parent)
  | unit _ => values

def down (bounds : AxisBounds Axis) (relation : AxisRelation Axis) (values : Axis → Int) :
    Axis → Int :=
  match relation with
  | split parent outer inner =>
    Function.update (Function.update values outer
      ((values parent - bounds.low parent) / bounds.extent inner)) inner
      ((values parent - bounds.low parent) % bounds.extent inner)
  | fuse outer inner fused =>
    Function.update values fused ((values outer - bounds.low outer) * bounds.extent inner +
      (values inner - bounds.low inner))
  | shift parent child => Function.update values child (values parent - bounds.low parent)
  | unit axis => Function.update values axis 0

/-- The extents of the children cover those of the parents. -/
def Fits (bounds : AxisBounds Axis) : AxisRelation Axis → Prop
  | split parent outer inner => bounds.low outer = 0 ∧ bounds.low inner = 0 ∧
      0 < bounds.extent inner ∧ bounds.extent parent ≤ bounds.extent inner * bounds.extent outer
  | fuse outer inner fused => bounds.low fused = 0 ∧ 0 < bounds.extent inner ∧
      bounds.extent fused = bounds.extent outer * bounds.extent inner
  | shift parent child => bounds.low child = 0 ∧ bounds.extent child = bounds.extent parent
  | unit axis => bounds.low axis = 0 ∧ bounds.extent axis = 1

theorem Fits.congr {after : AxisBounds Axis} (fits : relation.Fits bounds)
    (agree : ∀ axis ∈ relation.parents ∪ relation.children, after.low axis = bounds.low axis ∧
      after.extent axis = bounds.extent axis) : relation.Fits after := by
  cases relation with
  | split parent outer inner =>
    obtain ⟨_, parentExtent⟩ := agree parent (by simp [parents])
    obtain ⟨outerLow, outerExtent⟩ := agree outer (by simp [children])
    obtain ⟨innerLow, innerExtent⟩ := agree inner (by simp [children])
    simpa only [Fits, parentExtent, outerLow, outerExtent, innerLow, innerExtent] using fits
  | fuse outer inner fused =>
    obtain ⟨_, outerExtent⟩ := agree outer (by simp [parents])
    obtain ⟨_, innerExtent⟩ := agree inner (by simp [parents])
    obtain ⟨fusedLow, fusedExtent⟩ := agree fused (by simp [children])
    simpa only [Fits, outerExtent, innerExtent, fusedLow, fusedExtent] using fits
  | shift parent child =>
    obtain ⟨_, parentExtent⟩ := agree parent (by simp [parents])
    obtain ⟨childLow, childExtent⟩ := agree child (by simp [children])
    simpa only [Fits, parentExtent, childLow, childExtent] using fits
  | unit axis =>
    obtain ⟨low, extent⟩ := agree axis (by simp [children])
    simpa only [Fits, low, extent] using fits

omit [DecidableEq Axis] in
theorem Fits.fromZero (fits : relation.Fits bounds) : relation.Fits bounds.fromZero := by
  cases relation with
  | split parent outer inner => exact ⟨rfl, rfl, fits.2.2⟩
  | fuse outer inner fused => exact ⟨rfl, fits.2⟩
  | shift parent child => exact ⟨rfl, fits.2⟩
  | unit axis => exact ⟨rfl, fits.2⟩

theorem Fits.low_child (fits : relation.Fits bounds) (isChild : axis ∈ relation.children) :
    bounds.low axis = 0 := by
  cases relation with
  | split parent outer inner =>
    rcases Finset.mem_insert.mp isChild with rfl | isInner
    · exact fits.1
    · rw [Finset.mem_singleton.mp isInner]
      exact fits.2.1
  | fuse outer inner fused =>
    rw [Finset.mem_singleton.mp isChild]
    exact fits.1
  | shift parent child =>
    rw [Finset.mem_singleton.mp isChild]
    exact fits.1
  | unit axis =>
    rw [Finset.mem_singleton.mp isChild]
    exact fits.1

theorem up_of_notMem (outside : axis ∉ relation.parents) :
    up bounds relation values axis = values axis := by
  cases relation with
  | split parent outer inner =>
    exact Function.update_of_ne (fun same => outside (Finset.mem_singleton.mpr same)) _ _
  | fuse outer inner fused =>
    simp only [parents, Finset.mem_insert, Finset.mem_singleton, not_or] at outside
    rw [up, Function.update_of_ne outside.2, Function.update_of_ne outside.1]
  | shift parent child =>
    exact Function.update_of_ne (fun same => outside (Finset.mem_singleton.mpr same)) _ _
  | unit axis => rfl

theorem down_of_notMem (outside : axis ∉ relation.children) :
    down bounds relation values axis = values axis := by
  cases relation with
  | split parent outer inner =>
    simp only [children, Finset.mem_insert, Finset.mem_singleton, not_or] at outside
    rw [down, Function.update_of_ne outside.2, Function.update_of_ne outside.1]
  | fuse outer inner fused =>
    exact Function.update_of_ne (fun same => outside (Finset.mem_singleton.mpr same)) _ _
  | shift parent child =>
    exact Function.update_of_ne (fun same => outside (Finset.mem_singleton.mpr same)) _ _
  | unit axis =>
    exact Function.update_of_ne (fun same => outside (Finset.mem_singleton.mpr same)) _ _

theorem up_congr (agree : ∀ child ∈ relation.children, values child = other child)
    (isParent : axis ∈ relation.parents) :
    up bounds relation values axis = up bounds relation other axis := by
  cases relation with
  | split parent outer inner =>
    obtain rfl := Finset.mem_singleton.mp isParent
    have first := agree outer (Finset.mem_insert_self _ _)
    have second := agree inner (Finset.mem_insert_of_mem (Finset.mem_singleton_self _))
    rw [up, up, Function.update_self, Function.update_self, first, second]
  | fuse outer inner fused =>
    have same := agree fused (Finset.mem_singleton_self _)
    by_cases isInner : axis = inner
    · rw [up, up, isInner, Function.update_self, Function.update_self, same]
    · have isOuter : axis = outer := by
        rcases Finset.mem_insert.mp isParent with found | found
        · exact found
        · exact absurd (Finset.mem_singleton.mp found) isInner
      rw [up, up, Function.update_of_ne isInner, Function.update_of_ne isInner, isOuter,
        Function.update_self, Function.update_self, same]
  | shift parent child =>
    obtain rfl := Finset.mem_singleton.mp isParent
    have same := agree child (Finset.mem_singleton_self _)
    rw [up, up, Function.update_self, Function.update_self, same]
  | unit axis => exact absurd isParent (Finset.notMem_empty _)

theorem up_injective (distinct : relation.Distinct) (fits : relation.Fits bounds)
    (inRange : ∀ child ∈ relation.children, bounds.Contains values child)
    (otherInRange : ∀ child ∈ relation.children, bounds.Contains other child)
    (same : ∀ parent ∈ relation.parents,
      up bounds relation values parent = up bounds relation other parent) :
    ∀ child ∈ relation.children, values child = other child := by
  cases relation with
  | split parent outer inner =>
    obtain ⟨lowOuter, lowInner, positive, _⟩ := fits
    have equal := same parent (Finset.mem_singleton_self _)
    have isInner : inner ∈ children (split parent outer inner) :=
      Finset.mem_insert_of_mem (Finset.mem_singleton_self _)
    obtain ⟨lower, upper⟩ := inRange inner isInner
    obtain ⟨otherLower, otherUpper⟩ := otherInRange inner isInner
    rw [up, up, Function.update_self, Function.update_self, add_left_inj] at equal
    rw [lowInner] at lower upper otherLower otherUpper
    have quotient : values outer = other outer := by
      have left := Int.add_mul_ediv_right (values inner) (values outer) positive.ne'
      have right := Int.add_mul_ediv_right (other inner) (other outer) positive.ne'
      rw [Int.ediv_eq_zero_of_lt lower (by omega)] at left
      rw [Int.ediv_eq_zero_of_lt otherLower (by omega)] at right
      rw [equal] at left
      omega
    have remainder : values inner = other inner := by
      rw [quotient] at equal
      omega
    intro child member
    rcases Finset.mem_insert.mp member with rfl | rest
    · exact quotient
    · rw [Finset.mem_singleton.mp rest]
      exact remainder
  | fuse outer inner fused =>
    have innerEqual := same inner (Finset.mem_insert_of_mem (Finset.mem_singleton_self _))
    have outerEqual := same outer (Finset.mem_insert_self _ _)
    have apart : outer ≠ inner := distinct
    rw [up, up, Function.update_self, Function.update_self, add_left_inj] at innerEqual
    rw [up, up, Function.update_of_ne apart, Function.update_of_ne apart, Function.update_self,
      Function.update_self, add_left_inj] at outerEqual
    intro child member
    rw [Finset.mem_singleton.mp member, ← Int.mul_ediv_add_emod (values fused) (bounds.extent inner),
      ← Int.mul_ediv_add_emod (other fused) (bounds.extent inner), innerEqual, outerEqual]
  | shift parent child =>
    have equal := same parent (Finset.mem_singleton_self _)
    rw [up, up, Function.update_self, Function.update_self, add_left_inj] at equal
    intro axis member
    rw [Finset.mem_singleton.mp member, equal]
  | unit axis =>
    obtain ⟨low, extent⟩ := fits
    intro child member
    obtain ⟨lower, upper⟩ := inRange child member
    obtain ⟨otherLower, otherUpper⟩ := otherInRange child member
    rw [Finset.mem_singleton.mp member] at lower upper otherLower otherUpper ⊢
    omega

theorem up_down (distinct : relation.Distinct) (fits : relation.Fits bounds)
    (apart : Disjoint relation.parents relation.children)
    (inRange : ∀ parent ∈ relation.parents, bounds.Contains values parent) :
    (∀ parent ∈ relation.parents,
      up bounds relation (down bounds relation values) parent = values parent) ∧
    ∀ child ∈ relation.children, bounds.Contains (down bounds relation values) child := by
  cases relation with
  | split parent outer inner =>
    obtain ⟨lowOuter, lowInner, positive, covers⟩ := fits
    obtain ⟨lower, upper⟩ := inRange parent (Finset.mem_singleton_self _)
    have notInner : outer ≠ inner := distinct
    have innerValue : down bounds (split parent outer inner) values inner =
        (values parent - bounds.low parent) % bounds.extent inner := Function.update_self _ _ _
    have outerValue : down bounds (split parent outer inner) values outer =
        (values parent - bounds.low parent) / bounds.extent inner := by
      rw [down, Function.update_of_ne notInner, Function.update_self]
    constructor
    · intro axis member
      rw [Finset.mem_singleton.mp member, up, Function.update_self, innerValue, outerValue]
      have division := Int.emod_add_mul_ediv (values parent - bounds.low parent)
        (bounds.extent inner)
      rw [mul_comm] at division
      omega
    · intro axis member
      rcases Finset.mem_insert.mp member with rfl | rest
      · rw [AxisBounds.Contains, outerValue, lowOuter, zero_add]
        refine ⟨Int.ediv_nonneg (by omega) positive.le, ?_⟩
        rw [Int.ediv_lt_iff_lt_mul positive]
        rw [mul_comm] at covers
        omega
      · rw [Finset.mem_singleton.mp rest, AxisBounds.Contains, innerValue, lowInner, zero_add]
        exact ⟨Int.emod_nonneg _ positive.ne', Int.emod_lt_of_pos _ positive⟩
  | fuse outer inner fused =>
    obtain ⟨low, positive, extent⟩ := fits
    have notInner : outer ≠ inner := distinct
    obtain ⟨outerLower, outerUpper⟩ := inRange outer (Finset.mem_insert_self _ _)
    obtain ⟨innerLower, innerUpper⟩ :=
      inRange inner (Finset.mem_insert_of_mem (Finset.mem_singleton_self _))
    have fusedValue : down bounds (fuse outer inner fused) values fused =
        (values outer - bounds.low outer) * bounds.extent inner +
          (values inner - bounds.low inner) := Function.update_self _ _ _
    have quotient : ((values outer - bounds.low outer) * bounds.extent inner +
        (values inner - bounds.low inner)) / bounds.extent inner =
          values outer - bounds.low outer := by
      rw [add_comm, Int.add_mul_ediv_right _ _ positive.ne',
        Int.ediv_eq_zero_of_lt (by omega) (by omega), zero_add]
    have remainder : ((values outer - bounds.low outer) * bounds.extent inner +
        (values inner - bounds.low inner)) % bounds.extent inner =
          values inner - bounds.low inner := by
      rw [add_comm, Int.add_mul_emod_self_right, Int.emod_eq_of_lt (by omega) (by omega)]
    constructor
    · intro axis member
      by_cases isInner : axis = inner
      · rw [isInner, up, Function.update_self, fusedValue, remainder]
        omega
      · have isOuter : axis = outer := by
          rcases Finset.mem_insert.mp member with found | found
          · exact found
          · exact absurd (Finset.mem_singleton.mp found) isInner
        rw [isOuter, up, Function.update_of_ne notInner, Function.update_self, fusedValue, quotient]
        omega
    · intro axis member
      rw [Finset.mem_singleton.mp member, AxisBounds.Contains, fusedValue, low, zero_add, extent]
      constructor
      · exact add_nonneg (mul_nonneg (by omega) positive.le) (by omega)
      · calc (values outer - bounds.low outer) * bounds.extent inner +
              (values inner - bounds.low inner)
            < (values outer - bounds.low outer) * bounds.extent inner + bounds.extent inner := by
              omega
          _ = (values outer - bounds.low outer + 1) * bounds.extent inner := by ring
          _ ≤ bounds.extent outer * bounds.extent inner :=
              mul_le_mul_of_nonneg_right (by omega) positive.le
  | shift parent child =>
    obtain ⟨low, extent⟩ := fits
    obtain ⟨lower, upper⟩ := inRange parent (Finset.mem_singleton_self _)
    have childValue : down bounds (shift parent child) values child =
        values parent - bounds.low parent := Function.update_self _ _ _
    constructor
    · intro axis member
      rw [Finset.mem_singleton.mp member, up, Function.update_self, childValue]
      omega
    · intro axis member
      rw [Finset.mem_singleton.mp member, AxisBounds.Contains, childValue]
      omega
  | unit axis =>
    obtain ⟨low, extent⟩ := fits
    constructor
    · exact fun parent member => absurd member (Finset.notMem_empty _)
    · intro child member
      have value : down bounds (unit axis) values axis = 0 := Function.update_self _ _ _
      rw [Finset.mem_singleton.mp member, AxisBounds.Contains, value]
      omega

/-- How a flag goes from the children to the parents: an axis without the flag is covered
exactly. -/
def Flows (bounds : AxisBounds Axis) (flagged : Axis → Bool) : AxisRelation Axis → Prop
  | split parent outer inner => flagged parent = false → flagged outer = false ∧
      flagged inner = false ∧ bounds.extent parent = bounds.extent inner * bounds.extent outer
  | fuse outer inner fused => flagged outer = flagged fused ∧ flagged inner = flagged fused
  | shift parent child => flagged parent = flagged child
  | unit _ => True

theorem up_low (fits : relation.Fits bounds)
    (inRange : ∀ child ∈ relation.children, bounds.low child ≤ values child)
    (isParent : axis ∈ relation.parents) : bounds.low axis ≤ up bounds relation values axis := by
  cases relation with
  | split parent outer inner =>
    obtain ⟨lowOuter, lowInner, positive, _⟩ := fits
    have first := inRange outer (Finset.mem_insert_self _ _)
    have second := inRange inner (Finset.mem_insert_of_mem (Finset.mem_singleton_self _))
    rw [lowOuter] at first
    rw [lowInner] at second
    have product := mul_nonneg first positive.le
    rw [Finset.mem_singleton.mp isParent, up, Function.update_self]
    omega
  | fuse outer inner fused =>
    obtain ⟨low, positive, _⟩ := fits
    have lower := inRange fused (Finset.mem_singleton_self _)
    rw [low] at lower
    by_cases isInner : axis = inner
    · have remainder := Int.emod_nonneg (values fused) positive.ne'
      rw [isInner, up, Function.update_self]
      omega
    · have isOuter : axis = outer := by
        rcases Finset.mem_insert.mp isParent with found | found
        · exact found
        · exact absurd (Finset.mem_singleton.mp found) isInner
      have quotient := Int.ediv_nonneg lower positive.le
      rw [up, Function.update_of_ne isInner, isOuter, Function.update_self]
      omega
  | shift parent child =>
    obtain ⟨low, _⟩ := fits
    have lower := inRange child (Finset.mem_singleton_self _)
    rw [Finset.mem_singleton.mp isParent, up, Function.update_self]
    omega
  | unit axis => exact absurd isParent (Finset.notMem_empty _)

theorem up_high {flagged : Axis → Bool} (fits : relation.Fits bounds)
    (flows : relation.Flows bounds flagged)
    (inRange : ∀ child ∈ relation.children, bounds.low child ≤ values child ∧
      (flagged child = false → values child < bounds.low child + bounds.extent child))
    (isParent : axis ∈ relation.parents) (free : flagged axis = false) :
    up bounds relation values axis < bounds.low axis + bounds.extent axis := by
  cases relation with
  | split parent outer inner =>
    obtain ⟨lowOuter, lowInner, positive, _⟩ := fits
    obtain rfl := Finset.mem_singleton.mp isParent
    obtain ⟨outerFree, innerFree, exactly⟩ := flows free
    have first := (inRange outer (Finset.mem_insert_self _ _)).2 outerFree
    have second := (inRange inner (Finset.mem_insert_of_mem (Finset.mem_singleton_self _))).2
      innerFree
    rw [lowOuter, zero_add] at first
    rw [lowInner, zero_add] at second
    have product : values outer * bounds.extent inner ≤
        (bounds.extent outer - 1) * bounds.extent inner :=
      mul_le_mul_of_nonneg_right (by omega) positive.le
    have expand : (bounds.extent outer - 1) * bounds.extent inner =
        bounds.extent inner * bounds.extent outer - bounds.extent inner := by ring
    rw [up, Function.update_self]
    omega
  | fuse outer inner fused =>
    obtain ⟨low, positive, extent⟩ := fits
    obtain ⟨outerFlag, innerFlag⟩ := flows
    by_cases isInner : axis = inner
    · have remainder := Int.emod_lt_of_pos (values fused) positive
      rw [isInner, up, Function.update_self]
      omega
    · have isOuter : axis = outer := by
        rcases Finset.mem_insert.mp isParent with found | found
        · exact found
        · exact absurd (Finset.mem_singleton.mp found) isInner
      rw [isOuter, outerFlag] at free
      have upper := (inRange fused (Finset.mem_singleton_self _)).2 free
      rw [low, zero_add, extent] at upper
      have quotient := (Int.ediv_lt_iff_lt_mul positive).mpr upper
      rw [up, Function.update_of_ne isInner, isOuter, Function.update_self]
      omega
  | shift parent child =>
    obtain ⟨low, extent⟩ := fits
    obtain rfl := Finset.mem_singleton.mp isParent
    rw [Flows] at flows
    rw [flows] at free
    have upper := (inRange child (Finset.mem_singleton_self _)).2 free
    rw [up, Function.update_self]
    omega
  | unit axis => exact absurd isParent (Finset.notMem_empty _)

theorem child_lt_of_shift {parent child : Axis} (fits : (shift parent child).Fits bounds)
    (upper : up bounds (shift parent child) values parent <
      bounds.low parent + bounds.extent parent) :
    values child < bounds.low child + bounds.extent child := by
  obtain ⟨low, extent⟩ := fits
  rw [up, Function.update_self] at upper
  omega

variable {roots leaves known : Finset Axis} {relations : List (AxisRelation Axis)}

def run (bounds : AxisBounds Axis) (relations : List (AxisRelation Axis)) (values : Axis → Int) :
    Axis → Int :=
  relations.foldr (up bounds) values

theorem run_append (bounds : AxisBounds Axis) (relations : List (AxisRelation Axis))
    (last : AxisRelation Axis) (values : Axis → Int) :
    run bounds (relations ++ [last]) values = run bounds relations (up bounds last values) := by
  simp only [run, List.foldr_append, List.foldr_cons, List.foldr_nil]

/-- The relations start at the roots, each takes leaves and gives new ones. -/
inductive Derived (roots : Finset Axis) :
    List (AxisRelation Axis) → Finset Axis → Finset Axis → Prop where
  | start : Derived roots [] roots roots
  | step {relations : List (AxisRelation Axis)} {leaves known : Finset Axis}
      {relation : AxisRelation Axis} : Derived roots relations leaves known →
      relation.Distinct → relation.parents ⊆ leaves → Disjoint relation.children known →
      Derived roots (relations ++ [relation]) ((leaves \ relation.parents) ∪ relation.children)
        (known ∪ relation.children)

theorem Derived.leaves_subset (derived : Derived roots relations leaves known) :
    leaves ⊆ known := by
  induction derived with
  | start => exact Finset.Subset.refl _
  | step _ _ _ _ ih => exact Finset.union_subset_union (Finset.sdiff_subset.trans ih) subset_rfl

theorem Derived.roots_subset (derived : Derived roots relations leaves known) :
    roots ⊆ known := by
  induction derived with
  | start => exact Finset.Subset.refl _
  | step _ _ _ _ ih => exact ih.trans Finset.subset_union_left

theorem Derived.cases_known (derived : Derived roots relations leaves known) :
    ∀ axis ∈ known, axis ∈ roots ∨ ∃ relation ∈ relations, axis ∈ relation.children := by
  induction derived with
  | start => exact fun axis isRoot => .inl isRoot
  | step _ _ _ _ ih =>
    intro axis member
    rcases Finset.mem_union.mp member with old | new
    · refine (ih axis old).imp_right fun ⟨relation, inside, isChild⟩ => ?_
      exact ⟨relation, List.mem_append_left _ inside, isChild⟩
    · exact .inr ⟨_, List.mem_append_right _ (List.mem_singleton_self _), new⟩

theorem Derived.leaf_or_parent (derived : Derived roots relations leaves known) :
    ∀ axis ∈ known, axis ∈ leaves ∨ ∃ relation ∈ relations, axis ∈ relation.parents := by
  induction derived with
  | start => exact fun axis isRoot => .inl isRoot
  | @step relations leaves known relation _ _ _ _ ih =>
    intro axis member
    rcases Finset.mem_union.mp member with old | new
    · rcases ih axis old with isLeaf | ⟨earlier, inside, isParent⟩
      · by_cases isParent : axis ∈ relation.parents
        · exact .inr ⟨relation, List.mem_append_right _ (List.mem_singleton_self _), isParent⟩
        · exact .inl (Finset.mem_union_left _ (Finset.mem_sdiff.mpr ⟨isLeaf, isParent⟩))
      · exact .inr ⟨earlier, List.mem_append_left _ inside, isParent⟩
    · exact .inl (Finset.mem_union_right _ new)

theorem Derived.parent_known (derived : Derived roots relations leaves known) :
    ∀ relation ∈ relations, ∀ parent ∈ relation.parents, parent ∈ known ∧ parent ∉ leaves := by
  induction derived with
  | start => exact fun relation member => absurd member List.not_mem_nil
  | step derived _ fromLeaves fresh ih =>
    have notNew : ∀ axis, axis ∈ _ → axis ∉ _ :=
      fun axis isKnown isChild => Finset.disjoint_left.mp fresh isChild isKnown
    intro relation member parent isParent
    rcases List.mem_append.mp member with old | new
    · obtain ⟨isKnown, notLeaf⟩ := ih relation old parent isParent
      refine ⟨Finset.mem_union_left _ isKnown, fun isLeaf => ?_⟩
      rcases Finset.mem_union.mp isLeaf with rest | isChild
      · exact notLeaf (Finset.mem_sdiff.mp rest).1
      · exact notNew parent isKnown isChild
    · rw [List.mem_singleton.mp new] at isParent
      have isKnown := derived.leaves_subset (fromLeaves isParent)
      refine ⟨Finset.mem_union_left _ isKnown, fun isLeaf => ?_⟩
      rcases Finset.mem_union.mp isLeaf with rest | isChild
      · exact (Finset.mem_sdiff.mp rest).2 isParent
      · exact notNew parent isKnown isChild

theorem Derived.run_of_leaf (derived : Derived roots relations leaves known) {values : Axis → Int}
    (place : axis ∈ leaves ∨ axis ∉ known) : run bounds relations values axis = values axis := by
  induction derived generalizing values with
  | start => rfl
  | @step relations leaves known relation derived _ fromLeaves fresh ih =>
    rw [run_append]
    have parentKnown : ∀ parent ∈ relation.parents, parent ∈ known :=
      fun parent member => derived.leaves_subset (fromLeaves member)
    have outside : axis ∉ relation.parents := by
      intro isParent
      rcases place with member | absent
      · rcases Finset.mem_union.mp member with old | new
        · exact (Finset.mem_sdiff.mp old).2 isParent
        · exact Finset.disjoint_left.mp fresh new (parentKnown axis isParent)
      · exact absent (Finset.mem_union_left _ (parentKnown axis isParent))
    rw [ih, up_of_notMem outside]
    rcases place with member | absent
    · rcases Finset.mem_union.mp member with old | new
      · exact .inl (Finset.mem_sdiff.mp old).1
      · exact .inr (Finset.disjoint_left.mp fresh new)
    · exact .inr fun inside => absent (Finset.mem_union_left _ inside)

theorem Derived.run_parent (derived : Derived roots relations leaves known) {values : Axis → Int} :
    ∀ relation ∈ relations, ∀ parent ∈ relation.parents,
      run bounds relations values parent =
        up bounds relation (run bounds relations values) parent := by
  induction derived generalizing values with
  | start => exact fun relation member => absurd member List.not_mem_nil
  | @step relations leaves known last derived _ fromLeaves fresh ih =>
    intro relation member parent isParent
    rw [run_append]
    rcases List.mem_append.mp member with old | new
    · exact ih relation old parent isParent
    · rw [List.mem_singleton.mp new] at isParent ⊢
      rw [derived.run_of_leaf (.inl (fromLeaves isParent))]
      apply up_congr _ isParent
      intro child isChild
      have unknown := Finset.disjoint_left.mp fresh isChild
      rw [derived.run_of_leaf (.inr unknown), up_of_notMem]
      exact fun childIsParent => unknown (derived.leaves_subset (fromLeaves childIsParent))

theorem Derived.run_congr (derived : Derived roots relations leaves known)
    {values other : Axis → Int} (agree : ∀ leaf ∈ leaves, values leaf = other leaf) :
    ∀ axis ∈ known, run bounds relations values axis = run bounds relations other axis := by
  induction derived generalizing values other with
  | start => exact agree
  | @step relations leaves known relation derived _ fromLeaves fresh ih =>
    rw [run_append, run_append]
    have childAgree : ∀ child ∈ relation.children, values child = other child :=
      fun child member => agree child (Finset.mem_union_right _ member)
    have notParent : ∀ child ∈ relation.children, child ∉ relation.parents :=
      fun child member isParent =>
        Finset.disjoint_left.mp fresh member (derived.leaves_subset (fromLeaves isParent))
    intro axis member
    rcases Finset.mem_union.mp member with old | new
    · refine ih (fun leaf isLeaf => ?_) axis old
      by_cases isParent : leaf ∈ relation.parents
      · exact up_congr childAgree isParent
      · rw [up_of_notMem isParent, up_of_notMem isParent]
        exact agree leaf (Finset.mem_union_left _ (Finset.mem_sdiff.mpr ⟨isLeaf, isParent⟩))
    · have unknown := Finset.disjoint_left.mp fresh new
      rw [derived.run_of_leaf (.inr unknown), derived.run_of_leaf (.inr unknown),
        up_of_notMem (notParent axis new), up_of_notMem (notParent axis new)]
      exact childAgree axis new

theorem Derived.run_injective (derived : Derived roots relations leaves known)
    (fits : ∀ relation ∈ relations, relation.Fits bounds) {values other : Axis → Int}
    (inRange : ∀ axis ∈ known, bounds.Contains (run bounds relations values) axis)
    (otherInRange : ∀ axis ∈ known, bounds.Contains (run bounds relations other) axis)
    (same : ∀ root ∈ roots, run bounds relations values root = run bounds relations other root) :
    ∀ axis ∈ known, run bounds relations values axis = run bounds relations other axis := by
  induction derived generalizing values other with
  | start => exact same
  | @step relations leaves known relation derived distinct fromLeaves fresh ih =>
    rw [run_append] at inRange otherInRange
    rw [run_append, run_append] at same ⊢
    have fitsBefore : ∀ relation ∈ relations, relation.Fits bounds :=
      fun before member => fits before (List.mem_append_left _ member)
    have agree := ih fitsBefore (fun axis member => inRange axis (Finset.mem_union_left _ member))
      (fun axis member => otherInRange axis (Finset.mem_union_left _ member)) same
    have childValue : ∀ (leafValues : Axis → Int), ∀ child ∈ relation.children,
        run bounds relations (up bounds relation leafValues) child = leafValues child := by
      intro leafValues child member
      have unknown := Finset.disjoint_left.mp fresh member
      rw [derived.run_of_leaf (.inr unknown), up_of_notMem fun isParent =>
        unknown (derived.leaves_subset (fromLeaves isParent))]
    have children := up_injective distinct
      (fits relation (List.mem_append_right _ (List.mem_singleton_self _)))
      (fun child member => by
        have contains := inRange child (Finset.mem_union_right _ member)
        rwa [AxisBounds.Contains, childValue values child member] at contains)
      (fun child member => by
        have contains := otherInRange child (Finset.mem_union_right _ member)
        rwa [AxisBounds.Contains, childValue other child member] at contains)
      (fun parent member => by
        have isLeaf := fromLeaves member
        have equal := agree parent (derived.leaves_subset isLeaf)
        rwa [derived.run_of_leaf (.inl isLeaf), derived.run_of_leaf (.inl isLeaf)] at equal)
    intro axis member
    rcases Finset.mem_union.mp member with old | new
    · exact agree axis old
    · rw [childValue values axis new, childValue other axis new]
      exact children axis new

theorem Derived.exists_run (derived : Derived roots relations leaves known)
    (fits : ∀ relation ∈ relations, relation.Fits bounds) {point : Axis → Int}
    (inRange : ∀ root ∈ roots, bounds.Contains point root) :
    ∃ values, (∀ root ∈ roots, run bounds relations values root = point root) ∧
      ∀ axis ∈ known, bounds.Contains (run bounds relations values) axis := by
  induction derived with
  | start => exact ⟨point, fun _ _ => rfl, inRange⟩
  | @step relations leaves known relation derived distinct fromLeaves fresh ih =>
    obtain ⟨values, onRoots, everywhere⟩ :=
      ih fun before member => fits before (List.mem_append_left _ member)
    have parentLeaf : ∀ parent ∈ relation.parents, bounds.Contains values parent := by
      intro parent member
      have contains := everywhere parent (derived.leaves_subset (fromLeaves member))
      rwa [AxisBounds.Contains, derived.run_of_leaf (.inl (fromLeaves member))] at contains
    have apart : Disjoint relation.parents relation.children := by
      rw [Finset.disjoint_left]
      intro axis isParent isChild
      exact Finset.disjoint_left.mp fresh isChild (derived.leaves_subset (fromLeaves isParent))
    obtain ⟨back, children⟩ := up_down distinct
      (fits relation (List.mem_append_right _ (List.mem_singleton_self _))) apart parentLeaf
    have sameLeaves : ∀ leaf ∈ leaves,
        up bounds relation (down bounds relation values) leaf = values leaf := by
      intro leaf isLeaf
      by_cases isParent : leaf ∈ relation.parents
      · exact back leaf isParent
      · rw [up_of_notMem isParent, down_of_notMem fun isChild =>
          Finset.disjoint_left.mp fresh isChild (derived.leaves_subset isLeaf)]
    have same : ∀ axis ∈ known, run bounds relations
        (up bounds relation (down bounds relation values)) axis = run bounds relations values axis :=
      derived.run_congr sameLeaves
    refine ⟨down bounds relation values, fun root isRoot => ?_, fun axis member => ?_⟩
    · rw [run_append, same root (derived.roots_subset isRoot), onRoots root isRoot]
    · rw [run_append]
      rcases Finset.mem_union.mp member with old | new
      · rw [AxisBounds.Contains, same axis old]
        exact everywhere axis old
      · have unknown := Finset.disjoint_left.mp fresh new
        rw [AxisBounds.Contains, derived.run_of_leaf (.inr unknown),
          up_of_notMem (Finset.disjoint_right.mp apart new)]
        exact children axis new

theorem Derived.run_unflagged {flagged : Axis → Bool} (derived : Derived roots relations leaves known)
    (fits : ∀ relation ∈ relations, relation.Fits bounds)
    (flows : ∀ relation ∈ relations, relation.Flows bounds flagged) {values : Axis → Int}
    (inRange : ∀ leaf ∈ leaves, bounds.low leaf ≤ values leaf ∧
      (flagged leaf = false → values leaf < bounds.low leaf + bounds.extent leaf)) :
    ∀ axis ∈ known, bounds.low axis ≤ run bounds relations values axis ∧
      (flagged axis = false →
        run bounds relations values axis < bounds.low axis + bounds.extent axis) := by
  induction derived generalizing values with
  | start => exact inRange
  | @step relations leaves known relation derived _ fromLeaves fresh ih =>
    have last : relation ∈ relations ++ [relation] :=
      List.mem_append_right _ (List.mem_singleton_self _)
    have children : ∀ child ∈ relation.children, bounds.low child ≤ values child ∧
        (flagged child = false → values child < bounds.low child + bounds.extent child) :=
      fun child member => inRange child (Finset.mem_union_right _ member)
    rw [run_append]
    intro axis member
    rcases Finset.mem_union.mp member with old | new
    · refine ih (fun before inside => fits before (List.mem_append_left _ inside))
        (fun before inside => flows before (List.mem_append_left _ inside)) ?_ axis old
      intro leaf isLeaf
      by_cases isParent : leaf ∈ relation.parents
      · exact ⟨up_low (fits relation last) (fun child inside => (children child inside).1) isParent,
          up_high (fits relation last) (flows relation last) children isParent⟩
      · rw [up_of_notMem isParent]
        exact inRange leaf (Finset.mem_union_left _ (Finset.mem_sdiff.mpr ⟨isLeaf, isParent⟩))
    · have unknown := Finset.disjoint_left.mp fresh new
      rw [derived.run_of_leaf (.inr unknown), up_of_notMem fun isParent =>
        unknown (derived.leaves_subset (fromLeaves isParent))]
      exact children axis new

/-- With the flag an axis is in range if each of them is checked that is not the child of a
shift. -/
theorem Derived.run_flagged {flagged : Axis → Bool} {checked : Axis → Prop}
    (derived : Derived roots relations leaves known)
    (fits : ∀ relation ∈ relations, relation.Fits bounds)
    (flows : ∀ relation ∈ relations, relation.Flows bounds flagged)
    (roots_checked : ∀ root ∈ roots, checked root)
    (children_checked : ∀ relation ∈ relations, ∀ child ∈ relation.children,
      checked child ∨ ∃ parent, relation = .shift parent child)
    {values : Axis → Int}
    (guards : ∀ axis ∈ known, checked axis → flagged axis = true →
      run bounds relations values axis < bounds.low axis + bounds.extent axis) :
    ∀ axis ∈ known, flagged axis = true →
      run bounds relations values axis < bounds.low axis + bounds.extent axis := by
  induction derived generalizing values with
  | start => exact fun axis member => guards axis member (roots_checked axis member)
  | @step relations leaves known relation derived _ fromLeaves fresh ih =>
    have last : relation ∈ relations ++ [relation] :=
      List.mem_append_right _ (List.mem_singleton_self _)
    rw [run_append] at guards ⊢
    have before := ih (fun before inside => fits before (List.mem_append_left _ inside))
      (fun before inside => flows before (List.mem_append_left _ inside))
      (fun before inside => children_checked before (List.mem_append_left _ inside))
      (fun axis member => guards axis (Finset.mem_union_left _ member))
    intro axis member flag
    rcases Finset.mem_union.mp member with old | new
    · exact before axis old flag
    · rcases children_checked relation last axis new with isChecked | ⟨parent, rfl⟩
      · exact guards axis member isChecked flag
      · have isLeaf : parent ∈ leaves := fromLeaves (Finset.mem_singleton_self _)
        have flowsLast : flagged parent = flagged axis := flows _ last
        have upper := before parent (derived.leaves_subset isLeaf) (flowsLast.trans flag)
        rw [derived.run_of_leaf (.inl isLeaf)] at upper
        have unknown := Finset.disjoint_left.mp fresh new
        rw [derived.run_of_leaf (.inr unknown), up_of_notMem fun isParent =>
          unknown (derived.leaves_subset (fromLeaves isParent))]
        exact child_lt_of_shift (fits _ last) upper

end AxisRelation

end Tvm.Lib
