import Mathlib
import Tvm.Arith.IntConstraints

/-!
# The region that an affine map touches

`EvalIterSum` and `EstimateRegionStrictBound` of `int_set.cc`, over mathematical integers, with what
`DetectIterMap` finds.  The test that compares the extent with the scale does not look at how far a
negative scale steps.
-/

namespace Tvm.Arith

open PrimExpr

/-- A split that runs over `[0, extent)`; its scale is the literal that `TryFuseIters` takes for its
base. -/
structure IterSplitExpr where
  extent : PrimExpr
  scale : Int
  deriving DecidableEq

structure IterSumExpr where
  args : List IterSplitExpr
  base : PrimExpr
  deriving DecidableEq

/-- `detectIterMap` gives the indices of `DetectIterMap` at the level `Surjective`, none where it
fails; `canProve` is asked of what is no literal. -/
structure RegionAnalyzer where
  detectIterMap : List PrimExpr → Ranges → PrimExpr → List IterSumExpr
  canProve : PrimExpr → Bool

def fromMinExtent (min extent : PrimExpr) : IntervalSet :=
  if extent = .intImm 1 then .singlePoint min
  else ⟨.expr min, .expr (make .sub (make .add extent min) (.intImm 1))⟩

def isConstNumber : PrimExpr → Bool
  | .intImm _ => true
  | _ => false

section Model

variable (analyzer : RegionAnalyzer)

def RegionAnalyzer.proves : PrimExpr → Bool
  | .intImm value => value ≠ 0
  | e => analyzer.canProve e

/-- `EvalIterSum`; the outer `none` is a failed check. -/
def evalIterSum (iterMin : IterSumExpr) (extent : PrimExpr) : Option (Option IntervalSet) :=
  match iterMin.args with
  | [] => some (some (fromMinExtent iterMin.base extent))
  | [split] =>
    if analyzer.proves (make .ge extent (.intImm split.scale)) then
      let varExtent := make .mul (make .sub split.extent (.intImm 1)) (.intImm split.scale)
      if analyzer.proves (make .lt (.intImm split.scale) (.intImm 0)) then
        some (some (fromMinExtent (make .add iterMin.base varExtent) (make .sub extent varExtent)))
      else some (some (fromMinExtent iterMin.base (make .add extent varExtent)))
    else some none
  | _ => none

def evalIterSums : List (IterSumExpr × Range) → Option (Option (List IntervalSet))
  | [] => some (some [])
  | (sum, range) :: rest => do
    match ← evalIterSum analyzer sum range.extent with
    | none => some none
    | some set => do
      let sets ← evalIterSums rest
      some (sets.map fun sets => set :: sets)

/-- `EstimateRegionStrictBound`, and `EstimateRegionLowerBound`, which is the same. -/
def estimateRegionStrictBound (region : List Range) (varDom : Ranges) (predicate : PrimExpr) :
    Option (Option (List IntervalSet)) :=
  if region.all fun range => isConstNumber range.extent then
    match analyzer.detectIterMap (region.map Range.min) varDom predicate with
    | [] => some none
    | sums => if sums.length = region.length then evalIterSums analyzer (sums.zip region) else none
  else some none

end Model

section Semantics

variable (interp : Nat → Env → Option Int)

def Range.Touches (env : Env) (range : Range) (x : Int) : Prop :=
  ∃ low extent, range.min.eval interp env = some low ∧ range.extent.eval interp env = some extent ∧
    low ≤ x ∧ x < low + extent

/-- The assignments in range that satisfy the predicate and give the other variables the values they
have outside. -/
structure Assigns (varDom : Ranges) (predicate : PrimExpr) (env env' : Env) : Prop where
  others : ∀ v, varDom.lookup v = none → env' v = env v
  ranges : ∀ v range, varDom.lookup v = some range → range.Touches interp env' (env' v)
  holds : ∃ p, predicate.eval interp env' = some p ∧ p ≠ 0

/-- The box that the region touches.  A point has a coordinate for each dimension. -/
def InBox (env : Env) (region : List Range) (point : Nat → Int) : Prop :=
  ∀ (i : Nat) (range : Range), region[i]? = some range → range.Touches interp env (point i)

def InProduct (env : Env) (sets : List IntervalSet) (point : Nat → Int) : Prop :=
  ∀ (i : Nat) (set : IntervalSet), sets[i]? = some set → set.Contains interp env (point i)

def IterSumExpr.Reaches (env : Env) (sum : IterSumExpr) (v : Int) : Prop :=
  ∃ base, sum.base.eval interp env = some base ∧
    match sum.args with
    | [] => v = base
    | [split] => ∃ extent y, split.extent.eval interp env = some extent ∧ 0 ≤ y ∧ y < extent ∧
        v = base + y * split.scale
    | _ => False

/-- What `DetectIterMap` promises: one iterator at most in each index, which is its sum in every
assignment, and any values of the iterators are reached together. -/
structure Surjective (varDom : Ranges) (predicate : PrimExpr) (env : Env) (indices : List PrimExpr)
    (sums : List IterSumExpr) : Prop where
  covers : ∀ env', Assigns interp varDom predicate env env' →
    ∀ (i : Nat) (index : PrimExpr) (sum : IterSumExpr), indices[i]? = some index → sums[i]? = some sum →
      ∃ v, index.eval interp env' = some v ∧ sum.Reaches interp env v
  onto : ∀ values : Nat → Int,
    (∀ (i : Nat) (sum : IterSumExpr), sums[i]? = some sum → sum.Reaches interp env (values i)) →
      ∃ env', Assigns interp varDom predicate env env' ∧
        ∀ (i : Nat) (index : PrimExpr), indices[i]? = some index → index.eval interp env' = some (values i)

/-- The steps of the iterator are no longer than the extent backwards either, or there are none. -/
def Contiguous (env : Env) (sum : IterSumExpr) (extent : Int) : Prop :=
  ∀ split ∈ sum.args, ∀ count, split.extent.eval interp env = some count →
    count ≤ 1 ∨ -extent ≤ split.scale

end Semantics

section Strides

variable {base scale count extent x : Int}

def Strided (base scale count extent x : Int) : Prop :=
  ∃ y, 0 ≤ y ∧ y < count ∧ base + y * scale ≤ x ∧ x < base + y * scale + extent

theorem strided_forward (nonneg : 0 ≤ scale) (short : scale ≤ extent) (present : 0 < count) :
    Strided base scale count extent x ↔ base ≤ x ∧ x < base + (count - 1) * scale + extent := by
  constructor
  · rintro ⟨y, low, high, lower, upper⟩
    have first : 0 ≤ y * scale := mul_nonneg low nonneg
    have last : y * scale ≤ (count - 1) * scale := mul_le_mul_of_nonneg_right (by omega) nonneg
    omega
  · rintro ⟨lower, upper⟩
    rcases nonneg.eq_or_lt with rfl | positive
    · exact ⟨0, le_rfl, present, by omega, by omega⟩
    · have quotient := Int.mul_ediv_add_emod (x - base) scale
      have remainder := Int.emod_nonneg (x - base) positive.ne'
      have small := Int.emod_lt_of_pos (x - base) positive
      have steps : 0 ≤ (x - base) / scale := Int.ediv_nonneg (by omega) nonneg
      rcases lt_or_ge ((x - base) / scale) count with inside | beyond
      · refine ⟨(x - base) / scale, steps, inside, ?_, ?_⟩
        · linarith [mul_comm scale ((x - base) / scale)]
        · linarith [mul_comm scale ((x - base) / scale)]
      · refine ⟨count - 1, by omega, by omega, ?_, upper⟩
        have further : (count - 1) * scale ≤ (x - base) / scale * scale :=
          mul_le_mul_of_nonneg_right (by omega) nonneg
        linarith [mul_comm scale ((x - base) / scale)]

theorem strided_reverse : Strided base scale count extent x ↔
    Strided (base + (count - 1) * scale) (-scale) count extent x := by
  have turn : ∀ y, base + (count - 1) * scale + (count - 1 - y) * -scale = base + y * scale := by
    intro y
    ring
  constructor
  · rintro ⟨y, low, high, inside⟩
    exact ⟨count - 1 - y, by omega, by omega, by rw [turn]; exact inside⟩
  · rintro ⟨y, low, high, inside⟩
    refine ⟨count - 1 - y, by omega, by omega, ?_⟩
    rw [← turn, sub_sub_cancel]
    exact inside

theorem strided_one (single : count = 1) :
    Strided base scale count extent x ↔ base ≤ x ∧ x < base + extent := by
  subst single
  constructor
  · rintro ⟨y, low, high, inside⟩
    obtain rfl : y = 0 := by omega
    simpa using inside
  · intro inside
    exact ⟨0, le_rfl, one_pos, by simpa using inside⟩

/-- Backward steps leave no gap exactly where they are no longer than the interval. -/
theorem strided_backward (negative : scale < 0) (present : 0 < count) (nonempty : 0 < extent) :
    (∀ x, base + (count - 1) * scale ≤ x ∧ x < base + extent ↔ Strided base scale count extent x) ↔
      count ≤ 1 ∨ -extent ≤ scale := by
  constructor
  · intro exact
    by_contra gap
    push Not at gap
    have before : base + (count - 1) * scale ≤ base - 1 := by nlinarith
    obtain ⟨y, low, high, lower, upper⟩ := (exact (base - 1)).mp ⟨before, by omega⟩
    rcases low.eq_or_lt with rfl | stepped
    · omega
    · have further : y * scale ≤ 1 * scale := mul_le_mul_of_nonpos_right stepped negative.le
      omega
  · rintro (single | short) x
    · rw [strided_one (by omega), show count = 1 by omega]
      simp
    · rw [strided_reverse, strided_forward (by omega) (by omega) present]
      have whole : base + (count - 1) * scale + (count - 1) * -scale = base := by ring
      rw [whole]

theorem Strided.within (strided : Strided base scale count extent x) :
    if scale < 0 then base + (count - 1) * scale ≤ x ∧ x < base + extent
    else base ≤ x ∧ x < base + (count - 1) * scale + extent := by
  obtain ⟨y, low, high, lower, upper⟩ := strided
  split
  · rename_i negative
    have first : y * scale ≤ 0 := mul_nonpos_of_nonneg_of_nonpos low negative.le
    have last : (count - 1) * scale ≤ y * scale := mul_le_mul_of_nonpos_right (by omega) negative.le
    omega
  · rename_i nonneg
    have first : 0 ≤ y * scale := mul_nonneg low (by omega)
    have last : y * scale ≤ (count - 1) * scale := mul_le_mul_of_nonneg_right (by omega) (by omega)
    omega

/-- Between the first and the last one there is nothing else exactly where the steps are no longer
than the intervals. -/
theorem strided_exact_iff (present : 0 < count) (nonempty : 0 < extent) (short : scale ≤ extent) :
    (∀ x, (if scale < 0 then base + (count - 1) * scale ≤ x ∧ x < base + extent
        else base ≤ x ∧ x < base + (count - 1) * scale + extent) ↔
      Strided base scale count extent x) ↔ count ≤ 1 ∨ -extent ≤ scale := by
  split
  · rename_i negative
    exact strided_backward negative present nonempty
  · rename_i nonneg
    refine iff_of_true (fun x => (strided_forward (by omega) short present).symm) (.inr (by omega))

end Strides

section Dimension

variable {interp : Nat → Env → Option Int} {env : Env} {analyzer : RegionAnalyzer}
  {sum : IterSumExpr} {split : IterSplitExpr} {min extent : PrimExpr} {set : IntervalSet}
  {base count n v x : Int}

theorem fromMinExtent_contains (isMin : min.eval interp env = some v)
    (isExtent : extent.eval interp env = some n) :
    (fromMinExtent min extent).Contains interp env x ↔ v ≤ x ∧ x < v + n := by
  have bounds : ∀ (upper : PrimExpr) (last : Int), upper.eval interp env = some last →
      (IntervalSet.Contains interp env ⟨.expr min, .expr upper⟩ x ↔ v ≤ x ∧ x ≤ last) := by
    intro upper last isUpper
    constructor
    · rintro ⟨⟨v', isMin', lower⟩, last', isUpper', above⟩
      cases isMin.symm.trans isMin'
      cases isUpper.symm.trans isUpper'
      exact ⟨lower, above⟩
    · rintro ⟨lower, above⟩
      exact ⟨⟨v, isMin, lower⟩, last, isUpper, above⟩
  rw [fromMinExtent]
  split
  · rename_i one
    subst one
    cases isExtent
    exact (bounds min v isMin).trans (by omega)
  · have isSum : (make .add extent min).eval interp env = some (n + v) :=
      eval_make isExtent isMin (admits_int rfl n v) rfl
    have isLast : (make .sub (make .add extent min) (.intImm 1)).eval interp env =
        some (n + v - 1) := eval_make isSum rfl (admits_int rfl _ _) rfl
    exact (bounds _ _ isLast).trans (by omega)

theorem proves_negative (analyzer : RegionAnalyzer) (scale : Int) :
    analyzer.proves (make .lt (.intImm scale) (.intImm 0)) = true ↔ scale < 0 := by
  have folded : make .lt (.intImm scale) (.intImm 0) = .intImm (truth (scale < 0)) := rfl
  rw [folded, RegionAnalyzer.proves, decide_eq_true_eq, truth_ne_zero]

theorem proves_extent (analyzer : RegionAnalyzer) (extent scale : Int) :
    analyzer.proves (make .ge (.intImm extent) (.intImm scale)) = true ↔ scale ≤ extent := by
  have folded : make .ge (.intImm extent) (.intImm scale) = .intImm (truth (extent ≥ scale)) := rfl
  rw [folded, RegionAnalyzer.proves, decide_eq_true_eq, truth_ne_zero]

theorem evalIterSum_eq (args : sum.args = [split]) : evalIterSum analyzer sum extent =
    if analyzer.proves (make .ge extent (.intImm split.scale)) then
      if analyzer.proves (make .lt (.intImm split.scale) (.intImm 0)) then
        some (some (fromMinExtent
          (make .add sum.base (make .mul (make .sub split.extent (.intImm 1)) (.intImm split.scale)))
          (make .sub extent (make .mul (make .sub split.extent (.intImm 1)) (.intImm split.scale)))))
      else some (some (fromMinExtent sum.base
        (make .add extent (make .mul (make .sub split.extent (.intImm 1)) (.intImm split.scale)))))
    else some none := by
  rw [evalIterSum, args]

theorem evalIterSum_split (args : sum.args = [split]) (isBase : sum.base.eval interp env = some base)
    (isCount : split.extent.eval interp env = some count)
    (isExtent : extent.eval interp env = some n)
    (made : evalIterSum analyzer sum extent = some (some set)) : set.Contains interp env x ↔
      if split.scale < 0 then base + (count - 1) * split.scale ≤ x ∧ x < base + n
      else base ≤ x ∧ x < base + (count - 1) * split.scale + n := by
  have isLess : (make .sub split.extent (.intImm 1)).eval interp env = some (count - 1) :=
    eval_make isCount rfl (admits_int rfl _ _) rfl
  have isVarExtent : (make .mul (make .sub split.extent (.intImm 1)) (.intImm split.scale)).eval
      interp env = some ((count - 1) * split.scale) :=
    eval_make isLess rfl (admits_int rfl _ _) rfl
  rw [evalIterSum_eq args] at made
  split at made
  · split at made
    · rename_i negative
      cases made
      rw [if_pos ((proves_negative analyzer _).mp negative), fromMinExtent_contains
        (eval_make isBase isVarExtent (admits_int rfl _ _) rfl)
        (eval_make isExtent isVarExtent (admits_int rfl _ _) rfl)]
      omega
    · rename_i nonneg
      cases made
      rw [if_neg ((proves_negative analyzer _).not.mp nonneg), fromMinExtent_contains isBase
        (eval_make isExtent isVarExtent (admits_int rfl _ _) rfl)]
      omega
  · cases made

theorem reaches_split (args : sum.args = [split]) (isBase : sum.base.eval interp env = some base)
    (isCount : split.extent.eval interp env = some count) :
    (∃ v, sum.Reaches interp env v ∧ v ≤ x ∧ x < v + n) ↔
      Strided base split.scale count n x := by
  constructor
  · rintro ⟨v, ⟨base', isBase', reaches⟩, inside⟩
    rw [args] at reaches
    obtain ⟨count', y, isCount', low, high, rfl⟩ := reaches
    cases isBase.symm.trans isBase'
    cases isCount.symm.trans isCount'
    exact ⟨y, low, high, inside⟩
  · rintro ⟨y, low, high, inside⟩
    refine ⟨base + y * split.scale, ⟨base, isBase, ?_⟩, inside⟩
    rw [args]
    exact ⟨count, y, isCount, low, high, rfl⟩

theorem reaches_base (args : sum.args = []) :
    sum.Reaches interp env v ↔ sum.base.eval interp env = some v := by
  constructor
  · rintro ⟨base, isBase, is⟩
    rw [args] at is
    exact is ▸ isBase
  · intro isBase
    refine ⟨v, isBase, ?_⟩
    rw [args]

theorem evalIterSum_covers (reaches : sum.Reaches interp env v)
    (isExtent : extent.eval interp env = some n)
    (made : evalIterSum analyzer sum extent = some (some set)) (lower : v ≤ x) (upper : x < v + n) :
    set.Contains interp env x := by
  have touched : ∃ v, sum.Reaches interp env v ∧ v ≤ x ∧ x < v + n := ⟨v, reaches, lower, upper⟩
  have ⟨base, isBase, is⟩ := reaches
  cases args : sum.args with
  | nil =>
    rw [evalIterSum, args] at made
    cases made
    exact (fromMinExtent_contains ((reaches_base args).mp reaches) isExtent).mpr ⟨lower, upper⟩
  | cons split others =>
    cases others with
    | nil =>
      rw [args] at is
      obtain ⟨count, -, isCount, -⟩ := is
      rw [evalIterSum_split args isBase isCount isExtent made]
      exact ((reaches_split args isBase isCount).mp touched).within
    | cons =>
      rw [args] at is
      exact is.elim

/-- The interval of a dimension is what is touched exactly where the steps leave no gap. -/
theorem evalIterSum_exact_iff (reaches : sum.Reaches interp env v) (nonempty : 1 ≤ n)
    (made : evalIterSum analyzer sum (.intImm n) = some (some set)) :
    (∀ x, set.Contains interp env x ↔ ∃ v, sum.Reaches interp env v ∧ v ≤ x ∧ x < v + n) ↔
      Contiguous interp env sum n := by
  have ⟨base, isBase, is⟩ := reaches
  cases args : sum.args with
  | nil =>
    apply iff_of_true
    · intro x
      rw [evalIterSum, args] at made
      cases made
      rw [fromMinExtent_contains isBase rfl]
      constructor
      · exact fun inside => ⟨base, (reaches_base args).mpr isBase, inside⟩
      · rintro ⟨v, reaches, inside⟩
        cases isBase.symm.trans ((reaches_base args).mp reaches)
        exact inside
    · intro split member
      rw [args] at member
      cases member
  | cons split others =>
    cases others with
    | nil =>
      rw [args] at is
      obtain ⟨count, y, isCount, low, high, -⟩ := is
      have short : split.scale ≤ n := by
        rw [evalIterSum_eq args] at made
        split at made
        · rename_i proved
          exact (proves_extent analyzer _ _).mp proved
        · cases made
      have contiguous : Contiguous interp env sum n ↔ count ≤ 1 ∨ -n ≤ split.scale := by
        constructor
        · intro each
          exact each split (args ▸ List.mem_singleton_self split) count isCount
        · intro short split' member count' isCount'
          rw [args] at member
          cases List.mem_singleton.mp member
          cases isCount.symm.trans isCount'
          exact short
      have interval : ∀ x, set.Contains interp env x ↔ _ := fun x =>
        evalIterSum_split args isBase isCount rfl made
      simp only [interval, reaches_split args isBase isCount, contiguous]
      exact strided_exact_iff (by omega) (by omega) short
    | cons =>
      rw [args] at is
      exact is.elim

end Dimension

section Region

variable {interp : Nat → Env → Option Int} {env env' : Env} {analyzer : RegionAnalyzer}
  {varDom : Ranges} {predicate : PrimExpr} {region : List Range} {sums : List IterSumExpr}
  {sets : List IntervalSet} {point : Nat → Int}

theorem evalIterSums_get {pairs : List (IterSumExpr × Range)}
    (made : evalIterSums analyzer pairs = some (some sets)) (i : Nat) :
    (pairs[i]? = none ∧ sets[i]? = none) ∨ ∃ sum range set, pairs[i]? = some (sum, range) ∧
      sets[i]? = some set ∧ evalIterSum analyzer sum range.extent = some (some set) := by
  induction pairs generalizing sets i with
  | nil =>
    cases made
    exact .inl ⟨rfl, rfl⟩
  | cons pair rest ih =>
    obtain ⟨sum, range⟩ := pair
    obtain ⟨found, first, made⟩ := Option.bind_eq_some_iff.mp made
    cases found with
    | none => cases made
    | some set =>
      obtain ⟨others, later, made⟩ := Option.bind_eq_some_iff.mp made
      obtain ⟨others', rfl, rfl⟩ := Option.map_eq_some_iff.mp (Option.some.inj made)
      cases i with
      | zero => exact .inr ⟨sum, range, set, rfl, rfl, first⟩
      | succ i => exact ih later i

theorem estimateRegionStrictBound_found
    (found : estimateRegionStrictBound analyzer region varDom predicate = some (some sets)) :
    ∃ sums, analyzer.detectIterMap (region.map Range.min) varDom predicate = sums ∧ sums ≠ [] ∧
      sums.length = region.length ∧ evalIterSums analyzer (sums.zip region) = some (some sets) := by
  rw [estimateRegionStrictBound] at found
  split at found
  · split at found
    · cases found
    · rename_i detected
      split at found
      · rename_i same
        exact ⟨_, rfl, detected, same, found⟩
      · cases found
  · cases found

structure Dimension (analyzer : RegionAnalyzer) (region : List Range) (sums : List IterSumExpr)
    (sets : List IntervalSet) (i : Nat) (sum : IterSumExpr) (range : Range) (set : IntervalSet) :
    Prop where
  isSum : sums[i]? = some sum
  isRange : region[i]? = some range
  isSet : sets[i]? = some set
  made : evalIterSum analyzer sum range.extent = some (some set)

theorem exists_dimension (same : sums.length = region.length)
    (made : evalIterSums analyzer (sums.zip region) = some (some sets)) (i : Nat) :
    (sums[i]? = none ∧ region[i]? = none ∧ sets[i]? = none) ∨
      ∃ sum range set, Dimension analyzer region sums sets i sum range set := by
  rcases evalIterSums_get made i with ⟨beyond, none⟩ | ⟨sum, range, set, found, isSet, made⟩
  · have late : sums.length ≤ i := by
      rw [List.getElem?_eq_none_iff, List.length_zip] at beyond
      omega
    exact .inl ⟨List.getElem?_eq_none late, List.getElem?_eq_none (same ▸ late), none⟩
  · obtain ⟨isSum, isRange⟩ := List.getElem?_zip_eq_some.mp found
    exact .inr ⟨sum, range, set, isSum, isRange, isSet, made⟩

def touchedAt (interp : Nat → Env → Option Int) (env : Env) (region : List Range)
    (sums : List IterSumExpr) (i : Nat) : Set Int :=
  {x | ∀ sum range, sums[i]? = some sum → region[i]? = some range →
    ∃ v n, sum.Reaches interp env v ∧ range.extent = .intImm n ∧ v ≤ x ∧ x < v + n}

def intervalAt (interp : Nat → Env → Option Int) (env : Env) (sets : List IntervalSet) (i : Nat) :
    Set Int :=
  {x | ∀ set, sets[i]? = some set → set.Contains interp env x}

theorem inProduct_iff : InProduct interp env sets point ↔
    point ∈ Set.univ.pi (intervalAt interp env sets) :=
  ⟨fun inside i _ => inside i, fun inside i => inside i trivial⟩

theorem touches_iff (extents : ∀ range ∈ region, ∃ n, range.extent = .intImm n ∧ 1 ≤ n)
    (same : sums.length = region.length)
    (sound : Surjective interp varDom predicate env (region.map Range.min) sums) :
    (∃ env', Assigns interp varDom predicate env env' ∧ InBox interp env' region point) ↔
      point ∈ Set.univ.pi (touchedAt interp env region sums) := by
  rw [Set.mem_univ_pi]
  have index : ∀ (i : Nat) (range : Range), region[i]? = some range →
      (region.map Range.min)[i]? = some range.min := by
    intro i range isRange
    rw [List.getElem?_map, isRange, Option.map_some]
  constructor
  · rintro ⟨env', assigns, inBox⟩ i sum range isSum isRange
    obtain ⟨low, n, isLow, isExtent, inside⟩ := inBox i range isRange
    obtain ⟨v, isIndex, reaches⟩ := sound.covers env' assigns i _ sum (index i range isRange) isSum
    cases isLow.symm.trans isIndex
    obtain ⟨n', literal, -⟩ := extents range (List.mem_of_getElem? isRange)
    rw [literal] at isExtent
    cases isExtent
    exact ⟨low, _, reaches, literal, inside⟩
  · intro inside
    have each : ∀ i, ∃ v, (∀ sum, sums[i]? = some sum → sum.Reaches interp env v) ∧
        ∀ range, region[i]? = some range → ∃ n, range.extent = .intImm n ∧ v ≤ point i ∧
          point i < v + n := by
      intro i
      rcases lt_or_ge i region.length with here | beyond
      · have isRange := List.getElem?_eq_getElem here
        have isSum := List.getElem?_eq_getElem (same ▸ here)
        obtain ⟨v, n, reaches, literal, touched⟩ := inside i _ _ isSum isRange
        refine ⟨v, fun sum isSum' => ?_, fun range isRange' => ?_⟩
        · cases isSum.symm.trans isSum'
          exact reaches
        · cases isRange.symm.trans isRange'
          exact ⟨n, literal, touched⟩
      · refine ⟨0, fun sum isSum => ?_, fun range isRange => ?_⟩
        · rw [List.getElem?_eq_none (same ▸ beyond)] at isSum
          cases isSum
        · rw [List.getElem?_eq_none beyond] at isRange
          cases isRange
    choose values reaches touched using each
    obtain ⟨env', assigns, isIndex⟩ := sound.onto values reaches
    refine ⟨env', assigns, fun i range isRange => ?_⟩
    obtain ⟨n, literal, lower, upper⟩ := touched i range isRange
    exact ⟨values i, n, isIndex i _ (index i range isRange), by rw [literal]; rfl, lower, upper⟩

theorem pi_eq_iff {first second : Nat → Set Int} (nonempty : ∀ i, (second i).Nonempty)
    (within : ∀ i, second i ⊆ first i) :
    (∀ point, point ∈ Set.univ.pi first ↔ point ∈ Set.univ.pi second) ↔
      ∀ i, first i = second i := by
  constructor
  · intro same i
    have subset : Set.univ.pi first ⊆ Set.univ.pi second := fun point => (same point).mp
    rcases Set.univ_pi_subset_univ_pi_iff.mp subset with each | ⟨j, empty⟩
    · exact (each i).antisymm (within i)
    · exact absurd ((nonempty j).mono (within j)) (Set.not_nonempty_iff_eq_empty.mpr empty)
  · intro same point
    rw [funext same]

theorem touchedAt_nonempty (extents : ∀ range ∈ region, ∃ n, range.extent = .intImm n ∧ 1 ≤ n)
    (satisfied : ∃ env', Assigns interp varDom predicate env env')
    (sound : Surjective interp varDom predicate env (region.map Range.min) sums)
    (same : sums.length = region.length) (i : Nat) :
    (touchedAt interp env region sums i).Nonempty := by
  rcases lt_or_ge i region.length with here | beyond
  · obtain ⟨env', assigns⟩ := satisfied
    have isRange := List.getElem?_eq_getElem here
    have isSum := List.getElem?_eq_getElem (same ▸ here)
    have index : (region.map Range.min)[i]? = some region[i].min := by
      rw [List.getElem?_map, isRange, Option.map_some]
    obtain ⟨v, -, reaches⟩ := sound.covers env' assigns i _ _ index isSum
    obtain ⟨n, literal, positive⟩ := extents _ (List.getElem_mem here)
    refine ⟨v, fun sum range isSum' isRange' => ⟨v, n, ?_⟩⟩
    cases isSum.symm.trans isSum'
    cases isRange.symm.trans isRange'
    exact ⟨reaches, literal, le_rfl, by omega⟩
  · refine ⟨0, fun sum range isSum isRange => ?_⟩
    rw [List.getElem?_eq_none beyond] at isRange
    cases isRange

/-- The intervals are exactly what is touched where, and only where, no iterator steps backwards over
more than the extent. -/
theorem estimateRegionStrictBound_exact_iff
    (extents : ∀ range ∈ region, ∃ n, range.extent = .intImm n ∧ 1 ≤ n)
    (satisfied : ∃ env', Assigns interp varDom predicate env env')
    (sound : analyzer.detectIterMap (region.map Range.min) varDom predicate ≠ [] →
      Surjective interp varDom predicate env (region.map Range.min)
        (analyzer.detectIterMap (region.map Range.min) varDom predicate))
    (found : estimateRegionStrictBound analyzer region varDom predicate = some (some sets)) :
    (∀ point, InProduct interp env sets point ↔
      ∃ env', Assigns interp varDom predicate env env' ∧ InBox interp env' region point) ↔
      ∀ (i : Nat) (sum : IterSumExpr) (range : Range) (n : Int),
        (analyzer.detectIterMap (region.map Range.min) varDom predicate)[i]? = some sum →
        region[i]? = some range → range.extent = .intImm n → Contiguous interp env sum n := by
  obtain ⟨sums, detected, present, same, made⟩ := estimateRegionStrictBound_found found
  rw [detected] at sound ⊢
  have surjective := sound present
  -- in each dimension
  have each : ∀ i sum range set n, Dimension analyzer region sums sets i sum range set →
      range.extent = .intImm n →
      (∀ x, x ∈ intervalAt interp env sets i ↔ set.Contains interp env x) ∧
      (∀ x, x ∈ touchedAt interp env region sums i ↔
        ∃ v, sum.Reaches interp env v ∧ v ≤ x ∧ x < v + n) := by
    intro i sum range set n dimension literal
    refine ⟨fun x => ⟨fun inside => inside set dimension.isSet, fun contains set' isSet => ?_⟩,
      fun x => ⟨fun touched => ?_, fun touched sum' range' isSum isRange => ?_⟩⟩
    · cases dimension.isSet.symm.trans isSet
      exact contains
    · obtain ⟨v, n', reaches, literal', inside⟩ := touched sum range dimension.isSum dimension.isRange
      cases literal.symm.trans literal'
      exact ⟨v, reaches, inside⟩
    · cases dimension.isSum.symm.trans isSum
      cases dimension.isRange.symm.trans isRange
      obtain ⟨v, reaches, inside⟩ := touched
      exact ⟨v, n, reaches, literal, inside⟩
  have literal : ∀ i sum range set, Dimension analyzer region sums sets i sum range set →
      ∃ n, range.extent = .intImm n ∧ 1 ≤ n := fun i sum range set dimension =>
    extents range (List.mem_of_getElem? dimension.isRange)
  have nonempty := touchedAt_nonempty extents satisfied surjective same
  have within : ∀ i, touchedAt interp env region sums i ⊆ intervalAt interp env sets i := by
    intro i x touched
    rcases exists_dimension same made i with ⟨-, -, none⟩ | ⟨sum, range, set, dimension⟩
    · intro set isSet
      rw [none] at isSet
      cases isSet
    · obtain ⟨n, isLiteral, -⟩ := literal i sum range set dimension
      have ⟨interval, reached⟩ := each i sum range set n dimension isLiteral
      obtain ⟨v, reaches, lower, upper⟩ := (reached x).mp touched
      have isExtent : range.extent.eval interp env = some n := by
        rw [isLiteral]
        rfl
      exact (interval x).mpr (evalIterSum_covers reaches isExtent dimension.made lower upper)
  simp only [inProduct_iff, touches_iff extents same surjective]
  rw [pi_eq_iff nonempty within]
  constructor
  · intro equal i sum range n isSum isRange isLiteral
    rcases exists_dimension same made i with ⟨none, -⟩ | ⟨sum', range', set, dimension⟩
    · rw [none] at isSum
      cases isSum
    · cases dimension.isSum.symm.trans isSum
      cases dimension.isRange.symm.trans isRange
      obtain ⟨n', isLiteral', positive⟩ := literal i _ _ set dimension
      cases isLiteral.symm.trans isLiteral'
      have ⟨interval, reached⟩ := each i _ _ set n dimension isLiteral
      obtain ⟨x, touched⟩ := nonempty i
      obtain ⟨v, reaches, -⟩ := (reached x).mp touched
      have madeHere := dimension.made
      rw [isLiteral] at madeHere
      apply (evalIterSum_exact_iff reaches positive madeHere).mp
      intro x
      rw [← interval, ← reached, equal]
  · intro contiguous i
    rcases exists_dimension same made i with ⟨-, none, none'⟩ | ⟨sum, range, set, dimension⟩
    · ext x
      refine ⟨fun _ sum range _ isRange => ?_, fun _ set isSet => ?_⟩
      · rw [none] at isRange
        cases isRange
      · rw [none'] at isSet
        cases isSet
    · obtain ⟨n, isLiteral, positive⟩ := literal i sum range set dimension
      have ⟨interval, reached⟩ := each i sum range set n dimension isLiteral
      obtain ⟨x, touched⟩ := nonempty i
      obtain ⟨v, reaches, -⟩ := (reached x).mp touched
      have madeHere := dimension.made
      rw [isLiteral] at madeHere
      ext x
      rw [interval, reached]
      exact (evalIterSum_exact_iff reaches positive madeHere).mpr
        (contiguous i sum range n dimension.isSum dimension.isRange isLiteral) x

end Region

section Backwards

def stepsBack (extent : Int) : List Range :=
  [⟨.binary .mul (.var 0) (.intImm (-2)), .intImm extent⟩]

def belowThree : Ranges :=
  [(0, ⟨.intImm 0, .intImm 3⟩)]

/-- What `DetectIterMap` finds of it. -/
def stepAnalyzer : RegionAnalyzer where
  detectIterMap _ _ _ := [⟨[⟨.intImm 3, -2⟩], .intImm 0⟩]
  canProve _ := false

variable {interp : Nat → Env → Option Int} {env env' : Env}

theorem assigns_belowThree : Assigns interp belowThree (.intImm 1) env env' ↔
    (∀ v, v ≠ 0 → env' v = env v) ∧ 0 ≤ env' 0 ∧ env' 0 < 3 := by
  constructor
  · rintro ⟨others, ranges, -⟩
    obtain ⟨low, extent, isLow, isExtent, inside⟩ := ranges 0 _ rfl
    cases isLow
    cases isExtent
    refine ⟨fun v other => others v ?_, inside⟩
    exact List.lookup_eq_none_iff.mpr fun entry member => by
      cases List.mem_singleton.mp member
      exact bne_iff_ne.mpr other
  · rintro ⟨others, inside⟩
    refine ⟨fun v absent => others v ?_, fun v range found => ?_, 1, rfl, one_ne_zero⟩
    · rintro rfl
      cases absent
    · by_cases first : v = 0
      · subst first
        cases found
        exact ⟨0, 3, rfl, rfl, inside⟩
      · rw [belowThree, List.lookup_cons, beq_false_of_ne first] at found
        cases found

theorem stepsBack_surjective (extent : Int) (interp : Nat → Env → Option Int) (env : Env) :
    Surjective interp belowThree (.intImm 1) env ((stepsBack extent).map Range.min)
      (stepAnalyzer.detectIterMap ((stepsBack extent).map Range.min) belowThree (.intImm 1)) where
  covers env' assigns i index sum isIndex isSum := by
    have ⟨_, low, high⟩ := assigns_belowThree.mp assigns
    cases i with
    | zero =>
      cases isIndex
      cases isSum
      exact ⟨env' 0 * -2, rfl, 0, rfl, 3, env' 0, rfl, low, high, (zero_add _).symm⟩
    | succ i => cases isIndex
  onto values reaches := by
    obtain ⟨base, isBase, extent, y, isExtent, low, high, is⟩ := reaches 0 _ rfl
    cases isBase
    cases isExtent
    refine ⟨Function.update env 0 y, assigns_belowThree.mpr ⟨?_, ?_⟩, ?_⟩
    · exact fun v other => Function.update_of_ne other y env
    · rw [Function.update_self]
      exact ⟨low, high⟩
    · intro i index isIndex
      cases i with
      | zero =>
        cases isIndex
        rw [is, zero_add]
        exact congrArg some (congrArg (· * (-2 : Int)) (Function.update_self 0 y env))
      | succ i => cases isIndex

theorem satisfied_belowThree : ∃ env', Assigns (fun _ _ => none) belowThree (.intImm 1) (fun _ => 0) env' :=
  ⟨fun _ => 0, assigns_belowThree.mpr ⟨fun _ _ => rfl, le_rfl, three_pos⟩⟩

/-- Steps of two over an extent of two leave no gap. -/
theorem estimateRegionStrictBound_exact_stepsBack :
    ∃ sets, estimateRegionStrictBound stepAnalyzer (stepsBack 2) belowThree (.intImm 1) =
        some (some sets) ∧
      ∀ point, InProduct (fun _ _ => none) (fun _ => 0) sets point ↔
        ∃ env', Assigns (fun _ _ => none) belowThree (.intImm 1) (fun _ => 0) env' ∧
          InBox (fun _ _ => none) env' (stepsBack 2) point := by
  have extents : ∀ range ∈ stepsBack 2, ∃ n, range.extent = .intImm n ∧ 1 ≤ n := by
    intro range member
    cases List.mem_singleton.mp member
    exact ⟨2, rfl, one_le_two⟩
  have found : estimateRegionStrictBound stepAnalyzer (stepsBack 2) belowThree (.intImm 1) =
      some (some [⟨.expr (.intImm (-4)), .expr (.intImm 1)⟩]) := by decide +kernel
  refine ⟨_, found, ?_⟩
  apply (estimateRegionStrictBound_exact_iff extents satisfied_belowThree
    (fun _ => stepsBack_surjective 2 _ _) found).mpr
  intro i sum range n isSum isRange literal split member count isCount
  cases i with
  | zero =>
    cases isSum
    cases isRange
    cases literal
    cases List.mem_singleton.mp member
    exact .inr (by decide)
  | succ i => cases isRange

/-- Over an extent of one, `-1` is in the interval and not touched. -/
theorem estimateRegionStrictBound_gap :
    ∃ sets, estimateRegionStrictBound stepAnalyzer (stepsBack 1) belowThree (.intImm 1) =
        some (some sets) ∧
      (∃ env', Assigns (fun _ _ => none) belowThree (.intImm 1) (fun _ => 0) env') ∧
      Surjective (fun _ _ => none) belowThree (.intImm 1) (fun _ => 0)
        ((stepsBack 1).map Range.min)
        (stepAnalyzer.detectIterMap ((stepsBack 1).map Range.min) belowThree (.intImm 1)) ∧
      ¬∀ point, InProduct (fun _ _ => none) (fun _ => 0) sets point ↔
        ∃ env', Assigns (fun _ _ => none) belowThree (.intImm 1) (fun _ => 0) env' ∧
          InBox (fun _ _ => none) env' (stepsBack 1) point := by
  have found : estimateRegionStrictBound stepAnalyzer (stepsBack 1) belowThree (.intImm 1) =
      some (some [⟨.expr (.intImm (-4)), .expr (.intImm 0)⟩]) := by decide +kernel
  refine ⟨_, found, satisfied_belowThree, stepsBack_surjective 1 _ _, fun exact => ?_⟩
  have inside : InProduct (fun _ _ => none) (fun _ => 0)
      [⟨.expr (.intImm (-4)), .expr (.intImm 0)⟩] fun _ => -1 := by
    intro i set isSet
    cases i with
    | zero =>
      cases isSet
      exact ⟨⟨-4, rfl, by decide⟩, 0, rfl, by decide⟩
    | succ i => cases isSet
  obtain ⟨env', -, inBox⟩ := (exact fun _ => -1).mp inside
  obtain ⟨low, extent, isLow, isExtent, lower, upper⟩ := inBox 0 _ rfl
  have even : low = env' 0 * -2 := (Option.some.inj isLow).symm
  have one : extent = 1 := (Option.some.inj isExtent).symm
  have below : low ≤ -1 := lower
  have above : -1 < low + extent := upper
  omega

end Backwards

end Tvm.Arith
