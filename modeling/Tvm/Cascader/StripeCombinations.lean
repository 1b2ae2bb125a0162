import Tvm.Cascader.StripeCounts

/-!
# Combining the axes

What `MultiplyCombinations` makes of the sizes of the axes, and when `CountStripes` is the count
stripe by stripe.
-/

namespace Tvm.Cascader

open Lib

section Tuples

variable (keyOf : Axis → ℕ → Option Int)

/-- How many index tuples have a key on every axis. -/
def tupleCount : List Axis → List Int → ℕ
  | [], [] => 1
  | axis :: axes, key :: keys => keyCount (keyOf axis) axis.stripes key * tupleCount axes keys
  | [], _ :: _ => 0
  | _ :: _, [] => 0

theorem tupleCount_append (axes : List Axis) (axis : Axis) (keys : List Int) (key : Int) :
    tupleCount keyOf (axes ++ [axis]) (keys ++ [key]) =
      tupleCount keyOf axes keys * keyCount (keyOf axis) axis.stripes key := by
  induction axes generalizing keys with
  | nil =>
    cases keys with
    | nil => exact Nat.mul_comm _ _
    | cons first rest =>
      rw [List.nil_append, List.cons_append, tupleCount, tupleCount, Nat.zero_mul]
      cases rest with
      | nil => exact Nat.mul_zero _
      | cons second rest => exact Nat.mul_zero _
  | cons front axes ih =>
    cases keys with
    | nil =>
      rw [List.nil_append, List.cons_append, tupleCount, tupleCount, Nat.zero_mul]
      cases axes with
      | nil => exact Nat.mul_zero _
      | cons second rest => exact Nat.mul_zero _
    | cons first rest =>
      rw [List.cons_append, List.cons_append, tupleCount, ih, tupleCount,
        Nat.mul_assoc]

variable {keyOf}

theorem length_eq_of_tupleCount {axes : List Axis} {keys : List Int}
    (positive : 0 < tupleCount keyOf axes keys) : keys.length = axes.length := by
  induction axes generalizing keys with
  | nil =>
    cases keys with
    | nil => rfl
    | cons key keys => exact absurd positive (Nat.lt_irrefl 0)
  | cons axis axes ih =>
    cases keys with
    | nil => exact absurd positive (Nat.lt_irrefl 0)
    | cons key keys =>
      exact congrArg Nat.succ (ih (Nat.pos_of_mul_pos_left positive))

theorem tupleCount_congr {other : Axis → ℕ → Option Int} {axes : List Axis}
    (same : ∀ axis ∈ axes, ∀ i < axis.stripes, keyOf axis i = other axis i) (keys : List Int) :
    tupleCount keyOf axes keys = tupleCount other axes keys := by
  induction axes generalizing keys with
  | nil => cases keys <;> rfl
  | cons axis axes ih =>
    cases keys with
    | nil => rfl
    | cons key keys =>
      have first : keyCount (keyOf axis) axis.stripes key =
          keyCount (other axis) axis.stripes key := by
        unfold keyCount Nat.count
        refine List.countP_congr fun i inside => ?_
        rw [decide_eq_true_iff, decide_eq_true_iff]
        dsimp only
        rw [same axis List.mem_cons_self i (List.mem_range.mp inside)]
      rw [tupleCount, tupleCount, first, ih]
      intro other membership
      exact same other (List.mem_cons_of_mem _ membership)

theorem tupleCount_eq_zero {axes : List Axis} {axis : Axis} (membership : axis ∈ axes)
    (none : ∀ i < axis.stripes, keyOf axis i = none) (keys : List Int) :
    tupleCount keyOf axes keys = 0 := by
  induction axes generalizing keys with
  | nil => exact absurd membership List.not_mem_nil
  | cons first axes ih =>
    cases keys with
    | nil => rfl
    | cons key keys =>
      rw [tupleCount]
      rcases List.mem_cons.mp membership with rfl | inside
      · have zero : keyCount (keyOf axis) axis.stripes key = 0 := by
          refine Nat.count_iff_forall_not.mpr fun i less isKey => ?_
          rw [none i less] at isKey
          cases isKey
        rw [zero, Nat.zero_mul]
      · rw [ih inside, Nat.mul_zero]

/-- The keys of one axis are wrong, and the others have keys: there are tuples that should not be
there. -/
theorem exists_wrong_tuple (keyOf right : Axis → ℕ → Option Int) {axes : List Axis} {axis : Axis}
    (membership : axis ∈ axes)
    (wrong : ∃ key, 0 < keyCount (keyOf axis) axis.stripes key ∧
      keyCount (right axis) axis.stripes key = 0)
    (some_key : ∀ axis ∈ axes, ∃ key, 0 < keyCount (keyOf axis) axis.stripes key) :
    ∃ keys, 0 < tupleCount keyOf axes keys ∧ tupleCount right axes keys = 0 := by
  have some_tuple : ∀ axes : List Axis,
      (∀ axis ∈ axes, ∃ key, 0 < keyCount (keyOf axis) axis.stripes key) →
        ∃ keys, 0 < tupleCount keyOf axes keys := by
    intro axes some_key
    induction axes with
    | nil => exact ⟨[], Nat.one_pos⟩
    | cons first axes ih =>
      obtain ⟨key, positive⟩ := some_key first List.mem_cons_self
      obtain ⟨keys, rest⟩ := ih fun other inside =>
        some_key other (List.mem_cons_of_mem _ inside)
      exact ⟨key :: keys, Nat.mul_pos positive rest⟩
  induction axes with
  | nil => exact absurd membership List.not_mem_nil
  | cons first axes ih =>
    have rest : ∀ axis ∈ axes, ∃ key, 0 < keyCount (keyOf axis) axis.stripes key :=
      fun other inside => some_key other (List.mem_cons_of_mem _ inside)
    rcases List.mem_cons.mp membership with rfl | inside
    · obtain ⟨key, positive, zero⟩ := wrong
      obtain ⟨keys, restPositive⟩ := some_tuple axes rest
      refine ⟨key :: keys, Nat.mul_pos positive restPositive, ?_⟩
      rw [tupleCount, zero, Nat.zero_mul]
    · obtain ⟨key, positive⟩ := some_key first List.mem_cons_self
      obtain ⟨keys, restPositive, zero⟩ := ih inside rest
      refine ⟨key :: keys, Nat.mul_pos positive restPositive, ?_⟩
      rw [tupleCount, zero, Nat.mul_zero]

end Tuples

theorem pairCombinations_eq_some {sizes : List (Int × ℕ)} {combs newCombs : List (List Int × ℕ)} :
    pairCombinations sizes combs = some newCombs ↔
      (∀ comb ∈ newCombs, comb.2 ≤ 2147483647) ∧ newCombs = sizes.flatMap fun val =>
        combs.map fun comb => (comb.1 ++ [val.1], val.2 * comb.2) := by
  unfold pairCombinations
  rw [Option.ite_none_right_eq_some, Option.some.injEq]
  constructor
  · rintro ⟨fit, rfl⟩
    exact ⟨fit, rfl⟩
  · rintro ⟨fit, rfl⟩
    exact ⟨fit, rfl⟩

section Combinations

variable {keyOf : Axis → ℕ → Option Int}

theorem isTally_pair {sizes : List (Int × ℕ)} {combs : List (List Int × ℕ)} {axes : List Axis}
    {axis : Axis} (isCombs : IsTally combs (tupleCount keyOf axes))
    (isSizes : IsTally sizes (keyCount (keyOf axis) axis.stripes)) :
    IsTally (sizes.flatMap fun val => combs.map fun comb => (comb.1 ++ [val.1], val.2 * comb.2))
      (tupleCount keyOf (axes ++ [axis])) := by
  refine isCombs.product isSizes (fun keys key => keys ++ [key]) ?_ _ ?_ ?_
  · intro keys key others other same
    obtain ⟨front, back⟩ := List.append_inj' same rfl
    exact ⟨front, List.singleton_injective back⟩
  · intro keys key
    exact tupleCount_append keyOf axes axis keys key
  · intro keys positive
    have length := length_eq_of_tupleCount positive
    rw [List.length_append, List.length_singleton] at length
    rcases List.eq_nil_or_concat' keys with rfl | ⟨front, back, rfl⟩
    · exact absurd length (Nat.succ_ne_zero _).symm
    · exact ⟨front, back, rfl⟩

/-- The numbers of a tally fit if and only if the numbers that it counts do. -/
theorem isTally_bounded_iff {combs : List (List Int × ℕ)} {number : List Int → ℕ} {bound : ℕ}
    (isCombs : IsTally combs number) :
    (∀ comb ∈ combs, comb.2 ≤ bound) ↔ ∀ keys, number keys ≤ bound := by
  constructor
  · intro bounded keys
    rcases Nat.eq_zero_or_pos (number keys) with zero | positive
    · rw [zero]
      exact Nat.zero_le bound
    · exact bounded _ ((isCombs.entries keys _).mpr ⟨rfl, positive⟩)
  · rintro bounded ⟨keys, n⟩ membership
    obtain ⟨rfl, -⟩ := (isCombs.entries keys n).mp membership
    exact bounded keys

theorem isTally_single {sizes : List (Int × ℕ)} {axis : Axis}
    (isSizes : IsTally sizes (keyCount (keyOf axis) axis.stripes)) :
    IsTally (sizes.map fun entry => ([entry.1], entry.2)) (tupleCount keyOf [axis]) := by
  constructor
  · rw [List.map_map]
    have composed : Prod.fst ∘ (fun entry : Int × ℕ => ([entry.1], entry.2)) =
        List.singleton ∘ Prod.fst := rfl
    rw [composed, ← List.map_map]
    exact isSizes.once.map List.singleton_injective
  · intro keys n
    rw [List.mem_map]
    constructor
    · rintro ⟨entry, membership, equal⟩
      obtain ⟨rfl, rfl⟩ := Prod.mk.inj equal
      obtain ⟨isNumber, positive⟩ := (isSizes.entries _ _).mp membership
      exact ⟨isNumber.trans (Nat.mul_one _).symm, positive⟩
    · rintro ⟨rfl, positive⟩
      match keys, positive with
      | [key], positive =>
        refine ⟨(key, _), (isSizes.entries key _).mpr ⟨rfl, ?_⟩, ?_⟩
        · exact Nat.pos_of_mul_pos_right positive
        · exact congrArg (Prod.mk [key]) (Nat.mul_one _).symm

/-- The combinations come back if and only if the counts of every front of the axes fit, and then
they count the tuples.  The lists begin with the last axis. -/
theorem combinations_spec (keyOf : Axis → ℕ → Option Int) {axes : List Axis}
    {values : List (List (Int × ℕ))} (some_axis : axes ≠ [])
    (areSizes : List.Forall₂ (fun (axis : Axis) sizes =>
      IsTally sizes (keyCount (keyOf axis) axis.stripes)) axes values) :
    (∀ combs, combinations values = some combs →
      IsTally combs (tupleCount keyOf axes.reverse)) ∧
    ((∃ combs, combinations values = some combs) ↔
      ∀ front, front <:+ axes → ∀ keys, tupleCount keyOf front.reverse keys ≤ 2147483647) := by
  induction areSizes with
  | nil => exact absurd rfl some_axis
  | @cons axis sizes axes values isSizes areSizes ih =>
    cases areSizes with
    | nil =>
      have isTally := isTally_single isSizes
      refine ⟨fun combs isCombs => ?_, iff_of_true ⟨_, rfl⟩ ?_⟩
      · rw [← Option.some.inj isCombs]
        exact isTally
      · intro front isFront keys
        rcases List.suffix_cons_iff.mp isFront with rfl | isNil
        · match keys with
          | [] => exact Nat.zero_le _
          | [key] =>
            have le := keyCount_le (keyOf axis) axis.stripes key
            exact (Nat.mul_one _).trans_le (le.trans axis.stripes_le)
          | key :: _ :: _ => exact Nat.zero_le _
        · obtain rfl := List.suffix_nil.mp isNil
          cases keys with
          | nil => exact (by decide : 1 ≤ 2147483647)
          | cons key keys => exact Nat.zero_le _
    | @cons second secondSizes axes values isSecond areSizes =>
      obtain ⟨isTally, returns⟩ := ih (List.cons_ne_nil _ _)
      have pair {combs : List (List Int × ℕ)}
          (isCombs : combinations (secondSizes :: values) = some combs) :=
        isTally_pair (isTally combs isCombs) isSizes
      rw [List.reverse_cons]
      constructor
      · intro newCombs isNew
        obtain ⟨combs, isCombs, isNew⟩ := Option.bind_eq_some_iff.mp isNew
        rw [(pairCombinations_eq_some.mp isNew).2]
        exact pair isCombs
      · constructor
        · rintro ⟨newCombs, isNew⟩ front isFront
          obtain ⟨combs, isCombs, isNew⟩ := Option.bind_eq_some_iff.mp isNew
          obtain ⟨fit, rfl⟩ := pairCombinations_eq_some.mp isNew
          rcases List.suffix_cons_iff.mp isFront with rfl | shorter
          · rw [List.reverse_cons]
            exact (isTally_bounded_iff (pair isCombs)).mp fit
          · exact returns.mp ⟨combs, isCombs⟩ front shorter
        · intro fit
          obtain ⟨combs, isCombs⟩ := returns.mpr fun front isFront =>
            fit front (List.suffix_cons_iff.mpr (.inr isFront))
          refine ⟨_, Option.bind_eq_some_iff.mpr ⟨combs, isCombs,
            pairCombinations_eq_some.mpr ⟨?_, rfl⟩⟩⟩
          apply (isTally_bounded_iff (pair isCombs)).mpr
          have whole := fit (axis :: second :: axes) (List.suffix_refl _)
          rw [List.reverse_cons] at whole
          exact whole

end Combinations

theorem countP_sections_cons {α : Type} (list : List α) (sections : List (List α))
    (first : α → Bool) (rest : List α → Bool) :
    (sections.flatMap fun tuple => list.map fun a => a :: tuple).countP
      (fun tuple => match tuple with
        | [] => false
        | a :: tuple => first a && rest tuple) = list.countP first * sections.countP rest := by
  induction sections with
  | nil => rfl
  | cons tuple sections ih =>
    rw [List.flatMap_cons, List.countP_append, ih, List.countP_map,
      List.countP_cons, Nat.mul_add, Nat.add_comm]
    congr 1
    cases isRest : rest tuple with
    | false => simp [isRest]
    | true => simp [Function.comp_def, isRest]

theorem stripesOfShape_eq (axes : List Axis) (slidingWindow : Bool) (shape : List Int) :
    stripesOfShape axes slidingWindow shape =
      tupleCount (Axis.counted · slidingWindow) axes shape := by
  induction axes generalizing shape with
  | nil =>
    cases shape with
    | nil => rfl
    | cons size shape => rfl
  | cons axis axes ih =>
    have sections : List.sections ((axis :: axes).map fun axis => List.range axis.stripes) =
        (List.sections (axes.map fun axis => List.range axis.stripes)).flatMap fun tuple =>
          (List.range axis.stripes).map fun i => i :: tuple := rfl
    unfold stripesOfShape at ih ⊢
    rw [sections]
    cases shape with
    | nil =>
      rw [tupleCount, List.countP_eq_zero]
      intro tuple membership
      obtain ⟨rest, -, inside⟩ := List.mem_flatMap.mp membership
      obtain ⟨i, -, rfl⟩ := List.mem_map.mp inside
      exact Bool.false_ne_true
    | cons size shape =>
      rw [tupleCount, ← ih]
      have number : keyCount (axis.counted slidingWindow) axis.stripes size =
          (List.range axis.stripes).countP fun i =>
            ((axis.size slidingWindow i : Int) == size) && decide (0 < size) := by
        unfold keyCount Nat.count Axis.counted
        refine List.countP_congr fun i _ => ?_
        rw [decide_eq_true_iff, Bool.and_eq_true, beq_iff_eq, decide_eq_true_iff]
        dsimp only
        rw [Option.ite_none_right_eq_some, Option.some.injEq]
        omega
      rw [number, ← countP_sections_cons]
      refine List.countP_congr fun tuple membership => ?_
      obtain ⟨rest, -, inside⟩ := List.mem_flatMap.mp membership
      obtain ⟨i, -, rfl⟩ := List.mem_map.mp inside
      simp only [List.zipWith_cons_cons, List.cons_beq_cons, List.all_cons, Bool.and_eq_true]
      exact and_and_and_comm

/-- Nothing that `CountStripes` computes overflows. -/
structure StripesFit (axes : List Axis) (slidingWindow : Bool) : Prop where
  stripe : ∀ axis ∈ axes, ∀ i < axis.stripes, axis.FitsAt slidingWindow i
  number : ∀ front, front <+: axes → ∀ shape,
    tupleCount (Axis.entered · slidingWindow) front shape ≤ 2147483647

section CountStripes

variable {axes : List Axis} {slidingWindow : Bool}

theorem mapM_sizes_eq_some {values : List (List (Int × ℕ))} :
    axes.mapM (Axis.sizes · slidingWindow) = some values ↔
      List.Forall₂ (fun axis sizes => axis.sizes slidingWindow = some sizes) axes values := by
  induction axes generalizing values with
  | nil =>
    rw [List.mapM_nil, List.forall₂_nil_left_iff]
    exact ⟨fun equal => (Option.some.inj equal).symm, fun equal => congrArg some equal.symm⟩
  | cons axis axes ih =>
    rw [List.mapM_cons, List.forall₂_cons_left_iff]
    constructor
    · intro equal
      obtain ⟨sizes, isSizes, equal⟩ := Option.bind_eq_some_iff.mp equal
      obtain ⟨rest, isRest, equal⟩ := Option.bind_eq_some_iff.mp equal
      exact ⟨sizes, rest, isSizes, ih.mp isRest, (Option.some.inj equal).symm⟩
    · rintro ⟨sizes, rest, isSizes, areRest, rfl⟩
      rw [isSizes, ih.mpr areRest]
      rfl

theorem exists_sizes_iff : (∃ values,
    List.Forall₂ (fun axis sizes => axis.sizes slidingWindow = some sizes) axes values) ↔
      ∀ axis ∈ axes, ∀ i < axis.stripes, axis.FitsAt slidingWindow i := by
  induction axes with
  | nil => exact iff_of_true ⟨[], .nil⟩ fun axis membership => absurd membership List.not_mem_nil
  | cons axis axes ih =>
    rw [List.forall_mem_cons, ← ih, ← Axis.sizes_isSome_iff]
    constructor
    · rintro ⟨values, areSizes⟩
      obtain ⟨sizes, rest, isSizes, areRest, -⟩ := List.forall₂_cons_left_iff.mp areSizes
      exact ⟨⟨sizes, isSizes⟩, rest, areRest⟩
    · rintro ⟨⟨sizes, isSizes⟩, rest, areRest⟩
      exact ⟨sizes :: rest, .cons isSizes areRest⟩

theorem countStripes_spec (slidingWindow : Bool) (some_axis : axes ≠ []) :
    (∀ counts, countStripes axes slidingWindow = some counts →
      IsTally counts (tupleCount (Axis.entered · slidingWindow) axes)) ∧
    ((∃ counts, countStripes axes slidingWindow = some counts) ↔
      StripesFit axes slidingWindow) := by
  have spec {values : List (List (Int × ℕ))}
      (areSizes : List.Forall₂ (fun axis sizes => axis.sizes slidingWindow = some sizes)
        axes values) :=
    combinations_spec (Axis.entered · slidingWindow)
      (mt List.reverse_eq_nil_iff.mp some_axis)
      (List.forall₂_reverse_iff.mpr (areSizes.imp fun _ _ => Axis.sizes_isTally))
  constructor
  · intro counts isCounts
    obtain ⟨values, isValues, isCounts⟩ := Option.bind_eq_some_iff.mp isCounts
    have isTally := (spec (mapM_sizes_eq_some.mp isValues)).1 counts isCounts
    rw [List.reverse_reverse] at isTally
    exact isTally
  · constructor
    · rintro ⟨counts, isCounts⟩
      obtain ⟨values, isValues, isCounts⟩ := Option.bind_eq_some_iff.mp isCounts
      have areSizes := mapM_sizes_eq_some.mp isValues
      refine ⟨exists_sizes_iff.mp ⟨values, areSizes⟩, fun front isFront shape => ?_⟩
      have fit := (spec areSizes).2.mp ⟨counts, isCounts⟩ front.reverse
        (List.reverse_suffix.mpr isFront) shape
      rw [List.reverse_reverse] at fit
      exact fit
    · rintro ⟨stripe, number⟩
      obtain ⟨values, areSizes⟩ := exists_sizes_iff.mpr stripe
      obtain ⟨counts, isCounts⟩ := (spec areSizes).2.mpr fun front isFront =>
        number front.reverse (List.reverse_suffix.mp (by rwa [List.reverse_reverse]))
      exact ⟨counts, Option.bind_eq_some_iff.mpr
        ⟨values, mapM_sizes_eq_some.mpr areSizes, isCounts⟩⟩

/-- No stripe of the axis is counted, and none should be. -/
def Axis.Uncounted (axis : Axis) (slidingWindow : Bool) : Prop :=
  ∀ i < axis.stripes, ¬axis.Whole slidingWindow i ∧ axis.size slidingWindow i = 0

theorem Axis.uncounted_iff {axis : Axis} : axis.Uncounted slidingWindow ↔
    ∀ i < axis.stripes, axis.entered slidingWindow i = none := by
  refine forall₂_congr fun i _ => ?_
  unfold Axis.entered Axis.counted
  split
  · rename_i whole
    exact iff_of_false (fun uncounted => uncounted.1 whole) (Option.some_ne_none _)
  · rename_i whole
    split
    · rename_i positive
      exact iff_of_false (fun uncounted => positive.ne' uncounted.2) (Option.some_ne_none _)
    · rename_i zero
      exact iff_of_true ⟨whole, Nat.eq_zero_of_not_pos zero⟩ rfl

/-- `CountStripes` counts stripe by stripe if and only if nothing overflows and every whole stripe
that it counts at once has the size that it enters, or there is nothing to count on some axis. -/
theorem countStripes_exact (axes : List Axis) (slidingWindow : Bool) (some_axis : axes ≠ []) :
    (∃ counts, countStripes axes slidingWindow = some counts ∧
      IsTally counts (stripesOfShape axes slidingWindow)) ↔
    StripesFit axes slidingWindow ∧ ((∀ axis ∈ axes, axis.Agrees slidingWindow) ∨
      ∃ axis ∈ axes, axis.Uncounted slidingWindow) := by
  obtain ⟨isTally, returns⟩ := countStripes_spec slidingWindow some_axis
  rw [funext (stripesOfShape_eq axes slidingWindow)]
  constructor
  · rintro ⟨counts, isCounts, stripes⟩
    refine ⟨returns.mp ⟨counts, isCounts⟩, ?_⟩
    have same := (isTally counts isCounts).unique stripes
    by_contra wrong
    rw [not_or] at wrong
    obtain ⟨disagrees, counted⟩ := wrong
    push Not at disagrees counted
    obtain ⟨axis, membership, disagrees⟩ := disagrees
    have some_key : ∀ axis ∈ axes,
        ∃ key, 0 < keyCount (axis.entered slidingWindow) axis.stripes key := by
      intro other inside
      have some_stripe := mt Axis.uncounted_iff.mpr (counted other inside)
      push Not at some_stripe
      obtain ⟨i, less, isKey⟩ := some_stripe
      obtain ⟨key, isKey⟩ := Option.ne_none_iff_exists'.mp isKey
      refine ⟨key, Nat.pos_of_ne_zero fun zero => ?_⟩
      exact Nat.count_iff_forall_not.mp zero i less isKey
    obtain ⟨shape, positive, zero⟩ := exists_wrong_tuple (Axis.entered · slidingWindow)
      (Axis.counted · slidingWindow) membership (Axis.exists_wrong disagrees) some_key
    rw [same] at positive
    exact positive.ne' zero
  · rintro ⟨fit, agree⟩
    obtain ⟨counts, isCounts⟩ := returns.mpr fit
    refine ⟨counts, isCounts, (isTally counts isCounts).congr fun shape => ?_⟩
    rcases agree with agree | ⟨axis, membership, uncounted⟩
    · exact tupleCount_congr (fun axis membership i less =>
        (agree axis membership).entered_eq less) shape
    · rw [tupleCount_eq_zero membership (Axis.uncounted_iff.mp uncounted),
        tupleCount_eq_zero membership]
      intro i less
      unfold Axis.counted
      rw [(uncounted i less).2, if_neg (Nat.lt_irrefl 0)]

/-- An extent of 8 in stripes of 5, of which the last one is cut off. -/
def cutStripes : Axis :=
  ⟨5, 8, 5, 0, 2, by decide⟩

theorem countStripes_exact_cutStripes :
    (∃ counts, countStripes [cutStripes, cutStripes] false = some counts ∧
      IsTally counts (stripesOfShape [cutStripes, cutStripes] false)) ↔
    StripesFit [cutStripes, cutStripes] false ∧
      ((∀ axis ∈ [cutStripes, cutStripes], axis.Agrees false) ∨
        ∃ axis ∈ [cutStripes, cutStripes], axis.Uncounted false) :=
  countStripes_exact _ false (List.cons_ne_nil _ _)

def everySecond : Axis :=
  ⟨1, 10, 2, 0, 5, by decide⟩

/-- Four of the rows are counted with a size of two. -/
theorem countStripes_gaps : ¬∀ (axes : List Axis) (slidingWindow : Bool), axes ≠ [] →
    ∃ counts, countStripes axes slidingWindow = some counts ∧
      IsTally counts (stripesOfShape axes slidingWindow) := by
  intro agrees
  obtain ⟨counts, isCounts, isTally⟩ := agrees [everySecond] true (List.cons_ne_nil _ _)
  have counted : countStripes [everySecond] true = some [([1], 1), ([2], 4)] := by decide
  rw [counted] at isCounts
  obtain rfl := Option.some.inj isCounts
  obtain ⟨number, -⟩ := (isTally.entries [2] 4).mp (by decide)
  have none : stripesOfShape [everySecond] true [2] = 0 := by decide
  rw [none] at number
  cases number

end CountStripes

end Tvm.Cascader
