import Mathlib

/-!
# Axes in groups

Separators cut a row of axes into groups.  A scan over the axes keeps one accumulator for each
group and turns to the next one at each separator; where the separators increase, every accumulator
is folded over the axes of its own group.
-/

namespace Tvm.Lib

universe u v w x

variable {α : Type u} {β : Type v} {σ : Type w} {τ : Type x}

def groupOf (separators : List Nat) (axis : Nat) : Nat :=
  separators.countP (· ≤ axis)

/-- The axes of a group, in a row that begins at the given axis. -/
def axesOf (separators : List Nat) (group : Nat) : Nat → List α → List α
  | _, [] => []
  | axis, a :: rest =>
    if groupOf separators axis = group then a :: axesOf separators group (axis + 1) rest
    else axesOf separators group (axis + 1) rest

/-- The accumulators after the axes; `current` is the group of the axis before. -/
def scanAxes (separators : List Nat) (step : Nat → σ → α → Option σ) :
    Nat → Nat → List σ → List α → Option (List σ)
  | _, _, groups, [] => some groups
  | axis, current, groups, a :: rest =>
    let current := if separators[current]? = some axis then current + 1 else current
    match groups[current]? with
    | none => none
    | some group =>
      match step axis group a with
      | none => none
      | some next => scanAxes separators step (axis + 1) current (groups.set current next) rest

section Groups

variable {separators : List Nat} {axis group current : Nat} {axes : List α}

theorem groupOf_le (separators : List Nat) (axis : Nat) :
    groupOf separators axis ≤ separators.length :=
  List.countP_le_length

theorem countP_eq_zero {condition : Nat → Prop} [DecidablePred condition] {rest : List Nat}
    (fails : ∀ separator ∈ rest, ¬condition separator) : rest.countP (condition ·) = 0 := by
  rw [List.countP_eq_zero]
  intro separator member
  rw [decide_eq_true_iff]
  exact fails separator member

theorem groupOf_next (increasing : separators.Pairwise (· < ·)) (axis : Nat) :
    (if separators[separators.countP (· < axis)]? = some axis
      then separators.countP (· < axis) + 1 else separators.countP (· < axis)) =
      groupOf separators axis := by
  rw [groupOf]
  induction separators with
  | nil => rfl
  | cons separator rest ih =>
    obtain ⟨before, increasing⟩ := List.pairwise_cons.mp increasing
    have later := ih increasing
    rw [List.countP_cons, List.countP_cons]
    rcases Nat.lt_trichotomy separator axis with less | rfl | greater
    · rw [if_pos (decide_eq_true less), if_pos (decide_eq_true less.le),
        List.getElem?_cons_succ, ← later]
      split
      · rfl
      · rfl
    · rw [countP_eq_zero fun s member => (before s member).le.not_gt,
        countP_eq_zero fun s member => (before s member).not_ge]
      simp
    · rw [countP_eq_zero fun s member => (greater.trans (before s member)).le.not_gt,
        countP_eq_zero fun s member => (greater.trans (before s member)).not_ge]
      simp [greater.le.not_gt, greater.not_ge, greater.ne']

theorem groupOf_before (axis : Nat) :
    separators.countP (· < axis + 1) = groupOf separators axis := by
  simp only [groupOf, Nat.lt_succ_iff]

theorem axesOf_map (f : α → β) (group axis : Nat) (axes : List α) :
    axesOf separators group axis (axes.map f) = (axesOf separators group axis axes).map f := by
  induction axes generalizing axis with
  | nil => rfl
  | cons a rest ih =>
    rw [List.map_cons, axesOf, axesOf, ih]
    split
    · rfl
    · rfl

theorem mem_of_mem_axesOf {a : α} (member : a ∈ axesOf separators group axis axes) : a ∈ axes := by
  induction axes generalizing axis with
  | nil => cases member
  | cons b rest ih =>
    rw [axesOf] at member
    split at member
    · rcases List.mem_cons.mp member with rfl | member
      · exact List.mem_cons_self
      · exact List.mem_cons_of_mem b (ih member)
    · exact List.mem_cons_of_mem b (ih member)

theorem exists_group {a : α} (member : a ∈ axes) (axis : Nat) :
    ∃ group ≤ separators.length, a ∈ axesOf separators group axis axes := by
  induction axes generalizing axis with
  | nil => cases member
  | cons b rest ih =>
    rcases List.mem_cons.mp member with rfl | member
    · refine ⟨groupOf separators axis, groupOf_le separators axis, ?_⟩
      rw [axesOf, if_pos rfl]
      exact List.mem_cons_self
    · obtain ⟨group, bound, member⟩ := ih member (axis + 1)
      refine ⟨group, bound, ?_⟩
      rw [axesOf]
      split
      · exact List.mem_cons_of_mem b member
      · exact member

theorem groupOf_separator (increasing : separators.Pairwise (· < ·)) {boundary : Nat}
    (found : separators[group]? = some boundary) :
    groupOf separators boundary = group + 1 ∧ ∀ axis < boundary, groupOf separators axis ≤ group := by
  induction separators generalizing group with
  | nil => cases found
  | cons separator rest ih =>
    obtain ⟨before, increasing⟩ := List.pairwise_cons.mp increasing
    cases group with
    | zero =>
      cases found
      have later : groupOf rest boundary = 0 :=
        countP_eq_zero fun s member => (before s member).not_ge
      refine ⟨?_, fun axis less => ?_⟩
      · rw [groupOf, List.countP_cons, if_pos (decide_eq_true le_rfl), ← groupOf, later]
      · have earlier : groupOf rest axis = 0 :=
          countP_eq_zero fun s member => (less.trans (before s member)).not_ge
        rw [groupOf, List.countP_cons, ← groupOf, earlier,
          if_neg (by rw [decide_eq_true_iff]; exact less.not_ge)]
    | succ group =>
      obtain ⟨here, earlier⟩ := ih increasing found
      have past : separator ≤ boundary := (before boundary (List.mem_of_getElem? found)).le
      refine ⟨?_, fun axis less => ?_⟩
      · rw [groupOf, List.countP_cons, if_pos (decide_eq_true past), ← groupOf, here]
      · have bound := earlier axis less
        rw [groupOf, List.countP_cons, ← groupOf]
        split
        · omega
        · omega

theorem axesOf_head? (increasing : (0 :: separators).Pairwise (· < ·)) {boundary : Nat}
    (found : (0 :: separators)[group]? = some boundary) (axes : List α) :
    (axesOf separators group 0 axes).head? = axes[boundary]? := by
  have first : groupOf separators boundary = group ∧
      ∀ axis < boundary, groupOf separators axis ≠ group := by
    obtain ⟨positive, increasing⟩ := List.pairwise_cons.mp increasing
    cases group with
    | zero =>
      cases found
      exact ⟨countP_eq_zero fun s member => (positive s member).not_ge,
        fun axis less => absurd less (Nat.not_lt_zero axis)⟩
    | succ group =>
      obtain ⟨here, earlier⟩ := groupOf_separator increasing found
      exact ⟨here, fun axis less => (Nat.lt_succ_of_le (earlier axis less)).ne⟩
  have from_axis : ∀ axis ≤ boundary,
      (axesOf separators group axis axes).head? = axes[boundary - axis]? := by
    intro axis within
    induction axes generalizing axis with
    | nil => rfl
    | cons a rest ih =>
      rw [axesOf]
      rcases within.lt_or_eq with less | rfl
      · obtain ⟨further, more⟩ : ∃ further, boundary - axis = further + 1 :=
          ⟨boundary - axis - 1, by omega⟩
        have left : boundary - (axis + 1) = further := by omega
        rw [if_neg (first.2 axis less), ih (axis + 1) less, more, left, List.getElem?_cons_succ]
      · rw [if_pos first.1, Nat.sub_self]
        rfl
  exact from_axis 0 (Nat.zero_le boundary)

end Groups

section Scan

variable {separators : List Nat} {rel : σ → τ → Prop} {relAxis : α → β → Prop}
  {step : Nat → σ → α → Option σ} {f : τ → β → τ} {groups : List σ} {values : List τ}

theorem forall₂_getElem? (related : List.Forall₂ rel groups values) {n : Nat}
    (inside : n < values.length) :
    ∃ s t, groups[n]? = some s ∧ values[n]? = some t ∧ rel s t := by
  have insideGroups : n < groups.length := related.length_eq ▸ inside
  exact ⟨groups[n], values[n], List.getElem?_eq_getElem insideGroups,
    List.getElem?_eq_getElem inside, List.Forall₂.get related insideGroups inside⟩

theorem forall₂_set (related : List.Forall₂ rel groups values) {s : σ} {t : τ} (new : rel s t)
    (n : Nat) : List.Forall₂ rel (groups.set n s) (values.set n t) := by
  induction related generalizing n with
  | nil => exact List.Forall₂.nil
  | cons head tail ih =>
    cases n with
    | zero => exact List.Forall₂.cons new tail
    | succ n => exact List.Forall₂.cons head (ih n)

theorem mapIdx_set_axesOf (f : τ → β → τ) {axis : Nat} {b : β} {t : τ} (rest : List β)
    (found : values[groupOf separators axis]? = some t) :
    (values.set (groupOf separators axis) (f t b)).mapIdx
        (fun group value => (axesOf separators group (axis + 1) rest).foldl f value) =
      values.mapIdx fun group value => (axesOf separators group axis (b :: rest)).foldl f value := by
  apply List.ext_getElem?
  intro group
  rw [List.getElem?_mapIdx, List.getElem?_mapIdx, List.getElem?_set, axesOf]
  split
  · rename_i same
    subst same
    obtain ⟨inside, -⟩ := List.getElem?_eq_some_iff.mp found
    rw [if_pos inside, found]
    rfl
  · rfl

theorem scanAxes_simulates (increasing : separators.Pairwise (· < ·))
    (simulates : ∀ axis s t a b, rel s t → relAxis a b →
      ∃ next, step axis s a = some next ∧ rel next (f t b))
    {axes : List α} {axisValues : List β} (axesRelated : List.Forall₂ relAxis axes axisValues)
    (related : List.Forall₂ rel groups values) (enough : values.length = separators.length + 1)
    (axis : Nat) :
    ∃ outputs, scanAxes separators step axis (separators.countP (· < axis)) groups axes =
        some outputs ∧
      List.Forall₂ rel outputs (values.mapIdx fun group value =>
        (axesOf separators group axis axisValues).foldl f value) := by
  induction axesRelated generalizing axis groups values with
  | nil =>
    refine ⟨groups, rfl, ?_⟩
    have same : (values.mapIdx fun group value =>
        (axesOf separators group axis ([] : List β)).foldl f value) = values := by
      apply List.ext_getElem?
      intro group
      rw [List.getElem?_mapIdx]
      exact Option.map_id'
    rw [same]
    exact related
  | @cons a b rest restValues head tail ih =>
    have inside : groupOf separators axis < values.length := by
      rw [enough]
      exact Nat.lt_succ_of_le (groupOf_le separators axis)
    obtain ⟨s, t, groupIs, valueIs, same⟩ := forall₂_getElem? related inside
    obtain ⟨next, nextIs, nextRelated⟩ := simulates axis s t a b same head
    have set := forall₂_set related nextRelated (groupOf separators axis)
    obtain ⟨outputs, outputsIs, outputsRelated⟩ :=
      ih set (by rw [List.length_set, enough]) (axis + 1)
    refine ⟨outputs, ?_, ?_⟩
    · rw [scanAxes, groupOf_next increasing]
      simp only [groupIs, nextIs]
      rw [groupOf_before] at outputsIs
      exact outputsIs
    · rw [mapIdx_set_axesOf f restValues valueIs] at outputsRelated
      exact outputsRelated

end Scan

/-- One axis of a row-major offset: its extent and the index. -/
def hornerStep (sum : Int) (axis : Int × Int) : Int :=
  sum * axis.1 + axis.2

def strideStep (sum : Int) (axis : Int × Int) : Int :=
  sum + axis.2 * axis.1

/-- The row-major offset of an index, axis by axis. -/
def hornerSum (axes : List (Int × Int)) : Int :=
  axes.foldl hornerStep 0

def strideSum (axes : List (Int × Int)) : Int :=
  (axes.map fun axis => axis.2 * axis.1).sum

theorem foldl_strideStep (axes : List (Int × Int)) (sum : Int) :
    axes.foldl strideStep sum = sum + strideSum axes := by
  induction axes generalizing sum with
  | nil => exact (add_zero sum).symm
  | cons axis rest ih =>
    rw [List.foldl_cons, ih, strideStep, strideSum, strideSum, List.map_cons, List.sum_cons, add_assoc]

def BothWithin (axis : Int × Int × Int) : Prop :=
  (0 ≤ axis.2.1 ∧ axis.2.1 < axis.1) ∧ 0 ≤ axis.2.2 ∧ axis.2.2 < axis.1

theorem digits_unique {n a b x y : Int} (xBound : 0 ≤ x ∧ x < n) (yBound : 0 ≤ y ∧ y < n)
    (same : a * n + x = b * n + y) : a = b ∧ x = y := by
  have positive : 0 < n := xBound.1.trans_lt xBound.2
  have quotient : a = b := by
    have divided : (a * n + x) / n = (b * n + y) / n := congrArg (· / n) same
    rwa [add_comm, Int.add_mul_ediv_right _ _ positive.ne', add_comm (b * n),
      Int.add_mul_ediv_right _ _ positive.ne', Int.ediv_eq_zero_of_lt xBound.1 xBound.2,
      Int.ediv_eq_zero_of_lt yBound.1 yBound.2, zero_add, zero_add] at divided
  subst quotient
  exact ⟨rfl, add_left_cancel same⟩

theorem foldl_hornerStep_injective {axes : List (Int × Int × Int)}
    (within : ∀ axis ∈ axes, BothWithin axis) {a b : Int}
    (same : (axes.map fun axis => (axis.1, axis.2.1)).foldl hornerStep a =
      (axes.map fun axis => (axis.1, axis.2.2)).foldl hornerStep b) :
    a = b ∧ ∀ axis ∈ axes, axis.2.1 = axis.2.2 := by
  induction axes generalizing a b with
  | nil => exact ⟨same, fun axis member => absurd member List.not_mem_nil⟩
  | cons axis rest ih =>
    obtain ⟨digits, equal⟩ := ih (fun axis member => within axis (List.mem_cons_of_mem _ member)) same
    obtain ⟨xBound, yBound⟩ := within axis List.mem_cons_self
    obtain ⟨leading, digit⟩ := digits_unique xBound yBound digits
    refine ⟨leading, fun other member => ?_⟩
    rcases List.mem_cons.mp member with rfl | member
    · exact digit
    · exact equal other member

theorem foldl_hornerStep_bound {axes : List (Int × Int)}
    (within : ∀ axis ∈ axes, 0 ≤ axis.2 ∧ axis.2 < axis.1) {sum extent : Int}
    (bound : 0 ≤ sum ∧ sum < extent) :
    0 ≤ axes.foldl hornerStep sum ∧
      axes.foldl hornerStep sum < (axes.map Prod.fst).foldl (· * ·) extent := by
  induction axes generalizing sum extent with
  | nil => exact bound
  | cons axis rest ih =>
    obtain ⟨low, high⟩ := within axis List.mem_cons_self
    have positive : 0 < axis.1 := low.trans_lt high
    apply ih fun axis member => within axis (List.mem_cons_of_mem _ member)
    constructor
    · exact add_nonneg (mul_nonneg bound.1 positive.le) low
    · calc sum * axis.1 + axis.2
          < sum * axis.1 + axis.1 := by linarith
        _ = (sum + 1) * axis.1 := by ring
        _ ≤ extent * axis.1 := mul_le_mul_of_nonneg_right bound.2 positive.le

/-- The largest strided offset of indices within extents, from the extents and strides. -/
def lastOffset (axes : List (Int × Int)) : Int :=
  (axes.map fun axis => (axis.1 - 1) * axis.2).sum

theorem strideSum_bound {axes : List (Int × Int × Int)}
    (within : ∀ axis ∈ axes, (0 ≤ axis.2.2 ∧ axis.2.2 < axis.1) ∧ 0 ≤ axis.2.1) :
    0 ≤ strideSum (axes.map fun axis => (axis.2.1, axis.2.2)) ∧
      strideSum (axes.map fun axis => (axis.2.1, axis.2.2)) ≤
        lastOffset (axes.map fun axis => (axis.1, axis.2.1)) := by
  induction axes with
  | nil => exact ⟨le_rfl, le_rfl⟩
  | cons axis rest ih =>
    obtain ⟨low, high⟩ := ih fun axis member => within axis (List.mem_cons_of_mem _ member)
    obtain ⟨⟨index, inside⟩, stride⟩ := within axis List.mem_cons_self
    have term : axis.2.2 * axis.2.1 ≤ (axis.1 - 1) * axis.2.1 :=
      mul_le_mul_of_nonneg_right (Int.le_sub_one_of_lt inside) stride
    rw [strideSum, lastOffset] at *
    rw [List.map_cons, List.map_cons, List.map_cons, List.map_cons, List.sum_cons, List.sum_cons]
    exact ⟨add_nonneg (mul_nonneg index stride) low, add_le_add term high⟩

end Tvm.Lib
