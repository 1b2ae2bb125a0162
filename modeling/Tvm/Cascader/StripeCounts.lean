import Tvm.Cascader.StripeConfig

/-!
# What the loop over an axis counts

The shortcut over whole stripes does what the turns over the single stripes would do, but for the
size that it enters.
-/

namespace Tvm.Cascader

open Lib

theorem isInt_toInt (x : Int32) : IsInt x.toInt := by
  have lower := x.le_toInt
  have upper := x.toInt_lt
  unfold IsInt
  omega

theorem checked_eq_some {value result : Int} :
    checked value = some result ↔ IsInt value ∧ value = result := by
  unfold checked
  rw [Option.ite_none_right_eq_some, Option.some.injEq]

theorem checked_bind {α : Type} (value : Int) (rest : Int → Option α) :
    (checked value).bind rest = if IsInt value then rest value else none := by
  unfold checked
  split
  · rfl
  · rfl

theorem checked_map {α : Type} (value : Int) (f : Int → α) :
    (checked value).map f = if IsInt value then some (f value) else none := by
  unfold checked
  split
  · rfl
  · rfl

/-- How many of the first `n` indices have a key. -/
def keyCount {κ : Type} [DecidableEq κ] (keyOf : ℕ → Option κ) (n : ℕ) (key : κ) : ℕ :=
  Nat.count (fun i => keyOf i = some key) n

theorem keyCount_le {κ : Type} [DecidableEq κ] (keyOf : ℕ → Option κ) (n : ℕ) (key : κ) :
    keyCount keyOf n key ≤ n :=
  Nat.count_le _

theorem keyCount_run {κ : Type} [DecidableEq κ] {keyOf : ℕ → Option κ} {n more : ℕ} {here : κ}
    (run : ∀ k < more, keyOf (n + k) = some here) (key : κ) :
    keyCount keyOf (n + more) key = keyCount keyOf n key + if key = here then more else 0 := by
  unfold keyCount
  rw [Nat.count_add, Nat.add_left_cancel_iff]
  split
  · rename_i same
    rw [same]
    exact Nat.count_iff_forall.mpr run
  · rename_i differs
    apply Nat.count_iff_forall_not.mpr
    intro k less isKey
    rw [run k less] at isKey
    exact differs (Option.some.inj isKey).symm

theorem keyCount_succ_none {κ : Type} [DecidableEq κ] {keyOf : ℕ → Option κ} {n : ℕ}
    (absent : keyOf n = none) (key : κ) : keyCount keyOf (n + 1) key = keyCount keyOf n key := by
  unfold keyCount
  rw [Nat.count_succ, absent, if_neg (by simp), Nat.add_zero]

namespace Axis

variable (axis : Axis) (slidingWindow : Bool)

def highAt (i : ℕ) : Int :=
  min (axis.start i + axis.shape.toInt) axis.extent.toInt

/-- Where stripe `i` begins in the extent, behind the previous stripe with the sliding window. -/
def lowAt (i : ℕ) : Int :=
  if slidingWindow ∧ 0 < i then max (max (axis.start i) 0) (axis.highAt (i - 1))
  else max (axis.start i) 0

def counted (i : ℕ) : Option Int :=
  if 0 < axis.size slidingWindow i then some (axis.size slidingWindow i : Int) else none

/-- The size that stripe `i` is counted with: the stride or the shape where the stripes ahead are
whole. -/
def entered (i : ℕ) : Option Int :=
  if axis.Whole slidingWindow i then
    some (if slidingWindow then axis.stride.toInt else axis.shape.toInt)
  else axis.counted slidingWindow i

/-- No operation on `int`s overflows at stripe `i`. -/
structure FitsAt (i : ℕ) : Prop where
  next : IsInt (axis.start (i + 1))
  stripeEnd : IsInt (axis.start i + axis.shape.toInt)
  rest : (slidingWindow → 0 < i) → 0 ≤ axis.start i →
    IsInt (axis.extent.toInt - axis.shape.toInt) ∧
      IsInt (axis.extent.toInt - axis.shape.toInt - axis.start i)
  quotient : axis.Whole slidingWindow i →
    IsInt ((axis.extent.toInt - axis.shape.toInt - axis.start i) / axis.stride.toInt + 1)
  length : IsInt (axis.highAt i - axis.lowAt slidingWindow i)

variable {axis slidingWindow} {i : ℕ}

theorem start_add (axis : Axis) (i k : ℕ) : axis.start (i + k) = axis.start i + k * axis.stride.toInt := by
  unfold start
  rw [Nat.cast_add, Int.add_mul, Int.add_assoc]

theorem start_succ (axis : Axis) (i : ℕ) : axis.start (i + 1) = axis.start i + axis.stride.toInt := by
  rw [start_add, Nat.cast_one, Int.one_mul]

theorem size_eq (i : ℕ) :
    axis.size slidingWindow i = (axis.highAt i - axis.lowAt slidingWindow i).toNat := by
  unfold size
  rw [Nat.count_eq_card_filter_range]
  have interval : {k ∈ Finset.range axis.shape.toInt.toNat | axis.Covers slidingWindow i k} =
      Finset.Ico (axis.lowAt slidingWindow i - axis.start i).toNat
        (axis.highAt i - axis.start i).toNat := by
    apply Finset.ext
    intro k
    rw [Finset.mem_filter, Finset.mem_range, Finset.mem_Ico]
    unfold Covers lowAt highAt
    by_cases behind : slidingWindow ∧ 0 < i
    · obtain ⟨rfl, positive⟩ := behind
      simp only [positive, and_self, if_true, true_implies]
      omega
    · have vacuous : (slidingWindow → 0 < i →
          axis.start (i - 1) + axis.shape.toInt ≤ axis.start i + k) ↔ True := by
        apply iff_true_intro
        intro sliding positive
        exact absurd ⟨sliding, positive⟩ behind
      rw [vacuous, if_neg behind, and_true]
      omega
  rw [interval, Nat.card_Ico]
  have lowStart : axis.start i ≤ axis.lowAt slidingWindow i := by
    unfold lowAt
    split <;> omega
  omega

theorem counted_eq (i : ℕ) : axis.counted slidingWindow i =
    if 0 < axis.highAt i - axis.lowAt slidingWindow i
    then some (axis.highAt i - axis.lowAt slidingWindow i) else none := by
  unfold counted
  rw [size_eq]
  by_cases positive : 0 < axis.highAt i - axis.lowAt slidingWindow i
  · rw [if_pos positive, if_pos (by omega), Int.toNat_of_nonneg (by omega)]
  · rw [if_neg positive, if_neg (by omega)]

/-- How many stripes from `i` on lie within the extent. -/
def wholeCount (axis : Axis) (i : ℕ) : ℕ :=
  min (axis.stripes - i)
    ((axis.extent.toInt - axis.shape.toInt - axis.start i) / axis.stride.toInt + 1).toNat

theorem Whole.wholeCount_eq (whole : axis.Whole slidingWindow i) :
    min ((axis.stripes - i : ℕ) : Int)
      ((axis.extent.toInt - axis.shape.toInt - axis.start i) / axis.stride.toInt + 1) =
        (axis.wholeCount i : Int) := by
  have quotientNonneg := Int.ediv_nonneg whole.2.2.1 (Int.le_of_lt whole.2.2.2)
  unfold wholeCount
  omega

theorem Whole.quotient_nonneg (whole : axis.Whole slidingWindow i) :
    0 ≤ (axis.extent.toInt - axis.shape.toInt - axis.start i) / axis.stride.toInt :=
  Int.ediv_nonneg whole.2.2.1 (Int.le_of_lt whole.2.2.2)

theorem Whole.wholeCount_pos (whole : axis.Whole slidingWindow i) (inside : i < axis.stripes) :
    0 < axis.wholeCount i := by
  have nonneg := whole.quotient_nonneg
  unfold wholeCount
  omega

theorem Whole.add (whole : axis.Whole slidingWindow i) {k : ℕ} (less : k < axis.wholeCount i) :
    axis.Whole slidingWindow (i + k) ∧ axis.start i ≤ axis.start (i + k) ∧
      axis.start (i + k) + axis.shape.toInt ≤ axis.extent.toInt := by
  obtain ⟨behind, nonneg, inside, positive⟩ := whole
  have leQuotient : (k : Int) ≤
      (axis.extent.toInt - axis.shape.toInt - axis.start i) / axis.stride.toInt := by
    have quotient := Int.ediv_nonneg inside (Int.le_of_lt positive)
    unfold wholeCount at less
    omega
  have shifted : (k : Int) * axis.stride.toInt ≤
      axis.extent.toInt - axis.shape.toInt - axis.start i := by
    apply (Int.mul_le_mul_of_nonneg_right leQuotient (Int.le_of_lt positive)).trans
    exact Int.ediv_mul_le _ positive.ne'
  have forward : 0 ≤ (k : Int) * axis.stride.toInt :=
    Int.mul_nonneg (Int.natCast_nonneg k) (Int.le_of_lt positive)
  rw [start_add]
  refine ⟨⟨fun sliding => ?_, ?_, ?_, positive⟩, ?_, ?_⟩
  · exact Nat.lt_add_right k (behind sliding)
  · rw [start_add]
    omega
  · rw [start_add]
    omega
  · omega
  · omega

structure RunFits (axis : Axis) (i : ℕ) : Prop where
  extent : IsInt (axis.extent.toInt - axis.shape.toInt)
  rest : IsInt (axis.extent.toInt - axis.shape.toInt - axis.start i)
  quotient :
    IsInt ((axis.extent.toInt - axis.shape.toInt - axis.start i) / axis.stride.toInt + 1)
  after : IsInt (axis.start (i + axis.wholeCount i))

theorem Whole.fitsAt_of_runFits (whole : axis.Whole slidingWindow i) (fits : axis.RunFits i)
    {k : ℕ} (less : k < axis.wholeCount i) : axis.FitsAt slidingWindow (i + k) := by
  obtain ⟨extent, rest, quotient, after⟩ := fits
  obtain ⟨⟨behind, nonneg, inside, positive⟩, forward, below⟩ := whole.add less
  have extentInt := isInt_toInt axis.extent
  have shapeInt := isInt_toInt axis.shape
  have strideInt := isInt_toInt axis.stride
  unfold IsInt at *
  refine ⟨?_, ?_, fun _ _ => ⟨extent, ?_⟩, fun _ => ?_, ?_⟩
  · -- The next start is in the run, or it is the one behind the run.
    rcases Nat.lt_or_ge (k + 1) (axis.wholeCount i) with more | last
    · obtain ⟨⟨-, nextNonneg, -⟩, -, nextBelow⟩ := whole.add more
      rw [Nat.add_assoc]
      unfold IsInt
      omega
    · have isLast : axis.wholeCount i = k + 1 := by omega
      rw [isLast, ← Nat.add_assoc] at after
      exact after
  · unfold IsInt
    omega
  · unfold IsInt
    omega
  · have le := Int.ediv_le_ediv positive
      (show axis.extent.toInt - axis.shape.toInt - axis.start (i + k) ≤
        axis.extent.toInt - axis.shape.toInt - axis.start i by omega)
    have quotientNonneg := Int.ediv_nonneg inside (Int.le_of_lt positive)
    unfold IsInt
    omega
  · unfold IsInt lowAt highAt
    split
    · rename_i sliding
      have previous := start_succ axis (i + k - 1)
      rw [Nat.sub_add_cancel sliding.2] at previous
      omega
    · omega

theorem Whole.runFits_of_fitsAt (whole : axis.Whole slidingWindow i) (inside : i < axis.stripes)
    (fits : ∀ k < axis.wholeCount i, axis.FitsAt slidingWindow (i + k)) : axis.RunFits i := by
  have positive := whole.wholeCount_pos inside
  have first := fits 0 positive
  obtain ⟨extent, rest⟩ := first.rest whole.1 whole.2.1
  refine ⟨extent, rest, first.quotient whole, ?_⟩
  have last := (fits (axis.wholeCount i - 1) (Nat.sub_lt positive Nat.one_pos)).next
  rw [Nat.add_assoc, Nat.sub_add_cancel positive] at last
  exact last

/-- Where the loop is before stripe `loop.i`. -/
structure At (axis : Axis) (slidingWindow : Bool) (loop : AxisLoop) : Prop where
  le : loop.i ≤ axis.stripes
  start : loop.start = axis.start loop.i
  first : loop.i = 0 → loop.high = -2147483648
  high : 0 < loop.i → loop.high = axis.highAt (loop.i - 1)
  sizes : IsTally loop.sizes (keyCount (axis.entered slidingWindow) loop.i)

namespace At

variable {loop : AxisLoop}

theorem initial : axis.At slidingWindow ⟨0, axis.offset.toInt, -2147483648, []⟩ := by
  refine ⟨Nat.zero_le _, ?_, fun _ => rfl, fun positive => absurd positive (Nat.lt_irrefl 0),
    IsTally.nil⟩
  unfold Axis.start
  rw [Nat.cast_zero, Int.zero_mul, Int.add_zero]

theorem isWhole_eq (here : axis.At slidingWindow loop) : axis.isWhole slidingWindow loop =
    if ((slidingWindow → 0 < loop.i) → 0 ≤ axis.start loop.i →
      IsInt (axis.extent.toInt - axis.shape.toInt) ∧
        IsInt (axis.extent.toInt - axis.shape.toInt - axis.start loop.i))
    then some (decide (axis.Whole slidingWindow loop.i)) else none := by
  unfold isWhole
  rw [here.start]
  by_cases early : slidingWindow ∧ loop.i = 0 ∨ axis.start loop.i < 0
  · rw [if_pos early, if_pos, decide_eq_false]
    · rintro ⟨behind, nonneg, -⟩
      rcases early with ⟨sliding, zero⟩ | negative
      · exact absurd zero (behind sliding).ne'
      · omega
    · intro behind nonneg
      rcases early with ⟨sliding, zero⟩ | negative
      · exact absurd zero (behind sliding).ne'
      · omega
  · rw [not_or, not_and] at early
    have behind : slidingWindow → 0 < loop.i := fun sliding =>
      Nat.pos_of_ne_zero (early.1 sliding)
    have nonneg : 0 ≤ axis.start loop.i := Int.not_lt.mp early.2
    rw [if_neg (by rw [not_or, not_and]; exact early)]
    simp only [iff_true_intro behind, nonneg, true_implies, Whole, true_and, room,
      Option.bind_eq_bind, checked_bind]
    by_cases extent : IsInt (axis.extent.toInt - axis.shape.toInt)
    · simp only [extent, if_true, true_and, checked_map]
    · simp only [extent, if_false, false_and, Option.map_none]

theorem wholeStripes_eq (here : axis.At slidingWindow loop) (inside : loop.i < axis.stripes)
    (whole : axis.Whole slidingWindow loop.i) (fits : axis.RunFits loop.i) :
    axis.wholeStripes slidingWindow loop = some ⟨loop.i + axis.wholeCount loop.i,
      axis.start (loop.i + axis.wholeCount loop.i),
      axis.highAt (loop.i + axis.wholeCount loop.i - 1),
      tallyAdd (if slidingWindow then axis.stride.toInt else axis.shape.toInt)
        (axis.wholeCount loop.i) loop.sizes⟩ := by
  obtain ⟨extent, rest, quotient, after⟩ := fits
  have positive := whole.wholeCount_pos inside
  have quotientNonneg := whole.quotient_nonneg
  have strideInt := isInt_toInt axis.stride
  have shapeInt := isInt_toInt axis.shape
  have extentInt := isInt_toInt axis.extent
  obtain ⟨⟨-, lastNonneg, -⟩, forward, below⟩ :=
    whole.add (Nat.sub_lt positive Nat.one_pos)
  have next := start_succ axis (loop.i + axis.wholeCount loop.i - 1)
  rw [Nat.sub_add_cancel (by omega)] at next
  rw [← Nat.add_sub_assoc (show 1 ≤ axis.wholeCount loop.i from positive)] at lastNonneg forward below
  have moved := start_add axis loop.i (axis.wholeCount loop.i)
  have nonneg := whole.2.1
  have lastEq : axis.start (loop.i + axis.wholeCount loop.i) - axis.stride.toInt =
      axis.start (loop.i + axis.wholeCount loop.i - 1) := by
    rw [next, Int.add_sub_cancel]
  have fitsStep : IsInt (axis.wholeCount loop.i * axis.stride.toInt) := by
    have strideNonneg := Int.le_of_lt whole.2.2.2
    unfold IsInt at *
    omega
  have fitsLast : IsInt (axis.start (loop.i + axis.wholeCount loop.i - 1)) := by
    unfold IsInt at *
    omega
  have fitsHigh :
      IsInt (axis.start (loop.i + axis.wholeCount loop.i - 1) + axis.shape.toInt) := by
    unfold IsInt at *
    omega
  unfold wholeStripes room
  simp only [here.start, Option.bind_eq_bind, checked_bind, extent, rest,
    if_true, Int.tdiv_eq_ediv_of_nonneg whole.2.2.1, quotient, whole.wholeCount_eq, Int.toNat_natCast,
    ← moved, fitsStep, after, lastEq, fitsLast, fitsHigh]
  rfl

theorem runFits_of_wholeStripes (here : axis.At slidingWindow loop)
    (whole : axis.Whole slidingWindow loop.i) {after : AxisLoop}
    (returns : axis.wholeStripes slidingWindow loop = some after) : axis.RunFits loop.i := by
  unfold wholeStripes room at returns
  simp only [here.start, Option.bind_eq_bind, Option.bind_eq_some_iff, checked_eq_some] at returns
  obtain ⟨_, ⟨_, ⟨extent, rfl⟩, rest, rfl⟩, _, ⟨quotient, rfl⟩, _, ⟨-, rfl⟩, _, ⟨fits, -⟩, -⟩ :=
    returns
  rw [Int.tdiv_eq_ediv_of_nonneg whole.2.2.1] at quotient fits
  rw [whole.wholeCount_eq, ← start_add] at fits
  exact ⟨extent, rest, quotient, fits⟩

theorem oneStripe_eq (here : axis.At slidingWindow loop) : axis.oneStripe slidingWindow loop =
    if IsInt (axis.start loop.i + axis.shape.toInt) ∧
      IsInt (axis.highAt loop.i - axis.lowAt slidingWindow loop.i) ∧
        IsInt (axis.start (loop.i + 1))
    then some ⟨loop.i + 1, axis.start (loop.i + 1), axis.highAt loop.i,
      if 0 < axis.highAt loop.i - axis.lowAt slidingWindow loop.i
      then tallyAdd (axis.highAt loop.i - axis.lowAt slidingWindow loop.i) 1 loop.sizes
      else loop.sizes⟩
    else none := by
  have low : (if slidingWindow then max (max (axis.start loop.i) 0) loop.high
      else max (axis.start loop.i) 0) = axis.lowAt slidingWindow loop.i := by
    unfold lowAt
    rcases Nat.eq_zero_or_pos loop.i with zero | positive
    · rw [here.first zero, if_neg (by omega : ¬(slidingWindow = true ∧ 0 < loop.i))]
      split <;> omega
    · rw [here.high positive]
      simp only [positive, and_true]
  unfold oneStripe
  simp only [here.start, low, Option.bind_eq_bind, checked_bind, ← start_succ]
  rw [ite_and, ite_and]
  rfl

theorem turn (here : axis.At slidingWindow loop) (inside : loop.i < axis.stripes)
    {after : AxisLoop} (returns : axis.turn slidingWindow loop = some after) :
    loop.i < after.i ∧ axis.At slidingWindow after ∧
      ∀ j, loop.i ≤ j → j < after.i → axis.FitsAt slidingWindow j := by
  obtain ⟨isWhole, whether, returns⟩ := Option.bind_eq_some_iff.mp returns
  rw [here.isWhole_eq, Option.ite_none_right_eq_some] at whether
  obtain ⟨rest, whether⟩ := whether
  obtain rfl := Option.some.inj whether
  by_cases whole : axis.Whole slidingWindow loop.i
  · rw [if_pos (decide_eq_true whole)] at returns
    have fits := here.runFits_of_wholeStripes whole returns
    rw [here.wholeStripes_eq inside whole fits] at returns
    obtain rfl := Option.some.inj returns
    have positive := whole.wholeCount_pos inside
    refine ⟨Nat.lt_add_of_pos_right positive, ⟨?_, rfl, ?_, fun _ => rfl, ?_⟩, ?_⟩
    · have le : axis.wholeCount loop.i ≤ axis.stripes - loop.i := Nat.min_le_left _ _
      dsimp only
      omega
    · intro zero
      dsimp only at zero
      omega
    · refine (here.sizes.add _ positive).congr fun key => ?_
      refine (keyCount_run (fun k less => ?_) key).symm
      unfold entered
      rw [if_pos (whole.add less).1]
    · intro j le less
      obtain ⟨k, rfl⟩ := Nat.exists_eq_add_of_le le
      exact whole.fitsAt_of_runFits fits (Nat.lt_of_add_lt_add_left less)
  · rw [if_neg (by rw [decide_eq_true_eq]; exact whole), here.oneStripe_eq,
      Option.ite_none_right_eq_some] at returns
    obtain ⟨⟨stripeEnd, length, next⟩, returns⟩ := returns
    obtain rfl := Option.some.inj returns
    refine ⟨Nat.lt_succ_self _, ⟨inside, rfl, ?_, fun _ => rfl, ?_⟩, ?_⟩
    · intro zero
      exact absurd zero (Nat.succ_ne_zero _)
    · have isEntered : axis.entered slidingWindow loop.i = axis.counted slidingWindow loop.i :=
        if_neg whole
      rw [counted_eq] at isEntered
      by_cases positive : 0 < axis.highAt loop.i - axis.lowAt slidingWindow loop.i
      · rw [if_pos positive] at isEntered
        dsimp only
        rw [if_pos positive]
        refine (here.sizes.add _ Nat.one_pos).congr fun key => ?_
        refine (keyCount_run (fun k less => ?_) key).symm
        rw [Nat.lt_one_iff.mp less]
        exact isEntered
      · rw [if_neg positive] at isEntered
        dsimp only
        rw [if_neg positive]
        exact here.sizes.congr fun key => (keyCount_succ_none isEntered key).symm
    · intro j le less
      obtain rfl : j = loop.i := Nat.le_antisymm (Nat.lt_succ_iff.mp less) le
      exact ⟨next, stripeEnd, rest, fun isWhole => absurd isWhole whole, length⟩

theorem turn_isSome (here : axis.At slidingWindow loop) (inside : loop.i < axis.stripes)
    (fits : ∀ j, loop.i ≤ j → j < axis.stripes → axis.FitsAt slidingWindow j) :
    ∃ after, axis.turn slidingWindow loop = some after := by
  have first := fits loop.i le_rfl inside
  unfold Axis.turn
  rw [here.isWhole_eq, if_pos first.rest, Option.bind_eq_bind, Option.bind_some]
  by_cases whole : axis.Whole slidingWindow loop.i
  · rw [if_pos (decide_eq_true whole)]
    refine ⟨_, here.wholeStripes_eq inside whole (whole.runFits_of_fitsAt inside ?_)⟩
    intro k less
    have le : axis.wholeCount loop.i ≤ axis.stripes - loop.i := Nat.min_le_left _ _
    exact fits _ (Nat.le_add_right _ _) (by omega)
  · rw [if_neg (by rw [decide_eq_true_eq]; exact whole), here.oneStripe_eq,
      if_pos ⟨first.stripeEnd, first.length, first.next⟩]
    exact ⟨_, rfl⟩

/-- The loop comes back if and only if nothing overflows ahead, with all stripes entered. -/
theorem turns (fuel : ℕ) (here : axis.At slidingWindow loop)
    (enough : axis.stripes ≤ loop.i + fuel) :
    (∀ sizes, axis.turns slidingWindow fuel loop = some sizes →
      IsTally sizes (keyCount (axis.entered slidingWindow) axis.stripes)) ∧
    ((∃ sizes, axis.turns slidingWindow fuel loop = some sizes) ↔
      ∀ j, loop.i ≤ j → j < axis.stripes → axis.FitsAt slidingWindow j) := by
  induction fuel generalizing loop with
  | zero =>
    have atEnd := Nat.le_antisymm here.le enough
    have sizes := here.sizes
    rw [Axis.turns, if_neg (by omega)]
    refine ⟨fun sizes' isSizes => ?_, iff_of_true ⟨_, rfl⟩ fun j le less => by omega⟩
    rw [← Option.some.inj isSizes, ← atEnd]
    exact sizes
  | succ fuel ih =>
    rw [Axis.turns]
    by_cases inside : loop.i < axis.stripes
    · rw [if_pos inside]
      constructor
      · intro sizes isSizes
        obtain ⟨after, returns, isSizes⟩ := Option.bind_eq_some_iff.mp isSizes
        obtain ⟨forward, next, -⟩ := here.turn inside returns
        exact (ih next (by omega)).1 sizes isSizes
      · constructor
        · rintro ⟨sizes, isSizes⟩ j le less
          obtain ⟨after, returns, isSizes⟩ := Option.bind_eq_some_iff.mp isSizes
          obtain ⟨forward, next, fits⟩ := here.turn inside returns
          rcases Nat.lt_or_ge j after.i with before | behind
          · exact fits j le before
          · exact (ih next (by omega)).2.mp ⟨sizes, isSizes⟩ j behind less
        · intro fits
          obtain ⟨after, returns⟩ := here.turn_isSome inside fits
          obtain ⟨forward, next, -⟩ := here.turn inside returns
          rw [returns, Option.bind_some]
          apply (ih next (by omega)).2.mpr
          intro j le less
          exact fits j (by omega) less
    · have atEnd := Nat.le_antisymm here.le (Nat.not_lt.mp inside)
      have sizes := here.sizes
      rw [if_neg inside]
      refine ⟨fun sizes' isSizes => ?_, iff_of_true ⟨_, rfl⟩ fun j le less => by omega⟩
      rw [← Option.some.inj isSizes, ← atEnd]
      exact sizes

end At

theorem sizes_isTally {sizes : List (Int × ℕ)} (isSizes : axis.sizes slidingWindow = some sizes) :
    IsTally sizes (keyCount (axis.entered slidingWindow) axis.stripes) :=
  (At.initial.turns axis.stripes (Nat.le_add_left _ _)).1 sizes isSizes

theorem sizes_isSome_iff : (∃ sizes, axis.sizes slidingWindow = some sizes) ↔
    ∀ i < axis.stripes, axis.FitsAt slidingWindow i := by
  have spec := (@At.initial axis slidingWindow).turns axis.stripes (Nat.le_add_left _ _)
  unfold sizes
  rw [spec.2]
  exact ⟨fun fits i less => fits i (Nat.zero_le i) less, fun fits i _ less => fits i less⟩

/-- A whole stripe is as large as what it is counted with. -/
def Agrees (axis : Axis) (slidingWindow : Bool) : Prop :=
  ∀ i < axis.stripes, axis.Whole slidingWindow i →
    if slidingWindow then axis.stride.toInt ≤ axis.shape.toInt else 0 < axis.shape.toInt

theorem Whole.length (whole : axis.Whole slidingWindow i) :
    axis.highAt i - axis.lowAt slidingWindow i =
      if slidingWindow then min axis.stride.toInt axis.shape.toInt else axis.shape.toInt := by
  obtain ⟨behind, nonneg, inside, positive⟩ := whole
  unfold highAt lowAt
  cases slidingWindow with
  | false => simp only [Bool.false_eq_true, false_and, if_false]; omega
  | true =>
    have previous := start_succ axis (i - 1)
    rw [Nat.sub_add_cancel (behind rfl)] at previous
    simp only [behind rfl, true_and, if_true]
    unfold highAt
    omega

theorem Agrees.entered_eq (agrees : axis.Agrees slidingWindow) (inside : i < axis.stripes) :
    axis.entered slidingWindow i = axis.counted slidingWindow i := by
  unfold entered
  split
  · rename_i whole
    have enough := agrees i inside whole
    have positive := whole.2.2.2
    rw [counted_eq, whole.length]
    cases slidingWindow with
    | false =>
      simp only [Bool.false_eq_true, if_false] at enough ⊢
      rw [if_pos enough]
    | true =>
      simp only [if_true] at enough ⊢
      rw [Int.min_eq_left enough, if_pos positive]
  · rfl

theorem exists_wrong (disagrees : ¬axis.Agrees slidingWindow) :
    ∃ key, 0 < keyCount (axis.entered slidingWindow) axis.stripes key ∧
      keyCount (axis.counted slidingWindow) axis.stripes key = 0 := by
  unfold Agrees at disagrees
  push Not at disagrees
  obtain ⟨i, inside, whole, small⟩ := disagrees
  refine ⟨if slidingWindow then axis.stride.toInt else axis.shape.toInt, ?_, ?_⟩
  · refine Nat.pos_of_ne_zero fun zero => ?_
    exact Nat.count_iff_forall_not.mp zero i inside (if_pos whole)
  · refine Nat.count_iff_forall_not.mpr fun j _ isKey => ?_
    rw [counted_eq, Option.ite_none_right_eq_some] at isKey
    obtain ⟨positive, isKey⟩ := isKey
    have size := Option.some.inj isKey
    -- No stripe is longer than the shape.
    have le : axis.highAt j - axis.lowAt slidingWindow j ≤ axis.shape.toInt := by
      unfold highAt lowAt
      split <;> omega
    cases slidingWindow with
    | false =>
      simp only [Bool.false_eq_true, if_false] at small size
      omega
    | true =>
      simp only [if_true] at small size
      omega

end Axis

end Tvm.Cascader
