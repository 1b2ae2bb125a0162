import Tvm.Lib.Division

/-!
# Quotients and remainders along an arithmetic progression

For the numbers `b + i * s`: when a quotient is the same for all of them, and when it advances
by the quotient of the step.
-/

namespace Tvm.Lib

variable {b c d n q r s : Int} {i count : Nat}

/-- Neither is below zero, or neither is above. -/
def SameSide (x y : Int) : Prop :=
  0 ≤ x ∧ 0 ≤ y ∨ x ≤ 0 ∧ y ≤ 0

theorem progression_between (small : i < count) (s : Int) :
    (0 ≤ s → 0 ≤ i * s ∧ i * s ≤ ((count : Int) - 1) * s) ∧
      (s ≤ 0 → ((count : Int) - 1) * s ≤ i * s ∧ i * s ≤ 0) := by
  have nonneg : (0 : Int) ≤ i := Int.natCast_nonneg i
  have rest : (0 : Int) ≤ (count : Int) - 1 - i := by omega
  constructor
  · intro up
    have first := mul_nonneg nonneg up
    have last := mul_nonneg rest up
    constructor <;> linarith
  · intro down
    have first := mul_nonneg nonneg (neg_nonneg.mpr down)
    have last := mul_nonneg rest (neg_nonneg.mpr down)
    constructor <;> linarith

theorem fdiv_eq_iff (nonzero : d ≠ 0) :
    n.fdiv d = q ↔
      (0 < d → d * q ≤ n ∧ n < d * q + d) ∧ (d < 0 → d * q + d < n ∧ n ≤ d * q) := by
  have split := Int.mul_fdiv_add_fmod n d
  constructor
  · rintro rfl
    constructor
    · intro positive
      have lower := Int.fmod_nonneg_of_pos n positive
      have upper := Int.fmod_lt_of_pos n positive
      omega
    · intro negative
      have opposite := Int.neg_fmod_neg n d
      have lower := Int.fmod_nonneg_of_pos (-n) (by omega : 0 < -d)
      have upper := Int.fmod_lt_of_pos (-n) (by omega : 0 < -d)
      omega
  · rintro ⟨whenPositive, whenNegative⟩
    rcases lt_or_gt_of_ne nonzero with negative | positive
    · obtain ⟨lower, upper⟩ := whenNegative negative
      have shifted : n = n - d * q + d * q := by omega
      rw [shifted, Int.add_mul_fdiv_left _ _ nonzero, ← Int.neg_fdiv_neg,
        fdiv_eq_ediv (by omega), Int.ediv_eq_zero_of_lt (by omega) (by omega), zero_add]
    · obtain ⟨lower, upper⟩ := whenPositive positive
      have shifted : n = n - d * q + d * q := by omega
      rw [shifted, Int.add_mul_fdiv_left _ _ nonzero, fdiv_eq_ediv positive,
        Int.ediv_eq_zero_of_lt (by omega) (by omega), zero_add]

theorem fdiv_progression_eq (nonzero : d ≠ 0) (small : i < count)
    (same : b.fdiv d = (b + ((count : Int) - 1) * s).fdiv d) :
    (b + i * s).fdiv d = b.fdiv d := by
  obtain ⟨up, down⟩ := progression_between small s
  have first := (fdiv_eq_iff nonzero).mp (rfl : b.fdiv d = b.fdiv d)
  have last := (fdiv_eq_iff nonzero).mp same.symm
  rw [fdiv_eq_iff nonzero]
  rcases le_total 0 s with nonneg | nonpos
  · have between := up nonneg
    constructor
    · intro positive
      have := first.1 positive
      have := last.1 positive
      constructor <;> linarith
    · intro negative
      have := first.2 negative
      have := last.2 negative
      constructor <;> linarith
  · have between := down nonpos
    constructor
    · intro positive
      have := first.1 positive
      have := last.1 positive
      constructor <;> linarith
    · intro negative
      have := first.2 negative
      have := last.2 negative
      constructor <;> linarith

/-- Shifting by a multiple of the divisor does not change whether the quotient stays the same. -/
theorem fdiv_add_eq_iff (nonzero : d ≠ 0) (shift : d ∣ n - b) (k : Int) :
    (n + k).fdiv d = n.fdiv d ↔ (b + k).fdiv d = b.fdiv d := by
  obtain ⟨m, multiple⟩ := shift
  have first : n + k = b + k + d * m := by omega
  have second : n = b + d * m := by omega
  rw [first, second, Int.add_mul_fdiv_left _ _ nonzero, Int.add_mul_fdiv_left _ _ nonzero]
  omega

theorem fmod_eq_of_dvd_sub (shift : d ∣ n - b) : n.fmod d = b.fmod d := by
  obtain ⟨m, multiple⟩ := shift
  have split : n = b + d * m := by omega
  rw [split, Int.add_mul_fmod_self_left]

/-- The remainder advances with the progression exactly where the quotient stays. -/
theorem fmod_add_eq_iff (nonzero : d ≠ 0) (n k : Int) :
    (n + k).fmod d = n.fmod d + k ↔ (n + k).fdiv d = n.fdiv d := by
  have first := Int.mul_fdiv_add_fmod (n + k) d
  have second := Int.mul_fdiv_add_fmod n d
  constructor
  · intro advances
    have product : d * (n + k).fdiv d = d * n.fdiv d := by omega
    exact mul_left_cancel₀ nonzero product
  · intro stays
    rw [stays] at first
    omega

/-- A progression whose offsets from a multiple `n - b` of `c` stay between the ends of a range
of length `c`, where `c` divides `d`: the quotient of `n` is the quotient of all, unless the
progression goes down from a multiple of `c` and `d` is negative. -/
theorem fdiv_progression_iff (range : 0 ≤ b ∧ b < c) (shift : c ∣ n - b) (nonzero : d ≠ 0)
    (divides : c ∣ d) (small : i < count)
    (same : b.fdiv d = (b + ((count : Int) - 1) * s).fdiv d)
    (inside : b + ((count : Int) - 1) * s < c) :
    (n + i * s).fdiv d = n.fdiv d ↔ 0 < d ∨ b ≠ 0 ∨ -(i * s) ≤ (n - 1) % d := by
  obtain ⟨up, down⟩ := progression_between small s
  obtain ⟨m, mIs⟩ := shift
  obtain ⟨e, rfl⟩ := divides
  have quotient := (fdiv_eq_iff nonzero).mp (rfl : n.fdiv (c * e) = n.fdiv (c * e))
  generalize n.fdiv (c * e) = q at quotient
  have last := (fdiv_eq_iff nonzero).mp same.symm
  have cPositive : 0 < c := by omega
  rw [fdiv_eq_iff nonzero]
  rcases lt_or_gt_of_ne nonzero with negative | positive
  · have eNegative : e < 0 := by
      by_contra nonneg
      have := mul_nonneg cPositive.le (not_lt.mp nonneg)
      omega
    obtain ⟨lower, upper⟩ := quotient.2 negative
    have whole : c * e ≤ -c := by nlinarith
    rcases eq_or_ne b 0 with rfl | bNonzero
    · -- the progression goes down from a multiple of `c`
      have zero : (0 : Int).fdiv (c * e) = 0 := Int.zero_fdiv _
      rw [zero, mul_zero] at last
      have lastBound := last.2 negative
      have nonpos : i * s ≤ 0 := by
        rcases le_total 0 s with stepNonneg | stepNonpos
        · have := up stepNonneg
          omega
        · exact (down stepNonpos).2
      have remainder : (n - 1) % (c * e) = n - 1 - c * e * q - c * e := by
        have shifted : n - 1 = n - 1 - c * e * q - c * e + c * e * (q + 1) := by ring
        rw [shifted, Int.add_mul_emod_self_left, ← Int.emod_neg,
          Int.emod_eq_of_lt (by omega) (by omega)]
        ring
      rw [remainder]
      constructor
      · rintro ⟨-, bounds⟩
        have := bounds negative
        omega
      · intro enough
        exact ⟨fun positive => by omega, fun _ => by omega⟩
    · -- inside of a range without its ends
      have minusOne : b.fdiv (c * e) = -1 := by
        rw [fdiv_eq_iff nonzero]
        exact ⟨fun positive => by omega, fun _ => by omega⟩
      rw [minusOne] at last
      have lastBound := last.2 negative
      have offset : 0 < b + i * s ∧ b + i * s < c := by
        rcases le_total 0 s with stepNonneg | stepNonpos
        · have := up stepNonneg
          omega
        · have := down stepNonpos
          omega
      have bPositive : 0 < b := by omega
      have above : e * q + e < m + 1 := by nlinarith
      have below : m < e * q := by nlinarith
      refine iff_of_true ⟨fun positive => by omega, fun _ => ?_⟩ (Or.inr (Or.inl bNonzero))
      constructor <;> nlinarith
  · have ePositive : 0 < e := pos_of_mul_pos_right positive cPositive.le
    obtain ⟨lower, upper⟩ := quotient.1 positive
    have zero : b.fdiv (c * e) = 0 := by
      rw [fdiv_eq_iff nonzero]
      exact ⟨fun _ => ⟨by omega, by nlinarith⟩, fun negative => by omega⟩
    rw [zero] at last
    have lastBound := last.1 positive
    have offset : 0 ≤ b + i * s ∧ b + i * s < c := by
      rcases le_total 0 s with stepNonneg | stepNonpos
      · have := up stepNonneg
        omega
      · have := down stepNonpos
        omega
    have above : e * q < m + 1 := by nlinarith
    have below : m < e * q + e := by nlinarith
    refine iff_of_true ⟨fun _ => ?_, fun negative => by omega⟩ (Or.inl positive)
    constructor <;> nlinarith

theorem tmod_nonpos (nonpos : n ≤ 0) (d : Int) : n.tmod d ≤ 0 := by
  have opposite := Int.tmod_nonneg (a := -n) d (by omega)
  rw [Int.neg_tmod] at opposite
  omega

theorem tmod_add_eq_iff (step : d ∣ s) (n : Int) :
    (n + s).tmod d = n.tmod d ↔ d ∣ n ∨ SameSide n (n + s) := by
  constructor
  · intro same
    rw [or_iff_not_imp_left]
    intro remains
    have nonzero : n.tmod d ≠ 0 := fun zero => remains (Int.dvd_of_tmod_eq_zero zero)
    rcases le_total 0 n with nonneg | nonpos
    · refine Or.inl ⟨nonneg, ?_⟩
      by_contra below
      have first := Int.tmod_nonneg d nonneg
      have second := tmod_nonpos (by omega : n + s ≤ 0) d
      omega
    · refine Or.inr ⟨nonpos, ?_⟩
      by_contra above
      have first := tmod_nonpos nonpos d
      have second := Int.tmod_nonneg (a := n + s) d (by omega)
      omega
  · obtain ⟨m, rfl⟩ := step
    rintro (divides | ⟨first, second⟩ | ⟨first, second⟩)
    · rw [Int.tmod_eq_zero_of_dvd divides,
        Int.tmod_eq_zero_of_dvd (Int.dvd_add divides (Int.dvd_mul_right d m))]
    · rw [Int.tmod_eq_emod_of_nonneg first, Int.tmod_eq_emod_of_nonneg second,
        Int.add_mul_emod_self_left]
    · have opposite : (-n + d * -m).tmod d = (-n).tmod d := by
        rw [Int.tmod_eq_emod_of_nonneg (by rw [mul_neg]; omega),
          Int.tmod_eq_emod_of_nonneg (by omega), Int.add_mul_emod_self_left]
      rw [show -n + d * -m = -(n + d * m) by ring, Int.neg_tmod, Int.neg_tmod] at opposite
      omega

theorem tdiv_add_eq_iff (nonzero : d ≠ 0) (step : d ∣ s) (n : Int) :
    (n + s).tdiv d = n.tdiv d + s.tdiv d ↔ d ∣ n ∨ SameSide n (n + s) := by
  rw [← tmod_add_eq_iff step n]
  have first := Int.mul_tdiv_add_tmod (n + s) d
  have second := Int.mul_tdiv_add_tmod n d
  have third := Int.mul_tdiv_cancel' step
  constructor
  · intro quotient
    rw [quotient, mul_add] at first
    omega
  · intro remainder
    refine mul_left_cancel₀ nonzero ?_
    rw [mul_add]
    omega

/-- The quotient stays exactly where the remainder advances. -/
theorem tmod_add_advances_iff (nonzero : d ≠ 0) (n k : Int) :
    (n + k).tmod d = n.tmod d + k ↔ (n + k).tdiv d = n.tdiv d := by
  have first := Int.mul_tdiv_add_tmod (n + k) d
  have second := Int.mul_tdiv_add_tmod n d
  constructor
  · intro advances
    have product : d * (n + k).tdiv d = d * n.tdiv d := by omega
    exact mul_left_cancel₀ nonzero product
  · intro stays
    rw [stays] at first
    omega

theorem tmod_progression_of_pos (positive : 0 < d) (small : i < count) (nonneg : 0 ≤ b)
    (le : b ≤ n) (shift : d ∣ n - b)
    (same : b.tdiv d = (b + ((count : Int) - 1) * s).tdiv d) :
    (n + i * s).tmod d = b.tmod d + i * s ↔ 0 ≤ b + i * s ∨ n = b := by
  obtain ⟨up, down⟩ := progression_between small s
  have first := Int.mul_tdiv_add_tmod b d
  have last := Int.mul_tdiv_add_tmod (b + ((count : Int) - 1) * s) d
  rw [← same] at last
  have firstNonneg := Int.tmod_nonneg d nonneg
  have firstLt := Int.tmod_lt_of_pos b positive
  have lastLt := Int.tmod_lt_of_pos (b + ((count : Int) - 1) * s) positive
  have lastGt := Int.lt_tmod_of_pos (b + ((count : Int) - 1) * s) positive
  have lastSign := fun nonneg => Int.tmod_nonneg (a := b + ((count : Int) - 1) * s) d nonneg
  -- the multiple of `d` below `b`, and how far `n` is above `b`
  have multiple : d * b.tdiv d ≤ 0 ∨ d ≤ d * b.tdiv d := by
    rcases le_or_gt (d * b.tdiv d) 0 with zero | above
    · exact Or.inl zero
    · exact Or.inr (Int.le_of_dvd above (dvd_mul_right _ _))
  have quotientNonneg : 0 ≤ d * b.tdiv d :=
    mul_nonneg positive.le (Int.tdiv_nonneg nonneg positive.le)
  have above : n = b ∨ d ≤ n - b := by
    rcases le.eq_or_lt with equal | less
    · exact Or.inl equal.symm
    · exact Or.inr (Int.le_of_dvd (by omega) shift)
  have between : -d < b.tmod d + i * s ∧ b.tmod d + i * s < d ∧
      (0 ≤ d * b.tdiv d + (b.tmod d + i * s) → 0 ≤ b.tmod d + i * s) := by
    rcases le_total 0 s with nonneg | nonpos
    · have range := up nonneg
      omega
    · have range := down nonpos
      refine ⟨by omega, by omega, fun aboveZero => ?_⟩
      rcases multiple with zero | large
      · omega
      · have := lastSign (by omega)
        omega
  have divides : d ∣ n - b + d * b.tdiv d := Int.dvd_add shift (Int.dvd_mul_right _ _)
  have regroup : n + i * s = b.tmod d + i * s + (n - b + d * b.tdiv d) := by omega
  obtain ⟨m, multipleIs⟩ := divides
  constructor
  · intro advances
    by_contra contrary
    rw [not_or] at contrary
    have := Int.tmod_nonneg (a := n + i * s) d (by omega)
    omega
  · rintro (inside | rfl)
    · have nonnegRemainder := between.2.2 (by omega)
      rw [Int.tmod_eq_emod_of_nonneg (by omega), regroup, multipleIs, Int.add_mul_emod_self_left,
        Int.emod_eq_of_lt nonnegRemainder between.2.1]
    · rcases lt_or_ge (n + i * s) 0 with below | inside
      · have zero : d * n.tdiv d = 0 := by omega
        have value : n + i * s = n.tmod d + i * s := by omega
        have opposite := Int.tmod_eq_of_lt (a := -(n + i * s)) (b := d) (by omega) (by omega)
        rw [Int.neg_tmod] at opposite
        omega
      · have nonnegRemainder := between.2.2 (by omega)
        rw [Int.tmod_eq_emod_of_nonneg inside, regroup, multipleIs, Int.add_mul_emod_self_left,
          Int.emod_eq_of_lt nonnegRemainder between.2.1]

/-- Where the quotient is the same at both ends of a progression from `b`, the remainders of a
progression from `n` above it advance, except for those of it that a negative one stands for. -/
theorem tmod_progression_iff (nonzero : d ≠ 0) (small : i < count) (nonneg : 0 ≤ b)
    (le : b ≤ n) (shift : d ∣ n - b)
    (same : b.tdiv d = (b + ((count : Int) - 1) * s).tdiv d) :
    (n + i * s).tmod d = b.tmod d + i * s ↔ 0 ≤ b + i * s ∨ n = b := by
  rcases lt_or_gt_of_ne nonzero with negative | positive
  · have opposite := tmod_progression_of_pos (d := -d) (s := s) (by omega) small nonneg le
      (Int.neg_dvd.mpr shift) (by rw [Int.tdiv_neg, Int.tdiv_neg, same])
    rwa [Int.tmod_neg, Int.tmod_neg] at opposite
  · exact tmod_progression_of_pos positive small nonneg le shift same

end Tvm.Lib
