import Mathlib.Algebra.Order.Ring.Int
import Mathlib.Tactic.Linarith
import Mathlib.Tactic.Ring

/-!
# Truncated and floored division of integers

Laws of `tdiv`, `tmod`, `fdiv` and `fmod` under addition, scaling and `min`/`max`.  Truncation
commutes with adding a multiple of the divisor for non-negative dividends only; flooring does
so always.
-/

namespace Tvm.Lib

variable {x y z a b c d : Int}

theorem fdiv_eq_ediv (positive : 0 < d) : x.fdiv d = x / d :=
  Int.fdiv_eq_ediv_of_nonneg x positive.le

theorem fmod_eq_emod (positive : 0 < d) : x.fmod d = x % d :=
  Int.fmod_eq_emod_of_nonneg x positive.le

theorem fdiv_add (nonzero : d ≠ 0) (x k : Int) :
    (x + k).fdiv d = x.fdiv d + (x.fmod d + k).fdiv d := by
  have split := Int.mul_fdiv_add_fmod x d
  have regroup : x + k = x.fmod d + k + d * x.fdiv d := by omega
  rw [regroup, Int.add_mul_fdiv_left _ _ nonzero, add_comm]

theorem fdiv_fdiv (firstPositive : 0 < c) (secondPositive : 0 < d) :
    (x.fdiv c).fdiv d = x.fdiv (c * d) := by
  rw [fdiv_eq_ediv firstPositive, fdiv_eq_ediv secondPositive,
    fdiv_eq_ediv (mul_pos firstPositive secondPositive), Int.ediv_ediv_of_nonneg firstPositive.le]

theorem fdiv_add_fdiv (firstPositive : 0 < c) (secondPositive : 0 < d) (k : Int) :
    (x.fdiv c + k).fdiv d = (x + c * k).fdiv (c * d) := by
  rw [← fdiv_fdiv firstPositive secondPositive, Int.add_mul_fdiv_left _ _ firstPositive.ne']

theorem fdiv_mul_add (nonzero : d ≠ 0) (divides : d ∣ c) (x y : Int) :
    (x * c + y).fdiv d = x * c.fdiv d + y.fdiv d := by
  obtain ⟨k, rfl⟩ := divides
  rw [Int.mul_fdiv_cancel_left _ nonzero, show x * (d * k) + y = y + d * (x * k) by ring,
    Int.add_mul_fdiv_left _ _ nonzero, add_comm]

theorem fmod_add_mul_fmod (x y c d : Int) : (y + x * c.fmod d).fmod d = (y + x * c).fmod d := by
  rw [Int.fmod_def c, show y + x * (c - d * c.fdiv d) = y + x * c - d * (x * c.fdiv d) by ring,
    Int.sub_mul_fmod_self_left]

theorem fdiv_add_self (nonzero : d ≠ 0) (x : Int) : (x + d).fdiv d = x.fdiv d + 1 := by
  have once := Int.add_mul_fdiv_left x 1 nonzero
  rwa [mul_one] at once

theorem fdiv_mul_mul (nonzero : x ≠ 0) (a b : Int) : (x * a).fdiv (x * b) = a.fdiv b := by
  rcases lt_or_gt_of_ne nonzero with negative | positive
  · rw [← Int.neg_fdiv_neg, ← neg_mul, ← neg_mul, Int.mul_fdiv_mul_of_pos _ _ (by omega)]
  · exact Int.mul_fdiv_mul_of_pos _ _ positive

theorem fmod_mul_mul (nonzero : x ≠ 0) (a b : Int) : (x * a).fmod (x * b) = x * a.fmod b := by
  rw [Int.fmod_def, Int.fmod_def, fdiv_mul_mul nonzero]
  ring

theorem fdiv_mul_add_of_lt (firstPositive : 0 < c) (kPositive : 0 < a) (nonneg : 0 ≤ y)
    (small : y < c) (x : Int) : (x * c + y).fdiv (c * a) = x.fdiv a := by
  rw [← fdiv_fdiv firstPositive kPositive, show x * c + y = y + c * x by ring,
    Int.add_mul_fdiv_left _ _ firstPositive.ne', fdiv_eq_ediv firstPositive,
    Int.ediv_eq_zero_of_lt nonneg small, zero_add]

theorem fmod_mul_add_of_lt (firstPositive : 0 < c) (kPositive : 0 < a) (nonneg : 0 ≤ y)
    (small : y < c) (x : Int) : (x * c + y).fmod (c * a) = x.fmod a * c + y := by
  rw [Int.fmod_def, fdiv_mul_add_of_lt firstPositive kPositive nonneg small, Int.fmod_def]
  ring

/-- Quotient of a sum whose parts are divided on their own, up to what the remainders carry. -/
theorem fdiv_mul_add_residue (nonzero : d ≠ 0) (x c y : Int) :
    (x * c + y).fdiv d =
      x * c.fdiv d + (y.fdiv d + (x * c.fmod d + y.fmod d).fdiv d) := by
  have split : x * c + y = x * c.fmod d + y.fmod d + d * (x * c.fdiv d + y.fdiv d) := by
    rw [Int.fmod_def, Int.fmod_def]
    ring
  rw [split, Int.add_mul_fdiv_left _ _ nonzero]
  ring

theorem fdiv_mul_add_of_fmod_lt (firstPositive : 0 < c) (kPositive : 0 < a)
    (small : y.fmod (c * a) < c) (x : Int) :
    (x * c + y).fdiv (c * a) = x.fdiv a + y.fdiv (c * a) := by
  have positive := mul_pos firstPositive kPositive
  have split : x * c + y = x * c + y.fmod (c * a) + c * a * y.fdiv (c * a) := by
    rw [Int.fmod_def]
    ring
  rw [split, Int.add_mul_fdiv_left _ _ positive.ne',
    fdiv_mul_add_of_lt firstPositive kPositive (Int.fmod_nonneg_of_pos y positive) small]

theorem fdiv_eq_zero_iff (positive : 0 < d) : x.fdiv d = 0 ↔ 0 ≤ x ∧ x < d := by
  rw [fdiv_eq_ediv positive]
  constructor
  · intro zero
    have split := Int.mul_ediv_add_emod x d
    have lower := Int.emod_nonneg x positive.ne'
    have upper := Int.emod_lt_of_pos x positive
    rw [zero, mul_zero] at split
    omega
  · rintro ⟨nonneg, small⟩
    exact Int.ediv_eq_zero_of_lt nonneg small

theorem fdiv_le_fdiv (positive : 0 < d) (le : x ≤ y) : x.fdiv d ≤ y.fdiv d := by
  rw [fdiv_eq_ediv positive, fdiv_eq_ediv positive]
  exact Int.ediv_le_ediv positive le

theorem fdiv_lt_iff (positive : 0 < d) : a.fdiv d < x ↔ a < x * d := by
  rw [fdiv_eq_ediv positive]
  exact Int.ediv_lt_iff_lt_mul positive

theorem fdiv_mul_le (positive : 0 < d) (x : Int) : x.fdiv d * d ≤ x := by
  have split := Int.fdiv_mul_add_fmod x d
  have nonneg := Int.fmod_nonneg_of_pos x positive
  omega

theorem le_fdiv_mul (positive : 0 < d) (x : Int) : x ≤ (x + (d - 1)).fdiv d * d := by
  have split := Int.fdiv_mul_add_fmod (x + (d - 1)) d
  have small := Int.fmod_lt_of_pos (x + (d - 1)) positive
  omega

theorem max_le_fdiv_mul_iff (positive : 0 < d) :
    max x d ≤ (x + (d - 1)).fdiv d * d ↔ 1 ≤ x := by
  have above := le_fdiv_mul positive x
  constructor
  · intro le
    by_contra small
    have below := fdiv_le_fdiv positive (by omega : x + (d - 1) ≤ d - 1)
    rw [(fdiv_eq_zero_iff positive).mpr (by omega : 0 ≤ d - 1 ∧ d - 1 < d)] at below
    have product := mul_nonpos_of_nonpos_of_nonneg below positive.le
    omega
  · intro large
    have one := fdiv_le_fdiv positive (by omega : d ≤ x + (d - 1))
    rw [Int.fdiv_self positive.ne'] at one
    have product := mul_le_mul_of_nonneg_right one positive.le
    omega

theorem fdiv_le_fdiv_of_neg (negative : d < 0) (le : x ≤ y) : y.fdiv d ≤ x.fdiv d := by
  rw [← Int.neg_fdiv_neg, ← Int.neg_fdiv_neg x]
  exact fdiv_le_fdiv (by omega) (by omega)

theorem tdiv_mul_add (positive : 0 < d) (divides : d ∣ c) (nonneg : 0 ≤ x * c) (rest : 0 ≤ y) :
    (x * c + y).tdiv d = x * c.tdiv d + y.tdiv d := by
  rw [Int.tdiv_eq_ediv_of_nonneg (by omega), Int.tdiv_eq_ediv_of_dvd divides,
    Int.tdiv_eq_ediv_of_nonneg rest]
  obtain ⟨k, rfl⟩ := divides
  rw [Int.mul_ediv_cancel_left _ positive.ne', show x * (d * k) + y = y + d * (x * k) by ring,
    Int.add_mul_ediv_left _ _ positive.ne', add_comm]

theorem tdiv_tdiv (positive : 0 < c) (x d : Int) : (x.tdiv c).tdiv d = x.tdiv (c * d) := by
  have ofNonneg (x : Int) (nonneg : 0 ≤ x) : (x.tdiv c).tdiv d = x.tdiv (c * d) := by
    rw [Int.tdiv_eq_ediv_of_nonneg nonneg, Int.tdiv_eq_ediv_of_nonneg nonneg,
      Int.tdiv_eq_ediv_of_nonneg (Int.ediv_nonneg nonneg positive.le),
      Int.ediv_ediv_of_nonneg positive.le]
  rcases le_total 0 x with nonneg | nonpos
  · exact ofNonneg x nonneg
  · have negated := ofNonneg (-x) (by omega)
    rw [Int.neg_tdiv, Int.neg_tdiv, Int.neg_tdiv] at negated
    omega

theorem tdiv_add_tdiv (firstPositive : 0 < c) (nonneg : 0 ≤ x) (rest : 0 ≤ y) : (x.tdiv c + y).tdiv d = (x + c * y).tdiv (c * d) := by
  rw [← tdiv_tdiv firstPositive]
  have product : 0 ≤ y * c := mul_nonneg rest firstPositive.le
  rw [show x + c * y = y * c + x by ring,
    tdiv_mul_add firstPositive (dvd_refl c) product nonneg, Int.tdiv_self firstPositive.ne', mul_one,
    add_comm]

theorem tdiv_add_self (positive : 0 < d) (nonneg : 0 ≤ x) : (x + d).tdiv d = x.tdiv d + 1 := by
  have once := tdiv_mul_add (x := 1) positive (dvd_refl d) (by omega) nonneg
  rwa [Int.tdiv_self positive.ne', one_mul, one_mul, add_comm, add_comm 1] at once

theorem tdiv_add (positive : 0 < d) (nonneg : 0 ≤ x) (rest : 0 ≤ y) :
    (x + y).tdiv d = x.tdiv d + (x.tmod d + y).tdiv d := by
  rw [Int.tdiv_eq_ediv_of_nonneg (by omega), Int.tdiv_eq_ediv_of_nonneg nonneg,
    Int.tmod_eq_emod_of_nonneg nonneg,
    Int.tdiv_eq_ediv_of_nonneg (add_nonneg (Int.emod_nonneg x positive.ne') rest),
    ← fdiv_eq_ediv positive, ← fdiv_eq_ediv positive, ← fdiv_eq_ediv positive,
    ← fmod_eq_emod positive]
  exact fdiv_add positive.ne' x y

theorem tmod_of_neg (positive : 0 < d) (negative : x < 0) (remains : x % d ≠ 0) :
    x.tmod d = x % d - d := by
  rw [Int.tmod_eq_emod, if_neg, Int.natAbs_of_nonneg positive.le]
  rintro (nonneg | divisible)
  · omega
  · exact remains (Int.emod_eq_zero_of_dvd divisible)

/-- The difference of two truncated quotients, seen from the remainder of the smaller dividend
moved by a remainder.  It fails where the move reaches the negative numbers. -/
theorem tdiv_sub_tdiv_iff (positive : 0 < d) (nonneg : 0 ≤ x + b) (le : b ≤ a) :
    ((x + b.fmod d).tmod d + (a - b)).tdiv d = (x + a).tdiv d - (x + b).tdiv d ↔
      ¬(x + b.fmod d < 0 ∧ (x + b) % d ≠ 0 ∧ d ≤ (x + b) % d + (a - b)) := by
  have sum := tdiv_add positive nonneg (by omega : 0 ≤ a - b)
  rw [Int.tmod_eq_emod_of_nonneg nonneg, show x + b + (a - b) = x + a by ring] at sum
  rw [sum, add_sub_cancel_left]
  have same : (x + b.fmod d) % d = (x + b) % d := by
    rw [fmod_eq_emod positive, Int.add_emod_emod]
  have lower := Int.emod_nonneg (x + b) positive.ne'
  have upper := Int.emod_lt_of_pos (x + b) positive
  rcases le_or_gt 0 (x + b.fmod d) with start | start
  · rw [Int.tmod_eq_emod_of_nonneg start, same]
    exact iff_of_true rfl fun bad => start.not_gt bad.1
  · by_cases remains : (x + b) % d = 0
    · rw [Int.tmod_eq_zero_of_dvd (Int.dvd_of_emod_eq_zero (same.trans remains)), remains]
      exact iff_of_true rfl fun bad => bad.2.1 rfl
    · rw [tmod_of_neg positive start (by rwa [same]), same]
      generalize (x + b) % d = m at *
      rcases le_or_gt d (m + (a - b)) with wraps | small
      · have once := tdiv_add_self positive (by omega : 0 ≤ m - d + (a - b))
        rw [show m - d + (a - b) + d = m + (a - b) by ring] at once
        rw [once]
        exact iff_of_false (by omega) (not_not.mpr ⟨start, remains, wraps⟩)
      · have zero := Int.tdiv_eq_zero_of_lt (by omega : 0 ≤ -(m - d + (a - b))) (by omega : _ < d)
        rw [Int.neg_tdiv, neg_eq_zero] at zero
        rw [zero, Int.tdiv_eq_zero_of_lt (by omega) small]
        exact iff_of_true rfl fun bad => small.not_ge bad.2.2

theorem tmod_mul_add (divides : d ∣ c) (nonneg : 0 ≤ x * c) (rest : 0 ≤ y) :
    (x * c + y).tmod d = y.tmod d := by
  rw [Int.tmod_eq_emod_of_nonneg (by omega), Int.tmod_eq_emod_of_nonneg rest]
  obtain ⟨k, rfl⟩ := divides
  rw [show x * (d * k) + y = y + d * (x * k) by ring, Int.add_mul_emod_self_left]

theorem tdiv_lt_iff (positive : 0 < d) (nonneg : 0 ≤ a) : a.tdiv d < x ↔ a < x * d := by
  rw [Int.tdiv_eq_ediv_of_nonneg nonneg]
  exact Int.ediv_lt_iff_lt_mul positive

theorem lt_tdiv_iff (positive : 0 < d) (nonpos : a ≤ 0) : x < a.tdiv d ↔ x * d < a := by
  have negated := tdiv_lt_iff (x := -x) positive (by omega : 0 ≤ -a)
  rw [Int.neg_tdiv, neg_mul] at negated
  omega

theorem tdiv_lt_iff_of_pos (positive : 0 < d) (bound : 0 < x) : a.tdiv d < x ↔ a < x * d := by
  rcases le_total 0 a with nonneg | nonpos
  · exact tdiv_lt_iff positive nonneg
  · have quotient := Int.tdiv_le_tdiv positive nonpos
    rw [Int.zero_tdiv] at quotient
    have product := mul_pos bound positive
    omega

theorem lt_tdiv_iff_of_neg (positive : 0 < d) (bound : x < 0) : x < a.tdiv d ↔ x * d < a := by
  have negated := tdiv_lt_iff_of_pos (a := -a) positive (by omega : 0 < -x)
  rw [Int.neg_tdiv, neg_mul] at negated
  omega

/-- Rounding up to a multiple of the divisor: truncation rounds a negative number up anyway. -/
theorem le_tdiv_mul (positive : 0 < d) (x : Int) : x ≤ (x + (d - 1)).tdiv d * d := by
  have split := Int.tdiv_mul_add_tmod (x + (d - 1)) d
  have small := Int.tmod_lt_of_pos (x + (d - 1)) positive
  omega

theorem max_le_tdiv_mul_iff (positive : 0 < d) :
    max x d ≤ (x + (d - 1)).tdiv d * d ↔ 1 ≤ x := by
  have above := le_tdiv_mul positive x
  constructor
  · intro le
    by_contra small
    have below := Int.tdiv_le_tdiv positive (by omega : x + (d - 1) ≤ d - 1)
    rw [Int.tdiv_eq_zero_of_lt (by omega) (by omega : d - 1 < d)] at below
    have product := mul_nonpos_of_nonpos_of_nonneg below positive.le
    omega
  · intro large
    have one := Int.tdiv_le_tdiv positive (by omega : d ≤ x + (d - 1))
    rw [Int.tdiv_self positive.ne'] at one
    have product := mul_le_mul_of_nonneg_right one positive.le
    omega

theorem tdiv_le_tdiv_of_neg (negative : d < 0) (le : x ≤ y) : y.tdiv d ≤ x.tdiv d := by
  have order := Int.tdiv_le_tdiv (c := -d) (by omega) le
  rw [Int.tdiv_neg, Int.tdiv_neg] at order
  omega

theorem min_of_monotone {f : Int → Int} (monotone : ∀ x y, x ≤ y → f x ≤ f y) (x y : Int) :
    min (f x) (f y) = f (min x y) := by
  rcases le_total x y with le | le
  · rw [min_eq_left le, min_eq_left (monotone _ _ le)]
  · rw [min_eq_right le, min_eq_right (monotone _ _ le)]

theorem max_of_monotone {f : Int → Int} (monotone : ∀ x y, x ≤ y → f x ≤ f y) (x y : Int) :
    max (f x) (f y) = f (max x y) := by
  rcases le_total x y with le | le
  · rw [max_eq_right le, max_eq_right (monotone _ _ le)]
  · rw [max_eq_left le, max_eq_left (monotone _ _ le)]

theorem min_of_antitone {f : Int → Int} (antitone : ∀ x y, x ≤ y → f y ≤ f x) (x y : Int) :
    min (f x) (f y) = f (max x y) := by
  rcases le_total x y with le | le
  · rw [max_eq_right le, min_eq_right (antitone _ _ le)]
  · rw [max_eq_left le, min_eq_left (antitone _ _ le)]

theorem max_of_antitone {f : Int → Int} (antitone : ∀ x y, x ≤ y → f y ≤ f x) (x y : Int) :
    max (f x) (f y) = f (min x y) := by
  rcases le_total x y with le | le
  · rw [min_eq_left le, max_eq_left (antitone _ _ le)]
  · rw [min_eq_right le, max_eq_right (antitone _ _ le)]

end Tvm.Lib
