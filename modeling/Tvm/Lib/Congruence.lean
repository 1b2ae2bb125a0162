import Mathlib.Algebra.Ring.Divisibility.Basic
import Mathlib.Data.Int.ModEq
import Mathlib.Data.Int.GCD
import Mathlib.Data.Int.Bitwise
import Mathlib.Tactic.Ring

/-!
# Residue classes of the integers under arithmetic

How the operations of a program act on a class `base` modulo `modulus`.  The modulus zero is
the class of the single integer `base`, which is what `Int.ModEq` makes of it.
-/

namespace Tvm.Lib

variable {value other base rest modulus divisor : Int}

theorem modEq_mul_gcd {n m p q : Int} (left : value ≡ n [ZMOD p]) (right : other ≡ m [ZMOD q])
    {g : Int} (product : g ∣ p * q) (first : g ∣ p * m) (second : g ∣ n * q) :
    value * other ≡ n * m [ZMOD g] := by
  obtain ⟨k, leftValue⟩ := Int.modEq_iff_add_fac.mp left.symm
  obtain ⟨l, rightValue⟩ := Int.modEq_iff_add_fac.mp right.symm
  have expanded : value * other - n * m = p * q * (k * l) + p * m * k + n * q * l := by
    rw [leftValue, rightValue]
    ring
  apply Int.ModEq.symm
  rw [Int.modEq_iff_dvd, expanded]
  exact dvd_add (dvd_add (product.mul_right _) (first.mul_right _)) (second.mul_right _)

theorem modEq_fdiv (positive : 0 < divisor) (divides : divisor ∣ modulus)
    (inClass : value ≡ base [ZMOD modulus]) :
    value.fdiv divisor ≡ base.fdiv divisor [ZMOD modulus / divisor] := by
  obtain ⟨k, valueIs⟩ := Int.modEq_iff_add_fac.mp inClass.symm
  obtain ⟨c, modulusIs⟩ := divides
  rw [Int.fdiv_eq_ediv_of_nonneg _ positive.le, Int.fdiv_eq_ediv_of_nonneg _ positive.le,
    valueIs, modulusIs, Int.mul_ediv_cancel_left _ positive.ne', mul_assoc,
    Int.add_mul_ediv_left _ _ positive.ne']
  exact Int.modEq_add_fac_self

/-- Division of a multiple of the modulus by a divisor of the modulus leaves no rest, so the
rounding does not matter. -/
theorem div_of_dvd_modulus (nonzero : divisor ≠ 0) (divides : divisor ∣ modulus)
    (inClass : value ≡ 0 [ZMOD modulus]) :
    ∃ k, value.tdiv divisor = modulus / divisor * k ∧ value.fdiv divisor = modulus / divisor * k := by
  obtain ⟨k, valueIs⟩ := Int.modEq_zero_iff_dvd.mp inClass
  obtain ⟨c, modulusIs⟩ := divides
  have product : value = divisor * (c * k) := by
    rw [valueIs, modulusIs, mul_assoc]
  refine ⟨k, ?_, ?_⟩
  · rw [product, modulusIs, Int.mul_tdiv_cancel_left _ nonzero,
      Int.mul_ediv_cancel_left _ nonzero]
  · rw [product, modulusIs, Int.mul_fdiv_cancel_left _ nonzero,
      Int.mul_ediv_cancel_left _ nonzero]

theorem tmod_modEq (divides : modulus ∣ divisor) : value.tmod divisor ≡ value [ZMOD modulus] := by
  apply Int.modEq_iff_dvd.mpr
  have quotient := Int.mul_tdiv_add_tmod value divisor
  exact ⟨divisor / modulus * value.tdiv divisor, by
    rw [← mul_assoc, Int.mul_ediv_cancel' divides]; omega⟩

theorem fmod_modEq (divides : modulus ∣ divisor) : value.fmod divisor ≡ value [ZMOD modulus] := by
  apply Int.modEq_iff_dvd.mpr
  have quotient := Int.mul_fdiv_add_fmod value divisor
  exact ⟨divisor / modulus * value.fdiv divisor, by
    rw [← mul_assoc, Int.mul_ediv_cancel' divides]; omega⟩

/-- The smallest class around two classes: both moduli and the distance of the bases are
multiples of the new modulus. -/
theorem modEq_of_dvd_union {m : Int} (divides : modulus ∣ m) (distance : modulus ∣ base - rest)
    (inClass : value ≡ rest [ZMOD m]) : value ≡ base [ZMOD modulus] :=
  (inClass.of_dvd divides).trans (Int.modEq_iff_dvd.mpr distance)

theorem modEq_inter_iff {m n common : Int} (left : common ≡ base [ZMOD m])
    (right : common ≡ rest [ZMOD n]) :
    value ≡ common [ZMOD (Int.lcm m n : Int)] ↔
      value ≡ base [ZMOD m] ∧ value ≡ rest [ZMOD n] := by
  rw [← Int.modEq_and_modEq_iff_modEq_lcm]
  constructor
  · rintro ⟨first, second⟩
    exact ⟨first.trans left, second.trans right⟩
  · rintro ⟨first, second⟩
    exact ⟨first.trans left.symm, second.trans right.symm⟩

theorem div_gcd_mul_eq_lcm {m n : Int} (left : 0 ≤ m) (right : 0 ≤ n)
    (nonzero : (Int.gcd m n : Int) ≠ 0) : m.tdiv (Int.gcd m n) * n = Int.lcm m n := by
  obtain ⟨k, multiple⟩ := Int.gcd_dvd_left m n
  have quotient : m.tdiv (Int.gcd m n) = k :=
    Int.tdiv_eq_of_eq_mul_right nonzero multiple
  apply mul_left_cancel₀ nonzero
  rw [quotient, ← mul_assoc, ← multiple, ← Int.natCast_mul, Int.gcd_mul_lcm,
    Int.natCast_mul, Int.natAbs_of_nonneg left, Int.natAbs_of_nonneg right]

theorem gcd_dvd_of_common {m n : Int} (left : value ≡ base [ZMOD m])
    (right : value ≡ rest [ZMOD n]) : (Int.gcd m n : Int) ∣ rest - base := by
  have first := Int.modEq_iff_dvd.mp (left.of_dvd (Int.gcd_dvd_left m n))
  have second := Int.modEq_iff_dvd.mp (right.of_dvd (Int.gcd_dvd_right m n))
  have difference := dvd_sub second first
  rwa [show rest - value - (base - value) = rest - base by ring] at difference

theorem land_modEq (shift : Nat) {value mask : Int} (ones : (2 : Int) ^ shift ∣ mask + 1) :
    Int.land value mask ≡ value [ZMOD 2 ^ shift] := by
  induction shift generalizing value mask with
  | zero => exact Int.modEq_one
  | succ shift ih =>
    obtain ⟨k, maskIs⟩ := ones
    have split := Int.bodd_add_div2 mask
    have odd : mask.bodd = true := by
      cases parity : mask.bodd with
      | true => rfl
      | false =>
        rw [pow_succ, mul_right_comm] at maskIs
        simp only [parity, cond_false] at split
        omega
    rw [odd, cond_true] at split
    have upper : (2 : Int) ^ shift ∣ mask.div2 + 1 := by
      refine ⟨k, ?_⟩
      rw [pow_succ, mul_right_comm] at maskIs
      omega
    have meet : Int.land value mask = Int.bit value.bodd (Int.land value.div2 mask.div2) := by
      conv_lhs => rw [← Int.bit_decomp value, ← Int.bit_decomp mask]
      rw [Int.land_bit, odd, Bool.and_true]
    have upperBits : 2 * Int.land value.div2 mask.div2 ≡ 2 * value.div2 [ZMOD 2 * 2 ^ shift] :=
      (ih upper).mul_left'
    rw [meet, Int.bit_val, pow_succ, mul_comm ((2 : Int) ^ shift)]
    conv_rhs => rw [← Int.bodd_add_div2 value, add_comm]
    exact upperBits.add_right _

end Tvm.Lib
