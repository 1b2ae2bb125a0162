import Tvm.Lib.Congruence

/-!
# Helpers of `int_operator.h`

The arithmetic runs in `int64_t`: an operation whose result does not fit is `none`.
-/

namespace Tvm.Arith

def fitsInt64 (value : Int) : Bool :=
  -2 ^ 63 ≤ value && value < 2 ^ 63

/-- The result of one `int64_t` operation. -/
def int64 (value : Int) : Option Int :=
  if fitsInt64 value then some value else none

theorem eq_of_int64 {value result : Int} (fits : int64 value = some result) : result = value := by
  rw [int64] at fits
  split at fits
  · exact (Option.some.inj fits).symm
  · cases fits

/-- The loop of `ZeroAwareGCD`. Every turn makes `b` smaller, so `b` turns are enough. -/
def gcdLoop : Nat → Int → Int → Int
  | 0, _, b => b
  | fuel + 1, a, b => if a.tmod b = 0 then b else gcdLoop fuel b (a.tmod b)

def zeroAwareGCD (a b : Int) : Option Int :=
  (int64 |a|).bind fun a => (int64 |b|).map fun b =>
    let larger := if a < b then b else a
    let smaller := if a < b then a else b
    if smaller = 0 then larger else gcdLoop smaller.toNat larger smaller

theorem gcdLoop_eq {fuel : Nat} {a b : Int} (nonneg : 0 ≤ a) (positive : 0 < b)
    (enough : b ≤ fuel) : gcdLoop fuel a b = Int.gcd a b := by
  induction fuel generalizing a b with
  | zero => omega
  | succ fuel ih =>
    rw [gcdLoop, Int.tmod_eq_emod_of_nonneg nonneg]
    have small := Int.emod_lt_of_pos a positive
    have rest := Int.emod_nonneg a positive.ne'
    split
    · rename_i divides
      rw [Int.gcd_eq_natAbs_right (Int.dvd_of_emod_eq_zero divides),
        Int.natAbs_of_nonneg positive.le]
    · rename_i nonzero
      rw [ih positive.le (by omega) (by omega), Int.gcd_comm, Int.gcd_emod]

theorem gcd_abs_left (a b : Int) : Int.gcd |a| b = Int.gcd a b := by
  rw [Int.gcd, Int.natAbs_abs, ← Int.gcd]

/-- The loop is run with the smaller number behind the larger one. -/
theorem ordered_gcd (a b : Int) :
    (let larger := if |a| < |b| then |b| else |a|
    let smaller := if |a| < |b| then |a| else |b|
    if smaller = 0 then larger else gcdLoop smaller.toNat larger smaller) = Int.gcd a b := by
  rw [← gcd_abs_left a b, Int.gcd_comm |a| b, ← gcd_abs_left b |a|, Int.gcd_comm |b|]
  have firstNonneg := abs_nonneg a
  have secondNonneg := abs_nonneg b
  generalize |a| = a at *
  generalize |b| = b at *
  by_cases swapped : a < b
  · simp only [swapped, if_true]
    split
    · rename_i isZero
      rw [isZero, Int.gcd_zero_left, Int.natAbs_of_nonneg secondNonneg]
    · rename_i nonzero
      rw [gcdLoop_eq secondNonneg (by omega) (by omega), Int.gcd_comm]
  · simp only [swapped, if_false]
    split
    · rename_i isZero
      rw [isZero, Int.gcd_zero_right, Int.natAbs_of_nonneg firstNonneg]
    · rename_i nonzero
      exact gcdLoop_eq firstNonneg (by omega) (by omega)

theorem zeroAwareGCD_eq {a b g : Int} (run : zeroAwareGCD a b = some g) : g = Int.gcd a b := by
  rw [zeroAwareGCD, Option.bind_eq_some_iff] at run
  obtain ⟨first, firstFits, run⟩ := run
  rw [Option.map_eq_some_iff] at run
  obtain ⟨second, secondFits, rfl⟩ := run
  rw [eq_of_int64 firstFits, eq_of_int64 secondFits]
  exact ordered_gcd a b

/-- The loop of `ExtendedEuclidean`: the last two remainders with their factors of `a`. -/
def euclidLoop : Nat → (s oldS r oldR : Int) → Option (Int × Int)
  | 0, _, _, _, _ => none
  | fuel + 1, s, oldS, r, oldR =>
    if r = 0 then some (oldS, oldR)
    else
      (int64 (oldR.tdiv r * r)).bind fun qr => (int64 (oldR - qr)).bind fun nextR =>
        (int64 (oldR.tdiv r * s)).bind fun qs => (int64 (oldS - qs)).bind fun nextS =>
          euclidLoop fuel nextS s nextR r

structure Bezout where
  gcd : Int
  x : Int
  y : Int

def extendedEuclidean (a b : Int) : Option Bezout :=
  (int64 |a|).bind fun oldR => (euclidLoop (b.natAbs + 1) 0 1 b oldR).bind fun found =>
    let x := if a ≥ 0 then found.1 else -found.1
    if b ≠ 0 then
      (int64 (x * a)).bind fun xa => (int64 (found.2 - xa)).map fun rest =>
        ⟨found.2, x, rest.tdiv b⟩
    else some ⟨found.2, x, 1⟩

theorem euclidLoop_spec {fuel : Nat} {s oldS r oldR a b : Int} {result : Int × Int}
    (remainder : 0 ≤ r) (oldRemainder : 0 ≤ oldR) (combination : b ∣ r - s * a)
    (oldCombination : b ∣ oldR - oldS * a) (run : euclidLoop fuel s oldS r oldR = some result) :
    result.2 = Int.gcd oldR r ∧ b ∣ result.2 - result.1 * a := by
  induction fuel generalizing s oldS r oldR with
  | zero => cases run
  | succ fuel ih =>
    rw [euclidLoop] at run
    split at run
    · rename_i finished
      cases run
      rw [finished, Int.gcd_zero_right, Int.natAbs_of_nonneg oldRemainder]
      exact ⟨rfl, oldCombination⟩
    · rename_i running
      simp only [Option.bind_eq_some_iff] at run
      obtain ⟨qr, qrFits, nextR, nextRFits, qs, qsFits, nextS, nextSFits, run⟩ := run
      have nextRIs : nextR = oldR % r := by
        rw [eq_of_int64 nextRFits, eq_of_int64 qrFits, mul_comm,
          ← Int.tmod_def, Int.tmod_eq_emod_of_nonneg oldRemainder]
      have nextCombination : b ∣ nextR - nextS * a := by
        have difference := dvd_sub oldCombination (combination.mul_left (oldR.tdiv r))
        rw [eq_of_int64 nextRFits, eq_of_int64 qrFits, eq_of_int64 nextSFits,
          eq_of_int64 qsFits]
        have regroup : oldR - oldR.tdiv r * r - (oldS - oldR.tdiv r * s) * a =
            oldR - oldS * a - oldR.tdiv r * (r - s * a) := by ring
        rwa [regroup]
      have rest := ih (nextRIs ▸ Int.emod_nonneg oldR running) remainder
        nextCombination combination run
      rw [nextRIs, Int.gcd_comm, Int.gcd_emod] at rest
      exact rest

/-- `ExtendedEuclidean` of a non-negative second coefficient gives the gcd and a factor of the
first one that reaches it modulo the second. -/
theorem extendedEuclidean_spec {a b : Int} {bezout : Bezout} (nonneg : 0 ≤ b)
    (run : extendedEuclidean a b = some bezout) :
    bezout.gcd = Int.gcd a b ∧ b ∣ bezout.gcd - bezout.x * a := by
  rw [extendedEuclidean, Option.bind_eq_some_iff] at run
  obtain ⟨oldR, oldRFits, run⟩ := run
  rw [Option.bind_eq_some_iff] at run
  obtain ⟨⟨oldS, gcd⟩, loop, run⟩ := run
  rw [eq_of_int64 oldRFits] at loop
  obtain ⟨gcdIs, factor⟩ := euclidLoop_spec (a := |a|) (b := b) nonneg (abs_nonneg a)
    (by simp) (by simp) loop
  rw [gcd_abs_left] at gcdIs
  have fields : bezout.gcd = gcd ∧ bezout.x = if a ≥ 0 then oldS else -oldS := by
    by_cases nonzero : b ≠ 0
    · simp only [if_pos nonzero, Option.bind_eq_some_iff, Option.map_eq_some_iff] at run
      obtain ⟨xa, -, rest, -, rfl⟩ := run
      exact ⟨rfl, rfl⟩
    · simp only [if_neg nonzero, Option.some.injEq] at run
      rw [← run]
      exact ⟨rfl, rfl⟩
  rw [fields.1, fields.2]
  refine ⟨gcdIs, ?_⟩
  split
  · rename_i sign
    rwa [abs_of_nonneg sign] at factor
  · rename_i sign
    rwa [abs_of_neg (by omega), ← neg_mul_comm] at factor

namespace Unbounded

theorem natAbs_sub_tdiv_mul_lt {r : Int} (oldR : Int) (running : r ≠ 0) :
    (oldR - oldR.tdiv r * r).natAbs < r.natAbs := by
  rw [mul_comm, ← Int.tmod_def, Int.natAbs_tmod]
  exact Nat.mod_lt _ (Int.natAbs_pos.mpr running)

/-- The loop of `ExtendedEuclidean`, whose remainder gets smaller in absolute value. -/
def euclidLoop (s oldS r oldR : Int) : Int × Int :=
  if r = 0 then (oldS, oldR)
  else euclidLoop (oldS - oldR.tdiv r * s) s (oldR - oldR.tdiv r * r) r
termination_by r.natAbs
decreasing_by exact natAbs_sub_tdiv_mul_lt oldR ‹_›

def extendedEuclidean (a b : Int) : Bezout :=
  let found := euclidLoop 0 1 b (if a ≥ 0 then a else -a)
  let x := if a ≥ 0 then found.1 else -found.1
  ⟨found.2, x, if b ≠ 0 then (found.2 - x * a).tdiv b else 1⟩

def zeroAwareGCD (a b : Int) : Int :=
  let a := if a < 0 then -a else a
  let b := if b < 0 then -b else b
  let larger := if a < b then b else a
  let smaller := if a < b then a else b
  if smaller = 0 then larger else gcdLoop smaller.toNat larger smaller

/-- `LeastCommonMultiple`, which divides by zero where both numbers are zero. -/
def leastCommonMultiple (a b : Int) : Option Int :=
  let gcd := (extendedEuclidean a b).gcd
  if gcd = 0 then none else some ((a * b).tdiv gcd)

section Loop

variable {s oldS r oldR a b : Int}

/-- Each turn keeps the gcd of the remainders, and each remainder the multiple of the first
coefficient modulo the second. -/
theorem euclidLoop_spec (combination : b ∣ r - s * a) (oldCombination : b ∣ oldR - oldS * a) :
    (euclidLoop s oldS r oldR).2.natAbs = Int.gcd oldR r ∧
      b ∣ (euclidLoop s oldS r oldR).2 - (euclidLoop s oldS r oldR).1 * a := by
  induction s, oldS, r, oldR using euclidLoop.induct with
  | case1 s oldS oldR =>
    rw [euclidLoop, if_pos rfl, Int.gcd_zero_right]
    exact ⟨rfl, oldCombination⟩
  | case2 s oldS r oldR running ih =>
    have next : b ∣ oldR - oldR.tdiv r * r - (oldS - oldR.tdiv r * s) * a := by
      have difference := dvd_sub oldCombination (combination.mul_left (oldR.tdiv r))
      have regroup : oldR - oldR.tdiv r * r - (oldS - oldR.tdiv r * s) * a =
          oldR - oldS * a - oldR.tdiv r * (r - s * a) := by ring
      rwa [regroup]
    have sameGcd : Int.gcd r (oldR - oldR.tdiv r * r) = Int.gcd oldR r := by
      rw [Int.gcd_comm oldR r, Int.gcd_sub_mul_right_right]
    obtain ⟨gcd, factor⟩ := ih next combination
    rw [euclidLoop, if_neg running]
    exact ⟨gcd.trans sameGcd, factor⟩

theorem euclidLoop_nonneg (remainder : 0 ≤ r) (oldRemainder : 0 ≤ oldR) :
    0 ≤ (euclidLoop s oldS r oldR).2 := by
  induction s, oldS, r, oldR using euclidLoop.induct with
  | case1 s oldS oldR =>
    rw [euclidLoop, if_pos rfl]
    exact oldRemainder
  | case2 s oldS r oldR running ih =>
    rw [euclidLoop, if_neg running]
    apply ih _ remainder
    rw [mul_comm, ← Int.tmod_def]
    exact Int.tmod_nonneg r oldRemainder

end Loop

variable {a b : Int}

theorem ite_neg_eq_abs (a : Int) : (if a ≥ 0 then a else -a) = |a| := by
  split
  · rename_i nonneg
    exact (abs_of_nonneg nonneg).symm
  · rename_i negative
    exact (abs_of_neg (not_le.mp negative)).symm

theorem extendedEuclidean_spec (a b : Int) :
    (extendedEuclidean a b).gcd.natAbs = Int.gcd a b ∧
      a * (extendedEuclidean a b).x + b * (extendedEuclidean a b).y =
        (extendedEuclidean a b).gcd := by
  have start : b ∣ b - 0 * |a| := by rw [zero_mul, sub_zero]
  have start' : b ∣ |a| - 1 * |a| := by rw [one_mul, sub_self]; exact dvd_zero b
  obtain ⟨gcd, factor⟩ := euclidLoop_spec start start'
  rw [gcd_abs_left] at gcd
  rw [extendedEuclidean, ite_neg_eq_abs]
  refine ⟨gcd, ?_⟩
  dsimp only
  by_cases nonzero : b ≠ 0
  · have signed : (if a ≥ 0 then (euclidLoop 0 1 b |a|).1 else -(euclidLoop 0 1 b |a|).1) * a =
        (euclidLoop 0 1 b |a|).1 * |a| := by
      rw [← ite_neg_eq_abs]
      split
      · rfl
      · ring
    rw [if_pos nonzero, signed, Int.mul_tdiv_cancel' factor, mul_comm, signed]
    ring
  · -- the loop ends at once
    rw [not_not.mp nonzero, if_neg (not_not.mpr rfl), euclidLoop, if_pos rfl,
      ← ite_neg_eq_abs]
    split
    · ring
    · ring

theorem extendedEuclidean_nonneg (positive : 0 < b) : 0 ≤ (extendedEuclidean a b).gcd := by
  rw [extendedEuclidean]
  apply euclidLoop_nonneg positive.le
  split
  · assumption
  · omega

theorem zeroAwareGCD_eq (a b : Int) : zeroAwareGCD a b = Int.gcd a b := by
  have isAbs : ∀ c : Int, (if c < 0 then -c else c) = |c| := by
    intro c
    split
    · rename_i negative
      exact (abs_of_neg negative).symm
    · rename_i nonneg
      exact (abs_of_nonneg (not_lt.mp nonneg)).symm
  rw [zeroAwareGCD, isAbs, isAbs]
  exact ordered_gcd a b

/-- The helpers compute the gcd, its factors and the least common multiple. -/
theorem euclid_exact (a b : Int) :
    ((extendedEuclidean a b).gcd.natAbs = Int.gcd a b ∧
      a * (extendedEuclidean a b).x + b * (extendedEuclidean a b).y =
        (extendedEuclidean a b).gcd) ∧
    zeroAwareGCD a b = Int.gcd |a| |b| ∧
    (¬(a = 0 ∧ b = 0) → ∃ lcm, leastCommonMultiple a b = some lcm ∧ lcm.natAbs = Int.lcm a b) ∧
    (0 < a → 0 < b → 0 ≤ (extendedEuclidean a b).gcd ∧ 0 ≤ zeroAwareGCD a b ∧
      ∀ lcm, leastCommonMultiple a b = some lcm → 0 ≤ lcm) := by
  have spec := extendedEuclidean_spec a b
  have zeroAware := zeroAwareGCD_eq a b
  refine ⟨spec, ?_, fun nonzero => ?_, fun positiveA positiveB => ⟨?_, ?_, fun lcm isLcm => ?_⟩⟩
  · rw [zeroAware, gcd_abs_left, Int.gcd_comm a |b|, gcd_abs_left, Int.gcd_comm b a]
  · have running : (extendedEuclidean a b).gcd ≠ 0 := by
      intro isZero
      rw [isZero] at spec
      exact nonzero (Int.gcd_eq_zero_iff.mp spec.1.symm)
    refine ⟨_, if_neg running, ?_⟩
    rw [Int.natAbs_tdiv, Int.natAbs_mul, spec.1]
    rfl
  · exact extendedEuclidean_nonneg positiveB
  · rw [zeroAware]
    exact Int.natCast_nonneg _
  · rw [leastCommonMultiple] at isLcm
    split at isLcm
    · cases isLcm
    · cases isLcm
      exact Int.tdiv_nonneg (Int.mul_nonneg positiveA.le positiveB.le)
        (extendedEuclidean_nonneg positiveB)

end Unbounded

end Tvm.Arith
