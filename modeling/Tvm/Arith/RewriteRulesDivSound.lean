import Tvm.Arith.RewriteRulesDiv
import Tvm.Arith.RuleSemantics
import Tvm.Lib.Division

/-!
# Soundness of the rules for division and remainder
-/

namespace Tvm.Arith.Rules

open Tvm.Lib

variable {sort : ExprSort}

theorem divFoldRules_total : ∀ rule ∈ divFoldRules, rule.TotalSound sort := by
  simp only [divFoldRules, List.forall_mem_cons, List.not_mem_nil, false_implies, implies_true,
    and_true]
  refine ⟨?_, ?_, ?_, ?_, ?_, ?_, ?_, ?_⟩
  all_goals
    refine ⟨rfl, fun ρ c cond queries _ defined => ?_⟩
    simp [Query.HoldsTotal, dividesPositive] at cond queries defined ⊢
  · exact ⟨defined, (tdiv_tdiv cond.1 _ _).symm⟩
  · exact ⟨defined, (tdiv_add_tdiv cond.1 queries cond.2.1).symm⟩
  · refine ⟨defined, ?_⟩
    obtain ⟨k, multiple⟩ := Int.dvd_of_tmod_eq_zero cond.2.2
    rw [multiple, Int.mul_tdiv_cancel_left _ defined, mul_left_comm,
      Int.mul_tdiv_cancel_left _ defined]
  · obtain ⟨firstPositive, secondPositive, multiple⟩ := cond
    obtain ⟨k, divisor⟩ := Int.dvd_of_tmod_eq_zero multiple
    rw [divisor] at secondPositive ⊢
    have kPositive : 0 < k := pos_of_mul_pos_right secondPositive firstPositive.le
    rw [Int.mul_tdiv_cancel_left _ firstPositive.ne', mul_comm (ρ .x),
      Int.mul_tdiv_mul_of_pos _ _ firstPositive]
    exact ⟨⟨firstPositive.ne', kPositive.ne'⟩, rfl⟩
  · exact (Int.tdiv_self defined).symm
  · exact (Int.mul_tdiv_cancel_left _ defined).symm
  · exact (Int.mul_tdiv_cancel _ defined).symm

theorem divScaledRules_total : ∀ rule ∈ divScaledRules, rule.TotalSound sort := by
  simp only [divScaledRules, List.forall_mem_cons, List.not_mem_nil, false_implies, implies_true,
    and_true]
  refine ⟨?_, ?_, ?_, ?_, ?_, ?_, ?_, ?_, ?_, ?_, ?_⟩
  all_goals
    refine ⟨rfl, fun ρ c cond queries _ _ => ?_⟩
    simp [Query.HoldsTotal, dividesNonneg, dividesPositive] at cond queries ⊢
    obtain ⟨scale, positive, multiple⟩ := cond
    have divisible := Int.dvd_of_tmod_eq_zero multiple
    refine ⟨positive.ne', ?_⟩
    have monotone := fun x y (le : x ≤ y) => Int.tdiv_le_tdiv positive le
    have scaled := fun (x y : Int) (nonneg : 0 ≤ x) (rest : 0 ≤ y) =>
      tdiv_mul_add positive divisible (mul_nonneg nonneg (by omega : 0 ≤ c .c1)) rest
    have product := fun (x : Int) (nonneg : 0 ≤ x) => scaled x 0 nonneg le_rfl
    simp only [add_zero, Int.zero_tdiv] at product
  · rw [← scaled _ _ queries.1 queries.2]
  · rw [← product _ queries.1]
    exact min_of_monotone monotone _ _
  · rw [← product _ queries.1]
    exact max_of_monotone monotone _ _
  · rw [add_comm, ← scaled _ _ queries.1 queries.2, add_comm]
  · rw [← product _ queries.1]
    exact min_of_monotone monotone _ _
  · rw [← product _ queries.1]
    exact max_of_monotone monotone _ _
  · rw [← scaled _ _ queries.1 queries.2, add_assoc]
  · rw [← scaled _ _ queries.1 (by omega)]
    congr 1
    ring
  · rw [← scaled _ _ queries.1 (by omega)]
    congr 1
    ring
  · rw [← scaled _ _ queries.1 queries.2]
    congr 1
    ring
  · have one := scaled 1 _ zero_le_one queries
    rw [one_mul, one_mul] at one
    rw [add_comm, ← one, add_comm]

theorem divSelfRules_total : ∀ rule ∈ divSelfRules, rule.TotalSound sort := by
  simp only [divSelfRules, List.forall_mem_cons, List.not_mem_nil, false_implies, implies_true,
    and_true]
  refine ⟨?_, ?_, ?_, ?_, ?_, ?_, ?_, ?_, ?_, ?_, ?_, ?_⟩
  all_goals
    refine ⟨rfl, fun ρ c _ queries _ defined => ?_⟩
    simp [Query.HoldsTotal] at queries defined ⊢
  -- adding the divisor once
  iterate 6
    · have positive : 0 < ρ .x := lt_of_le_of_ne queries.1 (Ne.symm defined)
      have sum := tdiv_add_self positive queries.2
      exact ⟨defined, sum.symm.trans (congrArg (Int.tdiv · _) (by ring))⟩
  · exact (Int.mul_tdiv_cancel _ defined).symm
  · exact (Int.mul_tdiv_cancel_left _ defined).symm
  iterate 4
    · obtain ⟨nonneg, rest, divisor⟩ := queries
      have positive : 0 < ρ .z := lt_of_le_of_ne divisor (Ne.symm defined)
      have sum := tdiv_mul_add positive (dvd_refl _) (mul_nonneg nonneg divisor) rest
      rw [Int.tdiv_self defined, mul_one] at sum
      refine ⟨defined, ?_⟩
      try rw [add_comm (Int.tdiv _ _)]
      exact sum.symm.trans (congrArg (Int.tdiv · _) (by ring))

theorem divRules_total : ∀ rule ∈ divRules, rule.TotalSound sort := by
  simp only [divRules, List.forall_mem_append]
  exact ⟨⟨divFoldRules_total, divScaledRules_total⟩, divSelfRules_total⟩

theorem modRules_total : ∀ rule ∈ modRules, rule.TotalSound sort := by
  simp only [modRules, List.forall_mem_cons, List.not_mem_nil, false_implies, implies_true,
    and_true]
  refine ⟨?_, ?_, ?_, ?_, ?_⟩
  all_goals
    refine ⟨rfl, fun ρ c cond queries _ defined => ?_⟩
    simp [Query.HoldsTotal, divides, dividesNonneg] at cond queries defined ⊢
  · exact (Int.tmod_eq_zero_of_dvd ((Int.dvd_of_tmod_eq_zero cond.2).mul_left _)).symm
  · have divisible := Int.dvd_of_tmod_eq_zero cond.2
    exact ⟨defined, (tmod_mul_add divisible queries.1 queries.2).symm⟩
  · obtain ⟨scale, positive, multiple⟩ := cond
    have divisible := Int.dvd_of_tmod_eq_zero multiple
    have once := tmod_mul_add (x := 1) divisible (by omega) queries
    rw [one_mul, add_comm] at once
    exact ⟨defined, once.symm⟩
  · have divisible := Int.dvd_of_tmod_eq_zero cond.2
    rw [add_comm (ρ .x)]
    exact ⟨defined, (tmod_mul_add divisible queries.2 queries.1).symm⟩
  · exact defined

theorem floorDivNestedRules_total : ∀ rule ∈ floorDivNestedRules, rule.TotalSound sort := by
  simp only [floorDivNestedRules, List.forall_mem_cons, List.not_mem_nil, false_implies,
    implies_true, and_true]
  refine ⟨?_, ?_⟩
  all_goals
    refine ⟨rfl, fun ρ c cond _ _ defined => ?_⟩
    simp at cond defined ⊢
  · exact ⟨defined, (fdiv_fdiv cond.1 cond.2).symm⟩
  · exact ⟨defined, (fdiv_add_fdiv cond.1 cond.2 _).symm⟩

theorem floorDivFoldRules_total : ∀ rule ∈ floorDivFoldRules, rule.TotalSound sort := by
  simp only [floorDivFoldRules, List.forall_mem_cons, List.not_mem_nil, false_implies,
    implies_true, and_true]
  refine ⟨?_, ?_, ?_⟩
  all_goals
    refine ⟨rfl, fun ρ c _ _ _ defined => ?_⟩
    simp at defined ⊢
  · exact (Int.fdiv_self defined).symm
  · exact (Int.mul_fdiv_cancel_left _ defined).symm
  · exact (Int.mul_fdiv_cancel _ defined).symm

theorem floorDivScaledRules_total : ∀ rule ∈ floorDivScaledRules, rule.TotalSound sort := by
  simp only [floorDivScaledRules, List.forall_mem_cons, List.not_mem_nil, false_implies,
    implies_true, and_true]
  refine ⟨?_, ?_, ?_, ?_, ?_, ?_, ?_, ?_, ?_, ?_⟩
  case refine_6 =>
    refine ⟨rfl, fun ρ c cond queries _ _ => ?_⟩
    simp [Query.HoldsTotal] at cond queries ⊢
    obtain ⟨firstPositive, secondPositive, multiple⟩ := cond
    obtain ⟨k, divisor⟩ := Int.dvd_of_tmod_eq_zero multiple
    rw [divisor] at secondPositive ⊢
    have kPositive : 0 < k := pos_of_mul_pos_right secondPositive firstPositive.le
    obtain ⟨nonneg, small⟩ := (fdiv_eq_zero_iff firstPositive).mp (queries firstPositive.ne')
    rw [Int.mul_fdiv_cancel_left _ firstPositive.ne', add_assoc,
      fdiv_mul_add_of_lt firstPositive kPositive nonneg small]
    exact ⟨⟨firstPositive.ne', kPositive.ne'⟩, rfl⟩
  all_goals
    refine ⟨rfl, fun ρ c cond _ _ defined => ?_⟩
    simp [divides] at cond defined ⊢
    have divisible := Int.dvd_of_tmod_eq_zero cond.2
    refine ⟨defined, ?_⟩
    have monotone := fun x y (le : x ≤ y) => fdiv_le_fdiv cond.1 le
    have scaled := fdiv_mul_add defined divisible
    have product := fun x => scaled x 0
    simp only [add_zero, Int.zero_fdiv] at product
  iterate 2
    · rw [← product]
      exact min_of_monotone monotone _ _
    · rw [← product]
      exact max_of_monotone monotone _ _
  iterate 4
    · rw [← scaled]
      congr 1
      ring
  · have one := scaled 1
    simp only [one_mul] at one
    rw [add_comm, ← one, add_comm]

theorem floorDivSelfRules_total : ∀ rule ∈ floorDivSelfRules, rule.TotalSound sort := by
  simp only [floorDivSelfRules, List.forall_mem_cons, List.not_mem_nil, false_implies,
    implies_true, and_true]
  refine ⟨?_, ?_, ?_, ?_, ?_, ?_, ?_, ?_, ?_, ?_, ?_, ?_, ?_, ?_⟩
  all_goals
    refine ⟨rfl, fun ρ c _ _ _ defined => ?_⟩
    simp at defined ⊢
  · exact ⟨defined.2, (fdiv_mul_mul defined.1 _ _).symm⟩
  -- adding the divisor once
  iterate 6
    · have sum := fdiv_add_self defined
      exact ⟨defined, (sum _).symm.trans (congrArg (Int.fdiv · _) (by ring))⟩
  · exact (Int.mul_fdiv_cancel _ defined).symm
  · exact (Int.mul_fdiv_cancel_left _ defined).symm
  iterate 4
    · have sum := fdiv_mul_add defined (dvd_refl _) (ρ .x) (ρ .y)
      rw [Int.fdiv_self defined, mul_one] at sum
      refine ⟨defined, ?_⟩
      try rw [add_comm (Int.fdiv _ _)]
      exact sum.symm.trans (congrArg (Int.fdiv · _) (by ring))
  · refine ⟨defined, ?_⟩
    rw [Int.fmod_def, sub_sub_cancel, Int.mul_fdiv_cancel_left _ defined]

theorem floorDivRules_total : ∀ rule ∈ floorDivRules, rule.TotalSound sort := by
  simp only [floorDivRules, List.forall_mem_append]
  exact ⟨⟨floorDivFoldRules_total, floorDivScaledRules_total⟩, floorDivSelfRules_total⟩

theorem floorModRules_total : ∀ rule ∈ floorModRules, rule.TotalSound sort := by
  simp only [floorModRules, List.forall_mem_cons, List.not_mem_nil, false_implies, implies_true,
    and_true]
  refine ⟨?_, ?_, ?_, ?_, ?_, ?_, ?_, ?_⟩
  all_goals
    refine ⟨rfl, fun ρ c cond queries _ defined => ?_⟩
    simp [Query.HoldsTotal, divides] at cond queries defined ⊢
  · have reduced := fmod_add_mul_fmod (ρ .x) 0 (c .c1) (c .c2)
    rw [zero_add, zero_add] at reduced
    exact ⟨defined, reduced⟩
  · obtain ⟨firstPositive, secondPositive, multiple⟩ := cond
    obtain ⟨k, divisor⟩ := Int.dvd_of_tmod_eq_zero multiple
    rw [divisor] at secondPositive ⊢
    have kPositive : 0 < k := pos_of_mul_pos_right secondPositive firstPositive.le
    obtain ⟨nonneg, small⟩ := (fdiv_eq_zero_iff firstPositive).mp (queries firstPositive.ne')
    rw [Int.mul_fdiv_cancel_left _ firstPositive.ne',
      fmod_mul_add_of_lt firstPositive kPositive nonneg small]
    exact ⟨⟨firstPositive.ne', kPositive.ne'⟩, rfl⟩
  · rw [add_comm, add_comm (_ * c .c1)]
    exact ⟨defined, fmod_add_mul_fmod _ _ _ _⟩
  · obtain ⟨k, divisor⟩ := Int.dvd_of_tmod_eq_zero cond.2
    rw [divisor, Int.add_mul_fmod_self_left]
    exact ⟨defined, rfl⟩
  · exact ⟨defined, fmod_add_mul_fmod _ _ _ _⟩
  · exact ⟨defined.2, (fmod_mul_mul defined.1 _ _).symm⟩

end Tvm.Arith.Rules
