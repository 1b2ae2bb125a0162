import Tvm.Arith.RewriteRulesLogic
import Tvm.Arith.RuleSemantics
import Tvm.Lib.Division

/-!
# Soundness of the rules for comparisons and conditions
-/

namespace Tvm.Arith.Rules

open Tvm.Lib

variable {sort : ExprSort}

theorem eqRules_total : ∀ rule ∈ eqRules, rule.TotalSound sort := by
  simp only [eqRules, List.forall_mem_cons, List.not_mem_nil, false_implies, implies_true,
    and_true]
  refine ⟨?_, ?_, ?_, ?_⟩
  all_goals
    refine ⟨rfl, fun ρ c _ _ _ _ => ?_⟩
    simp [truth]
    try omega

theorem ltCancelRules_total : ∀ rule ∈ ltCancelRules, rule.TotalSound sort := by
  simp only [ltCancelRules, List.forall_mem_cons, List.not_mem_nil, false_implies, implies_true,
    and_true]
  repeat' apply And.intro
  all_goals
    refine ⟨rfl, fun ρ c _ _ _ _ => ?_⟩
    simp [truth]
    try omega

theorem ltCanonicalRules_total : ∀ rule ∈ ltCanonicalRules, rule.TotalSound sort := by
  simp only [ltCanonicalRules, List.forall_mem_cons, List.not_mem_nil, false_implies,
    implies_true, and_true]
  repeat' apply And.intro
  all_goals
    refine ⟨rfl, fun ρ c _ _ _ _ => ?_⟩
    simp [truth]
    try omega

theorem ltScaleRules_total : ∀ rule ∈ ltScaleRules, rule.TotalSound sort := by
  simp only [ltScaleRules, List.forall_mem_cons, List.not_mem_nil, false_implies, implies_true,
    and_true]
  refine ⟨?_, ?_, ?_, ?_, ?_, ?_, ?_, ?_, ?_, ?_⟩
  all_goals
    refine ⟨rfl, fun ρ c cond _ _ _ => ?_⟩
    simp [truth] at cond ⊢
  · have scale : ρ .x * c .c1 < ρ .y * c .c1 ↔ ρ .x < ρ .y := mul_lt_mul_iff_left₀ cond
    omega
  · have scale : ρ .x * c .c1 < ρ .y * c .c1 ↔ ρ .y < ρ .x := mul_lt_mul_right_of_neg cond
    omega
  -- a positive factor
  · have scale := tdiv_lt_iff (x := ρ .x) cond.2 (by omega : 0 ≤ c .c1 - 1)
    omega
  · have scale := lt_tdiv_iff (x := ρ .x) cond.2 cond.1
    omega
  -- a negative factor
  · have scale := tdiv_lt_iff (x := -ρ .x) (neg_pos.mpr cond.2) (by omega : 0 ≤ c .c1 - 1)
    rw [neg_mul_neg, Int.tdiv_neg] at scale
    omega
  · have scale := lt_tdiv_iff (x := -ρ .x) (neg_pos.mpr cond.2) cond.1
    rw [neg_mul_neg, Int.tdiv_neg] at scale
    omega
  · have scale := lt_tdiv_iff (x := ρ .x) cond.2 (by omega : c .c1 + 1 ≤ 0)
    omega
  · have scale := tdiv_lt_iff (x := ρ .x) cond.2 cond.1
    omega
  · have scale := lt_tdiv_iff (x := -ρ .x) (neg_pos.mpr cond.2) (by omega : c .c1 + 1 ≤ 0)
    rw [neg_mul_neg, Int.tdiv_neg] at scale
    omega
  · have scale := tdiv_lt_iff (x := -ρ .x) (neg_pos.mpr cond.2) cond.1
    rw [neg_mul_neg, Int.tdiv_neg] at scale
    omega

theorem ltTruncDivRules_total : ∀ rule ∈ ltTruncDivRules, rule.TotalSound sort := by
  simp only [ltTruncDivRules, List.forall_mem_cons, List.not_mem_nil, false_implies, implies_true,
    and_true]
  refine ⟨?_, ?_, ?_, ?_⟩
  all_goals
    refine ⟨rfl, fun ρ c cond _ _ _ => ?_⟩
    simp [truth] at cond ⊢
  · have bound := tdiv_lt_iff_of_pos (a := ρ .x) cond.1 cond.2
    rw [mul_comm] at bound
    omega
  · have bound := lt_tdiv_iff_of_neg (a := ρ .x) cond.1 (by omega : c .c2 - 1 < 0)
    rw [mul_comm] at bound
    omega
  · have bound := tdiv_lt_iff_of_pos (a := ρ .x) cond.2 (by omega : 0 < c .c1 + 1)
    omega
  · have bound := lt_tdiv_iff_of_neg (a := ρ .x) cond.2 cond.1
    omega

theorem ltFloorDivRules_total : ∀ rule ∈ ltFloorDivRules, rule.TotalSound sort := by
  simp only [ltFloorDivRules, List.forall_mem_cons, List.not_mem_nil, false_implies, implies_true,
    and_true]
  refine ⟨?_, ?_⟩
  all_goals
    refine ⟨rfl, fun ρ c cond _ _ _ => ?_⟩
    simp [truth] at cond ⊢
  · have bound := fdiv_lt_iff (a := ρ .x) (x := c .c2) cond
    rw [mul_comm] at bound
    omega
  · have bound := fdiv_lt_iff (a := ρ .x) (x := c .c1 + 1) cond
    omega

theorem ltTruncModRules_total : ∀ rule ∈ ltTruncModRules, rule.TotalSound sort := by
  simp only [ltTruncModRules, List.forall_mem_cons, List.not_mem_nil, false_implies, implies_true,
    and_true]
  repeat' apply And.intro
  all_goals
    refine ⟨rfl, fun ρ c cond _ _ _ => ?_⟩
    simp [truth] at cond ⊢
    first
    | have split := Int.tdiv_mul_add_tmod (ρ .x) (c .c1)
      omega
    | have split := Int.tdiv_mul_add_tmod (ρ .x + c .c2) (c .c1)
      omega

theorem ltFloorModRules_total : ∀ rule ∈ ltFloorModRules, rule.TotalSound sort := by
  simp only [ltFloorModRules, List.forall_mem_cons, List.not_mem_nil, false_implies, implies_true,
    and_true]
  repeat' apply And.intro
  all_goals
    refine ⟨rfl, fun ρ c cond _ _ _ => ?_⟩
    simp [truth] at cond ⊢
    first
    | have split := Int.fdiv_mul_add_fmod (ρ .x) (c .c1)
      omega
    | have split := Int.fdiv_mul_add_fmod (ρ .x + c .c2) (c .c1)
      omega

theorem ltRules_total : ∀ rule ∈ ltRules, rule.TotalSound sort := by
  simp only [ltRules, List.forall_mem_append]
  exact ⟨⟨⟨⟨⟨⟨ltCancelRules_total, ltScaleRules_total⟩, ltTruncDivRules_total⟩,
    ltTruncModRules_total⟩, ltFloorDivRules_total⟩, ltFloorModRules_total⟩, ltCanonicalRules_total⟩

/-- `!(!x)` is `x` because `x` is a truth value. -/
theorem notRules_total : ∀ rule ∈ notRules, rule.TotalSound .bool := by
  simp only [notRules, List.forall_mem_cons, List.not_mem_nil, false_implies, implies_true,
    and_true]
  repeat' apply And.intro
  all_goals
    refine ⟨rfl, fun ρ c _ _ truthful _ => ?_⟩
    simp [Pat.occurs, BinOp.operandSort, truth] at truthful ⊢
    try omega

theorem andRules_total : ∀ rule ∈ andRules, rule.TotalSound sort := by
  simp only [andRules, List.forall_mem_cons, List.not_mem_nil, false_implies, implies_true,
    and_true]
  repeat' apply And.intro
  all_goals
    refine ⟨rfl, fun ρ c cond _ _ _ => ?_⟩
    simp [truth] at cond ⊢
    try omega

theorem orRules_total : ∀ rule ∈ orRules, rule.TotalSound sort := by
  simp only [orRules, List.forall_mem_cons, List.not_mem_nil, false_implies, implies_true,
    and_true]
  repeat' apply And.intro
  all_goals
    refine ⟨rfl, fun ρ c cond _ _ _ => ?_⟩
    simp [truth] at cond ⊢
    try omega

theorem selectRules_sound : ∀ rule ∈ selectRules, rule.Sound sort := by
  simp only [selectRules, List.mem_singleton, forall_eq]
  intro values consts _ v denotes
  obtain ⟨chosen, -, branch⟩ := Option.bind_eq_some_iff.mp denotes
  rwa [ite_self] at branch

end Tvm.Arith.Rules
