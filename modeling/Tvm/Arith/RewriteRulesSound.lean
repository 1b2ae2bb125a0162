import Tvm.Arith.RuleSemantics
import Tvm.Lib.Division

/-!
# Soundness of the rules for `+`, `-` and `*`

One group of rules after the other.  The only rule that is not always sound is the difference
of two truncated quotients: `truncDivDifference_preserves_iff` says when it is.
-/

namespace Tvm.Arith.Rules

open Tvm.Lib

variable {sort : ExprSort}

theorem select_select_sound (op : BinOp) (condition p q r s : Pat) :
    (tryRewrite (.binary op (.select condition p q) (.select condition r s))
      (.select condition (.binary op p r) (.binary op q s))).Sound sort := by
  intro values consts _ v denotes
  simp only [Pat.denote, Option.bind_eq_some_iff] at denotes ⊢
  obtain ⟨left, ⟨chosen, isChosen, leftIs⟩, right, ⟨chosen', isChosen', rightIs⟩, evaluates⟩ :=
    denotes
  rw [isChosen] at isChosen'
  cases isChosen'
  refine ⟨chosen, isChosen, ?_⟩
  split at leftIs
  · rw [if_pos ‹_›] at rightIs ⊢
    exact Option.bind_eq_some_iff.mpr
      ⟨left, leftIs, Option.bind_eq_some_iff.mpr ⟨right, rightIs, evaluates⟩⟩
  · rw [if_neg ‹_›] at rightIs ⊢
    exact Option.bind_eq_some_iff.mpr
      ⟨left, leftIs, Option.bind_eq_some_iff.mpr ⟨right, rightIs, evaluates⟩⟩

theorem addCancelRules_total : ∀ rule ∈ addCancelRules, rule.TotalSound sort := by
  simp only [addCancelRules, List.forall_mem_cons, List.not_mem_nil, false_implies, implies_true,
    and_true]
  repeat' apply And.intro
  all_goals
    refine ⟨rfl, fun ρ c cond _ _ _ => ?_⟩
    simp at cond ⊢
    try simp only [cond, mul_neg]
    try omega

theorem addFoldRules_total : ∀ rule ∈ addFoldRules, rule.TotalSound sort := by
  simp only [addFoldRules, List.forall_mem_cons, List.not_mem_nil, false_implies, implies_true,
    and_true]
  repeat' apply And.intro
  all_goals
    refine ⟨rfl, fun ρ c _ _ _ _ => ?_⟩
    simp
    ring

theorem addTruncRules_total : ∀ rule ∈ addTruncRules, rule.TotalSound sort := by
  simp only [addTruncRules, List.forall_mem_cons, List.not_mem_nil, false_implies, implies_true,
    and_true]
  refine ⟨rfl, fun ρ c _ _ _ _ => ?_⟩
  simp
  exact (Int.tdiv_mul_add_tmod _ _).symm

theorem addFloorRules_total : ∀ rule ∈ addFloorRules, rule.TotalSound sort := by
  simp only [addFloorRules, List.forall_mem_cons, List.not_mem_nil, false_implies, implies_true,
    and_true]
  repeat' apply And.intro
  all_goals
    refine ⟨rfl, fun ρ c _ _ _ defined => ?_⟩
    simp at defined ⊢
  -- the four ways of writing quotient and remainder, then the rule that adds a literal
  iterate 4
    · rw [Int.fmod_def]
      ring
  · refine ⟨defined, ?_⟩
    rw [fdiv_add defined, add_comm]

theorem addCanonicalRules_total : ∀ rule ∈ addCanonicalRules, rule.TotalSound sort := by
  simp only [addCanonicalRules, List.forall_mem_cons, List.not_mem_nil, false_implies,
    implies_true, and_true]
  repeat' apply And.intro
  all_goals
    refine ⟨rfl, fun ρ c _ _ _ _ => ?_⟩
    simp
    ring

theorem addRemainderRules_total :
    ∀ rule ∈ addTruncCanonicalRules ++ addFloorCanonicalRules, rule.TotalSound sort := by
  simp only [addTruncCanonicalRules, addFloorCanonicalRules, List.forall_mem_append,
    List.forall_mem_cons, List.not_mem_nil, false_implies, implies_true, and_true]
  repeat' apply And.intro
  all_goals
    refine ⟨rfl, fun ρ c _ _ _ defined => ?_⟩
    simp at defined ⊢
    exact ⟨defined, add_comm _ _⟩

theorem addSelectRules_sound : ∀ rule ∈ addSelectRules, rule.Sound sort := by
  simp only [addSelectRules, List.mem_singleton, forall_eq]
  exact select_select_sound _ _ _ _ _ _

theorem addRules_sound : ∀ rule ∈ addRules, rule.Sound sort := by
  simp only [addRules, List.forall_mem_append]
  refine ⟨⟨⟨⟨⟨⟨⟨?_, ?_⟩, ?_⟩, ?_⟩, ?_⟩, ?_⟩, ?_⟩, addSelectRules_sound⟩
  · exact fun rule member => (addCancelRules_total rule member).sound
  · exact fun rule member => (addFoldRules_total rule member).sound
  · exact fun rule member => (addTruncRules_total rule member).sound
  · exact fun rule member => (addFloorRules_total rule member).sound
  · exact fun rule member => (addCanonicalRules_total rule member).sound
  · exact fun rule member => (addRemainderRules_total rule (List.mem_append_left _ member)).sound
  · exact fun rule member => (addRemainderRules_total rule (List.mem_append_right _ member)).sound

theorem subCancelRules_total : ∀ rule ∈ subCancelRules, rule.TotalSound sort := by
  simp only [subCancelRules, List.forall_mem_cons, List.not_mem_nil, false_implies, implies_true,
    and_true]
  repeat' apply And.intro
  all_goals
    refine ⟨rfl, fun ρ c _ _ _ _ => ?_⟩
    simp
    try omega

theorem subFoldRules_total : ∀ rule ∈ subFoldRules, rule.TotalSound sort := by
  simp only [subFoldRules, List.forall_mem_cons, List.not_mem_nil, false_implies, implies_true,
    and_true]
  repeat' apply And.intro
  all_goals
    refine ⟨rfl, fun ρ c _ _ _ _ => ?_⟩
    simp
    try ring

theorem subFourRules_total : ∀ rule ∈ subFourRules, rule.TotalSound sort := by
  simp only [subFourRules, List.forall_mem_cons, List.not_mem_nil, false_implies, implies_true,
    and_true]
  repeat' apply And.intro
  all_goals
    refine ⟨rfl, fun ρ c _ _ _ _ => ?_⟩
    simp
    try omega

theorem subProveRules_total : ∀ rule ∈ subProveRules, rule.TotalSound sort := by
  simp only [subProveRules, List.forall_mem_cons, List.not_mem_nil, false_implies, implies_true,
    and_true]
  repeat' apply And.intro
  all_goals
    refine ⟨rfl, fun ρ c _ queries _ _ => ?_⟩
    simp [Query.HoldsTotal] at queries ⊢
    omega

theorem subTruncModRules_total : ∀ rule ∈ subTruncModRules, rule.TotalSound sort := by
  simp only [subTruncModRules, List.forall_mem_cons, List.not_mem_nil, false_implies, implies_true,
    and_true]
  repeat' apply And.intro
  all_goals
    refine ⟨rfl, fun ρ c cond _ _ _ => ?_⟩
    simp at cond ⊢
    try simp only [cond.2]
    first
    | refine ⟨cond, ?_⟩
    | refine ⟨cond.1, ?_⟩
    rw [Int.tmod_def]
    ring

theorem truncDivDifference_totalExact : truncDivDifference.TotalExact sort := by
  refine ⟨rfl, by simp [truncDivDifference, Pat.vars], fun ρ c cond queries _ => ?_⟩
  simp [truncDivDifference, Query.HoldsTotal] at cond queries ⊢
  rw [tdiv_sub_tdiv_iff cond.2 (by omega) cond.1, Label.holdsAt, decide_eq_true_iff]
  exact ⟨cond.2.ne', Iff.rfl⟩

theorem subTruncDivRules_total :
    ∀ rule ∈ subTruncDivRules, rule.label = .plain → rule.TotalSound sort := by
  simp only [subTruncDivRules, List.forall_mem_cons, List.not_mem_nil, false_implies,
    implies_true, and_true]
  refine ⟨nofun, fun _ => ⟨rfl, fun ρ c cond queries _ _ => ?_⟩⟩
  simp [Query.HoldsTotal] at cond queries ⊢
  refine ⟨cond.2.ne', ?_⟩
  rw [tdiv_add cond.2 queries cond.1]
  ring

theorem subFloorModRules_total : ∀ rule ∈ subFloorModRules, rule.TotalSound sort := by
  simp only [subFloorModRules, List.forall_mem_cons, List.not_mem_nil, false_implies, implies_true,
    and_true]
  repeat' apply And.intro
  all_goals
    refine ⟨rfl, fun ρ c cond _ _ _ => ?_⟩
    simp at cond ⊢
    try simp only [cond.2]
    first
    | refine ⟨cond, ?_⟩
    | refine ⟨cond.1, ?_⟩
    rw [Int.fmod_def]
    ring

theorem subFloorDivRules_total : ∀ rule ∈ subFloorDivRules, rule.TotalSound sort := by
  simp only [subFloorDivRules, List.forall_mem_cons, List.not_mem_nil, false_implies, implies_true,
    and_true]
  refine ⟨⟨rfl, fun ρ c cond _ _ _ => ?_⟩, ⟨rfl, fun ρ c cond _ _ _ => ?_⟩⟩
  all_goals
    simp at cond ⊢
    refine ⟨cond.ne', ?_⟩
  · have split := fdiv_add cond.ne' (ρ .x + c .c2) (c .c1 - c .c2)
    rw [show ρ .x + c .c2 + (c .c1 - c .c2) = ρ .x + c .c1 by ring] at split
    omega
  · have split := fdiv_add cond.ne' (ρ .x) (c .c1)
    omega

theorem subCanonicalRules_total : ∀ rule ∈ subCanonicalRules, rule.TotalSound sort := by
  simp only [subCanonicalRules, List.forall_mem_cons, List.not_mem_nil, false_implies,
    implies_true, and_true]
  repeat' apply And.intro
  all_goals
    refine ⟨rfl, fun ρ c _ _ _ _ => ?_⟩
    simp
    try ring

theorem subSelectRules_sound : ∀ rule ∈ subSelectRules, rule.Sound sort := by
  simp only [subSelectRules, List.forall_mem_cons, List.not_mem_nil, false_implies, implies_true,
    and_true]
  refine ⟨select_select_sound _ _ _ _ _ _, ?_, ?_⟩
  all_goals
    intro values consts _ v denotes
    simp [Pat.denote, BinOp.eval, Option.bind_eq_some_iff] at denotes ⊢
    obtain ⟨left, ⟨chosen, isChosen, leftIs⟩, right, rightIs, rfl⟩ := denotes
    refine ⟨chosen, isChosen, ?_⟩
    by_cases zero : chosen = 0
    all_goals
      simp [zero] at leftIs ⊢
  · rw [leftIs] at rightIs
    cases rightIs
    exact (sub_self left).symm
  · simp [leftIs, rightIs, BinOp.eval]
  · simp [leftIs, rightIs, BinOp.eval]
  · rw [leftIs] at rightIs
    cases rightIs
    exact (sub_self left).symm

theorem subTruncDivRules_exact : ∀ rule ∈ subTruncDivRules, rule.Exact sort := by
  intro rule member
  rcases List.mem_cons.mp member with rfl | rest
  · exact truncDivDifference_totalExact.exact_of_total
  · have plain : rule.label = .plain := by
      rw [List.mem_singleton.mp rest]
    exact (subTruncDivRules_total rule member plain).sound.exact plain

theorem subHeadRules_sound :
    ∀ rule ∈ subCancelRules ++ subFoldRules ++ subFourRules ++ subProveRules ++ subTruncModRules,
      rule.Sound sort := by
  simp only [List.forall_mem_append]
  refine ⟨⟨⟨⟨?_, ?_⟩, ?_⟩, ?_⟩, ?_⟩
  · exact fun rule member => (subCancelRules_total rule member).sound
  · exact fun rule member => (subFoldRules_total rule member).sound
  · exact fun rule member => (subFourRules_total rule member).sound
  · exact fun rule member => (subProveRules_total rule member).sound
  · exact fun rule member => (subTruncModRules_total rule member).sound

theorem subTailRules_sound :
    ∀ rule ∈ subFloorModRules ++ subFloorDivRules ++ subCanonicalRules ++ subSelectRules,
      rule.Sound sort := by
  simp only [List.forall_mem_append]
  refine ⟨⟨⟨?_, ?_⟩, ?_⟩, subSelectRules_sound⟩
  · exact fun rule member => (subFloorModRules_total rule member).sound
  · exact fun rule member => (subFloorDivRules_total rule member).sound
  · exact fun rule member => (subCanonicalRules_total rule member).sound

theorem subRules_exact : ∀ rule ∈ subRules, rule.Exact sort := by
  intro rule member
  have split : subRules =
      (subCancelRules ++ subFoldRules ++ subFourRules ++ subProveRules ++ subTruncModRules) ++
        subTruncDivRules ++
          (subFloorModRules ++ subFloorDivRules ++ subCanonicalRules ++ subSelectRules) := by
    simp only [subRules, List.append_assoc]
  rw [split] at member
  rcases List.mem_append.mp member with member | member
  · rcases List.mem_append.mp member with member | member
    · exact exact_of_sound rfl subHeadRules_sound rule member
    · exact subTruncDivRules_exact rule member
  · exact exact_of_sound rfl subTailRules_sound rule member

theorem mulRules_total : ∀ rule ∈ mulRules, rule.TotalSound sort := by
  simp only [mulRules, mulFoldRules, mulFloorRules, mulCanonicalRules, List.forall_mem_append,
    List.forall_mem_cons, List.not_mem_nil, false_implies, implies_true, and_true]
  refine ⟨⟨⟨?_, ?_, ?_, ?_⟩, ?_⟩, ?_, ?_, ?_⟩
  all_goals
    refine ⟨rfl, fun ρ c cond _ _ defined => ?_⟩
    simp at cond defined ⊢
  case refine_5 =>
    refine ⟨defined.1, ?_⟩
    rw [Int.fmod_def, cond, sub_sub_cancel, ← neg_mul_neg, Int.mul_fdiv_cancel_left _ (by omega)]
    ring
  all_goals ring

end Tvm.Arith.Rules
