import Tvm.Arith.RewriteRulesMinMax
import Tvm.Arith.RewriteRulesSound

/-!
# Soundness of the rules for `min` and `max`

The rules that drop a number rounded up against `max(x, c)` are not sound in general:
`minRoundUpRules_exact` says at which values they are.
-/

namespace Tvm.Arith.Rules

open Tvm.Lib

variable {sort : ExprSort}

theorem minSelfRules_total : ∀ rule ∈ minSelfRules ++ maxSelfRules, rule.TotalSound sort := by
  simp only [minSelfRules, maxSelfRules, List.forall_mem_append, List.forall_mem_cons,
    List.not_mem_nil, false_implies, implies_true, and_true]
  refine ⟨?_, ?_⟩
  all_goals
    refine ⟨rfl, fun ρ c _ _ _ _ => ?_⟩
    simp

theorem minOffsetRules_total : ∀ rule ∈ minOffsetRules ++ maxOffsetRules, rule.TotalSound sort := by
  simp only [minOffsetRules, maxOffsetRules, List.forall_mem_append, List.forall_mem_cons,
    List.not_mem_nil, false_implies, implies_true, and_true]
  repeat' apply And.intro
  all_goals
    refine ⟨rfl, fun ρ c cond _ _ _ => ?_⟩
    simp at cond ⊢
    omega

theorem minLatticeRules_total :
    ∀ rule ∈ minLatticeRules ++ maxLatticeRules, rule.TotalSound sort := by
  simp only [minLatticeRules, maxLatticeRules, List.forall_mem_append, List.forall_mem_cons,
    List.not_mem_nil, false_implies, implies_true, and_true]
  repeat' apply And.intro
  all_goals
    refine ⟨rfl, fun ρ c _ _ _ _ => ?_⟩
    simp
    try omega

theorem minCanonicalRules_total :
    ∀ rule ∈ minCanonicalRules ++ maxCanonicalRules, rule.TotalSound sort := by
  simp only [minCanonicalRules, maxCanonicalRules, List.forall_mem_append, List.forall_mem_cons,
    List.not_mem_nil, false_implies, implies_true, and_true]
  repeat' apply And.intro
  all_goals
    refine ⟨rfl, fun ρ c _ _ _ _ => ?_⟩
    simp
    omega

theorem minScaleRules_total : ∀ rule ∈ minScaleRules ++ maxScaleRules, rule.TotalSound sort := by
  simp only [minScaleRules, maxScaleRules, List.forall_mem_append, List.forall_mem_cons,
    List.not_mem_nil, false_implies, implies_true, and_true]
  refine ⟨⟨?_, ?_, ?_, ?_, ?_, ?_, ?_, ?_, ?_, ?_⟩, ?_, ?_, ?_, ?_, ?_, ?_, ?_, ?_, ?_, ?_⟩
  all_goals
    refine ⟨rfl, fun ρ c cond _ _ defined => ?_⟩
    simp at cond defined ⊢
  -- `min`
  · exact ⟨defined, (min_of_monotone (fun _ _ => Int.tdiv_le_tdiv cond) _ _).symm⟩
  · have negative := lt_of_le_of_ne cond defined
    exact ⟨defined, (min_of_antitone (fun _ _ => tdiv_le_tdiv_of_neg negative) _ _).symm⟩
  · exact ⟨defined, (min_of_monotone (fun _ _ => fdiv_le_fdiv cond) _ _).symm⟩
  · have negative := lt_of_le_of_ne cond defined
    exact ⟨defined, (min_of_antitone (fun _ _ => fdiv_le_fdiv_of_neg negative) _ _).symm⟩
  · exact min_mul_of_nonneg _ _ cond.le
  · exact (min_of_antitone (fun _ _ le => mul_le_mul_of_nonpos_right le cond) _ _).symm
  · rw [cond.1, mul_zero]
    exact cond.2.le
  · rw [cond.1, mul_zero, min_eq_left cond.2]
  · obtain ⟨k, multiple⟩ := Int.dvd_of_tmod_eq_zero cond.2.1
    rw [multiple, Int.mul_tdiv_cancel_left _ cond.1, mul_comm (c .c1) k]
    exact min_mul_of_nonneg _ _ cond.2.2.le
  · obtain ⟨k, multiple⟩ := Int.dvd_of_tmod_eq_zero cond.2.1
    rw [multiple, Int.mul_tdiv_cancel_left _ cond.1, mul_comm (c .c1) k]
    exact (min_of_antitone (fun _ _ le => mul_le_mul_of_nonpos_right le cond.2.2) _ _).symm
  -- `max`
  · exact ⟨defined, (max_of_monotone (fun _ _ => Int.tdiv_le_tdiv cond) _ _).symm⟩
  · have negative := lt_of_le_of_ne cond defined
    exact ⟨defined, (max_of_antitone (fun _ _ => tdiv_le_tdiv_of_neg negative) _ _).symm⟩
  · exact ⟨defined, (max_of_monotone (fun _ _ => fdiv_le_fdiv cond) _ _).symm⟩
  · have negative := lt_of_le_of_ne cond defined
    exact ⟨defined, (max_of_antitone (fun _ _ => fdiv_le_fdiv_of_neg negative) _ _).symm⟩
  · exact max_mul_of_nonneg _ _ cond.le
  · exact (max_of_antitone (fun _ _ le => mul_le_mul_of_nonpos_right le cond) _ _).symm
  · rw [cond.1, mul_zero]
    exact cond.2.le
  · rw [cond.1, mul_zero, max_eq_left cond.2]
  · obtain ⟨k, multiple⟩ := Int.dvd_of_tmod_eq_zero cond.2.1
    rw [multiple, Int.mul_tdiv_cancel_left _ cond.1, mul_comm (c .c1) k]
    exact max_mul_of_nonneg _ _ cond.2.2.le
  · obtain ⟨k, multiple⟩ := Int.dvd_of_tmod_eq_zero cond.2.1
    rw [multiple, Int.mul_tdiv_cancel_left _ cond.1, mul_comm (c .c1) k]
    exact (max_of_antitone (fun _ _ le => mul_le_mul_of_nonpos_right le cond.2.2) _ _).symm

theorem maxRoundUpRules_total : ∀ rule ∈ maxRoundUpRules, rule.TotalSound sort := by
  simp only [maxRoundUpRules, List.forall_mem_cons, List.not_mem_nil, false_implies, implies_true,
    and_true]
  refine ⟨?_, ?_, ?_, ?_, ?_, ?_⟩
  all_goals
    refine ⟨rfl, fun ρ c cond _ _ defined => ?_⟩
    simp [roundsUp] at cond defined ⊢
  iterate 2
    · rw [eq_sub_of_add_eq cond.2]
      exact ⟨defined, le_tdiv_mul cond.1 _⟩
  iterate 2
    · rw [eq_sub_of_add_eq cond.2]
      exact ⟨defined, le_fdiv_mul cond.1 _⟩
  iterate 2
    · exact fdiv_mul_le cond _

theorem minRoundUpRules_total :
    ∀ rule ∈ minRoundUpRules, rule.label = .plain → rule.TotalSound sort := by
  simp only [minRoundUpRules, List.forall_mem_cons, List.not_mem_nil, false_implies, implies_true,
    and_true]
  refine ⟨?_, nofun, ?_, nofun, ?_, nofun, ?_, nofun, ?_, ?_⟩
  all_goals
    refine fun plain => ⟨rfl, fun ρ c cond _ _ defined => ?_⟩
    simp [roundsUp] at cond defined ⊢
  iterate 2
    · rw [eq_sub_of_add_eq cond.2]
      exact le_tdiv_mul cond.1 _
  iterate 2
    · rw [eq_sub_of_add_eq cond.2]
      exact le_fdiv_mul cond.1 _
  iterate 2
    · exact ⟨defined, fdiv_mul_le cond _⟩

theorem minRoundUpRules_totalExact :
    ∀ rule ∈ minRoundUpRules, rule.label = .roundUpMin → rule.TotalExact sort := by
  simp only [minRoundUpRules, List.forall_mem_cons, List.not_mem_nil, false_implies, implies_true,
    and_true]
  refine ⟨nofun, fun _ => ?_, nofun, fun _ => ?_, nofun, fun _ => ?_, nofun, fun _ => ?_, nofun,
    nofun⟩
  all_goals
    refine ⟨rfl, by simp [truncRoundUpMin, truncRoundUpMinSwapped, floorRoundUpMin,
      floorRoundUpMinSwapped, Pat.vars], fun ρ c cond _ defined => ?_⟩
    simp [truncRoundUpMin, truncRoundUpMinSwapped, floorRoundUpMin, floorRoundUpMinSwapped,
      roundsUp, Label.holdsAt] at cond defined ⊢
    rw [eq_sub_of_add_eq cond.2, ← max_le_iff]
  iterate 2
    · exact max_le_tdiv_mul_iff cond.1
  iterate 2
    · exact max_le_fdiv_mul_iff cond.1

theorem minRoundUpRules_exact : ∀ rule ∈ minRoundUpRules, rule.Exact sort := by
  intro rule member
  have labels : rule.label = .plain ∨ rule.label = .roundUpMin := by
    have all : minRoundUpRules.all
        (fun rule => rule.label == .plain || rule.label == .roundUpMin) = true := rfl
    have found := List.all_eq_true.mp all rule member
    simpa only [Bool.or_eq_true, beq_iff_eq] using found
  rcases labels with plain | rounding
  · exact (minRoundUpRules_total rule member plain).sound.exact plain
  · exact (minRoundUpRules_totalExact rule member rounding).exact_of_total

theorem minSelectRules_sound :
    ∀ rule ∈ minSelectRules ++ maxSelectRules, rule.Sound sort := by
  simp only [minSelectRules, maxSelectRules, List.forall_mem_append, List.mem_singleton, forall_eq]
  exact ⟨select_select_sound _ _ _ _ _ _, select_select_sound _ _ _ _ _ _⟩

theorem minTailRules_sound :
    ∀ rule ∈ minLatticeRules ++ minScaleRules ++ minCanonicalRules ++ minSelectRules,
      rule.Sound sort := by
  simp only [List.forall_mem_append]
  refine ⟨⟨⟨?_, ?_⟩, ?_⟩, ?_⟩
  · exact fun rule member =>
      (minLatticeRules_total rule (List.mem_append_left _ member)).sound
  · exact fun rule member => (minScaleRules_total rule (List.mem_append_left _ member)).sound
  · exact fun rule member =>
      (minCanonicalRules_total rule (List.mem_append_left _ member)).sound
  · exact fun rule member => minSelectRules_sound rule (List.mem_append_left _ member)

theorem minOffsetRules_sound : ∀ rule ∈ minOffsetRules, rule.Sound sort :=
  fun rule member => (minOffsetRules_total rule (List.mem_append_left _ member)).sound

theorem minRules_exact : ∀ rule ∈ minRules, rule.Exact sort := by
  intro rule member
  have split : minRules = minOffsetRules ++ minRoundUpRules ++
      (minLatticeRules ++ minScaleRules ++ minCanonicalRules ++ minSelectRules) := by
    simp only [minRules, List.append_assoc]
  rw [split] at member
  rcases List.mem_append.mp member with member | member
  · rcases List.mem_append.mp member with member | member
    · exact exact_of_sound rfl minOffsetRules_sound rule member
    · exact minRoundUpRules_exact rule member
  · exact exact_of_sound rfl minTailRules_sound rule member

theorem maxRules_sound : ∀ rule ∈ maxRules, rule.Sound sort := by
  simp only [maxRules, List.forall_mem_append]
  refine ⟨⟨⟨⟨⟨?_, ?_⟩, ?_⟩, ?_⟩, ?_⟩, ?_⟩
  · exact fun rule member =>
      (minOffsetRules_total rule (List.mem_append_right _ member)).sound
  · exact fun rule member => (maxRoundUpRules_total rule member).sound
  · exact fun rule member =>
      (minLatticeRules_total rule (List.mem_append_right _ member)).sound
  · exact fun rule member => (minScaleRules_total rule (List.mem_append_right _ member)).sound
  · exact fun rule member =>
      (minCanonicalRules_total rule (List.mem_append_right _ member)).sound
  · exact fun rule member => minSelectRules_sound rule (List.mem_append_right _ member)

end Tvm.Arith.Rules
