import Mathlib

/-!
# Tallies

A list of entries that counts keys: every key that occurs has one entry, with a positive number.
-/

namespace Tvm.Lib

universe u v

variable {κ : Type u} {ι : Type v} [DecidableEq κ]

def tallyAdd (key : κ) (more : ℕ) : List (κ × ℕ) → List (κ × ℕ)
  | [] => [(key, more)]
  | entry :: rest =>
    if entry.1 = key then (key, entry.2 + more) :: rest else entry :: tallyAdd key more rest

omit [DecidableEq κ] in
structure IsTally (tally : List (κ × ℕ)) (number : κ → ℕ) : Prop where
  once : (tally.map Prod.fst).Nodup
  entries : ∀ key n, (key, n) ∈ tally ↔ n = number key ∧ 0 < n

namespace IsTally

variable {tally : List (κ × ℕ)} {number : κ → ℕ}

omit [DecidableEq κ] in
theorem nil : IsTally ([] : List (κ × ℕ)) fun _ => 0 := by
  refine ⟨List.nodup_nil, fun key n => ?_⟩
  constructor
  · intro membership
    exact absurd membership List.not_mem_nil
  · rintro ⟨rfl, positive⟩
    exact absurd positive (Nat.lt_irrefl 0)

omit [DecidableEq κ] in
theorem unique {other : κ → ℕ} (isTally : IsTally tally number) (isOther : IsTally tally other) :
    number = other := by
  funext key
  rcases Nat.eq_zero_or_pos (number key) with zero | positive
  · rcases Nat.eq_zero_or_pos (other key) with otherZero | otherPositive
    · rw [zero, otherZero]
    · have membership := (isOther.entries key _).mpr ⟨rfl, otherPositive⟩
      exact ((isTally.entries key _).mp membership).1.symm
  · have membership := (isTally.entries key _).mpr ⟨rfl, positive⟩
    exact ((isOther.entries key _).mp membership).1

omit [DecidableEq κ] in
theorem congr {other : κ → ℕ} (isTally : IsTally tally number)
    (same : ∀ key, number key = other key) : IsTally tally other := by
  rw [← funext same]
  exact isTally

theorem mem_tallyAdd_keys (key other : κ) (more : ℕ) (tally : List (κ × ℕ)) :
    other ∈ (tallyAdd key more tally).map Prod.fst ↔ other = key ∨ other ∈ tally.map Prod.fst := by
  induction tally with
  | nil => simp [tallyAdd]
  | cons entry rest ih =>
    rw [tallyAdd]
    split
    · rename_i same
      simp [same]
    · rw [List.map_cons, List.mem_cons, ih, List.map_cons, List.mem_cons]
      exact or_left_comm

theorem add (isTally : IsTally tally number) (key : κ) {more : ℕ} (positive : 0 < more) :
    IsTally (tallyAdd key more tally)
      fun other => number other + if other = key then more else 0 := by
  induction tally generalizing number with
  | nil =>
    have none : ∀ other, number other = 0 := by
      intro other
      by_contra nonzero
      have membership := (isTally.entries other _).mpr ⟨rfl, Nat.pos_of_ne_zero nonzero⟩
      exact absurd membership List.not_mem_nil
    refine ⟨List.nodup_singleton _, fun other n => ?_⟩
    rw [tallyAdd, List.mem_singleton, Prod.mk.injEq, none]
    split
    · rename_i same
      constructor
      · rintro ⟨-, rfl⟩
        exact ⟨(Nat.zero_add _).symm, positive⟩
      · rintro ⟨rfl, -⟩
        exact ⟨same, Nat.zero_add _⟩
    · rename_i differs
      constructor
      · rintro ⟨same, -⟩
        exact absurd same differs
      · rintro ⟨rfl, impossible⟩
        exact absurd impossible (Nat.lt_irrefl 0)
  | cons entry rest ih =>
    obtain ⟨fresh, restOnce⟩ := List.nodup_cons.mp isTally.once
    obtain ⟨isNumber, entryPositive⟩ :=
      (isTally.entries entry.1 entry.2).mp List.mem_cons_self
    -- The rest counts everything but the key of the first entry.
    have restTally : IsTally rest fun other => if other = entry.1 then 0 else number other := by
      refine ⟨restOnce, fun other n => ?_⟩
      by_cases same : other = entry.1
      · have absent : (other, n) ∉ rest := fun inside =>
          fresh (List.mem_map.mpr ⟨(other, n), inside, same⟩)
        apply iff_of_false absent
        simp only [same, if_true]
        omega
      · have notFirst : (other, n) ≠ entry := fun equal => same (congrArg Prod.fst equal)
        have entries := isTally.entries other n
        rw [List.mem_cons, or_iff_right notFirst] at entries
        simp only [same, if_false]
        exact entries
    rw [tallyAdd]
    split
    · rename_i same
      refine ⟨?_, fun other n => ?_⟩
      · rw [List.map_cons, List.nodup_cons, ← same]
        exact ⟨fresh, restOnce⟩
      · rw [List.mem_cons, restTally.entries, ← same, Prod.mk.injEq]
        by_cases isFirst : other = entry.1
        · subst isFirst
          simp only [true_and, if_true]
          omega
        · simp only [isFirst, false_and, false_or, if_false, Nat.add_zero]
    · rename_i differs
      have added := ih restTally
      refine ⟨?_, fun other n => ?_⟩
      · rw [List.map_cons, List.nodup_cons, mem_tallyAdd_keys]
        exact ⟨fun membership => membership.elim differs fresh, added.once⟩
      · rw [List.mem_cons, added.entries]
        by_cases isFirst : other = entry.1
        · subst isFirst
          have first : ((entry.1, n) = entry) ↔ n = entry.2 := by
            constructor
            · intro equal
              exact congrArg Prod.snd equal
            · rintro rfl
              rfl
          rw [first]
          simp only [differs, if_true, if_false]
          omega
        · have notFirst : (other, n) ≠ entry := fun equal => isFirst (congrArg Prod.fst equal)
          simp only [notFirst, isFirst, false_or, if_false]

omit [DecidableEq κ] in
theorem product {υ : Type v} {other : List (ι × ℕ)} {otherNumber : ι → ℕ}
    (isTally : IsTally tally number) (isOther : IsTally other otherNumber)
    (pair : κ → ι → υ) (injective : ∀ a b c d, pair a b = pair c d → a = c ∧ b = d)
    (pairNumber : υ → ℕ)
    (isNumber : ∀ a b, pairNumber (pair a b) = number a * otherNumber b)
    (onlyPairs : ∀ key, 0 < pairNumber key → ∃ a b, pair a b = key) :
    IsTally (other.flatMap fun second =>
      tally.map fun first => (pair first.1 second.1, second.2 * first.2)) pairNumber := by
  constructor
  · rw [List.map_flatMap]
    refine List.nodup_flatMap.mpr ⟨fun second _ => ?_, ?_⟩
    · rw [List.map_map]
      have composed : Prod.fst ∘ (fun first : κ × ℕ =>
          (pair first.1 second.1, second.2 * first.2)) = (pair · second.1) ∘ Prod.fst := rfl
      rw [composed, ← List.map_map]
      exact isTally.once.map fun a c same => (injective _ _ _ _ same).1
    · have pairwise := List.pairwise_map.mp isOther.once
      refine pairwise.imp ?_
      intro second third differs key inSecond inThird
      dsimp only at inSecond inThird
      rw [List.map_map] at inSecond inThird
      obtain ⟨first, -, rfl⟩ := List.mem_map.mp inSecond
      obtain ⟨fourth, -, same⟩ := List.mem_map.mp inThird
      exact differs (injective _ _ _ _ same).2.symm
  · intro key n
    rw [List.mem_flatMap]
    constructor
    · rintro ⟨second, inOther, membership⟩
      obtain ⟨first, inTally, equal⟩ := List.mem_map.mp membership
      obtain ⟨rfl, rfl⟩ := Prod.mk.inj equal
      obtain ⟨isFirst, firstPositive⟩ := (isTally.entries _ _).mp inTally
      obtain ⟨isSecond, secondPositive⟩ := (isOther.entries _ _).mp inOther
      rw [isNumber, ← isFirst, ← isSecond, Nat.mul_comm]
      exact ⟨rfl, Nat.mul_pos firstPositive secondPositive⟩
    · rintro ⟨rfl, positive⟩
      obtain ⟨a, b, rfl⟩ := onlyPairs key positive
      rw [isNumber] at positive ⊢
      refine ⟨(b, _), (isOther.entries b _).mpr ⟨rfl, Nat.pos_of_mul_pos_left positive⟩, ?_⟩
      exact List.mem_map.mpr ⟨(a, _), (isTally.entries a _).mpr
        ⟨rfl, Nat.pos_of_mul_pos_right positive⟩, by rw [Nat.mul_comm]⟩

end IsTally

end Tvm.Lib
