import Mathlib

/-!
# Ranges that lie end to end

A list of non-empty ranges of numbers tiles an interval when each range starts where the
one before stops.
-/

namespace Tvm.Lib

abbrev range (first count : Nat) : Set Nat := Set.Ico first (first + count)

theorem range_subset {first count inner size : Nat} (above : first ≤ inner)
    (below : inner + size ≤ first + count) : range inner size ⊆ range first count :=
  Set.Ico_subset_Ico above below

theorem range_disjoint {first count second size : Nat} (before : first + count ≤ second) :
    Disjoint (range first count) (range second size) :=
  Set.Ico_disjoint_Ico.mpr (le_trans (min_le_left _ _) (le_trans before (le_max_right _ _)))

/-- The ranges `first x, …, first x + count x` of the list lie end to end. -/
def Tiles {α : Type} (first count : α → Nat) : Nat → List α → Nat → Prop
  | start, [], stop => start = stop
  | start, x :: xs, stop => first x = start ∧ 0 < count x ∧ Tiles first count (start + count x) xs stop

namespace Tiles

variable {α : Type} {first count : α → Nat} {start stop : Nat} {xs : List α}

theorem le (tiles : Tiles first count start xs stop) : start ≤ stop := by
  induction xs generalizing start with
  | nil => exact le_of_eq tiles
  | cons x xs ih => exact le_trans (Nat.le_add_right _ _) (ih tiles.2.2)

theorem bounds (tiles : Tiles first count start xs stop) {x : α} (membership : x ∈ xs) :
    start ≤ first x ∧ 0 < count x ∧ first x + count x ≤ stop := by
  induction xs generalizing start with
  | nil => cases membership
  | cons y ys ih =>
    obtain ⟨here, positive, rest⟩ := tiles
    rcases List.mem_cons.mp membership with rfl | later
    · exact ⟨here.ge, positive, here.symm ▸ rest.le⟩
    · obtain ⟨above, nonempty, below⟩ := ih rest later
      exact ⟨le_trans (Nat.le_add_right _ _) above, nonempty, below⟩

theorem pairwise (tiles : Tiles first count start xs stop) :
    xs.Pairwise fun x y => first x + count x ≤ first y := by
  induction xs generalizing start with
  | nil => exact List.Pairwise.nil
  | cons x xs ih =>
    obtain ⟨here, -, rest⟩ := tiles
    refine List.pairwise_cons.mpr ⟨?_, ih rest⟩
    intro y membership
    rw [here]
    exact (rest.bounds membership).1

theorem length_le (tiles : Tiles first count start xs stop) : start + xs.length ≤ stop := by
  induction xs generalizing start with
  | nil => exact le_of_eq tiles
  | cons x xs ih =>
    obtain ⟨-, positive, rest⟩ := tiles
    have later := ih rest
    rw [List.length_cons]
    omega

theorem snoc (tiles : Tiles first count start xs stop) {x : α} (here : first x = stop)
    (positive : 0 < count x) : Tiles first count start (xs ++ [x]) (stop + count x) := by
  induction xs generalizing start with
  | nil =>
    obtain rfl : start = stop := tiles
    exact ⟨here, positive, rfl⟩
  | cons y ys ih => exact ⟨tiles.1, tiles.2.1, ih tiles.2.2⟩

theorem last {x : α} (tiles : Tiles first count start (xs ++ [x]) stop) :
    first x + count x = stop := by
  induction xs generalizing start with
  | nil =>
    obtain ⟨here, -, stops⟩ := tiles
    rw [here]
    exact stops
  | cons y ys ih => exact ih tiles.2.2

theorem front {x : α} (tiles : Tiles first count start (xs ++ [x]) stop) :
    Tiles first count start xs (first x) := by
  induction xs generalizing start with
  | nil => exact tiles.1.symm
  | cons y ys ih => exact ⟨tiles.1, tiles.2.1, ih tiles.2.2⟩

theorem eq_of_first_eq (tiles : Tiles first count start xs stop) {x y : α} (left : x ∈ xs)
    (right : y ∈ xs) (same : first x = first y) : x = y := by
  induction xs generalizing start with
  | nil => cases left
  | cons z zs ih =>
    obtain ⟨here, positive, rest⟩ := tiles
    have behind : ∀ w ∈ zs, first w ≠ first z := by
      intro w membership equal
      have above := (rest.bounds membership).1
      omega
    rcases List.mem_cons.mp left with rfl | leftLater
    · rcases List.mem_cons.mp right with rfl | rightLater
      · rfl
      · exact absurd same.symm (behind y rightLater)
    · rcases List.mem_cons.mp right with rfl | rightLater
      · exact absurd same (behind x leftLater)
      · exact ih rest leftLater rightLater

end Tiles

end Tvm.Lib
