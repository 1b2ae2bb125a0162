import Mathlib.Order.Defs.Unbundled
import Mathlib.Order.Minimal
import Mathlib.Data.Bool.Basic

/-!
# Frontiers by elimination

A scan over finitely many points that keeps each point it comes to and drops the others that the
point is below.  A dropped point may be what would have dropped another one, so that the points
that are left are below all others only because the relation is transitive.
-/

namespace Tvm.Lib

universe u v

variable {ι : Type u} {α : Type v}

structure IsFrontier (below : α → α → Prop) (points : ι → α) (kept : ι → Bool) : Prop where
  apart : ∀ i j, kept i = true → kept j = true → i ≠ j → ¬below (points i) (points j)
  covers : ∀ j, kept j = false → ∃ i, kept i = true ∧ below (points i) (points j)

/-- The points of `scanned` have dropped what they are below. -/
structure FrontierScan (below : α → α → Prop) (points : ι → α) (scanned : List ι)
    (kept : ι → Bool) : Prop where
  apart : ∀ i ∈ scanned, kept i = true → ∀ j, kept j = true → i ≠ j → ¬below (points i) (points j)
  covers : ∀ j, kept j = false → ∃ i, kept i = true ∧ below (points i) (points j)

namespace FrontierScan

variable {below : α → α → Prop} {points : ι → α} {scanned : List ι} {kept kept' : ι → Bool}

theorem start (below : α → α → Prop) (points : ι → α) :
    FrontierScan below points [] fun _ => true where
  apart _ membership := by cases membership
  covers _ dropped := by cases dropped

theorem skip (scan : FrontierScan below points scanned kept) {i : ι} (dropped : kept i = false) :
    FrontierScan below points (scanned ++ [i]) kept where
  apart i' membership isKept := by
    rcases List.mem_append.mp membership with before | last
    · exact scan.apart i' before isKept
    · rw [List.mem_singleton.mp last, dropped] at isKept
      cases isKept
  covers := scan.covers

theorem step [IsTrans α below] (scan : FrontierScan below points scanned kept) {i : ι}
    (here : kept i = true)
    (dropped : ∀ j, kept' j = true ↔ j = i ∨ kept j = true ∧ ¬below (points i) (points j)) :
    FrontierScan below points (scanned ++ [i]) kept' where
  apart i' membership isKept j otherKept different := by
    rcases List.mem_append.mp membership with before | last
    · have keptBefore {k : ι} (keptNow : kept' k = true) : kept k = true := by
        rcases (dropped k).mp keptNow with rfl | still
        · exact here
        · exact still.1
      exact scan.apart i' before (keptBefore isKept) j (keptBefore otherKept) different
    · obtain rfl := List.mem_singleton.mp last
      rcases (dropped j).mp otherKept with rfl | still
      · exact absurd rfl different
      · exact still.2
  covers j isDropped := by
    have notKept := (dropped j).not.mp (by rw [isDropped]; exact Bool.false_ne_true)
    have iKept : kept' i = true := (dropped i).mpr (.inl rfl)
    by_cases wasKept : kept j = true
    · by_contra none
      exact notKept (.inr ⟨wasKept, fun under => none ⟨i, iKept, under⟩⟩)
    · obtain ⟨i', wasThere, under⟩ := scan.covers j (Bool.eq_false_iff.mpr wasKept)
      by_cases still : kept' i' = true
      · exact ⟨i', still, under⟩
      · -- what was below `j` has been dropped by `i`, which is below `j` too
        have first : below (points i) (points i') := by
          by_contra above
          exact still ((dropped i').mpr (.inr ⟨wasThere, above⟩))
        exact ⟨i, iKept, IsTrans.trans _ _ _ first under⟩

theorem isFrontier (scan : FrontierScan below points scanned kept) (all : ∀ i, i ∈ scanned) :
    IsFrontier below points kept :=
  ⟨fun i j isKept otherKept => scan.apart i (all i) isKept j otherKept, scan.covers⟩

end FrontierScan

/-- Each minimal point is kept once, and no other one is kept. -/
theorem IsFrontier.kept_iff {ι : Type u} {α : Type v} [PartialOrder α] {points : ι → α}
    {kept : ι → Bool} (frontier : IsFrontier (· ≤ ·) points kept) (c : α) :
    (∃ i, kept i = true ∧ points i = c) ↔ Minimal (fun d => ∃ j, points j = d) c := by
  have covered : ∀ j, ∃ k, kept k = true ∧ points k ≤ points j := by
    intro j
    cases here : kept j with
    | true => exact ⟨j, here, le_rfl⟩
    | false => exact frontier.covers j here
  constructor
  · rintro ⟨i, isKept, rfl⟩
    refine ⟨⟨i, rfl⟩, ?_⟩
    rintro _ ⟨j, rfl⟩ below
    obtain ⟨k, kKept, under⟩ := covered j
    by_cases same : k = i
    · exact same ▸ under
    · exact absurd (under.trans below) (frontier.apart k i kKept isKept same)
  · rintro ⟨⟨j, rfl⟩, minimal⟩
    obtain ⟨i, isKept, under⟩ := covered j
    exact ⟨i, isKept, under.antisymm (minimal ⟨i, rfl⟩ under)⟩

end Tvm.Lib
