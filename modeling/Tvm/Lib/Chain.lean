import Mathlib

/-!
# Linked lists

`next` gives every element the one behind it.  A list is a chain when the links lead through
its elements to their end.
-/

namespace Tvm.Lib

variable {α : Type}

/-- The links lead from `start` through the elements of the list. -/
def Chain (next : α → Option α) : Option α → List α → Prop
  | start, [] => start = none
  | start, x :: xs => start = some x ∧ Chain next (next x) xs

/-- Follows the links, in at most `fuel` steps. -/
def follow (next : α → Option α) : Nat → Option α → Option (List α)
  | _, none => some []
  | 0, some _ => none
  | fuel + 1, some x => (follow next fuel (next x)).map (x :: ·)

namespace Chain

variable {next : α → Option α} {start other : Option α} {x : α} {xs ys : List α}

theorem congr {next' : α → Option α} (chain : Chain next start xs)
    (same : ∀ x ∈ xs, next' x = next x) : Chain next' start xs := by
  induction xs generalizing start with
  | nil => exact chain
  | cons x xs ih =>
    obtain ⟨first, rest⟩ := chain
    refine ⟨first, ?_⟩
    rw [same x List.mem_cons_self]
    exact ih rest fun y membership => same y (List.mem_cons_of_mem x membership)

theorem update [DecidableEq α] (chain : Chain next start xs) (outside : x ∉ xs)
    (value : Option α) : Chain (Function.update next x value) start xs :=
  chain.congr fun _ membership =>
    Function.update_of_ne (ne_of_mem_of_not_mem membership outside) value next

theorem push [DecidableEq α] (chain : Chain next start xs) (outside : x ∉ xs) :
    Chain (Function.update next x start) (some x) (x :: xs) := by
  refine ⟨rfl, ?_⟩
  rw [Function.update_self]
  exact chain.update outside start

theorem splice [DecidableEq α] (chain : Chain next start (xs ++ [x])) (behind : Chain next other ys)
    (outside : x ∉ xs) (apart : x ∉ ys) :
    Chain (Function.update next x other) start (xs ++ x :: ys) := by
  induction xs generalizing start with
  | nil =>
    obtain ⟨first, -⟩ := chain
    refine ⟨first, ?_⟩
    rw [Function.update_self]
    exact behind.update apart other
  | cons y xs ih =>
    obtain ⟨first, rest⟩ := chain
    have different : y ≠ x := fun same => outside (same ▸ List.mem_cons_self)
    refine ⟨first, ?_⟩
    rw [Function.update_of_ne different]
    exact ih rest fun membership => outside (List.mem_cons_of_mem y membership)

theorem follow_eq (chain : Chain next start xs) {fuel : Nat} (enough : xs.length ≤ fuel) :
    follow next fuel start = some xs := by
  induction xs generalizing start fuel with
  | nil =>
    obtain rfl : start = none := chain
    cases fuel with
    | zero => rfl
    | succ fuel => rfl
  | cons x xs ih =>
    obtain ⟨rfl, rest⟩ := chain
    cases fuel with
    | zero => exact absurd enough (Nat.not_succ_le_zero _)
    | succ fuel =>
      rw [follow, ih rest (Nat.le_of_succ_le_succ enough)]
      rfl

end Chain

end Tvm.Lib
