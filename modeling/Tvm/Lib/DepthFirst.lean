import Mathlib

/-!
# Depth-first traversal

A traversal with a set of visited nodes, as a relation between the nodes seen before, the nodes that
are pending and the nodes seen after, with the paths that it follows.
-/

namespace Tvm.Lib.DepthFirst

variable {Node : Type*} {next : Node → List Node} {stop : Node → Prop}

/-- A path leads from the first node to the second, and no node of it is a stop. -/
inductive Between (next : Node → List Node) (stop : Node → Prop) (src : Node) : Node → Prop where
  | start : ¬ stop src → Between next stop src src
  | step {middle last : Node} : Between next stop src middle → last ∈ next middle → ¬ stop last →
      Between next stop src last

theorem Between.not_stop {src last : Node} (path : Between next stop src last) : ¬ stop last := by
  cases path with
  | start free => exact free
  | step _ _ free => exact free

theorem Between.src_not_stop {src last : Node} (path : Between next stop src last) :
    ¬ stop src := by
  induction path with
  | start free => exact free
  | step _ _ _ ih => exact ih

theorem Between.trans {src middle last : Node} (first : Between next stop src middle)
    (second : Between next stop middle last) : Between next stop src last := by
  induction second with
  | start => exact first
  | step _ edge free ih => exact ih.step edge free

theorem Between.head {src middle last : Node} (free : ¬ stop src) (edge : middle ∈ next src)
    (rest : Between next stop middle last) : Between next stop src last :=
  ((Between.start free).step edge rest.src_not_stop).trans rest

theorem Between.cases_head {src last : Node} (path : Between next stop src last) :
    last = src ∨ ∃ middle ∈ next src, Between next stop middle last := by
  induction path with
  | start => exact .inl rfl
  | step _ edge free ih =>
    right
    rcases ih with rfl | ⟨middle, first, rest⟩
    · exact ⟨_, edge, .start free⟩
    · exact ⟨middle, first, rest.step edge free⟩

end Tvm.Lib.DepthFirst
