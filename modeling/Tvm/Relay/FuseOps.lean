import Mathlib

/-!
# Operator fusion

`DominatorTree` and `GraphPartitioner` of `fuse_ops.cc`.  A node is known by its index in
`post_dfs_order`.  A failed check is `none`, and so is a loop that does not end within its bound.
-/

namespace Tvm.Relay

inductive OpPatternKind where
  | kElemWise
  | kBroadcast
  | kInjective
  | kCommReduce
  | kOutEWiseFusable
  | kTuple
  | kOpaque
  deriving DecidableEq, Repr

def OpPatternKind.value : OpPatternKind → Nat
  | kElemWise => 0
  | kBroadcast => 1
  | kInjective => 2
  | kCommReduce => 3
  | kOutEWiseFusable => 4
  | kTuple => 7
  | kOpaque => 8

instance : LE OpPatternKind := ⟨fun lhs rhs => lhs.value ≤ rhs.value⟩

open OpPatternKind

structure Edge (n : Nat) where
  node : Fin n
  pattern : OpPatternKind

structure GraphNode (n : Nat) where
  externRef : Bool
  pattern : OpPatternKind
  outputs : List (Edge n)

/-- `IndexedForwardGraph`: the consumers of a node come after it in the order. -/
structure IndexedForwardGraph (n : Nat) where
  postDfsOrder : Fin n → GraphNode n
  forward : ∀ node, ∀ link ∈ (postDfsOrder node).outputs, node < link.node

def IndexedForwardGraph.consumers {n : Nat} (graph : IndexedForwardGraph n) (node : Fin n) :
    List (Fin n) :=
  (graph.postDfsOrder node).outputs.map Edge.node

namespace DominatorTree

/-- A node of the tree; its parent is known by the index of its graph node. -/
structure TreeNode (n : Nat) where
  parent : Option (Fin n)
  depth : Nat
  pattern : OpPatternKind

/-- `nodes`, some of which are not made yet. -/
abbrev Nodes (n : Nat) := Fin n → Option (TreeNode n)

def combinePattern (lhs rhs : OpPatternKind) : OpPatternKind :=
  if rhs.value < lhs.value then lhs else rhs

variable {n : Nat}

/-- `LeastCommonAncestor` of two nodes, with the pattern combined on the way. -/
def leastCommonAncestor (nodes : Nodes n) :
    Nat → Option (Fin n) → Option (Fin n) → OpPatternKind →
      Option (Option (Fin n) × OpPatternKind)
  | 0, _, _, _ => none
  | fuel + 1, lhs, rhs, edgePattern =>
    if lhs = rhs then some (lhs, edgePattern)
    else
      match lhs, rhs with
      | none, _ => some (none, edgePattern)
      | some _, none => some (none, edgePattern)
      | some left, some right => do
        let leftNode ← nodes left
        let rightNode ← nodes right
        if leftNode.depth < rightNode.depth then
          leastCommonAncestor nodes fuel lhs rightNode.parent
            (combinePattern edgePattern rightNode.pattern)
        else if rightNode.depth < leftNode.depth then
          leastCommonAncestor nodes fuel leftNode.parent rhs
            (combinePattern edgePattern leftNode.pattern)
        else
          leastCommonAncestor nodes fuel leftNode.parent rightNode.parent
            (combinePattern (combinePattern edgePattern leftNode.pattern) rightNode.pattern)

/-- The check of `get_node`: the node of an edge is made. -/
def getEdgeNode (nodes : Nodes n) (edge : Edge n) : Option (Fin n) := do
  let _ ← nodes edge.node
  return edge.node

def leastCommonAncestorOf (nodes : Nodes n) (inputNodes : List (Edge n))
    (edgePattern : OpPatternKind) : Option (Option (Fin n) × OpPatternKind) :=
  match inputNodes with
  | [] => some (none, edgePattern)
  | link :: rest => do
    let first ← getEdgeNode nodes link
    rest.foldlM (fun state link => do
      let node ← getEdgeNode nodes link
      let found ← leastCommonAncestor nodes (2 * n + 1) state.1 (some node) state.2
      return (found.1, combinePattern found.2 link.pattern))
      (some first, combinePattern edgePattern link.pattern)

def getNode (nodes : Nodes n) (gnode : GraphNode n) : Option (TreeNode n) :=
  if gnode.externRef then some ⟨none, 1, kOpaque⟩
  else do
    let found ← leastCommonAncestorOf nodes gnode.outputs kElemWise
    match found.1 with
    | none => return ⟨none, 1, found.2⟩
    | some parent => do
      let parentNode ← nodes parent
      return ⟨some parent, parentNode.depth + 1, found.2⟩

/-- `PostDom`: the nodes are made from the last to the first. -/
def postDom (graph : IndexedForwardGraph n) : Option (Nodes n) :=
  (List.finRange n).reverse.foldlM (fun nodes index => do
    let node ← getNode nodes (graph.postDfsOrder index)
    return Function.update nodes index (some node)) (fun _ => none)

end DominatorTree

end Tvm.Relay
