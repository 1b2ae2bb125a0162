import Mathlib
import Tvm.Lib.DepthFirst
import Tvm.Relay.FuseOps

/-!
# The post-dominator tree

The parent of a node in the tree that `PostDom` makes post-dominates the node, and the construction
of the tree meets no failed check.
-/

namespace Tvm.Relay

open Lib.DepthFirst OpPatternKind

variable {n : Nat} {graph : IndexedForwardGraph n}

/-- What lies on a path from the node that does not pass the sink. -/
abbrev BeforeSink (graph : IndexedForwardGraph n) (sink node : Fin n) : Fin n → Prop :=
  Between graph.consumers (fun stop => stop = sink) node

/-- No exit of the graph is reached from the node without passing the sink. -/
def PostDominates (graph : IndexedForwardGraph n) (sink node : Fin n) : Prop :=
  ∀ middle, BeforeSink graph sink node middle →
    (graph.postDfsOrder middle).externRef = false ∧ (graph.postDfsOrder middle).outputs ≠ []

theorem mem_consumers {node consumer : Fin n} :
    consumer ∈ graph.consumers node ↔
      ∃ link ∈ (graph.postDfsOrder node).outputs, link.node = consumer := by
  simp only [IndexedForwardGraph.consumers, List.mem_map]

theorem lt_of_mem_consumers {node consumer : Fin n} (edge : consumer ∈ graph.consumers node) :
    node < consumer := by
  obtain ⟨link, member, rfl⟩ := mem_consumers.mp edge
  exact graph.forward node link member

theorem PostDominates.refl (node : Fin n) : PostDominates graph node node :=
  fun _ path => absurd rfl path.src_not_stop

theorem PostDominates.of_before {sink node middle : Fin n} (dominates : PostDominates graph sink node)
    (path : BeforeSink graph sink node middle) : PostDominates graph sink middle :=
  fun last rest => dominates last (path.trans rest)

theorem PostDominates.of_consumers {sink node : Fin n}
    (internal : (graph.postDfsOrder node).externRef = false)
    (used : (graph.postDfsOrder node).outputs ≠ [])
    (consumers : ∀ consumer ∈ graph.consumers node, PostDominates graph sink consumer) :
    PostDominates graph sink node := by
  intro middle path
  rcases path.cases_head with rfl | ⟨first, edge, rest⟩
  · exact ⟨internal, used⟩
  · exact consumers first edge middle rest

/-- A path that does not pass the second sink either does not pass the first or starts again from
it. -/
theorem BeforeSink.split (first : Fin n) {second node middle : Fin n}
    (path : BeforeSink graph second node middle) :
    BeforeSink graph first node middle ∨ BeforeSink graph second first middle := by
  induction path with
  | start free =>
    by_cases same : node = first
    · exact .inr (same ▸ .start free)
    · exact .inl (.start same)
  | @step _ last _ edge free ih =>
    rcases ih with before | after
    · by_cases same : last = first
      · exact .inr (same ▸ .start free)
      · exact .inl (before.step edge same)
    · exact .inr (after.step edge free)

theorem PostDominates.trans {first second node : Fin n}
    (inner : PostDominates graph first node) (outer : PostDominates graph second first) :
    PostDominates graph second node := by
  intro middle path
  rcases BeforeSink.split first path with before | after
  · exact inner middle before
  · exact outer middle after

theorem PostDominates.consumer {sink node consumer : Fin n}
    (dominates : PostDominates graph sink node) (other : node ≠ sink)
    (edge : consumer ∈ graph.consumers node) : PostDominates graph sink consumer :=
  fun last rest => dominates last (rest.head other edge)

theorem PostDominates.exists_consumer {sink node : Fin n} (dominates : PostDominates graph sink node)
    (other : node ≠ sink) : ∃ consumer, consumer ∈ graph.consumers node := by
  obtain ⟨_, used⟩ := dominates node (.start other)
  obtain ⟨link, rest, outputs⟩ := List.exists_cons_of_ne_nil used
  exact ⟨link.node, mem_consumers.mpr ⟨link, by simp [outputs], rfl⟩⟩

/-- The induction is on the distance from the end of the order. -/
theorem PostDominates.le {sink node : Fin n} (dominates : PostDominates graph sink node) :
    node ≤ sink := by
  induction isRemaining : n - node.val using Nat.strong_induction_on generalizing node with
  | _ remaining ih =>
    by_cases same : node = sink
    · exact same.le
    · obtain ⟨consumer, edge⟩ := dominates.exists_consumer same
      have later : node < consumer := lt_of_mem_consumers edge
      have shorter : n - consumer.val < remaining := by
        have := consumer.isLt
        have : node.val < consumer.val := later
        omega
      exact later.le.trans (ih _ shorter (dominates.consumer same edge) rfl)

theorem PostDominates.before_lt {sink node middle : Fin n}
    (dominates : PostDominates graph sink node) (path : BeforeSink graph sink node middle) :
    middle < sink :=
  lt_of_le_of_ne (dominates.of_before path).le path.not_stop

theorem PostDominates.exists_last {sink node : Fin n} (dominates : PostDominates graph sink node)
    (other : node ≠ sink) :
    ∃ middle, BeforeSink graph sink node middle ∧ sink ∈ graph.consumers middle := by
  induction isRemaining : n - node.val using Nat.strong_induction_on generalizing node with
  | _ remaining ih =>
    obtain ⟨consumer, edge⟩ := dominates.exists_consumer other
    by_cases same : consumer = sink
    · exact ⟨node, .start other, same ▸ edge⟩
    · have later : node.val < consumer.val := lt_of_mem_consumers edge
      have := consumer.isLt
      obtain ⟨middle, path, final⟩ :=
        ih (n - consumer.val) (by omega) (dominates.consumer other edge) same rfl
      exact ⟨middle, path.head other edge, final⟩

namespace DominatorTree

/-- The nodes from an index on are made, and each parent post-dominates. -/
structure Made (graph : IndexedForwardGraph n) (nodes : Nodes n) (first : Nat) : Prop where
  made : ∀ index : Fin n, first ≤ index.val → ∃ node, nodes index = some node
  parent : ∀ index node parent, nodes index = some node → node.parent = some parent →
    index < parent ∧ PostDominates graph parent index ∧
      (graph.postDfsOrder index).externRef = false

/-- How far a node is from the end of the order. -/
def distance : Option (Fin n) → Nat
  | none => 0
  | some index => n - index.val

/-- The node, if there is one, is made. -/
def Known (first : Nat) (node : Option (Fin n)) : Prop :=
  ∀ index, node = some index → first ≤ index.val

variable {nodes : Nodes n} {first : Nat}

theorem Made.known_parent (tree : Made graph nodes first) {index : Fin n} {node : TreeNode n}
    (found : nodes index = some node) (known : first ≤ index.val) : Known first node.parent := by
  intro parent isParent
  have later : index.val < parent.val := (tree.parent index node parent found isParent).1
  omega

theorem Made.distance_parent (tree : Made graph nodes first) {index : Fin n} {node : TreeNode n}
    (found : nodes index = some node) : distance node.parent < distance (some index) := by
  have bound : index.val < n := index.isLt
  cases isParent : node.parent with
  | none =>
    simp only [distance]
    omega
  | some parent =>
    have later : index.val < parent.val := (tree.parent index node parent found isParent).1
    simp only [distance]
    omega

theorem Made.of_parent (tree : Made graph nodes first) {index ancestor : Fin n}
    {node : TreeNode n} (found : nodes index = some node)
    (covers : ∃ parent, node.parent = some parent ∧ PostDominates graph ancestor parent) :
    PostDominates graph ancestor index := by
  obtain ⟨parent, isParent, above⟩ := covers
  exact (tree.parent index node parent found isParent).2.1.trans above

/-- The common ancestor, if there is one, post-dominates both nodes. -/
def Covers (graph : IndexedForwardGraph n) (result : Option (Fin n)) (node : Option (Fin n)) :
    Prop :=
  ∀ ancestor, result = some ancestor → ∃ index, node = some index ∧
    PostDominates graph ancestor index

theorem Made.covers_of_parent (tree : Made graph nodes first) {index : Fin n} {node : TreeNode n}
    {result : Option (Fin n)} (found : nodes index = some node)
    (covers : Covers graph result node.parent) : Covers graph result (some index) :=
  fun ancestor isResult => ⟨index, rfl, tree.of_parent found (covers ancestor isResult)⟩

theorem covers_none (node : Option (Fin n)) : Covers graph none node :=
  fun _ isResult => by cases isResult

theorem Made.leastCommonAncestor (tree : Made graph nodes first) (fuel : Nat) :
    ∀ (lhs rhs : Option (Fin n)) (edgePattern : OpPatternKind),
      Known first lhs → Known first rhs → distance lhs + distance rhs < fuel →
      ∃ result pattern,
        leastCommonAncestor nodes fuel lhs rhs edgePattern = some (result, pattern) ∧
          Known first result ∧ Covers graph result lhs ∧ Covers graph result rhs := by
  induction fuel with
  | zero => exact fun _ _ _ _ _ bound => absurd bound (Nat.not_lt_zero _)
  | succ fuel ih =>
    intro lhs rhs edgePattern knownLeft knownRight bound
    unfold DominatorTree.leastCommonAncestor
    by_cases same : lhs = rhs
    · subst same
      refine ⟨lhs, edgePattern, by rw [if_pos rfl], knownLeft, ?_, ?_⟩ <;>
        exact fun ancestor isResult => ⟨ancestor, isResult, .refl ancestor⟩
    · rw [if_neg same]
      have noKnown : Known first (none : Option (Fin n)) := fun _ isNone => by cases isNone
      cases lhs with
      | none => exact ⟨none, edgePattern, rfl, noKnown, covers_none _, covers_none _⟩
      | some left =>
        cases rhs with
        | none => exact ⟨none, edgePattern, rfl, noKnown, covers_none _, covers_none _⟩
        | some right =>
          obtain ⟨leftNode, foundLeft⟩ := tree.made left (knownLeft left rfl)
          obtain ⟨rightNode, foundRight⟩ := tree.made right (knownRight right rfl)
          have parentLeft := tree.known_parent foundLeft (knownLeft left rfl)
          have parentRight := tree.known_parent foundRight (knownRight right rfl)
          have shorterLeft := tree.distance_parent foundLeft
          have shorterRight := tree.distance_parent foundRight
          simp only [foundLeft, foundRight, Option.bind_eq_bind, Option.bind_some]
          by_cases rightDeeper : leftNode.depth < rightNode.depth
          · rw [if_pos rightDeeper]
            obtain ⟨result, pattern, run, known, onLeft, onRight⟩ :=
              ih (some left) rightNode.parent (combinePattern edgePattern rightNode.pattern)
                knownLeft parentRight (by omega)
            exact ⟨result, pattern, run, known, onLeft, tree.covers_of_parent foundRight onRight⟩
          · rw [if_neg rightDeeper]
            by_cases leftDeeper : rightNode.depth < leftNode.depth
            · rw [if_pos leftDeeper]
              obtain ⟨result, pattern, run, known, onLeft, onRight⟩ :=
                ih leftNode.parent (some right) (combinePattern edgePattern leftNode.pattern)
                  parentLeft knownRight (by omega)
              exact ⟨result, pattern, run, known, tree.covers_of_parent foundLeft onLeft, onRight⟩
            · rw [if_neg leftDeeper]
              obtain ⟨result, pattern, run, known, onLeft, onRight⟩ :=
                ih leftNode.parent rightNode.parent
                  (combinePattern (combinePattern edgePattern leftNode.pattern) rightNode.pattern)
                  parentLeft parentRight (by omega)
              exact ⟨result, pattern, run, known, tree.covers_of_parent foundLeft onLeft,
                tree.covers_of_parent foundRight onRight⟩

theorem distance_le (node : Option (Fin n)) : distance node ≤ n := by
  cases node with
  | none => exact Nat.zero_le n
  | some index => exact Nat.sub_le n index.val

theorem Made.getEdgeNode (tree : Made graph nodes first) {link : Edge n}
    (known : first ≤ link.node.val) : getEdgeNode nodes link = some link.node := by
  obtain ⟨node, found⟩ := tree.made link.node known
  simp only [DominatorTree.getEdgeNode, found, Option.bind_eq_bind, Option.bind_some]
  rfl

theorem Made.foldAncestor (tree : Made graph nodes first) (links : List (Edge n)) :
    ∀ (state : Option (Fin n) × OpPatternKind), Known first state.1 →
      (∀ link ∈ links, first ≤ link.node.val) →
      ∃ result pattern,
        links.foldlM (fun state link => do
          let node ← DominatorTree.getEdgeNode nodes link
          let found ← DominatorTree.leastCommonAncestor nodes (2 * n + 1) state.1 (some node)
            state.2
          return (found.1, combinePattern found.2 link.pattern)) state = some (result, pattern) ∧
        Known first result ∧ Covers graph result state.1 ∧
        ∀ link ∈ links, Covers graph result (some link.node) := by
  induction links with
  | nil =>
    intro state known _
    exact ⟨state.1, state.2, rfl, known,
      fun ancestor isResult => ⟨ancestor, isResult, .refl ancestor⟩, by simp⟩
  | cons link links ih =>
    intro state known later
    have knownLink : Known first (some link.node) := by
      rintro index ⟨⟩
      exact later link List.mem_cons_self
    have bound : distance state.1 + distance (some link.node) < 2 * n + 1 := by
      have := distance_le state.1
      have := distance_le (some link.node)
      omega
    obtain ⟨middle, middlePattern, step, knownMiddle, fromState, fromLink⟩ :=
      tree.leastCommonAncestor (2 * n + 1) state.1 (some link.node) state.2 known knownLink bound
    obtain ⟨result, pattern, run, knownResult, fromMiddle, fromLinks⟩ :=
      ih (middle, combinePattern middlePattern link.pattern) knownMiddle
        (fun other member => later other (List.mem_cons_of_mem _ member))
    have through : ∀ node, Covers graph middle node → Covers graph result node := by
      intro node covers ancestor isResult
      obtain ⟨between, isMiddle, above⟩ := fromMiddle ancestor isResult
      obtain ⟨index, isNode, below⟩ := covers between isMiddle
      exact ⟨index, isNode, below.trans above⟩
    refine ⟨result, pattern, ?_, knownResult, through _ fromState, ?_⟩
    · rw [List.foldlM_cons, tree.getEdgeNode (later link List.mem_cons_self)]
      simp only [Option.bind_eq_bind, Option.bind_some, step, Option.pure_def]
      exact run
    · intro other member
      rcases List.mem_cons.mp member with rfl | rest
      · exact through _ fromLink
      · exact fromLinks other rest

theorem Made.leastCommonAncestorOf (tree : Made graph nodes first) (links : List (Edge n))
    (edgePattern : OpPatternKind) (later : ∀ link ∈ links, first ≤ link.node.val) :
    ∃ result pattern,
      leastCommonAncestorOf nodes links edgePattern = some (result, pattern) ∧
      Known first result ∧ (result ≠ none → links ≠ []) ∧
      ∀ link ∈ links, Covers graph result (some link.node) := by
  cases links with
  | nil => exact ⟨none, edgePattern, rfl, (fun _ isNone => by cases isNone), by simp, by simp⟩
  | cons link links =>
    have knownLink : Known first (some link.node) := by
      rintro index ⟨⟩
      exact later link List.mem_cons_self
    obtain ⟨result, pattern, run, known, fromFirst, fromRest⟩ :=
      tree.foldAncestor links (some link.node, combinePattern edgePattern link.pattern) knownLink
        (fun other member => later other (List.mem_cons_of_mem _ member))
    refine ⟨result, pattern, ?_, known, by simp, ?_⟩
    · rw [DominatorTree.leastCommonAncestorOf, tree.getEdgeNode (later link List.mem_cons_self)]
      exact run
    · intro other member
      rcases List.mem_cons.mp member with rfl | rest
      · exact fromFirst
      · exact fromRest other rest

theorem Made.getNode (tree : Made graph nodes first) (index : Fin n) (next : index.val + 1 = first) :
    ∃ node, getNode nodes (graph.postDfsOrder index) = some node ∧
      ∀ parent, node.parent = some parent → index < parent ∧ PostDominates graph parent index ∧
        (graph.postDfsOrder index).externRef = false := by
  rw [DominatorTree.getNode]
  by_cases external : (graph.postDfsOrder index).externRef
  · exact ⟨⟨none, 1, kOpaque⟩, by rw [if_pos external], by simp⟩
  · have later : ∀ link ∈ (graph.postDfsOrder index).outputs, first ≤ link.node.val := by
      intro link member
      have forward : index.val < link.node.val := graph.forward index link member
      omega
    obtain ⟨result, pattern, run, known, used, covers⟩ :=
      tree.leastCommonAncestorOf (graph.postDfsOrder index).outputs kElemWise later
    rw [if_neg external, run]
    cases result with
    | none => exact ⟨⟨none, 1, pattern⟩, rfl, by simp⟩
    | some ancestor =>
      obtain ⟨ancestorNode, found⟩ := tree.made ancestor (known ancestor rfl)
      refine ⟨⟨some ancestor, ancestorNode.depth + 1, pattern⟩, ?_, ?_⟩
      · simp only [Option.bind_eq_bind, Option.bind_some, found]
        rfl
      · rintro parent ⟨⟩
        have above : first ≤ ancestor.val := known ancestor rfl
        refine ⟨Fin.lt_def.mpr (by omega), ?_, by simpa using external⟩
        apply PostDominates.of_consumers (by simpa using external) (used (by simp))
        intro consumer edge
        obtain ⟨link, member, rfl⟩ := mem_consumers.mp edge
        obtain ⟨node, ⟨⟩, dominates⟩ := covers link member ancestor rfl
        exact dominates

theorem Made.update (tree : Made graph nodes first) {index : Fin n} {node : TreeNode n}
    (next : index.val + 1 = first)
    (parent : ∀ parent, node.parent = some parent → index < parent ∧
      PostDominates graph parent index ∧ (graph.postDfsOrder index).externRef = false) :
    Made graph (Function.update nodes index (some node)) index.val where
  made := by
    intro other late
    by_cases same : other = index
    · exact ⟨node, by rw [same, Function.update_self]⟩
    · rw [Function.update_of_ne same]
      apply tree.made other
      have : other.val ≠ index.val := fun equal => same (Fin.ext equal)
      omega
  parent := by
    intro other otherNode otherParent found isParent
    by_cases same : other = index
    · subst same
      rw [Function.update_self] at found
      obtain rfl := Option.some.inj found
      exact parent otherParent isParent
    · rw [Function.update_of_ne same] at found
      exact tree.parent other otherNode otherParent found isParent

/-- The body of the loop of `PostDom`. -/
def makeNode (graph : IndexedForwardGraph n) (nodes : Nodes n) (index : Fin n) :
    Option (Nodes n) := do
  let node ← DominatorTree.getNode nodes (graph.postDfsOrder index)
  return Function.update nodes index (some node)

theorem reverse_finRange_getElem? {count : Nat} (bound : count < n)
    (inRange : n - 1 - count < n) :
    (List.finRange n).reverse[count]? = some ⟨n - 1 - count, inRange⟩ := by
  rw [List.getElem?_reverse (by simpa using bound), List.length_finRange,
    List.getElem?_eq_getElem (by simpa using inRange), List.getElem_finRange]
  rfl

/-- What holds of no nodes, and is kept where a node is made of later ones, holds of the tree. -/
theorem postDom_of_step (graph : IndexedForwardGraph n) (Invariant : Nodes n → Nat → Prop)
    (start : Invariant (fun _ => none) n)
    (step : ∀ nodes (index : Fin n), Invariant nodes (index.val + 1) →
      ∃ node, DominatorTree.getNode nodes (graph.postDfsOrder index) = some node ∧
        Invariant (Function.update nodes index (some node)) index.val) :
    ∃ nodes, postDom graph = some nodes ∧ Invariant nodes 0 := by
  have loop : ∀ count ≤ n, ∃ nodes, ((List.finRange n).reverse.take count).foldlM (makeNode graph)
      (fun _ => none) = some nodes ∧ Invariant nodes (n - count) := by
    intro count bound
    induction count with
    | zero => exact ⟨fun _ => none, rfl, start⟩
    | succ count ih =>
      obtain ⟨nodes, run, invariant⟩ := ih (by omega)
      have inRange : n - 1 - count < n := by omega
      have next : n - count = n - 1 - count + 1 := by omega
      rw [next] at invariant
      obtain ⟨node, made, kept⟩ := step nodes ⟨n - 1 - count, inRange⟩ invariant
      have last : n - (count + 1) = n - 1 - count := by omega
      rw [last]
      refine ⟨Function.update nodes ⟨n - 1 - count, inRange⟩ (some node), ?_, kept⟩
      rw [List.take_add_one, reverse_finRange_getElem? bound inRange, List.foldlM_append, run]
      simp only [Option.toList_some, List.foldlM_cons, List.foldlM_nil, Option.bind_eq_bind,
        Option.bind_some, makeNode, made, Option.pure_def]
  obtain ⟨nodes, run, invariant⟩ := loop n le_rfl
  have whole : (List.finRange n).reverse.take n = (List.finRange n).reverse := by
    apply List.take_of_length_le
    simp
  rw [whole] at run
  rw [Nat.sub_self] at invariant
  exact ⟨nodes, run, invariant⟩

theorem made_start (graph : IndexedForwardGraph n) : Made graph (fun _ => none) n where
  made index late := absurd index.isLt (Nat.not_lt.mpr late)
  parent _ _ _ found := nomatch found

end DominatorTree

end Tvm.Relay
