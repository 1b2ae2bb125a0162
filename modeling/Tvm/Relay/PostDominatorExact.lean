import Mathlib
import Tvm.Relay.PostDominator

/-!
# The post-dominator tree is exact

The parent of a node is its immediate post-dominator; a node has none exactly where its value leaves
the graph along two paths that share no later node.  The stored pattern is the greatest one of the
edges on the paths to the parent.
-/

namespace Tvm.Relay

open Lib.DepthFirst OpPatternKind

variable {n : Nat} {graph : IndexedForwardGraph n} {node sink first second : Fin n}

def Leaves (graph : IndexedForwardGraph n) (node : Fin n) : Prop :=
  (graph.postDfsOrder node).externRef = true ∨ (graph.postDfsOrder node).outputs = []

inductive Path (graph : IndexedForwardGraph n) : Fin n → List (Edge n) → Fin n → Prop where
  | nil {node : Fin n} : Path graph node [] node
  | cons {node last : Fin n} {link : Edge n} {links : List (Edge n)} :
      link ∈ (graph.postDfsOrder node).outputs → Path graph link.node links last →
      Path graph node (link :: links) last

/-- A path from a node that goes on until the value leaves. -/
inductive MaximalPath (graph : IndexedForwardGraph n) : Fin n → List (Edge n) → Prop where
  | leaves {node : Fin n} : Leaves graph node → MaximalPath graph node []
  | step {node : Fin n} {link : Edge n} {links : List (Edge n)} : ¬Leaves graph node →
      link ∈ (graph.postDfsOrder node).outputs → MaximalPath graph link.node links →
      MaximalPath graph node (link :: links)

def laterNodes (links : List (Edge n)) : List (Fin n) :=
  links.map Edge.node

/-- Two paths on which the value leaves share no later node. -/
def Separate (graph : IndexedForwardGraph n) (node : Fin n) : Prop :=
  ∃ left right, MaximalPath graph node left ∧ MaximalPath graph node right ∧
    (laterNodes left).Disjoint (laterNodes right)

/-- Each path to where the value leaves passes the sink, after its first node. -/
def PassedByAll (graph : IndexedForwardGraph n) (node sink : Fin n) : Prop :=
  ∀ links last, Path graph node links last → Leaves graph last → sink ∈ laterNodes links

/-- The closest of the nodes that each path passes: the others are passed after it. -/
structure ImmediatePostDominator (graph : IndexedForwardGraph n) (node sink : Fin n) : Prop where
  passed : PassedByAll graph node sink
  closest : ∀ other, PassedByAll graph node other → other = sink ∨ PassedByAll graph sink other

def edgePatterns (graph : IndexedForwardGraph n) (node sink : Fin n) : Set OpPatternKind :=
  {pattern | ∃ links, Path graph node links sink ∧ ∃ link ∈ links, link.pattern = pattern}

theorem consumer_of_link {link : Edge n} (edge : link ∈ (graph.postDfsOrder node).outputs) :
    link.node ∈ graph.consumers node :=
  mem_consumers.mpr ⟨link, edge, rfl⟩

theorem not_leaves : ¬Leaves graph node ↔
    (graph.postDfsOrder node).externRef = false ∧ (graph.postDfsOrder node).outputs ≠ [] := by
  rw [Leaves, not_or, Bool.not_eq_true]

theorem postDominates_iff : PostDominates graph sink node ↔
    ∀ middle, BeforeSink graph sink node middle → ¬Leaves graph middle := by
  simp only [PostDominates, not_leaves]

theorem PostDominates.of_outputs (internal : ¬Leaves graph node)
    (each : ∀ link ∈ (graph.postDfsOrder node).outputs, PostDominates graph sink link.node) :
    PostDominates graph sink node := by
  obtain ⟨here, used⟩ := not_leaves.mp internal
  apply PostDominates.of_consumers here used
  intro consumer edge
  obtain ⟨link, member, rfl⟩ := mem_consumers.mp edge
  exact each link member

theorem Path.snoc {links : List (Edge n)} {middle : Fin n} {link : Edge n}
    (path : Path graph node links middle) (edge : link ∈ (graph.postDfsOrder middle).outputs) :
    Path graph node (links ++ [link]) link.node := by
  induction path with
  | nil => exact .cons edge .nil
  | cons first _ ih => exact .cons first (ih edge)

theorem Path.append {left right : List (Edge n)} {middle last : Fin n}
    (path : Path graph node left middle) (rest : Path graph middle right last) :
    Path graph node (left ++ right) last := by
  induction path with
  | nil => exact rest
  | cons edge _ ih => exact .cons edge (ih rest)

theorem Path.le {links : List (Edge n)} {last : Fin n} (path : Path graph node links last) :
    node ≤ last := by
  induction path with
  | nil => exact le_rfl
  | cons edge _ ih => exact (lt_of_mem_consumers (consumer_of_link edge)).le.trans ih

theorem MaximalPath.path {links : List (Edge n)} (maximal : MaximalPath graph node links) :
    ∃ last, Path graph node links last ∧ Leaves graph last := by
  induction maximal with
  | leaves leaves => exact ⟨_, .nil, leaves⟩
  | step _ edge _ ih =>
    obtain ⟨last, path, leaves⟩ := ih
    exact ⟨last, .cons edge path, leaves⟩

theorem MaximalPath.later {links : List (Edge n)} (maximal : MaximalPath graph node links) :
    ∀ other ∈ laterNodes links, node < other := by
  induction maximal with
  | leaves => exact fun _ member => absurd member List.not_mem_nil
  | step _ edge _ ih =>
    intro other member
    have next := lt_of_mem_consumers (consumer_of_link edge)
    rcases List.mem_cons.mp member with rfl | member
    · exact next
    · exact next.trans (ih other member)

/-- The induction is on the distance from the end of the order. -/
theorem exists_maximalPath (graph : IndexedForwardGraph n) (node : Fin n) :
    ∃ links, MaximalPath graph node links := by
  induction isRemaining : n - node.val using Nat.strong_induction_on generalizing node with
  | _ remaining ih =>
    by_cases leaves : Leaves graph node
    · exact ⟨[], .leaves leaves⟩
    · obtain ⟨link, rest, outputs⟩ := List.exists_cons_of_ne_nil (not_leaves.mp leaves).2
      have edge : link ∈ (graph.postDfsOrder node).outputs := by
        rw [outputs]
        exact List.mem_cons_self
      have later : node.val < link.node.val := graph.forward node link edge
      have bound := link.node.isLt
      obtain ⟨links, maximal⟩ := ih (n - link.node.val) (by omega) link.node rfl
      exact ⟨link :: links, .step leaves edge maximal⟩

theorem beforeSink_iff {last : Fin n} : BeforeSink graph sink node last ↔
    node ≠ sink ∧ ∃ links, Path graph node links last ∧ sink ∉ laterNodes links := by
  constructor
  · intro before
    refine ⟨before.src_not_stop, ?_⟩
    induction before with
    | start => exact ⟨[], .nil, List.not_mem_nil⟩
    | step _ edge free ih =>
      obtain ⟨links, path, avoids⟩ := ih
      obtain ⟨link, member, rfl⟩ := mem_consumers.mp edge
      refine ⟨links ++ [link], path.snoc member, fun passes => ?_⟩
      rw [laterNodes, List.map_append] at passes
      rcases List.mem_append.mp passes with passes | passes
      · exact avoids passes
      · exact free (List.mem_singleton.mp passes).symm
  · rintro ⟨other, links, path, avoids⟩
    induction path with
    | nil => exact .start other
    | cons edge _ ih =>
      obtain ⟨here, rest⟩ := not_or.mp (List.mem_cons.not.mp avoids)
      exact (ih (Ne.symm here) rest).head other (consumer_of_link edge)

theorem PostDominates.exists_path (dominates : PostDominates graph sink node) :
    ∃ links, Path graph node links sink := by
  rcases eq_or_ne node sink with rfl | other
  · exact ⟨[], .nil⟩
  · obtain ⟨middle, before, edge⟩ := dominates.exists_last other
    obtain ⟨-, links, path, -⟩ := beforeSink_iff.mp before
    obtain ⟨link, member, rfl⟩ := mem_consumers.mp edge
    exact ⟨links ++ [link], path.snoc member⟩

/-- All paths pass a node exactly where it post-dominates and is not the first one. -/
theorem passedByAll_iff : PassedByAll graph node sink ↔
    PostDominates graph sink node ∧ node ≠ sink := by
  constructor
  · intro passed
    obtain ⟨links, maximal⟩ := exists_maximalPath graph node
    obtain ⟨last, path, leaves⟩ := maximal.path
    have later := maximal.later sink (passed links last path leaves)
    refine ⟨postDominates_iff.mpr fun middle before leaves => ?_, later.ne⟩
    obtain ⟨-, links, path, avoids⟩ := beforeSink_iff.mp before
    exact avoids (passed links middle path leaves)
  · rintro ⟨dominates, other⟩ links last path leaves
    by_contra avoids
    exact postDominates_iff.mp dominates last (beforeSink_iff.mpr ⟨other, links, path, avoids⟩) leaves

theorem BeforeSink.widen {middle : Fin n} (inner : PostDominates graph first node)
    (order : first ≤ second) (path : BeforeSink graph first node middle) :
    BeforeSink graph second node middle := by
  induction path with
  | start free => exact .start ((inner.before_lt (.start free)).trans_le order).ne
  | step before edge free ih =>
    exact ih.step edge ((inner.before_lt (before.step edge free)).trans_le order).ne

theorem PostDominates.reaches (inner : PostDominates graph first node) (order : first < second) :
    BeforeSink graph second node first := by
  rcases eq_or_ne node first with rfl | other
  · exact .start order.ne
  · obtain ⟨middle, path, edge⟩ := inner.exists_last other
    exact (path.widen inner order.le).step edge order.ne

theorem PostDominates.of_le (inner : PostDominates graph first node)
    (outer : PostDominates graph second node) (order : first ≤ second) :
    PostDominates graph second first := by
  rcases order.eq_or_lt with rfl | before
  · exact .refl first
  · exact outer.of_before (inner.reaches before)

theorem exists_root (graph : IndexedForwardGraph n) (node : Fin n) :
    ∃ root, PostDominates graph root node ∧
      ∀ sink, PostDominates graph sink node → PostDominates graph root sink := by
  obtain ⟨root, dominates, greatest⟩ := Set.exists_max_image
    {sink | PostDominates graph sink node} id (Set.toFinite _) ⟨node, .refl node⟩
  exact ⟨root, dominates, fun sink other => other.of_le dominates (greatest sink other)⟩

def Apart (graph : IndexedForwardGraph n) (first second : Fin n) : Prop :=
  ∀ sink, ¬(PostDominates graph sink first ∧ PostDominates graph sink second)

/-- Maximal paths from two nodes that share no node. -/
def DisjointPaths (graph : IndexedForwardGraph n) (first second : Fin n) : Prop :=
  ∃ left right, MaximalPath graph first left ∧ MaximalPath graph second right ∧
    (first :: laterNodes left).Disjoint (second :: laterNodes right)

theorem Apart.symm (apart : Apart graph first second) : Apart graph second first :=
  fun sink both => apart sink both.symm

theorem DisjointPaths.symm (paths : DisjointPaths graph first second) :
    DisjointPaths graph second first := by
  obtain ⟨left, right, maximal, maximal', disjoint⟩ := paths
  exact ⟨right, left, maximal', maximal, disjoint.symm⟩

theorem MaximalPath.not_mem (order : first < second) {links : List (Edge n)}
    (maximal : MaximalPath graph second links) : first ∉ second :: laterNodes links := by
  intro member
  rcases List.mem_cons.mp member with same | member
  · exact order.ne same
  · exact lt_asymm order (maximal.later first member)

theorem exists_apart (apart : ∀ sink, PostDominates graph sink second →
      ¬∀ link ∈ (graph.postDfsOrder node).outputs, PostDominates graph sink link.node) :
    ∃ link ∈ (graph.postDfsOrder node).outputs, Apart graph link.node second := by
  by_contra shared
  obtain ⟨root, dominates, last⟩ := exists_root graph second
  apply apart root dominates
  intro link edge
  by_contra other
  apply shared
  refine ⟨link, edge, fun sink both => other ?_⟩
  exact both.1.trans (last sink both.2)

theorem Apart.disjointPaths_of_lt (apart : Apart graph first second) (order : first < second)
    (ih : ∀ consumer, first < consumer → Apart graph consumer second →
      DisjointPaths graph consumer second) : DisjointPaths graph first second := by
  by_cases leaves : Leaves graph first
  · obtain ⟨links, maximal⟩ := exists_maximalPath graph second
    refine ⟨[], links, .leaves leaves, maximal, ?_⟩
    exact List.singleton_disjoint.mpr (maximal.not_mem order)
  · have covers : ∀ sink, PostDominates graph sink second →
        ¬∀ link ∈ (graph.postDfsOrder first).outputs, PostDominates graph sink link.node := by
      intro sink dominates each
      exact apart sink ⟨.of_outputs leaves each, dominates⟩
    obtain ⟨link, edge, apart'⟩ := exists_apart covers
    have later := lt_of_mem_consumers (consumer_of_link edge)
    obtain ⟨left, right, maximal, maximal', disjoint⟩ := ih link.node later apart'
    refine ⟨link :: left, right, .step leaves edge maximal, maximal', ?_⟩
    exact List.disjoint_cons_left.mpr ⟨maximal'.not_mem order, disjoint⟩

/-- The earlier of the two nodes goes on; the induction is on how far both are from the end. -/
theorem Apart.disjointPaths (apart : Apart graph first second) :
    DisjointPaths graph first second := by
  induction isRemaining : n - first.val + (n - second.val) using Nat.strong_induction_on
    generalizing first second with
  | _ remaining ih =>
    rcases lt_trichotomy first second with order | rfl | order
    · apply apart.disjointPaths_of_lt order
      intro consumer later apart'
      have earlier : first.val < consumer.val := later
      exact ih _ (by omega) apart' rfl
    · exact absurd ⟨.refl first, .refl first⟩ (apart first)
    · apply DisjointPaths.symm
      apply apart.symm.disjointPaths_of_lt order
      intro consumer later apart'
      have earlier : second.val < consumer.val := later
      exact ih _ (by omega) apart' rfl

/-- The paths of a node share a later node exactly where it has another post-dominator. -/
theorem separate_iff : Separate graph node ↔ ∀ sink, PostDominates graph sink node → sink = node := by
  constructor
  · rintro ⟨left, right, maximal, maximal', disjoint⟩ sink dominates
    by_contra other
    have passed := passedByAll_iff.mpr ⟨dominates, Ne.symm other⟩
    obtain ⟨last, path, leaves⟩ := maximal.path
    obtain ⟨last', path', leaves'⟩ := maximal'.path
    exact disjoint (passed _ _ path leaves) (passed _ _ path' leaves')
  · intro alone
    by_cases leaves : Leaves graph node
    · exact ⟨[], [], .leaves leaves, .leaves leaves, List.disjoint_nil_left _⟩
    obtain ⟨link, rest, outputs⟩ := List.exists_cons_of_ne_nil (not_leaves.mp leaves).2
    have edge : link ∈ (graph.postDfsOrder node).outputs := by
      rw [outputs]
      exact List.mem_cons_self
    have covers : ∀ sink, PostDominates graph sink link.node →
        ¬∀ link ∈ (graph.postDfsOrder node).outputs, PostDominates graph sink link.node := by
      intro sink dominates each
      have later := lt_of_mem_consumers (consumer_of_link edge)
      exact absurd (alone sink (.of_outputs leaves each)) (later.trans_le dominates.le).ne'
    obtain ⟨other, edge', apart⟩ := exists_apart covers
    obtain ⟨left, right, maximal, maximal', disjoint⟩ := apart.disjointPaths
    exact ⟨other :: left, link :: right, .step leaves edge' maximal, .step leaves edge maximal',
      disjoint⟩

theorem combinePattern_le {lhs rhs : OpPatternKind} {bound : Nat} :
    (DominatorTree.combinePattern lhs rhs).value ≤ bound ↔ lhs.value ≤ bound ∧ rhs.value ≤ bound := by
  rw [DominatorTree.combinePattern]
  split <;> omega

def EdgesBelow (graph : IndexedForwardGraph n) (node sink : Fin n) (bound : Nat) : Prop :=
  ∀ middle, BeforeSink graph sink node middle →
    ∀ link ∈ (graph.postDfsOrder middle).outputs, link.pattern.value ≤ bound

theorem EdgesBelow.refl (node : Fin n) (bound : Nat) : EdgesBelow graph node node bound :=
  fun _ path => absurd rfl path.src_not_stop

theorem edgesBelow_trans {bound : Nat} (inner : PostDominates graph first node)
    (outer : PostDominates graph second first) : EdgesBelow graph node second bound ↔
      EdgesBelow graph node first bound ∧ EdgesBelow graph first second bound := by
  constructor
  · intro below
    refine ⟨fun middle path => below middle (path.widen inner outer.le), fun middle path => ?_⟩
    have before : first < second := lt_of_le_of_ne outer.le path.src_not_stop
    exact below middle ((inner.reaches before).trans path)
  · rintro ⟨before, after⟩ middle path
    rcases BeforeSink.split first path with path | path
    · exact before middle path
    · exact after middle path

theorem edgesBelow_outputs {bound : Nat} (other : node ≠ sink) : EdgesBelow graph node sink bound ↔
    ∀ link ∈ (graph.postDfsOrder node).outputs,
      link.pattern.value ≤ bound ∧ EdgesBelow graph link.node sink bound := by
  constructor
  · intro below link edge
    exact ⟨below node (.start other) link edge, fun middle path =>
      below middle (path.head other (consumer_of_link edge))⟩
  · intro each middle path link edge
    rcases path.cases_head with rfl | ⟨consumer, first, rest⟩
    · exact (each link edge).1
    · obtain ⟨head, member, rfl⟩ := mem_consumers.mp first
      exact (each head member).2 middle rest link edge

theorem edgesBelow_iff {bound : Nat} (dominates : PostDominates graph sink node) :
    EdgesBelow graph node sink bound ↔
      ∀ pattern ∈ edgePatterns graph node sink, pattern.value ≤ bound := by
  constructor
  · rintro below pattern ⟨links, path, link, member, rfl⟩
    induction path with
    | nil => exact absurd member List.not_mem_nil
    | @cons node last head links edge rest ih =>
      have other : node ≠ last := by
        rintro rfl
        exact rest.le.not_gt (lt_of_mem_consumers (consumer_of_link edge))
      have each := (edgesBelow_outputs other).mp below head edge
      rcases List.mem_cons.mp member with rfl | member
      · exact each.1
      · exact ih (dominates.consumer other (consumer_of_link edge)) each.2 member
  · intro each middle before link edge
    obtain ⟨-, links, path, -⟩ := beforeSink_iff.mp before
    have beyond := (dominates.of_before before).consumer before.not_stop (consumer_of_link edge)
    obtain ⟨rest, path'⟩ := beyond.exists_path
    exact each _ ⟨links ++ link :: rest, path.append (.cons edge path'), link,
      List.mem_append_right links List.mem_cons_self, rfl⟩

theorem value_injective : Function.Injective OpPatternKind.value := by
  intro lhs rhs same
  cases lhs <;> cases rhs <;> first | rfl | cases same

theorem isGreatest_of_bounds {pattern : OpPatternKind} (dominates : PostDominates graph sink node)
    (other : node ≠ sink)
    (exact : ∀ bound, pattern.value ≤ bound ↔ EdgesBelow graph node sink bound) :
    IsGreatest (edgePatterns graph node sink) pattern := by
  have bounds := fun bound => (exact bound).trans (edgesBelow_iff dominates)
  have above := (bounds pattern.value).mp le_rfl
  refine ⟨?_, fun lower member => above lower member⟩
  obtain ⟨links, path⟩ := dominates.exists_path
  by_contra absent
  have less : ∀ lower ∈ edgePatterns graph node sink, lower.value < pattern.value := by
    intro lower member
    apply lt_of_le_of_ne (above lower member)
    intro same
    exact absent (value_injective same ▸ member)
  cases path with
  | nil => exact other rfl
  | @cons _ _ link links edge rest =>
    have here := less link.pattern ⟨link :: links, .cons edge rest, link, List.mem_cons_self, rfl⟩
    have smaller := (bounds (pattern.value - 1)).mpr fun lower member => by
      have := less lower member
      omega
    omega

namespace DominatorTree

/-- The node, if there is one, has the post-dominator. -/
def Above (graph : IndexedForwardGraph n) (sink : Fin n) (node : Option (Fin n)) : Prop :=
  ∃ index, node = some index ∧ PostDominates graph sink index

/-- The edges from the node, if there is one, to the sink have patterns within the bound. -/
def ClimbBelow (graph : IndexedForwardGraph n) (node : Option (Fin n)) (sink : Fin n)
    (bound : Nat) : Prop :=
  ∀ index, node = some index → EdgesBelow graph index sink bound

theorem above_some {index : Fin n} : Above graph sink (some index) ↔ PostDominates graph sink index :=
  ⟨fun ⟨_, same, dominates⟩ => Option.some.inj same ▸ dominates, fun dominates => ⟨index, rfl, dominates⟩⟩

theorem not_above_none : ¬Above graph sink none :=
  fun ⟨_, same, _⟩ => nomatch same

theorem climbBelow_some {index : Fin n} {bound : Nat} :
    ClimbBelow graph (some index) sink bound ↔ EdgesBelow graph index sink bound :=
  ⟨fun below => below index rfl, fun below _ same => Option.some.inj same ▸ below⟩

theorem climbBelow_trans {lower : Option (Fin n)} {bound : Nat} (inner : Above graph first lower)
    (outer : PostDominates graph second first) : ClimbBelow graph lower second bound ↔
      ClimbBelow graph lower first bound ∧ EdgesBelow graph first second bound := by
  obtain ⟨index, rfl, dominates⟩ := inner
  rw [climbBelow_some, climbBelow_some]
  exact edgesBelow_trans dominates outer

/-- The nodes that are made: the post-dominators of each are the node and those of its parent, of
less depth, and its pattern bounds the edges to its parent. -/
structure Exact (graph : IndexedForwardGraph n) (nodes : Nodes n) (start : Nat) : Prop where
  late : ∀ index node, nodes index = some node → start ≤ index.val
  parent : ∀ index node, nodes index = some node → ∀ sink,
    PostDominates graph sink index ↔ sink = index ∨ Above graph sink node.parent
  forward : ∀ index node parent, nodes index = some node → node.parent = some parent →
    index < parent
  depth : ∀ index node sink sinkNode, nodes index = some node → nodes sink = some sinkNode →
    PostDominates graph sink index → sink ≠ index → sinkNode.depth < node.depth
  pattern : ∀ index node parent, nodes index = some node → node.parent = some parent →
    ∀ bound, node.pattern.value ≤ bound ↔ EdgesBelow graph index parent bound

variable {nodes : Nodes n} {start : Nat}

theorem Exact.climb (tree : Exact graph nodes start) {index : Fin n} {node : TreeNode n}
    (found : nodes index = some node) (above : Above graph sink node.parent) {bound : Nat} :
    EdgesBelow graph index sink bound ↔
      node.pattern.value ≤ bound ∧ ClimbBelow graph node.parent sink bound := by
  obtain ⟨parent, isParent, dominates⟩ := above
  have inner : PostDominates graph parent index :=
    (tree.parent index node found parent).mpr (.inr ⟨parent, isParent, .refl parent⟩)
  rw [edgesBelow_trans inner dominates, tree.pattern index node parent found isParent, isParent,
    climbBelow_some]

/-- The least common ancestor: its post-dominators are the common ones, and the pattern combines those
on the way to it. -/
structure Common (graph : IndexedForwardGraph n) (lhs rhs : Option (Fin n))
    (edgePattern : OpPatternKind) (found : Option (Fin n) × OpPatternKind) : Prop where
  above : ∀ sink, Above graph sink found.1 ↔ Above graph sink lhs ∧ Above graph sink rhs
  pattern : ∀ top, found.1 = some top → ∀ bound, found.2.value ≤ bound ↔
    edgePattern.value ≤ bound ∧ ClimbBelow graph lhs top bound ∧ ClimbBelow graph rhs top bound

theorem Common.symm {lhs rhs : Option (Fin n)} {edgePattern : OpPatternKind}
    {found : Option (Fin n) × OpPatternKind} (common : Common graph lhs rhs edgePattern found) :
    Common graph rhs lhs edgePattern found where
  above sink := (common.above sink).trans and_comm
  pattern top isTop bound := by
    rw [common.pattern top isTop bound]
    tauto

theorem Exact.climb_common (tree : Exact graph nodes start) {right : Fin n} {node : TreeNode n}
    (foundRight : nodes right = some node) {lhs : Option (Fin n)} (aside : ¬Above graph right lhs)
    {edgePattern : OpPatternKind} {found : Option (Fin n) × OpPatternKind}
    (common : Common graph lhs node.parent (combinePattern edgePattern node.pattern) found) :
    Common graph lhs (some right) edgePattern found where
  above sink := by
    rw [common.above, above_some, tree.parent right node foundRight sink]
    refine and_congr_right fun above => (or_iff_right ?_).symm
    rintro rfl
    exact aside above
  pattern top isTop bound := by
    have above := (common.above top).mp ⟨top, isTop, .refl top⟩
    rw [common.pattern top isTop, combinePattern_le, climbBelow_some, tree.climb foundRight above.2]
    tauto

theorem Exact.leastCommonAncestor (tree : Exact graph nodes start) (fuel : Nat) :
    ∀ (lhs rhs : Option (Fin n)) (edgePattern : OpPatternKind)
      (found : Option (Fin n) × OpPatternKind),
      leastCommonAncestor nodes fuel lhs rhs edgePattern = some found →
      Common graph lhs rhs edgePattern found := by
  induction fuel with
  | zero => exact fun _ _ _ _ run => nomatch run
  | succ fuel ih =>
    intro lhs rhs edgePattern found run
    unfold DominatorTree.leastCommonAncestor at run
    split at run
    · rename_i same
      cases run
      subst same
      refine ⟨fun sink => (and_self_iff).symm, ?_⟩
      rintro top rfl bound
      have here : ClimbBelow graph (some top) top bound := climbBelow_some.mpr (.refl top bound)
      exact ⟨fun below => ⟨below, here, here⟩, fun both => both.1⟩
    · rename_i differ
      split at run
      · cases run
        exact ⟨fun sink => iff_of_false not_above_none fun both => not_above_none both.1,
          fun top isTop => nomatch isTop⟩
      · cases run
        exact ⟨fun sink => iff_of_false not_above_none fun both => not_above_none both.2,
          fun top isTop => nomatch isTop⟩
      · rename_i left right
        obtain ⟨leftNode, foundLeft, run⟩ := Option.bind_eq_some_iff.mp run
        obtain ⟨rightNode, foundRight, run⟩ := Option.bind_eq_some_iff.mp run
        have other : left ≠ right := fun same => differ (congrArg some same)
        -- what is above a node is of less depth
        have asideLeft : leftNode.depth ≤ rightNode.depth → ¬PostDominates graph right left :=
          fun order above => order.not_gt
            (tree.depth left leftNode right rightNode foundLeft foundRight above other.symm)
        have asideRight : rightNode.depth ≤ leftNode.depth → ¬PostDominates graph left right :=
          fun order above => order.not_gt
            (tree.depth right rightNode left leftNode foundRight foundLeft above other)
        split at run
        · rename_i deeper
          apply tree.climb_common foundRight (above_some.not.mpr (asideLeft deeper.le))
          exact ih _ _ _ _ run
        · rename_i shallow
          split at run
          · rename_i deeper
            apply Common.symm
            apply tree.climb_common foundLeft (above_some.not.mpr (asideRight deeper.le))
            exact (ih _ _ _ _ run).symm
          · rename_i deep
            have aside : ¬Above graph right leftNode.parent := fun above =>
              asideLeft (not_lt.mp deep) ((tree.parent left leftNode foundLeft right).mpr (.inr above))
            apply Common.symm
            apply tree.climb_common foundLeft (above_some.not.mpr (asideRight (not_lt.mp shallow)))
            exact (tree.climb_common foundRight aside (ih _ _ _ _ run)).symm

structure CommonOf (graph : IndexedForwardGraph n) (links : List (Edge n))
    (state found : Option (Fin n) × OpPatternKind) : Prop where
  above : ∀ sink, Above graph sink found.1 ↔
    Above graph sink state.1 ∧ ∀ link ∈ links, PostDominates graph sink link.node
  pattern : ∀ top, found.1 = some top → ∀ bound, found.2.value ≤ bound ↔
    state.2.value ≤ bound ∧ ClimbBelow graph state.1 top bound ∧
      ∀ link ∈ links, link.pattern.value ≤ bound ∧ EdgesBelow graph link.node top bound

theorem getEdgeNode_eq {link : Edge n} {index : Fin n} (run : getEdgeNode nodes link = some index) :
    index = link.node := by
  obtain ⟨_, -, same⟩ := Option.bind_eq_some_iff.mp run
  exact (Option.some.inj same).symm

theorem CommonOf.nil (state : Option (Fin n) × OpPatternKind) : CommonOf graph [] state state where
  above sink := by simp
  pattern top isTop bound := by
    have here : ClimbBelow graph state.1 top bound := isTop ▸ climbBelow_some.mpr (.refl top bound)
    simp [here]

theorem CommonOf.cons {link : Edge n} {links : List (Edge n)}
    {state middle found : Option (Fin n) × OpPatternKind}
    (common : Common graph state.1 (some link.node) state.2 middle)
    (rest : CommonOf graph links (middle.1, combinePattern middle.2 link.pattern) found) :
    CommonOf graph (link :: links) state found where
  above sink := by
    rw [rest.above, common.above, above_some, List.forall_mem_cons, and_assoc]
  pattern top isTop bound := by
    obtain ⟨between, isMiddle, dominates⟩ := ((rest.above top).mp ⟨top, isTop, .refl top⟩).1
    have ⟨aboveState, aboveLink⟩ := (common.above between).mp ⟨between, isMiddle, .refl between⟩
    have isBetween : ClimbBelow graph middle.1 top bound ↔ EdgesBelow graph between top bound := by
      rw [show middle.1 = some between from isMiddle, climbBelow_some]
    rw [rest.pattern top isTop, combinePattern_le, common.pattern between isMiddle, isBetween,
      climbBelow_trans aboveState dominates, climbBelow_some, List.forall_mem_cons,
      edgesBelow_trans (above_some.mp aboveLink) dominates]
    tauto

theorem Exact.foldAncestor (tree : Exact graph nodes start) (links : List (Edge n)) :
    ∀ (state found : Option (Fin n) × OpPatternKind),
      links.foldlM (fun state link => do
          let node ← DominatorTree.getEdgeNode nodes link
          let found ← DominatorTree.leastCommonAncestor nodes (2 * n + 1) state.1 (some node)
            state.2
          return (found.1, combinePattern found.2 link.pattern)) state = some found →
      CommonOf graph links state found := by
  induction links with
  | nil =>
    intro state found run
    cases run
    exact .nil state
  | cons link links ih =>
    intro state found run
    rw [List.foldlM_cons] at run
    obtain ⟨next, step, run⟩ := Option.bind_eq_some_iff.mp run
    obtain ⟨index, isNode, step⟩ := Option.bind_eq_some_iff.mp step
    obtain ⟨middle, climbed, same⟩ := Option.bind_eq_some_iff.mp step
    cases same
    cases getEdgeNode_eq isNode
    exact .cons (tree.leastCommonAncestor _ _ _ _ _ climbed) (ih _ _ run)

theorem Exact.leastCommonAncestorOf (tree : Exact graph nodes start) {links : List (Edge n)}
    {found : Option (Fin n) × OpPatternKind}
    (run : leastCommonAncestorOf nodes links kElemWise = some found) :
    (∀ sink, Above graph sink found.1 ↔
      links ≠ [] ∧ ∀ link ∈ links, PostDominates graph sink link.node) ∧
    ∀ top, found.1 = some top → ∀ bound, found.2.value ≤ bound ↔
      ∀ link ∈ links, link.pattern.value ≤ bound ∧ EdgesBelow graph link.node top bound := by
  cases links with
  | nil =>
    cases run
    exact ⟨fun sink => iff_of_false not_above_none fun both => both.1 rfl,
      fun top isTop => nomatch isTop⟩
  | cons link links =>
    obtain ⟨index, isNode, run⟩ := Option.bind_eq_some_iff.mp run
    cases getEdgeNode_eq isNode
    have common := tree.foldAncestor links _ _ run
    refine ⟨fun sink => ?_, fun top isTop bound => ?_⟩
    · rw [common.above, above_some, List.forall_mem_cons]
      simp
    · rw [common.pattern top isTop, combinePattern_le, climbBelow_some, List.forall_mem_cons]
      have least : kElemWise.value ≤ bound := Nat.zero_le bound
      tauto

theorem postDominates_of_leaves (leaves : Leaves graph node) :
    PostDominates graph sink node ↔ sink = node := by
  refine ⟨fun dominates => ?_, fun same => same ▸ PostDominates.refl sink⟩
  by_contra other
  exact postDominates_iff.mp dominates node (.start (Ne.symm other)) leaves

theorem postDominates_outputs (internal : ¬Leaves graph node) : PostDominates graph sink node ↔
    sink = node ∨ (graph.postDfsOrder node).outputs ≠ [] ∧
      ∀ link ∈ (graph.postDfsOrder node).outputs, PostDominates graph sink link.node := by
  constructor
  · intro dominates
    rcases eq_or_ne sink node with same | other
    · exact .inl same
    · exact .inr ⟨(not_leaves.mp internal).2, fun link edge =>
        dominates.consumer other.symm (consumer_of_link edge)⟩
  · rintro (rfl | ⟨-, each⟩)
    · exact .refl sink
    · exact .of_outputs internal each

structure NewNode (graph : IndexedForwardGraph n) (nodes : Nodes n) (index : Fin n)
    (node : TreeNode n) : Prop where
  parent : ∀ sink, PostDominates graph sink index ↔ sink = index ∨ Above graph sink node.parent
  made : ∀ parent, node.parent = some parent →
    ∃ parentNode, nodes parent = some parentNode ∧ node.depth = parentNode.depth + 1
  pattern : ∀ parent, node.parent = some parent →
    ∀ bound, node.pattern.value ≤ bound ↔ EdgesBelow graph index parent bound

theorem Exact.getNode (tree : Exact graph nodes start) {index : Fin n} (next : index.val < start)
    {node : TreeNode n} (run : getNode nodes (graph.postDfsOrder index) = some node) :
    NewNode graph nodes index node := by
  rw [DominatorTree.getNode] at run
  split at run
  · rename_i external
    cases run
    refine ⟨fun sink => ?_, by rintro _ ⟨⟩, by rintro _ ⟨⟩⟩
    rw [postDominates_of_leaves (.inl external)]
    exact (or_iff_left not_above_none).symm
  · rename_i internal
    obtain ⟨found, isFound, run⟩ := Option.bind_eq_some_iff.mp run
    obtain ⟨above, pattern⟩ := tree.leastCommonAncestorOf isFound
    have parent : ∀ sink, PostDominates graph sink index ↔ sink = index ∨ Above graph sink found.1 := by
      intro sink
      by_cases leaves : Leaves graph index
      · have unused : (graph.postDfsOrder index).outputs = [] := leaves.resolve_left internal
        rw [postDominates_of_leaves leaves, above]
        exact (or_iff_left fun both => both.1 unused).symm
      · rw [postDominates_outputs leaves, above]
    cases isAncestor : found.1 with
    | none =>
      rw [isAncestor] at run parent
      cases run
      exact ⟨parent, by rintro _ ⟨⟩, by rintro _ ⟨⟩⟩
    | some ancestor =>
      rw [isAncestor] at run parent
      obtain ⟨ancestorNode, made, run⟩ := Option.bind_eq_some_iff.mp run
      cases run
      refine ⟨parent, ?_, ?_⟩
      · rintro _ ⟨⟩
        exact ⟨ancestorNode, made, rfl⟩
      · rintro _ ⟨⟩ bound
        have other : index ≠ ancestor := by
          rintro rfl
          exact absurd (tree.late _ _ made) (Nat.not_le.mpr next)
        rw [pattern ancestor isAncestor, edgesBelow_outputs other]

theorem Exact.update (tree : Exact graph nodes start) {index : Fin n} {node : TreeNode n}
    (next : index.val + 1 = start) (new : NewNode graph nodes index node) :
    Exact graph (Function.update nodes index (some node)) index.val := by
  have cases : ∀ {other otherNode}, Function.update nodes index (some node) other = some otherNode →
      other = index ∧ otherNode = node ∨ index < other ∧ nodes other = some otherNode := by
    intro other otherNode found
    by_cases same : other = index
    · subst same
      rw [Function.update_self] at found
      exact .inl ⟨rfl, (Option.some.inj found).symm⟩
    · rw [Function.update_of_ne same] at found
      have := tree.late other otherNode found
      exact .inr ⟨Fin.lt_def.mpr (by omega), found⟩
  have forward : ∀ parent, node.parent = some parent → index < parent := by
    intro parent isParent
    obtain ⟨parentNode, made, -⟩ := new.made parent isParent
    have := tree.late parent parentNode made
    exact Fin.lt_def.mpr (by omega)
  refine ⟨?_, ?_, ?_, ?_, ?_⟩
  · intro other otherNode found
    rcases cases found with ⟨rfl, -⟩ | ⟨later, -⟩
    · exact le_rfl
    · exact le_of_lt later
  · intro other otherNode found
    rcases cases found with ⟨rfl, rfl⟩ | ⟨-, made⟩
    · exact new.parent
    · exact tree.parent other otherNode made
  · intro other otherNode parent found
    rcases cases found with ⟨rfl, rfl⟩ | ⟨-, made⟩
    · exact forward parent
    · exact tree.forward other otherNode parent made
  · intro other otherNode sink sinkNode found foundSink dominates differ
    rcases cases foundSink with ⟨rfl, rfl⟩ | ⟨-, madeSink⟩
    · rcases cases found with ⟨rfl, -⟩ | ⟨later, -⟩
      · exact absurd rfl differ
      · exact absurd dominates.le later.not_ge
    · rcases cases found with ⟨rfl, rfl⟩ | ⟨-, made⟩
      · obtain ⟨parent, isParent, above⟩ := ((new.parent sink).mp dominates).resolve_left differ
        obtain ⟨parentNode, madeParent, deeper⟩ := new.made parent isParent
        rw [deeper, Nat.lt_succ_iff]
        rcases eq_or_ne sink parent with rfl | other
        · rw [madeSink] at madeParent
          exact (congrArg TreeNode.depth (Option.some.inj madeParent)).le
        · exact (tree.depth parent parentNode sink sinkNode madeParent madeSink above other).le
      · exact tree.depth other otherNode sink sinkNode made madeSink dominates differ
  · intro other otherNode parent found
    rcases cases found with ⟨rfl, rfl⟩ | ⟨-, made⟩
    · exact new.pattern parent
    · exact tree.pattern other otherNode parent made

theorem exact_start (graph : IndexedForwardGraph n) : Exact graph (fun _ => none) n where
  late _ _ found := nomatch found
  parent _ _ found := nomatch found
  forward _ _ _ found := nomatch found
  depth _ _ _ _ found := nomatch found
  pattern _ _ _ found := nomatch found

theorem postDom_tree (graph : IndexedForwardGraph n) :
    ∃ nodes, postDom graph = some nodes ∧ Made graph nodes 0 ∧ Exact graph nodes 0 := by
  apply postDom_of_step graph (fun nodes start => Made graph nodes start ∧ Exact graph nodes start)
    ⟨made_start graph, exact_start graph⟩
  rintro nodes index ⟨tree, exact⟩
  obtain ⟨node, made, parent⟩ := tree.getNode index rfl
  exact ⟨node, made, tree.update rfl parent, exact.update rfl (exact.getNode (Nat.lt_succ_self _) made)⟩

/-- The post-dominator tree: no parent where a value leaves, or leaves along two paths that share no
later node; elsewhere the immediate post-dominator, with the greatest pattern on the paths to it. -/
theorem postDom_exact (graph : IndexedForwardGraph n) :
    ∃ nodes, postDom graph = some nodes ∧ ∀ index, ∃ node, nodes index = some node ∧
      ((graph.postDfsOrder index).externRef = true ∨ Separate graph index → node.parent = none) ∧
      (¬((graph.postDfsOrder index).externRef = true ∨ Separate graph index) →
        ∃ parent, node.parent = some parent ∧ ImmediatePostDominator graph index parent ∧
          IsGreatest (edgePatterns graph index parent) node.pattern) := by
  obtain ⟨nodes, run, tree, exact⟩ := postDom_tree graph
  refine ⟨nodes, run, fun index => ?_⟩
  obtain ⟨node, found⟩ := tree.made index (Nat.zero_le _)
  have alone : (graph.postDfsOrder index).externRef = true ∨ Separate graph index ↔
      ∀ sink, PostDominates graph sink index → sink = index := by
    constructor
    · rintro (external | separate)
      · exact fun sink dominates => (postDominates_of_leaves (.inl external)).mp dominates
      · exact separate_iff.mp separate
    · exact fun alone => .inr (separate_iff.mpr alone)
  refine ⟨node, found, fun leaves => ?_, fun internal => ?_⟩
  · cases isParent : node.parent with
    | none => rfl
    | some parent =>
      have dominates : PostDominates graph parent index :=
        (exact.parent index node found parent).mpr (.inr ⟨parent, isParent, .refl parent⟩)
      have later := exact.forward index node parent found isParent
      exact absurd (alone.mp leaves parent dominates) later.ne'
  · rw [alone] at internal
    push Not at internal
    obtain ⟨sink, dominates, other⟩ := internal
    obtain ⟨parent, isParent, -⟩ := ((exact.parent index node found sink).mp dominates).resolve_left
      other
    have parentDominates : PostDominates graph parent index :=
      (exact.parent index node found parent).mpr (.inr ⟨parent, isParent, .refl parent⟩)
    have later := exact.forward index node parent found isParent
    refine ⟨parent, isParent, ⟨passedByAll_iff.mpr ⟨parentDominates, later.ne⟩, ?_⟩, ?_⟩
    · intro last passed
      have ⟨last', differ⟩ := passedByAll_iff.mp passed
      obtain ⟨_, same, above⟩ := ((exact.parent index node found last).mp last').resolve_left
        differ.symm
      cases isParent.symm.trans same
      rcases eq_or_ne last parent with rfl | beyond
      · exact .inl rfl
      · exact .inr (passedByAll_iff.mpr ⟨above, beyond.symm⟩)
    · exact isGreatest_of_bounds parentDominates later.ne
        (exact.pattern index node parent found isParent)

end DominatorTree

end Tvm.Relay
