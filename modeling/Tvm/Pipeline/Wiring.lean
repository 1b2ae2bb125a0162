import Mathlib

/-!
# The wiring of a pipeline

Which interface forwards its data into which, as `PipelineInit` records it in `children_`,
`input_queue_` and `parents_notify_`, and what the modules compute when they run in order.
-/

namespace Tvm.Pipeline

/-- The interfaces that data is forwarded into: an input of a module or an output of the pipeline. -/
inductive Interface where
  | input (runtimeIdx inputIdx : Nat)
  | output (outputIdx : Nat)
  deriving DecidableEq

/-- The interfaces that data is forwarded out of: an input of the pipeline or an output of a
module. -/
inductive Source where
  | global (inputIdx : Nat)
  | module (runtimeIdx outputIdx : Nat)
  deriving DecidableEq

namespace Interface

/-- The runtime with the interface; the global runtime has the outputs of the pipeline. -/
def owner : Interface → Option Nat
  | input i _ => some i
  | output _ => none

def index : Interface → Nat
  | input _ j => j
  | output g => g

theorem eq_of_owner {t t' : Interface} (sameOwner : t.owner = t'.owner)
    (sameIndex : t.index = t'.index) : t = t' := by
  cases t <;> cases t' <;> simp_all [owner, index]

end Interface

structure Connections where
  /-- The number of modules. -/
  runtimes : Nat
  /-- The number of inputs of the pipeline. -/
  globalInputs : Nat
  /-- `children_` of the global runtime: the modules with their inputs. -/
  globalChildren : Nat → List (Nat × Nat)
  /-- `children_` of a module by its outputs. -/
  children : Nat → List (Nat × List Interface)

namespace Connections

variable (w : Connections)

def targets (i : Nat) : List (Nat × Interface) :=
  (w.children i).flatMap fun child => child.2.map fun t => (child.1, t)

/-- All pairs, in the order of `PipelineInit`. -/
def edges : List (Source × Interface) :=
  ((List.range w.globalInputs).flatMap fun g =>
    (w.globalChildren g).map fun child => (.global g, .input child.1 child.2)) ++
  (List.range w.runtimes).flatMap fun i => (w.targets i).map fun t => (.module i t.1, t.2)

theorem global_mem_edges {g : Nat} {t : Interface} :
    (Source.global g, t) ∈ w.edges ↔
      g < w.globalInputs ∧ ∃ child ∈ w.globalChildren g, t = .input child.1 child.2 := by
  simp only [edges, List.mem_append, List.mem_flatMap, List.mem_range, List.mem_map,
    Prod.mk.injEq, reduceCtorEq, false_and, and_false, exists_false, or_false, Source.global.injEq]
  constructor
  · rintro ⟨g', inside, child, member, rfl, rfl⟩
    exact ⟨inside, child, member, rfl⟩
  · rintro ⟨inside, child, member, rfl⟩
    exact ⟨g, inside, child, member, rfl, rfl⟩

theorem module_mem_edges {i o : Nat} {t : Interface} :
    (Source.module i o, t) ∈ w.edges ↔ i < w.runtimes ∧ (o, t) ∈ w.targets i := by
  simp only [edges, List.mem_append, List.mem_flatMap, List.mem_range, List.mem_map,
    Prod.mk.injEq, reduceCtorEq, false_and, and_false, exists_false, false_or, Source.module.injEq]
  constructor
  · rintro ⟨i', inside, target, member, ⟨rfl, rfl⟩, rfl⟩
    exact ⟨inside, member⟩
  · rintro ⟨inside, member⟩
    exact ⟨i, inside, (o, t), member, ⟨rfl, rfl⟩, rfl⟩

end Connections

/-- Outputs feed later modules or outputs of the pipeline, and nothing is fed twice. -/
structure Wiring extends Connections where
  nonempty : 0 < runtimes
  inside : ∀ g i j, (Source.global g, Interface.input i j) ∈ toConnections.edges → i < runtimes
  forward : ∀ i o j k, (Source.module i o, Interface.input j k) ∈ toConnections.edges →
    i < j ∧ j < runtimes
  fedOnce : (toConnections.edges.map Prod.snd).Nodup

namespace Wiring

variable (w : Wiring)

theorem source_unique {s s' : Source} {t : Interface} (first : (s, t) ∈ w.edges)
    (second : (s', t) ∈ w.edges) : s = s' := by
  have same := List.inj_on_of_nodup_map w.fedOnce first second rfl
  exact congrArg Prod.fst same

theorem targets_nodup {i : Nat} (inside : i < w.runtimes) :
    ((w.targets i).map Prod.snd).Nodup := by
  have all := w.fedOnce
  rw [Connections.edges, List.map_append] at all
  have modules := (List.nodup_append.mp all).2.1
  rw [List.map_flatMap] at modules
  have one := (List.nodup_flatMap.mp modules).1 i (List.mem_range.mpr inside)
  rwa [List.map_map] at one

theorem globalChildren_nodup {g : Nat} (inside : g < w.globalInputs) :
    (w.globalChildren g).Nodup := by
  have all := w.fedOnce
  rw [Connections.edges, List.map_append] at all
  have globals := (List.nodup_append.mp all).1
  rw [List.map_flatMap] at globals
  have one := (List.nodup_flatMap.mp globals).1 g (List.mem_range.mpr inside)
  rw [List.map_map] at one
  exact List.Nodup.of_map _ one

/-- The pairs that a queue and a notification are created for; the inputs of the first module are
set directly. -/
def queued (e : Source × Interface) : Bool :=
  match e with
  | (.global _, t) => t.owner ≠ some 0
  | (.module _ _, _) => true

def feeds (owner : Option Nat) : List (Source × Interface) :=
  w.edges.filter fun e => queued e && e.2.owner = owner

/-- The `input_index` that `CreateParentsNotify` is called with.  `GlobalRuntime::InitializePipeline`
passes the index of the input of the pipeline, not that of the module. -/
def notifyKey (e : Source × Interface) : Nat :=
  match e with
  | (.global g, _) => g
  | (.module _ _, t) => t.index

def parentsNotify (owner : Option Nat) : List Nat :=
  (w.feeds owner).map notifyKey

def inputQueue (owner : Option Nat) : List Nat :=
  (w.feeds owner).map fun e => e.2.index

/-- No notification is created twice, so that `PipelineInit` returns. -/
def Initializes : Prop :=
  ∀ owner, (w.parentsNotify owner).Nodup

/-- The notifications of every module have the indices of its queues. -/
def Keyed : Prop :=
  ∀ owner, (w.parentsNotify owner).Perm (w.inputQueue owner)

theorem mem_feeds {s : Source} {t : Interface} {owner : Option Nat} :
    (s, t) ∈ w.feeds owner ↔ (s, t) ∈ w.edges ∧ queued (s, t) = true ∧ t.owner = owner := by
  rw [feeds, List.mem_filter, Bool.and_eq_true, decide_eq_true_iff]

theorem mem_inputQueue {j : Nat} {owner : Option Nat} : j ∈ w.inputQueue owner ↔
    ∃ s t, (s, t) ∈ w.edges ∧ queued (s, t) = true ∧ t.owner = owner ∧ t.index = j := by
  rw [inputQueue, List.mem_map]
  constructor
  · rintro ⟨⟨s, t⟩, member, rfl⟩
    obtain ⟨isEdge, isQueued, isOwner⟩ := w.mem_feeds.mp member
    exact ⟨s, t, isEdge, isQueued, isOwner, rfl⟩
  · rintro ⟨s, t, isEdge, isQueued, isOwner, rfl⟩
    exact ⟨(s, t), w.mem_feeds.mpr ⟨isEdge, isQueued, isOwner⟩, rfl⟩

theorem inputQueue_nodup (owner : Option Nat) : (w.inputQueue owner).Nodup := by
  refine List.Nodup.map_on ?_ ((List.Nodup.of_map _ w.fedOnce).filter _)
  rintro ⟨s, t⟩ first ⟨s', t'⟩ second sameIndex
  obtain ⟨isEdge, -, isOwner⟩ := w.mem_feeds.mp first
  obtain ⟨isEdge', -, isOwner'⟩ := w.mem_feeds.mp second
  have same : t = t' := Interface.eq_of_owner (isOwner.trans isOwner'.symm) sameIndex
  subst same
  rw [w.source_unique isEdge isEdge']

theorem inputQueue_subset {owner : Option Nat} (initializes : w.Initializes)
    (subset : w.parentsNotify owner ⊆ w.inputQueue owner) :
    w.inputQueue owner ⊆ w.parentsNotify owner := by
  have lengths : (w.inputQueue owner).length = (w.parentsNotify owner).length := by
    rw [inputQueue, parentsNotify, List.length_map, List.length_map]
  have perm := ((initializes owner).subperm subset).perm_of_length_le lengths.le
  exact perm.symm.subset

theorem feeds_first : w.feeds (some 0) = [] := by
  rw [List.eq_nil_iff_forall_not_mem]
  rintro ⟨s, t⟩ member
  obtain ⟨isEdge, isQueued, isOwner⟩ := w.mem_feeds.mp member
  cases s with
  | global g =>
    simp only [queued, isOwner, ne_eq, not_true_eq_false, decide_false] at isQueued
    cases isQueued
  | module i o =>
    cases t with
    | input j k =>
      cases isOwner
      exact absurd (w.forward i o 0 k isEdge).1 (Nat.not_lt_zero i)
    | output g => cases isOwner

variable {α : Type}

def deliver (env : Interface → α) (data : List (Interface × α)) : Interface → α :=
  data.foldl (fun env entry => Function.update env entry.1 entry.2) env

theorem deliver_of_notMem {env : Interface → α} {data : List (Interface × α)} {t : Interface}
    (other : t ∉ data.map Prod.fst) : deliver env data t = env t := by
  induction data generalizing env with
  | nil => rfl
  | cons entry rest ih =>
    rw [List.map_cons, List.mem_cons, not_or] at other
    refine (ih other.2).trans ?_
    exact Function.update_of_ne other.1 _ _

theorem deliver_of_mem {env : Interface → α} {data : List (Interface × α)} {t : Interface} {v : α}
    (distinct : (data.map Prod.fst).Nodup) (member : (t, v) ∈ data) : deliver env data t = v := by
  induction data generalizing env with
  | nil => cases member
  | cons entry rest ih =>
    rw [List.map_cons, List.nodup_cons] at distinct
    rcases List.mem_cons.mp member with rfl | later
    · refine (deliver_of_notMem distinct.1).trans ?_
      exact Function.update_self _ _ _
    · exact ih distinct.2 later

variable (modules : Nat → (Nat → α) → Nat → α)

def setInputs (base : Interface → α) (data : Nat → α) : Interface → α :=
  deliver base ((List.range w.globalInputs).flatMap fun g =>
    (w.globalChildren g).map fun child => (.input child.1 child.2, data g))

def runModule (env : Interface → α) (i : Nat) : Interface → α :=
  deliver env ((w.targets i).map fun t => (t.2, modules i (fun j => env (.input i j)) t.1))

def runModules (base : Interface → α) (data : Nat → α) (count : Nat) : Interface → α :=
  (List.range count).foldl (w.runModule modules) (w.setInputs base data)

/-- All modules run in order on one set of inputs. -/
def sequential (base : Interface → α) (data : Nat → α) : Interface → α :=
  w.runModules modules base data w.runtimes

variable {modules} {base : Interface → α} {data : Nat → α} {count : Nat} {t : Interface}

theorem setInputs_global {g : Nat} (edge : (Source.global g, t) ∈ w.edges) :
    w.setInputs base data t = data g := by
  have all := w.fedOnce
  rw [Connections.edges, List.map_append] at all
  apply deliver_of_mem
  · have globals := (List.nodup_append.mp all).1
    rw [List.map_flatMap] at globals ⊢
    simpa only [List.map_map, Function.comp_def] using globals
  · obtain ⟨inside, child, member, rfl⟩ := w.global_mem_edges.mp edge
    exact List.mem_flatMap.mpr ⟨g, List.mem_range.mpr inside, List.mem_map.mpr ⟨child, member, rfl⟩⟩

theorem setInputs_other (other : ∀ g, (Source.global g, t) ∉ w.edges) :
    w.setInputs base data t = base t := by
  apply deliver_of_notMem
  intro member
  obtain ⟨⟨t', v⟩, isEntry, rfl⟩ := List.mem_map.mp member
  obtain ⟨g, inside, isChild⟩ := List.mem_flatMap.mp isEntry
  obtain ⟨child, isMember, same⟩ := List.mem_map.mp isChild
  cases same
  exact other g (w.global_mem_edges.mpr ⟨List.mem_range.mp inside, child, isMember, rfl⟩)

theorem runModules_succ : w.runModules modules base data (count + 1) =
    w.runModule modules (w.runModules modules base data count) count := by
  rw [runModules, List.range_succ, List.foldl_append]
  rfl

theorem runModules_other (inside : count < w.runtimes)
    (other : ∀ o, (Source.module count o, t) ∉ w.edges) :
    w.runModules modules base data (count + 1) t = w.runModules modules base data count t := by
  rw [runModules_succ]
  apply deliver_of_notMem
  intro member
  obtain ⟨⟨t', v⟩, isEntry, rfl⟩ := List.mem_map.mp member
  obtain ⟨⟨o, t⟩, isTarget, same⟩ := List.mem_map.mp isEntry
  cases same
  exact other o (w.module_mem_edges.mpr ⟨inside, isTarget⟩)

theorem runModules_target {o : Nat} (edge : (Source.module count o, t) ∈ w.edges) :
    w.runModules modules base data (count + 1) t =
      modules count (fun j => w.runModules modules base data count (.input count j)) o := by
  obtain ⟨inside, isTarget⟩ := w.module_mem_edges.mp edge
  rw [runModules_succ]
  apply deliver_of_mem
  · rw [List.map_map]
    exact w.targets_nodup inside
  · exact List.mem_map.mpr ⟨(o, t), isTarget, rfl⟩

theorem runModules_input {i j : Nat} (small : count ≤ w.runtimes) (ran : i ≤ count) :
    w.runModules modules base data count (.input i j) =
      w.runModules modules base data i (.input i j) := by
  induction count, ran using Nat.le_induction with
  | base => rfl
  | succ count ran ih =>
    rw [w.runModules_other (by omega), ih (by omega)]
    intro o edge
    have later := (w.forward count o i j edge).1
    omega

theorem runModules_spec (small : count ≤ w.runtimes) :
    (∀ s, (s, t) ∈ w.edges →
      (∀ g, s = .global g → w.runModules modules base data count t = data g) ∧
      (∀ i o, s = .module i o → i < count → w.runModules modules base data count t =
        modules i (fun j => w.runModules modules base data i (.input i j)) o)) ∧
    ((∀ s, (s, t) ∉ w.edges) → w.runModules modules base data count t = base t) := by
  induction count with
  | zero =>
    refine ⟨fun s edge => ⟨?_, fun i o _ below => absurd below (Nat.not_lt_zero i)⟩,
      fun unfed => w.setInputs_other fun g => unfed (.global g)⟩
    rintro g rfl
    exact w.setInputs_global edge
  | succ count ih =>
    obtain ⟨fed, unfed⟩ := ih (by omega)
    refine ⟨fun s edge => ⟨?_, ?_⟩, fun none_feeds => ?_⟩
    · rintro g rfl
      rw [w.runModules_other (by omega), (fed _ edge).1 g rfl]
      intro o other
      cases w.source_unique edge other
    · rintro i o rfl below
      rcases Nat.lt_succ_iff_lt_or_eq.mp below with earlier | rfl
      · rw [w.runModules_other (by omega), (fed _ edge).2 i o rfl earlier]
        intro o' other
        cases w.source_unique edge other
        exact lt_irrefl _ earlier
      · exact w.runModules_target edge
    · rw [w.runModules_other (by omega) fun o => none_feeds (.module count o), unfed none_feeds]

theorem sequential_global {g : Nat} (edge : (Source.global g, t) ∈ w.edges) :
    w.sequential modules base data t = data g :=
  ((w.runModules_spec le_rfl).1 _ edge).1 g rfl

theorem sequential_module {i o : Nat} (edge : (Source.module i o, t) ∈ w.edges) :
    w.sequential modules base data t =
      modules i (fun j => w.sequential modules base data (.input i j)) o := by
  have inside := (w.module_mem_edges.mp edge).1
  refine (((w.runModules_spec le_rfl).1 _ edge).2 i o rfl inside).trans ?_
  have inputs : (fun j => w.runModules modules base data i (.input i j)) =
      fun j => w.sequential modules base data (.input i j) := by
    funext j
    exact (w.runModules_input le_rfl inside.le).symm
  rw [inputs]

theorem sequential_unfed (unfed : ∀ s, (s, t) ∉ w.edges) :
    w.sequential modules base data t = base t :=
  (w.runModules_spec le_rfl).2 unfed

end Wiring

end Tvm.Pipeline
