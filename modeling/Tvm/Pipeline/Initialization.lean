import Mathlib
import Tvm.Lib.AssocList
import Tvm.Lib.Extends
import Tvm.Pipeline.Wiring

/-!
# Loading a pipeline configuration and initializing its runtimes

`ConfigBindings`, `ConfigRuntime`, `ConfigPipelineExecution` and `InputConnectionConfig` of
`pipeline_struct.h` with `InitializePipeline` of the global runtime and of the backend runtimes.
`none` is an exception.
-/

namespace Tvm.Pipeline

open Lib

variable {ν : Type} [DecidableEq ν]

/-- An entry of `dependencies`: an input of a module, or an output of the pipeline. -/
inductive Dependency (ν : Type) where
  | module (modIdx : Nat) (inputName : ν)
  | global (globalOutputIndex : Nat)
  deriving DecidableEq

structure InputConnection (ν : Type) where
  globalInterfaceName : ν
  modIdx : Nat
  moduleInterfaceName : ν

/-- A configuration, and the modules that it is for; `get_input_index` has no value for a name that
a module does not know. -/
structure Configuration (ν : Type) where
  runtimes : Nat
  getInputIndex : Nat → ν → Option Nat
  /-- The modules with their outputs and the dependencies of these. -/
  pipeline : List (Nat × List (Nat × List (Dependency ν)))
  inputConnection : List (InputConnection ν)

/-- `map[key] = value`. -/
def assign {κ α : Type} [DecidableEq κ] (map : List (κ × α)) (entry : κ × α) : List (κ × α) :=
  entry :: map.filter fun other => other.1 ≠ entry.1

def assignAll {κ α : Type} [DecidableEq κ] (entries : List (κ × α)) : List (κ × α) :=
  entries.foldl assign []

structure ConfigBindings (ν : Type) where
  bindings : List (Nat × ν)
  globalOutputIndex : Option Nat

/-- An entry is read; there should be only one global binding. -/
def ConfigBindings.loadOne (binding : ConfigBindings ν) : Dependency ν → Option (ConfigBindings ν)
  | .module modIdx inputName =>
    some { binding with bindings := assign binding.bindings (modIdx, inputName) }
  | .global globalOutputIndex =>
    if binding.globalOutputIndex = none then
      some { binding with globalOutputIndex := some globalOutputIndex }
    else none

def ConfigBindings.load (dependencies : List (Dependency ν)) : Option (ConfigBindings ν) :=
  dependencies.foldlM ConfigBindings.loadOne ⟨[], none⟩

def ConfigBindings.visitOutput (binding : ConfigBindings ν) : List (Dependency ν) :=
  (binding.bindings.map fun output => .module output.1 output.2) ++
    binding.globalOutputIndex.toList.map .global

abbrev ConfigRuntime (ν : Type) := List (Nat × ConfigBindings ν)

def ConfigRuntime.load (outputs : List (Nat × List (Dependency ν))) : Option (ConfigRuntime ν) := do
  let loaded ← outputs.mapM fun output => do
    let binding ← ConfigBindings.load output.2
    some (output.1, binding)
  some (assignAll loaded)

def ConfigRuntime.visitOutputConfig (config : ConfigRuntime ν) : List (Nat × Dependency ν) :=
  config.flatMap fun output => output.2.visitOutput.map fun dependency => (output.1, dependency)

abbrev ConfigPipelineExecution (ν : Type) := List (Nat × ConfigRuntime ν)

def ConfigPipelineExecution.load (pipeline : List (Nat × List (Nat × List (Dependency ν)))) :
    Option (ConfigPipelineExecution ν) := do
  let loaded ← pipeline.mapM fun entry => do
    let output ← ConfigRuntime.load entry.2
    if output.isEmpty then none else some (entry.1, output)
  some (assignAll loaded)

namespace Configuration

variable (config : Configuration ν)

/-- `input_name_index_map`, which numbers the entries. -/
def inputNameIndexMap : List (ν × Nat) :=
  assignAll (config.inputConnection.zipIdx.map fun entry => (entry.1.globalInterfaceName, entry.2))

/-- `GetInputIndex` of the inputs of the pipeline. -/
def globalInputIndex (name : ν) : Option Nat :=
  config.inputNameIndexMap.lookup name

def inputRuntimeMap (runtimeIdx : Nat) : List (InputConnection ν) :=
  config.inputConnection.filter fun entry => entry.modIdx = runtimeIdx

end Configuration

structure ForwardQueue where
  forwardInterface : Source
  queueId : Interface
  deriving DecidableEq

/-- The maps of all runtimes.  `none` is the global runtime, and the input of a runtime with its
index is an interface; the queue that `forward_queue_` has under an id is the one created for it. -/
structure RuntimeMaps where
  children : Source → List Interface
  parentsNotify : Option Nat → List Nat
  inputQueue : Interface → Option ForwardQueue
  forwardQueue : Source → List Interface

namespace RuntimeMaps

def empty : RuntimeMaps where
  children _ := []
  parentsNotify _ := []
  inputQueue _ := none
  forwardQueue _ := []

/-- `children_[index].push_back`. -/
def addChild (maps : RuntimeMaps) (source : Source) (child : Interface) : RuntimeMaps :=
  { maps with children := Function.update maps.children source (maps.children source ++ [child]) }

def createParentsNotify (maps : RuntimeMaps) (owner : Option Nat) (inputIndex : Nat) :
    Option RuntimeMaps :=
  if inputIndex ∈ maps.parentsNotify owner then none
  else some { maps with
    parentsNotify := Function.update maps.parentsNotify owner (inputIndex :: maps.parentsNotify owner) }

def appendInputQueue (maps : RuntimeMaps) (child : Interface) (queue : ForwardQueue) : RuntimeMaps :=
  { maps with inputQueue := Function.update maps.inputQueue child (some queue) }

def createForwardingQueue (maps : RuntimeMaps) (source : Source) (child : Interface) :
    Option RuntimeMaps :=
  if child ∈ maps.forwardQueue source then none
  else some (({ maps with
    forwardQueue := Function.update maps.forwardQueue source (child :: maps.forwardQueue source) } :
      RuntimeMaps).appendInputQueue child ⟨source, child⟩)

end RuntimeMaps

namespace Configuration

variable (config : Configuration ν)

/-- `GlobalRuntime::InitializePipeline` for one input of a runtime.  The notification gets the index
of the input of the pipeline. -/
def initializeInput (runtimeIdx : Nat) (maps : RuntimeMaps) (entry : InputConnection ν) :
    Option RuntimeMaps := do
  let inputIndex ← config.globalInputIndex entry.globalInterfaceName
  let childInputIndex ← config.getInputIndex runtimeIdx entry.moduleInterfaceName
  let maps := maps.addChild (.global inputIndex) (.input runtimeIdx childInputIndex)
  if runtimeIdx ≠ 0 then do
    let maps ← maps.createParentsNotify (some runtimeIdx) inputIndex
    maps.createForwardingQueue (.global inputIndex) (.input runtimeIdx childInputIndex)
  else some maps

def initializeGlobal (maps : RuntimeMaps) : Option RuntimeMaps :=
  (List.range config.runtimes).foldlM (fun maps runtimeIdx =>
    (config.inputRuntimeMap runtimeIdx).foldlM (config.initializeInput runtimeIdx) maps) maps

def child : Dependency ν → Option Interface
  | .global globalOutputIndex => some (.output globalOutputIndex)
  | .module childIdx childInputName =>
    if childIdx < config.runtimes then
      (config.getInputIndex childIdx childInputName).map (.input childIdx)
    else none

/-- `BackendRuntime::InitializePipeline` for one output. -/
def initializeOutput (runtimeIdx : Nat) (maps : RuntimeMaps) (output : Nat × Dependency ν) :
    Option RuntimeMaps := do
  let child ← config.child output.2
  let maps := maps.addChild (.module runtimeIdx output.1) child
  let maps ← maps.createParentsNotify child.owner child.index
  maps.createForwardingQueue (.module runtimeIdx output.1) child

def initializeBackend (loaded : ConfigPipelineExecution ν) (maps : RuntimeMaps) (runtimeIdx : Nat) :
    Option RuntimeMaps := do
  let runtime ← loaded.lookup runtimeIdx
  runtime.visitOutputConfig.foldlM (config.initializeOutput runtimeIdx) maps

/-- The configuration is loaded, and the global runtime and all backend runtimes initialized. -/
def initializePipeline : Option RuntimeMaps := do
  let loaded ← ConfigPipelineExecution.load config.pipeline
  let maps ← config.initializeGlobal .empty
  (List.range config.runtimes).foldlM (config.initializeBackend loaded) maps

end Configuration

def Dependency.binding : Dependency ν → Option (Nat × ν)
  | .module modIdx inputName => some (modIdx, inputName)
  | .global _ => none

def Dependency.globalOutput : Dependency ν → Option Nat
  | .module _ _ => none
  | .global globalOutputIndex => some globalOutputIndex

namespace Configuration

variable (config : Configuration ν)

def dependencyEdge (runtimeIdx outputIdx : Nat) (dependency : Dependency ν) :
    Option (Source × Interface) :=
  (config.child dependency).map fun child => (.module runtimeIdx outputIdx, child)

def dependencyEdges : List (Source × Interface) :=
  config.pipeline.flatMap fun entry => entry.2.flatMap fun output =>
    output.2.filterMap (config.dependencyEdge entry.1 output.1)

def inputEdge (runtimeIdx : Nat) (entry : InputConnection ν) : Option (Source × Interface) := do
  let inputIndex ← config.globalInputIndex entry.globalInterfaceName
  let childInputIndex ← config.getInputIndex runtimeIdx entry.moduleInterfaceName
  some (.global inputIndex, .input runtimeIdx childInputIndex)

def inputEdges : List (Source × Interface) :=
  (List.range config.runtimes).flatMap fun runtimeIdx =>
    (config.inputRuntimeMap runtimeIdx).filterMap (config.inputEdge runtimeIdx)

def fedInputs : List Interface :=
  ((config.inputEdges ++ config.dependencyEdges).map Prod.snd).filter fun child => child.owner.isSome

/-- The modules are listed once with their outputs, which are listed once; what is connected is an
input of a module; and no input of a module is fed twice. -/
structure WellFormed : Prop where
  modules : (config.pipeline.map Prod.fst).Perm (List.range config.runtimes)
  outputs : ∀ entry ∈ config.pipeline, entry.2 ≠ [] ∧ (entry.2.map Prod.fst).Nodup
  child : ∀ entry ∈ config.pipeline, ∀ output ∈ entry.2, ∀ dependency ∈ output.2,
    (config.child dependency).isSome
  connection : ∀ entry ∈ config.inputConnection, entry.modIdx < config.runtimes ∧
    (config.getInputIndex entry.modIdx entry.moduleInterfaceName).isSome
  fedOnce : config.fedInputs.Nodup

/-- Every dependency and every input of a module but the first has its queue, registered at the
child, and the modules but the first have notifications for the inputs with a queue. -/
structure Consistent (maps : RuntimeMaps) : Prop where
  queue : ∀ e ∈ config.inputEdges ++ config.dependencyEdges, Wiring.queued e = true →
    e.2 ∈ maps.forwardQueue e.1 ∧ maps.inputQueue e.2 = some ⟨e.1, e.2⟩
  keys : ∀ i, i ≠ 0 → i < config.runtimes →
    ∀ j, j ∈ maps.parentsNotify (some i) ↔ (maps.inputQueue (.input i j)).isSome = true

/-- The indices of the inputs of the pipeline that feed a module. -/
def globalIndices (i : Nat) : List Nat :=
  (config.inputRuntimeMap i).filterMap fun entry => config.globalInputIndex entry.globalInterfaceName

/-- The indices of the inputs of the module that they feed. -/
def globallyFed (i : Nat) : List Nat :=
  (config.inputRuntimeMap i).filterMap fun entry => config.getInputIndex i entry.moduleInterfaceName

/-- An output has at most one dependency on each module and at most one output of the pipeline, which
it has alone; and the inputs of the pipeline that feed a module but the first have the indices of
the inputs that they feed. -/
structure Indexed : Prop where
  oneEach : ∀ entry ∈ config.pipeline, ∀ output ∈ entry.2,
    ((output.2.filterMap Dependency.binding).map Prod.fst).Nodup
  oneGlobal : ∀ entry ∈ config.pipeline, ∀ output ∈ entry.2,
    (output.2.filterMap Dependency.globalOutput).length ≤ 1
  globalOnce : (config.pipeline.flatMap fun entry => entry.2.flatMap fun output =>
    output.2.filterMap Dependency.globalOutput).Nodup
  indices : ∀ i, i ≠ 0 → i < config.runtimes → (config.globalIndices i).Perm (config.globallyFed i)

end Configuration

section Load

variable {κ α : Type} [DecidableEq κ]

theorem assign_of_notMem {map : List (κ × α)} {entry : κ × α} (other : entry.1 ∉ map.map Prod.fst) :
    assign map entry = entry :: map := by
  rw [assign, List.filter_eq_self.mpr]
  intro entry' member
  rw [decide_eq_true_iff]
  rintro same
  exact other (same ▸ List.mem_map_of_mem member)

theorem foldl_assign {entries map : List (κ × α)} (distinct : (entries.map Prod.fst).Nodup)
    (apart : ∀ entry ∈ entries, entry.1 ∉ map.map Prod.fst) :
    entries.foldl assign map = entries.reverse ++ map := by
  induction entries generalizing map with
  | nil => rfl
  | cons entry entries ih =>
    obtain ⟨first, others⟩ := List.nodup_cons.mp distinct
    rw [List.foldl_cons, assign_of_notMem (apart entry List.mem_cons_self), ih others,
      List.reverse_cons, List.append_assoc, List.singleton_append]
    intro entry' member inMap
    rcases List.mem_cons.mp inMap with same | inMap
    · exact first (same ▸ List.mem_map_of_mem member)
    · exact apart entry' (List.mem_cons_of_mem _ member) inMap

theorem assignAll_of_nodup {entries : List (κ × α)} (distinct : (entries.map Prod.fst).Nodup) :
    assignAll entries = entries.reverse := by
  rw [assignAll, foldl_assign distinct fun _ _ => List.not_mem_nil, List.append_nil]

theorem foldl_assign_spec (entries map : List (κ × α)) (distinct : (map.map Prod.fst).Nodup) :
    ((entries.foldl assign map).map Prod.fst).Nodup ∧
      entries.foldl assign map ⊆ entries ++ map := by
  induction entries generalizing map with
  | nil => exact ⟨distinct, List.Subset.refl map⟩
  | cons entry entries ih =>
    have step : ((assign map entry).map Prod.fst).Nodup := by
      rw [assign, List.map_cons]
      refine List.nodup_cons.mpr ⟨fun member => ?_, distinct.sublist (List.filter_sublist.map _)⟩
      obtain ⟨entry', member, same⟩ := List.mem_map.mp member
      exact absurd same (of_decide_eq_true (List.mem_filter.mp member).2)
    obtain ⟨nodup, subset⟩ := ih (assign map entry) step
    refine ⟨nodup, fun entry' member => ?_⟩
    rcases List.mem_append.mp (subset member) with member | member
    · exact List.mem_append_left _ (List.mem_cons_of_mem _ member)
    · rcases List.mem_cons.mp member with rfl | member
      · exact List.mem_append_left _ List.mem_cons_self
      · exact List.mem_append_right _ (List.mem_filter.mp member).1

def bindingsOf (dependencies : List (Dependency ν)) : ConfigBindings ν where
  bindings := assignAll (dependencies.filterMap Dependency.binding)
  globalOutputIndex := (dependencies.filterMap Dependency.globalOutput).head?

omit [DecidableEq ν] in
theorem loadBindings_eq (dependencies : List (Dependency ν)) :
    ConfigBindings.load dependencies =
      if (dependencies.filterMap Dependency.globalOutput).length ≤ 1 then some (bindingsOf dependencies)
      else none := by
  have general : ∀ map global, dependencies.foldlM ConfigBindings.loadOne ⟨map, global⟩ =
      if (global.toList ++ dependencies.filterMap Dependency.globalOutput).length ≤ 1 then
        some ⟨(dependencies.filterMap Dependency.binding).foldl assign map,
          (global.toList ++ dependencies.filterMap Dependency.globalOutput).head?⟩
      else none := by
    induction dependencies with
    | nil =>
      intro map global
      cases global with
      | none => rfl
      | some global => rfl
    | cons dependency dependencies ih =>
      intro map global
      rw [List.foldlM_cons]
      cases dependency with
      | module modIdx inputName => exact ih _ global
      | global globalOutputIndex =>
        cases global with
        | none => exact ih map (some globalOutputIndex)
        | some global =>
          change none = _
          rw [if_neg]
          intro few
          simp [Dependency.globalOutput] at few
  exact general [] none

omit [DecidableEq ν] in
theorem visitOutput_bindingsOf {dependencies : List (Dependency ν)}
    (oneEach : ((dependencies.filterMap Dependency.binding).map Prod.fst).Nodup)
    (oneGlobal : (dependencies.filterMap Dependency.globalOutput).length ≤ 1) :
    (bindingsOf dependencies).visitOutput.Perm dependencies := by
  have globals : (bindingsOf dependencies).globalOutputIndex.toList =
      dependencies.filterMap Dependency.globalOutput := by
    rw [bindingsOf]
    match dependencies.filterMap Dependency.globalOutput, oneGlobal with
    | [], _ => rfl
    | [global], _ => rfl
  rw [ConfigBindings.visitOutput, globals, bindingsOf, assignAll_of_nodup oneEach]
  refine (((List.reverse_perm _).map _).append_right _).trans ?_
  clear oneEach oneGlobal globals
  induction dependencies with
  | nil => exact .nil
  | cons dependency dependencies ih =>
    cases dependency with
    | module modIdx inputName => exact ih.cons _
    | global globalOutputIndex => exact List.perm_middle.trans (ih.cons _)

omit [DecidableEq ν] in
theorem mapM_option_eq_some {β : Type} {f : α → Option β} {g : α → β} {p : α → Prop} {xs : List α}
    {ys : List β} (each : ∀ x ∈ xs, ∀ y, f x = some y ↔ p x ∧ y = g x) :
    xs.mapM f = some ys ↔ (∀ x ∈ xs, p x) ∧ ys = xs.map g := by
  rw [mapM_eq_some_iff]
  induction xs generalizing ys with
  | nil =>
    rw [List.forall₂_nil_left_iff]
    exact ⟨fun same => ⟨fun _ member => absurd member List.not_mem_nil, same⟩, And.right⟩
  | cons x xs ih =>
    obtain ⟨first, others⟩ := List.forall_mem_cons.mp each
    rw [List.forall₂_cons_left_iff, List.forall_mem_cons, List.map_cons]
    constructor
    · rintro ⟨y, rest, value, values, rfl⟩
      obtain ⟨holds, rfl⟩ := (first y).mp value
      obtain ⟨all, rfl⟩ := (ih others).mp values
      exact ⟨⟨holds, all⟩, rfl⟩
    · rintro ⟨⟨holds, all⟩, rfl⟩
      have values := (ih others).mpr ⟨all, rfl⟩
      exact ⟨g x, xs.map g, (first _).mpr ⟨holds, rfl⟩, values, rfl⟩

omit [DecidableEq ν] in
theorem loadRuntime_eq_some_iff {outputs : List (Nat × List (Dependency ν))} {loaded : ConfigRuntime ν}
    (distinct : (outputs.map Prod.fst).Nodup) :
    ConfigRuntime.load outputs = some loaded ↔
      (∀ output ∈ outputs, (output.2.filterMap Dependency.globalOutput).length ≤ 1) ∧
        loaded = (outputs.map fun output => (output.1, bindingsOf output.2)).reverse := by
  have each : ∀ output ∈ outputs, ∀ binding, ((ConfigBindings.load output.2).bind fun binding =>
      some (output.1, binding)) = some binding ↔
        (output.2.filterMap Dependency.globalOutput).length ≤ 1 ∧
          binding = (output.1, bindingsOf output.2) := by
    intro output _ binding
    rw [loadBindings_eq]
    split
    · rename_i few
      rw [Option.bind_some, Option.some_inj, eq_comm]
      exact (and_iff_right few).symm
    · rename_i many
      exact ⟨(fun none => by cases none), fun both => absurd both.1 many⟩
  have keys : ((outputs.map fun output => (output.1, bindingsOf output.2)).map Prod.fst).Nodup := by
    rw [List.map_map]
    exact distinct
  constructor
  · intro run
    obtain ⟨entries, run, same⟩ := Option.bind_eq_some_iff.mp run
    obtain ⟨few, rfl⟩ := (mapM_option_eq_some each).mp run
    rw [assignAll_of_nodup keys] at same
    exact ⟨few, (Option.some.inj same).symm⟩
  · rintro ⟨few, rfl⟩
    exact Option.bind_eq_some_iff.mpr
      ⟨_, (mapM_option_eq_some each).mpr ⟨few, rfl⟩, by rw [assignAll_of_nodup keys]⟩

end Load

namespace Configuration

section Loaded

variable {config : Configuration ν}

def loaded (config : Configuration ν) : ConfigPipelineExecution ν :=
  (config.pipeline.map fun entry =>
    (entry.1, (entry.2.map fun output => (output.1, bindingsOf output.2)).reverse)).reverse

theorem load_eq_some_iff (wellFormed : config.WellFormed) {loaded : ConfigPipelineExecution ν} :
    ConfigPipelineExecution.load config.pipeline = some loaded ↔
      (∀ entry ∈ config.pipeline, ∀ output ∈ entry.2,
        (output.2.filterMap Dependency.globalOutput).length ≤ 1) ∧ loaded = config.loaded := by
  have each : ∀ entry ∈ config.pipeline, ∀ runtime, ((ConfigRuntime.load entry.2).bind fun output =>
      if output.isEmpty then none else some (entry.1, output)) = some runtime ↔
        (∀ output ∈ entry.2, (output.2.filterMap Dependency.globalOutput).length ≤ 1) ∧
          runtime =
            (entry.1, (entry.2.map fun output => (output.1, bindingsOf output.2)).reverse) := by
    intro entry member runtime
    obtain ⟨listed, distinct⟩ := wellFormed.outputs entry member
    have there : ¬(entry.2.map fun output => (output.1, bindingsOf output.2)).reverse.isEmpty := by
      rw [List.isEmpty_iff, List.reverse_eq_nil_iff, List.map_eq_nil_iff]
      exact listed
    rw [Option.bind_eq_some_iff]
    constructor
    · rintro ⟨output, run, same⟩
      obtain ⟨few, rfl⟩ := (loadRuntime_eq_some_iff distinct).mp run
      rw [if_neg there] at same
      exact ⟨few, (Option.some.inj same).symm⟩
    · rintro ⟨few, rfl⟩
      exact ⟨_, (loadRuntime_eq_some_iff distinct).mpr ⟨few, rfl⟩, if_neg there⟩
  have keys : ((config.pipeline.map fun entry => (entry.1,
      (entry.2.map fun output => (output.1, bindingsOf output.2)).reverse)).map Prod.fst).Nodup := by
    rw [List.map_map]
    exact wellFormed.modules.nodup_iff.mpr List.nodup_range
  constructor
  · intro run
    obtain ⟨entries, run, same⟩ := Option.bind_eq_some_iff.mp run
    obtain ⟨few, rfl⟩ := (mapM_option_eq_some each).mp run
    rw [assignAll_of_nodup keys] at same
    exact ⟨few, (Option.some.inj same).symm⟩
  · rintro ⟨few, rfl⟩
    exact Option.bind_eq_some_iff.mpr
      ⟨_, (mapM_option_eq_some each).mpr ⟨few, rfl⟩, by rw [assignAll_of_nodup keys, loaded]⟩

end Loaded

end Configuration

namespace RuntimeMaps

def connect (maps : RuntimeMaps) (e : Source × Interface) : Option RuntimeMaps :=
  if Wiring.queued e then
    ((maps.addChild e.1 e.2).createParentsNotify e.2.owner (Wiring.notifyKey e)).bind fun maps =>
      maps.createForwardingQueue e.1 e.2
  else some (maps.addChild e.1 e.2)

def notifyKeys (edges : List (Source × Interface)) (owner : Option Nat) : List Nat :=
  (edges.filter fun e => Wiring.queued e && decide (e.2.owner = owner)).map Wiring.notifyKey

structure Connected (edges : List (Source × Interface)) (maps : RuntimeMaps) : Prop where
  notify : ∀ owner, (maps.parentsNotify owner).Perm (notifyKeys edges owner)
  distinct : ∀ owner, (maps.parentsNotify owner).Nodup
  forward : ∀ s t, t ∈ maps.forwardQueue s ↔ (s, t) ∈ edges ∧ Wiring.queued (s, t) = true
  queue : ∀ t, (maps.inputQueue t).isSome = true ↔ ∃ s, (s, t) ∈ edges ∧ Wiring.queued (s, t) = true
  own : ∀ t queue, maps.inputQueue t = some queue →
    queue.queueId = t ∧ (queue.forwardInterface, t) ∈ edges ∧
      Wiring.queued (queue.forwardInterface, t) = true

section

variable {edges : List (Source × Interface)} {maps maps' : RuntimeMaps} {e : Source × Interface}

theorem Connected.empty : Connected [] .empty where
  notify _ := .nil
  distinct _ := .nil
  forward _ _ :=
    ⟨fun member => absurd member List.not_mem_nil, fun both => absurd both.1 List.not_mem_nil⟩
  queue _ := ⟨(fun there => by cases there), (fun ⟨_, member, _⟩ => absurd member List.not_mem_nil)⟩
  own _ _ there := by cases there

theorem notifyKeys_append (edges edges' : List (Source × Interface)) (owner : Option Nat) :
    notifyKeys (edges ++ edges') owner = notifyKeys edges owner ++ notifyKeys edges' owner := by
  rw [notifyKeys, List.filter_append, List.map_append, notifyKeys, notifyKeys]

theorem notifyKeys_singleton_self (isQueued : Wiring.queued e = true) :
    notifyKeys [e] e.2.owner = [Wiring.notifyKey e] := by
  rw [notifyKeys, List.filter_singleton, isQueued, Bool.true_and, decide_eq_true rfl]
  rfl

theorem notifyKeys_singleton_other {owner : Option Nat}
    (other : ¬(Wiring.queued e = true ∧ e.2.owner = owner)) : notifyKeys [e] owner = [] := by
  have skipped : (Wiring.queued e && decide (e.2.owner = owner)) = false := by
    rw [Bool.eq_false_iff, Ne, Bool.and_eq_true, decide_eq_true_iff]
    exact other
  rw [notifyKeys, List.filter_singleton, skipped]
  rfl

def connected (maps : RuntimeMaps) (e : Source × Interface) : RuntimeMaps where
  children := (maps.addChild e.1 e.2).children
  parentsNotify := Function.update maps.parentsNotify e.2.owner
    (Wiring.notifyKey e :: maps.parentsNotify e.2.owner)
  inputQueue := Function.update maps.inputQueue e.2 (some ⟨e.1, e.2⟩)
  forwardQueue := Function.update maps.forwardQueue e.1 (e.2 :: maps.forwardQueue e.1)

theorem connect_eq_some_iff (isQueued : Wiring.queued e = true) : maps.connect e = some maps' ↔
    Wiring.notifyKey e ∉ maps.parentsNotify e.2.owner ∧ e.2 ∉ maps.forwardQueue e.1 ∧
      maps' = maps.connected e := by
  rw [connect, if_pos isQueued, createParentsNotify]
  by_cases known : Wiring.notifyKey e ∈ maps.parentsNotify e.2.owner
  · rw [if_pos (show Wiring.notifyKey e ∈ (maps.addChild e.1 e.2).parentsNotify e.2.owner from known)]
    exact ⟨(fun none => by cases none), fun all => absurd known all.1⟩
  · rw [if_neg (show Wiring.notifyKey e ∉ (maps.addChild e.1 e.2).parentsNotify e.2.owner from known),
      Option.bind_some, createForwardingQueue]
    split
    · rename_i there
      exact ⟨(fun none => by cases none), fun all => absurd there all.2.1⟩
    · rename_i new
      constructor
      · intro same
        exact ⟨known, new, (Option.some.inj same).symm⟩
      · rintro ⟨-, -, rfl⟩
        rfl

theorem connect_unqueued (notQueued : Wiring.queued e = false) :
    maps.connect e = some (maps.addChild e.1 e.2) := by
  rw [connect, notQueued]
  rfl

theorem Connected.step (connected : Connected edges maps) (run : maps.connect e = some maps') :
    Connected (edges ++ [e]) maps' := by
  obtain ⟨s, t⟩ := e
  cases isQueued : Wiring.queued (s, t) with
  | false =>
    rw [connect_unqueued isQueued] at run
    cases run
    have same : ∀ s' t', ((s', t') ∈ edges ++ [(s, t)] ∧ Wiring.queued (s', t') = true) ↔
        ((s', t') ∈ edges ∧ Wiring.queued (s', t') = true) := by
      intro s' t'
      rw [List.mem_append, List.mem_singleton]
      constructor
      · rintro ⟨member | same, queued⟩
        · exact ⟨member, queued⟩
        · rw [same, isQueued] at queued
          cases queued
      · exact fun both => ⟨.inl both.1, both.2⟩
    refine ⟨fun owner => ?_, connected.distinct, fun s' t' => ?_, fun t' => ?_,
      fun t' queue found => ?_⟩
    · rw [notifyKeys_append, notifyKeys_singleton_other fun both =>
        Bool.false_ne_true (isQueued.symm.trans both.1), List.append_nil]
      exact connected.notify owner
    · rw [same]
      exact connected.forward s' t'
    · simp only [same]
      exact connected.queue t'
    · rw [same]
      exact connected.own t' queue found
  | true =>
    obtain ⟨newKey, newQueue, rfl⟩ := (connect_eq_some_iff isQueued).mp run
    have later : ∀ s' t', ((s', t') ∈ edges ++ [(s, t)] ∧ Wiring.queued (s', t') = true) ↔
        ((s', t') ∈ edges ∧ Wiring.queued (s', t') = true) ∨ (s', t') = (s, t) := by
      intro s' t'
      rw [List.mem_append, List.mem_singleton]
      constructor
      · rintro ⟨member | same, queued⟩
        · exact .inl ⟨member, queued⟩
        · exact .inr same
      · rintro (both | same)
        · exact ⟨.inl both.1, both.2⟩
        · exact ⟨.inr same, same ▸ isQueued⟩
    refine ⟨fun owner => ?_, fun owner => ?_, fun s' t' => ?_, fun t' => ?_, fun t' queue found => ?_⟩
    · rw [notifyKeys_append]
      by_cases same : owner = t.owner
      · subst same
        rw [notifyKeys_singleton_self isQueued]
        change (Function.update maps.parentsNotify t.owner _ t.owner).Perm _
        rw [Function.update_self]
        exact ((connected.notify t.owner).cons _).trans (List.perm_append_singleton _ _).symm
      · rw [notifyKeys_singleton_other fun both => same both.2.symm, List.append_nil]
        change (Function.update maps.parentsNotify t.owner _ owner).Perm _
        rw [Function.update_of_ne same]
        exact connected.notify owner
    · change (Function.update maps.parentsNotify t.owner _ owner).Nodup
      by_cases same : owner = t.owner
      · subst same
        rw [Function.update_self]
        exact List.nodup_cons.mpr ⟨newKey, connected.distinct t.owner⟩
      · rw [Function.update_of_ne same]
        exact connected.distinct owner
    · rw [later, ← connected.forward]
      change t' ∈ Function.update maps.forwardQueue s _ s' ↔ _
      by_cases same : s' = s
      · subst same
        rw [Function.update_self, List.mem_cons, or_comm, Prod.mk.injEq]
        exact or_congr_right (and_iff_right rfl).symm
      · rw [Function.update_of_ne same, Prod.mk.injEq]
        exact ⟨.inl, fun either => either.resolve_right fun both => same both.1⟩
    · simp only [later]
      change (Function.update maps.inputQueue t _ t').isSome = true ↔ _
      by_cases same : t' = t
      · subst same
        rw [Function.update_self]
        exact ⟨fun _ => ⟨s, .inr rfl⟩, fun _ => rfl⟩
      · rw [Function.update_of_ne same, connected.queue]
        constructor
        · rintro ⟨s', both⟩
          exact ⟨s', .inl both⟩
        · rintro ⟨s', both | both⟩
          · exact ⟨s', both⟩
          · exact absurd (Prod.mk.inj both).2 same
    · rw [later]
      change Function.update maps.inputQueue t _ t' = some queue at found
      by_cases same : t' = t
      · subst same
        rw [Function.update_self] at found
        cases found
        exact ⟨rfl, .inr rfl⟩
      · rw [Function.update_of_ne same] at found
        exact ⟨(connected.own t' queue found).1, .inl (connected.own t' queue found).2⟩

theorem Connected.run {more : List (Source × Interface)} (connected : Connected edges maps)
    (run : more.foldlM connect maps = some maps') : Connected (edges ++ more) maps' := by
  induction more generalizing edges maps with
  | nil =>
    cases run
    rw [List.append_nil]
    exact connected
  | cons e more ih =>
    obtain ⟨next, first, rest⟩ := Option.bind_eq_some_iff.mp run
    have all := ih (connected.step first) rest
    rwa [List.append_assoc] at all

theorem Connected.exists (more : List (Source × Interface)) (connected : Connected edges maps)
    (keys : ∀ owner, (notifyKeys (edges ++ more) owner).Nodup)
    (distinct : ((edges ++ more).filter Wiring.queued).Nodup) :
    ∃ maps', more.foldlM connect maps = some maps' := by
  induction more generalizing edges maps with
  | nil => exact ⟨maps, rfl⟩
  | cons e more ih =>
    have reassociated : edges ++ e :: more = edges ++ [e] ++ more := by
      rw [List.append_assoc, List.singleton_append]
    have next : ∃ maps', maps.connect e = some maps' := by
      cases isQueued : Wiring.queued e with
      | false => exact ⟨_, connect_unqueued isQueued⟩
      | true =>
        refine ⟨maps.connected e, (connect_eq_some_iff isQueued).mpr ⟨fun known => ?_, fun known => ?_,
          rfl⟩⟩
        · have nodup := keys e.2.owner
          rw [reassociated, notifyKeys_append, notifyKeys_append,
            notifyKeys_singleton_self isQueued] at nodup
          have apart := (List.nodup_append.mp (List.nodup_append.mp nodup).1).2.2
          exact apart _ ((connected.notify _).subset known) _ List.mem_cons_self rfl
        · rw [reassociated, List.filter_append, List.filter_append] at distinct
          have apart := (List.nodup_append.mp (List.nodup_append.mp distinct).1).2.2
          have there : e ∈ edges.filter Wiring.queued :=
            List.mem_filter.mpr ((connected.forward e.1 e.2).mp known)
          exact apart e there e (List.mem_filter.mpr ⟨List.mem_singleton_self e, isQueued⟩) rfl
    obtain ⟨maps', first⟩ := next
    obtain ⟨last, rest⟩ := ih (connected.step first) (by rwa [← reassociated])
      (by rwa [← reassociated])
    exact ⟨last, Option.bind_eq_some_iff.mpr ⟨maps', first, rest⟩⟩

end

end RuntimeMaps

section Folds

variable {α β : Type} {edges : List (Source × Interface)} {maps : RuntimeMaps}

theorem foldlM_filterMap {f : RuntimeMaps → α → Option RuntimeMaps}
    {edge : α → Option (Source × Interface)} {xs : List α}
    (each : ∀ x ∈ xs, ∃ e, edge x = some e ∧ ∀ maps, f maps x = RuntimeMaps.connect maps e) :
    xs.foldlM f maps = (xs.filterMap edge).foldlM RuntimeMaps.connect maps := by
  induction xs generalizing maps with
  | nil => rfl
  | cons x xs ih =>
    obtain ⟨⟨e, isEdge, same⟩, others⟩ := List.forall_mem_cons.mp each
    rw [List.foldlM_cons, List.filterMap_cons_some isEdge, List.foldlM_cons, same]
    exact bind_congr fun maps => ih others

theorem foldlM_flatMap {f : α → List (Source × Interface)} {xs : List α} :
    (xs.flatMap f).foldlM RuntimeMaps.connect maps =
      xs.foldlM (fun maps x => (f x).foldlM RuntimeMaps.connect maps) maps := by
  induction xs generalizing maps with
  | nil => rfl
  | cons x xs ih =>
    rw [List.flatMap_cons, List.foldlM_append, List.foldlM_cons]
    exact bind_congr fun maps => ih

theorem foldlM_congr {f g : RuntimeMaps → α → Option RuntimeMaps} {xs : List α}
    (each : ∀ x ∈ xs, ∀ maps, f maps x = g maps x) : xs.foldlM f maps = xs.foldlM g maps := by
  induction xs generalizing maps with
  | nil => rfl
  | cons x xs ih =>
    obtain ⟨first, others⟩ := List.forall_mem_cons.mp each
    rw [List.foldlM_cons, List.foldlM_cons, first]
    exact bind_congr fun maps => ih others

end Folds

namespace Configuration

variable {config : Configuration ν}

theorem globalInputIndex_isSome {entry : InputConnection ν} (member : entry ∈ config.inputConnection) :
    ∃ g, config.globalInputIndex entry.globalInterfaceName = some g := by
  have general : ∀ (entries map : List (ν × Nat)) (name : ν),
      name ∈ entries.map Prod.fst ∨ name ∈ map.map Prod.fst →
        ((entries.foldl assign map).lookup name).isSome = true := by
    intro entries
    induction entries with
    | nil =>
      intro map name there
      obtain ⟨entry, inMap, rfl⟩ := List.mem_map.mp (there.resolve_left List.not_mem_nil)
      exact List.lookup_isSome_iff.mpr ⟨entry, inMap, beq_self_eq_true _⟩
    | cons entry entries ih =>
      intro map name there
      apply ih
      rw [assign, List.map_cons, List.mem_cons]
      rcases there with there | there
      · rcases List.mem_cons.mp there with same | there
        · exact .inr (.inl same)
        · exact .inl there
      · by_cases same : name = entry.1
        · exact .inr (.inl same)
        · obtain ⟨entry', inMap, rfl⟩ := List.mem_map.mp there
          refine .inr (.inr (List.mem_map_of_mem (List.mem_filter.mpr ⟨inMap, ?_⟩)))
          exact decide_eq_true same
  apply Option.isSome_iff_exists.mp
  apply general
  left
  rw [List.map_map]
  obtain ⟨i, inside, rfl⟩ := List.getElem_of_mem member
  exact List.mem_map.mpr ⟨(config.inputConnection[i], i),
    List.mk_mem_zipIdx_iff_getElem?.mpr (List.getElem?_eq_getElem inside), rfl⟩

theorem initializeInput_eq {i : Nat} {entry : InputConnection ν} {e : Source × Interface}
    (isEdge : config.inputEdge i entry = some e) (maps : RuntimeMaps) :
    config.initializeInput i maps entry = maps.connect e := by
  obtain ⟨g, isIndex, isEdge⟩ := Option.bind_eq_some_iff.mp isEdge
  obtain ⟨j, isInput, isEdge⟩ := Option.bind_eq_some_iff.mp isEdge
  cases isEdge
  rw [initializeInput, isIndex, Option.bind_eq_bind, Option.bind_some, isInput, Option.bind_eq_bind,
    Option.bind_some, RuntimeMaps.connect]
  by_cases first : i = 0
  · subst first
    rfl
  · have isQueued : Wiring.queued (.global g, .input i j) = true := by
      simp [Wiring.queued, Interface.owner, first]
    rw [if_pos first, if_pos isQueued]
    rfl

omit [DecidableEq ν] in
theorem mem_inputRuntimeMap {i : Nat} {entry : InputConnection ν} :
    entry ∈ config.inputRuntimeMap i ↔ entry ∈ config.inputConnection ∧ entry.modIdx = i := by
  rw [inputRuntimeMap, List.mem_filter, decide_eq_true_iff]

theorem WellFormed.inputEdge (wellFormed : config.WellFormed) {i : Nat} {entry : InputConnection ν}
    (member : entry ∈ config.inputRuntimeMap i) : ∃ g j,
      config.globalInputIndex entry.globalInterfaceName = some g ∧
      config.getInputIndex i entry.moduleInterfaceName = some j ∧
      config.inputEdge i entry = some (.global g, .input i j) := by
  obtain ⟨listed, rfl⟩ := mem_inputRuntimeMap.mp member
  obtain ⟨g, isIndex⟩ := globalInputIndex_isSome listed
  obtain ⟨j, isInput⟩ := Option.isSome_iff_exists.mp (wellFormed.connection entry listed).2
  refine ⟨g, j, isIndex, isInput, ?_⟩
  rw [Configuration.inputEdge, isIndex, isInput]
  rfl

theorem initializeGlobal_eq (wellFormed : config.WellFormed) (maps : RuntimeMaps) :
    config.initializeGlobal maps = config.inputEdges.foldlM RuntimeMaps.connect maps := by
  rw [initializeGlobal, inputEdges, foldlM_flatMap]
  apply foldlM_congr
  intro i _ maps
  apply foldlM_filterMap
  intro entry member
  obtain ⟨g, j, -, -, isEdge⟩ := wellFormed.inputEdge member
  exact ⟨_, isEdge, initializeInput_eq isEdge⟩

omit [DecidableEq ν] in
theorem initializeOutput_eq {i : Nat} {output : Nat × Dependency ν} {e : Source × Interface}
    (isEdge : config.dependencyEdge i output.1 output.2 = some e) (maps : RuntimeMaps) :
    config.initializeOutput i maps output = maps.connect e := by
  obtain ⟨child, isChild, rfl⟩ := Option.map_eq_some_iff.mp isEdge
  rw [initializeOutput, isChild]
  rfl

def loadedEdgesOf (config : Configuration ν) (i : Nat) (output : Nat × List (Dependency ν)) :
    List (Source × Interface) :=
  (bindingsOf output.2).visitOutput.filterMap (config.dependencyEdge i output.1)

def loadedEdges (config : Configuration ν) : List (Source × Interface) :=
  (List.range config.runtimes).flatMap fun i =>
    ((config.loaded.lookup i).getD []).visitOutputConfig.filterMap fun output =>
      config.dependencyEdge i output.1 output.2

end Configuration

omit [DecidableEq ν] in
theorem mem_of_mem_visitOutput {dependencies : List (Dependency ν)} {dependency : Dependency ν}
    (member : dependency ∈ (bindingsOf dependencies).visitOutput) : dependency ∈ dependencies := by
  rcases List.mem_append.mp member with member | member
  · obtain ⟨⟨modIdx, inputName⟩, isBinding, rfl⟩ := List.mem_map.mp member
    have isEntry := (foldl_assign_spec (dependencies.filterMap Dependency.binding) [] .nil).2 isBinding
    rw [List.append_nil] at isEntry
    obtain ⟨dependency, isDependency, same⟩ := List.mem_filterMap.mp isEntry
    cases dependency with
    | module modIdx' inputName' =>
      cases same
      exact isDependency
    | global globalOutputIndex => cases same
  · obtain ⟨global, isGlobal, rfl⟩ := List.mem_map.mp member
    have isEntry := List.mem_of_head? (Option.mem_toList.mp isGlobal)
    obtain ⟨dependency, isDependency, same⟩ := List.mem_filterMap.mp isEntry
    cases dependency with
    | module modIdx inputName => cases same
    | global globalOutputIndex =>
      cases same
      exact isDependency

namespace Configuration

variable {config : Configuration ν}

theorem WellFormed.lookup_loaded (wellFormed : config.WellFormed)
    {entry : Nat × List (Nat × List (Dependency ν))} (member : entry ∈ config.pipeline) :
    config.loaded.lookup entry.1 =
      some (entry.2.map fun output => (output.1, bindingsOf output.2)).reverse := by
  have distinct : (config.loaded.map Prod.fst).Nodup := by
    rw [loaded, List.map_reverse, List.nodup_reverse, List.map_map]
    exact wellFormed.modules.nodup_iff.mpr List.nodup_range
  apply (lookup_eq_some_iff_mem distinct).mpr
  exact List.mem_reverse.mpr (List.mem_map.mpr ⟨entry, member, rfl⟩)

omit [DecidableEq ν] in
/-- The edges of a module, in the order that its outputs are visited in. -/
theorem visitOutputConfig_edges (i : Nat) (outputs : List (Nat × List (Dependency ν))) :
    ((ConfigRuntime.visitOutputConfig
        (outputs.map fun output => (output.1, bindingsOf output.2)).reverse).filterMap
      fun output => config.dependencyEdge i output.1 output.2).Perm
        (outputs.flatMap (config.loadedEdgesOf i)) := by
  have each : ∀ output : Nat × List (Dependency ν),
      ((bindingsOf output.2).visitOutput.map fun dependency => (output.1, dependency)).filterMap
        (fun output => config.dependencyEdge i output.1 output.2) = config.loadedEdgesOf i output := by
    intro output
    rw [List.filterMap_map, loadedEdgesOf]
    rfl
  rw [ConfigRuntime.visitOutputConfig, List.filterMap_flatMap]
  refine ((List.reverse_perm _).flatMap_right _).trans ?_
  rw [List.flatMap_map]
  simp only [each]
  exact .rfl

theorem WellFormed.loadedEdges_perm (wellFormed : config.WellFormed) :
    config.loadedEdges.Perm (config.pipeline.flatMap fun entry =>
      entry.2.flatMap (config.loadedEdgesOf entry.1)) := by
  refine (wellFormed.modules.symm.flatMap_right _).trans ?_
  rw [List.flatMap_map]
  apply List.Perm.flatMap_left
  intro entry member
  rw [wellFormed.lookup_loaded member]
  exact visitOutputConfig_edges entry.1 entry.2

theorem initializeBackend_eq (wellFormed : config.WellFormed) (maps : RuntimeMaps) :
    (List.range config.runtimes).foldlM (config.initializeBackend config.loaded) maps =
      config.loadedEdges.foldlM RuntimeMaps.connect maps := by
  rw [loadedEdges, foldlM_flatMap]
  apply foldlM_congr
  intro i inside maps
  obtain ⟨entry, member, rfl⟩ := List.mem_map.mp (wellFormed.modules.symm.subset inside)
  rw [initializeBackend, wellFormed.lookup_loaded member]
  apply foldlM_filterMap
  rintro ⟨outputIdx, dependency⟩ visited
  obtain ⟨⟨_, binding⟩, isOutput, isDependency⟩ := List.mem_flatMap.mp visited
  obtain ⟨output, listed, same⟩ := List.mem_map.mp (List.mem_reverse.mp isOutput)
  cases same
  obtain ⟨dependency, isVisited, same⟩ := List.mem_map.mp isDependency
  cases same
  have given := mem_of_mem_visitOutput isVisited
  have resolves := wellFormed.child entry member output listed dependency given
  obtain ⟨child, isChild⟩ := Option.isSome_iff_exists.mp resolves
  have isEdge : config.dependencyEdge entry.1 output.1 dependency =
      some (.module entry.1 output.1, child) := by
    rw [dependencyEdge, isChild, Option.map_some]
  exact ⟨_, isEdge, initializeOutput_eq isEdge⟩

theorem WellFormed.initializePipeline_iff (wellFormed : config.WellFormed) {maps : RuntimeMaps} :
    config.initializePipeline = some maps ↔
      (∀ entry ∈ config.pipeline, ∀ output ∈ entry.2,
        (output.2.filterMap Dependency.globalOutput).length ≤ 1) ∧
      (config.inputEdges ++ config.loadedEdges).foldlM RuntimeMaps.connect .empty = some maps := by
  rw [List.foldlM_append]
  constructor
  · intro run
    obtain ⟨loaded, isLoaded, run⟩ := Option.bind_eq_some_iff.mp run
    obtain ⟨few, rfl⟩ := (load_eq_some_iff wellFormed).mp isLoaded
    refine ⟨few, ?_⟩
    simpa only [initializeGlobal_eq wellFormed, initializeBackend_eq wellFormed] using run
  · rintro ⟨few, run⟩
    refine Option.bind_eq_some_iff.mpr ⟨config.loaded, (load_eq_some_iff wellFormed).mpr ⟨few, rfl⟩, ?_⟩
    simpa only [initializeGlobal_eq wellFormed, initializeBackend_eq wellFormed] using run

end Configuration

namespace RuntimeMaps

def queueKeys (edges : List (Source × Interface)) (owner : Option Nat) : List Nat :=
  (edges.filter fun e => Wiring.queued e && decide (e.2.owner = owner)).map fun e => e.2.index

section

variable {edges edges' : List (Source × Interface)} {maps : RuntimeMaps} {owner : Option Nat}
  {i j : Nat}

theorem queueKeys_append (edges edges' : List (Source × Interface)) (owner : Option Nat) :
    queueKeys (edges ++ edges') owner = queueKeys edges owner ++ queueKeys edges' owner := by
  rw [queueKeys, List.filter_append, List.map_append, queueKeys, queueKeys]

theorem mem_queueKeys : j ∈ queueKeys edges (some i) ↔
    ∃ s, (s, .input i j) ∈ edges ∧ Wiring.queued (s, .input i j) = true := by
  rw [queueKeys, List.mem_map]
  constructor
  · rintro ⟨⟨s, t⟩, member, rfl⟩
    obtain ⟨isEdge, both⟩ := List.mem_filter.mp member
    obtain ⟨isQueued, isOwner⟩ := Bool.and_eq_true_iff.mp both
    have same : t = .input i t.index := Interface.eq_of_owner (of_decide_eq_true isOwner) rfl
    rw [same] at isEdge isQueued
    exact ⟨s, isEdge, isQueued⟩
  · rintro ⟨s, isEdge, isQueued⟩
    refine ⟨(s, .input i j), List.mem_filter.mpr ⟨isEdge, ?_⟩, rfl⟩
    rw [isQueued, Bool.true_and]
    exact decide_eq_true rfl

theorem queueKeys_nodup (distinct : (edges.map Prod.snd).Nodup) (owner : Option Nat) :
    (queueKeys edges owner).Nodup := by
  refine List.Nodup.map_on ?_ ((List.Nodup.of_map _ distinct).filter _)
  intro e first e' second sameIndex
  have owned : ∀ e ∈ edges.filter fun e => Wiring.queued e && decide (e.2.owner = owner),
      e ∈ edges ∧ e.2.owner = owner := fun e member =>
    ⟨(List.mem_filter.mp member).1,
      of_decide_eq_true (Bool.and_eq_true_iff.mp (List.mem_filter.mp member).2).2⟩
  apply List.inj_on_of_nodup_map distinct (owned e first).1 (owned e' second).1
  exact Interface.eq_of_owner ((owned e first).2.trans (owned e' second).2.symm) sameIndex

theorem notifyKeys_eq_queueKeys (modules : ∀ e ∈ edges, ∃ i o, e.1 = .module i o) :
    notifyKeys edges owner = queueKeys edges owner := by
  apply List.map_congr_left
  intro e member
  obtain ⟨s, t⟩ := e
  obtain ⟨i, o, same⟩ := modules _ (List.mem_filter.mp member).1
  cases same
  rfl

theorem notifyKeys_perm (perm : edges.Perm edges') :
    (notifyKeys edges owner).Perm (notifyKeys edges' owner) :=
  (perm.filter _).map _

theorem Connected.perm (connected : Connected edges maps) (perm : edges.Perm edges') :
    Connected edges' maps where
  notify owner := (connected.notify owner).trans (notifyKeys_perm perm)
  distinct := connected.distinct
  forward s t := by
    rw [← perm.mem_iff]
    exact connected.forward s t
  queue t := by
    simp only [← perm.mem_iff]
    exact connected.queue t
  own t queue found := by
    rw [← perm.mem_iff]
    exact connected.own t queue found

end

end RuntimeMaps

namespace Configuration

open RuntimeMaps

variable {config : Configuration ν}

omit [DecidableEq ν] in
theorem mem_dependencyEdges {e : Source × Interface} : e ∈ config.dependencyEdges ↔
    ∃ entry ∈ config.pipeline, ∃ output ∈ entry.2, ∃ dependency ∈ output.2,
      config.child dependency = some e.2 ∧ e.1 = .module entry.1 output.1 := by
  rw [dependencyEdges, List.mem_flatMap]
  constructor
  · rintro ⟨entry, isEntry, member⟩
    obtain ⟨output, isOutput, member⟩ := List.mem_flatMap.mp member
    obtain ⟨dependency, isDependency, isEdge⟩ := List.mem_filterMap.mp member
    obtain ⟨child, isChild, rfl⟩ := Option.map_eq_some_iff.mp isEdge
    exact ⟨entry, isEntry, output, isOutput, dependency, isDependency, isChild, rfl⟩
  · rintro ⟨entry, isEntry, output, isOutput, dependency, isDependency, isChild, isSource⟩
    refine ⟨entry, isEntry, List.mem_flatMap.mpr ⟨output, isOutput, List.mem_filterMap.mpr
      ⟨dependency, isDependency, ?_⟩⟩⟩
    rw [dependencyEdge, isChild, Option.map_some, ← isSource]

omit [DecidableEq ν] in
theorem dependencyEdges_modules : ∀ e ∈ config.dependencyEdges, ∃ i o, e.1 = .module i o := by
  intro e member
  obtain ⟨entry, -, output, -, -, -, -, isSource⟩ := mem_dependencyEdges.mp member
  exact ⟨entry.1, output.1, isSource⟩

theorem filter_inputEdges (p : Source × Interface → Bool) {i : Nat} (inside : i < config.runtimes)
    (only : ∀ e, p e = true → e.2.owner = some i) : config.inputEdges.filter p =
      ((config.inputRuntimeMap i).filterMap (config.inputEdge i)).filter p := by
  rw [inputEdges, List.filter_flatMap]
  have others : ∀ j, j ≠ i →
      ((config.inputRuntimeMap j).filterMap (config.inputEdge j)).filter p = [] := by
    intro j other
    rw [List.filter_eq_nil_iff]
    intro e member holds
    obtain ⟨entry, -, isEdge⟩ := List.mem_filterMap.mp member
    obtain ⟨g, -, isEdge⟩ := Option.bind_eq_some_iff.mp isEdge
    obtain ⟨k, -, isEdge⟩ := Option.bind_eq_some_iff.mp isEdge
    cases isEdge
    exact other (Option.some.inj (only _ holds))
  generalize config.runtimes = n at inside
  induction n with
  | zero => cases inside
  | succ n ih =>
    rw [List.range_succ, List.flatMap_append, List.flatMap_singleton]
    rcases Nat.lt_succ_iff_lt_or_eq.mp inside with earlier | rfl
    · rw [ih earlier, others n earlier.ne', List.append_nil]
    · have before : (List.range i).flatMap (fun j =>
          ((config.inputRuntimeMap j).filterMap (config.inputEdge j)).filter p) = [] :=
        List.flatMap_eq_nil_iff.mpr fun j below => others j (List.mem_range.mp below).ne
      rw [before, List.nil_append]

theorem WellFormed.inputKeys (wellFormed : config.WellFormed) {i : Nat} (inside : i < config.runtimes)
    (other : i ≠ 0) : notifyKeys config.inputEdges (some i) = config.globalIndices i ∧
      queueKeys config.inputEdges (some i) = config.globallyFed i := by
  have only : ∀ e : Source × Interface,
      (Wiring.queued e && decide (e.2.owner = some i)) = true → e.2.owner = some i :=
    fun e both => of_decide_eq_true (Bool.and_eq_true_iff.mp both).2
  have edges : ∀ entry ∈ config.inputRuntimeMap i, _ := fun _ member => wellFormed.inputEdge member
  rw [notifyKeys, queueKeys, filter_inputEdges _ inside only, globalIndices, globallyFed]
  revert edges
  generalize config.inputRuntimeMap i = entries
  intro edges
  induction entries with
  | nil => exact ⟨rfl, rfl⟩
  | cons entry entries ih =>
    obtain ⟨g, j, isIndex, isInput, isEdge⟩ := edges entry List.mem_cons_self
    have isQueued : (Wiring.queued (.global g, .input i j) &&
        decide ((Interface.input i j).owner = some i)) = true := by
      simp [Wiring.queued, Interface.owner, other]
    obtain ⟨notified, queued⟩ := ih fun entry member =>
      edges entry (List.mem_cons_of_mem _ member)
    rw [List.filterMap_cons_some isEdge, List.filter_cons, if_pos isQueued, List.map_cons,
      List.map_cons, notified, queued]
    simp only [List.filterMap_cons, isIndex, isInput]
    exact ⟨rfl, rfl⟩

theorem WellFormed.loaded_perm (wellFormed : config.WellFormed)
    (oneEach : ∀ entry ∈ config.pipeline, ∀ output ∈ entry.2,
      ((output.2.filterMap Dependency.binding).map Prod.fst).Nodup)
    (oneGlobal : ∀ entry ∈ config.pipeline, ∀ output ∈ entry.2,
      (output.2.filterMap Dependency.globalOutput).length ≤ 1) :
    config.loadedEdges.Perm config.dependencyEdges := by
  refine wellFormed.loadedEdges_perm.trans (List.Perm.flatMap_left _ fun entry isEntry => ?_)
  refine List.Perm.flatMap_left _ fun output isOutput => ?_
  exact (visitOutput_bindingsOf (oneEach entry isEntry output isOutput)
    (oneGlobal entry isEntry output isOutput)).filterMap _

theorem WellFormed.loadedEdges_unique (wellFormed : config.WellFormed) {i o c j j' : Nat}
    (first : (Source.module i o, Interface.input c j) ∈ config.loadedEdges)
    (second : (Source.module i o, Interface.input c j') ∈ config.loadedEdges) : j = j' := by
  have isBinding : ∀ j, (Source.module i o, Interface.input c j) ∈ config.loadedEdges →
      ∃ entry ∈ config.pipeline, entry.1 = i ∧ ∃ output ∈ entry.2, output.1 = o ∧
        ∃ name, (c, name) ∈ (bindingsOf output.2).bindings ∧ config.getInputIndex c name = some j := by
    intro j member
    obtain ⟨entry, isEntry, member⟩ := List.mem_flatMap.mp (wellFormed.loadedEdges_perm.subset member)
    obtain ⟨output, isOutput, member⟩ := List.mem_flatMap.mp member
    obtain ⟨dependency, isVisited, isEdge⟩ := List.mem_filterMap.mp member
    obtain ⟨child, isChild, same⟩ := Option.map_eq_some_iff.mp isEdge
    cases same
    refine ⟨entry, isEntry, rfl, output, isOutput, rfl, ?_⟩
    rcases List.mem_append.mp isVisited with isVisited | isVisited
    · obtain ⟨⟨c', name⟩, isBinding, rfl⟩ := List.mem_map.mp isVisited
      rw [Configuration.child] at isChild
      split at isChild
      · obtain ⟨j', isInput, same⟩ := Option.map_eq_some_iff.mp isChild
        cases same
        exact ⟨name, isBinding, isInput⟩
      · cases isChild
    · obtain ⟨global, -, rfl⟩ := List.mem_map.mp isVisited
      cases isChild
  obtain ⟨entry, isEntry, sameEntry, output, isOutput, sameOutput, name, bound, isInput⟩ :=
    isBinding j first
  obtain ⟨entry', isEntry', sameEntry', output', isOutput', sameOutput', name', bound', isInput'⟩ :=
    isBinding j' second
  have modules := wellFormed.modules.nodup_iff.mpr List.nodup_range
  obtain rfl := List.inj_on_of_nodup_map modules isEntry isEntry' (sameEntry.trans sameEntry'.symm)
  obtain rfl := List.inj_on_of_nodup_map (wellFormed.outputs entry isEntry).2 isOutput isOutput'
    (sameOutput.trans sameOutput'.symm)
  have distinct := (foldl_assign_spec (output.2.filterMap Dependency.binding) [] .nil).1
  have same := List.inj_on_of_nodup_map distinct bound bound' rfl
  cases same
  rw [isInput] at isInput'
  exact Option.some.inj isInput'

theorem mem_inputEdges {e : Source × Interface} (member : e ∈ config.inputEdges) :
    ∃ g i j, i < config.runtimes ∧ e = (.global g, .input i j) := by
  obtain ⟨i, inside, member⟩ := List.mem_flatMap.mp member
  obtain ⟨entry, -, isEdge⟩ := List.mem_filterMap.mp member
  obtain ⟨g, -, isEdge⟩ := Option.bind_eq_some_iff.mp isEdge
  obtain ⟨j, -, isEdge⟩ := Option.bind_eq_some_iff.mp isEdge
  cases isEdge
  exact ⟨g, i, j, List.mem_range.mp inside, rfl⟩

theorem outputKeys : notifyKeys (config.inputEdges ++ config.dependencyEdges) none =
    config.pipeline.flatMap fun entry => entry.2.flatMap fun output =>
      output.2.filterMap Dependency.globalOutput := by
  have inputs : notifyKeys config.inputEdges none = [] := by
    rw [notifyKeys, List.map_eq_nil_iff, List.filter_eq_nil_iff]
    intro e member both
    obtain ⟨g, i, j, -, rfl⟩ := mem_inputEdges member
    cases of_decide_eq_true (Bool.and_eq_true_iff.mp both).2
  have each : ∀ (i o : Nat) (dependencies : List (Dependency ν)),
      notifyKeys (dependencies.filterMap (config.dependencyEdge i o)) none =
        dependencies.filterMap Dependency.globalOutput := by
    intro i o dependencies
    induction dependencies with
    | nil => rfl
    | cons dependency dependencies ih =>
      cases dependency with
      | global g =>
        have isEdge : config.dependencyEdge i o (.global g) = some (.module i o, .output g) := rfl
        rw [List.filterMap_cons_some isEdge, ← List.singleton_append, notifyKeys_append,
          ih]
        rfl
      | module c name =>
        change _ = dependencies.filterMap Dependency.globalOutput
        rw [List.filterMap_cons]
        split
        · exact ih
        · rename_i e isEdge
          have other : e.2.owner ≠ none := by
            obtain ⟨child, isChild, rfl⟩ := Option.map_eq_some_iff.mp isEdge
            rw [Configuration.child] at isChild
            split at isChild
            · obtain ⟨k, -, rfl⟩ := Option.map_eq_some_iff.mp isChild
              exact Option.some_ne_none c
            · cases isChild
          rw [← List.singleton_append, notifyKeys_append,
            notifyKeys_singleton_other fun both => other both.2, List.nil_append, ih]
  rw [notifyKeys_append, inputs, List.nil_append, dependencyEdges]
  unfold notifyKeys at each ⊢
  rw [List.filter_flatMap, List.map_flatMap]
  refine congrArg (List.flatMap · config.pipeline) (funext fun entry => ?_)
  rw [List.filter_flatMap, List.map_flatMap]
  exact congrArg (List.flatMap · entry.2) (funext fun output => each entry.1 output.1 output.2)

theorem WellFormed.targets_nodup (wellFormed : config.WellFormed)
    (globalOnce : (config.pipeline.flatMap fun entry => entry.2.flatMap fun output =>
      output.2.filterMap Dependency.globalOutput).Nodup) :
    ((config.inputEdges ++ config.dependencyEdges).map Prod.snd).Nodup := by
  have outputs : (((config.inputEdges ++ config.dependencyEdges).map Prod.snd).filter
      fun child => !child.owner.isSome).Nodup := by
    rw [← outputKeys] at globalOnce
    apply List.Nodup.of_map Interface.index
    rw [List.filter_map, List.map_map]
    have same : (config.inputEdges ++ config.dependencyEdges).filter
        ((fun child => !child.owner.isSome) ∘ Prod.snd) =
          (config.inputEdges ++ config.dependencyEdges).filter
            fun e => Wiring.queued e && decide (e.2.owner = none) := by
      apply List.filter_congr
      intro e member
      rcases List.mem_append.mp member with isInput | isDependency
      · obtain ⟨g, i, j, -, rfl⟩ := mem_inputEdges isInput
        simp [Interface.owner]
      · obtain ⟨i, o, isSource⟩ := dependencyEdges_modules e isDependency
        obtain ⟨s, t⟩ := e
        cases isSource
        cases t with
        | input c j => rfl
        | output g => rfl
    rw [same]
    refine (List.map_congr_left fun e member => ?_) ▸ globalOnce
    obtain ⟨member, both⟩ := List.mem_filter.mp member
    rcases List.mem_append.mp member with isInput | isDependency
    · obtain ⟨g, i, j, -, rfl⟩ := mem_inputEdges isInput
      cases of_decide_eq_true (Bool.and_eq_true_iff.mp both).2
    · obtain ⟨i, o, isSource⟩ := dependencyEdges_modules e isDependency
      obtain ⟨s, t⟩ := e
      cases isSource
      rfl
  apply (List.filter_append_perm (fun child => child.owner.isSome) _).nodup_iff.mp
  refine List.nodup_append.mpr ⟨wellFormed.fedOnce, outputs, ?_⟩
  rintro child inSome child' inNone rfl
  have isSome := (List.mem_filter.mp inSome).2
  have isNone := (List.mem_filter.mp inNone).2
  rw [isSome] at isNone
  cases isNone

theorem WellFormed.queueKeys_input_nodup (wellFormed : config.WellFormed) (i : Nat) :
    (queueKeys (config.inputEdges ++ config.dependencyEdges) (some i)).Nodup := by
  have fed := wellFormed.fedOnce
  rw [fedInputs, List.filter_map] at fed
  have keys := queueKeys_nodup fed (some i)
  rw [queueKeys, List.filter_filter] at keys
  have same : ∀ e ∈ config.inputEdges ++ config.dependencyEdges,
      ((Wiring.queued e && decide (e.2.owner = some i)) && e.2.owner.isSome) =
        (Wiring.queued e && decide (e.2.owner = some i)) := by
    rintro ⟨s, t⟩ -
    cases t with
    | input c j => simp [Interface.owner]
    | output g => simp [Interface.owner]
  rw [queueKeys, ← List.filter_congr same]
  exact keys

omit [DecidableEq ν] in
theorem dependencyEdge_module {i o c : Nat} {name : ν}
    (isChild : (config.child (.module c name)).isSome = true) :
    ∃ j, config.getInputIndex c name = some j ∧
      config.dependencyEdge i o (.module c name) = some (.module i o, .input c j) := by
  obtain ⟨child, isChild⟩ := Option.isSome_iff_exists.mp isChild
  rw [dependencyEdge, isChild]
  rw [Configuration.child] at isChild
  split at isChild
  · obtain ⟨j, isInput, rfl⟩ := Option.map_eq_some_iff.mp isChild
    exact ⟨j, isInput, rfl⟩
  · cases isChild

theorem WellFormed.oneEach (wellFormed : config.WellFormed)
    (kept : config.dependencyEdges ⊆ config.loadedEdges) :
    ∀ entry ∈ config.pipeline, ∀ output ∈ entry.2,
      ((output.2.filterMap Dependency.binding).map Prod.fst).Nodup := by
  intro entry isEntry output isOutput
  -- the inputs that the bindings are to, which are not fed twice
  have fed : (((output.2.filterMap (config.dependencyEdge entry.1 output.1)).map Prod.snd).filter
      fun child => child.owner.isSome).Nodup := by
    have all := wellFormed.fedOnce
    rw [fedInputs, List.map_append, List.filter_append] at all
    have dependencies := (List.nodup_append.mp all).2.1
    rw [dependencyEdges, List.map_flatMap, List.filter_flatMap] at dependencies
    have ofEntry := (List.nodup_flatMap.mp dependencies).1 entry isEntry
    rw [List.map_flatMap, List.filter_flatMap] at ofEntry
    exact (List.nodup_flatMap.mp ofEntry).1 output isOutput
  have children := wellFormed.child entry isEntry output isOutput
  have same : ((output.2.filterMap (config.dependencyEdge entry.1 output.1)).map Prod.snd).filter
      (fun child => child.owner.isSome) = (output.2.filterMap Dependency.binding).map fun binding =>
        .input binding.1 ((config.getInputIndex binding.1 binding.2).getD 0) := by
    generalize output.2 = dependencies at children
    induction dependencies with
    | nil => rfl
    | cons dependency dependencies ih =>
      obtain ⟨first, others⟩ := List.forall_mem_cons.mp children
      cases dependency with
      | global g => exact ih others
      | module c name =>
        obtain ⟨j, isInput, isEdge⟩ := dependencyEdge_module first
        rw [List.filterMap_cons_some isEdge, List.map_cons, List.filter_cons,
          if_pos (show (Interface.input c j).owner.isSome = true from rfl), ih others,
          List.filterMap_cons_some (show (Dependency.module c name).binding = some (c, name) from rfl),
          List.map_cons, isInput, Option.getD_some]
  rw [same] at fed
  apply List.pairwise_map.mpr
  refine (List.pairwise_map.mp fed).imp_of_mem fun {b b'} first second apart => ?_
  -- two bindings with one module are loaded as one
  have isLoaded : ∀ binding ∈ output.2.filterMap Dependency.binding,
      (Source.module entry.1 output.1, Interface.input binding.1
        ((config.getInputIndex binding.1 binding.2).getD 0)) ∈ config.loadedEdges := by
    intro binding member
    obtain ⟨dependency, isDependency, isBinding⟩ := List.mem_filterMap.mp member
    cases dependency with
    | global g => cases isBinding
    | module c name =>
      cases isBinding
      obtain ⟨j, isInput, isEdge⟩ :=
        dependencyEdge_module (i := entry.1) (o := output.1) (children _ isDependency)
      rw [isInput, Option.getD_some]
      apply kept
      obtain ⟨child, isChild, same⟩ := Option.map_eq_some_iff.mp isEdge
      cases same
      exact mem_dependencyEdges.mpr ⟨entry, isEntry, output, isOutput, _, isDependency, isChild, rfl⟩
  intro sameModule
  apply apart
  have one := isLoaded b first
  have two := isLoaded b' second
  rw [← sameModule] at two ⊢
  rw [wellFormed.loadedEdges_unique one two]

/-- A configuration is wired consistently where bindings are not overwritten and the inputs of the
pipeline have the indices of the inputs that they feed. -/
theorem initializePipeline_consistent_iff (wellFormed : config.WellFormed) :
    (∃ maps, config.initializePipeline = some maps ∧ config.Consistent maps) ↔ config.Indexed := by
  have dependencies : ∀ owner, notifyKeys config.dependencyEdges owner =
      queueKeys config.dependencyEdges owner := fun _ =>
    notifyKeys_eq_queueKeys dependencyEdges_modules
  constructor
  · rintro ⟨maps, run, consistent⟩
    obtain ⟨oneGlobal, run⟩ := wellFormed.initializePipeline_iff.mp run
    have connected := Connected.empty.run run
    rw [List.nil_append] at connected
    have kept : config.dependencyEdges ⊆ config.loadedEdges := by
      intro e member
      obtain ⟨i, o, isSource⟩ := dependencyEdges_modules e member
      obtain ⟨s, t⟩ := e
      cases isSource
      have queue := (consistent.queue _ (List.mem_append_right _ member) rfl).1
      rcases List.mem_append.mp ((connected.forward _ _).mp queue).1 with isInput | isLoaded
      · obtain ⟨j, -, isInput⟩ := List.mem_flatMap.mp isInput
        obtain ⟨entry, -, isEdge⟩ := List.mem_filterMap.mp isInput
        obtain ⟨g, -, isEdge⟩ := Option.bind_eq_some_iff.mp isEdge
        obtain ⟨k, -, isEdge⟩ := Option.bind_eq_some_iff.mp isEdge
        cases isEdge
      · exact isLoaded
    have oneEach := wellFormed.oneEach kept
    have loaded := (wellFormed.loaded_perm oneEach oneGlobal).append_left config.inputEdges
    have all := connected.perm loaded
    refine ⟨oneEach, oneGlobal, ?_, fun i other inside => ?_⟩
    · rw [← outputKeys]
      exact (all.notify none).nodup_iff.mp (all.distinct none)
    · obtain ⟨notified, queued⟩ := wellFormed.inputKeys inside other
      have distinct := wellFormed.queueKeys_input_nodup i
      have distinct' := (all.notify (some i)).nodup_iff.mp (all.distinct (some i))
      have same : ∀ j, j ∈ notifyKeys (config.inputEdges ++ config.dependencyEdges) (some i) ↔
          j ∈ queueKeys (config.inputEdges ++ config.dependencyEdges) (some i) := by
        intro j
        rw [← (all.notify (some i)).mem_iff, consistent.keys i other inside, all.queue, mem_queueKeys]
      have perm := (List.perm_ext_iff_of_nodup distinct' distinct).mpr same
      rw [notifyKeys_append, queueKeys_append, dependencies, notified, queued] at perm
      exact (List.perm_append_right_iff _).mp perm
  · intro indexed
    have loaded :=
      (wellFormed.loaded_perm indexed.oneEach indexed.oneGlobal).append_left config.inputEdges
    have targets := wellFormed.targets_nodup indexed.globalOnce
    have inputs : ∀ i, i ≠ 0 → i < config.runtimes →
        (notifyKeys (config.inputEdges ++ config.dependencyEdges) (some i)).Perm
          (queueKeys (config.inputEdges ++ config.dependencyEdges) (some i)) := by
      intro i other inside
      obtain ⟨notified, queued⟩ := wellFormed.inputKeys inside other
      rw [notifyKeys_append, queueKeys_append, dependencies, notified, queued]
      exact (indexed.indices i other inside).append_right _
    have keys : ∀ owner, (notifyKeys (config.inputEdges ++ config.dependencyEdges) owner).Nodup := by
      intro owner
      cases owner with
      | none =>
        rw [outputKeys]
        exact indexed.globalOnce
      | some i =>
        have distinct := wellFormed.queueKeys_input_nodup i
        by_cases later : i ≠ 0 ∧ i < config.runtimes
        · exact (inputs i later.1 later.2).nodup_iff.mpr distinct
        · -- no input of the pipeline creates a notification here
          have none : notifyKeys config.inputEdges (some i) = [] := by
            rw [notifyKeys, List.map_eq_nil_iff, List.filter_eq_nil_iff]
            intro e member both
            obtain ⟨g, c, j, inside, rfl⟩ := mem_inputEdges member
            obtain ⟨isQueued, isOwner⟩ := Bool.and_eq_true_iff.mp both
            obtain rfl : c = i := Option.some.inj (of_decide_eq_true isOwner)
            refine later ⟨?_, inside⟩
            rintro rfl
            cases isQueued
          rw [notifyKeys_append, none, List.nil_append, dependencies]
          rw [queueKeys_append] at distinct
          exact (List.nodup_append.mp distinct).2.1
    obtain ⟨maps, run⟩ := Connected.empty.exists (config.inputEdges ++ config.loadedEdges)
      (fun owner => (notifyKeys_perm loaded).nodup_iff.mpr (keys owner))
      ((loaded.filter _).nodup_iff.mpr ((List.Nodup.of_map _ targets).filter _))
    have connected := (Connected.empty.run run).perm loaded
    refine ⟨maps, wellFormed.initializePipeline_iff.mpr ⟨indexed.oneGlobal, run⟩, ?_, ?_⟩
    · rintro ⟨s, t⟩ member isQueued
      refine ⟨(connected.forward s t).mpr ⟨member, isQueued⟩, ?_⟩
      obtain ⟨⟨s', t'⟩, found⟩ := Option.isSome_iff_exists.mp
        ((connected.queue t).mpr ⟨s, member, isQueued⟩)
      obtain ⟨same, member', -⟩ := connected.own t _ found
      cases same
      cases List.inj_on_of_nodup_map targets member member' rfl
      exact found
    · intro i other inside j
      rw [(connected.notify (some i)).mem_iff, (inputs i other inside).mem_iff, connected.queue,
        mem_queueKeys]

end Configuration

def twoInputs (outputs : List (Nat × List (Dependency Nat))) : Configuration Nat where
  runtimes := 2
  getInputIndex i name := if name < i + 1 then some name else none
  pipeline := [(0, outputs), (1, [(0, [.global 0])])]
  inputConnection := [⟨7, 0, 0⟩]

theorem twoInputs_wellFormed {outputs : List (Nat × List (Dependency Nat))} (listed : outputs ≠ [])
    (distinct : (outputs.map Prod.fst).Nodup)
    (child : ∀ output ∈ outputs, ∀ dependency ∈ output.2,
      ((twoInputs []).child dependency).isSome = true)
    (fedOnce : (twoInputs outputs).fedInputs.Nodup) : (twoInputs outputs).WellFormed := by
  have connection : ∀ entry ∈ (twoInputs []).inputConnection, entry.modIdx < 2 ∧
      ((twoInputs []).getInputIndex entry.modIdx entry.moduleInterfaceName).isSome = true := by decide
  have second : ∀ entry ∈ (twoInputs []).pipeline.tail, ∀ output ∈ entry.2,
      ∀ dependency ∈ output.2, ((twoInputs []).child dependency).isSome = true := by decide
  exact ⟨.refl _, List.forall_mem_cons.mpr ⟨⟨listed, distinct⟩, by decide⟩,
    List.forall_mem_cons.mpr ⟨child, second⟩, connection, fedOnce⟩

/-- An output that feeds both inputs loses the first one. -/
theorem initializePipeline_drops_binding : (twoInputs [(0, [.module 1 0, .module 1 1])]).WellFormed ∧
    ¬∃ maps, (twoInputs [(0, [.module 1 0, .module 1 1])]).initializePipeline = some maps ∧
      (twoInputs [(0, [.module 1 0, .module 1 1])]).Consistent maps := by
  refine ⟨twoInputs_wellFormed (by decide) (by decide) (by decide) (by decide), ?_⟩
  rintro ⟨maps, run, consistent⟩
  have queues : (twoInputs [(0, [.module 1 0, .module 1 1])]).initializePipeline.map
      (fun maps => maps.forwardQueue (.module 0 0)) = some [.input 1 1] := by decide
  have member := (consistent.queue (.module 0 0, .input 1 0) (by decide) rfl).1
  rw [run, Option.map_some, Option.some_inj] at queues
  rw [queues] at member
  exact absurd member (by decide)

theorem initializePipeline_consistent_separate :
    ∃ maps, (twoInputs [(0, [.module 1 0]), (1, [.module 1 1])]).initializePipeline = some maps ∧
      (twoInputs [(0, [.module 1 0]), (1, [.module 1 1])]).Consistent maps :=
  (Configuration.initializePipeline_consistent_iff
    (twoInputs_wellFormed (by decide) (by decide) (by decide) (by decide))).mpr {
      oneEach := by decide
      oneGlobal := by decide
      globalOnce := by decide
      indices := fun i other inside => by
        obtain rfl : i = 1 := by
          change i < 2 at inside
          omega
        exact .refl _ }

end Tvm.Pipeline
