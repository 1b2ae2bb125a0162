import Tvm.Pipeline.SpscQueue
import Tvm.Pipeline.Wiring

/-!
# The pipeline executor

The worker threads and the thread of the caller, one queue operation, notification, assignment of
an input or run of a module at a time.  Nothing stops the pipeline.
-/

namespace Tvm.Pipeline

/-- What can be seen from outside the threads. -/
inductive Event (α : Type) where
  | pushed (t : Interface) (data : α)
  | polled (t : Interface) (data : α)
  | ran (runtimeIdx : Nat) (inputs : Nat → α)
  | obtained (outputs : List (Nat × α))

/-- Where the thread that runs a module is; for the first module that is the caller. -/
inductive Phase (α : Type) where
  /-- In `WaitAndLoadPipelineData`, with the keys in `notifys`; to run where there is none. -/
  | loading (notifys : List Nat)
  /-- Before the `Poll` of `LoadBindingData`. -/
  | polling (key : Nat) (notifys : List Nat)
  /-- In `DataNotify::Wait`. -/
  | waiting (key : Nat) (notifys : List Nat)
  /-- In `ForwardingOutputDataToChildren`. -/
  | forwarding (pending : List (Interface × α))
  /-- Before the `ParentNotify` of `ForwardData`. -/
  | notifying (t : Interface) (pending : List (Interface × α))

/-- Where the caller is outside of the first module. -/
inductive Caller (α : Type) where
  | idle
  /-- In `SetPipelineInput`. -/
  | setting (g : Nat) (pending : List (Nat × Nat))
  | notifying (t : Interface) (g : Nat) (pending : List (Nat × Nat))
  /-- In `GlobalRuntime::GetOutput`, after `DataIsReady`. -/
  | fetching (pending : List Nat) (outputs : List (Nat × α))

structure State (α : Type) where
  queue : Interface → SPSCLockFreeQueue α
  /-- `data_ready_` of the notifications of the modules, by their keys. -/
  dataReady : Interface → Bool
  /-- The tensors of the inputs of the modules. -/
  input : Interface → α
  phase : Nat → Phase α
  caller : Caller α
  /-- The inputs of the pipeline that the caller has not set in this round. -/
  unset : List Nat
  round : Nat

inductive Action where
  /-- The thread of a module proceeds; the key is what `notifys.begin()` returns. -/
  | worker (runtimeIdx key : Nat)
  | setInput (g : Nat)
  | run
  | getOutput
  /-- The caller proceeds in a call. -/
  | proceed

inductive Outcome (α : Type) where
  | blocked
  /-- `LOG(FATAL)`. -/
  | failed
  | next (event : Option (Event α)) (st : State α)

inductive PipelineState where
  | stopped
  | running
  | stopping

def PipelineState.isStop : PipelineState → Bool
  | .running => false
  | .stopped | .stopping => true

/-- `pipeline_state_` after `PipelineInit`: `StartWorkThread` of a backend runtime sets it, the global
runtime keeps the initial value. -/
def pipelineState : Option Nat → PipelineState
  | some _ => .running
  | none => .stopped

inductive Forwarded (α : Type) where
  | pushed (q : SPSCLockFreeQueue α)
  /-- The push is tried again. -/
  | full
  /-- `ForwardData` returns `false`. -/
  | stopped

/-- One turn of the loop of `ForwardData`. -/
def forwardData {α : Type} (state : PipelineState) (q : SPSCLockFreeQueue α) (data : α) :
    Forwarded α :=
  match q.push data with
  | some next => .pushed next
  | none => if state.isStop then .stopped else .full

namespace State

variable {α : Type} (st : State α)

def setPhase (i : Nat) (phase : Phase α) : State α :=
  { st with phase := Function.update st.phase i phase }

def setQueue (t : Interface) (q : SPSCLockFreeQueue α) : State α :=
  { st with queue := Function.update st.queue t q }

def setReady (t : Interface) (ready : Bool) : State α :=
  { st with dataReady := Function.update st.dataReady t ready }

def setInput (t : Interface) (data : α) : State α :=
  { st with input := Function.update st.input t data }

end State

section Executor

variable {α : Type} (w : Wiring) (modules : Nat → (Nat → α) → Nat → α) (inputs : Nat → Nat → α)

def State.start (base : Interface → α) : State α where
  queue := fun _ => .new
  dataReady := fun _ => false
  input := base
  phase := fun i => .loading (w.parentsNotify (some i))
  caller := .idle
  unset := List.range w.globalInputs
  round := 0

/-- `ParentNotify`, which does nothing in the global runtime; there is no result where the
notification is not found. -/
def parentNotify (st : State α) (t : Interface) : Option (State α) :=
  match t with
  | .output _ => some st
  | .input i j => if j ∈ w.parentsNotify (some i) then some (st.setReady t true) else none

/-- `LoadBindingData`, where a failed poll is followed by `Wait`. -/
def loadBindingData (st : State α) (i key : Nat) (notifys : List Nat) : Outcome α :=
  if key ∈ w.inputQueue (some i) then
    match (st.queue (.input i key)).poll with
    | none => .next none (st.setPhase i (.waiting key notifys))
    | some (none, _) => .failed
    | some (some data, q) =>
      .next (some (.polled (.input i key) data))
        (((st.setQueue (.input i key) q).setInput (.input i key) data).setPhase i
          (.loading notifys))
  else .failed

/-- `Run`; what is forwarded afterwards is read of the outputs. -/
def runRuntime (st : State α) (i : Nat) : Outcome α :=
  let found := fun j => st.input (.input i j)
  .next (some (.ran i found))
    (st.setPhase i (.forwarding ((w.targets i).map fun t => (t.2, modules i found t.1))))

def workerStep (st : State α) (i key : Nat) : Outcome α :=
  match st.phase i with
  | .loading [] => if i = 0 then .blocked else runRuntime w modules st i
  | .loading (first :: rest) =>
    if key ∈ first :: rest then
      .next none (st.setPhase i (.polling key ((first :: rest).erase key)))
    else .blocked
  | .polling key notifys => loadBindingData w st i key notifys
  | .waiting key notifys =>
    if st.dataReady (.input i key) then
      .next none ((st.setReady (.input i key) false).setPhase i (.polling key notifys))
    else .blocked
  | .forwarding [] => .next none (st.setPhase i (.loading (w.parentsNotify (some i))))
  | .forwarding ((t, data) :: pending) =>
    match forwardData (pipelineState (some i)) (st.queue t) data with
    | .pushed q =>
      .next (some (.pushed t data)) ((st.setQueue t q).setPhase i (.notifying t pending))
    | .full => .next none st
    | .stopped => .blocked
  | .notifying t pending =>
    match parentNotify w st t with
    | some notified => .next none (notified.setPhase i (.forwarding pending))
    | none => .failed

/-- The caller proceeds in `SetPipelineInput` or `GetOutput`. -/
def callerStep (st : State α) : Outcome α :=
  match st.caller with
  | .idle => .blocked
  | .setting _ [] => .next none { st with caller := .idle }
  | .setting g ((i, j) :: pending) =>
    if i = 0 then
      .next none { st.setInput (.input i j) (inputs st.round g) with caller := .setting g pending }
    else
      match forwardData (pipelineState none) (st.queue (.input i j)) (inputs st.round g) with
      | .pushed q =>
        .next (some (.pushed (.input i j) (inputs st.round g)))
          { st.setQueue (.input i j) q with caller := .notifying (.input i j) g pending }
      | .full => .next none st
      | .stopped => .next none { st with caller := .idle }
  | .notifying t g pending =>
    match parentNotify w st t with
    | some notified => .next none { notified with caller := .setting g pending }
    | none => .failed
  | .fetching [] outputs => .next (some (.obtained outputs)) { st with caller := .idle }
  | .fetching (g :: pending) outputs =>
    match (st.queue (.output g)).poll with
    | some (some data, q) =>
      .next (some (.polled (.output g) data))
        { st.setQueue (.output g) q with caller := .fetching pending (outputs ++ [(g, data)]) }
    | _ => .failed

def State.Ready (st : State α) : Prop :=
  match st.caller, st.phase 0 with
  | .idle, .loading _ => True
  | _, _ => False

instance (st : State α) : Decidable st.Ready := by
  unfold State.Ready
  split
  · exact instDecidableTrue
  · exact instDecidableFalse

def dataIsReady (st : State α) : Bool :=
  (w.inputQueue none).all fun g => !(st.queue (.output g)).empty

def step (st : State α) : Action → Outcome α
  | .worker i key => if i < w.runtimes then workerStep w modules st i key else .blocked
  | .setInput g =>
    if st.Ready ∧ g ∈ st.unset then
      .next none { st with caller := .setting g (w.globalChildren g), unset := st.unset.erase g }
    else .blocked
  | .run =>
    if st.Ready ∧ st.unset = [] then
      runRuntime w modules
        { st with unset := List.range w.globalInputs, round := st.round + 1 } 0
    else .blocked
  | .getOutput =>
    if st.Ready then
      if dataIsReady w st then .next none { st with caller := .fetching (w.inputQueue none) [] }
      else .next none st
    else .blocked
  | .proceed => callerStep w inputs st

/-- The runs of the pipeline whose steps are permitted, with what has been seen. -/
inductive Run (base : Interface → α) (permits : State α → Action → Prop) :
    List (Event α) → State α → Prop where
  | start : w.Initializes → Run base permits [] (State.start w base)
  | step {trace : List (Event α)} {st next : State α} {event : Option (Event α)} (a : Action) :
      Run base permits trace st → permits st a →
      step w modules inputs st a = .next event next →
      Run base permits (trace ++ event.toList) next

end Executor

section Trace

variable {α : Type}

def pushes (t : Interface) (trace : List (Event α)) : List α :=
  trace.filterMap fun event =>
    match event with
    | .pushed t' data => if t' = t then some data else none
    | _ => none

def polls (t : Interface) (trace : List (Event α)) : List α :=
  trace.filterMap fun event =>
    match event with
    | .polled t' data => if t' = t then some data else none
    | _ => none

def runsOf (i : Nat) (trace : List (Event α)) : List (Nat → α) :=
  trace.filterMap fun event =>
    match event with
    | .ran i' found => if i' = i then some found else none
    | _ => none

def obtained (trace : List (Event α)) : List (List (Nat × α)) :=
  trace.filterMap fun event =>
    match event with
    | .obtained outputs => some outputs
    | _ => none

end Trace

end Tvm.Pipeline
