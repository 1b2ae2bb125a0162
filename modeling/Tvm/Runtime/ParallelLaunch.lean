import Mathlib
import Tvm.Lib.Decimal
import Tvm.Runtime.ParallelLauncher

/-!
# Launches of parallel jobs

`ThreadPool::Launch` and `RunWorker` with `SignalJobFinish`, `SignalJobError` and `WaitForJobs`, as
atomic steps of the main thread and of the workers in any order.
-/

namespace Tvm.Runtime

structure Job where
  numTask : Nat
  needSync : Bool
  outcome : Nat → Option Message

def Job.fails (job : Job) : Bool :=
  (List.range job.numTask).any fun i => (job.outcome i).isSome

/-- `"Task " << i << " error: " << message << '\n'`. -/
def errorLine (i : Nat) (message : Message) : Message :=
  "Task ".toUTF8.toList ++ Lib.decimal i ++ " error: ".toUTF8.toList ++ message ++ [10]

/-- What `Launch` returns, with the text of the last error. -/
inductive LaunchResult where
  | zero
  | minusOne (lastError : Message)
  deriving DecidableEq

/-- What the result of a job should be: the ids and messages of the tasks that fail. -/
def Job.result (job : Job) : LaunchResult :=
  if job.fails then
    .minusOne ((List.range job.numTask).flatMap fun i => ((job.outcome i).map (errorLine i)).getD [])
  else .zero

/-- What is left of a task to do: to run it, or after the decrement in `SignalJobError` to store the
message and then to set the flag. -/
inductive TaskState where
  | run (taskId : Nat)
  | store (taskId : Nat) (message : Message)
  | raise
  deriving DecidableEq

inductive MainState where
  | outside
  | push (i : Nat)
  | runOwn
  | storeOwn (message : Message)
  | raiseOwn
  | loadPending
  | loadError
  | collect (i : Nat) (text : Message)
  deriving DecidableEq

/-- The pool and the launcher of the main thread.  A queue holds one task. -/
structure PoolState where
  launcher : ParallelLauncher
  queues : Nat → Option Nat
  workers : Nat → Option TaskState
  main : MainState
  job : Job
  /-- `tsk.task_id`, once there was a push. -/
  tskTaskId : Option Nat
  results : List (Job × LaunchResult)

namespace ParallelLauncher

/-- `num_pending_.fetch_sub(1)`. -/
def fetchSub (launcher : ParallelLauncher) : ParallelLauncher :=
  { launcher with numPending := launcher.numPending - 1 }

/-- `par_errors_[task_id] = TVMGetLastError()`. -/
def storeError (launcher : ParallelLauncher) (taskId : Nat) (message : Message) :
    Option ParallelLauncher :=
  if taskId < launcher.parErrors.length then
    some { launcher with parErrors := launcher.parErrors.set taskId message }
  else none

/-- `has_error_.store(true)`. -/
def raiseError (launcher : ParallelLauncher) : ParallelLauncher :=
  { launcher with hasError := true }

end ParallelLauncher

inductive PoolAction where
  | launch (job : Job)
  | main
  | pop (worker : Nat)
  | work (worker : Nat)

section Steps

variable (numWorkers : Nat) (excludeWorker0 : Bool)

def firstPushed : Nat :=
  if excludeWorker0 then 1 else 0

namespace PoolState

def stepMain (st : PoolState) : Option PoolState :=
  match st.main with
  | .outside => none
  | .push i =>
    if i < st.job.numTask then
      if st.queues i = none then
        some { st with
          queues := Function.update st.queues i (some i), tskTaskId := some i, main := .push (i + 1) }
      else none
    else some { st with main := if excludeWorker0 then .runOwn else .loadPending }
  | .runOwn =>
    match st.job.outcome 0 with
    | none => some { st with launcher := st.launcher.fetchSub, main := .loadPending }
    | some message => some { st with launcher := st.launcher.fetchSub, main := .storeOwn message }
  | .storeOwn message => do
      -- `tsk` is the last one that was pushed
      let taskId ← st.tskTaskId
      let launcher ← st.launcher.storeError taskId message
      some { st with launcher := launcher, main := .raiseOwn }
  | .raiseOwn => some { st with launcher := st.launcher.raiseError, main := .loadPending }
  | .loadPending =>
    if st.launcher.numPending = 0 then some { st with main := .loadError } else some st
  | .loadError =>
    if st.launcher.hasError then some { st with main := .collect 0 [] }
    else some { st with main := .outside, results := st.results ++ [(st.job, .zero)] }
  | .collect i text =>
    match st.launcher.parErrors[i]? with
    | none => some { st with main := .outside, results := st.results ++ [(st.job, .minusOne text)] }
    | some message =>
      if message ≠ [] then
        some { st with
          launcher := { st.launcher with parErrors := st.launcher.parErrors.set i [] }
          main := .collect (i + 1) (text ++ errorLine i message) }
      else some { st with main := .collect (i + 1) text }

def stepWorker (st : PoolState) (worker : Nat) : Option PoolState := do
  let task ← st.workers worker
  match task with
  | .run taskId =>
    match st.job.outcome taskId with
    | none => some { st with
        launcher := st.launcher.fetchSub, workers := Function.update st.workers worker none }
    | some message => some { st with
        launcher := st.launcher.fetchSub
        workers := Function.update st.workers worker (some (.store taskId message)) }
  | .store taskId message => do
      let launcher ← st.launcher.storeError taskId message
      some { st with launcher := launcher, workers := Function.update st.workers worker (some .raise) }
  | .raise => some { st with
      launcher := st.launcher.raiseError, workers := Function.update st.workers worker none }

def step (st : PoolState) : PoolAction → Option PoolState
  | .launch job =>
    if st.main = .outside ∧ 0 < job.numTask ∧ job.numTask ≤ numWorkers then do
      let launcher ← st.launcher.init job.numTask job.needSync
      some { st with
        launcher := launcher, job := job, tskTaskId := none
        main := .push (firstPushed excludeWorker0) }
    else none
  | .main => st.stepMain excludeWorker0
  | .pop worker =>
    match st.workers worker, st.queues worker with
    | none, some taskId => some { st with
        queues := Function.update st.queues worker none
        workers := Function.update st.workers worker (some (.run taskId)) }
    | _, _ => none
  | .work worker => st.stepWorker worker

def start : PoolState where
  launcher := .new
  queues _ := none
  workers _ := none
  main := .outside
  job := ⟨0, false, fun _ => none⟩
  tskTaskId := none
  results := []

def run (st : PoolState) : List PoolAction → Option PoolState
  | [] => some st
  | action :: rest => (st.step numWorkers excludeWorker0 action).bind fun st => st.run rest

def Reported (st : PoolState) : Prop :=
  ∀ entry ∈ st.results, entry.2 = entry.1.result

/-- A worker that is in `SignalJobError`, after the decrement. -/
def Signalling (st : PoolState) (worker : Nat) : Prop :=
  ∃ task, st.workers worker = some task ∧ ∀ taskId, task ≠ .run taskId

/-- The task of the main thread does not fail and no task fails without a message; and no worker is
in `SignalJobError` when the main thread loads the flag. -/
def Orderly (st : PoolState) : PoolAction → Prop
  | .launch job => (excludeWorker0 = true → job.outcome 0 = none) ∧
      ∀ i < job.numTask, job.outcome i ≠ some []
  | .main => st.main = .loadError → ∀ worker, ¬st.Signalling worker
  | .pop _ | .work _ => True

def OrderlyRun (st : PoolState) : List PoolAction → Prop
  | [] => True
  | action :: rest => st.Orderly excludeWorker0 action ∧
      ∀ next, st.step numWorkers excludeWorker0 action = some next → OrderlyRun next rest

end PoolState

end Steps

/-- Where a pushed task is, by its queue, its worker and its message; it is left as long as it has
not been counted down. -/
inductive TaskPhase (i : Nat) (outcome : Option Message) (hasError : Bool) :
    Option Nat → Option TaskState → Message → Bool → Prop where
  | queued : TaskPhase i outcome hasError (some i) none [] true
  | running : TaskPhase i outcome hasError none (some (.run i)) [] true
  | storing {message : Message} (fails : outcome = some message) :
      TaskPhase i outcome hasError none (some (.store i message)) [] false
  | raising {message : Message} (fails : outcome = some message) :
      TaskPhase i outcome hasError none (some .raise) message false
  | done (raised : outcome ≠ none → hasError = true) :
      TaskPhase i outcome hasError none none (outcome.getD []) false

theorem TaskPhase.raise {i : Nat} {outcome : Option Message} {hasError isLeft : Bool}
    {queue : Option Nat} {task : Option TaskState} {message : Message}
    (phase : TaskPhase i outcome hasError queue task message isLeft) :
    TaskPhase i outcome true queue task message isLeft := by
  cases phase with
  | queued => exact .queued
  | running => exact .running
  | storing fails => exact .storing fails
  | raising fails => exact .raising fails
  | done raised => exact .done fun _ => rfl

namespace PoolState

section Invariant

variable (excludeWorker0 : Bool)

def error (st : PoolState) (i : Nat) : Message :=
  st.launcher.parErrors.getD i []

def PhaseOf (st : PoolState) (i : Nat) : Bool → Prop :=
  TaskPhase i (st.job.outcome i) st.launcher.hasError (st.queues i) (st.workers i) (st.error i)

/-- No thread has to do with the task, and it has no message. -/
structure Quiet (st : PoolState) (i : Nat) : Prop where
  queue : st.queues i = none
  worker : st.workers i = none
  error : st.error i = []

/-- The job is one whose failures are told apart. -/
structure Telling (job : Job) : Prop where
  own : excludeWorker0 = true → job.outcome 0 = none
  messages : ∀ i < job.numTask, job.outcome i ≠ some []

/-- The first tasks have been pushed, some of all tasks are left, and the main thread's own task is
left or not. -/
structure Launching (st : PoolState) (pushed : Nat) (left : Finset Nat) (ownLeft : Bool) : Prop where
  telling : Telling excludeWorker0 st.job
  room : st.job.numTask ≤ st.launcher.parErrors.length
  positive : 0 < st.job.numTask
  above : firstPushed excludeWorker0 ≤ pushed
  below : pushed ≤ st.job.numTask
  pending : st.launcher.numPending = left.card
  phase : ∀ i, firstPushed excludeWorker0 ≤ i → i < pushed → ∃ isLeft, st.PhaseOf i isLeft ∧
    (isLeft = true ↔ i ∈ left)
  quiet : ∀ i, i < firstPushed excludeWorker0 ∨ pushed ≤ i → st.Quiet i
  later : ∀ i, pushed ≤ i → (i ∈ left ↔ i < st.job.numTask)
  own : ∀ i < firstPushed excludeWorker0, (i ∈ left ↔ ownLeft = true)
  raised : st.launcher.hasError = true → ∃ i < st.job.numTask, st.job.outcome i ≠ none

structure Collecting (st : PoolState) (i : Nat) (text : Message) : Prop where
  telling : Telling excludeWorker0 st.job
  room : st.job.numTask ≤ st.launcher.parErrors.length
  fails : st.job.fails = true
  queue : ∀ j, st.queues j = none
  worker : ∀ j, st.workers j = none
  collected : ∀ j < i, st.error j = []
  errors : ∀ j, i ≤ j → st.error j = if j < st.job.numTask then (st.job.outcome j).getD [] else []
  text : text = (List.range (min i st.job.numTask)).flatMap fun j =>
    ((st.job.outcome j).map (errorLine j)).getD []

/-- What holds where the main thread is. -/
def Consistent (st : PoolState) : Prop :=
  match st.main with
  | .outside => ∀ i, st.Quiet i
  | .push i => ∃ left, st.Launching excludeWorker0 i left true
  | .runOwn => excludeWorker0 = true ∧ ∃ left, st.Launching excludeWorker0 st.job.numTask left true
  | .loadPending => ∃ left, st.Launching excludeWorker0 st.job.numTask left false
  | .loadError => st.Launching excludeWorker0 st.job.numTask ∅ false
  | .collect i text => st.Collecting excludeWorker0 i text
  | .storeOwn _ | .raiseOwn => False

end Invariant

section Lemmas

variable {excludeWorker0 : Bool} {st next : PoolState} {pushed worker i : Nat} {left : Finset Nat}
  {ownLeft : Bool}

theorem Launching.busy (launching : st.Launching excludeWorker0 pushed left ownLeft) (worker : Nat)
    (busy : st.workers worker ≠ none ∨ st.queues worker ≠ none) :
    firstPushed excludeWorker0 ≤ worker ∧ worker < pushed := by
  by_contra outside
  have quiet := launching.quiet worker (by omega)
  exact busy.elim (fun there => there quiet.worker) fun there => there quiet.queue

theorem Launching.update (launching : st.Launching excludeWorker0 pushed left ownLeft)
    {left' : Finset Nat} (isLeft : Bool) (job : next.job = st.job)
    (room : next.launcher.parErrors.length = st.launcher.parErrors.length)
    (above : firstPushed excludeWorker0 ≤ worker) (below : worker < pushed)
    (pending : next.launcher.numPending = left'.card)
    (phase : next.PhaseOf worker isLeft) (isLeft_iff : isLeft = true ↔ worker ∈ left')
    (others : ∀ i ≠ worker, (i ∈ left' ↔ i ∈ left) ∧ next.queues i = st.queues i ∧
      next.workers i = st.workers i ∧ next.error i = st.error i)
    (hasError : next.launcher.hasError = st.launcher.hasError ∨
      next.launcher.hasError = true ∧ st.job.outcome worker ≠ none) :
    next.Launching excludeWorker0 pushed left' ownLeft where
  telling := job ▸ launching.telling
  room := by
    rw [job, room]
    exact launching.room
  positive := job ▸ launching.positive
  above := launching.above
  below := job ▸ launching.below
  pending := pending
  phase i aboveI belowI := by
    by_cases same : i = worker
    · subst same
      exact ⟨isLeft, phase, isLeft_iff⟩
    · obtain ⟨isLeft, phase, isLeft_iff⟩ := launching.phase i aboveI belowI
      obtain ⟨sameLeft, queue, task, message⟩ := others i same
      refine ⟨isLeft, ?_, isLeft_iff.trans sameLeft.symm⟩
      rw [PhaseOf, job, queue, task, message]
      rcases hasError with same | ⟨raised, -⟩
      · rw [same]
        exact phase
      · rw [raised]
        exact phase.raise
  quiet i outside := by
    obtain ⟨-, queue, task, message⟩ := others i (by omega)
    have quiet := launching.quiet i outside
    exact ⟨queue.trans quiet.queue, task.trans quiet.worker, message.trans quiet.error⟩
  later i outside := by
    rw [(others i (by omega)).1, job]
    exact launching.later i outside
  own i outside := by
    rw [(others i (by omega)).1]
    exact launching.own i outside
  raised isRaised := by
    rw [job]
    rcases hasError with same | ⟨-, fails⟩
    · exact launching.raised (same ▸ isRaised)
    · exact ⟨worker, below.trans_le launching.below, fails⟩

theorem Launching.pop (launching : st.Launching excludeWorker0 pushed left ownLeft) {taskId : Nat}
    (idle : st.workers worker = none) (queued : st.queues worker = some taskId) :
    PoolState.Launching excludeWorker0 { st with
      queues := Function.update st.queues worker none
      workers := Function.update st.workers worker (some (.run taskId)) } pushed left ownLeft := by
  obtain ⟨above, below⟩ := launching.busy worker (.inr (by rw [queued]; exact Option.some_ne_none _))
  obtain ⟨isLeft, phase, isLeft_iff⟩ := launching.phase worker above below
  rw [PhaseOf, idle, queued] at phase
  generalize message : st.error worker = text at phase
  cases phase
  refine launching.update true rfl rfl above below launching.pending ?_ isLeft_iff ?_ (.inl rfl)
  · rw [PhaseOf]
    change TaskPhase worker _ _ (Function.update st.queues worker none worker)
      (Function.update st.workers worker (some (.run worker)) worker) (st.error worker) true
    rw [Function.update_self, Function.update_self, message]
    exact .running
  · intro i other
    exact ⟨Iff.rfl, Function.update_of_ne other _ _, Function.update_of_ne other _ _, rfl⟩

theorem error_set {errors : List Message} {message : Message} (inside : i < errors.length) (j : Nat) :
    (errors.set i message).getD j [] = if j = i then message else errors.getD j [] := by
  rw [List.getD_eq_getElem?_getD, List.getD_eq_getElem?_getD, List.getElem?_set]
  split
  · rename_i same
    rw [if_pos same.symm, Option.getD_some]
  · rename_i other
    rw [if_neg fun same => other same.symm]

theorem stepWorker_frame (run : st.stepWorker worker = some next) :
    next.main = st.main ∧ next.results = st.results ∧ next.job = st.job := by
  obtain ⟨task, -, run⟩ := Option.bind_eq_some_iff.mp run
  cases task with
  | run taskId =>
    dsimp only at run
    split at run
    · cases run
      exact ⟨rfl, rfl, rfl⟩
    · cases run
      exact ⟨rfl, rfl, rfl⟩
  | store taskId message =>
    obtain ⟨launcher, -, run⟩ := Option.bind_eq_some_iff.mp run
    cases run
    exact ⟨rfl, rfl, rfl⟩
  | raise =>
    cases run
    exact ⟨rfl, rfl, rfl⟩

theorem Launching.work (launching : st.Launching excludeWorker0 pushed left ownLeft)
    (run : st.stepWorker worker = some next) : ∃ left' ⊆ left,
      next.Launching excludeWorker0 pushed left' ownLeft := by
  obtain ⟨task, isTask, run⟩ := Option.bind_eq_some_iff.mp run
  obtain ⟨above, below⟩ := launching.busy worker (.inl (by rw [isTask]; exact Option.some_ne_none _))
  obtain ⟨isLeft, phase, isLeft_iff⟩ := launching.phase worker above below
  have inside : worker < st.launcher.parErrors.length :=
    below.trans_le (launching.below.trans launching.room)
  have fewer : worker ∈ left → st.launcher.fetchSub.numPending = ((left.erase worker).card : Int) := by
    intro member
    have card := Finset.card_erase_add_one member
    have pending := launching.pending
    change st.launcher.numPending - 1 = _
    omega
  have erased : ∀ i ≠ worker, (i ∈ left.erase worker ↔ i ∈ left) := fun i other => by
    rw [Finset.mem_erase]
    exact and_iff_right other
  rw [PhaseOf, isTask] at phase
  generalize isQueue : st.queues worker = queue at phase
  generalize message : st.error worker = text at phase
  generalize isOutcome : st.job.outcome worker = outcome at phase
  cases phase with
  | running =>
    have member := isLeft_iff.mp rfl
    have gone : false = true ↔ worker ∈ left.erase worker :=
      iff_of_false Bool.false_ne_true (Finset.notMem_erase _ _)
    change (match st.job.outcome worker with
      | none => some { st with
          launcher := st.launcher.fetchSub, workers := Function.update st.workers worker none }
      | some message => some { st with
          launcher := st.launcher.fetchSub
          workers := Function.update st.workers worker (some (.store worker message)) }) =
        some next at run
    rw [isOutcome] at run
    cases outcome with
    | none =>
      cases run
      refine ⟨left.erase worker, Finset.erase_subset _ _, ?_⟩
      refine launching.update false rfl rfl above below (fewer member) ?_ gone
        (fun i other => ⟨erased i other, rfl, Function.update_of_ne other _ _, rfl⟩) (.inl rfl)
      change TaskPhase worker (st.job.outcome worker) _ (st.queues worker)
        (Function.update st.workers worker none worker) (st.error worker) false
      rw [isOutcome, isQueue, Function.update_self, message]
      exact .done fun fails => absurd rfl fails
    | some failure =>
      cases run
      refine ⟨left.erase worker, Finset.erase_subset _ _, ?_⟩
      refine launching.update false rfl rfl above below (fewer member) ?_ gone
        (fun i other => ⟨erased i other, rfl, Function.update_of_ne other _ _, rfl⟩) (.inl rfl)
      change TaskPhase worker (st.job.outcome worker) _ (st.queues worker)
        (Function.update st.workers worker (some (.store worker failure)) worker)
        (st.error worker) false
      rw [isOutcome, isQueue, Function.update_self, message]
      exact .storing rfl
  | @storing failure fails =>
    obtain ⟨launcher, stored, run⟩ := Option.bind_eq_some_iff.mp run
    rw [ParallelLauncher.storeError, if_pos inside] at stored
    cases stored
    cases run
    refine ⟨left, Finset.Subset.refl left, ?_⟩
    refine launching.update false rfl List.length_set above below launching.pending ?_ isLeft_iff
      (fun i other => ⟨Iff.rfl, rfl, Function.update_of_ne other _ _, ?_⟩) (.inl rfl)
    · change TaskPhase worker (st.job.outcome worker) _ (st.queues worker)
        (Function.update st.workers worker (some .raise) worker)
        ((st.launcher.parErrors.set worker failure).getD worker []) false
      rw [isOutcome, isQueue, Function.update_self, error_set inside, if_pos rfl]
      exact .raising fails
    · exact (error_set inside i).trans (if_neg other)
  | raising fails =>
    cases run
    refine ⟨left, Finset.Subset.refl left, ?_⟩
    refine launching.update false rfl rfl above below launching.pending ?_ isLeft_iff
      (fun i other => ⟨Iff.rfl, rfl, Function.update_of_ne other _ _, rfl⟩)
      (.inr ⟨rfl, by rw [isOutcome, fails]; exact Option.some_ne_none _⟩)
    change TaskPhase worker (st.job.outcome worker) true (st.queues worker)
      (Function.update st.workers worker none worker) (st.error worker) false
    rw [isOutcome, isQueue, Function.update_self, message, fails]
    exact .done fun _ => rfl

theorem init_launching {launcher launcher' : ParallelLauncher} {numTask : Nat} {needSync : Bool}
    (positive : 0 < numTask) (run : launcher.init numTask needSync = some launcher') :
    launcher'.numPending = numTask ∧ launcher'.hasError = false ∧
      numTask ≤ launcher'.parErrors.length ∧
      ∀ i, launcher'.parErrors.getD i [] = launcher.parErrors.getD i [] := by
  obtain ⟨shaped, isShaped, rest⟩ := ParallelLauncher.init_eq_some_iff.mp run
  have extended : shaped.numPending = numTask ∧ shaped.hasError = false ∧
      ∃ count, shaped.parErrors = launcher.parErrors ++ List.replicate count [] := by
    rw [ParallelLauncher.reshape] at isShaped
    split at isShaped
    · split at isShaped
      · cases needSync with
        | false =>
          cases isShaped
          exact ⟨rfl, rfl, _, rfl⟩
        | true =>
          obtain ⟨size, -, isShaped⟩ := Option.bind_eq_some_iff.mp isShaped
          cases isShaped
          exact ⟨rfl, rfl, _, rfl⟩
      · cases isShaped
    · cases isShaped
      exact ⟨rfl, rfl, 0, (List.append_nil _).symm⟩
  obtain ⟨pending, hasError, count, errors⟩ := extended
  have room : numTask - 1 < shaped.parErrors.length := by
    rcases ParallelLauncher.reshape_cases isShaped with ⟨stays, rfl⟩ | ⟨-, -, length, -, -⟩
    · omega
    · omega
  have getD : ∀ i, shaped.parErrors.getD i [] = launcher.parErrors.getD i [] := by
    intro i
    rw [errors, List.getD_eq_getElem?_getD, List.getD_eq_getElem?_getD, List.getElem?_append]
    split
    · rfl
    · rename_i beyond
      rw [List.getElem?_eq_none (not_lt.mp beyond), List.getElem?_replicate]
      split
      · rfl
      · rfl
  have same : launcher'.numPending = shaped.numPending ∧ launcher'.hasError = shaped.hasError ∧
      launcher'.parErrors = shaped.parErrors := by
    cases needSync with
    | false =>
      cases rest
      exact ⟨rfl, rfl, rfl⟩
    | true =>
      obtain ⟨counters, -, rfl⟩ := rest
      exact ⟨rfl, rfl, rfl⟩
  rw [same.1, same.2.1, same.2.2]
  exact ⟨pending, hasError, by omega, getD⟩

theorem launching_start {job : Job} {launcher : ParallelLauncher} (quiet : ∀ i, st.Quiet i)
    (positive : 0 < job.numTask) (run : st.launcher.init job.numTask job.needSync = some launcher)
    (telling : Telling excludeWorker0 job) :
    PoolState.Launching excludeWorker0 { st with
      launcher := launcher, job := job, tskTaskId := none, main := .push (firstPushed excludeWorker0) }
      (firstPushed excludeWorker0) (Finset.range job.numTask) true := by
  obtain ⟨pending, hasError, room, errors⟩ := init_launching positive run
  have few : firstPushed excludeWorker0 ≤ 1 := by
    rw [firstPushed]
    split
    · exact le_rfl
    · exact Nat.zero_le 1
  refine ⟨telling, room, positive, le_rfl, few.trans positive, ?_, fun i above below => by omega,
    fun i _ => ?_, fun i _ => Finset.mem_range, fun i below => ?_, fun raised => ?_⟩
  · rw [Finset.card_range]
    exact pending
  · exact ⟨(quiet i).queue, (quiet i).worker, (errors i).trans (quiet i).error⟩
  · exact iff_of_true (Finset.mem_range.mpr (by omega)) rfl
  · rw [show launcher.hasError = true from raised] at hasError
    cases hasError

theorem Launching.push (launching : st.Launching excludeWorker0 pushed left true)
    (more : pushed < st.job.numTask) :
    PoolState.Launching excludeWorker0 { st with
      queues := Function.update st.queues pushed (some pushed), tskTaskId := some pushed
      main := .push (pushed + 1) } (pushed + 1) left true := by
  have quiet := launching.quiet pushed (.inr le_rfl)
  refine ⟨launching.telling, launching.room, launching.positive, Nat.le_succ_of_le launching.above,
    more, launching.pending, fun i above below => ?_, fun i outside => ?_, fun i outside => ?_,
    launching.own, launching.raised⟩
  · rcases Nat.lt_succ_iff_lt_or_eq.mp below with earlier | rfl
    · obtain ⟨isLeft, phase, isLeft_iff⟩ := launching.phase i above earlier
      refine ⟨isLeft, ?_, isLeft_iff⟩
      change TaskPhase i _ _ (Function.update st.queues pushed (some pushed) i) (st.workers i)
        (st.error i) isLeft
      rw [Function.update_of_ne earlier.ne]
      exact phase
    · refine ⟨true, ?_, iff_of_true rfl ((launching.later i le_rfl).mpr more)⟩
      change TaskPhase i _ _ (Function.update st.queues i (some i) i) (st.workers i) (st.error i) true
      rw [Function.update_self, quiet.worker, quiet.error]
      exact .queued
  · have above := launching.above
    have quiet := launching.quiet i (by omega)
    refine ⟨?_, quiet.worker, quiet.error⟩
    change Function.update st.queues pushed (some pushed) i = none
    rw [Function.update_of_ne (by omega), quiet.queue]
  · exact launching.later i (by omega)

theorem Launching.ownDone (launching : st.Launching excludeWorker0 pushed left true)
    (all : pushed = st.job.numTask) (exclude : excludeWorker0 = true) {main : MainState} :
    PoolState.Launching excludeWorker0 { st with launcher := st.launcher.fetchSub, main := main }
      pushed (left.erase 0) false := by
  have first : firstPushed excludeWorker0 = 1 := if_pos exclude
  have member : 0 ∈ left := (launching.own 0 (by omega)).mpr rfl
  have other : ∀ i, 0 < i → (i ∈ left.erase 0 ↔ i ∈ left) := fun i positive => by
    rw [Finset.mem_erase]
    exact and_iff_right positive.ne'
  refine ⟨launching.telling, launching.room, launching.positive, launching.above, launching.below,
    ?_, fun i above below => ?_, fun i outside => ?_, fun i outside => ?_, fun i below => ?_,
    launching.raised⟩
  · have card := Finset.card_erase_add_one member
    have pending := launching.pending
    change st.launcher.numPending - 1 = _
    omega
  · obtain ⟨isLeft, phase, isLeft_iff⟩ := launching.phase i above below
    exact ⟨isLeft, phase, isLeft_iff.trans (other i (by omega)).symm⟩
  · have quiet := launching.quiet i outside
    exact ⟨quiet.queue, quiet.worker, quiet.error⟩
  · have positive := launching.positive
    rw [other i (by omega)]
    exact launching.later i outside
  · obtain rfl : i = 0 := by omega
    exact iff_of_false (Finset.notMem_erase _ _) Bool.false_ne_true

theorem Launching.moveMain (launching : st.Launching excludeWorker0 pushed left ownLeft)
    (main : MainState) :
    PoolState.Launching excludeWorker0 { st with main := main } pushed left ownLeft where
  telling := launching.telling
  room := launching.room
  positive := launching.positive
  above := launching.above
  below := launching.below
  pending := launching.pending
  phase := launching.phase
  quiet i outside := by
    have quiet := launching.quiet i outside
    exact ⟨quiet.queue, quiet.worker, quiet.error⟩
  later := launching.later
  own := launching.own
  raised := launching.raised

theorem Launching.withoutOwn (launching : st.Launching excludeWorker0 pushed left true)
    (exclude : excludeWorker0 = false) : st.Launching excludeWorker0 pushed left false := by
  have first : firstPushed excludeWorker0 = 0 := if_neg (by rw [exclude]; exact Bool.false_ne_true)
  exact { launching with own := fun i below => by omega }

/-- When all tasks have been counted down and no worker is in `SignalJobError`, the messages are those
of the tasks that have failed, and the flag is set where there are any. -/
theorem Launching.settled (launching : st.Launching excludeWorker0 st.job.numTask ∅ false)
    (settled : ∀ worker, ¬st.Signalling worker) :
    (∀ i, st.queues i = none ∧ st.workers i = none) ∧
      (∀ i, st.error i = if i < st.job.numTask then (st.job.outcome i).getD [] else []) ∧
      (st.launcher.hasError = true ↔ st.job.fails = true) := by
  have each : ∀ i, st.queues i = none ∧ st.workers i = none ∧
      st.error i = (if i < st.job.numTask then (st.job.outcome i).getD [] else []) ∧
      (i < st.job.numTask → st.job.outcome i ≠ none → st.launcher.hasError = true) := by
    intro i
    by_cases outside : i < firstPushed excludeWorker0 ∨ st.job.numTask ≤ i
    · have quiet := launching.quiet i outside
      have none_fails : i < st.job.numTask → st.job.outcome i = none := by
        intro inside
        have before : i < firstPushed excludeWorker0 := outside.resolve_right (not_le.mpr inside)
        rw [firstPushed] at before
        split at before
        · rename_i exclude
          obtain rfl : i = 0 := by omega
          exact launching.telling.own exclude
        · omega
      refine ⟨quiet.queue, quiet.worker, ?_, fun inside fails => absurd (none_fails inside) fails⟩
      rw [quiet.error]
      split
      · rename_i inside
        rw [none_fails inside]
        rfl
      · rfl
    · rw [not_or, not_lt, not_le] at outside
      obtain ⟨isLeft, phase, isLeft_iff⟩ := launching.phase i outside.1 outside.2
      have notSignalling := settled i
      rw [PhaseOf] at phase
      generalize st.queues i = queue at phase ⊢
      generalize isTask : st.workers i = task at phase ⊢
      generalize st.error i = text at phase ⊢
      cases phase with
      | queued => exact absurd (isLeft_iff.mp rfl) (Finset.notMem_empty _)
      | running => exact absurd (isLeft_iff.mp rfl) (Finset.notMem_empty _)
      | storing fails => exact absurd ⟨_, isTask, fun _ same => by cases same⟩ notSignalling
      | raising fails => exact absurd ⟨_, isTask, fun _ same => by cases same⟩ notSignalling
      | done raised => exact ⟨rfl, rfl, (if_pos outside.2).symm, fun _ => raised⟩
  refine ⟨fun i => ⟨(each i).1, (each i).2.1⟩, fun i => (each i).2.2.1, fun raised => ?_,
    fun fails => ?_⟩
  · obtain ⟨i, inside, fails⟩ := launching.raised raised
    exact List.any_eq_true.mpr ⟨i, List.mem_range.mpr inside, Option.isSome_iff_ne_none.mpr fails⟩
  · obtain ⟨i, inside, fails⟩ := List.any_eq_true.mp fails
    exact (each i).2.2.2 (List.mem_range.mp inside) (Option.isSome_iff_ne_none.mp fails)

structure Good (excludeWorker0 : Bool) (st : PoolState) : Prop where
  reported : st.Reported
  consistent : st.Consistent excludeWorker0

theorem Good.start : Good excludeWorker0 .start where
  reported _ member := absurd member List.not_mem_nil
  consistent _ := ⟨rfl, rfl, rfl⟩

theorem Reported.append (reported : st.Reported) (entry : Job × LaunchResult)
    (correct : entry.2 = entry.1.result) (results : next.results = st.results ++ [entry]) :
    next.Reported := by
  intro other member
  rw [results] at member
  rcases List.mem_append.mp member with before | last
  · exact reported other before
  · rw [List.mem_singleton.mp last]
    exact correct

theorem Collecting.step {text : Message} {message : Message}
    (collecting : st.Collecting excludeWorker0 i text)
    (found : st.launcher.parErrors[i]? = some message) :
    (message ≠ [] → PoolState.Collecting excludeWorker0 { st with
      launcher := { st.launcher with parErrors := st.launcher.parErrors.set i [] }
      main := .collect (i + 1) (text ++ errorLine i message) } (i + 1) (text ++ errorLine i message)) ∧
    (message = [] → PoolState.Collecting excludeWorker0 { st with main := .collect (i + 1) text }
      (i + 1) text) := by
  have inside : i < st.launcher.parErrors.length := (List.getElem?_eq_some_iff.mp found).1
  have isMessage : st.error i = message := by
    rw [error, List.getD_eq_getElem?_getD, found, Option.getD_some]
  have value := collecting.errors i le_rfl
  rw [isMessage] at value
  have line : ∀ line : Message,
      (i < st.job.numTask → ((st.job.outcome i).map (errorLine i)).getD [] = line) →
      (¬i < st.job.numTask → line = []) →
      text ++ line = (List.range (min (i + 1) st.job.numTask)).flatMap fun j =>
        ((st.job.outcome j).map (errorLine j)).getD [] := by
    intro line isLine none
    rw [collecting.text]
    by_cases task : i < st.job.numTask
    · rw [Nat.min_eq_left task, Nat.min_eq_left task.le, List.range_succ, List.flatMap_append,
        List.flatMap_singleton, isLine task]
    · rw [none task, List.append_nil, Nat.min_eq_right (not_lt.mp task), Nat.min_eq_right (by omega)]
  constructor
  · intro there
    have task : i < st.job.numTask := by
      by_contra task
      rw [if_neg task] at value
      exact there value
    have isOutcome : st.job.outcome i = some message := by
      rw [if_pos task] at value
      cases outcome : st.job.outcome i with
      | none =>
        rw [outcome] at value
        exact absurd value there
      | some failure =>
        rw [outcome] at value
        rw [value, Option.getD_some]
    refine ⟨collecting.telling, collecting.room.trans_eq List.length_set.symm, collecting.fails,
      collecting.queue, collecting.worker, fun j before => ?_, fun j after => ?_, ?_⟩
    · change (st.launcher.parErrors.set i []).getD j [] = []
      rw [error_set inside]
      split
      · rfl
      · exact collecting.collected j (by omega)
    · change (st.launcher.parErrors.set i []).getD j [] = _
      rw [error_set inside, if_neg (by omega)]
      exact collecting.errors j (by omega)
    · refine line _ (fun _ => ?_) fun other => absurd task other
      rw [isOutcome, Option.map_some, Option.getD_some]
  · intro empty
    refine ⟨collecting.telling, collecting.room, collecting.fails, collecting.queue,
      collecting.worker, fun j before => ?_, fun j after => collecting.errors j (by omega), ?_⟩
    · rcases Nat.lt_succ_iff_lt_or_eq.mp before with before | rfl
      · exact collecting.collected j before
      · exact isMessage.trans empty
    · have same := line [] (fun task => ?_) fun _ => rfl
      · rwa [List.append_nil] at same
      · -- a task that fails has a message
        rw [if_pos task, empty] at value
        cases outcome : st.job.outcome i with
        | none => rfl
        | some failure =>
          rw [outcome, Option.getD_some] at value
          exact absurd (value ▸ outcome) (collecting.telling.messages i task)

theorem Good.stepMain (good : st.Good excludeWorker0)
    (orderly : st.main = .loadError → ∀ worker, ¬st.Signalling worker)
    (run : st.stepMain excludeWorker0 = some next) : next.Good excludeWorker0 := by
  obtain ⟨reported, consistent⟩ := good
  rw [PoolState.stepMain] at run
  rw [Consistent] at consistent
  generalize isMain : st.main = main at run consistent orderly
  cases main with
  | outside => cases run
  | storeOwn message => exact consistent.elim
  | raiseOwn => exact consistent.elim
  | push i =>
    obtain ⟨left, launching⟩ := consistent
    dsimp only at run
    split at run
    · rename_i more
      split at run
      · cases run
        exact ⟨reported, left, launching.push more⟩
      · cases run
    · rename_i all
      obtain rfl : i = st.job.numTask := le_antisymm launching.below (not_lt.mp all)
      cases run
      refine ⟨reported, ?_⟩
      by_cases exclude : excludeWorker0 = true
      · rw [if_pos exclude]
        exact ⟨exclude, left, launching.moveMain _⟩
      · rw [if_neg exclude]
        exact ⟨left, (launching.withoutOwn (Bool.not_eq_true _ ▸ exclude)).moveMain _⟩
  | runOwn =>
    obtain ⟨exclude, left, launching⟩ := consistent
    dsimp only at run
    rw [launching.telling.own exclude] at run
    cases run
    exact ⟨reported, left.erase 0, launching.ownDone rfl exclude⟩
  | loadPending =>
    obtain ⟨left, launching⟩ := consistent
    dsimp only at run
    split at run
    · rename_i zero
      cases run
      have none : left = ∅ := by
        rw [← Finset.card_eq_zero]
        have pending := launching.pending
        omega
      subst none
      exact ⟨reported, launching.moveMain _⟩
    · cases run
      refine ⟨reported, ?_⟩
      rw [Consistent, isMain]
      exact ⟨left, launching⟩
  | loadError =>
    obtain ⟨idle, errors, raised⟩ := consistent.settled (orderly rfl)
    dsimp only at run
    split at run
    · rename_i isRaised
      cases run
      exact ⟨reported, consistent.telling, consistent.room, raised.mp isRaised, fun j => (idle j).1,
        fun j => (idle j).2, fun j before => absurd before (Nat.not_lt_zero j), fun j _ => errors j,
        by rw [Nat.zero_min]; rfl⟩
    · rename_i notRaised
      cases run
      have succeeds : st.job.fails = false :=
        Bool.eq_false_iff.mpr fun fails => notRaised (raised.mpr fails)
      refine ⟨reported.append (st.job, .zero) ?_ rfl, fun i => ⟨(idle i).1, (idle i).2, ?_⟩⟩
      · rw [Job.result, succeeds]
        rfl
      · refine (errors i).trans ?_
        split
        · rename_i inside
          have none := List.any_eq_false.mp succeeds i (List.mem_range.mpr inside)
          rw [Option.not_isSome_iff_eq_none.mp none]
          rfl
        · rfl
  | collect i text =>
    have collecting : st.Collecting excludeWorker0 i text := consistent
    dsimp only at run
    split at run
    · rename_i ended
      cases run
      have beyond : st.job.numTask ≤ i := by
        have length := List.getElem?_eq_none_iff.mp ended
        exact collecting.room.trans length
      have isText := collecting.text
      rw [Nat.min_eq_right beyond] at isText
      refine ⟨reported.append (st.job, .minusOne text) ?_ rfl, fun j => ⟨collecting.queue j,
        collecting.worker j, ?_⟩⟩
      · rw [Job.result, if_pos collecting.fails, isText]
      · rcases lt_or_ge j i with before | after
        · exact collecting.collected j before
        · exact (collecting.errors j after).trans (if_neg (by omega))
    · rename_i message found
      split at run
      · rename_i there
        cases run
        exact ⟨reported, (collecting.step found).1 there⟩
      · rename_i empty
        cases run
        exact ⟨reported, (collecting.step found).2 (not_not.mp empty)⟩

theorem Good.ofWorker (good : st.Good excludeWorker0) (worker : Nat) (main : next.main = st.main)
    (results : next.results = st.results) (job : next.job = st.job)
    (busy : st.workers worker ≠ none ∨ st.queues worker ≠ none)
    (launching : ∀ pushed left ownLeft, st.Launching excludeWorker0 pushed left ownLeft →
      ∃ left' ⊆ left, next.Launching excludeWorker0 pushed left' ownLeft) :
    next.Good excludeWorker0 := by
  obtain ⟨reported, consistent⟩ := good
  refine ⟨fun entry member => reported entry (results ▸ member), ?_⟩
  rw [Consistent] at consistent ⊢
  rw [main, job]
  generalize st.main = main at consistent
  cases main with
  | outside =>
    have quiet : st.Quiet worker := consistent worker
    exact (busy.elim (fun there => there quiet.worker) fun there => there quiet.queue).elim
  | push i =>
    obtain ⟨left, isLaunching⟩ := consistent
    obtain ⟨left', -, isLaunching⟩ := launching i left true isLaunching
    exact ⟨left', isLaunching⟩
  | runOwn =>
    obtain ⟨exclude, left, isLaunching⟩ := consistent
    obtain ⟨left', -, isLaunching⟩ := launching _ left true isLaunching
    exact ⟨exclude, left', isLaunching⟩
  | storeOwn message => exact consistent
  | raiseOwn => exact consistent
  | loadPending =>
    obtain ⟨left, isLaunching⟩ := consistent
    obtain ⟨left', -, isLaunching⟩ := launching _ left false isLaunching
    exact ⟨left', isLaunching⟩
  | loadError =>
    obtain ⟨left', subset, isLaunching⟩ := launching _ ∅ false consistent
    rw [Finset.subset_empty.mp subset] at isLaunching
    exact isLaunching
  | collect i text =>
    have collecting : st.Collecting excludeWorker0 i text := consistent
    exact (busy.elim (fun there => there (collecting.worker worker)) fun there =>
      there (collecting.queue worker)).elim

/-- Every step of an orderly run keeps the invariant. -/
theorem Good.step {numWorkers : Nat} {action : PoolAction} (good : st.Good excludeWorker0)
    (orderly : st.Orderly excludeWorker0 action)
    (run : st.step numWorkers excludeWorker0 action = some next) : next.Good excludeWorker0 := by
  cases action with
  | launch job =>
    rw [PoolState.step] at run
    split at run
    · rename_i enabled
      obtain ⟨launcher, isLauncher, run⟩ := Option.bind_eq_some_iff.mp run
      cases run
      have consistent := good.consistent
      rw [Consistent, enabled.1] at consistent
      exact ⟨good.reported, _, launching_start consistent enabled.2.1 isLauncher ⟨orderly.1, orderly.2⟩⟩
    · cases run
  | main => exact good.stepMain orderly run
  | pop worker =>
    rw [PoolState.step] at run
    split at run
    · rename_i taskId idle queued
      cases run
      refine good.ofWorker worker rfl rfl rfl
        (.inr (by rw [queued]; exact Option.some_ne_none _)) fun pushed left ownLeft launching => ?_
      exact ⟨left, Finset.Subset.refl left, launching.pop idle queued⟩
    · cases run
  | work worker =>
    obtain ⟨task, isTask, -⟩ := Option.bind_eq_some_iff.mp run
    have moved : next.main = st.main ∧ next.results = st.results ∧ next.job = st.job :=
      stepWorker_frame run
    refine good.ofWorker worker moved.1 moved.2.1 moved.2.2
      (.inl (by rw [isTask]; exact Option.some_ne_none _)) fun pushed left ownLeft launching => ?_
    exact launching.work run

theorem Launching.canWork (launching : st.Launching excludeWorker0 pushed left ownLeft)
    (busy : st.workers worker ≠ none) : ∃ next, st.stepWorker worker = some next := by
  obtain ⟨above, below⟩ := launching.busy worker (.inl busy)
  obtain ⟨isLeft, phase, -⟩ := launching.phase worker above below
  have inside : worker < st.launcher.parErrors.length :=
    below.trans_le (launching.below.trans launching.room)
  rw [PhaseOf] at phase
  rw [stepWorker]
  generalize st.workers worker = task at busy phase ⊢
  generalize st.queues worker = queue at phase
  generalize st.error worker = text at phase
  cases phase with
  | queued => exact absurd rfl busy
  | running =>
    cases outcome : st.job.outcome worker with
    | none => exact ⟨_, by rw [Option.bind_eq_bind, Option.bind_some]; dsimp only; rw [outcome]⟩
    | some message => exact ⟨_, by rw [Option.bind_eq_bind, Option.bind_some]; dsimp only; rw [outcome]⟩
  | @storing message fails =>
    exact ⟨_, Option.bind_eq_some_iff.mpr ⟨_, rfl,
      Option.bind_eq_some_iff.mpr ⟨_, if_pos inside, rfl⟩⟩⟩
  | raising fails => exact ⟨_, rfl⟩
  | done raised => exact absurd rfl busy

theorem Good.progress {numWorkers : Nat} (good : st.Good excludeWorker0) (inside : st.main ≠ .outside) :
    ∃ action next, st.Orderly excludeWorker0 action ∧
      st.step numWorkers excludeWorker0 action = some next ∧
      (st.main = .loadPending → st.launcher.numPending ≠ 0 → ∃ worker, action = .pop worker ∨
        action = .work worker) := by
  have consistent := good.consistent
  rw [Consistent] at consistent
  generalize isMain : st.main = main at consistent inside
  have byMain : (main = .loadError → ∀ worker, ¬st.Signalling worker) →
      (main = .loadPending → st.launcher.numPending = 0) →
      (∃ next, st.stepMain excludeWorker0 = some next) →
      ∃ action next, st.Orderly excludeWorker0 action ∧
        st.step numWorkers excludeWorker0 action = some next ∧
        (main = .loadPending → st.launcher.numPending ≠ 0 → ∃ worker, action = .pop worker ∨
          action = .work worker) := by
    rintro settled zero ⟨next, run⟩
    exact ⟨.main, next, fun isError => settled (isMain.symm.trans isError), run,
      fun waits pending => absurd (zero waits) pending⟩
  cases main with
  | outside => exact absurd rfl inside
  | storeOwn message => exact consistent.elim
  | raiseOwn => exact consistent.elim
  | push i =>
    refine byMain (fun other => by cases other) (fun other => by cases other) ?_
    obtain ⟨left, launching⟩ := consistent
    rw [PoolState.stepMain, isMain]
    dsimp only
    split
    · rw [if_pos (launching.quiet i (.inr le_rfl)).queue]
      exact ⟨_, rfl⟩
    · exact ⟨_, rfl⟩
  | runOwn =>
    refine byMain (fun other => by cases other) (fun other => by cases other) ?_
    obtain ⟨exclude, left, launching⟩ := consistent
    rw [PoolState.stepMain, isMain]
    dsimp only
    rw [launching.telling.own exclude]
    exact ⟨_, rfl⟩
  | loadPending =>
    obtain ⟨left, launching⟩ := consistent
    by_cases zero : st.launcher.numPending = 0
    · refine byMain (fun other => by cases other) (fun _ => zero) ?_
      rw [PoolState.stepMain, isMain]
      dsimp only
      rw [if_pos zero]
      exact ⟨_, rfl⟩
    · -- some worker has not counted down its task
      have some_left : left.Nonempty := by
        rw [Finset.nonempty_iff_ne_empty]
        rintro rfl
        exact zero launching.pending
      obtain ⟨i, isLeft⟩ := some_left
      have above : firstPushed excludeWorker0 ≤ i := by
        by_contra before
        exact Bool.false_ne_true ((launching.own i (not_le.mp before)).mp isLeft)
      have below : i < st.job.numTask := by
        by_contra beyond
        exact beyond ((launching.later i (not_lt.mp beyond)).mp isLeft)
      obtain ⟨b, phase, isLeft_iff⟩ := launching.phase i above below
      cases worker : st.workers i with
      | some task =>
        obtain ⟨next, run⟩ := launching.canWork (by rw [worker]; exact Option.some_ne_none task)
        exact ⟨.work i, next, trivial, run, fun _ _ => ⟨i, .inr rfl⟩⟩
      | none =>
        rw [PhaseOf, worker] at phase
        generalize queue : st.queues i = queue at phase
        generalize st.error i = text at phase
        cases phase with
        | queued =>
          have run : ∃ next, st.step numWorkers excludeWorker0 (.pop i) = some next := by
            rw [PoolState.step, worker, queue]
            exact ⟨_, rfl⟩
          obtain ⟨next, run⟩ := run
          exact ⟨.pop i, next, trivial, run, fun _ _ => ⟨i, .inl rfl⟩⟩
        | done raised => exact absurd (isLeft_iff.mpr isLeft) Bool.false_ne_true
  | loadError =>
    by_cases signalling : ∃ worker, st.Signalling worker
    · obtain ⟨worker, task, isTask, -⟩ := signalling
      obtain ⟨next, run⟩ := consistent.canWork (by rw [isTask]; exact Option.some_ne_none task)
      exact ⟨.work worker, next, trivial, run, fun other => by cases other⟩
    · refine byMain (fun _ worker => fun is => signalling ⟨worker, is⟩) (fun other => by cases other) ?_
      rw [PoolState.stepMain, isMain]
      dsimp only
      split
      · exact ⟨_, rfl⟩
      · exact ⟨_, rfl⟩
  | collect i text =>
    refine byMain (fun other => by cases other) (fun other => by cases other) ?_
    rw [PoolState.stepMain, isMain]
    dsimp only
    split
    · exact ⟨_, rfl⟩
    · split
      · exact ⟨_, rfl⟩
      · exact ⟨_, rfl⟩

theorem Good.run {numWorkers : Nat} {actions : List PoolAction} (good : st.Good excludeWorker0)
    (run : st.run numWorkers excludeWorker0 actions = some next)
    (orderly : st.OrderlyRun numWorkers excludeWorker0 actions) : next.Good excludeWorker0 := by
  induction actions generalizing st with
  | nil =>
    cases run
    exact good
  | cons action rest ih =>
    obtain ⟨middle, step, run⟩ := Option.bind_eq_some_iff.mp run
    exact ih (good.step orderly.1 step) run (orderly.2 middle step)

end Lemmas

end PoolState

open PoolState

theorem PoolState.OrderlyRun.cons {numWorkers : Nat} {excludeWorker0 : Bool} {st next : PoolState}
    {action : PoolAction} {rest : List PoolAction} (orderly : st.Orderly excludeWorker0 action)
    (step : st.step numWorkers excludeWorker0 action = some next)
    (run : next.OrderlyRun numWorkers excludeWorker0 rest) :
    st.OrderlyRun numWorkers excludeWorker0 (action :: rest) := by
  refine ⟨orderly, fun other other_step => ?_⟩
  obtain rfl := Option.some.inj (step.symm.trans other_step)
  exact run

/-- Two tasks, of which the one of a worker fails or not. -/
def twoTasks (outcome : Option Message) : Job where
  numTask := 2
  needSync := false
  outcome i := if i = 1 then outcome else none

/-- The main thread loads the count once the worker is through. -/
def tellingRun (outcome : Option Message) : List PoolAction :=
  [.launch (twoTasks outcome), .main, .main, .main, .pop 1, .work 1, .work 1, .work 1, .main, .main,
    .main, .main, .main, .main]

theorem tellingRun_orderly : PoolState.start.OrderlyRun 2 true (tellingRun (some [101])) := by
  have told : ∀ i < 2, (twoTasks (some [101])).outcome i ≠ some [] := by decide
  have early : ∀ {st : PoolState} {main : MainState}, st.main = main → main ≠ .loadError →
      st.Orderly true .main := fun isMain other isError => absurd (isMain.symm.trans isError) other
  refine .cons ⟨fun _ => rfl, told⟩ rfl ?_
  refine .cons (early rfl (by decide)) rfl ?_
  refine .cons (early rfl (by decide)) rfl ?_
  refine .cons (early rfl (by decide)) rfl ?_
  refine .cons trivial rfl ?_
  refine .cons trivial rfl ?_
  refine .cons trivial rfl ?_
  refine .cons trivial rfl ?_
  refine .cons (early rfl (by decide)) rfl ?_
  -- the main thread loads the flag
  refine .cons (fun _ worker => ?_) rfl ?_
  · rintro ⟨task, isTask, -⟩
    by_cases isOne : worker = 1
    · subst isOne
      have idle : some task = none := isTask.symm.trans rfl
      cases idle
    · have idle : some task = none := isTask.symm.trans ((Function.update_of_ne isOne _ _).trans
        ((Function.update_of_ne isOne _ _).trans ((Function.update_of_ne isOne _ _).trans
        (Function.update_of_ne isOne _ _))))
      cases idle
  refine .cons (early rfl (by decide)) rfl ?_
  refine .cons (early rfl (by decide)) rfl ?_
  refine .cons (early rfl (by decide)) rfl ?_
  exact .cons (early rfl (by decide)) rfl trivial

/-- The main thread finds no task pending and no error, before the worker has stored its own. -/
def missingRun (outcome : Option Message) : List PoolAction :=
  [.launch (twoTasks outcome), .main, .main, .main, .pop 1, .work 1, .main, .main]

end Tvm.Runtime
