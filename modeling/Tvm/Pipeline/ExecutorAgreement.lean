import Tvm.Pipeline.ExecutorCaller

/-!
# The executor agrees with the modules run in order

In every run in which an input of the pipeline finds room in its queue, the `k`-th set of outputs is
what the modules compute of the `k`-th inputs.
-/

namespace Tvm.Pipeline

section Agreement

variable {α : Type} {w : Wiring} {modules : Nat → (Nat → α) → Nat → α} {inputs : Nat → Nat → α}
  {base : Interface → α} {trace : List (Event α)} {st next : State α} {event : Option (Event α)}

/-- An input of the pipeline that the caller is about to push has room in its queue. -/
def HasRoom (st : State α) (a : Action) : Prop :=
  a = .proceed → ∀ g i j pending, st.caller = .setting g ((i, j) :: pending) → i ≠ 0 →
    (st.queue (.input i j)).full = false

theorem Invariant.start (initializes : w.Initializes) :
    Invariant w modules inputs base [] (State.start w base) where
  initializes := initializes
  channels := ⟨fun _ => ⟨[], SPSCLockFreeQueue.holds_new, rfl⟩, by simp [pushes]⟩
  ran := by simp [runsOf]
  outputs := by simp [obtained]
  unfed := fun _ _ => rfl
  threads := by
    intro i _
    exact ⟨⟨[], List.Perm.refl _, by simp, fun _ _ _ => rfl⟩, fun _ _ => rfl⟩
  round := rfl
  globals := fun g isGlobal =>
    GlobalAt.of_remaining [] (remaining_unset (List.mem_range.mpr isGlobal)) rfl (by simp)
      fun _ _ _ => rfl
  unset := ⟨List.nodup_range, fun _ member => List.mem_range.mp member⟩
  caller := trivial
  fetch := fun _ _ => rfl

theorem parentNotify_some {t : Interface} {notified : State α}
    (found : parentNotify w st t = some notified) :
    ∃ ready, notified = { st with dataReady := ready } := by
  cases t with
  | output g =>
    cases found
    exact ⟨st.dataReady, rfl⟩
  | input i j =>
    rw [parentNotify, Option.ite_none_right_eq_some] at found
    obtain ⟨-, isNotified⟩ := found
    cases isNotified
    exact ⟨_, rfl⟩

theorem forwardData_pushed {state : PipelineState} {q q' : SPSCLockFreeQueue α} {data : α}
    (forwarded : forwardData state q data = .pushed q') : q.push data = some q' := by
  rw [forwardData] at forwarded
  cases pushed : q.push data with
  | some found =>
    rw [pushed] at forwarded
    cases forwarded
    rfl
  | none =>
    rw [pushed] at forwarded
    cases stopped : state.isStop <;> rw [stopped] at forwarded <;> cases forwarded

theorem forwardData_room {q : SPSCLockFreeQueue α} (room : q.full = false)
    (state : PipelineState) (data : α) : ∃ q', forwardData state q data = .pushed q' := by
  rw [forwardData, SPSCLockFreeQueue.push, room]
  exact ⟨_, rfl⟩

theorem Invariant.workerStep (inv : Invariant w modules inputs base trace st) {i key : Nat}
    (inside : i < w.runtimes) (isStep : workerStep w modules st i key = .next event next) :
    Invariant w modules inputs base (trace ++ event.toList) next := by
  rw [Tvm.Pipeline.workerStep] at isStep
  split at isStep
  · rename_i isPhase
    split at isStep
    · cases isStep
    · rename_i laterModule
      cases isStep
      exact inv.runWorker inside laterModule isPhase
  · rename_i first rest isPhase
    split at isStep
    · rename_i member
      cases isStep
      rw [Option.toList_none, List.append_nil]
      exact inv.rephase (.polling key _) (LoadingAt.choose member (inv.thread inside isPhase))
        st.dataReady
    · cases isStep
  · rename_i key' notifys isPhase
    rw [loadBindingData] at isStep
    split at isStep
    · rename_i isQueue
      split at isStep
      · cases isStep
        rw [Option.toList_none, List.append_nil]
        have place := inv.thread inside isPhase
        exact inv.rephase (.waiting key' notifys) place st.dataReady
      · cases isStep
      · rename_i data q polled
        cases isStep
        exact inv.poll inside isPhase isQueue polled
    · cases isStep
  · rename_i key' notifys isPhase
    split at isStep
    · cases isStep
      rw [Option.toList_none, List.append_nil]
      have place := inv.thread inside isPhase
      exact inv.rephase (.polling key' notifys) place _
    · cases isStep
  · rename_i isPhase
    cases isStep
    rw [Option.toList_none, List.append_nil]
    exact inv.rephase (.loading _) (ForwardingAt.finish st.input (inv.thread inside isPhase))
      st.dataReady
  · rename_i t data pending isPhase
    split at isStep
    · rename_i q forwarded
      cases isStep
      exact inv.push inside isPhase (forwardData_pushed forwarded)
    · cases isStep
      rw [Option.toList_none, List.append_nil]
      exact inv
    · cases isStep
  · rename_i t pending isPhase
    split at isStep
    · rename_i notified found
      cases isStep
      obtain ⟨ready, rfl⟩ := parentNotify_some found
      rw [Option.toList_none, List.append_nil]
      exact inv.rephase (.forwarding pending) (inv.thread inside isPhase).1 ready
    · cases isStep

theorem Invariant.callerStep (inv : Invariant w modules inputs base trace st)
    (room : HasRoom st .proceed) (isStep : callerStep w inputs st = .next event next) :
    Invariant w modules inputs base (trace ++ event.toList) next := by
  rw [Tvm.Pipeline.callerStep] at isStep
  split at isStep
  · cases isStep
  · rename_i g setting
    cases isStep
    rw [Option.toList_none, List.append_nil]
    exact inv.endSet setting
  · rename_i g i j pending setting
    split at isStep
    · rename_i first
      subst first
      cases isStep
      rw [Option.toList_none, List.append_nil]
      exact inv.assign setting
    · rename_i laterModule
      obtain ⟨q', isPushed⟩ := forwardData_room (room rfl g i j pending setting laterModule)
        (pipelineState none) (inputs st.round g)
      rw [isPushed] at isStep
      cases isStep
      exact inv.pushInput setting laterModule (forwardData_pushed isPushed)
  · rename_i t g pending notifying
    split at isStep
    · rename_i notified found
      cases isStep
      obtain ⟨ready, rfl⟩ := parentNotify_some found
      rw [Option.toList_none, List.append_nil]
      exact inv.endNotify notifying ready
    · cases isStep
  · rename_i outputs fetching
    cases isStep
    exact inv.endFetch fetching
  · rename_i g pending outputs fetching
    split at isStep
    · rename_i data q polled
      cases isStep
      exact inv.fetchOutput fetching polled
    · cases isStep

theorem ready_cases (ready : st.Ready) :
    st.caller = .idle ∧ ∃ notifys, st.phase 0 = .loading notifys := by
  rw [State.Ready] at ready
  split at ready
  · rename_i notifys idle isPhase
    exact ⟨idle, notifys, isPhase⟩
  · cases ready

theorem Invariant.step (inv : Invariant w modules inputs base trace st) {a : Action}
    (room : HasRoom st a) (isStep : step w modules inputs st a = .next event next) :
    Invariant w modules inputs base (trace ++ event.toList) next := by
  cases a with
  | worker i key =>
    rw [Tvm.Pipeline.step] at isStep
    split at isStep
    · rename_i inside
      exact inv.workerStep inside isStep
    · cases isStep
  | setInput g =>
    rw [Tvm.Pipeline.step] at isStep
    split at isStep
    · rename_i permitted
      cases isStep
      rw [Option.toList_none, List.append_nil]
      exact inv.beginSet (ready_cases permitted.1).1 permitted.2
    · cases isStep
  | run =>
    rw [Tvm.Pipeline.step] at isStep
    split at isStep
    · rename_i permitted
      obtain ⟨idle, notifys, isPhase⟩ := ready_cases permitted.1
      cases isStep
      exact inv.runFirst idle permitted.2 isPhase
    · cases isStep
  | getOutput =>
    rw [Tvm.Pipeline.step] at isStep
    split at isStep
    · rename_i ready
      split at isStep
      · rename_i filled
        cases isStep
        rw [Option.toList_none, List.append_nil]
        exact inv.beginFetch (ready_cases ready).1 filled
      · cases isStep
        rw [Option.toList_none, List.append_nil]
        exact inv
    · cases isStep
  | proceed => exact inv.callerStep room isStep

/-- The invariant holds in every run in which the inputs of the pipeline find room. -/
theorem Run.invariant (run : Run w modules inputs base HasRoom trace st) :
    Invariant w modules inputs base trace st := by
  induction run with
  | start initializes => exact Invariant.start initializes
  | step a _ room isStep ih => exact ih.step room isStep

theorem parentNotify_keyed (keyed : w.Keyed) {s : Source} {t : Interface}
    (edge : (s, t) ∈ w.edges) (isQueued : Wiring.queued (s, t) = true) :
    parentNotify w st t ≠ none := by
  cases t with
  | output g => exact Option.some_ne_none _
  | input i j =>
    have isQueue : j ∈ w.inputQueue (some i) :=
      w.mem_inputQueue.mpr ⟨s, .input i j, edge, isQueued, rfl, rfl⟩
    rw [parentNotify, if_pos ((keyed (some i)).symm.subset isQueue)]
    exact Option.some_ne_none _

theorem Invariant.workerStep_ne_failed (inv : Invariant w modules inputs base trace st)
    (keyed : w.Keyed) {i key : Nat} (inside : i < w.runtimes) :
    Tvm.Pipeline.workerStep w modules st i key ≠ .failed := by
  intro isFailed
  rw [Tvm.Pipeline.workerStep] at isFailed
  split at isFailed
  · split at isFailed
    · cases isFailed
    · cases isFailed
  · split at isFailed
    · cases isFailed
    · cases isFailed
  · rename_i key' notifys isPhase
    obtain ⟨⟨loaded, perm, -⟩, -⟩ := inv.thread inside isPhase
    have isKey : key' ∈ w.parentsNotify (some i) :=
      perm.symm.subset (List.mem_append_right _ List.mem_cons_self)
    rw [loadBindingData, if_pos ((keyed (some i)).subset isKey)] at isFailed
    split at isFailed
    · cases isFailed
    · rename_i polled
      exact inv.channels.poll_some polled
    · cases isFailed
  · split at isFailed
    · cases isFailed
    · cases isFailed
  · cases isFailed
  · split at isFailed
    · cases isFailed
    · cases isFailed
    · cases isFailed
  · rename_i t pending isPhase
    obtain ⟨-, o, member⟩ := inv.thread inside isPhase
    split at isFailed
    · cases isFailed
    · rename_i missing
      exact parentNotify_keyed keyed (w.module_mem_edges.mpr ⟨inside, member⟩) rfl missing

theorem Invariant.callerStep_ne_failed (inv : Invariant w modules inputs base trace st)
    (keyed : w.Keyed) : Tvm.Pipeline.callerStep w inputs st ≠ .failed := by
  intro isFailed
  rw [Tvm.Pipeline.callerStep] at isFailed
  split at isFailed
  · cases isFailed
  · cases isFailed
  · split at isFailed
    · cases isFailed
    · split at isFailed
      · cases isFailed
      · cases isFailed
      · cases isFailed
  · rename_i t g pending notifying
    have place := inv.caller
    rw [CallerAt, notifying] at place
    split at isFailed
    · cases isFailed
    · rename_i missing
      exact parentNotify_keyed keyed place.2.2.1 place.2.2.2 missing
  · cases isFailed
  · rename_i g pending outputs fetching
    have fetch := inv.fetch
    rw [fetching] at fetch
    obtain ⟨got, -, -, -, todo⟩ := fetch
    have nonempty := (todo g List.mem_cons_self).2
    obtain ⟨content, holds, -⟩ := inv.channels.queues (.output g)
    cases content with
    | nil =>
      rw [holds.empty_iff.mpr rfl] at nonempty
      cases nonempty
    | cons first rest =>
      obtain ⟨q, polled, -⟩ := holds.poll
      rw [polled] at isFailed
      cases isFailed

theorem Invariant.step_ne_failed (inv : Invariant w modules inputs base trace st)
    (keyed : w.Keyed) (a : Action) : Tvm.Pipeline.step w modules inputs st a ≠ .failed := by
  intro isFailed
  cases a with
  | worker i key =>
    rw [Tvm.Pipeline.step] at isFailed
    split at isFailed
    · rename_i inside
      exact inv.workerStep_ne_failed keyed inside isFailed
    · cases isFailed
  | setInput g =>
    rw [Tvm.Pipeline.step] at isFailed
    split at isFailed
    · cases isFailed
    · cases isFailed
  | run =>
    rw [Tvm.Pipeline.step] at isFailed
    split at isFailed
    · cases isFailed
    · cases isFailed
  | getOutput =>
    rw [Tvm.Pipeline.step] at isFailed
    split at isFailed
    · split at isFailed
      · cases isFailed
      · cases isFailed
    · cases isFailed
  | proceed => exact inv.callerStep_ne_failed keyed isFailed

/-- Counts that differ by what is under way. -/
def Within (behind ahead : Nat) : Prop :=
  behind ≤ ahead ∧ ahead ≤ behind + 1

variable (w modules inputs base) in
/-- Every set of outputs, every run and every queued tensor is that of its round, and nothing is
lost or doubled on the way. -/
structure Agrees (trace : List (Event α)) (st : State α) : Prop where
  outputs : ∀ k set, (obtained trace)[k]? = some set →
    set = (w.inputQueue none).map fun g => (g, w.sequential modules base (inputs k) (.output g))
  runs : ∀ i k found, (runsOf i trace)[k]? = some found →
    found = fun j => w.sequential modules base (inputs k) (.input i j)
  queued : ∀ t, ∃ content, (st.queue t).Holds content ∧ pushes t trace = polls t trace ++ content
  pushed : ∀ t k v, (pushes t trace)[k]? = some v → v = w.sequential modules base (inputs k) t
  polled : ∀ t k v, (polls t trace)[k]? = some v → v = w.sequential modules base (inputs k) t
  set : ∀ g i j, (Source.global g, Interface.input i j) ∈ w.edges → i ≠ 0 →
    Within (runsOf 0 trace).length (pushes (.input i j) trace).length
  loaded : ∀ i < w.runtimes, ∀ j ∈ w.inputQueue (some i),
    Within (runsOf i trace).length (polls (.input i j) trace).length
  forwarded : ∀ i o t, (Source.module i o, t) ∈ w.edges →
    Within (pushes t trace).length (runsOf i trace).length
  taken : ∀ g ∈ w.inputQueue none,
    Within (obtained trace).length (polls (.output g) trace).length

theorem within_self (n : Nat) : Within n n :=
  ⟨le_rfl, Nat.le_succ n⟩

theorem within_succ (n : Nat) : Within n (n + 1) :=
  ⟨Nat.le_succ n, le_rfl⟩

theorem LoadingAt.within {i j : Nat} {notifys : List Nat} {input : Interface → α}
    (loading : LoadingAt w modules inputs base trace input i notifys)
    (isQueue : j ∈ w.inputQueue (some i)) :
    Within (runsOf i trace).length (polls (.input i j) trace).length := by
  obtain ⟨⟨loaded, -, done, missing⟩, -⟩ := loading
  by_cases isLoaded : j ∈ loaded
  · rw [(done j isLoaded).2.1]
    exact within_succ _
  · rw [missing j isQueue isLoaded]
    exact within_self _

theorem ModuleAt.loaded {i j : Nat} {phase : Phase α} {input : Interface → α}
    (place : ModuleAt w modules inputs base trace input i phase)
    (isQueue : j ∈ w.inputQueue (some i)) :
    Within (runsOf i trace).length (polls (.input i j) trace).length := by
  have forwarding {pending : List (Interface × α)}
      (place : ForwardingAt w modules inputs base trace i pending) :
      Within (runsOf i trace).length (polls (.input i j) trace).length := by
    rw [place.1 j isQueue]
    exact within_self _
  cases phase with
  | loading notifys => exact LoadingAt.within place isQueue
  | polling key notifys => exact LoadingAt.within place isQueue
  | waiting key notifys => exact LoadingAt.within place isQueue
  | forwarding pending => exact forwarding place
  | notifying t pending => exact forwarding place.1

theorem ModuleAt.forwarded {i : Nat} {phase : Phase α} {input : Interface → α}
    (place : ModuleAt w modules inputs base trace input i phase) {t : Nat × Interface}
    (member : t ∈ w.targets i) :
    Within (pushes t.2 trace).length (runsOf i trace).length := by
  have loading {notifys : List Nat}
      (place : LoadingAt w modules inputs base trace input i notifys) :
      Within (pushes t.2 trace).length (runsOf i trace).length := by
    rw [place.2 t member]
    exact within_self _
  have forwarding {pending : List (Interface × α)}
      (place : ForwardingAt w modules inputs base trace i pending) :
      Within (pushes t.2 trace).length (runsOf i trace).length := by
    obtain ⟨-, sent, todo, split, -, done, missing⟩ := place
    rw [split] at member
    rcases List.mem_append.mp member with earlier | later
    · rw [done t earlier]
      exact within_self _
    · rw [← missing t later]
      exact within_succ _
  cases phase with
  | loading notifys => exact loading place
  | polling key notifys => exact loading place
  | waiting key notifys => exact loading place
  | forwarding pending => exact forwarding place
  | notifying t pending => exact forwarding place.1

theorem FetchAt.taken {queue : Interface → SPSCLockFreeQueue α} {caller : Caller α} {g : Nat}
    (fetch : FetchAt w modules inputs base trace queue caller) (member : g ∈ w.inputQueue none) :
    Within (obtained trace).length (polls (.output g) trace).length := by
  cases caller with
  | fetching pending outputs =>
    obtain ⟨got, split, -, done, todo⟩ := fetch
    rw [split] at member
    rcases List.mem_append.mp member with earlier | later
    · rw [done g earlier]
      exact within_succ _
    · rw [(todo g later).1]
      exact within_self _
  | idle =>
    rw [fetch g member]
    exact within_self _
  | setting g' pending =>
    rw [fetch g member]
    exact within_self _
  | notifying t g' pending =>
    rw [fetch g member]
    exact within_self _

theorem Invariant.agrees (inv : Invariant w modules inputs base trace st) :
    Agrees w modules inputs base trace st where
  outputs := inv.outputs
  runs := inv.ran
  queued := inv.channels.queues
  pushed := inv.channels.pushed
  polled := by
    intro t k v found
    obtain ⟨content, -, same⟩ := inv.channels.queues t
    apply inv.channels.pushed
    rw [same, List.getElem?_append_left (List.getElem?_eq_some_iff.mp found).1]
    exact found
  set := by
    intro g i j edge laterModule
    obtain ⟨isGlobal, child, member, isChild⟩ := w.global_mem_edges.mp edge
    obtain ⟨reached, split, done, todo⟩ := inv.globals g isGlobal
    obtain ⟨k, l⟩ := child
    cases isChild
    rw [← inv.round]
    rw [split] at member
    rcases List.mem_append.mp member with earlier | later
    · have count := done _ earlier
      rw [if_neg laterModule] at count
      rw [count]
      exact within_succ _
    · rw [todo _ later laterModule]
      exact within_self _
  loaded := fun i inside j isQueue => (inv.threads i inside).loaded isQueue
  forwarded := by
    intro i o t edge
    obtain ⟨inside, member⟩ := w.module_mem_edges.mp edge
    exact (inv.threads i inside).forwarded member
  taken := fun g member => inv.fetch.taken member

/-- The executor agrees with the modules run in order, in every run in which an input of the pipeline
finds room in its queue; where the notifications of the modules have the indices of their queues, no
check fails in such a run. -/
theorem executor_agrees (run : Run w modules inputs base HasRoom trace st) :
    Agrees w modules inputs base trace st ∧
      (w.Keyed → ∀ a, step w modules inputs st a ≠ .failed) :=
  ⟨run.invariant.agrees, fun keyed a => run.invariant.step_ne_failed keyed a⟩

end Agreement

/-- The second module has an output of the first one and an input of the pipeline. -/
def twoModules : Wiring where
  runtimes := 2
  globalInputs := 2
  globalChildren := fun g => if g = 0 then [(0, 0)] else [(1, 1)]
  children := fun i => if i = 0 then [(0, [.input 1 0])] else [(0, [.output 0])]
  nonempty := by decide
  inside := by
    intro g i j edge
    have cases_of : (Source.global g, Interface.input i j) ∈
        [(Source.global 0, Interface.input 0 0), (.global 1, .input 1 1),
          (.module 0 0, .input 1 0), (.module 1 0, .output 0)] := edge
    simp at cases_of
    omega
  forward := by
    intro i o j k edge
    have cases_of : (Source.module i o, Interface.input j k) ∈
        [(Source.global 0, Interface.input 0 0), (.global 1, .input 1 1),
          (.module 0 0, .input 1 0), (.module 1 0, .output 0)] := edge
    simp at cases_of
    omega
  fedOnce := by decide

/-- Modules that add their two inputs. -/
def sums (_ : Nat) (found : Nat → Nat) (_ : Nat) : Nat :=
  found 0 + found 1

def numbered (k _ : Nat) : Nat :=
  k

theorem twoModules_parentsNotify (owner : Option Nat) :
    twoModules.parentsNotify owner = twoModules.inputQueue owner := by
  apply List.map_congr_left
  rintro ⟨s, t⟩ member
  obtain ⟨edge, isQueued, -⟩ := twoModules.mem_feeds.mp member
  have cases_of : (s, t) ∈ [(Source.global 0, Interface.input 0 0), (.global 1, .input 1 1),
      (.module 0 0, .input 1 0), (.module 1 0, .output 0)] := edge
  simp only [List.mem_cons, Prod.mk.injEq, List.not_mem_nil, or_false] at cases_of
  rcases cases_of with ⟨rfl, rfl⟩ | ⟨rfl, rfl⟩ | ⟨rfl, rfl⟩ | ⟨rfl, rfl⟩ <;> rfl

theorem twoModules_initializes : twoModules.Initializes := by
  intro owner
  rw [twoModules_parentsNotify]
  exact twoModules.inputQueue_nodup owner

/-- The caller has set the second input of the pipeline. -/
theorem executor_agrees_set : ∃ st,
    Agrees twoModules sums numbered (fun _ => 0) [.pushed (.input 1 1) 0] st ∧
      (twoModules.Keyed → ∀ a, step twoModules sums numbered st a ≠ .failed) := by
  have started : Run twoModules sums numbered (fun _ => 0) HasRoom [] _ :=
    Run.start twoModules_initializes
  have ready : (State.start twoModules fun _ => 0).Ready ∧ 1 ∈ [0, 1] :=
    ⟨trivial, by decide⟩
  have begins : step twoModules sums numbered (State.start twoModules fun _ => 0) (.setInput 1) =
      .next none { State.start twoModules fun _ => 0 with
        caller := .setting 1 [(1, 1)], unset := [0] } := by
    rw [step]
    exact if_pos ready
  have called := started.step _ (fun isCall => by cases isCall) begins
  obtain ⟨q, pushed, -⟩ := SPSCLockFreeQueue.holds_new.push rfl 0
  have proceeds : step twoModules sums numbered { State.start twoModules fun _ => 0 with
        caller := .setting 1 [(1, 1)], unset := [0] } .proceed =
      .next (some (.pushed (.input 1 1) 0))
        { State.setQueue { State.start twoModules fun _ => 0 with
            caller := .setting 1 [(1, 1)], unset := [0] } (.input 1 1) q with
          caller := .notifying (.input 1 1) 1 [] } := by
    rw [step, callerStep]
    simp only [forwardData, numbered, State.start, pushed, one_ne_zero, if_false]
  refine ⟨_, executor_agrees (called.step .proceed (fun _ g i j pending setting _ => ?_) proceeds)⟩
  cases setting
  rfl

end Tvm.Pipeline
