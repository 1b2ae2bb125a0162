import Tvm.Pipeline.ExecutorAgreement

/-!
# An input of the pipeline that is dropped

`PipelineIsStop` of the global runtime is always true, so `SetPipelineInput` gives up where the queue
of a module is full.  The next input is then queued in its place and meets the tensors of another
round.
-/

namespace Tvm.Pipeline

/-- A run has come here: the places of the two modules and of the caller, what is to be set in which
round, what the two queues of the second module hold and what has been pushed into the second. -/
def Reaches (first second : Phase Nat) (caller : Caller Nat) (unset : List Nat) (round : Nat)
    (outputs others sent : List Nat) : Prop :=
  ∃ trace st, Run twoModules sums numbered (fun _ => 0) (fun _ _ => True) trace st ∧
    st.phase 0 = first ∧ st.phase 1 = second ∧ st.caller = caller ∧ st.unset = unset ∧
    st.round = round ∧ (st.queue (.input 1 0)).Holds outputs ∧
    (st.queue (.input 1 1)).Holds others ∧ pushes (.input 1 1) trace = sent

section Steps

variable {first second : Phase Nat} {caller : Caller Nat} {unset : List Nat} {round data : Nat}
  {outputs others sent notifys rest : List Nat} {g key : Nat}

theorem Reaches.start :
    Reaches (.loading []) (.loading [1, 0]) .idle [0, 1] 0 [] [] [] := by
  refine ⟨[], _, Run.start twoModules_initializes, rfl, rfl, rfl, rfl, rfl, ?_, ?_, rfl⟩
  · exact SPSCLockFreeQueue.holds_new
  · exact SPSCLockFreeQueue.holds_new

/-- A step of the caller that leaves the queues and the modules as they are. -/
theorem Reaches.silent (action : Action) {caller' : Caller Nat} {unset' : List Nat}
    (reaches : Reaches first second caller unset round outputs others sent)
    (moves : ∀ st : State Nat, st.phase 0 = first → st.caller = caller → st.unset = unset →
      (st.queue (.input 1 1)).Holds others → ∃ after,
        step twoModules sums numbered st action = .next none after ∧ after.phase = st.phase ∧
          after.queue = st.queue ∧ after.caller = caller' ∧ after.unset = unset' ∧
          after.round = st.round) :
    Reaches first second caller' unset' round outputs others sent := by
  obtain ⟨trace, st, run, isFirst, isSecond, isCaller, isUnset, rfl, holds, holds', isSent⟩ := reaches
  obtain ⟨after, isStep, phase, queue, caller, unset, round⟩ :=
    moves st isFirst isCaller isUnset holds'
  refine ⟨_, after, run.step _ trivial isStep, phase ▸ isFirst, phase ▸ isSecond, caller, unset, round,
    queue ▸ holds, queue ▸ holds', ?_⟩
  rw [Option.toList_none, List.append_nil]
  exact isSent

theorem Reaches.setInput
    (reaches : Reaches (.loading []) second .idle unset round outputs others sent)
    (member : g ∈ unset) :
    Reaches (.loading []) second (.setting g (twoModules.globalChildren g)) (unset.erase g) round
      outputs others sent := by
  refine reaches.silent (.setInput g) fun st isFirst isCaller isUnset _ => ?_
  have ready : st.Ready := by
    rw [State.Ready, isCaller, isFirst]
    trivial
  exact ⟨_, if_pos ⟨ready, isUnset ▸ member⟩, rfl, rfl, rfl, isUnset ▸ rfl, rfl⟩

theorem Reaches.assign {pending : List (Nat × Nat)} {j : Nat}
    (reaches : Reaches first second (.setting g ((0, j) :: pending)) unset round outputs others
      sent) :
    Reaches first second (.setting g pending) unset round outputs others sent := by
  refine reaches.silent .proceed fun st _ isCaller isUnset _ =>
    ⟨{ st.setInput (.input 0 j) (numbered st.round g) with caller := .setting g pending }, ?_,
      rfl, rfl, rfl, isUnset, rfl⟩
  rw [step, callerStep, isCaller]
  rfl

theorem Reaches.endSet
    (reaches : Reaches first second (.setting g []) unset round outputs others sent) :
    Reaches first second .idle unset round outputs others sent := by
  refine reaches.silent .proceed fun st _ isCaller isUnset _ =>
    ⟨{ st with caller := .idle }, ?_, rfl, rfl, rfl, isUnset, rfl⟩
  rw [step, callerStep, isCaller]

theorem Reaches.pushInput (room : others.length + 1 < queueLength)
    (reaches : Reaches first second (.setting 1 [(1, 1)]) unset round outputs others sent) :
    Reaches first second (.notifying (.input 1 1) 1 []) unset round outputs (others ++ [round])
      (sent ++ [round]) := by
  obtain ⟨trace, st, run, isFirst, isSecond, isCaller, rfl, rfl, holds, holds', isSent⟩ := reaches
  have notFull : (st.queue (.input 1 1)).full = false := by
    rw [← Bool.not_eq_true, holds'.full_iff]
    exact room.ne
  obtain ⟨next, pushed, holdsNext⟩ := holds'.push notFull st.round
  have isStep : step twoModules sums numbered st .proceed =
      .next (some (.pushed (.input 1 1) st.round))
        { st.setQueue (.input 1 1) next with caller := .notifying (.input 1 1) 1 [] } := by
    rw [step, callerStep, isCaller]
    simp only [forwardData, numbered, pushed, one_ne_zero, if_false]
  refine ⟨_, _, run.step _ trivial isStep, isFirst, isSecond, rfl, rfl, rfl, ?_, ?_, ?_⟩
  · have other : Interface.input 1 0 ≠ .input 1 1 := by decide
    change (Function.update st.queue (.input 1 1) next (.input 1 0)).Holds outputs
    rwa [Function.update_of_ne other]
  · change (Function.update st.queue (.input 1 1) next (.input 1 1)).Holds _
    rwa [Function.update_self]
  · rw [Option.toList_some, pushes_pushed, if_pos rfl, isSent]

theorem Reaches.drop (full : others.length + 1 = queueLength)
    (reaches : Reaches first second (.setting 1 [(1, 1)]) unset round outputs others sent) :
    Reaches first second .idle unset round outputs others sent := by
  refine reaches.silent .proceed fun st _ isCaller isUnset holds' =>
    ⟨{ st with caller := .idle }, ?_, rfl, rfl, rfl, isUnset, rfl⟩
  have notPushed : (st.queue (.input 1 1)).push st.round = none :=
    if_pos (holds'.full_iff.mpr full)
  rw [step, callerStep, isCaller]
  simp only [forwardData, numbered, notPushed, one_ne_zero, if_false, pipelineState,
    PipelineState.isStop, if_true]

theorem Reaches.endNotify
    (reaches : Reaches first second (.notifying (.input 1 1) 1 []) unset round outputs others
      sent) :
    Reaches first second (.setting 1 []) unset round outputs others sent := by
  refine reaches.silent .proceed fun st _ isCaller isUnset _ =>
    ⟨{ st.setReady (.input 1 1) true with caller := .setting 1 [] }, ?_, rfl, rfl, rfl, isUnset, rfl⟩
  rw [step, callerStep, isCaller]
  rfl

theorem Reaches.run
    (reaches : Reaches (.loading []) second .idle [] round outputs others sent) :
    ∃ data, Reaches (.forwarding [(.input 1 0, data)]) second .idle [0, 1] (round + 1) outputs others
      sent := by
  obtain ⟨trace, st, run, isFirst, isSecond, isCaller, isUnset, rfl, holds, holds', isSent⟩ := reaches
  have ready : st.Ready := by
    rw [State.Ready, isCaller, isFirst]
    trivial
  have isStep : step twoModules sums numbered st .run =
      runRuntime twoModules sums { st with unset := [0, 1], round := st.round + 1 } 0 :=
    if_pos ⟨ready, isUnset⟩
  refine ⟨sums 0 (fun j => st.input (.input 0 j)) 0, _, _, run.step _ trivial (isStep.trans rfl),
    rfl, isSecond, isCaller, rfl, rfl, holds, holds', ?_⟩
  · rw [Option.toList_some, pushes_ran]
    exact isSent

theorem Reaches.forward (room : outputs.length + 1 < queueLength)
    (reaches : Reaches (.forwarding [(.input 1 0, data)]) second caller unset round outputs others
      sent) :
    Reaches (.loading []) second caller unset round (outputs ++ [data]) others sent := by
  obtain ⟨trace, st, run, isFirst, isSecond, rfl, rfl, rfl, holds, holds', isSent⟩ := reaches
  have notFull : (st.queue (.input 1 0)).full = false := by
    rw [← Bool.not_eq_true, holds.full_iff]
    exact room.ne
  obtain ⟨next, pushed, holdsNext⟩ := holds.push notFull data
  have isPush : step twoModules sums numbered st (.worker 0 0) =
      .next (some (.pushed (.input 1 0) data))
        ((st.setQueue (.input 1 0) next).setPhase 0 (.notifying (.input 1 0) [])) := by
    change workerStep twoModules sums st 0 0 = _
    rw [workerStep, isFirst]
    simp only [forwardData, pushed]
  have isNotify : step twoModules sums numbered
      ((st.setQueue (.input 1 0) next).setPhase 0 (.notifying (.input 1 0) [])) (.worker 0 0) =
      .next none ((((st.setQueue (.input 1 0) next).setPhase 0
        (.notifying (.input 1 0) [])).setReady (.input 1 0) true).setPhase 0 (.forwarding [])) :=
    rfl
  have isEnd : step twoModules sums numbered
      ((((st.setQueue (.input 1 0) next).setPhase 0
        (.notifying (.input 1 0) [])).setReady (.input 1 0) true).setPhase 0 (.forwarding []))
      (.worker 0 0) =
      .next none (((((st.setQueue (.input 1 0) next).setPhase 0
        (.notifying (.input 1 0) [])).setReady (.input 1 0) true).setPhase 0
        (.forwarding [])).setPhase 0 (.loading [])) :=
    rfl
  have run' := ((run.step _ trivial isPush).step _ trivial isNotify).step _ trivial isEnd
  refine ⟨_, _, run', rfl, ?_, rfl, rfl, rfl, ?_, ?_, ?_⟩
  · exact isSecond
  · change (Function.update st.queue (.input 1 0) next (.input 1 0)).Holds _
    rwa [Function.update_self]
  · have other : Interface.input 1 1 ≠ .input 1 0 := by decide
    change (Function.update st.queue (.input 1 0) next (.input 1 1)).Holds _
    rwa [Function.update_of_ne other]
  · have other : Interface.input 1 0 ≠ .input 1 1 := by decide
    rw [Option.toList_none, List.append_nil, List.append_nil, Option.toList_some, pushes_pushed,
      if_neg other, isSent]

theorem Reaches.loadOutput
    (reaches : Reaches first (.loading [1, 0]) caller unset round (data :: rest) others sent) :
    Reaches first (.loading [1]) caller unset round rest others sent := by
  obtain ⟨trace, st, run, isFirst, isSecond, rfl, rfl, rfl, holds, holds', isSent⟩ := reaches
  have isChoice : step twoModules sums numbered st (.worker 1 0) =
      .next none (st.setPhase 1 (.polling 0 [1])) := by
    change workerStep twoModules sums st 1 0 = _
    rw [workerStep, isSecond]
    rfl
  obtain ⟨next, polled, holdsNext⟩ := holds.poll
  have isPoll : step twoModules sums numbered (st.setPhase 1 (.polling 0 [1])) (.worker 1 0) =
      .next (some (.polled (.input 1 0) data))
        ((((st.setPhase 1 (.polling 0 [1])).setQueue (.input 1 0) next).setInput (.input 1 0)
          data).setPhase 1 (.loading [1])) := by
    change loadBindingData twoModules (st.setPhase 1 (.polling 0 [1])) 1 0 [1] = _
    rw [loadBindingData, if_pos (by decide)]
    simp only [State.setPhase, polled]
  have run' := (run.step _ trivial isChoice).step _ trivial isPoll
  refine ⟨_, _, run', isFirst, rfl, rfl, rfl, rfl, ?_, ?_, ?_⟩
  · change (Function.update st.queue (.input 1 0) next (.input 1 0)).Holds rest
    rwa [Function.update_self]
  · have other : Interface.input 1 1 ≠ .input 1 0 := by decide
    change (Function.update st.queue (.input 1 0) next (.input 1 1)).Holds others
    rwa [Function.update_of_ne other]
  · rw [Option.toList_none, List.append_nil, Option.toList_some, pushes_polled, isSent]

theorem Reaches.loadOther
    (reaches : Reaches first (.loading [1]) caller unset round outputs (data :: rest) sent) :
    Reaches first (.loading []) caller unset round outputs rest sent := by
  obtain ⟨trace, st, run, isFirst, isSecond, rfl, rfl, rfl, holds, holds', isSent⟩ := reaches
  have isChoice : step twoModules sums numbered st (.worker 1 1) =
      .next none (st.setPhase 1 (.polling 1 [])) := by
    change workerStep twoModules sums st 1 1 = _
    rw [workerStep, isSecond]
    rfl
  obtain ⟨next, polled, holdsNext⟩ := holds'.poll
  have isPoll : step twoModules sums numbered (st.setPhase 1 (.polling 1 [])) (.worker 1 0) =
      .next (some (.polled (.input 1 1) data))
        ((((st.setPhase 1 (.polling 1 [])).setQueue (.input 1 1) next).setInput (.input 1 1)
          data).setPhase 1 (.loading [])) := by
    change loadBindingData twoModules (st.setPhase 1 (.polling 1 [])) 1 1 [] = _
    rw [loadBindingData, if_pos (by decide)]
    simp only [State.setPhase, polled]
  have run' := (run.step _ trivial isChoice).step _ trivial isPoll
  refine ⟨_, _, run', isFirst, rfl, rfl, rfl, rfl, ?_, ?_, ?_⟩
  · have other : Interface.input 1 0 ≠ .input 1 1 := by decide
    change (Function.update st.queue (.input 1 1) next (.input 1 0)).Holds outputs
    rwa [Function.update_of_ne other]
  · change (Function.update st.queue (.input 1 1) next (.input 1 1)).Holds rest
    rwa [Function.update_self]
  · rw [Option.toList_none, List.append_nil, Option.toList_some, pushes_polled, isSent]

theorem Reaches.setBoth (room : others.length + 1 < queueLength)
    (reaches : Reaches (.loading []) second .idle [0, 1] round outputs others sent) :
    Reaches (.loading []) second .idle [] round outputs (others ++ [round]) (sent ++ [round]) := by
  have firstSet := ((reaches.setInput (g := 0) (by simp)).assign).endSet
  have pushed := (firstSet.setInput (g := 1) (by decide)).pushInput room
  exact pushed.endNotify.endSet

theorem Reaches.setBoth_drop (full : others.length + 1 = queueLength)
    (reaches : Reaches (.loading []) second .idle [0, 1] round outputs others sent) :
    Reaches (.loading []) second .idle [] round outputs others sent := by
  have firstSet := ((reaches.setInput (g := 0) (by simp)).assign).endSet
  exact (firstSet.setInput (g := 1) (by decide)).drop full

end Steps

theorem reaches_round (round : Nat) (room : round < queueLength) :
    ∃ outputs others sent, outputs.length = round ∧ others.length = round ∧ sent.length = round ∧
      Reaches (.loading []) (.loading [1, 0]) .idle [0, 1] round outputs others sent := by
  induction round with
  | zero => exact ⟨[], [], [], rfl, rfl, rfl, Reaches.start⟩
  | succ round ih =>
    obtain ⟨outputs, others, sent, first, second, third, reaches⟩ :=
      ih (by omega)
    obtain ⟨data, ran⟩ := (reaches.setBoth (by omega)).run
    refine ⟨outputs ++ [data], others ++ [round], sent ++ [round], ?_, ?_, ?_,
      ran.forward (by omega)⟩
    · rw [List.length_append, first]
      rfl
    · rw [List.length_append, second]
      rfl
    · rw [List.length_append, third]
      rfl

/-- The 1024th input is dropped, and the 1025th takes its place in the queue. -/
theorem executor_drops_input :
    ¬∀ (trace : List (Event Nat)) (st : State Nat),
      Run twoModules sums numbered (fun _ => 0) (fun _ _ => True) trace st →
      Agrees twoModules sums numbered (fun _ => 0) trace st := by
  intro agree
  obtain ⟨outputs, others, sent, first, second, third, reaches⟩ := reaches_round 1023 (by decide)
  obtain ⟨data, ran⟩ := (reaches.setBoth_drop (by rw [second]; rfl)).run
  obtain ⟨output, laterOutputs, rfl⟩ := List.exists_cons_of_length_pos (by omega : 0 < outputs.length)
  obtain ⟨other, laterOthers, rfl⟩ := List.exists_cons_of_length_pos (by omega : 0 < others.length)
  rw [List.length_cons] at first second
  have loaded := (ran.loadOutput).loadOther
  have forwarded := loaded.forward (by rw [Nat.succ.inj first]; decide)
  obtain ⟨trace, st, run, -, -, -, -, -, -, -, isSent⟩ :=
    forwarded.setBoth (by rw [Nat.succ.inj second]; decide)
  have edge : (Source.global 1, Interface.input 1 1) ∈ twoModules.edges := by decide
  have wrong := (agree trace st run).pushed (.input 1 1) 1023 1024 (by
    rw [isSent, List.getElem?_append_right third.le, third]
    rfl)
  rw [twoModules.sequential_global edge] at wrong
  cases wrong

end Tvm.Pipeline
