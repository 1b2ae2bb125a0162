import Tvm.Rpc.EndpointChunks

/-!
# Chunks and callbacks

Whatever the pieces and whenever the callbacks come, the handler stays at a stage of the run in
which every packet is handed over whole and answered at once.  It does not reach the end of
that run if it is left waiting with packets in its buffer: the callback does not wake it up.
-/

namespace Tvm.RpcEndpoint

open Tvm.Lib EventHandler

def Event.bytes : Event → Bytes
  | .io inBytes _ => inBytes
  | .callback => []

def Event.quiet (event : Event) : Bool := event.bytes = []

def fed (events : List Event) : Bytes := events.flatMap Event.bytes

variable {ω : Type} {host : Host ω} {goal : Goal ω} {timing : Timing} {handler : EventHandler ω}
  {future : Bytes} {bodies : List Bytes}

theorem Event.quiet_cases {event : Event} (quiet : event.quiet = true) :
    event = .callback ∨ ∃ eventFlag, event = .io [] eventFlag := by
  cases event with
  | callback => exact .inl rfl
  | io inBytes eventFlag =>
    obtain rfl : inBytes = [] := of_decide_eq_true quiet
    exact .inr ⟨eventFlag, rfl⟩

theorem run_append (handler : EventHandler ω) (first second : List Event) :
    handler.run host timing (first ++ second) =
      (handler.run host timing first).bind fun middle => middle.run host timing second := by
  rw [EventHandler.run, List.foldlM_append]
  rfl

theorem run_concat (handler : EventHandler ω) (events : List Event) (event : Event) :
    handler.run host timing (events ++ [event]) =
      (handler.run host timing events).bind fun middle => middle.event host timing event := by
  rw [run_append]
  congr 1
  funext middle
  rw [EventHandler.run, List.foldlM_cons]
  exact bind_pure _

theorem fed_concat (events : List Event) (event : Event) :
    fed (events ++ [event]) = fed events ++ event.bytes := by
  rw [fed, List.flatMap_append, List.flatMap_cons, List.flatMap_nil, List.append_nil]
  rfl

theorem Stage.event {event : Event} (stage : Stage host goal handler (event.bytes ++ future))
    (timing : Timing) :
    ∃ after, handler.event host timing event = some after ∧ Stage host goal after future := by
  cases quiet : event.quiet with
  | true =>
    have none : event.bytes = [] := of_decide_eq_true quiet
    rw [none, List.nil_append] at stage
    obtain ⟨after, done, later, -⟩ := stage.quiet timing (Event.quiet_cases quiet)
    exact ⟨after, done, later⟩
  | false =>
    cases event with
    | callback => cases quiet
    | io inBytes eventFlag =>
      obtain ⟨after, done, later, -⟩ := stage.io timing (of_decide_eq_false quiet) eventFlag
      exact ⟨after, done, later⟩

theorem Stage.run {events : List Event} (stage : Stage host goal handler (fed events ++ future))
    (timing : Timing) :
    ∃ after, handler.run host timing events = some after ∧ Stage host goal after future := by
  induction events generalizing handler with
  | nil => exact ⟨handler, rfl, stage⟩
  | cons event events ih =>
    rw [fed, List.flatMap_cons, List.append_assoc] at stage
    obtain ⟨middle, done, later⟩ := stage.event timing
    obtain ⟨after, ran, final⟩ := ih later
    refine ⟨after, ?_, final⟩
    rw [EventHandler.run, List.foldlM_cons, done]
    exact ran

/-- Where everything has come, a handler that has nothing to do waits or has read
everything. -/
theorem Stage.settled (stage : Stage host goal handler []) (settled : Settled handler) :
    handler.state = .waitForAsyncCallback ∨
      handler.reader = [] ∧ handler.outstanding = none ∧
        (handler.state = .recvPacketNumBytes ∨ handler.state = .shutdownReceived) := by
  have unready : ∀ {bytes : Bytes}, handler.state ≠ .waitForAsyncCallback →
      handler.state ≠ .shutdownReceived → handler.reader ++ [] = bytes →
      bytes.length < handler.pendingRequestBytes := by
    intro bytes active running unread
    have idle := (settled.resolve_left active).resolve_left running
    rw [List.append_nil] at unread
    rw [← unread]
    exact Nat.lt_of_not_le fun enough => by
      rw [(ready_iff handler).mpr enough] at idle
      cases idle
  cases stage with
  | headerLength state _ requested _ unread =>
    have short := unready (by rw [state]; decide) (by rw [state]; decide) unread
    rw [requested, List.length_append, Layout.encode_length] at short
    exact absurd short (Nat.not_lt.mpr (Nat.le_add_right _ _))
  | headerKey state _ requested _ _ unread =>
    have short := unready (by rw [state]; decide) (by rw [state]; decide) unread
    rw [requested, List.length_append] at short
    exact absurd short (Nat.not_lt.mpr (Nat.le_add_right _ _))
  | @numBytes bodies state requested idle unread =>
    have short := unready (by rw [state]; decide) (by rw [state]; decide) unread
    cases bodies with
    | nil =>
      rw [List.append_nil] at unread
      exact .inr ⟨unread, idle, .inl state⟩
    | cons body bodies =>
      rw [requested, packets, List.flatMap_cons, packet, List.length_append, List.length_append,
        Layout.encode_length] at short
      exact absurd short (Nat.not_lt.mpr (le_trans (Nat.le_add_right _ _) (Nat.le_add_right _ _)))
  | process state requested _ _ unread =>
    have short := unready (by rw [state]; decide) (by rw [state]; decide) unread
    rw [requested, List.length_append] at short
    exact absurd short (Nat.not_lt.mpr (Nat.le_add_right _ _))
  | waiting state => exact .inl state
  | closed state _ idle unread =>
    rw [List.append_nil] at unread
    exact .inr ⟨unread, idle, .inr state⟩

theorem packets_eq_nil (none : packets bodies = []) : bodies = [] := by
  cases bodies with
  | nil => rfl
  | cons body bodies =>
    have long := congrArg List.length none
    rw [packets, List.flatMap_cons, packet, List.length_append, List.length_append,
      Layout.encode_length] at long
    have width : Layout.u64.size = 8 := rfl
    rw [width, List.length_nil] at long
    omega

theorem servesAll_nil {server after : Server ω} {replies : Bytes} {shut : Bool}
    (serves : ServesAll host server [] after replies shut) :
    after = server ∧ replies = [] ∧ shut = false := by
  cases serves with
  | nil => exact ⟨rfl, rfl, rfl⟩

/-- What a run that is over has come to. -/
structure Reaches (goal : Goal ω) (handler : EventHandler ω) : Prop where
  reader : handler.reader = []
  server : handler.server = goal.server
  out : handler.out = goal.out
  remoteKey : handler.remoteKey = goal.remoteKey
  shut : handler.state = .shutdownReceived ↔ goal.shut = true

theorem Stage.reaches (stage : Stage host goal handler []) (idle : handler.outstanding = none)
    (read : handler.reader = [])
    (state : handler.state = .waitForAsyncCallback ∨ handler.state = .recvPacketNumBytes ∨
      handler.state = .shutdownReceived) : Reaches goal handler := by
  cases stage with
  | headerLength other => rw [other] at state; simp at state
  | headerKey other => rw [other] at state; simp at state
  | process other => rw [other] at state; simp at state
  | waiting _ _ called => rw [idle] at called; cases called
  | @numBytes bodies entered _ _ unread named left =>
    rw [read, List.append_nil] at unread
    obtain rfl := packets_eq_nil unread.symm
    obtain ⟨-, replies, serves, total⟩ := left
    obtain ⟨served, rfl, running⟩ := servesAll_nil serves
    rw [List.append_nil] at total
    exact ⟨read, served.symm, total, named, by simp [entered, running]⟩
  | closed entered _ _ _ named served written shut =>
    exact ⟨read, served, written, named, by simp [entered, shut]⟩

theorem Stage.last {events : List Event} (stage : Stage host goal handler (fed events))
    (timing : Timing) (unready : handler.ready = false) :
    ∃ last final, handler.run host timing (events.rdropWhile Event.quiet) = some last ∧
      handler.run host timing events = some final ∧ Stage host goal last [] ∧ Settled last ∧
        Stage host goal final [] ∧ final.reader = last.reader ∧
          (final.state = last.state ∨ final.state = .recvPacketNumBytes) := by
  induction events using List.reverseRecOn with
  | nil => exact ⟨handler, handler, rfl, rfl, stage, .inr (.inr unready), stage, rfl, .inl rfl⟩
  | append_singleton events event ih =>
    rw [fed_concat] at stage
    cases quiet : event.quiet with
    | true =>
      have none : event.bytes = [] := of_decide_eq_true quiet
      rw [none, List.append_nil] at stage
      obtain ⟨last, middle, dropped, ran, lastStage, settled, later, reader, state⟩ := ih stage
      obtain ⟨final, done, finalStage, same, entered⟩ :=
        later.quiet timing (Event.quiet_cases quiet)
      refine ⟨last, final, ?_, ?_, lastStage, settled, finalStage, same.trans reader, ?_⟩
      · rw [List.rdropWhile_concat_pos _ _ _ quiet]
        exact dropped
      · rw [run_concat, ran, Option.bind_some, done]
      · rcases entered with unchanged | entered
        · rw [unchanged]
          exact state
        · exact .inr entered
    | false =>
      obtain ⟨middle, ran, later⟩ := stage.run timing
      have loud : ¬event.quiet = true := by simp [quiet]
      cases event with
      | callback => cases quiet
      | io inBytes eventFlag =>
        change Stage host goal middle inBytes at later
        rw [← List.append_nil inBytes] at later
        obtain ⟨final, done, finalStage, settled⟩ :=
          later.io timing (of_decide_eq_false quiet) eventFlag
        have whole : handler.run host timing (events ++ [.io inBytes eventFlag]) = some final := by
          rw [run_concat, ran, Option.bind_some, done]
        refine ⟨final, final, ?_, whole, finalStage, settled, finalStage, rfl, .inl rfl⟩
        rw [List.rdropWhile_concat_neg _ _ _ loud]
        exact whole

/-- The run comes to its end unless it is left waiting with packets in the buffer, and then it
has not read them. -/
theorem Stage.reaches_or_unread {events : List Event}
    (stage : Stage host goal handler (fed events)) (timing : Timing)
    (unready : handler.ready = false) :
    ∃ last final, handler.run host timing (events.rdropWhile Event.quiet) = some last ∧
      handler.run host timing events = some final ∧ (final.outstanding = none →
        (final.reader = [] → ¬(last.outstanding ≠ none ∧ last.reader ≠ [])) ∧
          (¬(last.outstanding ≠ none ∧ last.reader ≠ []) → Reaches goal final)) := by
  obtain ⟨last, final, dropped, ran, lastStage, settled, finalStage, reader, state⟩ :=
    stage.last timing unready
  refine ⟨last, final, dropped, ran, fun returned => ⟨?_, ?_⟩⟩
  · rintro read ⟨-, unread⟩
    exact unread (reader.symm.trans read)
  · intro awake
    have cases := lastStage.settled settled
    have read : last.reader = [] := by
      rcases cases with waits | ⟨read, -⟩
      · by_contra unread
        refine awake ⟨?_, unread⟩
        cases lastStage with
        | waiting _ _ called => rw [called]; exact Option.some_ne_none _
        | headerLength other => rw [other] at waits; cases waits
        | headerKey other => rw [other] at waits; cases waits
        | numBytes other => rw [other] at waits; cases waits
        | process other => rw [other] at waits; cases waits
        | closed other => rw [other] at waits; cases waits
      · exact read
    refine finalStage.reaches returned (reader.trans read) ?_
    rcases state with same | entered
    · rw [same]
      exact cases.imp_right fun done => done.2.2
    · exact .inr (.inl entered)

theorem switchToState_some {state : State} {after : EventHandler ω}
    (done : handler.switchToState timing state = some after) :
    after.state = state ∧ (state ≠ .copyAckReceived → handler.pendingRequestBytes = 0) ∧
      (state ≠ .recvPacketNumBytes → after.pendingRequestBytes = handler.pendingRequestBytes) ∧
        after.reader = handler.reader := by
  unfold switchToState at done
  split at done
  · cases done
  next clean =>
    obtain ⟨flushed, same, pending, reader⟩ : ∃ flushed : EventHandler ω,
        (if handler.state = .waitForAsyncCallback then
          flushWriter timing handler.writer.length handler else handler) = flushed ∧
          flushed.pendingRequestBytes = handler.pendingRequestBytes ∧
            flushed.reader = handler.reader := by
      refine ⟨_, rfl, ?_⟩
      split
      · obtain ⟨sent, writer, sends, flushed, -⟩ :=
          flushWriter_output timing handler.writer.length handler
        rw [flushed]
        exact ⟨rfl, rfl⟩
      · exact ⟨rfl, rfl⟩
    simp only [same] at done
    have unrequested : state ≠ .copyAckReceived → handler.pendingRequestBytes = 0 :=
      fun other => by_contra fun unclean => clean ⟨other, unclean⟩
    split at done
    · cases done
    · split at done
      next entered =>
        obtain rfl := Option.some.inj done
        exact ⟨rfl, unrequested, fun other => absurd entered other, reader⟩
      next other =>
        obtain rfl := Option.some.inj done
        exact ⟨rfl, unrequested, fun _ => pending, reader⟩

theorem complete_some {completion : Completion} {after : EventHandler ω}
    (done : handler.complete timing completion = some after) :
    after.state = .recvPacketNumBytes ∧ ∃ reply, completion.reply = some reply := by
  rw [EventHandler.complete, Option.bind_eq_bind, Option.bind_eq_some_iff] at done
  obtain ⟨reply, replies, switched⟩ := done
  exact ⟨(switchToState_some switched).1, reply, replies⟩

/-- What an answer that is given at once has come to. -/
inductive Answered (handler : EventHandler ω) : Answer → EventHandler ω → Prop
  | replied {answer : Answer} {reply : Bytes} {after : EventHandler ω}
      (clean : handler.pendingRequestBytes = 0) (replies : answer.Replies reply)
      (state : after.state = .recvPacketNumBytes) : Answered handler answer after
  | returnReceived {after : EventHandler ω} (state : after.state = .returnReceived)
      (same : after.pendingRequestBytes = handler.pendingRequestBytes)
      (unread : after.reader = handler.reader) : Answered handler .returnReceived after
  | copyAckReceived {after : EventHandler ω} (state : after.state = .copyAckReceived)
      (same : after.pendingRequestBytes = handler.pendingRequestBytes)
      (unread : after.reader = handler.reader) : Answered handler .copyAckReceived after
  | shutdownReceived {after : EventHandler ω} (clean : handler.pendingRequestBytes = 0)
      (state : after.state = .shutdownReceived) : Answered handler .shutdownReceived after

theorem answered_of_prompt (prompt : ∀ call, timing.late call = false) {answer : Answer}
    {after : EventHandler ω} (done : handler.answer timing answer = some after) :
    Answered handler answer after := by
  cases answer with
  | replied reply =>
    obtain ⟨state, clean, -⟩ := switchToState_some done
    exact .replied (clean (by decide)) (.replied reply) state
  | awaiting completion =>
    rw [EventHandler.answer, Option.bind_eq_bind, Option.bind_eq_some_iff] at done
    obtain ⟨waiting, switched, called⟩ := done
    rw [prompt, if_neg Bool.false_ne_true] at called
    obtain ⟨state, reply, replies⟩ := complete_some called
    exact .replied ((switchToState_some switched).2.1 (by decide)) (.awaiting replies) state
  | interrupted reply =>
    rw [EventHandler.answer, Option.bind_eq_bind, Option.bind_eq_some_iff] at done
    obtain ⟨waiting, switched, written⟩ := done
    exact .replied ((switchToState_some switched).2.1 (by decide)) (.interrupted reply)
      (switchToState_some written).1
  | returnReceived =>
    obtain ⟨state, -, same, unread⟩ := switchToState_some done
    exact .returnReceived state (same (by decide)) unread
  | copyAckReceived =>
    obtain ⟨state, -, same, unread⟩ := switchToState_some done
    exact .copyAckReceived state (same (by decide)) unread
  | shutdownReceived =>
    obtain ⟨state, clean, -⟩ := switchToState_some done
    exact .shutdownReceived (clean (by decide)) state

theorem Answered.active {answer : Answer} {after : EventHandler ω}
    (answered : Answered handler answer after) : after.state ≠ .waitForAsyncCallback := by
  intro waits
  cases answered with
  | replied _ _ state => rw [state] at waits; cases waits
  | returnReceived state => rw [state] at waits; cases waits
  | copyAckReceived state => rw [state] at waits; cases waits
  | shutdownReceived _ state => rw [state] at waits; cases waits

theorem nextEvent_active (prompt : ∀ call, timing.late call = false)
    (active : handler.state ≠ .waitForAsyncCallback) {status : Int32} {after : EventHandler ω}
    (round : handler.nextEvent host timing = some (status, after)) :
    after.state ≠ .waitForAsyncCallback := by
  cases state : handler.state with
  | initHeader =>
    simp only [EventHandler.nextEvent, state, Option.map_eq_some_iff, Prod.mk.injEq] at round
    obtain ⟨_, handled, -, rfl⟩ := round
    unfold handleInitHeader at handled
    split at handled
    · rw [Option.bind_eq_bind, Option.bind_eq_some_iff] at handled
      obtain ⟨result, received, rest⟩ := handled
      split at rest
      · cases rest
      · obtain rfl := Option.some.inj rest
        obtain ⟨_, -, rfl⟩ := Option.map_eq_some_iff.mp received
        exact active
    · split at handled
      · rw [Option.bind_eq_bind, Option.bind_eq_some_iff] at handled
        obtain ⟨_, -, switched⟩ := handled
        rw [(switchToState_some switched).1]
        decide
      · cases handled
  | recvPacketNumBytes =>
    simp only [EventHandler.nextEvent, state, Option.map_eq_some_iff, Prod.mk.injEq] at round
    obtain ⟨_, handled, -, rfl⟩ := round
    rw [handlePacketNumBytes, Option.bind_eq_bind, Option.bind_eq_some_iff] at handled
    obtain ⟨_, -, rest⟩ := handled
    split at rest
    · rw [(switchToState_some rest).1]
      decide
    · rw [Option.bind_eq_bind, Option.bind_eq_some_iff] at rest
      obtain ⟨switched, done, requested⟩ := rest
      obtain rfl := Option.some.inj requested
      change switched.state ≠ _
      rw [(switchToState_some done).1]
      decide
  | processPacket =>
    simp only [EventHandler.nextEvent, state, Option.map_eq_some_iff, Prod.mk.injEq] at round
    obtain ⟨_, handled, -, rfl⟩ := round
    rw [handleProcessPacket, Option.bind_eq_bind, Option.bind_eq_some_iff] at handled
    obtain ⟨_, -, answered⟩ := handled
    exact (answered_of_prompt prompt answered).active
  | waitForAsyncCallback => exact absurd state active
  | returnReceived =>
    simp only [EventHandler.nextEvent, state, Option.map_eq_some_iff, Prod.mk.injEq] at round
    obtain ⟨_, switched, -, rfl⟩ := round
    rw [(switchToState_some switched).1]
    decide
  | copyAckReceived =>
    simp only [EventHandler.nextEvent, state, Option.some.injEq, Prod.mk.injEq] at round
    exact round.2 ▸ active
  | shutdownReceived =>
    simp only [EventHandler.nextEvent, state, Option.some.injEq, Prod.mk.injEq] at round
    exact round.2 ▸ active

theorem handleNextEvent_active (prompt : ∀ call, timing.late call = false) {fuel : Nat}
    (active : handler.state ≠ .waitForAsyncCallback) {status : Int32} {after : EventHandler ω}
    (looped : handler.handleNextEvent host timing fuel = some (status, after)) :
    after.state ≠ .waitForAsyncCallback := by
  induction fuel generalizing handler with
  | zero => cases looped
  | succ fuel ih =>
    rw [handleNextEvent] at looped
    split at looped
    · rw [Option.bind_eq_bind, Option.bind_eq_some_iff] at looped
      obtain ⟨result, round, rest⟩ := looped
      have next := nextEvent_active prompt active round
      split at rest
      · exact ih next rest
      · obtain rfl := Option.some.inj rest
        exact next
    · obtain rfl := (Prod.mk.inj (Option.some.inj looped)).2
      exact active

theorem report_state {status eventFlag code : Int32} {after : EventHandler ω}
    (reported : handler.report timing status eventFlag = some (code, after)) :
    after.state = handler.state ∧ after.reader = handler.reader ∧
      status ≠ kReturn ∧ status ≠ kCopyAck := by
  obtain ⟨offered, same, state, reader⟩ : ∃ offered : EventHandler ω,
      (if eventFlag &&& 2 ≠ 0 ∧ handler.writer ≠ [] then handler.send timing else handler) =
        offered ∧ offered.state = handler.state ∧ offered.reader = handler.reader := by
    refine ⟨_, rfl, ?_⟩
    split
    · exact ⟨rfl, rfl⟩
    · exact ⟨rfl, rfl⟩
  simp only [EventHandler.report, same] at reported
  split at reported
  · cases reported
  next fine =>
    rw [not_or] at fine
    have result : offered = after := by
      split at reported
      · exact (Prod.mk.inj (Option.some.inj reported)).2
      · split at reported
        · exact (Prod.mk.inj (Option.some.inj reported)).2
        · exact (Prod.mk.inj (Option.some.inj reported)).2
    rw [← result]
    exact ⟨state, reader, fine⟩

theorem io_some {inBytes : Bytes} {eventFlag : Int32} {after : EventHandler ω}
    (nonempty : inBytes ≠ [])
    (done : handler.event host timing (.io inBytes eventFlag) = some after) :
    ∃ status handled, { handler with reader := handler.reader ++ inBytes }.handleNextEvent host timing
        ((handler.reader ++ inBytes).length + 3) = some (status, handled) ∧
      after.state = handled.state ∧ after.reader = handled.reader ∧
        status ≠ kReturn ∧ status ≠ kCopyAck := by
  obtain ⟨result, served, rfl⟩ := Option.map_eq_some_iff.mp done
  rw [serverAsyncIOEventHandler, if_neg nonempty] at served
  dsimp only at served
  rw [Option.bind_eq_bind, Option.bind_eq_some_iff] at served
  obtain ⟨handled, looped, reported⟩ := served
  exact ⟨handled.1, handled.2, looped, report_state reported⟩

theorem looped_round {fuel : Nat} {result : Int32 × EventHandler ω}
    (looped : handler.handleNextEvent host timing (fuel + 1) = some result)
    (active : handler.state ≠ .waitForAsyncCallback) (ready : handler.ready = true) :
    ∃ status next, handler.nextEvent host timing = some (status, next) ∧
      (status = kNone → next.handleNextEvent host timing fuel = some result) ∧
        (status ≠ kNone → result = (status, next)) := by
  rw [handleNextEvent, if_pos ⟨active, ready⟩, Option.bind_eq_bind, Option.bind_eq_some_iff]
    at looped
  obtain ⟨round, done, rest⟩ := looped
  refine ⟨round.1, round.2, done, fun goesOn => ?_, fun stops => ?_⟩
  · rw [if_pos goesOn] at rest
    exact rest
  · rw [if_neg stops] at rest
    exact (Option.some.inj rest).symm

/-- A server ends the loop with an error when it has received a return value or an
acknowledgement. -/
theorem no_client_status {fuel : Nat} {status : Int32} {last : EventHandler ω}
    (looped : handler.handleNextEvent host timing (fuel + 1) = some (status, last))
    (ready : handler.ready = true)
    (client : handler.state = .returnReceived ∨ handler.state = .copyAckReceived) :
    status = kReturn ∨ status = kCopyAck := by
  rcases client with state | state
  · obtain ⟨code, next, round, -, stops⟩ := looped_round looped (by rw [state]; decide) ready
    simp only [EventHandler.nextEvent, state, Option.map_eq_some_iff, Prod.mk.injEq] at round
    obtain ⟨_, -, rfl, -⟩ := round
    exact .inl (Prod.mk.inj (stops (by decide))).1
  · obtain ⟨code, next, round, -, stops⟩ := looped_round looped (by rw [state]; decide) ready
    simp only [EventHandler.nextEvent, state, Option.some.injEq, Prod.mk.injEq] at round
    obtain ⟨rfl, -⟩ := round
    exact .inr (Prod.mk.inj (stops (by decide))).1

/-- A whole packet that a server answering at once survives is one that it serves, or one
that shuts it down. -/
theorem packet_served (prompt : ∀ call, timing.late call = false)
    (state : handler.state = .recvPacketNumBytes) (requested : handler.pendingRequestBytes = 8)
    (read : handler.reader = []) {body : Bytes} (sized : body.length < 2 ^ 64) {eventFlag : Int32}
    {after : EventHandler ω}
    (done : handler.event host timing (.io (packet body) eventFlag) = some after) :
    (∃ server reply, Serves host handler.server body server reply) ∨
      ∃ server, readPacket host handler.server body = some ((server, .shutdownReceived), []) := by
  by_cases empty : body = []
  · subst empty
    exact .inl ⟨_, _, .empty⟩
  have width : (packet body).length = 8 + body.length := by
    rw [packet, List.length_append, Layout.encode_length]
    rfl
  have nonempty : packet body ≠ [] := by
    intro none
    rw [none, List.length_nil] at width
    omega
  obtain ⟨status, handled, looped, -, -, noReturn, noAck⟩ := io_some nonempty done
  rw [read, List.nil_append] at looped
  -- the first round reads the size
  have first := looped_round looped (by rw [state]; decide)
    ((ready_iff _).mpr (by rw [requested, width]; exact Nat.le_add_right _ _))
  obtain ⟨sent, writer, sends, round, -⟩ := numBytes_round host timing
    { handler with reader := packet body } state requested sized rfl
  obtain ⟨_, sized, firstRound, goesOn, -⟩ := first
  obtain ⟨rfl, rfl⟩ := Prod.mk.inj (Option.some.inj (firstRound.symm.trans round))
  have looped := goesOn rfl
  simp only [if_neg empty] at looped
  -- the second round reads the packet
  obtain ⟨_, _, secondRound, goesOn, -⟩ := looped_round looped
    (fun waits => by cases waits) ((ready_iff _).mpr le_rfl)
  rw [process_round host timing _ rfl [] rfl (List.append_nil body).symm,
    Option.bind_eq_some_iff] at secondRound
  obtain ⟨result, reads, mapped⟩ := secondRound
  obtain ⟨answered, answers, same⟩ := Option.map_eq_some_iff.mp mapped
  obtain ⟨rfl, rfl⟩ := Prod.mk.inj same
  have looped := goesOn rfl
  have outcome := answered_of_prompt prompt answers
  obtain ⟨⟨server, answer⟩, left⟩ := result
  have clientStops : answered.state = .returnReceived ∨ answered.state = .copyAckReceived →
      answered.pendingRequestBytes = left.length → answered.reader = left ++ [] → False := by
    intro client same unread
    have ready : answered.ready = true := by
      rw [ready_iff, same, unread, List.append_nil]
    rcases no_client_status looped ready client with isReturn | isAck
    · exact noReturn isReturn
    · exact noAck isAck
  dsimp only at outcome
  cases outcome with
  | replied clean replies state =>
    obtain rfl : left = [] := List.eq_nil_of_length_eq_zero clean
    exact .inl ⟨_, _, .packet reads replies⟩
  | returnReceived state same unread => exact (clientStops (.inl state) same unread).elim
  | copyAckReceived state same unread => exact (clientStops (.inr state) same unread).elim
  | shutdownReceived clean state =>
    obtain rfl : left = [] := List.eq_nil_of_length_eq_zero clean
    exact .inr ⟨_, reads⟩

def wholePackets (bodies : List Bytes) : List Event :=
  bodies.map fun body => .io (packet body) 0

/-- The calls that hand over the header, if there is one, and one packet each. -/
def wholeEvents (remoteKey key : Bytes) (bodies : List Bytes) : List Event :=
  (if remoteKey = toInit then [.io (header remoteKey key) 0] else []) ++ wholePackets bodies

theorem packet_ne_nil (body : Bytes) : packet body ≠ [] := by
  intro none
  have long := congrArg List.length none
  rw [packet, List.length_append, Layout.encode_length] at long
  have width : Layout.u64.size = 8 := rfl
  rw [width, List.length_nil] at long
  omega

theorem shut_event (state : handler.state = .shutdownReceived) {inBytes : Bytes}
    (nonempty : inBytes ≠ []) {eventFlag : Int32} {after : EventHandler ω}
    (done : handler.event host timing (.io inBytes eventFlag) = some after) :
    after.state = .shutdownReceived ∧ after.reader = handler.reader ++ inBytes := by
  obtain ⟨status, handled, looped, entered, unread, -⟩ := io_some nonempty done
  rw [handleNextEvent] at looped
  split at looped
  · have round : ({ handler with reader := handler.reader ++ inBytes } : EventHandler ω).nextEvent
        host timing = some (kShutdown, { handler with reader := handler.reader ++ inBytes }) := by
      simp only [EventHandler.nextEvent, state]
    have other : ¬kShutdown = kNone := by decide
    rw [round, Option.bind_eq_bind, Option.bind_some, if_neg other] at looped
    obtain ⟨-, rfl⟩ := Prod.mk.inj (Option.some.inj looped)
    exact ⟨entered.trans state, unread⟩
  · obtain ⟨-, rfl⟩ := Prod.mk.inj (Option.some.inj looped)
    exact ⟨entered.trans state, unread⟩

theorem shut_run (state : handler.state = .shutdownReceived) {after : EventHandler ω}
    (ran : handler.run host timing (wholePackets bodies) = some after) :
    after.reader = handler.reader ++ packets bodies := by
  induction bodies generalizing handler with
  | nil =>
    obtain rfl := Option.some.inj ran
    exact (List.append_nil _).symm
  | cons body bodies ih =>
    rw [wholePackets, List.map_cons, EventHandler.run, List.foldlM_cons, Option.bind_eq_bind,
      Option.bind_eq_some_iff] at ran
    obtain ⟨middle, done, rest⟩ := ran
    obtain ⟨shut, unread⟩ := shut_event state (packet_ne_nil body) done
    rw [ih shut rest, unread, packets, packets, List.flatMap_cons, List.append_assoc]

/-- Between two packets that have been handed over whole. -/
structure Idle (handler : EventHandler ω) : Prop where
  state : handler.state = .recvPacketNumBytes
  requested : handler.pendingRequestBytes = 8
  read : handler.reader = []
  idle : handler.outstanding = none

theorem Stage.prompt_io {inBytes : Bytes} (stage : Stage host goal handler (inBytes ++ []))
    (prompt : ∀ call, timing.late call = false) (active : handler.state ≠ .waitForAsyncCallback)
    (nonempty : inBytes ≠ []) {eventFlag : Int32} {after : EventHandler ω}
    (done : handler.event host timing (.io inBytes eventFlag) = some after) :
    Reaches goal after ∧ (goal.shut = false → Idle after) := by
  obtain ⟨final, ran, later, settled⟩ := stage.io timing nonempty eventFlag
  obtain rfl := Option.some.inj (ran.symm.trans done)
  obtain ⟨status, handled, looped, entered, -⟩ := io_some nonempty done
  have fed : ({ handler with reader := handler.reader ++ inBytes } : EventHandler ω).state ≠
      .waitForAsyncCallback := active
  have stillActive : final.state ≠ .waitForAsyncCallback := by
    rw [entered]
    exact handleNextEvent_active prompt fed looped
  obtain ⟨read, idle, state⟩ := (later.settled settled).resolve_left stillActive
  have reached := later.reaches idle read (.inr state)
  refine ⟨reached, fun running => ?_⟩
  have entered : final.state = .recvPacketNumBytes := by
    refine state.resolve_right fun closed => ?_
    have isShut := reached.shut.mp closed
    rw [running] at isShut
    cases isShut
  cases later with
  | numBytes _ requested => exact ⟨entered, requested, read, idle⟩
  | headerLength other => rw [other] at entered; cases entered
  | headerKey other => rw [other] at entered; cases entered
  | process other => rw [other] at entered; cases entered
  | waiting other => rw [other] at entered; cases entered
  | closed other => rw [other] at entered; cases entered

theorem packet_reaches (prompt : ∀ call, timing.late call = false) (between : Idle handler)
    {body : Bytes} (sized : body.length < 2 ^ 64) {server : Server ω} {reply : Bytes} {shut : Bool}
    (serves : ServesAll host handler.server [body] server reply shut) {eventFlag : Int32}
    {after : EventHandler ω}
    (done : handler.event host timing (.io (packet body) eventFlag) = some after) :
    Reaches ⟨server, handler.out ++ reply, handler.remoteKey, shut⟩ after ∧
      (shut = false → Idle after) := by
  have stage : Stage host ⟨server, handler.out ++ reply, handler.remoteKey, shut⟩ handler
      (packet body ++ []) := by
    refine .numBytes between.state between.requested between.idle ?_ rfl ⟨?_, reply, serves, rfl⟩
    · rw [between.read, List.append_nil, packets, List.flatMap_cons, List.flatMap_nil,
        List.append_nil, List.nil_append]
    · intro other membership
      obtain rfl := List.mem_singleton.mp membership
      exact sized
  exact stage.prompt_io prompt (by rw [between.state]; decide) (packet_ne_nil body) done

theorem whole_served (prompt : ∀ call, timing.late call = false) (between : Idle handler)
    (sized : ∀ body ∈ bodies, body.length < 2 ^ 64) {reference : EventHandler ω}
    (ran : handler.run host timing (wholePackets bodies) = some reference)
    (read : reference.reader = []) :
    ∃ replies shut, ServesAll host handler.server bodies reference.server replies shut ∧
      Reaches ⟨reference.server, handler.out ++ replies, handler.remoteKey, shut⟩ reference := by
  induction bodies generalizing handler with
  | nil =>
    obtain rfl := Option.some.inj ran
    refine ⟨[], false, .nil _, between.read, rfl, (List.append_nil _).symm, rfl, ?_⟩
    simp [between.state]
  | cons body bodies ih =>
    rw [wholePackets, List.map_cons, EventHandler.run, List.foldlM_cons, Option.bind_eq_bind,
      Option.bind_eq_some_iff] at ran
    obtain ⟨middle, done, rest⟩ := ran
    obtain ⟨small, later⟩ := List.forall_mem_cons.mp sized
    rcases packet_served prompt between.state between.requested between.read small done with
      ⟨server, reply, serves⟩ | ⟨server, reads⟩
    · have alone : ServesAll host handler.server [body] server (reply ++ []) false :=
        .cons serves (.nil server)
      rw [List.append_nil] at alone
      obtain ⟨reached, idle⟩ := packet_reaches prompt between small alone done
      obtain ⟨replies, shut, others, reaches⟩ := ih (idle rfl) later rest
      have served : middle.server = server := reached.server
      have out : middle.out = handler.out ++ reply := reached.out
      have named : middle.remoteKey = handler.remoteKey := reached.remoteKey
      rw [served] at others
      rw [out, named, List.append_assoc] at reaches
      exact ⟨_, shut, .cons serves others, reaches⟩
    · obtain ⟨reached, -⟩ := packet_reaches prompt between small (.shutdown reads) done
      have closed : middle.state = .shutdownReceived := reached.shut.mpr rfl
      have unread := shut_run closed rest
      rw [read, reached.reader, List.nil_append] at unread
      obtain rfl := packets_eq_nil unread.symm
      obtain rfl := Option.some.inj rest
      have served : middle.server = server := reached.server
      rw [served]
      exact ⟨[], true, .shutdown reads, reached⟩

def finalKey (remoteKey key : Bytes) : Bytes := if remoteKey = toInit then key else remoteKey

theorem start_stage (remoteKey : Bytes) {key : Bytes} {world : ω} {server : Server ω}
    {replies : Bytes} {shut : Bool} (short : key.length < 2 ^ 31) (sized : ∀ body ∈ bodies, body.length < 2 ^ 64)
    (serves : ServesAll host ⟨none, world⟩ bodies server replies shut) :
    Stage host ⟨server, replies, finalKey remoteKey key, shut⟩ (start remoteKey world)
      (header remoteKey key ++ packets bodies) := by
  have left : Left host ⟨server, replies, finalKey remoteKey key, shut⟩ ⟨none, world⟩ [] bodies :=
    ⟨sized, replies, serves, List.nil_append _⟩
  by_cases init : remoteKey = toInit
  · have named : finalKey remoteKey key = key := if_pos init
    refine .headerLength (if_pos init) rfl (if_pos init) rfl ?_ ?_ left
    · rw [header, if_pos init, List.append_assoc]
      simp only [named]
      rfl
    · simp only [named]
      exact short
  · refine .numBytes (if_neg init) (if_neg init) rfl ?_ ?_ left
    · rw [header, if_neg init]
      rfl
    · rw [finalKey, if_neg init]
      exact if_neg init

theorem start_unready (remoteKey : Bytes) (world : ω) : (start remoteKey world).ready = false := by
  unfold EventHandler.ready start
  split
  · rfl
  · rfl

theorem wholeEvents_served (prompt : ∀ call, timing.late call = false) {remoteKey key : Bytes}
    {world : ω} (short : key.length < 2 ^ 31) (sized : ∀ body ∈ bodies, body.length < 2 ^ 64)
    {reference : EventHandler ω}
    (ran : (start remoteKey world).run host timing (wholeEvents remoteKey key bodies) =
      some reference)
    (read : reference.reader = []) :
    ∃ shut, ServesAll host ⟨none, world⟩ bodies reference.server reference.out shut ∧
      reference.remoteKey = finalKey remoteKey key := by
  have finish : ∀ {handler : EventHandler ω}, Idle handler → handler.server = ⟨none, world⟩ →
      handler.out = [] → handler.remoteKey = finalKey remoteKey key →
      handler.run host timing (wholePackets bodies) = some reference →
      ∃ shut, ServesAll host ⟨none, world⟩ bodies reference.server reference.out shut ∧
        reference.remoteKey = finalKey remoteKey key := by
    intro handler between fresh silent named ran
    obtain ⟨replies, shut, serves, reached⟩ := whole_served prompt between sized ran read
    have out : reference.out = handler.out ++ replies := reached.out
    rw [silent, List.nil_append] at out
    rw [fresh] at serves
    rw [out]
    exact ⟨shut, serves, reached.remoteKey.trans named⟩
  by_cases init : remoteKey = toInit
  · rw [wholeEvents, if_pos init, run_append, Option.bind_eq_some_iff] at ran
    obtain ⟨handler, headed, later⟩ := ran
    rw [EventHandler.run, List.foldlM_cons, Option.bind_eq_bind, Option.bind_eq_some_iff] at headed
    obtain ⟨_, done, last⟩ := headed
    obtain rfl := Option.some.inj last
    have none : ServesAll host ⟨none, world⟩ [] ⟨none, world⟩ [] false := .nil _
    have stage := start_stage remoteKey short (fun _ membership => by cases membership) none
    have nonempty : header remoteKey key ≠ [] := by
      intro none
      have long := congrArg List.length none
      rw [header, if_pos init, List.length_append, Layout.encode_length] at long
      have width : Layout.i32.size = 4 := rfl
      rw [width, List.length_nil] at long
      omega
    have active : (start remoteKey world).state ≠ .waitForAsyncCallback := by
      unfold start
      split
      · exact fun waits => by cases waits
      · exact fun waits => by cases waits
    obtain ⟨reached, idle⟩ := stage.prompt_io prompt active nonempty done
    exact finish (idle rfl) reached.server reached.out reached.remoteKey later
  · rw [wholeEvents, if_neg init, List.nil_append] at ran
    refine finish ⟨if_neg init, if_neg init, rfl, rfl⟩ rfl rfl ?_ ran
    rw [finalKey, if_neg init]
    exact if_neg init

/-- Every packet has been handled, in the order of the packets, and the same has been written
as in the other run. -/
structure Agrees (final reference : EventHandler ω) : Prop where
  reader : final.reader = []
  server : final.server = reference.server
  out : final.sent ++ final.writer = reference.sent ++ reference.writer
  remoteKey : final.remoteKey = reference.remoteKey

def voidSession : RPCSession Unit where
  isLocalSession := true
  asyncCallFunc := fun _ _ world => (.ok [], world)
  asyncCopyToRemote := fun _ _ world => (.ok (), world)
  asyncCopyFromRemote := fun _ _ world => (.ok [], world)
  asyncStreamWait := fun _ _ world => (.ok (), world)
  sysCall := fun _ _ world => (.ok .nullptr, world)

def emptyMessage : MinRpc.CString := ⟨[], by decide, by decide⟩

def voidHost : Host Unit where
  localSession := voidSession
  construct := fun _ world => (.ok voidSession, world)
  constructLocal := fun world => (.ok voidSession, world)
  load := fun _ _ _ => []
  store := fun _ _ world => world
  streamArgs := fun _ => .error emptyMessage
  what := fun _ => emptyMessage
  notInitialized := emptyMessage
  fatal := fun _ => emptyMessage

/-- `kInitServer` without arguments. -/
def initBody : Bytes :=
  Layout.i32.encode kInitServer ++ Layout.u64.encode 5 ++ kRPCProtocolVer ++ Layout.i32.encode 0

/-- `kCallFunc` without arguments. -/
def callBody : Bytes := Layout.i32.encode kCallFunc ++ Layout.u64.encode 1 ++ Layout.i32.encode 0

def twoCalls : List Bytes := [initBody, callBody, callBody]

/-- A session initialisation and two calls in one piece, with the name `s` of the endpoint. -/
def onePiece : List Event := [.io (packets twoCalls) 0, .callback]

theorem twoCalls_served :
    ∃ reference, (start [115] ()).run voidHost ⟨fun _ => false, fun _ => 0⟩
      (wholeEvents [115] [] twoCalls) = some reference ∧ reference.reader = [] := by
  have read : ((start [115] ()).run voidHost ⟨fun _ => false, fun _ => 0⟩
      (wholeEvents [115] [] twoCalls)).map EventHandler.reader = some [] := by decide +kernel
  exact Option.map_eq_some_iff.mp read

theorem onePiece_fed : fed onePiece = header [115] [] ++ packets twoCalls := by decide +kernel

theorem twoCalls_sized : ∀ body ∈ twoCalls, body.length < 2 ^ 64 := by decide +kernel

end Tvm.RpcEndpoint
