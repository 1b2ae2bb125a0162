import Tvm.MinRpc.PackedSeqRoundTrip
import Tvm.Rpc.Endpoint

/-!
# How the bytes reach the event handler

The unread bytes together with the bytes still to come are, at every point of a run, what is
left of the stream of packets.  Where a callback is outstanding its reply counts as written.
-/

namespace Tvm.RpcEndpoint

open Tvm.Lib Tvm.MinRpc

def packet (body : Bytes) : Bytes :=
  Layout.u64.encode (UInt64.ofNat body.length) ++ body

def packets (bodies : List Bytes) : Bytes := bodies.flatMap packet

def header (remoteKey key : Bytes) : Bytes :=
  if remoteKey = toInit then Layout.i32.encode (Int32.ofNat key.length) ++ key else []

section

variable {ω : Type} (host : Host ω)

/-- The bytes that come of an answer, now or when the callback is called. -/
inductive Answer.Replies : Answer → Bytes → Prop
  | replied (reply : Bytes) : Replies (.replied reply) reply
  | awaiting {completion : Completion} {reply : Bytes} (replies : completion.reply = some reply) :
      Replies (.awaiting completion) reply
  | interrupted (reply : Bytes) : Replies (.interrupted reply) reply

inductive Serves (server : Server ω) : Bytes → Server ω → Bytes → Prop
  | empty : Serves server [] server []
  | packet {body reply : Bytes} {after : Server ω} {answer : Answer}
      (read : readPacket host server body = some ((after, answer), []))
      (replies : answer.Replies reply) : Serves server body after reply

/-- Packets that the server handles one after the other; only the last one may shut it down,
as the truth value says. -/
inductive ServesAll : Server ω → List Bytes → Server ω → Bytes → Bool → Prop
  | nil (server : Server ω) : ServesAll server [] server [] false
  | cons {server middle after : Server ω} {body reply replies : Bytes} {bodies : List Bytes}
      {shut : Bool} (first : Serves host server body middle reply)
      (later : ServesAll middle bodies after replies shut) :
      ServesAll server (body :: bodies) after (reply ++ replies) shut
  | shutdown {server after : Server ω} {body : Bytes}
      (read : readPacket host server body = some ((after, .shutdownReceived), [])) :
      ServesAll server [body] after [] true

theorem ServesAll.first {server after : Server ω} {body replies : Bytes} {bodies : List Bytes}
    {shut : Bool} (serves : ServesAll host server (body :: bodies) after replies shut) :
    (∃ middle reply later, Serves host server body middle reply ∧
      ServesAll host middle bodies after later shut ∧ replies = reply ++ later) ∨
    (bodies = [] ∧ replies = [] ∧ shut = true ∧
      readPacket host server body = some ((after, .shutdownReceived), [])) := by
  cases serves with
  | cons first later => exact .inl ⟨_, _, _, first, later, rfl⟩
  | shutdown read => exact .inr ⟨rfl, rfl, rfl, read⟩

end

namespace EventHandler

variable {ω : Type} {host : Host ω} {timing : Timing} {handler : EventHandler ω}

/-- What has been written, whether the channel has taken it or not. -/
def out (handler : EventHandler ω) : Bytes := handler.sent ++ handler.writer

def withOutput (handler : EventHandler ω) (sent writer : Bytes) (sends : Nat) : EventHandler ω :=
  { handler with sent := sent, writer := writer, sends := sends }

theorem send_output (timing : Timing) (handler : EventHandler ω) :
    ∃ sent writer sends, handler.send timing = handler.withOutput sent writer sends ∧
      sent ++ writer = handler.out := by
  refine ⟨_, _, _, rfl, ?_⟩
  rw [List.append_assoc, List.take_append_drop]
  rfl

theorem flushWriter_output (timing : Timing) (rounds : Nat) (handler : EventHandler ω) :
    ∃ sent writer sends, handler.flushWriter timing rounds = handler.withOutput sent writer sends ∧
      sent ++ writer = handler.out := by
  induction rounds generalizing handler with
  | zero => exact ⟨_, _, _, rfl, rfl⟩
  | succ rounds ih =>
    rw [flushWriter]
    split
    · exact ⟨_, _, _, rfl, rfl⟩
    · obtain ⟨sent, writer, sends, after, kept⟩ := send_output timing handler
      simp only [after]
      split
      · exact ⟨_, _, _, rfl, kept⟩
      · obtain ⟨sent', writer', sends', flushed, same⟩ := ih (handler.withOutput sent writer sends)
        exact ⟨sent', writer', sends', flushed, same.trans kept⟩

/-- How many bytes a state asks for when it is entered. -/
def requested (state : State) : Nat := if state = .recvPacketNumBytes then 8 else 0

theorem switchToState_of_clean (timing : Timing) (handler : EventHandler ω) {state : State}
    (clean : handler.pendingRequestBytes = 0) (allowed : state ≠ .initHeader) :
    ∃ sent writer sends, handler.switchToState timing state =
        some { handler.withOutput sent writer sends with
          state := state, pendingRequestBytes := requested state } ∧
      sent ++ writer = handler.out := by
  unfold switchToState
  rw [if_neg (fun unclean => unclean.2 clean)]
  have flushed : ∃ sent writer sends, (if handler.state = .waitForAsyncCallback then
      flushWriter timing handler.writer.length handler else handler) =
        handler.withOutput sent writer sends ∧ sent ++ writer = handler.out := by
    split
    · exact flushWriter_output timing _ handler
    · exact ⟨_, _, _, rfl, rfl⟩
  obtain ⟨sent, writer, sends, same, kept⟩ := flushed
  refine ⟨sent, writer, sends, ?_, kept⟩
  simp only [same, if_neg allowed, requested]
  split
  · simp [requestBytes, withOutput, clean]
  · simp [withOutput, clean]

theorem receive_of_reads {α : Type} {receiver : PacketM α} {bytes rest left : Bytes} {value : α}
    (buffered : handler.reader = bytes ++ rest)
    (requested : handler.pendingRequestBytes = bytes.length)
    (reads : receiver bytes = some (value, left)) :
    handler.receive receiver =
      some (value, { handler with
        reader := left ++ rest, pendingRequestBytes := left.length }) := by
  rw [receive, buffered, requested, List.take_left, reads, List.drop_left]
  rfl

end EventHandler

structure Goal (ω : Type) where
  server : Server ω
  out : Bytes
  remoteKey : Bytes
  shut : Bool

section

variable {ω : Type} (host : Host ω) (goal : Goal ω)

structure Left (server : Server ω) (written : Bytes) (bodies : List Bytes) : Prop where
  sized : ∀ body ∈ bodies, body.length < 2 ^ 64
  serves : ∃ replies, ServesAll host server bodies goal.server replies goal.shut ∧
    written ++ replies = goal.out

/-- What the handler and the bytes still to come are, state by state. -/
inductive Stage (handler : EventHandler ω) (future : Bytes) : Prop
  | headerLength {bodies : List Bytes} (state : handler.state = .initHeader)
      (step : handler.initHeaderStep = 0) (requested : handler.pendingRequestBytes = 4)
      (idle : handler.outstanding = none)
      (unread : handler.reader ++ future = Layout.i32.encode (Int32.ofNat goal.remoteKey.length) ++
        (goal.remoteKey ++ packets bodies))
      (short : goal.remoteKey.length < 2 ^ 31) (left : Left host goal handler.server handler.out bodies)
  | headerKey {bodies : List Bytes} (state : handler.state = .initHeader)
      (step : handler.initHeaderStep = 1)
      (requested : handler.pendingRequestBytes = goal.remoteKey.length)
      (resized : handler.remoteKey.length = goal.remoteKey.length)
      (idle : handler.outstanding = none)
      (unread : handler.reader ++ future = goal.remoteKey ++ packets bodies)
      (left : Left host goal handler.server handler.out bodies)
  | numBytes {bodies : List Bytes} (state : handler.state = .recvPacketNumBytes)
      (requested : handler.pendingRequestBytes = 8) (idle : handler.outstanding = none)
      (unread : handler.reader ++ future = packets bodies)
      (named : handler.remoteKey = goal.remoteKey)
      (left : Left host goal handler.server handler.out bodies)
  | process {body : Bytes} {bodies : List Bytes} (state : handler.state = .processPacket)
      (requested : handler.pendingRequestBytes = body.length) (nonempty : body ≠ [])
      (idle : handler.outstanding = none)
      (unread : handler.reader ++ future = body ++ packets bodies)
      (named : handler.remoteKey = goal.remoteKey)
      (left : Left host goal handler.server handler.out (body :: bodies))
  | waiting {completion : Completion} {reply : Bytes} {bodies : List Bytes}
      (state : handler.state = .waitForAsyncCallback) (clean : handler.pendingRequestBytes = 0)
      (called : handler.outstanding = some completion) (replies : completion.reply = some reply)
      (unread : handler.reader ++ future = packets bodies)
      (named : handler.remoteKey = goal.remoteKey)
      (left : Left host goal handler.server (handler.out ++ reply) bodies)
  | closed (state : handler.state = .shutdownReceived) (clean : handler.pendingRequestBytes = 0)
      (idle : handler.outstanding = none) (unread : handler.reader ++ future = [])
      (named : handler.remoteKey = goal.remoteKey) (served : handler.server = goal.server)
      (written : handler.out = goal.out) (shut : goal.shut = true)

end

variable {ω : Type} {host : Host ω} {goal : Goal ω} {timing : Timing} {handler : EventHandler ω}
  {future : Bytes} {bodies : List Bytes}

open EventHandler

theorem split_front {reader future front behind : Bytes}
    (unread : reader ++ future = front ++ behind) (enough : front.length ≤ reader.length) :
    ∃ rest, reader = front ++ rest ∧ rest ++ future = behind := by
  rcases List.append_eq_append_iff.mp unread with ⟨more, rfl, rfl⟩ | ⟨rest, rfl, rfl⟩
  · rw [List.length_append] at enough
    have none : more = [] := List.eq_nil_of_length_eq_zero (by omega)
    subst none
    exact ⟨[], by simp, by simp⟩
  · exact ⟨rest, rfl, rfl⟩

theorem recv_read_encode {α : Type} (layout : Layout α) (value : α) :
    recv (read layout) (layout.encode value) = some (value, []) := by
  have reads := read_encode layout value []
  rw [List.append_nil] at reads
  rw [recv, reads]

theorem Stage.reply (timing : Timing) (handler : EventHandler ω)
    (clean : handler.pendingRequestBytes = 0) (idle : handler.outstanding = none)
    (unread : handler.reader ++ future = packets bodies)
    (named : handler.remoteKey = goal.remoteKey) (reply : Bytes)
    (left : Left host goal handler.server (handler.out ++ reply) bodies) :
    ∃ after, (handler.write reply).switchToState timing .recvPacketNumBytes = some after ∧
      Stage host goal after future ∧ after.reader = handler.reader ∧
        after.state = .recvPacketNumBytes := by
  obtain ⟨sent, writer, sends, switched, output⟩ :=
    switchToState_of_clean timing (handler.write reply) clean
      (by decide : State.recvPacketNumBytes ≠ .initHeader)
  refine ⟨_, switched, ?_, rfl, rfl⟩
  refine .numBytes rfl rfl idle unread named ?_
  change Left host goal handler.server (sent ++ writer) bodies
  rw [output]
  change Left host goal handler.server (handler.sent ++ (handler.writer ++ reply)) bodies
  rw [← List.append_assoc]
  exact left

theorem Stage.complete (timing : Timing) (handler : EventHandler ω)
    (clean : handler.pendingRequestBytes = 0)
    (unread : handler.reader ++ future = packets bodies)
    (named : handler.remoteKey = goal.remoteKey) {completion : Completion} {reply : Bytes}
    (replies : completion.reply = some reply)
    (left : Left host goal handler.server (handler.out ++ reply) bodies) :
    ∃ after, handler.complete timing completion = some after ∧ Stage host goal after future ∧
      after.reader = handler.reader ∧ after.state = .recvPacketNumBytes := by
  have stage := Stage.reply timing { handler with outstanding := none } clean rfl unread named reply
    left
  rw [EventHandler.complete, replies]
  exact stage

theorem switch_wait (timing : Timing) (clean : handler.pendingRequestBytes = 0) :
    ∃ sent writer sends, handler.switchToState timing .waitForAsyncCallback =
        some { handler.withOutput sent writer sends with
          state := .waitForAsyncCallback, pendingRequestBytes := 0 } ∧
      sent ++ writer = handler.out :=
  switchToState_of_clean timing handler clean (by decide)

theorem Stage.answer (timing : Timing) (handler : EventHandler ω)
    (clean : handler.pendingRequestBytes = 0) (idle : handler.outstanding = none)
    (unread : handler.reader ++ future = packets bodies)
    (named : handler.remoteKey = goal.remoteKey) {answer : Answer} {reply : Bytes}
    (replies : answer.Replies reply)
    (left : Left host goal handler.server (handler.out ++ reply) bodies) :
    ∃ after, handler.answer timing answer = some after ∧ Stage host goal after future ∧
      after.reader = handler.reader ∧ after.state ≠ .initHeader := by
  cases replies with
  | replied reply =>
    obtain ⟨after, switched, stage, same, state⟩ := Stage.reply timing handler clean idle unread
      named reply left
    exact ⟨after, switched, stage, same, by rw [state]; decide⟩
  | @awaiting completion reply replies =>
    obtain ⟨sent, writer, sends, switched, output⟩ := switch_wait timing clean
    rw [EventHandler.answer, switched, Option.bind_eq_bind, Option.bind_some]
    rw [← output] at left
    split
    · refine ⟨_, rfl, ?_, rfl, fun same => by cases same⟩
      exact .waiting rfl rfl rfl replies unread named left
    · obtain ⟨after, completed, stage, same, state⟩ := Stage.complete timing
        { handler.withOutput sent writer sends with
          state := .waitForAsyncCallback, pendingRequestBytes := 0, calls := handler.calls + 1 }
        rfl unread named replies left
      exact ⟨after, completed, stage, same, by rw [state]; decide⟩
  | interrupted reply =>
    obtain ⟨sent, writer, sends, switched, output⟩ := switch_wait timing clean
    rw [EventHandler.answer, switched, Option.bind_eq_bind, Option.bind_some]
    rw [← output] at left
    obtain ⟨after, replied, stage, same, state⟩ := Stage.reply timing
      { handler.withOutput sent writer sends with
        state := .waitForAsyncCallback, pendingRequestBytes := 0 }
      rfl idle unread named reply left
    exact ⟨after, replied, stage, same, by rw [state]; decide⟩

/-- Every round makes this smaller: the key may be empty, but it is read once. -/
def roundsLeft (handler : EventHandler ω) : Nat :=
  handler.reader.length + if handler.state = .initHeader then 2 else 0

theorem recv_readArray_encodeArray {α : Type} (layout : Layout α) (values : List α) {count : Nat}
    (all : values.length = count) :
    recv (readArray layout count) (layout.encodeArray values) = some (⟨values, all⟩, []) := by
  have reads := readArray_encodeArray layout values [] all
  rw [List.append_nil] at reads
  rw [recv, reads]

theorem encodeArray_u8 (bytes : Bytes) : Layout.u8.encodeArray bytes = bytes := by
  induction bytes with
  | nil => rfl
  | cons byte bytes ih =>
    have one : Layout.u8.encode byte = [byte] := by
      change leBytes 1 byte.toNat = [byte]
      simp [leBytes]
    rw [Layout.encodeArray, List.flatMap_cons, one]
    exact congrArg (byte :: ·) ih

theorem ready_iff (handler : EventHandler ω) :
    handler.ready = true ↔ handler.pendingRequestBytes ≤ handler.reader.length :=
  decide_eq_true_iff

theorem Stage.headerLength_step (state : handler.state = .initHeader)
    (step : handler.initHeaderStep = 0) (requested : handler.pendingRequestBytes = 4)
    (idle : handler.outstanding = none)
    (unread : handler.reader ++ future = Layout.i32.encode (Int32.ofNat goal.remoteKey.length) ++
      (goal.remoteKey ++ packets bodies))
    (short : goal.remoteKey.length < 2 ^ 31)
    (left : Left host goal handler.server handler.out bodies) (ready : handler.ready = true) :
    ∃ after, handler.nextEvent host timing = some (kNone, after) ∧ Stage host goal after future ∧
      roundsLeft after < roundsLeft handler := by
  have width : (Layout.i32.encode (Int32.ofNat goal.remoteKey.length)).length = 4 :=
    Layout.i32.encode_length _
  rw [ready_iff, requested, ← width] at ready
  obtain ⟨rest, buffered, behind⟩ := split_front unread ready
  have received := receive_of_reads buffered (requested.trans width.symm)
    (recv_read_encode Layout.i32 (Int32.ofNat goal.remoteKey.length))
  have nonneg : ¬Int32.ofNat goal.remoteKey.length < 0 := by
    rw [Int32.lt_iff_toInt_lt, Int32.toInt_ofNat_of_lt short]
    exact not_lt.mpr (Int.natCast_nonneg _)
  simp only [EventHandler.nextEvent, state, EventHandler.handleInitHeader, step, if_true, received,
    Option.bind_eq_bind, Option.bind_some, if_neg nonneg, toSize_ofNat short, Option.map_some,
    Option.some.injEq, Prod.mk.injEq, true_and, List.nil_append, List.length_nil]
  refine ⟨_, rfl, ?_, ?_⟩
  · exact .headerKey rfl rfl (Nat.zero_add _) (List.length_replicate ..) idle behind left
  · have shorter := congrArg List.length buffered
    rw [List.length_append, width] at shorter
    simp only [roundsLeft, EventHandler.requestBytes, state, if_true]
    omega

theorem Stage.headerKey_step (state : handler.state = .initHeader)
    (step : handler.initHeaderStep = 1)
    (requested : handler.pendingRequestBytes = goal.remoteKey.length)
    (resized : handler.remoteKey.length = goal.remoteKey.length)
    (idle : handler.outstanding = none)
    (unread : handler.reader ++ future = goal.remoteKey ++ packets bodies)
    (left : Left host goal handler.server handler.out bodies) (ready : handler.ready = true) :
    ∃ after, handler.nextEvent host timing = some (kNone, after) ∧ Stage host goal after future ∧
      roundsLeft after < roundsLeft handler := by
  rw [ready_iff, requested] at ready
  obtain ⟨rest, buffered, behind⟩ := split_front unread ready
  have reads := recv_readArray_encodeArray Layout.u8 goal.remoteKey resized.symm
  rw [encodeArray_u8] at reads
  have received := receive_of_reads buffered requested reads
  have notFirst : ¬handler.initHeaderStep = 0 := by rw [step]; decide
  obtain ⟨sent, writer, sends, switched, output⟩ := switchToState_of_clean timing
    { handler with reader := rest, pendingRequestBytes := 0, remoteKey := goal.remoteKey }
    rfl (by decide : State.recvPacketNumBytes ≠ .initHeader)
  have round : ∀ {after : EventHandler ω},
      { handler with reader := rest, pendingRequestBytes := 0, remoteKey := goal.remoteKey
        }.switchToState timing .recvPacketNumBytes = some after →
      handler.nextEvent host timing = some (kNone, after) := by
    intro after done
    rw [state] at done
    simp only [EventHandler.nextEvent, state, EventHandler.handleInitHeader, if_neg notFirst,
      if_pos step, received, Option.bind_eq_bind, Option.bind_some, List.nil_append,
      List.length_nil]
    rw [done]
    rfl
  refine ⟨_, round switched, ?_, ?_⟩
  · refine .numBytes rfl rfl idle behind rfl ?_
    change Left host goal handler.server (sent ++ writer) bodies
    rw [output]
    exact left
  · have shorter := congrArg List.length buffered
    rw [List.length_append] at shorter
    have other : ¬State.recvPacketNumBytes = State.initHeader := by decide
    simp only [roundsLeft, state, if_true, if_neg other, EventHandler.withOutput]
    omega

theorem readPacket_nil (server : Server ω) : readPacket host server [] = none :=
  rfl

theorem Left.skip {server : Server ω} {written : Bytes}
    (left : Left host goal server written ([] :: bodies)) : Left host goal server written bodies := by
  obtain ⟨sized, replies, serves, total⟩ := left
  refine ⟨fun body membership => sized body (List.mem_cons_of_mem _ membership), ?_⟩
  rcases serves.first with ⟨middle, reply, later, served, remaining, rfl⟩ | ⟨-, -, -, read⟩
  · cases served with
    | empty => exact ⟨later, remaining, total⟩
    | packet read _ =>
      rw [readPacket_nil] at read
      cases read
  · rw [readPacket_nil] at read
    cases read

theorem numBytes_round (host : Host ω) (timing : Timing) (handler : EventHandler ω)
    (state : handler.state = .recvPacketNumBytes)
    (requested : handler.pendingRequestBytes = 8) {body rest : Bytes}
    (sized : body.length < 2 ^ 64)
    (buffered : handler.reader = Layout.u64.encode (UInt64.ofNat body.length) ++ rest) :
    ∃ sent writer sends, handler.nextEvent host timing = some (kNone,
        { handler.withOutput sent writer sends with
          state := if body = [] then .recvPacketNumBytes else .processPacket
          pendingRequestBytes := if body = [] then 8 else body.length
          reader := rest }) ∧
      sent ++ writer = handler.out := by
  have width : (Layout.u64.encode (UInt64.ofNat body.length)).length = 8 :=
    Layout.u64.encode_length _
  have received := receive_of_reads buffered (requested.trans width.symm)
    (recv_read_encode Layout.u64 (UInt64.ofNat body.length))
  have size : (UInt64.ofNat body.length).toNat = body.length := UInt64.toNat_ofNat_of_lt' sized
  by_cases empty : body = []
  · obtain ⟨sent, writer, sends, switched, output⟩ := switchToState_of_clean timing
      { handler with reader := rest, pendingRequestBytes := 0 } rfl
      (by decide : State.recvPacketNumBytes ≠ .initHeader)
    refine ⟨sent, writer, sends, ?_, output⟩
    have zero : UInt64.ofNat body.length = 0 := by rw [empty]; rfl
    rw [state] at switched
    simp only [EventHandler.nextEvent, state, EventHandler.handlePacketNumBytes, received,
      Option.bind_eq_bind, Option.bind_some, List.nil_append, List.length_nil, if_pos empty]
    rw [if_pos zero, switched]
    rfl
  · obtain ⟨sent, writer, sends, switched, output⟩ := switchToState_of_clean timing
      { handler with reader := rest, pendingRequestBytes := 0 } rfl
      (by decide : State.processPacket ≠ .initHeader)
    refine ⟨sent, writer, sends, ?_, output⟩
    have nonzero : ¬UInt64.ofNat body.length = 0 := by
      intro zero
      rw [zero] at size
      exact empty (List.eq_nil_of_length_eq_zero size.symm)
    have total : EventHandler.requested .processPacket + body.length = body.length :=
      Nat.zero_add _
    rw [state] at switched
    simp only [EventHandler.nextEvent, state, EventHandler.handlePacketNumBytes, received,
      Option.bind_eq_bind, Option.bind_some, List.nil_append, List.length_nil, if_neg empty]
    rw [if_neg nonzero, switched]
    simp only [Option.bind_some, EventHandler.requestBytes, size, total]
    rfl

theorem Stage.numBytes_step (state : handler.state = .recvPacketNumBytes)
    (requested : handler.pendingRequestBytes = 8) (idle : handler.outstanding = none)
    (unread : handler.reader ++ future = packets bodies)
    (named : handler.remoteKey = goal.remoteKey)
    (left : Left host goal handler.server handler.out bodies) (ready : handler.ready = true) :
    ∃ after, handler.nextEvent host timing = some (kNone, after) ∧ Stage host goal after future ∧
      roundsLeft after < roundsLeft handler := by
  rw [ready_iff, requested] at ready
  cases bodies with
  | nil =>
    have length := congrArg List.length unread
    rw [List.length_append] at length
    simp only [packets, List.flatMap_nil, List.length_nil] at length
    omega
  | cons body bodies =>
    have width : (Layout.u64.encode (UInt64.ofNat body.length)).length = 8 :=
      Layout.u64.encode_length _
    rw [packets, List.flatMap_cons, packet, List.append_assoc] at unread
    rw [← width] at ready
    obtain ⟨rest, buffered, behind⟩ := split_front unread ready
    obtain ⟨sent, writer, sends, round, output⟩ := numBytes_round host timing handler state requested
      (left.sized body List.mem_cons_self) buffered
    have shorter := congrArg List.length buffered
    rw [List.length_append, width] at shorter
    rw [← output] at left
    refine ⟨_, round, ?_, ?_⟩
    · by_cases empty : body = []
      · subst empty
        exact .numBytes rfl rfl idle behind named left.skip
      · exact .process (if_neg empty) (if_neg empty) empty idle behind named left
    · have other : ¬(if body = [] then State.recvPacketNumBytes else .processPacket) =
          State.initHeader := by
        split
        · decide
        · decide
      simp only [roundsLeft, if_neg other]
      omega

theorem process_round (host : Host ω) (timing : Timing) (handler : EventHandler ω)
    (state : handler.state = .processPacket) {body : Bytes} (rest : Bytes) (requested : handler.pendingRequestBytes = body.length)
    (buffered : handler.reader = body ++ rest) :
    handler.nextEvent host timing = (readPacket host handler.server body).bind fun result =>
      ({ handler with
          reader := result.2 ++ rest
          pendingRequestBytes := result.2.length
          server := result.1.1 }.answer timing result.1.2).map (Prod.mk kNone) := by
  have received : handler.receive (readPacket host handler.server) =
      (readPacket host handler.server body).map fun result => (result.1,
        { handler with
          reader := result.2 ++ rest, pendingRequestBytes := result.2.length }) := by
    rw [EventHandler.receive, buffered, requested, List.take_left, List.drop_left]
  simp only [EventHandler.nextEvent, state, EventHandler.handleProcessPacket, received,
    Option.bind_eq_bind]
  cases readPacket host handler.server body with
  | none => rfl
  | some result => rfl

theorem Stage.process_step {body : Bytes} (state : handler.state = .processPacket)
    (requested : handler.pendingRequestBytes = body.length) (nonempty : body ≠ [])
    (idle : handler.outstanding = none) (unread : handler.reader ++ future = body ++ packets bodies)
    (named : handler.remoteKey = goal.remoteKey)
    (left : Left host goal handler.server handler.out (body :: bodies))
    (ready : handler.ready = true) :
    ∃ after, handler.nextEvent host timing = some (kNone, after) ∧ Stage host goal after future ∧
      roundsLeft after < roundsLeft handler := by
  rw [ready_iff, requested] at ready
  obtain ⟨rest, buffered, behind⟩ := split_front unread ready
  have shorter := congrArg List.length buffered
  rw [List.length_append] at shorter
  have long := List.length_pos_of_ne_nil nonempty
  have first : ¬State.processPacket = State.initHeader := by decide
  obtain ⟨sized, replies, serves, total⟩ := left
  have later : ∀ body ∈ bodies, body.length < 2 ^ 64 :=
    fun body membership => sized body (List.mem_cons_of_mem _ membership)
  have round := process_round host timing handler state rest requested buffered
  rcases serves.first with ⟨middle, reply, behindIt, served, remaining, rfl⟩ | ⟨rfl, rfl, shut, read⟩
  · cases served with
    | empty => exact absurd rfl nonempty
    | packet read answers =>
      obtain ⟨after, answered, stage, same, entered⟩ := Stage.answer timing
        { handler with reader := rest, pendingRequestBytes := 0, server := middle }
        rfl idle behind named answers
        ⟨later, _, remaining, (List.append_assoc _ _ _).trans total⟩
      rw [read, Option.bind_some] at round
      refine ⟨after, round.trans (congrArg (Option.map (Prod.mk kNone)) answered), stage, ?_⟩
      simp only [roundsLeft, state, if_neg first, same, if_neg entered]
      omega
  · obtain ⟨sent, writer, sends, switched, output⟩ := switchToState_of_clean timing
      { handler with reader := rest, pendingRequestBytes := 0, server := goal.server } rfl
      (by decide : State.shutdownReceived ≠ .initHeader)
    rw [read, Option.bind_some] at round
    refine ⟨_, round.trans (congrArg (Option.map (Prod.mk kNone)) switched), ?_, ?_⟩
    · refine .closed rfl rfl idle behind named rfl ?_ shut
      rw [List.append_nil] at total
      exact output.trans total
    · have second : ¬State.shutdownReceived = State.initHeader := by decide
      simp only [roundsLeft, state, if_neg first, if_neg second, EventHandler.withOutput]
      omega

theorem Stage.step (stage : Stage host goal handler future) (timing : Timing)
    (active : handler.state ≠ .waitForAsyncCallback) (running : handler.state ≠ .shutdownReceived)
    (ready : handler.ready = true) :
    ∃ after, handler.nextEvent host timing = some (kNone, after) ∧ Stage host goal after future ∧
      roundsLeft after < roundsLeft handler := by
  cases stage with
  | headerLength state step requested idle unread short left =>
    exact Stage.headerLength_step state step requested idle unread short left ready
  | headerKey state step requested resized idle unread left =>
    exact Stage.headerKey_step state step requested resized idle unread left ready
  | numBytes state requested idle unread named left =>
    exact Stage.numBytes_step state requested idle unread named left ready
  | process state requested nonempty idle unread named left =>
    exact Stage.process_step state requested nonempty idle unread named left ready
  | waiting state => exact absurd state active
  | closed state => exact absurd state running

/-- The loop has nothing to do. -/
def Settled (handler : EventHandler ω) : Prop :=
  handler.state = .waitForAsyncCallback ∨ handler.state = .shutdownReceived ∨ handler.ready = false

theorem Stage.loop {fuel : Nat} (stage : Stage host goal handler future) (timing : Timing)
    (enough : roundsLeft handler < fuel) :
    ∃ status after, handler.handleNextEvent host timing fuel = some (status, after) ∧
      Stage host goal after future ∧ Settled after ∧ (status = kNone ∨ status = kShutdown) := by
  induction fuel generalizing handler with
  | zero => exact absurd enough (Nat.not_lt_zero _)
  | succ fuel ih =>
    rw [handleNextEvent]
    by_cases ready : handler.state ≠ .waitForAsyncCallback ∧ handler.ready = true
    · rw [if_pos ready]
      by_cases shut : handler.state = .shutdownReceived
      · have round : handler.nextEvent host timing = some (kShutdown, handler) := by
          simp only [nextEvent, shut]
        have other : ¬kShutdown = kNone := by decide
        rw [round, Option.bind_eq_bind, Option.bind_some, if_neg other]
        exact ⟨kShutdown, handler, rfl, stage, .inr (.inl shut), .inr rfl⟩
      · obtain ⟨after, round, later, fewer⟩ := stage.step timing ready.1 shut ready.2
        rw [round, Option.bind_eq_bind, Option.bind_some, if_pos rfl]
        exact ih later (lt_of_lt_of_le fewer (Nat.le_of_lt_succ enough))
    · rw [if_neg ready]
      refine ⟨kNone, handler, rfl, stage, ?_, .inl rfl⟩
      by_cases waits : handler.state = .waitForAsyncCallback
      · exact .inl waits
      · refine .inr (.inr ?_)
        have unready := fun isReady => ready ⟨waits, isReady⟩
        exact Bool.eq_false_of_not_eq_true unready

theorem Stage.withOutput (stage : Stage host goal handler future) {sent writer : Bytes}
    {sends : Nat} (same : sent ++ writer = handler.out) :
    Stage host goal (handler.withOutput sent writer sends) future := by
  have out : handler.out = (handler.withOutput sent writer sends).out := same.symm
  cases stage with
  | headerLength state step requested idle unread short left =>
    exact .headerLength state step requested idle unread short (out ▸ left)
  | headerKey state step requested resized idle unread left =>
    exact .headerKey state step requested resized idle unread (out ▸ left)
  | numBytes state requested idle unread named left =>
    exact .numBytes state requested idle unread named (out ▸ left)
  | process state requested nonempty idle unread named left =>
    exact .process state requested nonempty idle unread named (out ▸ left)
  | waiting state clean called replies unread named left =>
    exact .waiting state clean called replies unread named (out ▸ left)
  | closed state clean idle unread named served written shut =>
    exact .closed state clean idle unread named served (same.trans written) shut

theorem Stage.buffer {inBytes : Bytes} (stage : Stage host goal handler (inBytes ++ future)) :
    Stage host goal { handler with reader := handler.reader ++ inBytes } future := by
  have regroup : ∀ {bytes : Bytes}, handler.reader ++ (inBytes ++ future) = bytes →
      (handler.reader ++ inBytes) ++ future = bytes :=
    fun unread => (List.append_assoc _ _ _).trans unread
  cases stage with
  | headerLength state step requested idle unread short left =>
    exact .headerLength state step requested idle (regroup unread) short left
  | headerKey state step requested resized idle unread left =>
    exact .headerKey state step requested resized idle (regroup unread) left
  | numBytes state requested idle unread named left =>
    exact .numBytes state requested idle (regroup unread) named left
  | process state requested nonempty idle unread named left =>
    exact .process state requested nonempty idle (regroup unread) named left
  | waiting state clean called replies unread named left =>
    exact .waiting state clean called replies (regroup unread) named left
  | closed state clean idle unread named served written shut =>
    exact .closed state clean idle (regroup unread) named served written shut

theorem Stage.report (stage : Stage host goal handler future) (timing : Timing) {status : Int32}
    (status_eq : status = kNone ∨ status = kShutdown) (eventFlag : Int32) :
    ∃ code after, handler.report timing status eventFlag = some (code, after) ∧
      Stage host goal after future ∧ after.reader = handler.reader ∧ after.state = handler.state ∧
        after.pendingRequestBytes = handler.pendingRequestBytes := by
  have reported : ∃ after, (if eventFlag &&& 2 ≠ 0 ∧ handler.writer ≠ [] then handler.send timing
      else handler) = after ∧ Stage host goal after future ∧ after.reader = handler.reader ∧
        after.state = handler.state ∧
          after.pendingRequestBytes = handler.pendingRequestBytes := by
    split
    · obtain ⟨sent, writer, sends, same, output⟩ := send_output timing handler
      exact ⟨_, same, stage.withOutput output, rfl, rfl, rfl⟩
    · exact ⟨handler, rfl, stage, rfl, rfl, rfl⟩
  obtain ⟨after, same, kept⟩ := reported
  have fine : ¬(status = kReturn ∨ status = kCopyAck) := by
    rcases status_eq with rfl | rfl
    · decide
    · decide
  rw [EventHandler.report, if_neg fine]
  simp only [same]
  split
  · exact ⟨_, after, rfl, kept⟩
  · split
    · exact ⟨_, after, rfl, kept⟩
    · exact ⟨_, after, rfl, kept⟩

theorem Stage.io {inBytes : Bytes} (stage : Stage host goal handler (inBytes ++ future))
    (timing : Timing) (nonempty : inBytes ≠ []) (eventFlag : Int32) :
    ∃ after, handler.event host timing (.io inBytes eventFlag) = some after ∧
      Stage host goal after future ∧ Settled after := by
  have bound : roundsLeft { handler with reader := handler.reader ++ inBytes } <
      (handler.reader ++ inBytes).length + 3 := by
    rw [roundsLeft]
    split
    · exact Nat.lt_succ_self _
    · exact Nat.lt_add_of_pos_right (by decide)
  obtain ⟨status, handled, looped, later, settled, status_eq⟩ := stage.buffer.loop timing bound
  obtain ⟨code, after, reported, kept, reader, state, pending⟩ := later.report timing status_eq eventFlag
  have done : handler.serverAsyncIOEventHandler host timing inBytes eventFlag = some (code, after) := by
    rw [serverAsyncIOEventHandler, if_neg nonempty]
    dsimp only
    rw [looped, Option.bind_eq_bind, Option.bind_some]
    exact reported
  refine ⟨after, ?_, kept, ?_⟩
  · rw [EventHandler.event, done]
    rfl
  · rw [Settled, EventHandler.ready, state, reader, pending]
    exact settled

theorem Stage.quiet (stage : Stage host goal handler future) (timing : Timing) {event : Event}
    (quiet : event = .callback ∨ ∃ eventFlag, event = .io [] eventFlag) :
    ∃ after, handler.event host timing event = some after ∧ Stage host goal after future ∧
      after.reader = handler.reader ∧
        (after.state = handler.state ∨ after.state = .recvPacketNumBytes) := by
  rcases quiet with rfl | ⟨eventFlag, rfl⟩
  · cases called : handler.outstanding with
    | none => exact ⟨handler, by rw [EventHandler.event, called], stage, rfl, .inl rfl⟩
    | some completion =>
      cases stage with
      | waiting state clean known replies unread named left =>
        obtain rfl := Option.some.inj (called.symm.trans known)
        obtain ⟨after, completed, later, same, entered⟩ := Stage.complete timing handler clean unread
          named replies left
        refine ⟨after, ?_, later, same, .inr entered⟩
        rw [EventHandler.event, called]
        exact completed
      | headerLength _ _ _ idle => rw [idle] at called; cases called
      | headerKey _ _ _ _ idle => rw [idle] at called; cases called
      | numBytes _ _ idle => rw [idle] at called; cases called
      | process _ _ _ idle => rw [idle] at called; cases called
      | closed _ _ idle => rw [idle] at called; cases called
  · obtain ⟨code, after, reported, kept, reader, state, -⟩ :=
      stage.report timing (.inl rfl : kNone = kNone ∨ kNone = kShutdown) eventFlag
    refine ⟨after, ?_, kept, reader, .inl state⟩
    rw [EventHandler.event, serverAsyncIOEventHandler, if_pos rfl, reported]
    rfl

end Tvm.RpcEndpoint
