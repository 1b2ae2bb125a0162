import Tvm.MicroRpc.Session

/-!
# What a session receives

The spec of `SessionReceiver`: which bytes end up unread in the receive buffer, and
which message a packet hands to the callback.
-/

namespace Tvm.MicroRpc

open Tvm.Lib Tvm.Crt

universe u

namespace Session

variable {τ : Type u} {transport : Transport τ} {clears : MessageType → Bool}
  {session session' : Session τ}

/-- The session once `data` is in its receive buffer. -/
def deposit (session : Session τ) (data : Bytes) : Session τ :=
  { session with receiveBuffer := (session.receiveBuffer.write data).2 }

@[simp] theorem deposit_nil (session : Session τ) : session.deposit [] = session := by
  simp [deposit]

/-- The receiver is not blocked by a complete message and has room for `data`. -/
structure Accepts (session : Session τ) (data : Bytes) : Prop where
  idle : session.receiveBufferHasCompleteMessage = false
  room : session.receiveBuffer.data.length + data.length ≤ session.receiveBuffer.capacity

theorem Accepts.left {first second : Bytes} (accepts : session.Accepts (first ++ second)) :
    session.Accepts first where
  idle := accepts.idle
  room := by
    have room := accepts.room
    rw [List.length_append] at room
    omega

theorem Accepts.right {first second : Bytes} (accepts : session.Accepts (first ++ second)) :
    (session.deposit first).Accepts second where
  idle := accepts.idle
  room := by
    have room := accepts.room
    have stored := (session.receiveBuffer.write_of_room first accepts.left.room).2.1
    simp only [deposit, FrameBuffer.write_capacity, stored, List.length_append] at room ⊢
    omega

theorem Accepts.append {first second : Bytes} (accepts : session.Accepts first)
    (later : (session.deposit first).Accepts second) : session.Accepts (first ++ second) where
  idle := accepts.idle
  room := by
    have room := later.room
    have stored := (session.receiveBuffer.write_of_room first accepts.room).2.1
    simp only [deposit, FrameBuffer.write_capacity, stored, List.length_append] at room ⊢
    omega

theorem Accepts.deposit_deposit {first second : Bytes}
    (accepts : session.Accepts (first ++ second)) :
    (session.deposit first).deposit second = session.deposit (first ++ second) := by
  simp only [deposit]
  rw [FrameBuffer.write_write _ _ _ accepts.room]

theorem Accepts.unread {data : Bytes} (accepts : session.Accepts data) :
    (session.deposit data).receiveBuffer.unread = session.receiveBuffer.unread ++ data :=
  (session.receiveBuffer.write_of_room data accepts.room).2.2

theorem Accepts.receiverWrite {data : Bytes} (accepts : session.Accepts data) :
    session.receiverWrite data = ((data.length : Int), session.deposit data) := by
  have whole := (session.receiveBuffer.write_of_room data accepts.room).1
  simp [Session.receiverWrite, accepts.idle, whole, deposit]

/-- A call that is accepted has stored all its data: the codes of a refused one exceed what a
staging buffer can hold. -/
theorem accepts_of_takes {data : Bytes} (staged : data.length ≤ WriteStream.kStagingBytes)
    (taken : (session.receiverWrite data).1 ≤ data.length) : session.Accepts data := by
  unfold WriteStream.kStagingBytes at staged
  unfold Session.receiverWrite at taken
  by_cases idle : session.receiveBufferHasCompleteMessage = true
  · have code : CrtError.sessionReceiveBufferBusy.value = 1025 := by decide
    simp only [idle, if_true, code] at taken
    omega
  · simp only [idle, Bool.false_eq_true, if_false] at taken
    by_cases whole : (session.receiveBuffer.write data).1 = data.length
    · refine ⟨by simpa using idle, ?_⟩
      have bound := session.receiveBuffer.data_le
      simp only [FrameBuffer.write] at whole
      omega
    · have code : CrtError.sessionReceiveBufferShortWrite.value = 1026 := by decide
      simp only [whole, ne_eq, not_false_eq_true, if_true, code] at taken
      omega

theorem split_bytes {taken data : Bytes} {events tail : List StreamEvent}
    (split : taken.map .byte ++ events = data.map .byte ++ tail)
    (ends : ∀ value rest, tail ≠ .byte value :: rest) :
    ∃ rest, data = taken ++ rest ∧ events = rest.map .byte ++ tail := by
  induction taken generalizing data with
  | nil => exact ⟨data, rfl, by simpa using split⟩
  | cons value taken ih =>
    cases data with
    | nil => exact absurd (by simpa using split.symm) (ends value (taken.map .byte ++ events))
    | cons other data =>
      simp only [List.map_cons, List.cons_append, List.cons.injEq, StreamEvent.byte.injEq] at split
      obtain ⟨rest, rfl, visible⟩ := ih split.2
      exact ⟨rest, by simp [split.1], visible⟩

instance (session : Session τ) (data : Bytes) : Decidable (session.Accepts data) :=
  decidable_of_iff (session.receiveBufferHasCompleteMessage = false ∧
      session.receiveBuffer.data.length + data.length ≤ session.receiveBuffer.capacity)
    ⟨fun ⟨idle, room⟩ => ⟨idle, room⟩, fun accepts => ⟨accepts.idle, accepts.room⟩⟩

theorem trace_bytes {payload : Bytes} {events tail : List StreamEvent}
    {s s' : Option (Session τ)} (trace : (receiver transport clears).Trace s events s')
    (begins : s = some session) (visible : events = payload.map .byte ++ tail)
    (ends : ∀ value rest, tail ≠ .byte value :: rest) :
    (payload ≠ [] → session.Accepts payload) ∧
      (receiver transport clears).Trace (some (session.deposit payload)) tail s' := by
  induction trace generalizing session payload with
  | nil s =>
    obtain ⟨rfl, rfl⟩ : payload = [] ∧ tail = [] := by simpa using visible.symm
    simpa [begins] using WriteStream.Trace.nil _
  | @write s s' data events nonempty staged takes rest ih =>
    subst begins
    have accepts : session.Accepts data := accepts_of_takes staged takes.2
    have effect : (receiver transport clears).write (some session) data =
        ((data.length : Int), some (session.deposit data)) := by
      simp [receiver, accepts.receiverWrite]
    rw [effect] at visible
    obtain ⟨left, rfl, remaining⟩ := split_bytes visible ends
    obtain ⟨acceptsLeft, onward⟩ := ih (by rw [effect]) remaining
    have both : session.Accepts (data ++ left) := by
      by_cases empty : left = []
      · simpa [empty] using accepts
      · exact accepts.append (acceptsLeft empty)
    simp only [Int.toNat_natCast, List.take_length] at onward ⊢
    rw [← both.deposit_deposit]
    exact ⟨fun _ => both, onward⟩
  | packetDone rest ih =>
    obtain rfl : payload = [] := by
      cases payload with
      | nil => rfl
      | cons value payload => simp at visible
    obtain rfl : _ = tail := by simpa using visible
    rw [begins] at rest
    simpa using WriteStream.Trace.packetDone rest

theorem split_middle {before after tail : List StreamEvent} {data payload : Bytes}
    (split : payload.map .byte ++ tail = before ++ data.map .byte ++ after) (nonempty : data ≠ [])
    (ends : ∀ value, StreamEvent.byte value ∉ tail) :
    ∃ earlier later, before = earlier.map .byte ∧ payload = earlier ++ data ++ later := by
  rw [List.append_assoc] at split
  rcases List.append_eq_append_iff.mp split with ⟨extra, rfl, rest⟩ | ⟨extra, inside, rest⟩
  · obtain ⟨value, data, rfl⟩ := List.exists_cons_of_ne_nil nonempty
    exact absurd (by rw [rest]; simp) (ends value)
  · obtain ⟨earlier, remaining, rfl, rfl, rfl⟩ := List.map_eq_append_iff.mp inside
    have headless : ∀ value rest, tail ≠ .byte value :: rest := by
      intro value rest tailEq
      exact ends value (by simp [tailEq])
    obtain ⟨later, rfl, _⟩ := split_bytes rest headless
    exact ⟨earlier, later, rfl, by rw [List.append_assoc]⟩

theorem receiver_takes {payload : Bytes} {tail : List StreamEvent}
    (ends : ∀ value, StreamEvent.byte value ∉ tail) (accepts : session.Accepts payload) :
    (receiver transport clears).Takes (some session) (payload.map .byte ++ tail) := by
  intro before data after s' split nonempty trace
  obtain ⟨earlier, later, rfl, rfl⟩ := split_middle split nonempty ends
  have reached : (receiver transport clears).Trace (some (session.deposit earlier)) [] s' :=
    (trace_bytes trace rfl (by simp) (by simp)).2
  have written := accepts.left.right.receiverWrite
  rw [reached.eq_of_nil]
  have positive := List.length_pos_iff.mpr nonempty
  constructor
  · simpa [receiver, written] using positive
  · simp [receiver, written]

theorem trace_of_accepts {message : Bytes} (nonempty : message ≠ [])
    (staged : message.length ≤ WriteStream.kStagingBytes) (accepts : session.Accepts message)
    (isValid : Bool) :
    (receiver transport clears).Trace (some session)
      (message.map .byte ++ [.packetDone isValid])
      ((session.deposit message).packetDone transport clears isValid) := by
  have effect : (receiver transport clears).write (some session) message =
      ((message.length : Int), some (session.deposit message)) := by
    simp [receiver, accepts.receiverWrite]
  have takes : (receiver transport clears).TakesSome (some session) message := by
    have positive := List.length_pos_iff.mpr nonempty
    rw [WriteStream.TakesSome, effect]
    exact ⟨by simpa using positive, le_rfl⟩
  have rest : (receiver transport clears).Trace
      ((receiver transport clears).write (some session) message).2 [.packetDone isValid]
      ((session.deposit message).packetDone transport clears isValid) := by
    rw [effect]
    exact .single_done (some (session.deposit message)) isValid
  have written := WriteStream.Trace.write nonempty staged takes rest
  rw [effect] at written
  simpa using written

/-- The message among the calls of the callback, if it is one. -/
def messageOf : Received → Option (SessionHeader × Bytes)
  | .control _ => none
  | .message header body => some (header, body)

def messages (session : Session τ) : List (SessionHeader × Bytes) :=
  session.received.filterMap messageOf

theorem sendSessionStartReply_messages {header : SessionHeader}
    (replies : session.sendSessionStartReply transport header = some session') :
    session'.messages = session.messages := by
  unfold sendSessionStartReply at replies
  by_cases sent : (((session.regenerateNonce.setSessionId (initiatorNonce header.sessionId)
      session.regenerateNonce.localNonce).sendInternal transport kStartSessionReply
        [kVersion]).1 ≠ .noError)
  · simp [sent] at replies
  · simp only [sent, if_false, Option.some.injEq] at replies
    subst replies
    simp [messages, onSessionEstablishedMessage, messageOf, sendInternal, setSessionId,
      regenerateNonce]

theorem startSession_messages {error : CrtError}
    (starts : session.startSession transport = some (error, session')) :
    session'.messages = session.messages := by
  unfold startSession at starts
  split at starts
  · simp at starts
  · simp only [Option.some.injEq, Prod.mk.injEq] at starts
    rw [← starts.2]
    split <;> rfl

theorem call_messages {call : Call} (called : session.call transport call = some session') :
    session'.messages = session.messages := by
  cases call with
  | initializeSession nonce =>
    rw [← Option.some.inj called]
    rfl
  | startSession =>
    obtain ⟨⟨error, started⟩, starts, rfl⟩ := Option.map_eq_some_iff.mp called
    exact startSession_messages starts
  | terminateSession =>
    rw [← Option.some.inj called]
    rfl
  | sendMessage messageType body =>
    rw [← Option.some.inj called, sendMessage]
    split <;> rfl
  | clearReceiveBuffer =>
    rw [← Option.some.inj called]
    rfl

theorem readVersion_messages (session : Session τ) :
    session.readVersion.2.messages = session.messages := rfl

theorem processStartSessionInit_messages {header : SessionHeader}
    (processed : session.processStartSessionInit transport header = some session') :
    session'.messages = session.messages := by
  unfold processStartSessionInit at processed
  have read := session.readVersion_messages
  revert read processed
  rcases session.readVersion with ⟨version?, next⟩
  intro processed read
  split at processed
  · rw [Option.some.inj processed]
  · cases version? with
    | none =>
      rw [← Option.some.inj processed]
      exact read
    | some version =>
      rw [← read]
      cases state : next.state with
      | reset =>
        simp only [state] at processed
        exact sendSessionStartReply_messages processed
      | noSessionEstablished =>
        simp only [state] at processed
        exact sendSessionStartReply_messages processed
      | startSessionSent =>
        simp only [state] at processed
        split at processed
        · split at processed
          · exact sendSessionStartReply_messages processed
          · rw [Option.some.inj processed]
        · split at processed
          · obtain ⟨⟨error, started⟩, starts, rfl⟩ := Option.map_eq_some_iff.mp processed
            exact startSession_messages starts
          · rw [Option.some.inj processed]
      | sessionEstablished =>
        simp only [state] at processed
        obtain ⟨replied, replies, rfl⟩ := Option.map_eq_some_iff.mp processed
        rw [← sendSessionStartReply_messages replies]
        simp [messages, onSessionEstablishedMessage, messageOf]

theorem processStartSessionReply_messages {header : SessionHeader}
    (processed : session.processStartSessionReply transport header = some session') :
    session'.messages = session.messages := by
  unfold processStartSessionReply at processed
  have read := session.readVersion_messages
  revert read processed
  rcases session.readVersion with ⟨version?, next⟩
  intro processed read
  split at processed
  · rw [Option.some.inj processed]
  · cases version? with
    | none =>
      rw [← Option.some.inj processed]
      exact read
    | some version =>
      rw [← read]
      cases state : next.state with
      | reset =>
        simp only [state, Option.some.injEq] at processed
        rw [processed]
      | noSessionEstablished =>
        simp only [state, Option.some.injEq] at processed
        rw [processed]
      | startSessionSent =>
        simp only [state] at processed
        split at processed
        · rw [← Option.some.inj processed]
          simp [messages, onSessionEstablishedMessage, messageOf, setSessionId]
        · rw [Option.some.inj processed]
      | sessionEstablished =>
        simp only [state] at processed
        split at processed
        · split at processed
          · exact sendSessionStartReply_messages processed
          · rw [← Option.some.inj processed]
            rfl
        · rw [← Option.some.inj processed]
          rfl

theorem handOver_messages (session : Session τ) (header : SessionHeader) :
    (session.handOver clears header).messages =
      session.messages ++ [(header, session.receiveBuffer.unread)] := by
  unfold handOver
  split <;> simp [messages, messageOf, clearReceiveBuffer]

theorem dispatch_messages {header : SessionHeader}
    (dispatched : session.dispatch transport clears header = some session') :
    session'.messages = session.messages ∨
      session'.messages = session.messages ++ [(header, session.receiveBuffer.unread)] := by
  unfold dispatch at dispatched
  split at dispatched
  · obtain ⟨next, processed, rfl⟩ := Option.map_eq_some_iff.mp dispatched
    have same := processStartSessionInit_messages processed
    exact .inl same
  split at dispatched
  · obtain ⟨next, processed, rfl⟩ := Option.map_eq_some_iff.mp dispatched
    have same := processStartSessionReply_messages processed
    exact .inl same
  split at dispatched
  · rw [← Option.some.inj dispatched]
    refine .inl ?_
    split
    · simp [messages, messageOf, onSessionTerminatedMessage, setComplete]
    · rfl
  split at dispatched
  all_goals
    rw [← Option.some.inj dispatched]
    split
    · exact .inr (session.handOver_messages header)
    · exact .inl rfl

theorem packetDone_messages {isValid : Bool}
    (done : session.packetDone transport clears isValid = some session') :
    session'.messages = session.messages ∨
      isValid = true ∧ ∃ header body, session'.messages = session.messages ++ [(header, body)] ∧
        header.bytes ++ body = session.receiveBuffer.unread := by
  unfold packetDone at done
  cases isValid with
  | false =>
    simp only [Bool.not_false, if_true, Option.some.injEq] at done
    exact .inl (by rw [done])
  | true =>
    simp only [Bool.not_true, Bool.false_eq_true, if_false, FrameBuffer.read_fst] at done
    by_cases whole : (session.receiveBuffer.unread.take kSessionHeaderBytes).length =
        kSessionHeaderBytes
    · simp only [whole, ne_eq, not_true_eq_false, if_false] at done
      have start := SessionHeader.bytes_ofBytes _ whole
      rcases dispatch_messages done with nothing | handed
      · exact .inl nothing
      · refine .inr ⟨rfl, _, _, handed, ?_⟩
        simp only [setComplete]
        rw [start, FrameBuffer.read_unread, List.take_append_drop]
    · simp only [whole, ne_eq, not_false_eq_true, if_true, Option.some.injEq] at done
      exact .inl (by rw [← done]; rfl)

end Session

end Tvm.MicroRpc
