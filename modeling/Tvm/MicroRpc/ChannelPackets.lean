import Tvm.MicroRpc.ChannelRecv

/-!
# Packets that arrive at a transport channel

However the packets of normal traffic are cut, `ReceiveUntil` hands over one message after the
other.  `BytesNeeded` keeps a chunk inside one packet.
-/

namespace Tvm.MicroRpc

open Tvm.Lib Tvm.Crt WireParser

universe u v w

namespace WriteStream

variable {σ : Type u} {stream : WriteStream σ}

theorem writeAllLoop_noError (passes : Nat) (s : σ) (data : Bytes) (bytesConsumed : Nat)
    (enough : data.length ≤ passes)
    (noError : (stream.writeAllLoop passes s data bytesConsumed).error = .noError) :
    (stream.writeAllLoop passes s data bytesConsumed).bytesConsumed =
      bytesConsumed + data.length := by
  induction passes generalizing s data bytesConsumed with
  | zero =>
    obtain rfl : data = [] := List.eq_nil_of_length_eq_zero (by omega)
    rfl
  | succ passes ih =>
    unfold writeAllLoop at noError ⊢
    by_cases empty : data = []
    · subst empty
      rfl
    · simp only [empty, if_false] at noError ⊢
      split_ifs at noError ⊢ with zero negative long
      change ¬ (stream.write s data).1 = 0 at zero
      change ¬ (stream.write s data).1 < 0 at negative
      change ¬ (data.length : Int) < (stream.write s data).1 at long
      have shorter : (data.drop (stream.write s data).1.toNat).length ≤ passes := by
        rw [List.length_drop]
        omega
      rw [ih _ _ _ shorter noError, List.length_drop]
      change bytesConsumed + (stream.write s data).1.toNat +
        (data.length - (stream.write s data).1.toNat) = bytesConsumed + data.length
      omega

theorem writeAll_noError {s : σ} {data : Bytes}
    (noError : (stream.writeAll s data).error = .noError) :
    (stream.writeAll s data).bytesConsumed = data.length := by
  have whole := writeAllLoop_noError data.length s data 0 le_rfl noError
  rw [Nat.zero_add] at whole
  exact whole

end WriteStream

namespace Unframer

variable {σ : Type u} {ρ : Type v} {stream : WriteStream σ} {other : WriteStream ρ}

theorem findPacketCrcLoop_same (passes : Nat) (unframer : Unframer) (input : Bytes) (s : σ) (r : ρ)
    (noError : (findPacketCrcLoop stream passes unframer input s).error = .noError)
    (noErrorOther : (findPacketCrcLoop other passes unframer input r).error = .noError) :
    (findPacketCrcLoop stream passes unframer input s).unframer =
        (findPacketCrcLoop other passes unframer input r).unframer ∧
      (findPacketCrcLoop stream passes unframer input s).input =
        (findPacketCrcLoop other passes unframer input r).input := by
  induction passes generalizing unframer input s r with
  | zero => exact ⟨rfl, rfl⟩
  | succ passes ih =>
    unfold findPacketCrcLoop at noError noErrorOther ⊢
    by_cases complete : unframer.numPayloadBytesRemaining = 0
    · simp only [complete, if_true, and_self]
    simp only [complete, if_false] at noError noErrorOther ⊢
    generalize unframer.addToBuffer input
      (min unframer.numPayloadBytesRemaining kUnframerBufferBytes) true = added
      at noError noErrorOther ⊢
    obtain ⟨error, filled, rest⟩ := added
    by_cases failed : error = .noError
    · simp only [failed, ne_eq, not_true_eq_false, if_false] at noError noErrorOther ⊢
      by_cases none : unframer.buffer.length = filled.buffer.length
      · simp only [none, if_true, and_self]
      simp only [none, if_false] at noError noErrorOther ⊢
      by_cases written : (stream.writeAll s filled.buffer).error = .noError
      · by_cases writtenOther : (other.writeAll r filled.buffer).error = .noError
        · simp only [written, writtenOther, not_true_eq_false, if_false,
            WriteStream.writeAll_noError written, WriteStream.writeAll_noError writtenOther]
            at noError noErrorOther ⊢
          exact ih _ _ _ _ noError noErrorOther
        · simp only [writtenOther, not_false_eq_true, if_true] at noErrorOther
      · simp only [written, not_false_eq_true, if_true] at noError
    · simp only [failed, ne_eq, not_false_eq_true, if_true, and_self]

theorem find_same (unframer : Unframer) (input : Bytes) (s : σ) (r : ρ)
    (noError : (unframer.find stream input s).error = .noError)
    (noErrorOther : (unframer.find other input r).error = .noError) :
    (unframer.find stream input s).unframer = (unframer.find other input r).unframer ∧
      (unframer.find stream input s).input = (unframer.find other input r).input := by
  unfold find at noError noErrorOther ⊢
  cases here : unframer.state with
  | findPacketStart => exact ⟨rfl, rfl⟩
  | findPacketLength =>
    simp only [findPacketLength]
    split_ifs <;> exact ⟨rfl, rfl⟩
  | findPacketCrc =>
    simp only [here] at noError noErrorOther
    exact findPacketCrcLoop_same _ unframer input s r noError noErrorOther
  | findCrcEnd =>
    simp only [findCrcEnd]
    split_ifs <;> exact ⟨rfl, rfl⟩

theorem writeLoop_same (passes : Nat) (unframer : Unframer) (input : Bytes) (s : σ) (r : ρ)
    (noError : (writeLoop stream passes unframer input s).error = .noError)
    (noErrorOther : (writeLoop other passes unframer input r).error = .noError) :
    (writeLoop stream passes unframer input s).unframer =
      (writeLoop other passes unframer input r).unframer := by
  induction passes generalizing unframer input s r with
  | zero => rfl
  | succ passes ih =>
    unfold writeLoop at noError noErrorOther ⊢
    by_cases empty : input = []
    · simp only [empty, if_true]
    simp only [empty, if_false] at noError noErrorOther ⊢
    by_cases found : (unframer.find stream input s).error = .noError
    · by_cases foundOther : (unframer.find other input r).error = .noError
      · obtain ⟨sameUnframer, sameInput⟩ := find_same unframer input s r found foundOther
        simp only [found, foundOther, ne_eq, not_true_eq_false, if_false] at noError noErrorOther ⊢
        rw [sameUnframer, sameInput] at noError ⊢
        exact ih _ _ _ _ noError noErrorOther
      · simp only [foundOther, ne_eq, not_false_eq_true, if_true] at noErrorOther
    · simp only [found, ne_eq, not_false_eq_true, if_true] at noError

theorem write_same (unframer : Unframer) (data : Bytes) (s : σ) (r : ρ)
    (noError : (unframer.write stream s data).error = .noError)
    (noErrorOther : (unframer.write other r data).error = .noError) :
    (unframer.write stream s data).unframer = (unframer.write other r data).unframer := by
  have same := writeLoop_same _ unframer data s r noError noErrorOther
  have ok : (writeLoop stream (2 * data.length + 1) unframer data s).error = .noError := noError
  have okOther : (writeLoop other (2 * data.length + 1) unframer data r).error = .noError :=
    noErrorOther
  simp only [write, ok, okOther, ne_eq, not_true_eq_false, if_false]
  exact same

end Unframer

namespace MicroTransportChannel

variable {τ : Type u} {transport : Transport τ} {channel : MicroTransportChannel τ}

/-- The channel once `data` is in the receive buffer. -/
def deposit (channel : MicroTransportChannel τ) (data : Bytes) : MicroTransportChannel τ :=
  { channel with session := channel.session.deposit data }

theorem receiver_write {data : Bytes} (accepts : channel.session.Accepts data) :
    (receiver transport).write (some channel) data =
      ((data.length : Int), some (channel.deposit data)) := by
  simp only [receiver, accepts.receiverWrite, deposit]

theorem receiver_trace {payload : Bytes} {events tail : List StreamEvent}
    {s s' : Option (MicroTransportChannel τ)} (trace : (receiver transport).Trace s events s')
    (begins : s = some channel) (visible : events = payload.map .byte ++ tail)
    (ends : ∀ value rest, tail ≠ .byte value :: rest)
    (accepts : channel.session.Accepts payload) :
    (receiver transport).Trace (some (channel.deposit payload)) tail s' := by
  induction trace generalizing channel payload with
  | nil s =>
    obtain ⟨rfl, rfl⟩ : payload = [] ∧ tail = [] := by simpa using visible.symm
    rw [begins, deposit, Session.deposit_nil]
    exact .nil _
  | @write s s' data events nonempty staged takes rest ih =>
    subst begins
    have acceptsData : channel.session.Accepts data := Session.accepts_of_takes staged takes.2
    rw [receiver_write acceptsData] at visible rest
    rw [receiver_write acceptsData] at ih
    rw [Int.toNat_natCast, List.take_length] at visible
    obtain ⟨left, rfl, remaining⟩ := Session.split_bytes visible ends
    have onward := ih rfl remaining accepts.right
    have joined : (channel.deposit data).deposit left = channel.deposit (data ++ left) := by
      simp only [deposit, accepts.deposit_deposit]
    rw [← joined]
    exact onward
  | packetDone rest ih =>
    obtain rfl : payload = [] := by
      cases payload with
      | nil => rfl
      | cons value payload => simp at visible
    obtain rfl : _ = tail := by simpa using visible
    rw [begins] at rest
    rw [deposit, Session.deposit_nil]
    exact .packetDone rest

theorem receiver_takes {payload : Bytes} {tail : List StreamEvent}
    (ends : ∀ value, StreamEvent.byte value ∉ tail) (accepts : channel.session.Accepts payload) :
    (receiver transport).Takes (some channel) (payload.map .byte ++ tail) := by
  intro before data after s' split nonempty trace
  obtain ⟨earlier, later, rfl, rfl⟩ := Session.split_middle split nonempty ends
  have reached : (receiver transport).Trace (some (channel.deposit earlier)) [] s' :=
    receiver_trace trace rfl (List.append_nil _).symm (by simp) accepts.left.left
  rw [reached.eq_of_nil]
  have acceptsData : (channel.deposit earlier).session.Accepts data := accepts.left.right
  have positive := List.length_pos_iff.mpr nonempty
  rw [WriteStream.TakesSome, receiver_write acceptsData]
  exact ⟨by simpa using positive, le_rfl⟩

def payloadOf (sessionId : UInt16) (body : Bytes) : Bytes :=
  (SessionHeader.mk sessionId kNormal).bytes ++ body

/-- A session is established, and no message is held. -/
structure Waits (channel : MicroTransportChannel τ) (sessionId : UInt16) : Prop where
  state : channel.session.state = .sessionEstablished
  sessionId : channel.session.sessionId = sessionId
  unheld : channel.messageBuffer = false
  idle : channel.session.receiveBufferHasCompleteMessage = false
  unreceived : channel.didReceiveMessage = false
  start : channel.session.receiveBuffer.readCursor = 0

/-- A message is held, with `body` unread. -/
structure Holds (channel : MicroTransportChannel τ) (sessionId : UInt16) (body : Bytes) : Prop where
  state : channel.session.state = .sessionEstablished
  sessionId : channel.session.sessionId = sessionId
  held : channel.messageBuffer = true
  received : channel.didReceiveMessage = true
  unread : channel.session.receiveBuffer.unread = body

theorem Waits.packetDone {sessionId : UInt16} {body : Bytes} (waits : channel.Waits sessionId)
    (whole : channel.session.receiveBuffer.data = payloadOf sessionId body) :
    ∃ next, channel.packetDone transport true = some next ∧ next.Holds sessionId body ∧
      next.session.receiveBuffer.capacity = channel.session.receiveBuffer.capacity := by
  have unread : channel.session.receiveBuffer.unread = payloadOf sessionId body := by
    rw [FrameBuffer.unread, waits.start, whole, List.drop_zero]
  have headerBytes : channel.session.receiveBuffer.unread.take kSessionHeaderBytes =
      (SessionHeader.mk sessionId kNormal).bytes := by
    rw [unread, payloadOf, List.take_left' (SessionHeader.bytes_length _)]
  have header : SessionHeader.ofBytes
      (channel.session.receiveBuffer.unread.take kSessionHeaderBytes) = ⟨sessionId, kNormal⟩ := by
    have value := SessionHeader.ofBytes_bytes_append ⟨sessionId, kNormal⟩ []
    rw [List.append_nil] at value
    rw [headerBytes, value]
  have length : (channel.session.receiveBuffer.unread.take kSessionHeaderBytes).length =
      kSessionHeaderBytes := by
    rw [headerBytes, SessionHeader.bytes_length]
  have rest : (channel.session.receiveBuffer.read kSessionHeaderBytes).2.unread = body := by
    rw [FrameBuffer.read_unread, unread, payloadOf, List.drop_left' (SessionHeader.bytes_length _)]
  let session : Session τ := { channel.session with
    sessionId := sessionId
    state := .sessionEstablished
    receiveBuffer := (channel.session.receiveBuffer.read kSessionHeaderBytes).2
    receiveBufferHasCompleteMessage := true
    received := [.message ⟨sessionId, kNormal⟩ body] }
  have plain : kNormal ≠ kStartSessionInit ∧ kNormal ≠ kStartSessionReply ∧
      kNormal ≠ kTerminateSession := by decide
  have normal : ¬ kNormal = kLog := by decide
  have done : ({ channel.session with received := [] } : Session τ).packetDone transport
      (fun _ => false) true = some session := by
    unfold Session.packetDone
    simp only [Bool.not_true, Bool.false_eq_true, if_false, FrameBuffer.read_fst, length, ne_eq,
      not_true_eq_false, header]
    rw [dispatch_plain plain]
    simp only [normal, if_false, Session.setComplete, waits.state, waits.sessionId, and_self,
      if_true, Session.handOver, Bool.false_eq_true, rest, List.nil_append]
    rfl
  refine ⟨{ channel with session := session, didReceiveMessage := true, messageBuffer := true },
    ?_, ⟨rfl, rfl, rfl, rfl, rest⟩, rfl⟩
  unfold MicroTransportChannel.packetDone
  rw [done]
  show [Received.message ⟨sessionId, kNormal⟩ body].foldlM handleMessageReceived
    { channel with session := session } = _
  simp only [List.foldlM_cons, List.foldlM_nil, handleMessageReceived, normal, if_false, if_true]
  rfl

end MicroTransportChannel

namespace ReceivingChannel

variable {τ : Type u} {transport : Transport τ} {receiving next : ReceivingChannel τ}
  {sessionId : UInt16} {wire : Bytes} {bodies : List Bytes}

open MicroTransportChannel

/-- What of the packets has arrived: `todo` is the part of the first one that has not. -/
def Progress (receiving : ReceivingChannel τ) (wire : Bytes) (sessionId : UInt16) :
    List Bytes → Prop
  | [] => ∃ sawEscape, Reads receiving.unframer.parser wire [] ⟨sawEscape, .hunting⟩
  | body :: bodies => ∃ current todo sawEscape,
      wire = current ++ frameAll .idle (bodies.map (payloadOf sessionId)) ∧
        Reads receiving.unframer.parser current (packetEvents todo) ⟨sawEscape, .hunting⟩ ∧
        receiving.channel.session.receiveBuffer.data ++ todo = payloadOf sessionId body ∧
        (receiving.unframer.BeforePayload → receiving.channel.session.receiveBuffer.data = [])

/-- The receive buffer has room for each packet. -/
def Fits (receiving : ReceivingChannel τ) (sessionId : UInt16) (bodies : List Bytes) : Prop :=
  ∀ body ∈ bodies,
    (payloadOf sessionId body).length ≤ receiving.channel.session.receiveBuffer.capacity ∧
      (payloadOf sessionId body).length < 2 ^ 32

structure Awaits (receiving : ReceivingChannel τ) (wire : Bytes) (sessionId : UInt16)
    (bodies : List Bytes) : Prop where
  waits : receiving.channel.Waits sessionId
  formed : receiving.unframer.WellFormed
  pending : receiving.pendingChunk = []
  fits : receiving.Fits sessionId bodies
  progress : receiving.Progress wire sessionId bodies

/-- A message is held, and the unframer is between two packets. -/
structure Keeps (receiving : ReceivingChannel τ) (wire : Bytes) (sessionId : UInt16) (body : Bytes)
    (bodies : List Bytes) : Prop where
  holds : receiving.channel.Holds sessionId body
  formed : receiving.unframer.WellFormed
  pending : receiving.pendingChunk = []
  fits : receiving.Fits sessionId bodies
  between : ∃ gap sawEscape, wire = gap ++ frameAll .idle (bodies.map (payloadOf sessionId)) ∧
    Reads receiving.unframer.parser gap [] ⟨sawEscape, .hunting⟩

theorem payloadOf_ne_nil (sessionId : UInt16) (body : Bytes) : payloadOf sessionId body ≠ [] := by
  intro empty
  have length := congrArg List.length empty
  rw [payloadOf, List.length_append, SessionHeader.bytes_length, kSessionHeaderBytes] at length
  simp at length

theorem not_atEmptyPayload_of_reads {unframer : Unframer} {events : List StreamEvent}
    {sawEscape : Bool} (reads : Reads unframer.parser wire events ⟨sawEscape, .hunting⟩)
    (head : ∀ valid rest, events ≠ .packetDone valid :: rest) : ¬ unframer.AtEmptyPayload := by
  rintro ⟨state, complete⟩
  have phase : unframer.phase = .trailer [] unframer.crc := by
    rw [Unframer.phase, state, complete]
    rfl
  rw [Unframer.parser, phase] at reads
  obtain ⟨valid, rest, same⟩ := reads.trailer_events rfl
  exact head valid rest same

theorem Awaits.bytesNeeded_pos (awaits : receiving.Awaits wire sessionId bodies) :
    1 ≤ receiving.unframer.bytesNeeded := by
  apply Unframer.bytesNeeded_pos awaits.formed
  intro empty
  have progress := awaits.progress
  cases bodies with
  | nil =>
    obtain ⟨sawEscape, reads⟩ := progress
    exact not_atEmptyPayload_of_reads reads (by simp) empty
  | cons body bodies =>
    obtain ⟨current, todo, sawEscape, -, reads, whole, before⟩ := progress
    have nothing := before (.inr (.inr empty))
    rw [nothing, List.nil_append] at whole
    refine not_atEmptyPayload_of_reads reads ?_ empty
    intro valid rest same
    cases todo with
    | nil => exact payloadOf_ne_nil sessionId body whole.symm
    | cons value todo => cases same

theorem bytesNeeded_le_current {unframer : Unframer} {current todo : Bytes} {sawEscape : Bool}
    (reads : Reads unframer.parser current (packetEvents todo) ⟨sawEscape, .hunting⟩) :
    unframer.bytesNeeded ≤ current.length := by
  rcases unframer.bytesNeeded_le with hunts | few
  · have needed : unframer.bytesNeeded = 1 := by rw [Unframer.bytesNeeded, hunts]
    rw [needed]
    cases current with
    | nil =>
      have nothing := congrArg (fun result => result.events) reads
      simp [packetEvents] at nothing
    | cons value current => exact Nat.succ_le_of_lt (Nat.succ_pos _)
  · have reached := missing_reads reads
    exact few.trans (reached.trans (by simp [Phase.missing]))

theorem consume_of_write {chunk : Bytes} {channel : MicroTransportChannel τ} (nonempty : chunk ≠ [])
    (pf : MicroTransportChannel τ → Bool)
    (noError : (receiving.unframer.write (receiver transport) (some receiving.channel)
      chunk).error = .noError)
    (consumed : (receiving.unframer.write (receiver transport) (some receiving.channel)
      chunk).bytesConsumed = some (chunk.length : Int))
    (left : (receiving.unframer.write (receiver transport) (some receiving.channel)
      chunk).stream = some channel) (passes : Nat) :
    ({ receiving with pendingChunk := chunk } : ReceivingChannel τ).consumeReceivedPayload transport
        pf (passes + 2) =
      some (pf channel, ⟨channel, (receiving.unframer.write (receiver transport)
        (some receiving.channel) chunk).unframer, []⟩) := by
  have code : ¬ CrtError.noError.value < 0 := by decide
  have whole : ¬ ((chunk.length : Int) < 0 ∨ (chunk.length : Int) < chunk.length) := by omega
  rw [consumeReceivedPayload]
  simp only [nonempty, if_false, left, consumed, whole, noError, code, Int.toNat_natCast,
    List.drop_length]
  cases answer : pf channel with
  | true => simp only [if_true]
  | false =>
    simp only [Bool.false_eq_true, if_false]
    rw [consumeReceivedPayload]
    simp only [if_true]

theorem packetEvents_split {todo : Bytes} {first second : List StreamEvent}
    (split : packetEvents todo = first ++ second) :
    (second = [] ∧ first = packetEvents todo) ∨ ∃ here later, todo = here ++ later ∧
      first = here.map .byte ∧ second = packetEvents later := by
  rcases List.eq_nil_or_concat second with rfl | ⟨init, last, rfl⟩
  · exact .inl ⟨rfl, by rw [split, List.append_nil]⟩
  · rw [packetEvents, List.concat_eq_append, ← List.append_assoc] at split
    obtain ⟨bytes, last_eq⟩ := List.append_inj' split rfl
    obtain ⟨here, later, rfl, rfl, rfl⟩ := List.map_eq_append_iff.mp bytes
    refine .inr ⟨here, later, rfl, rfl, ?_⟩
    rw [packetEvents, List.concat_eq_append, last_eq]

theorem Awaits.accepts {todo body : Bytes} (awaits : receiving.Awaits wire sessionId (body :: bodies))
    (whole : receiving.channel.session.receiveBuffer.data ++ todo = payloadOf sessionId body) :
    receiving.channel.session.Accepts todo where
  idle := awaits.waits.idle
  room := by
    have room := (awaits.fits body List.mem_cons_self).1
    rw [← whole, List.length_append] at room
    exact room

theorem packetEvents_takes {channel : MicroTransportChannel τ} {todo : Bytes}
    (accepts : channel.session.Accepts todo) :
    (receiver transport).Takes (some channel) (packetEvents todo) :=
  receiver_takes (by simp) accepts

theorem write_quiet_receiver {unframer : Unframer} {chunk : Bytes} {events : List StreamEvent}
    {middle : WireParser} {channel : MicroTransportChannel τ} (formed : unframer.WellFormed)
    (reads : Reads unframer.parser chunk events middle)
    (noError : (unframer.write (receiver transport) (some channel) chunk).error = .noError) :
    Unframer.Quiet unframer events
      (unframer.write (receiver transport) (some channel) chunk).unframer := by
  obtain ⟨noErrorSink, -⟩ := Unframer.write_of_reads unframer chunk formed reads
    (WriteStream.sink_accepts.takes () events)
  obtain ⟨shown, readsSink, quiet⟩ := Unframer.write_quiet WriteStream.sink_accepts unframer chunk
    formed noErrorSink
  have same : events = shown := congrArg RunResult.events (reads.symm.trans readsSink)
  rw [same, Unframer.write_same unframer chunk (some channel) () noError noErrorSink]
  exact quiet

theorem Awaits.consume_packet {chunk current todo body : Bytes} {sawEscape : Bool}
    (awaits : receiving.Awaits (chunk ++ current ++
      frameAll .idle (bodies.map (payloadOf sessionId))) sessionId (body :: bodies))
    (nonempty : chunk ≠ [])
    (reads : Reads receiving.unframer.parser (chunk ++ current) (packetEvents todo)
      ⟨sawEscape, .hunting⟩)
    (whole : receiving.channel.session.receiveBuffer.data ++ todo = payloadOf sessionId body)
    (before : receiving.unframer.BeforePayload →
      receiving.channel.session.receiveBuffer.data = []) (passes : Nat) :
    ∃ done next, ({ receiving with pendingChunk := chunk } :
        ReceivingChannel τ).consumeReceivedPayload transport (·.didReceiveMessage) (passes + 2) =
          some (done, next) ∧
      next.channel.session.receiveBuffer.capacity =
        receiving.channel.session.receiveBuffer.capacity ∧
      ((done = false ∧ next.Awaits (current ++ frameAll .idle (bodies.map (payloadOf sessionId)))
          sessionId (body :: bodies)) ∨
        done = true ∧ next.Keeps (current ++ frameAll .idle (bodies.map (payloadOf sessionId)))
          sessionId body bodies) := by
  obtain ⟨first, middle, second, here, later, split⟩ := reads.split
  have accepts := awaits.accepts whole
  have takes : (receiver transport).Takes (some receiving.channel) first := by
    have all : (receiver transport).Takes (some receiving.channel) (packetEvents todo) :=
      packetEvents_takes accepts
    rw [split] at all
    exact all.left
  obtain ⟨noError, consumed, formed, parserEq, trace⟩ := Unframer.write_of_reads
    receiving.unframer chunk awaits.formed here takes
  have quiet := write_quiet_receiver awaits.formed here noError
  rw [← parserEq] at later
  rcases packetEvents_split split with ⟨rfl, rfl⟩ | ⟨arrived, missing, rfl, rfl, rfl⟩
  · have done := receiver_trace trace rfl rfl (by simp) accepts
    have stored := (receiving.channel.session.receiveBuffer.write_of_room todo accepts.room).2.1
    have waits : (receiving.channel.deposit todo).Waits sessionId :=
      ⟨awaits.waits.state, awaits.waits.sessionId, awaits.waits.unheld, awaits.waits.idle,
        awaits.waits.unreceived, awaits.waits.start⟩
    obtain ⟨next, finished, holds, capacity⟩ := waits.packetDone (stored.trans whole)
    have left := done.eq_of_done.trans finished
    have consumes := consume_of_write nonempty (·.didReceiveMessage) noError consumed left passes
    rw [holds.received] at consumes
    refine ⟨true, _, consumes, capacity, .inr ⟨rfl, holds, formed, rfl, ?_, current, sawEscape, rfl,
      later⟩⟩
    intro other membership
    have room := awaits.fits other (List.mem_cons_of_mem body membership)
    exact ⟨room.1.trans capacity.ge, room.2⟩
  · have acceptsArrived := accepts.left
    have done := receiver_trace trace rfl (List.append_nil _).symm (by simp) acceptsArrived
    have stored := (receiving.channel.session.receiveBuffer.write_of_room arrived
      acceptsArrived.room).2.1
    have consumes := consume_of_write nonempty (·.didReceiveMessage) noError consumed
      done.eq_of_nil passes
    have silent : (receiving.channel.deposit arrived).didReceiveMessage = false :=
      awaits.waits.unreceived
    rw [silent] at consumes
    refine ⟨false, _, consumes, rfl, .inl ⟨rfl, ?_⟩⟩
    refine ⟨⟨awaits.waits.state, awaits.waits.sessionId, awaits.waits.unheld, awaits.waits.idle,
      awaits.waits.unreceived, awaits.waits.start⟩, formed, rfl, awaits.fits, current, missing,
      sawEscape, rfl, later, ?_, ?_⟩
    · show (receiving.channel.session.receiveBuffer.write arrived).2.data ++ missing = _
      rw [stored, List.append_assoc, whole]
    · intro beforePayload
      show (receiving.channel.session.receiveBuffer.write arrived).2.data = []
      rcases quiet beforePayload with ⟨earlier, none⟩ | ⟨front, valid, ends⟩
      · rw [stored, before earlier, List.map_eq_nil_iff.mp none]
        rfl
      · have latest := congrArg List.getLast? ends
        simp at latest

theorem Awaits.consume {chunk : Bytes} (awaits : receiving.Awaits (chunk ++ wire) sessionId bodies)
    (nonempty : chunk ≠ []) (few : chunk.length ≤ receiving.unframer.bytesNeeded) (passes : Nat) :
    ∃ done next, ({ receiving with pendingChunk := chunk } :
        ReceivingChannel τ).consumeReceivedPayload transport (·.didReceiveMessage) (passes + 2) =
          some (done, next) ∧
      next.channel.session.receiveBuffer.capacity =
        receiving.channel.session.receiveBuffer.capacity ∧
      ((done = false ∧ next.Awaits wire sessionId bodies) ∨
        done = true ∧ ∃ body rest, bodies = body :: rest ∧ next.Keeps wire sessionId body rest) := by
  have progress := awaits.progress
  cases bodies with
  | nil =>
    obtain ⟨sawEscape, reads⟩ := progress
    obtain ⟨first, middle, second, here, later, nothing⟩ := reads.split
    obtain ⟨rfl, rfl⟩ := List.append_eq_nil_iff.mp nothing.symm
    have takes : (receiver transport).Takes (some receiving.channel) [] := .nil _
    obtain ⟨noError, consumed, formed, parserEq, trace⟩ := Unframer.write_of_reads
      receiving.unframer chunk awaits.formed here takes
    refine ⟨_, _, consume_of_write nonempty _ noError consumed trace.eq_of_nil passes, rfl,
      .inl ⟨awaits.waits.unreceived, awaits.waits, formed, rfl, awaits.fits, sawEscape, ?_⟩⟩
    rw [parserEq]
    exact later
  | cons body bodies =>
    obtain ⟨current, todo, sawEscape, split, reads, whole, before⟩ := progress
    have small := few.trans (bytesNeeded_le_current reads)
    obtain ⟨rest, rfl, rfl⟩ : ∃ rest, current = chunk ++ rest ∧
        wire = rest ++ frameAll .idle (bodies.map (payloadOf sessionId)) := by
      rcases List.append_eq_append_iff.mp split with ⟨rest, inside, behind⟩ | ⟨rest, longer, behind⟩
      · exact ⟨rest, inside, behind⟩
      · have lengths := congrArg List.length longer
        rw [List.length_append] at lengths
        obtain rfl : rest = [] := List.eq_nil_of_length_eq_zero (by omega)
        exact ⟨[], by rw [longer, List.append_nil, List.append_nil], behind.symm⟩
    rw [← List.append_assoc] at awaits
    obtain ⟨done, next, consumes, capacity, outcome⟩ :=
      awaits.consume_packet nonempty reads whole before passes
    refine ⟨done, next, consumes, capacity, ?_⟩
    rcases outcome with unfinished | ⟨finished, keeps⟩
    · exact .inl unfinished
    · exact .inr ⟨finished, body, bodies, rfl, keeps⟩

theorem Awaits.repend (awaits : receiving.Awaits wire sessionId bodies) :
    ({ receiving with pendingChunk := [] } : ReceivingChannel τ) = receiving := by
  obtain ⟨channel, unframer, pendingChunk⟩ := receiving
  obtain rfl : pendingChunk = [] := awaits.pending
  rfl

/-- A message is handed over, or the transport runs into a timeout. -/
def Received (before next : ReceivingChannel τ) (done : Bool) (wire : Bytes) (sessionId : UInt16)
    (bodies : List Bytes) : Prop :=
  next.channel.session.receiveBuffer.capacity =
      before.channel.session.receiveBuffer.capacity ∧
    ((done = false ∧ next.Awaits wire sessionId bodies) ∨
      done = true ∧ ∃ body rest, bodies = body :: rest ∧ next.Keeps wire sessionId body rest)

variable (transport) in
theorem Awaits.consume_pending {chunk : Bytes}
    (awaits : receiving.Awaits (chunk ++ wire) sessionId bodies)
    (few : chunk.length ≤ receiving.unframer.bytesNeeded) (passes : Nat) :
    ∃ done next, ({ receiving with pendingChunk := chunk } :
        ReceivingChannel τ).consumeReceivedPayload transport (·.didReceiveMessage) (passes + 2) =
          some (done, next) ∧ receiving.Received next done wire sessionId bodies := by
  by_cases empty : chunk = []
  · subst empty
    refine ⟨false, receiving, ?_, rfl, .inl ⟨rfl, awaits⟩⟩
    rw [consumeReceivedPayload, if_pos rfl, awaits.repend]
  · exact awaits.consume empty few passes

variable (transport) in
theorem Awaits.receiveUntilLoop {chunk : Bytes} {frecv : Frecv} {passes : Nat}
    (awaits : receiving.Awaits (chunk ++ frecv.wire) sessionId bodies)
    (few : chunk.length ≤ receiving.unframer.bytesNeeded)
    (enough : frecv.cuts.length + 2 ≤ passes) :
    ∃ done next frecv', ReceivingChannel.receiveUntilLoop transport (·.didReceiveMessage) passes
        { receiving with pendingChunk := chunk } frecv = some (done, next, frecv') ∧
      frecv'.cuts.length ≤ frecv.cuts.length ∧
      receiving.Received next done frecv'.wire sessionId bodies := by
  induction passes generalizing receiving chunk frecv with
  | zero => omega
  | succ passes ih =>
    obtain ⟨passes, rfl⟩ : ∃ less, passes = less + 1 := ⟨passes - 1, by omega⟩
    obtain ⟨done, middle, consumes, capacity, outcome⟩ :=
      awaits.consume_pending transport few passes
    rw [ReceivingChannel.receiveUntilLoop, consumes]
    rcases outcome with ⟨rfl, waiting⟩ | ⟨rfl, keeps⟩
    · have needs := waiting.bytesNeeded_pos
      have positive : ¬ middle.unframer.bytesNeeded = 0 := by omega
      simp only [positive, if_false]
      obtain ⟨chunk', frecv', called, split, short, fewer⟩ : ∃ chunk' frecv',
          frecv.call middle.unframer.bytesNeeded = (chunk', frecv') ∧
            frecv.wire = chunk' ++ frecv'.wire ∧
            chunk'.length ≤ middle.unframer.bytesNeeded ∧
            (chunk' = [] ∧ frecv'.cuts.length ≤ frecv.cuts.length ∨
              frecv'.cuts.length + 1 ≤ frecv.cuts.length) := by
        obtain ⟨wire, cuts⟩ := frecv
        cases cuts with
        | nil => exact ⟨[], ⟨wire, []⟩, rfl, rfl, Nat.zero_le _, .inl ⟨rfl, le_rfl⟩⟩
        | cons cut cuts =>
          refine ⟨_, _, rfl, (List.take_append_drop _ _).symm, ?_, .inr le_rfl⟩
          rw [List.length_take]
          omega
      rw [called]
      rw [split] at waiting
      by_cases nothing : chunk' = []
      · simp only [nothing, if_true]
        rw [nothing, List.nil_append] at waiting
        refine ⟨false, _, frecv', rfl, by omega, capacity, .inl ⟨rfl, ?_⟩⟩
        rw [waiting.repend]
        exact waiting
      · simp only [nothing, if_false]
        obtain ⟨done, next, frecv'', loops, cuts, capacity', outcome⟩ :=
          ih waiting short (by
            rcases fewer with ⟨empty, -⟩ | fewer
            · exact absurd empty nothing
            · omega)
        refine ⟨done, next, frecv'', loops, by omega, capacity'.trans capacity, outcome⟩
    · exact ⟨true, middle, frecv, rfl, le_rfl, capacity, .inr ⟨rfl, keeps⟩⟩

variable (transport) in
theorem Awaits.receiveUntil {frecv : Frecv} {passes : Nat}
    (awaits : receiving.Awaits frecv.wire sessionId bodies)
    (enough : frecv.cuts.length + 2 ≤ passes) :
    ∃ done next frecv', receiving.receiveUntil transport (·.didReceiveMessage) passes frecv =
        some (done, next, frecv') ∧
      frecv'.cuts.length ≤ frecv.cuts.length ∧
      receiving.Received next done frecv'.wire sessionId bodies := by
  have silent : ¬ receiving.channel.didReceiveMessage = true := by
    rw [awaits.waits.unreceived]
    exact Bool.false_ne_true
  rw [ReceivingChannel.receiveUntil, if_neg silent]
  have whole : receiving.Awaits ([] ++ frecv.wire) sessionId bodies := awaits
  have loops := whole.receiveUntilLoop transport (Nat.zero_le _) enough
  rw [awaits.repend] at loops
  exact loops

end ReceivingChannel

end Tvm.MicroRpc
