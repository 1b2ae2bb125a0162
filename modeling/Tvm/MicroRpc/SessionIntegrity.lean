import Tvm.MicroRpc.Resync
import Tvm.MicroRpc.SessionReceiver

/-!
# Whose bytes a session delivers

A session behind an unframer, and packets that arrive whole, with a wrong checksum, or
cut short by the next packet.  Only a packet with the right checksum hands a message to
the callback, and that message is what the packet's payload found in the receive buffer
together with the payload.  Nothing takes the bytes of a failed packet out of the
receive buffer again, so they become part of the next message.
-/

namespace Tvm.MicroRpc

open Tvm.Lib Tvm.Crt WireParser

universe u

structure Packet where
  payload : Bytes
  crc : UInt16
  short : payload.length < 2 ^ 32

def Packet.wire (packet : Packet) : Bytes :=
  framePrefix packet.payload ++ escapeBytes (leBytes kCrc packet.crc.toNat)

def Packet.Valid (packet : Packet) : Prop := packet.crc = frameCrc packet.payload

/-- The part of a packet in front of the start of the next one.  `body` follows the start
sequence, does not complete the packet and does not stop within an escape; `payload` is
what it holds of the packet's payload. -/
structure Fragment where
  body : Bytes
  payload : Bytes
  phase : Phase
  reads : Reads ⟨false, .length [] startCrc⟩ body (payload.map .byte) ⟨false, phase⟩

inductive Arrival where
  | packet (packet : Packet)
  | fragment (fragment : Fragment)

namespace Arrival

def wire : Arrival → Bytes
  | .packet whole => whole.wire
  | .fragment part => [kEscapeStart, kPacketStart] ++ part.body

def payload : Arrival → Bytes
  | .packet whole => whole.payload
  | .fragment part => part.payload

/-- What an arrival makes visible after its payload. -/
def verdict : Arrival → List StreamEvent
  | .packet whole => [.packetDone ((frameCrc whole.payload).toNat == whole.crc.toNat)]
  | .fragment _ => []

theorem reads (arrival : Arrival) :
    ∃ body phase, arrival.wire = kEscapeStart :: kPacketStart :: body ∧
      Reads ⟨false, .length [] startCrc⟩ body (arrival.payload.map .byte ++ arrival.verdict)
        ⟨false, phase⟩ := by
  cases arrival with
  | packet whole =>
    have reads := (reads_framePrefix true whole.payload whole.short).append
      (reads_trailer (frameCrc whole.payload) whole.crc.toNat whole.crc.toNat_lt)
    have start : whole.wire = [kEscapeStart, kPacketStart] ++
        (escapeBytes (leBytes kPayloadLength whole.payload.length) ++
          (escapeBytes whole.payload ++ escapeBytes (leBytes kCrc whole.crc.toNat))) := by
      rw [Packet.wire, framePrefix, List.append_assoc, List.append_assoc]
    rw [← Packet.wire, start, reads_start_append] at reads
    exact ⟨_, .hunting, start, reads⟩
  | fragment part =>
    refine ⟨part.body, part.phase, rfl, ?_⟩
    rw [verdict, List.append_nil]
    exact part.reads

theorem verdict_no_byte (arrival : Arrival) (value : UInt8) :
    StreamEvent.byte value ∉ arrival.verdict := by
  cases arrival <;> simp [verdict]

end Arrival

structure ReceivingSide (τ : Type u) where
  unframer : Unframer
  session : Session τ

/-- A message handed to the callback: during which arrival, what was unread in the receive
buffer when that arrival began, and the message. -/
structure Delivery where
  arrival : Arrival
  leftover : Bytes
  message : SessionHeader × Bytes

/-- The message is the header and the body of a packet with the right checksum. -/
def Delivery.Intact (delivery : Delivery) : Prop :=
  ∃ packet, delivery.arrival = .packet packet ∧ packet.Valid ∧
    delivery.message.1.bytes ++ delivery.message.2 = packet.payload

namespace ReceivingSide

variable {τ : Type u} (transport : Transport τ) (clears : MessageType → Bool)

def fresh (t : τ) (capacity : Nat) : ReceivingSide τ := ⟨.new, .new t capacity⟩

/-- Feed `pieces` to the unframer.  `none` if that aborts the program. -/
def receive (side : ReceivingSide τ) (pieces : List Bytes) : Option (ReceivingSide τ) :=
  match side.unframer.feedPieces (Session.receiver transport clears) (some side.session) pieces with
  | some (unframer, some session) => some ⟨unframer, session⟩
  | _ => none

/-- The messages handed over on the way from `side` to `side'`. -/
def deliveries (side side' : ReceivingSide τ) (arrival : Arrival) : List Delivery :=
  (side'.session.messages.drop side.session.messages.length).map fun message =>
    ⟨arrival, side.session.receiveBuffer.unread, message⟩

/-- A receiving session with the messages it has handed over.  Packets arrive in any pieces;
in between, the program calls its session, and an escape-nop may precede a packet. -/
inductive Run (condition : Session τ → Arrival → Prop) :
    ReceivingSide τ → List Delivery → Prop where
  | fresh (t : τ) (capacity : Nat) : Run condition (fresh t capacity) []
  | arrive {side side' : ReceivingSide τ} {log : List Delivery} (arrival : Arrival)
      (pieces : List Bytes) :
      Run condition side log → condition side.session arrival →
      pieces.flatten = arrival.wire → side.receive transport clears pieces = some side' →
      Run condition side' (log ++ side.deliveries side' arrival)
  | nop {side side' : ReceivingSide τ} {log : List Delivery} :
      Run condition side log → side.unframer.state = .findPacketStart →
      side.receive transport clears [[kEscapeNop]] = some side' →
      Run condition side' log
  | call {side : ReceivingSide τ} {log : List Delivery} {session : Session τ}
      (call : Session.Call) :
      Run condition side log → side.session.call transport call = some session →
      Run condition ⟨side.unframer, session⟩ log

/-- The receiver is not blocked by an earlier message and has room for the payload. -/
def Ready (session : Session τ) (arrival : Arrival) : Prop := session.Accepts arrival.payload

/-- Between arrivals the unframer is not within an escape. -/
structure Formed (side : ReceivingSide τ) : Prop where
  wellFormed : side.unframer.WellFormed
  outside : side.unframer.sawEscapeStart = false

variable {transport clears} {side side' : ReceivingSide τ}

theorem receive_some {pieces : List Bytes}
    (received : side.receive transport clears pieces = some side') :
    side.unframer.feedPieces (Session.receiver transport clears) (some side.session) pieces =
      some (side'.unframer, some side'.session) := by
  unfold receive at received
  split at received
  next fed =>
    rw [fed, ← Option.some.inj received]
  · simp at received

/-- What one arrival does to the session: its payload is stored, and then its verdict given. -/
theorem receive_arrival (formed : side.Formed) (arrival : Arrival)
    (ready : Ready side.session arrival) {pieces : List Bytes}
    (cut : pieces.flatten = arrival.wire)
    (received : side.receive transport clears pieces = some side') :
    side'.Formed ∧ (Session.receiver transport clears).Trace
      (some (side.session.deposit arrival.payload)) arrival.verdict (some side'.session) := by
  obtain ⟨body, phase, start, reads⟩ := arrival.reads
  have reached : Reads side.unframer.parser [] [] ⟨false, side.unframer.phase⟩ := by
    rw [Unframer.parser, formed.outside]
    exact .nil _
  have takes : (Session.receiver transport clears).Takes (some side.session)
      (arrival.payload.map .byte ++ arrival.verdict) :=
    Session.receiver_takes arrival.verdict_no_byte ready
  obtain ⟨unframer', s', kept, lost, fed, wellFormed, parserEq, nothing, trace⟩ :=
    Unframer.feedPieces_start pieces side.unframer formed.wellFormed reached reads
      (cut.trans start) (.nil _) (by
        intro kept lost nothing
        rw [(List.append_eq_nil_iff.mp nothing.symm).1]
        exact takes)
  rw [receive_some received, Option.some.injEq, Prod.mk.injEq] at fed
  obtain ⟨rfl, rfl⟩ := fed
  rw [(List.append_eq_nil_iff.mp nothing.symm).1, List.nil_append] at trace
  refine ⟨⟨wellFormed, congrArg WireParser.sawEscape parserEq⟩, ?_⟩
  exact (Session.trace_bytes trace rfl rfl
    fun value rest verdict => arrival.verdict_no_byte value (by simp [verdict])).2

/-- A message is handed over only by a packet with the right checksum, and it is made of what
was unread before and the payload. -/
theorem receive_deliveries (formed : side.Formed) (arrival : Arrival)
    (ready : Ready side.session arrival) {pieces : List Bytes}
    (cut : pieces.flatten = arrival.wire)
    (received : side.receive transport clears pieces = some side') :
    side'.session.messages =
        side.session.messages ++ (side.deliveries side' arrival).map Delivery.message ∧
      ∀ delivery ∈ side.deliveries side' arrival,
        ∃ packet, delivery.arrival = .packet packet ∧ packet.Valid ∧
          delivery.message.1.bytes ++ delivery.message.2 =
            delivery.leftover ++ packet.payload := by
  obtain ⟨_, trace⟩ := receive_arrival formed arrival ready cut received
  have unread := ready.unread
  have before : (side.session.deposit arrival.payload).messages = side.session.messages := rfl
  have nothing : side'.session.messages = side.session.messages →
      side'.session.messages =
          side.session.messages ++ (side.deliveries side' arrival).map Delivery.message ∧
        ∀ delivery ∈ side.deliveries side' arrival,
          ∃ packet, delivery.arrival = .packet packet ∧ packet.Valid ∧
            delivery.message.1.bytes ++ delivery.message.2 =
              delivery.leftover ++ packet.payload := by
    intro same
    have none : side.deliveries side' arrival = [] := by simp [deliveries, same]
    rw [none]
    exact ⟨by simp [same], by simp⟩
  cases arrival with
  | fragment part =>
    have same := Option.some.inj trace.eq_of_nil
    exact nothing (by rw [same, before])
  | packet whole =>
    have done := trace.eq_of_done
    simp only [Session.receiver, Option.bind_some] at done
    rcases Session.packetDone_messages done.symm with same | ⟨valid, header, body, handed, bytes⟩
    · exact nothing (by rw [same, before])
    · have one : side.deliveries side' (.packet whole) =
          [⟨.packet whole, side.session.receiveBuffer.unread, header, body⟩] := by
        rw [deliveries, handed, before, List.drop_left]
        rfl
      rw [one]
      refine ⟨by rw [handed, before]; rfl, ?_⟩
      intro delivery membership
      obtain rfl := List.mem_singleton.mp membership
      refine ⟨whole, rfl, ?_, ?_⟩
      · exact (UInt16.toNat_inj.mp (by simpa using valid)).symm
      · rw [bytes]
        exact unread

theorem receive_nop (formed : side.Formed) (hunts : side.unframer.state = .findPacketStart)
    (received : side.receive transport clears [[kEscapeNop]] = some side') :
    side'.Formed ∧ side'.session = side.session := by
  have reads : Reads side.unframer.parser [[kEscapeNop]].flatten [] ⟨false, .hunting⟩ := by
    have phase : side.unframer.phase = .hunting := by simp [Unframer.phase, hunts]
    rw [Unframer.parser, phase]
    have nop : WireParser.step ⟨side.unframer.sawEscapeStart, .hunting⟩ kEscapeNop =
        .next ⟨false, .hunting⟩ [] := by
      simp [step, hunt]
    exact Reads.cons nop (.nil _)
  obtain ⟨unframer', s', fed, wellFormed, parserEq, trace⟩ :=
    Unframer.feedPieces_of_reads [[kEscapeNop]] side.unframer formed.wellFormed reads
      (WriteStream.Takes.nil (some side.session))
  rw [receive_some received, Option.some.injEq, Prod.mk.injEq] at fed
  obtain ⟨rfl, rfl⟩ := fed
  exact ⟨⟨wellFormed, congrArg WireParser.sawEscape parserEq⟩, Option.some.inj trace.eq_of_nil⟩

/-- What holds along a run whose arrivals find the receiver ready. -/
structure Recorded (side : ReceivingSide τ) (log : List Delivery) : Prop where
  formed : side.Formed
  messages : side.session.messages = log.map Delivery.message
  deliveries : ∀ delivery ∈ log, ∃ packet, delivery.arrival = .packet packet ∧ packet.Valid ∧
    delivery.message.1.bytes ++ delivery.message.2 = delivery.leftover ++ packet.payload

theorem Run.recorded {log : List Delivery} (run : Run transport clears Ready side log) :
    side.Recorded log := by
  induction run with
  | fresh t capacity => exact ⟨⟨Unframer.new_wellFormed, rfl⟩, rfl, by simp⟩
  | @arrive side side' log arrival pieces _ ready cut received recorded =>
    obtain ⟨formed, _⟩ := receive_arrival recorded.formed arrival ready cut received
    obtain ⟨messages, deliveries⟩ :=
      receive_deliveries recorded.formed arrival ready cut received
    refine ⟨formed, ?_, ?_⟩
    · rw [messages, recorded.messages, List.map_append]
    · intro delivery membership
      rcases List.mem_append.mp membership with earlier | here
      · exact recorded.deliveries delivery earlier
      · exact deliveries delivery here
  | nop _ hunts received recorded =>
    obtain ⟨formed, same⟩ := receive_nop recorded.formed hunts received
    exact ⟨formed, by rw [same, recorded.messages], recorded.deliveries⟩
  | call call _ called recorded =>
    refine ⟨⟨recorded.formed.wellFormed, recorded.formed.outside⟩, ?_, recorded.deliveries⟩
    rw [Session.call_messages called, recorded.messages]

end ReceivingSide

variable {τ : Type u} {transport : Transport τ} {clears : MessageType → Bool}

/-- The log of a run holds every message handed over.  All of them are what their packets
carry if and only if none of these packets began to arrive with bytes left unread. -/
theorem session_deliveries_intact_iff {side : ReceivingSide τ} {log : List Delivery}
    (run : ReceivingSide.Run transport clears ReceivingSide.Ready side log) :
    side.session.messages = log.map Delivery.message ∧
      ((∀ delivery ∈ log, delivery.Intact) ↔ ∀ delivery ∈ log, delivery.leftover = []) := by
  have recorded := run.recorded
  refine ⟨recorded.messages, ?_⟩
  constructor
  · intro intact delivery membership
    obtain ⟨packet, here, _, bytes⟩ := recorded.deliveries delivery membership
    obtain ⟨other, sameArrival, _, exactly⟩ := intact delivery membership
    obtain rfl : packet = other := Arrival.packet.inj (here.symm.trans sameArrival)
    rw [exactly] at bytes
    exact List.append_left_eq_self.mp bytes.symm
  · intro clean delivery membership
    obtain ⟨packet, here, valid, bytes⟩ := recorded.deliveries delivery membership
    rw [clean delivery membership, List.nil_append] at bytes
    exact ⟨packet, here, valid, bytes⟩

/-- A server with a 256-byte receive buffer, before anything has arrived. -/
def server : ReceivingSide (Framer × Unit) := .fresh (.new, ()) 256

def serverReceive (side : ReceivingSide (Framer × Unit)) (packet : Packet) :
    Option (ReceivingSide (Framer × Unit)) :=
  side.receive (framerTransport WriteStream.sink) serverClears [packet.wire]

/-- `kStartSessionInit` with nonce 5. -/
def startPacket : Packet := ⟨[5, 0, 0x00, 1], frameCrc [5, 0, 0x00, 1], by simp⟩

/-- `kNormal` in the session that `startPacket` starts, with a wrong checksum. -/
def brokenPacket : Packet := ⟨[5, 1, 0x10, 0xaa], 0, by simp⟩

def soundPacket : Packet := ⟨[5, 1, 0x10, 0xbb], frameCrc [5, 1, 0x10, 0xbb], by simp⟩

theorem server_run {condition : Session (Framer × Unit) → Arrival → Prop} :
    ReceivingSide.Run (framerTransport WriteStream.sink) serverClears condition server [] :=
  ReceivingSide.Run.fresh (Framer.new, ()) 256

theorem server_ready : ReceivingSide.Ready server.session (.packet startPacket) where
  idle := rfl
  room := by decide

theorem serverReceive_run {condition : Session (Framer × Unit) → Arrival → Prop}
    {side side' : ReceivingSide (Framer × Unit)} {log : List Delivery} (packet : Packet)
    (run : ReceivingSide.Run (framerTransport WriteStream.sink) serverClears condition side log)
    (met : condition side.session (.packet packet))
    (received : serverReceive side packet = some side') :
    ReceivingSide.Run (framerTransport WriteStream.sink) serverClears condition side'
      (log ++ side.deliveries side' (.packet packet)) :=
  .arrive (.packet packet) [packet.wire] run met (List.flatten_singleton) received

/-- The packet after a failed one is delivered with the failed one's bytes in front. -/
theorem session_deliveries_not_intact :
    ¬ ∀ (side : ReceivingSide (Framer × Unit)) (log : List Delivery),
      ReceivingSide.Run (framerTransport WriteStream.sink) serverClears (fun _ _ => True) side log →
        ∀ delivery ∈ log, delivery.Intact := by
  intro claim
  have before : ((serverReceive server startPacket).bind (serverReceive · brokenPacket)).map
      (·.session.messages) = some [] := by
    decide +kernel
  have after : (((serverReceive server startPacket).bind (serverReceive · brokenPacket)).bind
      (serverReceive · soundPacket)).map (·.session.messages) =
        some [(⟨0x0105, kNormal⟩, [0xaa, 5, 1, 0x10, 0xbb])] := by
    decide +kernel
  obtain ⟨third, thirdStep, handed⟩ := Option.map_eq_some_iff.mp after
  obtain ⟨second, secondSteps, received⟩ := Option.bind_eq_some_iff.mp thirdStep
  rw [secondSteps, Option.map_some, Option.some.injEq] at before
  obtain ⟨first, started, failed⟩ := Option.bind_eq_some_iff.mp secondSteps
  have run : ReceivingSide.Run (framerTransport WriteStream.sink) serverClears (fun _ _ => True)
      third _ := serverReceive_run soundPacket (serverReceive_run brokenPacket
    (serverReceive_run startPacket server_run trivial started) trivial failed) trivial received
  have delivered : second.deliveries third (.packet soundPacket) =
      [⟨.packet soundPacket, second.session.receiveBuffer.unread,
        (⟨0x0105, kNormal⟩, [0xaa, 5, 1, 0x10, 0xbb])⟩] := by
    simp [ReceivingSide.deliveries, before, handed]
  rw [delivered] at run
  obtain ⟨packet, same, _, bytes⟩ :=
    claim third _ run _ (List.mem_append_right _ (List.mem_singleton_self _))
  obtain rfl := Arrival.packet.inj same
  have longer : (SessionHeader.mk 0x0105 kNormal).bytes ++ [0xaa, 5, 1, 0x10, 0xbb] ≠
      soundPacket.payload := by
    decide
  exact longer bytes

/-- Two packets of a session, of which the second is normal traffic. -/
theorem session_deliveries_intact_iff_server :
    ∃ (side : ReceivingSide (Framer × Unit)) (log : List Delivery),
      log.length = 1 ∧ side.session.messages = log.map Delivery.message ∧
        ((∀ delivery ∈ log, delivery.Intact) ↔ ∀ delivery ∈ log, delivery.leftover = []) := by
  have before : (serverReceive server startPacket).map (fun side =>
      (side.session.messages, side.session.receiveBufferHasCompleteMessage,
        side.session.receiveBuffer.data.length, side.session.receiveBuffer.capacity)) =
        some ([], false, 4, 256) := by
    decide +kernel
  have after : ((serverReceive server startPacket).bind (serverReceive · soundPacket)).map
      (·.session.messages) = some [(⟨0x0105, kNormal⟩, [0xbb])] := by
    decide +kernel
  obtain ⟨second, secondStep, handed⟩ := Option.map_eq_some_iff.mp after
  obtain ⟨first, started, received⟩ := Option.bind_eq_some_iff.mp secondStep
  simp only [started, Option.map_some, Option.some.injEq, Prod.mk.injEq] at before
  obtain ⟨none, idle, stored, capacity⟩ := before
  have ready : ReceivingSide.Ready first.session (.packet soundPacket) :=
    ⟨idle, by rw [stored, capacity]; decide⟩
  have run := serverReceive_run soundPacket
    (serverReceive_run startPacket server_run server_ready started) ready received
  refine ⟨second, _, ?_, session_deliveries_intact_iff run⟩
  have quiet : server.deliveries first (.packet startPacket) = [] := by
    simp [ReceivingSide.deliveries, none]
  have delivered : (first.deliveries second (.packet soundPacket)).length = 1 := by
    simp [ReceivingSide.deliveries, none, handed]
  rw [List.nil_append, List.length_append, delivered]
  exact congrArg (·.length + 1) quiet

end Tvm.MicroRpc
