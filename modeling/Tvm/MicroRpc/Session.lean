import Tvm.MicroRpc.Framer

/-!
# Sessions

`Session` of `session.cc` and the `FrameBuffer` it receives into.  The framer below is
an interface that sends one message; the callback above is a log of its calls.

A failed `CHECK` aborts the program, which is `none`.
-/

namespace Tvm.MicroRpc

open Tvm.Lib Tvm.Crt

universe u

/-- `data` is the valid part of `data_`. -/
@[ext]
structure FrameBuffer where
  capacity : Nat
  data : Bytes
  readCursor : Nat
  data_le : data.length ≤ capacity
  readCursor_le : readCursor ≤ data.length
  deriving DecidableEq

namespace FrameBuffer

def new (capacity : Nat) : FrameBuffer := ⟨capacity, [], 0, Nat.zero_le _, le_rfl⟩

def write (buffer : FrameBuffer) (data : Bytes) : Nat × FrameBuffer :=
  let numBytesToCopy := min (buffer.capacity - buffer.data.length) data.length
  (numBytesToCopy,
    { buffer with
      data := buffer.data ++ data.take numBytesToCopy
      data_le := by
        have := buffer.data_le
        simp only [List.length_append, List.length_take]
        omega
      readCursor_le := by
        have := buffer.readCursor_le
        simp only [List.length_append]
        omega })

def unread (buffer : FrameBuffer) : Bytes := buffer.data.drop buffer.readCursor

def read (buffer : FrameBuffer) (dataSizeBytes : Nat) : Bytes × FrameBuffer :=
  (buffer.unread.take dataSizeBytes,
    { buffer with
      readCursor :=
        buffer.readCursor + min (buffer.data.length - buffer.readCursor) dataSizeBytes
      readCursor_le := by
        have := buffer.readCursor_le
        omega })

def clear (buffer : FrameBuffer) : FrameBuffer :=
  { buffer with
    data := []
    readCursor := 0
    data_le := Nat.zero_le _
    readCursor_le := le_rfl }

def readAvailable (buffer : FrameBuffer) : Nat := buffer.data.length - buffer.readCursor

theorem unread_length (buffer : FrameBuffer) : buffer.unread.length = buffer.readAvailable := by
  simp [unread, readAvailable]

@[simp] theorem read_unread (buffer : FrameBuffer) (dataSizeBytes : Nat) :
    (buffer.read dataSizeBytes).2.unread = buffer.unread.drop dataSizeBytes := by
  have bound := buffer.readCursor_le
  simp only [read, unread, List.drop_drop]
  rcases le_total (buffer.data.length - buffer.readCursor) dataSizeBytes with short | enough
  · rw [min_eq_left short, List.drop_of_length_le, List.drop_of_length_le] <;> omega
  · rw [min_eq_right enough]

@[simp] theorem read_fst (buffer : FrameBuffer) (dataSizeBytes : Nat) :
    (buffer.read dataSizeBytes).1 = buffer.unread.take dataSizeBytes := rfl

@[simp] theorem read_capacity (buffer : FrameBuffer) (dataSizeBytes : Nat) :
    (buffer.read dataSizeBytes).2.capacity = buffer.capacity := rfl

@[simp] theorem read_data (buffer : FrameBuffer) (dataSizeBytes : Nat) :
    (buffer.read dataSizeBytes).2.data = buffer.data := rfl

theorem write_of_room (buffer : FrameBuffer) (data : Bytes)
    (room : buffer.data.length + data.length ≤ buffer.capacity) :
    (buffer.write data).1 = data.length ∧
      (buffer.write data).2.data = buffer.data ++ data ∧
      (buffer.write data).2.unread = buffer.unread ++ data := by
  have whole : min (buffer.capacity - buffer.data.length) data.length = data.length := by omega
  simp [write, whole, unread, List.drop_append_of_le_length buffer.readCursor_le]

theorem write_write (buffer : FrameBuffer) (first second : Bytes)
    (room : buffer.data.length + (first ++ second).length ≤ buffer.capacity) :
    ((buffer.write first).2.write second).2 = (buffer.write (first ++ second)).2 := by
  have both := (buffer.write_of_room (first ++ second) room).2.1
  rw [List.length_append] at room
  have one := (buffer.write_of_room first (by omega)).2.1
  have two := ((buffer.write first).2.write_of_room second (by
    rw [one, List.length_append]
    exact le_of_eq_of_le (Nat.add_assoc ..) room)).2.1
  ext1
  · rfl
  · rw [two, one, both, List.append_assoc]
  · rfl

@[simp] theorem write_nil (buffer : FrameBuffer) : (buffer.write []).2 = buffer := by
  ext1 <;> simp [write]

@[simp] theorem write_capacity (buffer : FrameBuffer) (data : Bytes) :
    (buffer.write data).2.capacity = buffer.capacity := rfl

end FrameBuffer

/-- `MessageType` has underlying type `uint8_t`; a received header can hold any value. -/
abbrev MessageType := UInt8

def kStartSessionInit : MessageType := 0x00
def kStartSessionReply : MessageType := 0x01
def kTerminateSession : MessageType := 0x02
def kLog : MessageType := 0x03
def kNormal : MessageType := 0x10

structure SessionHeader where
  sessionId : UInt16
  messageType : MessageType
  deriving DecidableEq, Repr

/-- `sizeof(SessionHeader)`; the structure is packed. -/
def kSessionHeaderBytes : Nat := 3

def SessionHeader.bytes (header : SessionHeader) : Bytes :=
  leBytes 2 header.sessionId.toNat ++ [header.messageType]

def SessionHeader.ofBytes : Bytes → SessionHeader
  | low :: high :: messageType :: _ => ⟨UInt16.ofNat (leValue [low, high]), messageType⟩
  | _ => ⟨0, 0⟩

@[simp] theorem SessionHeader.bytes_length (header : SessionHeader) :
    header.bytes.length = kSessionHeaderBytes := by
  simp [SessionHeader.bytes, kSessionHeaderBytes]

theorem SessionHeader.ofBytes_bytes_append (header : SessionHeader) (body : Bytes) :
    SessionHeader.ofBytes (header.bytes ++ body) = header := by
  have value : leValue (leBytes 2 header.sessionId.toNat) = header.sessionId.toNat :=
    leValue_leBytes header.sessionId.toNat_lt
  have shape : header.bytes ++ body =
      UInt8.ofNat header.sessionId.toNat :: UInt8.ofNat (header.sessionId.toNat / 256) ::
        header.messageType :: body := by
    rw [SessionHeader.bytes, leBytes_two]
    rfl
  rw [leBytes_two] at value
  rw [shape, SessionHeader.ofBytes, value, UInt16.ofNat_toNat]

theorem SessionHeader.bytes_ofBytes (bytes : Bytes) (whole : bytes.length = kSessionHeaderBytes) :
    (SessionHeader.ofBytes bytes).bytes = bytes := by
  obtain ⟨low, high, messageType, rfl⟩ := List.length_eq_three.mp whole
  have small : leValue [low, high] < 2 ^ 16 := by simpa using leValue_lt [low, high]
  have back : leBytes 2 (leValue [low, high]) = [low, high] := leBytes_leValue [low, high]
  have value : (UInt16.ofNat (leValue [low, high])).toNat = leValue [low, high] := by
    rw [UInt16.toNat_ofNat', Nat.mod_eq_of_lt small]
  simp only [SessionHeader.ofBytes, SessionHeader.bytes, value, back]
  rfl

inductive Session.State where
  | reset
  | noSessionEstablished
  | startSessionSent
  | sessionEstablished
  deriving DecidableEq, Repr

/-- A call of `message_received_func`: without a buffer, or with what the buffer held from
its read cursor on.  The header is the one the session has just read. -/
inductive Received where
  | control (messageType : MessageType)
  | message (header : SessionHeader) (body : Bytes)
  deriving DecidableEq, Repr

/-- What a session needs from its framer: to send one message, given in chunks. -/
structure Transport (τ : Type u) where
  send : τ → List Bytes → CrtError × τ

def framerTransport {σ : Type u} (stream : WriteStream σ) : Transport (Framer × σ) where
  send := fun (framer, s) chunks =>
    let sent := framer.sendPacket stream s chunks
    (sent.error, sent.framer, sent.stream)

/-- The callback of `MicroRPCServer` reads and clears normal traffic only. -/
def serverClears (messageType : MessageType) : Bool := messageType == kNormal

structure Session (τ : Type u) where
  localNonce : UInt8
  sessionId : UInt16
  state : Session.State
  transport : τ
  receiveBuffer : FrameBuffer
  receiveBufferHasCompleteMessage : Bool
  received : List Received
  deriving DecidableEq

def kInvalidNonce : UInt8 := 0

def kVersion : UInt8 := 0x01

def initiatorNonce (sessionId : UInt16) : UInt8 := UInt8.ofNat sessionId.toNat

def responderNonce (sessionId : UInt16) : UInt8 := UInt8.ofNat (sessionId.toNat / 256)

/-- The value `SetSessionId` stores. -/
def makeSessionId (initiatorNonce responderNonce : UInt8) : UInt16 :=
  UInt16.ofNat (initiatorNonce.toNat + 256 * responderNonce.toNat)

/-- The value `RegenerateNonce` stores. -/
def nextNonce (nonce : UInt8) : UInt8 :=
  let next := ((nonce <<< 5) ||| (nonce >>> 5)) + 1
  if next = kInvalidNonce then next + 1 else next

namespace Session

variable {τ : Type u} (transport : Transport τ)

def new (t : τ) (capacity : Nat) : Session τ where
  localNonce := kInvalidNonce
  sessionId := 0
  state := .reset
  transport := t
  receiveBuffer := .new capacity
  receiveBufferHasCompleteMessage := false
  received := []

def regenerateNonce (session : Session τ) : Session τ :=
  { session with localNonce := nextNonce session.localNonce }

def setSessionId (session : Session τ) (initiatorNonce responderNonce : UInt8) : Session τ :=
  { session with sessionId := makeSessionId initiatorNonce responderNonce }

/-- `SendInternal`: `StartMessage`, `SendBodyChunk` unless the body is empty, and
`FinishPacket`. -/
def sendInternal (session : Session τ) (messageType : MessageType) (body : Bytes) :
    CrtError × Session τ :=
  let header : SessionHeader :=
    ⟨if messageType = kLog then 0 else session.sessionId, messageType⟩
  let (error, t) :=
    transport.send session.transport (header.bytes :: if body = [] then [] else [body])
  (error, { session with transport := t })

def startSession (session : Session τ) : Option (CrtError × Session τ) :=
  if session.state = .reset then none
  else
    let session := session.regenerateNonce
    let session := session.setSessionId session.localNonce 0
    let (error, session) := session.sendInternal transport kStartSessionInit [kVersion]
    some (error, if error = .noError then { session with state := .startSessionSent } else session)

def terminateSession (session : Session τ) : CrtError × Session τ :=
  let session := { session.setSessionId 0 0 with state := .noSessionEstablished }
  session.sendInternal transport kTerminateSession []

def initializeSession (session : Session τ) (initialSessionNonce : UInt8) : CrtError × Session τ :=
  { session with localNonce := initialSessionNonce }.terminateSession transport

def sendMessage (session : Session τ) (messageType : MessageType) (body : Bytes) :
    CrtError × Session τ :=
  if session.state ≠ .sessionEstablished && messageType ≠ kLog then
    (.sessionInvalidState, session)
  else session.sendInternal transport messageType body

def clearReceiveBuffer (session : Session τ) : Session τ :=
  { session with
    receiveBufferHasCompleteMessage := false
    receiveBuffer := session.receiveBuffer.clear }

def onSessionEstablishedMessage (session : Session τ) : Session τ :=
  { session with received := session.received ++ [.control kStartSessionReply] }

def onSessionTerminatedMessage (session : Session τ) : Session τ :=
  { session with received := session.received ++ [.control kTerminateSession] }

def sendSessionStartReply (session : Session τ) (header : SessionHeader) : Option (Session τ) :=
  let session := session.regenerateNonce
  let session := session.setSessionId (initiatorNonce header.sessionId) session.localNonce
  let (error, session) := session.sendInternal transport kStartSessionReply [kVersion]
  let session := { session with state := .sessionEstablished }
  if error ≠ .noError then none else some session.onSessionEstablishedMessage

/-- Read `microtvm_session_start_payload_t`, which is a version byte. -/
def readVersion (session : Session τ) : Option UInt8 × Session τ :=
  let (bytes, buffer) := session.receiveBuffer.read 1
  (bytes.head?, { session with receiveBuffer := buffer })

def processStartSessionInit (session : Session τ) (header : SessionHeader) :
    Option (Session τ) :=
  if initiatorNonce header.sessionId = kInvalidNonce then some session
  else
    match session.readVersion with
    | (none, session) => some session
    | (some version, session) =>
      match session.state with
      | .reset | .noSessionEstablished => session.sendSessionStartReply transport header
      | .startSessionSent =>
        -- the lowest nonce wins, and a tie starts again
        if initiatorNonce header.sessionId < session.localNonce then
          if version = kVersion then session.sendSessionStartReply transport header
          else some session
        else if initiatorNonce header.sessionId = session.localNonce then
          (session.startSession transport).map Prod.snd
        else some session
      | .sessionEstablished =>
        (session.sendSessionStartReply transport header).map onSessionEstablishedMessage

def processStartSessionReply (session : Session τ) (header : SessionHeader) :
    Option (Session τ) :=
  if responderNonce header.sessionId = kInvalidNonce then some session
  else
    match session.readVersion with
    | (none, session) => some session
    | (some version, session) =>
      match session.state with
      | .reset | .noSessionEstablished => some session
      | .startSessionSent =>
        if initiatorNonce header.sessionId = session.localNonce && version = kVersion then
          let session :=
            session.setSessionId session.localNonce (responderNonce header.sessionId)
          some { session with state := .sessionEstablished }.onSessionEstablishedMessage
        else some session
      | .sessionEstablished =>
        if initiatorNonce header.sessionId ≠ kInvalidNonce &&
            responderNonce header.sessionId = kInvalidNonce then
          if version = kVersion then session.sendSessionStartReply transport header
          else some { session.setSessionId session.localNonce 0 with state := .reset }
        else some { session with state := .reset }

/-- Hand the message in the receive buffer to the callback.  For a type in `clears` the
callback reads it and calls `ClearReceiveBuffer`; otherwise it leaves it. -/
def handOver (clears : MessageType → Bool) (session : Session τ) (header : SessionHeader) :
    Session τ :=
  let session :=
    { session with received := session.received ++ [.message header session.receiveBuffer.unread] }
  if clears header.messageType then session.clearReceiveBuffer else session

def setComplete (session : Session τ) (complete : Bool) : Session τ :=
  { session with receiveBufferHasCompleteMessage := complete }

/-- The switch over the message type in `PacketDone`. -/
def dispatch (clears : MessageType → Bool) (session : Session τ) (header : SessionHeader) :
    Option (Session τ) :=
  if header.messageType = kStartSessionInit then
    (session.processStartSessionInit transport header).map (setComplete · false)
  else if header.messageType = kStartSessionReply then
    (session.processStartSessionReply transport header).map (setComplete · false)
  else if header.messageType = kTerminateSession then
    let session :=
      if session.state = .sessionEstablished then
        { session with state := .noSessionEstablished }.onSessionTerminatedMessage
      else session
    some (session.setComplete false)
  else if header.messageType = kLog then
    some (if header.sessionId = 0 ∨ header.sessionId = session.sessionId then
      session.handOver clears header else session)
  else
    some (if session.state = .sessionEstablished ∧ header.sessionId = session.sessionId then
      session.handOver clears header else session)

def packetDone (clears : MessageType → Bool) (session : Session τ) (isValid : Bool) :
    Option (Session τ) :=
  if !isValid then some session
  else
    let (bytes, buffer) := session.receiveBuffer.read kSessionHeaderBytes
    let session := { session with receiveBuffer := buffer }
    if bytes.length ≠ kSessionHeaderBytes then some session
    else (session.setComplete true).dispatch transport clears (.ofBytes bytes)

inductive Call where
  | initializeSession (initialSessionNonce : UInt8)
  | startSession
  | terminateSession
  | sendMessage (messageType : MessageType) (body : Bytes)
  | clearReceiveBuffer
  deriving DecidableEq, Repr

def call (session : Session τ) : Call → Option (Session τ)
  | .initializeSession nonce => some (session.initializeSession transport nonce).2
  | .startSession => (session.startSession transport).map Prod.snd
  | .terminateSession => some (session.terminateSession transport).2
  | .sendMessage messageType body => some (session.sendMessage transport messageType body).2
  | .clearReceiveBuffer => some session.clearReceiveBuffer

/-- `SessionReceiver::Write`.  The error codes are returned as they are, as positive numbers. -/
def receiverWrite (session : Session τ) (data : Bytes) : Int × Session τ :=
  if session.receiveBufferHasCompleteMessage then
    (CrtError.sessionReceiveBufferBusy.value, session)
  else
    let (bytesWritten, buffer) := session.receiveBuffer.write data
    let session := { session with receiveBuffer := buffer }
    if bytesWritten ≠ data.length then
      (CrtError.sessionReceiveBufferShortWrite.value, session)
    else (bytesWritten, session)

/-- `Receiver()`.  After an abort nothing happens any more. -/
def receiver (clears : MessageType → Bool) : WriteStream (Option (Session τ)) where
  write session data :=
    match session with
    | none => (data.length, none)
    | some session => ((session.receiverWrite data).1, some (session.receiverWrite data).2)
  packetDone session isValid := session.bind (·.packetDone transport clears isValid)

end Session

end Tvm.MicroRpc
