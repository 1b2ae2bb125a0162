import Tvm.MicroRpc.SessionReceiver

/-!
# The receiving end of a transport channel

`MicroTransportChannel` of `micro_session.cc` is the program behind a session on the host.  What
its callback `HandleMessageReceived` does with a message decides whether the session takes the
next packet.
-/

namespace Tvm.MicroRpc

open Tvm.Lib Tvm.Crt

universe u

inductive MicroTransportChannel.State where
  | reset
  | sessionTerminated
  | sessionEstablished
  deriving DecidableEq, Repr

/-- `message_buffer_` is null or points to the receive buffer of the session. -/
structure MicroTransportChannel (τ : Type u) where
  session : Session τ
  state : MicroTransportChannel.State
  didReceiveMessage : Bool
  messageBuffer : Bool

namespace MicroTransportChannel

variable {τ : Type u} (transport : Transport τ)

/-- `sizeof(message) - 1`, the longest log message that is displayed. -/
def kMaxLogBytes : Nat := 1023

/-- The cases of the switch that do not look at the buffer.  `LOG(FATAL)` is `none`. -/
def handleControl (channel : MicroTransportChannel τ) (messageType : MessageType) :
    Option (MicroTransportChannel τ) :=
  if messageType = kStartSessionReply then some { channel with state := .sessionEstablished }
  else if messageType = kTerminateSession then
    if channel.state = .reset then some { channel with state := .sessionTerminated } else none
  else some channel

def handleLog (channel : MicroTransportChannel τ) : Option (MicroTransportChannel τ) :=
  let messageSizeBytes := channel.session.receiveBuffer.readAvailable
  if messageSizeBytes = 0 then some channel
  else if kMaxLogBytes < messageSizeBytes then some channel
  else
    let message := channel.session.receiveBuffer.read kMaxLogBytes
    if message.1.length ≠ messageSizeBytes then none
    else
      let session := { channel.session with receiveBuffer := message.2 }
      some { channel with session := session.clearReceiveBuffer }

def handleMessageReceived (channel : MicroTransportChannel τ) :
    Received → Option (MicroTransportChannel τ)
  | .control messageType => channel.handleControl messageType
  | .message header _ =>
    if header.messageType = kLog then channel.handleLog
    else if header.messageType = kNormal then
      some { channel with didReceiveMessage := true, messageBuffer := true }
    else channel.handleControl header.messageType

/-- `PacketDone` of the session's receiver, and the callbacks it makes.  They only touch the
session for a message, which is the last thing that `PacketDone` hands over. -/
def packetDone (channel : MicroTransportChannel τ) (isValid : Bool) :
    Option (MicroTransportChannel τ) := do
  let session ← { channel.session with received := [] }.packetDone transport (fun _ => false) isValid
  session.received.foldlM handleMessageReceived { channel with session := session }

/-- An unread message is held, or the receiver takes the bytes of the next packet. -/
def Unblocked (channel : MicroTransportChannel τ) : Prop :=
  channel.messageBuffer = true ∨ channel.session.receiveBufferHasCompleteMessage = false

end MicroTransportChannel

namespace Session

variable {τ : Type u}

/-- The packet in the receive buffer is one that some branch disposes of: a control message, a
log message of this session or of none that can be displayed, normal traffic of this session,
or a packet too short for a header. -/
def PacketHandled (session : Session τ) : Prop :=
  let header := SessionHeader.ofBytes (session.receiveBuffer.unread.take kSessionHeaderBytes)
  let body := session.receiveBuffer.unread.drop kSessionHeaderBytes
  if session.receiveBuffer.unread.length < kSessionHeaderBytes then
    session.receiveBufferHasCompleteMessage = false
  else if header.messageType = kStartSessionInit ∨ header.messageType = kStartSessionReply ∨
      header.messageType = kTerminateSession then True
  else if header.messageType = kLog then
    (header.sessionId = 0 ∨ header.sessionId = session.sessionId) ∧
      0 < body.length ∧ body.length ≤ MicroTransportChannel.kMaxLogBytes
  else
    header.messageType = kNormal ∧ session.state = .sessionEstablished ∧
      header.sessionId = session.sessionId

end Session

namespace MicroTransportChannel

variable {τ : Type u} {transport : Transport τ} {channel next : MicroTransportChannel τ}

theorem foldlM_control {events : List Received} (none_message : events.filterMap Session.messageOf = [])
    (handled : events.foldlM handleMessageReceived channel = some next) :
    next.session = channel.session ∧ next.messageBuffer = channel.messageBuffer := by
  induction events generalizing channel with
  | nil =>
    obtain rfl := Option.some.inj handled
    exact ⟨rfl, rfl⟩
  | cons event events ih =>
    cases event with
    | message header body => simp [Session.messageOf] at none_message
    | control messageType =>
      have later : events.filterMap Session.messageOf = [] := by
        simpa [Session.messageOf] using none_message
      obtain ⟨middle, first, rest⟩ := Option.bind_eq_some_iff.mp handled
      obtain ⟨session_eq, buffer_eq⟩ := ih later rest
      have kept : middle.session = channel.session ∧
          middle.messageBuffer = channel.messageBuffer := by
        simp only [handleMessageReceived, handleControl] at first
        split_ifs at first
        all_goals
          rw [← Option.some.inj first]
          exact ⟨rfl, rfl⟩
      exact ⟨session_eq.trans kept.1, buffer_eq.trans kept.2⟩

theorem handleLog_unblocked (handled : channel.handleLog = some next) :
    next.Unblocked ↔ channel.Unblocked ∨ 0 < channel.session.receiveBuffer.readAvailable ∧
      channel.session.receiveBuffer.readAvailable ≤ kMaxLogBytes := by
  unfold handleLog at handled
  by_cases empty : channel.session.receiveBuffer.readAvailable = 0
  · simp only [empty, if_true] at handled
    obtain rfl := Option.some.inj handled
    simp [empty]
  · by_cases long : kMaxLogBytes < channel.session.receiveBuffer.readAvailable
    · simp only [empty, if_false, long, if_true] at handled
      obtain rfl := Option.some.inj handled
      simp [long]
    · simp only [empty, if_false, long] at handled
      split_ifs at handled
      have cleared : next.session.receiveBufferHasCompleteMessage = false := by
        rw [← Option.some.inj handled]
        rfl
      have shown : 0 < channel.session.receiveBuffer.readAvailable ∧
          channel.session.receiveBuffer.readAvailable ≤ kMaxLogBytes := by omega
      exact ⟨fun _ => .inr shown, fun _ => .inr cleared⟩

theorem handleMessage_unblocked {header : SessionHeader} {body : Bytes}
    (plain : header.messageType ≠ kStartSessionInit ∧ header.messageType ≠ kStartSessionReply ∧
      header.messageType ≠ kTerminateSession)
    (busy : channel.session.receiveBufferHasCompleteMessage = true)
    (handled : channel.handleMessageReceived (.message header body) = some next) :
    next.Unblocked ↔ channel.messageBuffer = true ∨
      if header.messageType = kLog then
        0 < channel.session.receiveBuffer.readAvailable ∧
          channel.session.receiveBuffer.readAvailable ≤ kMaxLogBytes
      else header.messageType = kNormal := by
  simp only [handleMessageReceived] at handled
  by_cases log : header.messageType = kLog
  · simp only [log, if_true] at handled ⊢
    rw [handleLog_unblocked handled, Unblocked, busy]
    simp
  · by_cases normal : header.messageType = kNormal
    · rw [if_neg log, if_pos normal] at handled
      rw [if_neg log, ← Option.some.inj handled]
      simp [Unblocked, normal]
    · simp only [log, if_false, normal] at handled ⊢
      rw [handleControl, if_neg plain.2.1, if_neg plain.2.2] at handled
      rw [← Option.some.inj handled, Unblocked, busy]
      simp

theorem dispatch_control {session session' : Session τ} {header : SessionHeader}
    (control : header.messageType = kStartSessionInit ∨ header.messageType = kStartSessionReply ∨
      header.messageType = kTerminateSession)
    (dispatched : session.dispatch transport (fun _ => false) header = some session') :
    session'.receiveBufferHasCompleteMessage = false ∧ session'.messages = session.messages := by
  unfold Session.dispatch at dispatched
  split at dispatched
  · obtain ⟨processed, done, rfl⟩ := Option.map_eq_some_iff.mp dispatched
    have silent := Session.processStartSessionInit_messages done
    exact ⟨rfl, silent⟩
  · split at dispatched
    · obtain ⟨processed, done, rfl⟩ := Option.map_eq_some_iff.mp dispatched
      have silent := Session.processStartSessionReply_messages done
      exact ⟨rfl, silent⟩
    · have terminates : header.messageType = kTerminateSession := by tauto
      rw [if_pos terminates] at dispatched
      rw [← Option.some.inj dispatched]
      refine ⟨rfl, ?_⟩
      split_ifs
      · simp [Session.messages, Session.messageOf, Session.onSessionTerminatedMessage,
          Session.setComplete]
      · rfl

theorem dispatch_plain {session : Session τ} {header : SessionHeader}
    (plain : header.messageType ≠ kStartSessionInit ∧ header.messageType ≠ kStartSessionReply ∧
      header.messageType ≠ kTerminateSession) :
    session.dispatch transport (fun _ => false) header =
      some (if (if header.messageType = kLog then
          header.sessionId = 0 ∨ header.sessionId = session.sessionId
        else session.state = .sessionEstablished ∧ header.sessionId = session.sessionId) then
        session.handOver (fun _ => false) header else session) := by
  rw [Session.dispatch, if_neg plain.1, if_neg plain.2.1, if_neg plain.2.2]
  by_cases log : header.messageType = kLog
  · simp only [log, if_true]
  · simp only [log, if_false]

/-- After a packet the channel is blocked unless it holds a message or one of the branches that
clear the flag was taken. -/
theorem packetDone_unblocked_iff (done : channel.packetDone transport true = some next) :
    next.Unblocked ↔ channel.messageBuffer = true ∨ channel.session.PacketHandled := by
  obtain ⟨session, finished, folded⟩ := Option.bind_eq_some_iff.mp done
  have length_eq : (channel.session.receiveBuffer.unread.take kSessionHeaderBytes).length =
      kSessionHeaderBytes ↔ ¬ channel.session.receiveBuffer.unread.length < kSessionHeaderBytes := by
    rw [List.length_take]
    omega
  simp only [Session.packetDone, Bool.not_true, Bool.false_eq_true, if_false,
    FrameBuffer.read_fst, ne_eq] at finished
  simp only [Session.PacketHandled]
  by_cases short : channel.session.receiveBuffer.unread.length < kSessionHeaderBytes
  · have cut := length_eq.not.mpr (not_not.mpr short)
    simp only [cut, not_false_eq_true, if_true, Option.some.injEq] at finished
    subst finished
    obtain rfl := Option.some.inj folded
    simp [Unblocked, short]
  · have whole := length_eq.mpr short
    simp only [whole, not_true_eq_false, if_false] at finished
    simp only [short, if_false]
    generalize SessionHeader.ofBytes (channel.session.receiveBuffer.unread.take
      kSessionHeaderBytes) = header at finished ⊢
    by_cases control : header.messageType = kStartSessionInit ∨
        header.messageType = kStartSessionReply ∨ header.messageType = kTerminateSession
    · obtain ⟨cleared, silent⟩ := dispatch_control control finished
      obtain ⟨session_eq, _⟩ := foldlM_control silent folded
      simp only [control, if_true, or_true, iff_true]
      right
      rw [session_eq]
      exact cleared
    · have plain : header.messageType ≠ kStartSessionInit ∧
          header.messageType ≠ kStartSessionReply ∧ header.messageType ≠ kTerminateSession := by
        tauto
      rw [dispatch_plain plain] at finished
      have body_length : (channel.session.receiveBuffer.read kSessionHeaderBytes).2.readAvailable =
          (channel.session.receiveBuffer.unread.drop kSessionHeaderBytes).length := by
        rw [← FrameBuffer.unread_length, FrameBuffer.read_unread]
      simp only [control, if_false]
      -- the message is handed over, or stays in the buffer with the flag set
      have outcome (handed : Prop) [Decidable handed] (given : some (if handed then
            (({ channel.session with
                receiveBuffer := (channel.session.receiveBuffer.read kSessionHeaderBytes).2
                received := [] } : Session τ).setComplete true).handOver (fun _ => false) header
          else ({ channel.session with
              receiveBuffer := (channel.session.receiveBuffer.read kSessionHeaderBytes).2
              received := [] } : Session τ).setComplete true) = some session) :
          next.Unblocked ↔ channel.messageBuffer = true ∨ handed ∧
            if header.messageType = kLog then
              0 < (channel.session.receiveBuffer.unread.drop kSessionHeaderBytes).length ∧
                (channel.session.receiveBuffer.unread.drop kSessionHeaderBytes).length ≤ kMaxLogBytes
            else header.messageType = kNormal := by
        obtain rfl := Option.some.inj given
        by_cases taken : handed
        · simp only [taken, if_true, true_and] at folded ⊢
          obtain ⟨last, handled, ended⟩ := Option.bind_eq_some_iff.mp folded
          obtain rfl := Option.some.inj ended
          rw [handleMessage_unblocked plain rfl handled]
          simp only [Session.handOver, Session.setComplete, Bool.false_eq_true, if_false, body_length]
        · simp only [taken, if_false, false_and, or_false] at folded ⊢
          obtain rfl := Option.some.inj folded
          simp [Unblocked, Session.setComplete]
      rw [outcome _ finished]
      by_cases log : header.messageType = kLog
      · simp [log, Session.setComplete]
      · simp [log, Session.setComplete, and_comm]

def silentTransport : Transport Unit where
  send _ _ := (.noError, ())

/-- A channel in session 0x0201, with a packet in its receive buffer. -/
def established (packet : Bytes) : MicroTransportChannel Unit where
  session :=
    { (Session.new () 64).deposit packet with
      localNonce := 1
      sessionId := 0x0201
      state := .sessionEstablished }
  state := .sessionEstablished
  didReceiveMessage := false
  messageBuffer := false

theorem packetDone_unblocked_log :
    (((established [0x00, 0x00, 0x03, 0x41]).packetDone silentTransport true).get
        (by decide)).Unblocked ↔
      (established [0x00, 0x00, 0x03, 0x41]).messageBuffer = true ∨
        (established [0x00, 0x00, 0x03, 0x41]).session.PacketHandled :=
  packetDone_unblocked_iff (Option.some_get _).symm

/-- A message of another session is neither handed over nor discarded. -/
theorem packetDone_stale_blocks : ¬ (((established [0x05, 0x05, 0x10, 0x41]).packetDone
    silentTransport true).get (by decide)).Unblocked := by
  rintro (held | idle)
  · cases held
  · cases idle

end MicroTransportChannel

end Tvm.MicroRpc
