import Tvm.MicroRpc.SessionReceiver

/-!
# Two sessions agree on their session id

Two sessions joined by message queues.  What decides is the last message in flight that
would make its receiver set or give up its session id: if it is a reply, its sender still
has the id that the reply carries.  Once nothing is in flight, two established sessions
have the same id, as long as no message is read behind the remains of an earlier one.
-/

namespace Tvm.MicroRpc

open Tvm.Lib Tvm.Crt

theorem nextNonce_ne (nonce : UInt8) : nextNonce nonce ≠ kInvalidNonce := by
  unfold nextNonce
  dsimp only
  split
  next zero =>
    rw [zero]
    decide
  next valid => exact valid

theorem makeSessionId_toNat (initiator responder : UInt8) :
    (makeSessionId initiator responder).toNat = initiator.toNat + 256 * responder.toNat := by
  have := initiator.toNat_lt
  have := responder.toNat_lt
  rw [makeSessionId, UInt16.toNat_ofNat', Nat.mod_eq_of_lt]
  omega

@[simp] theorem initiatorNonce_makeSessionId (initiator responder : UInt8) :
    initiatorNonce (makeSessionId initiator responder) = initiator := by
  have := initiator.toNat_lt
  apply UInt8.toNat_inj.mp
  rw [initiatorNonce, makeSessionId_toNat, UInt8.toNat_ofNat']
  omega

@[simp] theorem responderNonce_makeSessionId (initiator responder : UInt8) :
    responderNonce (makeSessionId initiator responder) = responder := by
  have := initiator.toNat_lt
  have := responder.toNat_lt
  apply UInt8.toNat_inj.mp
  rw [responderNonce, makeSessionId_toNat, UInt8.toNat_ofNat']
  omega

@[simp] theorem makeSessionId_nonces (sessionId : UInt16) :
    makeSessionId (initiatorNonce sessionId) (responderNonce sessionId) = sessionId := by
  have := sessionId.toNat_lt
  apply UInt16.toNat_inj.mp
  rw [makeSessionId_toNat, initiatorNonce, responderNonce, UInt8.toNat_ofNat', UInt8.toNat_ofNat']
  omega

/-- A lossless queue; a session's `transport` is the queue of what it has sent. -/
def queueTransport : Transport (List Bytes) where
  send queue chunks := (.noError, queue ++ [chunks.flatten])

def messageHeader (message : Bytes) : SessionHeader :=
  .ofBytes (message.take kSessionHeaderBytes)

def messageBody (message : Bytes) : Bytes := message.drop kSessionHeaderBytes

/-- Would an established session that receives `message` set or give up its session id? -/
def disrupts (message : Bytes) : Bool :=
  let header := messageHeader message
  if header.messageType = kTerminateSession then true
  else if header.messageType = kStartSessionInit then
    initiatorNonce header.sessionId != kInvalidNonce && messageBody message != []
  else if header.messageType = kStartSessionReply then
    responderNonce header.sessionId != kInvalidNonce && messageBody message != []
  else false

def lastDisruption (queue : List Bytes) : Option Bytes := (queue.filter disrupts).getLast?

theorem lastDisruption_append (queue : List Bytes) (message : Bytes) :
    lastDisruption (queue ++ [message]) =
      if disrupts message then some message else lastDisruption queue := by
  rw [lastDisruption, List.filter_append]
  cases loud : disrupts message <;> simp [loud, lastDisruption]

theorem lastDisruption_cons (message : Bytes) (queue : List Bytes) :
    lastDisruption (message :: queue) =
      if lastDisruption queue = none ∧ disrupts message then some message
      else lastDisruption queue := by
  unfold lastDisruption
  cases loud : disrupts message with
  | false => simp [loud]
  | true =>
    rw [List.filter_cons_of_pos loud, List.getLast?_cons]
    cases (queue.filter disrupts).getLast? <;> simp

theorem messageHeader_bytes (header : SessionHeader) (body : Bytes) :
    messageHeader (header.bytes ++ body) = header := by
  rw [messageHeader, ← header.bytes_length, List.take_left]
  simpa using header.ofBytes_bytes_append []

theorem messageBody_bytes (header : SessionHeader) (body : Bytes) :
    messageBody (header.bytes ++ body) = body := by
  rw [messageBody, ← header.bytes_length, List.drop_left]

namespace Session

variable {clears : MessageType → Bool} {session session' : Session (List Bytes)}

/-- The message that `SendInternal` puts in the queue. -/
def outgoing (session : Session (List Bytes)) (messageType : MessageType) (body : Bytes) : Bytes :=
  SessionHeader.bytes ⟨if messageType = kLog then 0 else session.sessionId, messageType⟩ ++ body

theorem sendInternal_queue (session : Session (List Bytes)) (messageType : MessageType)
    (body : Bytes) :
    session.sendInternal queueTransport messageType body =
      (.noError,
        { session with transport := session.transport ++ [session.outgoing messageType body] }) := by
  by_cases empty : body = [] <;> simp [sendInternal, queueTransport, outgoing, empty]

/-- What a call, or the delivery of `incoming`, can do to the session id and to what is in
flight. -/
inductive Effect (incoming : Option Bytes) (session session' : Session (List Bytes)) : Prop where
  /-- Nothing changes; a disrupting message finds no established session. -/
  | keeps : session'.sessionId = session.sessionId → session'.state = session.state →
      session'.transport = session.transport →
      (∀ message, incoming = some message → disrupts message = true →
        session.state ≠ .sessionEstablished) → Effect incoming session session'
  /-- The session is given up. -/
  | leaves : session'.sessionId = session.sessionId →
      session'.state = .reset ∨ session'.state = .noSessionEstablished →
      session'.transport = session.transport → Effect incoming session session'
  /-- A message is sent that disrupts nothing. -/
  | sends (message : Bytes) : session'.sessionId = session.sessionId →
      session'.state = session.state →
      session'.transport = session.transport ++ [message] → disrupts message = false →
      incoming = none → Effect incoming session session'
  /-- A message is sent that disrupts the other side.  A reply carries the sender's id. -/
  | announces (message : Bytes) : session'.transport = session.transport ++ [message] →
      disrupts message = true →
      ((messageHeader message).messageType = kStartSessionReply →
        session'.sessionId = (messageHeader message).sessionId ∧
          session'.state ≠ .startSessionSent) → Effect incoming session session'
  /-- The reply to a start of session is accepted. -/
  | accepts (message : Bytes) : incoming = some message →
      (messageHeader message).messageType = kStartSessionReply →
      disrupts message = true → session.state = .startSessionSent →
      session'.sessionId = (messageHeader message).sessionId →
      session'.transport = session.transport → Effect incoming session session'

theorem outgoing_header (session : Session (List Bytes)) (messageType : MessageType)
    (body : Bytes) (notLog : messageType ≠ kLog) :
    messageHeader (session.outgoing messageType body) = ⟨session.sessionId, messageType⟩ := by
  rw [outgoing, messageHeader_bytes, if_neg notLog]

theorem outgoing_body (session : Session (List Bytes)) (messageType : MessageType)
    (body : Bytes) : messageBody (session.outgoing messageType body) = body :=
  messageBody_bytes _ _

theorem outgoing_terminate_disrupts (session : Session (List Bytes)) (body : Bytes) :
    disrupts (session.outgoing kTerminateSession body) = true := by
  simp [disrupts, session.outgoing_header kTerminateSession body (by decide)]

theorem outgoing_init_disrupts (session : Session (List Bytes))
    (valid : initiatorNonce session.sessionId ≠ kInvalidNonce) :
    disrupts (session.outgoing kStartSessionInit [kVersion]) = true := by
  have header := session.outgoing_header kStartSessionInit [kVersion] (by decide)
  have other : kStartSessionInit ≠ kTerminateSession := by decide
  simp [disrupts, header, outgoing_body, other, valid]

theorem outgoing_reply_disrupts (session : Session (List Bytes))
    (valid : responderNonce session.sessionId ≠ kInvalidNonce) :
    disrupts (session.outgoing kStartSessionReply [kVersion]) = true := by
  have header := session.outgoing_header kStartSessionReply [kVersion] (by decide)
  have other : kStartSessionReply ≠ kTerminateSession := by decide
  have other' : kStartSessionReply ≠ kStartSessionInit := by decide
  simp [disrupts, header, outgoing_body, other, other', valid]

theorem startSession_effect (incoming : Option Bytes) {error : CrtError}
    (starts : session.startSession queueTransport = some (error, session')) :
    Effect incoming session session' := by
  unfold startSession at starts
  split at starts
  · simp at starts
  · simp only [sendInternal_queue, if_true, Option.some.injEq, Prod.mk.injEq] at starts
    obtain ⟨_, rfl⟩ := starts
    refine .announces _ rfl (outgoing_init_disrupts _ ?_) ?_
    · simp only [setSessionId, initiatorNonce_makeSessionId, regenerateNonce]
      exact nextNonce_ne session.localNonce
    · rw [outgoing_header _ _ _ (by decide)]
      intro isReply
      exact absurd isReply (by decide : kStartSessionInit ≠ kStartSessionReply)

theorem terminateSession_effect (session : Session (List Bytes)) :
    Effect none session (session.terminateSession queueTransport).2 := by
  rw [terminateSession, sendInternal_queue]
  refine .announces _ rfl (outgoing_terminate_disrupts _ []) ?_
  rw [outgoing_header _ _ _ (by decide)]
  intro isReply
  exact absurd isReply (by decide : kTerminateSession ≠ kStartSessionReply)

theorem sendMessage_effect (session : Session (List Bytes)) (messageType : MessageType)
    (body : Bytes) :
    Effect none session (session.sendMessage queueTransport messageType body).2 := by
  unfold sendMessage
  split
  · exact .keeps rfl rfl rfl (by simp)
  next sendable =>
    rw [sendInternal_queue]
    cases loud : disrupts (session.outgoing messageType body) with
    | false => exact .sends _ rfl rfl rfl loud rfl
    | true =>
      refine .announces _ rfl loud ?_
      intro isReply
      have notLog : messageType ≠ kLog := by
        rintro rfl
        rw [outgoing, messageHeader_bytes] at isReply
        exact absurd isReply (by decide : kLog ≠ kStartSessionReply)
      have established : session.state = .sessionEstablished := by
        simpa [notLog] using sendable
      rw [outgoing_header _ _ _ notLog]
      exact ⟨rfl, by simp [established]⟩

theorem call_effect {call : Call} (called : session.call queueTransport call = some session') :
    Effect none session session' := by
  cases call with
  | initializeSession nonce =>
    rw [← Option.some.inj called]
    cases terminateSession_effect { session with localNonce := nonce } with
    | keeps sameId sameState sameQueue _ => exact .keeps sameId sameState sameQueue (by simp)
    | leaves sameId state sameQueue => exact .leaves sameId state sameQueue
    | sends message sameId sameState queue quiet => exact .sends message sameId sameState queue quiet rfl
    | announces message queue loud reply => exact .announces message queue loud reply
    | accepts message incoming => simp at incoming
  | startSession =>
    obtain ⟨⟨error, started⟩, starts, rfl⟩ := Option.map_eq_some_iff.mp called
    exact startSession_effect none starts
  | terminateSession =>
    rw [← Option.some.inj called]
    exact session.terminateSession_effect
  | sendMessage messageType body =>
    rw [← Option.some.inj called]
    exact session.sendMessage_effect messageType body
  | clearReceiveBuffer =>
    rw [← Option.some.inj called]
    exact .keeps rfl rfl rfl (by simp)

/-- The part of a session that `Effect` is about. -/
def core (session : Session (List Bytes)) : UInt16 × Session.State × List Bytes :=
  (session.sessionId, session.state, session.transport)

theorem Effect.congr {incoming : Option Bytes} {first first' second second' : Session (List Bytes)}
    (effect : Effect incoming first first') (before : first.core = second.core)
    (after : first'.core = second'.core) : Effect incoming second second' := by
  simp only [core, Prod.mk.injEq] at before after
  obtain ⟨beforeId, beforeState, beforeQueue⟩ := before
  obtain ⟨afterId, afterState, afterQueue⟩ := after
  cases effect with
  | keeps sameId sameState sameQueue idle =>
    rw [afterId, beforeId] at sameId
    rw [afterState, beforeState] at sameState
    rw [afterQueue, beforeQueue] at sameQueue
    rw [beforeState] at idle
    exact .keeps sameId sameState sameQueue idle
  | leaves sameId state sameQueue =>
    rw [afterId, beforeId] at sameId
    rw [afterState] at state
    rw [afterQueue, beforeQueue] at sameQueue
    exact .leaves sameId state sameQueue
  | sends message sameId sameState queue quiet none =>
    rw [afterId, beforeId] at sameId
    rw [afterState, beforeState] at sameState
    rw [afterQueue, beforeQueue] at queue
    exact .sends message sameId sameState queue quiet none
  | announces message queue loud reply =>
    rw [afterQueue, beforeQueue] at queue
    rw [afterId, afterState] at reply
    exact .announces message queue loud reply
  | accepts message incoming isReply loud sent sameId sameQueue =>
    rw [beforeState] at sent
    rw [afterId] at sameId
    rw [afterQueue, beforeQueue] at sameQueue
    exact .accepts message incoming isReply loud sent sameId sameQueue

theorem sendSessionStartReply_effect (incoming : Option Bytes) {header : SessionHeader}
    (replies : session.sendSessionStartReply queueTransport header = some session') :
    Effect incoming session session' := by
  simp only [sendSessionStartReply, sendInternal_queue, ne_eq, not_true_eq_false, if_false,
    Option.some.injEq] at replies
  subst replies
  refine .announces _ rfl (outgoing_reply_disrupts _ ?_) ?_
  · simp only [setSessionId, responderNonce_makeSessionId, regenerateNonce]
    exact nextNonce_ne session.localNonce
  · rw [outgoing_header _ _ _ (by decide)]
    intro _
    exact ⟨rfl, by simp [onSessionEstablishedMessage]⟩

theorem readVersion_eq (session : Session (List Bytes)) :
    ∃ next, session.readVersion = (session.receiveBuffer.unread.head?, next) ∧
      next.core = session.core ∧ next.localNonce = session.localNonce := by
  have head : (session.receiveBuffer.unread.take 1).head? =
      session.receiveBuffer.unread.head? := by
    cases session.receiveBuffer.unread <;> rfl
  exact ⟨session.readVersion.2, by rw [← head]; rfl, rfl, rfl⟩

theorem disrupts_init {message : Bytes}
    (isInit : (messageHeader message).messageType = kStartSessionInit) :
    disrupts message = (initiatorNonce (messageHeader message).sessionId != kInvalidNonce &&
      messageBody message != []) := by
  have other : kStartSessionInit ≠ kTerminateSession := by decide
  simp [disrupts, isInit, other]

theorem disrupts_reply {message : Bytes}
    (isReply : (messageHeader message).messageType = kStartSessionReply) :
    disrupts message = (responderNonce (messageHeader message).sessionId != kInvalidNonce &&
      messageBody message != []) := by
  have other : kStartSessionReply ≠ kTerminateSession := by decide
  have other' : kStartSessionReply ≠ kStartSessionInit := by decide
  simp [disrupts, isReply, other, other']

theorem disrupts_short {message : Bytes}
    (short : (message.take kSessionHeaderBytes).length ≠ kSessionHeaderBytes) :
    disrupts message = false := by
  have header : messageHeader message = ⟨0, kStartSessionInit⟩ := by
    match message with
    | [] => rfl
    | [_] => rfl
    | [_, _] => rfl
    | _ :: _ :: _ :: _ => exact absurd rfl short
  have invalid : initiatorNonce 0 = kInvalidNonce := by decide
  rw [disrupts_init (by rw [header]), header, invalid, bne_self_eq_false, Bool.false_and]

theorem effect_of_core {message : Bytes} (same : session'.core = session.core)
    (idle : disrupts message = true → session.state ≠ .sessionEstablished) :
    Effect (some message) session session' := by
  simp only [core, Prod.mk.injEq] at same
  refine .keeps same.1 same.2.1 same.2.2 ?_
  intro other isMessage
  rw [← Option.some.inj isMessage]
  exact idle

theorem processStartSessionInit_effect {message : Bytes}
    (isInit : (messageHeader message).messageType = kStartSessionInit)
    (unread : session.receiveBuffer.unread = messageBody message)
    (processed : session.processStartSessionInit queueTransport (messageHeader message) =
      some session') : Effect (some message) session session' := by
  have disruption := disrupts_init isInit
  unfold processStartSessionInit at processed
  split at processed
  next invalid =>
    rw [← Option.some.inj processed]
    exact effect_of_core rfl (by simp [disruption, invalid])
  · obtain ⟨next, read, sameCore, sameNonce⟩ := session.readVersion_eq
    rw [unread] at read
    rw [read] at processed
    cases body : messageBody message with
    | nil =>
      rw [body] at processed
      rw [← Option.some.inj processed]
      exact effect_of_core sameCore (by simp [disruption, body])
    | cons version rest =>
      rw [body] at processed
      have sameState : next.state = session.state := congrArg (·.2.1) sameCore
      have reply : ∀ {final}, next.sendSessionStartReply queueTransport (messageHeader message) =
          some final → Effect (some message) session final := fun replies =>
        (sendSessionStartReply_effect (some message) replies).congr sameCore rfl
      simp only [List.head?_cons] at processed
      cases state : next.state with
      | reset =>
        simp only [state] at processed
        exact reply processed
      | noSessionEstablished =>
        simp only [state] at processed
        exact reply processed
      | startSessionSent =>
        simp only [state] at processed
        have waiting : session.state ≠ .sessionEstablished := by simp [← sameState, state]
        split at processed
        · split at processed
          · exact reply processed
          · rw [← Option.some.inj processed]
            exact effect_of_core sameCore fun _ => waiting
        · split at processed
          · obtain ⟨⟨error, started⟩, starts, rfl⟩ := Option.map_eq_some_iff.mp processed
            exact (startSession_effect (some message) starts).congr sameCore rfl
          · rw [← Option.some.inj processed]
            exact effect_of_core sameCore fun _ => waiting
      | sessionEstablished =>
        simp only [state] at processed
        obtain ⟨replied, replies, rfl⟩ := Option.map_eq_some_iff.mp processed
        exact (reply replies).congr rfl rfl

theorem processStartSessionReply_effect {message : Bytes}
    (isReply : (messageHeader message).messageType = kStartSessionReply)
    (unread : session.receiveBuffer.unread = messageBody message)
    (processed : session.processStartSessionReply queueTransport (messageHeader message) =
      some session') : Effect (some message) session session' := by
  have disruption := disrupts_reply isReply
  unfold processStartSessionReply at processed
  split at processed
  next invalid =>
    rw [← Option.some.inj processed]
    exact effect_of_core rfl (by simp [disruption, invalid])
  next valid =>
    obtain ⟨next, read, sameCore, sameNonce⟩ := session.readVersion_eq
    rw [unread] at read
    rw [read] at processed
    cases body : messageBody message with
    | nil =>
      rw [body] at processed
      rw [← Option.some.inj processed]
      exact effect_of_core sameCore (by simp [disruption, body])
    | cons version rest =>
      rw [body] at processed
      have sameId : next.sessionId = session.sessionId := congrArg (·.1) sameCore
      have sameState : next.state = session.state := congrArg (·.2.1) sameCore
      have sameQueue : next.transport = session.transport := congrArg (·.2.2) sameCore
      simp only [List.head?_cons] at processed
      cases state : next.state with
      | reset =>
        simp only [state, Option.some.injEq] at processed
        rw [← processed]
        exact effect_of_core sameCore fun _ => by simp [← sameState, state]
      | noSessionEstablished =>
        simp only [state, Option.some.injEq] at processed
        rw [← processed]
        exact effect_of_core sameCore fun _ => by simp [← sameState, state]
      | startSessionSent =>
        simp only [state] at processed
        split at processed
        next answers =>
          simp only [Bool.and_eq_true, decide_eq_true_eq] at answers
          rw [← Option.some.inj processed]
          refine .accepts message rfl isReply (by simp [disruption, body, valid]) ?_ ?_ sameQueue
          · rw [← sameState, state]
          · simp only [onSessionEstablishedMessage, setSessionId]
            rw [← answers.1, makeSessionId_nonces]
        · rw [← Option.some.inj processed]
          exact effect_of_core sameCore fun _ => by simp [← sameState, state]
      | sessionEstablished =>
        -- the responder nonce is valid, so an established session only ever gives up
        simp only [state, valid, decide_false, Bool.and_false, Bool.false_eq_true,
          if_false, Option.some.injEq] at processed
        rw [← processed]
        exact .leaves sameId (.inl rfl) sameQueue

theorem dispatch_effect {message : Bytes}
    (unread : session.receiveBuffer.unread = messageBody message)
    (dispatched : session.dispatch queueTransport clears (messageHeader message) = some session') :
    Effect (some message) session session' := by
  unfold dispatch at dispatched
  split at dispatched
  next isInit =>
    obtain ⟨next, processed, rfl⟩ := Option.map_eq_some_iff.mp dispatched
    exact (processStartSessionInit_effect isInit unread processed).congr rfl rfl
  split at dispatched
  next isReply =>
    obtain ⟨next, processed, rfl⟩ := Option.map_eq_some_iff.mp dispatched
    exact (processStartSessionReply_effect isReply unread processed).congr rfl rfl
  split at dispatched
  · rw [← Option.some.inj dispatched]
    split
    · exact .leaves rfl (.inr rfl) rfl
    next idle => exact effect_of_core rfl fun _ => idle
  next notInit notReply notTerminate =>
    have quiet : disrupts message = false := by
      simp [disrupts, notInit, notReply, notTerminate]
    have handed : (session.handOver clears (messageHeader message)).core = session.core := by
      unfold handOver
      split <;> rfl
    split at dispatched
    all_goals
      rw [← Option.some.inj dispatched]
      split
      · exact effect_of_core handed (by simp [quiet])
      · exact effect_of_core rfl (by simp [quiet])

theorem deliver_effect {message : Bytes} (clean : session.receiveBuffer.unread = [])
    (delivered : (receiver queueTransport clears).Trace (some session)
      (message.map .byte ++ [.packetDone true]) (some session')) :
    Effect (some message) session session' := by
  obtain ⟨accepts, done⟩ := trace_bytes delivered rfl rfl (by simp)
  have unread : (session.deposit message).receiveBuffer.unread = message := by
    by_cases empty : message = []
    · simpa [empty] using clean
    · rw [(accepts empty).unread, clean, List.nil_append]
  have processed := done.eq_of_done
  simp only [receiver, Option.bind_some, packetDone, Bool.not_true, Bool.false_eq_true, if_false,
    FrameBuffer.read_fst, unread] at processed
  split at processed
  next short =>
    rw [Option.some.inj processed]
    exact effect_of_core rfl (by simp [disrupts_short short])
  · refine (dispatch_effect ?_ processed.symm).congr rfl rfl
    simp only [setComplete]
    rw [FrameBuffer.read_unread, unread]
    rfl

end Session

/-- Two sessions.  The `transport` of each is what it has sent and the other has not received. -/
structure Network where
  alice : Session (List Bytes)
  bob : Session (List Bytes)

namespace Network

def swap (net : Network) : Network := ⟨net.bob, net.alice⟩

/-- Both sessions have called `Initialize`. -/
def start (aliceNonce bobNonce : UInt8) (aliceCapacity bobCapacity : Nat) : Network where
  alice := ((Session.new [] aliceCapacity).initializeSession queueTransport aliceNonce).2
  bob := ((Session.new [] bobCapacity).initializeSession queueTransport bobNonce).2

/-- A step of `alice`: a call of her program, or the delivery of the next message to her, in
any `Write` calls followed by `PacketDone(true)`. -/
inductive Turn (clears : MessageType → Bool)
    (condition : Session (List Bytes) → Bytes → Prop) : Network → Network → Prop where
  | call {net : Network} {alice' : Session (List Bytes)} (call : Session.Call) :
      net.alice.call queueTransport call = some alice' →
      Turn clears condition net ⟨alice', net.bob⟩
  | deliver {net : Network} {alice' : Session (List Bytes)} {message : Bytes}
      {rest : List Bytes} :
      net.bob.transport = message :: rest → condition net.alice message →
      (Session.receiver queueTransport clears).Trace (some net.alice)
        (message.map .byte ++ [.packetDone true]) (some alice') →
      Turn clears condition net ⟨alice', { net.bob with transport := rest }⟩

/-- The states of the network in any interleaving of the two sides' steps. -/
inductive Reached (aliceClears bobClears : MessageType → Bool)
    (condition : Session (List Bytes) → Bytes → Prop) : Network → Prop where
  | start (aliceNonce bobNonce : UInt8) (aliceCapacity bobCapacity : Nat) :
      Reached aliceClears bobClears condition
        (start aliceNonce bobNonce aliceCapacity bobCapacity)
  | alice {net net' : Network} :
      Reached aliceClears bobClears condition net → Turn aliceClears condition net net' →
      Reached aliceClears bobClears condition net'
  | bob {net net' : Network} :
      Reached aliceClears bobClears condition net → Turn bobClears condition net.swap net' →
      Reached aliceClears bobClears condition net'.swap

/-- Nothing of an earlier message is left to be read. -/
def Clean (session : Session (List Bytes)) (_ : Bytes) : Prop :=
  session.receiveBuffer.unread = []

end Network

/-- If the last disrupting message that `session` has in flight is a reply, the session still
has the id of that reply. -/
def Session.Sound (session : Session (List Bytes)) : Prop :=
  ∀ message, lastDisruption session.transport = some message →
    (messageHeader message).messageType = kStartSessionReply →
      session.sessionId = (messageHeader message).sessionId ∧ session.state ≠ .startSessionSent

theorem Session.Effect.sound {incoming : Option Bytes} {session session' : Session (List Bytes)}
    (effect : Session.Effect incoming session session') (sound : session.Sound) :
    session'.Sound := by
  intro message last isReply
  cases effect with
  | keeps sameId sameState sameQueue _ =>
    rw [sameQueue] at last
    rw [sameId, sameState]
    exact sound message last isReply
  | leaves sameId state sameQueue =>
    rw [sameQueue] at last
    refine ⟨sameId.trans (sound message last isReply).1, ?_⟩
    rcases state with state | state <;> simp [state]
  | sends sent sameId sameState queue quiet _ =>
    rw [queue, lastDisruption_append, quiet] at last
    rw [sameId, sameState]
    exact sound message last isReply
  | announces sent queue loud reply =>
    rw [queue, lastDisruption_append, loud] at last
    obtain rfl := Option.some.inj last
    exact reply isReply
  | accepts heard _ _ _ waiting _ sameQueue =>
    rw [sameQueue] at last
    exact absurd waiting (sound message last isReply).2

theorem Session.Sound.received {session : Session (List Bytes)} {message : Bytes}
    {rest : List Bytes} (sound : session.Sound) (queue : session.transport = message :: rest) :
    Session.Sound { session with transport := rest } := by
  intro last isLast isReply
  refine sound last ?_ isReply
  rw [queue, lastDisruption_cons]
  simp only at isLast
  simp [isLast]

namespace Network

structure Inv (net : Network) : Prop where
  alice : net.alice.Sound
  bob : net.bob.Sound
  agree : net.alice.state = .sessionEstablished → net.bob.state = .sessionEstablished →
    lastDisruption net.alice.transport = none → lastDisruption net.bob.transport = none →
      net.alice.sessionId = net.bob.sessionId

theorem Inv.swap {net : Network} (inv : net.Inv) : net.swap.Inv where
  alice := inv.bob
  bob := inv.alice
  agree bob alice bobQuiet aliceQuiet := (inv.agree alice bob aliceQuiet bobQuiet).symm

theorem start_inv (aliceNonce bobNonce : UInt8) (aliceCapacity bobCapacity : Nat) :
    (start aliceNonce bobNonce aliceCapacity bobCapacity).Inv := by
  have fresh : ∀ capacity, (Session.new ([] : List Bytes) capacity).Sound := by
    intro capacity message last
    simp [Session.new, lastDisruption] at last
  have sound : ∀ nonce capacity,
      ((Session.new ([] : List Bytes) capacity).initializeSession queueTransport nonce).2.Sound := by
    intro nonce capacity
    have called : (Session.new ([] : List Bytes) capacity).call queueTransport
        (.initializeSession nonce) = some _ := rfl
    exact (Session.call_effect called).sound (fresh capacity)
  exact
    { alice := sound aliceNonce aliceCapacity
      bob := sound bobNonce bobCapacity
      agree := by
        intro established
        simp [start, Session.initializeSession, Session.terminateSession,
          Session.sendInternal_queue] at established }

/-- A step that hears `incoming` keeps the invariant. -/
theorem Inv.effect {net : Network} {alice' : Session (List Bytes)} {incoming : Option Bytes}
    {rest : List Bytes} (inv : net.Inv) (queue : net.bob.transport = incoming.toList ++ rest)
    (effect : Session.Effect incoming net.alice alice')
    (bobSound : Session.Sound { net.bob with transport := rest }) :
    Inv ⟨alice', { net.bob with transport := rest }⟩ where
  alice := effect.sound inv.alice
  bob := bobSound
  agree := by
    intro aliceEstablished bobEstablished aliceQuiet bobQuiet
    simp only at aliceEstablished bobEstablished aliceQuiet bobQuiet ⊢
    cases effect with
    | keeps sameId sameState sameQueue idle =>
      rw [sameState] at aliceEstablished
      rw [sameQueue] at aliceQuiet
      have before : lastDisruption net.bob.transport = none := by
        cases incoming with
        | none => simpa [queue] using bobQuiet
        | some message =>
          have quiet : disrupts message = false := by
            cases loud : disrupts message with
            | false => rfl
            | true => exact absurd aliceEstablished (idle message rfl loud)
          rw [queue, Option.toList_some, List.singleton_append, lastDisruption_cons, quiet]
          simpa using bobQuiet
      rw [sameId]
      exact inv.agree aliceEstablished bobEstablished aliceQuiet before
    | leaves _ state _ =>
      rw [aliceEstablished] at state
      simp at state
    | sends message sameId sameState appended quiet none =>
      subst none
      rw [sameState] at aliceEstablished
      rw [appended, lastDisruption_append, quiet] at aliceQuiet
      rw [sameId]
      exact inv.agree aliceEstablished bobEstablished aliceQuiet (by simpa [queue] using bobQuiet)
    | announces message appended loud _ =>
      rw [appended, lastDisruption_append, loud] at aliceQuiet
      simp at aliceQuiet
    | accepts message heard isReply loud _ newId _ =>
      subst heard
      have last : lastDisruption net.bob.transport = some message := by
        rw [queue, Option.toList_some, List.singleton_append, lastDisruption_cons, bobQuiet, loud]
        simp
      rw [newId, (inv.bob message last isReply).1]

theorem Turn.inv {clears : MessageType → Bool} {net net' : Network}
    (turn : Turn clears Clean net net') (inv : net.Inv) : net'.Inv := by
  cases turn with
  | call call called => exact inv.effect (by simp) (Session.call_effect called) inv.bob
  | deliver queue clean delivered =>
    have effect := Session.deliver_effect clean delivered
    exact inv.effect (by simpa using queue) effect (inv.bob.received queue)

theorem Reached.inv {aliceClears bobClears : MessageType → Bool} {net : Network}
    (reached : Reached aliceClears bobClears Clean net) : net.Inv := by
  induction reached with
  | start aliceNonce bobNonce aliceCapacity bobCapacity =>
    exact start_inv aliceNonce bobNonce aliceCapacity bobCapacity
  | alice _ turn inv => exact turn.inv inv
  | bob _ turn inv => exact (turn.inv inv.swap).swap

end Network

/-- Two established sessions with nothing in flight have the same session id, in every run
that reads no message behind the remains of another. -/
theorem sessions_agree {aliceClears bobClears : MessageType → Bool} {net : Network}
    (reached : Network.Reached aliceClears bobClears Network.Clean net)
    (alice : net.alice.state = .sessionEstablished) (bob : net.bob.state = .sessionEstablished)
    (toBob : net.alice.transport = []) (toAlice : net.bob.transport = []) :
    net.alice.sessionId = net.bob.sessionId :=
  reached.inv.agree alice bob (by rw [toBob]; rfl) (by rw [toAlice]; rfl)

inductive Move where
  | alice (call : Session.Call)
  | bob (call : Session.Call)
  | toAlice
  | toBob

namespace Network

/-- Deliver the next message to `alice` in one `Write` call. -/
def deliver (clears : MessageType → Bool) (mayRead : Session (List Bytes) → Bool)
    (net : Network) : Option Network :=
  match net.bob.transport with
  | [] => none
  | message :: rest =>
    if mayRead net.alice ∧ message ≠ [] ∧ message.length ≤ WriteStream.kStagingBytes ∧
        net.alice.Accepts message then
      ((net.alice.deposit message).packetDone queueTransport clears true).map
        (⟨·, { net.bob with transport := rest }⟩)
    else none

def call (net : Network) (call : Session.Call) : Option Network :=
  (net.alice.call queueTransport call).map (⟨·, net.bob⟩)

def move (clears : MessageType → Bool) (mayRead : Session (List Bytes) → Bool) (net : Network) :
    Move → Option Network
  | .alice call => net.call call
  | .bob call => (net.swap.call call).map swap
  | .toAlice => net.deliver clears mayRead
  | .toBob => (net.swap.deliver clears mayRead).map swap

def play (clears : MessageType → Bool) (mayRead : Session (List Bytes) → Bool) (net : Network) :
    List Move → Option Network
  | [] => some net
  | move :: moves => (net.move clears mayRead move).bind fun net => play clears mayRead net moves

variable {clears : MessageType → Bool} {mayRead : Session (List Bytes) → Bool}
  {condition : Session (List Bytes) → Bytes → Prop} {net net' : Network}

theorem call_turn {call : Session.Call} (called : net.call call = some net') :
    Turn clears condition net net' := by
  obtain ⟨alice', accepted, rfl⟩ := Option.map_eq_some_iff.mp called
  exact .call call accepted

theorem deliver_turn (allows : ∀ session message, mayRead session = true → condition session message)
    (delivered : net.deliver clears mayRead = some net') : Turn clears condition net net' := by
  unfold deliver at delivered
  split at delivered
  · simp at delivered
  next message rest queue =>
    split at delivered
    next conditions =>
      obtain ⟨may, nonempty, staged, accepts⟩ := conditions
      obtain ⟨alice', done, rfl⟩ := Option.map_eq_some_iff.mp delivered
      refine .deliver queue (allows _ _ may) ?_
      rw [← done]
      exact Session.trace_of_accepts nonempty staged accepts true
    · simp at delivered

theorem move_reached (allows : ∀ session message, mayRead session = true → condition session message)
    {move : Move} (moved : net.move clears mayRead move = some net')
    (reached : Reached clears clears condition net) : Reached clears clears condition net' := by
  cases move with
  | alice call => exact reached.alice (call_turn moved)
  | bob call =>
    obtain ⟨turned, called, rfl⟩ := Option.map_eq_some_iff.mp moved
    exact reached.bob (call_turn called)
  | toAlice => exact reached.alice (deliver_turn allows moved)
  | toBob =>
    obtain ⟨turned, delivered, rfl⟩ := Option.map_eq_some_iff.mp moved
    exact reached.bob (deliver_turn allows delivered)

theorem play_reached (allows : ∀ session message, mayRead session = true → condition session message)
    (moves : List Move) (played : net.play clears mayRead moves = some net')
    (reached : Reached clears clears condition net) : Reached clears clears condition net' := by
  induction moves generalizing net with
  | nil => exact Option.some.inj played ▸ reached
  | cons move moves ih =>
    obtain ⟨middle, moved, played⟩ := Option.bind_eq_some_iff.mp played
    exact ih played (move_reached allows moved reached)

end Network

/-- Both sides initialised, and a session that `alice` has started. -/
def establish : List Move :=
  [.toAlice, .toBob, .alice .startSession, .toBob, .toAlice]

/-- `alice` terminates with a body that nobody reads, and `bob` starts a new session. -/
def restart : List Move :=
  [.alice (.sendMessage kTerminateSession [0x21, 9, 1, 1]), .toBob, .bob .startSession,
    .toAlice, .toBob]

/-- A terminate message with a body leaves `bob` a reply that `alice` never sent. -/
theorem sessions_disagree :
    ¬ ∀ net, Network.Reached serverClears serverClears (fun _ _ => True) net →
      net.alice.state = .sessionEstablished → net.bob.state = .sessionEstablished →
        net.alice.transport = [] → net.bob.transport = [] →
          net.alice.sessionId = net.bob.sessionId := by
  intro claim
  have outcome : ((Network.start 0 0 64 64).play serverClears (fun _ => true)
      (establish ++ restart)).map (fun net =>
        ((net.alice.state, net.alice.transport, net.alice.sessionId),
          (net.bob.state, net.bob.transport, net.bob.sessionId))) =
      some ((.sessionEstablished, [], 0x2121), (.sessionEstablished, [], 0x0921)) := by
    decide +kernel
  obtain ⟨net, played, facts⟩ := Option.map_eq_some_iff.mp outcome
  simp only [Prod.mk.injEq] at facts
  obtain ⟨⟨alice, toBob, aliceId⟩, bob, toAlice, bobId⟩ := facts
  have start : Network.Reached serverClears serverClears (fun _ _ => True)
      (Network.start 0 0 64 64) := .start 0 0 64 64
  have reached := Network.play_reached (fun _ _ _ => trivial) _ played start
  have same := claim net reached alice bob toBob toAlice
  rw [aliceId, bobId] at same
  exact absurd same (by decide)

/-- The two sides after `alice` has started a session. -/
theorem sessions_agree_establish :
    ∃ net : Network, net.alice.state = .sessionEstablished ∧
      net.bob.state = .sessionEstablished ∧ net.alice.sessionId = net.bob.sessionId := by
  have outcome : ((Network.start 0 0 64 64).play serverClears
      (fun session => session.receiveBuffer.unread == []) establish).map (fun net =>
        ((net.alice.state, net.alice.transport), (net.bob.state, net.bob.transport))) =
      some ((.sessionEstablished, []), (.sessionEstablished, [])) := by
    decide +kernel
  obtain ⟨net, played, facts⟩ := Option.map_eq_some_iff.mp outcome
  simp only [Prod.mk.injEq] at facts
  obtain ⟨⟨alice, toBob⟩, bob, toAlice⟩ := facts
  have start : Network.Reached serverClears serverClears Network.Clean (Network.start 0 0 64 64) :=
    .start 0 0 64 64
  have reached : Network.Reached serverClears serverClears Network.Clean net :=
    Network.play_reached (fun _ _ clean => eq_of_beq clean) _ played start
  exact ⟨net, alice, bob, sessions_agree reached alice bob toBob toAlice⟩

end Tvm.MicroRpc
