import Tvm.MicroRpc.SessionReceiver

/-!
# Sessions are announced

`OnSessionEstablishedMessage` calls back once for a session that a packet establishes.  A
`StartSessionInit` that reaches an established session is announced twice.
-/

namespace Tvm.MicroRpc

open Tvm.Lib Tvm.Crt

universe u

namespace Session

variable {τ : Type u} {transport : Transport τ} {clears : MessageType → Bool}
  {session after : Session τ}

inductive Event where
  | write (data : Bytes)
  | packetDone (isValid : Bool)
  | call (call : Call)
  deriving DecidableEq, Repr

def step (transport : Transport τ) (clears : MessageType → Bool) (session : Session τ) :
    Event → Option (Session τ)
  | .write data => some (session.receiverWrite data).2
  | .packetDone isValid => session.packetDone transport clears isValid
  | .call call => session.call transport call

def run (transport : Transport τ) (clears : MessageType → Bool) (session : Session τ) :
    List Event → Option (Session τ)
  | [] => some session
  | event :: events => (session.step transport clears event).bind (run transport clears · events)

/-- The call has the type `kStartSessionReply`. -/
def announces : Received → Bool
  | .control messageType => messageType == kStartSessionReply
  | .message header _ => header.messageType == kStartSessionReply

def announcements (session : Session τ) : Nat := session.received.countP announces

/-- `kSessionEstablished` is entered, or entered again with another id. -/
def Enters (before after : Session τ) : Prop :=
  after.state = .sessionEstablished ∧
    (before.state ≠ .sessionEstablished ∨ after.sessionId ≠ before.sessionId)

instance (before after : Session τ) : Decidable (Enters before after) :=
  inferInstanceAs (Decidable (_ ∧ _))

/-- Only a packet establishes a session: a `StartSession` that cannot be sent leaves the state. -/
def establishes (before : Session τ) (event : Event) (after : Session τ) : Bool :=
  match event with
  | .packetDone _ => decide (Enters before after)
  | _ => false

def establishments (transport : Transport τ) (clears : MessageType → Bool) (session : Session τ) :
    List Event → Nat
  | [] => 0
  | event :: events =>
    match session.step transport clears event with
    | none => 0
    | some after =>
      (session.establishes event after).toNat + after.establishments transport clears events

/-- A whole `StartSessionInit` with a nonce reaches an established session. -/
def RepeatsInit (session : Session τ) : Event → Prop
  | .packetDone isValid => isValid = true ∧ session.state = .sessionEstablished ∧
      kSessionHeaderBytes < session.receiveBuffer.unread.length ∧
      (SessionHeader.ofBytes (session.receiveBuffer.unread.take kSessionHeaderBytes)).messageType =
        kStartSessionInit ∧
      initiatorNonce (SessionHeader.ofBytes
        (session.receiveBuffer.unread.take kSessionHeaderBytes)).sessionId ≠ kInvalidNonce
  | _ => False

def NeverRepeats (transport : Transport τ) (clears : MessageType → Bool) (session : Session τ) :
    List Event → Prop
  | [] => True
  | event :: events => ¬ session.RepeatsInit event ∧
      ∀ after, session.step transport clears event = some after →
        after.NeverRepeats transport clears events

theorem onSessionEstablishedMessage_announcements (session : Session τ) :
    session.onSessionEstablishedMessage.announcements = session.announcements + 1 := by
  unfold announcements onSessionEstablishedMessage
  rw [List.countP_append]
  rfl

theorem sendSessionStartReply_announcements {header : SessionHeader}
    (replies : session.sendSessionStartReply transport header = some after) :
    after.announcements = session.announcements + 1 ∧ after.state = .sessionEstablished := by
  unfold sendSessionStartReply at replies
  by_cases sent : (((session.regenerateNonce.setSessionId (initiatorNonce header.sessionId)
      session.regenerateNonce.localNonce).sendInternal transport kStartSessionReply
        [kVersion]).1 ≠ .noError)
  · simp [sent] at replies
  · simp only [sent, if_false, Option.some.injEq] at replies
    rw [← replies]
    exact ⟨onSessionEstablishedMessage_announcements _, rfl⟩

theorem startSession_announcements {error : CrtError}
    (starts : session.startSession transport = some (error, after)) :
    after.announcements = session.announcements ∧
      (after.state = .startSessionSent ∨ after.state = session.state) := by
  unfold startSession at starts
  by_cases reset : session.state = .reset
  · rw [if_pos reset] at starts
    cases starts
  · simp only [reset, if_false, Option.some.injEq, Prod.mk.injEq] at starts
    rw [← starts.2]
    by_cases sent : ((session.regenerateNonce.setSessionId session.regenerateNonce.localNonce
        0).sendInternal transport kStartSessionInit [kVersion]).1 = .noError
    · rw [if_pos sent]
      exact ⟨rfl, .inl rfl⟩
    · rw [if_neg sent]
      exact ⟨rfl, .inr rfl⟩

theorem call_announcements {call : Call} (called : session.call transport call = some after) :
    after.announcements = session.announcements := by
  cases call with
  | initializeSession nonce =>
    rw [← Option.some.inj called]
    rfl
  | startSession =>
    obtain ⟨⟨error, started⟩, starts, rfl⟩ := Option.map_eq_some_iff.mp called
    exact (startSession_announcements starts).1
  | terminateSession =>
    rw [← Option.some.inj called]
    rfl
  | sendMessage messageType body =>
    rw [← Option.some.inj called, sendMessage]
    split <;> rfl
  | clearReceiveBuffer =>
    rw [← Option.some.inj called]
    rfl

/-- One call back for a session that is established, none otherwise. -/
def AnnouncedOnce (before after : Session τ) : Prop :=
  after.announcements = before.announcements + (decide (Enters before after)).toNat

theorem announcedOnce_of_enters (announced : after.announcements = session.announcements + 1)
    (state : session.state ≠ .sessionEstablished) (established : after.state = .sessionEstablished) :
    session.AnnouncedOnce after := by
  have enters : Enters session after := ⟨established, .inl state⟩
  unfold AnnouncedOnce
  rw [decide_eq_true enters]
  exact announced

theorem announcedOnce_of_leaves (announced : after.announcements = session.announcements)
    (outside : after.state ≠ .sessionEstablished) : session.AnnouncedOnce after := by
  have leaves : ¬ Enters session after := fun enters => outside enters.1
  unfold AnnouncedOnce
  rw [decide_eq_false leaves]
  exact announced

theorem announcedOnce_of_same (announced : after.announcements = session.announcements)
    (state : after.state = session.state) (id : after.sessionId = session.sessionId) :
    session.AnnouncedOnce after := by
  have stays : ¬ Enters session after := by
    rintro ⟨established, outside | new⟩
    · exact outside (state ▸ established)
    · exact new id
  unfold AnnouncedOnce
  rw [decide_eq_false stays]
  exact announced

theorem readVersion_none : session.readVersion.1 = none ↔ session.receiveBuffer.unread = [] := by
  show (session.receiveBuffer.unread.take 1).head? = none ↔ _
  rw [List.head?_eq_none_iff, List.take_eq_nil_iff]
  simp

theorem processStartSessionInit_announcements {header : SessionHeader}
    (processed : session.processStartSessionInit transport header = some after) :
    if initiatorNonce header.sessionId ≠ kInvalidNonce ∧ session.receiveBuffer.unread ≠ [] ∧
      session.state = .sessionEstablished
    then after.announcements = session.announcements + 2
    else session.AnnouncedOnce after := by
  unfold processStartSessionInit at processed
  by_cases invalid : initiatorNonce header.sessionId = kInvalidNonce
  · rw [if_pos invalid] at processed
    rw [if_neg (fun repeats => repeats.1 invalid), ← Option.some.inj processed]
    exact announcedOnce_of_same rfl rfl rfl
  rw [if_neg invalid] at processed
  have nothing := session.readVersion_none
  have sameState : session.readVersion.2.state = session.state := rfl
  have sameAnnouncements : session.readVersion.2.announcements = session.announcements := rfl
  have once : session.readVersion.2.AnnouncedOnce after → session.AnnouncedOnce after := id
  revert processed nothing sameState sameAnnouncements once
  rcases session.readVersion with ⟨version?, next⟩
  intro processed nothing sameState sameAnnouncements once
  cases version? with
  | none =>
    rw [if_neg (fun repeats => repeats.2.1 (nothing.mp rfl))]
    apply once
    rw [← Option.some.inj processed]
    exact announcedOnce_of_same rfl rfl rfl
  | some version =>
    cases state : next.state with
    | reset =>
      simp only [state] at processed sameState
      obtain ⟨announced, established⟩ := sendSessionStartReply_announcements processed
      rw [if_neg (by rw [← sameState]; simp)]
      exact once (announcedOnce_of_enters announced (by rw [state]; decide) established)
    | noSessionEstablished =>
      simp only [state] at processed sameState
      obtain ⟨announced, established⟩ := sendSessionStartReply_announcements processed
      rw [if_neg (by rw [← sameState]; simp)]
      exact once (announcedOnce_of_enters announced (by rw [state]; decide) established)
    | startSessionSent =>
      simp only [state] at processed sameState
      rw [if_neg (by rw [← sameState]; simp)]
      apply once
      split at processed
      · split at processed
        · obtain ⟨announced, established⟩ := sendSessionStartReply_announcements processed
          exact announcedOnce_of_enters announced (by rw [state]; decide) established
        · rw [← Option.some.inj processed]
          exact announcedOnce_of_same rfl rfl rfl
      · split at processed
        · obtain ⟨⟨error, started⟩, starts, rfl⟩ := Option.map_eq_some_iff.mp processed
          obtain ⟨announced, sent | same⟩ := startSession_announcements starts
          · exact announcedOnce_of_leaves announced (by rw [sent]; decide)
          · exact announcedOnce_of_leaves announced (by rw [same, state]; decide)
        · rw [← Option.some.inj processed]
          exact announcedOnce_of_same rfl rfl rfl
    | sessionEstablished =>
      simp only [state] at processed sameState
      obtain ⟨replied, replies, rfl⟩ := Option.map_eq_some_iff.mp processed
      obtain ⟨announced, -⟩ := sendSessionStartReply_announcements replies
      have some_ne : session.receiveBuffer.unread ≠ [] := fun empty => by
        cases nothing.mpr empty
      rw [if_pos ⟨invalid, some_ne, sameState.symm⟩, onSessionEstablishedMessage_announcements,
        announced, sameAnnouncements]

theorem processStartSessionReply_announcements {header : SessionHeader}
    (processed : session.processStartSessionReply transport header = some after) :
    session.AnnouncedOnce after := by
  unfold processStartSessionReply at processed
  by_cases invalid : responderNonce header.sessionId = kInvalidNonce
  · rw [if_pos invalid] at processed
    rw [← Option.some.inj processed]
    exact announcedOnce_of_same rfl rfl rfl
  rw [if_neg invalid] at processed
  have once : session.readVersion.2.AnnouncedOnce after → session.AnnouncedOnce after := id
  revert processed once
  rcases session.readVersion with ⟨version?, next⟩
  intro processed once
  apply once
  cases version? with
  | none =>
    rw [← Option.some.inj processed]
    exact announcedOnce_of_same rfl rfl rfl
  | some version =>
    cases state : next.state with
    | reset =>
      simp only [state] at processed
      rw [← Option.some.inj processed]
      exact announcedOnce_of_same rfl rfl rfl
    | noSessionEstablished =>
      simp only [state] at processed
      rw [← Option.some.inj processed]
      exact announcedOnce_of_same rfl rfl rfl
    | startSessionSent =>
      simp only [state] at processed
      split at processed
      · rw [← Option.some.inj processed]
        have announced := onSessionEstablishedMessage_announcements
          { next.setSessionId next.localNonce (responderNonce header.sessionId) with
            state := .sessionEstablished }
        exact announcedOnce_of_enters announced (by rw [state]; decide) rfl
      · rw [← Option.some.inj processed]
        exact announcedOnce_of_same rfl rfl rfl
    | sessionEstablished =>
      -- The first branch is for a reply without a nonce, which has been sent away above.
      simp only [state, invalid, decide_false, Bool.and_false, Bool.false_eq_true, if_false]
        at processed
      rw [← Option.some.inj processed]
      exact announcedOnce_of_leaves rfl fun same => by cases same

theorem handOver_announcements (session : Session τ) {header : SessionHeader}
    (other : header.messageType ≠ kStartSessionReply) :
    (session.handOver clears header).announcements = session.announcements := by
  have quiet : announces (.message header session.receiveBuffer.unread) = false :=
    beq_false_of_ne other
  unfold handOver announcements
  split
  · simp only [clearReceiveBuffer, List.countP_append, List.countP_singleton, quiet]
    rfl
  · simp only [List.countP_append, List.countP_singleton, quiet]
    rfl

theorem handOver_announcedOnce (session : Session τ) {header : SessionHeader}
    (other : header.messageType ≠ kStartSessionReply) :
    session.AnnouncedOnce (session.handOver clears header) := by
  apply announcedOnce_of_same (session.handOver_announcements other)
  · unfold handOver
    split <;> rfl
  · unfold handOver
    split <;> rfl

theorem dispatch_announcements {header : SessionHeader}
    (dispatched : session.dispatch transport clears header = some after) :
    if header.messageType = kStartSessionInit ∧ initiatorNonce header.sessionId ≠ kInvalidNonce ∧
      session.receiveBuffer.unread ≠ [] ∧ session.state = .sessionEstablished
    then after.announcements = session.announcements + 2
    else session.AnnouncedOnce after := by
  unfold dispatch at dispatched
  by_cases init : header.messageType = kStartSessionInit
  · rw [if_pos init] at dispatched
    obtain ⟨next, processed, rfl⟩ := Option.map_eq_some_iff.mp dispatched
    have spec := processStartSessionInit_announcements processed
    simp only [init, true_and]
    exact spec
  rw [if_neg init] at dispatched
  rw [if_neg (fun repeats => init repeats.1)]
  by_cases reply : header.messageType = kStartSessionReply
  · rw [if_pos reply] at dispatched
    obtain ⟨next, processed, rfl⟩ := Option.map_eq_some_iff.mp dispatched
    have once := processStartSessionReply_announcements processed
    exact once
  rw [if_neg reply] at dispatched
  by_cases terminate : header.messageType = kTerminateSession
  · rw [if_pos terminate] at dispatched
    rw [← Option.some.inj dispatched]
    by_cases established : session.state = .sessionEstablished
    · rw [if_pos established]
      apply announcedOnce_of_leaves
      · unfold announcements onSessionTerminatedMessage setComplete
        rw [List.countP_append]
        rfl
      · exact fun same => by cases same
    · rw [if_neg established]
      exact announcedOnce_of_same rfl rfl rfl
  rw [if_neg terminate] at dispatched
  split at dispatched
  all_goals
    rw [← Option.some.inj dispatched]
    split
    · exact session.handOver_announcedOnce reply
    · exact announcedOnce_of_same rfl rfl rfl

theorem packetDone_announcements {isValid : Bool}
    (done : session.packetDone transport clears isValid = some after) :
    (session.RepeatsInit (.packetDone isValid) → after.announcements = session.announcements + 2) ∧
      (¬ session.RepeatsInit (.packetDone isValid) → session.AnnouncedOnce after) := by
  unfold packetDone at done
  cases isValid with
  | false =>
    rw [← Option.some.inj done]
    refine ⟨fun repeats => ?_, fun _ => announcedOnce_of_same rfl rfl rfl⟩
    cases repeats.1
  | true =>
    simp only [Bool.not_true, Bool.false_eq_true, if_false, FrameBuffer.read_fst] at done
    by_cases whole : (session.receiveBuffer.unread.take kSessionHeaderBytes).length =
        kSessionHeaderBytes
    · simp only [whole, ne_eq, not_true_eq_false, if_false] at done
      have spec := dispatch_announcements done
      have behind : kSessionHeaderBytes < session.receiveBuffer.unread.length ↔
          (session.receiveBuffer.read kSessionHeaderBytes).2.unread ≠ [] := by
        rw [FrameBuffer.read_unread, ne_eq, List.drop_eq_nil_iff, not_le]
      refine ⟨fun repeats => ?_, fun never => ?_⟩
      · obtain ⟨-, established, long, init, nonce⟩ := repeats
        rw [if_pos ⟨init, nonce, behind.mp long, established⟩] at spec
        exact spec
      · rw [if_neg (fun ⟨init, nonce, rest, established⟩ =>
          never ⟨rfl, established, behind.mpr rest, init, nonce⟩)] at spec
        exact spec
    · simp only [whole, ne_eq, not_false_eq_true, if_true, Option.some.injEq] at done
      rw [← done]
      refine ⟨fun repeats => ?_, fun _ => announcedOnce_of_same rfl rfl rfl⟩
      have long := repeats.2.2.1
      exact absurd (List.length_take_of_le long.le) whole

theorem step_announcements {event : Event}
    (steps : session.step transport clears event = some after) :
    (session.RepeatsInit event → after.announcements = session.announcements + 2) ∧
      (¬ session.RepeatsInit event → after.announcements =
        session.announcements + (session.establishes event after).toNat) := by
  cases event with
  | write data =>
    rw [← Option.some.inj steps]
    have same : (session.receiverWrite data).2.received = session.received := by
      simp only [receiverWrite]
      split_ifs <;> rfl
    exact ⟨False.elim, fun _ => congrArg (List.countP announces) same⟩
  | packetDone isValid => exact packetDone_announcements steps
  | call call => exact ⟨False.elim, fun _ => call_announcements steps⟩

theorem run_announcements {events : List Event}
    (runs : session.run transport clears events = some after) :
    session.announcements + session.establishments transport clears events ≤ after.announcements ∧
      (after.announcements = session.announcements +
        session.establishments transport clears events ↔
          session.NeverRepeats transport clears events) := by
  induction events generalizing session with
  | nil =>
    rw [← Option.some.inj runs]
    exact ⟨le_rfl, iff_of_true rfl trivial⟩
  | cons event events ih =>
    obtain ⟨next, steps, rest⟩ := Option.bind_eq_some_iff.mp runs
    obtain ⟨atLeast, exact_iff⟩ := ih rest
    obtain ⟨twice, once⟩ := step_announcements steps
    have counted : session.establishments transport clears (event :: events) =
        (session.establishes event next).toNat + next.establishments transport clears events := by
      rw [establishments, steps]
    have never : session.NeverRepeats transport clears (event :: events) ↔
        ¬ session.RepeatsInit event ∧ next.NeverRepeats transport clears events := by
      refine and_congr_right fun _ => ⟨fun all => all next steps, fun here other same => ?_⟩
      obtain rfl := Option.some.inj (steps.symm.trans same)
      exact here
    have atMostOne := Bool.toNat_le (session.establishes event next)
    rw [counted, never]
    by_cases repeats : session.RepeatsInit event
    · have announced := twice repeats
      refine ⟨by omega, fun equal => ?_, fun kept => absurd repeats kept.1⟩
      omega
    · have announced := once repeats
      refine ⟨by omega, fun equal => ⟨repeats, exact_iff.mp (by omega)⟩, fun kept => ?_⟩
      have equal := exact_iff.mpr kept.2
      omega

/-- In a run each session is announced once, and nothing else is, if and only if no
`StartSessionInit` reaches an established session. -/
theorem announced_once_iff (transport : Transport τ) (clears : MessageType → Bool)
    (session after : Session τ) (events : List Event)
    (runs : session.run transport clears events = some after) :
    after.announcements = session.announcements +
      session.establishments transport clears events ↔
        session.NeverRepeats transport clears events :=
  (run_announcements runs).2

def quietTransport : Transport Unit where
  send _ _ := (.noError, ())

/-- A `StartSessionInit` of the initiator with this nonce is received. -/
def initReceived (nonce : UInt8) : List Event :=
  [.write [nonce, 0, kStartSessionInit, kVersion], .packetDone true]

def oneInit : List Event := .call (.initializeSession 60) :: initReceived 5

theorem announced_once_iff_oneInit : ∃ after : Session Unit,
    (new () 64).run quietTransport serverClears oneInit = some after ∧
      (after.announcements = (new () 64).announcements +
        (new () 64).establishments quietTransport serverClears oneInit ↔
          (new () 64).NeverRepeats quietTransport serverClears oneInit) :=
  ⟨_, rfl, announced_once_iff quietTransport serverClears (new () 64) _ oneInit rfl⟩

/-- The second of two inits establishes one session and is announced twice. -/
theorem announced_twice :
    ¬∀ (session after : Session Unit) (events : List Event),
      session.run quietTransport serverClears events = some after →
        after.announcements = session.announcements +
          session.establishments quietTransport serverClears events := by
  intro once
  have counts : ((new () 64).run quietTransport serverClears
      (oneInit ++ initReceived 6)).map announcements = some 3 := by decide +kernel
  have sessions : (new () 64).establishments quietTransport serverClears
      (oneInit ++ initReceived 6) = 2 := by decide +kernel
  obtain ⟨after, runs, three⟩ := Option.map_eq_some_iff.mp counts
  have two := once (new () 64) after _ runs
  rw [three, sessions] at two
  exact absurd two (by decide)

end Session

end Tvm.MicroRpc
