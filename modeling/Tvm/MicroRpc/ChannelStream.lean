import Tvm.MicroRpc.ChannelPackets

/-!
# A transport channel is a byte stream

The calls of `Recv` get the bytes of the messages one after the other as long as one message
serves each call.  `Recv` reads every message to the start of `data`, so a call that goes on
with another message overwrites the bytes of the first.
-/

namespace Tvm.MicroRpc

open Tvm.Lib Tvm.Crt WireParser

universe u

/-- The rest of the message that has the byte at this position. -/
def serving : Nat → List Bytes → Option Bytes
  | _, [] => none
  | position, message :: messages =>
    if position < message.length then some (message.drop position)
    else serving (position - message.length) messages

@[simp] theorem serving_nil_cons (position : Nat) (messages : List Bytes) :
    serving position ([] :: messages) = serving position messages := rfl

theorem serving_drop (size position : Nat) (message : Bytes) (messages : List Bytes)
    (inside : size ≤ message.length) :
    serving (size + position) (message :: messages) =
      serving position (message.drop size :: messages) := by
  unfold serving
  rw [List.length_drop, List.drop_drop]
  by_cases first : position < message.length - size
  · rw [if_pos first, if_pos (by omega)]
  · rw [if_neg first, if_neg (by omega)]
    congr 1
    omega

def ServedByOne (messages : List Bytes) (position size : Nat) : Prop :=
  ∀ rest, serving position messages = some rest → size ≤ rest.length

structure SameStream (position : Nat) (messages : List Bytes) (left : List Bytes) : Prop where
  serving : ∀ further, serving (position + further) messages = serving further left
  bytes : messages.flatten.drop position = left.flatten

theorem SameStream.refl (messages : List Bytes) : SameStream 0 messages messages where
  serving further := by rw [Nat.zero_add]
  bytes := rfl

theorem SameStream.trans {position size : Nat} {messages middle left : List Bytes}
    (first : SameStream position messages middle) (second : SameStream size middle left) :
    SameStream (position + size) messages left where
  serving further := by rw [Nat.add_assoc, first.serving, second.serving]
  bytes := by rw [← List.drop_drop, first.bytes, second.bytes]

theorem SameStream.skip (messages : List Bytes) : SameStream 0 ([] :: messages) messages where
  serving further := by rw [Nat.zero_add, serving_nil_cons]
  bytes := rfl

theorem SameStream.read {size : Nat} {message : Bytes} (inside : size ≤ message.length)
    (messages : List Bytes) :
    SameStream size (message :: messages) (message.drop size :: messages) where
  serving further := serving_drop size further message messages inside
  bytes := by
    rw [List.flatten_cons, List.flatten_cons, List.drop_append_of_le_length inside]

theorem SameStream.served {position size : Nat} {messages left : List Bytes}
    (same : SameStream position messages left) :
    ServedByOne messages position size ↔ ServedByOne left 0 size := by
  unfold ServedByOne
  rw [← same.serving 0, Nat.add_zero]

namespace ReceivingChannel

variable {τ : Type u} {transport : Transport τ} {receiving next : ReceivingChannel τ}
  {sessionId : UInt16} {wire : Bytes} {held : Bytes} {bodies : List Bytes}

open MicroTransportChannel

/-- A message is held, or none is and `held` is empty. -/
inductive Ready (receiving : ReceivingChannel τ) (wire : Bytes) (sessionId : UInt16) :
    Bytes → List Bytes → Prop where
  | holding {held : Bytes} {bodies : List Bytes} :
      receiving.Keeps wire sessionId held bodies → Ready receiving wire sessionId held bodies
  | waiting {bodies : List Bytes} :
      receiving.channel.messageBuffer = false →
      receiving.clearDidReceive.Awaits wire sessionId bodies →
      Ready receiving wire sessionId [] bodies

theorem Keeps.awaits {body : Bytes} (keeps : receiving.Keeps wire sessionId body bodies)
    {channel : MicroTransportChannel τ}
    (cleared : channel = { receiving.channel with
      messageBuffer := false
      didReceiveMessage := false
      session := receiving.channel.session.clearReceiveBuffer }) :
    ({ receiving with channel := channel } : ReceivingChannel τ).Awaits wire sessionId bodies := by
  subst cleared
  refine ⟨⟨keeps.holds.state, keeps.holds.sessionId, rfl, rfl, rfl, rfl⟩, keeps.formed,
    keeps.pending, keeps.fits, ?_⟩
  obtain ⟨gap, sawEscape, split, reads⟩ := keeps.between
  cases bodies with
  | nil =>
    rw [List.map_nil, frameAll, List.append_nil] at split
    exact ⟨sawEscape, split ▸ reads⟩
  | cons body bodies =>
    obtain ⟨sawEscape', preamble⟩ := reads_framePreamble .idle sawEscape
    have packet := preamble.append (reads_frame sawEscape' (payloadOf sessionId body)
      (keeps.fits body List.mem_cons_self).2)
    refine ⟨gap ++ packetWire .idle (payloadOf sessionId body), payloadOf sessionId body, false, ?_,
      reads.append packet, rfl, fun _ => rfl⟩
    rw [split, List.map_cons, frameAll, packetWire]
    simp only [List.append_assoc]

/-- What is left of a message: it is cleared at its end. -/
def Left (receiving : ReceivingChannel τ) (wire : Bytes) (sessionId : UInt16) (rest : Bytes)
    (bodies : List Bytes) : Prop :=
  (rest = [] ∧ receiving.channel.messageBuffer = false ∧
      receiving.clearDidReceive.Awaits wire sessionId bodies) ∨
    (rest ≠ [] ∧ receiving.Keeps wire sessionId rest bodies)

theorem Left.ready {rest : Bytes} (left : receiving.Left wire sessionId rest bodies) :
    receiving.Ready wire sessionId rest bodies := by
  rcases left with ⟨rfl, unheld, awaits⟩ | ⟨-, keeps⟩
  · exact .waiting unheld awaits
  · exact .holding keeps

theorem Keeps.readMessage (keeps : receiving.Keeps wire sessionId held bodies) (data : Bytes)
    (size : Nat) :
    (receiving.readMessage data size).1 = min size held.length ∧
      (receiving.readMessage data size).2.1 = held.take size ++ data.drop (min size held.length) ∧
      (receiving.readMessage data size).2.2.Left wire sessionId (held.drop size) bodies := by
  have unread := keeps.holds.unread
  have rest : (receiving.channel.session.receiveBuffer.read size).2.unread = held.drop size := by
    rw [FrameBuffer.read_unread, unread]
  have available : (receiving.channel.session.receiveBuffer.read size).2.readAvailable =
      held.length - size := by
    rw [← FrameBuffer.unread_length, rest, List.length_drop]
  refine ⟨?_, ?_, ?_⟩
  · simp only [ReceivingChannel.readMessage, FrameBuffer.read_fst, unread, List.length_take]
  · simp only [ReceivingChannel.readMessage, FrameBuffer.read_fst, unread, List.length_take]
  · simp only [ReceivingChannel.readMessage, available]
    by_cases done : held.length - size = 0
    · rw [if_pos done]
      refine .inl ⟨List.drop_eq_nil_of_le (by omega), rfl, ?_⟩
      exact keeps.awaits rfl
    · rw [if_neg done]
      refine .inr ⟨fun empty => ?_, ⟨⟨keeps.holds.state, keeps.holds.sessionId, keeps.holds.held,
        keeps.holds.received, rest⟩, keeps.formed, keeps.pending, keeps.fits, keeps.between⟩⟩
      rw [List.drop_eq_nil_iff] at empty
      omega

theorem Ready.turn (ready : receiving.Ready wire sessionId held bodies) (data : Bytes)
    (size : Nat) :
    (receiving.turn data size).1 = min size held.length ∧
      (receiving.turn data size).2.1 = held.take size ++ data.drop (min size held.length) ∧
      (receiving.turn data size).2.2.Left wire sessionId (held.drop size) bodies := by
  unfold ReceivingChannel.turn
  cases ready with
  | holding keeps =>
    rw [if_pos keeps.holds.held]
    exact keeps.readMessage data size
  | waiting unheld awaits =>
    rw [if_neg (by rw [unheld]; exact Bool.false_ne_true), List.length_nil, Nat.min_zero,
      List.take_nil, List.drop_nil]
    exact ⟨rfl, rfl, .inl ⟨rfl, unheld, awaits⟩⟩

theorem Ready.recvLoop_served {frecv : Frecv}
    (ready : receiving.Ready frecv.wire sessionId held bodies) {size : Nat} (pos : 0 < size)
    (inside : size ≤ held.length) (passes : Nat) (data : Bytes) :
    ∃ next, receiving.recvLoop transport size (passes + 1) frecv 0 data =
        some (.returned size (held.take size ++ data.drop size), next, frecv) ∧
      next.Ready frecv.wire sessionId (held.drop size) bodies := by
  obtain ⟨count, bytes, left⟩ := ready.turn data size
  rw [min_eq_left inside] at count bytes
  have buffered : receiving.channel.messageBuffer = true := by
    cases ready with
    | holding keeps => exact keeps.holds.held
    | waiting =>
      have short : size ≤ 0 := inside
      omega
  have check : (receiving.turn data size).2.2.channel.messageBuffer = false ∨
      0 < (receiving.turn data size).2.2.channel.session.receiveBuffer.readAvailable := by
    rcases left with ⟨-, unheld, -⟩ | ⟨some, keeps⟩
    · exact .inl unheld
    · refine .inr ?_
      rw [← FrameBuffer.unread_length, keeps.holds.unread]
      exact List.length_pos_iff.mpr some
  refine ⟨(receiving.turn data size).2.2, ?_, left.ready⟩
  have more : ¬ size ≤ 0 := by omega
  have whole : receiving.channel.messageBuffer = true ∧ 0 + (receiving.turn data size).1 = size :=
    ⟨buffered, by rw [count, Nat.zero_add]⟩
  rw [ReceivingChannel.recvLoop, if_neg more]
  simp only [if_pos whole, if_pos check]
  rw [count, bytes, Nat.zero_add]

variable (transport) in
theorem Ready.recvLoop_empty {frecv : Frecv} (ready : receiving.Ready frecv.wire sessionId [] bodies)
    {size : Nat} (pos : 0 < size) {passes : Nat} (enough : frecv.cuts.length + 1 ≤ passes)
    (data : Bytes) :
    (∃ next frecv', receiving.recvLoop transport size (passes + 1) frecv 0 data =
        some (.timedOut, next, frecv') ∧ next.Ready frecv'.wire sessionId [] bodies) ∨
      ∃ (body : Bytes) (rest : List Bytes) (next : ReceivingChannel τ) (frecv' : Frecv),
        bodies = body :: rest ∧ next.Keeps frecv'.wire sessionId body rest ∧
        frecv'.cuts.length ≤ frecv.cuts.length ∧
        receiving.recvLoop transport size (passes + 1) frecv 0 data =
          next.recvLoop transport size passes frecv' 0 data := by
  obtain ⟨count, bytes, left⟩ := ready.turn data size
  rw [List.length_nil, Nat.min_zero] at count bytes
  rw [List.take_nil, List.drop_zero, List.nil_append] at bytes
  rw [List.drop_nil] at left
  obtain ⟨-, -, awaits⟩ := left.resolve_right fun some => some.1 rfl
  have more : ¬ size ≤ 0 := by omega
  have part : ¬ (receiving.channel.messageBuffer = true ∧
      0 + (receiving.turn data size).1 = size) := by
    rw [count]
    omega
  obtain ⟨done, next, frecv', receives, cuts, -, outcome⟩ :=
    awaits.receiveUntil transport (by omega : frecv.cuts.length + 2 ≤ passes + 1)
  rw [ReceivingChannel.recvLoop, if_neg more]
  simp only [if_neg part, receives]
  rcases outcome with ⟨rfl, waiting⟩ | ⟨rfl, body, rest, rfl, keeps⟩
  · refine .inl ⟨next, frecv', rfl, .waiting waiting.waits.unheld ?_⟩
    have unchanged : next.clearDidReceive = next := by
      obtain ⟨⟨session, state, didReceive, messageBuffer⟩, unframer, pendingChunk⟩ := next
      obtain rfl : didReceive = false := waiting.waits.unreceived
      rfl
    rw [unchanged]
    exact waiting
  · refine .inr ⟨body, rest, next, frecv', rfl, keeps, cuts, ?_⟩
    rw [count, bytes]

def Promised (size : Nat) (data : Bytes) (before : List Bytes) (outcome : RecvOutcome)
    (left : List Bytes) : Prop :=
  (outcome = .timedOut ∧ SameStream 0 before left) ∨
    (outcome = .returned size (before.flatten.take size ++ data.drop size) ∧
      size ≤ before.flatten.length ∧ SameStream size before left)

variable (transport) in
theorem Ready.recvLoop_first {frecv : Frecv}
    (ready : receiving.Ready frecv.wire sessionId held bodies) {size : Nat} (pos : 0 < size)
    (served : ServedByOne (held :: bodies) 0 size) (some_held : held ≠ []) (passes : Nat)
    (data : Bytes) :
    ∃ outcome next frecv' held' bodies',
      receiving.recvLoop transport size (passes + 1) frecv 0 data = some (outcome, next, frecv') ∧
        next.Ready frecv'.wire sessionId held' bodies' ∧
        Promised size data (held :: bodies) outcome (held' :: bodies') := by
  have inside : size ≤ held.length := by
    apply served
    rw [serving, if_pos (List.length_pos_iff.mpr some_held), List.drop_zero]
  obtain ⟨next, call, still⟩ := ready.recvLoop_served pos inside passes data
  refine ⟨_, next, frecv, held.drop size, bodies, call, still, .inr ⟨?_, ?_, .read inside bodies⟩⟩
  · rw [List.flatten_cons, List.take_append_of_le_length inside]
  · rw [List.flatten_cons, List.length_append]
    omega

variable (transport) in
theorem Ready.recvLoop {frecv : Frecv} (ready : receiving.Ready frecv.wire sessionId held bodies)
    {size : Nat} (served : ServedByOne (held :: bodies) 0 size) {passes : Nat}
    (enough : bodies.length + frecv.cuts.length + 2 ≤ passes) (data : Bytes) :
    ∃ outcome next frecv' held' bodies', receiving.recvLoop transport size passes frecv 0 data =
        some (outcome, next, frecv') ∧ next.Ready frecv'.wire sessionId held' bodies' ∧
      Promised size data (held :: bodies) outcome (held' :: bodies') := by
  by_cases zero : size = 0
  · obtain ⟨passes, rfl⟩ : ∃ less, passes = less + 1 := ⟨passes - 1, by omega⟩
    subst zero
    refine ⟨_, receiving, frecv, held, bodies, ?_, ready, .inr ⟨rfl, Nat.zero_le _, .refl _⟩⟩
    rw [ReceivingChannel.recvLoop, if_pos le_rfl, List.take_zero, List.drop_zero, List.nil_append]
  have pos : 0 < size := Nat.pos_of_ne_zero zero
  induction bodies generalizing receiving frecv held passes with
  | nil =>
    obtain ⟨less, rfl⟩ : ∃ less, passes = less + 1 := ⟨passes - 1, by omega⟩
    by_cases empty : held = []
    · subst empty
      have short : frecv.cuts.length + 1 ≤ less := by
        rw [List.length_nil] at enough
        omega
      rcases ready.recvLoop_empty transport pos short data with
        ⟨next, frecv', call, still⟩ | ⟨body, rest, next, frecv', none, -⟩
      · exact ⟨.timedOut, next, frecv', [], [], call, still, .inl ⟨rfl, .refl _⟩⟩
      · cases none
    · exact ready.recvLoop_first transport pos served empty less data
  | cons body bodies ih =>
    obtain ⟨less, rfl⟩ : ∃ less, passes = less + 1 := ⟨passes - 1, by omega⟩
    rw [List.length_cons] at enough
    by_cases empty : held = []
    · subst empty
      rcases ready.recvLoop_empty transport pos (by omega : frecv.cuts.length + 1 ≤ less) data with
        ⟨next, frecv', call, still⟩ | ⟨first, rest, next, frecv', same, keeps, cuts, call⟩
      · exact ⟨.timedOut, next, frecv', [], body :: bodies, call, still, .inl ⟨rfl, .refl _⟩⟩
      · obtain ⟨rfl, rfl⟩ := List.cons.inj same
        obtain ⟨outcome, last, frecv'', held', bodies', onward, still, promised⟩ :=
          ih (.holding keeps) served (by omega : bodies.length + frecv'.cuts.length + 2 ≤ less)
        refine ⟨outcome, last, frecv'', held', bodies', call.trans onward, still, ?_⟩
        rcases promised with ⟨timedOut, same⟩ | ⟨returned, enough, same⟩
        · exact .inl ⟨timedOut, (SameStream.skip _).trans same⟩
        · refine .inr ⟨returned, enough, ?_⟩
          have skipped := (SameStream.skip (body :: bodies)).trans same
          rw [Nat.zero_add] at skipped
          exact skipped
    · exact ready.recvLoop_first transport pos served empty less data

theorem turn_eq (receiving : ReceivingChannel τ) (size : Nat) :
    ∃ bytes after, ∀ data, receiving.turn data size =
      (bytes.length, bytes ++ data.drop bytes.length, after) := by
  cases buffered : receiving.channel.messageBuffer with
  | true =>
    refine ⟨(receiving.channel.session.receiveBuffer.read size).1,
      (receiving.readMessage [] size).2.2, fun data => ?_⟩
    rw [turn, if_pos buffered]
    rfl
  | false =>
    refine ⟨[], receiving, fun data => ?_⟩
    rw [turn, if_neg (by rw [buffered]; exact Bool.false_ne_true)]
    rfl

theorem recvLoop_returned {size passes numBytesRecv count : Nat} {frecv frecv' : Frecv}
    {data data' : Bytes}
    (call : receiving.recvLoop transport size (passes + 1) frecv numBytesRecv data =
      some (.returned count data', next, frecv')) :
    (size ≤ numBytesRecv ∧ count = numBytesRecv ∧ data' = data) ∨
      (numBytesRecv < size ∧ numBytesRecv + (receiving.turn data size).1 = size ∧ count = size ∧
        data' = (receiving.turn data size).2.1) ∨
      (numBytesRecv < size ∧ ∃ (waited : ReceivingChannel τ) (frecv'' : Frecv),
        waited.recvLoop transport size passes frecv''
        (numBytesRecv + (receiving.turn data size).1) (receiving.turn data size).2.1 =
          some (.returned count data', next, frecv')) := by
  rw [recvLoop] at call
  by_cases done : size ≤ numBytesRecv
  · rw [if_pos done] at call
    cases call
    exact .inl ⟨done, rfl, rfl⟩
  · rw [if_neg done] at call
    by_cases whole : receiving.channel.messageBuffer = true ∧
        numBytesRecv + (receiving.turn data size).1 = size
    · simp only [if_pos whole] at call
      split_ifs at call
      cases call
      exact .inr (.inl ⟨by omega, whole.2, whole.2, rfl⟩)
    · simp only [if_neg whole] at call
      split at call
      · cases call
      · cases call
      next waited frecv'' _ => exact .inr (.inr ⟨by omega, waited, frecv'', call⟩)

theorem le_of_recvLoop {size passes numBytesRecv count : Nat} {frecv frecv' : Frecv}
    {data data' : Bytes}
    (call : receiving.recvLoop transport size passes frecv numBytesRecv data =
      some (.returned count data', next, frecv')) : numBytesRecv ≤ count := by
  induction passes generalizing receiving frecv numBytesRecv data with
  | zero => cases call
  | succ passes ih =>
    rcases recvLoop_returned call with ⟨-, rfl, -⟩ | ⟨less, -, rfl, -⟩ | ⟨-, waited, frecv'', onward⟩
    · exact le_rfl
    · exact less.le
    · exact (Nat.le_add_right _ _).trans (ih onward)

theorem drop_append_drop {bytes data : Bytes} {position : Nat} (beyond : bytes.length ≤ position) :
    (bytes ++ data.drop bytes.length).drop position = data.drop position := by
  rw [List.drop_append, List.drop_eq_nil_of_le beyond, List.nil_append, List.drop_drop]
  congr 1
  omega

theorem recvLoop_end {size passes numBytesRecv : Nat} {frecv frecv' : Frecv} {data data' : Bytes}
    (call : receiving.recvLoop transport size passes frecv numBytesRecv data =
      some (.returned size data', next, frecv')) :
    data'.drop (size - numBytesRecv) = data.drop (size - numBytesRecv) := by
  induction passes generalizing receiving frecv numBytesRecv data with
  | zero => cases call
  | succ passes ih =>
    obtain ⟨bytes, after, reads⟩ := receiving.turn_eq size
    have turned := reads data
    rcases recvLoop_returned call with ⟨-, -, rfl⟩ | ⟨-, total, -, rfl⟩ | ⟨-, waited, frecv'', onward⟩
    · rfl
    · rw [turned] at total ⊢
      dsimp only at total ⊢
      exact drop_append_drop (by omega)
    · rw [turned] at onward
      dsimp only at onward
      have less := le_of_recvLoop onward
      have later := congrArg (List.drop bytes.length) (ih onward)
      rw [List.drop_drop, List.drop_drop] at later
      have position : size - (numBytesRecv + bytes.length) + bytes.length =
          size - numBytesRecv := by omega
      rw [position] at later
      rw [later]
      exact drop_append_drop (by omega)

theorem recvLoop_data {size passes numBytesRecv count : Nat} {frecv frecv' : Frecv}
    {data data' : Bytes}
    (call : receiving.recvLoop transport size passes frecv numBytesRecv data =
      some (.returned count data', next, frecv')) (other : Bytes) :
    ∃ other', receiving.recvLoop transport size passes frecv numBytesRecv other =
      some (.returned count other', next, frecv') := by
  induction passes generalizing receiving frecv numBytesRecv data other with
  | zero => cases call
  | succ passes ih =>
    obtain ⟨bytes, after, reads⟩ := receiving.turn_eq size
    rw [recvLoop, reads data] at call
    rw [recvLoop, reads other]
    by_cases done : size ≤ numBytesRecv
    · rw [if_pos done] at call ⊢
      cases call
      exact ⟨other, rfl⟩
    · rw [if_neg done] at call ⊢
      by_cases whole : receiving.channel.messageBuffer = true ∧ numBytesRecv + bytes.length = size
      · simp only [if_pos whole] at call ⊢
        split_ifs at call ⊢
        cases call
        exact ⟨_, rfl⟩
      · simp only [if_neg whole] at call ⊢
        split at call
        · cases call
        · cases call
        next => exact ih call _

theorem consumeReceivedPayload_more {pf : MicroTransportChannel τ → Bool} {passes : Nat}
    {result : Bool × ReceivingChannel τ}
    (consumes : receiving.consumeReceivedPayload transport pf passes = some result) :
    receiving.consumeReceivedPayload transport pf (passes + 1) = some result := by
  induction passes generalizing receiving with
  | zero => cases consumes
  | succ passes ih =>
    rw [consumeReceivedPayload] at consumes
    rw [consumeReceivedPayload]
    by_cases nothing : receiving.pendingChunk = []
    · rw [if_pos nothing] at consumes ⊢
      exact consumes
    · rw [if_neg nothing] at consumes ⊢
      dsimp only at consumes ⊢
      split at consumes
      next channel bytesConsumed _ _ =>
        split_ifs at consumes ⊢
        · exact ih consumes
        · exact consumes
        · exact ih consumes
      · cases consumes

theorem receiveUntilLoop_more {pf : MicroTransportChannel τ → Bool} {passes : Nat} {frecv : Frecv}
    {result : Bool × ReceivingChannel τ × Frecv}
    (receives : receiving.receiveUntilLoop transport pf passes frecv = some result) :
    receiving.receiveUntilLoop transport pf (passes + 1) frecv = some result := by
  induction passes generalizing receiving frecv with
  | zero => cases receives
  | succ passes ih =>
    rw [receiveUntilLoop] at receives
    rw [receiveUntilLoop]
    cases consumes : receiving.consumeReceivedPayload transport pf (passes + 1) with
    | none =>
      rw [consumes] at receives
      cases receives
    | some answer =>
      rw [consumes] at receives
      rw [consumeReceivedPayload_more consumes]
      obtain ⟨done, waited⟩ := answer
      cases done with
      | true => exact receives
      | false =>
        dsimp only at receives ⊢
        split_ifs at receives ⊢
        · exact receives
        · exact ih receives

theorem recvLoop_more {size passes numBytesRecv : Nat} {frecv : Frecv} {data : Bytes}
    {result : RecvOutcome × ReceivingChannel τ × Frecv}
    (call : receiving.recvLoop transport size passes frecv numBytesRecv data = some result) :
    receiving.recvLoop transport size (passes + 1) frecv numBytesRecv data = some result := by
  induction passes generalizing receiving frecv numBytesRecv data with
  | zero => cases call
  | succ passes ih =>
    rw [recvLoop] at call
    rw [recvLoop]
    by_cases done : size ≤ numBytesRecv
    · rw [if_pos done] at call ⊢
      exact call
    rw [if_neg done] at call ⊢
    by_cases whole : receiving.channel.messageBuffer = true ∧
        numBytesRecv + (receiving.turn data size).1 = size
    · simp only [if_pos whole] at call ⊢
      exact call
    simp only [if_neg whole] at call ⊢
    have more : ∀ answer, (receiving.turn data size).2.2.clearDidReceive.receiveUntil transport
        (·.didReceiveMessage) (passes + 1) frecv = some answer →
          (receiving.turn data size).2.2.clearDidReceive.receiveUntil transport
            (·.didReceiveMessage) (passes + 1 + 1) frecv = some answer := by
      intro answer receives
      unfold receiveUntil at receives ⊢
      split_ifs at receives ⊢
      · exact receives
      · exact receiveUntilLoop_more receives
    split at call
    · cases call
    next waited frecv' receives =>
      rw [more _ receives]
      exact call
    next waited frecv' receives =>
      rw [more _ receives]
      exact ih call

theorem recv_le {size passes further : Nat} {frecv : Frecv} {data : Bytes}
    {result : RecvOutcome × ReceivingChannel τ × Frecv}
    (call : receiving.recvLoop transport size passes frecv 0 data = some result) :
    receiving.recvLoop transport size (passes + further) frecv 0 data = some result := by
  induction further with
  | zero => exact call
  | succ further ih => exact recvLoop_more ih

/-- Some number of passes is enough for this result. -/
def Receives (transport : Transport τ) (receiving : ReceivingChannel τ) (frecv : Frecv)
    (size : Nat) (data : Bytes) (result : RecvOutcome × ReceivingChannel τ × Frecv) : Prop :=
  ∃ passes, receiving.recv transport passes frecv size data = some result

structure Opened (receiving : ReceivingChannel τ) (frecv : Frecv) (messages : List Bytes) :
    Prop where
  established : receiving.channel.session.state = .sessionEstablished
  unheld : receiving.channel.messageBuffer = false
  idle : receiving.channel.session.receiveBufferHasCompleteMessage = false
  clear : receiving.channel.session.receiveBuffer.data = []
  formed : receiving.unframer.WellFormed
  hunting : receiving.unframer.state = .findPacketStart
  pending : receiving.pendingChunk = []
  /-- The other side sends them through a framer. -/
  sent : ∃ state, frecv.wire =
    frameAll state (messages.map (payloadOf receiving.channel.session.sessionId))
  fits : receiving.Fits receiving.channel.session.sessionId messages

/-- The calls of `Recv` that meet a condition, and the bytes of the stream that they have got. -/
inductive RecvRun (transport : Transport τ) (messages : List Bytes)
    (admissible : Nat → Nat → Prop) : ReceivingChannel τ → Frecv → Nat → Prop where
  | opened {receiving : ReceivingChannel τ} {frecv : Frecv} :
      receiving.Opened frecv messages → RecvRun transport messages admissible receiving frecv 0
  | returned {receiving next : ReceivingChannel τ} {frecv frecv' : Frecv} {position : Nat}
      (size : Nat) (data : Bytes) {count : Nat} {data' : Bytes} :
      RecvRun transport messages admissible receiving frecv position → admissible position size →
      Receives transport receiving frecv size data (.returned count data', next, frecv') →
      RecvRun transport messages admissible next frecv' (position + size)
  | timedOut {receiving next : ReceivingChannel τ} {frecv frecv' : Frecv} {position : Nat}
      (size : Nat) (data : Bytes) :
      RecvRun transport messages admissible receiving frecv position → admissible position size →
      Receives transport receiving frecv size data (.timedOut, next, frecv') →
      RecvRun transport messages admissible next frecv' position

/-- Wherever the call returns, `data[0..size)` has the next bytes of the stream, and nothing is
written behind it. -/
def KeepsStream (transport : Transport τ) (messages : List Bytes) (position : Nat)
    (receiving : ReceivingChannel τ) (frecv : Frecv) (size : Nat) : Prop :=
  ∀ data count data' next frecv', size ≤ data.length →
    Receives transport receiving frecv size data (.returned count data', next, frecv') →
      count = size ∧ size ≤ (messages.flatten.drop position).length ∧
        data'.take size = (messages.flatten.drop position).take size ∧
        data'.drop size = data.drop size

theorem Opened.ready {frecv : Frecv} {messages : List Bytes}
    (opened : receiving.Opened frecv messages) :
    receiving.Ready frecv.wire receiving.channel.session.sessionId [] messages := by
  have cursor := receiving.channel.session.receiveBuffer.readCursor_le
  rw [opened.clear] at cursor
  have start : receiving.unframer.parser = ⟨receiving.unframer.sawEscapeStart, .hunting⟩ := by
    rw [Unframer.parser, Unframer.phase, opened.hunting]
  refine .waiting opened.unheld ⟨⟨opened.established, rfl, opened.unheld, opened.idle, rfl,
    Nat.le_zero.mp cursor⟩, opened.formed, opened.pending, opened.fits, ?_⟩
  obtain ⟨state, wire⟩ := opened.sent
  cases messages with
  | nil =>
    rw [wire]
    refine ⟨receiving.unframer.sawEscapeStart, ?_⟩
    show Reads receiving.unframer.parser [] [] _
    rw [start]
    exact .nil _
  | cons message messages =>
    obtain ⟨sawEscape, preamble⟩ := reads_framePreamble state receiving.unframer.sawEscapeStart
    have packet := preamble.append (reads_frame sawEscape
      (payloadOf receiving.channel.session.sessionId message)
      (opened.fits message List.mem_cons_self).2)
    rw [← start] at packet
    refine ⟨_, _, false, wire, packet, ?_, fun _ => opened.clear⟩
    show receiving.channel.session.receiveBuffer.data ++ _ = _
    rw [opened.clear, List.nil_append]

theorem Ready.receives {frecv : Frecv} (ready : receiving.Ready frecv.wire sessionId held bodies)
    {size : Nat} (served : ServedByOne (held :: bodies) 0 size) {data : Bytes}
    {outcome : RecvOutcome} {frecv' : Frecv}
    (call : Receives transport receiving frecv size data (outcome, next, frecv')) :
    ∃ held' bodies', next.Ready frecv'.wire sessionId held' bodies' ∧
      Promised size data (held :: bodies) outcome (held' :: bodies') := by
  obtain ⟨passes, call⟩ := call
  have enough : bodies.length + frecv.cuts.length + 2 ≤
      passes + (bodies.length + frecv.cuts.length + 2) := Nat.le_add_left _ _
  obtain ⟨outcome', next', frecv'', held', bodies', same, still, promised⟩ :=
    ready.recvLoop transport served enough data
  have equal := (recv_le call).symm.trans same
  obtain ⟨rfl, rfl, rfl⟩ : outcome = outcome' ∧ next = next' ∧ frecv' = frecv'' := by
    simpa using equal
  exact ⟨held', bodies', still, promised⟩

theorem RecvRun.ready {messages : List Bytes} {frecv : Frecv} {position : Nat}
    (run : RecvRun transport messages (ServedByOne messages) receiving frecv position) :
    ∃ sessionId held bodies, receiving.Ready frecv.wire sessionId held bodies ∧
      SameStream position messages (held :: bodies) := by
  induction run with
  | opened opened =>
    refine ⟨_, [], messages, opened.ready, ?_, rfl⟩
    intro further
    rw [Nat.zero_add, serving_nil_cons]
  | returned size data _ served call ih =>
    obtain ⟨sessionId, held, bodies, ready, same⟩ := ih
    obtain ⟨held', bodies', still, promised⟩ := ready.receives (same.served.mp served) call
    rcases promised with ⟨timedOut, -⟩ | ⟨-, -, onward⟩
    · cases timedOut
    · exact ⟨sessionId, held', bodies', still, same.trans onward⟩
  | timedOut size data _ served call ih =>
    obtain ⟨sessionId, held, bodies, ready, same⟩ := ih
    obtain ⟨held', bodies', still, promised⟩ := ready.receives (same.served.mp served) call
    rcases promised with ⟨-, onward⟩ | ⟨returned, -⟩
    · exact ⟨sessionId, held', bodies', still, same.trans onward⟩
    · cases returned

theorem Ready.keepsStream {frecv : Frecv} {messages : List Bytes} {position size : Nat}
    (ready : receiving.Ready frecv.wire sessionId held bodies)
    (same : SameStream position messages (held :: bodies))
    (served : ServedByOne messages position size) :
    KeepsStream transport messages position receiving frecv size := by
  intro data count data' next frecv' room call
  obtain ⟨held', bodies', -, promised⟩ := ready.receives (same.served.mp served) call
  rcases promised with ⟨timedOut, -⟩ | ⟨returned, enough, -⟩
  · cases timedOut
  · cases returned
    rw [same.bytes]
    have length : ((held :: bodies).flatten.take size).length = size := by
      rw [List.length_take, min_eq_left enough]
    refine ⟨rfl, enough, ?_, ?_⟩
    · rw [List.take_append_of_le_length length.ge, List.take_of_length_le length.le]
    · rw [List.drop_left' length]

theorem Ready.recvLoop_short {frecv frecv' : Frecv}
    (ready : receiving.Ready frecv.wire sessionId held bodies) {size passes : Nat}
    (unserved : ¬ ServedByOne (held :: bodies) 0 size) (some_held : held ≠ []) {data data' : Bytes}
    (call : receiving.recvLoop transport size (passes + 1) frecv 0 data =
      some (.returned size data', next, frecv')) :
    data'.drop (size - 1) = data.drop (size - 1) := by
  have first : serving 0 (held :: bodies) = some held := by
    rw [serving, if_pos (List.length_pos_iff.mpr some_held), List.drop_zero]
  have positive := List.length_pos_iff.mpr some_held
  have short : held.length < size := by
    by_contra long
    refine unserved fun rest serves => ?_
    obtain rfl : held = rest := Option.some.inj (first.symm.trans serves)
    omega
  obtain ⟨count, bytes, -⟩ := ready.turn data size
  rw [min_eq_right short.le] at count bytes
  rcases recvLoop_returned call with ⟨none, -⟩ | ⟨-, total, -⟩ | ⟨-, waited, frecv'', onward⟩
  · omega
  · rw [count] at total
    omega
  · rw [count, bytes, Nat.zero_add, List.take_of_length_le short.le] at onward
    have ended := congrArg (List.drop (held.length - 1)) (recvLoop_end onward)
    rw [List.drop_drop, List.drop_drop] at ended
    have position : size - held.length + (held.length - 1) = size - 1 := by omega
    rw [position] at ended
    rw [ended]
    exact drop_append_drop (by omega)

theorem Ready.recvLoop_last {frecv frecv' : Frecv}
    (ready : receiving.Ready frecv.wire sessionId held bodies) {size passes : Nat}
    (unserved : ¬ ServedByOne (held :: bodies) 0 size)
    (enough : bodies.length + frecv.cuts.length + 2 ≤ passes) {data data' : Bytes}
    (call : receiving.recvLoop transport size passes frecv 0 data =
      some (.returned size data', next, frecv')) :
    data'.drop (size - 1) = data.drop (size - 1) := by
  have pos : 0 < size := by
    by_contra zero
    exact unserved fun rest _ => by omega
  induction bodies generalizing receiving frecv held passes with
  | nil =>
    obtain ⟨less, rfl⟩ : ∃ less, passes = less + 1 := ⟨passes - 1, by omega⟩
    by_cases empty : held = []
    · subst empty
      exact absurd (fun rest none => by cases none) unserved
    · exact ready.recvLoop_short unserved empty call
  | cons body bodies ih =>
    obtain ⟨less, rfl⟩ : ∃ less, passes = less + 1 := ⟨passes - 1, by omega⟩
    rw [List.length_cons] at enough
    by_cases empty : held = []
    · subst empty
      rcases ready.recvLoop_empty transport pos (by omega : frecv.cuts.length + 1 ≤ less) data with
        ⟨waiting, frecv'', timedOut, -⟩ | ⟨first, rest, waiting, frecv'', same, keeps, cuts, onward⟩
      · cases call.symm.trans timedOut
      · obtain ⟨rfl, rfl⟩ := List.cons.inj same
        exact ih (.holding keeps) unserved
          (by omega : bodies.length + frecv''.cuts.length + 2 ≤ less) (onward.symm.trans call)
    · exact ready.recvLoop_short unserved empty call

theorem Ready.keepsStream_iff {frecv : Frecv} {messages : List Bytes} {position size : Nat}
    (ready : receiving.Ready frecv.wire sessionId held bodies)
    (same : SameStream position messages (held :: bodies))
    (returns : ∃ data count data' next frecv', Receives transport receiving frecv size data
      (.returned count data', next, frecv')) :
    KeepsStream transport messages position receiving frecv size ↔
      ServedByOne messages position size := by
  constructor
  · intro keeps
    by_contra unserved
    rw [same.served] at unserved
    have pos : 0 < size := by
      by_contra zero
      exact unserved fun rest _ => by omega
    obtain ⟨data, count, data', next, frecv', passes, call⟩ := returns
    -- A caller whose memory holds another byte than the stream has at its end.
    let wrong : Bytes := List.replicate size ((messages.flatten.drop position)[size - 1]?.getD 0 + 1)
    have length : wrong.length = size := List.length_replicate
    obtain ⟨other, callWrong⟩ := recvLoop_data call wrong
    obtain ⟨rfl, enough, bytes, -⟩ := keeps wrong count other next frecv' length.ge
      ⟨passes, callWrong⟩
    have last := ready.recvLoop_last unserved (Nat.le_add_left _ _) (recv_le callWrong)
    have here := congrArg (fun bytes => bytes[0]?) last
    have there := congrArg (fun bytes => bytes[count - 1]?) bytes
    have inside : count - 1 < wrong.length := by omega
    have kept : other[count - 1]? = wrong[count - 1]? := by
      simpa only [List.getElem?_drop, Nat.add_zero] using here
    have read : other[count - 1]? = (messages.flatten.drop position)[count - 1]? := by
      have small : count - 1 < count := by omega
      simpa only [List.getElem?_take, small, if_true] using there
    have stored : wrong[count - 1]? =
        some ((messages.flatten.drop position)[count - 1]?.getD 0 + 1) := by
      rw [List.getElem?_replicate, if_pos (by omega)]
    have present : ∃ byte, (messages.flatten.drop position)[count - 1]? = some byte :=
      ⟨_, List.getElem?_eq_getElem (by omega)⟩
    obtain ⟨byte, present⟩ := present
    rw [present] at stored read
    have equal : byte + 1 = byte := Option.some.inj (stored.symm.trans (kept.symm.trans read))
    simp at equal
  · exact ready.keepsStream same

/-- In runs whose calls are each served by one message, the next call comes back unless the
transport runs into a timeout, and what it returns is the stream if and only if one message
serves it as well. -/
theorem recv_stream_iff (transport : Transport τ) (messages : List Bytes)
    (receiving : ReceivingChannel τ) (frecv : Frecv) (position : Nat)
    (run : RecvRun transport messages (ServedByOne messages) receiving frecv position)
    (size : Nat) :
    (ServedByOne messages position size → ∀ data, ∃ result,
        Receives transport receiving frecv size data result) ∧
      ((∃ data count data' next frecv', Receives transport receiving frecv size data
          (.returned count data', next, frecv')) →
        (KeepsStream transport messages position receiving frecv size ↔
          ServedByOne messages position size)) := by
  obtain ⟨sessionId, held, bodies, ready, same⟩ := run.ready
  refine ⟨fun served data => ?_, ready.keepsStream_iff same⟩
  obtain ⟨outcome, next, frecv', held', bodies', call, -⟩ :=
    ready.recvLoop transport (same.served.mp served) le_rfl data
  exact ⟨(outcome, next, frecv'), _, call⟩

def opened : ReceivingChannel Unit := ⟨established [], .new, []⟩

def twoMessages : List Bytes := [[0x61, 0x62], [0x63, 0x64]]

/-- Both messages are on the wire, and all the bytes asked for come at once. -/
def twoPackets : Frecv where
  wire := frameAll .idle (twoMessages.map (payloadOf 0x0201))
  cuts := List.replicate 64 64

theorem opened_twoPackets : opened.Opened twoPackets twoMessages where
  established := rfl
  unheld := rfl
  idle := rfl
  clear := rfl
  formed := rfl
  hunting := rfl
  pending := rfl
  sent := ⟨.idle, rfl⟩
  fits := by
    intro body membership
    fin_cases membership <;> decide

theorem recv_stream_iff_two :
    (ServedByOne twoMessages 0 2 → ∀ data, ∃ result,
        Receives silentTransport opened twoPackets 2 data result) ∧
      ((∃ data count data' next frecv', Receives silentTransport opened twoPackets 2 data
          (.returned count data', next, frecv')) →
        (KeepsStream silentTransport twoMessages 0 opened twoPackets 2 ↔
          ServedByOne twoMessages 0 2)) :=
  recv_stream_iff silentTransport twoMessages opened twoPackets 0 (.opened opened_twoPackets) 2

/-- The second message overwrites the first one. -/
theorem recv_overwrites :
    ¬∀ (messages : List Bytes) (receiving : ReceivingChannel Unit) (frecv : Frecv)
      (position size : Nat),
      RecvRun silentTransport messages (fun _ _ => True) receiving frecv position →
        KeepsStream silentTransport messages position receiving frecv size := by
  intro keeps
  have outcome : (opened.recv silentTransport 40 twoPackets 4 [0, 0, 0, 0]).map Prod.fst =
      some (.returned 4 [0x63, 0x64, 0, 0]) := by decide +kernel
  obtain ⟨⟨_, next, frecv'⟩, call, rfl⟩ := Option.map_eq_some_iff.mp outcome
  have kept := keeps twoMessages opened twoPackets 0 4 (.opened opened_twoPackets) [0, 0, 0, 0] 4
    [0x63, 0x64, 0, 0] next frecv' (by decide) ⟨40, call⟩
  exact absurd kept.2.2.1 (by decide)

end ReceivingChannel

end Tvm.MicroRpc
