import Tvm.Lib.Memory

/-!
# Framing of the tracker

`TCPEventHandler.on_message` of `rpc/tracker.py`: the handshake, and the messages that are put
together from the pieces that arrive.
-/

namespace Tvm.Rpc.Framing

open Lib

def rpcTrackerMagic : Int := 0x2F271

def toInt32 (n : Nat) : Int :=
  if n < 2 ^ 31 then n else n - 2 ^ 32

/-- `struct.unpack("<i", bytes)`, which raises unless there are four bytes. -/
def unpackInt (bytes : Bytes) : Option Int :=
  if bytes.length = 4 then some (toInt32 (leValue bytes)) else none

def sliceIndex (bytes : Bytes) (index : Int) : Nat :=
  if 0 ≤ index then index.toNat else (bytes.length + index).toNat

def slice (bytes : Bytes) (start stop : Int) : Bytes :=
  (bytes.take (sliceIndex bytes stop)).drop (sliceIndex bytes start)

/-- What framing calls: the decoding of text, the parser of JSON, and `call_handler`, which may
change anything but the fields of framing, and may raise. -/
structure Callees (World Text Json : Type) where
  pyStr : Bytes → Option Text
  loads : Text → Option Json
  callHandler : World → Json → World × Bool

/-- The fields of `TCPEventHandler` that framing uses.  The socket is open as far as framing is
concerned, and the calls of `call_handler` are recorded. -/
structure TCPEventHandler (World Json : Type) where
  data : Bytes
  msgSize : Int
  initReqNbytes : Nat
  isOpen : Bool
  world : World
  calls : List Json

namespace TCPEventHandler

variable {World Text Json : Type} (callees : Callees World Text Json)

def new (world : World) : TCPEventHandler World Json where
  data := []
  msgSize := 0
  initReqNbytes := 4
  isOpen := true
  world := world
  calls := []

/-- `_init_conn`; the flag says that an exception is raised.  To write to a closed socket raises
one. -/
def initConn (handler : TCPEventHandler World Json) (message : Bytes) :
    TCPEventHandler World Json × Bool :=
  let handler := if message.length ≠ 4 then { handler with isOpen := false } else handler
  match unpackInt message with
  | none => (handler, true)
  | some magic =>
    let handler := if magic ≠ rpcTrackerMagic then { handler with isOpen := false } else handler
    if handler.isOpen then ({ handler with initReqNbytes := 0 }, false) else (handler, true)

/-- The size of the message is read once the header is there. -/
def readSize (handler : TCPEventHandler World Json) : Option (TCPEventHandler World Json) :=
  if handler.msgSize = 0 then
    (unpackInt (handler.data.take 4)).map fun size => { handler with msgSize := size }
  else some handler

/-- A message that is complete is taken from the buffer and handled. -/
def takeMessage (handler : TCPEventHandler World Json) : TCPEventHandler World Json × Bool :=
  match callees.pyStr (slice handler.data 4 (4 + handler.msgSize)) with
  | none => (handler, true)
  | some msg =>
    let handler := { handler with
      data := handler.data.drop (sliceIndex handler.data (4 + handler.msgSize))
      msgSize := 0 }
    match callees.loads msg with
    | none => (handler, true)
    | some args =>
      let called := callees.callHandler handler.world args
      ({ handler with world := called.1, calls := handler.calls ++ [args] }, called.2)

/-- The loop of `on_message`.  A turn that does not end it takes a byte at least. -/
def turns : Nat → TCPEventHandler World Json → TCPEventHandler World Json × Bool
  | 0, handler => (handler, false)
  | fuel + 1, handler =>
    match handler.readSize with
    | none => (handler, false)
    | some handler =>
      if handler.msgSize ≠ 0 ∧ handler.msgSize + 4 ≤ handler.data.length then
        let taken := takeMessage callees handler
        if taken.2 then taken else turns fuel taken.1
      else (handler, false)

def onMessage (handler : TCPEventHandler World Json) (message : Bytes) :
    TCPEventHandler World Json × Bool :=
  if handler.initReqNbytes ≠ 0 then initConn handler message
  else
    let data := handler.data ++ message
    turns callees (data.length + 1) { handler with data := data }

/-- The pieces that arrive, one after the other; the event loop goes on after an exception. -/
def receive (handler : TCPEventHandler World Json) (pieces : List Bytes) :
    TCPEventHandler World Json :=
  pieces.foldl (fun handler piece => (onMessage callees handler piece).1) handler

end TCPEventHandler

def frame (message : Bytes) : Bytes :=
  leBytes 4 message.length ++ message

def trackerStream (messages : List Bytes) : Bytes :=
  leBytes 4 rpcTrackerMagic.toNat ++ messages.flatMap frame

/-- How many messages are complete within the first bytes behind the magic. -/
def complete : List Bytes → Nat → Nat
  | [], _ => 0
  | message :: rest, count =>
    if 4 + message.length ≤ count then complete rest (count - (4 + message.length)) + 1 else 0

section

variable {World Text Json : Type} (callees : Callees World Text Json)

def parse (message : Bytes) : Option Json :=
  (callees.pyStr message).bind callees.loads

/-- The bytes behind the magic that the first `k` pieces bring. -/
def arrived (pieces : List Bytes) (k : Nat) : Nat :=
  (pieces.take k).flatten.length - 4

/-- After any piece, exactly the messages that are complete have been handled, in order, and the
connection is open. -/
def FramesExactly (world : World) (messages pieces : List Bytes) : Prop :=
  ∀ k ≤ pieces.length,
    let handler := TCPEventHandler.receive callees (.new world) (pieces.take k)
    handler.isOpen = true ∧
      handler.calls.map some =
        (messages.take (complete messages (arrived pieces k))).map (parse callees)

/-- What `call_handler` has made of the world after some messages. -/
def worldAfter (world : World) (messages : List Bytes) : World :=
  messages.foldl (fun world message =>
    ((parse callees message).map fun args => (callees.callHandler world args).1).getD world) world

/-- Handling the message raises an exception. -/
def Raises (world : World) (message : Bytes) : Prop :=
  ∃ args, parse callees message = some args ∧ (callees.callHandler world args).2 = true

instance (world : World) (message : Bytes) : Decidable (Raises callees world message) :=
  match isParsed : parse callees message with
  | none => isFalse fun ⟨_, found, _⟩ => by rw [isParsed] at found; cases found
  | some args =>
    if raised : (callees.callHandler world args).2 = true then isTrue ⟨args, isParsed, raised⟩
    else isFalse fun ⟨other, found, isRaised⟩ => by
      obtain rfl := Option.some.inj (isParsed.symm.trans found)
      exact raised isRaised

end

section

variable {World Text Json : Type} {callees : Callees World Text Json} {world : World}
  {messages rest : List Bytes} {message : Bytes} {avail : Nat}

def framesLength (messages : List Bytes) : Nat := (messages.flatMap frame).length

@[simp]
theorem length_frame (message : Bytes) : (frame message).length = 4 + message.length := by
  rw [frame, List.length_append, leBytes_length]

@[simp]
theorem framesLength_nil : framesLength [] = 0 := rfl

@[simp]
theorem framesLength_cons (message : Bytes) (rest : List Bytes) :
    framesLength (message :: rest) = 4 + message.length + framesLength rest := by
  rw [framesLength, List.flatMap_cons, List.length_append, length_frame, framesLength]

theorem complete_le_length (messages : List Bytes) (count : Nat) :
    complete messages count ≤ messages.length := by
  induction messages generalizing count with
  | nil => exact le_rfl
  | cons message rest ih =>
    rw [complete]
    split
    · exact Nat.succ_le_succ (ih _)
    · exact Nat.zero_le _

theorem framesLength_complete_le (messages : List Bytes) (count : Nat) :
    framesLength (messages.take (complete messages count)) ≤ count := by
  induction messages generalizing count with
  | nil => exact Nat.zero_le _
  | cons message rest ih =>
    rw [complete]
    split
    case isTrue fits =>
      rw [List.take_succ_cons, framesLength_cons]
      have := ih (count - (4 + message.length))
      omega
    case isFalse => exact Nat.zero_le _

theorem complete_add (messages : List Bytes) (count more : Nat) :
    complete messages (count + more) = complete messages count +
      complete (messages.drop (complete messages count))
        (count - framesLength (messages.take (complete messages count)) + more) := by
  induction messages generalizing count with
  | nil => rfl
  | cons message rest ih =>
    by_cases fits : 4 + message.length ≤ count
    · have shift : count + more - (4 + message.length) = count - (4 + message.length) + more := by
        omega
      have isComplete : complete (message :: rest) count =
          complete rest (count - (4 + message.length)) + 1 := by
        rw [complete, if_pos fits]
      rw [isComplete, complete, if_pos (by omega), shift, ih,
        List.drop_succ_cons, List.take_succ_cons, framesLength_cons, Nat.sub_sub]
      omega
    · have isComplete : complete (message :: rest) count = 0 := by
        rw [complete, if_neg fits]
      rw [isComplete, List.drop_zero, List.take_zero, framesLength_nil, Nat.sub_zero, Nat.zero_add]

theorem complete_mono (messages : List Bytes) {count later : Nat} (le : count ≤ later) :
    complete messages count ≤ complete messages later := by
  obtain ⟨more, rfl⟩ := Nat.exists_eq_add_of_le le
  rw [complete_add]
  exact Nat.le_add_right _ _

theorem complete_all (messages : List Bytes) :
    complete messages (framesLength messages) = messages.length := by
  induction messages with
  | nil => rfl
  | cons message rest ih =>
    rw [complete, framesLength_cons, if_pos (Nat.le_add_right _ _), Nat.add_sub_cancel_left,
      ih, List.length_cons]

/-- How many messages one call of `on_message` handles: it stops before an empty message and after
an exception. -/
def delivered (callees : Callees World Text Json) : World → List Bytes → Nat → Nat
  | _, [], _ => 0
  | world, message :: rest, avail =>
    if message ≠ [] ∧ 4 + message.length ≤ avail then
      if Raises callees world message then 1
      else delivered callees (worldAfter callees world [message]) rest
        (avail - (4 + message.length)) + 1
    else 0

theorem delivered_le_complete (callees : Callees World Text Json) (world : World) (messages : List Bytes) (avail : Nat) :
    delivered callees world messages avail ≤ complete messages avail := by
  induction messages generalizing world avail with
  | nil => exact le_rfl
  | cons message rest ih =>
    rw [delivered, complete]
    split
    case isTrue fits =>
      rw [if_pos fits.2]
      split
      · exact Nat.le_add_left 1 _
      · exact Nat.succ_le_succ (ih _ _)
    case isFalse => exact Nat.zero_le _

/-- All messages that are complete are handled where none of them is empty, and none but the last
raises an exception. -/
theorem delivered_eq_complete_iff (world : World) (messages : List Bytes) (avail : Nat) :
    delivered callees world messages avail = complete messages avail ↔
      ∀ i message, messages[i]? = some message → i < complete messages avail →
        message ≠ [] ∧ (i + 1 < complete messages avail →
          ¬ Raises callees (worldAfter callees world (messages.take i)) message) := by
  induction messages generalizing world avail with
  | nil => exact ⟨fun _ i message found => by simp at found, fun _ => rfl⟩
  | cons first rest ih =>
    by_cases fits : 4 + first.length ≤ avail
    case neg =>
      have none : complete (first :: rest) avail = 0 := by rw [complete, if_neg fits]
      have noneDelivered : delivered callees world (first :: rest) avail = 0 := by
        rw [delivered, if_neg fun both => fits both.2]
      rw [none, noneDelivered]
      exact ⟨fun _ i message _ small => absurd small (Nat.not_lt_zero i), fun _ => rfl⟩
    have isComplete : complete (first :: rest) avail =
        complete rest (avail - (4 + first.length)) + 1 := by rw [complete, if_pos fits]
    by_cases empty : first = []
    case pos =>
      have noneDelivered : delivered callees world (first :: rest) avail = 0 := by
        rw [delivered, if_neg fun both => both.1 empty]
      rw [isComplete, noneDelivered]
      constructor
      · exact fun same => by omega
      · exact fun each => absurd empty (each 0 first rfl (Nat.succ_pos _)).1
    by_cases raises : Raises callees world first
    case pos =>
      have oneDelivered : delivered callees world (first :: rest) avail = 1 := by
        rw [delivered, if_pos ⟨empty, fits⟩, if_pos raises]
      rw [isComplete, oneDelivered]
      constructor
      · intro same i message found small
        obtain rfl : i = 0 := by omega
        obtain rfl := Option.some.inj found
        exact ⟨empty, fun more => by omega⟩
      · intro each
        by_contra differs
        exact (each 0 first rfl (Nat.succ_pos _)).2 (by omega) raises
    case neg =>
      have isDelivered : delivered callees world (first :: rest) avail =
          delivered callees (worldAfter callees world [first]) rest
            (avail - (4 + first.length)) + 1 := by
        rw [delivered, if_pos ⟨empty, fits⟩, if_neg raises]
      rw [isComplete, isDelivered, Nat.add_right_cancel_iff, ih]
      constructor
      · intro each i message found small
        cases i with
        | zero =>
          obtain rfl := Option.some.inj found
          exact ⟨empty, fun _ => raises⟩
        | succ i =>
          obtain ⟨nonempty, quiet⟩ := each i message found (by omega)
          exact ⟨nonempty, fun more => quiet (by omega)⟩
      · intro each i message found small
        obtain ⟨nonempty, quiet⟩ := each (i + 1) message found (by omega)
        exact ⟨nonempty, fun more => quiet (by omega)⟩

end

section

variable {World Text Json : Type} {callees : Callees World Text Json}

theorem unpackInt_leBytes {n : Nat} (fits : n < 2 ^ 31) : unpackInt (leBytes 4 n) = some (n : Int) := by
  rw [unpackInt, if_pos (leBytes_length 4 n), leValue_leBytes (by omega), toInt32, if_pos fits]

/-- The buffer holds the first bytes of the messages that are left. -/
structure Holds (handler : TCPEventHandler World Json) (rest : List Bytes) (avail : Nat) :
    Prop where
  initialized : handler.initReqNbytes = 0
  isOpen : handler.isOpen = true
  data : handler.data = (rest.flatMap frame).take avail
  available : avail ≤ framesLength rest
  msgSize : handler.msgSize = 0 ∨
    ∃ message later, rest = message :: later ∧ 4 ≤ avail ∧ handler.msgSize = message.length

/-- What the handler has done to handle some messages. -/
structure Handles (callees : Callees World Text Json) (handler after : TCPEventHandler World Json)
    (messages : List Bytes) : Prop where
  world : after.world = worldAfter callees handler.world messages
  calls : after.calls.map some = handler.calls.map some ++ messages.map (parse callees)

variable {handler : TCPEventHandler World Json} {message : Bytes} {rest : List Bytes} {avail : Nat}

theorem Handles.refl (handler : TCPEventHandler World Json) : Handles callees handler handler [] :=
  ⟨rfl, (List.append_nil _).symm⟩

theorem Holds.length_data (holds : Holds handler rest avail) : handler.data.length = avail := by
  rw [holds.data, List.length_take]
  exact Nat.min_eq_left holds.available

theorem Holds.take_data (holds : Holds handler (message :: rest) avail) (header : 4 ≤ avail) :
    handler.data.take 4 = leBytes 4 message.length := by
  rw [holds.data, List.take_take, Nat.min_eq_left header, List.flatMap_cons, frame,
    List.append_assoc]
  exact List.take_left' (leBytes_length 4 _)

theorem Holds.readSize (holds : Holds handler (message :: rest) avail) (header : 4 ≤ avail)
    (fits : message.length < 2 ^ 31) :
    handler.readSize = some { handler with msgSize := message.length } := by
  unfold TCPEventHandler.readSize
  split
  · rw [holds.take_data header, unpackInt_leBytes fits, Option.map_some]
  case isFalse sized =>
    obtain unsized | ⟨_, _, same, -, isSize⟩ := holds.msgSize
    · exact absurd unsized sized
    · obtain ⟨rfl, -⟩ := List.cons.inj same
      rw [← isSize]

theorem Holds.readSize_none (holds : Holds handler rest avail) (short : avail < 4) :
    handler.readSize = none := by
  obtain unsized | ⟨_, _, -, header, -⟩ := holds.msgSize
  · have noHeader : (handler.data.take 4).length ≠ 4 := by
      rw [List.length_take, holds.length_data]
      omega
    rw [TCPEventHandler.readSize, if_pos unsized, unpackInt, if_neg noHeader, Option.map_none]
  · omega

theorem Holds.takeMessage (holds : Holds handler (message :: rest) avail)
    (whole : 4 + message.length ≤ avail) {args : Json}
    (parsed : parse callees message = some args) :
    let taken := TCPEventHandler.takeMessage callees { handler with msgSize := message.length }
    Holds taken.1 rest (avail - (4 + message.length)) ∧ Handles callees handler taken.1 [message] ∧
      (taken.2 = true ↔ Raises callees handler.world message) := by
  have index : sliceIndex handler.data (4 + message.length) = 4 + message.length := by
    rw [sliceIndex, if_pos (by omega)]
    omega
  have start : sliceIndex handler.data 4 = 4 := rfl
  have split : handler.data = frame message ++
      (rest.flatMap frame).take (avail - (4 + message.length)) := by
    rw [holds.data, List.flatMap_cons, List.take_append, length_frame,
      List.take_of_length_le (by rwa [length_frame])]
  have isMessage : slice handler.data 4 (4 + message.length) = message := by
    rw [slice, index, start, split, List.take_left' (length_frame message), frame]
    exact List.drop_left' (leBytes_length 4 _)
  have isRest : handler.data.drop (sliceIndex handler.data (4 + message.length)) =
      (rest.flatMap frame).take (avail - (4 + message.length)) := by
    rw [index, split]
    exact List.drop_left' (length_frame message)
  obtain ⟨text, isText, isArgs⟩ := Option.bind_eq_some_iff.mp parsed
  have available := holds.available
  rw [framesLength_cons] at available
  simp only [TCPEventHandler.takeMessage, isMessage, isText, isArgs]
  refine ⟨⟨holds.initialized, holds.isOpen, isRest, by omega, Or.inl rfl⟩, ⟨?_, ?_⟩, ?_⟩
  · simp only [worldAfter, List.foldl_cons, List.foldl_nil, parsed, Option.map_some,
      Option.getD_some]
  · simp only [List.map_append, List.map_cons, List.map_nil, parsed]
  · constructor
    · exact fun raised => ⟨args, parsed, raised⟩
    · rintro ⟨other, found, raised⟩
      obtain rfl := Option.some.inj (parsed.symm.trans found)
      exact raised

theorem Handles.cons {after last : TCPEventHandler World Json} {messages : List Bytes}
    (first : Handles callees handler after [message])
    (others : Handles callees after last messages) :
    Handles callees handler last (message :: messages) := by
  refine ⟨?_, ?_⟩
  · rw [others.world, first.world]
    rfl
  · rw [others.calls, first.calls, List.append_assoc]
    rfl

theorem turns_spec (fuel : Nat) (enough : avail < fuel) (holds : Holds handler rest avail)
    (fits : ∀ message ∈ rest, message.length < 2 ^ 31)
    (parsed : ∀ message ∈ rest, message ≠ [] → ∃ args, parse callees message = some args) :
    let count := delivered callees handler.world rest avail
    let after := (TCPEventHandler.turns callees fuel handler).1
    Holds after (rest.drop count) (avail - framesLength (rest.take count)) ∧
      Handles callees handler after (rest.take count) := by
  induction fuel generalizing handler rest avail with
  | zero => omega
  | succ fuel ih =>
    by_cases short : avail < 4
    case pos =>
      have nothing : delivered callees handler.world rest avail = 0 := by
        have small := delivered_le_complete callees handler.world rest avail
        cases rest with
        | nil => rfl
        | cons message rest => rw [delivered, if_neg fun both => by omega]
      simp only [TCPEventHandler.turns, holds.readSize_none short, nothing, List.drop_zero,
        List.take_zero, framesLength_nil, Nat.sub_zero]
      exact ⟨holds, Handles.refl handler⟩
    cases rest with
    | nil =>
      have := holds.available
      rw [framesLength_nil] at this
      omega
    | cons message later =>
      have header : 4 ≤ avail := by omega
      have size := fits message List.mem_cons_self
      have lengthData := holds.length_data
      simp only [TCPEventHandler.turns, holds.readSize header size, lengthData]
      by_cases whole : message ≠ [] ∧ 4 + message.length ≤ avail
      case neg =>
        have nothing : delivered callees handler.world (message :: later) avail = 0 := by
          rw [delivered, if_neg whole]
        have waits : ¬ ((message.length : Int) ≠ 0 ∧ (message.length : Int) + 4 ≤ avail) := by
          rintro ⟨nonempty, fitting⟩
          refine whole ⟨?_, by omega⟩
          rintro rfl
          exact nonempty rfl
        rw [if_neg waits]
        simp only [nothing, List.drop_zero, List.take_zero, framesLength_nil, Nat.sub_zero]
        exact ⟨⟨holds.initialized, holds.isOpen, holds.data, holds.available,
          Or.inr ⟨message, later, rfl, header, rfl⟩⟩, ⟨rfl, (List.append_nil _).symm⟩⟩
      case pos =>
        have takes : (message.length : Int) ≠ 0 ∧ (message.length : Int) + 4 ≤ avail := by
          have := List.length_pos_iff.mpr whole.1
          omega
        obtain ⟨args, isArgs⟩ := parsed message List.mem_cons_self whole.1
        obtain ⟨held, handled, raised⟩ := holds.takeMessage whole.2 isArgs
        rw [if_pos takes]
        by_cases raises : Raises callees handler.world message
        case pos =>
          have one : delivered callees handler.world (message :: later) avail = 1 := by
            rw [delivered, if_pos whole, if_pos raises]
          rw [if_pos (raised.mpr raises)]
          simp only [one, List.drop_one, List.tail_cons, List.take_succ_cons, List.take_zero,
            framesLength_cons, framesLength_nil, Nat.add_zero]
          exact ⟨held, handled⟩
        case neg =>
          rw [if_neg fun isRaised => raises (raised.mp isRaised)]
          have more : delivered callees handler.world (message :: later) avail =
              delivered callees (worldAfter callees handler.world [message]) later
                (avail - (4 + message.length)) + 1 := by
            rw [delivered, if_pos whole, if_neg raises]
          obtain ⟨lastHeld, lastHandled⟩ := ih (by omega) held
            (fun other member => fits other (List.mem_cons_of_mem message member))
            (fun other member => parsed other (List.mem_cons_of_mem message member))
          rw [handled.world] at lastHeld lastHandled
          rw [Nat.sub_sub] at lastHeld
          simp only [more, List.drop_succ_cons, List.take_succ_cons, framesLength_cons]
          exact ⟨lastHeld, handled.cons lastHandled⟩

end

section

variable {World Text Json : Type} {callees : Callees World Text Json} {world : World}
  {messages : List Bytes} {handler : TCPEventHandler World Json}

/-- After `count` bytes behind the magic, all messages that are complete have been handled. -/
structure Synced (callees : Callees World Text Json) (world : World) (messages : List Bytes)
    (handler : TCPEventHandler World Json) (count : Nat) : Prop where
  holds : Holds handler (messages.drop (complete messages count))
    (count - framesLength (messages.take (complete messages count)))
  world : handler.world = worldAfter callees world (messages.take (complete messages count))
  calls : handler.calls.map some =
    (messages.take (complete messages count)).map (parse callees)

def HandlesNew (callees : Callees World Text Json) (world : World) (messages : List Bytes)
    (before count : Nat) : Prop :=
  ∀ i message, messages[i]? = some message → complete messages before ≤ i →
    i < complete messages count → message ≠ [] ∧ (i + 1 < complete messages count →
      ¬ Raises callees (worldAfter callees world (messages.take i)) message)

theorem worldAfter_append (world : World) (first rest : List Bytes) :
    worldAfter callees world (first ++ rest) =
      worldAfter callees (worldAfter callees world first) rest :=
  List.foldl_append

theorem Synced.onMessage {count : Nat} {piece : Bytes}
    (synced : Synced callees world messages handler count)
    (within : handler.data ++ piece =
      ((messages.drop (complete messages count)).flatMap frame).take
        (count - framesLength (messages.take (complete messages count)) + piece.length))
    (available : count - framesLength (messages.take (complete messages count)) + piece.length ≤
      framesLength (messages.drop (complete messages count)))
    (fits : ∀ message ∈ messages, message.length < 2 ^ 31)
    (parsed : ∀ message ∈ messages, message ≠ [] → ∃ args, parse callees message = some args) :
    let after := (handler.onMessage callees piece).1
    after.isOpen = true ∧
      (HandlesNew callees world messages count (count + piece.length) →
        Synced callees world messages after (count + piece.length)) ∧
      (after.calls.map some = (messages.take (complete messages (count + piece.length))).map
          (parse callees) → HandlesNew callees world messages count (count + piece.length)) := by
  have held : Holds { handler with data := handler.data ++ piece }
      (messages.drop (complete messages count))
      (count - framesLength (messages.take (complete messages count)) + piece.length) := by
    refine ⟨synced.holds.initialized, synced.holds.isOpen, within, available, ?_⟩
    refine synced.holds.msgSize.imp id ?_
    rintro ⟨message, later, isRest, header, size⟩
    exact ⟨message, later, isRest, header.trans (Nat.le_add_right _ _), size⟩
  have enough : count - framesLength (messages.take (complete messages count)) + piece.length <
      (handler.data ++ piece).length + 1 := by
    rw [List.length_append, synced.holds.length_data]
    exact Nat.lt_succ_self _
  obtain ⟨lastHolds, handled⟩ := turns_spec _ enough held
    (fun message member => fits message (List.mem_of_mem_drop member))
    (fun message member => parsed message (List.mem_of_mem_drop member))
  have counted := complete_add messages count piece.length
  have exact' : delivered callees handler.world (messages.drop (complete messages count))
        (count - framesLength (messages.take (complete messages count)) + piece.length) =
      complete (messages.drop (complete messages count))
        (count - framesLength (messages.take (complete messages count)) + piece.length) ↔
      HandlesNew callees world messages count (count + piece.length) := by
    rw [delivered_eq_complete_iff, HandlesNew, counted, synced.world]
    constructor
    · intro each i message found after before
      obtain ⟨i, rfl⟩ := Nat.exists_eq_add_of_le after
      obtain ⟨nonempty, quiet⟩ := each i message (by rwa [List.getElem?_drop]) (by omega)
      refine ⟨nonempty, fun more => ?_⟩
      rw [List.take_add, worldAfter_append]
      exact quiet (by omega)
    · intro each i message found before
      rw [List.getElem?_drop] at found
      obtain ⟨nonempty, quiet⟩ := each _ message found (Nat.le_add_right _ _) (by omega)
      refine ⟨nonempty, fun more => ?_⟩
      rw [← worldAfter_append, ← List.take_add]
      exact quiet (by omega)
  have isAfter : (handler.onMessage callees piece).1 =
      (TCPEventHandler.turns callees ((handler.data ++ piece).length + 1)
        { handler with data := handler.data ++ piece }).1 := by
    rw [TCPEventHandler.onMessage, if_neg (not_not.mpr synced.holds.initialized)]
  have calls := handled.calls
  simp only [synced.calls, ← List.map_append, ← List.take_add] at calls
  simp only [isAfter]
  refine ⟨lastHolds.isOpen, fun handles => ?_, fun same => ?_⟩
  · have all := exact'.mpr handles
    simp only [all] at lastHolds handled calls
    have framed := framesLength_complete_le messages count
    refine ⟨?_, ?_, ?_⟩
    · rw [counted]
      rw [List.drop_drop] at lastHolds
      have behind : count + piece.length - framesLength (messages.take (complete messages count +
            complete (messages.drop (complete messages count))
              (count - framesLength (messages.take (complete messages count)) + piece.length))) =
          count - framesLength (messages.take (complete messages count)) + piece.length -
            framesLength ((messages.drop (complete messages count)).take
              (complete (messages.drop (complete messages count))
                (count - framesLength (messages.take (complete messages count)) +
                  piece.length))) := by
        rw [List.take_add, framesLength, List.flatMap_append, List.length_append, framesLength,
          framesLength] at *
        omega
      rw [behind]
      exact lastHolds
    · rw [counted, handled.world, List.take_add, worldAfter_append, synced.world]
    · rw [counted]
      exact calls
  · apply exact'.mp
    rw [same] at calls
    have sameLength := congrArg List.length calls
    simp only [List.length_map, List.length_take, counted] at sameLength
    have most := delivered_le_complete callees handler.world
      (messages.drop (complete messages count))
      (count - framesLength (messages.take (complete messages count)) + piece.length)
    have least := complete_le_length messages (count + piece.length)
    omega

/-- The pieces that have come, behind the magic. -/
def bytesIn (rest : List Bytes) (j : Nat) : Nat := (rest.take j).flatten.length

theorem take_flatten {rest : List Bytes} {j : Nat} {piece : Bytes} (found : rest[j]? = some piece) :
    (rest.take (j + 1)).flatten = (rest.take j).flatten ++ piece := by
  rw [List.take_add_one, found, Option.toList_some, List.flatten_append, List.flatten_singleton]

theorem bytesIn_succ {rest : List Bytes} {j : Nat} {piece : Bytes} (found : rest[j]? = some piece) :
    bytesIn rest (j + 1) = bytesIn rest j + piece.length := by
  rw [bytesIn, take_flatten found, List.length_append, bytesIn]

theorem flatten_take_eq (rest : List Bytes) (j : Nat) :
    (rest.take j).flatten = rest.flatten.take (bytesIn rest j) := by
  have split : rest.flatten = (rest.take j).flatten ++ (rest.drop j).flatten := by
    rw [← List.flatten_append, List.take_append_drop]
  rw [split, bytesIn, List.take_left]

theorem bytesIn_le {rest : List Bytes} (cut : rest.flatten = messages.flatMap frame) (j : Nat) :
    bytesIn rest j ≤ framesLength messages := by
  rw [framesLength, ← cut, bytesIn, flatten_take_eq, List.length_take]
  exact Nat.min_le_right _ _

theorem Synced.buffer {rest : List Bytes} {j : Nat} {piece : Bytes}
    (cut : rest.flatten = messages.flatMap frame) (found : rest[j]? = some piece)
    (synced : Synced callees world messages handler (bytesIn rest j)) :
    let done := complete messages (bytesIn rest j)
    let avail := bytesIn rest j - framesLength (messages.take done) + piece.length
    handler.data ++ piece = ((messages.drop done).flatMap frame).take avail ∧
      avail ≤ framesLength (messages.drop done) := by
  have framed := framesLength_complete_le messages (bytesIn rest j)
  have split : messages.flatMap frame =
      (messages.take (complete messages (bytesIn rest j))).flatMap frame ++
        (messages.drop (complete messages (bytesIn rest j))).flatMap frame := by
    rw [← List.flatMap_append, List.take_append_drop]
  have before := flatten_take_eq rest j
  have after := flatten_take_eq rest (j + 1)
  have within := bytesIn_le cut (j + 1)
  rw [take_flatten found, before, bytesIn_succ found, cut, split, List.take_append,
    List.take_append, List.take_of_length_le framed,
    List.take_of_length_le (framed.trans (Nat.le_add_right _ _)), List.append_assoc] at after
  rw [framesLength, bytesIn_succ found, split, List.length_append] at within
  rw [framesLength] at framed
  constructor
  · rw [synced.holds.data]
    have same := List.append_cancel_left after
    rw [framesLength, same]
    congr 1
    omega
  · rw [framesLength, framesLength]
    omega

theorem initConn_first {first : Bytes} (wrong : first.length ≠ 4) :
    ((TCPEventHandler.new world).onMessage callees first).1.isOpen = false := by
  have uninitialized : (TCPEventHandler.new world : TCPEventHandler World Json).initReqNbytes ≠ 0 :=
    Nat.succ_ne_zero 3
  rw [TCPEventHandler.onMessage, if_pos uninitialized, TCPEventHandler.initConn, if_pos wrong,
    unpackInt, if_neg wrong]

theorem initConn_magic (callees : Callees World Text Json) (world : World) (messages : List Bytes) :
    Synced callees world messages ((TCPEventHandler.new world).onMessage callees
      (leBytes 4 rpcTrackerMagic.toNat)).1 0 := by
  have uninitialized : (TCPEventHandler.new world : TCPEventHandler World Json).initReqNbytes ≠ 0 :=
    Nat.succ_ne_zero 3
  have isMagic : unpackInt (leBytes 4 rpcTrackerMagic.toNat) = some rpcTrackerMagic :=
    unpackInt_leBytes (by decide)
  have none : complete messages 0 = 0 := by
    have framed := framesLength_complete_le messages 0
    cases messages with
    | nil => rfl
    | cons message rest => rw [complete, if_neg (by omega)]
  rw [TCPEventHandler.onMessage, if_pos uninitialized, TCPEventHandler.initConn,
    if_neg (not_not.mpr (leBytes_length 4 _)), isMagic]
  simp only [ne_eq, not_true_eq_false, if_false]
  refine ⟨?_, ?_, ?_⟩
  · rw [none, List.take_zero, framesLength_nil]
    exact ⟨rfl, rfl, (List.take_zero).symm, Nat.zero_le _, Or.inl rfl⟩
  · rw [none]
    rfl
  · rw [none]
    rfl

/-- What is promised once some pieces have come. -/
def FramedAt (callees : Callees World Text Json) (messages : List Bytes)
    (handler : TCPEventHandler World Json) (count : Nat) : Prop :=
  handler.isOpen = true ∧
    handler.calls.map some = (messages.take (complete messages count)).map (parse callees)

theorem receive_succ {rest : List Bytes} {j : Nat} {piece : Bytes} (found : rest[j]? = some piece) :
    handler.receive callees (rest.take (j + 1)) =
      ((handler.receive callees (rest.take j)).onMessage callees piece).1 := by
  rw [TCPEventHandler.receive, List.take_add_one, found, Option.toList_some, List.foldl_append,
    List.foldl_cons, List.foldl_nil, TCPEventHandler.receive]

/-- Behind the handshake: what is promised holds after each piece where each handles what it
completes. -/
theorem framed_iff {rest : List Bytes} (cut : rest.flatten = messages.flatMap frame)
    (synced : Synced callees world messages handler 0)
    (fits : ∀ message ∈ messages, message.length < 2 ^ 31)
    (parsed : ∀ message ∈ messages, message ≠ [] → ∃ args, parse callees message = some args) :
    (∀ j ≤ rest.length,
        FramedAt callees messages (handler.receive callees (rest.take j)) (bytesIn rest j)) ↔
      ∀ j < rest.length,
        HandlesNew callees world messages (bytesIn rest j) (bytesIn rest (j + 1)) := by
  have step : ∀ j < rest.length,
      Synced callees world messages (handler.receive callees (rest.take j)) (bytesIn rest j) →
      FramedAt callees messages (handler.receive callees (rest.take (j + 1)))
          (bytesIn rest (j + 1)) →
        HandlesNew callees world messages (bytesIn rest j) (bytesIn rest (j + 1)) := by
    intro j inside before framed
    have found := List.getElem?_eq_getElem inside
    obtain ⟨within, available⟩ := before.buffer cut found
    obtain ⟨-, -, handles⟩ := before.onMessage within available fits parsed
    rw [bytesIn_succ found]
    apply handles
    rw [← receive_succ found, ← bytesIn_succ found]
    exact framed.2
  have advance : ∀ j < rest.length,
      Synced callees world messages (handler.receive callees (rest.take j)) (bytesIn rest j) →
      HandlesNew callees world messages (bytesIn rest j) (bytesIn rest (j + 1)) →
        Synced callees world messages (handler.receive callees (rest.take (j + 1)))
          (bytesIn rest (j + 1)) := by
    intro j inside before handles
    have found := List.getElem?_eq_getElem inside
    obtain ⟨within, available⟩ := before.buffer cut found
    obtain ⟨-, after, -⟩ := before.onMessage within available fits parsed
    rw [receive_succ found, bytesIn_succ found]
    apply after
    rwa [← bytesIn_succ found]
  constructor
  · intro framed
    have both : ∀ j ≤ rest.length,
        Synced callees world messages (handler.receive callees (rest.take j)) (bytesIn rest j) ∧
          ∀ i < j, HandlesNew callees world messages (bytesIn rest i) (bytesIn rest (i + 1)) := by
      intro j
      induction j with
      | zero => exact fun _ => ⟨synced, fun i small => absurd small (Nat.not_lt_zero i)⟩
      | succ j ih =>
        intro inside
        obtain ⟨before, earlier⟩ := ih (Nat.le_of_succ_le inside)
        have handles := step j inside before (framed (j + 1) inside)
        refine ⟨advance j inside before handles, fun i small => ?_⟩
        obtain less | rfl := Nat.lt_succ_iff_lt_or_eq.mp small
        · exact earlier i less
        · exact handles
    exact fun j inside => (both (j + 1) inside).2 j (Nat.lt_succ_self j)
  · intro handles j
    have run : j ≤ rest.length →
        Synced callees world messages (handler.receive callees (rest.take j)) (bytesIn rest j) := by
      induction j with
      | zero => exact fun _ => synced
      | succ j ih =>
        exact fun inside => advance j inside (ih (Nat.le_of_succ_le inside))
          (handles j inside)
    exact fun inside => ⟨(run inside).holds.isOpen, (run inside).calls⟩

theorem exists_passing {f : Nat → Nat} {i n : Nat} (start : f 0 ≤ i) (last : i < f n) :
    ∃ j < n, f j ≤ i ∧ i < f (j + 1) := by
  induction n with
  | zero => omega
  | succ n ih =>
    by_cases passed : i < f n
    · obtain ⟨j, inside, low, high⟩ := ih passed
      exact ⟨j, inside.trans (Nat.lt_succ_self n), low, high⟩
    · exact ⟨n, Nat.lt_succ_self n, not_lt.mp passed, last⟩

/-- Each piece handles what it completes where no message is empty, and an exception is the last
that a piece brings about. -/
theorem handlesNew_iff {rest : List Bytes} (cut : rest.flatten = messages.flatMap frame) :
    (∀ j < rest.length,
        HandlesNew callees world messages (bytesIn rest j) (bytesIn rest (j + 1))) ↔
      (∀ message ∈ messages, message ≠ []) ∧
        ∀ i message, messages[i]? = some message → i + 1 < messages.length →
          Raises callees (worldAfter callees world (messages.take i)) message →
          ∃ j ≤ rest.length, complete messages (bytesIn rest j) = i + 1 := by
  have start : complete messages (bytesIn rest 0) = 0 := by
    have small := framesLength_complete_le messages 0
    cases messages with
    | nil => rfl
    | cons message others => exact if_neg (by simp [bytesIn])
  have all : complete messages (bytesIn rest rest.length) = messages.length := by
    rw [bytesIn, List.take_length, cut]
    exact complete_all messages
  have mono : ∀ {j k : Nat}, j ≤ k →
      complete messages (bytesIn rest j) ≤ complete messages (bytesIn rest k) := by
    intro j k le
    apply complete_mono
    obtain ⟨more, rfl⟩ := Nat.exists_eq_add_of_le le
    rw [bytesIn, bytesIn, List.take_add, List.flatten_append, List.length_append]
    exact Nat.le_add_right _ _
  constructor
  · intro handles
    have passing : ∀ i < messages.length, ∃ j < rest.length,
        complete messages (bytesIn rest j) ≤ i ∧ i < complete messages (bytesIn rest (j + 1)) :=
      fun i inside => exists_passing (f := fun j => complete messages (bytesIn rest j))
        (start.trans_le (Nat.zero_le i)) (all ▸ inside)
    constructor
    · intro message member
      obtain ⟨i, inside, rfl⟩ := List.getElem_of_mem member
      obtain ⟨j, within, low, high⟩ := passing i inside
      exact (handles j within i _ (List.getElem?_eq_getElem inside) low high).1
    · intro i message found more raises
      obtain ⟨j, within, low, high⟩ := passing i (Nat.lt_of_succ_lt more)
      refine ⟨j + 1, within, ?_⟩
      by_contra differs
      exact (handles j within i message found low high).2 (by omega) raises
  · rintro ⟨nonempty, last⟩ j within i message found low high
    refine ⟨nonempty message (List.mem_of_getElem? found), fun more raises => ?_⟩
    have bound := mono (j := j + 1) (k := rest.length) within
    obtain ⟨k, -, passed⟩ := last i message found (by omega) raises
    obtain early | late := Nat.lt_or_ge j k
    · have := mono (j := j + 1) (k := k) early
      omega
    · have := mono late
      omega

end

/-- Framing keeps its promise where the magic comes as a piece of its own, no message is empty and
no exception of a handler has further messages behind it in its piece. -/
theorem framesExactly_iff {World Text Json : Type} (callees : Callees World Text Json)
    (world : World) (messages pieces : List Bytes)
    (cut : pieces.flatten = trackerStream messages)
    (fits : ∀ message ∈ messages, message.length < 2 ^ 31)
    (parsed : ∀ message ∈ messages, message ≠ [] → ∃ args, parse callees message = some args) :
    FramesExactly callees world messages pieces ↔
      (∃ first rest, pieces = first :: rest ∧ first.length = 4) ∧
        (∀ message ∈ messages, message ≠ []) ∧
        ∀ i message, messages[i]? = some message → i + 1 < messages.length →
          Raises callees (worldAfter callees world (messages.take i)) message →
          ∃ k ≤ pieces.length, complete messages (arrived pieces k) = i + 1 := by
  cases pieces with
  | nil =>
    have length := congrArg List.length cut
    rw [trackerStream, List.length_append, leBytes_length, List.flatten_nil, List.length_nil]
      at length
    omega
  | cons first rest =>
    by_cases whole : first.length = 4
    case neg =>
      constructor
      · intro framed
        have one := (framed 1 (Nat.succ_le_succ (Nat.zero_le _))).1
        rw [List.take_succ_cons, List.take_zero, TCPEventHandler.receive, List.foldl_cons,
          List.foldl_nil, initConn_first whole] at one
        exact absurd one Bool.false_ne_true
      · rintro ⟨⟨other, others, same, length⟩, -⟩
        obtain ⟨rfl, -⟩ := List.cons.inj same
        exact absurd length whole
    case pos =>
      rw [List.flatten_cons, trackerStream] at cut
      obtain ⟨isMagic, restCut⟩ := List.append_inj cut (whole.trans (leBytes_length 4 _).symm)
      have arrivedSucc : ∀ j, arrived (first :: rest) (j + 1) = bytesIn rest j := by
        intro j
        rw [arrived, List.take_succ_cons, List.flatten_cons, List.length_append, whole, bytesIn,
          Nat.add_sub_cancel_left]
      have nothing : complete messages (arrived (first :: rest) 0) = 0 := by
        cases messages with
        | nil => rfl
        | cons message others => exact if_neg (by simp [arrived])
      have synced := isMagic ▸ initConn_magic callees world messages
      have framed : FramesExactly callees world messages (first :: rest) ↔
          ∀ j ≤ rest.length, FramedAt callees messages
            (((TCPEventHandler.new world).onMessage callees first).1.receive callees
              (rest.take j)) (bytesIn rest j) := by
        constructor
        · intro promised j inside
          have after := promised (j + 1) (Nat.succ_le_succ inside)
          rw [arrivedSucc] at after
          exact after
        · intro promised k inside
          cases k with
          | zero =>
            refine ⟨rfl, ?_⟩
            rw [nothing]
            rfl
          | succ j =>
            rw [arrivedSucc]
            exact promised j (Nat.le_of_succ_le_succ inside)
      rw [framed, framed_iff restCut synced fits parsed, handlesNew_iff restCut]
      constructor
      · rintro ⟨nonempty, last⟩
        refine ⟨⟨first, rest, rfl, whole⟩, nonempty, fun i message found more raises => ?_⟩
        obtain ⟨j, inside, passed⟩ := last i message found more raises
        exact ⟨j + 1, Nat.succ_le_succ inside, (arrivedSucc j).symm ▸ passed⟩
      · rintro ⟨-, nonempty, last⟩
        refine ⟨nonempty, fun i message found more raises => ?_⟩
        obtain ⟨k, inside, passed⟩ := last i message found more raises
        cases k with
        | zero =>
          rw [nothing] at passed
          omega
        | succ j => exact ⟨j, Nat.le_of_succ_le_succ inside, arrivedSucc j ▸ passed⟩

/-- A client whose messages are any text, and a handler that never raises. -/
def quietCallees : Callees Unit Bytes Bytes where
  pyStr := some
  loads text := if text = [] then none else some text
  callHandler world _ := (world, false)

/-- The message `0` arrives in two pieces behind the magic. -/
theorem framesExactly_iff_zero :
    FramesExactly quietCallees () [[48]] [[0x71, 0xF2, 2, 0], [1, 0], [0, 0, 48]] := by
  refine (framesExactly_iff quietCallees () [[48]] [[0x71, 0xF2, 2, 0], [1, 0], [0, 0, 48]]
    (by decide) (by decide) fun message member nonempty =>
      ⟨message, by simp [parse, quietCallees, nonempty]⟩).mpr ⟨⟨_, _, rfl, rfl⟩, by decide, ?_⟩
  intro i message found more
  exact absurd more (by simp)

/-- The magic in two pieces closes the connection, and a message of length zero is never passed. -/
theorem framing_breaks :
    ¬ FramesExactly quietCallees () [] [[0x71, 0xF2], [2, 0]] ∧
      ¬ FramesExactly quietCallees () [[], [48]]
        [[0x71, 0xF2, 2, 0], [0, 0, 0, 0, 1, 0, 0, 0, 48]] := by
  constructor
  · intro framed
    exact absurd (framed 1 (by decide)).1 (by decide)
  · intro framed
    exact absurd (framed 2 (by decide)).2 (by decide)

end Tvm.Rpc.Framing
