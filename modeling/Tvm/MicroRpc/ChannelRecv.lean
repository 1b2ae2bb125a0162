import Tvm.MicroRpc.TransportChannel
import Tvm.MicroRpc.BytesNeeded

/-!
# Receiving from a transport channel

`Recv`, `ReceiveUntil` and `ConsumeReceivedPayload` of `micro_session.cc`.  `frecv_` returns at
most the bytes that it is asked for, in the order of the wire; an empty string is a timeout.

A failed `CHECK` is `none`, and so is a loop that is given too few passes.
-/

namespace Tvm.MicroRpc

open Tvm.Lib Tvm.Crt

universe u

/-- The transport: the bytes to come, and how many of those asked for come at a time. -/
structure Frecv where
  wire : Bytes
  cuts : List Nat
  deriving DecidableEq, Repr

def Frecv.call (frecv : Frecv) (bytesNeeded : Nat) : Bytes × Frecv :=
  match frecv.cuts with
  | [] => ([], frecv)
  | cut :: cuts =>
    (frecv.wire.take (min cut bytesNeeded), ⟨frecv.wire.drop (min cut bytesNeeded), cuts⟩)

/-- A channel with its unframer and `pending_chunk_`. -/
structure ReceivingChannel (τ : Type u) where
  channel : MicroTransportChannel τ
  unframer : Unframer
  pendingChunk : Bytes

inductive RecvOutcome where
  /-- `num_bytes_recv`, and the memory from `data` on. -/
  | returned (numBytesRecv : Nat) (data : Bytes)
  /-- `MicroSessionTimeoutError`. -/
  | timedOut
  deriving DecidableEq, Repr

variable {τ : Type u} (transport : Transport τ)

def MicroTransportChannel.receiver : WriteStream (Option (MicroTransportChannel τ)) where
  write channel data :=
    match channel with
    | none => (data.length, none)
    | some channel =>
      ((channel.session.receiverWrite data).1,
        some { channel with session := (channel.session.receiverWrite data).2 })
  packetDone channel isValid := channel.bind (·.packetDone transport isValid)

namespace ReceivingChannel

def consumeReceivedPayload (pf : MicroTransportChannel τ → Bool) :
    Nat → ReceivingChannel τ → Option (Bool × ReceivingChannel τ)
  | 0, _ => none
  | passes + 1, receiving =>
    if receiving.pendingChunk = [] then some (false, receiving)
    else
      let written := receiving.unframer.write (MicroTransportChannel.receiver transport)
        (some receiving.channel) receiving.pendingChunk
      match written.stream, written.bytesConsumed with
      | some channel, some bytesConsumed =>
        if bytesConsumed < 0 ∨ (receiving.pendingChunk.length : Int) < bytesConsumed then none
        else
          let receiving : ReceivingChannel τ :=
            ⟨channel, written.unframer, receiving.pendingChunk.drop bytesConsumed.toNat⟩
          if written.error.value < 0 then consumeReceivedPayload pf passes receiving
          else if pf channel then some (true, receiving)
          else consumeReceivedPayload pf passes receiving
      | _, _ => none

def receiveUntilLoop (pf : MicroTransportChannel τ → Bool) :
    Nat → ReceivingChannel τ → Frecv → Option (Bool × ReceivingChannel τ × Frecv)
  | 0, _, _ => none
  | passes + 1, receiving, frecv =>
    match receiving.consumeReceivedPayload transport pf (passes + 1) with
    | none => none
    | some (true, receiving) => some (true, receiving, frecv)
    | some (false, receiving) =>
      let bytesNeeded := receiving.unframer.bytesNeeded
      if bytesNeeded = 0 then none
      else
        let called := frecv.call bytesNeeded
        let receiving := { receiving with pendingChunk := called.1 }
        if called.1 = [] then some (false, receiving, called.2)
        else receiveUntilLoop pf passes receiving called.2

def receiveUntil (pf : MicroTransportChannel τ → Bool) (passes : Nat)
    (receiving : ReceivingChannel τ) (frecv : Frecv) :
    Option (Bool × ReceivingChannel τ × Frecv) :=
  if pf receiving.channel then some (true, receiving, frecv)
  else receiveUntilLoop transport pf passes receiving frecv

def readMessage (receiving : ReceivingChannel τ) (data : Bytes) (size : Nat) :
    Nat × Bytes × ReceivingChannel τ :=
  let read := receiving.channel.session.receiveBuffer.read size
  let session := { receiving.channel.session with receiveBuffer := read.2 }
  (read.1.length, read.1 ++ data.drop read.1.length,
    { receiving with
      channel :=
        if session.receiveBuffer.readAvailable = 0 then
          { receiving.channel with
            messageBuffer := false
            session := session.clearReceiveBuffer }
        else { receiving.channel with session := session } })

/-- It is read unless `message_buffer_` is null. -/
def turn (receiving : ReceivingChannel τ) (data : Bytes) (size : Nat) :
    Nat × Bytes × ReceivingChannel τ :=
  if receiving.channel.messageBuffer then receiving.readMessage data size else (0, data, receiving)

def clearDidReceive (receiving : ReceivingChannel τ) : ReceivingChannel τ :=
  { receiving with channel := { receiving.channel with didReceiveMessage := false } }

def recvLoop (size : Nat) : Nat → ReceivingChannel τ → Frecv → Nat → Bytes →
    Option (RecvOutcome × ReceivingChannel τ × Frecv)
  | 0, _, _, _, _ => none
  | passes + 1, receiving, frecv, numBytesRecv, data =>
    if size ≤ numBytesRecv then some (.returned numBytesRecv data, receiving, frecv)
    else
      let read := receiving.turn data size
      let total := numBytesRecv + read.1
      if receiving.channel.messageBuffer ∧ total = size then
        if read.2.2.channel.messageBuffer = false ∨
            0 < read.2.2.channel.session.receiveBuffer.readAvailable then
          some (.returned total read.2.1, read.2.2, frecv)
        else none
      else
        match read.2.2.clearDidReceive.receiveUntil transport (·.didReceiveMessage) (passes + 1)
          frecv with
        | none => none
        | some (false, receiving, frecv) => some (.timedOut, receiving, frecv)
        | some (true, receiving, frecv) => recvLoop size passes receiving frecv total read.2.1

/-- `Recv`, where `data` is the memory that the pointer leads to. -/
def recv (passes : Nat) (receiving : ReceivingChannel τ) (frecv : Frecv) (size : Nat)
    (data : Bytes) : Option (RecvOutcome × ReceivingChannel τ × Frecv) :=
  receiving.recvLoop transport size passes frecv 0 data

end ReceivingChannel

end Tvm.MicroRpc
