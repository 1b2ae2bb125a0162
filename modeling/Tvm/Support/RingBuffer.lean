import Tvm.Lib.Memory

/-!
# The ring buffer of `support/ring_buffer.h`

The cells of `ring_` are a memory together with a size.  Every `memcpy` and every area that
is handed to a callback is checked against that size.
-/

namespace Tvm.Support

open Tvm.Lib

structure RingBuffer where
  ring : Memory
  /-- `ring_.size()`. -/
  size : Nat
  headPtr : Nat
  bytesAvailable : Nat

inductive Fault where
  /-- A copy that leaves `ring_`. -/
  | outOfRing
  /-- A failed `ICHECK`, thrown before anything is changed. -/
  | check
  deriving DecidableEq

/-- A non-blocking receive function, by the number of the call and the number of bytes it
is asked for. -/
structure Receiver where
  recv : Nat → Nat → Bytes
  bounded : ∀ call nbytes, (recv call nbytes).length ≤ nbytes

/-- A non-blocking send function, by the number of the call and the bytes it is offered. -/
structure Sender where
  send : Nat → Bytes → Nat
  bounded : ∀ call data, send call data ≤ data.length

namespace RingBuffer

def kInitCapacity : Nat := 4096

def empty : RingBuffer where
  ring := fun _ => 0
  size := kInitCapacity
  headPtr := 0
  bytesAvailable := 0

/-- `memcpy(&ring_[0] + offset, data, size)`. -/
def copyIn (buffer : RingBuffer) (offset : Nat) (data : Bytes) : Except Fault RingBuffer :=
  if offset + data.length ≤ buffer.size then
    .ok { buffer with ring := store buffer.ring offset data }
  else .error .outOfRing

/-- `memcpy(data, &ring_[0] + offset, size)`. -/
def copyOut (buffer : RingBuffer) (offset size : Nat) : Except Fault Bytes :=
  if offset + size ≤ buffer.size then .ok (load buffer.ring offset size)
  else .error .outOfRing

/-- `ring_.resize(newSize)`: new cells are zero. -/
def resize (buffer : RingBuffer) (newSize : Nat) : RingBuffer :=
  { buffer with
    ring := store buffer.ring buffer.size (List.replicate (newSize - buffer.size) 0)
    size := newSize }

def read (buffer : RingBuffer) (size : Nat) : Except Fault (Bytes × RingBuffer) :=
  if buffer.bytesAvailable < size then .error .check
  else do
    let ncopy := min size (buffer.size - buffer.headPtr)
    let first ← buffer.copyOut buffer.headPtr ncopy
    let rest ← if ncopy < size then buffer.copyOut 0 (size - ncopy) else pure []
    return (first ++ rest,
      { buffer with
        headPtr := (buffer.headPtr + size) % buffer.size
        bytesAvailable := buffer.bytesAvailable - size })

/-- `static_cast<size_t>(n * 1.2)`.  The product of doubles has this integer part for every
`n` below `2 ^ 50`. -/
def grownSize (n : Nat) : Nat := n * 6 / 5

def grow (buffer : RingBuffer) (n : Nat) : Except Fault RingBuffer :=
  let oldSize := buffer.size
  let grown := buffer.resize (grownSize n)
  if oldSize < buffer.headPtr + buffer.bytesAvailable then do
    -- the part that has wrapped round goes into the tail
    let ncopy := buffer.headPtr + buffer.bytesAvailable - oldSize
    let overflow ← grown.copyOut 0 ncopy
    grown.copyIn oldSize overflow
  else .ok grown

def moveToHead (buffer : RingBuffer) : Except Fault RingBuffer :=
  if buffer.bytesAvailable ≠ 0 then do
    let oldBytes := buffer.bytesAvailable
    let drained ← buffer.read oldBytes
    let moved ← drained.2.copyIn 0 drained.1
    return { moved with bytesAvailable := oldBytes }
  else .ok buffer

def shrink (buffer : RingBuffer) (n : Nat) : Except Fault RingBuffer := do
  let moved ← buffer.moveToHead
  let newSize := max (max kInitCapacity n) moved.bytesAvailable
  return { moved.resize newSize with headPtr := 0 }

def reserve (buffer : RingBuffer) (n : Nat) : Except Fault RingBuffer :=
  if buffer.size < n then buffer.grow n
  else if n * 8 < buffer.size ∧ kInitCapacity < buffer.size then buffer.shrink n
  else .ok buffer

/-- Besides the number of bytes sent, the bytes the send function has accepted. -/
def readWithCallback (buffer : RingBuffer) (fsend : Sender) (maxBytes : Nat) :
    Except Fault (Nat × Bytes × RingBuffer) :=
  let size := min maxBytes buffer.bytesAvailable
  if size = 0 then .error .check
  else do
    let ncopy := min size (buffer.size - buffer.headPtr)
    let first ← buffer.copyOut buffer.headPtr ncopy
    let nsend := fsend.send 0 first
    let sent := { buffer with bytesAvailable := buffer.bytesAvailable - nsend }
    if ncopy = nsend ∧ ncopy < size then
      let second ← buffer.copyOut 0 (size - ncopy)
      let nsend2 := fsend.send 1 second
      return (nsend + nsend2, first.take nsend ++ second.take nsend2,
        { sent with bytesAvailable := sent.bytesAvailable - nsend2 })
    else return (nsend, first.take nsend, sent)

def copyBehind (buffer : RingBuffer) (data : Bytes) : Except Fault RingBuffer :=
  let tail := buffer.headPtr + buffer.bytesAvailable
  if buffer.size ≤ tail then buffer.copyIn (tail - buffer.size) data
  else do
    let ncopy := min (buffer.size - tail) data.length
    let copied ← buffer.copyIn tail (data.take ncopy)
    if ncopy < data.length then copied.copyIn 0 (data.drop ncopy) else return copied

def write (buffer : RingBuffer) (data : Bytes) : Except Fault RingBuffer := do
  let reserved ← buffer.reserve (buffer.bytesAvailable + data.length)
  let written ← reserved.copyBehind data
  return { written with bytesAvailable := written.bytesAvailable + data.length }

/-- Hand `nbytes` cells from `offset` on to the receive function. -/
def receive (buffer : RingBuffer) (frecv : Receiver) (call offset nbytes : Nat) :
    Except Fault (Bytes × RingBuffer) :=
  if offset + nbytes ≤ buffer.size then
    let data := frecv.recv call nbytes
    .ok (data,
      { buffer with
        ring := store buffer.ring offset data
        bytesAvailable := buffer.bytesAvailable + data.length })
  else .error .outOfRing

/-- What `WriteWithCallback` does once there is room. -/
def receiveBehind (buffer : RingBuffer) (frecv : Receiver) (maxBytes : Nat) :
    Except Fault (Nat × Bytes × RingBuffer) :=
  let tail := buffer.headPtr + buffer.bytesAvailable
  if buffer.size ≤ tail then do
    let received ← buffer.receive frecv 0 (tail - buffer.size) maxBytes
    return (received.1.length, received.1, received.2)
  else do
    let ncopy := min (buffer.size - tail) maxBytes
    let received ← buffer.receive frecv 0 tail ncopy
    let nrecv := received.1.length
    if nrecv = ncopy ∧ ncopy < maxBytes then
      let received2 ← received.2.receive frecv 1 0 (maxBytes - ncopy)
      return (nrecv + received2.1.length, received.1 ++ received2.1, received2.2)
    else return (nrecv, received.1, received.2)

/-- Besides the number of bytes received, the bytes themselves. -/
def writeWithCallback (buffer : RingBuffer) (frecv : Receiver) (maxBytes : Nat) :
    Except Fault (Nat × Bytes × RingBuffer) := do
  let reserved ← buffer.reserve (buffer.bytesAvailable + maxBytes)
  reserved.receiveBehind frecv maxBytes

end RingBuffer

end Tvm.Support
