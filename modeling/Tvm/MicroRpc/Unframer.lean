import Tvm.MicroRpc.Framer

/-!
# The unframer

`Unframer` of `framing.cc`.  The model follows the code's buffering: input arrives
in pieces, payload bytes are collected in a 128-byte buffer and handed downstream
at the end of every piece and whenever the buffer is full, and every error sends
the state machine back to hunting for a packet start.

`input_` and `input_size_bytes_` are the list of bytes still to be read.  The one
place where the code moves `input_` backwards, after a failed downstream write,
only affects the number of bytes reported as consumed; it is kept as a separate
count.
-/

namespace Tvm.MicroRpc

open Tvm.Lib Tvm.Crt

universe u

inductive Unframer.State where
  | findPacketStart
  | findPacketLength
  | findPacketCrc
  | findCrcEnd
  deriving DecidableEq, Repr

/-- `buffer` is the valid part of `buffer_`. -/
structure Unframer where
  state : Unframer.State
  sawEscapeStart : Bool
  buffer : Bytes
  numPayloadBytesRemaining : Nat
  crc : UInt16
  deriving DecidableEq, Repr

/-- `sizeof(Unframer::buffer_)`. -/
def kUnframerBufferBytes : Nat := 128

namespace Unframer

/-- An unframer as constructed.  `num_payload_bytes_remaining_` and `crc_` are left unset
by the constructor and written before they are read. -/
def new : Unframer := ⟨.findPacketStart, false, [], 0, 0⟩

def clearBuffer (unframer : Unframer) : Unframer := { unframer with buffer := [] }

def isBufferFull (unframer : Unframer) (bufferFullBytes : Nat) : Bool :=
  bufferFullBytes ≤ unframer.buffer.length

/-- The loop of `FindPacketStart`: how many bytes it walks over, and what it leaves. -/
def findPacketStartLoop (unframer : Unframer) : Bytes → Nat × Unframer
  | [] => (0, unframer)
  | c :: rest =>
    if c = kEscapeStart then
      let (i, unframer) := findPacketStartLoop { unframer with sawEscapeStart := true } rest
      (i + 1, unframer)
    else if c = kPacketStart && unframer.sawEscapeStart then
      (1, { unframer with
        crc := crc16Compute [kEscapeStart, kPacketStart] none
        sawEscapeStart := false
        state := .findPacketLength })
    else
      let (i, unframer) := findPacketStartLoop { unframer with sawEscapeStart := false } rest
      (i + 1, unframer)

/-- The loop of `ConsumeInput`: the code it ends with, the number of bytes consumed, and
the unframer before the final checksum update. -/
def consumeInputLoop (bufferSizeBytes : Nat) (unframer : Unframer) :
    Bytes → CrtError × Nat × Unframer
  | [] => (.noError, 0, unframer)
  | c :: rest =>
    if unframer.sawEscapeStart && c == kPacketStart then
      (.framingShortPacket, 0,
        { unframer with crc := crc16Compute [kEscapeStart] none, sawEscapeStart := true })
    else if unframer.sawEscapeStart && c == kEscapeNop then
      let (error, i, unframer) :=
        consumeInputLoop bufferSizeBytes { unframer with sawEscapeStart := false } rest
      (error, i + 1, unframer)
    else if unframer.sawEscapeStart && c != kEscapeStart then
      (.framingInvalidEscape, 1, { unframer with sawEscapeStart := false })
    else if !unframer.sawEscapeStart && c == kEscapeStart then
      let (error, i, unframer) :=
        consumeInputLoop bufferSizeBytes { unframer with sawEscapeStart := true } rest
      (error, i + 1, unframer)
    else
      let unframer :=
        { unframer with sawEscapeStart := false, buffer := unframer.buffer ++ [c] }
      if unframer.buffer.length = bufferSizeBytes then (.noError, 1, unframer)
      else
        let (error, i, unframer) := consumeInputLoop bufferSizeBytes unframer rest
        (error, i + 1, unframer)

/-- `AddToBuffer`, which is `ConsumeInput` into `buffer_`: the code, the unframer and the
input that is left. -/
def addToBuffer (unframer : Unframer) (input : Bytes) (bufferFullBytes : Nat)
    (updateCrc : Bool) : CrtError × Unframer × Bytes :=
  let (error, i, unframer) := consumeInputLoop bufferFullBytes unframer input
  let unframer :=
    if updateCrc then { unframer with crc := crc16Compute (input.take i) (some unframer.crc) }
    else unframer
  (error, unframer, input.drop i)

/-- What one of the `Find…` functions leaves behind.  `rewound` is the number of bytes by
which `input_` was moved back, `none` if the code had to read past the end of the input
to find out. -/
structure FindResult (σ : Type u) where
  error : CrtError
  unframer : Unframer
  input : Bytes
  rewound : Option Nat
  stream : σ

/-- The loop after a failed `WriteAll`: how many input bytes to skip so that
`bytesConsumed` of them were not `kEscapeStart`. -/
def skipConsumed : Nat → Bytes → Option Nat
  | 0, _ => some 0
  | _ + 1, [] => none
  | bytesConsumed + 1, c :: input =>
    (skipConsumed (if c ≠ kEscapeStart then bytesConsumed else bytesConsumed + 1) input).map
      (· + 1)

variable {σ : Type u} (stream : WriteStream σ)

def findPacketStart (unframer : Unframer) (input : Bytes) (s : σ) : FindResult σ :=
  let (i, unframer) := findPacketStartLoop unframer input
  ⟨.noError, unframer, input.drop i, some 0, s⟩

def findPacketLength (unframer : Unframer) (input : Bytes) (s : σ) : FindResult σ :=
  let (error, unframer, input) := unframer.addToBuffer input kPayloadLength true
  if error ≠ .noError then ⟨error, unframer, input, some 0, s⟩
  else if !unframer.isBufferFull kPayloadLength then ⟨.noError, unframer, input, some 0, s⟩
  else
    ⟨.noError,
      { unframer with
        numPayloadBytesRemaining := leValue unframer.buffer
        buffer := []
        state := .findPacketCrc },
      input, some 0, s⟩

/-- `FindPacketCrc` collects the payload.  A pass of its loop that does not return takes
input, so `passes` only has to exceed the input length. -/
def findPacketCrcLoop : Nat → Unframer → Bytes → σ → FindResult σ
  | 0, unframer, input, s => ⟨.noError, unframer, input, some 0, s⟩
  | passes + 1, unframer, input, s =>
    if unframer.numPayloadBytesRemaining = 0 then
      ⟨.noError, { unframer with state := .findCrcEnd }, input, some 0, s⟩
    else
      let numBytesToBuffer := min unframer.numPayloadBytesRemaining kUnframerBufferBytes
      let (error, filled, input') := unframer.addToBuffer input numBytesToBuffer true
      if error ≠ .noError then ⟨error, filled, input', some 0, s⟩
      else if unframer.buffer.length = filled.buffer.length then
        ⟨.noError, filled, input', some 0, s⟩
      else
        let written := stream.writeAll s filled.buffer
        let filled :=
          { filled with
            numPayloadBytesRemaining :=
              filled.numPayloadBytesRemaining - written.bytesConsumed }
        if written.error ≠ .noError then
          ⟨written.error, { filled with sawEscapeStart := false }, input',
            (skipConsumed written.bytesConsumed input).map (input.length - ·), written.stream⟩
        else findPacketCrcLoop passes filled.clearBuffer input' written.stream

def findPacketCrc (unframer : Unframer) (input : Bytes) (s : σ) : FindResult σ :=
  findPacketCrcLoop stream (input.length + 1) unframer input s

def findCrcEnd (unframer : Unframer) (input : Bytes) (s : σ) : FindResult σ :=
  let (error, unframer, input) := unframer.addToBuffer input kCrc false
  if error ≠ .noError then ⟨error, unframer, input, some 0, s⟩
  else if !unframer.isBufferFull kCrc then ⟨.noError, unframer, input, some 0, s⟩
  else
    ⟨.noError, { unframer with buffer := [], state := .findPacketStart }, input, some 0,
      stream.packetDone s (unframer.crc.toNat == leValue unframer.buffer)⟩

def find (unframer : Unframer) (input : Bytes) (s : σ) : FindResult σ :=
  match unframer.state with
  | .findPacketStart => findPacketStart unframer input s
  | .findPacketLength => findPacketLength unframer input s
  | .findPacketCrc => findPacketCrc stream unframer input s
  | .findCrcEnd => findCrcEnd stream unframer input s

/-- The loop of `Write`.  Each pass takes input or moves on from a payload that is complete,
so twice the input length and one more is enough passes. -/
def writeLoop : Nat → Unframer → Bytes → σ → FindResult σ
  | 0, unframer, input, s => ⟨.noError, unframer, input, some 0, s⟩
  | passes + 1, unframer, input, s =>
    if input = [] then ⟨.noError, unframer, input, some 0, s⟩
    else
      let found := unframer.find stream input s
      if found.error ≠ .noError then found
      else writeLoop passes found.unframer found.input found.stream

/-- What `Unframer::Write` returns.  A negative `bytesConsumed` stands for the `size_t`
that the code computes when it has moved `input_` back too far. -/
structure WriteResult (σ : Type u) where
  error : CrtError
  bytesConsumed : Option Int
  unframer : Unframer
  stream : σ

def write (unframer : Unframer) (s : σ) (data : Bytes) : WriteResult σ :=
  let found := writeLoop stream (2 * data.length + 1) unframer data s
  { error := found.error
    bytesConsumed := found.rewound.map fun rewound =>
      (data.length : Int) - (found.input.length + rewound : Nat)
    unframer :=
      if found.error ≠ .noError then
        { found.unframer with state := .findPacketStart, buffer := [] }
      else found.unframer
    stream := found.stream }

end Unframer

end Tvm.MicroRpc
