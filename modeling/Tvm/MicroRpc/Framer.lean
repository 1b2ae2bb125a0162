import Tvm.MicroRpc.WriteStream

/-!
# Framing with a checksum

The checksum is the CRC-CCITT of the bytes: `update_crc_ccitt` of the vendored libcrc, with its
generated table, and the `crc16_compute` loop of `framing.cc` over it.
-/

namespace Tvm.MicroRpc

open Tvm.Lib

def crcTabccitt : Array UInt16 := #[
  0x0000, 0x1021, 0x2042, 0x3063, 0x4084, 0x50a5, 0x60c6, 0x70e7,
  0x8108, 0x9129, 0xa14a, 0xb16b, 0xc18c, 0xd1ad, 0xe1ce, 0xf1ef,
  0x1231, 0x0210, 0x3273, 0x2252, 0x52b5, 0x4294, 0x72f7, 0x62d6,
  0x9339, 0x8318, 0xb37b, 0xa35a, 0xd3bd, 0xc39c, 0xf3ff, 0xe3de,
  0x2462, 0x3443, 0x0420, 0x1401, 0x64e6, 0x74c7, 0x44a4, 0x5485,
  0xa56a, 0xb54b, 0x8528, 0x9509, 0xe5ee, 0xf5cf, 0xc5ac, 0xd58d,
  0x3653, 0x2672, 0x1611, 0x0630, 0x76d7, 0x66f6, 0x5695, 0x46b4,
  0xb75b, 0xa77a, 0x9719, 0x8738, 0xf7df, 0xe7fe, 0xd79d, 0xc7bc,
  0x48c4, 0x58e5, 0x6886, 0x78a7, 0x0840, 0x1861, 0x2802, 0x3823,
  0xc9cc, 0xd9ed, 0xe98e, 0xf9af, 0x8948, 0x9969, 0xa90a, 0xb92b,
  0x5af5, 0x4ad4, 0x7ab7, 0x6a96, 0x1a71, 0x0a50, 0x3a33, 0x2a12,
  0xdbfd, 0xcbdc, 0xfbbf, 0xeb9e, 0x9b79, 0x8b58, 0xbb3b, 0xab1a,
  0x6ca6, 0x7c87, 0x4ce4, 0x5cc5, 0x2c22, 0x3c03, 0x0c60, 0x1c41,
  0xedae, 0xfd8f, 0xcdec, 0xddcd, 0xad2a, 0xbd0b, 0x8d68, 0x9d49,
  0x7e97, 0x6eb6, 0x5ed5, 0x4ef4, 0x3e13, 0x2e32, 0x1e51, 0x0e70,
  0xff9f, 0xefbe, 0xdfdd, 0xcffc, 0xbf1b, 0xaf3a, 0x9f59, 0x8f78,
  0x9188, 0x81a9, 0xb1ca, 0xa1eb, 0xd10c, 0xc12d, 0xf14e, 0xe16f,
  0x1080, 0x00a1, 0x30c2, 0x20e3, 0x5004, 0x4025, 0x7046, 0x6067,
  0x83b9, 0x9398, 0xa3fb, 0xb3da, 0xc33d, 0xd31c, 0xe37f, 0xf35e,
  0x02b1, 0x1290, 0x22f3, 0x32d2, 0x4235, 0x5214, 0x6277, 0x7256,
  0xb5ea, 0xa5cb, 0x95a8, 0x8589, 0xf56e, 0xe54f, 0xd52c, 0xc50d,
  0x34e2, 0x24c3, 0x14a0, 0x0481, 0x7466, 0x6447, 0x5424, 0x4405,
  0xa7db, 0xb7fa, 0x8799, 0x97b8, 0xe75f, 0xf77e, 0xc71d, 0xd73c,
  0x26d3, 0x36f2, 0x0691, 0x16b0, 0x6657, 0x7676, 0x4615, 0x5634,
  0xd94c, 0xc96d, 0xf90e, 0xe92f, 0x99c8, 0x89e9, 0xb98a, 0xa9ab,
  0x5844, 0x4865, 0x7806, 0x6827, 0x18c0, 0x08e1, 0x3882, 0x28a3,
  0xcb7d, 0xdb5c, 0xeb3f, 0xfb1e, 0x8bf9, 0x9bd8, 0xabbb, 0xbb9a,
  0x4a75, 0x5a54, 0x6a37, 0x7a16, 0x0af1, 0x1ad0, 0x2ab3, 0x3a92,
  0xfd2e, 0xed0f, 0xdd6c, 0xcd4d, 0xbdaa, 0xad8b, 0x9de8, 0x8dc9,
  0x7c26, 0x6c07, 0x5c64, 0x4c45, 0x3ca2, 0x2c83, 0x1ce0, 0x0cc1,
  0xef1f, 0xff3e, 0xcf5d, 0xdf7c, 0xaf9b, 0xbfba, 0x8fd9, 0x9ff8,
  0x6e17, 0x7e36, 0x4e55, 0x5e74, 0x2e93, 0x3eb2, 0x0ed1, 0x1ef0]

def updateCrcCcitt (crc : UInt16) (c : UInt8) : UInt16 :=
  (crc <<< 8) ^^^ crcTabccitt.getD (((crc >>> 8) ^^^ c.toUInt16) &&& 0x00ff).toNat 0

/-- `crc16_compute`; a null `previous_crc` is `none`. -/
def crc16Compute (data : Bytes) (previousCrc : Option UInt16) : UInt16 :=
  data.foldl updateCrcCcitt (previousCrc.getD 0xffff)

@[simp] theorem crc16Compute_nil (crc : UInt16) : crc16Compute [] (some crc) = crc := rfl

theorem crc16Compute_append (first second : Bytes) (previous : Option UInt16) :
    crc16Compute (first ++ second) previous =
      crc16Compute second (some (crc16Compute first previous)) := by
  simp [crc16Compute, List.foldl_append]

/-- Check value of CRC-16/CCITT-FALSE for the ASCII digits `123456789`. -/
example : crc16Compute [0x31, 0x32, 0x33, 0x34, 0x35, 0x36, 0x37, 0x38, 0x39] none = 0x29b1 := by
  decide +kernel

end Tvm.MicroRpc

/-!
## The framer

`Framer` of `framing.cc`: a packet goes out as a start sequence, a four-byte
length, the payload and a two-byte checksum.  Everything after the start sequence
is escaped and staged through a 128-byte stack buffer.

`frame payload` is the wire image of one packet, written without the staging; the
last results connect the two.
-/

namespace Tvm.MicroRpc

open Tvm.Lib Tvm.Crt

universe u

def kEscapeStart : UInt8 := 0xff

def kEscapeNop : UInt8 := 0xfe

def kPacketStart : UInt8 := 0xfd

@[simp] theorem kEscapeNop_ne_kPacketStart : kEscapeNop ≠ kPacketStart := by decide

@[simp] theorem kEscapeStart_ne_kPacketStart : kEscapeStart ≠ kPacketStart := by decide

@[simp] theorem kEscapeStart_ne_kEscapeNop : kEscapeStart ≠ kEscapeNop := by decide

@[simp] theorem kEscapeNop_ne_kEscapeStart : kEscapeNop ≠ kEscapeStart := by decide

@[simp] theorem kPacketStart_ne_kEscapeStart : kPacketStart ≠ kEscapeStart := by decide

/-- `PacketFieldSizeBytes::kPayloadLength`. -/
def kPayloadLength : Nat := 4

/-- `PacketFieldSizeBytes::kCrc`. -/
def kCrc : Nat := 2

def kMaxStackBufferSizeBytes : Nat := 128

inductive Framer.State where
  | reset
  | idle
  | transmitPacketPayload
  deriving DecidableEq, Repr

structure Framer where
  state : Framer.State
  numPayloadBytesRemaining : Nat
  crc : UInt16
  deriving DecidableEq, Repr

/-- The outcome of a framer call: the code returned, the framer, the stream. -/
structure FramerResult (σ : Type u) where
  error : CrtError
  framer : Framer
  stream : σ

namespace Framer

/-- A framer as constructed.  The constructor leaves `crc_` unset; it is written
before it is read. -/
def new : Framer := ⟨.reset, 0, 0⟩

/-- One pass of the inner loop of `WriteAndCrc`: fill the stack buffer, and return it
with the data that did not fit.  An escape pair is never split over two buffers. -/
def fillBuffer (escape : Bool) : Bytes → Bytes → Bytes × Bytes
  | [], buffer => (buffer, [])
  | c :: rest, buffer =>
    if buffer.length = kMaxStackBufferSizeBytes then (buffer, c :: rest)
    else if !escape || c != kEscapeStart then fillBuffer escape rest (buffer ++ [c])
    else if buffer.length = kMaxStackBufferSizeBytes - 1 then (buffer, c :: rest)
    else fillBuffer escape rest (buffer ++ [kEscapeStart, kEscapeStart])

variable {σ : Type u} (stream : WriteStream σ)

/-- The outer loop of `WriteAndCrc`; each pass takes at least one byte of `data`. -/
def writeAndCrcLoop (escape updateCrc : Bool) :
    Nat → Framer → σ → Bytes → FramerResult σ
  | 0, framer, s, _ => ⟨.noError, framer, s⟩
  | passes + 1, framer, s, data =>
    if data = [] then ⟨.noError, framer, s⟩
    else
      let (buffer, rest) := fillBuffer escape data []
      let written := stream.writeAll s buffer
      if written.error ≠ .noError then ⟨written.error, framer, written.stream⟩
      else
        let framer :=
          if updateCrc then { framer with crc := crc16Compute buffer (some framer.crc) }
          else framer
        writeAndCrcLoop escape updateCrc passes framer written.stream rest

def writeAndCrc (framer : Framer) (s : σ) (data : Bytes) (escape updateCrc : Bool) :
    FramerResult σ :=
  writeAndCrcLoop stream escape updateCrc data.length framer s data

/-- `StartPacket`. `payload_size_bytes` is a `size_t`, cut to 32 bits on the wire. -/
def startPacket (framer : Framer) (s : σ) (payloadSizeBytes : Nat) : FramerResult σ :=
  let nop : FramerResult σ :=
    if framer.state = .reset then framer.writeAndCrc stream s [kEscapeNop] false false
    else ⟨.noError, framer, s⟩
  if nop.error ≠ .noError then nop
  else
    let framer : Framer := { nop.framer with crc := 0xffff }
    let header := framer.writeAndCrc stream nop.stream [kEscapeStart, kPacketStart] false true
    if header.error ≠ .noError then header
    else
      let size := header.framer.writeAndCrc stream header.stream
        (leBytes kPayloadLength payloadSizeBytes) true true
      if size.error = .noError then
        { size with
          framer := { size.framer with
            state := .transmitPacketPayload
            numPayloadBytesRemaining := payloadSizeBytes } }
      else size

def writePayloadChunk (framer : Framer) (s : σ) (chunk : Bytes) : FramerResult σ :=
  if framer.state ≠ .transmitPacketPayload then ⟨.framingInvalidState, framer, s⟩
  else if framer.numPayloadBytesRemaining < chunk.length then
    ⟨.framingPayloadOverflow, framer, s⟩
  else
    let written := framer.writeAndCrc stream s chunk true true
    if written.error ≠ .noError then
      { written with framer := { written.framer with state := .reset } }
    else
      { written with
        framer := { written.framer with
          numPayloadBytesRemaining := framer.numPayloadBytesRemaining - chunk.length } }

def finishPacket (framer : Framer) (s : σ) : FramerResult σ :=
  if framer.state ≠ .transmitPacketPayload then ⟨.framingInvalidState, framer, s⟩
  else if framer.numPayloadBytesRemaining ≠ 0 then ⟨.framingPayloadIncomplete, framer, s⟩
  else
    let written := framer.writeAndCrc stream s (leBytes kCrc framer.crc.toNat) true false
    if written.error ≠ .noError then
      { written with framer := { written.framer with state := .reset } }
    else { written with framer := { written.framer with state := .idle } }

/-- Run `next` unless an error has been returned already. -/
def andThen (result : FramerResult σ) (next : Framer → σ → FramerResult σ) : FramerResult σ :=
  if result.error ≠ .noError then result else next result.framer result.stream

/-- A payload handed over in `chunks`, each with its own `WritePayloadChunk` call. -/
def writePayloadChunks (framer : Framer) (s : σ) : List Bytes → FramerResult σ
  | [] => ⟨.noError, framer, s⟩
  | chunk :: chunks =>
    andThen (framer.writePayloadChunk stream s chunk)
      fun framer s => writePayloadChunks framer s chunks

/-- One packet: `StartPacket`, the chunks, `FinishPacket`. -/
def sendPacket (framer : Framer) (s : σ) (chunks : List Bytes) : FramerResult σ :=
  andThen (framer.startPacket stream s chunks.flatten.length) fun framer s =>
    andThen (framer.writePayloadChunks stream s chunks) fun framer s =>
      framer.finishPacket stream s

/-- Several packets, one after the other, over the same framer. -/
def sendPackets (framer : Framer) (s : σ) : List (List Bytes) → FramerResult σ
  | [] => ⟨.noError, framer, s⟩
  | chunks :: packets =>
    andThen (framer.sendPacket stream s chunks) fun framer s => sendPackets framer s packets

end Framer

def escapeByte (c : UInt8) : Bytes :=
  if c = kEscapeStart then [kEscapeStart, kEscapeStart] else [c]

def escapeBytes (data : Bytes) : Bytes := data.flatMap escapeByte

/-- Start sequence, length and payload: what the checksum covers. -/
def framePrefix (payload : Bytes) : Bytes :=
  [kEscapeStart, kPacketStart] ++ escapeBytes (leBytes kPayloadLength payload.length) ++
    escapeBytes payload

def frameCrc (payload : Bytes) : UInt16 := crc16Compute (framePrefix payload) none

/-- One packet without the leading escape-nop. -/
def frame (payload : Bytes) : Bytes :=
  framePrefix payload ++ escapeBytes (leBytes kCrc (frameCrc payload).toNat)

/-- What a framer in `state` puts in front of a packet. -/
def framePreamble (state : Framer.State) : Bytes :=
  if state = .reset then [kEscapeNop] else []

/-- Packets as a framer that is not reset in between sends them. -/
def frameAll (state : Framer.State) : List Bytes → Bytes
  | [] => []
  | payload :: payloads => framePreamble state ++ frame payload ++ frameAll .idle payloads

@[simp] theorem escapeBytes_nil : escapeBytes [] = [] := rfl

@[simp] theorem escapeBytes_cons (c : UInt8) (data : Bytes) :
    escapeBytes (c :: data) = escapeByte c ++ escapeBytes data := rfl

@[simp] theorem escapeBytes_append (first second : Bytes) :
    escapeBytes (first ++ second) = escapeBytes first ++ escapeBytes second :=
  List.flatMap_append

/-- What `WriteAndCrc` puts on the wire for `data`. -/
def stageBytes (escape : Bool) (data : Bytes) : Bytes :=
  if escape then escapeBytes data else data

theorem stageBytes_append (escape : Bool) (first second : Bytes) :
    stageBytes escape (first ++ second) = stageBytes escape first ++ stageBytes escape second := by
  cases escape <;> simp [stageBytes]

namespace Framer

theorem fillBuffer_spec (escape : Bool) (data buffer : Bytes) :
    ∃ taken, data = taken ++ (fillBuffer escape data buffer).2 ∧
      (fillBuffer escape data buffer).1 = buffer ++ stageBytes escape taken := by
  induction data generalizing buffer with
  | nil => exact ⟨[], by cases escape <;> simp [fillBuffer, stageBytes]⟩
  | cons c rest ih =>
    have stop : ∃ taken, c :: rest = taken ++ (c :: rest) ∧
        buffer = buffer ++ stageBytes escape taken :=
      ⟨[], by cases escape <;> simp [stageBytes]⟩
    unfold fillBuffer
    split
    · exact stop
    · split
      next plain =>
        obtain ⟨taken, data, staged⟩ := ih (buffer ++ [c])
        refine ⟨c :: taken, by simp [← data], ?_⟩
        rw [staged, List.append_assoc]
        cases escape with
        | false => simp [stageBytes]
        | true =>
          have other : c ≠ kEscapeStart := by simpa using plain
          simp [stageBytes, escapeByte, other]
      next escaped =>
        split
        · exact stop
        · obtain ⟨taken, data, staged⟩ := ih (buffer ++ [kEscapeStart, kEscapeStart])
          refine ⟨c :: taken, by simp [← data], ?_⟩
          rw [staged, List.append_assoc]
          cases escape with
          | false => simp at escaped
          | true =>
            have same : c = kEscapeStart := by simpa using escaped
            simp [stageBytes, escapeByte, same]

theorem fillBuffer_length_le (escape : Bool) (data buffer : Bytes)
    (room : buffer.length ≤ kMaxStackBufferSizeBytes) :
    (fillBuffer escape data buffer).1.length ≤ kMaxStackBufferSizeBytes := by
  induction data generalizing buffer with
  | nil => exact room
  | cons c rest ih =>
    unfold fillBuffer
    split
    · exact room
    next notFull =>
      split
      · apply ih
        rw [List.length_append, List.length_singleton]
        omega
      · split
        · exact room
        next twoLeft =>
          apply ih
          rw [List.length_append, List.length_cons, List.length_singleton]
          omega

theorem fillBuffer_rest_length_le (escape : Bool) (data buffer : Bytes) :
    (fillBuffer escape data buffer).2.length ≤ data.length := by
  obtain ⟨taken, split, _⟩ := fillBuffer_spec escape data buffer
  have := congrArg List.length split
  rw [List.length_append] at this
  omega

theorem fillBuffer_progress (escape : Bool) (c : UInt8) (rest : Bytes) :
    (fillBuffer escape (c :: rest) []).2.length ≤ rest.length := by
  by_cases plain : (!escape || c != kEscapeStart) = true
  · simpa [fillBuffer, kMaxStackBufferSizeBytes, plain] using
      fillBuffer_rest_length_le escape rest [c]
  · simpa [fillBuffer, kMaxStackBufferSizeBytes, plain] using
      fillBuffer_rest_length_le escape rest [kEscapeStart, kEscapeStart]

variable {σ : Type u} {stream : WriteStream σ} {s : σ}

def afterWrite (framer : Framer) (updateCrc : Bool) (wire : Bytes) : Framer :=
  if updateCrc then { framer with crc := crc16Compute wire (some framer.crc) } else framer

theorem afterWrite_append (framer : Framer) (updateCrc : Bool) (first second : Bytes) :
    framer.afterWrite updateCrc (first ++ second) =
      (framer.afterWrite updateCrc first).afterWrite updateCrc second := by
  cases updateCrc <;> simp [afterWrite, crc16Compute_append]

theorem writeAndCrcLoop_of_takes (escape updateCrc : Bool) (passes : Nat) (framer : Framer)
    (data : Bytes) (enough : data.length ≤ passes)
    (takes : stream.Takes s ((stageBytes escape data).map .byte)) :
    ∃ s', writeAndCrcLoop stream escape updateCrc passes framer s data =
        ⟨.noError, framer.afterWrite updateCrc (stageBytes escape data), s'⟩ ∧
      stream.Trace s ((stageBytes escape data).map .byte) s' := by
  induction passes generalizing framer s data with
  | zero =>
    have empty : data = [] := List.eq_nil_of_length_eq_zero (by omega)
    subst empty
    refine ⟨s, ?_, by cases escape <;> exact .nil s⟩
    cases escape <;> cases updateCrc <;> simp [writeAndCrcLoop, afterWrite, stageBytes]
  | succ passes ih =>
    cases data with
    | nil =>
      refine ⟨s, ?_, by cases escape <;> exact .nil s⟩
      cases escape <;> cases updateCrc <;> simp [writeAndCrcLoop, afterWrite, stageBytes]
    | cons c rest =>
      obtain ⟨taken, split, staged⟩ := fillBuffer_spec escape (c :: rest) []
      have shorter := fillBuffer_progress escape c rest
      set buffer := (fillBuffer escape (c :: rest) []).1 with bufferDef
      set left := (fillBuffer escape (c :: rest) []).2 with leftDef
      rw [List.nil_append] at staged
      have wire : stageBytes escape (c :: rest) = buffer ++ stageBytes escape left := by
        rw [split, stageBytes_append, staged]
      rw [wire, List.map_append] at takes ⊢
      have fits : buffer.length ≤ WriteStream.kStagingBytes :=
        fillBuffer_length_le escape (c :: rest) [] (Nat.zero_le _)
      obtain ⟨noError, _, written⟩ := WriteStream.writeAll_of_takes fits takes.left
      obtain ⟨s', loop, trace⟩ := ih (framer.afterWrite updateCrc buffer) left
        (by rw [List.length_cons] at enough; omega) (takes.right written)
      refine ⟨s', ?_, written.append trace⟩
      rw [afterWrite_append, ← loop]
      cases updateCrc <;>
        simp [writeAndCrcLoop, ← bufferDef, ← leftDef, noError, afterWrite]

theorem writeAndCrc_of_takes (escape updateCrc : Bool) (framer : Framer) (data : Bytes)
    (takes : stream.Takes s ((stageBytes escape data).map .byte)) :
    ∃ s', framer.writeAndCrc stream s data escape updateCrc =
        ⟨.noError, framer.afterWrite updateCrc (stageBytes escape data), s'⟩ ∧
      stream.Trace s ((stageBytes escape data).map .byte) s' :=
  writeAndCrcLoop_of_takes escape updateCrc data.length framer data le_rfl takes

theorem andThen_noError (framer : Framer) (s : σ) (next : Framer → σ → FramerResult σ) :
    andThen ⟨.noError, framer, s⟩ next = next framer s := by
  simp [andThen]

/-- The part of a frame that `StartPacket` sends, preamble apart. -/
def frameHeader (payloadSizeBytes : Nat) : Bytes :=
  [kEscapeStart, kPacketStart] ++ escapeBytes (leBytes kPayloadLength payloadSizeBytes)

theorem startPacket_of_takes (framer : Framer) (payloadSizeBytes : Nat)
    (takes : stream.Takes s
      ((framePreamble framer.state ++ frameHeader payloadSizeBytes).map .byte)) :
    ∃ s', framer.startPacket stream s payloadSizeBytes =
        ⟨.noError, ⟨.transmitPacketPayload, payloadSizeBytes,
          crc16Compute (frameHeader payloadSizeBytes) none⟩, s'⟩ ∧
      stream.Trace s
        ((framePreamble framer.state ++ frameHeader payloadSizeBytes).map .byte) s' := by
  obtain ⟨state, remaining, crc⟩ := framer
  rw [List.map_append] at takes ⊢
  -- the escape-nop in front of the first packet is not part of the checksum
  have nop : ∃ s₁,
      (if state = .reset then
          (Framer.mk state remaining crc).writeAndCrc stream s [kEscapeNop] false false
        else ⟨.noError, ⟨state, remaining, crc⟩, s⟩) =
          (⟨.noError, ⟨state, remaining, crc⟩, s₁⟩ : FramerResult σ) ∧
        stream.Trace s ((framePreamble state).map .byte) s₁ := by
    by_cases isReset : state = .reset
    · have takesNop := takes.left
      simp only [framePreamble, isReset, if_true] at takesNop ⊢
      simpa [afterWrite, stageBytes] using
        writeAndCrc_of_takes false false ⟨.reset, remaining, crc⟩ [kEscapeNop] takesNop
    · exact ⟨s, by simp [isReset], by simpa [framePreamble, isReset] using .nil s⟩
  obtain ⟨s₁, nopResult, nopTrace⟩ := nop
  have takesHeader := takes.right nopTrace
  rw [frameHeader, List.map_append] at takesHeader
  obtain ⟨s₂, headerResult, headerTrace⟩ :=
    writeAndCrc_of_takes false true ⟨state, remaining, 0xffff⟩ [kEscapeStart, kPacketStart]
      takesHeader.left
  obtain ⟨s₃, sizeResult, sizeTrace⟩ :=
    writeAndCrc_of_takes true true
      ((Framer.mk state remaining 0xffff).afterWrite true [kEscapeStart, kPacketStart])
      (leBytes kPayloadLength payloadSizeBytes) (takesHeader.right headerTrace)
  refine ⟨s₃, ?_, ?_⟩
  · simp only [startPacket, nopResult, headerResult, stageBytes, Bool.false_eq_true, if_false,
      sizeResult, ne_eq, not_true_eq_false, if_true]
    simp [afterWrite, frameHeader, crc16Compute]
  · have joined := nopTrace.append (headerTrace.append sizeTrace)
    simpa [frameHeader, stageBytes] using joined

theorem writePayloadChunks_of_takes (chunks : List Bytes) (framer : Framer)
    (transmits : framer.state = .transmitPacketPayload)
    (fits : chunks.flatten.length ≤ framer.numPayloadBytesRemaining)
    (takes : stream.Takes s ((escapeBytes chunks.flatten).map .byte)) :
    ∃ s', framer.writePayloadChunks stream s chunks =
        ⟨.noError, ⟨.transmitPacketPayload,
          framer.numPayloadBytesRemaining - chunks.flatten.length,
          crc16Compute (escapeBytes chunks.flatten) (some framer.crc)⟩, s'⟩ ∧
      stream.Trace s ((escapeBytes chunks.flatten).map .byte) s' := by
  induction chunks generalizing framer s with
  | nil =>
    refine ⟨s, ?_, by simpa using .nil s⟩
    obtain ⟨state, remaining, crc⟩ := framer
    simp only at transmits
    simp [writePayloadChunks, transmits]
  | cons chunk chunks ih =>
    rw [List.flatten_cons, List.length_append] at fits
    rw [List.flatten_cons, escapeBytes_append, List.map_append] at takes ⊢
    obtain ⟨s₁, written, trace₁⟩ :=
      writeAndCrc_of_takes true true framer chunk (by simpa [stageBytes] using takes.left)
    simp only [stageBytes, if_true] at written trace₁
    have first : framer.writePayloadChunk stream s chunk =
        ⟨.noError, ⟨.transmitPacketPayload, framer.numPayloadBytesRemaining - chunk.length,
          crc16Compute (escapeBytes chunk) (some framer.crc)⟩, s₁⟩ := by
      simp [writePayloadChunk, transmits, written, afterWrite,
        not_lt.mpr (le_trans (Nat.le_add_right _ _) fits)]
    obtain ⟨s₂, rest, trace₂⟩ := ih
      ⟨.transmitPacketPayload, framer.numPayloadBytesRemaining - chunk.length,
        crc16Compute (escapeBytes chunk) (some framer.crc)⟩ rfl
      (by simp only; omega) (takes.right trace₁)
    refine ⟨s₂, ?_, trace₁.append trace₂⟩
    rw [writePayloadChunks, first, andThen_noError, rest]
    simp [crc16Compute_append, Nat.sub_sub]

theorem finishPacket_of_takes (crc : UInt16)
    (takes : stream.Takes s ((escapeBytes (leBytes kCrc crc.toNat)).map .byte)) :
    ∃ s', (Framer.mk .transmitPacketPayload 0 crc).finishPacket stream s =
        ⟨.noError, ⟨.idle, 0, crc⟩, s'⟩ ∧
      stream.Trace s ((escapeBytes (leBytes kCrc crc.toNat)).map .byte) s' := by
  obtain ⟨s', written, trace⟩ :=
    writeAndCrc_of_takes true false ⟨.transmitPacketPayload, 0, crc⟩ (leBytes kCrc crc.toNat)
      (by simpa [stageBytes] using takes)
  refine ⟨s', ?_, by simpa [stageBytes] using trace⟩
  simp [finishPacket, written, afterWrite]

/-- However the payload is cut into chunks, the wire carries its frame. -/
theorem sendPacket_of_takes (framer : Framer) (chunks : List Bytes)
    (takes : stream.Takes s
      ((framePreamble framer.state ++ frame chunks.flatten).map .byte)) :
    ∃ s' framer', framer.sendPacket stream s chunks = ⟨.noError, framer', s'⟩ ∧
      framer'.state = .idle ∧
      stream.Trace s ((framePreamble framer.state ++ frame chunks.flatten).map .byte) s' := by
  have parts : framePreamble framer.state ++ frame chunks.flatten =
      (framePreamble framer.state ++ frameHeader chunks.flatten.length) ++
        (escapeBytes chunks.flatten ++
          escapeBytes (leBytes kCrc (frameCrc chunks.flatten).toNat)) := by
    simp [frame, framePrefix, frameHeader]
  have checksum : crc16Compute (escapeBytes chunks.flatten)
      (some (crc16Compute (frameHeader chunks.flatten.length) none)) =
        frameCrc chunks.flatten := by
    rw [← crc16Compute_append]
    rfl
  rw [parts, List.map_append, @List.map_append _ _ _ (escapeBytes chunks.flatten)] at takes ⊢
  obtain ⟨s₁, started, trace₁⟩ := startPacket_of_takes framer _ takes.left
  have takesBody := takes.right trace₁
  obtain ⟨s₂, chunked, trace₂⟩ := writePayloadChunks_of_takes chunks
    ⟨.transmitPacketPayload, chunks.flatten.length,
      crc16Compute (frameHeader chunks.flatten.length) none⟩ rfl le_rfl takesBody.left
  obtain ⟨s₃, finished, trace₃⟩ :=
    finishPacket_of_takes (frameCrc chunks.flatten) (takesBody.right trace₂)
  refine ⟨s₃, ⟨.idle, 0, frameCrc chunks.flatten⟩, ?_, rfl,
    trace₁.append (trace₂.append trace₃)⟩
  simp only [sendPacket, started, andThen_noError, chunked, checksum, Nat.sub_self, finished]

theorem sendPackets_of_takes (packets : List (List Bytes)) (framer : Framer)
    (takes : stream.Takes s
      ((frameAll framer.state (packets.map List.flatten)).map .byte)) :
    ∃ s' framer', framer.sendPackets stream s packets = ⟨.noError, framer', s'⟩ ∧
      stream.Trace s ((frameAll framer.state (packets.map List.flatten)).map .byte) s' := by
  induction packets generalizing framer s with
  | nil => exact ⟨s, framer, rfl, .nil s⟩
  | cons chunks packets ih =>
    rw [List.map_cons, frameAll, List.map_append] at takes ⊢
    obtain ⟨s₁, framer₁, sent, idle, trace₁⟩ := sendPacket_of_takes framer chunks takes.left
    obtain ⟨s₂, framer₂, rest, trace₂⟩ :=
      ih framer₁ (by rw [idle]; exact takes.right trace₁)
    rw [idle] at trace₂
    refine ⟨s₂, framer₂, ?_, trace₁.append trace₂⟩
    rw [sendPackets, sent, andThen_noError, rest]

end Framer

end Tvm.MicroRpc
