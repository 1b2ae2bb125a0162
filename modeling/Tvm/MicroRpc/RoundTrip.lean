import Tvm.MicroRpc.UnframerRefinement

/-!
# Frames come back as they went in

What the byte-wise parser makes of the bytes a framer sends: an escaped field is
collected as it was before the escaping, and a frame becomes its payload followed by
one `PacketDone`.
-/

namespace Tvm.MicroRpc

open Tvm.Lib Tvm.Crt WireParser

namespace Field

variable {field : Field}

theorem nextCrc_append (field : Field) (crc : UInt16) (first second : Bytes) :
    field.nextCrc crc (first ++ second) = field.nextCrc (field.nextCrc crc first) second := by
  cases updates : field.updateCrc <;> simp [nextCrc, updates, crc16Compute_append]

theorem Collects.reads_escapeByte (collects : field.Collects) (got : Bytes) (crc : UInt16)
    (c : UInt8) (room : got.length < field.size) :
    Reads ⟨false, field.phase got crc⟩ (escapeByte c) (field.emit got c)
      ⟨false, field.phase (got ++ [c]) (field.nextCrc crc (escapeByte c))⟩ := by
  have inside : ∀ crc, field.phase got crc ≠ .hunting :=
    fun crc => collects.not_hunting got crc room
  by_cases escape : c = kEscapeStart
  · subst escape
    have first : WireParser.step ⟨false, field.phase got crc⟩ kEscapeStart =
        .next ⟨true, field.phase got (field.nextCrc crc [kEscapeStart])⟩ [] := by
      simp [step, inside, unescape, collects.skip _ _ _ room]
    have second : WireParser.step
        ⟨true, field.phase got (field.nextCrc crc [kEscapeStart])⟩ kEscapeStart =
        .next ⟨false, field.phase (got ++ [kEscapeStart])
          (field.nextCrc (field.nextCrc crc [kEscapeStart]) [kEscapeStart])⟩
          (field.emit got kEscapeStart) := by
      simp [step, inside, unescape, collects.store _ _ _ room]
    have reads := Reads.cons first (Reads.cons second (.nil _))
    rw [← field.nextCrc_append] at reads
    simpa [escapeByte] using reads
  · have only : WireParser.step ⟨false, field.phase got crc⟩ c =
        .next ⟨false, field.phase (got ++ [c]) (field.nextCrc crc [c])⟩ (field.emit got c) := by
      simp [step, inside, unescape, escape, collects.store _ _ _ room]
    simpa [escapeByte, escape] using Reads.cons only (.nil _)

theorem Collects.reads_escapeBytes (collects : field.Collects) (got data : Bytes) (crc : UInt16)
    (fits : (got ++ data).length ≤ field.size) :
    Reads ⟨false, field.phase got crc⟩ (escapeBytes data) (field.emitAll got data)
      ⟨false, field.phase (got ++ data) (field.nextCrc crc (escapeBytes data))⟩ := by
  induction data generalizing got crc with
  | nil => simpa [emitAll, field.nextCrc_nil] using Reads.nil ⟨false, field.phase got crc⟩
  | cons c data ih =>
    rw [List.append_cons] at fits ⊢
    have room : got.length < field.size := by
      simp only [List.length_append, List.length_singleton] at fits
      omega
    have first := collects.reads_escapeByte got crc c room
    have reads := first.append (ih (got ++ [c]) (field.nextCrc crc (escapeByte c)) fits)
    rw [← field.nextCrc_append] at reads
    exact reads

end Field

namespace WireParser

theorem reads_start (sawEscape : Bool) :
    Reads ⟨sawEscape, .hunting⟩ [kEscapeStart, kPacketStart] [] ⟨false, .length [] startCrc⟩ := by
  have escape : WireParser.step ⟨sawEscape, .hunting⟩ kEscapeStart =
      .next ⟨true, .hunting⟩ [] := by
    simp [step, hunt]
  have start : WireParser.step ⟨true, .hunting⟩ kPacketStart =
      .next ⟨false, .length [] startCrc⟩ [] := by
    simp [step, hunt]
  exact Reads.cons escape (Reads.cons start (.nil _))

theorem reads_start_append {sawEscape : Bool} {body : Bytes} {events : List StreamEvent}
    {parser' : WireParser} :
    Reads ⟨sawEscape, .hunting⟩ ([kEscapeStart, kPacketStart] ++ body) events parser' ↔
      Reads ⟨false, .length [] startCrc⟩ body events parser' := by
  rw [Reads, (reads_start sawEscape).run_append, RunResult.prepend_nil, Reads]

theorem reads_length (payloadSize : Nat) (short : payloadSize < 2 ^ 32) (crc : UInt16) :
    Reads ⟨false, .length [] crc⟩ (escapeBytes (leBytes kPayloadLength payloadSize)) []
      ⟨false, .beginPayload payloadSize
        (crc16Compute (escapeBytes (leBytes kPayloadLength payloadSize)) (some crc))⟩ := by
  have reads := lengthField_collects.reads_escapeBytes [] (leBytes kPayloadLength payloadSize) crc
    (by simp [lengthField])
  have value : leValue (leBytes kPayloadLength payloadSize) = payloadSize :=
    leValue_leBytes (by simpa [kPayloadLength] using short)
  have begins : (0 : Nat) < kPayloadLength := by decide
  rw [lengthField_emitAll] at reads
  simpa [lengthField, begins, Field.nextCrc, value] using reads

theorem reads_payload (payload : Bytes) (crc : UInt16) :
    Reads ⟨false, .beginPayload payload.length crc⟩ (escapeBytes payload) (payload.map .byte)
      ⟨false, .trailer [] (crc16Compute (escapeBytes payload) (some crc))⟩ := by
  have collects := payloadField_collects (le_refl payload.length)
  have reads := collects.reads_escapeBytes [] payload crc (by simp [payloadField])
  rw [payloadField_emitAll] at reads
  simpa [payloadField, Phase.beginPayload, Field.nextCrc] using reads

theorem reads_trailer (crc : UInt16) (sent : Nat) (short : sent < 2 ^ 16) :
    Reads ⟨false, .trailer [] crc⟩ (escapeBytes (leBytes kCrc sent))
      [.packetDone (crc.toNat == sent)] ⟨false, .hunting⟩ := by
  have reads := (trailerField_collects crc).reads_escapeBytes [] (leBytes kCrc sent) crc
    (by simp [trailerField])
  have value : leValue (leBytes kCrc sent) = sent :=
    leValue_leBytes (by simpa [kCrc] using short)
  have begins : (0 : Nat) < kCrc := by decide
  rw [trailerField_emitAll crc [] _ begins (by simp)] at reads
  simpa [trailerField, begins, value] using reads

theorem reads_framePrefix (sawEscape : Bool) (payload : Bytes)
    (short : payload.length < 2 ^ 32) :
    Reads ⟨sawEscape, .hunting⟩ (framePrefix payload) (payload.map .byte)
      ⟨false, .trailer [] (frameCrc payload)⟩ := by
  have reads := ((reads_start sawEscape).append (reads_length payload.length short startCrc)).append
    (reads_payload payload _)
  have checksum : crc16Compute (escapeBytes payload)
      (some (crc16Compute (escapeBytes (leBytes kPayloadLength payload.length))
        (some startCrc))) = frameCrc payload := by
    rw [startCrc, ← crc16Compute_append, ← crc16Compute_append, frameCrc, framePrefix,
      List.append_assoc]
  rw [checksum] at reads
  exact reads

theorem reads_frame (sawEscape : Bool) (payload : Bytes) (short : payload.length < 2 ^ 32) :
    Reads ⟨sawEscape, .hunting⟩ (frame payload) (payload.map .byte ++ [.packetDone true])
      ⟨false, .hunting⟩ := by
  simpa [frame] using (reads_framePrefix sawEscape payload short).append
    (reads_trailer (frameCrc payload) (frameCrc payload).toNat (frameCrc payload).toNat_lt)

theorem reads_framePreamble (state : Framer.State) (sawEscape : Bool) :
    ∃ sawEscape', Reads ⟨sawEscape, .hunting⟩ (framePreamble state) [] ⟨sawEscape', .hunting⟩ := by
  by_cases isReset : state = .reset
  · refine ⟨false, ?_⟩
    have nop : WireParser.step ⟨sawEscape, .hunting⟩ kEscapeNop =
        .next ⟨false, .hunting⟩ [] := by
      simp [step, hunt]
    simpa [framePreamble, isReset] using Reads.cons nop (.nil _)
  · exact ⟨sawEscape, by simpa [framePreamble, isReset] using Reads.nil _⟩

def packetEvents (payload : Bytes) : List StreamEvent := payload.map .byte ++ [.packetDone true]

theorem reads_frameAll (state : Framer.State) (sawEscape : Bool) (payloads : List Bytes)
    (short : ∀ payload ∈ payloads, payload.length < 2 ^ 32) :
    ∃ sawEscape', Reads ⟨sawEscape, .hunting⟩ (frameAll state payloads)
      (payloads.flatMap packetEvents) ⟨sawEscape', .hunting⟩ := by
  induction payloads generalizing state sawEscape with
  | nil => exact ⟨sawEscape, .nil _⟩
  | cons payload payloads ih =>
    obtain ⟨saw₁, preamble⟩ := reads_framePreamble state sawEscape
    have here := reads_frame saw₁ payload (short payload (List.mem_cons_self ..))
    obtain ⟨saw₂, rest⟩ :=
      ih .idle false fun later membership => short later (List.mem_cons_of_mem _ membership)
    exact ⟨saw₂, (preamble.append here).append rest⟩

end WireParser

end Tvm.MicroRpc

/-!
## Framer and unframer agree on the wire format

Packets sent through a `Framer` in any chunks, cut anywhere and fed to a fresh
`Unframer`, come out as they went in.
-/

namespace Tvm.MicroRpc

open Tvm.Lib Tvm.Crt WireParser

universe u v

namespace Unframer

variable {σ : Type u} (stream : WriteStream σ)

/-- Where successive `Write` calls lead, and the code and the count that each returned. -/
structure PiecesResult (σ : Type u) where
  outcomes : List (CrtError × Option Int)
  unframer : Unframer
  stream : σ

/-- Successive `Write` calls, one for each piece. -/
def writePieces (unframer : Unframer) (s : σ) : List Bytes → PiecesResult σ
  | [] => ⟨[], unframer, s⟩
  | piece :: pieces =>
    let written := unframer.write stream s piece
    let rest := writePieces written.unframer written.stream pieces
    { rest with outcomes := (written.error, written.bytesConsumed) :: rest.outcomes }

variable {stream} {s : σ}

theorem write_of_reads (unframer : Unframer) (piece : Bytes) {events : List StreamEvent}
    {parser' : WireParser} (formed : unframer.WellFormed)
    (reads : Reads unframer.parser piece events parser') (takes : stream.Takes s events) :
    (unframer.write stream s piece).error = .noError ∧
      (unframer.write stream s piece).bytesConsumed = some (piece.length : Int) ∧
      (unframer.write stream s piece).unframer.WellFormed ∧
      (unframer.write stream s piece).unframer.parser = parser' ∧
      stream.Trace s events (unframer.write stream s piece).stream := by
  have takesRun : stream.Takes s (run unframer.parser piece).events := by
    rw [reads]
    exact takes
  have refines := write_refines unframer piece formed takesRun
  have noError : (unframer.write stream s piece).error = .noError := by
    rw [refines.error, reads]
  obtain ⟨kept, lost, visible, trace, complete⟩ := refines.trace
  refine ⟨noError, ?_, refines.wellFormed, ?_, ?_⟩
  · rw [refines.bytesConsumed, reads]
    simp
  · rw [refines.parser, reads]
  · rw [reads, complete noError] at visible
    have whole : events = kept := by simpa using visible
    rw [whole]
    exact trace

theorem writePieces_of_reads (pieces : List Bytes) (unframer : Unframer)
    {events : List StreamEvent} {parser' : WireParser} (formed : unframer.WellFormed)
    (reads : Reads unframer.parser pieces.flatten events parser')
    (takes : stream.Takes s events) :
    (unframer.writePieces stream s pieces).outcomes =
        pieces.map (fun piece => (.noError, some (piece.length : Int))) ∧
      (unframer.writePieces stream s pieces).unframer.WellFormed ∧
      (unframer.writePieces stream s pieces).unframer.parser = parser' ∧
      stream.Trace s events (unframer.writePieces stream s pieces).stream := by
  induction pieces generalizing unframer s events with
  | nil =>
    obtain ⟨rfl, rfl⟩ : ([] : List StreamEvent) = events ∧ unframer.parser = parser' := by
      simpa [Reads] using reads
    exact ⟨rfl, formed, rfl, .nil s⟩
  | cons piece pieces ih =>
    rw [List.flatten_cons] at reads
    obtain ⟨events₁, middle, events₂, here, later, rfl⟩ := reads.split
    obtain ⟨noError, consumed, formed', parserEq, trace⟩ :=
      write_of_reads unframer piece formed here takes.left
    obtain ⟨outcomes, formed'', parserEq', trace'⟩ :=
      ih _ formed' (by rw [parserEq]; exact later) (takes.right trace)
    refine ⟨?_, formed'', parserEq', trace.append trace'⟩
    simp only [writePieces, List.map_cons, noError, consumed, outcomes]

end Unframer

variable {σ : Type u} {τ : Type v}

/-- Any packets, any chunks, any cuts: what the framer sends is what the unframer delivers. -/
theorem unframer_receives_framed (up : WriteStream σ) (down : WriteStream τ)
    (upAccepts : up.Accepts) (downAccepts : down.Accepts) (s : σ) (t : τ) (framer : Framer)
    (packets : List (List Bytes))
    (short : ∀ chunks ∈ packets, chunks.flatten.length < 2 ^ 32) :
    (framer.sendPackets up.logged (s, []) packets).error = .noError ∧
      ∀ pieces : List Bytes,
        pieces.flatten =
          WriteStream.bytesOf (framer.sendPackets up.logged (s, []) packets).stream.2 →
        (Unframer.new.writePieces down.logged (t, []) pieces).outcomes =
            pieces.map (fun piece => (.noError, some (piece.length : Int))) ∧
          (Unframer.new.writePieces down.logged (t, []) pieces).stream.2 =
            packets.flatMap (fun chunks =>
              chunks.flatten.map .byte ++ [.packetDone true]) := by
  obtain ⟨s', framer', sent, sending⟩ :=
    Framer.sendPackets_of_takes packets framer (upAccepts.logged.takes (s, []) _)
  have onWire : s'.2 = (frameAll framer.state (packets.map List.flatten)).map .byte := by
    simpa using sending.log
  rw [sent]
  refine ⟨rfl, fun pieces cut => ?_⟩
  simp only [onWire, WriteStream.bytesOf_map_byte] at cut
  obtain ⟨sawEscape, reads⟩ := reads_frameAll framer.state false (packets.map List.flatten)
    (by simpa using short)
  rw [← cut] at reads
  obtain ⟨outcomes, _, _, receiving⟩ :=
    Unframer.writePieces_of_reads pieces Unframer.new Unframer.new_wellFormed reads
      (downAccepts.logged.takes (t, []) _)
  refine ⟨outcomes, ?_⟩
  rw [receiving.log, List.nil_append, List.flatMap_map]
  rfl

/-- Two packets, the first with an escaped byte, the second empty. -/
theorem unframer_receives_framed_escape :
    (Framer.new.sendPackets WriteStream.sink.logged ((), []) [[[1, 0xff], [2]], []]).error =
        .noError ∧
      ∀ pieces : List Bytes,
        pieces.flatten = WriteStream.bytesOf (Framer.new.sendPackets WriteStream.sink.logged
          ((), []) [[[1, 0xff], [2]], []]).stream.2 →
        (Unframer.new.writePieces WriteStream.sink.logged ((), []) pieces).outcomes =
            pieces.map (fun piece => (.noError, some (piece.length : Int))) ∧
          (Unframer.new.writePieces WriteStream.sink.logged ((), []) pieces).stream.2 =
            [[[1, 0xff], [2]], []].flatMap (fun chunks =>
              chunks.flatten.map .byte ++ [.packetDone true]) :=
  unframer_receives_framed WriteStream.sink WriteStream.sink WriteStream.sink_accepts
    WriteStream.sink_accepts () () Framer.new [[[1, 0xff], [2]], []] (by simp)

end Tvm.MicroRpc
