import Tvm.MicroRpc.WireParser
import Tvm.MicroRpc.Unframer

/-!
# The unframer refines the byte-wise parser

Over a stream that takes what it is given, one call of `Unframer::Write` has the
same effect as reading its bytes one at a time: same error, same unread bytes, same
place in the packet, and the same bytes and `PacketDone` calls downstream.  Only an
error inside a payload shows the buffering, since payload bytes still in the buffer
are then dropped.
-/

namespace Tvm.MicroRpc

open Tvm.Lib Tvm.Crt WireParser

universe u

namespace Unframer

def phase (unframer : Unframer) : Phase :=
  match unframer.state with
  | .findPacketStart => .hunting
  | .findPacketLength => .length unframer.buffer unframer.crc
  | .findPacketCrc => .beginPayload unframer.numPayloadBytesRemaining unframer.crc
  | .findCrcEnd => .trailer unframer.buffer unframer.crc

def parser (unframer : Unframer) : WireParser := ⟨unframer.sawEscapeStart, unframer.phase⟩

/-- Between calls the buffer holds part of a length or checksum field, never all of it, and
no payload. -/
def WellFormed (unframer : Unframer) : Prop :=
  match unframer.state with
  | .findPacketStart => unframer.buffer = []
  | .findPacketLength => unframer.buffer.length < kPayloadLength
  | .findPacketCrc => unframer.buffer = []
  | .findCrcEnd => unframer.buffer.length < kCrc

theorem new_wellFormed : new.WellFormed := rfl

end Unframer

namespace Unframer

/-- What `ConsumeInput` did to `input`, in terms of the parser: the bytes `stored` were
added to the buffer, and the loop stopped at the end of the input, at a full buffer, or
at an error. -/
structure Consumed (field : Field) (unframer : Unframer) (crc : UInt16) (input : Bytes)
    (result : CrtError × Nat × Unframer) (stored : Bytes) : Prop where
  state : result.2.2.state = unframer.state
  remaining : result.2.2.numPayloadBytesRemaining = unframer.numPayloadBytesRemaining
  buffer : result.2.2.buffer = unframer.buffer ++ stored
  fits : result.2.2.buffer.length ≤ field.size
  crc_eq : result.1 = .noError → result.2.2.crc = unframer.crc
  stops : result.1 = .noError → result.2.2.buffer.length < field.size →
    input.drop result.2.1 = []
  short : result.1 ≠ .noError → result.2.2.buffer.length < field.size
  progress : input ≠ [] → result.1 = .noError → 0 < result.2.1
  reads : result.1 = .noError →
    run ⟨unframer.sawEscapeStart, field.phase unframer.buffer crc⟩ input =
      (run ⟨result.2.2.sawEscapeStart,
        field.phase result.2.2.buffer (field.nextCrc crc (input.take result.2.1))⟩
          (input.drop result.2.1)).prepend (field.emitAll unframer.buffer stored)
  fails : result.1 ≠ .noError →
    run ⟨unframer.sawEscapeStart, field.phase unframer.buffer crc⟩ input =
      ⟨field.emitAll unframer.buffer stored, result.1,
        ⟨result.2.2.sawEscapeStart, .hunting⟩, input.drop result.2.1⟩

variable {field : Field} {unframer next : Unframer} {crc : UInt16}

theorem Consumed.cons {c : UInt8} {rest added stored : Bytes} {events : List StreamEvent}
    {result : CrtError × Nat × Unframer}
    (consumed : Consumed field next (field.nextCrc crc [c]) rest result stored)
    (state : next.state = unframer.state)
    (remaining : next.numPayloadBytesRemaining = unframer.numPayloadBytesRemaining)
    (sameCrc : next.crc = unframer.crc) (buffer : next.buffer = unframer.buffer ++ added)
    (stepped : WireParser.step ⟨unframer.sawEscapeStart, field.phase unframer.buffer crc⟩ c =
      .next ⟨next.sawEscapeStart, field.phase next.buffer (field.nextCrc crc [c])⟩ events)
    (emits : field.emitAll unframer.buffer (added ++ stored) =
      events ++ field.emitAll next.buffer stored) :
    Consumed field unframer crc (c :: rest) (result.1, result.2.1 + 1, result.2.2)
      (added ++ stored) where
  state := consumed.state.trans state
  remaining := consumed.remaining.trans remaining
  buffer := by rw [consumed.buffer, buffer, List.append_assoc]
  fits := consumed.fits
  crc_eq noError := (consumed.crc_eq noError).trans sameCrc
  stops noError room := consumed.stops noError room
  short := consumed.short
  progress _ _ := Nat.succ_pos _
  reads noError := by
    rw [run_cons, stepped]
    simp only [List.take_succ_cons, List.drop_succ_cons]
    rw [consumed.reads noError, field.nextCrc_cons crc c (rest.take _), emits,
      RunResult.prepend_prepend]
  fails error := by
    rw [run_cons, stepped]
    simp only [List.drop_succ_cons]
    rw [consumed.fails error, emits]
    rfl

theorem consumeInputLoop_consumed (collects : field.Collects) (input : Bytes)
    (unframer : Unframer) (crc : UInt16) (room : unframer.buffer.length < field.size) :
    ∃ stored, Consumed field unframer crc input
      (consumeInputLoop field.size unframer input) stored := by
  induction input generalizing unframer crc with
  | nil =>
    refine ⟨[], ?_⟩
    simp only [consumeInputLoop]
    exact
      { state := rfl
        remaining := rfl
        buffer := (List.append_nil _).symm
        fits := room.le
        crc_eq := fun _ => rfl
        stops := fun _ _ => rfl
        short := fun _ => room
        progress := fun nonempty => absurd rfl nonempty
        reads := fun _ => by simp [Field.emitAll, Field.nextCrc_nil]
        fails := fun error => absurd rfl error }
  | cons c rest ih =>
    have inside := collects.not_hunting unframer.buffer crc room
    -- the byte is stored: the buffer is full now, or the loop goes on
    have storing : unescape unframer.sawEscapeStart c = .data →
        ∃ stored, Consumed field unframer crc (c :: rest)
          (if (unframer.buffer ++ [c]).length = field.size then
            (.noError, 1,
              { unframer with sawEscapeStart := false, buffer := unframer.buffer ++ [c] })
          else
            ((consumeInputLoop field.size
                { unframer with sawEscapeStart := false, buffer := unframer.buffer ++ [c] } rest).1,
              (consumeInputLoop field.size { unframer with
                sawEscapeStart := false, buffer := unframer.buffer ++ [c] } rest).2.1 + 1,
              (consumeInputLoop field.size { unframer with
                sawEscapeStart := false, buffer := unframer.buffer ++ [c] } rest).2.2)) stored := by
      intro data
      have stepped : WireParser.step ⟨unframer.sawEscapeStart, field.phase unframer.buffer crc⟩ c
          = .next ⟨false, field.phase (unframer.buffer ++ [c]) (field.nextCrc crc [c])⟩
            (field.emit unframer.buffer c) := by
        simp [step, inside, data, collects.store _ _ _ room]
      by_cases full : (unframer.buffer ++ [c]).length = field.size
      · refine ⟨[c], ?_⟩
        simp only [full, if_true]
        exact
          { state := rfl
            remaining := rfl
            buffer := rfl
            fits := full.le
            crc_eq := fun _ => rfl
            stops := fun _ below => absurd full below.ne
            short := fun error => absurd rfl error
            progress := fun _ _ => Nat.one_pos
            reads := fun _ => by rw [run_cons, stepped]; simp [Field.emitAll]
            fails := fun error => absurd rfl error }
      · obtain ⟨stored, consumed⟩ := ih
          { unframer with sawEscapeStart := false, buffer := unframer.buffer ++ [c] }
          (field.nextCrc crc [c])
          (by simp only [List.length_append, List.length_singleton] at full ⊢; omega)
        refine ⟨[c] ++ stored, ?_⟩
        simp only [full, if_false]
        exact consumed.cons rfl rfl rfl rfl stepped rfl
    -- the byte is part of an escape: nothing is stored
    have skipping : ∀ sawEscape, unescape unframer.sawEscapeStart c = .skip sawEscape →
        ∃ stored, Consumed field unframer crc (c :: rest)
          ((consumeInputLoop field.size { unframer with sawEscapeStart := sawEscape } rest).1,
            (consumeInputLoop field.size
              { unframer with sawEscapeStart := sawEscape } rest).2.1 + 1,
            (consumeInputLoop field.size
              { unframer with sawEscapeStart := sawEscape } rest).2.2) stored := by
      intro sawEscape skip
      obtain ⟨stored, consumed⟩ :=
        ih { unframer with sawEscapeStart := sawEscape } (field.nextCrc crc [c]) room
      have stepped : WireParser.step ⟨unframer.sawEscapeStart, field.phase unframer.buffer crc⟩ c
          = .next ⟨sawEscape, field.phase unframer.buffer (field.nextCrc crc [c])⟩ [] := by
        simp [step, inside, skip, collects.skip _ _ _ room]
      exact ⟨[] ++ stored, consumed.cons rfl rfl rfl (by simp) stepped rfl⟩
    unfold consumeInputLoop
    by_cases saw : unframer.sawEscapeStart = true
    · simp only [saw, Bool.true_and, Bool.not_true, Bool.false_and]
      -- an error leaves the buffer as it is
      have failing : ∀ (error : CrtError) (i : Nat) (next : Unframer), error ≠ .noError →
          next.state = unframer.state →
          next.numPayloadBytesRemaining = unframer.numPayloadBytesRemaining →
          next.buffer = unframer.buffer →
          run ⟨unframer.sawEscapeStart, field.phase unframer.buffer crc⟩ (c :: rest) =
            ⟨[], error, ⟨next.sawEscapeStart, .hunting⟩, (c :: rest).drop i⟩ →
          ∃ stored, Consumed field unframer crc (c :: rest) (error, i, next) stored :=
        fun error i next isError state remaining buffer fails =>
          ⟨[],
            { state := state
              remaining := remaining
              buffer := by simp [buffer]
              fits := by simpa [buffer] using room.le
              crc_eq := fun noError => absurd noError isError
              stops := fun noError => absurd noError isError
              short := fun _ => by simpa [buffer] using room
              progress := fun _ noError => absurd noError isError
              reads := fun noError => absurd noError isError
              fails := fun _ => fails }⟩
      by_cases start : c = kPacketStart
      · subst start
        simp only [beq_self_eq_true, if_true]
        refine failing _ 0 _ (by simp) rfl rfl rfl ?_
        rw [run_cons]
        simp [step, inside, saw, unescape]
      · by_cases nop : c = kEscapeNop
        · subst nop
          simpa using skipping false (by simp [unescape, saw])
        · by_cases escape : c = kEscapeStart
          · subst escape
            simpa using storing (by simp [unescape, saw])
          · simp only [beq_eq_false_iff_ne.mpr start, beq_eq_false_iff_ne.mpr nop, bne,
              beq_eq_false_iff_ne.mpr escape, Bool.not_false, Bool.false_eq_true, if_false, if_true]
            refine failing _ 1 _ (by simp) rfl rfl rfl ?_
            rw [run_cons]
            simp [step, inside, saw, unescape, start, nop, escape]
    · have clear : unframer.sawEscapeStart = false := by simpa using saw
      by_cases escape : c = kEscapeStart
      · simpa [clear, escape] using skipping true (by simp [unescape, clear, escape])
      · simpa [clear, escape] using storing (by simp [unescape, clear, escape])

/-- `Consumed` for `AddToBuffer`, with the checksum brought up to date. -/
structure Added (field : Field) (unframer : Unframer) (input : Bytes) (error : CrtError)
    (next : Unframer) (rest stored : Bytes) : Prop where
  state : next.state = unframer.state
  remaining : next.numPayloadBytesRemaining = unframer.numPayloadBytesRemaining
  buffer : next.buffer = unframer.buffer ++ stored
  fits : next.buffer.length ≤ field.size
  stops : error = .noError → next.buffer.length < field.size → rest = []
  short : error ≠ .noError → next.buffer.length < field.size
  shorter : error = .noError →
    rest.length ≤ input.length ∧ (input ≠ [] → rest.length < input.length)
  sameCrc : field.updateCrc = false → error = .noError → next.crc = unframer.crc
  reads : error = .noError →
    run ⟨unframer.sawEscapeStart, field.phase unframer.buffer unframer.crc⟩ input =
      (run ⟨next.sawEscapeStart, field.phase next.buffer next.crc⟩ rest).prepend
        (field.emitAll unframer.buffer stored)
  fails : error ≠ .noError →
    run ⟨unframer.sawEscapeStart, field.phase unframer.buffer unframer.crc⟩ input =
      ⟨field.emitAll unframer.buffer stored, error, ⟨next.sawEscapeStart, .hunting⟩, rest⟩

theorem addToBuffer_added (collects : field.Collects) (unframer : Unframer) (input : Bytes)
    (room : unframer.buffer.length < field.size) {error : CrtError} {next : Unframer}
    {rest : Bytes}
    (result : unframer.addToBuffer input field.size field.updateCrc = (error, next, rest)) :
    ∃ stored, Added field unframer input error next rest stored := by
  obtain ⟨stored, consumed⟩ :=
    consumeInputLoop_consumed collects input unframer unframer.crc room
  rw [addToBuffer] at result
  generalize consumeInputLoop field.size unframer input = outcome at consumed result
  obtain ⟨error', i, filled⟩ := outcome
  simp only [Prod.mk.injEq] at result
  obtain ⟨rfl, updated, rfl⟩ := result
  have parts : next = { filled with crc := field.nextCrc filled.crc (input.take i) } := by
    rw [← updated]
    cases updates : field.updateCrc <;> simp [Field.nextCrc, updates]
  subst parts
  refine ⟨stored, consumed.state, consumed.remaining, consumed.buffer, consumed.fits,
    consumed.stops, consumed.short, fun noError => ⟨by simp, fun nonempty => ?_⟩, fun constant noError => ?_,
    fun noError => ?_, consumed.fails⟩
  · have positive : 0 < i := consumed.progress nonempty noError
    have some := List.length_pos_iff.mpr nonempty
    simp only [List.length_drop]
    omega
  · simpa [Field.nextCrc, constant] using consumed.crc_eq noError
  · have sameCrc := consumed.crc_eq noError
    have reads := consumed.reads noError
    simp only at sameCrc reads ⊢
    rw [reads, sameCrc]

variable {σ : Type u} {stream : WriteStream σ} {s : σ}

/-- Bounds the passes that `Write` still makes: a pass that takes no input moves on from a
complete payload. -/
def weight (unframer : Unframer) (input : Bytes) : Nat :=
  2 * input.length + if unframer.state = .findPacketCrc then 1 else 0

theorem weight_lt {next : Unframer} {rest input : Bytes} (shorter : rest.length < input.length) :
    next.weight rest < unframer.weight input := by
  unfold weight
  split <;> split <;> omega

/-- What `find` achieves on `input`.  An error may lose payload bytes that were read but
not yet written downstream. -/
inductive Found (stream : WriteStream σ) (s : σ) (unframer : Unframer) (input : Bytes) :
    FindResult σ → Prop where
  | ok {next : Unframer} {rest : Bytes} {s' : σ} (events : List StreamEvent) :
      next.WellFormed →
      rest.length ≤ input.length →
      (input ≠ [] → next.weight rest < unframer.weight input) →
      run unframer.parser input = (run next.parser rest).prepend events →
      stream.Trace s events s' →
      Found stream s unframer input ⟨.noError, next, rest, some 0, s'⟩
  | failed {error : CrtError} {next : Unframer} {rest : Bytes} {s' : σ}
      (kept : List StreamEvent) (lost : Bytes) :
      error ≠ .noError →
      run unframer.parser input =
        ⟨kept ++ lost.map .byte, error, ⟨next.sawEscapeStart, .hunting⟩, rest⟩ →
      stream.Trace s kept s' →
      Found stream s unframer input ⟨error, next, rest, some 0, s'⟩

theorem findPacketStartLoop_reads (unframer : Unframer) (input : Bytes)
    (hunts : unframer.state = .findPacketStart) (empty : unframer.buffer = []) :
    run unframer.parser input =
        run (findPacketStartLoop unframer input).2.parser
          (input.drop (findPacketStartLoop unframer input).1) ∧
      (findPacketStartLoop unframer input).2.WellFormed ∧
      (input ≠ [] → 0 < (findPacketStartLoop unframer input).1) := by
  induction input generalizing unframer with
  | nil => exact ⟨rfl, by simpa [findPacketStartLoop, WellFormed, hunts] using empty, by simp⟩
  | cons c rest ih =>
    obtain ⟨state, saw, buffer, remaining, crc⟩ := unframer
    simp only at hunts empty
    subst hunts empty
    unfold findPacketStartLoop
    rw [run_cons]
    by_cases escape : c = kEscapeStart
    · obtain ⟨reads, formed, _⟩ := ih ⟨.findPacketStart, true, [], remaining, crc⟩ rfl rfl
      simpa [parser, phase, step, hunt, escape] using ⟨reads, formed⟩
    · by_cases start : c = kPacketStart ∧ saw = true
      · simp [parser, phase, step, hunt, start.1, start.2, startCrc, WellFormed, kPayloadLength]
      · obtain ⟨reads, formed, _⟩ := ih ⟨.findPacketStart, false, [], remaining, crc⟩ rfl rfl
        simpa [parser, phase, step, hunt, escape, start] using ⟨reads, formed⟩

theorem findPacketStart_found (unframer : Unframer) (input : Bytes)
    (hunts : unframer.state = .findPacketStart) (formed : unframer.WellFormed) :
    Found stream s unframer input (findPacketStart unframer input s) := by
  have empty : unframer.buffer = [] := by simpa [WellFormed, hunts] using formed
  obtain ⟨reads, formed', advances⟩ := findPacketStartLoop_reads unframer input hunts empty
  refine .ok [] formed' (by simp) (fun nonempty => weight_lt ?_) (by simpa using reads) (.nil s)
  have positive := advances nonempty
  have some := List.length_pos_iff.mpr nonempty
  rw [List.length_drop]
  omega

theorem findPacketLength_found (unframer : Unframer) (input : Bytes)
    (here : unframer.state = .findPacketLength) (formed : unframer.WellFormed) :
    Found stream s unframer input (findPacketLength unframer input s) := by
  have room : unframer.buffer.length < kPayloadLength := by
    simpa [WellFormed, here] using formed
  have now : unframer.parser = ⟨unframer.sawEscapeStart,
      lengthField.phase unframer.buffer unframer.crc⟩ := by
    simp [parser, phase, here, lengthField, room]
  unfold findPacketLength
  rcases result : unframer.addToBuffer input kPayloadLength true with ⟨error, next, rest⟩
  obtain ⟨stored, added⟩ := addToBuffer_added lengthField_collects unframer input room result
  by_cases ok : error = .noError
  · have shorter := added.shorter ok
    have reads := added.reads ok
    rw [← now, lengthField_emitAll, RunResult.prepend_nil] at reads
    by_cases full : kPayloadLength ≤ next.buffer.length
    · simp only [ok, isBufferFull, full]
      refine .ok [] rfl shorter.1 (fun nonempty => weight_lt (shorter.2 nonempty)) ?_
        (.nil s)
      simpa [parser, phase, lengthField, not_lt.mpr full] using reads
    · have still : next.state = .findPacketLength := added.state.trans here
      simp only [ok, isBufferFull, full]
      refine .ok [] ?_ shorter.1 (fun nonempty => weight_lt (shorter.2 nonempty)) ?_
        (.nil s)
      · simpa [WellFormed, still] using full
      · simpa [parser, phase, still, lengthField, not_le.mp full] using reads
  · have fails := added.fails ok
    rw [← now, lengthField_emitAll] at fails
    simp only [ne_eq, ok, not_false_eq_true, if_true]
    exact .failed [] [] ok (by simpa using fails) (.nil s)

theorem findCrcEnd_found (unframer : Unframer) (input : Bytes)
    (here : unframer.state = .findCrcEnd) (formed : unframer.WellFormed) :
    Found stream s unframer input (findCrcEnd stream unframer input s) := by
  have room : unframer.buffer.length < kCrc := by simpa [WellFormed, here] using formed
  have now : unframer.parser = ⟨unframer.sawEscapeStart,
      (trailerField unframer.crc).phase unframer.buffer unframer.crc⟩ := by
    simp [parser, phase, here, trailerField, room]
  unfold findCrcEnd
  rcases result : unframer.addToBuffer input kCrc false with ⟨error, next, rest⟩
  obtain ⟨stored, added⟩ :=
    addToBuffer_added (trailerField_collects unframer.crc) unframer input room result
  have emitted := trailerField_emitAll unframer.crc unframer.buffer stored room
    (by rw [← added.buffer]; exact added.fits)
  rw [← added.buffer] at emitted
  by_cases ok : error = .noError
  · have shorter := added.shorter ok
    have reads := added.reads ok
    have sameCrc := added.sameCrc rfl ok
    rw [← now, emitted] at reads
    by_cases full : kCrc ≤ next.buffer.length
    · simp only [ok, isBufferFull, full]
      refine .ok [.packetDone (next.crc.toNat == leValue next.buffer)] rfl shorter.1
        (fun nonempty => weight_lt (shorter.2 nonempty)) ?_ (.single_done s _)
      simpa [parser, phase, trailerField, not_lt.mpr full, sameCrc] using reads
    · have still : next.state = .findCrcEnd := added.state.trans here
      simp only [ok, isBufferFull, full]
      refine .ok [] ?_ shorter.1 (fun nonempty => weight_lt (shorter.2 nonempty)) ?_
        (.nil s)
      · simpa [WellFormed, still] using full
      · simpa [parser, phase, still, trailerField, not_le.mp full, sameCrc] using reads
  · have fails := added.fails ok
    rw [← now, emitted] at fails
    simp only [ne_eq, ok, not_false_eq_true, if_true]
    exact .failed [] [] ok
      (by simpa [show next.buffer.length < kCrc from added.short ok] using fails) (.nil s)

theorem Found.prepend {unframer next : Unframer} {input rest : Bytes} {s' : σ}
    {events : List StreamEvent} {result : FindResult σ} (found : Found stream s' next rest result)
    (shorter : rest.length < input.length)
    (reads : run unframer.parser input = (run next.parser rest).prepend events)
    (trace : stream.Trace s events s') : Found stream s unframer input result := by
  cases found with
  | ok _ formed le _ reads' trace' =>
    exact .ok _ formed (le.trans shorter.le) (fun _ => weight_lt (lt_of_le_of_lt le shorter))
      (by rw [reads, reads', RunResult.prepend_prepend]) (trace.append trace')
  | failed kept lost isError fails trace' =>
    exact .failed (events ++ kept) lost isError
      (by rw [reads, fails]; simp [RunResult.prepend]) (trace.append trace')

theorem findPacketCrcLoop_found (passes : Nat) (unframer : Unframer) (input : Bytes)
    (enough : input.length < passes) (here : unframer.state = .findPacketCrc)
    (formed : unframer.WellFormed) (takes : stream.Takes s (run unframer.parser input).events) :
    Found stream s unframer input (findPacketCrcLoop stream passes unframer input s) := by
  induction passes generalizing unframer input s with
  | zero => omega
  | succ passes ih =>
    have empty : unframer.buffer = [] := by simpa [WellFormed, here] using formed
    unfold findPacketCrcLoop
    by_cases complete : unframer.numPayloadBytesRemaining = 0
    · simp only [complete, if_true]
      refine .ok [] (by simp [WellFormed, empty, kCrc]) le_rfl (fun _ => ?_) ?_
        (.nil s)
      · simp [weight, here]
      · simp [parser, phase, here, Phase.beginPayload, complete, empty]
    · set size := min unframer.numPayloadBytesRemaining kUnframerBufferBytes with sizeDef
      have bounded : size ≤ unframer.numPayloadBytesRemaining := min_le_left _ _
      have room : unframer.buffer.length < (payloadField unframer.numPayloadBytesRemaining
          size).size := by
        simp only [empty, List.length_nil, payloadField]
        exact lt_min (Nat.pos_of_ne_zero complete) (by decide)
      have now : unframer.parser = ⟨unframer.sawEscapeStart,
          (payloadField unframer.numPayloadBytesRemaining size).phase unframer.buffer
            unframer.crc⟩ := by
        simp [parser, phase, here, payloadField, empty]
      simp only [complete, if_false]
      rcases result : unframer.addToBuffer input size true with ⟨error, next, rest⟩
      obtain ⟨stored, added⟩ :=
        addToBuffer_added (payloadField_collects bounded) unframer input room result
      have bufferEq : next.buffer = stored := by simpa [empty] using added.buffer
      by_cases ok : error = .noError
      · have reads := added.reads ok
        rw [← now, payloadField_emitAll, bufferEq] at reads
        simp only [ok, ne_eq, not_true_eq_false, if_false, empty, bufferEq, List.length_nil]
        have still : next.state = .findPacketCrc := added.state.trans here
        by_cases none : stored = []
        · -- only escape bytes were left of this piece
          simp only [none, List.length_nil, if_true]
          refine .ok [] (by simpa [WellFormed, still, bufferEq] using none) (added.shorter ok).1
            (fun nonempty => weight_lt ((added.shorter ok).2 nonempty)) ?_ (.nil s)
          rw [reads]
          simp [parser, phase, still, added.remaining, payloadField, none]
        · -- the buffer is handed downstream and the loop goes on
          have some : ¬0 = stored.length :=
            fun zero => none (List.eq_nil_of_length_eq_zero zero.symm)
          have nonempty : input ≠ [] := by
            rintro rfl
            have visible := congrArg RunResult.events reads
            simp [none] at visible
          have takesStored : stream.Takes s (stored.map .byte) := by
            rw [reads] at takes
            exact takes.left
          have fits : stored.length ≤ WriteStream.kStagingBytes := by
            rw [← bufferEq]
            exact added.fits.trans (min_le_right _ _)
          obtain ⟨noError, consumed, trace⟩ := WriteStream.writeAll_of_takes fits takesStored
          simp only [some, if_false, noError, not_true_eq_false]
          have shorter := (added.shorter ok).2 nonempty
          have onward : run unframer.parser input =
              (run (WireParser.mk next.sawEscapeStart (.beginPayload
                (unframer.numPayloadBytesRemaining - stored.length) next.crc)) rest).prepend
                  (stored.map .byte) := reads
          have after : ({ next with
              buffer := stored
              numPayloadBytesRemaining := next.numPayloadBytesRemaining -
                (stream.writeAll s stored).bytesConsumed } : Unframer).clearBuffer.parser =
              ⟨next.sawEscapeStart, .beginPayload
                (unframer.numPayloadBytesRemaining - stored.length) next.crc⟩ := by
            simp [parser, phase, clearBuffer, still, added.remaining, consumed]
          rw [← after] at onward
          refine Found.prepend (ih _ rest (by omega) still ?_ ?_) shorter onward trace
          · simp [WellFormed, clearBuffer, still]
          · rw [onward] at takes
            exact takes.right trace
      · have fails := added.fails ok
        rw [← now, payloadField_emitAll] at fails
        simp only [ne_eq, ok, not_false_eq_true, if_true]
        exact .failed [] _ ok (by simpa using fails) (.nil s)

theorem find_found (unframer : Unframer) (input : Bytes) (formed : unframer.WellFormed)
    (takes : stream.Takes s (run unframer.parser input).events) :
    Found stream s unframer input (unframer.find stream input s) := by
  unfold find
  cases here : unframer.state with
  | findPacketStart => exact findPacketStart_found unframer input here formed
  | findPacketLength => exact findPacketLength_found unframer input here formed
  | findPacketCrc =>
    exact findPacketCrcLoop_found _ unframer input (Nat.lt_succ_self _) here formed takes
  | findCrcEnd => exact findCrcEnd_found unframer input here formed

/-- A `FindResult` of the whole `Write` loop: the input has been read up to its end or up to
the first error. -/
inductive WriteFound (stream : WriteStream σ) (s : σ) (unframer : Unframer) (input : Bytes) :
    FindResult σ → Prop where
  | ok {next : Unframer} {s' : σ} (events : List StreamEvent) :
      next.WellFormed → Reads unframer.parser input events next.parser →
      stream.Trace s events s' →
      WriteFound stream s unframer input ⟨.noError, next, [], some 0, s'⟩
  | failed {error : CrtError} {next : Unframer} {rest : Bytes} {s' : σ}
      (kept : List StreamEvent) (lost : Bytes) :
      error ≠ .noError →
      run unframer.parser input =
        ⟨kept ++ lost.map .byte, error, ⟨next.sawEscapeStart, .hunting⟩, rest⟩ →
      stream.Trace s kept s' →
      WriteFound stream s unframer input ⟨error, next, rest, some 0, s'⟩

theorem writeLoop_found (passes : Nat) (unframer : Unframer) (input : Bytes)
    (enough : unframer.weight input ≤ passes) (formed : unframer.WellFormed)
    (takes : stream.Takes s (run unframer.parser input).events) :
    WriteFound stream s unframer input (writeLoop stream passes unframer input s) := by
  induction passes generalizing unframer input s with
  | zero =>
    have empty : input = [] := by
      apply List.eq_nil_of_length_eq_zero
      unfold weight at enough
      omega
    subst empty
    exact .ok [] formed (.nil _) (.nil s)
  | succ passes ih =>
    unfold writeLoop
    by_cases empty : input = []
    · subst empty
      exact .ok [] formed (.nil _) (.nil s)
    · simp only [empty, if_false]
      have found := find_found unframer input formed takes
      generalize unframer.find stream input s = result at found
      cases found with
      | @ok next rest s' events formed' le lighter reads trace =>
        simp only [ne_eq, not_true_eq_false, if_false]
        rw [reads] at takes
        have loop := ih next rest (by have := lighter empty; omega) formed' (takes.right trace)
        generalize writeLoop stream passes next rest s' = final at loop
        cases loop with
        | ok _ formed'' reads' trace' =>
          exact .ok _ formed'' (by rw [Reads, reads, reads']; rfl) (trace.append trace')
        | failed kept lost isError fails trace' =>
          exact .failed (events ++ kept) lost isError
            (by rw [reads, fails]; simp [RunResult.prepend]) (trace.append trace')
      | failed kept lost isError fails trace =>
        simp only [ne_eq, isError, not_false_eq_true, if_true]
        exact .failed kept lost isError fails trace

/-- What one call of `Write` has to do with reading `data` byte by byte. -/
structure WriteRefines (stream : WriteStream σ) (s : σ) (unframer : Unframer) (data : Bytes)
    (result : WriteResult σ) : Prop where
  wellFormed : result.unframer.WellFormed
  error : result.error = (run unframer.parser data).error
  parser : result.unframer.parser = (run unframer.parser data).parser
  bytesConsumed : result.bytesConsumed =
    some ((data.length : Int) - (run unframer.parser data).rest.length)
  trace : ∃ kept lost, (run unframer.parser data).events = kept ++ lost.map .byte ∧
    stream.Trace s kept result.stream ∧ (result.error = .noError → lost = [])
  all_read : result.error = .noError → (run unframer.parser data).rest = []

theorem write_refines (unframer : Unframer) (data : Bytes) (formed : unframer.WellFormed)
    (takes : stream.Takes s (run unframer.parser data).events) :
    WriteRefines stream s unframer data (unframer.write stream s data) := by
  have found := writeLoop_found (2 * data.length + 1) unframer data
    (by unfold weight; split <;> omega) formed takes
  unfold write
  generalize writeLoop stream (2 * data.length + 1) unframer data s = result at found
  cases found with
  | ok _ formed' reads trace =>
    rw [Reads] at reads
    exact
      { wellFormed := by simpa using formed'
        error := by simp [reads]
        parser := by simp [reads]
        bytesConsumed := by simp [reads]
        trace := ⟨_, [], by simp [reads], trace, fun _ => rfl⟩
        all_read := fun _ => by simp [reads] }
  | failed _ _ isError fails trace =>
    exact
      { wellFormed := by simp [isError, WellFormed]
        error := by simp [fails]
        parser := by rw [fails]; simp [isError, Unframer.parser, phase]
        bytesConsumed := by simp [fails]
        trace := ⟨_, _, by rw [fails], trace, fun noError => absurd noError isError⟩
        all_read := fun noError => absurd noError isError }

end Unframer

end Tvm.MicroRpc
