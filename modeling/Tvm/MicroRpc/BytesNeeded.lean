import Tvm.MicroRpc.Resync

/-!
# How many bytes an unframer asks for

`BytesNeeded` is compared with the data bytes that are missing from the packet: every wire
byte brings at most one of them.  It is zero only when the packet goes on behind a length
field that announces no payload.
-/

namespace Tvm.MicroRpc

open Tvm.Lib Tvm.Crt WireParser

universe u

namespace Unframer

def bytesNeeded (unframer : Unframer) : Nat :=
  let rest (bytesNeeded : Nat) :=
    if unframer.buffer.length < bytesNeeded then bytesNeeded - unframer.buffer.length else 0
  match unframer.state with
  | .findPacketStart => 1
  | .findPacketLength => rest kPayloadLength
  | .findPacketCrc => unframer.numPayloadBytesRemaining
  | .findCrcEnd => rest kCrc

end Unframer

/-- The data bytes that the fields begun are still short of. -/
def Phase.missing : Phase → Nat
  | .hunting => 0
  | .length got _ => kPayloadLength - got.length
  | .payload remaining _ => remaining
  | .trailer got _ => kCrc - got.length

theorem Phase.missing_skip (phase : Phase) (c : UInt8) :
    (phase.skip c).missing = phase.missing := by
  cases phase <;> rfl

theorem Phase.missing_beginPayload (remaining : Nat) (crc : UInt16) :
    remaining ≤ (Phase.beginPayload remaining crc).missing := by
  by_cases complete : remaining = 0
  · rw [complete]
    exact Nat.zero_le _
  · rw [beginPayload, if_neg complete, missing]

theorem Phase.missing_store (phase : Phase) (c : UInt8) :
    phase.missing ≤ (phase.store c).1.missing + 1 := by
  cases phase with
  | hunting => exact Nat.zero_le _
  | length got crc =>
    simp only [store]
    split_ifs with more
    · simp only [missing, List.length_append, List.length_singleton]
      omega
    · simp only [missing]
      omega
  | payload remaining crc =>
    have rest := missing_beginPayload (remaining - 1) (crc16Compute [c] (some crc))
    change remaining ≤ (beginPayload (remaining - 1) (crc16Compute [c] (some crc))).missing + 1
    omega
  | trailer got crc =>
    simp only [store]
    split_ifs with more
    · simp only [missing, List.length_append, List.length_singleton]
      omega
    · simp only [missing]
      omega

namespace WireParser

theorem missing_step {parser next : WireParser} {c : UInt8} {events : List StreamEvent}
    (stepped : parser.step c = .next next events) :
    parser.phase.missing ≤ next.phase.missing + 1 := by
  unfold step at stepped
  split_ifs at stepped with hunting
  · rw [hunting]
    exact Nat.zero_le _
  · cases meaning : unescape parser.sawEscape c with
    | skip sawEscape =>
      simp only [meaning, ByteResult.next.injEq] at stepped
      rw [← stepped.1, Phase.missing_skip]
      exact Nat.le_succ _
    | data =>
      simp only [meaning, ByteResult.next.injEq] at stepped
      rw [← stepped.1]
      exact parser.phase.missing_store c
    | shortPacket => simp only [meaning, reduceCtorEq] at stepped
    | invalidEscape => simp only [meaning, reduceCtorEq] at stepped

theorem missing_reads {parser next : WireParser} {data : Bytes} {events : List StreamEvent}
    (reads : Reads parser data events next) :
    parser.phase.missing ≤ next.phase.missing + data.length := by
  induction data generalizing parser events with
  | nil =>
    have same : parser = next := congrArg RunResult.parser reads
    rw [same]
    exact Nat.le_add_right _ _
  | cons c rest ih =>
    rw [Reads, run_cons] at reads
    cases stepped : parser.step c with
    | next middle visible =>
      rw [stepped] at reads
      have tail : Reads middle rest (run middle rest).events next := by
        rw [Reads]
        cases result : run middle rest
        simp_all [RunResult.prepend]
      have first := missing_step stepped
      have later := ih tail
      rw [List.length_cons]
      omega
    | shortPacket => simp [stepped] at reads
    | invalidEscape => simp [stepped] at reads

end WireParser

namespace Unframer

/-- The length field is complete and announces no payload, and nothing has been read since. -/
def AtEmptyPayload (unframer : Unframer) : Prop :=
  unframer.state = .findPacketCrc ∧ unframer.numPayloadBytesRemaining = 0

theorem bytesNeeded_pos {unframer : Unframer} (formed : unframer.WellFormed)
    (not_empty : ¬ unframer.AtEmptyPayload) : 1 ≤ unframer.bytesNeeded := by
  unfold bytesNeeded
  unfold WellFormed at formed
  cases state : unframer.state with
  | findPacketStart => exact le_rfl
  | findPacketLength =>
    simp only [state] at formed
    simp only [formed, if_true]
    omega
  | findPacketCrc => exact Nat.pos_of_ne_zero fun zero => not_empty ⟨state, zero⟩
  | findCrcEnd =>
    simp only [state] at formed
    simp only [formed, if_true]
    omega

theorem bytesNeeded_le (unframer : Unframer) :
    unframer.state = .findPacketStart ∨ unframer.bytesNeeded ≤ unframer.phase.missing := by
  unfold bytesNeeded phase
  cases state : unframer.state with
  | findPacketStart => exact .inl rfl
  | findPacketLength =>
    right
    simp only [Phase.missing]
    split_ifs <;> omega
  | findPacketCrc => exact .inr (Phase.missing_beginPayload _ _)
  | findCrcEnd =>
    right
    simp only [Phase.missing]
    split_ifs <;> omega

variable {σ : Type u} {stream : WriteStream σ} {s : σ}

/-- Nothing of the payload of the current packet has been read. -/
def BeforePayload (unframer : Unframer) : Prop :=
  unframer.state = .findPacketStart ∨ unframer.state = .findPacketLength ∨
    unframer.AtEmptyPayload

def EndsDone (events : List StreamEvent) : Prop :=
  ∃ earlier valid, events = earlier ++ [.packetDone valid]

/-- Where a reading arrives before a payload, no byte of a payload became visible last. -/
def Quiet (unframer : Unframer) (events : List StreamEvent) (next : Unframer) : Prop :=
  next.BeforePayload → (unframer.BeforePayload ∧ events = []) ∨ EndsDone events

theorem Quiet.trans {unframer middle next : Unframer} {first second : List StreamEvent}
    (earlier : Quiet unframer first middle) (later : Quiet middle second next) :
    Quiet unframer (first ++ second) next := by
  intro before
  rcases later before with ⟨middle_before, rfl⟩ | ⟨rest, valid, rfl⟩
  · rw [List.append_nil]
    exact earlier middle_before
  · exact .inr ⟨first ++ rest, valid, (List.append_assoc _ _ _).symm⟩

theorem Found.reads {unframer : Unframer} {input : Bytes} {result : FindResult σ}
    (found : Found stream s unframer input result) (noError : result.error = .noError) :
    ∃ events, run unframer.parser input = (run result.unframer.parser result.input).prepend events ∧
      stream.Trace s events result.stream := by
  cases found with
  | ok events _ _ _ reads trace => exact ⟨events, reads, trace⟩
  | failed _ _ isError => exact absurd noError isError

theorem findPacketCrcLoop_inPayload (passes : Nat) (unframer : Unframer) (input : Bytes)
    (enough : input.length < passes) (here : unframer.state = .findPacketCrc)
    (formed : unframer.WellFormed)
    (noError : (findPacketCrcLoop stream passes unframer input s).error = .noError) :
    ¬ (findPacketCrcLoop stream passes unframer input s).unframer.BeforePayload := by
  induction passes generalizing unframer input s with
  | zero => omega
  | succ passes ih =>
    have empty : unframer.buffer = [] := by simpa [WellFormed, here] using formed
    unfold findPacketCrcLoop at noError ⊢
    by_cases complete : unframer.numPayloadBytesRemaining = 0
    · simp [complete, BeforePayload, AtEmptyPayload]
    · set size := min unframer.numPayloadBytesRemaining kUnframerBufferBytes with sizeDef
      have room : unframer.buffer.length < (payloadField unframer.numPayloadBytesRemaining
          size).size := by
        simp only [empty, List.length_nil, payloadField]
        exact lt_min (Nat.pos_of_ne_zero complete) (by decide)
      simp only [complete, if_false] at noError ⊢
      rcases result : unframer.addToBuffer input size true with ⟨error, next, rest⟩
      obtain ⟨stored, added⟩ := addToBuffer_added
        (payloadField_collects (min_le_left _ _ : size ≤ _)) unframer input room result
      have still : next.state = .findPacketCrc := added.state.trans here
      simp only [result] at noError ⊢
      by_cases ok : error = .noError
      · simp only [ok, ne_eq, not_true_eq_false, if_false] at noError ⊢
        by_cases none : unframer.buffer.length = next.buffer.length
        · simp [none, BeforePayload, AtEmptyPayload, still, added.remaining, complete]
        · simp only [none, if_false] at noError ⊢
          by_cases written : (stream.writeAll s next.buffer).error = .noError
          · simp only [written, not_true_eq_false, if_false] at noError ⊢
            have nonempty : input ≠ [] := by
              rintro rfl
              have visible := congrArg RunResult.events (added.reads ok)
              have bufferEq : next.buffer = stored := by simpa [empty] using added.buffer
              rw [payloadField_emitAll, ← bufferEq] at visible
              simp only [run_nil, RunResult.prepend_events] at visible
              have nothing := (List.append_eq_nil_iff.mp visible.symm).1
              rw [List.map_eq_nil_iff] at nothing
              exact none (by rw [nothing, empty])
            have shorter := (added.shorter ok).2 nonempty
            exact ih _ rest (by omega) still (by simp [WellFormed, clearBuffer, still]) noError
          · simp [written] at noError
      · simp [ok] at noError

theorem find_header (unframer : Unframer) (input : Bytes) (formed : unframer.WellFormed)
    (header : unframer.state = .findPacketStart ∨ unframer.state = .findPacketLength)
    (noError : (unframer.find stream input s).error = .noError) :
    run unframer.parser input =
      run (unframer.find stream input s).unframer.parser (unframer.find stream input s).input := by
  have found : Found WriteStream.sink.logged ((), []) unframer input _ :=
    find_found unframer input formed (WriteStream.sink_accepts.logged.takes _ _)
  have same : (unframer.find WriteStream.sink.logged input ((), [])).error =
        (unframer.find stream input s).error ∧
      (unframer.find WriteStream.sink.logged input ((), [])).unframer =
        (unframer.find stream input s).unframer ∧
      (unframer.find WriteStream.sink.logged input ((), [])).input =
        (unframer.find stream input s).input ∧
      (unframer.find WriteStream.sink.logged input ((), [])).stream = ((), []) := by
    unfold find
    rcases header with start | length
    · simp [start, findPacketStart]
    · simp only [length, findPacketLength]
      split_ifs <;> simp
  obtain ⟨events, reads, trace⟩ := found.reads (same.1.trans noError)
  have silent := trace.log
  rw [same.2.2.2] at silent
  have nothing : events = [] := silent.symm
  rw [nothing, RunResult.prepend_nil, same.2.1, same.2.2.1] at reads
  exact reads

theorem find_quiet (accepts : stream.Accepts) (unframer : Unframer) (input : Bytes)
    (formed : unframer.WellFormed) (noError : (unframer.find stream input s).error = .noError) :
    ∃ events, run unframer.parser input = (run (unframer.find stream input s).unframer.parser
        (unframer.find stream input s).input).prepend events ∧
      Quiet unframer events (unframer.find stream input s).unframer := by
  have silent (header : unframer.state = .findPacketStart ∨ unframer.state = .findPacketLength) :
      ∃ events, run unframer.parser input = (run (unframer.find stream input s).unframer.parser
          (unframer.find stream input s).input).prepend events ∧
        Quiet unframer events (unframer.find stream input s).unframer := by
    refine ⟨[], ?_, fun _ => .inl ⟨?_, rfl⟩⟩
    · rw [RunResult.prepend_nil]
      exact find_header unframer input formed header noError
    · exact header.imp id .inl
  have found : Found stream s unframer input _ := find_found unframer input formed (accepts.takes _ _)
  cases here : unframer.state with
  | findPacketStart => exact silent (.inl here)
  | findPacketLength => exact silent (.inr here)
  | findPacketCrc =>
    obtain ⟨events, reads, _⟩ := found.reads noError
    refine ⟨events, reads, fun before => ?_⟩
    simp only [find, here] at before noError
    exact absurd before
      (findPacketCrcLoop_inPayload _ unframer input (Nat.lt_succ_self _) here formed noError)
  | findCrcEnd =>
    have logged : Found stream.logged (s, []) unframer input _ :=
      find_found unframer input formed (accepts.logged.takes _ _)
    have same : (unframer.find stream.logged input (s, [])).error =
          (unframer.find stream input s).error ∧
        (unframer.find stream.logged input (s, [])).unframer =
          (unframer.find stream input s).unframer ∧
        (unframer.find stream.logged input (s, [])).input =
          (unframer.find stream input s).input ∧
        ((unframer.find stream input s).unframer.BeforePayload →
          EndsDone (unframer.find stream.logged input (s, [])).stream.2) := by
      have kept : ∀ next : Unframer, next.state = unframer.state → ¬ next.BeforePayload := by
        intro next still before
        simp [BeforePayload, AtEmptyPayload, still, here] at before
      simp only [find, here, findCrcEnd] at noError ⊢
      rcases result : unframer.addToBuffer input kCrc false with ⟨error, next, rest⟩
      obtain ⟨stored, added⟩ := addToBuffer_added (trailerField_collects unframer.crc) unframer
        input (by simpa [WellFormed, here, trailerField] using formed) result
      simp only [result] at noError ⊢
      split_ifs
      · exact ⟨rfl, rfl, rfl, fun before => absurd before (kept next added.state)⟩
      · exact ⟨rfl, rfl, rfl, fun before => absurd before (kept next added.state)⟩
      · exact ⟨rfl, rfl, rfl, fun _ => ⟨[], _, rfl⟩⟩
    obtain ⟨events, reads, trace⟩ := logged.reads (same.1.trans noError)
    have visible := trace.log
    rw [List.nil_append] at visible
    rw [same.2.1, same.2.2.1] at reads
    refine ⟨events, reads, fun before => .inr ?_⟩
    rw [← visible]
    exact same.2.2.2 before

theorem writeLoop_quiet (accepts : stream.Accepts) (passes : Nat) (unframer : Unframer)
    (input : Bytes) (enough : unframer.weight input ≤ passes) (formed : unframer.WellFormed)
    (noError : (writeLoop stream passes unframer input s).error = .noError) :
    ∃ events, Reads unframer.parser input events
        (writeLoop stream passes unframer input s).unframer.parser ∧
      Quiet unframer events (writeLoop stream passes unframer input s).unframer := by
  induction passes generalizing unframer input s with
  | zero =>
    have empty : input = [] := by
      apply List.eq_nil_of_length_eq_zero
      unfold weight at enough
      omega
    subst empty
    exact ⟨[], .nil _, fun before => .inl ⟨before, rfl⟩⟩
  | succ passes ih =>
    unfold writeLoop at noError ⊢
    by_cases empty : input = []
    · subst empty
      exact ⟨[], .nil _, fun before => .inl ⟨before, rfl⟩⟩
    · simp only [empty, if_false] at noError ⊢
      by_cases ok : (unframer.find stream input s).error = .noError
      · simp only [ok, ne_eq, not_true_eq_false, if_false] at noError ⊢
        have lighter : (unframer.find stream input s).unframer.weight
            (unframer.find stream input s).input < unframer.weight input := by
          have found : Found stream s unframer input (unframer.find stream input s) :=
            find_found unframer input formed (accepts.takes _ _)
          generalize unframer.find stream input s = result at found ok
          cases found with
          | ok _ _ _ lighter => exact lighter empty
          | failed _ _ isError => exact absurd ok isError
        obtain ⟨first, reads, quiet⟩ := find_quiet accepts unframer input formed ok
        obtain ⟨second, reads', quiet'⟩ := ih _ _ (by omega)
          (find_wellFormed unframer input formed ok) noError
        refine ⟨first ++ second, ?_, quiet.trans quiet'⟩
        rw [Reads, reads, reads']
        rfl
      · simp [ok] at noError

theorem write_quiet (accepts : stream.Accepts) (unframer : Unframer) (data : Bytes)
    (formed : unframer.WellFormed) (noError : (unframer.write stream s data).error = .noError) :
    ∃ events, Reads unframer.parser data events (unframer.write stream s data).unframer.parser ∧
      Quiet unframer events (unframer.write stream s data).unframer := by
  have ok : (writeLoop stream (2 * data.length + 1) unframer data s).error = .noError := noError
  have quiet := writeLoop_quiet accepts (2 * data.length + 1) unframer data
    (by unfold weight; split <;> omega) formed ok
  simpa only [write, ok, ne_eq, not_true_eq_false, if_false] using quiet

theorem writePieces_quiet (accepts : stream.Accepts) (pieces : List Bytes) (unframer : Unframer)
    {events : List StreamEvent} {parser' : WireParser} (formed : unframer.WellFormed)
    (reads : Reads unframer.parser pieces.flatten events parser') :
    Quiet unframer events (unframer.writePieces stream s pieces).unframer := by
  induction pieces generalizing unframer s events with
  | nil =>
    have nothing : ([] : List StreamEvent) = events := congrArg RunResult.events reads
    rw [← nothing]
    exact fun before => .inl ⟨before, rfl⟩
  | cons piece pieces ih =>
    rw [List.flatten_cons] at reads
    obtain ⟨first, middle, second, here, later, rfl⟩ := reads.split
    obtain ⟨noError, _, formed', parserEq, _⟩ :=
      write_of_reads unframer piece formed here (accepts.takes s first)
    obtain ⟨events, reads', quiet⟩ := write_quiet accepts unframer piece formed noError
    have same : first = events := congrArg RunResult.events (here.symm.trans reads')
    rw [← parserEq] at later
    rw [← same] at quiet
    exact quiet.trans (ih _ formed' later)

end Unframer

namespace WireParser

theorem Reads.trailer_events {sawEscape : Bool} {got data : Bytes} {crc : UInt16}
    {events : List StreamEvent} {next : WireParser}
    (reads : Reads ⟨sawEscape, .trailer got crc⟩ data events next) (ended : next.phase = .hunting) :
    ∃ valid rest, events = .packetDone valid :: rest := by
  induction data generalizing sawEscape got events with
  | nil =>
    have same : (⟨sawEscape, .trailer got crc⟩ : WireParser) = next :=
      congrArg RunResult.parser reads
    rw [← same] at ended
    cases ended
  | cons c rest ih =>
    rw [Reads, run_cons] at reads
    cases meaning : unescape sawEscape c with
    | skip sawEscape' =>
      simp only [step, reduceCtorEq, if_false, meaning, Phase.skip] at reads
      exact ih reads
    | data =>
      by_cases more : got.length + 1 < kCrc
      · simp only [step, reduceCtorEq, if_false, meaning, Phase.store, more, if_true] at reads
        exact ih reads
      · simp only [step, reduceCtorEq, if_false, meaning, Phase.store, more] at reads
        have visible := congrArg RunResult.events reads
        simp only [RunResult.prepend_events, List.singleton_append] at visible
        exact ⟨_, _, visible.symm⟩
    | shortPacket => simp [step, meaning] at reads
    | invalidEscape => simp [step, meaning] at reads

end WireParser

def emptyTrailer : Bytes := escapeBytes (leBytes kCrc (frameCrc []).toNat)

def Phase.beginsTrailer : Phase → Bool
  | .trailer [] _ => true
  | _ => false

def packetWire (state : Framer.State) (payload : Bytes) : Bytes :=
  framePreamble state ++ frame payload

def stateAfter (state : Framer.State) (before : List Bytes) : Framer.State :=
  if before = [] then state else .idle

theorem frameAll_append (state : Framer.State) (before : List Bytes) (payload : Bytes) :
    frameAll state (before ++ [payload]) =
      frameAll state before ++ packetWire (stateAfter state before) payload := by
  induction before generalizing state with
  | nil => simp [frameAll, packetWire, stateAfter]
  | cons first before ih =>
    have later : stateAfter .idle before = stateAfter state (first :: before) := by
      by_cases none : before = [] <;> simp [stateAfter, none]
    rw [List.cons_append, frameAll, ih, later, frameAll, ← List.append_assoc]

theorem emptyPacket_cut (sawEscape : Bool) (state : Framer.State) {received missing : Bytes}
    (cut : received ++ missing = packetWire state []) {events : List StreamEvent}
    {next : WireParser} (reads : Reads ⟨sawEscape, .hunting⟩ received events next)
    (begins : next.phase.beginsTrailer) : missing = emptyTrailer := by
  have cuts : ∀ reset sawEscape : Bool, ∀ count ∈ List.range 12,
      (run ⟨sawEscape, .hunting⟩ ((packetWire (if reset then .reset else .idle) []).take
        count)).parser.phase.beginsTrailer →
      (packetWire (if reset then .reset else .idle) []).drop count = emptyTrailer := by
    decide +kernel
  have short : ∀ reset : Bool,
      (packetWire (if reset then .reset else .idle) []).length < 12 := by
    decide +kernel
  have same : packetWire state [] =
      packetWire (if (state == .reset) = true then .reset else .idle) [] := by
    cases state <;> rfl
  rw [same] at cut
  have taken := congrArg (List.take received.length) cut
  have dropped := congrArg (List.drop received.length) cut
  have total := congrArg List.length cut
  rw [List.take_left] at taken
  rw [List.drop_left] at dropped
  rw [List.length_append] at total
  rw [dropped]
  have bound := short (state == .reset)
  apply cuts (state == .reset) sawEscape received.length (List.mem_range.mpr (by omega))
  rw [← taken, reads]
  exact begins

namespace Unframer

variable {σ : Type u} {stream : WriteStream σ}

/-- Behind `received` bytes of a packet, with its whole payload in them and nothing of its
trailer. -/
theorem atEmptyPayload_cut (accepts : stream.Accepts) (s : σ) (unframer : Unframer)
    (formed : unframer.WellFormed) (idle : unframer.state = .findPacketStart)
    (state : Framer.State) (before : List Bytes) (payload : Bytes)
    (short : ∀ packet ∈ before ++ [payload], packet.length < 2 ^ 32) (pieces : List Bytes)
    (missing : Bytes) (cut : pieces.flatten ++ missing = frameAll state (before ++ [payload]))
    (current : missing.length ≤ (packetWire (stateAfter state before) payload).length)
    (here : (unframer.writePieces stream s pieces).unframer.AtEmptyPayload) :
    payload = [] ∧ missing = emptyTrailer := by
  have start : unframer.parser = ⟨unframer.sawEscapeStart, .hunting⟩ := by
    simp [parser, phase, idle]
  -- the packets before and the part of the last packet that has been received
  rw [frameAll_append] at cut
  obtain ⟨received, flat, whole⟩ : ∃ received, pieces.flatten = frameAll state before ++ received ∧
      received ++ missing = packetWire (stateAfter state before) payload := by
    rcases List.append_eq_append_iff.mp cut with ⟨rest, wire, missing_eq⟩ | ⟨rest, flat, whole⟩
    · have longer := congrArg List.length missing_eq
      rw [List.length_append] at longer
      have nothing : rest = [] := List.eq_nil_of_length_eq_zero (by omega)
      subst nothing
      exact ⟨[], by simpa using wire.symm, by simpa using missing_eq⟩
    · exact ⟨rest, flat, whole.symm⟩
  obtain ⟨saw, earlier⟩ := reads_frameAll state unframer.sawEscapeStart before
    fun packet member => short packet (List.mem_append_left _ member)
  obtain ⟨saw', preamble⟩ := reads_framePreamble (stateAfter state before) saw
  have packet := preamble.append (reads_frame saw' payload (short payload (by simp)))
  rw [List.nil_append] at packet
  change Reads _ (packetWire (stateAfter state before) payload) _ _ at packet
  rw [← whole] at packet
  obtain ⟨first, middle, second, reads, rest, events_eq⟩ := packet.split
  have all := earlier.append reads
  rw [← flat, ← start] at all
  obtain ⟨_, _, parser_eq, _⟩ := writePieces_of_reads pieces unframer formed all (accepts.takes s _)
  have quiet := writePieces_quiet (s := s) accepts pieces unframer formed all (.inr (.inr here))
  have phase_eq : middle.phase =
      .trailer [] (unframer.writePieces stream s pieces).unframer.crc := by
    rw [← parser_eq]
    simp [parser, phase, here.1, here.2, Phase.beginPayload]
  -- what is missing begins with the end of the packet, so the payload has been received
  have trailing : middle = ⟨middle.sawEscape, .trailer [] (unframer.writePieces stream s
      pieces).unframer.crc⟩ := by
    rw [← phase_eq]
  rw [trailing] at rest
  obtain ⟨valid, later, second_eq⟩ := rest.trailer_events rfl
  have first_eq : first = payload.map .byte := by
    rw [second_eq] at events_eq
    rcases List.append_eq_append_iff.mp events_eq with ⟨c, first_eq, rest_eq⟩ | ⟨c, bytes, rest_eq⟩
    · cases c with
      | nil => simpa using first_eq
      | cons event c => simp at rest_eq
    · cases c with
      | nil => simpa using bytes.symm
      | cons event c =>
        obtain ⟨rfl, _⟩ := List.cons.inj rest_eq
        have member : StreamEvent.packetDone valid ∈ payload.map StreamEvent.byte := by
          rw [bytes]
          simp
        simp at member
  have none : payload = [] := by
    by_contra some
    obtain ⟨init, last, split⟩ := (List.eq_nil_or_concat' payload).resolve_left some
    rcases quiet with ⟨_, nothing⟩ | ⟨front, done, ends⟩
    · simp [first_eq, some] at nothing
    · have latest := congrArg List.getLast? ends
      simp [first_eq, split] at latest
  refine ⟨none, ?_⟩
  subst none
  exact emptyPacket_cut saw _ whole reads (by rw [phase_eq]; rfl)

end Unframer

/-- While packets are received in any pieces, and not just behind the length field of a packet
without payload, the unframer asks for a byte, and for no more than the current packet is
still short of. -/
theorem bytesNeeded_bounds {σ : Type u} (down : WriteStream σ) (accepts : down.Accepts) (s : σ)
    (unframer : Unframer) (formed : unframer.WellFormed)
    (idle : unframer.state = .findPacketStart) (state : Framer.State) (before : List Bytes)
    (payload : Bytes) (short : ∀ packet ∈ before ++ [payload], packet.length < 2 ^ 32)
    (pieces : List Bytes) (missing : Bytes)
    (cut : pieces.flatten ++ missing = frameAll state (before ++ [payload]))
    (inside : missing ≠ [])
    (current : missing.length ≤ (packetWire (stateAfter state before) payload).length)
    (elsewhere : ¬ (payload = [] ∧ missing = emptyTrailer)) :
    1 ≤ (unframer.writePieces down s pieces).unframer.bytesNeeded ∧
      (unframer.writePieces down s pieces).unframer.bytesNeeded ≤ missing.length := by
  have start : unframer.parser = ⟨unframer.sawEscapeStart, .hunting⟩ := by
    simp [Unframer.parser, Unframer.phase, idle]
  obtain ⟨saw, all⟩ := reads_frameAll state unframer.sawEscapeStart (before ++ [payload]) short
  rw [← cut, ← start] at all
  obtain ⟨first, middle, second, reads, rest, _⟩ := all.split
  obtain ⟨_, formed', parser_eq, _⟩ :=
    Unframer.writePieces_of_reads pieces unframer formed reads (accepts.takes s _)
  constructor
  · apply Unframer.bytesNeeded_pos formed'
    intro here
    exact elsewhere (Unframer.atEmptyPayload_cut accepts s unframer formed idle state before
      payload short pieces missing cut current here)
  · rcases Unframer.bytesNeeded_le (unframer.writePieces down s pieces).unframer with hunts | few
    · rw [Unframer.bytesNeeded, hunts]
      exact List.length_pos_iff.mpr inside
    · have reached := missing_reads rest
      rw [← parser_eq] at reached
      exact few.trans (reached.trans (by simp [Phase.missing]))

/-- In the middle of a packet with an escaped payload byte. -/
theorem bytesNeeded_bounds_escape :
    1 ≤ (Unframer.new.writePieces WriteStream.sink ()
        [[0xff, 0xfd, 2, 0], [0, 0, 0xff]]).unframer.bytesNeeded ∧
      (Unframer.new.writePieces WriteStream.sink ()
        [[0xff, 0xfd, 2, 0], [0, 0, 0xff]]).unframer.bytesNeeded ≤
          ((frameAll .idle [[0xff, 1]]).drop 7).length :=
  bytesNeeded_bounds WriteStream.sink WriteStream.sink_accepts () Unframer.new
    Unframer.new_wellFormed rfl .idle [] [0xff, 1] (by simp) _ _ (by decide +kernel)
    (by decide +kernel) (by decide +kernel) (by simp)

/-- Behind the length field of a packet without payload the unframer asks for nothing, with
the trailer still to come. -/
theorem bytesNeeded_stalls :
    [[0xff, 0xfd], [0, 0, 0, 0]].flatten ++ emptyTrailer = frameAll .idle [[]] ∧
      emptyTrailer ≠ [] ∧
      ¬ 1 ≤ (Unframer.new.writePieces WriteStream.sink ()
        [[0xff, 0xfd], [0, 0, 0, 0]]).unframer.bytesNeeded := by
  decide +kernel

end Tvm.MicroRpc
