import Tvm.MicroRpc.RoundTrip

/-!
# Finding the next packet

Whatever an unframer has been fed, the escape-nop and the start sequence that a reset
framer puts in front of a packet bring it back in step.  The escape-nop may still be
taken for a byte of the interrupted packet, so one byte or one `PacketDone` of that
packet can come first.
-/

namespace Tvm.MicroRpc

open Tvm.Lib Tvm.Crt WireParser

universe u v w

namespace Unframer

variable {σ : Type u} {stream : WriteStream σ} {s : σ}

/-- The unframers that arise by feeding a fresh one anything.  `stream` may refuse data. -/
inductive Reached (stream : WriteStream σ) : Unframer → σ → Prop where
  | new (s : σ) : Reached stream .new s
  | write {unframer : Unframer} {s : σ} (data : Bytes) :
      Reached stream unframer s →
      Reached stream (unframer.write stream s data).unframer (unframer.write stream s data).stream

theorem Found.wellFormed {unframer : Unframer} {input : Bytes} {result : FindResult σ}
    (found : Found stream s unframer input result) (noError : result.error = .noError) :
    result.unframer.WellFormed := by
  cases found with
  | ok _ formed => exact formed
  | failed _ _ isError => exact absurd noError isError

theorem findPacketCrcLoop_wellFormed (passes : Nat) (unframer : Unframer) (input : Bytes)
    (here : unframer.state = .findPacketCrc) (formed : unframer.WellFormed)
    (noError : (findPacketCrcLoop stream passes unframer input s).error = .noError) :
    (findPacketCrcLoop stream passes unframer input s).unframer.WellFormed := by
  induction passes generalizing unframer input s with
  | zero => exact formed
  | succ passes ih =>
    have empty : unframer.buffer = [] := by simpa [WellFormed, here] using formed
    unfold findPacketCrcLoop at noError ⊢
    by_cases complete : unframer.numPayloadBytesRemaining = 0
    · simp [complete, WellFormed, empty, kCrc]
    · set size := min unframer.numPayloadBytesRemaining kUnframerBufferBytes with sizeDef
      have room : unframer.buffer.length < (payloadField unframer.numPayloadBytesRemaining
          size).size := by
        simp only [empty, List.length_nil, payloadField]
        exact lt_min (Nat.pos_of_ne_zero complete) (by decide)
      simp only [complete, if_false] at noError ⊢
      rcases result : unframer.addToBuffer input size true with ⟨error, next, rest⟩
      obtain ⟨stored, added⟩ := addToBuffer_added
        (payloadField_collects (min_le_left _ _ : size ≤ _)) unframer input room result
      have still : next.state = .findPacketCrc := added.state.trans here
      simp only [result] at noError ⊢
      by_cases ok : error = .noError
      · simp only [ok, ne_eq, not_true_eq_false, if_false] at noError ⊢
        by_cases none : unframer.buffer.length = next.buffer.length
        · have nothing : next.buffer = [] :=
            List.eq_nil_of_length_eq_zero (by rw [← none, empty, List.length_nil])
          simp only [none, if_true]
          simpa [WellFormed, still] using nothing
        · simp only [none, if_false] at noError ⊢
          by_cases written : (stream.writeAll s next.buffer).error = .noError
          · simp only [written, not_true_eq_false, if_false] at noError ⊢
            exact ih _ rest still (by simp [WellFormed, clearBuffer, still]) noError
          · simp [written] at noError
      · simp [ok] at noError

theorem find_wellFormed (unframer : Unframer) (input : Bytes) (formed : unframer.WellFormed)
    (noError : (unframer.find stream input s).error = .noError) :
    (unframer.find stream input s).unframer.WellFormed := by
  unfold find at noError ⊢
  cases here : unframer.state with
  | findPacketStart =>
    simp only [here] at noError
    have found : Found stream s unframer input _ := findPacketStart_found unframer input here formed
    exact found.wellFormed noError
  | findPacketLength =>
    simp only [here] at noError
    have found : Found stream s unframer input _ := findPacketLength_found unframer input here formed
    exact found.wellFormed noError
  | findPacketCrc =>
    simp only [here] at noError
    exact findPacketCrcLoop_wellFormed _ unframer input here formed noError
  | findCrcEnd =>
    simp only [here] at noError
    exact (findCrcEnd_found unframer input here formed).wellFormed noError

theorem writeLoop_wellFormed (passes : Nat) (unframer : Unframer) (input : Bytes)
    (formed : unframer.WellFormed)
    (noError : (writeLoop stream passes unframer input s).error = .noError) :
    (writeLoop stream passes unframer input s).unframer.WellFormed := by
  induction passes generalizing unframer input s with
  | zero => exact formed
  | succ passes ih =>
    unfold writeLoop at noError ⊢
    by_cases empty : input = []
    · simpa [empty] using formed
    · simp only [empty, if_false] at noError ⊢
      by_cases ok : (unframer.find stream input s).error = .noError
      · simp only [ok, ne_eq, not_true_eq_false, if_false] at noError ⊢
        exact ih _ _ (find_wellFormed unframer input formed ok) noError
      · simp [ok] at noError

theorem write_wellFormed (unframer : Unframer) (data : Bytes) (formed : unframer.WellFormed) :
    (unframer.write stream s data).unframer.WellFormed := by
  unfold write
  by_cases ok : (writeLoop stream (2 * data.length + 1) unframer data s).error = .noError
  · simpa [ok] using writeLoop_wellFormed _ unframer data formed ok
  · simp [ok, WellFormed]

theorem Reached.wellFormed {unframer : Unframer} (reached : Reached stream unframer s) :
    unframer.WellFormed := by
  induction reached with
  | new s => exact new_wellFormed
  | write data _ formed => exact write_wellFormed _ data formed

variable (stream)

/-- `Write` and, after each error, `Write` again with what was not consumed.  `none` if this
does not come to an end within `calls` calls, or the count of consumed bytes has wrapped. -/
def feed : Nat → Unframer → σ → Bytes → Option (Unframer × σ)
  | 0, _, _, _ => none
  | calls + 1, unframer, s, data =>
    let written := unframer.write stream s data
    if written.error = .noError then some (written.unframer, written.stream)
    else
      match written.bytesConsumed with
      | some (.ofNat consumed) =>
        feed calls written.unframer written.stream (data.drop consumed)
      | _ => none

/-- An error that consumes nothing is followed by one that does, hence the bound on the calls. -/
def feedPieces (unframer : Unframer) (s : σ) : List Bytes → Option (Unframer × σ)
  | [] => some (unframer, s)
  | piece :: pieces =>
    match feed stream (2 * piece.length + 1) unframer s piece with
    | none => none
    | some (unframer, s) => feedPieces unframer s pieces

variable {stream}

theorem feed_of_reads (calls : Nat) (unframer : Unframer) (data : Bytes)
    {events : List StreamEvent} {parser' : WireParser} (formed : unframer.WellFormed)
    (reads : Reads unframer.parser data events parser') (takes : stream.Takes s events) :
    ∃ unframer' s', feed stream (calls + 1) unframer s data = some (unframer', s') ∧
      unframer'.WellFormed ∧ unframer'.parser = parser' ∧ stream.Trace s events s' := by
  obtain ⟨noError, _, formed', parserEq, trace⟩ := write_of_reads unframer data formed reads takes
  exact ⟨_, _, by simp [feed, noError], formed', parserEq, trace⟩

theorem feedPieces_of_reads (pieces : List Bytes) (unframer : Unframer)
    {events : List StreamEvent} {parser' : WireParser} (formed : unframer.WellFormed)
    (reads : Reads unframer.parser pieces.flatten events parser')
    (takes : stream.Takes s events) :
    ∃ unframer' s', unframer.feedPieces stream s pieces = some (unframer', s') ∧
      unframer'.WellFormed ∧ unframer'.parser = parser' ∧ stream.Trace s events s' := by
  induction pieces generalizing unframer s events with
  | nil =>
    obtain ⟨rfl, rfl⟩ : ([] : List StreamEvent) = events ∧ unframer.parser = parser' := by
      simpa [Reads] using reads
    exact ⟨unframer, s, rfl, formed, rfl, .nil s⟩
  | cons piece pieces ih =>
    rw [List.flatten_cons] at reads
    obtain ⟨events₁, middle, events₂, here, later, rfl⟩ := reads.split
    obtain ⟨unframer₁, s₁, fed, formed₁, parserEq, trace₁⟩ :=
      feed_of_reads (2 * piece.length) unframer piece formed here takes.left
    obtain ⟨unframer₂, s₂, rest, formed₂, parserEq₂, trace₂⟩ :=
      ih unframer₁ formed₁ (by rw [parserEq]; exact later) (takes.right trace₁)
    exact ⟨unframer₂, s₂, by simp [feedPieces, fed, rest], formed₂, parserEq₂,
      trace₁.append trace₂⟩

end Unframer

namespace WireParser

theorem run_append_of_error {parser : WireParser} {first : Bytes} (second : Bytes)
    (isError : (run parser first).error ≠ .noError) :
    run parser (first ++ second) =
      { run parser first with rest := (run parser first).rest ++ second } := by
  induction first generalizing parser with
  | nil => exact absurd rfl isError
  | cons c rest ih =>
    rw [run_cons] at isError
    rw [List.cons_append, run_cons, run_cons]
    cases stepped : parser.step c with
    | next middle visible =>
      rw [stepped] at isError
      simp only [ih isError]
      rfl
    | shortPacket => rfl
    | invalidEscape => rfl

theorem reads_or_error (parser : WireParser) (data : Bytes) :
    (∃ events parser', Reads parser data events parser') ∨
      (run parser data).error ≠ .noError := by
  induction data generalizing parser with
  | nil => exact .inl ⟨[], parser, .nil parser⟩
  | cons c rest ih =>
    cases stepped : parser.step c with
    | next middle visible =>
      rcases ih middle with ⟨events, parser', reads⟩ | isError
      · exact .inl ⟨_, parser', Reads.cons stepped reads⟩
      · exact .inr (by simpa [run_cons, stepped] using isError)
    | shortPacket => exact .inr (by simp [run_cons, stepped])
    | invalidEscape => exact .inr (by simp [run_cons, stepped])

theorem run_rest_suffix (parser : WireParser) (data : Bytes) :
    (run parser data).rest <:+ data := by
  induction data generalizing parser with
  | nil => exact List.suffix_refl []
  | cons c rest ih =>
    rw [run_cons]
    cases parser.step c with
    | next middle visible => exact (ih middle).trans (List.suffix_cons c rest)
    | shortPacket => exact List.suffix_refl _
    | invalidEscape => exact List.suffix_cons c rest

end WireParser

namespace Unframer

variable {σ : Type u} {stream : WriteStream σ} {s : σ}

theorem feedPieces_of_error (pieces : List Bytes) (unframer : Unframer)
    {events events' : List StreamEvent} {error : CrtError} {parser₁ parser' : WireParser}
    {rest : Bytes} (formed : unframer.WellFormed) (isError : error ≠ .noError)
    (fails : run unframer.parser pieces.flatten = ⟨events, error, parser₁, rest⟩)
    (reads : Reads parser₁ rest events' parser') (takes : stream.Takes s events)
    (takesOn : ∀ kept, ∀ lost : Bytes, events = kept ++ lost.map .byte →
      stream.Takes s (kept ++ events')) :
    ∃ unframer' s' kept, ∃ lost : Bytes, unframer.feedPieces stream s pieces = some (unframer', s') ∧
      unframer'.WellFormed ∧ unframer'.parser = parser' ∧
      events = kept ++ lost.map .byte ∧ stream.Trace s (kept ++ events') s' := by
  induction pieces generalizing unframer s events with
  | nil =>
    have noError := congrArg RunResult.error fails
    simp only [List.flatten_nil, run_nil] at noError
    exact absurd noError.symm isError
  | cons piece pieces ih =>
    rw [List.flatten_cons] at fails
    rcases reads_or_error unframer.parser piece with ⟨events₁, middle, here⟩ | here
    · -- the error comes in a later piece
      rw [here.run_append] at fails
      have split : events = events₁ ++ (run middle pieces.flatten).events := by
        simpa using (congrArg RunResult.events fails).symm
      rw [split] at takes
      obtain ⟨unframer₁, s₁, fed, formed₁, parserEq, trace₁⟩ :=
        feed_of_reads (2 * piece.length) unframer piece formed here takes.left
      have later : run unframer₁.parser pieces.flatten =
          ⟨(run middle pieces.flatten).events, error, parser₁, rest⟩ := by
        rw [parserEq]
        cases result : run middle pieces.flatten
        simp_all [RunResult.prepend]
      have takesLater : ∀ kept, ∀ lost : Bytes,
          (run middle pieces.flatten).events = kept ++ lost.map .byte →
            stream.Takes s₁ (kept ++ events') := by
        intro kept lost visible
        have whole := takesOn (events₁ ++ kept) lost (by rw [split, visible, List.append_assoc])
        rw [List.append_assoc] at whole
        exact whole.right trace₁
      obtain ⟨unframer₂, s₂, kept, lost, onward, formed₂, parserEq₂, visible, trace₂⟩ :=
        ih unframer₁ formed₁ later (takes.right trace₁) takesLater
      exact ⟨unframer₂, s₂, events₁ ++ kept, lost, by simp [feedPieces, fed, onward], formed₂,
        parserEq₂, by rw [split, visible, List.append_assoc], by
          rw [List.append_assoc]; exact trace₁.append trace₂⟩
    · -- the error is in this piece: what is left of it is fed again
      have nonempty : piece ≠ [] := by
        rintro rfl
        simp at here
      obtain ⟨read, cut⟩ := run_rest_suffix unframer.parser piece
      rw [run_append_of_error _ here] at fails
      have sameEvents : (run unframer.parser piece).events = events :=
        congrArg RunResult.events fails
      have refines := write_refines unframer piece formed (by rw [sameEvents]; exact takes)
      obtain ⟨kept, lost, visible, trace₁, _⟩ := refines.trace
      have takesRest := (takesOn kept lost (by rw [← sameEvents, visible])).right trace₁
      have consumed : (unframer.write stream s piece).bytesConsumed = some (read.length : Int) := by
        rw [refines.bytesConsumed]
        conv => lhs; rw [← congrArg List.length cut, List.length_append]
        simp
      have parserEq := refines.parser
      have errorEq := refines.error
      have formed₁ := refines.wellFormed
      generalize writtenEq : unframer.write stream s piece = written at *
      generalize run unframer.parser piece = result at *
      obtain ⟨events₀, error₀, parser₀, unread⟩ := result
      simp only [RunResult.mk.injEq] at fails
      obtain ⟨rfl, rfl, rfl, rfl⟩ := fails
      obtain ⟨events₁, middle, events₂, again, later, rfl⟩ := reads.split
      obtain ⟨calls, enough⟩ : ∃ calls, 2 * piece.length = calls + 1 :=
        ⟨2 * piece.length - 1, by have := List.length_pos_iff.mpr nonempty; omega⟩
      obtain ⟨unframer₁, s₁, fedAgain, formed₂, parserEq₁, trace₂⟩ :=
        feed_of_reads calls written.unframer unread formed₁ (by rw [parserEq]; exact again)
          takesRest.left
      obtain ⟨unframer₂, s₂, onward, formed₃, parserEq₂, trace₃⟩ :=
        feedPieces_of_reads pieces unframer₁ formed₂ (by rw [parserEq₁]; exact later)
          (takesRest.right trace₂)
      have fed : feed stream (2 * piece.length + 1) unframer s piece = some (unframer₁, s₁) := by
        rw [feed]
        simp only [writtenEq, errorEq, isError, if_false, consumed, ← Int.ofNat_eq_natCast]
        rw [enough, ← cut, List.drop_left, fedAgain]
      exact ⟨unframer₂, s₂, kept, lost, by simp [feedPieces, fed, onward], formed₃, parserEq₂,
        visible, trace₁.append (trace₂.append trace₃)⟩

end Unframer

namespace WireParser

/-- What the escape-nop of the next packet can still bring out of the packet it interrupts: a
payload byte, if it is taken for one, or the verdict on a checksum it completes. -/
inductive Interrupted : Phase → List StreamEvent → Prop where
  | nothing (phase : Phase) : Interrupted phase []
  | payload (remaining : Nat) (crc : UInt16) :
      Interrupted (.payload remaining crc) [.byte kEscapeNop]
  | trailer (got : Bytes) (crc : UInt16) (valid : Bool) : got ≠ [] →
      Interrupted (.trailer got crc) [.packetDone valid]

theorem Interrupted.left {phase : Phase} {kept lost : List StreamEvent}
    (interrupted : Interrupted phase (kept ++ lost)) : Interrupted phase kept := by
  cases kept with
  | nil => exact .nothing phase
  | cons event kept =>
    generalize visible : event :: kept ++ lost = events at interrupted
    cases interrupted with
    | nothing => simp at visible
    | payload remaining crc =>
      obtain ⟨rfl, rfl, rfl⟩ : event = .byte kEscapeNop ∧ kept = [] ∧ lost = [] := by
        simpa using visible
      exact .payload remaining crc
    | trailer got crc valid some =>
      obtain ⟨rfl, rfl, rfl⟩ : event = .packetDone valid ∧ kept = [] ∧ lost = [] := by
        simpa using visible
      exact .trailer got crc valid some

theorem step_nop (parser : WireParser) :
    ∃ phase events, parser.step kEscapeNop = .next ⟨false, phase⟩ events ∧
      Interrupted parser.phase events := by
  obtain ⟨saw, phase⟩ := parser
  by_cases hunts : phase = .hunting
  · exact ⟨.hunting, [], by simp [step, hunts, hunt], .nothing _⟩
  · cases saw with
    | true => exact ⟨phase.skip kEscapeNop, [], by simp [step, hunts, unescape], .nothing _⟩
    | false =>
      refine ⟨(phase.store kEscapeNop).1, (phase.store kEscapeNop).2,
        by simp [step, hunts, unescape], ?_⟩
      cases phase with
      | hunting => exact absurd rfl hunts
      | length got crc =>
        simp only [Phase.store]
        split <;> exact .nothing _
      | payload remaining crc => exact .payload remaining crc
      | trailer got crc =>
        simp only [Phase.store]
        split
        · exact .nothing _
        next room =>
          refine .trailer got crc _ ?_
          rintro rfl
          simp [kCrc] at room

theorem step_escape (phase : Phase) :
    ∃ phase', WireParser.step ⟨false, phase⟩ kEscapeStart = .next ⟨true, phase'⟩ [] := by
  by_cases hunts : phase = .hunting
  · exact ⟨.hunting, by simp [step, hunts, hunt]⟩
  · exact ⟨phase.skip kEscapeStart, by simp [step, hunts, unescape]⟩

theorem step_start (phase : Phase) :
    WireParser.step ⟨true, phase⟩ kPacketStart = .next ⟨false, .length [] startCrc⟩ [] ∨
      WireParser.step ⟨true, phase⟩ kPacketStart = .shortPacket := by
  by_cases hunts : phase = .hunting
  · exact .inl (by simp [step, hunts, hunt])
  · exact .inr (by simp [step, hunts, unescape])

end WireParser

namespace Unframer

variable {σ : Type u} {stream : WriteStream σ} {s : σ}

theorem state_of_hunting (unframer : Unframer) (hunts : unframer.phase = .hunting) :
    unframer.state = .findPacketStart := by
  cases state : unframer.state <;> simp [phase, state, Phase.beginPayload] at hunts ⊢
  split at hunts <;> simp at hunts

theorem state_of_payload (unframer : Unframer) {remaining : Nat} {crc : UInt16}
    (inPayload : unframer.phase = .payload remaining crc) : unframer.state = .findPacketCrc := by
  cases state : unframer.state <;> simp [phase, state] at inPayload ⊢

theorem state_of_trailer (unframer : Unframer) {got : Bytes} {crc : UInt16}
    (inTrailer : unframer.phase = .trailer got crc) (begun : got ≠ []) :
    unframer.state = .findCrcEnd := by
  cases state : unframer.state <;> simp [phase, state, Phase.beginPayload] at inTrailer ⊢
  split at inTrailer <;> simp_all

theorem feedPieces_start (pieces : List Bytes) (unframer : Unframer) {before body : Bytes}
    {events events' : List StreamEvent} {phase : Phase} {parser' : WireParser}
    (formed : unframer.WellFormed) (reached : Reads unframer.parser before events ⟨false, phase⟩)
    (reads : Reads ⟨false, .length [] startCrc⟩ body events' parser')
    (cut : pieces.flatten = before ++ kEscapeStart :: kPacketStart :: body)
    (takes : stream.Takes s events)
    (takesOn : ∀ kept, ∀ lost : Bytes, events = kept ++ lost.map .byte →
      stream.Takes s (kept ++ events')) :
    ∃ unframer' s' kept, ∃ lost : Bytes, unframer.feedPieces stream s pieces = some (unframer', s') ∧
      unframer'.WellFormed ∧ unframer'.parser = parser' ∧
      events = kept ++ lost.map .byte ∧ stream.Trace s (kept ++ events') s' := by
  obtain ⟨phase', escape⟩ := step_escape phase
  rcases step_start phase' with found | givenUp
  · -- no packet is open any more: there is no error
    have whole : Reads unframer.parser pieces.flatten (events ++ events') parser' := by
      rw [cut]
      have onward := Reads.cons escape (Reads.cons found reads)
      exact reached.append onward
    obtain ⟨unframer', s', fed, formed', parserEq, trace⟩ :=
      feedPieces_of_reads pieces unframer formed whole (takesOn events [] (by simp))
    exact ⟨unframer', s', events, [], fed, formed', parserEq, by simp, trace⟩
  · -- the open packet ends in an error, and the packet start is read again
    have fails : run unframer.parser pieces.flatten =
        ⟨events, .framingShortPacket, ⟨true, .hunting⟩, kPacketStart :: body⟩ := by
      rw [cut, reached.run_append]
      simp [run_cons, escape, givenUp, RunResult.prepend]
    have opened : WireParser.step ⟨true, .hunting⟩ kPacketStart =
        .next ⟨false, .length [] startCrc⟩ [] := by
      simp [step, hunt]
    have again := Reads.cons opened reads
    exact feedPieces_of_error pieces unframer formed (by simp) fails again takes takesOn

theorem feedPieces_reset_frame (pieces : List Bytes) (unframer : Unframer) (payload : Bytes)
    (formed : unframer.WellFormed) (short : payload.length < 2 ^ 32)
    (cut : pieces.flatten = kEscapeNop :: frame payload)
    (takes : ∀ s events, stream.Takes s events) :
    ∃ unframer' s' before, unframer.feedPieces stream s pieces = some (unframer', s') ∧
      unframer'.WellFormed ∧ unframer'.parser = ⟨false, .hunting⟩ ∧
      Interrupted unframer.phase before ∧
      stream.Trace s (before ++ packetEvents payload) s' := by
  obtain ⟨phase, events, nop, interrupted⟩ := step_nop unframer.parser
  have reached := Reads.cons nop (.nil _)
  rw [List.append_nil] at reached
  obtain ⟨body, start⟩ : ∃ body, frame payload = [kEscapeStart, kPacketStart] ++ body :=
    ⟨_, by rw [frame, framePrefix, List.append_assoc, List.append_assoc]⟩
  have whole := reads_frame true payload short
  rw [start, reads_start_append] at whole
  rw [start] at cut
  obtain ⟨unframer', s', kept, lost, fed, formed', parserEq, rfl, trace⟩ :=
    feedPieces_start pieces unframer formed reached whole cut (takes s _) fun _ _ _ => takes s _
  exact ⟨unframer', s', kept, fed, formed', parserEq, interrupted.left, trace⟩

end Unframer

variable {σ : Type u} {τ : Type v} {υ : Type w}

/-- After any input, a packet from a reset framer is delivered whole.  Only what the
escape-nop brings out of the packet before can come first. -/
theorem unframer_resynchronises (before : WriteStream σ) (up : WriteStream υ)
    (down : WriteStream τ) (upAccepts : up.Accepts) (downAccepts : down.Accepts)
    (unframer : Unframer) (s : σ) (reached : Unframer.Reached before unframer s)
    (framer : Framer) (isReset : framer.state = .reset) (r : υ) (t : τ)
    (log : List StreamEvent) (chunks : List Bytes) (short : chunks.flatten.length < 2 ^ 32)
    (pieces : List Bytes)
    (cut : pieces.flatten =
      WriteStream.bytesOf (framer.sendPacket up.logged (r, []) chunks).stream.2) :
    ∃ unframer' t' leftover,
      unframer.feedPieces down.logged (t, log) pieces = some (unframer', t') ∧
        unframer'.state = .findPacketStart ∧
        t'.2 = log ++ leftover ++ chunks.flatten.map .byte ++ [.packetDone true] ∧
        (leftover = [] ∨
          leftover = [.byte kEscapeNop] ∧ unframer.state = .findPacketCrc ∨
          (∃ valid, leftover = [.packetDone valid]) ∧ unframer.state = .findCrcEnd) := by
  obtain ⟨s', framer', sent, _, sending⟩ :=
    Framer.sendPacket_of_takes framer chunks (upAccepts.logged.takes (r, []) _)
  have onWire : s'.2 = (kEscapeNop :: frame chunks.flatten).map .byte := by
    simpa [framePreamble, isReset] using sending.log
  rw [sent] at cut
  simp only [onWire, WriteStream.bytesOf_map_byte] at cut
  obtain ⟨unframer', t', leftover, fed, formed, parserEq, interrupted, receiving⟩ :=
    Unframer.feedPieces_reset_frame (s := (t, log)) pieces unframer chunks.flatten
      reached.wellFormed short cut downAccepts.logged.takes
  refine ⟨unframer', t', leftover, fed, ?_, ?_, ?_⟩
  · have hunts : unframer'.phase = .hunting := congrArg WireParser.phase parserEq
    exact unframer'.state_of_hunting hunts
  · rw [receiving.log]
    simp [packetEvents]
  · generalize open_ : unframer.phase = phase at interrupted
    cases interrupted with
    | nothing => exact .inl rfl
    | payload remaining crc => exact .inr (.inl ⟨rfl, unframer.state_of_payload open_⟩)
    | trailer got crc valid some =>
      exact .inr (.inr ⟨⟨valid, rfl⟩, unframer.state_of_trailer open_ some⟩)

/-- A packet cut off in the middle of an escape in its length field, then a new one. -/
theorem unframer_resynchronises_midEscape :
    ∃ unframer' t' leftover,
      (Unframer.new.write WriteStream.sink () [0xff, 0xfd, 0x07, 0xff]).unframer.feedPieces
          WriteStream.sink.logged ((), [])
          [WriteStream.bytesOf
            (Framer.new.sendPacket WriteStream.sink.logged ((), []) [[1], [2]]).stream.2] =
        some (unframer', t') ∧
        unframer'.state = .findPacketStart ∧
        t'.2 = [] ++ leftover ++ [[1], [2]].flatten.map .byte ++ [.packetDone true] ∧
        (leftover = [] ∨
          leftover = [.byte kEscapeNop] ∧ (Unframer.new.write WriteStream.sink ()
            [0xff, 0xfd, 0x07, 0xff]).unframer.state = .findPacketCrc ∨
          (∃ valid, leftover = [.packetDone valid]) ∧ (Unframer.new.write WriteStream.sink ()
            [0xff, 0xfd, 0x07, 0xff]).unframer.state = .findCrcEnd) :=
  unframer_resynchronises WriteStream.sink WriteStream.sink WriteStream.sink
    WriteStream.sink_accepts WriteStream.sink_accepts _ ()
    (.write [0xff, 0xfd, 0x07, 0xff] (.new ())) Framer.new rfl () () [] [[1], [2]] (by simp)
    _ (List.flatten_singleton)

end Tvm.MicroRpc
