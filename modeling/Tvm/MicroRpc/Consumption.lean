import Tvm.MicroRpc.Resync

/-!
# What `Unframer::Write` reports as consumed

When the stream below refuses part of a chunk of payload, `FindPacketCrc` moves the input back
behind the bytes that were accepted.  It counts input bytes other than `kEscapeStart` for
them, and moves back by what it skipped of the whole input, not of the chunk.
-/

namespace Tvm.MicroRpc

open Tvm.Lib Tvm.Crt

universe u

/-- The payload bytes that wire bytes stand for, up to the first framing error. -/
def unescapeAll : Bool → Bytes → Bytes
  | _, [] => []
  | sawEscape, c :: rest =>
    match unescape sawEscape c with
    | .skip sawEscape => unescapeAll sawEscape rest
    | .data => c :: unescapeAll false rest
    | .shortPacket => []
    | .invalidEscape => []

/-- How many wire bytes make up the first `count` payload bytes. -/
def wireLength : Bool → Nat → Bytes → Nat
  | _, 0, _ => 0
  | _, _ + 1, [] => 0
  | sawEscape, count + 1, c :: rest =>
    match unescape sawEscape c with
    | .skip sawEscape => wireLength sawEscape (count + 1) rest + 1
    | .data => wireLength false count rest + 1
    | .shortPacket => 0
    | .invalidEscape => 0

theorem wireLength_spec (sawEscape : Bool) (count : Nat) (wire more : Bytes)
    (enough : count ≤ (unescapeAll sawEscape wire).length) :
    wireLength sawEscape count (wire ++ more) ≤ wire.length ∧
      unescapeAll sawEscape ((wire ++ more).take (wireLength sawEscape count (wire ++ more))) =
        (unescapeAll sawEscape wire).take count ∧
      ∀ fewer < wireLength sawEscape count (wire ++ more),
        (unescapeAll sawEscape ((wire ++ more).take fewer)).length < count := by
  induction wire generalizing sawEscape count with
  | nil =>
    obtain rfl : count = 0 := Nat.le_zero.mp enough
    simp [wireLength, unescapeAll]
  | cons c wire ih =>
    cases count with
    | zero => simp [wireLength, unescapeAll]
    | succ count =>
      cases meaning : unescape sawEscape c with
      | skip sawEscape' =>
        simp only [unescapeAll, meaning] at enough
        obtain ⟨short, decoded, least⟩ := ih sawEscape' (count + 1) enough
        simp only [List.cons_append, wireLength, meaning, List.take_succ_cons, unescapeAll]
        refine ⟨Nat.succ_le_succ short, decoded, ?_⟩
        intro fewer below
        cases fewer with
        | zero => simp [unescapeAll]
        | succ fewer =>
          simp only [List.take_succ_cons, unescapeAll, meaning]
          exact least fewer (Nat.lt_of_succ_lt_succ below)
      | data =>
        simp only [unescapeAll, meaning, List.length_cons, Nat.add_le_add_iff_right] at enough
        obtain ⟨short, decoded, least⟩ := ih false count enough
        simp only [List.cons_append, wireLength, meaning, List.take_succ_cons, unescapeAll]
        refine ⟨Nat.succ_le_succ short, congrArg (c :: ·) decoded, ?_⟩
        intro fewer below
        cases fewer with
        | zero => simp [unescapeAll]
        | succ fewer =>
          simp only [List.take_succ_cons, unescapeAll, meaning, List.length_cons]
          exact Nat.succ_lt_succ (least fewer (Nat.lt_of_succ_lt_succ below))
      | shortPacket => simp [unescapeAll, meaning] at enough
      | invalidEscape => simp [unescapeAll, meaning] at enough

namespace Unframer

theorem consumeInputLoop_cons (size : Nat) (unframer : Unframer) (c : UInt8) (rest : Bytes) :
    consumeInputLoop size unframer (c :: rest) =
      match unescape unframer.sawEscapeStart c with
      | .skip sawEscape =>
        let later := consumeInputLoop size { unframer with sawEscapeStart := sawEscape } rest
        (later.1, later.2.1 + 1, later.2.2)
      | .data =>
        let next := { unframer with sawEscapeStart := false, buffer := unframer.buffer ++ [c] }
        if next.buffer.length = size then (.noError, 1, next)
        else
          let later := consumeInputLoop size next rest
          (later.1, later.2.1 + 1, later.2.2)
      | .shortPacket =>
        (.framingShortPacket, 0,
          { unframer with crc := crc16Compute [kEscapeStart] none, sawEscapeStart := true })
      | .invalidEscape => (.framingInvalidEscape, 1, { unframer with sawEscapeStart := false }) := by
  obtain ⟨state, saw, buffer, remaining, crc⟩ := unframer
  rw [consumeInputLoop]
  cases saw with
  | true =>
    by_cases start : c = kPacketStart
    · simp [unescape, start]
    · by_cases nop : c = kEscapeNop
      · simp [unescape, nop]
      · by_cases escape : c = kEscapeStart
        · simp [unescape, escape]
        · simp [unescape, start, nop, escape]
  | false =>
    by_cases escape : c = kEscapeStart
    · simp [unescape, escape]
    · simp [unescape, escape]

theorem consumeInputLoop_unescape (size : Nat) (input : Bytes) (unframer next : Unframer) (i : Nat)
    (consumed : consumeInputLoop size unframer input = (.noError, i, next)) :
    i ≤ input.length ∧
      next.buffer = unframer.buffer ++ unescapeAll unframer.sawEscapeStart (input.take i) := by
  induction input generalizing unframer i with
  | nil =>
    simp only [consumeInputLoop, Prod.mk.injEq, true_and] at consumed
    obtain ⟨rfl, rfl⟩ := consumed
    simp [unescapeAll]
  | cons c rest ih =>
    rw [consumeInputLoop_cons] at consumed
    cases meaning : unescape unframer.sawEscapeStart c with
    | skip sawEscape =>
      simp only [meaning, Prod.mk.injEq] at consumed
      obtain ⟨noError, rfl, rfl⟩ := consumed
      obtain ⟨short, decoded⟩ := ih { unframer with sawEscapeStart := sawEscape } _ (Prod.ext noError rfl)
      refine ⟨Nat.succ_le_succ short, ?_⟩
      simpa only [List.take_succ_cons, unescapeAll, meaning] using decoded
    | data =>
      simp only [meaning] at consumed
      split_ifs at consumed with full
      · simp only [Prod.mk.injEq, true_and] at consumed
        obtain ⟨rfl, rfl⟩ := consumed
        simp [unescapeAll, meaning]
      · simp only [Prod.mk.injEq] at consumed
        obtain ⟨noError, rfl, rfl⟩ := consumed
        obtain ⟨short, decoded⟩ := ih _ _ (Prod.ext noError rfl)
        refine ⟨Nat.succ_le_succ short, ?_⟩
        simpa only [List.take_succ_cons, unescapeAll, meaning, List.append_assoc,
          List.singleton_append] using decoded
    | shortPacket => simp [meaning] at consumed
    | invalidEscape => simp [meaning] at consumed

theorem addToBuffer_unescape {unframer next : Unframer} {input rest : Bytes} {size : Nat}
    {updateCrc : Bool} (empty : unframer.buffer = [])
    (added : unframer.addToBuffer input size updateCrc = (.noError, next, rest)) :
    ∃ i, i ≤ input.length ∧ rest = input.drop i ∧
      next.buffer = unescapeAll unframer.sawEscapeStart (input.take i) := by
  rw [addToBuffer] at added
  rcases consumed : consumeInputLoop size unframer input with ⟨error, i, filled⟩
  simp only [consumed, Prod.mk.injEq] at added
  obtain ⟨rfl, updated, rfl⟩ := added
  obtain ⟨short, decoded⟩ := consumeInputLoop_unescape size input unframer filled i consumed
  rw [empty, List.nil_append] at decoded
  refine ⟨i, short, rfl, ?_⟩
  rw [← updated]
  split_ifs
  · exact decoded
  · exact decoded

/-- The payload chunk whose `WriteAll` fails. -/
structure FailedChunk where
  /-- The input from the beginning of the chunk on. -/
  input : Bytes
  /-- Whether the escape byte in front of the chunk was the last one read. -/
  sawEscape : Bool
  /-- How many input bytes are behind the chunk. -/
  behind : Nat
  /-- The payload bytes that were accepted. -/
  accepted : Bytes
  deriving DecidableEq

variable {σ : Type u} (stream : WriteStream σ)

/-- The chunk that `FindPacketCrc` fails at, if it does. -/
def failedChunkCrc : Nat → Unframer → Bytes → σ → Option FailedChunk
  | 0, _, _, _ => none
  | passes + 1, unframer, input, s =>
    if unframer.numPayloadBytesRemaining = 0 then none
    else
      let added := unframer.addToBuffer input
        (min unframer.numPayloadBytesRemaining kUnframerBufferBytes) true
      if added.1 ≠ .noError then none
      else if unframer.buffer.length = added.2.1.buffer.length then none
      else
        let written := stream.writeAll s added.2.1.buffer
        if written.error ≠ .noError then
          some ⟨input, unframer.sawEscapeStart, added.2.2.length,
            added.2.1.buffer.take written.bytesConsumed⟩
        else
          failedChunkCrc passes
            { added.2.1 with
              numPayloadBytesRemaining :=
                added.2.1.numPayloadBytesRemaining - written.bytesConsumed
              buffer := [] }
            added.2.2 written.stream

def failedChunkLoop : Nat → Unframer → Bytes → σ → Option FailedChunk
  | 0, _, _, _ => none
  | passes + 1, unframer, input, s =>
    if input = [] then none
    else
      match (if unframer.state = .findPacketCrc then
          failedChunkCrc stream (input.length + 1) unframer input s
        else none) with
      | some chunk => some chunk
      | none =>
        let found := unframer.find stream input s
        if found.error ≠ .noError then none
        else failedChunkLoop passes found.unframer found.input found.stream

def failedChunk (unframer : Unframer) (s : σ) (data : Bytes) : Option FailedChunk :=
  failedChunkLoop stream (2 * data.length + 1) unframer data s

end Unframer

theorem WriteStream.writeAllLoop_le {σ : Type u} (stream : WriteStream σ) (passes : Nat) (s : σ)
    (data : Bytes) (bytesConsumed : Nat) :
    (stream.writeAllLoop passes s data bytesConsumed).bytesConsumed ≤
      bytesConsumed + data.length := by
  induction passes generalizing s data bytesConsumed with
  | zero => exact Nat.le_add_right _ _
  | succ passes ih =>
    simp only [WriteStream.writeAllLoop]
    split_ifs with empty short failed long
    · exact Nat.le_add_right _ _
    · exact Nat.le_add_right _ _
    · exact Nat.le_add_right _ _
    · exact Nat.le_add_right _ _
    · refine (ih _ _ _).trans ?_
      rw [List.length_drop]
      omega

namespace Unframer

variable {σ : Type u} {stream : WriteStream σ} {s : σ}

/-- The chunk lies in `input`, and a part of what it decodes to has been accepted. -/
structure FailedChunk.Formed (chunk : FailedChunk) (input : Bytes) : Prop where
  inside : chunk.input.length ≤ input.length
  decodes : ∃ i, chunk.behind + i = chunk.input.length ∧
    chunk.accepted <+: unescapeAll chunk.sawEscape (chunk.input.take i)

theorem FailedChunk.Formed.mono {chunk : FailedChunk} {input rest : Bytes}
    (formed : chunk.Formed rest) (shorter : rest.length ≤ input.length) : chunk.Formed input :=
  ⟨formed.inside.trans shorter, formed.decodes⟩

/-- What is left of the input after the failure, and how far it is moved back. -/
structure FailsAt (chunk : FailedChunk) (result : FindResult σ) : Prop where
  isError : result.error ≠ .noError
  behind : result.input.length = chunk.behind
  rewound : result.rewound =
    (skipConsumed chunk.accepted.length chunk.input).map (chunk.input.length - ·)

theorem failedChunkCrc_fails (passes : Nat) (unframer : Unframer) (input : Bytes)
    (empty : unframer.buffer = []) {chunk : FailedChunk}
    (failed : failedChunkCrc stream passes unframer input s = some chunk) :
    chunk.Formed input ∧ FailsAt chunk (findPacketCrcLoop stream passes unframer input s) := by
  induction passes generalizing unframer input s with
  | zero => cases failed
  | succ passes ih =>
    unfold failedChunkCrc at failed
    unfold findPacketCrcLoop
    by_cases complete : unframer.numPayloadBytesRemaining = 0
    · simp [complete] at failed
    · simp only [complete, if_false] at failed ⊢
      rcases added : unframer.addToBuffer input
        (min unframer.numPayloadBytesRemaining kUnframerBufferBytes) true with ⟨error, next, rest⟩
      simp only [added] at failed ⊢
      by_cases ok : error = .noError
      · subst ok
        simp only [ne_eq, not_true_eq_false, if_false] at failed ⊢
        obtain ⟨i, short, rest_eq, decoded⟩ := addToBuffer_unescape empty added
        by_cases none : unframer.buffer.length = next.buffer.length
        · simp [none] at failed
        · simp only [none, if_false] at failed ⊢
          have accepted_le := stream.writeAllLoop_le next.buffer.length s next.buffer 0
          rw [Nat.zero_add] at accepted_le
          by_cases written : (stream.writeAll s next.buffer).error = .noError
          · simp only [written, not_true_eq_false, if_false] at failed ⊢
            obtain ⟨formed, fails⟩ := ih _ rest rfl failed
            refine ⟨formed.mono ?_, fails⟩
            rw [rest_eq, List.length_drop]
            exact Nat.sub_le _ _
          · simp only [written, not_false_eq_true, if_true, Option.some.injEq] at failed ⊢
            subst failed
            have taken : (next.buffer.take (stream.writeAll s next.buffer).bytesConsumed).length =
                (stream.writeAll s next.buffer).bytesConsumed := by
              rw [List.length_take]
              exact Nat.min_eq_left accepted_le
            refine ⟨⟨le_rfl, i, ?_, ?_⟩, written, rfl, ?_⟩
            · simp only [rest_eq, List.length_drop]
              omega
            · simp only [decoded]
              exact List.take_prefix _ _
            · simp only [taken]
      · simp [ok] at failed

theorem addToBuffer_shorter {unframer next : Unframer} {input rest : Bytes} {size : Nat}
    {updateCrc : Bool} {error : CrtError}
    (added : unframer.addToBuffer input size updateCrc = (error, next, rest)) :
    rest.length ≤ input.length := by
  simp only [addToBuffer, Prod.mk.injEq] at added
  rw [← added.2.2, List.length_drop]
  exact Nat.sub_le _ _

theorem findPacketCrcLoop_shorter (passes : Nat) (unframer : Unframer) (input : Bytes) :
    (findPacketCrcLoop stream passes unframer input s).input.length ≤ input.length := by
  induction passes generalizing unframer input s with
  | zero => exact le_rfl
  | succ passes ih =>
    unfold findPacketCrcLoop
    rcases added : unframer.addToBuffer input
      (min unframer.numPayloadBytesRemaining kUnframerBufferBytes) true with ⟨error, next, rest⟩
    have shorter := addToBuffer_shorter added
    simp only [added]
    split_ifs
    · exact le_rfl
    · exact shorter
    · exact shorter
    · exact shorter
    · exact (ih _ _).trans shorter

theorem find_shorter (unframer : Unframer) (input : Bytes) :
    (unframer.find stream input s).input.length ≤ input.length := by
  unfold find
  cases unframer.state with
  | findPacketStart =>
    simp only [findPacketStart, List.length_drop]
    exact Nat.sub_le _ _
  | findPacketLength =>
    rcases added : unframer.addToBuffer input kPayloadLength true with ⟨error, next, rest⟩
    have shorter := addToBuffer_shorter added
    simp only [findPacketLength, added]
    split_ifs <;> exact shorter
  | findPacketCrc => exact findPacketCrcLoop_shorter _ unframer input
  | findCrcEnd =>
    rcases added : unframer.addToBuffer input kCrc false with ⟨error, next, rest⟩
    have shorter := addToBuffer_shorter added
    simp only [findCrcEnd, added]
    split_ifs <;> exact shorter

theorem failedChunkLoop_fails (passes : Nat) (unframer : Unframer) (input : Bytes)
    (formed : unframer.WellFormed) {chunk : FailedChunk}
    (failed : failedChunkLoop stream passes unframer input s = some chunk) :
    chunk.Formed input ∧ FailsAt chunk (writeLoop stream passes unframer input s) := by
  induction passes generalizing unframer input s with
  | zero => cases failed
  | succ passes ih =>
    unfold failedChunkLoop at failed
    unfold writeLoop
    by_cases none_left : input = []
    · simp [none_left] at failed
    · simp only [none_left, if_false] at failed ⊢
      split at failed
      · rename_i chunk' here
        obtain rfl := Option.some.inj failed
        split_ifs at here with payload
        have empty : unframer.buffer = [] := by simpa [WellFormed, payload] using formed
        obtain ⟨inside, fails⟩ := failedChunkCrc_fails _ unframer input empty here
        have found : unframer.find stream input s =
            findPacketCrcLoop stream (input.length + 1) unframer input s := by
          simp only [find, payload, findPacketCrc]
        rw [found, if_pos fails.isError]
        exact ⟨inside, fails⟩
      · by_cases ok : (unframer.find stream input s).error = .noError
        · simp only [ok, ne_eq, not_true_eq_false, if_false] at failed ⊢
          obtain ⟨inside, fails⟩ := ih _ _ (find_wellFormed unframer input formed ok) failed
          exact ⟨inside.mono (find_shorter unframer input), fails⟩
        · simp [ok] at failed

theorem getLast?_of_countP_zero {bytes : Bytes} (nonempty : bytes ≠ [])
    (none : bytes.countP (· ≠ kEscapeStart) = 0) : bytes.getLast? = some kEscapeStart := by
  rw [List.getLast?_eq_some_getLast nonempty]
  have last := List.countP_eq_zero.mp none _ (List.getLast_mem nonempty)
  simpa using last

theorem skipConsumed_eq_some {accepted count : Nat} {input : Bytes} :
    skipConsumed accepted input = some count ↔
      count ≤ input.length ∧ (input.take count).countP (· ≠ kEscapeStart) = accepted ∧
        (input.take count).getLast? ≠ some kEscapeStart := by
  induction input generalizing accepted count with
  | nil =>
    cases accepted with
    | zero => simp [skipConsumed, eq_comm]
    | succ accepted => simp [skipConsumed]
  | cons c rest ih =>
    cases accepted with
    | zero =>
      rw [skipConsumed, Option.some.injEq]
      constructor
      · rintro rfl
        simp
      · rintro ⟨_, none, last⟩
        by_contra positive
        refine last (getLast?_of_countP_zero ?_ none)
        simpa using fun zero => positive zero.symm
    | succ accepted =>
      cases count with
      | zero => simp [skipConsumed]
      | succ count =>
        simp only [skipConsumed, Option.map_eq_some_iff, Nat.add_right_cancel_iff,
          exists_eq_right, ih, List.take_succ_cons, List.length_cons, Nat.add_le_add_iff_right]
        by_cases escape : c = kEscapeStart
        · simp only [escape, ne_eq, not_true_eq_false, if_false, decide_false,
            List.countP_cons_of_neg, Bool.false_eq_true, not_false_eq_true]
          refine and_congr_right fun _ => and_congr_right fun some_left => ?_
          have nonempty : rest.take count ≠ [] := by
            intro nothing
            rw [nothing] at some_left
            cases some_left
          rw [List.getLast?_cons_of_ne_nil nonempty]
        · simp only [escape, ne_eq, not_false_eq_true, if_true, decide_true,
            List.countP_cons_of_pos, Nat.add_right_cancel_iff]
          refine and_congr_right fun _ => and_congr_right fun _ => ?_
          by_cases nothing : rest.take count = []
          · simp [nothing, escape]
          · rw [List.getLast?_cons_of_ne_nil nothing]

/-- The count leads behind the wire bytes of earlier fields and chunks and the least number of
wire bytes of the refused chunk that decode to what was accepted, and stays in the input. -/
def CountsAccepted (result : WriteResult σ) (data : Bytes) (chunk : FailedChunk) : Prop :=
  ∃ count, IsLeast {n | unescapeAll chunk.sawEscape (chunk.input.take n) = chunk.accepted} count ∧
    data.length - chunk.input.length + count ≤ data.length ∧
    result.bytesConsumed = some ((data.length - chunk.input.length + count : Nat) : Int)

/-- The wire bytes of the accepted payload and as many more as are left behind the chunk hold one
byte other than `kEscapeStart` for each accepted byte, and end with such a byte. -/
def FailedChunk.Balanced (chunk : FailedChunk) : Prop :=
  let span := wireLength chunk.sawEscape chunk.accepted.length chunk.input + chunk.behind
  (chunk.input.take span).countP (· ≠ kEscapeStart) = chunk.accepted.length ∧
    (chunk.input.take span).getLast? ≠ some kEscapeStart

theorem FailedChunk.Formed.isLeast {chunk : FailedChunk} {input : Bytes}
    (formed : chunk.Formed input) :
    IsLeast {n | unescapeAll chunk.sawEscape (chunk.input.take n) = chunk.accepted}
        (wireLength chunk.sawEscape chunk.accepted.length chunk.input) ∧
      wireLength chunk.sawEscape chunk.accepted.length chunk.input + chunk.behind ≤
        chunk.input.length := by
  obtain ⟨i, total, taken⟩ := formed.decodes
  have split : chunk.input.take i ++ chunk.input.drop i = chunk.input := List.take_append_drop _ _
  have spec := wireLength_spec chunk.sawEscape chunk.accepted.length (chunk.input.take i)
    (chunk.input.drop i) taken.length_le
  rw [split, List.prefix_iff_eq_take.mp taken |>.symm] at spec
  obtain ⟨short, decoded, least⟩ := spec
  rw [List.length_take] at short
  refine ⟨⟨decoded, ?_⟩, by omega⟩
  intro fewer exact_decoded
  by_contra below
  have shorter := least fewer (Nat.lt_of_not_le below)
  rw [exact_decoded] at shorter
  exact lt_irrefl _ shorter

/-- When a chunk is refused, `Write` reports what was consumed exactly if the wire bytes of the
accepted part and the bytes behind the chunk balance. -/
theorem write_countsAccepted_iff (unframer : Unframer) (s : σ) (data : Bytes)
    (formed : unframer.WellFormed) {chunk : FailedChunk}
    (failed : unframer.failedChunk stream s data = some chunk) :
    CountsAccepted (unframer.write stream s data) data chunk ↔ chunk.Balanced := by
  obtain ⟨chunk_formed, fails⟩ := failedChunkLoop_fails _ unframer data formed failed
  obtain ⟨isLeast, inside⟩ := chunk_formed.isLeast
  have shorter := chunk_formed.inside
  have reported : (unframer.write stream s data).bytesConsumed =
      (skipConsumed chunk.accepted.length chunk.input).map fun skipped =>
        (data.length : Int) - (chunk.behind + (chunk.input.length - skipped) : Nat) := by
    simp only [write, fails.rewound, fails.behind, Option.map_map, Function.comp_def]
  have balanced : chunk.Balanced ↔ skipConsumed chunk.accepted.length chunk.input =
      some (wireLength chunk.sawEscape chunk.accepted.length chunk.input + chunk.behind) := by
    rw [skipConsumed_eq_some]
    exact ⟨fun both => ⟨inside, both⟩, fun all => all.2⟩
  rw [balanced]
  constructor
  · rintro ⟨count, least, _, consumed⟩
    rw [least.unique isLeast, reported] at consumed
    obtain ⟨skipped, skips, total⟩ := Option.map_eq_some_iff.mp consumed
    have bound := (skipConsumed_eq_some.mp skips).1
    rw [skips, Option.some.injEq]
    omega
  · intro skips
    refine ⟨_, isLeast, by omega, ?_⟩
    rw [reported, skips, Option.map_some, Option.some.injEq]
    omega

def roomFor : WriteStream Nat where
  write room data := ((min room data.length : Nat), room - data.length)
  packetDone room _ := room

def awaiting (remaining : Nat) : Unframer := ⟨.findPacketCrc, false, [], remaining, 0⟩

theorem write_countsAccepted_first :
    CountsAccepted ((awaiting 3).write roomFor 1 [1, 2, 3]) [1, 2, 3] ⟨[1, 2, 3], false, 0, [1]⟩ ↔
      FailedChunk.Balanced ⟨[1, 2, 3], false, 0, [1]⟩ :=
  write_countsAccepted_iff (awaiting 3) 1 [1, 2, 3] rfl (by decide +kernel)

/-- A refused payload byte with a checksum behind it: the input is moved back to two bytes before
its beginning. -/
theorem write_countsAccepted_before :
    (awaiting 1).failedChunk roomFor 0 [1, 2, 3] = some ⟨[1, 2, 3], false, 2, []⟩ ∧
      ¬ CountsAccepted ((awaiting 1).write roomFor 0 [1, 2, 3]) [1, 2, 3]
        ⟨[1, 2, 3], false, 2, []⟩ := by
  refine ⟨by decide +kernel, ?_⟩
  rintro ⟨count, _, _, consumed⟩
  have negative : ((awaiting 1).write roomFor 0 [1, 2, 3]).bytesConsumed = some (-2) := by
    decide +kernel
  rw [negative, Option.some.injEq] at consumed
  omega

end Unframer

end Tvm.MicroRpc
