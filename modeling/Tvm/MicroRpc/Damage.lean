import Tvm.MicroRpc.RoundTrip

/-!
# Damage on the wire

The checksum of `libcrc` tells a packet in which one or two adjacent bytes have changed.
-/

namespace Tvm.MicroRpc

open Tvm.Lib Tvm.Crt WireParser

/-- The place in the table that `update_crc_ccitt` reads. -/
def crcIndex (crc : UInt16) (c : UInt8) : UInt16 := ((crc >>> 8) ^^^ c.toUInt16) &&& 0x00ff

variable {crc crc' : UInt16} {c c' : UInt8}

theorem mem_of_testBit {i : Nat} {places : List Nat}
    (bit : (places.foldr (fun place bits => 2 ^ place ||| bits) 0).testBit i) : i ∈ places := by
  induction places with
  | nil => simp at bit
  | cons place places ih =>
    rw [List.foldr_cons, Nat.testBit_or, Nat.testBit_two_pow, Bool.or_eq_true, decide_eq_true_eq] at bit
    rcases bit with rfl | bit
    · exact List.mem_cons_self
    · exact List.mem_cons_of_mem place (ih bit)

/-- Each byte is the low byte of one entry of the table. -/
theorem crcTabccitt_low : (crcTabccitt.toList.map (· &&& 0x00ff)).Nodup := by
  have all : ((crcTabccitt.toList.map (· &&& 0x00ff)).map UInt16.toNat).foldr
      (fun place bits => 2 ^ place ||| bits) 0 = 2 ^ 256 - 1 := by decide +kernel
  have covers : List.range 256 ⊆ (crcTabccitt.toList.map (· &&& 0x00ff)).map UInt16.toNat := by
    intro i inside
    apply mem_of_testBit
    rw [all, Nat.testBit_two_pow_sub_one, decide_eq_true (List.mem_range.mp inside)]
  have perm := (List.subperm_of_subset List.nodup_range covers).perm_of_length_le (by decide +kernel)
  exact (perm.nodup_iff.mp List.nodup_range).of_map _

theorem crcIndex_lt (crc : UInt16) (c : UInt8) : (crcIndex crc c).toNat < 256 := by
  rw [crcIndex, UInt16.toNat_and]
  exact Nat.and_lt_two_pow _ (by decide : (0x00ff : UInt16).toNat < 2 ^ 8)

theorem getLsbD_low (i : Nat) : (255#16).getLsbD i = decide (i < 8) := by
  rw [BitVec.getLsbD_ofNat, show 255 = 2 ^ 8 - 1 from rfl, Nat.testBit_two_pow_sub_one]
  by_cases small : i < 8
  · simp [small, small.trans (by decide : 8 < 16)]
  · simp [small]

theorem crcIndex_bit (crc : UInt16) (c : UInt8) {i : Nat} (small : i < 8) :
    (crcIndex crc c).toBitVec.getLsbD i =
      (crc.toBitVec.getLsbD (8 + i) ^^ c.toBitVec.getLsbD i) := by
  simp [crcIndex, getLsbD_low, small, small.trans (by decide : 8 < 16)]

theorem updateCrcCcitt_bit (crc : UInt16) (c : UInt8) (i : Nat) :
    (updateCrcCcitt crc c).toBitVec.getLsbD i =
      ((decide (i < 16) && !decide (i < 8) && crc.toBitVec.getLsbD (i - 8)) ^^
        (crcTabccitt.getD (crcIndex crc c).toNat 0).toBitVec.getLsbD i) := by
  simp [updateCrcCcitt, crcIndex]

/-- The low bytes of two checksums tell which places of the table they come from. -/
theorem crcIndex_of_low (low : ∀ i < 8, (updateCrcCcitt crc c).toBitVec.getLsbD i =
    (updateCrcCcitt crc' c').toBitVec.getLsbD i) : crcIndex crc c = crcIndex crc' c' := by
  have size : crcTabccitt.size = 256 := by decide +kernel
  have bound := crcIndex_lt crc c
  have bound' := crcIndex_lt crc' c'
  apply UInt16.toNat_inj.mp
  have entry : ∀ {j}, j < 256 →
      (crcTabccitt.toList.map (· &&& 0x00ff))[j]? = some (crcTabccitt.getD j 0 &&& 0x00ff) := by
    intro j small
    simp [Array.getD, size, small]
  apply (List.getElem?_inj (by simpa [size] using bound) crcTabccitt_low).mp
  rw [entry bound, entry bound', Option.some.injEq]
  apply UInt16.toBitVec_inj.mp
  apply BitVec.eq_of_getLsbD_eq
  intro i _
  by_cases small : i < 8
  · have := low i small
    rw [updateCrcCcitt_bit, updateCrcCcitt_bit] at this
    simpa [small, getLsbD_low] using this
  · simp [small, getLsbD_low]

theorem bits_of_updateCrcCcitt (same : updateCrcCcitt crc c = updateCrcCcitt crc' c') :
    ∀ i < 8, crc.toBitVec.getLsbD i = crc'.toBitVec.getLsbD i ∧
      (crc.toBitVec.getLsbD (8 + i) ^^ c.toBitVec.getLsbD i) =
        (crc'.toBitVec.getLsbD (8 + i) ^^ c'.toBitVec.getLsbD i) := by
  intro i small
  have index : crcIndex crc c = crcIndex crc' c' := crcIndex_of_low fun _ _ => by rw [same]
  constructor
  · have bit := congrArg (fun word => word.toBitVec.getLsbD (8 + i)) same
    simp only [updateCrcCcitt_bit, index] at bit
    simpa [show 8 + i < 16 by omega] using bit
  · rw [← crcIndex_bit _ _ small, ← crcIndex_bit _ _ small, index]

theorem updateCrcCcitt_state (same : updateCrcCcitt crc c = updateCrcCcitt crc' c) : crc = crc' := by
  have bits := bits_of_updateCrcCcitt same
  apply UInt16.toBitVec_inj.mp
  apply BitVec.eq_of_getLsbD_eq
  intro i bound
  by_cases small : i < 8
  · exact (bits i small).1
  · have high := (bits (i - 8) (by omega)).2
    rw [show 8 + (i - 8) = i by omega] at high
    simpa using high

theorem crcIndex_byte (same : crcIndex crc c = crcIndex crc c') : c = c' := by
  apply UInt8.toBitVec_inj.mp
  apply BitVec.eq_of_getLsbD_eq
  intro i small
  have bit := congrArg (fun word => word.toBitVec.getLsbD i) same
  simp only [crcIndex_bit _ _ small] at bit
  simpa using bit

theorem crc16Compute_state (data : Bytes)
    (same : crc16Compute data (some crc) = crc16Compute data (some crc')) : crc = crc' := by
  induction data generalizing crc crc' with
  | nil => exact same
  | cons c data ih => exact updateCrcCcitt_state (ih same)

/-- Two adjacent bytes are told by the checksum behind them. -/
theorem crc16Compute_pair {a b a' b' : UInt8}
    (same : crc16Compute [a, b] (some crc) = crc16Compute [a', b'] (some crc)) : a = a' ∧ b = b' := by
  change updateCrcCcitt (updateCrcCcitt crc a) b = updateCrcCcitt (updateCrcCcitt crc a') b' at same
  have bits := bits_of_updateCrcCcitt same
  obtain rfl := crcIndex_byte (crcIndex_of_low fun i small => (bits i small).1)
  exact ⟨rfl, crcIndex_byte (crcIndex_of_low fun _ _ => by rw [same])⟩

/-- No other bytes in the same place, if they are two at most, have the same checksum. -/
theorem crc16Compute_burst {before middle middle' after : Bytes} {previous : Option UInt16}
    (sameLength : middle.length = middle'.length) (short : middle.length ≤ 2)
    (same : crc16Compute (before ++ middle ++ after) previous =
      crc16Compute (before ++ middle' ++ after) previous) : middle = middle' := by
  simp only [crc16Compute_append] at same
  have inside := crc16Compute_state after same
  generalize crc16Compute before previous = crc at inside
  match middle, middle', sameLength, short with
  | [], [], _, _ => rfl
  | [a], [a'], _, _ =>
    have last : updateCrcCcitt crc a = updateCrcCcitt crc a' := inside
    have index : crcIndex crc a = crcIndex crc a' := crcIndex_of_low fun _ _ => by rw [last]
    rw [crcIndex_byte index]
  | [a, b], [a', b'], _, _ =>
    obtain ⟨rfl, rfl⟩ := crc16Compute_pair inside
    rfl

/-- The frame of a payload, with other bytes in the place of those between `before` and `after`. -/
def damagedFrame (before middle middle' after : Bytes) : Bytes :=
  [kEscapeStart, kPacketStart] ++
    escapeBytes (leBytes kPayloadLength (before ++ middle ++ after).length) ++
      (escapeBytes before ++ middle' ++ escapeBytes after) ++
    escapeBytes (leBytes kCrc (frameCrc (before ++ middle ++ after)).toNat)

theorem escapeBytes_plain {data : Bytes} (plain : kEscapeStart ∉ data) : escapeBytes data = data := by
  induction data with
  | nil => rfl
  | cons c rest ih =>
    obtain ⟨other, others⟩ := not_or.mp (mt List.mem_cons.mpr plain)
    rw [escapeBytes_cons, ih others, escapeByte, if_neg (Ne.symm other)]
    rfl

theorem reads_damagedFrame {before middle middle' after : Bytes} (sawEscape : Bool)
    (plain : kEscapeStart ∉ middle) (plain' : kEscapeStart ∉ middle')
    (sameLength : middle'.length = middle.length) (burst : middle.length ≤ 2)
    (damaged : middle' ≠ middle) (short : (before ++ middle ++ after).length < 2 ^ 32) :
    Reads ⟨sawEscape, .hunting⟩ (damagedFrame before middle middle' after)
      ((before ++ middle' ++ after).map .byte ++ [.packetDone false]) ⟨false, .hunting⟩ := by
  have same : (before ++ middle' ++ after).length = (before ++ middle ++ after).length := by
    simp [sameLength]
  have isPrefix : framePrefix (before ++ middle' ++ after) = [kEscapeStart, kPacketStart] ++
      escapeBytes (leBytes kPayloadLength (before ++ middle ++ after).length) ++
        (escapeBytes before ++ middle' ++ escapeBytes after) := by
    rw [framePrefix, same, escapeBytes_append, escapeBytes_append, escapeBytes_plain plain']
  have detected : frameCrc (before ++ middle' ++ after) ≠ frameCrc (before ++ middle ++ after) := by
    intro equal
    rw [frameCrc, frameCrc, isPrefix, framePrefix, escapeBytes_append, escapeBytes_append,
      escapeBytes_plain plain] at equal
    simp only [← List.append_assoc] at equal
    exact damaged (crc16Compute_burst sameLength (sameLength ▸ burst) equal)
  have read := (reads_framePrefix sawEscape (before ++ middle' ++ after) (by rwa [same])).append
    (reads_trailer (frameCrc (before ++ middle' ++ after)) (frameCrc (before ++ middle ++ after)).toNat
      (frameCrc (before ++ middle ++ after)).toNat_lt)
  rw [beq_eq_false_iff_ne.mpr (mt UInt16.toNat_inj.mp detected), isPrefix] at read
  exact read

theorem frameAll_split (state : Framer.State) (earlier later : List Bytes) (payload : Bytes) :
    ∃ state', frameAll state (earlier ++ payload :: later) =
      frameAll state earlier ++ framePreamble state' ++ frame payload ++ frameAll .idle later := by
  induction earlier generalizing state with
  | nil => exact ⟨state, by simp [frameAll]⟩
  | cons first earlier ih =>
    obtain ⟨state', rest⟩ := ih .idle
    exact ⟨state', by simp [frameAll, rest]⟩

universe u v

variable {σ : Type u} {τ : Type v}

/-- One or two bytes of a payload that change on the wire: the packet arrives as not valid,
and all others as they were sent. -/
theorem unframer_detects_damage (up : WriteStream σ) (down : WriteStream τ)
    (upAccepts : up.Accepts) (downAccepts : down.Accepts) (s : σ) (t : τ) (framer : Framer)
    (packets earlier later : List (List Bytes)) (chunks : List Bytes)
    (before middle middle' after : Bytes) (within : packets = earlier ++ chunks :: later)
    (payload : chunks.flatten = before ++ middle ++ after)
    (short : ∀ packet ∈ packets, packet.flatten.length < 2 ^ 32)
    (plain : kEscapeStart ∉ middle) (plain' : kEscapeStart ∉ middle')
    (sameLength : middle'.length = middle.length) (burst : middle.length ≤ 2)
    (damaged : middle' ≠ middle) :
    ∃ front back,
      WriteStream.bytesOf (framer.sendPackets up.logged (s, []) packets).stream.2 =
        front ++ middle ++ back ∧
      ∀ pieces : List Bytes, pieces.flatten = front ++ middle' ++ back →
        (Unframer.new.writePieces down.logged (t, []) pieces).outcomes =
            pieces.map (fun piece => (.noError, some (piece.length : Int))) ∧
          (Unframer.new.writePieces down.logged (t, []) pieces).stream.2 =
            earlier.flatMap (fun packet => packetEvents packet.flatten) ++
              ((before ++ middle' ++ after).map .byte ++ [.packetDone false]) ++
              later.flatMap fun packet => packetEvents packet.flatten := by
  subst within
  obtain ⟨s', framer', sent, sending⟩ := Framer.sendPackets_of_takes (earlier ++ chunks :: later)
    framer (upAccepts.logged.takes (s, []) _)
  have onWire : s'.2 =
      (frameAll framer.state ((earlier ++ chunks :: later).map List.flatten)).map .byte := by
    simpa using sending.log
  obtain ⟨state', split⟩ := frameAll_split framer.state (earlier.map List.flatten)
    (later.map List.flatten) chunks.flatten
  obtain ⟨saw, reads⟩ := reads_frameAll framer.state false (earlier.map List.flatten)
    (by simpa using fun packet inEarlier => short packet (by simp [inEarlier]))
  obtain ⟨saw', preamble⟩ := reads_framePreamble state' saw
  have here := reads_damagedFrame saw' plain plain' sameLength burst damaged
    (payload ▸ short chunks (by simp))
  obtain ⟨saw'', others⟩ := reads_frameAll .idle false (later.map List.flatten)
    (by simpa using fun packet inLater => short packet (by simp [inLater]))
  have all := ((reads.append preamble).append here).append others
  refine ⟨frameAll framer.state (earlier.map List.flatten) ++ framePreamble state' ++
    [kEscapeStart, kPacketStart] ++
    escapeBytes (leBytes kPayloadLength (before ++ middle ++ after).length) ++ escapeBytes before,
    escapeBytes after ++ escapeBytes (leBytes kCrc (frameCrc (before ++ middle ++ after)).toNat) ++
      frameAll .idle (later.map List.flatten), ?_, fun pieces cut => ?_⟩
  · rw [sent]
    simp only [onWire, WriteStream.bytesOf_map_byte, List.map_append, List.map_cons]
    rw [split, payload]
    simp [frame, framePrefix, escapeBytes_append, escapeBytes_plain plain]
  · have wire : pieces.flatten = frameAll framer.state (earlier.map List.flatten) ++
        framePreamble state' ++ damagedFrame before middle middle' after ++
        frameAll .idle (later.map List.flatten) := by
      simp [cut, damagedFrame]
    rw [← wire] at all
    obtain ⟨outcomes, _, _, receiving⟩ := Unframer.writePieces_of_reads pieces Unframer.new
      Unframer.new_wellFormed all (downAccepts.logged.takes (t, []) _)
    refine ⟨outcomes, ?_⟩
    rw [receiving.log]
    simp [List.flatMap_map]

theorem unframer_detects_damage_flip : ∃ front back,
    WriteStream.bytesOf (Framer.new.sendPackets WriteStream.sink.logged ((), [])
        [[[7]], [[0xff, 1], [2, 3]], []]).stream.2 = front ++ [1, 2] ++ back ∧
      ∀ pieces : List Bytes, pieces.flatten = front ++ [1, 0x82] ++ back →
        (Unframer.new.writePieces WriteStream.sink.logged ((), []) pieces).outcomes =
            pieces.map (fun piece => (.noError, some (piece.length : Int))) ∧
          (Unframer.new.writePieces WriteStream.sink.logged ((), []) pieces).stream.2 =
            packetEvents [7] ++ ([0xff, 1, 0x82, 3].map .byte ++ [.packetDone false]) ++
              packetEvents [] :=
  unframer_detects_damage WriteStream.sink WriteStream.sink WriteStream.sink_accepts
    WriteStream.sink_accepts () () Framer.new [[[7]], [[0xff, 1], [2, 3]], []] [[[7]]] [[]]
    [[0xff, 1], [2, 3]] [0xff] [1, 2] [1, 0x82] [3] rfl rfl (by simp) (by decide) (by decide) rfl
    (by decide) (by decide)

end Tvm.MicroRpc
