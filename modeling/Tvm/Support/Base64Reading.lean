import Tvm.Support.Base64

/-!
# What the input stream reads

A quantum of four characters gives three bytes, of which a read that ends inside keeps the last ones.
The stream is described by the bytes that it has still to return.
-/

namespace Tvm.Support

open Tvm.Lib

theorem decode_encodeChar {digit : ℕ} (small : digit < 64) :
    decode (charToInt (encodeChar digit)) = some digit := by
  have all : ∀ digit : Fin 64, decode (charToInt (encodeChar digit)) = some digit.val := by decide
  exact all ⟨digit, small⟩

theorem encodeChar_inside {digit : ℕ} (small : digit < 64) :
    charToInt (encodeChar digit) ≠ EOF ∧ isspace (charToInt (encodeChar digit)) = false ∧
      charToInt (encodeChar digit) ≠ charToInt padChar := by
  have all : ∀ digit : Fin 64, charToInt (encodeChar digit) ≠ EOF ∧
      isspace (charToInt (encodeChar digit)) = false ∧
        charToInt (encodeChar digit) ≠ charToInt padChar := by decide
  exact all ⟨digit, small⟩

theorem padChar_inside : charToInt padChar ≠ EOF ∧ isspace (charToInt padChar) = false := by
  decide

namespace StreamBufferReader

variable {delivery : Delivery} {reader : StreamBufferReader}

structure Valid (reader : StreamBufferReader) : Prop where
  size : reader.buffer.length = 256
  le : reader.readLen ≤ 256

theorem valid_new (stream : List UInt8) : (new stream).Valid ∧ (new stream).pending = stream :=
  ⟨⟨List.length_replicate, (by decide : 1 ≤ 256)⟩, rfl⟩

theorem getChar_spec (delivery : Delivery) (valid : reader.Valid) : (reader.getChar delivery).2.Valid ∧
    match reader.pending with
    | [] => (reader.getChar delivery).1 = EOF ∧ (reader.getChar delivery).2.pending = []
    | c :: rest =>
      (reader.getChar delivery).1 = charToInt c ∧ (reader.getChar delivery).2.pending = rest := by
  obtain ⟨size, le⟩ := valid
  unfold getChar
  by_cases buffered : reader.readPtr < reader.readLen
  · rw [if_pos buffered]
    have inside : reader.readPtr < (reader.buffer.take reader.readLen).length := by
      rw [List.length_take]
      omega
    have isPending : reader.pending = (reader.buffer.take reader.readLen)[reader.readPtr] ::
        ((reader.buffer.take reader.readLen).drop (reader.readPtr + 1) ++ reader.stream) := by
      unfold pending
      rw [List.drop_eq_getElem_cons inside, List.cons_append]
    refine ⟨⟨size, le⟩, ?_⟩
    rw [isPending]
    refine ⟨?_, rfl⟩
    dsimp only
    rw [List.getElem_take, List.getD_eq_getElem]
  · rw [if_neg buffered]
    have isPending : reader.pending = reader.stream := by
      unfold pending
      rw [List.drop_eq_nil_of_le (by rw [List.length_take]; omega), List.nil_append]
    have atMost := delivery.le_size reader.stream reader.buffer.length
    have available := delivery.le_rest reader.stream reader.buffer.length
    have someByte := delivery.some_byte reader.stream reader.buffer.length
    generalize delivery.count reader.stream reader.buffer.length = readLen at *
    rw [isPending]
    dsimp only
    cases isStream : reader.stream with
    | nil =>
      rw [isStream] at available
      obtain rfl := Nat.le_zero.mp available
      rw [if_pos rfl]
      refine ⟨⟨size, Nat.zero_le _⟩, rfl, ?_⟩
      unfold pending
      simp
    | cons c rest =>
      rw [isStream] at available someByte
      have positive := someByte (List.cons_ne_nil c rest) (by omega)
      obtain ⟨count, rfl⟩ := Nat.exists_eq_add_of_lt positive
      rw [Nat.zero_add] at *
      rw [if_neg (Nat.succ_ne_zero count)]
      have filled : (List.take (count + 1) (c :: rest) ++
          reader.buffer.drop (count + 1)).length = 256 := by
        rw [List.length_append, List.length_take, List.length_drop]
        omega
      have taken : (List.take (count + 1) (c :: rest)).length = count + 1 := by
        rw [List.length_take]
        omega
      refine ⟨⟨filled, by dsimp only; omega⟩, ?_, ?_⟩
      · rfl
      · unfold pending
        dsimp only
        rw [List.take_left' taken, List.take_succ_cons, List.drop_succ_cons, List.drop_zero,
          List.drop_succ_cons, List.take_append_drop]

end StreamBufferReader

/-- The characters ahead of a stream, of which `temp_ch_` is the first one. -/
structure Base64InStream.Ahead (strm : Base64InStream) (chars : List UInt8) : Prop where
  valid : strm.reader.Valid
  first : strm.tempCh = match chars with
    | [] => EOF
    | c :: _ => charToInt c
  pending : strm.reader.pending = chars.tail

namespace Base64InStream

variable {delivery : Delivery} {strm : Base64InStream}

theorem ahead_next (delivery : Delivery) {chars : List UInt8} (valid : strm.reader.Valid)
    (pending : strm.reader.pending = chars) : (strm.next delivery).Ahead chars := by
  obtain ⟨nextValid, returned⟩ := StreamBufferReader.getChar_spec delivery valid
  rw [pending] at returned
  cases chars with
  | nil => exact ⟨nextValid, returned.1, returned.2⟩
  | cons c rest => exact ⟨nextValid, returned.1, returned.2⟩

theorem Ahead.next {chars : List UInt8} (ahead : strm.Ahead chars) :
    (strm.next delivery).Ahead chars.tail :=
  ahead_next delivery ahead.valid ahead.pending

/-- What is kept in `buf_prev`. -/
def kept (strm : Base64InStream) : List UInt8 :=
  [strm.bufPrev.1, strm.bufPrev.2].take strm.numPrev

theorem length_kept (atMost : strm.numPrev ≤ 2) : strm.kept.length = strm.numPrev := by
  unfold kept
  rw [List.length_take]
  exact Nat.min_eq_left atMost

end Base64InStream

namespace Base64Read

variable {delivery : Delivery} {start : List UInt8} {room : ℕ} {taken : List UInt8}
  {state : Base64Read}

/-- Bytes that have been taken since there was room for some are behind `ptr`, and kept where there
was none. -/
structure Taken (start : List UInt8) (room : ℕ) (taken : List UInt8) (state : Base64Read) :
    Prop where
  out : state.out = start ++ taken.take room
  kept : state.strm.kept = taken.drop room
  tlen : state.tlen = room - taken.length
  atMost : state.strm.numPrev ≤ 2

theorem Taken.next (isTaken : Taken start room taken state) (delivery : Delivery) :
    Taken start room taken (state.next delivery) :=
  ⟨isTaken.out, isTaken.kept, isTaken.tlen, isTaken.atMost⟩

theorem Taken.emit (isTaken : Taken start room taken state) (fits : state.tlen ≠ 0) (value : ℕ) :
    Taken start room (taken ++ [UInt8.ofNat (value &&& 0xFF)]) (state.emit value) := by
  obtain ⟨out, kept, tlen, atMost⟩ := isTaken
  have less : taken.length < room := by omega
  refine ⟨?_, ?_, ?_, atMost⟩
  · rw [Base64Read.emit, out, List.take_of_length_le (Nat.le_of_lt less),
      List.take_of_length_le (by rw [List.length_append]; exact less), List.append_assoc]
  · rw [List.drop_eq_nil_of_le (Nat.le_of_lt less)] at kept
    rw [List.drop_eq_nil_of_le (by rw [List.length_append]; exact less)]
    exact kept
  · rw [List.length_append]
    exact (congrArg (· - 1) tlen).trans (Nat.sub_sub room taken.length 1)

theorem Taken.put (isTaken : Taken start room taken state) (fits : taken.length < room + 2)
    (value : ℕ) :
    ∃ after, state.put value = some after ∧
      Taken start room (taken ++ [UInt8.ofNat (value &&& 0xFF)]) after ∧
        after.strm.reader = state.strm.reader ∧ after.strm.tempCh = state.strm.tempCh := by
  unfold Base64Read.put
  by_cases some_room : state.tlen ≠ 0
  · rw [if_pos some_room]
    exact ⟨_, rfl, isTaken.emit some_room value, rfl, rfl⟩
  · rw [if_neg some_room]
    obtain ⟨out, kept, tlen, atMost⟩ := isTaken
    have full : room ≤ taken.length := by omega
    have number : state.strm.numPrev = taken.length - room := by
      rw [← Base64InStream.length_kept atMost, kept, List.length_drop]
    have out' : state.out =
        start ++ (taken ++ [UInt8.ofNat (value &&& 0xFF)]).take room := by
      rw [out, List.take_append_of_le_length full]
    have kept' : state.strm.kept ++ [UInt8.ofNat (value &&& 0xFF)] =
        (taken ++ [UInt8.ofNat (value &&& 0xFF)]).drop room := by
      rw [kept, List.drop_append_of_le_length full]
    have tlen' : state.tlen =
        room - (taken ++ [UInt8.ofNat (value &&& 0xFF)]).length := by
      rw [List.length_append]
      omega
    unfold Base64InStream.kept at kept'
    dsimp only
    split
    · rename_i none
      rw [none] at kept'
      exact ⟨_, rfl, ⟨out', kept', tlen', Nat.le_succ 1⟩, rfl, rfl⟩
    · rename_i one
      rw [one] at kept'
      exact ⟨_, rfl, ⟨out', kept', tlen', le_rfl⟩, rfl, rfl⟩
    · rename_i notNone notOne
      have few : state.strm.numPrev = 0 ∨ state.strm.numPrev = 1 := by omega
      exact (few.elim notNone notOne).elim

theorem checkInside_eq {digit : ℕ} (small : digit < 64)
    (here : state.strm.tempCh = charToInt (encodeChar digit)) : state.checkInside = some () := by
  obtain ⟨notEnd, notSpace, -⟩ := encodeChar_inside small
  unfold checkInside
  rw [here, if_pos ⟨notEnd, by rw [notSpace]; exact Bool.false_ne_true⟩]

theorem checkInside_pad (here : state.strm.tempCh = charToInt padChar) :
    state.checkInside = some () := by
  obtain ⟨notEnd, notSpace⟩ := padChar_inside
  unfold checkInside
  rw [here, if_pos ⟨notEnd, by rw [notSpace]; exact Bool.false_ne_true⟩]

/-- A space or nothing stands behind the characters of the data. -/
def Ends (behind : List UInt8) : Prop :=
  ∀ c, behind.head? = some c → isspace (charToInt c) = true

theorem checkEnd_eq {behind : List UInt8} (ends : Ends behind)
    (ahead : state.strm.Ahead behind) : state.checkEnd = some () := by
  have first := ahead.first
  unfold checkEnd
  cases behind with
  | nil => rw [if_pos (.inl first)]
  | cons c rest =>
    dsimp only at first
    rw [first, if_pos (.inr (ends c rfl))]

section Quantum

variable {c : UInt8} {chars behind : List UInt8} {digit : ℕ}

theorem fourthByte_pad (delivery : Delivery) (nvalue : ℕ) (ends : Ends behind)
    (isTaken : Taken start room taken state)
    (ahead : state.strm.Ahead (c :: padChar :: behind)) :
    ∃ after, state.fourthByte delivery nvalue = some (after, false) ∧
      Taken start room taken after ∧ after.strm.Ahead behind := by
  have here : (state.next delivery).strm.Ahead (padChar :: behind) := ahead.next
  have last : ((state.next delivery).next delivery).strm.Ahead behind := here.next
  refine ⟨_, ?_, (isTaken.next delivery).next delivery, last⟩
  unfold fourthByte
  simp only [checkInside_pad here.first, here.first, checkEnd_eq ends last, Option.bind_eq_bind,
    Option.bind_some, if_true]

theorem fourthByte_digit (delivery : Delivery) (nvalue : ℕ) (small : digit < 64)
    (isTaken : Taken start room taken state)
    (fits : taken.length < room + 2)
    (ahead : state.strm.Ahead (c :: encodeChar digit :: chars)) :
    ∃ after, state.fourthByte delivery nvalue = some (after, true) ∧
      Taken start room (taken ++ [UInt8.ofNat ((nvalue ||| digit) &&& 0xFF)]) after ∧
        after.strm.Ahead chars := by
  have here : (state.next delivery).strm.Ahead (encodeChar digit :: chars) := ahead.next
  obtain ⟨after, puts, afterTaken, reader, -⟩ := (isTaken.next delivery).put fits (nvalue ||| digit)
  refine ⟨after.next delivery, ?_, afterTaken.next delivery, ?_⟩
  · unfold fourthByte
    simp only [checkInside_eq small here.first, here.first, (encodeChar_inside small).2.2,
      decode_encodeChar small, puts, Option.bind_eq_bind, Option.bind_some, if_false]
  · apply Base64InStream.ahead_next delivery
    · rw [reader]
      exact here.valid
    · rw [reader]
      exact here.pending

theorem thirdByte_pad (delivery : Delivery) (nvalue : ℕ) (ends : Ends behind)
    (isTaken : Taken start room taken state)
    (ahead : state.strm.Ahead (c :: padChar :: padChar :: behind)) :
    ∃ after, state.thirdByte delivery nvalue = some (after, false) ∧
      Taken start room taken after ∧ after.strm.Ahead behind := by
  have here : (state.next delivery).strm.Ahead (padChar :: padChar :: behind) := ahead.next
  have second : ((state.next delivery).next delivery).strm.Ahead (padChar :: behind) := here.next
  have last : (((state.next delivery).next delivery).next delivery).strm.Ahead behind :=
    second.next
  refine ⟨_, ?_, ((isTaken.next delivery).next delivery).next delivery, last⟩
  unfold thirdByte
  simp only [checkInside_pad here.first, here.first, second.first, checkEnd_eq ends last,
    Option.bind_eq_bind, Option.bind_some, if_true]

theorem thirdByte_digit (delivery : Delivery) (nvalue : ℕ) (small : digit < 64)
    (isTaken : Taken start room taken state)
    (fits : taken.length < room + 2)
    (ahead : state.strm.Ahead (c :: encodeChar digit :: chars)) :
    ∃ after, state.thirdByte delivery nvalue =
        after.fourthByte delivery (nvalue ||| (digit <<< 6)) ∧
      Taken start room
        (taken ++ [UInt8.ofNat ((nvalue ||| (digit <<< 6)) >>> 8 &&& 0xFF)]) after ∧
        after.strm.Ahead (encodeChar digit :: chars) := by
  have here : (state.next delivery).strm.Ahead (encodeChar digit :: chars) := ahead.next
  obtain ⟨after, puts, afterTaken, reader, tempCh⟩ := (isTaken.next delivery).put fits
    ((nvalue ||| (digit <<< 6)) >>> 8)
  refine ⟨after, ?_, afterTaken, ?_⟩
  · unfold thirdByte
    simp only [checkInside_eq small here.first, here.first, (encodeChar_inside small).2.2,
      decode_encodeChar small, puts, Option.bind_eq_bind, Option.bind_some, if_false]
  · refine ⟨?_, tempCh.trans here.first, ?_⟩
    · rw [reader]
      exact here.valid
    · rw [reader]
      exact here.pending

theorem quantum_digits (delivery : Delivery) {first second : ℕ} (smallFirst : first < 64)
    (smallSecond : second < 64) (isTaken : Taken start room [] state) (fits : state.tlen ≠ 0)
    (ahead : state.strm.Ahead (encodeChar first :: encodeChar second :: chars)) :
    ∃ after, state.quantum delivery =
        after.thirdByte delivery ((first <<< 18) ||| (second <<< 12)) ∧
      Taken start room
        [UInt8.ofNat (((first <<< 18) ||| (second <<< 12)) >>> 16 &&& 0xFF)] after ∧
        after.strm.Ahead (encodeChar second :: chars) := by
  have here : (state.next delivery).strm.Ahead (encodeChar second :: chars) := ahead.next
  refine ⟨(state.next delivery).emit (((first <<< 18) ||| (second <<< 12)) >>> 16), ?_,
    (isTaken.next delivery).emit fits _, here⟩
  unfold quantum
  simp only [ahead.first, checkInside_eq smallSecond here.first, here.first,
    decode_encodeChar smallFirst, decode_encodeChar smallSecond, Option.bind_eq_bind,
    Option.bind_some]

theorem first_byte (a : UInt8) {second : ℕ} (isSecond : second / 16 = a.toNat % 4) :
    UInt8.ofNat (((a.toNat / 4) <<< 18 ||| second <<< 12) >>> 16 &&& 0xFF) = a := by
  have bound := a.toNat_lt
  apply UInt8.toNat_inj.mp
  rw [UInt8.toNat_ofNat', join_two (by omega), Nat.shiftRight_eq_div_pow,
    and_two_hundred_fifty_five]
  omega

theorem second_byte (a b : UInt8) {third : ℕ} (isThird : third / 4 = b.toNat % 16) :
    UInt8.ofNat (((a.toNat / 4) <<< 18 ||| (a.toNat % 4 * 16 + b.toNat / 16) <<< 12 |||
      third <<< 6) >>> 8 &&& 0xFF) = b := by
  have bound := a.toNat_lt
  have boundB := b.toNat_lt
  apply UInt8.toNat_inj.mp
  rw [UInt8.toNat_ofNat', join_two (by omega), join_three (by omega), Nat.shiftRight_eq_div_pow,
    and_two_hundred_fifty_five]
  omega

theorem third_byte (a b c : UInt8) :
    UInt8.ofNat (((a.toNat / 4) <<< 18 ||| (a.toNat % 4 * 16 + b.toNat / 16) <<< 12 |||
      (b.toNat % 16 * 4 + c.toNat / 64) <<< 6 ||| c.toNat % 64) &&& 0xFF) = c := by
  have bound := a.toNat_lt
  have boundB := b.toNat_lt
  have boundC := c.toNat_lt
  apply UInt8.toNat_inj.mp
  rw [UInt8.toNat_ofNat', join_two (by omega), join_three (by omega), join_four (by omega),
    and_two_hundred_fifty_five]
  omega

theorem quantum_spec (delivery : Delivery) {data : List UInt8} (ends : Ends behind) (some_data : data ≠ [])
    (isTaken : Taken start room [] state) (fits : state.tlen ≠ 0)
    (ahead : state.strm.Ahead (base64Alphabet.encode data ++ behind)) :
    ∃ after continues, state.quantum delivery = some (after, continues) ∧
      Taken start room (data.take 3) after ∧
        after.strm.Ahead (base64Alphabet.encode (data.drop 3) ++ behind) ∧
          (continues = false → data.drop 3 = []) := by
  have some_room : 0 < room := by
    have tlen := isTaken.tlen
    omega
  match data with
  | [] => exact absurd rfl some_data
  | [a] =>
    have bound := a.toNat_lt
    obtain ⟨second, quantum, secondTaken, secondAhead⟩ :=
      quantum_digits delivery (by omega) (by omega : a.toNat % 4 * 16 < 64) isTaken fits ahead
    rw [first_byte a (by omega)] at secondTaken
    obtain ⟨after, third, afterTaken, afterAhead⟩ :=
      thirdByte_pad delivery _ ends secondTaken secondAhead
    exact ⟨after, false, quantum.trans third, afterTaken, afterAhead, fun _ => rfl⟩
  | [a, b] =>
    have bound := a.toNat_lt
    have boundB := b.toNat_lt
    obtain ⟨second, quantum, secondTaken, secondAhead⟩ :=
      quantum_digits delivery (by omega) (by omega) isTaken fits ahead
    rw [first_byte a (by omega)] at secondTaken
    obtain ⟨third, isThird, thirdTaken, thirdAhead⟩ :=
      thirdByte_digit delivery _ (by omega : b.toNat % 16 * 4 < 64) secondTaken
        (by rw [List.length_singleton]; omega) secondAhead
    rw [second_byte a b (by omega)] at thirdTaken
    obtain ⟨after, fourth, afterTaken, afterAhead⟩ :=
      fourthByte_pad delivery _ ends thirdTaken thirdAhead
    exact ⟨after, false, (quantum.trans isThird).trans fourth, afterTaken, afterAhead,
      fun _ => rfl⟩
  | a :: b :: c :: rest =>
    have bound := a.toNat_lt
    have boundB := b.toNat_lt
    have boundC := c.toNat_lt
    obtain ⟨second, quantum, secondTaken, secondAhead⟩ :=
      quantum_digits delivery (by omega) (by omega) isTaken fits ahead
    rw [first_byte a (by omega)] at secondTaken
    obtain ⟨third, isThird, thirdTaken, thirdAhead⟩ :=
      thirdByte_digit delivery _ (by omega) secondTaken (by rw [List.length_singleton]; omega)
        secondAhead
    rw [second_byte a b (by omega)] at thirdTaken
    obtain ⟨after, fourth, afterTaken, afterAhead⟩ :=
      fourthByte_digit delivery _ (by omega) thirdTaken
        (by rw [List.length_append, List.length_singleton]; exact Nat.add_lt_add_right some_room 2)
        thirdAhead
    rw [third_byte a b c] at afterTaken
    exact ⟨after, true, (quantum.trans isThird).trans fourth, afterTaken, afterAhead,
      fun stops => (by cases stops)⟩

end Quantum

end Base64Read

end Tvm.Support
