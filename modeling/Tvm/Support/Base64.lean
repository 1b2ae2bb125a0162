import Tvm.Lib.Base64

/-!
# The streams of `support/base64.h`

A character of a stream is a `UInt8`, as `int` a signed number; `EOF` is -1.  `none` is a failed
`ICHECK` or an index outside a table or buffer.
-/

namespace Tvm.Support

open Tvm.Lib

def EOF : Int := -1

/-- `static_cast<int>` of a `char`. -/
def charToInt (c : UInt8) : Int :=
  c.toInt8.toInt

def isspace (c : Int) : Bool :=
  c = 32 ∨ 9 ≤ c ∧ c ≤ 13

def decodeTable : List ℕ :=
  [0, 0, 0, 0, 0, 0, 0, 0, 0, 0, 0, 0, 0, 0, 0, 0, 0, 0, 0, 0, 0, 0,
    0, 0, 0, 0, 0, 0, 0, 0, 0, 0, 0, 0, 0, 0, 0, 0, 0, 0, 0, 0, 0,
    62,
    0, 0, 0,
    63,
    52, 53, 54, 55, 56, 57, 58, 59, 60, 61,
    0, 0, 0, 0, 0, 0, 0, 0, 1, 2, 3, 4, 5, 6, 7, 8, 9, 10, 11, 12, 13, 14,
    15, 16, 17, 18, 19, 20, 21, 22, 23, 24, 25,
    0, 0, 0, 0, 0, 0, 26, 27, 28, 29, 30, 31, 32, 33, 34, 35, 36, 37, 38, 39, 40, 41,
    42, 43, 44, 45, 46, 47, 48, 49, 50, 51]

/-- `DecodeTable[ch]`. -/
def decode (ch : Int) : Option ℕ :=
  if ch < 0 then none else decodeTable[ch.toNat]?

/-- The letters `A` to `Z` and `a` to `z`, the digits, `+` and `/`. -/
def encodeTable : List UInt8 :=
  [65, 66, 67, 68, 69, 70, 71, 72, 73, 74, 75, 76, 77, 78, 79, 80, 81, 82, 83, 84, 85, 86, 87, 88,
    89, 90, 97, 98, 99, 100, 101, 102, 103, 104, 105, 106, 107, 108, 109, 110, 111, 112, 113, 114,
    115, 116, 117, 118, 119, 120, 121, 122, 48, 49, 50, 51, 52, 53, 54, 55, 56, 57, 43, 47]

/-- `EncodeTable[digit]`; every digit is below 64. -/
def encodeChar (digit : ℕ) : UInt8 :=
  encodeTable.getD digit 0

def padChar : UInt8 := 61

/-- `buf_[1]` to `buf_[buf__top_]` are `buf`; `written` is what has been given to `fp_`. -/
structure Base64OutStream where
  written : List UInt8
  buf : List UInt8
  outBuf : List UInt8

namespace Base64OutStream

def kBufferSize : ℕ := 256

variable (strm : Base64OutStream)

def new : Base64OutStream :=
  ⟨[], [], []⟩

def flush : Base64OutStream :=
  { strm with written := strm.written ++ strm.outBuf, outBuf := [] }

def putChar (ch : UInt8) : Base64OutStream :=
  let strm := { strm with outBuf := strm.outBuf ++ [ch] }
  if kBufferSize ≤ strm.outBuf.length then strm.flush else strm

def putChars (chars : List UInt8) : Base64OutStream :=
  chars.foldl putChar strm

/-- Three bytes in the buffer are four characters. -/
def flushBuf : Base64OutStream :=
  match strm.buf with
  | [a, b, c] =>
    { strm.putChars [encodeChar (a.toNat >>> 2),
        encodeChar (((a.toNat <<< 4) ||| (b.toNat >>> 4)) &&& 0x3F),
        encodeChar (((b.toNat <<< 2) ||| (c.toNat >>> 6)) &&& 0x3F),
        encodeChar (c.toNat &&& 0x3F)] with buf := [] }
  | _ => strm

/-- The turns of the outer loop of `Write`; each one takes a byte at least. -/
def writeLoop : ℕ → Base64OutStream → List UInt8 → Base64OutStream
  | 0, strm, _ => strm
  | fuel + 1, strm, data =>
    if data = [] then strm
    else
      let room := 3 - strm.buf.length
      let filled := { strm with buf := strm.buf ++ data.take room }
      writeLoop fuel filled.flushBuf (data.drop room)

def write (data : List UInt8) : Base64OutStream :=
  writeLoop data.length strm data

/-- `Finish`; no character is appended for `EOF`. -/
def finish (endch : Option UInt8) : Base64OutStream :=
  let strm := match strm.buf with
    | [a] => strm.putChars [encodeChar (a.toNat >>> 2), encodeChar ((a.toNat <<< 4) &&& 0x3F),
        padChar, padChar]
    | [a, b] => strm.putChars [encodeChar (a.toNat >>> 2),
        encodeChar (((a.toNat <<< 4) ||| (b.toNat >>> 4)) &&& 0x3F),
        encodeChar ((b.toNat <<< 2) &&& 0x3F), padChar]
    | _ => strm
  let strm := { strm with buf := [] }
  let strm := match endch with
    | some ch => strm.putChar ch
    | none => strm
  strm.flush

end Base64OutStream

/-- What a stream holds after the writes and `Finish`. -/
def encodeWrites (writes : List (List UInt8)) (endch : Option UInt8) : List UInt8 :=
  ((writes.foldl Base64OutStream.write .new).finish endch).written

/-- How many bytes the `Read` of the underlying stream delivers: at most those that are asked for
and left, and none only if none is left. -/
structure Delivery where
  count : List UInt8 → ℕ → ℕ
  le_size : ∀ rest size, count rest size ≤ size
  le_rest : ∀ rest size, count rest size ≤ rest.length
  some_byte : ∀ rest size, rest ≠ [] → 0 < size → 0 < count rest size

structure StreamBufferReader where
  /-- What the underlying stream has not delivered. -/
  stream : List UInt8
  buffer : List UInt8
  readLen : ℕ
  readPtr : ℕ

namespace StreamBufferReader

def new (stream : List UInt8) : StreamBufferReader :=
  ⟨stream, List.replicate 256 0, 1, 1⟩

def getChar (delivery : Delivery) (reader : StreamBufferReader) : Int × StreamBufferReader :=
  if reader.readPtr < reader.readLen then
    (charToInt (reader.buffer.getD reader.readPtr 0),
      { reader with readPtr := reader.readPtr + 1 })
  else
    let readLen := delivery.count reader.stream reader.buffer.length
    let filled := { reader with
      stream := reader.stream.drop readLen
      buffer := reader.stream.take readLen ++ reader.buffer.drop readLen
      readLen := readLen }
    if readLen = 0 then (EOF, filled)
    else (charToInt (filled.buffer.getD 0 0), { filled with readPtr := 1 })

/-- What `GetChar` has still to return. -/
def pending (reader : StreamBufferReader) : List UInt8 :=
  (reader.buffer.take reader.readLen).drop reader.readPtr ++ reader.stream

end StreamBufferReader

structure Base64InStream where
  reader : StreamBufferReader
  tempCh : Int
  numPrev : ℕ
  bufPrev : UInt8 × UInt8

/-- A `Read` under way: the stream, `tlen` and what has been written behind `ptr`. -/
structure Base64Read where
  strm : Base64InStream
  tlen : ℕ
  out : List UInt8

section Read

variable (delivery : Delivery)

/-- `temp_ch_ = reader_.GetChar()`. -/
def Base64InStream.next (strm : Base64InStream) : Base64InStream :=
  let read := strm.reader.getChar delivery
  { strm with tempCh := read.1, reader := read.2 }

namespace Base64InStream

def new (stream : List UInt8) : Base64InStream :=
  ⟨.new stream, 0, 0, (0, 0)⟩

/-- The turns of `InitPosition`; each one takes a character, or it is the last one. -/
def skipSpaces : ℕ → Base64InStream → Base64InStream
  | 0, strm => strm
  | fuel + 1, strm =>
    let strm := strm.next delivery
    if isspace strm.tempCh then skipSpaces fuel strm else strm

def initPosition (strm : Base64InStream) : Base64InStream :=
  strm.skipSpaces delivery (strm.reader.pending.length + 1)

def isEOF (strm : Base64InStream) : Bool :=
  strm.numPrev = 0 ∧ (strm.tempCh = EOF ∨ isspace strm.tempCh)

end Base64InStream

namespace Base64Read

variable (state : Base64Read)

def next : Base64Read :=
  { state with strm := state.strm.next delivery }

def checkInside : Option Unit :=
  if state.strm.tempCh ≠ EOF ∧ ¬isspace state.strm.tempCh then some () else none

def checkEnd : Option Unit :=
  if state.strm.tempCh = EOF ∨ isspace state.strm.tempCh then some () else none

/-- `*cptr++ = value & 0xFF` and `--tlen`. -/
def emit (value : ℕ) : Base64Read :=
  { state with out := state.out ++ [UInt8.ofNat (value &&& 0xFF)], tlen := state.tlen - 1 }

/-- A byte is emitted while there is room for it, and kept in `buf_prev` otherwise. -/
def put (value : ℕ) : Option Base64Read :=
  if state.tlen ≠ 0 then some (state.emit value)
  else
    let byte := UInt8.ofNat (value &&& 0xFF)
    match state.strm.numPrev with
    | 0 => some { state with strm := { state.strm with
        bufPrev := (byte, state.strm.bufPrev.2), numPrev := 1 } }
    | 1 => some { state with strm := { state.strm with
        bufPrev := (state.strm.bufPrev.1, byte), numPrev := 2 } }
    | _ => none

/-- The fourth byte of a quantum, and whether the loop goes on behind it. -/
def fourthByte (nvalue : ℕ) : Option (Base64Read × Bool) := do
  let state := state.next delivery
  state.checkInside
  if state.strm.tempCh = charToInt padChar then do
    let state := state.next delivery
    state.checkEnd
    some (state, false)
  else do
    let fourth ← decode state.strm.tempCh
    let state ← state.put (nvalue ||| fourth)
    some (state.next delivery, true)

def thirdByte (nvalue : ℕ) : Option (Base64Read × Bool) := do
  let state := state.next delivery
  state.checkInside
  if state.strm.tempCh = charToInt padChar then do
    let state := state.next delivery
    if state.strm.tempCh = charToInt padChar then some () else none
    let state := state.next delivery
    state.checkEnd
    some (state, false)
  else do
    let third ← decode state.strm.tempCh
    let nvalue := nvalue ||| (third <<< 6)
    let state ← state.put (nvalue >>> 8)
    state.fourthByte delivery nvalue

/-- The first and the second byte, and what follows them. -/
def quantum : Option (Base64Read × Bool) := do
  let first ← decode state.strm.tempCh
  let nvalue := first <<< 18
  let state := state.next delivery
  state.checkInside
  let second ← decode state.strm.tempCh
  let nvalue := nvalue ||| (second <<< 12)
  let state := state.emit (nvalue >>> 16)
  state.thirdByte delivery nvalue

/-- The loop of `Read`; each turn writes a byte at least. -/
def loop : ℕ → Base64Read → Option Base64Read
  | 0, state => some state
  | fuel + 1, state =>
    if state.tlen ≠ 0 ∧ state.strm.tempCh ≠ EOF ∧ ¬isspace state.strm.tempCh then
      (state.quantum delivery).bind fun result =>
        if result.2 then loop fuel result.1 else some result.1
    else some state

/-- What has been kept is read first. -/
def readPrev : Base64Read :=
  match state.strm.numPrev with
  | 0 => state
  | 2 =>
    if 2 ≤ state.tlen then
      { strm := { state.strm with numPrev := 0 }, tlen := state.tlen - 2
        out := state.out ++ [state.strm.bufPrev.1, state.strm.bufPrev.2] }
    else
      { strm := { state.strm with
          bufPrev := (state.strm.bufPrev.2, state.strm.bufPrev.2), numPrev := 1 }
        tlen := state.tlen - 1
        out := state.out ++ [state.strm.bufPrev.1] }
  | _ =>
    { strm := { state.strm with numPrev := 0 }, tlen := state.tlen - 1
      out := state.out ++ [state.strm.bufPrev.1] }

end Base64Read

/-- `Read`: the size that is returned, the bytes behind `ptr` and the stream. -/
def Base64InStream.read (strm : Base64InStream) (size : ℕ) :
    Option (ℕ × List UInt8 × Base64InStream) :=
  if size = 0 then some (0, [], strm)
  else
    let state := Base64Read.readPrev ⟨strm, size, []⟩
    if state.tlen = 0 then some (size, state.out, state.strm)
    else (state.loop delivery state.tlen).map fun state =>
      (size - state.tlen, state.out, state.strm)

def Base64InStream.reads (strm : Base64InStream) :
    List ℕ → Option (List UInt8 × Base64InStream)
  | [] => some ([], strm)
  | size :: sizes => do
      let (_, bytes, strm) ← strm.read delivery size
      let (rest, strm) ← reads strm sizes
      some (bytes ++ rest, strm)

end Read

end Tvm.Support

/-!
## What the output stream writes

The buffer of three bytes and the buffer of characters do not show in what is written.
-/

namespace Tvm.Support

open Tvm.Lib

def base64Alphabet : Base64Alphabet UInt8 :=
  ⟨encodeChar, padChar⟩

namespace Base64OutStream

variable {strm : Base64OutStream} {data : List UInt8}

/-- All characters that have been put. -/
def chars (strm : Base64OutStream) : List UInt8 :=
  strm.written ++ strm.outBuf

theorem flush_chars : strm.flush.chars = strm.chars :=
  List.append_nil _

theorem withBuf_chars (buf : List UInt8) : chars { strm with buf := buf } = strm.chars :=
  rfl

theorem putChar_spec (strm : Base64OutStream) (ch : UInt8) :
    (strm.putChar ch).chars = strm.chars ++ [ch] ∧ (strm.putChar ch).buf = strm.buf := by
  unfold putChar
  dsimp only
  split
  · refine ⟨?_, rfl⟩
    rw [flush_chars]
    exact (List.append_assoc _ _ _).symm
  · exact ⟨(List.append_assoc _ _ _).symm, rfl⟩

theorem putChars_spec (strm : Base64OutStream) (characters : List UInt8) :
    (strm.putChars characters).chars = strm.chars ++ characters ∧
      (strm.putChars characters).buf = strm.buf := by
  unfold putChars
  induction characters generalizing strm with
  | nil => exact ⟨(List.append_nil _).symm, rfl⟩
  | cons ch rest ih =>
    obtain ⟨first, firstBuf⟩ := putChar_spec strm ch
    obtain ⟨later, laterBuf⟩ := ih (strm.putChar ch)
    rw [List.foldl_cons]
    refine ⟨?_, laterBuf.trans firstBuf⟩
    rw [later, first, List.append_assoc, List.singleton_append]

/-- The whole groups of the data have been put, and the rest is in the buffer. -/
def Wrote (strm : Base64OutStream) (data : List UInt8) : Prop :=
  ∃ front, data = front ++ strm.buf ∧ 3 ∣ front.length ∧
    strm.chars = base64Alphabet.encode front

theorem wrote_new : Wrote .new [] :=
  ⟨[], rfl, dvd_zero 3, rfl⟩

theorem Wrote.flushBuf (wrote : strm.Wrote data) (room : strm.buf.length ≤ 3) :
    strm.flushBuf.Wrote data ∧ strm.flushBuf.buf.length < 3 := by
  obtain ⟨front, isData, whole, isChars⟩ := wrote
  unfold Base64OutStream.flushBuf
  match isBuf : strm.buf with
  | [] => exact ⟨⟨front, isData, whole, isChars⟩, by simp [isBuf]⟩
  | [a] => exact ⟨⟨front, isData, whole, isChars⟩, by simp [isBuf]⟩
  | [a, b] => exact ⟨⟨front, isData, whole, isChars⟩, by simp [isBuf]⟩
  | [a, b, c] =>
    dsimp only
    refine ⟨⟨front ++ [a, b, c], ?_, ?_, ?_⟩, Nat.zero_lt_succ 2⟩
    · rw [isData, isBuf]
      exact (List.append_nil _).symm
    · rw [List.length_append]
      exact (Nat.dvd_add_right whole).mpr (dvd_refl 3)
    · rw [withBuf_chars, (putChars_spec _ _).1, isChars, base64Alphabet.encode_append whole, second_digit, third_digit,
        byte_shiftRight_two, and_sixty_three]
      rfl
  | a :: b :: c :: d :: rest =>
    rw [isBuf, List.length_cons, List.length_cons, List.length_cons, List.length_cons] at room
    omega

theorem Wrote.writeLoop {fuel : ℕ} {more : List UInt8} (wrote : strm.Wrote data)
    (room : strm.buf.length < 3) (enough : more.length ≤ fuel) :
    (writeLoop fuel strm more).Wrote (data ++ more) ∧ (writeLoop fuel strm more).buf.length < 3 := by
  induction fuel generalizing strm data more with
  | zero =>
    obtain rfl := List.length_eq_zero_iff.mp (Nat.le_zero.mp enough)
    rw [List.append_nil]
    exact ⟨wrote, room⟩
  | succ fuel ih =>
    rw [Base64OutStream.writeLoop]
    split
    · rename_i empty
      rw [empty, List.append_nil]
      exact ⟨wrote, room⟩
    · rename_i nonempty
      have some_data := List.length_pos_iff.mpr nonempty
      obtain ⟨front, isData, whole, isChars⟩ := wrote
      have filled : Wrote { strm with buf := strm.buf ++ more.take (3 - strm.buf.length) }
          (data ++ more.take (3 - strm.buf.length)) := by
        refine ⟨front, ?_, whole, isChars⟩
        rw [isData, List.append_assoc]
      have fits : (strm.buf ++ more.take (3 - strm.buf.length)).length ≤ 3 := by
        rw [List.length_append, List.length_take]
        omega
      obtain ⟨next, nextRoom⟩ := filled.flushBuf fits
      have step := ih next nextRoom
        (show (more.drop (3 - strm.buf.length)).length ≤ fuel by rw [List.length_drop]; omega)
      rw [List.append_assoc, List.take_append_drop] at step
      exact step

theorem Wrote.writes (wrote : strm.Wrote data) (writes : List (List UInt8))
    (room : strm.buf.length < 3) :
    (writes.foldl write strm).Wrote (data ++ writes.flatten) ∧
      (writes.foldl write strm).buf.length < 3 := by
  induction writes generalizing strm data with
  | nil =>
    rw [List.flatten_nil, List.append_nil]
    exact ⟨wrote, room⟩
  | cons first writes ih =>
    obtain ⟨next, nextRoom⟩ := wrote.writeLoop room (le_refl first.length)
    rw [List.foldl_cons, List.flatten_cons, ← List.append_assoc]
    exact ih next nextRoom

theorem Wrote.finish_none (wrote : strm.Wrote data) (room : strm.buf.length < 3) :
    (strm.finish none).written = base64Alphabet.encode data := by
  obtain ⟨front, isData, whole, isChars⟩ := wrote
  rw [isData, base64Alphabet.encode_append whole]
  unfold Base64OutStream.finish
  change Base64OutStream.chars _ = _
  rcases isBuf : strm.buf with _ | ⟨a, _ | ⟨b, _ | ⟨c, rest⟩⟩⟩
  · exact isChars.trans (List.append_nil _).symm
  · have digit : ((a.toNat <<< 4) &&& 0x3F) = a.toNat % 4 * 16 := by
      rw [Nat.shiftLeft_eq, and_sixty_three]
      omega
    rw [withBuf_chars, (putChars_spec _ _).1, isChars, byte_shiftRight_two, digit]
    rfl
  · have digit : ((b.toNat <<< 2) &&& 0x3F) = b.toNat % 16 * 4 := by
      have small := b.toNat_lt
      rw [Nat.shiftLeft_eq, and_sixty_three]
      omega
    rw [withBuf_chars, (putChars_spec _ _).1, isChars, byte_shiftRight_two, second_digit, digit]
    rfl
  · rw [isBuf, List.length_cons, List.length_cons, List.length_cons] at room
    omega

theorem finish_some (ch : UInt8) :
    (strm.finish (some ch)).written = (strm.finish none).written ++ [ch] :=
  (putChar_spec _ ch).1

theorem Wrote.finish (wrote : strm.Wrote data) (room : strm.buf.length < 3)
    (endch : Option UInt8) :
    (strm.finish endch).written = base64Alphabet.encode data ++ endch.toList := by
  have rest := wrote.finish_none room
  cases endch with
  | none => exact rest.trans (List.append_nil _).symm
  | some ch =>
    rw [finish_some, rest]
    rfl

end Base64OutStream

theorem encodeWrites_eq (writes : List (List UInt8)) (endch : Option UInt8) :
    encodeWrites writes endch = base64Alphabet.encode writes.flatten ++ endch.toList := by
  have wrote := Base64OutStream.wrote_new.writes writes (Nat.zero_lt_succ 2)
  exact wrote.1.finish wrote.2 endch

end Tvm.Support
