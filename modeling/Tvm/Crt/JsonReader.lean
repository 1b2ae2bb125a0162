import Tvm.Lib.Decimal
import Tvm.Lib.Memory

/-!
# The JSON reader of the C runtime

`load_json.c`.  A pointer into the text is what it points to, with the NUL at the end.  A step that
reads behind the NUL or stores outside of a buffer is a fault; what is printed is left out.
-/

namespace Tvm.Crt

open Tvm.Lib

inductive JsonFault where
  | readBehindNul
  | storeNull
  | storeOutside
  | scopeStack
  | outOfFuel
  deriving DecidableEq

abbrev JsonRead := Except JsonFault

def quoteByte : UInt8 := 34
def commaByte : UInt8 := 44
def colonByte : UInt8 := 58
def backslashByte : UInt8 := 92
def newlineByte : UInt8 := 10
def returnByte : UInt8 := 13

/-- `EOF` as a `char`, which is signed. -/
def eofByte : UInt8 := 255

inductive ItemType where
  | object
  | array
  deriving DecidableEq

namespace ItemType

def opening : ItemType → UInt8
  | .object => 123
  | .array => 91

def closing : ItemType → UInt8
  | .object => 125
  | .array => 93

end ItemType

/-- A `Seq`, the last element first. -/
structure ScopeSeq (α : Type) where
  data : List α
  allocated : Nat
  deriving DecidableEq

namespace ScopeSeq

variable {α : Type}

/-- `SeqPush`, which prints a message where there is no room, and stores. -/
def push (seq : ScopeSeq α) (src : α) : JsonRead (ScopeSeq α) :=
  if seq.data.length < seq.allocated then .ok { seq with data := src :: seq.data }
  else .error .scopeStack

def back (seq : ScopeSeq α) : JsonRead α :=
  match seq.data with
  | [] => .error .scopeStack
  | top :: _ => .ok top

def setBack (seq : ScopeSeq α) (value : α) : JsonRead (ScopeSeq α) :=
  match seq.data with
  | [] => .error .scopeStack
  | _ :: rest => .ok { seq with data := value :: rest }

def pop (seq : ScopeSeq α) : JsonRead (ScopeSeq α) :=
  match seq.data with
  | [] => .error .scopeStack
  | _ :: rest => .ok { seq with data := rest }

end ScopeSeq

structure JSONReader where
  isptr : Bytes
  lineCountR : Nat
  lineCountN : Nat
  scopeCounter : ScopeSeq Nat
  deriving DecidableEq

namespace JSONReader

def nextChar (reader : JSONReader) : JsonRead (UInt8 × JSONReader) :=
  match reader.isptr with
  | [] => .error .readBehindNul
  | ch :: rest => .ok (ch, { reader with isptr := rest })

def countLine (reader : JSONReader) (ch : UInt8) : JSONReader :=
  { reader with
    lineCountN := if ch = newlineByte then reader.lineCountN + 1 else reader.lineCountN
    lineCountR := if ch = returnByte then reader.lineCountR + 1 else reader.lineCountR }

def nextNonSpaceFrom : Bytes → JSONReader → JsonRead (UInt8 × JSONReader)
  | [], _ => .error .readBehindNul
  | ch :: rest, reader =>
    let reader := { reader with isptr := rest }.countLine ch
    if isSpace ch then nextNonSpaceFrom rest reader else .ok (ch, reader)

def nextNonSpace (reader : JSONReader) : JsonRead (UInt8 × JSONReader) :=
  nextNonSpaceFrom reader.isptr reader

def peekNextNonSpaceFrom : Bytes → JSONReader → JsonRead (UInt8 × JSONReader)
  | [], _ => .error .readBehindNul
  | ch :: rest, reader =>
    let reader := reader.countLine ch
    if isSpace ch then peekNextNonSpaceFrom rest { reader with isptr := rest } else .ok (ch, reader)

def peekNextNonSpace (reader : JSONReader) : JsonRead (UInt8 × JSONReader) :=
  peekNextNonSpaceFrom reader.isptr reader

end JSONReader

/-- An output string, if it is not NULL, and how much of it is written. -/
structure StringOutput where
  outStr : Option Bytes
  outputCounter : Nat
  deriving DecidableEq

/-- `out_str[output_counter++] = ch`. -/
def StringOutput.store (output : StringOutput) (ch : UInt8) : JsonRead StringOutput :=
  match output.outStr with
  | none => .error .storeNull
  | some buffer =>
    if output.outputCounter < buffer.length then
      .ok ⟨some (buffer.set output.outputCounter ch), output.outputCounter + 1⟩
    else .error .storeOutside

def unescapeByte (sch : UInt8) : Option UInt8 :=
  if sch = 114 then some returnByte
  else if sch = 110 then some newlineByte
  else if sch = backslashByte then some backslashByte
  else if sch = 116 then some 9
  else if sch = quoteByte then some quoteByte
  else none

namespace StringOutput

/-- An unknown escape is passed over. -/
def storeEscape (output : StringOutput) (sch : UInt8) : JsonRead StringOutput :=
  match unescapeByte sch with
  | some byte => output.store byte
  | none => .ok output

def storePlain (output : StringOutput) (ch : UInt8) : JsonRead StringOutput :=
  if output.outStr = none then .ok output else output.store ch

def Goes (output : StringOutput) (outStrSize : Nat) : Prop :=
  output.outputCounter < outStrSize ∨ output.outStr = none

instance (output : StringOutput) (outStrSize : Nat) : Decidable (output.Goes outStrSize) :=
  inferInstanceAs (Decidable (_ ∨ _))

end StringOutput

def lastOf (outStrSize : Nat) : Nat :=
  if outStrSize = 0 then 2 ^ 64 - 1 else outStrSize - 1

namespace JSONReader

def readStringFrom (outStrSize : Nat) : Bytes → StringOutput → JsonRead (Bytes × StringOutput)
  | [], output => if output.Goes outStrSize then .error .readBehindNul else .ok ([], output)
  | ch :: rest, output =>
    if output.Goes outStrSize then
      if ch = backslashByte then
        match rest with
        | [] => .error .readBehindNul
        | sch :: rest => do
            let output ← output.storeEscape sch
            if output.outputCounter = lastOf outStrSize then .ok (rest, output)
            else readStringFrom outStrSize rest output
      else if ch = quoteByte then .ok (rest, output)
      else do
        let output ← output.storePlain ch
        if output.outputCounter = lastOf outStrSize then .ok (rest, output)
        else if ch = eofByte ∨ ch = returnByte ∨ ch = newlineByte then .ok (rest, output)
        else readStringFrom outStrSize rest output
    else .ok (ch :: rest, output)

/-- `JSONReader_ReadString`, with what is in the output string.  The status is always 0. -/
def readString (reader : JSONReader) (outStr : Option Bytes) (outStrSize : Nat) :
    JsonRead (Option Bytes × JSONReader) := do
  let (_, reader) ← reader.nextNonSpace
  let (rest, output) ← readStringFrom outStrSize reader.isptr ⟨outStr, 0⟩
  let reader := { reader with isptr := rest }
  if output.outStr = none then .ok (none, reader)
  else do
    let output ← output.store 0
    .ok (output.outStr, reader)

def skipSpaces : Bytes → JsonRead Bytes
  | [] => .error .readBehindNul
  | ch :: rest => if isSpace ch then skipSpaces rest else .ok (ch :: rest)

def spanDigits : Bytes → JsonRead (Bytes × Bytes)
  | [] => .error .readBehindNul
  | ch :: rest =>
    if isDigit ch then do
      let (digits, behind) ← spanDigits rest
      .ok (ch :: digits, behind)
    else .ok ([], ch :: rest)

def clampLong (value : Int) : Int :=
  max (-2 ^ 63) (min (2 ^ 63 - 1) value)

/-- Whether there is a minus, and the text behind a sign. -/
def spanSign : Bytes → JsonRead (Bool × Bytes)
  | [] => .error .readBehindNul
  | ch :: rest =>
    if ch = 45 then .ok (true, rest)
    else if ch = 43 then .ok (false, rest)
    else .ok (false, ch :: rest)

/-- `strtol` of base ten: the number, and the text at `endptr`. -/
def strtol (text : Bytes) : JsonRead (Int × Bytes) := do
  let start ← skipSpaces text
  let (negative, start) ← spanSign start
  let (digits, behind) ← spanDigits start
  let value : Int := ofDigitBytes digits
  if digits = [] then .ok (0, text) else .ok (clampLong (if negative then -value else value), behind)

/-- `JSONReader_ReadInteger`.  The status is always 0. -/
def readInteger (reader : JSONReader) : JsonRead (Int × JSONReader) := do
  let (number, rest) ← strtol reader.isptr
  .ok (number, { reader with isptr := rest })

/-- `JSONReader_BeginObject` and `JSONReader_BeginArray`. -/
def begin (reader : JSONReader) : JsonRead JSONReader := do
  let (_, reader) ← reader.nextNonSpace
  let scopeCounter ← reader.scopeCounter.push 0
  .ok { reader with scopeCounter := scopeCounter }

def beginObject (reader : JSONReader) : JsonRead JSONReader := reader.begin

def beginArray (reader : JSONReader) : JsonRead JSONReader := reader.begin

/-- Whether there is a next item before the closing byte, behind the comma. -/
def hasNext (reader : JSONReader) (closing : UInt8) : JsonRead (Bool × JSONReader) := do
  let counter ← reader.scopeCounter.back
  if counter ≠ 0 then do
    let (ch, reader) ← reader.nextNonSpace
    .ok (!(ch = eofByte || ch = closing), reader)
  else do
    let (ch, reader) ← reader.peekNextNonSpace
    if ch = closing then do
      let (_, reader) ← reader.nextChar
      .ok (false, reader)
    else .ok (true, reader)

def leaveScope (reader : JSONReader) : JsonRead JSONReader := do
  let scopeCounter ← reader.scopeCounter.pop
  .ok { reader with scopeCounter := scopeCounter }

/-- One more item in the scope, of which a `uint32_t` is counted. -/
def countItem (reader : JSONReader) : JsonRead JSONReader := do
  let counter ← reader.scopeCounter.back
  let scopeCounter ← reader.scopeCounter.setBack ((counter + 1) % 2 ^ 32)
  .ok { reader with scopeCounter := scopeCounter }

/-- `JSONReader_NextObjectItem`, with what is in the output key. -/
def nextObjectItem (reader : JSONReader) (outKey : Option Bytes) (outKeySize : Nat) :
    JsonRead (Bool × Option Bytes × JSONReader) := do
  let (next, reader) ← reader.hasNext ItemType.object.closing
  if next then do
    let reader ← reader.countItem
    let (outKey, reader) ← reader.readString outKey outKeySize
    let (_, reader) ← reader.nextNonSpace
    .ok (true, outKey, reader)
  else do
    let reader ← reader.leaveScope
    .ok (false, outKey, reader)

def nextArrayItem (reader : JSONReader) : JsonRead (Bool × JSONReader) := do
  let (next, reader) ← reader.hasNext ItemType.array.closing
  if next then do
    let reader ← reader.countItem
    .ok (true, reader)
  else do
    let reader ← reader.leaveScope
    .ok (false, reader)

end JSONReader

/-- The variables of the loop of `JSONReader_ArrayLength`. -/
structure LengthState where
  reader : JSONReader
  scopes : ScopeSeq ItemType
  jsonItemType : ItemType
  numElements : Nat
  deriving DecidableEq

namespace LengthState

/-- The item that the text is at, if it is one of a container in which items are read. -/
def stepValue (st : LengthState) : JsonRead LengthState := do
  let (c, reader) ← st.reader.peekNextNonSpace
  if c = quoteByte then do
    let (_, reader) ← reader.readString none 1024
    .ok { st with reader := reader }
  else if c = ItemType.array.opening then do
    let reader ← reader.beginArray
    let scopes ← st.scopes.push st.jsonItemType
    .ok { st with reader := reader, scopes := scopes, jsonItemType := .array }
  else if c = ItemType.object.opening then do
    let reader ← reader.beginObject
    let scopes ← st.scopes.push st.jsonItemType
    .ok { st with reader := reader, scopes := scopes, jsonItemType := .object }
  else do
    let (_, reader) ← reader.readInteger
    .ok { st with reader := reader }

def nextItem (reader : JSONReader) : ItemType → JsonRead (Bool × JSONReader)
  | .array => reader.nextArrayItem
  | .object => do
      let (hasItem, _, reader) ← reader.nextObjectItem none 0
      .ok (hasItem, reader)

/-- A round of the loop, and whether there is another one. -/
def step (st : LengthState) : JsonRead (Bool × LengthState) := do
  let (hasItem, reader) ← nextItem st.reader st.jsonItemType
  let counted := st.jsonItemType = .array ∧ st.scopes.data = [] ∧ hasItem
  let st := { st with
    reader := reader, numElements := if counted then st.numElements + 1 else st.numElements }
  if hasItem then do
    let st ← st.stepValue
    .ok (true, st)
  else if st.scopes.data ≠ [] then do
    let jsonItemType ← st.scopes.back
    let scopes ← st.scopes.pop
    .ok (true, { st with jsonItemType := jsonItemType, scopes := scopes })
  else .ok (false, st)

def loop : Nat → LengthState → JsonRead LengthState
  | 0, _ => .error .outOfFuel
  | fuel + 1, st => do
      let (another, st) ← st.step
      if another then loop fuel st else .ok st

end LengthState

/-- Whether the platform has memory for the stack of scopes, and takes it back. -/
structure PlatformMemory where
  allocates : Bool
  frees : Bool

def PlatformMemory.ample : PlatformMemory := ⟨true, true⟩

/-- `JSONReader_ArrayLength`: the reader, the status and, unless the call ends at once, the number of
elements. -/
def JSONReader.arrayLength (platform : PlatformMemory) (fuel : Nat) (reader : JSONReader) :
    JsonRead (JSONReader × Int × Option Nat) := do
  let old := reader
  let back ← reader.scopeCounter.back
  if platform.allocates then do
    let st ← LengthState.loop fuel ⟨reader, ⟨[], 10⟩, .array, 0⟩
    let scopeCounter ← st.reader.scopeCounter.push back
    let reader := { old with scopeCounter := scopeCounter }
    .ok (reader, if platform.frees then 0 else -1, some st.numElements)
  else .ok (reader, -1, none)

end Tvm.Crt
