import Tvm.Lib.Codec
import Mathlib.Algebra.BigOperators.Group.List.Basic

/-!
# Tensors in streams

`NDArray::Load` of `ndarray.h` on a machine that swaps no bytes.  The streams of `dmlc` are a
parameter: each of its primitives reads back what it writes.
-/

namespace Tvm.Vm

open Tvm.Lib

/-- `int64_t`. -/
abbrev Index := BitVec 64

abbrev Str := List UInt8

/-- What `dmlc::Stream` writes and reads; a `std::map` in the order of its keys. -/
structure DmlcStream where
  uint8 : Codec (BitVec 8)
  uint16 : Codec (BitVec 16)
  uint32 : Codec (BitVec 32)
  uint64 : Codec (BitVec 64)
  string : Codec Str
  vector : {α : Type} → Codec α → Codec (List α)
  map : {α β : Type} → Codec α → Codec β → Codec (List (α × β))

/-- Little-endian words, containers and strings after the number of their elements. -/
def DmlcStream.littleEndian : DmlcStream where
  uint8 := Codec.word 1
  uint16 := Codec.word 2
  uint32 := Codec.word 4
  uint64 := Codec.word 8
  string := Codec.byte.list
  vector := Codec.list
  map key value := (key.pair value).list

structure DLDataType where
  code : BitVec 8
  bits : BitVec 8
  lanes : BitVec 16
  deriving DecidableEq, Repr

structure Device where
  deviceType : BitVec 32
  deviceId : BitVec 32
  deriving DecidableEq, Repr

/-- `kDLCPU` and the device 0. -/
def Device.cpu : Device := ⟨1, 0⟩

def DmlcStream.dataType (dmlc : DmlcStream) : Codec DLDataType :=
  (dmlc.uint8.pair (dmlc.uint8.pair dmlc.uint16)).via (fun d => (d.code, d.bits, d.lanes))
    (fun parts => ⟨parts.1, parts.2.1, parts.2.2⟩) fun _ => rfl

def DmlcStream.device (dmlc : DmlcStream) : Codec Device :=
  (dmlc.uint32.pair dmlc.uint32).via (fun d => (d.deviceType, d.deviceId))
    (fun parts => ⟨parts.1, parts.2⟩) fun _ => rfl

/-- `VerifyDataType`; the codes are `kDLInt`, `kDLUInt` and `kDLFloat`. -/
def DLDataType.verify (dtype : DLDataType) : Bool :=
  let bits := dtype.bits.toNat
  let whole := bits % 8 = 0 && bits &&& (bits - 1) = 0
  decide (1 ≤ dtype.lanes.toNat) &&
    (if dtype.code = 2 then whole
      else if (bits = 1 || bits = 4) && (dtype.code = 1 || dtype.code = 0) then true
      else whole)

/-- The number of elements; no dimension is negative. -/
def numElems (shape : List Index) : Nat :=
  (shape.map BitVec.toNat).prod

def dataSize (dtype : DLDataType) (shape : List Index) : Nat :=
  numElems shape * ((dtype.bits.toNat * dtype.lanes.toNat + 7) / 8)

/-- `data_byte_size` of `SaveDLTensor` and `NDArray::Load`. -/
def dataByteSize (dtype : DLDataType) (shape : List Index) : Nat :=
  (dtype.bits.toNat + 7) / 8 * numElems shape

/-- A contiguous tensor with its bytes; `compact` is a tensor on the CPU without strides and
offset. -/
structure NDArray where
  dtype : DLDataType
  shape : List Index
  data : Bytes
  compact : Bool
  verified : dtype.verify = true
  sized : data.length = dataSize dtype shape
  deriving DecidableEq

/-- New memory with bytes written to its front. -/
def filled (fresh : Nat → UInt8) (bytes : Bytes) (size : Nat) : Bytes :=
  bytes ++ (List.range' bytes.length (size - bytes.length)).map fresh

theorem filled_length (fresh : Nat → UInt8) {bytes : Bytes} {size : Nat}
    (fits : bytes.length ≤ size) : (filled fresh bytes size).length = size := by
  rw [filled, List.length_append, List.length_map, List.length_range']
  omega

section Stream

variable (dmlc : DmlcStream)

def ndarrayMagic : BitVec 64 := 0xDD5E40F096B4A13F#64

/-- `NDArray::Empty` on the CPU with the bytes that were read. -/
def NDArray.ofBytes (fresh : Nat → UInt8) (dtype : DLDataType) (shape : List Index)
    (bytes : Bytes) : Option NDArray :=
  if accepted : dtype.verify = true ∧ bytes.length ≤ dataSize dtype shape then
    some ⟨dtype, shape, filled fresh bytes (dataSize dtype shape), true, accepted.1,
      filled_length fresh accepted.2⟩
  else none

/-- `NDArray::Load`; `fresh` is what new memory holds. -/
def NDArray.load (fresh : Nat → UInt8) : Reader NDArray := do
  let header ← dmlc.uint64.read
  let _ ← dmlc.uint64.read
  Reader.check (header = ndarrayMagic)
  let dev ← dmlc.device.read
  let ndim ← dmlc.uint32.read
  let dtype ← dmlc.dataType.read
  Reader.check (dev.deviceType = Device.cpu.deviceType)
  Reader.check (0 ≤ ndim.toInt)
  let shape ← Reader.many dmlc.uint64.read ndim.toNat
  let size ← dmlc.uint64.read
  Reader.check (size.toNat = dataByteSize dtype shape)
  let bytes ← Reader.upTo size.toNat
  Reader.check (shape.head?.any (· ≠ 0) → bytes ≠ [])
  Reader.ofOption (NDArray.ofBytes fresh dtype shape bytes)

end Stream

end Tvm.Vm
