import Mathlib.Data.List.TakeWhile
import Tvm.Lib.Layout

/-!
# Packed argument sequences

`SendPackedSeq`, `RecvPackedSeq` and `PackedSeqGetNumBytes` of `rpc_reference.h`.  The
sender is a template over its channel; it is run over a byte stream, and over a channel
that only counts.

`ThrowError` is the error of `EStateM`, which keeps what has been written before.
-/

namespace Tvm.MinRpc

open Tvm.Lib

inductive RPCServerStatus where
  | invalidTypeCodeObject
  | invalidTypeCodeNDArray
  | invalidDLTensorFieldStride
  | unknownTypeCode
  | readError
  deriving DecidableEq, Repr

def kDLInt : Int32 := 0
def kDLUInt : Int32 := 1
def kDLFloat : Int32 := 2
def kTVMOpaqueHandle : Int32 := 3
def kTVMNullptr : Int32 := 4
def kTVMDataType : Int32 := 5
def kDLDevice : Int32 := 6
def kTVMDLTensorHandle : Int32 := 7
def kTVMModuleHandle : Int32 := 9
def kTVMPackedFuncHandle : Int32 := 10
def kTVMStr : Int32 := 11
def kTVMBytes : Int32 := 12
def kTVMNDArrayHandle : Int32 := 13

/-- The type codes that the switch of `SendPackedSeq` has a case for. -/
def knownTypeCodes : List Int32 :=
  [kDLInt, kDLUInt, kDLFloat, kTVMOpaqueHandle, kTVMNullptr, kTVMDataType, kDLDevice,
    kTVMDLTensorHandle, kTVMModuleHandle, kTVMPackedFuncHandle, kTVMStr, kTVMBytes,
    kTVMNDArrayHandle]

structure DLDataType where
  code : UInt8
  bits : UInt8
  lanes : UInt16
  deriving DecidableEq, Repr

structure DLDevice where
  deviceType : Int32
  deviceId : Int32
  deriving DecidableEq, Repr

/-- `strides` is `none` for a null pointer. -/
structure DLTensor where
  data : UInt64
  device : DLDevice
  dtype : DLDataType
  shape : List Int64
  strides : Option (List Int64)
  byteOffset : UInt64
  rank_lt : shape.length < 2 ^ 31
  deriving DecidableEq

def DLTensor.ndim (tensor : DLTensor) : Int32 := Int32.ofNat tensor.shape.length

/-- A NUL-terminated string in memory. -/
structure CString where
  chars : Bytes
  nul_free : (0 : UInt8) ∉ chars
  length_lt : chars.length < 2 ^ 64
  deriving DecidableEq

def CString.memory (string : CString) : Bytes := string.chars ++ [0]

structure TVMByteArray where
  data : Bytes
  size_lt : data.length < 2 ^ 64
  deriving DecidableEq

/-- A `TVMValue` together with its type code, which tells the active member of the union.
Numbers of all three kinds are passed on as `v_int64`, handles as their 64-bit value. -/
inductive TVMArg where
  | int (value : Int64)
  | uint (value : Int64)
  | float (value : Int64)
  | opaqueHandle (handle : UInt64)
  | nullptr
  | dataType (value : DLDataType)
  | device (value : DLDevice)
  | dlTensor (tensor : DLTensor)
  | moduleHandle (handle : UInt64)
  | packedFuncHandle (handle : UInt64)
  | str (string : CString)
  | bytes (array : TVMByteArray)
  | ndArrayHandle (handle : UInt64)
  | other (code : Int32) (unknown : code ∉ knownTypeCodes)
  deriving DecidableEq

def TVMArg.typeCode : TVMArg → Int32
  | .int _ => kDLInt
  | .uint _ => kDLUInt
  | .float _ => kDLFloat
  | .opaqueHandle _ => kTVMOpaqueHandle
  | .nullptr => kTVMNullptr
  | .dataType _ => kTVMDataType
  | .device _ => kDLDevice
  | .dlTensor _ => kTVMDLTensorHandle
  | .moduleHandle _ => kTVMModuleHandle
  | .packedFuncHandle _ => kTVMPackedFuncHandle
  | .str _ => kTVMStr
  | .bytes _ => kTVMBytes
  | .ndArrayHandle _ => kTVMNDArrayHandle
  | .other code _ => code

def dlDataTypeLayout : Layout DLDataType :=
  (Layout.u8.prod (Layout.u8.prod Layout.u16)).cast (fun t => (t.code, t.bits, t.lanes))
    (fun (code, bits, lanes) => ⟨code, bits, lanes⟩) fun _ => rfl

def dlDeviceLayout : Layout DLDevice :=
  (Layout.i32.prod Layout.i32).cast (fun d => (d.deviceType, d.deviceId))
    (fun (deviceType, deviceId) => ⟨deviceType, deviceId⟩) fun _ => rfl

/-- The part of a channel that the sender writes through. -/
structure Channel (σ : Type) where
  write : {α : Type} → Layout α → α → σ → σ
  writeArray : {α : Type} → Layout α → List α → σ → σ

/-- A byte stream, which takes values as they lie in memory. -/
def streamChannel : Channel Bytes where
  write layout value wire := wire ++ layout.encode value
  writeArray layout values wire := wire ++ layout.encodeArray values

def numBytesGetter : Channel UInt64 where
  write layout _ numBytes := numBytes + UInt64.ofNat layout.size
  writeArray layout values numBytes := numBytes + UInt64.ofNat (layout.size * values.length)

abbrev SendM (σ : Type) := EStateM RPCServerStatus σ

section

variable {σ : Type} (channel : Channel σ)

def Channel.put {α : Type} (layout : Layout α) (value : α) : SendM σ Unit :=
  modify (channel.write layout value)

def Channel.putArray {α : Type} (layout : Layout α) (values : List α) : SendM σ Unit :=
  modify (channel.writeArray layout values)

def strLength : Bytes → Nat
  | [] => 0
  | c :: rest => if c = 0 then 0 else strLength rest + 1

def sendDLTensor (tensor : DLTensor) : SendM σ Unit := do
  channel.put Layout.u64 tensor.data
  channel.put dlDeviceLayout tensor.device
  channel.put Layout.i32 tensor.ndim
  channel.put dlDataTypeLayout tensor.dtype
  channel.putArray Layout.i64 tensor.shape
  if tensor.strides ≠ none then throw .invalidDLTensorFieldStride
  channel.put Layout.u64 tensor.byteOffset

def sendArg (clientMode : Bool) : TVMArg → SendM σ Unit
  | .int value => channel.put Layout.i64 value
  | .uint value => channel.put Layout.i64 value
  | .float value => channel.put Layout.i64 value
  | .dataType value => do
    channel.put dlDataTypeLayout value
    -- padding
    channel.put Layout.i32 0
  | .device value => channel.put dlDeviceLayout value
  | .packedFuncHandle handle => do
    if !clientMode then throw .invalidTypeCodeObject
    channel.put Layout.u64 handle
  | .moduleHandle handle => do
    if !clientMode then throw .invalidTypeCodeObject
    channel.put Layout.u64 handle
  | .opaqueHandle handle => channel.put Layout.u64 handle
  | .ndArrayHandle _ => throw .invalidTypeCodeNDArray
  | .dlTensor tensor => sendDLTensor channel tensor
  | .nullptr => pure ()
  | .str string => do
    let len := strLength string.memory
    channel.put Layout.u64 (UInt64.ofNat len)
    channel.putArray Layout.u8 (string.memory.take len)
  | .bytes array => do
    channel.put Layout.u64 (UInt64.ofNat array.data.length)
    channel.putArray Layout.u8 array.data
  | .other _ _ => throw .unknownTypeCode

def sendArgs (clientMode : Bool) : List TVMArg → SendM σ Unit
  | [] => pure ()
  | arg :: args => do
    sendArg channel clientMode arg
    sendArgs clientMode args

def sendPackedSeq (args : List TVMArg) (clientMode : Bool) : SendM σ Unit := do
  channel.put Layout.i32 (Int32.ofNat args.length)
  channel.putArray Layout.i32 (args.map TVMArg.typeCode)
  sendArgs channel clientMode args

end

/-- `PackedSeqGetNumBytes`.  Its getter throws on `channel` but does not write to it. -/
def packedSeqGetNumBytes {σ : Type} (args : List TVMArg) (clientMode : Bool) : SendM σ UInt64 :=
  fun s =>
    match sendPackedSeq numBytesGetter args clientMode 0 with
    | .ok _ numBytes => .ok numBytes s
    | .error status _ => .error status s

/-- How the endpoint sends a system call: a packet of the size, the code and the arguments. -/
def syscallRemote (code : Int32) (args : List TVMArg) : SendM Bytes Unit := do
  let numBytes ← packedSeqGetNumBytes args true
  streamChannel.put Layout.u64 (4 + numBytes)
  streamChannel.put Layout.i32 code
  sendPackedSeq streamChannel args true

/-- The state is what has not been read yet. -/
abbrev RecvM := EStateM RPCServerStatus Bytes

def read {α : Type} (layout : Layout α) : RecvM α := fun wire =>
  if wire.length < layout.size then .error .readError wire
  else .ok (layout.decode (wire.take layout.size)) (wire.drop layout.size)

def readArray {α : Type} (layout : Layout α) (count : Nat) :
    RecvM { values : List α // values.length = count } := fun wire =>
  if wire.length < layout.size * count then .error .readError wire
  else
    .ok ⟨layout.decodeArray count wire, layout.decodeArray_length count wire⟩
      (wire.drop (layout.size * count))

def toSize (value : Int32) : Nat := value.toInt64.toUInt64.toNat

/-- A negative `ndim` asks for more entries than any stream has. -/
def receiveDLTensor : RecvM DLTensor := do
  let handle ← read Layout.u64
  let device ← read dlDeviceLayout
  let ndim ← read Layout.i32
  let dtype ← read dlDataTypeLayout
  let shape ← readArray Layout.i64 (toSize ndim)
  let byteOffset ← read Layout.u64
  if rank_lt : shape.val.length < 2 ^ 31 then
    pure ⟨handle, device, dtype, shape.val, none, byteOffset, rank_lt⟩
  else throw .readError

/-- The string that starts at `data`, behind which the receiver has put a NUL. -/
def CString.ofMemory (data : Bytes) (length_lt : data.length < 2 ^ 64) : CString where
  chars := data.takeWhile (· ≠ 0)
  nul_free membership := by simpa using List.mem_takeWhile_imp membership
  length_lt := lt_of_le_of_lt (List.takeWhile_prefix _).length_le length_lt

def recvArg (typeCode : Int32) : RecvM TVMArg :=
  if typeCode = kDLInt then return .int (← read Layout.i64)
  else if typeCode = kDLUInt then return .uint (← read Layout.i64)
  else if typeCode = kDLFloat then return .float (← read Layout.i64)
  else if typeCode = kTVMDataType then do
    let value ← read dlDataTypeLayout
    let _ ← read Layout.i32
    return .dataType value
  else if typeCode = kDLDevice then return .device (← read dlDeviceLayout)
  else if typeCode = kTVMPackedFuncHandle then return .packedFuncHandle (← read Layout.u64)
  else if typeCode = kTVMModuleHandle then return .moduleHandle (← read Layout.u64)
  else if typeCode = kTVMOpaqueHandle then return .opaqueHandle (← read Layout.u64)
  else if typeCode = kTVMNullptr then return .nullptr
  else if typeCode = kTVMStr then do
    let len ← read Layout.u64
    let data ← readArray Layout.u8 len.toNat
    return .str (.ofMemory data.val (by rw [data.property]; exact len.toNat_lt))
  else if typeCode = kTVMBytes then do
    let len ← read Layout.u64
    let data ← readArray Layout.u8 len.toNat
    return .bytes ⟨data.val, by rw [data.property]; exact len.toNat_lt⟩
  else if typeCode = kTVMDLTensorHandle then return .dlTensor (← receiveDLTensor)
  else throw .unknownTypeCode

def recvArgs : List Int32 → RecvM (List TVMArg)
  | [] => return []
  | typeCode :: typeCodes => do
    let arg ← recvArg typeCode
    let args ← recvArgs typeCodes
    return arg :: args

/-- `RecvPackedSeq`: the type codes and the values. -/
def recvPackedSeq : RecvM (List Int32 × List TVMArg) := do
  let numArgs ← read Layout.i32
  if numArgs = 0 then return ([], [])
  else
    let typeCodes ← readArray Layout.i32 (toSize numArgs)
    let args ← recvArgs typeCodes.val
    return (typeCodes.val, args)

end Tvm.MinRpc
