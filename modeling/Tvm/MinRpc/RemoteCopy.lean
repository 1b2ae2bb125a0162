import Tvm.MinRpc.Reference

/-!
# Copies to and from a remote tensor

The client session cuts a copy into blocks, the endpoint sends one packet for a block, and
the `MinRPCServer` on the other side copies the block.  Addresses are natural numbers, and
a tensor lies in the memory of its device.
-/

namespace Tvm.MinRpc

open Tvm.Lib

def kDLCPU : Int32 := 1

def getDataSize (arr : DLTensor) : UInt64 :=
  arr.shape.foldl (fun size dim => size * dim.toUInt64) 1 *
    UInt64.ofNat ((arr.dtype.bits.toNat * arr.dtype.lanes.toNat + 7) / 8)

def DLTensor.address (arr : DLTensor) : Nat := arr.data.toNat + arr.byteOffset.toNat

def kCopyFromRemote : Int32 := 6

def kCopyToRemote : Int32 := 7

structure MinRPCServer where
  host : Memory
  devices : DLDevice → Memory
  /-- What the arena holds where the handlers allocate their temporary data. -/
  arena : Memory

namespace MinRPCServer

def memory (server : MinRPCServer) (device : DLDevice) : Memory :=
  if device.deviceType = kDLCPU then server.host else server.devices device

def write (server : MinRPCServer) (device : DLDevice) (address : Nat) (bytes : Bytes) :
    MinRPCServer :=
  if device.deviceType = kDLCPU then { server with host := store server.host address bytes }
  else
    { server with
      devices := Function.update server.devices device
        (store (server.devices device) address bytes) }

/-- `CopyToRemote` of `MinRPCExecute`.  The data of other devices than the CPU is read into
the arena, and `TVMDeviceCopyDataFromTo` copies a whole tensor of the shape of `arr`. -/
def copyToRemote (server : MinRPCServer) (arr : DLTensor) (data : Bytes) : MinRPCServer :=
  if arr.device.deviceType = kDLCPU then server.write arr.device arr.address data
  else
    let temp := store server.arena 0 data
    server.write arr.device arr.address (load temp 0 (getDataSize arr).toNat)

def copyFromRemote (server : MinRPCServer) (arr : DLTensor) (numBytes : Nat) : Bytes :=
  if arr.device.deviceType = kDLCPU then load (server.memory arr.device) arr.address numBytes
  else
    let whole := load (server.memory arr.device) arr.address (getDataSize arr).toNat
    load (store server.arena 0 whole) 0 numBytes

end MinRPCServer

inductive Reply where
  | returnVoid
  | copyAck (data : Bytes)

def handleCopyFromRemote (server : MinRPCServer) : RecvM (MinRPCServer × Reply) := do
  let arr ← receiveDLTensor
  let numBytes ← read Layout.u64
  return (server, .copyAck (server.copyFromRemote arr numBytes.toNat))

def handleCopyToRemote (server : MinRPCServer) : RecvM (MinRPCServer × Reply) := do
  let arr ← receiveDLTensor
  let numBytes ← read Layout.u64
  let data ← readArray Layout.u8 numBytes.toNat
  return (server.copyToRemote arr data.val, .returnVoid)

/-- `ProcessOnePacket`, for the requests to copy. -/
def processOnePacket (server : MinRPCServer) : RecvM (Option (MinRPCServer × Reply)) := do
  let packetLen ← read Layout.u64
  if packetLen = 0 then return none
  let code ← read Layout.i32
  if code = kCopyFromRemote then return some (← handleCopyFromRemote server)
  else if code = kCopyToRemote then return some (← handleCopyToRemote server)
  else return none

inductive CopyError where
  | invalidBlockSize
  | overflow
  | serverError (status : RPCServerStatus)
  | notReturned

/-- `RemoteCopyCalculatePacketOverheadSize`: the code, the data handle, the device, the rank,
the type, the byte offset, the shape and the number of bytes. -/
def remoteCopyCalculatePacketOverheadSize (tensor : DLTensor) : UInt64 :=
  4 + 8 + 8 + 4 + 4 + 8 + UInt64.ofNat (toSize tensor.ndim) * 8 + 8

def copyToRemotePacket (fromBytes : Bytes) (to_ : DLTensor) (nbytes : UInt64) : SendM Bytes Unit := do
  streamChannel.put Layout.u64 (remoteCopyCalculatePacketOverheadSize to_ + nbytes)
  streamChannel.put Layout.i32 kCopyToRemote
  sendDLTensor streamChannel to_
  streamChannel.put Layout.u64 nbytes
  streamChannel.putArray Layout.u8 fromBytes

def copyFromRemotePacket (from_ : DLTensor) (nbytes : UInt64) : SendM Bytes Unit := do
  streamChannel.put Layout.u64 (remoteCopyCalculatePacketOverheadSize from_)
  streamChannel.put Layout.i32 kCopyFromRemote
  sendDLTensor streamChannel from_
  streamChannel.put Layout.u64 nbytes

def request (server : MinRPCServer) (packet : SendM Bytes Unit) :
    Except CopyError (MinRPCServer × Reply) :=
  match packet [] with
  | .error status _ => .error (.serverError status)
  | .ok _ wire =>
    match processOnePacket server wire with
    | .error status _ => .error (.serverError status)
    | .ok none _ => .error .notReturned
    | .ok (some result) _ => .ok result

def endpointCopyToRemote (server : MinRPCServer) (fromBytes : Bytes) (to_ : DLTensor)
    (nbytes : UInt64) : Except CopyError MinRPCServer :=
  if getDataSize to_ < to_.byteOffset + nbytes then .error .overflow
  else
    match request server (copyToRemotePacket fromBytes to_ nbytes) with
    | .error error => .error error
    | .ok (server, .returnVoid) => .ok server
    | .ok (_, .copyAck _) => .error .notReturned

def endpointCopyFromRemote (server : MinRPCServer) (from_ : DLTensor) (nbytes : UInt64) :
    Except CopyError Bytes :=
  if getDataSize from_ < from_.byteOffset + nbytes then .error .overflow
  else
    match request server (copyFromRemotePacket from_ nbytes) with
    | .error error => .error error
    | .ok (_, .copyAck data) => .ok (data.take nbytes.toNat)
    | .ok (_, .returnVoid) => .error .notReturned

structure Block where
  offset : UInt64
  size : UInt64
  deriving DecidableEq, Repr

def copyBlocks (nbytes blockSize : UInt64) : List Block :=
  let numBlocks := nbytes / blockSize
  let remainderBytes := nbytes % blockSize
  (List.range numBlocks.toNat).map (fun blockCount => ⟨UInt64.ofNat blockCount * blockSize, blockSize⟩) ++
    if remainderBytes ≠ 0 then [⟨numBlocks * blockSize, remainderBytes⟩] else []

def DLTensor.atBlock (tensor : DLTensor) (block : Block) : DLTensor :=
  { tensor with byteOffset := block.offset }

def sessionCopyToRemote (server : MinRPCServer) (client : Memory) (localFromBytes : Nat)
    (remoteTo : DLTensor) (nbytes rpcMaxSize : UInt64) : Except CopyError MinRPCServer :=
  let overhead := remoteCopyCalculatePacketOverheadSize remoteTo
  if rpcMaxSize ≤ overhead then .error .invalidBlockSize
  else
    (copyBlocks nbytes (rpcMaxSize - overhead)).foldlM (fun server block =>
      endpointCopyToRemote server
        (load client (localFromBytes + block.offset.toNat) block.size.toNat)
        (remoteTo.atBlock block) block.size) server

def sessionCopyFromRemote (server : MinRPCServer) (client : Memory) (remoteFrom : DLTensor)
    (localToBytes : Nat) (nbytes rpcMaxSize : UInt64) : Except CopyError Memory :=
  let overhead := remoteCopyCalculatePacketOverheadSize remoteFrom
  if rpcMaxSize ≤ overhead then .error .invalidBlockSize
  else
    (copyBlocks nbytes (rpcMaxSize - overhead)).foldlM (fun client block =>
      (endpointCopyFromRemote server (remoteFrom.atBlock block) block.size).map fun data =>
        store client (localToBytes + block.offset.toNat) data) client

end Tvm.MinRpc
