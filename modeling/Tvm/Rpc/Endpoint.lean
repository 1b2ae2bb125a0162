import Mathlib
import Tvm.MinRpc.PackedSeq

/-!
# The event handler of the RPC endpoint

`rpc_endpoint.cc` on the side of a server that is driven by events, on a little-endian host.
The two ring buffers are queues of bytes.  What the code does not survive (a failed `ICHECK`,
an exception that nobody catches) is `none`.
-/

namespace Tvm.RpcEndpoint

open Tvm.Lib Tvm.MinRpc

def kNone : Int32 := 0
def kShutdown : Int32 := 1
def kInitServer : Int32 := 2
def kCallFunc : Int32 := 3
def kReturn : Int32 := 4
def kException : Int32 := 5
def kCopyFromRemote : Int32 := 6
def kCopyToRemote : Int32 := 7
def kCopyAck : Int32 := 8
def kSyscallCodeStart : Int32 := 9
def kGetGlobalFunc : Int32 := 9
def kFreeHandle : Int32 := 10
def kDevSetDevice : Int32 := 11
def kDevGetAttr : Int32 := 12
def kDevAllocData : Int32 := 13
def kDevFreeData : Int32 := 14
def kDevStreamSync : Int32 := 15
def kCopyAmongRemote : Int32 := 16
def kDevAllocDataWithScope : Int32 := 17
def kDevCreateStream : Int32 := 18
def kDevFreeStream : Int32 := 19
def kDevSetStream : Int32 := 20

/-- The codes that `HandleSyscall` gives to `SysCallHandler`. -/
def sysCalls : List Int32 :=
  [kFreeHandle, kGetGlobalFunc, kDevSetDevice, kDevGetAttr, kDevAllocData, kDevAllocDataWithScope,
    kDevFreeData, kDevCreateStream, kDevFreeStream, kDevSetStream, kCopyAmongRemote]

def kDLCPU : Int32 := 1

def kRPCProtocolVer : Bytes := [48, 46, 56, 46, 48]

def toInit : Bytes := [37, 116, 111, 105, 110, 105, 116]

/-- An `RPCSession`.  The asynchronous functions give what they hand to the callback; if the
callback throws and is called again, what they hand to it then. -/
structure RPCSession (ω : Type) where
  isLocalSession : Bool
  asyncCallFunc : UInt64 → List TVMArg → ω → Except CString (List TVMArg) × ω
  asyncCopyToRemote : Bytes → DLTensor → ω → Except CString Unit × ω
  asyncCopyFromRemote : DLTensor → UInt64 → ω → Except CString Bytes × ω
  asyncStreamWait : DLDevice → UInt64 → ω → Except CString Unit × ω
  /-- `RPCGetGlobalFunc` and its siblings, by their code. -/
  sysCall : Int32 → List TVMArg → ω → Except CString TVMArg × ω

/-- What makes `HandleInitServer` return an exception. -/
inductive InitError where
  | alreadyInitialized
  | versionMismatch (clientProtocolVer : Bytes)
  | construct (message : CString)

/-- What surrounds the endpoint, in a world `ω`. -/
structure Host (ω : Type) where
  localSession : RPCSession ω
  /-- The session constructors by name, from the constructor name in the first argument on. -/
  construct : List TVMArg → ω → Except CString (RPCSession ω) × ω
  /-- `rpc.LocalSession`, which is constructed behind the session it replaces. -/
  constructLocal : ω → Except CString (RPCSession ω) × ω
  load : UInt64 → UInt64 → ω → Bytes
  store : UInt64 → Bytes → ω → ω
  /-- The conversions of the arguments of `kDevStreamSync`. -/
  streamArgs : List TVMArg → Except CString (DLDevice × UInt64)
  /-- What an exception says. -/
  what : InitError → CString
  notInitialized : CString
  fatal : RPCServerStatus → CString

structure Server (ω : Type) where
  servingSession : Option (RPCSession ω)
  world : ω

def written (sender : SendM Bytes Unit) : Bytes :=
  match sender [] with
  | .ok _ wire => wire
  | .error _ wire => wire

def returnException (errMsg : CString) : Bytes :=
  let len := strLength errMsg.memory
  written do
    streamChannel.put Layout.u64 (4 + 4 + 4 + 8 + UInt64.ofNat len)
    streamChannel.put Layout.i32 kException
    streamChannel.put Layout.i32 1
    streamChannel.put Layout.i32 kTVMStr
    streamChannel.put Layout.u64 (UInt64.ofNat len)
    streamChannel.putArray Layout.u8 (errMsg.memory.take len)

def returnVoid : Bytes :=
  written do
    streamChannel.put Layout.u64 (4 + 4 + 4)
    streamChannel.put Layout.i32 kReturn
    streamChannel.put Layout.i32 1
    streamChannel.put Layout.i32 kTVMNullptr

def returnPackedSeq (args : List TVMArg) : SendM Bytes Unit := do
  let numBytes ← packedSeqGetNumBytes args false
  streamChannel.put Layout.u64 (4 + numBytes)
  streamChannel.put Layout.i32 kReturn
  sendPackedSeq streamChannel args false

def copyAck (data : Bytes) : Bytes :=
  written do
    streamChannel.put Layout.u64 (4 + UInt64.ofNat data.length)
    streamChannel.put Layout.i32 kCopyAck
    streamChannel.putArray Layout.u8 data

/-- What is handed to the callback of an asynchronous function. -/
inductive Completion where
  | callFunc (result : Except CString (List TVMArg))
  | copyFromRemote (result : Except CString Bytes)
  | copyToRemote (result : Except CString Unit)
  | streamWait (result : Except CString Unit)

def kRPCSessMask : Int32 := 128

/-- `ValidateArguments` refuses RPC devices.  The objects that it refuses have no case in
`SendPackedSeq` either. -/
def validateArguments (args : List TVMArg) : Bool :=
  args.all fun
    | .device dev => !decide (0 < dev.deviceType / kRPCSessMask)
    | _ => true

/-- What the callback writes, if it does not throw. -/
def Completion.reply : Completion → Option Bytes
  | .callFunc (.error message) => some (returnException message)
  | .callFunc (.ok args) =>
    if validateArguments args then
      match returnPackedSeq args [] with
      | .ok _ wire => some wire
      | .error _ _ => none
    else none
  | .copyFromRemote (.error message) => some (returnException message)
  | .copyFromRemote (.ok data) => some (copyAck data)
  | .copyToRemote (.error message) => some (returnException message)
  | .copyToRemote (.ok _) => some returnVoid
  | .streamWait (.error message) => some (returnException message)
  | .streamWait (.ok _) => some returnVoid

/-- What a packet makes the handler do when it has been read. -/
inductive Answer where
  /-- Write, and go on to the next packet. -/
  | replied (reply : Bytes)
  /-- Wait for the callback of an asynchronous function. -/
  | awaiting (completion : Completion)
  /-- Begin to wait, then write because of an exception. -/
  | interrupted (reply : Bytes)
  | returnReceived
  | copyAckReceived
  | shutdownReceived

/-- The state is what has not been read yet of the packet. -/
abbrev PacketM := StateT Bytes Option

def recv {α : Type} (receiver : RecvM α) : PacketM α := fun wire =>
  match receiver wire with
  | .ok value rest => some (value, rest)
  | .error _ _ => none

section

variable {ω : Type} (host : Host ω) (server : Server ω)

/-- `GetServingSession`.  The endpoint is driven by events, so that the session may be
asynchronous. -/
def getServingSession : PacketM (RPCSession ω) := fun wire =>
  server.servingSession.map fun session => (session, wire)

/-- The part of `HandleInitServer` that may throw. -/
def initSession (clientProtocolVer : Bytes) (args : List TVMArg) :
    Server ω × Except InitError Unit :=
  if server.servingSession.isSome then (server, .error .alreadyInitialized)
  else if clientProtocolVer ≠ kRPCProtocolVer then
    (server, .error (.versionMismatch clientProtocolVer))
  else
    let started : Server ω :=
      if args = [] then { server with servingSession := some host.localSession } else server
    let made := if args = [] then host.constructLocal server.world
      else host.construct args server.world
    match made.1 with
    | .ok session => ({ servingSession := some session, world := made.2 }, .ok ())
    | .error message => ({ started with world := made.2 }, .error (.construct message))

def handleInitServer : PacketM (Server ω × Answer) := do
  let len ← recv (read Layout.u64)
  let clientProtocolVer ← recv (readArray Layout.u8 len.toNat)
  let args ← recv recvPackedSeq
  let result := initSession host server clientProtocolVer.val args.2
  match result.2 with
  | .ok _ => return (result.1, .replied returnVoid)
  | .error error => return (result.1, .replied (returnException (host.what error)))

def handleNormalCallFunc : PacketM (Server ω × Answer) := do
  let callHandle ← recv (read Layout.u64)
  let args ← recv recvPackedSeq
  let session ← getServingSession server
  let result := session.asyncCallFunc callHandle args.2 server.world
  return ({ server with world := result.2 }, .awaiting (.callFunc result.1))

def handleCopyFromRemote : PacketM (Server ω × Answer) := do
  let arr ← recv receiveDLTensor
  let dataBytes ← recv (read Layout.u64)
  let session ← getServingSession server
  if arr.device.deviceType = kDLCPU ∧ session.isLocalSession then
    let data := host.load (arr.data + arr.byteOffset) dataBytes server.world
    return (server, .replied (copyAck data))
  else
    let result := session.asyncCopyFromRemote arr dataBytes server.world
    return ({ server with world := result.2 }, .awaiting (.copyFromRemote result.1))

def handleCopyToRemote : PacketM (Server ω × Answer) := do
  let arr ← recv receiveDLTensor
  let dataBytes ← recv (read Layout.u64)
  let session ← getServingSession server
  let data ← recv (readArray Layout.u8 dataBytes.toNat)
  if arr.device.deviceType = kDLCPU ∧ session.isLocalSession then
    let world := host.store (arr.data + arr.byteOffset) data.val server.world
    return ({ server with world := world }, .replied returnVoid)
  else
    let result := session.asyncCopyToRemote data.val arr server.world
    return ({ server with world := result.2 }, .awaiting (.copyToRemote result.1))

def handleReturn (code : Int32) : PacketM (Server ω × Answer) := do
  let _ ← recv recvPackedSeq
  -- an exception of the remote is thrown on
  if code = kException then fun _ => none else return (server, .returnReceived)

def handleSyscallStreamSync : PacketM (Server ω × Answer) := do
  let args ← recv recvPackedSeq
  match host.streamArgs args.2 with
  | .error message => return (server, .replied (returnException message))
  | .ok stream =>
    match server.servingSession with
    | none => return (server, .interrupted (returnException host.notInitialized))
    | some session =>
      let result := session.asyncStreamWait stream.1 stream.2 server.world
      return ({ server with world := result.2 }, .awaiting (.streamWait result.1))

/-- What is written before an exception stays written. -/
def sysCallHandler (code : Int32) : PacketM (Server ω × Answer) := do
  let args ← recv recvPackedSeq
  match server.servingSession with
  | none => return (server, .replied (returnException host.notInitialized))
  | some session =>
    let result := session.sysCall code args.2 server.world
    let after := { server with world := result.2 }
    match result.1 with
    | .error message => return (after, .replied (returnException message))
    | .ok rv =>
      match returnPackedSeq [rv] [] with
      | .ok _ wire => return (after, .replied wire)
      | .error status wire => return (after, .replied (wire ++ returnException (host.fatal status)))

def handleSyscall (code : Int32) : PacketM (Server ω × Answer) :=
  if code = kDevStreamSync then handleSyscallStreamSync host server
  else if code ∈ sysCalls then sysCallHandler host server code
  else fun _ => none

/-- `HandleProcessPacket` as far as the packet is read. -/
def readPacket : PacketM (Server ω × Answer) := do
  let code ← recv (read Layout.i32)
  if kSyscallCodeStart ≤ code then handleSyscall host server code
  else if code = kInitServer then handleInitServer host server
  else if code = kCallFunc then handleNormalCallFunc server
  else if code = kCopyFromRemote then handleCopyFromRemote host server
  else if code = kCopyToRemote then handleCopyToRemote host server
  else if code = kException ∨ code = kReturn then handleReturn server code
  else if code = kCopyAck then return (server, .copyAckReceived)
  else if code = kShutdown then return (server, .shutdownReceived)
  else fun _ => none

end

inductive State where
  | initHeader
  | recvPacketNumBytes
  | processPacket
  | waitForAsyncCallback
  | returnReceived
  | copyAckReceived
  | shutdownReceived
  deriving DecidableEq, Repr

structure EventHandler (ω : Type) where
  state : State
  pendingRequestBytes : Nat
  initHeaderStep : Nat
  remoteKey : Bytes
  server : Server ω
  reader : Bytes
  writer : Bytes
  /-- What the channel has taken from the writer. -/
  sent : Bytes
  /-- The callback that has not been called yet. -/
  outstanding : Option Completion
  /-- How often the channel has been offered bytes. -/
  sends : Nat
  /-- How many asynchronous functions have been called. -/
  calls : Nat

/-- What the handler has no influence on: whether an asynchronous function calls back after
it has returned, and how much the channel takes. -/
structure Timing where
  late : Nat → Bool
  taken : Nat → Nat

namespace EventHandler

variable {ω : Type} (host : Host ω) (timing : Timing) (handler : EventHandler ω)

def requestBytes (nbytes : Nat) : EventHandler ω :=
  { handler with pendingRequestBytes := handler.pendingRequestBytes + nbytes }

def ready : Bool := handler.pendingRequestBytes ≤ handler.reader.length

/-- `ReadWithCallback` of the whole writer. -/
def send : EventHandler ω :=
  { handler with
    sent := handler.sent ++ handler.writer.take (timing.taken handler.sends)
    writer := handler.writer.drop (timing.taken handler.sends)
    sends := handler.sends + 1 }

/-- The loop of `flush_writer`, in at most as many rounds as there are bytes. -/
def flushWriter : Nat → EventHandler ω → EventHandler ω
  | 0, handler => handler
  | rounds + 1, handler =>
    if handler.writer = [] then handler
    else
      let after := handler.send timing
      if after.writer.length = handler.writer.length then after
      else flushWriter rounds after

def switchToState (state : State) : Option (EventHandler ω) :=
  if state ≠ .copyAckReceived ∧ handler.pendingRequestBytes ≠ 0 then none
  else
    let flushed := if handler.state = .waitForAsyncCallback then
        flushWriter timing handler.writer.length handler
      else handler
    let switched := { flushed with state := state }
    if state = .initHeader then none
    else if state = .recvPacketNumBytes then some (switched.requestBytes 8)
    else some switched

def write (bytes : Bytes) : EventHandler ω := { handler with writer := handler.writer ++ bytes }

/-- The handler reads from the bytes that it has requested. -/
def receive {α : Type} (receiver : PacketM α) : Option (α × EventHandler ω) :=
  (receiver (handler.reader.take handler.pendingRequestBytes)).map fun result =>
    (result.1,
      { handler with
        reader := result.2 ++ handler.reader.drop handler.pendingRequestBytes
        pendingRequestBytes := result.2.length })

/-- The callback of an asynchronous function is called. -/
def complete (completion : Completion) : Option (EventHandler ω) := do
  let reply ← completion.reply
  ({ handler with outstanding := none }.write reply).switchToState timing .recvPacketNumBytes

def answer : Answer → Option (EventHandler ω)
  | .replied reply => (handler.write reply).switchToState timing .recvPacketNumBytes
  | .awaiting completion => do
    let waiting ← handler.switchToState timing .waitForAsyncCallback
    let called := { waiting with calls := waiting.calls + 1 }
    if timing.late waiting.calls then some { called with outstanding := some completion }
    else called.complete timing completion
  | .interrupted reply => do
    let waiting ← handler.switchToState timing .waitForAsyncCallback
    (waiting.write reply).switchToState timing .recvPacketNumBytes
  | .returnReceived => handler.switchToState timing .returnReceived
  | .copyAckReceived => handler.switchToState timing .copyAckReceived
  | .shutdownReceived => handler.switchToState timing .shutdownReceived

def handleProcessPacket : Option (EventHandler ω) := do
  let result ← handler.receive (readPacket host handler.server)
  { result.2 with server := result.1.1 }.answer timing result.1.2

/-- Lengths that `resize` does not survive are negative ones. -/
def handleInitHeader : Option (EventHandler ω) :=
  if handler.initHeaderStep = 0 then do
    let result ← handler.receive (recv (read Layout.i32))
    if result.1 < 0 then none
    else
      let len := toSize result.1
      some ({ result.2 with
        remoteKey := List.replicate len 0
        initHeaderStep := 1 }.requestBytes len)
  else if handler.initHeaderStep = 1 then do
    let result ← handler.receive (recv (readArray Layout.u8 handler.remoteKey.length))
    { result.2 with remoteKey := result.1.val }.switchToState timing .recvPacketNumBytes
  else none

def handlePacketNumBytes : Option (EventHandler ω) := do
  let result ← handler.receive (recv (read Layout.u64))
  if result.1 = 0 then result.2.switchToState timing .recvPacketNumBytes
  else
    let switched ← result.2.switchToState timing .processPacket
    some (switched.requestBytes result.1.toNat)

/-- One round of the loop of `HandleNextEvent`, with the status it leaves. -/
def nextEvent : Option (Int32 × EventHandler ω) :=
  match handler.state with
  | .initHeader => (handler.handleInitHeader timing).map (Prod.mk kNone)
  | .recvPacketNumBytes => (handler.handlePacketNumBytes timing).map (Prod.mk kNone)
  | .processPacket => (handler.handleProcessPacket host timing).map (Prod.mk kNone)
  | .waitForAsyncCallback => some (kNone, handler)
  | .returnReceived =>
    (handler.switchToState timing .recvPacketNumBytes).map (Prod.mk kReturn)
  | .copyAckReceived => some (kCopyAck, handler)
  | .shutdownReceived => some (kShutdown, handler)

def handleNextEvent : Nat → EventHandler ω → Option (Int32 × EventHandler ω)
  | 0, _ => none
  | fuel + 1, handler =>
    if handler.state ≠ .waitForAsyncCallback ∧ handler.ready then do
      let round ← handler.nextEvent host timing
      if round.1 = kNone then handleNextEvent fuel round.2 else some round
    else some (kNone, handler)

/-- The end of `ServerAsyncIOEventHandler`: the status decides what is returned. -/
def report (status eventFlag : Int32) : Option (Int32 × EventHandler ω) :=
  let after := if eventFlag &&& 2 ≠ 0 ∧ handler.writer ≠ [] then handler.send timing else handler
  if status = kReturn ∨ status = kCopyAck then none
  else if status = kShutdown then some (0, after)
  else if after.writer ≠ [] then some (2, after)
  else some (1, after)

/-- `ServerAsyncIOEventHandler`.  Every round but the one that reads an empty remote key
consumes a byte. -/
def serverAsyncIOEventHandler (inBytes : Bytes) (eventFlag : Int32) :
    Option (Int32 × EventHandler ω) :=
  if inBytes = [] then handler.report timing kNone eventFlag
  else do
    let fed := { handler with reader := handler.reader ++ inBytes }
    let handled ← fed.handleNextEvent host timing (fed.reader.length + 3)
    handled.2.report timing handled.1 eventFlag

def start (remoteKey : Bytes) (world : ω) : EventHandler ω where
  state := if remoteKey = toInit then .initHeader else .recvPacketNumBytes
  pendingRequestBytes := if remoteKey = toInit then 4 else 8
  initHeaderStep := 0
  remoteKey := if remoteKey = toInit then [] else remoteKey
  server := { servingSession := none, world := world }
  reader := []
  writer := []
  sent := []
  outstanding := none
  sends := 0
  calls := 0

end EventHandler

/-- The event loop hands over bytes, or an asynchronous function calls back if it still has
to. -/
inductive Event where
  | io (inBytes : Bytes) (eventFlag : Int32)
  | callback
  deriving DecidableEq

section

variable {ω : Type} (host : Host ω) (timing : Timing)

def EventHandler.event (handler : EventHandler ω) : Event → Option (EventHandler ω)
  | .io inBytes eventFlag =>
    (handler.serverAsyncIOEventHandler host timing inBytes eventFlag).map Prod.snd
  | .callback =>
    match handler.outstanding with
    | none => some handler
    | some completion => handler.complete timing completion

def EventHandler.run (handler : EventHandler ω) (events : List Event) : Option (EventHandler ω) :=
  events.foldlM (EventHandler.event host timing) handler

end

end Tvm.RpcEndpoint
