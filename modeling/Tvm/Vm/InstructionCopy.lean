import Tvm.Lib.ArrayHeap
import Tvm.Vm.Bytecode

/-!
# Copying instructions

The copy constructor, the assignment and the destructor of `Instruction` in `bytecode.cc`, over
objects in memory: the operands of a union with pointers to the arrays that they own.  `none` is an
access to an array that is not there.
-/

namespace Tvm.Vm

open Tvm.Lib

abbrev Heap := ArrayHeap Index

inductive Operands where
  | move (source : RegName)
  | ret (result : RegName)
  | fatal
  | invokePacked (packedIndex arity outputSize : Index) (packedArgs : Address)
  | allocTensor (storage : RegName) (offset : Index) (ndim : BitVec 32) (shape : Address)
      (dtype : DLDataType)
  | allocTensorReg (storage : RegName) (offset : Index) (shapeRegister : RegName)
      (dtype : DLDataType)
  | allocStorage (allocationSize : RegName) (alignment : Index) (dtypeHint : DLDataType)
      (deviceIndex : Index)
  | allocADT (constructorTag numFields : Index) (datatypeFields : Address)
  | allocClosure (cloIndex numFreevar : Index) (freeVars : Address)
  | ifOp (test target : RegName) (trueOffset falseOffset : Index)
  | invoke (funcIndex numArgs : Index) (invokeArgsRegisters : Address)
  | invokeClosure (closure : RegName) (numClosureArgs : Index) (closureArgs : Address)
  | loadConst (constIndex : Index)
  | loadConsti (val : Index)
  | getField (object : RegName) (fieldIndex : Index)
  | getTag (object : RegName)
  | goto (pcOffset : Index)
  | shapeOf (tensor : RegName)
  | reshapeTensor (tensor newshape : RegName)
  | deviceCopy (src : RegName) (srcDeviceIndex dstDeviceIndex : Index)
  | killRegister
  deriving DecidableEq

def Operands.op : Operands → Opcode
  | .move .. => .Move
  | .ret .. => .Ret
  | .fatal => .Fatal
  | .invokePacked .. => .InvokePacked
  | .allocTensor .. => .AllocTensor
  | .allocTensorReg .. => .AllocTensorReg
  | .allocStorage .. => .AllocStorage
  | .allocADT .. => .AllocADT
  | .allocClosure .. => .AllocClosure
  | .ifOp .. => .If
  | .invoke .. => .Invoke
  | .invokeClosure .. => .InvokeClosure
  | .loadConst .. => .LoadConst
  | .loadConsti .. => .LoadConsti
  | .getField .. => .GetField
  | .getTag .. => .GetTag
  | .goto .. => .Goto
  | .shapeOf .. => .ShapeOf
  | .reshapeTensor .. => .ReshapeTensor
  | .deviceCopy .. => .DeviceCopy
  | .killRegister => .KillRegister

structure InstructionObject where
  dst : RegName
  operands : Operands
  deriving DecidableEq

/-- `Duplicate`, where `answer` is what `new` returns. -/
def duplicate (heap : Heap) (answer src : Address) (size : Index) : Option (Heap × Address) :=
  (heap.read src size.toInt).map fun elements => (heap.new answer elements, answer)

/-- `FreeIf`; what has come from `new[]` is given to `delete`, which is taken to free it. -/
def freeIf (heap : Heap) (t : Address) : Option Heap :=
  if t ≠ 0 then heap.delete t else some heap

namespace InstructionObject

def copyConstruct (heap : Heap) (answer : Address) (instr : InstructionObject) :
    Option (Heap × InstructionObject) :=
  let dst := instr.dst
  match instr.operands with
  | .move source => some (heap, ⟨dst, .move source⟩)
  | .fatal => some (heap, ⟨dst, .fatal⟩)
  | .ret result => some (heap, ⟨dst, .ret result⟩)
  | .allocTensor storage offset ndim shape dtype => do
      let (heap, shape) ← duplicate heap answer shape (ndim.setWidth 64)
      some (heap, ⟨dst, .allocTensor storage offset ndim shape dtype⟩)
  | .allocTensorReg storage offset shapeRegister dtype =>
    some (heap, ⟨dst, .allocTensorReg storage offset shapeRegister dtype⟩)
  | .allocADT constructorTag numFields datatypeFields => do
      let (heap, datatypeFields) ← duplicate heap answer datatypeFields numFields
      some (heap, ⟨dst, .allocADT constructorTag numFields datatypeFields⟩)
  | .allocClosure cloIndex numFreevar freeVars => do
      let (heap, freeVars) ← duplicate heap answer freeVars numFreevar
      some (heap, ⟨dst, .allocClosure cloIndex numFreevar freeVars⟩)
  | .invokePacked packedIndex arity outputSize packedArgs => do
      let (heap, packedArgs) ← duplicate heap answer packedArgs arity
      some (heap, ⟨dst, .invokePacked packedIndex arity outputSize packedArgs⟩)
  | .invokeClosure closure numClosureArgs closureArgs => do
      let (heap, closureArgs) ← duplicate heap answer closureArgs numClosureArgs
      some (heap, ⟨dst, .invokeClosure closure numClosureArgs closureArgs⟩)
  | .invoke funcIndex numArgs invokeArgsRegisters => do
      let (heap, invokeArgsRegisters) ← duplicate heap answer invokeArgsRegisters numArgs
      some (heap, ⟨dst, .invoke funcIndex numArgs invokeArgsRegisters⟩)
  | .ifOp test target trueOffset falseOffset =>
    some (heap, ⟨dst, .ifOp test target trueOffset falseOffset⟩)
  | .loadConst constIndex => some (heap, ⟨dst, .loadConst constIndex⟩)
  | .loadConsti val => some (heap, ⟨dst, .loadConsti val⟩)
  | .getField object fieldIndex => some (heap, ⟨dst, .getField object fieldIndex⟩)
  | .getTag object => some (heap, ⟨dst, .getTag object⟩)
  | .goto pcOffset => some (heap, ⟨dst, .goto pcOffset⟩)
  | .allocStorage allocationSize alignment dtypeHint deviceIndex =>
    some (heap, ⟨dst, .allocStorage allocationSize alignment dtypeHint deviceIndex⟩)
  | .shapeOf tensor => some (heap, ⟨dst, .shapeOf tensor⟩)
  | .reshapeTensor tensor newshape => some (heap, ⟨dst, .reshapeTensor tensor newshape⟩)
  | .deviceCopy src srcDeviceIndex dstDeviceIndex =>
    some (heap, ⟨dst, .deviceCopy src srcDeviceIndex dstDeviceIndex⟩)
  | .killRegister => some (heap, ⟨dst, .killRegister⟩)

/-- `operator=` between instructions of one opcode.  The pointer of `instr` is read after `FreeIf`,
which matters where both are one object. -/
def assign (heap : Heap) (answer : Address) (this instr : InstructionObject) :
    Option (Heap × InstructionObject) :=
  let dst := instr.dst
  match this.operands, instr.operands with
  | .move _, .move source => some (heap, ⟨dst, .move source⟩)
  | .fatal, .fatal => some (heap, ⟨dst, .fatal⟩)
  | .loadConsti _, .loadConsti val => some (heap, ⟨dst, .loadConsti val⟩)
  | .ret _, .ret result => some (heap, ⟨dst, .ret result⟩)
  | .allocTensor storage _ _ _ _, .allocTensor _ offset ndim shape dtype => do
      -- The storage is that of the left side.
      let (heap, shape) ← duplicate heap answer shape (ndim.setWidth 64)
      some (heap, ⟨dst, .allocTensor storage offset ndim shape dtype⟩)
  | .allocTensorReg _ _ _ _, .allocTensorReg storage offset shapeRegister dtype =>
    some (heap, ⟨dst, .allocTensorReg storage offset shapeRegister dtype⟩)
  | .allocADT _ _ old, .allocADT constructorTag numFields datatypeFields => do
      let heap ← freeIf heap old
      let (heap, datatypeFields) ← duplicate heap answer datatypeFields numFields
      some (heap, ⟨dst, .allocADT constructorTag numFields datatypeFields⟩)
  | .allocClosure _ _ old, .allocClosure cloIndex numFreevar freeVars => do
      let heap ← freeIf heap old
      let (heap, freeVars) ← duplicate heap answer freeVars numFreevar
      some (heap, ⟨dst, .allocClosure cloIndex numFreevar freeVars⟩)
  | .invokePacked _ _ _ old, .invokePacked packedIndex arity outputSize packedArgs => do
      let heap ← freeIf heap old
      let (heap, packedArgs) ← duplicate heap answer packedArgs arity
      some (heap, ⟨dst, .invokePacked packedIndex arity outputSize packedArgs⟩)
  | .invokeClosure _ _ old, .invokeClosure closure numClosureArgs closureArgs => do
      let heap ← freeIf heap old
      let (heap, closureArgs) ← duplicate heap answer closureArgs numClosureArgs
      some (heap, ⟨dst, .invokeClosure closure numClosureArgs closureArgs⟩)
  | .invoke _ _ old, .invoke funcIndex numArgs invokeArgsRegisters => do
      let heap ← freeIf heap old
      let (heap, invokeArgsRegisters) ← duplicate heap answer invokeArgsRegisters numArgs
      some (heap, ⟨dst, .invoke funcIndex numArgs invokeArgsRegisters⟩)
  | .ifOp _ _ _ _, .ifOp test target trueOffset falseOffset =>
    some (heap, ⟨dst, .ifOp test target trueOffset falseOffset⟩)
  | .loadConst _, .loadConst constIndex => some (heap, ⟨dst, .loadConst constIndex⟩)
  | .getField _ _, .getField object fieldIndex => some (heap, ⟨dst, .getField object fieldIndex⟩)
  | .getTag _, .getTag object => some (heap, ⟨dst, .getTag object⟩)
  | .goto _, .goto pcOffset => some (heap, ⟨dst, .goto pcOffset⟩)
  | .allocStorage _ _ _ _, .allocStorage allocationSize alignment dtypeHint deviceIndex =>
    some (heap, ⟨dst, .allocStorage allocationSize alignment dtypeHint deviceIndex⟩)
  | .shapeOf _, .shapeOf tensor => some (heap, ⟨dst, .shapeOf tensor⟩)
  | .reshapeTensor _ _, .reshapeTensor tensor newshape =>
    some (heap, ⟨dst, .reshapeTensor tensor newshape⟩)
  | .deviceCopy _ _ _, .deviceCopy src srcDeviceIndex dstDeviceIndex =>
    some (heap, ⟨dst, .deviceCopy src srcDeviceIndex dstDeviceIndex⟩)
  | .killRegister, .killRegister => some (heap, ⟨dst, .killRegister⟩)
  | _, _ => none

/-- `delete[]` of a pointer that may be null. -/
def deleteArray (heap : Heap) (t : Address) : Option Heap :=
  if t = 0 then some heap else heap.delete t

def destroy (heap : Heap) (this : InstructionObject) : Option Heap :=
  match this.operands with
  | .allocTensor _ _ _ shape _ => deleteArray heap shape
  | .allocADT _ _ datatypeFields => deleteArray heap datatypeFields
  | .allocClosure _ _ freeVars => deleteArray heap freeVars
  | .invokePacked _ _ _ packedArgs => deleteArray heap packedArgs
  | .invokeClosure _ _ closureArgs => deleteArray heap closureArgs
  | .invoke _ _ invokeArgsRegisters => deleteArray heap invokeArgsRegisters
  | _ => some heap

/-- The functions that make an instruction; where they set no destination it is whatever was in the
memory. -/
def construct (heap : Heap) (answer : Address) (unset : RegName) :
    Instruction → Heap × InstructionObject
  | .move source dst => (heap, ⟨dst, .move source⟩)
  | .ret result => (heap, ⟨unset, .ret result⟩)
  | .fatal => (heap, ⟨unset, .fatal⟩)
  | .invokePacked packedIndex outputSize packedArgs => (heap.new answer packedArgs.val,
      ⟨unset, .invokePacked packedIndex packedArgs.count outputSize answer⟩)
  | .allocTensor storage offset shape dtype dst => (heap.new answer shape.val,
      ⟨dst, .allocTensor storage offset shape.ndim answer dtype⟩)
  | .allocTensorReg storage offset shapeRegister dtype dst =>
    (heap, ⟨dst, .allocTensorReg storage offset shapeRegister dtype⟩)
  | .allocStorage allocationSize alignment dtypeHint deviceIndex dst =>
    (heap, ⟨dst, .allocStorage allocationSize alignment dtypeHint deviceIndex⟩)
  | .allocADT constructorTag datatypeFields dst => (heap.new answer datatypeFields.val,
      ⟨dst, .allocADT constructorTag datatypeFields.count answer⟩)
  | .allocClosure cloIndex freeVars dst => (heap.new answer freeVars.val,
      ⟨dst, .allocClosure cloIndex freeVars.count answer⟩)
  | .ifOp test target trueOffset falseOffset =>
    (heap, ⟨unset, .ifOp test target trueOffset falseOffset⟩)
  | .invoke funcIndex args dst => (heap.new answer args.val,
      ⟨dst, .invoke funcIndex args.count answer⟩)
  | .invokeClosure closure closureArgs dst => (heap.new answer closureArgs.val,
      ⟨dst, .invokeClosure closure closureArgs.count answer⟩)
  | .loadConst constIndex dst => (heap, ⟨dst, .loadConst constIndex⟩)
  | .loadConsti val dst => (heap, ⟨dst, .loadConsti val⟩)
  | .getField object fieldIndex dst => (heap, ⟨dst, .getField object fieldIndex⟩)
  | .getTag object dst => (heap, ⟨dst, .getTag object⟩)
  | .goto pcOffset => (heap, ⟨unset, .goto pcOffset⟩)
  | .shapeOf tensor dst => (heap, ⟨dst, .shapeOf tensor⟩)
  | .reshapeTensor tensor newshape dst => (heap, ⟨dst, .reshapeTensor tensor newshape⟩)
  | .deviceCopy src srcDeviceIndex dstDeviceIndex dst =>
    (heap, ⟨dst, .deviceCopy src srcDeviceIndex dstDeviceIndex⟩)
  | .killRegister dst => (heap, ⟨dst, .killRegister⟩)

def serialize (heap : Heap) (instr : InstructionObject) : Option VMInstructionSerializer :=
  let fields := match instr.operands with
    | .move source => some [source, instr.dst]
    | .ret result => some [result]
    | .fatal => some []
    | .invokePacked packedIndex arity outputSize packedArgs =>
      (heap.read packedArgs arity.toInt).map ([packedIndex, arity, outputSize] ++ ·)
    | .allocTensor storage offset ndim shape dtype =>
      (heap.read shape (ndim.setWidth 64).toInt).map
        ([storage, offset] ++ dtype.fields ++ [ndim.setWidth 64, instr.dst] ++ ·)
    | .allocTensorReg storage offset shapeRegister dtype =>
      some ([storage, offset, shapeRegister] ++ dtype.fields ++ [instr.dst])
    | .allocStorage allocationSize alignment dtypeHint deviceIndex =>
      some ([allocationSize, alignment] ++ dtypeHint.fields ++ [deviceIndex, instr.dst])
    | .allocADT constructorTag numFields datatypeFields =>
      (heap.read datatypeFields numFields.toInt).map
        ([constructorTag, numFields, instr.dst] ++ ·)
    | .allocClosure cloIndex numFreevar freeVars =>
      (heap.read freeVars numFreevar.toInt).map ([cloIndex, numFreevar, instr.dst] ++ ·)
    | .ifOp test target trueOffset falseOffset => some [test, target, trueOffset, falseOffset]
    | .invoke funcIndex numArgs invokeArgsRegisters =>
      (heap.read invokeArgsRegisters numArgs.toInt).map ([funcIndex, numArgs, instr.dst] ++ ·)
    | .invokeClosure closure numClosureArgs closureArgs =>
      (heap.read closureArgs numClosureArgs.toInt).map
        ([closure, numClosureArgs, instr.dst] ++ ·)
    | .loadConst constIndex => some [constIndex, instr.dst]
    | .loadConsti val => some [val, instr.dst]
    | .getField object fieldIndex => some [object, fieldIndex, instr.dst]
    | .getTag object => some [object, instr.dst]
    | .goto pcOffset => some [pcOffset]
    | .shapeOf tensor => some [tensor, instr.dst]
    | .reshapeTensor tensor newshape => some [tensor, newshape, instr.dst]
    | .deviceCopy src srcDeviceIndex dstDeviceIndex =>
      some [src, srcDeviceIndex, dstDeviceIndex, instr.dst]
    | .killRegister => some [instr.dst]
  fields.map fun fields => ⟨instr.operands.op.toIndex, fields⟩

end InstructionObject

structure InstructionMemory where
  heap : Heap
  objects : Nat → Option InstructionObject

namespace InstructionMemory

variable (mem : InstructionMemory)

def put (id : Nat) (result : Heap × InstructionObject) : InstructionMemory :=
  ⟨result.1, Function.update mem.objects id (some result.2)⟩

def construct (id : Nat) (answer : Address) (unset : RegName) (instr : Instruction) :
    InstructionMemory :=
  mem.put id (InstructionObject.construct mem.heap answer unset instr)

def copyConstruct (id source : Nat) (answer : Address) : Option InstructionMemory := do
  let instr ← mem.objects source
  let result ← instr.copyConstruct mem.heap answer
  some (mem.put id result)

def assign (id source : Nat) (answer : Address) : Option InstructionMemory := do
  let this ← mem.objects id
  let instr ← mem.objects source
  let result ← this.assign mem.heap answer instr
  some (mem.put id result)

def destroy (id : Nat) : Option InstructionMemory := do
  let this ← mem.objects id
  let heap ← this.destroy mem.heap
  some ⟨heap, Function.update mem.objects id none⟩

def serialize (id : Nat) : Option VMInstructionSerializer :=
  (mem.objects id).bind (InstructionObject.serialize mem.heap)

end InstructionMemory

def Operands.array : Operands → Option (Address × Index)
  | .invokePacked _ arity _ packedArgs => some (packedArgs, arity)
  | .allocTensor _ _ ndim shape _ => some (shape, ndim.setWidth 64)
  | .allocADT _ numFields datatypeFields => some (datatypeFields, numFields)
  | .allocClosure _ numFreevar freeVars => some (freeVars, numFreevar)
  | .invoke _ numArgs invokeArgsRegisters => some (invokeArgsRegisters, numArgs)
  | .invokeClosure _ numClosureArgs closureArgs => some (closureArgs, numClosureArgs)
  | _ => none

def Operands.storage : Operands → Option RegName
  | .allocTensor storage _ _ _ _ => some storage
  | _ => none

/-- The array that an assignment frees: that of the left side, but for `AllocTensor`. -/
def Operands.replaced (operands : Operands) : Option (Address × Index) :=
  if operands.op = .AllocTensor then none else operands.array

def InstructionObject.freed (heap : Heap) (this : InstructionObject) : Heap :=
  match this.operands.replaced with
  | some (array, _) => Function.update heap array none
  | none => heap

/-- Memories that come about, where `new` returns what is not in use. -/
inductive MemoryReached : InstructionMemory → Prop where
  | start : MemoryReached ⟨fun _ => none, fun _ => none⟩
  | construct {mem : InstructionMemory} (id : Nat) (answer : Address) (unset : RegName)
      (instr : Instruction) : MemoryReached mem → mem.objects id = none → mem.heap.Fresh answer →
      MemoryReached (mem.construct id answer unset instr)
  | copyConstruct {mem after : InstructionMemory} (id source : Nat) (answer : Address) :
      MemoryReached mem → mem.objects id = none → mem.heap.Fresh answer →
      mem.copyConstruct id source answer = some after → MemoryReached after
  | assign {mem after : InstructionMemory} (id source : Nat) (answer : Address)
      {this : InstructionObject} : MemoryReached mem → mem.objects id = some this →
      (this.freed mem.heap).Fresh answer → mem.assign id source answer = some after →
      MemoryReached after
  | destroy {mem after : InstructionMemory} (id : Nat) : MemoryReached mem →
      mem.destroy id = some after → MemoryReached after

namespace InstructionMemory

variable (mem : InstructionMemory)

/-- A copy serializes as its source does, which is as before. -/
def CopyKeeps (id source : Nat) (answer : Address) : Prop :=
  ∃ after saved, mem.copyConstruct id source answer = some after ∧
    mem.serialize source = some saved ∧ after.serialize id = some saved ∧
      after.serialize source = some saved ∧ after.objects source = mem.objects source

/-- After an assignment the left side serializes as the right side does, which is as before. -/
def AssignKeeps (id source : Nat) (answer : Address) : Prop :=
  ∃ after saved, mem.assign id source answer = some after ∧
    mem.serialize source = some saved ∧ after.serialize id = some saved ∧
      after.serialize source = some saved ∧
        (id ≠ source → after.objects source = mem.objects source)

/-- `AllocTensor`s have one storage, and an instruction that is assigned to itself has no array that
is freed, unless it is empty. -/
def AssignMeets (id source : Nat) (this instr : InstructionObject) : Prop :=
  this.operands.storage = instr.operands.storage ∧
    (id = source → ∀ array ∈ instr.operands.replaced, array.2 = 0)

end InstructionMemory

end Tvm.Vm
