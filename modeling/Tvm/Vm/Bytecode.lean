import Tvm.Vm.NDArray

/-!
# Instructions as fields

The instructions of `bytecode.h` with `SerializeInstruction` and `ExtractFields` of `executable.cc`
and the serializer of `serialize_utils.h`.  `none` is a failed `ICHECK` or `DCHECK`.
-/

namespace Tvm.Vm

open Tvm.Lib

abbrev RegName := BitVec 64

inductive Opcode where
  | Move | Ret | Invoke | InvokeClosure | InvokePacked | AllocTensor | AllocTensorReg | AllocADT
  | AllocClosure | GetField | If | LoadConst | Goto | GetTag | LoadConsti | Fatal | AllocStorage
  | ShapeOf | ReshapeTensor | DeviceCopy | KillRegister
  deriving DecidableEq, Repr

namespace Opcode

def all : List Opcode :=
  [.Move, .Ret, .Invoke, .InvokeClosure, .InvokePacked, .AllocTensor, .AllocTensorReg, .AllocADT,
    .AllocClosure, .GetField, .If, .LoadConst, .Goto, .GetTag, .LoadConsti, .Fatal, .AllocStorage,
    .ShapeOf, .ReshapeTensor, .DeviceCopy, .KillRegister]

def toIndex (op : Opcode) : Index :=
  BitVec.ofNat 64 (all.idxOf op)

/-- The cast from `Index`, through the `int` of the enumeration. -/
def ofIndex (index : Index) : Option Opcode :=
  all[(index.setWidth 32).toNat]?

end Opcode

abbrev Registers := {registers : List Index // registers.length < 2 ^ 63}

abbrev Shape := {shape : List Index // shape.length < 2 ^ 32}

inductive Instruction where
  | move (source dst : RegName)
  | ret (result : RegName)
  | fatal
  | invokePacked (packedIndex outputSize : Index) (packedArgs : Registers)
  | allocTensor (storage : RegName) (offset : Index) (shape : Shape) (dtype : DLDataType)
      (dst : RegName)
  | allocTensorReg (storage : RegName) (offset : Index) (shapeRegister : RegName)
      (dtype : DLDataType) (dst : RegName)
  | allocStorage (allocationSize : RegName) (alignment : Index) (dtypeHint : DLDataType)
      (deviceIndex : Index) (dst : RegName)
  | allocADT (constructorTag : Index) (datatypeFields : Registers) (dst : RegName)
  | allocClosure (cloIndex : Index) (freeVars : Registers) (dst : RegName)
  | ifOp (test target : RegName) (trueOffset falseOffset : Index)
  | invoke (funcIndex : Index) (args : Registers) (dst : RegName)
  | invokeClosure (closure : RegName) (closureArgs : Registers) (dst : RegName)
  | loadConst (constIndex : Index) (dst : RegName)
  | loadConsti (val : Index) (dst : RegName)
  | getField (object : RegName) (fieldIndex : Index) (dst : RegName)
  | getTag (object dst : RegName)
  | goto (pcOffset : Index)
  | shapeOf (tensor dst : RegName)
  | reshapeTensor (tensor newshape dst : RegName)
  | deviceCopy (src : RegName) (srcDeviceIndex dstDeviceIndex : Index) (dst : RegName)
  | killRegister (dst : RegName)
  deriving DecidableEq

def Registers.count (registers : Registers) : Index :=
  BitVec.ofNat 64 registers.val.length

def Shape.ndim (shape : Shape) : BitVec 32 :=
  BitVec.ofNat 32 shape.val.length

structure VMInstructionSerializer where
  opcode : Index
  fields : List Index
  deriving DecidableEq

def DLDataType.fields (dtype : DLDataType) : List Index :=
  [dtype.code.setWidth 64, dtype.bits.setWidth 64, dtype.lanes.setWidth 64]

def serializeInstruction : Instruction → VMInstructionSerializer
  | .move source dst => ⟨Opcode.Move.toIndex, [source, dst]⟩
  | .ret result => ⟨Opcode.Ret.toIndex, [result]⟩
  | .fatal => ⟨Opcode.Fatal.toIndex, []⟩
  | .invokePacked packedIndex outputSize packedArgs =>
    ⟨Opcode.InvokePacked.toIndex, [packedIndex, packedArgs.count, outputSize] ++ packedArgs.val⟩
  | .allocTensor storage offset shape dtype dst =>
    ⟨Opcode.AllocTensor.toIndex, [storage, offset] ++ dtype.fields ++
      [shape.ndim.setWidth 64, dst] ++ shape.val⟩
  | .allocTensorReg storage offset shapeRegister dtype dst =>
    ⟨Opcode.AllocTensorReg.toIndex, [storage, offset, shapeRegister] ++ dtype.fields ++ [dst]⟩
  | .allocStorage allocationSize alignment dtypeHint deviceIndex dst =>
    ⟨Opcode.AllocStorage.toIndex, [allocationSize, alignment] ++ dtypeHint.fields ++
      [deviceIndex, dst]⟩
  | .allocADT constructorTag datatypeFields dst =>
    ⟨Opcode.AllocADT.toIndex, [constructorTag, datatypeFields.count, dst] ++ datatypeFields.val⟩
  | .allocClosure cloIndex freeVars dst =>
    ⟨Opcode.AllocClosure.toIndex, [cloIndex, freeVars.count, dst] ++ freeVars.val⟩
  | .ifOp test target trueOffset falseOffset =>
    ⟨Opcode.If.toIndex, [test, target, trueOffset, falseOffset]⟩
  | .invoke funcIndex args dst =>
    ⟨Opcode.Invoke.toIndex, [funcIndex, args.count, dst] ++ args.val⟩
  | .invokeClosure closure closureArgs dst =>
    ⟨Opcode.InvokeClosure.toIndex, [closure, closureArgs.count, dst] ++ closureArgs.val⟩
  | .loadConst constIndex dst => ⟨Opcode.LoadConst.toIndex, [constIndex, dst]⟩
  | .loadConsti val dst => ⟨Opcode.LoadConsti.toIndex, [val, dst]⟩
  | .getField object fieldIndex dst => ⟨Opcode.GetField.toIndex, [object, fieldIndex, dst]⟩
  | .getTag object dst => ⟨Opcode.GetTag.toIndex, [object, dst]⟩
  | .goto pcOffset => ⟨Opcode.Goto.toIndex, [pcOffset]⟩
  | .shapeOf tensor dst => ⟨Opcode.ShapeOf.toIndex, [tensor, dst]⟩
  | .reshapeTensor tensor newshape dst => ⟨Opcode.ReshapeTensor.toIndex, [tensor, newshape, dst]⟩
  | .deviceCopy src srcDeviceIndex dstDeviceIndex dst =>
    ⟨Opcode.DeviceCopy.toIndex, [src, srcDeviceIndex, dstDeviceIndex, dst]⟩
  | .killRegister dst => ⟨Opcode.KillRegister.toIndex, [dst]⟩

theorem toNat_lt_of_toInt (cnt : Index) : cnt.toInt.toNat < 2 ^ 63 := by
  have upper := BitVec.toInt_lt (x := cnt)
  omega

/-- `ExtractFields`; the loop runs over signed numbers. -/
def extractFields (instrFields : List Index) (start cnt : Index) : Option Registers :=
  if (start + cnt).toNat ≤ instrFields.length then
    some ⟨(instrFields.drop start.toNat).take cnt.toInt.toNat, by
      rw [List.length_take]
      exact (Nat.min_le_left _ _).trans_lt (toNat_lt_of_toInt cnt)⟩
  else none

def DLDataType.ofFields (code bits lanes : Index) : DLDataType :=
  ⟨code.setWidth 8, bits.setWidth 8, lanes.setWidth 16⟩

/-- The dimensions that a `uint32_t` counts. -/
def Shape.ofRegisters (shape : Registers) : Shape :=
  ⟨shape.val.take (shape.val.length % 2 ^ 32), by
    rw [List.length_take]
    exact (Nat.min_le_left _ _).trans_lt (Nat.mod_lt _ (by norm_num))⟩

end Tvm.Vm
