import Tvm.Lib.Decimal
import Tvm.Vm.Bytecode

/-!
# Executables in streams

What `executable.cc` saves of a function, and how it loads the sections before the functions.
`none` is a failed `ICHECK` or `STREAM_CHECK`.  A hash map is the list of its entries in the order
in which it is iterated.
-/

namespace Tvm.Vm

open Tvm.Lib

/-- A function of the virtual machine; its constructor checks the devices of the parameters. -/
structure VMFunction where
  name : Str
  params : List Str
  instructions : List Instruction
  registerFileSize : Index
  paramDeviceIndexes : List Index
  sized : params.length = paramDeviceIndexes.length
  deriving DecidableEq

def VMFunction.empty : VMFunction :=
  ⟨[], [], [], 0, [], rfl⟩

inductive AttrValue where
  | str (value : Str)
  | object
  deriving DecidableEq, Repr

abbrev Table := List (Str × Index)

/-- A constant is null where it is late-bound, and so is the name of an immediate constant. -/
structure Executable where
  virtualDevices : List Device
  hostDeviceIndex : BitVec 32
  constants : List (Option NDArray)
  lateBoundConstantNames : List (Option Str)
  constDeviceIndexes : List Index
  globalMap : Table
  primitiveMap : Table
  opAttrs : List (Index × List (Str × AttrValue))
  functions : List VMFunction
  deriving DecidableEq

section Save

variable (dmlc : DmlcStream) (hashCombine : BitVec 64 → Index → BitVec 64)

def VMInstructionSerializer.hash (instr : VMInstructionSerializer) : Index :=
  instr.fields.foldl hashCombine instr.opcode

def saveInstruction (instr : VMInstructionSerializer) : Bytes :=
  (dmlc.vector dmlc.uint64).write ([instr.hash hashCombine, instr.opcode] ++ instr.fields)

/-- `VMFunctionSerializer::Save` and the instructions. -/
def saveFunction (func : VMFunction) : Bytes :=
  (dmlc.vector dmlc.string).write
      [func.name, signedDecimal func.registerFileSize.toInt, decimal func.instructions.length] ++
    ((dmlc.vector dmlc.string).write func.params ++
      ((dmlc.vector dmlc.uint64).write func.paramDeviceIndexes ++
        func.instructions.flatMap fun instr =>
          saveInstruction dmlc hashCombine (serializeInstruction instr)))

def bytecodeMagic : BitVec 64 := 0xD225DE2F4214151D#64

def version : Str := [48, 46, 49, 48, 46, 48]

def saveHeader : Bytes :=
  dmlc.uint64.write bytecodeMagic ++ dmlc.string.write version

/-- `kImmediateConstTag` and `kLateBoundConstTag`. -/
def immediateConstTag : BitVec 32 := 0

def lateBoundConstTag : BitVec 32 := 1

def DmlcStream.attrs (dmlc : DmlcStream) : Codec (List (Index × List (Str × Str))) :=
  dmlc.map dmlc.uint64 (dmlc.map dmlc.string dmlc.string)

end Save

section Load

variable (dmlc : DmlcStream) (hashCombine : BitVec 64 → Index → BitVec 64)
  (fresh : Nat → UInt8)

def VMFunction.make (name : Str) (params : List Str) (instructions : List Instruction)
    (registerFileSize : Index) (paramDeviceIndexes : List Index) : Option VMFunction :=
  if sized : params.length = paramDeviceIndexes.length then
    some ⟨name, params, instructions, registerFileSize, paramDeviceIndexes, sized⟩
  else none

def loadHeader : Reader Unit := do
  let header ← dmlc.uint64.read
  Reader.check (header = bytecodeMagic)
  let loaded ← dmlc.string.read
  Reader.check (loaded = version)

/-- `insert` of a hash map keeps what is there. -/
def Table.insert (table : Table) (entry : Str × Index) : Table :=
  if (table.lookup entry.1).isSome then table else table ++ [entry]

def numbered (names : List Str) : Table :=
  (names.zipIdx.map fun entry => (entry.1, BitVec.ofNat 64 entry.2)).foldl Table.insert []

def loadNames : Reader Table := do
  let names ← (dmlc.vector dmlc.string).read
  pure (numbered names)

def loadConstant : Reader (Option Str × Option NDArray) := do
  let tag ← dmlc.uint32.read
  if tag = immediateConstTag then do
    let ndarray ← NDArray.load dmlc fresh
    pure (none, some ndarray)
  else if tag = lateBoundConstTag then do
    let name ← dmlc.string.read
    pure (some name, none)
  else Reader.ofOption none

def loadConstantSection :
    Reader (List (Option NDArray) × List (Option Str) × List Index) := do
  let size ← dmlc.uint64.read
  let entries ← Reader.many (loadConstant dmlc fresh) size.toNat
  let names := if entries.any fun entry => entry.1.isSome then entries.map Prod.fst else []
  let indexes ← (dmlc.vector dmlc.uint64).read
  Reader.check (size.toNat = indexes.length)
  pure (entries.map Prod.snd, names, indexes)

def loadAttrs (attrs : List (Index × List (Str × Str))) : List (Index × List (Str × AttrValue)) :=
  attrs.map fun fn => (fn.1, fn.2.map fun elem => (elem.1, .str elem.2))

end Load

end Tvm.Vm
