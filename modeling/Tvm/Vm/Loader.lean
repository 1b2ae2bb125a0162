import Tvm.Lib.FaultReader
import Tvm.Vm.Executable

/-!
# Loading with the reads of vectors

`Executable::Load` of `executable.cc` with each read of an element of a vector and with or without
the `DCHECK`s.  It fails where a check does, and where the library throws, as for a number that
cannot be parsed or for the length of a new array.
-/

namespace Tvm.Vm

open Tvm.Lib

/-- `instr.fields[0]`, `instr.fields[1]` and so on. -/
def firstFields (count : Nat) (fields : List Index) : Except ReadFault (Fin count → Index) :=
  if inside : count ≤ fields.length then
    .ok fun i => fields.get ⟨i, i.isLt.trans_le inside⟩
  else .error .outOfRange

/-- `ExtractFields`, with the reads of its loop. -/
def readFields (fields : List Index) (start cnt : Index) : Except ReadFault Registers :=
  match extractFields fields start cnt with
  | none => .error .failed
  | some args =>
    if ∀ i < cnt.toInt.toNat, start.toNat + i < fields.length then .ok args
    else .error .outOfRange

section Instructions

variable (dchecks : Bool)

/-- `DCHECK`, which a release build leaves out. -/
def dcheck (p : Prop) [Decidable p] : Except ReadFault Unit :=
  if dchecks = true ∧ ¬p then .error .failed else .ok ()

def fixedCase (count : Nat) (fields : List Index) (make : (Fin count → Index) → Instruction) :
    Except ReadFault Instruction := do
  dcheck dchecks (fields.length = count)
  let field ← firstFields count fields
  return make field

def openCase (count : Nat) (fields : List Index) (make : (Fin count → Index) → Instruction) :
    Except ReadFault Instruction := do
  dcheck dchecks (count ≤ fields.length)
  let field ← firstFields count fields
  return make field

/-- A case with an array behind the fields, one of which is its length.  With `newArray` the
constructor makes an array of that length, and one of the length of the vector otherwise. -/
def arrayCase (count : Nat) (counter : Fin count) (newArray : Bool) (fields : List Index)
    (make : (Fin count → Index) → Registers → Instruction) : Except ReadFault Instruction := do
  dcheck dchecks (count ≤ fields.length)
  let field ← firstFields count fields
  dcheck dchecks (fields.length = count + (field counter).toNat)
  let args ← readFields fields (BitVec.ofNat 64 count) (field counter)
  if newArray = true ∧ (field counter).toInt < 0 then .error .failed else .ok (make field args)

local instance neZero_one : NeZero 1 := inferInstance
local instance neZero_two : NeZero 2 := inferInstance
local instance neZero_three : NeZero 3 := inferInstance
local instance neZero_four : NeZero 4 := inferInstance
local instance neZero_seven : NeZero 7 := inferInstance

def readInstruction (opcode : Opcode) (fields : List Index) : Except ReadFault Instruction :=
  match opcode with
  | .Move => fixedCase dchecks 2 fields fun field => .move (field 0) (field 1)
  | .Ret => fixedCase dchecks 1 fields fun field => .ret (field 0)
  | .Fatal => fixedCase dchecks 0 fields fun _ => .fatal
  | .InvokePacked => arrayCase dchecks 3 1 true fields fun field args =>
    .invokePacked (field 0) (field 2) args
  | .AllocTensor => arrayCase dchecks 7 5 false fields fun field shape =>
    .allocTensor (field 0) (field 1) (.ofRegisters shape)
      (.ofFields (field 2) (field 3) (field 4)) (field 6)
  | .AllocTensorReg => fixedCase dchecks 7 fields fun field =>
    .allocTensorReg (field 0) (field 1) (field 2) (.ofFields (field 3) (field 4) (field 5))
      (field 6)
  | .AllocADT => arrayCase dchecks 3 1 true fields fun field args =>
    .allocADT (field 0) args (field 2)
  | .AllocClosure => arrayCase dchecks 3 1 true fields fun field args =>
    .allocClosure (field 0) args (field 2)
  | .AllocStorage => openCase dchecks 7 fields fun field =>
    .allocStorage (field 0) (field 1) (.ofFields (field 2) (field 3) (field 4)) (field 5)
      (field 6)
  | .If => fixedCase dchecks 4 fields fun field => .ifOp (field 0) (field 1) (field 2) (field 3)
  | .Invoke => arrayCase dchecks 3 1 false fields fun field args =>
    .invoke (field 0) args (field 2)
  | .InvokeClosure => arrayCase dchecks 3 1 false fields fun field args =>
    .invokeClosure (field 0) args (field 2)
  | .LoadConst => fixedCase dchecks 2 fields fun field => .loadConst (field 0) (field 1)
  | .LoadConsti => fixedCase dchecks 2 fields fun field => .loadConsti (field 0) (field 1)
  | .GetField => fixedCase dchecks 3 fields fun field => .getField (field 0) (field 1) (field 2)
  | .GetTag => fixedCase dchecks 2 fields fun field => .getTag (field 0) (field 1)
  | .Goto => fixedCase dchecks 1 fields fun field => .goto (field 0)
  | .ShapeOf => fixedCase dchecks 2 fields fun field => .shapeOf (field 0) (field 1)
  | .ReshapeTensor => fixedCase dchecks 3 fields fun field =>
    .reshapeTensor (field 0) (field 1) (field 2)
  | .DeviceCopy => fixedCase dchecks 4 fields fun field =>
    .deviceCopy (field 0) (field 1) (field 2) (field 3)
  | .KillRegister => fixedCase dchecks 1 fields fun field => .killRegister (field 0)

end Instructions

section Sections

variable (dchecks : Bool) (dmlc : DmlcStream) (hashCombine : BitVec 64 → Index → BitVec 64)
  (fresh : Nat → UInt8)

/-- `VMInstructionSerializer::Load` with the cast of the opcode; others are fatal. -/
def readRecord : Reader (Opcode × List Index) := do
  let instr ← (dmlc.vector dmlc.uint64).read
  match instr with
  | loadedHash :: opcode :: fields => do
      Reader.check (loadedHash = VMInstructionSerializer.hash hashCombine ⟨opcode, fields⟩)
      let opcode ← Reader.ofOption (Opcode.ofIndex opcode)
      pure (opcode, fields)
  | _ => Reader.ofOption none

def loadInstructions : Nat → FaultReader (List Instruction)
  | 0 => pure []
  | count + 1 => do
      let record ← FaultReader.ofReader (readRecord dmlc hashCombine)
      let instruction ← FaultReader.ofExcept (readInstruction dchecks record.1 record.2)
      let rest ← loadInstructions count
      pure (instruction :: rest)

structure VMFunctionSerializer where
  name : Str
  registerFileSize : Index
  numInstructions : Index
  params : List Str
  paramDeviceIndexes : List Index
  deriving DecidableEq

def readFunctionInfo : Reader VMFunctionSerializer := do
  let funcInfo ← (dmlc.vector dmlc.string).read
  match funcInfo with
  | [name, size, count] => do
      let registerFileSize ← Reader.ofOption (stoll size)
      let numInstructions ← Reader.ofOption (stoll count)
      let params ← (dmlc.vector dmlc.string).read
      let paramDeviceIndexes ← (dmlc.vector dmlc.uint64).read
      pure ⟨name, BitVec.ofInt 64 registerFileSize, BitVec.ofInt 64 numInstructions, params,
        paramDeviceIndexes⟩
  | _ => Reader.ofOption none

/-- The constructor of `VMFunction`, and where the function belongs: the name is looked up, and its
index compared with the size of the table. -/
def VMFunctionSerializer.place (info : VMFunctionSerializer) (globalMap : Table)
    (instructions : List Instruction) : Option (VMFunction × Index) := do
  let func ← VMFunction.make info.name info.params instructions info.registerFileSize
    info.paramDeviceIndexes
  let index ← globalMap.lookup info.name
  if index.toNat ≤ globalMap.length then some (func, index) else none

def storeFunction (functions : List VMFunction) (func : VMFunction) (index : Index) :
    Except ReadFault (List VMFunction) :=
  if index.toNat < functions.length then .ok (functions.set index.toNat func)
  else .error .outOfRange

def readFunctions (globalMap : Table) :
    Nat → List VMFunction → FaultReader (List VMFunction)
  | 0, functions => pure functions
  | count + 1, functions => do
      let info ← FaultReader.ofReader (readFunctionInfo dmlc)
      let instructions ← loadInstructions dchecks dmlc hashCombine info.numInstructions.toNat
      let placed ← FaultReader.ofReader (Reader.ofOption (info.place globalMap instructions))
      let stored ← FaultReader.ofExcept (storeFunction functions placed.1 placed.2)
      readFunctions globalMap count stored

/-- `resize` throws for more than `maxSize` functions. -/
def readCodeSection (maxSize : Nat) (globalMap : Table) : FaultReader (List VMFunction) := do
  let size ← FaultReader.ofReader dmlc.uint64.read
  FaultReader.ofReader (Reader.check (size.toNat ≤ maxSize))
  readFunctions dchecks dmlc hashCombine globalMap size.toNat (List.replicate size.toNat .empty)

/-- The sections in front of the code, where no element of a vector is read that is not there. -/
def readSections : Reader Executable := do
  loadHeader dmlc
  let virtualDevices ← (dmlc.vector dmlc.device).read
  let hostDeviceIndex ← dmlc.uint32.read
  Reader.check (0 ≤ hostDeviceIndex.toInt ∧ hostDeviceIndex.toInt < virtualDevices.length)
  let globalMap ← loadNames dmlc
  let constants ← loadConstantSection dmlc fresh
  let primitiveMap ← loadNames dmlc
  let attrs ← dmlc.attrs.read
  pure ⟨virtualDevices, hostDeviceIndex, constants.1, constants.2.1, constants.2.2, globalMap,
    primitiveMap, loadAttrs attrs, []⟩

def readExecutable (maxSize : Nat) : FaultReader Executable := do
  let exec ← FaultReader.ofReader (readSections dmlc fresh)
  let functions ← readCodeSection dchecks dmlc hashCombine maxSize exec.globalMap
  pure { exec with functions := functions }

end Sections

end Tvm.Vm
