import Tvm.Vm.InstructionCopyFaithful
import Tvm.Vm.LoaderRobust

/-!
# The code comes back

What the loader makes of the code section that `SaveCodeSection` writes, in a debug and in a release
build.
-/

namespace Tvm.Vm

open Tvm.Lib FaultReader

theorem Opcode.ofIndex_toIndex (op : Opcode) : ofIndex op.toIndex = some op := by
  cases op <;> rfl

theorem toNat_number {n : Nat} (small : n < 2 ^ 64) : (BitVec.ofNat 64 n).toNat = n := by
  rw [BitVec.toNat_ofNat, Nat.mod_eq_of_lt small]

section Instructions

variable {dchecks : Bool} {fields : List Index} {count : Nat}

theorem fixedCase_saved (exact : fields.length = count) (make : (Fin count → Index) → Instruction) :
    fixedCase dchecks count fields make = .ok (make fun i => fields.get (i.cast exact.symm)) := by
  rw [fixedCase, ok_then (dcheck_of_holds fun _ => exact), ok_then (firstFields_ok exact.ge)]
  rfl

theorem openCase_saved (exact : fields.length = count) (make : (Fin count → Index) → Instruction) :
    openCase dchecks count fields make = .ok (make fun i => fields.get (i.cast exact.symm)) := by
  rw [openCase, ok_then (dcheck_of_holds fun _ => exact.ge), ok_then (firstFields_ok exact.ge)]
  rfl

theorem readFields_saved {front : List Index} (args : Registers) (small : front.length < 2 ^ 62)
    {cnt : Index} (signed : cnt.toInt.toNat = args.val.length)
    (unsigned : cnt.toNat = args.val.length) :
    readFields (front ++ args.val) (BitVec.ofNat 64 front.length) cnt = .ok args := by
  have start := toNat_number (show front.length < 2 ^ 64 by omega)
  have fits : (BitVec.ofNat 64 front.length + cnt).toNat ≤ (front ++ args.val).length := by
    rw [BitVec.toNat_add, start, unsigned, List.length_append]
    exact Nat.mod_le _ _
  rw [readFields, extractFields, if_pos fits]
  dsimp only
  rw [if_pos fun i below => by rw [start, List.length_append]; omega]
  refine congrArg Except.ok (Subtype.ext ?_)
  simp only [start, signed, List.drop_left, List.take_length]

theorem arrayCase_saved (count : Nat) (small : count < 2 ^ 62) (front : List Index)
    (args : Registers) (counter : Fin count) {newArray : Bool} (exact : front.length = count)
    (isCount : (front.get (counter.cast exact.symm)).toInt = args.val.length)
    (make : (Fin count → Index) → Registers → Instruction) :
    arrayCase dchecks count counter newArray (front ++ args.val) make =
      .ok (make (fun i => front.get (i.cast exact.symm)) args) := by
  subst exact
  change (front.get counter).toInt = _ at isCount
  have inside : front.length ≤ (front ++ args.val).length := by simp
  have first : firstFields front.length (front ++ args.val) = .ok front.get := by
    rw [firstFields_ok inside]
    exact congrArg Except.ok (funext fun i => List.getElem_append_left i.isLt)
  have unsigned : (front.get counter).toNat = args.val.length := by
    rw [BitVec.toInt_eq_toNat_cond] at isCount
    split at isCount <;> omega
  rw [arrayCase, ok_then (dcheck_of_holds fun _ => inside), ok_then first,
    ok_then (dcheck_of_holds fun _ => by rw [List.length_append, unsigned]),
    ok_then (readFields_saved args small (by omega) unsigned), if_neg]
  · rfl
  · rintro ⟨-, negative⟩
    omega

theorem countedCase_saved (first last : Index) (args : Registers) {newArray : Bool}
    (make : (Fin 3 → Index) → Registers → Instruction) :
    arrayCase dchecks 3 1 newArray ([first, args.count, last] ++ args.val) make =
      .ok (make [first, args.count, last].get args) :=
  arrayCase_saved 3 (by decide) [first, args.count, last] args 1 rfl (toInt_count args) make

theorem DLDataType.ofFields_fields (dtype : DLDataType) :
    ofFields (dtype.code.setWidth 64) (dtype.bits.setWidth 64) (dtype.lanes.setWidth 64) = dtype := by
  simp [ofFields, BitVec.setWidth_setWidth_of_le]

theorem Shape.ofRegisters_eq (shape : Shape) (small : shape.val.length < 2 ^ 63) :
    ofRegisters ⟨shape.val, small⟩ = shape :=
  Subtype.ext (by simp only [ofRegisters, Nat.mod_eq_of_lt shape.property, List.take_length])

theorem readInstruction_saved (dchecks : Bool) (instr : Instruction) :
    ∃ opcode, (serializeInstruction instr).opcode = opcode.toIndex ∧
      readInstruction dchecks opcode (serializeInstruction instr).fields = .ok instr := by
  cases instr with
  | invokePacked packedIndex outputSize packedArgs =>
    exact ⟨.InvokePacked, rfl, countedCase_saved packedIndex outputSize packedArgs _⟩
  | allocADT constructorTag datatypeFields dst =>
    exact ⟨.AllocADT, rfl, countedCase_saved constructorTag dst datatypeFields _⟩
  | allocClosure cloIndex freeVars dst =>
    exact ⟨.AllocClosure, rfl, countedCase_saved cloIndex dst freeVars _⟩
  | invoke funcIndex args dst => exact ⟨.Invoke, rfl, countedCase_saved funcIndex dst args _⟩
  | invokeClosure closure closureArgs dst =>
    exact ⟨.InvokeClosure, rfl, countedCase_saved closure dst closureArgs _⟩
  | allocTensor storage offset shape dtype dst =>
    have small : shape.val.length < 2 ^ 63 := shape.property.trans (by decide)
    refine ⟨.AllocTensor, rfl, (arrayCase_saved 7 (by decide) ([storage, offset] ++ dtype.fields ++
      [shape.ndim.setWidth 64, dst]) ⟨shape.val, small⟩ 5 rfl (toInt_ndim shape) _).trans
      (congrArg Except.ok ?_)⟩
    rw [shape.ofRegisters_eq small]
    exact congrArg (Instruction.allocTensor storage offset shape · dst) dtype.ofFields_fields
  | allocTensorReg storage offset shapeRegister dtype dst =>
    exact ⟨.AllocTensorReg, rfl, (fixedCase_saved rfl _).trans <| congrArg Except.ok <|
      congrArg (Instruction.allocTensorReg storage offset shapeRegister · dst) dtype.ofFields_fields⟩
  | allocStorage allocationSize alignment dtypeHint deviceIndex dst =>
    refine ⟨.AllocStorage, rfl, (openCase_saved ?_ _).trans (congrArg Except.ok ?_)⟩
    · rfl
    · exact congrArg (Instruction.allocStorage allocationSize alignment · deviceIndex dst)
        dtypeHint.ofFields_fields
  | _ => exact ⟨_, rfl, fixedCase_saved rfl _⟩

end Instructions

section Code

variable (dchecks : Bool) (dmlc : DmlcStream) (hashCombine : BitVec 64 → Index → BitVec 64)

def saveCodeSection (functions : List VMFunction) : Bytes :=
  dmlc.uint64.write (BitVec.ofNat 64 functions.length) ++
    functions.flatMap (saveFunction dmlc hashCombine)

theorem readRecord_saved (opcode : Opcode) (fields : List Index) :
    (readRecord dmlc hashCombine).Reads (saveInstruction dmlc hashCombine ⟨opcode.toIndex, fields⟩)
      (opcode, fields) := by
  intro rest
  change ((dmlc.vector dmlc.uint64).read (_ ++ rest)).bind _ = _
  rw [saveInstruction, Codec.reads]
  exact (congrFun (Reader.check_bind rfl _) rest).trans
    (congrFun (Reader.ofOption_bind opcode.ofIndex_toIndex _) rest)

theorem loadInstructions_saved (instructions : List Instruction) (rest : Bytes) :
    loadInstructions dchecks dmlc hashCombine instructions.length
        (instructions.flatMap (fun instr =>
          saveInstruction dmlc hashCombine (serializeInstruction instr)) ++ rest) =
      .ok (instructions, rest) := by
  induction instructions with
  | nil => rfl
  | cons instr instructions ih =>
    obtain ⟨opcode, isOpcode, made⟩ := readInstruction_saved dchecks instr
    have record := readRecord_saved dmlc hashCombine opcode (serializeInstruction instr).fields
    rw [← isOpcode] at record
    rw [List.flatMap_cons, List.append_assoc]
    exact bind_eq_ok.mpr ⟨_, _, ofReader_eq_ok.mpr (record _), bind_eq_ok.mpr ⟨instr, _,
      ofExcept_eq_ok.mpr ⟨made, rfl⟩, bind_eq_ok.mpr ⟨instructions, rest, ih, rfl⟩⟩⟩

def VMFunction.info (func : VMFunction) : VMFunctionSerializer :=
  ⟨func.name, func.registerFileSize, BitVec.ofNat 64 func.instructions.length, func.params,
    func.paramDeviceIndexes⟩

theorem readFunctionInfo_saved (func : VMFunction) (short : func.instructions.length < 2 ^ 63) :
    (readFunctionInfo dmlc).Reads
      ((dmlc.vector dmlc.string).write
          [func.name, signedDecimal func.registerFileSize.toInt, decimal func.instructions.length] ++
        ((dmlc.vector dmlc.string).write func.params ++
          (dmlc.vector dmlc.uint64).write func.paramDeviceIndexes)) func.info := by
  have size := stoll_signedDecimal func.registerFileSize.le_toInt func.registerFileSize.toInt_lt
  have count := stoll_signedDecimal (n := func.instructions.length) (by omega) (by omega)
  rw [signedDecimal, if_neg (by omega), Int.natAbs_natCast] at count
  refine ((dmlc.vector dmlc.string).reads _).bind ?_
  dsimp only
  rw [Reader.ofOption_bind size, Reader.ofOption_bind count, VMFunction.info, BitVec.ofInt_toInt,
    BitVec.ofInt_natCast]
  exact ((dmlc.vector dmlc.string).reads func.params).bind
    ((dmlc.vector dmlc.uint64).reads func.paramDeviceIndexes).map

theorem VMFunction.place_info {globalMap : Table} {index : Index} (func : VMFunction)
    (named : globalMap.lookup func.name = some index) (inside : index.toNat ≤ globalMap.length) :
    func.info.place globalMap func.instructions = some (func, index) := by
  have made : VMFunction.make func.info.name func.info.params func.instructions
      func.info.registerFileSize func.info.paramDeviceIndexes = some func := dif_pos func.sized
  rw [VMFunctionSerializer.place, made]
  change (globalMap.lookup func.name).bind _ = _
  rw [named]
  exact if_pos inside

theorem readFunctions_saved (globalMap : Table) (rest : Bytes) (done functions : List VMFunction)
    (named : ∀ i func, functions[i]? = some func →
      globalMap.lookup func.name = some (BitVec.ofNat 64 (done.length + i)))
    (numbers : done.length + functions.length ≤ globalMap.length)
    (small : done.length + functions.length < 2 ^ 64)
    (short : ∀ func ∈ functions, func.instructions.length < 2 ^ 63) :
    readFunctions dchecks dmlc hashCombine globalMap functions.length
        (done ++ List.replicate functions.length .empty)
        (functions.flatMap (saveFunction dmlc hashCombine) ++ rest) =
      .ok (done ++ functions, rest) := by
  induction functions generalizing done with
  | nil => rfl
  | cons func functions ih =>
    rw [List.length_cons] at numbers small
    obtain ⟨shortFunc, shortOthers⟩ := List.forall_mem_cons.mp short
    have index := toNat_number (show done.length < 2 ^ 64 by omega)
    have count : func.info.numInstructions.toNat = func.instructions.length :=
      toNat_number (by omega)
    have stored : storeFunction (done ++ .empty :: List.replicate functions.length .empty) func
        (BitVec.ofNat 64 done.length) =
        .ok (done ++ [func] ++ List.replicate functions.length .empty) := by
      rw [storeFunction, index, if_pos (by simp)]
      simp
    have others := ih (done ++ [func]) (fun i other there => by
      rw [named (i + 1) other there, List.length_append, List.length_singleton, Nat.add_assoc,
        Nat.add_comm 1]) (by simp; omega) (by simp; omega) shortOthers
    have info := readFunctionInfo_saved dmlc func shortFunc
      (func.instructions.flatMap (fun instr =>
        saveInstruction dmlc hashCombine (serializeInstruction instr)) ++
          (functions.flatMap (saveFunction dmlc hashCombine) ++ rest))
    have loaded := loadInstructions_saved dchecks dmlc hashCombine func.instructions
      (functions.flatMap (saveFunction dmlc hashCombine) ++ rest)
    have placed := func.place_info (named 0 func rfl) (by rw [Nat.add_zero, index]; omega)
    rw [← count] at loaded
    simp only [List.append_assoc] at info
    simp only [List.flatMap_cons, saveFunction, List.append_assoc]
    refine bind_eq_ok.mpr ⟨func.info, _, ofReader_eq_ok.mpr info, bind_eq_ok.mpr ⟨_, _, loaded,
      bind_eq_ok.mpr ⟨_, _, ofReader_eq_ok.mpr (congrArg (Option.map _) placed),
        bind_eq_ok.mpr ⟨_, _, ofExcept_eq_ok.mpr ⟨stored, rfl⟩, ?_⟩⟩⟩⟩
    rw [others, List.append_assoc]
    rfl

/-- Every list of functions that the table numbers in its order is loaded as it was saved. -/
theorem codeSection_roundTrips (maxSize : Nat) (globalMap : Table) (functions : List VMFunction)
    (named : ∀ i func, functions[i]? = some func →
      globalMap.lookup func.name = some (BitVec.ofNat 64 i))
    (numbers : functions.length ≤ globalMap.length) (fits : functions.length ≤ maxSize)
    (small : functions.length < 2 ^ 64)
    (short : ∀ func ∈ functions, func.instructions.length < 2 ^ 63) (rest : Bytes) :
    readCodeSection dchecks dmlc hashCombine maxSize globalMap
      (saveCodeSection dmlc hashCombine functions ++ rest) = .ok (functions, rest) := by
  have size := toNat_number small
  have all := readFunctions_saved dchecks dmlc hashCombine globalMap rest [] functions
    (by simpa using named) (by simpa using numbers) (by simpa using small) short
  rw [saveCodeSection, List.append_assoc]
  refine bind_eq_ok.mpr ⟨_, _, ofReader_eq_ok.mpr (dmlc.uint64.reads _ _), bind_eq_ok.mpr ⟨(), _,
    ofReader_eq_ok.mpr (if_pos (size.trans_le fits)), ?_⟩⟩
  rw [size]
  exact all

def callingFunctions : List VMFunction :=
  [⟨[102], [[120]], [.invoke 1 ⟨[0], by decide⟩ 1, .ret 1], 2, [0], rfl⟩,
    ⟨[103], [[121]], [.allocADT 7 ⟨[0, 0], by decide⟩ 1, .ret 1], 2, [0], rfl⟩]

theorem codeSection_roundTrips_call :
    readCodeSection true .littleEndian (· + ·) 8 [([103], 1), ([102], 0)]
        (saveCodeSection .littleEndian (· + ·) callingFunctions ++ [5]) =
      .ok (callingFunctions, [5]) :=
  codeSection_roundTrips true .littleEndian (· + ·) 8 [([103], 1), ([102], 0)] callingFunctions
    (fun
      | 0, _, rfl => rfl
      | 1, _, rfl => rfl
      | _ + 2, _, there => nomatch there)
    le_rfl (by decide) (by decide) (by decide) [5]

end Code

end Tvm.Vm
