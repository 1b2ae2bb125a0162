import Tvm.Vm.InstructionCopy

/-!
# When copies of instructions are faithful

Every opcode copies its fields and duplicates its array, if it has one.  Objects own their arrays, so
that what one of them frees is not what another one reads.
-/

namespace Tvm.Vm

open Tvm.Lib

variable {heap : Heap} {answer : Address}

def Operands.withArray (operands : Operands) (array : Address) : Operands :=
  match operands with
  | .invokePacked packedIndex arity outputSize _ =>
    .invokePacked packedIndex arity outputSize array
  | .allocTensor storage offset ndim _ dtype => .allocTensor storage offset ndim array dtype
  | .allocADT constructorTag numFields _ => .allocADT constructorTag numFields array
  | .allocClosure cloIndex numFreevar _ => .allocClosure cloIndex numFreevar array
  | .invoke funcIndex numArgs _ => .invoke funcIndex numArgs array
  | .invokeClosure closure numClosureArgs _ => .invokeClosure closure numClosureArgs array
  | operands => operands

def Operands.withStorage (this operands : Operands) : Operands :=
  match this, operands with
  | .allocTensor storage _ _ _ _, .allocTensor _ offset ndim shape dtype =>
    .allocTensor storage offset ndim shape dtype
  | _, operands => operands

/-- The fields before those of the array. -/
def InstructionObject.front (instr : InstructionObject) : List Index :=
  match instr.operands with
  | .move source => [source, instr.dst]
  | .ret result => [result]
  | .fatal => []
  | .invokePacked packedIndex arity outputSize _ => [packedIndex, arity, outputSize]
  | .allocTensor storage offset ndim _ dtype =>
    [storage, offset] ++ dtype.fields ++ [ndim.setWidth 64, instr.dst]
  | .allocTensorReg storage offset shapeRegister dtype =>
    [storage, offset, shapeRegister] ++ dtype.fields ++ [instr.dst]
  | .allocStorage allocationSize alignment dtypeHint deviceIndex =>
    [allocationSize, alignment] ++ dtypeHint.fields ++ [deviceIndex, instr.dst]
  | .allocADT constructorTag numFields _ => [constructorTag, numFields, instr.dst]
  | .allocClosure cloIndex numFreevar _ => [cloIndex, numFreevar, instr.dst]
  | .ifOp test target trueOffset falseOffset => [test, target, trueOffset, falseOffset]
  | .invoke funcIndex numArgs _ => [funcIndex, numArgs, instr.dst]
  | .invokeClosure closure numClosureArgs _ => [closure, numClosureArgs, instr.dst]
  | .loadConst constIndex => [constIndex, instr.dst]
  | .loadConsti val => [val, instr.dst]
  | .getField object fieldIndex => [object, fieldIndex, instr.dst]
  | .getTag object => [object, instr.dst]
  | .goto pcOffset => [pcOffset]
  | .shapeOf tensor => [tensor, instr.dst]
  | .reshapeTensor tensor newshape => [tensor, newshape, instr.dst]
  | .deviceCopy src srcDeviceIndex dstDeviceIndex =>
    [src, srcDeviceIndex, dstDeviceIndex, instr.dst]
  | .killRegister => [instr.dst]

def duplicateArray (heap : Heap) (answer : Address) (instr : InstructionObject) :
    Option (Heap × InstructionObject) :=
  match instr.operands.array with
  | none => some (heap, instr)
  | some (src, size) => (duplicate heap answer src size).bind fun copy =>
    some (copy.1, ⟨instr.dst, instr.operands.withArray copy.2⟩)

theorem copyConstruct_eq (instr : InstructionObject) :
    instr.copyConstruct heap answer = duplicateArray heap answer instr := by
  obtain ⟨dst, operands⟩ := instr
  cases operands <;> rfl

def freeReplaced (heap : Heap) (this : InstructionObject) : Option Heap :=
  match this.operands.replaced with
  | some array => freeIf heap array.1
  | none => some heap

theorem assign_eq {this instr : InstructionObject} (same : this.operands.op = instr.operands.op) :
    this.assign heap answer instr =
      (freeReplaced heap this).bind fun heap => (duplicateArray heap answer instr).map fun result =>
        (result.1, ⟨instr.dst, this.operands.withStorage result.2.operands⟩) := by
  obtain ⟨dst, operands⟩ := instr
  obtain ⟨thisDst, thisOperands⟩ := this
  cases thisOperands <;> cases operands <;> first | cases same; done | rfl | skip
  -- An array is freed and duplicated; the rest is copied as it is.
  all_goals
    simp only [duplicateArray, Operands.array, Option.map_bind]
    rfl

theorem serialize_eq (instr : InstructionObject) : instr.serialize heap =
    (match instr.operands.array with
      | some array => heap.read array.1 array.2.toInt
      | none => some []).map fun elements =>
        ⟨instr.operands.op.toIndex, instr.front ++ elements⟩ := by
  obtain ⟨dst, operands⟩ := instr
  cases operands <;> first | rfl | skip
  all_goals
    simp only [InstructionObject.serialize, Operands.array, Option.map_map]
    rfl

section Operands

variable (operands this : Operands) (array : Address) (dst : RegName)

@[simp] theorem withArray_op : (operands.withArray array).op = operands.op := by
  cases operands <;> rfl

@[simp] theorem withArray_array :
    (operands.withArray array).array = operands.array.map fun old => (array, old.2) := by
  cases operands <;> rfl

@[simp] theorem withArray_storage : (operands.withArray array).storage = operands.storage := by
  cases operands <;> rfl

@[simp] theorem withArray_front :
    InstructionObject.front ⟨dst, operands.withArray array⟩ =
      InstructionObject.front ⟨dst, operands⟩ := by
  cases operands <;> rfl

@[simp] theorem withStorage_op : (this.withStorage operands).op = operands.op := by
  cases this <;> cases operands <;> rfl

@[simp] theorem withStorage_array : (this.withStorage operands).array = operands.array := by
  cases this <;> cases operands <;> rfl

variable {operands this}

theorem withStorage_front_iff (same : this.op = operands.op) :
    InstructionObject.front ⟨dst, this.withStorage operands⟩ =
      InstructionObject.front ⟨dst, operands⟩ ↔ this.storage = operands.storage := by
  cases this <;> cases operands <;> first | cases same; done | exact iff_of_true rfl rfl | skip
  simp [Operands.withStorage, InstructionObject.front, Operands.storage]

theorem replaced_eq_some {replaced : Address × Index} :
    operands.replaced = some replaced ↔
      operands.op ≠ .AllocTensor ∧ operands.array = some replaced := by
  unfold Operands.replaced
  split
  · rename_i isTensor
    exact iff_of_false (by simp) fun both => both.1 isTensor
  · rename_i notTensor
    exact ⟨fun isArray => ⟨notTensor, isArray⟩, fun both => both.2⟩

end Operands

theorem toInt_count (registers : Registers) :
    registers.count.toInt = registers.val.length := by
  have bound := registers.property
  have count : registers.count.toNat = registers.val.length := by
    rw [Registers.count, BitVec.toNat_ofNat, Nat.mod_eq_of_lt (by omega)]
  rw [BitVec.toInt_eq_toNat_of_lt (by omega), count]

theorem toInt_ndim (shape : Shape) : (shape.ndim.setWidth 64).toInt = shape.val.length := by
  have bound := shape.property
  have ndim : (shape.ndim.setWidth 64).toNat = shape.val.length := by
    rw [BitVec.toNat_setWidth, Shape.ndim, BitVec.toNat_ofNat]
    omega
  rw [BitVec.toInt_eq_toNat_of_lt (by omega), ndim]

theorem construct_cases (heap : Heap) (answer : Address) (unset : RegName) (instr : Instruction) :
    ((InstructionObject.construct heap answer unset instr).1 = heap ∧
      (InstructionObject.construct heap answer unset instr).2.operands.array = none) ∨
    ∃ elements size, (InstructionObject.construct heap answer unset instr).1 =
        heap.new answer elements ∧
      (InstructionObject.construct heap answer unset instr).2.operands.array =
        some (answer, size) ∧ (elements.length : Int) = size.toInt := by
  cases instr with
  | invokePacked packedIndex outputSize packedArgs =>
    exact .inr ⟨_, _, rfl, rfl, (toInt_count packedArgs).symm⟩
  | allocTensor storage offset shape dtype dst =>
    exact .inr ⟨_, _, rfl, rfl, (toInt_ndim shape).symm⟩
  | allocADT constructorTag datatypeFields dst =>
    exact .inr ⟨_, _, rfl, rfl, (toInt_count datatypeFields).symm⟩
  | allocClosure cloIndex freeVars dst =>
    exact .inr ⟨_, _, rfl, rfl, (toInt_count freeVars).symm⟩
  | invoke funcIndex args dst => exact .inr ⟨_, _, rfl, rfl, (toInt_count args).symm⟩
  | invokeClosure closure closureArgs dst =>
    exact .inr ⟨_, _, rfl, rfl, (toInt_count closureArgs).symm⟩
  | _ => exact .inl ⟨rfl, rfl⟩

def OwnsArray (heap : Heap) (instr : InstructionObject) : Prop :=
  ∀ array ∈ instr.operands.array, heap.Owns array.1 array.2.toInt

/-- Every object owns its array alone. -/
structure InstructionMemory.Owned (mem : InstructionMemory) : Prop where
  owns : ∀ id instr, mem.objects id = some instr → OwnsArray mem.heap instr
  apart : ∀ id other this instr, id ≠ other → mem.objects id = some this →
    mem.objects other = some instr → ∀ a ∈ this.operands.array, ∀ b ∈ instr.operands.array,
      a.1 ≠ b.1

/-- What an instruction does to the heap leaves it with its own array there, which is new. -/
structure Obtains (heap : Heap) (answer : Address) (result : Heap × InstructionObject) :
    Prop where
  owns : OwnsArray result.1 result.2
  isAnswer : ∀ array ∈ result.2.operands.array, array.1 = answer
  others : ∀ address ≠ answer, result.1 address = heap address

def Readable (heap : Heap) (instr : InstructionObject) : Prop :=
  ∀ array ∈ instr.operands.array, ∃ elements : List Index,
    heap.read array.1 array.2.toInt = some elements ∧ (elements.length : Int) = array.2.toInt

theorem OwnsArray.readable {instr : InstructionObject} (owns : OwnsArray heap instr) :
    Readable heap instr := by
  intro array isArray
  obtain ⟨-, elements, there, length⟩ := owns array isArray
  exact ⟨elements, ArrayHeap.read_of_owns there length, length⟩

theorem OwnsArray.serialize {instr : InstructionObject} (owns : OwnsArray heap instr) :
    ∃ saved, instr.serialize heap = some saved := by
  rw [serialize_eq]
  cases isArray : instr.operands.array with
  | none => exact ⟨_, rfl⟩
  | some array =>
    obtain ⟨elements, reads, -⟩ := owns.readable array isArray
    dsimp only
    rw [reads]
    exact ⟨_, rfl⟩

theorem serialize_congr {after : Heap} {instr : InstructionObject}
    (same : ∀ array ∈ instr.operands.array,
      after.read array.1 array.2.toInt = heap.read array.1 array.2.toInt) :
    instr.serialize after = instr.serialize heap := by
  rw [serialize_eq, serialize_eq]
  cases isArray : instr.operands.array with
  | none => rfl
  | some array =>
    dsimp only
    rw [same array isArray]

theorem construct_obtains (heap : Heap) {answer : Address} (fresh : heap.Fresh answer)
    (unset : RegName) (instr : Instruction) :
    Obtains heap answer (InstructionObject.construct heap answer unset instr) := by
  rcases construct_cases heap answer unset instr with
    ⟨isHeap, noArray⟩ | ⟨elements, size, isHeap, isArray, length⟩
  · refine ⟨fun array isArray => ?_, fun array isArray => ?_, fun address _ => by rw [isHeap]⟩
    · rw [noArray] at isArray
      cases isArray
    · rw [noArray] at isArray
      cases isArray
  · refine ⟨fun array there => ?_, fun array there => ?_, fun address differs => ?_⟩
    · rw [isArray] at there
      cases there
      rw [isHeap]
      exact ⟨fresh.1, elements, ArrayHeap.new_self, length⟩
    · rw [isArray] at there
      cases there
      rfl
    · rw [isHeap]
      exact ArrayHeap.new_of_ne differs

theorem duplicateArray_spec {instr : InstructionObject} (readable : Readable heap instr)
    (fresh : heap.Fresh answer) :
    ∃ after copy, duplicateArray heap answer instr = some (after, ⟨instr.dst, copy⟩) ∧
      Obtains heap answer (after, ⟨instr.dst, copy⟩) ∧ copy.op = instr.operands.op ∧
        copy.storage = instr.operands.storage ∧
          InstructionObject.serialize after ⟨instr.dst, copy⟩ = instr.serialize heap := by
  unfold duplicateArray
  cases isArray : instr.operands.array with
  | none =>
    refine ⟨heap, instr.operands, rfl, ⟨?_, ?_, fun _ _ => rfl⟩, rfl, rfl, rfl⟩
    · intro array there
      rw [isArray] at there
      cases there
    · intro array there
      rw [isArray] at there
      cases there
  | some array =>
    obtain ⟨elements, reads, length⟩ := readable array isArray
    have copied : (instr.operands.withArray answer).array = some (answer, array.2) := by
      rw [withArray_array, isArray, Option.map_some]
    have duplicates : duplicate heap answer array.1 array.2 =
        some (heap.new answer elements, answer) := by
      unfold duplicate
      rw [reads, Option.map_some]
    dsimp only
    rw [duplicates, Option.bind_some]
    refine ⟨_, _, rfl, ⟨?_, ?_, ?_⟩, withArray_op .., withArray_storage .., ?_⟩
    · intro copy isCopy
      rw [copied] at isCopy
      cases isCopy
      exact ⟨fresh.1, elements, ArrayHeap.new_self, length⟩
    · intro copy isCopy
      rw [copied] at isCopy
      cases isCopy
      rfl
    · intro address differs
      exact ArrayHeap.new_of_ne differs
    · rw [serialize_eq, serialize_eq, copied, isArray, withArray_op, withArray_front]
      dsimp only
      rw [reads, ArrayHeap.read_of_owns ArrayHeap.new_self length]

theorem readable_of_duplicateArray {instr : InstructionObject} {freed : Heap}
    {result : Heap × InstructionObject}
    (duplicates : duplicateArray freed answer instr = some result)
    {array : Address × Index} (isArray : instr.operands.array = some array)
    (isFreed : freed array.1 = none) : array.2 = 0 := by
  unfold duplicateArray duplicate at duplicates
  rw [isArray] at duplicates
  by_contra some_size
  have size : array.2.toInt ≠ 0 := fun zero => some_size (BitVec.eq_of_toInt_eq zero)
  dsimp only at duplicates
  rw [ArrayHeap.read_of_none isFreed size] at duplicates
  cases duplicates

theorem op_eq_of_assign {this instr : InstructionObject} {result : Heap × InstructionObject}
    (assigns : this.assign heap answer instr = some result) :
    this.operands.op = instr.operands.op := by
  obtain ⟨dst, operands⟩ := instr
  obtain ⟨thisDst, thisOperands⟩ := this
  cases thisOperands <;> cases operands <;> first | rfl | cases assigns

theorem freeReplaced_eq {this : InstructionObject} (owns : OwnsArray heap this) :
    freeReplaced heap this = some (this.freed heap) := by
  unfold freeReplaced InstructionObject.freed
  cases isReplaced : this.operands.replaced with
  | none => rfl
  | some array =>
    obtain ⟨nonnull, elements, there, -⟩ :=
      owns array (replaced_eq_some.mp isReplaced).2
    dsimp only
    rw [freeIf, if_pos nonnull, ArrayHeap.delete, there, Option.map_some]

theorem assign_spec {this instr : InstructionObject} (owns : OwnsArray heap this)
    (same : this.operands.op = instr.operands.op) (readable : Readable (this.freed heap) instr)
    (fresh : (this.freed heap).Fresh answer) :
    ∃ result, this.assign heap answer instr = some result ∧
      Obtains (this.freed heap) answer result ∧
        (result.2.serialize result.1 = instr.serialize (this.freed heap) ↔
          this.operands.storage = instr.operands.storage) := by
  obtain ⟨after, copy, duplicates, obtains, op, storage, serializes⟩ :=
    duplicateArray_spec readable fresh
  refine ⟨(after, ⟨instr.dst, this.operands.withStorage copy⟩), ?_, ?_, ?_⟩
  · rw [assign_eq same, freeReplaced_eq owns, Option.bind_some, duplicates, Option.map_some]
  · obtain ⟨copyOwns, isAnswer, others⟩ := obtains
    refine ⟨fun array isArray => ?_, fun array isArray => ?_, others⟩
    · rw [withStorage_array] at isArray
      exact copyOwns array isArray
    · rw [withStorage_array] at isArray
      exact isAnswer array isArray
  · rw [← storage, ← withStorage_front_iff instr.dst (same.trans op.symm), ← serializes,
      serialize_eq, serialize_eq]
    obtain ⟨saved, isSaved⟩ := obtains.owns.serialize
    rw [serialize_eq] at isSaved
    obtain ⟨elements, reads, -⟩ := Option.map_eq_some_iff.mp isSaved
    rw [withStorage_array, withStorage_op]
    dsimp only at reads ⊢
    rw [reads, Option.map_some, Option.map_some, Option.some.injEq,
      VMInstructionSerializer.mk.injEq, and_iff_right rfl, List.append_left_inj]

namespace InstructionMemory

variable {mem : InstructionMemory} {id : Nat}

theorem put_self (result : Heap × InstructionObject) :
    (mem.put id result).objects id = some result.2 :=
  Function.update_self ..

theorem put_of_ne (result : Heap × InstructionObject) {other : Nat} (differs : other ≠ id) :
    (mem.put id result).objects other = mem.objects other :=
  Function.update_of_ne differs ..

theorem Owned.put (owned : mem.Owned) {start : Heap} {result : Heap × InstructionObject}
    (fresh : start.Fresh answer) (obtains : Obtains start answer result)
    (others : ∀ other ≠ id, ∀ instr, mem.objects other = some instr → OwnsArray start instr) :
    (mem.put id result).Owned := by
  have elsewhere {other : Nat} {instr : InstructionObject} (differs : other ≠ id)
      (there : mem.objects other = some instr) {array : Address × Index}
      (isArray : instr.operands.array = some array) : array.1 ≠ answer :=
    (others other differs instr there array isArray).ne_of_fresh fresh
  constructor
  · intro other instr there array isArray
    by_cases here : other = id
    · subst here
      rw [put_self] at there
      obtain rfl := Option.some.inj there
      exact obtains.owns array isArray
    · rw [put_of_ne _ here] at there
      obtain ⟨nonnull, elements, isThere, length⟩ := others other here instr there array isArray
      exact ⟨nonnull, elements, (obtains.others _ (elsewhere here there isArray)).trans isThere,
        length⟩
  · intro one other this instr differs isThis isInstr a isA b isB
    by_cases first : one = id
    · subst first
      rw [put_self] at isThis
      obtain rfl := Option.some.inj isThis
      rw [put_of_ne _ differs.symm] at isInstr
      rw [obtains.isAnswer a isA]
      exact (elsewhere differs.symm isInstr isB).symm
    · rw [put_of_ne _ first] at isThis
      by_cases second : other = id
      · subst second
        rw [put_self] at isInstr
        obtain rfl := Option.some.inj isInstr
        rw [obtains.isAnswer b isB]
        exact elsewhere first isThis isA
      · rw [put_of_ne _ second] at isInstr
        exact owned.apart one other this instr differs isThis isInstr a isA b isB

theorem Owned.freed (owned : mem.Owned) {this : InstructionObject}
    (isThis : mem.objects id = some this) {other : Nat} (differs : other ≠ id)
    {instr : InstructionObject} (isInstr : mem.objects other = some instr) :
    OwnsArray (this.freed mem.heap) instr ∧
      ∀ array ∈ instr.operands.array, this.freed mem.heap array.1 = mem.heap array.1 := by
  have owns := owned.owns other instr isInstr
  unfold InstructionObject.freed
  cases isReplaced : this.operands.replaced with
  | none => exact ⟨owns, fun _ _ => rfl⟩
  | some replaced =>
    have apart : ∀ array ∈ instr.operands.array, array.1 ≠ replaced.1 := by
      intro array isArray
      exact owned.apart other id instr this differs isInstr isThis array isArray replaced
        (replaced_eq_some.mp isReplaced).2
    refine ⟨fun array isArray => ?_, fun array isArray => ?_⟩
    · exact (owns array isArray).update_none (apart array isArray)
    · exact Function.update_of_ne (apart array isArray) ..

theorem destroy_eq (heap : Heap) (this : InstructionObject) : this.destroy heap =
    match this.operands.array with
    | some array => InstructionObject.deleteArray heap array.1
    | none => some heap := by
  obtain ⟨dst, operands⟩ := this
  cases operands <;> rfl

theorem Owned.destroy (owned : mem.Owned) {after : InstructionMemory}
    (destroys : mem.destroy id = some after) : after.Owned := by
  obtain ⟨this, isThis, destroys⟩ := Option.bind_eq_some_iff.mp destroys
  obtain ⟨heap, isHeap, destroys⟩ := Option.bind_eq_some_iff.mp destroys
  obtain rfl := Option.some.inj destroys
  have remains {other : Nat} {instr : InstructionObject}
      (there : Function.update mem.objects id none other = some instr) :
      other ≠ id ∧ mem.objects other = some instr := by
    by_cases here : other = id
    · subst here
      rw [Function.update_self] at there
      cases there
    · rw [Function.update_of_ne here] at there
      exact ⟨here, there⟩
  rw [destroy_eq] at isHeap
  constructor
  · intro other instr there array isArray
    obtain ⟨differs, isInstr⟩ := remains there
    have owns := owned.owns other instr isInstr array isArray
    cases isOld : this.operands.array with
    | none =>
      rw [isOld] at isHeap
      rw [← Option.some.inj isHeap]
      exact owns
    | some old =>
      rw [isOld] at isHeap
      have nonnull := (owned.owns id this isThis old isOld).1
      dsimp only at isHeap
      rw [InstructionObject.deleteArray, if_neg nonnull] at isHeap
      rw [(ArrayHeap.delete_eq_some.mp isHeap).2]
      exact owns.update_none
        (owned.apart other id instr this differs isInstr isThis array isArray old isOld)
  · intro one other first second differs isFirst isSecond
    exact owned.apart one other first second differs (remains isFirst).2 (remains isSecond).2

theorem Owned.construct (owned : mem.Owned) (fresh : mem.heap.Fresh answer) (unset : RegName)
    (instr : Instruction) : (mem.construct id answer unset instr).Owned :=
  owned.put fresh (construct_obtains mem.heap fresh unset instr)
    fun other _ => owned.owns other

theorem Owned.copyConstruct (owned : mem.Owned) {source : Nat} {instr : InstructionObject}
    (isInstr : mem.objects source = some instr) (unused : mem.objects id = none)
    (fresh : mem.heap.Fresh answer) :
    mem.CopyKeeps id source answer ∧
      ∀ after, mem.copyConstruct id source answer = some after → after.Owned := by
  have owns := owned.owns source instr isInstr
  obtain ⟨after, copy, duplicates, obtains, -, -, serializes⟩ :=
    duplicateArray_spec owns.readable fresh
  have copies : mem.copyConstruct id source answer =
      some (mem.put id (after, ⟨instr.dst, copy⟩)) := by
    rw [InstructionMemory.copyConstruct, isInstr, Option.bind_eq_bind, Option.bind_some,
      copyConstruct_eq, duplicates]
    rfl
  have differs : source ≠ id := by
    rintro rfl
    rw [unused] at isInstr
    cases isInstr
  obtain ⟨saved, isSaved⟩ := owns.serialize
  refine ⟨⟨_, saved, copies, ?_, ?_, ?_, put_of_ne _ differs⟩, ?_⟩
  · rw [InstructionMemory.serialize, isInstr]
    exact isSaved
  · rw [InstructionMemory.serialize, put_self]
    exact serializes.trans isSaved
  · rw [InstructionMemory.serialize, put_of_ne _ differs, isInstr, Option.bind_some, ← isSaved]
    refine serialize_congr fun array isArray => ArrayHeap.read_congr ?_
    exact obtains.others _ ((owns array isArray).ne_of_fresh fresh)
  · intro other isOther
    rw [copies] at isOther
    rw [← Option.some.inj isOther]
    exact owned.put fresh obtains fun other _ => owned.owns other

section Assign

variable {source : Nat} {this instr : InstructionObject}

theorem Owned.readable_freed (owned : mem.Owned) (isThis : mem.objects id = some this)
    (isInstr : mem.objects source = some instr)
    (empty : id = source → ∀ array ∈ instr.operands.replaced, array.2 = 0) :
    Readable (this.freed mem.heap) instr ∧
      instr.serialize (this.freed mem.heap) = instr.serialize mem.heap := by
  by_cases differs : source = id
  · subst differs
    rw [isThis] at isInstr
    obtain rfl := Option.some.inj isInstr
    unfold InstructionObject.freed
    cases isReplaced : this.operands.replaced with
    | none => exact ⟨(owned.owns source this isThis).readable, rfl⟩
    | some array =>
      have zero := empty rfl array isReplaced
      have isArray := (replaced_eq_some.mp isReplaced).2
      have nothing (heap : Heap) : heap.read array.1 array.2.toInt = some [] := by
        rw [zero]
        exact ArrayHeap.read_zero
      refine ⟨fun other isOther => ?_, serialize_congr fun other isOther => ?_⟩
      · rw [isArray] at isOther
        cases isOther
        exact ⟨[], nothing _, by rw [zero]; rfl⟩
      · rw [isArray] at isOther
        cases isOther
        rw [nothing, nothing]
  · obtain ⟨owns, same⟩ := owned.freed isThis differs isInstr
    exact ⟨owns.readable, serialize_congr fun array isArray =>
      ArrayHeap.read_congr (same array isArray)⟩

theorem assign_eq_some (isThis : mem.objects id = some this)
    (isInstr : mem.objects source = some instr) {after : InstructionMemory} :
    mem.assign id source answer = some after ↔
      ∃ result, this.assign mem.heap answer instr = some result ∧ after = mem.put id result := by
  unfold InstructionMemory.assign
  simp only [isThis, isInstr, Option.bind_eq_bind, Option.bind_some, Option.bind_eq_some_iff]
  refine exists_congr fun result => and_congr_right fun _ => ?_
  rw [Option.some.injEq]
  exact eq_comm

theorem Owned.empty_of_assign (owned : mem.Owned) (isThis : mem.objects id = some this)
    (isInstr : mem.objects source = some instr) {after : InstructionMemory}
    (assigns : mem.assign id source answer = some after) :
    id = source → ∀ array ∈ instr.operands.replaced, array.2 = 0 := by
  rintro rfl array isReplaced
  rw [isThis] at isInstr
  obtain rfl := Option.some.inj isInstr
  obtain ⟨result, assigns, -⟩ := (assign_eq_some isThis isThis).mp assigns
  rw [assign_eq rfl, freeReplaced_eq (owned.owns id this isThis), Option.bind_some] at assigns
  obtain ⟨copy, duplicates, -⟩ := Option.map_eq_some_iff.mp assigns
  refine readable_of_duplicateArray duplicates (replaced_eq_some.mp isReplaced).2 ?_
  unfold InstructionObject.freed
  rw [isReplaced]
  exact Function.update_self ..

theorem Owned.assign (owned : mem.Owned) (isThis : mem.objects id = some this)
    (fresh : (this.freed mem.heap).Fresh answer) {after : InstructionMemory}
    (assigns : mem.assign id source answer = some after) : after.Owned := by
  obtain ⟨_, _, assigned⟩ := Option.bind_eq_some_iff.mp assigns
  obtain ⟨instr, isInstr, -⟩ := Option.bind_eq_some_iff.mp assigned
  have readable := (owned.readable_freed isThis isInstr
    (owned.empty_of_assign isThis isInstr assigns)).1
  obtain ⟨result, isResult, rfl⟩ := (assign_eq_some isThis isInstr).mp assigns
  obtain ⟨other, isOther, obtains, -⟩ := assign_spec (owned.owns id this isThis)
    (op_eq_of_assign isResult) readable fresh
  rw [isOther] at isResult
  obtain rfl := Option.some.inj isResult
  exact owned.put fresh obtains fun other differs instr isInstr =>
    (owned.freed isThis differs isInstr).1

theorem Owned.assign_keeps_iff (owned : mem.Owned) (isThis : mem.objects id = some this)
    (isInstr : mem.objects source = some instr) (same : this.operands.op = instr.operands.op)
    (fresh : (this.freed mem.heap).Fresh answer) :
    mem.AssignKeeps id source answer ↔ AssignMeets id source this instr := by
  by_cases empty : id = source → ∀ array ∈ instr.operands.replaced, array.2 = 0
  · obtain ⟨readable, unchanged⟩ := owned.readable_freed isThis isInstr empty
    obtain ⟨result, assigns, obtains, serializes⟩ :=
      assign_spec (owned.owns id this isThis) same readable fresh
    have assigned : mem.assign id source answer = some (mem.put id result) :=
      (assign_eq_some isThis isInstr).mpr ⟨result, assigns, rfl⟩
    obtain ⟨saved, isSaved⟩ := (owned.owns source instr isInstr).serialize
    have before : mem.serialize source = some saved := by
      rw [InstructionMemory.serialize, isInstr]
      exact isSaved
    have afterwards : (mem.put id result).serialize id = result.2.serialize result.1 := by
      rw [InstructionMemory.serialize, put_self]
      rfl
    rw [unchanged, isSaved] at serializes
    constructor
    · rintro ⟨after, other, isAfter, isOther, copied, -⟩
      rw [assigned] at isAfter
      obtain rfl := Option.some.inj isAfter
      rw [before] at isOther
      obtain rfl := Option.some.inj isOther
      rw [afterwards] at copied
      exact ⟨serializes.mp copied, empty⟩
    · rintro ⟨storage, -⟩
      refine ⟨_, saved, assigned, before, ?_, ?_, fun differs => put_of_ne _ differs.symm⟩
      · rw [afterwards]
        exact serializes.mpr storage
      · by_cases here : source = id
        · rw [here, afterwards]
          exact serializes.mpr storage
        · rw [InstructionMemory.serialize, put_of_ne _ here, isInstr, Option.bind_some, ← isSaved]
          obtain ⟨owns, kept⟩ := owned.freed isThis here isInstr
          refine serialize_congr fun array isArray => ArrayHeap.read_congr ?_
          have elsewhere := (owns array isArray).ne_of_fresh fresh
          exact (obtains.others _ elsewhere).trans (kept array isArray)
  · refine iff_of_false ?_ fun meets => empty meets.2
    rintro ⟨after, saved, isAfter, -⟩
    exact empty (owned.empty_of_assign isThis isInstr isAfter)

end Assign

end InstructionMemory

theorem MemoryReached.owned {mem : InstructionMemory} (reached : MemoryReached mem) :
    mem.Owned := by
  induction reached with
  | start =>
    refine ⟨fun id instr there => ?_, fun id other this instr _ there => ?_⟩
    · cases there
    · cases there
  | construct id answer unset instr _ _ fresh ih =>
    exact ih.construct fresh unset instr
  | copyConstruct id source answer _ unused fresh copies ih =>
    obtain ⟨instr, isInstr, -⟩ := Option.bind_eq_some_iff.mp copies
    exact (ih.copyConstruct isInstr unused fresh).2 _ copies
  | assign id source answer _ isThis fresh assigns ih =>
    exact ih.assign isThis fresh assigns
  | destroy id _ destroys ih => exact ih.destroy destroys

/-- Copy construction is faithful in every memory, and an assignment between instructions of one
opcode if and only if it meets the condition. -/
theorem instruction_copies_exact (mem : InstructionMemory) (reached : MemoryReached mem) :
    (∀ id source answer instr, mem.objects source = some instr → mem.objects id = none →
      mem.heap.Fresh answer → mem.CopyKeeps id source answer) ∧
    ∀ id source answer this instr, mem.objects id = some this →
      mem.objects source = some instr → this.operands.op = instr.operands.op →
        (this.freed mem.heap).Fresh answer →
          (mem.AssignKeeps id source answer ↔
            InstructionMemory.AssignMeets id source this instr) := by
  have owned := reached.owned
  refine ⟨fun id source answer instr isInstr unused fresh => ?_,
    fun id source answer this instr isThis isInstr same fresh => ?_⟩
  · exact (owned.copyConstruct isInstr unused fresh).1
  · exact owned.assign_keeps_iff isThis isInstr same fresh

def twoTensors : InstructionMemory :=
  ((⟨fun _ => none, fun _ => none⟩ : InstructionMemory).construct 0 8 0
    (.allocTensor 1 0 ⟨[4], by decide⟩ ⟨2, 32, 1⟩ 5)).construct 1 16 0
      (.allocTensor 2 0 ⟨[4], by decide⟩ ⟨2, 32, 1⟩ 5)

theorem twoTensors_reached : MemoryReached twoTensors := by
  refine .construct 1 16 0 _ (.construct 0 8 0 _ .start rfl ⟨by decide, rfl⟩) ?_ ⟨by decide, ?_⟩
  · rfl
  · rfl

/-- The first tensor is copied, and the second one is assigned to itself. -/
theorem instruction_copies_exact_twoTensors :
    twoTensors.CopyKeeps 2 0 24 ∧ twoTensors.AssignKeeps 1 1 24 := by
  obtain ⟨copies, assigns⟩ := instruction_copies_exact twoTensors twoTensors_reached
  refine ⟨copies 2 0 24 _ rfl rfl ⟨by decide, rfl⟩, ?_⟩
  apply (assigns 1 1 24 _ _ rfl rfl rfl ⟨by decide, rfl⟩).mpr
  refine ⟨rfl, fun _ array isArray => ?_⟩
  cases isArray

/-- The left side keeps its storage. -/
theorem allocTensor_keeps_storage : ¬∀ mem : InstructionMemory, MemoryReached mem →
    ∀ id source answer this instr, mem.objects id = some this →
      mem.objects source = some instr → this.operands.op = instr.operands.op →
        (this.freed mem.heap).Fresh answer → mem.AssignKeeps id source answer := by
  intro keeps
  obtain ⟨after, saved, assigns, before, copied, -⟩ :=
    keeps twoTensors twoTensors_reached 0 1 24 _ _ rfl rfl rfl ⟨by decide, rfl⟩
  cases assigns
  cases before
  cases copied

end Tvm.Vm
