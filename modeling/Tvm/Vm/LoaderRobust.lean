import Tvm.Lib.AssocList
import Tvm.Vm.Executable
import Tvm.Vm.Loader

/-!
# When loading stays inside

The records of the code section up to the first that is refused decide whether the loader reads what
is not there: the fields of the instructions, and the functions at the indexes of their names.
-/

namespace Tvm.Vm

open Tvm.Lib

/-- The fields of a case, and the one that is the length of the array behind them. -/
inductive FieldLayout where
  | fixed (count : Nat)
  | openEnded (count : Nat)
  | array (count : Nat) (counter : Fin count) (newArray : Bool)

def FieldLayout.count : FieldLayout → Nat
  | .fixed count => count
  | .openEnded count => count
  | .array count _ _ => count

attribute [local instance] neZero_three neZero_seven

def Opcode.layout : Opcode → FieldLayout
  | .Move | .LoadConst | .LoadConsti | .GetTag | .ShapeOf => .fixed 2
  | .Ret | .Goto | .KillRegister => .fixed 1
  | .Fatal => .fixed 0
  | .GetField | .ReshapeTensor => .fixed 3
  | .If | .DeviceCopy => .fixed 4
  | .AllocTensorReg => .fixed 7
  | .AllocStorage => .openEnded 7
  | .InvokePacked | .AllocADT | .AllocClosure => .array 3 1 true
  | .Invoke | .InvokeClosure => .array 3 1 false
  | .AllocTensor => .array 7 5 false

def FieldLayout.Accepts (dchecks : Bool) (fields : List Index) : FieldLayout → Prop
  | .fixed count =>
    count ≤ fields.length ∧ (dchecks = true → fields.length = count)
  | .openEnded count => count ≤ fields.length
  | .array count counter newArray =>
    ∃ cnt, fields[counter.val]? = some cnt ∧ count ≤ fields.length ∧
      (dchecks = true → fields.length = count + cnt.toNat) ∧
      (BitVec.ofNat 64 count + cnt).toNat ≤ fields.length ∧ ¬(newArray = true ∧ cnt.toInt < 0)

instance (dchecks : Bool) (fields : List Index) (layout : FieldLayout) :
    Decidable (layout.Accepts dchecks fields) :=
  match layout with
  | .fixed count =>
    inferInstanceAs (Decidable (count ≤ fields.length ∧ (dchecks = true → fields.length = count)))
  | .openEnded count => inferInstanceAs (Decidable (count ≤ fields.length))
  | .array count counter newArray =>
    match there : fields[counter.val]? with
    | none => isFalse fun accepts => by
        obtain ⟨cnt, isThere, -⟩ := accepts
        rw [there] at isThere
        cases isThere
    | some cnt =>
      decidable_of_iff (count ≤ fields.length ∧
        (dchecks = true → fields.length = count + cnt.toNat) ∧
        (BitVec.ofNat 64 count + cnt).toNat ≤ fields.length ∧
        ¬(newArray = true ∧ cnt.toInt < 0))
        ⟨fun accepts => ⟨cnt, there, accepts⟩, fun ⟨other, isThere, accepts⟩ => by
          rw [there] at isThere
          cases isThere
          exact accepts⟩

/-- What the loader reads elements for: an instruction with its fields, or a function with the index
of its name. -/
inductive CodeRecord where
  | instruction (opcode : Opcode) (fields : List Index)
  | function (index : Index)
  deriving DecidableEq

/-- A release build needs the fields that the case of the opcode reads; the index is one of the
functions. -/
def CodeRecord.Fits (dchecks : Bool) (numFuncs : Nat) : CodeRecord → Prop
  | .instruction opcode fields => dchecks = true ∨ opcode.layout.count ≤ fields.length
  | .function index => index.toNat < numFuncs

def VMFunctionSerializer.index (info : VMFunctionSerializer) (globalMap : Table) : Option Index :=
  if info.params.length = info.paramDeviceIndexes.length then
    (globalMap.lookup info.name).filter fun index => index.toNat ≤ globalMap.length
  else none

section Records

variable (dchecks : Bool) (dmlc : DmlcStream) (hashCombine : BitVec 64 → Index → BitVec 64)
  (fresh : Nat → UInt8)

/-- The instructions up to the first that is refused, and what is left of the stream where none
is. -/
def instructionRecords : Nat → Bytes → List CodeRecord × Option Bytes
  | 0, stream => ([], some stream)
  | count + 1, stream =>
    match readRecord dmlc hashCombine stream with
    | none => ([], none)
    | some ((opcode, fields), rest) =>
      if opcode.layout.Accepts dchecks fields then
        let following := instructionRecords count rest
        (.instruction opcode fields :: following.1, following.2)
      else ([.instruction opcode fields], none)

/-- The records of the functions, up to the first that is refused. -/
def codeRecords (globalMap : Table) : Nat → Bytes → List CodeRecord
  | 0, _ => []
  | count + 1, stream =>
    match readFunctionInfo dmlc stream with
    | none => []
    | some (info, body) =>
      let instructions :=
        instructionRecords dchecks dmlc hashCombine info.numInstructions.toNat body
      match instructions.2, info.index globalMap with
      | some rest, some index =>
        instructions.1 ++ .function index :: codeRecords globalMap count rest
      | _, _ => instructions.1

/-- Every record of the code section fits, where the loader comes to it. -/
def RecordsFit (maxSize : Nat) (code : Bytes) : Prop :=
  ∀ exec stream, readSections dmlc fresh code = some (exec, stream) →
    ∀ size body, dmlc.uint64.read stream = some (size, body) → size.toNat ≤ maxSize →
      ∀ record ∈ codeRecords dchecks dmlc hashCombine exec.globalMap size.toNat body,
        record.Fits dchecks size.toNat

def LoadsRobustly (maxSize : Nat) (code : Bytes) : Prop :=
  readExecutable dchecks dmlc hashCombine fresh maxSize code = .error .failed ∨
    ∃ exec rest, readExecutable dchecks dmlc hashCombine fresh maxSize code = .ok (exec, rest)

end Records

section Instructions

variable {dchecks : Bool} {fields : List Index} {count : Nat}

theorem firstFields_ok (inside : count ≤ fields.length) :
    firstFields count fields = .ok fun i => fields.get ⟨i, i.isLt.trans_le inside⟩ :=
  dif_pos inside

theorem firstFields_error (outside : ¬count ≤ fields.length) :
    firstFields count fields = .error .outOfRange :=
  dif_neg outside

theorem dcheck_of_holds {p : Prop} [Decidable p] (holds : dchecks = true → p) :
    dcheck dchecks p = .ok () :=
  if_neg fun both => both.2 (holds both.1)

theorem dcheck_of_fails {p : Prop} [Decidable p] (fails : ¬(dchecks = true → p)) :
    dcheck dchecks p = .error .failed := by
  apply if_pos
  push Not at fails
  exact fails

theorem readFields_spec (fields : List Index) (start cnt : Index) (small : start.toNat < 2 ^ 63) :
    ((∃ args, readFields fields start cnt = .ok args) ↔ (start + cnt).toNat ≤ fields.length) ∧
      readFields fields start cnt ≠ .error .outOfRange := by
  unfold readFields extractFields
  by_cases fits : (start + cnt).toNat ≤ fields.length
  · have inside : ∀ i < cnt.toInt.toNat, start.toNat + i < fields.length := by
      intro i below
      have unsigned : cnt.toInt.toNat ≤ cnt.toNat := by
        rw [BitVec.toInt_eq_toNat_cond]
        split
        · exact le_of_eq (Int.toNat_natCast _)
        · omega
      have bound := toNat_lt_of_toInt cnt
      have signed : 2 * cnt.toNat < 2 ^ 64 := by
        by_contra large
        rw [BitVec.toInt_eq_toNat_cond, if_neg large] at below
        omega
      rw [BitVec.toNat_add, Nat.mod_eq_of_lt (by omega)] at fits
      omega
    rw [if_pos fits]
    dsimp only
    rw [if_pos inside]
    exact ⟨iff_of_true ⟨_, rfl⟩ fits, fun same => nomatch same⟩
  · rw [if_neg fits]
    exact ⟨iff_of_false (fun ⟨_, same⟩ => nomatch same) fits, fun same => nomatch same⟩

/-- What a case does: whether it stays inside, and whether it makes an instruction. -/
structure CaseMeets (dchecks : Bool) (fields : List Index) (layout : FieldLayout)
    (result : Except ReadFault Instruction) : Prop where
  inside : result ≠ .error .outOfRange ↔ dchecks = true ∨ layout.count ≤ fields.length
  accepted : (∃ instruction, result = .ok instruction) ↔ layout.Accepts dchecks fields

theorem CaseMeets.of_failed {layout : FieldLayout} {result : Except ReadFault Instruction}
    (failed : result = .error .failed) (inside : dchecks = true ∨ layout.count ≤ fields.length)
    (refused : ¬layout.Accepts dchecks fields) : CaseMeets dchecks fields layout result := by
  rw [failed]
  exact ⟨iff_of_true (fun same => nomatch same) inside,
    iff_of_false (fun ⟨_, same⟩ => nomatch same) refused⟩

theorem CaseMeets.of_ok {layout : FieldLayout} {result : Except ReadFault Instruction}
    {instruction : Instruction} (made : result = .ok instruction)
    (inside : layout.count ≤ fields.length) (accepts : layout.Accepts dchecks fields) :
    CaseMeets dchecks fields layout result := by
  rw [made]
  exact ⟨iff_of_true (fun same => nomatch same) (.inr inside), iff_of_true ⟨_, rfl⟩ accepts⟩

theorem CaseMeets.of_outOfRange {layout : FieldLayout} {result : Except ReadFault Instruction}
    (left : result = .error .outOfRange) (release : dchecks = false)
    (outside : ¬layout.count ≤ fields.length) (refused : ¬layout.Accepts dchecks fields) :
    CaseMeets dchecks fields layout result := by
  rw [left, release] at *
  refine ⟨iff_of_false (fun inside => inside rfl) ?_,
    iff_of_false (fun ⟨_, same⟩ => nomatch same) refused⟩
  rintro (debug | inside)
  · cases debug
  · exact outside inside

theorem ok_then {α β : Type} {result : Except ReadFault α} {x : α} (made : result = .ok x)
    (next : α → Except ReadFault β) : (result >>= next) = next x := by
  rw [made]
  rfl

theorem error_then {α β : Type} {result : Except ReadFault α} {fault : ReadFault}
    (failed : result = .error fault) (next : α → Except ReadFault β) :
    (result >>= next) = .error fault := by
  rw [failed]
  rfl

theorem fixedCase_meets (make : (Fin count → Index) → Instruction) :
    CaseMeets dchecks fields (.fixed count) (fixedCase dchecks count fields make) := by
  unfold fixedCase
  by_cases passes : dchecks = true → fields.length = count
  · rw [ok_then (dcheck_of_holds passes)]
    by_cases inside : count ≤ fields.length
    · rw [ok_then (firstFields_ok inside)]
      exact .of_ok rfl inside ⟨inside, passes⟩
    · have release : dchecks = false :=
        Bool.eq_false_iff.mpr fun debug => inside (passes debug).ge
      rw [error_then (firstFields_error inside)]
      exact .of_outOfRange rfl release inside fun accepts => inside accepts.1
  · have debug : dchecks = true := by
      push Not at passes
      exact passes.1
    rw [error_then (dcheck_of_fails passes)]
    exact .of_failed rfl (.inl debug) fun accepts => passes accepts.2

theorem openCase_meets (make : (Fin count → Index) → Instruction) :
    CaseMeets dchecks fields (.openEnded count) (openCase dchecks count fields make) := by
  unfold openCase
  by_cases inside : count ≤ fields.length
  · rw [ok_then (dcheck_of_holds fun _ => inside), ok_then (firstFields_ok inside)]
    exact .of_ok rfl inside inside
  · by_cases debug : dchecks = true
    · rw [error_then (dcheck_of_fails fun passes => inside (passes debug))]
      exact .of_failed rfl (.inl debug) inside
    · rw [ok_then (dcheck_of_holds fun isDebug => absurd isDebug debug),
        error_then (firstFields_error inside)]
      exact .of_outOfRange rfl (Bool.eq_false_iff.mpr debug) inside inside

theorem arrayCase_meets {counter : Fin count} {newArray : Bool} (small : count < 2 ^ 63)
    (make : (Fin count → Index) → Registers → Instruction) :
    CaseMeets dchecks fields (.array count counter newArray)
      (arrayCase dchecks count counter newArray fields make) := by
  unfold arrayCase
  by_cases inside : count ≤ fields.length
  · obtain ⟨field, first, isCounter⟩ : ∃ field, firstFields count fields = .ok field ∧
        fields[counter.val]? = some (field counter) :=
      ⟨_, firstFields_ok inside, List.getElem?_eq_getElem (counter.isLt.trans_le inside)⟩
    rw [ok_then (dcheck_of_holds fun _ => inside), ok_then first]
    generalize field counter = cnt at isCounter ⊢
    have start : (BitVec.ofNat 64 count).toNat < 2 ^ 63 :=
      (BitVec.toNat_ofNat _ _ ▸ Nat.mod_le ..).trans_lt small
    obtain ⟨extracts, stays⟩ := readFields_spec fields (BitVec.ofNat 64 count) cnt start
    by_cases passes : dchecks = true → fields.length = count + cnt.toNat
    · rw [ok_then (dcheck_of_holds passes)]
      cases result : readFields fields (BitVec.ofNat 64 count) cnt with
      | error fault =>
        have failed : fault = .failed := by
          cases fault with
          | failed => rfl
          | outOfRange => exact absurd result stays
        refine .of_failed ?_ (.inr inside) ?_
        · rw [failed]
          rfl
        · rintro ⟨other, isOther, -, -, fits, -⟩
          cases isCounter.symm.trans isOther
          obtain ⟨args, made⟩ := extracts.mpr fits
          rw [result] at made
          cases made
      | ok args =>
        have fits := extracts.mp ⟨args, result⟩
        by_cases negative : newArray = true ∧ cnt.toInt < 0
        · refine .of_failed (if_pos negative) (.inr inside) ?_
          rintro ⟨other, isOther, -, -, -, nonnegative⟩
          cases isCounter.symm.trans isOther
          exact nonnegative negative
        · exact .of_ok (if_neg negative) inside ⟨cnt, isCounter, inside, passes, fits, negative⟩
    · rw [error_then (dcheck_of_fails passes)]
      refine .of_failed rfl (.inr inside) ?_
      rintro ⟨other, isOther, -, accepts, -⟩
      cases isCounter.symm.trans isOther
      exact passes accepts
  · have refused : ¬FieldLayout.Accepts dchecks fields (.array count counter newArray) :=
      fun ⟨_, _, enough, _⟩ => inside enough
    by_cases debug : dchecks = true
    · rw [error_then (dcheck_of_fails fun passes => inside (passes debug))]
      exact .of_failed rfl (.inl debug) refused
    · rw [ok_then (dcheck_of_holds fun isDebug => absurd isDebug debug),
        error_then (firstFields_error inside)]
      exact .of_outOfRange rfl (Bool.eq_false_iff.mpr debug) inside refused

theorem readInstruction_meets (dchecks : Bool) (opcode : Opcode) (fields : List Index) :
    CaseMeets dchecks fields opcode.layout (readInstruction dchecks opcode fields) := by
  cases opcode with
  | AllocStorage => exact openCase_meets _
  | InvokePacked => exact arrayCase_meets (by decide) _
  | AllocTensor => exact arrayCase_meets (by decide) _
  | AllocADT => exact arrayCase_meets (by decide) _
  | AllocClosure => exact arrayCase_meets (by decide) _
  | Invoke => exact arrayCase_meets (by decide) _
  | InvokeClosure => exact arrayCase_meets (by decide) _
  | _ => exact fixedCase_meets _

end Instructions

section Code

open FaultReader

variable {dchecks : Bool} {dmlc : DmlcStream} {hashCombine : BitVec 64 → Index → BitVec 64}
  {fresh : Nat → UInt8}

/-- The instructions of a function stay inside where their records fit, and are all read where none
is refused. -/
theorem loadInstructions_spec (dchecks : Bool) (dmlc : DmlcStream)
    (hashCombine : BitVec 64 → Index → BitVec 64) (numFuncs count : Nat) (stream : Bytes) :
    let records := instructionRecords dchecks dmlc hashCombine count stream
    ((loadInstructions dchecks dmlc hashCombine count).Safe stream ↔
        ∀ record ∈ records.1, record.Fits dchecks numFuncs) ∧
      ∀ rest, (∃ instructions,
        loadInstructions dchecks dmlc hashCombine count stream = .ok (instructions, rest)) ↔
          records.2 = some rest := by
  induction count generalizing stream with
  | zero =>
    refine ⟨iff_of_true (safe_pure _ _) (List.forall_mem_nil _), fun rest => ?_⟩
    constructor
    · rintro ⟨instructions, same⟩
      cases same
      rfl
    · intro same
      cases same
      exact ⟨[], rfl⟩
  | succ count ih =>
    rw [loadInstructions, safe_ofReader_bind]
    unfold instructionRecords
    cases read : readRecord dmlc hashCombine stream with
    | none =>
      refine ⟨iff_of_true (fun _ _ same => nomatch same) (List.forall_mem_nil _),
        fun rest => iff_of_false ?_ (fun same => nomatch same)⟩
      rintro ⟨instructions, loaded⟩
      obtain ⟨record, after, same, -⟩ := bind_eq_ok.mp loaded
      rw [ofReader_eq_ok, read] at same
      cases same
    | some found =>
      obtain ⟨⟨opcode, fields⟩, after⟩ := found
      obtain ⟨inside, accepted⟩ := readInstruction_meets dchecks opcode fields
      obtain ⟨safe, ends⟩ := ih after
      have next : (∀ record rest, some ((opcode, fields), after) = some (record, rest) →
          (ofExcept (readInstruction dchecks record.1 record.2) >>= fun instruction => do
            let others ← loadInstructions dchecks dmlc hashCombine count
            pure (instruction :: others)).Safe rest) ↔
          readInstruction dchecks opcode fields ≠ .error .outOfRange ∧
            (opcode.layout.Accepts dchecks fields →
              (loadInstructions dchecks dmlc hashCombine count).Safe after) := by
        constructor
        · intro each
          obtain ⟨here, behind⟩ := safe_bind.mp (each _ _ rfl)
          refine ⟨safe_ofExcept.mp here, fun accepts => ?_⟩
          obtain ⟨instruction, made⟩ := accepted.mpr accepts
          exact (safe_bind.mp (behind instruction after (ofExcept_eq_ok.mpr ⟨made, rfl⟩))).1
        · rintro ⟨here, behind⟩ record rest same
          cases same
          refine safe_bind.mpr ⟨safe_ofExcept.mpr here, fun instruction last made => ?_⟩
          obtain ⟨isMade, rfl⟩ := ofExcept_eq_ok.mp made
          exact safe_bind.mpr ⟨behind (accepted.mp ⟨instruction, isMade⟩),
            fun _ _ _ => safe_pure _ _⟩
      rw [next, inside]
      dsimp only
      by_cases accepts : opcode.layout.Accepts dchecks fields
      · rw [if_pos accepts, List.forall_mem_cons, safe]
        refine ⟨and_congr_right fun _ => imp_iff_right accepts, fun rest => ?_⟩
        rw [← ends rest]
        constructor
        · rintro ⟨instructions, loaded⟩
          obtain ⟨record, left, same, decoded⟩ := bind_eq_ok.mp loaded
          rw [ofReader_eq_ok, read] at same
          cases same
          obtain ⟨instruction, after, made, following⟩ := bind_eq_ok.mp decoded
          obtain ⟨-, rfl⟩ := ofExcept_eq_ok.mp made
          obtain ⟨others, final, isLoaded, last⟩ := bind_eq_ok.mp following
          cases last
          exact ⟨others, isLoaded⟩
        · rintro ⟨others, loaded⟩
          obtain ⟨instruction, made⟩ := accepted.mpr accepts
          refine ⟨instruction :: others, bind_eq_ok.mpr ⟨_, after, ofReader_eq_ok.mpr read, ?_⟩⟩
          refine bind_eq_ok.mpr ⟨instruction, after, ofExcept_eq_ok.mpr ⟨made, rfl⟩, ?_⟩
          exact bind_eq_ok.mpr ⟨others, rest, loaded, rfl⟩
      · rw [if_neg accepts]
        refine ⟨?_, fun rest => iff_of_false ?_ (fun same => nomatch same)⟩
        · rw [List.forall_mem_singleton]
          exact and_iff_left fun yes => absurd yes accepts
        · rintro ⟨instructions, loaded⟩
          obtain ⟨record, left, same, decoded⟩ := bind_eq_ok.mp loaded
          rw [ofReader_eq_ok, read] at same
          cases same
          obtain ⟨instruction, after, made, -⟩ := bind_eq_ok.mp decoded
          exact accepts (accepted.mp ⟨instruction, (ofExcept_eq_ok.mp made).1⟩)

theorem place_isSome (info : VMFunctionSerializer) (globalMap : Table)
    (instructions : List Instruction) :
    (info.place globalMap instructions).map Prod.snd = info.index globalMap := by
  unfold VMFunctionSerializer.place VMFunctionSerializer.index VMFunction.make
  by_cases sized : info.params.length = info.paramDeviceIndexes.length
  · rw [dif_pos sized, if_pos sized]
    cases globalMap.lookup info.name with
    | none => rfl
    | some index =>
      by_cases below : index.toNat ≤ globalMap.length
      · simp [below, Option.filter]
      · simp [below, Option.filter]
  · rw [dif_neg sized, if_neg sized]
    rfl

theorem storeFunction_spec (functions : List VMFunction) (func : VMFunction) (index : Index) :
    (storeFunction functions func index ≠ .error .outOfRange ↔ index.toNat < functions.length) ∧
      ∀ stored, storeFunction functions func index = .ok stored →
        stored.length = functions.length := by
  unfold storeFunction
  by_cases inside : index.toNat < functions.length
  · rw [if_pos inside]
    refine ⟨iff_of_true (fun same => nomatch same) inside, fun stored same => ?_⟩
    cases same
    exact List.length_set
  · rw [if_neg inside]
    exact ⟨iff_of_false (fun stays => stays rfl) inside, fun _ same => nomatch same⟩

theorem readFunctions_spec (dchecks : Bool) (dmlc : DmlcStream)
    (hashCombine : BitVec 64 → Index → BitVec 64) (globalMap : Table) (count : Nat) (functions : List VMFunction)
    (stream : Bytes) :
    (readFunctions dchecks dmlc hashCombine globalMap count functions).Safe stream ↔
      ∀ record ∈ codeRecords dchecks dmlc hashCombine globalMap count stream,
        record.Fits dchecks functions.length := by
  induction count generalizing functions stream with
  | zero => exact iff_of_true (safe_pure _ _) (List.forall_mem_nil _)
  | succ count ih =>
    rw [readFunctions, safe_ofReader_bind]
    unfold codeRecords
    cases read : readFunctionInfo dmlc stream with
    | none => exact iff_of_true (fun _ _ same => nomatch same) (List.forall_mem_nil _)
    | some found =>
      obtain ⟨info, body⟩ := found
      obtain ⟨safe, ends⟩ := loadInstructions_spec dchecks dmlc hashCombine functions.length
        info.numInstructions.toNat body
      have next : (∀ header opened, some (info, body) = some (header, opened) →
          (loadInstructions dchecks dmlc hashCombine header.numInstructions.toNat >>=
            fun instructions => do
              let placed ← ofReader (Reader.ofOption (header.place globalMap instructions))
              let stored ← FaultReader.ofExcept (storeFunction functions placed.1 placed.2)
              readFunctions dchecks dmlc hashCombine globalMap count stored).Safe opened) ↔
          (loadInstructions dchecks dmlc hashCombine info.numInstructions.toNat).Safe body ∧
            ∀ rest, (instructionRecords dchecks dmlc hashCombine info.numInstructions.toNat
                body).2 = some rest → ∀ index, info.index globalMap = some index →
              ∀ record ∈ CodeRecord.function index ::
                codeRecords dchecks dmlc hashCombine globalMap count rest,
                record.Fits dchecks functions.length := by
        constructor
        · intro each
          obtain ⟨here, behind⟩ := safe_bind.mp (each info body rfl)
          refine ⟨here, fun rest left index isIndex => ?_⟩
          obtain ⟨instructions, loaded⟩ := (ends rest).mpr left
          have placed := place_isSome info globalMap instructions
          rw [isIndex] at placed
          obtain ⟨⟨func, other⟩, isPlaced, rfl⟩ := Option.map_eq_some_iff.mp placed
          have found : Reader.ofOption (info.place globalMap instructions) rest =
              some ((func, other), rest) := by
            rw [isPlaced]
            rfl
          obtain ⟨stays, following⟩ := safe_bind.mp
            (safe_ofReader_bind.mp (behind instructions rest loaded) _ _ found)
          have inside := (storeFunction_spec functions func other).1.mp (safe_ofExcept.mp stays)
          have stored := following _ rest (ofExcept_eq_ok.mpr ⟨if_pos inside, rfl⟩)
          rw [ih, List.length_set] at stored
          exact List.forall_mem_cons.mpr ⟨inside, stored⟩
        · rintro ⟨here, behind⟩ header opened same
          cases same
          refine safe_bind.mpr ⟨here, fun instructions rest loaded => ?_⟩
          refine safe_ofReader_bind.mpr fun placed last found => ?_
          have isPlaced : info.place globalMap instructions = some placed ∧ rest = last := by
            unfold Reader.ofOption at found
            obtain ⟨other, isOther, same⟩ := Option.map_eq_some_iff.mp found
            cases same
            exact ⟨isOther, rfl⟩
          obtain ⟨isPlaced, rfl⟩ := isPlaced
          have isIndex := place_isSome info globalMap instructions
          rw [isPlaced] at isIndex
          obtain ⟨inside, others⟩ := List.forall_mem_cons.mp
            (behind rest ((ends rest).mp ⟨instructions, loaded⟩) placed.2 isIndex.symm)
          obtain ⟨stays, length⟩ := storeFunction_spec functions placed.1 placed.2
          refine safe_bind.mpr ⟨safe_ofExcept.mpr (stays.mpr inside), fun stored left made => ?_⟩
          obtain ⟨isStored, rfl⟩ := ofExcept_eq_ok.mp made
          rw [ih, length stored isStored]
          exact others
      rw [next, safe]
      dsimp only
      cases left : (instructionRecords dchecks dmlc hashCombine info.numInstructions.toNat
          body).2 with
      | none =>
        exact and_iff_left fun rest same => nomatch same
      | some rest =>
        cases isIndex : info.index globalMap with
        | none => exact and_iff_left fun _ _ index same => nomatch same
        | some index =>
          dsimp only
          rw [List.forall_mem_append]
          apply and_congr_right
          intro _
          constructor
          · intro each
            exact each rest rfl index rfl
          · intro each other same later isLater
            cases same
            cases isLater
            exact each

theorem readExecutable_safe_iff (dchecks : Bool) (dmlc : DmlcStream)
    (hashCombine : BitVec 64 → Index → BitVec 64) (fresh : Nat → UInt8) (maxSize : Nat)
    (code : Bytes) :
    (readExecutable dchecks dmlc hashCombine fresh maxSize).Safe code ↔
      RecordsFit dchecks dmlc hashCombine fresh maxSize code := by
  unfold readExecutable RecordsFit
  rw [safe_ofReader_bind]
  apply forall_congr'
  intro exec
  apply forall_congr'
  intro stream
  apply imp_congr_right
  intro _
  rw [safe_bind, and_iff_left fun _ _ _ => safe_pure _ _]
  unfold readCodeSection
  rw [safe_ofReader_bind]
  apply forall_congr'
  intro size
  apply forall_congr'
  intro body
  apply imp_congr_right
  intro _
  rw [safe_ofReader_bind]
  have functions := readFunctions_spec dchecks dmlc hashCombine exec.globalMap size.toNat
    (List.replicate size.toNat .empty) body
  rw [List.length_replicate] at functions
  rw [← functions]
  unfold Reader.check
  constructor
  · intro each fits
    exact each () body (if_pos fits)
  · intro each _ rest found
    by_cases fits : size.toNat ≤ maxSize
    · rw [if_pos fits] at found
      cases found
      exact each fits
    · rw [if_neg fits] at found
      cases found

theorem loadsRobustly_iff_safe (maxSize : Nat) (code : Bytes) :
    LoadsRobustly dchecks dmlc hashCombine fresh maxSize code ↔
      (readExecutable dchecks dmlc hashCombine fresh maxSize).Safe code := by
  unfold LoadsRobustly Safe
  cases readExecutable dchecks dmlc hashCombine fresh maxSize code with
  | ok found => exact iff_of_true (.inr ⟨found.1, found.2, rfl⟩) (fun same => nomatch same)
  | error fault =>
    cases fault with
    | failed => exact iff_of_true (.inl rfl) (fun same => nomatch same)
    | outOfRange =>
      apply iff_of_false
      · rintro (same | ⟨exec, rest, same⟩)
        · cases same
        · cases same
      · exact fun stays => stays rfl

end Code

/-- The function `b` of the table `a`, `b`. -/
def strayFunction : VMFunction := ⟨[98], [], [], 0, [], VMFunction.empty.sized⟩

def strayCode (dmlc : DmlcStream) (hashCombine : BitVec 64 → Index → BitVec 64) : Bytes :=
  saveHeader dmlc ++ ((dmlc.vector dmlc.device).write [.cpu] ++ (dmlc.uint32.write 0 ++
    ((dmlc.vector dmlc.string).write [[97], [98]] ++
      ((dmlc.uint64.write 0 ++ ([] ++ (dmlc.vector dmlc.uint64).write [])) ++
        ((dmlc.vector dmlc.string).write [] ++ (dmlc.attrs.write [] ++
          (dmlc.uint64.write 1 ++ saveFunction dmlc hashCombine strayFunction)))))))

end Tvm.Vm
