import Tvm.Crt.FuncRegistry

/-!
# Handles of modules and of functions

The table of modules of `crt_runtime_api.c`.  A handle is the value of a pointer of at least 32 bits:
a tagged module index, or a tagged module index before a tagged function index.  `none` is a read
outside of the table, of a module that is null, or of names without an end.
-/

namespace Tvm.Crt

open Tvm.Lib

/-- `TVM_CRT_MAX_REGISTERED_MODULES`, as in every configuration. -/
def maxRegisteredModules : Nat := 2

def globalFuncModuleIndex : Nat := maxRegisteredModules

def timeEvaluatorModuleIndex : Nat := 0x7fff

/-- `index | 0x8000` of a `uint16_t`. -/
def tagIndex (index : Nat) : Nat := index ||| 0x8000

/-- `index & ~0x8000` of a `uint16_t`. -/
def untagIndex (index : Nat) : Nat := index &&& 0x7fff

abbrev CString := {bytes : Bytes // (0 : UInt8) ∉ bytes}

structure TabulatedRegistry (mem : Memory) (fuel : Nat) where
  registry : FuncRegistry
  names : List Bytes
  count : getNumFuncs mem registry = names.length
  holds : Holds mem (registry.names + 2) (nameBytes names ++ [0])
  valid : ∀ name ∈ names, ValidName name
  fueled : (nameBytes names).length < fuel

/-- What `TVMAPIErrorf` is called with. -/
inductive ApiError where
  | invalidModuleHandle (moduleIndex : Nat)
  | invalidModuleIndex (moduleIndex : Nat)
  | unregisteredModule (moduleIndex : Nat)
  | invalidFunctionIndex (functionIndex : Nat)
  | registeringSystemLib
  deriving DecidableEq

/-- What a call returns, or which function it goes on to with which resource. -/
inductive CallResult where
  | zero
  | handle (handle : Nat)
  | tableFull
  | apiError (error : ApiError)
  | registryError (error : RegistryError)
  | timeEvaluator (functionIndex : Nat)
  | invoked (func : Nat) (resourceHandle : Option FuncRegistry)
  deriving DecidableEq

def moduleHandleUninitialized (width : Nat) : Nat := 256 ^ width - 1

def encodeModuleHandle (moduleIndex : Nat) : Nat := tagIndex moduleIndex

def encodeFunctionHandle (moduleIndex functionIndex : Nat) : Nat :=
  (tagIndex moduleIndex <<< 16) ||| tagIndex functionIndex

def moduleIndexOf (handle : Nat) : Nat := untagIndex (handle % 2 ^ 16)

section Runtime

variable (mem : Memory) (fuel width : Nat)

/-- `registered_modules`, `global_func_registry` and `system_lib_handle`. -/
structure CrtRuntime where
  registeredModules : Fin maxRegisteredModules → Option (TabulatedRegistry mem fuel)
  globalFuncRegistry : TabulatedRegistry mem fuel
  systemLibHandle : Nat

/-- A call, or what `SystemLibraryCreate` does where it is invoked. -/
inductive CrtCall where
  | modCreateFromCModule (mod : Option (TabulatedRegistry mem fuel))
  | modFree (mod : Nat)
  | modGetFunction (mod : Nat) (funcName : CString)
  | funcGetGlobal (name : CString)
  | funcCall (funcHandle : Nat)
  | systemLibraryCreate (systemLib : Option (TabulatedRegistry mem fuel))

def findFunction (moduleIndex : Nat) (registry : FuncRegistry) (name : CString) :
    Option CallResult := do
  let found ← lookup mem fuel registry name
  match found with
  | .error error => some (.registryError error)
  | .ok functionIndex => some (.handle (encodeFunctionHandle moduleIndex functionIndex))

def invoke (registry : FuncRegistry) (functionIndex : Nat) (resourceHandle : Option FuncRegistry) :
    CallResult :=
  match getByIndex width mem registry functionIndex with
  | .error _ => .apiError (.invalidFunctionIndex functionIndex)
  | .ok func => .invoked func resourceHandle

/-- The function at the index of a name is the one at the index without the bit of the tag. -/
def IndexFits (registry : FuncRegistry) (name : CString) : Prop :=
  ∀ functionIndex, lookup mem fuel registry name = some (.ok functionIndex) →
    functionIndex < 0x8000 ∨
      readFunc width mem registry (functionIndex - 0x8000) = readFunc width mem registry functionIndex

variable {mem fuel}

namespace CrtRuntime

/-- `registered_modules[moduleIndex]`, where that is inside of the table. -/
def readModule (st : CrtRuntime mem fuel) (moduleIndex : Nat) :
    Option (Option (TabulatedRegistry mem fuel)) :=
  if inside : moduleIndex < maxRegisteredModules then some (st.registeredModules ⟨moduleIndex, inside⟩)
  else none

/-- `registered_modules[moduleIndex] = mod`. -/
def writeModule (st : CrtRuntime mem fuel) (moduleIndex : Nat)
    (mod : Option (TabulatedRegistry mem fuel)) : Option (CrtRuntime mem fuel) :=
  if inside : moduleIndex < maxRegisteredModules then
    some { st with registeredModules := Function.update st.registeredModules ⟨moduleIndex, inside⟩ mod }
  else none

def decodeModuleHandle (st : CrtRuntime mem fuel) (handle : Nat) : Option (Except ApiError Nat) :=
  let moduleIndex := moduleIndexOf handle
  if moduleIndex > maxRegisteredModules then some (.error (.invalidModuleHandle moduleIndex))
  else do
    let mod ← st.readModule moduleIndex
    match mod with
    | none => some (.error (.invalidModuleHandle moduleIndex))
    | some _ => some (.ok moduleIndex)

/-- `DecodeFunctionHandle`, with the indices of the module and of the function. -/
def decodeFunctionHandle (st : CrtRuntime mem fuel) (handle : Nat) :
    Option (Except ApiError (Nat × Nat)) :=
  let moduleIndex := untagIndex ((handle >>> 16) % 2 ^ 16)
  let functionIndex := (handle % 2 ^ 32 &&& 0xffff7fff) % 2 ^ 16
  if moduleIndex = timeEvaluatorModuleIndex then some (.ok (moduleIndex, functionIndex))
  else if moduleIndex > globalFuncModuleIndex then some (.error (.invalidModuleIndex moduleIndex))
  else if moduleIndex < globalFuncModuleIndex then do
    let mod ← st.readModule moduleIndex
    match mod with
    | none => some (.error (.unregisteredModule moduleIndex))
    | some _ => some (.ok (moduleIndex, functionIndex))
  else some (.ok (moduleIndex, functionIndex))

/-- The loop of `TVMModCreateFromCModule` over the indices from `idx` on. -/
def createFrom (st : CrtRuntime mem fuel) (mod : Option (TabulatedRegistry mem fuel)) :
    Nat → Nat → Option (CrtRuntime mem fuel × CallResult)
  | 0, _ => some (st, .tableFull)
  | left + 1, idx => do
      let found ← st.readModule idx
      match found with
      | none => do
          let st ← st.writeModule idx mod
          some (st, .handle (encodeModuleHandle idx))
      | some _ => createFrom st mod left (idx + 1)

def modCreateFromCModule (st : CrtRuntime mem fuel) (mod : Option (TabulatedRegistry mem fuel)) :
    Option (CrtRuntime mem fuel × CallResult) :=
  st.createFrom mod maxRegisteredModules 0

def modFree (st : CrtRuntime mem fuel) (mod : Nat) : Option (CrtRuntime mem fuel × CallResult) :=
  if mod = st.systemLibHandle ∧ st.systemLibHandle ≠ moduleHandleUninitialized width then
    some (st, .zero)
  else do
    let decoded ← st.decodeModuleHandle mod
    match decoded with
    | .error error => some (st, .apiError error)
    | .ok moduleIndex => do
        let st ← st.writeModule moduleIndex none
        some (st, .zero)

def modGetFunction (st : CrtRuntime mem fuel) (mod : Nat) (funcName : CString) : Option CallResult := do
  let decoded ← st.decodeModuleHandle mod
  match decoded with
  | .error error => some (.apiError error)
  | .ok moduleIndex => do
      let mod ← st.readModule moduleIndex
      let mod ← mod
      findFunction mem fuel moduleIndex mod.registry funcName

def funcGetGlobal (st : CrtRuntime mem fuel) (name : CString) : Option CallResult := do
  let result ← findFunction mem fuel globalFuncModuleIndex st.globalFuncRegistry.registry name
  if result = .registryError .functionNameNotFound then some (.handle 0) else some result

/-- `TVMFuncCall`, up to the function that it calls. -/
def funcCall (st : CrtRuntime mem fuel) (funcHandle : Nat) : Option CallResult := do
  let decoded ← st.decodeFunctionHandle funcHandle
  match decoded with
  | .error error => some (.apiError error)
  | .ok (moduleIndex, functionIndex) =>
    if moduleIndex = timeEvaluatorModuleIndex then some (.timeEvaluator functionIndex)
    else if moduleIndex = globalFuncModuleIndex then
      some (invoke mem width st.globalFuncRegistry.registry functionIndex none)
    else do
      let mod ← st.readModule moduleIndex
      let mod ← mod
      some (invoke mem width mod.registry functionIndex (some mod.registry))

def systemLibraryCreate (st : CrtRuntime mem fuel) (systemLib : Option (TabulatedRegistry mem fuel)) :
    Option (CrtRuntime mem fuel × CallResult) :=
  if st.systemLibHandle = moduleHandleUninitialized width then do
    let (st, result) ← st.modCreateFromCModule systemLib
    match result with
    | .handle handle => some ({ st with systemLibHandle := handle }, .handle handle)
    | _ => some (st, .apiError .registeringSystemLib)
  else some (st, .handle st.systemLibHandle)

def call (st : CrtRuntime mem fuel) : CrtCall mem fuel → Option (CrtRuntime mem fuel × CallResult)
  | .modCreateFromCModule mod => st.modCreateFromCModule mod
  | .modFree mod => st.modFree width mod
  | .modGetFunction mod funcName => (st.modGetFunction mod funcName).map (st, ·)
  | .funcGetGlobal name => (st.funcGetGlobal name).map (st, ·)
  | .funcCall funcHandle => (st.funcCall width funcHandle).map (st, ·)
  | .systemLibraryCreate systemLib => st.systemLibraryCreate width systemLib

def initialized (globalFuncRegistry : TabulatedRegistry mem fuel) : CrtRuntime mem fuel where
  registeredModules _ := none
  globalFuncRegistry := globalFuncRegistry
  systemLibHandle := moduleHandleUninitialized width

/-- A handle that a lookup returns calls, in every state in which its module is registered, the
function at the index that was looked up. -/
def LookupFaithful (st : CrtRuntime mem fuel) : CrtCall mem fuel → CallResult → Prop
  | .modGetFunction mod funcName, .handle handle =>
    ∀ (found : TabulatedRegistry mem fuel) (functionIndex),
    st.readModule (moduleIndexOf mod) = some (some found) →
    lookup mem fuel found.registry funcName = some (.ok functionIndex) →
    ∀ later : CrtRuntime mem fuel, later.readModule (moduleIndexOf mod) = some (some found) →
      later.funcCall width handle =
        some (.invoked (readFunc width mem found.registry functionIndex) (some found.registry))
  | .funcGetGlobal name, .handle handle => ∀ functionIndex,
      lookup mem fuel st.globalFuncRegistry.registry name = some (.ok functionIndex) →
      ∀ later : CrtRuntime mem fuel, later.globalFuncRegistry = st.globalFuncRegistry →
        later.funcCall width handle =
          some (.invoked (readFunc width mem st.globalFuncRegistry.registry functionIndex) none)
  | _, _ => True

/-- Every call of a sequence stays inside, and returns faithful handles. -/
def Safe (st : CrtRuntime mem fuel) : List (CrtCall mem fuel) → Prop
  | [] => True
  | call :: rest => ∃ next result, st.call width call = some (next, result) ∧
      st.LookupFaithful width call result ∧ Safe next rest

/-- A call with no module handle of the index behind the table, and with no function whose index has
the bit of the tag, unless the one at the index without that bit is the same. -/
def Fits (st : CrtRuntime mem fuel) : CrtCall mem fuel → Prop
  | .modFree mod => moduleIndexOf mod ≠ maxRegisteredModules
  | .modGetFunction mod funcName => moduleIndexOf mod ≠ maxRegisteredModules ∧
      ∀ found : TabulatedRegistry mem fuel, st.readModule (moduleIndexOf mod) = some (some found) →
        IndexFits mem fuel width found.registry funcName
  | .funcGetGlobal name => IndexFits mem fuel width st.globalFuncRegistry.registry name
  | .modCreateFromCModule _ | .funcCall _ | .systemLibraryCreate _ => True

/-- Every call of a sequence fits the table as it is then. -/
def AllFit (st : CrtRuntime mem fuel) : List (CrtCall mem fuel) → Prop
  | [] => True
  | call :: rest => st.Fits width call ∧
      ∀ next result, st.call width call = some (next, result) → AllFit next rest

end CrtRuntime

end Runtime

theorem untagIndex_eq (index : Nat) : untagIndex index = index % 2 ^ 15 :=
  Nat.and_two_pow_sub_one_eq_mod index 15

theorem untagIndex_tagIndex (index : Nat) : untagIndex (tagIndex index) = untagIndex index := by
  rw [untagIndex, tagIndex, Nat.and_or_distrib_right]
  exact Nat.or_zero _

theorem tagIndex_lt {index : Nat} (small : index < 2 ^ 16) : tagIndex index < 2 ^ 16 :=
  Nat.or_lt_two_pow small (by decide)

theorem encodeFunctionHandle_eq {moduleIndex functionIndex : Nat} (small : functionIndex < 2 ^ 16) :
    encodeFunctionHandle moduleIndex functionIndex =
      tagIndex moduleIndex * 2 ^ 16 + tagIndex functionIndex := by
  rw [encodeFunctionHandle, ← Nat.shiftLeft_add_eq_or_of_lt (tagIndex_lt small), Nat.shiftLeft_eq]

theorem moduleIndex_encodeFunctionHandle {moduleIndex functionIndex : Nat}
    (module_small : moduleIndex < 2 ^ 15) (small : functionIndex < 2 ^ 16) :
    untagIndex ((encodeFunctionHandle moduleIndex functionIndex >>> 16) % 2 ^ 16) = moduleIndex := by
  have tagged := tagIndex_lt small
  have tagged_module : tagIndex moduleIndex < 2 ^ 16 := tagIndex_lt (by omega)
  rw [encodeFunctionHandle_eq small, Nat.shiftRight_eq_div_pow, Nat.add_comm,
    Nat.add_mul_div_right _ _ (by decide), Nat.div_eq_of_lt tagged, Nat.zero_add,
    Nat.mod_eq_of_lt tagged_module, untagIndex_tagIndex, untagIndex_eq, Nat.mod_eq_of_lt module_small]

theorem functionIndex_encodeFunctionHandle {moduleIndex functionIndex : Nat}
    (small : functionIndex < 2 ^ 16) :
    (encodeFunctionHandle moduleIndex functionIndex % 2 ^ 32 &&& 0xffff7fff) % 2 ^ 16 =
      functionIndex % 2 ^ 15 := by
  have tagged := tagIndex_lt small
  rw [Nat.and_mod_two_pow, Nat.mod_mod_of_dvd _ (pow_dvd_pow 2 (by decide : 16 ≤ 32)),
    encodeFunctionHandle_eq small, Nat.mul_add_mod_of_lt tagged]
  change untagIndex (tagIndex functionIndex) = functionIndex % 2 ^ 15
  rw [untagIndex_tagIndex, untagIndex_eq]

section Lemmas

variable {mem : Memory} {fuel width : Nat}

theorem scanNames_cases (idx : Nat) {fuel regNamePtr : Nat} {names : List Bytes} {name : Bytes}
    (holds : Holds mem regNamePtr (nameBytes names ++ [0])) (valid : ∀ n ∈ names, ValidName n)
    (noNul : (0 : UInt8) ∉ name) (enough : (nameBytes names).length < fuel) :
    (∃ i < names.length, scanNames mem name fuel regNamePtr idx = some (.found (idx + i))) ∨
      ∃ behind, scanNames mem name fuel regNamePtr idx = some (.end behind (idx + names.length)) := by
  induction names generalizing fuel regNamePtr idx with
  | nil => exact .inr ⟨_, scanNames_end holds valid noNul List.not_mem_nil enough⟩
  | cons stored names ih =>
    obtain ⟨fuel, rfl⟩ := Nat.exists_eq_succ_of_ne_zero (Nat.ne_zero_of_lt enough)
    obtain ⟨first, later⟩ := List.forall_mem_cons.mp valid
    obtain ⟨step, rest, less⟩ := scanNames_cons idx holds first noNul (Nat.le_of_lt_succ enough)
    rw [step]
    by_cases same : stored = name
    · rw [if_pos same]
      exact .inl ⟨0, Nat.succ_pos _, rfl⟩
    · rw [if_neg same, List.length_cons]
      rcases ih (idx + 1) rest later less with ⟨i, below, found⟩ | ⟨behind, ended⟩
      · exact .inl ⟨i + 1, Nat.succ_lt_succ below, found.trans (by rw [Nat.add_assoc, Nat.add_comm 1])⟩
      · exact .inr ⟨behind, ended.trans (by rw [Nat.add_assoc, Nat.add_comm 1])⟩

theorem TabulatedRegistry.small (table : TabulatedRegistry mem fuel) : table.names.length < 2 ^ 16 := by
  rw [← table.count, getNumFuncs]
  exact (leValue_lt _).trans_eq (by rw [load_length]; rfl)

theorem TabulatedRegistry.lookup_cases (table : TabulatedRegistry mem fuel) (name : CString) :
    (∃ functionIndex < table.names.length,
      lookup mem fuel table.registry name = some (.ok functionIndex)) ∨
      lookup mem fuel table.registry name = some (.error .functionNameNotFound) := by
  rw [lookup]
  rcases scanNames_cases 0 table.holds table.valid name.2 table.fueled with
    ⟨i, below, found⟩ | ⟨behind, ended⟩
  · refine .inl ⟨i, below, ?_⟩
    rw [get0thFunctionName, found, Nat.zero_add]
    exact congrArg (fun index => some (Except.ok index)) (Nat.mod_eq_of_lt (below.trans table.small))
  · rw [get0thFunctionName, ended]
    exact .inr rfl

theorem TabulatedRegistry.invoke_eq (table : TabulatedRegistry mem fuel) {functionIndex : Nat}
    (below : functionIndex < table.names.length) (resourceHandle : Option FuncRegistry) :
    invoke mem width table.registry functionIndex resourceHandle =
      .invoked (readFunc width mem table.registry functionIndex) resourceHandle := by
  rw [invoke, getByIndex, table.count, if_neg (not_le.mpr below)]

namespace CrtRuntime

variable {st next : CrtRuntime mem fuel} {moduleIndex functionIndex : Nat}
  {found : TabulatedRegistry mem fuel}

theorem readModule_lt (read : ∃ mod, st.readModule moduleIndex = some mod) :
    moduleIndex < maxRegisteredModules := by
  obtain ⟨mod, read⟩ := read
  rw [readModule] at read
  split at read
  · assumption
  · cases read

theorem exists_readModule (st : CrtRuntime mem fuel) (inside : moduleIndex < maxRegisteredModules) :
    ∃ mod, st.readModule moduleIndex = some mod :=
  ⟨_, dif_pos inside⟩

theorem decodeFunctionHandle_module (registered : st.readModule moduleIndex = some (some found))
    (small : functionIndex < 2 ^ 16) :
    st.decodeFunctionHandle (encodeFunctionHandle moduleIndex functionIndex) =
      some (.ok (moduleIndex, functionIndex % 2 ^ 15)) := by
  have inside : moduleIndex < globalFuncModuleIndex := readModule_lt ⟨_, registered⟩
  have evaluator : moduleIndex ≠ timeEvaluatorModuleIndex := (inside.trans (by decide)).ne
  have module_small : moduleIndex < 2 ^ 15 := inside.trans (by decide)
  rw [decodeFunctionHandle, moduleIndex_encodeFunctionHandle module_small small,
    functionIndex_encodeFunctionHandle small, if_neg evaluator, if_neg (not_lt.mpr inside.le),
    if_pos inside, registered]
  rfl

theorem decodeFunctionHandle_global (small : functionIndex < 2 ^ 16) :
    st.decodeFunctionHandle (encodeFunctionHandle globalFuncModuleIndex functionIndex) =
      some (.ok (globalFuncModuleIndex, functionIndex % 2 ^ 15)) := by
  rw [decodeFunctionHandle, moduleIndex_encodeFunctionHandle (by decide) small,
    functionIndex_encodeFunctionHandle small]
  rfl

theorem funcCall_module (registered : st.readModule moduleIndex = some (some found))
    (below : functionIndex < found.names.length) :
    st.funcCall width (encodeFunctionHandle moduleIndex functionIndex) =
      some (.invoked (readFunc width mem found.registry (functionIndex % 2 ^ 15))
        (some found.registry)) := by
  have inside : moduleIndex < globalFuncModuleIndex := readModule_lt ⟨_, registered⟩
  have evaluator : moduleIndex ≠ timeEvaluatorModuleIndex := (inside.trans (by decide)).ne
  have cut := (Nat.mod_le functionIndex (2 ^ 15)).trans_lt below
  rw [funcCall, decodeFunctionHandle_module registered (below.trans found.small)]
  change (if moduleIndex = timeEvaluatorModuleIndex then _ else _) = _
  rw [if_neg evaluator, if_neg inside.ne, registered]
  exact congrArg some (found.invoke_eq cut _)

theorem funcCall_global (below : functionIndex < st.globalFuncRegistry.names.length) :
    st.funcCall width (encodeFunctionHandle globalFuncModuleIndex functionIndex) =
      some (.invoked (readFunc width mem st.globalFuncRegistry.registry (functionIndex % 2 ^ 15))
        none) := by
  have cut := (Nat.mod_le functionIndex (2 ^ 15)).trans_lt below
  rw [funcCall, decodeFunctionHandle_global (below.trans st.globalFuncRegistry.small)]
  exact congrArg some (st.globalFuncRegistry.invoke_eq cut _)

theorem funcCall_inside (width : Nat) (st : CrtRuntime mem fuel) (handle : Nat) :
    ∃ result, st.funcCall width handle = some result := by
  have decoded : ∃ result, st.decodeFunctionHandle handle = some result ∧
      ∀ moduleIndex functionIndex, result = .ok (moduleIndex, functionIndex) →
        moduleIndex = timeEvaluatorModuleIndex ∨ moduleIndex = globalFuncModuleIndex ∨
          ∃ found, st.readModule moduleIndex = some (some found) := by
    rw [decodeFunctionHandle]
    generalize untagIndex ((handle >>> 16) % 2 ^ 16) = moduleIndex
    generalize (handle % 2 ^ 32 &&& 0xffff7fff) % 2 ^ 16 = functionIndex
    split
    · rename_i evaluator
      exact ⟨_, rfl, fun _ _ same => by cases same; exact .inl evaluator⟩
    · split
      · exact ⟨_, rfl, fun _ _ same => by cases same⟩
      · rename_i below
        split
        · rename_i inside
          obtain ⟨mod, read⟩ := exists_readModule st inside
          rw [read]
          cases mod with
          | none => exact ⟨_, rfl, fun _ _ same => by cases same⟩
          | some found => exact ⟨_, rfl, fun _ _ same => by cases same; exact .inr (.inr ⟨found, read⟩)⟩
        · rename_i behind
          have isGlobal : moduleIndex = globalFuncModuleIndex :=
            le_antisymm (not_lt.mp below) (not_lt.mp behind)
          exact ⟨_, rfl, fun _ _ same => by cases same; exact .inr (.inl isGlobal)⟩
  obtain ⟨result, run, sound⟩ := decoded
  rw [funcCall, run]
  cases result with
  | error error => exact ⟨_, rfl⟩
  | ok indices =>
    obtain ⟨moduleIndex, functionIndex⟩ := indices
    change ∃ result, (if moduleIndex = timeEvaluatorModuleIndex then _ else _) = some result
    split
    · exact ⟨_, rfl⟩
    · split
      · exact ⟨_, rfl⟩
      · rename_i evaluator isGlobal
        rcases sound moduleIndex functionIndex rfl with same | same | ⟨found, registered⟩
        · exact absurd same evaluator
        · exact absurd same isGlobal
        · rw [registered]
          exact ⟨_, rfl⟩

theorem decodeModuleHandle_cases (st : CrtRuntime mem fuel) (handle : Nat) :
    (moduleIndexOf handle = maxRegisteredModules ∧ st.decodeModuleHandle handle = none) ∨
    (st.decodeModuleHandle handle = some (.error (.invalidModuleHandle (moduleIndexOf handle))) ∧
      moduleIndexOf handle ≠ maxRegisteredModules ∧
      ∀ found, st.readModule (moduleIndexOf handle) ≠ some (some found)) ∨
    ∃ found, st.decodeModuleHandle handle = some (.ok (moduleIndexOf handle)) ∧
      st.readModule (moduleIndexOf handle) = some (some found) := by
  rw [decodeModuleHandle]
  generalize moduleIndexOf handle = moduleIndex
  rcases Nat.lt_trichotomy moduleIndex maxRegisteredModules with inside | same | beyond
  · rw [if_neg (not_lt.mpr inside.le)]
    obtain ⟨mod, read⟩ := exists_readModule st inside
    rw [read]
    cases mod with
    | none => exact .inr (.inl ⟨rfl, inside.ne, fun found registered => by cases registered⟩)
    | some found => exact .inr (.inr ⟨found, rfl, rfl⟩)
  · subst same
    exact .inl ⟨rfl, rfl⟩
  · rw [if_pos beyond]
    refine .inr (.inl ⟨rfl, beyond.ne', fun found registered => ?_⟩)
    exact beyond.not_gt (readModule_lt ⟨_, registered⟩)

theorem writeModule_inside (st : CrtRuntime mem fuel) (inside : moduleIndex < maxRegisteredModules)
    (mod : Option (TabulatedRegistry mem fuel)) : ∃ next, st.writeModule moduleIndex mod = some next ∧
      next.systemLibHandle = st.systemLibHandle :=
  ⟨_, dif_pos inside, rfl⟩

theorem createFrom_inside (st : CrtRuntime mem fuel) (mod : Option (TabulatedRegistry mem fuel))
    {left idx : Nat} (inside : idx + left ≤ maxRegisteredModules) : ∃ next result,
      st.createFrom mod left idx = some (next, result) ∧ next.systemLibHandle = st.systemLibHandle ∧
      ∀ handle, result = .handle handle →
        ∃ i < maxRegisteredModules, handle = encodeModuleHandle i := by
  induction left generalizing idx with
  | zero => exact ⟨st, .tableFull, rfl, rfl, fun handle other => by cases other⟩
  | succ left ih =>
    have below : idx < maxRegisteredModules := by omega
    obtain ⟨there, read⟩ := exists_readModule st below
    rw [createFrom, read]
    cases there with
    | none =>
      obtain ⟨next, run, same⟩ := writeModule_inside st below mod
      refine ⟨next, .handle (encodeModuleHandle idx), ?_, same, fun handle is => ⟨idx, below, ?_⟩⟩
      · change (st.writeModule idx mod).bind _ = _
        rw [run]
        rfl
      · cases is
        rfl
    | some found => exact ih (by omega)

theorem moduleIndexOf_encodeModuleHandle (inside : moduleIndex < maxRegisteredModules) :
    moduleIndexOf (encodeModuleHandle moduleIndex) = moduleIndex := by
  have small : moduleIndex < 2 ^ 15 := inside.trans (by decide)
  rw [moduleIndexOf, encodeModuleHandle, Nat.mod_eq_of_lt (tagIndex_lt (small.trans (by decide))),
    untagIndex_tagIndex, untagIndex_eq, Nat.mod_eq_of_lt small]

/-- The handle of the system library, if there is one, has an index of the table. -/
def Sound (width : Nat) (st : CrtRuntime mem fuel) : Prop :=
  st.systemLibHandle = moduleHandleUninitialized width ∨
    moduleIndexOf st.systemLibHandle < maxRegisteredModules

theorem Sound.of_same (sound : st.Sound width) (same : next.systemLibHandle = st.systemLibHandle) :
    next.Sound width := by
  rw [Sound, same]
  exact sound

theorem Sound.systemLibraryCreate (sound : st.Sound width)
    (systemLib : Option (TabulatedRegistry mem fuel)) :
    ∃ next result, st.systemLibraryCreate width systemLib = some (next, result) ∧ next.Sound width := by
  rw [CrtRuntime.systemLibraryCreate]
  split
  · obtain ⟨next, result, run, same, handles⟩ :=
      createFrom_inside st systemLib (Nat.zero_add maxRegisteredModules).le
    rw [modCreateFromCModule, run]
    cases result with
    | handle handle =>
      obtain ⟨i, inside, rfl⟩ := handles handle rfl
      exact ⟨_, _, rfl, .inr ((moduleIndexOf_encodeModuleHandle inside).trans_lt inside)⟩
    | _ => exact ⟨_, _, rfl, sound.of_same same⟩
  · exact ⟨st, _, rfl, sound⟩

theorem Sound.modFree_iff (sound : st.Sound width) (mod : Nat) :
    (∃ next result, st.modFree width mod = some (next, result)) ↔
      moduleIndexOf mod ≠ maxRegisteredModules := by
  rw [modFree]
  split
  · rename_i system
    refine ⟨fun _ => ?_, fun _ => ⟨st, .zero, rfl⟩⟩
    rw [system.1]
    exact (sound.resolve_left system.2).ne
  · rcases decodeModuleHandle_cases st mod with
      ⟨behind, run⟩ | ⟨run, other, -⟩ | ⟨found, run, registered⟩
    · rw [run]
      exact ⟨fun ⟨_, _, other⟩ => (by cases other), fun other => absurd behind other⟩
    · rw [run]
      exact ⟨fun _ => other, fun _ => ⟨_, _, rfl⟩⟩
    · have inside := readModule_lt ⟨_, registered⟩
      obtain ⟨next, write, -⟩ := writeModule_inside st inside none
      rw [run]
      refine ⟨fun _ => inside.ne, fun _ => ⟨next, .zero, ?_⟩⟩
      change (st.writeModule (moduleIndexOf mod) none).bind _ = _
      rw [write]
      rfl

theorem Sound.modFree (sound : st.Sound width) {mod : Nat} {result : CallResult}
    (run : st.modFree width mod = some (next, result)) : next.Sound width := by
  rw [CrtRuntime.modFree] at run
  split at run
  · cases run
    exact sound
  · obtain ⟨decoded, -, run⟩ := Option.bind_eq_some_iff.mp run
    cases decoded with
    | error error =>
      cases run
      exact sound
    | ok moduleIndex =>
      obtain ⟨written, write, run⟩ := Option.bind_eq_some_iff.mp run
      cases run
      rw [writeModule] at write
      split at write
      · cases write
        exact sound
      · cases write

theorem Sound.call (sound : st.Sound width) {call : CrtCall mem fuel} {result : CallResult}
    (run : st.call width call = some (next, result)) : next.Sound width := by
  cases call with
  | modCreateFromCModule mod =>
    obtain ⟨next', result', run', same, -⟩ :=
      createFrom_inside st mod (Nat.zero_add maxRegisteredModules).le
    cases run'.symm.trans run
    exact sound.of_same same
  | modFree mod => exact sound.modFree run
  | modGetFunction mod funcName =>
    obtain ⟨value, -, same⟩ := Option.map_eq_some_iff.mp run
    cases same
    exact sound
  | funcGetGlobal name =>
    obtain ⟨value, -, same⟩ := Option.map_eq_some_iff.mp run
    cases same
    exact sound
  | funcCall funcHandle =>
    obtain ⟨value, -, same⟩ := Option.map_eq_some_iff.mp run
    cases same
    exact sound
  | systemLibraryCreate systemLib =>
    obtain ⟨next', result', run', sound'⟩ := sound.systemLibraryCreate systemLib
    cases run'.symm.trans run
    exact sound'

theorem readFunc_mod_iff (registry : FuncRegistry) (small : functionIndex < 2 ^ 16) :
    readFunc width mem registry (functionIndex % 2 ^ 15) = readFunc width mem registry functionIndex ↔
      functionIndex < 0x8000 ∨
        readFunc width mem registry (functionIndex - 0x8000) =
          readFunc width mem registry functionIndex := by
  by_cases plain : functionIndex < 0x8000
  · have whole : functionIndex % 2 ^ 15 = functionIndex := Nat.mod_eq_of_lt plain
    rw [whole]
    exact ⟨fun _ => .inl plain, fun _ => rfl⟩
  · have cut : functionIndex % 2 ^ 15 = functionIndex - 0x8000 := by omega
    rw [cut]
    exact ⟨.inr, fun either => either.resolve_left plain⟩

theorem findFunction_found {registry : FuncRegistry} {name : CString}
    (isIndex : lookup mem fuel registry name = some (.ok functionIndex)) :
    findFunction mem fuel moduleIndex registry name =
      some (.handle (encodeFunctionHandle moduleIndex functionIndex)) := by
  rw [findFunction, isIndex]
  rfl

theorem modGetFunction_registered {mod : Nat} {funcName : CString}
    (registered : st.readModule moduleIndex = some (some found))
    (decoded : st.decodeModuleHandle mod = some (.ok moduleIndex)) :
    st.modGetFunction mod funcName = findFunction mem fuel moduleIndex found.registry funcName := by
  rw [modGetFunction, decoded]
  change (st.readModule moduleIndex).bind _ = _
  rw [registered]
  rfl

theorem modGetFunction_iff (mod : Nat) (funcName : CString) :
    (∃ result, st.modGetFunction mod funcName = some result ∧
      st.LookupFaithful width (.modGetFunction mod funcName) result) ↔
      st.Fits width (.modGetFunction mod funcName) := by
  rcases decodeModuleHandle_cases st mod with
    ⟨behind, run⟩ | ⟨run, other, unregistered⟩ | ⟨found, run, registered⟩
  · rw [modGetFunction, run]
    exact ⟨fun ⟨_, other, _⟩ => (by cases other), fun fits => absurd behind fits.1⟩
  · rw [modGetFunction, run]
    refine ⟨fun _ => ⟨other, fun found registered => ?_⟩, fun _ => ⟨_, rfl, trivial⟩⟩
    exact absurd registered (unregistered found)
  · have other := (readModule_lt ⟨_, registered⟩).ne
    rw [modGetFunction_registered registered run]
    rcases found.lookup_cases funcName with ⟨functionIndex, below, isIndex⟩ | notFound
    · rw [findFunction_found isIndex]
      have called (later : CrtRuntime mem fuel)
          (there : later.readModule (moduleIndexOf mod) = some (some found)) :=
        @funcCall_module _ _ width _ _ _ _ there below
      constructor
      · rintro ⟨result, run, faithful⟩
        cases run
        refine ⟨other, fun found' registered' functionIndex' isIndex' => ?_⟩
        cases registered.symm.trans registered'
        cases isIndex.symm.trans isIndex'
        have same := (called st registered).symm.trans
          (faithful found functionIndex registered isIndex st registered)
        apply (readFunc_mod_iff _ (below.trans found.small)).mp
        exact (CallResult.invoked.inj (Option.some.inj same)).1
      · rintro ⟨-, fits⟩
        refine ⟨_, rfl, ?_⟩
        intro found' functionIndex' registered' isIndex' later there
        cases registered.symm.trans registered'
        cases isIndex.symm.trans isIndex'
        rw [called later there, (readFunc_mod_iff _ (below.trans found.small)).mpr
          (fits found registered functionIndex isIndex)]
    · rw [findFunction, notFound]
      refine ⟨fun _ => ⟨other, ?_⟩, fun _ => ⟨_, rfl, trivial⟩⟩
      intro found' registered' functionIndex isIndex
      cases registered.symm.trans registered'
      cases notFound.symm.trans isIndex

theorem funcGetGlobal_iff (name : CString) :
    (∃ result, st.funcGetGlobal name = some result ∧
      st.LookupFaithful width (.funcGetGlobal name) result) ↔ st.Fits width (.funcGetGlobal name) := by
  rcases st.globalFuncRegistry.lookup_cases name with ⟨functionIndex, below, isIndex⟩ | notFound
  · have run : st.funcGetGlobal name =
        some (.handle (encodeFunctionHandle globalFuncModuleIndex functionIndex)) := by
      rw [funcGetGlobal, findFunction_found isIndex]
      rfl
    rw [run]
    have small := below.trans st.globalFuncRegistry.small
    constructor
    · rintro ⟨result, same, faithful⟩ functionIndex' isIndex'
      cases same
      cases isIndex.symm.trans isIndex'
      have same := (funcCall_global below).symm.trans (faithful functionIndex isIndex st rfl)
      exact (readFunc_mod_iff _ small).mp (CallResult.invoked.inj (Option.some.inj same)).1
    · intro fits
      refine ⟨_, rfl, ?_⟩
      intro functionIndex' isIndex' later there
      cases isIndex.symm.trans isIndex'
      rw [← (readFunc_mod_iff _ small).mpr (fits functionIndex isIndex), ← there]
      exact funcCall_global (there ▸ below)
  · rw [funcGetGlobal, findFunction, notFound]
    constructor
    · intro _ functionIndex isIndex
      cases notFound.symm.trans isIndex
    · intro _
      refine ⟨_, rfl, ?_⟩
      intro functionIndex isIndex
      cases notFound.symm.trans isIndex

theorem Sound.call_iff (sound : st.Sound width) (call : CrtCall mem fuel) :
    (∃ next result, st.call width call = some (next, result) ∧ st.LookupFaithful width call result) ↔
      st.Fits width call := by
  have pure_call : ∀ {run : Option CallResult} {P : CallResult → Prop},
      (∃ next result, run.map (st, ·) = some (next, result) ∧ P result) ↔
        ∃ result, run = some result ∧ P result := by
    intro run P
    cases run with
    | none => exact ⟨fun ⟨_, _, other, _⟩ => (by cases other), fun ⟨_, other, _⟩ => (by cases other)⟩
    | some result =>
      constructor
      · rintro ⟨next, result', same, holds⟩
        cases same
        exact ⟨result, rfl, holds⟩
      · rintro ⟨result', same, holds⟩
        cases same
        exact ⟨st, result, rfl, holds⟩
  cases call with
  | modCreateFromCModule mod =>
    obtain ⟨next, result, run, -, -⟩ :=
      createFrom_inside st mod (Nat.zero_add maxRegisteredModules).le
    exact ⟨fun _ => trivial, fun _ => ⟨next, result, run, trivial⟩⟩
  | modFree mod =>
    refine Iff.trans ?_ (sound.modFree_iff mod)
    exact ⟨fun ⟨next, result, run, _⟩ => ⟨next, result, run⟩,
      fun ⟨next, result, run⟩ => ⟨next, result, run, trivial⟩⟩
  | modGetFunction mod funcName => exact pure_call.trans (modGetFunction_iff mod funcName)
  | funcGetGlobal name => exact pure_call.trans (funcGetGlobal_iff name)
  | funcCall funcHandle =>
    obtain ⟨result, run⟩ := funcCall_inside width st funcHandle
    exact pure_call.trans ⟨fun _ => trivial, fun _ => ⟨result, run, trivial⟩⟩
  | systemLibraryCreate systemLib =>
    obtain ⟨next, result, run, -⟩ := sound.systemLibraryCreate systemLib
    exact ⟨fun _ => trivial, fun _ => ⟨next, result, run, trivial⟩⟩

theorem Sound.safe_iff (sound : st.Sound width) (calls : List (CrtCall mem fuel)) :
    st.Safe width calls ↔ st.AllFit width calls := by
  induction calls generalizing st with
  | nil => exact Iff.rfl
  | cons call rest ih =>
    constructor
    · rintro ⟨next, result, run, faithful, others⟩
      refine ⟨(sound.call_iff call).mp ⟨next, result, run, faithful⟩, fun next' result' run' => ?_⟩
      cases run.symm.trans run'
      exact (ih (sound.call run)).mp others
    · rintro ⟨fits, others⟩
      obtain ⟨next, result, run, faithful⟩ := (sound.call_iff call).mpr fits
      exact ⟨next, result, run, faithful,
        (ih (sound.call run)).mpr (others next result run)⟩

end CrtRuntime

end Lemmas

open CrtRuntime

/-- Over every sequence of calls after the runtime has been initialized. -/
theorem moduleHandles_safe_iff {mem : Memory} {fuel : Nat} (width : Nat)
    (globalFuncRegistry : TabulatedRegistry mem fuel) (calls : List (CrtCall mem fuel)) :
    (initialized width globalFuncRegistry).Safe width calls ↔
      (initialized width globalFuncRegistry).AllFit width calls :=
  Sound.safe_iff (.inl rfl) calls

def emptyRegistry : TabulatedRegistry (fun _ => 0) 1 where
  registry := ⟨0, 3⟩
  names := []
  count := rfl
  holds := rfl
  valid _ is := absurd is List.not_mem_nil
  fueled := Nat.one_pos

/-- The first index behind the table is not refused. -/
theorem modFree_reads_behind : ¬(initialized 8 emptyRegistry).Safe 8 [.modFree 0x8002] := by
  rintro ⟨next, result, run, -⟩
  have decoded : (initialized 8 emptyRegistry).modFree 8 0x8002 = none := rfl
  cases decoded.symm.trans run

end Tvm.Crt
