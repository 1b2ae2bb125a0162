import Tvm.Lib.Memory

/-!
# The function registry

`func_registry.c`.  The buffer of a registry starts with the number of functions and their
names, each with a NUL behind it and one more NUL at the end; the function pointers are
at the end of the buffer, in the order of the names.  Pointers have `width` bytes.
-/

namespace Tvm.Crt

open Tvm.Lib

inductive RegistryError where
  | noError
  | functionNameNotFound
  | functionIndexInvalid
  | functionRegistryFull
  | functionAlreadyDefined
  | bufferTooSmall
  deriving DecidableEq, Repr

abbrev PackedCFunc (width : Nat) := Fin (256 ^ width)

/-- The addresses of the names and of the function pointers. -/
structure FuncRegistry where
  names : Nat
  funcs : Nat
  deriving DecidableEq, Repr

structure MutableFuncRegistry where
  registry : FuncRegistry
  maxFunctions : Nat
  deriving DecidableEq, Repr

/-- The first loop of `strcmp_cursor`; `name` is without its NUL. -/
def compareName (mem : Memory) : Nat → Bytes → Int × Nat
  | cursor, [] => ((mem cursor).toNat, cursor)
  | cursor, n :: name =>
    let returnValue : Int := (mem cursor).toNat - n.toNat
    if n = 0 ∨ mem cursor = 0 then (returnValue, cursor)
    else if returnValue = 0 then compareName mem (cursor + 1) name
    else (returnValue, cursor + 1)

/-- The second loop of `strcmp_cursor`. -/
def skipName (mem : Memory) : Nat → Nat → Option Nat
  | 0, _ => none
  | fuel + 1, cursor => if mem cursor = 0 then some cursor else skipName mem fuel (cursor + 1)

def strcmpCursor (mem : Memory) (fuel cursor : Nat) (name : Bytes) : Option (Int × Nat) :=
  let compared := compareName mem cursor name
  (skipName mem fuel compared.2).map fun cursor => (compared.1, cursor)

inductive Scan where
  | found (idx : Nat)
  | end (regNamePtr idx : Nat)
  deriving DecidableEq, Repr

/-- The loop over the names in `TVMFuncRegistry_Lookup` and `TVMMutableFuncRegistry_Set`. -/
def scanNames (mem : Memory) (name : Bytes) : Nat → Nat → Nat → Option Scan
  | 0, _, _ => none
  | fuel + 1, regNamePtr, idx =>
    if mem regNamePtr = 0 then some (.end regNamePtr idx)
    else
      match strcmpCursor mem fuel regNamePtr name with
      | none => none
      | some (returnValue, regNamePtr) =>
        if returnValue = 0 then some (.found idx)
        else scanNames mem name fuel (regNamePtr + 1) (idx + 1)

def getNumFuncs (mem : Memory) (reg : FuncRegistry) : Nat := leValue (load mem reg.names 2)

/-- The count is a `uint16_t`. -/
def setNumFuncs (mem : Memory) (reg : FuncRegistry) (numFuncs : Nat) : Memory :=
  store mem reg.names (leBytes 2 numFuncs)

def get0thFunctionName (reg : FuncRegistry) : Nat := reg.names + 2

/-- The index is a `uint16_t`. -/
def lookup (mem : Memory) (fuel : Nat) (reg : FuncRegistry) (name : Bytes) :
    Option (Except RegistryError Nat) :=
  (scanNames mem name fuel (get0thFunctionName reg) 0).map fun
    | .found idx => .ok (idx % 2 ^ 16)
    | .end _ _ => .error .functionNameNotFound

def readFunc (width : Nat) (mem : Memory) (reg : FuncRegistry) (idx : Nat) : Nat :=
  leValue (load mem (reg.funcs + idx * width) width)

def writeFunc {width : Nat} (mem : Memory) (reg : FuncRegistry) (idx : Nat)
    (func : PackedCFunc width) : Memory :=
  store mem (reg.funcs + idx * width) (leBytes width func)

def getByIndex (width : Nat) (mem : Memory) (reg : FuncRegistry) (functionIndex : Nat) :
    Except RegistryError Nat :=
  if getNumFuncs mem reg ≤ functionIndex then .error .functionIndexInvalid
  else .ok (readFunc width mem reg functionIndex)

def lookupFunc (width : Nat) (mem : Memory) (fuel : Nat) (reg : FuncRegistry) (name : Bytes) :
    Option (Except RegistryError Nat) :=
  (lookup mem fuel reg name).map fun
    | .ok functionIndex => getByIndex width mem reg functionIndex
    | .error error => .error error

def averageFuncEntrySizeBytes (width : Nat) : Nat := 10 + 1 + width

def create (width : Nat) (mem : Memory) (buffer bufferSizeBytes : Nat) :
    Except RegistryError (MutableFuncRegistry × Memory) :=
  if bufferSizeBytes < averageFuncEntrySizeBytes width then .error .bufferTooSmall
  else
    let maxFunctions := bufferSizeBytes / averageFuncEntrySizeBytes width
    .ok (⟨⟨buffer, buffer + bufferSizeBytes - maxFunctions * width⟩, maxFunctions⟩,
      store mem buffer [0, 0, 0])

def set {width : Nat} (mem : Memory) (fuel : Nat) (reg : MutableFuncRegistry) (name : Bytes)
    (func : PackedCFunc width) (override : Int) : Option (RegistryError × Memory) :=
  match scanNames mem name fuel (get0thFunctionName reg.registry) 0 with
  | none => none
  | some (.found idx) =>
    if override = 0 then some (.functionAlreadyDefined, mem)
    else some (.noError, writeFunc mem reg.registry idx func)
  | some (.end regNamePtr idx) =>
    if reg.registry.funcs < regNamePtr then some (.functionRegistryFull, mem)
    else
      let namesBytesRemaining := reg.registry.funcs - regNamePtr
      if reg.maxFunctions ≤ idx ∨ namesBytesRemaining < name.length + 1 then
        some (.functionRegistryFull, mem)
      else
        let named := store mem regNamePtr (name ++ [0])
        let ended := store named (regNamePtr + name.length + 1) [0]
        let filled := writeFunc ended reg.registry idx func
        some (.noError,
          setNumFuncs filled reg.registry (getNumFuncs filled reg.registry + 1))

end Tvm.Crt

/-!
## The function registry is a bounded map

The names area always holds the names in the order of the function pointers, and ends
before the first function pointer as long as no name fills it without room for the second
NUL.
-/

namespace Tvm.Crt

open Tvm.Lib

structure ValidName (name : Bytes) : Prop where
  nonempty : name ≠ []
  no_nul : (0 : UInt8) ∉ name

def nameBytes (names : List Bytes) : Bytes := names.flatMap (· ++ [0])

@[simp] theorem nameBytes_nil : nameBytes [] = [] := rfl

@[simp] theorem nameBytes_cons (name : Bytes) (names : List Bytes) :
    nameBytes (name :: names) = name ++ 0 :: nameBytes names := by
  simp [nameBytes]

@[simp] theorem nameBytes_append (first second : List Bytes) :
    nameBytes (first ++ second) = nameBytes first ++ nameBytes second :=
  List.flatMap_append

theorem skipName_string {mem : Memory} {fuel cursor : Nat} {name : Bytes}
    (holds : Holds mem cursor (name ++ [0])) (noNul : (0 : UInt8) ∉ name)
    (enough : name.length < fuel) : skipName mem fuel cursor = some (cursor + name.length) := by
  induction name generalizing fuel cursor with
  | nil =>
    obtain ⟨fuel, rfl⟩ := Nat.exists_eq_succ_of_ne_zero (Nat.ne_zero_of_lt enough)
    have nul : mem cursor = 0 := (holds_cons.mp holds).1
    rw [skipName, if_pos nul]
    rfl
  | cons c rest ih =>
    obtain ⟨fuel, rfl⟩ := Nat.exists_eq_succ_of_ne_zero (Nat.ne_zero_of_lt enough)
    obtain ⟨first, later⟩ := holds_cons.mp holds
    obtain ⟨different, noNulRest⟩ := List.ne_and_not_mem_of_not_mem_cons noNul
    rw [skipName, first, if_neg different.symm, ih later noNulRest (Nat.lt_of_succ_lt_succ enough)]
    simp [Nat.add_assoc, Nat.add_comm 1]

theorem compareName_string {mem : Memory} {cursor : Nat} {stored name : Bytes}
    (holds : Holds mem cursor (stored ++ [0])) (noNul : (0 : UInt8) ∉ stored)
    (noNulName : (0 : UInt8) ∉ name) :
    ((compareName mem cursor name).1 = 0 ↔ stored = name) ∧
      ∃ before after, stored = before ++ after ∧
        (compareName mem cursor name).2 = cursor + before.length := by
  induction name generalizing cursor stored with
  | nil =>
    refine ⟨?_, [], stored, rfl, rfl⟩
    cases stored with
    | nil =>
      have nul : mem cursor = 0 := (holds_cons.mp holds).1
      simp [compareName, nul]
    | cons c rest =>
      have first : mem cursor = c := (holds_cons.mp holds).1
      have different := (List.ne_and_not_mem_of_not_mem_cons noNul).1
      have positive : c.toNat ≠ 0 := fun zero => different (UInt8.toNat.inj zero).symm
      simp [compareName, first, positive]
  | cons n name ih =>
    obtain ⟨differentN, noNulRest⟩ := List.ne_and_not_mem_of_not_mem_cons noNulName
    cases stored with
    | nil =>
      have nul : mem cursor = 0 := (holds_cons.mp holds).1
      have positive : n.toNat ≠ 0 := fun zero => differentN (UInt8.toNat.inj zero).symm
      refine ⟨?_, [], [], rfl, ?_⟩
      · simp [compareName, nul, positive]
      · simp [compareName, nul]
    | cons c rest =>
      obtain ⟨first, later⟩ := holds_cons.mp holds
      obtain ⟨differentC, noNulStored⟩ := List.ne_and_not_mem_of_not_mem_cons noNul
      have go : ¬(n = 0 ∨ mem cursor = 0) := by
        rw [first]
        exact fun either => either.elim differentN.symm differentC.symm
      rw [compareName, if_neg go, first]
      by_cases same : c = n
      · subst same
        obtain ⟨equal, before, after, split, cursorEq⟩ := ih later noNulStored noNulRest
        rw [if_pos (sub_self _)]
        refine ⟨by simpa using equal, c :: before, after, by rw [split, List.cons_append], ?_⟩
        rw [cursorEq, List.length_cons, Nat.add_assoc, Nat.add_comm 1]
      · have apart : (c.toNat : Int) - n.toNat ≠ 0 := by
          intro zero
          exact same (UInt8.toNat.inj (by omega))
        rw [if_neg apart]
        exact ⟨⟨fun zero => absurd zero apart, fun equal => absurd (List.cons.inj equal).1 same⟩,
          [c], rest, rfl, rfl⟩

theorem strcmpCursor_string (fuel : Nat) {mem : Memory} {cursor : Nat} {stored name : Bytes}
    (holds : Holds mem cursor (stored ++ [0])) (noNul : (0 : UInt8) ∉ stored)
    (noNulName : (0 : UInt8) ∉ name) (enough : stored.length < fuel) :
    ∃ returnValue, strcmpCursor mem fuel cursor name = some (returnValue, cursor + stored.length) ∧
      (returnValue = 0 ↔ stored = name) := by
  obtain ⟨equal, before, after, split, cursorEq⟩ := compareName_string holds noNul noNulName
  refine ⟨_, ?_, equal⟩
  subst split
  rw [List.append_assoc] at holds
  have rest := (holds_append.mp holds).2
  have noNulAfter : (0 : UInt8) ∉ after := fun inAfter => noNul (List.mem_append_right _ inAfter)
  rw [List.length_append] at enough
  rw [strcmpCursor, cursorEq, skipName_string rest noNulAfter (by omega)]
  simp [Nat.add_assoc]

theorem ValidName.head {mem : Memory} {address : Nat} {name rest : Bytes} (valid : ValidName name)
    (holds : Holds mem address (name ++ rest)) : mem address ≠ 0 := by
  cases name with
  | nil => exact absurd rfl valid.nonempty
  | cons c name =>
    rw [(holds_cons.mp holds).1]
    exact fun zero => valid.no_nul (zero ▸ List.mem_cons_self)

/-- One step of the scan: the first name is compared, then the scan goes on behind its NUL. -/
theorem scanNames_cons (idx : Nat) {mem : Memory} {fuel regNamePtr : Nat} {stored name : Bytes}
    {names : List Bytes} (holds : Holds mem regNamePtr (nameBytes (stored :: names) ++ [0]))
    (valid : ValidName stored) (noNul : (0 : UInt8) ∉ name)
    (enough : (nameBytes (stored :: names)).length ≤ fuel) :
    scanNames mem name (fuel + 1) regNamePtr idx =
        (if stored = name then some (.found idx)
        else scanNames mem name fuel (regNamePtr + stored.length + 1) (idx + 1)) ∧
      Holds mem (regNamePtr + stored.length + 1) (nameBytes names ++ [0]) ∧
      (nameBytes names).length < fuel := by
  rw [nameBytes_cons, List.length_append, List.length_cons] at enough
  rw [nameBytes_cons, List.append_assoc, List.cons_append] at holds
  obtain ⟨inName, nul, rest⟩ : _ ∧ mem (regNamePtr + stored.length) = 0 ∧ _ := by
    simpa only [holds_append, holds_cons] using holds
  have string : Holds mem regNamePtr (stored ++ [0]) := by
    simpa only [holds_append, holds_cons, holds_nil, and_true] using And.intro inName nul
  refine ⟨?_, ?_, by omega⟩
  · obtain ⟨returnValue, compared, equal⟩ :=
      strcmpCursor_string fuel string valid.no_nul noNul (by omega)
    rw [scanNames, if_neg (valid.head holds), compared]
    simp only [equal]
  · simpa only [holds_append, holds_cons, holds_nil] using rest

theorem scanNames_end {mem : Memory} {fuel regNamePtr idx : Nat} {names : List Bytes} {name : Bytes}
    (holds : Holds mem regNamePtr (nameBytes names ++ [0])) (valid : ∀ n ∈ names, ValidName n)
    (noNul : (0 : UInt8) ∉ name) (absent : name ∉ names)
    (enough : (nameBytes names).length < fuel) :
    scanNames mem name fuel regNamePtr idx =
      some (.end (regNamePtr + (nameBytes names).length) (idx + names.length)) := by
  obtain ⟨fuel, rfl⟩ := Nat.exists_eq_succ_of_ne_zero (Nat.ne_zero_of_lt enough)
  induction names generalizing fuel regNamePtr idx with
  | nil =>
    have nul : mem regNamePtr = 0 := (holds_cons.mp holds).1
    rw [scanNames, if_pos nul]
    rfl
  | cons stored names ih =>
    obtain ⟨first, later⟩ := List.forall_mem_cons.mp valid
    obtain ⟨different, absentLater⟩ := List.ne_and_not_mem_of_not_mem_cons absent
    obtain ⟨step, rest, less⟩ := scanNames_cons idx holds first noNul (Nat.le_of_lt_succ enough)
    obtain ⟨fuel, rfl⟩ := Nat.exists_eq_succ_of_ne_zero (Nat.ne_zero_of_lt less)
    rw [step, if_neg different.symm, ih rest later absentLater fuel less]
    simp only [nameBytes_cons, List.length_append, List.length_cons]
    congr 2 <;> omega

theorem scanNames_found (idx : Nat) {mem : Memory} {fuel regNamePtr i : Nat} {names : List Bytes}
    {name : Bytes} (holds : Holds mem regNamePtr (nameBytes names ++ [0]))
    (valid : ∀ n ∈ names, ValidName n) (nodup : names.Nodup) (isName : names[i]? = some name)
    (enough : (nameBytes names).length < fuel) :
    scanNames mem name fuel regNamePtr idx = some (.found (idx + i)) := by
  have inNames : name ∈ names := List.mem_of_getElem? isName
  have noNul := (valid name inNames).no_nul
  obtain ⟨fuel, rfl⟩ := Nat.exists_eq_succ_of_ne_zero (Nat.ne_zero_of_lt enough)
  induction names generalizing fuel regNamePtr idx i with
  | nil => cases inNames
  | cons stored names ih =>
    obtain ⟨first, later⟩ := List.forall_mem_cons.mp valid
    obtain ⟨fresh, nodupRest⟩ := List.nodup_cons.mp nodup
    obtain ⟨step, rest, less⟩ := scanNames_cons idx holds first noNul (Nat.le_of_lt_succ enough)
    obtain ⟨fuel, rfl⟩ := Nat.exists_eq_succ_of_ne_zero (Nat.ne_zero_of_lt less)
    cases i with
    | zero =>
      obtain rfl := Option.some.inj isName
      rw [step, if_pos rfl]
      rfl
    | succ i =>
      have inRest : name ∈ names := List.mem_of_getElem? isName
      have different : stored ≠ name := fun same => fresh (same ▸ inRest)
      rw [step, if_neg different, ih (idx + 1) rest later nodupRest isName inRest fuel less]
      congr 2
      omega

variable {width : Nat}

/-- The buffer of a registry: the function pointers end where it ends. -/
structure Layout (width : Nat) (reg : MutableFuncRegistry) (buffer size : Nat) : Prop where
  names : reg.registry.names = buffer
  funcs : reg.registry.funcs + reg.maxFunctions * width = buffer + size
  room : buffer + 3 ≤ reg.registry.funcs

/-- The memory holds these names and functions, in this order. -/
structure Represents (reg : MutableFuncRegistry) (mem : Memory)
    (entries : List (Bytes × PackedCFunc width)) : Prop where
  count : getNumFuncs mem reg.registry = entries.length
  small : entries.length < 2 ^ 16
  names : Holds mem (reg.registry.names + 2) (nameBytes (entries.map Prod.fst) ++ [0])
  funcs : ∀ (i : Nat) (name : Bytes) (func : PackedCFunc width), entries[i]? = some (name, func) →
    readFunc width mem reg.registry i = func
  nodup : (entries.map Prod.fst).Nodup
  valid : ∀ name ∈ entries.map Prod.fst, ValidName name
  apart : reg.registry.names + 2 + (nameBytes (entries.map Prod.fst)).length + 1 ≤ reg.registry.funcs
  bounded : entries.length ≤ reg.maxFunctions

theorem create_layout {mem mem' : Memory} {buffer size : Nat} {reg : MutableFuncRegistry}
    (created : create width mem buffer size = .ok (reg, mem')) :
    Layout width reg buffer size ∧ mem' = store mem buffer [0, 0, 0] := by
  unfold create at created
  split at created
  · cases created
  · rename_i large
    obtain ⟨rfl, rfl⟩ := Prod.mk.inj (Except.ok.inj created)
    have product := Nat.div_mul_le_self size (averageFuncEntrySizeBytes width)
    have positive : 1 ≤ size / averageFuncEntrySizeBytes width :=
      Nat.div_pos (not_lt.mp large) (Nat.lt_of_lt_of_le (Nat.succ_pos 10) (Nat.le_add_right 11 width))
    generalize size / averageFuncEntrySizeBytes width = count at product positive
    have split : count * averageFuncEntrySizeBytes width = count * 11 + count * width := by
      rw [averageFuncEntrySizeBytes, Nat.mul_add]
    exact ⟨⟨rfl, by simp only; omega, by simp only; omega⟩, rfl⟩

theorem Layout.represents_empty {reg : MutableFuncRegistry} {buffer size : Nat}
    (layout : Layout width reg buffer size) (mem : Memory) :
    Represents reg (store mem buffer [0, 0, 0]) ([] : List (Bytes × PackedCFunc width)) := by
  have zeros := holds_store mem buffer [0, 0, 0]
  simp only [holds_cons, holds_nil, and_true] at zeros
  refine ⟨?_, Nat.two_pow_pos 16, ?_, ?_, List.nodup_nil, ?_, ?_, Nat.zero_le _⟩
  · simp [getNumFuncs, layout.names, load, zeros.1, zeros.2.1, leValue]
  · simpa [layout.names] using zeros.2.2
  · intro i name func found
    cases found
  · exact fun _ membership => absurd membership List.not_mem_nil
  · rw [layout.names]
    exact layout.room

section

variable {reg : MutableFuncRegistry} {mem : Memory} {entries : List (Bytes × PackedCFunc width)}
  {buffer size fuel : Nat}

theorem Represents.enough (represents : Represents reg mem entries)
    (layout : Layout width reg buffer size) (fueled : size ≤ fuel) :
    (nameBytes (entries.map Prod.fst)).length < fuel := by
  have apart := represents.apart
  have funcs := layout.funcs
  have names := layout.names
  omega

theorem Represents.lookupFunc_mem (represents : Represents reg mem entries)
    (layout : Layout width reg buffer size) (fueled : size ≤ fuel) {name : Bytes}
    {func : PackedCFunc width} (registered : (name, func) ∈ entries) :
    lookupFunc width mem fuel reg.registry name = some (.ok func) := by
  obtain ⟨i, entry⟩ := List.getElem?_of_mem registered
  have isName : (entries.map Prod.fst)[i]? = some name := by rw [List.getElem?_map, entry]; rfl
  have found := scanNames_found 0 represents.names represents.valid represents.nodup isName
    (represents.enough layout fueled)
  have inside : i < entries.length := (List.getElem?_eq_some_iff.mp entry).1
  have noWrap : i % 2 ^ 16 = i := Nat.mod_eq_of_lt (lt_trans inside represents.small)
  rw [lookupFunc, lookup, get0thFunctionName, found]
  simp only [Option.map_some, Nat.zero_add, noWrap]
  rw [getByIndex, represents.count, if_neg (not_le.mpr inside), represents.funcs i name func entry]

theorem Represents.lookupFunc_not_mem (represents : Represents reg mem entries)
    (layout : Layout width reg buffer size) (fueled : size ≤ fuel) {name : Bytes}
    (noNul : (0 : UInt8) ∉ name) (absent : name ∉ entries.map Prod.fst) :
    lookupFunc width mem fuel reg.registry name = some (.error .functionNameNotFound) := by
  rw [lookupFunc, lookup, get0thFunctionName,
    scanNames_end represents.names represents.valid noNul absent (represents.enough layout fueled)]
  rfl

theorem readFunc_writeFunc (mem : Memory) (reg : FuncRegistry) (idx : Nat)
    (func : PackedCFunc width) : readFunc width (writeFunc mem reg idx func) reg idx = func := by
  have loaded := load_store_same mem (reg.funcs + idx * width) (leBytes width func)
  rw [leBytes_length] at loaded
  rw [readFunc, writeFunc, loaded, leValue_leBytes func.isLt]

theorem readFunc_writeFunc_ne {mem : Memory} {reg : FuncRegistry} {idx i : Nat}
    (different : i ≠ idx) (func : PackedCFunc width) :
    readFunc width (writeFunc mem reg idx func) reg i = readFunc width mem reg i := by
  have apart : i * width + width ≤ idx * width ∨ idx * width + width ≤ i * width := by
    rcases Nat.lt_or_gt_of_ne different with before | behind
    · exact .inl (Nat.succ_mul i width ▸ Nat.mul_le_mul_right width before)
    · exact .inr (Nat.succ_mul idx width ▸ Nat.mul_le_mul_right width behind)
  rw [readFunc, writeFunc, load_store_disjoint, readFunc]
  rw [leBytes_length]
  omega

theorem Layout.funcs_end (layout : Layout width reg buffer size) {idx : Nat}
    (inside : idx < reg.maxFunctions) :
    reg.registry.funcs + idx * width + width ≤ buffer + size := by
  have last : idx * width + width ≤ reg.maxFunctions * width :=
    Nat.succ_mul idx width ▸ Nat.mul_le_mul_right width inside
  have funcs := layout.funcs
  omega

theorem writeFunc_outside (layout : Layout width reg buffer size) {idx : Nat}
    (inside : idx < reg.maxFunctions) (func : PackedCFunc width) {a : Nat}
    (outside : a < reg.registry.funcs ∨ buffer + size ≤ a) :
    writeFunc mem reg.registry idx func a = mem a := by
  have last := layout.funcs_end inside
  refine store_outside ?_
  rw [leBytes_length]
  omega

theorem load_writeFunc {idx a count : Nat} (func : PackedCFunc width)
    (below : a + count ≤ reg.registry.funcs) :
    load (writeFunc mem reg.registry idx func) a count = load mem a count :=
  load_store_disjoint (.inl (le_trans below (Nat.le_add_right _ _)))

theorem Represents.writeFunc (represents : Represents reg mem entries) {i : Nat} {name : Bytes}
    {old : PackedCFunc width} (entry : entries[i]? = some (name, old)) (func : PackedCFunc width) :
    Represents reg (writeFunc mem reg.registry i func) (entries.set i (name, func)) := by
  have apart := represents.apart
  have sameNames : (entries.set i (name, func)).map Prod.fst = entries.map Prod.fst := by
    have isName : (entries.map Prod.fst)[i]? = some name := by rw [List.getElem?_map, entry]; rfl
    obtain ⟨inside, rfl⟩ := List.getElem?_eq_some_iff.mp isName
    rw [List.map_set, List.set_getElem_self]
  constructor
  · rw [getNumFuncs, load_writeFunc func (by omega), List.length_set]
    exact represents.count
  · rw [List.length_set]
    exact represents.small
  · rw [sameNames, Holds, load_writeFunc func (by simp; omega)]
    exact represents.names
  · intro j other func' found
    by_cases same : j = i
    · subst same
      rw [List.getElem?_set_self (List.getElem?_eq_some_iff.mp entry).1] at found
      obtain ⟨-, rfl⟩ := Prod.mk.inj (Option.some.inj found)
      exact readFunc_writeFunc mem reg.registry j func
    · rw [List.getElem?_set_ne (Ne.symm same)] at found
      rw [readFunc_writeFunc_ne same]
      exact represents.funcs j other func' found
  · rw [sameNames]
    exact represents.nodup
  · rw [sameNames]
    exact represents.valid
  · rw [sameNames]
    exact apart
  · rw [List.length_set]
    exact represents.bounded

/-- What adding a name writes: the name and its NUL, the second NUL, the function, and the
count. -/
def addFunc (mem : Memory) (reg : FuncRegistry) (regNamePtr idx : Nat) (name : Bytes)
    (func : PackedCFunc width) : Memory :=
  let named := store mem regNamePtr (name ++ [0])
  let ended := store named (regNamePtr + name.length + 1) [0]
  let filled := writeFunc ended reg idx func
  setNumFuncs filled reg (getNumFuncs filled reg + 1)

theorem Represents.addFunc (represents : Represents reg mem entries) {name : Bytes}
    (valid : ValidName name) (fresh : name ∉ entries.map Prod.fst)
    (free : entries.length < reg.maxFunctions) (small : entries.length + 1 < 2 ^ 16)
    (room : reg.registry.names + 2 + (nameBytes (entries.map Prod.fst)).length + name.length + 2 ≤
      reg.registry.funcs) (func : PackedCFunc width) :
    Represents reg (addFunc mem reg.registry
        (reg.registry.names + 2 + (nameBytes (entries.map Prod.fst)).length) entries.length name func)
      (entries ++ [(name, func)]) := by
  have apart := represents.apart
  have namesHold := (holds_append.mp represents.names).1
  set ptr := reg.registry.names + 2 + (nameBytes (entries.map Prod.fst)).length with isPtr
  set named := store mem ptr (name ++ [0]) with isNamed
  set ended := store named (ptr + name.length + 1) [0] with isEnded
  set filled := Tvm.Crt.writeFunc ended reg.registry entries.length func with isFilled
  have sameNames : (entries ++ [(name, func)]).map Prod.fst = entries.map Prod.fst ++ [name] := by simp
  have endedHolds : Holds ended (reg.registry.names + 2)
      (nameBytes (entries.map Prod.fst ++ [name]) ++ [0]) := by
    have old : Holds ended (reg.registry.names + 2) (nameBytes (entries.map Prod.fst)) :=
      (namesHold.store (.inl (by omega))).store (.inl (by omega))
    have new : Holds ended ptr (name ++ [0]) :=
      (holds_store mem ptr (name ++ [0])).store (.inl (by simp; omega))
    have last : Holds ended (ptr + name.length + 1) [0] := holds_store named _ [0]
    have split : nameBytes (entries.map Prod.fst ++ [name]) ++ [0] =
        nameBytes (entries.map Prod.fst) ++ ((name ++ [0]) ++ [0]) := by simp
    rw [split, holds_append, holds_append, List.length_append]
    exact ⟨old, new, last⟩
  have count : getNumFuncs filled reg.registry = entries.length := by
    rw [getNumFuncs, load_writeFunc func (by omega), load_store_disjoint (.inl (by omega)),
      load_store_disjoint (.inl (by omega))]
    exact represents.count
  have filledHolds : Holds filled (reg.registry.names + 2)
      (nameBytes (entries.map Prod.fst ++ [name]) ++ [0]) := by
    rw [Holds, load_writeFunc func (by simp; omega)]
    exact endedHolds
  -- the count lies below the names and the functions
  have final : Tvm.Crt.addFunc mem reg.registry ptr entries.length name func =
      store filled reg.registry.names (leBytes 2 (entries.length + 1)) := by
    change setNumFuncs filled reg.registry (getNumFuncs filled reg.registry + 1) = _
    rw [count]
    rfl
  have readSame : ∀ i, readFunc width (store filled reg.registry.names (leBytes 2 (entries.length + 1)))
      reg.registry i = readFunc width filled reg.registry i := by
    intro i
    rw [readFunc, load_store_disjoint (.inr (by rw [leBytes_length]; omega)), readFunc]
  rw [final]
  constructor
  · have loaded := load_store_same filled reg.registry.names (leBytes 2 (entries.length + 1))
    rw [leBytes_length] at loaded
    rw [getNumFuncs, loaded, leValue_leBytes small, List.length_append, List.length_singleton]
  · rw [List.length_append, List.length_singleton]
    exact small
  · rw [sameNames]
    exact filledHolds.store (.inr (by rw [leBytes_length]))
  · intro i other func' found
    rw [readSame]
    by_cases last : i = entries.length
    · subst last
      rw [List.getElem?_concat_length] at found
      obtain ⟨-, rfl⟩ := Prod.mk.inj (Option.some.inj found)
      exact readFunc_writeFunc ended reg.registry entries.length func
    · have inside : i < (entries ++ [(name, func)]).length := (List.getElem?_eq_some_iff.mp found).1
      rw [List.length_append, List.length_singleton] at inside
      rw [List.getElem?_append_left (by omega)] at found
      rw [readFunc_writeFunc_ne last, readFunc, load_store_disjoint (.inr (by simp; omega)),
        load_store_disjoint (.inr (by simp; omega))]
      exact represents.funcs i other func' found
  · rw [sameNames]
    exact List.nodup_append.mpr ⟨represents.nodup, List.nodup_singleton name,
      fun n inNames m isName same => fresh (List.mem_singleton.mp isName ▸ same ▸ inNames)⟩
  · rw [sameNames]
    intro n membership
    rcases List.mem_append.mp membership with old | new
    · exact represents.valid n old
    · exact List.mem_singleton.mp new ▸ valid
  · rw [sameNames]
    simp only [nameBytes_append, nameBytes_cons, nameBytes_nil, List.length_append,
      List.length_cons, List.length_nil]
    omega
  · rw [List.length_append, List.length_singleton]
    exact free

theorem addFunc_outside (layout : Layout width reg buffer size) {regNamePtr idx : Nat} {name : Bytes}
    (behind : reg.registry.names + 2 ≤ regNamePtr) (inside : idx < reg.maxFunctions)
    (room : regNamePtr + name.length + 2 ≤ reg.registry.funcs) (func : PackedCFunc width) {a : Nat}
    (outside : a < buffer ∨ buffer + size ≤ a) :
    addFunc mem reg.registry regNamePtr idx name func a = mem a := by
  have names := layout.names
  have last := layout.funcs_end inside
  rw [addFunc, setNumFuncs, store_outside (by rw [leBytes_length]; omega),
    writeFunc_outside layout inside func (by omega), store_outside (by simp; omega),
    store_outside (by simp; omega)]

theorem Represents.set_registered (represents : Represents reg mem entries)
    (layout : Layout width reg buffer size) (fueled : size ≤ fuel) {i : Nat} {name : Bytes}
    {old : PackedCFunc width} (entry : entries[i]? = some (name, old)) (func : PackedCFunc width)
    (override : Int) :
    set mem fuel reg name func override =
      some (if override = 0 then (.functionAlreadyDefined, mem)
        else (.noError, Crt.writeFunc mem reg.registry i func)) := by
  have isName : (entries.map Prod.fst)[i]? = some name := by rw [List.getElem?_map, entry]; rfl
  have found := scanNames_found 0 represents.names represents.valid represents.nodup isName
    (represents.enough layout fueled)
  rw [set, get0thFunctionName, found]
  simp only [Nat.zero_add]
  split <;> rfl

theorem Represents.set_new (represents : Represents reg mem entries)
    (layout : Layout width reg buffer size) (fueled : size ≤ fuel) {name : Bytes}
    (noNul : (0 : UInt8) ∉ name) (fresh : name ∉ entries.map Prod.fst) (func : PackedCFunc width)
    (override : Int) :
    set mem fuel reg name func override =
      some (if entries.length < reg.maxFunctions ∧ reg.registry.names + 2 +
            (nameBytes (entries.map Prod.fst)).length + name.length + 1 ≤ reg.registry.funcs then
          (.noError, Crt.addFunc mem reg.registry (reg.registry.names + 2 +
            (nameBytes (entries.map Prod.fst)).length) entries.length name func)
        else (.functionRegistryFull, mem)) := by
  have apart := represents.apart
  rw [set, get0thFunctionName,
    scanNames_end represents.names represents.valid noNul fresh (represents.enough layout fueled)]
  simp only [Nat.zero_add, List.length_map]
  rw [if_neg (by omega)]
  by_cases accepted : entries.length < reg.maxFunctions ∧ reg.registry.names + 2 +
      (nameBytes (entries.map Prod.fst)).length + name.length + 1 ≤ reg.registry.funcs
  · rw [if_neg (by omega), if_pos accepted]
    rfl
  · rw [if_pos (by omega), if_neg accepted]

end

/-- A call of `TVMMutableFuncRegistry_Set`. -/
structure SetCall (width : Nat) where
  name : Bytes
  func : PackedCFunc width
  override : Int
  deriving DecidableEq, Repr

/-- The calls so far with their results, the last one first. -/
abbrev History (width : Nat) := List (SetCall width × RegistryError)

/-- The function of the last successful call for `name`. -/
def lastSet : History width → Bytes → Option (PackedCFunc width)
  | [], _ => none
  | (call, error) :: history, name =>
    if error = .noError ∧ call.name = name then some call.func else lastSet history name

/-- The names of the successful calls, each one once. -/
def registered : History width → List Bytes
  | [] => []
  | (call, error) :: history =>
    if error = .noError then (registered history).insert call.name else registered history

/-- If the call adds a name, there is room for the second NUL as well, and the count of the
functions still fits in 16 bits. -/
def Fits (reg : MutableFuncRegistry) (history : History width) (call : SetCall width) : Prop :=
  let used := 2 + (nameBytes (registered history)).length
  let room := reg.registry.funcs - reg.registry.names
  call.name ∉ registered history → (registered history).length < reg.maxFunctions →
    used + call.name.length + 1 ≤ room →
      used + call.name.length + 1 ≠ room ∧ (registered history).length + 1 < 2 ^ 16

inductive SetRun (fuel : Nat) (reg : MutableFuncRegistry) (start : Memory) :
    History width → Memory → Prop where
  | start : SetRun fuel reg start [] start
  | call {history mem call error mem'} : SetRun fuel reg start history mem → ValidName call.name →
      Fits reg history call → set mem fuel reg call.name call.func call.override = some (error, mem') →
      SetRun fuel reg start ((call, error) :: history) mem'

structure Records (history : History width) (entries : List (Bytes × PackedCFunc width)) : Prop where
  last : ∀ name func, (name, func) ∈ entries ↔ lastSet history name = some func
  names : (entries.map Prod.fst).Perm (registered history)

theorem Records.error {history : History width} {entries : List (Bytes × PackedCFunc width)}
    (records : Records history entries) (call : SetCall width) {error : RegistryError}
    (failed : error ≠ .noError) : Records ((call, error) :: history) entries := by
  constructor
  · intro name func
    rw [lastSet, if_neg (fun both => failed both.1)]
    exact records.last name func
  · rw [registered, if_neg failed]
    exact records.names

theorem Records.replace {history : History width} {entries : List (Bytes × PackedCFunc width)}
    (records : Records history entries) (call : SetCall width) {i : Nat} {old : PackedCFunc width}
    (nodup : (entries.map Prod.fst).Nodup) (entry : entries[i]? = some (call.name, old)) :
    Records ((call, .noError) :: history) (entries.set i (call.name, call.func)) := by
  have isName : (entries.map Prod.fst)[i]? = some call.name := by
    rw [List.getElem?_map, entry]
    rfl
  have inside : i < entries.length := (List.getElem?_eq_some_iff.mp entry).1
  constructor
  · intro name func
    rw [lastSet]
    by_cases same : call.name = name
    · subst same
      rw [if_pos ⟨rfl, rfl⟩, Option.some_inj]
      constructor
      · intro membership
        obtain ⟨j, found⟩ := List.getElem?_of_mem membership
        have there : (entries.map Prod.fst)[j]? = some call.name := by
          by_cases here : j = i
          · rw [here, isName]
          · rw [List.getElem?_set_ne (Ne.symm here)] at found
            rw [List.getElem?_map, found]
            rfl
        have here : i = j := (List.getElem?_inj (by simpa using inside) nodup).mp (isName.trans there.symm)
        subst here
        rw [List.getElem?_set_self inside] at found
        exact (Prod.mk.inj (Option.some.inj found)).2
      · rintro rfl
        exact List.mem_of_getElem? (List.getElem?_set_self inside)
    · rw [if_neg (fun both => same both.2), ← records.last]
      constructor
      · intro membership
        rcases List.mem_or_eq_of_mem_set membership with old | new
        · exact old
        · exact absurd (Prod.mk.inj new).1.symm same
      · intro membership
        obtain ⟨j, found⟩ := List.getElem?_of_mem membership
        have elsewhere : i ≠ j := by
          rintro rfl
          rw [entry] at found
          exact same (Prod.mk.inj (Option.some.inj found)).1
        exact List.mem_of_getElem? ((List.getElem?_set_ne elsewhere).trans found)
  · have known : call.name ∈ registered history :=
      records.names.mem_iff.mp (List.mem_of_getElem? isName)
    obtain ⟨inNames, isCall⟩ := List.getElem?_eq_some_iff.mp isName
    have sameNames : (entries.set i (call.name, call.func)).map Prod.fst = entries.map Prod.fst := by
      rw [List.map_set, ← isCall, List.set_getElem_self]
    rw [sameNames, registered, if_pos rfl, List.insert_of_mem known]
    exact records.names

theorem Records.add {history : History width} {entries : List (Bytes × PackedCFunc width)}
    (records : Records history entries) (call : SetCall width)
    (fresh : call.name ∉ entries.map Prod.fst) :
    Records ((call, .noError) :: history) (entries ++ [(call.name, call.func)]) := by
  constructor
  · intro name func
    rw [lastSet, List.mem_append, List.mem_singleton, Prod.mk.injEq]
    by_cases same : call.name = name
    · subst same
      rw [if_pos ⟨rfl, rfl⟩, Option.some_inj]
      constructor
      · rintro (old | new)
        · exact absurd (List.mem_map_of_mem old) fresh
        · exact new.2.symm
      · exact fun new => .inr ⟨rfl, new.symm⟩
    · rw [if_neg (fun both => same both.2), ← records.last]
      exact ⟨fun either => either.resolve_right fun new => same new.1.symm, Or.inl⟩
  · have unknown : call.name ∉ registered history := fun known =>
      fresh (records.names.mem_iff.mpr known)
    rw [registered, if_pos rfl, List.insert_of_not_mem unknown, List.map_append]
    exact List.perm_append_comm.trans (records.names.cons call.name)

/-- What the registry is after the calls of `history`, in terms of its functions. -/
structure IsMap (fuel : Nat) (reg : MutableFuncRegistry) (buffer size : Nat) (before : Memory)
    (history : History width) (mem : Memory) : Prop where
  lookup : ∀ name : Bytes, (0 : UInt8) ∉ name → lookupFunc width mem fuel reg.registry name =
    some (match lastSet history name with
      | some func => .ok func
      | none => .error .functionNameNotFound)
  numFuncs : getNumFuncs mem reg.registry = (registered history).length
  outside : ∀ a, a < buffer ∨ buffer + size ≤ a → mem a = before a
  /-- The names with their NULs end before the first function pointer. -/
  apart : ∃ names : List Bytes, names.Perm (registered history) ∧
    Holds mem (reg.registry.names + 2) (nameBytes names ++ [0]) ∧
    reg.registry.names + 2 + (nameBytes names ++ [0]).length ≤ reg.registry.funcs

structure Registers (reg : MutableFuncRegistry) (buffer size : Nat) (before : Memory)
    (history : History width) (mem : Memory) (entries : List (Bytes × PackedCFunc width)) :
    Prop where
  represents : Represents reg mem entries
  records : Records history entries
  outside : ∀ a, a < buffer ∨ buffer + size ≤ a → mem a = before a

section

variable {reg : MutableFuncRegistry} {mem before : Memory} {history : History width}
  {entries : List (Bytes × PackedCFunc width)} {buffer size fuel : Nat}

theorem Registers.isMap (registers : Registers reg buffer size before history mem entries)
    (layout : Layout width reg buffer size) (fueled : size ≤ fuel) :
    IsMap fuel reg buffer size before history mem := by
  refine ⟨?_, ?_, registers.outside, ?_⟩
  · intro name noNul
    cases last : lastSet history name with
    | some func =>
      exact registers.represents.lookupFunc_mem layout fueled ((registers.records.last name func).mpr last)
    | none =>
      refine registers.represents.lookupFunc_not_mem layout fueled noNul ?_
      intro membership
      obtain ⟨⟨_, func⟩, entry, rfl⟩ := List.mem_map.mp membership
      rw [(registers.records.last _ func).mp entry] at last
      cases last
  · rw [registers.represents.count, ← registers.records.names.length_eq, List.length_map]
  · refine ⟨entries.map Prod.fst, registers.records.names, registers.represents.names, ?_⟩
    rw [List.length_append, List.length_singleton]
    exact registers.represents.apart

/-- One call that fits returns and keeps the invariant; an error changes nothing. -/
theorem Registers.set (registers : Registers reg buffer size before history mem entries)
    (layout : Layout width reg buffer size) (fueled : size ≤ fuel) {call : SetCall width}
    (valid : ValidName call.name) (fits : Fits reg history call) :
    ∃ error mem', set mem fuel reg call.name call.func call.override = some (error, mem') ∧
      (error ≠ .noError → mem' = mem) ∧
      ∃ entries', Registers reg buffer size before ((call, error) :: history) mem' entries' := by
  obtain ⟨represents, records, outside⟩ := registers
  by_cases known : call.name ∈ entries.map Prod.fst
  · obtain ⟨i, isName⟩ := List.getElem?_of_mem known
    rw [List.getElem?_map, Option.map_eq_some_iff] at isName
    obtain ⟨⟨name, old⟩, entry, rfl⟩ := isName
    rw [represents.set_registered layout fueled entry call.func call.override]
    by_cases keep : call.override = 0
    · rw [if_pos keep]
      exact ⟨_, _, rfl, fun _ => rfl, entries, represents, records.error call (by decide), outside⟩
    · rw [if_neg keep]
      have inside : i < reg.maxFunctions :=
        lt_of_lt_of_le (List.getElem?_eq_some_iff.mp entry).1 represents.bounded
      refine ⟨_, _, rfl, fun failed => absurd rfl failed, _, represents.writeFunc entry call.func,
        records.replace call represents.nodup entry, fun a isOutside => ?_⟩
      have funcsInside := layout.room
      rw [writeFunc_outside layout inside call.func (by omega)]
      exact outside a isOutside
  · have unknown : call.name ∉ registered history := fun inHistory =>
      known (records.names.mem_iff.mpr inHistory)
    have count : (registered history).length = entries.length := by
      rw [← records.names.length_eq, List.length_map]
    have used : (nameBytes (registered history)).length = (nameBytes (entries.map Prod.fst)).length :=
      (records.names.flatMap_right _).length_eq.symm
    rw [represents.set_new layout fueled valid.no_nul known call.func call.override]
    by_cases accepted : entries.length < reg.maxFunctions ∧ reg.registry.names + 2 +
        (nameBytes (entries.map Prod.fst)).length + call.name.length + 1 ≤ reg.registry.funcs
    · rw [if_pos accepted]
      obtain ⟨notExact, small⟩ := fits unknown (by omega) (by omega)
      rw [used] at notExact
      have room : reg.registry.names + 2 + (nameBytes (entries.map Prod.fst)).length +
          call.name.length + 2 ≤ reg.registry.funcs := by omega
      refine ⟨_, _, rfl, fun failed => absurd rfl failed, _,
        represents.addFunc valid known accepted.1 (by omega) room call.func,
        records.add call known, fun a isOutside => ?_⟩
      rw [addFunc_outside layout (Nat.le_add_right _ _) accepted.1 room call.func isOutside]
      exact outside a isOutside
    · rw [if_neg accepted]
      exact ⟨_, _, rfl, fun _ => rfl, entries, represents, records.error call (by decide), outside⟩

theorem SetRun.registers {mem₀ start : Memory} (run : SetRun fuel reg start history mem)
    (created : create width mem₀ buffer size = .ok (reg, start)) (fueled : size ≤ fuel) :
    ∃ entries, Registers reg buffer size mem₀ history mem entries := by
  obtain ⟨layout, isStart⟩ := create_layout created
  induction run with
  | start =>
    refine ⟨[], isStart ▸ layout.represents_empty mem₀, ⟨?_, .nil⟩, ?_⟩
    · exact fun name func => by simp [lastSet]
    · intro a outside
      have room := layout.room
      have funcs := layout.funcs
      rw [isStart, store_outside (by simp; omega)]
  | call _ valid fits result ih =>
    obtain ⟨entries, registers⟩ := ih
    obtain ⟨error, mem', returned, -, entries', registers'⟩ := registers.set layout fueled valid fits
    obtain ⟨rfl, rfl⟩ := Prod.mk.inj (Option.some.inj (result.symm.trans returned))
    exact ⟨entries', registers'⟩

end

/-- The registry is a map in every state of a run whose calls fit, and the next call that fits
returns; if it returns an error, no lookup changes. -/
theorem registry_isMap {fuel buffer size : Nat} {reg : MutableFuncRegistry} {mem₀ start mem : Memory}
    {history : History width} (created : create width mem₀ buffer size = .ok (reg, start))
    (fueled : size ≤ fuel) (run : SetRun fuel reg start history mem) :
    IsMap fuel reg buffer size mem₀ history mem ∧
      ∀ call, ValidName call.name → Fits reg history call →
        ∃ error mem', set mem fuel reg call.name call.func call.override = some (error, mem') ∧
          (error ≠ .noError → ∀ name, lookupFunc width mem' fuel reg.registry name =
            lookupFunc width mem fuel reg.registry name) := by
  obtain ⟨layout, -⟩ := create_layout created
  obtain ⟨entries, registers⟩ := run.registers created fueled
  refine ⟨registers.isMap layout fueled, fun call valid fits => ?_⟩
  obtain ⟨error, mem', returned, same, -⟩ := registers.set layout fueled valid fits
  exact ⟨error, mem', returned, fun failed name => by rw [same failed]⟩

/-- One function, in a buffer for two. -/
theorem registry_isMap_single :
    let reg : MutableFuncRegistry := ⟨⟨0, 22⟩, 2⟩
    let call : SetCall 8 := ⟨[97], 7, 0⟩
    IsMap 38 reg 0 38 (fun _ => 0) [(call, .noError)]
      (addFunc (store (fun _ => 0) 0 [0, 0, 0]) reg.registry 2 0 [97] call.func) := by
  intro reg call
  have valid : ValidName [97] := ⟨by decide, by decide⟩
  exact (registry_isMap rfl le_rfl (.call .start valid (fun _ _ _ => by decide) rfl)).1

/-- The names fill their area, and the second NUL overwrites the first function pointer. -/
theorem registry_overwritten :
    let first : Bytes := List.replicate 9 97
    let second : Bytes := List.replicate 9 98
    ∃ reg start mem₁ mem₂, create 8 (fun _ => 0) 0 38 = .ok (reg, start) ∧
      set start 38 reg first (0x1122 : PackedCFunc 8) 0 = some (.noError, mem₁) ∧
      set mem₁ 38 reg second (0x3344 : PackedCFunc 8) 0 = some (.noError, mem₂) ∧
      lookupFunc 8 mem₂ 38 reg.registry first = some (.ok 0x1100) := by
  refine ⟨_, _, _, _, rfl, rfl, rfl, ?_⟩
  decide +kernel

end Tvm.Crt
