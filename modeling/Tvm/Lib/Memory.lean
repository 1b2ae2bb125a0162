import Mathlib.Tactic

/-!
# Numbers and bytes in a memory

Numbers of a fixed width are little-endian: `leBytes width n` is the in-memory image of the low
`width` bytes of `n`; `leValue` reads such an image back.
-/

namespace Tvm.Lib

abbrev Bytes := List UInt8

/-- The `width` low bytes of `n`, least significant first. -/
def leBytes : Nat → Nat → Bytes
  | 0, _ => []
  | width + 1, n => UInt8.ofNat n :: leBytes width (n / 256)

/-- The number stored in `bytes`, least significant byte first. -/
def leValue : Bytes → Nat
  | [] => 0
  | b :: rest => b.toNat + 256 * leValue rest

@[simp] theorem leBytes_length (width n : Nat) : (leBytes width n).length = width := by
  induction width generalizing n with
  | zero => rfl
  | succ width ih => simp [leBytes, ih]

theorem leValue_lt (bytes : Bytes) : leValue bytes < 256 ^ bytes.length := by
  induction bytes with
  | nil => simp [leValue]
  | cons b rest ih =>
    have hb : b.toNat < 256 := b.toNat_lt
    simp only [leValue, List.length_cons, pow_succ]
    omega

theorem leValue_leBytes_mod (width n : Nat) : leValue (leBytes width n) = n % 256 ^ width := by
  induction width generalizing n with
  | zero => simp [leBytes, leValue, Nat.mod_one]
  | succ width ih =>
    have low : (UInt8.ofNat n).toNat = n % 256 := UInt8.toNat_ofNat'
    rw [leBytes, leValue, ih, low, pow_succ' 256 width, Nat.mod_mul]

@[simp] theorem leValue_leBytes {width n : Nat} (h : n < 256 ^ width) :
    leValue (leBytes width n) = n := by
  rw [leValue_leBytes_mod, Nat.mod_eq_of_lt h]

theorem leBytes_leValue (bytes : Bytes) : leBytes bytes.length (leValue bytes) = bytes := by
  induction bytes with
  | nil => rfl
  | cons b rest ih =>
    have hb : b.toNat < 256 := b.toNat_lt
    have low : UInt8.ofNat (b.toNat + 256 * leValue rest) = b := by
      apply UInt8.toNat.inj
      simp only [UInt8.toNat_ofNat']
      omega
    have high : (b.toNat + 256 * leValue rest) / 256 = leValue rest := by omega
    simp only [List.length_cons, leValue, leBytes, low, high, ih]

theorem leBytes_two (n : Nat) : leBytes 2 n = [UInt8.ofNat n, UInt8.ofNat (n / 256)] := by
  simp only [leBytes]

end Tvm.Lib

/-!
## Flat memories

A memory gives every address a byte.  `store` writes a list of bytes, `load` reads one
back; what is stored elsewhere does not change what is loaded.
-/

namespace Tvm.Lib

abbrev Memory := Nat → UInt8

def load (mem : Memory) : Nat → Nat → Bytes
  | _, 0 => []
  | address, count + 1 => mem address :: load mem (address + 1) count

def store (mem : Memory) : Nat → Bytes → Memory
  | _, [] => mem
  | address, b :: bytes => store (Function.update mem address b) (address + 1) bytes

def Holds (mem : Memory) (address : Nat) (bytes : Bytes) : Prop :=
  load mem address bytes.length = bytes

@[simp] theorem load_length (mem : Memory) (address count : Nat) :
    (load mem address count).length = count := by
  induction count generalizing address with
  | zero => rfl
  | succ count ih => simp [load, ih]

theorem load_congr {mem mem' : Memory} {address count : Nat}
    (same : ∀ a, address ≤ a → a < address + count → mem' a = mem a) :
    load mem' address count = load mem address count := by
  induction count generalizing address with
  | zero => rfl
  | succ count ih =>
    have first := same address le_rfl (by omega)
    have later : load mem' (address + 1) count = load mem (address + 1) count :=
      ih fun a lower upper => same a (by omega) (by omega)
    rw [load, load, first, later]

theorem load_append (mem : Memory) (address first second : Nat) :
    load mem address (first + second) = load mem address first ++ load mem (address + first) second := by
  induction first generalizing address with
  | zero => simp [load]
  | succ first ih =>
    rw [Nat.add_right_comm, load, load, ih]
    simp [Nat.add_assoc, Nat.add_comm 1]

theorem store_outside {mem : Memory} {address a : Nat} {bytes : Bytes}
    (outside : a < address ∨ address + bytes.length ≤ a) : store mem address bytes a = mem a := by
  induction bytes generalizing mem address with
  | nil => rfl
  | cons b rest ih =>
    rw [List.length_cons] at outside
    have different : a ≠ address := by omega
    rw [store, ih (by omega), Function.update_of_ne different]

theorem load_store_disjoint {mem : Memory} {address a count : Nat} {bytes : Bytes}
    (disjoint : a + count ≤ address ∨ address + bytes.length ≤ a) :
    load (store mem address bytes) a count = load mem a count :=
  load_congr fun b lower upper => store_outside (by omega)

theorem load_store_same (mem : Memory) (address : Nat) (bytes : Bytes) :
    load (store mem address bytes) address bytes.length = bytes := by
  induction bytes generalizing mem address with
  | nil => rfl
  | cons b rest ih =>
    have first : store mem address (b :: rest) address = b := by
      rw [store, store_outside (.inl (Nat.lt_succ_self address)), Function.update_self]
    rw [List.length_cons, load, first, store, ih]

theorem store_append (mem : Memory) (address : Nat) (first second : Bytes) :
    store mem address (first ++ second) =
      store (store mem address first) (address + first.length) second := by
  induction first generalizing mem address with
  | nil => rfl
  | cons b rest ih =>
    rw [List.cons_append, store, ih, store, List.length_cons, Nat.add_assoc, Nat.add_comm 1]

theorem load_store_front (mem : Memory) (address : Nat) (bytes : Bytes) {count : Nat}
    (inside : count ≤ bytes.length) :
    load (store mem address bytes) address count = bytes.take count := by
  have split := load_append (store mem address bytes) address count (bytes.length - count)
  rw [Nat.add_sub_cancel' inside, load_store_same] at split
  have taken := congrArg (List.take count) split
  rw [List.take_left' (load_length _ _ _)] at taken
  exact taken.symm

theorem load_getElem {mem : Memory} {address count i : Nat}
    (inside : i < (load mem address count).length) : (load mem address count)[i] = mem (address + i) := by
  induction count generalizing address i with
  | zero => cases inside
  | succ count ih =>
    cases i with
    | zero => rfl
    | succ i => exact (ih _).trans (by rw [Nat.add_assoc, Nat.add_comm 1])

theorem store_inside {mem : Memory} {address i : Nat} {bytes : Bytes} (inside : i < bytes.length) :
    store mem address bytes (address + i) = bytes[i] := by
  have loaded := load_store_same mem address bytes
  have short : i < (load (store mem address bytes) address bytes.length).length := by
    rwa [load_length]
  rw [← load_getElem short]
  simp only [loaded]

@[simp] theorem holds_nil (mem : Memory) (address : Nat) : Holds mem address [] := rfl

@[simp] theorem holds_cons {mem : Memory} {address : Nat} {b : UInt8} {bytes : Bytes} :
    Holds mem address (b :: bytes) ↔ mem address = b ∧ Holds mem (address + 1) bytes := by
  simp [Holds, load]

@[simp] theorem holds_append {mem : Memory} {address : Nat} {first second : Bytes} :
    Holds mem address (first ++ second) ↔
      Holds mem address first ∧ Holds mem (address + first.length) second := by
  induction first generalizing address with
  | nil => simp
  | cons b rest ih => simp [ih, and_assoc, Nat.add_assoc, Nat.add_comm 1]

theorem holds_store (mem : Memory) (address : Nat) (bytes : Bytes) :
    Holds (store mem address bytes) address bytes :=
  load_store_same mem address bytes

theorem Holds.store {mem : Memory} {address a : Nat} {bytes stored : Bytes}
    (holds : Holds mem a bytes)
    (disjoint : a + bytes.length ≤ address ∨ address + stored.length ≤ a) :
    Holds (store mem address stored) a bytes :=
  (load_store_disjoint disjoint).trans holds

end Tvm.Lib
