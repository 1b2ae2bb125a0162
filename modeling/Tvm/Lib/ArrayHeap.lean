import Mathlib.Logic.Function.Basic
import Mathlib.Data.BitVec

/-!
# Heaps of arrays

A heap gives the addresses of its arrays their elements.  Address 0 is null and is never given out.
-/

namespace Tvm.Lib

universe u

variable {α : Type u}

abbrev Address := Nat

abbrev ArrayHeap (α : Type u) := Address → Option (List α)

namespace ArrayHeap

variable (heap : ArrayHeap α)

/-- An allocator may give out this address. -/
def Fresh (address : Address) : Prop :=
  address ≠ 0 ∧ heap address = none

def new (address : Address) (elements : List α) : ArrayHeap α :=
  Function.update heap address (some elements)

def delete (address : Address) : Option (ArrayHeap α) :=
  (heap address).map fun _ => Function.update heap address none

/-- The first elements of an array; nothing is looked at for none of them. -/
def read (address : Address) (size : Int) : Option (List α) :=
  if size < 0 then none
  else if size = 0 then some []
  else (heap address).bind fun elements =>
    if size ≤ elements.length then some (elements.take size.toNat) else none

/-- An array that is there with all its elements. -/
def Owns (address : Address) (size : Int) : Prop :=
  address ≠ 0 ∧ ∃ elements, heap address = some elements ∧ (elements.length : Int) = size

variable {heap} {address other : Address} {size : Int} {elements : List α}

theorem read_of_owns (there : heap address = some elements) (length : (elements.length : Int) = size) :
    heap.read address size = some elements := by
  subst length
  unfold read
  rw [if_neg (Int.not_lt.mpr (Int.natCast_nonneg _))]
  by_cases empty : (elements.length : Int) = 0
  · rw [if_pos empty, List.length_eq_zero_iff.mp (Int.natCast_eq_zero.mp empty)]
  · rw [if_neg empty, there, Option.bind_some, if_pos le_rfl, Int.toNat_natCast,
      List.take_length]

theorem read_of_none (absent : heap address = none) (some_size : size ≠ 0) :
    heap.read address size = none := by
  unfold read
  rw [if_neg some_size, absent]
  split <;> rfl

theorem read_zero : heap.read address 0 = some [] := rfl

theorem read_congr {after : ArrayHeap α} (same : after address = heap address) :
    after.read address size = heap.read address size := by
  unfold read
  rw [same]

theorem new_self : heap.new address elements address = some elements :=
  Function.update_self ..

theorem new_of_ne (differs : other ≠ address) : heap.new address elements other = heap other :=
  Function.update_of_ne differs ..

theorem delete_eq_some {after : ArrayHeap α} : heap.delete address = some after ↔
    (∃ elements, heap address = some elements) ∧ after = Function.update heap address none := by
  unfold delete
  rw [Option.map_eq_some_iff]
  constructor
  · rintro ⟨elements, there, rfl⟩
    exact ⟨⟨elements, there⟩, rfl⟩
  · rintro ⟨⟨elements, there⟩, rfl⟩
    exact ⟨elements, there, rfl⟩

theorem Owns.ne_of_fresh (owns : heap.Owns other size) (fresh : heap.Fresh address) :
    other ≠ address := by
  rintro rfl
  obtain ⟨-, elements, there, -⟩ := owns
  rw [fresh.2] at there
  cases there

theorem Owns.update_none (owns : heap.Owns other size) (differs : other ≠ address) :
    Owns (Function.update heap address none) other size := by
  obtain ⟨nonnull, elements, there, length⟩ := owns
  exact ⟨nonnull, elements, by rw [Function.update_of_ne differs, there], length⟩

end ArrayHeap

end Tvm.Lib
