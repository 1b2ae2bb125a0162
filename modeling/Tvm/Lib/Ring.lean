import Tvm.Lib.Memory

/-!
# Rings of cells

The first `size` cells of a memory read as a ring: after the last of them comes the first.
A run of cells is read with at most two loads, and a store behind the run lengthens it.
-/

namespace Tvm.Lib

/-- `count` cells of the ring, from `start` on. -/
def around (mem : Memory) (size start count : Nat) : Bytes :=
  (List.range count).map fun i => mem ((start + i) % size)

@[simp] theorem around_zero (mem : Memory) (size start : Nat) : around mem size start 0 = [] := rfl

@[simp] theorem around_length (mem : Memory) (size start count : Nat) :
    (around mem size start count).length = count := by
  simp [around]

theorem around_congr {mem mem' : Memory} {size size' start start' count : Nat}
    (same : ∀ i < count, mem' ((start' + i) % size') = mem ((start + i) % size)) :
    around mem' size' start' count = around mem size start count := by
  apply List.map_congr_left
  intro i member
  exact same i (List.mem_range.mp member)

@[simp] theorem around_mod (mem : Memory) (size start count : Nat) :
    around mem size (start % size) count = around mem size start count := by
  apply around_congr
  intro i _
  rw [Nat.mod_add_mod]

theorem around_append (mem : Memory) (size start first second : Nat) :
    around mem size start (first + second) =
      around mem size start first ++ around mem size (start + first) second := by
  unfold around
  rw [List.range_add, List.map_append, List.map_map]
  simp [Function.comp_def, Nat.add_assoc]

theorem load_eq_map (mem : Memory) (address count : Nat) :
    load mem address count = (List.range count).map fun i => mem (address + i) := by
  induction count generalizing address with
  | zero => rfl
  | succ count ih =>
    rw [load, ih, List.range_succ_eq_map, List.map_cons, List.map_map]
    simp [Function.comp_def, Nat.add_assoc, Nat.add_comm 1]

theorem around_eq_load {mem : Memory} {size start count : Nat} (inside : start + count ≤ size) :
    around mem size start count = load mem start count := by
  rw [load_eq_map]
  apply List.map_congr_left
  intro i member
  have small := List.mem_range.mp member
  rw [Nat.mod_eq_of_lt (by omega)]

theorem around_past {mem : Memory} {size start count : Nat} (past : size ≤ start) :
    around mem size start count = around mem size (start - size) count := by
  rw [← around_mod, Nat.mod_eq_sub_mod past, around_mod]

theorem around_eq_loads {mem : Memory} {size start count : Nat} (inside : start < size)
    (short : count ≤ size) :
    around mem size start count =
      load mem start (min count (size - start)) ++ load mem 0 (count - min count (size - start)) := by
  have split : count = min count (size - start) + (count - min count (size - start)) := by omega
  conv_lhs => rw [split, around_append]
  rw [around_eq_load (by omega)]
  congr 1
  rcases Nat.le_total count (size - start) with fits | wraps
  · simp [Nat.min_eq_left fits, load]
  · rw [Nat.min_eq_right wraps, around_past (by omega), around_eq_load (by omega)]
    congr 1
    omega

theorem load_unwrapped {mem mem' : Memory} {size start count : Nat} (inside : start < size)
    (short : count ≤ size) (kept : ∀ a, start ≤ a → a < size → mem' a = mem a)
    (moved : load mem' size (start + count - size) = load mem 0 (start + count - size)) :
    load mem' start count = around mem size start count := by
  rcases Nat.le_total (start + count) size with straight | wraps
  · rw [around_eq_load straight]
    exact load_congr fun a lower upper => kept a lower (by omega)
  · obtain ⟨excess, total⟩ := Nat.exists_eq_add_of_le wraps
    have split : count = size - start + excess := by omega
    have past : start + count - size = excess := by omega
    rw [past] at moved
    subst split
    rw [load_append, around_append, Nat.add_sub_cancel' inside.le, moved]
    rw [around_eq_load (by omega), around_past le_rfl, Nat.sub_self, around_eq_load (by omega)]
    congr 1
    exact load_congr fun a lower upper => kept a lower (by omega)

theorem around_store {mem : Memory} {size start count position : Nat} {bytes : Bytes}
    (inside : start < size) (room : count + bytes.length ≤ size)
    (behind : position = start + count ∨ position + size = start + count)
    (fits : position + bytes.length ≤ size) :
    around (store mem position bytes) size start (count + bytes.length) =
      around mem size start count ++ bytes := by
  rw [around_append]
  congr 1
  · apply around_congr
    intro i small
    apply store_outside
    rcases Nat.lt_or_ge (start + i) size with before | after
    · rw [Nat.mod_eq_of_lt before]
      omega
    · rw [Nat.mod_eq_sub_mod after, Nat.mod_eq_of_lt (by omega)]
      omega
  · have located : around (store mem position bytes) size (start + count) bytes.length =
        around (store mem position bytes) size position bytes.length := by
      rcases behind with rfl | wrapped
      · rfl
      · rw [← wrapped, around_past (by omega), Nat.add_sub_cancel]
    rw [located, around_eq_load fits, load_store_same]

theorem take_around (mem : Memory) (size start : Nat) {count total : Nat} (short : count ≤ total) :
    (around mem size start total).take count = around mem size start count := by
  obtain ⟨rest, rfl⟩ := Nat.exists_eq_add_of_le short
  rw [around_append, List.take_left' (around_length _ _ _ _)]

theorem drop_around (mem : Memory) (size start : Nat) {count total : Nat} (short : count ≤ total) :
    (around mem size start total).drop count = around mem size (start + count) (total - count) := by
  obtain ⟨rest, rfl⟩ := Nat.exists_eq_add_of_le short
  rw [around_append, List.drop_left' (around_length _ _ _ _), Nat.add_sub_cancel_left]

end Tvm.Lib
