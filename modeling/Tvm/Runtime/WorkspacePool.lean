import Mathlib

/-!
# The pool of workspaces

`WorkspacePool::Pool` of `runtime/workspace_pool.cc`.  Both lists begin with a guard of size zero.
Whatever the code does not survive (a failed `ICHECK`, a step out of a list) is `none`.
-/

namespace Tvm.Runtime

/-- `data` is 0 for `nullptr`. -/
structure Entry where
  data : Nat
  size : UInt64
  deriving DecidableEq, Repr

def kWorkspacePageSize : UInt64 := 4096

def Entry.guard : Entry := ⟨0, 0⟩

structure Pool where
  freeList : List Entry
  allocated : List Entry
  deriving DecidableEq, Repr

/-- What a call of `Alloc` returns and does; no pointer where `AllocDataSpace` throws. -/
structure PoolAlloc where
  data : Option Nat
  pool : Pool
  /-- What `AllocDataSpace` has returned. -/
  obtained : List Entry
  /-- What has been passed to `FreeDataSpace`. -/
  released : List Nat

def roundUp (nbytes : UInt64) : UInt64 :=
  let nbytes := (nbytes + (kWorkspacePageSize - 1)) / kWorkspacePageSize * kWorkspacePageSize
  if nbytes = 0 then kWorkspacePageSize else nbytes

/-- The loop that looks for the smallest fit: from an index down to the first entry that is too
small. -/
def lastBelow (list : List Entry) (nbytes : UInt64) : Nat → Option Nat
  | 0 => (list[0]?).bind fun it => if nbytes ≤ it.size then none else some 0
  | i + 1 => (list[i + 1]?).bind fun it =>
    if nbytes ≤ it.size then lastBelow list nbytes i else some (i + 1)

/-- The loop of `Free` over the allocated entries; the guard is not looked at. -/
def indexOfData (list : List Entry) (data : Nat) : Nat → Option Nat
  | 0 => none
  | i + 1 => (list[i + 1]?).bind fun entry =>
    if entry.data ≠ data then indexOfData list data i else some (i + 1)

/-- The loop of `Free` that makes room for an entry in the free list. -/
def shiftUp (e : Entry) (list : List Entry) : Nat → Option (List Entry)
  | 0 => (list[0]?).bind fun entry => if e.size < entry.size then none else some (list.set 1 e)
  | i + 1 => (list[i + 1]?).bind fun entry =>
    if e.size < entry.size then shiftUp e (list.set (i + 2) entry) i
    else some (list.set (i + 2) e)

namespace Pool

def new : Pool :=
  ⟨[.guard], [.guard]⟩

variable (pool : Pool)

def take (freeList : List Entry) (e : Entry) : PoolAlloc :=
  ⟨some e.data, ⟨freeList, pool.allocated ++ [e]⟩, [], []⟩

/-- A block is obtained, after others have been released. -/
def obtain (freeList : List Entry) (nbytes : UInt64) (released : List Nat)
    (answer : Option Nat) : PoolAlloc :=
  match answer with
  | some data =>
    ⟨some data, ⟨freeList, pool.allocated ++ [⟨data, nbytes⟩]⟩, [⟨data, nbytes⟩], released⟩
  | none => ⟨none, ⟨freeList, pool.allocated⟩, [], released⟩

/-- `Alloc`, where `answer` is what `AllocDataSpace` returns if it is called. -/
def alloc (nbytes : UInt64) (answer : Option Nat) : Option PoolAlloc := do
  let nbytes := roundUp nbytes
  let back ← pool.freeList.getLast?
  if pool.freeList.length = 2 then
    if back.size < nbytes then
      some (pool.obtain pool.freeList.dropLast nbytes [back.data] answer)
    else some (pool.take pool.freeList.dropLast back)
  else if pool.freeList.length = 1 then
    some (pool.obtain pool.freeList nbytes [] answer)
  else if nbytes ≤ back.size then do
    let it ← lastBelow pool.freeList nbytes (pool.freeList.length - 2)
    let e ← pool.freeList[it + 1]?
    some (pool.take (pool.freeList.eraseIdx (it + 1)) e)
  else some (pool.obtain pool.freeList.dropLast nbytes [back.data] answer)

/-- The index at which `Free` begins to look: the number of entries is cast to `int`. -/
def startIndex : Nat :=
  ((pool.allocated.length : Int).bmod (2 ^ 32) - 2).toNat

def takeAllocated (data : Nat) : Option (Entry × List Entry) := do
  let back ← pool.allocated.getLast?
  if back.data = data then some (back, pool.allocated.dropLast)
  else do
    let index ← indexOfData pool.allocated data pool.startIndex
    let e ← pool.allocated[index]?
    some (e, pool.allocated.eraseIdx index)

def insertFree (e : Entry) : Option (List Entry) := do
  let back ← pool.freeList.getLast?
  if back.size < e.size then some (pool.freeList ++ [e])
  else if pool.freeList.length = 2 then some ((pool.freeList ++ [back]).set 1 e)
  else shiftUp e (pool.freeList ++ [⟨0, 0⟩]) (pool.freeList.length - 1)

def free (data : Nat) : Option Pool := do
  let taken ← pool.takeAllocated data
  let freeList ← pool.insertFree taken.1
  some ⟨freeList, taken.2⟩

/-- `Release`: what is passed to `FreeDataSpace`, and the pool without its free list. -/
def release : List Nat × Pool :=
  ((pool.freeList.drop 1).map Entry.data, ⟨[], pool.allocated⟩)

end Pool

/-- A pool with the blocks that the device has given and not got back. -/
structure PoolRun where
  pool : Pool
  live : List Entry

inductive PoolCall where
  | alloc (nbytes : UInt64) (answer : Option Nat)
  | free (data : Nat)

/-- What is left of the blocks after some have been given back. -/
def liveWithout (live : List Entry) (released : List Nat) : List Entry :=
  live.filter fun block => block.data ∉ released

namespace PoolRun

variable (run : PoolRun)

def call : PoolCall → Option PoolRun
  | .alloc nbytes answer => (run.pool.alloc nbytes answer).map fun result =>
    ⟨result.pool, result.obtained ++ liveWithout run.live result.released⟩
  | .free data => (run.pool.free data).map fun pool => ⟨pool, run.live⟩

/-- The device returns a block that it has not given to anyone, and allocated pointers are freed. -/
def Proper : PoolCall → Prop
  | .alloc nbytes answer => ∀ result ∈ run.pool.alloc nbytes answer, ∀ data ∈ answer,
      data ≠ 0 ∧ data ∉ (liveWithout run.live result.released).map Entry.data
  | .free data => ∃ entry ∈ run.pool.allocated.tail, entry.data = data

/-- A block that is returned is large enough and not allocated, and where there are two free blocks
or more it is the smallest that fits, if one does. -/
structure Returns (nbytes : UInt64) (result : PoolAlloc) (data : Nat) : Prop where
  notAllocated : data ∉ run.pool.allocated.tail.map Entry.data
  large : ∃ entry ∈ result.pool.allocated, entry.data = data ∧ nbytes ≤ entry.size
  smallest : 2 ≤ run.pool.freeList.tail.length →
    (∃ entry ∈ run.pool.freeList.tail, nbytes ≤ entry.size) →
      ∃ entry ∈ run.pool.freeList.tail, entry.data = data ∧ nbytes ≤ entry.size ∧
        ∀ other ∈ run.pool.freeList.tail, nbytes ≤ other.size → entry.size ≤ other.size

/-- What a call promises: it comes back, it gives only blocks back that the device has given, and
a pointer that it returns is good. -/
def Keeps : PoolCall → Prop
  | .alloc nbytes answer => ∃ result, run.pool.alloc nbytes answer = some result ∧
      result.released.Nodup ∧ (∀ data ∈ result.released, data ∈ run.live.map Entry.data) ∧
      ∀ data ∈ result.data, run.Returns nbytes result data
  | .free data => ∃ pool, run.pool.free data = some pool

/-- The size does not wrap, unless the device is asked and fails; the pointer is the last one, or
the search for it begins behind it. -/
def Meets : PoolCall → Prop
  | .alloc nbytes answer =>
    nbytes.toNat + kWorkspacePageSize.toNat ≤ 2 ^ 64 ∨
      run.pool.freeList.tail = [] ∧ answer = none
  | .free data =>
    (∃ back, run.pool.allocated.getLast? = some back ∧ back.data = data) ∨
      ∃ index entry, index ≤ run.pool.startIndex ∧ run.pool.allocated[index]? = some entry ∧
        0 < index ∧ entry.data = data

/-- The free list is sorted behind its guard, every block of the device is in one of the lists, and
`Release` gives every free block back once. -/
structure Safe : Prop where
  guarded : run.pool.freeList.head? = some .guard
  sorted : run.pool.freeList.Pairwise fun a b => a.size ≤ b.size
  once : (run.live.map Entry.data).Nodup
  blocks : run.live.Perm (run.pool.freeList.tail ++ run.pool.allocated.tail)
  released : run.pool.release.1.Nodup ∧
    ∀ data ∈ run.pool.release.1, data ∈ run.live.map Entry.data

end PoolRun

inductive PoolReached : PoolRun → Prop where
  | start : PoolReached ⟨.new, []⟩
  | call {run after : PoolRun} (poolCall : PoolCall) :
      PoolReached run → run.Proper poolCall → run.call poolCall = some after → PoolReached after

end Tvm.Runtime

/-!
## The lists of a pool of workspaces

The searches end at the guard, and the free list stays sorted.  Sizes are whole pages, so that what
fits a request is what fits its rounded size, as long as that does not wrap.
-/

namespace Tvm.Runtime

variable {nbytes : UInt64} {answer : Option Nat}

def Paged (size : UInt64) : Prop :=
  4096 ∣ size.toNat ∧ 0 < size.toNat

theorem roundUp_eq (nbytes : UInt64) :
    (roundUp nbytes).toNat = max 4096 ((nbytes.toNat + 4095) % 2 ^ 64 / 4096 * 4096) := by
  have rounded : ((nbytes + (kWorkspacePageSize - 1)) / kWorkspacePageSize *
      kWorkspacePageSize).toNat = (nbytes.toNat + 4095) % 2 ^ 64 / 4096 * 4096 := by
    rw [UInt64.toNat_mul, UInt64.toNat_div, UInt64.toNat_add]
    have page : kWorkspacePageSize.toNat = 4096 := rfl
    have less : (kWorkspacePageSize - 1).toNat = 4095 := rfl
    rw [page, less, Nat.mod_eq_of_lt]
    omega
  unfold roundUp
  dsimp only
  split
  · rename_i zero
    rw [zero] at rounded
    rw [← rounded]
    rfl
  · rename_i nonzero
    have positive : (nbytes.toNat + 4095) % 2 ^ 64 / 4096 * 4096 ≠ 0 := by
      rw [← rounded]
      exact fun zero => nonzero (UInt64.toNat_inj.mp zero)
    rw [rounded]
    omega

theorem paged_roundUp (nbytes : UInt64) : Paged (roundUp nbytes) := by
  unfold Paged
  rw [roundUp_eq]
  omega

theorem Paged.fits {size : UInt64} (paged : Paged size) (large : nbytes ≤ size) :
    nbytes.toNat + 4096 ≤ 2 ^ 64 := by
  have bound := size.toNat_lt
  have le := UInt64.le_iff_toNat_le.mp large
  obtain ⟨divides, -⟩ := paged
  omega

theorem le_roundUp (fits : nbytes.toNat + 4096 ≤ 2 ^ 64) : nbytes ≤ roundUp nbytes := by
  have small := nbytes.toNat_lt
  rw [UInt64.le_iff_toNat_le, roundUp_eq]
  omega

theorem Paged.roundUp_le {size : UInt64} (paged : Paged size) (large : nbytes ≤ size) :
    roundUp nbytes ≤ size := by
  have le := UInt64.le_iff_toNat_le.mp large
  have fits := paged.fits large
  obtain ⟨divides, positive⟩ := paged
  rw [UInt64.le_iff_toNat_le, roundUp_eq]
  omega

theorem Paged.roundUp_le_of_wraps {size : UInt64} (paged : Paged size)
    (wraps : ¬nbytes.toNat + 4096 ≤ 2 ^ 64) : roundUp nbytes ≤ size := by
  have small := nbytes.toNat_lt
  obtain ⟨divides, positive⟩ := paged
  rw [UInt64.le_iff_toNat_le, roundUp_eq]
  omega

theorem lastBelow_eq (list : List Entry) (nbytes : UInt64) (i : Nat) :
    lastBelow list nbytes i = (list[i]?).bind fun it =>
      if nbytes ≤ it.size then if i = 0 then none else lastBelow list nbytes (i - 1)
      else some i := by
  cases i with
  | zero => rfl
  | succ i => rfl

theorem shiftUp_eq (e : Entry) (list : List Entry) (i : Nat) :
    shiftUp e list i = (list[i]?).bind fun entry =>
      if e.size < entry.size then
        if i = 0 then none else shiftUp e (list.set (i + 1) entry) (i - 1)
      else some (list.set (i + 1) e) := by
  cases i with
  | zero => rfl
  | succ i => rfl

theorem lastBelow_spec (nbytes : UInt64) {front : List Entry} (back : List Entry)
    (nonempty : front ≠ [])
    (guarded : ∀ first, front.head? = some first → first.size < nbytes) :
    ∃ low high, front = low ++ high ∧ low ≠ [] ∧
      lastBelow (front ++ back) nbytes (front.length - 1) = some (low.length - 1) ∧
      (∀ x ∈ high, nbytes ≤ x.size) ∧ ∀ x, low.getLast? = some x → x.size < nbytes := by
  induction front using List.reverseRecOn generalizing back with
  | nil => exact absurd rfl nonempty
  | append_singleton init x ih =>
    have length : (init ++ [x]).length - 1 = init.length := by
      rw [List.length_append, List.length_singleton, Nat.add_sub_cancel]
    have here : (init ++ [x] ++ back)[init.length]? = some x := by
      rw [List.append_assoc, List.getElem?_append_right le_rfl, Nat.sub_self]
      rfl
    rw [length, lastBelow_eq, here, Option.bind_some]
    by_cases large : nbytes ≤ x.size
    · have more : init ≠ [] := by
        rintro rfl
        exact absurd large (UInt64.not_le.mpr (guarded x rfl))
      have guardedInit : ∀ first, init.head? = some first → first.size < nbytes := by
        intro first isFirst
        apply guarded
        rw [List.head?_append, isFirst]
        rfl
      obtain ⟨low, high, split, some_low, found, enough, below⟩ :=
        ih (x :: back) more guardedInit
      have positive : init.length ≠ 0 := fun zero => more (List.length_eq_zero_iff.mp zero)
      refine ⟨low, high ++ [x], by rw [split, List.append_assoc], some_low, ?_, ?_, below⟩
      · rw [if_pos large, if_neg positive, ← found, List.append_assoc, List.singleton_append]
      · intro y membership
        rcases List.mem_append.mp membership with before | last
        · exact enough y before
        · rw [List.mem_singleton.mp last]
          exact large
    · refine ⟨init ++ [x], [], (List.append_nil _).symm, nonempty, ?_, by simp, ?_⟩
      · rw [if_neg large, length]
      · intro y last
        rw [List.getLast?_concat, Option.some.injEq] at last
        rw [← last]
        exact UInt64.not_le.mp large

theorem shiftUp_spec (e gap : Entry) {front : List Entry} (back : List Entry) (nonempty : front ≠ [])
    (guarded : ∀ first, front.head? = some first → first.size ≤ e.size) :
    ∃ low high, front = low ++ high ∧ low ≠ [] ∧
      shiftUp e (front ++ gap :: back) (front.length - 1) = some (low ++ e :: (high ++ back)) ∧
      (∀ x ∈ high, e.size < x.size) ∧ ∀ x, low.getLast? = some x → x.size ≤ e.size := by
  induction front using List.reverseRecOn generalizing gap back with
  | nil => exact absurd rfl nonempty
  | append_singleton init x ih =>
    have length : (init ++ [x]).length - 1 = init.length := by
      rw [List.length_append, List.length_singleton, Nat.add_sub_cancel]
    have here : (init ++ [x] ++ gap :: back)[init.length]? = some x := by
      rw [List.append_assoc, List.getElem?_append_right le_rfl, Nat.sub_self]
      rfl
    have set (y : Entry) : (init ++ [x] ++ gap :: back).set (init.length + 1) y =
        init ++ [x] ++ y :: back := by
      rw [List.set_append_right _ _ (by rw [List.length_append, List.length_singleton])]
      rw [List.length_append, List.length_singleton, Nat.sub_self]
      rfl
    rw [length, shiftUp_eq, here, Option.bind_some, set, set]
    by_cases larger : e.size < x.size
    · have more : init ≠ [] := by
        rintro rfl
        exact absurd larger (UInt64.not_lt.mpr (guarded x rfl))
      have guardedInit : ∀ first, init.head? = some first → first.size ≤ e.size := by
        intro first isFirst
        apply guarded
        rw [List.head?_append, isFirst]
        rfl
      obtain ⟨low, high, split, some_low, shifted, above, below⟩ :=
        ih x (x :: back) more guardedInit
      have positive : init.length ≠ 0 := fun zero => more (List.length_eq_zero_iff.mp zero)
      refine ⟨low, high ++ [x], by rw [split, List.append_assoc], some_low, ?_, ?_, below⟩
      · rw [if_pos larger, if_neg positive, List.append_assoc, List.singleton_append, shifted,
          List.append_assoc, List.singleton_append]
      · intro y membership
        rcases List.mem_append.mp membership with before | last
        · exact above y before
        · rw [List.mem_singleton.mp last]
          exact larger
    · refine ⟨init ++ [x], [], (List.append_nil _).symm, nonempty, ?_, by simp, ?_⟩
      · rw [if_neg larger, List.nil_append]
      · intro y last
        rw [List.getLast?_concat, Option.some.injEq] at last
        rw [← last]
        exact UInt64.not_lt.mp larger

theorem indexOfData_isSome {list : List Entry} {data start : Nat} (inside : start < list.length) :
    (∃ index, indexOfData list data start = some index) ↔
      ∃ index entry, index ≤ start ∧ list[index]? = some entry ∧ 0 < index ∧
        entry.data = data := by
  induction start with
  | zero =>
    constructor
    · rintro ⟨index, found⟩
      cases found
    · rintro ⟨index, entry, le, -, positive, -⟩
      omega
  | succ start ih =>
    have here : list[start + 1]? = some list[start + 1] := List.getElem?_eq_getElem inside
    rw [indexOfData, here, Option.bind_some]
    by_cases same : list[start + 1].data = data
    · rw [if_neg (not_not.mpr same)]
      exact iff_of_true ⟨_, rfl⟩ ⟨start + 1, _, le_rfl, here, Nat.succ_pos start, same⟩
    · rw [if_pos same, ih (Nat.lt_of_succ_lt inside)]
      constructor
      · rintro ⟨index, entry, le, rest⟩
        exact ⟨index, entry, Nat.le_succ_of_le le, rest⟩
      · rintro ⟨index, entry, le, there, positive, isData⟩
        rcases Nat.le_succ_iff.mp le with before | last
        · exact ⟨index, entry, before, there, positive, isData⟩
        · rw [last, here, Option.some.injEq] at there
          rw [there] at same
          exact absurd isData same

theorem indexOfData_spec {list : List Entry} {data start index : Nat}
    (found : indexOfData list data start = some index) :
    0 < index ∧ ∃ entry, list[index]? = some entry ∧ entry.data = data := by
  induction start with
  | zero => cases found
  | succ start ih =>
    rw [indexOfData] at found
    obtain ⟨entry, here, rest⟩ := Option.bind_eq_some_iff.mp found
    split at rest
    · exact ih rest
    · rename_i same
      obtain rfl := Option.some.inj rest
      exact ⟨Nat.succ_pos start, entry, here, not_not.mp same⟩

theorem eraseIdx_length {α : Type} (front : List α) (x : α) (back : List α) :
    (front ++ x :: back).eraseIdx front.length = front ++ back := by
  induction front with
  | nil => rfl
  | cons y rest ih =>
    rw [List.cons_append, List.length_cons, List.eraseIdx_cons_succ, ih]
    rfl

theorem size_le_last {list : List Entry} {last : Entry}
    (sorted : list.Pairwise fun a b => a.size ≤ b.size) (isLast : list.getLast? = some last) :
    ∀ x ∈ list, x.size ≤ last.size := by
  obtain ⟨init, rfl⟩ := List.getLast?_eq_some_iff.mp isLast
  intro x membership
  rcases List.mem_append.mp membership with before | here
  · exact (List.pairwise_append.mp sorted).2.2 x before last (List.mem_singleton_self last)
  · rw [List.mem_singleton.mp here]
    exact UInt64.le_refl _

theorem sorted_insert {low high : List Entry} {e : Entry}
    (sorted : (low ++ high).Pairwise fun a b => a.size ≤ b.size)
    (below : ∀ x ∈ low, x.size ≤ e.size) (above : ∀ x ∈ high, e.size ≤ x.size) :
    (low ++ e :: high).Pairwise fun a b => a.size ≤ b.size := by
  obtain ⟨lowSorted, highSorted, across⟩ := List.pairwise_append.mp sorted
  refine List.pairwise_append.mpr ⟨lowSorted, List.pairwise_cons.mpr ⟨above, highSorted⟩, ?_⟩
  intro x inLow y membership
  rcases List.mem_cons.mp membership with rfl | inHigh
  · exact below x inLow
  · exact across x inLow y inHigh

structure PoolRun.Lists (run : PoolRun) (free allocated : List Entry) : Prop where
  pool : run.pool = ⟨.guard :: free, .guard :: allocated⟩
  sorted : free.Pairwise fun a b => a.size ≤ b.size
  blocks : run.live.Perm (free ++ allocated)
  once : (run.live.map Entry.data).Nodup
  paged : ∀ block ∈ run.live, Paged block.size
  nonnull : ∀ block ∈ run.live, block.data ≠ 0

namespace PoolRun.Lists

variable {run : PoolRun} {free allocated : List Entry}

theorem start : PoolRun.Lists ⟨.new, []⟩ [] [] :=
  ⟨rfl, .nil, .nil, List.nodup_nil, by simp, by simp⟩

theorem guard_sorted (lists : run.Lists free allocated) :
    (Entry.guard :: free).Pairwise fun a b => a.size ≤ b.size :=
  List.pairwise_cons.mpr ⟨fun _ _ => UInt64.zero_le, lists.sorted⟩

theorem mem_live (lists : run.Lists free allocated) {x : Entry} :
    x ∈ run.live ↔ x ∈ free ∨ x ∈ allocated := by
  rw [lists.blocks.mem_iff, List.mem_append]

/-- A free block is taken, and the ones before it are too small; or all are too small, and a block
is obtained after at most one has been released. -/
theorem alloc_cases (lists : run.Lists free allocated) (nbytes : UInt64) (answer : Option Nat) :
    (∃ low e high, free = low ++ e :: high ∧ roundUp nbytes ≤ e.size ∧
      (∀ x ∈ low, x.size < roundUp nbytes) ∧
      run.pool.alloc nbytes answer = some (run.pool.take (.guard :: (low ++ high)) e)) ∨
    ∃ kept dropped, free = kept ++ dropped ∧ (∀ x ∈ free, x.size < roundUp nbytes) ∧
      run.pool.alloc nbytes answer = some (run.pool.obtain (.guard :: kept) (roundUp nbytes)
        (dropped.map Entry.data) answer) := by
  have guardSorted := lists.guard_sorted
  have positive := (paged_roundUp nbytes).2
  have sorted := lists.sorted
  rw [lists.pool]
  unfold Pool.alloc
  generalize roundUp nbytes = size at *
  have guardSmall : Entry.guard.size < size := UInt64.lt_iff_toNat_lt.mpr positive
  rcases List.eq_nil_or_concat' free with rfl | ⟨init, last, rfl⟩
  · exact .inr ⟨[], [], rfl, by simp, rfl⟩
  · have back : (Entry.guard :: (init ++ [last])).getLast? = some last := by
      rw [← List.cons_append, List.getLast?_concat]
    have length : (Entry.guard :: (init ++ [last])).length = init.length + 2 := by
      rw [List.length_cons, List.length_append, List.length_singleton]
    have dropLast : (Entry.guard :: (init ++ [last])).dropLast = .guard :: init := by
      rw [← List.cons_append, List.dropLast_concat]
    have largest := size_le_last sorted List.getLast?_concat
    dsimp only
    simp only [back, Option.bind_eq_bind, Option.bind_some, length, dropLast]
    by_cases large : size ≤ last.size
    · refine .inl ?_
      by_cases single : init.length + 2 = 2
      · obtain rfl := List.length_eq_zero_iff.mp (Nat.add_right_cancel single)
        refine ⟨[], last, [], rfl, large, by simp, ?_⟩
        rw [if_pos single, if_neg (UInt64.not_lt.mpr large)]
        rfl
      · rw [if_neg single, if_neg (by omega), if_pos large]
        obtain ⟨low', high', split, some_low, found, enough, below⟩ :=
          lastBelow_spec size [last] (List.cons_ne_nil Entry.guard init) (by
              intro first isFirst
              rw [← Option.some.inj isFirst]
              exact guardSmall)
        obtain ⟨low, rfl⟩ : ∃ low, low' = .guard :: low := by
          cases low' with
          | nil => exact absurd rfl some_low
          | cons first low =>
            rw [List.cons_append] at split
            rw [(List.cons.inj split).1]
            exact ⟨low, rfl⟩
        obtain ⟨e, high, rest⟩ : ∃ e high, high' ++ [last] = e :: high := by
          cases high' with
          | nil => exact ⟨last, [], rfl⟩
          | cons e high => exact ⟨e, high ++ [last], rfl⟩
        have whole : Entry.guard :: (init ++ [last]) = .guard :: low ++ e :: high := by
          rw [← List.cons_append, split, List.append_assoc, rest]
        have freeEq : init ++ [last] = low ++ e :: high := (List.cons.inj whole).2
        have fits : size ≤ e.size := by
          have membership : e ∈ high' ++ [last] := rest ▸ List.mem_cons_self
          rcases List.mem_append.mp membership with before | isLast
          · exact enough e before
          · rw [List.mem_singleton.mp isLast]
            exact large
        have lowSorted : (Entry.guard :: low).Pairwise fun a b => a.size ≤ b.size := by
          rw [whole] at guardSorted
          exact (List.pairwise_append.mp guardSorted).1
        refine ⟨low, e, high, freeEq, fits, ?_, ?_⟩
        · obtain ⟨z, isLast⟩ : ∃ z, (Entry.guard :: low).getLast? = some z :=
            ⟨_, List.getLast?_eq_some_getLast (List.cons_ne_nil _ _)⟩
          intro x membership
          exact UInt64.lt_of_le_of_lt
            (size_le_last lowSorted isLast x (List.mem_cons_of_mem _ membership)) (below z isLast)
        · have start : init.length + 2 - 2 = (Entry.guard :: init).length - 1 := rfl
          have index : (Entry.guard :: low).length - 1 + 1 = (Entry.guard :: low).length := rfl
          have here : (Entry.guard :: low ++ e :: high)[(Entry.guard :: low).length]? = some e := by
            rw [List.getElem?_append_right le_rfl, Nat.sub_self]
            rfl
          have erased := eraseIdx_length (Entry.guard :: low) e high
          rw [start, ← List.cons_append, found, Option.bind_some, List.cons_append, whole, index,
            here, Option.bind_some, erased]
          rfl
    · have tooSmall : ∀ x ∈ init ++ [last], x.size < size := fun x membership =>
        UInt64.lt_of_le_of_lt (largest x membership) (UInt64.not_le.mp large)
      refine .inr ⟨init, [last], rfl, tooSmall, ?_⟩
      split
      · rw [if_pos (UInt64.not_le.mp large)]
        rfl
      · rw [if_neg (by omega)]
        rfl

theorem insertFree_spec (lists : run.Lists free allocated) {e : Entry} (positive : 0 < e.size) :
    ∃ low high, free = low ++ high ∧ run.pool.insertFree e = some (.guard :: (low ++ e :: high)) ∧
      (low ++ e :: high).Pairwise fun a b => a.size ≤ b.size := by
  have guardSorted := lists.guard_sorted
  have sorted := lists.sorted
  rw [lists.pool]
  unfold Pool.insertFree
  rcases List.eq_nil_or_concat' free with rfl | ⟨init, last, rfl⟩
  · exact ⟨[], [], rfl, if_pos positive, List.pairwise_singleton _ _⟩
  · have back : (Entry.guard :: (init ++ [last])).getLast? = some last := by
      rw [← List.cons_append, List.getLast?_concat]
    have length : (Entry.guard :: (init ++ [last])).length = init.length + 2 := by
      rw [List.length_cons, List.length_append, List.length_singleton]
    have largest := size_le_last sorted List.getLast?_concat
    dsimp only
    simp only [back, Option.bind_eq_bind, Option.bind_some, length]
    by_cases larger : last.size < e.size
    · refine ⟨init ++ [last], [], (List.append_nil _).symm, if_pos larger, ?_⟩
      apply sorted_insert
      · rw [List.append_nil]
        exact sorted
      · exact fun x membership => UInt64.le_of_lt
          (UInt64.lt_of_le_of_lt (largest x membership) larger)
      · simp
    · rw [if_neg larger]
      split
      · rename_i single
        obtain rfl := List.length_eq_zero_iff.mp (Nat.add_right_cancel single)
        refine ⟨[], [last], rfl, rfl, ?_⟩
        apply sorted_insert sorted
        · simp
        · intro x membership
          rw [List.mem_singleton.mp membership]
          exact UInt64.not_lt.mp larger
      · obtain ⟨low', high, split, some_low, shifted, above, below⟩ :=
          shiftUp_spec e ⟨0, 0⟩ [] (List.cons_ne_nil Entry.guard (init ++ [last])) (by
              intro first isFirst
              rw [← Option.some.inj isFirst]
              exact UInt64.zero_le)
        obtain ⟨low, rfl⟩ : ∃ low, low' = .guard :: low := by
          cases low' with
          | nil => exact absurd rfl some_low
          | cons first low =>
            rw [List.cons_append] at split
            rw [(List.cons.inj split).1]
            exact ⟨low, rfl⟩
        have freeEq : init ++ [last] = low ++ high := (List.cons.inj split).2
        rw [length] at shifted
        refine ⟨low, high, freeEq, ?_, ?_⟩
        · rw [shifted, List.append_nil]
          rfl
        · apply sorted_insert (freeEq ▸ sorted)
          · have lowSorted : (Entry.guard :: low).Pairwise fun a b => a.size ≤ b.size := by
              rw [split] at guardSorted
              exact (List.pairwise_append.mp guardSorted).1
            obtain ⟨z, isLast⟩ : ∃ z, (Entry.guard :: low).getLast? = some z :=
              ⟨_, List.getLast?_eq_some_getLast (List.cons_ne_nil _ _)⟩
            intro x membership
            exact UInt64.le_trans
              (size_le_last lowSorted isLast x (List.mem_cons_of_mem _ membership)) (below z isLast)
          · exact fun x membership => UInt64.le_of_lt (above x membership)

theorem takeAllocated_spec (lists : run.Lists free allocated) {data : Nat} (nonnull : data ≠ 0)
    {e : Entry} {rest : List Entry} (taken : run.pool.takeAllocated data = some (e, rest)) :
    e.data = data ∧ ∃ front back, allocated = front ++ e :: back ∧
      rest = .guard :: (front ++ back) := by
  rw [lists.pool] at taken
  unfold Pool.takeAllocated at taken
  obtain ⟨back, isLast, taken⟩ := Option.bind_eq_some_iff.mp taken
  split at taken
  · rename_i here
    obtain ⟨rfl, rfl⟩ := Prod.mk.inj (Option.some.inj taken)
    refine ⟨here, ?_⟩
    obtain ⟨init, split⟩ := List.getLast?_eq_some_iff.mp isLast
    dsimp only at split ⊢
    rw [split, List.dropLast_concat]
    cases init with
    | nil =>
      rw [List.nil_append] at split
      rw [← (List.cons.inj split).1] at here
      exact absurd here.symm nonnull
    | cons first init =>
      rw [List.cons_append] at split
      obtain ⟨rfl, rest⟩ := List.cons.inj split
      exact ⟨init, [], rest, by rw [List.append_nil]⟩
  · obtain ⟨index, found, taken⟩ := Option.bind_eq_some_iff.mp taken
    obtain ⟨entry, there, taken⟩ := Option.bind_eq_some_iff.mp taken
    obtain ⟨rfl, rfl⟩ := Prod.mk.inj (Option.some.inj taken)
    obtain ⟨positive, other, isThere, isData⟩ := indexOfData_spec found
    rw [there, Option.some.injEq] at isThere
    subst isThere
    refine ⟨isData, ?_⟩
    obtain ⟨position, rfl⟩ : ∃ position, index = position + 1 :=
      ⟨index - 1, by omega⟩
    have inside := (List.getElem?_eq_some_iff.mp there).1
    dsimp only at there inside ⊢
    rw [List.getElem?_cons_succ] at there
    obtain ⟨small, value⟩ := List.getElem?_eq_some_iff.mp there
    have split : allocated = allocated.take position ++ entry :: allocated.drop (position + 1) := by
      rw [← value, List.getElem_cons_drop, List.take_append_drop]
    have length : (allocated.take position).length = position :=
      List.length_take_of_le small.le
    refine ⟨allocated.take position, allocated.drop (position + 1), split, ?_⟩
    rw [List.eraseIdx_cons_succ]
    have erased := eraseIdx_length (allocated.take position) entry (allocated.drop (position + 1))
    rw [length, ← split] at erased
    rw [erased]

theorem liveWithout_perm {live dropped rest : List Entry} (once : (live.map Entry.data).Nodup)
    (perm : live.Perm (dropped ++ rest)) :
    (liveWithout live (dropped.map Entry.data)).Perm rest := by
  have distinct := (perm.map Entry.data).nodup_iff.mp once
  rw [List.map_append, List.nodup_append] at distinct
  have gone : liveWithout dropped (dropped.map Entry.data) = [] := by
    refine List.filter_eq_nil_iff.mpr fun x membership => ?_
    rw [decide_eq_true_eq, not_not]
    exact List.mem_map_of_mem membership
  have kept : liveWithout rest (dropped.map Entry.data) = rest := by
    refine List.filter_eq_self.mpr fun x membership => ?_
    rw [decide_eq_true_eq]
    exact fun isDropped => distinct.2.2 _ isDropped _ (List.mem_map_of_mem membership) rfl
  have filtered : (liveWithout live (dropped.map Entry.data)).Perm
      (liveWithout (dropped ++ rest) (dropped.map Entry.data)) := perm.filter _
  have parts : liveWithout (dropped ++ rest) (dropped.map Entry.data) =
      liveWithout dropped (dropped.map Entry.data) ++
        liveWithout rest (dropped.map Entry.data) := List.filter_append ..
  rwa [parts, gone, kept, List.nil_append] at filtered

theorem liveWithout_nil (live : List Entry) : liveWithout live [] = live :=
  List.filter_eq_self.mpr fun _ _ => by simp

theorem take_lists {low high : List Entry} {e : Entry} {answer : Option Nat}
    (lists : run.Lists (low ++ e :: high) allocated)
    (allocs : run.pool.alloc nbytes answer =
      some (run.pool.take (.guard :: (low ++ high)) e)) :
    ∃ after, run.call (.alloc nbytes answer) = some after ∧
      after.Lists (low ++ high) (allocated ++ [e]) := by
  have moved : (low ++ e :: high ++ allocated).Perm (low ++ high ++ (allocated ++ [e])) := by
    have first : (low ++ e :: high ++ allocated).Perm (e :: (low ++ high ++ allocated)) :=
      List.perm_middle.append_right allocated
    have last : (e :: (low ++ high ++ allocated)).Perm (low ++ high ++ (allocated ++ [e])) := by
      rw [← List.append_assoc]
      exact (List.perm_append_singleton e _).symm
    exact first.trans last
  refine ⟨_, by rw [PoolRun.call, allocs, Option.map_some], ?_⟩
  have live : (run.pool.take (.guard :: (low ++ high)) e).obtained ++
      liveWithout run.live (run.pool.take (.guard :: (low ++ high)) e).released = run.live :=
    liveWithout_nil run.live
  rw [live]
  refine ⟨?_, ?_, lists.blocks.trans moved, lists.once, lists.paged, lists.nonnull⟩
  · rw [Pool.take, lists.pool]
    rfl
  · exact lists.sorted.sublist (List.Sublist.append_left (List.sublist_cons_self e high) low)

theorem obtain_lists {kept dropped : List Entry} {answer : Option Nat}
    (lists : run.Lists (kept ++ dropped) allocated)
    (allocs : run.pool.alloc nbytes answer = some (run.pool.obtain (.guard :: kept)
      (roundUp nbytes) (dropped.map Entry.data) answer))
    (proper : run.Proper (.alloc nbytes answer)) :
    ∃ after allocated', run.call (.alloc nbytes answer) = some after ∧
      after.Lists kept allocated' := by
  have perm : run.live.Perm (dropped ++ (kept ++ allocated)) := by
    refine lists.blocks.trans ?_
    rw [← List.append_assoc]
    exact List.perm_append_comm.append_right allocated
  have left := liveWithout_perm lists.once perm
  have leftOnce : ((liveWithout run.live (dropped.map Entry.data)).map Entry.data).Nodup :=
    lists.once.sublist (List.filter_sublist.map _)
  have sorted := (List.pairwise_append.mp lists.sorted).1
  refine ⟨_, allocated ++ (answer.map fun data => ⟨data, roundUp nbytes⟩).toList,
    by rw [PoolRun.call, allocs, Option.map_some], ?_⟩
  cases answer with
  | none =>
    refine ⟨?_, sorted, ?_, leftOnce, ?_, ?_⟩
    · rw [Pool.obtain, lists.pool, Option.map_none, Option.toList_none, List.append_nil]
    · rw [Option.map_none, Option.toList_none, List.append_nil]
      exact left
    · exact fun block membership => lists.paged block (List.mem_filter.mp membership).1
    · exact fun block membership => lists.nonnull block (List.mem_filter.mp membership).1
  | some data =>
    obtain ⟨nonnull, fresh⟩ := proper _ allocs data rfl
    refine ⟨?_, sorted, ?_, List.nodup_cons.mpr ⟨fresh, leftOnce⟩, ?_, ?_⟩
    · rw [Pool.obtain, lists.pool]
      rfl
    · refine (left.cons _).trans ?_
      rw [Option.map_some, Option.toList_some, ← List.append_assoc]
      exact (List.perm_append_singleton _ _).symm
    · refine List.forall_mem_cons.mpr ⟨paged_roundUp nbytes, ?_⟩
      exact fun block membership => lists.paged block (List.mem_filter.mp membership).1
    · refine List.forall_mem_cons.mpr ⟨nonnull, ?_⟩
      exact fun block membership => lists.nonnull block (List.mem_filter.mp membership).1

theorem nonnull_of_proper (lists : run.Lists free allocated) {data : Nat}
    (proper : run.Proper (.free data)) : data ≠ 0 := by
  obtain ⟨entry, membership, rfl⟩ := proper
  rw [lists.pool] at membership
  exact lists.nonnull entry (lists.mem_live.mpr (.inr membership))

theorem free_lists (lists : run.Lists free allocated) {data : Nat}
    (proper : run.Proper (.free data)) {taken : Entry × List Entry}
    (takes : run.pool.takeAllocated data = some taken) :
    ∃ after free' allocated', run.call (.free data) = some after ∧
      after.Lists free' allocated' := by
  obtain ⟨e, rest⟩ := taken
  obtain ⟨-, front, back, split, restEq⟩ :=
    lists.takeAllocated_spec (lists.nonnull_of_proper proper) takes
  have isLive : e ∈ run.live := by
    rw [lists.mem_live, split]
    exact .inr (List.mem_append_right _ List.mem_cons_self)
  have positive : 0 < e.size := UInt64.lt_iff_toNat_lt.mpr (lists.paged e isLive).2
  obtain ⟨low, high, freeEq, inserted, sorted⟩ := lists.insertFree_spec positive
  have moved : (free ++ allocated).Perm (low ++ e :: high ++ (front ++ back)) := by
    rw [freeEq, split]
    have first : (low ++ high ++ (front ++ e :: back)).Perm
        (e :: (low ++ high ++ (front ++ back))) := by
      rw [← List.append_assoc, ← List.append_assoc (low ++ high)]
      exact List.perm_middle
    have last : (e :: (low ++ high ++ (front ++ back))).Perm
        (low ++ e :: high ++ (front ++ back)) :=
      List.perm_middle.symm.append_right (front ++ back)
    exact first.trans last
  have called : run.call (.free data) =
      some ⟨⟨.guard :: (low ++ e :: high), .guard :: (front ++ back)⟩, run.live⟩ := by
    rw [PoolRun.call, Pool.free, takes]
    simp only [Option.bind_eq_bind, Option.bind_some, inserted, restEq, Option.map_some]
  exact ⟨_, _, _, called, rfl, sorted, lists.blocks.trans moved, lists.once, lists.paged,
    lists.nonnull⟩

theorem call (lists : run.Lists free allocated) {poolCall : PoolCall}
    (proper : run.Proper poolCall) {after : PoolRun} (called : run.call poolCall = some after) :
    ∃ free' allocated', after.Lists free' allocated' := by
  cases poolCall with
  | alloc nbytes answer =>
    rcases lists.alloc_cases nbytes answer with
      ⟨low, e, high, rfl, -, -, allocs⟩ | ⟨kept, dropped, rfl, -, allocs⟩
    · obtain ⟨next, isNext, nextLists⟩ := lists.take_lists allocs
      rw [called] at isNext
      cases isNext
      exact ⟨_, _, nextLists⟩
    · obtain ⟨next, allocated', isNext, nextLists⟩ := lists.obtain_lists allocs proper
      rw [called] at isNext
      cases isNext
      exact ⟨_, _, nextLists⟩
  | free data =>
    obtain ⟨pool, freed, -⟩ := Option.map_eq_some_iff.mp called
    obtain ⟨taken, takes, -⟩ := Option.bind_eq_some_iff.mp freed
    obtain ⟨next, free', allocated', isNext, nextLists⟩ := lists.free_lists proper takes
    rw [called] at isNext
    cases isNext
    exact ⟨_, _, nextLists⟩

theorem safe (lists : run.Lists free allocated) : run.Safe := by
  have blocks : run.live.Perm (run.pool.freeList.tail ++ run.pool.allocated.tail) := by
    rw [lists.pool]
    exact lists.blocks
  have released : run.pool.release.1 = free.map Entry.data := by
    rw [lists.pool]
    rfl
  refine ⟨by rw [lists.pool]; rfl, by rw [lists.pool]; exact lists.guard_sorted, lists.once,
    blocks, ?_⟩
  have distinct := (lists.blocks.map Entry.data).nodup_iff.mp lists.once
  rw [List.map_append] at distinct
  rw [released]
  refine ⟨(List.nodup_append.mp distinct).1, fun data membership => ?_⟩
  rw [(lists.blocks.map Entry.data).mem_iff, List.map_append]
  exact List.mem_append_left _ membership

theorem fits_of_returns {result : PoolAlloc} {data : Nat}
    (paged : ∀ entry ∈ result.pool.allocated, entry = .guard ∨ Paged entry.size)
    (returns : run.Returns nbytes result data) (positive : nbytes ≠ 0) :
    nbytes.toNat + 4096 ≤ 2 ^ 64 := by
  obtain ⟨entry, membership, -, large⟩ := returns.large
  rcases paged entry membership with rfl | whole
  · have zero := UInt64.le_iff_toNat_le.mp large
    exact absurd (UInt64.toNat_inj.mp (Nat.le_zero.mp zero)) positive
  · exact whole.fits large

theorem take_returns_iff {low high : List Entry} {e : Entry} {answer : Option Nat}
    (lists : run.Lists (low ++ e :: high) allocated) (fit : roundUp nbytes ≤ e.size)
    (tooSmall : ∀ x ∈ low, x.size < roundUp nbytes)
    (allocs : run.pool.alloc nbytes answer =
      some (run.pool.take (.guard :: (low ++ high)) e)) :
    run.Returns nbytes (run.pool.take (.guard :: (low ++ high)) e) e.data ↔
      nbytes.toNat + 4096 ≤ 2 ^ 64 := by
  have free : run.pool.freeList.tail = low ++ e :: high := by rw [lists.pool]; rfl
  have paged {x : Entry} (membership : x ∈ low ++ e :: high) : Paged x.size :=
    lists.paged x (lists.mem_live.mpr (.inl membership))
  constructor
  · intro returns
    by_cases zero : nbytes = 0
    · rw [zero]
      decide
    · refine fits_of_returns (fun entry membership => ?_) returns zero
      rw [Pool.take, lists.pool] at membership
      rcases List.mem_append.mp membership with before | last
      · rcases List.mem_cons.mp before with isGuard | inside
        · exact .inl isGuard
        · exact .inr (lists.paged entry (lists.mem_live.mpr (.inr inside)))
      · rw [List.mem_singleton.mp last]
        exact .inr (paged (List.mem_append_right _ List.mem_cons_self))
  · intro fits
    have large := UInt64.le_trans (le_roundUp fits) fit
    refine ⟨?_, ⟨e, List.mem_append_right _ (List.mem_singleton_self e), rfl, large⟩, ?_⟩
    · rw [lists.pool]
      have distinct := (lists.blocks.map Entry.data).nodup_iff.mp lists.once
      rw [List.map_append, List.nodup_append] at distinct
      intro membership
      exact distinct.2.2 e.data
        (List.mem_map_of_mem (List.mem_append_right _ List.mem_cons_self)) e.data membership rfl
    · intro _ _
      rw [free]
      refine ⟨e, List.mem_append_right _ List.mem_cons_self, rfl, large, ?_⟩
      intro other membership enough
      rcases List.mem_append.mp membership with inLow | rest
      · exact absurd ((paged membership).roundUp_le enough)
          (UInt64.not_le.mpr (tooSmall other inLow))
      · rcases List.mem_cons.mp rest with rfl | inHigh
        · exact UInt64.le_refl _
        · exact List.rel_of_pairwise_cons (List.pairwise_append.mp lists.sorted).2.1 inHigh

theorem obtain_returns_iff {kept dropped : List Entry} {data : Nat}
    (lists : run.Lists (kept ++ dropped) allocated)
    (tooSmall : ∀ x ∈ kept ++ dropped, x.size < roundUp nbytes)
    (allocs : run.pool.alloc nbytes (some data) = some (run.pool.obtain (.guard :: kept)
      (roundUp nbytes) (dropped.map Entry.data) (some data)))
    (proper : run.Proper (.alloc nbytes (some data))) :
    run.Returns nbytes (run.pool.obtain (.guard :: kept) (roundUp nbytes)
      (dropped.map Entry.data) (some data)) data ↔ nbytes.toNat + 4096 ≤ 2 ^ 64 := by
  constructor
  · intro returns
    by_cases zero : nbytes = 0
    · rw [zero]
      decide
    · refine fits_of_returns (fun entry membership => ?_) returns zero
      rw [Pool.obtain, lists.pool] at membership
      rcases List.mem_append.mp membership with before | last
      · rcases List.mem_cons.mp before with isGuard | inside
        · exact .inl isGuard
        · exact .inr (lists.paged entry (lists.mem_live.mpr (.inr inside)))
      · rw [List.mem_singleton.mp last]
        exact .inr (paged_roundUp nbytes)
  · intro fits
    obtain ⟨-, fresh⟩ := proper _ allocs data rfl
    refine ⟨?_, ⟨⟨data, roundUp nbytes⟩, List.mem_append_right _ (List.mem_singleton_self _), rfl,
      le_roundUp fits⟩, ?_⟩
    · rw [lists.pool]
      intro membership
      obtain ⟨entry, inside, rfl⟩ := List.mem_map.mp membership
      apply fresh
      have perm : run.live.Perm (dropped ++ (kept ++ allocated)) := by
        refine lists.blocks.trans ?_
        rw [← List.append_assoc]
        exact List.perm_append_comm.append_right allocated
      apply ((liveWithout_perm lists.once perm).map Entry.data).mem_iff.mpr
      exact List.mem_map_of_mem (List.mem_append_right kept inside)
    · rintro - ⟨entry, membership, enough⟩
      rw [lists.pool] at membership
      have paged := lists.paged entry (lists.mem_live.mpr (.inl membership))
      exact absurd (paged.roundUp_le enough) (UInt64.not_le.mpr (tooSmall entry membership))

theorem alloc_keeps_iff (lists : run.Lists free allocated)
    (proper : run.Proper (.alloc nbytes answer)) :
    run.Keeps (.alloc nbytes answer) ↔ run.Meets (.alloc nbytes answer) := by
  have page : kWorkspacePageSize.toNat = 4096 := rfl
  unfold PoolRun.Keeps PoolRun.Meets
  dsimp only
  rw [page]
  rcases lists.alloc_cases nbytes answer with
    ⟨low, e, high, rfl, fit, tooSmall, allocs⟩ | ⟨kept, dropped, rfl, tooSmall, allocs⟩
  · have returns := lists.take_returns_iff fit tooSmall allocs
    constructor
    · rintro ⟨result, isResult, -, -, good⟩
      rw [allocs] at isResult
      cases isResult
      exact .inl (returns.mp (good e.data rfl))
    · rintro (fits | ⟨empty, -⟩)
      · refine ⟨_, allocs, List.nodup_nil, by simp [Pool.take], fun data isData => ?_⟩
        cases isData
        exact returns.mpr fits
      · rw [lists.pool] at empty
        exact absurd empty (List.append_ne_nil_of_right_ne_nil _ (List.cons_ne_nil _ _))
  · have droppedLive : (dropped.map Entry.data).Nodup ∧
        ∀ data ∈ dropped.map Entry.data, data ∈ run.live.map Entry.data := by
      have distinct := (lists.blocks.map Entry.data).nodup_iff.mp lists.once
      rw [List.map_append, List.map_append] at distinct
      refine ⟨(List.nodup_append.mp (List.nodup_append.mp distinct).1).2.1, ?_⟩
      intro data membership
      rw [(lists.blocks.map Entry.data).mem_iff, List.map_append, List.map_append]
      exact List.mem_append_left _ (List.mem_append_right _ membership)
    cases answer with
    | some data =>
      have returns := lists.obtain_returns_iff tooSmall allocs proper
      constructor
      · rintro ⟨result, isResult, -, -, good⟩
        rw [allocs] at isResult
        cases isResult
        exact .inl (returns.mp (good data rfl))
      · rintro (fits | ⟨-, failed⟩)
        · refine ⟨_, allocs, droppedLive.1, droppedLive.2, fun other isData => ?_⟩
          cases isData
          exact returns.mpr fits
        · cases failed
    | none =>
      refine iff_of_true ⟨_, allocs, droppedLive.1, droppedLive.2, fun data none => by cases none⟩ ?_
      by_cases fits : nbytes.toNat + 4096 ≤ 2 ^ 64
      · exact .inl fits
      · refine .inr ⟨?_, rfl⟩
        rw [lists.pool]
        refine List.eq_nil_iff_forall_not_mem.mpr fun x membership => ?_
        have paged := lists.paged x (lists.mem_live.mpr (.inl membership))
        exact absurd (paged.roundUp_le_of_wraps fits) (UInt64.not_le.mpr (tooSmall x membership))

theorem startIndex_lt (pool : Pool) (some_allocated : pool.allocated ≠ []) :
    pool.startIndex < pool.allocated.length := by
  have positive := List.length_pos_iff.mpr some_allocated
  have upper : (pool.allocated.length : Int).bmod (2 ^ 32) ≤ pool.allocated.length := by
    rw [Int.bmod_def]
    split <;> omega
  unfold Pool.startIndex
  omega

theorem free_keeps_iff (lists : run.Lists free allocated) {data : Nat}
    (proper : run.Proper (.free data)) :
    run.Keeps (.free data) ↔ run.Meets (.free data) := by
  have freed : run.Keeps (.free data) ↔ ∃ taken, run.pool.takeAllocated data = some taken := by
    constructor
    · rintro ⟨pool, frees⟩
      obtain ⟨taken, takes, -⟩ := Option.bind_eq_some_iff.mp frees
      exact ⟨taken, takes⟩
    · rintro ⟨taken, takes⟩
      obtain ⟨after, -, -, called, -⟩ := lists.free_lists proper takes
      obtain ⟨pool, frees, -⟩ := Option.map_eq_some_iff.mp called
      exact ⟨pool, frees⟩
  rw [freed]
  have some_allocated : run.pool.allocated ≠ [] := by
    rw [lists.pool]
    exact List.cons_ne_nil _ _
  have last := List.getLast?_eq_some_getLast some_allocated
  generalize run.pool.allocated.getLast some_allocated = back at last
  unfold PoolRun.Meets Pool.takeAllocated
  dsimp only
  simp only [last, Option.bind_eq_bind, Option.bind_some, Option.some.injEq]
  by_cases here : back.data = data
  · rw [if_pos here]
    exact iff_of_true ⟨_, rfl⟩ (.inl ⟨back, rfl, here⟩)
  · rw [if_neg here, ← indexOfData_isSome (startIndex_lt run.pool some_allocated)]
    constructor
    · rintro ⟨taken, takes⟩
      obtain ⟨index, found, -⟩ := Option.bind_eq_some_iff.mp takes
      exact .inr ⟨index, found⟩
    · rintro (⟨other, rfl, same⟩ | ⟨index, found⟩)
      · exact absurd same here
      · obtain ⟨-, entry, there, -⟩ := indexOfData_spec found
        exact ⟨(entry, run.pool.allocated.eraseIdx index), by rw [found]; simp [there]⟩

end PoolRun.Lists

theorem PoolReached.lists {run : PoolRun} (reached : PoolReached run) :
    ∃ free allocated, run.Lists free allocated := by
  induction reached with
  | start => exact ⟨[], [], .start⟩
  | call poolCall _ proper called ih =>
    obtain ⟨free, allocated, lists⟩ := ih
    exact lists.call proper called

/-- In every run the lists are as they should be, and the next call keeps its promise if and only if
it meets the condition. -/
theorem workspace_pool_exact (run : PoolRun) (reached : PoolReached run) :
    run.Safe ∧ ∀ poolCall : PoolCall, run.Proper poolCall →
      (run.Keeps poolCall ↔ run.Meets poolCall) := by
  obtain ⟨free, allocated, lists⟩ := reached.lists
  refine ⟨lists.safe, fun poolCall proper => ?_⟩
  cases poolCall with
  | alloc nbytes answer => exact lists.alloc_keeps_iff proper
  | free data => exact lists.free_keeps_iff proper

def onePage : PoolRun :=
  ⟨⟨[.guard], [.guard, ⟨8192, 4096⟩]⟩, [⟨8192, 4096⟩]⟩

theorem onePage_reached : PoolReached onePage := by
  refine .call (.alloc 100 (some 8192)) .start ?_ rfl
  intro result allocs data isData
  cases isData
  cases allocs
  exact ⟨by decide, by decide⟩

theorem workspace_pool_exact_onePage : onePage.Safe ∧ ∀ poolCall : PoolCall,
    onePage.Proper poolCall → (onePage.Keeps poolCall ↔ onePage.Meets poolCall) :=
  workspace_pool_exact onePage onePage_reached

/-- The largest request is rounded to one page. -/
theorem workspace_pool_short : ¬∀ run : PoolRun, PoolReached run → ∀ poolCall : PoolCall,
    run.Proper poolCall → run.Keeps poolCall := by
  intro keeps
  have proper : PoolRun.Proper ⟨.new, []⟩ (.alloc 18446744073709551615 (some 8192)) := by
    intro result allocs data isData
    cases isData
    cases allocs
    exact ⟨by decide, by decide⟩
  obtain ⟨result, allocs, -, -, returns⟩ := keeps _ .start _ proper
  cases allocs
  obtain ⟨entry, membership, -, large⟩ := (returns 8192 rfl).large
  rcases List.mem_cons.mp membership with rfl | last
  · exact absurd large (by decide)
  · rw [List.mem_singleton.mp last] at large
    exact absurd large (by decide)

end Tvm.Runtime
