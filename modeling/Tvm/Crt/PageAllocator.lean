import Mathlib
import Tvm.Crt.ErrorCodes
import Tvm.Lib.Tiling

/-!
# The page allocator

`page_allocator.c` on a machine with 64-bit addresses.  `size_t` and `tvm_index_t` are
numbers below `2 ^ 64`; where the source narrows a page count to 32 bits, so does the
model.  No function looks at the sign of a `tvm_index_t`.
-/

namespace Tvm.Crt

/-- Why a call does not come back. -/
inductive Fault where
  /-- A `CHECK` macro aborts. -/
  | checkFailed
  /-- A table is written behind its end. -/
  | outOfBounds
  /-- A 32-bit loop counter never reaches its bound. -/
  | endlessLoop
  deriving DecidableEq, Repr

/-- `data` is an address. -/
structure Page where
  ptableBegin : Nat
  numPages : Nat
  data : Nat
  deriving DecidableEq, Repr

/-- The entries of the table are written but never read, and left out. -/
structure PageTable where
  memoryPool : Nat
  pageSizeBytes : Nat
  maxPages : Nat
  numPages : Nat
  deriving DecidableEq, Repr

structure PageEntry where
  addr : Nat
  page : Page
  deriving DecidableEq, Repr

/-- `entries` are the first `num_pages` entries. -/
structure TLB where
  entries : List PageEntry
  maxPages : Nat
  deriving DecidableEq, Repr

structure IndexedEntry where
  index : Nat
  page : Page
  deriving DecidableEq, Repr

/-- `entries` is the whole table, of which the first `numEntries` entries are in use. -/
structure MultiMap where
  entries : List IndexedEntry
  numEntries : Nat
  deriving DecidableEq, Repr

def MultiMap.maxEntries (map : MultiMap) : Nat := map.entries.length

structure MemoryManager where
  vleakSize : Int
  ptable : PageTable
  pmap : TLB
  freeMap : MultiMap
  deriving DecidableEq, Repr

def pageCreate (memoryPool pageSizeBytes ptableBegin numPages : Nat) : Page where
  ptableBegin := ptableBegin
  numPages := numPages
  data := (memoryPool + ptableBegin * pageSizeBytes) % 2 ^ 64

/-- The loop counts in 32 bits. -/
def pageTableResize (ptable : PageTable) (newSize : Nat) : Except Fault PageTable :=
  if newSize < ptable.numPages then .error .checkFailed
  else if ptable.numPages < newSize ∧ ptable.maxPages < newSize then .error .outOfBounds
  else if newSize < 2 ^ 32 then .ok { ptable with numPages := newSize }
  else .error .endlessLoop

def tlbFind (tlb : TLB) (data : Nat) : Option Nat :=
  tlb.entries.findIdx? (·.addr == data)

def tlbSet (tlb : TLB) (data : Nat) (page : Page) : Except Fault TLB :=
  match tlbFind tlb data with
  | none =>
    if tlb.entries.length < tlb.maxPages then
      .ok { tlb with entries := tlb.entries ++ [⟨data, page⟩] }
    else .error .outOfBounds
  | some idx => .ok { tlb with entries := tlb.entries.set idx ⟨data, page⟩ }

def MultiMap.used (map : MultiMap) : List IndexedEntry := map.entries.take map.numEntries

/-- The first block of at least `npage` pages. -/
def multiMapLowerBound (map : MultiMap) (npage : Nat) : Option Nat :=
  map.used.findIdx? (fun entry => decide (npage ≤ entry.index))

/-- The entries behind move up by one, and the last one stays as well. -/
def multiMapErase (map : MultiMap) (idx : Nat) : MultiMap where
  entries := map.used.eraseIdx idx ++ map.entries.drop (map.numEntries - 1)
  numEntries := map.numEntries - 1

/-- The loop counts in 32 bits and writes the same entry every time.  Without pages nothing
is written, and the entry counts with what it held before. -/
def multiMapInsert (map : MultiMap) (npage : Nat) (page : Page) : Except Fault MultiMap :=
  if map.maxEntries < map.numEntries + 1 then .error .checkFailed
  else if map.numEntries + npage < 2 ^ 32 then
    .ok ⟨if npage = 0 then map.entries else map.entries.set map.numEntries ⟨npage, page⟩,
      map.numEntries + 1⟩
  else .error .endlessLoop

/-- The number of pages that a request is taken for. -/
def requestedPages (ptable : PageTable) (numBytes : Nat) : Nat :=
  (numBytes + ptable.pageSizeBytes - 1) % 2 ^ 64 / ptable.pageSizeBytes

/-- `*out_ptr`, `start` and `npage` at the end of `PageMemoryManager_Allocate`. -/
structure Block where
  outPtr : Nat
  start : Nat
  npage : Nat
  deriving DecidableEq, Repr

def allocate (mgr : MemoryManager) (numBytes : Nat) :
    Except Fault (Except CrtError Block × MemoryManager) :=
  let ptable := mgr.ptable
  let npage := requestedPages ptable numBytes
  let freeMap := mgr.freeMap
  match multiMapLowerBound freeMap (npage % 2 ^ 32) with
  | some idx =>
    match freeMap.used[idx]? with
    | some entry =>
      let page := entry.page
      .ok (.ok ⟨page.data, page.ptableBegin, page.numPages⟩,
        { mgr with freeMap := multiMapErase freeMap idx, vleakSize := mgr.vleakSize + 1 })
    | none => .error .outOfBounds
  | none =>
    let start := ptable.numPages
    if ptable.maxPages < (start + npage) % 2 ^ 32 then .ok (.error .platformNoMemory, mgr)
    else
      let page := pageCreate ptable.memoryPool ptable.pageSizeBytes start npage
      match pageTableResize ptable ((start + npage) % 2 ^ 64), tlbSet mgr.pmap page.data page with
      | .error fault, _ => .error fault
      | .ok _, .error fault => .error fault
      | .ok ptable, .ok pmap =>
        .ok (.ok ⟨page.data, start, npage⟩,
          { mgr with ptable := ptable, pmap := pmap, vleakSize := mgr.vleakSize + 1 })

def free (mgr : MemoryManager) (ptr : Nat) : Except Fault MemoryManager :=
  match tlbFind mgr.pmap ptr with
  | none => .error .checkFailed
  | some idx =>
    match mgr.pmap.entries[idx]? with
    | some entry =>
      match multiMapInsert mgr.freeMap (entry.page.numPages % 2 ^ 32) entry.page with
      | .ok freeMap => .ok { mgr with freeMap := freeMap, vleakSize := mgr.vleakSize - 1 }
      | .error fault => .error fault
    | none => .error .outOfBounds

def sizeofPage : Nat := 24
def sizeofPageEntry : Nat := 32
def sizeofIndexedEntry : Nat := 32
def sizeofMemoryManager : Nat := 168

/-- The arguments of `PageMemoryManagerCreate`. -/
structure Pool where
  memoryPool : Nat
  memoryPoolSizeBytes : Nat
  pageSizeBytesLog2 : Nat
  deriving DecidableEq, Repr

def Pool.pageSizeBytes (pool : Pool) : Nat := 1 <<< pool.pageSizeBytesLog2

def Pool.numPages (pool : Pool) : Nat :=
  (pool.memoryPoolSizeBytes - sizeofMemoryManager) /
    (pool.pageSizeBytes + (sizeofPage + sizeofPageEntry + sizeofIndexedEntry))

/-- The pool exists, has room for the manager, and the page size is an `int`. -/
structure Pool.Accepted (pool : Pool) : Prop where
  exists_in_memory : pool.memoryPool + pool.memoryPoolSizeBytes ≤ 2 ^ 64
  room : sizeofMemoryManager ≤ pool.memoryPoolSizeBytes
  page_size : pool.pageSizeBytesLog2 < 31

/-- `PageMemoryManagerCreate`, which clears the pool first. -/
def pageMemoryManagerCreate (pool : Pool) : MemoryManager where
  vleakSize := 0
  ptable := ⟨pool.memoryPool, pool.pageSizeBytes, pool.numPages, 0⟩
  pmap := ⟨[], pool.numPages⟩
  freeMap := ⟨List.replicate pool.numPages ⟨0, 0, 0, 0⟩, 0⟩

end Tvm.Crt

/-!
## Live allocations do not overlap

The blocks of the translation buffer tile the pages handed out so far.  Every block is
either held by one live allocation or listed once in the free map.
-/

namespace Tvm.Crt

open Tvm.Lib

/-- What a caller knows of memory that it has not freed. -/
structure Allocation where
  ptr : Nat
  numBytes : Nat
  start : Nat
  npage : Nat
  deriving DecidableEq, Repr

structure Heap where
  mgr : MemoryManager
  live : List Allocation
  deriving DecidableEq, Repr

inductive Call where
  | allocate (numBytes : UInt64)
  /-- The caller gives up its allocation at this position. -/
  | free (index : Nat)
  deriving DecidableEq, Repr

def Heap.create (pool : Pool) : Heap := ⟨pageMemoryManagerCreate pool, []⟩

def Heap.call (heap : Heap) : Call → Except Fault Heap
  | .allocate numBytes =>
    match Crt.allocate heap.mgr numBytes.toNat with
    | .ok (.ok block, mgr) =>
      .ok ⟨mgr, ⟨block.outPtr, numBytes.toNat, block.start, block.npage⟩ :: heap.live⟩
    | .ok (.error _, mgr) => .ok ⟨mgr, heap.live⟩
    | .error fault => .error fault
  | .free index =>
    match heap.live[index]? with
    | some allocation =>
      match Crt.free heap.mgr allocation.ptr with
      | .ok mgr => .ok ⟨mgr, heap.live.eraseIdx index⟩
      | .error fault => .error fault
    | none => .ok heap

inductive Reached (admissible : MemoryManager → Call → Prop) (pool : Pool) : Heap → Prop where
  | create : Reached admissible pool (.create pool)
  | call {heap next} (call : Call) : Reached admissible pool heap → admissible heap.mgr call →
      heap.call call = .ok next → Reached admissible pool next

structure Heap.Safe (pool : Pool) (heap : Heap) : Prop where
  within : ∀ allocation ∈ heap.live, pool.memoryPool ≤ allocation.ptr ∧
    allocation.ptr + allocation.numBytes ≤
      pool.memoryPool + pool.numPages * pool.pageSizeBytes
  bytes : heap.live.Pairwise fun a b =>
    Disjoint (range a.ptr a.numBytes) (range b.ptr b.numBytes)
  pages : heap.live.Pairwise fun a b =>
    Disjoint (range a.start a.npage) (range b.start b.npage)
  pmap : heap.mgr.pmap.entries.length ≤ pool.numPages
  freeMap : heap.mgr.freeMap.numEntries ≤ pool.numPages

/-- Neither the rounding up to pages nor the narrowing to 32 bits changes what a request
asks for, and a fresh block has a page and fits. -/
structure Untruncated (mgr : MemoryManager) (numBytes : Nat) : Prop where
  size : numBytes + mgr.ptable.pageSizeBytes - 1 < 2 ^ 64
  lookup :
    multiMapLowerBound mgr.freeMap (requestedPages mgr.ptable numBytes % 2 ^ 32) =
      multiMapLowerBound mgr.freeMap (requestedPages mgr.ptable numBytes)
  fresh :
    multiMapLowerBound mgr.freeMap (requestedPages mgr.ptable numBytes) = none →
      (mgr.ptable.numPages + requestedPages mgr.ptable numBytes) % 2 ^ 32 ≤
          mgr.ptable.maxPages →
        0 < requestedPages mgr.ptable numBytes ∧
          mgr.ptable.numPages + requestedPages mgr.ptable numBytes ≤ mgr.ptable.maxPages

def Admissible (mgr : MemoryManager) : Call → Prop
  | .allocate numBytes => Untruncated mgr numBytes.toNat
  | .free _ => True

def Allocation.page (allocation : Allocation) : Page :=
  ⟨allocation.start, allocation.npage, allocation.ptr⟩

def TLB.pages (tlb : TLB) : List Page := tlb.entries.map PageEntry.page

def MultiMap.pages (map : MultiMap) : List Page := map.used.map IndexedEntry.page

structure Heap.Inv (pool : Pool) (heap : Heap) : Prop where
  memoryPool : heap.mgr.ptable.memoryPool = pool.memoryPool
  pageSizeBytes : heap.mgr.ptable.pageSizeBytes = pool.pageSizeBytes
  maxPages : heap.mgr.ptable.maxPages = pool.numPages
  maxEntries : heap.mgr.freeMap.maxEntries = pool.numPages
  numPages_le : heap.mgr.ptable.numPages ≤ pool.numPages
  numPages_lt : heap.mgr.ptable.numPages < 2 ^ 32
  numEntries_le : heap.mgr.freeMap.numEntries ≤ heap.mgr.freeMap.maxEntries
  tiles : Tiles Page.ptableBegin Page.numPages 0 heap.mgr.pmap.pages heap.mgr.ptable.numPages
  located : ∀ entry ∈ heap.mgr.pmap.entries, entry.addr = entry.page.data ∧
    entry.page.data = pool.memoryPool + entry.page.ptableBegin * pool.pageSizeBytes
  indexed : ∀ entry ∈ heap.mgr.freeMap.used, entry.index = entry.page.numPages
  blocks : (heap.live.map Allocation.page ++ heap.mgr.freeMap.pages).Perm heap.mgr.pmap.pages
  enough : ∀ allocation ∈ heap.live,
    allocation.numBytes ≤ allocation.npage * pool.pageSizeBytes

variable {pool : Pool} {heap : Heap}

theorem MultiMap.used_length (map : MultiMap) (fits : map.numEntries ≤ map.maxEntries) :
    map.used.length = map.numEntries :=
  List.length_take_of_le fits

namespace Heap.Inv

theorem page_mem (inv : heap.Inv pool) {allocation : Allocation}
    (membership : allocation ∈ heap.live) : allocation.page ∈ heap.mgr.pmap.pages :=
  inv.blocks.subset (List.mem_append_left _ (List.mem_map_of_mem membership))

theorem data_eq (inv : heap.Inv pool) {page : Page} (membership : page ∈ heap.mgr.pmap.pages) :
    page.data = pool.memoryPool + page.ptableBegin * pool.pageSizeBytes := by
  obtain ⟨entry, found, rfl⟩ := List.mem_map.mp membership
  exact (inv.located entry found).2

theorem apart (inv : heap.Inv pool) : heap.live.Pairwise fun a b =>
    a.start + a.npage ≤ b.start ∨ b.start + b.npage ≤ a.start := by
  have ordered : heap.mgr.pmap.pages.Pairwise fun p q =>
      p.ptableBegin + p.numPages ≤ q.ptableBegin ∨ q.ptableBegin + q.numPages ≤ p.ptableBegin :=
    inv.tiles.pairwise.imp Or.inl
  have shuffled := (inv.blocks.pairwise_iff fun together => together.symm).mpr ordered
  exact List.pairwise_map.mp (List.pairwise_append.mp shuffled).1

theorem safe (inv : heap.Inv pool) : heap.Safe pool where
  within allocation membership := by
    have page := inv.page_mem membership
    obtain ⟨-, -, below⟩ := inv.tiles.bounds page
    have address := inv.data_eq page
    have enough := inv.enough allocation membership
    have top : (allocation.start + allocation.npage) * pool.pageSizeBytes ≤
        pool.numPages * pool.pageSizeBytes :=
      Nat.mul_le_mul_right _ (le_trans below inv.numPages_le)
    rw [Nat.add_mul] at top
    simp only [Allocation.page] at address
    omega
  bytes := by
    refine List.Pairwise.imp_of_mem ?_ inv.apart
    intro a b aLive bLive apart
    have aAddress := inv.data_eq (inv.page_mem aLive)
    have bAddress := inv.data_eq (inv.page_mem bLive)
    have aEnough := inv.enough a aLive
    have bEnough := inv.enough b bLive
    simp only [Allocation.page] at aAddress bAddress
    rcases apart with before | behind
    · have scaled := Nat.mul_le_mul_right pool.pageSizeBytes before
      rw [Nat.add_mul] at scaled
      exact range_disjoint (by omega)
    · have scaled := Nat.mul_le_mul_right pool.pageSizeBytes behind
      rw [Nat.add_mul] at scaled
      exact (range_disjoint (by omega)).symm
  pages := by
    refine inv.apart.imp ?_
    intro a b apart
    rcases apart with before | behind
    · exact range_disjoint before
    · exact (range_disjoint behind).symm
  pmap := by
    have few := inv.tiles.length_le
    rw [TLB.pages, List.length_map, Nat.zero_add] at few
    exact le_trans few inv.numPages_le
  freeMap := inv.maxEntries ▸ inv.numEntries_le

end Heap.Inv

theorem multiMapErase_used (map : MultiMap) {idx : Nat} (fits : map.numEntries ≤ map.maxEntries)
    (inUse : idx < map.used.length) : (multiMapErase map idx).used = map.used.eraseIdx idx := by
  apply List.take_left'
  rw [List.length_eraseIdx_of_lt inUse, map.used_length fits]
  rfl

theorem multiMapErase_maxEntries (map : MultiMap) {idx : Nat}
    (fits : map.numEntries ≤ map.maxEntries) (inUse : idx < map.used.length) :
    (multiMapErase map idx).maxEntries = map.maxEntries := by
  have used := map.used_length fits
  simp only [multiMapErase, MultiMap.maxEntries, List.length_append, List.length_drop,
    List.length_eraseIdx_of_lt inUse] at fits ⊢
  omega

theorem multiMapInsert_ok {map next : MultiMap} {npage : Nat} {page : Page}
    (positive : 0 < npage) (inserted : multiMapInsert map npage page = .ok next) :
    next.numEntries = map.numEntries + 1 ∧ map.numEntries < map.maxEntries ∧
      next.maxEntries = map.maxEntries ∧ next.used = map.used ++ [⟨npage, page⟩] := by
  unfold multiMapInsert at inserted
  split at inserted
  · cases inserted
  rename_i full
  split at inserted
  · rw [if_neg positive.ne'] at inserted
    obtain rfl := Except.ok.inj inserted
    have room : map.numEntries < map.entries.length := Nat.lt_of_succ_le (Nat.not_lt.mp full)
    refine ⟨rfl, room, by simp [MultiMap.maxEntries], ?_⟩
    have shape : map.entries.set map.numEntries ⟨npage, page⟩ =
        (map.used ++ [⟨npage, page⟩]) ++ map.entries.drop (map.numEntries + 1) := by
      rw [List.set_eq_take_append_cons_drop, if_pos room, MultiMap.used, List.append_assoc]
      rfl
    rw [MultiMap.used, shape]
    apply List.take_left'
    rw [List.length_append, map.used_length room.le]
    rfl
  · cases inserted

theorem pageTableResize_ok {ptable next : PageTable} {newSize : Nat}
    (resized : pageTableResize ptable newSize = .ok next) :
    next = { ptable with numPages := newSize } ∧ newSize < 2 ^ 32 := by
  unfold pageTableResize at resized
  split at resized
  · cases resized
  split at resized
  · cases resized
  split at resized
  · rename_i ends
    exact ⟨(Except.ok.inj resized).symm, ends⟩
  · cases resized

theorem tlbSet_ok {tlb next : TLB} {data : Nat} {page : Page}
    (fresh : ∀ entry ∈ tlb.entries, entry.addr ≠ data) (stored : tlbSet tlb data page = .ok next) :
    next.entries = tlb.entries ++ [⟨data, page⟩] := by
  have missing : tlbFind tlb data = none := by
    rw [tlbFind, List.findIdx?_eq_none_iff]
    intro entry membership
    simpa using fresh entry membership
  simp only [tlbSet, missing] at stored
  by_cases room : tlb.entries.length < tlb.maxPages
  · rw [if_pos room] at stored
    rw [← Except.ok.inj stored]
  · simp [room] at stored

theorem allocate_cases {mgr next : MemoryManager} {numBytes : Nat} {result : Except CrtError Block}
    (done : allocate mgr numBytes = .ok (result, next)) :
    let npage := requestedPages mgr.ptable numBytes
    (∃ idx entry, multiMapLowerBound mgr.freeMap (npage % 2 ^ 32) = some idx ∧
      mgr.freeMap.used[idx]? = some entry ∧
      result = .ok ⟨entry.page.data, entry.page.ptableBegin, entry.page.numPages⟩ ∧
      next = { mgr with freeMap := multiMapErase mgr.freeMap idx, vleakSize := mgr.vleakSize + 1 }) ∨
    (result = .error .platformNoMemory ∧ next = mgr) ∨
    (multiMapLowerBound mgr.freeMap (npage % 2 ^ 32) = none ∧
      (mgr.ptable.numPages + npage) % 2 ^ 32 ≤ mgr.ptable.maxPages ∧
      ∃ page ptable pmap,
        page = pageCreate mgr.ptable.memoryPool mgr.ptable.pageSizeBytes mgr.ptable.numPages npage ∧
        pageTableResize mgr.ptable ((mgr.ptable.numPages + npage) % 2 ^ 64) = .ok ptable ∧
        tlbSet mgr.pmap page.data page = .ok pmap ∧
        result = .ok ⟨page.data, mgr.ptable.numPages, npage⟩ ∧
        next = { mgr with ptable := ptable, pmap := pmap, vleakSize := mgr.vleakSize + 1 }) := by
  intro npage
  simp only [allocate] at done
  split at done
  next idx found =>
    split at done
    next entry here =>
      obtain ⟨rfl, rfl⟩ := Prod.mk.inj (Except.ok.inj done)
      exact .inl ⟨idx, entry, found, here, rfl, rfl⟩
    next => cases done
  next missing =>
    split at done
    next =>
      obtain ⟨rfl, rfl⟩ := Prod.mk.inj (Except.ok.inj done)
      exact .inr (.inl ⟨rfl, rfl⟩)
    next fits =>
      split at done
      next => cases done
      next => cases done
      next ptable pmap resized stored =>
        obtain ⟨rfl, rfl⟩ := Prod.mk.inj (Except.ok.inj done)
        exact .inr (.inr ⟨missing, Nat.not_lt.mp fits, _, ptable, pmap, rfl, resized, stored, rfl,
          rfl⟩)

theorem free_ok {mgr next : MemoryManager} {ptr : Nat} (done : free mgr ptr = .ok next) :
    ∃ idx entry freeMap, tlbFind mgr.pmap ptr = some idx ∧ mgr.pmap.entries[idx]? = some entry ∧
      multiMapInsert mgr.freeMap (entry.page.numPages % 2 ^ 32) entry.page = .ok freeMap ∧
      next = { mgr with freeMap := freeMap, vleakSize := mgr.vleakSize - 1 } := by
  unfold free at done
  split at done
  next => cases done
  next idx found =>
    split at done
    next entry here =>
      split at done
      next freeMap inserted =>
        exact ⟨idx, entry, freeMap, found, here, inserted, (Except.ok.inj done).symm⟩
      next => cases done
    next => cases done

theorem Pool.pageSizeBytes_pos (pool : Pool) : 0 < pool.pageSizeBytes := by
  rw [Pool.pageSizeBytes, Nat.one_shiftLeft]
  exact Nat.two_pow_pos _

theorem Pool.Accepted.area (accepted : pool.Accepted) :
    pool.memoryPool + pool.numPages * pool.pageSizeBytes < 2 ^ 64 := by
  have pages := Nat.div_mul_le_self (pool.memoryPoolSizeBytes - sizeofMemoryManager)
    (pool.pageSizeBytes + (sizeofPage + sizeofPageEntry + sizeofIndexedEntry))
  rw [← Pool.numPages, Nat.mul_add] at pages
  have placed := accepted.exists_in_memory
  have room := accepted.room
  have manager : 0 < sizeofMemoryManager := by decide
  omega

theorem requestedPages_enough (ptable : PageTable) {numBytes : Nat}
    (positive : 0 < ptable.pageSizeBytes)
    (size : numBytes + ptable.pageSizeBytes - 1 < 2 ^ 64) :
    numBytes ≤ requestedPages ptable numBytes * ptable.pageSizeBytes := by
  rw [requestedPages, Nat.mod_eq_of_lt size]
  have rounded := Nat.div_add_mod (numBytes + ptable.pageSizeBytes - 1) ptable.pageSizeBytes
  have rest := Nat.mod_lt (numBytes + ptable.pageSizeBytes - 1) positive
  rw [Nat.mul_comm] at rounded
  omega

namespace Heap.Inv

theorem create (pool : Pool) : (Heap.create pool).Inv pool where
  memoryPool := rfl
  pageSizeBytes := rfl
  maxPages := rfl
  maxEntries := List.length_replicate
  numPages_le := Nat.zero_le _
  numPages_lt := Nat.two_pow_pos 32
  numEntries_le := Nat.zero_le _
  tiles := rfl
  located _ membership := nomatch membership
  indexed entry membership := by simp [Heap.create, pageMemoryManagerCreate, MultiMap.used] at membership
  blocks := by simp [Heap.create, pageMemoryManagerCreate, MultiMap.pages, MultiMap.used, TLB.pages]
  enough _ membership := nomatch membership

theorem reuse (inv : heap.Inv pool) {idx numBytes : Nat} {entry : IndexedEntry}
    (here : heap.mgr.freeMap.used[idx]? = some entry)
    (enough : numBytes ≤ entry.index * pool.pageSizeBytes) :
    Heap.Inv pool
      ⟨{ heap.mgr with
          freeMap := multiMapErase heap.mgr.freeMap idx, vleakSize := heap.mgr.vleakSize + 1 },
        ⟨entry.page.data, numBytes, entry.page.ptableBegin, entry.page.numPages⟩ :: heap.live⟩ := by
  obtain ⟨inUse, rfl⟩ := List.getElem?_eq_some_iff.mp here
  have used := multiMapErase_used heap.mgr.freeMap inv.numEntries_le inUse
  have capacity := multiMapErase_maxEntries heap.mgr.freeMap inv.numEntries_le inUse
  have index := inv.indexed _ (List.getElem_mem inUse)
  refine ⟨inv.memoryPool, inv.pageSizeBytes, inv.maxPages, capacity.trans inv.maxEntries,
    inv.numPages_le, inv.numPages_lt, ?_, inv.tiles, inv.located, ?_, ?_, ?_⟩
  · rw [capacity]
    exact le_trans (Nat.sub_le _ _) inv.numEntries_le
  · intro entry membership
    rw [used] at membership
    exact inv.indexed entry (List.mem_of_mem_eraseIdx membership)
  · refine List.Perm.trans ?_ inv.blocks
    have taken := (List.getElem_cons_eraseIdx_perm inUse).map IndexedEntry.page
    simp only [MultiMap.pages, used, List.map_cons, List.cons_append]
    exact List.perm_middle.symm.trans (taken.append_left _)
  · intro allocation membership
    rcases List.mem_cons.mp membership with rfl | old
    · rw [index] at enough
      exact enough
    · exact inv.enough allocation old

theorem extend (inv : heap.Inv pool) (accepted : pool.Accepted) {numBytes npage : Nat}
    {ptable : PageTable} {pmap : TLB} {page : Page} (positive : 0 < npage)
    (fits : heap.mgr.ptable.numPages + npage ≤ heap.mgr.ptable.maxPages)
    (made : page = pageCreate heap.mgr.ptable.memoryPool heap.mgr.ptable.pageSizeBytes
      heap.mgr.ptable.numPages npage)
    (resized : pageTableResize heap.mgr.ptable ((heap.mgr.ptable.numPages + npage) % 2 ^ 64) =
      .ok ptable)
    (stored : tlbSet heap.mgr.pmap page.data page = .ok pmap)
    (enough : numBytes ≤ npage * pool.pageSizeBytes) :
    Heap.Inv pool
      ⟨{ heap.mgr with ptable := ptable, pmap := pmap, vleakSize := heap.mgr.vleakSize + 1 },
        ⟨page.data, numBytes, heap.mgr.ptable.numPages, npage⟩ :: heap.live⟩ := by
  have area := accepted.area
  have size := pool.pageSizeBytes_pos
  rw [inv.maxPages] at fits
  have inside : heap.mgr.ptable.numPages * pool.pageSizeBytes ≤
      pool.numPages * pool.pageSizeBytes := Nat.mul_le_mul_right _ inv.numPages_le
  have few : pool.numPages ≤ pool.numPages * pool.pageSizeBytes := Nat.le_mul_of_pos_right _ size
  have data : page.data = pool.memoryPool + heap.mgr.ptable.numPages * pool.pageSizeBytes := by
    rw [made, pageCreate, inv.memoryPool, inv.pageSizeBytes]
    exact Nat.mod_eq_of_lt (by omega)
  have begin_eq : page.ptableBegin = heap.mgr.ptable.numPages := by rw [made]; rfl
  have pages_eq : page.numPages = npage := by rw [made]; rfl
  have unwrapped : (heap.mgr.ptable.numPages + npage) % 2 ^ 64 = heap.mgr.ptable.numPages + npage :=
    Nat.mod_eq_of_lt (by omega)
  rw [unwrapped] at resized
  obtain ⟨rfl, small⟩ := pageTableResize_ok resized
  have fresh : ∀ entry ∈ heap.mgr.pmap.entries, entry.addr ≠ page.data := by
    intro entry membership same
    obtain ⟨address, located⟩ := inv.located entry membership
    obtain ⟨-, nonempty, below⟩ := inv.tiles.bounds (List.mem_map_of_mem membership)
    have before : entry.page.ptableBegin < heap.mgr.ptable.numPages := by omega
    have scaled := Nat.mul_lt_mul_of_pos_right before size
    omega
  have entries := tlbSet_ok fresh stored
  have pages : pmap.pages = heap.mgr.pmap.pages ++ [page] := by
    rw [TLB.pages, entries, List.map_append]
    rfl
  refine ⟨inv.memoryPool, inv.pageSizeBytes, inv.maxPages, inv.maxEntries, fits, small,
    inv.numEntries_le, ?_, ?_, inv.indexed, ?_, ?_⟩
  · have tiles := inv.tiles.snoc (x := page) begin_eq (pages_eq ▸ positive)
    rw [pages_eq, ← pages] at tiles
    exact tiles
  · intro entry membership
    rw [entries] at membership
    rcases List.mem_append.mp membership with old | new
    · exact inv.located entry old
    · obtain rfl := List.mem_singleton.mp new
      exact ⟨rfl, begin_eq ▸ data⟩
  · have same : (⟨heap.mgr.ptable.numPages, npage, page.data⟩ : Page) = page := by
      rw [made]
      rfl
    simp only [pages, List.map_cons, List.cons_append, Allocation.page, same]
    exact (inv.blocks.cons page).trans (List.perm_append_singleton page _).symm
  · intro allocation membership
    rcases List.mem_cons.mp membership with rfl | old
    · exact enough
    · exact inv.enough allocation old

theorem find_block (inv : heap.Inv pool) {allocation : Allocation}
    (membership : allocation ∈ heap.live) {idx : Nat} {entry : PageEntry}
    (found : tlbFind heap.mgr.pmap allocation.ptr = some idx)
    (here : heap.mgr.pmap.entries[idx]? = some entry) : entry.page = allocation.page := by
  obtain ⟨inTable, matched, -⟩ := List.findIdx?_eq_some_iff_getElem.mp found
  obtain ⟨-, rfl⟩ := List.getElem?_eq_some_iff.mp here
  have page := inv.page_mem membership
  obtain ⟨address, located⟩ := inv.located _ (List.getElem_mem inTable)
  have same : heap.mgr.pmap.entries[idx].page.ptableBegin * pool.pageSizeBytes =
      allocation.page.ptableBegin * pool.pageSizeBytes := by
    have data : allocation.ptr = pool.memoryPool + allocation.page.ptableBegin * pool.pageSizeBytes :=
      inv.data_eq page
    have ptr : heap.mgr.pmap.entries[idx].addr = allocation.ptr := by simpa using matched
    omega
  exact inv.tiles.eq_of_first_eq (List.mem_map_of_mem (List.getElem_mem inTable)) page
    (Nat.eq_of_mul_eq_mul_right pool.pageSizeBytes_pos same)

theorem release (inv : heap.Inv pool) {index idx : Nat} {allocation : Allocation}
    {entry : PageEntry} {freeMap : MultiMap} (live : heap.live[index]? = some allocation)
    (found : tlbFind heap.mgr.pmap allocation.ptr = some idx)
    (here : heap.mgr.pmap.entries[idx]? = some entry)
    (inserted : multiMapInsert heap.mgr.freeMap (entry.page.numPages % 2 ^ 32) entry.page =
      .ok freeMap) :
    Heap.Inv pool
      ⟨{ heap.mgr with freeMap := freeMap, vleakSize := heap.mgr.vleakSize - 1 },
        heap.live.eraseIdx index⟩ := by
  obtain ⟨inRange, rfl⟩ := List.getElem?_eq_some_iff.mp live
  have block := inv.find_block (List.getElem_mem inRange) found here
  have page := inv.page_mem (List.getElem_mem inRange)
  obtain ⟨-, positive, below⟩ := inv.tiles.bounds page
  have small : heap.live[index].page.numPages % 2 ^ 32 = heap.live[index].page.numPages :=
    Nat.mod_eq_of_lt (lt_of_le_of_lt (le_trans (Nat.le_add_left _ _) below) inv.numPages_lt)
  rw [block, small] at inserted
  obtain ⟨count, room, capacity, used⟩ := multiMapInsert_ok positive inserted
  refine ⟨inv.memoryPool, inv.pageSizeBytes, inv.maxPages, capacity.trans inv.maxEntries,
    inv.numPages_le, inv.numPages_lt, ?_, inv.tiles, inv.located, ?_, ?_, ?_⟩
  · rw [count, capacity]
    exact room
  · intro entry membership
    rw [used] at membership
    rcases List.mem_append.mp membership with old | new
    · exact inv.indexed entry old
    · obtain rfl := List.mem_singleton.mp new
      rfl
  · refine List.Perm.trans ?_ inv.blocks
    have given := (List.getElem_cons_eraseIdx_perm inRange).map Allocation.page
    simp only [MultiMap.pages, used, List.map_append, List.map_cons, List.map_nil]
    rw [← List.append_assoc]
    refine (List.perm_append_singleton _ _).trans ?_
    rw [← List.cons_append]
    exact given.append_right _
  · intro other membership
    exact inv.enough other (List.mem_of_mem_eraseIdx membership)

theorem call (inv : heap.Inv pool) (accepted : pool.Accepted) {call : Call} {next : Heap}
    (admissible : Admissible heap.mgr call) (done : heap.call call = .ok next) :
    next.Inv pool := by
  cases call with
  | allocate numBytes =>
    obtain ⟨size, lookup, fresh⟩ := admissible
    have enough := requestedPages_enough heap.mgr.ptable
      (inv.pageSizeBytes ▸ pool.pageSizeBytes_pos) size
    rw [inv.pageSizeBytes] at enough
    simp only [Heap.call] at done
    split at done
    next block mgr allocated =>
      obtain rfl := Except.ok.inj done
      rcases allocate_cases allocated with
        ⟨idx, entry, found, here, block_eq, rfl⟩ | ⟨refused, -⟩ |
        ⟨missing, fits, page, ptable, pmap, made, resized, stored, block_eq, rfl⟩
      · obtain rfl := Except.ok.inj block_eq
        apply inv.reuse here
        rw [lookup] at found
        obtain ⟨inUse, large, -⟩ := List.findIdx?_eq_some_iff_getElem.mp found
        obtain ⟨-, rfl⟩ := List.getElem?_eq_some_iff.mp here
        exact le_trans enough (Nat.mul_le_mul_right _ (of_decide_eq_true large))
      · cases refused
      · obtain rfl := Except.ok.inj block_eq
        obtain ⟨positive, inside⟩ := fresh (lookup ▸ missing) fits
        exact inv.extend accepted positive inside made resized stored enough
    next code mgr refused =>
      obtain rfl := Except.ok.inj done
      rcases allocate_cases refused with
        ⟨idx, entry, found, here, block_eq, -⟩ | ⟨-, rfl⟩ |
        ⟨missing, fits, page, ptable, pmap, made, resized, stored, block_eq, -⟩
      · cases block_eq
      · exact inv
      · cases block_eq
    next => cases done
  | free index =>
    simp only [Heap.call] at done
    split at done
    next allocation live =>
      split at done
      next mgr freed =>
        obtain rfl := Except.ok.inj done
        obtain ⟨idx, entry, freeMap, found, here, inserted, rfl⟩ := free_ok freed
        exact inv.release live found here inserted
      next => cases done
    next =>
      obtain rfl := Except.ok.inj done
      exact inv

end Heap.Inv

def Heap.calls (heap : Heap) : List Call → Except Fault Heap
  | [] => .ok heap
  | call :: calls =>
    match heap.call call with
    | .ok next => next.calls calls
    | .error fault => .error fault

theorem Reached.calls {admissible : MemoryManager → Call → Prop} {calls : List Call} {next : Heap}
    (reached : Reached admissible pool heap) (all : ∀ mgr, ∀ call ∈ calls, admissible mgr call)
    (done : heap.calls calls = .ok next) : Reached admissible pool next := by
  induction calls generalizing heap with
  | nil =>
    obtain rfl := Except.ok.inj done
    exact reached
  | cons call calls ih =>
    simp only [Heap.calls] at done
    split at done
    next middle here =>
      refine ih (.call call reached (all _ call List.mem_cons_self) here) ?_ done
      exact fun mgr later membership => all mgr later (List.mem_cons_of_mem _ membership)
    next => cases done

theorem Reached.inv (accepted : pool.Accepted) (reached : Reached Admissible pool heap) :
    heap.Inv pool := by
  induction reached with
  | create => exact Heap.Inv.create pool
  | call _ _ admissible done ih => exact ih.call accepted admissible done

def twoPages : Pool := ⟨4096, 856, 8⟩

end Tvm.Crt
