import Tvm.Lib.Memory
import Tvm.Lib.Tiling

/-!
# The stack allocator

`stack_allocator.c` on a machine with 64-bit addresses.  A tag behind each block holds its
size for the check that blocks are freed in the reverse order of their allocation.
-/

namespace Tvm.Crt

open Tvm.Lib

inductive StackError where
  | noError
  | platformNoMemory
  | platformStackAllocBadFree
  deriving DecidableEq, Repr

def stackAllocatorTag : UInt32 := 0xabcd1234

def stackAllocatorTagSizeBytes : Nat := 4

def runtimeAllocAlignmentBytes : Nat := 16

structure Workspace where
  nextAlloc : Nat
  workspace : Nat
  workspaceSize : Nat
  deriving DecidableEq, Repr

/-- Addresses and sizes wrap. -/
def wrapped (value : Int) : Nat := (value % 2 ^ 64).toNat

/-- What reserves bytes at the end of a block, up to the alignment. -/
def offsetBytes (nbytes : Int32) : UInt32 := ((16 - nbytes) &&& (16 - 1)).toUInt32

def Workspace.workspaceEnd (ws : Workspace) : Nat := wrapped (ws.workspace + ws.workspaceSize)

/-- What `StackMemoryManager_Allocate_Body` returns and leaves behind. -/
structure Allocated where
  error : StackError
  workspace : Workspace
  memory : Memory
  currentAlloc : Nat

def stackAllocateBody (ws : Workspace) (memory : Memory) (nbytes : Int32) (currentAlloc : Nat)
    (doLifoCheck : UInt8) : Allocated :=
  let offset := offsetBytes nbytes
  let nextAlloc := wrapped (ws.nextAlloc + nbytes.toInt + offset.toNat)
  if ws.workspaceEnd < nextAlloc then ⟨.platformNoMemory, ws, memory, currentAlloc⟩
  else if doLifoCheck ≠ 0 then
    let behind := wrapped (nextAlloc + stackAllocatorTagSizeBytes)
    -- `*current_alloc` has been written by now
    if ws.workspaceEnd < behind then ⟨.platformNoMemory, ws, memory, ws.nextAlloc⟩
    else
      let totalSize : UInt32 := nbytes.toUInt32 + offset + 4
      ⟨.noError, { ws with nextAlloc := behind },
        store memory nextAlloc (leBytes 4 (totalSize ^^^ stackAllocatorTag).toNat), ws.nextAlloc⟩
  else ⟨.noError, { ws with nextAlloc := nextAlloc }, memory, ws.nextAlloc⟩

def stackFreeBody (ws : Workspace) (memory : Memory) (ptr : Nat) (doLifoCheck : UInt8) :
    StackError × Workspace :=
  let tag := UInt32.ofNat
    (leValue (load memory (wrapped (ws.nextAlloc - stackAllocatorTagSizeBytes)) 4))
  let actualSize := UInt32.ofNat (wrapped (ws.nextAlloc - ptr))
  let expectedSize := tag ^^^ stackAllocatorTag
  if doLifoCheck ≠ 0 ∧ expectedSize ≠ actualSize then (.platformStackAllocBadFree, ws)
  else (.noError, { ws with nextAlloc := ptr })

def stackInit (gAotMemory workspaceSize : Nat) : Workspace :=
  let unalignedMask := runtimeAllocAlignmentBytes - 1
  -- the low bits are cleared
  let memoryAligned :=
    wrapped (gAotMemory + unalignedMask) / runtimeAllocAlignmentBytes * runtimeAllocAlignmentBytes
  let offset := UInt32.ofNat (wrapped (memoryAligned - gAotMemory))
  { nextAlloc := memoryAligned
    workspace := memoryAligned
    workspaceSize := wrapped (workspaceSize - offset.toNat) }

end Tvm.Crt

/-!
## Blocks are freed in reverse

The live blocks and their tags lie end to end in the workspace.  Two slips break the promise of
a call: `*current_alloc` is written before the room for the tag is checked, and the sizes that
`StackMemoryManager_Free_Body` compares have 32 bits.
-/

namespace Tvm.Crt

open Tvm.Lib

structure WorkspaceMemory where
  gAotMemory : Nat
  workspaceSize : Nat
  exists_in_memory : gAotMemory + workspaceSize < 2 ^ 64
  /-- Differences of addresses in the buffer have a sign bit. -/
  size_lt : workspaceSize < 2 ^ 63
  alignable : gAotMemory + 15 < 2 ^ 64

/-- A block with what its caller knows, and the `next_alloc` from before. -/
structure LiveBlock where
  ptr : Nat
  nbytes : Nat
  tag : Nat
  before : Nat
  deriving DecidableEq, Repr

structure StackState where
  workspace : Workspace
  memory : Memory
  /-- The last one first. -/
  live : List LiveBlock

/-- A call with `do_lifo_check` set.  `currentAlloc` is what `*current_alloc` holds before. -/
inductive StackCall where
  | allocate (nbytes : Int32) (currentAlloc : Nat) (doLifoCheck : UInt8)
  | free (ptr : UInt64) (doLifoCheck : UInt8)

def StackCall.Proper : StackCall → Prop
  | .allocate nbytes _ doLifoCheck => 0 ≤ nbytes.toInt ∧ doLifoCheck ≠ 0
  | .free _ doLifoCheck => doLifoCheck ≠ 0

def StackState.start (buffer : WorkspaceMemory) (memory : Memory) : StackState :=
  ⟨stackInit buffer.gAotMemory buffer.workspaceSize, memory, []⟩

def StackState.allocated (state : StackState) (nbytes : Int32) (currentAlloc : Nat)
    (doLifoCheck : UInt8) : Allocated :=
  stackAllocateBody state.workspace state.memory nbytes currentAlloc doLifoCheck

def StackState.freed (state : StackState) (ptr : UInt64) (doLifoCheck : UInt8) :
    StackError × Workspace :=
  stackFreeBody state.workspace state.memory ptr.toNat doLifoCheck

def StackState.call (state : StackState) : StackCall → StackState
  | .allocate nbytes currentAlloc doLifoCheck =>
    let result := state.allocated nbytes currentAlloc doLifoCheck
    let block : LiveBlock :=
      ⟨result.currentAlloc, nbytes.toInt.toNat,
        wrapped (result.workspace.nextAlloc - stackAllocatorTagSizeBytes),
        state.workspace.nextAlloc⟩
    ⟨result.workspace, result.memory,
      if result.error = .noError then block :: state.live else state.live⟩
  | .free ptr doLifoCheck =>
    let result := state.freed ptr doLifoCheck
    ⟨result.2, state.memory, if result.1 = .noError then state.live.tail else state.live⟩

def LiveBlock.ranges (block : LiveBlock) : List (Set Nat) :=
  [range block.ptr block.nbytes, range block.tag stackAllocatorTagSizeBytes]

def StackState.ranges (state : StackState) : List (Set Nat) :=
  state.live.flatMap LiveBlock.ranges

/-- The workspace is the buffer from the first aligned address on. -/
structure StackState.Safe (buffer : WorkspaceMemory) (state : StackState) : Prop where
  inside : ∀ bytes ∈ state.ranges, bytes ⊆
    Set.Ico (stackInit buffer.gAotMemory buffer.workspaceSize).workspace
      (buffer.gAotMemory + buffer.workspaceSize)
  disjoint : state.ranges.Pairwise Disjoint

def StackState.Keeps (buffer : WorkspaceMemory) (state : StackState) : StackCall → Prop
  | .allocate nbytes currentAlloc doLifoCheck =>
    let result := state.allocated nbytes currentAlloc doLifoCheck
    (state.call (.allocate nbytes currentAlloc doLifoCheck)).Safe buffer ∧
      (result.error ≠ .noError → result.workspace = state.workspace ∧
        result.memory = state.memory ∧ result.currentAlloc = currentAlloc)
  | .free ptr doLifoCheck =>
    let result := state.freed ptr doLifoCheck
    (result.1 = .noError ↔ ∃ last, state.live.head? = some last ∧ last.ptr = ptr.toNat) ∧
      (∀ last, state.live.head? = some last → result.1 = .noError →
        result.2 = { state.workspace with nextAlloc := last.before }) ∧
      (result.1 ≠ .noError → result.2 = state.workspace)

/-- The bytes of a block without its tag. -/
def padded (nbytes : Int32) : Nat := nbytes.toInt.toNat + (offsetBytes nbytes).toNat

/-- The size that the tag in front of `next_alloc` stands for. -/
def StackState.expectedSize (state : StackState) : UInt32 :=
  UInt32.ofNat (leValue (load state.memory
    (wrapped (state.workspace.nextAlloc - stackAllocatorTagSizeBytes)) 4)) ^^^ stackAllocatorTag

/-- A block fits together with its tag, or it does not fit without the tag either; a pointer
that is not the last one is no multiple of 4 GiB away from it, and without a live block
whatever lies in front of the workspace does not look like a tag. -/
def StackState.Meets (state : StackState) : StackCall → Prop
  | .allocate nbytes currentAlloc _ =>
    let tag := state.workspace.nextAlloc + padded nbytes
    tag + stackAllocatorTagSizeBytes ≤ state.workspace.workspaceEnd ∨
      state.workspace.workspaceEnd < tag ∧ tag < 2 ^ 64 ∨
      currentAlloc = state.workspace.nextAlloc ∧ tag ≤ state.workspace.workspaceEnd ∧
        state.workspace.workspaceEnd < tag + stackAllocatorTagSizeBytes ∧
        tag + stackAllocatorTagSizeBytes < 2 ^ 64
  | .free ptr _ =>
    match state.live with
    | last :: _ => ptr.toNat % 2 ^ 32 = last.ptr % 2 ^ 32 → ptr.toNat = last.ptr
    | [] => state.expectedSize ≠ UInt32.ofNat (wrapped (state.workspace.nextAlloc - ptr.toNat))

/-- The states that calls meeting a condition lead to; between two calls the program stores
whatever it likes, except in the tags of live blocks. -/
inductive StackReached (admissible : StackState → StackCall → Prop) (buffer : WorkspaceMemory) :
    StackState → Prop where
  | start (memory : Memory) : StackReached admissible buffer (.start buffer memory)
  | store {state : StackState} (memory : Memory) : StackReached admissible buffer state →
      (∀ block ∈ state.live, load memory block.tag 4 = load state.memory block.tag 4) →
      StackReached admissible buffer { state with memory := memory }
  | call {state : StackState} (call : StackCall) : StackReached admissible buffer state →
      call.Proper → admissible state call → StackReached admissible buffer (state.call call)

theorem wrapped_natCast {value : Nat} (small : value < 2 ^ 64) : wrapped (value : Int) = value := by
  unfold wrapped
  omega

theorem toUInt32_toNat {nbytes : Int32} (nonneg : 0 ≤ nbytes.toInt) :
    nbytes.toUInt32.toNat = nbytes.toInt.toNat := by
  have le : (0 : Int32) ≤ nbytes := Int32.le_iff_toInt_le.mpr nonneg
  rw [Int32.toNat_toUInt32_of_le le, Int32.toNatClampNeg]

theorem offsetBytes_toNat {nbytes : Int32} (nonneg : 0 ≤ nbytes.toInt) :
    (offsetBytes nbytes).toNat = (16 - nbytes.toInt.toNat % 16) % 16 := by
  have unsigned : offsetBytes nbytes = (16 - nbytes.toUInt32) &&& 15 := by
    rw [offsetBytes, Int32.toUInt32_and, Int32.toUInt32_sub]
    rfl
  have mask : (15 : UInt32).toNat = 2 ^ 4 - 1 := rfl
  have sixteen : (16 : UInt32).toNat = 16 := rfl
  have bound := nbytes.toInt_lt
  rw [unsigned, UInt32.toNat_and, mask, Nat.and_two_pow_sub_one_eq_mod, UInt32.toNat_sub,
    toUInt32_toNat nonneg]
  omega

theorem padded_lt {nbytes : Int32} (nonneg : 0 ≤ nbytes.toInt) : padded nbytes < 2 ^ 31 + 15 := by
  have bound := nbytes.toInt_lt
  have offset := offsetBytes_toNat nonneg
  unfold padded
  omega

theorem totalSize_eq {nbytes : Int32} (nonneg : 0 ≤ nbytes.toInt) :
    nbytes.toUInt32 + offsetBytes nbytes + 4 = UInt32.ofNat (padded nbytes + 4) := by
  apply UInt32.toNat_inj.mp
  have small := padded_lt nonneg
  have four : (4 : UInt32).toNat = 4 := rfl
  rw [UInt32.toNat_ofNat', UInt32.toNat_add, UInt32.toNat_add, toUInt32_toNat nonneg, four, padded]
  unfold padded at small
  omega

def LiveBlock.total (block : LiveBlock) : Nat := block.tag + stackAllocatorTagSizeBytes - block.ptr

def WorkspaceMemory.aligned (buffer : WorkspaceMemory) : Nat :=
  (stackInit buffer.gAotMemory buffer.workspaceSize).workspace

structure StackState.Inv (buffer : WorkspaceMemory) (state : StackState) : Prop where
  workspace : state.workspace = { stackInit buffer.gAotMemory buffer.workspaceSize with
    nextAlloc := state.workspace.nextAlloc }
  tiles : Tiles LiveBlock.ptr LiveBlock.total buffer.aligned state.live.reverse
    state.workspace.nextAlloc
  shape : ∀ block ∈ state.live, block.ptr + block.nbytes ≤ block.tag ∧
    block.before = block.ptr ∧ block.total < 2 ^ 32
  tags : ∀ block ∈ state.live, load state.memory block.tag 4 =
    leBytes 4 (UInt32.ofNat block.total ^^^ stackAllocatorTag).toNat
  fits : state.live ≠ [] →
    state.workspace.nextAlloc ≤ buffer.gAotMemory + buffer.workspaceSize

variable {buffer : WorkspaceMemory} {state : StackState} {nbytes : Int32}

theorem WorkspaceMemory.aligned_bounds (buffer : WorkspaceMemory) :
    buffer.gAotMemory ≤ buffer.aligned ∧ buffer.aligned ≤ buffer.gAotMemory + 15 := by
  have alignable := buffer.alignable
  have sum : wrapped (buffer.gAotMemory + (runtimeAllocAlignmentBytes - 1 : Nat)) =
      buffer.gAotMemory + 15 := wrapped_natCast alignable
  have value : buffer.aligned = (buffer.gAotMemory + 15) / 16 * 16 := by
    rw [aligned, stackInit]
    dsimp only
    rw [sum]
    rfl
  omega

theorem WorkspaceMemory.end_eq (buffer : WorkspaceMemory) :
    (stackInit buffer.gAotMemory buffer.workspaceSize).workspaceEnd =
      buffer.gAotMemory + buffer.workspaceSize := by
  have bounds := buffer.aligned_bounds
  have inMemory := buffer.exists_in_memory
  have offset : (UInt32.ofNat (wrapped (buffer.aligned - buffer.gAotMemory))).toNat =
      buffer.aligned - buffer.gAotMemory := by
    rw [UInt32.toNat_ofNat', wrapped]
    omega
  have size : (stackInit buffer.gAotMemory buffer.workspaceSize).workspaceSize =
      wrapped (buffer.workspaceSize - (buffer.aligned - buffer.gAotMemory : Nat)) := by
    rw [← offset]
    rfl
  rw [Workspace.workspaceEnd, size]
  change wrapped (buffer.aligned + _) = _
  unfold wrapped
  omega

namespace StackState.Inv

theorem start (memory : Memory) : (StackState.start buffer memory).Inv buffer where
  workspace := rfl
  tiles := rfl
  shape _ membership := by cases membership
  tags _ membership := by cases membership
  fits nonempty := absurd rfl nonempty

theorem end_eq (inv : state.Inv buffer) :
    state.workspace.workspaceEnd = buffer.gAotMemory + buffer.workspaceSize := by
  rw [← buffer.end_eq, inv.workspace]
  rfl

theorem next_le (inv : state.Inv buffer) :
    state.workspace.nextAlloc ≤ buffer.gAotMemory + buffer.workspaceSize + 15 := by
  have bounds := buffer.aligned_bounds
  by_cases empty : state.live = []
  · have next : buffer.aligned = state.workspace.nextAlloc := by
      have tiles := inv.tiles
      rw [empty] at tiles
      exact tiles
    omega
  · have fits := inv.fits empty
    omega

theorem next_lt (inv : state.Inv buffer) : state.workspace.nextAlloc < 2 ^ 64 := by
  have bounds := buffer.aligned_bounds
  have alignable := buffer.alignable
  have inMemory := buffer.exists_in_memory
  by_cases empty : state.live = []
  · have next : buffer.aligned = state.workspace.nextAlloc := by
      have tiles := inv.tiles
      rw [empty] at tiles
      exact tiles
    omega
  · have fits := inv.fits empty
    omega

theorem ranges_subset (inv : state.Inv buffer) {block : LiveBlock} (membership : block ∈ state.live)
    {bytes : Set Nat} (here : bytes ∈ block.ranges) : bytes ⊆ range block.ptr block.total := by
  obtain ⟨within, -, -⟩ := inv.shape block membership
  have total : block.ptr + block.total = block.tag + stackAllocatorTagSizeBytes := by
    unfold LiveBlock.total
    omega
  rcases List.mem_cons.mp here with rfl | other
  · exact range_subset le_rfl (by omega)
  · obtain rfl := List.mem_singleton.mp other
    exact range_subset (by omega) total.ge

theorem safe (inv : state.Inv buffer) : state.Safe buffer where
  inside bytes membership := by
    obtain ⟨block, live, here⟩ := List.mem_flatMap.mp membership
    have bounds := inv.tiles.bounds (List.mem_reverse.mpr live)
    have fits := inv.fits (List.ne_nil_of_mem live)
    refine (inv.ranges_subset live here).trans (Set.Ico_subset_Ico bounds.1 ?_)
    exact le_trans bounds.2.2 fits
  disjoint := by
    refine List.pairwise_flatMap.mpr ⟨fun block live => ?_, ?_⟩
    · obtain ⟨within, -, -⟩ := inv.shape block live
      rw [LiveBlock.ranges, List.pairwise_pair]
      exact range_disjoint within
    · have ordered := List.pairwise_reverse.mp inv.tiles.pairwise
      refine ordered.imp_of_mem fun {first second} firstLive secondLive behind => ?_
      intro bytes here others there
      refine Set.disjoint_of_subset (inv.ranges_subset firstLive here)
        (inv.ranges_subset secondLive there) ?_
      exact (range_disjoint behind).symm

theorem between (inv : state.Inv buffer) {memory : Memory}
    (kept : ∀ block ∈ state.live, load memory block.tag 4 = load state.memory block.tag 4) :
    StackState.Inv buffer { state with memory := memory } where
  workspace := inv.workspace
  tiles := inv.tiles
  shape := inv.shape
  tags block membership := (kept block membership).trans (inv.tags block membership)
  fits := inv.fits

/-- A block is put behind the last one, and its tag behind it. -/
def push (state : StackState) (nbytes : Int32) : StackState :=
  let tag := state.workspace.nextAlloc + padded nbytes
  { workspace := { state.workspace with nextAlloc := tag + stackAllocatorTagSizeBytes }
    memory := store state.memory tag
      (leBytes 4 (UInt32.ofNat (padded nbytes + 4) ^^^ stackAllocatorTag).toNat)
    live := ⟨state.workspace.nextAlloc, nbytes.toInt.toNat, tag, state.workspace.nextAlloc⟩ ::
      state.live }

theorem push_inv (inv : state.Inv buffer) (nonneg : 0 ≤ nbytes.toInt)
    (fits : state.workspace.nextAlloc + padded nbytes + stackAllocatorTagSizeBytes ≤
      buffer.gAotMemory + buffer.workspaceSize) :
    (push state nbytes).Inv buffer := by
  have small := padded_lt nonneg
  have total : LiveBlock.total ⟨state.workspace.nextAlloc, nbytes.toInt.toNat,
      state.workspace.nextAlloc + padded nbytes, state.workspace.nextAlloc⟩ =
        padded nbytes + 4 := by
    unfold LiveBlock.total stackAllocatorTagSizeBytes
    dsimp only
    omega
  refine ⟨?_, ?_, ?_, ?_, fun _ => fits⟩
  · have workspace := inv.workspace
    rw [push]
    dsimp only
    rw [workspace]
  · have longer := inv.tiles.snoc (x := ⟨state.workspace.nextAlloc, nbytes.toInt.toNat,
      state.workspace.nextAlloc + padded nbytes, state.workspace.nextAlloc⟩) rfl
      (by rw [total]; omega)
    rw [total, ← List.reverse_cons, ← Nat.add_assoc] at longer
    exact longer
  · intro block membership
    rcases List.mem_cons.mp membership with rfl | older
    · refine ⟨Nat.add_le_add_left ?_ _, rfl, by rw [total]; omega⟩
      exact Nat.le_add_right _ _
    · exact inv.shape block older
  · intro block membership
    rcases List.mem_cons.mp membership with rfl | older
    · rw [total]
      have width := leBytes_length 4
        (UInt32.ofNat (padded nbytes + 4) ^^^ stackAllocatorTag).toNat
      have stored := load_store_same state.memory (state.workspace.nextAlloc + padded nbytes)
        (leBytes 4 (UInt32.ofNat (padded nbytes + 4) ^^^ stackAllocatorTag).toNat)
      rw [width] at stored
      exact stored
    · have below := (inv.tiles.bounds (List.mem_reverse.mpr older)).2.2
      have within := (inv.shape block older).1
      rw [LiveBlock.total, stackAllocatorTagSizeBytes] at below
      rw [← inv.tags block older]
      exact load_store_disjoint (.inl (by omega))

theorem next_sum (nonneg : 0 ≤ nbytes.toInt) :
    ((state.workspace.nextAlloc : Int) + nbytes.toInt + (offsetBytes nbytes).toNat) =
      (state.workspace.nextAlloc + padded nbytes : Nat) := by
  unfold padded
  omega

variable {currentAlloc : Nat} {doLifoCheck : UInt8}

theorem allocated_fits (inv : state.Inv buffer) (nonneg : 0 ≤ nbytes.toInt)
    (checks : doLifoCheck ≠ 0)
    (fits : state.workspace.nextAlloc + padded nbytes + stackAllocatorTagSizeBytes ≤
      buffer.gAotMemory + buffer.workspaceSize) :
    state.allocated nbytes currentAlloc doLifoCheck =
      ⟨.noError, (push state nbytes).workspace, (push state nbytes).memory,
        state.workspace.nextAlloc⟩ := by
  have inMemory := buffer.exists_in_memory
  have tag : wrapped (state.workspace.nextAlloc + nbytes.toInt + (offsetBytes nbytes).toNat) =
      state.workspace.nextAlloc + padded nbytes := by
    rw [next_sum nonneg]
    exact wrapped_natCast (by omega)
  have behind : wrapped ((state.workspace.nextAlloc + padded nbytes : Nat) +
      (stackAllocatorTagSizeBytes : Nat)) =
        state.workspace.nextAlloc + padded nbytes + stackAllocatorTagSizeBytes :=
    wrapped_natCast (by omega)
  unfold allocated stackAllocateBody
  dsimp only
  rw [tag, behind, inv.end_eq, if_neg (by omega), if_pos checks, if_neg (by omega),
    totalSize_eq nonneg]
  rfl

theorem call_fits (inv : state.Inv buffer) (nonneg : 0 ≤ nbytes.toInt)
    (checks : doLifoCheck ≠ 0)
    (fits : state.workspace.nextAlloc + padded nbytes + stackAllocatorTagSizeBytes ≤
      buffer.gAotMemory + buffer.workspaceSize) :
    state.call (.allocate nbytes currentAlloc doLifoCheck) = push state nbytes := by
  have done : state.allocated nbytes currentAlloc doLifoCheck = _ :=
    inv.allocated_fits nonneg checks fits
  have inMemory := buffer.exists_in_memory
  have tag : wrapped ((state.workspace.nextAlloc + padded nbytes + stackAllocatorTagSizeBytes : Nat) -
      (stackAllocatorTagSizeBytes : Nat)) = state.workspace.nextAlloc + padded nbytes := by
    unfold wrapped
    omega
  rw [call, done, if_pos rfl]
  dsimp only [push]
  rw [tag]

theorem allocated_refused (inv : state.Inv buffer) (nonneg : 0 ≤ nbytes.toInt)
    (full : buffer.gAotMemory + buffer.workspaceSize <
      state.workspace.nextAlloc + padded nbytes)
    (small : state.workspace.nextAlloc + padded nbytes < 2 ^ 64) :
    state.allocated nbytes currentAlloc doLifoCheck =
      ⟨.platformNoMemory, state.workspace, state.memory, currentAlloc⟩ := by
  have tag : wrapped (state.workspace.nextAlloc + nbytes.toInt + (offsetBytes nbytes).toNat) =
      state.workspace.nextAlloc + padded nbytes := by
    rw [next_sum nonneg]
    exact wrapped_natCast small
  unfold allocated stackAllocateBody
  dsimp only
  rw [tag, inv.end_eq, if_pos full]

theorem allocated_late (inv : state.Inv buffer) (nonneg : 0 ≤ nbytes.toInt)
    (checks : doLifoCheck ≠ 0)
    (fits : state.workspace.nextAlloc + padded nbytes ≤
      buffer.gAotMemory + buffer.workspaceSize)
    (full : buffer.gAotMemory + buffer.workspaceSize <
      state.workspace.nextAlloc + padded nbytes + stackAllocatorTagSizeBytes)
    (small : state.workspace.nextAlloc + padded nbytes + stackAllocatorTagSizeBytes < 2 ^ 64) :
    state.allocated nbytes currentAlloc doLifoCheck =
      ⟨.platformNoMemory, state.workspace, state.memory, state.workspace.nextAlloc⟩ := by
  have tag : wrapped (state.workspace.nextAlloc + nbytes.toInt + (offsetBytes nbytes).toNat) =
      state.workspace.nextAlloc + padded nbytes := by
    rw [next_sum nonneg]
    exact wrapped_natCast (by omega)
  have behind : wrapped ((state.workspace.nextAlloc + padded nbytes : Nat) +
      (stackAllocatorTagSizeBytes : Nat)) =
        state.workspace.nextAlloc + padded nbytes + stackAllocatorTagSizeBytes :=
    wrapped_natCast small
  unfold allocated stackAllocateBody
  dsimp only
  rw [tag, behind, inv.end_eq, if_neg (by omega), if_pos checks, if_pos full]

theorem call_wraps (inv : state.Inv buffer) (nonneg : 0 ≤ nbytes.toInt)
    (checks : doLifoCheck ≠ 0)
    (wraps : 2 ^ 64 ≤ state.workspace.nextAlloc + padded nbytes + stackAllocatorTagSizeBytes)
    (passes : state.workspace.nextAlloc + padded nbytes < 2 ^ 64 →
      state.workspace.nextAlloc + padded nbytes ≤ buffer.gAotMemory + buffer.workspaceSize) :
    ¬(state.call (.allocate nbytes currentAlloc doLifoCheck)).Safe buffer := by
  have width : stackAllocatorTagSizeBytes = 4 := rfl
  have inMemory := buffer.exists_in_memory
  have size := buffer.size_lt
  have bounds := buffer.aligned_bounds
  have padding := padded_lt nonneg
  have nextLe := inv.next_le
  have nextLt := inv.next_lt
  have sum : (state.workspace.nextAlloc : Int) + nbytes.toInt + (offsetBytes nbytes).toNat =
    (state.workspace.nextAlloc + padded nbytes : Nat) := next_sum nonneg
  obtain ⟨tag, tagEq⟩ : ∃ tag, tag =
      wrapped (state.workspace.nextAlloc + nbytes.toInt + (offsetBytes nbytes).toNat) := ⟨_, rfl⟩
  have tagValue : tag = (state.workspace.nextAlloc + padded nbytes) % 2 ^ 64 := by
    rw [tagEq, sum, wrapped]
    omega
  have tagAgain : wrapped (wrapped ((tag : Int) + (stackAllocatorTagSizeBytes : Nat)) -
      (stackAllocatorTagSizeBytes : Nat)) = tag := by
    unfold wrapped
    omega
  have tagFits : ¬buffer.gAotMemory + buffer.workspaceSize < tag := by omega
  have behindFits : ¬buffer.gAotMemory + buffer.workspaceSize <
      wrapped ((tag : Int) + (stackAllocatorTagSizeBytes : Nat)) := by
    unfold wrapped
    omega
  have live : ∃ block ∈ (state.call (.allocate nbytes currentAlloc doLifoCheck)).live,
      block.tag = tag := by
    unfold call allocated stackAllocateBody
    dsimp only
    rw [← tagEq, inv.end_eq, if_neg tagFits, if_pos checks, if_neg behindFits, if_pos rfl]
    exact ⟨_, List.mem_cons_self, tagAgain⟩
  intro safe
  obtain ⟨block, membership, here⟩ := live
  have inside := safe.inside (range block.tag stackAllocatorTagSizeBytes)
    (List.mem_flatMap.mpr ⟨block, membership, List.mem_cons_of_mem _ (List.mem_singleton.mpr rfl)⟩)
  rw [here] at inside
  have first := (inside (show tag ∈ range tag stackAllocatorTagSizeBytes from ⟨le_rfl, by omega⟩)).1
  have last := (inside (show tag + 3 ∈ range tag stackAllocatorTagSizeBytes from
    ⟨by omega, by omega⟩)).2
  change buffer.aligned ≤ tag at first
  omega

theorem call_error {written : Nat} (done : state.allocated nbytes currentAlloc doLifoCheck =
      ⟨.platformNoMemory, state.workspace, state.memory, written⟩) :
    state.call (.allocate nbytes currentAlloc doLifoCheck) = state := by
  have other : ¬StackError.platformNoMemory = .noError := by decide
  rw [call, done, if_neg other]

theorem allocate_keeps_iff (inv : state.Inv buffer) (nonneg : 0 ≤ nbytes.toInt)
    (checks : doLifoCheck ≠ 0) :
    state.Keeps buffer (.allocate nbytes currentAlloc doLifoCheck) ↔
      state.Meets (.allocate nbytes currentAlloc doLifoCheck) := by
  unfold Keeps Meets
  dsimp only
  rw [inv.end_eq]
  by_cases fits : state.workspace.nextAlloc + padded nbytes + stackAllocatorTagSizeBytes ≤
      buffer.gAotMemory + buffer.workspaceSize
  · refine ⟨fun _ => .inl fits, fun _ => ⟨?_, fun failed => ?_⟩⟩
    · rw [inv.call_fits nonneg checks fits]
      exact (inv.push_inv nonneg fits).safe
    · rw [inv.allocated_fits nonneg checks fits] at failed
      exact absurd rfl failed
  · by_cases wraps : 2 ^ 64 ≤ state.workspace.nextAlloc + padded nbytes + stackAllocatorTagSizeBytes ∧
        (state.workspace.nextAlloc + padded nbytes < 2 ^ 64 →
          state.workspace.nextAlloc + padded nbytes ≤ buffer.gAotMemory + buffer.workspaceSize)
    · refine ⟨fun kept => absurd kept.1 (inv.call_wraps nonneg checks wraps.1 wraps.2),
        fun met => ?_⟩
      omega
    · have width : stackAllocatorTagSizeBytes = 4 := rfl
      by_cases full : buffer.gAotMemory + buffer.workspaceSize <
          state.workspace.nextAlloc + padded nbytes
      · have small : state.workspace.nextAlloc + padded nbytes < 2 ^ 64 := by omega
        have done : state.allocated nbytes currentAlloc doLifoCheck = _ :=
          inv.allocated_refused nonneg full small
        refine ⟨fun _ => .inr (.inl ⟨full, small⟩), fun _ => ⟨?_, fun _ => ?_⟩⟩
        · rw [call_error done]
          exact inv.safe
        · rw [done]
          exact ⟨rfl, rfl, rfl⟩
      · have done : state.allocated nbytes currentAlloc doLifoCheck = _ :=
          inv.allocated_late nonneg checks (Nat.le_of_not_lt full) (Nat.lt_of_not_le fits)
            (by omega)
        constructor
        · rintro ⟨-, unchanged⟩
          rw [done] at unchanged
          have same := (unchanged fun other => by cases other).2.2
          exact .inr (.inr ⟨same.symm, Nat.le_of_not_lt full, Nat.lt_of_not_le fits, by omega⟩)
        · intro met
          have same : currentAlloc = state.workspace.nextAlloc := by omega
          refine ⟨?_, fun _ => ?_⟩
          · rw [call_error done]
            exact inv.safe
          · rw [done]
            exact ⟨rfl, rfl, same.symm⟩

theorem allocate_inv (inv : state.Inv buffer) (nonneg : 0 ≤ nbytes.toInt)
    (checks : doLifoCheck ≠ 0) (met : state.Meets (.allocate nbytes currentAlloc doLifoCheck)) :
    (state.call (.allocate nbytes currentAlloc doLifoCheck)).Inv buffer := by
  unfold Meets at met
  dsimp only at met
  rw [inv.end_eq] at met
  rcases met with fits | ⟨full, small⟩ | ⟨-, fits, full, small⟩
  · rw [inv.call_fits nonneg checks fits]
    exact inv.push_inv nonneg fits
  · rw [call_error (inv.allocated_refused nonneg full small)]
    exact inv
  · rw [call_error (inv.allocated_late nonneg checks fits full small)]
    exact inv

variable {ptr : UInt64} {last : LiveBlock} {rest : List LiveBlock}

theorem freed_eq (checks : doLifoCheck ≠ 0) : state.freed ptr doLifoCheck =
    if state.expectedSize = UInt32.ofNat (wrapped (state.workspace.nextAlloc - ptr.toNat)) then
      (.noError, { state.workspace with nextAlloc := ptr.toNat })
    else (.platformStackAllocBadFree, state.workspace) := by
  unfold freed stackFreeBody
  dsimp only
  rw [← expectedSize]
  by_cases same : state.expectedSize =
      UInt32.ofNat (wrapped (state.workspace.nextAlloc - ptr.toNat))
  · rw [if_pos same, if_neg fun wrong => wrong.2 same]
  · rw [if_neg same, if_pos ⟨checks, same⟩]

theorem next_eq (inv : state.Inv buffer) (live : state.live = last :: rest) :
    state.workspace.nextAlloc = last.ptr + last.total := by
  have tiles := inv.tiles
  rw [live, List.reverse_cons] at tiles
  exact tiles.last.symm

theorem expectedSize_eq (inv : state.Inv buffer) (live : state.live = last :: rest) :
    state.expectedSize = UInt32.ofNat last.total := by
  have membership : last ∈ state.live := live ▸ List.mem_cons_self
  have next := inv.next_eq live
  have nextLt := inv.next_lt
  obtain ⟨within, -, -⟩ := inv.shape last membership
  have tag : wrapped (state.workspace.nextAlloc - (stackAllocatorTagSizeBytes : Nat)) = last.tag := by
    unfold LiveBlock.total stackAllocatorTagSizeBytes at next
    unfold wrapped stackAllocatorTagSizeBytes
    omega
  rw [expectedSize, tag, inv.tags last membership,
    leValue_leBytes (UInt32.toNat_lt _), UInt32.ofNat_toNat, UInt32.xor_assoc, UInt32.xor_self,
    UInt32.xor_zero]

theorem matches_iff (inv : state.Inv buffer) (live : state.live = last :: rest) :
    state.expectedSize = UInt32.ofNat (wrapped (state.workspace.nextAlloc - ptr.toNat)) ↔
      ptr.toNat % 2 ^ 32 = last.ptr % 2 ^ 32 := by
  have next := inv.next_eq live
  rw [inv.expectedSize_eq live, ← UInt32.toNat_inj, UInt32.toNat_ofNat', UInt32.toNat_ofNat',
    wrapped]
  omega

theorem free_keeps_iff (inv : state.Inv buffer) (checks : doLifoCheck ≠ 0) :
    state.Keeps buffer (.free ptr doLifoCheck) ↔ state.Meets (.free ptr doLifoCheck) := by
  have bad : ¬StackError.platformStackAllocBadFree = .noError := by decide
  unfold Keeps Meets
  dsimp only
  rw [freed_eq checks]
  cases live : state.live with
  | nil =>
    dsimp only
    constructor
    · rintro ⟨frees, -, -⟩ same
      rw [if_pos same] at frees
      obtain ⟨last, none, -⟩ := frees.mp rfl
      cases none
    · intro different
      rw [if_neg different]
      refine ⟨⟨fun freed => absurd freed bad, ?_⟩, fun _ _ freed => absurd freed bad,
        fun _ => rfl⟩
      rintro ⟨last, none, -⟩
      cases none
  | cons last rest =>
    have agree : state.expectedSize =
        UInt32.ofNat (wrapped (state.workspace.nextAlloc - ptr.toNat)) ↔ _ := inv.matches_iff live
    dsimp only
    constructor
    · rintro ⟨frees, -, -⟩ same
      rw [if_pos (agree.mpr same)] at frees
      obtain ⟨other, first, here⟩ := frees.mp rfl
      obtain rfl := Option.some.inj first
      exact here.symm
    · intro exactly
      by_cases same : ptr.toNat % 2 ^ 32 = last.ptr % 2 ^ 32
      · rw [if_pos (agree.mpr same)]
        refine ⟨⟨fun _ => ⟨last, rfl, (exactly same).symm⟩, fun _ => rfl⟩, ?_,
          fun failed => absurd rfl failed⟩
        intro other first _
        obtain rfl := Option.some.inj first
        have membership : last ∈ state.live := live ▸ List.mem_cons_self
        rw [(inv.shape last membership).2.1, exactly same]
      · rw [if_neg (agree.not.mpr same)]
        refine ⟨⟨fun freed => absurd freed bad, ?_⟩, fun _ _ freed => absurd freed bad,
          fun _ => rfl⟩
        rintro ⟨other, first, here⟩
        obtain rfl := Option.some.inj first
        exact absurd (by rw [here]) same

theorem free_inv (inv : state.Inv buffer) (checks : doLifoCheck ≠ 0)
    (met : state.Meets (.free ptr doLifoCheck)) :
    (state.call (.free ptr doLifoCheck)).Inv buffer := by
  have bad : ¬StackError.platformStackAllocBadFree = .noError := by decide
  unfold Meets at met
  rw [call, freed_eq checks]
  cases live : state.live with
  | nil =>
    rw [live] at met
    dsimp only at met ⊢
    rw [if_neg met, if_neg bad, ← live]
    exact inv
  | cons last rest =>
    rw [live] at met
    dsimp only at met ⊢
    by_cases same : ptr.toNat % 2 ^ 32 = last.ptr % 2 ^ 32
    · rw [if_pos ((inv.matches_iff live).mpr same), if_pos rfl, List.tail_cons]
      have tiles := inv.tiles
      rw [live, List.reverse_cons] at tiles
      have older : ∀ block ∈ rest, block ∈ state.live := fun block membership =>
        live ▸ List.mem_cons_of_mem _ membership
      refine ⟨?_, ?_, fun block membership => inv.shape block (older block membership),
        fun block membership => inv.tags block (older block membership), fun _ => ?_⟩
      · have workspace := inv.workspace
        dsimp only
        rw [workspace]
      · dsimp only
        rw [met same]
        exact tiles.front
      · have next := inv.next_eq live
        have fits := inv.fits (live ▸ List.cons_ne_nil _ _)
        have here := met same
        dsimp only
        omega
    · rw [if_neg ((inv.matches_iff live).not.mpr same), if_neg bad, ← live]
      exact inv

end StackState.Inv

theorem StackReached.inv (reached : StackReached StackState.Meets buffer state) : state.Inv buffer := by
  induction reached with
  | start memory => exact .start memory
  | store memory _ kept ih => exact ih.between kept
  | call call _ proper met ih =>
    cases call with
    | allocate nbytes currentAlloc doLifoCheck => exact ih.allocate_inv proper.1 proper.2 met
    | free ptr doLifoCheck => exact ih.free_inv proper met

/-- In every run whose calls meet the condition, the blocks and tags are apart and inside, and
the next call keeps its promise if and only if it meets the condition. -/
theorem stack_allocator_exact (buffer : WorkspaceMemory) (state : StackState)
    (reached : StackReached StackState.Meets buffer state) :
    state.Safe buffer ∧
      ∀ call : StackCall, call.Proper → (state.Keeps buffer call ↔ state.Meets call) := by
  have inv := reached.inv
  refine ⟨inv.safe, fun call proper => ?_⟩
  cases call with
  | allocate nbytes currentAlloc doLifoCheck => exact inv.allocate_keeps_iff proper.1 proper.2
  | free ptr doLifoCheck => exact inv.free_keeps_iff proper

def smallBuffer : WorkspaceMemory where
  gAotMemory := 4096
  workspaceSize := 48
  exists_in_memory := by decide
  size_lt := by decide
  alignable := by decide

/-- One block is live, and 12 bytes are left behind its tag. -/
def oneBlock : StackState :=
  (StackState.start smallBuffer fun _ => 0).call (.allocate 24 0 1)

theorem stack_allocator_exact_one :
    oneBlock.Safe smallBuffer ∧
      ∀ call : StackCall, call.Proper → (oneBlock.Keeps smallBuffer call ↔ oneBlock.Meets call) :=
  stack_allocator_exact smallBuffer oneBlock
    (.call (.allocate 24 0 1) (.start _) ⟨by decide, by decide⟩ (.inl (by decide +kernel)))

/-- A block of 48 bytes fits, but not with its tag, and `*current_alloc` is written. -/
theorem current_alloc_written :
    ¬∀ (buffer : WorkspaceMemory) (state : StackState),
      StackReached (fun _ _ => True) buffer state →
        state.Safe buffer ∧ ∀ call : StackCall, call.Proper → state.Keeps buffer call := by
  intro keeps
  have start : StackReached (fun _ _ => True) smallBuffer (.start smallBuffer fun _ => 0) :=
    .start _
  have kept := (keeps smallBuffer _ start).2 (.allocate 48 0 1) ⟨by decide, by decide⟩
  have failed : ((StackState.start smallBuffer fun _ => 0).allocated 48 0 1).error =
      .platformNoMemory := by decide +kernel
  have written : ((StackState.start smallBuffer fun _ => 0).allocated 48 0 1).currentAlloc =
      4096 := by decide +kernel
  have unchanged := (kept.2 (by rw [failed]; decide)).2.2
  rw [written] at unchanged
  exact absurd unchanged (by decide)

end Tvm.Crt
