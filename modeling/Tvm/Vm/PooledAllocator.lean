import Mathlib
import Tvm.Lib.AssocList

/-!
# The pooled allocator

`PooledAllocator` of `runtime/vm/pooled_allocator.h`.  Freed buffers are pooled by their rounded
size; a device that fails is asked again after the pool has been released.
-/

namespace Tvm.Vm

open Tvm.Lib

/-- A block of memory; the device is that of the allocator. -/
structure Buffer where
  data : Nat
  size : UInt64
  deriving DecidableEq, Repr

def defaultPageSize : UInt64 := 4096

structure PooledAllocator where
  pageSize : UInt64
  usedMemory : UInt64
  memoryPool : Buckets UInt64 Buffer

/-- What `Alloc` returns and does; `none` where the device fails for good. -/
structure PooledAlloc where
  buffer : Option Buffer
  allocator : PooledAllocator
  /-- What `AllocDataSpace` has returned. -/
  obtained : List Buffer
  /-- What has been passed to `FreeDataSpace`. -/
  released : List Buffer

namespace PooledAllocator

def make (pageSize : UInt64) : PooledAllocator :=
  ⟨pageSize, 0, []⟩

variable (allocator : PooledAllocator)

def roundUp (nbytes : UInt64) : UInt64 :=
  (nbytes + allocator.pageSize - 1) / allocator.pageSize * allocator.pageSize

/-- The buffer that is reused for a request, if there is one. -/
def reusable (nbytes : UInt64) : Option Buffer :=
  (allocator.memoryPool.bucket (allocator.roundUp nbytes)).getLast?

def releaseAll : PooledAllocator × List Buffer :=
  ({ allocator with memoryPool := [], usedMemory := 0 }, allocator.memoryPool.elements)

/-- `Alloc`, where `first` and `second` are what the device answers when it is asked for the first
and for the second time. -/
def alloc (nbytes : UInt64) (first second : Option Nat) : PooledAlloc :=
  let size := allocator.roundUp nbytes
  match allocator.reusable nbytes with
  | some ret =>
    let pool := allocator.memoryPool.bucket size
    ⟨some ret, { allocator with
      memoryPool := allocator.memoryPool.setBucket size pool.dropLast }, [], []⟩
  | none =>
    match first with
    | some data =>
      ⟨some ⟨data, size⟩, { allocator with usedMemory := allocator.usedMemory + size },
        [⟨data, size⟩], []⟩
    | none =>
      let (emptied, released) := allocator.releaseAll
      match second with
      | some data =>
        ⟨some ⟨data, size⟩, { emptied with usedMemory := emptied.usedMemory + size },
          [⟨data, size⟩], released⟩
      | none => ⟨none, emptied, [], released⟩

def free (buffer : Buffer) : PooledAllocator :=
  { allocator with
    memoryPool := allocator.memoryPool.setBucket buffer.size
      (allocator.memoryPool.bucket buffer.size ++ [buffer]) }

end PooledAllocator

/-- An allocator with the buffers that its callers hold and the blocks that the device has given
and not got back. -/
structure PooledRun where
  allocator : PooledAllocator
  outstanding : List Buffer
  live : List Buffer

inductive PooledCall where
  | alloc (nbytes : UInt64) (alignment : Nat) (first second : Option Nat)
  | free (buffer : Buffer)

def totalSize (buffers : List Buffer) : Nat :=
  (buffers.map fun buffer => buffer.size.toNat).sum

/-- What a device promises of a block: it is fresh and aligned, and there are not `2 ^ 64` bytes. -/
structure Grants (live : List Buffer) (alignment : Nat) (block : Buffer) : Prop where
  fresh : block.data ∉ live.map Buffer.data
  aligned : alignment ∣ block.data
  fits : totalSize live + block.size.toNat < 2 ^ 64

namespace PooledRun

variable (run : PooledRun)

def call : PooledCall → PooledRun
  | .alloc nbytes _ first second =>
    let result := run.allocator.alloc nbytes first second
    ⟨result.allocator, result.buffer.toList ++ run.outstanding,
      result.obtained ++ run.live.diff result.released⟩
  | .free buffer => ⟨run.allocator.free buffer, run.outstanding.erase buffer, run.live⟩

/-- The device keeps its promises, and outstanding buffers are freed. -/
def Proper : PooledCall → Prop
  | .alloc nbytes alignment first second =>
    (∀ data ∈ first, Grants run.live alignment ⟨data, run.allocator.roundUp nbytes⟩) ∧
      ∀ data ∈ second, Grants (run.live.diff run.allocator.releaseAll.2) alignment
        ⟨data, run.allocator.roundUp nbytes⟩
  | .free buffer => buffer ∈ run.outstanding

/-- The memory that is counted is the memory that the device has given. -/
def Counted : Prop :=
  run.allocator.usedMemory.toNat = totalSize run.live

def Keeps : PooledCall → Prop
  | .alloc nbytes alignment first second =>
    (∀ buffer ∈ (run.allocator.alloc nbytes first second).buffer,
      buffer.data ∉ run.outstanding.map Buffer.data ∧ nbytes ≤ buffer.size ∧
        alignment ∣ buffer.data) ∧
      (run.call (.alloc nbytes alignment first second)).Counted
  | .free buffer => (run.call (.free buffer)).Counted

/-- A block that is reused has the alignment that is asked for, nothing is outstanding when the
pool is released, and the size of a block that is returned does not wrap. -/
def Meets : PooledCall → Prop
  | .alloc nbytes alignment first second =>
    match run.allocator.reusable nbytes with
    | some top =>
      nbytes.toNat + run.allocator.pageSize.toNat ≤ 2 ^ 64 ∧ alignment ∣ top.data
    | none =>
      (first = none → totalSize run.outstanding = 0) ∧
        ((first.or second).isSome → nbytes.toNat + run.allocator.pageSize.toNat ≤ 2 ^ 64)
  | .free _ => True

end PooledRun

inductive PooledReached (meets : PooledRun → PooledCall → Prop) (pageSize : UInt64) :
    PooledRun → Prop where
  | start : PooledReached meets pageSize ⟨.make pageSize, [], []⟩
  | call {run : PooledRun} (pooledCall : PooledCall) :
      PooledReached meets pageSize run → run.Proper pooledCall → meets run pooledCall →
        PooledReached meets pageSize (run.call pooledCall)

end Tvm.Vm
