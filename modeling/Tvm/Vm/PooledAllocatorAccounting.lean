import Mathlib
import Tvm.Vm.PooledAllocator

/-!
# The blocks of a pooled allocator

The blocks that the device has given are those that are outstanding and those in the pool.  A block
in the pool may have been aligned for a smaller request, and the counter that is reset when the pool
is released forgets what is outstanding.
-/

namespace Tvm.Vm

open Tvm.Lib

variable {pageSize nbytes : UInt64} {first second : Option Nat} {alignment : Nat}

theorem totalSize_perm {before after : List Buffer} (perm : before.Perm after) :
    totalSize before = totalSize after :=
  (perm.map _).sum_eq

theorem totalSize_append (front back : List Buffer) :
    totalSize (front ++ back) = totalSize front + totalSize back := by
  rw [totalSize, List.map_append, List.sum_append]
  rfl

theorem totalSize_cons (buffer : Buffer) (rest : List Buffer) :
    totalSize (buffer :: rest) = buffer.size.toNat + totalSize rest :=
  List.sum_cons

theorem le_roundUp_iff (allocator : PooledAllocator) (positive : 0 < allocator.pageSize.toNat)
    (nbytes : UInt64) :
    nbytes ≤ allocator.roundUp nbytes ↔ nbytes.toNat + allocator.pageSize.toNat ≤ 2 ^ 64 := by
  have small := nbytes.toNat_lt
  have page := allocator.pageSize.toNat_lt
  have sum : (nbytes + allocator.pageSize - 1).toNat =
      (nbytes.toNat + allocator.pageSize.toNat - 1) % 2 ^ 64 := by
    rw [UInt64.toNat_sub, UInt64.toNat_add, UInt64.toNat_one]
    omega
  rw [UInt64.le_iff_toNat_le, PooledAllocator.roundUp, UInt64.toNat_mul, UInt64.toNat_div, sum]
  generalize allocator.pageSize.toNat = unit at *
  generalize nbytes.toNat = size at *
  constructor
  · intro le
    by_contra wraps
    have wrapped : (size + unit - 1) % 2 ^ 64 = size + unit - 1 - 2 ^ 64 := by omega
    rw [wrapped, Nat.div_eq_of_lt (by omega : size + unit - 1 - 2 ^ 64 < unit)] at le
    omega
  · intro fits
    have exact_sum : (size + unit - 1) % 2 ^ 64 = size + unit - 1 := Nat.mod_eq_of_lt (by omega)
    have split := Nat.div_add_mod (size + unit - 1) unit
    have rest := Nat.mod_lt (size + unit - 1) positive
    rw [Nat.mul_comm] at split
    rw [exact_sum, Nat.mod_eq_of_lt (by omega)]
    omega

structure PooledRun.Accounted (run : PooledRun) : Prop where
  keyed : run.allocator.memoryPool.Keyed Buffer.size
  blocks : run.live.Perm (run.outstanding ++ run.allocator.memoryPool.elements)
  distinct : (run.live.map Buffer.data).Nodup
  counted : run.Counted

namespace PooledRun.Accounted

variable {run : PooledRun}

theorem start (pageSize : UInt64) : PooledRun.Accounted ⟨.make pageSize, [], []⟩ :=
  ⟨.nil, .nil, List.nodup_nil, rfl⟩

theorem live_diff (accounted : run.Accounted) :
    (run.live.diff run.allocator.releaseAll.2).Perm run.outstanding := by
  have removed : ((run.live.diff run.allocator.memoryPool.elements : List Buffer) :
      Multiset Buffer) = (run.outstanding : Multiset Buffer) := by
    rw [← Multiset.coe_sub, Multiset.coe_eq_coe.mpr accounted.blocks, ← Multiset.coe_add,
      add_tsub_cancel_right]
  exact Multiset.coe_eq_coe.mp removed

theorem reusable_spec (accounted : run.Accounted) {top : Buffer}
    (found : run.allocator.reusable nbytes = some top) :
    top.size = run.allocator.roundUp nbytes ∧
      run.allocator.memoryPool.bucket (run.allocator.roundUp nbytes) =
        (run.allocator.memoryPool.bucket (run.allocator.roundUp nbytes)).dropLast ++ [top] := by
  obtain ⟨front, bucket⟩ := List.getLast?_eq_some_iff.mp found
  constructor
  · apply accounted.keyed.mem_bucket
    rw [bucket]
    exact List.mem_append_right _ (List.mem_singleton_self top)
  · rw [bucket, List.dropLast_concat]

theorem mem_live_of_outstanding (accounted : run.Accounted) {buffer : Buffer}
    (membership : buffer ∈ run.outstanding) : buffer ∈ run.live :=
  accounted.blocks.mem_iff.mpr (List.mem_append_left _ membership)

theorem meets_reuse {top : Buffer} (found : run.allocator.reusable nbytes = some top) :
    run.Meets (.alloc nbytes alignment first second) ↔
      nbytes.toNat + run.allocator.pageSize.toNat ≤ 2 ^ 64 ∧ alignment ∣ top.data := by
  simp only [PooledRun.Meets, found]

theorem meets_obtain (absent : run.allocator.reusable nbytes = none) :
    run.Meets (.alloc nbytes alignment first second) ↔
      (first = none → totalSize run.outstanding = 0) ∧
        ((first.or second).isSome → nbytes.toNat + run.allocator.pageSize.toNat ≤ 2 ^ 64) := by
  simp only [PooledRun.Meets, absent]

theorem reuse (accounted : run.Accounted) (alignment : Nat) (first second : Option Nat)
    {top : Buffer}
    (found : run.allocator.reusable nbytes = some top) :
    (run.call (.alloc nbytes alignment first second)).Accounted ∧
      (run.allocator.alloc nbytes first second).buffer = some top ∧
        top.data ∉ run.outstanding.map Buffer.data := by
  obtain ⟨-, bucket⟩ := accounted.reusable_spec found
  have blocks := accounted.blocks.trans
    ((Buckets.elements_perm accounted.keyed.distinct (run.allocator.roundUp nbytes)).append_left
      run.outstanding)
  have allocated : run.allocator.alloc nbytes first second = ⟨some top, { run.allocator with
      memoryPool := run.allocator.memoryPool.setBucket (run.allocator.roundUp nbytes)
        (run.allocator.memoryPool.bucket (run.allocator.roundUp nbytes)).dropLast }, [], []⟩ := by
    simp only [PooledAllocator.alloc, found]
  generalize front : (run.allocator.memoryPool.bucket
    (run.allocator.roundUp nbytes)).dropLast = rest at *
  generalize others : (run.allocator.memoryPool.others
    (run.allocator.roundUp nbytes)).elements = other at *
  rw [bucket, List.append_assoc, List.singleton_append] at blocks
  have moved : (run.outstanding ++ (rest ++ top :: other)).Perm
      (top :: run.outstanding ++ (rest ++ other)) := by
    rw [List.cons_append, ← List.append_assoc, ← List.append_assoc]
    exact List.perm_middle
  have after := blocks.trans moved
  refine ⟨⟨?_, ?_, ?_, ?_⟩, by rw [allocated], ?_⟩
  · simp only [PooledRun.call, allocated]
    refine accounted.keyed.setBucket fun buffer membership => ?_
    apply accounted.keyed.mem_bucket
    rw [bucket]
    exact List.mem_append_left _ membership
  · simp only [PooledRun.call, allocated, List.diff_nil, List.nil_append]
    refine after.trans (List.Perm.append_left _ ?_)
    have elements := Buckets.elements_setBucket run.allocator.memoryPool
      (run.allocator.roundUp nbytes) rest
    rw [others] at elements
    exact elements.symm
  · simp only [PooledRun.call, allocated, List.diff_nil, List.nil_append]
    exact accounted.distinct
  · simp only [PooledRun.Counted, PooledRun.call, allocated, List.diff_nil, List.nil_append]
    exact accounted.counted
  · have distinct := (after.map Buffer.data).nodup_iff.mp accounted.distinct
    rw [List.cons_append, List.map_cons] at distinct
    intro membership
    apply (List.nodup_cons.mp distinct).1
    rw [List.map_append]
    exact List.mem_append_left _ membership

theorem obtain_first (accounted : run.Accounted) {data : Nat} (second : Option Nat)
    (absent : run.allocator.reusable nbytes = none)
    (grants : Grants run.live alignment ⟨data, run.allocator.roundUp nbytes⟩) :
    (run.call (.alloc nbytes alignment (some data) second)).Accounted := by
  have allocated : run.allocator.alloc nbytes (some data) second =
      ⟨some ⟨data, run.allocator.roundUp nbytes⟩, { run.allocator with
        usedMemory := run.allocator.usedMemory + run.allocator.roundUp nbytes },
        [⟨data, run.allocator.roundUp nbytes⟩], []⟩ := by
    rw [PooledAllocator.alloc, absent]
  have counted : run.allocator.usedMemory.toNat = totalSize run.live := accounted.counted
  refine ⟨?_, ?_, ?_, ?_⟩
  · simp only [PooledRun.call, allocated]
    exact accounted.keyed
  · simp only [PooledRun.call, allocated, List.diff_nil]
    exact accounted.blocks.cons _
  · simp only [PooledRun.call, allocated, List.diff_nil, List.singleton_append, List.map_cons]
    exact List.nodup_cons.mpr ⟨grants.fresh, accounted.distinct⟩
  · have fits := grants.fits
    dsimp only at fits
    simp only [PooledRun.Counted, PooledRun.call, allocated, List.diff_nil, List.singleton_append,
      totalSize_cons, UInt64.toNat_add]
    omega

theorem alloc_released (absent : run.allocator.reusable nbytes = none) :
    run.call (.alloc nbytes alignment none second) =
      ⟨⟨run.allocator.pageSize,
          if second.isSome then run.allocator.roundUp nbytes else 0, []⟩,
        (second.map fun data => ⟨data, run.allocator.roundUp nbytes⟩).toList ++ run.outstanding,
        (second.map fun data => ⟨data, run.allocator.roundUp nbytes⟩).toList ++
          run.live.diff run.allocator.releaseAll.2⟩ := by
  have allocated : run.allocator.alloc nbytes none second =
      ⟨second.map fun data => ⟨data, run.allocator.roundUp nbytes⟩,
        ⟨run.allocator.pageSize, if second.isSome then run.allocator.roundUp nbytes else 0, []⟩,
        (second.map fun data => ⟨data, run.allocator.roundUp nbytes⟩).toList,
        run.allocator.releaseAll.2⟩ := by
    rw [PooledAllocator.alloc, absent]
    cases second with
    | none => rfl
    | some data =>
      simp only [PooledAllocator.releaseAll, UInt64.zero_add]
      rfl
  rw [PooledRun.call, allocated]

theorem counted_released (accounted : run.Accounted)
    (absent : run.allocator.reusable nbytes = none) :
    (run.call (.alloc nbytes alignment none second)).Counted ↔ totalSize run.outstanding = 0 := by
  rw [alloc_released absent, PooledRun.Counted, totalSize_append,
    totalSize_perm accounted.live_diff]
  cases second with
  | none =>
    constructor
    · intro counted
      exact (Nat.zero_add _).symm.trans counted.symm
    · intro none
      rw [none]
      rfl
  | some data =>
    have single : totalSize (Option.map (fun data => ⟨data, run.allocator.roundUp nbytes⟩)
        (some data)).toList = (run.allocator.roundUp nbytes).toNat :=
      List.sum_singleton
    rw [single]
    dsimp only [Option.isSome_some]
    rw [if_pos rfl]
    omega

theorem obtain_second (accounted : run.Accounted)
    (absent : run.allocator.reusable nbytes = none)
    (grants : ∀ data ∈ second, Grants (run.live.diff run.allocator.releaseAll.2) alignment
      ⟨data, run.allocator.roundUp nbytes⟩)
    (idle : totalSize run.outstanding = 0) :
    (run.call (.alloc nbytes alignment none second)).Accounted := by
  refine ⟨?_, ?_, ?_, (accounted.counted_released absent).mpr idle⟩
  · rw [alloc_released absent]
    exact .nil
  · rw [alloc_released absent]
    dsimp only
    rw [show Buckets.elements ([] : Buckets UInt64 Buffer) = [] from rfl, List.append_nil]
    exact accounted.live_diff.append_left _
  · rw [alloc_released absent]
    have distinct : ((run.live.diff run.allocator.releaseAll.2).map Buffer.data).Nodup :=
      accounted.distinct.sublist ((List.diff_sublist _ _).map _)
    cases second with
    | none => exact distinct
    | some data => exact List.nodup_cons.mpr ⟨(grants data rfl).fresh, distinct⟩

theorem free (accounted : run.Accounted) {buffer : Buffer}
    (outstanding : buffer ∈ run.outstanding) : (run.call (.free buffer)).Accounted := by
  refine ⟨?_, ?_, accounted.distinct, accounted.counted⟩
  · refine accounted.keyed.setBucket fun other membership => ?_
    rcases List.mem_append.mp membership with before | last
    · exact accounted.keyed.mem_bucket before
    · rw [List.mem_singleton.mp last]
  · have taken := List.perm_cons_erase outstanding
    have elements := Buckets.elements_perm accounted.keyed.distinct buffer.size
    have put := Buckets.elements_setBucket run.allocator.memoryPool buffer.size
      (run.allocator.memoryPool.bucket buffer.size ++ [buffer])
    have moved : (buffer :: run.allocator.memoryPool.elements).Perm
        (run.allocator.free buffer).memoryPool.elements := by
      refine ((elements.cons buffer).trans ?_).trans put.symm
      rw [List.append_assoc, List.singleton_append]
      exact List.perm_middle.symm
    refine accounted.blocks.trans ((taken.append_right _).trans ?_)
    rw [List.cons_append]
    exact List.perm_middle.symm.trans (moved.append_left _)

theorem call (accounted : run.Accounted) {pooledCall : PooledCall}
    (proper : run.Proper pooledCall) (met : run.Meets pooledCall) :
    (run.call pooledCall).Accounted := by
  cases pooledCall with
  | free buffer => exact accounted.free proper
  | alloc nbytes alignment first second =>
    cases reused : run.allocator.reusable nbytes with
    | some top => exact (accounted.reuse _ _ _ reused).1
    | none =>
      cases first with
      | some data => exact accounted.obtain_first _ reused (proper.1 data rfl)
      | none =>
        rw [meets_obtain reused] at met
        exact accounted.obtain_second reused proper.2 (met.1 rfl)

theorem alloc_keeps_iff (accounted : run.Accounted) (positive : 0 < run.allocator.pageSize.toNat)
    (proper : run.Proper (.alloc nbytes alignment first second)) :
    run.Keeps (.alloc nbytes alignment first second) ↔
      run.Meets (.alloc nbytes alignment first second) := by
  have rounds := le_roundUp_iff run.allocator positive nbytes
  unfold PooledRun.Keeps
  dsimp only
  cases reused : run.allocator.reusable nbytes with
  | some top =>
    obtain ⟨after, returned, apart⟩ :=
      accounted.reuse alignment first second reused
    have size := (accounted.reusable_spec reused).1
    rw [meets_reuse reused, returned, ← rounds]
    constructor
    · rintro ⟨promised, -⟩
      obtain ⟨-, large, aligned⟩ := promised top rfl
      rw [size] at large
      exact ⟨large, aligned⟩
    · rintro ⟨large, aligned⟩
      refine ⟨fun buffer isTop => ?_, after.counted⟩
      obtain rfl := Option.some.inj isTop
      rw [size]
      exact ⟨apart, large, aligned⟩
  | none =>
    rw [meets_obtain reused]
    cases first with
    | some data =>
      have grants := proper.1 data rfl
      have after := accounted.obtain_first second reused grants
      have returned : (run.allocator.alloc nbytes (some data) second).buffer =
          some ⟨data, run.allocator.roundUp nbytes⟩ := by
        rw [PooledAllocator.alloc, reused]
      rw [returned, ← rounds]
      constructor
      · rintro ⟨promised, -⟩
        refine ⟨fun failed => (by cases failed), fun _ => ?_⟩
        exact (promised _ rfl).2.1
      · rintro ⟨-, large⟩
        refine ⟨fun buffer isNew => ?_, after.counted⟩
        obtain rfl := Option.some.inj isNew
        refine ⟨fun membership => grants.fresh ?_, large rfl, grants.aligned⟩
        obtain ⟨other, isOutstanding, same⟩ := List.mem_map.mp membership
        rw [← same]
        exact List.mem_map_of_mem (accounted.mem_live_of_outstanding isOutstanding)
    | none =>
      rw [accounted.counted_released reused]
      have returned : (run.allocator.alloc nbytes none second).buffer =
          second.map fun data => ⟨data, run.allocator.roundUp nbytes⟩ := by
        rw [PooledAllocator.alloc, reused]
        cases second with
        | none => rfl
        | some data => rfl
      rw [returned, ← rounds]
      cases second with
      | none =>
        constructor
        · rintro ⟨-, idle⟩
          exact ⟨fun _ => idle, fun asked => by cases asked⟩
        · rintro ⟨idle, -⟩
          exact ⟨fun _ isNew => (by cases isNew), idle rfl⟩
      | some data =>
        have grants := proper.2 data rfl
        constructor
        · rintro ⟨promised, idle⟩
          exact ⟨fun _ => idle, fun _ => (promised _ rfl).2.1⟩
        · rintro ⟨idle, large⟩
          refine ⟨fun buffer isNew => ?_, idle rfl⟩
          obtain rfl := Option.some.inj isNew
          refine ⟨fun membership => grants.fresh ?_, large rfl, grants.aligned⟩
          exact ((accounted.live_diff.map Buffer.data).mem_iff).mpr membership

end PooledRun.Accounted

theorem PooledReached.accounted {run : PooledRun}
    (reached : PooledReached PooledRun.Meets pageSize run) :
    run.Accounted ∧ run.allocator.pageSize = pageSize := by
  induction reached with
  | start => exact ⟨.start pageSize, rfl⟩
  | call pooledCall _ proper met ih =>
    refine ⟨ih.1.call proper met, ?_⟩
    rw [← ih.2]
    cases pooledCall with
    | free buffer => rfl
    | alloc nbytes alignment first second =>
      rename_i run _
      cases reused : run.allocator.reusable nbytes with
      | some top => simp only [PooledRun.call, PooledAllocator.alloc, reused]
      | none =>
        cases first with
        | some data => simp only [PooledRun.call, PooledAllocator.alloc, reused]
        | none => rw [PooledRun.Accounted.alloc_released reused]

/-- In every run whose calls meet the condition the blocks of the device are those outstanding or
pooled and their sizes are counted, and the next call keeps its promise if and only if it meets the
condition. -/
theorem pooled_allocator_exact (pageSize : UInt64) (nonzero : pageSize ≠ 0) (run : PooledRun)
    (reached : PooledReached PooledRun.Meets pageSize run) :
    run.live.Perm (run.outstanding ++ run.allocator.memoryPool.elements) ∧ run.Counted ∧
      ∀ pooledCall : PooledCall, run.Proper pooledCall →
        (run.Keeps pooledCall ↔ run.Meets pooledCall) := by
  obtain ⟨accounted, page⟩ := reached.accounted
  refine ⟨accounted.blocks, accounted.counted, fun pooledCall proper => ?_⟩
  cases pooledCall with
  | free buffer => exact iff_of_true (accounted.free proper).counted trivial
  | alloc nbytes alignment first second =>
    refine accounted.alloc_keeps_iff ?_ proper
    rw [page, Nat.pos_iff_ne_zero]
    exact fun zero => nonzero (UInt64.toNat_inj.mp zero)

/-- A buffer of one page has been returned and freed. -/
def onePooled : PooledRun :=
  (PooledRun.call ⟨.make defaultPageSize, [], []⟩ (.alloc 100 64 (some 4160) none)).call
    (.free ⟨4160, 4096⟩)

theorem onePooled_reached : PooledReached PooledRun.Meets defaultPageSize onePooled := by
  have grants : Grants [] 64 ⟨4160, 4096⟩ := ⟨by decide, by decide, by decide⟩
  refine .call _ (.call _ .start ?_ ?_) ?_ trivial
  · refine ⟨fun data isFirst => ?_, fun _ isSecond => (by cases isSecond)⟩
    cases isFirst
    exact grants
  · exact ⟨fun failed => (by cases failed), fun _ => by decide⟩
  · exact List.mem_singleton_self _

theorem pooled_allocator_exact_one :
    onePooled.live.Perm (onePooled.outstanding ++ onePooled.allocator.memoryPool.elements) ∧
      onePooled.Counted ∧ ∀ pooledCall : PooledCall, onePooled.Proper pooledCall →
        (onePooled.Keeps pooledCall ↔ onePooled.Meets pooledCall) :=
  pooled_allocator_exact defaultPageSize (by decide) onePooled onePooled_reached

/-- The block at 4160 is returned for a request of the alignment 128. -/
theorem pooled_misaligned :
    ¬∀ run, PooledReached (fun _ _ => True) defaultPageSize run →
      ∀ pooledCall : PooledCall, run.Proper pooledCall → run.Keeps pooledCall := by
  intro keeps
  have grants : Grants [] 64 ⟨4160, 4096⟩ := ⟨by decide, by decide, by decide⟩
  have reached : PooledReached (fun _ _ => True) defaultPageSize onePooled := by
    refine .call _ (.call _ .start ?_ trivial) ?_ trivial
    · refine ⟨fun data isFirst => ?_, fun _ isSecond => (by cases isSecond)⟩
      cases isFirst
      exact grants
    · exact List.mem_singleton_self _
  have proper : onePooled.Proper (.alloc 100 128 none none) :=
    ⟨fun _ isFirst => (by cases isFirst), fun _ isSecond => (by cases isSecond)⟩
  have kept := keeps onePooled reached _ proper
  have aligned := (kept.1 ⟨4160, 4096⟩ (by decide)).2.2
  exact absurd aligned (by decide)

end Tvm.Vm
