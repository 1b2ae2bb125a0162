import Mathlib

/-!
# Greedy memory planning

`greedy.cc`.  Buffers and pools are objects, compared by their addresses: they are the
elements of two types, and what an object holds is a function of it.
-/

namespace Tvm.Usmp

inductive PoolInfo where
  | workspacePoolInfo (sizeHintBytes : Int64)
  | constantPoolInfo (sizeHintBytes : Int64)
  /-- Any other class. -/
  | unsupported
  deriving DecidableEq, Repr

structure BufferInfo (β γ : Type) where
  nameHint : String
  sizeBytes : Int64
  poolCandidates : List γ
  alignment : Int64
  conflicts : List β

structure PoolAllocation (γ : Type) where
  poolInfo : γ
  byteOffset : Int64
  deriving DecidableEq

def kUnrestrictedPoolSizeHint : Int64 := -1

variable {β γ : Type} [DecidableEq β] [DecidableEq γ]

abbrev Plan (β γ : Type) := β → Option (PoolAllocation γ)

/-- `none` is the offset of a pool that the map does not hold. -/
abbrev PoolOffsets (γ : Type) := γ → Option UInt64

/-- An `int64_t` handed over as an `int`. -/
def toInt (value : Int64) : Int32 := value.toInt32

/-- Dividing by zero does not return. -/
def roundUpToByteAlignment (nonAlignedByteOffset : UInt64) (byteAlignment : Int32) :
    Option UInt64 :=
  let alignment := byteAlignment.toInt64.toUInt64
  if alignment = 0 then none
  else some ((nonAlignedByteOffset + alignment - 1) / alignment * alignment)

/-- An unsupported pool is a fatal error. -/
def sizeHintBytes : PoolInfo → Option Int64
  | .workspacePoolInfo sizeHintBytes => some sizeHintBytes
  | .constantPoolInfo sizeHintBytes => some sizeHintBytes
  | .unsupported => none

def isValidPlacement (candidatePool : PoolInfo) (nextOffset sizeBytes : UInt64) : Option Bool :=
  (sizeHintBytes candidatePool).map fun hint =>
    decide (hint = kUnrestrictedPoolSizeHint ∨ nextOffset + sizeBytes ≤ hint.toUInt64)

/-- `Integer(value)`, read back by `IntValue`. -/
def integer (value : UInt64) : Int64 := value.toUInt32.toInt32.toInt64

section

variable (pools : γ → PoolInfo) (buffers : β → BufferInfo β γ)

def selectPlacementPool (bufInfo : BufferInfo β γ) (poolOffsets : PoolOffsets γ) : Option γ :=
  bufInfo.poolCandidates.find? fun pool => (poolOffsets pool).isSome

def initialCandidates (sizeBytes : UInt64) : List γ → PoolOffsets γ → Option (PoolOffsets γ)
  | [], poolOffsets => some poolOffsets
  | pool :: candidates, poolOffsets => do
    let valid ← isValidPlacement (pools pool) 0 sizeBytes
    initialCandidates sizeBytes candidates
      (if valid then Function.update poolOffsets pool (some 0) else poolOffsets)

def offsetBehind (conflict : BufferInfo β γ) (allocation : PoolAllocation γ) : Option UInt64 :=
  roundUpToByteAlignment (allocation.byteOffset + conflict.sizeBytes).toUInt64
    (toInt conflict.alignment)

def scanConflict (plan : Plan β γ) (sizeBytes : UInt64) (poolOffsets : PoolOffsets γ)
    (conflict : β) : Option (PoolOffsets γ) :=
  match plan conflict with
  | none => some poolOffsets
  | some allocation => do
    let nextOffset ← offsetBehind (buffers conflict) allocation
    let pool := allocation.poolInfo
    let valid ← isValidPlacement (pools pool) nextOffset sizeBytes
    if valid then
      -- `operator[]` makes a new candidate where there is none
      let offset := (poolOffsets pool).getD 0
      some (Function.update poolOffsets pool
        (some (if offset < nextOffset then nextOffset else offset)))
    else some (Function.update poolOffsets pool none)

/-- One round of the loop over the sorted buffers. -/
def placeBuffer (plan : Plan β γ) (buffer : β) : Option (Plan β γ) := do
  let bufInfo := buffers buffer
  let sizeBytes := bufInfo.sizeBytes.toUInt64
  let poolOffsets ← initialCandidates pools sizeBytes bufInfo.poolCandidates fun _ => none
  let poolOffsets ←
    bufInfo.conflicts.foldlM (scanConflict pools buffers plan sizeBytes) poolOffsets
  let selectedPool ← selectPlacementPool bufInfo poolOffsets
  let offset := (poolOffsets selectedPool).getD 0
  some (Function.update plan buffer (some ⟨selectedPool, integer offset⟩))

def placeBuffers (plan : Plan β γ) (bufferInfoVec : List β) : Option (Plan β γ) :=
  bufferInfoVec.foldlM (placeBuffer pools buffers) plan

def postSortAllocation (bufferInfoVec : List β) : Option (Plan β γ) :=
  placeBuffers pools buffers (fun _ => none) bufferInfoVec

def sizeLess (a b : BufferInfo β γ) : Bool :=
  if a.sizeBytes = b.sizeBytes then
    if a.conflicts.length = b.conflicts.length then b.nameHint < a.nameHint
    else b.conflicts.length < a.conflicts.length
  else b.sizeBytes < a.sizeBytes

def conflictsLess (a b : BufferInfo β γ) : Bool :=
  if a.conflicts.length = b.conflicts.length then
    if a.sizeBytes = b.sizeBytes then b.nameHint < a.nameHint
    else b.sizeBytes < a.sizeBytes
  else b.conflicts.length < a.conflicts.length

/-- `PlanMemory` with the buffers in the order in which `std::sort` has left them, which is
any sorted order. -/
structure PlanMemory (less : BufferInfo β γ → BufferInfo β γ → Bool)
    (bufferInfoArr bufferInfoVec : List β) (plan : Plan β γ) : Prop where
  perm : bufferInfoArr.Perm bufferInfoVec
  sorted : bufferInfoVec.Pairwise fun a b => less (buffers b) (buffers a) = false
  planned : postSortAllocation pools buffers bufferInfoVec = some plan

def GreedyBySize : List β → List β → Plan β γ → Prop := PlanMemory pools buffers sizeLess

def GreedyByConflicts : List β → List β → Plan β γ → Prop := PlanMemory pools buffers conflictsLess

end

end Tvm.Usmp

/-!
## Greedy plans are safe

One round of the loop keeps, for every pool candidate, an offset behind all the
conflicting buffers scanned so far, as long as no erased candidate comes back.
-/

namespace Tvm.Usmp

theorem toNat_toUInt64 {value : Int64} (nonneg : 0 ≤ value.toInt) :
    (value.toUInt64.toNat : Int) = value.toInt := by
  have le : (0 : Int64) ≤ value := Int64.le_iff_toInt_le.mpr nonneg
  rw [Int64.toNat_toUInt64_of_le le, Int64.toNatClampNeg]
  exact Int.toNat_of_nonneg nonneg

theorem toInt_integer {offset : UInt64} (small : offset.toNat < 2 ^ 31) :
    (integer offset).toInt = offset.toNat := by
  have narrow : offset.toUInt32.toInt32 = Int32.ofNat offset.toNat := by
    rw [← UInt32.toInt32_ofNat']
    rfl
  rw [integer, Int32.toInt_toInt64, narrow, Int32.toInt_ofNat_of_lt small]

theorem toNat_alignment {alignment : Int64} (positive : 0 < alignment.toInt)
    (small : alignment.toInt < 2 ^ 31) :
    ((toInt alignment).toInt64.toUInt64.toNat : Int) = alignment.toInt := by
  have narrow : (toInt alignment).toInt64.toInt = alignment.toInt := by
    rw [toInt, Int32.toInt_toInt64, Int64.toInt_toInt32]
    exact Int.bmod_eq_of_le (by omega) (by omega)
  rw [toNat_toUInt64 (narrow ▸ positive.le), narrow]

theorem le_roundUp {offset next : UInt64} {alignment : Int64} (positive : 0 < alignment.toInt)
    (small : alignment.toInt < 2 ^ 31)
    (unwrapped : (offset.toNat : Int) + alignment.toInt - 1 < 2 ^ 64)
    (rounded : roundUpToByteAlignment offset (toInt alignment) = some next) :
    offset.toNat ≤ next.toNat := by
  have width := toNat_alignment positive small
  simp only [roundUpToByteAlignment] at rounded
  generalize (toInt alignment).toInt64.toUInt64 = step at rounded width
  split at rounded
  · cases rounded
  · obtain rfl := Option.some.inj rounded
    have stepPositive : 0 < step.toNat := by omega
    have sum : (offset + step - 1).toNat = offset.toNat + step.toNat - 1 := by
      rw [UInt64.toNat_sub, UInt64.toNat_add]
      have one : (1 : UInt64).toNat = 1 := rfl
      omega
    have product : (offset.toNat + step.toNat - 1) / step.toNat * step.toNat ≤
        offset.toNat + step.toNat - 1 := Nat.div_mul_le_self _ _
    have rest := Nat.mod_lt (offset.toNat + step.toNat - 1) stepPositive
    have whole := Nat.div_add_mod (offset.toNat + step.toNat - 1) step.toNat
    rw [Nat.mul_comm] at whole
    rw [UInt64.toNat_mul, UInt64.toNat_div, sum, Nat.mod_eq_of_lt (by omega)]
    omega

variable {β γ : Type} (pools : γ → PoolInfo) (buffers : β → BufferInfo β γ)

def bytes (bufInfo : BufferInfo β γ) (allocation : PoolAllocation γ) : Set Int :=
  Set.Ico allocation.byteOffset.toInt (allocation.byteOffset.toInt + bufInfo.sizeBytes.toInt)

structure Plan.Safe (bufferInfoArr : List β) (plan : Plan β γ) : Prop where
  placed : ∀ b ∈ bufferInfoArr, ∃ allocation, plan b = some allocation ∧
    allocation.poolInfo ∈ (buffers b).poolCandidates ∧
    ∀ hint, sizeHintBytes (pools allocation.poolInfo) = some hint →
      hint = kUnrestrictedPoolSizeHint ∨
        allocation.byteOffset.toInt + (buffers b).sizeBytes.toInt ≤ hint.toInt
  disjoint : ∀ b ∈ bufferInfoArr, ∀ c ∈ bufferInfoArr, b ≠ c → c ∈ (buffers b).conflicts →
    ∀ first second, plan b = some first → plan c = some second →
      first.poolInfo = second.poolInfo →
        Disjoint (bytes (buffers b) first) (bytes (buffers c) second)

structure WellSized (bufInfo : BufferInfo β γ) : Prop where
  size : 0 ≤ bufInfo.sizeBytes.toInt
  alignment_pos : 0 < bufInfo.alignment.toInt
  alignment_lt : bufInfo.alignment.toInt < 2 ^ 31
  hints : ∀ pool ∈ bufInfo.poolCandidates, ∀ hint, sizeHintBytes (pools pool) = some hint →
    hint = kUnrestrictedPoolSizeHint ∨ 0 ≤ hint.toInt

/-- `conflict` lies in `pool`, and `next` is the offset behind it; `valid` says whether
`sizeBytes` more bytes fit there. -/
def Behind (plan : Plan β γ) (sizeBytes : UInt64) (conflict : β) (pool : γ) (next : UInt64)
    (valid : Bool) : Prop :=
  ∃ allocation, plan conflict = some allocation ∧ allocation.poolInfo = pool ∧
    offsetBehind (buffers conflict) allocation = some next ∧
    isValidPlacement (pools pool) next sizeBytes = some valid

/-- What a round asks of the allocations made before it: the sums do not wrap, the offsets
are `int`s, and no candidate comes back that has been erased. -/
structure Exact (plan : Plan β γ) (buffer : β) : Prop where
  sized : WellSized pools (buffers buffer)
  sums : ∀ c ∈ (buffers buffer).conflicts, ∀ allocation, plan c = some allocation →
    allocation.byteOffset.toInt + (buffers c).sizeBytes.toInt + (buffers c).alignment.toInt - 1 <
        2 ^ 64 ∧
      ∀ next, offsetBehind (buffers c) allocation = some next →
        (next.toNat : Int) + (buffers buffer).sizeBytes.toInt < 2 ^ 64
  narrow : ∀ c ∈ (buffers buffer).conflicts, ∀ pool ∈ (buffers buffer).poolCandidates, ∀ next,
    Behind pools buffers plan (buffers buffer).sizeBytes.toUInt64 c pool next true →
      next.toNat < 2 ^ 31
  kept : (buffers buffer).conflicts.Pairwise fun c later =>
    ∀ pool ∈ (buffers buffer).poolCandidates, ∀ next laterNext,
      Behind pools buffers plan (buffers buffer).sizeBytes.toUInt64 c pool next false →
        ¬Behind pools buffers plan (buffers buffer).sizeBytes.toUInt64 later pool laterNext true

/-- The candidate offset of a pool after the conflicts `scanned`: it lies behind all of them,
and there is none only if the pool is too small or one of them has erased it. -/
def Tracks (plan : Plan β γ) (buffer : β) (scanned : List β) (pool : γ) : Option UInt64 → Prop
  | some offset =>
    offset.toNat < 2 ^ 31 ∧
    isValidPlacement (pools pool) offset (buffers buffer).sizeBytes.toUInt64 = some true ∧
    ∀ c ∈ scanned, ∀ allocation, plan c = some allocation → allocation.poolInfo = pool →
      ∃ next, offsetBehind (buffers c) allocation = some next ∧ next.toNat ≤ offset.toNat
  | none =>
    isValidPlacement (pools pool) 0 (buffers buffer).sizeBytes.toUInt64 ≠ some true ∨
    ∃ c ∈ scanned, ∃ next,
      Behind pools buffers plan (buffers buffer).sizeBytes.toUInt64 c pool next false

section

variable {pools buffers} {plan : Plan β γ} {buffer : β}

theorem isValidPlacement_zero {pool : PoolInfo} {next sizeBytes : UInt64}
    (unwrapped : next.toNat + sizeBytes.toNat < 2 ^ 64)
    (valid : isValidPlacement pool next sizeBytes = some true) :
    isValidPlacement pool 0 sizeBytes = some true := by
  simp only [isValidPlacement, Option.map_eq_some_iff, decide_eq_true_eq] at valid ⊢
  obtain ⟨hint, found, unrestricted | fits⟩ := valid
  · exact ⟨hint, found, .inl unrestricted⟩
  · refine ⟨hint, found, .inr ?_⟩
    rw [UInt64.le_iff_toNat_le, UInt64.toNat_add, Nat.mod_eq_of_lt unwrapped] at fits
    rw [UInt64.zero_add, UInt64.le_iff_toNat_le]
    exact le_trans (Nat.le_add_left _ _) fits

theorem initialCandidates_spec [DecidableEq γ] {sizeBytes : UInt64} {candidates : List γ}
    {before after : PoolOffsets γ}
    (done : initialCandidates pools sizeBytes candidates before = some after) (pool : γ) :
    (after pool = before pool ∨
      after pool = some 0 ∧ isValidPlacement (pools pool) 0 sizeBytes = some true) ∧
    (pool ∈ candidates → isValidPlacement (pools pool) 0 sizeBytes = some true →
      (after pool).isSome) := by
  induction candidates generalizing before with
  | nil =>
    obtain rfl := Option.some.inj done
    exact ⟨.inl rfl, fun membership => nomatch membership⟩
  | cons first rest ih =>
    rw [initialCandidates, Option.bind_eq_bind, Option.bind_eq_some_iff] at done
    obtain ⟨valid, checked, later⟩ := done
    obtain ⟨cases, present⟩ := ih later
    by_cases same : pool = first
    · subst same
      cases valid with
      | true =>
        have now : after pool = some 0 ∧ isValidPlacement (pools pool) 0 sizeBytes = some true := by
          rcases cases with unchanged | set
          · exact ⟨by simpa using unchanged, checked⟩
          · exact set
        exact ⟨.inr now, fun _ _ => by simp [now.1]⟩
      | false =>
        refine ⟨cases, fun _ valid => ?_⟩
        rw [checked] at valid
        cases valid
    · have untouched : (if valid then Function.update before first (some 0) else before) pool =
          before pool := by
        cases valid with
        | true => exact Function.update_of_ne same _ _
        | false => rfl
      rw [untouched] at cases
      refine ⟨cases, fun membership => present ?_⟩
      exact (List.mem_cons.mp membership).resolve_left same

theorem Tracks.start [DecidableEq γ] {poolOffsets : PoolOffsets γ}
    (done : initialCandidates pools (buffers buffer).sizeBytes.toUInt64
      (buffers buffer).poolCandidates (fun _ => none) = some poolOffsets) {pool : γ}
    (candidate : pool ∈ (buffers buffer).poolCandidates) :
    Tracks pools buffers plan buffer [] pool (poolOffsets pool) := by
  obtain ⟨origin, present⟩ := initialCandidates_spec done pool
  cases found : poolOffsets pool with
  | none =>
    refine .inl fun valid => ?_
    have isSome := present candidate valid
    rw [found] at isSome
    cases isSome
  | some offset =>
    rcases origin with absent | ⟨zero, valid⟩
    · rw [absent] at found
      cases found
    · obtain rfl := Option.some.inj (zero.symm.trans found)
      exact ⟨by decide, valid, fun _ membership => nomatch membership⟩

theorem Tracks.skip {scanned : List β} {conflict : β} {pool : γ} {offset : Option UInt64}
    (tracks : Tracks pools buffers plan buffer scanned pool offset)
    (elsewhere : ∀ allocation, plan conflict = some allocation → allocation.poolInfo ≠ pool) :
    Tracks pools buffers plan buffer (scanned ++ [conflict]) pool offset := by
  cases offset with
  | none =>
    refine tracks.imp_right ?_
    exact fun ⟨c, old, next, there⟩ => ⟨c, List.mem_append_left _ old, next, there⟩
  | some offset =>
    obtain ⟨small, valid, behind⟩ := tracks
    refine ⟨small, valid, fun c membership allocation placed inPool => ?_⟩
    rcases List.mem_append.mp membership with old | new
    · exact behind c old allocation placed inPool
    · obtain rfl := List.mem_singleton.mp new
      exact absurd inPool (elsewhere allocation placed)

theorem Tracks.raise {scanned : List β} {conflict : β} {pool : γ} {offset : Option UInt64}
    {next : UInt64} (exact : Exact pools buffers plan buffer)
    (membership : conflict ∈ (buffers buffer).conflicts)
    (candidate : pool ∈ (buffers buffer).poolCandidates)
    (tracks : Tracks pools buffers plan buffer scanned pool offset)
    (there : Behind pools buffers plan (buffers buffer).sizeBytes.toUInt64 conflict pool next true)
    (kept : ∀ c ∈ scanned, ∀ erased, ¬Behind pools buffers plan
      (buffers buffer).sizeBytes.toUInt64 c pool erased false) :
    Tracks pools buffers plan buffer (scanned ++ [conflict]) pool
      (some (if offset.getD 0 < next then next else offset.getD 0)) := by
  have small := exact.narrow conflict membership pool candidate next there
  obtain ⟨allocation, placed, rfl, computed, checked⟩ := there
  cases offset with
  | none =>
    -- the candidate would come back
    rcases tracks with invalid | ⟨c, old, erased, there⟩
    · have size := toNat_toUInt64 exact.sized.size
      have unwrapped := (exact.sums conflict membership allocation placed).2 next computed
      exact absurd (isValidPlacement_zero (by omega) checked) invalid
    · exact absurd there (kept c old erased)
  | some offset =>
    obtain ⟨offsetSmall, offsetValid, behind⟩ := tracks
    have above : next.toNat ≤ (if offset < next then next else offset).toNat ∧
        offset.toNat ≤ (if offset < next then next else offset).toNat := by
      split
      next below => exact ⟨le_rfl, (UInt64.lt_iff_toNat_lt.mp below).le⟩
      next below => exact ⟨Nat.not_lt.mp (mt UInt64.lt_iff_toNat_lt.mpr below), le_rfl⟩
    refine ⟨?_, ?_, ?_⟩
    · rw [Option.getD_some]
      split
      · exact small
      · exact offsetSmall
    · rw [Option.getD_some]
      split
      · exact checked
      · exact offsetValid
    · intro c membership other placed' inPool
      rcases List.mem_append.mp membership with old | new
      · obtain ⟨next', computed', below⟩ := behind c old other placed' inPool
        exact ⟨next', computed', le_trans below above.2⟩
      · obtain rfl := List.mem_singleton.mp new
        obtain rfl := Option.some.inj (placed.symm.trans placed')
        exact ⟨next, computed, above.1⟩

theorem Tracks.step [DecidableEq γ] {scanned : List β} {conflict : β}
    {poolOffsets after : PoolOffsets γ} {pool : γ} (exact : Exact pools buffers plan buffer)
    (membership : conflict ∈ (buffers buffer).conflicts)
    (candidate : pool ∈ (buffers buffer).poolCandidates)
    (tracks : Tracks pools buffers plan buffer scanned pool (poolOffsets pool))
    (kept : ∀ c ∈ scanned, ∀ next laterNext,
      Behind pools buffers plan (buffers buffer).sizeBytes.toUInt64 c pool next false →
        ¬Behind pools buffers plan (buffers buffer).sizeBytes.toUInt64 conflict pool laterNext true)
    (done : scanConflict pools buffers plan (buffers buffer).sizeBytes.toUInt64 poolOffsets
      conflict = some after) :
    Tracks pools buffers plan buffer (scanned ++ [conflict]) pool (after pool) := by
  unfold scanConflict at done
  split at done
  next unplaced =>
    obtain rfl := Option.some.inj done
    apply tracks.skip
    intro allocation placed
    rw [unplaced] at placed
    cases placed
  next allocation placed =>
    simp only [Option.bind_eq_bind, Option.bind_eq_some_iff] at done
    obtain ⟨next, computed, valid, checked, updated⟩ := done
    have there : Behind pools buffers plan (buffers buffer).sizeBytes.toUInt64 conflict
        allocation.poolInfo next valid := ⟨allocation, placed, rfl, computed, checked⟩
    by_cases same : pool = allocation.poolInfo
    · subst same
      cases valid with
      | true =>
        obtain rfl := Option.some.inj updated
        rw [Function.update_self]
        exact tracks.raise exact membership candidate there
          fun c old erased gone => kept c old erased next gone there
      | false =>
        obtain rfl := Option.some.inj updated
        rw [Function.update_self]
        exact .inr ⟨conflict, by simp, next, there⟩
    · have untouched : after pool = poolOffsets pool := by
        cases valid with
        | true =>
          obtain rfl := Option.some.inj updated
          exact Function.update_of_ne same _ _
        | false =>
          obtain rfl := Option.some.inj updated
          exact Function.update_of_ne same _ _
      rw [untouched]
      apply tracks.skip
      intro other placed' inPool
      obtain rfl := Option.some.inj (placed.symm.trans placed')
      exact same inPool.symm

theorem Tracks.run [DecidableEq γ] {scanned conflicts : List β} {poolOffsets after : PoolOffsets γ}
    {pool : γ} (exact : Exact pools buffers plan buffer)
    (split : (buffers buffer).conflicts = scanned ++ conflicts)
    (candidate : pool ∈ (buffers buffer).poolCandidates)
    (tracks : Tracks pools buffers plan buffer scanned pool (poolOffsets pool))
    (done : conflicts.foldlM
      (scanConflict pools buffers plan (buffers buffer).sizeBytes.toUInt64) poolOffsets =
        some after) :
    Tracks pools buffers plan buffer (buffers buffer).conflicts pool (after pool) := by
  induction conflicts generalizing scanned poolOffsets with
  | nil =>
    obtain rfl := Option.some.inj done
    rw [split, List.append_nil]
    exact tracks
  | cons conflict rest ih =>
    rw [List.foldlM_cons, Option.bind_eq_bind, Option.bind_eq_some_iff] at done
    obtain ⟨middle, here, later⟩ := done
    have membership : conflict ∈ (buffers buffer).conflicts := by simp [split]
    have kept := exact.kept
    rw [split, List.pairwise_append] at kept
    have split' : (buffers buffer).conflicts = (scanned ++ [conflict]) ++ rest := by simp [split]
    refine ih split' ?_ later
    apply tracks.step exact membership candidate ?_ here
    intro c old next laterNext
    exact kept.2.2 c old conflict List.mem_cons_self pool candidate next laterNext

end

variable [DecidableEq β] [DecidableEq γ]

/-- What the allocations made so far keep. -/
structure Placed (plan : Plan β γ) : Prop where
  pool : ∀ b allocation, plan b = some allocation →
    allocation.poolInfo ∈ (buffers b).poolCandidates
  sized : ∀ b allocation, plan b = some allocation → WellSized pools (buffers b)
  nonneg : ∀ b allocation, plan b = some allocation → 0 ≤ allocation.byteOffset.toInt
  fits : ∀ b allocation, plan b = some allocation →
    ∀ hint, sizeHintBytes (pools allocation.poolInfo) = some hint →
      hint = kUnrestrictedPoolSizeHint ∨
        allocation.byteOffset.toInt + (buffers b).sizeBytes.toInt ≤ hint.toInt
  disjoint : ∀ b c, b ≠ c → c ∈ (buffers b).conflicts → ∀ first second,
    plan b = some first → plan c = some second → first.poolInfo = second.poolInfo →
      Disjoint (bytes (buffers b) first) (bytes (buffers c) second)

/-- Every round finds what it asks for. -/
def ExactRun : Plan β γ → List β → Prop
  | _, [] => True
  | plan, buffer :: rest => Exact pools buffers plan buffer ∧
    ∀ next, placeBuffer pools buffers plan buffer = some next → ExactRun next rest

section

variable {pools buffers} {plan next : Plan β γ} {buffer : β}

theorem placeBuffer_spec (exact : Exact pools buffers plan buffer)
    (done : placeBuffer pools buffers plan buffer = some next) :
    ∃ pool ∈ (buffers buffer).poolCandidates, ∃ offset : UInt64,
      Tracks pools buffers plan buffer (buffers buffer).conflicts pool (some offset) ∧
      next = Function.update plan buffer (some ⟨pool, integer offset⟩) := by
  simp only [placeBuffer, Option.bind_eq_bind, Option.bind_eq_some_iff] at done
  obtain ⟨start, started, final, scanned, pool, selected, placed⟩ := done
  unfold selectPlacementPool at selected
  have candidate := List.mem_of_find?_eq_some selected
  have held : (final pool).isSome := by simpa using List.find?_some selected
  obtain ⟨offset, found⟩ := Option.isSome_iff_exists.mp held
  have tracks := (Tracks.start started candidate).run exact rfl candidate scanned
  rw [found] at tracks placed
  exact ⟨pool, candidate, offset, tracks, (Option.some.inj placed).symm⟩

omit [DecidableEq β] [DecidableEq γ] in
theorem end_le_offset (placed : Placed pools buffers plan) (exact : Exact pools buffers plan buffer)
    {pool : γ} {offset : UInt64}
    (tracks : Tracks pools buffers plan buffer (buffers buffer).conflicts pool (some offset))
    {c : β} (conflict : c ∈ (buffers buffer).conflicts) {allocation : PoolAllocation γ}
    (there : plan c = some allocation) (inPool : allocation.poolInfo = pool) :
    allocation.byteOffset.toInt + (buffers c).sizeBytes.toInt ≤ offset.toNat := by
  obtain ⟨next, computed, below⟩ := tracks.2.2 c conflict allocation there inPool
  have sized := placed.sized c allocation there
  have nonneg := placed.nonneg c allocation there
  have size := sized.size
  have positive := sized.alignment_pos
  obtain ⟨sum, -⟩ := exact.sums c conflict allocation there
  have offsetNat := toNat_toUInt64 nonneg
  have sizeNat := toNat_toUInt64 size
  have total : ((allocation.byteOffset + (buffers c).sizeBytes).toUInt64.toNat : Int) =
      allocation.byteOffset.toInt + (buffers c).sizeBytes.toInt := by
    rw [Int64.toUInt64_add, UInt64.toNat_add, Nat.mod_eq_of_lt (by omega)]
    omega
  have rounded := le_roundUp positive sized.alignment_lt (by omega) computed
  omega

omit [DecidableEq γ] in
theorem Placed.place (symmetric : ∀ b c, c ∈ (buffers b).conflicts → b ∈ (buffers c).conflicts)
    (placed : Placed pools buffers plan) (sized : WellSized pools (buffers buffer)) {pool : γ}
    (candidate : pool ∈ (buffers buffer).poolCandidates) {offset : UInt64}
    (narrow : offset.toNat < 2 ^ 31)
    (valid : isValidPlacement (pools pool) offset (buffers buffer).sizeBytes.toUInt64 = some true)
    (apart : ∀ c ∈ (buffers buffer).conflicts, ∀ allocation, plan c = some allocation →
      allocation.poolInfo = pool →
        Disjoint (bytes (buffers c) allocation) (bytes (buffers buffer) ⟨pool, integer offset⟩)) :
    Placed pools buffers (Function.update plan buffer (some ⟨pool, integer offset⟩)) := by
  have number := toInt_integer narrow
  -- a fact about every placed buffer holds of the new one and of the old ones
  have split : ∀ {property : β → PoolAllocation γ → Prop},
      property buffer ⟨pool, integer offset⟩ →
      (∀ b allocation, plan b = some allocation → property b allocation) →
      ∀ b allocation, Function.update plan buffer (some ⟨pool, integer offset⟩) b = some allocation →
        property b allocation := by
    intro property new old b allocation found
    by_cases same : b = buffer
    · subst same
      rw [Function.update_self] at found
      exact Option.some.inj found ▸ new
    · rw [Function.update_of_ne same] at found
      exact old b allocation found
  refine ⟨split candidate placed.pool, split sized placed.sized, split ?_ placed.nonneg,
    split ?_ placed.fits, ?_⟩
  · rw [number]
    exact Int.natCast_nonneg _
  · intro hint found
    simp only [isValidPlacement, found, Option.map_some, Option.some.injEq, decide_eq_true_eq]
      at valid
    rcases valid with unrestricted | fits
    · exact .inl unrestricted
    · refine (sized.hints pool candidate hint found).imp_right fun nonneg => ?_
      have sizeNat := toNat_toUInt64 sized.size
      have hintNat := toNat_toUInt64 nonneg
      have bound := (buffers buffer).sizeBytes.toInt_lt
      rw [UInt64.le_iff_toNat_le, UInt64.toNat_add, Nat.mod_eq_of_lt (by omega)] at fits
      rw [number]
      omega
  · intro b c different conflict first second firstPlaced secondPlaced samePool
    by_cases bNew : b = buffer
    · subst bNew
      rw [Function.update_self] at firstPlaced
      rw [Function.update_of_ne (Ne.symm different)] at secondPlaced
      obtain rfl := Option.some.inj firstPlaced
      exact (apart c conflict second secondPlaced samePool.symm).symm
    · rw [Function.update_of_ne bNew] at firstPlaced
      by_cases cNew : c = buffer
      · subst cNew
        rw [Function.update_self] at secondPlaced
        obtain rfl := Option.some.inj secondPlaced
        exact apart b (symmetric b c conflict) first firstPlaced samePool
      · rw [Function.update_of_ne cNew] at secondPlaced
        exact placed.disjoint b c different conflict first second firstPlaced secondPlaced samePool

theorem Placed.step (symmetric : ∀ b c, c ∈ (buffers b).conflicts → b ∈ (buffers c).conflicts)
    (placed : Placed pools buffers plan) (exact : Exact pools buffers plan buffer)
    (done : placeBuffer pools buffers plan buffer = some next) : Placed pools buffers next := by
  obtain ⟨pool, candidate, offset, tracks, rfl⟩ := placeBuffer_spec exact done
  apply placed.place symmetric exact.sized candidate tracks.1 tracks.2.1
  intro c conflict allocation there inPool
  have below := end_le_offset placed exact tracks conflict there inPool
  rw [bytes, bytes, Set.Ico_disjoint_Ico, toInt_integer tracks.1]
  exact le_trans (min_le_left _ _) (le_trans below (le_max_right _ _))

theorem Placed.run (symmetric : ∀ b c, c ∈ (buffers b).conflicts → b ∈ (buffers c).conflicts)
    {bufferInfoVec : List β} (placed : Placed pools buffers plan)
    (exact : ExactRun pools buffers plan bufferInfoVec)
    (done : placeBuffers pools buffers plan bufferInfoVec = some next) :
    Placed pools buffers next ∧ (∀ b, (plan b).isSome → (next b).isSome) ∧
      ∀ b ∈ bufferInfoVec, (next b).isSome := by
  induction bufferInfoVec generalizing plan with
  | nil =>
    obtain rfl := Option.some.inj done
    exact ⟨placed, fun _ => id, fun _ membership => nomatch membership⟩
  | cons buffer rest ih =>
    rw [placeBuffers, List.foldlM_cons, Option.bind_eq_bind, Option.bind_eq_some_iff] at done
    obtain ⟨middle, here, later⟩ := done
    obtain ⟨now, thereafter⟩ := exact
    obtain ⟨final, grown, all⟩ := ih (placed.step symmetric now here) (thereafter middle here) later
    obtain ⟨pool, -, offset, -, rfl⟩ := placeBuffer_spec now here
    have kept : ∀ b, (plan b).isSome ∨ b = buffer → (next b).isSome := by
      intro b before
      apply grown
      by_cases same : b = buffer
      · simp [same]
      · rw [Function.update_of_ne same]
        exact before.resolve_right same
    refine ⟨final, fun b before => kept b (.inl before), fun b membership => ?_⟩
    rcases List.mem_cons.mp membership with here | later
    · exact kept b (.inr here)
    · exact all b later

omit [DecidableEq β] [DecidableEq γ] in
theorem Placed.start : Placed pools buffers fun _ => none where
  pool _ _ found := nomatch found
  sized _ _ found := nomatch found
  nonneg _ _ found := nomatch found
  fits _ _ found := nomatch found
  disjoint _ _ _ _ _ _ found := nomatch found

end

def smallPool : Unit → PoolInfo := fun _ => .workspacePoolInfo 100

def pairBuffers : Fin 2 → BufferInfo (Fin 2) Unit
  | 0 => ⟨"a", 60, [()], 16, [1]⟩
  | 1 => ⟨"b", 30, [()], 1, [0]⟩

/-- The last buffer fits behind the third one but not behind the second one. -/
def comebackBuffers : Fin 4 → BufferInfo (Fin 4) Unit
  | 0 => ⟨"x", 60, [()], 1, [1]⟩
  | 1 => ⟨"d", 40, [()], 1, [0, 3]⟩
  | 2 => ⟨"c", 41, [()], 1, [3]⟩
  | 3 => ⟨"a", 40, [()], 1, [1, 2]⟩

def comebackPlan : Plan (Fin 4) Unit
  | 0 => some ⟨(), 0⟩
  | 1 => some ⟨(), 60⟩
  | 2 => some ⟨(), 0⟩
  | 3 => some ⟨(), 41⟩

end Tvm.Usmp
