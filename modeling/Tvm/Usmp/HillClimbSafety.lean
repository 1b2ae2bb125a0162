import Tvm.Usmp.HillClimb

/-!
# Hill climbing plans are safe

The conflicts of a buffer are visited by their offsets.  A candidate that is apart from all
the conflicts visited so far, and that a later one moves up, moves behind that one: it was
behind every earlier one, or else it ended before the later one begins.
-/

namespace Tvm.Usmp

variable {β γ : Type}

section

variable [DecidableEq β] [DecidableEq γ] (pools : γ → PoolInfo) (buffers : β → BufferInfo β γ)
  (stdSort : StdSort β)

/-- What a round asks of the buffer and of the allocations made before it: the offset found
is an `int`. -/
structure Narrow (plan : Plan β γ) (buffer : β) : Prop where
  sized : WellSized pools (buffers buffer)
  offset : ∀ chosen, choosePlacement pools buffers stdSort plan buffer = some chosen →
    chosen.2.toNat < 2 ^ 31

/-- Every round finds what it asks for. -/
def NarrowRun : Plan β γ → List β → Prop
  | _, [] => True
  | plan, buffer :: rest => Narrow pools buffers stdSort plan buffer ∧
    ∀ next, placeAmong pools buffers stdSort plan buffer = some next → NarrowRun next rest

def Climb.before (random : Nat → Nat) (memoryPressure : UInt64) (tries : Nat)
    (bufferInfoArr : List β) : Nat → Option (Climb β γ)
  | 0 => some (Climb.start buffers stdSort bufferInfoArr)
  | attempts + 1 => do
    let climb ← Climb.before random memoryPressure tries bufferInfoArr attempts
    match ← climb.attempt pools buffers stdSort random memoryPressure tries attempts with
    | .stop _ => none
    | .next climb => some climb

end

variable {pools : γ → PoolInfo} {buffers : β → BufferInfo β γ} {stdSort : StdSort β}
  {plan next : Plan β γ} {buffer : β}

section

variable (pools : γ → PoolInfo) (buffers : β → BufferInfo β γ) (plan : Plan β γ) (buffer : β)

/-- At `offset` the buffer does not touch the conflict, if that is in the same pool. -/
def Apart (offset : UInt64) (pool : γ) (conflict : β) : Prop :=
  ∀ allocation, plan conflict = some allocation → allocation.poolInfo = pool →
    allocation.byteOffset.toInt + (buffers conflict).sizeBytes.toInt ≤ offset.toNat ∨
      offset.toNat + (buffers buffer).sizeBytes.toInt ≤ allocation.byteOffset.toInt

/-- The candidate offset of a pool after the conflicts `visited`, as long as it is an `int`. -/
def Avoids (visited : List β) (pool : γ) : Option UInt64 → Prop
  | none => True
  | some offset => offset.toNat < 2 ^ 31 →
    isValidPlacement (pools pool) offset (buffers buffer).sizeBytes.toUInt64 = some true ∧
      ∀ conflict ∈ visited, Apart buffers plan buffer offset pool conflict

end

/-- What the allocations made so far keep besides being in order. -/
def IntOffsets (plan : Plan β γ) : Prop :=
  ∀ b allocation, plan b = some allocation → allocation.byteOffset.toInt < 2 ^ 31

variable {visited : List β} {conflict : β} {pool : γ} {candidate : Option UInt64}

theorem Avoids.start [DecidableEq γ] {poolOffsets : PoolOffsets γ}
    (done : initialCandidates pools (buffers buffer).sizeBytes.toUInt64
      (buffers buffer).poolCandidates (fun _ => none) = some poolOffsets) (pool : γ) :
    Avoids pools buffers plan buffer [] pool (poolOffsets pool) := by
  obtain ⟨origin, -⟩ := initialCandidates_spec done pool
  rcases origin with absent | ⟨zero, valid⟩
  · rw [absent]
    trivial
  · rw [zero]
    exact fun _ => ⟨valid, fun _ membership => by cases membership⟩

theorem Avoids.extend (avoids : Avoids pools buffers plan buffer visited pool candidate)
    (apart : ∀ offset, candidate = some offset → offset.toNat < 2 ^ 31 →
      Apart buffers plan buffer offset pool conflict) :
    Avoids pools buffers plan buffer (visited ++ [conflict]) pool candidate := by
  cases candidate with
  | none => trivial
  | some offset =>
    intro small
    obtain ⟨valid, before⟩ := avoids small
    refine ⟨valid, fun c membership => ?_⟩
    rcases List.mem_append.mp membership with old | new
    · exact before c old
    · obtain rfl := List.mem_singleton.mp new
      exact apart offset rfl small

theorem end_le_offsetBehind (placed : Placed pools buffers plan) (narrow : IntOffsets plan)
    {allocation : PoolAllocation γ} (there : plan conflict = some allocation) {offset : UInt64}
    (computed : offsetBehind (buffers conflict) allocation = some offset) :
    allocation.byteOffset.toInt + (buffers conflict).sizeBytes.toInt ≤ offset.toNat := by
  have sized := placed.sized conflict allocation there
  have nonneg := placed.nonneg conflict allocation there
  have small := narrow conflict allocation there
  have size := sized.size
  have sizeBound := (buffers conflict).sizeBytes.toInt_lt
  have offsetNat := toNat_toUInt64 nonneg
  have sizeNat := toNat_toUInt64 size
  have total : ((allocation.byteOffset + (buffers conflict).sizeBytes).toUInt64.toNat : Int) =
      allocation.byteOffset.toInt + (buffers conflict).sizeBytes.toInt := by
    rw [Int64.toUInt64_add, UInt64.toNat_add, Nat.mod_eq_of_lt (by omega)]
    omega
  have positive := sized.alignment_pos
  have alignment := sized.alignment_lt
  have rounded := le_roundUp positive alignment (by omega) computed
  omega

theorem offset_add_size (sized : WellSized pools (buffers buffer)) {offset : UInt64}
    (small : offset.toNat < 2 ^ 31) :
    ((offset + (buffers buffer).sizeBytes.toUInt64).toNat : Int) =
      offset.toNat + (buffers buffer).sizeBytes.toInt := by
  have size := toNat_toUInt64 sized.size
  have bound := (buffers buffer).sizeBytes.toInt_lt
  rw [UInt64.toNat_add, Nat.mod_eq_of_lt (by omega)]
  omega

theorem Avoids.raise (sized : WellSized pools (buffers buffer)) {offset behind : UInt64}
    (avoids : Avoids pools buffers plan buffer visited pool (some offset))
    {allocation : PoolAllocation γ} (there : plan conflict = some allocation)
    (nonneg : 0 ≤ allocation.byteOffset.toInt)
    (after : allocation.byteOffset.toInt + (buffers conflict).sizeBytes.toInt ≤ behind.toNat)
    (earlier : ∀ c ∈ visited, ∀ other, plan c = some other →
      other.byteOffset.toInt ≤ allocation.byteOffset.toInt)
    (above : offset < behind)
    (touched : allocation.byteOffset.toUInt64 < offset + (buffers buffer).sizeBytes.toUInt64)
    (valid : isValidPlacement (pools pool) behind (buffers buffer).sizeBytes.toUInt64 = some true) :
    Avoids pools buffers plan buffer (visited ++ [conflict]) pool (some behind) := by
  intro small
  rw [UInt64.lt_iff_toNat_lt] at above touched
  have smaller : offset.toNat < 2 ^ 31 := by omega
  have reach := offset_add_size sized smaller
  have start := toNat_toUInt64 nonneg
  obtain ⟨-, before⟩ := avoids smaller
  refine ⟨valid, fun c membership other otherThere inPool => ?_⟩
  rcases List.mem_append.mp membership with old | new
  · rcases before c old other otherThere inPool with behindIt | beforeIt
    · exact .inl (by omega)
    · -- the candidate ended before `c` begins, and so before the later conflict begins
      have order := earlier c old other otherThere
      omega
  · obtain rfl := List.mem_singleton.mp new
    obtain rfl := Option.some.inj (there.symm.trans otherThere)
    exact .inl after

theorem apart_of_kept (sized : WellSized pools (buffers buffer)) {offset behind : UInt64}
    {allocation : PoolAllocation γ} (nonneg : 0 ≤ allocation.byteOffset.toInt)
    (after : allocation.byteOffset.toInt + (buffers conflict).sizeBytes.toInt ≤ behind.toNat)
    (small : offset.toNat < 2 ^ 31)
    (kept : ¬(offset < behind ∧
      allocation.byteOffset.toUInt64 < offset + (buffers buffer).sizeBytes.toUInt64)) :
    allocation.byteOffset.toInt + (buffers conflict).sizeBytes.toInt ≤ offset.toNat ∨
      offset.toNat + (buffers buffer).sizeBytes.toInt ≤ allocation.byteOffset.toInt := by
  have reach := offset_add_size sized small
  have start := toNat_toUInt64 nonneg
  rw [UInt64.lt_iff_toNat_lt, UInt64.lt_iff_toNat_lt] at kept
  omega

theorem placedOffset_of_eq {allocation : PoolAllocation γ} (there : plan conflict = some allocation) :
    placedOffset plan conflict = allocation.byteOffset := by
  rw [placedOffset, there]
  rfl

theorem Avoids.step [DecidableEq γ] {poolOffsets after : PoolOffsets γ}
    (placed : Placed pools buffers plan) (narrow : IntOffsets plan)
    (sized : WellSized pools (buffers buffer))
    (earlier : ∀ c ∈ visited, ¬placedOffset plan conflict < placedOffset plan c)
    (avoids : Avoids pools buffers plan buffer visited pool (poolOffsets pool))
    (done : avoidConflict pools buffers plan (buffers buffer).sizeBytes.toUInt64 poolOffsets
      conflict = some after) :
    Avoids pools buffers plan buffer (visited ++ [conflict]) pool (after pool) := by
  unfold avoidConflict at done
  split at done
  next unplaced =>
    obtain rfl := Option.some.inj done
    apply avoids.extend
    intro offset _ _ allocation there
    rw [unplaced] at there
    cases there
  next allocation there =>
    simp only [Option.bind_eq_bind, Option.bind_eq_some_iff] at done
    obtain ⟨behind, computed, rest⟩ := done
    have afterIt := end_le_offsetBehind placed narrow there computed
    have elsewhere : pool ≠ allocation.poolInfo → after pool = poolOffsets pool →
        Avoids pools buffers plan buffer (visited ++ [conflict]) pool (after pool) := by
      intro different unchanged
      rw [unchanged]
      apply avoids.extend
      intro offset _ _ other otherThere inPool
      obtain rfl := Option.some.inj (there.symm.trans otherThere)
      exact absurd inPool.symm different
    split at rest
    next gone =>
      obtain rfl := Option.some.inj rest
      by_cases same : pool = allocation.poolInfo
      · rw [same, gone]
        trivial
      · exact elsewhere same rfl
    next offset found =>
      obtain ⟨valid, checked, updated⟩ := Option.bind_eq_some_iff.mp rest
      by_cases same : pool = allocation.poolInfo
      · subst same
        rw [found] at avoids
        split at updated
        next isValid =>
          subst isValid
          split at updated
          next moved =>
            obtain rfl := Option.some.inj updated
            rw [Function.update_self]
            apply avoids.raise sized there (placed.nonneg _ _ there) afterIt ?_ moved.1 moved.2
              checked
            intro c old other otherThere
            have order := earlier c old
            rw [placedOffset_of_eq there, placedOffset_of_eq otherThere, Int64.lt_iff_toInt_lt]
              at order
            exact not_lt.mp order
          next kept =>
            obtain rfl := Option.some.inj updated
            rw [found]
            apply avoids.extend
            intro same' equal small other otherThere inPool
            obtain rfl := Option.some.inj equal
            obtain rfl := Option.some.inj (there.symm.trans otherThere)
            exact apart_of_kept sized (placed.nonneg _ _ there) afterIt small kept
        next isInvalid =>
          obtain rfl := Option.some.inj updated
          rw [Function.update_self]
          trivial
      · apply elsewhere same
        split at updated
        next isValid =>
          split at updated
          next moved =>
            obtain rfl := Option.some.inj updated
            exact Function.update_of_ne same _ _
          next kept =>
            obtain rfl := Option.some.inj updated
            rfl
        next isInvalid =>
          obtain rfl := Option.some.inj updated
          exact Function.update_of_ne same _ _

theorem Avoids.run [DecidableEq γ] {conflicts : List β} {poolOffsets after : PoolOffsets γ}
    (placed : Placed pools buffers plan) (narrow : IntOffsets plan)
    (sized : WellSized pools (buffers buffer))
    (sorted : (visited ++ conflicts).Pairwise fun a b => ¬placedOffset plan b < placedOffset plan a)
    (avoids : Avoids pools buffers plan buffer visited pool (poolOffsets pool))
    (done : conflicts.foldlM
      (avoidConflict pools buffers plan (buffers buffer).sizeBytes.toUInt64) poolOffsets =
        some after) :
    Avoids pools buffers plan buffer (visited ++ conflicts) pool (after pool) := by
  induction conflicts generalizing visited poolOffsets with
  | nil =>
    obtain rfl := Option.some.inj done
    rw [List.append_nil]
    exact avoids
  | cons conflict rest ih =>
    rw [List.foldlM_cons, Option.bind_eq_bind, Option.bind_eq_some_iff] at done
    obtain ⟨middle, here, later⟩ := done
    have earlier := (List.pairwise_append.mp sorted).2.2
    have split : visited ++ conflict :: rest = (visited ++ [conflict]) ++ rest := by simp
    rw [split] at sorted ⊢
    refine ih sorted ?_ later
    exact avoids.step placed narrow sized
      (fun c membership => earlier c membership conflict List.mem_cons_self) here

theorem offsetLess_weak (plan : Plan β γ) :
    StrictWeakOrder fun a b => decide (placedOffset plan a < placedOffset plan b) where
  asymm a b less := by
    rw [decide_eq_true_eq] at less
    exact decide_eq_false (Int64.lt_asymm less)
  split a b c less := by
    simp only [decide_eq_true_eq, Int64.lt_iff_toInt_lt] at less ⊢
    omega

theorem placedConflicts_sorted (buffers : β → BufferInfo β γ) (stdSort : StdSort β)
    (plan : Plan β γ) (buffer : β) :
    (placedConflicts buffers stdSort plan buffer).Pairwise fun a b =>
      ¬placedOffset plan b < placedOffset plan a := by
  apply (stdSort.sorted _ _ (offsetLess_weak plan)).imp
  intro a b ordered
  exact of_decide_eq_false ordered

theorem mem_placedConflicts {c : β} (conflict : c ∈ (buffers buffer).conflicts)
    {allocation : PoolAllocation γ} (there : plan c = some allocation) :
    c ∈ placedConflicts buffers stdSort plan buffer := by
  apply (stdSort.perm _ _).mem_iff.mpr
  apply List.mem_filter.mpr
  refine ⟨conflict, ?_⟩
  rw [there]
  rfl

theorem choosePlacement_spec [DecidableEq γ] (placed : Placed pools buffers plan)
    (narrow : IntOffsets plan) (fine : Narrow pools buffers stdSort plan buffer)
    {chosen : γ × UInt64} (done : choosePlacement pools buffers stdSort plan buffer = some chosen) :
    chosen.1 ∈ (buffers buffer).poolCandidates ∧
      isValidPlacement (pools chosen.1) chosen.2 (buffers buffer).sizeBytes.toUInt64 = some true ∧
      ∀ c ∈ (buffers buffer).conflicts, Apart buffers plan buffer chosen.2 chosen.1 c := by
  have small := fine.offset chosen done
  simp only [choosePlacement, Option.bind_eq_bind, Option.bind_eq_some_iff] at done
  obtain ⟨start, started, final, visited, pool, selected, chosenEq⟩ := done
  unfold selectPlacementPool at selected
  have candidate := List.mem_of_find?_eq_some selected
  have held : (final pool).isSome := by simpa using List.find?_some selected
  obtain ⟨offset, found⟩ := Option.isSome_iff_exists.mp held
  have sorted := placedConflicts_sorted buffers stdSort plan buffer
  have avoids := (Avoids.start started pool).run placed narrow fine.sized sorted visited
  obtain rfl := Option.some.inj chosenEq
  rw [found] at avoids
  simp only [found, Option.getD_some] at small ⊢
  obtain ⟨valid, apart⟩ := avoids small
  refine ⟨candidate, valid, fun c conflict allocation there => ?_⟩
  exact apart c (mem_placedConflicts conflict there) allocation there

/-- What a plan that is being made keeps. -/
structure InOrder (pools : γ → PoolInfo) (buffers : β → BufferInfo β γ) (plan : Plan β γ) :
    Prop where
  placed : Placed pools buffers plan
  narrow : IntOffsets plan

theorem InOrder.step [DecidableEq β] [DecidableEq γ]
    (symmetric : ∀ b c, c ∈ (buffers b).conflicts → b ∈ (buffers c).conflicts)
    (inOrder : InOrder pools buffers plan) (fine : Narrow pools buffers stdSort plan buffer)
    (done : placeAmong pools buffers stdSort plan buffer = some next) :
    InOrder pools buffers next ∧ ∀ b, (plan b).isSome ∨ b = buffer → (next b).isSome := by
  obtain ⟨chosen, found, rfl⟩ := Option.map_eq_some_iff.mp done
  have small := fine.offset chosen found
  have number := toInt_integer small
  obtain ⟨candidate, valid, apart⟩ := choosePlacement_spec inOrder.placed inOrder.narrow fine found
  refine ⟨⟨inOrder.placed.place symmetric fine.sized candidate small valid ?_, ?_⟩, ?_⟩
  · intro c conflict allocation there inPool
    rw [bytes, bytes, Set.Ico_disjoint_Ico, number]
    rcases apart c conflict allocation there inPool with before | behind
    · exact le_trans (min_le_left _ _) (le_trans before (le_max_right _ _))
    · exact le_trans (min_le_right _ _) (le_trans behind (le_max_left _ _))
  · intro b allocation there
    by_cases same : b = buffer
    · subst same
      rw [Function.update_self] at there
      obtain rfl := Option.some.inj there
      rw [number]
      exact_mod_cast small
    · rw [Function.update_of_ne same] at there
      exact inOrder.narrow b allocation there
  · intro b before
    by_cases same : b = buffer
    · simp [same]
    · rw [Function.update_of_ne same]
      exact before.resolve_right same

theorem InOrder.run [DecidableEq β] [DecidableEq γ]
    (symmetric : ∀ b c, c ∈ (buffers b).conflicts → b ∈ (buffers c).conflicts)
    {bufferInfoVec : List β} (inOrder : InOrder pools buffers plan)
    (fine : NarrowRun pools buffers stdSort plan bufferInfoVec)
    (done : bufferInfoVec.foldlM (placeAmong pools buffers stdSort) plan = some next) :
    InOrder pools buffers next ∧ ∀ b, (plan b).isSome ∨ b ∈ bufferInfoVec → (next b).isSome := by
  induction bufferInfoVec generalizing plan with
  | nil =>
    obtain rfl := Option.some.inj done
    exact ⟨inOrder, fun b before => before.resolve_right List.not_mem_nil⟩
  | cons buffer rest ih =>
    rw [List.foldlM_cons, Option.bind_eq_bind, Option.bind_eq_some_iff] at done
    obtain ⟨middle, here, later⟩ := done
    obtain ⟨kept, grown⟩ := inOrder.step symmetric fine.1 here
    obtain ⟨final, all⟩ := ih kept (fine.2 middle here) later
    refine ⟨final, fun b before => all b ?_⟩
    rw [List.mem_cons, ← or_assoc] at before
    exact before.imp_left (grown b)

/-- A plan made without losing a bit of an offset is safe, whatever the order. -/
theorem greedy_safe [DecidableEq β] [DecidableEq γ]
    (symmetric : ∀ b c, c ∈ (buffers b).conflicts → b ∈ (buffers c).conflicts)
    {bufferInfoVec : List β} (fine : NarrowRun pools buffers stdSort (fun _ => none) bufferInfoVec)
    (done : greedy pools buffers stdSort bufferInfoVec = some plan) :
    Plan.Safe pools buffers bufferInfoVec plan := by
  have start : InOrder pools buffers (fun _ : β => (none : Option (PoolAllocation γ))) :=
    ⟨Placed.start, fun _ _ there => by cases there⟩
  obtain ⟨⟨placed, -⟩, all⟩ := start.run symmetric fine done
  constructor
  · intro b membership
    obtain ⟨allocation, found⟩ := Option.isSome_iff_exists.mp (all b (.inr membership))
    exact ⟨allocation, found, placed.pool b allocation found, placed.fits b allocation found⟩
  · intro b _ c _ different conflict first second firstPlaced secondPlaced samePool
    exact placed.disjoint b c different conflict first second firstPlaced secondPlaced samePool

theorem element_eq_some {list : List β} {index : Int} {b : β} (found : element list index = some b) :
    ∃ bound : index.toNat < list.length, list[index.toNat] = b := by
  unfold element at found
  split at found
  · cases found
  · exact List.getElem?_eq_some_iff.mp found

/-- What changing two places leaves alone. -/
structure SameResult (climb after : Climb β γ) : Prop where
  perm : after.bufferInfoVec.Perm climb.bufferInfoVec
  total : after.totalSize = climb.totalSize
  result : after.resultPoolAllocations = climb.resultPoolAllocations

/-- The state that a round leaves behind. -/
def Turn.climb : Turn β γ → Climb β γ
  | .stop climb => climb
  | .next climb => climb

variable [DecidableEq β]

theorem sameResult_swapBuffers {climb after : Climb β γ} {i1 i2 : Int}
    (done : climb.swapBuffers i1 i2 = some after) : SameResult climb after := by
  unfold Climb.swapBuffers at done
  split at done
  · obtain rfl := Option.some.inj done
    exact ⟨List.Perm.refl _, rfl, rfl⟩
  · simp only [Option.bind_eq_bind, Option.bind_eq_some_iff] at done
    obtain ⟨b1, first, b2, second, swapped⟩ := done
    obtain rfl := Option.some.inj swapped
    obtain ⟨bound1, rfl⟩ := element_eq_some first
    obtain ⟨bound2, rfl⟩ := element_eq_some second
    exact ⟨List.set_set_perm bound1 bound2, rfl, rfl⟩

variable [DecidableEq γ] {random : Nat → Nat} {memoryPressure : UInt64} {tries attempts : Nat}

theorem sameResult_shuffle {climb after : Climb β γ}
    (done : climb.shuffle buffers stdSort random tries = some after) : SameResult climb after := by
  simp only [Climb.shuffle, Option.bind_eq_bind, Option.bind_eq_some_iff] at done
  obtain ⟨node, -, lists, -, rest⟩ := done
  split at rest
  · obtain rfl := Option.some.inj rest
    exact ⟨List.Perm.refl _, rfl, rfl⟩
  · obtain ⟨swapBuf1, -, other, -, rest⟩ := by
      simpa only [Option.bind_eq_some_iff] using rest
    split at rest
    · obtain rfl := Option.some.inj rest
      exact ⟨List.Perm.refl _, rfl, rfl⟩
    · obtain ⟨swapI1, -, swapI2, -, swapped⟩ := by
        simpa only [Option.bind_eq_some_iff] using rest
      have kept := sameResult_swapBuffers swapped
      exact ⟨kept.perm, kept.total, kept.result⟩

/-- The buffers are those of the array, and once there is a plan it is safe. -/
structure Fine (pools : γ → PoolInfo) (buffers : β → BufferInfo β γ) (bufferInfoArr : List β)
    (climb : Climb β γ) : Prop where
  perm : climb.bufferInfoVec.Perm bufferInfoArr
  safe : climb.totalSize ≠ 0 → Plan.Safe pools buffers bufferInfoArr climb.resultPoolAllocations

variable {bufferInfoArr : List β}

omit [DecidableEq β] [DecidableEq γ] in
theorem Plan.Safe.of_perm {list : List β} (perm : list.Perm bufferInfoArr)
    (safe : Plan.Safe pools buffers list plan) : Plan.Safe pools buffers bufferInfoArr plan where
  placed b membership := safe.placed b (perm.mem_iff.mpr membership)
  disjoint b first c second :=
    safe.disjoint b (perm.mem_iff.mpr first) c (perm.mem_iff.mpr second)

omit [DecidableEq β] [DecidableEq γ] in
theorem accepts_false {totalSize total : UInt64} {drawn after : Nat}
    (rejected : accepts random attempts totalSize total drawn = some (false, after)) :
    totalSize ≠ 0 := by
  intro zero
  simp [accepts, zero] at rejected

theorem Fine.judge (symmetric : ∀ b c, c ∈ (buffers b).conflicts → b ∈ (buffers c).conflicts)
    {climb : Climb β γ} (fine : Fine pools buffers bufferInfoArr climb)
    (narrow : NarrowRun pools buffers stdSort (fun _ => none) climb.bufferInfoVec)
    {turn : Turn β γ}
    (done : climb.judge pools buffers stdSort random memoryPressure attempts = some turn) :
    turn.climb.bufferInfoVec.Perm bufferInfoArr ∧
      Plan.Safe pools buffers bufferInfoArr turn.climb.resultPoolAllocations := by
  simp only [Climb.judge, Option.bind_eq_bind, Option.bind_eq_some_iff] at done
  obtain ⟨planned, made, verdict, judged, rest⟩ := done
  have safe := (greedy_safe symmetric narrow made).of_perm fine.perm
  split at rest
  next accepted =>
    obtain rfl := Option.some.inj rest
    split
    · exact ⟨fine.perm, safe⟩
    · exact ⟨fine.perm, safe⟩
  next rejected =>
    obtain ⟨rolled, swapped, turned⟩ := by simpa only [Option.bind_eq_some_iff] using rest
    obtain rfl := Option.some.inj turned
    have kept := sameResult_swapBuffers swapped
    have nonzero : climb.totalSize ≠ 0 := by
      apply accepts_false
      rw [judged, ← Bool.eq_false_of_not_eq_true rejected]
    refine ⟨kept.perm.trans fine.perm, ?_⟩
    change Plan.Safe pools buffers bufferInfoArr rolled.resultPoolAllocations
    rw [kept.result]
    exact fine.safe nonzero

theorem Fine.attempt (symmetric : ∀ b c, c ∈ (buffers b).conflicts → b ∈ (buffers c).conflicts)
    {climb : Climb β γ} (fine : Fine pools buffers bufferInfoArr climb)
    (narrow : NarrowRun pools buffers stdSort (fun _ => none) climb.bufferInfoVec)
    {turn : Turn β γ}
    (done : climb.attempt pools buffers stdSort random memoryPressure tries attempts = some turn) :
    turn.climb.bufferInfoVec.Perm bufferInfoArr ∧
      Plan.Safe pools buffers bufferInfoArr turn.climb.resultPoolAllocations := by
  simp only [Climb.attempt, Option.bind_eq_bind, Option.bind_eq_some_iff] at done
  obtain ⟨judgement, judged, rest⟩ := done
  have spec := fine.judge symmetric narrow judged
  split at rest
  next climb => exact Option.some.inj rest ▸ spec
  next climb =>
    obtain ⟨shuffled, done, rfl⟩ := Option.map_eq_some_iff.mp rest
    have kept := sameResult_shuffle done
    refine ⟨kept.perm.trans spec.1, ?_⟩
    change Plan.Safe pools buffers bufferInfoArr shuffled.resultPoolAllocations
    rw [kept.result]
    exact spec.2

/-- The rounds that are left end with a safe plan, if there are any or there is one already. -/
theorem Fine.run (symmetric : ∀ b c, c ∈ (buffers b).conflicts → b ∈ (buffers c).conflicts)
    {total : Nat} (narrow : ∀ round < total, ∀ climb, Climb.before pools buffers stdSort random
      memoryPressure tries bufferInfoArr round = some climb →
        NarrowRun pools buffers stdSort (fun _ => none) climb.bufferInfoVec)
    {remaining : Nat} {climb last : Climb β γ} (rounds : attempts + remaining = total)
    (there : Climb.before pools buffers stdSort random memoryPressure tries bufferInfoArr attempts =
      some climb)
    (fine : Fine pools buffers bufferInfoArr climb)
    (made : remaining = 0 → Plan.Safe pools buffers bufferInfoArr climb.resultPoolAllocations)
    (done : climb.run pools buffers stdSort random memoryPressure tries remaining attempts =
      some last) :
    Plan.Safe pools buffers bufferInfoArr last.resultPoolAllocations := by
  induction remaining generalizing attempts climb with
  | zero =>
    obtain rfl := Option.some.inj done
    exact made rfl
  | succ remaining ih =>
    rw [Climb.run, Option.bind_eq_bind, Option.bind_eq_some_iff] at done
    obtain ⟨turn, tried, rest⟩ := done
    have spec := fine.attempt symmetric (narrow attempts (by omega) climb there) tried
    cases turn with
    | stop stopped =>
      obtain rfl := Option.some.inj rest
      exact spec.2
    | next after =>
      have thereAfter : Climb.before pools buffers stdSort random memoryPressure tries bufferInfoArr
          (attempts + 1) = some after := by
        simp only [Climb.before, there, Option.bind_eq_bind, Option.bind_some, tried]
      exact ih (by omega) thereAfter ⟨spec.1, fun _ => spec.2⟩ (fun _ => spec.2) rest

/-- A run whose rounds all find what they ask for returns a safe plan, whatever the random
numbers. -/
theorem hillClimb_plan_safe
    (symmetric : ∀ b c, c ∈ (buffers b).conflicts → b ∈ (buffers c).conflicts)
    (stdSort : StdSort β) (random : Nat → Nat) (memoryPressure : UInt64) (tries : Nat)
    (bufferInfoArr : List β) (plan : Plan β γ)
    (planned : hillClimb pools buffers stdSort random memoryPressure tries bufferInfoArr = some plan)
    (narrow : ∀ round < maxAttempts, ∀ climb, Climb.before pools buffers stdSort random
      memoryPressure tries bufferInfoArr round = some climb →
        NarrowRun pools buffers stdSort (fun _ => none) climb.bufferInfoVec) :
    Plan.Safe pools buffers bufferInfoArr plan := by
  unfold hillClimb at planned
  split at planned
  · cases planned
  · obtain ⟨last, ran, rfl⟩ := Option.map_eq_some_iff.mp planned
    have start : Fine pools buffers bufferInfoArr (Climb.start buffers stdSort bufferInfoArr) :=
      ⟨stdSort.perm _ _, fun nonzero => absurd rfl nonzero⟩
    refine start.run symmetric narrow (Nat.zero_add _) rfl (fun none => ?_) ran
    exact absurd none (by decide)

/-- The second buffer lies behind the first one, and the first plan is small enough. -/
theorem hillClimb_plan_safe_pair :
    Plan.Safe smallPool pairBuffers [0, 1]
      (Function.update (Function.update (fun _ => none) 0 (some ⟨(), 0⟩)) 1 (some ⟨(), 64⟩)) := by
  have sized : ∀ b, WellSized smallPool (pairBuffers b) := by
    intro b
    refine ⟨?_, ?_, ?_, ?_⟩
    · revert b
      decide
    · revert b
      decide
    · revert b
      decide
    · intro pool _ hint found
      obtain rfl := Option.some.inj found
      exact .inr (by decide)
  have chosenFirst : choosePlacement smallPool pairBuffers (insertionSort (Fin 2)) (fun _ => none) 0 =
      some ((), 0) := by decide +kernel
  have chosenSecond : choosePlacement smallPool pairBuffers (insertionSort (Fin 2))
      (Function.update (fun _ => none) 0 (some ⟨(), 0⟩)) 1 = some ((), 64) := by decide +kernel
  have run : NarrowRun smallPool pairBuffers (insertionSort (Fin 2)) (fun _ => none) [0, 1] := by
    refine ⟨⟨sized 0, fun chosen found => ?_⟩, fun next placed => ?_⟩
    · obtain rfl := Option.some.inj (chosenFirst.symm.trans found)
      decide
    · rw [placeAmong, chosenFirst] at placed
      obtain rfl := Option.some.inj placed
      refine ⟨⟨sized 1, fun chosen found => ?_⟩, fun _ _ => trivial⟩
      obtain rfl := Option.some.inj (chosenSecond.symm.trans found)
      decide
  have order : sortVector pairBuffers (insertionSort (Fin 2)) [0, 1] = [0, 1] := by decide +kernel
  -- the loop is left in the first round
  have finished : ∀ round, Climb.before smallPool pairBuffers (insertionSort (Fin 2)) (fun _ => 0) 100 1
      [0, 1] (round + 1) = none := by
    intro round
    induction round with
    | zero =>
      have stopped : ((Climb.before smallPool pairBuffers (insertionSort (Fin 2)) (fun _ => 0) 100 1
          [0, 1] 1).isNone) = true := by decide +kernel
      exact Option.isNone_iff_eq_none.mp stopped
    | succ round ih =>
      rw [Climb.before, ih]
      rfl
  refine hillClimb_plan_safe (by decide) (insertionSort (Fin 2)) (fun _ => 0) 100 1 [0, 1] _
    (by decide +kernel) ?_
  intro round _ climb there
  cases round with
  | zero =>
    obtain rfl := Option.some.inj there
    change NarrowRun _ _ _ _ (sortVector pairBuffers (insertionSort (Fin 2)) [0, 1])
    rw [order]
    exact run
  | succ round =>
    rw [finished round] at there
    cases there

def numbered {n : Nat} (numbers : List Nat) : List (Fin n) :=
  numbers.filterMap fun number => if bound : number < n then some ⟨number, bound⟩ else none

/-- A buffer of 4 GiB, and one byte that is used together with it. -/
def largeBuffers : Fin 2 → BufferInfo (Fin 2) Unit :=
  ![⟨"large", 0x100000000, [()], 1, numbered [1]⟩, ⟨"byte", 1, [()], 1, numbered [0]⟩]

def unrestrictedPool : Unit → PoolInfo := fun _ => .workspacePoolInfo (-1)

def largePlan : Plan (Fin 2) Unit := fun _ => some ⟨(), 0⟩

/-- The offset of the second buffer loses its upper half. -/
theorem hillClimb_plan_overlap :
    ¬∀ (pools : Unit → PoolInfo) (buffers : Fin 2 → BufferInfo (Fin 2) Unit),
      (∀ b c, c ∈ (buffers b).conflicts → b ∈ (buffers c).conflicts) →
        ∀ (stdSort : StdSort (Fin 2)) random memoryPressure tries bufferInfoArr plan,
          hillClimb pools buffers stdSort random memoryPressure tries bufferInfoArr = some plan →
            Plan.Safe pools buffers bufferInfoArr plan := by
  intro safe
  have planned : hillClimb unrestrictedPool largeBuffers (insertionSort (Fin 2)) (fun _ => 0)
      0x200000000 1 [0, 1] = some largePlan := by decide +kernel
  have plan := safe unrestrictedPool largeBuffers (by decide) _ _ _ _ _ _ planned
  have apart := plan.disjoint 0 (by decide) 1 (by decide) (by decide) (by decide) ⟨(), 0⟩ ⟨(), 0⟩
    rfl rfl rfl
  have first : (0 : Int) ∈ bytes (largeBuffers 0) ⟨(), 0⟩ := ⟨by decide, by decide⟩
  have second : (0 : Int) ∈ bytes (largeBuffers 1) ⟨(), 0⟩ := ⟨by decide, by decide⟩
  exact Set.disjoint_left.mp apart first second

end Tvm.Usmp
