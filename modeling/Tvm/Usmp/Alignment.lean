import Tvm.Usmp.HillClimbBest

/-!
# The alignment of the offsets

Both planners round the end of a placed conflict up to the alignment of that conflict, not to
the alignment of the buffer that is placed behind it.
-/

namespace Tvm.Usmp

variable {β γ : Type} [DecidableEq β] [DecidableEq γ]

section

variable (pools : γ → PoolInfo) (buffers : β → BufferInfo β γ)

/-- The offset of each buffer of the array is a multiple of its own alignment. -/
def Plan.Aligned (bufferInfoArr : List β) (plan : Plan β γ) : Prop :=
  ∀ b ∈ bufferInfoArr, ∀ allocation, plan b = some allocation →
    (buffers b).alignment.toInt ∣ allocation.byteOffset.toInt

/-- The conflict that changes the candidate offset of `pool` last. -/
def lastMover (scan : PoolOffsets γ → β → Option (PoolOffsets γ)) (pool : γ) :
    PoolOffsets γ → List β → Option β → Option β
  | _, [], last => last
  | poolOffsets, conflict :: conflicts, last =>
    match scan poolOffsets conflict with
    | none => last
    | some after =>
      lastMover scan pool after conflicts
        (if after pool = poolOffsets pool then last else some conflict)

def findOffset (scan : PoolOffsets γ → β → Option (PoolOffsets γ)) (conflicts : List β) (buffer : β) :
    Option (γ × UInt64) := do
  let start ← initialCandidates pools (buffers buffer).sizeBytes.toUInt64
    (buffers buffer).poolCandidates fun _ => none
  let poolOffsets ← conflicts.foldlM scan start
  let selectedPool ← selectPlacementPool (buffers buffer) poolOffsets
  some (selectedPool, (poolOffsets selectedPool).getD 0)

/-- In the pool that is selected, the conflict that has the last word ends, rounded up to its
own alignment, at a multiple of the alignment of the buffer. -/
def OnBoundary (scan : Plan β γ → β → PoolOffsets γ → β → Option (PoolOffsets γ))
    (conflicts : Plan β γ → β → List β) (plan : Plan β γ) (buffer : β) : Prop :=
  ∀ start poolOffsets pool, initialCandidates pools (buffers buffer).sizeBytes.toUInt64
      (buffers buffer).poolCandidates (fun _ => none) = some start →
    (conflicts plan buffer).foldlM (scan plan buffer) start = some poolOffsets →
    selectPlacementPool (buffers buffer) poolOffsets = some pool →
    ∀ conflict, lastMover (scan plan buffer) pool start (conflicts plan buffer) none =
        some conflict →
      ∀ allocation, plan conflict = some allocation → ∀ next,
        offsetBehind (buffers conflict) allocation = some next →
          (buffers buffer).alignment.toInt ∣ (integer next).toInt

def LastRounds (place : Plan β γ → β → Option (Plan β γ)) (meets : Plan β γ → β → Prop) :
    Plan β γ → List β → Prop
  | _, [] => True
  | plan, buffer :: rest => (buffer ∉ rest → meets plan buffer) ∧
    ∀ next, place plan buffer = some next → LastRounds place meets next rest

/-- `greedy.cc` finds its buffers on boundaries. -/
def GreedyOnBoundaries (bufferInfoVec : List β) : Prop :=
  LastRounds (placeBuffer pools buffers)
    (OnBoundary pools buffers
      (fun plan buffer => scanConflict pools buffers plan (buffers buffer).sizeBytes.toUInt64)
      (fun _ buffer => (buffers buffer).conflicts))
    (fun _ => none) bufferInfoVec

/-- `hill_climb.cc` finds its buffers on boundaries when it places them in the given order. -/
def HillClimbOnBoundaries (stdSort : StdSort β) (bufferInfoVec : List β) : Prop :=
  LastRounds (placeAmong pools buffers stdSort)
    (OnBoundary pools buffers
      (fun plan buffer => avoidConflict pools buffers plan (buffers buffer).sizeBytes.toUInt64)
      (placedConflicts buffers stdSort))
    (fun _ => none) bufferInfoVec

end

variable {pools : γ → PoolInfo} {buffers : β → BufferInfo β γ} {plan : Plan β γ} {buffer : β}

/-- A candidate is 0 as long as nothing has moved it, and the offset behind the conflict that
has moved it last otherwise. -/
def Stems (buffers : β → BufferInfo β γ) (plan : Plan β γ) (candidate : Option UInt64)
    (last : Option β) : Prop :=
  ∀ offset, candidate = some offset →
    match last with
    | none => offset = 0
    | some conflict => ∃ allocation, plan conflict = some allocation ∧
        offsetBehind (buffers conflict) allocation = some offset

/-- What a step of a scan may do to a candidate. -/
def Scans (buffers : β → BufferInfo β γ) (plan : Plan β γ)
    (scan : PoolOffsets γ → β → Option (PoolOffsets γ)) : Prop :=
  ∀ poolOffsets conflict after, scan poolOffsets conflict = some after → ∀ pool,
    after pool = poolOffsets pool ∨ Stems buffers plan (after pool) (some conflict)

omit [DecidableEq β] in
theorem scans_scanConflict (sizeBytes : UInt64) :
    Scans buffers plan (scanConflict pools buffers plan sizeBytes) := by
  intro poolOffsets conflict after done pool
  unfold scanConflict at done
  split at done
  · obtain rfl := Option.some.inj done
    exact .inl rfl
  next allocation placed =>
    simp only [Option.bind_eq_bind, Option.bind_eq_some_iff] at done
    obtain ⟨next, behind, valid, -, rest⟩ := done
    split at rest
    · obtain rfl := Option.some.inj rest
      by_cases same : pool = allocation.poolInfo
      · subst same
        rw [Function.update_self]
        by_cases raised : (poolOffsets allocation.poolInfo).getD 0 < next
        · rw [if_pos raised]
          refine .inr fun offset found => ?_
          obtain rfl := Option.some.inj found
          exact ⟨allocation, placed, behind⟩
        · rw [if_neg raised]
          cases before : poolOffsets allocation.poolInfo with
          | some offset => exact .inl rfl
          | none =>
            -- an erased candidate comes back at 0
            rw [before] at raised
            have zero : next = 0 := by
              apply UInt64.toNat_inj.mp
              have le : next ≤ 0 := UInt64.not_lt.mp raised
              exact Nat.le_zero.mp (UInt64.le_iff_toNat_le.mp le)
            refine .inr fun offset found => ?_
            obtain rfl : 0 = offset := Option.some.inj found
            rw [zero] at behind
            exact ⟨allocation, placed, behind⟩
      · rw [Function.update_of_ne same]
        exact .inl rfl
    · obtain rfl := Option.some.inj rest
      by_cases same : pool = allocation.poolInfo
      · subst same
        rw [Function.update_self]
        exact .inr fun _ found => by cases found
      · rw [Function.update_of_ne same]
        exact .inl rfl

omit [DecidableEq β] in
theorem scans_avoidConflict (sizeBytes : UInt64) :
    Scans buffers plan (avoidConflict pools buffers plan sizeBytes) := by
  intro poolOffsets conflict after done pool
  unfold avoidConflict at done
  split at done
  · obtain rfl := Option.some.inj done
    exact .inl rfl
  next allocation placed =>
    simp only [Option.bind_eq_bind, Option.bind_eq_some_iff] at done
    obtain ⟨next, behind, rest⟩ := done
    split at rest
    · obtain rfl := Option.some.inj rest
      exact .inl rfl
    next offset there =>
      obtain ⟨valid, -, rest⟩ := by simpa only [Option.bind_eq_some_iff] using rest
      by_cases same : pool = allocation.poolInfo
      · subst same
        split at rest
        · split at rest
          · obtain rfl := Option.some.inj rest
            rw [Function.update_self]
            refine .inr fun offset found => ?_
            obtain rfl := Option.some.inj found
            exact ⟨allocation, placed, behind⟩
          · obtain rfl := Option.some.inj rest
            exact .inl rfl
        · obtain rfl := Option.some.inj rest
          rw [Function.update_self]
          exact .inr fun _ found => by cases found
      · split at rest
        · split at rest
          · obtain rfl := Option.some.inj rest
            rw [Function.update_of_ne same]
            exact .inl rfl
          · obtain rfl := Option.some.inj rest
            exact .inl rfl
        · obtain rfl := Option.some.inj rest
          rw [Function.update_of_ne same]
          exact .inl rfl

omit [DecidableEq β] [DecidableEq γ] in
theorem Scans.stems {scan : PoolOffsets γ → β → Option (PoolOffsets γ)}
    (scans : Scans buffers plan scan) {pool : γ} {conflicts : List β}
    {poolOffsets after : PoolOffsets γ} {last : Option β}
    (start : Stems buffers plan (poolOffsets pool) last)
    (done : conflicts.foldlM scan poolOffsets = some after) :
    Stems buffers plan (after pool) (lastMover scan pool poolOffsets conflicts last) := by
  induction conflicts generalizing poolOffsets last with
  | nil =>
    obtain rfl := Option.some.inj done
    exact start
  | cons conflict conflicts ih =>
    rw [List.foldlM_cons, Option.bind_eq_bind, Option.bind_eq_some_iff] at done
    obtain ⟨middle, here, rest⟩ := done
    rw [lastMover, here]
    refine ih ?_ rest
    split
    next same =>
      rw [same]
      exact start
    next moved => exact (scans poolOffsets conflict middle here pool).resolve_left moved

theorem initialCandidates_zero {sizeBytes : UInt64} {candidates : List γ}
    {poolOffsets after : PoolOffsets γ} (start : ∀ pool offset, poolOffsets pool = some offset →
      offset = 0) (done : initialCandidates pools sizeBytes candidates poolOffsets = some after)
    (pool : γ) (offset : UInt64) (found : after pool = some offset) : offset = 0 := by
  induction candidates generalizing poolOffsets with
  | nil =>
    obtain rfl := Option.some.inj done
    exact start pool offset found
  | cons candidate candidates ih =>
    rw [initialCandidates, Option.bind_eq_bind, Option.bind_eq_some_iff] at done
    obtain ⟨valid, -, rest⟩ := done
    refine ih (fun other value there => ?_) rest
    split at there
    · by_cases same : other = candidate
      · rw [same, Function.update_self] at there
        exact (Option.some.inj there).symm
      · rw [Function.update_of_ne same] at there
        exact start other value there
    · exact start other value there

omit [DecidableEq β] in
/-- The offset that a scan finds is aligned if and only if the conflict that has the last word
ends on a boundary. -/
theorem findOffset_aligned_iff
    (scan : Plan β γ → β → PoolOffsets γ → β → Option (PoolOffsets γ))
    (conflicts : Plan β γ → β → List β) (scans : Scans buffers plan (scan plan buffer))
    {chosen : γ × UInt64}
    (found : findOffset pools buffers (scan plan buffer) (conflicts plan buffer) buffer =
      some chosen) :
    (buffers buffer).alignment.toInt ∣ (integer chosen.2).toInt ↔
      OnBoundary pools buffers scan conflicts plan buffer := by
  simp only [findOffset, Option.bind_eq_bind, Option.bind_eq_some_iff] at found
  obtain ⟨start, started, poolOffsets, scanned, pool, selected, same⟩ := found
  obtain rfl := Option.some.inj same
  have zero : Stems buffers plan (start pool) none :=
    initialCandidates_zero (fun _ _ none => by cases none) started pool
  have stems := scans.stems zero scanned
  have there : ∃ offset, poolOffsets pool = some offset := by
    have candidate := List.find?_some selected
    exact Option.isSome_iff_exists.mp candidate
  obtain ⟨offset, there⟩ := there
  have stem := stems offset there
  rw [there, Option.getD_some]
  constructor
  · intro aligned otherStart otherOffsets otherPool startedAgain scannedAgain selectedAgain
      conflict last allocation placed next behind
    obtain rfl := Option.some.inj (started.symm.trans startedAgain)
    obtain rfl := Option.some.inj (scanned.symm.trans scannedAgain)
    obtain rfl := Option.some.inj (selected.symm.trans selectedAgain)
    rw [last] at stem
    obtain ⟨found, placedAgain, behindAgain⟩ := stem
    obtain rfl := Option.some.inj (placed.symm.trans placedAgain)
    obtain rfl := Option.some.inj (behind.symm.trans behindAgain)
    exact aligned
  · intro boundary
    cases last : lastMover (scan plan buffer) pool start (conflicts plan buffer) none with
    | none =>
      rw [last] at stem
      obtain rfl : offset = 0 := stem
      have nothing : (integer 0).toInt = 0 := rfl
      rw [nothing]
      exact dvd_zero _
    | some conflict =>
      rw [last] at stem
      obtain ⟨allocation, placed, behind⟩ := stem
      exact boundary start poolOffsets pool started scanned selected conflict last allocation
        placed offset behind

def Places (buffers : β → BufferInfo β γ) (place : Plan β γ → β → Option (Plan β γ))
    (meets : Plan β γ → β → Prop) : Prop :=
  ∀ plan buffer next, place plan buffer = some next →
    ∃ allocation, next = Function.update plan buffer (some allocation) ∧
      ((buffers buffer).alignment.toInt ∣ allocation.byteOffset.toInt ↔ meets plan buffer)

omit [DecidableEq γ] in
/-- A run gives aligned offsets if and only if its last round for each buffer finds what it
asks for. -/
theorem Places.run {place : Plan β γ → β → Option (Plan β γ)} {meets : Plan β γ → β → Prop}
    (places : Places buffers place meets) {bufferInfoVec : List β} {final : Plan β γ}
    (done : bufferInfoVec.foldlM place plan = some final) :
    (∀ b ∉ bufferInfoVec, final b = plan b) ∧
      (Plan.Aligned buffers bufferInfoVec final ↔ LastRounds place meets plan bufferInfoVec) := by
  induction bufferInfoVec generalizing plan with
  | nil =>
    obtain rfl := Option.some.inj done
    exact ⟨fun _ _ => rfl, fun _ => trivial, fun _ _ membership => by cases membership⟩
  | cons buffer rest ih =>
    rw [List.foldlM_cons, Option.bind_eq_bind, Option.bind_eq_some_iff] at done
    obtain ⟨next, here, later⟩ := done
    obtain ⟨kept, aligned⟩ := ih later
    obtain ⟨allocation, rfl, meet⟩ := places plan buffer next here
    constructor
    · intro b outside
      obtain ⟨different, other⟩ := not_or.mp (List.mem_cons.not.mp outside)
      rw [kept b other, Function.update_of_ne different]
    · have last : buffer ∉ rest → final buffer = some allocation := by
        intro ended
        rw [kept buffer ended, Function.update_self]
      constructor
      · intro whole
        refine ⟨fun ended => ?_, fun other placed => ?_⟩
        · exact meet.mp (whole buffer List.mem_cons_self allocation (last ended))
        · obtain rfl := Option.some.inj (here.symm.trans placed)
          exact aligned.mp fun b membership => whole b (List.mem_cons_of_mem _ membership)
      · rintro ⟨now, thereafter⟩ b membership found placed
        by_cases again : b ∈ rest
        · exact aligned.mpr (thereafter _ here) b again found placed
        · obtain rfl : b = buffer := (List.mem_cons.mp membership).resolve_right again
          obtain rfl := Option.some.inj ((last again).symm.trans placed)
          exact meet.mpr (now again)

theorem places_placeBuffer : Places buffers (placeBuffer pools buffers)
    (OnBoundary pools buffers
      (fun plan buffer => scanConflict pools buffers plan (buffers buffer).sizeBytes.toUInt64)
      (fun _ buffer => (buffers buffer).conflicts)) := by
  intro plan buffer next placed
  simp only [placeBuffer, Option.bind_eq_bind, Option.bind_eq_some_iff] at placed
  obtain ⟨start, started, poolOffsets, scanned, pool, selected, same⟩ := placed
  obtain rfl := Option.some.inj same
  have found : findOffset pools buffers
      (scanConflict pools buffers plan (buffers buffer).sizeBytes.toUInt64)
      (buffers buffer).conflicts buffer = some (pool, (poolOffsets pool).getD 0) := by
    rw [findOffset, started, Option.bind_eq_bind, Option.bind_some, scanned, Option.bind_eq_bind,
      Option.bind_some, selected]
    rfl
  have aligned := findOffset_aligned_iff
    (fun plan buffer => scanConflict pools buffers plan (buffers buffer).sizeBytes.toUInt64)
    (fun _ buffer => (buffers buffer).conflicts) (scans_scanConflict _) found
  exact ⟨⟨pool, integer ((poolOffsets pool).getD 0)⟩, rfl, aligned⟩

theorem places_placeAmong (stdSort : StdSort β) :
    Places buffers (placeAmong pools buffers stdSort)
      (OnBoundary pools buffers
        (fun plan buffer => avoidConflict pools buffers plan (buffers buffer).sizeBytes.toUInt64)
        (placedConflicts buffers stdSort)) := by
  intro plan buffer next placed
  obtain ⟨chosen, found, same⟩ := Option.map_eq_some_iff.mp placed
  have aligned := findOffset_aligned_iff
    (fun plan buffer => avoidConflict pools buffers plan (buffers buffer).sizeBytes.toUInt64)
    (placedConflicts buffers stdSort) (scans_avoidConflict _) found
  exact ⟨_, same.symm, aligned⟩

omit [DecidableEq β] [DecidableEq γ] in
theorem Plan.aligned_perm {first second : List β} (perm : first.Perm second) :
    Plan.Aligned buffers first plan ↔ Plan.Aligned buffers second plan :=
  forall_congr' fun _ => imp_congr_left perm.mem_iff

/-- Five bytes anywhere, and four bytes at multiples of four. -/
def oddBuffers : Fin 2 → BufferInfo (Fin 2) Unit :=
  ![⟨"odd", 5, [()], 1, numbered [1]⟩, ⟨"word", 4, [()], 4, numbered [0]⟩]

def oddPlan : Plan (Fin 2) Unit := ![some ⟨(), 0⟩, some ⟨(), 5⟩]

end Tvm.Usmp
