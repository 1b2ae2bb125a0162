import Mathlib

/-!
# The ring of DMA descriptors

`RingBuffer` of `runtime/hexagon/ring_buffer.h`.  The ids of the slots are counters of 32 bits that
run freely; what `in_flight_` says of the slots is kept apart from the ring.
-/

namespace Tvm.Hexagon

structure RingBuffer where
  ringBuffSize : UInt32
  size_ne_zero : ringBuffSize ≠ 0
  idNext : UInt32
  idOldest : UInt32

namespace RingBuffer

def make (ringBuffSize : UInt32) : Option RingBuffer :=
  if nonzero : ringBuffSize ≠ 0 then some ⟨ringBuffSize, nonzero, 0, 0⟩ else none

/-- `GetAddr`: the number of the slot. -/
def getAddr (ring : RingBuffer) (id : UInt32) : Nat :=
  (id % ring.ringBuffSize).toNat

def retire (ring : RingBuffer) (inFlight : Nat → Bool) : RingBuffer :=
  if ring.idOldest < ring.idNext ∧ inFlight (ring.getAddr ring.idOldest) = false then
    retire { ring with idOldest := ring.idOldest + 1 } inFlight
  else ring
termination_by ring.idNext.toNat - ring.idOldest.toNat
decreasing_by
  rename_i continues
  have below := UInt32.lt_iff_toNat_lt.mp continues.1
  have bound := ring.idNext.toNat_lt
  rw [UInt32.toNat_add, UInt32.toNat_one]
  omega

def inFlight (ring : RingBuffer) (inFlight : Nat → Bool) : UInt32 × RingBuffer :=
  let retired := ring.retire inFlight
  (retired.idNext - retired.idOldest, retired)

/-- `Next`; `none` for a null pointer. -/
def next (ring : RingBuffer) (inFlight : Nat → Bool) : Option Nat × RingBuffer :=
  let (count, retired) := ring.inFlight inFlight
  if count = retired.ringBuffSize then (none, retired)
  else (some (retired.getAddr retired.idNext), { retired with idNext := retired.idNext + 1 })

end RingBuffer

structure Handout where
  slot : Nat
  inFlight : Bool
  deriving DecidableEq, Repr

def Handout.completeAt (slot : Nat) (handout : Handout) : Handout :=
  if handout.slot = slot then { handout with inFlight := false } else handout

/-- A ring with what its slots say and the slots that have been handed out, the oldest first. -/
structure RingRun where
  ring : RingBuffer
  inFlight : Nat → Bool
  handed : List Handout

inductive RingCall where
  | inFlight
  | next
  deriving DecidableEq, Repr

namespace RingRun

variable (run : RingRun)

def handOut (ring : RingBuffer) (slot : Nat) : RingRun where
  ring := ring
  inFlight := Function.update run.inFlight slot true
  handed := run.handed ++ [⟨slot, true⟩]

def call : RingCall → RingRun
  | .inFlight => { run with ring := (run.ring.inFlight run.inFlight).2 }
  | .next =>
    match run.ring.next run.inFlight with
    | (some slot, ring) => run.handOut ring slot
    | (none, ring) => { run with ring := ring }

def complete (slot : Nat) : RingRun where
  ring := run.ring
  inFlight := Function.update run.inFlight slot false
  handed := run.handed.map (Handout.completeAt slot)

def Keeps : RingCall → Prop
  | .inFlight =>
    (run.ring.inFlight run.inFlight).1.toNat =
      (run.handed.dropWhile fun handout => !handout.inFlight).length
  | .next =>
    match (run.ring.next run.inFlight).1 with
    | some slot => ∀ handout ∈ run.handed, handout.inFlight = true → handout.slot ≠ slot
    | none => ∃ handout ∈ run.handed, handout.inFlight = true

/-- Fewer than `2 ^ 32` slots have been handed out, or the oldest slot has not completed; with the
counters as they are, the ring is not taken for full without a slot in flight, and the slot at
`id_next_` is not in flight otherwise. -/
def Meets : RingCall → Prop
  | .inFlight =>
    run.handed.length < 2 ^ 32 ∨
      ∃ handout, run.handed[run.ring.idOldest.toNat]? = some handout ∧ handout.inFlight = true
  | .next =>
    run.handed.length < 2 ^ 32 ∨
      if run.ring.idNext - run.ring.idOldest = run.ring.ringBuffSize then
        ∃ handout ∈ run.handed, handout.inFlight = true
      else ∀ handout ∈ run.handed, handout.inFlight = true →
        handout.slot ≠ run.ring.getAddr run.ring.idNext

end RingRun

/-- The runs of a ring: calls, and slots that complete in any order. -/
inductive RingReached (start : RingBuffer) : RingRun → Prop where
  | start (inFlight : Nat → Bool) : RingReached start ⟨start, inFlight, []⟩
  | call {run : RingRun} (call : RingCall) :
      RingReached start run → RingReached start (run.call call)
  | complete {run : RingRun} (slot : Nat) :
      RingReached start run → RingReached start (run.complete slot)

end Tvm.Hexagon

/-!
## Descriptors in flight are not reused

The oldest and the next id are at most a ring apart, also behind the wrap of the counters.  Once the
next id has wrapped and the oldest has not, the loop of `InFlight` does not move any more.
-/

namespace Tvm.Hexagon

section DropWhile

variable {α : Type} {p : α → Bool} {xs : List α}

theorem dropWhile_eq_drop (count : Nat) (passed : ∀ x ∈ xs.take count, p x = true)
    (stops : ∀ x, xs[count]? = some x → p x = false) : xs.dropWhile p = xs.drop count := by
  induction xs generalizing count with
  | nil => rw [List.drop_nil, List.dropWhile_nil]
  | cons x rest ih =>
    cases count with
    | zero =>
      have stop := stops x rfl
      rw [List.drop_zero, List.dropWhile_cons_of_neg (by rw [stop]; exact Bool.false_ne_true)]
    | succ count =>
      obtain ⟨first, others⟩ := List.forall_mem_cons.mp passed
      rw [List.dropWhile_cons_of_pos first, List.drop_succ_cons]
      exact ih count others fun y there => stops y there

theorem length_dropWhile_lt {count : Nat} (passed : ∀ x ∈ xs.take (count + 1), p x = true)
    (inside : count < xs.length) : (xs.dropWhile p).length < xs.length - count := by
  induction xs generalizing count with
  | nil => cases inside
  | cons x rest ih =>
    obtain ⟨first, others⟩ := List.forall_mem_cons.mp passed
    rw [List.dropWhile_cons_of_pos first]
    cases count with
    | zero =>
      have shorter := (List.dropWhile_sublist (l := rest) p).length_le
      rw [List.length_cons]
      omega
    | succ count =>
      have fewer := ih others (Nat.lt_of_succ_lt_succ inside)
      rw [List.length_cons]
      omega

end DropWhile

theorem completeAt_cases (slot : Nat) (handout : Handout) :
    (Handout.completeAt slot handout).slot = handout.slot ∧
      (Handout.completeAt slot handout).inFlight =
        if handout.slot = slot then false else handout.inFlight := by
  unfold Handout.completeAt
  split
  · exact ⟨rfl, rfl⟩
  · exact ⟨rfl, rfl⟩

/-- The ids between the oldest and the next one are those of the slots that may be in flight. -/
structure RingRun.Invariant (run : RingRun) : Prop where
  idNext : run.ring.idNext.toNat = run.handed.length % 2 ^ 32
  oldest_le : run.ring.idOldest.toNat ≤ run.handed.length
  window : run.handed.length ≤ run.ring.idOldest.toNat + run.ring.ringBuffSize.toNat
  completed : ∀ i handout, run.handed[i]? = some handout → i < run.ring.idOldest.toNat →
    handout.inFlight = false
  slots : ∀ i handout, run.handed[i]? = some handout → i < 2 ^ 32 →
    handout.slot = i % run.ring.ringBuffSize.toNat
  flags : run.handed.length < 2 ^ 32 → ∀ i handout, run.handed[i]? = some handout →
    run.ring.idOldest.toNat ≤ i → run.inFlight handout.slot = handout.inFlight

/-- No slot before the oldest one is in flight, and the oldest one is. -/
def RingRun.Settled (run : RingRun) : Prop :=
  ∀ handout, run.handed[run.ring.idOldest.toNat]? = some handout → handout.inFlight = true

namespace RingRun.Invariant

variable {run : RingRun}

theorem start (ring : RingBuffer) (inFlight : Nat → Bool) (next : ring.idNext = 0)
    (oldest : ring.idOldest = 0) : RingRun.Invariant ⟨ring, inFlight, []⟩ where
  idNext := by rw [next]; rfl
  oldest_le := by rw [oldest]; rfl
  window := Nat.zero_le _
  completed := by simp
  slots := by simp
  flags := by simp

theorem size_pos (run : RingRun) : 0 < run.ring.ringBuffSize.toNat := by
  have nonzero := run.ring.size_ne_zero
  rw [Nat.pos_iff_ne_zero]
  intro zero
  exact nonzero (UInt32.toNat_inj.mp zero)

theorem count_toNat (invariant : run.Invariant) :
    (run.ring.idNext - run.ring.idOldest).toNat =
      run.handed.length - run.ring.idOldest.toNat := by
  have next := invariant.idNext
  have low := invariant.oldest_le
  have high := invariant.window
  have size := run.ring.ringBuffSize.toNat_lt
  have oldest := run.ring.idOldest.toNat_lt
  rw [UInt32.toNat_sub, next]
  omega

theorem getAddr_next (invariant : run.Invariant) (few : run.handed.length < 2 ^ 32) :
    run.ring.getAddr run.ring.idNext = run.handed.length % run.ring.ringBuffSize.toNat := by
  rw [RingBuffer.getAddr, UInt32.toNat_mod, invariant.idNext, Nat.mod_eq_of_lt few]

theorem slot_ne_next (invariant : run.Invariant) (few : run.handed.length < 2 ^ 32)
    (room : run.handed.length < run.ring.idOldest.toNat + run.ring.ringBuffSize.toNat) {i : Nat}
    {handout : Handout} (there : run.handed[i]? = some handout)
    (young : run.ring.idOldest.toNat ≤ i) :
    handout.slot ≠ run.handed.length % run.ring.ringBuffSize.toNat := by
  have inside := (List.getElem?_eq_some_iff.mp there).1
  rw [invariant.slots i handout there (inside.trans few)]
  intro same
  have apart : (run.handed.length - i) % run.ring.ringBuffSize.toNat = 0 :=
    Nat.sub_mod_eq_zero_of_mod_eq same.symm
  rw [Nat.mod_eq_of_lt (by omega)] at apart
  omega

theorem advance (invariant : run.Invariant) (few : run.handed.length < 2 ^ 32)
    (behind : run.ring.idOldest < run.ring.idNext)
    (complete : run.inFlight (run.ring.getAddr run.ring.idOldest) = false) :
    RingRun.Invariant
      { run with ring := { run.ring with idOldest := run.ring.idOldest + 1 } } := by
  have below := UInt32.lt_iff_toNat_lt.mp behind
  have next := invariant.idNext
  rw [Nat.mod_eq_of_lt few] at next
  have oldest : (run.ring.idOldest + 1).toNat = run.ring.idOldest.toNat + 1 := by
    rw [UInt32.toNat_add, UInt32.toNat_one]
    omega
  have high := invariant.window
  constructor
  · exact invariant.idNext
  · dsimp only
    omega
  · dsimp only
    omega
  · intro i handout there before
    dsimp only at there before
    rw [oldest] at before
    rcases Nat.lt_succ_iff_lt_or_eq.mp before with earlier | last
    · exact invariant.completed i handout there earlier
    · have slot := invariant.slots i handout there (by omega)
      have addr : run.ring.getAddr run.ring.idOldest = handout.slot := by
        rw [slot, last, RingBuffer.getAddr, UInt32.toNat_mod]
      rw [← invariant.flags few i handout there last.ge, ← addr]
      exact complete
  · exact invariant.slots
  · intro _ i handout there young
    dsimp only at there young
    exact invariant.flags few i handout there (by omega)

theorem retire (invariant : run.Invariant) (few : run.handed.length < 2 ^ 32) :
    let retired : RingRun := { run with ring := run.ring.retire run.inFlight }
    retired.Invariant ∧ retired.Settled := by
  generalize measure : run.ring.idNext.toNat - run.ring.idOldest.toNat = distance
  induction distance using Nat.strong_induction_on generalizing run with
  | _ distance ih =>
    by_cases continues : run.ring.idOldest < run.ring.idNext ∧
        run.inFlight (run.ring.getAddr run.ring.idOldest) = false
    · have below := UInt32.lt_iff_toNat_lt.mp continues.1
      have bound := run.ring.idNext.toNat_lt
      have nearer : run.ring.idNext.toNat - (run.ring.idOldest + 1).toNat < distance := by
        rw [UInt32.toNat_add, UInt32.toNat_one]
        omega
      have rest := ih _ nearer
        (invariant.advance few continues.1 continues.2) few rfl
      rw [RingBuffer.retire, if_pos continues]
      exact rest
    · rw [RingBuffer.retire, if_neg continues]
      refine ⟨invariant, fun handout there => ?_⟩
      have inside : run.ring.idOldest.toNat < run.handed.length :=
        (List.getElem?_eq_some_iff.mp there).1
      have next := invariant.idNext
      rw [Nat.mod_eq_of_lt few] at next
      have behind : run.ring.idOldest < run.ring.idNext := UInt32.lt_iff_toNat_lt.mpr (by omega)
      have flying := eq_true_of_ne_false fun complete => continues ⟨behind, complete⟩
      have slot := invariant.slots run.ring.idOldest.toNat handout there (by omega)
      have addr : run.ring.getAddr run.ring.idOldest = handout.slot := by
        rw [slot, RingBuffer.getAddr, UInt32.toNat_mod]
      rw [← invariant.flags few _ handout there le_rfl, ← addr]
      exact flying

theorem retire_wrapped (invariant : run.Invariant) (many : 2 ^ 32 ≤ run.handed.length) :
    run.ring.retire run.inFlight = run.ring := by
  have next := invariant.idNext
  have high := invariant.window
  have size := run.ring.ringBuffSize.toNat_lt
  have oldest := run.ring.idOldest.toNat_lt
  have ahead : ¬run.ring.idOldest < run.ring.idNext := by
    rw [UInt32.lt_iff_toNat_lt]
    omega
  rw [RingBuffer.retire, if_neg fun continues => ahead continues.1]

theorem length_dropWhile (invariant : run.Invariant) (settled : run.Settled) :
    (run.handed.dropWhile fun handout => !handout.inFlight).length =
      run.handed.length - run.ring.idOldest.toNat := by
  rw [dropWhile_eq_drop run.ring.idOldest.toNat, List.length_drop]
  · intro handout membership
    obtain ⟨i, inside, there⟩ := List.mem_take_iff_getElem.mp membership
    have complete := invariant.completed i handout
      (by rw [List.getElem?_eq_some_iff]; exact ⟨by omega, there⟩) (by omega)
    rw [complete]
    rfl
  · intro handout there
    rw [settled handout there]
    rfl

theorem retired (invariant : run.Invariant) :
    RingRun.Invariant { run with ring := run.ring.retire run.inFlight } := by
  by_cases few : run.handed.length < 2 ^ 32
  · exact (invariant.retire few).1
  · rw [invariant.retire_wrapped (Nat.le_of_not_lt few)]
    exact invariant

theorem handOut (invariant : run.Invariant)
    (room : run.ring.idNext - run.ring.idOldest ≠ run.ring.ringBuffSize) :
    (run.handOut { run.ring with idNext := run.ring.idNext + 1 }
      (run.ring.getAddr run.ring.idNext)).Invariant := by
  have next := invariant.idNext
  have low := invariant.oldest_le
  have high := invariant.window
  have count := invariant.count_toNat
  have different : run.handed.length - run.ring.idOldest.toNat ≠ run.ring.ringBuffSize.toNat := by
    rw [← count]
    exact fun same => room (UInt32.toNat_inj.mp same)
  let youngest : Handout := ⟨run.ring.getAddr run.ring.idNext, true⟩
  have length : (run.handed ++ [youngest]).length = run.handed.length + 1 := List.length_append
  have cases {i : Nat} {handout : Handout}
      (there : (run.handed ++ [youngest])[i]? = some handout) :
      run.handed[i]? = some handout ∨ i = run.handed.length ∧ handout = youngest := by
    rcases Nat.lt_trichotomy i run.handed.length with before | last | after
    · rw [List.getElem?_append_left before] at there
      exact .inl there
    · rw [last, List.getElem?_concat_length] at there
      exact .inr ⟨last, (Option.some.inj there).symm⟩
    · rw [List.getElem?_eq_none (by omega)] at there
      cases there
  constructor
  · change (run.ring.idNext + 1).toNat = (run.handed ++ [youngest]).length % 2 ^ 32
    rw [length, UInt32.toNat_add, UInt32.toNat_one, next]
    omega
  · change run.ring.idOldest.toNat ≤ (run.handed ++ [youngest]).length
    omega
  · change (run.handed ++ [youngest]).length ≤
      run.ring.idOldest.toNat + run.ring.ringBuffSize.toNat
    omega
  · intro i handout there before
    rcases cases there with older | ⟨last, -⟩
    · exact invariant.completed i handout older before
    · exact absurd (last ▸ before) (Nat.not_lt_of_le low)
  · intro i handout there small
    rcases cases there with older | ⟨last, rfl⟩
    · exact invariant.slots i handout older small
    · rw [last] at small ⊢
      exact invariant.getAddr_next small
  · intro few i handout there young
    change (run.handed ++ [youngest]).length < 2 ^ 32 at few
    change Function.update run.inFlight (run.ring.getAddr run.ring.idNext) true handout.slot =
      handout.inFlight
    have fewBefore : run.handed.length < 2 ^ 32 := by omega
    rcases cases there with older | ⟨-, rfl⟩
    · have apart := invariant.slot_ne_next fewBefore (by omega) older young
      rw [invariant.getAddr_next fewBefore, Function.update_of_ne apart]
      exact invariant.flags fewBefore i handout older young
    · exact Function.update_self ..

theorem call (invariant : run.Invariant) (ringCall : RingCall) :
    (run.call ringCall).Invariant := by
  have retired := invariant.retired
  cases ringCall with
  | inFlight => exact retired
  | next =>
    unfold RingRun.call RingBuffer.next RingBuffer.inFlight
    dsimp only
    split
    · rename_i slot ring returned
      split at returned
      · cases returned
      · rename_i room
        obtain ⟨same, rfl⟩ := Prod.mk.inj returned
        obtain rfl := Option.some.inj same
        exact retired.handOut room
    · rename_i ring returned
      split at returned
      · obtain ⟨-, rfl⟩ := Prod.mk.inj returned
        exact retired
      · cases returned

theorem complete (invariant : run.Invariant) (slot : Nat) : (run.complete slot).Invariant := by
  have length : (run.handed.map (Handout.completeAt slot)).length = run.handed.length :=
    List.length_map _
  have cases {i : Nat} {handout : Handout}
      (there : (run.handed.map (Handout.completeAt slot))[i]? = some handout) :
      ∃ before, run.handed[i]? = some before ∧ before.slot = handout.slot ∧
        handout.inFlight = if handout.slot = slot then false else before.inFlight := by
    rw [List.getElem?_map, Option.map_eq_some_iff] at there
    obtain ⟨before, was, rfl⟩ := there
    obtain ⟨sameSlot, flying⟩ := completeAt_cases slot before
    exact ⟨before, was, sameSlot.symm, by rw [flying, sameSlot]⟩
  constructor
  · simp only [RingRun.complete, length]
    exact invariant.idNext
  · simp only [RingRun.complete, length]
    exact invariant.oldest_le
  · simp only [RingRun.complete, length]
    exact invariant.window
  · intro i handout there old
    obtain ⟨before, was, -, flying⟩ := cases there
    rw [flying, invariant.completed i before was old, ite_self]
  · intro i handout there small
    obtain ⟨before, was, sameSlot, -⟩ := cases there
    rw [← sameSlot]
    exact invariant.slots i before was small
  · intro few i handout there young
    obtain ⟨before, was, sameSlot, flying⟩ := cases there
    simp only [RingRun.complete, length] at few young ⊢
    rw [flying]
    split
    · rename_i here
      rw [here, Function.update_self]
    · rename_i elsewhere
      rw [Function.update_of_ne elsewhere, ← sameSlot]
      exact invariant.flags few i before was young

end RingRun.Invariant

theorem RingReached.invariant {start : RingBuffer} (next : start.idNext = 0)
    (oldest : start.idOldest = 0) {run : RingRun} (reached : RingReached start run) :
    run.Invariant := by
  induction reached with
  | start inFlight => exact .start start inFlight next oldest
  | call ringCall _ ih => exact ih.call ringCall
  | complete slot _ ih => exact ih.complete slot

namespace RingRun.Invariant

variable {run : RingRun}

theorem keeps_inFlight_iff (invariant : run.Invariant) :
    run.Keeps .inFlight ↔ run.Meets .inFlight := by
  have count := invariant.retired.count_toNat
  have counted : run.Keeps .inFlight ↔
      run.handed.length - (run.ring.retire run.inFlight).idOldest.toNat =
        (run.handed.dropWhile fun handout => !handout.inFlight).length := by
    rw [← count]
    exact Iff.rfl
  rw [counted]
  by_cases few : run.handed.length < 2 ^ 32
  · obtain ⟨retired, settled⟩ := invariant.retire few
    exact iff_of_true (retired.length_dropWhile settled).symm (.inl few)
  · have many := Nat.le_of_not_lt few
    have oldest := run.ring.idOldest.toNat_lt
    have inside : run.ring.idOldest.toNat < run.handed.length := by omega
    obtain ⟨handout, there⟩ : ∃ handout, run.handed[run.ring.idOldest.toNat]? = some handout :=
      ⟨_, List.getElem?_eq_getElem inside⟩
    rw [invariant.retire_wrapped many]
    constructor
    · intro same
      refine .inr ⟨handout, there, ?_⟩
      by_contra complete
      have passed : ∀ x ∈ run.handed.take (run.ring.idOldest.toNat + 1),
          (!x.inFlight) = true := by
        intro x membership
        obtain ⟨i, bound, value⟩ := List.mem_take_iff_getElem.mp membership
        have isThere : run.handed[i]? = some x :=
          List.getElem?_eq_some_iff.mpr ⟨by omega, value⟩
        rcases Nat.lt_succ_iff_lt_or_eq.mp (by omega : i < run.ring.idOldest.toNat + 1) with
          before | last
        · rw [invariant.completed i x isThere before]
          rfl
        · rw [last, there] at isThere
          cases isThere
          rw [Bool.eq_false_iff.mpr complete]
          rfl
      have fewer := length_dropWhile_lt passed inside
      omega
    · rintro (few | ⟨other, isThere, flying⟩)
      · omega
      · refine (invariant.length_dropWhile ?_).symm
        intro handout there
        rw [there] at isThere
        cases isThere
        exact flying

theorem keeps_next_iff (run : RingRun) :
    run.Keeps .next ↔
      if (run.ring.retire run.inFlight).idNext - (run.ring.retire run.inFlight).idOldest =
          (run.ring.retire run.inFlight).ringBuffSize then
        ∃ handout ∈ run.handed, handout.inFlight = true
      else ∀ handout ∈ run.handed, handout.inFlight = true →
        handout.slot ≠
          (run.ring.retire run.inFlight).getAddr (run.ring.retire run.inFlight).idNext := by
  unfold RingRun.Keeps RingBuffer.next RingBuffer.inFlight
  dsimp only
  by_cases full : (run.ring.retire run.inFlight).idNext - (run.ring.retire run.inFlight).idOldest =
      (run.ring.retire run.inFlight).ringBuffSize
  · rw [if_pos full, if_pos full]
  · rw [if_neg full, if_neg full]

theorem keeps_next (invariant : run.Invariant) (settled : run.Settled)
    (few : run.handed.length < 2 ^ 32) :
    if run.ring.idNext - run.ring.idOldest = run.ring.ringBuffSize then
      ∃ handout ∈ run.handed, handout.inFlight = true
    else ∀ handout ∈ run.handed, handout.inFlight = true →
      handout.slot ≠ run.ring.getAddr run.ring.idNext := by
  have count := invariant.count_toNat
  have size := size_pos run
  split
  · rename_i full
    rw [full] at count
    have inside : run.ring.idOldest.toNat < run.handed.length := by omega
    exact ⟨_, List.getElem_mem inside, settled _ (List.getElem?_eq_getElem inside)⟩
  · rename_i room
    intro handout membership flying
    obtain ⟨i, there⟩ := List.mem_iff_getElem?.mp membership
    have young : run.ring.idOldest.toNat ≤ i := by
      by_contra old
      rw [invariant.completed i handout there (Nat.lt_of_not_le old)] at flying
      cases flying
    have high := invariant.window
    have different : run.handed.length - run.ring.idOldest.toNat ≠ run.ring.ringBuffSize.toNat := by
      rw [← count]
      exact fun same => room (UInt32.toNat_inj.mp same)
    rw [invariant.getAddr_next few]
    exact invariant.slot_ne_next few (by omega) there young

theorem keeps_iff (invariant : run.Invariant) (ringCall : RingCall) :
    run.Keeps ringCall ↔ run.Meets ringCall := by
  cases ringCall with
  | inFlight => exact invariant.keeps_inFlight_iff
  | next =>
    rw [keeps_next_iff]
    by_cases few : run.handed.length < 2 ^ 32
    · obtain ⟨retired, settled⟩ := invariant.retire few
      exact iff_of_true (retired.keeps_next settled few) (.inl few)
    · rw [invariant.retire_wrapped (Nat.le_of_not_lt few)]
      exact ⟨.inr, fun met => met.resolve_left few⟩

end RingRun.Invariant

/-- In every run of every ring, a call keeps its promise if and only if it meets the condition. -/
theorem ring_keeps_iff (ringBuffSize : UInt32) (ring : RingBuffer)
    (made : RingBuffer.make ringBuffSize = some ring) (run : RingRun)
    (reached : RingReached ring run) (ringCall : RingCall) :
    run.Keeps ringCall ↔ run.Meets ringCall := by
  unfold RingBuffer.make at made
  split at made
  · cases made
    exact (reached.invariant rfl rfl).keeps_iff ringCall
  · cases made

def fourSlots : RingBuffer := ⟨4, by decide, 0, 0⟩

/-- Two slots have been handed out, and the second has completed before the first. -/
theorem ring_keeps_iff_four :
    let first := RingRun.call ⟨fourSlots, fun _ => false, []⟩ .next
    let second := (first.call .next).complete 1
    second.Keeps .next ↔ second.Meets .next :=
  ring_keeps_iff 4 fourSlots rfl _ (.complete 1 (.call .next (.call .next (.start _)))) .next

theorem exists_rounds {count : Nat} (ring : RingBuffer) (next : ring.idNext = 0)
    (oldest : ring.idOldest = 0) (few : count ≤ 2 ^ 32) :
    ∃ run, RingReached ring run ∧ run.handed.length = count ∧
      ∀ handout ∈ run.handed, handout.inFlight = false := by
  induction count with
  | zero => exact ⟨_, .start fun _ => false, rfl, by simp⟩
  | succ count ih =>
    obtain ⟨run, reached, length, complete⟩ := ih (Nat.le_of_succ_le few)
    have invariant := reached.invariant next oldest
    have keeps : run.Keeps .next := (invariant.keeps_iff .next).mpr (.inl (by omega))
    cases returned : run.ring.next run.inFlight with
    | mk address after =>
      cases address with
      | none =>
        unfold RingRun.Keeps at keeps
        rw [returned] at keeps
        obtain ⟨handout, membership, flying⟩ := keeps
        rw [complete handout membership] at flying
        cases flying
      | some slot =>
        have called : run.call .next = run.handOut after slot := by
          unfold RingRun.call
          rw [returned]
        refine ⟨(run.call .next).complete slot, .complete slot (.call .next reached), ?_, ?_⟩
        · rw [called, RingRun.complete, RingRun.handOut]
          simp [length]
        · rw [called, RingRun.complete, RingRun.handOut]
          intro handout membership
          obtain ⟨before, was, rfl⟩ := List.mem_map.mp membership
          rw [(completeAt_cases slot before).2]
          rcases List.mem_append.mp was with older | last
          · rw [complete before older, ite_self]
          · rw [List.mem_singleton.mp last, if_pos rfl]

/-- A ring of one slot, which has completed each time, returns no slot after the `2 ^ 32`th. -/
theorem ring_stuck :
    ¬∀ (ringBuffSize : UInt32) (ring : RingBuffer), RingBuffer.make ringBuffSize = some ring →
      ∀ run, RingReached ring run → ∀ ringCall, run.Keeps ringCall := by
  intro keeps
  let ring : RingBuffer := ⟨1, by decide, 0, 0⟩
  obtain ⟨run, reached, length, complete⟩ := exists_rounds ring rfl rfl (le_refl (2 ^ 32))
  have invariant := reached.invariant rfl rfl
  have promised := keeps 1 ring rfl run reached .inFlight
  rcases (invariant.keeps_iff .inFlight).mp promised with few | ⟨handout, there, flying⟩
  · omega
  · rw [complete handout (List.mem_of_getElem? there)] at flying
    cases flying

end Tvm.Hexagon
