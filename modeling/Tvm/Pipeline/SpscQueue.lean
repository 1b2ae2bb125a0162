import Mathlib

/-!
# The queue between two runtimes

`SPSCLockFreeQueue` of `spsc_queue.h` with the `QueueData` of its slots.  A slot has no tensor until
one is pushed.  One slot stays unused, so that a full queue differs from an empty one.
-/

namespace Tvm.Pipeline

def queueLength : Nat := 1024

/-- The slot some slots behind another, around the end of the array. -/
def slotAfter (slot : Fin queueLength) (offset : Nat) : Fin queueLength :=
  ⟨(slot.val + offset) % queueLength, Nat.mod_lt _ (by decide)⟩

structure SPSCLockFreeQueue (α : Type) where
  head : Fin queueLength
  tail : Fin queueLength
  queue : Fin queueLength → Option α

namespace SPSCLockFreeQueue

variable {α : Type}

def new : SPSCLockFreeQueue α where
  head := ⟨0, by decide⟩
  tail := ⟨0, by decide⟩
  queue := fun _ => none

def full (q : SPSCLockFreeQueue α) : Bool :=
  slotAfter q.tail 1 = q.head

def empty (q : SPSCLockFreeQueue α) : Bool :=
  q.head = q.tail

/-- `Push`; `none` where it returns `false`. -/
def push (q : SPSCLockFreeQueue α) (data : α) : Option (SPSCLockFreeQueue α) :=
  if q.full then none
  else some { q with
    queue := Function.update q.queue q.tail (some data)
    tail := slotAfter q.tail 1 }

/-- `Poll`; `none` where it returns `false`, and no tensor where the slot has none. -/
def poll (q : SPSCLockFreeQueue α) : Option (Option α × SPSCLockFreeQueue α) :=
  if q.empty then none
  else some (q.queue q.head, { q with head := slotAfter q.head 1 })

/-- The tensors from the first to the last that was pushed. -/
structure Holds (q : SPSCLockFreeQueue α) (content : List α) : Prop where
  tail : q.tail = slotAfter q.head content.length
  room : content.length < queueLength
  slots : ∀ i v, content[i]? = some v → q.queue (slotAfter q.head i) = some v

variable {q : SPSCLockFreeQueue α} {content : List α}

theorem slotAfter_add (slot : Fin queueLength) (a b : Nat) :
    slotAfter (slotAfter slot a) b = slotAfter slot (a + b) := by
  apply Fin.ext
  simp only [slotAfter, queueLength]
  omega

theorem slotAfter_injective {slot : Fin queueLength} {a b : Nat} (first : a < queueLength)
    (second : b < queueLength) (same : slotAfter slot a = slotAfter slot b) : a = b := by
  have values := congrArg Fin.val same
  simp only [slotAfter, queueLength] at values first second
  omega

theorem slotAfter_zero (slot : Fin queueLength) : slotAfter slot 0 = slot := by
  apply Fin.ext
  exact Nat.mod_eq_of_lt slot.isLt

theorem queueLength_pos : 0 < queueLength := by
  decide

theorem holds_new : (new : SPSCLockFreeQueue α).Holds [] where
  tail := rfl
  room := queueLength_pos
  slots := by simp

theorem Holds.empty_iff (holds : q.Holds content) : q.empty = true ↔ content = [] := by
  rw [empty, decide_eq_true_iff, holds.tail]
  constructor
  · intro same
    have length := slotAfter_injective holds.room queueLength_pos
      (same.symm.trans (slotAfter_zero q.head).symm)
    exact List.length_eq_zero_iff.mp length
  · rintro rfl
    exact (slotAfter_zero q.head).symm

theorem Holds.full_iff (holds : q.Holds content) :
    q.full = true ↔ content.length + 1 = queueLength := by
  have room := holds.room
  rw [full, decide_eq_true_iff, holds.tail, slotAfter_add]
  constructor
  · intro same
    by_contra other
    have impossible := slotAfter_injective (by omega) queueLength_pos
      (same.trans (slotAfter_zero q.head).symm)
    omega
  · intro length
    rw [length]
    apply Fin.ext
    have inside := q.head.isLt
    simp only [slotAfter, queueLength] at inside ⊢
    omega

theorem Holds.push (holds : q.Holds content) (room : q.full = false) (data : α) :
    ∃ next, q.push data = some next ∧ next.Holds (content ++ [data]) := by
  have notFull : content.length + 1 < queueLength := by
    refine lt_of_le_of_ne holds.room fun length => ?_
    rw [holds.full_iff.mpr length] at room
    cases room
  refine ⟨_, by rw [SPSCLockFreeQueue.push, room]; exact if_neg Bool.false_ne_true, ?_, ?_, ?_⟩
  · rw [List.length_append, holds.tail, slotAfter_add]
    rfl
  · rw [List.length_append]
    exact notFull
  · intro i v found
    change Function.update q.queue q.tail (some data) (slotAfter q.head i) = some v
    rcases Nat.lt_trichotomy i content.length with before | last | after
    · rw [List.getElem?_append_left before] at found
      rw [Function.update_of_ne]
      · exact holds.slots i v found
      · intro same
        rw [holds.tail] at same
        exact before.ne (slotAfter_injective (before.trans holds.room) holds.room same)
    · subst last
      rw [List.getElem?_append_right le_rfl, Nat.sub_self] at found
      cases found
      rw [holds.tail, Function.update_self]
    · rw [List.getElem?_eq_none (by rw [List.length_append]; exact after)] at found
      cases found

theorem Holds.poll {data : α} {rest : List α} (holds : q.Holds (data :: rest)) :
    ∃ next, q.poll = some (some data, next) ∧ next.Holds rest := by
  have some_held : q.empty = false := by
    rw [← Bool.not_eq_true, holds.empty_iff]
    exact List.cons_ne_nil data rest
  have first := holds.slots 0 data rfl
  rw [slotAfter_zero] at first
  refine ⟨_, by rw [SPSCLockFreeQueue.poll, some_held, first]; exact if_neg Bool.false_ne_true,
    ?_, ?_, ?_⟩
  · rw [holds.tail, slotAfter_add, List.length_cons, Nat.add_comm]
  · exact (Nat.lt_succ_self _).trans holds.room
  · intro i v found
    change q.queue (slotAfter (slotAfter q.head 1) i) = some v
    rw [slotAfter_add, Nat.add_comm]
    exact holds.slots (i + 1) v found

theorem Holds.poll_nil (holds : q.Holds []) : q.poll = none := by
  rw [SPSCLockFreeQueue.poll, holds.empty_iff.mpr rfl]
  exact if_pos rfl

end SPSCLockFreeQueue

end Tvm.Pipeline
