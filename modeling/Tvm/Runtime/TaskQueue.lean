import Mathlib

/-!
# The task queue of a worker

`SpscTaskQueue` of `thread_pool.cc`: `Push` and `Pop` as atomic steps of one producer and one
consumer in any order, without an exit signal.
-/

namespace Tvm.Runtime

def kRingSize : Nat := 2

def ringNext (index : Fin kRingSize) : Fin kRingSize :=
  ⟨(index.val + 1) % kRingSize, Nat.mod_lt _ (by decide)⟩

/-- `SpscTaskQueue::Task`: the address of a launcher and the number of a task. -/
structure QueueTask where
  launcher : Nat
  taskId : Int
  deriving DecidableEq

/-- A slot of the buffer, and whether what was stored last has not been read yet. -/
structure QueueSlot where
  task : Option QueueTask
  unread : Bool
  deriving DecidableEq

inductive ProducerState where
  | outside
  | loadTail (input : QueueTask)
  | loadHead (input : QueueTask) (tail : Fin kRingSize)
  | storeBuffer (input : QueueTask) (tail : Fin kRingSize)
  | storeTail (tail : Fin kRingSize)
  | fetchAdd
  | lock
  | notify
  deriving DecidableEq

inductive ConsumerState where
  | outside
  | spin (left : Nat)
  | fetchSub
  | lock
  | loadPending
  | waiting
  | loadHead
  | loadTail (head : Fin kRingSize)
  | readBuffer (head : Fin kRingSize)
  | storeHead (head : Fin kRingSize) (output : Option QueueTask)
  | checkFailed
  deriving DecidableEq

/-- The queue and its two threads, with what was given to `Push` and what `Pop` has returned. -/
structure SpscTaskQueue where
  buffer : Fin kRingSize → QueueSlot
  head : Fin kRingSize
  tail : Fin kRingSize
  pending : Int
  mutexHeld : Bool
  producer : ProducerState
  consumer : ConsumerState
  pushed : List QueueTask
  popped : List (Option QueueTask)

/-- A call, a step of a thread, or a wake-up of the condition variable without a cause. -/
inductive QueueAction where
  | push (input : QueueTask)
  | pop (spinCount : Nat)
  | producer
  | consumer
  | wake

/-- The value that an `int8_t` has after an addition. -/
def int8 (value : Int) : Int :=
  value.bmod 256

namespace SpscTaskQueue

def new : SpscTaskQueue where
  buffer _ := ⟨none, false⟩
  head := ⟨0, by decide⟩
  tail := ⟨0, by decide⟩
  pending := 0
  mutexHeld := false
  producer := .outside
  consumer := .outside
  pushed := []
  popped := []

def stepProducer (q : SpscTaskQueue) : Option SpscTaskQueue :=
  match q.producer with
  | .outside => none
  | .loadTail input => some { q with producer := .loadHead input q.tail }
  | .loadHead input tail =>
    if ringNext tail ≠ q.head then some { q with producer := .storeBuffer input tail }
    else some { q with producer := .loadTail input }
  | .storeBuffer input tail => some { q with
      buffer := Function.update q.buffer tail ⟨some input, true⟩, producer := .storeTail tail }
  | .storeTail tail => some { q with tail := ringNext tail, producer := .fetchAdd }
  | .fetchAdd => some { q with
      pending := int8 (q.pending + 1), producer := if q.pending = -1 then .lock else .outside }
  | .lock => if q.mutexHeld then none else some { q with mutexHeld := true, producer := .notify }
  | .notify => some { q with
      mutexHeld := false
      producer := .outside
      consumer := if q.consumer = .waiting then .lock else q.consumer }

/-- A step of `Pop`.  To wait gives the mutex back. -/
def stepConsumer (q : SpscTaskQueue) : Option SpscTaskQueue :=
  match q.consumer with
  | .outside | .waiting | .checkFailed => none
  | .spin 0 => some { q with consumer := .fetchSub }
  | .spin (left + 1) => some { q with consumer := if q.pending = 0 then .spin left else .fetchSub }
  | .fetchSub => some { q with
      pending := int8 (q.pending - 1), consumer := if q.pending = 0 then .lock else .loadHead }
  | .lock => if q.mutexHeld then none else some { q with mutexHeld := true, consumer := .loadPending }
  | .loadPending => some { q with
      mutexHeld := false, consumer := if q.pending ≥ 0 then .loadHead else .waiting }
  | .loadHead => some { q with consumer := .loadTail q.head }
  | .loadTail head => some { q with
      consumer := if q.tail ≠ head then .readBuffer head else .checkFailed }
  | .readBuffer head => some { q with
      buffer := Function.update q.buffer head { q.buffer head with unread := false }
      consumer := .storeHead head (q.buffer head).task }
  | .storeHead head output => some { q with
      head := ringNext head, consumer := .outside, popped := q.popped ++ [output] }

def step (q : SpscTaskQueue) : QueueAction → Option SpscTaskQueue
  | .push input =>
    if q.producer = .outside then
      some { q with producer := .loadTail input, pushed := q.pushed ++ [input] }
    else none
  | .pop spinCount =>
    if q.consumer = .outside then some { q with consumer := .spin spinCount } else none
  | .producer => q.stepProducer
  | .consumer => q.stepConsumer
  | .wake => if q.consumer = .waiting then some { q with consumer := .lock } else none

def run (q : SpscTaskQueue) : List QueueAction → Option SpscTaskQueue
  | [] => some q
  | action :: rest => (q.step action).bind fun q => q.run rest

end SpscTaskQueue

namespace ProducerState

/-- Before the new tail is stored. -/
def unpublished : ProducerState → Nat
  | .loadTail _ | .loadHead _ _ | .storeBuffer _ _ | .storeTail _ => 1
  | _ => 0

/-- Before the task is counted. -/
def uncounted : ProducerState → Nat
  | .fetchAdd => 1
  | state => state.unpublished

/-- After the task is stored, and before the tail is. -/
def written : ProducerState → Nat
  | .storeTail _ => 1
  | _ => 0

/-- After the count has shown that the consumer waits or is going to. -/
def wakes : ProducerState → Bool
  | .lock | .notify => true
  | _ => false

def holds : ProducerState → Bool
  | .notify => true
  | _ => false

theorem unpublished_le_uncounted (state : ProducerState) : state.unpublished ≤ state.uncounted := by
  cases state with
  | fetchAdd => exact Nat.zero_le 1
  | _ => exact le_rfl

end ProducerState

namespace ConsumerState

/-- Between the count and the new head. -/
def begun : ConsumerState → Nat
  | .outside | .spin _ | .fetchSub => 0
  | _ => 1

/-- After the count or the wait has shown a task. -/
def assured : ConsumerState → Nat
  | .loadHead | .loadTail _ | .readBuffer _ | .storeHead _ _ | .checkFailed => 1
  | _ => 0

/-- After the task is read, and before the head is stored. -/
def read : ConsumerState → Nat
  | .storeHead _ _ => 1
  | _ => 0

def holds : ConsumerState → Bool
  | .loadPending => true
  | _ => false

def waits : ConsumerState → Bool
  | .waiting => true
  | _ => false

theorem begun_le_one (state : ConsumerState) : state.begun ≤ 1 := by
  cases state with
  | outside | spin _ | fetchSub => exact Nat.zero_le 1
  | _ => exact le_rfl

theorem read_le_assured (state : ConsumerState) : state.read ≤ state.assured := by
  cases state with
  | storeHead _ _ => exact le_rfl
  | _ => exact Nat.zero_le _

theorem eq_waiting {state : ConsumerState} (waits : state.waits = true) : state = .waiting := by
  cases state with
  | waiting => rfl
  | _ => cases waits

end ConsumerState

def ringPlace (n : Nat) : Fin kRingSize :=
  ⟨n % kRingSize, Nat.mod_lt _ (by decide)⟩

theorem ringNext_ringPlace (n : Nat) : ringNext (ringPlace n) = ringPlace (n + 1) := by
  apply Fin.ext
  exact Nat.mod_add_mod n kRingSize 1

theorem ringPlace_injective {a b : Nat} (order : a ≤ b) (close : b < a + kRingSize)
    (same : ringPlace a = ringPlace b) : a = b := by
  have values := congrArg Fin.val same
  simp only [ringPlace, kRingSize] at values close
  omega

theorem ringPlace_around {a b : Nat} (around : b = a + kRingSize) : ringPlace a = ringPlace b := by
  subst around
  apply Fin.ext
  exact (Nat.add_mod_right a kRingSize).symm

theorem int8_of_small {value : Int} (above : -128 ≤ value) (below : value < 128) :
    int8 value = value := by
  rw [int8]
  exact Int.bmod_eq_of_le (by omega) (by omega)

namespace SpscTaskQueue

def completedPushes (q : SpscTaskQueue) : Nat :=
  q.pushed.length - q.producer.uncounted

def startedPops (q : SpscTaskQueue) : Nat :=
  q.popped.length + q.consumer.begun

/-- What the producer knows while some tasks are published and some have been popped. -/
def ProducerKnows (q : SpscTaskQueue) (published : Nat) : Prop :=
  match q.producer with
  | .loadTail input => q.pushed[published]? = some input
  | .loadHead input tail => q.pushed[published]? = some input ∧ tail = ringPlace published
  | .storeBuffer input tail => q.pushed[published]? = some input ∧ tail = ringPlace published ∧
      published + 1 < q.popped.length + kRingSize
  | .storeTail tail => tail = ringPlace published ∧ published + 1 < q.popped.length + kRingSize
  | _ => True

def ConsumerKnows (q : SpscTaskQueue) : Prop :=
  match q.consumer with
  | .loadTail head | .readBuffer head => head = ringPlace q.popped.length
  | .storeHead head output => head = ringPlace q.popped.length ∧ output = q.pushed[q.popped.length]?
  | .checkFailed => False
  | _ => True

/-- What holds at every step, with the number of tasks whose tail is stored. -/
structure Good (q : SpscTaskQueue) (published : Nat) : Prop where
  pushed : q.pushed.length = published + q.producer.unpublished
  tail : q.tail = ringPlace published
  head : q.head = ringPlace q.popped.length
  room : published < q.popped.length + kRingSize
  pending : q.pending + q.popped.length + q.consumer.begun + q.producer.uncounted = q.pushed.length
  assured : q.popped.length + q.consumer.assured + q.producer.uncounted ≤ q.pushed.length
  popped : ∀ n output, q.popped[n]? = some output → output = q.pushed[n]? ∧ n < q.pushed.length
  slots : ∀ n, q.popped.length + q.consumer.read ≤ n → n < published + q.producer.written →
    q.buffer (ringPlace n) = ⟨q.pushed[n]?, true⟩
  free : ∀ slot, (∀ n, q.popped.length + q.consumer.read ≤ n → n < published + q.producer.written →
    ringPlace n ≠ slot) → (q.buffer slot).unread = false
  producer : q.ProducerKnows published
  consumer : q.ConsumerKnows
  mutex : q.mutexHeld = (q.producer.holds || q.consumer.holds)
  exclusive : q.producer.holds = true → q.consumer.holds = false
  awake : q.consumer.waits = true → q.pending < 0 ∨ q.producer.wakes = true

section Lemmas

variable {q next : SpscTaskQueue} {published : Nat}

theorem good_new : new.Good 0 where
  pushed := rfl
  tail := rfl
  head := rfl
  room := by decide
  pending := rfl
  assured := le_rfl
  popped n output found := by cases found
  slots n _ below := absurd below (Nat.not_lt_zero n)
  free _ _ := rfl
  producer := trivial
  consumer := trivial
  mutex := rfl
  exclusive other := by cases other
  awake other := by cases other

theorem Good.pending_bounds (good : q.Good published) : -1 ≤ q.pending ∧ q.pending < kRingSize := by
  have counted := q.producer.unpublished_le_uncounted
  have begun := q.consumer.begun_le_one
  have pushed := good.pushed
  have room := good.room
  have pending := good.pending
  have assured := good.assured
  omega

theorem Good.read_le (good : q.Good published) : q.popped.length + q.consumer.read ≤ published := by
  have read := q.consumer.read_le_assured
  have counted := q.producer.unpublished_le_uncounted
  have pushed := good.pushed
  have assured := good.assured
  omega

theorem Good.ringPlace_ne (good : q.Good published) {n : Nat}
    (above : q.popped.length + q.consumer.read ≤ n) (before : n < published) : ringPlace n ≠ ringPlace published := by
  intro same
  have room := good.room
  exact before.ne (ringPlace_injective before.le (by omega) same)

theorem Good.written_lt (good : q.Good published) :
    published + q.producer.written < q.popped.length + kRingSize := by
  have knows := good.producer
  rw [ProducerKnows] at knows
  generalize q.producer = producer at knows
  cases producer with
  | storeTail tail => exact knows.2
  | _ => exact good.room

theorem Good.popped_lt (good : q.Good published) (assured : q.consumer.assured = 1) :
    q.popped.length < published := by
  have counted := q.producer.unpublished_le_uncounted
  have pushed := good.pushed
  have enough := good.assured
  omega

/-- What the producer does, as seen from the invariant. -/
theorem Good.stepProducer (good : q.Good published) (step : q.stepProducer = some next) :
    ∃ published, next.Good published := by
  have bounds := good.pending_bounds
  have read_le := good.read_le
  have alone := @good.ringPlace_ne
  obtain ⟨buffer, head, tail, pending, mutexHeld, producer, consumer, pushed, popped⟩ := q
  cases producer with
  | outside => cases step
  | loadTail input =>
    cases step
    exact ⟨published, { good with producer := ⟨good.producer, good.tail⟩ }⟩
  | loadHead input tail =>
    obtain ⟨isInput, isTail⟩ := good.producer
    rw [SpscTaskQueue.stepProducer] at step
    dsimp only at step
    split at step
    · rename_i room
      cases step
      refine ⟨published, { good with producer := ⟨isInput, isTail, ?_⟩ }⟩
      -- the tail would be the head if the ring were full
      refine lt_of_le_of_ne good.room fun full => room ?_
      rw [isTail, ringNext_ringPlace]
      exact (ringPlace_around full).symm.trans good.head.symm
    · cases step
      exact ⟨published, { good with producer := isInput }⟩
  | storeBuffer input tail =>
    obtain ⟨isInput, rfl, room⟩ := good.producer
    cases step
    refine ⟨published, { good with producer := ⟨rfl, room⟩, slots := ?_, free := ?_ }⟩
    · intro n above below
      rcases (Nat.lt_succ_iff.mp below).lt_or_eq with before | rfl
      · rw [← good.slots n above before]
        exact Function.update_of_ne (alone above before) _ _
      · rw [isInput]
        exact Function.update_self _ _ _
    · intro slot others
      have other : slot ≠ ringPlace published := fun same =>
        others published read_le (Nat.lt_succ_self published) same.symm
      rw [← good.free slot fun n above below => others n above (below.trans (Nat.lt_succ_self _))]
      exact congrArg QueueSlot.unread (Function.update_of_ne other _ _)
  | storeTail tail =>
    obtain ⟨rfl, room⟩ := good.producer
    cases step
    exact ⟨published + 1, { good with
      pushed := good.pushed, tail := ringNext_ringPlace published, room := room, producer := trivial }⟩
  | fetchAdd =>
    cases step
    change -1 ≤ pending ∧ pending < 2 at bounds
    have isNext : int8 (pending + 1) = pending + 1 := int8_of_small (by omega) (by omega)
    have counted : pending + popped.length + consumer.begun + (1 : Nat) = pushed.length := good.pending
    have assured : popped.length + consumer.assured + 1 ≤ pushed.length := good.assured
    have assured' : popped.length + consumer.assured ≤ pushed.length := by omega
    have counted' :
        int8 (pending + 1) + popped.length + consumer.begun + (0 : Nat) = pushed.length := by
      omega
    refine ⟨published, ?_⟩
    dsimp only
    split
    · exact { good with
        pending := counted', assured := assured', producer := trivial, awake := fun _ => .inr rfl }
    · rename_i awake
      refine { good with pending := counted', assured := assured', producer := trivial, awake := ?_ }
      intro waits
      rcases good.awake waits with asleep | wakes
      · change pending < 0 at asleep
        exact absurd (by omega) awake
      · cases wakes
  | lock =>
    cases mutexHeld with
    | true => cases step
    | false =>
      cases step
      have idle : consumer.holds = false := good.mutex.symm
      exact ⟨published, { good with
        mutex := rfl, exclusive := fun _ => idle, producer := trivial, awake := fun _ => .inr rfl }⟩
  | notify =>
    cases step
    refine ⟨published, ?_⟩
    dsimp only
    split
    · rename_i waiting
      subst waiting
      exact { good with
        mutex := rfl
        exclusive := fun other => by cases other
        producer := trivial
        consumer := trivial
        awake := fun other => by cases other }
    · rename_i awake
      exact { good with
        mutex := (good.exclusive rfl).symm
        exclusive := fun other => by cases other
        producer := trivial
        awake := fun waits => absurd (ConsumerState.eq_waiting waits) awake }

theorem Good.stepConsumer (good : q.Good published) (step : q.stepConsumer = some next) :
    next.Good published := by
  have bounds := good.pending_bounds
  obtain ⟨buffer, head, tail, pending, mutexHeld, producer, consumer, pushed, popped⟩ := q
  cases consumer with
  | outside | waiting | checkFailed => cases step
  | spin left =>
    cases left with
    | zero =>
      cases step
      exact { good with consumer := trivial }
    | succ left =>
      cases step
      dsimp only
      split
      · exact { good with consumer := trivial }
      · exact { good with consumer := trivial }
  | fetchSub =>
    cases step
    change -1 ≤ pending ∧ pending < 2 at bounds
    have isNext : int8 (pending - 1) = pending - 1 := int8_of_small (by omega) (by omega)
    have counted : pending + popped.length + (0 : Nat) + producer.uncounted = pushed.length :=
      good.pending
    have enough : popped.length + 0 + producer.uncounted ≤ pushed.length := good.assured
    have counted' : int8 (pending - 1) + popped.length + (1 : Nat) + producer.uncounted =
        pushed.length := by
      omega
    dsimp only
    split
    · exact { good with pending := counted', consumer := trivial, awake := fun other => by cases other }
    · rename_i some_task
      have assured : popped.length + 1 + producer.uncounted ≤ pushed.length := by omega
      exact { good with
        pending := counted', assured := assured, consumer := trivial
        awake := fun other => by cases other }
  | lock =>
    cases mutexHeld with
    | true => cases step
    | false =>
      cases step
      have idle : (producer.holds || false) = false := good.mutex.symm
      rw [Bool.or_false] at idle
      exact { good with
        mutex := (Bool.or_true producer.holds).symm
        exclusive := fun held => by rw [idle] at held; cases held
        consumer := trivial }
  | loadPending =>
    cases step
    have idle : producer.holds = false := by
      cases held : producer.holds with
      | false => rfl
      | true => cases good.exclusive held
    have mutex : false = (producer.holds || false) := by
      rw [idle]
      rfl
    dsimp only
    split
    · rename_i some_task
      have counted : pending + popped.length + (1 : Nat) + producer.uncounted = pushed.length :=
        good.pending
      have assured : popped.length + 1 + producer.uncounted ≤ pushed.length := by omega
      exact { good with
        assured := assured, consumer := trivial, mutex := mutex, exclusive := fun _ => rfl }
    · rename_i none_left
      exact { good with
        consumer := trivial, mutex := mutex, exclusive := fun _ => rfl
        awake := fun _ => .inl (not_le.mp none_left) }
  | loadHead =>
    cases step
    exact { good with consumer := good.head }
  | loadTail head =>
    cases step
    -- some task is published, and fewer than the ring has slots
    have some_task : tail ≠ head := by
      intro same
      have isHead : head = ringPlace popped.length := good.consumer
      have before : popped.length < published := good.popped_lt rfl
      exact before.ne (ringPlace_injective before.le good.room
        (isHead.symm.trans (same.symm.trans good.tail)))
    dsimp only
    rw [if_pos some_task]
    exact { good with consumer := good.consumer }
  | readBuffer head =>
    obtain rfl : head = ringPlace popped.length := good.consumer
    cases step
    have before : popped.length < published + producer.written :=
      (good.popped_lt rfl).trans_le (Nat.le_add_right _ _)
    have written_lt : published + producer.written < popped.length + kRingSize := good.written_lt
    have isTask : buffer (ringPlace popped.length) = ⟨pushed[popped.length]?, true⟩ :=
      good.slots popped.length le_rfl before
    refine { good with consumer := ⟨rfl, congrArg QueueSlot.task isTask⟩, slots := ?_, free := ?_ }
    · intro n above below
      have above : popped.length < n := above
      have other : ringPlace n ≠ ringPlace popped.length := fun same =>
        above.ne (ringPlace_injective above.le (below.trans written_lt) same.symm)
      exact (Function.update_of_ne other _ _).trans (good.slots n above.le below)
    · intro slot others
      by_cases isHead : slot = ringPlace popped.length
      · subst isHead
        change (Function.update buffer (ringPlace popped.length) _
          (ringPlace popped.length)).unread = false
        rw [Function.update_self]
      · have unread := good.free slot fun n above below => by
          rcases above.eq_or_lt with rfl | above
          · exact fun same => isHead same.symm
          · exact others n above below
        exact (congrArg QueueSlot.unread (Function.update_of_ne isHead _ _)).trans unread
  | storeHead head output =>
    have knows : head = ringPlace popped.length ∧ output = pushed[popped.length]? := good.consumer
    obtain ⟨rfl, rfl⟩ := knows
    cases step
    have length : (popped ++ [pushed[popped.length]?]).length = popped.length + 1 := List.length_append
    have before : popped.length < published := good.popped_lt rfl
    have isPushed : pushed.length = published + producer.unpublished := good.pushed
    have room : published < popped.length + kRingSize := good.room
    have counted : pending + popped.length + (1 : Nat) + producer.uncounted = pushed.length :=
      good.pending
    have enough : popped.length + 1 + producer.uncounted ≤ pushed.length := good.assured
    refine { good with
      head := ?_
      room := ?_
      pending := ?_
      assured := ?_
      popped := ?_
      slots := ?_
      free := ?_
      producer := ?_
      consumer := trivial
      awake := fun other => by cases other }
    · change ringNext (ringPlace popped.length) = ringPlace (popped ++ [pushed[popped.length]?]).length
      rw [length, ringNext_ringPlace]
    · change published < (popped ++ [pushed[popped.length]?]).length + kRingSize
      omega
    · change pending + (popped ++ [pushed[popped.length]?]).length + (0 : Nat) + producer.uncounted =
        pushed.length
      rw [length]
      omega
    · change (popped ++ [pushed[popped.length]?]).length + 0 + producer.uncounted ≤ pushed.length
      omega
    · intro n output found
      rcases Nat.lt_trichotomy n popped.length with old | last | beyond
      · rw [List.getElem?_append_left old] at found
        exact good.popped n output found
      · subst last
        rw [List.getElem?_concat_length] at found
        cases found
        exact ⟨rfl, before.trans_le (isPushed ▸ Nat.le_add_right published _)⟩
      · have none_there : (popped ++ [pushed[popped.length]?])[n]? = none :=
          List.getElem?_eq_none (by omega)
        cases none_there.symm.trans found
    · intro n above
      exact good.slots n (length.symm.trans_le above)
    · intro slot others
      exact good.free slot fun n above => others n (length.trans_le above)
    · have room_after : published + 1 < popped.length + kRingSize →
          published + 1 < (popped ++ [pushed[popped.length]?]).length + kRingSize := by omega
      have knows := good.producer
      rw [ProducerKnows] at knows ⊢
      dsimp only at knows ⊢
      cases producer with
      | storeBuffer input tail => exact ⟨knows.1, knows.2.1, room_after knows.2.2⟩
      | storeTail tail => exact ⟨knows.1, room_after knows.2⟩
      | _ => exact knows

theorem Good.push (good : q.Good published) (outside : q.producer = .outside) (input : QueueTask) :
    Good { q with producer := .loadTail input, pushed := q.pushed ++ [input] } published := by
  have popped_lt := good.popped_lt
  obtain ⟨buffer, head, tail, pending, mutexHeld, producer, consumer, pushed, popped⟩ := q
  obtain rfl : producer = .outside := outside
  have isPublished : pushed.length = published := good.pushed
  have length : (pushed ++ [input]).length = pushed.length + 1 := List.length_append
  have earlier : ∀ n < pushed.length, (pushed ++ [input])[n]? = pushed[n]? := fun n below =>
    List.getElem?_append_left below
  have counted : pending + popped.length + consumer.begun + (0 : Nat) = pushed.length := good.pending
  have enough : popped.length + consumer.assured + 0 ≤ pushed.length := good.assured
  refine { good with
    pushed := ?_
    pending := ?_
    assured := ?_
    popped := ?_
    slots := ?_
    producer := ?_
    consumer := ?_ }
  · change (pushed ++ [input]).length = published + 1
    rw [length, isPublished]
  · change pending + popped.length + consumer.begun + (1 : Nat) = ((pushed ++ [input]).length : Nat)
    rw [length]
    omega
  · change popped.length + consumer.assured + 1 ≤ (pushed ++ [input]).length
    omega
  · intro n output found
    obtain ⟨isOutput, below⟩ := good.popped n output found
    exact ⟨isOutput.trans (earlier n below).symm, below.trans_le (by rw [length]; exact Nat.le_succ _)⟩
  · intro n above below
    have slot : buffer (ringPlace n) = ⟨pushed[n]?, true⟩ := good.slots n above below
    change buffer (ringPlace n) = ⟨(pushed ++ [input])[n]?, true⟩
    rw [earlier n (isPublished.symm ▸ below)]
    exact slot
  · change (pushed ++ [input])[published]? = some input
    rw [← isPublished]
    exact List.getElem?_concat_length
  · have knows := good.consumer
    rw [ConsumerKnows] at knows ⊢
    dsimp only at knows ⊢
    cases consumer with
    | storeHead head output =>
      have before : popped.length < published := popped_lt rfl
      exact ⟨knows.1, knows.2.trans (earlier _ (isPublished.symm ▸ before)).symm⟩
    | _ => exact knows

/-- Every step keeps the invariant. -/
theorem Good.step {action : QueueAction} (good : q.Good published) (step : q.step action = some next) :
    ∃ published, next.Good published := by
  cases action with
  | producer => exact good.stepProducer step
  | consumer => exact ⟨published, good.stepConsumer step⟩
  | push input =>
    rw [SpscTaskQueue.step] at step
    split at step
    · rename_i outside
      cases step
      exact ⟨published, good.push outside input⟩
    · cases step
  | pop spinCount =>
    rw [SpscTaskQueue.step] at step
    split at step
    · rename_i outside
      cases step
      obtain ⟨buffer, head, tail, pending, mutexHeld, producer, consumer, pushed, popped⟩ := q
      obtain rfl : consumer = .outside := outside
      exact ⟨published, { good with consumer := trivial }⟩
    · cases step
  | wake =>
    rw [SpscTaskQueue.step] at step
    split at step
    · rename_i waiting
      cases step
      obtain ⟨buffer, head, tail, pending, mutexHeld, producer, consumer, pushed, popped⟩ := q
      obtain rfl : consumer = .waiting := waiting
      exact ⟨published, { good with consumer := trivial, awake := fun other => by cases other }⟩
    · cases step

theorem Good.run {actions : List QueueAction} (good : q.Good published)
    (run : q.run actions = some next) : ∃ published, next.Good published := by
  induction actions generalizing q published with
  | nil =>
    cases run
    exact ⟨published, good⟩
  | cons action rest ih =>
    obtain ⟨middle, step, run⟩ := Option.bind_eq_some_iff.mp run
    obtain ⟨published, good⟩ := good.step step
    exact ih good run

theorem Good.consumer_ne_checkFailed (good : q.Good published) : q.consumer ≠ .checkFailed := by
  intro failed
  have knows := good.consumer
  rw [ConsumerKnows, failed] at knows
  exact knows

theorem Good.pending_eq (good : q.Good published) :
    q.pending = (q.completedPushes : Int) - q.startedPops := by
  have counted := good.pending
  have enough := good.assured
  rw [completedPushes, startedPops]
  omega

theorem Good.storeBuffer_read (good : q.Good published) {input : QueueTask} {tail : Fin kRingSize}
    (stores : q.producer = .storeBuffer input tail) : (q.buffer tail).unread = false := by
  have knows := good.producer
  rw [ProducerKnows, stores] at knows
  obtain ⟨-, rfl, -⟩ := knows
  apply good.free
  intro n above below
  rw [stores] at below
  exact good.ringPlace_ne above below

end Lemmas

end SpscTaskQueue

open SpscTaskQueue

/-- In every state of every run of the two threads. -/
theorem taskQueue_handsOver {actions : List QueueAction} {q : SpscTaskQueue}
    (run : SpscTaskQueue.new.run actions = some q) :
    q.consumer ≠ .checkFailed ∧
    (q.pending = (q.completedPushes : Int) - q.startedPops ∧ -1 ≤ q.pending ∧ q.pending ≤ kRingSize) ∧
    (∀ input tail, q.producer = .storeBuffer input tail → (q.buffer tail).unread = false) ∧
    ∀ (n : Nat) (output), q.popped[n]? = some output →
      ∃ task, output = some task ∧ q.pushed[n]? = some task := by
  obtain ⟨published, good⟩ := good_new.run run
  obtain ⟨above, below⟩ := good.pending_bounds
  refine ⟨good.consumer_ne_checkFailed, ⟨good.pending_eq, above, below.le⟩, ?_, ?_⟩
  · intro input tail stores
    exact good.storeBuffer_read stores
  · intro n output found
    obtain ⟨rfl, inside⟩ := good.popped n output found
    exact ⟨q.pushed[n], List.getElem?_eq_getElem inside, List.getElem?_eq_getElem inside⟩

/-- A consumer that sleeps before two tasks are pushed, of which it takes the first. -/
def sleepingRun (first second : QueueTask) : List QueueAction :=
  [.pop 3] ++ List.replicate 7 .consumer ++ [.push first] ++ List.replicate 7 .producer ++
    List.replicate 6 .consumer ++ [.push second] ++ List.replicate 5 .producer

theorem taskQueue_handsOver_sleeping : ∃ q,
    SpscTaskQueue.new.run (sleepingRun ⟨1, 0⟩ ⟨1, 1⟩) = some q ∧ q.popped = [some ⟨1, 0⟩] ∧
    q.consumer ≠ .checkFailed ∧
    (q.pending = (q.completedPushes : Int) - q.startedPops ∧ -1 ≤ q.pending ∧ q.pending ≤ kRingSize) ∧
    (∀ input tail, q.producer = .storeBuffer input tail → (q.buffer tail).unread = false) ∧
    ∀ (n : Nat) (output), q.popped[n]? = some output →
      ∃ task, output = some task ∧ q.pushed[n]? = some task := by
  have popped : (SpscTaskQueue.new.run (sleepingRun ⟨1, 0⟩ ⟨1, 1⟩)).map (·.popped) =
      some [some ⟨1, 0⟩] := by decide +kernel
  obtain ⟨q, run, popped⟩ := Option.map_eq_some_iff.mp popped
  exact ⟨q, run, popped, taskQueue_handsOver run⟩

end Tvm.Runtime
