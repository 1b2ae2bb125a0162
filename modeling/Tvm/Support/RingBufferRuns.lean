import Tvm.Support.RingBufferQueue

/-!
# Runs of a ring buffer

A run takes one operation after the other.  An operation whose check fails throws and leaves
the buffer as it was; a copy that leaves the ring ends the run.
-/

namespace Tvm.Support

open Tvm.Lib

inductive Operation where
  | write (data : Bytes)
  | read (size : Nat)
  | writeWithCallback (frecv : Receiver) (maxBytes : Nat)
  | reserve (n : Nat)

/-- The bytes an operation puts into the buffer and the bytes it reads out. -/
structure Transfer where
  written : Bytes
  readOut : Bytes

namespace RingBuffer

def step (buffer : RingBuffer) : Operation → Except Fault (Transfer × RingBuffer)
  | .write data => do
      let next ← buffer.write data
      return (⟨data, []⟩, next)
  | .read size => do
      let done ← buffer.read size
      return (⟨[], done.1⟩, done.2)
  | .writeWithCallback frecv maxBytes => do
      let done ← buffer.writeWithCallback frecv maxBytes
      return (⟨done.2.1, []⟩, done.2.2)
  | .reserve n => do
      let next ← buffer.reserve n
      return (⟨[], []⟩, next)

def run : RingBuffer → List Operation → Except Fault (Transfer × RingBuffer)
  | buffer, [] => .ok (⟨[], []⟩, buffer)
  | buffer, operation :: rest =>
    match buffer.step operation with
    | .error .check => run buffer rest
    | .error .outOfRing => .error .outOfRing
    | .ok done => do
        let later ← run done.2 rest
        return (⟨done.1.written ++ later.1.written, done.1.readOut ++ later.1.readOut⟩, later.2)

def after (buffer : RingBuffer) (operation : Operation) : RingBuffer :=
  match buffer.step operation with
  | .ok done => done.2
  | .error _ => buffer

/-- Where the operation makes the ring grow, the ring has room for the content laid out from
the head on. -/
def StepFits (buffer : RingBuffer) : Operation → Prop
  | .write data => buffer.GrowthFits (buffer.bytesAvailable + data.length)
  | .read _ => True
  | .writeWithCallback _ maxBytes => buffer.GrowthFits (buffer.bytesAvailable + maxBytes)
  | .reserve n => buffer.GrowthFits n

/-- Every operation of the run fits, in the state it is called in. -/
def RunFits : RingBuffer → List Operation → Prop
  | _, [] => True
  | buffer, operation :: rest =>
    buffer.StepFits operation ∧ RunFits (buffer.after operation) rest

/-- What a queue does in a run: the bytes that were there and those that were written come out
in order. -/
structure Queues (buffer : RingBuffer) (transfer : Transfer) (next : RingBuffer) : Prop where
  valid : next.Valid
  conserved : buffer.contents ++ transfer.written = transfer.readOut ++ next.contents

theorem Queues.trans {buffer middle next : RingBuffer} {first second : Transfer}
    (earlier : buffer.Queues first middle) (later : middle.Queues second next) :
    buffer.Queues ⟨first.written ++ second.written, first.readOut ++ second.readOut⟩ next := by
  refine ⟨later.valid, ?_⟩
  simp only
  rw [← List.append_assoc, earlier.conserved, List.append_assoc, later.conserved,
    List.append_assoc]

variable {buffer : RingBuffer}

theorem step_queues (valid : buffer.Valid) {operation : Operation}
    (fits : buffer.StepFits operation) :
    (∃ transfer next, buffer.step operation = .ok (transfer, next) ∧
      buffer.Queues transfer next) ∨ buffer.step operation = .error .check := by
  cases operation with
  | write data =>
    obtain ⟨next, done, appended, next_valid⟩ := write_contents valid fits
    refine .inl ⟨⟨data, []⟩, next, ?_, next_valid, appended.symm⟩
    rw [step, done, ok_bind, pure_eq_ok]
  | read size =>
    by_cases enough : size ≤ buffer.bytesAvailable
    · have done := read_eq valid enough
      obtain ⟨_, dropped, next_valid⟩ := read_contents valid enough done
      refine .inl ⟨⟨[], buffer.contents.take size⟩, _, ?_, next_valid, ?_⟩
      · rw [step, done, ok_bind, pure_eq_ok]
      · rw [dropped, List.take_append_drop, List.append_nil]
    · right
      rw [step, read, if_pos (Nat.lt_of_not_le enough), error_bind]
  | writeWithCallback frecv maxBytes =>
    obtain ⟨data, next, done, appended, next_valid⟩ := writeWithCallback_contents valid frecv fits
    refine .inl ⟨⟨data, []⟩, next, ?_, next_valid, appended.symm⟩
    rw [step, done, ok_bind, pure_eq_ok]
  | reserve n =>
    obtain ⟨next, done, reserved⟩ := reserve_reserved valid fits
    refine .inl ⟨⟨[], []⟩, next, ?_, reserved.valid, ?_⟩
    · rw [step, done, ok_bind, pure_eq_ok]
    · rw [reserved.contents_eq, List.append_nil, List.nil_append]

theorem step_outOfRing (valid : buffer.Valid) {operation : Operation}
    (overflows : ¬ buffer.StepFits operation) :
    buffer.step operation = .error .outOfRing := by
  cases operation with
  | write data => rw [step, write, reserve_outOfRing valid overflows, error_bind, error_bind]
  | read size => exact absurd trivial overflows
  | writeWithCallback frecv maxBytes =>
    rw [step, writeWithCallback, reserve_outOfRing valid overflows, error_bind, error_bind]
  | reserve n => rw [step, reserve_outOfRing valid overflows, error_bind]

theorem run_queues {operations : List Operation} (valid : buffer.Valid)
    (fits : buffer.RunFits operations) :
    ∃ transfer final, buffer.run operations = .ok (transfer, final) ∧
      buffer.Queues transfer final := by
  induction operations generalizing buffer with
  | nil => exact ⟨_, _, rfl, valid, List.append_nil _⟩
  | cons operation rest ih =>
    obtain ⟨here, later⟩ := fits
    rcases step_queues valid here with ⟨transfer, next, done, queues⟩ | failed
    · simp only [after, done] at later
      obtain ⟨transfer', final, rest_done, rest_queues⟩ := ih queues.valid later
      refine ⟨_, final, ?_, queues.trans rest_queues⟩
      simp only [run, done, rest_done, ok_bind, pure_eq_ok]
    · simp only [after, failed] at later
      simpa only [run, failed] using ih valid later

theorem run_outOfRing {operations : List Operation} (valid : buffer.Valid)
    (overflows : ¬ buffer.RunFits operations) :
    buffer.run operations = .error .outOfRing := by
  induction operations generalizing buffer with
  | nil => exact absurd trivial overflows
  | cons operation rest ih =>
    by_cases here : buffer.StepFits operation
    · have later : ¬ (buffer.after operation).RunFits rest := fun later => overflows ⟨here, later⟩
      rcases step_queues valid here with ⟨transfer, next, done, queues⟩ | failed
      · simp only [after, done] at later
        simp only [run, done, ih queues.valid later, error_bind]
      · simp only [after, failed] at later
        simpa only [run, failed] using ih valid later
    · rw [run, step_outOfRing valid here]

theorem RunFits.append {before rest : List Operation} (valid : buffer.Valid)
    (fits : buffer.RunFits (before ++ rest)) {transfer : Transfer} {middle : RingBuffer}
    (reached : buffer.run before = .ok (transfer, middle)) : middle.Valid ∧ middle.RunFits rest := by
  induction before generalizing buffer transfer with
  | nil =>
    obtain ⟨_, rfl⟩ := Prod.mk.inj (Except.ok.inj reached)
    exact ⟨valid, fits⟩
  | cons operation before ih =>
    obtain ⟨here, later⟩ := fits
    rcases step_queues valid here with ⟨first, next, done, queues⟩ | failed
    · simp only [after, done] at later
      rw [run, done] at reached
      simp only at reached
      cases rest_done : next.run before with
      | error fault => simp only [rest_done, error_bind, reduceCtorEq] at reached
      | ok result =>
        simp only [rest_done, ok_bind, pure_eq_ok] at reached
        obtain ⟨_, rfl⟩ := Prod.mk.inj (Except.ok.inj reached)
        exact ih queues.valid later rest_done
    · simp only [after, failed] at later
      rw [run, failed] at reached
      exact ih valid later reached

/-- In a run of a new buffer no copy leaves the ring, the bytes read out and those that are
still there are the bytes written, in order, and `Reserve` keeps the content wherever it is
called. -/
structure ActsAsQueue (operations : List Operation) : Prop where
  exact_transfer : ∃ transfer final, empty.run operations = .ok (transfer, final) ∧
    transfer.written = transfer.readOut ++ final.contents
  reserve_keeps : ∀ before n rest, operations = before ++ .reserve n :: rest →
    ∀ transfer middle, empty.run before = .ok (transfer, middle) →
      ∃ next, middle.reserve n = .ok next ∧ next.contents = middle.contents

theorem RunFits.actsAsQueue {operations : List Operation} (fits : empty.RunFits operations) :
    ActsAsQueue operations := by
  constructor
  · obtain ⟨transfer, final, done, queues⟩ := run_queues empty_valid fits
    exact ⟨transfer, final, done, queues.conserved⟩
  · intro before n rest split transfer middle reached
    subst split
    obtain ⟨middle_valid, here, _⟩ := fits.append empty_valid reached
    obtain ⟨next, done, reserved⟩ := reserve_reserved middle_valid here
    exact ⟨next, done, reserved.contents_eq⟩

theorem reserve_initial {buffer : RingBuffer} {n : Nat} (initial : buffer.size = 4096)
    (small : n ≤ 4096) : buffer.reserve n = .ok buffer := by
  rw [reserve, initial, if_neg (by omega), if_neg (by simp [kInitCapacity])]

/-- A buffer that has been filled, emptied to `left` bytes and filled again wraps round, and
the next larger ring is too small for it. -/
theorem refilled_outgrows_ring {first second : Bytes} (filled : first.length = 4096)
    (refilled : second.length = 4000) :
    empty.run [.write first, .read 4000, .write second, .reserve 4097] = .error .outOfRing := by
  have all : first.take 4096 = first := List.take_of_length_le filled.le
  have wrote : empty.write first = .ok ⟨store empty.ring 0 first, 4096, 0, 4096⟩ := by
    rw [write, reserve_initial rfl (by simp [empty, filled]), ok_bind]
    simp [copyBehind, copyIn, empty, kInitCapacity, filled, all]
  have full : (⟨store empty.ring 0 first, 4096, 0, 4096⟩ : RingBuffer).Valid :=
    ⟨(by decide : 0 < 4096), le_rfl⟩
  have drained := read_eq full (show 4000 ≤ 4096 by decide)
  have rewrote : (⟨store empty.ring 0 first, 4096, 4000, 96⟩ : RingBuffer).write second =
      .ok ⟨store (store empty.ring 0 first) 0 second, 4096, 4000, 4096⟩ := by
    rw [write, reserve_initial rfl (by simp [refilled]), ok_bind]
    simp [copyBehind, copyIn, refilled]
  have last : (⟨store (store empty.ring 0 first) 0 second, 4096, 4000, 4096⟩ :
      RingBuffer).reserve 4097 = .error .outOfRing := by
    apply reserve_outOfRing ⟨(by decide : 4000 < 4096), le_rfl⟩
    change ¬ (4096 < 4097 → 4000 + 4096 ≤ grownSize 4097)
    decide
  simp [run, step, wrote, drained, rewrote, last]

end RingBuffer

end Tvm.Support
