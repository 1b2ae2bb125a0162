import Tvm.Lib.Memory
import Tvm.Crt.ErrorCodes

/-!
# Write streams

`WriteStream` of `write_stream.h` is an interface with two virtual methods; the
model keeps it abstract over the state `σ` of the implementation.  `writeAll` is
the retry loop of `write_stream.cc`.

A *trace* records what a stream was given, one event for each accepted byte and
one for each `PacketDone` call.  How the bytes were grouped into `Write` calls
does not show in it.
-/

namespace Tvm.MicroRpc

open Tvm.Lib Tvm.Crt

universe u

structure WriteStream (σ : Type u) where
  write : σ → Bytes → Int × σ
  packetDone : σ → Bool → σ

structure WriteAllResult (σ : Type u) where
  error : CrtError
  bytesConsumed : Nat
  stream : σ

namespace WriteStream

variable {σ : Type u} (stream : WriteStream σ)

/-- Every pass of the loop consumes a byte or returns, so the number of bytes left
bounds the number of passes. -/
def writeAllLoop : Nat → σ → Bytes → Nat → WriteAllResult σ
  | 0, s, _, bytesConsumed => ⟨.noError, bytesConsumed, s⟩
  | passes + 1, s, data, bytesConsumed =>
    if data = [] then ⟨.noError, bytesConsumed, s⟩
    else
      let (toReturn, s') := stream.write s data
      if toReturn = 0 then ⟨.writeStreamShortWrite, bytesConsumed, s'⟩
      else if toReturn < 0 then ⟨.systemError toReturn, bytesConsumed, s'⟩
      else if data.length < toReturn then ⟨.writeStreamLongWrite, bytesConsumed, s'⟩
      else
        writeAllLoop passes s' (data.drop toReturn.toNat) (bytesConsumed + toReturn.toNat)

def writeAll (s : σ) (data : Bytes) : WriteAllResult σ :=
  stream.writeAllLoop data.length s data 0

end WriteStream

inductive StreamEvent where
  | byte (value : UInt8)
  | packetDone (valid : Bool)
  deriving DecidableEq, Repr

namespace WriteStream

variable {σ : Type u} (stream : WriteStream σ)

/-- `stream` takes at least one byte of `data` in state `s`, and no more than there are. -/
def TakesSome (s : σ) (data : Bytes) : Prop :=
  0 < (stream.write s data).1 ∧ (stream.write s data).1 ≤ data.length

/-- The size of the buffers through which both the framer and the unframer write. -/
def kStagingBytes : Nat := 128

/-- A run of accepted `Write` and `PacketDone` calls, read as events. -/
inductive Trace : σ → List StreamEvent → σ → Prop where
  | nil (s : σ) : Trace s [] s
  | write {s s' : σ} {data : Bytes} {events : List StreamEvent} :
      data ≠ [] → data.length ≤ kStagingBytes → stream.TakesSome s data →
      Trace (stream.write s data).2 events s' →
      Trace s ((data.take (stream.write s data).1.toNat).map .byte ++ events) s'
  | packetDone {s s' : σ} {valid : Bool} {events : List StreamEvent} :
      Trace (stream.packetDone s valid) events s' →
      Trace s (.packetDone valid :: events) s'

/-- `stream` takes `events` from `s` on, however the bytes are grouped into calls. -/
def Takes (s : σ) (events : List StreamEvent) : Prop :=
  ∀ before data after s', events = before ++ data.map .byte ++ after → data ≠ [] →
    stream.Trace s before s' → stream.TakesSome s' data

variable {stream} {s s' s'' : σ} {first second events : List StreamEvent} {data : Bytes}

theorem Trace.append (left : stream.Trace s first s') (right : stream.Trace s' second s'') :
    stream.Trace s (first ++ second) s'' := by
  induction left with
  | nil s => exact right
  | write nonempty staged takes _ ih =>
    rw [List.append_assoc]
    exact .write nonempty staged takes (ih right)
  | packetDone _ ih => exact .packetDone (ih right)

theorem Trace.single_done (s : σ) (valid : Bool) :
    stream.Trace s [.packetDone valid] (stream.packetDone s valid) :=
  .packetDone (.nil _)

theorem TakesSome.take_ne_nil (takes : stream.TakesSome s data) (nonempty : data ≠ []) :
    data.take (stream.write s data).1.toNat ≠ [] := by
  intro none
  obtain ⟨positive, _⟩ := takes
  rcases List.take_eq_nil_iff.mp none with zero | empty
  · omega
  · exact nonempty empty

theorem Trace.eq_of_nil (trace : stream.Trace s [] s') : s' = s := by
  generalize visible : [] = events at trace
  cases trace with
  | nil => rfl
  | write nonempty _ takes =>
    have none := (List.append_eq_nil_iff.mp visible.symm).1
    exact absurd (List.map_eq_nil_iff.mp none) (takes.take_ne_nil nonempty)
  | packetDone => exact absurd visible (by simp)

theorem Trace.eq_of_done {valid : Bool} (trace : stream.Trace s [.packetDone valid] s') :
    s' = stream.packetDone s valid := by
  generalize visible : [StreamEvent.packetDone valid] = events at trace
  cases trace with
  | nil => exact absurd visible (by simp)
  | @write _ _ data _ nonempty _ takes =>
    obtain ⟨value, taken, some⟩ := List.exists_cons_of_ne_nil (takes.take_ne_nil nonempty)
    rw [some] at visible
    exact absurd visible (by simp)
  | packetDone rest =>
    obtain ⟨rfl, rfl⟩ : valid = _ ∧ [] = _ := by simpa using visible
    exact rest.eq_of_nil

theorem Takes.nil (s : σ) : stream.Takes s [] := by
  intro before data after s' split nonempty _
  simp only [List.append_assoc, List.nil_eq, List.append_eq_nil_iff, List.map_eq_nil_iff] at split
  exact absurd split.2.1 nonempty

theorem Takes.left (takes : stream.Takes s (first ++ second)) : stream.Takes s first := by
  intro before data after s' split nonempty trace
  exact takes before data (after ++ second) s' (by simp [split]) nonempty trace

theorem Takes.right (takes : stream.Takes s (first ++ second)) (trace : stream.Trace s first s') :
    stream.Takes s' second := by
  intro before data after s'' split nonempty trace'
  exact takes (first ++ before) data after s'' (by simp [split]) nonempty (trace.append trace')

def Accepts (stream : WriteStream σ) : Prop :=
  ∀ s data, data ≠ [] → stream.TakesSome s data

theorem Accepts.takes (accepts : stream.Accepts) (s : σ) (events : List StreamEvent) :
    stream.Takes s events :=
  fun _ data _ s' _ nonempty _ => accepts s' data nonempty

theorem writeAllLoop_of_takes (passes bytesConsumed : Nat) (enough : data.length ≤ passes)
    (staged : data.length ≤ kStagingBytes) (takes : stream.Takes s (data.map .byte)) :
    (stream.writeAllLoop passes s data bytesConsumed).error = .noError ∧
      (stream.writeAllLoop passes s data bytesConsumed).bytesConsumed
        = bytesConsumed + data.length ∧
      stream.Trace s (data.map .byte)
        (stream.writeAllLoop passes s data bytesConsumed).stream := by
  induction passes generalizing s data bytesConsumed with
  | zero =>
    have empty : data = [] := List.eq_nil_of_length_eq_zero (by omega)
    subst empty
    exact ⟨rfl, rfl, .nil s⟩
  | succ passes ih =>
    by_cases empty : data = []
    · subst empty
      exact ⟨rfl, rfl, .nil s⟩
    · have some : stream.TakesSome s data :=
        takes [] data [] s (by simp) empty (.nil s)
      obtain ⟨positive, bounded⟩ := some
      set taken := (stream.write s data).1.toNat with takenDef
      have split : data = data.take taken ++ data.drop taken := (List.take_append_drop _ _).symm
      have head : stream.Trace s ((data.take taken).map .byte) (stream.write s data).2 := by
        simpa using Trace.write empty staged ⟨positive, bounded⟩ (.nil (stream.write s data).2)
      have rest : stream.Takes (stream.write s data).2 ((data.drop taken).map .byte) := by
        rw [split, List.map_append] at takes
        exact takes.right head
      have shorter : (data.drop taken).length ≤ passes := by
        rw [List.length_drop]
        omega
      have stagedRest : (data.drop taken).length ≤ kStagingBytes := by
        rw [List.length_drop]
        omega
      obtain ⟨noError, consumed, trace⟩ := ih (bytesConsumed + taken) shorter stagedRest rest
      have unfolded : stream.writeAllLoop (passes + 1) s data bytesConsumed =
          stream.writeAllLoop passes (stream.write s data).2 (data.drop taken)
            (bytesConsumed + taken) := by
        simp [writeAllLoop, empty, ← takenDef, not_lt.mpr bounded, positive.ne',
          not_lt.mpr positive.le]
      rw [unfolded]
      refine ⟨noError, ?_, ?_⟩
      · rw [consumed, List.length_drop]
        omega
      · have joined := head.append trace
        rwa [← List.map_append, List.take_append_drop] at joined

theorem writeAll_of_takes (staged : data.length ≤ kStagingBytes)
    (takes : stream.Takes s (data.map .byte)) :
    (stream.writeAll s data).error = .noError ∧
      (stream.writeAll s data).bytesConsumed = data.length ∧
      stream.Trace s (data.map .byte) (stream.writeAll s data).stream := by
  simpa [writeAll] using writeAllLoop_of_takes data.length 0 le_rfl staged takes

/-- `stream`, with a log of the events it has seen. -/
def logged (stream : WriteStream σ) : WriteStream (σ × List StreamEvent) where
  write := fun (s, log) data =>
    ((stream.write s data).1, (stream.write s data).2,
      log ++ (data.take (stream.write s data).1.toNat).map .byte)
  packetDone := fun (s, log) valid => (stream.packetDone s valid, log ++ [.packetDone valid])

theorem Accepts.logged (accepts : stream.Accepts) : stream.logged.Accepts :=
  fun (s, _) data nonempty => accepts s data nonempty

theorem Trace.log {stream : WriteStream σ} {s s' : σ × List StreamEvent}
    (trace : stream.logged.Trace s events s') : s'.2 = s.2 ++ events := by
  induction trace with
  | nil s => simp
  | write _ _ _ _ ih => simp [ih, WriteStream.logged]
  | packetDone _ ih => simp [ih, WriteStream.logged]

def bytesOf (events : List StreamEvent) : Bytes :=
  events.filterMap fun
    | .byte value => some value
    | .packetDone _ => none

@[simp] theorem bytesOf_map_byte (data : Bytes) : bytesOf (data.map .byte) = data := by
  simp [bytesOf, List.filterMap_map]

/-- A stream that takes everything and keeps nothing. -/
def sink : WriteStream Unit where
  write _ data := (data.length, ())
  packetDone _ _ := ()

theorem sink_accepts : sink.Accepts :=
  fun _ _ nonempty => ⟨Int.natCast_pos.mpr (List.length_pos_iff.mpr nonempty), le_rfl⟩

end WriteStream

end Tvm.MicroRpc
