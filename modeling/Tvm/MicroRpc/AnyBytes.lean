import Tvm.MicroRpc.Resync

/-!
# Any bytes at all

Whatever arrives, and however it is cut, calling `Write` again after each error reads all of it.
Which packets are reported, and as what, depends on the bytes only.
-/

namespace Tvm.MicroRpc

open Tvm.Lib Tvm.Crt

universe u v

/-- What a stream is told about packets. -/
def verdicts (events : List StreamEvent) : List Bool :=
  events.filterMap fun
    | .packetDone valid => some valid
    | _ => none

theorem verdicts_append (first second : List StreamEvent) :
    verdicts (first ++ second) = verdicts first ++ verdicts second :=
  List.filterMap_append

theorem verdicts_bytes (data : Bytes) : verdicts (data.map .byte) = [] := by
  simp [verdicts]

namespace WireParser

/-- Reads a byte; the one that starts a packet inside another is read again after the error. -/
def recoverByte (parser : WireParser) (c : UInt8) : WireParser × List StreamEvent :=
  match parser.step c with
  | .next parser events => (parser, events)
  | .shortPacket => (hunt true c, [])
  | .invalidEscape => (⟨false, .hunting⟩, [])

def recover (parser : WireParser) : Bytes → WireParser × List StreamEvent
  | [] => (parser, [])
  | c :: rest =>
    let read := parser.recoverByte c
    let others := recover read.1 rest
    (others.1, read.2 ++ others.2)

variable {parser : WireParser} {data : Bytes}

theorem recover_append (parser : WireParser) (first second : Bytes) :
    parser.recover (first ++ second) = (((parser.recover first).1.recover second).1,
      (parser.recover first).2 ++ ((parser.recover first).1.recover second).2) := by
  induction first generalizing parser with
  | nil => rfl
  | cons c first ih => simp [recover, ih]

theorem recover_run (parser : WireParser) (data : Bytes) :
    parser.recover data = (((run parser data).parser.recover (run parser data).rest).1,
      (run parser data).events ++ ((run parser data).parser.recover (run parser data).rest).2) := by
  induction data generalizing parser with
  | nil => rfl
  | cons c rest ih =>
    rw [run_cons, recover, recoverByte]
    cases stepped : parser.step c with
    | next middle visible => simp [ih middle, RunResult.prepend]
    | shortPacket => simp [recover, recoverByte, step]
    | invalidEscape => rfl

/-- An error ends the packet, and only inside a packet is the byte left unread. -/
theorem run_error (isError : (run parser data).error ≠ .noError) :
    (run parser data).parser.phase = .hunting ∧ (run parser data).rest.length <
      data.length + if parser.phase = .hunting then 0 else 1 := by
  induction data generalizing parser with
  | nil => exact absurd rfl isError
  | cons c rest ih =>
    rw [run_cons] at isError ⊢
    cases stepped : parser.step c with
    | next middle visible =>
      rw [stepped] at isError
      obtain ⟨hunts, shorter⟩ := ih isError
      refine ⟨hunts, shorter.trans_le ?_⟩
      rw [List.length_cons]
      split <;> omega
    | shortPacket =>
      have inside : parser.phase ≠ .hunting := fun hunts => by simp [step, hunts] at stepped
      simp [inside]
    | invalidEscape => exact ⟨rfl, Nat.lt_add_right _ (Nat.lt_succ_self _)⟩

end WireParser

namespace Unframer

open WireParser

variable {σ : Type u} {τ : Type v} {down : WriteStream τ}

theorem feed_recovers (accepts : down.Accepts) (calls : Nat) (unframer : Unframer)
    (t : τ × List StreamEvent) (data : Bytes) (formed : unframer.WellFormed)
    (enough : data.length + (if unframer.parser.phase = .hunting then 0 else 1) < calls) :
    ∃ unframer' t', unframer.feed down.logged calls t data = some (unframer', t') ∧
      unframer'.WellFormed ∧ unframer'.parser = (unframer.parser.recover data).1 ∧
      verdicts t'.2 = verdicts t.2 ++ verdicts (unframer.parser.recover data).2 := by
  induction calls generalizing unframer t data with
  | zero => exact absurd enough (Nat.not_lt_zero _)
  | succ calls ih =>
    rcases reads_or_error unframer.parser data with ⟨events, parser', reads⟩ | isError
    · obtain ⟨unframer', t', fed, formed', isParser, trace⟩ := feed_of_reads calls unframer data
        formed reads (accepts.logged.takes t events)
      refine ⟨unframer', t', fed, formed', ?_, ?_⟩
      · rw [isParser, recover_run, reads, recover]
      · rw [trace.log, verdicts_append, recover_run unframer.parser data, reads, recover,
          List.append_nil]
    · have refines := write_refines unframer data formed (accepts.logged.takes t _)
      obtain ⟨kept, lost, visible, trace, -⟩ := refines.trace
      obtain ⟨hunts, shorter⟩ := run_error isError
      obtain ⟨read, cut⟩ := run_rest_suffix unframer.parser data
      have consumed : (unframer.write down.logged t data).bytesConsumed = some (read.length : Int) := by
        rw [refines.bytesConsumed]
        conv => lhs; rw [← congrArg List.length cut, List.length_append]
        simp
      have left : data.drop read.length = (run unframer.parser data).rest := by
        conv => lhs; rw [← cut, List.drop_left]
      obtain ⟨unframer', t', fed, formed', isParser, told⟩ := ih
        (unframer.write down.logged t data).unframer (unframer.write down.logged t data).stream
        (run unframer.parser data).rest refines.wellFormed
        (by rw [refines.parser, if_pos hunts]; omega)
      refine ⟨unframer', t', ?_, formed', ?_, ?_⟩
      · rw [feed]
        simp only [refines.error, isError, if_false, consumed, ← Int.ofNat_eq_natCast, left, fed]
      · rw [isParser, refines.parser, recover_run unframer.parser data]
      · rw [told, refines.parser, recover_run unframer.parser data, visible, verdicts_append,
          verdicts_append, verdicts_bytes, List.append_nil, trace.log, verdicts_append,
          List.append_assoc]

theorem feedPieces_recovers (accepts : down.Accepts) (pieces : List Bytes) (unframer : Unframer)
    (t : τ × List StreamEvent) (formed : unframer.WellFormed) :
    ∃ unframer' t', unframer.feedPieces down.logged t pieces = some (unframer', t') ∧
      unframer'.parser = (unframer.parser.recover pieces.flatten).1 ∧
      verdicts t'.2 = verdicts t.2 ++ verdicts (unframer.parser.recover pieces.flatten).2 := by
  induction pieces generalizing unframer t with
  | nil => exact ⟨unframer, t, rfl, rfl, (List.append_nil _).symm⟩
  | cons piece pieces ih =>
    obtain ⟨middle, t₁, fed, formed₁, isParser, told⟩ : ∃ middle t₁,
        unframer.feed down.logged (2 * piece.length + 1) t piece = some (middle, t₁) ∧
        middle.WellFormed ∧ middle.parser = (unframer.parser.recover piece).1 ∧
        verdicts t₁.2 = verdicts t.2 ++ verdicts (unframer.parser.recover piece).2 := by
      cases piece with
      | nil =>
        obtain ⟨middle, t₁, fed, formed₁, isParser, trace⟩ := feed_of_reads 0 unframer [] formed
          (.nil _) (accepts.logged.takes t [])
        exact ⟨middle, t₁, fed, formed₁, isParser, by rw [trace.log, verdicts_append]; rfl⟩
      | cons c rest =>
        apply feed_recovers accepts _ _ _ _ formed
        rw [List.length_cons]
        split <;> omega
    obtain ⟨unframer', t', rest, isParser', told'⟩ := ih middle t₁ formed₁
    refine ⟨unframer', t', by simp [feedPieces, fed, rest], ?_, ?_⟩
    · rw [isParser', isParser, List.flatten_cons, recover_append]
    · rw [told', told, isParser, List.flatten_cons, recover_append, verdicts_append,
        List.append_assoc]

end Unframer

end Tvm.MicroRpc
