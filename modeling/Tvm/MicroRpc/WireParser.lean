import Tvm.MicroRpc.Framer

/-!
# A byte-at-a-time reading of the wire

`WireParser` says what the unframer is for, one wire byte after the other and without
any buffering: how far the current packet has been read, and what each byte makes
visible downstream.  `run` reads a byte string up to the first framing error.
The unframer is related to it in `UnframerRefinement`.
-/

namespace Tvm.MicroRpc

open Tvm.Lib Tvm.Crt

/-- How far the current packet has been read.  The checksum is carried from the packet
start on. -/
inductive Phase where
  | hunting
  | length (got : Bytes) (crc : UInt16)
  | payload (remaining : Nat) (crc : UInt16)
  | trailer (got : Bytes) (crc : UInt16)
  deriving DecidableEq, Repr

structure WireParser where
  sawEscape : Bool
  phase : Phase
  deriving DecidableEq, Repr

/-- What a byte inside a packet stands for. -/
inductive Unescaped where
  | skip (sawEscape : Bool)
  | data
  | shortPacket
  | invalidEscape
  deriving DecidableEq, Repr

def unescape (sawEscape : Bool) (c : UInt8) : Unescaped :=
  if sawEscape then
    if c = kPacketStart then .shortPacket
    else if c = kEscapeNop then .skip false
    else if c = kEscapeStart then .data
    else .invalidEscape
  else if c = kEscapeStart then .skip true
  else .data

/-- A payload of no bytes is complete at once. -/
def Phase.beginPayload (remaining : Nat) (crc : UInt16) : Phase :=
  if remaining = 0 then .trailer [] crc else .payload remaining crc

/-- An escape byte inside a packet only counts towards the checksum. -/
def Phase.skip (c : UInt8) : Phase → Phase
  | .hunting => .hunting
  | .length got crc => .length got (crc16Compute [c] (some crc))
  | .payload remaining crc => .payload remaining (crc16Compute [c] (some crc))
  | .trailer got crc => .trailer got crc

/-- A data byte of the packet, and what it makes visible. -/
def Phase.store (c : UInt8) : Phase → Phase × List StreamEvent
  | .hunting => (.hunting, [])
  | .length got crc =>
    let crc := crc16Compute [c] (some crc)
    if got.length + 1 < kPayloadLength then (.length (got ++ [c]) crc, [])
    else (.beginPayload (leValue (got ++ [c])) crc, [])
  | .payload remaining crc =>
    (.beginPayload (remaining - 1) (crc16Compute [c] (some crc)), [.byte c])
  | .trailer got crc =>
    if got.length + 1 < kCrc then (.trailer (got ++ [c]) crc, [])
    else (.hunting, [.packetDone (crc.toNat == leValue (got ++ [c]))])

inductive ByteResult where
  | next (parser : WireParser) (events : List StreamEvent)
  | shortPacket
  | invalidEscape
  deriving DecidableEq, Repr

def startCrc : UInt16 := crc16Compute [kEscapeStart, kPacketStart] none

namespace WireParser

def hunt (sawEscape : Bool) (c : UInt8) : WireParser :=
  if c = kEscapeStart then ⟨true, .hunting⟩
  else if c = kPacketStart && sawEscape then ⟨false, .length [] startCrc⟩
  else ⟨false, .hunting⟩

def step (parser : WireParser) (c : UInt8) : ByteResult :=
  if parser.phase = .hunting then .next (hunt parser.sawEscape c) []
  else
    match unescape parser.sawEscape c with
    | .skip sawEscape => .next ⟨sawEscape, parser.phase.skip c⟩ []
    | .data => .next ⟨false, (parser.phase.store c).1⟩ (parser.phase.store c).2
    | .shortPacket => .shortPacket
    | .invalidEscape => .invalidEscape

/-- Where a run has got to: what it made visible, the error that ended it, the parser and
the unread bytes. -/
structure RunResult where
  events : List StreamEvent
  error : CrtError
  parser : WireParser
  rest : Bytes
  deriving DecidableEq, Repr

def RunResult.prepend (events : List StreamEvent) (result : RunResult) : RunResult :=
  { result with events := events ++ result.events }

/-- Read bytes up to the first error.  A byte that starts a new packet inside another one
stays unread. -/
def run (parser : WireParser) : Bytes → RunResult
  | [] => ⟨[], .noError, parser, []⟩
  | c :: rest =>
    match parser.step c with
    | .next parser events => (run parser rest).prepend events
    | .shortPacket => ⟨[], .framingShortPacket, ⟨true, .hunting⟩, c :: rest⟩
    | .invalidEscape => ⟨[], .framingInvalidEscape, ⟨false, .hunting⟩, rest⟩

@[simp] theorem RunResult.prepend_nil (result : RunResult) : result.prepend [] = result := rfl

@[simp] theorem RunResult.prepend_prepend (first second : List StreamEvent)
    (result : RunResult) :
    (result.prepend second).prepend first = result.prepend (first ++ second) := by
  simp [RunResult.prepend]

@[simp] theorem RunResult.prepend_events (events : List StreamEvent) (result : RunResult) :
    (result.prepend events).events = events ++ result.events := rfl

@[simp] theorem RunResult.prepend_error (events : List StreamEvent) (result : RunResult) :
    (result.prepend events).error = result.error := rfl

@[simp] theorem RunResult.prepend_parser (events : List StreamEvent) (result : RunResult) :
    (result.prepend events).parser = result.parser := rfl

@[simp] theorem RunResult.prepend_rest (events : List StreamEvent) (result : RunResult) :
    (result.prepend events).rest = result.rest := rfl

@[simp] theorem run_nil (parser : WireParser) : run parser [] = ⟨[], .noError, parser, []⟩ := rfl

theorem run_cons (parser : WireParser) (c : UInt8) (rest : Bytes) :
    run parser (c :: rest) =
      match parser.step c with
      | .next parser events => (run parser rest).prepend events
      | .shortPacket => ⟨[], .framingShortPacket, ⟨true, .hunting⟩, c :: rest⟩
      | .invalidEscape => ⟨[], .framingInvalidEscape, ⟨false, .hunting⟩, rest⟩ := rfl

/-- `Reads parser data events parser'`: `data` is read without an error. -/
def Reads (parser : WireParser) (data : Bytes) (events : List StreamEvent) (parser' : WireParser) :
    Prop :=
  run parser data = ⟨events, .noError, parser', []⟩

theorem Reads.nil (parser : WireParser) : Reads parser [] [] parser := rfl

theorem Reads.run_append {parser parser' : WireParser} {data : Bytes} {events : List StreamEvent}
    (reads : Reads parser data events parser') (more : Bytes) :
    run parser (data ++ more) = (run parser' more).prepend events := by
  induction data generalizing parser events with
  | nil =>
    obtain ⟨rfl, rfl⟩ : ([] : List StreamEvent) = events ∧ parser = parser' := by
      simpa [Reads] using reads
    rfl
  | cons c rest ih =>
    rw [Reads, run_cons] at reads
    rw [List.cons_append, run_cons]
    cases stepped : parser.step c with
    | next middle first =>
      rw [stepped] at reads
      have tail : Reads middle rest (run middle rest).events parser' := by
        rw [Reads]
        cases result : run middle rest
        simp_all [RunResult.prepend]
      have split : events = first ++ (run middle rest).events := by
        simpa using (congrArg RunResult.events reads).symm
      simp only [ih tail, RunResult.prepend_prepend, split]
    | shortPacket => simp [stepped] at reads
    | invalidEscape => simp [stepped] at reads

theorem Reads.append {parser parser' parser'' : WireParser} {first second : Bytes}
    {events events' : List StreamEvent} (left : Reads parser first events parser')
    (right : Reads parser' second events' parser'') :
    Reads parser (first ++ second) (events ++ events') parser'' := by
  rw [Reads, left.run_append, right]
  rfl

theorem Reads.cons {parser parser' parser'' : WireParser} {c : UInt8} {rest : Bytes}
    {events events' : List StreamEvent} (stepped : parser.step c = .next parser' events)
    (reads : Reads parser' rest events' parser'') :
    Reads parser (c :: rest) (events ++ events') parser'' := by
  rw [Reads, run_cons, stepped]
  exact congrArg (RunResult.prepend events) reads

theorem Reads.split {parser parser'' : WireParser} {first second : Bytes}
    {events : List StreamEvent} (reads : Reads parser (first ++ second) events parser'') :
    ∃ events₁ parser' events₂, Reads parser first events₁ parser' ∧
      Reads parser' second events₂ parser'' ∧ events = events₁ ++ events₂ := by
  induction first generalizing parser events with
  | nil => exact ⟨[], parser, events, .nil parser, reads, rfl⟩
  | cons c rest ih =>
    rw [List.cons_append, Reads, run_cons] at reads
    cases stepped : parser.step c with
    | next middle visible =>
      rw [stepped] at reads
      have tail : Reads middle (rest ++ second) (run middle (rest ++ second)).events parser'' := by
        rw [Reads]
        cases result : run middle (rest ++ second)
        simp_all [RunResult.prepend]
      obtain ⟨events₁, parser', events₂, left, right, split⟩ := ih tail
      refine ⟨visible ++ events₁, parser', events₂, Reads.cons stepped left, right, ?_⟩
      rw [List.append_assoc, ← split]
      simpa using (congrArg RunResult.events reads).symm
    | shortPacket => simp [stepped] at reads
    | invalidEscape => simp [stepped] at reads

end WireParser

/-- A field that `ConsumeInput` collects, seen as phases of the parser. -/
structure Field where
  size : Nat
  updateCrc : Bool
  phase : Bytes → UInt16 → Phase
  emit : Bytes → UInt8 → List StreamEvent

namespace Field

variable (field : Field)

def nextCrc (crc : UInt16) (data : Bytes) : UInt16 :=
  if field.updateCrc then crc16Compute data (some crc) else crc

/-- The parser goes through the phases of `field` while the buffer fills. -/
structure Collects : Prop where
  not_hunting : ∀ got crc, got.length < field.size → field.phase got crc ≠ .hunting
  skip : ∀ got crc c, got.length < field.size →
    (field.phase got crc).skip c = field.phase got (field.nextCrc crc [c])
  store : ∀ got crc c, got.length < field.size →
    (field.phase got crc).store c =
      (field.phase (got ++ [c]) (field.nextCrc crc [c]), field.emit got c)

/-- What becomes visible while `stored` is added to `got`. -/
def emitAll (got : Bytes) : Bytes → List StreamEvent
  | [] => []
  | c :: stored => field.emit got c ++ emitAll (got ++ [c]) stored

theorem nextCrc_nil (crc : UInt16) : field.nextCrc crc [] = crc := by
  simp [nextCrc]

theorem nextCrc_cons (crc : UInt16) (c : UInt8) (data : Bytes) :
    field.nextCrc crc (c :: data) = field.nextCrc (field.nextCrc crc [c]) data := by
  cases updates : field.updateCrc <;> simp [nextCrc, updates, crc16Compute]

end Field

def lengthField : Field where
  size := kPayloadLength
  updateCrc := true
  phase got crc :=
    if got.length < kPayloadLength then .length got crc else .beginPayload (leValue got) crc
  emit _ _ := []

def payloadField (remaining size : Nat) : Field where
  size := size
  updateCrc := true
  phase got crc := .beginPayload (remaining - got.length) crc
  emit _ c := [.byte c]

def trailerField (crc : UInt16) : Field where
  size := kCrc
  updateCrc := false
  phase got _ := if got.length < kCrc then .trailer got crc else .hunting
  emit got c :=
    if got.length + 1 < kCrc then [] else [.packetDone (crc.toNat == leValue (got ++ [c]))]

theorem lengthField_collects : lengthField.Collects where
  not_hunting got crc room := by
    have below : got.length < kPayloadLength := room
    simp [lengthField, below]
  skip got crc c room := by
    have below : got.length < kPayloadLength := room
    simp [lengthField, below, Phase.skip, Field.nextCrc]
  store got crc c room := by
    have below : got.length < kPayloadLength := room
    by_cases last : got.length + 1 < kPayloadLength <;>
      simp [lengthField, below, Phase.store, Field.nextCrc, last]

theorem payloadField_collects {remaining size : Nat} (bounded : size ≤ remaining) :
    (payloadField remaining size).Collects where
  not_hunting got crc room := by
    have below : got.length < size := room
    have left : remaining - got.length ≠ 0 := by omega
    simp [payloadField, Phase.beginPayload, left]
  skip got crc c room := by
    have below : got.length < size := room
    have left : remaining - got.length ≠ 0 := by omega
    simp [payloadField, Phase.beginPayload, left, Phase.skip, Field.nextCrc]
  store got crc c room := by
    have below : got.length < size := room
    have left : remaining - got.length ≠ 0 := by omega
    have one : remaining - got.length - 1 = remaining - (got.length + 1) := by omega
    simp [payloadField, Phase.beginPayload, left, Phase.store, Field.nextCrc, one]

theorem trailerField_collects (crc : UInt16) : (trailerField crc).Collects where
  not_hunting got _ room := by
    have below : got.length < kCrc := room
    simp [trailerField, below]
  skip got _ c room := by
    have below : got.length < kCrc := room
    simp [trailerField, below, Phase.skip]
  store got _ c room := by
    have below : got.length < kCrc := room
    by_cases last : got.length + 1 < kCrc <;>
      simp [trailerField, below, Phase.store, last]

theorem lengthField_emitAll (got stored : Bytes) : lengthField.emitAll got stored = [] := by
  induction stored generalizing got with
  | nil => rfl
  | cons c stored ih =>
    rw [Field.emitAll, ih]
    rfl

theorem payloadField_emitAll (remaining size : Nat) (got stored : Bytes) :
    (payloadField remaining size).emitAll got stored = stored.map .byte := by
  induction stored generalizing got with
  | nil => rfl
  | cons c stored ih =>
    rw [Field.emitAll, ih]
    rfl

theorem trailerField_emitAll (crc : UInt16) (got stored : Bytes) (room : got.length < kCrc)
    (fits : (got ++ stored).length ≤ kCrc) :
    (trailerField crc).emitAll got stored =
      if (got ++ stored).length < kCrc then []
      else [.packetDone (crc.toNat == leValue (got ++ stored))] := by
  induction stored generalizing got with
  | nil => simp [Field.emitAll, room]
  | cons c stored ih =>
    rw [List.append_cons] at fits ⊢
    by_cases last : got.length + 1 < kCrc
    · rw [Field.emitAll, ih (got ++ [c]) (by simpa using last) fits]
      simp [trailerField, last]
    · have done : stored = [] := by
        apply List.eq_nil_of_length_eq_zero
        simp only [List.length_append, List.length_singleton] at fits
        omega
      subst done
      simp [Field.emitAll, trailerField, last]

end Tvm.MicroRpc
