import Tvm.Lib.Codec

/-!
# Readers that may leave the bounds

A reader of a stream fails where it finds out that something is wrong, and is out of range where it
does not and reads what is not there.  It is safe on a stream where that does not happen.
-/

namespace Tvm.Lib

inductive ReadFault where
  | failed
  | outOfRange
  deriving DecidableEq, Repr

def ReadFault.of {α : Type} : Except ReadFault α → Option ReadFault
  | .ok _ => none
  | .error fault => some fault

abbrev FaultReader := StateT Bytes (Except ReadFault)

namespace FaultReader

variable {α β : Type}

def ofReader (reader : Reader α) : FaultReader α := fun stream =>
  match reader stream with
  | some found => .ok found
  | none => .error .failed

def ofExcept (result : Except ReadFault α) : FaultReader α := fun stream =>
  result.map fun x => (x, stream)

def Safe (reader : FaultReader α) (stream : Bytes) : Prop :=
  reader stream ≠ .error .outOfRange

theorem ofReader_eq_ok {reader : Reader α} {stream : Bytes} {found : α × Bytes} :
    ofReader reader stream = .ok found ↔ reader stream = some found := by
  unfold ofReader
  cases reader stream with
  | none => exact iff_of_false (fun same => nomatch same) (fun same => nomatch same)
  | some other =>
    constructor
    · intro same
      cases same
      rfl
    · intro same
      cases same
      rfl

theorem safe_ofReader (reader : Reader α) (stream : Bytes) : (ofReader reader).Safe stream := by
  unfold Safe ofReader
  cases reader stream with
  | none => exact fun same => nomatch same
  | some found => exact fun same => nomatch same

theorem ofExcept_eq_ok {result : Except ReadFault α} {stream rest : Bytes} {x : α} :
    ofExcept result stream = .ok (x, rest) ↔ result = .ok x ∧ rest = stream := by
  unfold ofExcept
  cases result with
  | error fault =>
    exact iff_of_false (fun same => nomatch same) fun both => nomatch both.1
  | ok y =>
    constructor
    · intro same
      cases same
      exact ⟨rfl, rfl⟩
    · rintro ⟨same, rfl⟩
      cases same
      rfl

theorem safe_ofExcept {result : Except ReadFault α} {stream : Bytes} :
    (ofExcept result).Safe stream ↔ result ≠ .error .outOfRange := by
  unfold Safe ofExcept
  apply not_congr
  cases result with
  | error fault =>
    constructor
    · intro same
      cases same
      rfl
    · intro same
      cases same
      rfl
  | ok x => exact iff_of_false (fun same => nomatch same) (fun same => nomatch same)

theorem safe_pure (x : α) (stream : Bytes) : (pure x : FaultReader α).Safe stream :=
  fun same => nomatch same

theorem safe_bind {reader : FaultReader α} {next : α → FaultReader β} {stream : Bytes} :
    (reader >>= next).Safe stream ↔
      reader.Safe stream ∧ ∀ x rest, reader stream = .ok (x, rest) → (next x).Safe rest := by
  change (reader stream >>= fun found => next found.1 found.2) ≠ _ ↔ _
  unfold Safe
  cases reader stream with
  | error fault =>
    constructor
    · intro safe
      refine ⟨fun same => ?_, fun _ _ same => nomatch same⟩
      cases same
      exact safe rfl
    · rintro ⟨first, -⟩ same
      cases same
      exact first rfl
  | ok found =>
    constructor
    · intro safe
      refine ⟨(fun same => nomatch same), fun x rest same => ?_⟩
      cases same
      exact safe
    · rintro ⟨-, rest⟩
      exact rest found.1 found.2 rfl

theorem safe_ofReader_bind {reader : Reader α} {next : α → FaultReader β} {stream : Bytes} :
    (ofReader reader >>= next).Safe stream ↔
      ∀ x rest, reader stream = some (x, rest) → (next x).Safe rest := by
  rw [safe_bind]
  constructor
  · intro both x rest found
    exact both.2 x rest (ofReader_eq_ok.mpr found)
  · intro each
    exact ⟨safe_ofReader reader stream, fun x rest found =>
      each x rest (ofReader_eq_ok.mp found)⟩

theorem bind_eq_ok {reader : FaultReader α} {next : α → FaultReader β} {stream last : Bytes}
    {y : β} :
    (reader >>= next) stream = .ok (y, last) ↔
      ∃ x rest, reader stream = .ok (x, rest) ∧ next x rest = .ok (y, last) := by
  change (reader stream >>= fun found => next found.1 found.2) = _ ↔ _
  cases reader stream with
  | error fault =>
    refine iff_of_false (fun same => nomatch same) ?_
    rintro ⟨x, rest, same, -⟩
    cases same
  | ok found =>
    constructor
    · intro same
      exact ⟨found.1, found.2, rfl, same⟩
    · rintro ⟨x, rest, same, value⟩
      cases same
      exact value

end FaultReader

end Tvm.Lib
