import Mathlib.Data.Int.Notation

/-!
# Error codes of the C runtime

`tvm_crt_error_t` of `error_codes.h`, restricted to the codes that the modelled
functions return.  Some of them travel through a signed byte count, so their
numeric values matter.
-/

namespace Tvm.Crt

inductive CrtError where
  | noError
  | framingInvalidState
  | framingShortPacket
  | framingInvalidEscape
  | framingPayloadOverflow
  | framingPayloadIncomplete
  | writeStreamShortWrite
  | writeStreamLongWrite
  | sessionInvalidState
  | sessionReceiveBufferBusy
  | sessionReceiveBufferShortWrite
  | platformNoMemory
  /-- A negative value handed through from a stream (`kTvmErrorSystemErrorMask`). -/
  | systemError (value : Int)
  deriving DecidableEq, Repr

/-- `DEFINE_TVM_CRT_ERROR(category, code)`. -/
def defineCrtError (category code : Nat) : Int :=
  ((category <<< 8) ||| code : Nat)

/-- The integer a C caller sees. -/
def CrtError.value : CrtError → Int
  | .noError => 0
  | .framingInvalidState => defineCrtError 2 0
  | .framingShortPacket => defineCrtError 2 1
  | .framingInvalidEscape => defineCrtError 2 2
  | .framingPayloadOverflow => defineCrtError 2 3
  | .framingPayloadIncomplete => defineCrtError 2 4
  | .writeStreamShortWrite => defineCrtError 3 0
  | .writeStreamLongWrite => defineCrtError 3 1
  | .sessionInvalidState => defineCrtError 4 0
  | .sessionReceiveBufferBusy => defineCrtError 4 1
  | .sessionReceiveBufferShortWrite => defineCrtError 4 2
  | .platformNoMemory => defineCrtError 5 3
  | .systemError value => value

end Tvm.Crt
