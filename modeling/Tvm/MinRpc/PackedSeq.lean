import Tvm.MinRpc.Reference

/-!
# Packed argument sequences survive the wire

What the sender makes of an argument is one byte string, whatever channel it runs over:
a stream gets it appended, the getter adds its length.  The receiver reads the argument
back and stops where the bytes of the argument stop.
-/

namespace Tvm.MinRpc

open Tvm.Lib

def tensorBytes (tensor : DLTensor) : Bytes :=
  Layout.u64.encode tensor.data ++ (dlDeviceLayout.encode tensor.device ++
    (Layout.i32.encode tensor.ndim ++ (dlDataTypeLayout.encode tensor.dtype ++
      (Layout.i64.encodeArray tensor.shape ++ Layout.u64.encode tensor.byteOffset))))

/-- The bytes of an argument, behind the type codes. -/
def argBytes : TVMArg → Bytes
  | .int value => Layout.i64.encode value
  | .uint value => Layout.i64.encode value
  | .float value => Layout.i64.encode value
  | .dataType value => dlDataTypeLayout.encode value ++ Layout.i32.encode 0
  | .device value => dlDeviceLayout.encode value
  | .packedFuncHandle handle => Layout.u64.encode handle
  | .moduleHandle handle => Layout.u64.encode handle
  | .opaqueHandle handle => Layout.u64.encode handle
  | .dlTensor tensor => tensorBytes tensor
  | .nullptr => []
  | .str string =>
    Layout.u64.encode (UInt64.ofNat string.chars.length) ++ Layout.u8.encodeArray string.chars
  | .bytes array =>
    Layout.u64.encode (UInt64.ofNat array.data.length) ++ Layout.u8.encodeArray array.data
  | .ndArrayHandle _ => []
  | .other _ _ => []

/-- The status that the sender throws for an argument it cannot encode. -/
def argError (clientMode : Bool) : TVMArg → Option RPCServerStatus
  | .packedFuncHandle _ => if clientMode then none else some .invalidTypeCodeObject
  | .moduleHandle _ => if clientMode then none else some .invalidTypeCodeObject
  | .ndArrayHandle _ => some .invalidTypeCodeNDArray
  | .dlTensor tensor =>
    if tensor.strides = none then none else some .invalidDLTensorFieldStride
  | .other _ _ => some .unknownTypeCode
  | _ => none

def packedSeqBytes (args : List TVMArg) : Bytes :=
  Layout.i32.encode (Int32.ofNat args.length) ++
    (Layout.i32.encodeArray (args.map TVMArg.typeCode) ++ args.flatMap argBytes)

structure Channel.Fed {σ : Type} (channel : Channel σ) (feed : σ → Bytes → σ) : Prop where
  write : ∀ {α : Type} (layout : Layout α) (value : α) (s : σ),
    channel.write layout value s = feed s (layout.encode value)
  writeArray : ∀ {α : Type} (layout : Layout α) (values : List α) (s : σ),
    channel.writeArray layout values s = feed s (layout.encodeArray values)
  nil : ∀ s, feed s [] = s
  append : ∀ s first second, feed (feed s first) second = feed s (first ++ second)

theorem streamChannel_fed : streamChannel.Fed fun wire bytes => wire ++ bytes where
  write _ _ _ := rfl
  writeArray _ _ _ := rfl
  nil := List.append_nil
  append := List.append_assoc

theorem numBytesGetter_fed :
    numBytesGetter.Fed fun numBytes bytes => numBytes + UInt64.ofNat bytes.length where
  write layout value numBytes := by rw [layout.encode_length]; rfl
  writeArray layout values numBytes := by rw [layout.encodeArray_length]; rfl
  nil numBytes := by simp
  append numBytes first second := by
    rw [List.length_append, UInt64.ofNat_add, UInt64.add_assoc]

section

variable {σ : Type} {channel : Channel σ} {feed : σ → Bytes → σ}

theorem bind_ok {α β : Type} {x : SendM σ α} {f : α → SendM σ β} {s s' : σ} {a : α}
    (first : x s = .ok a s') : (x >>= f) s = f a s' := by
  change EStateM.bind x f s = f a s'
  rw [EStateM.bind, first]

theorem bind_error {α β : Type} {x : SendM σ α} {f : α → SendM σ β} {s s' : σ}
    {status : RPCServerStatus} (first : x s = .error status s') :
    (x >>= f) s = .error status s' := by
  change EStateM.bind x f s = .error status s'
  rw [EStateM.bind, first]

theorem Channel.Fed.put (fed : channel.Fed feed) {α : Type} (layout : Layout α) (value : α) (s : σ) :
    channel.put layout value s = .ok () (feed s (layout.encode value)) := by
  rw [← fed.write]
  rfl

theorem Channel.Fed.putArray (fed : channel.Fed feed) {α : Type} (layout : Layout α)
    (values : List α) (s : σ) :
    channel.putArray layout values s = .ok () (feed s (layout.encodeArray values)) := by
  rw [← fed.writeArray]
  rfl

theorem strLength_memory (string : CString) : strLength string.memory = string.chars.length := by
  obtain ⟨chars, nulFree, short⟩ := string
  simp only [CString.memory]
  clear short
  induction chars with
  | nil => rfl
  | cons c chars ih =>
    have other : c ≠ 0 := fun zero => nulFree (by simp [zero])
    have later : (0 : UInt8) ∉ chars := fun membership => nulFree (List.mem_cons_of_mem _ membership)
    rw [List.cons_append, strLength, if_neg other, ih later, List.length_cons]

theorem sendDLTensor_ok (fed : channel.Fed feed) (tensor : DLTensor) (s : σ)
    (noStrides : tensor.strides = none) :
    sendDLTensor channel tensor s = .ok () (feed s (tensorBytes tensor)) := by
  unfold sendDLTensor
  rw [bind_ok (fed.put _ _ _), bind_ok (fed.put _ _ _), bind_ok (fed.put _ _ _),
    bind_ok (fed.put _ _ _), bind_ok (fed.putArray _ _ _)]
  simp only [noStrides, ne_eq, not_true_eq_false, if_false]
  rw [fed.put]
  simp only [fed.append, tensorBytes, List.append_assoc]

theorem sendArg_ok (fed : channel.Fed feed) (clientMode : Bool) (arg : TVMArg) (s : σ)
    (encodable : argError clientMode arg = none) :
    sendArg channel clientMode arg s = .ok () (feed s (argBytes arg)) := by
  cases arg with
  | int value => exact fed.put _ _ _
  | uint value => exact fed.put _ _ _
  | float value => exact fed.put _ _ _
  | opaqueHandle handle => exact fed.put _ _ _
  | nullptr => exact congrArg (EStateM.Result.ok ()) (fed.nil s).symm
  | dataType value =>
    rw [sendArg, bind_ok (fed.put _ _ _), fed.put, fed.append]
    rfl
  | device value => exact fed.put _ _ _
  | dlTensor tensor =>
    apply sendDLTensor_ok fed
    by_contra strides
    simp [argError, strides] at encodable
  | moduleHandle handle =>
    cases clientMode with
    | false => simp [argError] at encodable
    | true => exact fed.put _ _ _
  | packedFuncHandle handle =>
    cases clientMode with
    | false => simp [argError] at encodable
    | true => exact fed.put _ _ _
  | str string =>
    have content : string.memory.take string.chars.length = string.chars :=
      List.take_left' rfl
    rw [sendArg, strLength_memory, content, bind_ok (fed.put _ _ _), fed.putArray, fed.append]
    rfl
  | bytes array =>
    rw [sendArg, bind_ok (fed.put _ _ _), fed.putArray, fed.append]
    rfl
  | ndArrayHandle handle => simp [argError] at encodable
  | other code unknown => simp [argError] at encodable

theorem sendArg_error (clientMode : Bool) (arg : TVMArg) (s : σ) (fed : channel.Fed feed)
    {status : RPCServerStatus} (refused : argError clientMode arg = some status) :
    ∃ s', sendArg channel clientMode arg s = .error status s' := by
  cases arg with
  | dlTensor tensor =>
    have strides : tensor.strides ≠ none := by
      intro noStrides
      simp [argError, noStrides] at refused
    obtain rfl : RPCServerStatus.invalidDLTensorFieldStride = status := by
      simpa [argError, strides] using refused
    rw [sendArg, sendDLTensor, bind_ok (fed.put _ _ _), bind_ok (fed.put _ _ _),
      bind_ok (fed.put _ _ _), bind_ok (fed.put _ _ _), bind_ok (fed.putArray _ _ _), if_pos strides]
    exact ⟨_, rfl⟩
  | moduleHandle handle =>
    cases clientMode with
    | false =>
      obtain rfl := Option.some.inj refused
      exact ⟨s, rfl⟩
    | true => simp [argError] at refused
  | packedFuncHandle handle =>
    cases clientMode with
    | false =>
      obtain rfl := Option.some.inj refused
      exact ⟨s, rfl⟩
    | true => simp [argError] at refused
  | ndArrayHandle handle =>
    obtain rfl := Option.some.inj refused
    exact ⟨s, rfl⟩
  | other code unknown =>
    obtain rfl := Option.some.inj refused
    exact ⟨s, rfl⟩
  | _ => simp [argError] at refused

theorem sendArgs_ok (fed : channel.Fed feed) (clientMode : Bool) (args : List TVMArg) (s : σ)
    (encodable : ∀ arg ∈ args, argError clientMode arg = none) :
    sendArgs channel clientMode args s = .ok () (feed s (args.flatMap argBytes)) := by
  induction args generalizing s with
  | nil => exact congrArg (EStateM.Result.ok ()) (fed.nil s).symm
  | cons arg args ih =>
    obtain ⟨first, later⟩ := List.forall_mem_cons.mp encodable
    rw [sendArgs, bind_ok (sendArg_ok fed clientMode arg s first), ih _ later, fed.append,
      List.flatMap_cons]

theorem sendArgs_error (fed : channel.Fed feed) (clientMode : Bool) (args : List TVMArg) (s : σ)
    (refused : ∃ arg ∈ args, argError clientMode arg ≠ none) :
    ∃ status s', sendArgs channel clientMode args s = .error status s' := by
  induction args generalizing s with
  | nil =>
    obtain ⟨arg, membership, -⟩ := refused
    cases membership
  | cons arg args ih =>
    rw [sendArgs]
    cases here : argError clientMode arg with
    | some status =>
      obtain ⟨s', stopped⟩ := sendArg_error clientMode arg s fed here
      exact ⟨status, s', bind_error stopped⟩
    | none =>
      rw [bind_ok (sendArg_ok fed clientMode arg s here)]
      apply ih
      obtain ⟨other, membership, bad⟩ := refused
      rcases List.mem_cons.mp membership with rfl | later
      · exact absurd here bad
      · exact ⟨other, later, bad⟩

theorem sendPackedSeq_ok (fed : channel.Fed feed) (clientMode : Bool) (args : List TVMArg) (s : σ)
    (encodable : ∀ arg ∈ args, argError clientMode arg = none) :
    sendPackedSeq channel args clientMode s = .ok () (feed s (packedSeqBytes args)) := by
  rw [sendPackedSeq, bind_ok (fed.put _ _ _), bind_ok (fed.putArray _ _ _),
    sendArgs_ok fed clientMode args _ encodable, fed.append, fed.append, packedSeqBytes]

theorem sendPackedSeq_error (fed : channel.Fed feed) (clientMode : Bool) (args : List TVMArg)
    (s : σ) (refused : ∃ arg ∈ args, argError clientMode arg ≠ none) :
    ∃ status s', sendPackedSeq channel args clientMode s = .error status s' := by
  rw [sendPackedSeq, bind_ok (fed.put _ _ _), bind_ok (fed.putArray _ _ _)]
  exact sendArgs_error fed clientMode args _ refused

end

theorem packedSeqGetNumBytes_ok {σ : Type} (clientMode : Bool) (args : List TVMArg) (s : σ)
    (encodable : ∀ arg ∈ args, argError clientMode arg = none) :
    packedSeqGetNumBytes args clientMode s =
      .ok (UInt64.ofNat (packedSeqBytes args).length) s := by
  rw [packedSeqGetNumBytes, sendPackedSeq_ok numBytesGetter_fed clientMode args 0 encodable]
  exact congrArg (EStateM.Result.ok · s) (UInt64.zero_add _)

theorem packedSeqGetNumBytes_error {σ : Type} (clientMode : Bool) (args : List TVMArg) (s : σ)
    (refused : ∃ arg ∈ args, argError clientMode arg ≠ none) :
    ∃ status, packedSeqGetNumBytes args clientMode s = .error status s := by
  obtain ⟨status, numBytes, stopped⟩ :=
    sendPackedSeq_error numBytesGetter_fed clientMode args 0 refused
  exact ⟨status, by rw [packedSeqGetNumBytes, stopped]⟩

end Tvm.MinRpc
