import Tvm.MinRpc.PackedSeq

/-!
# What the receiver makes of a packed sequence

Every read takes the bytes of one write off the front of the stream.
-/

namespace Tvm.MinRpc

open Tvm.Lib

theorem read_encode {α : Type} (layout : Layout α) (value : α) (rest : Bytes) :
    read layout (layout.encode value ++ rest) = .ok value rest := by
  have enough : ¬(layout.encode value ++ rest).length < layout.size := by
    rw [List.length_append, layout.encode_length]
    exact Nat.not_lt.mpr (Nat.le_add_right _ _)
  rw [read, if_neg enough, layout.take_encode, layout.drop_encode, layout.decode_encode]

theorem readArray_encodeArray {α : Type} (layout : Layout α) (values : List α) (rest : Bytes)
    {count : Nat} (all : values.length = count) :
    readArray layout count (layout.encodeArray values ++ rest) = .ok ⟨values, all⟩ rest := by
  subst all
  have enough : ¬(layout.encodeArray values ++ rest).length < layout.size * values.length := by
    rw [List.length_append, layout.encodeArray_length]
    exact Nat.not_lt.mpr (Nat.le_add_right _ _)
  have left : (layout.encodeArray values ++ rest).drop (layout.size * values.length) = rest := by
    rw [← layout.encodeArray_length, List.drop_left]
  rw [readArray, if_neg enough]
  congr 1
  exact Subtype.ext (layout.decodeArray_encodeArray values rest)

theorem toSize_ofNat {n : Nat} (small : n < 2 ^ 31) : toSize (Int32.ofNat n) = n := by
  have widen : (Int32.ofNat n).toInt64 = Int64.ofNat n :=
    Int32.toInt64_ofNat' (by rw [Int32.toInt_maxValue]; omega)
  rw [toSize, widen, Int64.toUInt64_ofNat', UInt64.toNat_ofNat_of_lt']
  exact lt_trans small (by decide)

theorem ofNat_ne_zero {n : Nat} (small : n < 2 ^ 31) (positive : n ≠ 0) :
    Int32.ofNat n ≠ 0 := by
  intro zero
  have size := toSize_ofNat small
  rw [zero] at size
  exact positive (size.symm.trans rfl)

def TVMArg.Encodable : TVMArg → Prop
  | .dlTensor tensor => tensor.strides = none
  | .ndArrayHandle _ => False
  | .other _ _ => False
  | _ => True

theorem argError_eq_none {arg : TVMArg} : argError true arg = none ↔ arg.Encodable := by
  cases arg <;> simp [argError, TVMArg.Encodable]

theorem receiveDLTensor_tensorBytes (tensor : DLTensor) (rest : Bytes)
    (noStrides : tensor.strides = none) :
    receiveDLTensor (tensorBytes tensor ++ rest) = .ok tensor rest := by
  obtain ⟨data, device, dtype, shape, strides, byteOffset, rank_lt⟩ := tensor
  obtain rfl : strides = none := noStrides
  have rank : shape.length = toSize (DLTensor.ndim ⟨data, device, dtype, shape, none, byteOffset,
      rank_lt⟩) := (toSize_ofNat rank_lt).symm
  simp only [receiveDLTensor, tensorBytes, List.append_assoc]
  rw [bind_ok (read_encode _ _ _), bind_ok (read_encode _ _ _), bind_ok (read_encode _ _ _),
    bind_ok (read_encode _ _ _), bind_ok (readArray_encodeArray _ _ _ rank),
    bind_ok (read_encode _ _ _), dif_pos rank_lt]
  rfl

theorem ofMemory_chars (string : CString) (length_lt : string.chars.length < 2 ^ 64) :
    CString.ofMemory string.chars length_lt = string := by
  obtain ⟨chars, nul_free, short⟩ := string
  have whole : chars.takeWhile (· ≠ 0) = chars := by
    rw [List.takeWhile_eq_self_iff]
    intro c membership
    have nonzero : c ≠ 0 := fun zero => nul_free (zero ▸ membership)
    simpa using nonzero
  simp only [CString.ofMemory, whole]

theorem recvValue {α : Type} (layout : Layout α) (wrap : α → TVMArg) (value : α) (rest : Bytes) :
    (read layout >>= fun v => pure (wrap v) : RecvM TVMArg) (layout.encode value ++ rest) =
      .ok (wrap value) rest := by
  rw [bind_ok (read_encode _ _ _)]
  rfl

theorem recvArg_argBytes (arg : TVMArg) (rest : Bytes) (encodable : arg.Encodable) :
    recvArg arg.typeCode (argBytes arg ++ rest) = .ok arg rest := by
  cases arg with
  | int value => exact recvValue Layout.i64 .int value rest
  | uint value => exact recvValue Layout.i64 .uint value rest
  | float value => exact recvValue Layout.i64 .float value rest
  | opaqueHandle handle => exact recvValue Layout.u64 .opaqueHandle handle rest
  | nullptr => rfl
  | dataType value =>
    change (read dlDataTypeLayout >>= fun v => read Layout.i32 >>= fun _ =>
      pure (.dataType v) : RecvM TVMArg) _ = _
    rw [argBytes, List.append_assoc, bind_ok (read_encode _ _ _), bind_ok (read_encode _ _ _)]
    rfl
  | device value => exact recvValue dlDeviceLayout .device value rest
  | dlTensor tensor =>
    change (receiveDLTensor >>= fun v => pure (.dlTensor v) : RecvM TVMArg) _ = _
    rw [argBytes, bind_ok (receiveDLTensor_tensorBytes tensor rest encodable)]
    rfl
  | moduleHandle handle => exact recvValue Layout.u64 .moduleHandle handle rest
  | packedFuncHandle handle => exact recvValue Layout.u64 .packedFuncHandle handle rest
  | str string =>
    have len : string.chars.length = (UInt64.ofNat string.chars.length).toNat :=
      (UInt64.toNat_ofNat_of_lt' string.length_lt).symm
    change (read Layout.u64 >>= fun len => readArray Layout.u8 len.toNat >>= fun data =>
      pure (.str (.ofMemory data.val _)) : RecvM TVMArg) _ = _
    rw [argBytes, List.append_assoc, bind_ok (read_encode _ _ _),
      bind_ok (readArray_encodeArray _ _ _ len)]
    exact congrArg (fun received => EStateM.Result.ok (TVMArg.str received) rest)
      (ofMemory_chars string string.length_lt)
  | bytes array =>
    have len : array.data.length = (UInt64.ofNat array.data.length).toNat :=
      (UInt64.toNat_ofNat_of_lt' array.size_lt).symm
    change (read Layout.u64 >>= fun len => readArray Layout.u8 len.toNat >>= fun data =>
      pure (.bytes ⟨data.val, _⟩) : RecvM TVMArg) _ = _
    rw [argBytes, List.append_assoc, bind_ok (read_encode _ _ _),
      bind_ok (readArray_encodeArray _ _ _ len)]
    rfl
  | ndArrayHandle handle => exact encodable.elim
  | other code unknown => exact encodable.elim

theorem recvArgs_argBytes (args : List TVMArg) (rest : Bytes)
    (encodable : ∀ arg ∈ args, arg.Encodable) :
    recvArgs (args.map TVMArg.typeCode) (args.flatMap argBytes ++ rest) = .ok args rest := by
  induction args with
  | nil => rfl
  | cons arg args ih =>
    obtain ⟨first, later⟩ := List.forall_mem_cons.mp encodable
    rw [List.map_cons, List.flatMap_cons, List.append_assoc, recvArgs,
      bind_ok (recvArg_argBytes arg _ first), bind_ok (ih later)]
    rfl

theorem recvPackedSeq_packedSeqBytes (args : List TVMArg) (rest : Bytes)
    (count : args.length < 2 ^ 31) (encodable : ∀ arg ∈ args, arg.Encodable) :
    recvPackedSeq (packedSeqBytes args ++ rest) = .ok (args.map TVMArg.typeCode, args) rest := by
  rw [packedSeqBytes, List.append_assoc, List.append_assoc, recvPackedSeq,
    bind_ok (read_encode _ _ _)]
  by_cases none : args = []
  · subst none
    rfl
  · have positive : args.length ≠ 0 := fun zero => none (List.length_eq_zero_iff.mp zero)
    have all : (args.map TVMArg.typeCode).length = toSize (Int32.ofNat args.length) := by
      rw [List.length_map, toSize_ofNat count]
    rw [if_neg (ofNat_ne_zero count positive), bind_ok (readArray_encodeArray _ _ _ all),
      bind_ok (recvArgs_argBytes args rest encodable)]
    rfl

end Tvm.MinRpc
