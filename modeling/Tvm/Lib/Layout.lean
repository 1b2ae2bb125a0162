import Tvm.Lib.Memory

/-!
# Fixed-size memory layouts

A `Layout α` says how a value of `α` lies in memory.  A value written to a byte stream as
it lies in memory is read back from the front of the stream.
-/

namespace Tvm.Lib

structure Layout (α : Type) where
  size : Nat
  encode : α → Bytes
  decode : Bytes → α
  encode_length : ∀ value, (encode value).length = size
  decode_encode : ∀ value, decode (encode value) = value

namespace Layout

variable {α β : Type}

attribute [simp] Layout.encode_length Layout.decode_encode

def ofNumber (width : Nat) (toNat : α → Nat) (ofNat : Nat → α)
    (small : ∀ value, toNat value < 256 ^ width) (back : ∀ value, ofNat (toNat value) = value) :
    Layout α where
  size := width
  encode value := leBytes width (toNat value)
  decode bytes := ofNat (leValue bytes)
  encode_length value := leBytes_length width (toNat value)
  decode_encode value := by rw [leValue_leBytes (small value), back]

def u8 : Layout UInt8 :=
  ofNumber 1 UInt8.toNat UInt8.ofNat (fun value => value.toNat_lt) (fun _ => UInt8.ofNat_toNat)

def u16 : Layout UInt16 :=
  ofNumber 2 UInt16.toNat UInt16.ofNat (fun value => value.toNat_lt) (fun _ => UInt16.ofNat_toNat)

def u32 : Layout UInt32 :=
  ofNumber 4 UInt32.toNat UInt32.ofNat (fun value => value.toNat_lt) (fun _ => UInt32.ofNat_toNat)

def u64 : Layout UInt64 :=
  ofNumber 8 UInt64.toNat UInt64.ofNat (fun value => value.toNat_lt) (fun _ => UInt64.ofNat_toNat)

def cast (layout : Layout α) (into : β → α) (back : α → β)
    (back_into : ∀ value, back (into value) = value) : Layout β where
  size := layout.size
  encode value := layout.encode (into value)
  decode bytes := back (layout.decode bytes)
  encode_length value := layout.encode_length (into value)
  decode_encode value := by rw [layout.decode_encode, back_into]

def i32 : Layout Int32 := u32.cast Int32.toUInt32 UInt32.toInt32 fun _ => rfl

def i64 : Layout Int64 := u64.cast Int64.toUInt64 UInt64.toInt64 fun _ => rfl

theorem take_encode (layout : Layout α) (value : α) (rest : Bytes) :
    (layout.encode value ++ rest).take layout.size = layout.encode value := by
  rw [← layout.encode_length value, List.take_left]

theorem drop_encode (layout : Layout α) (value : α) (rest : Bytes) :
    (layout.encode value ++ rest).drop layout.size = rest := by
  rw [← layout.encode_length value, List.drop_left]

def prod (first : Layout α) (second : Layout β) : Layout (α × β) where
  size := first.size + second.size
  encode value := first.encode value.1 ++ second.encode value.2
  decode bytes := (first.decode (bytes.take first.size), second.decode (bytes.drop first.size))
  encode_length value := by simp
  decode_encode value := by
    rw [take_encode, drop_encode, first.decode_encode, second.decode_encode]

def encodeArray (layout : Layout α) (values : List α) : Bytes := values.flatMap layout.encode

def decodeArray (layout : Layout α) : Nat → Bytes → List α
  | 0, _ => []
  | count + 1, bytes =>
    layout.decode (bytes.take layout.size) :: decodeArray layout count (bytes.drop layout.size)

@[simp] theorem decodeArray_length (layout : Layout α) (count : Nat) (bytes : Bytes) :
    (layout.decodeArray count bytes).length = count := by
  induction count generalizing bytes with
  | zero => rfl
  | succ count ih => rw [decodeArray, List.length_cons, ih]

theorem encodeArray_length (layout : Layout α) (values : List α) :
    (layout.encodeArray values).length = layout.size * values.length := by
  induction values with
  | nil => rfl
  | cons value values ih =>
    rw [encodeArray, List.flatMap_cons, List.length_append, layout.encode_length,
      ← encodeArray, ih, List.length_cons, Nat.mul_succ, Nat.add_comm]

theorem decodeArray_encodeArray (layout : Layout α) (values : List α) (rest : Bytes) :
    layout.decodeArray values.length (layout.encodeArray values ++ rest) = values := by
  induction values with
  | nil => rfl
  | cons value values ih =>
    have shape : layout.encodeArray (value :: values) ++ rest =
        layout.encode value ++ (layout.encodeArray values ++ rest) := by
      rw [encodeArray, List.flatMap_cons, List.append_assoc]
      rfl
    rw [shape, List.length_cons, decodeArray, take_encode, drop_encode, ih, layout.decode_encode]

end Layout

end Tvm.Lib
