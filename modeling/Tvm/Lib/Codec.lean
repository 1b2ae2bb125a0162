import Tvm.Lib.Memory

/-!
# Codecs over byte streams

A codec writes a value and reads it back from the front of a stream, whatever follows.  Readers
compose: what a sequence of readers makes of a concatenation is what each makes of its part.
-/

namespace Tvm.Lib

abbrev Reader := StateT Bytes Option

namespace Reader

variable {α β : Type}

/-- The reader takes exactly `bytes` from the front of any stream and returns `x`. -/
def Reads (reader : Reader α) (bytes : Bytes) (x : α) : Prop :=
  ∀ rest, reader (bytes ++ rest) = some (x, rest)

def check (p : Prop) [Decidable p] : Reader Unit :=
  fun stream => if p then some ((), stream) else none

def ofOption (x : Option α) : Reader α :=
  fun stream => x.map fun found => (found, stream)

def many (reader : Reader α) : Nat → Reader (List α)
  | 0 => pure []
  | count + 1 => do
      let x ← reader
      let rest ← many reader count
      pure (x :: rest)

/-- `count` bytes, or what is left of the stream. -/
def upTo (count : Nat) : Reader Bytes :=
  fun stream => some (stream.take count, stream.drop count)

theorem Reads.pure (x : α) : Reads (Pure.pure x) [] x :=
  fun _ => rfl

theorem Reads.bind {reader : Reader α} {k : α → Reader β} {bytes bytes' : Bytes} {x : α} {y : β}
    (first : reader.Reads bytes x) (rest : (k x).Reads bytes' y) :
    (reader >>= k).Reads (bytes ++ bytes') y := by
  intro stream
  change (reader ((bytes ++ bytes') ++ stream)).bind (fun found => k found.1 found.2) = _
  rw [List.append_assoc, first, Option.bind_some, rest]

theorem Reads.map {reader : Reader α} {f : α → β} {bytes : Bytes} {x : α}
    (first : reader.Reads bytes x) :
    (reader >>= fun found => Pure.pure (f found)).Reads bytes (f x) := by
  have last : (Pure.pure (f x) : Reader β).Reads [] (f x) := Reads.pure (f x)
  have both := first.bind (k := fun found => Pure.pure (f found)) last
  rwa [List.append_nil] at both

theorem check_bind {p : Prop} [Decidable p] (holds : p) (k : Unit → Reader α) :
    (check p >>= k) = k () := by
  funext stream
  change (check p stream).bind _ = _
  rw [check, if_pos holds]
  rfl

theorem ofOption_bind {x : Option α} {found : α} (there : x = some found) (k : α → Reader β) :
    (ofOption x >>= k) = k found := by
  rw [there]
  rfl

theorem many_reads {γ : Type} (reader : Reader β) (write : γ → Bytes) (read : γ → β) {xs : List γ}
    (each : ∀ x ∈ xs, reader.Reads (write x) (read x)) :
    (many reader xs.length).Reads (xs.flatMap write) (xs.map read) := by
  induction xs with
  | nil => exact Reads.pure []
  | cons x rest ih =>
    obtain ⟨first, others⟩ := List.forall_mem_cons.mp each
    exact first.bind (ih others).map

end Reader

structure Codec (α : Type) where
  write : α → Bytes
  read : Reader α
  reads : ∀ x, read.Reads (write x) x

namespace Codec

variable {α β : Type}

def pair (first : Codec α) (second : Codec β) : Codec (α × β) where
  write x := first.write x.1 ++ second.write x.2
  read := do
    let x ← first.read
    let y ← second.read
    pure (x, y)
  reads x := (first.reads x.1).bind (second.reads x.2).map

def via (codec : Codec β) (f : α → β) (g : β → α) (inverse : ∀ x, g (f x) = x) : Codec α where
  write x := codec.write (f x)
  read := do
    let y ← codec.read
    pure (g y)
  reads x := by
    have read := (codec.reads (f x)).map (f := g)
    rwa [inverse] at read

/-- Machine words, least significant byte first. -/
def word (width : Nat) : Codec (BitVec (8 * width)) where
  write x := leBytes width x.toNat
  read stream := if width ≤ stream.length
    then some (BitVec.ofNat _ (leValue (stream.take width)), stream.drop width) else none
  reads x rest := by
    have bound : x.toNat < 256 ^ width := by
      have small := x.isLt
      rwa [pow_mul] at small
    have length := leBytes_length width x.toNat
    have long : width ≤ (leBytes width x.toNat ++ rest).length := by
      rw [List.length_append]
      omega
    simp only [long, if_true, List.take_left' length, List.drop_left' length, leValue_leBytes bound,
      BitVec.ofNat_toNat, BitVec.setWidth_eq]

def byte : Codec UInt8 where
  write x := [x]
  read stream := match stream with
    | x :: rest => some (x, rest)
    | [] => none
  reads _ _ := rfl

def unary : Codec Nat where
  write n := List.replicate n 1 ++ [0]
  read stream := match stream.dropWhile (· == 1) with
    | _ :: rest => some ((stream.takeWhile (· == 1)).length, rest)
    | [] => none
  reads n rest := by
    have ones : ∀ b ∈ List.replicate n (1 : UInt8), (b == 1) = true := fun b member => by
      rw [List.eq_of_mem_replicate member]
      rfl
    dsimp only
    rw [List.append_assoc, List.dropWhile_append_of_pos ones, List.takeWhile_append_of_pos ones]
    simp

/-- The number of elements of a container in eight bytes.  No container has `2 ^ 64 - 1` elements,
so that word stands for the numbers that do not fit. -/
def count : Codec Nat where
  write n :=
    if n < 2 ^ 64 - 1 then (word 8).write (BitVec.ofNat 64 n)
    else (word 8).write (BitVec.allOnes 64) ++ unary.write n
  read := do
    let n ← (word 8).read
    if n = BitVec.allOnes 64 then unary.read else pure n.toNat
  reads n := by
    split
    · rename_i small
      have value : (BitVec.ofNat 64 n).toNat = n := by
        rw [BitVec.toNat_ofNat, Nat.mod_eq_of_lt (by omega)]
      have plain : BitVec.ofNat 64 n ≠ BitVec.allOnes 64 := by
        intro same
        rw [same, BitVec.toNat_allOnes] at value
        omega
      have read := (word 8).reads (BitVec.ofNat 64 n)
      have last : (if BitVec.ofNat 64 n = BitVec.allOnes 64 then unary.read
          else pure (BitVec.ofNat 64 n).toNat).Reads [] n := by
        rw [if_neg plain, value]
        exact Reader.Reads.pure n
      have both := read.bind (k := fun n => if n = BitVec.allOnes 64 then unary.read
        else pure n.toNat) last
      rwa [List.append_nil] at both
    · have last : (if BitVec.allOnes 64 = BitVec.allOnes 64 then unary.read
          else pure (BitVec.allOnes 64).toNat).Reads (unary.write n) n := by
        rw [if_pos rfl]
        exact unary.reads n
      exact ((word 8).reads (BitVec.allOnes 64)).bind last

/-- A container: the number of elements, then the elements. -/
def list (codec : Codec α) : Codec (List α) where
  write xs := count.write xs.length ++ xs.flatMap codec.write
  read := do
    let n ← count.read
    Reader.many codec.read n
  reads xs := by
    have elements := Reader.many_reads codec.read codec.write id fun x (_ : x ∈ xs) => codec.reads x
    rw [List.map_id] at elements
    exact (count.reads xs.length).bind elements

end Codec

end Tvm.Lib
