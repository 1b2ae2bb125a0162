import Mathlib

/-!
# Base 64

Three bytes are four digits of six bits; the last digits are padded.  The digits are written with the
symbols of an alphabet.
-/

namespace Tvm.Lib

universe u

structure Base64Alphabet (χ : Type u) where
  symbol : ℕ → χ
  pad : χ

namespace Base64Alphabet

variable {χ : Type u} (alphabet : Base64Alphabet χ)

def group (a b c : UInt8) : List χ :=
  [alphabet.symbol (a.toNat / 4), alphabet.symbol (a.toNat % 4 * 16 + b.toNat / 16),
    alphabet.symbol (b.toNat % 16 * 4 + c.toNat / 64), alphabet.symbol (c.toNat % 64)]

def encode : List UInt8 → List χ
  | [] => []
  | [a] =>
    [alphabet.symbol (a.toNat / 4), alphabet.symbol (a.toNat % 4 * 16), alphabet.pad,
      alphabet.pad]
  | [a, b] =>
    [alphabet.symbol (a.toNat / 4), alphabet.symbol (a.toNat % 4 * 16 + b.toNat / 16),
      alphabet.symbol (b.toNat % 16 * 4), alphabet.pad]
  | a :: b :: c :: rest => alphabet.group a b c ++ encode rest

theorem encode_append {front : List UInt8} (whole : 3 ∣ front.length) (back : List UInt8) :
    alphabet.encode (front ++ back) = alphabet.encode front ++ alphabet.encode back := by
  match front with
  | [] => rfl
  | [a] => exact absurd whole (by decide : ¬3 ∣ 1)
  | [a, b] => exact absurd whole (by decide : ¬3 ∣ 2)
  | a :: b :: c :: rest =>
    have restWhole : 3 ∣ rest.length := (Nat.dvd_add_left (dvd_refl 3)).mp whole
    rw [List.cons_append, List.cons_append, List.cons_append, encode, encode,
      encode_append restWhole, List.append_assoc]

end Base64Alphabet

theorem byte_shiftRight_two (a : UInt8) : a.toNat >>> 2 = a.toNat / 4 :=
  Nat.shiftRight_eq_div_pow _ 2

theorem and_sixty_three (n : ℕ) : n &&& 0x3F = n % 64 :=
  Nat.and_two_pow_sub_one_eq_mod n 6

theorem and_two_hundred_fifty_five (n : ℕ) : n &&& 0xFF = n % 256 :=
  Nat.and_two_pow_sub_one_eq_mod n 8

theorem shiftLeft_or {low : ℕ} (high width : ℕ) (small : low < 2 ^ width) :
    (high <<< width) ||| low = high * 2 ^ width + low := by
  rw [← Nat.shiftLeft_add_eq_or_of_lt small, Nat.shiftLeft_eq]

theorem second_digit (a b : UInt8) :
    ((a.toNat <<< 4) ||| (b.toNat >>> 4)) &&& 0x3F = a.toNat % 4 * 16 + b.toNat / 16 := by
  have smallA := a.toNat_lt
  have smallB := b.toNat_lt
  rw [Nat.shiftRight_eq_div_pow, shiftLeft_or _ _ (by omega), and_sixty_three]
  omega

theorem third_digit (b c : UInt8) :
    ((b.toNat <<< 2) ||| (c.toNat >>> 6)) &&& 0x3F = b.toNat % 16 * 4 + c.toNat / 64 := by
  have smallB := b.toNat_lt
  have smallC := c.toNat_lt
  rw [Nat.shiftRight_eq_div_pow, shiftLeft_or _ _ (by omega), and_sixty_three]
  omega

section Join

variable {first second third fourth : ℕ}

theorem join_two (small : second < 64) :
    (first <<< 18) ||| (second <<< 12) = (first * 64 + second) * 2 ^ 12 := by
  rw [shiftLeft_or first 18 (by rw [Nat.shiftLeft_eq]; omega), Nat.shiftLeft_eq]
  omega

theorem join_three (small : third < 64) :
    ((first * 64 + second) * 2 ^ 12) ||| (third <<< 6) =
      ((first * 64 + second) * 64 + third) * 2 ^ 6 := by
  rw [← Nat.shiftLeft_eq, shiftLeft_or _ 12 (by rw [Nat.shiftLeft_eq]; omega), Nat.shiftLeft_eq]
  omega

theorem join_four (small : fourth < 64) :
    (((first * 64 + second) * 64 + third) * 2 ^ 6) ||| fourth =
      ((first * 64 + second) * 64 + third) * 64 + fourth := by
  rw [← Nat.shiftLeft_eq, shiftLeft_or _ 6 small, Nat.shiftLeft_eq]

end Join

end Tvm.Lib
