import Mathlib.Data.Nat.Digits.Defs
import Mathlib.Data.List.TakeWhile
import Mathlib.Tactic.Linarith

/-!
# Decimal numbers

Numbers as strings of bytes, the way `std::to_string` writes them and `std::stoll` reads them.
-/

namespace Tvm.Lib

def digitByte (digit : Nat) : UInt8 :=
  UInt8.ofNat (48 + digit)

def isDigit (b : UInt8) : Bool :=
  48 ≤ b.toNat && b.toNat ≤ 57

def isSpace (b : UInt8) : Bool :=
  b.toNat = 32 || (9 ≤ b.toNat && b.toNat ≤ 13)

/-- The digits of a natural number, most significant first. -/
def decimal (n : Nat) : List UInt8 :=
  if n = 0 then [48] else (Nat.digits 10 n).reverse.map digitByte

def ofDigitBytes (bytes : List UInt8) : Nat :=
  bytes.foldl (fun n b => 10 * n + (b.toNat - 48)) 0

/-- `std::to_string` of a signed number. -/
def signedDecimal (n : Int) : List UInt8 :=
  if n < 0 then 45 :: decimal n.natAbs else decimal n.natAbs

def leadingNumber (bytes : List UInt8) : Option Nat :=
  match bytes.takeWhile isDigit with
  | [] => none
  | digits => some (ofDigitBytes digits)

def signedNumber : List UInt8 → Option Int
  | 45 :: digits => (leadingNumber digits).map Int.negOfNat
  | 43 :: digits => (leadingNumber digits).map Int.ofNat
  | digits => (leadingNumber digits).map Int.ofNat

/-- `std::stoll`: `none` where there is no number and where it is out of range. -/
def stoll (bytes : List UInt8) : Option Int :=
  (signedNumber (bytes.dropWhile isSpace)).bind fun n =>
    if -2 ^ 63 ≤ n ∧ n < 2 ^ 63 then some n else none

theorem digitByte_toNat {digit : Nat} (small : digit < 10) : (digitByte digit).toNat = 48 + digit := by
  rw [digitByte, UInt8.toNat_ofNat']
  omega

theorem ofDigitBytes_digits (digits : List Nat) (small : ∀ d ∈ digits, d < 10) :
    ofDigitBytes (digits.reverse.map digitByte) = Nat.ofDigits 10 digits := by
  rw [ofDigitBytes, List.foldl_map, List.foldl_reverse]
  induction digits with
  | nil => rfl
  | cons d rest ih =>
    obtain ⟨first, others⟩ := List.forall_mem_cons.mp small
    rw [List.foldr_cons, ih others, Nat.ofDigits_cons, digitByte_toNat first]
    simp
    omega

theorem ofDigitBytes_decimal (n : Nat) : ofDigitBytes (decimal n) = n := by
  rw [decimal]
  split
  · rename_i zero
    rw [zero]
    rfl
  · rw [ofDigitBytes_digits _ fun d => Nat.digits_lt_base (by norm_num), Nat.ofDigits_digits]

theorem decimal_injective : Function.Injective decimal :=
  Function.LeftInverse.injective ofDigitBytes_decimal

theorem isDigit_digitByte {digit : Nat} (small : digit < 10) : isDigit (digitByte digit) = true := by
  simp only [isDigit, digitByte_toNat small, Bool.and_eq_true, decide_eq_true_eq]
  omega

theorem isDigit_of_mem_decimal {n : Nat} {b : UInt8} (member : b ∈ decimal n) : isDigit b = true := by
  rw [decimal] at member
  split at member
  · rw [List.mem_singleton.mp member]
    rfl
  · obtain ⟨digit, digitMember, rfl⟩ := List.mem_map.mp member
    exact isDigit_digitByte (Nat.digits_lt_base (by norm_num) (List.mem_reverse.mp digitMember))

theorem isSpace_of_isDigit {b : UInt8} (digit : isDigit b = true) : isSpace b = false := by
  simp only [isDigit, Bool.and_eq_true, decide_eq_true_eq] at digit
  simp only [isSpace, Bool.or_eq_false_iff, Bool.and_eq_false_iff, decide_eq_false_iff_not]
  omega

theorem decimal_ne_nil (n : Nat) : decimal n ≠ [] := by
  rw [decimal]
  split
  · exact List.cons_ne_nil _ _
  · rename_i nonzero
    simpa [Nat.digits_eq_nil_iff_eq_zero] using nonzero

theorem decimal_cons (n : Nat) : ∃ b rest, decimal n = b :: rest ∧ isDigit b = true := by
  obtain ⟨b, rest, isCons⟩ := List.exists_cons_of_ne_nil (decimal_ne_nil n)
  exact ⟨b, rest, isCons, isDigit_of_mem_decimal (isCons ▸ List.mem_cons_self)⟩

theorem leadingNumber_decimal (n : Nat) : leadingNumber (decimal n) = some n := by
  have whole : (decimal n).takeWhile isDigit = decimal n :=
    List.takeWhile_eq_self_iff.mpr fun _ => isDigit_of_mem_decimal
  rw [leadingNumber, whole]
  split
  · exact absurd ‹_› (decimal_ne_nil n)
  · rw [ofDigitBytes_decimal]

theorem signedNumber_signedDecimal (n : Int) : signedNumber (signedDecimal n) = some n := by
  rw [signedDecimal]
  split
  · rw [signedNumber, leadingNumber_decimal, Option.map_some, Int.negOfNat_eq, Option.some.injEq,
      Int.ofNat_eq_natCast]
    omega
  · obtain ⟨b, rest, isCons, digit⟩ := decimal_cons n.natAbs
    have number := leadingNumber_decimal n.natAbs
    rw [signedNumber.eq_def, isCons]
    split
    · rename_i isMinus
      cases isMinus
      cases digit
    · rename_i isPlus
      cases isPlus
      cases digit
    · rw [← isCons, number, Option.map_some, Int.ofNat_eq_natCast, Option.some.injEq]
      omega

theorem signedDecimal_front (n : Int) :
    ∃ b rest, signedDecimal n = b :: rest ∧ isSpace b = false := by
  rw [signedDecimal]
  split
  · exact ⟨45, _, rfl, rfl⟩
  · obtain ⟨b, rest, isCons, digit⟩ := decimal_cons n.natAbs
    exact ⟨b, rest, isCons, isSpace_of_isDigit digit⟩

/-- What is written is read back, in the range of a `long long`. -/
theorem stoll_signedDecimal {n : Int} (lower : -2 ^ 63 ≤ n) (upper : n < 2 ^ 63) :
    stoll (signedDecimal n) = some n := by
  obtain ⟨b, rest, isCons, notSpace⟩ := signedDecimal_front n
  have trimmed : (signedDecimal n).dropWhile isSpace = signedDecimal n := by
    rw [isCons, List.dropWhile_cons_of_neg (by simp [notSpace])]
  rw [stoll, trimmed, signedNumber_signedDecimal, Option.bind_some, if_pos ⟨lower, upper⟩]

end Tvm.Lib
