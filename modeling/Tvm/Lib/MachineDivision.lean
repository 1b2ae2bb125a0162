import Mathlib

/-!
# Division at machine width

Signed and unsigned integers of one width as bit vectors: the truncated quotient and remainder, the
arithmetic or logical shift and the mask, each with the integer it stands for, and how the quotient
that rounds down is reached from the one that rounds towards zero.
-/

namespace Tvm.Lib

variable {w : Nat} {signed : Bool} {x y : BitVec w} {n : Int}

def toInteger (signed : Bool) (x : BitVec w) : Int :=
  if signed then x.toInt else x.toNat

def truncDiv (signed : Bool) (x y : BitVec w) : BitVec w :=
  if signed then x.sdiv y else x / y

def truncMod (signed : Bool) (x y : BitVec w) : BitVec w :=
  if signed then x.srem y else x % y

def shiftRight (signed : Bool) (x : BitVec w) (amount : Nat) : BitVec w :=
  if signed then x.sshiftRight amount else x >>> amount

/-- The divisor is not zero and the quotient does not overflow. -/
def Divides (signed : Bool) (x y : BitVec w) : Prop :=
  y ≠ 0#w ∧ ¬(signed = true ∧ x = BitVec.intMin w ∧ y = -1#w)

instance (signed : Bool) (x y : BitVec w) : Decidable (Divides signed x y) :=
  inferInstanceAs (Decidable (_ ∧ _))

def InRange (signed : Bool) (w : Nat) (n : Int) : Prop :=
  if signed then -2 ^ (w - 1) ≤ n ∧ n < 2 ^ (w - 1) else 0 ≤ n ∧ n < 2 ^ w

theorem toInteger_injective (same : toInteger signed x = toInteger signed y) : x = y := by
  cases signed with
  | true => exact BitVec.eq_of_toInt_eq same
  | false => exact BitVec.eq_of_toNat_eq (Int.ofNat.inj same)

theorem toInteger_inRange (signed : Bool) (x : BitVec w) : InRange signed w (toInteger signed x) := by
  cases signed with
  | true => exact ⟨BitVec.le_toInt x, BitVec.toInt_lt⟩
  | false =>
    have bound : (x.toNat : Int) < 2 ^ w := by exact_mod_cast x.isLt
    exact ⟨Int.natCast_nonneg _, bound⟩

theorem toInteger_ofInt (positive : 0 < w) (range : InRange signed w n) :
    toInteger signed (BitVec.ofInt w n) = n := by
  cases signed with
  | true => exact BitVec.toInt_ofInt_eq_self positive range.1 range.2
  | false =>
    obtain ⟨low, high⟩ := range
    have power : ((2 ^ w : Nat) : Int) = 2 ^ w := by push_cast; rfl
    rw [toInteger, if_neg Bool.false_ne_true, BitVec.toNat_ofInt, power,
      Int.toNat_of_nonneg (Int.emod_nonneg _ (by positivity)), Int.emod_eq_of_lt low high]

theorem ofInt_toInteger (signed : Bool) (x : BitVec w) :
    BitVec.ofInt w (toInteger signed x) = x := by
  cases signed with
  | true => exact BitVec.ofInt_toInt
  | false =>
    rw [toInteger, if_neg Bool.false_ne_true, BitVec.ofInt_natCast, BitVec.ofNat_toNat,
      BitVec.setWidth_eq]

theorem toInteger_eq_zero : toInteger signed x = 0 ↔ x = 0#w := by
  constructor
  · intro zero
    rw [← ofInt_toInteger signed x, zero]
    rfl
  · rintro rfl
    cases signed <;> simp [toInteger]

theorem toInteger_truncDiv (divides : Divides signed x y) :
    toInteger signed (truncDiv signed x y) =
      (toInteger signed x).tdiv (toInteger signed y) := by
  cases signed with
  | true =>
    apply BitVec.toInt_sdiv_of_ne_or_ne
    by_contra both
    push Not at both
    exact divides.2 ⟨rfl, both⟩
  | false =>
    simp only [toInteger, truncDiv, Bool.false_eq_true, if_false, BitVec.toNat_udiv]
    rfl

theorem toInteger_truncMod (signed : Bool) (x y : BitVec w) :
    toInteger signed (truncMod signed x y) =
      (toInteger signed x).tmod (toInteger signed y) := by
  cases signed with
  | true => exact BitVec.toInt_srem x y
  | false =>
    simp only [toInteger, truncMod, Bool.false_eq_true, if_false, BitVec.toNat_umod]
    rfl

theorem toInteger_shiftRight (signed : Bool) (x : BitVec w) (amount : Nat) :
    toInteger signed (shiftRight signed x amount) = (toInteger signed x).fdiv (2 ^ amount) := by
  cases signed with
  | true =>
    simp only [toInteger, shiftRight, if_true, BitVec.toInt_sshiftRight]
    rw [Int.shiftRight_eq_div_pow, Int.fdiv_eq_ediv_of_nonneg _ (by positivity)]
    push_cast
    rfl
  | false =>
    simp only [toInteger, shiftRight, Bool.false_eq_true, if_false, BitVec.toNat_ushiftRight]
    rw [Nat.shiftRight_eq_div_pow, Int.fdiv_eq_ediv_of_nonneg _ (by positivity)]
    push_cast
    rfl

def floorDiv (signed : Bool) (x y : BitVec w) : BitVec w :=
  BitVec.ofInt w ((toInteger signed x).fdiv (toInteger signed y))

def floorMod (signed : Bool) (x y : BitVec w) : BitVec w :=
  BitVec.ofInt w ((toInteger signed x).fmod (toInteger signed y))

def SignsAgree (divisor remainder : Int) : Prop :=
  0 ≤ divisor ∧ 0 ≤ remainder ∨ divisor < 0 ∧ remainder ≤ 0

instance (divisor remainder : Int) : Decidable (SignsAgree divisor remainder) :=
  inferInstanceAs (Decidable (_ ∨ _))

section Integers

variable {a b : Int}

theorem tmod_bounds (nonzero : b ≠ 0) (a : Int) : -|b| < a.tmod b ∧ a.tmod b < |b| := by
  rcases lt_or_gt_of_ne nonzero with negative | positive
  · rw [abs_of_neg negative, ← Int.tmod_neg]
    have positive : 0 < -b := by omega
    exact ⟨Int.lt_tmod_of_pos a positive, Int.tmod_lt_of_pos a positive⟩
  · rw [abs_of_pos positive]
    exact ⟨Int.lt_tmod_of_pos a positive, Int.tmod_lt_of_pos a positive⟩

theorem floor_eq_trunc (nonzero : b ≠ 0) (agree : SignsAgree b (a.tmod b)) :
    a.fdiv b = a.tdiv b ∧ a.fmod b = a.tmod b := by
  have whole := Int.tmod_add_mul_tdiv a b
  obtain ⟨low, high⟩ := tmod_bounds nonzero a
  rcases agree with ⟨positive, remainder⟩ | ⟨negative, remainder⟩
  · rw [abs_of_nonneg positive] at high
    exact (Int.fdiv_fmod_unique (by omega)).mpr ⟨whole, remainder, high⟩
  · rw [abs_of_neg negative] at low
    exact (Int.fdiv_fmod_unique' negative).mpr ⟨whole, by omega, remainder⟩

theorem floor_eq_trunc_sub (nonzero : b ≠ 0) (differ : ¬SignsAgree b (a.tmod b)) :
    a.fdiv b = a.tdiv b - 1 ∧ a.fmod b = a.tmod b + b := by
  have whole := Int.tmod_add_mul_tdiv a b
  have shifted : a.tmod b + b + b * (a.tdiv b - 1) = a := by linarith
  obtain ⟨low, high⟩ := tmod_bounds nonzero a
  rw [SignsAgree] at differ
  rcases lt_or_gt_of_ne nonzero with negative | positive
  · rw [abs_of_neg negative] at high
    exact (Int.fdiv_fmod_unique' negative).mpr ⟨shifted, by omega, by omega⟩
  · rw [abs_of_pos positive] at low
    exact (Int.fdiv_fmod_unique positive).mpr ⟨shifted, by omega, by omega⟩

theorem le_fdiv_of_nonpos (nonpos : a ≤ 0) (positive : 0 < b) : a ≤ a.fdiv b := by
  rw [Int.fdiv_eq_ediv_of_nonneg a positive.le]
  apply Int.le_ediv_of_mul_le positive
  nlinarith

end Integers

section Machine

theorem Divides.nonzero (divides : Divides signed x y) : toInteger signed y ≠ 0 :=
  fun zero => divides.1 (toInteger_eq_zero.mp zero)

theorem Divides.floor_cases (divides : Divides signed x y) :
    SignsAgree (toInteger signed y) (toInteger signed (truncMod signed x y)) ∧
        (toInteger signed x).fdiv (toInteger signed y) = toInteger signed (truncDiv signed x y) ∧
        (toInteger signed x).fmod (toInteger signed y) = toInteger signed (truncMod signed x y) ∨
      ¬SignsAgree (toInteger signed y) (toInteger signed (truncMod signed x y)) ∧
        (toInteger signed x).fdiv (toInteger signed y) =
          toInteger signed (truncDiv signed x y) - 1 ∧
        (toInteger signed x).fmod (toInteger signed y) =
          toInteger signed (truncMod signed x y) + toInteger signed y := by
  rw [toInteger_truncDiv divides, toInteger_truncMod]
  by_cases agree : SignsAgree (toInteger signed y) ((toInteger signed x).tmod (toInteger signed y))
  · exact Or.inl ⟨agree, floor_eq_trunc divides.nonzero agree⟩
  · exact Or.inr ⟨agree, floor_eq_trunc_sub divides.nonzero agree⟩

theorem floorDiv_eq (divides : Divides signed x y) : floorDiv signed x y =
    if SignsAgree (toInteger signed y) (toInteger signed (truncMod signed x y))
    then truncDiv signed x y else truncDiv signed x y - 1#w := by
  rw [floorDiv]
  rcases divides.floor_cases with ⟨agree, quotient, -⟩ | ⟨differ, quotient, -⟩
  · rw [if_pos agree, quotient, ofInt_toInteger]
  · rw [if_neg differ, quotient, sub_eq_add_neg, BitVec.ofInt_add, BitVec.ofInt_neg,
      ofInt_toInteger, BitVec.sub_eq_add_neg]
    rfl

theorem floorMod_eq (divides : Divides signed x y) : floorMod signed x y =
    if SignsAgree (toInteger signed y) (toInteger signed (truncMod signed x y))
    then truncMod signed x y else truncMod signed x y + y := by
  rw [floorMod]
  rcases divides.floor_cases with ⟨agree, -, remainder⟩ | ⟨differ, -, remainder⟩
  · rw [if_pos agree, remainder, ofInt_toInteger]
  · rw [if_neg differ, remainder, BitVec.ofInt_add, ofInt_toInteger, ofInt_toInteger]

theorem signsAgree_unsigned (x y : BitVec w) :
    SignsAgree (toInteger false y) (toInteger false (truncMod false x y)) :=
  Or.inl ⟨Int.natCast_nonneg _, Int.natCast_nonneg _⟩

theorem fdiv_inRange (divides : Divides signed x y) :
    InRange signed w ((toInteger signed x).fdiv (toInteger signed y)) := by
  rcases divides.floor_cases with ⟨-, quotient, -⟩ | ⟨differ, quotient, -⟩
  · rw [quotient]
    exact toInteger_inRange signed _
  · have truncated := toInteger_inRange signed (truncDiv signed x y)
    have dividend := toInteger_inRange signed x
    cases signed with
    | false => exact absurd (signsAgree_unsigned x y) differ
    | true =>
      rw [toInteger_truncMod, SignsAgree] at differ
      rw [InRange, if_pos rfl] at truncated dividend ⊢
      refine ⟨?_, by omega⟩
      rcases lt_or_gt_of_ne divides.nonzero with negative | positive
      · have above : 0 ≤ toInteger true x := by
          by_contra below
          have remainder := Int.tmod_nonneg (a := -toInteger true x) (toInteger true y) (by omega)
          rw [Int.neg_tmod] at remainder
          omega
        have bound := le_fdiv_of_nonpos (a := -toInteger true x) (b := -toInteger true y)
          (by omega) (by omega)
        rw [Int.neg_fdiv_neg] at bound
        omega
      · have below : toInteger true x ≤ 0 := by
          by_contra above
          have remainder := Int.tmod_nonneg (a := toInteger true x) (toInteger true y) (by omega)
          omega
        have bound := le_fdiv_of_nonpos below positive
        omega

theorem fmod_inRange (divides : Divides signed x y) :
    InRange signed w ((toInteger signed x).fmod (toInteger signed y)) := by
  rcases divides.floor_cases with ⟨-, -, remainder⟩ | ⟨differ, -, remainder⟩
  · rw [remainder]
    exact toInteger_inRange signed _
  · have truncated := toInteger_inRange signed (truncMod signed x y)
    have divisor := toInteger_inRange signed y
    cases signed with
    | false => exact absurd (signsAgree_unsigned x y) differ
    | true =>
      rw [SignsAgree] at differ
      rw [remainder]
      rw [InRange, if_pos rfl] at truncated divisor ⊢
      omega

theorem toInteger_floorDiv (positive : 0 < w) (divides : Divides signed x y) :
    toInteger signed (floorDiv signed x y) = (toInteger signed x).fdiv (toInteger signed y) :=
  toInteger_ofInt positive (fdiv_inRange divides)

theorem toInteger_floorMod (positive : 0 < w) (divides : Divides signed x y) :
    toInteger signed (floorMod signed x y) = (toInteger signed x).fmod (toInteger signed y) :=
  toInteger_ofInt positive (fmod_inRange divides)

theorem shiftRight_eq_floorDiv {amount : Nat} (power : toInteger signed y = 2 ^ amount) :
    shiftRight signed x amount = floorDiv signed x y := by
  rw [floorDiv, power, ← toInteger_shiftRight, ofInt_toInteger]

theorem and_mask_eq_floorMod {amount : Nat} (power : toInteger signed y = 2 ^ amount)
    (small : amount < w) :
    x &&& BitVec.ofInt w (2 ^ amount - 1) = floorMod signed x y := by
  have whole : ∃ k : Int, toInteger signed x = x.toNat + 2 ^ w * k := by
    cases signed with
    | true =>
      rw [toInteger, if_pos rfl, BitVec.toInt_eq_toNat_cond]
      split
      · exact ⟨0, by ring⟩
      · exact ⟨-1, by push_cast; ring⟩
    | false => exact ⟨0, by rw [mul_zero, add_zero]; rfl⟩
  obtain ⟨k, split⟩ := whole
  have remainder : (toInteger signed x).fmod (toInteger signed y) = (x.toNat % 2 ^ amount : Nat) := by
    obtain ⟨further, width⟩ := Nat.exists_eq_add_of_le small.le
    have multiple : (2 : Int) ^ w * k = 2 ^ amount * (2 ^ further * k) := by
      rw [width, pow_add, mul_assoc]
    rw [power, split, multiple, Int.add_mul_fmod_self_left,
      Int.fmod_eq_emod_of_nonneg _ (by positivity)]
    push_cast
    rfl
  have mask : BitVec.ofInt w (2 ^ amount - 1) = BitVec.ofNat w (2 ^ amount - 1) := by
    have natural : (2 : Int) ^ amount - 1 = ((2 ^ amount - 1 : Nat) : Int) := by
      push_cast [Nat.one_le_two_pow]
      rfl
    rw [natural, BitVec.ofInt_natCast]
  have masked : 2 ^ amount - 1 < 2 ^ w :=
    (Nat.sub_lt (by positivity) one_pos).trans (Nat.pow_lt_pow_right one_lt_two small)
  rw [floorMod, remainder, BitVec.ofInt_natCast, mask]
  apply BitVec.eq_of_toNat_eq
  rw [BitVec.toNat_and, BitVec.toNat_ofNat, Nat.mod_eq_of_lt masked, Nat.and_two_pow_sub_one_eq_mod,
    BitVec.toNat_ofNat, Nat.mod_eq_of_lt ((Nat.mod_le _ _).trans_lt x.isLt)]

theorem shiftRight_sign (x : BitVec w) :
    shiftRight true x (w - 1) = if 0 ≤ toInteger true x then 0#w else -1#w := by
  have range := toInteger_inRange true x
  rw [InRange, if_pos rfl] at range
  have quotient := toInteger_shiftRight true x (w - 1)
  rw [Int.fdiv_eq_ediv_of_nonneg _ (by positivity)] at quotient
  rw [← ofInt_toInteger true (shiftRight true x (w - 1)), quotient]
  split
  · rename_i nonneg
    rw [Int.ediv_eq_zero_of_lt nonneg range.2]
    rfl
  · rename_i negative
    have minus : toInteger true x / 2 ^ (w - 1) = -1 := by
      rw [Int.ediv_eq_iff_of_pos (by positivity)]
      constructor
      · linarith [range.1]
      · linarith
    rw [minus, BitVec.ofInt_neg]
    rfl

theorem signsAgree_iff (nonneg : 0 ≤ toInteger signed y) (remainder : Int) :
    SignsAgree (toInteger signed y) remainder ↔ 0 ≤ remainder := by
  rw [SignsAgree]
  omega

theorem truncDiv_add_sign (divides : Divides true x y)
    (nonneg : 0 ≤ toInteger true y) :
    truncDiv true x y + shiftRight true (truncMod true x y) (w - 1) = floorDiv true x y := by
  rw [floorDiv_eq divides, shiftRight_sign]
  by_cases agree : SignsAgree (toInteger true y) (toInteger true (truncMod true x y))
  · rw [if_pos agree, if_pos ((signsAgree_iff nonneg _).mp agree), BitVec.add_zero]
  · rw [if_neg agree, if_neg ((signsAgree_iff nonneg _).not.mp agree), BitVec.sub_eq_add_neg]

theorem truncMod_add_sign (divides : Divides true x y)
    (nonneg : 0 ≤ toInteger true y) :
    truncMod true x y + (y &&& shiftRight true (truncMod true x y) (w - 1)) =
      floorMod true x y := by
  rw [floorMod_eq divides, shiftRight_sign]
  by_cases agree : SignsAgree (toInteger true y) (toInteger true (truncMod true x y))
  · rw [if_pos agree, if_pos ((signsAgree_iff nonneg _).mp agree), BitVec.and_zero,
      BitVec.add_zero]
  · rw [if_neg agree, if_neg ((signsAgree_iff nonneg _).not.mp agree), BitVec.neg_one_eq_allOnes,
      BitVec.and_allOnes]

theorem signsAgree_of_nonneg (dividend : 0 ≤ toInteger signed x) (divisor : 0 ≤ toInteger signed y) :
    SignsAgree (toInteger signed y) (toInteger signed (truncMod signed x y)) := by
  rw [signsAgree_iff divisor, toInteger_truncMod]
  exact Int.tmod_nonneg _ dividend

theorem nonneg_of_floorDiv (positive : 0 < w) (divides : Divides signed x y)
    (divisor : 0 ≤ toInteger signed y) (quotient : 0 ≤ toInteger signed (floorDiv signed x y)) :
    0 ≤ toInteger signed x := by
  have above : 0 < toInteger signed y := lt_of_le_of_ne divisor divides.nonzero.symm
  rw [toInteger_floorDiv positive divides, Int.fdiv_eq_ediv_of_nonneg _ divisor,
    Int.ediv_nonneg_iff_of_pos above] at quotient
  exact quotient

theorem floorDiv_max (positive : 0 < w) (divides : Divides signed x y)
    (divisor : 0 ≤ toInteger signed y) {c : Int} (nonneg : 0 ≤ c) :
    max (toInteger signed (truncDiv signed x y)) c = max (toInteger signed (floorDiv signed x y)) c := by
  rw [toInteger_floorDiv positive divides]
  rcases divides.floor_cases with ⟨-, quotient, -⟩ | ⟨differ, quotient, -⟩
  · rw [quotient]
  · rw [signsAgree_iff divisor, toInteger_truncMod] at differ
    have below : toInteger signed x < 0 := by
      by_contra above
      exact differ (Int.tmod_nonneg _ (by omega))
    have truncated : toInteger signed (truncDiv signed x y) ≤ 0 := by
      rw [toInteger_truncDiv divides]
      have opposite := Int.tdiv_nonneg (a := -toInteger signed x) (by omega) divisor
      rw [Int.neg_tdiv] at opposite
      omega
    rw [quotient, max_eq_right (by omega), max_eq_right (by omega)]

theorem floorMod_eq_zero_iff (positive : 0 < w) (divides : Divides signed x y) :
    floorMod signed x y = 0#w ↔ truncMod signed x y = 0#w := by
  have isZero : ∀ z : BitVec w, z = 0#w ↔ toInteger signed z = 0 := fun _ => toInteger_eq_zero.symm
  rw [isZero, isZero, toInteger_floorMod positive divides]
  rcases divides.floor_cases with ⟨-, -, remainder⟩ | ⟨differ, -, remainder⟩
  · rw [remainder]
  · rw [remainder]
    have bounds := tmod_bounds divides.nonzero (toInteger signed x)
    rw [← toInteger_truncMod] at bounds
    rw [SignsAgree] at differ
    rcases abs_cases (toInteger signed y) with ⟨size, sign⟩ | ⟨size, sign⟩
    · omega
    · omega

end Machine

end Tvm.Lib
