import Mathlib

/-!
# The prime table of tile sampling

`PrimeTable` of `sampling.cc`: Euler's sieve below `65536`, the powers of its primes and `Factorize`.
`none` is a failed check, a read outside a table or a loop that goes on.
-/

namespace Tvm.Tir

def kMaxPrime : Nat := 65536

def kNumPrimes : Nat := 6542

/-- `std::numeric_limits<int32_t>::max()`. -/
def intMax : Nat := 2147483647

/-- What a 32-bit register keeps of an integer. -/
def wrap32 (x : Int) : Int :=
  x.bmod (2 ^ 32)

/-- `min_factor_idx`, `primes` and `pow_tab`. -/
structure PrimeTable where
  minFactorIdx : List Int
  primes : List Nat
  powTab : List (List Nat)

/-- The loop over the primes from index `i` on. -/
def markMultiples (x : Nat) : Nat → List Nat → List Int → List Int
  | _, [], idx => idx
  | i, factor :: rest, idx =>
    if kMaxPrime ≤ x * factor then idx
    else if x % factor = 0 then idx.set (x * factor) i
    else markMultiples x (i + 1) rest (idx.set (x * factor) i)

/-- A number without a factor so far is the next prime. -/
def addPrime (sieve : List Int × List Nat) (x : Nat) : List Int × List Nat :=
  if sieve.1[x]? = some (-1) then (sieve.1.set x sieve.2.length, sieve.2 ++ [x]) else sieve

def sieveStep (sieve : List Int × List Nat) (x : Nat) : List Int × List Nat :=
  (markMultiples x 0 (addPrime sieve x).2 (addPrime sieve x).1, (addPrime sieve x).2)

/-- Euler's sieve over the numbers below `limit`. -/
def eulerSieve (limit : Nat) : List Int × List Nat :=
  (List.range' 2 (limit - 2)).foldl sieveStep (List.replicate kMaxPrime (-1), [])

/-- The powers of a prime from `pow` on; there are at most 31 of them. -/
def powers (prime : Nat) : Nat → Nat → List Nat
  | 0, _ => []
  | fuel + 1, pow => if pow ≤ intMax then pow :: powers prime fuel (pow * prime) else []

def primeTable : Option PrimeTable :=
  if (eulerSieve kMaxPrime).2.length = kNumPrimes then
    some ⟨(eulerSieve kMaxPrime).1, (eulerSieve kMaxPrime).2,
      (eulerSieve kMaxPrime).2.map fun prime => powers prime 31 prime⟩
  else none

/-- The inner loops: `n` without the factor, and how often it was there. -/
def divideOut (factor : Nat) : Nat → Nat → Option (Nat × Nat)
  | 0, _ => none
  | fuel + 1, n =>
    if n % factor = 0 then (divideOut factor fuel (n / factor)).map fun r => (r.1, r.2 + 1)
    else some (n, 0)

/-- The pairs with one more of them unless the exponent is zero. -/
def emplaceFactor (i j : Nat) (pairs : List (Int × Nat)) : List (Int × Nat) :=
  if j ≠ 0 then ((i : Int), j) :: pairs else pairs

/-- `n >= kMaxPrime`: the primes from index `i` on are tried.  The square is taken in 32 bits. -/
def phase1 : Nat → List Nat → Nat → Option (Nat × List (Int × Nat))
  | _, [], n => some (n, [])
  | i, prime :: rest, n =>
    if kMaxPrime ≤ n ∧ wrap32 (prime * prime) ≤ n then do
      let divided ← divideOut prime 32 n
      let later ← phase1 (i + 1) rest divided.1
      some (later.1, emplaceFactor i divided.2 later.2)
    else some (n, [])

def PrimeTable.primeAt (table : PrimeTable) (i : Int) : Option Nat :=
  if 0 ≤ i then table.primes[i.toNat]? else none

/-- `n < kMaxPrime`: the smallest factors are looked up. -/
def PrimeTable.phase2 (table : PrimeTable) : Nat → Nat → Option (List (Int × Nat))
  | 0, _ => none
  | fuel + 1, n =>
    if 1 < n then do
      let i ← table.minFactorIdx[n]?
      let prime ← table.primeAt i
      let divided ← divideOut prime 32 n
      let pairs ← table.phase2 fuel divided.1
      some ((i, divided.2) :: pairs)
    else some []

def PrimeTable.factorize (table : PrimeTable) (n : Nat) : Option (List (Int × Nat)) := do
  let large ← phase1 0 table.primes n
  if kMaxPrime ≤ large.1 then some (large.2 ++ [(-1, large.1)])
  else do
    let small ← table.phase2 17 large.1
    some (large.2 ++ small)

def PrimeTable.decode (table : PrimeTable) (pair : Int × Nat) : Option (Nat × Nat) :=
  if pair.1 = -1 then some (pair.2, 1)
  else (table.primeAt pair.1).map fun prime => (prime, pair.2)

def primesBelow (limit : Nat) : List Nat :=
  (List.range limit).filter fun n => n.Prime

def primeIndex (p : Nat) : Nat :=
  (primesBelow p).length

section Primes

variable {limit p q x : Nat}

theorem mem_primesBelow : p ∈ primesBelow limit ↔ p < limit ∧ p.Prime := by
  rw [primesBelow, List.mem_filter, List.mem_range, decide_eq_true_eq]

theorem primesBelow_succ (x : Nat) :
    primesBelow (x + 1) = if x.Prime then primesBelow x ++ [x] else primesBelow x := by
  rw [primesBelow, primesBelow, List.range_succ, List.filter_append]
  split
  · rename_i prime
    simp [prime]
  · rename_i composite
    simp [composite]

theorem primesBelow_sorted (limit : Nat) : (primesBelow limit).Pairwise (· < ·) :=
  List.pairwise_lt_range.filter _

theorem primesBelow_prefix (le : x ≤ limit) : primesBelow x <+: primesBelow limit := by
  induction limit, le using Nat.le_induction with
  | base => exact List.prefix_rfl
  | succ limit _ ih =>
    rw [primesBelow_succ]
    split
    · exact ih.trans (List.prefix_append _ _)
    · exact ih

theorem primesBelow_get (prime : p.Prime) (below : p < limit) :
    (primesBelow limit)[primeIndex p]? = some p := by
  obtain ⟨rest, isRest⟩ := primesBelow_prefix (show p + 1 ≤ limit from below)
  rw [← isRest, primesBelow_succ, if_pos prime, List.append_assoc, primeIndex,
    List.getElem?_append_right le_rfl, Nat.sub_self]
  rfl

theorem primeIndex_of_get {j : Nat} (found : (primesBelow limit)[j]? = some q) :
    primeIndex q = j := by
  obtain ⟨below, prime⟩ := mem_primesBelow.mp (List.mem_of_getElem? found)
  have same := primesBelow_get prime below
  obtain ⟨inside, isFirst⟩ := List.getElem?_eq_some_iff.mp same
  obtain ⟨inside', isSecond⟩ := List.getElem?_eq_some_iff.mp found
  have distinct : (primesBelow limit).Nodup := (primesBelow_sorted limit).imp ne_of_lt
  exact (List.Nodup.getElem_inj_iff distinct).mp (isFirst.trans isSecond.symm)

end Primes

section Sieve

variable {x y q : Nat} {idx : List Int}

theorem markMultiples_length (i : Nat) (rest : List Nat) :
    (markMultiples x i rest idx).length = idx.length := by
  induction rest generalizing i idx with
  | nil => rfl
  | cons factor rest ih =>
    rw [markMultiples]
    split
    · rfl
    · split
      · exact List.length_set
      · exact (ih _).trans List.length_set

theorem markMultiples_unmarked {rest : List Nat} {i : Nat}
    (sorted : rest.Pairwise (· < ·)) (primes : ∀ q ∈ rest, q.Prime) (least : x.minFac ∈ rest)
    (other : ∀ q ∈ rest, q ≤ x.minFac → y ≠ x * q) :
    (markMultiples x i rest idx)[y]? = idx[y]? := by
  induction rest generalizing i idx with
  | nil => rfl
  | cons factor rest ih =>
    obtain ⟨later, sorted⟩ := List.pairwise_cons.mp sorted
    have first : factor ≤ x.minFac := by
      rcases List.mem_cons.mp least with same | inRest
      · exact same.ge
      · exact (later _ inRest).le
    have kept : (idx.set (x * factor) i)[y]? = idx[y]? :=
      List.getElem?_set_ne (other factor List.mem_cons_self first).symm
    rw [markMultiples]
    split
    · rfl
    · split
      · exact kept
      · rename_i indivisible
        refine (ih sorted (fun q member => primes q (List.mem_cons_of_mem _ member))
          ?_ fun q member => other q (List.mem_cons_of_mem _ member)).trans kept
        rcases List.mem_cons.mp least with same | inRest
        · exact absurd (Nat.mod_eq_zero_of_dvd (same ▸ x.minFac_dvd)) indivisible
        · exact inRest

theorem markMultiples_marked {rest : List Nat} {i : Nat} (positive : 0 < x)
    (size : idx.length = kMaxPrime) (sorted : rest.Pairwise (· < ·)) (primes : ∀ q ∈ rest, q.Prime)
    (index : ∀ j q, rest[j]? = some q → primeIndex q = i + j) (least : x.minFac ∈ rest)
    (member : q ∈ rest) (small : q ≤ x.minFac) (below : x * q < kMaxPrime) :
    (markMultiples x i rest idx)[x * q]? = some (primeIndex q : Int) := by
  induction rest generalizing i idx with
  | nil => cases member
  | cons factor rest ih =>
    obtain ⟨later, sortedRest⟩ := List.pairwise_cons.mp sorted
    have isIndex : primeIndex factor = i := index 0 factor rfl
    have first : factor ≤ q := by
      rcases List.mem_cons.mp member with same | inRest
      · exact same.ge
      · exact (later q inRest).le
    have inside : x * factor < kMaxPrime := (Nat.mul_le_mul_left x first).trans_lt below
    have here : (idx.set (x * factor) i)[x * factor]? = some (primeIndex factor : Int) := by
      rw [isIndex]
      exact List.getElem?_set_self (size ▸ inside)
    rw [markMultiples, if_neg (not_le.mpr inside)]
    split
    · rename_i divides
      have smallest : x.minFac ≤ factor :=
        Nat.minFac_le_of_dvd (primes factor List.mem_cons_self).two_le (Nat.dvd_of_mod_eq_zero divides)
      rw [show q = factor by omega]
      exact here
    · rename_i indivisible
      have inRest : x.minFac ∈ rest := by
        rcases List.mem_cons.mp least with same | inRest
        · exact absurd (Nat.mod_eq_zero_of_dvd (same ▸ x.minFac_dvd)) indivisible
        · exact inRest
      have primes' : ∀ q ∈ rest, q.Prime := fun q member => primes q (List.mem_cons_of_mem _ member)
      rcases List.mem_cons.mp member with rfl | memberRest
      · refine (markMultiples_unmarked sortedRest primes' inRest fun q' member' _ same => ?_).trans
          here
        have greater := later q' member'
        exact greater.ne (Nat.eq_of_mul_eq_mul_left positive same)
      · refine ih (List.length_set.trans size) sortedRest primes' ?_ inRest memberRest
        intro j q' found
        rw [index (j + 1) q' found]
        omega

/-- What has an index once the numbers below `x` are done. -/
def Marked (x y : Nat) : Prop :=
  2 ≤ y ∧ if y.Prime then y < x else y / y.minFac < x

instance (x y : Nat) : Decidable (Marked x y) :=
  inferInstanceAs (Decidable (_ ∧ _))

/-- The index of the smallest factor, or none. -/
structure Sieved (x : Nat) (sieve : List Int × List Nat) : Prop where
  size : sieve.1.length = kMaxPrime
  primes : sieve.2 = primesBelow x
  marked : ∀ y, y < kMaxPrime → Marked x y → sieve.1[y]? = some (primeIndex y.minFac : Int)
  unmarked : ∀ y, y < kMaxPrime → ¬Marked x y → sieve.1[y]? = some (-1)

theorem cofactor_of_composite (large : 2 ≤ y) (composite : ¬y.Prime) :
    2 ≤ y / y.minFac ∧ y = y / y.minFac * y.minFac ∧ y.minFac ≤ (y / y.minFac).minFac ∧
      y / y.minFac < y := by
  have prime := Nat.minFac_prime (show y ≠ 1 by omega)
  have product : y = y / y.minFac * y.minFac := (Nat.div_mul_cancel y.minFac_dvd).symm
  have cofactor : 2 ≤ y / y.minFac := by
    by_contra small
    interval_cases isCofactor : y / y.minFac
    · omega
    · rw [one_mul] at product
      exact composite (product ▸ prime)
  refine ⟨cofactor, product, ?_, Nat.div_lt_self (by omega) prime.one_lt⟩
  apply Nat.minFac_le_of_dvd (Nat.minFac_prime (by omega)).two_le
  exact (Nat.minFac_dvd _).trans (Nat.div_dvd_of_dvd y.minFac_dvd)

theorem minFac_mul_of_le (prime : q.Prime) (small : q ≤ x.minFac) :
    (x * q).minFac = q := by
  apply le_antisymm (Nat.minFac_le_of_dvd prime.two_le (Dvd.intro_left x rfl))
  have least := Nat.minFac_prime (show x * q ≠ 1 from fun one => by
    have := Nat.eq_one_of_mul_eq_one_left one
    exact prime.one_lt.ne' this)
  rcases least.dvd_mul.mp (Nat.minFac_dvd (x * q)) with divides | divides
  · exact small.trans (Nat.minFac_le_of_dvd least.two_le divides)
  · exact ((Nat.prime_dvd_prime_iff_eq least prime).mp divides).ge

theorem marked_self (large : 2 ≤ x) : Marked x x ↔ ¬x.Prime := by
  rw [Marked]
  split
  · rename_i prime
    simp [prime]
  · rename_i composite
    exact iff_of_true ⟨large, (cofactor_of_composite large composite).2.2.2⟩ composite

/-- One number more marks itself, if it is prime, and the products that have it as cofactor. -/
theorem marked_succ (large : 2 ≤ x) : Marked (x + 1) y ↔
    Marked x y ∨ (y = x ∧ x.Prime) ∨ ∃ q, q.Prime ∧ q ≤ x.minFac ∧ y = x * q := by
  constructor
  · rintro ⟨atLeast, before⟩
    split at before
    · rename_i prime
      rcases Nat.lt_succ_iff_lt_or_eq.mp before with earlier | same
      · exact .inl ⟨atLeast, by rwa [if_pos prime]⟩
      · exact .inr (.inl ⟨same, same ▸ prime⟩)
    · rename_i composite
      obtain ⟨-, product, least, -⟩ := cofactor_of_composite atLeast composite
      rcases Nat.lt_succ_iff_lt_or_eq.mp before with earlier | same
      · exact .inl ⟨atLeast, by rwa [if_neg composite]⟩
      · rw [same] at product least
        exact .inr (.inr ⟨y.minFac, Nat.minFac_prime (by omega), least, product⟩)
  · rintro (⟨atLeast, before⟩ | ⟨rfl, prime⟩ | ⟨q, prime, small, rfl⟩)
    · refine ⟨atLeast, ?_⟩
      split
      · rename_i prime
        rw [if_pos prime] at before
        omega
      · rename_i composite
        rw [if_neg composite] at before
        omega
    · exact ⟨large, by rw [if_pos prime]; omega⟩
    · have composite : ¬(x * q).Prime := Nat.not_prime_mul (by omega) prime.one_lt.ne'
      refine ⟨?_, ?_⟩
      · nlinarith [prime.two_le]
      · rw [if_neg composite, minFac_mul_of_le prime small, Nat.mul_div_cancel _ prime.pos]
        omega

theorem sieved_start : Sieved 2 (List.replicate kMaxPrime (-1), []) where
  size := List.length_replicate
  primes := by decide
  marked y _ marked := by
    obtain ⟨large, before⟩ := marked
    split at before
    · omega
    · rename_i composite
      have := (cofactor_of_composite large composite).1
      omega
  unmarked y inside _ := List.getElem?_replicate_of_lt inside

theorem sieved_step {sieve : List Int × List Nat} (large : 2 ≤ x) (inside : x < kMaxPrime)
    (sieved : Sieved x sieve) : Sieved (x + 1) (sieveStep sieve x) := by
  -- the number is new exactly where it is prime
  have isNew : sieve.1[x]? = some (-1) ↔ x.Prime := by
    rw [← not_iff_not, ← marked_self large]
    constructor
    · intro found
      by_contra unmarked
      exact found (sieved.unmarked x inside unmarked)
    · intro marked found
      rw [sieved.marked x inside marked] at found
      cases found
  have primes : (addPrime sieve x).2 = primesBelow (x + 1) := by
    rw [addPrime, primesBelow_succ]
    by_cases prime : x.Prime
    · rw [if_pos (isNew.mpr prime), if_pos prime, sieved.primes]
    · rw [if_neg (isNew.not.mpr prime), if_neg prime, sieved.primes]
  have size : (addPrime sieve x).1.length = kMaxPrime := by
    rw [addPrime]
    split
    · exact List.length_set.trans sieved.size
    · exact sieved.size
  have added : ∀ y, (addPrime sieve x).1[y]? =
      if y = x ∧ x.Prime then some (primeIndex x : Int) else sieve.1[y]? := by
    intro y
    rw [addPrime]
    by_cases prime : x.Prime
    · rw [if_pos (isNew.mpr prime), sieved.primes]
      by_cases same : y = x
      · rw [if_pos ⟨same, prime⟩, same]
        exact List.getElem?_set_self (sieved.size ▸ inside)
      · rw [if_neg fun both => same both.1]
        exact List.getElem?_set_ne (Ne.symm same)
    · rw [if_neg (isNew.not.mpr prime), if_neg fun both => prime both.2]
  have least : x.minFac ∈ (addPrime sieve x).2 := by
    rw [primes, mem_primesBelow]
    exact ⟨Nat.lt_succ_of_le (Nat.minFac_le (by omega)), Nat.minFac_prime (by omega)⟩
  have sorted : (addPrime sieve x).2.Pairwise (· < ·) := primes ▸ primesBelow_sorted _
  have allPrime : ∀ q ∈ (addPrime sieve x).2, q.Prime := by
    intro q member
    rw [primes] at member
    exact (mem_primesBelow.mp member).2
  have listed : ∀ q, q.Prime → q ≤ x.minFac → q ∈ (addPrime sieve x).2 := by
    intro q prime small
    rw [primes, mem_primesBelow]
    exact ⟨Nat.lt_succ_of_le (small.trans (Nat.minFac_le (by omega))), prime⟩
  have unmarked : ∀ y, (∀ q, q.Prime → q ≤ x.minFac → y ≠ x * q) →
      (sieveStep sieve x).1[y]? = (addPrime sieve x).1[y]? := fun y other =>
    markMultiples_unmarked sorted allPrime least fun q member => other q (allPrime q member)
  refine ⟨(markMultiples_length 0 _).trans size, primes, fun y below marked => ?_,
    fun y below none => ?_⟩
  · by_cases product : ∃ q, q.Prime ∧ q ≤ x.minFac ∧ y = x * q
    · obtain ⟨q, prime, small, rfl⟩ := product
      rw [minFac_mul_of_le prime small]
      refine markMultiples_marked (by omega) size sorted allPrime (fun j q found => ?_) least
        (listed q prime small) small below
      rw [primes] at found
      rw [primeIndex_of_get found, zero_add]
    · rw [unmarked y fun q prime small same => product ⟨q, prime, small, same⟩, added]
      rcases (marked_succ large).mp marked with before | ⟨rfl, prime⟩ | same
      · split
        · rename_i self
          rw [self.1, self.2.minFac_eq]
        · exact sieved.marked y below before
      · rw [if_pos ⟨rfl, prime⟩, prime.minFac_eq]
      · exact absurd same product
  · have other : ∀ q, q.Prime → q ≤ x.minFac → y ≠ x * q := fun q prime small same =>
      none ((marked_succ large).mpr (.inr (.inr ⟨q, prime, small, same⟩)))
    rw [unmarked y other, added, if_neg fun self => none ((marked_succ large).mpr (.inr (.inl self)))]
    exact sieved.unmarked y below fun before => none ((marked_succ large).mpr (.inl before))

theorem sieved_eulerSieve {limit : Nat} (large : 2 ≤ limit) (inside : limit ≤ kMaxPrime) :
    Sieved limit (eulerSieve limit) := by
  obtain ⟨count, rfl⟩ := Nat.exists_eq_add_of_le large
  rw [eulerSieve, Nat.add_sub_cancel_left]
  induction count with
  | zero => exact sieved_start
  | succ count ih =>
    rw [List.range'_1_concat, List.foldl_append]
    exact sieved_step (Nat.le_add_right 2 count) inside
      (ih (Nat.le_add_right 2 count) (Nat.le_of_succ_le inside))

end Sieve

section Count

/-- The primes whose square is below the bound. -/
def smallPrimes : List Nat :=
  [2, 3, 5, 7, 11, 13, 17, 19, 23, 29, 31, 37, 41, 43, 47, 53, 59, 61, 67, 71, 73, 79, 83, 89, 97,
    101, 103, 107, 109, 113, 127, 131, 137, 139, 149, 151, 157, 163, 167, 173, 179, 181, 191, 193,
    197, 199, 211, 223, 227, 229, 233, 239, 241, 251]

/-- A small prime, or without a small prime. -/
def primeBelowMax (n : Nat) : Bool :=
  bif Nat.beq (n.gcd smallPrimes.prod) 1 then Nat.ble 2 n
  else bif Nat.ble n 251 then smallPrimes.elem n else false

theorem prime_of_mem_smallPrimes : ∀ p ∈ smallPrimes, p.Prime := by
  simp only [smallPrimes, List.forall_mem_cons, List.not_mem_nil, false_implies, implies_true, and_true]
  norm_num

theorem mem_smallPrimes {p : Nat} (prime : p.Prime) (below : p < 256) : p ∈ smallPrimes := by
  have sifted : ∀ q < 256, q ∈ smallPrimes ∨ q < 2 ∨ ∃ d ∈ [2, 3, 5, 7, 11, 13], d ∣ q ∧ d ≠ q := by
    decide +kernel
  rcases sifted p below with member | small | ⟨d, isDivisor, divides, other⟩
  · exact member
  · exact absurd prime.two_le (by omega)
  · rcases (Nat.dvd_prime prime).mp divides with rfl | same
    · exact absurd isDivisor (by decide)
    · exact absurd same other

theorem primeBelowMax_iff {n : Nat} (below : n < kMaxPrime) : primeBelowMax n = true ↔ n.Prime := by
  have coprime : n.gcd smallPrimes.prod = 1 ↔ ∀ p ∈ smallPrimes, ¬p ∣ n := by
    rw [← Nat.coprime_iff_gcd_eq_one, Nat.coprime_list_prod_right_iff]
    refine forall₂_congr fun p member => ?_
    rw [Nat.coprime_comm, (prime_of_mem_smallPrimes p member).coprime_iff_not_dvd]
  rw [primeBelowMax]
  cases tested : Nat.beq (n.gcd smallPrimes.prod) 1 with
  | true =>
    have free := Nat.eq_of_beq_eq_true tested
    rw [cond_true, Nat.ble_eq]
    refine ⟨fun large => ?_, Nat.Prime.two_le⟩
    by_contra composite
    have least := Nat.minFac_prime (show n ≠ 1 by omega)
    have square := Nat.minFac_sq_le_self (by omega) composite
    have small : n.minFac < 256 := by
      by_contra large
      have : 256 ^ 2 ≤ n.minFac ^ 2 := Nat.pow_le_pow_left (by omega) 2
      rw [kMaxPrime] at below
      omega
    exact coprime.mp free _ (mem_smallPrimes least small) n.minFac_dvd
  | false =>
    have free := Nat.ne_of_beq_eq_false tested
    rw [cond_false]
    obtain ⟨p, member, divides⟩ : ∃ p ∈ smallPrimes, p ∣ n := by
      by_contra none
      push Not at none
      exact free (coprime.mpr none)
    have bounded : ∀ p ∈ smallPrimes, p ≤ 251 := by decide
    constructor
    · intro listed
      cases small : Nat.ble n 251 with
      | false =>
        rw [small] at listed
        cases listed
      | true =>
        rw [small] at listed
        exact prime_of_mem_smallPrimes n (List.elem_iff.mp listed)
    · intro prime
      have same : p = n :=
        (Nat.prime_dvd_prime_iff_eq (prime_of_mem_smallPrimes p member) prime).mp divides
      subst same
      rw [Nat.ble_eq.mpr (bounded p member)]
      exact List.elem_iff.mpr member

/-- The count in a block of `2 ^ k` numbers, by halves. -/
def countBlock (test : Nat → Bool) : Nat → Nat → Nat
  | 0, start => (test start).toNat
  | k + 1, start => countBlock test k start + countBlock test k (start + 2 ^ k)

theorem countBlock_eq (test : Nat → Bool) (k start : Nat) :
    countBlock test k start = (List.range' start (2 ^ k)).countP test := by
  induction k generalizing start with
  | zero =>
    rw [countBlock, pow_zero, List.range'_one, List.countP_singleton]
    cases test start <;> rfl
  | succ k ih =>
    rw [countBlock, ih, ih, pow_succ, mul_two,
      ← List.range'_append_1, List.countP_append]

theorem primesBelow_length : (primesBelow kMaxPrime).length = kNumPrimes := by
  have first : countBlock primeBelowMax 14 0 = 1900 := by decide +kernel
  have second : countBlock primeBelowMax 14 (0 + 2 ^ 14) = 1612 := by decide +kernel
  have third : countBlock primeBelowMax 14 (0 + 2 ^ 15) = 1539 := by decide +kernel
  have fourth : countBlock primeBelowMax 14 (0 + 2 ^ 15 + 2 ^ 14) = 1491 := by decide +kernel
  have low : countBlock primeBelowMax 15 0 = 3512 := by rw [countBlock, first, second]
  have high : countBlock primeBelowMax 15 (0 + 2 ^ 15) = 3030 := by rw [countBlock, third, fourth]
  have counted : countBlock primeBelowMax 16 0 = kNumPrimes := by rw [countBlock, low, high, kNumPrimes]
  rw [primesBelow, ← List.countP_eq_length_filter, ← counted, countBlock_eq, ← List.range_eq_range']
  apply List.countP_congr
  intro n member
  rw [decide_eq_true_eq, primeBelowMax_iff (List.mem_range.mp member)]

end Count

structure PrimeTable.Correct (table : PrimeTable) : Prop where
  primes : table.primes = primesBelow kMaxPrime
  minFactor : ∀ n, 2 ≤ n → n < kMaxPrime → table.minFactorIdx[n]? = some (primeIndex n.minFac : Int)
  power : ∀ p j, p.Prime → p < kMaxPrime → p ^ (j + 1) ≤ intMax →
    ∃ pow, table.powTab[primeIndex p]? = some pow ∧ pow[j]? = some (p ^ (j + 1))

theorem powers_get {prime : Nat} (large : 1 < prime) {fuel pow j : Nat} (enough : j < fuel)
    (small : pow * prime ^ j ≤ intMax) : (powers prime fuel pow)[j]? = some (pow * prime ^ j) := by
  induction fuel generalizing pow j with
  | zero => exact absurd enough (Nat.not_lt_zero j)
  | succ fuel ih =>
    have first : pow ≤ intMax :=
      (Nat.le_mul_of_pos_right pow (Nat.pow_pos (by omega))).trans small
    rw [powers, if_pos first]
    cases j with
    | zero => rw [pow_zero, mul_one, List.getElem?_cons_zero]
    | succ j =>
      rw [pow_succ', ← mul_assoc] at small ⊢
      exact ih (by omega) small

theorem exponent_lt {p j : Nat} (large : 2 ≤ p) (small : p ^ j ≤ intMax) : j < 31 := by
  have least : 2 ^ j ≤ p ^ j := Nat.pow_le_pow_left large j
  apply (Nat.pow_lt_pow_iff_right one_lt_two).mp
  exact (least.trans small).trans_lt (by decide)

theorem Sieved.correct {sieve : List Int × List Nat} (sieved : Sieved kMaxPrime sieve) :
    PrimeTable.Correct ⟨sieve.1, sieve.2, sieve.2.map fun prime => powers prime 31 prime⟩ where
  primes := sieved.primes
  minFactor n large below := by
    apply sieved.marked n below
    refine ⟨large, ?_⟩
    split
    · exact below
    · exact (Nat.div_lt_self (by omega) (Nat.minFac_prime (by omega)).one_lt).trans below
  power p j prime below small := by
    refine ⟨powers p 31 p, ?_, ?_⟩
    · rw [List.getElem?_map, sieved.primes, primesBelow_get prime below, Option.map_some]
    · have bound := exponent_lt prime.two_le small
      rw [pow_succ'] at small ⊢
      exact powers_get prime.one_lt (by omega) small

theorem primeTable_correct : ∃ table, primeTable = some table ∧ table.Correct := by
  have sieved : Sieved kMaxPrime (eulerSieve kMaxPrime) :=
    sieved_eulerSieve (by rw [kMaxPrime]; omega) le_rfl
  have counted : (eulerSieve kMaxPrime).2.length = kNumPrimes := by
    rw [sieved.primes, primesBelow_length]
  refine ⟨_, ?_, sieved.correct⟩
  rw [primeTable, if_pos counted]

section Factorize

variable {table : PrimeTable} {p q n m j : Nat}

theorem divideOut_spec (prime : p.Prime) (positive : 0 < n) {fuel : Nat} (enough : n < 2 ^ fuel) :
    ∃ m j, divideOut p fuel n = some (m, j) ∧ n = m * p ^ j ∧ ¬p ∣ m ∧ 0 < m := by
  induction fuel generalizing n with
  | zero => exact absurd enough (by omega)
  | succ fuel ih =>
    rw [divideOut]
    split
    · rename_i divisible
      have divides := Nat.dvd_of_mod_eq_zero divisible
      have quotient : n / p < 2 ^ fuel := by
        rw [pow_succ] at enough
        have halved : n / p ≤ n / 2 := Nat.div_le_div_left prime.two_le two_pos
        omega
      obtain ⟨m, j, run, product, indivisible, rest⟩ :=
        ih (Nat.div_pos (Nat.le_of_dvd positive divides) prime.pos) quotient
      refine ⟨m, j + 1, by rw [run, Option.map_some], ?_, indivisible, rest⟩
      rw [pow_succ, ← mul_assoc, ← product, Nat.div_mul_cancel divides]
    · rename_i indivisible
      exact ⟨n, 0, rfl, by rw [pow_zero, mul_one], fun divides =>
        indivisible (Nat.mod_eq_zero_of_dvd divides), positive⟩

/-- The bases are distinct primes, and their powers multiply to the number. -/
structure Factorization (n : Nat) (factors : List (Nat × Nat)) : Prop where
  distinct : (factors.map Prod.fst).Nodup
  prime : ∀ f ∈ factors, f.1.Prime ∧ 1 ≤ f.2
  product : (factors.map fun f => f.1 ^ f.2).prod = n

theorem Factorization.nil : Factorization 1 [] :=
  ⟨List.nodup_nil, fun _ member => (by cases member), rfl⟩

theorem Factorization.cons {factors : List (Nat × Nat)} (rest : Factorization n factors)
    (prime : p.Prime) (positive : 1 ≤ j) (other : ¬p ∣ n) :
    Factorization (p ^ j * n) ((p, j) :: factors) where
  distinct := by
    rw [List.map_cons, List.nodup_cons]
    refine ⟨fun member => other ?_, rest.distinct⟩
    obtain ⟨⟨q, k⟩, isFactor, rfl⟩ := List.mem_map.mp member
    rw [← rest.product]
    have power : q ^ k ∈ factors.map fun f => f.1 ^ f.2 := List.mem_map.mpr ⟨_, isFactor, rfl⟩
    exact (dvd_pow_self q (by have := (rest.prime _ isFactor).2; omega)).trans (List.dvd_prod power)
  prime f member := by
    rcases List.mem_cons.mp member with rfl | later
    · exact ⟨prime, positive⟩
    · exact rest.prime f later
  product := by rw [List.map_cons, List.prod_cons, rest.product]

def PrimeTable.Decodes (table : PrimeTable) (n : Nat) (pairs : List (Int × Nat)) : Prop :=
  ∃ factors, pairs.mapM table.decode = some factors ∧ Factorization n factors

theorem decodes_nil : table.Decodes 1 [] :=
  ⟨[], rfl, .nil⟩

theorem decodes_cons {pair : Int × Nat} {pairs : List (Int × Nat)} (rest : table.Decodes n pairs)
    (decoded : table.decode pair = some (p, j)) (prime : p.Prime) (positive : 1 ≤ j)
    (other : ¬p ∣ n) : table.Decodes (p ^ j * n) (pair :: pairs) := by
  obtain ⟨factors, isFactors, factorization⟩ := rest
  refine ⟨(p, j) :: factors, ?_, factorization.cons prime positive other⟩
  rw [List.mapM_cons, decoded, isFactors]
  rfl

theorem primeAt_index (correct : table.Correct) (prime : p.Prime) (below : p < kMaxPrime) :
    table.primeAt (primeIndex p) = some p := by
  rw [PrimeTable.primeAt, if_pos (Int.natCast_nonneg _), Int.toNat_natCast, correct.primes]
  exact primesBelow_get prime below

theorem decode_index (correct : table.Correct) (prime : p.Prime) (below : p < kMaxPrime) (j : Nat) :
    table.decode (primeIndex p, j) = some (p, j) := by
  rw [PrimeTable.decode, if_neg (by omega), primeAt_index correct prime below, Option.map_some]

theorem phase2_spec (correct : table.Correct) {fuel : Nat} (positive : 0 < n) (below : n < kMaxPrime)
    (enough : n < 2 ^ fuel) : ∃ pairs, table.phase2 (fuel + 1) n = some pairs ∧
      table.Decodes n pairs := by
  induction fuel generalizing n with
  | zero =>
    have one : n = 1 := by omega
    exact ⟨[], by rw [PrimeTable.phase2, if_neg (by omega)], one ▸ decodes_nil⟩
  | succ fuel ih =>
    rw [PrimeTable.phase2]
    split
    · rename_i large
      have prime := Nat.minFac_prime (show n ≠ 1 by omega)
      have bounded : n.minFac < kMaxPrime := (Nat.minFac_le positive).trans_lt below
      have small : n < 2 ^ 32 := below.trans (by decide)
      obtain ⟨m, j, divided, product, indivisible, rest⟩ := divideOut_spec prime positive small
      have divides : 1 ≤ j := by
        by_contra none
        obtain rfl : j = 0 := by omega
        rw [pow_zero, mul_one] at product
        exact indivisible (product ▸ n.minFac_dvd)
      have shrinks : 2 * m ≤ n := by
        have power : 2 ≤ n.minFac ^ j := prime.two_le.trans (Nat.le_self_pow (by omega) _)
        rw [product]
        have := Nat.mul_le_mul_left m power
        omega
      rw [pow_succ] at enough
      obtain ⟨pairs, run, decodes⟩ := ih rest (by omega) (by omega)
      refine ⟨(primeIndex n.minFac, j) :: pairs, ?_, ?_⟩
      · rw [correct.minFactor n large below]
        change (table.primeAt _).bind _ = _
        rw [primeAt_index correct prime bounded, Option.bind_some, divided]
        change (table.phase2 (fuel + 1) m).bind _ = _
        rw [run]
        rfl
      · have whole := decodes_cons decodes (decode_index correct prime bounded j) prime divides
          indivisible
        rwa [mul_comm, ← product] at whole
    · rename_i small
      have one : n = 1 := by omega
      exact ⟨[], rfl, one ▸ decodes_nil⟩

theorem wrap32_le {x : Int} (nonneg : 0 ≤ x) : wrap32 x ≤ x := by
  have remainder : x % 2 ^ 32 ≤ x := by omega
  rw [wrap32, Int.bmod_def]
  split
  · exact remainder
  · omega

theorem prime_of_factors {bound : Nat} (large : 2 ≤ n) (small : n < bound * bound)
    (factors : ∀ q, q.Prime → q ∣ n → bound ≤ q) : n.Prime := by
  by_contra composite
  have least := factors _ (Nat.minFac_prime (by omega)) n.minFac_dvd
  have square := Nat.minFac_sq_le_self (by omega) composite
  rw [sq] at square
  exact absurd (Nat.mul_le_mul least least) (by omega)

theorem phase1_spec (correct : table.Correct) {i : Nat} {rest : List Nat} (positive : 0 < n)
    (small : n ≤ intMax) (sorted : rest.Pairwise (· < ·))
    (primes : ∀ q ∈ rest, q.Prime ∧ q < kMaxPrime)
    (index : ∀ j q, rest[j]? = some q → primeIndex q = i + j)
    (left : ∀ q, q.Prime → q ∣ n → q ∈ rest ∨ kMaxPrime ≤ q) :
    ∃ m pairs, phase1 i rest n = some (m, pairs) ∧ 0 < m ∧ (kMaxPrime ≤ m → m.Prime) ∧
      ∀ tail, table.Decodes m tail → table.Decodes n (pairs ++ tail) := by
  have isMax : kMaxPrime = 65536 := rfl
  have isIntMax : intMax = 2147483647 := rfl
  induction rest generalizing i n with
  | nil =>
    refine ⟨n, [], rfl, positive, fun large => ?_, fun tail decodes => decodes⟩
    apply prime_of_factors (show 2 ≤ n by omega) (show n < kMaxPrime * kMaxPrime by rw [isMax]; omega)
    intro q prime divides
    rcases left q prime divides with none | above
    · cases none
    · exact above
  | cons p rest ih =>
    obtain ⟨prime, below⟩ := primes p List.mem_cons_self
    obtain ⟨later, sortedRest⟩ := List.pairwise_cons.mp sorted
    rw [phase1]
    split
    · obtain ⟨m, j, divided, product, indivisible, rest'⟩ :=
        divideOut_spec prime positive (show n < 2 ^ 32 by omega)
      have divides : m ∣ n := Dvd.intro _ product.symm
      have less : m ≤ intMax := (Nat.le_of_dvd positive divides).trans small
      have isIndex : primeIndex p = i := index 0 p rfl
      obtain ⟨m', pairs, run, positive', large, decodes⟩ := ih (i := i + 1) rest' less
        sortedRest (fun q member => primes q (List.mem_cons_of_mem _ member)) (fun k q found => by
          rw [index (k + 1) q found]
          omega) fun q isPrime divisor => by
        rcases left q isPrime (divisor.trans divides) with member | above
        · rcases List.mem_cons.mp member with rfl | inRest
          · exact absurd divisor indivisible
          · exact .inl inRest
        · exact .inr above
      refine ⟨m', emplaceFactor i j pairs, ?_, positive', large, fun tail isTail => ?_⟩
      · rw [divided]
        change (phase1 (i + 1) rest m).bind _ = _
        rw [run]
        rfl
      · rw [emplaceFactor]
        split
        · rename_i there
          have whole := decodes_cons (decodes tail isTail) (decode_index correct prime below j) prime
            (by omega) indivisible
          rw [mul_comm, ← product, isIndex] at whole
          exact whole
        · rename_i none
          obtain rfl : j = 0 := by omega
          rw [pow_zero, mul_one] at product
          exact product ▸ decodes tail isTail
    · rename_i stopped
      refine ⟨n, [], rfl, positive, fun large => ?_, fun tail decodes => decodes⟩
      have square : n < p * p := by
        by_contra above
        refine stopped ⟨large, (wrap32_le (by positivity)).trans ?_⟩
        exact_mod_cast not_lt.mp above
      apply prime_of_factors (show 2 ≤ n by omega) square
      intro q isPrime divides
      rcases left q isPrime divides with member | above
      · rcases List.mem_cons.mp member with rfl | inRest
        · exact le_rfl
        · exact (later q inRest).le
      · omega

/-- `Factorize` ends, and its pairs stand for distinct primes whose powers multiply to the number. -/
theorem factorize_spec (correct : table.Correct) (positive : 0 < n) (small : n ≤ intMax) :
    ∃ pairs, table.factorize n = some pairs ∧ table.Decodes n pairs := by
  obtain ⟨m, pairs, run, rest, large, decodes⟩ := phase1_spec correct (i := 0) positive small
    (primesBelow_sorted kMaxPrime) (fun q member => (mem_primesBelow.mp member).symm)
    (fun j q found => by rw [primeIndex_of_get found, zero_add]) fun q prime divides => by
    rcases lt_or_ge q kMaxPrime with below | above
    · exact .inl (mem_primesBelow.mpr ⟨below, prime⟩)
    · exact .inr above
  rw [PrimeTable.factorize, correct.primes, run]
  change ∃ pairs', (if kMaxPrime ≤ m then some (pairs ++ [(-1, m)])
    else (table.phase2 17 m).bind fun small => some (pairs ++ small)) = some pairs' ∧ _
  split
  · rename_i above
    refine ⟨_, rfl, decodes _ ?_⟩
    have decoded : table.decode (-1, m) = some (m, 1) := rfl
    have whole := decodes_cons decodes_nil decoded (large above) le_rfl (large above).not_dvd_one
    rwa [pow_one, mul_one] at whole
  · rename_i below
    obtain ⟨others, run', decodes'⟩ :=
      phase2_spec correct rest (not_le.mp below) (show m < 2 ^ 16 from not_le.mp below)
    exact ⟨pairs ++ others, by rw [run', Option.bind_some], decodes others decodes'⟩

end Factorize

end Tvm.Tir
