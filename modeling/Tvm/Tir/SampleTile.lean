import Mathlib
import Tvm.Lib.Extends
import Tvm.Tir.PrimeTable

/-!
# Sampling of tile sizes

`SampleInt`, `SampleWithoutReplacement` and `SamplePerfectTile` of `sampling.cc`, fresh and with a
previous decision, over every sequence of draws.  `none` is a failed check or an index outside.
-/

namespace Tvm.Tir

open Lib

/-- A random state with `std::uniform_int_distribution`, which stays inside its bounds. -/
structure RandEngine (σ : Type) where
  uniform : σ → Nat → Nat → Nat × σ
  inside : ∀ s low high, low ≤ high → low ≤ (uniform s low high).1 ∧ (uniform s low high).1 ≤ high

section Model

variable {σ : Type} (engine : RandEngine σ)

def sampleInt (s : σ) (minInclusive maxExclusive : Nat) : Option (Nat × σ) :=
  if minInclusive < maxExclusive then
    if minInclusive + 1 = maxExclusive then some (minInclusive, s)
    else some (engine.uniform s minInclusive (maxExclusive - 1))
  else none

/-- The shuffle of the first places from place `i` on. -/
def shuffle (n : Nat) : Nat → Nat → Array Nat → σ → Option (Array Nat × σ)
  | 0, _, order, s => some (order, s)
  | places + 1, i, order, s => do
      let (j, s) ← sampleInt engine s i n
      if inside : i < order.size ∧ j < order.size then
        shuffle n places (i + 1) (order.swap i j inside.1 inside.2) s
      else none

def sampleWithoutReplacement (s : σ) (n k : Nat) : Option (List Nat × σ) :=
  if k = 1 then do
    let (result, s) ← sampleInt engine s 0 n
    some ([result], s)
  else if k = 2 then do
    let (result0, s) ← sampleInt engine s 0 n
    let (result1, s) ← sampleInt engine s 0 (n - 1)
    some ([result0, if result1 ≥ result0 then result1 + 1 else result1], s)
  else do
    let (order, s) ← shuffle engine n k 0 (Array.range n) s
    some (order.toList.take k, s)

variable (table : PrimeTable)

/-- `pow[x]` where `pow` is `pow_tab[i].data() - 1`. -/
def powAt (i x : Int) : Option Nat :=
  if 0 ≤ i ∧ 1 ≤ x then (table.powTab[i.toNat]?).bind fun tab => tab[(x - 1).toNat]? else none

/-- A factor with a power of the prime, which is not looked up for exponent zero. -/
def timesPow (i x : Int) (factor : Int) : Option Int :=
  if x ≠ 0 then (powAt table i x).map fun (pow : Nat) => factor * pow else some factor

/-- `n_splits = 2`: the two products are 32-bit integers. -/
def tileInTwo : List (Int × Nat) → Int → Int → σ → Option (List Int × σ)
  | [], result0, result1, s => some ([result0, result1], s)
  | (i, p) :: rest, result0, result1, s =>
    if i = -1 then do
      let (side, s) ← sampleInt engine s 0 2
      if side ≠ 0 then tileInTwo rest result0 (wrap32 (result1 * p)) s
      else tileInTwo rest (wrap32 (result0 * p)) result1 s
    else do
      let (x1, s) ← sampleInt engine s 0 (p + 1)
      let result0 ← timesPow table i x1 result0
      let result1 ← timesPow table i ((p : Int) - x1) result1
      tileInTwo rest (wrap32 result0) (wrap32 result1) s

def multiplyAt (result : List Int) (k : Nat) (factor : Int) : Option (List Int) :=
  if k < result.length then some (result.modify k (· * factor)) else none

/-- The differences of the sorted samples are the exponents. -/
def distribute (i : Int) : Int → List Int → List Nat → Option (List Int)
  | _, [], _ => some []
  | _, _ :: _, [] => none
  | last, factor :: factors, sample :: samples => do
      let factor ← timesPow table i ((sample : Int) - last - 1) factor
      let factors ← distribute i sample factors samples
      some (factor :: factors)

/-- A 32-bit number of values; below zero there is no vector of them and none to draw. -/
def valueCount (n : Int) : Option Nat :=
  if 0 ≤ wrap32 n then some (wrap32 n).toNat else none

/-- `n_splits >= 3`: one prime after the other is spread over the tiles. -/
def tileInMany (nSplits : Nat) : List (Int × Nat) → List Int → σ → Option (List Int × σ)
  | [], result, s => some (result, s)
  | (i, p) :: rest, result, s =>
    if i = -1 then do
      let (k, s) ← sampleInt engine s 0 nSplits
      let result ← multiplyAt result k p
      tileInMany nSplits rest result s
    else if p = 1 then do
      let (k, s) ← sampleInt engine s 0 nSplits
      let prime ← table.primeAt i
      let result ← multiplyAt result k prime
      tileInMany nSplits rest result s
    else do
      let n ← valueCount (p + nSplits - 1)
      let (sampled, s) ← sampleWithoutReplacement engine s n (nSplits - 1)
      let result ← distribute table i (-1) result (sampled.mergeSort (fun a b => a ≤ b) ++ [n])
      tileInMany nSplits rest result s

/-- `SamplePerfectTile` without a limit. -/
def samplePerfectTile (s : σ) (extent nSplits : Nat) : Option (List Int × σ) :=
  if 1 ≤ extent ∧ 1 ≤ nSplits then
    if nSplits = 1 then some ([extent], s)
    else if extent = 1 then some (List.replicate nSplits 1, s)
    else do
      let table ← primeTable
      let factorized ← table.factorize extent
      if nSplits = 2 then tileInTwo engine table factorized 1 1 s
      else tileInMany engine table nSplits factorized (List.replicate nSplits 1) s
  else none

/-- The loop of `SamplePerfectTile` with a limit; it goes on after `attempts` of them. -/
def sampleLimited (extent nSplits : Nat) (maxInnermostFactor : Int) : Nat → σ → Option (List Int × σ)
  | 0, _ => none
  | attempts + 1, s => do
      let (result, s) ← samplePerfectTile engine s extent nSplits
      if result.getLastD 0 ≤ maxInnermostFactor then some (result, s)
      else sampleLimited extent nSplits maxInnermostFactor attempts s

/-- `SamplePerfectTile` with a limit on the innermost factor; `-1` is none. -/
def samplePerfectTileLimited (attempts : Nat) (s : σ) (extent nSplits : Nat)
    (maxInnermostFactor : Int) : Option (List Int × σ) :=
  if maxInnermostFactor = -1 then samplePerfectTile engine s extent nSplits
  else if 2 ≤ nSplits then sampleLimited engine extent nSplits maxInnermostFactor attempts s
  else none

/-- The repair of a previous decision from the innermost tile on: what is left for the outermost one,
and the tiles, innermost first. -/
def repairTiles : Int → List Int → Int × List Int
  | len, [] => (len, [])
  | len, l :: outer =>
    let l := if len.tmod l ≠ 0 then len else l
    let rest := repairTiles (len.tdiv l) outer
    (rest.1, l :: rest.2)

def replayPerfectTile (extent : Int) (decision : List Int) : Option (List Int) :=
  if 2 ≤ decision.length then
    let repaired := repairTiles extent decision.tail.reverse
    some (repaired.1 :: repaired.2.reverse)
  else none

/-- `SamplePerfectTile` of a loop, whose extent may be no constant; it takes a 32-bit extent. -/
def samplePerfectTileOfLoop (attempts : Nat) (s : σ) (extent : Option Int) (nSplits : Nat)
    (maxInnermostFactor : Int) (decision : Option (List Int)) : Option (List Int × σ) :=
  match extent, decision with
  | none, _ => some ((List.replicate nSplits 1).set 0 (-1), s)
  | some extent, some decision => (replayPerfectTile extent decision).map fun result => (result, s)
  | some extent, none => do
      let (result, s) ←
        samplePerfectTileLimited engine attempts s (wrap32 extent).toNat nSplits maxInnermostFactor
      if maxInnermostFactor ≠ -1 ∧ ¬result.getLastD 0 ≤ maxInnermostFactor then none
      else some (result, s)

end Model

section Samples

variable {σ : Type} {engine : RandEngine σ} {s : σ} {n k low high : Nat}

theorem sampleInt_returns (below : low < high) :
    Returns (fun drawn => low ≤ drawn.1 ∧ drawn.1 < high) (sampleInt engine s low high) := by
  rw [sampleInt, if_pos below]
  refine .ite (fun single => .some ⟨le_rfl, below⟩) fun _ => .some ?_
  have bounds := engine.inside s low (high - 1) (by omega)
  exact ⟨bounds.1, by omega⟩

theorem shuffle_returns {places i : Nat} {order : Array Nat} (enough : i + places ≤ n)
    (perm : order.toList.Perm (List.range n)) :
    Returns (fun shuffled => shuffled.1.toList.Perm (List.range n))
      (shuffle engine n places i order s) := by
  induction places generalizing i order s with
  | zero => exact .some perm
  | succ places ih =>
    have size : order.size = n := by rw [← Array.length_toList, perm.length_eq, List.length_range]
    refine (sampleInt_returns (show i < n by omega)).bind fun ⟨j, s⟩ ⟨_, below⟩ => ?_
    have inside : i < order.size ∧ j < order.size := ⟨by omega, size ▸ below⟩
    change Returns _ (if inside : i < order.size ∧ j < order.size then
      shuffle engine n places (i + 1) (order.swap i j inside.1 inside.2) s else none)
    rw [dif_pos inside]
    apply ih (by omega)
    exact (Array.perm_iff_toList_perm.mp (Array.swap_perm inside.1 inside.2)).trans perm

theorem sampleWithoutReplacement_returns (few : k ≤ n) :
    Returns (fun sampled => sampled.1.length = k ∧ sampled.1.Nodup ∧ ∀ x ∈ sampled.1, x < n)
      (sampleWithoutReplacement engine s n k) := by
  rw [sampleWithoutReplacement]
  refine .ite (fun one => ?_) fun _ => .ite (fun two => ?_) fun _ => ?_
  · refine (sampleInt_returns (show 0 < n by omega)).bind fun ⟨result, s⟩ ⟨_, below⟩ => .some ?_
    refine ⟨one.symm, List.nodup_singleton _, fun x member => ?_⟩
    rw [List.mem_singleton.mp member]
    exact below
  · refine (sampleInt_returns (show 0 < n by omega)).bind fun ⟨first, s⟩ ⟨_, below⟩ => ?_
    refine (sampleInt_returns (show 0 < n - 1 by omega)).bind fun ⟨second, s⟩ ⟨_, below'⟩ => .some ?_
    -- the second one steps over the first
    have other : first ≠ if second ≥ first then second + 1 else second := by
      split
      · omega
      · omega
    have inside : (if second ≥ first then second + 1 else second) < n := by
      change second < n - 1 at below'
      split
      · omega
      · omega
    refine ⟨two.symm, List.nodup_cons.mpr ⟨?_, List.nodup_singleton _⟩, fun x member => ?_⟩
    · rw [List.mem_singleton]
      exact other
    · rcases List.mem_cons.mp member with rfl | member
      · exact below
      · rw [List.mem_singleton.mp member]
        exact inside
  · have start : (Array.range n).toList.Perm (List.range n) := by rw [Array.toList_range]
    refine (shuffle_returns (show 0 + k ≤ n by omega) start).bind fun ⟨order, s⟩ perm => .some ?_
    have distinct := (perm.nodup_iff.mpr List.nodup_range).sublist (List.take_sublist k order.toList)
    refine ⟨?_, distinct, fun x member => ?_⟩
    · rw [List.length_take, perm.length_eq, List.length_range, Nat.min_eq_left few]
    · exact List.mem_range.mp (perm.subset (List.mem_of_mem_take member))

end Samples

/-- So many positive factors of the extent. -/
structure PerfectTile (nSplits : Nat) (extent : Int) (tiles : List Int) : Prop where
  length : tiles.length = nSplits
  positive : ∀ tile ∈ tiles, 0 < tile
  product : tiles.prod = extent

section Tiles

variable {σ : Type} {engine : RandEngine σ} {table : PrimeTable} {s : σ} {pairs : List (Int × Nat)}
  {i : Int} {p q n j x nSplits : Nat}

theorem wrap32_eq {x : Int} (nonneg : 0 ≤ x) (small : x ≤ intMax) : wrap32 x = x := by
  have isMax : (intMax : Int) = 2147483647 := rfl
  rw [wrap32, Int.bmod_def]
  split
  · omega
  · omega

theorem decode_cases (correct : table.Correct) (decoded : table.decode (i, j) = some (p, q)) :
    (i = -1 ∧ p = j ∧ q = 1) ∨ (i ≠ -1 ∧ table.primeAt i = some p ∧ 0 ≤ i ∧
      i.toNat = primeIndex p ∧ p.Prime ∧ p < kMaxPrime ∧ q = j) := by
  rw [PrimeTable.decode] at decoded
  split at decoded
  · rename_i last
    cases decoded
    exact .inl ⟨last, rfl, rfl⟩
  · rename_i other
    obtain ⟨prime, found, same⟩ := Option.map_eq_some_iff.mp decoded
    cases same
    refine .inr ⟨other, found, ?_⟩
    rw [PrimeTable.primeAt] at found
    split at found
    · rename_i nonneg
      rw [correct.primes] at found
      obtain ⟨below, prime⟩ := mem_primesBelow.mp (List.mem_of_getElem? found)
      exact ⟨nonneg, (primeIndex_of_get found).symm, prime, below, rfl⟩
    · cases found

theorem timesPow_spec (correct : table.Correct) (nonneg : 0 ≤ i) (index : i.toNat = primeIndex p)
    (prime : p.Prime) (below : p < kMaxPrime) (small : p ^ x ≤ intMax) (factor : Int) :
    timesPow table i x factor = some (factor * (p ^ x : Nat)) := by
  rw [timesPow]
  cases x with
  | zero => rw [if_neg (by simp), pow_zero, Nat.cast_one, mul_one]
  | succ x =>
    obtain ⟨tab, isTab, isPow⟩ := correct.power p x prime below small
    rw [if_pos (by omega), powAt, if_pos ⟨nonneg, by omega⟩, index, isTab, Option.bind_some,
      show ((x + 1 : Nat) : Int) - 1 = x by omega, Int.toNat_natCast, isPow, Option.map_some]

theorem decodes_uncons {pair : Int × Nat} (decodes : table.Decodes n (pair :: pairs)) :
    ∃ p q m, table.decode pair = some (p, q) ∧ p.Prime ∧ 1 ≤ q ∧ n = p ^ q * m ∧
      table.Decodes m pairs := by
  obtain ⟨factors, isFactors, factorization⟩ := decodes
  obtain ⟨⟨p, q⟩, others, decoded, related, rfl⟩ :=
    List.forall₂_cons_left_iff.mp (mapM_eq_some_iff.mp isFactors)
  have ⟨prime, positive⟩ := factorization.prime (p, q) List.mem_cons_self
  refine ⟨p, q, (others.map fun f => f.1 ^ f.2).prod, decoded, prime, positive, ?_,
    others, mapM_eq_some_iff.mpr related, ?_, ?_, rfl⟩
  · rw [← factorization.product, List.map_cons, List.prod_cons]
  · exact (List.nodup_cons.mp factorization.distinct).2
  · exact fun f member => factorization.prime f (List.mem_cons_of_mem _ member)

theorem Decodes.eq_one (decodes : table.Decodes n []) : n = 1 := by
  obtain ⟨factors, isFactors, factorization⟩ := decodes
  cases isFactors
  exact factorization.product.symm

theorem tileInTwo_returns (correct : table.Correct) {extent r0 r1 : Nat} (small : extent ≤ intMax)
    (positive : 0 < extent) (decodes : table.Decodes n pairs) (product : r0 * r1 * n = extent) :
    Returns (fun tiles => PerfectTile 2 extent tiles.1)
      (tileInTwo engine table pairs r0 r1 s) := by
  induction pairs generalizing n r0 r1 s with
  | nil =>
    rw [Decodes.eq_one decodes, mul_one] at product
    refine .some ⟨rfl, fun tile member => ?_, ?_⟩
    · have both : 0 < r0 * r1 := product ▸ positive
      rcases List.mem_cons.mp member with rfl | member
      · exact_mod_cast Nat.pos_of_mul_pos_right both
      · rw [List.mem_singleton.mp member]
        exact_mod_cast Nat.pos_of_mul_pos_left both
    · rw [List.prod_cons, List.prod_singleton, ← product]
      push_cast
      rfl
  | cons pair pairs ih =>
    obtain ⟨i, j⟩ := pair
    obtain ⟨p, q, m, decoded, prime, large, rfl, rest⟩ := decodes_uncons decodes
    -- a divisor of the extent fits into 32 bits
    have fits : ∀ a b : Nat, a * b = extent → wrap32 (a : Int) = (a : Int) := by
      intro a b same
      apply wrap32_eq (Int.natCast_nonneg a)
      have le : a ≤ extent := Nat.le_of_dvd positive (Dvd.intro b same)
      exact_mod_cast le.trans small
    rcases decode_cases correct decoded with ⟨last, rfl, rfl⟩ | ⟨other, -, nonneg, index, -, below, rfl⟩
    · rw [tileInTwo, if_pos last]
      rw [pow_one] at product
      refine (sampleInt_returns two_pos).bind fun ⟨side, s⟩ _ => .ite (fun _ => ?_) fun _ => ?_
      · have split : r0 * (r1 * p) * m = extent := by rw [← product]; ring
        have whole : r1 * p * (r0 * m) = extent := by rw [← product]; ring
        rw [← Nat.cast_mul, fits _ _ whole]
        exact ih rest split
      · have split : r0 * p * r1 * m = extent := by rw [← product]; ring
        have whole : r0 * p * (r1 * m) = extent := by rw [← product]; ring
        rw [← Nat.cast_mul, fits _ _ whole]
        exact ih rest split
    · rw [tileInTwo, if_neg other]
      refine (sampleInt_returns (show 0 < q + 1 by omega)).bind fun ⟨x1, s⟩ ⟨_, drawn⟩ => ?_
      change x1 < q + 1 at drawn
      obtain ⟨x2, total⟩ := Nat.exists_eq_add_of_le (Nat.le_of_lt_succ drawn)
      have power : p ^ q = p ^ x1 * p ^ x2 := by rw [total, pow_add]
      have first : r0 * p ^ x1 * (r1 * p ^ x2 * m) = extent := by rw [← product, power]; ring
      have second : r1 * p ^ x2 * (r0 * p ^ x1 * m) = extent := by rw [← product, power]; ring
      have bound : ∀ e, e ≤ q → p ^ e ≤ intMax := by
        intro e le
        have divides : p ^ e ∣ extent := (pow_dvd_pow p le).trans ⟨r0 * r1 * m, by rw [← product]; ring⟩
        exact (Nat.le_of_dvd positive divides).trans small
      change Returns _ ((timesPow table i x1 r0).bind fun result0 =>
        (timesPow table i ((q : Int) - x1) r1).bind fun result1 =>
          tileInTwo engine table pairs (wrap32 result0) (wrap32 result1) s)
      rw [show (q : Int) - x1 = x2 by omega,
        timesPow_spec correct nonneg index prime below (bound x1 (by omega)),
        timesPow_spec correct nonneg index prime below (bound x2 (by omega)),
        Option.bind_some, Option.bind_some, ← Nat.cast_mul, ← Nat.cast_mul, fits _ _ first,
        fits _ _ second]
      exact ih rest (by rw [← first]; ring)

theorem modify_product {factor : Int} {tiles : List Int} {k : Nat} (inside : k < tiles.length) :
    (tiles.modify k (· * factor)).prod = tiles.prod * factor := by
  induction tiles generalizing k with
  | nil => cases inside
  | cons tile tiles ih =>
    cases k with
    | zero => rw [List.modify_zero_cons, List.prod_cons, List.prod_cons, mul_right_comm]
    | succ k =>
      rw [List.modify_succ_cons, List.prod_cons, List.prod_cons,
        ih (Nat.lt_of_succ_lt_succ inside), mul_assoc]

theorem modify_positive {factor : Int} {tiles : List Int} (positive : ∀ tile ∈ tiles, 0 < tile)
    (larger : 0 < factor) (k : Nat) : ∀ tile ∈ tiles.modify k (· * factor), 0 < tile := by
  intro tile member
  obtain ⟨j, isTile⟩ := List.mem_iff_getElem?.mp member
  rw [List.getElem?_modify] at isTile
  obtain ⟨old, isOld, rfl⟩ := Option.map_eq_some_iff.mp isTile
  have before := positive old (List.mem_of_getElem? isOld)
  split
  · exact mul_pos before larger
  · exact before

theorem multiplyAt_returns {tiles : List Int} {extent factor : Int} {k : Nat}
    (perfect : PerfectTile nSplits extent tiles) (inside : k < nSplits) (positive : 0 < factor) :
    Returns (PerfectTile nSplits (extent * factor)) (multiplyAt tiles k factor) := by
  have inTiles : k < tiles.length := perfect.length.symm ▸ inside
  rw [multiplyAt, if_pos inTiles]
  refine .some ⟨(List.length_modify _ _ _).trans perfect.length,
    modify_positive perfect.positive positive k, ?_⟩
  rw [modify_product inTiles, perfect.product]

theorem increasing_room {samples : List Nat} {next total : Nat}
    (sorted : (samples ++ [total]).Pairwise (· < ·)) (later : ∀ x ∈ samples ++ [total], next ≤ x) :
    next + (samples ++ [total]).length ≤ total + 1 := by
  induction samples generalizing next with
  | nil =>
    have := later total List.mem_cons_self
    rw [List.nil_append, List.length_singleton]
    omega
  | cons sample samples ih =>
    obtain ⟨increasing, sortedRest⟩ := List.pairwise_cons.mp sorted
    have start : next ≤ sample := later sample List.mem_cons_self
    have after : ∀ x ∈ samples ++ [total], sample + 1 ≤ x := increasing
    have room := ih sortedRest after
    rw [List.cons_append, List.length_cons]
    omega

theorem distribute_returns (correct : table.Correct) (nonneg : 0 ≤ i)
    (index : i.toNat = primeIndex p) (prime : p.Prime) (below : p < kMaxPrime) {tiles : List Int}
    {samples : List Nat} {next e total : Nat} (sorted : (samples ++ [total]).Pairwise (· < ·)) (later : ∀ x ∈ samples ++ [total], next ≤ x)
    (lengths : tiles.length = (samples ++ [total]).length)
    (exponent : total + 1 = next + tiles.length + e) (small : p ^ e ≤ intMax)
    (positive : ∀ tile ∈ tiles, 0 < tile) :
    Returns (PerfectTile tiles.length (tiles.prod * (p ^ e : Nat)))
      (distribute table i ((next : Int) - 1) tiles (samples ++ [total])) := by
  induction samples generalizing tiles next e with
  | nil =>
    obtain ⟨tile, rfl⟩ := List.length_eq_one_iff.mp lengths
    have first := positive tile List.mem_cons_self
    have isTotal : total = next + e := by
      rw [List.length_singleton] at exponent
      omega
    change Returns _ ((timesPow table i ((total : Int) - (next - 1) - 1) tile).bind fun factor =>
      some [factor])
    rw [show (total : Int) - (next - 1) - 1 = e by omega,
      timesPow_spec correct nonneg index prime below small, Option.bind_some]
    refine .some ⟨rfl, fun tile' member => ?_, ?_⟩
    · rw [List.mem_singleton.mp member]
      exact mul_pos first (by exact_mod_cast Nat.pow_pos prime.pos)
    · rw [List.prod_singleton, List.prod_singleton]
  | cons sample samples ih =>
    obtain ⟨tile, tiles, rfl⟩ := List.exists_cons_of_length_eq_add_one lengths
    obtain ⟨increasing, sortedRest⟩ := List.pairwise_cons.mp sorted
    have start : next ≤ sample := later sample List.mem_cons_self
    obtain ⟨x, isSample⟩ := Nat.exists_eq_add_of_le start
    have lengths' : tiles.length = (samples ++ [total]).length := Nat.succ.inj lengths
    have after : ∀ x ∈ samples ++ [total], sample + 1 ≤ x := increasing
    have room : sample + 1 + tiles.length ≤ total + 1 := by
      rw [lengths']
      exact increasing_room sortedRest after
    obtain ⟨e', isRest⟩ := Nat.exists_eq_add_of_le room
    have whole : e = x + e' := by
      rw [List.length_cons] at exponent
      omega
    have bound : ∀ k, k ≤ e → p ^ k ≤ intMax := fun k le =>
      (Nat.pow_le_pow_right prime.pos le).trans small
    change Returns _ ((timesPow table i ((sample : Int) - (next - 1) - 1) tile).bind fun factor =>
      (distribute table i sample tiles (samples ++ [total])).bind fun factors =>
        some (factor :: factors))
    rw [show (sample : Int) - (next - 1) - 1 = x by omega,
      timesPow_spec correct nonneg index prime below (bound x (by omega)), Option.bind_some]
    have rest := ih sortedRest after lengths' isRest (bound e' (by omega))
      fun tile member => positive tile (List.mem_cons_of_mem _ member)
    rw [show ((sample + 1 : Nat) : Int) - 1 = sample by omega] at rest
    refine rest.bind fun factors perfect => .some ⟨?_, fun factor member => ?_, ?_⟩
    · rw [List.length_cons, List.length_cons, perfect.length]
    · rcases List.mem_cons.mp member with rfl | member
      · exact mul_pos (positive tile List.mem_cons_self) (by exact_mod_cast Nat.pow_pos prime.pos)
      · exact perfect.positive factor member
    · rw [List.prod_cons, List.prod_cons, perfect.product, whole, pow_add]
      push_cast
      ring

theorem valueCount_eq (one : 1 ≤ n) (small : n + nSplits ≤ intMax + 1) :
    valueCount (n + nSplits - 1) = some (n + nSplits - 1) := by
  have isMax : intMax = 2147483647 := rfl
  have fits : wrap32 ((n : Int) + nSplits - 1) = (n : Int) + nSplits - 1 := by
    apply wrap32_eq
    · omega
    · omega
  rw [valueCount, fits, if_pos (by omega)]
  congr 1
  omega

theorem exponent_le (prime : p.Prime) (small : p ^ q ≤ intMax) : q ≤ 30 := by
  by_contra large
  have power : 2 ^ 31 ≤ p ^ q :=
    (Nat.pow_le_pow_right two_pos (not_le.mp large)).trans (Nat.pow_le_pow_left prime.two_le q)
  have isMax : intMax = 2147483647 := rfl
  omega

theorem tileInMany_returns (correct : table.Correct) {extent : Nat} (small : extent ≤ intMax)
    (positive : 0 < extent) (many : 3 ≤ nSplits) (few : nSplits + 30 ≤ intMax + 1)
    {tiles : List Int} {done : Nat} (decodes : table.Decodes n pairs) (product : done * n = extent)
    (perfect : PerfectTile nSplits done tiles) :
    Returns (fun tiles => PerfectTile nSplits extent tiles.1)
      (tileInMany engine table nSplits pairs tiles s) := by
  induction pairs generalizing n done tiles s with
  | nil =>
    rw [Decodes.eq_one decodes, mul_one] at product
    exact .some (product ▸ perfect)
  | cons pair pairs ih =>
    obtain ⟨i, j⟩ := pair
    obtain ⟨p, q, m, decoded, prime, large, rfl, rest⟩ := decodes_uncons decodes
    have next : done * p ^ q * m = extent := by rw [← product, mul_assoc]
    have fits : p ^ q ≤ intMax :=
      (Nat.le_of_dvd positive ⟨done * m, by rw [← next]; ring⟩).trans small
    have bigger : (0 : Int) < p := by exact_mod_cast prime.pos
    rcases decode_cases correct decoded with
      ⟨last, rfl, rfl⟩ | ⟨other, found, nonneg, index, -, below, rfl⟩
    · rw [tileInMany, if_pos last]
      refine (sampleInt_returns (show 0 < nSplits by omega)).bind fun ⟨k, s⟩ ⟨_, inside⟩ => ?_
      refine (multiplyAt_returns perfect inside bigger).bind fun tiles perfect => ?_
      exact ih rest next (by rw [pow_one, Nat.cast_mul]; exact perfect)
    · rw [tileInMany, if_neg other]
      refine .ite (fun one => ?_) fun several => ?_
      · subst one
        refine (sampleInt_returns (show 0 < nSplits by omega)).bind fun ⟨k, s⟩ ⟨_, inside⟩ => ?_
        change Returns _ ((table.primeAt i).bind _)
        rw [found, Option.bind_some]
        refine (multiplyAt_returns perfect inside bigger).bind fun tiles perfect => ?_
        exact ih rest next (by rw [pow_one, Nat.cast_mul]; exact perfect)
      · -- stars and bars
        change Returns _ ((valueCount (q + nSplits - 1)).bind _)
        have exponent := exponent_le prime fits
        rw [valueCount_eq large (by omega), Option.bind_some]
        refine (sampleWithoutReplacement_returns (show nSplits - 1 ≤ q + nSplits - 1 by omega)).bind
          fun ⟨sampled, s⟩ ⟨length, distinct, bounded⟩ => ?_
        have perm := List.mergeSort_perm sampled (fun a b => a ≤ b)
        have ordered : (sampled.mergeSort (fun a b => a ≤ b)).Pairwise (· ≤ ·) :=
          sampled.pairwise_mergeSort' (· ≤ ·)
        have strict : (sampled.mergeSort (fun a b => a ≤ b)).Pairwise (· < ·) :=
          (ordered.and (perm.nodup_iff.mpr distinct)).imp fun both => lt_of_le_of_ne both.1 both.2
        have below' : ∀ x ∈ sampled.mergeSort (fun a b => a ≤ b), x < q + nSplits - 1 :=
          fun x member => bounded x (perm.subset member)
        have sorted : (sampled.mergeSort (fun a b => a ≤ b) ++ [q + nSplits - 1]).Pairwise (· < ·) := by
          refine List.pairwise_append.mpr ⟨strict, List.pairwise_singleton _ _, ?_⟩
          intro x member y isLast
          rw [List.mem_singleton.mp isLast]
          exact below' x member
        have lengths : tiles.length =
            (sampled.mergeSort (fun a b => a ≤ b) ++ [q + nSplits - 1]).length := by
          change sampled.length = nSplits - 1 at length
          rw [perfect.length, List.length_append, perm.length_eq, length, List.length_singleton]
          omega
        have spread := distribute_returns correct nonneg index prime below sorted
          (fun x _ => Nat.zero_le x) lengths (show q + nSplits - 1 + 1 = 0 + tiles.length + q by
            rw [perfect.length]; omega) fits perfect.positive
        rw [perfect.length, perfect.product, Nat.cast_zero, zero_sub, ← Nat.cast_mul] at spread
        exact spread.bind fun tiles perfect => ih rest next perfect

theorem samplePerfectTile_returns {extent : Nat} (positive : 0 < extent) (small : extent ≤ intMax)
    (some' : 1 ≤ nSplits) (few : nSplits + 30 ≤ intMax + 1) :
    Returns (fun tiles => PerfectTile nSplits extent tiles.1)
      (samplePerfectTile engine s extent nSplits) := by
  obtain ⟨table, isTable, correct⟩ := primeTable_correct
  obtain ⟨pairs, isPairs, decodes⟩ := factorize_spec correct positive small
  have ones : PerfectTile nSplits (1 : Nat) (List.replicate nSplits 1) := by
    refine ⟨List.length_replicate, fun tile member => ?_, ?_⟩
    · rw [(List.mem_replicate.mp member).2]
      exact one_pos
    · rw [List.prod_replicate, one_pow, Nat.cast_one]
  rw [samplePerfectTile, if_pos ⟨positive, some'⟩]
  refine .ite (fun single => .some ?_) fun several => .ite (fun one => .some ?_) fun _ => ?_
  · refine ⟨single.symm, fun tile member => ?_, List.prod_singleton⟩
    rw [List.mem_singleton.mp member]
    exact_mod_cast positive
  · rw [one]
    exact ones
  · rw [isTable]
    change Returns _ ((table.factorize extent).bind fun factorized => if nSplits = 2 then
      tileInTwo engine table factorized 1 1 s
      else tileInMany engine table nSplits factorized (List.replicate nSplits 1) s)
    rw [isPairs, Option.bind_some]
    refine .ite (fun two => ?_) fun _ => ?_
    · subst two
      have whole : 1 * 1 * extent = extent := by rw [one_mul, one_mul]
      exact tileInTwo_returns correct small positive decodes whole
    · exact tileInMany_returns correct small positive (by omega) few decodes (one_mul extent) ones

theorem tileInMany_overflow {tiles : List Int} (power : table.decode (i, j) = some (2, 30))
    (large : nSplits = 2147483619) :
    tileInMany engine table nSplits ((i, j) :: pairs) tiles s = none := by
  have other : i ≠ -1 := by
    rintro rfl
    cases power
  have thirty : j = 30 := by
    rw [PrimeTable.decode, if_neg other] at power
    obtain ⟨prime, -, same⟩ := Option.map_eq_some_iff.mp power
    exact (Prod.mk.inj same).2
  have negative : valueCount (j + nSplits - 1) = none := by
    rw [thirty, large]
    rfl
  rw [tileInMany, if_neg other, if_neg (by omega), negative]
  rfl

theorem decodes_two_pow (decodes : table.Decodes (2 ^ n) pairs) (positive : 0 < n) :
    ∃ pair, pairs = [pair] ∧ table.decode pair = some (2, n) := by
  obtain ⟨factors, isFactors, factorization⟩ := decodes
  have two : ∀ f ∈ factors, f.1 = 2 := by
    intro f member
    obtain ⟨prime, large⟩ := factorization.prime f member
    have divides : f.1 ∣ 2 ^ n := by
      rw [← factorization.product]
      exact (dvd_pow_self f.1 (by omega)).trans (List.dvd_prod (List.mem_map_of_mem member))
    exact (Nat.prime_dvd_prime_iff_eq prime Nat.prime_two).mp (prime.dvd_of_dvd_pow divides)
  match factors, isFactors with
  | [], _ =>
    have one : 1 = 2 ^ n := factorization.product
    have more : 1 < 2 ^ n := Nat.one_lt_two_pow (by omega)
    omega
  | [(p, q)], isFactors =>
    obtain rfl : p = 2 := two (p, q) List.mem_cons_self
    have same : q = n := by
      have product := factorization.product
      rw [List.map_singleton, List.prod_singleton] at product
      exact Nat.pow_right_injective le_rfl product
    obtain ⟨pair, rest, decoded, none, rfl⟩ :=
      List.forall₂_cons_right_iff.mp (mapM_eq_some_iff.mp isFactors)
    cases none
    exact ⟨pair, rfl, same ▸ decoded⟩
  | f :: g :: others, _ =>
    have first := two f List.mem_cons_self
    have second := two g (List.mem_cons_of_mem _ List.mem_cons_self)
    have distinct := factorization.distinct
    rw [List.map_cons, List.map_cons, first, second] at distinct
    exact absurd List.mem_cons_self (List.nodup_cons.mp distinct).1

end Tiles

def lowestDraw : RandEngine Unit where
  uniform _ low _ := (low, ())
  inside _ _ _ le := ⟨le_rfl, le⟩

/-- `p + n_splits - 1` is no 32-bit integer, where thirty twos are spread over 2147483619 tiles. -/
theorem samplePerfectTile_overflow :
    ¬Returns (fun tiles => PerfectTile 2147483619 1073741824 tiles.1)
      (samplePerfectTile lowestDraw () 1073741824 2147483619) := by
  rintro ⟨tiles, found, -⟩
  obtain ⟨table, isTable, correct⟩ := primeTable_correct
  obtain ⟨pairs, isPairs, decodes⟩ :=
    factorize_spec (n := 1073741824) correct (by decide) (by decide)
  obtain ⟨⟨i, j⟩, rfl, power⟩ := decodes_two_pow (n := 30) decodes (by decide)
  rw [samplePerfectTile, if_pos (by decide), if_neg (by decide), if_neg (by decide), isTable] at found
  change (table.factorize 1073741824).bind _ = some tiles at found
  rw [isPairs, Option.bind_some, if_neg (by decide), tileInMany_overflow power rfl] at found
  cases found

section Results

theorem samplePerfectTileLimited_ensures {σ : Type} {engine : RandEngine σ} {s : σ}
    {attempts extent nSplits : Nat} {maxInnermostFactor : Int} {p : List Int → Prop}
    (each : ∀ s, Ensures (fun tiles => p tiles.1) (samplePerfectTile engine s extent nSplits)) :
    Ensures (fun tiles => p tiles.1 ∧
        (maxInnermostFactor ≠ -1 → tiles.1.getLastD 0 ≤ maxInnermostFactor))
      (samplePerfectTileLimited engine attempts s extent nSplits maxInnermostFactor) := by
  rw [samplePerfectTileLimited]
  refine .ite (fun none tiles found => ⟨each s tiles found, fun limit => absurd none limit⟩) fun _ => ?_
  refine .ite (fun _ => ?_) fun _ => .none
  induction attempts generalizing s with
  | zero => exact .none
  | succ attempts ih =>
    refine (each s).bind fun ⟨tiles, s⟩ holds => ?_
    exact .ite (fun inside => .some ⟨holds, fun _ => inside⟩) fun _ => ih

/-- Every factorization is one into distinct primes, every sample without replacement is one, and
every fresh tile is perfect, whatever is drawn. -/
theorem samplePerfectTile_perfect :
    ∃ table, primeTable = some table ∧
      (∀ extent, 1 ≤ extent → extent ≤ intMax →
        ∃ pairs, table.factorize extent = some pairs ∧ table.Decodes extent pairs) ∧
      ∀ {σ : Type} (engine : RandEngine σ) (s : σ),
        (∀ n k, k ≤ n →
          Returns (fun sampled => sampled.1.length = k ∧ sampled.1.Nodup ∧ ∀ x ∈ sampled.1, x < n)
            (sampleWithoutReplacement engine s n k)) ∧
        ∀ extent nSplits, 1 ≤ extent → extent ≤ intMax → 1 ≤ nSplits → nSplits + 30 ≤ intMax + 1 →
          Returns (fun tiles => PerfectTile nSplits extent tiles.1)
            (samplePerfectTile engine s extent nSplits) ∧
          ∀ attempts maxInnermostFactor,
            Ensures (fun tiles => PerfectTile nSplits extent tiles.1 ∧
                (maxInnermostFactor ≠ -1 → tiles.1.getLastD 0 ≤ maxInnermostFactor))
              (samplePerfectTileLimited engine attempts s extent nSplits maxInnermostFactor) := by
  obtain ⟨table, isTable, correct⟩ := primeTable_correct
  refine ⟨table, isTable, fun extent positive small => factorize_spec correct positive small, ?_⟩
  intro σ engine s
  refine ⟨fun n k few => sampleWithoutReplacement_returns few, ?_⟩
  intro extent nSplits positive small one few
  refine ⟨samplePerfectTile_returns positive small one few, fun attempts maxInnermostFactor => ?_⟩
  apply samplePerfectTileLimited_ensures
  intro s tiles found
  have returns : Returns (fun tiles => PerfectTile nSplits extent tiles.1)
      (samplePerfectTile engine s extent nSplits) := samplePerfectTile_returns positive small one few
  obtain ⟨tiles', found', perfect⟩ := returns
  rw [found] at found'
  cases found'
  exact perfect

end Results

section Replay

variable {len extent last : Int} {decision outer : List Int}

theorem repairTiles_perfect (positive : 0 < len) (tiles : ∀ tile ∈ outer, 0 < tile) :
    (repairTiles len outer).2.length = outer.length ∧
      (∀ tile ∈ (repairTiles len outer).1 :: (repairTiles len outer).2, 0 < tile) ∧
      (repairTiles len outer).1 * (repairTiles len outer).2.prod = len := by
  induction outer generalizing len with
  | nil => exact ⟨rfl, fun tile member => List.mem_singleton.mp member ▸ positive, mul_one len⟩
  | cons l outer ih =>
    have step : ∀ l', 0 < l' → l' ∣ len →
        (repairTiles (len.tdiv l') outer).2.length = outer.length ∧
          (∀ tile ∈ (repairTiles (len.tdiv l') outer).1 :: l' :: (repairTiles (len.tdiv l') outer).2,
            0 < tile) ∧
          (repairTiles (len.tdiv l') outer).1 *
            (l' * (repairTiles (len.tdiv l') outer).2.prod) = len := by
      intro l' larger divides
      have quotient : l' * len.tdiv l' = len := Int.mul_tdiv_cancel' divides
      have left : 0 < len.tdiv l' := by
        by_contra none
        have : l' * len.tdiv l' ≤ 0 := mul_nonpos_of_nonneg_of_nonpos larger.le (not_lt.mp none)
        omega
      obtain ⟨length, others, product⟩ :=
        ih left fun tile member => tiles tile (List.mem_cons_of_mem _ member)
      obtain ⟨first, rest⟩ := List.forall_mem_cons.mp others
      refine ⟨length, List.forall_mem_cons.mpr ⟨first, List.forall_mem_cons.mpr ⟨larger, rest⟩⟩, ?_⟩
      rw [mul_left_comm, product, quotient]
    rw [repairTiles, List.length_cons, List.length_cons, List.prod_cons]
    by_cases divides : l ∣ len
    · have stays : ¬len.tmod l ≠ 0 := not_not.mpr (Int.tmod_eq_zero_of_dvd divides)
      simp only [if_neg stays]
      obtain ⟨length, others, product⟩ := step l (tiles l List.mem_cons_self) divides
      exact ⟨congrArg (· + 1) length, others, product⟩
    · have replaced : len.tmod l ≠ 0 := fun zero => divides (Int.dvd_of_tmod_eq_zero zero)
      simp only [if_pos replaced]
      obtain ⟨length, others, product⟩ := step len positive dvd_rfl
      exact ⟨congrArg (· + 1) length, others, product⟩

theorem replayPerfectTile_last (many : 2 ≤ decision.length) :
    Returns (fun tiles => tiles.getLastD 0 =
        if decision.getLastD 0 ∣ extent then decision.getLastD 0 else extent)
      (replayPerfectTile extent decision) := by
  match decision, many with
  | first :: second :: rest, many =>
    rw [replayPerfectTile, if_pos many]
    refine .some ?_
    obtain ⟨inner, outer, reversed⟩ : ∃ inner outer, (second :: rest).reverse = inner :: outer := by
      apply List.exists_cons_of_ne_nil
      exact List.reverse_ne_nil_iff.mpr (List.cons_ne_nil second rest)
    have isLast : (first :: second :: rest).getLastD 0 = inner := by
      have unreversed : second :: rest = outer.reverse ++ [inner] := by
        rw [← List.reverse_cons, ← reversed, List.reverse_reverse]
      rw [unreversed, ← List.cons_append, List.getLastD_concat]
    rw [isLast, List.tail_cons, reversed, repairTiles, List.reverse_cons, ← List.cons_append,
      List.getLastD_concat]
    by_cases divides : inner ∣ extent
    · rw [if_pos divides, if_neg (not_not.mpr (Int.tmod_eq_zero_of_dvd divides))]
    · rw [if_neg divides, if_pos fun zero => divides (Int.dvd_of_tmod_eq_zero zero)]

theorem replayPerfectTile_perfect (positive : 1 ≤ extent) (many : 2 ≤ decision.length)
    (tiles : ∀ tile ∈ decision, 0 < tile) :
    Returns (PerfectTile decision.length extent) (replayPerfectTile extent decision) := by
  have inner : ∀ tile ∈ decision.tail.reverse, 0 < tile := fun tile member =>
    tiles tile (List.mem_of_mem_tail (List.mem_reverse.mp member))
  obtain ⟨length, others, product⟩ := repairTiles_perfect (show 0 < extent by omega) inner
  rw [replayPerfectTile, if_pos many]
  refine .some ⟨?_, fun tile member => ?_, ?_⟩
  · rw [List.length_cons, List.length_reverse, length, List.length_reverse, List.length_tail]
    omega
  · apply others tile
    rcases List.mem_cons.mp member with rfl | member
    · exact List.mem_cons_self
    · exact List.mem_cons_of_mem _ (List.mem_reverse.mp member)
  · rw [List.prod_cons, List.prod_reverse, product]

/-- The limit of the innermost factor is not looked at when a decision is replayed: the tiles are
within it where the factor that stays, or the extent that takes its place, is. -/
theorem replayPerfectTile_legal_iff {σ : Type} (engine : RandEngine σ) (attempts : Nat) (s : σ)
    {maxInnermostFactor : Int} (positive : 1 ≤ extent) (many : 2 ≤ decision.length)
    (tiles : ∀ tile ∈ decision, 0 < tile) :
    Returns (fun result => PerfectTile decision.length extent result.1 ∧
        (maxInnermostFactor ≠ -1 → result.1.getLastD 0 ≤ maxInnermostFactor))
      (samplePerfectTileOfLoop engine attempts s (some extent) decision.length maxInnermostFactor
        (some decision)) ↔
    maxInnermostFactor = -1 ∨
      if decision.getLastD 0 ∣ extent then decision.getLastD 0 ≤ maxInnermostFactor
      else extent ≤ maxInnermostFactor := by
  obtain ⟨result, found, perfect⟩ := replayPerfectTile_perfect positive many tiles
  have innermost : Returns _ (replayPerfectTile extent decision) := replayPerfectTile_last many
  obtain ⟨result', found', last⟩ := innermost
  rw [found] at found'
  cases found'
  rw [samplePerfectTileOfLoop, found, Option.map_some]
  have innermost : result.getLastD 0 ≤ maxInnermostFactor ↔
      if decision.getLastD 0 ∣ extent then decision.getLastD 0 ≤ maxInnermostFactor
      else extent ≤ maxInnermostFactor := by
    rw [last]
    split
    · rfl
    · rfl
  constructor
  · rintro ⟨_, same, -, inside⟩
    cases same
    by_cases none : maxInnermostFactor = -1
    · exact .inl none
    · exact .inr (innermost.mp (inside none))
  · intro fits
    refine .some ⟨perfect, fun limited => ?_⟩
    exact innermost.mpr (fits.resolve_left limited)

/-- Tiles of two and two are repaired to one and seven, above a limit of two. -/
theorem replayPerfectTile_beyond :
    samplePerfectTileOfLoop lowestDraw 0 () (some 7) 2 2 (some [2, 2]) = some ([1, 7], ()) ∧
      ¬Returns (fun result => PerfectTile 2 7 result.1 ∧ ((2 : Int) ≠ -1 → result.1.getLastD 0 ≤ 2))
        (samplePerfectTileOfLoop lowestDraw 0 () (some 7) 2 2 (some [2, 2])) := by
  have run :
      samplePerfectTileOfLoop lowestDraw 0 () (some 7) 2 2 (some [2, 2]) = some ([1, 7], ()) := by
    decide
  refine ⟨run, ?_⟩
  rw [run]
  rintro ⟨_, same, -, inside⟩
  cases same
  exact absurd (inside (by decide)) (by decide)

theorem replayPerfectTile_legal_seven :
    Returns (fun result => PerfectTile 2 6 result.1 ∧ ((2 : Int) ≠ -1 → result.1.getLastD 0 ≤ 2))
      (samplePerfectTileOfLoop lowestDraw 0 () (some 6) 2 2 (some [5, 2])) :=
  have tiles : ∀ tile ∈ [(5 : Int), 2], 0 < tile := by decide
  (replayPerfectTile_legal_iff lowestDraw 0 () (by decide) (by decide) tiles).mpr (by decide)

end Replay

end Tvm.Tir
