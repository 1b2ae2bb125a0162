import Mathlib
import Tvm.Tir.SampleTile
import Tvm.Tir.Trace

/-!
# Mutation of tile sizes

`FactorMemo` and `MutateSampleTileSize` of `mutate_tile_size.cc`, with `Trace::WithDecision`.  The
loop of rejected draws runs for some number of rounds; `none` is a failed check or an index outside.
-/

namespace Tvm.Tir

open Lib

def divisorsFrom (n i : Nat) : List Nat :=
  if i * i ≤ n then
    (if n % i = 0 then i :: if i * i ≠ n then [n / i] else [] else []) ++ divisorsFrom n (i + 1)
  else []
  termination_by n + 1 - i
  decreasing_by
    have := Nat.le_mul_self i
    omega

/-- What `Factorize` computes; below one the loop is not entered. -/
def computeFactors (n : Int) : List Nat :=
  (divisorsFrom n.toNat 1).mergeSort (fun a b => a ≤ b)

structure FactorMemo where
  entries : List (Int × List Nat)
  computed : ∀ entry ∈ entries, entry.2 = computeFactors entry.1

def FactorMemo.query (memo : FactorMemo) (n : Int) : Option (List Nat) :=
  memo.entries.lookup n

def FactorMemo.add (memo : FactorMemo) (n : Int) : FactorMemo where
  entries := (n, computeFactors n) :: memo.entries
  computed := List.forall_mem_cons.mpr ⟨rfl, memo.computed⟩

def FactorMemo.factorize (memo : FactorMemo) (n : Int) : List Nat × FactorMemo :=
  match memo.query (wrap32 n) with
  | some result => (result, memo)
  | none => (computeFactors (wrap32 n), memo.add (wrap32 n))

section Trace

variable {τ : Type}

/-- `GetNumValidInstructions` instructions. -/
def Trace.validInsts (trace : Trace τ) (removePostproc : Bool) : List (Instruction τ) :=
  if removePostproc then trace.insts.takeWhile fun inst => !inst.kind.isPostproc else trace.insts

def Trace.withDecision (trace : Trace τ) (inst : Instruction τ) (decision : Object)
    (removePostproc : Bool) : Trace τ where
  insts := trace.validInsts removePostproc
  decisions := (inst.address, decision) :: trace.decisions.filter (·.1 ≠ inst.address)

@[simp]
theorem Trace.getDecision_withDecision (trace : Trace τ) (inst : Instruction τ) (decision : Object)
    (removePostproc : Bool) :
    (trace.withDecision inst decision removePostproc).getDecision inst = decision := by
  rw [Trace.getDecision, Trace.withDecision, List.lookup_cons_self, Option.getD_some]

end Trace

def wrap64 (x : Int) : Int :=
  x.bmod (2 ^ 64)

/-- What the loop has come to: more rounds, `NullOpt` or a trace. -/
inductive Mutated (τ : Type) where
  | running
  | nullOpt
  | trace (mutated : Trace τ)

/-- The scan for the largest of so many factors that keeps the target within the limit, down to the
first one; the draw that follows fails where there is no factor. -/
def maxFactorIndex (factors : List Nat) (target limit : Int) : Nat → Option Nat
  | 0 => none
  | 1 => some 0
  | index + 2 => do
      let factor ← factors[index + 1]?
      if wrap64 (factor * target) ≤ limit then some (index + 1)
      else maxFactorIndex factors target limit (index + 1)

def moveFactor (tiles : List Int) (x y : Nat) (divideFactor : Int) : Option (List Int) := do
  let source ← tiles[x]?
  let tiles := tiles.set x (source.tdiv divideFactor)
  let target ← tiles[y]?
  some (tiles.set y (wrap64 (target * divideFactor)))

def Object.asInteger : Object → Option Int
  | .int value => some value
  | _ => none

section Mutate

variable {σ τ : Type} (engine : RandEngine σ)

def mutateByDraw (trace : Trace τ) (inst : Instruction τ) (tiles : List Int) (x y : Nat)
    (factors : List Nat) (count : Nat) (memo : FactorMemo) (s : σ) :
    Option (Mutated τ × FactorMemo × σ) := do
  let (index, s) ← sampleInt engine s 1 count
  let divideFactor ← factors[index]?
  let tiles ← moveFactor tiles x y divideFactor
  some (.trace (trace.withDecision inst (.array (tiles.map .int)) true), memo, s)

/-- `MutateSampleTileSize`, for so many rounds. -/
def mutateSampleTileSize (trace : Trace τ) (inst : Instruction τ) (tiles : List Int) :
    Nat → FactorMemo → σ → Option (Mutated τ × FactorMemo × σ)
  | 0, memo, s => some (.running, memo, s)
  | rounds + 1, memo, s => do
      let (x, s) ← sampleInt engine s 0 tiles.length
      let source ← tiles[x]?
      if source ≤ 1 then mutateSampleTileSize trace inst tiles rounds memo s
      else
        let (y, s) ← sampleInt engine s 0 (tiles.length - 1)
        let y := if y ≥ x then y + 1 else y
        let (factors, memo) := memo.factorize source
        if y ≠ tiles.length - 1 then
          mutateByDraw engine trace inst tiles x y factors factors.length memo s
        else
          let limit ← inst.attrs[1]?.bind Object.asInteger
          let target ← tiles[y]?
          let maxIndex ← maxFactorIndex factors target limit factors.length
          if maxIndex = 0 then
            if tiles.length ≤ 2 then some (.nullOpt, memo, s)
            else mutateSampleTileSize trace inst tiles rounds memo s
          else mutateByDraw engine trace inst tiles x y factors (maxIndex + 1) memo s

end Mutate

section Divisors

variable {n i d : Nat}

theorem mem_divisorsFrom :
    d ∈ divisorsFrom n i ↔
      ∃ j, i ≤ j ∧ j * j ≤ n ∧ n % j = 0 ∧ (d = j ∨ j * j ≠ n ∧ d = n / j) := by
  induction i using divisorsFrom.induct (n := n) with
  | case1 i inside ih =>
    have first : d ∈ (if n % i = 0 then i :: if i * i ≠ n then [n / i] else [] else []) ↔
        n % i = 0 ∧ (d = i ∨ i * i ≠ n ∧ d = n / i) := by
      split
      · rename_i divides
        rw [List.mem_cons]
        split
        · rename_i other
          rw [List.mem_singleton]
          exact ⟨fun member => ⟨divides, member.imp_right fun same => ⟨other, same⟩⟩,
            fun member => member.2.imp_right And.right⟩
        · rename_i square
          exact ⟨fun member => ⟨divides, .inl (member.resolve_right List.not_mem_nil)⟩,
            fun member => .inl (member.2.resolve_right fun other => square other.1)⟩
      · rename_i other
        exact ⟨fun member => absurd member List.not_mem_nil, fun member => absurd member.1 other⟩
    rw [divisorsFrom, if_pos inside, List.mem_append, first, ih]
    constructor
    · rintro (⟨divides, isFactor⟩ | ⟨j, above, below, rest⟩)
      · exact ⟨i, le_rfl, inside, divides, isFactor⟩
      · exact ⟨j, Nat.le_of_succ_le above, below, rest⟩
    · rintro ⟨j, above, below, divides, isFactor⟩
      rcases above.eq_or_lt with rfl | above
      · exact .inl ⟨divides, isFactor⟩
      · exact .inr ⟨j, above, below, divides, isFactor⟩
  | case2 i outside =>
    rw [divisorsFrom, if_neg outside]
    constructor
    · intro member
      cases member
    · rintro ⟨j, above, below, -⟩
      exact absurd ((Nat.mul_le_mul above above).trans below) outside

theorem between_of_mem (member : d ∈ divisorsFrom n (i + 1)) (divides : n % i = 0) :
    i < d ∧ d < n / i := by
  obtain ⟨j, above, below, divides', isFactor⟩ := mem_divisorsFrom.mp member
  obtain ⟨q, isQuotient⟩ := Nat.dvd_of_mod_eq_zero divides
  obtain ⟨r, isQuotient'⟩ := Nat.dvd_of_mod_eq_zero divides'
  rcases Nat.eq_zero_or_pos i with rfl | positive
  · rw [Nat.mod_zero] at divides
    subst divides
    have : 1 * 1 ≤ j * j := Nat.mul_le_mul above above
    omega
  have quotient : n / i = q := by rw [isQuotient, Nat.mul_div_cancel_left q positive]
  have quotient' : n / j = r := by rw [isQuotient', Nat.mul_div_cancel_left r (by omega)]
  -- both products are n
  have larger : j ≤ r := by
    rw [isQuotient'] at below
    exact Nat.le_of_mul_le_mul_left below (by omega)
  have smaller : r < q := by
    by_contra atMost
    have : i * q < j * r := Nat.mul_lt_mul_of_lt_of_le above (not_lt.mp atMost) (by omega)
    omega
  rcases isFactor with rfl | ⟨-, rfl⟩
  · omega
  · omega

theorem divisorsFrom_nodup : (divisorsFrom n i).Nodup := by
  induction i using divisorsFrom.induct (n := n) with
  | case1 i inside ih =>
    rw [divisorsFrom, if_pos inside]
    split
    · rename_i divides
      have apart : i ∉ divisorsFrom n (i + 1) := fun member =>
        absurd (between_of_mem member divides).1 (lt_irrefl i)
      split
      · rename_i other
        have apart' : n / i ∉ divisorsFrom n (i + 1) := fun member =>
          absurd (between_of_mem member divides).2 (lt_irrefl _)
        have different : i ≠ n / i := by
          intro same
          apply other
          nth_rewrite 2 [same]
          exact Nat.mul_div_cancel' (Nat.dvd_of_mod_eq_zero divides)
        refine List.nodup_cons.mpr ⟨fun member => ?_, List.nodup_cons.mpr ⟨apart', ih⟩⟩
        exact (List.mem_cons.mp member).elim different apart
      · exact List.nodup_cons.mpr ⟨apart, ih⟩
    · exact ih
  | case2 i outside =>
    rw [divisorsFrom, if_neg outside]
    exact List.nodup_nil

theorem mem_divisorsFrom_one (positive : 0 < n) : d ∈ divisorsFrom n 1 ↔ d ∣ n := by
  rw [mem_divisorsFrom]
  constructor
  · rintro ⟨j, -, -, divides, rfl | ⟨-, rfl⟩⟩
    · exact Nat.dvd_of_mod_eq_zero divides
    · exact Nat.div_dvd_of_dvd (Nat.dvd_of_mod_eq_zero divides)
  · rintro ⟨e, rfl⟩
    have first : 0 < d := Nat.pos_of_mul_pos_right positive
    have second : 0 < e := Nat.pos_of_mul_pos_left positive
    rcases le_or_gt d e with small | large
    · exact ⟨d, first, Nat.mul_le_mul_left d small, Nat.mul_mod_right d e, .inl rfl⟩
    · refine ⟨e, second, Nat.mul_le_mul_right e large.le, Nat.mul_mod_left d e, .inr ⟨?_, ?_⟩⟩
      · exact (Nat.mul_lt_mul_of_pos_right large second).ne
      · exact (Nat.mul_div_cancel d second).symm

theorem computeFactors_spec (positive : 0 < n) :
    (computeFactors n).Pairwise (· < ·) ∧ ∀ d, d ∈ computeFactors n ↔ d ∣ n := by
  have perm := List.mergeSort_perm (divisorsFrom n 1) (fun a b => a ≤ b)
  have ordered : ((divisorsFrom n 1).mergeSort (fun a b => a ≤ b)).Pairwise (· ≤ ·) :=
    (divisorsFrom n 1).pairwise_mergeSort' (· ≤ ·)
  rw [computeFactors, Int.toNat_natCast]
  constructor
  · exact (ordered.and (perm.nodup_iff.mpr divisorsFrom_nodup)).imp fun both =>
      lt_of_le_of_ne both.1 both.2
  · exact fun d => perm.mem_iff.trans (mem_divisorsFrom_one positive)

end Divisors

theorem FactorMemo.factorize_fst (memo : FactorMemo) (n : Int) :
    (memo.factorize n).1 = computeFactors (wrap32 n) := by
  rw [FactorMemo.factorize]
  split
  · rename_i result found
    obtain ⟨before, after, isEntries, -⟩ := List.lookup_eq_some_iff.mp found
    apply memo.computed (wrap32 n, result)
    rw [isEntries]
    exact List.mem_append_right before List.mem_cons_self
  · rfl

/-- As many positive tiles with the same product, of which two differ; the innermost one is within
the limit, or not above what it was when it exceeded the limit. -/
structure MutatedTiles (limit : Int) (old new : List Int) : Prop where
  length : new.length = old.length
  positive : ∀ tile ∈ new, 0 < tile
  product : new.prod = old.prod
  differ : ∃ x y, x ≠ y ∧ x < old.length ∧ y < old.length ∧ ∀ i, new[i]? ≠ old[i]? ↔ i = x ∨ i = y
  innermost : new.getLastD 0 ≤ limit ∨ limit < old.getLastD 0 ∧ new.getLastD 0 ≤ old.getLastD 0

section Tiles

variable {tiles : List Int} {x y i : Nat} {limit target : Int}

theorem wrap64_eq {z : Int} (nonneg : 0 ≤ z) (small : z < 2 ^ 63) : wrap64 z = z := by
  rw [wrap64, Int.bmod_def]
  split
  · omega
  · omega

theorem product_small {d : Nat} (small : d < 2 ^ 31) (positive : 0 < target)
    (targetSmall : target < 2 ^ 31) : (d : Int) * target < 2 ^ 63 := by
  have bound : (d : Int) ≤ 2 ^ 31 := by omega
  calc (d : Int) * target ≤ 2 ^ 31 * 2 ^ 31 := by gcongr
    _ < 2 ^ 63 := by norm_num

theorem set_product {tile : Int} (new : Int) (isTile : tiles[i]? = some tile) :
    (tiles.set i new).prod * tile = tiles.prod * new := by
  induction tiles generalizing i with
  | nil => cases isTile
  | cons first rest ih =>
    cases i with
    | zero =>
      cases isTile
      rw [List.set_cons_zero, List.prod_cons, List.prod_cons]
      ring
    | succ i =>
      rw [List.set_cons_succ, List.prod_cons, List.prod_cons, mul_assoc, ih isTile,
        mul_assoc]

theorem getLastD_eq (tiles : List Int) : tiles.getLastD 0 = tiles[tiles.length - 1]?.getD 0 := by
  rw [List.getLastD_eq_getLast?, List.getLast?_eq_getElem?]

theorem moveFactor_returns {d : Nat} {source : Int} (small : ∀ tile ∈ tiles, 0 < tile ∧ tile < 2 ^ 31)
    (isSource : tiles[x]? = some source) (isTarget : tiles[y]? = some target) (apart : x ≠ y)
    (large : 1 < d) (divides : (d : Int) ∣ source)
    (fits : y = tiles.length - 1 → target * d ≤ limit) :
    Returns (MutatedTiles limit tiles) (moveFactor tiles x y d) := by
  obtain ⟨insideX, -⟩ := List.getElem?_eq_some_iff.mp isSource
  obtain ⟨insideY, -⟩ := List.getElem?_eq_some_iff.mp isTarget
  obtain ⟨sourcePositive, sourceSmall⟩ := small source (List.mem_of_getElem? isSource)
  obtain ⟨targetPositive, targetSmall⟩ := small target (List.mem_of_getElem? isTarget)
  obtain ⟨q, isQuotient⟩ := divides
  have factorPositive : (0 : Int) < d := by omega
  have quotientPositive : 0 < q := by
    rw [isQuotient] at sourcePositive
    exact (pos_iff_pos_of_mul_pos sourcePositive).mp factorPositive
  have quotient : source.tdiv d = q := by
    rw [isQuotient, Int.mul_tdiv_cancel_left q factorPositive.ne']
  have factorSmall : (d : Int) ≤ source := Int.le_of_dvd sourcePositive ⟨q, isQuotient⟩
  have exact : wrap64 (target * d) = target * d := by
    apply wrap64_eq (mul_pos targetPositive factorPositive).le
    rw [mul_comm]
    exact product_small (by omega) targetPositive targetSmall
  have targetLater : (tiles.set x q)[y]? = some target := by
    rw [List.getElem?_set_ne apart, isTarget]
  have run : moveFactor tiles x y d = some ((tiles.set x q).set y (target * d)) := by
    rw [moveFactor, isSource]
    change ((tiles.set x (source.tdiv d))[y]?).bind _ = _
    rw [quotient, targetLater, Option.bind_some, exact]
  have value : ∀ i, ((tiles.set x q).set y (target * d))[i]? =
      if i = y then some (target * d) else if i = x then some q else tiles[i]? := by
    intro i
    rw [List.getElem?_set]
    split
    · rename_i same
      rw [if_pos same.symm, if_pos (by rwa [List.length_set])]
    · rename_i other
      rw [if_neg fun same => other same.symm, List.getElem?_set]
      split
      · rename_i same
        rw [if_pos same.symm]
      · rename_i other
        rw [if_neg fun same => other same.symm]
  have smaller : q < source := by
    rw [isQuotient]
    exact lt_mul_of_one_lt_left quotientPositive (by omega)
  have bigger : target < target * d := lt_mul_of_one_lt_right targetPositive (by omega)
  refine ⟨_, run, ⟨?_, fun tile member => ?_, ?_, ⟨x, y, apart, insideX, insideY, fun i => ?_⟩, ?_⟩⟩
  · rw [List.length_set, List.length_set]
  · rcases List.mem_or_eq_of_mem_set member with member | rfl
    · rcases List.mem_or_eq_of_mem_set member with member | rfl
      · exact (small tile member).1
      · exact quotientPositive
    · exact mul_pos targetPositive factorPositive
  · -- what one product gains the other has lost
    have first := set_product q isSource
    have second := set_product (target * d) targetLater
    have unscaled : (tiles.set x q).prod * d = tiles.prod := by
      apply mul_right_cancel₀ quotientPositive.ne'
      rw [← first, isQuotient]
      ring
    apply mul_right_cancel₀ targetPositive.ne'
    rw [second, ← unscaled]
    ring
  · rw [value]
    by_cases isY : i = y
    · rw [if_pos isY, isY, isTarget]
      exact ⟨fun _ => .inr rfl, fun _ same => absurd (Option.some.inj same) bigger.ne'⟩
    · rw [if_neg isY]
      by_cases isX : i = x
      · rw [if_pos isX, isX, isSource]
        exact ⟨fun _ => .inl rfl, fun _ same => absurd (Option.some.inj same) smaller.ne⟩
      · rw [if_neg isX]
        exact ⟨fun differs => absurd rfl differs, fun either => (either.elim isX isY).elim⟩
  · have sameLength : ((tiles.set x q).set y (target * d)).length = tiles.length := by
      rw [List.length_set, List.length_set]
    rw [getLastD_eq, getLastD_eq, sameLength, value]
    by_cases isY : tiles.length - 1 = y
    · rw [if_pos isY, Option.getD_some]
      exact .inl (fits isY.symm)
    · rw [if_neg isY]
      have notAbove :
          ((if tiles.length - 1 = x then some q else tiles[tiles.length - 1]?) : Option Int).getD 0 ≤
            tiles[tiles.length - 1]?.getD 0 := by
        split
        · rename_i isX
          rw [isX, isSource]
          exact smaller.le
        · rfl
      rcases le_or_gt (tiles[tiles.length - 1]?.getD 0) limit with within | exceeds
      · exact .inl (notAbove.trans within)
      · exact .inr ⟨exceeds, notAbove⟩

theorem maxFactorIndex_returns {factors : List Nat} {count : Nat} (target limit : Int)
    (some' : 0 < count) (inside : count ≤ factors.length) :
    Returns (fun index => index < count ∧ (index = 0 ∨
        ∃ factor, factors[index]? = some factor ∧ wrap64 (factor * target) ≤ limit))
      (maxFactorIndex factors target limit count) := by
  induction count using maxFactorIndex.induct with
  | case1 => cases some'
  | case2 => exact .some ⟨one_pos, .inl rfl⟩
  | case3 index ih =>
    have isFactor := List.getElem?_eq_getElem (show index + 1 < factors.length by omega)
    rw [maxFactorIndex, isFactor]
    refine .ite (fun within => .some ⟨by omega, .inr ⟨_, isFactor, within⟩⟩) fun _ => ?_
    exact (ih (by omega) (by omega)).imp fun index found => ⟨by omega, found.2⟩

end Tiles

section Runs

variable {σ τ : Type} {engine : RandEngine σ} {trace : Trace τ} {inst : Instruction τ}
  {tiles : List Int} {limit : Int} {memo : FactorMemo} {s : σ}

/-- What a result that is a trace has. -/
def Mutated.Stays (limit : Int) (tiles : List Int) (inst : Instruction τ) : Mutated τ → Prop
  | .trace mutated =>
    ∃ new, mutated.getDecision inst = .array (new.map .int) ∧ MutatedTiles limit tiles new
  | _ => True

theorem mutateByDraw_returns {x y count : Nat} {factors : List Nat} {source target : Int}
    (small : ∀ tile ∈ tiles, 0 < tile ∧ tile < 2 ^ 31) (isSource : tiles[x]? = some source)
    (isTarget : tiles[y]? = some target) (apart : x ≠ y) (many : 1 < count)
    (inside : count ≤ factors.length)
    (fits : ∀ index factor, 1 ≤ index → index < count → factors[index]? = some factor →
      1 < factor ∧ (factor : Int) ∣ source ∧ (y = tiles.length - 1 → target * factor ≤ limit)) :
    Returns (fun result => result.1.Stays limit tiles inst)
      (mutateByDraw engine trace inst tiles x y factors count memo s) := by
  refine (sampleInt_returns many).bind fun ⟨index, s⟩ ⟨first, below⟩ => ?_
  have isFactor := List.getElem?_eq_getElem (show index < factors.length from below.trans_le inside)
  obtain ⟨large, divides, within⟩ := fits index _ first below isFactor
  change Returns _ ((factors[index]?).bind fun divideFactor => _)
  rw [isFactor, Option.bind_some]
  have moved := moveFactor_returns small isSource isTarget apart large divides within
  refine moved.bind fun new mutated => ?_
  exact .some ⟨new, Trace.getDecision_withDecision .., mutated⟩

theorem factors_of_tile {source : Int} (memo : FactorMemo) (large : 1 < source) (small : source < 2 ^ 31) :
    ∃ factors, (memo.factorize source).1 = factors ∧ 2 ≤ factors.length ∧
      factors.Pairwise (· < ·) ∧ ∀ index factor : Nat, 1 ≤ index →
        factors[index]? = some factor → 1 < factor ∧ (factor : Int) ∣ source := by
  obtain ⟨n, rfl⟩ := Int.eq_ofNat_of_zero_le (show 0 ≤ source by omega)
  have same : wrap32 (n : Int) = n := wrap32_eq (by omega) (by
    have isMax : (intMax : Int) = 2147483647 := rfl
    omega)
  obtain ⟨sorted, divisors⟩ := computeFactors_spec (show 0 < n by omega)
  refine ⟨computeFactors n, by rw [FactorMemo.factorize_fst, same], ?_, sorted, ?_⟩
  · have both : [1, n] ⊆ computeFactors n := by
      intro d member
      rw [divisors]
      rcases List.mem_cons.mp member with rfl | member
      · exact one_dvd n
      · rw [List.mem_singleton.mp member]
    have distinct : [1, n].Nodup := by
      refine List.nodup_cons.mpr ⟨fun member => ?_, List.nodup_singleton n⟩
      have := List.mem_singleton.mp member
      omega
    exact (List.subperm_of_subset distinct both).length_le
  · intro index factor later isFactor
    obtain ⟨inside, rfl⟩ := List.getElem?_eq_some_iff.mp isFactor
    have divides := (divisors _).mp (List.getElem_mem inside)
    have first := (divisors _).mp (List.getElem_mem (show 0 < (computeFactors n).length by omega))
    have above := List.pairwise_iff_getElem.mp sorted 0 index (by omega) inside (by omega)
    have positive := Nat.pos_of_dvd_of_pos first (by omega)
    exact ⟨by omega, Int.natCast_dvd_natCast.mpr divides⟩

theorem le_of_sorted {factors : List Nat} {i j a b : Nat} (sorted : factors.Pairwise (· < ·))
    (before : i ≤ j) (isA : factors[i]? = some a) (isB : factors[j]? = some b) : a ≤ b := by
  obtain ⟨insideA, rfl⟩ := List.getElem?_eq_some_iff.mp isA
  obtain ⟨insideB, rfl⟩ := List.getElem?_eq_some_iff.mp isB
  rcases before.eq_or_lt with rfl | before
  · rfl
  · exact (List.pairwise_iff_getElem.mp sorted i j insideA insideB before).le

/-- Whatever is drawn, no check fails and no index is outside, and a trace that is returned has a
mutated decision; the factors of a tile are its divisors, each once and in order. -/
theorem mutateSampleTileSize_stays (engine : RandEngine σ) (trace : Trace τ) (rounds : Nat)
    (memo : FactorMemo) (s : σ) (many : 2 ≤ tiles.length)
    (small : ∀ tile ∈ tiles, 0 < tile ∧ tile < 2 ^ 31) (isLimit : inst.attrs[1]? = some (.int limit)) :
    Returns (fun result => result.1.Stays limit tiles inst)
        (mutateSampleTileSize engine trace inst tiles rounds memo s) ∧
      ∀ n : Nat, 0 < n → n < 2 ^ 31 → ((memo.factorize n).1.Pairwise (· < ·) ∧
        ∀ d, d ∈ (memo.factorize n).1 ↔ d ∣ n) := by
  constructor
  · induction rounds generalizing memo s with
    | zero => exact .some trivial
    | succ rounds ih =>
      refine (sampleInt_returns (show 0 < tiles.length by omega)).bind fun ⟨x, s⟩ ⟨_, insideX⟩ => ?_
      have isSource := List.getElem?_eq_getElem (show x < tiles.length from insideX)
      change Returns _ ((tiles[x]?).bind fun source => _)
      rw [isSource, Option.bind_some]
      refine .ite (fun _ => ih memo s) fun large => ?_
      refine (sampleInt_returns (show 0 < tiles.length - 1 by omega)).bind ?_
      intro ⟨drawn, s⟩ ⟨_, below⟩
      change drawn < tiles.length - 1 at below
      obtain ⟨y, isY⟩ : ∃ y, y = if drawn ≥ x then drawn + 1 else drawn := ⟨_, rfl⟩
      have placeY : x ≠ y ∧ y < tiles.length := by
        rw [isY]
        split
        · omega
        · omega
      obtain ⟨apart, insideY⟩ := placeY
      have isTarget := List.getElem?_eq_getElem insideY
      obtain ⟨factors, isFactors, enough, sorted, later⟩ := factors_of_tile memo
        (not_le.mp large) (small _ (List.getElem_mem insideX)).2
      dsimp only
      rw [← isY, isFactors]
      refine .ite (fun inner => ?_) fun last => ?_
      · refine mutateByDraw_returns small isSource isTarget apart enough le_rfl ?_
        intro index factor first _ isFactor
        obtain ⟨above, divides⟩ := later index factor first isFactor
        exact ⟨above, divides, fun isLast => absurd isLast inner⟩
      · rw [isLimit]
        change Returns _ ((tiles[y]?).bind fun target => _)
        rw [isTarget, Option.bind_some]
        have scan := maxFactorIndex_returns tiles[y] limit (show 0 < factors.length by omega) le_rfl
        refine scan.bind fun index ⟨inside, fits⟩ => ?_
        refine .ite (fun zero => ?_) fun positive => ?_
        · exact .ite (fun _ => .some trivial) fun _ => ih _ s
        · obtain ⟨largest, isLargest, within⟩ := fits.resolve_left positive
          refine mutateByDraw_returns small isSource isTarget apart (by omega) inside ?_
          intro index' factor first before isFactor
          obtain ⟨above, divides⟩ := later index' factor first isFactor
          refine ⟨above, divides, fun _ => ?_⟩
          have smaller : factor ≤ largest := le_of_sorted sorted (by omega) isFactor isLargest
          have bound : largest < 2 ^ 31 := by
            have divides := (later index largest (by omega) isLargest).2
            have fits := small _ (List.getElem_mem insideX)
            have := Int.le_of_dvd fits.1 divides
            omega
          obtain ⟨targetPositive, targetSmall⟩ := small _ (List.getElem_mem insideY)
          rw [wrap64_eq (by positivity) (product_small bound targetPositive targetSmall)] at within
          calc tiles[y] * factor ≤ tiles[y] * largest := by gcongr
            _ = largest * tiles[y] := mul_comm ..
            _ ≤ limit := within
  · intro n positive below
    have same : wrap32 (n : Int) = n := wrap32_eq (by omega) (by
      have isMax : (intMax : Int) = 2147483647 := rfl
      omega)
    rw [FactorMemo.factorize_fst, same]
    exact computeFactors_spec positive

end Runs

def FactorMemo.empty : FactorMemo where
  entries := []
  computed _ member := absurd member List.not_mem_nil

/-- A `SamplePerfectTile` of two tiles, with a limit of four. -/
def twoTilesInst : Instruction Unit where
  address := 0
  kind := ⟨noneName, false, fun _ _ _ _ => some ([], ()), none, none⟩
  inputs := []
  attrs := [.int 2, .int 4]
  outputs := []

theorem mutateSampleTileSize_stays_six :
    Returns (fun result => result.1.Stays 4 [6, 2] twoTilesInst)
        (mutateSampleTileSize lowestDraw ⟨[twoTilesInst], []⟩ twoTilesInst [6, 2] 1 .empty ()) ∧
      ∀ n : Nat, 0 < n → n < 2 ^ 31 → (((FactorMemo.empty).factorize n).1.Pairwise (· < ·) ∧
        ∀ d, d ∈ ((FactorMemo.empty).factorize n).1 ↔ d ∣ n) :=
  mutateSampleTileSize_stays lowestDraw _ 1 .empty () (by decide) (by decide) rfl

end Tvm.Tir
