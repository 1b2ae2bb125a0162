import Tvm.Arith.SmithNormalForm

/-!
# Soundness of the diagonal form

Every step keeps what the equations say about the variables, and the iterations with an index leave
nothing but the diagonal in its row and column.
-/

namespace Tvm.Arith

open PrimExpr Matrix

theorem euclidTurns_spec {fuel : Nat} {s oldS r oldR a b : Int} (enough : r.natAbs ≤ fuel)
    (combination : b ∣ r - s * a) (oldCombination : b ∣ oldR - oldS * a) :
    (euclidTurns fuel s oldS r oldR).2.natAbs = Int.gcd oldR r ∧
      b ∣ (euclidTurns fuel s oldS r oldR).2 - (euclidTurns fuel s oldS r oldR).1 * a := by
  induction fuel generalizing s oldS r oldR with
  | zero =>
    obtain rfl : r = 0 := by omega
    exact ⟨(Int.gcd_zero_right oldR).symm, oldCombination⟩
  | succ fuel ih =>
    rw [euclidTurns]
    split
    · rename_i finished
      rw [finished, Int.gcd_zero_right]
      exact ⟨rfl, oldCombination⟩
    · rename_i running
      have remainder : oldR - oldR.tdiv r * r = oldR.tmod r := by
        rw [Int.tmod_def, mul_comm]
      have smaller : (oldR.tmod r).natAbs < r.natAbs := by
        rw [Int.natAbs_tmod]
        exact Nat.mod_lt _ (by omega)
      have nextCombination : b ∣ oldR - oldR.tdiv r * r - (oldS - oldR.tdiv r * s) * a := by
        have difference := dvd_sub oldCombination (combination.mul_left (oldR.tdiv r))
        have regroup : oldR - oldR.tdiv r * r - (oldS - oldR.tdiv r * s) * a =
            oldR - oldS * a - oldR.tdiv r * (r - s * a) := by ring
        rwa [regroup]
      rw [remainder] at nextCombination ⊢
      have rest := ih (by omega) nextCombination combination
      have gcd : Int.gcd r (oldR.tmod r) = Int.gcd oldR r := by
        rw [Int.tmod_def, Int.gcd_sub_mul_left_right, Int.gcd_comm]
      rwa [gcd] at rest

theorem exactEuclidean_spec {a b : Int} (nonzero : b ≠ 0) :
    (exactEuclidean a b).gcd.natAbs = Int.gcd a b ∧
      (exactEuclidean a b).x * a + (exactEuclidean a b).y * b = (exactEuclidean a b).gcd := by
  obtain ⟨gcd, factor⟩ : (euclidTurns b.natAbs 0 1 b |a|).2.natAbs = Int.gcd |a| b ∧
      b ∣ (euclidTurns b.natAbs 0 1 b |a|).2 - (euclidTurns b.natAbs 0 1 b |a|).1 * |a| :=
    euclidTurns_spec (le_refl b.natAbs) (by simp) (by simp)
  rw [gcd_abs_left] at gcd
  refine ⟨gcd, ?_⟩
  have divides : b ∣ (exactEuclidean a b).gcd - (exactEuclidean a b).x * a := by
    simp only [exactEuclidean]
    generalize euclidTurns b.natAbs 0 1 b |a| = found at factor ⊢
    split
    · rename_i sign
      rwa [abs_of_nonneg sign] at factor
    · rename_i sign
      rwa [abs_of_neg (by omega), ← neg_mul_comm] at factor
  have quotient : (exactEuclidean a b).y =
      ((exactEuclidean a b).gcd - (exactEuclidean a b).x * a).tdiv b :=
    if_pos nonzero
  rw [quotient, Int.tdiv_mul_cancel divides]
  ring

structure FactorsSpec (p q : Int) (found : Bezout) : Prop where
  combination : found.x * p.tdiv found.gcd + found.y * q.tdiv found.gcd = 1
  pivot : found.x * p + found.y * q = found.gcd
  cleared : q.tdiv found.gcd * p - p.tdiv found.gcd * q = 0
  nonzero : found.gcd ≠ 0
  le : found.gcd.natAbs ≤ p.natAbs
  lt : q.tmod p ≠ 0 → found.gcd.natAbs < p.natAbs
  same : q.tmod p = 0 → found = ⟨p, 1, 0⟩

theorem factors_spec {p q : Int} (pivot : p ≠ 0) (nonzero : q ≠ 0) :
    FactorsSpec p q (SmithState.factors p q) := by
  have divisors (found : Bezout) (left : found.gcd ∣ p) (right : found.gcd ∣ q)
      (unit : found.gcd ≠ 0) (combination : found.x * p + found.y * q = found.gcd) :
      found.x * p.tdiv found.gcd + found.y * q.tdiv found.gcd = 1 ∧
        q.tdiv found.gcd * p - p.tdiv found.gcd * q = 0 := by
    obtain ⟨s, hs⟩ := left
    obtain ⟨t, ht⟩ := right
    rw [hs, ht, Int.mul_tdiv_cancel_left _ unit, Int.mul_tdiv_cancel_left _ unit]
    refine ⟨mul_left_cancel₀ unit ?_, by ring⟩
    rw [hs, ht] at combination
    linear_combination combination
  rw [SmithState.factors]
  split
  · rename_i indivisible
    obtain ⟨gcd, combination⟩ := exactEuclidean_spec (a := p) nonzero
    have left : (exactEuclidean p q).gcd ∣ p := by
      rw [← Int.natAbs_dvd, gcd]
      exact Int.gcd_dvd_left p q
    have right : (exactEuclidean p q).gcd ∣ q := by
      rw [← Int.natAbs_dvd, gcd]
      exact Int.gcd_dvd_right p q
    have unit : (exactEuclidean p q).gcd ≠ 0 := by
      intro zero
      rw [zero, zero_dvd_iff] at left
      exact pivot left
    obtain ⟨one, cleared⟩ := divisors _ left right unit combination
    have le := Nat.le_of_dvd (Int.natAbs_pos.mpr pivot) (Int.natAbs_dvd_natAbs.mpr left)
    refine ⟨one, combination, cleared, unit, le, fun _ => ?_, fun divides => absurd divides indivisible⟩
    refine lt_of_le_of_ne le fun same => indivisible ?_
    have divides : p ∣ q := by
      rw [← Int.natAbs_dvd, ← same, Int.natAbs_dvd]
      exact right
    exact Int.tmod_eq_zero_of_dvd divides
  · rename_i divisible
    rw [not_not] at divisible
    have combination : (1 : Int) * p + 0 * q = p := by ring
    obtain ⟨one, cleared⟩ := divisors ⟨p, 1, 0⟩ (dvd_refl p) (Int.dvd_of_tmod_eq_zero divisible) pivot
      combination
    exact ⟨one, combination, cleared, pivot, le_refl _, fun indivisible => absurd divisible indivisible,
      fun _ => rfl⟩

/-- What the state says about the variables `x` where the equations are `A x = y`. -/
structure SmithState.Correct {k m n : Nat} (st : SmithState m n) (env : Env)
    (A : Matrix (Fin k) (Fin n) Int) (x : Fin n → Int) (y : Fin k → Int) : Prop where
  unknowns : ∃ X, (∀ j, (st.x j).value env = some (X j)) ∧ st.V *ᵥ X = x
  equations : ∃ Y, (∀ i, (st.y i).value env = some (Y i)) ∧
    ∀ z, st.S *ᵥ z = Y ↔ A *ᵥ (st.V *ᵥ z) = y
  injective : ∀ z z', st.V *ᵥ z = st.V *ᵥ z' → z = z'

/-- Rows and columns below the index are zero but for the diagonal. -/
def SmithState.DiagonalBelow {m n : Nat} (st : SmithState m n) (index : Nat) : Prop :=
  ∀ (i : Fin m) (j : Fin n), (i.val < index ∨ j.val < index) → i.val ≠ j.val → st.S i j = 0

section Steps

variable {k m n : Nat} {st : SmithState m n} {env : Env} {A : Matrix (Fin k) (Fin n) Int}
  {x : Fin n → Int} {y : Fin k → Int}

theorem SmithState.Correct.rows (correct : st.Correct env A x y) {S : Matrix (Fin m) (Fin n) Int}
    {rhs : Fin m → PrimExpr} (T : (Fin m → Int) → Fin m → Int) (injective : Function.Injective T)
    (rows : ∀ z, S *ᵥ z = T (st.S *ᵥ z))
    (values : ∀ Y, (∀ i, (st.y i).value env = some (Y i)) → ∀ i, (rhs i).value env = some (T Y i)) :
    SmithState.Correct { st with S := S, y := rhs } env A x y where
  unknowns := correct.unknowns
  equations := by
    obtain ⟨Y, isY, equations⟩ := correct.equations
    refine ⟨T Y, values Y isY, fun z => ?_⟩
    rw [← equations z, rows, injective.eq_iff]
  injective := correct.injective

theorem SmithState.Correct.columns (correct : st.Correct env A x y)
    {S : Matrix (Fin m) (Fin n) Int} {V : Matrix (Fin n) (Fin n) Int} {unknowns : Fin n → PrimExpr}
    (T T' : (Fin n → Int) → Fin n → Int) (left : Function.LeftInverse T T')
    (right : Function.LeftInverse T' T) (columns : ∀ z, S *ᵥ z = st.S *ᵥ T z)
    (transform : ∀ z, V *ᵥ z = st.V *ᵥ T z)
    (values : ∀ X, (∀ j, (st.x j).value env = some (X j)) →
      ∀ j, (unknowns j).value env = some (T' X j)) :
    SmithState.Correct { st with S := S, V := V, x := unknowns } env A x y where
  unknowns := by
    obtain ⟨X, isX, same⟩ := correct.unknowns
    refine ⟨T' X, values X isX, ?_⟩
    rw [transform, left, same]
  equations := by
    obtain ⟨Y, isY, equations⟩ := correct.equations
    refine ⟨Y, isY, fun z => ?_⟩
    rw [columns, transform, equations]
  injective := by
    intro z z' same
    rw [transform, transform] at same
    exact right.injective (correct.injective _ _ same)

theorem value_scaledSum {a b v w : Int} {e f : PrimExpr} (left : e.value env = some v)
    (right : f.value env = some w) :
    (SmithState.scaledSum a e b f).value env = some (a * v + b * w) :=
  value_add (value_mul (value_intImm env a) left) (value_mul (value_intImm env b) right)

theorem value_scaledDifference {a b v w : Int} {e f : PrimExpr} (left : e.value env = some v)
    (right : f.value env = some w) :
    (SmithState.scaledDifference a e b f).value env = some (a * v - b * w) :=
  value_sub (value_mul (value_intImm env a) left) (value_mul (value_intImm env b) right)

theorem swap_dotProduct (c j : Fin n) (u z : Fin n → Int) :
    (fun l => u (Equiv.swap c j l)) ⬝ᵥ z = u ⬝ᵥ fun l => z (Equiv.swap c j l) := by
  rw [dotProduct, dotProduct, ← Equiv.sum_comp (Equiv.swap c j)]
  simp only [Equiv.swap_apply_self]

variable {row i : Fin m} {column j : Fin n}

theorem SmithState.Correct.swapRows (correct : st.Correct env A x y) (row i : Fin m) :
    (st.swapRows row i).Correct env A x y := by
  refine correct.rows (fun u k => u (Equiv.swap row i k)) ?_ (fun z => rfl) fun Y isY k => isY _
  intro u u' same
  funext k
  have entry := congrFun same (Equiv.swap row i k)
  simpa only [Equiv.swap_apply_self] using entry

theorem SmithState.DiagonalBelow.above (diagonal : st.DiagonalBelow row.val)
    (index : column.val = row.val) (right : column ≤ j) {r : Fin m} (above : r < row) :
    st.S r j = 0 := by
  have first : r.val < row.val := above
  have second : column.val ≤ j.val := right
  exact diagonal r j (Or.inl first) (by omega)

theorem SmithState.DiagonalBelow.left (diagonal : st.DiagonalBelow row.val)
    (index : column.val = row.val) (below : row ≤ i) {c : Fin n} (left : c < column) :
    st.S i c = 0 := by
  have first : c.val < column.val := left
  have second : row.val ≤ i.val := below
  exact diagonal i c (Or.inr (by omega)) (by omega)

theorem swap_eq_of_zero {u : Fin n → Int} (first : u column = 0) (second : u j = 0) :
    (fun l => u (Equiv.swap column j l)) = u := by
  funext l
  by_cases isColumn : l = column
  · rw [isColumn, Equiv.swap_apply_left, first, second]
  · by_cases isOther : l = j
    · rw [isOther, Equiv.swap_apply_right, first, second]
    · rw [Equiv.swap_apply_of_ne_of_ne isColumn isOther]

theorem pairMap_eq_of_zero {k : Nat} {p q : Fin k} {a b c d : Int} {u : Fin k → Int}
    (first : u p = 0) (second : u q = 0) : Lib.pairMap p q a b c d u = u := by
  funext l
  rw [Lib.pairMap]
  split
  · rename_i same
    rw [same, first, second, mul_zero, mul_zero, add_zero]
  · split
    · rename_i same
      rw [same, first, second, mul_zero, mul_zero, add_zero]
    · rfl

theorem SmithState.Correct.swapColumns (correct : st.Correct env A x y)
    (diagonal : st.DiagonalBelow row.val) (index : column.val = row.val) (right : column < j) :
    (st.swapColumns row column j).Correct env A x y := by
  have inverse : Function.LeftInverse (fun (u : Fin n → Int) l => u (Equiv.swap column j l))
      (fun u l => u (Equiv.swap column j l)) := by
    intro u
    funext l
    simp only [Equiv.swap_apply_self]
  have whole : (st.swapColumns row column j).S =
      Matrix.of fun k l => st.S k (Equiv.swap column j l) := by
    funext k l
    by_cases below : row ≤ k
    · exact if_pos below
    · have above := lt_of_not_ge below
      refine (if_neg below).trans ?_
      exact (congrFun (swap_eq_of_zero (diagonal.above index (le_refl column) above)
        (diagonal.above index right.le above)) l).symm
  refine correct.columns _ _ inverse inverse (fun z => ?_) (fun z => ?_) fun X isX l => isX _
  · change (st.swapColumns row column j).S *ᵥ z = _
    rw [whole]
    funext k
    exact swap_dotProduct column j _ z
  · funext k
    exact swap_dotProduct column j _ z

theorem SmithState.Correct.moveColumn (correct : st.Correct env A x y)
    (diagonal : st.DiagonalBelow row.val) (index : column.val = row.val) :
    (st.moveColumn row column).Correct env A x y := by
  rw [SmithState.moveColumn]
  split
  · split
    · rename_i found
      have right := List.find?_some found
      simp only [decide_eq_true_eq] at right
      exact correct.swapColumns diagonal index right.1
    · exact correct
  · exact correct

theorem SmithState.Correct.clearBelow (correct : st.Correct env A x y)
    (diagonal : st.DiagonalBelow row.val) (index : column.val = row.val) (below : row < i)
    (pivot : st.S row column ≠ 0) : (st.clearBelow row column i).Correct env A x y := by
  rw [SmithState.clearBelow]
  split
  · rename_i nonzero
    have spec := factors_spec pivot nonzero
    generalize SmithState.factors (st.S row column) (st.S i column) = found at spec
    have whole : (Matrix.of fun k l =>
        if column ≤ l then Lib.pairMap row i found.x found.y ((st.S i column).tdiv found.gcd)
          (-(st.S row column).tdiv found.gcd) (fun r => st.S r l) k
        else st.S k l) = Lib.pairRows row i found.x found.y ((st.S i column).tdiv found.gcd)
          (-(st.S row column).tdiv found.gcd) st.S := by
      funext k l
      by_cases right : column ≤ l
      · exact if_pos right
      · have left := lt_of_not_ge right
        refine (if_neg right).trans ?_
        exact (congrFun (pairMap_eq_of_zero (u := fun r => st.S r l)
          (diagonal.left index (le_refl row) left) (diagonal.left index below.le left)) k).symm
    refine correct.rows (Lib.pairMap row i found.x found.y ((st.S i column).tdiv found.gcd)
      (-(st.S row column).tdiv found.gcd)) ?_ (fun z => ?_) fun Y isY k => ?_
    · exact Function.LeftInverse.injective (Lib.pairMap_involution below.ne spec.combination)
    · exact (congrArg (· *ᵥ z) whole).trans (Lib.pairRows_mulVec row i _ _ _ _ st.S z)
    · rw [Lib.pairMap]
      split
      · exact value_scaledSum (isY row) (isY i)
      · split
        · rw [value_scaledDifference (isY row) (isY i), neg_mul, ← sub_eq_add_neg]
        · exact isY k
  · exact correct

theorem SmithState.Correct.clearRight (correct : st.Correct env A x y)
    (diagonal : st.DiagonalBelow row.val) (index : column.val = row.val) (right : column < j)
    (pivot : st.S row column ≠ 0) : (st.clearRight row column j).1.Correct env A x y := by
  rw [SmithState.clearRight]
  split
  · rename_i nonzero
    have spec := factors_spec pivot nonzero
    generalize SmithState.factors (st.S row column) (st.S row j) = found at spec
    have whole : (Matrix.of fun k l =>
        if row ≤ k then Lib.pairMap column j found.x found.y ((st.S row j).tdiv found.gcd)
          (-(st.S row column).tdiv found.gcd) (st.S k) l
        else st.S k l) = Lib.pairColumns column j found.x found.y ((st.S row j).tdiv found.gcd)
          (-(st.S row column).tdiv found.gcd) st.S := by
      funext k l
      by_cases below : row ≤ k
      · exact if_pos below
      · have above := lt_of_not_ge below
        refine (if_neg below).trans ?_
        exact (congrFun (pairMap_eq_of_zero (diagonal.above index (le_refl column) above)
          (diagonal.above index right.le above)) l).symm
    have unit : found.x * (st.S row column).tdiv found.gcd +
        (st.S row j).tdiv found.gcd * found.y = 1 := by
      rw [mul_comm ((st.S row j).tdiv found.gcd)]
      exact spec.combination
    have unit' : (st.S row column).tdiv found.gcd * found.x +
        (st.S row j).tdiv found.gcd * found.y = 1 := by
      rw [mul_comm ((st.S row column).tdiv found.gcd)]
      exact unit
    refine correct.columns
      (Lib.pairMap column j found.x ((st.S row j).tdiv found.gcd) found.y
        (-(st.S row column).tdiv found.gcd))
      (Lib.pairMap column j ((st.S row column).tdiv found.gcd) ((st.S row j).tdiv found.gcd) found.y
        (-found.x))
      (Lib.pairMap_involution right.ne unit') (Lib.pairMap_involution right.ne unit) (fun z => ?_)
      (fun z => ?_) fun X isX l => ?_
    · exact (congrArg (· *ᵥ z) whole).trans
        (Lib.pairColumns_mulVec right.ne _ _ _ _ st.S z)
    · exact Lib.pairColumns_mulVec right.ne _ _ _ _ st.V z
    · rw [Lib.pairMap]
      split
      · exact value_scaledSum (isX column) (isX j)
      · split
        · rw [value_scaledDifference (isX column) (isX j), neg_mul, ← sub_eq_add_neg]
        · exact isX l
  · exact correct

end Steps

section Diagonal

variable {m n : Nat} {st st' : SmithState m n} {row i : Fin m} {column j : Fin n}

theorem SmithState.DiagonalBelow.congr (diagonal : st.DiagonalBelow row.val)
    (index : column.val = row.val)
    (same : ∀ k l, (k < row ∨ l < column) → st'.S k l = st.S k l) : st'.DiagonalBelow row.val := by
  intro k l inside distinct
  rw [same k l (by rcases inside with above | left <;> [left; right] <;> omega)]
  exact diagonal k l inside distinct

theorem SmithState.DiagonalBelow.succ (diagonal : st.DiagonalBelow row.val)
    (index : column.val = row.val) (below : ∀ i, row < i → st.S i column = 0)
    (right : ∀ j, column < j → st.S row j = 0) : st.DiagonalBelow (row.val + 1) := by
  intro k l inside distinct
  by_cases earlier : k.val < row.val ∨ l.val < row.val
  · exact diagonal k l earlier distinct
  · by_cases isRow : k = row
    · subst isRow
      exact right l (by omega)
    · have isColumn : l = column := by omega
      subst isColumn
      exact below k (by omega)

theorem foldl_best (st : SmithState m n) (column : Fin n) (l : List (Fin m)) : ∀ best : Fin m,
    let found := l.foldl (fun best i => if st.S i column ≠ 0 ∧
      (st.S best column = 0 ∨ |st.S i column| < |st.S best column|) then i else best) best
    (found = best ∨ found ∈ l) ∧
      (st.S best column ≠ 0 →
        st.S found column ≠ 0 ∧ (st.S found column).natAbs ≤ (st.S best column).natAbs) ∧
      (st.S found column = 0 → st.S best column = 0 ∧ ∀ i ∈ l, st.S i column = 0) := by
  induction l with
  | nil => exact fun best => ⟨Or.inl rfl, fun nonzero => ⟨nonzero, le_refl _⟩, fun zero => ⟨zero, by simp⟩⟩
  | cons i rest ih =>
    intro best
    simp only [List.foldl_cons]
    split
    · rename_i better
      obtain ⟨member, bounded, zeros⟩ := ih i
      refine ⟨Or.inr ?_, fun nonzero => ?_, fun zero => absurd (zeros zero).1 better.1⟩
      · exact member.elim (fun same => List.mem_cons.mpr (Or.inl same)) (List.mem_cons_of_mem _)
      · obtain ⟨foundNonzero, le⟩ := bounded better.1
        have less := better.2.resolve_left nonzero
        rw [Int.abs_eq_natAbs, Int.abs_eq_natAbs] at less
        exact ⟨foundNonzero, by omega⟩
    · rename_i worse
      obtain ⟨member, bounded, zeros⟩ := ih best
      refine ⟨member.imp_right (List.mem_cons_of_mem _), bounded, fun zero => ?_⟩
      obtain ⟨bestZero, others⟩ := zeros zero
      refine ⟨bestZero, List.forall_mem_cons.mpr ⟨?_, others⟩⟩
      by_contra nonzero
      exact worse ⟨nonzero, Or.inl bestZero⟩

theorem row_le_bestRow (st : SmithState m n) (row : Fin m) (column : Fin n) :
    row ≤ st.bestRow row column := by
  obtain ⟨same | member, -⟩ := foldl_best st column
    ((List.finRange m).filter fun i => row ≤ i) row
  · exact same.ge
  · exact of_decide_eq_true (List.mem_filter.mp member).2

theorem swapRows_bestRow (st : SmithState m n) (row : Fin m) (column : Fin n) :
    ((st.swapRows row (st.bestRow row column)).S row column ≠ 0 ∨
      ∀ i, row ≤ i → (st.swapRows row (st.bestRow row column)).S i column = 0) ∧
    (st.S row column ≠ 0 → (st.swapRows row (st.bestRow row column)).S row column ≠ 0 ∧
      ((st.swapRows row (st.bestRow row column)).S row column).natAbs ≤
        (st.S row column).natAbs) := by
  obtain ⟨-, bounded, zeros⟩ := foldl_best st column
    ((List.finRange m).filter fun i => row ≤ i) row
  have pivot : (st.swapRows row (st.bestRow row column)).S row column =
      st.S (st.bestRow row column) column := by
    simp [SmithState.swapRows]
  rw [pivot]
  refine ⟨?_, bounded⟩
  by_cases zero : st.S (st.bestRow row column) column = 0
  · right
    intro i below
    obtain ⟨-, all⟩ := zeros zero
    have least := row_le_bestRow st row column
    have inRange : row ≤ Equiv.swap row (st.bestRow row column) i := by
      rw [Equiv.swap_apply_def]
      split_ifs
      · exact least
      · exact le_refl row
      · exact below
    exact all _ (by simpa using inRange)
  · exact Or.inl zero

theorem SmithState.DiagonalBelow.swapRows (diagonal : st.DiagonalBelow row.val) (below : row ≤ i) :
    (st.swapRows row i).DiagonalBelow row.val := by
  intro k l inside distinct
  change st.S (Equiv.swap row i k) l = 0
  rw [Equiv.swap_apply_def]
  split_ifs with first second
  · subst first
    refine diagonal i l (inside.imp_left fun absurd => ?_) ?_ <;> omega
  · subst second
    refine diagonal row l (inside.imp_left fun absurd => ?_) ?_ <;> omega
  · exact diagonal k l inside distinct

theorem SmithState.DiagonalBelow.moveColumn (diagonal : st.DiagonalBelow row.val)
    (index : column.val = row.val) : (st.moveColumn row column).DiagonalBelow row.val := by
  rw [SmithState.moveColumn]
  split
  · split
    · rename_i other found
      have right := List.find?_some found
      simp only [decide_eq_true_eq] at right
      refine diagonal.congr index fun k l outside => ?_
      change (if row ≤ k then _ else _) = _
      split
      · rename_i below
        have left : l < column := outside.resolve_left (not_lt.mpr below)
        rw [Equiv.swap_apply_of_ne_of_ne left.ne (left.trans right.1).ne]
      · rfl
    · exact diagonal
  · exact diagonal

theorem moveColumn_pivot (column_zero : st.S row column ≠ 0 ∨ ∀ i, row ≤ i → st.S i column = 0) :
    ((st.moveColumn row column).S row column ≠ 0 ∨
      (∀ i, row < i → (st.moveColumn row column).S i column = 0) ∧
        ∀ j, column < j → (st.moveColumn row column).S row j = 0) ∧
    (st.S row column ≠ 0 → st.moveColumn row column = st) := by
  rw [SmithState.moveColumn]
  by_cases zero : st.S row column = 0
  · refine ⟨?_, fun nonzero => absurd zero nonzero⟩
    rw [if_pos zero]
    split
    · rename_i other found
      have right := List.find?_some found
      simp only [decide_eq_true_eq] at right
      left
      change (if row ≤ row then st.S row (Equiv.swap column other column) else _) ≠ 0
      rw [if_pos (le_refl row), Equiv.swap_apply_left]
      exact right.2
    · rename_i none
      right
      refine ⟨fun i below => (column_zero.resolve_left (not_not.mpr zero)) i below.le, fun j right => ?_⟩
      have all := List.find?_eq_none.mp none j (List.mem_finRange j)
      simp only [decide_eq_true_eq, not_and, not_not] at all
      exact all right
  · rw [if_neg zero]
    exact ⟨Or.inl zero, fun _ => rfl⟩

structure ClearedBelow (row i : Fin m) (column : Fin n) (st st' : SmithState m n) : Prop where
  outside : ∀ k l, (k < row ∨ l < column) → st'.S k l = st.S k l
  pivot : st'.S row column ≠ 0
  le : (st'.S row column).natAbs ≤ (st.S row column).natAbs
  cleared : st'.S i column = 0
  kept : ∀ k, row < k → st.S k column = 0 → st'.S k column = 0

theorem clearBelow_spec (below : row < i) (pivot : st.S row column ≠ 0) :
    ClearedBelow row i column st (st.clearBelow row column i) := by
  rw [SmithState.clearBelow]
  split
  · rename_i nonzero
    have spec := factors_spec pivot nonzero
    generalize SmithState.factors (st.S row column) (st.S i column) = found at spec
    have atPivot : (if column ≤ column then Lib.pairMap row i found.x found.y
        ((st.S i column).tdiv found.gcd) (-(st.S row column).tdiv found.gcd)
          (fun r => st.S r column) row else st.S row column) = found.gcd := by
      rw [if_pos (le_refl column), Lib.pairMap_left]
      exact spec.pivot
    have atOther : (if column ≤ column then Lib.pairMap row i found.x found.y
        ((st.S i column).tdiv found.gcd) (-(st.S row column).tdiv found.gcd)
          (fun r => st.S r column) i else st.S i column) = 0 := by
      rw [if_pos (le_refl column), Lib.pairMap_right below.ne, neg_mul, ← sub_eq_add_neg]
      exact spec.cleared
    refine ⟨fun k l outside => ?_, ?_, ?_, atOther, fun k after zero => ?_⟩
    · change (if column ≤ l then _ else _) = _
      split
      · rename_i right
        have above : k < row := outside.resolve_right (not_lt.mpr right)
        rw [Lib.pairMap_other above.ne (above.trans below).ne]
      · rfl
    · exact atPivot.trans_ne spec.nonzero
    · exact (congrArg Int.natAbs atPivot).trans_le spec.le
    · by_cases same : k = i
      · subst same
        exact atOther
      · change (if column ≤ column then _ else _) = _
        rw [if_pos (le_refl column), Lib.pairMap_other after.ne' same]
        exact zero
  · rename_i zero
    exact ⟨fun _ _ _ => rfl, pivot, le_refl _, not_not.mp zero, fun _ _ isZero => isZero⟩

structure ClearedRight (row : Fin m) (column j : Fin n) (st : SmithState m n)
    (next : SmithState m n × Bool) : Prop where
  outside : ∀ k l, (k < row ∨ l < column) → next.1.S k l = st.S k l
  pivot : next.1.S row column ≠ 0
  le : (next.1.S row column).natAbs ≤ (st.S row column).natAbs
  lt : next.2 = true → (next.1.S row column).natAbs < (st.S row column).natAbs
  cleared : next.1.S row j = 0
  kept : ∀ l, column < l → st.S row l = 0 → next.1.S row l = 0
  column : next.2 = false → ∀ k, next.1.S k column = st.S k column

theorem clearRight_spec (right : column < j) (pivot : st.S row column ≠ 0) :
    ClearedRight row column j st (st.clearRight row column j) := by
  rw [SmithState.clearRight]
  split
  · rename_i nonzero
    have spec := factors_spec pivot nonzero
    generalize SmithState.factors (st.S row column) (st.S row j) = found at spec
    have atPivot : (if row ≤ row then Lib.pairMap column j found.x found.y
        ((st.S row j).tdiv found.gcd) (-(st.S row column).tdiv found.gcd) (st.S row) column
          else st.S row column) = found.gcd := by
      rw [if_pos (le_refl row), Lib.pairMap_left]
      exact spec.pivot
    have atOther : (if row ≤ row then Lib.pairMap column j found.x found.y
        ((st.S row j).tdiv found.gcd) (-(st.S row column).tdiv found.gcd) (st.S row) j
          else st.S row j) = 0 := by
      rw [if_pos (le_refl row), Lib.pairMap_right right.ne, neg_mul, ← sub_eq_add_neg]
      exact spec.cleared
    refine ⟨fun k l outside => ?_, ?_, ?_, fun changed => ?_, atOther, fun l after zero => ?_,
      fun unchanged k => ?_⟩
    · change (if row ≤ k then _ else _) = _
      split
      · rename_i below
        have left : l < column := outside.resolve_left (not_lt.mpr below)
        rw [Lib.pairMap_other left.ne (left.trans right).ne]
      · rfl
    · exact atPivot.trans_ne spec.nonzero
    · exact (congrArg Int.natAbs atPivot).trans_le spec.le
    · exact (congrArg Int.natAbs atPivot).trans_lt (spec.lt (of_decide_eq_true changed))
    · by_cases same : l = j
      · subst same
        exact atOther
      · change (if row ≤ row then _ else _) = _
        rw [if_pos (le_refl row), Lib.pairMap_other after.ne' same]
        exact zero
    · have divisible := of_decide_eq_false unchanged
      rw [spec.same (not_not.mp divisible)]
      change (if row ≤ k then _ else _) = _
      split
      · rw [Lib.pairMap_left, one_mul, zero_mul, add_zero]
      · rfl
  · rename_i zero
    exact ⟨fun _ _ _ => rfl, pivot, le_refl _, fun changed => absurd changed Bool.false_ne_true,
      not_not.mp zero,
      fun _ _ isZero => isZero, fun _ _ => rfl⟩

theorem foldl_clearBelow {k : Nat} {env : Env} {A : Matrix (Fin k) (Fin n) Int} {x : Fin n → Int}
    {y : Fin k → Int} (index : column.val = row.val) (l : List (Fin m)) (below : ∀ i ∈ l, row < i) :
    ∀ st : SmithState m n, st.Correct env A x y → st.DiagonalBelow row.val → st.S row column ≠ 0 →
    let found := l.foldl (fun st i => st.clearBelow row column i) st
    found.Correct env A x y ∧ found.DiagonalBelow row.val ∧ found.S row column ≠ 0 ∧
      (found.S row column).natAbs ≤ (st.S row column).natAbs ∧
      (∀ i ∈ l, found.S i column = 0) ∧
      ∀ k, row < k → st.S k column = 0 → found.S k column = 0 := by
  induction l with
  | nil =>
    exact fun st correct diagonal pivot =>
      ⟨correct, diagonal, pivot, le_refl _, by simp, fun _ _ zero => zero⟩
  | cons i rest ih =>
    intro st correct diagonal pivot
    obtain ⟨first, others⟩ := List.forall_mem_cons.mp below
    have step := clearBelow_spec first pivot
    obtain ⟨correct', diagonal', pivot', le, cleared, kept⟩ := ih others _
      (correct.clearBelow diagonal index first pivot) (diagonal.congr index step.outside) step.pivot
    exact ⟨correct', diagonal', pivot', le.trans step.le,
      List.forall_mem_cons.mpr ⟨kept i first step.cleared, cleared⟩,
      fun k after zero => kept k after (step.kept k after zero)⟩

theorem foldl_clearRight {k : Nat} {env : Env} {A : Matrix (Fin k) (Fin n) Int} {x : Fin n → Int}
    {y : Fin k → Int} (index : column.val = row.val) (l : List (Fin n)) (right : ∀ j ∈ l, column < j) :
    ∀ acc : SmithState m n × Bool, acc.1.Correct env A x y → acc.1.DiagonalBelow row.val →
    acc.1.S row column ≠ 0 →
    let found := l.foldl (fun acc j =>
      let next := acc.1.clearRight row column j
      (next.1, acc.2 || next.2)) acc
    found.1.Correct env A x y ∧ found.1.DiagonalBelow row.val ∧ found.1.S row column ≠ 0 ∧
      (found.1.S row column).natAbs ≤ (acc.1.S row column).natAbs ∧
      (found.2 = true → acc.2 = true ∨
        (found.1.S row column).natAbs < (acc.1.S row column).natAbs) ∧
      (∀ j ∈ l, found.1.S row j = 0) ∧
      (∀ l, column < l → acc.1.S row l = 0 → found.1.S row l = 0) ∧
      (found.2 = false → acc.2 = false ∧ ∀ k, found.1.S k column = acc.1.S k column) := by
  induction l with
  | nil =>
    exact fun acc correct diagonal pivot =>
      ⟨correct, diagonal, pivot, le_refl _, Or.inl, by simp, fun _ _ zero => zero,
        fun flag => ⟨flag, fun _ => rfl⟩⟩
  | cons j rest ih =>
    intro acc correct diagonal pivot
    obtain ⟨first, others⟩ := List.forall_mem_cons.mp right
    have step := clearRight_spec first pivot
    obtain ⟨correct', diagonal', pivot', le, changed, cleared, kept, unchanged⟩ :=
      ih others
        ((acc.1.clearRight row column j).1, acc.2 || (acc.1.clearRight row column j).2)
        (correct.clearRight diagonal index first pivot) (diagonal.congr index step.outside)
        step.pivot
    refine ⟨correct', diagonal', pivot', le.trans step.le, fun flag => ?_,
      List.forall_mem_cons.mpr ⟨kept j first step.cleared, cleared⟩,
      fun l after zero => kept l after (step.kept l after zero), fun flag => ?_⟩
    · rcases changed flag with earlier | smaller
      · rcases Bool.or_eq_true_iff.mp earlier with start | now
        · exact Or.inl start
        · exact Or.inr (le.trans_lt (step.lt now))
      · exact Or.inr (smaller.trans_le step.le)
    · obtain ⟨start, same⟩ := unchanged flag
      obtain ⟨earlier, now⟩ := Bool.or_eq_false_iff.mp start
      exact ⟨earlier, fun k => (same k).trans (step.column now k)⟩

structure Diagonalized {k : Nat} (env : Env) (A : Matrix (Fin k) (Fin n) Int) (x : Fin n → Int)
    (y : Fin k → Int) (row : Fin m) (column : Fin n) (st : SmithState m n)
    (next : SmithState m n × Bool) : Prop where
  correct : next.1.Correct env A x y
  diagonal : next.1.DiagonalBelow row.val
  finished : next.2 = false → next.1.DiagonalBelow (row.val + 1)
  pivot : next.2 = true → next.1.S row column ≠ 0
  smaller : next.2 = true → st.S row column ≠ 0 →
    (next.1.S row column).natAbs < (st.S row column).natAbs

variable {k : Nat} {env : Env} {A : Matrix (Fin k) (Fin n) Int} {x : Fin n → Int} {y : Fin k → Int}

theorem diagonalizeOnce_spec (correct : st.Correct env A x y)
    (diagonal : st.DiagonalBelow row.val) (index : column.val = row.val) :
    Diagonalized env A x y row column st (st.diagonalizeOnce row column) := by
  have swapped := diagonal.swapRows (row_le_bestRow st row column)
  obtain ⟨columnZero, bounded⟩ := swapRows_bestRow st row column
  obtain ⟨pivotOrZero, same⟩ := moveColumn_pivot columnZero
  have correctPivoted := (correct.swapRows row (st.bestRow row column)).moveColumn swapped index
  have diagonalPivoted := swapped.moveColumn index
  have boundedPivoted (nonzero : st.S row column ≠ 0) :
      (((st.swapRows row (st.bestRow row column)).moveColumn row column).S row column).natAbs ≤
        (st.S row column).natAbs := by
    rw [same (bounded nonzero).1]
    exact (bounded nonzero).2
  rw [SmithState.diagonalizeOnce]
  generalize (st.swapRows row (st.bestRow row column)).moveColumn row column = pivoted at *
  split
  · rename_i zero
    obtain ⟨below, right⟩ := pivotOrZero.resolve_left (not_not.mpr zero)
    exact ⟨correctPivoted, diagonalPivoted, fun _ => diagonalPivoted.succ index below right,
      fun changed => absurd changed Bool.false_ne_true,
      fun changed => absurd changed Bool.false_ne_true⟩
  · rename_i nonzero
    obtain ⟨correctBelow, diagonalBelow, pivotBelow, leBelow, clearedBelow, -⟩ :=
      foldl_clearBelow index ((List.finRange m).filter fun i => row < i)
        (fun i member => of_decide_eq_true (List.mem_filter.mp member).2) pivoted correctPivoted
        diagonalPivoted nonzero
    obtain ⟨correctRight, diagonalRight, pivotRight, -, changed, clearedRight, -, unchanged⟩ :=
      foldl_clearRight index ((List.finRange n).filter fun j => column < j)
        (fun j member => of_decide_eq_true (List.mem_filter.mp member).2) (_, false) correctBelow
        diagonalBelow pivotBelow
    refine ⟨correctRight, diagonalRight, fun flag => ?_, fun _ => pivotRight, fun flag start => ?_⟩
    · refine diagonalRight.succ index (fun i below => ?_) fun j right => ?_
      · rw [(unchanged flag).2]
        exact clearedBelow i (List.mem_filter.mpr ⟨List.mem_finRange i, decide_eq_true below⟩)
      · exact clearedRight j (List.mem_filter.mpr ⟨List.mem_finRange j, decide_eq_true right⟩)
    · rcases changed flag with absurd | smaller
      · cases absurd
      · exact (smaller.trans_le leBelow).trans_le (boundedPivoted start)

theorem diagonalizeMore_spec (index : column.val = row.val) : ∀ (fuel : Nat) (st : SmithState m n),
    st.Correct env A x y → st.DiagonalBelow row.val → st.S row column ≠ 0 →
    (st.S row column).natAbs ≤ fuel →
    (SmithState.diagonalizeMore row column fuel st).Correct env A x y ∧
      (SmithState.diagonalizeMore row column fuel st).DiagonalBelow (row.val + 1) := by
  intro fuel
  induction fuel with
  | zero =>
    intro st _ _ pivot enough
    exact absurd (Int.natAbs_eq_zero.mp (Nat.le_zero.mp enough)) pivot
  | succ fuel ih =>
    intro st correct diagonal pivot enough
    have step := diagonalizeOnce_spec correct diagonal index
    rw [SmithState.diagonalizeMore]
    cases flag : (st.diagonalizeOnce row column).2 with
    | false =>
      rw [if_neg Bool.false_ne_true]
      exact ⟨step.correct, step.finished flag⟩
    | true =>
      rw [if_pos rfl]
      have smaller := step.smaller flag pivot
      exact ih _ step.correct step.diagonal (step.pivot flag) (by omega)

theorem diagonalizeAt_spec (correct : st.Correct env A x y) (diagonal : st.DiagonalBelow row.val)
    (index : column.val = row.val) : (st.diagonalizeAt row column).Correct env A x y ∧
      (st.diagonalizeAt row column).DiagonalBelow (row.val + 1) := by
  have step := diagonalizeOnce_spec correct diagonal index
  rw [SmithState.diagonalizeAt]
  cases flag : (st.diagonalizeOnce row column).2 with
  | false =>
    rw [if_neg Bool.false_ne_true]
    exact ⟨step.correct, step.finished flag⟩
  | true =>
    rw [if_pos rfl]
    exact diagonalizeMore_spec index _ _ step.correct step.diagonal (step.pivot flag) (le_refl _)

theorem smithNormalFormDiag_spec (correct : st.Correct env A x y) :
    (smithNormalFormDiag st).Correct env A x y ∧
      ∀ (i : Fin m) (j : Fin n), i.val ≠ j.val → (smithNormalFormDiag st).S i j = 0 := by
  have run : ∀ count, (small : count ≤ min m n) →
      let found := ((List.finRange (min m n)).take count).foldl
        (fun st index => st.diagonalizeAt (index.castLE (min_le_left m n))
          (index.castLE (min_le_right m n))) st
      found.Correct env A x y ∧ found.DiagonalBelow count := by
    intro count
    induction count with
    | zero =>
      intro _
      refine ⟨correct, fun i j inside => ?_⟩
      omega
    | succ count ih =>
      intro small
      obtain ⟨correct', diagonal'⟩ := ih (by omega)
      rw [List.take_add_one, List.foldl_append]
      have index : (List.finRange (min m n))[count]? = some ⟨count, by omega⟩ := by
        rw [List.getElem?_eq_getElem (by rw [List.length_finRange]; omega), List.getElem_finRange]
        rfl
      rw [index]
      exact diagonalizeAt_spec correct' diagonal' rfl
  obtain ⟨correct', diagonal'⟩ := run (min m n) (le_refl _)
  rw [List.take_of_length_le (by rw [List.length_finRange])] at correct' diagonal'
  refine ⟨correct', fun i j distinct => diagonal' i j ?_ distinct⟩
  have first := i.isLt
  have second := j.isLt
  omega

end Diagonal

end Tvm.Arith
