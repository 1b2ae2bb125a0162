import Tvm.Arith.SmithNormalFormSound

/-!
# The loop of the diagonal form

`SmithNormalFormDiag` as one loop whose `size_t` index is set back, below zero too, where an
iteration is to be repeated.  Which iterations are repeated depends on the coefficients alone, so
the loop ends whatever the right hand sides are.
-/

namespace Tvm.Arith

open PrimExpr Matrix

section Index

variable {m n : UInt64} {index : UInt64}

def diagonalRow (inside : index.toNat < min m.toNat n.toNat) : Fin m.toNat :=
  ⟨index.toNat, inside.trans_le (min_le_left _ _)⟩

def diagonalColumn (inside : index.toNat < min m.toNat n.toNat) : Fin n.toNat :=
  ⟨index.toNat, inside.trans_le (min_le_right _ _)⟩

end Index

/-- The loop of `SmithNormalFormDiag`; there is no result where the turns run out. -/
def smithLoop {m n : UInt64} : Nat → UInt64 → SmithState m.toNat n.toNat →
    Option (SmithState m.toNat n.toNat)
  | 0, _, _ => none
  | turns + 1, index, st =>
    if inside : index.toNat < min m.toNat n.toNat then
      let next := st.diagonalizeOnce (diagonalRow inside)
        (diagonalColumn inside)
      -- `++index` follows in every case, so that an index set back from zero is zero again
      smithLoop turns ((if next.2 then index - 1 else index) + 1) next.1
    else some st

/-- What `SmithNormalFormDiag` is called with: `V` is the identity, `x` are the variables. -/
def startState {m n : Nat} (S : Matrix (Fin m) (Fin n) Int) (vars : Fin n → Var)
    (y : Fin m → PrimExpr) : SmithState m n :=
  ⟨S, 1, fun j => .var (vars j), y⟩

/-- `S x = y` with the values of the expressions. -/
def SmithState.Holds {m n : Nat} (st : SmithState m n) (env : Env) : Prop :=
  ∃ X, (∀ j, (st.x j).value env = some (X j)) ∧ ∀ i, (st.y i).value env = some ((st.S *ᵥ X) i)

/-- A relation that scaled sums and differences keep. -/
def ScalesTogether (R : PrimExpr → PrimExpr → Prop) : Prop :=
  ∀ a e e' b f f', R e e' → R f f' →
    R (SmithState.scaledSum a e b f) (SmithState.scaledSum a e' b f') ∧
      R (SmithState.scaledDifference a e b f) (SmithState.scaledDifference a e' b f')

/-- The coefficients are the same and the unknowns are related; the right hand sides may differ. -/
structure SmithState.Agrees {m n : Nat} (R : PrimExpr → PrimExpr → Prop)
    (st st' : SmithState m n) : Prop where
  S : st.S = st'.S
  V : st.V = st'.V
  x : ∀ j, R (st.x j) (st'.x j)

section Agrees

variable {m n : Nat} {R : PrimExpr → PrimExpr → Prop} {st st' : SmithState m n}

theorem SmithState.Agrees.bestRow (agrees : st.Agrees R st') (row : Fin m) (column : Fin n) :
    st.bestRow row column = st'.bestRow row column := by
  rw [SmithState.bestRow, SmithState.bestRow, agrees.S]

theorem SmithState.Agrees.swapRows (agrees : st.Agrees R st') (row i : Fin m) :
    (st.swapRows row i).Agrees R (st'.swapRows row i) where
  S := by rw [SmithState.swapRows, SmithState.swapRows, agrees.S]
  V := agrees.V
  x := agrees.x

theorem SmithState.Agrees.moveColumn (agrees : st.Agrees R st') (row : Fin m) (column : Fin n) :
    (st.moveColumn row column).Agrees R (st'.moveColumn row column) := by
  rw [SmithState.moveColumn, SmithState.moveColumn, agrees.S]
  split
  · split
    · refine ⟨?_, ?_, fun l => agrees.x _⟩
      · simp only [SmithState.swapColumns, agrees.S]
      · simp only [SmithState.swapColumns, agrees.V]
    · exact agrees
  · exact agrees

theorem SmithState.Agrees.clearBelow (agrees : st.Agrees R st') (row : Fin m) (column : Fin n)
    (i : Fin m) : (st.clearBelow row column i).Agrees R (st'.clearBelow row column i) := by
  rw [SmithState.clearBelow, SmithState.clearBelow, agrees.S]
  split
  · exact ⟨rfl, agrees.V, agrees.x⟩
  · exact agrees

theorem SmithState.Agrees.clearRight (scales : ScalesTogether R) (agrees : st.Agrees R st')
    (row : Fin m) (column j : Fin n) :
    (st.clearRight row column j).1.Agrees R (st'.clearRight row column j).1 ∧
      (st.clearRight row column j).2 = (st'.clearRight row column j).2 := by
  rw [SmithState.clearRight, SmithState.clearRight, agrees.S, agrees.V]
  split
  · refine ⟨⟨rfl, rfl, fun l => ?_⟩, rfl⟩
    simp only
    split
    · exact (scales _ _ _ _ _ _ (agrees.x column) (agrees.x j)).1
    · split
      · exact (scales _ _ _ _ _ _ (agrees.x column) (agrees.x j)).2
      · exact agrees.x l
  · exact ⟨agrees, rfl⟩

theorem SmithState.Agrees.foldlBelow (row : Fin m) (column : Fin n) (l : List (Fin m)) :
    ∀ {st st' : SmithState m n}, st.Agrees R st' →
      (l.foldl (fun st i => st.clearBelow row column i) st).Agrees R
        (l.foldl (fun st i => st.clearBelow row column i) st') := by
  induction l with
  | nil => exact fun agrees => agrees
  | cons i rest ih =>
    exact fun agrees => ih (agrees.clearBelow row column i)

/-- The columns cleared one after the other; whether the pivot column was changed. -/
def SmithState.clearRights (row : Fin m) (column : Fin n) (l : List (Fin n))
    (acc : SmithState m n × Bool) : SmithState m n × Bool :=
  l.foldl (fun acc j =>
    let next := acc.1.clearRight row column j
    (next.1, acc.2 || next.2)) acc

theorem SmithState.Agrees.clearRights (scales : ScalesTogether R) (row : Fin m) (column : Fin n)
    (l : List (Fin n)) : ∀ acc acc' : SmithState m n × Bool, acc.1.Agrees R acc'.1 →
      acc.2 = acc'.2 →
      (SmithState.clearRights row column l acc).1.Agrees R
          (SmithState.clearRights row column l acc').1 ∧
        (SmithState.clearRights row column l acc).2 =
          (SmithState.clearRights row column l acc').2 := by
  induction l with
  | nil => exact fun _ _ agrees flag => ⟨agrees, flag⟩
  | cons j rest ih =>
    intro acc acc' agrees flag
    obtain ⟨next, changed⟩ := agrees.clearRight scales row column j
    refine ih (_, _) (_, _) next ?_
    simp only [flag, changed]

theorem SmithState.Agrees.diagonalizeOnce (scales : ScalesTogether R) (agrees : st.Agrees R st')
    (row : Fin m) (column : Fin n) :
    (st.diagonalizeOnce row column).1.Agrees R (st'.diagonalizeOnce row column).1 ∧
      (st.diagonalizeOnce row column).2 = (st'.diagonalizeOnce row column).2 := by
  have pivoted := (agrees.swapRows row (st.bestRow row column)).moveColumn row column
  rw [SmithState.diagonalizeOnce, SmithState.diagonalizeOnce, ← agrees.bestRow row column, pivoted.S]
  split
  · exact ⟨pivoted, rfl⟩
  · exact Agrees.clearRights scales row column _ (_, false) (_, false)
      (Agrees.foldlBelow row column _ pivoted) rfl

theorem SmithState.Agrees.diagonalizeMore (scales : ScalesTogether R) (row : Fin m)
    (column : Fin n) : ∀ (fuel : Nat) {st st' : SmithState m n}, st.Agrees R st' →
      (SmithState.diagonalizeMore row column fuel st).Agrees R
        (SmithState.diagonalizeMore row column fuel st') := by
  intro fuel
  induction fuel with
  | zero => exact fun agrees => agrees
  | succ fuel ih =>
    intro st st' agrees
    obtain ⟨next, flag⟩ := agrees.diagonalizeOnce scales row column
    rw [SmithState.diagonalizeMore, SmithState.diagonalizeMore, flag]
    split
    · exact ih next
    · exact next

theorem SmithState.Agrees.diagonalizeAt (scales : ScalesTogether R) (agrees : st.Agrees R st')
    (row : Fin m) (column : Fin n) :
    (st.diagonalizeAt row column).Agrees R (st'.diagonalizeAt row column) := by
  obtain ⟨next, flag⟩ := agrees.diagonalizeOnce scales row column
  rw [SmithState.diagonalizeAt, SmithState.diagonalizeAt, flag, next.S]
  split
  · exact Agrees.diagonalizeMore scales row column _ next
  · exact next

end Agrees

section Loop

variable {m n : UInt64} {st st' : SmithState m.toNat n.toNat} {k : Nat} {env : Env}
  {A : Matrix (Fin k) (Fin n.toNat) Int} {x : Fin n.toNat → Int} {y : Fin k → Int} {index : UInt64}
  {R : PrimExpr → PrimExpr → Prop}

theorem smithLoop_turn (inside : index.toNat < min m.toNat n.toNat) (turns : Nat) :
    smithLoop (turns + 1) index st =
      smithLoop turns
        ((if (st.diagonalizeOnce (diagonalRow inside) (diagonalColumn inside)).2 then index - 1
          else index) + 1)
        (st.diagonalizeOnce (diagonalRow inside) (diagonalColumn inside)).1 := by
  rw [smithLoop, dif_pos inside]

theorem smithLoop_repeated (inside : index.toNat < min m.toNat n.toNat) (turns : Nat)
    (changed : (st.diagonalizeOnce (diagonalRow inside) (diagonalColumn inside)).2 = true) :
    smithLoop (turns + 1) index st =
      smithLoop turns index
        (st.diagonalizeOnce (diagonalRow inside) (diagonalColumn inside)).1 := by
  rw [smithLoop_turn inside, if_pos changed, sub_add_cancel]

theorem smithLoop_finished (inside : index.toNat < min m.toNat n.toNat) (turns : Nat)
    (kept : (st.diagonalizeOnce (diagonalRow inside) (diagonalColumn inside)).2 = false) :
    smithLoop (turns + 1) index st =
      smithLoop turns (index + 1)
        (st.diagonalizeOnce (diagonalRow inside) (diagonalColumn inside)).1 := by
  rw [smithLoop_turn inside, kept, if_neg Bool.false_ne_true]

theorem smithLoop_diagonalizeMore (scales : ScalesTogether R)
    (inside : index.toNat < min m.toNat n.toNat) : ∀ (fuel : Nat)
    (st st' : SmithState m.toNat n.toNat), st.Agrees R st' → st'.Correct env A x y →
    st'.DiagonalBelow index.toNat → st'.S (diagonalRow inside) (diagonalColumn inside) ≠ 0 →
    (st'.S (diagonalRow inside) (diagonalColumn inside)).natAbs ≤ fuel →
    ∃ turns, ∀ more, smithLoop (turns + more) index st = smithLoop more (index + 1)
      (SmithState.diagonalizeMore (diagonalRow inside) (diagonalColumn inside) fuel st) := by
  intro fuel
  induction fuel with
  | zero =>
    intro st st' _ _ _ pivot enough
    exact absurd (Int.natAbs_eq_zero.mp (Nat.le_zero.mp enough)) pivot
  | succ fuel ih =>
    intro st st' agrees correct diagonal pivot enough
    have step : Diagonalized env A x y (diagonalRow inside) (diagonalColumn inside) st'
        (st'.diagonalizeOnce (diagonalRow inside) (diagonalColumn inside)) :=
      diagonalizeOnce_spec correct diagonal rfl
    obtain ⟨next, flags⟩ := agrees.diagonalizeOnce scales (diagonalRow inside)
      (diagonalColumn inside)
    rw [SmithState.diagonalizeMore]
    cases flag : (st'.diagonalizeOnce (diagonalRow inside) (diagonalColumn inside)).2 with
    | false =>
      rw [flag] at flags
      refine ⟨1, fun more => ?_⟩
      rw [Nat.add_comm, smithLoop_finished inside more flags, flags, if_neg Bool.false_ne_true]
    | true =>
      rw [flag] at flags
      have smaller := step.smaller flag pivot
      obtain ⟨turns, found⟩ := ih _ _ next step.correct step.diagonal
        (step.pivot flag) (by omega)
      refine ⟨turns + 1, fun more => ?_⟩
      rw [Nat.add_right_comm, smithLoop_repeated inside _ flags, if_pos flags]
      exact found more

theorem smithLoop_diagonalizeAt (scales : ScalesTogether R) (agrees : st.Agrees R st')
    (correct : st'.Correct env A x y) (diagonal : st'.DiagonalBelow index.toNat)
    (inside : index.toNat < min m.toNat n.toNat) :
    ∃ turns, ∀ more, smithLoop (turns + more) index st = smithLoop more (index + 1)
      (st.diagonalizeAt (diagonalRow inside) (diagonalColumn inside)) := by
  have step : Diagonalized env A x y (diagonalRow inside) (diagonalColumn inside) st'
      (st'.diagonalizeOnce (diagonalRow inside) (diagonalColumn inside)) :=
    diagonalizeOnce_spec correct diagonal rfl
  obtain ⟨next, flags⟩ := agrees.diagonalizeOnce scales (diagonalRow inside) (diagonalColumn inside)
  rw [SmithState.diagonalizeAt]
  cases flag : (st'.diagonalizeOnce (diagonalRow inside) (diagonalColumn inside)).2 with
  | false =>
    rw [flag] at flags
    refine ⟨1, fun more => ?_⟩
    rw [Nat.add_comm, smithLoop_finished inside more flags, flags, if_neg Bool.false_ne_true]
  | true =>
    rw [flag] at flags
    rw [next.S, if_pos flags]
    obtain ⟨turns, found⟩ := smithLoop_diagonalizeMore scales inside _ _ _ next step.correct
      step.diagonal (step.pivot flag) (le_refl _)
    refine ⟨turns + 1, fun more => ?_⟩
    rw [Nat.add_right_comm, smithLoop_repeated inside _ flags]
    exact found more

def diagonalizeUpTo {m n : Nat} (st : SmithState m n) (count : Nat) : SmithState m n :=
  ((List.finRange (min m n)).take count).foldl
    (fun st index => st.diagonalizeAt (index.castLE (min_le_left m n))
      (index.castLE (min_le_right m n))) st

theorem diagonalizeUpTo_succ {m n : Nat} (st : SmithState m n) {count : Nat}
    (inside : count < min m n) :
    diagonalizeUpTo st (count + 1) = (diagonalizeUpTo st count).diagonalizeAt
      ⟨count, inside.trans_le (min_le_left m n)⟩ ⟨count, inside.trans_le (min_le_right m n)⟩ := by
  have index : (List.finRange (min m n))[count]? = some ⟨count, inside⟩ := by
    rw [List.getElem?_eq_getElem (by rwa [List.length_finRange]), List.getElem_finRange]
    rfl
  rw [diagonalizeUpTo, List.take_add_one, List.foldl_append, index]
  rfl

theorem smithLoop_returns (scales : ScalesTogether R) (agrees : st.Agrees R st')
    (correct : st'.Correct env A x y) :
    ∃ turns, ∀ more, smithLoop (turns + more) 0 st = some (smithNormalFormDiag st) := by
  have run : ∀ count, count ≤ min m.toNat n.toNat →
      (∃ turns, ∀ more, smithLoop (turns + more) 0 st =
        smithLoop more (UInt64.ofNat count) (diagonalizeUpTo st count)) ∧
      (diagonalizeUpTo st count).Agrees R (diagonalizeUpTo st' count) ∧
      (diagonalizeUpTo st' count).Correct env A x y ∧
      (diagonalizeUpTo st' count).DiagonalBelow count := by
    intro count
    induction count with
    | zero =>
      intro _
      refine ⟨⟨0, fun more => ?_⟩, agrees, correct, fun i j inside => ?_⟩
      · rw [Nat.zero_add]
        rfl
      · omega
    | succ count ih =>
      intro small
      obtain ⟨⟨turns, found⟩, agrees', correct', diagonal'⟩ := ih (by omega)
      have width : m.toNat < UInt64.size := m.toNat_lt
      have index : (UInt64.ofNat count).toNat = count :=
        UInt64.toNat_ofNat_of_lt' (by omega)
      have inside : (UInt64.ofNat count).toNat < min m.toNat n.toNat := by omega
      have rowIndex : diagonalRow inside = ⟨count, by omega⟩ := Fin.ext index
      have columnIndex : diagonalColumn inside = ⟨count, by omega⟩ := Fin.ext index
      rw [diagonalizeUpTo_succ st (by omega), diagonalizeUpTo_succ st' (by omega)]
      refine ⟨?_, agrees'.diagonalizeAt scales _ _, diagonalizeAt_spec correct' diagonal' rfl⟩
      have below : (diagonalizeUpTo st' count).DiagonalBelow (UInt64.ofNat count).toNat := by
        rwa [index]
      obtain ⟨turns', found'⟩ := smithLoop_diagonalizeAt scales agrees' correct' below inside
      rw [rowIndex, columnIndex] at found'
      refine ⟨turns + turns', fun more => ?_⟩
      rw [Nat.add_assoc, found, found', UInt64.ofNat_add]
      rfl
  obtain ⟨⟨turns, found⟩, -⟩ := run (min m.toNat n.toNat) (le_refl _)
  have all : diagonalizeUpTo st (min m.toNat n.toNat) = smithNormalFormDiag st := by
    rw [diagonalizeUpTo, List.take_of_length_le (by rw [List.length_finRange])]
    rfl
  refine ⟨turns + 1, fun more => ?_⟩
  have width : m.toNat < UInt64.size := m.toNat_lt
  rw [Nat.add_assoc, found, all, Nat.add_comm, smithLoop, dif_neg]
  rw [UInt64.toNat_ofNat_of_lt' (by omega)]
  exact lt_irrefl _

end Loop

section Undefined

variable {env : Env} {a b : Int} {e f : PrimExpr}

theorem value_scale_none (nonzero : a ≠ 0) (none_value : e.value env = none) :
    (make .mul (.intImm a) e).value env = none := by
  have folded : tryConstFold .mul (.intImm a) e = some (foldLeft .mul a e) := by
    cases e with
    | intImm n => cases none_value
    | _ => rfl
  rw [make, makeBinary, folded, Option.map_some, Option.getD_some, foldLeft]
  by_cases one : a = 1
  · rw [if_pos one]
    exact none_value
  · rw [if_neg one, if_neg nonzero, Option.getD_none, value_binary, none_value]
    rfl

theorem value_difference_none (none_value : e.value env = none ∨ f.value env = none) :
    (make .sub e f).value env = none := by
  have unfolded : (PrimExpr.binary .sub e f).value env = none := by
    rw [value_binary]
    rcases none_value with left | right
    · rw [left]
      rfl
    · rw [right]
      cases e.value env <;> rfl
  rw [make, makeBinary, tryConstFold.eq_def]
  split
  · rcases none_value with left | right
    · cases left
    · cases right
  · exact unfolded
  · rw [foldRight, Option.map_some, Option.getD_some]
    split
    · refine none_value.resolve_right fun right => ?_
      cases right
    · exact unfolded
  · rw [if_neg (by simp)]
    exact unfolded

theorem value_scaledDifference_none (left : a ≠ 0) (right : b ≠ 0)
    (none_value : e.value env = none ∨ f.value env = none) :
    (SmithState.scaledDifference a e b f).value env = none := by
  apply value_difference_none
  exact none_value.imp (value_scale_none left) (value_scale_none right)

theorem FactorsSpec.quotients {p q : Int} {found : Bezout} (spec : FactorsSpec p q found)
    (pivot : p ≠ 0) (nonzero : q ≠ 0) : p.tdiv found.gcd ≠ 0 ∧ q.tdiv found.gcd ≠ 0 := by
  have combination := spec.combination
  have cleared := spec.cleared
  have first (zero : p.tdiv found.gcd = 0) : q.tdiv found.gcd = 0 := by
    rw [zero, zero_mul, sub_zero] at cleared
    exact (mul_eq_zero.mp cleared).resolve_right pivot
  have second (zero : q.tdiv found.gcd = 0) : p.tdiv found.gcd = 0 := by
    rw [zero, zero_mul, zero_sub, neg_eq_zero] at cleared
    exact (mul_eq_zero.mp cleared).resolve_right nonzero
  refine ⟨fun zero => ?_, fun zero => ?_⟩
  · rw [zero, first zero, mul_zero, mul_zero, add_zero] at combination
    cases combination
  · rw [zero, second zero, mul_zero, mul_zero, add_zero] at combination
    cases combination

/-- A right hand side has no value. -/
def SmithState.Undefined {m n : Nat} (env : Env) (st : SmithState m n) : Prop :=
  ∃ i, (st.y i).value env = none

variable {m n : Nat} {st : SmithState m n} {row i : Fin m} {column : Fin n}

theorem SmithState.Undefined.swapRows (undefined : st.Undefined env) (row i : Fin m) :
    (st.swapRows row i).Undefined env := by
  obtain ⟨k, none_value⟩ := undefined
  refine ⟨Equiv.swap row i k, ?_⟩
  rw [SmithState.swapRows]
  simpa only [Equiv.swap_apply_self] using none_value

theorem SmithState.Undefined.moveColumn (undefined : st.Undefined env) (row : Fin m)
    (column : Fin n) : (st.moveColumn row column).Undefined env := by
  rw [SmithState.moveColumn]
  split
  · split
    · exact undefined
    · exact undefined
  · exact undefined

theorem SmithState.Undefined.clearBelow (undefined : st.Undefined env) (below : row < i)
    (pivot : st.S row column ≠ 0) : (st.clearBelow row column i).Undefined env := by
  obtain ⟨k, none_value⟩ := undefined
  rw [SmithState.clearBelow]
  split
  · rename_i nonzero
    obtain ⟨left, right⟩ := (factors_spec pivot nonzero).quotients pivot nonzero
    by_cases kept : k ≠ row ∧ k ≠ i
    · refine ⟨k, ?_⟩
      simp only [if_neg kept.1, if_neg kept.2]
      exact none_value
    · refine ⟨i, ?_⟩
      simp only [if_neg below.ne', if_true]
      apply value_scaledDifference_none right left
      by_cases first : k = row
      · left
        rwa [← first]
      · right
        have second : k = i := not_not.mp fun other => kept ⟨first, other⟩
        rwa [← second]
  · exact ⟨k, none_value⟩

theorem SmithState.Undefined.foldlBelow (l : List (Fin m)) (below : ∀ i ∈ l, row < i) :
    ∀ st : SmithState m n, st.Undefined env → st.S row column ≠ 0 →
      (l.foldl (fun st i => st.clearBelow row column i) st).Undefined env := by
  induction l with
  | nil => exact fun _ undefined _ => undefined
  | cons i rest ih =>
    intro st undefined pivot
    obtain ⟨first, others⟩ := List.forall_mem_cons.mp below
    exact ih others _ (undefined.clearBelow first pivot)
      (clearBelow_spec first pivot).pivot

theorem SmithState.Undefined.clearRights (l : List (Fin n)) : ∀ acc : SmithState m n × Bool,
    acc.1.Undefined env → (SmithState.clearRights row column l acc).1.Undefined env := by
  induction l with
  | nil => exact fun _ undefined => undefined
  | cons j rest ih =>
    intro acc undefined
    apply ih
    obtain ⟨i, none_value⟩ := undefined
    refine ⟨i, ?_⟩
    simp only [SmithState.clearRight]
    split
    · exact none_value
    · exact none_value

theorem SmithState.Undefined.diagonalizeOnce (undefined : st.Undefined env) (row : Fin m)
    (column : Fin n) : (st.diagonalizeOnce row column).1.Undefined env := by
  have pivoted := (undefined.swapRows row (st.bestRow row column)).moveColumn row column
  rw [SmithState.diagonalizeOnce]
  split
  · exact pivoted
  · rename_i pivot
    apply Undefined.clearRights _ (_, false)
    exact Undefined.foldlBelow _
      (fun i member => of_decide_eq_true (List.mem_filter.mp member).2) _ pivoted pivot

theorem SmithState.Undefined.diagonalizeAt (undefined : st.Undefined env) (row : Fin m)
    (column : Fin n) : (st.diagonalizeAt row column).Undefined env := by
  have more : ∀ (fuel : Nat) (st : SmithState m n), st.Undefined env →
      (SmithState.diagonalizeMore row column fuel st).Undefined env := by
    intro fuel
    induction fuel with
    | zero => exact fun _ start => start
    | succ fuel ih =>
      intro st start
      have next := start.diagonalizeOnce row column
      rw [SmithState.diagonalizeMore]
      split
      · exact ih _ next
      · exact next
  have next := undefined.diagonalizeOnce row column
  rw [SmithState.diagonalizeAt]
  split
  · exact more _ _ next
  · exact next

theorem SmithState.Undefined.smithNormalFormDiag (undefined : st.Undefined env) :
    (smithNormalFormDiag st).Undefined env := by
  rw [Tvm.Arith.smithNormalFormDiag]
  generalize List.finRange (min m n) = l
  induction l generalizing st with
  | nil => exact undefined
  | cons index rest ih =>
    exact ih (undefined.diagonalizeAt _ _)

end Undefined

section Result

variable {m n : Nat} {A : Matrix (Fin m) (Fin n) Int} {vars : Fin n → Var} {y : Fin m → PrimExpr}
  {env : Env}

theorem SmithState.Agrees.smithNormalFormDiag {R : PrimExpr → PrimExpr → Prop}
    {st st' : SmithState m n} (scales : ScalesTogether R) (agrees : st.Agrees R st') :
    (smithNormalFormDiag st).Agrees R (smithNormalFormDiag st') := by
  rw [Tvm.Arith.smithNormalFormDiag, Tvm.Arith.smithNormalFormDiag]
  generalize List.finRange (min m n) = l
  induction l generalizing st st' with
  | nil => exact agrees
  | cons index rest ih =>
    exact ih (agrees.diagonalizeAt scales _ _)

theorem startState_correct (A : Matrix (Fin m) (Fin n) Int) (vars : Fin n → Var)
    {Y : Fin m → Int} (isY : ∀ i, (y i).value env = some (Y i)) :
    (startState A vars y).Correct env A (fun j => env (vars j)) Y where
  unknowns := ⟨fun j => env (vars j), fun _ => rfl, one_mulVec _⟩
  equations := by
    refine ⟨Y, isY, fun z => ?_⟩
    change A *ᵥ z = Y ↔ A *ᵥ ((1 : Matrix (Fin n) (Fin n) Int) *ᵥ z) = Y
    rw [one_mulVec]
  injective := by
    intro z z' same
    change (1 : Matrix (Fin n) (Fin n) Int) *ᵥ z = (1 : Matrix (Fin n) (Fin n) Int) *ᵥ z' at same
    rwa [one_mulVec, one_mulVec] at same

theorem scalesTogether_eq : ScalesTogether Eq := by
  rintro a e e' b f f' rfl rfl
  exact ⟨rfl, rfl⟩

theorem scalesTogether_true : ScalesTogether fun _ _ => True :=
  fun _ _ _ _ _ _ _ _ => ⟨trivial, trivial⟩

theorem startState_zeros (A : Matrix (Fin m) (Fin n) Int) (vars : Fin n → Var)
    (y : Fin m → PrimExpr) :
    (startState A vars y).Agrees Eq (startState A vars fun _ => .intImm 0) :=
  ⟨rfl, rfl, fun _ => rfl⟩

theorem smithNormalFormDiag_unimodular :
    IsUnit (smithNormalFormDiag (startState A vars y)).V.det := by
  rw [← isUnit_iff_isUnit_det, ← mulVec_surjective_iff_isUnit]
  intro target
  -- distinct variables in place of the given ones take the values of the target
  have shadow : (startState A vars y).Agrees (fun _ _ => True)
      (startState A (fun j => j.val) fun _ => .intImm 0) := ⟨rfl, rfl, fun _ => trivial⟩
  have valued : ∀ i : Fin m, (PrimExpr.intImm 0).value
      (fun w => if inside : w < n then target ⟨w, inside⟩ else 0) = some 0 := fun _ => rfl
  have correct := (smithNormalFormDiag_spec (startState_correct A (fun j => j.val) valued)).1
  obtain ⟨X, -, same⟩ := correct.unknowns
  refine ⟨X, ?_⟩
  rw [(shadow.smithNormalFormDiag scalesTogether_true).V, same]
  funext j
  exact dif_pos j.isLt

theorem smithNormalFormDiag_unknowns (env : Env) :
    ∃ X, (∀ j, ((smithNormalFormDiag (startState A vars y)).x j).value env = some (X j)) ∧
      (smithNormalFormDiag (startState A vars y)).V *ᵥ X = fun j => env (vars j) := by
  have agrees := (startState_zeros A vars y).smithNormalFormDiag scalesTogether_eq
  have valued : ∀ i : Fin m, (PrimExpr.intImm 0).value env = some 0 := fun _ => rfl
  have correct := (smithNormalFormDiag_spec (startState_correct A vars valued)).1
  obtain ⟨X, isX, same⟩ := correct.unknowns
  refine ⟨X, fun j => ?_, ?_⟩
  · rw [agrees.x j]
    exact isX j
  · rw [agrees.V]
    exact same

theorem SmithState.Correct.holds_iff {st : SmithState m n} {x : Fin n → Int} {Y : Fin m → Int}
    (correct : st.Correct env A x Y) : st.Holds env ↔ A *ᵥ x = Y := by
  obtain ⟨X, isX, rfl⟩ := correct.unknowns
  obtain ⟨Y', isY', equations⟩ := correct.equations
  rw [← equations X]
  constructor
  · rintro ⟨X', isX', holds⟩
    have same : X' = X := funext fun j => Option.some.inj ((isX' j).symm.trans (isX j))
    subst same
    funext i
    exact Option.some.inj ((holds i).symm.trans (isY' i))
  · rintro rfl
    exact ⟨X, isX, isY'⟩

theorem SmithState.Undefined.not_holds {st : SmithState m n} (undefined : st.Undefined env) :
    ¬st.Holds env := by
  rintro ⟨X, -, holds⟩
  obtain ⟨i, none_value⟩ := undefined
  rw [holds i] at none_value
  cases none_value

theorem smithNormalFormDiag_holds (env : Env) :
    (smithNormalFormDiag (startState A vars y)).Holds env ↔
      (startState A vars y).Holds env := by
  by_cases defined : ∀ i, ∃ v, (y i).value env = some v
  · choose Y isY using defined
    have correct := startState_correct A vars isY
    rw [(smithNormalFormDiag_spec correct).1.holds_iff, correct.holds_iff]
  · rw [not_forall] at defined
    obtain ⟨i, noValue⟩ := defined
    have undefined : (startState A vars y).Undefined env := by
      refine ⟨i, ?_⟩
      rw [Option.eq_none_iff_forall_not_mem]
      exact fun v isValue => noValue ⟨v, isValue⟩
    exact iff_of_false undefined.smithNormalFormDiag.not_holds undefined.not_holds

end Result

/-- The loop ends with a diagonal form of the equations, whatever the coefficients and the right
hand sides. -/
theorem smithLoop_diagonalizes {m n : UInt64} (A : Matrix (Fin m.toNat) (Fin n.toNat) Int)
    (vars : Fin n.toNat → Var) (y : Fin m.toNat → PrimExpr) :
    ∃ turns final, (∀ more, smithLoop (turns + more) 0 (startState A vars y) = some final) ∧
      (∀ i j, i.val ≠ j.val → final.S i j = 0) ∧ IsUnit final.V.det ∧
      ∀ env, (∃ X, (∀ j, (final.x j).value env = some (X j)) ∧
          final.V *ᵥ X = fun j => env (vars j)) ∧
        (final.Holds env ↔ (startState A vars y).Holds env) := by
  have agrees := startState_zeros A vars y
  have valued : ∀ i : Fin m.toNat, (PrimExpr.intImm 0).value (fun _ => 0) = some 0 := fun _ => rfl
  have correct := startState_correct A vars valued
  obtain ⟨turns, returns⟩ := smithLoop_returns scalesTogether_eq agrees correct
  refine ⟨turns, smithNormalFormDiag (startState A vars y), returns, fun i j distinct => ?_,
    smithNormalFormDiag_unimodular, fun env => ?_⟩
  · rw [(agrees.smithNormalFormDiag scalesTogether_eq).S]
    exact (smithNormalFormDiag_spec correct).2 i j distinct
  · exact ⟨smithNormalFormDiag_unknowns env, smithNormalFormDiag_holds env⟩

end Tvm.Arith
