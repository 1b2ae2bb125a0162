import Tvm.Lib.RowOperations
import Tvm.Arith.IntOperator
import Tvm.Arith.Terms

/-!
# Diagonal form of linear equations

`SmithNormalFormDiag` of `solve_linear_equation.cc` with `ExtendedEuclidean` of `int_operator.h`,
over mathematical integers.
-/

namespace Tvm.Arith

open PrimExpr

/-- The loop of `ExtendedEuclidean`; every turn makes `|r|` smaller, so `|r|` turns are enough. -/
def euclidTurns : Nat → (s oldS r oldR : Int) → Int × Int
  | 0, _, oldS, _, oldR => (oldS, oldR)
  | fuel + 1, s, oldS, r, oldR =>
    if r = 0 then (oldS, oldR)
    else euclidTurns fuel (oldS - oldR.tdiv r * s) s (oldR - oldR.tdiv r * r) r

/-- `ExtendedEuclidean` without overflow. -/
def exactEuclidean (a b : Int) : Bezout :=
  let found := euclidTurns b.natAbs 0 1 b |a|
  let x := if a ≥ 0 then found.1 else -found.1
  ⟨found.2, x, if b ≠ 0 then (found.2 - x * a).tdiv b else 1⟩

/-- What is updated: `S`, `V`, `V⁻¹ x` and `U y`. -/
structure SmithState (m n : Nat) where
  S : Matrix (Fin m) (Fin n) Int
  V : Matrix (Fin n) (Fin n) Int
  x : Fin n → PrimExpr
  y : Fin m → PrimExpr

namespace SmithState

variable {m n : Nat} (st : SmithState m n) (row : Fin m) (column : Fin n)

/-- The row at or below `row` with the smallest nonzero element of the column. -/
def bestRow : Fin m :=
  ((List.finRange m).filter fun i => row ≤ i).foldl
    (fun best i => if st.S i column ≠ 0 ∧
      (st.S best column = 0 ∨ |st.S i column| < |st.S best column|) then i else best) row

def swapRows (i : Fin m) : SmithState m n :=
  { st with
    S := Matrix.of fun k => st.S (Equiv.swap row i k)
    y := fun k => st.y (Equiv.swap row i k) }

def swapColumns (j : Fin n) : SmithState m n :=
  { st with
    S := Matrix.of fun k l => if row ≤ k then st.S k (Equiv.swap column j l) else st.S k l
    V := Matrix.of fun k l => st.V k (Equiv.swap column j l)
    x := fun l => st.x (Equiv.swap column j l) }

/-- A column with a nonzero element of the row, where the diagonal element is zero. -/
def moveColumn : SmithState m n :=
  if st.S row column = 0 then
    match (List.finRange n).find? fun j => column < j ∧ st.S row j ≠ 0 with
    | some j => st.swapColumns row column j
    | none => st
  else st

/-- `g = a * p + b * q`; a divisor `p` is left as it is. -/
def factors (p q : Int) : Bezout :=
  if q.tmod p ≠ 0 then exactEuclidean p q else ⟨p, 1, 0⟩

def scaledSum (a : Int) (e : PrimExpr) (b : Int) (f : PrimExpr) : PrimExpr :=
  make .add (make .mul (.intImm a) e) (make .mul (.intImm b) f)

def scaledDifference (a : Int) (e : PrimExpr) (b : Int) (f : PrimExpr) : PrimExpr :=
  make .sub (make .mul (.intImm a) e) (make .mul (.intImm b) f)

def clearBelow (i : Fin m) : SmithState m n :=
  if st.S i column ≠ 0 then
    let found := factors (st.S row column) (st.S i column)
    let mg := (st.S row column).tdiv found.gcd
    let ng := (st.S i column).tdiv found.gcd
    { st with
      S := Matrix.of fun k l =>
        if column ≤ l then
          Lib.pairMap row i found.x found.y ng (-mg) (fun r => st.S r l) k
        else st.S k l
      y := fun k =>
        if k = row then scaledSum found.x (st.y row) found.y (st.y i)
        else if k = i then scaledDifference ng (st.y row) mg (st.y i)
        else st.y k }
  else st

/-- Zeroes an element of the row; whether the column was changed. -/
def clearRight (j : Fin n) : SmithState m n × Bool :=
  if st.S row j ≠ 0 then
    let found := factors (st.S row column) (st.S row j)
    let mg := (st.S row column).tdiv found.gcd
    let ng := (st.S row j).tdiv found.gcd
    ({ st with
      S := Matrix.of fun k l =>
        if row ≤ k then Lib.pairMap column j found.x found.y ng (-mg) (st.S k) l else st.S k l
      V := Matrix.of fun k => Lib.pairMap column j found.x found.y ng (-mg) (st.V k)
      x := fun l =>
        if l = column then scaledSum mg (st.x column) ng (st.x j)
        else if l = j then scaledDifference found.y (st.x column) found.x (st.x j)
        else st.x l }, (st.S row j).tmod (st.S row column) ≠ 0)
  else (st, false)

/-- One iteration; whether it is to be repeated. -/
def diagonalizeOnce : SmithState m n × Bool :=
  let pivoted := (st.swapRows row (st.bestRow row column)).moveColumn row column
  if pivoted.S row column = 0 then (pivoted, false)
  else
    let below := ((List.finRange m).filter fun i => row < i).foldl
      (fun st i => st.clearBelow row column i) pivoted
    ((List.finRange n).filter fun j => column < j).foldl
      (fun acc j =>
        let next := acc.1.clearRight row column j
        (next.1, acc.2 || next.2)) (below, false)

/-- The iterations after one that is to be repeated; each makes the diagonal element smaller. -/
def diagonalizeMore : Nat → SmithState m n → SmithState m n
  | 0, st => st
  | fuel + 1, st =>
    let next := st.diagonalizeOnce row column
    if next.2 then diagonalizeMore fuel next.1 else next.1

def diagonalizeAt : SmithState m n :=
  let next := st.diagonalizeOnce row column
  if next.2 then diagonalizeMore row column (next.1.S row column).natAbs next.1 else next.1

end SmithState

def smithNormalFormDiag {m n : Nat} (st : SmithState m n) : SmithState m n :=
  (List.finRange (min m n)).foldl
    (fun st index => st.diagonalizeAt (index.castLE (min_le_left m n))
      (index.castLE (min_le_right m n))) st

end Tvm.Arith
