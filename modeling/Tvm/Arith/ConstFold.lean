import Tvm.Arith.Expr

/-!
# Constant folding

`TryConstFold` of `const_fold.h` over mathematical integers.  The outer `none` is a failed
`ICHECK` (a division by the constant zero); `same_as` is equality of expressions.
-/

namespace Tvm.Arith

def foldLeft : BinOp → Int → PrimExpr → Option PrimExpr
  | .add, a, b => if a = 0 then some b else none
  | .mul, a, b => if a = 1 then some b else if a = 0 then some (.intImm a) else none
  | .div, a, _ | .mod, a, _ | .floorDiv, a, _ | .floorMod, a, _ =>
    if a = 0 then some (.intImm a) else none
  | .and, a, b => some (if a ≠ 0 then b else .intImm a)
  | .or, a, b => some (if a ≠ 0 then .intImm a else b)
  | _, _, _ => none

def foldRight : BinOp → PrimExpr → Int → Option (Option PrimExpr)
  | .add, a, b | .sub, a, b => some (if b = 0 then some a else none)
  | .mul, a, b => some (if b = 1 then some a else if b = 0 then some (.intImm b) else none)
  | .div, a, b | .floorDiv, a, b =>
    if b = 1 then some (some a) else if b = 0 then none else some none
  | .mod, _, b | .floorMod, _, b =>
    if b = 1 then some (some (.intImm 0)) else if b = 0 then none else some none
  | .and, a, b => some (some (if b ≠ 0 then a else .intImm b))
  | .or, a, b => some (some (if b ≠ 0 then .intImm b else a))
  | _, _, _ => some none

/-- Whether two literals are folded by computing; `And` and `Or` return an operand. -/
def BinOp.computes : BinOp → Bool
  | .and | .or | .shiftLeft | .shiftRight | .bitwiseAnd => false
  | _ => true

def tryConstFold (op : BinOp) (a b : PrimExpr) : Option (Option PrimExpr) :=
  match a, b with
  | .intImm m, .intImm n =>
    if op.computes then (op.eval m n).map fun result => some (.intImm result)
    else some (foldLeft op m b)
  | .intImm m, _ => some (foldLeft op m b)
  | _, .intImm n => foldRight op a n
  | _, _ => some (if (op = .min ∨ op = .max) ∧ a = b then some a else none)

/-- A node built by an operator overload or by `Eval` of a pattern. -/
def makeBinary (op : BinOp) (a b : PrimExpr) : Option PrimExpr :=
  (tryConstFold op a b).map fun folded => folded.getD (.binary op a b)

def tryConstFoldNot : PrimExpr → Option PrimExpr
  | .intImm a => some (.intImm (truth (a = 0)))
  | _ => none

section Value

variable {interp : Nat → Env → Option Int} {env : Env} {op : BinOp} {a b r : PrimExpr}
  {x y v : Int}

/-- What folding relies on where it returns an operand of a logical operator. -/
def BinOp.Admits (op : BinOp) (x y : Int) : Prop :=
  op.operandSort = .bool → (x = 0 ∨ x = 1) ∧ (y = 0 ∨ y = 1)

theorem foldLeft_sound (folded : foldLeft op x b = some r) (right : b.eval interp env = some y)
    (admits : op.Admits x y) (evaluates : op.eval x y = some v) : r.eval interp env = some v := by
  cases op <;> simp only [foldLeft, reduceCtorEq] at folded
  case add =>
    split at folded
    · rename_i zero
      cases folded
      cases evaluates
      rw [zero, zero_add, right]
    · cases folded
  case mul =>
    split at folded
    · rename_i one
      cases folded
      cases evaluates
      rw [one, one_mul, right]
    · split at folded
      · rename_i zero
        cases folded
        cases evaluates
        rw [zero, zero_mul, PrimExpr.eval]
      · cases folded
  case and =>
    obtain ⟨-, truthValue⟩ := admits rfl
    cases folded
    cases evaluates
    split
    · rw [right]
      rcases truthValue with rfl | rfl <;> simp_all [truth]
    · simp_all [truth, PrimExpr.eval]
  case or =>
    obtain ⟨truthValue, truthValue'⟩ := admits rfl
    cases folded
    cases evaluates
    split
    · rcases truthValue with rfl | rfl <;> simp_all [truth, PrimExpr.eval]
    · rw [right]
      rcases truthValue' with rfl | rfl <;> simp_all [truth]
  all_goals
    split at folded
    · rename_i zero
      cases folded
      simp only [BinOp.eval, Option.ite_none_left_eq_some] at evaluates
      rw [PrimExpr.eval, ← evaluates.2, zero]
      simp
    · cases folded

theorem foldRight_sound (folded : foldRight op a y = some (some r))
    (left : a.eval interp env = some x) (admits : op.Admits x y)
    (evaluates : op.eval x y = some v) : r.eval interp env = some v := by
  cases op <;> simp only [foldRight, reduceCtorEq, Option.some.injEq] at folded
  case mul =>
    split at folded
    · rename_i one
      cases folded
      cases evaluates
      rw [one, mul_one, left]
    · split at folded
      · rename_i zero
        cases folded
        cases evaluates
        rw [zero, mul_zero, PrimExpr.eval]
      · cases folded
  case and =>
    obtain ⟨truthValue, -⟩ := admits rfl
    cases folded
    cases evaluates
    split
    · rw [left]
      rcases truthValue with rfl | rfl <;> simp_all [truth]
    · simp_all [truth, PrimExpr.eval]
  case or =>
    obtain ⟨truthValue, truthValue'⟩ := admits rfl
    cases folded
    cases evaluates
    split
    · rcases truthValue' with rfl | rfl <;> simp_all [truth, PrimExpr.eval]
    · rw [left]
      rcases truthValue with rfl | rfl <;> simp_all [truth]
  case add | sub =>
    split at folded
    · rename_i zero
      cases folded
      cases evaluates
      rw [zero, left]
      simp
    · cases folded
  all_goals
    split at folded
    · rename_i one
      cases folded
      simp only [BinOp.eval, Option.ite_none_left_eq_some] at evaluates
      rw [← evaluates.2, one]
      simp [left, PrimExpr.eval]
    · split at folded <;> cases folded

theorem tryConstFold_sound (folded : tryConstFold op a b = some (some r))
    (left : a.eval interp env = some x) (right : b.eval interp env = some y)
    (admits : op.Admits x y) (evaluates : op.eval x y = some v) : r.eval interp env = some v := by
  rw [tryConstFold.eq_def] at folded
  split at folded
  · cases left
    split at folded
    · cases right
      rw [evaluates] at folded
      cases folded
      rfl
    · exact foldLeft_sound (Option.some.inj folded) right admits evaluates
  · cases left
    exact foldLeft_sound (Option.some.inj folded) right admits evaluates
  · cases right
    exact foldRight_sound folded left admits evaluates
  · split at folded
    · rename_i same
      obtain ⟨operator, rfl⟩ := same
      cases folded
      rw [left] at right
      cases right
      rw [left]
      rcases operator with rfl | rfl
      · rw [BinOp.eval, Int.min_self] at evaluates
        exact evaluates
      · rw [BinOp.eval, Int.max_self] at evaluates
        exact evaluates
    · cases folded

theorem makeBinary_sound (made : makeBinary op a b = some r)
    (left : a.eval interp env = some x) (right : b.eval interp env = some y)
    (admits : op.Admits x y) (evaluates : op.eval x y = some v) : r.eval interp env = some v := by
  rw [makeBinary, Option.map_eq_some_iff] at made
  obtain ⟨folded, foldedIs, rfl⟩ := made
  cases folded with
  | none =>
    rw [Option.getD_none, PrimExpr.eval, left, right, Option.bind_some, Option.bind_some,
      evaluates]
  | some found => exact tryConstFold_sound foldedIs left right admits evaluates

theorem exists_makeBinary (op : BinOp) (right : b.eval interp env = some y)
    (defined : ∀ x, ∃ v, op.eval x y = some v) (a : PrimExpr) :
    ∃ r, makeBinary op a b = some r := by
  rw [makeBinary, tryConstFold.eq_def]
  split
  · rename_i m n
    cases right
    obtain ⟨v, evaluates⟩ := defined m
    rw [evaluates]
    split <;> exact ⟨_, rfl⟩
  · exact ⟨_, rfl⟩
  · cases right
    obtain ⟨v, evaluates⟩ := defined 0
    cases op with
    | div | mod | floorDiv | floorMod =>
      rw [foldRight, if_neg (Option.ite_none_left_eq_some.mp evaluates).1]
      split <;> exact ⟨_, rfl⟩
    | _ => exact ⟨_, rfl⟩
  · exact ⟨_, rfl⟩

end Value

section Sorted

variable {allowed : BinOp → Bool} {op : BinOp} {a b r : PrimExpr}

theorem BinOp.eval_sorted {x y v : Int} (evaluates : op.eval x y = some v) :
    WellSorted allowed op.resultSort (.intImm v) = true := by
  cases logical : op.resultSort with
  | int => rfl
  | bool =>
    rcases BinOp.eval_truth logical evaluates with rfl | rfl
    · rfl
    · rfl

theorem foldLeft_sorted {x : Int} (folded : foldLeft op x b = some r)
    (left : WellSorted allowed op.operandSort (.intImm x) = true)
    (right : WellSorted allowed op.operandSort b = true) :
    WellSorted allowed op.resultSort r = true := by
  cases op <;> simp only [foldLeft, reduceCtorEq] at folded
  all_goals
    repeat' split at folded
    all_goals
      cases folded
      try first | exact left | exact right

theorem foldRight_sorted {y : Int} (folded : foldRight op a y = some (some r))
    (left : WellSorted allowed op.operandSort a = true)
    (right : WellSorted allowed op.operandSort (.intImm y) = true) :
    WellSorted allowed op.resultSort r = true := by
  cases op <;> simp only [foldRight, reduceCtorEq, Option.some.injEq] at folded
  all_goals
    repeat' split at folded
    all_goals
      cases folded
      try first | exact left | exact right | rfl

theorem makeBinary_sorted (made : makeBinary op a b = some r) (permitted : allowed op = true)
    (left : WellSorted allowed op.operandSort a = true)
    (right : WellSorted allowed op.operandSort b = true) :
    WellSorted allowed op.resultSort r = true := by
  rw [makeBinary, Option.map_eq_some_iff] at made
  obtain ⟨folded, foldedIs, rfl⟩ := made
  cases folded with
  | none =>
    simp only [Option.getD_none, WellSorted, permitted, left, right, beq_self_eq_true,
      Bool.and_self]
  | some found =>
    rw [tryConstFold.eq_def] at foldedIs
    rw [Option.getD_some]
    split at foldedIs
    · split at foldedIs
      · obtain ⟨result, evaluates, resultIs⟩ := Option.map_eq_some_iff.mp foldedIs
        cases resultIs
        exact BinOp.eval_sorted evaluates
      · exact foldLeft_sorted (Option.some.inj foldedIs) left right
    · exact foldLeft_sorted (Option.some.inj foldedIs) left right
    · exact foldRight_sorted foldedIs left right
    · split at foldedIs
      · rename_i same
        obtain ⟨operator, -⟩ := same
        cases foldedIs
        rcases operator with rfl | rfl
        · exact left
        · exact left
      · cases foldedIs

theorem makeBinary_literals {x y : Int} (made : makeBinary op (.intImm x) (.intImm y) = some r)
    (computes : op.computes = true) : ∃ v, op.eval x y = some v ∧ r = .intImm v := by
  rw [makeBinary, Option.map_eq_some_iff] at made
  obtain ⟨folded, foldedIs, rfl⟩ := made
  simp only [tryConstFold, computes, if_true, Option.map_eq_some_iff] at foldedIs
  obtain ⟨v, evaluates, rfl⟩ := foldedIs
  exact ⟨v, evaluates, rfl⟩

end Sorted

end Tvm.Arith
