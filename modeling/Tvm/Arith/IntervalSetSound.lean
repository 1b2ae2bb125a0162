import Mathlib
import Tvm.Arith.IntervalSet
import Tvm.Lib.Division

/-!
# What interval sets contain

Every `Combine` contains the results of the operator on what its operands contain, wherever the
answers of the analyzer are true.  The evaluator therefore contains the value of the expression.
-/

namespace Tvm.Arith

variable {interp : Nat → Env → Option Int} {env : Env}

namespace Limit

/-- The limit has a value that is at most `v`. -/
def Below (interp : Nat → Env → Option Int) (env : Env) (v : Int) : Limit → Prop
  | .negInf => True
  | .posInf => False
  | .expr e => ∃ m, e.eval interp env = some m ∧ m ≤ v

/-- The limit has a value that is at least `v`. -/
def Above (interp : Nat → Env → Option Int) (env : Env) (v : Int) : Limit → Prop
  | .negInf => False
  | .posInf => True
  | .expr e => ∃ m, e.eval interp env = some m ∧ v ≤ m

variable {l : Limit} {v w : Int}

theorem Below.trans (below : l.Below interp env v) (le : v ≤ w) : l.Below interp env w := by
  cases l with
  | negInf => trivial
  | posInf => exact below
  | expr e =>
    obtain ⟨m, value, bound⟩ := below
    exact ⟨m, value, bound.trans le⟩

theorem Above.trans (above : l.Above interp env v) (le : w ≤ v) : l.Above interp env w := by
  cases l with
  | negInf => exact above
  | posInf => trivial
  | expr e =>
    obtain ⟨m, value, bound⟩ := above
    exact ⟨m, value, le.trans bound⟩

theorem admits_min {x y : Int} : BinOp.min.Admits x y :=
  fun logical => by cases logical

theorem admits_max {x y : Int} : BinOp.max.Admits x y :=
  fun logical => by cases logical

variable {a b : Limit}

theorem min_below (made : a.min b = some l) (left : a.Below interp env v)
    (right : b.Below interp env w) : l.Below interp env (Min.min v w) := by
  cases a with
  | negInf =>
    cases made
    trivial
  | posInf => exact left.elim
  | expr x =>
    cases b with
    | negInf =>
      cases made
      trivial
    | posInf => exact right.elim
    | expr y =>
      obtain ⟨m, leftValue, leftBound⟩ := left
      obtain ⟨n, rightValue, rightBound⟩ := right
      obtain ⟨e, eMade, rfl⟩ := Option.map_eq_some_iff.mp made
      exact ⟨_, makeBinary_sound eMade leftValue rightValue admits_min rfl,
        min_le_min leftBound rightBound⟩

theorem max_below (made : a.max b = some l) (left : a.Below interp env v)
    (right : b.Below interp env w) : l.Below interp env (Max.max v w) := by
  cases a with
  | negInf =>
    cases made
    exact right.trans (le_max_right v w)
  | posInf => exact left.elim
  | expr x =>
    cases b with
    | negInf =>
      cases made
      exact left.trans (le_max_left v w)
    | posInf => exact right.elim
    | expr y =>
      obtain ⟨m, leftValue, leftBound⟩ := left
      obtain ⟨n, rightValue, rightBound⟩ := right
      obtain ⟨e, eMade, rfl⟩ := Option.map_eq_some_iff.mp made
      exact ⟨_, makeBinary_sound eMade leftValue rightValue admits_max rfl,
        max_le_max leftBound rightBound⟩

theorem min_above (made : a.min b = some l) (left : a.Above interp env v)
    (right : b.Above interp env w) : l.Above interp env (Min.min v w) := by
  cases a with
  | negInf => exact left.elim
  | posInf =>
    cases made
    exact right.trans (min_le_right v w)
  | expr x =>
    cases b with
    | negInf => exact right.elim
    | posInf =>
      cases made
      exact left.trans (min_le_left v w)
    | expr y =>
      obtain ⟨m, leftValue, leftBound⟩ := left
      obtain ⟨n, rightValue, rightBound⟩ := right
      obtain ⟨e, eMade, rfl⟩ := Option.map_eq_some_iff.mp made
      exact ⟨_, makeBinary_sound eMade leftValue rightValue admits_min rfl,
        min_le_min leftBound rightBound⟩

theorem max_above (made : a.max b = some l) (left : a.Above interp env v)
    (right : b.Above interp env w) : l.Above interp env (Max.max v w) := by
  cases a with
  | negInf => exact left.elim
  | posInf =>
    cases made
    trivial
  | expr x =>
    cases b with
    | negInf => exact right.elim
    | posInf =>
      cases made
      trivial
    | expr y =>
      obtain ⟨m, leftValue, leftBound⟩ := left
      obtain ⟨n, rightValue, rightBound⟩ := right
      obtain ⟨e, eMade, rfl⟩ := Option.map_eq_some_iff.mp made
      exact ⟨_, makeBinary_sound eMade leftValue rightValue admits_max rfl,
        max_le_max leftBound rightBound⟩

end Limit

/-- The value `v` lies in the interval. -/
structure IntervalSet.Contains (interp : Nat → Env → Option Int) (env : Env) (set : IntervalSet)
    (v : Int) : Prop where
  below : set.minValue.Below interp env v
  above : set.maxValue.Above interp env v

namespace IntervalSet

variable {set a b : IntervalSet} {v w : Int}

theorem everything_contains : everything.Contains interp env v :=
  ⟨trivial, trivial⟩

theorem singlePoint_contains {e : PrimExpr} (value : e.eval interp env = some v) :
    (singlePoint e).Contains interp env v :=
  ⟨⟨v, value, le_refl v⟩, v, value, le_refl v⟩

theorem Contains.nonempty (contains : set.Contains interp env v) : set.isEmpty = false := by
  obtain ⟨lower, upper⟩ := set
  obtain ⟨below, above⟩ := contains
  cases lower with
  | posInf => exact below.elim
  | negInf | expr e =>
    cases upper with
    | negInf => exact above.elim
    | posInf | expr e' => rfl

theorem Contains.lowerBound_cases (contains : set.Contains interp env v) :
    (set.lowerBound = none ∧ set.minValue = .negInf) ∨
      ∃ e m, set.lowerBound = some e ∧ set.minValue = .expr e ∧ e.eval interp env = some m ∧
        m ≤ v := by
  have nonempty := contains.nonempty
  obtain ⟨below, -⟩ := contains
  rw [lowerBound]
  cases lower : set.minValue with
  | negInf => exact Or.inl ⟨rfl, rfl⟩
  | posInf =>
    rw [lower] at below
    exact below.elim
  | expr e =>
    rw [lower] at below
    obtain ⟨m, value, bound⟩ := below
    exact Or.inr ⟨e, m, by simp [nonempty], rfl, value, bound⟩

theorem Contains.upperBound_cases (contains : set.Contains interp env v) :
    (set.upperBound = none ∧ set.maxValue = .posInf) ∨
      ∃ e m, set.upperBound = some e ∧ set.maxValue = .expr e ∧ e.eval interp env = some m ∧
        v ≤ m := by
  have nonempty := contains.nonempty
  obtain ⟨-, above⟩ := contains
  rw [upperBound]
  cases upper : set.maxValue with
  | negInf =>
    rw [upper] at above
    exact above.elim
  | posInf => exact Or.inl ⟨rfl, rfl⟩
  | expr e =>
    rw [upper] at above
    obtain ⟨m, value, bound⟩ := above
    exact Or.inr ⟨e, m, by simp [nonempty], rfl, value, bound⟩

theorem Contains.lowerBound_le (contains : set.Contains interp env v) {e : PrimExpr}
    (has : set.lowerBound = some e) : ∃ m, e.eval interp env = some m ∧ m ≤ v := by
  rcases contains.lowerBound_cases with ⟨missing, -⟩ | ⟨e', m, found, -, value, bound⟩
  · rw [missing] at has
    cases has
  · rw [found] at has
    cases has
    exact ⟨m, value, bound⟩

theorem Contains.le_upperBound (contains : set.Contains interp env v) {e : PrimExpr}
    (has : set.upperBound = some e) : ∃ m, e.eval interp env = some m ∧ v ≤ m := by
  rcases contains.upperBound_cases with ⟨missing, -⟩ | ⟨e', m, found, -, value, bound⟩
  · rw [missing] at has
    cases has
  · rw [found] at has
    cases has
    exact ⟨m, value, bound⟩

theorem union_contains (made : a.union b = some set) (left : a.Contains interp env v)
    (right : b.Contains interp env w) : set.Contains interp env v ∧ set.Contains interp env w := by
  rw [union, left.nonempty, right.nonempty, if_neg Bool.false_ne_true,
    if_neg Bool.false_ne_true] at made
  obtain ⟨upper, upperMade, made⟩ := Option.bind_eq_some_iff.mp made
  obtain ⟨lower, lowerMade, made⟩ := Option.bind_eq_some_iff.mp made
  cases made
  have below := Limit.min_below lowerMade left.below right.below
  have above := Limit.max_above upperMade left.above right.above
  exact ⟨⟨below.trans (min_le_left v w), above.trans (le_max_left v w)⟩,
    below.trans (min_le_right v w), above.trans (le_max_right v w)⟩

end IntervalSet

section BoundBy

variable {limit l : Limit} {op : BinOp} {a b : Option PrimExpr} {P Q : Int → Prop} {v : Int}

theorem boundBy_cases (made : boundBy limit op a b = some l) (arithmetic : op.operandSort = .int)
    (left : ∀ e, a = some e → ∃ m, e.eval interp env = some m ∧ P m)
    (right : ∀ e, b = some e → ∃ n, e.eval interp env = some n ∧ Q n)
    (defined : ∀ m n, P m → Q n → ∃ r, op.eval m n = some r) :
    l = limit ∨ ∃ m n r e, P m ∧ Q n ∧ op.eval m n = some r ∧ l = .expr e ∧
      e.eval interp env = some r := by
  rw [boundBy.eq_def] at made
  split at made
  · rename_i x y
    obtain ⟨m, leftValue, isLeft⟩ := left x rfl
    obtain ⟨n, rightValue, isRight⟩ := right y rfl
    obtain ⟨e, eMade, rfl⟩ := Option.map_eq_some_iff.mp made
    obtain ⟨r, evaluates⟩ := defined m n isLeft isRight
    have admits : op.Admits m n := fun logical => by rw [arithmetic] at logical; cases logical
    exact Or.inr ⟨m, n, r, e, isLeft, isRight, evaluates, rfl,
      makeBinary_sound eMade leftValue rightValue admits evaluates⟩
  · cases made
    exact Or.inl rfl

theorem boundBy_below (made : boundBy .negInf op a b = some l) (arithmetic : op.operandSort = .int)
    (left : ∀ e, a = some e → ∃ m, e.eval interp env = some m ∧ P m)
    (right : ∀ e, b = some e → ∃ n, e.eval interp env = some n ∧ Q n)
    (bound : ∀ m n, P m → Q n → ∃ r, op.eval m n = some r ∧ r ≤ v) : l.Below interp env v := by
  have defined : ∀ m n, P m → Q n → ∃ r, op.eval m n = some r := fun m n isLeft isRight =>
    (bound m n isLeft isRight).imp fun r found => found.1
  rcases boundBy_cases made arithmetic left right defined with rfl | ⟨m, n, r, e, isLeft, isRight,
    evaluates, rfl, value⟩
  · trivial
  · obtain ⟨r', evaluates', le⟩ := bound m n isLeft isRight
    rw [evaluates] at evaluates'
    cases evaluates'
    exact ⟨r, value, le⟩

theorem boundBy_above (made : boundBy .posInf op a b = some l) (arithmetic : op.operandSort = .int)
    (left : ∀ e, a = some e → ∃ m, e.eval interp env = some m ∧ P m)
    (right : ∀ e, b = some e → ∃ n, e.eval interp env = some n ∧ Q n)
    (bound : ∀ m n, P m → Q n → ∃ r, op.eval m n = some r ∧ v ≤ r) : l.Above interp env v := by
  have defined : ∀ m n, P m → Q n → ∃ r, op.eval m n = some r := fun m n isLeft isRight =>
    (bound m n isLeft isRight).imp fun r found => found.1
  rcases boundBy_cases made arithmetic left right defined with rfl | ⟨m, n, r, e, isLeft, isRight,
    evaluates, rfl, value⟩
  · trivial
  · obtain ⟨r', evaluates', le⟩ := bound m n isLeft isRight
    rw [evaluates] at evaluates'
    cases evaluates'
    exact ⟨r, value, le⟩

end BoundBy

/-- The answers of the analyzer that prove something are true at the assignment, and nodes of
one identity are equal. -/
structure IntervalQueries.Sound (q : IntervalQueries) (interp : Nat → Env → Option Int)
    (env : Env) : Prop where
  canProveGreaterEqual : ∀ e n v, q.canProveGreaterEqual e n = some true →
    e.eval interp env = some v → n ≤ v
  canProve : ∀ e v, q.canProve e = some true → e.eval interp env = some v → v ≠ 0
  freshCanProve : ∀ e v, q.freshCanProve e = some true → e.eval interp env = some v → v ≠ 0
  sameAs : ∀ a b, q.sameAs a b = true → a = b

section Combine

variable {q : IntervalQueries} {a b set : IntervalSet} {x y v : Int}

theorem sub_sound {d e r : PrimExpr} (made : makeBinary .sub d e = some r)
    (left : d.eval interp env = some x) (right : e.eval interp env = some y) :
    r.eval interp env = some (x - y) :=
  makeBinary_sound made left right (fun logical => by cases logical) rfl

theorem canProveEqual_sound (sound : q.Sound interp env) {lhs rhs : PrimExpr}
    (proved : q.canProveEqual lhs rhs = some true) (left : lhs.eval interp env = some x)
    (right : rhs.eval interp env = some y) : x = y := by
  rw [IntervalQueries.canProveEqual.eq_def] at proved
  split at proved
  · cases left
    cases right
    simpa using proved
  · obtain ⟨difference, differenceMade, proved⟩ := Option.bind_eq_some_iff.mp proved
    obtain ⟨equal, equalMade, proved⟩ := Option.bind_eq_some_iff.mp proved
    have value := makeBinary_sound equalMade (sub_sound differenceMade left right) rfl
      (fun logical => by cases logical) rfl
    have nonzero := sound.freshCanProve equal _ proved value
    rw [ne_eq, truth_eq_zero, not_not] at nonzero
    omega

theorem isSinglePoint_sound (sound : q.Sound interp env) (point : set.isSinglePoint q = some true)
    (contains : set.Contains interp env v) :
    ∃ e, set.minValue = .expr e ∧ e.eval interp env = some v := by
  obtain ⟨lower, upper⟩ := set
  obtain ⟨below, above⟩ := contains
  cases lower with
  | posInf => exact below.elim
  | negInf =>
    cases upper with
    | negInf => exact above.elim
    | posInf | expr e => simp [IntervalSet.isSinglePoint] at point
  | expr e =>
    cases upper with
    | negInf => exact above.elim
    | posInf => simp [IntervalSet.isSinglePoint] at point
    | expr e' =>
      obtain ⟨m, lowerValue, lowerBound⟩ := below
      obtain ⟨n, upperValue, upperBound⟩ := above
      have same : m = n := by
        simp only [IntervalSet.isSinglePoint] at point
        split at point
        · rename_i identical
          rw [sound.sameAs e e' identical, upperValue] at lowerValue
          exact (Option.some.inj lowerValue).symm
        · exact canProveEqual_sound sound point lowerValue upperValue
      have exact : m = v := by omega
      exact ⟨e, rfl, exact ▸ lowerValue⟩

theorem combinePoints_contains {op : BinOp} (made : combinePoints op a b = some set)
    {d e : PrimExpr} (leftIs : a.minValue = .expr d) (rightIs : b.minValue = .expr e)
    (left : d.eval interp env = some x) (right : e.eval interp env = some y)
    (admits : op.Admits x y) (evaluates : op.eval x y = some v) : set.Contains interp env v := by
  rw [combinePoints, leftIs, rightIs] at made
  obtain ⟨r, rMade, rfl⟩ := Option.map_eq_some_iff.mp made
  exact IntervalSet.singlePoint_contains (makeBinary_sound rMade left right admits evaluates)

theorem bothPoints_sound (sound : q.Sound interp env) (points : bothPoints q a b = some true)
    (left : a.Contains interp env x) (right : b.Contains interp env y) :
    (∃ d, a.minValue = .expr d ∧ d.eval interp env = some x) ∧
      ∃ e, b.minValue = .expr e ∧ e.eval interp env = some y := by
  obtain ⟨first, firstPoint, points⟩ := Option.bind_eq_some_iff.mp points
  cases first with
  | false => cases points
  | true => exact ⟨isSinglePoint_sound sound firstPoint left, isSinglePoint_sound sound points right⟩

theorem combineWith_contains (sound : q.Sound interp env) {op : BinOp}
    {ranges : IntervalSet → IntervalSet → Option IntervalSet}
    (made : combineWith q op ranges a b = some set) (left : a.Contains interp env x)
    (right : b.Contains interp env y) (admits : op.Admits x y) (evaluates : op.eval x y = some v)
    (rangesSound : ranges a b = some set → set.Contains interp env v) :
    set.Contains interp env v := by
  obtain ⟨points, pointsIs, made⟩ := Option.bind_eq_some_iff.mp made
  cases points with
  | true =>
    obtain ⟨⟨d, leftIs, leftValue⟩, e, rightIs, rightValue⟩ :=
      bothPoints_sound sound pointsIs left right
    exact combinePoints_contains made leftIs rightIs leftValue rightValue admits evaluates
  | false =>
    rw [left.nonempty, right.nonempty] at made
    exact rangesSound made

theorem combineAdd_contains (sound : q.Sound interp env) (made : combineAdd q a b = some set)
    (left : a.Contains interp env x) (right : b.Contains interp env y) :
    set.Contains interp env (x + y) := by
  refine combineWith_contains sound made left right (fun logical => by cases logical) rfl
    fun made => ?_
  obtain ⟨lower, lowerMade, made⟩ := Option.bind_eq_some_iff.mp made
  obtain ⟨upper, upperMade, made⟩ := Option.bind_eq_some_iff.mp made
  cases made
  constructor
  · exact boundBy_below lowerMade rfl (fun _ => left.lowerBound_le) (fun _ => right.lowerBound_le)
      fun m n mLe nLe => ⟨m + n, rfl, add_le_add mLe nLe⟩
  · exact boundBy_above upperMade rfl (fun _ => left.le_upperBound) (fun _ => right.le_upperBound)
      fun m n leM leN => ⟨m + n, rfl, add_le_add leM leN⟩

theorem combineSub_contains (sound : q.Sound interp env) (made : combineSub q a b = some set)
    (left : a.Contains interp env x) (right : b.Contains interp env y) :
    set.Contains interp env (x - y) := by
  refine combineWith_contains sound made left right (fun logical => by cases logical) rfl
    fun made => ?_
  obtain ⟨lower, lowerMade, made⟩ := Option.bind_eq_some_iff.mp made
  obtain ⟨upper, upperMade, made⟩ := Option.bind_eq_some_iff.mp made
  cases made
  constructor
  · exact boundBy_below lowerMade rfl (fun _ => left.lowerBound_le) (fun _ => right.le_upperBound)
      fun m n mLe leN => ⟨m - n, rfl, sub_le_sub mLe leN⟩
  · exact boundBy_above upperMade rfl (fun _ => left.le_upperBound) (fun _ => right.lowerBound_le)
      fun m n leM nLe => ⟨m - n, rfl, sub_le_sub leM nLe⟩

theorem combineMax_contains (sound : q.Sound interp env) (made : combineMax q a b = some set)
    (left : a.Contains interp env x) (right : b.Contains interp env y) :
    set.Contains interp env (max x y) := by
  refine combineWith_contains sound made left right (fun logical => by cases logical) rfl
    fun made => ?_
  obtain ⟨lower, lowerMade, made⟩ := Option.bind_eq_some_iff.mp made
  obtain ⟨upper, upperMade, made⟩ := Option.bind_eq_some_iff.mp made
  cases made
  exact ⟨Limit.max_below lowerMade left.below right.below,
    Limit.max_above upperMade left.above right.above⟩

theorem combineMin_contains (sound : q.Sound interp env) (made : combineMin q a b = some set)
    (left : a.Contains interp env x) (right : b.Contains interp env y) :
    set.Contains interp env (min x y) := by
  refine combineWith_contains sound made left right (fun logical => by cases logical) rfl
    fun made => ?_
  obtain ⟨lower, lowerMade, made⟩ := Option.bind_eq_some_iff.mp made
  obtain ⟨upper, upperMade, made⟩ := Option.bind_eq_some_iff.mp made
  cases made
  exact ⟨Limit.min_below lowerMade left.below right.below,
    Limit.min_above upperMade left.above right.above⟩

end Combine

/-- The operator with the right operand `n` is a function that respects or reverses the order by
the sign of `n`. -/
structure BinOp.ScalesAt (op : BinOp) (n : Int) (f : Int → Int) : Prop where
  arithmetic : op.operandSort = .int
  eval : ∀ m, op.eval m n = some (f m)
  monotone : 0 ≤ n → Monotone f
  antitone : n < 0 → Antitone f

theorem scalesAt_mul (n : Int) : BinOp.mul.ScalesAt n (· * n) where
  arithmetic := rfl
  eval _ := rfl
  monotone nonneg _ _ le := mul_le_mul_of_nonneg_right le nonneg
  antitone negative _ _ le := mul_le_mul_of_nonpos_right le negative.le

theorem scalesAt_div {n : Int} (nonzero : n ≠ 0) : BinOp.div.ScalesAt n (·.tdiv n) where
  arithmetic := rfl
  eval _ := if_neg nonzero
  monotone nonneg _ _ le := Int.tdiv_le_tdiv (lt_of_le_of_ne nonneg nonzero.symm) le
  antitone negative _ _ le := Lib.tdiv_le_tdiv_of_neg negative le

theorem scalesAt_floorDiv {n : Int} (nonzero : n ≠ 0) : BinOp.floorDiv.ScalesAt n (·.fdiv n) where
  arithmetic := rfl
  eval _ := if_neg nonzero
  monotone nonneg _ _ le := Lib.fdiv_le_fdiv (lt_of_le_of_ne nonneg nonzero.symm) le
  antitone negative _ _ le := Lib.fdiv_le_fdiv_of_neg negative le

section Scale

variable {q : IntervalQueries} {a b set : IntervalSet} {x y v : Int} {d r : PrimExpr}

theorem neg_sound (made : d.neg = some r) (value : d.eval interp env = some x) :
    r.eval interp env = some (-x) := by
  rw [PrimExpr.neg.eq_def] at made
  split at made
  · cases value
    cases made
    rfl
  · rw [sub_sound made rfl value, zero_sub]

theorem abs_sound (made : d.abs = some r) (value : d.eval interp env = some x) :
    r.eval interp env = some |x| := by
  rw [PrimExpr.abs.eq_def] at made
  split at made
  · cases value
    cases made
    rw [PrimExpr.eval, Int.abs_eq_natAbs]
  · obtain ⟨sign, signMade, made⟩ := Option.bind_eq_some_iff.mp made
    obtain ⟨negated, negatedMade, made⟩ := Option.bind_eq_some_iff.mp made
    cases made
    have signValue := makeBinary_sound signMade value (y := 0) rfl (fun logical => by cases logical)
      rfl
    rw [PrimExpr.eval, signValue, Option.bind_some, neg_sound negatedMade value, value]
    by_cases nonneg : 0 ≤ x
    · simp [truth, nonneg, abs_of_nonneg nonneg]
    · simp [truth, nonneg, abs_of_neg (not_le.mp nonneg)]

theorem select_value {sign whenTrue whenFalse : PrimExpr} {m n : Int}
    (signMade : makeBinary .ge d (.intImm 0) = some sign) (value : d.eval interp env = some y)
    (left : whenTrue.eval interp env = some m) (right : whenFalse.eval interp env = some n) :
    (PrimExpr.select sign whenTrue whenFalse).eval interp env = some (if 0 ≤ y then m else n) := by
  have signValue := makeBinary_sound signMade value (y := 0) rfl (fun logical => by cases logical)
    rfl
  rw [PrimExpr.eval, signValue, Option.bind_some, left, right]
  by_cases nonneg : 0 ≤ y
  · simp [truth, nonneg]
  · simp [truth, nonneg]

theorem scaleBySign_contains (sound : q.Sound interp env) {op : BinOp} {f : Int → Int}
    (scales : op.ScalesAt y f) (made : scaleBySign q op a d = some set)
    (left : a.Contains interp env x) (value : d.eval interp env = some y) :
    set.Contains interp env (f x) := by
  have factor : ∀ e, some d = some e → ∃ n, e.eval interp env = some n ∧ n = y := by
    intro e same
    cases same
    exact ⟨y, value, rfl⟩
  obtain ⟨nonneg, nonnegIs, made⟩ := Option.bind_eq_some_iff.mp made
  cases nonneg with
  | true =>
    have monotone := scales.monotone (sound.canProveGreaterEqual d 0 y nonnegIs value)
    obtain ⟨lower, lowerMade, made⟩ := Option.bind_eq_some_iff.mp made
    obtain ⟨upper, upperMade, made⟩ := Option.bind_eq_some_iff.mp made
    cases made
    constructor
    · apply boundBy_below lowerMade scales.arithmetic (fun _ => left.lowerBound_le) factor
      rintro m n le rfl
      exact ⟨f m, scales.eval m, monotone le⟩
    · apply boundBy_above upperMade scales.arithmetic (fun _ => left.le_upperBound) factor
      rintro m n le rfl
      exact ⟨f m, scales.eval m, monotone le⟩
  | false =>
    obtain ⟨negated, negatedMade, made⟩ := Option.bind_eq_some_iff.mp made
    obtain ⟨negative, negativeIs, made⟩ := Option.bind_eq_some_iff.mp made
    cases negative with
    | true =>
      have positive := sound.canProveGreaterEqual negated 1 (-y) negativeIs
        (neg_sound negatedMade value)
      have antitone := scales.antitone (by omega)
      obtain ⟨lower, lowerMade, made⟩ := Option.bind_eq_some_iff.mp made
      obtain ⟨upper, upperMade, made⟩ := Option.bind_eq_some_iff.mp made
      cases made
      constructor
      · apply boundBy_below lowerMade scales.arithmetic (fun _ => left.le_upperBound) factor
        rintro m n le rfl
        exact ⟨f m, scales.eval m, antitone le⟩
      · apply boundBy_above upperMade scales.arithmetic (fun _ => left.lowerBound_le) factor
        rintro m n le rfl
        exact ⟨f m, scales.eval m, antitone le⟩
    | false =>
      simp only [Bool.false_eq_true, if_false] at made
      split at made
      · rename_i lower upper hasLower hasUpper
        obtain ⟨m, lowerValue, lowerLe⟩ := left.lowerBound_le hasLower
        obtain ⟨n, upperValue, leUpper⟩ := left.le_upperBound hasUpper
        obtain ⟨sign, signMade, made⟩ := Option.bind_eq_some_iff.mp made
        obtain ⟨e1, e1Made, made⟩ := Option.bind_eq_some_iff.mp made
        obtain ⟨e2, e2Made, made⟩ := Option.bind_eq_some_iff.mp made
        cases made
        have admits (m : Int) : op.Admits m y :=
          fun logical => by rw [scales.arithmetic] at logical; cases logical
        have e1Value := makeBinary_sound e1Made lowerValue value (admits m) (scales.eval m)
        have e2Value := makeBinary_sound e2Made upperValue value (admits n) (scales.eval n)
        refine ⟨⟨_, select_value signMade value e1Value e2Value, ?_⟩,
          _, select_value signMade value e2Value e1Value, ?_⟩
        · split
          · exact scales.monotone ‹_› lowerLe
          · exact scales.antitone (by omega) leUpper
        · split
          · exact scales.monotone ‹_› leUpper
          · exact scales.antitone (by omega) lowerLe
      · cases made
        exact IntervalSet.everything_contains

theorem withPoint_contains (sound : q.Sound interp env)
    {onPoint : PrimExpr → Option IntervalSet} (made : withPoint q b onPoint = some set)
    (right : b.Contains interp env y)
    (pointSound : ∀ d, b.minValue = .expr d → d.eval interp env = some y →
      onPoint d = some set → set.Contains interp env v) : set.Contains interp env v := by
  obtain ⟨point, pointIs, made⟩ := Option.bind_eq_some_iff.mp made
  cases point with
  | true =>
    obtain ⟨d, isExpr, value⟩ := isSinglePoint_sound sound pointIs right
    simp only [if_true, isExpr] at made
    exact pointSound d isExpr value made
  | false =>
    cases made
    exact IntervalSet.everything_contains

theorem mulByPoint_contains (sound : q.Sound interp env) (made : mulByPoint q a b = some set)
    (left : a.Contains interp env x) (right : b.Contains interp env y) :
    set.Contains interp env (x * y) := by
  refine withPoint_contains sound made right fun d _ value made => ?_
  split at made
  · rename_i zero
    subst zero
    cases value
    cases made
    rwa [mul_zero]
  · split at made
    · rename_i one
      subst one
      cases value
      cases made
      rwa [mul_one]
    · have scaled := scaleBySign_contains sound (scalesAt_mul y) made left value
      exact scaled

theorem combineMul_contains (sound : q.Sound interp env) (made : combineMul q a b = some set)
    (left : a.Contains interp env x) (right : b.Contains interp env y) :
    set.Contains interp env (x * y) := by
  refine combineWith_contains sound made left right (fun logical => by cases logical) rfl
    fun made => ?_
  obtain ⟨point, -, made⟩ := Option.bind_eq_some_iff.mp made
  cases point with
  | true =>
    rw [mul_comm]
    exact mulByPoint_contains sound made right left
  | false => exact mulByPoint_contains sound made left right

theorem combineQuotient_contains (sound : q.Sound interp env) {op : BinOp} {f : Int → Int}
    (scales : op.ScalesAt y f) (one : y = 1 → f x = x)
    (made : combineQuotient q op a b = some set) (left : a.Contains interp env x)
    (right : b.Contains interp env y) : set.Contains interp env (f x) := by
  have admits : op.Admits x y :=
    fun logical => by rw [scales.arithmetic] at logical; cases logical
  refine combineWith_contains sound made left right admits (scales.eval x) fun made => ?_
  refine withPoint_contains sound made right fun d _ value made => ?_
  split at made
  · cases made
  · split at made
    · rename_i isOne
      subst isOne
      cases value
      cases made
      rwa [one rfl]
    · exact scaleBySign_contains sound scales made left value

theorem belowDivisor_contains (made : belowDivisor d = some set)
    (value : d.eval interp env = some y) (nonneg : 0 ≤ v) (small : v < y) :
    set.Contains interp env v := by
  obtain ⟨upper, upperMade, rfl⟩ := Option.map_eq_some_iff.mp made
  exact ⟨⟨0, rfl, nonneg⟩, y - 1, sub_sound upperMade value rfl, by omega⟩

theorem withinDivisor_contains (made : withinDivisor d = some set)
    (value : d.eval interp env = some y) (small : |v| < |y|) : set.Contains interp env v := by
  obtain ⟨magnitude, magnitudeMade, made⟩ := Option.bind_eq_some_iff.mp made
  obtain ⟨bound, boundMade, made⟩ := Option.bind_eq_some_iff.mp made
  obtain ⟨lower, lowerMade, made⟩ := Option.bind_eq_some_iff.mp made
  cases made
  have boundValue := sub_sound boundMade (abs_sound magnitudeMade value) (y := 1) rfl
  obtain ⟨lowerBound, upperBound⟩ := abs_le.mp (Int.le_sub_one_of_lt small)
  exact ⟨⟨_, neg_sound lowerMade boundValue, lowerBound⟩, _, boundValue, upperBound⟩

theorem abs_tmod_lt (x : Int) (nonzero : y ≠ 0) : |x.tmod y| < |y| := by
  rw [Int.abs_eq_natAbs, Int.abs_eq_natAbs, Int.natAbs_tmod]
  exact_mod_cast Nat.mod_lt _ (Int.natAbs_pos.mpr nonzero)

theorem abs_fmod_lt (x : Int) (nonzero : y ≠ 0) : |x.fmod y| < |y| := by
  rcases lt_or_gt_of_ne nonzero with negative | positive
  · have opposite : (-x).fmod (-y) = -x.fmod y := Int.neg_fmod_neg x y
    have lower := Int.fmod_nonneg_of_pos (-x) (by omega : 0 < -y)
    have upper := Int.fmod_lt_of_pos (-x) (by omega : 0 < -y)
    rw [abs_of_neg negative, abs_of_nonpos (by omega)]
    omega
  · have lower := Int.fmod_nonneg_of_pos x positive
    rw [abs_of_pos positive, abs_of_nonneg lower]
    exact Int.fmod_lt_of_pos x positive

theorem combineMod_contains (sound : q.Sound interp env) (made : combineMod q a b = some set)
    (left : a.Contains interp env x) (right : b.Contains interp env y) (nonzero : y ≠ 0)
    (nonneg : 0 ≤ x) : set.Contains interp env (x.tmod y) := by
  refine combineWith_contains sound made left right (fun logical => by cases logical)
    (if_neg nonzero) fun made => ?_
  refine withPoint_contains sound made right fun d _ value made => ?_
  split at made
  · cases made
  · obtain ⟨proved, provedIs, made⟩ := Option.bind_eq_some_iff.mp made
    cases proved with
    | true =>
      have positive := sound.canProveGreaterEqual d 0 y provedIs value
      exact belowDivisor_contains made value (Int.tmod_nonneg y nonneg)
        (Int.tmod_lt_of_pos x (by omega))
    | false => exact withinDivisor_contains made value (abs_tmod_lt x nonzero)

theorem sameQuotient_contains (sound : q.Sound interp env)
    (made : sameQuotient q a d = some (some set)) (left : a.Contains interp env x)
    (value : d.eval interp env = some y) (positive : 0 < y) :
    set.Contains interp env (x.fmod y) := by
  obtain ⟨qmax, qmaxMade, made⟩ := Option.bind_eq_some_iff.mp made
  obtain ⟨qmin, qminMade, made⟩ := Option.bind_eq_some_iff.mp made
  rcases left.upperBound_cases with ⟨missing, -⟩ | ⟨hi, n, hasUpper, maxIs, hiValue, le⟩
  · rw [missing] at qmaxMade
    cases qmaxMade
    cases made
  rcases left.lowerBound_cases with ⟨missing, -⟩ | ⟨lo, m, hasLower, minIs, loValue, ge⟩
  · rw [missing] at qminMade
    cases qminMade
    cases qmax with
    | negInf | posInf | expr e => cases made
  rw [hasUpper] at qmaxMade
  rw [hasLower] at qminMade
  obtain ⟨upper, upperMade, rfl⟩ := Option.map_eq_some_iff.mp qmaxMade
  obtain ⟨lower, lowerMade, rfl⟩ := Option.map_eq_some_iff.mp qminMade
  have admits (z : Int) : BinOp.floorDiv.Admits z y := fun logical => by cases logical
  have upperValue := makeBinary_sound upperMade hiValue value (admits n) (if_neg positive.ne')
  have lowerValue := makeBinary_sound lowerMade loValue value (admits m) (if_neg positive.ne')
  obtain ⟨equal, equalMade, made⟩ := Option.bind_eq_some_iff.mp made
  obtain ⟨proved, provedIs, made⟩ := Option.bind_eq_some_iff.mp made
  cases proved with
  | false => cases made
  | true =>
    have same := sound.canProve equal _ provedIs (makeBinary_sound equalMade upperValue lowerValue
      (fun logical => by cases logical) rfl)
    rw [ne_eq, truth_eq_zero, not_not] at same
    have quotient : x.fdiv y = m.fdiv y :=
      le_antisymm ((Lib.fdiv_le_fdiv positive le).trans_eq same) (Lib.fdiv_le_fdiv positive ge)
    have residue : x.fmod y = x - y * m.fdiv y := by rw [Int.fmod_def, quotient]
    rw [maxIs, minIs] at made
    obtain ⟨tmax, tmaxMade, made⟩ := Option.bind_eq_some_iff.mp made
    obtain ⟨tmin, tminMade, made⟩ := Option.bind_eq_some_iff.mp made
    cases made
    obtain ⟨multiple, multipleMade, tmaxMade⟩ := Option.bind_eq_some_iff.mp tmaxMade
    obtain ⟨multiple', multipleMade', tminMade⟩ := Option.bind_eq_some_iff.mp tminMade
    obtain ⟨upperBound, upperBoundMade, rfl⟩ := Option.map_eq_some_iff.mp tmaxMade
    obtain ⟨lowerBound, lowerBoundMade, rfl⟩ := Option.map_eq_some_iff.mp tminMade
    rw [multipleMade, Option.some.injEq] at multipleMade'
    subst multipleMade'
    have multipleValue := makeBinary_sound multipleMade value lowerValue
      (fun logical => by cases logical) rfl
    exact ⟨⟨_, sub_sound lowerBoundMade loValue multipleValue, by omega⟩,
      _, sub_sound upperBoundMade hiValue multipleValue, by omega⟩

theorem combineFloorMod_contains (sound : q.Sound interp env)
    (made : combineFloorMod q a b = some set) (left : a.Contains interp env x)
    (right : b.Contains interp env y) (nonzero : y ≠ 0) :
    set.Contains interp env (x.fmod y) := by
  refine combineWith_contains sound made left right (fun logical => by cases logical)
    (if_neg nonzero) fun made => ?_
  refine withPoint_contains sound made right fun d _ value made => ?_
  split at made
  · cases made
  · obtain ⟨proved, provedIs, made⟩ := Option.bind_eq_some_iff.mp made
    cases proved with
    | false => exact withinDivisor_contains made value (abs_fmod_lt x nonzero)
    | true =>
      have nonneg := sound.canProveGreaterEqual d 0 y provedIs value
      have positive : 0 < y := by omega
      have below (made : belowDivisor d = some set) : set.Contains interp env (x.fmod y) :=
        belowDivisor_contains made value (Int.fmod_nonneg_of_pos x positive)
          (Int.fmod_lt_of_pos x positive)
      simp only [if_true] at made
      split at made
      · obtain ⟨residues, residuesIs, made⟩ := Option.bind_eq_some_iff.mp made
        cases residues with
        | none => exact below made
        | some found =>
          cases made
          exact sameQuotient_contains sound residuesIs left value positive
      · exact below made

theorem combineLogical_contains (sound : q.Sound interp env) {op : BinOp}
    (logical : op.resultSort = .bool) (made : combineLogical q op a b = some set)
    (left : a.Contains interp env x) (right : b.Contains interp env y) (admits : op.Admits x y)
    (evaluates : op.eval x y = some v) : set.Contains interp env v := by
  obtain ⟨points, pointsIs, made⟩ := Option.bind_eq_some_iff.mp made
  cases points with
  | true =>
    obtain ⟨⟨d, leftIs, leftValue⟩, e, rightIs, rightValue⟩ :=
      bothPoints_sound sound pointsIs left right
    exact combinePoints_contains made leftIs rightIs leftValue rightValue admits evaluates
  | false =>
    cases made
    rcases BinOp.eval_truth logical evaluates with rfl | rfl
    · exact ⟨⟨0, rfl, le_refl 0⟩, 1, rfl, zero_le_one⟩
    · exact ⟨⟨0, rfl, zero_le_one⟩, 1, rfl, le_refl 1⟩

theorem eval_nonzero {op : BinOp} (divides : op ∈ [BinOp.div, .mod, .floorDiv, .floorMod])
    (evaluates : op.eval x y = some v) : y ≠ 0 := by
  simp only [List.mem_cons, List.not_mem_nil, or_false] at divides
  rcases divides with rfl | rfl | rfl | rfl
  all_goals
    rintro rfl
    cases evaluates

theorem combine_contains (sound : q.Sound interp env) {op : BinOp}
    (made : combine q op a b = some set) (left : a.Contains interp env x)
    (right : b.Contains interp env y) (admits : op.Admits x y)
    (dividend : op = .mod → 0 ≤ x) (evaluates : op.eval x y = some v) :
    set.Contains interp env v := by
  cases op with
  | add =>
    cases evaluates
    exact combineAdd_contains sound made left right
  | sub =>
    cases evaluates
    exact combineSub_contains sound made left right
  | mul =>
    cases evaluates
    exact combineMul_contains sound made left right
  | div =>
    have nonzero := eval_nonzero (by decide) evaluates
    rw [(scalesAt_div nonzero).eval, Option.some.injEq] at evaluates
    subst evaluates
    have quotient := combineQuotient_contains sound (scalesAt_div nonzero)
      (fun one => by rw [one, Int.tdiv_one]) made left right
    exact quotient
  | mod =>
    have nonzero := eval_nonzero (by decide) evaluates
    rw [BinOp.eval, if_neg nonzero, Option.some.injEq] at evaluates
    subst evaluates
    exact combineMod_contains sound made left right nonzero (dividend rfl)
  | floorDiv =>
    have nonzero := eval_nonzero (by decide) evaluates
    rw [(scalesAt_floorDiv nonzero).eval, Option.some.injEq] at evaluates
    subst evaluates
    have quotient := combineQuotient_contains sound (scalesAt_floorDiv nonzero)
      (fun one => by rw [one, Int.fdiv_one]) made left right
    exact quotient
  | floorMod =>
    have nonzero := eval_nonzero (by decide) evaluates
    rw [BinOp.eval, if_neg nonzero, Option.some.injEq] at evaluates
    subst evaluates
    exact combineFloorMod_contains sound made left right nonzero
  | min =>
    cases evaluates
    exact combineMin_contains sound made left right
  | max =>
    cases evaluates
    exact combineMax_contains sound made left right
  | shiftLeft | shiftRight | bitwiseAnd =>
    cases made
    exact IntervalSet.everything_contains
  | eq | ne | lt | le | gt | ge | and | or =>
    exact combineLogical_contains sound rfl made left right admits evaluates

end Scale

end Tvm.Arith
