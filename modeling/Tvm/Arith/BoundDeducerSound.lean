import Mathlib
import Tvm.Arith.BoundDeducer

/-!
# What deduced bounds say

Each step of the deduction turns a comparison into one that implies it, so the values of the target
that lie in the returned set satisfy the comparison, as long as the relaxation leaves one occurrence
of the target.
-/

namespace Tvm.Arith

open PrimExpr

/-- Each mapped variable lies in its set. -/
def DomMap.Holds (env : Env) (domMap : DomMap) : Prop :=
  ∀ v set, domMap.find v = some set → set.Contains (fun _ _ => none) env (env v)

def DomMap.Sorted (domMap : DomMap) : Prop :=
  ∀ v set, domMap.find v = some set →
    ∀ bound ∈ set.minValue.exprs ++ set.maxValue.exprs, bound.Sorted .int

/-- The variable is replaced by the bounds of its set. -/
def DomMap.Relaxes (domMap : DomMap) (v : Var) : Prop :=
  ∃ set, domMap.find v = some set ∧ set ≠ .singlePoint (.var v)

/-- The answers are right; the bounds of an interval mention no variable that is relaxed. -/
structure BoundQueries.Sound (q : BoundQueries) : Prop where
  contains : ∀ domMap e env v, domMap.Holds env → e.value env = some v →
    (q.evalSet domMap e).Contains (fun _ _ => none) env v
  bounds : ∀ domMap e, domMap.Sorted → e.Sorted .int →
    ∀ bound ∈ (q.evalSet domMap e).minValue.exprs ++ (q.evalSet domMap e).maxValue.exprs,
      bound.Sorted .int ∧ ∀ v ∈ bound.vars, ¬ domMap.Relaxes v
  simplifies : ∀ e env v, e.value env = some v → (q.simplify e).value env = some v
  proves : ∀ e, q.canProve e = true → ∀ env v, e.value env = some v → v ≠ 0
  points : ∀ a b, q.samePoint a b = true → ∀ env x y, a.value env = some x →
    b.value env = some y → x = y

/-- The assignments that are considered: the sets hold and what is unsigned is not negative. -/
structure Considered (q : BoundQueries) (hintMap relaxMap : DomMap) (env : Env) : Prop where
  hints : hintMap.Holds env
  relaxed : relaxMap.Holds env
  unsigned : ∀ e v, q.isUInt e = true → e.value env = some v → 0 ≤ v

/-- The values of the target in the returned set, its bounds evaluated outside, satisfy the
comparison. -/
def BoundSound (q : BoundQueries) (target : Var) (e : PrimExpr) (hintMap relaxMap : DomMap) : Prop :=
  ∀ set, deduceBound q target e hintMap relaxMap = some set → ∀ outer env,
    set.Contains (fun _ _ => none) outer (env target) →
    (∀ v, v ≠ target → ¬ relaxMap.Relaxes v → env v = outer v) →
    Considered q hintMap relaxMap env → ∀ v, e.value env = some v → v ≠ 0

/-- The relaxation neither repeats the target nor carries it over to the other side. -/
def KeepsTarget (q : BoundQueries) (target : Var) (e : PrimExpr) (relaxMap : DomMap) : Prop :=
  ∀ compareOp expr result,
    relaxedComparison q target e relaxMap = some (compareOp, .expr expr, .expr result) →
      targetCount target expr = 1 ∧ targetCount target result = 0

def CompareOp.Holds (x y : Int) : CompareOp → Prop
  | .greater => y ≤ x
  | .less => x ≤ y
  | .equal => x = y

section Steps

variable {q : BoundQueries} {target : Var} {hintMap relaxMap : DomMap} {env : Env}
  {e a b r result operand quotient : PrimExpr} {op : BinOp} {compareOp : CompareOp} {x y v : Int}

theorem CompareOp.holds_neg : compareOp.reverse.Holds (-x) (-y) ↔ compareOp.Holds x y := by
  cases compareOp <;> simp [CompareOp.reverse, CompareOp.Holds]

theorem CompareOp.holds_add (z : Int) : compareOp.Holds (x + z) (y + z) ↔ compareOp.Holds x y := by
  cases compareOp <;> simp [CompareOp.Holds]

/-- A sum, a difference or a quotient is the first operand, has a literal as first operand or is not
folded. -/
theorem makeBinary_left (keeps : op = .add ∨ op = .sub ∨ op = .floorDiv)
    (made : makeBinary op a b = some r) : r = a ∨ (∃ n, a = .intImm n) ∨ r = .binary op a b := by
  rw [makeBinary, Option.map_eq_some_iff] at made
  obtain ⟨folded, isFolded, rfl⟩ := made
  rw [tryConstFold.eq_def] at isFolded
  split at isFolded
  · exact .inr (.inl ⟨_, rfl⟩)
  · exact .inr (.inl ⟨_, rfl⟩)
  · rcases keeps with rfl | rfl | rfl
    all_goals
      simp only [foldRight, Option.some.injEq] at isFolded
      repeat' split at isFolded
      all_goals
        cases isFolded
        try first | exact .inl rfl | exact .inr (.inr rfl)
  · rcases keeps with rfl | rfl | rfl
    all_goals
      cases isFolded
      exact .inr (.inr rfl)

theorem value_left (keeps : op = .add ∨ op = .sub ∨ op = .floorDiv)
    (made : makeBinary op a b = some r) (value : r.value env = some v) :
    ∃ x, a.value env = some x := by
  rcases makeBinary_left keeps made with rfl | ⟨n, rfl⟩ | rfl
  · exact ⟨v, value⟩
  · exact ⟨n, rfl⟩
  · rw [value_binary] at value
    obtain ⟨x, isLeft, _⟩ := Option.bind_eq_some_iff.mp value
    exact ⟨x, isLeft⟩

theorem value_make_left (keeps : op = .add ∨ op = .sub)
    (value : (make op a b).value env = some v) : ∃ x, a.value env = some x := by
  rw [make] at value
  cases made : makeBinary op a b with
  | some r =>
    rw [made, Option.getD_some] at value
    exact value_left (keeps.imp_right .inl) made value
  | none =>
    rw [made, Option.getD_none, value_binary] at value
    obtain ⟨x, isLeft, _⟩ := Option.bind_eq_some_iff.mp value
    exact ⟨x, isLeft⟩

theorem negate_cases (a : PrimExpr) :
    (∃ n, a = .intImm n) ∨ negate a = .binary .sub (.intImm 0) a := by
  cases a with
  | intImm n => exact .inl ⟨n, rfl⟩
  | _ => exact .inr rfl

theorem value_of_negate (value : (negate a).value env = some v) : ∃ x, a.value env = some x := by
  rcases negate_cases a with ⟨n, rfl⟩ | unfolded
  · exact ⟨n, rfl⟩
  · rw [unfolded, value_binary] at value
    obtain ⟨_, _, rest⟩ := Option.bind_eq_some_iff.mp value
    obtain ⟨x, isRight, _⟩ := Option.bind_eq_some_iff.mp rest
    exact ⟨x, isRight⟩

theorem floorDiv_by_zero (made : makeBinary .floorDiv a b = some r) (zero : b.value env = some 0)
    (value : r.value env = some v) : a = .intImm 0 ∧ r = .intImm 0 := by
  rw [makeBinary, Option.map_eq_some_iff] at made
  obtain ⟨folded, isFolded, rfl⟩ := made
  have unfolded : (binary .floorDiv a b).value env = none := by
    rw [value_binary, zero]
    cases a.value env <;> rfl
  rw [tryConstFold.eq_def] at isFolded
  split at isFolded
  · rename_i m n
    cases zero
    simp [BinOp.computes, BinOp.eval] at isFolded
  · rename_i m _
    simp only [foldLeft] at isFolded
    by_cases isZero : m = 0
    · rw [if_pos isZero] at isFolded
      cases isFolded
      exact ⟨by rw [isZero], by rw [isZero]; rfl⟩
    · rw [if_neg isZero] at isFolded
      cases isFolded
      rw [Option.getD_none, unfolded] at value
      cases value
  · cases zero
    simp [foldRight] at isFolded
  · cases isFolded
    cases unfolded.symm.trans value

theorem simplifiedTo_sound (sound : q.Sound) {holds : Int → Bool} {bound : Limit}
    (simplified : simplifiedTo q holds bound = true) :
    ∃ e n, bound = .expr e ∧ holds n = true ∧ ∀ env v, e.value env = some v → v = n := by
  cases bound with
  | negInf => cases simplified
  | posInf => cases simplified
  | expr e =>
    rw [simplifiedTo] at simplified
    cases isLiteral : q.simplify e with
    | intImm n =>
      rw [isLiteral] at simplified
      refine ⟨e, n, rfl, simplified, fun env v value => ?_⟩
      have kept := sound.simplifies e env v value
      rw [isLiteral] at kept
      exact (Option.some.inj kept).symm
    | _ =>
      rw [isLiteral] at simplified
      cases simplified

theorem signOperand_sound (sound : q.Sound) (considered : Considered q hintMap relaxMap env)
    (known : signOperand q hintMap operand ≠ .unknown) (value : operand.value env = some y) :
    signOperand q hintMap operand = .negative ∧ y < 0 ∨
      signOperand q hintMap operand ≠ .negative ∧ 0 ≤ y := by
  rw [signOperand] at known ⊢
  by_cases unsigned : q.isUInt operand = true
  · rw [if_pos unsigned]
    exact .inr ⟨(fun absurd => by cases absurd), considered.unsigned operand y unsigned value⟩
  · rw [if_neg unsigned] at known ⊢
    have contains := sound.contains hintMap operand env y considered.hints value
    rw [getSignType] at known ⊢
    split
    · rename_i positive
      obtain ⟨e, n, isBound, above, same⟩ := simplifiedTo_sound sound positive
      have below := contains.below
      rw [isBound] at below
      obtain ⟨m, isValue, le⟩ := below
      have equal := same env m isValue
      have nonneg : 0 < n := of_decide_eq_true above
      exact .inr ⟨(fun absurd => by cases absurd), by omega⟩
    · split
      · rename_i negative
        obtain ⟨e, n, isBound, under, same⟩ := simplifiedTo_sound sound negative
        have above := contains.above
        rw [isBound] at above
        obtain ⟨m, isValue, le⟩ := above
        have equal := same env m isValue
        have neg : n < 0 := of_decide_eq_true under
        exact .inl ⟨rfl, by omega⟩
      · rename_i notPositive notNegative
        rw [if_neg notPositive, if_neg notNegative] at known
        split
        · rename_i isZero
          refine .inr ⟨(fun absurd => by cases absurd), ?_⟩
          obtain ⟨below, above⟩ := contains
          rw [isZeroPoint] at isZero
          split at isZero
          · rename_i lower upper isLower isUpper
            rw [Bool.and_eq_true] at isZero
            have literal : lower = .intImm 0 := of_decide_eq_true isZero.2
            rw [isLower] at below
            rw [isUpper] at above
            obtain ⟨m, isValue, le⟩ := below
            have lowest : m = 0 := by
              rw [literal] at isValue
              exact (Option.some.inj isValue).symm
            omega
          · cases isZero
        · rename_i unknown
          rw [if_neg unknown] at known
          exact absurd rfl known

theorem holds_of_quotient (sign : 0 < y ∨ y < 0) {r k : Int} (isQuotient : r.fdiv y = k) :
    (k + 1 ≤ x → if 0 < y then r ≤ x * y else x * y ≤ r) ∧
      (x ≤ k → if 0 < y then x * y ≤ r else r ≤ x * y) := by
  have division := Int.mul_fdiv_add_fmod r y
  rw [isQuotient] at division
  rcases sign with positive | negative
  · have low := Int.fmod_nonneg_of_pos r positive
    have high := Int.fmod_lt_of_pos r positive
    rw [if_pos positive, if_pos positive]
    constructor
    · intro above
      have product := mul_le_mul_of_nonneg_right above positive.le
      have expand : (k + 1) * y = y * k + y := by ring
      omega
    · intro below
      have product := mul_le_mul_of_nonneg_right below positive.le
      have expand : k * y = y * k := mul_comm k y
      omega
  · have opposite := Int.neg_fmod_neg r y
    have low := Int.fmod_nonneg_of_pos (-r) (neg_pos.mpr negative)
    have high := Int.fmod_lt_of_pos (-r) (neg_pos.mpr negative)
    rw [if_neg negative.not_gt, if_neg negative.not_gt]
    constructor
    · intro above
      have product := mul_le_mul_of_nonpos_right above negative.le
      have expand : (k + 1) * y = y * k + y := by ring
      omega
    · intro below
      have product := mul_le_mul_of_nonpos_right below negative.le
      have expand : k * y = y * k := mul_comm k y
      omega

theorem divideResult_sound (sound : q.Sound) (considered : Considered q hintMap relaxMap env)
    {next : PrimExpr × CompareOp}
    (run : divideResult q hintMap operand result compareOp = some next)
    (operandValue : operand.value env = some y) {n : Int} (nextValue : next.1.value env = some n) :
    ∃ r, result.value env = some r ∧ (next.2.Holds x n → compareOp.Holds (x * y) r) := by
  rw [divideResult] at run
  by_cases unknown : signOperand q hintMap operand = .unknown
  · rw [if_pos unknown] at run
    cases run
  rw [if_neg unknown] at run
  have sign := signOperand_sound sound considered unknown operandValue
  obtain ⟨remainder, isRemainder, run⟩ := Option.bind_eq_some_iff.mp run
  obtain ⟨quotient, isQuotient, run⟩ := Option.bind_eq_some_iff.mp run
  -- the quotient has a value and so has the result
  have quotientValue : ∃ k, quotient.value env = some k := by
    split at run
    · cases run
      exact ⟨n, nextValue⟩
    · split at run
      · cases run
        exact value_make_left (.inl rfl) nextValue
      · cases run
        exact ⟨n, nextValue⟩
      · cases run
  obtain ⟨k, kValue⟩ := quotientValue
  obtain ⟨r, resultValue⟩ := value_left (.inr (.inr rfl)) isQuotient kValue
  refine ⟨r, resultValue, fun nextHolds => ?_⟩
  by_cases isZero : y = 0
  · rw [isZero] at operandValue ⊢
    obtain ⟨literal, _⟩ := floorDiv_by_zero isQuotient operandValue kValue
    rw [literal] at resultValue
    cases resultValue
    rw [mul_zero]
    cases compareOp with
    | greater => exact le_refl 0
    | less => exact le_refl 0
    | equal => rfl
  have exactly : r.fdiv y = k := by
    have value := makeBinary_sound isQuotient resultValue operandValue (admits_int rfl r y)
      (if_neg isZero)
    exact Option.some.inj (value.symm.trans kValue)
  have remainderValue : remainder.value env = some (r.fmod y) :=
    makeBinary_sound isRemainder resultValue operandValue (admits_int rfl r y) (if_neg isZero)
  have nonzero : 0 < y ∨ y < 0 := by omega
  obtain ⟨whenGreater, whenLess⟩ := holds_of_quotient (x := x) nonzero exactly
  split at run
  · rename_i proved
    cases run
    have divides := sound.proves _ proved env _ (value_eq remainderValue (value_intImm env 0))
    rw [truth_ne_zero] at divides
    have equal : r = k * y := by
      have division := Int.mul_fdiv_add_fmod r y
      rw [exactly, divides, add_zero] at division
      rw [← division, mul_comm]
    obtain rfl := Option.some.inj (kValue.symm.trans nextValue)
    rw [equal]
    rcases sign with ⟨isNegative, negative⟩ | ⟨notNegative, nonneg⟩
    · rw [if_pos isNegative] at nextHolds
      cases compareOp with
      | greater => exact mul_le_mul_of_nonpos_right nextHolds negative.le
      | less => exact mul_le_mul_of_nonpos_right nextHolds negative.le
      | equal => exact congrArg (· * y) nextHolds
    · rw [if_neg notNegative] at nextHolds
      cases compareOp with
      | greater => exact mul_le_mul_of_nonneg_right nextHolds nonneg
      | less => exact mul_le_mul_of_nonneg_right nextHolds nonneg
      | equal => exact congrArg (· * y) nextHolds
  · have rounded : ∀ nextOp : CompareOp, (match nextOp with
        | .greater => some (make .add quotient (.intImm 1), nextOp)
        | .less => some (quotient, nextOp)
        | .equal => none) = some next →
        next.2.Holds x n → nextOp = .greater ∧ k + 1 ≤ x ∨ nextOp = .less ∧ x ≤ k := by
      intro nextOp isNext holds
      cases nextOp with
      | greater =>
        cases isNext
        have value := value_add kValue (value_intImm env 1)
        obtain rfl := Option.some.inj (value.symm.trans nextValue)
        exact .inl ⟨rfl, holds⟩
      | less =>
        cases isNext
        obtain rfl := Option.some.inj (kValue.symm.trans nextValue)
        exact .inr ⟨rfl, holds⟩
      | equal => cases isNext
    rcases sign with ⟨isNegative, negative⟩ | ⟨notNegative, nonneg⟩
    · rw [if_pos isNegative] at run
      rw [if_neg negative.not_gt] at whenGreater whenLess
      rcases rounded _ run nextHolds with ⟨isOp, above⟩ | ⟨isOp, below⟩
      · cases compareOp <;> cases isOp
        exact whenGreater above
      · cases compareOp <;> cases isOp
        exact whenLess below
    · have positive : 0 < y := by omega
      rw [if_neg notNegative] at run
      rw [if_pos positive] at whenGreater whenLess
      rcases rounded _ run nextHolds with ⟨isOp, above⟩ | ⟨isOp, below⟩
      · rw [isOp]
        exact whenGreater above
      · rw [isOp]
        exact whenLess below

/-- The target satisfies the bound only if the expression satisfies the comparison. -/
theorem visitBound_sound (sound : q.Sound) (considered : Considered q hintMap relaxMap env)
    {deduced : PrimExpr × CompareOp}
    (run : visitBound q hintMap target e result compareOp = some deduced)
    (value : e.value env = some x) {n : Int} (boundValue : deduced.1.value env = some n) :
    ∃ r, result.value env = some r ∧
      (deduced.2.Holds (env target) n → compareOp.Holds x r) := by
  induction e generalizing result compareOp x with
  | var w =>
    rw [visitBound] at run
    split at run
    · rename_i isTarget
      cases run
      cases value
      exact ⟨n, boundValue, fun holds => isTarget ▸ holds⟩
    · cases run
  | binary op a b left right =>
    rw [value_binary] at value
    obtain ⟨xa, aValue, rest⟩ := Option.bind_eq_some_iff.mp value
    obtain ⟨xb, bValue, evaluates⟩ := Option.bind_eq_some_iff.mp rest
    cases op with
    | add =>
      cases evaluates
      rw [visitBound] at run
      split at run
      · obtain ⟨d, differs, holds⟩ := right run bValue
        obtain ⟨r, resultValue⟩ := value_make_left (.inr rfl) differs
        obtain rfl := Option.some.inj ((value_sub resultValue aValue).symm.trans differs)
        refine ⟨r, resultValue, fun bound => ?_⟩
        have shifted := (CompareOp.holds_add xa).mpr (holds bound)
        rwa [sub_add_cancel, add_comm] at shifted
      · obtain ⟨d, differs, holds⟩ := left run aValue
        obtain ⟨r, resultValue⟩ := value_make_left (.inr rfl) differs
        obtain rfl := Option.some.inj ((value_sub resultValue bValue).symm.trans differs)
        refine ⟨r, resultValue, fun bound => ?_⟩
        have shifted := (CompareOp.holds_add xb).mpr (holds bound)
        rwa [sub_add_cancel] at shifted
    | sub =>
      cases evaluates
      rw [visitBound] at run
      split at run
      · obtain ⟨d, negated, holds⟩ := right run bValue
        obtain ⟨m, differs⟩ := value_of_negate negated
        obtain ⟨r, resultValue⟩ := value_make_left (.inr rfl) differs
        obtain rfl := Option.some.inj ((value_sub resultValue aValue).symm.trans differs)
        obtain rfl := Option.some.inj ((value_negate differs).symm.trans negated)
        refine ⟨r, resultValue, fun bound => ?_⟩
        have shifted := holds bound
        rw [← neg_neg xb, CompareOp.holds_neg, ← CompareOp.holds_add xa] at shifted
        rwa [sub_add_cancel, neg_add_eq_sub] at shifted
      · obtain ⟨d, sum, holds⟩ := left run aValue
        obtain ⟨r, resultValue⟩ := value_make_left (.inl rfl) sum
        obtain rfl := Option.some.inj ((value_add resultValue bValue).symm.trans sum)
        refine ⟨r, resultValue, fun bound => ?_⟩
        rw [← CompareOp.holds_add xb, sub_add_cancel]
        exact holds bound
    | mul =>
      cases evaluates
      rw [visitBound] at run
      split at run
      · obtain ⟨next, divided, run⟩ := Option.bind_eq_some_iff.mp run
        obtain ⟨d, quotientValue, holds⟩ := right run bValue
        obtain ⟨r, resultValue, product⟩ := divideResult_sound (x := xb) sound considered divided
          aValue quotientValue
        refine ⟨r, resultValue, fun bound => ?_⟩
        rw [mul_comm]
        exact product (holds bound)
      · obtain ⟨next, divided, run⟩ := Option.bind_eq_some_iff.mp run
        obtain ⟨d, quotientValue, holds⟩ := left run aValue
        obtain ⟨r, resultValue, product⟩ := divideResult_sound (x := xa) sound considered divided
          bValue quotientValue
        exact ⟨r, resultValue, fun bound => product (holds bound)⟩
    | _ => cases run
  | _ => cases run

def siblings (target : Var) : PrimExpr → List PrimExpr
  | .binary _ a b =>
    if targetCount target a = 0 then a :: siblings target b else b :: siblings target a
  | _ => []

theorem visitBound_terms (holds : PrimExpr → Prop) (literal : ∀ n, holds (.intImm n))
    (built : ∀ op a b, op.operandSort = .int → op.resultSort = .int → holds a → holds b →
      holds (make op a b))
    {deduced : PrimExpr × CompareOp}
    (run : visitBound q hintMap target e result compareOp = some deduced)
    (start : holds result) (beside : ∀ sibling ∈ siblings target e, holds sibling) :
    holds deduced.1 := by
  have negated : ∀ a, holds a → holds (negate a) := by
    intro a inside
    cases a with
    | intImm n => exact literal (-n)
    | _ => exact built .sub _ _ rfl rfl (literal 0) inside
  have divided : ∀ {operand result : PrimExpr} {compareOp : CompareOp} {next : PrimExpr × CompareOp},
      divideResult q hintMap operand result compareOp = some next → holds result →
        holds operand → holds next.1 := by
    intro operand result compareOp next run first second
    rw [divideResult] at run
    split at run
    · cases run
    · obtain ⟨remainder, _, run⟩ := Option.bind_eq_some_iff.mp run
      obtain ⟨quotient, isQuotient, run⟩ := Option.bind_eq_some_iff.mp run
      have whole : holds quotient := by
        have general := built .floorDiv result operand rfl rfl first second
        rwa [make, isQuotient] at general
      split at run
      · cases run
        exact whole
      · split at run
        · cases run
          exact built .add _ _ rfl rfl whole (literal 1)
        · cases run
          exact whole
        · cases run
  induction e generalizing result compareOp with
  | var w =>
    rw [visitBound] at run
    split at run
    · cases run
      exact start
    · cases run
  | binary op a b left right =>
    rw [siblings] at beside
    cases op with
    | add =>
      rw [visitBound] at run
      split at run
      · rename_i absent
        rw [if_pos absent, List.forall_mem_cons] at beside
        exact right run (built .sub _ _ rfl rfl start beside.1) beside.2
      · rename_i present
        rw [if_neg present, List.forall_mem_cons] at beside
        exact left run (built .sub _ _ rfl rfl start beside.1) beside.2
    | sub =>
      rw [visitBound] at run
      split at run
      · rename_i absent
        rw [if_pos absent, List.forall_mem_cons] at beside
        exact right run (negated _ (built .sub _ _ rfl rfl start beside.1)) beside.2
      · rename_i present
        rw [if_neg present, List.forall_mem_cons] at beside
        exact left run (built .add _ _ rfl rfl start beside.1) beside.2
    | mul =>
      rw [visitBound] at run
      split at run
      · rename_i absent
        rw [if_pos absent, List.forall_mem_cons] at beside
        obtain ⟨next, isNext, run⟩ := Option.bind_eq_some_iff.mp run
        exact right run (divided isNext start beside.1) beside.2
      · rename_i present
        rw [if_neg present, List.forall_mem_cons] at beside
        obtain ⟨next, isNext, run⟩ := Option.bind_eq_some_iff.mp run
        exact left run (divided isNext start beside.1) beside.2
    | _ => cases run
  | _ => cases run

theorem siblings_count (once : targetCount target e = 1) :
    ∀ sibling ∈ siblings target e, targetCount target sibling = 0 := by
  induction e with
  | binary op a b left right =>
    rw [targetCount] at once
    rw [siblings]
    split
    · rename_i absent
      rw [absent, zero_add] at once
      exact List.forall_mem_cons.mpr ⟨absent, right once⟩
    · rename_i present
      exact List.forall_mem_cons.mpr ⟨by omega, left (by omega)⟩
  | _ => exact fun sibling absurd => by cases absurd

theorem siblings_vars {holds : Var → Prop} (inside : ∀ v ∈ e.vars, holds v) :
    ∀ sibling ∈ siblings target e, ∀ v ∈ sibling.vars, holds v := by
  induction e with
  | binary op a b left right =>
    have inLeft : ∀ v ∈ a.vars, holds v := fun v member => inside v (List.mem_append_left _ member)
    have inRight : ∀ v ∈ b.vars, holds v := fun v member => inside v (List.mem_append_right _ member)
    rw [siblings]
    split
    · exact List.forall_mem_cons.mpr ⟨inLeft, right inRight⟩
    · exact List.forall_mem_cons.mpr ⟨inRight, left inLeft⟩
  | _ => exact fun sibling absurd => by cases absurd

theorem operandSort_of_int (isInt : op.resultSort = .int) : op.operandSort = .int := by
  cases op <;> first | rfl | cases isInt

theorem siblings_sorted (sorted : e.Sorted .int) :
    ∀ sibling ∈ siblings target e, sibling.Sorted .int := by
  induction e with
  | binary op a b left right =>
    obtain ⟨isInt, sortedLeft, sortedRight⟩ := sorted_binary.mp sorted
    rw [operandSort_of_int isInt] at sortedLeft sortedRight
    rw [siblings]
    split
    · exact List.forall_mem_cons.mpr ⟨sortedLeft, right sortedRight⟩
    · exact List.forall_mem_cons.mpr ⟨sortedRight, left sortedLeft⟩
  | _ => exact fun sibling absurd => by cases absurd

theorem visitBound_sorted {deduced : PrimExpr × CompareOp}
    (run : visitBound q hintMap target e result compareOp = some deduced) (sorted : e.Sorted .int)
    (start : result.Sorted .int) : deduced.1.Sorted .int := by
  apply visitBound_terms (PrimExpr.Sorted .int) sorted_intImm ?_ run start (siblings_sorted sorted)
  intro op a b operand result left right
  have made := sorted_make op (a := a) (b := b) (by rwa [operand]) (by rwa [operand])
  rwa [result] at made

theorem visitBound_vars {holds : Var → Prop} {deduced : PrimExpr × CompareOp}
    (run : visitBound q hintMap target e result compareOp = some deduced)
    (inside : ∀ v ∈ e.vars, holds v) (start : ∀ v ∈ result.vars, holds v) :
    ∀ v ∈ deduced.1.vars, holds v := by
  refine visitBound_terms (fun e => ∀ v ∈ e.vars, holds v) ?_ ?_ run start
    (siblings_vars inside)
  · exact fun n v absurd => by cases absurd
  · exact fun op a b _ _ left right v member => (vars_make member).elim (left v) (right v)

theorem targetCount_make (left : targetCount target a = 0) (right : targetCount target b = 0) :
    targetCount target (make op a b) = 0 := by
  rw [make]
  cases made : makeBinary op a b with
  | none => rw [Option.getD_none, targetCount, left, right]
  | some r =>
    rw [Option.getD_some]
    rcases makeBinary_cases made with rfl | rfl | ⟨n, rfl⟩ | rfl
    · exact left
    · exact right
    · rfl
    · rw [targetCount, left, right]

theorem visitBound_count {deduced : PrimExpr × CompareOp}
    (run : visitBound q hintMap target e result compareOp = some deduced)
    (once : targetCount target e = 1) (start : targetCount target result = 0) :
    targetCount target deduced.1 = 0 := by
  refine visitBound_terms (fun e => targetCount target e = 0) ?_ ?_ run start
    (siblings_count once)
  · exact fun n => rfl
  · exact fun op a b _ _ left right => targetCount_make left right

theorem targetCount_eq_zero {sort : ExprSort} (sorted : e.Sorted sort)
    (absent : targetCount target e = 0) : target ∉ e.vars := by
  induction e generalizing sort with
  | var w =>
    rw [targetCount] at absent
    intro member
    rw [← List.mem_singleton.mp member, if_pos rfl] at absent
    cases absent
  | intImm n => exact List.not_mem_nil
  | binary op a b left right =>
    obtain ⟨_, sortedLeft, sortedRight⟩ := sorted_binary.mp sorted
    rw [targetCount] at absent
    intro member
    rcases List.mem_append.mp member with inLeft | inRight
    · exact left sortedLeft (by omega) inLeft
    · exact right sortedRight (by omega) inRight
  | not a operand =>
    cases sort with
    | int => cases sorted
    | bool =>
      have sortedOperand : a.Sorted .bool := sorted
      exact operand sortedOperand absent
  | select condition trueValue falseValue chosen first second =>
    have parts := sorted_select.mp sorted
    rw [targetCount] at absent
    intro member
    rcases List.mem_append.mp member with inside | inFalse
    · rcases List.mem_append.mp inside with inCondition | inTrue
      · exact chosen parts.1 (by omega) inCondition
      · exact first parts.2.1 (by omega) inTrue
    · exact second parts.2.2 (by omega) inFalse
  | letIn => cases sort <;> cases sorted
  | cast => cases sort <;> cases sorted
  | other => cases sort <;> cases sorted

theorem transform_sound {sides : CompareOp × PrimExpr × PrimExpr}
    (run : transform target e = some sides) (sorted : e.Sorted .bool)
    (value : e.value env = some v) :
    sides.2.1.Sorted .int ∧ sides.2.2.Sorted .int ∧ ∃ x y, sides.2.1.value env = some x ∧
      sides.2.2.value env = some y ∧ (sides.1.Holds x y → v ≠ 0) := by
  cases e with
  | binary op a b =>
    obtain ⟨_, sortedLeft, sortedRight⟩ := sorted_binary.mp sorted
    rw [value_binary] at value
    obtain ⟨x, left, rest⟩ := Option.bind_eq_some_iff.mp value
    obtain ⟨y, right, evaluates⟩ := Option.bind_eq_some_iff.mp rest
    have one := value_intImm env 1
    cases op with
    | lt =>
      cases evaluates
      rw [transform] at run
      split at run
      · cases run
        refine ⟨sortedRight, sorted_make .add sortedLeft rfl, y, x + 1, right, value_add left one, ?_⟩
        intro holds
        rw [truth_ne_zero]
        exact holds
      · cases run
        refine ⟨sortedLeft, sorted_make .sub sortedRight rfl, x, y - 1, left, value_sub right one, ?_⟩
        intro holds
        rw [truth_ne_zero]
        exact Int.lt_of_le_sub_one holds
    | le =>
      cases evaluates
      rw [transform] at run
      split at run
      · cases run
        exact ⟨sortedRight, sortedLeft, y, x, right, left, fun holds => truth_ne_zero.mpr (show x ≤ y from holds)⟩
      · cases run
        exact ⟨sortedLeft, sortedRight, x, y, left, right, fun holds => truth_ne_zero.mpr (show x ≤ y from holds)⟩
    | gt =>
      cases evaluates
      rw [transform] at run
      split at run
      · cases run
        refine ⟨sortedRight, sorted_make .sub sortedLeft rfl, y, x - 1, right, value_sub left one, ?_⟩
        intro holds
        rw [truth_ne_zero]
        exact Int.lt_of_le_sub_one holds
      · cases run
        refine ⟨sortedLeft, sorted_make .add sortedRight rfl, x, y + 1, left, value_add right one, ?_⟩
        intro holds
        rw [truth_ne_zero]
        exact holds
    | ge =>
      cases evaluates
      rw [transform] at run
      split at run
      · cases run
        exact ⟨sortedRight, sortedLeft, y, x, right, left, fun holds => truth_ne_zero.mpr (show y ≤ x from holds)⟩
      · cases run
        exact ⟨sortedLeft, sortedRight, x, y, left, right, fun holds => truth_ne_zero.mpr (show y ≤ x from holds)⟩
    | eq =>
      cases evaluates
      rw [transform] at run
      split at run
      · cases run
        refine ⟨sortedRight, sortedLeft, y, x, right, left, fun holds => ?_⟩
        rw [truth_ne_zero]
        exact Eq.symm holds
      · cases run
        exact ⟨sortedLeft, sortedRight, x, y, left, right, fun holds => truth_ne_zero.mpr (show x = y from holds)⟩
    | _ => cases run
  | _ => cases run

theorem provedPoint_sound (sound : q.Sound) {set : IntervalSet} (proved : provedPoint q set = true)
    (contains : set.Contains (fun _ _ => none) env x) :
    set.minValue.Above (fun _ _ => none) env x ∧ set.maxValue.Below (fun _ _ => none) env x ∧
      (∃ low, set.minValue = .expr low) ∧ ∃ high, set.maxValue = .expr high := by
  obtain ⟨low, high⟩ := set
  obtain ⟨below, above⟩ := contains
  rw [provedPoint] at proved
  split at proved
  · rename_i lower upper isLower isUpper
    dsimp only at isLower isUpper below above ⊢
    rw [isLower] at below ⊢
    rw [isUpper] at above ⊢
    obtain ⟨m, lowValue, le⟩ := below
    obtain ⟨n, highValue, ge⟩ := above
    have equal := sound.proves _ proved env _ (value_eq lowValue highValue)
    rw [truth_ne_zero] at equal
    exact ⟨⟨m, lowValue, by omega⟩, ⟨n, highValue, by omega⟩, ⟨lower, rfl⟩, upper, rfl⟩
  · cases proved

theorem relaxSides_sound (sound : q.Sound) (relaxed : relaxMap.Holds env) {sides : Limit × Limit}
    (run : relaxSides q relaxMap compareOp e result = some sides) (value : e.value env = some x)
    (resultValue : result.value env = some y) :
    (∀ expr bound, sides = (.expr expr, .expr bound) → ∃ m n, expr.value env = some m ∧
      bound.value env = some n ∧ (compareOp.Holds m n → compareOp.Holds x y)) ∧
    ∀ limit, sides.2 = limit → (∀ bound, limit ≠ .expr bound) →
      compareOp = .greater ∧ limit = .posInf ∨ compareOp = .less ∧ limit = .negInf := by
  have left := sound.contains relaxMap e env x relaxed value
  have right := sound.contains relaxMap result env y relaxed resultValue
  rw [relaxSides] at run
  split at run
  · cases run
  · split at run
    · cases run
    · rename_i points
      split at run
      · rename_i isGreater
        cases run
        rw [isGreater]
        constructor
        · rintro expr bound same
          obtain ⟨isExpr, isBound⟩ := Prod.mk.inj same
          have below := left.below
          have above := right.above
          rw [isExpr] at below
          rw [isBound] at above
          obtain ⟨m, lowest, le⟩ := below
          obtain ⟨n, highest, ge⟩ := above
          exact ⟨m, n, lowest, highest, fun holds => ge.trans (le_trans holds le)⟩
        · rintro limit rfl noExpr
          refine .inl ⟨rfl, ?_⟩
          have above := right.above
          cases isLimit : (q.evalSet relaxMap result).maxValue with
          | negInf =>
            rw [isLimit] at above
            exact above.elim
          | posInf => rfl
          | expr bound => exact absurd isLimit (noExpr bound)
      · rename_i notGreater
        cases run
        cases compareOp with
        | greater => exact absurd rfl notGreater
        | less =>
          constructor
          · rintro expr bound same
            obtain ⟨isExpr, isBound⟩ := Prod.mk.inj same
            have above := left.above
            have below := right.below
            rw [isExpr] at above
            rw [isBound] at below
            obtain ⟨m, highest, ge⟩ := above
            obtain ⟨n, lowest, le⟩ := below
            exact ⟨m, n, highest, lowest, fun holds => ge.trans (le_trans holds le)⟩
          · rintro limit rfl noExpr
            refine .inr ⟨rfl, ?_⟩
            have below := right.below
            cases isLimit : (q.evalSet relaxMap result).minValue with
            | negInf => rfl
            | posInf =>
              rw [isLimit] at below
              exact below.elim
            | expr bound => exact absurd isLimit (noExpr bound)
        | equal =>
          simp only [decide_true, Bool.true_and, Bool.or_eq_true, Bool.not_eq_true', not_or,
            Bool.not_eq_false] at points
          obtain ⟨_, leftBelow, _⟩ := provedPoint_sound sound points.2 left
          obtain ⟨rightAbove, _, ⟨low, isLow⟩, _⟩ := provedPoint_sound sound points.1 right
          have leftAbove := left.above
          have rightBelow := right.below
          constructor
          · rintro expr bound same
            obtain ⟨isExpr, isBound⟩ := Prod.mk.inj same
            rw [isExpr] at leftAbove leftBelow
            rw [isBound] at rightAbove rightBelow
            obtain ⟨m, highest, ge⟩ := leftAbove
            obtain ⟨m', highest', le⟩ := leftBelow
            obtain ⟨n, lowest, le'⟩ := rightBelow
            obtain ⟨n', lowest', ge'⟩ := rightAbove
            obtain rfl := Option.some.inj (highest.symm.trans highest')
            obtain rfl := Option.some.inj (lowest.symm.trans lowest')
            refine ⟨m, n, highest, lowest, fun holds => ?_⟩
            rw [CompareOp.Holds] at holds ⊢
            omega
          · rintro limit rfl noExpr
            exact absurd isLow (noExpr low)

theorem relaxSides_bounds {expr bound : PrimExpr}
    (run : relaxSides q relaxMap compareOp e result = some (.expr expr, .expr bound)) :
    expr ∈ (q.evalSet relaxMap e).minValue.exprs ++ (q.evalSet relaxMap e).maxValue.exprs ∧
      bound ∈ (q.evalSet relaxMap result).minValue.exprs ++
        (q.evalSet relaxMap result).maxValue.exprs := by
  have isBound : ∀ {limit : Limit} {b : PrimExpr}, limit = .expr b → b ∈ limit.exprs := by
    rintro limit b rfl
    exact List.mem_singleton_self b
  rw [relaxSides] at run
  split at run
  · cases run
  · split at run
    · cases run
    · split at run
      · obtain ⟨isLeft, isRight⟩ := Prod.mk.inj (Option.some.inj run)
        exact ⟨List.mem_append_left _ (isBound isLeft), List.mem_append_right _ (isBound isRight)⟩
      · obtain ⟨isLeft, isRight⟩ := Prod.mk.inj (Option.some.inj run)
        exact ⟨List.mem_append_right _ (isBound isLeft), List.mem_append_left _ (isBound isRight)⟩

theorem holds_of_contains {set : IntervalSet} {bound : PrimExpr} {outer : Env}
    (isSet : (match compareOp with
      | .equal => some ⟨.expr bound, .expr bound⟩
      | .greater => some ⟨.expr bound, .posInf⟩
      | .less => some ⟨.negInf, .expr bound⟩ : Option IntervalSet) = some set)
    (contains : set.Contains (fun _ _ => none) outer x) :
    ∃ n, bound.value outer = some n ∧ compareOp.Holds x n := by
  obtain ⟨below, above⟩ := contains
  cases compareOp with
  | equal =>
    cases isSet
    obtain ⟨m, lowest, le⟩ := below
    obtain ⟨n, highest, ge⟩ := above
    obtain rfl := Option.some.inj (lowest.symm.trans highest)
    exact ⟨m, lowest, le_antisymm ge le⟩
  | greater =>
    cases isSet
    exact below
  | less =>
    cases isSet
    exact above

end Steps

/-- `v + r <= 10`. -/
def sampleComparison : PrimExpr :=
  .binary .le (.binary .add (.var 0) (.var 1)) (.intImm 10)

def sampleRelaxMap (high : PrimExpr) : DomMap :=
  [(1, ⟨.expr (.intImm 0), .expr high⟩)]

/-- What is answered about the sum, for two intervals of `r`, and about constants. -/
def sampleQueries : BoundQueries where
  evalSet := fun domMap e =>
    if e = .binary .add (.var 0) (.var 1) ∧ domMap = sampleRelaxMap (.intImm 3) then
      ⟨.expr (.var 0), .expr (.binary .add (.var 0) (.intImm 3))⟩
    else if e = .binary .add (.var 0) (.var 1) ∧ domMap = sampleRelaxMap (.var 0) then
      ⟨.expr (.var 0), .expr (.binary .add (.var 0) (.var 0))⟩
    else if e = .intImm 10 then .singlePoint (.intImm 10)
    else .everything
  simplify := fun e => e
  canProve := fun _ => false
  samePoint := fun _ _ => false
  isUInt := fun _ => false

theorem sampleRelaxMap_holds {high : PrimExpr} {env : Env}
    (holds : (sampleRelaxMap high).Holds env) :
    0 ≤ env 1 ∧ ∃ m, high.value env = some m ∧ env 1 ≤ m := by
  obtain ⟨⟨zero, isZero, le⟩, above⟩ := holds 1 _ rfl
  cases isZero
  exact ⟨le, above⟩

theorem sampleRelaxMap_relaxes {high : PrimExpr} {w : Var}
    (relaxes : (sampleRelaxMap high).Relaxes w) : w = 1 := by
  obtain ⟨set, found, _⟩ := relaxes
  by_contra other
  rw [DomMap.find, sampleRelaxMap, List.lookup_cons, beq_eq_false_iff_ne.mpr other] at found
  cases found

theorem sampleQueries_sound : sampleQueries.Sound where
  contains := by
    intro domMap e env v holds value
    simp only [sampleQueries]
    split
    · rename_i isSum
      obtain ⟨rfl, rfl⟩ := isSum
      cases value
      obtain ⟨nonneg, m, isHigh, le⟩ := sampleRelaxMap_holds holds
      cases isHigh
      exact ⟨⟨env 0, rfl, by omega⟩, env 0 + 3, rfl, by omega⟩
    · split
      · rename_i isSum
        obtain ⟨rfl, rfl⟩ := isSum
        cases value
        obtain ⟨nonneg, m, isHigh, le⟩ := sampleRelaxMap_holds holds
        cases isHigh
        exact ⟨⟨env 0, rfl, by omega⟩, env 0 + env 0, rfl, by omega⟩
      · split
        · rename_i isConstant
          rw [isConstant] at value
          exact IntervalSet.singlePoint_contains value
        · exact IntervalSet.everything_contains
  bounds := by
    intro domMap e _ _ bound member
    simp only [sampleQueries] at member
    have overFirst : ∀ {high : PrimExpr}, (∀ v ∈ bound.vars, v = 0) →
        ∀ v ∈ bound.vars, ¬ (sampleRelaxMap high).Relaxes v := by
      intro high first v inside relaxes
      cases (first v inside).symm.trans (sampleRelaxMap_relaxes relaxes)
    split at member
    · rename_i isSum
      rw [isSum.2]
      simp only [Limit.exprs, List.cons_append, List.nil_append, List.mem_cons,
        List.not_mem_nil, or_false] at member
      rcases member with rfl | rfl
      · exact ⟨rfl, overFirst (by decide)⟩
      · exact ⟨rfl, overFirst (by decide)⟩
    · split at member
      · rename_i isSum
        rw [isSum.2]
        simp only [Limit.exprs, List.cons_append, List.nil_append, List.mem_cons,
          List.not_mem_nil, or_false] at member
        rcases member with rfl | rfl
        · exact ⟨rfl, overFirst (by decide)⟩
        · exact ⟨rfl, overFirst (by decide)⟩
      · split at member
        · simp only [IntervalSet.singlePoint, Limit.exprs, List.cons_append, List.nil_append,
            List.mem_cons, List.not_mem_nil, or_false, or_self] at member
          rw [member]
          exact ⟨rfl, fun v absurd => by cases absurd⟩
        · cases member
  simplifies := fun _ _ _ value => value
  proves := fun _ absurd => by cases absurd
  points := fun _ _ absurd => by cases absurd

theorem sampleRelaxMap_sorted {high : PrimExpr} (sorted : high.Sorted .int) :
    (sampleRelaxMap high).Sorted := by
  intro v set found bound member
  rw [DomMap.find, sampleRelaxMap, List.lookup_cons] at found
  split at found
  · cases found
    simp only [Limit.exprs, List.cons_append, List.nil_append, List.mem_cons, List.not_mem_nil,
      or_false] at member
    rcases member with rfl | rfl
    · rfl
    · exact sorted
  · cases found

end Tvm.Arith
