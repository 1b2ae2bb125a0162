import Tvm.Arith.Terms

/-!
# Linear equations in terms

`DetectLinearEquation` of `detect_linear_equation.cc`.  A part that is not defined is zero.
-/

namespace Tvm.Arith

open PrimExpr

/-- The variables that are visited; `nodeVars` has those of the nodes that are not looked into. -/
def PrimExpr.touched (nodeVars : Nat → List Var) : PrimExpr → List Var
  | .var v => [v]
  | .intImm _ => []
  | .binary _ a b => a.touched nodeVars ++ b.touched nodeVars
  | .not a | .cast a => a.touched nodeVars
  | .select condition trueValue falseValue =>
    condition.touched nodeVars ++ trueValue.touched nodeVars ++ falseValue.touched nodeVars
  | .letIn _ value body => value.touched nodeVars ++ body.touched nodeVars
  | .other node => nodeVars node

def PrimExpr.usesVar (nodeVars : Nat → List Var) (e : PrimExpr) (varSet : Var → Bool) : Bool :=
  (e.touched nodeVars).any varSet

structure LinearEqEntry where
  base : Option PrimExpr
  coeff : Option PrimExpr

def addCombine : Option PrimExpr → Option PrimExpr → Option PrimExpr
  | none, b => b
  | some a, none => some a
  | some a, some b => some (make .add a b)

def subCombine : Option PrimExpr → Option PrimExpr → Option PrimExpr
  | a, none => a
  | none, some b => some (negate b)
  | some a, some b => some (make .sub a b)

def mulCombine : Option PrimExpr → Option PrimExpr → Option PrimExpr
  | some a, some b => some (make .mul a b)
  | _, _ => none

/-- `VisitExpr_(const MulNode*)` after the operands. -/
def mulEntries (a b : LinearEqEntry) : Option LinearEqEntry :=
  let constant := if a.coeff.isSome then b else a
  let other := if a.coeff.isSome then a else b
  if constant.coeff.isSome then none
  else some ⟨mulCombine constant.base other.base, mulCombine constant.base other.coeff⟩

/-- `LinearEqDetector`; `none` is `fail_`. -/
def linearEqDetector (nodeVars : Nat → List Var) (v : Var) : PrimExpr → Option LinearEqEntry
  | .binary .add x y => do
      let a ← linearEqDetector nodeVars v x
      let b ← linearEqDetector nodeVars v y
      some ⟨addCombine a.base b.base, addCombine a.coeff b.coeff⟩
  | .binary .sub x y => do
      let a ← linearEqDetector nodeVars v x
      let b ← linearEqDetector nodeVars v y
      some ⟨subCombine a.base b.base, subCombine a.coeff b.coeff⟩
  | .binary .mul x y => do
      let a ← linearEqDetector nodeVars v x
      let b ← linearEqDetector nodeVars v y
      mulEntries a b
  | .var w => some (if w = v then ⟨none, some (.intImm 1)⟩ else ⟨some (.var w), none⟩)
  | e => if e.usesVar nodeVars (· = v) then none else some ⟨some e, none⟩

/-- The first loop: the coefficients and what is left. -/
def detectCoefficients (nodeVars : Nat → List Var) :
    List Var → PrimExpr → Option (List PrimExpr × PrimExpr)
  | [], base => some ([], base)
  | v :: vars, base => do
      let ret ← linearEqDetector nodeVars v base
      let rest ← detectCoefficients nodeVars vars (ret.base.getD (.intImm 0))
      some (ret.coeff.getD (.intImm 0) :: rest.1, rest.2)

/-- The second loop: no coefficient contains a later variable.  The source goes backwards and adds
the variables to the set one by one. -/
def independentCoefficients (nodeVars : Nat → List Var) : List Var → List PrimExpr → Bool
  | _ :: vars, c :: coeff =>
    !c.usesVar nodeVars (· ∈ vars) && independentCoefficients nodeVars vars coeff
  | _, _ => true

/-- `DetectLinearEquation`: the coefficients and the rest, or nothing. -/
def detectLinearEquation (nodeVars : Nat → List Var) (e : PrimExpr) (vars : List Var) :
    List PrimExpr :=
  match detectCoefficients nodeVars vars e with
  | some found =>
    if independentCoefficients nodeVars vars found.1 then found.1 ++ [found.2] else []
  | none => []

section Parts

variable {nodeVars : Nat → List Var} {op : BinOp} {v w : Var} {e e' r : PrimExpr}
  {a b : Option PrimExpr} {interp : Nat → Env → Option Int} {env : Env} {x y : Int}

theorem touched_make {a b : PrimExpr} (member : w ∈ (make op a b).touched nodeVars) :
    w ∈ a.touched nodeVars ∨ w ∈ b.touched nodeVars := by
  rcases make_cases op a b with same | same | ⟨n, same⟩ | same
  · exact Or.inl (same ▸ member)
  · exact Or.inr (same ▸ member)
  · rw [same] at member
    cases member
  · rw [same] at member
    exact List.mem_append.mp member

theorem touched_negate {a : PrimExpr} (member : w ∈ (negate a).touched nodeVars) :
    w ∈ a.touched nodeVars := by
  have general (inDifference : w ∈ (make .sub (.intImm 0) a).touched nodeVars) :
      w ∈ a.touched nodeVars := by
    rcases touched_make inDifference with none | inside
    · cases none
    · exact inside
  cases a with
  | intImm n => exact member
  | _ => exact general member

def partValue (interp : Nat → Env → Option Int) (env : Env) : Option PrimExpr → Option Int
  | none => some 0
  | some e => e.eval interp env

theorem addCombine_value (left : partValue interp env a = some x)
    (right : partValue interp env b = some y) :
    partValue interp env (addCombine a b) = some (x + y) := by
  cases a with
  | none =>
    cases left
    rw [addCombine, zero_add, right]
  | some a =>
    cases b with
    | none =>
      cases right
      rw [addCombine, add_zero, left]
    | some b => exact eval_make left right (admits_int rfl x y) rfl

theorem subCombine_value (left : partValue interp env a = some x)
    (right : partValue interp env b = some y) :
    partValue interp env (subCombine a b) = some (x - y) := by
  cases b with
  | none =>
    cases right
    rw [subCombine, sub_zero, left]
  | some b =>
    cases a with
    | none =>
      cases left
      rw [zero_sub]
      exact eval_negate right
    | some a => exact eval_make left right (admits_int rfl x y) rfl

theorem mulCombine_value (left : partValue interp env a = some x)
    (right : partValue interp env b = some y) :
    partValue interp env (mulCombine a b) = some (x * y) := by
  cases a with
  | none =>
    cases left
    rw [zero_mul]
    rfl
  | some a =>
    cases b with
    | none =>
      cases right
      rw [mul_zero]
      rfl
    | some b => exact eval_make left right (admits_int rfl x y) rfl

/-- A part of an expression in which a variable is eliminated. -/
def PartOf (nodeVars : Nat → List Var) (v : Var) (e : PrimExpr) (part : Option PrimExpr) : Prop :=
  ∀ p, part = some p → ∀ w ∈ p.touched nodeVars, w ∈ e.touched nodeVars ∧ w ≠ v

theorem PartOf.of_none (v : Var) (e : PrimExpr) : PartOf nodeVars v e none := by
  intro p absurd
  cases absurd

theorem PartOf.of_some {p : PrimExpr}
    (vars : ∀ w ∈ p.touched nodeVars, w ∈ e.touched nodeVars ∧ w ≠ v) :
    PartOf nodeVars v e (some p) := by
  intro q same
  cases same
  exact vars

theorem PartOf.mono (part : PartOf nodeVars v e a)
    (inside : ∀ w ∈ e.touched nodeVars, w ∈ e'.touched nodeVars) : PartOf nodeVars v e' a :=
  fun p isPart w member => (part p isPart w member).imp_left (inside w)

theorem PartOf.make {p q : PrimExpr} (op : BinOp) (left : PartOf nodeVars v e (some p))
    (right : PartOf nodeVars v e (some q)) : PartOf nodeVars v e (some (make op p q)) :=
  .of_some fun w member => (touched_make member).elim (left p rfl w) (right q rfl w)

theorem PartOf.add (left : PartOf nodeVars v e a) (right : PartOf nodeVars v e b) :
    PartOf nodeVars v e (addCombine a b) := by
  cases a with
  | none => exact right
  | some a =>
    cases b with
    | none => exact left
    | some b => exact left.make .add right

theorem PartOf.sub (left : PartOf nodeVars v e a) (right : PartOf nodeVars v e b) :
    PartOf nodeVars v e (subCombine a b) := by
  cases b with
  | none =>
    cases a with
    | none => exact left
    | some a => exact left
  | some b =>
    cases a with
    | none => exact .of_some fun w member => right b rfl w (touched_negate member)
    | some a => exact left.make .sub right

theorem PartOf.mul (left : PartOf nodeVars v e a) (right : PartOf nodeVars v e b) :
    PartOf nodeVars v e (mulCombine a b) := by
  cases a with
  | none => exact left
  | some a =>
    cases b with
    | none => exact right
    | some b => exact left.make .mul right

end Parts

/-- An expression is its coefficient times the variable and its base, neither of which contains the
variable. -/
structure LinearEqEntry.Splits (nodeVars : Nat → List Var) (v : Var) (e : PrimExpr)
    (ret : LinearEqEntry) : Prop where
  base : PartOf nodeVars v e ret.base
  coeff : PartOf nodeVars v e ret.coeff
  value : ∀ interp env x, e.eval interp env = some x → ∃ b c,
    partValue interp env ret.base = some b ∧ partValue interp env ret.coeff = some c ∧
      x = c * env v + b

section Detector

variable {nodeVars : Nat → List Var} {v : Var} {e x y : PrimExpr} {a b ret : LinearEqEntry}

theorem eval_operands {op : BinOp} {interp : Nat → Env → Option Int} {env : Env} {n : Int}
    (evaluates : (PrimExpr.binary op x y).eval interp env = some n) :
    ∃ p q, x.eval interp env = some p ∧ y.eval interp env = some q ∧ op.eval p q = some n := by
  obtain ⟨p, isLeft, evaluates⟩ := Option.bind_eq_some_iff.mp evaluates
  obtain ⟨q, isRight, evaluates⟩ := Option.bind_eq_some_iff.mp evaluates
  exact ⟨p, q, isLeft, isRight, evaluates⟩

theorem splits_default
    (detected : (if e.usesVar nodeVars (· = v) then none
      else some (⟨some e, none⟩ : LinearEqEntry)) = some ret) : ret.Splits nodeVars v e := by
  split at detected
  · cases detected
  · rename_i free
    cases detected
    have absent : ∀ w ∈ e.touched nodeVars, w ≠ v := by
      intro w member same
      exact free (List.any_eq_true.mpr ⟨w, member, decide_eq_true same⟩)
    exact ⟨.of_some fun w member => ⟨member, absent w member⟩, .of_none v e,
      fun _ env x evaluates => ⟨x, 0, evaluates, rfl, by ring⟩⟩

theorem splits_var (w : Var) :
    LinearEqEntry.Splits nodeVars v (.var w)
      (if w = v then ⟨none, some (.intImm 1)⟩ else ⟨some (.var w), none⟩) := by
  split
  · rename_i same
    subst same
    refine ⟨.of_none w _, .of_some fun u member => (by cases member), fun _ env x evaluates => ?_⟩
    cases evaluates
    exact ⟨0, 1, rfl, rfl, by ring⟩
  · rename_i different
    refine ⟨.of_some fun u member => ⟨member, ?_⟩, .of_none v _,
      fun _ env x evaluates => ⟨x, 0, evaluates, rfl, by ring⟩⟩
    rw [List.mem_singleton.mp member]
    exact different

section Operands

variable (left : a.Splits nodeVars v x) (right : b.Splits nodeVars v y)
include left right

theorem splits_add : LinearEqEntry.Splits nodeVars v (.binary .add x y)
    ⟨addCombine a.base b.base, addCombine a.coeff b.coeff⟩ where
  base := (left.base.mono fun _ => List.mem_append_left _).add
    (right.base.mono fun _ => List.mem_append_right _)
  coeff := (left.coeff.mono fun _ => List.mem_append_left _).add
    (right.coeff.mono fun _ => List.mem_append_right _)
  value interp env n evaluates := by
    obtain ⟨p, q, isLeft, isRight, evaluates⟩ := eval_operands evaluates
    cases evaluates
    obtain ⟨b₁, c₁, isBase₁, isCoeff₁, rfl⟩ := left.value interp env p isLeft
    obtain ⟨b₂, c₂, isBase₂, isCoeff₂, rfl⟩ := right.value interp env q isRight
    exact ⟨_, _, addCombine_value isBase₁ isBase₂, addCombine_value isCoeff₁ isCoeff₂, by ring⟩

theorem splits_sub : LinearEqEntry.Splits nodeVars v (.binary .sub x y)
    ⟨subCombine a.base b.base, subCombine a.coeff b.coeff⟩ where
  base := (left.base.mono fun _ => List.mem_append_left _).sub
    (right.base.mono fun _ => List.mem_append_right _)
  coeff := (left.coeff.mono fun _ => List.mem_append_left _).sub
    (right.coeff.mono fun _ => List.mem_append_right _)
  value interp env n evaluates := by
    obtain ⟨p, q, isLeft, isRight, evaluates⟩ := eval_operands evaluates
    cases evaluates
    obtain ⟨b₁, c₁, isBase₁, isCoeff₁, rfl⟩ := left.value interp env p isLeft
    obtain ⟨b₂, c₂, isBase₂, isCoeff₂, rfl⟩ := right.value interp env q isRight
    exact ⟨_, _, subCombine_value isBase₁ isBase₂, subCombine_value isCoeff₁ isCoeff₂, by ring⟩

/-- A product whose first factor has no coefficient. -/
theorem splits_scaled (constant : a.coeff = none)
    (inLeft : ∀ w ∈ x.touched nodeVars, w ∈ e.touched nodeVars)
    (inRight : ∀ w ∈ y.touched nodeVars, w ∈ e.touched nodeVars)
    (product : ∀ interp env n, e.eval interp env = some n →
      ∃ p q, x.eval interp env = some p ∧ y.eval interp env = some q ∧ n = p * q) :
    LinearEqEntry.Splits nodeVars v e ⟨mulCombine a.base b.base, mulCombine a.base b.coeff⟩ where
  base := (left.base.mono inLeft).mul (right.base.mono inRight)
  coeff := (left.base.mono inLeft).mul (right.coeff.mono inRight)
  value interp env n evaluates := by
    obtain ⟨p, q, isLeft, isRight, rfl⟩ := product interp env n evaluates
    obtain ⟨b₁, c₁, isBase₁, isCoeff₁, rfl⟩ := left.value interp env p isLeft
    obtain ⟨b₂, c₂, isBase₂, isCoeff₂, rfl⟩ := right.value interp env q isRight
    rw [constant] at isCoeff₁
    cases isCoeff₁
    exact ⟨b₁ * b₂, b₁ * c₂, mulCombine_value isBase₁ isBase₂, mulCombine_value isBase₁ isCoeff₂,
      by ring⟩

theorem mulEntries_splits (made : mulEntries a b = some ret) :
    ret.Splits nodeVars v (.binary .mul x y) := by
  have inLeft : ∀ w ∈ x.touched nodeVars, w ∈ (PrimExpr.binary .mul x y).touched nodeVars :=
    fun w member => List.mem_append_left _ member
  have inRight : ∀ w ∈ y.touched nodeVars, w ∈ (PrimExpr.binary .mul x y).touched nodeVars :=
    fun w member => List.mem_append_right _ member
  rw [mulEntries] at made
  cases aCoeff : a.coeff with
  | none =>
    simp only [aCoeff, Option.isSome_none, Bool.false_eq_true, if_false] at made
    cases made
    refine splits_scaled left right aCoeff inLeft inRight fun interp env n evaluates => ?_
    obtain ⟨p, q, isLeft, isRight, evaluates⟩ := eval_operands evaluates
    cases evaluates
    exact ⟨p, q, isLeft, isRight, rfl⟩
  | some c =>
    -- the operands are swapped
    simp only [aCoeff, Option.isSome_some, if_true] at made
    split at made
    · cases made
    · rename_i constant
      cases made
      have none : b.coeff = none := by simpa using constant
      rw [← aCoeff]
      refine splits_scaled right left none inRight inLeft fun interp env n evaluates => ?_
      obtain ⟨p, q, isLeft, isRight, evaluates⟩ := eval_operands evaluates
      cases evaluates
      exact ⟨q, p, isRight, isLeft, mul_comm p q⟩

end Operands

theorem linearEqDetector_splits (detected : linearEqDetector nodeVars v e = some ret) :
    ret.Splits nodeVars v e := by
  induction e generalizing ret with
  | var w =>
    cases detected
    exact splits_var w
  | binary op x y left right =>
    cases op with
    | add =>
      obtain ⟨a, leftDetected, detected⟩ := Option.bind_eq_some_iff.mp detected
      obtain ⟨b, rightDetected, detected⟩ := Option.bind_eq_some_iff.mp detected
      cases detected
      exact splits_add (left leftDetected) (right rightDetected)
    | sub =>
      obtain ⟨a, leftDetected, detected⟩ := Option.bind_eq_some_iff.mp detected
      obtain ⟨b, rightDetected, detected⟩ := Option.bind_eq_some_iff.mp detected
      cases detected
      exact splits_sub (left leftDetected) (right rightDetected)
    | mul =>
      obtain ⟨a, leftDetected, detected⟩ := Option.bind_eq_some_iff.mp detected
      obtain ⟨b, rightDetected, detected⟩ := Option.bind_eq_some_iff.mp detected
      exact mulEntries_splits (left leftDetected) (right rightDetected) detected
    | _ => exact splits_default detected
  | _ => exact splits_default detected

end Detector

def linearSum (env : Env) : List Var → List Int → Int
  | v :: vars, n :: coeff => n * env v + linearSum env vars coeff
  | _, _ => 0

structure LinearIn (nodeVars : Nat → List Var) (vars : List Var) (e : PrimExpr)
    (coeff : List PrimExpr) (base : PrimExpr) : Prop where
  length : coeff.length = vars.length
  absent : ∀ w ∈ base.touched nodeVars, w ∈ e.touched nodeVars ∧ w ∉ vars
  inside : ∀ c ∈ coeff, ∀ w ∈ c.touched nodeVars, w ∈ e.touched nodeVars
  value : ∀ interp env x, e.eval interp env = some x → ∃ b ns, base.eval interp env = some b ∧
    List.Forall₂ (fun c n => c.eval interp env = some n) coeff ns ∧ x = linearSum env vars ns + b

section Coefficients

variable {nodeVars : Nat → List Var} {vars : List Var} {e : PrimExpr}

/-- A part with zero for one that is not defined. -/
theorem eval_part {interp : Nat → Env → Option Int} {env : Env} {part : Option PrimExpr} {n : Int}
    (isPart : partValue interp env part = some n) :
    (part.getD (.intImm 0)).eval interp env = some n := by
  cases part with
  | none => exact isPart
  | some p => exact isPart

theorem PartOf.touched_getD {v w : Var} {part : Option PrimExpr} (isPart : PartOf nodeVars v e part)
    (member : w ∈ (part.getD (.intImm 0)).touched nodeVars) : w ∈ e.touched nodeVars ∧ w ≠ v := by
  cases part with
  | none => cases member
  | some p => exact isPart p rfl w member

theorem detectCoefficients_spec {found : List PrimExpr × PrimExpr}
    (detected : detectCoefficients nodeVars vars e = some found) :
    LinearIn nodeVars vars e found.1 found.2 := by
  induction vars generalizing e found with
  | nil =>
    cases detected
    refine ⟨rfl, fun w member => ⟨member, List.not_mem_nil⟩, fun c none => (by cases none),
      fun _ env x evaluates => ?_⟩
    exact ⟨x, [], evaluates, .nil, (zero_add x).symm⟩
  | cons v vars ih =>
    obtain ⟨ret, entry, detected⟩ := Option.bind_eq_some_iff.mp detected
    obtain ⟨rest, others, detected⟩ := Option.bind_eq_some_iff.mp detected
    cases detected
    have splits := linearEqDetector_splits entry
    have later := ih others
    refine ⟨congrArg (· + 1) later.length, fun w member => ?_, fun c member w touched => ?_,
      fun interp env x evaluates => ?_⟩
    · obtain ⟨inBase, absent⟩ := later.absent w member
      obtain ⟨inside, different⟩ := splits.base.touched_getD inBase
      exact ⟨inside, List.not_mem_cons_of_ne_of_not_mem different absent⟩
    · rcases List.mem_cons.mp member with rfl | member
      · exact (splits.coeff.touched_getD touched).1
      · exact (splits.base.touched_getD (later.inside c member w touched)).1
    · obtain ⟨b, c, isBase, isCoeff, rfl⟩ := splits.value interp env x evaluates
      obtain ⟨b', ns, isBase', coefficients, rfl⟩ := later.value interp env b (eval_part isBase)
      refine ⟨b', c :: ns, isBase', .cons (eval_part isCoeff) coefficients, ?_⟩
      rw [linearSum]
      ring

/-- A coefficient has no variable from its own on, and what is left of the expression none before
it. -/
theorem coefficients_free {found : List PrimExpr × PrimExpr}
    (detected : detectCoefficients nodeVars vars e = some found)
    (independent : independentCoefficients nodeVars vars found.1 = true) :
    ∀ c ∈ found.1, ∀ w ∈ c.touched nodeVars, w ∉ vars := by
  induction vars generalizing e found with
  | nil =>
    cases detected
    intro c none
    cases none
  | cons v vars ih =>
    obtain ⟨ret, entry, detected⟩ := Option.bind_eq_some_iff.mp detected
    obtain ⟨rest, others, detected⟩ := Option.bind_eq_some_iff.mp detected
    cases detected
    have splits := linearEqDetector_splits entry
    obtain ⟨free, independent⟩ := Bool.and_eq_true_iff.mp independent
    intro c member w touched
    rcases List.mem_cons.mp member with rfl | member
    · refine List.not_mem_cons_of_ne_of_not_mem (splits.coeff.touched_getD touched).2 ?_
      intro later
      rw [Bool.not_eq_true', PrimExpr.usesVar, List.any_eq_false] at free
      exact free w touched (decide_eq_true later)
    · have inBase := (detectCoefficients_spec others).inside c member w touched
      exact List.not_mem_cons_of_ne_of_not_mem (splits.base.touched_getD inBase).2
        (ih others independent c member w touched)

/-- Where there is a result, the expression is the sum of the coefficients times their variables and
the base, and none of these is left in them. -/
theorem detectLinearEquation_exact (nodeVars : Nat → List Var) (e : PrimExpr) (vars : List Var)
    (nonempty : detectLinearEquation nodeVars e vars ≠ []) :
    ∃ coeff base, detectLinearEquation nodeVars e vars = coeff ++ [base] ∧
      coeff.length = vars.length ∧
      (∀ c ∈ coeff ++ [base], ∀ w ∈ c.touched nodeVars, w ∉ vars) ∧
      ∀ interp env x, e.eval interp env = some x → ∃ ns b,
        List.Forall₂ (fun c n => c.eval interp env = some n) coeff ns ∧
          base.eval interp env = some b ∧
          x = linearSum env vars ns + b := by
  rw [detectLinearEquation] at nonempty ⊢
  split
  · rename_i found isFound
    split
    · rename_i independent
      have spec := detectCoefficients_spec isFound
      refine ⟨found.1, found.2, rfl, spec.length, fun c member w touched => ?_,
        fun interp env x evaluates => ?_⟩
      · rcases List.mem_append.mp member with member | member
        · exact coefficients_free isFound independent c member w touched
        · rw [List.mem_singleton.mp member] at touched
          exact (spec.absent w touched).2
      · obtain ⟨b, ns, isBase, coefficients, sum⟩ := spec.value interp env x evaluates
        exact ⟨ns, b, coefficients, isBase, sum⟩
    · rename_i dependent
      rw [isFound] at nonempty
      exact absurd (if_neg dependent) nonempty
  · rename_i isNone
    rw [isNone] at nonempty
    exact absurd rfl nonempty

/-- `3 * x + (y + 1)` in `x` and `z`. -/
theorem detectLinearEquation_exact_sum :
    ∃ coeff base, detectLinearEquation (fun _ => [])
        (.binary .add (.binary .mul (.intImm 3) (.var 0)) (.binary .add (.var 1) (.intImm 1)))
        [0, 2] = coeff ++ [base] ∧
      coeff.length = [0, 2].length ∧
      (∀ c ∈ coeff ++ [base], ∀ w ∈ c.touched fun _ => [], w ∉ [0, 2]) ∧
      ∀ interp env x, (PrimExpr.binary .add (.binary .mul (.intImm 3) (.var 0))
          (.binary .add (.var 1) (.intImm 1))).eval interp env = some x → ∃ ns b,
        List.Forall₂ (fun c n => c.eval interp env = some n) coeff ns ∧
          base.eval interp env = some b ∧ x = linearSum env [0, 2] ns + b :=
  detectLinearEquation_exact _ _ _ (by decide)

end Coefficients

end Tvm.Arith
