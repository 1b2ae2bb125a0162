import Tvm.Arith.ModularSet
import Mathlib.Tactic.LinearCombination

/-!
# Soundness of the modular set analyzer

Each operation on entries is justified by a lemma on residue classes; the visit of an
expression follows by induction on it.
-/

namespace Tvm.Arith.ModularSet

open Tvm.Lib

namespace Entry

variable {entry a b : Entry} {x y value coeff base : Int}

theorem contains_iff : entry.Contains value ↔ value ≡ entry.base [ZMOD entry.coeff] := by
  rw [Contains]
  split
  · rename_i constant
    rw [constant, Int.modEq_zero_iff]
  · rfl

theorem everything_contains (value : Int) : everything.Contains value :=
  contains_iff.mpr Int.modEq_one

theorem make_spec (made : make coeff base = some entry) :
    entry.coeff = coeff ∧ entry.base ≡ base [ZMOD coeff] := by
  rw [make] at made
  split at made
  · cases made
    refine ⟨rfl, ?_⟩
    have remainder : base.tmod coeff ≡ base [ZMOD coeff] := tmod_modEq (dvd_refl coeff)
    dsimp only
    split
    · split
      · exact Int.add_modulus_modEq_iff.mpr remainder
      · exact remainder
    · rfl
  · cases made

theorem make_contains (made : make coeff base = some entry) (inClass : value ≡ base [ZMOD coeff]) :
    entry.Contains value := by
  obtain ⟨coeffIs, baseIs⟩ := make_spec made
  rw [contains_iff, coeffIs]
  exact inClass.trans baseIs.symm

theorem make_contains_iff (made : make coeff base = some entry) :
    entry.Contains value ↔ value ≡ base [ZMOD coeff] := by
  obtain ⟨coeffIs, baseIs⟩ := make_spec made
  rw [contains_iff, coeffIs]
  exact ⟨fun inEntry => inEntry.trans baseIs, fun inClass => inClass.trans baseIs.symm⟩

theorem eq_base_of_isConst (constant : entry.isConst = true) (inEntry : entry.Contains value) :
    value = entry.base := by
  rw [isConst, beq_iff_eq] at constant
  rwa [contains_iff, constant, Int.modEq_zero_iff] at inEntry

end Entry

open Entry

variable {entry a b : Entry} {x y value : Int}

theorem visitAdd_sound (run : visitAdd a b = some entry) (left : a.Contains x)
    (right : b.Contains y) : entry.Contains (x + y) := by
  rw [contains_iff] at left right
  simp only [visitAdd, Option.bind_eq_some_iff] at run
  obtain ⟨coeff, gcd, base, sum, made⟩ := run
  rw [eq_of_int64 sum] at made
  rw [zeroAwareGCD_eq gcd] at made
  exact make_contains made
    ((left.of_dvd (Int.gcd_dvd_left _ _)).add (right.of_dvd (Int.gcd_dvd_right _ _)))

theorem visitSub_sound (run : visitSub a b = some entry) (left : a.Contains x)
    (right : b.Contains y) : entry.Contains (x - y) := by
  rw [contains_iff] at left right
  simp only [visitSub, Option.bind_eq_some_iff] at run
  obtain ⟨coeff, gcd, base, difference, made⟩ := run
  rw [eq_of_int64 difference] at made
  rw [zeroAwareGCD_eq gcd] at made
  exact make_contains made
    ((left.of_dvd (Int.gcd_dvd_left _ _)).sub (right.of_dvd (Int.gcd_dvd_right _ _)))

theorem visitMul_sound (run : visitMul a b = some entry) (left : a.Contains x)
    (right : b.Contains y) : entry.Contains (x * y) := by
  rw [contains_iff] at left right
  simp only [visitMul, Option.bind_eq_some_iff] at run
  obtain ⟨pq, pqIs, pm, pmIs, qn, qnIs, cross, crossIs, coeff, coeffIs, base, baseIs, made⟩ := run
  rw [eq_of_int64 baseIs] at made
  have dividesCross : coeff ∣ cross := zeroAwareGCD_eq coeffIs ▸ Int.gcd_dvd_right _ _
  apply make_contains made
  apply modEq_mul_gcd left right
  · rw [← eq_of_int64 pqIs, zeroAwareGCD_eq coeffIs]
    exact Int.gcd_dvd_left _ _
  · rw [← eq_of_int64 pmIs]
    exact dividesCross.trans (zeroAwareGCD_eq crossIs ▸ Int.gcd_dvd_left _ _)
  · rw [← eq_of_int64 qnIs]
    exact dividesCross.trans (zeroAwareGCD_eq crossIs ▸ Int.gcd_dvd_right _ _)

theorem union_over (run : union a b = some entry) (either : a.Contains value ∨ b.Contains value) :
    entry.Contains value := by
  simp only [contains_iff] at either
  rw [union, Option.bind_eq_some_iff] at run
  obtain ⟨coeff, coeffIs, run⟩ := run
  have gcd := zeroAwareGCD_eq coeffIs
  have leftDivides : coeff ∣ a.coeff := gcd ▸ Int.gcd_dvd_left _ _
  have rightDivides : coeff ∣ b.coeff := gcd ▸ Int.gcd_dvd_right _ _
  split at run
  · rename_i bothConst
    rw [bothConst, zero_dvd_iff] at leftDivides rightDivides
    rw [leftDivides, rightDivides, Int.modEq_zero_iff, Int.modEq_zero_iff] at either
    split at run
    · rename_i sameBase
      cases run
      rw [contains_iff, leftDivides, Int.modEq_zero_iff]
      rcases either with first | second
      · exact first
      · exact second.trans sameBase.symm
    · cases run
      exact everything_contains value
  · have base0 : a.base.tmod coeff ≡ a.base [ZMOD coeff] := tmod_modEq (dvd_refl coeff)
    have base1 : b.base.tmod coeff ≡ b.base [ZMOD coeff] := tmod_modEq (dvd_refl coeff)
    have inCoeff : value ≡ a.base.tmod coeff [ZMOD coeff] ∨
        value ≡ b.base.tmod coeff [ZMOD coeff] :=
      either.imp (fun first => (first.of_dvd leftDivides).trans base0.symm)
        (fun second => (second.of_dvd rightDivides).trans base1.symm)
    dsimp only at run
    split at run
    · rename_i sameBase
      apply make_contains run
      rw [← sameBase, or_self] at inCoeff
      exact inCoeff
    · simp only [Option.bind_eq_some_iff] at run
      obtain ⟨distance, distanceIs, smaller, smallerIs, made⟩ := run
      have dividesDistance : smaller ∣ distance := zeroAwareGCD_eq smallerIs ▸ Int.gcd_dvd_left _ _
      have dividesCoeff : smaller ∣ coeff := zeroAwareGCD_eq smallerIs ▸ Int.gcd_dvd_right _ _
      have divides0 := dividesDistance.trans (zeroAwareGCD_eq distanceIs ▸ Int.gcd_dvd_left _ _)
      have divides1 := dividesDistance.trans (zeroAwareGCD_eq distanceIs ▸ Int.gcd_dvd_right _ _)
      apply make_contains made
      rcases inCoeff with first | second
      · exact first.of_dvd dividesCoeff
      · exact modEq_of_dvd_union dividesCoeff (dvd_sub divides0 divides1) second

theorem intersect_cases (run : intersect a b = some entry) :
    (∀ value, entry.Contains value ↔ a.Contains value ∧ b.Contains value) ∨
      (entry = nothing ∧ ∀ value, ¬(a.Contains value ∧ b.Contains value)) := by
  simp only [contains_iff]
  simp only [intersect, Option.bind_eq_some_iff] at run
  obtain ⟨bezout, bezoutIs, v, vIs, run⟩ := run
  obtain ⟨gcdIs, factor⟩ := extendedEuclidean_spec b.coeff_nonneg bezoutIs
  split at run
  · cases run
  · rename_i nonzero
    split at run
    · rename_i divides
      simp only [Option.bind_eq_some_iff] at run
      obtain ⟨scaled, scaledIs, -, -, coeff, coeffIs, start, startIs, base, baseIs, made⟩ := run
      rw [gcdIs] at nonzero divides scaledIs coeffIs factor
      obtain ⟨k, distance⟩ := Int.dvd_of_tmod_eq_zero divides
      rw [eq_of_int64 vIs] at distance
      rw [eq_of_int64 vIs, distance, Int.mul_tdiv_cancel_left _ nonzero] at scaledIs
      have baseIs : base = k * bezout.x * a.coeff + a.base := by
        rw [eq_of_int64 baseIs, eq_of_int64 startIs, eq_of_int64 scaledIs]
      have first : base ≡ a.base [ZMOD a.coeff] := by
        rw [baseIs]
        exact Int.mul_modulus_add_modEq_iff.mpr rfl
      have second : base ≡ b.base [ZMOD b.coeff] := by
        rw [Int.modEq_iff_dvd, baseIs]
        have regroup : b.base - (k * bezout.x * a.coeff + a.base) =
            k * (Int.gcd a.coeff b.coeff - bezout.x * a.coeff) := by
          linear_combination distance
        rw [regroup]
        exact factor.mul_left k
      refine Or.inl fun value => ?_
      rw [← contains_iff, make_contains_iff made, eq_of_int64 coeffIs,
        div_gcd_mul_eq_lcm a.coeff_nonneg b.coeff_nonneg nonzero]
      exact modEq_inter_iff first second
    · rename_i apart
      cases run
      refine Or.inr ⟨rfl, ?_⟩
      rintro value ⟨left, right⟩
      apply apart
      rw [gcdIs, eq_of_int64 vIs]
      exact Int.tmod_eq_zero_of_dvd (gcd_dvd_of_common left right)

theorem intersect_exact (run : intersect a b = some entry) (found : entry ≠ nothing) :
    entry.Contains value ↔ a.Contains value ∧ b.Contains value := by
  rcases intersect_cases run with meets | ⟨empty, -⟩
  · exact meets value
  · exact absurd empty found

section Division

variable {canProveGreaterEqual : PrimExpr → Int → Bool} {lhs : PrimExpr} {val : Int}
  {roundDown : Bool}

/-- The rounding of the division that `DivByConst` stands for. -/
def rounded (roundDown : Bool) (x val : Int) : Int :=
  if roundDown then x.fdiv val else x.tdiv val

theorem rounded_eq_fdiv (nonneg : roundDown = true ∨ 0 ≤ x) (positive : 0 < val) :
    rounded roundDown x val = x.fdiv val := by
  rw [rounded]
  split
  · rfl
  · rename_i truncated
    rcases nonneg with down | nonneg
    · exact absurd down truncated
    · rw [Int.tdiv_eq_ediv_of_nonneg nonneg, Int.fdiv_eq_ediv_of_nonneg x positive.le]

theorem divByConst_sound
    (run : divByConst canProveGreaterEqual lhs a val roundDown = some entry)
    (dividend : a.Contains x) (known : canProveGreaterEqual lhs 0 = true → 0 ≤ x) :
    entry.Contains (rounded roundDown x val) := by
  rw [contains_iff] at dividend
  rw [divByConst] at run
  split at run
  · cases run
  · rename_i nonzero
    split at run
    · rename_i divides
      replace divides := Int.dvd_of_tmod_eq_zero divides
      split at run
      · rename_i baseZero
        rw [baseZero] at dividend
        obtain ⟨k, truncated, floored⟩ := div_of_dvd_modulus nonzero divides dividend
        apply make_contains run
        rw [Int.modEq_abs, Int.modEq_zero_iff_dvd, Int.tdiv_eq_ediv_of_dvd divides, rounded]
        split
        · exact ⟨k, floored⟩
        · exact ⟨k, truncated⟩
      · split at run
        · rename_i positive
          obtain ⟨basePositive, valPositive, direction⟩ := positive
          rw [rounded_eq_fdiv (direction.imp id known) valPositive]
          apply make_contains run
          rw [Int.tdiv_eq_ediv_of_dvd divides, Int.tdiv_eq_ediv_of_nonneg basePositive.le,
            ← Int.fdiv_eq_ediv_of_nonneg a.base valPositive.le]
          exact modEq_fdiv valPositive divides dividend
        · cases run
          exact everything_contains _
    · cases run
      exact everything_contains _

/-- `ModByConst` is right for every value in the class of the dividend modulo the divisor, so
for the truncated and the floored remainder alike. -/
theorem modByConst_sound {remainder : Int}
    (run : modByConst canProveGreaterEqual lhs a val roundDown = some entry)
    (dividend : a.Contains x) (congruent : remainder ≡ x [ZMOD val]) :
    entry.Contains remainder := by
  rw [contains_iff] at dividend
  rw [modByConst] at run
  split at run
  · cases run
  · rw [Option.bind_eq_some_iff] at run
    obtain ⟨coeff, gcd, run⟩ := run
    split at run
    · apply make_contains run
      have dividesCoeff : coeff ∣ a.coeff := zeroAwareGCD_eq gcd ▸ Int.gcd_dvd_left _ _
      have dividesVal : coeff ∣ val := zeroAwareGCD_eq gcd ▸ Int.gcd_dvd_right _ _
      exact (congruent.of_dvd dividesVal).trans
        ((dividend.of_dvd dividesCoeff).trans (tmod_modEq (dvd_refl coeff)).symm)
    · cases run
      exact everything_contains _

end Division

theorem constPowerHelper_spec {fuel shift found : Nat} {val : Int}
    (run : constPowerHelper fuel val shift = some found) :
    ∃ k, found = shift + k ∧ val = 2 ^ k := by
  induction fuel generalizing val shift with
  | zero => cases run
  | succ fuel ih =>
    rw [constPowerHelper] at run
    split at run
    · split at run
      · rename_i one
        cases run
        exact ⟨0, rfl, one⟩
      · cases run
    · rename_i even
      obtain ⟨k, foundIs, halfIs⟩ := ih run
      refine ⟨k + 1, by omega, ?_⟩
      rw [Int.fdiv_eq_ediv_of_nonneg _ (by decide)] at halfIs
      rw [pow_succ, ← halfIs]
      omega

theorem constPowerOfTwo_spec {val : Int} {shift : Nat} (run : constPowerOfTwo val = some shift) :
    val = 2 ^ shift := by
  rw [constPowerOfTwo] at run
  split at run
  · cases run
  · obtain ⟨k, shiftIs, valIs⟩ := constPowerHelper_spec run
    rw [valIs, shiftIs, Nat.zero_add]

theorem oneShifted_spec {shift val : Int} (run : oneShifted shift = some val) :
    val = 2 ^ shift.toNat := by
  rw [oneShifted] at run
  split at run
  · cases run
  · exact eq_of_int64 run

theorem mask_ones {mask : Int} {shift : Nat}
    (power : constPowerOfTwo ((mask + 1).bmod (2 ^ 32)) = some shift) :
    (2 : Int) ^ shift ∣ mask + 1 := by
  have valueIs := constPowerOfTwo_spec power
  have small : shift ≤ 32 := by
    have bound := Int.bmod_lt (x := mask + 1) (m := 2 ^ 32) (by decide)
    rw [valueIs] at bound
    by_contra large
    have grows : (2 : Int) ^ 32 ≤ 2 ^ shift :=
      pow_le_pow_right₀ (by decide) (by omega)
    omega
  have period : (2 : Int) ^ shift ∣ 2 ^ 32 := pow_dvd_pow 2 small
  have rest := Int.dvd_self_sub_bmod (x := mask + 1) (m := 2 ^ 32)
  have low : (2 : Int) ^ shift ∣ (mask + 1).bmod (2 ^ 32) := by
    rw [valueIs]
  have whole := dvd_add (period.trans (by exact_mod_cast rest)) low
  rwa [sub_add_cancel] at whole

/-- Every mapped variable has a value of its entry. -/
def VarMap.Admits (varMap : VarMap) (env : Env) : Prop :=
  ∀ v entry, varMap v = some entry → entry.Contains (env v)

section Visit

variable (canProveGreaterEqual : PrimExpr → Int → Bool) (interp : Nat → Env → Option Int)

/-- What the parent proves holds of the values that expressions have under `env`. -/
def OracleSound (env : Env) : Prop :=
  ∀ e bound value, canProveGreaterEqual e bound = true → e.eval interp env = some value →
    bound ≤ value

/-- In every scope that a `Let` of the expression opens, the parent is sound for the extended
assignment, and a variable that the map binds already gets a value of its entry. -/
def ScopesAdmit : VarMap → Env → PrimExpr → Prop
  | varMap, env, .letIn v value body =>
    ScopesAdmit varMap env value ∧
    ∀ x, value.eval interp env = some x →
      OracleSound canProveGreaterEqual interp (Function.update env v x) ∧
      match varMap v with
      | some entry => entry.Contains x ∧ ScopesAdmit varMap (Function.update env v x) body
      | none => ∀ entry, visitExpr canProveGreaterEqual varMap value = some entry →
          ScopesAdmit (Function.update varMap v (some entry)) (Function.update env v x) body
  | varMap, env, .cast value => ScopesAdmit varMap env value
  | varMap, env, .binary _ a b => ScopesAdmit varMap env a ∧ ScopesAdmit varMap env b
  | varMap, env, .select _ trueValue falseValue =>
    ScopesAdmit varMap env trueValue ∧ ScopesAdmit varMap env falseValue
  | _, _, .var _ | _, _, .intImm _ | _, _, .not _ | _, _, .other _ => True

variable {canProveGreaterEqual interp}

theorem VarMap.Admits.update {varMap : VarMap} {env : Env} {entry : Entry} {x : Int} (v : Var)
    (admits : varMap.Admits env) (contains : entry.Contains x) :
    VarMap.Admits (Function.update varMap v (some entry)) (Function.update env v x) := by
  intro w found mapped
  by_cases same : w = v
  · subst same
    rw [Function.update_self] at mapped ⊢
    cases mapped
    exact contains
  · rw [Function.update_of_ne same] at mapped ⊢
    exact admits w found mapped

theorem VarMap.Admits.rebind {varMap : VarMap} {env : Env} {entry : Entry} {x : Int} {v : Var}
    (admits : varMap.Admits env) (mapped : varMap v = some entry) (contains : entry.Contains x) :
    varMap.Admits (Function.update env v x) := by
  have updated := admits.update v contains
  rwa [← mapped, Function.update_eq_self] at updated

theorem visitConstOperand_sound {varMap : VarMap} {rhs : PrimExpr} {entry : Entry}
    {y value : Int} {visitLhs : Entry → Option Entry}
    (right : ∀ found, visitExpr canProveGreaterEqual varMap rhs = some found → found.Contains y)
    (run : ((visitExpr canProveGreaterEqual varMap rhs).bind fun b =>
      if b.isConst then visitLhs b else some everything) = some entry)
    (constant : ∀ b : Entry, y = b.base → visitLhs b = some entry → entry.Contains value) :
    entry.Contains value := by
  obtain ⟨b, bIs, run⟩ := Option.bind_eq_some_iff.mp run
  split at run
  · rename_i isConst
    exact constant b (eq_base_of_isConst isConst (right b bIs)) run
  · cases run
    exact everything_contains value

theorem visitBinary_sound {varMap : VarMap} {env : Env} {op : BinOp} {lhs rhs : PrimExpr}
    {entry : Entry} {x y value : Int}
    (left : ∀ found, visitExpr canProveGreaterEqual varMap lhs = some found → found.Contains x)
    (right : ∀ found, visitExpr canProveGreaterEqual varMap rhs = some found → found.Contains y)
    (oracle : OracleSound canProveGreaterEqual interp env)
    (lhsValue : lhs.eval interp env = some x) (evaluates : op.eval x y = some value)
    (run : visitExpr canProveGreaterEqual varMap (.binary op lhs rhs) = some entry) :
    entry.Contains value := by
  have known (proved : canProveGreaterEqual lhs 0 = true) : 0 ≤ x := oracle lhs 0 x proved lhsValue
  rw [visitExpr.eq_def] at run
  cases op with
  | add =>
    simp only [Option.bind_eq_some_iff] at run
    obtain ⟨a, aIs, b, bIs, run⟩ := run
    cases evaluates
    exact visitAdd_sound run (left a aIs) (right b bIs)
  | sub =>
    simp only [Option.bind_eq_some_iff] at run
    obtain ⟨a, aIs, b, bIs, run⟩ := run
    cases evaluates
    exact visitSub_sound run (left a aIs) (right b bIs)
  | mul =>
    simp only [Option.bind_eq_some_iff] at run
    obtain ⟨a, aIs, b, bIs, run⟩ := run
    cases evaluates
    exact visitMul_sound run (left a aIs) (right b bIs)
  | min =>
    simp only [Option.bind_eq_some_iff] at run
    obtain ⟨a, aIs, b, bIs, run⟩ := run
    cases evaluates
    apply union_over run
    rcases min_choice x y with chosen | chosen
    · rw [chosen]
      exact Or.inl (left a aIs)
    · rw [chosen]
      exact Or.inr (right b bIs)
  | max =>
    simp only [Option.bind_eq_some_iff] at run
    obtain ⟨a, aIs, b, bIs, run⟩ := run
    cases evaluates
    apply union_over run
    rcases max_choice x y with chosen | chosen
    · rw [chosen]
      exact Or.inl (left a aIs)
    · rw [chosen]
      exact Or.inr (right b bIs)
  | div =>
    refine visitConstOperand_sound right run fun b divisorIs run => ?_
    obtain ⟨a, aIs, run⟩ := Option.bind_eq_some_iff.mp run
    rw [BinOp.eval, divisorIs, Option.ite_none_left_eq_some] at evaluates
    cases evaluates.2
    exact divByConst_sound run (left a aIs) known
  | floorDiv =>
    refine visitConstOperand_sound right run fun b divisorIs run => ?_
    obtain ⟨a, aIs, run⟩ := Option.bind_eq_some_iff.mp run
    rw [BinOp.eval, divisorIs, Option.ite_none_left_eq_some] at evaluates
    cases evaluates.2
    exact divByConst_sound run (left a aIs) known
  | mod =>
    refine visitConstOperand_sound right run fun b divisorIs run => ?_
    obtain ⟨a, aIs, run⟩ := Option.bind_eq_some_iff.mp run
    rw [BinOp.eval, divisorIs, Option.ite_none_left_eq_some] at evaluates
    cases evaluates.2
    exact modByConst_sound run (left a aIs) (tmod_modEq (dvd_refl _))
  | floorMod =>
    refine visitConstOperand_sound right run fun b divisorIs run => ?_
    obtain ⟨a, aIs, run⟩ := Option.bind_eq_some_iff.mp run
    rw [BinOp.eval, divisorIs, Option.ite_none_left_eq_some] at evaluates
    cases evaluates.2
    exact modByConst_sound run (left a aIs) (fmod_modEq (dvd_refl _))
  | shiftRight =>
    refine visitConstOperand_sound right run fun b amountIs run => ?_
    simp only [Option.bind_eq_some_iff] at run
    obtain ⟨val, valIs, a, aIs, run⟩ := run
    rw [BinOp.eval, amountIs, ← oneShifted_spec valIs, Option.ite_none_left_eq_some] at evaluates
    cases evaluates.2
    exact divByConst_sound run (left a aIs) known
  | bitwiseAnd =>
    refine visitConstOperand_sound right run fun b maskIs run => ?_
    obtain ⟨next, nextIs, run⟩ := Option.bind_eq_some_iff.mp run
    rw [eq_of_int64 nextIs] at run
    split at run
    · rename_i shift power
      simp only [Option.bind_eq_some_iff] at run
      obtain ⟨val, valIs, a, aIs, run⟩ := run
      cases evaluates
      apply modByConst_sound run (left a aIs)
      rw [oneShifted_spec valIs, Int.toNat_natCast, maskIs]
      exact land_modEq shift (mask_ones power)
    · cases run
      exact everything_contains value
  | _ =>
    cases run
    exact everything_contains value

theorem visitExpr_sound {varMap : VarMap} {env : Env} {e : PrimExpr} {entry : Entry} {value : Int}
    (admits : varMap.Admits env) (oracle : OracleSound canProveGreaterEqual interp env)
    (scopes : ScopesAdmit canProveGreaterEqual interp varMap env e)
    (evaluates : e.eval interp env = some value)
    (run : visitExpr canProveGreaterEqual varMap e = some entry) : entry.Contains value := by
  induction e generalizing varMap env entry value with
  | var v =>
    cases evaluates
    rw [visitExpr] at run
    cases mapped : varMap v with
    | none =>
      rw [mapped] at run
      cases run
      exact everything_contains _
    | some found =>
      rw [mapped] at run
      cases run
      exact admits v _ mapped
  | intImm literal =>
    cases evaluates
    exact make_contains run rfl
  | binary op a b leftHypothesis rightHypothesis =>
    rw [PrimExpr.eval] at evaluates
    simp only [Option.bind_eq_some_iff] at evaluates
    obtain ⟨x, xIs, y, yIs, evaluates⟩ := evaluates
    exact visitBinary_sound
      (fun found foundIs => leftHypothesis admits oracle scopes.1 xIs foundIs)
      (fun found foundIs => rightHypothesis admits oracle scopes.2 yIs foundIs)
      oracle xIs evaluates run
  | select condition trueValue falseValue _ trueHypothesis falseHypothesis =>
    rw [visitExpr] at run
    simp only [Option.bind_eq_some_iff] at run
    obtain ⟨a, aIs, b, bIs, run⟩ := run
    rw [PrimExpr.eval, Option.bind_eq_some_iff] at evaluates
    obtain ⟨chosen, -, evaluates⟩ := evaluates
    apply union_over run
    split at evaluates
    · exact Or.inl (trueHypothesis admits oracle scopes.1 evaluates aIs)
    · exact Or.inr (falseHypothesis admits oracle scopes.2 evaluates bIs)
  | letIn v bound body valueHypothesis bodyHypothesis =>
    rw [PrimExpr.eval, Option.bind_eq_some_iff] at evaluates
    obtain ⟨x, xIs, evaluates⟩ := evaluates
    obtain ⟨boundScopes, scopes⟩ := scopes
    obtain ⟨inner, scopes⟩ := scopes x xIs
    rw [visitExpr] at run
    split at run
    · rename_i unmapped
      rw [unmapped] at scopes
      obtain ⟨found, foundIs, run⟩ := Option.bind_eq_some_iff.mp run
      have contains := valueHypothesis admits oracle boundScopes xIs foundIs
      exact bodyHypothesis (admits.update v contains) inner (scopes found foundIs) evaluates run
    · rename_i found mapped
      rw [mapped] at scopes
      exact bodyHypothesis (admits.rebind mapped scopes.1) inner scopes.2 evaluates run
  | cast value ih => exact ih admits oracle scopes evaluates run
  | not _ | other _ =>
    cases run
    exact everything_contains value

end Visit

end Tvm.Arith.ModularSet
