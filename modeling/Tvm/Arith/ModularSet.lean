import Tvm.Arith.Expr
import Tvm.Arith.IntOperator

/-!
# The modular set analyzer

`ModularSetAnalyzer::Impl` of `modular_set.cc`.  A run is `none` where an `ICHECK` fails, a
division by zero is undefined or an `int64_t` operation leaves its range.
-/

namespace Tvm.Arith.ModularSet

/-- The integers congruent to `base` modulo `coeff`, or `base` alone where `coeff` is zero. -/
structure Entry where
  coeff : Int
  base : Int
  coeff_nonneg : 0 ≤ coeff
  base_range : 0 < coeff → 0 ≤ base ∧ base < coeff
  deriving DecidableEq, Repr

namespace Entry

/-- The constructor: the base of a non-constant entry is normalised. -/
def make (coeff base : Int) : Option Entry :=
  if nonneg : 0 ≤ coeff then
    some
      { coeff
        base :=
          if coeff ≠ 0 then
            if base.tmod coeff < 0 then base.tmod coeff + coeff else base.tmod coeff
          else base
        coeff_nonneg := nonneg
        base_range := by
          intro positive
          rw [if_pos positive.ne']
          have lower := Int.lt_tmod_of_pos base positive
          have upper := Int.tmod_lt_of_pos base positive
          split
          · omega
          · omega }
  else none

def isConst (entry : Entry) : Bool :=
  entry.coeff == 0

def everything : Entry :=
  ⟨1, 0, by decide, by decide⟩

def nothing : Entry :=
  ⟨0, 1, by decide, by decide⟩

def Contains (entry : Entry) (value : Int) : Prop :=
  if entry.coeff = 0 then value = entry.base else value ≡ entry.base [ZMOD entry.coeff]

instance (entry : Entry) (value : Int) : Decidable (entry.Contains value) :=
  inferInstanceAs (Decidable
    (if entry.coeff = 0 then value = entry.base else value ≡ entry.base [ZMOD entry.coeff]))

end Entry

abbrev VarMap := Var → Option Entry

open Entry

def union (a b : Entry) : Option Entry :=
  (zeroAwareGCD a.coeff b.coeff).bind fun coeff =>
    if coeff = 0 then
      if a.base = b.base then some a else some everything
    else
      let base0 := a.base.tmod coeff
      let base1 := b.base.tmod coeff
      if base0 = base1 then make coeff base0
      else
        (zeroAwareGCD base0 base1).bind fun distance =>
          (zeroAwareGCD distance coeff).bind fun coeff => make coeff base0

/-- `v % gcd` is undefined where both entries are constants. -/
def intersect (a b : Entry) : Option Entry :=
  (extendedEuclidean a.coeff b.coeff).bind fun bezout =>
    (int64 (b.base - a.base)).bind fun v =>
      if bezout.gcd = 0 then none
      else if v.tmod bezout.gcd = 0 then
        (int64 (v.tdiv bezout.gcd * bezout.x)).bind fun x =>
          (int64 (v.tdiv bezout.gcd * -bezout.y)).bind fun _ =>
            (int64 (a.coeff.tdiv bezout.gcd * b.coeff)).bind fun coeff =>
              (int64 (x * a.coeff)).bind fun start =>
                (int64 (start + a.base)).bind fun base => make coeff base
      else some nothing

def visitAdd (a b : Entry) : Option Entry :=
  (zeroAwareGCD a.coeff b.coeff).bind fun coeff =>
    (int64 (a.base + b.base)).bind fun base => make coeff base

def visitSub (a b : Entry) : Option Entry :=
  (zeroAwareGCD a.coeff b.coeff).bind fun coeff =>
    (int64 (a.base - b.base)).bind fun base => make coeff base

def visitMul (a b : Entry) : Option Entry :=
  (int64 (a.coeff * b.coeff)).bind fun pq =>
    (int64 (a.coeff * b.base)).bind fun pm =>
      (int64 (a.base * b.coeff)).bind fun qn =>
        (zeroAwareGCD pm qn).bind fun cross =>
          (zeroAwareGCD pq cross).bind fun coeff =>
            (int64 (a.base * b.base)).bind fun base => make coeff base

/-- `is_const_power_of_two_integer`: the exponent of a power of two. -/
def constPowerHelper : Nat → Int → Nat → Option Nat
  | 0, _, _ => none
  | fuel + 1, val, shift =>
    if val % 2 = 1 then if val = 1 then some shift else none
    else constPowerHelper fuel (val.fdiv 2) (shift + 1)

def constPowerOfTwo (val : Int) : Option Nat :=
  if val ≤ 0 then none else constPowerHelper val.toNat val 0

section Visit

-- `Analyzer::CanProveGreaterEqual` of the parent
variable (canProveGreaterEqual : PrimExpr → Int → Bool)

def divByConst (lhs : PrimExpr) (a : Entry) (val : Int) (roundDown : Bool) : Option Entry :=
  if val = 0 then none
  else if a.coeff.tmod val = 0 then
    if a.base = 0 then make |a.coeff.tdiv val| 0
    else if a.base > 0 ∧ val > 0 ∧ (roundDown ∨ canProveGreaterEqual lhs 0) then
      make (a.coeff.tdiv val) (a.base.tdiv val)
    else some everything
  else some everything

def modByConst (lhs : PrimExpr) (a : Entry) (val : Int) (roundDown : Bool) : Option Entry :=
  if val = 0 then none
  else
    (zeroAwareGCD a.coeff val).bind fun coeff =>
      if a.base.tmod coeff = 0 ∨ (a.base > 0 ∧ (roundDown ∨ canProveGreaterEqual lhs 0)) then
        make coeff (a.base.tmod coeff)
      else some everything

/-- `static_cast<int64_t>(1) << shift`. -/
def oneShifted (shift : Int) : Option Int :=
  if shift < 0 then none else int64 (2 ^ shift.toNat)

/-- `VisitExpr`. The entry that a `Let` adds to the map is erased again, so the map is an
argument and not a state. -/
def visitExpr : VarMap → PrimExpr → Option Entry
  | varMap, .letIn v value body =>
    match varMap v with
    | none => (visitExpr varMap value).bind fun entry =>
      visitExpr (Function.update varMap v (some entry)) body
    | some _ => visitExpr varMap body
  | varMap, .cast value => visitExpr varMap value
  | _, .intImm value => make 0 value
  | varMap, .var v => (varMap v).or (some everything)
  | varMap, .select _ trueValue falseValue =>
    (visitExpr varMap trueValue).bind fun a => (visitExpr varMap falseValue).bind (union a)
  | varMap, .binary op a b =>
    match op with
    | .add => (visitExpr varMap a).bind fun x => (visitExpr varMap b).bind (visitAdd x)
    | .sub => (visitExpr varMap a).bind fun x => (visitExpr varMap b).bind (visitSub x)
    | .mul => (visitExpr varMap a).bind fun x => (visitExpr varMap b).bind (visitMul x)
    | .min | .max => (visitExpr varMap a).bind fun x => (visitExpr varMap b).bind (union x)
    | .div => (visitExpr varMap b).bind fun divisor =>
      if divisor.isConst then (visitExpr varMap a).bind fun x =>
        divByConst canProveGreaterEqual a x divisor.base false
      else some everything
    | .floorDiv => (visitExpr varMap b).bind fun divisor =>
      if divisor.isConst then (visitExpr varMap a).bind fun x =>
        divByConst canProveGreaterEqual a x divisor.base true
      else some everything
    | .mod => (visitExpr varMap b).bind fun divisor =>
      if divisor.isConst then (visitExpr varMap a).bind fun x =>
        modByConst canProveGreaterEqual a x divisor.base false
      else some everything
    | .floorMod => (visitExpr varMap b).bind fun divisor =>
      if divisor.isConst then (visitExpr varMap a).bind fun x =>
        modByConst canProveGreaterEqual a x divisor.base true
      else some everything
    | .shiftRight => (visitExpr varMap b).bind fun amount =>
      if amount.isConst then (oneShifted amount.base).bind fun val =>
        (visitExpr varMap a).bind fun x => divByConst canProveGreaterEqual a x val true
      else some everything
    | .bitwiseAnd => (visitExpr varMap b).bind fun mask =>
      if mask.isConst then (int64 (mask.base + 1)).bind fun next =>
        -- `Integer(b.base + 1)` keeps the low 32 bits
        match constPowerOfTwo (next.bmod (2 ^ 32)) with
        | some shift => (oneShifted shift).bind fun val =>
          (visitExpr varMap a).bind fun x => modByConst canProveGreaterEqual a x val true
        | none => some everything
      else some everything
    | _ => some everything
  | _, .not _ => some everything
  | _, .other _ => some everything

end Visit

def updateByIntersect (varMap : VarMap) (v : Var) (entry : Entry) : Option VarMap :=
  (intersect ((varMap v).getD everything) entry).map fun met =>
    Function.update varMap v (some met)

end Tvm.Arith.ModularSet
