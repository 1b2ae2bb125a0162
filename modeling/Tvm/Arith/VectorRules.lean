import Tvm.Arith.RewriteNode

/-!
# The vector rules of the rewriting simplifier

The branches `op->dtype.lanes() != 1` of `rewrite_simplify.cc`.  The rules for a `FloatImm` match
no integer vector.  The outer `none` is a failed `ICHECK`.
-/

namespace Tvm.Arith

/-- Vectors of scalar index expressions, or of conditions over them. -/
inductive VecExpr where
  | ramp (base stride : PrimExpr) (lanes : Nat)
  | broadcast (value : PrimExpr) (lanes : Nat)
  | binary (op : BinOp) (a b : VecExpr)
  | not (a : VecExpr)
  deriving DecidableEq, Repr

namespace VecExpr

def lanes : VecExpr → Nat
  | .ramp _ _ lanes | .broadcast _ lanes => lanes
  | .binary _ a _ => lanes a
  | .not a => lanes a

def lane (interp : Nat → Env → Option Int) (env : Env) (i : Nat) : VecExpr → Option Int
  | .ramp base stride _ =>
    (base.eval interp env).bind fun b => (stride.eval interp env).map fun s => b + i * s
  | .broadcast value _ => value.eval interp env
  | .binary op a b => (lane interp env i a).bind fun x => (lane interp env i b).bind (op.eval x)
  | .not a => (lane interp env i a).map fun x => truth (x = 0)

end VecExpr

section Rules

/-- `broadcast(x, lanes) op broadcast(y, lanes)`. -/
def broadcastRule (op : BinOp) : VecExpr → VecExpr → Option (Option VecExpr)
  | .broadcast x lanes, .broadcast y lanes' =>
    if lanes = lanes' then (makeBinary op x y).map fun value => some (.broadcast value lanes)
    else some none
  | _, _ => some none

def addVector : VecExpr → VecExpr → Option (Option VecExpr)
  | .ramp b1 s1 lanes, .ramp b2 s2 lanes' =>
    if lanes = lanes' then do
      let base ← makeBinary .add b1 b2
      let stride ← makeBinary .add s1 s2
      some (some (.ramp base stride lanes))
    else some none
  | .ramp b1 s1 lanes, .broadcast x lanes' =>
    if lanes = lanes' then (makeBinary .add b1 x).map fun base => some (.ramp base s1 lanes)
    else some none
  | .broadcast x lanes, .ramp b1 s1 lanes' =>
    if lanes = lanes' then (makeBinary .add x b1).map fun base => some (.ramp base s1 lanes)
    else some none
  | a, b => broadcastRule .add a b

def subVector : VecExpr → VecExpr → Option (Option VecExpr)
  | .ramp b1 s1 lanes, .ramp b2 s2 lanes' =>
    if lanes = lanes' then do
      let base ← makeBinary .sub b1 b2
      let stride ← makeBinary .sub s1 s2
      some (some (.ramp base stride lanes))
    else some none
  | .ramp b1 s1 lanes, .broadcast x lanes' =>
    if lanes = lanes' then (makeBinary .sub b1 x).map fun base => some (.ramp base s1 lanes)
    else some none
  | .broadcast x lanes, .ramp b1 s1 lanes' =>
    if lanes = lanes' then do
      let base ← makeBinary .sub x b1
      let stride ← makeBinary .sub (.intImm 0) s1
      some (some (.ramp base stride lanes))
    else some none
  | a, b => broadcastRule .sub a b

def mulVector : VecExpr → VecExpr → Option (Option VecExpr)
  | .ramp b1 s1 lanes, .broadcast x lanes' | .broadcast x lanes', .ramp b1 s1 lanes =>
    if lanes = lanes' then do
      let base ← makeBinary .mul b1 x
      let stride ← makeBinary .mul s1 x
      some (some (.ramp base stride lanes))
    else some none
  | a, b => broadcastRule .mul a b

variable (queries : Queries)

def divVector : VecExpr → VecExpr → Option (Option VecExpr)
  | .ramp b1 (.intImm c1) lanes, .broadcast (.intImm c2) lanes' =>
    if lanes = lanes' then
      if c2 = 0 then none
      else if c1.tmod c2 = 0 then do
        let base ← makeBinary .div b1 (.intImm c2)
        let stride ← makeBinary .div (.intImm c1) (.intImm c2)
        some (some (.ramp base stride lanes))
      else (queries.canProveGreaterEqual b1 0).bind fun nonneg =>
        let bmod := queries.modularSet b1
        if nonneg ∧ bmod.coeff.tmod c2 = 0 ∧
            bmod.base.tdiv c2 = (bmod.base + ((lanes : Int) - 1) * c1).tdiv c2 then
          (makeBinary .div b1 (.intImm c2)).map fun value => some (.broadcast value lanes)
        else some none
    else some none
  | a, b => broadcastRule .div a b

def modVector : VecExpr → VecExpr → Option (Option VecExpr)
  | .ramp b1 (.intImm c1) lanes, .broadcast (.intImm c2) lanes' =>
    if lanes = lanes' then
      if c2 = 0 then none
      else if c1.tmod c2 = 0 then
        (makeBinary .mod b1 (.intImm c2)).map fun value => some (.broadcast value lanes)
      else (queries.canProveGreaterEqual b1 0).bind fun nonneg =>
        let bmod := queries.modularSet b1
        if nonneg ∧ bmod.coeff.tmod c2 = 0 then
          (makeBinary .mod (.intImm bmod.base) (.intImm c2)).map fun base =>
            if bmod.base.tdiv c2 = (bmod.base + ((lanes : Int) - 1) * c1).tdiv c2 then
              some (.ramp base (.intImm c1) lanes)
            else
              some (.binary .mod (.ramp base (.intImm c1) lanes)
                (.broadcast (.intImm c2) lanes))
        else some none
    else some none
  | a, b => broadcastRule .mod a b

/-- "If all indices can be guaranteed to settle inside a coeff range". -/
def settlesInside (bmod : ModularSet.Entry) (lanes : Nat) (c1 c2 : Int) : Bool :=
  bmod.coeff ≠ 0 ∧ c2.tmod bmod.coeff = 0 ∧ bmod.base + ((lanes : Int) - 1) * c1 < bmod.coeff

def floorDivVector : VecExpr → VecExpr → Option (Option VecExpr)
  | .ramp b1 (.intImm c1) lanes, .broadcast (.intImm c2) lanes' =>
    if lanes = lanes' then
      if c2 = 0 then none
      else if c1.tmod c2 = 0 then do
        let base ← makeBinary .floorDiv b1 (.intImm c2)
        let stride ← makeBinary .floorDiv (.intImm c1) (.intImm c2)
        some (some (.ramp base stride lanes))
      else
        let bmod := queries.modularSet b1
        if bmod.base.fdiv c2 = (bmod.base + ((lanes : Int) - 1) * c1).fdiv c2 ∧
            (bmod.coeff.tmod c2 = 0 ∨ settlesInside bmod lanes c1 c2) then
          (makeBinary .floorDiv b1 (.intImm c2)).map fun value => some (.broadcast value lanes)
        else some none
    else some none
  | a, b => broadcastRule .floorDiv a b

/-- "floormod(ramp, bcast)" of `FloorModNode`. -/
def floorModVector : VecExpr → VecExpr → Option (Option VecExpr)
  | .ramp b1 (.intImm c1) lanes, .broadcast (.intImm c2) lanes' =>
    if lanes = lanes' then
      if c2 = 0 then none
      else if c1.tmod c2 = 0 then
        (makeBinary .floorMod b1 (.intImm c2)).map fun value => some (.broadcast value lanes)
      else
        let bmod := queries.modularSet b1
        let same := bmod.base.fdiv c2 = (bmod.base + ((lanes : Int) - 1) * c1).fdiv c2
        if same ∧ bmod.coeff.tmod c2 = 0 then
          (makeBinary .floorMod (.intImm bmod.base) (.intImm c2)).map fun base =>
            some (.ramp base (.intImm c1) lanes)
        else if same ∧ settlesInside bmod lanes c1 c2 then
          (makeBinary .floorMod b1 (.intImm c2)).map fun base =>
            some (.ramp base (.intImm c1) lanes)
        else if bmod.coeff.tmod c2 = 0 then
          (makeBinary .floorMod (.intImm bmod.base) (.intImm c2)).map fun base =>
            some (.binary .floorMod (.ramp base (.intImm c1) lanes)
              (.broadcast (.intImm c2) lanes))
        else some none
    else some none
  | a, b => broadcastRule .floorMod a b

/-- `op(op(x, broadcast(y, lanes)), broadcast(z, lanes))` of `MinNode` and of `MaxNode`. -/
def nestedVector (op : BinOp) : VecExpr → VecExpr → Option (Option VecExpr)
  | .binary inner x (.broadcast y lanes), .broadcast z lanes' =>
    if inner = op ∧ lanes = lanes' then
      (makeBinary op y z).map fun value => some (.binary op x (.broadcast value lanes))
    else some none
  | a, b => broadcastRule op a b

def ltVector : VecExpr → VecExpr → Option (Option VecExpr)
  | .ramp x s1 lanes, .ramp y s2 lanes' =>
    if s1 = s2 ∧ lanes = lanes' then
      (makeBinary .lt x y).map fun value => some (.broadcast value lanes)
    else some none
  | a, b => broadcastRule .lt a b

def vectorRules : VecExpr → Option (Option VecExpr)
  | .binary .add a b => addVector a b
  | .binary .sub a b => subVector a b
  | .binary .mul a b => mulVector a b
  | .binary .div a b => divVector queries a b
  | .binary .mod a b => modVector queries a b
  | .binary .floorDiv a b => floorDivVector queries a b
  | .binary .floorMod a b => floorModVector queries a b
  | .binary .min a b => nestedVector .min a b
  | .binary .max a b => nestedVector .max a b
  | .binary .eq a b => broadcastRule .eq a b
  | .binary .lt a b => ltVector a b
  | .binary .and a b => broadcastRule .and a b
  | .binary .or a b => broadcastRule .or a b
  | .not (.broadcast x lanes) => some (some (.broadcast (.not x) lanes))
  | _ => some none

end Rules

end Tvm.Arith
