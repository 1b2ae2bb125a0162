import Tvm.Arith.Pattern

/-!
# The rules of the rewrite simplifier: `+`, `-` and `*`

The tables of `rewrite_simplify.cc` for scalar index expressions, in the order of the source.
A rule fires where its pattern matches, its condition on the literals holds and every query is
answered positively.
-/

namespace Tvm.Arith

/-- What the condition of a rule asks the analyzer, about expressions built from the match. -/
inductive Query where
  | canProveGreaterEqual (e : Pat) (bound : Consts → Int)
  | canProveEqualZero (e : Pat)

inductive Label where
  | plain | truncDivDifference | roundUpMin
  deriving DecidableEq, Repr

structure Rule where
  source : Pat
  result : Pat
  cond : Consts → Bool
  queries : List Query
  recursive : Bool
  label : Label

namespace Pat

instance : Add Pat := ⟨.binary .add⟩

instance : Sub Pat := ⟨.binary .sub⟩

instance : Mul Pat := ⟨.binary .mul⟩

instance : Min Pat := ⟨.binary .min⟩

instance : Max Pat := ⟨.binary .max⟩

instance (n : Nat) : OfNat Pat n := ⟨.lit n⟩

instance : AndOp Pat := ⟨.binary .and⟩

instance : OrOp Pat := ⟨.binary .or⟩

instance : Complement Pat := ⟨.not⟩

end Pat

namespace Rules

abbrev x : Pat := .var .x

abbrev y : Pat := .var .y

abbrev z : Pat := .var .z

abbrev b1 : Pat := .var .b1

abbrev b2 : Pat := .var .b2

abbrev s1 : Pat := .var .s1

abbrev s2 : Pat := .var .s2

abbrev c1 : Pat := .imm .c1

abbrev c2 : Pat := .imm .c2

abbrev c3 : Pat := .imm .c3

abbrev truncdiv : Pat → Pat → Pat := .binary .div

abbrev truncmod : Pat → Pat → Pat := .binary .mod

abbrev floordiv : Pat → Pat → Pat := .binary .floorDiv

abbrev floormod : Pat → Pat → Pat := .binary .floorMod

abbrev equal : Pat → Pat → Pat := .binary .eq

abbrev notEqual : Pat → Pat → Pat := .binary .ne

abbrev less : Pat → Pat → Pat := .binary .lt

abbrev lessEqual : Pat → Pat → Pat := .binary .le

abbrev greater : Pat → Pat → Pat := .binary .gt

abbrev greaterEqual : Pat → Pat → Pat := .binary .ge

abbrev select : Pat → Pat → Pat → Pat := .select

/-- `TVM_TRY_REWRITE_IF` with queries of the analyzer. -/
abbrev tryRewriteProve (source result : Pat) (cond : Consts → Bool) (queries : List Query) : Rule :=
  ⟨source, result, cond, queries, false, .plain⟩

abbrev tryRewriteIf (source result : Pat) (cond : Consts → Bool) : Rule :=
  ⟨source, result, cond, [], false, .plain⟩

abbrev tryRewrite (source result : Pat) : Rule :=
  ⟨source, result, fun _ => true, [], false, .plain⟩

abbrev tryRecursiveRewriteIf (source result : Pat) (cond : Consts → Bool) : Rule :=
  ⟨source, result, cond, [], true, .plain⟩

abbrev tryRecursiveRewrite (source result : Pat) : Rule :=
  ⟨source, result, fun _ => true, [], true, .plain⟩

/-- `CanProveGreaterEqual(e.Eval(), 0)`. -/
abbrev nonneg (e : Pat) : Query :=
  .canProveGreaterEqual e fun _ => 0

/-- `CanProveEqual(e.Eval(), 0)`. -/
abbrev isZero (e : Pat) : Query :=
  .canProveEqualZero e

def addCancelRules : List Rule :=
  [ tryRewrite ((x - y) + y) x,
    tryRewrite (x + (y - x)) y,
    tryRewrite ((x - y) + (y - z)) (x - z),
    tryRewrite ((x - y) + (z - x)) (z - y),
    tryRewrite (min x (y - z) + z) (min (x + z) y),
    tryRewrite (min (x - z) y + z) (min x (y + z)),
    tryRewrite (max x (y - z) + z) (max (x + z) y),
    tryRewrite (max (x - z) y + z) (max x (y + z)),
    tryRewriteIf (min x (y + z * c1) + z * c2) (min (x + z * c2) y) (fun c => c.c1 = -c.c2),
    tryRewriteIf (max x (y + z * c1) + z * c2) (max (x + z * c2) y) (fun c => c.c1 = -c.c2),
    tryRewriteIf (min (y + z * c1) x + z * c2) (min (x + z * c2) y) (fun c => c.c1 = -c.c2),
    tryRewriteIf (max (y + z * c1) x + z * c2) (max (x + z * c2) y) (fun c => c.c1 = -c.c2),
    tryRewrite (max x y + min x y) (x + y),
    tryRewrite (min x y + max x y) (x + y),
    tryRewrite (max x y + min y x) (x + y),
    tryRewrite (min x y + max y x) (x + y),
    tryRewriteIf (min x (y + c1) + c2) (min (x + c2) y) (fun c => c.c1 = -c.c2),
    tryRewriteIf (min (x + c1) y + c2) (min x (y + c2)) (fun c => c.c1 = -c.c2),
    tryRewriteIf (max x (y + c1) + c2) (max (x + c2) y) (fun c => c.c1 = -c.c2),
    tryRewriteIf (max (x + c1) y + c2) (max x (y + c2)) (fun c => c.c1 = -c.c2) ]

/-- Constant folding and mul co-efficient folding. -/
def addFoldRules : List Rule :=
  [ tryRewrite ((x + c1) + c2) (x + (c1 + c2)),
    tryRewrite (x + x) (x * 2),
    tryRewrite (x * y + x) (x * (y + 1)),
    tryRewrite (y * x + x) (x * (y + 1)),
    tryRewrite (x + y * x) (x * (1 + y)),
    tryRewrite (x + x * y) (x * (1 + y)),
    tryRewrite (x * y + x * z) (x * (y + z)),
    tryRewrite (y * x + x * z) (x * (y + z)),
    tryRewrite (x * y + z * x) (x * (y + z)),
    tryRewrite (y * x + z * x) (x * (y + z)) ]

def addTruncRules : List Rule :=
  [tryRewrite (truncdiv x c1 * c1 + truncmod x c1) x]

def addFloorRules : List Rule :=
  [ tryRewrite (floordiv x y * y + floormod x y) x,
    tryRewrite (y * floordiv x y + floormod x y) x,
    tryRewrite (floormod x y + floordiv x y * y) x,
    tryRewrite (floormod x y + y * floordiv x y) x,
    tryRewriteIf (floordiv (floormod x c2 + c1) c2 + floordiv x c2) (floordiv (x + c1) c2)
      (fun c => c.c2 > 0) ]

def addCanonicalRules : List Rule :=
  [ tryRecursiveRewrite (x + (c1 - y)) ((x - y) + c1),
    tryRecursiveRewrite ((c1 - y) + x) ((x - y) + c1),
    tryRecursiveRewrite (x + c1 + y) ((x + y) + c1),
    tryRecursiveRewrite (x + (c1 + y)) ((x + y) + c1),
    tryRecursiveRewrite (x + max y z) (max y z + x),
    tryRecursiveRewrite (x + min y z) (min y z + x) ]

def addTruncCanonicalRules : List Rule :=
  [tryRecursiveRewrite (truncmod y c1 + x * c1) (x * c1 + truncmod y c1)]

def addFloorCanonicalRules : List Rule :=
  [tryRecursiveRewrite (floormod y c1 + x * c1) (x * c1 + floormod y c1)]

def addSelectRules : List Rule :=
  [tryRewrite (select x b1 b2 + select x s1 s2) (select x (b1 + s1) (b2 + s2))]

def addRules : List Rule :=
  addCancelRules ++ addFoldRules ++ addTruncRules ++ addFloorRules ++ addCanonicalRules ++
    addTruncCanonicalRules ++ addFloorCanonicalRules ++ addSelectRules

def subCancelRules : List Rule :=
  [ tryRewrite ((x + y) - y) x,
    tryRewrite ((x + y) - x) y,
    tryRewrite (x - (y + x)) (0 - y),
    tryRewrite (x - (x + y)) (0 - y),
    tryRewrite (min x y - x) (min 0 (y - x)),
    tryRewrite (min x y - y) (min (x - y) 0),
    tryRewrite (max x y - x) (max 0 (y - x)),
    tryRewrite (max x y - y) (max (x - y) 0),
    tryRewrite (x - max x y) (min 0 (x - y)),
    tryRewrite (y - max x y) (min (y - x) 0),
    tryRewrite (x - min x y) (max 0 (x - y)),
    tryRewrite (y - min x y) (max (y - x) 0) ]

/-- Mul co-efficient folding. -/
def subFoldRules : List Rule :=
  [ tryRewrite (x - x) 0,
    tryRewrite (x * y - x) (x * (y - 1)),
    tryRewrite (y * x - x) (x * (y - 1)),
    tryRewrite (x - y * x) (x * (1 - y)),
    tryRewrite (x - x * y) (x * (1 - y)),
    tryRewrite (x * y - x * z) (x * (y - z)),
    tryRewrite (y * x - x * z) (x * (y - z)),
    tryRewrite (x * y - z * x) (x * (y - z)),
    tryRewrite (y * x - z * x) (x * (y - z)) ]

/-- Constant cancelation and cancelation with 4 operands. -/
def subFourRules : List Rule :=
  [ tryRewrite ((x + c1) - c2) (x + (c1 - c2)),
    tryRewrite ((c1 - x) - (c2 - y)) ((y - x) + (c1 - c2)),
    tryRewrite ((x + y) - (x + z)) (y - z),
    tryRewrite ((x + y) - (z + x)) (y - z),
    tryRewrite ((y + x) - (z + x)) (y - z),
    tryRewrite ((y + x) - (x + z)) (y - z),
    tryRewrite (min (x + y) z - x) (min y (z - x)),
    tryRewrite (min (y + x) z - x) (min y (z - x)),
    tryRewrite (min z (x + y) - x) (min (z - x) y),
    tryRewrite (min z (y + x) - x) (min (z - x) y),
    tryRewrite (max (x + y) z - x) (max y (z - x)),
    tryRewrite (max (y + x) z - x) (max y (z - x)),
    tryRewrite (max z (x + y) - x) (max (z - x) y),
    tryRewrite (max z (y + x) - x) (max (z - x) y),
    tryRewrite (x - min (x + y) z) (max (0 - y) (x - z)),
    tryRewrite (x - min (y + x) z) (max (0 - y) (x - z)),
    tryRewrite (x - min z (x + y)) (max (x - z) (0 - y)),
    tryRewrite (x - min z (y + x)) (max (x - z) (0 - y)),
    tryRewrite (min x y - min y x) 0,
    tryRewrite (max x y - max y x) 0 ]

def subProveRules : List Rule :=
  [ tryRewriteProve (min b1 b2 - min s1 s2) (b1 - s1) (fun _ => true)
      [isZero ((b1 - s1) - (b2 - s2))],
    tryRewriteProve (min b1 b2 - min s1 s2) (b1 - s2) (fun _ => true)
      [isZero ((b1 - s2) - (b2 - s1))],
    tryRewriteProve (max b1 b2 - max s1 s2) (b1 - s1) (fun _ => true)
      [isZero ((b1 - s1) - (b2 - s2))],
    tryRewriteProve (max b1 b2 - max s1 s2) (b1 - s2) (fun _ => true)
      [isZero ((b1 - s2) - (b2 - s1))] ]

def truncDivDifference : Rule :=
  { tryRewriteProve (truncdiv (x + c1) c3 - truncdiv (x + c2) c3)
      (truncdiv (truncmod (x + floormod c2 c3) c3 + (c1 - c2)) c3)
      (fun c => c.c1 ≥ c.c2 ∧ c.c3 > 0) [.canProveGreaterEqual x fun c => -c.c2] with
    label := .truncDivDifference }

def subTruncModRules : List Rule :=
  [ tryRewriteIf (x - truncdiv x c1 * c1) (truncmod x c1) (fun c => c.c1 ≠ 0),
    tryRewriteIf (truncdiv x c1 * c1 - x) (0 - truncmod x c1) (fun c => c.c1 ≠ 0),
    tryRewriteIf (x - truncdiv (x + y) c1 * c1) (truncmod (x + y) c1 - y) (fun c => c.c1 ≠ 0),
    tryRewriteIf (truncdiv (x + y) c1 * c1 - x) (y - truncmod (x + y) c1) (fun c => c.c1 ≠ 0),
    tryRewriteIf (x - truncdiv (x - y) c1 * c1) (truncmod (x - y) c1 + y) (fun c => c.c1 ≠ 0),
    tryRewriteIf (truncdiv (x - y) c1 * c1 - x) (0 - truncmod (x - y) c1 - y) (fun c => c.c1 ≠ 0),
    tryRewriteIf (x * c2 - truncdiv x c1 * c3) (truncmod x c1 * c2)
      (fun c => c.c1 ≠ 0 ∧ c.c3 = c.c1 * c.c2),
    tryRewriteIf (truncdiv x c1 * c3 - x * c2) (0 - truncmod x c1 * c2)
      (fun c => c.c1 ≠ 0 ∧ c.c3 = c.c1 * c.c2),
    tryRewriteIf (x * c2 - truncdiv (x + y) c1 * c3) ((truncmod (x + y) c1 - y) * c2)
      (fun c => c.c1 ≠ 0 ∧ c.c3 = c.c1 * c.c2),
    tryRewriteIf (truncdiv (x + y) c1 * c3 - x * c2) ((y - truncmod (x + y) c1) * c2)
      (fun c => c.c1 ≠ 0 ∧ c.c3 = c.c1 * c.c2),
    tryRewriteIf (x * c2 - truncdiv (x - y) c1 * c3) ((truncmod (x - y) c1 + y) * c2)
      (fun c => c.c1 ≠ 0 ∧ c.c3 = c.c1 * c.c2),
    tryRewriteIf (truncdiv (x - y) c1 * c3 - x * c2) ((0 - truncmod (x - y) c1 - y) * c2)
      (fun c => c.c1 ≠ 0 ∧ c.c3 = c.c1 * c.c2) ]

def subTruncDivRules : List Rule :=
  [ truncDivDifference,
    tryRewriteProve (truncdiv (x + c1) c3 - truncdiv x c3) (truncdiv (truncmod x c3 + c1) c3)
      (fun c => c.c1 ≥ 0 ∧ c.c3 > 0) [nonneg x] ]

def subFloorModRules : List Rule :=
  [ tryRewriteIf (x - floordiv x c1 * c1) (floormod x c1) (fun c => c.c1 ≠ 0),
    tryRewriteIf (floordiv x c1 * c1 - x) (0 - floormod x c1) (fun c => c.c1 ≠ 0),
    tryRewriteIf (x - floordiv (x + y) c1 * c1) (floormod (x + y) c1 - y) (fun c => c.c1 ≠ 0),
    tryRewriteIf (floordiv (x + y) c1 * c1 - x) (y - floormod (x + y) c1) (fun c => c.c1 ≠ 0),
    tryRewriteIf (x - floordiv (x - y) c1 * c1) (floormod (x - y) c1 + y) (fun c => c.c1 ≠ 0),
    tryRewriteIf (floordiv (x - y) c1 * c1 - x) (0 - floormod (x - y) c1 - y) (fun c => c.c1 ≠ 0),
    tryRewriteIf (x * c2 - floordiv x c1 * c3) (floormod x c1 * c2)
      (fun c => c.c1 ≠ 0 ∧ c.c3 = c.c1 * c.c2),
    tryRewriteIf (floordiv x c1 * c3 - x * c2) (0 - floormod x c1 * c2)
      (fun c => c.c1 ≠ 0 ∧ c.c3 = c.c1 * c.c2),
    tryRewriteIf (x * c2 - floordiv (x + y) c1 * c3) ((floormod (x + y) c1 - y) * c2)
      (fun c => c.c1 ≠ 0 ∧ c.c3 = c.c1 * c.c2),
    tryRewriteIf (floordiv (x + y) c1 * c3 - x * c2) ((y - floormod (x + y) c1) * c2)
      (fun c => c.c1 ≠ 0 ∧ c.c3 = c.c1 * c.c2),
    tryRewriteIf (x * c2 - floordiv (x - y) c1 * c3) ((floormod (x - y) c1 + y) * c2)
      (fun c => c.c1 ≠ 0 ∧ c.c3 = c.c1 * c.c2),
    tryRewriteIf (floordiv (x - y) c1 * c3 - x * c2) ((0 - floormod (x - y) c1 - y) * c2)
      (fun c => c.c1 ≠ 0 ∧ c.c3 = c.c1 * c.c2) ]

def subFloorDivRules : List Rule :=
  [ tryRewriteIf (floordiv (x + c1) c3 - floordiv (x + c2) c3)
      (floordiv (floormod (x + floormod c2 c3) c3 + (c1 - c2)) c3) (fun c => c.c3 > 0),
    tryRewriteIf (floordiv (x + c1) c3 - floordiv x c3) (floordiv (floormod x c3 + c1) c3)
      (fun c => c.c3 > 0) ]

def subCanonicalRules : List Rule :=
  [ tryRewrite (x - c1) (x + (0 - c1)),
    tryRecursiveRewrite ((x + c1) - y) ((x - y) + c1),
    tryRecursiveRewrite (x - (y - z)) ((x + z) - y),
    tryRecursiveRewrite (x - y * c1) (x + y * (0 - c1)) ]

def subSelectRules : List Rule :=
  [ tryRewrite (select x b1 b2 - select x s1 s2) (select x (b1 - s1) (b2 - s2)),
    tryRewrite (select x y z - z) (select x (y - z) 0),
    tryRewrite (select x y z - y) (select x 0 (z - y)) ]

def subRules : List Rule :=
  subCancelRules ++ subFoldRules ++ subFourRules ++ subProveRules ++ subTruncModRules ++
    subTruncDivRules ++ subFloorModRules ++ subFloorDivRules ++ subCanonicalRules ++
    subSelectRules

def mulFoldRules : List Rule :=
  [ tryRewrite ((x + c1) * c2) (x * c2 + c1 * c2),
    tryRewrite ((x * c1) * c2) (x * (c1 * c2)),
    tryRewrite (min x y * max x y) (x * y),
    tryRewrite (max x y * min x y) (x * y) ]

/-- Two representations of `const*ceildiv(x, c1)`. -/
def mulFloorRules : List Rule :=
  [tryRewriteIf (floordiv (x - floormod x c2) c1 * c1) (x - floormod x c2)
    (fun c => c.c1 = -c.c2)]

def mulCanonicalRules : List Rule :=
  [ tryRecursiveRewrite (x * (c1 * y)) ((x * y) * c1),
    tryRecursiveRewrite (c1 * x) (x * c1),
    tryRecursiveRewriteIf ((x - y) * c1) ((y - x) * (0 - c1)) (fun c => c.c1 < 0) ]

def mulRules : List Rule :=
  mulFoldRules ++ mulFloorRules ++ mulCanonicalRules

end Rules

end Tvm.Arith
