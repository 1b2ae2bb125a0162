import Tvm.Arith.RewriteRules

/-!
# The rules of the rewrite simplifier: comparisons and conditions
-/

namespace Tvm.Arith.Rules

abbrev cfalse : Pat := .lit 0

abbrev ctrue : Pat := .lit 1

def eqRules : List Rule :=
  [ tryRewrite (equal (x - c1) 0) (equal x c1),
    tryRewrite (equal (c1 - x) 0) (equal x c1),
    tryRewrite (equal (x + c1) 0) (equal x (0 - c1)),
    tryRewrite (equal (x * y) 0) (equal x 0 ||| equal y 0) ]

def ltCancelRules : List Rule :=
  [ tryRewrite (less (x + y) (x + z)) (less y z),
    tryRewrite (less (x + y) (z + x)) (less y z),
    tryRewrite (less (y + x) (x + z)) (less y z),
    tryRewrite (less (y + x) (z + x)) (less y z),
    tryRewrite (less (y - x) (z - x)) (less y z),
    tryRewrite (less (x - y) (x - z)) (less z y),
    tryRewrite (less x (x + z)) (less 0 z),
    tryRewrite (less x (z + x)) (less 0 z),
    tryRewrite (less x (x - z)) (less z 0),
    tryRewrite (less c1 (x + c2)) (less (c1 - c2) x),
    tryRewrite (less c1 (c2 - x)) (less x (c2 - c1)) ]

/-- Scaling, and constant cancelation by truncated division. -/
def ltScaleRules : List Rule :=
  [ tryRewriteIf (less (x * c1) (y * c1)) (less x y) (fun c => c.c1 > 0),
    tryRewriteIf (less (x * c1) (y * c1)) (less y x) (fun c => c.c1 < 0),
    tryRewriteIf (less (x * c2) c1) (less x (truncdiv (c1 - 1) c2 + 1))
      (fun c => c.c1 > 0 ∧ c.c2 > 0),
    tryRewriteIf (less (x * c2) c1) (less x (truncdiv c1 c2)) (fun c => c.c1 ≤ 0 ∧ c.c2 > 0),
    tryRewriteIf (less (x * c2) c1) (less (truncdiv (c1 - 1) c2 - 1) x)
      (fun c => c.c1 > 0 ∧ c.c2 < 0),
    tryRewriteIf (less (x * c2) c1) (less (truncdiv c1 c2) x) (fun c => c.c1 ≤ 0 ∧ c.c2 < 0),
    tryRewriteIf (less c1 (x * c2)) (less (truncdiv (c1 + 1) c2 - 1) x)
      (fun c => c.c1 < 0 ∧ c.c2 > 0),
    tryRewriteIf (less c1 (x * c2)) (less (truncdiv c1 c2) x) (fun c => c.c1 ≥ 0 ∧ c.c2 > 0),
    tryRewriteIf (less c1 (x * c2)) (less x (truncdiv (c1 + 1) c2 + 1))
      (fun c => c.c1 < 0 ∧ c.c2 < 0),
    tryRewriteIf (less c1 (x * c2)) (less x (truncdiv c1 c2)) (fun c => c.c1 ≥ 0 ∧ c.c2 < 0) ]

def ltTruncDivRules : List Rule :=
  [ tryRewriteIf (less (truncdiv x c1) c2) (less x (c1 * c2)) (fun c => c.c1 > 0 ∧ c.c2 > 0),
    tryRewriteIf (less (truncdiv x c1) c2) (less x (c1 * (c2 - 1) + 1))
      (fun c => c.c1 > 0 ∧ c.c2 ≤ 0),
    tryRewriteIf (less c1 (truncdiv x c2)) (less ((c1 + 1) * c2 - 1) x)
      (fun c => c.c1 ≥ 0 ∧ c.c2 > 0),
    tryRewriteIf (less c1 (truncdiv x c2)) (less (c1 * c2) x) (fun c => c.c1 < 0 ∧ c.c2 > 0) ]

/-- Invariance for any div mod: `x - (x / c1) * c1 == x % c1`. -/
def ltTruncModRules : List Rule :=
  [ tryRewriteIf (less (truncdiv x c1 * c1) x) (less 0 (truncmod x c1)) (fun c => c.c1 > 0),
    tryRewriteIf (less (truncdiv x c1 * c1) (x + y)) (less 0 (truncmod x c1 + y))
      (fun c => c.c1 > 0),
    tryRewriteIf (less (truncdiv x c1 * c1) (x - y)) (less y (truncmod x c1)) (fun c => c.c1 > 0),
    tryRewriteIf (less (truncdiv (x + c2) c1 * c1) x) (less c2 (truncmod (x + c2) c1))
      (fun c => c.c1 > 0),
    tryRewriteIf (less (truncdiv (x + c2) c1 * c1) (x + y)) (less c2 (truncmod (x + c2) c1 + y))
      (fun c => c.c1 > 0),
    tryRewriteIf (less (truncdiv (x + c2) c1 * c1) (x - y))
      (less y (truncmod (x + c2) c1 + (0 - c2))) (fun c => c.c1 > 0) ]

def ltFloorDivRules : List Rule :=
  [ tryRewriteIf (less (floordiv x c1) c2) (less x (c1 * c2)) (fun c => c.c1 > 0),
    tryRewriteIf (less c1 (floordiv x c2)) (less ((c1 + 1) * c2 - 1) x) (fun c => c.c2 > 0) ]

def ltFloorModRules : List Rule :=
  [ tryRewriteIf (less (floordiv x c1 * c1) x) (less 0 (floormod x c1)) (fun c => c.c1 > 0),
    tryRewriteIf (less (floordiv x c1 * c1) (x + y)) (less 0 (floormod x c1 + y))
      (fun c => c.c1 > 0),
    tryRewriteIf (less (floordiv x c1 * c1) (x - y)) (less y (floormod x c1)) (fun c => c.c1 > 0),
    tryRewriteIf (less (floordiv (x + c2) c1 * c1) x) (less c2 (floormod (x + c2) c1))
      (fun c => c.c1 > 0),
    tryRewriteIf (less (floordiv (x + c2) c1 * c1) (x + y)) (less c2 (floormod (x + c2) c1 + y))
      (fun c => c.c1 > 0),
    tryRewriteIf (less (floordiv (x + c2) c1 * c1) (x - y))
      (less y (floormod (x + c2) c1 + (0 - c2))) (fun c => c.c1 > 0) ]

def ltCanonicalRules : List Rule :=
  [ tryRecursiveRewrite (less (min x y) z) (less x z ||| less y z),
    tryRecursiveRewrite (less (max x y) z) (less x z &&& less y z),
    tryRecursiveRewrite (less z (min x y)) (less z x &&& less z y),
    tryRecursiveRewrite (less z (max x y)) (less z x ||| less z y),
    tryRecursiveRewrite (less x (c1 - y)) (less (x + y) c1),
    tryRecursiveRewrite (less x (c1 + y)) (less (x - y) c1),
    tryRecursiveRewrite (less (c1 - y) x) (less c1 (x + y)),
    tryRecursiveRewrite (less (c1 + y) x) (less c1 (x - y)),
    tryRecursiveRewrite (less (x + c1) c2) (less x (c2 - c1)),
    tryRecursiveRewrite (less (x - c1) c2) (less x (c2 + c1)),
    tryRewrite (less (x - c1) 0) (less x c1) ]

def ltRules : List Rule :=
  ltCancelRules ++ ltScaleRules ++ ltTruncDivRules ++ ltTruncModRules ++ ltFloorDivRules ++
    ltFloorModRules ++ ltCanonicalRules

def notRules : List Rule :=
  [ tryRewrite (~~~(~~~x)) x,
    tryRewrite (~~~(lessEqual x y)) (less y x),
    tryRewrite (~~~(greaterEqual x y)) (less x y),
    tryRewrite (~~~(less x y)) (lessEqual y x),
    tryRewrite (~~~(greater x y)) (lessEqual x y),
    tryRewrite (~~~(equal x y)) (notEqual x y),
    tryRewrite (~~~(notEqual x y)) (equal x y),
    tryRecursiveRewrite (~~~(x ||| y)) (~~~x &&& ~~~y),
    tryRecursiveRewrite (~~~(x &&& y)) (~~~x ||| ~~~y) ]

def andRules : List Rule :=
  [ tryRewrite (equal x y &&& notEqual x y) cfalse,
    tryRewrite (notEqual x y &&& equal x y) cfalse,
    tryRewrite (x &&& ~~~x) cfalse,
    tryRewrite (lessEqual x y &&& less y x) cfalse,
    tryRewrite (less y x &&& lessEqual x y) cfalse,
    tryRewriteIf (less x c1 &&& less c2 x) cfalse (fun c => c.c2 + 1 ≥ c.c1),
    tryRewriteIf (less c2 x &&& less x c1) cfalse (fun c => c.c2 + 1 ≥ c.c1),
    tryRewriteIf (less x c1 &&& lessEqual c2 x) cfalse (fun c => c.c2 ≥ c.c1),
    tryRewriteIf (lessEqual c2 x &&& less x c1) cfalse (fun c => c.c2 ≥ c.c1),
    tryRewriteIf (lessEqual x c1 &&& less c2 x) cfalse (fun c => c.c2 ≥ c.c1),
    tryRewriteIf (less c2 x &&& lessEqual x c1) cfalse (fun c => c.c2 ≥ c.c1),
    tryRewriteIf (lessEqual x c1 &&& lessEqual c2 x) cfalse (fun c => c.c2 > c.c1),
    tryRewriteIf (lessEqual c2 x &&& lessEqual x c1) cfalse (fun c => c.c2 > c.c1),
    tryRewrite (equal x c1 &&& notEqual x c2) (equal x c1 &&& notEqual c1 c2),
    tryRewrite (notEqual x c2 &&& equal x c1) (equal x c1 &&& notEqual c1 c2) ]

def orRules : List Rule :=
  [ tryRewrite (equal x y ||| notEqual x y) ctrue,
    tryRewrite (notEqual x y ||| equal x y) ctrue,
    tryRewrite (x ||| ~~~x) ctrue,
    tryRewrite (lessEqual x y ||| less y x) ctrue,
    tryRewrite (less y x ||| lessEqual x y) ctrue,
    tryRewriteIf (less x c1 ||| less c2 x) ctrue (fun c => c.c2 < c.c1),
    tryRewriteIf (less c2 x ||| less x c1) ctrue (fun c => c.c2 < c.c1),
    tryRewriteIf (lessEqual x c1 ||| less c2 x) ctrue (fun c => c.c2 ≤ c.c1),
    tryRewriteIf (less c2 x ||| lessEqual x c1) ctrue (fun c => c.c2 ≤ c.c1),
    tryRewriteIf (less x c1 ||| lessEqual c2 x) ctrue (fun c => c.c2 ≤ c.c1),
    tryRewriteIf (lessEqual c2 x ||| less x c1) ctrue (fun c => c.c2 ≤ c.c1),
    tryRewriteIf (lessEqual x c1 ||| lessEqual c2 x) ctrue (fun c => c.c2 ≤ c.c1 + 1),
    tryRewriteIf (lessEqual c2 x ||| lessEqual x c1) ctrue (fun c => c.c2 ≤ c.c1 + 1),
    tryRewrite (notEqual x c1 ||| equal x c2) (notEqual x c1 ||| equal c1 c2),
    tryRewrite (equal x c2 ||| notEqual x c1) (notEqual x c1 ||| equal c1 c2) ]

def selectRules : List Rule :=
  [tryRewrite (select x y y) y]

end Tvm.Arith.Rules
