import Tvm.Arith.RewriteRules

/-!
# The rules of the rewrite simplifier: `min` and `max`
-/

namespace Tvm.Arith.Rules

/-- `c2 > 0 && c1 + 1 == c2`, the condition of the rounding-up rules. -/
def roundsUp (c : Consts) : Bool :=
  c.c2 > 0 ∧ c.c1 + 1 = c.c2

def minSelfRules : List Rule :=
  [tryRewrite (min x x) x]

def truncRoundUpMin : Rule :=
  { tryRewriteProve (min (truncdiv (x + c1) c2 * c2) (max x c2)) (max x c2) roundsUp [nonneg x] with
    label := .roundUpMin }

def truncRoundUpMinSwapped : Rule :=
  { tryRewriteProve (min (max x c2) (truncdiv (x + c1) c2 * c2)) (max x c2) roundsUp [nonneg x] with
    label := .roundUpMin }

def floorRoundUpMin : Rule :=
  { tryRewriteIf (min (floordiv (x + c1) c2 * c2) (max x c2)) (max x c2) roundsUp with
    label := .roundUpMin }

def floorRoundUpMinSwapped : Rule :=
  { tryRewriteIf (min (max x c2) (floordiv (x + c1) c2 * c2)) (max x c2) roundsUp with
    label := .roundUpMin }

def minOffsetRules : List Rule :=
  [ tryRewriteIf (min (x + c1) (x + c2)) (x + c1) (fun c => c.c1 < c.c2),
    tryRewriteIf (min (x + c1) (x + c2)) (x + c2) (fun c => ¬c.c1 < c.c2),
    tryRewriteIf (min (x + c1) x) (x + c1) (fun c => c.c1 < 0),
    tryRewriteIf (min (x + c1) x) x (fun c => ¬c.c1 < 0),
    tryRewriteIf (min x (x + c1)) (x + c1) (fun c => c.c1 < 0),
    tryRewriteIf (min x (x + c1)) x (fun c => ¬c.c1 < 0),
    tryRewriteIf (min (c1 - x) (c2 - x)) (c1 - x) (fun c => c.c1 < c.c2),
    tryRewriteIf (min (c1 - x) (c2 - x)) (c2 - x) (fun c => ¬c.c1 < c.c2) ]

/-- Divide up rounding, with truncated and with floored division. -/
def minRoundUpRules : List Rule :=
  [ tryRewriteIf (min (truncdiv (x + c1) c2 * c2) x) x roundsUp,
    truncRoundUpMin,
    tryRewriteIf (min x (truncdiv (x + c1) c2 * c2)) x roundsUp,
    truncRoundUpMinSwapped,
    tryRewriteIf (min (floordiv (x + c1) c2 * c2) x) x roundsUp,
    floorRoundUpMin,
    tryRewriteIf (min x (floordiv (x + c1) c2 * c2)) x roundsUp,
    floorRoundUpMinSwapped,
    tryRewriteIf (min x (floordiv x c2 * c2)) (floordiv x c2 * c2) (fun c => c.c2 > 0),
    tryRewriteIf (min (floordiv x c2 * c2) x) (floordiv x c2 * c2) (fun c => c.c2 > 0) ]

def minLatticeRules : List Rule :=
  [ tryRewrite (min (max x y) (min x y)) (min x y),
    tryRewrite (min (max x y) (min y x)) (min x y),
    tryRewrite (min (min x y) (max x y)) (min x y),
    tryRewrite (min (min x y) (max y x)) (min x y),
    tryRewrite (min (max x y) x) x,
    tryRewrite (min (max x y) y) y,
    tryRewrite (min (min x y) x) (min x y),
    tryRewrite (min (min x y) y) (min x y),
    tryRewrite (min x (max x y)) x,
    tryRewrite (min y (max x y)) y,
    tryRewrite (min x (min x y)) (min x y),
    tryRewrite (min y (min x y)) (min x y),
    tryRewrite (min (min (min x y) z) y) (min (min x y) z),
    tryRewrite (min (min (min (min x y) z) s1) y) (min (min (min x y) z) s1),
    tryRewrite (min (min (min (min (min x y) z) s1) s2) y) (min (min (min (min x y) z) s1) s2),
    tryRewrite (min (max x y) (max x z)) (max (min y z) x),
    tryRewrite (min (max x y) (max z x)) (max (min y z) x),
    tryRewrite (min (max y x) (max x z)) (max (min y z) x),
    tryRewrite (min (max y x) (max z x)) (max (min y z) x),
    tryRewrite (min (min x y) (min x z)) (min (min y z) x),
    tryRewrite (min (min x y) (min z x)) (min (min y z) x),
    tryRewrite (min (min y x) (min x z)) (min (min y z) x),
    tryRewrite (min (min y x) (min z x)) (min (min y z) x),
    tryRewrite (min (y + x) (z + x)) (min y z + x),
    tryRewrite (min (y + x) (x + z)) (min y z + x),
    tryRewrite (min (x + y) (x + z)) (min y z + x),
    tryRewrite (min (x + y) (z + x)) (min y z + x),
    -- sub distribution
    tryRewrite (min (y - x) (z - x)) (min y z - x),
    tryRewrite (min (x - y) (x - z)) (x - max y z),
    -- constant folding rule
    tryRewrite (min (min x c1) c2) (min x (min c1 c2)) ]

def minScaleRules : List Rule :=
  [ tryRewriteIf (min (truncdiv x c1) (truncdiv y c1)) (truncdiv (min x y) c1) (fun c => c.c1 > 0),
    tryRewriteIf (min (truncdiv x c1) (truncdiv y c1)) (truncdiv (max x y) c1) (fun c => ¬c.c1 > 0),
    tryRewriteIf (min (floordiv x c1) (floordiv y c1)) (floordiv (min x y) c1) (fun c => c.c1 > 0),
    tryRewriteIf (min (floordiv x c1) (floordiv y c1)) (floordiv (max x y) c1) (fun c => ¬c.c1 > 0),
    tryRewriteIf (min (x * c1) (y * c1)) (min x y * c1) (fun c => c.c1 > 0),
    tryRewriteIf (min (x * c1) (y * c1)) (max x y * c1) (fun c => ¬c.c1 > 0),
    tryRewriteIf (min (x * c1) c2) c2 (fun c => c.c1 = 0 ∧ c.c2 < 0),
    tryRewriteIf (min (x * c1) c2) c1 (fun c => c.c1 = 0 ∧ ¬c.c2 < 0),
    tryRewriteIf (min (x * c1) c2) (min x (.const fun c => c.c2.tdiv c.c1) * c1)
      (fun c => c.c1 ≠ 0 ∧ c.c2.tmod c.c1 = 0 ∧ c.c1 > 0),
    tryRewriteIf (min (x * c1) c2) (max x (.const fun c => c.c2.tdiv c.c1) * c1)
      (fun c => c.c1 ≠ 0 ∧ c.c2.tmod c.c1 = 0 ∧ ¬c.c1 > 0) ]

def minCanonicalRules : List Rule :=
  [ tryRecursiveRewrite (min (min x c1) y) (min (min x y) c1),
    tryRecursiveRewriteIf (min (c1 - x) c2) (c1 - max x (c1 - c2)) (fun c => c.c2 ≠ 0) ]

def minSelectRules : List Rule :=
  [tryRewrite (min (select x y z) (select x s1 s2)) (select x (min y s1) (min z s2))]

def minRules : List Rule :=
  minOffsetRules ++ minRoundUpRules ++ minLatticeRules ++ minScaleRules ++ minCanonicalRules ++
    minSelectRules

def maxSelfRules : List Rule :=
  [tryRewrite (max x x) x]

def maxOffsetRules : List Rule :=
  [ tryRewriteIf (max (x + c1) (x + c2)) (x + c1) (fun c => c.c1 > c.c2),
    tryRewriteIf (max (x + c1) (x + c2)) (x + c2) (fun c => ¬c.c1 > c.c2),
    tryRewriteIf (max (x + c1) x) (x + c1) (fun c => c.c1 > 0),
    tryRewriteIf (max (x + c1) x) x (fun c => ¬c.c1 > 0),
    tryRewriteIf (max x (x + c1)) (x + c1) (fun c => c.c1 > 0),
    tryRewriteIf (max x (x + c1)) x (fun c => ¬c.c1 > 0),
    tryRewriteIf (max (c1 - x) (c2 - x)) (c1 - x) (fun c => c.c1 > c.c2),
    tryRewriteIf (max (c1 - x) (c2 - x)) (c2 - x) (fun c => ¬c.c1 > c.c2) ]

/-- Divide up rounding, with truncated and with floored division. -/
def maxRoundUpRules : List Rule :=
  [ tryRewriteIf (max (truncdiv (x + c1) c2 * c2) x) (truncdiv (x + c1) c2 * c2) roundsUp,
    tryRewriteIf (max x (truncdiv (x + c1) c2 * c2)) (truncdiv (x + c1) c2 * c2) roundsUp,
    tryRewriteIf (max (floordiv (x + c1) c2 * c2) x) (floordiv (x + c1) c2 * c2) roundsUp,
    tryRewriteIf (max x (floordiv (x + c1) c2 * c2)) (floordiv (x + c1) c2 * c2) roundsUp,
    tryRewriteIf (max (floordiv x c2 * c2) x) x (fun c => c.c2 > 0),
    tryRewriteIf (max x (floordiv x c2 * c2)) x (fun c => c.c2 > 0) ]

def maxLatticeRules : List Rule :=
  [ tryRewrite (max (min x y) (max x y)) (max x y),
    tryRewrite (max (min x y) (max y x)) (max x y),
    tryRewrite (max (max x y) (min x y)) (max x y),
    tryRewrite (max (max x y) (min y x)) (max x y),
    tryRewrite (max (min x y) x) x,
    tryRewrite (max (min x y) y) y,
    tryRewrite (max (max x y) x) (max x y),
    tryRewrite (max (max x y) y) (max x y),
    tryRewrite (max x (min x y)) x,
    tryRewrite (max y (min x y)) y,
    tryRewrite (max x (max x y)) (max x y),
    tryRewrite (max y (max x y)) (max x y),
    tryRewrite (max (max (max x y) z) y) (max (max x y) z),
    tryRewrite (max (max (max (max x y) z) s1) y) (max (max (max x y) z) s1),
    tryRewrite (max (max (max (max (max x y) z) s1) s2) y) (max (max (max (max x y) z) s1) s2),
    -- max/max cancelation
    tryRewrite (max (max x y) (max x z)) (max (max y z) x),
    tryRewrite (max (max x y) (max z x)) (max (max y z) x),
    tryRewrite (max (max y x) (max x z)) (max (max y z) x),
    tryRewrite (max (max y x) (max z x)) (max (max y z) x),
    -- max/min distribution
    tryRewrite (max (min x y) (min x z)) (min (max y z) x),
    tryRewrite (max (min x y) (min z x)) (min (max y z) x),
    tryRewrite (max (min y x) (min x z)) (min (max y z) x),
    tryRewrite (max (min y x) (min z x)) (min (max y z) x),
    -- add distribution
    tryRewrite (max (y + x) (z + x)) (max y z + x),
    tryRewrite (max (y + x) (x + z)) (max y z + x),
    tryRewrite (max (x + y) (x + z)) (max y z + x),
    tryRewrite (max (x + y) (z + x)) (max y z + x),
    -- sub distribution
    tryRewrite (max (y - x) (z - x)) (max y z - x),
    tryRewrite (max (x - y) (x - z)) (x - min y z),
    -- constant folding rule
    tryRewrite (max (max x c1) c2) (max x (max c1 c2)) ]

def maxScaleRules : List Rule :=
  [ tryRewriteIf (max (truncdiv x c1) (truncdiv y c1)) (truncdiv (max x y) c1) (fun c => c.c1 > 0),
    tryRewriteIf (max (truncdiv x c1) (truncdiv y c1)) (truncdiv (min x y) c1) (fun c => ¬c.c1 > 0),
    tryRewriteIf (max (floordiv x c1) (floordiv y c1)) (floordiv (max x y) c1) (fun c => c.c1 > 0),
    tryRewriteIf (max (floordiv x c1) (floordiv y c1)) (floordiv (min x y) c1) (fun c => ¬c.c1 > 0),
    tryRewriteIf (max (x * c1) (y * c1)) (max x y * c1) (fun c => c.c1 > 0),
    tryRewriteIf (max (x * c1) (y * c1)) (min x y * c1) (fun c => ¬c.c1 > 0),
    tryRewriteIf (max (x * c1) c2) c2 (fun c => c.c1 = 0 ∧ c.c2 > 0),
    tryRewriteIf (max (x * c1) c2) c1 (fun c => c.c1 = 0 ∧ ¬c.c2 > 0),
    tryRewriteIf (max (x * c1) c2) (max x (.const fun c => c.c2.tdiv c.c1) * c1)
      (fun c => c.c1 ≠ 0 ∧ c.c2.tmod c.c1 = 0 ∧ c.c1 > 0),
    tryRewriteIf (max (x * c1) c2) (min x (.const fun c => c.c2.tdiv c.c1) * c1)
      (fun c => c.c1 ≠ 0 ∧ c.c2.tmod c.c1 = 0 ∧ ¬c.c1 > 0) ]

def maxCanonicalRules : List Rule :=
  [ tryRecursiveRewrite (max (max x c1) y) (max (max x y) c1),
    tryRecursiveRewriteIf (max (c1 - x) c2) (c1 - min x (c1 - c2)) (fun c => c.c2 ≠ 0) ]

def maxSelectRules : List Rule :=
  [tryRewrite (max (select x y z) (select x s1 s2)) (select x (max y s1) (max z s2))]

def maxRules : List Rule :=
  maxOffsetRules ++ maxRoundUpRules ++ maxLatticeRules ++ maxScaleRules ++ maxCanonicalRules ++
    maxSelectRules

end Tvm.Arith.Rules
