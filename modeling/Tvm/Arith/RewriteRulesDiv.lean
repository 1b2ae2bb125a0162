import Tvm.Arith.RewriteRules

/-!
# The rules of the rewrite simplifier: division and remainder
-/

namespace Tvm.Arith.Rules

def dividesNonneg (c : Consts) : Bool :=
  c.c1 ≥ 0 ∧ c.c2 > 0 ∧ c.c1.tmod c.c2 = 0

def dividesPositive (c : Consts) : Bool :=
  c.c1 > 0 ∧ c.c2 > 0 ∧ c.c1.tmod c.c2 = 0

def divides (c : Consts) : Bool :=
  c.c2 > 0 ∧ c.c1.tmod c.c2 = 0

def divFoldRules : List Rule :=
  [ tryRewrite (truncdiv c1 c2) (.const fun c => c.c1.tdiv c.c2),
    tryRewriteIf (truncdiv (truncdiv x c1) c2) (truncdiv x (c1 * c2))
      (fun c => c.c1 > 0 ∧ c.c2 > 0),
    tryRewriteProve (truncdiv (truncdiv x c1 + c2) c3) (truncdiv (x + c1 * c2) (c1 * c3))
      (fun c => c.c1 > 0 ∧ c.c2 ≥ 0 ∧ c.c3 > 0) [nonneg x],
    tryRewriteIf (truncdiv (x * c1) c2) (x * truncdiv c1 c2) dividesPositive,
    tryRewriteIf (truncdiv (x * c1) c2) (truncdiv x (truncdiv c2 c1))
      (fun c => c.c1 > 0 ∧ c.c2 > 0 ∧ c.c2.tmod c.c1 = 0),
    tryRewrite (truncdiv x x) 1,
    tryRewrite (truncdiv (x * c1) x) c1,
    tryRewrite (truncdiv (c1 * x) x) c1 ]

/-- Rules involving 2 and 3 operands with a constant divisor. -/
def divScaledRules : List Rule :=
  [ tryRewriteProve (truncdiv (x * c1 + y) c2) (x * truncdiv c1 c2 + truncdiv y c2)
      dividesNonneg [nonneg x, nonneg y],
    tryRewriteProve (truncdiv (min (x * c1) y) c2) (min (x * truncdiv c1 c2) (truncdiv y c2))
      dividesNonneg [nonneg x, nonneg y],
    tryRewriteProve (truncdiv (max (x * c1) y) c2) (max (x * truncdiv c1 c2) (truncdiv y c2))
      dividesNonneg [nonneg x, nonneg y],
    tryRewriteProve (truncdiv (y + x * c1) c2) (truncdiv y c2 + x * truncdiv c1 c2)
      dividesNonneg [nonneg x, nonneg y],
    tryRewriteProve (truncdiv (min y (x * c1)) c2) (min (truncdiv y c2) (x * truncdiv c1 c2))
      dividesNonneg [nonneg x, nonneg y],
    tryRewriteProve (truncdiv (max y (x * c1)) c2) (max (truncdiv y c2) (x * truncdiv c1 c2))
      dividesNonneg [nonneg x, nonneg y],
    tryRewriteProve (truncdiv (x * c1 + y + z) c2) (x * truncdiv c1 c2 + truncdiv (y + z) c2)
      dividesNonneg [nonneg x, nonneg (y + z)],
    tryRewriteProve (truncdiv (x * c1 - y + z) c2) (x * truncdiv c1 c2 + truncdiv (z - y) c2)
      dividesNonneg [nonneg x, nonneg (z - y)],
    tryRewriteProve (truncdiv (x * c1 + y - z) c2) (x * truncdiv c1 c2 + truncdiv (y - z) c2)
      dividesNonneg [nonneg x, nonneg (y - z)],
    tryRewriteProve (truncdiv (y + x * c1 + z) c2) (x * truncdiv c1 c2 + truncdiv (y + z) c2)
      dividesPositive [nonneg x, nonneg (y + z)],
    tryRewriteProve (truncdiv (x + c1) c2) (truncdiv x c2 + truncdiv c1 c2)
      dividesPositive [nonneg x] ]

/-- Rules whose divisor is a summand or a factor. -/
def divSelfRules : List Rule :=
  [ tryRewriteProve (truncdiv (x + y) x) (truncdiv y x + 1) (fun _ => true) [nonneg x, nonneg y],
    tryRewriteProve (truncdiv (y + x) x) (truncdiv y x + 1) (fun _ => true) [nonneg x, nonneg y],
    tryRewriteProve (truncdiv ((x + y) + z) x) (truncdiv (y + z) x + 1) (fun _ => true)
      [nonneg x, nonneg (y + z)],
    tryRewriteProve (truncdiv ((y + x) + z) x) (truncdiv (y + z) x + 1) (fun _ => true)
      [nonneg x, nonneg (y + z)],
    tryRewriteProve (truncdiv (y + (z + x)) x) (truncdiv (y + z) x + 1) (fun _ => true)
      [nonneg x, nonneg (y + z)],
    tryRewriteProve (truncdiv (y + (x + z)) x) (truncdiv (y + z) x + 1) (fun _ => true)
      [nonneg x, nonneg (y + z)],
    tryRewriteProve (truncdiv (x * y) y) x (fun _ => true) [nonneg x, nonneg y],
    tryRewriteProve (truncdiv (y * x) y) x (fun _ => true) [nonneg x, nonneg y],
    tryRewriteProve (truncdiv (x * z + y) z) (x + truncdiv y z) (fun _ => true)
      [nonneg x, nonneg y, nonneg z],
    tryRewriteProve (truncdiv (z * x + y) z) (x + truncdiv y z) (fun _ => true)
      [nonneg x, nonneg y, nonneg z],
    tryRewriteProve (truncdiv (y + x * z) z) (truncdiv y z + x) (fun _ => true)
      [nonneg x, nonneg y, nonneg z],
    tryRewriteProve (truncdiv (y + z * x) z) (truncdiv y z + x) (fun _ => true)
      [nonneg x, nonneg y, nonneg z] ]

def divRules : List Rule :=
  divFoldRules ++ divScaledRules ++ divSelfRules

def modRules : List Rule :=
  [ tryRewriteIf (truncmod (x * c1) c2) 0 (fun c => c.c2 ≠ 0 ∧ c.c1.tmod c.c2 = 0),
    tryRewriteProve (truncmod (x * c1 + y) c2) (truncmod y c2) divides
      [nonneg (x * c1), nonneg y],
    tryRewriteProve (truncmod (x + c1) c2) (truncmod x c2) dividesNonneg [nonneg x],
    tryRewriteProve (truncmod (x + y * c1) c2) (truncmod x c2) divides
      [nonneg x, nonneg (y * c1)],
    -- x % c == x % (-c) for truncated division
    tryRecursiveRewriteIf (truncmod x c1) (truncmod x (.const fun c => -c.c1))
      (fun c => c.c1 < 0) ]

/-- The rules of `FloorDivNode` before the residue is looked at. -/
def floorDivNestedRules : List Rule :=
  [ tryRewriteIf (floordiv (floordiv x c1) c2) (floordiv x (c1 * c2))
      (fun c => c.c1 > 0 ∧ c.c2 > 0),
    tryRewriteIf (floordiv (floordiv x c1 + c2) c3) (floordiv (x + c1 * c2) (c1 * c3))
      (fun c => c.c1 > 0 ∧ c.c3 > 0) ]

def floorDivFoldRules : List Rule :=
  [ tryRewrite (floordiv x x) 1,
    tryRewrite (floordiv (x * c1) x) c1,
    tryRewrite (floordiv (c1 * x) x) c1 ]

/-- Rules involving 2 and 3 operands with a constant divisor. -/
def floorDivScaledRules : List Rule :=
  [ tryRewriteIf (floordiv (min (x * c1) y) c2) (min (x * floordiv c1 c2) (floordiv y c2)) divides,
    tryRewriteIf (floordiv (max (x * c1) y) c2) (max (x * floordiv c1 c2) (floordiv y c2)) divides,
    tryRewriteIf (floordiv (min y (x * c1)) c2) (min (floordiv y c2) (x * floordiv c1 c2)) divides,
    tryRewriteIf (floordiv (max y (x * c1)) c2) (max (floordiv y c2) (x * floordiv c1 c2)) divides,
    tryRewriteIf (floordiv (x * c1 + y + z) c2) (x * floordiv c1 c2 + floordiv (y + z) c2) divides,
    tryRewriteProve (floordiv (x * c1 + y + z) c2) (floordiv x (floordiv c2 c1))
      (fun c => c.c1 > 0 ∧ c.c2 > 0 ∧ c.c2.tmod c.c1 = 0) [isZero (floordiv (y + z) c1)],
    tryRewriteIf (floordiv (x * c1 - y + z) c2) (x * floordiv c1 c2 + floordiv (z - y) c2) divides,
    tryRewriteIf (floordiv (x * c1 + y - z) c2) (x * floordiv c1 c2 + floordiv (y - z) c2) divides,
    tryRewriteIf (floordiv (y + x * c1 + z) c2) (x * floordiv c1 c2 + floordiv (y + z) c2) divides,
    tryRewriteIf (floordiv (x + c1) c2) (floordiv x c2 + floordiv c1 c2) divides ]

/-- Rules whose divisor is a summand or a factor. -/
def floorDivSelfRules : List Rule :=
  [ tryRewriteIf (floordiv (x * c1) (x * c2)) (floordiv c1 c2) (fun c => c.c2 > 0),
    tryRewriteProve (floordiv (x + y) x) (floordiv y x + 1) (fun _ => true) [nonneg x],
    tryRewriteProve (floordiv (y + x) x) (floordiv y x + 1) (fun _ => true) [nonneg x],
    tryRewriteProve (floordiv ((x + y) + z) x) (floordiv (y + z) x + 1) (fun _ => true) [nonneg x],
    tryRewriteProve (floordiv ((y + x) + z) x) (floordiv (y + z) x + 1) (fun _ => true) [nonneg x],
    tryRewriteProve (floordiv (y + (z + x)) x) (floordiv (y + z) x + 1) (fun _ => true) [nonneg x],
    tryRewriteProve (floordiv (y + (x + z)) x) (floordiv (y + z) x + 1) (fun _ => true) [nonneg x],
    tryRewriteProve (floordiv (x * y) y) x (fun _ => true) [nonneg y],
    tryRewriteProve (floordiv (y * x) y) x (fun _ => true) [nonneg y],
    tryRewriteProve (floordiv (x * z + y) z) (x + floordiv y z) (fun _ => true) [nonneg z],
    tryRewriteProve (floordiv (z * x + y) z) (x + floordiv y z) (fun _ => true) [nonneg z],
    tryRewriteProve (floordiv (y + x * z) z) (floordiv y z + x) (fun _ => true) [nonneg z],
    tryRewriteProve (floordiv (y + z * x) z) (floordiv y z + x) (fun _ => true) [nonneg z],
    tryRewriteIf (floordiv (x - floormod x c1) c1) (floordiv x c1) (fun c => c.c1 ≠ 0) ]

def floorDivRules : List Rule :=
  floorDivFoldRules ++ floorDivScaledRules ++ floorDivSelfRules

def floorModRules : List Rule :=
  [ tryRewriteIf (floormod (x * c1) c2) (floormod (x * floormod c1 c2) c2) (fun c => c.c2 ≠ 0),
    tryRewriteProve (floormod (x * c1 + y) c2) (floormod x (floordiv c2 c1) * c1 + y)
      (fun c => c.c1 > 0 ∧ c.c2 > 0 ∧ c.c2.tmod c.c1 = 0) [isZero (floordiv y c1)],
    tryRewriteIf (floormod (x * c1 + y) c2) (floormod (x * floormod c1 c2 + y) c2)
      (fun c => c.c2 > 0),
    tryRewriteIf (floormod (x + c1) c2) (floormod x c2) divides,
    tryRewriteIf (floormod (x + y * c1) c2) (floormod (x + y * floormod c1 c2) c2)
      (fun c => c.c2 > 0),
    tryRewriteIf (floormod (x * c1) (x * c2)) (x * floormod c1 c2) (fun c => c.c2 ≠ 0),
    tryRewrite (floormod (x * y) y) 0,
    tryRewrite (floormod (y * x) y) 0 ]

end Tvm.Arith.Rules
