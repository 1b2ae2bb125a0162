import Tvm.Lib.Tally

/-!
# Counting the stripes of a configuration

`CountStripes` of `cascader/stripe_config.cc`.  The result of an operation on `int`s that overflows
is undefined, and is `none`.
-/

namespace Tvm.Cascader

open Lib

def IsInt (value : Int) : Prop :=
  -2147483648 ≤ value ∧ value ≤ 2147483647

instance (value : Int) : Decidable (IsInt value) :=
  inferInstanceAs (Decidable (_ ∧ _))

/-- The result of an operation on `int`s. -/
def checked (value : Int) : Option Int :=
  if IsInt value then some value else none

/-- An axis of a `StripeConfig`, whose stride is an integer.  The number of stripes is a count:
there must be at least one stripe in any given axis. -/
structure Axis where
  shape : Int32
  extent : Int32
  stride : Int32
  offset : Int32
  stripes : ℕ
  stripes_le : stripes ≤ 2147483647

structure AxisLoop where
  i : ℕ
  start : Int
  high : Int
  sizes : List (Int × ℕ)

namespace Axis

variable (axis : Axis) (slidingWindow : Bool)

/-- `extent - shape - start`. -/
def room (start : Int) : Option Int := do
  let rest ← checked (axis.extent.toInt - axis.shape.toInt)
  checked (rest - start)

/-- Whether the stripes ahead are counted at once. -/
def isWhole (loop : AxisLoop) : Option Bool :=
  if slidingWindow ∧ loop.i = 0 ∨ loop.start < 0 then some false
  else (axis.room loop.start).map fun rest => decide (0 ≤ rest ∧ 0 < axis.stride.toInt)

/-- The stripes that lie within the extent, counted in one go. -/
def wholeStripes (loop : AxisLoop) : Option AxisLoop := do
  let rest ← axis.room loop.start
  let quotient ← checked (rest.tdiv axis.stride.toInt + 1)
  let whole := min ((axis.stripes - loop.i : ℕ) : Int) quotient
  let step ← checked (whole * axis.stride.toInt)
  let start ← checked (loop.start + step)
  let last ← checked (start - axis.stride.toInt)
  let high ← checked (last + axis.shape.toInt)
  some ⟨loop.i + whole.toNat, start, min high axis.extent.toInt,
    tallyAdd (if slidingWindow then axis.stride.toInt else axis.shape.toInt) whole.toNat
      loop.sizes⟩

def oneStripe (loop : AxisLoop) : Option AxisLoop := do
  let low := max loop.start 0
  let low := if slidingWindow then max low loop.high else low
  let end' ← checked (loop.start + axis.shape.toInt)
  let high := min end' axis.extent.toInt
  let size ← checked (high - low)
  let sizes := if 0 < size then tallyAdd size 1 loop.sizes else loop.sizes
  let start ← checked (loop.start + axis.stride.toInt)
  some ⟨loop.i + 1, start, high, sizes⟩

def turn (loop : AxisLoop) : Option AxisLoop := do
  if ← axis.isWhole slidingWindow loop then axis.wholeStripes slidingWindow loop
  else axis.oneStripe slidingWindow loop

/-- The turns that are left; every turn counts a stripe at least. -/
def turns : ℕ → AxisLoop → Option (List (Int × ℕ))
  | 0, loop => if loop.i < axis.stripes then none else some loop.sizes
  | fuel + 1, loop =>
    if loop.i < axis.stripes then (axis.turn slidingWindow loop).bind (turns fuel)
    else some loop.sizes

def sizes : Option (List (Int × ℕ)) :=
  axis.turns slidingWindow axis.stripes ⟨0, axis.offset.toInt, -2147483648, []⟩

end Axis

/-- The pairs of `MultiplyCombinations`, if their numbers fit.  A map has every key once, so that
every pair of keys is assigned once. -/
def pairCombinations (sizes : List (Int × ℕ)) (combs : List (List Int × ℕ)) :
    Option (List (List Int × ℕ)) :=
  let newCombs := sizes.flatMap fun val =>
    combs.map fun comb => (comb.1 ++ [val.1], val.2 * comb.2)
  if ∀ comb ∈ newCombs, comb.2 ≤ 2147483647 then some newCombs else none

/-- `MultiplyCombinations`, with the last axis first; it does not end without any. -/
def combinations : List (List (Int × ℕ)) → Option (List (List Int × ℕ))
  | [] => none
  | [sizes] => some (sizes.map fun entry => ([entry.1], entry.2))
  | sizes :: before => (combinations before).bind (pairCombinations sizes)

def multiplyCombinations (values : List (List (Int × ℕ))) : Option (List (List Int × ℕ)) :=
  combinations values.reverse

def countStripes (axes : List Axis) (slidingWindow : Bool) : Option (List (List Int × ℕ)) :=
  (axes.mapM (Axis.sizes · slidingWindow)).bind multiplyCombinations

namespace Axis

variable (axis : Axis) (slidingWindow : Bool) (i : ℕ)

def start : Int :=
  axis.offset.toInt + i * axis.stride.toInt

/-- Element `k` of stripe `i` is in the extent and, with the sliding window, not below the end of
the previous stripe. -/
def Covers (k : ℕ) : Prop :=
  0 ≤ axis.start i + k ∧ axis.start i + k < axis.extent.toInt ∧
    (slidingWindow → 0 < i → axis.start (i - 1) + axis.shape.toInt ≤ axis.start i + k)

instance : DecidablePred (axis.Covers slidingWindow i) :=
  fun _ => inferInstanceAs (Decidable (_ ∧ _))

def size : ℕ :=
  Nat.count (axis.Covers slidingWindow i) axis.shape.toInt.toNat

/-- Stripe `i` lies within the extent, where the code looks. -/
def Whole : Prop :=
  (slidingWindow → 0 < i) ∧ 0 ≤ axis.start i ∧
    0 ≤ axis.extent.toInt - axis.shape.toInt - axis.start i ∧ 0 < axis.stride.toInt

instance : Decidable (axis.Whole slidingWindow i) :=
  inferInstanceAs (Decidable (_ ∧ _))

end Axis

/-- The index tuples of a shape vector whose sizes are all positive. -/
def stripesOfShape (axes : List Axis) (slidingWindow : Bool) (shape : List Int) : ℕ :=
  (List.sections (axes.map fun axis => List.range axis.stripes)).countP fun tuple =>
    (List.zipWith (fun axis i => (axis.size slidingWindow i : Int)) axes tuple == shape) &&
      shape.all (0 < ·)

end Tvm.Cascader
