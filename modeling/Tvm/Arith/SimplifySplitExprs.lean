import Tvm.Arith.SumExpr

/-!
# Merging splits

`SimplifySplitExprs` and `Normalize_` of `canonical_simplify.cc`.
-/

namespace Tvm.Arith

variable {ι : Type}

section Normalize

variable (isUInt : Bool) (index : ι → PrimExpr)

/-- A failed `ICHECK` is `none`. -/
def SplitExpr.normalizeWithScale (e : SplitExpr ι) (sscale : Int) : Option PrimExpr :=
  if e.scale = 0 then some (.intImm 0)
  else do
    let res := index e.index
    let res ← (if e.upperFactor ≠ kPosInf then
        makeBinary e.divMode.modImpl res (.intImm e.upperFactor)
      else some res)
    let res ← (if e.lowerFactor ≠ 1 then
        makeBinary e.divMode.divImpl res (.intImm e.lowerFactor)
      else some res)
    let sscale := sscale * e.scale
    if sscale ≠ 1 then
      guard (!isUInt || decide (sscale > 0))
      makeBinary .mul res (.intImm sscale)
    else some res

def addPositive (res : PrimExpr) (arg : SplitExpr ι) : Option PrimExpr :=
  if arg.scale > 0 then (arg.normalizeWithScale isUInt index 1).bind (makeBinary .add res)
  else some res

def subNegative (res : PrimExpr) (arg : SplitExpr ι) : Option PrimExpr :=
  if arg.scale < 0 then (arg.normalizeWithScale isUInt index (-1)).bind (makeBinary .sub res)
  else some res

def normalize_ (args : List (SplitExpr ι)) (base : Int) : Option PrimExpr := do
  let res ← args.foldlM (addPositive isUInt index) (.intImm 0)
  let res ← (if base > 0 then makeBinary .add res (.intImm base) else some res)
  let res ← args.foldlM (subNegative isUInt index) res
  if base < 0 then makeBinary .sub res (.intImm (-base)) else some res

end Normalize

section Value

variable {index : ι → PrimExpr} {interp : Nat → Env → Option Int} {env : Env}
  {v : ι → Int} {e : SplitExpr ι} {args : List (SplitExpr ι)} {a b : PrimExpr} {x y : Int}

theorem make_value (op : BinOp) (f : Int → Int) (left : a.eval interp env = some x)
    (right : b.eval interp env = some y) (defined : ∀ x, op.eval x y = some (f x))
    (arith : op.operandSort = .int) :
    ∃ r, makeBinary op a b = some r ∧ r.eval interp env = some (f x) := by
  obtain ⟨r, made⟩ := exists_makeBinary op right (fun x => ⟨_, defined x⟩) a
  refine ⟨r, made, makeBinary_sound made left right (fun logical => ?_) (defined x)⟩
  rw [arith] at logical
  cases logical

theorem DivMode.modImpl_eval (mode : DivMode) (nonzero : y ≠ 0) (x : Int) :
    mode.modImpl.eval x y = some (mode.mod x y) := by
  cases mode with
  | truncDiv => exact if_neg nonzero
  | floorDiv => exact if_neg nonzero

theorem DivMode.divImpl_eval (mode : DivMode) (nonzero : y ≠ 0) (x : Int) :
    mode.divImpl.eval x y = some (mode.div x y) := by
  cases mode with
  | truncDiv => exact if_neg nonzero
  | floorDiv => exact if_neg nonzero

theorem DivMode.operands (mode : DivMode) :
    mode.modImpl.operandSort = .int ∧ mode.divImpl.operandSort = .int := by
  cases mode with
  | truncDiv => exact ⟨rfl, rfl⟩
  | floorDiv => exact ⟨rfl, rfl⟩

/-- With a sign that makes the scale positive the check for unsigned types passes. -/
theorem normalizeWithScale_value (isUInt : Bool) (verified : e.Verified)
    (values : (index e.index).eval interp env = some (v e.index)) {sscale : Int}
    (positive : 0 < sscale * e.scale) : ∃ r, e.normalizeWithScale isUInt index sscale = some r ∧
      r.eval interp env = some (sscale * e.value v) := by
  have lower := verified.lower
  have scaled : e.scale ≠ 0 := right_ne_zero_of_mul positive.ne'
  have reduced : ∃ r, (if e.upperFactor ≠ kPosInf then
        makeBinary e.divMode.modImpl (index e.index) (.intImm e.upperFactor)
      else some (index e.index)) = some r ∧ r.eval interp env =
        some (if e.upperFactor = kPosInf then v e.index
          else e.divMode.mod (v e.index) e.upperFactor) := by
    by_cases infinite : e.upperFactor = kPosInf
    · rw [if_neg (not_not.mpr infinite), if_pos infinite]
      exact ⟨_, rfl, values⟩
    · have nonzero : e.upperFactor ≠ 0 := (verified.upper.resolve_left infinite).1.ne'
      rw [if_pos infinite, if_neg infinite]
      exact make_value _ (e.divMode.mod · _) values rfl (e.divMode.modImpl_eval nonzero)
        e.divMode.operands.1
  obtain ⟨res, resIs, value⟩ := reduced
  have divided : ∃ r, (if e.lowerFactor ≠ 1 then
        makeBinary e.divMode.divImpl res (.intImm e.lowerFactor)
      else some res) = some r ∧ r.eval interp env = some (e.quotient v) := by
    split
    · exact make_value _ (e.divMode.div · _) value rfl (e.divMode.divImpl_eval lower.ne')
        e.divMode.operands.2
    · rename_i one
      rw [SplitExpr.quotient, not_not.mp one, DivMode.div_one]
      exact ⟨_, rfl, value⟩
  obtain ⟨res', resIs', value'⟩ := divided
  have product : sscale * e.value v = e.quotient v * (sscale * e.scale) := by
    rw [SplitExpr.value]
    ring
  rw [SplitExpr.normalizeWithScale, if_neg scaled, product]
  simp only [Option.bind_eq_bind, resIs, resIs', Option.bind_some]
  split
  · rw [decide_eq_true positive, Bool.or_true]
    exact make_value .mul (· * _) value' rfl (fun x => rfl) rfl
  · rename_i one
    rw [not_not.mp one, mul_one]
    exact ⟨_, rfl, value'⟩

theorem addPositive_value (isUInt : Bool) {args : List (SplitExpr ι)}
    (verified : ∀ e ∈ args, e.Verified)
    (values : ∀ e ∈ args, (index e.index).eval interp env = some (v e.index))
    (start : a.eval interp env = some x) : ∃ r, args.foldlM (addPositive isUInt index) a = some r ∧
      r.eval interp env = some (x + total v (args.filter fun e => 0 < e.scale)) := by
  induction args generalizing a x with
  | nil => exact ⟨a, rfl, start.trans (congrArg some (add_zero x).symm)⟩
  | cons e args ih =>
    obtain ⟨first, verified⟩ := List.forall_mem_cons.mp verified
    obtain ⟨value, values⟩ := List.forall_mem_cons.mp values
    rw [List.foldlM_cons, List.filter_cons, addPositive]
    by_cases positive : 0 < e.scale
    · obtain ⟨t, made, valueIs⟩ :=
        normalizeWithScale_value isUInt first value (one_mul e.scale ▸ positive)
      obtain ⟨sum, madeSum, sumIs⟩ := make_value .add (· + _) start valueIs (fun x => rfl) rfl
      rw [if_pos positive, made, Option.bind_some, madeSum, if_pos (decide_eq_true positive),
        total_cons, ← add_assoc, ← one_mul (e.value v)]
      exact ih verified values sumIs
    · rw [if_neg positive, if_neg (by simpa using positive)]
      exact ih verified values start

theorem subNegative_value (isUInt : Bool) {args : List (SplitExpr ι)}
    (verified : ∀ e ∈ args, e.Verified)
    (values : ∀ e ∈ args, (index e.index).eval interp env = some (v e.index))
    (start : a.eval interp env = some x) : ∃ r, args.foldlM (subNegative isUInt index) a = some r ∧
      r.eval interp env = some (x + total v (args.filter fun e => e.scale < 0)) := by
  induction args generalizing a x with
  | nil => exact ⟨a, rfl, start.trans (congrArg some (add_zero x).symm)⟩
  | cons e args ih =>
    obtain ⟨first, verified⟩ := List.forall_mem_cons.mp verified
    obtain ⟨value, values⟩ := List.forall_mem_cons.mp values
    rw [List.foldlM_cons, List.filter_cons, subNegative]
    by_cases negative : e.scale < 0
    · obtain ⟨t, made, valueIs⟩ := normalizeWithScale_value isUInt first value
        (neg_one_mul e.scale ▸ neg_pos.mpr negative)
      obtain ⟨sum, madeSum, sumIs⟩ := make_value .sub (· - _) start valueIs (fun x => rfl) rfl
      have difference : x - -1 * e.value v = x + e.value v := by ring
      rw [if_pos negative, made, Option.bind_some, madeSum, if_pos (decide_eq_true negative),
        total_cons, ← add_assoc, ← difference]
      exact ih verified values sumIs
    · rw [if_neg negative, if_neg (by simpa using negative)]
      exact ih verified values start

theorem total_signs (args : List (SplitExpr ι)) : total v (args.filter fun e => 0 < e.scale) +
    total v (args.filter fun e => e.scale < 0) = total v args := by
  induction args with
  | nil => rfl
  | cons e args ih =>
    rw [List.filter_cons, List.filter_cons, total_cons, ← ih]
    rcases lt_trichotomy e.scale 0 with negative | zero | positive
    · simp only [negative, negative.not_gt, decide_false, decide_true, if_true, total_cons,
        Bool.false_eq_true, if_false]
      ring
    · simp [zero, SplitExpr.value]
    · simp only [positive, positive.not_gt, decide_false, decide_true, if_true, total_cons,
        Bool.false_eq_true, if_false]
      ring

theorem normalize_value (isUInt : Bool) (verified : ∀ e ∈ args, e.Verified)
    (values : ∀ e ∈ args, (index e.index).eval interp env = some (v e.index)) (base : Int) :
    ∃ r, normalize_ isUInt index args base = some r ∧
      r.eval interp env = some (total v args + base) := by
  obtain ⟨positive, madePositive, value⟩ := addPositive_value isUInt verified values
    (show (PrimExpr.intImm 0).eval interp env = some 0 from rfl)
  have based : ∃ r, (if base > 0 then makeBinary .add positive (.intImm base)
      else some positive) = some r ∧ r.eval interp env =
        some (total v (args.filter fun e => 0 < e.scale) + max base 0) := by
    rw [zero_add] at value
    split
    · rename_i above
      rw [max_eq_left above.le]
      exact make_value .add (· + _) value rfl (fun x => rfl) rfl
    · rename_i notAbove
      rw [max_eq_right (not_lt.mp notAbove), add_zero]
      exact ⟨_, rfl, value⟩
  obtain ⟨shifted, madeShifted, value⟩ := based
  obtain ⟨sum, madeSum, value⟩ := subNegative_value isUInt verified values value
  rw [normalize_, madePositive, Option.bind_eq_bind, Option.bind_some, madeShifted,
    Option.bind_some, madeSum, Option.bind_some, ← total_signs]
  split
  · rename_i below
    have shift (x y : Int) : x + max base 0 + y - -base = x + y + base := by
      rw [max_eq_right below.le]
      ring
    rw [← shift]
    exact make_value .sub (· - _) value rfl (fun x => rfl) rfl
  · rename_i notBelow
    rw [max_eq_left (not_lt.mp notBelow), add_right_comm] at value
    exact ⟨sum, rfl, value⟩

end Value

variable [DecidableEq ι]

namespace SplitExpr

structure FoldsInto (lhs rhs : SplitExpr ι) : Prop where
  upper : lhs.upperFactor = rhs.upperFactor
  lower : lhs.lowerFactor = rhs.lowerFactor
  compatible : lhs.DivModeCompatibleTo rhs.divMode

/-- The condition for the quotient and the remainder of one division. -/
structure MergesInto (lhs rhs : SplitExpr ι) : Prop where
  bound : lhs.lowerFactor = rhs.upperFactor
  scaled : rhs.scale ≠ 0
  divides : lhs.scale.tmod rhs.scale = 0
  factors : lhs.lowerFactor = lhs.scale.tdiv rhs.scale * rhs.lowerFactor
  compatible : lhs.DivModeCompatibleTo rhs.divMode

instance (lhs rhs : SplitExpr ι) : Decidable (lhs.FoldsInto rhs) :=
  decidable_of_iff (lhs.upperFactor = rhs.upperFactor ∧ lhs.lowerFactor = rhs.lowerFactor ∧
      lhs.DivModeCompatibleTo rhs.divMode)
    ⟨fun ⟨upper, lower, compatible⟩ => ⟨upper, lower, compatible⟩,
      fun folds => ⟨folds.upper, folds.lower, folds.compatible⟩⟩

instance (lhs rhs : SplitExpr ι) : Decidable (lhs.MergesInto rhs) :=
  decidable_of_iff (lhs.lowerFactor = rhs.upperFactor ∧ rhs.scale ≠ 0 ∧
      lhs.scale.tmod rhs.scale = 0 ∧
      lhs.lowerFactor = lhs.scale.tdiv rhs.scale * rhs.lowerFactor ∧
      lhs.DivModeCompatibleTo rhs.divMode)
    ⟨fun ⟨bound, scaled, divides, factors, compatible⟩ =>
        ⟨bound, scaled, divides, factors, compatible⟩,
      fun merges =>
        ⟨merges.bound, merges.scaled, merges.divides, merges.factors, merges.compatible⟩⟩

def reset (e : SplitExpr ι) : SplitExpr ι :=
  { e with scale := 0 }

end SplitExpr

/-- The inner loop: `args[i]` and the arguments behind it. -/
def scan (lhs : SplitExpr ι) : List (SplitExpr ι) → SplitExpr ι × List (SplitExpr ι)
  | [] => (lhs, [])
  | rhs :: rest =>
    if lhs.index ≠ rhs.index ∨ lhs.upperFactor < rhs.lowerFactor then (lhs, rhs :: rest)
    else if lhs.FoldsInto rhs then
      let (lhs', rest') := scan lhs.reset rest
      (lhs', { rhs with scale := rhs.scale + lhs.scale } :: rest')
    else if lhs.MergesInto rhs then
      (lhs.reset, { rhs with upperFactor := lhs.upperFactor } :: rest)
    else
      let (lhs', rest') := scan lhs rest
      (lhs', rhs :: rest')

/-- The outer loop, with the number of its rounds. -/
def mergeSplits : Nat → List (SplitExpr ι) → List (SplitExpr ι)
  | 0, args => args
  | _ + 1, [] => []
  | rounds + 1, lhs :: rest =>
    if lhs.scale = 0 then lhs :: mergeSplits rounds rest
    else
      let (lhs', rest') := scan lhs rest
      lhs' :: mergeSplits rounds rest'

def DivMode.toNat : DivMode → Nat
  | .truncDiv => 0
  | .floorDiv => 1

/-- The order of the arguments: descending scale, then factors, then mode. -/
def fcompare (lhs rhs : SplitExpr ι) : Bool :=
  if lhs.scale > rhs.scale then true
  else if lhs.scale < rhs.scale then false
  else if lhs.lowerFactor > rhs.lowerFactor then true
  else if lhs.lowerFactor < rhs.lowerFactor then false
  else if lhs.upperFactor > rhs.upperFactor then true
  else if lhs.upperFactor < rhs.upperFactor then false
  else decide (lhs.divMode.toNat > rhs.divMode.toNat)

def simplifySplitExprs (args : List (SplitExpr ι)) : List (SplitExpr ι) :=
  (mergeSplits args.length args).mergeSort fun lhs rhs => !fcompare rhs lhs

section Scan

variable {v : ι → Int} {lhs rhs e : SplitExpr ι} {rest : List (SplitExpr ι)}

theorem scan_reset (lower : 0 < lhs.lowerFactor) (rest : List (SplitExpr ι)) :
    scan lhs.reset rest = (lhs.reset, rest) := by
  induction rest with
  | nil => rfl
  | cons rhs rest ih =>
    have noMerge : ¬lhs.reset.MergesInto rhs := fun merges => by
      have factors : lhs.lowerFactor = Int.tdiv 0 rhs.scale * rhs.lowerFactor := merges.factors
      rw [Int.zero_tdiv, zero_mul] at factors
      exact lower.ne' factors
    have same : { rhs with scale := rhs.scale + lhs.reset.scale } = rhs :=
      congrArg (fun scale => { rhs with scale := scale }) (add_zero rhs.scale)
    have again : scan lhs.reset.reset rest = (lhs.reset, rest) := ih
    rw [scan, again, ih, if_neg noMerge, same]
    split
    · rfl
    · split <;> rfl

/-- What one scan can do. -/
theorem scan_cases (lower : 0 < lhs.lowerFactor) (rest : List (SplitExpr ι)) :
    (scan lhs rest = (lhs, rest) ∧ ∀ rhs ∈ rest.takeWhile fun rhs =>
        lhs.index = rhs.index ∧ rhs.lowerFactor ≤ lhs.upperFactor,
      ¬lhs.FoldsInto rhs ∧ ¬lhs.MergesInto rhs) ∨
    ∃ before rhs after, rest = before ++ rhs :: after ∧ lhs.index = rhs.index ∧
      (∀ e ∈ before, lhs.index = e.index ∧ ¬lhs.FoldsInto e) ∧
      (lhs.FoldsInto rhs ∧ scan lhs rest =
          (lhs.reset, before ++ { rhs with scale := rhs.scale + lhs.scale } :: after) ∨
        ¬lhs.FoldsInto rhs ∧ lhs.MergesInto rhs ∧ scan lhs rest =
          (lhs.reset, before ++ { rhs with upperFactor := lhs.upperFactor } :: after)) := by
  induction rest with
  | nil => exact .inl ⟨rfl, nofun⟩
  | cons first rest ih =>
    rw [scan]
    split
    · rename_i outside
      refine .inl ⟨rfl, ?_⟩
      rw [List.takeWhile_cons_of_neg]
      · exact nofun
      · rw [decide_eq_true_eq, not_and_or, not_le]
        exact outside
    · rename_i inside
      obtain ⟨index, reached⟩ := not_or.mp inside
      have index := not_not.mp index
      split
      · rename_i folds
        rw [scan_reset lower]
        exact .inr ⟨[], first, rest, rfl, index, nofun, .inl ⟨folds, rfl⟩⟩
      · rename_i noFold
        split
        · rename_i merges
          exact .inr ⟨[], first, rest, rfl, index, nofun, .inr ⟨noFold, merges, rfl⟩⟩
        · rename_i noMerge
          rcases ih with ⟨scanned, stays⟩ | ⟨before, rhs, after, rfl, same, apart, result⟩
          · refine .inl ⟨by rw [scanned], ?_⟩
            rw [List.takeWhile_cons_of_pos]
            · exact List.forall_mem_cons.mpr ⟨⟨noFold, noMerge⟩, stays⟩
            · exact decide_eq_true ⟨index, not_lt.mp reached⟩
          · refine .inr ⟨first :: before, rhs, after, rfl, same,
              List.forall_mem_cons.mpr ⟨⟨index, noFold⟩, apart⟩, ?_⟩
            rcases result with ⟨folds, scanned⟩ | ⟨noFold, merges, scanned⟩
            · exact .inl ⟨folds, by rw [scanned, List.cons_append]⟩
            · exact .inr ⟨noFold, merges, by rw [scanned, List.cons_append]⟩

omit [DecidableEq ι] in
theorem DivMode.mod_mod (mode : DivMode) {l u : Int} (divides : l ∣ u) (x : Int) :
    mode.mod (mode.mod x u) l = mode.mod x l := by
  cases mode with
  | truncDiv => exact Int.tmod_tmod_of_dvd x divides
  | floorDiv => exact Int.fmod_fmod_of_dvd x divides

/-- The second rule of the proof in the source, for a divisor that is a product. -/
theorem ediv_split {l : Int} (nonzero : l ≠ 0) (x s : Int) :
    x / (s * l) * s + x % (s * l) / l = x / l := by
  have decomposed : x = x % (s * l) + l * (x / (s * l) * s) := by
    have whole := Int.emod_add_mul_ediv x (s * l)
    linarith
  rw [add_comm, ← Int.add_mul_ediv_left _ _ nonzero, ← decomposed]

theorem DivMode.div_split (mode : DivMode) {s l : Int} (positive : 0 < s) (positive' : 0 < l)
    (x : Int) : mode.div x (s * l) * s + mode.div (mode.mod x (s * l)) l = mode.div x l := by
  have product := mul_pos positive positive'
  cases mode with
  | truncDiv =>
    have nonnegative (y : Int) (sign : 0 ≤ y) :
        y.tdiv (s * l) * s + (y.tmod (s * l)).tdiv l = y.tdiv l := by
      rw [Int.tdiv_eq_ediv_of_nonneg sign, Int.tdiv_eq_ediv_of_nonneg sign,
        Int.tmod_eq_emod_of_nonneg sign,
        Int.tdiv_eq_ediv_of_nonneg (Int.emod_nonneg y product.ne'), ediv_split positive'.ne']
    rcases le_total 0 x with sign | sign
    · exact nonnegative x sign
    -- truncation is odd
    · have opposite := nonnegative (-x) (neg_nonneg.mpr sign)
      rw [Int.neg_tdiv, Int.neg_tmod, Int.neg_tdiv, Int.neg_tdiv] at opposite
      change x.tdiv (s * l) * s + (x.tmod (s * l)).tdiv l = x.tdiv l
      linarith
  | floorDiv =>
    change (x.fdiv (s * l)) * s + (x.fmod (s * l)).fdiv l = x.fdiv l
    rw [Int.fdiv_eq_ediv_of_nonneg _ product.le, Int.fdiv_eq_ediv_of_nonneg _ positive'.le,
      Int.fdiv_eq_ediv_of_nonneg _ positive'.le, Int.fmod_eq_emod_of_nonneg _ product.le,
      ediv_split positive'.ne']

omit [DecidableEq ι] in
/-- A merge with a remainder that is one: its upper factor is not infinite. -/
theorem SplitExpr.MergesInto.value (merges : lhs.MergesInto rhs) (verified : lhs.Verified)
    (verified' : rhs.Verified) (index : lhs.index = rhs.index) (near : lhs.lowerFactor ≠ kPosInf) :
    SplitExpr.value v { rhs with upperFactor := lhs.upperFactor } =
      rhs.value v + lhs.value v := by
  obtain ⟨s, scale, factors⟩ : ∃ s, lhs.scale = s * rhs.scale ∧
      lhs.lowerFactor = s * rhs.lowerFactor :=
    ⟨_, (Int.tdiv_mul_cancel (Int.dvd_of_tmod_eq_zero merges.divides)).symm, merges.factors⟩
  have positive : 0 < s :=
    (mul_pos_iff_of_pos_right verified'.lower).mp (factors ▸ verified.lower)
  rw [SplitExpr.value, SplitExpr.value, SplitExpr.value, SplitExpr.quotient, SplitExpr.quotient,
    SplitExpr.quotient]
  dsimp only
  rw [← merges.bound, if_neg near, ← index, scale, factors]
  rcases merges.compatible with mode | ⟨one, infinite⟩
  · rw [← mode]
    obtain ⟨x, dividend⟩ : ∃ x, (if lhs.upperFactor = kPosInf then v lhs.index
      else lhs.divMode.mod (v lhs.index) lhs.upperFactor) = x := ⟨_, rfl⟩
    have remainder : lhs.divMode.mod (v lhs.index) (s * rhs.lowerFactor) =
        lhs.divMode.mod x (s * rhs.lowerFactor) := by
      rw [← dividend, ← factors]
      split
      · rfl
      · rename_i finite
        exact (lhs.divMode.mod_mod (verified.upper.resolve_left finite).2 _).symm
    rw [dividend, remainder, ← lhs.divMode.div_split positive verified'.lower x]
    ring
  · have ones := factors.symm.trans one
    have whole := rhs.divMode.div_split zero_lt_one zero_lt_one (v lhs.index)
    rw [Int.eq_one_of_mul_eq_one_right positive.le ones,
      Int.eq_one_of_mul_eq_one_left verified'.lower.le ones, if_pos infinite, if_pos infinite]
    simp only [mul_one, DivMode.div_one] at whole
    rw [mul_one, one_mul, DivMode.div_one, DivMode.div_one, DivMode.div_one]
    linear_combination -rhs.scale * whole

/-- The scan takes `lhs` away and changes nothing else. The infinite upper factor of another term
is the lower factor of `lhs`. -/
def SplitExpr.Swallowed (lhs : SplitExpr ι) (rest : List (SplitExpr ι)) : Prop :=
  lhs.lowerFactor = kPosInf ∧ scan lhs rest = (lhs.reset, rest)

instance (lhs : SplitExpr ι) (rest : List (SplitExpr ι)) : Decidable (lhs.Swallowed rest) :=
  inferInstanceAs (Decidable (_ ∧ _))

omit [DecidableEq ι] in
theorem SplitExpr.Verified.far {e : SplitExpr ι} (verified : e.Verified)
    (far : e.lowerFactor = kPosInf) : e.upperFactor = kPosInf := by
  refine verified.upper.elim id fun ⟨positive, divides⟩ => ?_
  exact verified.upperFits.antisymm (far ▸ Int.le_of_dvd positive divides)

theorem not_swallowed_stay (scanned : scan lhs rest = (lhs, rest)) (scaled : lhs.scale ≠ 0) :
    ¬lhs.Swallowed rest := fun swallowed => scaled <| by
  have same := congrArg (fun pair => pair.1.scale) (scanned.symm.trans swallowed.2)
  exact same

theorem not_swallowed_fold {before after : List (SplitExpr ι)}
    (scanned : scan lhs (before ++ rhs :: after) =
      (lhs.reset, before ++ { rhs with scale := rhs.scale + lhs.scale } :: after))
    (scaled : lhs.scale ≠ 0) : ¬lhs.Swallowed (before ++ rhs :: after) :=
  fun swallowed => scaled <| by
    have same := congrArg Prod.snd (scanned.symm.trans swallowed.2)
    have same := congrArg SplitExpr.scale (List.cons.inj (List.append_cancel_left same)).1
    exact add_eq_left.mp same

theorem scan_value (verified : ∀ e ∈ lhs :: rest, e.Verified) (scaled : lhs.scale ≠ 0) :
    (scan lhs rest).1.value v + total v (scan lhs rest).2 +
      (if lhs.Swallowed rest then lhs.value v else 0) = lhs.value v + total v rest := by
  obtain ⟨first, verified⟩ := List.forall_mem_cons.mp verified
  have gone : lhs.reset.value v = 0 := mul_zero _
  rcases scan_cases first.lower rest with ⟨scanned, -⟩ |
    ⟨before, rhs, after, rfl, index, -, ⟨folds, scanned⟩ | ⟨-, merges, scanned⟩⟩
  · rw [if_neg (not_swallowed_stay scanned scaled), scanned, add_zero]
  · have quotient : rhs.quotient v = lhs.quotient v :=
      (quotient_of_compatible index folds.lower folds.upper folds.compatible).symm
    have sum : SplitExpr.value v { rhs with scale := rhs.scale + lhs.scale } =
        rhs.value v + lhs.value v := by
      change rhs.quotient v * (rhs.scale + lhs.scale) =
        rhs.quotient v * rhs.scale + lhs.quotient v * lhs.scale
      rw [quotient, mul_add]
    rw [if_neg (not_swallowed_fold scanned scaled), scanned, gone, total_append, total_append,
      total_cons, total_cons, sum]
    ring
  · by_cases far : lhs.lowerFactor = kPosInf
    · have same : { rhs with upperFactor := lhs.upperFactor } = rhs := by
        rw [first.far far, ← far, merges.bound]
      rw [same] at scanned
      rw [if_pos ⟨far, scanned⟩, scanned, gone, zero_add, add_comm]
    · have member : rhs ∈ before ++ rhs :: after := List.mem_append_right _ List.mem_cons_self
      rw [if_neg fun swallowed => far swallowed.1, scanned, gone, total_append, total_append,
        total_cons, total_cons, merges.value first (verified rhs member) index far]
      ring

end Scan

end Tvm.Arith
