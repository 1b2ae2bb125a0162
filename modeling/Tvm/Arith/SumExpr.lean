import Mathlib
import Tvm.Arith.ConstFold

/-!
# Sums of splits

`SplitExprNode` and `SumExprNode` of `canonical_simplify.cc` over mathematical integers.  Indices are
only compared, so that they are of any type whose equality is `IndexEqual`.
-/

namespace Tvm.Arith

/-- The largest `int64_t`, which stands for an upper factor that is infinite. -/
def kPosInf : Int := 2 ^ 63 - 1

inductive DivMode where
  | truncDiv
  | floorDiv
  deriving DecidableEq

namespace DivMode

def div : DivMode → Int → Int → Int
  | .truncDiv, a, b => a.tdiv b
  | .floorDiv, a, b => a.fdiv b

def mod : DivMode → Int → Int → Int
  | .truncDiv, a, b => a.tmod b
  | .floorDiv, a, b => a.fmod b

def modImpl : DivMode → BinOp
  | .truncDiv => .mod
  | .floorDiv => .floorMod

def divImpl : DivMode → BinOp
  | .truncDiv => .div
  | .floorDiv => .floorDiv

end DivMode

structure SplitExpr (ι : Type) where
  index : ι
  lowerFactor : Int
  upperFactor : Int
  scale : Int
  divMode : DivMode
  deriving DecidableEq

structure SumExpr (ι : Type) where
  args : List (SplitExpr ι)
  base : Int
  deriving DecidableEq

variable {ι : Type}

/-- `(index % upper_factor) / lower_factor` -/
def SplitExpr.quotient (v : ι → Int) (e : SplitExpr ι) : Int :=
  let x := if e.upperFactor = kPosInf then v e.index else e.divMode.mod (v e.index) e.upperFactor
  e.divMode.div x e.lowerFactor

/-- `((index % upper_factor) / lower_factor) * scale` -/
def SplitExpr.value (v : ι → Int) (e : SplitExpr ι) : Int :=
  e.quotient v * e.scale

def total (v : ι → Int) (args : List (SplitExpr ι)) : Int :=
  (args.map (SplitExpr.value v)).sum

/-- `sum(args) + base` -/
def SumExpr.value (v : ι → Int) (self : SumExpr ι) : Int :=
  total v self.args + self.base

/-- The factors are positive numbers of an `int64_t`, the upper one infinite or a multiple. -/
structure SplitExpr.Verified (e : SplitExpr ι) : Prop where
  lower : 0 < e.lowerFactor
  lowerFits : e.lowerFactor ≤ kPosInf
  upper : e.upperFactor = kPosInf ∨ 0 < e.upperFactor ∧ e.lowerFactor ∣ e.upperFactor
  upperFits : e.upperFactor ≤ kPosInf

/-- Behind each argument come those with its index, of which none has a larger lower factor, and
then those with other indices. -/
def Segmented : List (SplitExpr ι) → Prop
  | [] => True
  | arg :: rest => (∃ segment others, rest = segment ++ others ∧
      (∀ e ∈ segment, e.index = arg.index ∧ e.lowerFactor ≤ arg.lowerFactor) ∧
        ∀ e ∈ others, e.index ≠ arg.index) ∧ Segmented rest

section Add

variable [DecidableEq ι]

def SplitExpr.DivModeCompatibleTo (e : SplitExpr ι) (mode : DivMode) : Prop :=
  e.divMode = mode ∨ e.lowerFactor = 1 ∧ e.upperFactor = kPosInf

instance (e : SplitExpr ι) (mode : DivMode) : Decidable (e.DivModeCompatibleTo mode) :=
  inferInstanceAs (Decidable (_ ∨ _))

/-- The loop from the first argument with the index on. -/
def addFrom (other : SplitExpr ι) (scale : Int) : List (SplitExpr ι) → List (SplitExpr ι)
  | [] => [{ other with scale := other.scale * scale }]
  | arg :: rest =>
    if arg.index ≠ other.index ∨ other.lowerFactor > arg.lowerFactor then
      { other with scale := other.scale * scale } :: arg :: rest
    else if other.lowerFactor = arg.lowerFactor ∧ other.upperFactor = arg.upperFactor ∧
        other.DivModeCompatibleTo arg.divMode then
      { arg with scale := arg.scale + other.scale * scale } :: rest
    else arg :: addFrom other scale rest

/-- The loop up to the first argument with the index. -/
def addArgs (other : SplitExpr ι) (scale : Int) : List (SplitExpr ι) → List (SplitExpr ι)
  | [] => addFrom other scale []
  | arg :: rest =>
    if arg.index = other.index then addFrom other scale (arg :: rest)
    else arg :: addArgs other scale rest

namespace SumExpr

def addSplit (self : SumExpr ι) (other : SplitExpr ι) (scale : Int) : SumExpr ι :=
  if other.scale = 0 then self else { self with args := addArgs other scale self.args }

def addValue (self : SumExpr ι) (value : Int) : SumExpr ι :=
  { self with base := self.base + value }

def addSum (self other : SumExpr ι) (scale : Int) : SumExpr ι :=
  (other.args.foldl (fun self arg => self.addSplit arg scale) self).addValue (other.base * scale)

end SumExpr

variable {v : ι → Int} {other : SplitExpr ι} {scale : Int} {args rest : List (SplitExpr ι)}

omit [DecidableEq ι] in
theorem total_cons (e : SplitExpr ι) : total v (e :: args) = e.value v + total v args :=
  List.sum_cons

omit [DecidableEq ι] in
theorem total_append (args rest : List (SplitExpr ι)) :
    total v (args ++ rest) = total v args + total v rest := by
  rw [total, List.map_append, List.sum_append]
  rfl

omit [DecidableEq ι] in
theorem value_scaled (e : SplitExpr ι) (scale : Int) :
    SplitExpr.value v { e with scale := e.scale * scale } = scale * e.value v := by
  change e.quotient v * (e.scale * scale) = scale * (e.quotient v * e.scale)
  ring

omit [DecidableEq ι] in
theorem DivMode.div_one (mode : DivMode) (x : Int) : mode.div x 1 = x := by
  cases mode with
  | truncDiv => exact Int.tdiv_one x
  | floorDiv => exact Int.fdiv_one x

omit [DecidableEq ι] in
/-- Terms with the same factors differ in their scales only, whatever the modes are where they do
not matter. -/
theorem quotient_of_compatible {a b : SplitExpr ι} (index : a.index = b.index)
    (lower : a.lowerFactor = b.lowerFactor) (upper : a.upperFactor = b.upperFactor)
    (compatible : a.DivModeCompatibleTo b.divMode) : a.quotient v = b.quotient v := by
  rcases compatible with mode | ⟨one, infinite⟩
  · rw [SplitExpr.quotient, index, lower, upper, mode]
    rfl
  · rw [SplitExpr.quotient, SplitExpr.quotient, ← upper, ← lower, ← index, infinite, one, if_pos rfl]
    exact (a.divMode.div_one _).trans (b.divMode.div_one _).symm

theorem total_addFrom (other : SplitExpr ι) (scale : Int) (args : List (SplitExpr ι)) :
    total v (addFrom other scale args) = total v args + scale * other.value v := by
  induction args with
  | nil => rw [addFrom, total_cons, value_scaled, add_comm]
  | cons arg rest ih =>
    rw [addFrom]
    split
    · rw [total_cons, value_scaled, add_comm]
    · rename_i here
      split
      · rename_i equal
        have index := not_not.mp (not_or.mp here).1
        have quotient := quotient_of_compatible (v := v) index.symm equal.1 equal.2.1 equal.2.2
        rw [total_cons, total_cons]
        change arg.quotient v * (arg.scale + other.scale * scale) + total v rest =
          arg.quotient v * arg.scale + total v rest + scale * (other.quotient v * other.scale)
        rw [quotient]
        ring
      · rw [total_cons, total_cons, ih, add_assoc]

theorem total_addArgs (other : SplitExpr ι) (scale : Int) (args : List (SplitExpr ι)) :
    total v (addArgs other scale args) = total v args + scale * other.value v := by
  induction args with
  | nil => exact total_addFrom other scale []
  | cons arg rest ih =>
    rw [addArgs]
    split
    · exact total_addFrom other scale _
    · rw [total_cons, total_cons, ih, add_assoc]

omit [DecidableEq ι] in
theorem Segmented.below {arg e : SplitExpr ι} (segmented : Segmented (arg :: rest))
    (member : e ∈ rest) (same : e.index = arg.index) : e.lowerFactor ≤ arg.lowerFactor := by
  obtain ⟨⟨segment, others, rfl, inside, apart⟩, -⟩ := segmented
  rcases List.mem_append.mp member with member | member
  · exact (inside e member).2
  · exact absurd same (apart e member)

/-- An argument of the sum, or what is added, with another scale. -/
theorem mem_addFrom {e : SplitExpr ι} (member : e ∈ addFrom other scale args) :
    ∃ t ∈ other :: args, ∃ s, e = { t with scale := s } := by
  induction args with
  | nil => exact ⟨other, List.mem_cons_self, _, List.mem_singleton.mp member⟩
  | cons arg rest ih =>
    rw [addFrom] at member
    split at member
    · rcases List.mem_cons.mp member with equal | member
      · exact ⟨other, List.mem_cons_self, _, equal⟩
      · exact ⟨e, List.mem_cons_of_mem other member, e.scale, rfl⟩
    · split at member
      all_goals rcases List.mem_cons.mp member with equal | member
      · exact ⟨arg, List.mem_cons_of_mem other List.mem_cons_self, _, equal⟩
      · exact ⟨e, List.mem_cons_of_mem other (List.mem_cons_of_mem arg member), e.scale, rfl⟩
      · exact ⟨arg, List.mem_cons_of_mem other List.mem_cons_self, arg.scale, equal⟩
      · obtain ⟨t, member, equal⟩ := ih member
        exact ⟨t, List.cons_subset_cons other (List.subset_cons_self arg rest) member, equal⟩

theorem mem_addArgs {e : SplitExpr ι} (member : e ∈ addArgs other scale args) :
    ∃ t ∈ other :: args, ∃ s, e = { t with scale := s } := by
  induction args with
  | nil => exact mem_addFrom member
  | cons arg rest ih =>
    rw [addArgs] at member
    split at member
    · exact mem_addFrom member
    · rcases List.mem_cons.mp member with equal | member
      · exact ⟨arg, List.mem_cons_of_mem other List.mem_cons_self, arg.scale, equal⟩
      · obtain ⟨t, member, equal⟩ := ih member
        exact ⟨t, List.cons_subset_cons other (List.subset_cons_self arg rest) member, equal⟩

theorem addArgs_skip {before : List (SplitExpr ι)} (apart : ∀ e ∈ before, e.index ≠ other.index) :
    addArgs other scale (before ++ rest) = before ++ addArgs other scale rest := by
  induction before with
  | nil => rfl
  | cons e before ih =>
    obtain ⟨first, apart⟩ := List.forall_mem_cons.mp apart
    rw [List.cons_append, addArgs, if_neg first, ih apart, List.cons_append]

theorem addFrom_segment (terms : List (SplitExpr ι)) {others : List (SplitExpr ι)} (scale : Int)
    (same : ∀ e ∈ terms, e.index = other.index) (apart : ∀ e ∈ others, e.index ≠ other.index)
    (segmented : Segmented (terms ++ others)) :
    ∃ terms', addFrom other scale (terms ++ others) = terms' ++ others ∧
      (∀ e ∈ terms', e.index = other.index) ∧ Segmented (terms' ++ others) := by
  induction terms with
  | nil =>
    have alone : addFrom other scale others =
        [{ other with scale := other.scale * scale }] ++ others := by
      cases others with
      | nil => rfl
      | cons e others => exact if_pos (.inl (apart e List.mem_cons_self))
    refine ⟨_, alone, fun e member => ?_, ⟨[], others, rfl, nofun, apart⟩, segmented⟩
    rw [List.mem_singleton.mp member]
  | cons t terms ih =>
    obtain ⟨first, same'⟩ := List.forall_mem_cons.mp same
    have below (e : SplitExpr ι) (member : e ∈ terms) : e.lowerFactor ≤ t.lowerFactor :=
      segmented.below (List.mem_append_left others member) ((same' e member).trans first.symm)
    have apart' (e : SplitExpr ι) (member : e ∈ others) : e.index ≠ t.index :=
      fun equal => apart e member (equal.trans first)
    rw [List.cons_append, addFrom]
    split
    · rename_i larger
      have above := larger.resolve_left (not_not.mpr first)
      refine ⟨{ other with scale := other.scale * scale } :: t :: terms, rfl,
        List.forall_mem_cons.mpr ⟨rfl, same⟩,
        ⟨t :: terms, others, rfl, fun e member => ⟨same e member, ?_⟩, apart⟩, segmented⟩
      rcases List.mem_cons.mp member with rfl | member
      · exact above.le
      · exact (below e member).trans above.le
    · rename_i here
      split
      · exact ⟨{ t with scale := t.scale + other.scale * scale } :: terms, rfl,
          List.forall_mem_cons.mpr ⟨first, same'⟩, ⟨terms, others, rfl, fun e member =>
            ⟨(same' e member).trans first.symm, below e member⟩, apart'⟩, segmented.2⟩
      · obtain ⟨terms', added, inTerms, segmented'⟩ := ih same' segmented.2
        refine ⟨t :: terms', by rw [added, List.cons_append],
          List.forall_mem_cons.mpr ⟨first, inTerms⟩, ⟨terms', others, rfl, fun e member =>
            ⟨(inTerms e member).trans first.symm, ?_⟩, apart'⟩, segmented'⟩
        obtain ⟨u, origin, s, rfl⟩ := mem_addFrom (added ▸ List.mem_append_left others member)
        rcases List.mem_cons.mp origin with rfl | origin
        · exact not_lt.mp (not_or.mp here).2
        · rcases List.mem_append.mp origin with origin | origin
          · exact below u origin
          · exact absurd (inTerms _ member) (apart u origin)

theorem Segmented.addArgs (segmented : Segmented args) (other : SplitExpr ι) (scale : Int) :
    Segmented (addArgs other scale args) := by
  induction args with
  | nil => exact ⟨⟨[], [], rfl, nofun, nofun⟩, trivial⟩
  | cons arg rest ih =>
    obtain ⟨⟨segment, others, rfl, inside, apart⟩, segmentedRest⟩ := id segmented
    rw [Tvm.Arith.addArgs]
    split
    · rename_i here
      obtain ⟨terms', added, -, segmented'⟩ := addFrom_segment (arg :: segment) scale
        (List.forall_mem_cons.mpr ⟨here, fun e member => (inside e member).1.trans here⟩)
        (fun e member equal => apart e member (equal.trans here.symm)) segmented
      rw [← List.cons_append, added]
      exact segmented'
    · rename_i notHere
      have segmented' := ih segmentedRest
      rw [addArgs_skip fun e member equal => notHere ((inside e member).1.symm.trans equal)]
        at segmented' ⊢
      refine ⟨⟨segment, _, rfl, inside, fun e member equal => ?_⟩, segmented'⟩
      obtain ⟨t, origin, s, rfl⟩ := mem_addArgs member
      rcases List.mem_cons.mp origin with rfl | origin
      · exact notHere equal.symm
      · exact apart t origin equal

def SumExpr.Verified (self : SumExpr ι) : Prop :=
  ∀ e ∈ self.args, e.Verified

namespace SumExpr

variable {self : SumExpr ι}

theorem value_addSplit (self : SumExpr ι) (other : SplitExpr ι) (scale : Int) :
    (self.addSplit other scale).value v = self.value v + scale * other.value v := by
  rw [addSplit]
  split
  · rename_i zero
    rw [SplitExpr.value, zero, mul_zero, mul_zero, add_zero]
  · rw [value, value, total_addArgs]
    ring

theorem verified_addSplit (verified : self.Verified) (other' : other.Verified) :
    (self.addSplit other scale).Verified := by
  rw [addSplit]
  split
  · exact verified
  · intro e member
    obtain ⟨t, origin, s, rfl⟩ := mem_addArgs member
    rcases List.mem_cons.mp origin with rfl | origin
    · exact ⟨other'.lower, other'.lowerFits, other'.upper, other'.upperFits⟩
    · have valid := verified t origin
      exact ⟨valid.lower, valid.lowerFits, valid.upper, valid.upperFits⟩

theorem segmented_addSplit (segmented : Segmented self.args) :
    Segmented (self.addSplit other scale).args := by
  rw [addSplit]
  split
  · exact segmented
  · exact segmented.addArgs other scale

theorem addSum_spec (self addend : SumExpr ι) (scale : Int) :
    (self.addSum addend scale).value v = self.value v + scale * addend.value v ∧
      (self.Verified → addend.Verified → (self.addSum addend scale).Verified) ∧
      (Segmented self.args → Segmented (self.addSum addend scale).args) := by
  obtain ⟨terms, base⟩ := addend
  induction terms generalizing self with
  | nil =>
    refine ⟨?_, fun verified _ => verified, id⟩
    change total v self.args + (self.base + base * scale) = self.value v + scale * (0 + base)
    rw [value]
    ring
  | cons other terms ih =>
    obtain ⟨changed, verified', segmented'⟩ := ih (self.addSplit other scale)
    refine ⟨changed.trans ?_, fun verified terms' => ?_, fun segmented => ?_⟩
    · rw [value_addSplit, value, value, value, total_cons]
      ring
    · obtain ⟨first, terms'⟩ := List.forall_mem_cons.mp terms'
      exact verified' (verified_addSplit verified first) terms'
    · exact segmented' (segmented_addSplit segmented)

end SumExpr

end Add

end Tvm.Arith
