import Mathlib
import Tvm.Te.ScheduleExact

/-!
# The domains of the roots from those of the leaves

`PassUpDomain` of `message_passing.cc` for stages without `Transform`, with `FromRange` and
`MatchRange` of `int_set.cc`, over mathematical integers.  `none` is an index or a check that fails,
or arithmetic on an infinite bound, whose type no integer matches.
-/

namespace Tvm.Te

open Arith PrimExpr Lib

/-- `EvalSet`, `Simplify` of a new analyzer and the `CanProveEqual` of `IsSinglePoint`, which holds
of identical nodes. -/
structure SetAnalyzer where
  evalSet : DomMap → PrimExpr → IntervalSet
  simplify : PrimExpr → PrimExpr
  canProveEqual : PrimExpr → PrimExpr → Bool

def fromRange (r : Range) : IntervalSet :=
  if r.extent = .intImm 1 then .singlePoint r.min
  else ⟨.expr r.min, .expr (make .sub (make .add r.extent r.min) (.intImm 1))⟩

/-- `IntSet::Interval`; of identical nodes it is their single point. -/
def interval (min max : PrimExpr) : IntervalSet :=
  ⟨.expr min, .expr max⟩

section Model

variable (analyzer : SetAnalyzer)

def proveEqual (lhs rhs : PrimExpr) : Bool :=
  isZero (analyzer.simplify (make .sub lhs rhs))

def matchRange (a : IntervalSet) (b : Range) : Bool :=
  match a.upperBound, a.lowerBound with
  | some upper, some lower =>
    proveEqual analyzer lower b.min &&
      proveEqual analyzer upper (make .sub (make .add b.extent b.min) (.intImm 1))
  | _, _ => false

/-- `IsSinglePoint`; no limit is equal to an expression. -/
def isSinglePoint (set : IntervalSet) : Bool :=
  match set.minValue, set.maxValue with
  | .expr lower, .expr upper => analyzer.canProveEqual lower upper
  | lower, upper => decide (lower = upper)

/-- The expression of a bound on which there is arithmetic. -/
def Limit.finite : Limit → Option PrimExpr
  | .expr e => some e
  | _ => none

def passUpDomainSplit (domMap : Ranges) (parent outer inner : Var)
    (outerSet innerSet : IntervalSet) : Option IntervalSet := do
  let rangeInner ← domMap.lookup inner
  let rangeParent ← domMap.lookup parent
  if (domMap.lookup outer).any (matchRange analyzer outerSet) &&
      matchRange analyzer innerSet rangeInner then
    return fromRange rangeParent
  else
    return analyzer.evalSet [(outer, outerSet), (inner, innerSet)]
      (make .add (make .add (make .mul (.var outer) rangeInner.extent) (.var inner))
        rangeParent.min)

/-- The domain of the inner variable where the fused one has an interval: tight where the interval
never spans several rows. -/
def fusedInner (rangeInner : Range) (lower upper : PrimExpr) : Option IntervalSet := do
  let fusedExtent := make .add (make .sub upper lower) (.intImm 1)
  let rows ← makeBinary .floorMod rangeInner.extent fusedExtent
  let start ← makeBinary .floorMod lower fusedExtent
  if isZero (analyzer.simplify rows) && isZero (analyzer.simplify start) then
    let first ← makeBinary .floorMod lower rangeInner.extent
    let last ← makeBinary .floorMod upper rangeInner.extent
    return interval (make .add rangeInner.min first) (make .add rangeInner.min last)
  else
    return fromRange rangeInner

def passUpDomainFuse (domMap : Ranges) (outer inner fused : Var) (set : IntervalSet) :
    Option (IntervalSet × IntervalSet) := do
  let rangeOuter ← domMap.lookup outer
  let rangeInner ← domMap.lookup inner
  let rangeFused ← domMap.lookup fused
  if matchRange analyzer set rangeFused then
    return (fromRange rangeOuter, fromRange rangeInner)
  else if isSinglePoint analyzer set then
    let value ← Limit.finite set.minValue
    let quotient ← makeBinary .floorDiv value rangeInner.extent
    let remainder ← makeBinary .floorMod value rangeInner.extent
    return (.singlePoint (addMin quotient rangeOuter.min),
      .singlePoint (addMin remainder rangeInner.min))
  else
    let upper ← Limit.finite set.maxValue
    let lower ← Limit.finite set.minValue
    let first ← makeBinary .floorDiv lower rangeInner.extent
    let last ← makeBinary .floorDiv upper rangeInner.extent
    let innerSet ← fusedInner analyzer rangeInner lower upper
    return (interval (make .add rangeOuter.min first) (make .add rangeOuter.min last), innerSet)

def passUpDomainRebase (domMap : Ranges) (parent rebased : Var) (set : IntervalSet) :
    Option IntervalSet := do
  let rangeParent ← domMap.lookup parent
  let rangeRebased ← domMap.lookup rebased
  if matchRange analyzer set rangeRebased then
    return fromRange rangeParent
  else
    return analyzer.evalSet [(rebased, set)] (make .add (.var rebased) rangeParent.min)

def passUpDomainRelation (domMap : Ranges) (state : Var → Option IntervalSet)
    (relation : IterVarRelation) : Option (Var → Option IntervalSet) :=
  match relation with
  | .split parent outer inner _ => do
    let outerSet ← state outer
    let innerSet ← state inner
    let set ← passUpDomainSplit analyzer domMap parent outer inner outerSet innerSet
    return Function.update state parent (some set)
  | .fuse outer inner fused => do
    let fusedSet ← state fused
    let (outerSet, innerSet) ← passUpDomainFuse analyzer domMap outer inner fused fusedSet
    return Function.update (Function.update state outer (some outerSet)) inner (some innerSet)
  | .rebase parent rebased => do
    let rebasedSet ← state rebased
    let set ← passUpDomainRebase analyzer domMap parent rebased rebasedSet
    return Function.update state parent (some set)
  | .singleton _ => some state

def passUpDomain (stage : Stage) (domMap : Ranges) (state : Var → Option IntervalSet) :
    Option (Var → Option IntervalSet) :=
  stage.relations.reverse.foldlM (passUpDomainRelation analyzer domMap) state

end Model

def boundVars (set : IntervalSet) : List Var :=
  (set.minValue.exprs ++ set.maxValue.exprs).flatMap vars

def SortedBounds (set : IntervalSet) : Prop :=
  ∀ bound ∈ set.minValue.exprs ++ set.maxValue.exprs, bound.Sorted .int

/-- The answers are right: a simplification keeps the value, equality is only proved of equal
values, and a set contains the value wherever the mapped variables are in their sets; it is about
the variables of these sets and those that are not mapped. -/
structure SetAnalyzer.Sound (analyzer : SetAnalyzer) : Prop where
  simplifies : ∀ e env v, e.value env = some v → (analyzer.simplify e).value env = some v
  proves : ∀ a b, analyzer.canProveEqual a b = true → ∀ env x y, a.value env = some x →
    b.value env = some y → x = y
  contains : ∀ (domMap : DomMap) e env v,
    (∀ w set, domMap.find w = some set → set.Contains (fun _ _ => none) env (env w)) →
      e.value env = some v → (analyzer.evalSet domMap e).Contains (fun _ _ => none) env v
  sorted : ∀ (domMap : DomMap) e, e.Sorted .int →
    (∀ w set, domMap.find w = some set → SortedBounds set) → SortedBounds (analyzer.evalSet domMap e)
  vars : ∀ (domMap : DomMap) e, ∀ w ∈ boundVars (analyzer.evalSet domMap e),
    (w ∈ e.vars ∧ domMap.find w = none) ∨
      ∃ u set, domMap.find u = some set ∧ w ∈ boundVars set

/-- The set contains the value, and its bounds are integers over the variables that are not
hidden. -/
structure Covers (hidden : Set Var) (env : Env) (set : IntervalSet) (x : Int) : Prop where
  contains : set.Contains (fun _ _ => none) env x
  sorted : SortedBounds set
  closed : ∀ w ∈ boundVars set, w ∉ hidden

def Unbounded (set : IntervalSet) : Prop :=
  set.minValue = .negInf ∨ set.maxValue = .posInf

section Sets

variable {analyzer : SetAnalyzer} {hidden : Set Var} {env : Env} {domMap : Ranges}
  {a b e : PrimExpr} {set : IntervalSet} {x y v low extent : Int} {range : Range}

theorem covers_interval (left : Fixed hidden env a x) (right : Fixed hidden env b y) (lower : x ≤ v)
    (upper : v ≤ y) : Covers hidden env (interval a b) v where
  contains := ⟨⟨x, left.value, lower⟩, y, right.value, upper⟩
  sorted := by
    intro bound member
    rcases List.mem_pair.mp member with rfl | rfl
    · exact left.sorted
    · exact right.sorted
  closed := by
    intro w member
    obtain ⟨bound, isBound, inVars⟩ := List.mem_flatMap.mp member
    rcases List.mem_pair.mp isBound with rfl | rfl
    · exact left.closed w inVars
    · exact right.closed w inVars

theorem covers_fromRange (min : Fixed hidden env range.min low)
    (isExtent : Fixed hidden env range.extent extent) (lower : low ≤ x) (upper : x < low + extent) :
    Covers hidden env (fromRange range) x := by
  rw [fromRange]
  by_cases one : range.extent = .intImm 1
  · rw [if_pos one]
    have isOne : extent = 1 := by
      have value := isExtent.value
      rw [one] at value
      exact (Option.some.inj value).symm
    exact covers_interval min min lower (by omega)
  · rw [if_neg one]
    have last : Fixed hidden env (make .sub (make .add range.extent range.min) (.intImm 1))
        (extent + low - 1) :=
      (isExtent.make min rfl rfl rfl).make (.intImm 1) rfl rfl rfl
    exact covers_interval min last lower (by omega)

theorem covers_evalSet (sound : analyzer.Sound) {sets : DomMap} {mapped : Finset Var}
    {f : Env → Int} (computes : Computes hidden mapped env e f)
    (isMapped : ∀ w ∈ mapped, sets.find w ≠ none)
    (covers : ∀ w set, sets.find w = some set → Covers hidden env set (env w)) :
    Covers hidden env (analyzer.evalSet sets e) (f env) where
  contains := sound.contains sets e env _ (fun w set found => (covers w set found).contains)
    (computes.value env fun _ _ => rfl)
  sorted := sound.sorted sets e computes.sorted fun w set found => (covers w set found).sorted
  closed := by
    intro w member
    rcases sound.vars sets e w member with ⟨inVars, unmapped⟩ | ⟨u, set, found, inSet⟩
    · exact (computes.closed w inVars).resolve_left fun isMember => isMapped w isMember unmapped
    · exact (covers u set found).closed w inSet

theorem Covers.cases (covers : Covers hidden env set v) :
    Unbounded set ∨ ∃ lower upper x y, set = interval lower upper ∧ Fixed hidden env lower x ∧
      Fixed hidden env upper y ∧ x ≤ v ∧ v ≤ y := by
  obtain ⟨⟨below, above⟩, sorted, closed⟩ := covers
  obtain ⟨minValue, maxValue⟩ := set
  cases minValue with
  | negInf => exact .inl (.inl rfl)
  | posInf => exact below.elim
  | expr lower =>
    cases maxValue with
    | negInf => exact above.elim
    | posInf => exact .inl (.inr rfl)
    | expr upper =>
      obtain ⟨x, isLower, lowerBound⟩ := below
      obtain ⟨y, isUpper, upperBound⟩ := above
      refine .inr ⟨lower, upper, x, y, rfl, ⟨sorted lower ?_, ?_, isLower⟩,
        ⟨sorted upper ?_, ?_, isUpper⟩, lowerBound, upperBound⟩
      · exact List.mem_cons_self
      · exact fun w member => closed w (List.mem_flatMap.mpr ⟨lower, List.mem_cons_self, member⟩)
      · exact List.mem_cons_of_mem _ List.mem_cons_self
      · exact fun w member => closed w
          (List.mem_flatMap.mpr ⟨upper, List.mem_cons_of_mem _ List.mem_cons_self, member⟩)

end Sets

section Relations

variable {analyzer : SetAnalyzer} {hidden : Set Var} {env : Env} {domMap : Ranges}
  {bounds : AxisBounds Var} {set : IntervalSet} {parent outer inner fused rebased iv : Var}

theorem find_cons_self {sets : DomMap} : DomMap.find ((iv, set) :: sets) iv = some set := by
  rw [DomMap.find, List.lookup_cons, beq_self_eq_true]

theorem find_cons_of_ne {sets : DomMap} {v : Var} (apart : v ≠ iv) :
    DomMap.find ((iv, set) :: sets) v = sets.find v := by
  rw [DomMap.find, List.lookup_cons, beq_eq_false_iff_ne.mpr apart, DomMap.find]

theorem find_singleton {v : Var} {other : IntervalSet}
    (found : DomMap.find [(iv, set)] v = some other) : v = iv ∧ set = other := by
  by_cases same : v = iv
  · rw [same, find_cons_self] at found
    exact ⟨same, Option.some.inj found⟩
  · rw [find_cons_of_ne same] at found
    cases found

def RangeAt (hidden : Set Var) (env : Env) (domMap : Ranges) (bounds : AxisBounds Var) (iv : Var) :
    Prop :=
  ∃ range, domMap.lookup iv = some range ∧ Fixed hidden env range.min (bounds.low iv) ∧
    Fixed hidden env range.extent (bounds.extent iv) ∧ 0 < bounds.extent iv

theorem passUpDomainSplit_covers (sound : analyzer.Sound) (apart : outer ≠ inner)
    (innerRange : RangeAt hidden env domMap bounds inner)
    (parentRange : RangeAt hidden env domMap bounds parent) {outerSet innerSet : IntervalSet}
    (outerCovers : Covers hidden env outerSet (env outer))
    (innerCovers : Covers hidden env innerSet (env inner))
    (value : env parent = env inner + env outer * bounds.extent inner + bounds.low parent)
    (inRange : bounds.Contains env parent) :
    ∃ set, passUpDomainSplit analyzer domMap parent outer inner outerSet innerSet = some set ∧
      Covers hidden env set (env parent) := by
  obtain ⟨rangeInner, foundInner, _, innerExtent, _⟩ := innerRange
  obtain ⟨rangeParent, foundParent, parentMin, parentExtent, _⟩ := parentRange
  simp only [passUpDomainSplit, foundInner, foundParent, Option.bind_eq_bind, Option.bind_some,
    Option.pure_def]
  split
  · exact ⟨_, rfl, covers_fromRange parentMin parentExtent inRange.1 inRange.2⟩
  · refine ⟨_, rfl, ?_⟩
    have isOuter := Finset.mem_insert_self outer {inner}
    have isInner : inner ∈ ({outer, inner} : Finset Var) :=
      Finset.mem_insert_of_mem (Finset.mem_singleton_self inner)
    have computes : Computes hidden {outer, inner} env (make .add (make .add
        (make .mul (.var outer) rangeInner.extent) (.var inner)) rangeParent.min)
        (fun env => env outer * bounds.extent inner + env inner + bounds.low parent) :=
      Computes.make (Computes.make (Computes.make (.var isOuter) innerExtent.computes rfl rfl
        fun _ => rfl) (.var isInner) rfl rfl fun _ => rfl) parentMin.computes rfl rfl fun _ => rfl
    rw [value, add_comm (env inner)]
    apply covers_evalSet sound computes
    · intro w member
      rcases Finset.mem_insert.mp member with rfl | isLast
      · rw [find_cons_self]
        exact Option.some_ne_none _
      · rw [Finset.mem_singleton.mp isLast, find_cons_of_ne apart.symm, find_cons_self]
        exact Option.some_ne_none _
    · intro w set found
      by_cases isOuter : w = outer
      · rw [isOuter, find_cons_self] at found
        rw [isOuter, ← Option.some.inj found]
        exact outerCovers
      · rw [find_cons_of_ne isOuter] at found
        obtain ⟨rfl, rfl⟩ := find_singleton found
        exact innerCovers

theorem passUpDomainRebase_covers (sound : analyzer.Sound)
    (rebasedRange : RangeAt hidden env domMap bounds rebased)
    (parentRange : RangeAt hidden env domMap bounds parent)
    (covers : Covers hidden env set (env rebased))
    (value : env parent = env rebased + bounds.low parent)
    (inRange : bounds.Contains env parent) :
    ∃ parentSet, passUpDomainRebase analyzer domMap parent rebased set = some parentSet ∧
      Covers hidden env parentSet (env parent) := by
  obtain ⟨rangeRebased, foundRebased, _⟩ := rebasedRange
  obtain ⟨rangeParent, foundParent, parentMin, parentExtent, _⟩ := parentRange
  simp only [passUpDomainRebase, foundRebased, foundParent, Option.bind_eq_bind, Option.bind_some,
    Option.pure_def]
  split
  · exact ⟨_, rfl, covers_fromRange parentMin parentExtent inRange.1 inRange.2⟩
  · refine ⟨_, rfl, ?_⟩
    have computes : Computes hidden {rebased} env (make .add (.var rebased) rangeParent.min)
        (fun env => env rebased + bounds.low parent) :=
      Computes.make (.var (Finset.mem_singleton_self rebased)) parentMin.computes rfl rfl
        fun _ => rfl
    rw [value]
    apply covers_evalSet sound computes
    · intro w member
      rw [Finset.mem_singleton.mp member, find_cons_self]
      exact Option.some_ne_none _
    · intro w other found
      obtain ⟨rfl, rfl⟩ := find_singleton found
      exact covers

theorem Fixed.division {a b : PrimExpr} {x y : Int} (left : Fixed hidden env a x)
    (right : Fixed hidden env b y) (positive : 0 < y) :
    Fixed hidden env (PrimExpr.make .floorDiv a b) (x / y) ∧
      Fixed hidden env (PrimExpr.make .floorMod a b) (x % y) := by
  constructor
  · refine left.make right rfl rfl ?_
    rw [← fdiv_eq_ediv positive]
    exact if_neg positive.ne'
  · refine left.make right rfl rfl ?_
    rw [← fmod_eq_emod positive]
    exact if_neg positive.ne'

theorem eq_zero_of_isZero (sound : analyzer.Sound) {e : PrimExpr} {x : Int}
    (value : e.value env = some x) (zero : isZero (analyzer.simplify e) = true) : x = 0 := by
  have literal : analyzer.simplify e = .intImm 0 := of_decide_eq_true zero
  have same := sound.simplifies e env x value
  rw [literal] at same
  exact (Option.some.inj same).symm

theorem Fixed.exists_division {b : PrimExpr} {y : Int} (right : Fixed hidden env b y)
    (positive : 0 < y) (a : PrimExpr) :
    makeBinary .floorDiv a b = some (PrimExpr.make .floorDiv a b) ∧
      makeBinary .floorMod a b = some (PrimExpr.make .floorMod a b) :=
  ⟨exists_makeBinary .floorDiv (.inl rfl) right.value positive.ne',
    exists_makeBinary .floorMod (.inr rfl) right.value positive.ne'⟩

theorem fusedInner_covers (sound : analyzer.Sound) {range : Range} {low extent x y v : Int}
    {lower upper : PrimExpr} (min : Fixed hidden env range.min low)
    (isExtent : Fixed hidden env range.extent extent) (positive : 0 < extent)
    (isLower : Fixed hidden env lower x) (isUpper : Fixed hidden env upper y) (above : x ≤ v)
    (below : v ≤ y) :
    ∃ set, fusedInner analyzer range lower upper = some set ∧
      Covers hidden env set (v % extent + low) := by
  have span : Fixed hidden env (make .add (make .sub upper lower) (.intImm 1)) (y - x + 1) :=
    (isUpper.make isLower rfl rfl rfl).make (.intImm 1) rfl rfl rfl
  have nonempty : 0 < y - x + 1 := by omega
  have firstFixed := (isLower.division isExtent positive).2
  have lastFixed := (isUpper.division isExtent positive).2
  simp only [fusedInner, (span.exists_division nonempty _).2,
    (isExtent.exists_division positive _).2, Option.bind_eq_bind, Option.bind_some,
    Option.pure_def]
  split
  · rename_i aligned
    obtain ⟨rows, start⟩ := Bool.and_eq_true_iff.mp aligned
    have divides : y - x + 1 ∣ extent :=
      Int.dvd_of_emod_eq_zero (eq_zero_of_isZero sound (isExtent.division span nonempty).2.value rows)
    have multiple : y - x + 1 ∣ x :=
      Int.dvd_of_emod_eq_zero (eq_zero_of_isZero sound (isLower.division span nonempty).2.value start)
    have inRow : ∀ t, 0 ≤ t → t < y - x + 1 → (x + t) % extent = x % extent + t :=
      fun t nonneg inside => emod_add_of_dvd positive divides multiple nonneg inside
    have isValue := inRow (v - x) (by omega) (by omega)
    have isLast := inRow (y - x) (by omega) (by omega)
    rw [add_sub_cancel] at isValue isLast
    refine ⟨_, rfl, covers_interval (min.make firstFixed rfl rfl rfl)
      (min.make lastFixed rfl rfl rfl) ?_ ?_⟩ <;> omega
  · have lower := Int.emod_nonneg v positive.ne'
    have upper := Int.emod_lt_of_pos v positive
    exact ⟨_, rfl, covers_fromRange min isExtent (by omega) (by omega)⟩

/-- The sets of the outer and the inner variable cover what the fused one is taken apart into. -/
theorem passUpDomainFuse_covers (sound : analyzer.Sound)
    (outerRange : RangeAt hidden env domMap bounds outer)
    (innerRange : RangeAt hidden env domMap bounds inner)
    (fusedRange : RangeAt hidden env domMap bounds fused)
    (covers : Covers hidden env set (env fused))
    (outerValue : env outer = env fused / bounds.extent inner + bounds.low outer)
    (innerValue : env inner = env fused % bounds.extent inner + bounds.low inner)
    (outerInRange : bounds.Contains env outer) (innerInRange : bounds.Contains env inner) :
    Unbounded set ∨ ∃ outerSet innerSet,
      passUpDomainFuse analyzer domMap outer inner fused set = some (outerSet, innerSet) ∧
        Covers hidden env outerSet (env outer) ∧ Covers hidden env innerSet (env inner) := by
  obtain ⟨rangeOuter, foundOuter, outerMin, outerExtent, _⟩ := outerRange
  obtain ⟨rangeInner, foundInner, innerMin, innerExtent, positive⟩ := innerRange
  obtain ⟨rangeFused, foundFused, _⟩ := fusedRange
  rcases covers.cases with infinite | ⟨lower, upper, x, y, rfl, isLower, isUpper, above, below⟩
  · exact .inl infinite
  right
  simp only [passUpDomainFuse, foundOuter, foundInner, foundFused, Option.bind_eq_bind,
    Option.bind_some, Option.pure_def, Limit.finite, interval,
    (innerExtent.exists_division positive _).1, (innerExtent.exists_division positive _).2]
  split
  · exact ⟨_, _, rfl, covers_fromRange outerMin outerExtent outerInRange.1 outerInRange.2,
      covers_fromRange innerMin innerExtent innerInRange.1 innerInRange.2⟩
  split
  · rename_i point
    have same := sound.proves lower upper point env x y isLower.value isUpper.value
    have isValue : x = env fused := by omega
    obtain ⟨quotient, remainder⟩ := isLower.division innerExtent positive
    refine ⟨_, _, rfl, ?_, ?_⟩
    · have sum := (quotient.computes.addMin outerMin).fixed
      rw [isValue, ← outerValue] at sum
      exact covers_interval sum sum le_rfl le_rfl
    · have sum := (remainder.computes.addMin innerMin).fixed
      rw [isValue, ← innerValue] at sum
      exact covers_interval sum sum le_rfl le_rfl
  · obtain ⟨innerSet, made, innerCovers⟩ :=
      fusedInner_covers sound innerMin innerExtent positive isLower isUpper above below
    rw [made]
    rw [← innerValue] at innerCovers
    refine ⟨_, innerSet, rfl, ?_, innerCovers⟩
    have first := Int.ediv_le_ediv positive above
    have last := Int.ediv_le_ediv positive below
    refine covers_interval (outerMin.make (isLower.division innerExtent positive).1 rfl rfl rfl)
      (outerMin.make (isUpper.division innerExtent positive).1 rfl rfl rfl) ?_ ?_ <;> omega

/-- The sets of the parents cover their values, unless a fused variable has an infinite bound. -/
theorem passUpDomainRelation_covers (sound : analyzer.Sound) {relation : IterVarRelation}
    (distinct : relation.axes.Distinct)
    (ranges : ∀ iv ∈ relation.axes.parents ∪ relation.axes.children,
      RangeAt hidden env domMap bounds iv)
    (values : ∀ parent ∈ relation.axes.parents,
      env parent = relation.axes.up bounds env parent ∧ bounds.Contains env parent)
    {state : Var → Option IntervalSet}
    (children : ∀ child ∈ relation.axes.children,
      ∃ set, state child = some set ∧ Covers hidden env set (env child)) :
    (∃ outer inner fused set, relation = .fuse outer inner fused ∧ state fused = some set ∧
        Unbounded set) ∨
      ∃ next, passUpDomainRelation analyzer domMap state relation = some next ∧
        (∀ parent ∈ relation.axes.parents,
          ∃ set, next parent = some set ∧ Covers hidden env set (env parent)) ∧
        ∀ v, v ∉ relation.axes.parents → next v = state v := by
  cases relation with
  | split parent outer inner amount =>
    have isParent := Finset.mem_singleton_self parent
    have isOuter := Finset.mem_insert_self outer {inner}
    have isInner : inner ∈ ({outer, inner} : Finset Var) :=
      Finset.mem_insert_of_mem (Finset.mem_singleton_self inner)
    obtain ⟨outerSet, hasOuter, outerCovers⟩ := children outer isOuter
    obtain ⟨innerSet, hasInner, innerCovers⟩ := children inner isInner
    obtain ⟨value, inRange⟩ := values parent isParent
    rw [IterVarRelation.axes, AxisRelation.up, Function.update_self] at value
    obtain ⟨set, made, covers⟩ := passUpDomainSplit_covers sound distinct
      (ranges inner (Finset.mem_union_right _ isInner))
      (ranges parent (Finset.mem_union_left _ isParent)) outerCovers innerCovers value inRange
    refine .inr ⟨Function.update state parent (some set), ?_, ?_, ?_⟩
    · simp only [passUpDomainRelation, hasOuter, hasInner, made, Option.bind_eq_bind,
        Option.bind_some, Option.pure_def]
    · intro place member
      rw [Finset.mem_singleton.mp member]
      exact ⟨set, Function.update_self _ _ _, covers⟩
    · exact fun v outside =>
        Function.update_of_ne (fun same => outside (Finset.mem_singleton.mpr same)) _ _
  | fuse outer inner fused =>
    have apart : outer ≠ inner := distinct
    have isOuter := Finset.mem_insert_self outer {inner}
    have isInner : inner ∈ ({outer, inner} : Finset Var) :=
      Finset.mem_insert_of_mem (Finset.mem_singleton_self inner)
    have isFused := Finset.mem_singleton_self fused
    obtain ⟨fusedSet, hasFused, fusedCovers⟩ := children fused isFused
    obtain ⟨outerValue, outerInRange⟩ := values outer isOuter
    obtain ⟨innerValue, innerInRange⟩ := values inner isInner
    rw [IterVarRelation.axes, AxisRelation.up, Function.update_of_ne apart,
      Function.update_self] at outerValue
    rw [IterVarRelation.axes, AxisRelation.up, Function.update_self] at innerValue
    rcases passUpDomainFuse_covers sound (ranges outer (Finset.mem_union_left _ isOuter))
      (ranges inner (Finset.mem_union_left _ isInner))
      (ranges fused (Finset.mem_union_right _ isFused)) fusedCovers outerValue innerValue
      outerInRange innerInRange with infinite | ⟨outerSet, innerSet, made, outerCovers, innerCovers⟩
    · exact .inl ⟨outer, inner, fused, fusedSet, rfl, hasFused, infinite⟩
    · refine .inr ⟨Function.update (Function.update state outer (some outerSet)) inner
        (some innerSet), ?_, ?_, ?_⟩
      · simp only [passUpDomainRelation, hasFused, made, Option.bind_eq_bind, Option.bind_some,
          Option.pure_def]
      · intro place member
        by_cases last : place = inner
        · rw [last]
          exact ⟨innerSet, Function.update_self _ _ _, innerCovers⟩
        · have first : place = outer := by
            rcases Finset.mem_insert.mp member with same | rest
            · exact same
            · exact absurd (Finset.mem_singleton.mp rest) last
          refine ⟨outerSet, ?_, first ▸ outerCovers⟩
          rw [Function.update_of_ne last, first, Function.update_self]
      · intro v outside
        simp only [IterVarRelation.axes, AxisRelation.parents, Finset.mem_insert,
          Finset.mem_singleton, not_or] at outside
        rw [Function.update_of_ne outside.2, Function.update_of_ne outside.1]
  | rebase parent rebased =>
    have isParent := Finset.mem_singleton_self parent
    have isRebased := Finset.mem_singleton_self rebased
    obtain ⟨rebasedSet, hasRebased, rebasedCovers⟩ := children rebased isRebased
    obtain ⟨value, inRange⟩ := values parent isParent
    rw [IterVarRelation.axes, AxisRelation.up, Function.update_self] at value
    obtain ⟨set, made, covers⟩ := passUpDomainRebase_covers sound
      (ranges rebased (Finset.mem_union_right _ isRebased))
      (ranges parent (Finset.mem_union_left _ isParent)) rebasedCovers value inRange
    refine .inr ⟨Function.update state parent (some set), ?_, ?_, ?_⟩
    · simp only [passUpDomainRelation, hasRebased, made, Option.bind_eq_bind, Option.bind_some,
        Option.pure_def]
    · intro place member
      rw [Finset.mem_singleton.mp member]
      exact ⟨set, Function.update_self _ _ _, covers⟩
    · exact fun v outside =>
        Function.update_of_ne (fun same => outside (Finset.mem_singleton.mpr same)) _ _
  | singleton iter =>
    exact .inr ⟨state, rfl, fun parent member => absurd member (Finset.notMem_empty _),
      fun _ _ => rfl⟩

end Relations

/-- A fused variable gets a set with an infinite bound, on which there is no arithmetic. -/
def StopsAt (analyzer : SetAnalyzer) (domMap : Ranges) (relations : List IterVarRelation)
    (state : Var → Option IntervalSet) : Prop :=
  ∃ before outer inner fused rest after set,
    relations = before ++ .fuse outer inner fused :: rest ∧
      rest.reverse.foldlM (passUpDomainRelation analyzer domMap) state = some after ∧
      after fused = some set ∧ Unbounded set

def Stage.derivedVars (stage : Stage) (known : Finset Var) : Set Var :=
  {v | v ∈ known ∧ v ∉ stage.leafIterVars}

section Run

variable {analyzer : SetAnalyzer} {hidden : Set Var} {env other : Env} {domMap : Ranges}
  {bounds : AxisBounds Var} {set : IntervalSet} {stage : Stage} {known leaves : Finset Var} {x : Int}

theorem foldlM_reverse_append {relations : List IterVarRelation} {relation : IterVarRelation}
    {state next : Var → Option IntervalSet}
    (step : passUpDomainRelation analyzer domMap state relation = some next) :
    (relations ++ [relation]).reverse.foldlM (passUpDomainRelation analyzer domMap) state =
      relations.reverse.foldlM (passUpDomainRelation analyzer domMap) next := by
  rw [List.reverse_append, List.reverse_singleton, List.singleton_append, List.foldlM_cons, step]
  rfl

theorem passUpDomain_run (sound : analyzer.Sound) {roots total : Finset Var}
    {axes : List (AxisRelation Var)} (derived : AxisRelation.Derived roots axes leaves known)
    (within : known ⊆ total) (ranges : ∀ iv ∈ total, RangeAt hidden env domMap bounds iv) :
    ∀ relations : List IterVarRelation, relations.map IterVarRelation.axes = axes →
      (∀ relation ∈ relations, ∀ parent ∈ relation.axes.parents,
        env parent = relation.axes.up bounds env parent ∧ bounds.Contains env parent) →
      ∀ state : Var → Option IntervalSet,
      (∀ leaf ∈ leaves, ∃ set, state leaf = some set ∧ Covers hidden env set (env leaf)) →
      StopsAt analyzer domMap relations state ∨
        ∃ final, relations.reverse.foldlM (passUpDomainRelation analyzer domMap) state =
            some final ∧
          ∀ root ∈ roots, ∃ set, final root = some set ∧ Covers hidden env set (env root) := by
  induction derived with
  | start =>
    intro relations same _ state covers
    obtain rfl := List.map_eq_nil_iff.mp same
    exact .inr ⟨state, rfl, covers⟩
  | @step axes leaves known axis derived distinct fromLeaves fresh ih =>
    intro relations same values state covers
    obtain ⟨before, rest, rfl, isBefore, isLast⟩ := List.map_eq_append_iff.mp same
    obtain ⟨relation, rfl, rfl⟩ := List.map_eq_singleton_iff.mp isLast
    have inKnown := derived_axes (derived.step distinct fromLeaves fresh) relation.axes
      (List.mem_append_right _ (List.mem_singleton_self _))
    have last : relation ∈ before ++ [relation] :=
      List.mem_append_right _ (List.mem_singleton_self _)
    rcases passUpDomainRelation_covers sound distinct
      (fun iv member => ranges iv (within (inKnown member))) (values relation last)
      (fun child isChild => covers child (Finset.mem_union_right _ isChild)) with
      ⟨outer, inner, fused, set, rfl, hasSet, infinite⟩ | ⟨next, step, parents, keeps⟩
    · exact .inl ⟨before, outer, inner, fused, [], state, set, rfl, rfl, hasSet, infinite⟩
    have onLeaves : ∀ leaf ∈ leaves,
        ∃ set, next leaf = some set ∧ Covers hidden env set (env leaf) := by
      intro leaf isLeaf
      by_cases isParent : leaf ∈ relation.axes.parents
      · exact parents leaf isParent
      · rw [keeps leaf isParent]
        exact covers leaf (Finset.mem_union_left _ (Finset.mem_sdiff.mpr ⟨isLeaf, isParent⟩))
    rcases ih (Finset.subset_union_left.trans within) before isBefore
      (fun earlier member => values earlier (List.mem_append_left _ member)) next onLeaves with
      ⟨first, outer, inner, fused, later, after, set, rfl, run, hasSet, infinite⟩ |
      ⟨final, run, roots⟩
    · refine .inl ⟨first, outer, inner, fused, later ++ [relation], after, set, ?_, ?_, hasSet,
        infinite⟩
      · rw [List.append_assoc, List.cons_append]
      · rw [foldlM_reverse_append step, run]
    · refine .inr ⟨final, ?_, roots⟩
      rw [foldlM_reverse_append step, run]

theorem Covers.congr (covers : Covers hidden env set x) (agrees : Agrees hidden env other) :
    Covers hidden other set x := by
  have same : ∀ bound ∈ set.minValue.exprs ++ set.maxValue.exprs,
      bound.value other = bound.value env := fun bound member =>
    value_congr (covers.sorted bound member) fun w inVars =>
      agrees w (covers.closed w (List.mem_flatMap.mpr ⟨bound, member, inVars⟩))
  refine ⟨⟨?_, ?_⟩, covers.sorted, covers.closed⟩
  · have below := covers.contains.below
    cases isMin : set.minValue with
    | negInf => trivial
    | posInf => rwa [isMin] at below
    | expr e =>
      rw [isMin] at below
      obtain ⟨m, value, bound⟩ := below
      refine ⟨m, (same e ?_).trans value, bound⟩
      rw [isMin]
      exact List.mem_append_left _ (List.mem_singleton_self e)
  · have above := covers.contains.above
    cases isMax : set.maxValue with
    | negInf => rwa [isMax] at above
    | posInf => trivial
    | expr e =>
      rw [isMax] at above
      obtain ⟨m, value, bound⟩ := above
      refine ⟨m, (same e ?_).trans value, bound⟩
      rw [isMax]
      exact List.mem_append_right _ (List.mem_singleton_self e)

theorem Fixed.congr {e : PrimExpr} (fixed : Fixed hidden env e x) (agrees : Agrees hidden env other) :
    Fixed hidden other e x :=
  ⟨fixed.sorted, fixed.closed, fixed.value_of_agrees agrees⟩

/-- The set of every root contains the value of the root, unless a fused variable gets a set with
an infinite bound. -/
theorem passUpDomain_covers (sound : analyzer.Sound) (wellFormed : stage.WellFormed known)
    (fixed : FixedRanges (stage.derivedVars known) env domMap known)
    {sets : Var → Option IntervalSet}
    (leafSets : ∀ leaf ∈ stage.leafIterVars, ∃ set, sets leaf = some set ∧
      Covers (stage.derivedVars known) env set (env leaf))
    {allowMissing : Bool} {valueMap : Var → Option PrimExpr}
    (index : passUpIndex stage domMap (leafValues stage) allowMissing = some valueMap)
    (inRange : ∀ v ∈ known, v ∉ stage.leafIterVars → ∃ e x range, valueMap v = some e ∧
      e.value env = some x ∧ domMap.lookup v = some range ∧ range.Contains env x) :
    StopsAt analyzer domMap stage.relations sets ∨
      ∃ final, passUpDomain analyzer stage domMap sets = some final ∧
        ∀ root ∈ stage.roots, ∃ set e x, final root = some set ∧ valueMap root = some e ∧
          e.value env = some x ∧ set.Contains (fun _ _ => none) env x := by
  -- the assignment in which every variable has the value that the leaves give it
  obtain ⟨values, isRun⟩ : ∃ values, values = AxisRelation.run (domainBounds domMap env)
      (stage.relations.map IterVarRelation.axes) env := ⟨_, rfl⟩
  have agrees : Agrees (stage.derivedVars known) env values := by
    intro v visible
    rw [isRun]
    apply wellFormed.derived.run_of_leaf
    by_cases isKnown : v ∈ known
    · exact .inl (List.mem_toFinset.mpr (not_not.mp fun notLeaf => visible ⟨isKnown, notLeaf⟩))
    · exact .inr isKnown
  have back : Agrees (stage.derivedVars known) values env :=
    fun v visible => (agrees v visible).symm
  obtain ⟨indices, isIndex, computes, _⟩ := fixed.passUpIndex allowMissing wellFormed.derived
    subset_rfl stage.relations rfl (leafValues stage) (fun env => env) fun leaf isLeaf =>
      ⟨.var leaf, if_pos (List.mem_toFinset.mp isLeaf), .var isLeaf⟩
  obtain rfl := Option.some.inj (isIndex.symm.trans index)
  have isValue : ∀ v ∈ known, ∃ e, indices v = some e ∧ e.value env = some (values v) := by
    intro v isKnown
    obtain ⟨e, isExpr, computed⟩ := computes v isKnown
    exact ⟨e, isExpr, isRun ▸ computed.value env fun _ _ => rfl⟩
  have inBounds : ∀ v ∈ known, v ∉ stage.leafIterVars →
      (domainBounds domMap env).Contains values v := by
    intro v isKnown notLeaf
    obtain ⟨e, x, range, isExpr, value, found, lower, extent, isLower, isExtent, contains⟩ :=
      inRange v isKnown notLeaf
    obtain ⟨own, isOwn, ownValue⟩ := isValue v isKnown
    obtain rfl := Option.some.inj (isExpr.symm.trans isOwn)
    obtain rfl := Option.some.inj (value.symm.trans ownValue)
    rw [AxisBounds.Contains, domainBounds_low found isLower, domainBounds_extent found isExtent]
    exact contains
  have ranges : ∀ iv ∈ known,
      RangeAt (stage.derivedVars known) values domMap (domainBounds domMap env) iv := by
    intro iv isKnown
    obtain ⟨range, found, min, extent, positive⟩ := fixed iv isKnown
    exact ⟨range, found, min.congr agrees, extent.congr agrees, positive⟩
  rcases passUpDomain_run sound wellFormed.derived subset_rfl ranges stage.relations rfl
    (fun relation member parent isParent => by
      have onAxes := List.mem_map_of_mem (f := IterVarRelation.axes) member
      obtain ⟨isKnown, notLeaf⟩ :=
        wellFormed.derived.parent_known relation.axes onAxes parent isParent
      refine ⟨?_, inBounds parent isKnown fun isLeaf => notLeaf (List.mem_toFinset.mpr isLeaf)⟩
      rw [isRun]
      exact wellFormed.derived.run_parent relation.axes onAxes parent isParent)
    sets (fun leaf isLeaf => by
      obtain ⟨set, isSet, covers⟩ := leafSets leaf (List.mem_toFinset.mp isLeaf)
      refine ⟨set, isSet, ?_⟩
      rw [agrees leaf fun hidden => hidden.2 (List.mem_toFinset.mp isLeaf)]
      exact covers.congr agrees) with stops | ⟨final, run, roots⟩
  · exact .inl stops
  · refine .inr ⟨final, run, fun root isRoot => ?_⟩
    obtain ⟨set, isSet, covers⟩ := roots root isRoot
    obtain ⟨e, isExpr, value⟩ := isValue root (wellFormed.derived.roots_subset isRoot)
    exact ⟨set, e, values root, isSet, isExpr, value, (covers.congr back).contains⟩

end Run

def SetAnalyzer.constant : SetAnalyzer where
  evalSet := fun _ _ => .everything
  simplify := fun e => e
  canProveEqual := fun lhs rhs => decide (lhs = rhs)

theorem SetAnalyzer.constant_sound : SetAnalyzer.constant.Sound where
  simplifies := fun _ _ _ value => value
  proves := by
    intro a b proved env x y left right
    rw [of_decide_eq_true proved, right] at left
    exact (Option.some.inj left).symm
  contains := fun _ _ _ _ _ _ => IntervalSet.everything_contains
  sorted := fun _ _ _ _ bound absurd => by cases absurd
  vars := fun _ _ w absurd => by cases absurd

def fuseStage : Stage where
  rootIterVars := [0, 1]
  relations := [.fuse 0 1 2]
  allIterVars := [0, 1, 2]
  leafIterVars := [2]
  isOpaque := fun _ => false
  dom := fun _ => none
  bindThread := []

def fuseRanges : Ranges :=
  [(0, ⟨.intImm 0, .intImm 4⟩), (1, ⟨.intImm 0, .intImm 8⟩), (2, ⟨.intImm 0, .intImm 32⟩)]

def fuseSets (set : IntervalSet) (v : Var) : Option IntervalSet :=
  if v = 2 then some set else none

theorem fuseStage_wellFormed : fuseStage.WellFormed {0, 1, 2} where
  derived := by
    have apart : (0 : Var) ≠ 1 := by decide
    have isLeaf : ({0, 1} : Finset Var) ⊆ {0, 1} := by decide
    have isNew : Disjoint ({2} : Finset Var) {0, 1} := by decide
    exact AxisRelation.Derived.step .start apart isLeaf isNew
  fresh := by
    intro relation member child isChild isRoot
    obtain rfl := List.mem_singleton.mp member
    obtain rfl := Finset.mem_singleton.mp isChild
    have apart : (2 : Var) ∉ ([0, 1] : List Var) := by decide
    exact apart isRoot
  visible := fun _ _ => rfl
  listed := by
    have inside : ∀ iv ∈ ([0, 1, 2] : List Var), iv ∈ ({0, 1, 2} : Finset Var) := by decide
    exact fun iv member _ => inside iv member
  rootsListed := by
    have inside : ∀ iv ∈ ({0, 1} : Finset Var), iv ∈ ([0, 1, 2] : List Var) := by decide
    exact inside
  childrenListed := by
    intro relation member child isChild
    obtain rfl := List.mem_singleton.mp member
    obtain rfl := Finset.mem_singleton.mp isChild
    exact .inl (by decide)

theorem fuseRanges_fixed (hidden : Set Var) (env : Env) :
    FixedRanges hidden env fuseRanges {0, 1, 2} := by
  intro iv isKnown
  rcases Finset.mem_insert.mp isKnown with rfl | isKnown
  · exact ⟨_, rfl, .intImm 0, .intImm 4, (by decide : (0 : Int) < 4)⟩
  rcases Finset.mem_insert.mp isKnown with rfl | isLast
  · exact ⟨_, rfl, .intImm 0, .intImm 8, (by decide : (0 : Int) < 8)⟩
  · rw [Finset.mem_singleton.mp isLast]
    exact ⟨_, rfl, .intImm 0, .intImm 32, (by decide : (0 : Int) < 32)⟩

/-- The values of the fused variable from 8 to 11 stay in the second row. -/
theorem passUpDomain_covers_row : ∃ valueMap final,
    passUpIndex fuseStage fuseRanges (leafValues fuseStage) false = some valueMap ∧
      passUpDomain .constant fuseStage fuseRanges
        (fuseSets (interval (.intImm 8) (.intImm 11))) = some final ∧
      ∀ root ∈ fuseStage.roots, ∃ set e x, final root = some set ∧ valueMap root = some e ∧
        e.value (fun _ => 9) = some x ∧ set.Contains (fun _ _ => none) (fun _ => 9) x := by
  have leafSets : ∀ leaf ∈ fuseStage.leafIterVars,
      ∃ set, fuseSets (interval (.intImm 8) (.intImm 11)) leaf = some set ∧
        Covers (fuseStage.derivedVars {0, 1, 2}) (fun _ => 9) set 9 := by
    intro leaf isLeaf
    rw [List.mem_singleton.mp isLeaf]
    exact ⟨_, rfl, covers_interval (.intImm 8) (.intImm 11) (by decide) (by decide)⟩
  have covered := passUpDomain_covers SetAnalyzer.constant_sound fuseStage_wellFormed
    (fuseRanges_fixed (fuseStage.derivedVars {0, 1, 2}) fun _ => 9) leafSets
    (rfl : passUpIndex fuseStage fuseRanges (leafValues fuseStage) false = some _) (by
      intro v isKnown notLeaf
      rcases Finset.mem_insert.mp isKnown with rfl | isKnown
      · exact ⟨_, 1, _, rfl, by decide, rfl, contains_const.mpr (by decide)⟩
      rcases Finset.mem_insert.mp isKnown with rfl | isLast
      · exact ⟨_, 1, _, rfl, by decide, rfl, contains_const.mpr (by decide)⟩
      · exact absurd (Finset.mem_singleton.mp isLast ▸ List.mem_singleton_self v) notLeaf)
  obtain ⟨final, run, roots⟩ := covered.resolve_left (by
    rintro ⟨before, outer, inner, fused, rest, after, set, same, run, hasSet, infinite⟩
    cases before with
    | nil =>
      cases same
      cases run
      cases hasSet
      rcases infinite with isInfinite | isInfinite <;> cases isInfinite
    | cons first more =>
      have lengths := congrArg List.length same
      rw [List.length_append, List.length_cons, List.length_cons] at lengths
      have single : fuseStage.relations.length = 1 := rfl
      omega)
  exact ⟨_, final, rfl, run, roots⟩

/-- A fused variable that may have every value stops the propagation. -/
theorem passUpDomain_stops :
    SetAnalyzer.constant.Sound ∧ fuseStage.WellFormed {0, 1, 2} ∧
      FixedRanges (fuseStage.derivedVars {0, 1, 2}) (fun _ => 9) fuseRanges {0, 1, 2} ∧
      IntervalSet.everything.Contains (fun _ _ => none) (fun _ => 9) 9 ∧
      passUpDomain .constant fuseStage fuseRanges (fuseSets .everything) = none :=
  ⟨SetAnalyzer.constant_sound, fuseStage_wellFormed, fuseRanges_fixed _ _,
    IntervalSet.everything_contains, rfl⟩

end Tvm.Te
