import Tvm.Lib.Frontier
import Tvm.Usmp.HillClimb

/-!
# Culling plans

`GetParetoFrontier`, `ThinVector` and `ParetoCullPlans` of `pareto.cc`.  Memory usage and cycles are
compared after a cast to `float`.
-/

namespace Tvm.Cascader

open Tvm.Lib Tvm.Usmp

universe u

section Frontier

variable {α : Type u} [LinearOrder α] {N : Nat}

def exceeds (cost other : Fin N → α) : Bool :=
  decide (∃ k, other k < cost k)

variable (costs : List (Fin N → α))

/-- The loop over `j`; the point at `i` drops itself too. -/
def cullBy (i : Fin costs.length) (isOptimal : Fin costs.length → Bool)
    (js : List (Fin costs.length)) : Fin costs.length → Bool :=
  js.foldl (fun isOptimal j =>
    if isOptimal j then Function.update isOptimal j (exceeds (costs.get i) (costs.get j))
    else isOptimal) isOptimal

def cullTurn (isOptimal : Fin costs.length → Bool) (i : Fin costs.length) :
    Fin costs.length → Bool :=
  if isOptimal i then
    Function.update (cullBy costs i isOptimal (List.finRange costs.length)) i true
  else isOptimal

def getParetoFrontier : Fin costs.length → Bool :=
  (List.finRange costs.length).foldl (cullTurn costs) fun _ => true

end Frontier

/-- `static_cast<float>` of an integer: the nearest number of 24 bits, the even one of two. -/
def toFloat (value : Int) : Int :=
  let magnitude := value.natAbs
  let unit := 2 ^ (magnitude.log2 - 23)
  let quotient := magnitude / unit
  let remainder := magnitude % unit
  let rounded := if 2 * remainder < unit ∨ 2 * remainder = unit ∧ quotient % 2 = 0
    then quotient else quotient + 1
  value.sign * (rounded * unit : Nat)

section Cull

variable {Plan : Type} (getMemoryUsage getCycles : Plan → Int32)

/-- `ThinVector`, where `steps` are the places that the loop over a `float` comes to. -/
def thinVector (steps : Nat → Nat → List Nat) (vec : List Plan) (maxSize : Nat) : List Plan :=
  if maxSize < 1 then []
  else if vec.length ≤ maxSize ∨ vec.length = 0 then vec
  else if maxSize = 1 then vec.head?.toList
  else (steps vec.length maxSize).filterMap (vec[·]?) ++ vec.getLast?.toList

def planCost (plan : Plan) : Fin 2 → Int :=
  ![toFloat (getMemoryUsage plan).toInt, toFloat (getCycles plan).toInt]

def optimalPlans (plans : List Plan) : List Plan :=
  let costs := plans.map (planCost getMemoryUsage getCycles)
  let isOptimal := getParetoFrontier costs
  (List.finRange costs.length).filterMap fun i => if isOptimal i then plans[i]? else none

def memoryLess (a b : Plan) : Bool :=
  getMemoryUsage a < getMemoryUsage b

def paretoCullPlans (stdSort : StdSort Plan) (steps : Nat → Nat → List Nat) (plans : List Plan)
    (maxPlans : Nat) (disableParetoMetric : Bool) : List Plan :=
  if plans.length ≤ maxPlans then plans
  else if disableParetoMetric then thinVector steps plans maxPlans
  else
    let optimal := optimalPlans getMemoryUsage getCycles
      (stdSort.sort (memoryLess getMemoryUsage) plans)
    if optimal.length ≤ maxPlans then optimal else thinVector steps optimal maxPlans

end Cull

section Frontier

variable {α : Type u} [LinearOrder α] {N : Nat} (costs : List (Fin N → α))

theorem exceeds_eq_false {cost other : Fin N → α} : exceeds cost other = false ↔ cost ≤ other := by
  rw [exceeds, decide_eq_false_iff_not, not_exists]
  exact forall_congr' fun k => not_lt

theorem exceeds_eq_true {cost other : Fin N → α} : exceeds cost other = true ↔ ¬cost ≤ other := by
  rw [← exceeds_eq_false, Bool.not_eq_false]

/-- Each point is compared once, and the outcome of one comparison does not matter for another. -/
theorem cullBy_apply (i : Fin costs.length) (isOptimal : Fin costs.length → Bool)
    {js : List (Fin costs.length)} (distinct : js.Nodup) (j : Fin costs.length) :
    cullBy costs i isOptimal js j =
      if j ∈ js then isOptimal j && exceeds (costs.get i) (costs.get j) else isOptimal j := by
  induction js generalizing isOptimal with
  | nil => rfl
  | cons head rest ih =>
    obtain ⟨fresh, distinctRest⟩ := List.nodup_cons.mp distinct
    have turn : cullBy costs i isOptimal (head :: rest) = cullBy costs i
        (if isOptimal head then
          Function.update isOptimal head (exceeds (costs.get i) (costs.get head))
        else isOptimal) rest := rfl
    rw [turn, ih _ distinctRest]
    by_cases same : j = head
    · subst same
      rw [if_neg fresh, if_pos List.mem_cons_self]
      cases here : isOptimal j with
      | false => rw [if_neg Bool.false_ne_true, here, Bool.false_and]
      | true => rw [if_pos rfl, Function.update_self, Bool.true_and]
    · have unchanged : (if isOptimal head then
          Function.update isOptimal head (exceeds (costs.get i) (costs.get head))
        else isOptimal) j = isOptimal j := by
        split
        · exact Function.update_of_ne same _ _
        · rfl
      rw [unchanged]
      simp only [List.mem_cons, same, false_or]

theorem cullTurn_eq_true {isOptimal : Fin costs.length → Bool} {i : Fin costs.length}
    (here : isOptimal i = true) (j : Fin costs.length) :
    cullTurn costs isOptimal i j = true ↔
      j = i ∨ isOptimal j = true ∧ ¬costs.get i ≤ costs.get j := by
  rw [cullTurn, if_pos here]
  by_cases same : j = i
  · subst same
    simp only [Function.update_self, true_or]
  · rw [Function.update_of_ne same, cullBy_apply costs i isOptimal (List.nodup_finRange _),
      if_pos (List.mem_finRange j), Bool.and_eq_true, exceeds_eq_true]
    simp only [same, false_or]

theorem frontierScan_cullTurn {scanned : List (Fin costs.length)} {isOptimal : Fin costs.length → Bool}
    (scan : FrontierScan (· ≤ ·) costs.get scanned isOptimal) (i : Fin costs.length) :
    FrontierScan (· ≤ ·) costs.get (scanned ++ [i]) (cullTurn costs isOptimal i) := by
  cases here : isOptimal i with
  | false =>
    have same : cullTurn costs isOptimal i = isOptimal :=
      if_neg (by rw [here]; exact Bool.false_ne_true)
    rw [same]
    exact scan.skip here
  | true => exact scan.step here (cullTurn_eq_true costs here)

theorem frontierScan_foldl {scanned : List (Fin costs.length)} {isOptimal : Fin costs.length → Bool}
    (scan : FrontierScan (· ≤ ·) costs.get scanned isOptimal) (rest : List (Fin costs.length)) :
    FrontierScan (· ≤ ·) costs.get (scanned ++ rest) (rest.foldl (cullTurn costs) isOptimal) := by
  induction rest generalizing scanned isOptimal with
  | nil => rwa [List.append_nil]
  | cons i rest ih =>
    have turned := ih (frontierScan_cullTurn costs scan i)
    rwa [List.append_assoc, List.singleton_append] at turned

theorem getParetoFrontier_isFrontier :
    IsFrontier (· ≤ ·) costs.get (getParetoFrontier costs) :=
  (frontierScan_foldl costs (.start _ _) (List.finRange costs.length)).isFrontier
    fun i => List.mem_append_right _ (List.mem_finRange i)

def selected : List (Fin N → α) :=
  ((List.finRange costs.length).filter (getParetoFrontier costs)).map costs.get

theorem selected_nodup : (selected costs).Nodup := by
  refine List.Nodup.map_on ?_ ((List.nodup_finRange _).filter _)
  intro i isSelected j otherSelected same
  by_contra different
  exact (getParetoFrontier_isFrontier costs).apart i j (List.mem_filter.mp isSelected).2
    (List.mem_filter.mp otherSelected).2 different same.le

theorem mem_selected {costs : List (Fin N → α)} {c : Fin N → α} :
    c ∈ selected costs ↔ Minimal (· ∈ costs) c := by
  have minimal := (getParetoFrontier_isFrontier costs).kept_iff c
  simp only [← List.mem_iff_get] at minimal
  rw [← minimal]
  simp [selected]

end Frontier

/-- Both numbers of a plan are numbers of 24 bits. -/
def Representable {Plan : Type} (getMemoryUsage getCycles : Plan → Int32) (plan : Plan) : Prop :=
  (getMemoryUsage plan).toInt.natAbs ≤ 2 ^ 24 ∧ (getCycles plan).toInt.natAbs ≤ 2 ^ 24

/-- For each plan there is one in the result that is at least as good. -/
def KeepsAsGood {Plan : Type} (getMemoryUsage getCycles : Plan → Int32)
    (plans result : List Plan) : Prop :=
  ∀ plan ∈ plans, ∃ kept ∈ result,
    getMemoryUsage kept ≤ getMemoryUsage plan ∧ getCycles kept ≤ getCycles plan

/-- As good after the casts to `float`, and where these are exact as good without them. -/
def KeepsAsGoodFloats {Plan : Type} (getMemoryUsage getCycles : Plan → Int32)
    (plans result : List Plan) : Prop :=
  ∀ plan ∈ plans, ∃ kept ∈ result,
    planCost getMemoryUsage getCycles kept ≤ planCost getMemoryUsage getCycles plan ∧
      (Representable getMemoryUsage getCycles plan → Representable getMemoryUsage getCycles kept →
        getMemoryUsage kept ≤ getMemoryUsage plan ∧ getCycles kept ≤ getCycles plan)

theorem toFloat_of_small {value : Int} (small : value.natAbs ≤ 2 ^ 24) : toFloat value = value := by
  have exact_of_unit {unit : Nat} (positive : 0 < unit) (divides : unit ∣ value.natAbs) :
      value.sign * ((if 2 * (value.natAbs % unit) < unit ∨
          2 * (value.natAbs % unit) = unit ∧ value.natAbs / unit % 2 = 0
        then value.natAbs / unit else value.natAbs / unit + 1) * unit : Nat) = value := by
    rw [Nat.mod_eq_zero_of_dvd divides, if_pos (.inl positive), Nat.div_mul_cancel divides,
      Int.sign_mul_natAbs]
  rcases Nat.lt_or_eq_of_le small with below | top
  · have log : value.natAbs.log2 < 24 := by
      by_cases zero : value.natAbs = 0
      · rw [zero]
        decide
      · exact (Nat.log2_lt zero).mpr below
    have unit : value.natAbs.log2 - 23 = 0 := by omega
    rw [toFloat, unit]
    exact exact_of_unit Nat.one_pos (one_dvd _)
  · have log : value.natAbs.log2 - 23 = 1 := by
      rw [top]
      decide
    rw [toFloat, log]
    refine exact_of_unit Nat.two_pos ?_
    rw [top]
    exact ⟨2 ^ 23, rfl⟩

section Cull

variable {Plan : Type} {getMemoryUsage getCycles : Plan → Int32}

theorem le_of_planCost_le {kept plan : Plan}
    (le : planCost getMemoryUsage getCycles kept ≤ planCost getMemoryUsage getCycles plan)
    (planExact : Representable getMemoryUsage getCycles plan)
    (keptExact : Representable getMemoryUsage getCycles kept) :
    getMemoryUsage kept ≤ getMemoryUsage plan ∧ getCycles kept ≤ getCycles plan := by
  have memory : toFloat (getMemoryUsage kept).toInt ≤ toFloat (getMemoryUsage plan).toInt := le 0
  have cycles : toFloat (getCycles kept).toInt ≤ toFloat (getCycles plan).toInt := le 1
  rw [toFloat_of_small keptExact.1, toFloat_of_small planExact.1] at memory
  rw [toFloat_of_small keptExact.2, toFloat_of_small planExact.2] at cycles
  exact ⟨Int32.le_iff_toInt_le.mpr memory, Int32.le_iff_toInt_le.mpr cycles⟩

theorem exists_optimalPlan (getMemoryUsage getCycles : Plan → Int32) {plans : List Plan}
    {plan : Plan} (membership : plan ∈ plans) :
    ∃ kept ∈ optimalPlans getMemoryUsage getCycles plans,
      planCost getMemoryUsage getCycles kept ≤ planCost getMemoryUsage getCycles plan := by
  have frontier := getParetoFrontier_isFrontier
    (plans.map (planCost getMemoryUsage getCycles))
  have length : (plans.map (planCost getMemoryUsage getCycles)).length = plans.length :=
    List.length_map _
  obtain ⟨j, inside, rfl⟩ := List.getElem_of_mem membership
  have onFrontier (i : Fin (plans.map (planCost getMemoryUsage getCycles)).length)
      (isOptimal : getParetoFrontier (plans.map (planCost getMemoryUsage getCycles)) i = true) :
      plans.get (i.cast length) ∈ optimalPlans getMemoryUsage getCycles plans := by
    refine List.mem_filterMap.mpr ⟨i, List.mem_finRange i, ?_⟩
    rw [if_pos isOptimal]
    exact List.getElem?_eq_getElem _
  have cost (i : Fin (plans.map (planCost getMemoryUsage getCycles)).length) :
      (plans.map (planCost getMemoryUsage getCycles)).get i =
        planCost getMemoryUsage getCycles (plans.get (i.cast length)) :=
    List.getElem_map _
  cases here : getParetoFrontier (plans.map (planCost getMemoryUsage getCycles))
      ⟨j, length.symm ▸ inside⟩ with
  | true => exact ⟨_, onFrontier _ here, le_rfl⟩
  | false =>
    obtain ⟨i, isOptimal, below⟩ := frontier.covers _ here
    rw [cost, cost] at below
    exact ⟨_, onFrontier i isOptimal, below⟩

theorem paretoCullPlans_eq {stdSort : StdSort Plan} {steps : Nat → Nat → List Nat}
    {plans : List Plan} {maxPlans : Nat} (many : ¬plans.length ≤ maxPlans)
    (fits : (optimalPlans getMemoryUsage getCycles
      (stdSort.sort (memoryLess getMemoryUsage) plans)).length ≤ maxPlans) :
    paretoCullPlans getMemoryUsage getCycles stdSort steps plans maxPlans false =
      optimalPlans getMemoryUsage getCycles (stdSort.sort (memoryLess getMemoryUsage) plans) := by
  rw [paretoCullPlans, if_neg many, if_neg Bool.false_ne_true, if_pos fits]

theorem paretoCullPlans_keepsAsGoodFloats (stdSort : StdSort Plan) (steps : Nat → Nat → List Nat)
    (plans : List Plan) {maxPlans : Nat}
    (fits : (optimalPlans getMemoryUsage getCycles
      (stdSort.sort (memoryLess getMemoryUsage) plans)).length ≤ maxPlans) :
    KeepsAsGoodFloats getMemoryUsage getCycles plans
      (paretoCullPlans getMemoryUsage getCycles stdSort steps plans maxPlans false) := by
  intro plan membership
  by_cases few : plans.length ≤ maxPlans
  · rw [paretoCullPlans, if_pos few]
    exact ⟨plan, membership, le_rfl, le_of_planCost_le le_rfl⟩
  · rw [paretoCullPlans_eq few fits]
    have sorted := ((stdSort.perm (memoryLess getMemoryUsage) plans).mem_iff).mpr membership
    obtain ⟨kept, isKept, le⟩ := exists_optimalPlan getMemoryUsage getCycles sorted
    exact ⟨kept, isKept, le, le_of_planCost_le le⟩

end Cull

/-- The frontier is minimal for costs of any number of components, and a frontier that fits keeps a
plan that is as good for each one that is dropped. -/
theorem pareto_keeps {α : Type u} [LinearOrder α] {N : Nat} (costs : List (Fin N → α))
    {Plan : Type} (getMemoryUsage getCycles : Plan → Int32) (stdSort : StdSort Plan)
    (steps : Nat → Nat → List Nat) (plans : List Plan) (maxPlans : Nat) :
    IsFrontier (· ≤ ·) costs.get (getParetoFrontier costs) ∧
      ((optimalPlans getMemoryUsage getCycles
          (stdSort.sort (memoryLess getMemoryUsage) plans)).length ≤ maxPlans →
        KeepsAsGoodFloats getMemoryUsage getCycles plans
          (paretoCullPlans getMemoryUsage getCycles stdSort steps plans maxPlans false)) :=
  ⟨getParetoFrontier_isFrontier costs, paretoCullPlans_keepsAsGoodFloats stdSort steps plans⟩

def threePlans : List (Int32 × Int32) :=
  [(4, 9), (2, 3), (3, 3)]

theorem pareto_keeps_one :
    KeepsAsGoodFloats Prod.fst Prod.snd threePlans
      (paretoCullPlans Prod.fst Prod.snd (insertionSort (Int32 × Int32)) (fun _ _ => [])
        threePlans 1 false) :=
  (pareto_keeps [![(1 : Int), 2], ![2, 1]] Prod.fst Prod.snd (insertionSort _) (fun _ _ => [])
    threePlans 1).2 (by decide)

/-- The plans are the pairs of their memory usage and cycles. -/
def KeepsWhereFits (disableParetoMetric : Bool) : Prop :=
  ∀ (plans : List (Int32 × Int32)) (maxPlans : Nat),
    (optimalPlans Prod.fst Prod.snd
      ((insertionSort (Int32 × Int32)).sort (memoryLess Prod.fst) plans)).length ≤ maxPlans →
    KeepsAsGood Prod.fst Prod.snd plans
      (paretoCullPlans Prod.fst Prod.snd (insertionSort (Int32 × Int32)) (fun _ _ => []) plans
        maxPlans disableParetoMetric)

/-- With the metric the cycles `2 ^ 24 + 1` and `2 ^ 24` are one `float`, and the plan with fewer
cycles is dropped; without the metric the first plan is taken. -/
theorem paretoCullPlans_drops : ¬KeepsWhereFits false ∧ ¬KeepsWhereFits true := by
  constructor
  · intro keeps
    have culled : paretoCullPlans Prod.fst Prod.snd (insertionSort (Int32 × Int32)) (fun _ _ => [])
        [(5, 16777217), (6, 16777216)] 1 false = [(5, 16777217)] := by decide +kernel
    obtain ⟨kept, membership, -, cycles⟩ :=
      keeps [(5, 16777217), (6, 16777216)] 1 (by decide +kernel) (6, 16777216) (by decide)
    rw [culled, List.mem_singleton] at membership
    rw [membership] at cycles
    exact absurd cycles (by decide +kernel)
  · intro keeps
    have culled : paretoCullPlans Prod.fst Prod.snd (insertionSort (Int32 × Int32)) (fun _ _ => [])
        [(2, 2), (1, 1)] 1 true = [(2, 2)] := by decide +kernel
    obtain ⟨kept, membership, memory, -⟩ :=
      keeps [(2, 2), (1, 1)] 1 (by decide +kernel) (1, 1) (by decide)
    rw [culled, List.mem_singleton] at membership
    rw [membership] at memory
    exact absurd memory (by decide +kernel)

end Tvm.Cascader
