import Mathlib
import Tvm.Lib.Extends

/-!
# The plans of a single part

`GenerateSinglePlans` of `cascader/plan_generator.cc`.  What is computed with floats, namely the
cycles and the sizes of buffers, is a parameter: no choice depends on it.
-/

namespace Tvm.Cascader

open Lib

inductive TensorConfigState where
  | boundary
  | interior
  deriving DecidableEq

inductive BufferMode where
  | recompute
  | rolling
  deriving DecidableEq

structure Tensor where
  address : ℕ
  size : Int
  isConstant : Bool
  deriving DecidableEq

structure TensorConfig (Region Stripe : Type) where
  tensor : Tensor
  homeRegion : Region
  state : TensorConfigState
  bufferMode : BufferMode
  stripeConfigs : List Stripe
  copyTensor : Bool
  copyRegion : Region
  deriving DecidableEq

structure CascaderOptions (Region : Type) where
  cascadeRegion : Region
  alwaysCopySize : Int

variable {Region Stripe Perf : Type}

def TensorConfig.getCopyRegion (config : TensorConfig Region Stripe) : Region :=
  if config.copyTensor then config.copyRegion else config.homeRegion

def TensorConfig.isInterior (config : TensorConfig Region Stripe) : Bool :=
  config.state == .interior

/-- A part has as many inputs as propagators, and at least one. -/
structure Part (Stripe Perf : Type) where
  inputTensors : List Tensor
  outputTensor : Tensor
  propagators : List (Stripe → Stripe)
  getPerformanceInfo : Stripe → BufferMode → Perf
  inputs_length : inputTensors.length = propagators.length
  propagators_pos : 0 < propagators.length

/-- A plan; its part group is the part itself, and its interior region that of the options. -/
structure Plan (Region Stripe : Type) where
  tensorConfigs : List (TensorConfig Region Stripe)
  openConfigs : List (TensorConfig Region Stripe)
  outputConfig : TensorConfig Region Stripe
  memoryUsage : Int
  cycles : Int

/-- The functions that compute with floats; a division by a bandwidth of zero has no result. -/
structure Estimates (Region Stripe Perf : Type) where
  canBound : Stripe → Bool
  getBufferSize : TensorConfig Region Stripe → Int
  cycles : Perf → List (TensorConfig Region Stripe) → TensorConfig Region Stripe → Option Int

def combineLast {α : Type} : List (List α) → List (List α)
  | [] => []
  | [values] => values.map fun value => [value]
  | values :: before =>
    values.flatMap fun value => (combineLast before).map fun comb => comb ++ [value]

def enumerateCombinations {α : Type} (values : List (List α)) : List (List α) :=
  combineLast values.reverse

section

variable [DecidableEq Region] (options : CascaderOptions Region)
  (estimates : Estimates Region Stripe Perf)

def getPossibleInputConfigs (stripeConfig : Stripe) (tensor : Tensor) (homeRegions : List Region) :
    List (TensorConfig Region Stripe) :=
  let boundary := homeRegions.flatMap fun homeRegion =>
    (if homeRegion = options.cascadeRegion ∨ options.alwaysCopySize < tensor.size then
      [⟨tensor, homeRegion, .boundary, .recompute, [stripeConfig], false, homeRegion⟩] else []) ++
    (if homeRegion ≠ options.cascadeRegion then
      [⟨tensor, homeRegion, .boundary, .rolling, [stripeConfig], true, options.cascadeRegion⟩]
      else [])
  let interior := if tensor.isConstant then [] else
    [⟨tensor, options.cascadeRegion, .interior, .recompute, [stripeConfig], false,
        options.cascadeRegion⟩,
      ⟨tensor, options.cascadeRegion, .interior, .rolling, [stripeConfig], false,
        options.cascadeRegion⟩]
  boundary ++ interior

def getPossibleOutputConfigs (stripeConfig : Stripe) (tensor : Tensor)
    (homeRegions : List Region) : List (TensorConfig Region Stripe) :=
  let boundary := if estimates.canBound stripeConfig then
      homeRegions.map fun homeRegion =>
        ⟨tensor, homeRegion, .boundary, .recompute, [stripeConfig], false, homeRegion⟩
    else []
  boundary ++
    [⟨tensor, options.cascadeRegion, .interior, .recompute, [stripeConfig], false,
        options.cascadeRegion⟩,
      ⟨tensor, options.cascadeRegion, .interior, .rolling, [stripeConfig], false,
        options.cascadeRegion⟩]

def getInteriorMemoryUsage (inputConfigs : List (TensorConfig Region Stripe))
    (outputConfig : TensorConfig Region Stripe) : Int :=
  let interior := options.cascadeRegion
  inputConfigs.foldl (fun usage config =>
      if config.homeRegion = interior ∧ config.state = .boundary then usage + config.tensor.size
      else if config.homeRegion = interior ∨ config.getCopyRegion = interior then
        usage + estimates.getBufferSize config
      else usage)
    (if outputConfig.homeRegion = interior ∧ outputConfig.state = .boundary then
      outputConfig.tensor.size else 0)

variable (part : Part Stripe Perf) (homeMap : Tensor → Option (List Region))

/-- The possible configurations of the inputs of a part; `home_map.at` throws where there is no
entry. -/
def allPossibleInputConfigs (outputStripeConfig : Stripe) :
    Option (List (List (TensorConfig Region Stripe))) :=
  (part.inputTensors.zip part.propagators).mapM fun input => do
    let homeRegions ← homeMap input.1
    some (getPossibleInputConfigs options (input.2 outputStripeConfig) input.1 homeRegions)

structure OutputLoop (Region Stripe : Type) where
  tensorConfigs : List (TensorConfig Region Stripe)
  plans : List (Plan Region Stripe)

def planOutput (outputStripeConfig : Stripe) (inputConfigs : List (TensorConfig Region Stripe))
    (loop : OutputLoop Region Stripe) (outputConfig : TensorConfig Region Stripe) :
    Option (OutputLoop Region Stripe) := do
  let tensorConfigs := loop.tensorConfigs ++ [outputConfig]
  let openInputConfigs := inputConfigs.filter TensorConfig.isInterior
  let openConfigs :=
    if outputConfig.isInterior then openInputConfigs ++ [outputConfig] else openInputConfigs
  let perfInfo := part.getPerformanceInfo outputStripeConfig outputConfig.bufferMode
  let cycles ← estimates.cycles perfInfo inputConfigs outputConfig
  let memoryUsage := getInteriorMemoryUsage options estimates inputConfigs outputConfig
  some ⟨tensorConfigs,
    loop.plans ++ [⟨tensorConfigs, openConfigs, outputConfig, memoryUsage, cycles⟩]⟩

def planInputs (outputStripeConfig : Stripe)
    (outputConfigs inputConfigs : List (TensorConfig Region Stripe)) :
    Option (List (Plan Region Stripe)) := do
  let loop ← outputConfigs.foldlM (planOutput options estimates part outputStripeConfig inputConfigs)
    ⟨inputConfigs, []⟩
  some loop.plans

def planStripes (outputStripeConfig : Stripe) : Option (List (Plan Region Stripe)) := do
  let possible ← allPossibleInputConfigs options part homeMap outputStripeConfig
  let homeRegions ← homeMap part.outputTensor
  let outputConfigs := getPossibleOutputConfigs options estimates outputStripeConfig
    part.outputTensor homeRegions
  let plans ← (enumerateCombinations possible).mapM
    (planInputs options estimates part outputStripeConfig outputConfigs)
  some plans.flatten

def generateSinglePlans (outputStripeConfigs : List Stripe) : Option (List (Plan Region Stripe)) :=
  do
  let plans ← outputStripeConfigs.mapM (planStripes options estimates part homeMap)
  some plans.flatten

end

section

variable [DecidableEq Region] [DecidableEq Stripe] (options : CascaderOptions Region)
  (estimates : Estimates Region Stripe Perf) (part : Part Stripe Perf)
  (homeMap : Tensor → Option (List Region))

/-- The combinations of possible configurations of the inputs and of the output. -/
def choicesOf (outputStripeConfig : Stripe) :
    Option (List (List (TensorConfig Region Stripe) × TensorConfig Region Stripe)) := do
  let possible ← allPossibleInputConfigs options part homeMap outputStripeConfig
  let homeRegions ← homeMap part.outputTensor
  some (possible.sections.product (getPossibleOutputConfigs options estimates outputStripeConfig
    part.outputTensor homeRegions))

def Plan.Takes (plan : Plan Region Stripe)
    (choice : List (TensorConfig Region Stripe) × TensorConfig Region Stripe) : Prop :=
  plan.outputConfig = choice.2 ∧ ∀ config ∈ choice.1, config ∈ plan.tensorConfigs

instance (plan : Plan Region Stripe)
    (choice : List (TensorConfig Region Stripe) × TensorConfig Region Stripe) :
    Decidable (plan.Takes choice) :=
  inferInstanceAs (Decidable (_ ∧ _))

/-- The plans of a part are well formed; a choice that is possible several times, because a stripe
configuration or a region is listed again, has as many plans. -/
structure WellFormedPlans (outputStripeConfigs : List Stripe) (plans : List (Plan Region Stripe)) :
    Prop where
  configs : ∀ plan ∈ plans, plan.outputConfig.tensor = part.outputTensor ∧
    ∃ inputConfigs : List (TensorConfig Region Stripe),
      inputConfigs.map TensorConfig.tensor = part.inputTensors ∧
        plan.tensorConfigs.Perm (inputConfigs ++ [plan.outputConfig])
  opened : ∀ plan ∈ plans,
    plan.openConfigs.Perm (plan.tensorConfigs.filter TensorConfig.isInterior)
  combined : ∀ choices, outputStripeConfigs.mapM (choicesOf options estimates part homeMap) =
      some choices → ∀ choice,
    plans.countP (fun plan => plan.Takes choice) = choices.flatten.count choice

end

theorem mem_combineLast {α : Type} {values : List (List α)} (nonempty : values ≠ []) {comb : List α} :
    comb ∈ combineLast values ↔ List.Forall₂ (· ∈ ·) comb.reverse values := by
  induction values generalizing comb with
  | nil => exact absurd rfl nonempty
  | cons last before ih =>
    cases before with
    | nil =>
      simp only [combineLast, List.mem_map, List.forall₂_cons_right_iff,
        List.forall₂_nil_right_iff]
      constructor
      · rintro ⟨value, member, rfl⟩
        exact ⟨value, [], member, rfl, rfl⟩
      · rintro ⟨value, rest, member, rfl, isReverse⟩
        exact ⟨value, member, (List.reverse_eq_iff.mp isReverse).symm⟩
    | cons next others =>
      simp only [combineLast, List.mem_flatMap, List.mem_map, List.forall₂_cons_right_iff]
      constructor
      · rintro ⟨value, member, front, isFront, rfl⟩
        have combined := (ih (List.cons_ne_nil next others)).mp isFront
        obtain ⟨nextValue, rest, nextMember, restMembers, isReverse⟩ :=
          List.forall₂_cons_right_iff.mp combined
        refine ⟨value, front.reverse, member, ?_, by simp⟩
        exact ⟨nextValue, rest, nextMember, restMembers, isReverse⟩
      · rintro ⟨value, rest, member, restMembers, isReverse⟩
        refine ⟨value, member, rest.reverse, ?_, ?_⟩
        · apply (ih (List.cons_ne_nil next others)).mpr
          rw [List.reverse_reverse]
          exact List.forall₂_cons_right_iff.mpr restMembers
        · rw [← List.reverse_cons, ← isReverse, List.reverse_reverse]

theorem mem_enumerateCombinations {α : Type} {values : List (List α)} (nonempty : values ≠ [])
    {comb : List α} :
    comb ∈ enumerateCombinations values ↔ List.Forall₂ (· ∈ ·) comb values := by
  rw [enumerateCombinations, mem_combineLast (by simpa using nonempty), ← List.forall₂_reverse_iff,
    List.reverse_reverse, List.reverse_reverse]

section

variable [DecidableEq Region] {options : CascaderOptions Region}
  {estimates : Estimates Region Stripe Perf} {part : Part Stripe Perf}
  {homeMap : Tensor → Option (List Region)}

theorem planOutputs_spec {stripe : Stripe}
    {inputConfigs outputConfigs : List (TensorConfig Region Stripe)}
    {loop last : OutputLoop Region Stripe}
    (run : outputConfigs.foldlM (planOutput options estimates part stripe inputConfigs) loop =
      some last) :
    (∀ plan ∈ loop.plans, plan ∈ last.plans) ∧
    ∀ k outputConfig, outputConfigs[k]? = some outputConfig → ∃ plan ∈ last.plans,
      plan.outputConfig = outputConfig ∧
        plan.tensorConfigs = loop.tensorConfigs ++ outputConfigs.take (k + 1) ∧
        plan.openConfigs = (inputConfigs ++ [outputConfig]).filter TensorConfig.isInterior := by
  induction outputConfigs generalizing loop with
  | nil =>
    obtain rfl := Option.some.inj run
    exact ⟨fun plan member => member, fun k outputConfig found => by simp at found⟩
  | cons first rest ih =>
    rw [List.foldlM_cons] at run
    obtain ⟨next, step, after⟩ := Option.bind_eq_some_iff.mp run
    obtain ⟨kept, planned⟩ := ih after
    obtain ⟨cycles, -, isNext⟩ := Option.bind_eq_some_iff.mp step
    obtain rfl := Option.some.inj isNext
    refine ⟨fun plan member => kept plan (List.mem_append_left _ member), ?_⟩
    intro k outputConfig found
    cases k with
    | zero =>
      obtain rfl : first = outputConfig := by simpa using found
      refine ⟨_, kept _ (List.mem_append_right _ (List.mem_singleton_self _)), rfl, rfl, ?_⟩
      dsimp only
      split
      case isTrue interior => simp [List.filter_append, interior]
      case isFalse boundary => simp [List.filter_append, boundary]
    | succ k =>
      obtain ⟨plan, member, isOutput, isConfigs, isOpen⟩ := planned k outputConfig (by simpa using found)
      refine ⟨plan, member, isOutput, ?_, isOpen⟩
      rw [isConfigs, List.take_succ_cons, List.append_assoc, List.singleton_append]

omit [DecidableEq Region] in
theorem two_le_outputConfigs (options : CascaderOptions Region)
    (estimates : Estimates Region Stripe Perf) (stripe : Stripe) (tensor : Tensor) (homeRegions : List Region) :
    2 ≤ (getPossibleOutputConfigs options estimates stripe tensor homeRegions).length := by
  rw [getPossibleOutputConfigs, List.length_append]
  exact Nat.le_add_left 2 _

theorem inputConfigs_eq_nil_iff {stripe : Stripe} {tensor : Tensor} {homeRegions : List Region} :
    getPossibleInputConfigs options stripe tensor homeRegions = [] ↔
      tensor.isConstant = true ∧ homeRegions = [] := by
  constructor
  · intro isNil
    obtain ⟨noBoundary, noInterior⟩ := List.append_eq_nil_iff.mp isNil
    refine ⟨?_, ?_⟩
    · by_contra variable'
      rw [if_neg variable'] at noInterior
      exact absurd noInterior (List.cons_ne_nil _ _)
    · apply List.eq_nil_iff_forall_not_mem.mpr
      intro region member
      have empty := List.flatMap_eq_nil_iff.mp noBoundary region member
      obtain ⟨noHome, noCopy⟩ := List.append_eq_nil_iff.mp empty
      by_cases isCascade : region = options.cascadeRegion
      · rw [if_pos (Or.inl isCascade)] at noHome
        exact absurd noHome (List.cons_ne_nil _ _)
      · rw [if_pos isCascade] at noCopy
        exact absurd noCopy (List.cons_ne_nil _ _)
  · rintro ⟨constant, rfl⟩
    simp [getPossibleInputConfigs, constant]

theorem length_allPossibleInputConfigs {stripe : Stripe}
    {possible : List (List (TensorConfig Region Stripe))}
    (found : allPossibleInputConfigs options part homeMap stripe = some possible) :
    possible.length = part.inputTensors.length := by
  have sameLength := (mapM_eq_some_iff.mp found).length_eq
  rw [← sameLength, List.length_zip, part.inputs_length, Nat.min_self]

/-- Some input has no possible configuration: it is a constant without a home. -/
def NoChoice (part : Part Stripe Perf) (homeMap : Tensor → Option (List Region)) : Prop :=
  ∃ tensor ∈ part.inputTensors, tensor.isConstant = true ∧ homeMap tensor = some []

theorem possible_of_mem {stripe : Stripe} {possible : List (List (TensorConfig Region Stripe))}
    (found : allPossibleInputConfigs options part homeMap stripe = some possible) :
    List.Forall₂ (fun tensor configs => ∃ inputStripe homeRegions,
      homeMap tensor = some homeRegions ∧
        configs = getPossibleInputConfigs options inputStripe tensor homeRegions)
      part.inputTensors possible := by
  have related := mapM_eq_some_iff.mp found
  have inputs : part.inputTensors =
      (part.inputTensors.zip part.propagators).map Prod.fst := by
    rw [List.map_fst_zip part.inputs_length.le]
  rw [inputs, List.forall₂_map_left_iff]
  refine related.imp fun input configs made => ?_
  obtain ⟨homeRegions, home, isConfigs⟩ := Option.bind_eq_some_iff.mp made
  exact ⟨input.2 stripe, homeRegions, home, (Option.some.inj isConfigs).symm⟩

theorem nil_mem_possible_iff {stripe : Stripe}
    {possible : List (List (TensorConfig Region Stripe))}
    (found : allPossibleInputConfigs options part homeMap stripe = some possible) :
    [] ∈ possible ↔ NoChoice part homeMap := by
  have related := possible_of_mem found
  constructor
  · intro member
    obtain ⟨i, inside, isNil⟩ := List.getElem_of_mem member
    have inputInside : i < part.inputTensors.length := related.length_eq ▸ inside
    obtain ⟨inputStripe, homeRegions, home, isConfigs⟩ := related.get inputInside inside
    simp only [List.get_eq_getElem] at home isConfigs
    rw [isNil] at isConfigs
    obtain ⟨constant, rfl⟩ := inputConfigs_eq_nil_iff.mp isConfigs.symm
    exact ⟨_, List.getElem_mem inputInside, constant, home⟩
  · rintro ⟨tensor, member, constant, noHome⟩
    obtain ⟨i, inside, rfl⟩ := List.getElem_of_mem member
    have possibleInside : i < possible.length := related.length_eq ▸ inside
    obtain ⟨inputStripe, homeRegions, home, isConfigs⟩ := related.get inside possibleInside
    simp only [List.get_eq_getElem] at home isConfigs
    obtain rfl : homeRegions = [] := Option.some.inj (home.symm.trans noHome)
    rw [inputConfigs_eq_nil_iff.mpr ⟨constant, rfl⟩] at isConfigs
    exact isConfigs ▸ List.getElem_mem possibleInside

theorem possible_ne_nil {stripe : Stripe} {possible : List (List (TensorConfig Region Stripe))}
    (found : allPossibleInputConfigs options part homeMap stripe = some possible) :
    possible ≠ [] := by
  apply List.ne_nil_of_length_pos
  rw [length_allPossibleInputConfigs found, part.inputs_length]
  exact part.propagators_pos

theorem exists_forall₂_mem {α : Type} {values : List (List α)} (nonempty : [] ∉ values) :
    ∃ comb, List.Forall₂ (· ∈ ·) comb values := by
  induction values with
  | nil => exact ⟨[], List.Forall₂.nil⟩
  | cons first rest ih =>
    have notFirst : first ≠ [] := fun isNil => nonempty (isNil ▸ List.mem_cons_self)
    have notRest : [] ∉ rest := fun member => nonempty (List.mem_cons_of_mem first member)
    obtain ⟨comb, members⟩ := ih notRest
    obtain ⟨value, member⟩ := List.exists_mem_of_ne_nil first notFirst
    exact ⟨value :: comb, List.Forall₂.cons member members⟩

theorem enumerateCombinations_eq_nil_iff {α : Type} {values : List (List α)}
    (nonempty : values ≠ []) : enumerateCombinations values = [] ↔ [] ∈ values := by
  constructor
  · intro isNil
    by_contra notMember
    obtain ⟨comb, members⟩ := exists_forall₂_mem notMember
    have member := (mem_enumerateCombinations nonempty).mpr members
    rw [isNil] at member
    exact absurd member List.not_mem_nil
  · intro member
    apply List.eq_nil_iff_forall_not_mem.mpr
    intro comb combMember
    have members := (mem_enumerateCombinations nonempty).mp combMember
    obtain ⟨i, inside, isNil⟩ := List.getElem_of_mem member
    have chosen := members.get (members.length_eq ▸ inside) inside
    simp only [List.get_eq_getElem, isNil] at chosen
    exact absurd chosen List.not_mem_nil

theorem exists_long_plan {stripe : Stripe} {plans : List (Plan Region Stripe)}
    (run : planStripes options estimates part homeMap stripe = some plans)
    (choice : ¬ NoChoice part homeMap) :
    ∃ plan ∈ plans, plan.tensorConfigs.length = part.inputTensors.length + 2 := by
  obtain ⟨possible, found, run⟩ := Option.bind_eq_some_iff.mp run
  obtain ⟨homeRegions, -, run⟩ := Option.bind_eq_some_iff.mp run
  obtain ⟨planned, combinations, isPlans⟩ := Option.bind_eq_some_iff.mp run
  obtain rfl := Option.some.inj isPlans
  have notNil : [] ∉ possible := fun member => choice ((nil_mem_possible_iff found).mp member)
  obtain ⟨comb, members⟩ := exists_forall₂_mem notNil
  have combMember := (mem_enumerateCombinations (possible_ne_nil found)).mpr members
  obtain ⟨combPlans, combRun⟩ := exists_of_mapM combinations combMember
  obtain ⟨last, outputsRun, isLast⟩ := Option.bind_eq_some_iff.mp combRun
  obtain rfl := Option.some.inj isLast
  have two := two_le_outputConfigs options estimates stripe part.outputTensor homeRegions
  obtain ⟨plan, planMember, -, isConfigs, -⟩ := (planOutputs_spec outputsRun).2 1 _
    (List.getElem?_eq_getElem two)
  obtain ⟨i, inside, isComb⟩ := List.getElem_of_mem combMember
  have sameLength := (mapM_eq_some_iff.mp combinations).length_eq
  have isRun := (mapM_eq_some_iff.mp combinations).get inside (sameLength ▸ inside)
  simp only [List.get_eq_getElem, isComb] at isRun
  refine ⟨plan, List.mem_flatten.mpr ⟨_, List.getElem_mem (sameLength ▸ inside), ?_⟩, ?_⟩
  · rw [← Option.some.inj (combRun.symm.trans isRun)]
    exact planMember
  · rw [isConfigs, List.length_append, List.length_take, members.length_eq,
      length_allPossibleInputConfigs found]
    omega

theorem planStripes_noChoice {stripe : Stripe} {plans : List (Plan Region Stripe)}
    (run : planStripes options estimates part homeMap stripe = some plans)
    (noChoice : NoChoice part homeMap) : plans = [] := by
  obtain ⟨possible, found, run⟩ := Option.bind_eq_some_iff.mp run
  obtain ⟨homeRegions, -, run⟩ := Option.bind_eq_some_iff.mp run
  rw [(enumerateCombinations_eq_nil_iff (possible_ne_nil found)).mpr
    ((nil_mem_possible_iff found).mpr noChoice)] at run
  exact (Option.some.inj run).symm

theorem choicesOf_noChoice {stripe : Stripe}
    {choices : List (List (TensorConfig Region Stripe) × TensorConfig Region Stripe)}
    (made : choicesOf options estimates part homeMap stripe = some choices)
    (noChoice : NoChoice part homeMap) : choices = [] := by
  obtain ⟨possible, found, made⟩ := Option.bind_eq_some_iff.mp made
  obtain ⟨homeRegions, -, made⟩ := Option.bind_eq_some_iff.mp made
  obtain rfl := Option.some.inj made
  have noSection : possible.sections = [] := by
    apply List.eq_nil_iff_forall_not_mem.mpr
    intro comb member
    have listed := (mem_enumerateCombinations (possible_ne_nil found)).mpr
      (List.mem_sections.mp member)
    rw [(enumerateCombinations_eq_nil_iff (possible_ne_nil found)).mpr
      ((nil_mem_possible_iff found).mpr noChoice)] at listed
    exact absurd listed List.not_mem_nil
  rw [noSection]
  rfl

theorem flatten_of_mapM {α β : Type} {f : α → Option (List β)} {xs : List α} {ys : List (List β)}
    (run : xs.mapM f = some ys) (empty : ∀ x y, f x = some y → y = []) : ys.flatten = [] := by
  apply List.flatten_eq_nil_iff.mpr
  intro y member
  obtain ⟨i, inside, rfl⟩ := List.getElem_of_mem member
  have related := mapM_eq_some_iff.mp run
  exact empty _ _ (related.get (related.length_eq ▸ inside) inside)

end

/-- The plans of a part are well formed only where there are none. -/
theorem singlePlans_wellFormed_iff [DecidableEq Region] [DecidableEq Stripe]
    (options : CascaderOptions Region) (estimates : Estimates Region Stripe Perf)
    (part : Part Stripe Perf) (homeMap : Tensor → Option (List Region))
    (outputStripeConfigs : List Stripe) (plans : List (Plan Region Stripe))
    (run : generateSinglePlans options estimates part homeMap outputStripeConfigs = some plans) :
    WellFormedPlans options estimates part homeMap outputStripeConfigs plans ↔
      outputStripeConfigs = [] ∨ NoChoice part homeMap := by
  obtain ⟨planned, each, isPlans⟩ := Option.bind_eq_some_iff.mp run
  obtain rfl := Option.some.inj isPlans
  constructor
  · intro wellFormed
    cases outputStripeConfigs with
    | nil => exact Or.inl rfl
    | cons stripe others =>
      refine Or.inr (by_contra fun choice => ?_)
      obtain ⟨stripePlans, others, isFirst, -, rfl⟩ :=
        List.forall₂_cons_left_iff.mp (mapM_eq_some_iff.mp each)
      obtain ⟨plan, member, long⟩ := exists_long_plan isFirst choice
      have planMember : plan ∈ (stripePlans :: others).flatten :=
        List.mem_flatten.mpr ⟨stripePlans, List.mem_cons_self, member⟩
      obtain ⟨-, inputConfigs, isInputs, perm⟩ := wellFormed.configs plan planMember
      have sameLength := perm.length_eq
      have inputsLength := congrArg List.length isInputs
      rw [List.length_map] at inputsLength
      rw [long, List.length_append, List.length_singleton, inputsLength] at sameLength
      omega
  · intro noPlans
    have empty : planned.flatten = [] := by
      rcases noPlans with rfl | noChoice
      · cases each
        rfl
      · exact flatten_of_mapM each fun _ _ made => planStripes_noChoice made noChoice
    refine ⟨?_, ?_, ?_⟩
    · rw [empty]
      exact fun plan member => absurd member List.not_mem_nil
    · rw [empty]
      exact fun plan member => absurd member List.not_mem_nil
    · intro choices made choice
      have noChoices : choices.flatten = [] := by
        rcases noPlans with rfl | noChoice
        · cases made
          rfl
        · exact flatten_of_mapM made fun _ _ found => choicesOf_noChoice found noChoice
      rw [empty, noChoices]
      rfl

def copyPart : Part ℕ Unit where
  inputTensors := [⟨0, 16, false⟩]
  outputTensor := ⟨1, 16, false⟩
  propagators := [id]
  getPerformanceInfo _ _ := ()
  inputs_length := rfl
  propagators_pos := Nat.one_pos

def freeEstimates : Estimates Bool ℕ Unit where
  canBound _ := true
  getBufferSize _ := 16
  cycles _ _ _ := some 0

/-- The plans of `copyPart` where both tensors live outside of the cascade region. -/
def copyPlans : List (Plan Bool ℕ) :=
  (generateSinglePlans ⟨true, 0⟩ freeEstimates copyPart (fun _ => some [false]) [0]).getD []

theorem copyPlans_run :
    generateSinglePlans ⟨true, 0⟩ freeEstimates copyPart (fun _ => some [false]) [0] =
      some copyPlans := by
  rfl

theorem singlePlans_wellFormed_iff_copy :
    WellFormedPlans ⟨true, 0⟩ freeEstimates copyPart (fun _ => some [false]) [0] copyPlans ↔
      [0] = [] ∨ NoChoice copyPart (fun _ => some [false]) :=
  singlePlans_wellFormed_iff ⟨true, 0⟩ freeEstimates copyPart (fun _ => some [false]) [0] copyPlans
    copyPlans_run

/-- The second plan of the first combination has the output twice. -/
theorem copyPlans_accumulate :
    ∃ plans, generateSinglePlans ⟨true, 0⟩ freeEstimates copyPart (fun _ => some [false]) [0] =
        some plans ∧
      ¬ WellFormedPlans ⟨true, 0⟩ freeEstimates copyPart (fun _ => some [false]) [0] plans := by
  refine ⟨copyPlans, copyPlans_run, fun wellFormed => ?_⟩
  have second : ∃ plan ∈ copyPlans, plan.tensorConfigs.length = 3 := by decide
  obtain ⟨plan, member, long⟩ := second
  obtain ⟨-, inputConfigs, isInputs, perm⟩ := wellFormed.configs plan member
  have sameLength := perm.length_eq
  have inputsLength := congrArg List.length isInputs
  rw [List.length_map] at inputsLength
  rw [long, List.length_append, List.length_singleton, inputsLength] at sameLength
  exact absurd sameLength (by decide)

end Tvm.Cascader
