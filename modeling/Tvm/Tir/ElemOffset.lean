import Mathlib
import Tvm.Lib.AxisGroups
import Tvm.Lib.Extends
import Tvm.Tir.MergeMulMod

/-!
# Offsets into a buffer

`BufferNode::ElemOffset` and `Buffer::GetFlattenedBuffer` of `buffer.cc` over mathematical
integers.  `none` is a failed `ICHECK`.
-/

namespace Tvm.Tir

open Arith PrimExpr Lib

structure BufferNode where
  shape : List PrimExpr
  strides : List PrimExpr
  axisSeparators : List Nat
  elemOffset : Option PrimExpr

/-- `elem_offsets`: the offset, unless it is undefined or the literal zero. -/
def BufferNode.elemOffsets (buffer : BufferNode) : List PrimExpr :=
  match buffer.elemOffset with
  | some offset => if offset = .intImm 0 then [] else [offset]
  | none => []

/-- What an axis is taken times: its stride, or its extent where there are no strides. -/
def BufferNode.scales (buffer : BufferNode) : List PrimExpr :=
  if buffer.strides = [] then buffer.shape else buffer.strides

/-- One axis of `ElemOffset`: its stride or extent, and the index. -/
def addIndex (analyzer : IndexAnalyzer) (strided : Bool) (i : Nat) (outputIndex : PrimExpr)
    (axis : PrimExpr × PrimExpr) : Option PrimExpr :=
  let outputIndex :=
    if strided then make .add outputIndex (make .mul axis.2 axis.1)
    else make .add (make .mul outputIndex axis.1) axis.2
  if 0 < i then mergeMulMod analyzer outputIndex else some outputIndex

def addElemOffsets (outputIndices elemOffsets : List PrimExpr) : List PrimExpr :=
  if elemOffsets = [] then outputIndices else List.zipWith (make .add) outputIndices elemOffsets

def elemOffset (analyzer : IndexAnalyzer) (buffer : BufferNode) (inputIndices : List PrimExpr) :
    Option (List PrimExpr) :=
  if buffer.shape.length = inputIndices.length ∧
      (buffer.strides = [] ∨ buffer.strides.length = inputIndices.length) ∧
      (buffer.elemOffsets = [] ∨
        buffer.elemOffsets.length = buffer.axisSeparators.length + 1) then
    (scanAxes buffer.axisSeparators (addIndex analyzer (buffer.strides ≠ [])) 0 0
      (List.replicate (buffer.axisSeparators.length + 1) (.intImm 0))
      (buffer.scales.zip inputIndices)).map fun outputIndices =>
        (addElemOffsets outputIndices buffer.elemOffsets).map analyzer.simplify
  else none

def flattenedShape (buffer : BufferNode) : Option (List PrimExpr) :=
  if buffer.strides = [] then
    scanAxes buffer.axisSeparators (fun _ extent n => some (make .mul extent n)) 0 0
      (List.replicate (buffer.axisSeparators.length + 1) (.intImm 1)) buffer.shape
  else if buffer.shape.length = buffer.strides.length then
    (0 :: buffer.axisSeparators).mapM fun axis => do
      let stride ← buffer.strides[axis]?
      let extent ← buffer.shape[axis]?
      some (make .mul stride extent)
  else none

def getFlattenedBuffer (buffer : BufferNode) : Option BufferNode :=
  if buffer.axisSeparators.IsChain (· < ·) ∧
      (∀ first ∈ buffer.axisSeparators.head?, 0 < first) ∧
      ∀ last ∈ buffer.axisSeparators.getLast?, last < buffer.shape.length then
    (flattenedShape buffer).map fun shape =>
      { buffer with
        shape := shape
        axisSeparators := List.range' 1 buffer.axisSeparators.length
        strides := [] }
  else none

section Values

variable {analyzer : IndexAnalyzer} {interp : Nat → Env → Option Int} {env : Env}

def Evaluates (interp : Nat → Env → Option Int) (env : Env) : List PrimExpr → List Int → Prop :=
  List.Forall₂ fun e v => e.eval interp env = some v

structure BufferNode.At (buffer : BufferNode) (interp : Nat → Env → Option Int) (env : Env)
    (shape strides : List Int) (offset : Int) : Prop where
  shapeIs : Evaluates interp env buffer.shape shape
  stridesIs : Evaluates interp env buffer.strides strides
  offsetIs : AddsUp interp env buffer.elemOffset.toList offset

def plainOffset (strided : Bool) (axes : List (Int × Int)) : Int :=
  if strided then strideSum axes else hornerSum axes

/-- The plain formula: for each group the sum over its axes, plus the offset. -/
def plainOffsets (separators : List Nat) (shape strides indices : List Int) (offset : Int) : List Int :=
  (List.range (separators.length + 1)).map fun group =>
    plainOffset (strides ≠ []) (axesOf separators group 0
      ((if strides = [] then shape else strides).zip indices)) + offset

theorem addIndex_value (sound : analyzer.Sound) (strided : Bool) (i : Nat) {outputIndex : PrimExpr}
    {axis : PrimExpr × PrimExpr} {sum : Int} {values : Int × Int}
    (sumIs : outputIndex.eval interp env = some sum)
    (axisIs : axis.1.eval interp env = some values.1 ∧ axis.2.eval interp env = some values.2) :
    ∃ next, addIndex analyzer strided i outputIndex axis = some next ∧
      next.eval interp env =
        some ((if strided then strideStep else hornerStep) sum values) := by
  have plain : (if strided then make .add outputIndex (make .mul axis.2 axis.1)
      else make .add (make .mul outputIndex axis.1) axis.2).eval interp env =
        some ((if strided then strideStep else hornerStep) sum values) := by
    cases strided with
    | true =>
      apply eval_make sumIs _ (admits_int rfl sum _) rfl
      exact eval_make axisIs.2 axisIs.1 (admits_int rfl _ _) rfl
    | false =>
      apply eval_make _ axisIs.2 (admits_int rfl _ _) rfl
      exact eval_make sumIs axisIs.1 (admits_int rfl _ _) rfl
  rw [addIndex]
  split
  · exact mergeMulMod_value sound plain
  · exact ⟨_, rfl, plain⟩

theorem Evaluates.zip {first second : List PrimExpr} {values values' : List Int}
    (left : Evaluates interp env first values) (right : Evaluates interp env second values') :
    List.Forall₂ (fun (axis : PrimExpr × PrimExpr) (value : Int × Int) =>
      axis.1.eval interp env = some value.1 ∧ axis.2.eval interp env = some value.2)
      (first.zip second) (values.zip values') := by
  induction left generalizing second values' with
  | nil => exact List.Forall₂.nil
  | cons head tail ih =>
    cases right with
    | nil => exact List.Forall₂.nil
    | cons head' tail' => exact List.Forall₂.cons ⟨head, head'⟩ (ih tail')

theorem Evaluates.replicate {e : PrimExpr} {v : Int} (evaluates : e.eval interp env = some v)
    (count : Nat) : Evaluates interp env (List.replicate count e) (List.replicate count v) := by
  induction count with
  | zero => exact List.Forall₂.nil
  | succ count ih => exact List.Forall₂.cons evaluates ih

theorem Evaluates.simplify (sound : analyzer.Sound) {es : List PrimExpr} {values : List Int}
    (evaluates : Evaluates interp env es values) :
    Evaluates interp env (es.map analyzer.simplify) values := by
  induction evaluates with
  | nil => exact List.Forall₂.nil
  | cons head tail ih => exact List.Forall₂.cons (sound.simplifies _ interp env _ head) ih

theorem Evaluates.unique {es : List PrimExpr} {values values' : List Int}
    (first : Evaluates interp env es values) (second : Evaluates interp env es values') :
    values = values' := by
  induction first generalizing values' with
  | nil =>
    cases second
    rfl
  | cons head tail ih =>
    cases second with
    | cons head' tail' =>
      rw [ih tail', Option.some.inj (head.symm.trans head')]

theorem mapIdx_replicate {α β : Type} (f : Nat → α → β) (count : Nat) (a : α) :
    (List.replicate count a).mapIdx f = (List.range count).map (f · a) := by
  apply List.ext_getElem
  · rw [List.length_mapIdx, List.length_replicate, List.length_map, List.length_range]
  · intro i _ _
    rw [List.getElem_mapIdx, List.getElem_replicate, List.getElem_map, List.getElem_range]

theorem countP_lt_zero (separators : List Nat) : separators.countP (· < 0) = 0 :=
  countP_eq_zero fun separator _ => Nat.not_lt_zero separator

theorem foldl_plainOffset (strided : Bool) (axes : List (Int × Int)) :
    axes.foldl (if strided then strideStep else hornerStep) 0 = plainOffset strided axes := by
  cases strided with
  | true => exact (foldl_strideStep axes 0).trans (zero_add _)
  | false => rfl

theorem scanAxes_value (sound : analyzer.Sound) {separators : List Nat}
    (increasing : separators.Pairwise (· < ·)) (strided : Bool) {scales indices : List PrimExpr}
    {scaleValues values : List Int} (scalesAre : Evaluates interp env scales scaleValues)
    (indicesAre : Evaluates interp env indices values) :
    ∃ outputs, scanAxes separators (addIndex analyzer strided) 0 0
        (List.replicate (separators.length + 1) (.intImm 0)) (scales.zip indices) = some outputs ∧
      Evaluates interp env outputs ((List.range (separators.length + 1)).map fun group =>
        plainOffset strided (axesOf separators group 0 (scaleValues.zip values))) := by
  have zero : Evaluates interp env (List.replicate (separators.length + 1) (.intImm 0))
      (List.replicate (separators.length + 1) 0) := Evaluates.replicate rfl _
  obtain ⟨outputs, outputsAre, evaluates⟩ := scanAxes_simulates increasing
    (fun axis s t a b => addIndex_value sound strided axis) (scalesAre.zip indicesAre) zero
    List.length_replicate 0
  rw [countP_lt_zero] at outputsAre
  simp only [mapIdx_replicate, foldl_plainOffset] at evaluates
  exact ⟨outputs, outputsAre, evaluates⟩

end Values

/-- What `ElemOffset` checks of a buffer, with separators that increase. -/
structure BufferNode.Indexable (buffer : BufferNode) : Prop where
  increasing : buffer.axisSeparators.Pairwise (· < ·)
  strides : buffer.strides = [] ∨ buffer.strides.length = buffer.shape.length
  single : buffer.axisSeparators = [] ∨ buffer.elemOffsets = []

section ElemOffset

variable {analyzer : IndexAnalyzer} {interp : Nat → Env → Option Int} {env : Env}
  {buffer : BufferNode} {shape strides indices : List Int} {offset : Int}

theorem BufferNode.At.no_offset (values : buffer.At interp env shape strides offset)
    (none : buffer.elemOffsets = []) : offset = 0 := by
  have offsetIs := values.offsetIs
  rw [BufferNode.elemOffsets] at none
  split at none
  · rename_i e is
    rw [is] at offsetIs
    split at none
    · rename_i zero
      rw [zero] at offsetIs
      exact (Option.some.inj (addsUp_singleton.mp offsetIs)).symm
    · cases none
  · rename_i is
    rw [is] at offsetIs
    exact offsetIs

theorem BufferNode.Indexable.offsets (indexable : buffer.Indexable) : buffer.elemOffsets = [] ∨
    buffer.axisSeparators = [] ∧ ∃ e, buffer.elemOffset = some e ∧ buffer.elemOffsets = [e] := by
  rcases indexable.single with single | none
  · rw [BufferNode.elemOffsets]
    split
    · rename_i e is
      split
      · exact Or.inl rfl
      · exact Or.inr ⟨single, e, is, rfl⟩
    · exact Or.inl rfl
  · exact Or.inl none

theorem addElemOffsets_value (indexable : buffer.Indexable)
    (values : buffer.At interp env shape strides offset) {outputs : List PrimExpr} {plain : Nat → Int}
    (evaluates : Evaluates interp env outputs
      ((List.range (buffer.axisSeparators.length + 1)).map plain)) :
    Evaluates interp env (addElemOffsets outputs buffer.elemOffsets)
      ((List.range (buffer.axisSeparators.length + 1)).map fun group => plain group + offset) := by
  rcases indexable.offsets with none | ⟨single, e, is, one⟩
  · rw [addElemOffsets, if_pos none, values.no_offset none]
    simp only [add_zero]
    exact evaluates
  · rw [single] at evaluates ⊢
    have offsetIs := values.offsetIs
    rw [is] at offsetIs
    rw [addElemOffsets, if_neg (one ▸ List.cons_ne_nil e []), one]
    cases evaluates with
    | cons head tail =>
      cases tail
      apply List.Forall₂.cons _ List.Forall₂.nil
      exact eval_make head (addsUp_singleton.mp offsetIs) (admits_int rfl _ _) rfl

theorem elemOffset_value (sound : analyzer.Sound) (indexable : buffer.Indexable)
    {inputIndices : List PrimExpr} (arity : inputIndices.length = buffer.shape.length)
    (values : buffer.At interp env shape strides offset)
    (indicesAre : Evaluates interp env inputIndices indices) :
    ∃ outputs, elemOffset analyzer buffer inputIndices = some outputs ∧
      Evaluates interp env outputs
        (plainOffsets buffer.axisSeparators shape strides indices offset) := by
  have unstrided : buffer.strides = [] ↔ strides = [] := by
    rw [← List.length_eq_zero_iff, values.stridesIs.length_eq, List.length_eq_zero_iff]
  have scales : Evaluates interp env buffer.scales (if strides = [] then shape else strides) := by
    rw [BufferNode.scales]
    by_cases none : buffer.strides = []
    · rw [if_pos none, if_pos (unstrided.mp none)]
      exact values.shapeIs
    · rw [if_neg none, if_neg (unstrided.not.mp none)]
      exact values.stridesIs
  obtain ⟨outputs, outputsAre, evaluates⟩ := scanAxes_value sound indexable.increasing
    (buffer.strides ≠ []) scales indicesAre
  have same : decide (buffer.strides ≠ []) = decide (strides ≠ []) := by
    rw [decide_eq_decide]
    exact unstrided.not
  have single : buffer.elemOffsets = [] ∨
      buffer.elemOffsets.length = buffer.axisSeparators.length + 1 := by
    rcases indexable.offsets with none | ⟨none, e, -, one⟩
    · exact Or.inl none
    · rw [none, one]
      exact Or.inr rfl
  have total := (addElemOffsets_value indexable values evaluates).simplify sound
  rw [same] at total
  refine ⟨_, ?_, total⟩
  rw [elemOffset, if_pos ⟨arity.symm, arity ▸ indexable.strides, single⟩, outputsAre]
  rfl

def Within : List Int → List Int → Prop :=
  List.Forall₂ fun index extent => 0 ≤ index ∧ index < extent

theorem exists_axes {first second : List Int} (firstWithin : Within first shape)
    (secondWithin : Within second shape) : ∃ axes : List (Int × Int × Int),
      (∀ axis ∈ axes, BothWithin axis) ∧
      (axes.map fun axis => (axis.1, axis.2.1)) = shape.zip first ∧
      (axes.map fun axis => (axis.1, axis.2.2)) = shape.zip second ∧
      (axes.map fun axis => axis.2.1) = first ∧ (axes.map fun axis => axis.2.2) = second := by
  induction firstWithin generalizing second with
  | nil =>
    cases secondWithin
    exact ⟨[], fun axis member => absurd member List.not_mem_nil, rfl, rfl, rfl, rfl⟩
  | @cons x n _ _ head tail ih =>
    cases secondWithin with
    | @cons y _ _ _ head' tail' =>
      obtain ⟨axes, within, left, right, lefts, rights⟩ := ih tail'
      refine ⟨(n, x, y) :: axes, fun axis member => ?_, ?_, ?_, ?_, ?_⟩
      · rcases List.mem_cons.mp member with rfl | member
        · exact ⟨head, head'⟩
        · exact within axis member
      · rw [List.map_cons, left, List.zip_cons_cons]
      · rw [List.map_cons, right, List.zip_cons_cons]
      · rw [List.map_cons, lefts]
      · rw [List.map_cons, rights]

theorem plainOffsets_injective {separators : List Nat} {first second : List Int}
    (firstWithin : Within first shape) (secondWithin : Within second shape)
    (same : plainOffsets separators shape [] first offset =
      plainOffsets separators shape [] second offset) : first = second := by
  obtain ⟨axes, within, left, right, lefts, rights⟩ := exists_axes firstWithin secondWithin
  rw [← lefts, ← rights, List.map_inj_left]
  intro axis member
  obtain ⟨group, bound, member⟩ :
      ∃ group ≤ separators.length, axis ∈ axesOf separators group 0 axes := exists_group member 0
  have here := List.map_inj_left.mp same group (List.mem_range.mpr (Nat.lt_succ_of_le bound))
  have sums := add_right_cancel here
  rw [if_pos rfl, ← left, ← right, axesOf_map, axesOf_map] at sums
  have inGroup : ∀ axis ∈ axesOf separators group 0 axes, BothWithin axis := fun axis member =>
    within axis (mem_of_mem_axesOf member)
  exact (foldl_hornerStep_injective inGroup sums).2 axis member

/-- `ElemOffset` ends with the plain formula for every output index, `MergeMulMod` changes no value,
and without strides different tuples within the extents get different offsets. -/
theorem elemOffset_exact (sound : analyzer.Sound) (indexable : buffer.Indexable) :
    (∀ interp env e v, e.eval interp env = some v →
      ∃ merged, mergeMulMod analyzer e = some merged ∧ merged.eval interp env = some v) ∧
    (∀ interp env shape strides offset inputIndices indices,
      buffer.At interp env shape strides offset → Evaluates interp env inputIndices indices →
      inputIndices.length = buffer.shape.length →
      ∃ outputs, elemOffset analyzer buffer inputIndices = some outputs ∧
        Evaluates interp env outputs
          (plainOffsets buffer.axisSeparators shape strides indices offset)) ∧
    ∀ interp env env' shape offset inputIndices inputIndices' indices indices' outputs outputs'
      values values',
      buffer.At interp env shape [] offset → buffer.At interp env' shape [] offset →
      Evaluates interp env inputIndices indices → Evaluates interp env' inputIndices' indices' →
      Within indices shape → Within indices' shape → indices ≠ indices' →
      elemOffset analyzer buffer inputIndices = some outputs →
      elemOffset analyzer buffer inputIndices' = some outputs' →
      Evaluates interp env outputs values → Evaluates interp env' outputs' values' →
      values ≠ values' := by
  refine ⟨fun interp env e v => mergeMulMod_value sound, ?_, ?_⟩
  · intro interp env shape strides offset inputIndices indices values indicesAre arity
    exact elemOffset_value sound indexable arity values indicesAre
  · intro interp env env' shape offset inputIndices inputIndices' indices indices' outputs outputs'
      values values' here there indicesAre indicesAre' within within' different outputsAre
      outputsAre' evaluates evaluates' same
    have arity : inputIndices.length = buffer.shape.length := by
      rw [indicesAre.length_eq, within.length_eq, here.shapeIs.length_eq]
    have arity' : inputIndices'.length = buffer.shape.length := by
      rw [indicesAre'.length_eq, within'.length_eq, there.shapeIs.length_eq]
    obtain ⟨_, again, plain⟩ := elemOffset_value sound indexable arity here indicesAre
    obtain ⟨_, again', plain'⟩ := elemOffset_value sound indexable arity' there indicesAre'
    rw [outputsAre] at again
    rw [outputsAre'] at again'
    cases again
    cases again'
    apply different
    apply plainOffsets_injective within within'
    rw [plain.unique evaluates, plain'.unique evaluates', same]

/-- An analyzer that simplifies nothing and proves what is the same. -/
def identityAnalyzer : IndexAnalyzer where
  simplify e := e
  canProveEqual a b := a = b

theorem identityAnalyzer_sound : identityAnalyzer.Sound where
  simplifies _ _ _ _ evaluates := evaluates
  proves a b proved interp env x y left right := by
    have same : a = b := of_decide_eq_true proved
    rw [same, right] at left
    exact (Option.some.inj left).symm

def matrix (axisSeparators : List Nat) (offset : Option PrimExpr) : BufferNode :=
  ⟨[.intImm 4, .intImm 8], [], axisSeparators, offset⟩

theorem matrix_at {axisSeparators : List Nat} {offset : Option PrimExpr} {value : Int}
    (is : AddsUp interp env offset.toList value) :
    (matrix axisSeparators offset).At interp env [4, 8] [] value where
  shapeIs := .cons rfl (.cons rfl .nil)
  stridesIs := .nil
  offsetIs := is

theorem elemOffset_exact_matrix : ∃ outputs,
    elemOffset identityAnalyzer (matrix [] none) [.var 0, .var 1] = some outputs ∧
      Evaluates (fun _ _ => none) (fun _ => 3) outputs [27] := by
  have indexable : (matrix [] none).Indexable := ⟨List.Pairwise.nil, Or.inl rfl, Or.inl rfl⟩
  exact (elemOffset_exact identityAnalyzer_sound indexable).2.1 _ _ _ _ 0 _ [3, 3]
    (matrix_at rfl) (.cons rfl (.cons rfl .nil)) rfl

/-- With a separator, an offset that is not zero is refused. -/
theorem elemOffset_refuses_offset :
    identityAnalyzer.Sound ∧
    (matrix [1] (some (.intImm 3))).At (fun _ _ => none) (fun _ => 0) [4, 8] [] 3 ∧
    elemOffset identityAnalyzer (matrix [1] (some (.intImm 3))) [.intImm 0, .intImm 0] = none :=
  ⟨identityAnalyzer_sound, matrix_at (addsUp_singleton.mpr rfl), rfl⟩

end ElemOffset

section Flattened

variable {analyzer : IndexAnalyzer} {interp : Nat → Env → Option Int} {env : Env}
  {buffer flat : BufferNode} {shape strides indices : List Int} {offset : Int}

theorem accepted_separators (accepted : getFlattenedBuffer buffer = some flat) :
    (0 :: buffer.axisSeparators).Pairwise (· < ·) ∧
      (∀ separator ∈ buffer.axisSeparators, separator < buffer.shape.length) ∧
      flattenedShape buffer = some flat.shape := by
  rw [getFlattenedBuffer] at accepted
  split at accepted
  · rename_i checks
    obtain ⟨chain, first, last⟩ := checks
    obtain ⟨shape, shapeIs, rfl⟩ := Option.map_eq_some_iff.mp accepted
    have increasing := List.isChain_iff_pairwise.mp chain
    refine ⟨?_, ?_, shapeIs⟩
    · cases separators : buffer.axisSeparators with
      | nil => exact List.pairwise_singleton _ _
      | cons separator rest =>
        rw [separators] at chain first
        rw [← List.isChain_iff_pairwise]
        exact List.IsChain.cons_cons (first separator rfl) chain
    · intro separator member
      obtain ⟨front, final, whole⟩ := List.eq_nil_or_concat buffer.axisSeparators
        |>.resolve_left (List.ne_nil_of_mem member)
      have end_bound : final < buffer.shape.length := by
        apply last
        rw [whole, List.concat_eq_append, List.getLast?_concat]
        rfl
      rw [whole, List.concat_eq_append] at member increasing
      rcases List.mem_append.mp member with member | member
      · have less := (List.pairwise_append.mp increasing).2.2 separator member final
          (List.mem_singleton_self final)
        exact less.trans end_bound
      · rw [List.mem_singleton.mp member]
        exact end_bound
  · cases accepted

theorem flattenedShape_products (accepted : getFlattenedBuffer buffer = some flat)
    (unstrided : buffer.strides = []) (shapeIs : Evaluates interp env buffer.shape shape) :
    Evaluates interp env flat.shape ((List.range (buffer.axisSeparators.length + 1)).map fun group =>
      (axesOf buffer.axisSeparators group 0 shape).foldl (· * ·) 1) := by
  obtain ⟨increasing, -, shapeOf⟩ := accepted_separators accepted
  rw [flattenedShape, if_pos unstrided] at shapeOf
  have one : Evaluates interp env (List.replicate (buffer.axisSeparators.length + 1) (.intImm 1))
      (List.replicate (buffer.axisSeparators.length + 1) 1) := Evaluates.replicate rfl _
  have simulates : ∀ (axis : Nat) (extent : PrimExpr) (value : Int) (n : PrimExpr) (size : Int),
      extent.eval interp env = some value → n.eval interp env = some size →
      ∃ next, some (make .mul extent n) = some next ∧ next.eval interp env = some (value * size) :=
    fun _ extent value n size extentIs sizeIs =>
      ⟨_, rfl, eval_make extentIs sizeIs (admits_int rfl value size) rfl⟩
  obtain ⟨outputs, outputsAre, evaluates⟩ := scanAxes_simulates
    (List.pairwise_cons.mp increasing).2 simulates shapeIs one List.length_replicate 0
  rw [countP_lt_zero, shapeOf] at outputsAre
  cases outputsAre
  rw [mapIdx_replicate] at evaluates
  exact evaluates

theorem Evaluates.getElem? {es : List PrimExpr} {values : List Int} {e : PrimExpr} {i : Nat}
    (evaluates : Evaluates interp env es values) (found : es[i]? = some e) :
    ∃ v, values[i]? = some v ∧ e.eval interp env = some v := by
  obtain ⟨inside, -⟩ := List.getElem?_eq_some_iff.mp found
  obtain ⟨e', v, here, there, same⟩ := forall₂_getElem? evaluates (evaluates.length_eq ▸ inside)
  rw [found] at here
  cases here
  exact ⟨v, there, same⟩

theorem flattenedShape_firsts (accepted : getFlattenedBuffer buffer = some flat)
    (strided : buffer.strides ≠ []) (shapeIs : Evaluates interp env buffer.shape shape)
    (stridesIs : Evaluates interp env buffer.strides strides) :
    shape.length = strides.length ∧ ∃ firsts : Nat → Int × Int,
      (∀ group ≤ buffer.axisSeparators.length, (axesOf buffer.axisSeparators group 0
        (shape.zip strides)).head? = some (firsts group)) ∧
      Evaluates interp env flat.shape ((List.range (buffer.axisSeparators.length + 1)).map
        fun group => (firsts group).2 * (firsts group).1) := by
  obtain ⟨increasing, inside, shapeOf⟩ := accepted_separators accepted
  rw [flattenedShape, if_neg strided] at shapeOf
  split at shapeOf
  · rename_i same
    have lengths : shape.length = strides.length := by
      rw [← shapeIs.length_eq, ← stridesIs.length_eq, same]
    refine ⟨lengths, ?_⟩
    have images := mapM_eq_some_iff.mp shapeOf
    have count : flat.shape.length = buffer.axisSeparators.length + 1 := images.length_eq.symm
    have each : ∀ group ≤ buffer.axisSeparators.length, ∃ e first, flat.shape[group]? = some e ∧
        (axesOf buffer.axisSeparators group 0 (shape.zip strides)).head? = some first ∧
        e.eval interp env = some (first.2 * first.1) := by
      intro group bound
      have inside : group < flat.shape.length := by omega
      obtain ⟨boundary, e, found, there, image⟩ := forall₂_getElem? images inside
      obtain ⟨stride, strideFound, image⟩ := Option.bind_eq_some_iff.mp image
      obtain ⟨extent, extentFound, image⟩ := Option.bind_eq_some_iff.mp image
      cases image
      obtain ⟨s, strideAt, strideIs⟩ := stridesIs.getElem? strideFound
      obtain ⟨n, extentAt, extentIs⟩ := shapeIs.getElem? extentFound
      refine ⟨_, (n, s), there, ?_, ?_⟩
      · rw [axesOf_head? increasing found, List.getElem?_zip_eq_some]
        exact ⟨extentAt, strideAt⟩
      · exact eval_make strideIs extentIs (admits_int rfl s n) rfl
    choose! e first there heads extents using each
    refine ⟨first, heads, List.forall₂_iff_get.mpr ⟨?_, fun group bound bound' => ?_⟩⟩
    · rw [count, List.length_map, List.length_range]
    · have within : group ≤ buffer.axisSeparators.length := by omega
      have here := there group within
      rw [List.getElem?_eq_getElem bound, Option.some.injEq] at here
      rw [List.get_eq_getElem, List.get_eq_getElem, here, List.getElem_map, List.getElem_range]
      exact extents group within
  · cases shapeOf

theorem exists_strided_axes (lengths : shape.length = strides.length)
    (nonnegative : ∀ stride ∈ strides, 0 ≤ stride) (within : Within indices shape) :
    ∃ axes : List (Int × Int × Int),
      (∀ axis ∈ axes, (0 ≤ axis.2.2 ∧ axis.2.2 < axis.1) ∧ 0 ≤ axis.2.1) ∧
      (axes.map fun axis => (axis.1, axis.2.1)) = shape.zip strides ∧
      (axes.map fun axis => (axis.2.1, axis.2.2)) = strides.zip indices := by
  induction within generalizing strides with
  | nil =>
    cases List.length_eq_zero_iff.mp lengths.symm
    exact ⟨[], fun axis member => absurd member List.not_mem_nil, rfl, rfl⟩
  | @cons index extent rest extents head tail ih =>
    cases strides with
    | nil => cases lengths
    | cons stride others =>
      obtain ⟨axes, good, left, right⟩ := ih (Nat.succ.inj lengths)
        fun s member => nonnegative s (List.mem_cons_of_mem _ member)
      refine ⟨(extent, stride, index) :: axes, fun axis member => ?_, ?_, ?_⟩
      · rcases List.mem_cons.mp member with rfl | member
        · exact ⟨head, nonnegative stride List.mem_cons_self⟩
        · exact good axis member
      · rw [List.map_cons, left, List.zip_cons_cons]
      · rw [List.map_cons, right, List.zip_cons_cons]

/-- The later axes of every group stay below the stride of its first one. -/
def Nested (separators : List Nat) (shape strides : List Int) : Prop :=
  ∀ group ≤ separators.length, ∀ first rest,
    axesOf separators group 0 (shape.zip strides) = first :: rest → lastOffset rest < first.2

theorem lastOffset_cons (first : Int × Int) (rest : List (Int × Int)) :
    lastOffset (first :: rest) = (first.1 - 1) * first.2 + lastOffset rest := by
  rw [lastOffset, List.map_cons, List.sum_cons, ← lastOffset]

theorem strideSum_last (separators : List Nat) (group : Nat) (lengths : shape.length = strides.length) :
    strideSum (axesOf separators group 0 (strides.zip (shape.map (· - 1)))) =
      lastOffset (axesOf separators group 0 (shape.zip strides)) := by
  have swapped : strides.zip (shape.map (· - 1)) =
      (shape.zip strides).map fun axis => (axis.2, axis.1 - 1) := by
    induction shape generalizing strides with
    | nil => cases strides <;> rfl
    | cons extent rest ih =>
      cases strides with
      | nil => cases lengths
      | cons stride others =>
        rw [List.map_cons, List.zip_cons_cons, List.zip_cons_cons, List.map_cons,
          ih (Nat.succ.inj lengths)]
  rw [swapped, axesOf_map, strideSum, List.map_map, lastOffset]
  rfl

theorem within_range_map {count : Nat} {f g : Nat → Int} :
    Within ((List.range count).map f) ((List.range count).map g) ↔
      ∀ group < count, 0 ≤ f group ∧ f group < g group := by
  rw [Within, List.forall₂_map_left_iff, List.forall₂_map_right_iff, List.forall₂_same]
  simp only [List.mem_range]

theorem accepted_indexable (accepted : getFlattenedBuffer buffer = some flat)
    (zero : buffer.elemOffsets = []) : buffer.Indexable := by
  obtain ⟨increasing, -, shapeOf⟩ := accepted_separators accepted
  refine ⟨(List.pairwise_cons.mp increasing).2, ?_, Or.inr zero⟩
  rw [flattenedShape] at shapeOf
  split at shapeOf
  · rename_i none
    exact Or.inl none
  · split at shapeOf
    · rename_i same
      exact Or.inr same.symm
    · cases shapeOf

theorem plainOffsets_rows (separators : List Nat) (shape indices : List Int) :
    plainOffsets separators shape [] indices 0 = (List.range (separators.length + 1)).map fun group =>
      hornerSum (axesOf separators group 0 (shape.zip indices)) := by
  simp [plainOffsets, plainOffset]

theorem plainOffsets_strided (separators : List Nat) (shape indices : List Int)
    (strided : strides ≠ []) :
    plainOffsets separators shape strides indices 0 =
      (List.range (separators.length + 1)).map fun group =>
        strideSum (axesOf separators group 0 (strides.zip indices)) := by
  simp [plainOffsets, plainOffset, strided]

theorem flattened_covers_rows (accepted : getFlattenedBuffer buffer = some flat)
    (unstrided : buffer.strides = []) (shapeIs : Evaluates interp env buffer.shape shape)
    (within : Within indices shape) :
    ∃ extents, Evaluates interp env flat.shape extents ∧
      Within (plainOffsets buffer.axisSeparators shape [] indices 0) extents := by
  refine ⟨_, flattenedShape_products accepted unstrided shapeIs, ?_⟩
  rw [plainOffsets_rows, within_range_map]
  intro group _
  have firsts : (shape.zip indices).map Prod.fst = shape :=
    List.map_fst_zip within.length_eq.ge
  have each : ∀ axis ∈ axesOf buffer.axisSeparators group 0 (shape.zip indices),
      0 ≤ axis.2 ∧ axis.2 < axis.1 := fun axis member =>
    List.forall₂_zip within.flip (mem_of_mem_axesOf member)
  have start : (0 : Int) ≤ 0 ∧ (0 : Int) < 1 := ⟨le_rfl, one_pos⟩
  have bound := foldl_hornerStep_bound each start
  rw [← axesOf_map, firsts] at bound
  exact bound

/-- Strided offsets are within the flattened extents, for every index tuple, exactly where the later
axes of every group stay below the stride of its first one. -/
theorem flattened_covers_strides (accepted : getFlattenedBuffer buffer = some flat)
    (strided : buffer.strides ≠ []) (values : buffer.At interp env shape strides offset)
    (positive : ∀ extent ∈ shape, 0 < extent) (nonnegative : ∀ stride ∈ strides, 0 ≤ stride) :
    ∃ extents, Evaluates interp env flat.shape extents ∧
      ((∀ indices, Within indices shape →
        Within (plainOffsets buffer.axisSeparators shape strides indices 0) extents) ↔
        Nested buffer.axisSeparators shape strides) := by
  obtain ⟨lengths, firsts, heads, extents⟩ :=
    flattenedShape_firsts accepted strided values.shapeIs values.stridesIs
  have notNone : strides ≠ [] := by
    rw [← List.length_pos_iff, ← values.stridesIs.length_eq, List.length_pos_iff]
    exact strided
  refine ⟨_, extents, ?_⟩
  simp only [plainOffsets_strided _ _ _ notNone, within_range_map]
  constructor
  · intro covers group bound first rest is
    have last : Within (shape.map (· - 1)) shape := by
      rw [Within, List.forall₂_map_left_iff, List.forall₂_same]
      intro extent member
      have above := positive extent member
      exact ⟨by omega, by omega⟩
    have here := (covers _ last group (Nat.lt_succ_of_le bound)).2
    have head := heads group bound
    rw [is, List.head?_cons, Option.some.injEq] at head
    rw [strideSum_last _ _ lengths, is, lastOffset_cons, ← head] at here
    linarith
  · intro nested indices within group bound
    obtain ⟨axes, good, left, right⟩ := exists_strided_axes lengths nonnegative within
    have inGroup : ∀ axis ∈ axesOf buffer.axisSeparators group 0 axes,
        (0 ≤ axis.2.2 ∧ axis.2.2 < axis.1) ∧ 0 ≤ axis.2.1 := fun axis member =>
      good axis (mem_of_mem_axesOf member)
    have between := strideSum_bound inGroup
    rw [← axesOf_map, ← axesOf_map, left, right] at between
    have head := heads group (Nat.le_of_lt_succ bound)
    obtain ⟨rest, is⟩ := List.head?_eq_some_iff.mp head
    have fits := nested group (Nat.le_of_lt_succ bound) _ rest is
    rw [is, lastOffset_cons] at between
    exact ⟨between.1, by linarith [between.2]⟩

def stridedMatrix (strides : List Int) : BufferNode :=
  ⟨[.intImm 4, .intImm 4], strides.map .intImm, [], none⟩

theorem stridedMatrix_at (strides : List Int) :
    (stridedMatrix strides).At (fun _ _ => none) (fun _ => 0) [4, 4] strides 0 where
  shapeIs := .cons rfl (.cons rfl .nil)
  stridesIs := by
    rw [stridedMatrix, Evaluates, List.forall₂_map_left_iff, List.forall₂_same]
    exact fun _ _ => rfl
  offsetIs := rfl

/-- The flattened matrix; its extent is that of the first axis times the stride. -/
def flatMatrix (extent : Int) : BufferNode :=
  ⟨[.intImm extent], [], [], none⟩

end Flattened

end Tvm.Tir
