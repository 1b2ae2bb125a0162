import Mathlib
import Tvm.Tir.Trace

/-!
# Simplification of traces

`TraceNode::Simplified` of `trace.cc`.  It goes through the instructions before the cut from the end
and drops a pure one where no output is used by what it has kept; it does not look into arrays.
-/

namespace Tvm.Tir

/-- A `PrimExpr` as far as its variables go. -/
inductive PrimExpr where
  | var (var : Rv)
  | imm
  | op (args : List PrimExpr)

mutual

/-- The variables that `PostOrderVisit` comes to. -/
def PrimExpr.vars : PrimExpr → List Rv
  | .var var => [var]
  | .imm => []
  | .op args => varsOf args

def varsOf : List PrimExpr → List Rv
  | [] => []
  | arg :: rest => arg.vars ++ varsOf rest

end

/-- An input: `nullptr`, a constant, a random variable, an expression or an array of inputs. -/
inductive Input where
  | null
  | constant (value : Object)
  | rv (rv : Rv)
  | expr (expr : PrimExpr)
  | array (elements : List Input)

mutual

/-- The random variables that `TranslateInputRVs` comes to. -/
def Input.mentions : Input → List Rv
  | .null | .constant _ => []
  | .rv v => [v]
  | .expr e => e.vars
  | .array elements => mentionsOf elements

def mentionsOf : List Input → List Rv
  | [] => []
  | input :: rest => input.mentions ++ mentionsOf rest

end

/-- The random variables that `Simplified` adds to the used ones. -/
def Input.used : Input → List Rv
  | .rv v => [v]
  | .expr e => e.vars
  | .null | .constant _ | .array _ => []

def Input.inArray : Input → List Rv
  | .array elements => mentionsOf elements
  | .null | .constant _ | .rv _ | .expr _ => []

/-- An `Instruction` with what is asked of its kind. -/
structure PureInst where
  address : Nat
  isPure : Bool
  isPostproc : Bool
  inputs : List Input
  outputs : List Rv

namespace PureInst

def mentions (inst : PureInst) : List Rv :=
  inst.inputs.flatMap Input.mentions

def used (inst : PureInst) : List Rv :=
  inst.inputs.flatMap Input.used

def inArrays (inst : PureInst) : List Rv :=
  inst.inputs.flatMap Input.inArray

end PureInst

structure PureTrace where
  insts : List PureInst
  decisions : List (Nat × Object)

namespace PureTrace

def getDecision (trace : PureTrace) (inst : PureInst) : Object :=
  (trace.decisions.lookup inst.address).getD .null

/-- The `GetNumValidInstructions` first instructions. -/
def validInsts (trace : PureTrace) (removePostproc : Bool) : List PureInst :=
  if removePostproc then trace.insts.takeWhile fun inst => !inst.isPostproc else trace.insts

/-- The state of the loop; the new instructions are there with their places in the trace. -/
structure Simplifier where
  usedRvs : List Rv
  newInsts : List (PureInst × Nat)
  newDecisions : List (Nat × Object)

/-- `emplace` of a decision that is there. -/
def emplaceDecision (decisions : List (Nat × Object)) (inst : PureInst) :
    Object → List (Nat × Object)
  | .null => decisions
  | decision =>
    if (decisions.lookup inst.address).isSome then decisions
    else (inst.address, decision) :: decisions

def simplifyInst (trace : PureTrace) (state : Simplifier) (inst : PureInst) (instIdx : Nat) :
    Simplifier :=
  let allDefsDead := inst.isPure && !inst.outputs.any fun output => state.usedRvs.contains output
  if allDefsDead then state
  else {
    usedRvs := inst.used ++ state.usedRvs
    newInsts := state.newInsts ++ [(inst, instIdx)]
    newDecisions := emplaceDecision state.newDecisions inst (trace.getDecision inst) }

/-- The loop, down from so many instructions. -/
def simplifyLoop (trace : PureTrace) (insts : List PureInst) : Nat → Simplifier → Simplifier
  | 0, state => state
  | instIdx + 1, state =>
    match insts[instIdx]? with
    | some inst => simplifyLoop trace insts instIdx (trace.simplifyInst state inst instIdx)
    | none => state

def simplifier (trace : PureTrace) (removePostproc : Bool) : Simplifier :=
  trace.simplifyLoop (trace.validInsts removePostproc) (trace.validInsts removePostproc).length
    ⟨[], [], []⟩

def simplified (trace : PureTrace) (removePostproc : Bool) : PureTrace where
  insts := ((trace.simplifier removePostproc).newInsts.map Prod.fst).reverse
  decisions := (trace.simplifier removePostproc).newDecisions

def keptPlaces (trace : PureTrace) (removePostproc : Bool) : List Nat :=
  (trace.simplifier removePostproc).newInsts.map Prod.snd

end PureTrace

/-- Every random variable is output by an earlier instruction than those that use it. -/
def OutputBeforeUse (insts : List PureInst) : Prop :=
  ∀ before inst after, insts = before ++ inst :: after →
    ∀ rv ∈ inst.mentions, ∃ earlier ∈ before, rv ∈ earlier.outputs

/-- A trace that replays as the whole one does: the variables are output before they are used, the
instructions that are not pure are there in order, decisions stay, and what is removed is pure and
has no output that is used by what is kept. -/
structure KeepsReplayable (trace : PureTrace) (removePostproc : Bool) : Prop where
  outputBeforeUse : OutputBeforeUse (trace.simplified removePostproc).insts
  effects : ((trace.validInsts removePostproc).filter fun inst => !inst.isPure).Sublist
    (trace.simplified removePostproc).insts
  decisions : ∀ inst ∈ (trace.simplified removePostproc).insts,
    (trace.simplified removePostproc).getDecision inst = trace.getDecision inst
  removed : ∀ i inst, (trace.validInsts removePostproc)[i]? = some inst →
    i ∉ trace.keptPlaces removePostproc → inst.isPure = true ∧
      ∀ rv ∈ inst.outputs, ∀ user ∈ (trace.simplified removePostproc).insts, rv ∉ user.mentions

/-- An instruction with an effect, or with an output that a later live one uses outside of arrays. -/
inductive Live (insts : List PureInst) : Nat → Prop where
  | effect {i : Nat} {inst : PureInst} (isInst : insts[i]? = some inst)
      (impure : inst.isPure = false) : Live insts i
  | used {i j : Nat} {inst user : PureInst} {rv : Rv} (isInst : insts[i]? = some inst)
      (later : i < j) (isUser : insts[j]? = some user) (live : Live insts j)
      (isOutput : rv ∈ inst.outputs) (isUsed : rv ∈ user.used) : Live insts i

/-- No dead instruction has an output that a live one uses inside an array, or that a live one uses
which does not come after it. -/
def NoHiddenUse (insts : List PureInst) : Prop :=
  ∀ i j inst user, insts[i]? = some inst → insts[j]? = some user → ¬Live insts i → Live insts j →
    ∀ rv ∈ inst.outputs, rv ∉ user.inArrays ∧ (j ≤ i → rv ∉ user.used)

section Lemmas

variable {insts : List PureInst} {rv : Rv}

theorem Input.mem_mentions {input : Input} :
    rv ∈ input.mentions ↔ rv ∈ input.used ∨ rv ∈ input.inArray := by
  cases input with
  | null | constant value => simp [Input.mentions, Input.used, Input.inArray]
  | rv v | expr expr | array elements => simp [Input.mentions, Input.used, Input.inArray]

theorem PureInst.mem_mentions {inst : PureInst} :
    rv ∈ inst.mentions ↔ rv ∈ inst.used ∨ rv ∈ inst.inArrays := by
  constructor
  · intro member
    obtain ⟨input, isInput, member⟩ := List.mem_flatMap.mp member
    exact (Input.mem_mentions.mp member).imp (fun used => List.mem_flatMap.mpr ⟨input, isInput, used⟩)
      fun inArray => List.mem_flatMap.mpr ⟨input, isInput, inArray⟩
  · rintro (member | member)
    · obtain ⟨input, isInput, member⟩ := List.mem_flatMap.mp member
      exact List.mem_flatMap.mpr ⟨input, isInput, Input.mem_mentions.mpr (.inl member)⟩
    · obtain ⟨input, isInput, member⟩ := List.mem_flatMap.mp member
      exact List.mem_flatMap.mpr ⟨input, isInput, Input.mem_mentions.mpr (.inr member)⟩

theorem Live.inside {i : Nat} (live : Live insts i) : i < insts.length := by
  cases live with
  | effect isInst impure => exact (List.getElem?_eq_some_iff.mp isInst).1
  | used isInst later isUser live isOutput isUsed => exact (List.getElem?_eq_some_iff.mp isInst).1

theorem live_iff_of_pure {i : Nat} {inst : PureInst} (isInst : insts[i]? = some inst)
    (isPure : inst.isPure = true) : Live insts i ↔ ∃ j user, i < j ∧ insts[j]? = some user ∧
      Live insts j ∧ ∃ rv ∈ inst.outputs, rv ∈ user.used := by
  constructor
  · intro live
    cases live with
    | effect isInst' impure =>
      rw [isInst] at isInst'
      cases isInst'
      rw [isPure] at impure
      cases impure
    | used isInst' later isUser live isOutput isUsed =>
      rw [isInst] at isInst'
      cases isInst'
      exact ⟨_, _, later, isUser, live, _, isOutput, isUsed⟩
  · rintro ⟨j, user, later, isUser, live, rv, isOutput, isUsed⟩
    exact .used isInst later isUser live isOutput isUsed

end Lemmas

namespace PureTrace

section Loop

variable {trace : PureTrace} {insts : List PureInst} {state : Simplifier} {m : Nat}

/-- The instructions that are kept, in the order of the trace. -/
def Simplifier.ordered (state : Simplifier) : List PureInst :=
  (state.newInsts.map Prod.fst).reverse

/-- The state where the loop has come down to place `m`. -/
structure Simplified (trace : PureTrace) (insts : List PureInst) (m : Nat) (state : Simplifier) :
    Prop where
  inst : ∀ kept ∈ state.newInsts, insts[kept.2]? = some kept.1
  place : ∀ i, i ∈ state.newInsts.map Prod.snd ↔ m ≤ i ∧ Live insts i
  descending : (state.newInsts.map Prod.snd).Pairwise (· > ·)
  used : ∀ rv, rv ∈ state.usedRvs ↔
    ∃ j user, m ≤ j ∧ insts[j]? = some user ∧ Live insts j ∧ rv ∈ user.used
  effects : ((insts.drop m).filter fun inst => !inst.isPure).Sublist state.ordered
  decision : ∀ kept ∈ state.newInsts,
    (state.newDecisions.lookup kept.1.address).getD .null = trace.getDecision kept.1
  entry : ∀ address, state.newDecisions.lookup address ≠ none →
    (state.newDecisions.lookup address).getD .null = (trace.decisions.lookup address).getD .null

theorem Simplified.start : Simplified trace insts insts.length ⟨[], [], []⟩ where
  inst _ member := absurd member List.not_mem_nil
  place i := ⟨fun member => absurd member List.not_mem_nil,
    fun inside => absurd inside.2.inside (by omega)⟩
  descending := .nil
  used rv := ⟨fun member => absurd member List.not_mem_nil, by
    rintro ⟨j, user, above, isUser, -⟩
    have := (List.getElem?_eq_some_iff.mp isUser).1
    omega⟩
  effects := by
    rw [List.drop_length]
    exact .slnil
  decision _ member := absurd member List.not_mem_nil
  entry _ there := absurd rfl there

theorem Simplified.dead_iff (simplified : Simplified trace insts (m + 1) state) {inst : PureInst}
    (isInst : insts[m]? = some inst) :
    (inst.isPure && !inst.outputs.any fun output => state.usedRvs.contains output) = true ↔
      ¬Live insts m := by
  cases isPure : inst.isPure with
  | false =>
    exact ⟨fun none => Bool.noConfusion none, fun dead => absurd (Live.effect isInst isPure) dead⟩
  | true =>
    rw [Bool.true_and, Bool.not_eq_true', live_iff_of_pure isInst isPure, ← Bool.not_eq_true,
      List.any_eq_true, not_iff_not]
    constructor
    · rintro ⟨rv, isOutput, contained⟩
      obtain ⟨j, user, above, isUser, live, isUsed⟩ :=
        (simplified.used rv).mp (List.contains_iff_mem.mp contained)
      exact ⟨j, user, above, isUser, live, rv, isOutput, isUsed⟩
    · rintro ⟨j, user, later, isUser, live, rv, isOutput, isUsed⟩
      exact ⟨rv, isOutput, List.contains_iff_mem.mpr
        ((simplified.used rv).mpr ⟨j, user, later, isUser, live, isUsed⟩)⟩

theorem Simplified.skip (simplified : Simplified trace insts (m + 1) state) {inst : PureInst}
    (isInst : insts[m]? = some inst) (dead : ¬Live insts m) : Simplified trace insts m state where
  inst := simplified.inst
  place i := by
    rw [simplified.place]
    constructor
    · exact fun inside => ⟨by omega, inside.2⟩
    · rintro ⟨above, live⟩
      rcases above.eq_or_lt with rfl | above
      · exact absurd live dead
      · exact ⟨above, live⟩
  descending := simplified.descending
  used rv := by
    rw [simplified.used]
    constructor
    · rintro ⟨j, user, above, rest⟩
      exact ⟨j, user, by omega, rest⟩
    · rintro ⟨j, user, above, isUser, live, isUsed⟩
      rcases above.eq_or_lt with rfl | above
      · exact absurd live dead
      · exact ⟨j, user, above, isUser, live, isUsed⟩
  effects := by
    obtain ⟨inside, rfl⟩ := List.getElem?_eq_some_iff.mp isInst
    rw [List.drop_eq_getElem_cons inside, List.filter_cons]
    have isPure : insts[m].isPure = true := by
      by_contra impure
      exact dead (.effect isInst (Bool.not_eq_true _ ▸ impure))
    rw [isPure]
    exact simplified.effects
  decision := simplified.decision
  entry := simplified.entry

theorem getD_emplaceDecision {decisions : List (Nat × Object)} {inst : PureInst} {decision : Object}
    {address : Nat} :
    ((emplaceDecision decisions inst decision).lookup address).getD .null =
      if address = inst.address ∧ decisions.lookup address = none then decision
      else (decisions.lookup address).getD .null := by
  rw [emplaceDecision.eq_def]
  split
  · split
    · rename_i absent
      rw [absent.2]
      rfl
    · rfl
  · split
    · rename_i there
      rw [if_neg]
      rintro ⟨rfl, absent⟩
      rw [absent] at there
      cases there
    · rename_i absent
      rw [Option.not_isSome_iff_eq_none] at absent
      by_cases same : address = inst.address
      · subst same
        rw [List.lookup_cons_self, if_pos ⟨rfl, absent⟩, Option.getD_some]
      · rw [List.lookup_cons, beq_false_of_ne same, if_neg fun both => same both.1]

theorem Simplified.keep (simplified : Simplified trace insts (m + 1) state) {inst : PureInst}
    (isInst : insts[m]? = some inst) (live : Live insts m) :
    Simplified trace insts m {
      usedRvs := inst.used ++ state.usedRvs
      newInsts := state.newInsts ++ [(inst, m)]
      newDecisions := emplaceDecision state.newDecisions inst (trace.getDecision inst) } where
  inst kept member := by
    rcases List.mem_append.mp member with member | member
    · exact simplified.inst kept member
    · rw [List.mem_singleton.mp member]
      exact isInst
  place i := by
    rw [List.map_append, List.mem_append, simplified.place, List.map_singleton, List.mem_singleton]
    constructor
    · rintro (⟨above, live⟩ | rfl)
      · exact ⟨by omega, live⟩
      · exact ⟨le_rfl, live⟩
    · rintro ⟨above, live⟩
      rcases above.eq_or_lt with rfl | above
      · exact .inr rfl
      · exact .inl ⟨above, live⟩
  descending := by
    rw [List.map_append, List.map_singleton]
    refine List.pairwise_append.mpr ⟨simplified.descending, List.pairwise_singleton _ _, ?_⟩
    intro i member j isLast
    rw [List.mem_singleton.mp isLast]
    exact ((simplified.place i).mp member).1
  used rv := by
    rw [List.mem_append, simplified.used]
    constructor
    · rintro (isUsed | ⟨j, user, above, rest⟩)
      · exact ⟨m, inst, le_rfl, isInst, live, isUsed⟩
      · exact ⟨j, user, by omega, rest⟩
    · rintro ⟨j, user, above, isUser, live, isUsed⟩
      rcases above.eq_or_lt with rfl | above
      · rw [isInst] at isUser
        cases isUser
        exact .inl isUsed
      · exact .inr ⟨j, user, above, isUser, live, isUsed⟩
  effects := by
    obtain ⟨inside, rfl⟩ := List.getElem?_eq_some_iff.mp isInst
    rw [List.drop_eq_getElem_cons inside, List.filter_cons, Simplifier.ordered, List.map_append,
      List.reverse_append]
    split
    · exact simplified.effects.cons_cons _
    · exact simplified.effects.cons _
  decision kept member := by
    rw [getD_emplaceDecision]
    split
    · rename_i absent
      rw [getDecision, getDecision, absent.1]
    · rename_i there
      rcases List.mem_append.mp member with member | member
      · exact simplified.decision kept member
      · rw [List.mem_singleton.mp member] at there ⊢
        exact simplified.entry _ fun absent => there ⟨rfl, absent⟩
  entry address there := by
    rw [getD_emplaceDecision]
    split
    · rename_i absent
      rw [getDecision, absent.1]
    · rename_i other
      apply simplified.entry
      intro absent
      apply there
      have different : address ≠ inst.address := fun same => other ⟨same, absent⟩
      rw [emplaceDecision.eq_def]
      split
      · exact absent
      · split
        · exact absent
        · rw [List.lookup_cons, beq_false_of_ne different]
          exact absent

theorem Simplified.step (simplified : Simplified trace insts (m + 1) state) {inst : PureInst}
    (isInst : insts[m]? = some inst) :
    Simplified trace insts m (trace.simplifyInst state inst m) := by
  rw [simplifyInst]
  split
  · rename_i dead
    exact simplified.skip isInst ((simplified.dead_iff isInst).mp dead)
  · rename_i alive
    exact simplified.keep isInst (not_not.mp (alive ∘ (simplified.dead_iff isInst).mpr))

theorem Simplified.loop (simplified : Simplified trace insts m state) (inside : m ≤ insts.length) :
    Simplified trace insts 0 (trace.simplifyLoop insts m state) := by
  induction m generalizing state with
  | zero => exact simplified
  | succ m ih =>
    have isInst := List.getElem?_eq_getElem (show m < insts.length by omega)
    rw [simplifyLoop, isInst]
    exact ih (simplified.step isInst) (by omega)

theorem Simplified.kept_iff (simplified : Simplified trace insts 0 state) {inst : PureInst} {i : Nat} :
    (inst, i) ∈ state.newInsts ↔ insts[i]? = some inst ∧ Live insts i := by
  constructor
  · intro member
    exact ⟨simplified.inst _ member, ((simplified.place i).mp (List.mem_map_of_mem member)).2⟩
  · rintro ⟨isInst, live⟩
    obtain ⟨⟨inst', _⟩, member, rfl⟩ := List.mem_map.mp ((simplified.place i).mpr ⟨Nat.zero_le i, live⟩)
    have isInst' := simplified.inst _ member
    rw [isInst] at isInst'
    cases isInst'
    exact member

theorem Simplified.mem_ordered (simplified : Simplified trace insts 0 state) {inst : PureInst} :
    inst ∈ state.ordered ↔ ∃ i, insts[i]? = some inst ∧ Live insts i := by
  rw [Simplifier.ordered, List.mem_reverse, List.mem_map]
  constructor
  · rintro ⟨⟨_, i⟩, member, rfl⟩
    exact ⟨i, simplified.kept_iff.mp member⟩
  · rintro ⟨i, kept⟩
    exact ⟨(inst, i), simplified.kept_iff.mpr kept, rfl⟩

/-- Where no live instruction hides its use of a dead one, that of a kept one is kept before it. -/
theorem Simplified.outputBeforeUse (simplified : Simplified trace insts 0 state)
    (outputs : OutputBeforeUse insts) (hidden : NoHiddenUse insts) : OutputBeforeUse state.ordered := by
  intro before inst after splitInsts rv isUsed
  rw [Simplifier.ordered, ← List.map_reverse] at splitInsts
  obtain ⟨before', rest, split, rfl, isRest⟩ := List.map_eq_append_iff.mp splitInsts
  obtain ⟨⟨user, i⟩, after', rfl, rfl, rfl⟩ := List.map_eq_cons_iff.mp isRest
  have member : ∀ kept, kept ∈ state.newInsts ↔ kept ∈ before' ++ (user, i) :: after' := fun kept => by
    rw [← split, List.mem_reverse]
  obtain ⟨isInst, live⟩ :=
    simplified.kept_iff.mp ((member (user, i)).mpr (List.mem_append_right _ List.mem_cons_self))
  obtain ⟨inside, rfl⟩ := List.getElem?_eq_some_iff.mp isInst
  obtain ⟨earlier, isEarlier, isOutput⟩ := outputs (insts.take i) insts[i] (insts.drop (i + 1))
    (by rw [← List.drop_eq_getElem_cons inside, List.take_append_drop]) rv isUsed
  obtain ⟨j, insideJ, rfl⟩ := List.mem_take_iff_getElem.mp isEarlier
  have sooner : j < i := by omega
  have isEarlier := List.getElem?_eq_getElem (show j < insts.length by omega)
  by_cases liveJ : Live insts j
  · refine ⟨_, List.mem_map_of_mem (a := (insts[j], j)) ?_, isOutput⟩
    have isKept := (member _).mp (simplified.kept_iff.mpr ⟨isEarlier, liveJ⟩)
    rcases List.mem_append.mp isKept with isKept | isKept
    · exact isKept
    · -- the places ascend
      have ascending : (before'.map Prod.snd ++ i :: after'.map Prod.snd).Pairwise (· < ·) := by
        have reversed := List.pairwise_reverse.mpr simplified.descending
        rw [← List.map_reverse, split, List.map_append, List.map_cons] at reversed
        exact reversed
      have later := (List.pairwise_cons.mp (List.pairwise_append.mp ascending).2.1).1
      rcases List.mem_cons.mp isKept with same | isKept
      · have := (Prod.mk.inj same).2
        omega
      · have := later j (List.mem_map_of_mem (f := Prod.snd) isKept)
        omega
  · have apart := hidden j i _ _ isEarlier isInst liveJ live rv isOutput
    rcases PureInst.mem_mentions.mp isUsed with isUsed | isUsed
    · exact absurd (.used isEarlier sooner isInst live isOutput isUsed) liveJ
    · exact absurd isUsed apart.1

end Loop

end PureTrace

theorem OutputBeforeUse.valid {trace : PureTrace} (outputs : OutputBeforeUse trace.insts)
    (removePostproc : Bool) : OutputBeforeUse (trace.validInsts removePostproc) := by
  have isPrefix : trace.validInsts removePostproc <+: trace.insts := by
    rw [PureTrace.validInsts]
    split
    · exact List.takeWhile_prefix _
    · exact List.prefix_rfl
  obtain ⟨rest, whole⟩ := isPrefix
  intro before inst after split
  apply outputs before inst (after ++ rest)
  rw [← whole, split, List.append_assoc, List.cons_append]

open PureTrace in
/-- A trace is still replayable after `Simplified` where no dead instruction has an output that a live
one uses inside an array. -/
theorem simplified_keepsReplayable_iff (trace : PureTrace) (removePostproc : Bool)
    (outputs : OutputBeforeUse trace.insts) :
    KeepsReplayable trace removePostproc ↔ NoHiddenUse (trace.validInsts removePostproc) := by
  have simplified : Simplified trace (trace.validInsts removePostproc) 0
      (trace.simplifier removePostproc) := Simplified.start.loop le_rfl
  have isKept : ∀ i, i ∈ trace.keptPlaces removePostproc ↔ Live (trace.validInsts removePostproc) i :=
    fun i => (simplified.place i).trans (and_iff_right (Nat.zero_le i))
  constructor
  · intro keeps i j inst user isInst isUser dead live rv isOutput
    have removed := (keeps.removed i inst isInst (dead ∘ (isKept i).mp)).2 rv isOutput user
      (simplified.mem_ordered.mpr ⟨j, isUser, live⟩)
    exact ⟨fun isUsed => removed (PureInst.mem_mentions.mpr (.inr isUsed)),
      fun _ isUsed => removed (PureInst.mem_mentions.mpr (.inl isUsed))⟩
  · intro hidden
    have outputBeforeUse := simplified.outputBeforeUse (outputs.valid removePostproc) hidden
    refine ⟨outputBeforeUse, simplified.effects, ?_, ?_⟩
    · intro inst member
      obtain ⟨i, kept⟩ := simplified.mem_ordered.mp member
      exact simplified.decision (inst, i) (simplified.kept_iff.mpr kept)
    · intro i inst isInst notKept
      have dead : ¬Live (trace.validInsts removePostproc) i := notKept ∘ (isKept i).mpr
      constructor
      · by_contra impure
        exact dead (.effect isInst (Bool.not_eq_true _ ▸ impure))
      · intro rv isOutput user member isUsed
        obtain ⟨j, isUser, live⟩ := simplified.mem_ordered.mp member
        have apart := hidden i j inst user isInst isUser dead live rv isOutput
        rcases PureInst.mem_mentions.mp isUsed with isUsed | isUsed
        · rcases lt_or_ge i j with later | notLater
          · exact dead (.used isInst later isUser live isOutput isUsed)
          · exact apart.2 notLater isUsed
        · exact apart.1 isUsed

/-- A sampled variable, and an annotation with an input that uses it. -/
def annotated (input : Rv → Input) : PureTrace where
  insts := [⟨0, true, false, [], [⟨.var, 0⟩]⟩, ⟨1, false, false, [input ⟨.var, 0⟩], []⟩]
  decisions := [(0, .int 3)]

theorem annotated_outputBeforeUse {input : Rv → Input}
    (mentions : (input ⟨.var, 0⟩).mentions = [⟨.var, 0⟩]) :
    OutputBeforeUse (annotated input).insts := by
  intro before inst after split rv isUsed
  match before, split with
  | [], split =>
    obtain ⟨rfl, -⟩ := List.cons.inj split
    exact absurd isUsed List.not_mem_nil
  | [first], split =>
    obtain ⟨isFirst, split⟩ := List.cons.inj split
    obtain ⟨rfl, -⟩ := List.cons.inj split
    refine ⟨first, List.mem_singleton_self first, ?_⟩
    rw [← isFirst]
    rw [PureInst.mentions, List.flatMap_singleton, mentions] at isUsed
    exact isUsed
  | first :: second :: third, split =>
    have length := congrArg List.length split
    rw [List.length_append, List.length_cons, List.length_cons, List.length_cons] at length
    change 2 = third.length + 1 + 1 + (after.length + 1) at length
    omega

/-- An annotation with an array of the variable: the sample is gone. -/
theorem simplified_drops_arrayElement :
    OutputBeforeUse (annotated fun rv => .array [.rv rv]).insts ∧
      ¬KeepsReplayable (annotated fun rv => .array [.rv rv]) false := by
  refine ⟨annotated_outputBeforeUse rfl, fun keeps => ?_⟩
  obtain ⟨earlier, none, -⟩ := keeps.outputBeforeUse [] _ [] rfl ⟨.var, 0⟩ List.mem_cons_self
  cases none

theorem simplified_keepsReplayable_direct : KeepsReplayable (annotated .rv) false :=
  (simplified_keepsReplayable_iff (annotated .rv) false (annotated_outputBeforeUse rfl)).mpr (by
    intro i j inst user isInst isUser dead
    have last : Live ((annotated .rv).validInsts false) 1 := .effect rfl rfl
    have first : Live ((annotated .rv).validInsts false) 0 :=
      .used rfl one_pos rfl last List.mem_cons_self List.mem_cons_self
    match i, isInst with
    | 0, _ => exact absurd first dead
    | 1, _ => exact absurd last dead)

end Tvm.Tir
