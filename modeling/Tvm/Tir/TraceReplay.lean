import Tvm.Tir.Trace

/-!
# Replaying a serialized trace

The names that `AsJSON` gives to the random variables lead `ApplyJSONToSchedule` to the objects that
`ApplyToSchedule` finds, and both make the same calls where no string of an input ends early.
-/

namespace Tvm.Tir

mutual

/-- The objects besides arrays in an object, at any depth. -/
def Object.leaves : Object → List Object
  | .array elements => leavesOf elements
  | .null => [.null]
  | .str data => [.str data]
  | .int value => [.int value]
  | .float bits => [.float bits]
  | .rv rv => [.rv rv]
  | .map address => [.map address]

def leavesOf : List Object → List Object
  | [] => []
  | input :: rest => input.leaves ++ leavesOf rest

end

def ZeroFree (inputs : List Object) : Prop :=
  ∀ data, .str data ∈ leavesOf inputs → 0 ∉ data

/-- Null, strings, numbers and arrays of them, and random variables that are known. -/
def InputsOver (known : Rv → Prop) (inputs : List Object) : Prop :=
  ∀ leaf ∈ leavesOf inputs, (∀ address, leaf ≠ .map address) ∧ ∀ rv, leaf = .rv rv → known rv

theorem cString_eq_self_iff {data : Text} : cString data = data ↔ 0 ∉ data := by
  rw [cString, List.takeWhile_eq_self_iff]
  constructor
  · intro nonzero absurd
    exact of_decide_eq_true (nonzero 0 absurd) rfl
  · intro absent b member
    exact decide_eq_true fun zero => absent (zero ▸ member)

theorem translateName_quoted (namedRvs : Text → Option Object) (data : Text) :
    translateName namedRvs (quote :: data ++ [quote]) = some (.str data) := by
  have quoted : (quote :: data ++ [quote]).length ≥ 2 ∧
      (quote :: data ++ [quote]).head? = some quote ∧
      (quote :: data ++ [quote]).getLast? = some quote := by
    refine ⟨?_, rfl, List.getLast?_concat⟩
    simp
  rw [translateName, if_neg (by simp), if_pos quoted]
  simp

theorem isDigit_ne_zero {b : UInt8} (digit : Lib.isDigit b = true) : b ≠ 0 := by
  rintro rfl
  cases digit

theorem zero_notMem_outputName (rv : Rv) (count : Nat) : 0 ∉ outputName rv count := by
  rw [outputName]
  refine List.not_mem_cons_of_ne_of_not_mem ?_ fun member => ?_
  · cases rv.kind <;> decide
  · exact isDigit_ne_zero (Lib.isDigit_of_mem_decimal member) rfl

theorem translateName_outputName (namedRvs : Text → Option Object) (rv : Rv) (count : Nat) :
    translateName namedRvs (outputName rv count) = namedRvs (outputName rv count) := by
  have unquoted : ¬((outputName rv count).length ≥ 2 ∧
      (outputName rv count).head? = some quote ∧
      (outputName rv count).getLast? = some quote) := by
    rintro ⟨-, first, -⟩
    cases kind : rv.kind <;> simp [outputName, kind, RvKind.letter, quote] at first
  rw [translateName, if_neg (by simp [outputName]), if_neg unquoted,
    cString_eq_self_iff.mpr (zero_notMem_outputName rv count)]

theorem translateName_none (namedRvs : Text → Option Object) :
    translateName namedRvs noneName = namedRvs noneName := by
  rw [translateName, if_neg (by decide), if_neg (by decide)]
  rfl

theorem outputName_ne_none (rv : Rv) (count : Nat) : outputName rv count ≠ noneName := by
  intro same
  have first := (List.cons.inj same).1
  cases kind : rv.kind <;> rw [kind] at first <;> exact absurd first (by decide)

theorem outputName_count {rv rv' : Rv} {count count' : Nat}
    (same : outputName rv count = outputName rv' count') : count = count' :=
  Lib.decimal_injective (List.cons.inj same).2

/-- The names lead to the objects that the random variables are mapped to. -/
structure Agree (rvMap : Rv → Option Object) (rvNames : List (Rv × Text))
    (namedRvs : Text → Option Object) : Prop where
  null : namedRvs noneName = some .null
  named : ∀ rv name, rvNames.lookup rv = some name → (∃ count, name = outputName rv count) ∧
    ∃ object, rvMap rv = some object ∧ namedRvs name = some object
  fresh : ∀ rv count, rvNames.length ≤ count → namedRvs (outputName rv count) = none

section Agree

variable {rvMap : Rv → Option Object} {rvNames : List (Rv × Text)} {namedRvs : Text → Option Object}

theorem agree_initial : Agree (fun _ => none) [] initialNames where
  null := Function.update_self ..
  named rv name found := by cases found
  fresh rv count _ := Function.update_of_ne (outputName_ne_none rv count) ..

theorem Agree.add (agree : Agree rvMap rvNames namedRvs) {rv : Rv} (object : Object)
    (unknown : rvNames.lookup rv = none) : Agree (Function.update rvMap rv (some object))
      ((rv, outputName rv rvNames.length) :: rvNames)
      (Function.update namedRvs (outputName rv rvNames.length) (some object)) where
  null := by
    rw [Function.update_of_ne (outputName_ne_none rv _).symm]
    exact agree.null
  named rv' name found := by
    rw [List.lookup_cons] at found
    split at found
    · rename_i same
      cases eq_of_beq same
      cases found
      exact ⟨⟨_, rfl⟩, object, Function.update_self .., Function.update_self ..⟩
    · rename_i different
      obtain ⟨form, object', isObject, isNamed⟩ := agree.named rv' name found
      have known : rv' ≠ rv := by
        rintro rfl
        rw [unknown] at found
        cases found
      have other : name ≠ outputName rv rvNames.length := by
        rintro rfl
        rw [agree.fresh rv _ (le_refl _)] at isNamed
        cases isNamed
      exact ⟨form, object', (Function.update_of_ne known ..).trans isObject,
        (Function.update_of_ne other ..).trans isNamed⟩
  fresh rv' count long := by
    have later : outputName rv' count ≠ outputName rv rvNames.length := by
      intro same
      have count := outputName_count same
      rw [List.length_cons] at long
      omega
    exact (Function.update_of_ne later ..).trans (agree.fresh rv' count (Nat.le_of_succ_le long))

theorem addOutputNames_defined {outputs : List Rv} (distinct : outputs.Nodup)
    (unknown : ∀ rv ∈ outputs, rvNames.lookup rv = none) : ∃ named,
      addOutputNames rvNames outputs = some named ∧
      ∀ rv, named.2.lookup rv = none ↔ rvNames.lookup rv = none ∧ rv ∉ outputs := by
  induction outputs generalizing rvNames with
  | nil => exact ⟨([], rvNames), rfl, fun rv => by simp⟩
  | cons output rest ih =>
    obtain ⟨absent, distinct⟩ := List.nodup_cons.mp distinct
    obtain ⟨first, others⟩ := List.forall_mem_cons.mp unknown
    have unknown' : ∀ rv ∈ rest,
        ((output, outputName output rvNames.length) :: rvNames).lookup rv = none := by
      intro rv member
      have different : rv ≠ output := fun same => absent (same ▸ member)
      rw [List.lookup_cons, beq_eq_false_iff_ne.mpr different]
      exact others rv member
    obtain ⟨named, made, keys⟩ := ih distinct unknown'
    refine ⟨(outputName output rvNames.length :: named.1, named.2), ?_, fun rv => ?_⟩
    · rw [addOutputNames, if_pos first, made]
      rfl
    · rw [keys rv, List.lookup_cons, List.mem_cons]
      by_cases same : rv = output
      · rw [same, beq_self_eq_true]
        simp
      · rw [beq_eq_false_iff_ne.mpr same]
        simp only [same, false_or]

theorem Agree.addOutputs {outputs : List Rv} {named : List Text × List (Rv × Text)}
    (agree : Agree rvMap rvNames namedRvs) (made : addOutputNames rvNames outputs = some named)
    (news : List Object) :
    (addOutputRvs rvMap outputs news = none ∧ addNamedRvs namedRvs named.1 news = none) ∨
    ∃ rvMap' namedRvs', addOutputRvs rvMap outputs news = some rvMap' ∧
      addNamedRvs namedRvs named.1 news = some namedRvs' ∧ Agree rvMap' named.2 namedRvs' := by
  induction outputs generalizing rvMap rvNames namedRvs named news with
  | nil =>
    cases made
    cases news with
    | nil => exact Or.inr ⟨rvMap, namedRvs, rfl, rfl, agree⟩
    | cons new news => exact Or.inl ⟨rfl, rfl⟩
  | cons output rest ih =>
    rw [addOutputNames] at made
    split at made
    · rename_i unknown
      obtain ⟨others, othersMade, made⟩ := Option.bind_eq_some_iff.mp made
      cases made
      cases news with
      | nil => exact Or.inl ⟨rfl, rfl⟩
      | cons new news =>
        rw [addOutputRvs, addNamedRvs, if_pos (agree.fresh output _ (le_refl _))]
        exact ih (agree.add new unknown) othersMade news
    · cases made

theorem InputsOver.first {known : Rv → Prop} {input : Object} {rest : List Object}
    (inputs : InputsOver known (input :: rest)) : InputsOver known [input] := by
  intro leaf member
  rw [leavesOf, leavesOf, List.append_nil] at member
  exact inputs leaf (List.mem_append_left _ member)

theorem InputsOver.rest {known : Rv → Prop} {input : Object} {rest : List Object}
    (inputs : InputsOver known (input :: rest)) : InputsOver known rest :=
  fun leaf member => inputs leaf (List.mem_append_right _ member)

theorem InputsOver.elements {known : Rv → Prop} {elements : List Object}
    (inputs : InputsOver known [.array elements]) : InputsOver known elements := by
  intro leaf member
  refine inputs leaf ?_
  rwa [leavesOf, leavesOf, List.append_nil, Object.leaves]

mutual

theorem translateInputToName_defined : ∀ (input : Object),
    InputsOver (fun rv => rvNames.lookup rv ≠ none) [input] →
      ∃ name, translateInputToName rvNames input = some name
  | .null, _ | .str _, _ | .int _, _ | .float _, _ | .map _, _ => ⟨_, rfl⟩
  | .rv rv, known => by
      have isKnown := (known (.rv rv) (by simp [leavesOf, Object.leaves])).2 rv rfl
      obtain ⟨name, isName⟩ := Option.ne_none_iff_exists'.mp isKnown
      exact ⟨.str name, by rw [translateInputToName, isName, Option.map_some]⟩
  | .array elements, known => by
      obtain ⟨names, isNames⟩ := translateInputsToNames_defined elements known.elements
      exact ⟨.array names, by rw [translateInputToName, isNames, Option.map_some]⟩

theorem translateInputsToNames_defined : ∀ (inputs : List Object),
    InputsOver (fun rv => rvNames.lookup rv ≠ none) inputs →
      ∃ names, translateInputsToNames rvNames inputs = some names
  | [], _ => ⟨[], rfl⟩
  | input :: rest, known => by
      obtain ⟨name, isName⟩ := translateInputToName_defined input known.first
      obtain ⟨names, isNames⟩ := translateInputsToNames_defined rest known.rest
      exact ⟨name :: names, by
        rw [translateInputsToNames, isName, isNames]
        rfl⟩

end

/-- The names of inputs lead back to the objects unless a string is cut. -/
structure Translates (rvMap : Rv → Option Object) (rvNames : List (Rv × Text))
    (namedRvs : Text → Option Object) (inputs : List Object) (names objects back : List Object) :
    Prop where
  toNames : translateInputsToNames rvNames inputs = some names
  direct : translateInputRvs rvMap inputs = some objects
  fromNames : translateInputsFromNames namedRvs names = some back
  same : back = objects ↔ ZeroFree inputs

mutual

theorem Agree.translate_one (agree : Agree rvMap rvNames namedRvs) : ∀ (input : Object),
    InputsOver (fun rv => rvNames.lookup rv ≠ none) [input] → ∃ name object back,
      translateInputToName rvNames input = some name ∧
      translateInputRv rvMap input = some object ∧
      translateInputFromName namedRvs name = some back ∧ (back = object ↔ ZeroFree [input])
  | .null, _ => by
      refine ⟨.str noneName, .null, .null, rfl, rfl, ?_, ?_⟩
      · exact (translateName_none namedRvs).trans agree.null
      · simp [ZeroFree, leavesOf, Object.leaves]
  | .str data, _ => by
      refine ⟨.str (quote :: cString data ++ [quote]), .str data, .str (cString data), rfl, rfl,
        translateName_quoted namedRvs _, ?_⟩
      simp [ZeroFree, leavesOf, Object.leaves, cString_eq_self_iff]
  | .int value, _ => by
      refine ⟨.int value, .int value, .int value, rfl, rfl, rfl, ?_⟩
      simp [ZeroFree, leavesOf, Object.leaves]
  | .float bits, _ => by
      refine ⟨.float bits, .float bits, .float bits, rfl, rfl, rfl, ?_⟩
      simp [ZeroFree, leavesOf, Object.leaves]
  | .rv rv, known => by
      have isKnown := (known (.rv rv) (by simp [leavesOf, Object.leaves])).2 rv rfl
      obtain ⟨name, isName⟩ := Option.ne_none_iff_exists'.mp isKnown
      obtain ⟨⟨count, rfl⟩, object, isObject, isNamed⟩ := agree.named rv name isName
      refine ⟨.str (outputName rv count), object, object, ?_, isObject, ?_, ?_⟩
      · rw [translateInputToName, isName, Option.map_some]
      · exact (translateName_outputName namedRvs rv count).trans isNamed
      · simp [ZeroFree, leavesOf, Object.leaves]
  | .array elements, known => by
      obtain ⟨names, objects, back, translates⟩ := agree.translate elements known.elements
      refine ⟨.array names, .array objects, .array back, ?_, ?_, ?_, ?_⟩
      · rw [translateInputToName, translates.toNames, Option.map_some]
      · rw [translateInputRv, translates.direct, Option.map_some]
      · rw [translateInputFromName, translates.fromNames, Option.map_some]
      · rw [Object.array.injEq, translates.same]
        simp [ZeroFree, leavesOf, Object.leaves]
  | .map address, known =>
    absurd rfl ((known (.map address) (by simp [leavesOf, Object.leaves])).1 address)

theorem Agree.translate (agree : Agree rvMap rvNames namedRvs) : ∀ (inputs : List Object),
    InputsOver (fun rv => rvNames.lookup rv ≠ none) inputs → ∃ names objects back,
      Translates rvMap rvNames namedRvs inputs names objects back
  | [], _ => ⟨[], [], [], rfl, rfl, rfl, by simp [ZeroFree, leavesOf]⟩
  | input :: rest, known => by
      obtain ⟨name, object, back, toName, direct, fromName, same⟩ := agree.translate_one input
        known.first
      obtain ⟨names, objects, others, translates⟩ := agree.translate rest known.rest
      refine ⟨name :: names, object :: objects, back :: others, ?_, ?_, ?_, ?_⟩
      · rw [translateInputsToNames, toName, translates.toNames]
        rfl
      · rw [translateInputRvs, direct, translates.direct]
        rfl
      · rw [translateInputsFromNames, fromName, translates.fromNames]
        rfl
      · rw [List.cons.injEq, same, translates.same, ZeroFree, ZeroFree, ZeroFree]
        simp only [leavesOf, List.append_nil, List.mem_append]
        constructor
        · exact fun both data => fun member => member.elim (both.1 data) (both.2 data)
        · exact fun all => ⟨fun data member => all data (Or.inl member),
            fun data member => all data (Or.inr member)⟩

end

end Agree

section Replays

variable {σ : Type} {trace : Trace σ} {get : Text → Option (InstructionKind σ)}
  {removePostproc : Bool}

/-- Every random variable is output once, and before it is used. -/
structure Trace.WellFormed (trace : Trace σ) : Prop where
  distinct : (trace.insts.flatMap Instruction.outputs).Nodup
  defined : ∀ before inst after, trace.insts = before ++ inst :: after →
    InputsOver (· ∈ before.flatMap Instruction.outputs) inst.inputs

/-- The kinds are found by their names, and their attributes come back from JSON. -/
structure Trace.Registered (trace : Trace σ) (get : Text → Option (InstructionKind σ)) : Prop where
  kinds : ∀ inst ∈ trace.insts, get (cString inst.kind.name) = some inst.kind
  attrs : ∀ inst ∈ trace.insts, ∃ json, inst.jsonAttrs = .array json ∧
    JsonInst.parsedAttrs ⟨inst.kind, [], json, []⟩ = inst.attrs

theorem parse_jsonDecision {decisions : List Object} {i : Nat} (inside : i < decisions.length)
    (empty : decisions.getD i .null = .null) (decision : Object) (rest : List Object) :
    ∃ decisions', parseDecisions decisions (jsonDecision i decision ++ rest) =
        parseDecisions decisions' rest ∧ decisions'.length = decisions.length ∧
      decisions'.getD i .null = decision ∧
      ∀ k, k ≠ i → decisions'.getD k .null = decisions.getD k .null := by
  have general (some' : jsonDecision i decision = [.array [.int i, decision]]) :
      ∃ decisions', parseDecisions decisions (jsonDecision i decision ++ rest) =
        parseDecisions decisions' rest ∧ decisions'.length = decisions.length ∧
      decisions'.getD i .null = decision ∧
      ∀ k, k ≠ i → decisions'.getD k .null = decisions.getD k .null := by
    refine ⟨decisions.set i decision, ?_, List.length_set, ?_, fun k different => ?_⟩
    · rw [some', List.singleton_append, parseDecisions, if_pos ⟨Int.natCast_nonneg i, by simpa⟩,
        Int.toNat_natCast]
    · rw [List.getD_eq_getElem?_getD, List.getElem?_set_self inside, Option.getD_some]
    · rw [List.getD_eq_getElem?_getD, List.getElem?_set_ne different.symm,
        ← List.getD_eq_getElem?_getD]
  cases decision with
  | null => exact ⟨decisions, rfl, rfl, empty, fun _ _ => rfl⟩
  | _ => exact general rfl

theorem parse_jsonInsts {insts : List (Instruction σ)} {i : Nat} {rvNames : List (Rv × Text)}
    {entries : List Object × List Object} {decisions : List Object}
    (made : trace.jsonInsts removePostproc insts i rvNames = some entries)
    (room : i + entries.1.length ≤ decisions.length)
    (empty : ∀ k, i ≤ k → decisions.getD k .null = .null) : ∃ decisions',
      parseDecisions decisions entries.2 = some decisions' ∧
      (∀ k < i, decisions'.getD k .null = decisions.getD k .null) ∧
      ∀ k < entries.1.length, ∀ inst, insts[k]? = some inst →
        decisions'.getD (i + k) .null = trace.getDecision inst := by
  induction insts generalizing i rvNames entries decisions with
  | nil =>
    cases made
    exact ⟨decisions, rfl, fun _ _ => rfl, fun k absurd => by cases absurd⟩
  | cons inst rest ih =>
    rw [Trace.jsonInsts] at made
    split at made
    · cases made
      exact ⟨decisions, rfl, fun _ _ => rfl, fun k absurd => by cases absurd⟩
    · obtain ⟨inputs, -, made⟩ := Option.bind_eq_some_iff.mp made
      obtain ⟨outputs, -, made⟩ := Option.bind_eq_some_iff.mp made
      obtain ⟨others, othersMade, made⟩ := Option.bind_eq_some_iff.mp made
      cases made
      rw [List.length_cons] at room
      obtain ⟨next, parsed, length, atIndex, elsewhere⟩ := parse_jsonDecision
        (by omega : i < decisions.length) (empty i (le_refl i)) (trace.getDecision inst) others.2
      obtain ⟨decisions', rest', before, after⟩ := ih othersMade
        (by omega : i + 1 + others.1.length ≤ next.length)
        fun k later => (elsewhere k (by omega)).trans (empty k (by omega))
      refine ⟨decisions', parsed.trans rest', fun k earlier => ?_, fun k bound inst' isInst => ?_⟩
      · rw [before k (by omega), elsewhere k (by omega)]
      · cases k with
        | zero =>
          cases isInst
          rw [Nat.add_zero, before i (Nat.lt_succ_self i), atIndex]
        | succ k =>
          rw [← after k (Nat.lt_of_succ_lt_succ bound) inst' isInst]
          congr 1
          omega

/-- Two replays make the same calls exactly where no string that is replayed has a zero byte, and
then they end alike. -/
structure SameReplay (insts : List (Instruction σ)) (json direct : Replay σ) : Prop where
  calls : json.calls = direct.calls ↔
    ∀ inst ∈ insts.take direct.calls.length, ZeroFree inst.inputs
  schedule : json.calls = direct.calls → json.schedule = direct.schedule

theorem SameReplay.of_no_calls (insts : List (Instruction σ)) (schedule : Option σ) :
    SameReplay insts ⟨[], schedule⟩ ⟨[], schedule⟩ where
  calls := iff_of_true rfl fun inst member => by cases member
  schedule _ := rfl

theorem SameReplay.andThen {inst : Instruction σ} {rest : List (Instruction σ)}
    {call call' : Call σ} {sch : σ} {json direct : List Object → σ → Replay σ}
    (kind : call.kind = call'.kind) (attrs : call.attrs = call'.attrs)
    (decision : call.decision = call'.decision)
    (inputs : call.inputs = call'.inputs ↔ ZeroFree inst.inputs)
    (later : ∀ outputs next, SameReplay rest (json outputs next) (direct outputs next)) :
    SameReplay (inst :: rest) (call.andThen sch json) (call'.andThen sch direct) := by
  obtain ⟨k, i, a, d⟩ := call
  obtain ⟨k', i', a', d'⟩ := call'
  obtain rfl : k = k' := kind
  obtain rfl : a = a' := attrs
  obtain rfl : d = d' := decision
  have sameCall : (⟨k, i, a, d⟩ : Call σ) = ⟨k, i', a, d⟩ ↔ i = i' := by simp
  by_cases same : i = i'
  · obtain rfl : i = i' := same
    have zeroFree := inputs.mp rfl
    rw [Call.andThen, Call.andThen]
    cases k.fApplyToSchedule sch i a d with
    | none =>
      refine ⟨iff_of_true rfl fun inst' member => ?_, fun _ => rfl⟩
      obtain rfl : inst' = inst := by simpa using member
      exact zeroFree
    | some result =>
      have rest := later result.1 result.2
      refine ⟨?_, fun calls => rest.schedule (List.cons.inj calls).2⟩
      simp only [List.cons.injEq, true_and, List.length_cons, List.take_succ_cons,
        List.forall_mem_cons, zeroFree, rest.calls]
  · have different : ¬ZeroFree inst.inputs := mt inputs.mpr same
    rw [Call.andThen, Call.andThen]
    have noCalls {calls calls' : List (Call σ)} :
        (⟨k, i, a, d⟩ :: calls) ≠ (⟨k, i', a, d⟩ : Call σ) :: calls' := fun equal =>
      same (sameCall.mp (List.cons.inj equal).1)
    have noZeroFree (count : Nat) :
        ¬∀ inst' ∈ (inst :: rest).take (count + 1), ZeroFree inst'.inputs := fun all =>
      different (all inst (by simp))
    cases k.fApplyToSchedule sch i a d <;> cases k.fApplyToSchedule sch i' a d
    all_goals
      exact ⟨iff_of_false noCalls (noZeroFree _), fun equal => absurd equal noCalls⟩

/-- The random variables in the table are those of the instructions before. -/
def NamesOf (rvNames : List (Rv × Text)) (before : List (Instruction σ)) : Prop :=
  ∀ rv, rvNames.lookup rv = none ↔ rv ∉ before.flatMap Instruction.outputs

section Suffix

variable {before rest : List (Instruction σ)} {inst : Instruction σ}
  {rvNames : List (Rv × Text)}

theorem Trace.WellFormed.inputs (wellFormed : trace.WellFormed)
    (suffix : trace.insts = before ++ inst :: rest) (names : NamesOf rvNames before) :
    InputsOver (fun rv => rvNames.lookup rv ≠ none) inst.inputs := by
  intro leaf member
  obtain ⟨notMap, known⟩ := wellFormed.defined before inst rest suffix leaf member
  exact ⟨notMap, fun rv same missing => (names rv).mp missing (known rv same)⟩

theorem Trace.WellFormed.outputs (wellFormed : trace.WellFormed)
    (suffix : trace.insts = before ++ inst :: rest) (names : NamesOf rvNames before) :
    inst.outputs.Nodup ∧ ∀ rv ∈ inst.outputs, rvNames.lookup rv = none := by
  have distinct := wellFormed.distinct
  rw [suffix, List.flatMap_append, List.flatMap_cons] at distinct
  obtain ⟨-, later, disjoint⟩ := List.nodup_append'.mp distinct
  refine ⟨(List.nodup_append'.mp later).1, fun rv member => (names rv).mpr fun earlier => ?_⟩
  exact disjoint earlier (List.mem_append_left _ member)

theorem NamesOf.add {named : List Text × List (Rv × Text)} (names : NamesOf rvNames before)
    (keys : ∀ rv, named.2.lookup rv = none ↔ rvNames.lookup rv = none ∧ rv ∉ inst.outputs) :
    NamesOf named.2 (before ++ [inst]) := by
  intro rv
  rw [keys rv, names rv, List.flatMap_append, List.mem_append, not_or, List.flatMap_singleton]

theorem jsonInsts_defined (wellFormed : trace.WellFormed) (removePostproc : Bool) (i : Nat)
    (suffix : trace.insts = before ++ rest) (names : NamesOf rvNames before) :
    ∃ entries, trace.jsonInsts removePostproc rest i rvNames = some entries := by
  induction rest generalizing before rvNames i with
  | nil => exact ⟨([], []), rfl⟩
  | cons inst rest ih =>
    rw [Trace.jsonInsts]
    split
    · exact ⟨([], []), rfl⟩
    · obtain ⟨inputs, isInputs⟩ := translateInputsToNames_defined inst.inputs
        (wellFormed.inputs suffix names)
      obtain ⟨distinct, unknown⟩ := wellFormed.outputs suffix names
      obtain ⟨named, isNamed, keys⟩ := addOutputNames_defined distinct unknown
      have suffix' : trace.insts = (before ++ [inst]) ++ rest := by
        rw [suffix, List.append_assoc, List.singleton_append]
      obtain ⟨others, isOthers⟩ := ih (i + 1) suffix' (names.add keys)
      rw [isInputs, isNamed, Option.bind_eq_bind, Option.bind_some, Option.bind_eq_bind,
        Option.bind_some, isOthers]
      exact ⟨_, rfl⟩

theorem mapM_asText (names : List Text) : (names.map Object.str).mapM Object.asText = some names := by
  induction names with
  | nil => rfl
  | cons name rest ih =>
    rw [List.map_cons, List.mapM_cons, ih]
    rfl

theorem replay_insts (wellFormed : trace.WellFormed) (registered : trace.Registered get)
    {entries : List Object × List Object} {decisions : List Object} {i : Nat}
    {rvMap : Rv → Option Object} {namedRvs : Text → Option Object}
    (suffix : trace.insts = before ++ rest) (names : NamesOf rvNames before)
    (agree : Agree rvMap rvNames namedRvs)
    (made : trace.jsonInsts removePostproc rest i rvNames = some entries)
    (decided : ∀ k < entries.1.length, ∀ inst, rest[k]? = some inst →
      decisions.getD (i + k) .null = trace.getDecision inst) (sch : σ) :
    SameReplay rest (applyJsonInsts get decisions entries.1 i sch namedRvs)
      (trace.applyInsts removePostproc rest sch rvMap) := by
  induction rest generalizing before rvNames i rvMap namedRvs entries sch with
  | nil =>
    cases made
    exact .of_no_calls _ _
  | cons inst rest ih =>
    have member : inst ∈ trace.insts := suffix ▸ List.mem_append_right _ (List.mem_cons_self ..)
    rw [Trace.jsonInsts] at made
    rw [Trace.applyInsts]
    split at made
    · rename_i postproc
      rw [if_pos postproc]
      cases made
      exact .of_no_calls _ _
    · rename_i running
      rw [if_neg running]
      obtain ⟨inputs, isInputs, made⟩ := Option.bind_eq_some_iff.mp made
      obtain ⟨named, isNamed, made⟩ := Option.bind_eq_some_iff.mp made
      obtain ⟨others, isOthers, made⟩ := Option.bind_eq_some_iff.mp made
      cases made
      obtain ⟨inputNames, objects, back, translates⟩ := agree.translate inst.inputs
        (wellFormed.inputs suffix names)
      obtain rfl : inputs = inputNames := Option.some.inj (isInputs.symm.trans translates.toNames)
      obtain ⟨distinct, unknown⟩ := wellFormed.outputs suffix names
      obtain ⟨json, isJson, attrs⟩ := registered.attrs inst member
      have parsed : parseInst get (.array [.str inst.kind.name, .array inputs, inst.jsonAttrs,
          .array (named.1.map .str)]) = some ⟨inst.kind, inputs, json, named.1⟩ := by
        rw [isJson, parseInst, mapM_asText, registered.kinds inst member]
        rfl
      rw [applyJsonInsts, parsed, Replay.withSome, Option.elim_some, translates.fromNames,
        Replay.withSome, Option.elim_some, translates.direct, Replay.withSome, Option.elim_some]
      refine .andThen rfl attrs (decided 0 (Nat.succ_pos _) inst rfl) translates.same
        fun outputs next => ?_
      rcases agree.addOutputs isNamed outputs with ⟨direct, json⟩ | ⟨rvMap', namedRvs', direct, json, agree'⟩
      · rw [direct, json]
        exact .of_no_calls _ _
      · rw [direct, json]
        have suffix' : trace.insts = (before ++ [inst]) ++ rest := by
          rw [suffix, List.append_assoc, List.singleton_append]
        obtain ⟨named', isNamed', keys⟩ := addOutputNames_defined distinct unknown
        obtain rfl : named = named' := Option.some.inj (isNamed.symm.trans isNamed')
        refine ih suffix' (names.add keys) agree' isOthers
          (fun k bound inst' isInst => ?_) next
        rw [← decided (k + 1) (Nat.succ_lt_succ bound) inst' isInst]
        congr 1
        omega

end Suffix

theorem replayJSON_same (wellFormed : trace.WellFormed) (registered : trace.Registered get)
    (sch : σ) (removePostproc : Bool) : SameReplay trace.insts
      (trace.replayJSON get sch removePostproc) (trace.applyToSchedule sch removePostproc) := by
  have names : NamesOf [] ([] : List (Instruction σ)) := fun rv => by simp
  obtain ⟨entries, isEntries⟩ := jsonInsts_defined wellFormed removePostproc 0
    (List.nil_append trace.insts).symm names
  have empty (k : Nat) (_ : 0 ≤ k) : (entries.1.map fun _ => Object.null).getD k .null = .null := by
    rw [List.getD_eq_getElem?_getD, List.getElem?_map]
    cases entries.1[k]? <;> rfl
  obtain ⟨decisions, parsed, -, decided⟩ := parse_jsonInsts isEntries
    (by rw [List.length_map, Nat.zero_add]) empty
  have replay := replay_insts wellFormed registered (List.nil_append trace.insts).symm names
    agree_initial isEntries decided sch
  have serialized : trace.asJSON removePostproc =
      some (.array [.array entries.1, .array entries.2]) := by
    rw [Trace.asJSON, isEntries]
    rfl
  have replayed : trace.replayJSON get sch removePostproc =
      applyJsonInsts get decisions entries.1 0 sch initialNames := by
    rw [Trace.replayJSON, serialized, Replay.withSome, Option.elim_some, applyJSONToSchedule, parsed,
      Replay.withSome, Option.elim_some]
  rw [replayed, Trace.applyToSchedule]
  exact replay

/-- The serialized trace is replayed with the same calls exactly where no string among the inputs
that are replayed has a zero byte, and then the same schedule is left. -/
theorem replayJSON_calls_iff (wellFormed : trace.WellFormed) (registered : trace.Registered get)
    (sch : σ) (removePostproc : Bool) :
    ((trace.replayJSON get sch removePostproc).calls =
        (trace.applyToSchedule sch removePostproc).calls ↔
      ∀ inst ∈ trace.insts.take (trace.applyToSchedule sch removePostproc).calls.length,
        ZeroFree inst.inputs) ∧
    ((∀ inst ∈ trace.insts.take (trace.applyToSchedule sch removePostproc).calls.length,
        ZeroFree inst.inputs) →
      trace.replayJSON get sch removePostproc = trace.applyToSchedule sch removePostproc) := by
  have same := replayJSON_same wellFormed registered sch removePostproc
  refine ⟨same.calls, fun zeroFree => ?_⟩
  have calls := same.calls.mpr zeroFree
  have schedule := same.schedule calls
  generalize trace.replayJSON get sch removePostproc = json at calls schedule
  generalize trace.applyToSchedule sch removePostproc = direct at calls schedule
  obtain ⟨jsonCalls, jsonSchedule⟩ := json
  cases calls
  cases schedule
  rfl

end Replays

/-- A kind that outputs a random variable and counts. -/
def sampleKind : InstructionKind Nat where
  name := [83]
  isPostproc := false
  fApplyToSchedule sch _ _ _ := some ([.rv ⟨.var, 7⟩], sch + 1)
  fAttrsAsJson := none
  fAttrsFromJson := none

/-- Two instructions, the second of which uses the output of the first. -/
def sampleTrace (data : Text) : Trace Nat where
  insts := [⟨0, sampleKind, [.null, .array [.str data, .int 3]], [], [⟨.var, 0⟩]⟩,
    ⟨1, sampleKind, [.array [.rv ⟨.var, 0⟩]], [.str data], [⟨.loop, 1⟩]⟩]
  decisions := [(1, .int 5)]

theorem sampleTrace_wellFormed (data : Text) : (sampleTrace data).WellFormed where
  distinct := (by decide : ([⟨.var, 0⟩, ⟨.loop, 1⟩] : List Rv).Nodup)
  defined before inst after split := by
    rcases before with _ | ⟨first, _ | ⟨second, before⟩⟩
    · cases split
      intro leaf member
      simp only [leavesOf, Object.leaves, List.mem_append, List.mem_singleton, List.append_nil]
        at member
      rcases member with rfl | rfl | rfl <;> exact ⟨fun _ => by simp, fun _ => by simp⟩
    · cases split
      intro leaf member
      simp only [leavesOf, Object.leaves, List.mem_singleton, List.append_nil] at member
      subst member
      refine ⟨fun _ => by simp, fun rv same => ?_⟩
      cases same
      exact List.mem_singleton_self _
    · have long := congrArg List.length split
      simp [sampleTrace] at long

theorem sampleTrace_registered (data : Text) :
    (sampleTrace data).Registered fun name => if name = [83] then some sampleKind else none where
  kinds inst member := by
    simp only [sampleTrace, List.mem_cons, List.not_mem_nil, or_false] at member
    rcases member with rfl | rfl <;> rfl
  attrs inst member := by
    simp only [sampleTrace, List.mem_cons, List.not_mem_nil, or_false] at member
    rcases member with rfl | rfl <;> exact ⟨_, rfl, rfl⟩

theorem replayJSON_calls_iff_quote :
    ((sampleTrace [34]).replayJSON (fun name => if name = [83] then some sampleKind else none) 0
        true).calls = ((sampleTrace [34]).applyToSchedule 0 true).calls ∧
      ((sampleTrace [34]).applyToSchedule 0 true).calls.length = 2 := by
  refine ⟨(replayJSON_calls_iff (sampleTrace_wellFormed [34]) (sampleTrace_registered [34]) 0
    true).1.mpr fun inst member => ?_, rfl⟩
  have member' : inst ∈ (sampleTrace [34]).insts := List.mem_of_mem_take member
  simp only [sampleTrace, List.mem_cons, List.not_mem_nil, or_false] at member'
  rcases member' with rfl | rfl <;> simp [ZeroFree, leavesOf, Object.leaves]

/-- A string with a zero byte is cut by `AsJSON`. -/
theorem replayJSON_cuts_string : (sampleTrace [97, 0, 98]).WellFormed ∧
    (sampleTrace [97, 0, 98]).Registered
      (fun name => if name = [83] then some sampleKind else none) ∧
    ((sampleTrace [97, 0, 98]).replayJSON
        (fun name => if name = [83] then some sampleKind else none) 0 true).calls ≠
      ((sampleTrace [97, 0, 98]).applyToSchedule 0 true).calls := by
  refine ⟨sampleTrace_wellFormed _, sampleTrace_registered _, fun same => ?_⟩
  have inputs := congrArg (List.map Call.inputs) same
  cases inputs

end Tvm.Tir
