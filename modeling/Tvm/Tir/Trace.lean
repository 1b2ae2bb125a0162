import Mathlib
import Tvm.Lib.Decimal

/-!
# Traces of scheduling instructions

`TraceNode::ApplyToSchedule`, `TraceNode::AsJSON` and `Trace::ApplyJSONToSchedule` of `trace.cc`
with their three translators.  `none` is an exception; counters are natural numbers.
-/

namespace Tvm.Tir

abbrev Text := List UInt8

/-- The bytes of a `const char*`, which ends at the first zero. -/
def cString (data : Text) : Text :=
  data.takeWhile (· ≠ 0)

def quote : UInt8 := 34

def noneName : Text := [78, 111, 110, 101]

/-- `BlockRVNode`, `LoopRVNode` and `VarNode`. -/
inductive RvKind where
  | block
  | loop
  | var
  deriving DecidableEq, Repr

/-- A random variable, known by its address. -/
structure Rv where
  kind : RvKind
  address : Nat
  deriving DecidableEq, Repr

/-- An `ObjectRef`; there are no expressions besides literals and variables. -/
inductive Object where
  | null
  | str (data : Text)
  | int (value : Int)
  | float (bits : UInt64)
  | rv (rv : Rv)
  | array (elements : List Object)
  | map (address : Nat)

section Translators

variable (rvMap : Rv → Option Object) (rvNames : List (Rv × Text)) (namedRvs : Text → Option Object)

mutual

/-- From the random variables of a trace to those of a schedule. -/
def translateInputRv : Object → Option Object
  | .null => some .null
  | .str data => some (.str data)
  | .int value => some (.int value)
  | .float bits => some (.float bits)
  | .rv rv => rvMap rv
  | .array elements => (translateInputRvs elements).map .array
  | .map _ => none

def translateInputRvs : List Object → Option (List Object)
  | [] => some []
  | input :: rest => do
      let first ← translateInputRv input
      let others ← translateInputRvs rest
      some (first :: others)

end

mutual

def translateInputToName : Object → Option Object
  | .null => some (.str noneName)
  | .rv rv => (rvNames.lookup rv).map .str
  | .str data => some (.str (quote :: cString data ++ [quote]))
  | .int value => some (.int value)
  | .float bits => some (.float bits)
  | .array elements => (translateInputsToNames elements).map .array
  | .map address => some (.map address)

def translateInputsToNames : List Object → Option (List Object)
  | [] => some []
  | input :: rest => do
      let first ← translateInputToName input
      let others ← translateInputsToNames rest
      some (first :: others)

end

/-- What a string stands for: the content of a quoted one, otherwise the variable of that name. -/
def translateName (name : Text) : Option Object :=
  if name.length = 0 then none
  else if name.length ≥ 2 ∧ name.head? = some quote ∧ name.getLast? = some quote then
    some (.str (name.drop 1).dropLast)
  else namedRvs (cString name)

mutual

def translateInputFromName : Object → Option Object
  | .int value => some (.int value)
  | .float bits => some (.float bits)
  | .array elements => (translateInputsFromNames elements).map .array
  | .map address => some (.map address)
  | .str name => translateName namedRvs name
  | .null | .rv _ => none

def translateInputsFromNames : List Object → Option (List Object)
  | [] => some []
  | input :: rest => do
      let first ← translateInputFromName input
      let others ← translateInputsFromNames rest
      some (first :: others)

end

end Translators

/-- The map from the random variables of a trace after more of them are there. -/
def addOutputRvs (rvMap : Rv → Option Object) : List Rv → List Object → Option (Rv → Option Object)
  | [], [] => some rvMap
  | old :: olds, new :: news => addOutputRvs (Function.update rvMap old (some new)) olds news
  | _, _ => none

def RvKind.letter : RvKind → UInt8
  | .block => 98
  | .loop => 108
  | .var => 118

/-- The name of the random variable that is named after `count` others. -/
def outputName (rv : Rv) (count : Nat) : Text :=
  rv.kind.letter :: Lib.decimal count

def addOutputNames (rvNames : List (Rv × Text)) : List Rv → Option (List Text × List (Rv × Text))
  | [] => some ([], rvNames)
  | output :: rest =>
    if rvNames.lookup output = none then do
      let named ← addOutputNames ((output, outputName output rvNames.length) :: rvNames) rest
      some (outputName output rvNames.length :: named.1, named.2)
    else none

/-- The names after more of them are there; a name that is there stays as it is. -/
def addNamedRvs (namedRvs : Text → Option Object) :
    List Text → List Object → Option (Text → Option Object)
  | [], [] => some namedRvs
  | name :: names, new :: news =>
    addNamedRvs (if namedRvs name = none then Function.update namedRvs name (some new)
      else namedRvs) names news
  | _, _ => none

/-- An `InstructionKind` over schedules `σ`; `fApplyToSchedule` takes the inputs, the attributes and
the decision, which is null where there is none. -/
structure InstructionKind (σ : Type) where
  name : Text
  isPostproc : Bool
  fApplyToSchedule : σ → List Object → List Object → Object → Option (List Object × σ)
  fAttrsAsJson : Option (List Object → Object)
  fAttrsFromJson : Option (List Object → List Object)

structure Instruction (σ : Type) where
  address : Nat
  kind : InstructionKind σ
  inputs : List Object
  attrs : List Object
  outputs : List Rv

structure Trace (σ : Type) where
  insts : List (Instruction σ)
  decisions : List (Nat × Object)

section Replay

variable {σ : Type}

def Trace.getDecision (trace : Trace σ) (inst : Instruction σ) : Object :=
  (trace.decisions.lookup inst.address).getD .null

structure Call (σ : Type) where
  kind : InstructionKind σ
  inputs : List Object
  attrs : List Object
  decision : Object

/-- The calls that are made, and the schedule that is left unless there is an exception. -/
structure Replay (σ : Type) where
  calls : List (Call σ)
  schedule : Option σ

def Replay.failed : Replay σ :=
  ⟨[], none⟩

def Call.andThen (call : Call σ) (sch : σ) (rest : List Object → σ → Replay σ) : Replay σ :=
  match call.kind.fApplyToSchedule sch call.inputs call.attrs call.decision with
  | none => ⟨[call], none⟩
  | some (outputs, next) => ⟨call :: (rest outputs next).calls, (rest outputs next).schedule⟩

def Replay.withSome {α : Type} (result : Option α) (rest : α → Replay σ) : Replay σ :=
  result.elim .failed rest

def Trace.applyInsts (trace : Trace σ) (removePostproc : Bool) :
    List (Instruction σ) → σ → (Rv → Option Object) → Replay σ
  | [], sch, _ => ⟨[], some sch⟩
  | inst :: rest, sch, rvMap =>
    if removePostproc && inst.kind.isPostproc then ⟨[], some sch⟩
    else .withSome (translateInputRvs rvMap inst.inputs) fun inputs =>
      Call.andThen ⟨inst.kind, inputs, inst.attrs, trace.getDecision inst⟩ sch
        fun outputs next => .withSome (addOutputRvs rvMap inst.outputs outputs) fun rvMap =>
          trace.applyInsts removePostproc rest next rvMap

/-- `ApplyToSchedule` without a decision provider. -/
def Trace.applyToSchedule (trace : Trace σ) (sch : σ) (removePostproc : Bool) : Replay σ :=
  trace.applyInsts removePostproc trace.insts sch fun _ => none

def Instruction.jsonAttrs (inst : Instruction σ) : Object :=
  match inst.kind.fAttrsAsJson with
  | some asJson => asJson inst.attrs
  | none => .array inst.attrs

/-- The entry of a decision, which is there unless the decision is null. -/
def jsonDecision (index : Nat) : Object → List Object
  | .null => []
  | decision => [.array [.int index, decision]]

/-- The entries of the instructions and of their decisions. -/
def Trace.jsonInsts (trace : Trace σ) (removePostproc : Bool) :
    List (Instruction σ) → Nat → List (Rv × Text) → Option (List Object × List Object)
  | [], _, _ => some ([], [])
  | inst :: rest, i, rvNames =>
    if removePostproc && inst.kind.isPostproc then some ([], [])
    else do
      let inputs ← translateInputsToNames rvNames inst.inputs
      let outputs ← addOutputNames rvNames inst.outputs
      let others ← trace.jsonInsts removePostproc rest (i + 1) outputs.2
      some (.array [.str inst.kind.name, .array inputs, inst.jsonAttrs,
        .array (outputs.1.map .str)] :: others.1,
        jsonDecision i (trace.getDecision inst) ++ others.2)

def Trace.asJSON (trace : Trace σ) (removePostproc : Bool) : Option Object := do
  let entries ← trace.jsonInsts removePostproc trace.insts 0 []
  some (.array [.array entries.1, .array entries.2])

def parseDecisions (decisions : List Object) : List Object → Option (List Object)
  | [] => some decisions
  | .array [.int index, decision] :: rest =>
    if 0 ≤ index ∧ index.toNat < decisions.length then
      parseDecisions (decisions.set index.toNat decision) rest
    else none
  | _ => none

def Object.asText : Object → Option Text
  | .str data => some data
  | _ => none

structure JsonInst (σ : Type) where
  kind : InstructionKind σ
  inputs : List Object
  attrs : List Object
  outputs : List Text

/-- Parses the entry of an instruction; `get` is `InstructionKind::Get`. -/
def parseInst (get : Text → Option (InstructionKind σ)) : Object → Option (JsonInst σ)
  | .array [.str name, .array inputs, .array attrs, .array outputs] => do
      let outputs ← outputs.mapM Object.asText
      let kind ← get (cString name)
      some ⟨kind, inputs, attrs, outputs⟩
  | _ => none

/-- The attributes after `f_attrs_from_json`. -/
def JsonInst.parsedAttrs (inst : JsonInst σ) : List Object :=
  match inst.kind.fAttrsFromJson with
  | some fromJson => fromJson inst.attrs
  | none => inst.attrs

def applyJsonInsts (get : Text → Option (InstructionKind σ)) (decisions : List Object) :
    List Object → Nat → σ → (Text → Option Object) → Replay σ
  | [], _, sch, _ => ⟨[], some sch⟩
  | entry :: rest, i, sch, namedRvs =>
    .withSome (parseInst get entry) fun inst =>
      .withSome (translateInputsFromNames namedRvs inst.inputs) fun inputs =>
        Call.andThen ⟨inst.kind, inputs, inst.parsedAttrs, decisions.getD i .null⟩ sch
          fun outputs next => .withSome (addNamedRvs namedRvs inst.outputs outputs) fun namedRvs =>
            applyJsonInsts get decisions rest (i + 1) next namedRvs

/-- `named_rvs` before the first instruction. -/
def initialNames : Text → Option Object :=
  Function.update (fun _ => none) noneName (some .null)

def applyJSONToSchedule (get : Text → Option (InstructionKind σ)) (json : Object) (sch : σ) :
    Replay σ :=
  match json with
  | .array [.array insts, .array decisions] =>
    .withSome (parseDecisions (insts.map fun _ => .null) decisions) fun decisions =>
      applyJsonInsts get decisions insts 0 sch initialNames
  | _ => .failed

def Trace.replayJSON (trace : Trace σ) (get : Text → Option (InstructionKind σ)) (sch : σ)
    (removePostproc : Bool) : Replay σ :=
  .withSome (trace.asJSON removePostproc) fun json => applyJSONToSchedule get json sch

end Replay

end Tvm.Tir
