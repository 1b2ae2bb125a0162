import Mathlib
import Tvm.Arith.Terms
import Tvm.Lib.MachineDivision

/-!
# Lowering of floor division

`IntrinInjecter` of `lower_intrin.cc` on scalar integers of one type, with the folding of
`const_fold.h` at that type.  `none` is a failed `ICHECK`.  A truth value is `0` or `1`.
-/

namespace Tvm.Tir

open Arith PrimExpr Lib

structure DataType where
  signed : Bool
  bits : Nat

namespace DataType

variable (dtype : DataType)

def IsIndex : Prop :=
  dtype.signed = true ∧ (dtype.bits = 32 ∨ dtype.bits = 64)

instance : Decidable dtype.IsIndex :=
  inferInstanceAs (Decidable (_ ∧ _))

/-- What `IntImm` checks of a value of 64 bits. -/
def Holds (n : Int) : Prop :=
  (-2 ^ 63 ≤ n ∧ n < 2 ^ 63) ∧
    if dtype.signed then
      if dtype.bits = 1 then n = 0 ∨ n = 1 else dtype.bits < 64 → InRange true dtype.bits n
    else 0 ≤ n ∧ (dtype.bits < 64 → n < 2 ^ dtype.bits)

instance (n : Int) : Decidable (dtype.Holds n) := by
  unfold Holds InRange
  infer_instance

def intImm (n : Int) : Option PrimExpr :=
  if dtype.Holds n then some (.intImm n) else none

def foldResultRepr (x : Int) : Int :=
  if dtype.signed then x.bmod (2 ^ dtype.bits)
  else if dtype.bits < 64 then x % 2 ^ dtype.bits
  else x.bmod (2 ^ 64)

def foldLiterals (op : BinOp) (m n : Int) : Option (Option PrimExpr) :=
  match op with
  | .and | .or => some (foldLeft op m (.intImm n))
  | .eq | .ne | .lt | .le | .gt | .ge => (op.eval m n).map fun v => some (.intImm v)
  | .min | .max => ((op.eval m n).bind dtype.intImm).map some
  | .sub =>
    if dtype.signed = false ∧ m = 0 ∧ 0 < n then none
    else (dtype.intImm (dtype.foldResultRepr (m - n))).map some
  | .shiftRight =>
    if 0 ≤ n ∧ n < dtype.bits then (dtype.intImm (m.fdiv (2 ^ n.toNat))).map some else none
  | .bitwiseAnd => (dtype.intImm (BitVec.ofInt 64 m &&& BitVec.ofInt 64 n).toInt).map some
  | .shiftLeft => some none
  | _ => ((op.eval m n).bind fun v => dtype.intImm (dtype.foldResultRepr v)).map some

def foldShift (a : PrimExpr) (n : Int) : Option (Option PrimExpr) :=
  if 0 ≤ n ∧ n < dtype.bits then some (if n = 0 then some a else none) else none

/-- Whether an operator is folded at this type: some are for index types only. -/
def Folds (op : BinOp) : Prop :=
  op = .mod ∨ op = .floorMod ∨ op = .shiftRight ∨ op = .bitwiseAnd → dtype.IsIndex

instance (op : BinOp) : Decidable (dtype.Folds op) := by
  unfold Folds
  infer_instance

def tryConstFold (op : BinOp) (a b : PrimExpr) : Option (Option PrimExpr) :=
  if dtype.Folds op then
    match a, b with
    | .intImm m, .intImm n => dtype.foldLiterals op m n
    | .intImm m, _ => some (foldLeft op m b)
    | _, .intImm n => if op = .shiftRight then dtype.foldShift a n else foldRight op a n
    | _, _ => some (if (op = .min ∨ op = .max) ∧ a = b then some a else none)
  else some none

def make (op : BinOp) (a b : PrimExpr) : Option PrimExpr :=
  (dtype.tryConstFold op a b).map fun folded => folded.getD (.binary op a b)

end DataType

def isConstPowerOfTwoInteger : PrimExpr → Option Nat
  | .intImm n => if 0 < n ∧ n = 2 ^ n.toNat.log2 then some n.toNat.log2 else none
  | _ => none

/-- The pass, with `support_bitwise_op_`, which nothing unsets: the type, and what the analyzer
proves not to be negative of what is not a literal. -/
structure IntrinInjecter where
  dtype : DataType
  proves : PrimExpr → Bool

namespace IntrinInjecter

variable (pass : IntrinInjecter)

/-- `CanProveGreaterEqual(e, 0)`. -/
def canProveNonneg : PrimExpr → Bool
  | .intImm n => 0 ≤ n
  | e => pass.proves e

def signsAgree (b rmod : PrimExpr) : Option PrimExpr := do
  let first ← pass.dtype.make .and (← pass.dtype.make .ge b (.intImm 0))
    (← pass.dtype.make .ge rmod (.intImm 0))
  let second ← pass.dtype.make .and (← pass.dtype.make .lt b (.intImm 0))
    (← pass.dtype.make .le rmod (.intImm 0))
  pass.dtype.make .or first second

/-- `VisitExpr_(const FloorDivNode*)` once its operands are visited; `next` is a fresh variable. -/
def lowerFloorDiv (e a b : PrimExpr) (next : Nat) : Option (PrimExpr × Nat) :=
  match isConstPowerOfTwoInteger b with
  | some shift => do
    let shifted ← pass.dtype.make .shiftRight a (.intImm shift)
    some (shifted, next)
  | none =>
    if pass.canProveNonneg b then
      if pass.canProveNonneg a ∨ pass.canProveNonneg e then do
        let rdiv ← pass.dtype.make .div a b
        some (rdiv, next)
      else do
        let rdiv ← pass.dtype.make .div a b
        let rmod ← pass.dtype.make .mod a b
        if pass.dtype.IsIndex then do
          let sign ← pass.dtype.make .shiftRight rmod (.intImm (pass.dtype.bits - 1))
          let sum ← pass.dtype.make .add rdiv sign
          some (sum, next)
        else do
          let condition ← pass.dtype.make .ge rmod (.intImm 0)
          let less ← pass.dtype.make .sub rdiv (.intImm 1)
          some (.select condition rdiv less, next)
    else do
      let condition ← pass.signsAgree b (.var next)
      let less ← pass.dtype.make .sub (.var (next + 1)) (.intImm 1)
      let quotient ← pass.dtype.make .div a b
      let remainder ← pass.dtype.make .mod a b
      some (.letIn next remainder (.letIn (next + 1) quotient
        (.select condition (.var (next + 1)) less)), next + 2)

/-- `VisitExpr_(const FloorModNode*)` once its operands are visited. -/
def lowerFloorMod (a b : PrimExpr) (next : Nat) : Option (PrimExpr × Nat) :=
  match isConstPowerOfTwoInteger b with
  | some shift => do
    let masked ← pass.dtype.make .bitwiseAnd a (.intImm (2 ^ shift - 1))
    some (masked, next)
  | none =>
    if pass.canProveNonneg b then
      if pass.canProveNonneg a then do
        let rmod ← pass.dtype.make .mod a b
        some (rmod, next)
      else do
        let rmod ← pass.dtype.make .mod a b
        if pass.dtype.IsIndex then do
          let sign ← pass.dtype.make .shiftRight rmod (.intImm (pass.dtype.bits - 1))
          let divisor ← pass.dtype.make .bitwiseAnd b sign
          let sum ← pass.dtype.make .add rmod divisor
          some (sum, next)
        else do
          let condition ← pass.dtype.make .ge rmod (.intImm 0)
          let more ← pass.dtype.make .add rmod b
          some (.select condition rmod more, next)
    else do
      let condition ← pass.signsAgree b (.var next)
      let more ← pass.dtype.make .add (.var next) b
      let remainder ← pass.dtype.make .mod a b
      some (.letIn next remainder (.select condition (.var next) more), next + 1)

/-- `VisitExpr` of a truncated quotient or remainder that `Eval` of its pattern folds or builds. -/
def visitTruncated (op : BinOp) (x y : PrimExpr) (visitX visitY : Nat → Option (PrimExpr × Nat))
    (next : Nat) : Option (PrimExpr × Nat) :=
  match pass.dtype.tryConstFold op x y with
  | none => none
  | some (some folded) => if folded = x then visitX next else some (folded, next)
  | some none => do
    let (x', next) ← visitX next
    let (y', next) ← visitY next
    some (.binary op x' y', next)

def visitExpr : PrimExpr → Nat → Option (PrimExpr × Nat)
  | .binary .floorDiv a b, next => do
    let (a', next) ← visitExpr a next
    let (b', next) ← visitExpr b next
    pass.lowerFloorDiv (.binary .floorDiv a b) a' b' next
  | .binary .floorMod a b, next => do
    let (a', next) ← visitExpr a next
    let (b', next) ← visitExpr b next
    pass.lowerFloorMod a' b' next
  | .binary .max (.binary .floorDiv x y) (.intImm c), next => do
    if 0 ≤ c ∧ pass.canProveNonneg y = true then
      let (quotient, next) ← pass.visitTruncated .div x y (visitExpr x) (visitExpr y) next
      let larger ← pass.dtype.make .max quotient (.intImm c)
      some (larger, next)
    else
      let (a', next) ← visitExpr (.binary .floorDiv x y) next
      some (.binary .max a' (.intImm c), next)
  | .binary op (.binary .floorMod x y) (.intImm c), next => do
    if (op = .eq ∨ op = .ne) ∧ c = 0 then
      let (remainder, next) ← pass.visitTruncated .mod x y (visitExpr x) (visitExpr y) next
      let test ← pass.dtype.make op remainder (.intImm 0)
      some (test, next)
    else
      let (a', next) ← visitExpr (.binary .floorMod x y) next
      some (.binary op a' (.intImm c), next)
  | .binary op a b, next => do
    let (a', next) ← visitExpr a next
    let (b', next) ← visitExpr b next
    some (.binary op a' b', next)
  | .not a, next => do
    let (a', next) ← visitExpr a next
    some (.not a', next)
  | e, next => some (e, next)

end IntrinInjecter

section Evaluation

variable (dtype : DataType)

/-- An operator on machine integers.  A quotient has no value where its divisor is zero or where it
overflows, a shift where its amount is not below the width. -/
def machineOp (op : BinOp) (x y : BitVec dtype.bits) : Option (BitVec dtype.bits) :=
  let first := toInteger dtype.signed x
  let second := toInteger dtype.signed y
  match op with
  | .add => some (x + y)
  | .sub => some (x - y)
  | .mul => some (x * y)
  | .div => if Divides dtype.signed x y then some (truncDiv dtype.signed x y) else none
  | .mod => if Divides dtype.signed x y then some (truncMod dtype.signed x y) else none
  | .floorDiv => if Divides dtype.signed x y then some (floorDiv dtype.signed x y) else none
  | .floorMod => if Divides dtype.signed x y then some (floorMod dtype.signed x y) else none
  | .min => some (if first ≤ second then x else y)
  | .max => some (if first ≤ second then y else x)
  | .eq => some (BitVec.ofInt _ (truth (first = second)))
  | .ne => some (BitVec.ofInt _ (truth (first ≠ second)))
  | .lt => some (BitVec.ofInt _ (truth (first < second)))
  | .le => some (BitVec.ofInt _ (truth (first ≤ second)))
  | .gt => some (BitVec.ofInt _ (truth (first > second)))
  | .ge => some (BitVec.ofInt _ (truth (first ≥ second)))
  | .and => some (BitVec.ofInt _ (truth (x ≠ 0#_ ∧ y ≠ 0#_)))
  | .or => some (BitVec.ofInt _ (truth (x ≠ 0#_ ∨ y ≠ 0#_)))
  | .shiftLeft => if y.toNat < dtype.bits then some (x <<< y.toNat) else none
  | .shiftRight =>
    if y.toNat < dtype.bits then some (shiftRight dtype.signed x y.toNat) else none
  | .bitwiseAnd => some (x &&& y)

/-- The value at machine width; both values of a `Select` are computed. -/
def machineEval (env : Var → BitVec dtype.bits) : PrimExpr → Option (BitVec dtype.bits)
  | .var v => some (env v)
  | .intImm n => some (BitVec.ofInt _ n)
  | .binary op a b =>
    (machineEval env a).bind fun x => (machineEval env b).bind (machineOp dtype op x)
  | .not a => (machineEval env a).map fun x => BitVec.ofInt _ (truth (x = 0#_))
  | .select condition trueValue falseValue =>
    (machineEval env condition).bind fun chosen =>
      (machineEval env trueValue).bind fun x =>
        (machineEval env falseValue).map fun y => if chosen ≠ 0#_ then x else y
  | .letIn v value body =>
    (machineEval env value).bind fun x => machineEval (Function.update env v x) body
  | .cast _ | .other _ => none

end Evaluation

def DataType.Denotes (dtype : DataType) (n : Int) : Prop :=
  dtype.Holds n ∧ toInteger dtype.signed (BitVec.ofInt dtype.bits n) = n

/-- No operator that rounds down is left. -/
def FloorFree : PrimExpr → Prop
  | .binary op a b => (op ≠ .floorDiv ∧ op ≠ .floorMod) ∧ FloorFree a ∧ FloorFree b
  | .not a | .cast a => FloorFree a
  | .select condition trueValue falseValue =>
    FloorFree condition ∧ FloorFree trueValue ∧ FloorFree falseValue
  | .letIn _ value body => FloorFree value ∧ FloorFree body
  | .var _ | .intImm _ | .other _ => True

/-- What a lowered expression does: its variables are below the next fresh one, and it has the
value. -/
structure Computes (dtype : DataType) (env : Var → BitVec dtype.bits) (next : Nat) (e : PrimExpr)
    (v : BitVec dtype.bits) : Prop where
  vars : ∀ u ∈ e.vars, u < next
  floorFree : FloorFree e
  value : machineEval dtype env e = some v

/-- A lowered expression that is a number of the type where it is a literal. -/
structure Lowered (dtype : DataType) (env : Var → BitVec dtype.bits) (next : Nat) (e : PrimExpr)
    (v : BitVec dtype.bits) : Prop extends Computes dtype env next e v where
  literal : ∀ n, e = .intImm n → dtype.Denotes n

section Lowered

variable {dtype : DataType} {env : Var → BitVec dtype.bits} {e a b : PrimExpr}
  {x y v : BitVec dtype.bits} {next next' : Nat} {op : BinOp} {m n : Int}

theorem machineEval_binary : machineEval dtype env (.binary op a b) = some v ↔
    ∃ x, machineEval dtype env a = some x ∧ ∃ y, machineEval dtype env b = some y ∧
      machineOp dtype op x y = some v := by
  simp only [machineEval, Option.bind_eq_some_iff]

theorem machineEval_update {u : Var} (absent : u ∉ e.vars) (z : BitVec dtype.bits) :
    machineEval dtype (Function.update env u z) e = machineEval dtype env e := by
  induction e generalizing env with
  | var w =>
    have other : w ≠ u := fun same => absent (List.mem_singleton.mpr same.symm)
    simp only [machineEval, Function.update_of_ne other]
  | intImm n => rfl
  | binary op a b left right =>
    obtain ⟨absentA, absentB⟩ := not_or.mp (List.mem_append.not.mp absent)
    simp only [machineEval, left absentA, right absentB]
  | not a ih => simp only [machineEval, ih absent]
  | select condition trueValue falseValue chosen first second =>
    obtain ⟨absentHere, absentFalse⟩ := not_or.mp (List.mem_append.not.mp absent)
    obtain ⟨absentCondition, absentTrue⟩ := not_or.mp (List.mem_append.not.mp absentHere)
    simp only [machineEval, chosen absentCondition, first absentTrue, second absentFalse]
  | letIn w value body valueSame bodySame =>
    obtain ⟨other, absentRest⟩ := not_or.mp (List.mem_cons.not.mp absent)
    obtain ⟨absentValue, absentBody⟩ := not_or.mp (List.mem_append.not.mp absentRest)
    have bound : ∀ t, machineEval dtype (Function.update (Function.update env u z) w t) body =
        machineEval dtype (Function.update env w t) body := by
      intro t
      rw [Function.update_comm other]
      exact bodySame absentBody
    simp only [machineEval, valueSame absentValue, bound]
  | cast => rfl
  | other => rfl

namespace Computes

theorem mono (computes : Computes dtype env next e v) (more : next ≤ next') :
    Computes dtype env next' e v :=
  { computes with vars := fun u member => (computes.vars u member).trans_le more }

theorem fresh (computes : Computes dtype env next e v) {u : Var} (unused : next ≤ u)
    (z : BitVec dtype.bits) : Computes dtype (Function.update env u z) next e v :=
  { computes with
    value := by
      rw [machineEval_update fun member => (computes.vars u member).not_ge unused]
      exact computes.value }

theorem var {u : Var} (inside : u < next) (is : env u = v) : Computes dtype env next (.var u) v where
  vars _ member := List.mem_singleton.mp member ▸ inside
  floorFree := trivial
  value := congrArg some is

theorem intImm (is : BitVec.ofInt dtype.bits n = v) : Computes dtype env next (.intImm n) v where
  vars _ member := absurd member List.not_mem_nil
  floorFree := trivial
  value := congrArg some is

theorem binary (left : Computes dtype env next a x) (right : Computes dtype env next b y)
    (plain : op ≠ .floorDiv ∧ op ≠ .floorMod) (computes : machineOp dtype op x y = some v) :
    Computes dtype env next (.binary op a b) v where
  vars u member := by
    rcases List.mem_append.mp member with member | member
    · exact left.vars u member
    · exact right.vars u member
  floorFree := ⟨plain, left.floorFree, right.floorFree⟩
  value := machineEval_binary.mpr ⟨x, left.value, y, right.value, computes⟩

theorem select {c : BitVec dtype.bits} (condition : Computes dtype env next e c)
    (trueValue : Computes dtype env next a x) (falseValue : Computes dtype env next b y)
    {p : Prop} [Decidable p] (chooses : c ≠ 0#_ ↔ p) :
    Computes dtype env next (.select e a b) (if p then x else y) where
  vars u member := by
    rcases List.mem_append.mp member with member | member
    · rcases List.mem_append.mp member with member | member
      · exact condition.vars u member
      · exact trueValue.vars u member
    · exact falseValue.vars u member
  floorFree := ⟨condition.floorFree, trueValue.floorFree, falseValue.floorFree⟩
  value := by
    simp only [machineEval, condition.value, trueValue.value, falseValue.value, Option.bind_some,
      Option.map_some, chooses]

theorem letIn {u : Var} (inside : u < next) (value : Computes dtype env next a x)
    (body : Computes dtype (Function.update env u x) next b y) :
    Computes dtype env next (.letIn u a b) y where
  vars t member := by
    rcases List.mem_cons.mp member with rfl | member
    · exact inside
    · rcases List.mem_append.mp member with member | member
      · exact value.vars t member
      · exact body.vars t member
  floorFree := ⟨value.floorFree, body.floorFree⟩
  value := by
    simp only [machineEval, value.value, Option.bind_some]
    exact body.value

theorem lowered (computes : Computes dtype env next e v) (symbolic : ∀ n, e ≠ .intImm n) :
    Lowered dtype env next e v :=
  ⟨computes, fun n is => absurd is (symbolic n)⟩

end Computes

theorem Lowered.mono (lowered : Lowered dtype env next e v) (more : next ≤ next') :
    Lowered dtype env next' e v :=
  ⟨lowered.toComputes.mono more, lowered.literal⟩

theorem Lowered.fresh (lowered : Lowered dtype env next e v) {u : Var} (unused : next ≤ u)
    (z : BitVec dtype.bits) : Lowered dtype (Function.update env u z) next e v :=
  ⟨lowered.toComputes.fresh unused z, lowered.literal⟩

theorem Lowered.intImm (holds : dtype.Holds n) (is : toInteger dtype.signed v = n) :
    Lowered dtype env next (.intImm n) v := by
  have same : BitVec.ofInt dtype.bits n = v := by rw [← is, ofInt_toInteger]
  refine ⟨.intImm same, ?_⟩
  intro k here
  cases here
  exact ⟨holds, by rw [same, is]⟩

theorem holds_signed (signed : dtype.signed = true) (several : dtype.bits ≠ 1)
    (narrow : dtype.bits ≤ 64) (range : InRange true dtype.bits n) : dtype.Holds n := by
  have power : (2 : Int) ^ (dtype.bits - 1) ≤ 2 ^ 63 :=
    pow_le_pow_right₀ one_le_two (by omega)
  rw [InRange, if_pos rfl] at range
  refine ⟨⟨by omega, by omega⟩, ?_⟩
  rw [if_pos signed, if_neg several]
  exact fun _ => range

theorem holds_unsigned (unsigned : dtype.signed = false) {k : Int} (holds : dtype.Holds k)
    (nonneg : 0 ≤ n) (below : n ≤ k) : dtype.Holds n := by
  obtain ⟨wide, here⟩ := holds
  rw [unsigned, if_neg Bool.false_ne_true] at here
  refine ⟨⟨by omega, by omega⟩, ?_⟩
  rw [unsigned, if_neg Bool.false_ne_true]
  exact ⟨nonneg, fun narrow => below.trans_lt (here.2 narrow)⟩

theorem denotes_one_bit (signed : dtype.signed = true) (one : dtype.bits = 1)
    (denotes : dtype.Denotes n) : n = 0 := by
  obtain ⟨⟨-, holds⟩, is⟩ := denotes
  have range := toInteger_inRange true (BitVec.ofInt dtype.bits n)
  rw [signed] at is
  rw [signed, if_pos rfl, if_pos one] at holds
  rw [is, InRange, if_pos rfl, one] at range
  omega

theorem foldResultRepr_signed (signed : dtype.signed = true) (positive : 0 < dtype.bits)
    (range : InRange true dtype.bits n) : dtype.foldResultRepr n = n := by
  have wrapped := toInteger_ofInt positive range
  rw [toInteger, if_pos rfl, BitVec.toInt_ofInt] at wrapped
  rw [DataType.foldResultRepr, if_pos signed]
  exact_mod_cast wrapped

theorem foldResultRepr_unsigned (unsigned : dtype.signed = false) (holds : dtype.Holds n) :
    dtype.foldResultRepr n = n := by
  obtain ⟨⟨_, wide⟩, here⟩ := holds
  rw [unsigned, if_neg Bool.false_ne_true] at here
  rw [DataType.foldResultRepr, unsigned, if_neg Bool.false_ne_true]
  split
  · rename_i narrow
    exact Int.emod_eq_of_lt here.1 (here.2 narrow)
  · exact Int.bmod_eq_of_le (by omega) (by omega)

theorem intImm_eq (holds : dtype.Holds n) : dtype.intImm n = some (.intImm n) :=
  if_pos holds

theorem tryConstFold_literals (folds : dtype.Folds op) :
    dtype.tryConstFold op (.intImm m) (.intImm n) = dtype.foldLiterals op m n :=
  if_pos folds

theorem tryConstFold_left (folds : dtype.Folds op) (symbolic : ∀ n, b ≠ .intImm n) :
    dtype.tryConstFold op (.intImm m) b = some (foldLeft op m b) := by
  rw [DataType.tryConstFold.eq_def, if_pos folds]
  cases b with
  | intImm n => exact absurd rfl (symbolic n)
  | _ => rfl

theorem tryConstFold_right (folds : dtype.Folds op) (symbolic : ∀ n, a ≠ .intImm n) :
    dtype.tryConstFold op a (.intImm n) =
      if op = .shiftRight then dtype.foldShift a n else foldRight op a n := by
  rw [DataType.tryConstFold.eq_def, if_pos folds]
  cases a with
  | intImm n => exact absurd rfl (symbolic n)
  | _ => rfl

theorem tryConstFold_neither (symbolic : ∀ n, a ≠ .intImm n) (symbolic' : ∀ n, b ≠ .intImm n) :
    dtype.tryConstFold op a b =
      some (if dtype.Folds op ∧ (op = .min ∨ op = .max) ∧ a = b then some a else none) := by
  rw [DataType.tryConstFold.eq_def]
  split
  · rename_i folds
    cases a with
    | intImm n => exact absurd rfl (symbolic n)
    | _ =>
      cases b with
      | intImm n => exact absurd rfl (symbolic' n)
      | _ => simp only [folds, true_and]
  · rename_i folds
    rw [if_neg fun both => folds both.1]

theorem binary_symbolic (op : BinOp) (a b : PrimExpr) (n : Int) : PrimExpr.binary op a b ≠ .intImm n :=
  fun is => nomatch is

theorem literal_or_symbolic (e : PrimExpr) : (∃ n, e = .intImm n) ∨ ∀ n, e ≠ .intImm n := by
  cases e with
  | intImm n => exact Or.inl ⟨n, rfl⟩
  | _ => exact Or.inr fun n is => nomatch is

/-- An operand with a value, a number of the type where it is a literal. -/
structure Operand (dtype : DataType) (env : Var → BitVec dtype.bits) (e : PrimExpr)
    (v : BitVec dtype.bits) : Prop where
  literal : ∀ n, e = .intImm n → dtype.Denotes n
  value : machineEval dtype env e = some v

theorem Lowered.operand (lowered : Lowered dtype env next e v) : Operand dtype env e v :=
  ⟨lowered.literal, lowered.value⟩

theorem Operand.toInteger_literal (operand : Operand dtype env (.intImm n) v) :
    toInteger dtype.signed v = n := by
  have value := operand.value
  cases value
  exact (operand.literal n rfl).2

/-- What folding may do: build the node, or give an operand or a literal of the same value. -/
inductive Outcome (dtype : DataType) (a b : PrimExpr) (x y v : BitVec dtype.bits) :
    Option (Option PrimExpr) → Prop
  | built : Outcome dtype a b x y v (some none)
  | first : v = x → Outcome dtype a b x y v (some (some a))
  | second : v = y → Outcome dtype a b x y v (some (some b))
  | literal {n : Int} : dtype.Holds n → toInteger dtype.signed v = n →
      Outcome dtype a b x y v (some (some (.intImm n)))

theorem Outcome.computes (outcome : Outcome dtype a b x y v (dtype.tryConstFold op a b))
    (left : Computes dtype env next a x) (right : Computes dtype env next b y)
    (plain : op ≠ .floorDiv ∧ op ≠ .floorMod) (computes : machineOp dtype op x y = some v) :
    ∃ r, dtype.make op a b = some r ∧ Computes dtype env next r v := by
  rw [DataType.make]
  generalize dtype.tryConstFold op a b = folded at outcome
  cases outcome with
  | built => exact ⟨_, rfl, left.binary right plain computes⟩
  | first same => exact ⟨a, rfl, same ▸ left⟩
  | second same => exact ⟨b, rfl, same ▸ right⟩
  | literal holds is => exact ⟨_, rfl, (Lowered.intImm holds is).toComputes⟩

theorem Outcome.make (outcome : Outcome dtype a b x y v (dtype.tryConstFold op a b))
    (left : Lowered dtype env next a x) (right : Lowered dtype env next b y)
    (plain : op ≠ .floorDiv ∧ op ≠ .floorMod) (computes : machineOp dtype op x y = some v) :
    ∃ r, dtype.make op a b = some r ∧ Lowered dtype env next r v := by
  rw [DataType.make]
  generalize dtype.tryConstFold op a b = folded at outcome
  cases outcome with
  | built =>
    exact ⟨_, rfl, (left.toComputes.binary right.toComputes plain computes).lowered
      fun n is => nomatch is⟩
  | first same => exact ⟨a, rfl, same ▸ left⟩
  | second same => exact ⟨b, rfl, same ▸ right⟩
  | literal holds is => exact ⟨_, rfl, .intImm holds is⟩

theorem Outcome.operand {folded : PrimExpr}
    (outcome : Outcome dtype a b x y v (some (some folded))) (left : Operand dtype env a x)
    (right : Operand dtype env b y) : Operand dtype env folded v := by
  cases outcome with
  | first same => exact same ▸ left
  | second same => exact same ▸ right
  | literal holds is =>
    have lowered : Lowered dtype env 0 (.intImm _) v := .intImm holds is
    exact lowered.operand

theorem nonneg_unsigned (unsigned : dtype.signed = false) (x : BitVec dtype.bits) :
    0 ≤ toInteger dtype.signed x := by
  rw [unsigned]
  exact Int.natCast_nonneg _

theorem fits_literals (left : Operand dtype env (.intImm m) x) (right : dtype.Denotes n)
    (nonzero : n ≠ 0) (below : dtype.signed = false → toInteger dtype.signed v ≤ m) :
    dtype.signed = true ∧ dtype.bits ≠ 1 ∨
      dtype.signed = false ∧ ∃ k, dtype.Holds k ∧ toInteger dtype.signed v ≤ k := by
  cases signed : dtype.signed with
  | true => exact Or.inl ⟨rfl, fun one => nonzero (denotes_one_bit signed one right)⟩
  | false => exact Or.inr ⟨rfl, m, (left.literal m rfl).1, signed ▸ below signed⟩

theorem foldLiterals_computes (computes : op = .add ∨ op = .div ∨ op = .mod) :
    dtype.foldLiterals op m n =
      ((op.eval m n).bind fun v => dtype.intImm (dtype.foldResultRepr v)).map some := by
  rcases computes with rfl | rfl | rfl
  · rfl
  · rfl
  · rfl

theorem tryConstFold_other (folds : ¬dtype.Folds op) : dtype.tryConstFold op a b = some none :=
  if_neg folds

theorem index_signed (index : dtype.IsIndex) : dtype.signed = true ∧ dtype.bits ≠ 1 := by
  refine ⟨index.1, ?_⟩
  rcases index.2 with bits | bits <;> omega

theorem outcome_shift (narrow : dtype.bits ≤ 64) (left : Operand dtype env a x) {amount : Nat}
    (small : amount < dtype.bits) :
    Outcome dtype a (.intImm amount) x y (shiftRight dtype.signed x amount)
      (dtype.tryConstFold .shiftRight a (.intImm amount)) := by
  by_cases folds : dtype.Folds .shiftRight
  swap
  · rw [tryConstFold_other folds]
    exact .built
  have fits := index_signed (folds (by simp))
  have shifted := toInteger_shiftRight dtype.signed x amount
  have inside : (0 : Int) ≤ amount ∧ (amount : Int) < dtype.bits :=
    ⟨Int.natCast_nonneg _, by exact_mod_cast small⟩
  rcases literal_or_symbolic a with ⟨m, rfl⟩ | symbolic
  · rw [left.toInteger_literal] at shifted
    have range := toInteger_inRange dtype.signed (shiftRight dtype.signed x amount)
    rw [shifted, fits.1] at range
    rw [tryConstFold_literals folds, DataType.foldLiterals, if_pos inside, Int.toNat_natCast,
      intImm_eq (holds_signed fits.1 fits.2 narrow range)]
    exact .literal (holds_signed fits.1 fits.2 narrow range) shifted
  · rw [tryConstFold_right folds symbolic, if_pos rfl, DataType.foldShift, if_pos inside]
    split
    · rename_i zero
      rw [Int.natCast_eq_zero.mp zero, pow_zero, Int.fdiv_one] at shifted
      rw [Int.natCast_eq_zero.mp zero]
      exact .first (toInteger_injective shifted)
    · exact .built

theorem toInt_and_wide (narrow : dtype.bits ≤ 64) (x y : BitVec dtype.bits) :
    (BitVec.ofInt 64 x.toInt &&& BitVec.ofInt 64 y.toInt).toInt = (x &&& y).toInt := by
  have wide : BitVec.ofInt 64 x.toInt &&& BitVec.ofInt 64 y.toInt = (x &&& y).signExtend 64 :=
    BitVec.signExtend_and.symm
  rw [wide, BitVec.toInt_signExtend_of_le narrow]

theorem outcome_and (narrow : dtype.bits ≤ 64) (left : Operand dtype env a x)
    (right : Operand dtype env b y) :
    Outcome dtype a b x y (x &&& y) (dtype.tryConstFold .bitwiseAnd a b) := by
  by_cases folds : dtype.Folds .bitwiseAnd
  swap
  · rw [tryConstFold_other folds]
    exact .built
  have fits := index_signed (folds (by simp))
  rcases literal_or_symbolic a with ⟨m, rfl⟩ | symbolic
  · rcases literal_or_symbolic b with ⟨n, rfl⟩ | symbolic'
    · have first := left.toInteger_literal
      have second := right.toInteger_literal
      have range := toInteger_inRange dtype.signed (x &&& y)
      rw [fits.1, toInteger, if_pos rfl] at first second range
      have is : (BitVec.ofInt 64 m &&& BitVec.ofInt 64 n).toInt = (x &&& y).toInt := by
        rw [← first, ← second, toInt_and_wide narrow]
      rw [tryConstFold_literals folds, DataType.foldLiterals, is,
        intImm_eq (holds_signed fits.1 fits.2 narrow range)]
      exact .literal (holds_signed fits.1 fits.2 narrow range) (by rw [fits.1]; rfl)
    · rw [tryConstFold_left folds symbolic']
      exact .built
  · rcases literal_or_symbolic b with ⟨n, rfl⟩ | symbolic'
    · rw [tryConstFold_right folds symbolic, if_neg (by decide)]
      exact .built
    · rw [tryConstFold_neither symbolic symbolic', if_neg (by simp)]
      exact .built

theorem outcome_max (left : Operand dtype env a x) (right : Operand dtype env b y)
    (computes : machineOp dtype .max x y = some v) :
    Outcome dtype a b x y v (dtype.tryConstFold .max a b) := by
  have folds : dtype.Folds .max := fun which => by simp at which
  have larger : v = if toInteger dtype.signed x ≤ toInteger dtype.signed y then y else x :=
    (Option.some.inj computes).symm
  rcases literal_or_symbolic a with ⟨m, rfl⟩ | symbolic
  · rcases literal_or_symbolic b with ⟨n, rfl⟩ | symbolic'
    · have first := left.toInteger_literal
      have second := right.toInteger_literal
      rw [first, second] at larger
      rw [tryConstFold_literals folds, DataType.foldLiterals, BinOp.eval, Option.bind_some]
      by_cases above : m ≤ n
      · rw [if_pos above] at larger
        rw [max_eq_right above, intImm_eq (right.literal n rfl).1]
        exact .literal (right.literal n rfl).1 (larger ▸ second)
      · rw [if_neg above] at larger
        rw [max_eq_left (le_of_not_ge above), intImm_eq (left.literal m rfl).1]
        exact .literal (left.literal m rfl).1 (larger ▸ first)
    · rw [tryConstFold_left folds symbolic']
      exact .built
  · rcases literal_or_symbolic b with ⟨n, rfl⟩ | symbolic'
    · rw [tryConstFold_right folds symbolic, if_neg (by decide)]
      exact .built
    · rw [tryConstFold_neither symbolic symbolic']
      split
      · rename_i both
        have same := left.value
        rw [both.2.2, right.value] at same
        rw [Option.some.inj same, if_pos le_rfl] at larger
        exact .first larger
      · exact .built

section Width

variable (positive : 0 < dtype.bits) (narrow : dtype.bits ≤ 64)

include positive narrow

theorem intImm_foldResultRepr (fits : dtype.signed = true ∧ dtype.bits ≠ 1 ∨
      dtype.signed = false ∧ ∃ k, dtype.Holds k ∧ toInteger dtype.signed v ≤ k)
    (is : toInteger dtype.signed v = n) :
    Outcome dtype a b x y v ((dtype.intImm (dtype.foldResultRepr n)).map some) := by
  have range := toInteger_inRange dtype.signed v
  rcases fits with ⟨signed, several⟩ | ⟨unsigned, k, holds, below⟩
  · rw [is, signed] at range
    rw [foldResultRepr_signed signed positive range,
      intImm_eq (holds_signed signed several narrow range)]
    exact .literal (holds_signed signed several narrow range) is
  · rw [unsigned, InRange, if_neg Bool.false_ne_true] at range
    rw [unsigned] at is below
    have here := holds_unsigned unsigned holds (is ▸ range.1) (is ▸ below)
    rw [foldResultRepr_unsigned unsigned here, intImm_eq here]
    exact .literal here (unsigned ▸ is)

theorem outcome_div (left : Operand dtype env a x) (right : Operand dtype env b y)
    (divides : Divides dtype.signed x y) :
    Outcome dtype a b x y (truncDiv dtype.signed x y) (dtype.tryConstFold .div a b) := by
  have folds : dtype.Folds .div := fun which => by simp at which
  have quotient := toInteger_truncDiv divides
  have nonzero := divides.nonzero
  rcases literal_or_symbolic a with ⟨m, rfl⟩ | symbolic
  · rw [left.toInteger_literal] at quotient
    rcases literal_or_symbolic b with ⟨n, rfl⟩ | symbolic'
    · rw [right.toInteger_literal] at quotient nonzero
      rw [tryConstFold_literals folds, foldLiterals_computes (by simp), BinOp.eval, if_neg nonzero]
      apply intImm_foldResultRepr positive narrow _ quotient
      apply fits_literals left (right.literal n rfl) nonzero
      intro unsigned
      rw [quotient]
      have dividend := nonneg_unsigned unsigned x
      rw [left.toInteger_literal] at dividend
      exact Int.tdiv_le_self n dividend
    · rw [tryConstFold_left folds symbolic', foldLeft]
      split
      · rename_i zero
        rw [zero, Int.zero_tdiv, ← zero] at quotient
        exact .literal (left.literal m rfl).1 quotient
      · exact .built
  · rcases literal_or_symbolic b with ⟨n, rfl⟩ | symbolic'
    · rw [right.toInteger_literal] at quotient nonzero
      rw [tryConstFold_right folds symbolic, if_neg (by decide), foldRight, if_neg nonzero]
      split
      · rename_i one
        rw [one, Int.tdiv_one] at quotient
        exact .first (toInteger_injective quotient)
      · exact .built
    · rw [tryConstFold_neither symbolic symbolic', if_neg (by simp)]
      exact .built

theorem outcome_mod (left : Operand dtype env a x) (right : Operand dtype env b y)
    (divides : Divides dtype.signed x y) :
    Outcome dtype a b x y (truncMod dtype.signed x y) (dtype.tryConstFold .mod a b) := by
  by_cases folds : dtype.Folds .mod
  swap
  · rw [tryConstFold_other folds]
    exact .built
  have fits := index_signed (folds (Or.inl rfl))
  have remainder := toInteger_truncMod dtype.signed x y
  have nonzero := divides.nonzero
  rcases literal_or_symbolic a with ⟨m, rfl⟩ | symbolic
  · rw [left.toInteger_literal] at remainder
    rcases literal_or_symbolic b with ⟨n, rfl⟩ | symbolic'
    · rw [right.toInteger_literal] at remainder nonzero
      rw [tryConstFold_literals folds, foldLiterals_computes (by simp), BinOp.eval, if_neg nonzero]
      exact intImm_foldResultRepr positive narrow (Or.inl fits) remainder
    · rw [tryConstFold_left folds symbolic', foldLeft]
      split
      · rename_i zero
        rw [zero, Int.zero_tmod, ← zero] at remainder
        exact .literal (left.literal m rfl).1 remainder
      · exact .built
  · rcases literal_or_symbolic b with ⟨n, rfl⟩ | symbolic'
    · rw [right.toInteger_literal] at remainder nonzero
      rw [tryConstFold_right folds symbolic, if_neg (by decide), foldRight, if_neg nonzero]
      split
      · rename_i one
        rw [one, Int.tmod_one] at remainder
        have zero : InRange true dtype.bits 0 := by
          rw [InRange, if_pos rfl]
          exact ⟨by linarith [show (0 : Int) < 2 ^ (dtype.bits - 1) by positivity], by positivity⟩
        exact .literal (holds_signed fits.1 fits.2 narrow zero) remainder
      · exact .built
    · rw [tryConstFold_neither symbolic symbolic', if_neg (by simp)]
      exact .built

theorem outcome_add (left : Operand dtype env a x) (right : Operand dtype env b y)
    (fits : dtype.IsIndex ∨ ∀ n, a ≠ .intImm n) :
    Outcome dtype a b x y (x + y) (dtype.tryConstFold .add a b) := by
  have folds : dtype.Folds .add := fun which => by simp at which
  rcases literal_or_symbolic a with ⟨m, rfl⟩ | symbolic
  · have index := index_signed (fits.resolve_right fun symbolic => symbolic m rfl)
    rcases literal_or_symbolic b with ⟨n, rfl⟩ | symbolic'
    · have wrapped : dtype.foldResultRepr (m + n) =
          dtype.foldResultRepr (toInteger dtype.signed (x + y)) := by
        rw [← left.toInteger_literal, ← right.toInteger_literal, DataType.foldResultRepr,
          DataType.foldResultRepr, if_pos index.1, if_pos index.1, index.1]
        simp only [toInteger, if_true, BitVec.toInt_add]
        rw [Int.bmod_bmod]
      rw [tryConstFold_literals folds, foldLiterals_computes (by simp), BinOp.eval, Option.bind_some,
        wrapped]
      exact intImm_foldResultRepr positive narrow (Or.inl index) rfl
    · rw [tryConstFold_left folds symbolic', foldLeft]
      split
      · rename_i zero
        have here := left.toInteger_literal
        rw [zero, toInteger_eq_zero] at here
        exact .second (by rw [here, BitVec.zero_add])
      · exact .built
  · rcases literal_or_symbolic b with ⟨n, rfl⟩ | symbolic'
    · rw [tryConstFold_right folds symbolic, if_neg (by decide), foldRight]
      split
      · rename_i zero
        have here := right.toInteger_literal
        rw [zero, toInteger_eq_zero] at here
        exact .first (by rw [here, BitVec.add_zero])
      · exact .built
    · rw [tryConstFold_neither symbolic symbolic', if_neg (by simp)]
      exact .built

theorem outcome_sub_one (left : Operand dtype env a x)
    (fits : dtype.signed = true ∧ dtype.bits ≠ 1 ∨ ∀ n, a ≠ .intImm n) :
    Outcome dtype a (.intImm 1) x 1#_ (x - 1#_) (dtype.tryConstFold .sub a (.intImm 1)) := by
  have folds : dtype.Folds .sub := fun which => by simp at which
  rcases literal_or_symbolic a with ⟨m, rfl⟩ | symbolic
  · obtain ⟨signed, several⟩ := fits.resolve_right fun symbolic => symbolic m rfl
    have wrapped : dtype.foldResultRepr (m - 1) =
        dtype.foldResultRepr (toInteger dtype.signed (x - 1#_)) := by
      rw [← left.toInteger_literal, DataType.foldResultRepr, DataType.foldResultRepr,
        if_pos signed, if_pos signed, signed]
      simp only [toInteger, if_true, BitVec.toInt_sub, BitVec.toInt_one (show 1 < dtype.bits by omega)]
      rw [Int.bmod_bmod]
    have refused : ¬(dtype.signed = false ∧ m = 0 ∧ (0 : Int) < 1) := by
      rw [signed]
      exact fun both => Bool.noConfusion both.1
    rw [tryConstFold_literals folds, DataType.foldLiterals, if_neg refused, wrapped]
    exact intImm_foldResultRepr positive narrow (Or.inl ⟨signed, several⟩) rfl
  · rw [tryConstFold_right folds symbolic, if_neg (by decide), foldRight, if_neg one_ne_zero]
    exact .built

theorem denotes_truth (fits : dtype.signed = true → dtype.bits ≠ 1) (p : Prop) [Decidable p] :
    dtype.Holds (truth p) ∧ toInteger dtype.signed (BitVec.ofInt dtype.bits (truth p)) = truth p := by
  have bound : 0 ≤ truth p ∧ truth p ≤ 1 := by
    rcases truth_cases p with is | is <;> rw [is] <;> decide
  cases signed : dtype.signed with
  | true =>
    have several := fits signed
    have power : (2 : Int) ^ 1 ≤ 2 ^ (dtype.bits - 1) :=
      pow_le_pow_right₀ one_le_two (by omega)
    have range : InRange true dtype.bits (truth p) := by
      rw [InRange, if_pos rfl]
      omega
    exact ⟨holds_signed signed several narrow range, toInteger_ofInt positive range⟩
  | false =>
    have power : (2 : Int) ^ 1 ≤ 2 ^ dtype.bits := pow_le_pow_right₀ one_le_two positive
    have range : InRange false dtype.bits (truth p) := by
      rw [InRange, if_neg Bool.false_ne_true]
      omega
    refine ⟨⟨⟨by omega, by omega⟩, ?_⟩, toInteger_ofInt positive range⟩
    rw [signed, if_neg Bool.false_ne_true]
    exact ⟨bound.1, fun _ => by omega⟩

theorem outcome_test (left : Operand dtype env a x) (test : op = .eq ∨ op = .ne)
    (fits : dtype.signed = true ∧ dtype.bits = 1 → ∀ n, a ≠ .intImm n)
    (computes : machineOp dtype op x 0#_ = some v) :
    Outcome dtype a (.intImm 0) x 0#_ v (dtype.tryConstFold op a (.intImm 0)) := by
  have folds : dtype.Folds op := by
    rcases test with rfl | rfl <;> exact fun which => by simp at which
  have zero : toInteger dtype.signed (0#(dtype.bits)) = 0 := toInteger_eq_zero.mpr rfl
  rcases literal_or_symbolic a with ⟨m, rfl⟩ | symbolic
  · have several : dtype.signed = true → dtype.bits ≠ 1 := fun signed one =>
      fits ⟨signed, one⟩ m rfl
    rw [tryConstFold_literals folds]
    rcases test with rfl | rfl
    · cases computes
      obtain ⟨holds, is⟩ := denotes_truth positive narrow several (m = 0)
      rw [left.toInteger_literal, zero]
      exact .literal holds is
    · cases computes
      obtain ⟨holds, is⟩ := denotes_truth positive narrow several (m ≠ 0)
      rw [left.toInteger_literal, zero]
      exact .literal holds is
  · rcases test with rfl | rfl
    · rw [tryConstFold_right folds symbolic, if_neg (by decide)]
      exact .built
    · rw [tryConstFold_right folds symbolic, if_neg (by decide)]
      exact .built

theorem denotes_below
    (denotes : dtype.Denotes n) (nonneg : 0 ≤ m) (below : m ≤ n) : dtype.Denotes m := by
  have range := toInteger_inRange dtype.signed (BitVec.ofInt dtype.bits n)
  rw [denotes.2] at range
  have within : InRange dtype.signed dtype.bits m := by
    rw [InRange] at range ⊢
    split at range
    · rename_i signed
      have power : (0 : Int) < 2 ^ (dtype.bits - 1) := by positivity
      rw [if_pos signed]
      omega
    · rename_i unsigned
      rw [if_neg unsigned]
      omega
  refine ⟨?_, toInteger_ofInt positive within⟩
  cases signed : dtype.signed with
  | true =>
    by_cases one : dtype.bits = 1
    · have zero := denotes_one_bit signed one denotes
      rw [show m = n by omega]
      exact denotes.1
    · rw [signed] at within
      exact holds_signed signed one narrow within
  | false => exact holds_unsigned signed denotes.1 nonneg below

theorem make_div (left : Lowered dtype env next a x) (right : Lowered dtype env next b y)
    (divides : Divides dtype.signed x y) :
    ∃ r, dtype.make .div a b = some r ∧ Lowered dtype env next r (truncDiv dtype.signed x y) :=
  (outcome_div positive narrow left.operand right.operand divides).make left right (by decide)
    (if_pos divides)

theorem make_mod (left : Lowered dtype env next a x) (right : Lowered dtype env next b y)
    (divides : Divides dtype.signed x y) :
    ∃ r, dtype.make .mod a b = some r ∧ Lowered dtype env next r (truncMod dtype.signed x y) :=
  (outcome_mod positive narrow left.operand right.operand divides).make left right (by decide)
    (if_pos divides)

end Width

theorem lowered_literal (denotes : dtype.Denotes n) :
    Lowered dtype env next (.intImm n) (BitVec.ofInt dtype.bits n) :=
  .intImm denotes.1 denotes.2

theorem power_of_isConstPowerOfTwoInteger {shift : Nat}
    (is : isConstPowerOfTwoInteger b = some shift) : b = .intImm (2 ^ shift) := by
  cases b with
  | intImm n =>
    rw [isConstPowerOfTwoInteger] at is
    split at is
    · rename_i power
      cases is
      rw [← power.2]
    · cases is
  | _ => cases is

theorem shift_small (positive : 0 < dtype.bits) {shift : Nat} (denotes : dtype.Denotes (2 ^ shift)) :
    shift < dtype.bits := by
  have range := toInteger_inRange dtype.signed (BitVec.ofInt dtype.bits (2 ^ shift))
  rw [denotes.2, InRange] at range
  split at range
  · have less := (pow_lt_pow_iff_right₀ (one_lt_two : (1 : Int) < 2)).mp range.2
    omega
  · exact (pow_lt_pow_iff_right₀ (one_lt_two : (1 : Int) < 2)).mp range.2

theorem shift_literal {shift : Nat} (small : shift < dtype.bits) :
    (BitVec.ofInt dtype.bits (shift : Int)).toNat = shift := by
  rw [BitVec.ofInt_natCast, BitVec.toNat_ofNat]
  exact Nat.mod_eq_of_lt (small.trans Nat.lt_two_pow_self)

theorem machineOp_shift {shift : Nat} (small : shift < dtype.bits) (x : BitVec dtype.bits) :
    machineOp dtype .shiftRight x (BitVec.ofInt dtype.bits (shift : Int)) =
      some (shiftRight dtype.signed x shift) := by
  rw [machineOp, shift_literal small, if_pos small]

theorem make_shift (narrow : dtype.bits ≤ 64) (left : Lowered dtype env next a x) {shift : Nat}
    (small : shift < dtype.bits) (denotes : dtype.Denotes shift) :
    ∃ r, dtype.make .shiftRight a (.intImm shift) = some r ∧
      Lowered dtype env next r (shiftRight dtype.signed x shift) :=
  (outcome_shift narrow left.operand small).make left (lowered_literal denotes) (by decide)
    (machineOp_shift small x)

theorem make_div_symbolic (symbolic : ∀ n, a ≠ .intImm n) {r : PrimExpr}
    (made : dtype.make .div a b = some r) : ∀ n, r ≠ .intImm n := by
  have folds : dtype.Folds .div := fun which => by simp at which
  rw [DataType.make] at made
  rcases literal_or_symbolic b with ⟨n, rfl⟩ | symbolic'
  · rw [tryConstFold_right folds symbolic, if_neg (by decide), foldRight] at made
    split at made
    · cases made
      exact symbolic
    · split at made
      · cases made
      · cases made
        rintro n ⟨⟩
  · rw [tryConstFold_neither symbolic symbolic', if_neg (by simp)] at made
    cases made
    rintro n ⟨⟩

theorem make_mod_other (other : ¬dtype.IsIndex) :
    dtype.make .mod a b = some (.binary .mod a b) := by
  have folds : ¬dtype.Folds .mod := fun folds => other (folds (Or.inl rfl))
  rw [DataType.make, tryConstFold_other folds]
  rfl

theorem make_compare (compares : op = .ge ∨ op = .lt ∨ op = .le) (symbolic : ∀ n, a ≠ .intImm n) :
    dtype.make op a (.intImm n) = some (.binary op a (.intImm n)) := by
  have folds : dtype.Folds op := by
    rcases compares with rfl | rfl | rfl <;> exact fun which => by simp at which
  rw [DataType.make, tryConstFold_right folds symbolic]
  rcases compares with rfl | rfl | rfl
  · rfl
  · rfl
  · rfl

theorem make_compare_literals (compares : op = .ge ∨ op = .lt) :
    dtype.make op (.intImm m) (.intImm n) =
      (op.eval m n).map .intImm := by
  have folds : dtype.Folds op := by
    rcases compares with rfl | rfl <;> exact fun which => by simp at which
  rw [DataType.make, tryConstFold_literals folds]
  rcases compares with rfl | rfl
  · rfl
  · rfl

theorem make_logic (logic : op = .and ∨ op = .or) (symbolic : ∀ n, b ≠ .intImm n) :
    dtype.make op (.intImm m) b = some ((foldLeft op m b).getD (.binary op (.intImm m) b)) := by
  have folds : dtype.Folds op := by
    rcases logic with rfl | rfl <;> exact fun which => by simp at which
  rw [DataType.make, tryConstFold_left folds symbolic]
  rfl

theorem make_logic_symbolic (logic : op = .and ∨ op = .or) (symbolic : ∀ n, a ≠ .intImm n)
    (symbolic' : ∀ n, b ≠ .intImm n) : dtype.make op a b = some (.binary op a b) := by
  have other : ¬(dtype.Folds op ∧ (op = .min ∨ op = .max) ∧ a = b) := by
    rcases logic with rfl | rfl <;> simp
  rw [DataType.make, tryConstFold_neither symbolic symbolic', if_neg other]
  rfl

theorem ofInt_truth (positive : 0 < dtype.bits) (p : Prop) [Decidable p] :
    BitVec.ofInt dtype.bits (truth p) ≠ 0#_ ↔ p := by
  have one : (1#(dtype.bits)) ≠ 0#_ := by
    intro same
    have bits := congrArg BitVec.toNat same
    rw [BitVec.toNat_ofNat, BitVec.toNat_ofNat, Nat.zero_mod,
      Nat.mod_eq_of_lt (Nat.one_lt_two_pow positive.ne')] at bits
    exact one_ne_zero bits
  by_cases holds : p
  · rw [truth, if_pos holds]
    exact iff_of_true one holds
  · rw [truth, if_neg holds]
    exact iff_of_false (fun different => different rfl) holds

end Lowered

namespace IntrinInjecter

variable {pass : IntrinInjecter} {env : Var → BitVec pass.dtype.bits} {e a b : PrimExpr}
  {x y v r : BitVec pass.dtype.bits} {next : Nat}

/-- What the analyzer proves not to be negative is not, in this assignment. -/
def SoundAt (pass : IntrinInjecter) (env : Var → BitVec pass.dtype.bits) : Prop :=
  ∀ e v, pass.proves e = true → machineEval pass.dtype env e = some v →
    0 ≤ toInteger pass.dtype.signed v

/-- The result is an expression that has the value. -/
def Produces (pass : IntrinInjecter) (env : Var → BitVec pass.dtype.bits) (next : Nat)
    (v : BitVec pass.dtype.bits) (result : Option (PrimExpr × Nat)) : Prop :=
  ∃ e next', result = some (e, next') ∧ next ≤ next' ∧ Lowered pass.dtype env next' e v

theorem canProveNonneg_sound (sound : pass.SoundAt env) (operand : Operand pass.dtype env e v)
    (proved : pass.canProveNonneg e = true) : 0 ≤ toInteger pass.dtype.signed v := by
  cases e with
  | intImm n =>
    rw [operand.toInteger_literal]
    exact of_decide_eq_true proved
  | _ => exact sound _ v proved operand.value

theorem signsAgree_exact (positive : 0 < pass.dtype.bits) (right : Lowered pass.dtype env next b y)
    (unproved : ¬pass.canProveNonneg b = true) {u : Var} (inside : u < next) (is : env u = r) :
    ∃ condition c, pass.signsAgree b (.var u) = some condition ∧
      Computes pass.dtype env next condition c ∧
      (c ≠ 0#_ ↔ SignsAgree (toInteger pass.dtype.signed y) (toInteger pass.dtype.signed r)) := by
  have rmod : Computes pass.dtype env next (.var u) r := .var inside is
  have zero : Computes pass.dtype env next (.intImm 0) 0#_ := .intImm rfl
  have symbolic : ∀ n, PrimExpr.var u ≠ .intImm n := fun n is => nomatch is
  have none : toInteger pass.dtype.signed (0#(pass.dtype.bits)) = 0 := toInteger_eq_zero.mpr rfl
  rcases literal_or_symbolic b with ⟨n, rfl⟩ | symbolic'
  · have negative : ¬0 ≤ n := fun nonneg => unproved (decide_eq_true nonneg)
    have here := right.operand.toInteger_literal
    have left : pass.dtype.make .ge (.intImm n) (.intImm 0) = some (.intImm 0) := by
      rw [make_compare_literals (by simp), BinOp.eval, truth_eq_zero.mpr negative]
      rfl
    have below : pass.dtype.make .lt (.intImm n) (.intImm 0) = some (.intImm 1) := by
      rw [make_compare_literals (by simp), BinOp.eval, truth_eq_one.mpr (not_le.mp negative)]
      rfl
    refine ⟨.binary .le (.var u) (.intImm 0), _, ?_, rmod.binary zero (by decide) rfl, ?_⟩
    · rw [signsAgree, left, below, make_compare (by simp) symbolic, make_compare (by simp) symbolic]
      simp only [Option.bind_eq_bind, Option.bind_some]
      rw [make_logic (by simp) (binary_symbolic _ _ _), make_logic (by simp) (binary_symbolic _ _ _)]
      simp only [Option.bind_some]
      exact make_logic (Or.inr rfl) (binary_symbolic _ _ _)
    · rw [none, ofInt_truth positive, here, SignsAgree]
      omega
  · have divisor := right.toComputes
    refine ⟨.binary .or
        (.binary .and (.binary .ge b (.intImm 0)) (.binary .ge (.var u) (.intImm 0)))
        (.binary .and (.binary .lt b (.intImm 0)) (.binary .le (.var u) (.intImm 0))), _, ?_,
      .binary (.binary (.binary divisor zero (by decide) rfl) (rmod.binary zero (by decide) rfl)
          (by decide) rfl)
        (.binary (.binary divisor zero (by decide) rfl) (rmod.binary zero (by decide) rfl)
          (by decide) rfl) (by decide) rfl, ?_⟩
    · rw [signsAgree, make_compare (by simp) symbolic', make_compare (by simp) symbolic,
        make_compare (by simp) symbolic', make_compare (by simp) symbolic]
      simp only [Option.bind_eq_bind, Option.bind_some]
      rw [make_logic_symbolic (by simp) (binary_symbolic _ _ _) (binary_symbolic _ _ _),
        make_logic_symbolic (by simp) (binary_symbolic _ _ _) (binary_symbolic _ _ _)]
      simp only [Option.bind_some]
      exact make_logic_symbolic (Or.inr rfl) (binary_symbolic _ _ _) (binary_symbolic _ _ _)
    · simp only [ofInt_truth positive, none]
      rfl

theorem denotes_sign {dtype : DataType} (index : dtype.IsIndex) :
    dtype.Denotes (dtype.bits - 1 : Nat) := by
  obtain ⟨signed, several⟩ := index_signed index
  have range : InRange true dtype.bits (dtype.bits - 1 : Nat) := by
    rw [InRange, if_pos rfl]
    rcases index.2 with bits | bits <;> rw [bits] <;> norm_num
  have bounds : 0 < dtype.bits ∧ dtype.bits ≤ 64 := by
    rcases index.2 with bits | bits <;> omega
  refine ⟨holds_signed signed several bounds.2 range, ?_⟩
  rw [signed]
  exact toInteger_ofInt bounds.1 range

theorem make_sign (index : pass.dtype.IsIndex) {rmod : PrimExpr}
    (remainder : Lowered pass.dtype env next rmod r) :
    ∃ sign, pass.dtype.make .shiftRight rmod (.intImm (pass.dtype.bits - 1)) = some sign ∧
      Lowered pass.dtype env next sign
        (shiftRight pass.dtype.signed r (pass.dtype.bits - 1)) := by
  have bounds : 0 < pass.dtype.bits ∧ pass.dtype.bits ≤ 64 := by
    rcases index.2 with bits | bits <;> omega
  have amount : (pass.dtype.bits : Int) - 1 = (pass.dtype.bits - 1 : Nat) := by
    rw [Nat.cast_sub bounds.1, Nat.cast_one]
  rw [amount]
  exact make_shift bounds.2 remainder (by omega) (denotes_sign index)

/-- What is not proved not to be negative is no literal, or one of a signed type of several bits. -/
theorem symbolic_or_signed (left : Lowered pass.dtype env next a x)
    (unproved : ¬pass.canProveNonneg a = true) :
    pass.dtype.signed = true ∧ pass.dtype.bits ≠ 1 ∨ ∀ n, a ≠ .intImm n := by
  rcases literal_or_symbolic a with ⟨n, rfl⟩ | symbolic
  · have negative : ¬0 ≤ n := fun nonneg => unproved (decide_eq_true nonneg)
    have denotes := left.literal n rfl
    apply Or.inl
    cases signed : pass.dtype.signed with
    | true =>
      refine ⟨rfl, fun one => negative ?_⟩
      rw [denotes_one_bit signed one denotes]
    | false =>
      obtain ⟨-, here⟩ := denotes.1
      rw [signed, if_neg Bool.false_ne_true] at here
      exact absurd here.1 negative
  · exact Or.inr symbolic

theorem lowerFloorDiv_exact (positive : 0 < pass.dtype.bits) (narrow : pass.dtype.bits ≤ 64)
    (sound : pass.SoundAt env) (left : Lowered pass.dtype env next a x)
    (right : Lowered pass.dtype env next b y) (divides : Divides pass.dtype.signed x y)
    (whole : Operand pass.dtype env e (floorDiv pass.dtype.signed x y)) :
    pass.Produces env next (floorDiv pass.dtype.signed x y) (pass.lowerFloorDiv e a b next) := by
  rw [lowerFloorDiv]
  split
  · rename_i shift is
    have literal := power_of_isConstPowerOfTwoInteger is
    subst literal
    have denotes := right.literal _ rfl
    have small := shift_small positive denotes
    have amount : pass.dtype.Denotes shift :=
      denotes_below positive narrow denotes (Int.natCast_nonneg _)
        (by exact_mod_cast Nat.lt_two_pow_self.le)
    obtain ⟨r, made, lowered⟩ := make_shift narrow left small amount
    rw [shiftRight_eq_floorDiv right.operand.toInteger_literal] at lowered
    rw [made]
    exact ⟨r, next, rfl, le_rfl, lowered⟩
  · obtain ⟨rdiv, madeDiv, quotient⟩ := make_div positive narrow left right divides
    obtain ⟨rmod, madeMod, remainder⟩ := make_mod positive narrow left right divides
    split
    · rename_i provedB
      have divisor := canProveNonneg_sound sound right.operand provedB
      split
      · rename_i proved
        have dividend : 0 ≤ toInteger pass.dtype.signed x := by
          rcases proved with provedA | provedE
          · exact canProveNonneg_sound sound left.operand provedA
          · exact nonneg_of_floorDiv positive divides divisor
              (canProveNonneg_sound sound whole provedE)
        have same : floorDiv pass.dtype.signed x y = truncDiv pass.dtype.signed x y := by
          rw [floorDiv_eq divides, if_pos (signsAgree_of_nonneg dividend divisor)]
        rw [madeDiv, same]
        exact ⟨rdiv, next, rfl, le_rfl, quotient⟩
      · rename_i unproved
        rw [madeDiv, madeMod]
        simp only [Option.bind_eq_bind, Option.bind_some]
        split
        · rename_i index
          obtain ⟨sign, madeSign, shifted⟩ := make_sign index remainder
          obtain ⟨sum, madeSum, lowered⟩ := (outcome_add positive narrow quotient.operand
            shifted.operand (Or.inl index)).make quotient shifted (by decide) rfl
          have total : truncDiv pass.dtype.signed x y + shiftRight pass.dtype.signed
              (truncMod pass.dtype.signed x y) (pass.dtype.bits - 1) =
                floorDiv pass.dtype.signed x y := by
            rw [index.1] at divides divisor ⊢
            exact truncDiv_add_sign divides divisor
          rw [madeSign, Option.bind_some, madeSum]
          exact ⟨sum, next, rfl, le_rfl, total ▸ lowered⟩
        · rename_i other
          rw [make_mod_other other] at madeMod
          cases madeMod
          have one : Computes pass.dtype env next (.intImm 1) 1#_ := .intImm rfl
          have zero : Computes pass.dtype env next (.intImm 0) 0#_ := .intImm rfl
          have fits : pass.dtype.signed = true ∧ pass.dtype.bits ≠ 1 ∨ ∀ n, rdiv ≠ .intImm n :=
            (symbolic_or_signed left fun proved => unproved (Or.inl proved)).imp_right
              fun symbolic => make_div_symbolic symbolic madeDiv
          obtain ⟨less, madeLess, lowered⟩ := (outcome_sub_one positive narrow quotient.operand
            fits).computes quotient.toComputes one (by decide) rfl
          have condition : Computes pass.dtype env next
              (.binary .ge (.binary .mod a b) (.intImm 0)) _ :=
            remainder.toComputes.binary zero (by decide) rfl
          rw [make_compare (by simp) (binary_symbolic _ _ _), madeLess, floorDiv_eq divides]
          refine ⟨_, next, rfl, le_rfl, (condition.select quotient.toComputes lowered ?_).lowered
            fun n is => nomatch is⟩
          rw [ofInt_truth positive, signsAgree_iff divisor, toInteger_eq_zero.mpr rfl]
    · rename_i unproved
      have unused : next ≤ next + 1 := Nat.le_succ next
      have more : next ≤ next + 2 := by omega
      have later := ((right.fresh le_rfl (truncMod pass.dtype.signed x y)).fresh unused
        (truncDiv pass.dtype.signed x y)).mono more
      have rmodIs : Function.update (Function.update env next (truncMod pass.dtype.signed x y))
          (next + 1) (truncDiv pass.dtype.signed x y) next = truncMod pass.dtype.signed x y := by
        rw [Function.update_of_ne (Nat.succ_ne_self next).symm, Function.update_self]
      obtain ⟨condition, c, madeCondition, agree, chooses⟩ :=
        signsAgree_exact positive later unproved (Nat.lt_add_of_pos_right two_pos) rmodIs
      have rdivHere : Computes pass.dtype (Function.update (Function.update env next
          (truncMod pass.dtype.signed x y)) (next + 1) (truncDiv pass.dtype.signed x y)) (next + 2)
          (.var (next + 1)) (truncDiv pass.dtype.signed x y) :=
        .var (Nat.lt_succ_self _) (Function.update_self ..)
      have symbolic : ∀ n, PrimExpr.var (next + 1) ≠ .intImm n := fun n is => nomatch is
      obtain ⟨less, madeLess, lowered⟩ := (outcome_sub_one positive narrow
        (rdivHere.lowered symbolic).operand (Or.inr symbolic)).computes rdivHere (.intImm rfl)
          (by decide) rfl
      have inner := Computes.letIn (Nat.lt_succ_self (next + 1))
        ((quotient.toComputes.fresh le_rfl (truncMod pass.dtype.signed x y)).mono more)
        (agree.select rdivHere lowered chooses)
      rw [madeCondition, madeLess, madeDiv, madeMod, floorDiv_eq divides]
      have inside : next < next + 2 := by omega
      exact ⟨_, next + 2, rfl, more, (Computes.letIn inside (remainder.toComputes.mono more)
        inner).lowered fun n is => nomatch is⟩

theorem lowerFloorMod_exact (positive : 0 < pass.dtype.bits) (narrow : pass.dtype.bits ≤ 64)
    (sound : pass.SoundAt env) (left : Lowered pass.dtype env next a x)
    (right : Lowered pass.dtype env next b y) (divides : Divides pass.dtype.signed x y) :
    pass.Produces env next (floorMod pass.dtype.signed x y) (pass.lowerFloorMod a b next) := by
  rw [lowerFloorMod]
  split
  · rename_i shift is
    have literal := power_of_isConstPowerOfTwoInteger is
    subst literal
    have denotes := right.literal _ rfl
    have small := shift_small positive denotes
    have power : (0 : Int) < 2 ^ shift := by positivity
    have mask : pass.dtype.Denotes (2 ^ shift - 1) :=
      denotes_below positive narrow denotes (by omega) (by omega)
    have masks : Lowered pass.dtype env next (.intImm (2 ^ shift - 1)) _ := lowered_literal mask
    obtain ⟨r, made, lowered⟩ :=
      (outcome_and narrow left.operand masks.operand).make left masks (by decide) rfl
    rw [and_mask_eq_floorMod right.operand.toInteger_literal small] at lowered
    rw [made]
    exact ⟨r, next, rfl, le_rfl, lowered⟩
  · obtain ⟨rmod, madeMod, remainder⟩ := make_mod positive narrow left right divides
    split
    · rename_i provedB
      have divisor := canProveNonneg_sound sound right.operand provedB
      split
      · rename_i proved
        have dividend := canProveNonneg_sound sound left.operand proved
        have same : floorMod pass.dtype.signed x y = truncMod pass.dtype.signed x y := by
          rw [floorMod_eq divides, if_pos (signsAgree_of_nonneg dividend divisor)]
        rw [madeMod, same]
        exact ⟨rmod, next, rfl, le_rfl, remainder⟩
      · rw [madeMod]
        simp only [Option.bind_eq_bind, Option.bind_some]
        split
        · rename_i index
          obtain ⟨sign, madeSign, shifted⟩ := make_sign index remainder
          obtain ⟨masked, madeAnd, maskedIs⟩ :=
            (outcome_and narrow right.operand shifted.operand).make right shifted (by decide) rfl
          obtain ⟨sum, madeSum, lowered⟩ := (outcome_add positive narrow remainder.operand
            maskedIs.operand (Or.inl index)).make remainder maskedIs (by decide) rfl
          have total : truncMod pass.dtype.signed x y + (y &&& shiftRight pass.dtype.signed
              (truncMod pass.dtype.signed x y) (pass.dtype.bits - 1)) =
                floorMod pass.dtype.signed x y := by
            rw [index.1] at divides divisor ⊢
            exact truncMod_add_sign divides divisor
          rw [madeSign, Option.bind_some, madeAnd, Option.bind_some, madeSum]
          exact ⟨sum, next, rfl, le_rfl, total ▸ lowered⟩
        · rename_i other
          rw [make_mod_other other] at madeMod
          cases madeMod
          have zero : Computes pass.dtype env next (.intImm 0) 0#_ := .intImm rfl
          obtain ⟨more, madeMore, lowered⟩ := (outcome_add positive narrow remainder.operand
            right.operand (Or.inr (binary_symbolic _ _ _))).computes remainder.toComputes
              right.toComputes (by decide) rfl
          have condition : Computes pass.dtype env next
              (.binary .ge (.binary .mod a b) (.intImm 0)) _ :=
            remainder.toComputes.binary zero (by decide) rfl
          rw [make_compare (by simp) (binary_symbolic _ _ _), madeMore, floorMod_eq divides]
          refine ⟨_, next, rfl, le_rfl, (condition.select remainder.toComputes lowered ?_).lowered
            fun n is => nomatch is⟩
          rw [ofInt_truth positive, signsAgree_iff divisor, toInteger_eq_zero.mpr rfl]
    · rename_i unproved
      have more : next ≤ next + 1 := Nat.le_succ next
      have later := (right.fresh le_rfl (truncMod pass.dtype.signed x y)).mono more
      have rmodIs : Function.update env next (truncMod pass.dtype.signed x y) next =
          truncMod pass.dtype.signed x y := Function.update_self ..
      obtain ⟨condition, c, madeCondition, agree, chooses⟩ :=
        signsAgree_exact positive later unproved (Nat.lt_succ_self next) rmodIs
      have rmodHere : Computes pass.dtype (Function.update env next
          (truncMod pass.dtype.signed x y)) (next + 1) (.var next)
          (truncMod pass.dtype.signed x y) := .var (Nat.lt_succ_self next) rmodIs
      have symbolic : ∀ n, PrimExpr.var next ≠ .intImm n := fun n is => nomatch is
      obtain ⟨sum, madeSum, lowered⟩ := (outcome_add positive narrow
        (rmodHere.lowered symbolic).operand later.operand (Or.inr symbolic)).computes rmodHere
          later.toComputes (by decide) rfl
      rw [madeCondition, madeSum, madeMod, floorMod_eq divides]
      exact ⟨_, next + 1, rfl, more, (Computes.letIn (Nat.lt_succ_self next)
        (remainder.toComputes.mono more) (agree.select rmodHere lowered chooses)).lowered
          fun n is => nomatch is⟩

/-- A scalar expression of the type: its literals are numbers of the type, its variables are not
fresh. -/
def Input (dtype : DataType) (next : Nat) : PrimExpr → Prop
  | .var u => u < next
  | .intImm n => dtype.Denotes n
  | .binary op a b =>
    (op ≠ .shiftLeft ∧ op ≠ .shiftRight ∧ op ≠ .bitwiseAnd) ∧ Input dtype next a ∧ Input dtype next b
  | .not a => Input dtype next a
  | .select .. | .letIn .. | .cast _ | .other _ => False

theorem Input.mono {dtype : DataType} {next next' : Nat} (input : Input dtype next e)
    (more : next ≤ next') : Input dtype next' e := by
  induction e with
  | var u => exact lt_of_lt_of_le input more
  | intImm n => exact input
  | binary op a b left right => exact ⟨input.1, left input.2.1, right input.2.2⟩
  | not a ih => exact ih input
  | _ => exact input

theorem Input.operand (input : Input pass.dtype next e)
    (value : machineEval pass.dtype env e = some v) : Operand pass.dtype env e v := by
  refine ⟨?_, value⟩
  rintro n rfl
  exact input

def Exact (pass : IntrinInjecter) (env : Var → BitVec pass.dtype.bits) (e : PrimExpr) : Prop :=
  ∀ next v, Input pass.dtype next e → machineEval pass.dtype env e = some v →
    pass.Produces env next v (pass.visitExpr e next)

theorem Produces.bind {result : Option (PrimExpr × Nat)}
    {rest : PrimExpr × Nat → Option (PrimExpr × Nat)} (first : pass.Produces env next x result)
    (follows : ∀ e next', next ≤ next' → Lowered pass.dtype env next' e x →
      pass.Produces env next' v (rest (e, next'))) : pass.Produces env next v (result.bind rest) := by
  obtain ⟨e, next', rfl, more, lowered⟩ := first
  obtain ⟨r, last, is, later, result⟩ := follows e next' more lowered
  exact ⟨r, last, is, more.trans later, result⟩

theorem Exact.both (rest : PrimExpr → PrimExpr → Nat → Option (PrimExpr × Nat))
    (exactA : pass.Exact env a) (exactB : pass.Exact env b) (inputA : Input pass.dtype next a)
    (inputB : Input pass.dtype next b) (left : machineEval pass.dtype env a = some x)
    (right : machineEval pass.dtype env b = some y)
    (follows : ∀ a' b' next', next ≤ next' → Lowered pass.dtype env next' a' x →
      Lowered pass.dtype env next' b' y → pass.Produces env next' v (rest a' b' next')) :
    pass.Produces env next v ((pass.visitExpr a next).bind fun first =>
      (pass.visitExpr b first.2).bind fun second => rest first.1 second.1 second.2) := by
  apply (exactA next x inputA left).bind
  intro a' next' more lowered
  apply (exactB next' y (inputB.mono more) right).bind
  intro b' last later lowered'
  exact follows a' b' last (more.trans later) (lowered.mono later) lowered'

theorem Produces.node {op : BinOp} (plain : op ≠ .floorDiv ∧ op ≠ .floorMod)
    (left : Lowered pass.dtype env next a x) (right : Lowered pass.dtype env next b y)
    (computes : machineOp pass.dtype op x y = some v) :
    pass.Produces env next v (some (.binary op a b, next)) :=
  ⟨_, next, rfl, le_rfl, (left.toComputes.binary right.toComputes plain computes).lowered
    fun _ is => nomatch is⟩

theorem folded_truncated {dtype : DataType} {op : BinOp} (truncated : op = .div ∨ op = .mod)
    {r : PrimExpr} (folded : dtype.tryConstFold op a b = some (some r)) :
    r = a ∨ ∃ k, r = .intImm k := by
  by_cases folds : dtype.Folds op
  swap
  · rw [tryConstFold_other folds] at folded
    cases folded
  rcases literal_or_symbolic a with ⟨m, rfl⟩ | symbolic
  · rcases literal_or_symbolic b with ⟨n, rfl⟩ | symbolic'
    · rw [tryConstFold_literals folds, foldLiterals_computes (Or.inr truncated),
        Option.map_eq_some_iff] at folded
      obtain ⟨s, made, same⟩ := folded
      obtain ⟨k, -, is⟩ := Option.bind_eq_some_iff.mp made
      rw [DataType.intImm] at is
      split at is
      · cases is
        cases same
        exact Or.inr ⟨_, rfl⟩
      · cases is
    · rw [tryConstFold_left folds symbolic'] at folded
      rcases truncated with rfl | rfl
      · rw [foldLeft] at folded
        split at folded
        · cases folded
          exact Or.inr ⟨_, rfl⟩
        · cases folded
      · rw [foldLeft] at folded
        split at folded
        · cases folded
          exact Or.inr ⟨_, rfl⟩
        · cases folded
  · rcases literal_or_symbolic b with ⟨n, rfl⟩ | symbolic'
    · rw [tryConstFold_right folds symbolic] at folded
      rcases truncated with rfl | rfl
      · rw [if_neg (by decide), foldRight] at folded
        split at folded
        · cases folded
          exact Or.inl rfl
        · split at folded <;> cases folded
      · rw [if_neg (by decide), foldRight] at folded
        split at folded
        · cases folded
          exact Or.inr ⟨0, rfl⟩
        · split at folded <;> cases folded
    · rw [tryConstFold_neither symbolic symbolic', if_neg] at folded
      · cases folded
      · rcases truncated with rfl | rfl <;> simp

theorem visitTruncated_exact {op : BinOp} (truncated : op = .div ∨ op = .mod)
    (outcome : Outcome pass.dtype a b x y v (pass.dtype.tryConstFold op a b))
    (computes : machineOp pass.dtype op x y = some v) (exactA : pass.Exact env a)
    (exactB : pass.Exact env b) (inputA : Input pass.dtype next a)
    (inputB : Input pass.dtype next b) (left : machineEval pass.dtype env a = some x)
    (right : machineEval pass.dtype env b = some y) :
    pass.Produces env next v
      (pass.visitTruncated op a b (pass.visitExpr a) (pass.visitExpr b) next) := by
  have plain : op ≠ .floorDiv ∧ op ≠ .floorMod := by
    rcases truncated with rfl | rfl <;> decide
  rw [visitTruncated]
  generalize folded : pass.dtype.tryConstFold op a b = result at outcome
  cases result with
  | none => cases outcome
  | some result =>
    cases result with
    | none =>
      exact Exact.both (fun a' b' next => some (.binary op a' b', next)) exactA exactB inputA
        inputB left right fun _ _ _ _ lowered lowered' => .node plain lowered lowered' computes
    | some r =>
      have operand := outcome.operand (inputA.operand left) (inputB.operand right)
      change pass.Produces env next v (if r = a then pass.visitExpr a next else some (r, next))
      split
      · rename_i same
        exact exactA next v inputA (same ▸ operand.value)
      · rename_i other
        obtain ⟨n, rfl⟩ := (folded_truncated truncated folded).resolve_left other
        exact ⟨_, next, rfl, le_rfl, .intImm (operand.literal n rfl).1 operand.toInteger_literal⟩

theorem visitTruncated_symbolic (other : ¬pass.dtype.IsIndex)
    {visitA visitB : Nat → Option (PrimExpr × Nat)} {r : PrimExpr} {next' : Nat}
    (visited : pass.visitTruncated .mod a b visitA visitB next = some (r, next')) :
    ∀ n, r ≠ .intImm n := by
  have folds : ¬pass.dtype.Folds .mod := fun folds => other (folds (Or.inl rfl))
  rw [visitTruncated, tryConstFold_other folds] at visited
  obtain ⟨⟨x', between⟩, -, rest⟩ := Option.bind_eq_some_iff.mp visited
  obtain ⟨⟨y', last⟩, -, is⟩ := Option.bind_eq_some_iff.mp rest
  cases is
  exact binary_symbolic _ _ _

theorem machineOp_floorDiv {dtype : DataType} {x y v : BitVec dtype.bits} :
    machineOp dtype .floorDiv x y = some v ↔
      Divides dtype.signed x y ∧ floorDiv dtype.signed x y = v := by
  simp only [machineOp, Option.ite_none_right_eq_some, Option.some.injEq]

theorem machineOp_floorMod {dtype : DataType} {x y v : BitVec dtype.bits} :
    machineOp dtype .floorMod x y = some v ↔
      Divides dtype.signed x y ∧ floorMod dtype.signed x y = v := by
  simp only [machineOp, Option.ite_none_right_eq_some, Option.some.injEq]

theorem machineOp_max (positive : 0 < pass.dtype.bits) (divides : Divides pass.dtype.signed x y)
    (divisor : 0 ≤ toInteger pass.dtype.signed y) (nonneg : 0 ≤ toInteger pass.dtype.signed r) :
    machineOp pass.dtype .max (truncDiv pass.dtype.signed x y) r =
      machineOp pass.dtype .max (floorDiv pass.dtype.signed x y) r := by
  have larger : ∀ z, toInteger pass.dtype.signed
      (if toInteger pass.dtype.signed z ≤ toInteger pass.dtype.signed r then r else z) =
        max (toInteger pass.dtype.signed z) (toInteger pass.dtype.signed r) := by
    intro z
    rw [max_def, apply_ite (toInteger pass.dtype.signed)]
  have same := floorDiv_max positive divides divisor nonneg
  rw [← larger, ← larger] at same
  exact congrArg some (toInteger_injective same)

theorem machineOp_test {op : BinOp} (test : op = .eq ∨ op = .ne) (positive : 0 < pass.dtype.bits)
    (divides : Divides pass.dtype.signed x y) :
    machineOp pass.dtype op (truncMod pass.dtype.signed x y) 0#_ =
      machineOp pass.dtype op (floorMod pass.dtype.signed x y) 0#_ := by
  have zero : toInteger pass.dtype.signed (0#(pass.dtype.bits)) = 0 := toInteger_eq_zero.mpr rfl
  have same : toInteger pass.dtype.signed (truncMod pass.dtype.signed x y) = 0 ↔
      toInteger pass.dtype.signed (floorMod pass.dtype.signed x y) = 0 := by
    rw [toInteger_eq_zero, toInteger_eq_zero]
    exact (floorMod_eq_zero_iff positive divides).symm
  rcases test with rfl | rfl
  · simp only [machineOp, zero, same]
  · simp only [machineOp, zero, ne_eq, same]

theorem visitMax_exact (positive : 0 < pass.dtype.bits) (narrow : pass.dtype.bits ≤ 64)
    (sound : pass.SoundAt env) (exactA : pass.Exact env a) (exactB : pass.Exact env b) {c : Int}
    (input : Input pass.dtype next (.binary .max (.binary .floorDiv a b) (.intImm c)))
    (value : machineEval pass.dtype env (.binary .max (.binary .floorDiv a b) (.intImm c)) = some v)
    (nonneg : 0 ≤ c) (proved : pass.canProveNonneg b = true) :
    pass.Produces env next v
      ((pass.visitTruncated .div a b (pass.visitExpr a) (pass.visitExpr b) next).bind fun result =>
        (pass.dtype.make .max result.1 (.intImm c)).bind fun larger => some (larger, result.2)) := by
  obtain ⟨-, ⟨-, inputA, inputB⟩, denotes⟩ := input
  obtain ⟨d, divided, l, literal, largest⟩ := machineEval_binary.mp value
  obtain ⟨x, left, y, right, quotient⟩ := machineEval_binary.mp divided
  obtain ⟨divides, rfl⟩ := machineOp_floorDiv.mp quotient
  cases literal
  have divisor := canProveNonneg_sound sound (inputB.operand right) proved
  have above : 0 ≤ toInteger pass.dtype.signed (BitVec.ofInt pass.dtype.bits c) := by
    rw [denotes.2]
    exact nonneg
  rw [← machineOp_max positive divides divisor above] at largest
  have outcome := outcome_div positive narrow (inputA.operand left) (inputB.operand right) divides
  apply (visitTruncated_exact (Or.inl rfl) outcome (if_pos divides) exactA exactB inputA inputB left
    right).bind
  intro r next' more lowered
  have bound : Lowered pass.dtype env next' (.intImm c) _ := lowered_literal denotes
  obtain ⟨larger, made, result⟩ := (outcome_max lowered.operand bound.operand largest).make lowered
    bound (by decide) largest
  rw [made]
  exact ⟨larger, next', rfl, le_rfl, result⟩

theorem visitTest_exact {op : BinOp} (test : op = .eq ∨ op = .ne) (positive : 0 < pass.dtype.bits)
    (narrow : pass.dtype.bits ≤ 64) (exactA : pass.Exact env a) (exactB : pass.Exact env b)
    (input : Input pass.dtype next (.binary op (.binary .floorMod a b) (.intImm 0)))
    (value : machineEval pass.dtype env (.binary op (.binary .floorMod a b) (.intImm 0)) = some v) :
    pass.Produces env next v
      ((pass.visitTruncated .mod a b (pass.visitExpr a) (pass.visitExpr b) next).bind fun result =>
        (pass.dtype.make op result.1 (.intImm 0)).bind fun test => some (test, result.2)) := by
  have plain : op ≠ .floorDiv ∧ op ≠ .floorMod := by
    rcases test with rfl | rfl <;> decide
  obtain ⟨-, ⟨-, inputA, inputB⟩, denotes⟩ := input
  obtain ⟨d, divided, l, literal, tested⟩ := machineEval_binary.mp value
  obtain ⟨x, left, y, right, remainder⟩ := machineEval_binary.mp divided
  obtain ⟨divides, rfl⟩ := machineOp_floorMod.mp remainder
  cases literal
  have tested : machineOp pass.dtype op (truncMod pass.dtype.signed x y) 0#_ = some v :=
    (machineOp_test test positive divides).trans tested
  have outcome := outcome_mod positive narrow (inputA.operand left) (inputB.operand right) divides
  obtain ⟨r, next', visited, more, lowered⟩ := visitTruncated_exact (Or.inr rfl) outcome
    (if_pos divides) exactA exactB inputA inputB left right
  have fits : pass.dtype.signed = true ∧ pass.dtype.bits = 1 → ∀ n, r ≠ .intImm n := by
    intro one
    have other : ¬pass.dtype.IsIndex := fun index => (index_signed index).2 one.2
    exact visitTruncated_symbolic other visited
  have zero : Lowered pass.dtype env next' (.intImm 0) 0#_ := lowered_literal denotes
  obtain ⟨result, made, exact⟩ := (outcome_test positive narrow lowered.operand test fits
    tested).make lowered zero plain tested
  rw [visited, Option.bind_some, made]
  exact ⟨result, next', rfl, more, exact⟩

theorem binary_exact {op : BinOp} (positive : 0 < pass.dtype.bits) (narrow : pass.dtype.bits ≤ 64)
    (sound : pass.SoundAt env) (exactA : pass.Exact env a) (exactB : pass.Exact env b)
    (inner : ∀ op x y, a = .binary op x y → pass.Exact env x ∧ pass.Exact env y) :
    pass.Exact env (.binary op a b) := by
  intro next v input value
  obtain ⟨x, left, y, right, computes⟩ := machineEval_binary.mp value
  have ⟨_, inputA, inputB⟩ := input
  rw [visitExpr.eq_def]
  split
  · rename_i node
    cases node
    obtain ⟨divides, rfl⟩ := machineOp_floorDiv.mp computes
    apply Exact.both (fun a' b' next => pass.lowerFloorDiv (.binary .floorDiv a b) a' b' next) exactA
      exactB inputA inputB left right
    intro a' b' next' more lowered lowered'
    exact lowerFloorDiv_exact positive narrow sound lowered lowered' divides (input.operand value)
  · rename_i node
    cases node
    obtain ⟨divides, rfl⟩ := machineOp_floorMod.mp computes
    apply Exact.both (fun a' b' next => pass.lowerFloorMod a' b' next) exactA exactB inputA inputB
      left right
    intro a' b' next' more lowered lowered'
    exact lowerFloorMod_exact positive narrow sound lowered lowered' divides
  · rename_i p q c node
    cases node
    have ⟨exactP, exactQ⟩ := inner _ p q rfl
    split
    · rename_i proved
      exact visitMax_exact positive narrow sound exactP exactQ input value proved.1 proved.2
    · apply (exactA _ x inputA left).bind
      intro a' next' more lowered
      cases right
      exact .node (by decide) lowered (lowered_literal inputB) computes
  · rename_i op' p q c noDiv noMod node
    cases node
    have ⟨exactP, exactQ⟩ := inner _ p q rfl
    split
    · rename_i test
      obtain ⟨test, rfl⟩ := test
      exact visitTest_exact test positive narrow exactP exactQ input value
    · apply (exactA _ x inputA left).bind
      intro a' next' more lowered
      cases right
      exact .node ⟨noDiv, noMod⟩ lowered (lowered_literal inputB) computes
  · rename_i op' a' b' noDiv noMod noMax noTest node
    cases node
    apply Exact.both (fun a' b' next => some (.binary op a' b', next)) exactA exactB inputA inputB left
      right
    intro a' b' next' more lowered lowered'
    exact .node ⟨noDiv, noMod⟩ lowered lowered' computes
  · rename_i node
    cases node
  · rename_i other _
    exact absurd rfl (other op a b)

theorem exact_and_inner (positive : 0 < pass.dtype.bits) (narrow : pass.dtype.bits ≤ 64)
    (sound : pass.SoundAt env) (e : PrimExpr) :
    pass.Exact env e ∧
      ∀ op x y, e = .binary op x y → pass.Exact env x ∧ pass.Exact env y := by
  induction e with
  | var u =>
    refine ⟨?_, fun op x y is => nomatch is⟩
    intro next v input value
    cases value
    exact ⟨_, next, rfl, le_rfl, (Computes.var input rfl).lowered fun n is => nomatch is⟩
  | intImm n =>
    refine ⟨?_, fun op x y is => nomatch is⟩
    intro next v input value
    cases value
    exact ⟨_, next, rfl, le_rfl, lowered_literal input⟩
  | binary op a b left right =>
    refine ⟨binary_exact positive narrow sound left.1 right.1 left.2, ?_⟩
    rintro op x y ⟨⟩
    exact ⟨left.1, right.1⟩
  | not a ih =>
    refine ⟨?_, fun op x y is => nomatch is⟩
    intro next v input value
    obtain ⟨x, here, rfl⟩ := Option.map_eq_some_iff.mp value
    apply (ih.1 next x input here).bind
    intro a' next' more lowered
    refine ⟨_, next', rfl, le_rfl, ⟨⟨lowered.vars, lowered.floorFree, ?_⟩, fun n is => nomatch is⟩⟩
    exact Option.map_eq_some_iff.mpr ⟨x, lowered.value, rfl⟩
  | _ => exact ⟨fun next v input => absurd input id, fun op x y is => nomatch is⟩

/-- Lowering does not change the value of an expression, and leaves no operator that rounds down. -/
theorem visitExpr_exact (positive : 0 < pass.dtype.bits) (narrow : pass.dtype.bits ≤ 64)
    (sound : pass.SoundAt env) (input : Input pass.dtype next e)
    (value : machineEval pass.dtype env e = some v) :
    ∃ r next', pass.visitExpr e next = some (r, next') ∧ FloorFree r ∧
      machineEval pass.dtype env r = some v := by
  obtain ⟨r, next', visited, -, lowered⟩ :=
    (exact_and_inner positive narrow sound e).1 next v input value
  exact ⟨r, next', visited, lowered.floorFree, lowered.value⟩

/-- `-7` by `2` in eight bits, neither of a known sign. -/
theorem visitExpr_exact_unknown :
    let pass : IntrinInjecter := ⟨⟨true, 8⟩, fun _ => false⟩
    let env : Var → BitVec 8 := fun u => if u = 0 then -7#8 else 2#8
    ∃ r next', pass.visitExpr (.binary .floorDiv (.var 0) (.var 1)) 2 = some (r, next') ∧
      FloorFree r ∧ machineEval pass.dtype env r = some (-4#8) := by
  intro pass env
  have sound : pass.SoundAt env := fun _ _ proved => nomatch proved
  have input : Input pass.dtype 2 (.binary .floorDiv (.var 0) (.var 1)) :=
    ⟨by decide, Nat.zero_lt_two, Nat.one_lt_two⟩
  exact visitExpr_exact (by decide) (by decide) sound input (by decide +kernel)

end IntrinInjecter

end Tvm.Tir
