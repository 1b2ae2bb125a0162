import Tvm.Arith.ConstFold

/-!
# Patterns

The pattern language of `pattern_match.h` as data.  `matchExpr` is `Match`, `eval` is `Eval`,
and `denote` is what a pattern says of the values of its variables.
-/

namespace Tvm.Arith

inductive PVar where
  | x | y | z | b1 | b2 | s1 | s2
  deriving DecidableEq, Repr

inductive CVar where
  | c1 | c2 | c3
  deriving DecidableEq, Repr

abbrev Consts := CVar → Int

namespace Consts

abbrev c1 (consts : Consts) : Int := consts .c1

abbrev c2 (consts : Consts) : Int := consts .c2

abbrev c3 (consts : Consts) : Int := consts .c3

end Consts

/-- `const` is a literal that the code computes from the matched literals. -/
inductive Pat where
  | var (v : PVar)
  | imm (c : CVar)
  | lit (value : Int)
  | const (compute : Consts → Int)
  | binary (op : BinOp) (a b : Pat)
  | not (a : Pat)
  | select (condition trueValue falseValue : Pat)

structure Bindings where
  exprs : PVar → Option PrimExpr
  imms : CVar → Option Int

namespace Bindings

def empty : Bindings :=
  ⟨fun _ => none, fun _ => none⟩

def consts (bindings : Bindings) : Consts :=
  fun c => (bindings.imms c).getD 0

def values (interp : Nat → Env → Option Int) (env : Env) (bindings : Bindings) :
    PVar → Option Int :=
  fun v => (bindings.exprs v).bind (PrimExpr.eval interp env)

/-- Every variable bound by the first is bound to the same by the second. -/
structure Le (first second : Bindings) : Prop where
  exprs : ∀ v e, first.exprs v = some e → second.exprs v = some e
  imms : ∀ c n, first.imms c = some n → second.imms c = some n

theorem Le.refl (bindings : Bindings) : Le bindings bindings :=
  ⟨fun _ _ bound => bound, fun _ _ bound => bound⟩

theorem Le.trans {first second third : Bindings} (left : Le first second)
    (right : Le second third) : Le first third :=
  ⟨fun v e bound => right.exprs v e (left.exprs v e bound),
    fun c n bound => right.imms c n (left.imms c n bound)⟩

end Bindings

namespace Pat

/-- A variable that is bound already matches an equal expression only. -/
def matchExpr : Pat → PrimExpr → Bindings → Option Bindings
  | .var v, e, bindings =>
    match bindings.exprs v with
    | none => some { bindings with exprs := Function.update bindings.exprs v (some e) }
    | some bound => if bound = e then some bindings else none
  | .imm c, .intImm n, bindings =>
    match bindings.imms c with
    | none => some { bindings with imms := Function.update bindings.imms c (some n) }
    | some bound => if bound = n then some bindings else none
  | .lit value, .intImm n, bindings => if value = n then some bindings else none
  | .binary op p q, .binary op' a b, bindings =>
    if op = op' then (matchExpr p a bindings).bind (matchExpr q b) else none
  | .not p, .not a, bindings => matchExpr p a bindings
  | .select p q r, .select a b c, bindings =>
    (matchExpr p a bindings).bind fun bindings => (matchExpr q b bindings).bind (matchExpr r c)
  | _, _, _ => none

/-- `Eval`: binary operators go through constant folding. -/
def eval (bindings : Bindings) : Pat → Option PrimExpr
  | .var v => bindings.exprs v
  | .imm c => (bindings.imms c).map PrimExpr.intImm
  | .lit value => some (.intImm value)
  | .const compute => some (.intImm (compute bindings.consts))
  | .binary op p q => (eval bindings p).bind fun a => (eval bindings q).bind (makeBinary op a)
  | .not p => (eval bindings p).map PrimExpr.not
  | .select p q r => (eval bindings p).bind fun a => (eval bindings q).bind fun b =>
    (eval bindings r).map (PrimExpr.select a b)

def denote (values : PVar → Option Int) (consts : Consts) : Pat → Option Int
  | .var v => values v
  | .imm c => some (consts c)
  | .lit value => some value
  | .const compute => some (compute consts)
  | .binary op p q =>
    (denote values consts p).bind fun x => (denote values consts q).bind (op.eval x)
  | .not p => (denote values consts p).map fun x => truth (x = 0)
  | .select p q r =>
    (denote values consts p).bind fun chosen =>
      if chosen ≠ 0 then denote values consts q else denote values consts r

variable {interp : Nat → Env → Option Int} {env : Env}

theorem matchExpr_le {p : Pat} {e : PrimExpr} {first second : Bindings}
    (matched : p.matchExpr e first = some second) : first.Le second := by
  induction p generalizing e first second with
  | var v =>
    rw [matchExpr] at matched
    split at matched
    · rename_i unbound
      cases matched
      refine ⟨fun w bound found => ?_, fun _ _ bound => bound⟩
      by_cases same : w = v
      · rw [same, unbound] at found
        cases found
      · simpa only [Function.update_of_ne same] using found
    · split at matched
      · cases matched
        exact Bindings.Le.refl _
      · cases matched
  | imm c =>
    cases e <;> simp only [matchExpr, reduceCtorEq] at matched
    split at matched
    · rename_i unbound
      cases matched
      refine ⟨fun _ _ bound => bound, fun d bound found => ?_⟩
      by_cases same : d = c
      · rw [same, unbound] at found
        cases found
      · simpa only [Function.update_of_ne same] using found
    · split at matched
      · cases matched
        exact Bindings.Le.refl _
      · cases matched
  | lit value =>
    cases e <;> simp only [matchExpr, reduceCtorEq] at matched
    split at matched
    · cases matched
      exact Bindings.Le.refl _
    · cases matched
  | const compute => cases e <;> cases matched
  | binary op p q leftHypothesis rightHypothesis =>
    cases e <;> simp only [matchExpr, reduceCtorEq] at matched
    split at matched
    · obtain ⟨middle, first, second⟩ := Option.bind_eq_some_iff.mp matched
      exact (leftHypothesis first).trans (rightHypothesis second)
    · cases matched
  | not p ih =>
    cases e <;> simp only [matchExpr, reduceCtorEq] at matched
    exact ih matched
  | select p q r conditionHypothesis trueHypothesis falseHypothesis =>
    cases e <;> simp only [matchExpr, reduceCtorEq, Option.bind_eq_some_iff] at matched
    obtain ⟨_, first, _, second, third⟩ := matched
    exact (conditionHypothesis first).trans
      ((trueHypothesis second).trans (falseHypothesis third))

theorem denote_of_matchExpr {p : Pat} {e : PrimExpr} {first second final : Bindings}
    (matched : p.matchExpr e first = some second) (extended : second.Le final) :
    p.denote (final.values interp env) final.consts = e.eval interp env := by
  induction p generalizing e first second with
  | var v =>
    have bound : second.exprs v = some e := by
      rw [matchExpr] at matched
      split at matched
      · cases matched
        exact Function.update_self _ _ _
      · rename_i found _
        split at matched
        · rename_i same
          cases matched
          rwa [← same]
        · cases matched
    rw [denote, Bindings.values, extended.exprs v e bound, Option.bind_some]
  | imm c =>
    cases e <;> simp only [matchExpr, reduceCtorEq] at matched
    rename_i n
    have bound : second.imms c = some n := by
      split at matched
      · cases matched
        exact Function.update_self _ _ _
      · rename_i found _
        split at matched
        · rename_i same
          cases matched
          rwa [← same]
        · cases matched
    rw [denote, Bindings.consts, extended.imms c n bound, Option.getD_some, PrimExpr.eval]
  | lit value =>
    cases e <;> simp only [matchExpr, reduceCtorEq] at matched
    split at matched
    · rename_i same
      rw [same, denote, PrimExpr.eval]
    · cases matched
  | const compute => cases e <;> cases matched
  | binary op p q leftHypothesis rightHypothesis =>
    cases e <;> simp only [matchExpr, reduceCtorEq] at matched
    split at matched
    · rename_i same
      obtain ⟨middle, left, right⟩ := Option.bind_eq_some_iff.mp matched
      rw [denote, PrimExpr.eval, same, leftHypothesis left ((matchExpr_le right).trans extended),
        rightHypothesis right extended]
    · cases matched
  | not p ih =>
    cases e <;> simp only [matchExpr, reduceCtorEq] at matched
    rw [denote, PrimExpr.eval, ih matched extended]
  | select p q r conditionHypothesis trueHypothesis falseHypothesis =>
    cases e <;> simp only [matchExpr, reduceCtorEq, Option.bind_eq_some_iff] at matched
    obtain ⟨_, first, _, second, third⟩ := matched
    have later := (matchExpr_le third).trans extended
    rw [denote, PrimExpr.eval, conditionHypothesis first ((matchExpr_le second).trans later),
      trueHypothesis second later, falseHypothesis third extended]

def literal : Pat → Bool
  | .imm _ | .lit _ | .const _ => true
  | .binary op p q => op.computes && literal p && literal q
  | _ => false

/-- The operators of the expressions that a pattern matches are allowed. -/
def opsAllowed (allowed : BinOp → Bool) : Pat → Bool
  | .binary op p q => allowed op && opsAllowed allowed p && opsAllowed allowed q
  | .not p => opsAllowed allowed p
  | .select p q r => opsAllowed allowed p && opsAllowed allowed q && opsAllowed allowed r
  | _ => true

/-- The expressions that a pattern builds from bindings of the right sorts have a sort. -/
def wellSorted (allowed : BinOp → Bool) : ExprSort → Pat → Bool
  | _, .var _ => true
  | .int, .imm _ => true
  | .int, .lit _ => true
  | .bool, .lit value => value == 0 || value == 1
  | .int, .const _ => true
  | sort, .binary op p q =>
    op.resultSort == sort &&
      (op.computes && literal p && literal q ||
        allowed op && wellSorted allowed op.operandSort p && wellSorted allowed op.operandSort q)
  | .bool, .not p => wellSorted allowed .bool p
  | sort, .select p q r =>
    wellSorted allowed .bool p && wellSorted allowed sort q && wellSorted allowed sort r
  | _, _ => false

/-- The variables of a pattern with the sorts of the places where they stand. -/
def occurs : ExprSort → Pat → List (PVar × ExprSort)
  | sort, .var v => [(v, sort)]
  | _, .binary op p q => occurs op.operandSort p ++ occurs op.operandSort q
  | _, .not p => occurs .bool p
  | sort, .select p q r => occurs .bool p ++ occurs sort q ++ occurs sort r
  | _, _ => []

def Bound (allowed : BinOp → Bool) (bindings : Bindings) (occurrences : List (PVar × ExprSort)) :
    Prop :=
  ∀ v sort, (v, sort) ∈ occurrences →
    ∃ e, bindings.exprs v = some e ∧ WellSorted allowed sort e = true

variable {allowed : BinOp → Bool} {bindings : Bindings} {sort : ExprSort}

theorem Bound.append {first second : List (PVar × ExprSort)} :
    Bound allowed bindings (first ++ second) ↔
      Bound allowed bindings first ∧ Bound allowed bindings second := by
  simp only [Bound, List.mem_append]
  constructor
  · intro bound
    exact ⟨fun v sort member => bound v sort (Or.inl member),
      fun v sort member => bound v sort (Or.inr member)⟩
  · rintro ⟨left, right⟩ v sort (member | member)
    · exact left v sort member
    · exact right v sort member

theorem Bound.mono {first second : Bindings} {occurrences : List (PVar × ExprSort)}
    (bound : Bound allowed first occurrences) (extended : first.Le second) :
    Bound allowed second occurrences := by
  intro v sort member
  obtain ⟨e, found, sorted⟩ := bound v sort member
  exact ⟨e, extended.exprs v e found, sorted⟩

/-- A match of an expression of some sort binds variables to expressions of the sorts of their
places, and the pattern has allowed operators only. -/
theorem bound_of_matchExpr {p : Pat} {e : PrimExpr} {first second : Bindings}
    (sorted : WellSorted allowed sort e = true)
    (matched : p.matchExpr e first = some second) :
    Bound allowed second (p.occurs sort) ∧ p.opsAllowed allowed = true := by
  induction p generalizing e first second sort with
  | var v =>
    refine ⟨?_, rfl⟩
    intro w found member
    simp only [occurs, List.mem_singleton, Prod.mk.injEq] at member
    obtain ⟨rfl, rfl⟩ := member
    rw [matchExpr] at matched
    split at matched
    · cases matched
      exact ⟨e, Function.update_self _ _ _, sorted⟩
    · rename_i bound isBound
      split at matched
      · rename_i same
        cases matched
        exact ⟨e, same ▸ isBound, sorted⟩
      · cases matched
  | imm | lit | const =>
    refine ⟨?_, rfl⟩
    intro v found member
    cases member
  | binary op p q leftHypothesis rightHypothesis =>
    cases e <;> simp only [matchExpr, reduceCtorEq] at matched
    split at matched
    · rename_i same
      obtain ⟨middle, left, right⟩ := Option.bind_eq_some_iff.mp matched
      simp only [WellSorted, Bool.and_eq_true, ← same] at sorted
      obtain ⟨leftBound, leftAllowed⟩ := leftHypothesis sorted.1.2 left
      obtain ⟨rightBound, rightAllowed⟩ := rightHypothesis sorted.2 right
      refine ⟨Bound.append.mpr ⟨leftBound.mono (matchExpr_le right), rightBound⟩, ?_⟩
      simp only [opsAllowed, sorted.1.1.1, leftAllowed, rightAllowed, Bool.and_self]
    · cases matched
  | not p ih =>
    cases e <;> simp only [matchExpr, reduceCtorEq] at matched
    cases sort with
    | int => cases sorted
    | bool =>
      rw [WellSorted] at sorted
      exact ih sorted matched
  | select p q r conditionHypothesis trueHypothesis falseHypothesis =>
    cases e <;> simp only [matchExpr, reduceCtorEq, Option.bind_eq_some_iff] at matched
    obtain ⟨_, first, _, second, third⟩ := matched
    simp only [WellSorted, Bool.and_eq_true] at sorted
    obtain ⟨conditionBound, conditionAllowed⟩ := conditionHypothesis sorted.1.1 first
    obtain ⟨trueBound, trueAllowed⟩ := trueHypothesis sorted.1.2 second
    obtain ⟨falseBound, falseAllowed⟩ := falseHypothesis sorted.2 third
    refine ⟨Bound.append.mpr ⟨Bound.append.mpr
      ⟨conditionBound.mono ((matchExpr_le second).trans (matchExpr_le third)),
        trueBound.mono (matchExpr_le third)⟩, falseBound⟩, ?_⟩
    simp only [opsAllowed, conditionAllowed, trueAllowed, falseAllowed, Bool.and_self]

theorem eval_literal {p : Pat} {e : PrimExpr} (isLiteral : p.literal = true)
    (built : p.eval bindings = some e) :
    ∃ n, e = .intImm n ∧
      (∀ values v, p.denote values bindings.consts = some v → v = n) := by
  induction p generalizing e with
  | imm c =>
    obtain ⟨n, found, rfl⟩ := Option.map_eq_some_iff.mp built
    refine ⟨n, rfl, fun values v denotes => ?_⟩
    simp only [denote, Bindings.consts, found, Option.getD_some, Option.some.injEq] at denotes
    exact denotes.symm
  | lit value =>
    cases built
    exact ⟨value, rfl, fun values v denotes => (Option.some.inj denotes).symm⟩
  | const compute =>
    cases built
    exact ⟨_, rfl, fun values v denotes => (Option.some.inj denotes).symm⟩
  | binary op p q leftHypothesis rightHypothesis =>
    simp only [literal, Bool.and_eq_true] at isLiteral
    simp only [eval, Option.bind_eq_some_iff] at built
    obtain ⟨a, left, b, right, made⟩ := built
    obtain ⟨m, rfl, leftValue⟩ := leftHypothesis isLiteral.1.2 left
    obtain ⟨n, rfl, rightValue⟩ := rightHypothesis isLiteral.2 right
    obtain ⟨result, evaluates, rfl⟩ := makeBinary_literals made isLiteral.1.1
    refine ⟨result, rfl, fun values v denotes => ?_⟩
    simp only [denote, Option.bind_eq_some_iff] at denotes
    obtain ⟨x, xIs, y, yIs, denotes⟩ := denotes
    rw [leftValue values x xIs, rightValue values y yIs, evaluates] at denotes
    exact (Option.some.inj denotes).symm
  | var | not | select => cases isLiteral

theorem eval_sound {p : Pat} {e : PrimExpr} (sorted : p.wellSorted allowed sort = true)
    (bound : Bound allowed bindings (p.occurs sort)) (built : p.eval bindings = some e) :
    WellSorted allowed sort e = true ∧
      ∀ v, p.denote (bindings.values interp env) bindings.consts = some v →
        e.eval interp env = some v := by
  induction p generalizing e sort with
  | var w =>
    obtain ⟨found, isBound, foundSorted⟩ := bound w sort (List.mem_singleton_self _)
    rw [eval, isBound] at built
    cases built
    refine ⟨foundSorted, fun v denotes => ?_⟩
    rwa [denote, Bindings.values, isBound, Option.bind_some] at denotes
  | imm c =>
    cases sort with
    | bool => cases sorted
    | int =>
      obtain ⟨n, rfl, value⟩ := eval_literal rfl built
      exact ⟨rfl, fun v denotes => congrArg some (value _ v denotes).symm⟩
  | lit value =>
    obtain ⟨n, rfl, valueIs⟩ := eval_literal rfl built
    cases built
    refine ⟨?_, fun v denotes => congrArg some (valueIs _ v denotes).symm⟩
    cases sort with
    | int => rfl
    | bool => exact sorted
  | const compute =>
    cases sort with
    | bool => cases sorted
    | int =>
      obtain ⟨n, rfl, value⟩ := eval_literal rfl built
      exact ⟨rfl, fun v denotes => congrArg some (value _ v denotes).symm⟩
  | binary op p q leftHypothesis rightHypothesis =>
    have whole := built
    simp only [eval, Option.bind_eq_some_iff] at built
    obtain ⟨a, left, b, right, made⟩ := built
    simp only [wellSorted, Bool.and_eq_true, Bool.or_eq_true, beq_iff_eq] at sorted
    obtain ⟨rfl, ⟨⟨computes, leftLiteral⟩, rightLiteral⟩ | ⟨⟨permitted, leftSorted⟩, rightSorted⟩⟩ :=
      sorted
    · have isLiteral : (Pat.binary op p q).literal = true := by
        simp only [literal, computes, leftLiteral, rightLiteral, Bool.and_self]
      obtain ⟨n, rfl, value⟩ := eval_literal isLiteral whole
      refine ⟨?_, fun v denotes => congrArg some (value _ v denotes).symm⟩
      obtain ⟨k, rfl, -⟩ := eval_literal leftLiteral left
      obtain ⟨l, rfl, -⟩ := eval_literal rightLiteral right
      obtain ⟨result, evaluates, resultIs⟩ := makeBinary_literals made computes
      rw [resultIs]
      exact BinOp.eval_sorted evaluates
    · obtain ⟨leftBound, rightBound⟩ := Bound.append.mp bound
      obtain ⟨aSorted, aValue⟩ := leftHypothesis leftSorted leftBound left
      obtain ⟨bSorted, bValue⟩ := rightHypothesis rightSorted rightBound right
      refine ⟨makeBinary_sorted made permitted aSorted bSorted, fun v denotes => ?_⟩
      simp only [denote, Option.bind_eq_some_iff] at denotes
      obtain ⟨x, xIs, y, yIs, evaluates⟩ := denotes
      refine makeBinary_sound made (aValue x xIs) (bValue y yIs) ?_ evaluates
      intro logical
      rw [logical] at aSorted bSorted
      exact ⟨eval_truth aSorted (aValue x xIs), eval_truth bSorted (bValue y yIs)⟩
  | not p ih =>
    cases sort with
    | int => cases sorted
    | bool =>
      obtain ⟨a, operand, rfl⟩ := Option.map_eq_some_iff.mp built
      obtain ⟨aSorted, aValue⟩ := ih sorted bound operand
      refine ⟨aSorted, fun v denotes => ?_⟩
      obtain ⟨x, xIs, rfl⟩ := Option.map_eq_some_iff.mp denotes
      rw [PrimExpr.eval, aValue x xIs, Option.map_some]
  | select p q r conditionHypothesis trueHypothesis falseHypothesis =>
    simp only [eval, Option.bind_eq_some_iff, Option.map_eq_some_iff] at built
    obtain ⟨a, first, b, second, c, third, rfl⟩ := built
    simp only [wellSorted, Bool.and_eq_true] at sorted
    obtain ⟨outer, falseBound⟩ := Bound.append.mp bound
    obtain ⟨conditionBound, trueBound⟩ := Bound.append.mp outer
    obtain ⟨aSorted, aValue⟩ := conditionHypothesis sorted.1.1 conditionBound first
    obtain ⟨bSorted, bValue⟩ := trueHypothesis sorted.1.2 trueBound second
    obtain ⟨cSorted, cValue⟩ := falseHypothesis sorted.2 falseBound third
    refine ⟨by simp only [WellSorted, aSorted, bSorted, cSorted, Bool.and_self],
      fun v denotes => ?_⟩
    obtain ⟨chosen, chosenIs, denotes⟩ := Option.bind_eq_some_iff.mp denotes
    rw [PrimExpr.eval, aValue chosen chosenIs, Option.bind_some]
    split at denotes
    · rw [if_pos ‹_›]
      exact bValue v denotes
    · rw [if_neg ‹_›]
      exact cValue v denotes

theorem eval_sorted {p : Pat} {e : PrimExpr} (sorted : p.wellSorted allowed sort = true)
    (bound : Bound allowed bindings (p.occurs sort)) (built : p.eval bindings = some e) :
    WellSorted allowed sort e = true := by
  have found : WellSorted allowed sort e = true ∧ ∀ v,
      p.denote (bindings.values (fun _ _ => none) fun _ => 0) bindings.consts = some v →
        e.eval (fun _ _ => none) (fun _ => 0) = some v :=
    eval_sound sorted bound built
  exact found.1

end Pat

end Tvm.Arith
