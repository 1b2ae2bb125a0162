import Mathlib
import Tvm.Arith.Terms

/-!
# Merging quotients with remainders

`MergeMulMod` of `buffer.cc` over mathematical integers.  Each merge leaves fewer nodes, so that the
search over the two lists ends, and keeps the sum of what is in them.  `none` is the remainder by a
literal zero.
-/

namespace Tvm.Tir

open Arith PrimExpr

/-- `Simplify` and `CanProveEqual` of the analyzer. -/
structure IndexAnalyzer where
  simplify : PrimExpr → PrimExpr
  canProveEqual : PrimExpr → PrimExpr → Bool

/-- The answers are right: a simplification keeps the value, equality is only proved of equal
values. -/
structure IndexAnalyzer.Sound (analyzer : IndexAnalyzer) : Prop where
  simplifies : ∀ e interp env v, e.eval interp env = some v →
    (analyzer.simplify e).eval interp env = some v
  proves : ∀ a b, analyzer.canProveEqual a b = true → ∀ interp env x y,
    a.eval interp env = some x → b.eval interp env = some y → x = y

def exprSplitAddition : PrimExpr → List PrimExpr
  | .binary .add a b => exprSplitAddition a ++ exprSplitAddition b
  | e => [e]

/-- The sum, where `no_opt_sum` may not be there yet. -/
def addTo (noOptSum : Option PrimExpr) (e : PrimExpr) : PrimExpr :=
  match noOptSum with
  | some sum => make .add sum e
  | none => e

def outerMultiplier : PrimExpr → PrimExpr → PrimExpr × PrimExpr
  | .binary .mul a b, multOuter => outerMultiplier a (make .mul b multOuter)
  | inner, multOuter => (inner, multOuter)

/-- The inner factor times the outer one, where there is an inner factor. -/
def overallMult (multInner : Option PrimExpr) (multOuter : PrimExpr) : PrimExpr :=
  match multInner with
  | some factor => make .mul factor multOuter
  | none => multOuter

def innerMult (b : PrimExpr) (multInner : Option PrimExpr) : PrimExpr :=
  match multInner with
  | some factor => make .mul b factor
  | none => b

/-- The search for `c / (...)` below sums and products. -/
def searchQuotient (analyzer : IndexAnalyzer) (modL modR multOuter : PrimExpr) :
    PrimExpr → Option PrimExpr → Option PrimExpr → Option (Option PrimExpr)
  | .binary .floorDiv a b, multInner, noOptSum =>
    if overallMult multInner multOuter = b ∧ overallMult multInner multOuter = modR then do
      let remainder ← makeBinary .floorMod (make .sub a modL) modR
      if analyzer.canProveEqual remainder (.intImm 0) then
        match noOptSum with
        | some sum => some (some (make .add (make .mul sum multOuter) a))
        | none => some (some a)
      else some none
    else some none
  | .binary .mul a b, multInner, noOptSum =>
    searchQuotient analyzer modL modR multOuter a (some (innerMult b multInner)) noOptSum
  | .binary .add a b, none, noOptSum =>
    searchQuotient analyzer modL modR multOuter b none (some (addTo noOptSum a))
  | _, _, _ => some none

def mergeMulModInner (analyzer : IndexAnalyzer) (multExpr modL modR : PrimExpr) :
    Option (Option PrimExpr) :=
  match multExpr with
  | .binary .mul a b =>
    searchQuotient analyzer modL modR (outerMultiplier a b).2 (outerMultiplier a b).1 none none
  | _ => some none

/-- The lists of `MergeMulMod`; `passed` are the elements of `mod_exprs` before `search_mod_it`. -/
structure Merging where
  passed : List (PrimExpr × PrimExpr)
  ahead : List (PrimExpr × PrimExpr)
  multExprs : List PrimExpr
  noOptSum : Option PrimExpr
  findOpt : Bool

def modOperands : PrimExpr → Option (PrimExpr × PrimExpr)
  | .binary .floorMod a b => some (a, b)
  | _ => none

def isMult : PrimExpr → Bool
  | .binary .mul _ _ => true
  | _ => false

def isOther (e : PrimExpr) : Bool :=
  !isMult e && (modOperands e).isNone

def addAll (noOptSum : Option PrimExpr) (eles : List PrimExpr) : Option PrimExpr :=
  eles.foldl (fun sum e => some (addTo sum e)) noOptSum

/-- The first multiplication that merges with the remainder, and the others. -/
def findMult (analyzer : IndexAnalyzer) (modL modR : PrimExpr) :
    List PrimExpr → Option (Option (PrimExpr × List PrimExpr))
  | [] => some none
  | multExpr :: rest =>
    match mergeMulModInner analyzer multExpr modL modR with
    | none => none
    | some (some ret) => some (some (ret, rest))
    | some none =>
      match findMult analyzer modL modR rest with
      | none => none
      | some none => some none
      | some (some (ret, others)) => some (some (ret, multExpr :: others))

/-- Where the iterator is put once new remainders are pushed back: at the start where there are new
multiplications, else back from the end. -/
def putIterator (passed rest mods : List (PrimExpr × PrimExpr)) (hasMult : Bool) :
    List (PrimExpr × PrimExpr) × List (PrimExpr × PrimExpr) :=
  if hasMult then ([], passed ++ (rest ++ mods))
  else if rest = [] then (passed ++ mods.dropLast, mods.getLast?.toList)
  else (passed, rest ++ mods)

/-- What a merge leaves: the elements of the result are pushed back. -/
def Merging.push (state : Merging) (rest : List (PrimExpr × PrimExpr)) (others : List PrimExpr)
    (ret : PrimExpr) : Merging :=
  let eles := exprSplitAddition ret
  let iterator := putIterator state.passed rest (eles.filterMap modOperands) (eles.any isMult)
  ⟨iterator.1, iterator.2, others ++ eles.filter isMult,
    addAll state.noOptSum (eles.filter isOther), true⟩

def Merging.advance (analyzer : IndexAnalyzer) (state : Merging) (operands : PrimExpr × PrimExpr)
    (rest : List (PrimExpr × PrimExpr)) : Option Merging :=
  (findMult analyzer operands.1 operands.2 state.multExprs).map fun
    | some (ret, others) => state.push rest others ret
    | none => { state with passed := state.passed ++ [operands], ahead := rest }

def nodes : PrimExpr → Nat
  | .binary _ a b => nodes a + nodes b + 1
  | .not a => nodes a + 1
  | .select condition trueValue falseValue =>
    nodes condition + nodes trueValue + nodes falseValue + 1
  | .letIn _ value body => nodes value + nodes body + 1
  | .cast value => nodes value + 1
  | .var _ | .intImm _ | .other _ => 1

def modNodes (mods : List (PrimExpr × PrimExpr)) : Nat :=
  (mods.map fun operands => nodes operands.1 + nodes operands.2 + 1).sum

def Merging.nodes (state : Merging) : Nat :=
  modNodes state.passed + modNodes state.ahead + (state.multExprs.map Tir.nodes).sum

section Nodes

variable {analyzer : IndexAnalyzer} {a b e modL modR multOuter ret : PrimExpr}
  {multInner noOptSum : Option PrimExpr} {op : BinOp}

theorem nodes_pos (e : PrimExpr) : 0 < nodes e := by
  cases e <;> simp only [nodes, Nat.succ_pos]

theorem nodes_make (op : BinOp) (a b : PrimExpr) : nodes (make op a b) ≤ nodes a + nodes b + 1 := by
  rw [make]
  cases made : makeBinary op a b with
  | none => exact le_rfl
  | some r =>
    rw [Option.getD_some]
    rcases makeBinary_cases made with rfl | rfl | ⟨n, rfl⟩ | rfl
    · omega
    · omega
    · rw [nodes]
      omega
    · exact le_rfl

/-- The nodes of an expression that may not be there, with the operation that takes it. -/
def optionNodes : Option PrimExpr → Nat
  | some e => nodes e + 1
  | none => 0

theorem nodes_addTo (noOptSum : Option PrimExpr) (e : PrimExpr) :
    nodes (addTo noOptSum e) ≤ nodes e + optionNodes noOptSum := by
  cases noOptSum with
  | none => exact le_rfl
  | some sum =>
    have bound := nodes_make .add sum e
    rw [addTo, optionNodes]
    omega

theorem nodes_searchQuotient {e : PrimExpr} {multInner noOptSum : Option PrimExpr}
    (found : searchQuotient analyzer modL modR multOuter e multInner noOptSum = some (some ret)) :
    nodes ret ≤ nodes e + optionNodes noOptSum + nodes multOuter := by
  fun_induction searchQuotient analyzer modL modR multOuter e multInner noOptSum with
  | case1 a b multInner noOptSum same =>
    obtain ⟨remainder, _, found⟩ := Option.bind_eq_some_iff.mp found
    split at found
    · split at found
      · rename_i sum _
        cases found
        have product := nodes_make .mul sum multOuter
        have total := nodes_make .add (make .mul sum multOuter) a
        have positive := nodes_pos b
        rw [nodes, optionNodes]
        omega
      · cases found
        rw [nodes]
        omega
    · cases found
  | case2 a b multInner noOptSum different => cases found
  | case3 a b multInner noOptSum ih =>
    have bound := ih found
    rw [nodes]
    omega
  | case4 a b noOptSum ih =>
    have bound := ih found
    have added := nodes_addTo noOptSum a
    rw [optionNodes] at bound
    rw [nodes]
    omega
  | case5 => cases found

theorem nodes_outerMultiplier (a b : PrimExpr) :
    nodes (outerMultiplier a b).1 + nodes (outerMultiplier a b).2 ≤ nodes a + nodes b := by
  fun_induction outerMultiplier a b with
  | case1 a b outer ih =>
    have made := nodes_make .mul b outer
    rw [nodes]
    omega
  | case2 => exact le_rfl

theorem nodes_mergeMulModInner {multExpr : PrimExpr}
    (found : mergeMulModInner analyzer multExpr modL modR = some (some ret)) :
    nodes ret < nodes multExpr := by
  rw [mergeMulModInner.eq_def] at found
  split at found
  · rename_i a b
    have bound := nodes_searchQuotient found
    have spine := nodes_outerMultiplier a b
    rw [optionNodes] at bound
    rw [nodes]
    omega
  · cases found

theorem nodes_findMult {multExprs others : List PrimExpr}
    (found : findMult analyzer modL modR multExprs = some (some (ret, others))) :
    nodes ret + (others.map nodes).sum < (multExprs.map nodes).sum := by
  induction multExprs generalizing others with
  | nil => cases found
  | cons multExpr rest ih =>
    rw [findMult.eq_def] at found
    simp only at found
    rw [List.map_cons, List.sum_cons]
    split at found
    · cases found
    · rename_i merged
      cases found
      have bound := nodes_mergeMulModInner merged
      omega
    · split at found
      · cases found
      · cases found
      · rename_i later
        cases found
        have bound := ih later
        rw [List.map_cons, List.sum_cons]
        omega

theorem nodes_splitAddition (e : PrimExpr) :
    modNodes ((exprSplitAddition e).filterMap modOperands) +
      (((exprSplitAddition e).filter isMult).map nodes).sum ≤ nodes e := by
  fun_induction exprSplitAddition e with
  | case1 a b left right =>
    rw [List.filterMap_append, List.filter_append, List.map_append, List.sum_append, modNodes,
      List.map_append, List.sum_append]
    rw [modNodes] at left right
    rw [nodes]
    omega
  | case2 e other =>
    cases e with
    | binary op a b =>
      cases op <;> simp [isMult, modOperands, modNodes, nodes, List.filterMap_cons, List.filter_cons]
    | _ => exact Nat.zero_le _

theorem modNodes_append (first second : List (PrimExpr × PrimExpr)) :
    modNodes (first ++ second) = modNodes first + modNodes second := by
  rw [modNodes, List.map_append, List.sum_append, ← modNodes, ← modNodes]

theorem dropLast_append_getLast (mods : List (PrimExpr × PrimExpr)) :
    mods.dropLast ++ mods.getLast?.toList = mods := by
  cases last : mods.getLast? with
  | none =>
    rw [List.getLast?_eq_none_iff.mp last]
    rfl
  | some operands => exact List.dropLast_append_getLast? operands last

theorem putIterator_append (passed rest mods : List (PrimExpr × PrimExpr)) (hasMult : Bool) :
    (putIterator passed rest mods hasMult).1 ++ (putIterator passed rest mods hasMult).2 =
      passed ++ (rest ++ mods) := by
  rw [putIterator]
  split
  · rfl
  · split
    · rename_i none
      rw [none, List.append_assoc, dropLast_append_getLast]
      rfl
    · rfl

theorem Merging.advance_decreases {state next : Merging} {operands : PrimExpr × PrimExpr}
    {rest : List (PrimExpr × PrimExpr)} (ahead : state.ahead = operands :: rest)
    (advanced : state.advance analyzer operands rest = some next) :
    Prod.Lex (· < ·) (· < ·) (next.nodes, next.ahead.length)
      (state.nodes, state.ahead.length) := by
  obtain ⟨search, found, rfl⟩ := Option.map_eq_some_iff.mp advanced
  cases search with
  | none =>
    have same : modNodes (state.passed ++ [operands]) + modNodes rest =
        modNodes state.passed + modNodes (operands :: rest) := by
      rw [modNodes_append, Nat.add_assoc, ← modNodes_append]
      rfl
    rw [Merging.nodes, Merging.nodes, same, ahead]
    exact Prod.Lex.right _ (Nat.lt_succ_self rest.length)
  | some merged =>
    obtain ⟨ret, others⟩ := merged
    apply Prod.Lex.left
    have smaller := nodes_findMult found
    have pieces := nodes_splitAddition ret
    have kept := congrArg modNodes (putIterator_append state.passed rest
      ((exprSplitAddition ret).filterMap modOperands) ((exprSplitAddition ret).any isMult))
    rw [modNodes_append, modNodes_append, modNodes_append] at kept
    have whole : modNodes (operands :: rest) = modNodes [operands] + modNodes rest :=
      modNodes_append [operands] rest
    simp only [Merging.nodes, Merging.push, ahead, whole, List.map_append, List.sum_append]
    omega

end Nodes

def mergeLoop (analyzer : IndexAnalyzer) (state : Merging) : Option Merging :=
  match _ahead : state.ahead with
  | [] => some state
  | operands :: rest =>
    match _advanced : state.advance analyzer operands rest with
    | none => none
    | some next => mergeLoop analyzer next
termination_by (state.nodes, state.ahead.length)
decreasing_by exact Merging.advance_decreases _ahead _advanced

/-- The match of `floordiv(x, y) * y + floormod(x, y)`. -/
def matchDivMod : PrimExpr → PrimExpr
  | .binary .add (.binary .mul (.binary .floorDiv x y) factor) (.binary .floorMod dividend divisor) =>
    if y = factor ∧ x = dividend ∧ y = divisor then x
    else .binary .add (.binary .mul (.binary .floorDiv x y) factor)
      (.binary .floorMod dividend divisor)
  | e => e

def Merging.start (eles : List PrimExpr) : Merging :=
  ⟨[], eles.filterMap modOperands, eles.filter isMult, addAll none (eles.filter isOther), false⟩

def addRemainders : Option PrimExpr → List (PrimExpr × PrimExpr) → Option (Option PrimExpr)
  | noOptSum, [] => some noOptSum
  | noOptSum, (a, b) :: rest =>
    match makeBinary .floorMod a b with
    | none => none
    | some remainder => addRemainders (some (addTo noOptSum remainder)) rest

def mergeMulMod (analyzer : IndexAnalyzer) (base : PrimExpr) : Option PrimExpr := do
  let simplifiedBase := analyzer.simplify (matchDivMod base)
  let merged ← mergeLoop analyzer (.start (exprSplitAddition simplifiedBase))
  if merged.findOpt then
    (addRemainders (addAll merged.noOptSum merged.multExprs) (merged.passed ++ merged.ahead)).join
  else some simplifiedBase

section Values

variable {analyzer : IndexAnalyzer} {interp : Nat → Env → Option Int} {env : Env}
  {a b e modL modR multOuter ret : PrimExpr} {multInner noOptSum : Option PrimExpr}
  {terms first second : List PrimExpr} {mods : List (PrimExpr × PrimExpr)} {v x y : Int}

/-- The terms have values, and these add up to the number. -/
def AddsUp (interp : Nat → Env → Option Int) (env : Env) : List PrimExpr → Int → Prop
  | [], v => v = 0
  | e :: rest, v => ∃ x y, e.eval interp env = some x ∧ AddsUp interp env rest y ∧ v = x + y

theorem addsUp_singleton : AddsUp interp env [e] v ↔ e.eval interp env = some v := by
  constructor
  · rintro ⟨x, y, evaluates, rfl, rfl⟩
    rwa [add_zero]
  · intro evaluates
    exact ⟨v, 0, evaluates, rfl, (add_zero v).symm⟩

theorem addsUp_append : AddsUp interp env (first ++ second) v ↔
    ∃ x y, AddsUp interp env first x ∧ AddsUp interp env second y ∧ v = x + y := by
  induction first generalizing v with
  | nil =>
    constructor
    · intro adds
      exact ⟨0, v, rfl, adds, (zero_add v).symm⟩
    · rintro ⟨x, y, rfl, adds, rfl⟩
      rwa [zero_add]
  | cons e rest ih =>
    constructor
    · rintro ⟨x, y, evaluates, adds, rfl⟩
      obtain ⟨u, w, left, right, rfl⟩ := ih.mp adds
      exact ⟨x + u, w, ⟨x, u, evaluates, left, rfl⟩, right, (add_assoc x u w).symm⟩
    · rintro ⟨_, w, ⟨x, u, evaluates, left, rfl⟩, right, rfl⟩
      exact ⟨x, u + w, evaluates, ih.mpr ⟨u, w, left, right, rfl⟩, add_assoc x u w⟩

theorem addsUp_splitAddition (evaluates : e.eval interp env = some v) :
    AddsUp interp env (exprSplitAddition e) v := by
  fun_induction exprSplitAddition e generalizing v with
  | case1 a b left right =>
    rw [PrimExpr.eval, Option.bind_eq_some_iff] at evaluates
    obtain ⟨x, leftIs, evaluates⟩ := evaluates
    obtain ⟨y, rightIs, evaluates⟩ := Option.bind_eq_some_iff.mp evaluates
    cases evaluates
    exact addsUp_append.mpr ⟨x, y, left leftIs, right rightIs, rfl⟩
  | case2 e other => exact addsUp_singleton.mpr evaluates

theorem exprSplitAddition_ne_nil (e : PrimExpr) : exprSplitAddition e ≠ [] := by
  fun_induction exprSplitAddition e with
  | case1 a b left right => exact List.append_ne_nil_of_left_ne_nil left _
  | case2 => exact List.cons_ne_nil _ _

def remainder (operands : PrimExpr × PrimExpr) : PrimExpr :=
  .binary .floorMod operands.1 operands.2

theorem modOperands_eq_some {operands : PrimExpr × PrimExpr} (is : modOperands e = some operands) :
    e = remainder operands := by
  rw [modOperands.eq_def] at is
  split at is
  · cases is
    rfl
  · cases is

theorem isMult_modOperands (is : isMult e = true) : modOperands e = none := by
  rw [isMult.eq_def] at is
  split at is
  · rfl
  · cases is

theorem AddsUp.inserted (adds : AddsUp interp env terms v) :
    ∃ x y z, AddsUp interp env (terms.filter isOther) x ∧
      AddsUp interp env (terms.filter isMult) y ∧
      AddsUp interp env ((terms.filterMap modOperands).map remainder) z ∧ v = x + y + z := by
  induction terms generalizing v with
  | nil => exact ⟨0, 0, 0, rfl, rfl, rfl, adds⟩
  | cons e rest ih =>
    obtain ⟨u, w, evaluates, adds, rfl⟩ := adds
    obtain ⟨x, y, z, others, mults, mods, rfl⟩ := ih adds
    cases mult : isMult e with
    | true =>
      have notMod := isMult_modOperands mult
      have notOther : isOther e = false := by rw [isOther, mult]; rfl
      rw [List.filter_cons_of_neg (by rw [notOther]; exact Bool.false_ne_true),
        List.filter_cons_of_pos mult, List.filterMap_cons_none notMod]
      exact ⟨x, u + y, z, others, ⟨u, y, evaluates, mults, rfl⟩, mods, by ring⟩
    | false =>
      rw [List.filter_cons_of_neg (p := isMult) (by rw [mult]; exact Bool.false_ne_true)]
      cases operandsOf : modOperands e with
      | some operands =>
        have notOther : isOther e = false := by rw [isOther, operandsOf, mult]; rfl
        rw [List.filter_cons_of_neg (by rw [notOther]; exact Bool.false_ne_true),
          List.filterMap_cons_some operandsOf]
        rw [modOperands_eq_some operandsOf] at evaluates
        exact ⟨x, y, u + z, others, mults, ⟨u, z, evaluates, mods, rfl⟩, by ring⟩
      | none =>
        have other : isOther e = true := by rw [isOther, operandsOf, mult]; rfl
        rw [List.filter_cons_of_pos other, List.filterMap_cons_none operandsOf]
        exact ⟨u + x, y, z, ⟨u, x, evaluates, others, rfl⟩, mults, mods, by ring⟩

theorem eval_binary {op : BinOp} :
    (PrimExpr.binary op a b).eval interp env = some v ↔
      ∃ x, a.eval interp env = some x ∧ ∃ y, b.eval interp env = some y ∧ op.eval x y = some v := by
  simp only [PrimExpr.eval, Option.bind_eq_some_iff]

theorem eval_floor {op : BinOp} (floors : op = .floorDiv ∨ op = .floorMod)
    (evaluates : op.eval x y = some v) : y ≠ 0 := by
  rintro rfl
  rcases floors with rfl | rfl <;> cases evaluates

theorem eval_addTo (adds : AddsUp interp env noOptSum.toList x) (evaluates : e.eval interp env = some y) :
    (addTo noOptSum e).eval interp env = some (x + y) := by
  cases noOptSum with
  | none =>
    cases adds
    rw [addTo, evaluates, zero_add]
  | some sum => exact eval_make (addsUp_singleton.mp adds) evaluates (admits_int rfl x y) rfl

theorem AddsUp.addAll (before : AddsUp interp env noOptSum.toList x)
    (adds : AddsUp interp env terms y) :
    AddsUp interp env (addAll noOptSum terms).toList (x + y) := by
  induction terms generalizing noOptSum x y with
  | nil =>
    cases adds
    rw [add_zero]
    exact before
  | cons e rest ih =>
    obtain ⟨u, w, evaluates, adds, rfl⟩ := adds
    rw [← add_assoc]
    exact ih (addsUp_singleton.mpr (eval_addTo before evaluates)) adds

def Factor (interp : Nat → Env → Option Int) (env : Env) : Option PrimExpr → Int → Prop
  | none, factor => factor = 1
  | some e, factor => e.eval interp env = some factor

theorem eval_overallMult {inner outer : Int} (factor : Factor interp env multInner inner)
    (outerIs : multOuter.eval interp env = some outer) :
    (overallMult multInner multOuter).eval interp env = some (inner * outer) := by
  cases multInner with
  | none =>
    cases factor
    rw [overallMult, outerIs, one_mul]
  | some e => exact eval_make factor outerIs (admits_int rfl inner outer) rfl

theorem Factor.innerMult {inner : Int} (factor : Factor interp env multInner inner)
    (evaluates : b.eval interp env = some y) :
    Factor interp env (some (innerMult b multInner)) (y * inner) := by
  cases multInner with
  | none =>
    cases factor
    rw [mul_one]
    exact evaluates
  | some e => exact eval_make evaluates factor (admits_int rfl y inner) rfl

theorem eval_outerMultiplier (left : a.eval interp env = some x) (right : b.eval interp env = some y) :
    ∃ inner outer, (outerMultiplier a b).1.eval interp env = some inner ∧
      (outerMultiplier a b).2.eval interp env = some outer ∧ inner * outer = x * y := by
  fun_induction outerMultiplier a b generalizing x y with
  | case1 a b outer ih =>
    obtain ⟨u, leftIs, w, rightIs, evaluates⟩ := eval_binary.mp left
    cases evaluates
    obtain ⟨inner, outer, innerIs, outerIs, same⟩ :=
      ih leftIs (eval_make rightIs right (admits_int rfl w y) rfl)
    exact ⟨inner, outer, innerIs, outerIs, by rw [same, mul_assoc]⟩
  | case2 => exact ⟨x, y, left, right, rfl⟩

theorem quotient_remainder {p q k : Int} (congruent : (p - q).fmod k = 0) :
    p.fdiv k * k + q.fmod k = p := by
  obtain ⟨t, difference⟩ := Int.dvd_of_fmod_eq_zero congruent
  have dividend : p = q + k * t := by rw [← difference, add_sub_cancel]
  have same : p.fmod k = q.fmod k := by rw [dividend, Int.add_mul_fmod_self_left]
  rw [← same, mul_comm, Int.mul_fdiv_add_fmod]

theorem searchQuotient_value (sound : analyzer.Sound) {e : PrimExpr}
    {multInner noOptSum : Option PrimExpr}
    (found : searchQuotient analyzer modL modR multOuter e multInner noOptSum = some (some ret))
    {inner outer sum : Int} (evaluates : e.eval interp env = some x)
    (factor : Factor interp env multInner inner) (adds : AddsUp interp env noOptSum.toList sum)
    (outerIs : multOuter.eval interp env = some outer)
    (modIs : (remainder (modL, modR)).eval interp env = some y) :
    ret.eval interp env = some ((sum + x * inner) * outer + y) := by
  fun_induction searchQuotient analyzer modL modR multOuter e multInner noOptSum
    generalizing x inner sum with
  | case1 a b multInner noOptSum same =>
    obtain ⟨p, dividend, k, divisor, quotient⟩ := eval_binary.mp evaluates
    obtain ⟨q, modLIs, k', modRIs, modulo⟩ := eval_binary.mp modIs
    have nonzero := eval_floor (Or.inl rfl) quotient
    have overall := eval_overallMult factor outerIs
    rw [same.1, divisor, Option.some.injEq] at overall
    rw [← same.2, same.1, divisor, Option.some.injEq] at modRIs
    subst modRIs
    simp only [BinOp.eval, if_neg nonzero, Option.some.injEq] at quotient modulo
    obtain ⟨difference, made, found⟩ := Option.bind_eq_some_iff.mp found
    have differenceIs : difference.eval interp env = some ((p - q).fmod k) := by
      apply makeBinary_sound made (eval_make dividend modLIs (admits_int rfl p q) rfl)
        (same.2 ▸ same.1 ▸ divisor) (admits_int rfl (p - q) k)
      exact if_neg nonzero
    split at found
    · rename_i proved
      have congruent := sound.proves _ _ proved interp env _ _ differenceIs rfl
      have merged := quotient_remainder congruent
      rw [quotient, modulo] at merged
      have total : (sum + x * inner) * outer + y = sum * outer + p := by
        rw [← merged, overall]
        ring
      rw [total]
      split at found
      · cases found
        apply eval_make _ dividend (admits_int rfl (sum * outer) p) rfl
        exact eval_make (addsUp_singleton.mp adds) outerIs (admits_int rfl sum outer) rfl
      · cases found
        cases adds
        rw [dividend, zero_mul, zero_add]
    · cases found
  | case2 a b multInner noOptSum different => cases found
  | case3 a b multInner noOptSum ih =>
    obtain ⟨u, leftIs, w, rightIs, product⟩ := eval_binary.mp evaluates
    cases product
    rw [mul_assoc]
    exact ih found leftIs (factor.innerMult rightIs) adds
  | case4 a b noOptSum ih =>
    obtain ⟨u, leftIs, w, rightIs, total⟩ := eval_binary.mp evaluates
    cases total
    cases factor
    have later := ih found rightIs rfl (addsUp_singleton.mpr (eval_addTo adds leftIs))
    rw [later, mul_one, mul_one, add_assoc]
  | case5 => cases found

theorem searchQuotient_answers (divisor : modR.eval interp env = some y) (nonzero : y ≠ 0)
    (e : PrimExpr) (multInner noOptSum : Option PrimExpr) :
    ∃ answer, searchQuotient analyzer modL modR multOuter e multInner noOptSum = some answer := by
  fun_induction searchQuotient analyzer modL modR multOuter e multInner noOptSum with
  | case1 a b multInner noOptSum same =>
    obtain ⟨difference, made⟩ :=
      exists_makeBinary .floorMod divisor (fun x => ⟨_, if_neg nonzero⟩) (make .sub a modL)
    rw [made, Option.bind_eq_bind, Option.bind_some]
    split
    · cases noOptSum <;> exact ⟨_, rfl⟩
    · exact ⟨none, rfl⟩
  | case2 => exact ⟨none, rfl⟩
  | case3 a b multInner noOptSum ih => exact ih
  | case4 a b noOptSum ih => exact ih
  | case5 => exact ⟨none, rfl⟩

theorem mergeMulModInner_answers (divisor : modR.eval interp env = some y) (nonzero : y ≠ 0)
    (multExpr : PrimExpr) :
    ∃ answer, mergeMulModInner analyzer multExpr modL modR = some answer := by
  rw [mergeMulModInner.eq_def]
  split
  · exact searchQuotient_answers divisor nonzero _ none none
  · exact ⟨none, rfl⟩

theorem mergeMulModInner_value (sound : analyzer.Sound) {multExpr : PrimExpr}
    (found : mergeMulModInner analyzer multExpr modL modR = some (some ret))
    (evaluates : multExpr.eval interp env = some x)
    (modIs : (remainder (modL, modR)).eval interp env = some y) :
    ret.eval interp env = some (x + y) := by
  rw [mergeMulModInner.eq_def] at found
  split at found
  · obtain ⟨u, left, w, right, product⟩ := eval_binary.mp evaluates
    cases product
    obtain ⟨inner, outer, innerIs, outerIs, same⟩ := eval_outerMultiplier left right
    have merged := searchQuotient_value sound found innerIs rfl rfl outerIs modIs
    rw [merged, zero_add, mul_one, same]
  · cases found

theorem findMult_answers (divisor : modR.eval interp env = some y) (nonzero : y ≠ 0)
    (multExprs : List PrimExpr) :
    ∃ answer, findMult analyzer modL modR multExprs = some answer := by
  induction multExprs with
  | nil => exact ⟨none, rfl⟩
  | cons multExpr rest ih =>
    obtain ⟨merged, mergedIs⟩ :
        ∃ answer, mergeMulModInner analyzer multExpr modL modR = some answer :=
      mergeMulModInner_answers divisor nonzero multExpr
    obtain ⟨later, laterIs⟩ := ih
    rw [findMult, mergedIs]
    cases merged with
    | some ret => exact ⟨_, rfl⟩
    | none =>
      rw [laterIs]
      rcases later with none | ⟨ret, others⟩
      · exact ⟨_, rfl⟩
      · exact ⟨_, rfl⟩

theorem findMult_value (sound : analyzer.Sound) {multExprs others : List PrimExpr}
    (found : findMult analyzer modL modR multExprs = some (some (ret, others)))
    (adds : AddsUp interp env multExprs x)
    (modIs : (remainder (modL, modR)).eval interp env = some y) :
    ∃ u w, ret.eval interp env = some u ∧ AddsUp interp env others w ∧ u + w = x + y := by
  induction multExprs generalizing others x with
  | nil => cases found
  | cons multExpr rest ih =>
    obtain ⟨s, t, evaluates, adds, rfl⟩ := adds
    rw [findMult.eq_def] at found
    simp only at found
    split at found
    · cases found
    · rename_i merged
      cases found
      have value := mergeMulModInner_value sound merged evaluates modIs
      exact ⟨s + y, t, value, adds, add_right_comm s y t⟩
    · split at found
      · cases found
      · cases found
      · rename_i later
        cases found
        obtain ⟨u, w, value, left, same⟩ := ih later adds
        exact ⟨u, s + w, value, ⟨s, w, evaluates, left, rfl⟩, by linarith⟩

theorem inserted_nonempty (nonempty : terms ≠ []) : terms.filter isOther ≠ [] ∨
    terms.filter isMult ≠ [] ∨ terms.filterMap modOperands ≠ [] := by
  obtain ⟨e, rest, rfl⟩ := List.exists_cons_of_ne_nil nonempty
  cases mult : isMult e with
  | true =>
    rw [List.filter_cons_of_pos (p := isMult) mult]
    exact Or.inr (Or.inl (List.cons_ne_nil _ _))
  | false =>
    cases operandsOf : modOperands e with
    | some operands =>
      rw [List.filterMap_cons_some operandsOf]
      exact Or.inr (Or.inr (List.cons_ne_nil _ _))
    | none =>
      have other : isOther e = true := by rw [isOther, operandsOf, mult]; rfl
      rw [List.filter_cons_of_pos other]
      exact Or.inl (List.cons_ne_nil _ _)

theorem addAll_ne_none (nonempty : noOptSum ≠ none ∨ terms ≠ []) :
    addAll noOptSum terms ≠ none := by
  induction terms generalizing noOptSum with
  | nil => exact nonempty.resolve_right fun absurd => absurd rfl
  | cons e rest ih => exact ih (Or.inl (Option.some_ne_none _))

/-- The lists are not all empty, and what is in them adds up to the number. -/
structure Merging.Holds (interp : Nat → Env → Option Int) (env : Env) (state : Merging) (v : Int) :
    Prop where
  sum : ∃ x y z, AddsUp interp env state.noOptSum.toList x ∧ AddsUp interp env state.multExprs y ∧
    AddsUp interp env ((state.passed ++ state.ahead).map remainder) z ∧ v = x + y + z
  nonempty : state.noOptSum ≠ none ∨ state.multExprs ≠ [] ∨ state.passed ++ state.ahead ≠ []

theorem Merging.Holds.start (adds : AddsUp interp env terms v) (nonempty : terms ≠ []) :
    (Merging.start terms).Holds interp env v := by
  obtain ⟨x, y, z, others, mults, mods, total⟩ := adds.inserted
  constructor
  · have sum : AddsUp interp env (addAll none (terms.filter isOther)).toList (0 + x) :=
      AddsUp.addAll rfl others
    rw [zero_add] at sum
    exact ⟨x, y, z, sum, mults, mods, total⟩
  · exact (inserted_nonempty nonempty).imp_left fun others => addAll_ne_none (Or.inr others)

theorem Merging.Holds.push {state : Merging} {others : List PrimExpr} (sound : analyzer.Sound)
    {operands : PrimExpr × PrimExpr} {rest : List (PrimExpr × PrimExpr)}
    (holds : state.Holds interp env v) (ahead : state.ahead = operands :: rest)
    (found : findMult analyzer operands.1 operands.2 state.multExprs = some (some (ret, others))) :
    (state.push rest others ret).Holds interp env v := by
  obtain ⟨x, y, z, sum, mults, mods, rfl⟩ := holds.sum
  rw [ahead, List.map_append] at mods
  obtain ⟨before, later, passed, ⟨m, after, modIs, behind, rfl⟩, rfl⟩ := addsUp_append.mp mods
  obtain ⟨u, w, retIs, left, same⟩ := findMult_value sound found mults modIs
  obtain ⟨newSum, newMult, newMod, newOthers, newMults, newMods, rfl⟩ :=
    (addsUp_splitAddition retIs).inserted
  constructor
  · refine ⟨x + newSum, w + newMult, before + (after + newMod), sum.addAll newOthers,
      addsUp_append.mpr ⟨w, newMult, left, newMults, rfl⟩, ?_, by linarith⟩
    rw [Merging.push, putIterator_append, List.map_append, List.map_append]
    exact addsUp_append.mpr ⟨before, after + newMod, passed,
      addsUp_append.mpr ⟨after, newMod, behind, newMods, rfl⟩, rfl⟩
  · rcases inserted_nonempty (exprSplitAddition_ne_nil ret) with others | mults | mods
    · exact Or.inl (addAll_ne_none (Or.inr others))
    · exact Or.inr (Or.inl (List.append_ne_nil_of_right_ne_nil _ mults))
    · refine Or.inr (Or.inr ?_)
      rw [Merging.push, putIterator_append]
      exact List.append_ne_nil_of_right_ne_nil _ (List.append_ne_nil_of_right_ne_nil _ mods)

theorem Merging.Holds.advance {state : Merging} (sound : analyzer.Sound)
    {operands : PrimExpr × PrimExpr} {rest : List (PrimExpr × PrimExpr)}
    (holds : state.Holds interp env v) (ahead : state.ahead = operands :: rest) :
    ∃ next, state.advance analyzer operands rest = some next ∧ next.Holds interp env v := by
  obtain ⟨x, y, z, sum, mults, mods, total⟩ := holds.sum
  have divisor : ∃ k, operands.2.eval interp env = some k ∧ k ≠ 0 := by
    rw [ahead, List.map_append] at mods
    obtain ⟨_, _, _, ⟨m, _, modIs, _⟩, _⟩ := addsUp_append.mp mods
    obtain ⟨q, _, k, divisor, modulo⟩ := eval_binary.mp modIs
    exact ⟨k, divisor, eval_floor (Or.inr rfl) modulo⟩
  obtain ⟨k, divisorIs, nonzero⟩ := divisor
  obtain ⟨answer, found⟩ : ∃ answer, findMult analyzer operands.1 operands.2 state.multExprs =
      some answer := findMult_answers divisorIs nonzero state.multExprs
  refine ⟨_, by rw [Merging.advance, found, Option.map_some], ?_⟩
  cases answer with
  | none =>
    have same : state.passed ++ [operands] ++ rest = state.passed ++ state.ahead := by
      rw [ahead, List.append_assoc, List.singleton_append]
    refine ⟨⟨x, y, z, sum, mults, ?_, total⟩, ?_⟩
    · rw [same]
      exact mods
    · rw [same]
      exact holds.nonempty
  | some merged => exact holds.push sound ahead found

theorem mergeLoop_holds (sound : analyzer.Sound) {state : Merging}
    (holds : state.Holds interp env v) :
    ∃ merged, mergeLoop analyzer state = some merged ∧ merged.Holds interp env v := by
  fun_induction mergeLoop analyzer state with
  | case1 state ahead => exact ⟨state, rfl, holds⟩
  | case2 state operands rest ahead failed =>
    obtain ⟨next, advanced, -⟩ := holds.advance sound ahead
    rw [failed] at advanced
    cases advanced
  | case3 state operands rest ahead next advanced ih =>
    obtain ⟨next', advanced', kept⟩ := holds.advance sound ahead
    rw [advanced] at advanced'
    cases advanced'
    exact ih kept

theorem addRemainders_value (before : AddsUp interp env noOptSum.toList x)
    (adds : AddsUp interp env (mods.map remainder) y) :
    ∃ sum, addRemainders noOptSum mods = some sum ∧ AddsUp interp env sum.toList (x + y) ∧
      (noOptSum ≠ none ∨ mods ≠ [] → sum ≠ none) := by
  induction mods generalizing noOptSum x y with
  | nil =>
    cases adds
    rw [add_zero]
    exact ⟨noOptSum, rfl, before, fun nonempty => nonempty.resolve_right fun absurd => absurd rfl⟩
  | cons operands rest ih =>
    obtain ⟨u, w, modIs, adds, rfl⟩ := adds
    obtain ⟨q, dividend, k, divisor, modulo⟩ := eval_binary.mp modIs
    obtain ⟨built, made⟩ := exists_makeBinary .floorMod divisor
      (fun x => ⟨_, if_neg (eval_floor (Or.inr rfl) modulo)⟩) operands.1
    have builtIs : built.eval interp env = some u :=
      makeBinary_sound made dividend divisor (admits_int rfl q k) modulo
    have added : AddsUp interp env (some (addTo noOptSum built)).toList (x + u) :=
      addsUp_singleton.mpr (eval_addTo before builtIs)
    obtain ⟨sum, sumIs, total, exists_sum⟩ := ih added adds
    refine ⟨sum, ?_, ?_, fun _ => exists_sum (Or.inl (Option.some_ne_none _))⟩
    · rw [addRemainders, made]
      exact sumIs
    · rw [← add_assoc]
      exact total

theorem matchDivMod_value (evaluates : e.eval interp env = some v) :
    (matchDivMod e).eval interp env = some v := by
  rw [matchDivMod.eq_def]
  split
  · rename_i x y factor dividend divisor
    split
    · rename_i same
      obtain ⟨rfl, rfl, rfl⟩ := same
      obtain ⟨u, left, w, modIs, total⟩ := eval_binary.mp evaluates
      obtain ⟨q, quotientIs, k, factorIs, product⟩ := eval_binary.mp left
      obtain ⟨p, dividend, k', divisor, quotient⟩ := eval_binary.mp quotientIs
      obtain ⟨p', dividend', k'', divisor', modulo⟩ := eval_binary.mp modIs
      rw [dividend, Option.some.injEq] at dividend'
      rw [divisor, Option.some.injEq] at divisor'
      rw [factorIs, Option.some.injEq] at divisor
      subst dividend' divisor' divisor
      have nonzero := eval_floor (Or.inl rfl) quotient
      simp only [BinOp.eval, if_neg nonzero, Option.some.injEq] at total product quotient modulo
      rw [dividend, ← total, ← product, ← quotient, ← modulo, Int.fdiv_mul_add_fmod]
    · exact evaluates
  · exact evaluates

theorem mergeMulMod_value (sound : analyzer.Sound) (evaluates : e.eval interp env = some v) :
    ∃ merged, mergeMulMod analyzer e = some merged ∧ merged.eval interp env = some v := by
  have simplified := sound.simplifies _ interp env v (matchDivMod_value evaluates)
  obtain ⟨merged, mergedIs, holds⟩ := mergeLoop_holds sound
    (.start (addsUp_splitAddition simplified) (exprSplitAddition_ne_nil _))
  rw [mergeMulMod, mergedIs, Option.bind_eq_bind, Option.bind_some]
  split
  · obtain ⟨x, y, z, sum, mults, mods, rfl⟩ := holds.sum
    obtain ⟨total, totalIs, adds, exists_total⟩ := addRemainders_value (sum.addAll mults) mods
    have nonempty : total ≠ none := by
      apply exists_total
      rcases holds.nonempty with sum | mults | mods
      · exact Or.inl (addAll_ne_none (Or.inl sum))
      · exact Or.inl (addAll_ne_none (Or.inr mults))
      · exact Or.inr mods
    obtain ⟨result, rfl⟩ := Option.ne_none_iff_exists'.mp nonempty
    exact ⟨result, by rw [totalIs]; rfl, addsUp_singleton.mp adds⟩
  · exact ⟨_, rfl, simplified⟩

end Values

end Tvm.Tir
