import Tvm.Arith.ModularSet

/-!
# Scopes of the modular set analyzer

`EnterConstraint` and `Update` of `modular_set.cc`, with the recovery functions.  A recovery
function puts back what `UpdateByIntersect` found, but `Everything()` where it found nothing.
-/

namespace Tvm.Arith.ModularSet

open Entry

/-- The fields of a `ModularSetNode`. -/
structure Info where
  coeff : Int
  base : Int
  deriving DecidableEq, Repr

def update (varMap : VarMap) (v : Var) (info : Info) (allowOverride : Bool) : Option VarMap :=
  let stored := (make info.coeff info.base).map fun entry => Function.update varMap v (some entry)
  if allowOverride then stored
  else
    match varMap v with
    | some old => if old.coeff = info.coeff ∧ old.base = info.base then stored else none
    | none => stored

abbrev Recovery := VarMap → VarMap

/-- `UpdateByIntersect`, with the function it returns. -/
def updateByIntersectScope (varMap : VarMap) (v : Var) (entry : Entry) :
    Option (Option Recovery × VarMap) :=
  let old := (varMap v).getD everything
  (updateByIntersect varMap v entry).map fun updated =>
    (some fun varMap => Function.update varMap v (some old), updated)

/-- `EnterConstraint`; `nullptr` for a constraint of no known form. -/
def enterConstraintScope (varMap : VarMap) : PrimExpr → Option (Option Recovery × VarMap)
  | .binary .eq (.binary .mod (.var v) (.intImm coeff)) (.intImm base)
  | .binary .eq (.binary .floorMod (.var v) (.intImm coeff)) (.intImm base) =>
    (make coeff base).bind (updateByIntersectScope varMap v)
  | .binary .eq (.var v) (.intImm base)
  | .binary .eq (.intImm base) (.var v) => (make 1 base).bind (updateByIntersectScope varMap v)
  | _ => some (none, varMap)

inductive Scopes where
  | done
  | scope (constraint : PrimExpr) (inside rest : Scopes)

/-- Each scope is entered, what lies inside is run, and its recovery function is called. -/
def Scopes.run : Scopes → VarMap → Option VarMap
  | .done, varMap => some varMap
  | .scope constraint inside rest, varMap =>
    (enterConstraintScope varMap constraint).bind fun entered =>
      (inside.run entered.2).bind fun left => rest.run ((entered.1.getD id) left)

/-- The variable that a constraint is about. -/
def constrained : PrimExpr → Option Var
  | .binary .eq (.binary .mod (.var v) (.intImm _)) (.intImm _)
  | .binary .eq (.binary .floorMod (.var v) (.intImm _)) (.intImm _)
  | .binary .eq (.var v) (.intImm _)
  | .binary .eq (.intImm _) (.var v) => some v
  | _ => none

def Scopes.Constrains (v : Var) : Scopes → Prop
  | .done => False
  | .scope constraint inside rest =>
    constrained constraint = some v ∨ inside.Constrains v ∨ rest.Constrains v

/-- Every expression has the entry it had, and every update is taken or refused as before.  What
the other analyzers prove may depend on the map. -/
structure Restored (before after : VarMap) : Prop where
  visitExpr : ∀ (canProveGreaterEqual : VarMap → PrimExpr → Int → Bool) (e : PrimExpr),
    visitExpr (canProveGreaterEqual after) after e =
      visitExpr (canProveGreaterEqual before) before e
  update : ∀ (v : Var) (info : Info),
    (update after v info false).isSome = (update before v info false).isSome

theorem updateByIntersectScope_spec {varMap : VarMap} {v : Var} {entry : Entry}
    {entered : Option Recovery × VarMap}
    (enters : updateByIntersectScope varMap v entry = some entered) :
    ∃ met, entered =
      (some fun map => Function.update map v (some ((varMap v).getD everything)),
        Function.update varMap v (some met)) := by
  obtain ⟨updated, intersects, rfl⟩ := Option.map_eq_some_iff.mp enters
  obtain ⟨met, -, rfl⟩ := Option.map_eq_some_iff.mp intersects
  exact ⟨met, rfl⟩

theorem enterConstraintScope_spec {varMap : VarMap} {constraint : PrimExpr}
    {entered : Option Recovery × VarMap}
    (enters : enterConstraintScope varMap constraint = some entered) :
    (constrained constraint = none ∧ entered = (none, varMap)) ∨
      ∃ v met, constrained constraint = some v ∧
        entered = (some fun map => Function.update map v (some ((varMap v).getD everything)),
          Function.update varMap v (some met)) := by
  unfold enterConstraintScope at enters
  split at enters
  case h_5 unmatched₁ unmatched₂ unmatched₃ unmatched₄ =>
    refine .inl ⟨?_, (Option.some.inj enters).symm⟩
    rw [constrained]
    · exact unmatched₁
    · exact unmatched₂
    · exact unmatched₃
    · exact unmatched₄
  all_goals
    obtain ⟨entry, -, intersects⟩ := Option.bind_eq_some_iff.mp enters
    obtain ⟨met, rfl⟩ := updateByIntersectScope_spec intersects
    exact .inr ⟨_, met, rfl, rfl⟩

/-- What scopes leave of one variable: where they constrain it, it is bound. -/
structure Settled (constrains : Prop) (before after : Option Entry) : Prop where
  constrained : constrains → after = some (before.getD everything)
  other : ¬constrains → after = before

namespace Settled

variable {first second : Prop} {before between after : Option Entry}

theorem trans (one : Settled first before between) (two : Settled second between after) :
    Settled (first ∨ second) before after where
  constrained := by
    intro constrains
    by_cases earlier : first
    · have bound := one.constrained earlier
      by_cases later : second
      · rw [two.constrained later, bound, Option.getD_some]
      · rw [two.other later, bound]
    · rw [two.constrained (constrains.resolve_left earlier), one.other earlier]
  other := by
    intro neither
    obtain ⟨earlier, later⟩ := not_or.mp neither
    rw [two.other later, one.other earlier]

theorem congr (settled : Settled first before after) (same : first ↔ second) :
    Settled second before after :=
  ⟨fun constrains => settled.constrained (same.mpr constrains),
    fun free => settled.other fun constrains => free (same.mp constrains)⟩

end Settled

/-- The induction is on the scopes; the recovery function of a scope hides what lies inside from
its own variable only. -/
theorem Scopes.run_settled {scopes : Scopes} {varMap left : VarMap}
    (runs : scopes.run varMap = some left) (v : Var) :
    Settled (scopes.Constrains v) (varMap v) (left v) := by
  induction scopes generalizing varMap left with
  | done =>
    obtain rfl := Option.some.inj runs
    exact ⟨fun constrains => constrains.elim, fun _ => rfl⟩
  | scope constraint inside rest inside_ih rest_ih =>
    obtain ⟨entered, enters, runs⟩ := Option.bind_eq_some_iff.mp runs
    obtain ⟨leftInside, runsInside, runsRest⟩ := Option.bind_eq_some_iff.mp runs
    have ofInside := inside_ih runsInside
    have recovered : Settled (constrained constraint = some v ∨ inside.Constrains v) (varMap v)
        ((entered.1.getD id) leftInside v) := by
      rcases enterConstraintScope_spec enters with ⟨free, rfl⟩ | ⟨u, met, about, rfl⟩
      · apply ofInside.congr
        rw [free]
        exact ⟨.inr, fun constrains => constrains.resolve_left fun same => by cases same⟩
      · rw [about]
        by_cases same : v = u
        · obtain rfl := same
          refine ⟨fun _ => Function.update_self .., fun free => ?_⟩
          exact absurd (Or.inl rfl) free
        · have outside : Settled (inside.Constrains v) (Function.update varMap u (some met) v)
              (leftInside v) := ofInside
          rw [Function.update_of_ne same] at outside
          have kept : ((some fun map : VarMap =>
              Function.update map u (some ((varMap u).getD everything))).getD id) leftInside v =
                leftInside v := Function.update_of_ne same ..
          rw [kept]
          apply outside.congr
          refine ⟨.inr, fun constrains => constrains.resolve_left fun equal => ?_⟩
          exact same (Option.some.inj equal).symm
    exact (recovered.trans (rest_ih runsRest)).congr or_assoc

theorem update_zero_isSome {varMap : VarMap} {v : Var} (unbound : varMap v = none) :
    (update varMap v ⟨0, 0⟩ false).isSome := by
  rw [update, unbound]
  rfl

theorem update_zero_everything {varMap : VarMap} {v : Var} (bound : varMap v = some everything) :
    update varMap v ⟨0, 0⟩ false = none := by
  rw [update, bound]
  rfl

/-- The scopes restore the analyzer exactly where every variable of a constraint was bound. -/
theorem scopes_restore_iff {scopes : Scopes} {varMap left : VarMap}
    (runs : scopes.run varMap = some left) :
    Restored varMap left ↔ ∀ v, scopes.Constrains v → varMap v ≠ none := by
  constructor
  · intro restored v constrains unbound
    have bound : left v = some everything := by
      rw [(Scopes.run_settled runs v).constrained constrains, unbound, Option.getD_none]
    have same := restored.update v ⟨0, 0⟩
    rw [update_zero_everything bound, update_zero_isSome unbound] at same
    cases same
  · intro bound
    have same : left = varMap := by
      funext v
      by_cases constrains : scopes.Constrains v
      · obtain ⟨entry, found⟩ := Option.ne_none_iff_exists'.mp (bound v constrains)
        rw [(Scopes.run_settled runs v).constrained constrains, found, Option.getD_some]
      · exact (Scopes.run_settled runs v).other constrains
    rw [same]
    exact ⟨fun _ _ => rfl, fun _ _ => rfl⟩

/-- Two scopes that constrain `x`, one in the other. -/
def nestedScopes : Scopes :=
  .scope (.binary .eq (.binary .floorMod (.var 0) (.intImm 6)) (.intImm 2))
    (.scope (.binary .eq (.var 0) (.intImm 8)) .done .done) .done

/-- `x` is bound to the multiples of four. -/
theorem scopes_restore_iff_nested :
    Restored (fun _ => make 4 0)
        (Function.update (Function.update (Function.update (Function.update
          (fun _ => make 4 0) 0 (make 12 8)) 0 (make 12 8)) 0 (make 12 8)) 0 (make 4 0)) ↔
      ∀ v, nestedScopes.Constrains v → (fun _ => make 4 0 : VarMap) v ≠ none :=
  scopes_restore_iff rfl

/-- The scope of `floormod(x, 4) == 1`, where `x` is not bound. -/
def unboundScope : Scopes :=
  .scope (.binary .eq (.binary .floorMod (.var 0) (.intImm 4)) (.intImm 1)) .done .done

/-- `x` stays bound to everything, so an update is refused. -/
theorem scopes_left_bound :
    ¬∀ (scopes : Scopes) (varMap left : VarMap), scopes.run varMap = some left →
      Restored varMap left := by
  intro restores
  have runs : unboundScope.run (fun _ => none) =
      some (Function.update (Function.update (fun _ => none) 0 (make 4 1)) 0
        (some everything)) := rfl
  have same := (restores _ _ _ runs).update 0 ⟨4, 0⟩
  revert same
  decide

end Tvm.Arith.ModularSet
