import Tvm.Arith.RewriteFirings
import Tvm.Arith.VectorRules
import Tvm.Lib.Progression

/-!
# Soundness of the vector rules

A vector rule keeps the value of a lane, except for the rules that divide a ramp: those that
truncate are wrong where the ramp changes its side, and one that floors is wrong for a negative
divisor.
-/

namespace Tvm.Arith

open Tvm.Lib

namespace VecExpr

/-- Vectors of a sort over scalar expressions of the allowed operators. -/
def Sorted (allowed : BinOp → Bool) : ExprSort → VecExpr → Bool
  | .int, .ramp base stride _ => WellSorted allowed .int base && WellSorted allowed .int stride
  | sort, .broadcast value _ => WellSorted allowed sort value
  | sort, .binary op a b =>
    op.resultSort == sort && Sorted allowed op.operandSort a && Sorted allowed op.operandSort b
  | .bool, .not a => Sorted allowed .bool a
  | _, _ => false

end VecExpr

/-- The values `b` of the base of a ramp at which dividing the ramp keeps lane `i`. -/
def rampKeeps (bmod : ModularSet.Entry) (lanes : Nat) (c1 c2 : Int) (i : Nat) (b : Int) :
    BinOp → Prop
  | .div =>
    if c1.tmod c2 = 0 then c2 ∣ b ∨ SameSide b (b + i * c1)
    else 0 ≤ bmod.base + i * c1 ∨ b = bmod.base
  | .mod =>
    if c1.tmod c2 = 0 then c2 ∣ b ∨ SameSide b (b + i * c1)
    else if bmod.base.tdiv c2 = (bmod.base + ((lanes : Int) - 1) * c1).tdiv c2 then
      0 ≤ bmod.base + i * c1 ∨ b = bmod.base
    else c2 ∣ b + i * c1 ∨ SameSide (b + i * c1) (bmod.base.tmod c2 + i * c1)
  | .floorDiv | .floorMod =>
    c1.tmod c2 = 0 ∨ bmod.coeff.tmod c2 = 0 ∨ 0 < c2 ∨ bmod.base ≠ 0 ∨ -(i * c1) ≤ (b - 1) % c2
  | _ => True

/-- The vector rules keep lane `i` of the vector at the assignment. -/
def VecExpr.KeepsLane (queries : Queries) (interp : Nat → Env → Option Int) (env : Env) (i : Nat) :
    VecExpr → Prop
  | .binary op (.ramp b1 (.intImm c1) lanes) (.broadcast (.intImm c2) _) =>
    ∀ b, b1.eval interp env = some b → rampKeeps (queries.modularSet b1) lanes c1 c2 i b op
  | _ => True

section Lanes

variable {allowed : BinOp → Bool} {interp : Nat → Env → Option Int} {env : Env}
  {queries : Queries} {sort : ExprSort} {a b r : VecExpr} {e : VecExpr} {i : Nat} {x y v : Int}
  {op : BinOp}

theorem lane_truth (sorted : e.Sorted allowed .bool = true)
    (evaluates : e.lane interp env i = some v) : v = 0 ∨ v = 1 := by
  cases e with
  | ramp base stride lanes => cases sorted
  | broadcast value lanes => exact eval_truth sorted evaluates
  | binary op a b =>
    simp only [VecExpr.lane, Option.bind_eq_some_iff] at evaluates
    obtain ⟨x, -, y, -, evaluates⟩ := evaluates
    simp only [VecExpr.Sorted, Bool.and_eq_true, beq_iff_eq] at sorted
    exact BinOp.eval_truth sorted.1.1 evaluates
  | not a =>
    obtain ⟨x, -, rfl⟩ := Option.map_eq_some_iff.mp evaluates
    exact truth_cases _

theorem lane_operands (evaluates : (VecExpr.binary op a b).lane interp env i = some v) :
    ∃ x y, a.lane interp env i = some x ∧ b.lane interp env i = some y ∧ op.eval x y = some v := by
  simp only [VecExpr.lane, Option.bind_eq_some_iff] at evaluates
  obtain ⟨x, left, y, right, evaluates⟩ := evaluates
  exact ⟨x, y, left, right, evaluates⟩

theorem lane_ramp {base stride : PrimExpr} {lanes : Nat} (baseIs : base.eval interp env = some x)
    (strideIs : stride.eval interp env = some y) :
    (VecExpr.ramp base stride lanes).lane interp env i = some (x + i * y) := by
  rw [VecExpr.lane, baseIs, strideIs, Option.bind_some, Option.map_some]

theorem of_lane_ramp {base stride : PrimExpr} {lanes : Nat}
    (evaluates : (VecExpr.ramp base stride lanes).lane interp env i = some v) :
    ∃ x y, base.eval interp env = some x ∧ stride.eval interp env = some y ∧ v = x + i * y := by
  simp only [VecExpr.lane, Option.bind_eq_some_iff, Option.map_eq_some_iff] at evaluates
  obtain ⟨x, baseIs, y, strideIs, rfl⟩ := evaluates
  exact ⟨x, y, baseIs, strideIs, rfl⟩

theorem broadcastRule_sound (run : broadcastRule op a b = some (some r))
    (left : a.lane interp env i = some x) (right : b.lane interp env i = some y)
    (admits : op.Admits x y) (evaluates : op.eval x y = some v) : r.lane interp env i = some v := by
  rw [broadcastRule.eq_def] at run
  split at run
  · split at run
    · obtain ⟨value, made, resultIs⟩ := Option.map_eq_some_iff.mp run
      cases resultIs
      exact makeBinary_sound made left right admits evaluates
    · cases run
  · cases run

theorem addVector_sound (run : addVector a b = some (some r))
    (left : a.lane interp env i = some x) (right : b.lane interp env i = some y) :
    r.lane interp env i = some (x + y) := by
  rw [addVector.eq_def] at run
  split at run
  · split at run
    · obtain ⟨base, baseMade, run⟩ := Option.bind_eq_some_iff.mp run
      obtain ⟨stride, strideMade, run⟩ := Option.bind_eq_some_iff.mp run
      cases run
      obtain ⟨b1, s1, b1Is, s1Is, rfl⟩ := of_lane_ramp left
      obtain ⟨b2, s2, b2Is, s2Is, rfl⟩ := of_lane_ramp right
      rw [lane_ramp (makeBinary_int baseMade rfl b1Is b2Is rfl)
        (makeBinary_int strideMade rfl s1Is s2Is rfl)]
      congr 1
      ring
    · cases run
  · split at run
    · obtain ⟨base, baseMade, resultIs⟩ := Option.map_eq_some_iff.mp run
      cases resultIs
      obtain ⟨b1, s1, b1Is, s1Is, rfl⟩ := of_lane_ramp left
      rw [lane_ramp (makeBinary_int baseMade rfl b1Is right rfl) s1Is]
      congr 1
      ring
    · cases run
  · split at run
    · obtain ⟨base, baseMade, resultIs⟩ := Option.map_eq_some_iff.mp run
      cases resultIs
      obtain ⟨b1, s1, b1Is, s1Is, rfl⟩ := of_lane_ramp right
      rw [lane_ramp (makeBinary_int baseMade rfl left b1Is rfl) s1Is]
      congr 1
      ring
    · cases run
  · exact broadcastRule_sound run left right (fun logical => by cases logical) rfl

theorem subVector_sound (run : subVector a b = some (some r))
    (left : a.lane interp env i = some x) (right : b.lane interp env i = some y) :
    r.lane interp env i = some (x - y) := by
  rw [subVector.eq_def] at run
  split at run
  · split at run
    · obtain ⟨base, baseMade, run⟩ := Option.bind_eq_some_iff.mp run
      obtain ⟨stride, strideMade, run⟩ := Option.bind_eq_some_iff.mp run
      cases run
      obtain ⟨b1, s1, b1Is, s1Is, rfl⟩ := of_lane_ramp left
      obtain ⟨b2, s2, b2Is, s2Is, rfl⟩ := of_lane_ramp right
      rw [lane_ramp (makeBinary_int baseMade rfl b1Is b2Is rfl)
        (makeBinary_int strideMade rfl s1Is s2Is rfl)]
      congr 1
      ring
    · cases run
  · split at run
    · obtain ⟨base, baseMade, resultIs⟩ := Option.map_eq_some_iff.mp run
      cases resultIs
      obtain ⟨b1, s1, b1Is, s1Is, rfl⟩ := of_lane_ramp left
      rw [lane_ramp (makeBinary_int baseMade rfl b1Is right rfl) s1Is]
      congr 1
      ring
    · cases run
  · split at run
    · obtain ⟨base, baseMade, run⟩ := Option.bind_eq_some_iff.mp run
      obtain ⟨stride, strideMade, run⟩ := Option.bind_eq_some_iff.mp run
      cases run
      obtain ⟨b1, s1, b1Is, s1Is, rfl⟩ := of_lane_ramp right
      have zero : (PrimExpr.intImm 0).eval interp env = some 0 := rfl
      rw [lane_ramp (makeBinary_int baseMade rfl left b1Is rfl)
        (makeBinary_int strideMade rfl zero s1Is rfl)]
      congr 1
      ring
    · cases run
  · exact broadcastRule_sound run left right (fun logical => by cases logical) rfl

theorem mulVector_sound (run : mulVector a b = some (some r))
    (left : a.lane interp env i = some x) (right : b.lane interp env i = some y) :
    r.lane interp env i = some (x * y) := by
  rw [mulVector.eq_def] at run
  split at run
  · split at run
    · obtain ⟨base, baseMade, run⟩ := Option.bind_eq_some_iff.mp run
      obtain ⟨stride, strideMade, run⟩ := Option.bind_eq_some_iff.mp run
      cases run
      obtain ⟨b1, s1, b1Is, s1Is, rfl⟩ := of_lane_ramp left
      rw [lane_ramp (makeBinary_int baseMade rfl b1Is right rfl)
        (makeBinary_int strideMade rfl s1Is right rfl)]
      congr 1
      ring
    · cases run
  · split at run
    · obtain ⟨base, baseMade, run⟩ := Option.bind_eq_some_iff.mp run
      obtain ⟨stride, strideMade, run⟩ := Option.bind_eq_some_iff.mp run
      cases run
      obtain ⟨b1, s1, b1Is, s1Is, rfl⟩ := of_lane_ramp right
      rw [lane_ramp (makeBinary_int baseMade rfl b1Is left rfl)
        (makeBinary_int strideMade rfl s1Is left rfl)]
      congr 1
      ring
    · cases run
  · exact broadcastRule_sound run left right (fun logical => by cases logical) rfl

theorem nestedVector_sound (lattice : op = .min ∨ op = .max)
    (run : nestedVector op a b = some (some r)) (left : a.lane interp env i = some x)
    (right : b.lane interp env i = some y) (evaluates : op.eval x y = some v) :
    r.lane interp env i = some v := by
  rw [nestedVector.eq_def] at run
  split at run
  · split at run
    · rename_i same
      obtain ⟨rfl, rfl⟩ := same
      obtain ⟨value, made, resultIs⟩ := Option.map_eq_some_iff.mp run
      cases resultIs
      obtain ⟨first, second, firstIs, secondIs, inner⟩ := lane_operands left
      rcases lattice with rfl | rfl
      · have folded := makeBinary_int made rfl secondIs right rfl
        cases inner
        cases evaluates
        simp only [VecExpr.lane, firstIs, folded, Option.bind_some, BinOp.eval, min_assoc]
      · have folded := makeBinary_int made rfl secondIs right rfl
        cases inner
        cases evaluates
        simp only [VecExpr.lane, firstIs, folded, Option.bind_some, BinOp.eval, max_assoc]
    · cases run
  · refine broadcastRule_sound run left right (fun logical => ?_) evaluates
    rcases lattice with rfl | rfl <;> cases logical

theorem ltVector_sound (run : ltVector a b = some (some r))
    (left : a.lane interp env i = some x) (right : b.lane interp env i = some y) :
    r.lane interp env i = some (truth (x < y)) := by
  rw [ltVector.eq_def] at run
  split at run
  · split at run
    · rename_i same
      obtain ⟨rfl, rfl⟩ := same
      obtain ⟨value, made, resultIs⟩ := Option.map_eq_some_iff.mp run
      cases resultIs
      obtain ⟨b1, s1, b1Is, s1Is, rfl⟩ := of_lane_ramp left
      obtain ⟨b2, s2, b2Is, s2Is, rfl⟩ := of_lane_ramp right
      rw [s1Is, Option.some.injEq] at s2Is
      subst s2Is
      rw [VecExpr.lane, makeBinary_int made rfl b1Is b2Is rfl]
      simp
    · cases run
  · exact broadcastRule_sound run left right (fun logical => by cases logical) rfl

end Lanes

section Division

variable {allowed : BinOp → Bool} {interp : Nat → Env → Option Int} {env : Env}
  {queries : Queries} {a b r : VecExpr} {i : Nat} {x y v : Int}

theorem dvd_sub_base {entry : ModularSet.Entry} {c : Int} (contains : entry.Contains v)
    (multiple : entry.coeff.tmod c = 0) : c ∣ v - entry.base := by
  have congruent := ModularSet.Entry.contains_iff.mp contains
  exact (Int.dvd_of_tmod_eq_zero multiple).trans (Int.modEq_iff_dvd.mp congruent.symm)

theorem base_le {entry : ModularSet.Entry} (contains : entry.Contains v) (nonneg : 0 ≤ v) :
    entry.base ≤ v := by
  have congruent := ModularSet.Entry.contains_iff.mp contains
  rcases entry.coeff_nonneg.eq_or_lt with zero | positive
  · rw [← zero, Int.modEq_zero_iff] at congruent
    exact congruent.ge
  · obtain ⟨lower, upper⟩ := entry.base_range positive
    have remainder : v % entry.coeff = entry.base := by
      rw [congruent, Int.emod_eq_of_lt lower upper]
    have split := Int.mul_ediv_add_emod v entry.coeff
    have multiple := mul_nonneg positive.le (Int.ediv_nonneg nonneg positive.le)
    omega

theorem ramp_operands {b1 : PrimExpr} {c1 c2 : Int} {lanes lanes' : Nat}
    (left : (VecExpr.ramp b1 (.intImm c1) lanes).lane interp env i = some x)
    (right : (VecExpr.broadcast (.intImm c2) lanes').lane interp env i = some y) :
    ∃ b, b1.eval interp env = some b ∧ x = b + i * c1 ∧ y = c2 := by
  obtain ⟨b, _, b1Is, strideIs, rfl⟩ := of_lane_ramp left
  cases strideIs
  cases right
  exact ⟨b, b1Is, rfl, rfl⟩

theorem broadcast_value {value : PrimExpr} {lanes : Nat} {n m : Int}
    (valueIs : value.eval interp env = some n) :
    (VecExpr.broadcast value lanes).lane interp env i = some m ↔ n = m := by
  rw [VecExpr.lane, valueIs, Option.some.injEq]

theorem ramp_value {base stride : PrimExpr} {lanes : Nat} {n m k : Int}
    (baseIs : base.eval interp env = some n) (strideIs : stride.eval interp env = some m) :
    (VecExpr.ramp base stride lanes).lane interp env i = some k ↔ n + i * m = k := by
  rw [lane_ramp baseIs strideIs, Option.some.injEq]

theorem keepsLane_iff {op : BinOp} {b1 : PrimExpr} {c1 c2 b : Int} {lanes lanes' : Nat}
    (b1Is : b1.eval interp env = some b) :
    (VecExpr.binary op (.ramp b1 (.intImm c1) lanes)
      (.broadcast (.intImm c2) lanes')).KeepsLane queries interp env i ↔
        rampKeeps (queries.modularSet b1) lanes c1 c2 i b op := by
  constructor
  · intro keeps
    exact keeps b b1Is
  · intro keeps b' b'Is
    rw [b1Is, Option.some.injEq] at b'Is
    exact b'Is ▸ keeps

theorem keepsLane_of_broadcast {op : BinOp} (run : broadcastRule op a b = some (some r)) :
    (VecExpr.binary op a b).KeepsLane queries interp env i := by
  rw [broadcastRule.eq_def] at run
  split at run
  · trivial
  · cases run

theorem divVector_exact (sound : queries.Sound allowed interp env)
    (sorted : a.Sorted allowed .int = true) (run : divVector queries a b = some (some r))
    (small : i < a.lanes) (left : a.lane interp env i = some x)
    (right : b.lane interp env i = some y) (evaluates : BinOp.div.eval x y = some v) :
    r.lane interp env i = some v ↔
      (VecExpr.binary .div a b).KeepsLane queries interp env i := by
  rw [divVector.eq_def] at run
  split at run
  · rename_i b1 c1 lanes c2 lanes'
    split at run
    · split at run
      · cases run
      · rename_i nonzero
        obtain ⟨b, b1Is, rfl, rfl⟩ := ramp_operands left right
        rw [keepsLane_iff b1Is]
        rw [BinOp.eval, if_neg nonzero, Option.some.injEq] at evaluates
        have b1Sorted : WellSorted allowed .int b1 = true := by
          simp only [VecExpr.Sorted, Bool.and_eq_true] at sorted
          exact sorted.1
        split at run
        · rename_i step
          obtain ⟨base, baseMade, run⟩ := Option.bind_eq_some_iff.mp run
          obtain ⟨stride, strideMade, run⟩ := Option.bind_eq_some_iff.mp run
          cases run
          have baseIs := makeBinary_int baseMade rfl b1Is rfl (if_neg nonzero)
          have strideIs : stride.eval interp env = some (c1.tdiv y) :=
            makeBinary_int strideMade rfl rfl rfl (if_neg nonzero)
          have divides := Int.dvd_of_tmod_eq_zero step
          rw [ramp_value baseIs strideIs, rampKeeps, if_pos step, ← evaluates,
            ← tdiv_add_eq_iff nonzero (Dvd.dvd.mul_left divides _), Int.mul_tdiv_assoc _ divides,
            eq_comm]
        · rename_i step
          obtain ⟨nonneg, asked, run⟩ := Option.bind_eq_some_iff.mp run
          dsimp only at run
          split at run
          · rename_i guard
            obtain ⟨rfl, multiple, same⟩ := guard
            obtain ⟨value, made, resultIs⟩ := Option.map_eq_some_iff.mp run
            cases resultIs
            have bNonneg := sound.canProveGreaterEqual b1 0 b b1Sorted asked b1Is
            have contains := sound.modularSet b1 b b1Sorted b1Is
            have shift := dvd_sub_base contains multiple
            have baseNonneg := base_nonneg contains bNonneg
            rw [broadcast_value (makeBinary_int made rfl b1Is rfl (if_neg nonzero)), rampKeeps,
              if_neg step, ← evaluates, eq_comm, ← tmod_add_advances_iff nonzero,
              ← tmod_progression_iff nonzero small baseNonneg (base_le contains bNonneg) shift same]
            rw [Int.tmod_eq_emod_of_nonneg bNonneg, Int.tmod_eq_emod_of_nonneg baseNonneg,
              emod_of_contains contains multiple]
          · cases run
    · cases run
  · rw [BinOp.eval] at evaluates
    have lane := broadcastRule_sound run left right (fun logical => by cases logical) evaluates
    exact iff_of_true lane (keepsLane_of_broadcast run)

theorem modVector_exact (sound : queries.Sound allowed interp env)
    (sorted : a.Sorted allowed .int = true) (run : modVector queries a b = some (some r))
    (small : i < a.lanes) (left : a.lane interp env i = some x)
    (right : b.lane interp env i = some y) (evaluates : BinOp.mod.eval x y = some v) :
    r.lane interp env i = some v ↔
      (VecExpr.binary .mod a b).KeepsLane queries interp env i := by
  rw [modVector.eq_def] at run
  split at run
  · rename_i b1 c1 lanes c2 lanes'
    split at run
    · split at run
      · cases run
      · rename_i nonzero
        obtain ⟨b, b1Is, rfl, rfl⟩ := ramp_operands left right
        rw [keepsLane_iff b1Is]
        rw [BinOp.eval, if_neg nonzero, Option.some.injEq] at evaluates
        have b1Sorted : WellSorted allowed .int b1 = true := by
          simp only [VecExpr.Sorted, Bool.and_eq_true] at sorted
          exact sorted.1
        split at run
        · rename_i step
          obtain ⟨value, made, resultIs⟩ := Option.map_eq_some_iff.mp run
          cases resultIs
          have divides := Int.dvd_of_tmod_eq_zero step
          rw [broadcast_value (makeBinary_int made rfl b1Is rfl (if_neg nonzero)), rampKeeps,
            if_pos step, ← evaluates, ← tmod_add_eq_iff (Dvd.dvd.mul_left divides _), eq_comm]
        · rename_i step
          obtain ⟨nonneg, asked, run⟩ := Option.bind_eq_some_iff.mp run
          dsimp only at run
          split at run
          · rename_i guard
            obtain ⟨rfl, multiple⟩ := guard
            obtain ⟨base, made, resultIs⟩ := Option.map_eq_some_iff.mp run
            have baseIs : base.eval interp env = some ((queries.modularSet b1).base.tmod y) :=
              makeBinary_int made rfl rfl rfl (if_neg nonzero)
            have bNonneg := sound.canProveGreaterEqual b1 0 b b1Sorted asked b1Is
            have contains := sound.modularSet b1 b b1Sorted b1Is
            have shift := dvd_sub_base contains multiple
            have baseNonneg := base_nonneg contains bNonneg
            rw [rampKeeps, if_neg step]
            split at resultIs
            · rename_i same
              cases resultIs
              rw [if_pos same, ramp_value baseIs rfl, ← evaluates, eq_comm,
                ← tmod_progression_iff nonzero small baseNonneg (base_le contains bNonneg) shift
                  same]
            · rename_i different
              cases resultIs
              have remainder : (queries.modularSet b1).base.tmod y = b.tmod y := by
                rw [Int.tmod_eq_emod_of_nonneg bNonneg, Int.tmod_eq_emod_of_nonneg baseNonneg,
                  emod_of_contains contains multiple]
              have offset : y ∣ (queries.modularSet b1).base.tmod y - b := by
                rw [remainder, ← dvd_neg, neg_sub]
                exact Int.dvd_self_sub_of_tmod_eq rfl
              have lane := tmod_add_eq_iff offset (b + i * c1)
              rw [show b + i * c1 + ((queries.modularSet b1).base.tmod y - b) =
                (queries.modularSet b1).base.tmod y + i * c1 by ring] at lane
              rw [if_neg different, ← lane, VecExpr.lane, lane_ramp baseIs rfl, Option.bind_some,
                VecExpr.lane, PrimExpr.eval, Option.bind_some, BinOp.eval, if_neg nonzero,
                Option.some.injEq, ← evaluates]
          · cases run
    · cases run
  · rw [BinOp.eval] at evaluates
    have lane := broadcastRule_sound run left right (fun logical => by cases logical) evaluates
    exact iff_of_true lane (keepsLane_of_broadcast run)

theorem range_of_settlesInside {bmod : ModularSet.Entry} {lanes : Nat} {c1 c2 : Int}
    (settles : settlesInside bmod lanes c1 c2 = true) :
    (0 ≤ bmod.base ∧ bmod.base < bmod.coeff) ∧ bmod.coeff ∣ c2 ∧
      bmod.base + ((lanes : Int) - 1) * c1 < bmod.coeff := by
  simp only [settlesInside, decide_eq_true_eq] at settles
  obtain ⟨nonzero, multiple, inside⟩ := settles
  have positive : 0 < bmod.coeff := lt_of_le_of_ne bmod.coeff_nonneg (Ne.symm nonzero)
  exact ⟨bmod.base_range positive, Int.dvd_of_tmod_eq_zero multiple, inside⟩

theorem rampKeeps_floor_iff {bmod : ModularSet.Entry} {lanes : Nat} {c1 c2 n : Int}
    (contains : bmod.Contains n) (nonzero : c2 ≠ 0) (step : ¬c1.tmod c2 = 0)
    (small : i < lanes) (same : bmod.base.fdiv c2 = (bmod.base + ((lanes : Int) - 1) * c1).fdiv c2)
    (settled : bmod.coeff.tmod c2 = 0 ∨ settlesInside bmod lanes c1 c2 = true) :
    (n + i * c1).fdiv c2 = n.fdiv c2 ↔ rampKeeps bmod lanes c1 c2 i n .floorDiv := by
  have congruent := Int.modEq_iff_dvd.mp (ModularSet.Entry.contains_iff.mp contains).symm
  rw [rampKeeps, or_iff_right step]
  rcases em (bmod.coeff.tmod c2 = 0) with multiple | remains
  · refine iff_of_true ?_ (Or.inl multiple)
    rw [fdiv_add_eq_iff nonzero (dvd_sub_base contains multiple)]
    exact fdiv_progression_eq nonzero small same
  · obtain ⟨range, divides, inside⟩ := range_of_settlesInside (settled.resolve_left remains)
    rw [or_iff_right remains]
    exact fdiv_progression_iff range congruent nonzero divides small same inside

theorem floorDivVector_exact (sound : queries.Sound allowed interp env)
    (sorted : a.Sorted allowed .int = true) (run : floorDivVector queries a b = some (some r))
    (small : i < a.lanes) (left : a.lane interp env i = some x)
    (right : b.lane interp env i = some y) (evaluates : BinOp.floorDiv.eval x y = some v) :
    r.lane interp env i = some v ↔
      (VecExpr.binary .floorDiv a b).KeepsLane queries interp env i := by
  rw [floorDivVector.eq_def] at run
  split at run
  · rename_i b1 c1 lanes c2 lanes'
    split at run
    · split at run
      · cases run
      · rename_i nonzero
        obtain ⟨b, b1Is, rfl, rfl⟩ := ramp_operands left right
        rw [keepsLane_iff b1Is]
        rw [BinOp.eval, if_neg nonzero, Option.some.injEq] at evaluates
        have b1Sorted : WellSorted allowed .int b1 = true := by
          simp only [VecExpr.Sorted, Bool.and_eq_true] at sorted
          exact sorted.1
        split at run
        · rename_i step
          obtain ⟨base, baseMade, run⟩ := Option.bind_eq_some_iff.mp run
          obtain ⟨stride, strideMade, run⟩ := Option.bind_eq_some_iff.mp run
          cases run
          have baseIs := makeBinary_int baseMade rfl b1Is rfl (if_neg nonzero)
          have strideIs : stride.eval interp env = some (c1.fdiv y) :=
            makeBinary_int strideMade rfl rfl rfl (if_neg nonzero)
          refine iff_of_true ?_ (Or.inl step)
          rw [ramp_value baseIs strideIs, ← evaluates, add_comm b, add_comm,
            fdiv_mul_add nonzero (Int.dvd_of_tmod_eq_zero step)]
        · rename_i step
          dsimp only at run
          split at run
          · rename_i guard
            obtain ⟨same, settled⟩ := guard
            obtain ⟨value, made, resultIs⟩ := Option.map_eq_some_iff.mp run
            cases resultIs
            have contains := sound.modularSet b1 b b1Sorted b1Is
            rw [broadcast_value (makeBinary_int made rfl b1Is rfl (if_neg nonzero)), ← evaluates,
              eq_comm, rampKeeps_floor_iff contains nonzero step small same settled]
            rfl
          · cases run
    · cases run
  · rw [BinOp.eval] at evaluates
    have lane := broadcastRule_sound run left right (fun logical => by cases logical) evaluates
    exact iff_of_true lane (keepsLane_of_broadcast run)

theorem floorModVector_exact (sound : queries.Sound allowed interp env)
    (sorted : a.Sorted allowed .int = true) (run : floorModVector queries a b = some (some r))
    (small : i < a.lanes) (left : a.lane interp env i = some x)
    (right : b.lane interp env i = some y) (evaluates : BinOp.floorMod.eval x y = some v) :
    r.lane interp env i = some v ↔
      (VecExpr.binary .floorMod a b).KeepsLane queries interp env i := by
  rw [floorModVector.eq_def] at run
  split at run
  · rename_i b1 c1 lanes c2 lanes'
    split at run
    · split at run
      · cases run
      · rename_i nonzero
        obtain ⟨b, b1Is, rfl, rfl⟩ := ramp_operands left right
        rw [keepsLane_iff b1Is]
        rw [BinOp.eval, if_neg nonzero, Option.some.injEq] at evaluates
        have b1Sorted : WellSorted allowed .int b1 = true := by
          simp only [VecExpr.Sorted, Bool.and_eq_true] at sorted
          exact sorted.1
        have contains := sound.modularSet b1 b b1Sorted b1Is
        split at run
        · rename_i step
          obtain ⟨value, made, resultIs⟩ := Option.map_eq_some_iff.mp run
          cases resultIs
          obtain ⟨m, c1Is⟩ := Int.dvd_of_tmod_eq_zero step
          refine iff_of_true ?_ (Or.inl step)
          rw [broadcast_value (makeBinary_int made rfl b1Is rfl (if_neg nonzero)), ← evaluates,
            c1Is, show (i : Int) * (y * m) = y * (i * m) by ring, Int.add_mul_fmod_self_left]
        · rename_i step
          dsimp only at run
          split at run
          · rename_i guard
            obtain ⟨same, multiple⟩ := guard
            obtain ⟨base, made, resultIs⟩ := Option.map_eq_some_iff.mp run
            cases resultIs
            have shift := dvd_sub_base contains multiple
            have baseIs : base.eval interp env = some ((queries.modularSet b1).base.fmod y) :=
              makeBinary_int made rfl rfl rfl (if_neg nonzero)
            rw [ramp_value baseIs rfl, ← evaluates, eq_comm, ← fmod_eq_of_dvd_sub shift,
              fmod_add_eq_iff nonzero,
              rampKeeps_floor_iff contains nonzero step small same (Or.inl multiple)]
            rfl
          · split at run
            · rename_i guard
              obtain ⟨same, settles⟩ := guard
              obtain ⟨base, made, resultIs⟩ := Option.map_eq_some_iff.mp run
              cases resultIs
              rw [ramp_value (makeBinary_int made rfl b1Is rfl (if_neg nonzero)) rfl, ← evaluates,
                eq_comm, fmod_add_eq_iff nonzero,
                rampKeeps_floor_iff contains nonzero step small same (Or.inr settles)]
              rfl
            · split at run
              · rename_i multiple
                obtain ⟨base, made, resultIs⟩ := Option.map_eq_some_iff.mp run
                cases resultIs
                have shift := dvd_sub_base contains multiple
                have baseIs : base.eval interp env = some ((queries.modularSet b1).base.fmod y) :=
                  makeBinary_int made rfl rfl rfl (if_neg nonzero)
                refine iff_of_true ?_ (Or.inr (Or.inl multiple))
                rw [VecExpr.lane, lane_ramp baseIs rfl, Option.bind_some, VecExpr.lane,
                  PrimExpr.eval, Option.bind_some, BinOp.eval, if_neg nonzero, Option.some.injEq,
                  ← evaluates, ← fmod_eq_of_dvd_sub shift, Int.add_fmod, Int.fmod_fmod,
                  ← Int.add_fmod]
              · cases run
    · cases run
  · rw [BinOp.eval] at evaluates
    have lane := broadcastRule_sound run left right (fun logical => by cases logical) evaluates
    exact iff_of_true lane (keepsLane_of_broadcast run)

end Division

theorem keepsLane_of_forall {queries : Queries} {interp : Nat → Env → Option Int} {env : Env}
    {i : Nat} {op : BinOp} {a b : VecExpr}
    (keeps : ∀ bmod lanes c1 c2 n, rampKeeps bmod lanes c1 c2 i n op) :
    (VecExpr.binary op a b).KeepsLane queries interp env i := by
  rw [VecExpr.KeepsLane.eq_def]
  split
  · rename_i same
    cases same
    intro n _
    exact keeps _ _ _ _ n
  · trivial

/-- A vector rule keeps lane `i` exactly where it is not a division of a ramp that changes it. -/
theorem vectorRules_exact {allowed : BinOp → Bool} {interp : Nat → Env → Option Int} {env : Env}
    {queries : Queries} {sort : ExprSort} {e r : VecExpr} {i : Nat} {v : Int}
    (sound : queries.Sound allowed interp env) (sorted : e.Sorted allowed sort = true)
    (run : vectorRules queries e = some (some r)) (small : i < e.lanes)
    (evaluates : e.lane interp env i = some v) :
    r.lane interp env i = some v ↔ e.KeepsLane queries interp env i := by
  cases e with
  | ramp base stride lanes => cases run
  | broadcast value lanes => cases run
  | not a =>
    cases a with
    | broadcast value lanes =>
      cases run
      exact iff_of_true evaluates trivial
    | ramp | binary | not => cases run
  | binary op a b =>
    obtain ⟨x, y, left, right, evaluates⟩ := lane_operands evaluates
    have operands : op.resultSort = sort ∧ a.Sorted allowed op.operandSort = true ∧
        b.Sorted allowed op.operandSort = true := by
      simp only [VecExpr.Sorted, Bool.and_eq_true, beq_iff_eq] at sorted
      exact ⟨sorted.1.1, sorted.1.2, sorted.2⟩
    obtain ⟨-, aSorted, bSorted⟩ := operands
    have trivially (rule : r.lane interp env i = some v)
        (keeps : ∀ bmod lanes c1 c2 n, rampKeeps bmod lanes c1 c2 i n op) :
        r.lane interp env i = some v ↔ (VecExpr.binary op a b).KeepsLane queries interp env i :=
      iff_of_true rule (keepsLane_of_forall keeps)
    cases op with
    | add =>
      cases evaluates
      exact trivially (addVector_sound run left right) fun _ _ _ _ _ => trivial
    | sub =>
      cases evaluates
      exact trivially (subVector_sound run left right) fun _ _ _ _ _ => trivial
    | mul =>
      cases evaluates
      exact trivially (mulVector_sound run left right) fun _ _ _ _ _ => trivial
    | div => exact divVector_exact sound aSorted run small left right evaluates
    | mod => exact modVector_exact sound aSorted run small left right evaluates
    | floorDiv => exact floorDivVector_exact sound aSorted run small left right evaluates
    | floorMod => exact floorModVector_exact sound aSorted run small left right evaluates
    | min =>
      exact trivially (nestedVector_sound (Or.inl rfl) run left right evaluates)
        fun _ _ _ _ _ => trivial
    | max =>
      exact trivially (nestedVector_sound (Or.inr rfl) run left right evaluates)
        fun _ _ _ _ _ => trivial
    | eq =>
      exact trivially (broadcastRule_sound run left right (fun logical => by cases logical)
        evaluates) fun _ _ _ _ _ => trivial
    | lt =>
      cases evaluates
      exact trivially (ltVector_sound run left right) fun _ _ _ _ _ => trivial
    | and =>
      exact trivially (broadcastRule_sound run left right
        (fun _ => ⟨lane_truth aSorted left, lane_truth bSorted right⟩) evaluates)
        fun _ _ _ _ _ => trivial
    | or =>
      exact trivially (broadcastRule_sound run left right
        (fun _ => ⟨lane_truth aSorted left, lane_truth bSorted right⟩) evaluates)
        fun _ _ _ _ _ => trivial
    | ne | le | gt | ge | shiftLeft | shiftRight | bitwiseAnd => cases run

/-- `ramp(x, 2, 2) / broadcast(2)` has the lanes 0 and 0 at `x = -1`, and is rewritten to
`ramp(x / 2, 1, 2)`. -/
theorem vectorRules_change :
    ¬∀ (allowed : BinOp → Bool) (interp : Nat → Env → Option Int) (env : Env) (queries : Queries)
      (sort : ExprSort) (e r : VecExpr) (i : Nat) (v : Int),
      queries.Sound allowed interp env → e.Sorted allowed sort = true →
      vectorRules queries e = some (some r) → i < e.lanes → e.lane interp env i = some v →
      r.lane interp env i = some v := by
  intro preserved
  have same := preserved BinOp.indexFragment (fun _ _ => none) (fun _ => -1) (.lowerBound 0 (-1))
    .int (.binary .div (.ramp (.var 0) (.intImm 2) 2) (.broadcast (.intImm 2) 2)) _ 1 0
    (Queries.lowerBound_sound (by decide)) rfl rfl (by decide) rfl
  have one : some (1 : Int) = some 0 := same
  cases one

/-- The last lane of `ramp(x, 4, 3) // broadcast(2)` at `x = 5`. -/
theorem vectorRules_exact_floorDiv :
    ∃ r, vectorRules (.lowerBound 0 0)
        (.binary .floorDiv (.ramp (.var 0) (.intImm 4) 3) (.broadcast (.intImm 2) 3)) =
          some (some r) ∧
      (r.lane (fun _ _ => none) (fun _ => 5) 2 = some 6 ↔
        (VecExpr.binary .floorDiv (.ramp (.var 0) (.intImm 4) 3)
          (.broadcast (.intImm 2) 3)).KeepsLane (.lowerBound 0 0) (fun _ _ => none) (fun _ => 5) 2) := by
  have bounded : (0 : Int) ≤ (fun _ => 5 : Env) 0 := by decide
  have sound : (Queries.lowerBound 0 0).Sound BinOp.indexFragment (fun _ _ => none) fun _ => 5 :=
    Queries.lowerBound_sound bounded
  have sorted : VecExpr.Sorted BinOp.indexFragment .int (.binary .floorDiv
      (.ramp (.var 0) (.intImm 4) 3) (.broadcast (.intImm 2) 3)) = true := rfl
  exact ⟨_, rfl, vectorRules_exact sound sorted rfl (by decide) rfl⟩

end Tvm.Arith
