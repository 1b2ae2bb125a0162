import Tvm.Arith.RewriteRules

/-!
# Soundness of a rule

A rule is sound where its result denotes what its source denotes, for all values of the
pattern variables that its condition and its queries admit.  For rules without `select` this
is a statement about integers.
-/

namespace Tvm.Arith

def Query.Holds (values : PVar → Option Int) (consts : Consts) : Query → Prop
  | .canProveGreaterEqual e bound => ∀ v, e.denote values consts = some v → bound consts ≤ v
  | .canProveEqualZero e => ∀ v, e.denote values consts = some v → v = 0

/-- The variables that stand for conditions have truth values. -/
def Rule.Truthful (sort : ExprSort) (values : PVar → Option Int) (rule : Rule) : Prop :=
  ∀ v n, (v, ExprSort.bool) ∈ rule.source.occurs sort → values v = some n → n = 0 ∨ n = 1

structure Rule.Admits (sort : ExprSort) (values : PVar → Option Int) (consts : Consts)
    (rule : Rule) : Prop where
  cond : rule.cond consts = true
  queries : ∀ query ∈ rule.queries, query.Holds values consts
  truthful : rule.Truthful sort values

def Rule.Preserves (values : PVar → Option Int) (consts : Consts) (rule : Rule) : Prop :=
  ∀ v, rule.source.denote values consts = some v → rule.result.denote values consts = some v

def Rule.Sound (sort : ExprSort) (rule : Rule) : Prop :=
  ∀ values consts, rule.Admits sort values consts → rule.Preserves values consts

/-- The values of `x` at which a rule with this label keeps the value. -/
def Label.holdsAt : Label → Consts → Int → Bool
  | .plain, _, _ => true
  | .truncDivDifference, c, x =>
    ¬(x + c.c2.fmod c.c3 < 0 ∧ (x + c.c2) % c.c3 ≠ 0 ∧
      c.c3 ≤ (x + c.c2) % c.c3 + (c.c1 - c.c2))
  | .roundUpMin, _, x => 1 ≤ x

def Rule.meets (values : PVar → Option Int) (consts : Consts) (rule : Rule) : Bool :=
  (values .x).all (rule.label.holdsAt consts)

/-- Where the source has a value, so has the result; it is the same one exactly at the values of
the label. -/
def Rule.Exact (sort : ExprSort) (rule : Rule) : Prop :=
  ∀ values consts v, rule.Admits sort values consts →
    rule.source.denote values consts = some v →
      ∃ w, rule.result.denote values consts = some w ∧
        (w = v ↔ rule.meets values consts = true)

theorem Rule.meets_plain {values : PVar → Option Int} {consts : Consts} {rule : Rule}
    (plain : rule.label = .plain) : rule.meets values consts = true := by
  rw [meets, plain]
  cases values .x <;> rfl

theorem Rule.Sound.exact {sort : ExprSort} {rule : Rule} (sound : rule.Sound sort)
    (plain : rule.label = .plain) : rule.Exact sort := by
  intro values consts v admits denotes
  exact ⟨v, sound values consts admits v denotes, iff_of_true rfl (meets_plain plain)⟩

def plainRules (rules : List Rule) : Bool :=
  rules.all fun rule => rule.label == .plain

theorem exact_of_sound {sort : ExprSort} {rules : List Rule} (plain : plainRules rules = true)
    (sound : ∀ rule ∈ rules, rule.Sound sort) : ∀ rule ∈ rules, rule.Exact sort := by
  intro rule member
  have isPlain := List.all_eq_true.mp plain rule member
  exact (sound rule member).exact (beq_iff_eq.mp isPlain)

def BinOp.val : BinOp → Int → Int → Int
  | .add, a, b => a + b
  | .sub, a, b => a - b
  | .mul, a, b => a * b
  | .div, a, b => a.tdiv b
  | .mod, a, b => a.tmod b
  | .floorDiv, a, b => a.fdiv b
  | .floorMod, a, b => a.fmod b
  | .min, a, b => Min.min a b
  | .max, a, b => Max.max a b
  | .eq, a, b => truth (a = b)
  | .ne, a, b => truth (a ≠ b)
  | .lt, a, b => truth (a < b)
  | .le, a, b => truth (a ≤ b)
  | .gt, a, b => truth (a > b)
  | .ge, a, b => truth (a ≥ b)
  | .and, a, b => truth (a ≠ 0 ∧ b ≠ 0)
  | .or, a, b => truth (a ≠ 0 ∨ b ≠ 0)
  | .shiftLeft, a, b => a * 2 ^ b.toNat
  | .shiftRight, a, b => a.fdiv (2 ^ b.toNat)
  | .bitwiseAnd, a, b => Int.land a b

/-- The second operands at which an operator has a value. -/
def BinOp.DefinedAt : BinOp → Int → Prop
  | .div, b | .mod, b | .floorDiv, b | .floorMod, b => b ≠ 0
  | .shiftLeft, b | .shiftRight, b => 0 ≤ b
  | _, _ => True

theorem BinOp.eval_eq_some_iff {op : BinOp} {a b v : Int} :
    op.eval a b = some v ↔ op.DefinedAt b ∧ op.val a b = v := by
  cases op <;> simp [BinOp.eval, BinOp.DefinedAt, BinOp.val]

namespace Pat

/-- The value of a pattern without `select` whose variables all have values. -/
def val (ρ : PVar → Int) (consts : Consts) : Pat → Int
  | .var v => ρ v
  | .imm c => consts c
  | .lit value => value
  | .const compute => compute consts
  | .binary op p q => op.val (val ρ consts p) (val ρ consts q)
  | .not p => truth (val ρ consts p = 0)
  | .select _ _ _ => 0

def Defined (ρ : PVar → Int) (consts : Consts) : Pat → Prop
  | .binary op p q => (Defined ρ consts p ∧ Defined ρ consts q) ∧ op.DefinedAt (val ρ consts q)
  | .not p => Defined ρ consts p
  | .select _ _ _ => False
  | _ => True

/-- A pattern without `select` over the given variables. -/
def strictOver (vars : List PVar) : Pat → Bool
  | .var v => vars.contains v
  | .binary _ p q => strictOver vars p && strictOver vars q
  | .not p => strictOver vars p
  | .select _ _ _ => false
  | _ => true

def vars : Pat → List PVar
  | .var v => [v]
  | .binary _ p q => vars p ++ vars q
  | .not p => vars p
  | .select p q r => vars p ++ vars q ++ vars r
  | _ => []

variable {values : PVar → Option Int} {ρ : PVar → Int} {consts : Consts} {p q : Pat}

theorem values_of_denote {known : List PVar} {v : Int} (strict : p.strictOver known = true)
    (denotes : p.denote values consts = some v) : ∀ w ∈ p.vars, ∃ n, values w = some n := by
  induction p generalizing v with
  | var w =>
    intro u member
    rw [vars, List.mem_singleton] at member
    rw [member]
    exact ⟨v, denotes⟩
  | imm | lit | const =>
    intro u member
    cases member
  | binary op p q leftHypothesis rightHypothesis =>
    simp only [denote, Option.bind_eq_some_iff] at denotes
    obtain ⟨x, left, y, right, -⟩ := denotes
    simp only [strictOver, Bool.and_eq_true] at strict
    intro u member
    rcases List.mem_append.mp member with member | member
    · exact leftHypothesis strict.1 left u member
    · exact rightHypothesis strict.2 right u member
  | not p ih =>
    obtain ⟨x, operand, -⟩ := Option.map_eq_some_iff.mp denotes
    exact ih strict operand
  | select => cases strict

theorem denote_eq_some_iff {known : List PVar} {v : Int} (strict : p.strictOver known = true)
    (bound : ∀ w ∈ known, values w = some (ρ w)) :
    p.denote values consts = some v ↔ p.Defined ρ consts ∧ p.val ρ consts = v := by
  induction p generalizing v with
  | var w =>
    rw [strictOver, List.contains_iff_mem] at strict
    simp only [denote, bound w strict, Option.some.injEq, Defined, val, true_and]
  | imm | lit | const => simp only [denote, Option.some.injEq, Defined, val, true_and]
  | binary op p q leftHypothesis rightHypothesis =>
    simp only [strictOver, Bool.and_eq_true] at strict
    simp only [denote, Option.bind_eq_some_iff, leftHypothesis strict.1,
      rightHypothesis strict.2, BinOp.eval_eq_some_iff, Defined, val]
    constructor
    · rintro ⟨x, ⟨left, rfl⟩, y, ⟨right, rfl⟩, defined, rfl⟩
      exact ⟨⟨⟨left, right⟩, defined⟩, rfl⟩
    · rintro ⟨⟨⟨left, right⟩, defined⟩, rfl⟩
      exact ⟨_, ⟨left, rfl⟩, _, ⟨right, rfl⟩, defined, rfl⟩
  | not p ih =>
    simp only [denote, Option.map_eq_some_iff, ih strict, Defined, val]
    constructor
    · rintro ⟨x, ⟨defined, rfl⟩, rfl⟩
      exact ⟨defined, rfl⟩
    · rintro ⟨defined, rfl⟩
      exact ⟨_, ⟨defined, rfl⟩, rfl⟩
  | select => cases strict

theorem add_def (p q : Pat) : p + q = .binary .add p q := rfl

theorem sub_def (p q : Pat) : p - q = .binary .sub p q := rfl

theorem mul_def (p q : Pat) : p * q = .binary .mul p q := rfl

theorem min_def (p q : Pat) : min p q = .binary .min p q := rfl

theorem max_def (p q : Pat) : max p q = .binary .max p q := rfl

theorem and_def (p q : Pat) : p &&& q = .binary .and p q := rfl

theorem or_def (p q : Pat) : p ||| q = .binary .or p q := rfl

theorem not_def (p : Pat) : ~~~p = .not p := rfl

theorem zero_def : (0 : Pat) = .lit 0 := rfl

theorem one_def : (1 : Pat) = .lit 1 := rfl

theorem two_def : (2 : Pat) = .lit 2 := rfl

attribute [simp] add_def sub_def mul_def Pat.min_def Pat.max_def and_def or_def not_def zero_def
  one_def two_def Pat.val Pat.Defined BinOp.val BinOp.DefinedAt Consts.c1 Consts.c2 Consts.c3

end Pat

/-- What a positive answer says of a query without `select`. -/
def Query.HoldsTotal (ρ : PVar → Int) (consts : Consts) : Query → Prop
  | .canProveGreaterEqual e bound => e.Defined ρ consts → bound consts ≤ e.val ρ consts
  | .canProveEqualZero e => e.Defined ρ consts → e.val ρ consts = 0

def Query.strictOver (vars : List PVar) : Query → Bool
  | .canProveGreaterEqual e _ => e.strictOver vars
  | .canProveEqualZero e => e.strictOver vars

/-- No `select`, and all variables occur in the source. -/
def Rule.strict (rule : Rule) : Bool :=
  rule.source.strictOver rule.source.vars && rule.result.strictOver rule.source.vars &&
    rule.queries.all (Query.strictOver rule.source.vars)

structure Rule.TotalSound (sort : ExprSort) (rule : Rule) : Prop where
  strict : rule.strict = true
  preserves : ∀ (ρ : PVar → Int) (consts : Consts), rule.cond consts = true →
    (∀ query ∈ rule.queries, query.HoldsTotal ρ consts) →
    (∀ v, (v, ExprSort.bool) ∈ rule.source.occurs sort → ρ v = 0 ∨ ρ v = 1) →
    rule.source.Defined ρ consts →
      rule.result.Defined ρ consts ∧ rule.result.val ρ consts = rule.source.val ρ consts

structure Rule.TotalExact (sort : ExprSort) (rule : Rule) : Prop where
  strict : rule.strict = true
  x_mem : PVar.x ∈ rule.source.vars
  exact : ∀ (ρ : PVar → Int) (consts : Consts), rule.cond consts = true →
    (∀ query ∈ rule.queries, query.HoldsTotal ρ consts) → rule.source.Defined ρ consts →
      rule.result.Defined ρ consts ∧
        (rule.result.val ρ consts = rule.source.val ρ consts ↔
          rule.label.holdsAt consts (ρ .x) = true)

theorem Rule.Admits.total {sort : ExprSort} {values : PVar → Option Int} {consts : Consts}
    {rule : Rule} {ρ : PVar → Int} (strict : rule.strict = true)
    (bound : ∀ w ∈ rule.source.vars, values w = some (ρ w))
    (admits : rule.Admits sort values consts) :
    ∀ query ∈ rule.queries, query.HoldsTotal ρ consts := by
  simp only [Rule.strict, Bool.and_eq_true, List.all_eq_true] at strict
  intro query member
  have holds := admits.queries query member
  have queryStrict := strict.2 query member
  cases query with
  | canProveGreaterEqual e least =>
    intro defined
    exact holds _ ((Pat.denote_eq_some_iff queryStrict bound).mpr ⟨defined, rfl⟩)
  | canProveEqualZero e =>
    intro defined
    exact holds _ ((Pat.denote_eq_some_iff queryStrict bound).mpr ⟨defined, rfl⟩)

theorem Rule.exists_total {values : PVar → Option Int} {consts : Consts} {rule : Rule} {v : Int}
    (strict : rule.strict = true) (denotes : rule.source.denote values consts = some v) :
    ∃ ρ : PVar → Int, ∀ w ∈ rule.source.vars, values w = some (ρ w) := by
  simp only [Rule.strict, Bool.and_eq_true] at strict
  refine ⟨fun w => (values w).getD 0, fun w member => ?_⟩
  obtain ⟨n, isValue⟩ := Pat.values_of_denote strict.1.1 denotes w member
  simp only [isValue, Option.getD_some]

theorem Pat.mem_vars_of_occurs {p : Pat} {sort found : ExprSort} {v : PVar}
    (member : (v, found) ∈ p.occurs sort) : v ∈ p.vars := by
  induction p generalizing sort with
  | var w =>
    rw [occurs, List.mem_singleton, Prod.mk.injEq] at member
    rw [vars, List.mem_singleton]
    exact member.1
  | imm | lit | const => cases member
  | binary op p q leftHypothesis rightHypothesis =>
    rcases List.mem_append.mp member with member | member
    · exact List.mem_append_left _ (leftHypothesis member)
    · exact List.mem_append_right _ (rightHypothesis member)
  | not p ih => exact ih member
  | select p q r conditionHypothesis trueHypothesis falseHypothesis =>
    rcases List.mem_append.mp member with member | member
    · rcases List.mem_append.mp member with member | member
      · exact List.mem_append_left _ (List.mem_append_left _ (conditionHypothesis member))
      · exact List.mem_append_left _ (List.mem_append_right _ (trueHypothesis member))
    · exact List.mem_append_right _ (falseHypothesis member)

theorem Rule.TotalSound.sound {sort : ExprSort} {rule : Rule} (total : rule.TotalSound sort) :
    rule.Sound sort := by
  intro values consts admits v denotes
  obtain ⟨ρ, bound⟩ := Rule.exists_total total.strict denotes
  have strict := total.strict
  simp only [Rule.strict, Bool.and_eq_true] at strict
  obtain ⟨defined, valueIs⟩ := (Pat.denote_eq_some_iff strict.1.1 bound).mp denotes
  have truthful : ∀ w, (w, ExprSort.bool) ∈ rule.source.occurs sort → ρ w = 0 ∨ ρ w = 1 :=
    fun w member =>
      admits.truthful w (ρ w) member (bound w (Pat.mem_vars_of_occurs member))
  obtain ⟨resultDefined, same⟩ := total.preserves ρ consts admits.cond
    (admits.total total.strict bound) truthful defined
  exact (Pat.denote_eq_some_iff strict.1.2 bound).mpr ⟨resultDefined, same.trans valueIs⟩

theorem Rule.TotalExact.exact_of_total {sort : ExprSort} {rule : Rule}
    (total : rule.TotalExact sort) : rule.Exact sort := by
  intro values consts v admits denotes
  obtain ⟨ρ, bound⟩ := Rule.exists_total total.strict denotes
  have strict := total.strict
  simp only [Rule.strict, Bool.and_eq_true] at strict
  obtain ⟨defined, rfl⟩ := (Pat.denote_eq_some_iff strict.1.1 bound).mp denotes
  obtain ⟨resultDefined, same⟩ :=
    total.exact ρ consts admits.cond (admits.total total.strict bound) defined
  refine ⟨_, (Pat.denote_eq_some_iff strict.1.2 bound).mpr ⟨resultDefined, rfl⟩, ?_⟩
  rw [meets, bound .x total.x_mem, Option.all_some]
  exact same

end Tvm.Arith
