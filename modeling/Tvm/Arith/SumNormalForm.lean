import Tvm.Arith.SimplifySplitExprs

/-!
# The normal form of a sum

When `SimplifySplitExprs` keeps the value.  A lower factor that is the largest `int64_t` is taken
for the infinite upper factor of another term.
-/

namespace Tvm.Arith

variable {ι : Type} [DecidableEq ι] {v : ι → Int} {lhs rhs : SplitExpr ι}
  {args rest terms : List (SplitExpr ι)}

def termsAt (i : ι) (mode : DivMode) (args : List (SplitExpr ι)) : List (SplitExpr ι) :=
  args.filter fun e => e.index = i ∧ e.divMode = mode

def farScale (terms : List (SplitExpr ι)) : Int :=
  ((terms.filter fun e => e.lowerFactor = kPosInf).map SplitExpr.scale).sum

/-- The quotient by the largest `int64_t` and a whole quotient whose scales agree as if this were
the remainder of that division. -/
def Collides (terms : List (SplitExpr ι)) : Prop :=
  ∃ rhs ∈ terms, ∃ s, rhs.upperFactor = kPosInf ∧ rhs.lowerFactor < kPosInf ∧ rhs.scale ≠ 0 ∧
    farScale terms = s * rhs.scale ∧ kPosInf = s * rhs.lowerFactor

/-- The terms that the rounds of the outer loop lose. -/
def lost : Nat → List (SplitExpr ι) → List (SplitExpr ι)
  | 0, _ => []
  | _ + 1, [] => []
  | rounds + 1, lhs :: rest =>
    if lhs.scale = 0 then lost rounds rest
    else if lhs.Swallowed rest then lhs :: lost rounds (scan lhs rest).2
    else lost rounds (scan lhs rest).2

/-- What the order of the arguments is about. -/
def SplitExpr.key (e : SplitExpr ι) : ι × Int :=
  (e.index, e.lowerFactor)

/-- A scan keeps the factors valid, the number of terms, and their indices and lower factors. -/
theorem scan_keeps (verified : ∀ e ∈ lhs :: rest, e.Verified) :
    (∀ e ∈ (scan lhs rest).1 :: (scan lhs rest).2, e.Verified) ∧
      (scan lhs rest).1.index = lhs.index ∧
      (scan lhs rest).2.map SplitExpr.key = rest.map SplitExpr.key := by
  obtain ⟨first, others⟩ := List.forall_mem_cons.mp verified
  have reset : lhs.reset.Verified := ⟨first.lower, first.lowerFits, first.upper, first.upperFits⟩
  rcases scan_cases first.lower rest with ⟨scanned, -⟩ |
    ⟨before, rhs, after, rfl, index, -, result⟩
  · rw [scanned]
    exact ⟨verified, rfl, rfl⟩
  · have old : rhs.Verified := others rhs (List.mem_append_right before List.mem_cons_self)
    have replaced (rhs' : SplitExpr ι) (new : rhs'.Verified) (same : rhs'.key = rhs.key)
        (scanned : scan lhs (before ++ rhs :: after) = (lhs.reset, before ++ rhs' :: after)) :
        (∀ e ∈ (scan lhs (before ++ rhs :: after)).1 :: (scan lhs (before ++ rhs :: after)).2,
          e.Verified) ∧ (scan lhs (before ++ rhs :: after)).1.index = lhs.index ∧
        (scan lhs (before ++ rhs :: after)).2.map SplitExpr.key =
          (before ++ rhs :: after).map SplitExpr.key := by
      rw [scanned]
      refine ⟨List.forall_mem_cons.mpr ⟨reset, fun e member => ?_⟩, rfl, ?_⟩
      · rcases List.mem_append.mp member with member | member
        · exact others e (List.mem_append_left _ member)
        · rcases List.mem_cons.mp member with rfl | member
          · exact new
          · exact others e (List.mem_append_right before (List.mem_cons_of_mem rhs member))
      · rw [List.map_append, List.map_append, List.map_cons, List.map_cons, same]
    rcases result with ⟨folds, scanned⟩ | ⟨-, merges, scanned⟩
    · exact replaced { rhs with scale := rhs.scale + lhs.scale }
        ⟨old.lower, old.lowerFits, old.upper, old.upperFits⟩ rfl scanned
    · refine replaced { rhs with upperFactor := lhs.upperFactor } ⟨old.lower, old.lowerFits,
        first.upper.imp_right fun upper => ⟨upper.1, ?_⟩, first.upperFits⟩ rfl scanned
      exact (Dvd.intro_left _ merges.factors.symm).trans upper.2

omit [DecidableEq ι] in
theorem Segmented.congr {args' : List (SplitExpr ι)} (segmented : Segmented args)
    (same : args'.map SplitExpr.key = args.map SplitExpr.key) : Segmented args' := by
  induction args generalizing args' with
  | nil =>
    rw [List.map_eq_nil_iff.mp same]
    trivial
  | cons arg rest ih =>
    obtain ⟨⟨segment, others, rfl, inside, apart⟩, segmented⟩ := segmented
    obtain ⟨arg', rest', rfl, equal, same⟩ := List.map_eq_cons_iff.mp same
    obtain ⟨index, lower⟩ := Prod.mk.inj equal
    have segmented' := ih segmented same
    rw [List.map_append] at same
    obtain ⟨segment', others', rfl, sameSegment, sameOthers⟩ := List.map_eq_append_iff.mp same
    refine ⟨⟨segment', others', rfl, fun e member => ?_, fun e member => ?_⟩, segmented'⟩
    · obtain ⟨t, origin, equal⟩ := List.mem_map.mp
        (sameSegment ▸ List.mem_map_of_mem member)
      obtain ⟨index', lower'⟩ := Prod.mk.inj equal
      rw [index, lower, ← index', ← lower']
      exact inside t origin
    · obtain ⟨t, origin, equal⟩ := List.mem_map.mp (sameOthers ▸ List.mem_map_of_mem member)
      rw [index, ← (Prod.mk.inj equal).1]
      exact apart t origin

omit [DecidableEq ι] in
theorem Segmented.drop {before : List (SplitExpr ι)} (segmented : Segmented (before ++ rest)) :
    Segmented rest := by
  induction before with
  | nil => exact segmented
  | cons _ _ ih => exact ih segmented.2

theorem mergeSplits_keeps (verified : ∀ e ∈ args, e.Verified) (rounds : Nat) :
    (∀ e ∈ mergeSplits rounds args, e.Verified ∧ ∃ t ∈ args, e.index = t.index) ∧
      total v (mergeSplits rounds args) + total v (lost rounds args) = total v args := by
  induction rounds generalizing args with
  | zero => exact ⟨fun e member => ⟨verified e member, e, member, rfl⟩, add_zero _⟩
  | succ rounds ih =>
    cases args with
    | nil => exact ⟨nofun, rfl⟩
    | cons lhs rest =>
      obtain ⟨first, others⟩ := List.forall_mem_cons.mp verified
      rw [mergeSplits, lost]
      split
      · rename_i zero
        obtain ⟨kept, value⟩ := ih others
        refine ⟨List.forall_mem_cons.mpr ⟨⟨first, lhs, List.mem_cons_self, rfl⟩,
          fun e member => ?_⟩, ?_⟩
        · obtain ⟨valid, t, origin, index⟩ := kept e member
          exact ⟨valid, t, List.mem_cons_of_mem lhs origin, index⟩
        · rw [total_cons, total_cons, add_assoc, value]
      · rename_i scaled
        obtain ⟨valid, index, same⟩ := scan_keeps verified
        obtain ⟨valid, valid'⟩ := List.forall_mem_cons.mp valid
        obtain ⟨kept, value⟩ := ih valid'
        have step := scan_value (v := v) verified scaled
        refine ⟨List.forall_mem_cons.mpr ⟨⟨valid, lhs, List.mem_cons_self, index⟩,
          fun e member => ?_⟩, ?_⟩
        · obtain ⟨valid, t, origin, index⟩ := kept e member
          obtain ⟨u, origin, equal⟩ := List.mem_map.mp
            (same ▸ List.mem_map_of_mem origin : t.key ∈ rest.map SplitExpr.key)
          exact ⟨valid, u, List.mem_cons_of_mem lhs origin,
            index.trans (Prod.mk.inj equal).1.symm⟩
        · rw [total_cons, total_cons, ← step, ← value]
          split
          · rw [total_cons]
            ring
          · ring

theorem lost_near (verified : ∀ e ∈ args, e.Verified) (near : ∀ e ∈ args, e.lowerFactor ≠ kPosInf)
    (rounds : Nat) : lost rounds args = [] := by
  induction rounds generalizing args with
  | zero => rfl
  | succ rounds ih =>
    cases args with
    | nil => rfl
    | cons lhs rest =>
      obtain ⟨here, near⟩ := List.forall_mem_cons.mp near
      have kept : ¬lhs.Swallowed rest := fun swallowed => here swallowed.1
      rw [lost, if_neg kept]
      split
      · exact ih (List.forall_mem_cons.mp verified).2 near
      · obtain ⟨valid, -, same⟩ := scan_keeps verified
        refine ih (List.forall_mem_cons.mp valid).2 fun e member => ?_
        obtain ⟨t, origin, equal⟩ := List.mem_map.mp
          (same ▸ List.mem_map_of_mem member : e.key ∈ rest.map SplitExpr.key)
        rw [← (Prod.mk.inj equal).2]
        exact near t origin

omit [DecidableEq ι] in
theorem not_collides (near : ∀ e ∈ terms, e.lowerFactor ≠ kPosInf) : ¬Collides terms := by
  rintro ⟨rhs, -, s, -, -, scaled, sum, factors⟩
  have none : farScale terms = 0 := by
    rw [farScale, List.filter_eq_nil_iff.mpr fun e member => by simpa using near e member]
    rfl
  rw [(mul_eq_zero.mp (sum.symm.trans none)).resolve_right scaled, zero_mul] at factors
  cases factors

omit [DecidableEq ι] in
theorem farScale_cons (e : SplitExpr ι) (terms : List (SplitExpr ι)) : farScale (e :: terms) =
    (if e.lowerFactor = kPosInf then e.scale else 0) + farScale terms := by
  rw [farScale, List.filter_cons]
  by_cases far : e.lowerFactor = kPosInf
  · rw [if_pos far, if_pos (decide_eq_true far), List.map_cons, List.sum_cons]
    rfl
  · rw [if_neg far, if_neg (by simpa using far), zero_add]
    rfl

omit [DecidableEq ι] in
theorem farScale_append (terms rest : List (SplitExpr ι)) :
    farScale (terms ++ rest) = farScale terms + farScale rest := by
  rw [farScale, List.filter_append, List.map_append, List.sum_append]
  rfl

omit [DecidableEq ι] in
theorem collides_congr {terms' : List (SplitExpr ι)} (sum : farScale terms = farScale terms')
    (members : ∀ e, e.lowerFactor ≠ kPosInf → e.scale ≠ 0 → (e ∈ terms ↔ e ∈ terms')) :
    Collides terms ↔ Collides terms' := by
  constructor
  · rintro ⟨rhs, member, s, upper, lower, scaled, sum', factors⟩
    exact ⟨rhs, (members rhs lower.ne scaled).mp member, s, upper, lower, scaled,
      sum.symm.trans sum', factors⟩
  · rintro ⟨rhs, member, s, upper, lower, scaled, sum', factors⟩
    exact ⟨rhs, (members rhs lower.ne scaled).mpr member, s, upper, lower, scaled,
      sum.trans sum', factors⟩

omit [DecidableEq ι] in
theorem collides_skip (zero : lhs.scale = 0) : Collides (lhs :: terms) ↔ Collides terms := by
  refine collides_congr ?_ fun e _ scaled => ?_
  · rw [farScale_cons, zero, ite_self, zero_add]
  · exact List.mem_cons.trans (or_iff_right fun same => scaled (same ▸ zero))

omit [DecidableEq ι] in
theorem collides_fold {before after : List (SplitExpr ι)} (far : lhs.lowerFactor = kPosInf)
    (far' : rhs.lowerFactor = kPosInf) : Collides (lhs :: (before ++ rhs :: after)) ↔
      Collides (before ++ { rhs with scale := rhs.scale + lhs.scale } :: after) := by
  refine collides_congr ?_ fun e near _ => ?_
  · rw [farScale_cons, if_pos far, farScale_append, farScale_append, farScale_cons, farScale_cons,
      if_pos far', if_pos far']
    ring
  · have different (t : SplitExpr ι) (far : t.lowerFactor = kPosInf) : e ≠ t :=
      fun same => near (same ▸ far)
    simp only [List.mem_cons, List.mem_append, different lhs far, different rhs far', false_or,
      different { rhs with scale := rhs.scale + lhs.scale } far']

theorem mem_termsAt {e : SplitExpr ι} {i : ι} {mode : DivMode} :
    e ∈ termsAt i mode args ↔ e ∈ args ∧ e.index = i ∧ e.divMode = mode := by
  rw [termsAt, List.mem_filter, decide_eq_true_eq]

theorem termsAt_cons {e : SplitExpr ι} {i : ι} {mode : DivMode} (index : e.index = i)
    (mode' : e.divMode = mode) : termsAt i mode (e :: rest) = e :: termsAt i mode rest :=
  List.filter_cons_of_pos (decide_eq_true ⟨index, mode'⟩)

theorem termsAt_append (i : ι) (mode : DivMode) (before rest : List (SplitExpr ι)) :
    termsAt i mode (before ++ rest) = termsAt i mode before ++ termsAt i mode rest :=
  List.filter_append before rest

omit [DecidableEq ι] in
/-- In a term with the largest lower factor the mode matters. -/
theorem SplitExpr.DivModeCompatibleTo.mode {mode : DivMode}
    (compatible : lhs.DivModeCompatibleTo mode) (far : lhs.lowerFactor = kPosInf) :
    lhs.divMode = mode := by
  refine compatible.resolve_right fun ⟨one, _⟩ => ?_
  rw [far] at one
  cases one

/-- A scan from a term with another index, or with another mode and the largest lower factor. -/
theorem termsAt_scan {i : ι} {mode : DivMode} (verified : lhs.Verified)
    (other : lhs.index = i → lhs.lowerFactor = kPosInf ∧ lhs.divMode ≠ mode) :
    termsAt i mode (scan lhs rest).2 = termsAt i mode rest := by
  rcases scan_cases verified.lower rest with ⟨scanned, -⟩ |
    ⟨before, rhs, after, rfl, index, -, result⟩
  · rw [scanned]
  · have apart (compatible : lhs.DivModeCompatibleTo rhs.divMode) :
        ¬(rhs.index = i ∧ rhs.divMode = mode) := fun ⟨here, equal⟩ => by
      obtain ⟨far, different⟩ := other (index.trans here)
      exact different ((compatible.mode far).trans equal)
    rcases result with ⟨folds, scanned⟩ | ⟨-, merges, scanned⟩
    · rw [scanned, termsAt, termsAt, List.filter_append, List.filter_append, List.filter_cons_of_neg,
        List.filter_cons_of_neg]
      · simpa using apart folds.compatible
      · simpa using apart folds.compatible
    · rw [scanned, termsAt, termsAt, List.filter_append, List.filter_append, List.filter_cons_of_neg,
        List.filter_cons_of_neg]
      · simpa using apart merges.compatible
      · simpa using apart merges.compatible

omit [DecidableEq ι] in
/-- Where there is no other term with the largest lower factor. -/
theorem collides_alone (verified : ∀ e ∈ terms, e.Verified)
    (near : ∀ e ∈ terms, e.lowerFactor ≠ kPosInf) (far : lhs.lowerFactor = kPosInf)
    (modes : ∀ e ∈ terms, e.divMode = lhs.divMode) : Collides (lhs :: terms) ↔
      ∃ rhs ∈ terms, rhs.upperFactor = kPosInf ∧ lhs.MergesInto rhs := by
  have sum : farScale (lhs :: terms) = lhs.scale := by
    rw [farScale_cons, if_pos far, farScale,
      List.filter_eq_nil_iff.mpr fun e member => by simpa using near e member]
    exact add_zero _
  constructor
  · rintro ⟨rhs, member, s, upper, lower, scaled, product, factors⟩
    rcases List.mem_cons.mp member with rfl | member
    · exact absurd far lower.ne
    have quotient : lhs.scale.tdiv rhs.scale = s := by
      rw [← sum, product, Int.mul_tdiv_cancel _ scaled]
    refine ⟨rhs, member, upper, far.trans upper.symm, scaled, ?_, ?_, .inl (modes rhs member).symm⟩
    · rw [← sum, product, Int.mul_tmod_left]
    · rw [quotient, far, factors]
  · rintro ⟨rhs, member, upper, merges⟩
    refine ⟨rhs, List.mem_cons_of_mem lhs member, lhs.scale.tdiv rhs.scale, upper,
      ?_, merges.scaled, ?_, ?_⟩
    · exact lt_of_le_of_ne (verified rhs member).lowerFits (near rhs member)
    · rw [sum, Int.tdiv_mul_cancel (Int.dvd_of_tmod_eq_zero merges.divides)]
    · rw [← far, ← merges.factors]

/-- What the scan from a term with the largest lower factor finds at its index and mode: there is
no other such term, or it folds. -/
theorem collides_far (verified : ∀ e ∈ lhs :: rest, e.Verified) (segmented : Segmented (lhs :: rest))
    (scaled : lhs.scale ≠ 0) (far : lhs.lowerFactor = kPosInf) :
    (Collides (termsAt lhs.index lhs.divMode (lhs :: rest)) ↔
      lhs.Swallowed rest ∨ Collides (termsAt lhs.index lhs.divMode (scan lhs rest).2)) ∧
    (lhs.Swallowed rest → ¬Collides (termsAt lhs.index lhs.divMode (scan lhs rest).2)) := by
  obtain ⟨first, others⟩ := List.forall_mem_cons.mp verified
  have top : lhs.upperFactor = kPosInf := first.far far
  have valid (e : SplitExpr ι) (member : e ∈ termsAt lhs.index lhs.divMode rest) : e.Verified :=
    others e (mem_termsAt.mp member).1
  have modes (e : SplitExpr ι) (member : e ∈ termsAt lhs.index lhs.divMode rest) :
      e.divMode = lhs.divMode := (mem_termsAt.mp member).2.2
  have folds (e : SplitExpr ι) (member : e ∈ rest) (mode : e.divMode = lhs.divMode)
      (far' : e.lowerFactor = kPosInf) : lhs.FoldsInto e :=
    ⟨top.trans ((others e member).far far').symm, far.trans far'.symm, .inl mode.symm⟩
  rw [termsAt_cons rfl rfl]
  rcases scan_cases first.lower rest with ⟨scanned, stays⟩ |
    ⟨before, rhs, after, rfl, index, apart, ⟨folded, scanned⟩ | ⟨noFold, merges, scanned⟩⟩
  · have reached (e : SplitExpr ι) (member : e ∈ rest) (same : e.index = lhs.index) :
        ¬lhs.FoldsInto e ∧ ¬lhs.MergesInto e := by
      obtain ⟨⟨segment, beyond, rfl, inside, outside⟩, -⟩ := segmented
      refine stays e ?_
      rw [List.takeWhile_append_of_pos fun t inSegment => decide_eq_true
        ⟨(inside t inSegment).1.symm, (others t (List.mem_append_left _ inSegment)).lowerFits.trans
          top.ge⟩]
      exact List.mem_append_left _
        ((List.mem_append.mp member).resolve_right fun member => outside e member same)
    have near (e : SplitExpr ι) (member : e ∈ termsAt lhs.index lhs.divMode rest) :
        e.lowerFactor ≠ kPosInf := fun far' => by
      obtain ⟨member, same, mode⟩ := mem_termsAt.mp member
      exact (reached e member same).1 (folds e member mode far')
    have kept := not_swallowed_stay scanned scaled
    rw [scanned, collides_alone valid near far modes]
    refine ⟨iff_of_false ?_ ?_, fun swallowed => absurd swallowed kept⟩
    · rintro ⟨rhs, member, -, merges⟩
      obtain ⟨member, same, -⟩ := mem_termsAt.mp member
      exact (reached rhs member same).2 merges
    · exact not_or.mpr ⟨kept, not_collides near⟩
  · have changed := not_swallowed_fold scanned scaled
    have mode : rhs.divMode = lhs.divMode := (folded.compatible.mode far).symm
    rw [scanned, termsAt_append, termsAt_append, termsAt_cons index.symm mode,
      termsAt_cons (e := { rhs with scale := rhs.scale + lhs.scale }) index.symm mode,
      collides_fold far (folded.lower.symm.trans far)]
    exact ⟨(or_iff_right changed).symm, fun swallowed => absurd swallowed changed⟩
  · have mode : rhs.divMode = lhs.divMode := (merges.compatible.mode far).symm
    have member : rhs ∈ before ++ rhs :: after := List.mem_append_right _ List.mem_cons_self
    have infinite : rhs.upperFactor = kPosInf := merges.bound.symm.trans far
    have same : { rhs with upperFactor := lhs.upperFactor } = rhs := by
      rw [top, ← infinite]
    rw [same] at scanned
    have near (e : SplitExpr ι)
        (member' : e ∈ termsAt lhs.index lhs.divMode (before ++ rhs :: after)) :
        e.lowerFactor ≠ kPosInf := fun far' => by
      obtain ⟨inside, equal, mode'⟩ := mem_termsAt.mp member'
      have farRhs : rhs.lowerFactor ≠ kPosInf := fun far' => noFold (folds rhs member mode far')
      rcases List.mem_append.mp inside with inBefore | inAfter
      · exact (apart e inBefore).2 (folds e inside mode' far')
      · rcases List.mem_cons.mp inAfter with rfl | inAfter
        · exact farRhs far'
        -- behind the term that it merges into the lower factors are smaller
        · have below := segmented.2.drop.below inAfter (equal.trans index)
          exact farRhs ((others rhs member).lowerFits.antisymm (far' ▸ below))
    have swallowed : lhs.Swallowed (before ++ rhs :: after) := ⟨far, scanned⟩
    rw [scanned, collides_alone valid near far modes]
    refine ⟨iff_of_true ⟨rhs, mem_termsAt.mpr ⟨member, index.symm, mode⟩, infinite, merges⟩
      (.inl swallowed), fun _ => not_collides near⟩

theorem collides_scan (verified : ∀ e ∈ lhs :: rest, e.Verified)
    (segmented : Segmented (lhs :: rest)) (scaled : lhs.scale ≠ 0) (i : ι) (mode : DivMode) :
    Collides (termsAt i mode (lhs :: rest)) ↔
      lhs.Swallowed rest ∧ lhs.index = i ∧ lhs.divMode = mode ∨
        Collides (termsAt i mode (scan lhs rest).2) := by
  obtain ⟨first, others⟩ := List.forall_mem_cons.mp verified
  by_cases far : lhs.lowerFactor = kPosInf
  · by_cases here : lhs.index = i ∧ lhs.divMode = mode
    · obtain ⟨rfl, rfl⟩ := here
      rw [and_iff_left ⟨rfl, rfl⟩]
      exact (collides_far verified segmented scaled far).1
    · have skipped : termsAt i mode (lhs :: rest) = termsAt i mode rest :=
        List.filter_cons_of_neg (by simpa using here)
      rw [skipped, termsAt_scan first fun index => ⟨far, fun equal => here ⟨index, equal⟩⟩,
        or_iff_right fun swallowed => here swallowed.2]
  · rw [or_iff_right fun swallowed => far swallowed.1.1]
    by_cases here : lhs.index = i
    -- at this index no lower factor is the largest number
    · have smaller (rest' : List (SplitExpr ι)) (segmented : Segmented (lhs :: rest'))
          (e : SplitExpr ι) (member : e ∈ rest') (index : e.index = i) :
          e.lowerFactor ≠ kPosInf := fun far' => by
        have below := segmented.below member (index.trans here.symm)
        exact far (first.lowerFits.antisymm (far' ▸ below))
      have segmented' : Segmented (lhs :: (scan lhs rest).2) := segmented.congr <| by
        rw [List.map_cons, List.map_cons, (scan_keeps verified).2.2]
      refine iff_of_false (not_collides fun e member => ?_) (not_collides fun e member => ?_)
      · obtain ⟨member, index, -⟩ := mem_termsAt.mp member
        rcases List.mem_cons.mp member with rfl | member
        · exact far
        · exact smaller rest segmented e member index
      · obtain ⟨member, index, -⟩ := mem_termsAt.mp member
        exact smaller _ segmented' e member index
    · have skipped : termsAt i mode (lhs :: rest) = termsAt i mode rest :=
        List.filter_cons_of_neg (by simp [here])
      rw [skipped, termsAt_scan first fun index => absurd index here]

/-- The lost terms are those with the largest lower factor at the indices and modes where terms
collide, one at each. -/
theorem lost_spec (verified : ∀ e ∈ args, e.Verified) (segmented : Segmented args) :
    (∀ i mode, (∃ e ∈ lost args.length args, e.index = i ∧ e.divMode = mode) ↔
        Collides (termsAt i mode args)) ∧
      (lost args.length args).Pairwise (fun a b => ¬(b.index = a.index ∧ b.divMode = a.divMode)) ∧
      ∀ e ∈ lost args.length args,
        e.lowerFactor = kPosInf ∧ e.upperFactor = kPosInf ∧ e.scale ≠ 0 := by
  generalize size : args.length = rounds
  induction rounds generalizing args with
  | zero =>
    rw [List.length_eq_zero_iff.mp size]
    exact ⟨fun i mode => iff_of_false nofun (not_collides nofun), .nil, nofun⟩
  | succ rounds ih =>
    obtain ⟨lhs, rest, rfl⟩ := List.exists_cons_of_length_eq_add_one size
    obtain ⟨first, others⟩ := List.forall_mem_cons.mp verified
    rw [lost]
    split
    · rename_i zero
      obtain ⟨sites, distinct, shape⟩ := ih others segmented.2 (Nat.succ.inj size)
      refine ⟨fun i mode => (sites i mode).trans ?_, distinct, shape⟩
      by_cases here : lhs.index = i ∧ lhs.divMode = mode
      · rw [termsAt_cons here.1 here.2, collides_skip zero]
      · have skipped : termsAt i mode (lhs :: rest) = termsAt i mode rest :=
          List.filter_cons_of_neg (by simpa using here)
        rw [skipped]
    · rename_i scaled
      obtain ⟨valid, -, same⟩ := scan_keeps verified
      have size' : (scan lhs rest).2.length = rounds := by
        rw [← List.length_map SplitExpr.key, same, List.length_map]
        exact Nat.succ.inj size
      obtain ⟨sites, distinct, shape⟩ :=
        ih (List.forall_mem_cons.mp valid).2 (segmented.2.congr same) size'
      have step := collides_scan verified segmented scaled
      split
      · rename_i swallowed
        refine ⟨fun i mode => ?_, List.pairwise_cons.mpr ⟨fun e member equal => ?_, distinct⟩,
          List.forall_mem_cons.mpr ⟨⟨swallowed.1, first.far swallowed.1, scaled⟩, shape⟩⟩
        · rw [List.exists_mem_cons_iff, sites, step, and_iff_right swallowed]
        · exact (collides_far verified segmented scaled swallowed.1).2 swallowed
            ((sites _ _).mp ⟨e, member, equal⟩)
      · rename_i kept
        refine ⟨fun i mode => ?_, distinct, shape⟩
        rw [sites, step, or_iff_right fun swallowed => kept swallowed.1]

omit [DecidableEq ι] in
theorem total_only {e : SplitExpr ι} (member : e ∈ terms)
    (distinct : terms.Pairwise fun a b => ¬(b.index = a.index ∧ b.divMode = a.divMode))
    (others : ∀ t ∈ terms, ¬(t.index = e.index ∧ t.divMode = e.divMode) → t.value v = 0) :
    total v terms = e.value v := by
  obtain ⟨before, after, rfl⟩ := List.append_of_mem member
  obtain ⟨-, inner, across⟩ := List.pairwise_append.mp distinct
  have left : total v before = 0 := List.sum_eq_zero fun value summand => by
    obtain ⟨t, inside, rfl⟩ := List.mem_map.mp summand
    refine others t (List.mem_append_left _ inside) fun equal => ?_
    exact across t inside e List.mem_cons_self ⟨equal.1.symm, equal.2.symm⟩
  have right : total v after = 0 := List.sum_eq_zero fun value summand => by
    obtain ⟨t, inside, rfl⟩ := List.mem_map.mp summand
    exact others t (List.mem_append_right _ (List.mem_cons_of_mem e inside))
      ((List.pairwise_cons.mp inner).1 t inside)
  rw [total_append, total_cons, left, right, zero_add, add_zero]

/-- Values of the indices at which what is lost is not zero. -/
theorem exists_loss
    (distinct : terms.Pairwise fun a b => ¬(b.index = a.index ∧ b.divMode = a.divMode))
    (shape : ∀ e ∈ terms, e.lowerFactor = kPosInf ∧ e.upperFactor = kPosInf ∧ e.scale ≠ 0)
    (some_lost : terms ≠ []) : ∃ v : ι → Int, total v terms ≠ 0 := by
  have value (v : ι → Int) (e : SplitExpr ι) (member : e ∈ terms) :
      e.value v = e.divMode.div (v e.index) kPosInf * e.scale := by
    obtain ⟨lower, upper, -⟩ := shape e member
    rw [SplitExpr.value, SplitExpr.quotient, if_pos upper, lower]
  have nothing (mode : DivMode) : mode.div 0 kPosInf = 0 := by
    cases mode <;> rfl
  by_cases floor : ∃ e ∈ terms, e.divMode = .floorDiv
  · obtain ⟨e, member, mode⟩ := floor
    refine ⟨fun i => if i = e.index then -1 else 0, ?_⟩
    rw [total_only member distinct fun t inside different => ?_, value _ e member, if_pos rfl, mode]
    · exact mul_ne_zero (by decide) (shape e member).2.2
    · rw [value _ t inside]
      split
      · rename_i index
        cases truncates : t.divMode with
        | truncDiv => exact zero_mul _
        | floorDiv => exact absurd ⟨index, truncates.trans mode.symm⟩ different
      · rw [nothing, zero_mul]
  · obtain ⟨e, member⟩ := List.exists_mem_of_ne_nil terms some_lost
    have truncates (t : SplitExpr ι) (inside : t ∈ terms) : t.divMode = .truncDiv := by
      cases mode : t.divMode with
      | truncDiv => rfl
      | floorDiv => exact absurd ⟨t, inside, mode⟩ floor
    refine ⟨fun i => if i = e.index then kPosInf else 0, ?_⟩
    rw [total_only member distinct fun t inside different => ?_, value _ e member, if_pos rfl,
      truncates e member]
    · exact mul_ne_zero (by decide) (shape e member).2.2
    · rw [value _ t inside, if_neg fun index => different
        ⟨index, (truncates t inside).trans (truncates e member).symm⟩, nothing, zero_mul]

theorem normalize_simplified (verified : ∀ e ∈ args, e.Verified) (isUInt : Bool)
    (index : ι → PrimExpr) (interp : Nat → Env → Option Int) (env : Env)
    (values : ∀ e ∈ args, (index e.index).eval interp env = some (v e.index)) (base : Int) :
    ∃ r, normalize_ isUInt index (simplifySplitExprs args) base = some r ∧
      r.eval interp env = some (total v (mergeSplits args.length args) + base) := by
  have perm := List.mergeSort_perm (mergeSplits args.length args) fun a b => !fcompare b a
  have sum : total v (simplifySplitExprs args) = total v (mergeSplits args.length args) :=
    (perm.map (SplitExpr.value v)).sum_eq
  have kept := (mergeSplits_keeps (v := v) verified args.length).1
  rw [← sum]
  refine normalize_value isUInt (fun e member => (kept e (perm.mem_iff.mp member)).1)
    (fun e member => ?_) base
  obtain ⟨-, t, origin, equal⟩ := kept e (perm.mem_iff.mp member)
  rw [equal]
  exact values t origin

/-- Whether the simplified and normalized sum has the value of the sum, whatever the indices are. -/
def SumExpr.KeepsValue (self : SumExpr ι) : Prop :=
  ∀ (isUInt : Bool) (index : ι → PrimExpr) (interp : Nat → Env → Option Int) (env : Env)
    (v : ι → Int), (∀ e ∈ self.args, (index e.index).eval interp env = some (v e.index)) →
    ∃ r, normalize_ isUInt index (simplifySplitExprs self.args) self.base = some r ∧
      r.eval interp env = some (self.value v)

theorem keepsValue_iff {self : SumExpr ι} (verified : self.Verified) :
    self.KeepsValue ↔ ∀ v, total v (lost self.args.length self.args) = 0 := by
  constructor
  · intro keeps v
    obtain ⟨r, made, value⟩ :=
      keeps false (fun i => .intImm (v i)) (fun _ _ => none) (fun _ => 0) v fun _ _ => rfl
    obtain ⟨r', made', value'⟩ := normalize_simplified verified false
      (fun i => .intImm (v i)) (fun _ _ => none) (fun _ => 0) (fun _ _ => rfl) self.base
    rw [Option.some.inj (made'.symm.trans made), value, SumExpr.value] at value'
    have whole := (mergeSplits_keeps (v := v) verified self.args.length).2
    linarith [Option.some.inj value']
  · intro nothing isUInt index interp env v values
    obtain ⟨r, made, value⟩ := normalize_simplified verified isUInt index interp env values self.base
    have whole := (mergeSplits_keeps (v := v) verified self.args.length).2
    rw [nothing v, add_zero] at whole
    exact ⟨r, made, by rw [value, whole, SumExpr.value]⟩

/-- `x / (2 ^ 63 - 1) * 7 + x / ((2 ^ 63 - 1) / 7)` -/
def farQuotients : SumExpr Nat :=
  ⟨[⟨0, kPosInf, kPosInf, 7, .floorDiv⟩, ⟨0, kPosInf / 7, kPosInf, 1, .floorDiv⟩], 0⟩

end Tvm.Arith
