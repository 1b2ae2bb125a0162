import Mathlib.Data.List.Perm.Basic
import Mathlib.Data.List.Sort
import Mathlib.Data.List.Nodup

/-!
# Finite maps as lists of entries

A list of entries with distinct keys is a finite map: what is found at a key is in the list.
-/

namespace Tvm.Lib

universe u v w

variable {α : Type u} {β : Type v} {γ : Type w} [BEq α] [LawfulBEq α] {l l' : List (α × β)} {k : α}
  {b : β}

theorem lookup_eq_some_iff_mem (nodup : (l.map Prod.fst).Nodup) :
    l.lookup k = some b ↔ (k, b) ∈ l := by
  induction l with
  | nil => simp
  | cons entry rest ih =>
    obtain ⟨fresh, restNodup⟩ := List.nodup_cons.mp nodup
    rw [List.lookup_cons]
    by_cases same : k = entry.1
    · subst same
      have absent : (entry.1, b) ∉ rest := fun member =>
        fresh (List.mem_map.mpr ⟨(entry.1, b), member, rfl⟩)
      simp only [beq_self_eq_true, Option.some.injEq, List.mem_cons, absent, or_false]
      constructor
      · rintro rfl
        rfl
      · intro equal
        rw [← equal]
    · have differs : (k == entry.1) = false := beq_eq_false_iff_ne.mpr same
      have other : (k, b) ≠ entry := fun equal => same (congrArg Prod.fst equal)
      simp only [differs, ih restNodup, List.mem_cons, other, false_or]

end Tvm.Lib

/-!
## Elements in buckets

A finite map from keys to lists of elements.  What is in all buckets together is what is in one of
them and the rest, in any order.
-/

namespace Tvm.Lib

universe u v

variable {κ : Type u} {α : Type v} [DecidableEq κ]

abbrev Buckets (κ : Type u) (α : Type v) := List (κ × List α)

namespace Buckets

def bucket (buckets : Buckets κ α) (key : κ) : List α :=
  (buckets.lookup key).getD []

def others (buckets : Buckets κ α) (key : κ) : Buckets κ α :=
  buckets.filter fun entry => entry.1 ≠ key

def setBucket (buckets : Buckets κ α) (key : κ) (elements : List α) : Buckets κ α :=
  buckets.others key ++ [(key, elements)]

def elements (buckets : Buckets κ α) : List α :=
  buckets.flatMap Prod.snd

structure Keyed (keyOf : α → κ) (buckets : Buckets κ α) : Prop where
  distinct : (buckets.map Prod.fst).Nodup
  key_eq : ∀ entry ∈ buckets, ∀ x ∈ entry.2, keyOf x = entry.1

variable {buckets : Buckets κ α} {keyOf : α → κ} {key : κ}

omit [DecidableEq κ] in
theorem Keyed.nil : Keyed keyOf ([] : Buckets κ α) :=
  ⟨List.nodup_nil, by simp⟩

theorem others_eq_self (absent : key ∉ buckets.map Prod.fst) : buckets.others key = buckets := by
  refine List.filter_eq_self.mpr fun entry membership => ?_
  rw [decide_eq_true_eq]
  rintro rfl
  exact absent (List.mem_map_of_mem membership)

theorem elements_perm (distinct : (buckets.map Prod.fst).Nodup) (key : κ) :
    buckets.elements.Perm (buckets.bucket key ++ (buckets.others key).elements) := by
  induction buckets with
  | nil => exact List.Perm.nil
  | cons entry rest ih =>
    obtain ⟨fresh, restDistinct⟩ := List.nodup_cons.mp distinct
    have joined : Buckets.elements (entry :: rest) = entry.2 ++ Buckets.elements rest := rfl
    by_cases same : entry.1 = key
    · subst same
      have first : Buckets.bucket (entry :: rest) entry.1 = entry.2 := by
        rw [bucket, List.lookup_cons, beq_self_eq_true]
        rfl
      have dropped : Buckets.others (entry :: rest) entry.1 = Buckets.others rest entry.1 :=
        List.filter_cons_of_neg (by simp)
      rw [first, dropped, others_eq_self fresh, joined]
    · have later : Buckets.bucket (entry :: rest) key = Buckets.bucket rest key := by
        rw [bucket, List.lookup_cons, beq_eq_false_iff_ne.mpr (Ne.symm same)]
        rfl
      have kept : Buckets.others (entry :: rest) key = entry :: Buckets.others rest key :=
        List.filter_cons_of_pos (by simpa using same)
      have moved : (entry.2 ++ (Buckets.bucket rest key ++
          Buckets.elements (Buckets.others rest key))).Perm
            (Buckets.bucket rest key ++ (entry.2 ++
              Buckets.elements (Buckets.others rest key))) := by
        rw [← List.append_assoc, ← List.append_assoc]
        exact List.perm_append_comm.append_right _
      rw [later, kept, joined]
      exact ((ih restDistinct).append_left entry.2).trans moved

theorem elements_setBucket (buckets : Buckets κ α) (key : κ) (xs : List α) :
    (buckets.setBucket key xs).elements.Perm (xs ++ (buckets.others key).elements) := by
  rw [setBucket, elements, List.flatMap_append, List.flatMap_singleton]
  exact List.perm_append_comm

theorem Keyed.mem_bucket (keyed : Keyed keyOf buckets) {x : α}
    (membership : x ∈ buckets.bucket key) : keyOf x = key := by
  unfold bucket at membership
  cases found : buckets.lookup key with
  | none =>
    rw [found] at membership
    cases membership
  | some xs =>
    rw [found] at membership
    have entry := (lookup_eq_some_iff_mem keyed.distinct).mp found
    exact keyed.key_eq (key, xs) entry x membership

theorem Keyed.setBucket (keyed : Keyed keyOf buckets) {xs : List α}
    (keys : ∀ x ∈ xs, keyOf x = key) : Keyed keyOf (buckets.setBucket key xs) where
  distinct := by
    rw [Buckets.setBucket, List.map_append, List.map_singleton, List.nodup_append]
    refine ⟨keyed.distinct.sublist (List.filter_sublist.map _), List.nodup_singleton _, ?_⟩
    rintro other membership last isLast rfl
    obtain ⟨entry, kept, rfl⟩ := List.mem_map.mp membership
    have different := (List.mem_filter.mp kept).2
    rw [List.mem_singleton.mp isLast] at different
    simp at different
  key_eq := by
    intro entry membership
    rcases List.mem_append.mp membership with before | last
    · exact keyed.key_eq entry (List.mem_filter.mp before).1
    · rw [List.mem_singleton.mp last]
      exact keys

end Buckets

end Tvm.Lib
