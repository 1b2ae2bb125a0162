import Mathlib.Data.Option.Basic
import Mathlib.Data.List.Forall2

/-!
# Computations that may fail, extended

One computation extends another where it has the same value wherever the other has one.  It ensures
a property that its value has if there is one, and returns where there is one that has it.  The
computation of a list has a value where each of its elements has one.
-/

namespace Tvm.Lib

universe u v

/-- `b` has the value of `a` wherever `a` has one. -/
def Extends {α : Type u} (a b : Option α) : Prop :=
  ∀ x, a = some x → b = some x

namespace Extends

variable {α : Type u} {β : Type v} {a b : Option α}

theorem refl (a : Option α) : Extends a a :=
  fun _ value => value

theorem none : Extends Option.none a :=
  fun _ value => by cases value

theorem bind {f g : α → Option β} (first : Extends a b) (rest : ∀ x, Extends (f x) (g x)) :
    Extends (a.bind f) (b.bind g) := by
  intro y value
  obtain ⟨x, found, value⟩ := Option.bind_eq_some_iff.mp value
  rw [first x found, Option.bind_some, rest x y value]

theorem map {f : α → β} (first : Extends a b) : Extends (a.map f) (b.map f) := by
  intro y value
  obtain ⟨x, found, rfl⟩ := Option.map_eq_some_iff.mp value
  rw [first x found, Option.map_some]

theorem ite {p : Prop} [Decidable p] {c d : Option α} (whenTrue : Extends a b)
    (whenFalse : Extends c d) : Extends (if p then a else c) (if p then b else d) := by
  split
  · exact whenTrue
  · exact whenFalse

end Extends

/-- Whatever value there is has the property. -/
def Ensures {α : Type u} (p : α → Prop) (a : Option α) : Prop :=
  ∀ x, a = some x → p x

namespace Ensures

variable {α : Type u} {β : Type v} {p : α → Prop} {r : β → Prop} {a b : Option α}

theorem none : Ensures p Option.none :=
  fun _ value => by cases value

theorem some {x : α} (holds : p x) : Ensures p (Option.some x) := by
  intro y value
  cases value
  exact holds

theorem bind {f : α → Option β} (first : Ensures p a) (rest : ∀ x, p x → Ensures r (f x)) :
    Ensures r (a.bind f) := by
  intro y value
  obtain ⟨x, found, value⟩ := Option.bind_eq_some_iff.mp value
  exact rest x (first x found) y value

theorem bindAny {f : α → Option β} (rest : ∀ x, Ensures r (f x)) : Ensures r (a.bind f) :=
  bind (p := fun _ => True) (fun _ _ => trivial) fun x _ => rest x

theorem map {f : α → β} (first : Ensures p a) (image : ∀ x, p x → r (f x)) :
    Ensures r (a.map f) := by
  intro y value
  obtain ⟨x, found, rfl⟩ := Option.map_eq_some_iff.mp value
  exact image x (first x found)

theorem ite {c : Prop} [Decidable c] (whenTrue : c → Ensures p a) (whenFalse : ¬c → Ensures p b) :
    Ensures p (if c then a else b) := by
  split
  · exact whenTrue ‹c›
  · exact whenFalse ‹¬c›

end Ensures

/-- There is a value, and it has the property. -/
def Returns {α : Type u} (p : α → Prop) (a : Option α) : Prop :=
  ∃ x, a = some x ∧ p x

namespace Returns

variable {α : Type u} {β : Type v} {p p' : α → Prop} {r : β → Prop} {a b : Option α}

theorem some {x : α} (holds : p x) : Returns p (Option.some x) :=
  ⟨x, rfl, holds⟩

theorem bind {f : α → Option β} (first : Returns p a) (rest : ∀ x, p x → Returns r (f x)) :
    Returns r (a.bind f) := by
  obtain ⟨x, rfl, holds⟩ := first
  exact rest x holds

theorem ite {c : Prop} [Decidable c] (whenTrue : c → Returns p a) (whenFalse : ¬c → Returns p b) :
    Returns p (if c then a else b) := by
  split
  · exact whenTrue ‹c›
  · exact whenFalse ‹¬c›

theorem imp (first : Returns p a) (weaker : ∀ x, p x → p' x) : Returns p' a := by
  obtain ⟨x, found, holds⟩ := first
  exact ⟨x, found, weaker x holds⟩

end Returns

theorem mapM_eq_some_iff {α : Type u} {β : Type v} {f : α → Option β} {xs : List α} {ys : List β} :
    xs.mapM f = some ys ↔ List.Forall₂ (fun x y => f x = some y) xs ys := by
  induction xs generalizing ys with
  | nil =>
    rw [List.mapM_nil, List.forall₂_nil_left_iff]
    exact ⟨fun same => (Option.some.inj same).symm, fun same => by rw [same]; rfl⟩
  | cons x rest ih =>
    rw [List.mapM_cons, List.forall₂_cons_left_iff]
    constructor
    · intro run
      obtain ⟨y, first, run⟩ := Option.bind_eq_some_iff.mp run
      obtain ⟨others, restRun, run⟩ := Option.bind_eq_some_iff.mp run
      cases run
      exact ⟨y, others, first, ih.mp restRun, rfl⟩
    · rintro ⟨y, others, first, related, rfl⟩
      rw [first, ih.mpr related]
      rfl

theorem exists_of_mapM {α : Type u} {β : Type v} {f : α → Option β} {xs : List α} {ys : List β} {x : α}
    (run : xs.mapM f = some ys) (member : x ∈ xs) : ∃ y, f x = some y := by
  obtain ⟨i, inside, rfl⟩ := List.getElem_of_mem member
  have related := mapM_eq_some_iff.mp run
  exact ⟨_, related.get inside (related.length_eq ▸ inside)⟩

end Tvm.Lib
