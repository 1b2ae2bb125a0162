import Mathlib.Logic.Basic

/-!
# Computations that agree

A computation with errors against a function with an optional result: it fails where there is none,
and otherwise its result is related to the one that there is.
-/

namespace Tvm.Lib

variable {ε α α' β β' : Type}

def Agrees (R : α → β → Prop) : Except ε α → Option β → Prop
  | .ok a, some b => R a b
  | .error _, none => True
  | _, _ => False

theorem exists_of_bind {x : Except ε α} {f : α → Except ε α'} {result : α'}
    (run : x >>= f = .ok result) : ∃ a, x = .ok a ∧ f a = .ok result := by
  cases x with
  | error e => cases run
  | ok a => exact ⟨a, rfl, run⟩

namespace Agrees

variable {R : α → β → Prop} {S : α' → β' → Prop} {x : Except ε α} {y : Option β}

theorem bind {f : α → Except ε α'} {g : β → Option β'} (first : Agrees R x y)
    (next : ∀ a b, R a b → Agrees S (f a) (g b)) : Agrees S (x >>= f) (y >>= g) := by
  cases x with
  | error e =>
    cases y with
    | none => trivial
    | some b => exact first.elim
  | ok a =>
    cases y with
    | none => exact first.elim
    | some b => exact next a b first

/-- What follows cannot fail. -/
theorem map {S : α' → β → Prop} {f : α → Except ε α'} (first : Agrees R x y)
    (next : ∀ a b, R a b → ∃ a', f a = .ok a' ∧ S a' b) : Agrees S (x >>= f) y := by
  cases x with
  | error e =>
    cases y with
    | none => trivial
    | some b => exact first.elim
  | ok a =>
    cases y with
    | none => exact first.elim
    | some b =>
      obtain ⟨a', result, related⟩ := next a b first
      change Agrees S (f a) (some b)
      rw [result]
      exact related

theorem mono {S : α → β → Prop} (agrees : Agrees R x y) (weaker : ∀ a b, R a b → S a b) :
    Agrees S x y := by
  cases x with
  | error e => cases y <;> exact agrees
  | ok a =>
    cases y with
    | none => exact agrees
    | some b => exact weaker a b agrees

theorem of_ok {a : α} (agrees : Agrees R x y) (result : x = .ok a) : ∃ b, y = some b ∧ R a b := by
  subst result
  cases y with
  | none => exact agrees.elim
  | some b => exact ⟨b, rfl, agrees⟩

theorem of_some {b : β} (agrees : Agrees R x y) (result : y = some b) : ∃ a, x = .ok a ∧ R a b := by
  subst result
  cases x with
  | error e => exact agrees.elim
  | ok a => exact ⟨a, rfl, agrees⟩

theorem ok_iff (agrees : Agrees R x y) : (∃ a, x = .ok a) ↔ ∃ b, y = some b := by
  constructor
  · rintro ⟨a, result⟩
    exact (agrees.of_ok result).imp fun b related => related.1
  · rintro ⟨b, result⟩
    exact (agrees.of_some result).imp fun a related => related.1

end Agrees

end Tvm.Lib
