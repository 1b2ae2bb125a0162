import Mathlib

/-!
# Combining two entries

Elementary operations on rows and columns replace two entries of a vector by combinations of
both.  Applied to the rows of a system of equations they keep its solutions; applied to the columns
they change the unknowns.
-/

namespace Tvm.Lib

open Matrix

variable {ι κ R : Type*} [DecidableEq ι] [DecidableEq κ] [CommRing R]

/-- The entries `i` and `j` replaced by combinations of both. -/
def pairMap (i j : ι) (a b c d : R) (u : ι → R) : ι → R := fun k =>
  if k = i then a * u i + b * u j else if k = j then c * u i + d * u j else u k

section Pair

variable {i j : ι} {a b c d : R} {u z : ι → R}

theorem pairMap_left : pairMap i j a b c d u i = a * u i + b * u j :=
  if_pos rfl

theorem pairMap_right (distinct : i ≠ j) : pairMap i j a b c d u j = c * u i + d * u j := by
  rw [pairMap, if_neg distinct.symm, if_pos rfl]

theorem pairMap_other {k : ι} (left : k ≠ i) (right : k ≠ j) : pairMap i j a b c d u k = u k := by
  rw [pairMap, if_neg left, if_neg right]

theorem pairMap_pairMap {a' b' c' d' : R} (distinct : i ≠ j) (first : a' * a + b' * c = 1)
    (second : a' * b + b' * d = 0) (third : c' * a + d' * c = 0) (fourth : c' * b + d' * d = 1)
    (u : ι → R) : pairMap i j a' b' c' d' (pairMap i j a b c d u) = u := by
  funext k
  by_cases left : k = i
  · subst left
    rw [pairMap_left, pairMap_left, pairMap_right distinct]
    linear_combination u k * first + u j * second
  · by_cases right : k = j
    · subst right
      rw [pairMap_right distinct, pairMap_left, pairMap_right distinct]
      linear_combination u i * third + u k * fourth
    · rw [pairMap_other left right, pairMap_other left right]

theorem pairMap_involution (distinct : i ≠ j) (unit : a * d + b * c = 1) (u : ι → R) :
    pairMap i j d b c (-a) (pairMap i j a b c (-d) u) = u :=
  pairMap_pairMap distinct (by linear_combination unit) (by ring) (by ring)
    (by linear_combination unit) u

theorem pairMap_dotProduct [Fintype ι] (distinct : i ≠ j) (u z : ι → R) :
    pairMap i j a b c d u ⬝ᵥ z = u ⬝ᵥ pairMap i j a c b d z := by
  have split (v : ι → R) : ∑ k, v k = v i + v j + ∑ k ∈ {i, j}ᶜ, v k := by
    rw [← Finset.sum_add_sum_compl {i, j}, Finset.sum_pair distinct]
  have others : ∀ k ∈ ({i, j} : Finset ι)ᶜ, pairMap i j a b c d u k * z k =
      u k * pairMap i j a c b d z k := by
    intro k outside
    simp only [Finset.mem_compl, Finset.mem_insert, Finset.mem_singleton, not_or] at outside
    rw [pairMap_other outside.1 outside.2, pairMap_other outside.1 outside.2]
  rw [dotProduct, dotProduct, split, split, Finset.sum_congr rfl others, pairMap_left, pairMap_left,
    pairMap_right distinct, pairMap_right distinct]
  ring

end Pair

def pairRows (i j : ι) (a b c d : R) (S : Matrix ι κ R) : Matrix ι κ R :=
  Matrix.of fun k l => pairMap i j a b c d (fun r => S r l) k

def pairColumns (i j : κ) (a b c d : R) (S : Matrix ι κ R) : Matrix ι κ R :=
  Matrix.of fun k => pairMap i j a b c d (S k)

omit [DecidableEq κ] in
theorem pairRows_mulVec [Fintype κ] (i j : ι) (a b c d : R) (S : Matrix ι κ R) (z : κ → R) :
    pairRows i j a b c d S *ᵥ z = pairMap i j a b c d (S *ᵥ z) := by
  funext k
  by_cases left : k = i
  · subst left
    have entries : pairRows k j a b c d S k = a • S k + b • S j := by
      funext l
      simp only [pairRows, Matrix.of_apply, pairMap_left, Pi.add_apply, Pi.smul_apply, smul_eq_mul]
    rw [pairMap_left, Matrix.mulVec, entries, add_dotProduct, smul_dotProduct, smul_dotProduct]
    rfl
  · by_cases right : k = j
    · subst right
      have distinct : i ≠ k := fun same => left same.symm
      have entries : pairRows i k a b c d S k = c • S i + d • S k := by
        funext l
        simp only [pairRows, Matrix.of_apply, pairMap_right distinct, Pi.add_apply, Pi.smul_apply,
          smul_eq_mul]
      rw [pairMap_right distinct, Matrix.mulVec, entries, add_dotProduct, smul_dotProduct,
        smul_dotProduct]
      rfl
    · have entries : pairRows i j a b c d S k = S k := by
        funext l
        rw [pairRows, Matrix.of_apply, pairMap_other left right]
      rw [pairMap_other left right, Matrix.mulVec, entries]
      rfl

omit [DecidableEq ι] in
theorem pairColumns_mulVec [Fintype κ] {i j : κ} (distinct : i ≠ j) (a b c d : R)
    (S : Matrix ι κ R) (z : κ → R) :
    pairColumns i j a b c d S *ᵥ z = S *ᵥ pairMap i j a c b d z := by
  funext k
  exact pairMap_dotProduct distinct (S k) z

end Tvm.Lib
