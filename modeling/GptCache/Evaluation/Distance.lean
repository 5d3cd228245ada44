/-
Vectors and their distances, as the evaluators take them
(gptcache/similarity_evaluation/distance.py, kreciprocal.py and
sequence_match.py).

Numbers are those of an ordered field, and `sqrt` is numpy's. The embeddings
are normalized to vectors of length 1 (`UnitLength`), whose distances are
between 0 and 4.
-/
import Mathlib.Algebra.BigOperators.Fin
import Mathlib.Algebra.Order.BigOperators.Ring.Finset
import Mathlib.Algebra.Order.Field.Basic
import Mathlib.Tactic.Linarith
import Mathlib.Tactic.Ring

namespace GptCache.Evaluation

abbrev Vec (n : Nat) (F : Type) := Fin n → F

section

variable {n : Nat} {F : Type} [Field F]

/-- `np.sum((vec_l - vec_r)**2)`. -/
def euclideanDistanceCalculate (l r : Vec n F) : F := ∑ i, (l i - r i) ^ 2

/-- `vec / np.linalg.norm(vec)`. -/
def normalize (sqrt : F → F) (vec : Vec n F) : Vec n F := fun i => vec i / sqrt (∑ j, vec j ^ 2)

def UnitLength (vec : Vec n F) : Prop := ∑ i, vec i ^ 2 = 1

instance [DecidableEq F] (vec : Vec n F) : Decidable (UnitLength vec) := inferInstanceAs (Decidable (_ = _))

/-- A vector of length 1 is normalized already. -/
theorem normalize_unitLength {sqrt : F → F} (hsqrt : sqrt 1 = 1) {vec : Vec n F} (h : UnitLength vec) :
    normalize sqrt vec = vec := by
  funext i
  rw [normalize, h, hsqrt, div_one]

theorem distance_comm (l r : Vec n F) : euclideanDistanceCalculate l r = euclideanDistanceCalculate r l := by
  refine Finset.sum_congr rfl fun i _ => ?_
  ring

@[simp] theorem distance_self (l : Vec n F) : euclideanDistanceCalculate l l = 0 := by
  simp [euclideanDistanceCalculate]

variable [LinearOrder F]

/-- `SearchDistanceEvaluation.evaluation`, of the distance in the search result. -/
def searchDistance (maxDistance : F) (positive : Bool) (distance : F) : F :=
  let distance := if distance < 0 then 0 else if distance > maxDistance then maxDistance else distance
  if positive then distance else maxDistance - distance

/-- `SearchDistanceEvaluation.range`. -/
def distanceRange (maxDistance : F) : F × F := (0, maxDistance)

/-- A distance between 0 and the maximum is taken as it is. -/
theorem searchDistance_of_mem {maxDistance distance : F} (positive : Bool) (hzero : 0 ≤ distance)
    (hmax : distance ≤ maxDistance) :
    searchDistance maxDistance positive distance = if positive then distance else maxDistance - distance := by
  rw [searchDistance, if_neg (not_lt.mpr hzero), if_neg (not_lt.mpr hmax)]

variable [IsStrictOrderedRing F]

theorem distance_nonneg (l r : Vec n F) : 0 ≤ euclideanDistanceCalculate l r :=
  Finset.sum_nonneg fun _ _ => sq_nonneg _

theorem distance_le_four {l r : Vec n F} (hl : UnitLength l) (hr : UnitLength r) :
    euclideanDistanceCalculate l r ≤ 4 := by
  have hterm : ∀ i, (l i - r i) ^ 2 ≤ 2 * l i ^ 2 + 2 * r i ^ 2 := fun i => by
    have := sq_nonneg (l i + r i)
    nlinarith
  calc euclideanDistanceCalculate l r ≤ ∑ i, (2 * l i ^ 2 + 2 * r i ^ 2) := Finset.sum_le_sum fun i _ => hterm i
    _ = 2 * ∑ i, l i ^ 2 + 2 * ∑ i, r i ^ 2 := by rw [Finset.sum_add_distrib, Finset.mul_sum, Finset.mul_sum]
    _ = 4 := by rw [hl, hr]; norm_num

theorem searchDistance_mem {maxDistance : F} (hmax : 0 ≤ maxDistance) (positive : Bool) (distance : F) :
    0 ≤ searchDistance maxDistance positive distance ∧ searchDistance maxDistance positive distance ≤ maxDistance := by
  have hclamped : 0 ≤ (if distance < 0 then 0 else if distance > maxDistance then maxDistance else distance) ∧
      (if distance < 0 then 0 else if distance > maxDistance then maxDistance else distance) ≤ maxDistance := by
    split
    · exact ⟨le_refl 0, hmax⟩
    · rename_i hneg
      split
      · exact ⟨hmax, le_refl _⟩
      · rename_i hle
        exact ⟨not_lt.mp hneg, not_lt.mp hle⟩
  simp only [searchDistance]
  split
  · exact hclamped
  · constructor <;> linarith

end

end GptCache.Evaluation
