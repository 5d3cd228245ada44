/-
The nearest of a list: some `k` elements with the smallest keys, in
increasing order. Which of two with the same key comes first is left open.

`getLast_lt_iff` counts: the last of them is below a bound when that many
elements are.
-/
import Mathlib.Data.List.Basic
import Mathlib.Order.Lattice

namespace GptCache

variable {α β : Type} [LinearOrder β]

/-- `ys` are `k` elements of `xs` (all of them, where there are no more) with
the smallest keys. -/
def Nearest (key : α → β) (xs : List α) (k : Nat) (ys : List α) : Prop :=
  ∃ order : List α, order.Perm xs ∧ (order.Pairwise fun a b => key a ≤ key b) ∧ ys = order.take k

/-- In a sorted list an element is below `d` when it is among the first, as
many as there are below `d`. -/
theorem getElem?_lt_iff {key : α → β} {d : β} : ∀ {l : List α} {i : Nat} {a : α},
    (l.Pairwise fun a b => key a ≤ key b) → l[i]? = some a → (key a < d ↔ i < l.countP fun x => key x < d)
  | [], i, a, _, hi => by simp at hi
  | x :: l, i, a, hsorted, hi => by
    rw [List.pairwise_cons] at hsorted
    by_cases hx : key x < d
    · rw [List.countP_cons_of_pos (by simpa using hx)]
      cases i with
      | zero =>
        cases hi
        exact ⟨fun _ => by omega, fun _ => hx⟩
      | succ i =>
        rw [getElem?_lt_iff hsorted.2 hi]
        omega
    · have hnone : l.countP (fun x => key x < d) = 0 := by
        rw [List.countP_eq_zero]
        intro y hy
        simpa using le_trans (not_lt.mp hx) (hsorted.1 y hy)
      rw [List.countP_cons_of_neg (by simpa using hx), hnone]
      have hle : ¬ key a < d := by
        rcases List.mem_cons.mp (List.mem_of_getElem? hi) with rfl | ha
        · exact hx
        · exact not_lt.mpr (le_trans (not_lt.mp hx) (hsorted.1 a ha))
      exact iff_of_false hle (by omega)

namespace Nearest

variable {key : α → β} {xs ys : List α} {k : Nat}

theorem length (h : Nearest key xs k ys) : ys.length = min k xs.length := by
  obtain ⟨order, hperm, -, rfl⟩ := h
  rw [List.length_take, hperm.length_eq]

/-- The last of the nearest is below `d` when so many are. -/
theorem getLast_lt_iff (h : Nearest key xs k ys) {y : α} (hy : ys.getLast? = some y) {d : β} :
    key y < d ↔ min k xs.length ≤ xs.countP fun x => key x < d := by
  have hlen := h.length
  obtain ⟨order, hperm, hsorted, rfl⟩ := h
  have hne : 0 < (order.take k).length := by
    rw [List.getLast?_eq_getElem?] at hy
    exact Nat.lt_of_le_of_lt (Nat.zero_le _) (List.getElem?_eq_some_iff.mp hy).1
  rw [List.getLast?_eq_getElem?, hlen] at hy
  have hlast : order[min k xs.length - 1]? = some y := by
    rw [List.getElem?_take_of_lt (by omega)] at hy
    exact hy
  rw [getElem?_lt_iff hsorted hlast, hperm.countP_eq]
  omega

end Nearest

end GptCache
