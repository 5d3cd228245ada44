/-
Codes that end where they say: a reader who takes one off the front of a list
knows where it ends, whatever is behind it. So values can be written one
behind the other and are told apart again.
-/
import Mathlib.Data.List.Basic

namespace GptCache.Sequence

variable {α β : Type}

/-- The value and what stands behind its code are fixed by the two together. -/
def Delimited (enc : α → List β) : Prop := ∀ ⦃a b : α⦄ ⦃s s' : List β⦄, enc a ++ s = enc b ++ s' → a = b ∧ s = s'

theorem Delimited.injective {enc : α → List β} (h : Delimited enc) : Function.Injective enc := by
  intro a b heq
  exact (h (congrArg (· ++ []) heq)).1

/-- Behind a text that is the same for all. -/
theorem Delimited.behind {enc : α → List β} (h : Delimited enc) (pre : List β) : Delimited fun a => pre ++ enc a := by
  intro a b s s' heq
  rw [List.append_assoc, List.append_assoc, List.append_cancel_left_eq] at heq
  exact h heq

/-- Codes one behind the other, up to a mark that starts none of them. -/
theorem Delimited.flatMap {enc : α → List β} {mark : List β} (h : Delimited enc)
    (hmark : ∀ a s s', enc a ++ s ≠ mark ++ s') : Delimited fun xs => List.flatMap enc xs ++ mark := by
  intro xs
  induction xs with
  | nil =>
    intro ys s s' heq
    cases ys with
    | nil => exact ⟨rfl, List.append_cancel_left heq⟩
    | cons y ys =>
      simp only [List.flatMap_nil, List.nil_append, List.flatMap_cons, List.append_assoc] at heq
      exact absurd heq.symm (hmark y _ _)
  | cons x xs ih =>
    intro ys s s' heq
    cases ys with
    | nil =>
      simp only [List.flatMap_nil, List.nil_append, List.flatMap_cons, List.append_assoc] at heq
      exact absurd heq (hmark x _ _)
    | cons y ys =>
      simp only [List.flatMap_cons, List.append_assoc] at heq
      obtain ⟨rfl, hrest⟩ := h heq
      obtain ⟨rfl, rfl⟩ := ih (by simpa only [List.append_assoc] using hrest)
      exact ⟨rfl, rfl⟩

end GptCache.Sequence
