/-
Where a list occurs in another: `find s sub start` is the first place from
`start` on.

`find_eq_some_iff` says what it finds. `find_window` moves a search into a
part of the list that holds all of what is found.
-/
import Mathlib.Data.List.Infix
import Mathlib.Data.Nat.Find

namespace GptCache.Sequence

variable {α : Type}

/-- `sub` starts at place `i` of `s`. -/
def OccursAt (s sub : List α) (i : Nat) : Prop := i ≤ s.length ∧ sub <+: s.drop i

theorem OccursAt.length_le {s sub : List α} {i : Nat} (h : OccursAt s sub i) : i + sub.length ≤ s.length := by
  have hle := h.2.length_le
  have := h.1
  rw [List.length_drop] at hle
  omega

theorem occursAt_append (pre sub post : List α) : OccursAt (pre ++ (sub ++ post)) sub pre.length := by
  refine ⟨by simp, ?_⟩
  rw [List.drop_left]
  exact List.prefix_append sub post

/-- An occurrence in a part that holds all of it. -/
theorem occursAt_window {pre s post sub : List α} {i : Nat} (h : i + sub.length ≤ s.length) :
    OccursAt (pre ++ (s ++ post)) sub (pre.length + i) ↔ OccursAt s sub i := by
  have hdrop : (pre ++ (s ++ post)).drop (pre.length + i) = s.drop i ++ post := by
    rw [← List.drop_drop, List.drop_left, List.drop_append_of_le_length (by omega)]
  have hlen : sub.length ≤ (s.drop i).length := by
    rw [List.length_drop]
    omega
  simp only [OccursAt, hdrop, List.length_append]
  refine ⟨fun hocc => ⟨by omega, ?_⟩, fun hocc => ⟨by omega, hocc.2.trans (List.prefix_append _ _)⟩⟩
  exact List.prefix_of_prefix_length_le hocc.2 (List.prefix_append _ _) hlen

variable [DecidableEq α]

/-- The first place of `sub` in a list. -/
def first (sub : List α) : List α → Option Nat
  | [] => if sub = [] then some 0 else none
  | c :: s => if sub.isPrefixOf (c :: s) then some 0 else (first sub s).map (· + 1)

/-- The first place of `sub` in `s` from `start` on. -/
def find (s sub : List α) (start : Nat) : Option Nat :=
  if start ≤ s.length then (first sub (s.drop start)).map (start + ·) else none

theorem first_eq_some_iff {sub : List α} : ∀ {s : List α} {i : Nat},
    first sub s = some i ↔ OccursAt s sub i ∧ ∀ j < i, ¬ OccursAt s sub j
  | [], i => by
    by_cases hsub : sub = []
    · subst hsub
      simp only [first, if_true, Option.some.injEq, OccursAt, List.length_nil, List.nil_prefix, and_true]
      refine ⟨fun h => ⟨by omega, by omega⟩, fun h => by omega⟩
    · simp [first, OccursAt, hsub]
  | c :: s, i => by
    have hzero : OccursAt (c :: s) sub 0 ↔ sub.isPrefixOf (c :: s) = true := by simp [OccursAt]
    have hsucc : ∀ j, OccursAt (c :: s) sub (j + 1) ↔ OccursAt s sub j := fun j => by simp [OccursAt]
    rw [first]
    by_cases hprefix : sub.isPrefixOf (c :: s) = true
    · rw [if_pos hprefix, Option.some.injEq]
      refine ⟨fun h => h ▸ ⟨hzero.mpr hprefix, fun j hj => absurd hj (Nat.not_lt_zero j)⟩, fun h => ?_⟩
      by_contra hne
      exact h.2 0 (by omega) (hzero.mpr hprefix)
    · rw [if_neg hprefix, Option.map_eq_some_iff]
      constructor
      · rintro ⟨k, hk, rfl⟩
        obtain ⟨hocc, hbefore⟩ := first_eq_some_iff.mp hk
        refine ⟨(hsucc k).mpr hocc, fun j hj => ?_⟩
        cases j with
        | zero => exact hzero.not.mpr hprefix
        | succ j => exact (hsucc j).not.mpr (hbefore j (by omega))
      · rintro ⟨hocc, hbefore⟩
        cases i with
        | zero => exact absurd (hzero.mp hocc) hprefix
        | succ k =>
          refine ⟨k, first_eq_some_iff.mpr ⟨(hsucc k).mp hocc, fun j hj => ?_⟩, rfl⟩
          exact (hsucc j).not.mp (hbefore (j + 1) (by omega))

theorem find_eq_some_iff {s sub : List α} {start i : Nat} :
    find s sub start = some i ↔ start ≤ i ∧ OccursAt s sub i ∧ ∀ j, start ≤ j → j < i → ¬ OccursAt s sub j := by
  have hdrop : ∀ k, start ≤ s.length → (OccursAt (s.drop start) sub k ↔ OccursAt s sub (start + k)) := by
    intro k hstart
    simp only [OccursAt, List.length_drop, List.drop_drop]
    exact and_congr (by omega) Iff.rfl
  unfold find
  by_cases hstart : start ≤ s.length
  · rw [if_pos hstart, Option.map_eq_some_iff]
    constructor
    · rintro ⟨k, hk, rfl⟩
      obtain ⟨hocc, hbefore⟩ := first_eq_some_iff.mp hk
      refine ⟨Nat.le_add_right _ _, (hdrop k hstart).mp hocc, fun j hj hlt => ?_⟩
      obtain ⟨k', rfl⟩ := Nat.exists_eq_add_of_le hj
      exact (hdrop k' hstart).not.mp (hbefore k' (by omega))
    · rintro ⟨hle, hocc, hbefore⟩
      obtain ⟨k, rfl⟩ := Nat.exists_eq_add_of_le hle
      refine ⟨k, first_eq_some_iff.mpr ⟨(hdrop k hstart).mpr hocc, fun j hj => ?_⟩, rfl⟩
      exact (hdrop j hstart).not.mpr (hbefore (start + j) (by omega) (by omega))
  · rw [if_neg hstart]
    refine iff_of_false (by simp) fun ⟨hle, hocc, _⟩ => ?_
    have := hocc.1
    omega

/-- A search from an occurrence finds it. -/
theorem find_self {s sub : List α} {i : Nat} (h : OccursAt s sub i) : find s sub i = some i :=
  find_eq_some_iff.mpr ⟨Nat.le_refl i, h, fun _ _ _ => by omega⟩

/-- Where there is an occurrence from `start` on, one is found. -/
theorem exists_find {s sub : List α} {start k : Nat} (hk : OccursAt s sub k) (hle : start ≤ k) :
    ∃ i, find s sub start = some i := by
  classical
  have hex : ∃ i, start ≤ i ∧ OccursAt s sub i := ⟨k, hle, hk⟩
  refine ⟨Nat.find hex, find_eq_some_iff.mpr ⟨(Nat.find_spec hex).1, (Nat.find_spec hex).2, fun j hj hlt hocc => ?_⟩⟩
  exact Nat.find_min hex hlt ⟨hj, hocc⟩

/-- What is found is no later than an occurrence from `start` on. -/
theorem find_le {s sub : List α} {start i k : Nat} (h : find s sub start = some i) (hk : OccursAt s sub k)
    (hle : start ≤ k) : i ≤ k := by
  by_contra hlt
  exact (find_eq_some_iff.mp h).2.2 k hle (by omega) hk

/-- A search in a part that holds all of what is found. -/
theorem find_window {pre s post sub : List α} {start i : Nat} (h : i + sub.length ≤ s.length) :
    find (pre ++ (s ++ post)) sub (pre.length + start) = some (pre.length + i) ↔ find s sub start = some i := by
  rw [find_eq_some_iff, find_eq_some_iff, occursAt_window h]
  refine and_congr (by omega) (and_congr Iff.rfl ⟨fun hbefore j hj hlt => ?_, fun hbefore j hj hlt => ?_⟩)
  · have hwindow : OccursAt (pre ++ (s ++ post)) sub (pre.length + j) ↔ OccursAt s sub j := occursAt_window (by omega)
    rw [← hwindow]
    exact hbefore (pre.length + j) (by omega) (by omega)
  · obtain ⟨k, rfl⟩ := Nat.exists_eq_add_of_le (show pre.length ≤ j by omega)
    rw [occursAt_window (by omega)]
    exact hbefore k (by omega) (by omega)

end GptCache.Sequence
