/-
Records that belong to what a store holds under keys, and stores that drop
what was marked.

A step from `s` to `s'` clears well (`RecordView.Cleared`) when no record is
left without its owner and what is not marked stays as it was. Dropping just
the records of marked keys, with the keys, does (`Cleared.of_dropped`).
-/
import Mathlib.Data.List.Basic

namespace GptCache

/-- What a store holds: keys, some of them marked, and records that belong to keys. -/
structure RecordView (S K R : Type) where
  stored : S → K → Prop
  marked : S → K → Prop
  records : S → List R
  owner : R → K
  /-- The records a reader is shown. -/
  listed : S → R → Prop

namespace RecordView

variable {S K R : Type} (v : RecordView S K R)

/-- No record is without its owner. -/
def Owned (s : S) : Prop := ∀ r ∈ v.records s, v.stored s (v.owner r)

variable [DecidableEq K]

structure Cleared (s s' : S) : Prop where
  owned : v.Owned s'
  listed : ∀ r, v.listed s' r → v.stored s' (v.owner r)
  stored : ∀ k, ¬ v.marked s k → (v.stored s' k ↔ v.stored s k)
  records : ∀ k, ¬ v.marked s k →
    (v.records s').filter (fun r => v.owner r = k) = (v.records s).filter fun r => v.owner r = k

variable {v} {s s' : S}

theorem Cleared.of_dropped (gone : List K) (howned : v.Owned s) (hgone : ∀ k ∈ gone, v.marked s k)
    (hstored : ∀ k, v.stored s' k ↔ v.stored s k ∧ k ∉ gone)
    (hrecords : v.records s' = (v.records s).filter fun r => v.owner r ∉ gone)
    (hlisted : ∀ r, v.listed s' r → r ∈ v.records s') : v.Cleared s s' := by
  have howned' : v.Owned s' := by
    intro r hr
    rw [hrecords, List.mem_filter, decide_eq_true_eq] at hr
    exact (hstored _).mpr ⟨howned r hr.1, hr.2⟩
  refine ⟨howned', fun r hr => howned' r (hlisted r hr), fun k hk => ?_, fun k hk => ?_⟩
  · have hkept : k ∉ gone := fun hmem => hk (hgone k hmem)
    rw [hstored, and_iff_left hkept]
  · rw [hrecords, List.filter_filter]
    refine List.filter_congr fun r _ => ?_
    by_cases hr : v.owner r = k
    · have hkept : v.owner r ∉ gone := fun hmem => hk (hr ▸ hgone _ hmem)
      simp [hr, hr ▸ hkept]
    · simp [hr]

/-- A step that changes nothing, where nothing is to be dropped. -/
theorem Cleared.refl (howned : v.Owned s) (hlisted : ∀ r, v.listed s r → r ∈ v.records s) : v.Cleared s s :=
  ⟨howned, fun r hr => howned r (hlisted r hr), fun _ _ => Iff.rfl, fun _ _ => rfl⟩

end RecordView

end GptCache
