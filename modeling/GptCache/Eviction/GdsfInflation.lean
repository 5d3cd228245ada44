/-
The inflation of a `GDSFCache` with costs that are not negative, whatever the
sizes and in any run: it never falls, no cached key's priority is under it,
and so the priorities of the keys evicted one after another never fall either
(`inflation_lower_bound`).

Histories are greedy-dual runs with a least rise of 0. That a stale entry may
carry any priority does not matter here: the priority at which a key is
evicted is its own, `_prio[key]`, since no other entry is live.
-/
import Mathlib.Algebra.Order.Ring.Rat
import Mathlib.Data.NNRat.Defs
import GptCache.Eviction.GdsfAgeing

namespace GptCache

namespace Textbook

open GDSFCache (Op Outcome costOf sizeOf)

variable {K α : Type} [DecidableEq K] {g : Value α → ℚ}

/-- The priorities of the keys evicted, at their evictions, the last first. -/
def evictedPrios (g : Value α → ℚ) : List (Event K (Value α)) → List ℚ
  | [] => []
  | .popped k :: h => (replay g h).prio g k :: evictedPrios g h
  | .stored _ _ :: h | .read _ :: h | .deleted _ :: h => evictedPrios g h

/-- The inflation is the priority of the key evicted last. -/
theorem inflation_eq (h : List (Event K (Value α))) : (replay g h).inflation = (evictedPrios g h).headD 0 := by
  induction h with
  | nil => rfl
  | cons e h ih =>
    cases e with
    | stored k v | read k | deleted k => exact ih
    | popped k => rfl

/-- A history is a bound for what is cached after it. -/
theorem len_replay_le (h : List (Event K (Value α))) : (replay g h).value.len ≤ h.length := by
  induction h with
  | nil => exact Nat.le_refl 0
  | cons e h ih =>
    rw [List.length_cons]
    cases e with
    | stored k v =>
      simp only [replay, step]
      rcases hk : (replay g h).value.contains k with _ | _
      · rw [Dict.len_set_of_not_mem hk]
        omega
      · rw [Dict.len_set_of_mem hk]
        omega
    | read k => exact ih.trans (Nat.le_succ _)
    | deleted k | popped k => exact (len_erase_le _ k).trans (ih.trans (Nat.le_succ _))

theorem within_length {N : Nat} {h : List (Event K (Value α))} (hN : h.length ≤ N) : Within g N h := by
  induction h with
  | nil => trivial
  | cons e h ih => exact ⟨ih (Nat.le_of_succ_le hN), (len_replay_le (e :: h)).trans hN⟩

/-- No cached key's priority is under the inflation. -/
theorem inflation_le_prio {h : List (Event K (Value α))} (hf : Follows g h) (hcost : CostsAtLeast g 0 h) {k : K}
    (hk : (replay g h).value.contains k = true) : (replay g h).inflation ≤ (replay g h).prio g k :=
  greedyDual_bounded le_rfl hf hcost (within_length le_rfl) k (mem_keys.mpr hk)

/-- Every priority evicted at is under the inflation it leaves, and above
those before it. -/
theorem evictedPrios_sorted {h : List (Event K (Value α))} (hf : Follows g h) (hcost : CostsAtLeast g 0 h) :
    (∀ P ∈ evictedPrios g h, P ≤ (replay g h).inflation) ∧ (evictedPrios g h).Pairwise (· ≥ ·) := by
  induction h with
  | nil => exact ⟨by simp [evictedPrios], List.Pairwise.nil⟩
  | cons e h ih =>
    obtain ⟨hle, hsorted⟩ := ih hf.1 hcost.tail
    cases e with
    | stored k v | read k | deleted k => exact ⟨hle, hsorted⟩
    | popped k =>
      have hrise : (replay g h).inflation ≤ (replay g h).prio g k := inflation_le_prio hf.1 hcost.tail hf.2.1
      refine ⟨fun P hP => ?_, List.pairwise_cons.mpr ⟨fun P hP => (hle P hP).trans hrise, hsorted⟩⟩
      rcases List.mem_cons.mp hP with rfl | hP
      · exact le_rfl
      · exact (hle P hP).trans hrise

theorem inflation_mono {evs h : List (Event K (Value α))} (hf₁ : Follows g h) (hf : Follows g (evs ++ h))
    (hcost : CostsAtLeast g 0 (evs ++ h)) : (replay g h).inflation ≤ (replay g (evs ++ h)).inflation := by
  have hcost₁ : CostsAtLeast g 0 h := fun k v hm => hcost k v (List.mem_append_right _ hm)
  have hrun := greedyDual_run le_rfl evs hf hcost (within_length le_rfl)
  exact hrun.mono le_rfl (greedyDual_bounded le_rfl hf₁ hcost₁ (within_length le_rfl))

end Textbook

namespace GDSFCache

variable {K α : Type} [DecidableEq K]

omit [DecidableEq K] in
theorem costsAtLeast_zero {g : Value α → ℚ} (hg : ∀ v, 0 ≤ g v) {h : List (Event K (Value α))}
    (hcost : ∀ k v, .stored k v ∈ h → 0 ≤ costOf v) : Textbook.CostsAtLeast g 0 h := by
  intro k v hm
  refine div_nonneg (hcost k v hm) ?_
  unfold sizeOf
  split
  · exact zero_le_one
  · exact hg v

/-- The priority a key is evicted at is the one `_prio` has for it. -/
theorem Inv.prio_eq {s : GDSFCache K α} (h : Inv s) {k : K} {P : ℚ} (hk : s.prio.get? k = some P) :
    s.textbook.value.contains k = true ∧ s.textbook.prio s.base.getsizeof k = P := by
  rw [h.prio k] at hk
  obtain ⟨v, hv, rfl⟩ := Option.map_eq_some_iff.mp hk
  exact ⟨Dict.contains_eq_true.mpr ⟨v, hv⟩, rfl⟩

/-- **Inflation** with costs that are not negative: whatever calls come, it
never falls from one reachable state to a later one, every priority is at
least the inflation, and the keys evicted one after another, also those inside
one call, were evicted at priorities that never fall. -/
theorem inflation_lower_bound (maxsize : ℚ) (getsizeof : Value α → ℚ≥0) (ops₁ ops₂ : List (Op K α)) (fuel : Nat)
    (hfuel : ops₁.length + ops₂.length < fuel) (hcost : ∀ k v, .setitem k v ∈ ops₁ ++ ops₂ → 0 ≤ costOf v) :
    ∃ outs₁ s₁ outs₂ s₂, run fuel (new maxsize fun v => getsizeof v) ops₁ = some (outs₁, s₁) ∧
      run fuel s₁ ops₂ = some (outs₂, s₂) ∧ s₁.inflation ≤ s₂.inflation ∧
      (∀ k P, s₂.prio.get? k = some P → s₂.inflation ≤ P) ∧
      s₂.inflation = (Textbook.evictedPrios s₂.base.getsizeof s₂.base.history).headD 0 ∧
      (Textbook.evictedPrios s₂.base.getsizeof s₂.base.history).reverse.Pairwise (· ≤ ·) := by
  let g : Value α → ℚ := fun v => getsizeof v
  obtain ⟨outs₁, s₁, hrun₁, hi₁, hm₁, hg₁, hlen₁, hr₁⟩ :=
    run_ok fuel ops₁ (new_inv (K := K) (α := α) maxsize g) (by simp only [new, Cache.new, Dict.len_empty]; omega)
  simp only [new, Cache.new, Dict.len_empty] at hm₁ hg₁ hlen₁ hr₁
  obtain ⟨outs₂, s₂, hrun₂, hi₂, -, hg₂, -, hr₂⟩ := run_ok fuel ops₂ hi₁ (by omega)
  have hgetsizeof : s₂.base.getsizeof = g := hg₂.trans hg₁
  obtain ⟨evs₁, hevs₁, hops₁⟩ := hr₁.extends
  obtain ⟨evs, hevs, hops⟩ := hr₂.extends
  have hcosts : Textbook.CostsAtLeast g 0 s₂.base.history := by
    refine costsAtLeast_zero (fun v => (getsizeof v).2) fun k v hm => hcost k v ?_
    rw [hevs, hevs₁, List.append_nil, List.mem_append] at hm
    exact List.mem_append.mpr (hm.symm.imp (hops₁ k v) (hops k v))
  have hf₁ := hi₁.follows
  have hf₂ := hi₂.follows
  rw [hg₁] at hf₁
  rw [hgetsizeof] at hf₂
  refine ⟨outs₁, s₁, outs₂, s₂, hrun₁, hrun₂, ?_, fun k P hk => ?_, ?_, ?_⟩
  · rw [hi₁.inflation, hi₂.inflation, textbook, textbook, hg₁, hgetsizeof, hevs]
    exact Textbook.inflation_mono hf₁ (hevs ▸ hf₂) (hevs ▸ hcosts)
  · obtain ⟨hcached, rfl⟩ := hi₂.prio_eq hk
    rw [hi₂.inflation]
    rw [textbook, hgetsizeof] at hcached ⊢
    exact Textbook.inflation_le_prio hf₂ hcosts hcached
  · rw [hi₂.inflation, textbook]
    exact Textbook.inflation_eq _
  · rw [hgetsizeof, List.pairwise_reverse]
    exact (Textbook.evictedPrios_sorted hf₂ hcosts).2

/-- Two places: the key that costs more is overwritten at a lower cost, and
its old entry stays in the heap. -/
theorem inflation_lower_bound_two :
    ∃ outs₁ s₁ outs₂ s₂, run 6 (new (2 : Nat) fun _ => ((1 : ℚ≥0) : ℚ) : GDSFCache Nat Unit)
        [.setitem 1 (.num 9), .setitem 2 (.num 3)] = some (outs₁, s₁) ∧
      run 6 s₁ [.setitem 1 (.num 1), .setitem 3 (.num 4), .popitem] = some (outs₂, s₂) ∧ s₁.inflation ≤ s₂.inflation ∧
      (∀ k P, s₂.prio.get? k = some P → s₂.inflation ≤ P) ∧
      s₂.inflation = (Textbook.evictedPrios s₂.base.getsizeof s₂.base.history).headD 0 ∧
      (Textbook.evictedPrios s₂.base.getsizeof s₂.base.history).reverse.Pairwise (· ≤ ·) :=
  inflation_lower_bound (2 : Nat) (fun _ => 1) [.setitem 1 (.num 9), .setitem 2 (.num 3)]
    [.setitem 1 (.num 1), .setitem 3 (.num 4), .popitem] 6 (by decide) (by
      intro k v hm
      simp only [List.cons_append, List.nil_append, List.mem_cons, Op.setitem.injEq, List.not_mem_nil, reduceCtorEq,
        or_false] at hm
      rcases hm with ⟨-, rfl⟩ | ⟨-, rfl⟩ | ⟨-, rfl⟩ | ⟨-, rfl⟩ <;> norm_num [costOf])

end GDSFCache

end GptCache
