/-
Greedy-dual ageing, in general. Live keys have priorities, and an inflation
rises to the priority of the last key evicted. A key is raised to at least
the inflation plus `c`, dropped, or, having the least priority of all,
evicted.

* `Run.mono`, `Run.bounded`: the inflation never falls, and no live key's
  priority is under it.
* `Run.evictions_lt`: of at most `N` live keys, one with priority `P` that is
  left alone and survives a run sees fewer than `N * (⌊(P - L) / c⌋ + 1)`
  evictions. The argument is by rounds: in each, at most `N` evictions lift
  the inflation by `c` (`Run.round`), because a key raised in the round lands
  above the round's target and the keys under it can only leave.
* `Run.mem_take_evicted`: so it is among the first that many evicted.
-/
import Mathlib.Algebra.Order.Floor.Semiring
import Mathlib.Data.Finset.Card
import Mathlib.Tactic.Linarith

namespace GptCache.GreedyDual

structure State (K F : Type) where
  keys : Finset K
  prio : K → F
  inflation : F

inductive Label (K : Type) where
  | raise (k : K)
  | drop (k : K)
  | evict (k : K)

def Label.key {K : Type} : Label K → K
  | .raise k | .drop k | .evict k => k

/-- The keys a run evicts, in order. -/
def evicted {K : Type} : List (Label K) → List K
  | [] => []
  | .evict k :: ls => k :: evicted ls
  | .raise _ :: ls | .drop _ :: ls => evicted ls

/-- Up to its eviction, `k` is not raised and not dropped. -/
def Untouched {K : Type} (k : K) : List (Label K) → Prop
  | [] => True
  | .evict k' :: ls => k' = k ∨ Untouched k ls
  | .raise k' :: ls | .drop k' :: ls => k' ≠ k ∧ Untouched k ls

theorem evicted_append {K : Type} (xs ys : List (Label K)) : evicted (xs ++ ys) = evicted xs ++ evicted ys := by
  induction xs with
  | nil => rfl
  | cons l xs ih => cases l <;> simp [evicted, ih]

/-- A run has a prefix with just the first `n` evictions. -/
theorem exists_prefix_evicted {K : Type} (ls : List (Label K)) (n : Nat) :
    ∃ ls₁ ls₂, ls = ls₁ ++ ls₂ ∧ evicted ls₁ = (evicted ls).take n := by
  induction ls generalizing n with
  | nil => exact ⟨[], [], rfl, by simp [evicted]⟩
  | cons l ls ih =>
    cases l with
    | raise k | drop k =>
      obtain ⟨ls₁, ls₂, rfl, h⟩ := ih n
      exact ⟨_ :: ls₁, ls₂, rfl, by simpa [evicted] using h⟩
    | evict k =>
      cases n with
      | zero => exact ⟨[], _, rfl, by simp [evicted]⟩
      | succ n =>
        obtain ⟨ls₁, ls₂, rfl, h⟩ := ih n
        exact ⟨_ :: ls₁, ls₂, rfl, by simp [evicted, h]⟩

/-- Before the eviction of a key left alone, no label names it. -/
theorem Untouched.key_ne {K : Type} {k : K} {ls₁ ls₂ : List (Label K)} (h : Untouched k (ls₁ ++ ls₂))
    (hk : k ∉ evicted ls₁) : ∀ l ∈ ls₁, l.key ≠ k := by
  induction ls₁ with
  | nil => simp
  | cons l ls₁ ih =>
    intro l' hl'
    cases l with
    | raise k' | drop k' =>
      rcases List.mem_cons.mp hl' with rfl | hm
      · exact h.1
      · exact ih h.2 hk l' hm
    | evict k' =>
      simp only [evicted, List.mem_cons, not_or] at hk
      rcases List.mem_cons.mp hl' with rfl | hm
      · exact fun he => hk.1 he.symm
      · exact ih (h.resolve_left fun he => hk.1 he.symm) hk.2 l' hm

/-- The live keys under the target `T`. -/
def low {K F : Type} [LinearOrder F] (s : State K F) (T : F) : Finset K := s.keys.filter fun k => s.prio k < T

theorem mem_low {K F : Type} [LinearOrder F] {s : State K F} {T : F} {k : K} : k ∈ low s T ↔
    k ∈ s.keys ∧ s.prio k < T := by
  simp [low]

variable {K F : Type} [DecidableEq K] [Field F] [LinearOrder F]

/-- One step: `c` is the least rise over the inflation, `N` the capacity. -/
inductive Step (c : F) (N : Nat) (s : State K F) : Label K → State K F → Prop
  | raise {k s'} : s'.keys = insert k s.keys → s'.keys.card ≤ N →
      (∀ k' ∈ s.keys, k' ≠ k → s'.prio k' = s.prio k') → s.inflation + c ≤ s'.prio k →
      s'.inflation = s.inflation → Step c N s (.raise k) s'
  | drop {k s'} : s'.keys = s.keys.erase k → (∀ k' ∈ s'.keys, s'.prio k' = s.prio k') →
      s'.inflation = s.inflation → Step c N s (.drop k) s'
  | evict {k s'} : k ∈ s.keys → (∀ k' ∈ s.keys, s.prio k ≤ s.prio k') →
      s'.keys = s.keys.erase k → (∀ k' ∈ s'.keys, s'.prio k' = s.prio k') →
      s'.inflation = s.prio k → Step c N s (.evict k) s'

inductive Run (c : F) (N : Nat) : State K F → List (Label K) → State K F → Prop
  | nil {s} : Run c N s [] s
  | cons {s l s' ls s''} : Step c N s l s' → Run c N s' ls s'' → Run c N s (l :: ls) s''

variable {c : F} {N : Nat} {s s' s'' : State K F} {l : Label K} {ls ls' : List (Label K)}

theorem Run.append (h : Run c N s ls s') (h' : Run c N s' ls' s'') : Run c N s (ls ++ ls') s'' := by
  induction h with
  | nil => exact h'
  | cons hs _ ih => exact .cons hs (ih h')

theorem Run.split {ls₁ ls₂ : List (Label K)} (h : Run c N s (ls₁ ++ ls₂) s'') :
    ∃ s₁, Run c N s ls₁ s₁ ∧ Run c N s₁ ls₂ s'' := by
  induction ls₁ generalizing s with
  | nil => exact ⟨s, .nil, h⟩
  | cons l ls₁ ih =>
    cases h with
    | cons hs hr =>
      obtain ⟨s₁, h₁, h₂⟩ := ih hr
      exact ⟨s₁, .cons hs h₁, h₂⟩

/-- No live key is under the inflation. -/
def Bounded (s : State K F) : Prop := ∀ k ∈ s.keys, s.inflation ≤ s.prio k

/-- A key no label names stays, at its priority. -/
theorem Step.other {k : K} (h : Step c N s l s') (hk : k ∈ s.keys) (hl : l.key ≠ k) :
    k ∈ s'.keys ∧ s'.prio k = s.prio k := by
  cases h with
  | raise hkeys _ hp _ _ =>
    exact ⟨hkeys ▸ Finset.mem_insert_of_mem hk, hp k hk fun h => hl h.symm⟩
  | drop hkeys hp _ =>
    have hm : k ∈ s'.keys := hkeys ▸ Finset.mem_erase.mpr ⟨fun h => hl h.symm, hk⟩
    exact ⟨hm, hp k hm⟩
  | evict _ _ hkeys hp _ =>
    have hm : k ∈ s'.keys := hkeys ▸ Finset.mem_erase.mpr ⟨fun h => hl h.symm, hk⟩
    exact ⟨hm, hp k hm⟩

theorem Run.other {k : K} (h : Run c N s ls s') (hk : k ∈ s.keys) (hl : ∀ l ∈ ls, l.key ≠ k) :
    k ∈ s'.keys ∧ s'.prio k = s.prio k := by
  induction h with
  | nil => exact ⟨hk, rfl⟩
  | cons hs _ ih =>
    obtain ⟨hk', hp⟩ := hs.other hk (hl _ (by simp))
    obtain ⟨hk'', hp'⟩ := ih hk' fun l hm => hl l (by simp [hm])
    exact ⟨hk'', hp'.trans hp⟩

theorem Step.card_le (h : Step c N s l s') (hN : s.keys.card ≤ N) : s'.keys.card ≤ N := by
  cases h with
  | raise _ hcard _ _ _ => exact hcard
  | drop hkeys _ _ => exact hkeys ▸ (Finset.card_erase_le).trans hN
  | evict _ _ hkeys _ _ => exact hkeys ▸ (Finset.card_erase_le).trans hN

theorem Run.card_le (h : Run c N s ls s') (hN : s.keys.card ≤ N) : s'.keys.card ≤ N := by
  induction h with
  | nil => exact hN
  | cons hs _ ih => exact ih (hs.card_le hN)

theorem Step.mono (h : Step c N s l s') (hb : Bounded s) : s.inflation ≤ s'.inflation := by
  cases h with
  | raise _ _ _ _ hinf => exact hinf.ge
  | drop _ _ hinf => exact hinf.ge
  | evict hk _ _ _ hinf => exact hinf ▸ hb _ hk

variable [IsStrictOrderedRing F]

theorem Step.bounded (hc : 0 ≤ c) (h : Step c N s l s') (hb : Bounded s) : Bounded s' := by
  intro k hk
  cases h with
  | @raise k' _ hkeys _ hp hk' hinf =>
    rw [hinf]
    by_cases he : k = k'
    · subst he; linarith
    · have hm : k ∈ s.keys := (Finset.mem_insert.mp (hkeys ▸ hk)).resolve_left he
      rw [hp k hm he]; exact hb k hm
  | drop hkeys hp hinf =>
    rw [hinf, hp k hk]
    exact hb k (Finset.mem_of_mem_erase (hkeys ▸ hk))
  | evict _ hmin hkeys hp hinf =>
    rw [hinf, hp k hk]
    exact hmin k (Finset.mem_of_mem_erase (hkeys ▸ hk))

theorem Run.bounded (hc : 0 ≤ c) (h : Run c N s ls s') (hb : Bounded s) : Bounded s' := by
  induction h with
  | nil => exact hb
  | cons hs _ ih => exact ih (hs.bounded hc hb)

theorem Run.mono (hc : 0 ≤ c) (h : Run c N s ls s') (hb : Bounded s) : s.inflation ≤ s'.inflation := by
  induction h with
  | nil => exact le_rfl
  | cons hs _ ih => exact (hs.mono hb).trans (ih (hs.bounded hc hb))

/-! ## Rounds -/

/-- With the target at most `c` over the inflation, a step that evicts no key
adds none under the target. -/
theorem Step.low_subset {T : F} (h : Step c N s l s') (hT : T ≤ s.inflation + c) : low s' T ⊆ low s T := by
  intro k hk
  obtain ⟨hk, hlt⟩ := mem_low.mp hk
  cases h with
  | @raise k' _ hkeys _ hp hk' _ =>
    by_cases he : k = k'
    · subst he; linarith
    · have hm : k ∈ s.keys := (Finset.mem_insert.mp (hkeys ▸ hk)).resolve_left he
      exact mem_low.mpr ⟨hm, hp k hm he ▸ hlt⟩
  | drop hkeys hp _ =>
    exact mem_low.mpr ⟨Finset.mem_of_mem_erase (hkeys ▸ hk), hp k hk ▸ hlt⟩
  | evict _ _ hkeys hp _ =>
    exact mem_low.mpr ⟨Finset.mem_of_mem_erase (hkeys ▸ hk), hp k hk ▸ hlt⟩

/-- An eviction under the target takes one key from under it. -/
theorem Step.low_card_lt {T : F} {k : K} (h : Step c N s (.evict k) s') (hT : T ≤ s.inflation + c)
    (hk : s.prio k < T) : (low s' T).card < (low s T).card := by
  refine Finset.card_lt_card ((Finset.ssubset_iff_of_subset (h.low_subset hT)).mpr ⟨k, ?_, ?_⟩)
  all_goals
    cases h with
    | evict hmem _ hkeys _ _ => simp [mem_low, hmem, hk, hkeys]

/-- A run with more evictions than keys under the target reaches it: some
prefix, with at most one eviction more than those keys, lifts the inflation
to the target. -/
theorem Run.round (hc : 0 ≤ c) {T : F} (h : Run c N s ls s') (hb : Bounded s)
    (hT : T ≤ s.inflation + c) (hev : (low s T).card < (evicted ls).length) :
    ∃ ls₁ ls₂ s₁, ls = ls₁ ++ ls₂ ∧ Run c N s ls₁ s₁ ∧ Run c N s₁ ls₂ s' ∧
      (evicted ls₁).length ≤ (low s T).card + 1 ∧ T ≤ s₁.inflation := by
  induction h with
  | nil => simp [evicted] at hev
  | @cons s l s₀ ls s' hs hr ih =>
    have hsub := Finset.card_le_card (hs.low_subset hT)
    have hmono := hs.mono hb
    have hT' : T ≤ s₀.inflation + c := by linarith
    cases l with
    | raise k | drop k =>
      obtain ⟨ls₁, ls₂, s₁, rfl, h₁, h₂, hlen, hinf⟩ :=
        ih (hs.bounded hc hb) hT' (by simp only [evicted] at hev; omega)
      exact ⟨_ :: ls₁, ls₂, s₁, rfl, .cons hs h₁, h₂, by simp only [evicted]; omega, hinf⟩
    | evict k =>
      by_cases hk : s.prio k < T
      · have hlt := hs.low_card_lt hT hk
        obtain ⟨ls₁, ls₂, s₁, rfl, h₁, h₂, hlen, hinf⟩ :=
          ih (hs.bounded hc hb) hT' (by simp only [evicted, List.length_cons] at hev; omega)
        exact ⟨_ :: ls₁, ls₂, s₁, rfl, .cons hs h₁, h₂, by simp only [evicted, List.length_cons]; omega, hinf⟩
      · refine ⟨[.evict k], ls, s₀, rfl, .cons hs .nil, hr, by simp [evicted], ?_⟩
        cases hs with
        | evict _ _ _ _ hinf => rw [hinf]; exact not_lt.mp hk

/-- While a key under the target survives, every eviction is under the target. -/
theorem Run.evictions_lt_low (hc : 0 ≤ c) {T : F} {k : K} (h : Run c N s ls s') (hb : Bounded s)
    (hT : T ≤ s.inflation + c) (hk : k ∈ s.keys) (hkT : s.prio k < T) (hl : ∀ l ∈ ls, l.key ≠ k) :
    (evicted ls).length < (low s T).card := by
  induction h with
  | nil => exact Finset.card_pos.mpr ⟨k, mem_low.mpr ⟨hk, hkT⟩⟩
  | @cons s l s₀ ls s' hs hr ih =>
    have hsub := Finset.card_le_card (hs.low_subset hT)
    have hmono := hs.mono hb
    obtain ⟨hk₀, hp₀⟩ := hs.other hk (hl l (by simp))
    have ih := ih (hs.bounded hc hb) (by linarith) hk₀ (by rwa [hp₀]) fun l hm => hl l (by simp [hm])
    cases l with
    | raise _ | drop _ => simp only [evicted]; omega
    | evict k' =>
      have hk' : s.prio k' < T := by
        cases hs with
        | evict _ hmin _ _ _ => exact (hmin k hk).trans_lt hkT
      have hlt := hs.low_card_lt hT hk'
      simp only [evicted, List.length_cons]; omega

theorem Run.evictions_lt_of_lt (hc : 0 ≤ c) {k : K} :
    ∀ (m : Nat) {s : State K F} {ls : List (Label K)}, Run c N s ls s' → Bounded s → s.keys.card ≤ N →
      k ∈ s.keys → (∀ l ∈ ls, l.key ≠ k) → s.prio k < s.inflation + (m + 1) * c →
      (evicted ls).length < N * (m + 1) := by
  intro m
  induction m with
  | zero =>
    intro s ls h hb hN hk hl hlt
    have hcard : (low s (s.inflation + c)).card ≤ N := (Finset.card_filter_le _ _).trans hN
    have := h.evictions_lt_low hc hb le_rfl hk (by simpa using hlt) hl
    omega
  | succ m ih =>
    intro s ls h hb hN hk hl hlt
    have hcard : (low s (s.inflation + c)).card ≤ N := (Finset.card_filter_le _ _).trans hN
    have hmul : N * (m + 1 + 1) = N * (m + 1) + N := Nat.mul_succ _ _
    by_cases hkT : s.prio k < s.inflation + c
    · have := h.evictions_lt_low hc hb le_rfl hk hkT hl
      omega
    · -- `k` is over the target, so at most `N - 1` keys are under it
      have hcard' : (low s (s.inflation + c)).card < N := by
        refine lt_of_lt_of_le (Finset.card_lt_card ?_) hN
        refine (Finset.ssubset_iff_of_subset (Finset.filter_subset _ _)).mpr ⟨k, hk, ?_⟩
        simp [hkT]
      rcases Nat.lt_or_ge (low s (s.inflation + c)).card (evicted ls).length with hev | hev
      · obtain ⟨ls₁, ls₂, s₁, rfl, h₁, h₂, hlen, hinf⟩ := h.round hc hb le_rfl hev
        obtain ⟨hk₁, hp₁⟩ := h₁.other hk fun l hm => hl l (by simp [hm])
        have := ih h₂ (h₁.bounded hc hb) (h₁.card_le hN) hk₁ (fun l hm => hl l (by simp [hm])) (by
          rw [hp₁]; push_cast at hlt; linarith)
        rw [evicted_append, List.length_append]
        omega
      · omega

variable [FloorSemiring F]

/-- **Bounded ageing.** A key at priority `P` that a run neither names nor
evicts sees fewer than `N * (⌊(P - L) / c⌋ + 1)` evictions. -/
theorem Run.evictions_lt (hc : 0 < c) {k : K} (h : Run c N s ls s') (hb : Bounded s)
    (hN : s.keys.card ≤ N) (hk : k ∈ s.keys) (hl : ∀ l ∈ ls, l.key ≠ k) :
    (evicted ls).length < N * (⌊(s.prio k - s.inflation) / c⌋₊ + 1) := by
  refine h.evictions_lt_of_lt hc.le _ hb hN hk hl ?_
  have := Nat.lt_floor_add_one ((s.prio k - s.inflation) / c)
  rw [div_lt_iff₀ hc] at this
  linarith

/-! ## The eviction of a key left alone -/

/-- A key left alone is among the first `N * (⌊(P - L) / c⌋ + 1)` evicted. -/
theorem Run.mem_take_evicted (hc : 0 < c) {k : K} (h : Run c N s ls s') (hb : Bounded s)
    (hN : s.keys.card ≤ N) (hk : k ∈ s.keys) (hu : Untouched k ls)
    (hlen : N * (⌊(s.prio k - s.inflation) / c⌋₊ + 1) ≤ (evicted ls).length) :
    k ∈ (evicted ls).take (N * (⌊(s.prio k - s.inflation) / c⌋₊ + 1)) := by
  by_contra hnot
  obtain ⟨ls₁, ls₂, rfl, he⟩ := exists_prefix_evicted ls (N * (⌊(s.prio k - s.inflation) / c⌋₊ + 1))
  obtain ⟨s₁, h₁, -⟩ := h.split
  have hlt := h₁.evictions_lt hc hb hN hk (hu.key_ne (he ▸ hnot))
  rw [he, List.length_take] at hlt
  omega

end GptCache.GreedyDual
